import WebTos.Net.Relay

/-!
Calls of the guest and deliveries of the host, in any order (`net.rs`).

A delivery looks its endpoint up with `entry(handle).or_default()`, so that one that comes
after the guest closed the handle makes a new endpoint.

* `BrokerEvent`, `Timely`: the calls and deliveries, and the condition on them;
* `Tapped`, `Kept`: the broker with logs of one handle, and what holds of them;
* `closed_stays_closed`: a closed handle stays closed, and an open one is read in order;
* `late_delivery_reopens`: a run with a late delivery.
-/

namespace WebTos.Net

open Lib List Function

/-- A call of the guest, or a delivery of the host. -/
inductive BrokerEvent where
  | call (c : NetCall)
  | connected (handle : Handle) (localAddr : Option SocketAddrV4)
  | data (handle : Handle) (bytes : Bytes)
  | datagram (handle : Handle) (sender : SocketAddrV4) (bytes : Bytes)
  | closed (handle : Handle)
  | error (handle : Handle) (errno : UInt64)

/-- `Endpoint::readable`. -/
def Endpoint.readable (e : Endpoint) : Bool :=
  !e.rx.isEmpty || !e.datagrams.isEmpty || e.closed || e.error.isSome

namespace HostBroker

/-- `readable`. -/
def readable (b : HostBroker) (handle : Handle) : Bool :=
  (b.endpoints handle).any Endpoint.readable

/-- One call or delivery. -/
def event (b : HostBroker) : BrokerEvent → HostBroker
  | .call c => hostBroker.next b c
  | .connected handle localAddr => b.deliverConnected handle localAddr
  | .data handle bytes => b.deliverData handle bytes
  | .datagram handle sender bytes => b.deliverDatagram handle sender bytes
  | .closed handle => b.deliverClosed handle
  | .error handle errno => b.deliverError handle errno

/-- A delivery is for a handle that has an endpoint, and a call finds the counter of the handles
below its last value, where it stays. -/
def Timely (b : HostBroker) : BrokerEvent → Prop
  | .call _ => b.nextHandle.toNat + 1 < 2 ^ 64
  | .connected handle _ | .data handle _ | .datagram handle _ _ | .closed handle
  | .error handle _ => (b.endpoints handle).isSome

end HostBroker

/-- The broker, with the stream bytes delivered for one handle, those the guest read of it,
and whether the guest closed it. -/
structure Tapped extends HostBroker where
  told : Bytes := []
  read : Bytes := []
  closed : Bool := false

open HostBroker

namespace Tapped

/-- One call or delivery, with what it says of the handle. -/
def step (h : Handle) (s : Tapped) (ev : BrokerEvent) : Tapped where
  toHostBroker := s.event ev
  told := match ev with
    | .data handle bytes => if handle = h then s.told ++ bytes else s.told
    | _ => s.told
  read := match ev with
    | .call (.tcpRecv handle max) =>
      match (s.tcpRecv handle max).1 with
      | .ok (.data bytes) => if handle = h then s.read ++ bytes else s.read
      | _ => s.read
    | _ => s.read
  closed := match ev with
    | .call (.close handle) => if handle = h ∧ (s.endpoints h).isSome then true else s.closed
    | _ => s.closed

/-- What holds of a handle. -/
structure Kept (h : Handle) (s : Tapped) : Prop where
  closes : s.commands.count (.close h) = s.closed.toNat
  unread : ∀ e, s.endpoints h = some e →
    s.closed = false ∧ h.toNat < s.nextHandle.toNat ∧ s.told = s.read ++ e.rx
  ahead : s.nextHandle.toNat ≤ h.toNat → s.closed = false ∧ s.told = [] ∧ s.read = []

namespace Kept

variable {h handle : Handle} {s : Tapped} {b : HostBroker} {c : NetCommand}

lemma count_push (hc : c ≠ .close h) :
    (b.push c).commands.count (.close h) = b.commands.count (.close h) := by
  simp [HostBroker.push, hc]

variable (hk : Kept h s)
include hk

/-- The handle is not concerned. -/
lemma quiet (hend : b.endpoints h = s.endpoints h)
    (hcount : b.commands.count (.close h) = s.commands.count (.close h))
    (hnext : h.toNat < b.nextHandle.toNat ↔ h.toNat < s.nextHandle.toNat) :
    Kept h { s with toHostBroker := b } where
  closes := hcount.trans hk.closes
  unread e he := by
    rw [hnext]
    exact hk.unread e (hend.symm.trans he)
  ahead hle := hk.ahead (not_lt.mp (mt hnext.mpr (not_lt.mpr hle)))

lemma push (hc : c ≠ .close h) : Kept h { s with toHostBroker := s.push c } :=
  hk.quiet rfl (count_push hc) .rfl

lemma sendCommand (hc : c ≠ .close h) (len : ℕ) :
    Kept h { s with toHostBroker := (s.sendCommand handle c len).2 } := by
  rcases sendCommand_cases s.toHostBroker handle c len with heq | ⟨errno, heq⟩
  · rw [heq]
    exact hk.push hc
  · rw [heq]
    exact hk

/-- An endpoint changes, and with it the two logs of its handle. -/
lemma setEndpoint {e e' : Endpoint} {told read : Bytes} (hend : s.endpoints handle = some e)
    (hlog : handle = h → s.told = s.read ++ e.rx → told = read ++ e'.rx)
    (hother : handle ≠ h → told = s.told ∧ read = s.read) :
    Kept h ⟨s.setEndpoint handle e', told, read, s.closed⟩ := by
  by_cases hh : handle = h
  · subst hh
    obtain ⟨hclosed, hnext, hrx⟩ := hk.unread e hend
    refine ⟨hk.closes, fun e₁ he₁ => ?_, fun hle => absurd hnext (not_lt.mpr hle)⟩
    obtain rfl : e' = e₁ := by simpa [HostBroker.setEndpoint] using he₁
    exact ⟨hclosed, hnext, hlog rfl hrx⟩
  · obtain ⟨rfl, rfl⟩ := hother hh
    exact hk.quiet (update_of_ne (Ne.symm hh) ..) rfl .rfl

/-- A delivery that leaves the stream. -/
lemma deliver {e' : Endpoint} (hend : (s.endpoints handle).isSome)
    (hrx : e'.rx = (s.endpoint handle).rx) :
    Kept h { s with toHostBroker := s.setEndpoint handle e' } := by
  obtain ⟨e, he⟩ := Option.isSome_iff_exists.mp hend
  refine hk.setEndpoint he (fun _ hlog => ?_) fun _ => ⟨rfl, rfl⟩
  rw [hrx, hlog, endpoint, he, Option.getD_some]

lemma allocate (hroom : s.nextHandle.toNat + 1 < 2 ^ 64) (hc : c ≠ .close h) :
    Kept h { s with toHostBroker := s.allocate.2.push c } := by
  have hnext : (s.allocate.2.push c).nextHandle.toNat = s.nextHandle.toNat + 1 :=
    succHandle_toNat hroom
  by_cases hh : s.nextHandle = h
  · obtain ⟨hclosed, htold, hread⟩ := hk.ahead (by rw [hh])
    rw [hh] at hnext
    refine ⟨(count_push hc).trans hk.closes, fun e he => ?_, fun hle => ?_⟩
    · obtain rfl : {} = e := by
        simpa [HostBroker.allocate, HostBroker.push, HostBroker.setEndpoint, hh] using he
      exact ⟨hclosed, by rw [hnext]; exact Nat.lt_succ_self _, by rw [htold, hread]; rfl⟩
    · rw [hnext] at hle
      exact absurd hle (Nat.not_succ_le_self _)
  · refine hk.quiet (update_of_ne (Ne.symm hh) ..) (count_push hc) ?_
    have hne : s.nextHandle.toNat ≠ h.toNat := mt UInt64.toNat_inj.mp hh
    rw [hnext]
    omega

lemma close : Kept h (s.step h (.call (.close handle))) := by
  change Kept h ⟨s.close handle, s.told, s.read,
    if handle = h ∧ (s.endpoints h).isSome then true else s.closed⟩
  by_cases hh : handle = h
  · subst hh
    rw [HostBroker.close]
    cases he : s.endpoints handle with
    | none => simpa using hk
    | some e =>
      obtain ⟨hclosed, hnext, _⟩ := hk.unread e he
      refine ⟨?_, fun e' he' => ?_, fun hle => absurd hnext (not_lt.mpr hle)⟩
      · simp [HostBroker.push, hk.closes, hclosed]
      · simp [HostBroker.push] at he'
  · rw [if_neg fun hboth => hh hboth.1, HostBroker.close]
    split_ifs
    · exact hk.quiet (update_of_ne (Ne.symm hh) ..) (by simp [HostBroker.push, hh]) .rfl
    · exact hk

/-- **One event.** -/
lemma step {ev : BrokerEvent} (hev : s.Timely ev) : Kept h (s.step h ev) := by
  cases ev with
  | call c =>
    cases c with
    | tcpConnect | udpOpen => exact hk.allocate hev (by simp)
    | tcpSend | udpSendTo => exact hk.sendCommand (by simp) _
    | close => exact hk.close
    | tcpShutdownWrite handle =>
      change Kept h { s with toHostBroker := (s.tcpShutdownWrite handle).2 }
      rw [tcpShutdownWrite]
      split_ifs
      · exact hk.push (by simp)
      · exact hk
    | tcpRecv handle max =>
      -- a read takes what it returns from the front of the endpoint
      change Kept h ⟨(s.tcpRecv handle max).2, s.told, match (s.tcpRecv handle max).1 with
        | .ok (.data bytes) => if handle = h then s.read ++ bytes else s.read
        | _ => s.read, s.closed⟩
      rw [tcpRecv]
      cases he : s.endpoints handle with
      | none => exact hk
      | some e =>
        dsimp only
        by_cases hrx : e.rx ≠ []
        · rw [if_pos hrx]
          refine hk.setEndpoint he (fun hh hlog => ?_) fun hh => ⟨rfl, if_neg hh⟩
          simp [hh, hlog]
        · rw [if_neg hrx]
          cases e.error with
          | some errno => exact hk
          | none => cases e.closed <;> exact hk
    | udpRecvFrom handle max =>
      change Kept h { s with toHostBroker := (s.udpRecvFrom handle max).2 }
      rw [udpRecvFrom]
      cases he : s.endpoints handle with
      | none => exact hk
      | some e =>
        dsimp only
        split
        · exact hk.deliver (by simp [he]) (by simp [endpoint, he])
        · split <;> exact hk
  | data handle bytes =>
    -- data for an endpoint that is there goes behind what it holds
    obtain ⟨e, he⟩ := Option.isSome_iff_exists.mp hev
    refine hk.setEndpoint he (fun hh hlog => ?_) fun hh => ⟨if_neg hh, rfl⟩
    subst hh
    simp [hlog, endpoint, he]
  | connected | datagram | closed | error => exact hk.deliver hev rfl

end Kept

end Tapped

open Tapped

/-- **A closed handle stays closed**, in every run of timely events, and one close of it goes to
the host; of an open one the guest reads what was delivered, in order, and all of it before an
error or the end. -/
theorem closed_stays_closed (h : Handle) (es : List BrokerEvent)
    (htimely : Guarded (step h) (fun s => s.Timely) {} es) :
    let s := run (step h) {} es
    (s.closed → s.endpoints h = none ∧ s.readable h = false ∧
      (∀ bytes, (s.tcpSend h bytes).1 = .error EBADF) ∧
      (∀ max, (s.tcpRecv h max).1 = .error EBADF) ∧ (s.tcpShutdownWrite h).1 = .error EBADF ∧
      (∀ addr bytes, (s.udpSendTo h addr bytes).1 = .error EBADF) ∧
      ∀ max, (s.udpRecvFrom h max).1 = .error EBADF) ∧
    s.commands.count (.close h) = s.closed.toNat ∧
    ∀ e, s.endpoints h = some e → s.told = s.read ++ e.rx ∧
      ∀ max, (∀ bytes, (s.tcpRecv h max).1 ≠ .ok (.data bytes)) → s.told = s.read := by
  intro s
  have hk : Tapped.Kept h s := htimely.invariant (fun _ _ hk hev => hk.step hev)
    ⟨rfl, nofun, fun _ => ⟨rfl, rfl, rfl⟩⟩
  refine ⟨fun hclosed => ?_, hk.closes, fun e he => ⟨(hk.unread e he).2.2, fun max hmax => ?_⟩⟩
  · have hnone : s.endpoints h = none := by
      cases he : s.endpoints h with
      | none => rfl
      | some e => exact absurd (hk.unread e he).1 (by simp [hclosed])
    simp [hnone, HostBroker.readable, tcpSend, sendCommand, tcpRecv, tcpShutdownWrite, udpSendTo,
      udpRecvFrom]
  · have hrx : e.rx = [] := by
      by_contra hrx
      exact hmax _ (by rw [HostBroker.tcpRecv, he]; exact congrArg Prod.fst (if_pos hrx))
    rw [(hk.unread e he).2.2, hrx, append_nil]

theorem closed_stays_closed_once :
    let es : List BrokerEvent :=
      [.call (.tcpConnect ⟨0, 80⟩), .data 1 [7], .call (.tcpRecv 1 16), .call (.close 1)]
    Guarded (step 1) (fun s => s.Timely) {} es ∧
      (run (step 1) {} es).commands.count (.close 1) = (run (step 1) {} es).closed.toNat := by
  intro es
  have hguard : Guarded (step 1) (fun s => s.Timely) {} es :=
    ⟨by change _ < _; decide, rfl, by change _ < _; decide, by change _ < _; decide, trivial⟩
  exact ⟨hguard, (closed_stays_closed 1 _ hguard).2.1⟩

/-- The host reports the end of a stream that the guest has closed: the guest reads the end, and
closes the handle again. -/
theorem late_delivery_reopens :
    let s := run (step 1) {} [.call (.tcpConnect ⟨0, 80⟩), .call (.close 1), .closed 1]
    s.closed = true ∧ (s.tcpRecv 1 16).1 = .ok .closed ∧
      (s.close 1).commands.count (.close 1) = 2 := by
  decide

end WebTos.Net
