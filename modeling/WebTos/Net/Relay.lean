import WebTos.Net.Link

/-!
Relayed streams keep their bytes: the invariant over the whole system of broker, worker and
gateway, and its preservation by every event.

* `Ordered`, `Queued`, `Continues`: the commands the worker has yet to carry out open each
  endpoint before they use it, and go on where the links end;
* `Base`, `Sound`: the invariant;
* `SameEnds`: worlds that differ in the states of their links only;
* `carry_sound`, `pump_sound`: commands and turns of the worker;
* `Sound.send`, `Sound.adopt`, `call_sound`: the calls of the guest;
* `step_sound`, `relayed_prefix`: in every run in which no payload arrives at the gateway
  before its rule check has ended, the bytes written upstream are a prefix of those the
  guest's sends took;
* `early_payload_lost`: a run in which one does.
-/

namespace WebTos.Net

open Lib List Function NetCommand World HostBroker Link

/-! ### Commands on their way to the worker -/

variable {c : NetCommand}

namespace NetCommand

/-- The command opens an endpoint. -/
def opens : NetCommand → Bool
  | .tcpConnect _ _ | .udpOpen _ => true
  | _ => false

/-- The stream bytes the command sends on a handle. -/
def sent (h : ℕ) : NetCommand → Bytes
  | .tcpSend handle bytes => if handle.toNat = h then bytes else []
  | _ => []

lemma sent_eq_nil {h : ℕ} (hne : c.handle.toNat ≠ h) : c.sent h = [] := by
  cases c with
  | tcpSend => exact if_neg hne
  | _ => rfl

lemma sent_of_opens (hc : c.opens) (h : ℕ) : c.sent h = [] := by
  cases c with
  | tcpSend => cases hc
  | _ => rfl

end NetCommand

/-- The stream bytes a list of commands sends on a handle. -/
def sends (h : ℕ) (cs : List NetCommand) : Bytes := cs.flatMap (sent h)

/-- Every endpoint is opened once, before the commands that use it; `o` tells which ones are
open already. -/
def Ordered : (ℕ → Prop) → List NetCommand → Prop
  | _, [] => True
  | o, c :: cs => (c.opens = true ↔ ¬ o c.handle.toNat) ∧
      Ordered (fun h => o h ∨ h = c.handle.toNat) cs

variable {cs : List NetCommand}

namespace Ordered

lemma congr {o o' : ℕ → Prop} (h : Ordered o cs) (ho : ∀ h, o' h ↔ o h) :
    Ordered o' cs := by
  have heq : o' = o := funext fun h => propext (ho h)
  rw [heq]
  exact h

lemma not_opened : ∀ {o : ℕ → Prop}, Ordered o cs → ∀ c ∈ cs,
    c.opens = true → ¬ o c.handle.toNat := by
  induction cs with
  | nil => exact fun _ c hc => absurd hc not_mem_nil
  | cons d cs ih =>
    intro o h c hc hopens ho
    rcases mem_cons.mp hc with rfl | hc
    · exact h.1.mp hopens ho
    · exact ih h.2 c hc hopens (.inl ho)

lemma snoc : ∀ {o : ℕ → Prop}, Ordered o cs →
    (c.opens = true ↔ ¬ (o c.handle.toNat ∨ ∃ d ∈ cs, d.handle = c.handle)) →
    Ordered o (cs ++ [c]) := by
  induction cs with
  | nil =>
    intro o _ hc
    exact ⟨by simpa using hc, trivial⟩
  | cons d cs ih =>
    intro o h hc
    refine ⟨h.1, ih h.2 (hc.trans (not_congr ?_))⟩
    have hnat : c.handle.toNat = d.handle.toNat ↔ d.handle = c.handle := by
      rw [eq_comm, UInt64.toNat_inj]
    rw [hnat, exists_mem_cons_iff, or_assoc]

end Ordered

/-! ### The invariant -/

/-- The worker made a WebSocket for the handle. -/
def World.Opened (w : World) (h : ℕ) : Prop := ∃ k l, w.links k = some l ∧ l.handle = h

/-- The worker made a `/tcp` WebSocket for the handle. -/
def World.TcpLink (w : World) (h : ℕ) : Prop :=
  ∃ k l, w.links k = some l ∧ l.handle = h ∧ l.target.isSome = true

/-- What holds whether or not the worker still pumps. -/
structure Base (w : World) : Prop where
  kept : ∀ {k l}, w.links k = some l → l.target.isSome = true → l.Sound (w.accepted l.handle)
  made : ∀ {k l}, w.links k = some l → k < w.made
  below : ∀ {k l}, w.links k = some l → l.handle < w.broker.nextHandle.toNat
  mapped : ∀ {h k}, w.sockets h = some k → ∃ l, w.links k = some l ∧ l.handle = h
  guests : ∀ {s sock h}, w.guest s = some sock → sock.handle = some h →
    h.toNat < w.broker.nextHandle.toNat
  next : w.broker.nextHandle.toNat ≤ 2 ^ 32
  unused : ∀ {h}, w.broker.nextHandle.toNat ≤ h → w.accepted h = []
  off : w.gateway = false → ∀ k, w.links k = none

variable {k : ℕ} {l : Link} {w : World}

lemma Base.gateway_on (h : Base w) (hl : w.links k = some l) :
    w.gateway := by
  by_contra hoff
  rw [h.off (by simpa using hoff)] at hl
  cases hl

lemma Base.handle_eq (h : Base w) {handle : ℕ} (hk : w.sockets handle = some k)
    (hl : w.links k = some l) : l.handle = handle := by
  obtain ⟨l', hl', heq⟩ := h.mapped hk
  rwa [Option.some.inj (hl.symm.trans hl')]

/-- The handle is one for datagrams: a command sends one there, or a datagram socket of the guest
has it. -/
def World.IsUdp (w : World) (cs : List NetCommand) (h : Handle) : Prop :=
  (∃ addr bytes, .udpSendTo h addr bytes ∈ cs) ∨
    ∃ s sock, w.guest s = some sock ∧ sock.kind = .udp ∧ sock.handle = some h

/-- No stream is open on the handle, and none will be. -/
def World.NoStream (w : World) (cs : List NetCommand) (h : Handle) : Prop :=
  ¬ w.TcpLink h.toNat ∧ ∀ addr, .tcpConnect h addr ∉ cs

/-- The commands the worker has yet to carry out, in their order and with their endpoints. -/
structure Queued (w : World) (cs : List NetCommand) : Prop where
  ordered : Ordered w.Opened cs
  guests : ∀ {s sock h}, w.guest s = some sock → sock.handle = some h →
    w.Opened h.toNat ∨ ∃ c ∈ cs, c.handle = h
  fresh : ∀ {h addr}, .tcpConnect h addr ∈ cs → w.accepted h.toNat = sends h.toNat cs
  datagrams : ∀ {h}, w.IsUdp cs h → w.NoStream cs h

/-- The links stand for the bytes before those the commands send. -/
def Continues (w : World) (cs : List NetCommand) : Prop :=
  ∀ {h k l}, w.sockets h = some k → w.links k = some l → l.target.isSome = true →
    l.Current → w.accepted h = l.delivered ++ sends h cs

/-- The invariant, with the commands the worker has yet to carry out. -/
structure Sound (w : World) (cs : List NetCommand) : Prop where
  base : Base w
  fits : ∀ c ∈ cs, c.handle.toNat < w.broker.nextHandle.toNat ∧ c.payload.length < 2 ^ 32
  flow : w.gateway = true → w.running = true → Queued w cs ∧ Continues w cs

/-- The two worlds have the same endpoints: only the states of the links differ, and the worker
may have forgotten some. -/
structure SameEnds (w w' : World) : Prop where
  gateway : w'.gateway = w.gateway
  nextHandle : w'.broker.nextHandle = w.broker.nextHandle
  guest : w'.guest = w.guest
  accepted : w'.accepted = w.accepted
  made : w'.made = w.made
  ends : ∀ k, (w'.links k).map (fun l => (l.handle, l.target))
    = (w.links k).map fun l => (l.handle, l.target)
  sockets : ∀ {h k}, w'.sockets h = some k → w.sockets h = some k

variable {l' : Link}

namespace SameEnds

variable {w w' : World} (hs : SameEnds w w')
include hs

/-- A link of the second world is there in the first. -/
lemma back (hl' : w'.links k = some l') :
    ∃ l, w.links k = some l ∧ l.handle = l'.handle ∧ l.target = l'.target := by
  have hends := hs.ends k
  rw [hl', Option.map_some] at hends
  obtain ⟨l, hl, heq⟩ := Option.map_eq_some_iff.mp hends.symm
  exact ⟨l, hl, (Prod.ext_iff.mp heq).1, (Prod.ext_iff.mp heq).2⟩

/-- A link of the first world is there in the second. -/
lemma forth (hl : w.links k = some l) :
    ∃ l', w'.links k = some l' ∧ l'.handle = l.handle ∧ l'.target = l.target := by
  have hends := hs.ends k
  rw [hl, Option.map_some] at hends
  obtain ⟨l', hl', heq⟩ := Option.map_eq_some_iff.mp hends
  exact ⟨l', hl', (Prod.ext_iff.mp heq).1, (Prod.ext_iff.mp heq).2⟩

/-- The two worlds have links for the same endpoints. -/
lemma exists_link_iff (P : ℕ → Option (List Char × ℕ) → Prop) :
    (∃ k l, w'.links k = some l ∧ P l.handle l.target) ↔
      ∃ k l, w.links k = some l ∧ P l.handle l.target := by
  constructor
  · rintro ⟨k, l', hl', hP⟩
    obtain ⟨l, hl, hhandle, htarget⟩ := hs.back hl'
    exact ⟨k, l, hl, by rwa [hhandle, htarget]⟩
  · rintro ⟨k, l, hl, hP⟩
    obtain ⟨l', hl', hhandle, htarget⟩ := hs.forth hl
    exact ⟨k, l', hl', by rwa [hhandle, htarget]⟩

lemma opened_iff (h : ℕ) : w'.Opened h ↔ w.Opened h :=
  hs.exists_link_iff fun handle _ => handle = h

lemma tcpLink_iff (h : ℕ) : w'.TcpLink h ↔ w.TcpLink h :=
  hs.exists_link_iff fun handle target => handle = h ∧ target.isSome = true

/-- The invariant of the endpoints, once the links are sound. -/
lemma base (h : Base w)
    (hkept : ∀ {k l}, w'.links k = some l → l.target.isSome → l.Sound (w.accepted l.handle))
    : Base w' where
  kept := by
    rw [hs.accepted]
    exact hkept
  made := fun hl' => by
    obtain ⟨l, hl, -⟩ := hs.back hl'
    rw [hs.made]
    exact h.made hl
  below := fun hl' => by
    obtain ⟨l, hl, hhandle, -⟩ := hs.back hl'
    rw [hs.nextHandle, ← hhandle]
    exact h.below hl
  mapped := fun hk => by
    obtain ⟨l, hl, rfl⟩ := h.mapped (hs.sockets hk)
    obtain ⟨l', hl', hhandle, -⟩ := hs.forth hl
    exact ⟨l', hl', hhandle⟩
  guests := by
    rw [hs.guest, hs.nextHandle]
    exact h.guests
  next := by
    rw [hs.nextHandle]
    exact h.next
  unused := by
    rw [hs.nextHandle, hs.accepted]
    exact h.unused
  off := fun hoff k => by
    have hnone := h.off (hs.gateway ▸ hoff) k
    have hends := hs.ends k
    rw [hnone] at hends
    simpa using hends

lemma queued (h : Queued w cs) : Queued w' cs where
  ordered := h.ordered.congr hs.opened_iff
  guests := fun hsock hhandle => by
    rw [hs.guest] at hsock
    rw [hs.opened_iff]
    exact h.guests hsock hhandle
  fresh := by
    rw [hs.accepted]
    exact h.fresh
  datagrams := fun hudp => by
    rw [World.IsUdp, hs.guest] at hudp
    rw [World.NoStream, hs.tcpLink_iff]
    exact h.datagrams hudp

end SameEnds

/-! ### Events of one link -/

variable {f : Link → Link}

/-- A change of one link that keeps its endpoint. -/
lemma World.onLink_same
    (hf : ∀ {l}, w.links k = some l → (f l).handle = l.handle ∧ (f l).target = l.target) :
    SameEnds w (w.onLink k f) := by
  refine ⟨rfl, rfl, rfl, rfl, rfl, fun j => ?_, id⟩
  rw [onLink]
  dsimp only
  by_cases hj : j = k
  · subst hj
    rw [update_self]
    cases hl : w.links j with
    | none => rfl
    | some l =>
      obtain ⟨hhandle, htarget⟩ := hf hl
      simp [hhandle, htarget]
  · rw [update_of_ne hj]

/-- The links after a change of one of them. -/
lemma World.onLink_links {j : ℕ} (h : (w.onLink k f).links j = some l') :
    (j = k ∧ ∃ l, w.links k = some l ∧ f l = l') ∨ (j ≠ k ∧ w.links j = some l') := by
  simp only [onLink, update_apply] at h
  split_ifs at h with hj
  · exact .inl ⟨hj, Option.map_eq_some_iff.mp h⟩
  · exact .inr ⟨hj, h⟩

section OnLink

variable {w : World} {cs : List NetCommand} {k : ℕ} {f : Link → Link}

lemma Base.onLink (h : Base w) (hf : ∀ {l}, w.links k = some l → l.Follows (f l)) :
    Base (w.onLink k f) := by
  refine (onLink_same fun hl => ⟨(hf hl).handle, (hf hl).target⟩).base h fun hl' htarget => ?_
  rcases onLink_links hl' with ⟨rfl, l, hl, rfl⟩ | ⟨-, hl⟩
  · rw [(hf hl).handle]
    rw [(hf hl).target] at htarget
    exact ((hf hl).keeps (h.kept hl htarget)).1
  · exact h.kept hl htarget

lemma Continues.onLink (h : Continues w cs) (hb : Base w)
    (hf : ∀ {l}, w.links k = some l → l.Follows (f l)) : Continues (w.onLink k f) cs := by
  intro h' j l' hsocket hl' htarget hcurrent
  rcases onLink_links hl' with ⟨rfl, l, hl, rfl⟩ | ⟨-, hl⟩
  · rw [(hf hl).target] at htarget
    obtain ⟨hcurrent', hdelivered⟩ := ((hf hl).keeps (hb.kept hl htarget)).2 hcurrent
    rw [hdelivered]
    exact h hsocket hl htarget hcurrent'
  · exact h hsocket hl htarget hcurrent

/-- **An event of one link keeps the invariant.** -/
lemma Sound.onLink (h : Sound w cs) (hf : ∀ {l}, w.links k = some l → l.Follows (f l)) :
    Sound (w.onLink k f) cs where
  base := h.base.onLink hf
  fits := h.fits
  flow := fun hgateway hrunning => by
    obtain ⟨hqueued, hcontinues⟩ := h.flow hgateway hrunning
    exact ⟨(onLink_same fun hl => ⟨(hf hl).handle, (hf hl).target⟩).queued hqueued,
      hcontinues.onLink h.base hf⟩

end OnLink

variable {w : World} {cs : List NetCommand} {w' : World}

/-- The links are the same, and the worker has forgotten some or none. -/
lemma Sound.frame (h : Sound w cs) (hs : SameEnds w w') (hlinks : w'.links = w.links)
    (hrun : w'.running → w.running) : Sound w' cs := by
  refine ⟨hs.base h.base fun hl => ?_, ?_, fun hgateway hrunning => ?_⟩
  · rw [hlinks] at hl
    exact h.base.kept hl
  · rw [hs.nextHandle]
    exact h.fits
  obtain ⟨hqueued, hcontinues⟩ := h.flow (hs.gateway ▸ hgateway) (hrun hrunning)
  refine ⟨hs.queued hqueued, fun hk hl => ?_⟩
  rw [hlinks] at hl
  rw [hs.accepted]
  exact hcontinues (hs.sockets hk) hl

variable {broker : HostBroker}

lemma Sound.withBroker (h : Sound w cs) (hnext : broker.nextHandle = w.broker.nextHandle)
    : Sound { w with broker } cs :=
  h.frame ⟨rfl, hnext, rfl, rfl, rfl, fun _ => rfl, id⟩ rfl id

lemma Sound.deliverError (h : Sound w cs) (handle : ℕ)
    (errno : UInt64) : Sound (w.deliverError handle errno) cs :=
  h.withBroker rfl

/-- The pump goes on, or has ended. -/
lemma Sound.setRunning (h : Sound w cs) {running : Bool}
    (hrun : running → w.running) : Sound { w with running } cs :=
  h.frame ⟨rfl, rfl, rfl, rfl, rfl, fun _ => rfl, id⟩ rfl hrun

/-- A pump that has ended owes nothing. -/
lemma Sound.stop (h : Sound w cs) :
    Sound { w with running := false } [] := by
  have hstopped : Sound { w with running := false } cs := h.setRunning fun hrun => by cases hrun
  exact ⟨hstopped.base, fun d hd => absurd hd not_mem_nil, fun _ hrun => by cases hrun⟩

/-- The worker forgets a WebSocket. -/
lemma Sound.forget (h : Sound w cs) (handle : ℕ) :
    Sound (w.forget handle) cs := by
  have hsockets : ∀ {h k}, Function.update w.sockets handle none h = some k →
      w.sockets h = some k := by
    intro h k hk
    rw [update_apply] at hk
    split_ifs at hk
    exact hk
  exact h.frame ⟨rfl, rfl, rfl, rfl, rfl, fun _ => rfl, hsockets⟩ rfl id

/-! ### Commands -/

section Commands

variable {w w' : World} {c : NetCommand} {cs : List NetCommand}

lemma sends_cons (h : ℕ) (c : NetCommand) (cs : List NetCommand) :
    sends h (c :: cs) = c.sent h ++ sends h cs := rfl

/-- A command that opens nothing uses an endpoint the worker knows. -/
lemma Queued.opened (h : Queued w (c :: cs)) (hc : c.opens = false) : w.Opened c.handle.toNat := by
  by_contra hnot
  rw [h.ordered.1.mpr hnot] at hc
  cases hc

/-- What is left when the first command is done: its endpoint is open, and a stream if it was to
open one. -/
lemma Queued.next (h : Queued w (c :: cs)) (hguest : w'.guest = w.guest)
    (haccepted : w'.accepted = w.accepted)
    (hopened : ∀ h', w'.Opened h' ↔ w.Opened h' ∨ h' = c.handle.toNat)
    (htcp : ∀ h' : Handle, w'.TcpLink h'.toNat →
      w.TcpLink h'.toNat ∨ ∃ addr, c = .tcpConnect h' addr) : Queued w' cs where
  ordered := h.ordered.2.congr hopened
  guests := fun hsock hhandle => by
    rw [hguest] at hsock
    rw [hopened]
    rcases h.guests hsock hhandle with ho | ⟨d, hd, rfl⟩
    · exact .inl (.inl ho)
    rcases mem_cons.mp hd with rfl | hd
    · exact .inl (.inr rfl)
    · exact .inr ⟨d, hd, rfl⟩
  fresh := fun {h' addr} hmem => by
    -- a stream that is still to be opened is on another handle
    have hclosed := h.ordered.2.not_opened _ hmem rfl
    have hne : c.handle.toNat ≠ h'.toNat := fun heq => hclosed (.inr heq.symm)
    rw [haccepted, h.fresh (mem_cons_of_mem _ hmem), sends_cons, sent_eq_nil hne, nil_append]
  datagrams := fun hudp => by
    rw [World.IsUdp, hguest] at hudp
    obtain ⟨hlink, hconnect⟩ := h.datagrams
      (hudp.imp_left fun ⟨addr, bytes, hmem⟩ => ⟨addr, bytes, mem_cons_of_mem _ hmem⟩)
    refine ⟨fun hlink' => ?_, fun addr hmem => hconnect addr (mem_cons_of_mem _ hmem)⟩
    rcases htcp _ hlink' with hlink' | ⟨addr, rfl⟩
    · exact hlink hlink'
    · exact hconnect addr mem_cons_self

/-- What is left when a command that opens nothing is done. -/
lemma Queued.tail (h : Queued w (c :: cs)) (hc : c.opens = false) : Queued w cs := by
  refine h.next rfl rfl (fun h' => ⟨.inl, ?_⟩) fun _ => .inl
  rintro (ho | rfl)
  · exact ho
  · exact h.opened hc

/-- What is left when a command that neither opens nor sends is done. -/
lemma Sound.tail (h : Sound w (c :: cs)) (hc : c.opens = false)
    (hsent : w.gateway → ∀ {k l}, w.sockets c.handle.toNat = some k → w.links k = some l →
      l.target.isSome → l.Current → c.sent c.handle.toNat = []) : Sound w cs where
  base := h.base
  fits := fun d hd => h.fits d (mem_cons_of_mem _ hd)
  flow := fun hgateway hrunning => by
    obtain ⟨hqueued, hcontinues⟩ := h.flow hgateway hrunning
    refine ⟨hqueued.tail hc, fun {h' k l} hsocket hl htarget hcurrent => ?_⟩
    have hnone : c.sent h' = [] := by
      by_cases heq : c.handle.toNat = h'
      · subst heq
        exact hsent hgateway hsocket hl htarget hcurrent
      · exact sent_eq_nil heq
    rw [hcontinues hsocket hl htarget hcurrent, sends_cons, hnone, nil_append]

end Commands

section OpenLink

variable {w : World} {handle : ℕ} {target : Option (List Char × ℕ)}

/-- The links after one was made: the new one and the old ones. -/
lemma World.openLink_links (hl : (w.openLink handle target).links k = some l) :
    (k = w.made ∧ l = { handle, target }) ∨ (k ≠ w.made ∧ w.links k = some l) := by
  simp only [openLink, update_apply] at hl
  split_ifs at hl with hk
  · exact .inl ⟨hk, (Option.some.inj hl).symm⟩
  · exact .inr ⟨hk, hl⟩

lemma World.openLink_new :
    (w.openLink handle target).links w.made = some { handle, target } := by
  rw [openLink]
  exact update_self ..

lemma World.openLink_old (h : Base w) (hl : w.links k = some l) :
    (w.openLink handle target).links k = some l := by
  rw [openLink]
  dsimp only
  rw [update_of_ne (h.made hl).ne]
  exact hl

lemma World.openLink_opened (h : Base w) (h' : ℕ) :
    (w.openLink handle target).Opened h' ↔ w.Opened h' ∨ h' = handle := by
  constructor
  · rintro ⟨k, l, hl, rfl⟩
    rcases openLink_links hl with ⟨-, rfl⟩ | ⟨-, hl⟩
    · exact .inr rfl
    · exact .inl ⟨k, l, hl, rfl⟩
  rintro (⟨k, l, hl, rfl⟩ | rfl)
  · exact ⟨k, l, openLink_old h hl, rfl⟩
  · exact ⟨_, _, openLink_new, rfl⟩

variable {h' : ℕ}

lemma World.openLink_tcpLink (hlink : (w.openLink handle target).TcpLink h') :
    w.TcpLink h' ∨ (h' = handle ∧ target.isSome) := by
  obtain ⟨k, l, hl, rfl, htarget⟩ := hlink
  rcases openLink_links hl with ⟨-, rfl⟩ | ⟨-, hl⟩
  · exact .inr ⟨rfl, htarget⟩
  · exact .inl ⟨k, l, hl, rfl, htarget⟩

lemma World.openLink_sockets (hk : (w.openLink handle target).sockets h' = some k) :
    (h' = handle ∧ k = w.made) ∨ (h' ≠ handle ∧ w.sockets h' = some k) := by
  simp only [openLink, update_apply] at hk
  split_ifs at hk with hh
  · exact .inl ⟨hh, (Option.some.inj hk).symm⟩
  · exact .inr ⟨hh, hk⟩

/-- A new link, under a handle that the broker gave out. -/
lemma Base.openLink (h : Base w) (hgateway : w.gateway)
    (hbelow : handle < w.broker.nextHandle.toNat) : Base (w.openLink handle target) where
  kept := fun hl htarget => by
    rcases openLink_links hl with ⟨-, rfl⟩ | ⟨-, hl⟩
    · exact ⟨ nil_prefix, fun _ => nil_prefix, (by simp), (by simp)⟩
    · exact h.kept hl htarget
  made := fun hl => by
    rcases openLink_links hl with ⟨rfl, -⟩ | ⟨-, hl⟩
    · exact Nat.lt_succ_self _
    · exact Nat.lt_succ_of_lt (h.made hl)
  below := fun hl => by
    rcases openLink_links hl with ⟨-, rfl⟩ | ⟨-, hl⟩
    · exact hbelow
    · exact h.below hl
  mapped := fun hk => by
    rcases openLink_sockets hk with ⟨rfl, rfl⟩ | ⟨-, hk⟩
    · exact ⟨_, openLink_new, rfl⟩
    · obtain ⟨l, hl, hhandle⟩ := h.mapped hk
      exact ⟨l, openLink_old h hl, hhandle⟩
  guests := h.guests
  next := h.next
  unused := h.unused
  off := fun hoff => by
    have : w.gateway = false := hoff
    rw [hgateway] at this
    cases this

/-- **An endpoint is opened.** -/
lemma Sound.openLink (h : Sound w (c :: cs)) (hgateway : w.gateway) (hrunning : w.running)
    (hc : c.opens) (htcp : target.isSome → ∃ addr, c = .tcpConnect c.handle addr) :
    Sound (w.openLink c.handle.toNat target) cs where
  base := h.base.openLink hgateway (h.fits c mem_cons_self).1
  fits := fun d hd => h.fits d (mem_cons_of_mem _ hd)
  flow := fun _ _ => by
    obtain ⟨hqueued, hcontinues⟩ := h.flow hgateway hrunning
    have hsent := sent_of_opens hc
    refine ⟨hqueued.next rfl rfl (openLink_opened h.base) fun h' hlink => ?_, ?_⟩
    · refine (openLink_tcpLink hlink).imp_right fun ⟨heq, htarget⟩ => ?_
      rw [UInt64.toNat_inj.mp heq]
      exact htcp htarget
    intro h' k l hsocket hl htarget hcurrent
    rcases openLink_sockets hsocket with ⟨rfl, rfl⟩ | ⟨-, hsocket⟩
    · -- nothing was sent on the new link yet
      rw [openLink_new] at hl
      cases hl
      obtain ⟨addr, hconn⟩ := htcp htarget
      have hmem : .tcpConnect c.handle addr ∈ c :: cs := hconn ▸ mem_cons_self
      have hfresh := hqueued.fresh hmem
      rw [sends_cons, hsent, nil_append] at hfresh
      exact hfresh
    obtain ⟨l₀, hl₀, -⟩ := h.base.mapped hsocket
    rw [openLink_old h.base hl₀] at hl
    cases hl
    have hcont := hcontinues hsocket hl₀ htarget hcurrent
    rw [sends_cons, hsent, nil_append] at hcont
    exact hcont

end OpenLink

variable {bytes : Bytes}

section Carry

variable {w : World} {c : NetCommand} {cs : List NetCommand}

lemma World.withSocket_cases (w : World) (handle : ℕ) (f : Link → Option JsError × Link) :
    (w.withSocket handle f).2 = w ∧ (∀ {k l}, w.sockets handle = some k → w.links k ≠ some l) ∨
      ∃ k l, w.sockets handle = some k ∧ w.links k = some l ∧
        (w.withSocket handle f).2 = w.onLink k fun _ => (f l).2 := by
  rw [withSocket]
  split
  · rename_i hnone
    exact .inl ⟨rfl, fun hk => by rw [hnone] at hk; cases hk⟩
  rename_i k hk
  split
  · rename_i hnone
    refine .inl ⟨rfl, fun {k' l} hk' hl => ?_⟩
    rw [hk] at hk'
    cases hk'
    rw [hnone] at hl
    cases hl
  · rename_i l hl
    exact .inr ⟨k, l, hk, hl, rfl⟩

/-- An operation that keeps what the WebSocket stands for. -/
lemma Sound.withSocket (h : Sound w cs) (handle : ℕ) {f : Link → Option JsError × Link}
    (hf : ∀ l : Link, l.Follows (f l).2) : Sound (w.withSocket handle f).2 cs := by
  rcases w.withSocket_cases handle f with ⟨heq, -⟩ | ⟨k, l, -, hl, heq⟩
  · rw [heq]
    exact h
  rw [heq]
  refine h.onLink fun {l'} hl' => ?_
  rw [hl] at hl'
  cases hl'
  exact hf l

/-- **The WebSocket of a command's handle changes** and the command is done: the link stays
sound, and goes on where the commands left go on. -/
lemma Sound.giveLink (h : Sound w (c :: cs)) (hc : c.opens = false) (hrunning : w.running)
    (hk : w.sockets c.handle.toNat = some k) (hl : w.links k = some l)
    (hsame : l'.handle = l.handle ∧ l'.target = l.target)
    (hgive : l.target.isSome → l'.Sound (w.accepted l.handle) ∧
      (l'.Current → l.Current ∧ ∀ rest,
        l'.delivered ++ rest = l.delivered ++ (c.sent c.handle.toNat ++ rest))) :
    Sound (w.onLink k fun _ => l') cs := by
  have hgateway := h.base.gateway_on hl
  obtain ⟨hqueued, hcontinues⟩ := h.flow hgateway hrunning
  have hhandle := h.base.handle_eq hk hl
  have hends : SameEnds w (w.onLink k fun _ => l') := onLink_same fun hl' => by
    obtain rfl := Option.some.inj (hl.symm.trans hl')
    exact hsame
  refine ⟨hends.base h.base fun hl' htarget => ?_,
    fun d hd => h.fits d (mem_cons_of_mem _ hd), fun _ _ => ⟨hends.queued (hqueued.tail hc), ?_⟩⟩
  · rcases onLink_links hl' with ⟨rfl, l₁, hl₁, rfl⟩ | ⟨-, hl'⟩
    · rw [hsame.1]
      exact (hgive (hsame.2 ▸ htarget)).1
    · exact h.base.kept hl' htarget
  intro h' j l'' hsocket hl'' htarget hcurrent
  rcases onLink_links hl'' with ⟨rfl, l₁, hl₁, rfl⟩ | ⟨hne, hl''⟩
  · -- the link of the command: it goes on by what the command sends
    obtain rfl := h.base.handle_eq hsocket hl
    rw [hsame.2] at htarget
    obtain ⟨hcurrent', hdelivered⟩ := (hgive htarget).2 hcurrent
    rw [hdelivered, hhandle, ← sends_cons]
    exact hcontinues hk hl htarget hcurrent'
  -- a link of another handle, on which the command sends nothing
  have hother : c.handle.toNat ≠ h' := by
    rintro rfl
    exact hne (Option.some.inj (hsocket.symm.trans hk))
  have hsends := hcontinues hsocket hl'' htarget hcurrent
  rw [sends_cons, sent_eq_nil hother, nil_append] at hsends
  exact hsends

variable {handle : Handle}

/-- **A payload is given to its WebSocket.** -/
lemma Sound.sendOn (h : Sound w (.tcpSend handle bytes :: cs)) (hrunning : w.running) :
    Sound (w.withSocket handle.toNat (Link.sendOn bytes)).2 cs := by
  rcases w.withSocket_cases handle.toNat (Link.sendOn bytes) with ⟨heq, hnone⟩ | ⟨k, l, hk, hl, heq⟩
  · rw [heq]
    exact h.tail rfl fun _ _ _ hk hl => absurd hl (hnone hk)
  rw [heq]
  refine h.giveLink rfl hrunning hk hl (l.sendOn_handle bytes) fun htarget => ?_
  have hsent : (tcpSend handle bytes).sent handle.toNat = bytes := if_pos rfl
  have hhandle := h.base.handle_eq hk hl
  have hgateway := h.base.gateway_on hl
  -- the bytes of the link go on with the payload
  obtain ⟨hsound, hgo⟩ := sendOn_sound bytes (h.base.kept hl htarget) fun hcurrent => by
    rw [hhandle, (h.flow hgateway hrunning).2 hk hl htarget hcurrent, sends_cons, hsent,
      ← append_assoc]
    exact prefix_append _ _
  refine ⟨hsound, fun hcurrent => ⟨(hgo hcurrent).1, fun rest => ?_⟩⟩
  dsimp only [NetCommand.handle]
  rw [(hgo hcurrent).2, hsent, append_assoc]

/-- **A datagram is given to its WebSocket**, which is not one of a stream. -/
lemma Sound.sendDatagram {addr : SocketAddrV4} (frame : Bytes)
    (h : Sound w (.udpSendTo handle addr bytes :: cs)) (hrunning : w.running) :
    Sound (w.withSocket handle.toNat (Link.sendOn frame)).2 cs := by
  rcases w.withSocket_cases handle.toNat (Link.sendOn frame) with ⟨heq, -⟩ | ⟨k, l, hk, hl, heq⟩
  · rw [heq]
    exact h.tail rfl fun _ _ _ _ _ _ _ => rfl
  rw [heq]
  refine h.giveLink rfl hrunning hk hl (l.sendOn_handle frame) fun htarget => ?_
  have hhandle := h.base.handle_eq hk hl
  have hgateway := h.base.gateway_on hl
  have hudp := ((h.flow hgateway hrunning).1.datagrams (.inl ⟨addr, bytes, mem_cons_self⟩)).1
  exact absurd ⟨k, l, hl, hhandle, htarget⟩ hudp

/-- Without a gateway nothing is opened. -/
lemma Sound.connectLink {target : Option (List Char × ℕ)} (h : Sound w (c :: cs))
    (hrunning : w.running) (hc : c.opens)
    (htcp : target.isSome → ∃ addr, c = .tcpConnect c.handle addr) :
    Sound (w.connectLink c.handle.toNat target) cs := by
  rw [World.connectLink]
  split_ifs with hgateway
  · exact h.openLink hgateway hrunning hc htcp
  have hoff : Sound w cs := ⟨h.base, fun d hd => h.fits d (mem_cons_of_mem _ hd),
    fun hon => absurd hon hgateway⟩
  exact hoff.deliverError _ _

/-- **A command carried out keeps the invariant**, with one command less to carry out. -/
lemma carry_sound (h : Sound w (c :: cs)) (hrunning : w.running) :
    Sound (w.carry c.host).2 cs := by
  cases c with
  | tcpConnect _ addr => exact h.connectLink hrunning rfl fun _ => ⟨addr, rfl⟩
  | tcpSend => exact h.sendOn hrunning
  | tcpShutdownWrite =>
    exact (h.tail rfl fun _ _ _ _ _ _ _ => rfl).withSocket _ send_shutdown_follows
  | udpOpen => exact h.connectLink hrunning rfl fun htarget => by cases htarget
  | udpSendTo => exact h.sendDatagram _ hrunning
  | close =>
    exact ((h.tail rfl fun _ _ _ _ _ _ _ => rfl).withSocket _ startClose_follows).forget _

/-- Carrying out a command records none, and does not stop the pump. -/
lemma carry_commands (w : World) (c : HostCommand) :
    (w.carry c).2.broker.commands = w.broker.commands ∧ (w.carry c).2.running = w.running := by
  have hsocket : ∀ handle f, (w.withSocket handle f).2.broker.commands = w.broker.commands ∧
      (w.withSocket handle f).2.running = w.running := by
    intro handle f
    rcases w.withSocket_cases handle f with ⟨heq, -⟩ | ⟨k, l, -, -, heq⟩ <;> rw [heq] <;>
      exact ⟨rfl, rfl⟩
  have hconnect : ∀ handle target, (w.connectLink handle target).broker.commands
      = w.broker.commands ∧ (w.connectLink handle target).running = w.running := by
    intro handle target
    rw [connectLink]
    split_ifs <;> exact ⟨rfl, rfl⟩
  cases c with
  | tcpConnect | udpOpen => exact hconnect _ _
  | tcpSend | tcpShutdown | udpSendTo | close => exact hsocket _ _

/-- Carrying out all the commands, up to a throw, which ends the pump. -/
lemma carryAll_sound (cs : List NetCommand) : ∀ {w : World}, Sound w cs → w.running →
    w.broker.commands = [] →
    Sound { (carryAll carry (cs.map host) w).2 with
        running := (carryAll carry (cs.map host) w).1.isNone } [] ∧
      (carryAll carry (cs.map host) w).2.broker.commands = [] := by
  induction cs with
  | nil =>
    intro w h hrunning hcommands
    rw [map_nil, carryAll]
    exact ⟨h.setRunning fun _ => hrunning, hcommands⟩
  | cons c cs ih =>
    intro w h hrunning hcommands
    have hstep := carry_sound h hrunning
    obtain ⟨hcommands', hrunning'⟩ := carry_commands w c.host
    rw [map_cons, carryAll]
    rcases hcarry : w.carry c.host with ⟨_ | e, w'⟩
    · rw [hcarry] at hstep hcommands' hrunning'
      exact ih hstep (hrunning'.trans hrunning) (hcommands'.trans hcommands)
    · rw [hcarry] at hstep hcommands'
      exact ⟨hstep.stop, hcommands'.trans hcommands⟩

/-- **A turn of the worker keeps the invariant.** -/
lemma pump_sound (h : Sound w w.broker.commands) : Sound w.pump w.pump.broker.commands := by
  rw [pump]
  split_ifs with hstopped
  · exact h
  have hrunning : w.running := by simpa using hstopped
  have hfits : ∀ c ∈ w.broker.commands, c.Fits := fun c hc =>
    ⟨(h.fits c hc).1.trans_le h.base.next, (h.fits c hc).2⟩
  have htaken : Sound { w with broker := { w.broker with commands := [] } } w.broker.commands :=
    h.withBroker rfl
  obtain ⟨hthrow, hstate, -⟩ := performNetwork_encode carry hfits
    { w with broker := { w.broker with commands := [] } }
  obtain ⟨hsound, hcommands⟩ := carryAll_sound w.broker.commands htaken hrunning rfl
  dsimp only [takeCommands]
  rw [hthrow, hstate, hcommands]
  exact hsound

end Carry

/-! ### Calls of the guest -/

section Guest

variable {w : World} {cs : List NetCommand}

lemma sends_snoc (h : ℕ) (cs : List NetCommand) (c : NetCommand) :
    sends h (cs ++ [c]) = sends h cs ++ c.sent h := by
  simp [sends]

/-- The guest's sockets change; every handle is one that a socket of the same kind had. -/
lemma Sound.withGuest (h : Sound w cs) {guest : ℕ → Option NetSocket}
    (hguest : ∀ {s sock handle}, guest s = some sock → sock.handle = some handle →
      ∃ s' sock', w.guest s' = some sock' ∧ sock'.handle = some handle ∧ sock'.kind = sock.kind) :
    Sound { w with guest } cs where
  base :=
    { kept := h.base.kept
      made := h.base.made
      below := h.base.below
      mapped := h.base.mapped
      guests := fun hsock hhandle => by
        obtain ⟨s', sock', hsock', hhandle', -⟩ := hguest hsock hhandle
        exact h.base.guests hsock' hhandle'
      next := h.base.next
      unused := h.base.unused
      off := h.base.off }
  fits := h.fits
  flow := fun hgateway hrunning => by
    obtain ⟨hqueued, hcontinues⟩ := h.flow hgateway hrunning
    refine ⟨⟨hqueued.ordered, fun hsock hhandle => ?_, hqueued.fresh,
      fun hudp => hqueued.datagrams (hudp.imp_right ?_)⟩, hcontinues⟩
    · obtain ⟨s', sock', hsock', hhandle', -⟩ := hguest hsock hhandle
      exact hqueued.guests hsock' hhandle'
    · rintro ⟨s, sock, hsock, hkind, hhandle⟩
      obtain ⟨s', sock', hsock', hhandle', hkind'⟩ := hguest hsock hhandle
      exact ⟨s', sock', hsock', hkind'.trans hkind, hhandle'⟩

variable {sock : NetSocket} {c : NetCommand} {s : ℕ} {handle : Handle}

/-- A socket of the guest is replaced by one with a handle that some socket of its kind has. -/
lemma Sound.setGuest (h : Sound w cs) (s : ℕ)
    (hsock : ∀ {handle}, sock.handle = some handle →
      ∃ s' sock', w.guest s' = some sock' ∧ sock'.handle = some handle ∧ sock'.kind = sock.kind) :
    Sound (w.setGuest s sock) cs := by
  refine h.withGuest fun {s' sock' handle} hsock' hhandle => ?_
  rw [update_apply] at hsock'
  split_ifs at hsock'
  · cases hsock'
    exact hsock hhandle
  · exact ⟨s', sock', hsock', hhandle, rfl⟩

lemma Queued.known (h : Queued w cs) (hc : c.opens = false)
    (hsock : w.guest s = some sock) (hhandle : sock.handle = some c.handle) :
    c.opens ↔ ¬ (w.Opened c.handle.toNat ∨ ∃ d ∈ cs, d.handle = c.handle) := by
  rw [hc]
  exact iff_of_false Bool.false_ne_true (not_not_intro (h.guests hsock hhandle))

/-- **One more command to carry out**: it opens a handle that nothing names, or uses one that is
known, and its bytes are those accepted. -/
lemma Queued.snoc (h : Queued w cs) (hlinks : w'.links = w.links)
    (hadd : ∀ h', w'.accepted h' = w.accepted h' ++ c.sent h')
    (hknown : c.opens ↔ ¬ (w.Opened c.handle.toNat ∨ ∃ d ∈ cs, d.handle = c.handle))
    (hfresh : c.opens → w.accepted c.handle.toNat = [] ∧ ¬ w.TcpLink c.handle.toNat)
    (hdatagram : ∀ {handle addr bytes}, c = .udpSendTo handle addr bytes → w.NoStream cs handle)
    (hguest : ∀ {s sock handle}, w'.guest s = some sock → sock.handle = some handle →
      w.guest s = some sock ∨ (c.opens = true ∧ handle = c.handle ∧
        (sock.kind = .udp → ∀ addr, c ≠ .tcpConnect handle addr)))
    : Queued w' (cs ++ [c]) := by
  have hopened : ∀ h', w'.Opened h' ↔ w.Opened h' := fun h' => by
    rw [World.Opened, hlinks, World.Opened]
  have htcp : ∀ h', w'.TcpLink h' ↔ w.TcpLink h' := fun h' => by
    rw [World.TcpLink, hlinks, World.TcpLink]
  have hnone : c.opens → ∀ d ∈ cs, d.handle ≠ c.handle := fun hc d hd heq =>
    hknown.mp hc (.inr ⟨d, hd, heq⟩)
  -- no stream is opened on a handle that is known
  have hnot : ∀ {handle : Handle}, (w.Opened handle.toNat ∨ ∃ d ∈ cs, d.handle = handle) →
      w.NoStream cs handle → w'.NoStream (cs ++ [c]) handle := by
    intro handle hk hcs
    refine ⟨fun hlink => hcs.1 ((htcp _).mp hlink), fun addr' hmem => ?_⟩
    rcases mem_append.mp hmem with hmem | hmem
    · exact hcs.2 addr' hmem
    · obtain rfl := mem_singleton.mp hmem
      exact hknown.mp rfl hk
  refine ⟨(h.ordered.congr hopened).snoc (by rw [hopened]; exact hknown),
    fun hsock hhandle => ?_, fun {handle addr} hmem => ?_, fun {handle} hudp => ?_⟩
  · rw [hopened]
    rcases hguest hsock hhandle with hold | ⟨-, heq, -⟩
    · rcases h.guests hold hhandle with ho | ⟨d, hd, rfl⟩
      · exact .inl ho
      · exact .inr ⟨d, mem_append_left _ hd, rfl⟩
    · exact .inr ⟨c, mem_append_right _ mem_cons_self, heq.symm⟩
  · rw [hadd, sends_snoc]
    congr 1
    rcases mem_append.mp hmem with hmem | hmem
    · exact h.fresh hmem
    -- the bytes of a stream that is opened now are those of no command
    obtain rfl := mem_singleton.mp hmem
    refine (hfresh rfl).1.trans (flatMap_eq_nil_iff.mpr fun d hd => ?_).symm
    exact sent_eq_nil fun heq => hnone rfl d hd (UInt64.toNat_inj.mp heq)
  rcases hudp with ⟨addr, bytes, hmem⟩ | ⟨s, sock, hsock, hkind, hhandle⟩
  · rcases mem_append.mp hmem with hmem | hmem
    · exact hnot (.inr ⟨_, hmem, rfl⟩) (h.datagrams (.inl ⟨addr, bytes, hmem⟩))
    obtain rfl := mem_singleton.mp hmem
    exact hnot (by_contra fun hk => Bool.noConfusion (hknown.mpr hk)) (hdatagram rfl)
  rcases hguest hsock hhandle with hold | ⟨hc, rfl, hudp⟩
  · exact hnot (h.guests hold hhandle) (h.datagrams (.inr ⟨s, sock, hold, hkind, hhandle⟩))
  refine ⟨fun hlink => (hfresh hc).2 ((htcp _).mp hlink), fun addr' hmem => ?_⟩
  rcases mem_append.mp hmem with hmem | hmem
  · exact hnone hc _ hmem rfl
  · exact hudp hkind addr' (mem_singleton.mp hmem).symm

/-- The links stand for the bytes before those of one more command. -/
lemma Continues.snoc (h : Continues w cs) (w' : World)
    (hlinks : w'.links = w.links) (hsockets : w'.sockets = w.sockets)
    (hadd : ∀ h', w'.accepted h' = w.accepted h' ++ c.sent h') : Continues w' (cs ++ [c]) := by
  intro h' k l hsocket hl htarget hcurrent
  rw [hlinks] at hl
  rw [hsockets] at hsocket
  rw [hadd, sends_snoc, h hsocket hl htarget hcurrent, append_assoc]

/-- A command on an endpoint the guest holds, which sends no stream bytes. -/
lemma Sound.push (h : Sound w cs) (hc : c.opens = false)
    (hpayload : c.payload.length < 2 ^ 32) (hsent : ∀ h', c.sent h' = [])
    (hsock : w.guest s = some sock) (hhandle : sock.handle = some c.handle)
    (hkind : (∃ handle addr bytes, c = .udpSendTo handle addr bytes) → sock.kind = .udp) :
    Sound w (cs ++ [c]) where
  base := h.base
  fits := forall_mem_append.mpr
    ⟨h.fits, forall_mem_singleton.mpr ⟨h.base.guests hsock hhandle, hpayload⟩⟩
  flow := fun hgateway hrunning => by
    obtain ⟨hqueued, hcontinues⟩ := h.flow hgateway hrunning
    have hadd : ∀ h', w.accepted h' = w.accepted h' ++ c.sent h' := fun h' => by
      rw [hsent, append_nil]
    refine ⟨hqueued.snoc rfl hadd (hqueued.known hc hsock hhandle) ?_ ?_ fun hsock' _ =>
      .inl hsock',
      hcontinues.snoc w rfl rfl hadd⟩
    · rw [hc]
      exact fun hopens => Bool.noConfusion hopens
    · rintro handle addr bytes rfl
      exact hqueued.datagrams (.inr ⟨s, sock, hsock, hkind ⟨_, _, _, rfl⟩, hhandle⟩)

lemma Link.Sound.mono {acc acc' : Bytes} (h : l.Sound acc) (hacc : acc <+: acc') :
    l.Sound acc' :=
  ⟨h.kept.trans hacc, fun halive => (h.ahead halive).trans hacc, h.flushed, h.ready⟩

/-- **A stream send the broker takes**: its bytes are accepted, and the command carries them. -/
lemma Sound.send (h : Sound w cs) (hpayload : bytes.length < 2 ^ 32) (hsock : w.guest s = some sock)
    (hhandle : sock.handle = some handle) :
    Sound (w.accept handle bytes) (cs ++ [.tcpSend handle bytes]) := by
  -- what the command adds to the bytes of a handle is what its sends took
  have hadd : ∀ h', (w.accept handle bytes).accepted h'
      = w.accepted h' ++ (tcpSend handle bytes).sent h' := by
    intro h'
    rw [accept]
    dsimp only
    by_cases heq : handle.toNat = h'
    · subst heq
      rw [update_self, sent, if_pos rfl]
    · rw [update_of_ne (Ne.symm heq), sent, if_neg heq, append_nil]
  have hbelow := h.base.guests hsock hhandle
  refine ⟨⟨fun hl htarget => ?_, h.base.made, h.base.below, h.base.mapped, h.base.guests,
    h.base.next, fun {h'} hh' => ?_, h.base.off⟩,
    forall_mem_append.mpr ⟨h.fits, forall_mem_singleton.mpr ⟨hbelow, hpayload⟩⟩,
    fun hgateway hrunning => ?_⟩
  · refine (h.base.kept hl htarget).mono ?_
    rw [hadd]
    exact prefix_append _ _
  · have hne : handle.toNat ≠ h' := fun heq => by
      have hge : w.broker.nextHandle.toNat ≤ h' := hh'
      omega
    have hnone : (tcpSend handle bytes).sent h' = [] := if_neg hne
    rw [hadd, h.base.unused hh', hnone, append_nil]
  obtain ⟨hqueued, hcontinues⟩ := h.flow hgateway hrunning
  exact ⟨hqueued.snoc rfl hadd (hqueued.known rfl hsock hhandle) (fun hopens => by cases hopens)
    (fun heq => by cases heq) fun hsock' _ => .inl hsock',
    hcontinues.snoc (w.accept handle bytes) rfl rfl hadd⟩

/-- The next handle after one was given out. -/
lemma succHandle_toNat (h : handle.toNat + 1 < 2 ^ 64) :
    (succHandle handle).toNat = handle.toNat + 1 := by
  rw [succHandle, if_pos h, UInt64.toNat_add, Nat.mod_eq_of_lt (by simpa using h)]
  rfl

/-- **The broker gives out a handle**, the command that opens it is queued, and a socket of the
guest takes it. -/
lemma Sound.adopt (h : Sound w cs) (hc : c.opens) (hhandle : c.handle = w.broker.nextHandle)
    (hroom : w.broker.nextHandle.toNat < 2 ^ 32)
    (hnext : broker.nextHandle = succHandle w.broker.nextHandle) (s : ℕ)
    (hsock : sock.handle = some w.broker.nextHandle)
    (hkind : sock.kind = .udp → ∀ handle addr, c ≠ .tcpConnect handle addr) :
    Sound ({ w with broker }.setGuest s sock) (cs ++ [c]) := by
  have hsucc : broker.nextHandle.toNat = w.broker.nextHandle.toNat + 1 := by
    rw [hnext, succHandle_toNat (by omega)]
  -- the handle is new to the worker, to the queue and to the guest
  have hlinks : ¬ w.Opened w.broker.nextHandle.toNat := by
    rintro ⟨k, l, hl, heq⟩
    exact absurd (h.base.below hl) (by omega)
  have hqueue : ∀ d ∈ cs, d.handle ≠ w.broker.nextHandle := by
    intro d hd heq
    have hlt := (h.fits d hd).1
    rw [heq] at hlt
    exact lt_irrefl _ hlt
  have hstream : ¬ w.TcpLink w.broker.nextHandle.toNat := fun ⟨k, l, hl, heq, _⟩ =>
    hlinks ⟨k, l, hl, heq⟩
  have hsent := sent_of_opens hc
  have hguest : ∀ {s' sock' handle}, ({ w with broker }.setGuest s sock).guest s' = some sock' →
      sock'.handle = some handle →
      (sock' = sock ∧ handle = w.broker.nextHandle) ∨ w.guest s' = some sock' := by
    intro s' sock' handle hsock' hhandle'
    simp only [World.setGuest, update_apply] at hsock'
    split_ifs at hsock'
    · cases hsock'
      rw [hsock] at hhandle'
      exact .inl ⟨rfl, (Option.some.inj hhandle').symm⟩
    · exact .inr hsock'
  have hbroker : ({ w with broker }.setGuest s sock).broker.nextHandle.toNat
      = w.broker.nextHandle.toNat + 1 := hsucc
  refine ⟨⟨h.base.kept, h.base.made, fun hl => ?_, h.base.mapped, fun hsock' hhandle' => ?_, ?_,
    fun {h'} hh' => h.base.unused ?_, h.base.off⟩, fun d hd => ?_, fun hgateway hrunning => ?_⟩
  · exact (h.base.below hl).trans (by omega)
  · rcases hguest hsock' hhandle' with ⟨-, rfl⟩ | hold
    · omega
    · have := h.base.guests hold hhandle'
      omega
  · omega
  · omega
  · rcases mem_append.mp hd with hd | hd
    · exact ⟨(h.fits d hd).1.trans (by omega), (h.fits d hd).2⟩
    rw [mem_singleton.mp hd, hhandle]
    refine ⟨by omega, ?_⟩
    cases c with
    | tcpConnect | udpOpen => exact Nat.two_pow_pos 32
    | _ => cases hc
  obtain ⟨hqueued, hcontinues⟩ := h.flow hgateway hrunning
  have hadd : ∀ h', w.accepted h' = w.accepted h' ++ c.sent h' := fun h' => by
    rw [hsent, append_nil]
  refine ⟨hqueued.snoc rfl hadd ?_ (fun _ => ?_) ?_ fun hsock' hhandle' => ?_,
    hcontinues.snoc w rfl rfl hadd⟩
  · simp only [hc, hhandle, true_iff, not_or, not_exists, not_and]
    exact ⟨hlinks, hqueue⟩
  · rw [hhandle]
    exact ⟨h.base.unused le_rfl, hstream⟩
  · rintro handle addr bytes rfl
    cases hc
  rcases hguest hsock' hhandle' with ⟨rfl, rfl⟩ | hold
  · exact .inr ⟨hc, hhandle.symm, fun hudp addr => hkind hudp _ addr⟩
  · exact .inl hold

lemma sendCommand_cases (b : HostBroker) (handle : Handle) (c : NetCommand) (len : ℕ) :
    b.sendCommand handle c len = (.ok len, b.push c) ∨
      ∃ errno, b.sendCommand handle c len = (.error errno, b) := by
  rw [sendCommand]
  split
  · exact .inr ⟨_, rfl⟩
  split
  · exact .inr ⟨_, rfl⟩
  · exact .inl rfl

section

variable (h : Sound w w.broker.commands)
include h

/-- A datagram of a datagram socket. -/
lemma Sound.udpSendTo (hsock : w.guest s = some sock) (hkind : sock.kind = .udp)
    (hhandle : sock.handle = some handle) (addr : SocketAddrV4) (hpayload : bytes.length < 2 ^ 32) :
    Sound { w with broker := (w.broker.udpSendTo handle addr bytes).2 }
      (w.broker.udpSendTo handle addr bytes).2.commands := by
  rw [HostBroker.udpSendTo]
  rcases sendCommand_cases w.broker handle (.udpSendTo handle addr bytes) bytes.length with
    heq | ⟨errno, heq⟩
  · rw [heq]
    exact (h.push (c := .udpSendTo handle addr bytes) rfl hpayload (fun _ => rfl) hsock hhandle
      fun _ => hkind).withBroker rfl
  · rw [heq]
    exact h

/-- `sys_connect` and the first `sendto` on a datagram socket: a handle is given out. -/
lemma Sound.open_udp (hroom : w.broker.nextHandle.toNat < 2 ^ 32) (s : ℕ) (sock : NetSocket) :
    Sound (w.adopt s sock w.broker.udpOpen) (w.adopt s sock w.broker.udpOpen).broker.commands :=
  h.adopt (c := .udpOpen w.broker.nextHandle) rfl rfl hroom rfl s rfl fun _ _ _ heq => by cases heq

lemma connect_sound (hroom : w.broker.nextHandle.toNat < 2 ^ 32) (hsock : w.guest s = some sock)
    (target : SocketAddrV4) :
    Sound (w.connect s sock target) (w.connect s sock target).broker.commands := by
  rw [connect]
  split
  · rename_i hkind
    exact h.adopt (c := .tcpConnect w.broker.nextHandle target) rfl rfl hroom rfl s rfl
      fun hudp => by cases hkind.symm.trans hudp
  split_ifs
  · exact h.open_udp hroom s _
  · exact h.setGuest s fun hhandle => ⟨s, sock, hsock, hhandle, rfl⟩

lemma write_sound (hsock : w.guest s = some sock) (buf : Bytes) :
    Sound (w.write sock buf) (w.write sock buf).broker.commands := by
  have hpayload : (buf.take 0x400000).length < 2 ^ 32 := by
    rw [length_take]
    omega
  rw [write]
  split
  · exact h
  · rename_i handle hhandle _
    rw [sendTcp, HostBroker.tcpSend]
    rcases sendCommand_cases w.broker handle (.tcpSend handle (buf.take 0x400000))
      (buf.take 0x400000).length with heq | ⟨errno, heq⟩
    · rw [heq]
      dsimp only
      rw [take_length]
      exact (h.send hpayload hsock hhandle).withBroker rfl
    · rw [heq]
      exact h
  · rename_i handle hhandle hkind _
    exact h.udpSendTo hsock hkind hhandle _ hpayload
  · exact h

lemma sendto_sound (hroom : w.broker.nextHandle.toNat < 2 ^ 32) (hsock : w.guest s = some sock)
    (target : SocketAddrV4) (buf : Bytes) :
    Sound (w.sendto s sock target buf) (w.sendto s sock target buf).broker.commands := by
  have hpayload : (buf.take 0x10000).length < 2 ^ 32 := by
    rw [length_take]
    omega
  rw [sendto]
  split
  · exact h
  rename_i hkind
  split_ifs with hnone
  · have hopen := h.open_udp hroom s sock
    have hguest : (w.adopt s sock w.broker.udpOpen).guest s
        = some { sock with handle := some w.broker.nextHandle } := update_self ..
    dsimp only
    rw [hguest]
    exact hopen.udpSendTo hguest hkind rfl _ hpayload
  dsimp only
  rw [hsock]
  split
  · exact h
  · rename_i handle hhandle
    exact h.udpSendTo hsock hkind hhandle _ hpayload

end

variable (h : Sound w w.broker.commands)
include h

lemma read_sound (sock : NetSocket) (max : ℕ) :
    Sound (w.read sock max) (w.read sock max).broker.commands := by
  -- receiving records no command and gives out no handle
  rw [World.read]
  split
  · exact h
  · dsimp only [tcpRecv]
    repeat' split
    all_goals exact h.withBroker rfl
  · dsimp only [udpRecvFrom]
    repeat' split
    all_goals exact h.withBroker rfl

lemma shutdown_sound (hsock : w.guest s = some sock) :
    Sound (w.shutdown sock) (w.shutdown sock).broker.commands := by
  rw [shutdown]
  split
  · rename_i handle _ hhandle
    rw [HostBroker.tcpShutdownWrite]
    split_ifs
    · exact (h.push (c := .tcpShutdownWrite handle) rfl (Nat.two_pow_pos 32) (fun _ => rfl) hsock
        hhandle fun ⟨_, _, _, heq⟩ => by cases heq).withBroker rfl
    · exact h
  · exact h

lemma close_sound (hsock : w.guest s = some sock) :
    Sound (w.closeGuest s sock) (w.closeGuest s sock).broker.commands := by
  have hdrop : ∀ {cs}, Sound w cs →
      Sound { w with guest := Function.update w.guest s none } cs := by
    intro cs hcs
    refine hcs.withGuest fun {s' sock' handle} hsock' hhandle => ?_
    rw [update_apply] at hsock'
    split_ifs at hsock'
    exact ⟨s', sock', hsock', hhandle, rfl⟩
  rw [closeGuest]
  split
  · exact hdrop h
  rename_i handle hhandle
  rw [HostBroker.close]
  split_ifs
  · have hpush := h.push (c := .close handle) rfl (Nat.two_pow_pos 32) (fun _ => rfl) hsock
      hhandle fun ⟨_, _, _, heq⟩ => by cases heq
    exact (hdrop hpush).withBroker rfl
  · exact hdrop h

end Guest

/-! ### Runs -/

section Runs

/-- The start: a page with or without a gateway. -/
def World.start (gateway : Bool) : World := { gateway }

lemma start_sound (gateway : Bool) :
    Sound (start gateway) (start gateway).broker.commands where
  base := ⟨nofun, nofun, nofun, nofun, nofun, (by decide : (1 : UInt64).toNat ≤ 2 ^ 32),
    fun _ => rfl, fun _ _ => rfl⟩
  fits := nofun
  flow _ _ := by
    refine ⟨⟨trivial, nofun, nofun, ?_⟩, nofun⟩
    rintro h (⟨addr, bytes, hmem⟩ | ⟨s, sock, hsock, -⟩)
    · cases hmem
    · cases hsock

variable {w : World}

section

variable (h : Sound w w.broker.commands)
include h

/-- A call on no socket leaves everything. -/
lemma on_socket (s : ℕ) {f : NetSocket → World}
    (hf : ∀ {sock}, w.guest s = some sock → Sound (f sock) (f sock).broker.commands) :
    Sound ((w.guest s).elim w f) ((w.guest s).elim w f).broker.commands := by
  cases hsock : w.guest s with
  | none => exact h
  | some => exact hf hsock

lemma call_sound {c : GuestCall} (hc : w.Orderly (.guest c)) :
    Sound (w.call c) (w.call c).broker.commands := by
  cases c with
  | socket kind =>
    have hnew : Sound (w.setGuest w.guests { kind }) w.broker.commands :=
      h.setGuest w.guests fun hhandle => by cases hhandle
    exact hnew.frame ⟨rfl, rfl, rfl, rfl, rfl, fun _ => rfl, id⟩ rfl id
  | connect s target => exact on_socket h s fun hsock => connect_sound h hc hsock target
  | write s buf => exact on_socket h s fun hsock => write_sound h hsock buf
  | sendto s target buf => exact on_socket h s fun hsock => sendto_sound h hc hsock target buf
  | read s max => exact on_socket h s fun {sock} _ => read_sound h sock max
  | shutdown s => exact on_socket h s fun hsock => shutdown_sound h hsock
  | close s => exact on_socket h s fun hsock => close_sound h hsock

/-- Replies reach the page. -/
lemma onReply_sound (k : ℕ) :
    Sound (w.onReply k) (w.onReply k).broker.commands := by
  have hback : ∀ back, Sound (w.onLink k fun l => { l with back }) w.broker.commands :=
    fun back => h.onLink fun _ => .of_relay rfl rfl rfl rfl rfl rfl rfl id
  have heof : ∀ back, Sound ((w.onLink k fun l => { l with back }).onLink k
      fun l => { l with eof := true }) w.broker.commands :=
    fun back => (hback back).onLink fun _ => .of_relay rfl rfl rfl rfl rfl rfl rfl id
  unfold onReply
  split
  · exact h
  split
  · split
    · exact (hback _).withBroker rfl
    · exact (heof _).withBroker rfl
    · exact (hback _).withBroker rfl
    · exact (hback _).withBroker rfl
    · exact hback _
  · exact h

/-- The page's WebSocket is closed. -/
lemma onClose_sound (k code : ℕ) :
    Sound (w.onClose k code) (w.onClose k code).broker.commands := by
  have hclosed : Sound (w.onLink k fun l => { l with ready := .closed }) w.broker.commands :=
    h.onLink fun _ => .of_closed rfl rfl rfl rfl (.inr rfl) rfl rfl
  have hreport : ∀ {w' : World} {l}, Sound w' w'.broker.commands →
      Sound (w'.reportClose l code) (w'.reportClose l code).broker.commands := by
    intro w' l h'
    unfold reportClose
    split
    · exact h'.deliverError _ _
    · exact h'
    · exact h'.deliverError _ _
  unfold onClose
  split
  · exact h
  rename_i l hl
  dsimp only
  split_ifs
  · exact h
  · exact hreport (hclosed.forget l.handle)
  · exact hclosed

/-- **Every orderly event keeps the invariant.** -/
lemma step_sound {e : Event} (he : w.Orderly e) :
    Sound (w.step e) (w.step e).broker.commands := by
  cases e with
  | guest c => exact call_sound h he
  | pump => exact pump_sound h
  | upgrade k ok => exact h.onLink fun _ => upgrade_follows ok _
  | opened k => exact h.onLink fun _ => onopen_follows _
  | ruled k allow => exact h.onLink fun _ => ruled_follows allow _
  | upstream k event => exact h.onLink fun _ => onUpstream_follows event _
  | arrive k => exact h.onLink fun hl => arrive_follows (he _ hl)
  | hangup k => exact h.onLink fun _ => hangup_follows _
  | datagram k frame => exact h.onLink fun _ => onDatagram_follows frame _
  | reply k => exact onReply_sound h k
  | closing k => exact h.onLink fun _ => startClose_follows _
  | closed k code => exact onClose_sound h k code

end

/-- **A relayed stream keeps its bytes**, in every run in which no payload arrives at the
gateway before the rule check of its connection has ended: what the gateway has written to the
upstream socket is a prefix of what the guest's sends on the handle took. -/
theorem relayed_prefix (gateway : Bool) (es : List Event)
    (horderly : Guarded step World.Orderly (start gateway) es) (k : ℕ) (l : Link)
    (hl : (run step (start gateway) es).links k = some l)
    (htcp : l.target.isSome = true) :
    l.written <+: (run step (start gateway) es).accepted l.handle := by
  have hsound := @Guarded.invariant _ _ _ _ (fun w => Sound w w.broker.commands)
    (fun w e h he => step_sound h he) _ es (start_sound gateway) horderly
  exact (hsound.base.kept hl htcp).kept

/-- A connection whose one payload arrives once the relay is attached. -/
def attachedRun : List Event :=
  [.guest (.socket .tcp), .guest (.connect 0 ⟨0x7f000001, 80⟩), .guest (.write 0 [97]), .pump,
    .upgrade 0 true, .opened 0, .ruled 0 true, .arrive 0]

theorem relayed_prefix_attached :
    ∃ l, (run step (start true) attachedRun).links 0 = some l ∧ l.written = [97] ∧
      l.written <+: (run step (start true) attachedRun).accepted l.handle := by
  have hlink : ((run step (start true) attachedRun).links 0).map
      (fun l => (l.target.isSome, l.written)) = some (true, [97]) := by decide +kernel
  obtain ⟨l, hl, heq⟩ := Option.map_eq_some_iff.mp hlink
  obtain ⟨htarget, hwritten⟩ := Prod.ext_iff.mp heq
  refine ⟨l, hl, hwritten, relayed_prefix true attachedRun ?_ 0 l hl htarget⟩
  have hrelay : ((run step (start true) (attachedRun.take 7)).links 0).map relay
      = some (.relaying {}) := by decide +kernel
  refine ⟨trivial, (by decide : (1 : UInt64).toNat < 2 ^ 32), trivial, trivial, trivial, trivial,
    trivial, fun l' hl' hearly => ?_, trivial⟩
  have hl'' : (run step (start true) (attachedRun.take 7)).links 0 = some l' := hl'
  rw [hl'', Option.map_some, hearly.1] at hrelay
  cases hrelay

/-- A connection whose first payload arrives while the gateway looks up its rules. -/
def earlyRun : List Event :=
  [.guest (.socket .tcp), .guest (.connect 0 ⟨0x7f000001, 80⟩), .guest (.write 0 [97]), .pump,
    .upgrade 0 true, .opened 0, .arrive 0, .ruled 0 true, .guest (.write 0 [98]), .pump, .arrive 0]

/-- The first payload is dropped and the second is written: the upstream sees `[98]` of a
stream whose sends took `[97, 98]`. -/
theorem early_payload_lost :
    ∃ l, (run step (start true) earlyRun).links 0 = some l ∧ l.target.isSome = true ∧
      ¬ l.written <+: (run step (start true) earlyRun).accepted l.handle := by
  have hlink : ((run step (start true) earlyRun).links 0).map
      (fun l => (l.target.isSome, l.written, l.handle)) = some (true, [98], 1) := by decide +kernel
  have haccepted : (run step (start true) earlyRun).accepted 1 = [97, 98] := by
    decide +kernel
  obtain ⟨l, hl, heq⟩ := Option.map_eq_some_iff.mp hlink
  simp only [Prod.mk.injEq] at heq
  obtain ⟨htarget, hwritten, hhandle⟩ := heq
  refine ⟨l, hl, htarget, ?_⟩
  rw [hwritten, hhandle, haccepted]
  decide

end Runs

end WebTos.Net
