import WebTos.Lib.Run
import WebTos.Abi

/-!
Recording the network and answering from a recording (`netrecord.rs`).

A broker is a state and one function for each call of the trait `NetworkBroker`.  The
recording broker wraps any other one and logs what crosses it; the replay broker walks
such a log with one cursor.

* `NetworkBroker`, `NetCall`, `NetworkBroker.answer`: the calls of a guest and their
  answers;
* `recording`, `replaying`: the two brokers;
* `recording_answer`: what one call leaves in the log;
* `replaying_answer`: one call on a log that goes on with what the recorder left;
* `Replayable`: the inner broker answers as the replay will;
* `replay_eq_record_iff`: a replay gives the guest the answers of the recorded run exactly
  when every answer of the inner broker is replayable.
-/

namespace WebTos.Net

open Lib

universe u

/-- `RecvOutcome`. -/
inductive RecvOutcome where
  | data (bytes : Bytes)
  | closed
  | wouldBlock
  deriving DecidableEq, Repr

/-- The errno of a replayed connect that the recording does not answer. -/
def ECONNREFUSED : UInt64 := 111

/-- The errno of a replayed endpoint that the recording does not answer. -/
def EAFNOSUPPORT : UInt64 := 97

/-- The calls of the trait `NetworkBroker` by which a guest's bytes and handles travel,
each on the state of the broker.  Errors are errnos. -/
structure NetworkBroker (β : Type u) where
  tcpConnect : β → SocketAddrV4 → Except UInt64 Handle × β
  tcpSend : β → Handle → Bytes → Except UInt64 ℕ × β
  tcpRecv : β → Handle → ℕ → Except UInt64 RecvOutcome × β
  tcpShutdownWrite : β → Handle → Except UInt64 Unit × β
  udpOpen : β → Except UInt64 Handle × β
  udpSendTo : β → Handle → SocketAddrV4 → Bytes → Except UInt64 ℕ × β
  udpRecvFrom : β → Handle → ℕ → Except UInt64 (Option (Bytes × SocketAddrV4)) × β
  close : β → Handle → β

/-! ### What a guest sees of a broker -/

/-- One call of the guest. -/
inductive NetCall where
  | tcpConnect (addr : SocketAddrV4)
  | tcpSend (handle : Handle) (bytes : Bytes)
  | tcpRecv (handle : Handle) (max : ℕ)
  | tcpShutdownWrite (handle : Handle)
  | udpOpen
  | udpSendTo (handle : Handle) (addr : SocketAddrV4) (bytes : Bytes)
  | udpRecvFrom (handle : Handle) (max : ℕ)
  | close (handle : Handle)
  deriving DecidableEq, Repr

/-- What a call returns. -/
inductive NetAnswer where
  | handle (result : Except UInt64 Handle)
  | count (result : Except UInt64 ℕ)
  | received (result : Except UInt64 RecvOutcome)
  | done (result : Except UInt64 Unit)
  | datagram (result : Except UInt64 (Option (Bytes × SocketAddrV4)))
  | closed
  deriving DecidableEq

namespace NetworkBroker

variable {β : Type u}

/-- A call on a broker: the answer, and the broker after it. -/
def answer (B : NetworkBroker β) (b : β) : NetCall → NetAnswer × β
  | .tcpConnect addr => (B.tcpConnect b addr).map .handle id
  | .tcpSend handle bytes => (B.tcpSend b handle bytes).map .count id
  | .tcpRecv handle max => (B.tcpRecv b handle max).map .received id
  | .tcpShutdownWrite handle => (B.tcpShutdownWrite b handle).map .done id
  | .udpOpen => (B.udpOpen b).map .handle id
  | .udpSendTo handle addr bytes => (B.udpSendTo b handle addr bytes).map .count id
  | .udpRecvFrom handle max => (B.udpRecvFrom b handle max).map .datagram id
  | .close handle => (.closed, B.close b handle)

/-- The broker after a call. -/
def next (B : NetworkBroker β) (b : β) (c : NetCall) : β := (B.answer b c).2

/-- The answers to a sequence of calls. -/
def answers (B : NetworkBroker β) : β → List NetCall → List NetAnswer
  | _, [] => []
  | b, c :: cs => (B.answer b c).1 :: B.answers (B.next b c) cs

/-- The inner broker answers this call as a replay does: a send takes all the bytes, a
shutdown succeeds, and a datagram receive reports no error.  Of the other calls the
recorder keeps every answer. -/
def Replayable (B : NetworkBroker β) (b : β) : NetCall → Prop
  | .tcpSend handle bytes => (B.tcpSend b handle bytes).1 = .ok bytes.length
  | .tcpShutdownWrite handle => (B.tcpShutdownWrite b handle).1 = .ok ()
  | .udpSendTo handle addr bytes => (B.udpSendTo b handle addr bytes).1 = .ok bytes.length
  | .udpRecvFrom handle max => ∃ value, (B.udpRecvFrom b handle max).1 = .ok value
  | _ => True

end NetworkBroker

/-! ### The recorder -/

/-- `RecordedRecv`. -/
inductive RecordedRecv where
  | data (bytes : Bytes)
  | closed
  | wouldBlock
  | error (errno : UInt64)
  deriving DecidableEq, Repr

/-- `NetEvent`. -/
inductive NetEvent where
  | tcpConnect (addr : SocketAddrV4) (result : Except UInt64 Handle)
  | udpOpen (result : Except UInt64 Handle)
  | sent (handle : Handle) (len : ℕ)
  | sentTo (handle : Handle) (addr : SocketAddrV4) (len : ℕ)
  | received (handle : Handle) (outcome : RecordedRecv)
  | receivedFrom (handle : Handle) (result : Option (Bytes × SocketAddrV4))
  | closed (handle : Handle)
  deriving DecidableEq

/-- `Recording`: the log, oldest event first. -/
structure Recording where
  events : List NetEvent := []
  deriving DecidableEq

/-- `RecordingBroker`. -/
structure RecordingBroker (β : Type u) where
  inner : β
  log : Recording

namespace RecordingBroker

variable {β : Type u}

/-- `RecordingBroker::new`. -/
def new (inner : β) : RecordingBroker β := ⟨inner, {}⟩

/-- `record`. -/
def record (r : RecordingBroker β) (event : NetEvent) : RecordingBroker β :=
  { r with log := ⟨r.log.events ++ [event]⟩ }

/-- The wrapped broker, moved on. -/
def setInner (r : RecordingBroker β) (inner : β) : RecordingBroker β := { r with inner }

end RecordingBroker

/-- What `tcp_recv` keeps of a result. -/
def RecordedRecv.ofResult : Except UInt64 RecvOutcome → RecordedRecv
  | .ok (.data bytes) => .data bytes
  | .ok .closed => .closed
  | .ok .wouldBlock => .wouldBlock
  | .error errno => .error errno

/-- What a replayed `tcp_recv` makes of it. -/
def RecordedRecv.toResult : RecordedRecv → Except UInt64 RecvOutcome
  | .data bytes => .ok (.data bytes)
  | .closed => .ok .closed
  | .wouldBlock => .ok .wouldBlock
  | .error errno => .error errno

@[simp] lemma RecordedRecv.toResult_ofResult (r : Except UInt64 RecvOutcome) :
    (ofResult r).toResult = r := by
  rcases r with errno | (bytes | - | -) <;> rfl

/-- `RecordingBroker`: every call goes to the inner broker, and what is logged of it is a
side effect.  Failed sends and failed datagram receives are not logged, and neither is
a shutdown. -/
def recording {β : Type u} (B : NetworkBroker β) : NetworkBroker (RecordingBroker β) where
  tcpConnect r addr :=
    let (result, inner) := B.tcpConnect r.inner addr
    (result, (r.setInner inner).record (.tcpConnect addr result))
  tcpSend r handle bytes :=
    let (result, inner) := B.tcpSend r.inner handle bytes
    match result with
    | .ok len => (.ok len, (r.setInner inner).record (.sent handle len))
    | .error errno => (.error errno, r.setInner inner)
  tcpRecv r handle max :=
    let (result, inner) := B.tcpRecv r.inner handle max
    (result, (r.setInner inner).record (.received handle (.ofResult result)))
  tcpShutdownWrite r handle :=
    let (result, inner) := B.tcpShutdownWrite r.inner handle
    (result, r.setInner inner)
  udpOpen r :=
    let (result, inner) := B.udpOpen r.inner
    (result, (r.setInner inner).record (.udpOpen result))
  udpSendTo r handle addr bytes :=
    let (result, inner) := B.udpSendTo r.inner handle addr bytes
    match result with
    | .ok len => (.ok len, (r.setInner inner).record (.sentTo handle addr len))
    | .error errno => (.error errno, r.setInner inner)
  udpRecvFrom r handle max :=
    let (result, inner) := B.udpRecvFrom r.inner handle max
    match result with
    | .ok value => (.ok value, (r.setInner inner).record (.receivedFrom handle value))
    | .error errno => (.error errno, r.setInner inner)
  close r handle :=
    let r := r.record (.closed handle)
    r.setInner (B.close r.inner handle)

/-! ### The replay -/

/-- `ReplayBroker`. -/
structure ReplayBroker where
  recording : Recording
  cursor : ℕ
  deriving DecidableEq

namespace ReplayBroker

/-- `ReplayBroker::new`. -/
def new (recording : Recording) : ReplayBroker := ⟨recording, 0⟩

/-- The event at the cursor. -/
def peek (r : ReplayBroker) : Option NetEvent := r.recording.events[r.cursor]?

/-- The cursor one event further. -/
def advance (r : ReplayBroker) : ReplayBroker := { r with cursor := r.cursor + 1 }

/-- `next_event`. -/
def nextEvent (r : ReplayBroker) : Option NetEvent × ReplayBroker :=
  match r.peek with
  | some event => (some event, r.advance)
  | none => (none, r)

/-- The cursor steps over the next event if it is of a kind. -/
def skip (r : ReplayBroker) (kind : NetEvent → Bool) : ReplayBroker :=
  match r.peek with
  | some event => if kind event then r.advance else r
  | none => r

end ReplayBroker

/-- An event is a `Sent`. -/
def NetEvent.isSent : NetEvent → Bool
  | .sent .. => true
  | _ => false

/-- An event is a `SentTo`. -/
def NetEvent.isSentTo : NetEvent → Bool
  | .sentTo .. => true
  | _ => false

/-- An event is a `Closed`. -/
def NetEvent.isClosed : NetEvent → Bool
  | .closed .. => true
  | _ => false

/-- `ReplayBroker`: answers from the recording. -/
def replaying : NetworkBroker ReplayBroker where
  tcpConnect r _ :=
    match r.nextEvent with
    | (some (.tcpConnect _ result), r) => (result, r)
    | (_, r) => (.error ECONNREFUSED, r)
  tcpSend r _ bytes := (.ok bytes.length, r.skip NetEvent.isSent)
  tcpRecv r _ _ :=
    match r.nextEvent with
    | (some (.received _ outcome), r) => (outcome.toResult, r)
    | (_, r) => (.ok .closed, r)
  tcpShutdownWrite r _ := (.ok (), r)
  udpOpen r :=
    match r.nextEvent with
    | (some (.udpOpen result), r) => (result, r)
    | (_, r) => (.error EAFNOSUPPORT, r)
  udpSendTo r _ _ bytes := (.ok bytes.length, r.skip NetEvent.isSentTo)
  udpRecvFrom r _ _ :=
    match r.nextEvent with
    | (some (.receivedFrom _ result), r) => (.ok result, r)
    | (_, r) => (.ok none, r)
  close r _ := r.skip NetEvent.isClosed

/-! ### One call -/

section

open NetworkBroker RecordingBroker ReplayBroker

variable {β : Type u} {B : NetworkBroker β}

/-- What the recorder logs of a call. -/
def NetworkBroker.logged (B : NetworkBroker β) (b : β) : NetCall → List NetEvent
  | .tcpConnect addr => [.tcpConnect addr (B.tcpConnect b addr).1]
  | .tcpSend handle bytes =>
    match (B.tcpSend b handle bytes).1 with
    | .ok len => [.sent handle len]
    | .error _ => []
  | .tcpRecv handle max => [.received handle (.ofResult (B.tcpRecv b handle max).1)]
  | .tcpShutdownWrite _ => []
  | .udpOpen => [.udpOpen (B.udpOpen b).1]
  | .udpSendTo handle addr bytes =>
    match (B.udpSendTo b handle addr bytes).1 with
    | .ok len => [.sentTo handle addr len]
    | .error _ => []
  | .udpRecvFrom handle max =>
    match (B.udpRecvFrom b handle max).1 with
    | .ok value => [.receivedFrom handle value]
    | .error _ => []
  | .close handle => [.closed handle]

/-- A call through the recorder: the inner broker's answer, its next state, and the log
longer by what the call leaves there. -/
lemma recording_answer (r : RecordingBroker β) (c : NetCall) :
    (recording B).answer r c =
      ((B.answer r.inner c).1,
        ⟨B.next r.inner c, ⟨r.log.events ++ B.logged r.inner c⟩⟩) := by
  cases c with
  | tcpConnect | tcpRecv | udpOpen | close => rfl
  | tcpShutdownWrite handle =>
    simp [answer, next, logged, recording, setInner]
  | tcpSend handle bytes =>
    rcases h : B.tcpSend r.inner handle bytes with ⟨errno | len, b⟩ <;>
      simp [answer, next, logged, recording, h, setInner, record]
  | udpSendTo handle addr bytes =>
    rcases h : B.udpSendTo r.inner handle addr bytes with ⟨errno | len, b⟩ <;>
      simp [answer, next, logged, recording, h, setInner, record]
  | udpRecvFrom handle max =>
    rcases h : B.udpRecvFrom r.inner handle max with ⟨errno | value, b⟩ <;>
      simp [answer, next, logged, recording, h, setInner, record]

namespace ReplayBroker

variable {r : ReplayBroker} {event : NetEvent} {rest : List NetEvent}

/-- The events the replay has not reached. -/
def ahead (r : ReplayBroker) : List NetEvent := r.recording.events.drop r.cursor

lemma peek_of_ahead (h : r.ahead = event :: rest) : r.peek = some event := by
  have hd := congrArg List.head? h
  rwa [ahead, List.head?_drop, List.head?_cons] at hd

lemma ahead_advance (h : r.ahead = event :: rest) : r.advance.ahead = rest := by
  have hd := congrArg (List.drop 1) h
  rwa [ahead, List.drop_drop] at hd

lemma nextEvent_of_ahead (h : r.ahead = event :: rest) :
    r.nextEvent = (some event, r.advance) := by
  rw [nextEvent, peek_of_ahead h]

lemma skip_of_ahead (kind : NetEvent → Bool) (h : r.ahead = event :: rest)
    (hk : kind event) : r.skip kind = r.advance := by
  rw [skip, peek_of_ahead h]
  exact if_pos hk

end ReplayBroker

variable {r : ReplayBroker} {c : NetCall} {b : β}

/-- One call on a replay whose recording goes on with what the recorder left of that call:
the answer of the inner broker, and the cursor past those events. -/
lemma replaying_answer {rest : List NetEvent} (h : B.Replayable b c)
    (hr : r.ahead = B.logged b c ++ rest) :
    (replaying.answer r c).1 = (B.answer b c).1 ∧ (replaying.next r c).ahead = rest := by
  cases c with
  | tcpConnect | udpOpen =>
    simp only [next, answer, replaying, nextEvent_of_ahead hr]
    exact ⟨rfl, ahead_advance hr⟩
  -- the replay answers with the length it is given, so the record must say that
  | tcpSend handle bytes =>
    have hok : (B.tcpSend b handle bytes).1 = .ok bytes.length := h
    simp only [logged, hok] at hr
    simp only [next, answer, replaying, Prod.map_fst,
      Prod.map_snd, hok, skip_of_ahead NetEvent.isSent hr rfl]
    exact ⟨trivial, ahead_advance hr⟩
  | tcpRecv handle max =>
    simp only [next, answer, replaying, nextEvent_of_ahead hr, RecordedRecv.toResult_ofResult]
    exact ⟨rfl, ahead_advance hr⟩
  -- nothing is recorded for a shutdown
  | tcpShutdownWrite handle =>
    have hok : (B.tcpShutdownWrite b handle).1 = .ok () := h
    simp only [next, answer, replaying, Prod.map_fst, hok]
    exact ⟨trivial, hr⟩
  | udpSendTo handle addr bytes =>
    have hok : (B.udpSendTo b handle addr bytes).1 = .ok bytes.length := h
    simp only [logged, hok] at hr
    simp only [next, answer, replaying, Prod.map_fst,
      Prod.map_snd, hok, skip_of_ahead NetEvent.isSentTo hr rfl]
    exact ⟨trivial, ahead_advance hr⟩
  | udpRecvFrom handle max =>
    obtain ⟨value, hok⟩ : ∃ value, (B.udpRecvFrom b handle max).1 = .ok value := h
    simp only [logged, hok] at hr
    simp only [next, answer, replaying, Prod.map_fst, Prod.map_snd, hok, nextEvent_of_ahead hr]
    exact ⟨trivial, ahead_advance hr⟩
  | close handle =>
    simp only [next, answer, replaying, skip_of_ahead NetEvent.isClosed hr rfl]
    exact ⟨trivial, ahead_advance hr⟩

/-- Wherever the cursor stands, a replay answers a send, a shutdown and a datagram
receive in one way only. -/
lemma replayable_of_answer (h : (replaying.answer r c).1 = (B.answer b c).1)
    : B.Replayable b c := by
  cases c with
  | tcpConnect | tcpRecv | udpOpen | close => trivial
  | tcpSend | udpSendTo => exact (NetAnswer.count.inj h).symm
  | tcpShutdownWrite => exact (NetAnswer.done.inj h).symm
  | udpRecvFrom handle max =>
    obtain ⟨value, hv⟩ : ∃ value, (replaying.udpRecvFrom r handle max).1 = .ok value := by
      simp only [replaying]
      split <;> exact ⟨_, rfl⟩
    exact ⟨value, (NetAnswer.datagram.inj h).symm.trans hv⟩

/-! ### A whole session -/

/-- What the recorder logs of a sequence of calls. -/
def NetworkBroker.session (B : NetworkBroker β) : β → List NetCall → List NetEvent
  | _, [] => []
  | b, c :: cs => B.logged b c ++ B.session (B.next b c) cs

variable (cs : List NetCall)

lemma recording_answers (r : RecordingBroker β) :
    (recording B).answers r cs = B.answers r.inner cs := by
  induction cs generalizing r with
  | nil => rfl
  | cons c cs ih =>
    simp only [answers, ih, next, recording_answer]

lemma recording_log (r : RecordingBroker β) :
    (run (recording B).next r cs).log.events = r.log.events ++ B.session r.inner cs := by
  induction cs generalizing r with
  | nil => simp [session]
  | cons c cs ih =>
    rw [run_cons, ih]
    simp [next, recording_answer, session]

/-- A replay with a session ahead of it repeats the session's answers if and only if each
of them is replayable. -/
lemma replaying_answers_iff (b : β) (r : ReplayBroker)
    (hr : r.ahead = B.session b cs) :
    replaying.answers r cs = B.answers b cs ↔ Guarded B.next B.Replayable b cs := by
  induction cs generalizing b r with
  | nil => exact ⟨fun _ => trivial, fun _ => rfl⟩
  | cons c cs ih =>
    simp only [answers, List.cons.injEq, Guarded]
    -- Both sides begin with the first call being replayable; the cursor is then where
    -- the rest of the session begins.
    constructor
    · rintro ⟨hc, hcs⟩
      have hok := replayable_of_answer hc
      exact ⟨hok, (ih _ _ (replaying_answer hok hr).2).mp hcs⟩
    · rintro ⟨hok, hcs⟩
      have hstep := replaying_answer hok hr
      exact ⟨hstep.1, (ih _ _ hstep.2).mpr hcs⟩

end

/-- **A replay gives the guest what the recorded run gave it** exactly when every answer
of the inner broker is one the recording can carry: no failed or short send, no failed
shutdown, no failed datagram receive. -/
theorem replay_eq_record_iff {β : Type u} (B : NetworkBroker β) (b : β) (cs : List NetCall) :
    replaying.answers (.new (run (recording B).next (.new b) cs).log) cs =
        (recording B).answers (.new b) cs ↔
      Guarded B.next B.Replayable b cs := by
  rw [recording_answers]
  refine replaying_answers_iff cs b _ ?_
  rw [ReplayBroker.ahead, ReplayBroker.new, List.drop_zero, recording_log]
  rfl

/-- A broker over a slow link: a send takes one byte, and no datagram ever arrives. -/
def slowBroker : NetworkBroker Unit where
  tcpConnect b _ := (.ok 1, b)
  tcpSend b _ _ := (.ok 1, b)
  tcpRecv b _ _ := (.ok (.data [104, 105]), b)
  tcpShutdownWrite b _ := (.ok (), b)
  udpOpen b := (.ok 2, b)
  udpSendTo b _ _ bytes := (.ok bytes.length, b)
  udpRecvFrom b _ _ := (.error 11, b)
  close b _ := b

/-- A short send is replayed as a full one; and after a datagram receive that failed, the
stream receive behind it is answered with the end of the stream. -/
theorem replay_differs :
    let cs : List NetCall := [.tcpSend 1 [1, 2], .udpRecvFrom 2 64, .tcpRecv 1 64]
    (recording slowBroker).answers (.new ()) cs =
        [.count (.ok 1), .datagram (.error 11), .received (.ok (.data [104, 105]))] ∧
      replaying.answers (.new (run (recording slowBroker).next (.new ()) cs).log) cs =
        [.count (.ok 2), .datagram (.ok none), .received (.ok .closed)] := by
  decide

end WebTos.Net
