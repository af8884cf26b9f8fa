import WebTos.Net.Relay

/-!
One batch of commands, carried out by the worker (`worker.js`, `performNetwork`).

The worker carries each command out as it decodes it.  A payload for a WebSocket that is not open
yet waits in the entry's queue.  The message of a `shutdown` is sent at once, and a WebSocket that
is still connecting refuses it with an exception, which ends the loop.  A close does not wait
either, and the queue is then never sent.

* `NetCommand.hasty`: the command sends on a WebSocket that is still connecting;
* `World.carry_fst_iff`: the other commands throw nothing;
* `batch_carried_iff`: the worker decodes a stream to its end, into the commands of the broker,
  exactly if none of them is hasty when its turn comes;
* `Link.stream`, `World.meant`: the messages of a WebSocket, and those a batch has for it;
* `NetCommand.drops`: the command loses messages and throws nothing;
* `Numbered.carry_gives`: what one command gives the WebSockets;
* `numbered_run`: the states the results are about are those of every run;
* `batch_whole_iff`: a batch is carried out whole and in order exactly if none of its commands is
  hasty and none drops messages.
-/

namespace WebTos.Net

open Lib List World Link Function

/-- The entry of a handle in the worker's map. -/
def World.entry (w : World) (h : ℕ) : Option Link := (w.sockets h).bind w.links

/-- The command sends on a WebSocket that is still connecting: a `shutdown` does so at once, a
payload only if the entry is marked open, which it is when the WebSocket is. -/
def NetCommand.hasty (w : World) : NetCommand → Bool
  | .tcpShutdownWrite h => (w.entry h.toNat).any fun l => l.ready = .connecting
  | .tcpSend h _ | .udpSendTo h _ _ =>
    (w.entry h.toNat).any fun l => l.opened && l.ready = .connecting
  | .tcpConnect _ _ | .udpOpen _ | .close _ => false

lemma World.withSocket_fst (w : World) (h : ℕ) (f : Link → Option JsError × Link) :
    (w.withSocket h f).1 = (w.entry h).bind fun l => (f l).1 := by
  rw [withSocket, entry]
  cases w.sockets h with
  | none => rfl
  | some k =>
    rw [Option.bind_some]
    dsimp only
    cases w.links k <;> rfl

lemma Link.send_fst_iff (m : Message) (l : Link) :
    (l.send m).1 = none ↔ decide (l.ready = .connecting) = false := by
  rw [send]
  cases l.ready <;> simp

/-- A payload waits until the entry is marked open. -/
lemma Link.sendOn_fst_iff (payload : Bytes) (l : Link) :
    (l.sendOn payload).1 = none ↔ (l.opened && l.ready = .connecting) = false := by
  rw [sendOn]
  split_ifs with hopened
  · rw [hopened, Bool.true_and, send_fst_iff]
  · simp [hopened]

/-- **One command** throws exactly if it is hasty. -/
lemma World.carry_fst_iff (w : World) (c : NetCommand) :
    (w.carry c.host).1 = none ↔ c.hasty w = false := by
  -- the entry decides, and a handle without one is skipped
  have hentry {h : ℕ} {f : Link → Option JsError × Link} {p : Link → Bool}
      (hf : ∀ l, (f l).1 = none ↔ p l = false) :
      (w.withSocket h f).1 = none ↔ (w.entry h).any p = false := by
    rw [withSocket_fst]
    cases w.entry h with
    | none => exact iff_of_true rfl rfl
    | some l => exact hf l
  cases c with
  | tcpSend h bytes => exact hentry (sendOn_fst_iff bytes)
  | udpSendTo h addr bytes => exact hentry (sendOn_fst_iff _)
  | tcpShutdownWrite h => exact hentry (send_fst_iff .shutdown)
  | tcpConnect | udpOpen | close => exact iff_of_true rfl rfl

/-- No command of the batch is hasty when its turn comes. -/
def Patient : World → List NetCommand → Prop :=
  Guarded (fun w c => (w.carry c.host).2) fun w c => c.hasty w = false

/-- **A list of commands** is carried out without a throw exactly if it is patient. -/
lemma carryAll_fst_iff (cs : List NetCommand) : ∀ w : World,
    (carryAll World.carry (cs.map NetCommand.host) w).1 = none ↔ Patient w cs := by
  induction cs with
  | nil => exact fun _ => iff_of_true rfl trivial
  | cons c cs ih =>
    intro w
    have hrest := ih (w.carry c.host).2
    rw [map_cons, carryAll, Patient, Guarded, ← w.carry_fst_iff, ← Patient, ← hrest]
    rcases w.carry c.host with ⟨_ | e, w'⟩
    · exact (and_iff_right rfl).symm
    · exact iff_of_false (fun h => by cases h) fun h => by cases h.1

/-- **A batch is carried out** exactly if it is patient: the worker's loop then ends at the end of
the stream without a throw, and the commands it has decoded are those of the broker, the same
operations, handles, addresses, ports and payloads, in order. -/
theorem batch_carried_iff (w : World) (b : HostBroker) (hfits : ∀ c ∈ b.commands, c.Fits) :
    let stream := b.takeCommands.1
    let result := performNetwork (noting World.carry) stream ([], w)
    performNetwork World.carry stream w = (result.1, result.2.1, result.2.2.2) ∧
      ((result.1 = none ∧ result.2.1 = stream.length ∧
          result.2.2.1.map HostCommand.command = b.commands.map some) ↔ Patient w b.commands) := by
  intro stream result
  obtain ⟨herror, hstate, hend⟩ := performNetwork_encode (noting World.carry) hfits ([], w)
  obtain ⟨hnoted, hall⟩ := carryAll_noting World.carry (b.commands.map NetCommand.host) [] w
  rw [← carryAll_fst_iff]
  refine ⟨performLoop_noting _ _ _ _ _ _, fun h => ?_, fun h => ⟨?_, ?_, ?_⟩⟩
  · exact hnoted.symm.trans (herror.symm.trans h.1)
  · exact herror.trans (hnoted.trans h)
  · exact hend (hnoted.trans h)
  · have hdecoded : result.2.2.1 = b.commands.map NetCommand.host :=
      (congrArg Prod.fst hstate).trans (hall h)
    rw [hdecoded, map_map]
    exact map_congr_left fun c _ => command_host c

/-- A worker with a WebSocket that is open, for the handle 1. -/
def openedWorld : World :=
  run World.step { gateway := true } [.guest (.socket .tcp),
    .guest (.connect 0 ⟨0x7f000001, 8080⟩), .pump, .upgrade 0 true, .opened 0]

/-- A payload, a `shutdown` and a close on an open connection, and a datagram on a new socket. -/
theorem batch_carried_open :
    let cs : List NetCommand := [.tcpSend 1 [104, 105], .tcpShutdownWrite 1, .close 1, .udpOpen 2,
      .udpSendTo 2 ⟨0x08080808, 53⟩ [0, 1]]
    (performNetwork (noting World.carry) (HostBroker.takeCommands { commands := cs }).1
      ([], openedWorld)).2.2.1.map HostCommand.command = cs.map some := by
  intro cs
  have hfits : ∀ c ∈ cs, c.Fits := by
    intro c hc
    simp only [cs, mem_cons, not_mem_nil, or_false] at hc
    rcases hc with rfl | rfl | rfl | rfl | rfl <;> exact ⟨by decide, by decide⟩
  have hpatient : Patient openedWorld cs :=
    ⟨by decide +kernel, by decide +kernel, rfl, rfl, by decide +kernel, trivial⟩
  exact ((batch_carried_iff openedWorld { commands := cs } hfits).2.mpr hpatient).2.2

/-- **A batch that is not carried out**: the guest connects, shuts its side down and closes the
socket before the worker runs.  The loop stops in front of the last command, and with it the
worker. -/
theorem hasty_shutdown_throws :
    let w := run World.step { gateway := true } [.guest (.socket .tcp),
      .guest (.connect 0 ⟨0x7f000001, 8080⟩), .guest (.shutdown 0), .guest (.close 0)]
    let stream := w.broker.takeCommands.1
    w.broker.commands = [.tcpConnect 1 ⟨0x7f000001, 8080⟩, .tcpShutdownWrite 1, .close 1] ∧
      (performNetwork World.carry stream w).1 = some .invalidState ∧
      (performNetwork World.carry stream w).2.1 < stream.length ∧ w.pump.running = false := by
  decide +kernel

/-! ### The messages of a batch -/

/-- The messages a command has for the WebSocket of its handle. -/
def HostCommand.messages : HostCommand → List Message
  | .tcpSend _ bytes => [.binary bytes]
  | .tcpShutdown _ => [.shutdown]
  | .udpSendTo _ ip port bytes => [.binary (udpFrame ip port bytes)]
  | .tcpConnect _ _ _ | .udpOpen _ | .close _ => []

namespace Link

/-- The messages the WebSocket has to carry, and those that `onopen` will give it. -/
def stream (l : Link) : List Message :=
  l.wire ++ if l.ready = .connecting then l.queue.map .binary else []

/-- The WebSocket is connecting or open: it carries what it is given. -/
def takes (l : Link) : Bool := l.ready = .connecting || l.ready = .opened

/-- The messages of the WebSocket, and behind them those it is given. -/
def followedBy (l : Link) (ms : List Message) : List Message :=
  l.stream ++ if l.takes then ms else []

/-- `l'` has the messages of `l` and the new ones, without those that got lost. -/
structure Gives (ms : List Message) (lost : Bool) (l l' : Link) : Prop where
  sublist : l'.stream <+ l.followedBy ms
  eq_iff : l'.stream = l.followedBy ms ↔ lost = false

variable {l : Link}

/-- A message sent on a WebSocket that is not connecting is carried, or discarded at its end. -/
lemma send_gives (hready : decide (l.ready = .connecting) = false) (m : Message) :
    l.Gives [m] false (l.send m).2 := by
  have heq : (l.send m).2.stream = l.followedBy [m] := by
    cases hl : l.ready <;> simp_all [send, stream, followedBy, takes]
  exact ⟨heq ▸ Sublist.refl _, iff_of_true heq rfl⟩

/-- A payload is queued for a WebSocket whose entry is not marked open, though it may be open. -/
lemma sendOn_gives (payload : Bytes) (hready : (l.opened && l.ready = .connecting) = false) :
    l.Gives [.binary payload] (l.ready = .opened && !l.opened) (l.sendOn payload).2 := by
  rw [sendOn]
  split_ifs with hopened
  · rw [hopened, Bool.not_true, Bool.and_false]
    exact send_gives (by simpa [hopened] using hready) _
  · constructor <;> cases hl : l.ready <;> simp_all [stream, followedBy, takes]

/-- A close takes the queue away from a WebSocket that is still connecting. -/
lemma startClose_gives :
    l.Gives [] (l.ready = .connecting && !l.queue.isEmpty) l.startClose := by
  constructor <;> cases hl : l.ready <;> simp [startClose, stream, followedBy, hl]

end Link

/-- The command loses messages and throws nothing: a close while payloads wait for the WebSocket
to open, or a payload that is left to wait for a WebSocket that is open. -/
def NetCommand.drops (w : World) : NetCommand → Bool
  | .close h => (w.entry h.toNat).any fun l => l.ready = .connecting && !l.queue.isEmpty
  | .tcpSend h _ | .udpSendTo h _ _ =>
    (w.entry h.toNat).any fun l => l.ready = .opened && !l.opened
  | .tcpShutdownWrite _ | .tcpConnect _ _ | .udpOpen _ => false

namespace World

/-- The messages of the WebSocket `k`. -/
def stream (w : World) (k : ℕ) : List Message := (w.links k).elim [] Link.stream

/-- The messages a command has for the WebSocket `k`: those of its handle's WebSocket, while that
one is connecting or open. -/
def due (w : World) (c : NetCommand) (k : ℕ) : List Message :=
  if w.sockets c.handle.toNat = some k ∧ (w.links k).any takes then c.host.messages else []

/-- The messages a batch has for the WebSocket `k`, in the order of its commands. -/
def meant : World → List NetCommand → ℕ → List Message
  | _, [], _ => []
  | w, c :: cs, k => w.due c k ++ (w.carry c.host).2.meant cs k

/-- The WebSockets are numbered in the order they were made. -/
def Numbered (w : World) : Prop := ∀ k, w.made ≤ k → w.links k = none

/-- Every WebSocket has its messages and behind them those of the command, without those that got
lost. -/
structure Gives (w : World) (c : NetCommand) (lost : Bool) (w' : World) : Prop where
  sublist : ∀ k, w'.stream k <+ w.stream k ++ w.due c k
  eq_iff : (∀ k, w'.stream k = w.stream k ++ w.due c k) ↔ lost = false

variable {w w' : World} {c : NetCommand}

lemma Gives.of_eq (h : ∀ k, w'.stream k = w.stream k ++ w.due c k) : w.Gives c false w' :=
  ⟨fun k => h k ▸ Sublist.refl _, iff_of_true h rfl⟩

/-- An operation on the WebSocket of the handle gives this one what it gives the link. -/
lemma withSocket_gives {f : Link → Option JsError × Link} {p : Link → Bool}
    (hf : ∀ l, w.entry c.handle.toNat = some l → l.Gives c.host.messages (p l) (f l).2) :
    w.Gives c ((w.entry c.handle.toNat).any p) (w.withSocket c.handle.toNat f).2 := by
  rcases w.withSocket_cases c.handle.toNat f with ⟨heq, hnone⟩ | ⟨k, l, hk, hl, heq⟩
  · have hentry : w.entry c.handle.toNat = none := by
      rw [entry, Option.bind_eq_none_iff]
      exact fun k hk => Option.eq_none_iff_forall_ne_some.mpr fun l => hnone hk
    rw [heq, hentry]
    refine .of_eq fun k => ?_
    rw [due, if_neg, append_nil]
    rintro ⟨hk, htakes⟩
    rw [Option.eq_none_iff_forall_ne_some.mpr fun l => hnone hk] at htakes
    cases htakes
  have hentry : w.entry c.handle.toNat = some l := by rw [entry, hk, Option.bind_some, hl]
  obtain ⟨hsub, heq_iff⟩ := hf l hentry
  have hstream : ∀ j, (w.withSocket c.handle.toNat f).2.stream j =
      if j = k then (f l).2.stream else w.stream j := fun j => by
    rw [heq, stream, onLink, stream]
    split_ifs with hj
    · simp [hj, hl]
    · simp [hj]
  have hdue : ∀ j, w.stream j ++ w.due c j =
      if j = k then l.followedBy c.host.messages else w.stream j :=
    fun j => by
      rw [due, hk]
      by_cases hj : j = k
      · simp [hj, stream, hl, followedBy]
      · simp [hj, Ne.symm hj]
  rw [hentry, Option.any_some]
  refine ⟨fun j => ?_, ?_⟩
  · rw [hstream, hdue]
    split_ifs
    · exact hsub
    · exact Sublist.refl _
  · rw [← heq_iff]
    simp only [hstream, hdue]
    refine ⟨fun h => by simpa using h k, fun h j => ?_⟩
    rw [h]

/-- A new WebSocket has no messages, and the others keep theirs. -/
lemma Numbered.connectLink_gives (hw : w.Numbered) (hc : c.host.messages = []) (handle : ℕ)
    (target : Option (List Char × ℕ)) : w.Gives c false (w.connectLink handle target) := by
  refine .of_eq fun k => ?_
  rw [due, hc, ite_self, append_nil, connectLink]
  split_ifs
  · rw [openLink, stream, stream]
    by_cases hk : k = w.made
    · simp [hk, hw _ le_rfl, Link.stream]
    · simp [hk]
  · rfl

/-- **One command** that throws nothing gives the WebSockets its messages, unless it drops some. -/
lemma Numbered.carry_gives (hw : w.Numbered) (hc : c.hasty w = false) :
    w.Gives c (c.drops w) (w.carry c.host).2 := by
  have hentry {h : ℕ} {p : Link → Bool} (hp : (w.entry h).any p = false) {l : Link}
      (hl : w.entry h = some l) : p l = false := by
    rwa [hl] at hp
  cases c with
  | tcpConnect => exact hw.connectLink_gives rfl _ _
  | udpOpen => exact hw.connectLink_gives rfl _ _
  | tcpSend h bytes =>
    exact withSocket_gives (c := .tcpSend h bytes) fun l hl => sendOn_gives _ (hentry hc hl)
  | udpSendTo h addr bytes =>
    exact withSocket_gives (c := .udpSendTo h addr bytes) fun l hl => sendOn_gives _ (hentry hc hl)
  | tcpShutdownWrite h =>
    have hgives := withSocket_gives (c := .tcpShutdownWrite h) (p := fun _ => false)
      fun l hl => send_gives (hentry hc hl) .shutdown
    rwa [Option.any_false] at hgives
  | close h =>
    -- the entry is forgotten, which changes no WebSocket
    obtain ⟨hsub, heq⟩ := withSocket_gives (c := .close h) (f := fun l => (none, l.startClose))
      fun l _ => startClose_gives
    exact ⟨hsub, heq⟩

lemma Numbered.onLink (hw : w.Numbered) (k : ℕ) (f : Link → Link) : (w.onLink k f).Numbered := by
  intro j hj
  have hnone : w.links j = none := hw j hj
  rw [World.onLink]
  by_cases hjk : j = k
  · simp [← hjk, hnone]
  · simp [hjk, hnone]

lemma Numbered.withSocket (hw : w.Numbered) (h : ℕ) (f : Link → Option JsError × Link) :
    (w.withSocket h f).2.Numbered := by
  rcases w.withSocket_cases h f with ⟨heq, -⟩ | ⟨k, l, -, -, heq⟩ <;> rw [heq]
  · exact hw
  · exact hw.onLink k _

lemma Numbered.connectLink (hw : w.Numbered) (handle : ℕ) (target : Option (List Char × ℕ)) :
    (w.connectLink handle target).Numbered := by
  rw [World.connectLink]
  split_ifs
  · intro k hk
    have hmade : w.made < k := hk
    exact (update_of_ne hmade.ne' ..).trans (hw k hmade.le)
  · exact hw

lemma Numbered.carry (hw : w.Numbered) (c : HostCommand) : (w.carry c).2.Numbered := by
  cases c with
  | tcpConnect | udpOpen => exact hw.connectLink _ _
  | tcpSend | tcpShutdown | udpSendTo | close => exact hw.withSocket _ _

/-- The worker's loop keeps the numbering, wherever it ends. -/
lemma Numbered.performLoop (stream : Bytes) (turns : ℕ) : ∀ (i : ℕ) {w : World}, w.Numbered →
    (performLoop World.carry stream turns i w).2.2.Numbered := by
  induction turns with
  | zero => exact fun _ _ hw => hw
  | succ turns ih =>
    intro i w hw
    rw [Net.performLoop]
    split_ifs
    · rcases nextCommand stream i with e | ⟨c, j⟩
      · exact hw
      · have hcarry := hw.carry c
        dsimp only
        generalize w.carry c = result at hcarry ⊢
        rcases result with ⟨_ | e, w'⟩
        · exact ih j hcarry
        · exact hcarry
    · exact hw

/-- A call of the guest reaches no WebSocket. -/
lemma call_links (w : World) (c : GuestCall) :
    (w.call c).links = w.links ∧ (w.call c).made = w.made := by
  cases c with
  | socket kind => exact ⟨rfl, rfl⟩
  | _ s =>
    rw [call]
    cases w.guest s
    · exact ⟨rfl, rfl⟩
    simp only [Option.elim_some, connect, write, sendto, read, shutdown, closeGuest, sendTcp]
    repeat' split
    all_goals exact ⟨rfl, rfl⟩

/-- **Every reachable state is numbered.** -/
lemma numbered_run (gateway : Bool) (es : List Event) :
    (run World.step (World.start gateway) es).Numbered := by
  refine run_invariant Numbered (fun w e hw => ?_) es fun _ _ => rfl
  have hframe {w' : World} (hlinks : w'.links = w.links) (hmade : w'.made = w.made) :
      w'.Numbered := fun k hk => by rw [hlinks]; exact hw k (hmade ▸ hk)
  cases e with
  | pump =>
    rw [step, pump]
    split_ifs
    · exact hw
    · exact Numbered.performLoop _ _ 0 hw
  | guest c => exact hframe (w.call_links c).1 (w.call_links c).2
  | reply k =>
    have hrest := hw.onLink k
    rw [step, onReply]
    repeat' split
    all_goals first | exact hw | exact hrest _ | exact (hrest _).onLink k _
  | closed k code =>
    have hrest := hw.onLink k
    rw [step, onClose]
    split
    · exact hw
    · dsimp only
      split_ifs
      · exact hw
      · rw [reportClose]
        split <;> exact hrest _
      · exact hrest _
  | _ => exact hw.onLink _ _

end World

/-- No command of the batch drops messages when its turn comes. -/
def Lossless : World → List NetCommand → Prop :=
  Guarded (fun w c => (w.carry c.host).2) fun w c => c.drops w = false

/-- A patient batch is run to its end. -/
lemma Patient.carryAll_snd (cs : List NetCommand) : ∀ {w : World}, Patient w cs →
    (carryAll World.carry (cs.map NetCommand.host) w).2
      = run (fun w c => (w.carry c.host).2) w cs := by
  induction cs with
  | nil => exact fun _ => rfl
  | cons c cs ih =>
    intro w h
    have hc := (w.carry_fst_iff c).mpr h.1
    rw [map_cons, carryAll, run_cons, ← ih h.2]
    dsimp only
    generalize w.carry c.host = result at hc ⊢
    rcases result with ⟨_ | e, w'⟩
    · rfl
    · cases hc

/-- Whatever is dropped, the order is kept and nothing comes twice. -/
lemma Patient.stream_sublist (cs : List NetCommand) : ∀ {w : World}, w.Numbered → Patient w cs →
    ∀ k, (run (fun w c => (w.carry c.host).2) w cs).stream k <+ w.stream k ++ w.meant cs k := by
  induction cs with
  | nil => exact fun _ _ k => by rw [World.meant, append_nil]; exact Sublist.refl _
  | cons c cs ih =>
    intro w hw h k
    rw [World.meant, ← append_assoc]
    exact (ih (hw.carry _) h.2 k).trans (((hw.carry_gives h.1).sublist k).append_right _)

/-- Nothing is lost exactly if no command drops messages. -/
lemma Patient.stream_eq_iff (cs : List NetCommand) : ∀ {w : World}, w.Numbered → Patient w cs →
    ((∀ k, (run (fun w c => (w.carry c.host).2) w cs).stream k = w.stream k ++ w.meant cs k) ↔
      Lossless w cs) := by
  induction cs with
  | nil => exact fun _ _ => iff_of_true (fun k => (append_nil _).symm) trivial
  | cons c cs ih =>
    intro w hw h
    have hgives := hw.carry_gives h.1
    rw [Lossless, Guarded, ← Lossless, ← ih (hw.carry _) h.2, ← hgives.eq_iff]
    simp only [World.meant, ← append_assoc, run_cons]
    refine ⟨fun hall => ?_, fun h k => by rw [h.2, h.1]⟩
    -- what one command loses is never made up for
    have hc : ∀ k, (w.carry c.host).2.stream k = w.stream k ++ w.due c k := fun k => by
      have hle := (stream_sublist cs (hw.carry c.host) h.2 k).length_le
      simp only [hall, length_append] at hle
      exact (hgives.sublist k).eq_of_length_le (by rw [length_append]; omega)
    exact ⟨hc, fun k => by rw [hall, hc]⟩

/-- **A batch is carried out whole and in order** exactly if no command of it is hasty and none
drops messages: nothing throws, and every WebSocket has, or will have when it opens, the messages
the commands have for it, behind those it had before. -/
theorem batch_whole_iff (w : World) (hw : w.Numbered) (b : HostBroker)
    (hfits : ∀ c ∈ b.commands, c.Fits) :
    let result := performNetwork World.carry b.takeCommands.1 w
    (result.1 = none ∧ ∀ k, result.2.2.stream k = w.stream k ++ w.meant b.commands k) ↔
      Patient w b.commands ∧ Lossless w b.commands := by
  intro result
  obtain ⟨herror, hstate, -⟩ := performNetwork_encode World.carry hfits w
  have herror' : result.1 = none ↔ Patient w b.commands := by
    rw [← carryAll_fst_iff, ← herror]
    rfl
  rw [herror']
  refine and_congr_right fun hpatient => ?_
  have hstate' : result.2.2 = _ := hstate.trans (hpatient.carryAll_snd b.commands)
  rw [hstate']
  exact hpatient.stream_eq_iff b.commands hw

/-- A payload, a `shutdown` and a close on an open connection, and a datagram on a new socket. -/
theorem batch_whole_open :
    let cs : List NetCommand := [.tcpSend 1 [104, 105], .tcpShutdownWrite 1, .close 1, .udpOpen 2,
      .udpSendTo 2 ⟨0x08080808, 53⟩ [1]]
    let stream := (HostBroker.takeCommands { commands := cs }).1
    let result := performNetwork World.carry stream openedWorld
    (∀ k, result.2.2.stream k = openedWorld.stream k ++ openedWorld.meant cs k) ∧
      openedWorld.meant cs 0 = [.binary [104, 105], .shutdown] ∧
      openedWorld.meant cs 1 = [.binary [8, 8, 8, 8, 0, 53, 1]] := by
  intro cs stream result
  have hfits : ∀ c ∈ cs, c.Fits := by
    intro c hc
    simp only [cs, mem_cons, not_mem_nil, or_false] at hc
    rcases hc with rfl | rfl | rfl | rfl | rfl <;> exact ⟨by decide, by decide⟩
  have hpatient : Patient openedWorld cs :=
    ⟨by decide +kernel, by decide +kernel, rfl, rfl, by decide +kernel, trivial⟩
  have hlossless : Lossless openedWorld cs :=
    ⟨by decide +kernel, rfl, by decide +kernel, rfl, by decide +kernel, trivial⟩
  have hwhole := batch_whole_iff openedWorld (numbered_run true _) { commands := cs } hfits
  exact ⟨(hwhole.mpr ⟨hpatient, hlossless⟩).2, by decide +kernel, by decide +kernel⟩

/-- **Batches that are not.**  The guest connects, writes and shuts its side down before the worker
runs: the throw keeps the next connection from being opened.  Where it closes the socket instead,
nothing throws and what it wrote is never sent. -/
theorem batch_cut_short :
    let start : List Event := [.guest (.socket .tcp), .guest (.socket .tcp),
      .guest (.connect 0 ⟨0x7f000001, 8080⟩), .guest (.write 0 [104, 105])]
    let ran (calls : List Event) :=
      let w := run World.step (World.start true) (start ++ calls)
      performNetwork World.carry w.broker.takeCommands.1 w
    let shut := ran [.guest (.shutdown 0), .guest (.connect 1 ⟨0x7f000001, 8081⟩)]
    let closed := ran [.guest (.close 0)]
    shut.1 = some .invalidState ∧ shut.2.2.stream 0 = [.binary [104, 105]] ∧
      shut.2.2.made = 1 ∧ closed.1 = none ∧ closed.2.2.made = 1 ∧ closed.2.2.stream 0 = [] := by
  decide +kernel

end WebTos.Net
