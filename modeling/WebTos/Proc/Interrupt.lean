import WebTos.Proc.Futex

/-!
Signals that meet a parked task (`deliver_signal`, `schedule_next`, `rt_sigreturn`).

* `chosen`: the signal `deliver_signal` runs a handler for; `scanHandler_eq`: its loop takes
  that one from the pending set, and besides it only what the task ignores;
* `Machine.deliverSignal_keeps_iff`: when a delivery that enters no handler loses no signal;
* `Blocking`: the system calls that wait, with what they park; `Machine.interrupted_resume_iff`:
  where such a call goes on once the handler that interrupted it has returned.
-/

namespace WebTos.Proc

open Fd Proc.Kernel

/-! ### Pending signals -/

lemma compl_signalBit_and {s t : ℕ} (hs : s ∈ allSignals) (ht : t ∈ allSignals)
    (hne : s ≠ t) : ~~~signalBit t &&& signalBit s = signalBit s := by
  have hall : ∀ s ∈ allSignals, ∀ t ∈ allSignals, s ≠ t →
      ~~~signalBit t &&& signalBit s = signalBit s := by decide +kernel
  exact hall s hs t ht hne

namespace Process

/-- The signal is pending, blocked or not. -/
def pends (p : Process) (signal : ℕ) : Bool := p.pendingSignals &&& signalBit signal != 0

lemma pends_consume_self (p : Process) (s : ℕ) : (p.consume s).pends s = false := by
  have hzero : ~~~signalBit s &&& signalBit s = 0 := by
    rw [UInt64.and_comm]
    exact UInt64.and_not_self
  rw [pends, consume]
  dsimp only
  rw [UInt64.and_assoc, hzero, UInt64.and_zero]
  rfl

variable {s t : ℕ} {p : Process}

lemma pends_consume (p : Process) (hs : s ∈ allSignals)
    (ht : t ∈ allSignals) (hne : s ≠ t) : (p.consume t).pends s = p.pends s := by
  rw [pends, pends, consume]
  dsimp only
  rw [UInt64.and_assoc, compl_signalBit_and hs ht hne]

lemma hasDeliverable_eq (p : Process) (s : ℕ) :
    p.hasDeliverable s = (p.pendingSignals &&& signalBit s &&& ~~~p.sigmask != 0) := by
  rw [hasDeliverable]
  congr 1
  ac_rfl

lemma hasDeliverable_consume (p : Process) (hs : s ∈ allSignals)
    (ht : t ∈ allSignals) (hne : s ≠ t) :
    (p.consume t).hasDeliverable s = p.hasDeliverable s := by
  rw [hasDeliverable_eq, hasDeliverable_eq, consume]
  dsimp only
  rw [UInt64.and_assoc p.pendingSignals, compl_signalBit_and hs ht hne]

/-- Consuming a signal makes none deliverable. -/
lemma hasDeliverable_of_consume
    (h : (p.consume t).hasDeliverable s) : p.hasDeliverable s := by
  have hreorder : p.pendingSignals &&& ~~~signalBit t &&& signalBit s &&& ~~~p.sigmask
      = p.pendingSignals &&& signalBit s &&& ~~~p.sigmask &&& ~~~signalBit t := by ac_rfl
  rw [hasDeliverable_eq, consume, bne_iff_ne] at h
  rw [hasDeliverable_eq, bne_iff_ne]
  intro hzero
  dsimp only at h
  rw [hreorder, hzero, UInt64.zero_and] at h
  exact h rfl

lemma pends_of_hasDeliverable (h : p.hasDeliverable s) :
    p.pends s := by
  rw [hasDeliverable_eq, bne_iff_ne] at h
  rw [pends, bne_iff_ne]
  intro hzero
  rw [hzero, UInt64.zero_and] at h
  exact h rfl

/-- A task with a deliverable signal has something to deliver. -/
lemma deliverable_of_hasDeliverable (h : p.hasDeliverable s) :
    p.deliverable := by
  rw [hasDeliverable, bne_iff_ne] at h
  rw [deliverable, bne_iff_ne]
  intro hzero
  rw [hzero, UInt64.zero_and] at h
  exact h rfl

end Process

/-! ### The signal a handler runs for -/

/-- The disposition of a signal. -/
def handlerFor (acts : ℕ → Option SigAction) (signal : ℕ) : UInt64 :=
  ((acts signal).map (·.handler)).getD SIG_DFL

/-- A signal with this disposition is thrown away. -/
def discarded (acts : ℕ → Option SigAction) (signal : ℕ) : Bool :=
  handlerFor acts signal == SIG_IGN ||
    (handlerFor acts signal == SIG_DFL
      && !(defaultActionTerminates signal || defaultActionStops signal))

/-- The action of a signal that has a handler. -/
def userHandler (acts : ℕ → Option SigAction) (signal : ℕ) : Option SigAction :=
  (acts signal).filter fun a => a.handler != SIG_DFL && a.handler != SIG_IGN

/-- The signal of the list a handler runs for: the first that can be delivered and is not thrown
away, if it has a handler. -/
def chosen (acts : ℕ → Option SigAction) (p : Process) (sigs : List ℕ) : Option (ℕ × SigAction) :=
  (sigs.find? fun s => p.hasDeliverable s && !discarded acts s).bind fun s =>
    (userHandler acts s).map fun a => (s, a)

/-- One round of the scan, by what is done with the signal. -/
lemma scanHandler_cons (acts : ℕ → Option SigAction) (sig : ℕ) (sigs : List ℕ) (p : Process) :
    scanHandler acts (sig :: sigs) p
      = if p.hasDeliverable sig = false then scanHandler acts sigs p
        else if discarded acts sig = true then scanHandler acts sigs (p.consume sig)
        else match userHandler acts sig with
          | some a => (some (sig, a), p.consume sig)
          | none => (none, p) := by
  have hdfl : SIG_DFL ≠ SIG_IGN := by decide
  rw [scanHandler, discarded, handlerFor, userHandler]
  cases p.hasDeliverable sig with
  | false => rfl
  | true =>
    generalize (defaultActionTerminates sig || defaultActionStops sig) = fatal
    cases acts sig with
    | none => cases fatal <;> simp [hdfl]
    | some a =>
      by_cases hd : a.handler = SIG_DFL
      · cases fatal <;> simp [Option.filter, hd, hdfl]
      · by_cases hi : a.handler = SIG_IGN <;> simp [Option.filter, hd, hi, hdfl.symm]

/-- What the scan of `deliver_signal` leaves: the masks, and of the pending signals all that are
blocked, and all that are not thrown away but the one chosen. -/
structure Scanned (acts : ℕ → Option SigAction) (p : Process)
    (result : Option (ℕ × SigAction) × Process) : Prop where
  sigmask : result.2.sigmask = p.sigmask
  signalSavedMask : result.2.signalSavedMask = p.signalSavedMask
  kept : ∀ s ∈ allSignals, p.pends s = true →
    (p.hasDeliverable s = true → discarded acts s = false) → (∀ a, result.1 ≠ some (s, a)) →
    result.2.pends s = true
  taken : ∀ s a, result.1 = some (s, a) → s ∈ allSignals ∧ p.hasDeliverable s = true ∧
    discarded acts s = false ∧ result.2.pends s = false

/-- A signal that is thrown away does not change the choice among the others. -/
lemma find?_consume (acts : ℕ → Option SigAction) (p : Process) {sig : ℕ} {sigs : List ℕ}
    (hsig : sig ∈ allSignals) (hrest : sigs ⊆ allSignals) (hnotin : sig ∉ sigs) :
    (sigs.find? fun s => (p.consume sig).hasDeliverable s && !discarded acts s)
      = sigs.find? fun s => p.hasDeliverable s && !discarded acts s := by
  refine List.find?_congr fun s hs => ?_
  rw [p.hasDeliverable_consume (hrest hs) hsig fun h => hnotin (h ▸ hs)]

/-- **The scan of `deliver_signal`** picks the signal it should. -/
lemma scanHandler_eq (acts : ℕ → Option SigAction) (sigs : List ℕ)
    (hsub : sigs ⊆ allSignals) (hnodup : sigs.Nodup) (p : Process) :
    (scanHandler acts sigs p).1 = chosen acts p sigs ∧
      Scanned acts p (scanHandler acts sigs p) := by
  induction sigs generalizing p with
  | nil => exact ⟨rfl, rfl, rfl, fun s _ hp _ _ => hp, fun s a h => by cases h⟩
  | cons sig sigs ih =>
    have hsig : sig ∈ allSignals := hsub List.mem_cons_self
    have hrest : sigs ⊆ allSignals := fun s hs => hsub (List.mem_cons_of_mem _ hs)
    obtain ⟨hnotin, hnodup⟩ := List.nodup_cons.mp hnodup
    rw [scanHandler_cons, chosen, List.find?_cons]
    cases hdeliverable : p.hasDeliverable sig with
    | false => exact ih hrest hnodup p
    | true =>
      rw [if_neg (by decide)]
      cases hdiscarded : discarded acts sig with
      | false =>
        rw [if_neg Bool.false_ne_true]
        change _ = (userHandler acts sig).map (fun a => (sig, a)) ∧ _
        cases userHandler acts sig with
        | none => exact ⟨rfl, rfl, rfl, fun s _ hp _ _ => hp, fun s a h => by cases h⟩
        | some a =>
          refine ⟨rfl, rfl, rfl, fun s hs hp _ hne => ?_, fun s a' h => ?_⟩
          · have hsig' : s ≠ sig := fun heq => hne a (heq ▸ rfl)
            rwa [Process.pends_consume p hs hsig hsig']
          · cases h
            exact ⟨hsig, hdeliverable, hdiscarded, p.pends_consume_self sig⟩
      | true =>
        -- the signal is gone, and the others are as deliverable as before
        rw [if_pos rfl]
        obtain ⟨heq, hscanned⟩ := ih hrest hnodup (p.consume sig)
        have hother {s : ℕ}
            (hkeep : p.hasDeliverable s → discarded acts s = false) : s ≠ sig := by
          rintro rfl
          rw [hkeep hdeliverable] at hdiscarded
          cases hdiscarded
        refine ⟨heq.trans ?_, hscanned.sigmask, hscanned.signalSavedMask,
          fun s hs hp hkeep hne => ?_, fun s a h => ?_⟩
        · rw [chosen, find?_consume acts p hsig hrest hnotin]
          rfl
        · have hsig' := hother hkeep
          refine hscanned.kept s hs ?_ ?_ hne
          · rwa [Process.pends_consume p hs hsig hsig']
          · rwa [Process.hasDeliverable_consume p hs hsig hsig']
        · obtain ⟨hs, hd, hrest⟩ := hscanned.taken s a h
          exact ⟨hs, Process.hasDeliverable_of_consume hd, hrest⟩

variable {acts : ℕ → Option SigAction}

namespace Machine

variable {M : Type}

/-- Nothing of the task's signal state was lost: the signals that were pending still are, except
what the task ignores, and the masks, the lists of the running handlers and the registers are as
they were. -/
structure SignalsKept (m m' : Machine M) : Prop where
  pending : ∀ s ∈ allSignals, m.kernel.proc.pends s = true →
    (m.kernel.proc.hasDeliverable s = true →
      discarded (m.kernel.actsOf m.kernel.proc) s = false) → m'.kernel.proc.pends s = true
  sigmask : m'.kernel.proc.sigmask = m.kernel.proc.sigmask
  signalSavedMask : m'.kernel.proc.signalSavedMask = m.kernel.proc.signalSavedMask
  signalSaved : m'.ctx.signalSaved = m.ctx.signalSaved
  altstackDepth : m'.ctx.altstackDepth = m.ctx.altstackDepth
  altstackFrames : m'.ctx.altstackFrames = m.ctx.altstackFrames
  cpu : m.ctx.cpu.Same m'.ctx.cpu

variable [UserMem M] {a : SigAction} {sig : ℕ}

lemma runHandler_fst (m : Machine M) (ha : acts sig = some a) :
    (m.runHandler sig a).1 = (frameWrites m.ctx acts m.kernel.mmu sig).2 := by
  obtain ⟨hdone, -⟩ := Prod.ext_iff.mp ((m.saveState sig a).writeFrame_kernel ha)
  have hframe : (frameWrites (m.saveState sig a).ctx acts m.kernel.mmu sig).2
      = (frameWrites m.ctx acts m.kernel.mmu sig).2 := rfl
  rw [← hframe, runHandler]
  refine Eq.trans ?_ hdone
  dsimp only
  split_ifs with hok
  · exact hok.symm
  · exact (Bool.eq_false_iff.mpr hok).symm

/-- A handler that could not be entered leaves the signals that are still pending. -/
lemma runHandler_pends {m : Machine M} (h : (m.runHandler sig a).1 = false) (s : ℕ) :
    (m.runHandler sig a).2.kernel.proc.pends s = m.kernel.proc.pends s := by
  have htouched := (m.saveState sig a).writeFrame_touched sig a
  rw [runHandler] at h ⊢
  dsimp only at h ⊢
  split_ifs at h ⊢ with hdone
  rw [dropState, setProc]
  dsimp only
  rw [htouched.proc]
  rfl

/-- **When a delivery that enters no handler loses nothing**: exactly if no handler is to be run,
or its frame can be written. -/
theorem deliverSignal_keeps_iff (m : Machine M) :
    (m.deliverSignal.1 = false → m.SignalsKept m.deliverSignal.2) ↔
      ∀ sig a, chosen (m.kernel.actsOf m.kernel.proc) m.kernel.proc allSignals
          = some (sig, a) →
        (frameWrites m.ctx (m.kernel.actsOf m.kernel.proc) m.kernel.mmu sig).2 = true := by
  obtain ⟨hchosen, hscanned⟩ := scanHandler_eq (m.kernel.actsOf m.kernel.proc) allSignals
    (List.Subset.refl _) (by decide) m.kernel.proc
  rw [← hchosen, deliverSignal]
  have hacts (sig : ℕ) (a : SigAction)
      (h : (scanHandler (m.kernel.actsOf m.kernel.proc) allSignals
        m.kernel.proc).1 = some (sig, a)) : m.kernel.actsOf m.kernel.proc sig = some a :=
    (scanHandler_picked _ h).2
  rcases hscan : scanHandler (m.kernel.actsOf m.kernel.proc) allSignals
    m.kernel.proc with ⟨_ | ⟨sig, a⟩, proc⟩
  · rw [hscan] at hscanned
    refine ⟨fun _ sig a h => (by cases h), fun _ _ => ?_⟩
    refine ⟨fun s hs hp hkeep => ?_, hscanned.sigmask, hscanned.signalSavedMask, rfl, rfl, rfl,
      .refl _⟩
    exact hscanned.kept s hs hp hkeep fun a h => (by cases h)
  rw [hscan] at hscanned
  have hwritten : ((m.setProc proc).runHandler sig a).1
      = (frameWrites m.ctx (m.kernel.actsOf m.kernel.proc) m.kernel.mmu sig).2 :=
    (m.setProc proc).runHandler_fst (hacts sig a (by rw [hscan]))
  obtain ⟨hsig, hdeliverable, hkeep, hgone⟩ := hscanned.taken sig a rfl
  constructor
  · rintro hkept sig' a' ⟨⟩
    by_contra hfails
    have hfalse := hwritten.trans (Bool.eq_false_iff.mpr hfails)
    -- the signal was taken from the pending set before the frame was written
    have hpends := (hkept hfalse).pending sig hsig
      (Process.pends_of_hasDeliverable hdeliverable) fun _ => hkeep
    rw [runHandler_pends hfalse] at hpends
    exact absurd (hpends.symm.trans hgone) (by decide)
  intro hframe hfalse
  rw [hwritten, hframe sig a rfl] at hfalse
  cases hfalse

/-- The root process with a handler for the signal 10 at 0x5000, and the signal pending. -/
def signalled (flags : UInt64) (writable : Bool) : Machine FlatMem :=
  let k := (Kernel.new (flatByte 0 0 writable)).load (flatByte 0 0 writable)
  let acts := fun signal : ℕ => if signal = 10 then some ⟨0x5000, flags, 0x6000, 0⟩ else none
  { kernel := { k with
      heap := { k.heap with
        sigactions := Function.update k.heap.sigactions k.proc.sigactions acts }
      proc := k.proc.raise 10 }
    ctx := { cpu := callingCpu fun r => if r = .rsp then 65536 else 0 }
    parked := [] }

/-- **A signal that is lost**: the handler's frame cannot be written, and the signal is no longer
pending. -/
theorem unwritable_stack_loses_signal :
    (signalled 0 false).kernel.proc.pends 10 = true ∧
      (signalled 0 false).deliverSignal.1 = false ∧
      (signalled 0 false).deliverSignal.2.kernel.proc.pends 10 = false := by
  decide +kernel

end Machine

/-! ### Interrupted waits -/

/-- The system calls that wait, with what they wait for. -/
inductive Blocking where
  | futex (addr : ℕ) (deadline : Option ℕ)
  | nanosleep (deadline : ℕ)
  | poll (watches : List Watch) (deadline : Option ℕ)
  | select (watches : List Watch) (deadline : Option ℕ)
  | epollWait (watches : List Watch) (deadline : Option ℕ)
  | read (watch : Watch)
  | write (watch : Watch)
  | recvfrom (watch : Watch)
  | wait4 (pid : ℤ) (untraced : Bool)
  deriving DecidableEq, Repr

namespace Blocking

/-- The deadline of the wait. -/
def deadline : Blocking → Option ℕ
  | .futex _ deadline | .poll _ deadline | .select _ deadline | .epollWait _ deadline => deadline
  | .nanosleep deadline => some deadline
  | .read _ | .write _ | .recvfrom _ | .wait4 _ _ => none

/-- The state the call parks its task in. -/
def state : Blocking → ParkState
  | .futex addr deadline => .futex addr false deadline
  | .nanosleep deadline => .waiting [] (some deadline)
  | .poll watches deadline | .select watches deadline | .epollWait watches deadline =>
    .waiting watches deadline
  | .read watch | .write watch | .recvfrom watch => .waiting [watch] none
  | .wait4 pid untraced => .waitChild pid untraced

/-- The task waits in this call; the wait on a futex may have been woken since. -/
def Waits (call : Blocking) (state : ParkState) : Prop :=
  state = call.state ∨
    ∃ addr deadline, call = .futex addr deadline ∧ state = .futex addr true deadline

end Blocking

/-- The task goes on as it should after the call made with `c`: it runs the call again with its
arguments, or is behind it with `-EINTR`, or, if the wait is over, with what the wait gives. -/
def WellResumed (c cpu : Cpu) (complete : Bool) : Prop :=
  (cpu.exception = .externalAddr (c.nextPc - SYSCALL_INSN_LEN) ∧ cpu.regs = c.regs) ∨
    c.Returns cpu (neg EINTR) ∨
    (complete = true ∧ (c.Returns cpu 0 ∨ c.Returns cpu (neg ETIMEDOUT)))

/-- The task is at the call made with `c`, or right behind it. -/
def AtCall (c cpu : Cpu) : Prop :=
  cpu.exception = .externalAddr (c.nextPc - SYSCALL_INSN_LEN) ∨
    cpu.exception = .externalAddr c.nextPc

section

variable {c cpu cpu' : Cpu} (hsame : cpu.Same cpu')

include hsame

lemma wellResumed_congr (complete : Bool) :
    WellResumed c cpu' complete ↔ WellResumed c cpu complete := by
  rw [WellResumed, WellResumed, Cpu.Returns, Cpu.Returns, Cpu.Returns, Cpu.Returns, Cpu.Returns,
    Cpu.Returns, hsame.exception, hsame.regs]

lemma atCall_congr : AtCall c cpu' ↔ AtCall c cpu := by rw [AtCall, AtCall, hsame.exception]

end

variable {call : Blocking} {state : ParkState}

lemma Blocking.Waits.timedOut_eq (h : call.Waits state) (hdeadline : call.deadline = none) (now : ℕ)
    : Machine.timedOut state now = false := by
  rcases h with rfl | ⟨addr, deadline, rfl, rfl⟩
  · cases call with
    | futex =>
      cases hdeadline
      rfl
    | _ => rfl
  · rfl

/-- No wait of these is a vfork parent's. -/
lemma Blocking.Waits.isVforkDone (h : call.Waits state) :
    state.isVforkDone = false := by
  rcases h with rfl | ⟨addr, deadline, rfl, rfl⟩
  · cases call <;> rfl
  · rfl

namespace Machine

variable {M : Type} {task : ParkedTask}

/-- **A wait without a deadline** is run again, or ended with `-EINTR`. -/
lemma wellResumed_untimed (hwaits : call.Waits task.state) (hdeadline : call.deadline = none)
    (acts : ℕ → Option SigAction) (now : ℕ) (ready : Bool) (c : Cpu) :
    WellResumed c (waitEnd acts task now ready (waitCpu c none)) ready ∧
      AtCall c (waitEnd acts task now ready (waitCpu c none)) := by
  have hafter : c.nextPc - SYSCALL_INSN_LEN + SYSCALL_INSN_LEN = c.nextPc := sub_add_cancel _ _
  rw [waitEnd, hwaits.timedOut_eq hdeadline, if_neg Bool.false_ne_true]
  split_ifs
  · have hexc : ((waitCpu c none).endWaitWith (neg EINTR)).exception = .externalAddr c.nextPc :=
      congrArg Exc.externalAddr hafter
    exact ⟨.inr (.inl ⟨hexc, rfl⟩), .inr hexc⟩
  · exact ⟨.inl ⟨rfl, rfl⟩, .inl rfl⟩

/-- **A wait with a deadline** that is over when the signal comes goes on with its value. -/
lemma wellResumed_over (acts : ℕ → Option SigAction) (task : ParkedTask) (now deadline : ℕ)
    (c : Cpu) :
    WellResumed c (waitEnd acts task now true (waitCpu c (some deadline))) true ∧
      AtCall c (waitEnd acts task now true (waitCpu c (some deadline))) := by
  rw [waitEnd]
  split_ifs with htime hends
  · exact ⟨.inr (.inr ⟨rfl, .inr ⟨rfl, rfl⟩⟩), .inr rfl⟩
  · simp at hends
  · exact ⟨.inr (.inr ⟨rfl, .inl ⟨rfl, rfl⟩⟩), .inr rfl⟩

/-- The answer about restarting is about a signal that can be delivered. -/
lemma deliverable_of_lowestRestarts {p : Process} {restarts : Bool}
    (h : lowestRestarts acts p = some restarts) : p.deliverable := by
  rw [lowestRestarts] at h
  split at h
  · cases h
  · rename_i sig hsig
    exact Process.deliverable_of_hasDeliverable (List.find?_some hsig)

/-- The three places around a call are different ones. -/
lemma call_places (n : UInt64) :
    n ≠ n - SYSCALL_INSN_LEN ∧ n + SYSCALL_INSN_LEN ≠ n ∧
      n + SYSCALL_INSN_LEN ≠ n - SYSCALL_INSN_LEN := by
  refine ⟨fun h => ?_, fun h => ?_, fun h => ?_⟩
  · exact absurd (sub_eq_self.mp h.symm) (by decide)
  · exact absurd (add_eq_left.mp h) (by decide)
  · rw [sub_eq_add_neg] at h
    exact absurd (add_left_cancel h) (by decide)

/-- **A wait with a deadline that the signal alone ends** goes on wrongly: behind the call with 0,
or, if the handler does not restart calls, two bytes further on. -/
lemma not_wellResumed_early (hwaits : call.Waits task.state) (acts : ℕ → Option SigAction) {now : ℕ}
    (hearly : timedOut task.state now = false) (deadline : ℕ) (c : Cpu) :
    ¬ WellResumed c (waitEnd acts task now false (waitCpu c (some deadline))) false ∧
      (AtCall c (waitEnd acts task now false (waitCpu c (some deadline))) ↔
        lowestRestarts acts task.proc ≠ some false) := by
  obtain ⟨hbefore, hafter, hfar⟩ := call_places c.nextPc
  rw [waitEnd, hearly, hwaits.isVforkDone, if_neg Bool.false_ne_true]
  by_cases hends : lowestRestarts acts task.proc = some false
  · rw [if_pos (by rw [hends, deliverable_of_lowestRestarts hends]; rfl)]
    constructor
    · rintro (⟨hexc, -⟩ | hreturns | ⟨hcomplete, -⟩)
      · exact hfar (Exc.externalAddr.inj hexc)
      · exact hafter (Exc.externalAddr.inj hreturns.1)
      · cases hcomplete
    refine ⟨?_, fun h => absurd hends h⟩
    rintro (hexc | hexc)
    · exact absurd (Exc.externalAddr.inj hexc) hfar
    · exact absurd (Exc.externalAddr.inj hexc) hafter
  rw [if_neg (by simp [hends])]
  constructor
  · rintro (⟨hexc, -⟩ | hreturns | ⟨hcomplete, -⟩)
    · exact hbefore (Exc.externalAddr.inj hexc)
    · exact absurd (show (0 : UInt64) = neg EINTR from hreturns.2) (by decide)
    · cases hcomplete
  · exact ⟨fun _ => hends, fun _ => .inr rfl⟩

/-- The wait of this task is over when `schedule_next` looks at it. -/
def ready (m : Machine M) (task : ParkedTask) : Bool := m.pick.1.any (m.waitOver task)

lemma ready_of_timedOut {m : Machine M} {index : ℕ} (h : timedOut task.state m.kernel.now)
    : m.waitOver task index := by
  unfold timedOut at h
  split at h
  · rename_i hstate
    rw [waitOver, Scheduler.waitIsSatisfied, hstate]
    exact h
  · cases h

/-- **Where an interrupted wait goes on.**  A task that waits in `call`, made with `c`, is resumed
with a signal and its handler is entered; the handler returns.  The task then goes on as it should
exactly if the wait has no deadline or was over already; and it is at the call or right behind it
also when the handler restarts calls. -/
theorem interrupted_resume_iff [UserMem M] {m m' m'' : Machine M} {call : Blocking}
    {task : ParkedTask} {ctx : Context} {c snapshot : Cpu} (hwaits : call.Waits task.state)
    (hctx : ctx.cpu = waitCpu c call.deadline) (hresumes : m.Resumes task ctx m')
    (hentered : m'.ctx.signalSaved = ctx.signalSaved ++ [snapshot])
    (hreturning : m''.ctx.signalSaved = m'.ctx.signalSaved)
    (hmask : m''.kernel.proc.signalSavedMask ≠ []) :
    (WellResumed c (m''.rtSigreturn.interrupted ctx.signalSaved.length) (m.ready task) ↔
        call.deadline = none ∨ m.ready task = true) ∧
      (AtCall c (m''.rtSigreturn.interrupted ctx.signalSaved.length) ↔
        call.deadline = none ∨ m.ready task = true ∨
          lowestRestarts (m.pick.2.actsOf task.proc) task.proc ≠ some false) := by
  obtain ⟨index, hindex, hsame, -⟩ := hresumes.interrupted
  rw [interrupted_eq_saved hentered, hctx] at hsame
  have hgo := hsame.trans (m''.rtSigreturn_interrupted (hreturning.trans hentered) hmask)
  have hready : m.ready task = m.waitOver task index := by
    rw [ready, hindex, Option.any_some]
  -- the handler saved what the end of the wait left, and its return brings it back
  rw [wellResumed_congr hgo, atCall_congr hgo, ← hready]
  cases hdeadline : call.deadline with
  | none =>
    obtain ⟨hwell, hat⟩ := wellResumed_untimed hwaits hdeadline (m.pick.2.actsOf task.proc)
      m.kernel.now (m.ready task) c
    exact ⟨iff_of_true hwell (.inl rfl), iff_of_true hat (.inl rfl)⟩
  | some deadline =>
    cases hover : m.ready task with
    | true =>
      obtain ⟨hwell, hat⟩ := wellResumed_over (m.pick.2.actsOf task.proc) task m.kernel.now
        deadline c
      exact ⟨iff_of_true hwell (.inr rfl), iff_of_true hat (.inr (.inl rfl))⟩
    | false =>
      -- a wait that is not over has not timed out either
      have hearly : timedOut task.state m.kernel.now = false := by
        by_contra htime
        rw [hready, ready_of_timedOut (Bool.eq_true_of_not_eq_false htime)] at hover
        cases hover
      obtain ⟨hwell, hat⟩ := not_wellResumed_early hwaits (m.pick.2.actsOf task.proc) hearly
        deadline c
      exact ⟨iff_of_false hwell (by simp), hat.trans (by simp)⟩

/-- The root, with a signal pending, parked in a call. -/
def parkedIn (call : Blocking) (flags : UInt64) : Machine FlatMem :=
  ((signalled flags true).setCpu (waitCpu (signalled flags true).ctx.cpu call.deadline)).parkCurrent
    call.state

/-- A wait without a deadline that a signal ends. -/
theorem interrupted_resume_untimed :
    WellResumed (signalled 0 true).ctx.cpu
      ((parkedIn (.futex 4096 none) 0).scheduleNext.2.rtSigreturn.interrupted 0)
      ((parkedIn (.futex 4096 none) 0).ready
        ⟨(signalled 0 true).kernel.proc, .futex 4096 false none⟩) := by
  have hresumes : (parkedIn (.futex 4096 none) 0).Resumes
      ⟨(signalled 0 true).kernel.proc, .futex 4096 false none⟩
      { cpu := waitCpu (signalled 0 true).ctx.cpu none }
      (parkedIn (.futex 4096 none) 0).scheduleNext.2 :=
    ⟨⟨0, by decide +kernel, by decide +kernel, rfl⟩, Prod.ext (by decide +kernel) rfl⟩
  obtain ⟨snapshot, hsnapshot⟩ :
      ∃ snapshot, (parkedIn (.futex 4096 none) 0).scheduleNext.2.ctx.signalSaved = [snapshot] :=
    List.length_eq_one_iff.mp (by decide +kernel)
  have hwaits : (Blocking.futex 4096 none).Waits (.futex 4096 false none) := .inl rfl
  exact (interrupted_resume_iff (c := (signalled 0 true).ctx.cpu) hwaits rfl hresumes hsnapshot rfl
    (by decide +kernel)).1.mpr (.inl rfl)

/-- **A wait that goes on elsewhere**: a signal without `SA_RESTART` ends a wait with a deadline,
and after its handler the task goes on two bytes behind the instruction it should go on at. -/
theorem interrupted_wait_skips :
    (parkedIn (.futex 4096 (some 200)) 0).scheduleNext.2.ctx.cpu.pc = 0x5000 ∧
      (parkedIn (.futex 4096 (some 200)) 0).scheduleNext.2.rtSigreturn.ctx.cpu.exception
        = .externalAddr 4100 ∧
      (signalled 0 true).ctx.cpu.nextPc = 4098 := by
  decide +kernel

end Machine

end WebTos.Proc
