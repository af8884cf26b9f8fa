import WebTos.Proc.Sigchld

/-!
SIGKILL and SIGSTOP in the masks (`sys_rt_sigprocmask`, `sys_rt_sigaction`,
`sys_rt_sigreturn`, `deliver_signal`).

The kernel writes masks as the guest passes them: a task blocks SIGKILL or SIGSTOP as soon as a
mask of `rt_sigprocmask` or the `sa_mask` of a handler that runs holds one of the two bits.

* `forcedBits`, `Process.Exposed`: the two bits, and a task that blocks neither, now and after
  any of its handlers returns;
* `SigEvent`, `Kernel.sigStep`: the events of a run, with the calls that write masks and
  dispositions told apart;
* `Machine.rtSigreturn_kernel`: the return from a handler with its registers is the one here;
* `Kernel.scanSignals_eq`: what a kernel entry does about the pending signals;
* `Kernel.forced_signals_act`: if the guest passes neither bit, no task ever blocks the two
  signals, and a pending one acts at the next kernel entry, exactly if the lowest signal that is
  deliverable there and not ignored has no handler.
-/

namespace WebTos.Proc

open Fd Lib Function Proc.Kernel

/-! ### The two bits -/

/-- The bits of SIGKILL and SIGSTOP. -/
def forcedBits : UInt64 := signalBit SIGKILL ||| signalBit SIGSTOP

lemma or_and_forced (a b : UInt64) :
    (a ||| b) &&& forcedBits = (a &&& forcedBits) ||| (b &&& forcedBits) := by
  apply UInt64.toBitVec_inj.mp
  simp only [UInt64.toBitVec_and, UInt64.toBitVec_or]
  ext i hi
  simp only [BitVec.getElem_and, BitVec.getElem_or]
  exact Bool.and_or_distrib_right _ _ _

lemma or_forced {a b : UInt64} (ha : a &&& forcedBits = 0) (hb : b &&& forcedBits = 0) :
    (a ||| b) &&& forcedBits = 0 := by
  rw [or_and_forced, ha, hb, UInt64.or_zero]

lemma and_forced {a : UInt64} (b : UInt64) (ha : a &&& forcedBits = 0) :
    a &&& b &&& forcedBits = 0 := by
  rw [UInt64.and_comm a b, UInt64.and_assoc, ha, UInt64.and_zero]

variable {sig : ℕ}

/-- The task blocks neither of the two, now and after any of its handlers returns. -/
structure Process.Exposed (p : Process) : Prop where
  mask : p.sigmask &&& forcedBits = 0
  saved : ∀ mask ∈ p.signalSavedMask, mask &&& forcedBits = 0

/-- The two signals. -/
def forcedSignals : List ℕ := [SIGKILL, SIGSTOP]

variable {p : Process}

lemma Process.Exposed.blocks (h : p.Exposed) (hsig : sig ∈ forcedSignals) :
    p.blocks sig = false := by
  have hbit : ∀ s ∈ forcedSignals, forcedBits &&& signalBit s = signalBit s := by decide +kernel
  rw [Process.blocks, bne_eq_false_iff_eq, ← hbit sig hsig, ← UInt64.and_assoc, h.mask,
    UInt64.zero_and]

lemma Process.hasDeliverable_of_pends (hpends : p.pends sig) (hfree : p.blocks sig = false)
    : p.hasDeliverable sig := by
  rw [Process.blocks, bne_eq_false_iff_eq] at hfree
  have hsame : p.pendingSignals &&& signalBit sig &&& ~~~p.sigmask
      = p.pendingSignals &&& signalBit sig := by
    apply UInt64.toBitVec_inj.mp
    have hbits := congrArg UInt64.toBitVec hfree
    simp only [UInt64.toBitVec_and, UInt64.toBitVec_not] at hbits ⊢
    ext i hi
    have hbit := congrArg (fun b : BitVec 64 => b[i]) hbits
    simp only [BitVec.getElem_and, BitVec.getElem_not] at hbit ⊢
    revert hbit
    cases p.sigmask.toBitVec[i] <;> cases (signalBit sig).toBitVec[i] <;>
      cases p.pendingSignals.toBitVec[i] <;> simp
  rw [Process.hasDeliverable_eq, hsame]
  exact hpends

/-- The two signals have no disposition, and no disposition blocks them. -/
structure ActsExposed (acts : ℕ → Option SigAction) : Prop where
  masks : ∀ s a, acts s = some a → a.mask &&& forcedBits = 0
  kill : acts SIGKILL = none
  stop : acts SIGSTOP = none

variable {acts : ℕ → Option SigAction}

lemma ActsExposed.install (h : ActsExposed acts) {signal : ℕ} {action : SigAction}
    (hkill : signal ≠ SIGKILL) (hstop : signal ≠ SIGSTOP) (hmask : action.mask &&& forcedBits = 0) :
    ActsExposed (update acts signal (some action)) where
  masks s a ha := by
    rw [update_apply] at ha
    split at ha
    · cases ha
      exact hmask
    · exact h.masks s a ha
  kill := by
    rw [update_of_ne hkill.symm]
    exact h.kill
  stop := by
    rw [update_of_ne hstop.symm]
    exact h.stop

namespace Kernel

variable {M : Type}

lemma maskDuring_forced {mask : UInt64} {a : SigAction} (hmask : mask &&& forcedBits = 0)
    (hacts : ActsExposed acts) (hsig : sig ∈ allSignals) (ha : acts sig = some a)
    : maskDuring mask sig a &&& forcedBits = 0 := by
  have hall : ∀ s ∈ allSignals, s ≠ SIGKILL → s ≠ SIGSTOP →
      signalBit s &&& forcedBits = 0 := by decide +kernel
  have hbit : signalBit sig &&& forcedBits = 0 := by
    refine hall sig hsig ?_ ?_
    · rintro rfl
      cases hacts.kill.symm.trans ha
    · rintro rfl
      cases hacts.stop.symm.trans ha
  rw [maskDuring]
  refine or_forced ?_ (hacts.masks sig a ha)
  split
  · exact or_forced hmask hbit
  · exact hmask

/-! ### The calls that write masks -/

/-- The mask `sys_rt_sigprocmask` sets; none for an operation it does not know. -/
def newMask (mask : UInt64) (how : ℕ) (set : UInt64) : Option UInt64 :=
  match how with
  | 0 => some (mask ||| set)
  | 1 => some (mask &&& ~~~set)
  | 2 => some set
  | _ => none

/-- The dispositions after `sys_rt_sigaction`: those of SIGKILL and SIGSTOP cannot be changed. -/
def sigaction (k : Kernel M) (signal : ℕ) (action : SigAction) (h : Heap) : Heap :=
  if signal = SIGKILL ∨ signal = SIGSTOP then h
  else
    let acts := update (h.sigactions k.proc.sigactions) signal (some action)
    { h with sigactions := update h.sigactions k.proc.sigactions acts }

/-- What `sys_rt_sigreturn` makes of the masks; `saved` says that an interrupted state is
kept. -/
def sysRtSigreturn [GuestMem M] (k : Kernel M) (saved : Bool) : Kernel M :=
  let popped := { k.proc with signalSavedMask := k.proc.signalSavedMask.dropLast }
  match saved, k.proc.signalSavedMask.getLast? with
  | true, some mask =>
    let k := { k with proc := { popped with sigmask := mask } }
    if k.proc.deliverable then k.deliverSignal else k
  | _, _ => { k with proc := popped }

/-- What a call makes of tasks leaves their masks alone. -/
def KeepsMasks (task : Process → Process) (tasks : ParkedTask → Process → Process) : Prop :=
  (∀ p : Process, (task p).sigmask = p.sigmask ∧ (task p).signalSavedMask = p.signalSavedMask) ∧
    ∀ (t : ParkedTask) (p : Process), (tasks t p).sigmask = p.sigmask ∧
      (tasks t p).signalSavedMask = p.signalSavedMask

/-- An event that is none of the calls below; the calls that `Call.other` stands for change
neither masks nor dispositions. -/
structure Plain (e : Event M) : Prop where
  unmasked : ∀ mask, e ≠ .syscall (.sigprocmask mask)
  keeps : ∀ memory objects task tasks, e = .syscall (.other memory objects task tasks) →
    KeepsMasks task tasks ∧ ∀ h : Heap, (objects h).sigactions = h.sigactions

end Kernel

/-- An event of a run, with the calls that write masks and dispositions told apart: the set
`rt_sigprocmask` reads, the action `rt_sigaction` reads. -/
inductive SigEvent (M : Type) where
  | load (image : M)
  | plain (e : Event M) (plain : Kernel.Plain e)
  | sigprocmask (how : ℕ) (set : UInt64)
  | sigaction (signal : ℕ) (action : SigAction)
  | sigreturn (saved : Bool)

/-- The guest passes neither of the two bits. -/
def SigEvent.Spares {M : Type} : SigEvent M → Prop
  | .load _ => True
  | .plain _ _ => True
  | .sigprocmask how set => how = 0 ∨ how = 2 → set &&& forcedBits = 0
  | .sigaction signal action =>
    signal ≠ SIGKILL → signal ≠ SIGSTOP → action.mask &&& forcedBits = 0
  | .sigreturn _ => True

namespace Kernel

variable {M : Type} [GuestMem M]

/-- A call that changes nothing but the dispositions, or nothing. -/
def quietCall (objects : Heap → Heap) : Event M := .syscall (.other id objects id fun _ => id)

/-- The kernel after an event. -/
def sigStep (k : Kernel M) : SigEvent M → Kernel M
  | .load image => k.load image
  | .plain e _ => k.step e
  | .sigprocmask how set =>
    match newMask k.proc.sigmask how set with
    | some mask => k.step (.syscall (.sigprocmask mask))
    | none => k.step (quietCall id)
  | .sigaction signal action => k.step (quietCall (k.sigaction signal action))
  | .sigreturn saved =>
    if !k.onCpu then k
    else
      match k.pendingSignalAction with
      | (.terminate sig, k) => (k.taskExit sig true).2
      | (.stop sig, k) => (k.stopThreadGroup sig).2
      | (_, k) => k.sysRtSigreturn saved

/-- Nobody blocks the two signals, now or later, unless a mask is passed that does. -/
structure Exposed (k : Kernel M) : Prop where
  tasks : ∀ p ∈ k.liveTasks, p.Exposed
  acts : ∀ cell, ActsExposed (k.heap.sigactions cell)

lemma noActs_exposed : ActsExposed fun _ => none where
  masks _ _ h := by cases h
  kill := rfl
  stop := rfl

variable {k : Kernel M} {e : Event M} {p : Process}

omit [GuestMem M] in
lemma Exposed.load (h : k.Exposed) (image : M) : (k.load image).Exposed where
  tasks p hp := by
    rw [List.mem_singleton.mp hp]
    exact ⟨UInt64.zero_and, fun _ hm => absurd hm List.not_mem_nil⟩
  acts cell := by
    have hheap : (k.load image).heap.sigactions
        = update k.heap.sigactions k.heap.next fun _ => none := sigactions_sweep _ _
    rw [hheap, update_apply]
    split
    · exact noActs_exposed
    · exact h.acts cell

variable {k₀ : Kernel M} {d : Prop}

/-- Dispositions that are all there before are exposed. -/
lemma Reaches.actsExposed (h : Reaches d k₀ e k)
    (hacts : ∀ cell, ActsExposed (k₀.heap.sigactions cell)) (cell : ℕ) :
    ActsExposed (k.heap.sigactions cell) where
  masks s a ha := by
    obtain ⟨cell', ha'⟩ := h.acts cell s a ha
    exact (hacts cell').masks s a ha'
  kill := by
    refine Option.eq_none_iff_forall_ne_some.mpr fun a ha => ?_
    obtain ⟨cell', ha'⟩ := h.acts cell _ a ha
    cases (hacts cell').kill.symm.trans ha'
  stop := by
    refine Option.eq_none_iff_forall_ne_some.mpr fun a ha => ?_
    obtain ⟨cell', ha'⟩ := h.acts cell _ a ha
    cases (hacts cell').stop.symm.trans ha'

variable {objects : Heap → Heap}

omit [GuestMem M] in
/-- A change of a task blocks neither signal, if no mask it takes over does. -/
lemma exposed_move (hacts : ∀ cell, ActsExposed (k.heap.sigactions cell))
    (hmask : ∀ mask, e = .syscall (.sigprocmask mask) → mask &&& forcedBits = 0)
    (hother : ∀ memory objects task tasks, e = .syscall (.other memory objects task tasks) →
      KeepsMasks task tasks) {p' : Process} (hmove : TaskMove k e p p') (h : p.Exposed) :
    p'.Exposed := by
  cases hmove with
  | pending | cells | stop | cont | report => exact ⟨h.mask, h.saved⟩
  | handler hsig installed =>
    refine ⟨maskDuring_forced h.mask (hacts _) hsig installed, fun mask hmask => ?_⟩
    rcases List.mem_append.mp hmask with hmask | hmask
    · exact h.saved mask hmask
    · rw [List.mem_singleton.mp hmask]
      exact h.mask
  | mask mask called => exact ⟨hmask mask called, h.saved⟩
  -- a new task has no handler to return from
  | thread | fork => exact ⟨h.mask, fun mask hmask => absurd hmask List.not_mem_nil⟩
  | other called =>
    obtain ⟨htask, -⟩ := hother _ _ _ _ called
    constructor
    · exact (congrArg (· &&& forcedBits) (htask p).1).trans h.mask
    · intro mask hmask
      exact h.saved mask ((htask p).2 ▸ hmask)
  | others t called =>
    obtain ⟨-, htasks⟩ := hother _ _ _ _ called
    constructor
    · exact (congrArg (· &&& forcedBits) (htasks t p).1).trans h.mask
    · intro mask hmask
      exact h.saved mask ((htasks t p).2 ▸ hmask)

/-- **An event keeps everyone exposed**, if it passes no mask with the two bits. -/
lemma Exposed.step (h : k.Exposed)
    (hmask : ∀ mask, e = .syscall (.sigprocmask mask) → mask &&& forcedBits = 0)
    (hother : ∀ memory objects task tasks, e = .syscall (.other memory objects task tasks) →
      KeepsMasks task tasks ∧ ∀ cell, ActsExposed ((objects k.heap).sigactions cell)) :
    (k.step e).Exposed where
  tasks := step_forall (fun _ _ hmove hp => exposed_move h.acts hmask
    (fun memory objects task tasks he => (hother memory objects task tasks he).1) hmove hp) h.tasks
  acts := by
    by_cases hcase : ∃ memory objects task tasks, e = .syscall (.other memory objects task tasks)
    · obtain ⟨memory, objects, task, tasks, rfl⟩ := hcase
      intro cell
      rcases k.syscall_cases (.other memory objects task tasks) with hstep | ⟨-, -, heq⟩
      · exact hstep.actsExposed h.acts cell
      · rw [heq]
        exact (hother memory objects task tasks rfl).2 cell
    · exact (k.step_reaches e fun memory objects task tasks he =>
        hcase ⟨memory, objects, task, tasks, he⟩).actsExposed h.acts

/-- A call that changes at most dispositions. -/
lemma Exposed.quietCall (h : k.Exposed)
    (hobjects : ∀ cell, ActsExposed ((objects k.heap).sigactions cell)) :
    (k.step (quietCall objects)).Exposed := by
  refine h.step (fun mask he => by cases he) fun memory objects task tasks he => ?_
  cases he
  exact ⟨⟨fun _ => ⟨rfl, rfl⟩, fun _ _ => ⟨rfl, rfl⟩⟩, hobjects⟩

omit [GuestMem M] in
/-- The running task changes its masks to exposed ones. -/
lemma Exposed.setProc (h : k.Exposed) (hp : p.Exposed) :
    Exposed { k with proc := p } where
  tasks q hq := by
    rcases mem_liveTasks.mp hq with ⟨-, rfl⟩ | ⟨t, ht, rfl⟩
    · exact hp
    · exact h.tasks _ (mem_liveTasks.mpr (.inr ⟨t, ht, rfl⟩))
  acts := h.acts

/-- What is reached from an exposed state within an event that sets no mask is exposed. -/
lemma Exposed.reaches (h : k₀.Exposed) (hreaches : Reaches d k₀ .resume k) :
    k.Exposed where
  tasks p' hp' := by
    obtain ⟨p, hp, hmoves⟩ := hreaches.tasks p' hp'
    clear hp'
    induction hmoves with
    | refl => exact h.tasks p hp
    | tail _ hmove ih =>
      exact exposed_move h.acts (fun mask he => by cases he)
        (fun memory objects task tasks he => by cases he) hmove ih
  acts := hreaches.actsExposed h.acts

lemma Exposed.sysRtSigreturn (h : k.Exposed) (hcpu : k.onCpu) (saved : Bool) :
    (k.sysRtSigreturn saved).Exposed := by
  have hproc := h.tasks k.proc (mem_liveTasks.mpr (.inl ⟨hcpu, rfl⟩))
  have hsaved : ∀ mask ∈ k.proc.signalSavedMask.dropLast, mask &&& forcedBits = 0 :=
    fun mask hmask => hproc.saved mask (List.mem_of_mem_dropLast hmask)
  unfold Kernel.sysRtSigreturn
  split
  · rename_i mask hlast
    have hrestored : Exposed { k with proc := { k.proc with
        signalSavedMask := k.proc.signalSavedMask.dropLast, sigmask := mask } } :=
      h.setProc ⟨hproc.saved mask (List.mem_of_getLast? hlast), hsaved⟩
    dsimp only
    split
    · exact hrestored.reaches (.deliverSignal (d := False) .refl hcpu)
    · exact hrestored
  · exact h.setProc ⟨hproc.mask, hsaved⟩

omit [GuestMem M] in
lemma newMask_forced {mask set mask' : UInt64} {how : ℕ} (hmask : mask &&& forcedBits = 0)
    (hset : how = 0 ∨ how = 2 → set &&& forcedBits = 0) (hnew : newMask mask how set = some mask') :
    mask' &&& forcedBits = 0 := by
  match how, hset, hnew with
  | 0, hset, hnew =>
    cases hnew
    exact or_forced hmask (hset (.inl rfl))
  | 1, _, hnew =>
    cases hnew
    exact and_forced _ hmask
  | 2, hset, hnew =>
    cases hnew
    exact hset (.inr rfl)

/-- **Every event of a run keeps everyone exposed**, if the guest passes neither of the bits. -/
lemma Exposed.sigStep (h : k.Exposed) {e : SigEvent M} (hspares : e.Spares) :
    (k.sigStep e).Exposed := by
  cases e with
  | load image => exact h.load image
  | plain e plain =>
    refine h.step (fun mask he => absurd he (plain.unmasked mask))
      fun memory objects task tasks he => ?_
    obtain ⟨hmasks, hacts⟩ := plain.keeps memory objects task tasks he
    exact ⟨hmasks, fun cell => hacts k.heap ▸ h.acts cell⟩
  | sigprocmask how set =>
    rw [Kernel.sigStep]
    split
    · rename_i mask hnew
      cases hcpu : k.onCpu with
      | false =>
        rw [Kernel.step, if_neg (by simp [hcpu])]
        exact h
      | true =>
        have hproc := h.tasks k.proc (mem_liveTasks.mpr (.inl ⟨hcpu, rfl⟩))
        refine h.step (fun mask' he => ?_) fun memory objects task tasks he => by cases he
        cases he
        exact newMask_forced hproc.mask hspares hnew
    · exact h.quietCall h.acts
  | sigaction signal action =>
    refine h.quietCall fun cell => ?_
    rw [sigaction]
    split
    · exact h.acts cell
    rename_i hsignal
    rw [not_or] at hsignal
    dsimp only
    rw [update_apply]
    split
    · exact (h.acts _).install hsignal.1 hsignal.2 (hspares hsignal.1 hsignal.2)
    · exact h.acts cell
  | sigreturn saved =>
    rw [Kernel.sigStep]
    cases hcpu : k.onCpu with
    | false => exact h
    | true =>
      -- a signal that acts at the entry does so whatever the call is
      have hentry : (k.step (Kernel.quietCall id)).Exposed := h.quietCall h.acts
      have hacted : k.pendingSignalAction.2.Exposed :=
        h.reaches (.stay (d := False) .refl (.pendingSignalAction k .resume k))
      have hrun := (congrArg Core.onCpu k.core_pendingSignalAction).trans hcpu
      rw [Kernel.quietCall, Kernel.step, if_pos hcpu, handle] at hentry
      generalize k.pendingSignalAction = acted at *
      obtain ⟨action, k'⟩ := acted
      cases action with
      | terminate | stop => exact hentry
      | handler | none => exact hacted.sysRtSigreturn hrun saved

/-! ### Kernel entries -/

/-- What the first signal that is deliverable and not thrown away does. -/
def actionOf (acts : ℕ → Option SigAction) : Option ℕ → SignalExitAction
  | none => .none
  | some s =>
    if (userHandler acts s).isSome then .handler
    else if defaultActionTerminates s then .terminate s
    else .stop s

section

omit [GuestMem M]

lemma scanSignals_cons (acts : ℕ → Option SigAction) (sig : ℕ) (sigs : List ℕ) (p : Process) :
    (scanSignals acts (sig :: sigs) p).1
      = if p.hasDeliverable sig = false then (scanSignals acts sigs p).1
        else if discarded acts sig = true then (scanSignals acts sigs (p.consume sig)).1
        else actionOf acts (some sig) := by
  have hdfl : SIG_DFL ≠ SIG_IGN := by decide
  rw [scanSignals, discarded, handlerFor, actionOf, userHandler]
  cases p.hasDeliverable sig with
  | false => rfl
  | true =>
    cases defaultActionTerminates sig <;> cases defaultActionStops sig <;> cases acts sig with
    | none => simp [hdfl]
    | some a =>
      by_cases hd : a.handler = SIG_DFL
      · simp [Option.filter, hd, hdfl]
      · by_cases hi : a.handler = SIG_IGN <;> simp [Option.filter, hd, hi]

/-- **The scan of a kernel entry** acts on the first signal that is deliverable and not thrown
away. -/
lemma scanSignals_eq (acts : ℕ → Option SigAction) (sigs : List ℕ) (hsub : sigs ⊆ allSignals)
    (hnodup : sigs.Nodup) (p : Process) :
    (scanSignals acts sigs p).1
      = actionOf acts (sigs.find? fun s => p.hasDeliverable s && !discarded acts s) := by
  induction sigs generalizing p with
  | nil => rfl
  | cons sig sigs ih =>
    have hsig : sig ∈ allSignals := hsub List.mem_cons_self
    have hrest : sigs ⊆ allSignals := fun s hs => hsub (List.mem_cons_of_mem _ hs)
    obtain ⟨hnotin, hnodup⟩ := List.nodup_cons.mp hnodup
    rw [scanSignals_cons, List.find?_cons]
    cases p.hasDeliverable sig with
    | false => exact ih hrest hnodup p
    | true =>
      cases discarded acts sig with
      | false => rfl
      | true =>
        rw [if_neg (by decide), if_pos rfl, ih hrest hnodup, find?_consume acts p hsig hrest hnotin]
        rfl

/-- One of the two signals, pending and not blocked, acts at a kernel entry exactly if no handler
is to run there first. -/
lemma acts_iff (hacts : ActsExposed acts) (hsig : sig ∈ forcedSignals)
    (hdeliverable : p.hasDeliverable sig) :
    (∃ s, (scanSignals acts allSignals p).1 = .terminate s ∨
      (scanSignals acts allSignals p).1 = .stop s) ↔ chosen acts p allSignals = none := by
  have hnone : acts sig = none := by
    rcases List.mem_cons.mp hsig with rfl | hsig
    · exact hacts.kill
    · rw [List.mem_singleton.mp hsig]
      exact hacts.stop
  have hall : ∀ s ∈ forcedSignals, s ∈ allSignals ∧
      (defaultActionTerminates s || defaultActionStops s) := by decide +kernel
  have hkept : discarded acts sig = false := by
    rw [discarded, handlerFor, hnone, (hall sig hsig).2]
    rfl
  -- so the scan ends at the signal or before it
  obtain ⟨s, hfind⟩ : ∃ s, (allSignals.find? fun s => p.hasDeliverable s && !discarded acts s)
      = some s := by
    refine Option.isSome_iff_exists.mp (List.find?_isSome.mpr ⟨sig, (hall sig hsig).1, ?_⟩)
    rw [hdeliverable, hkept]
    rfl
  rw [scanSignals_eq acts allSignals (List.Subset.refl _) (by decide +kernel) p, chosen, hfind,
    actionOf]
  cases huser : userHandler acts s with
  | none =>
    refine iff_of_true ⟨s, ?_⟩ (by simp [huser])
    cases defaultActionTerminates s
    · exact .inr rfl
    · exact .inl rfl
  | some a =>
    refine iff_of_false ?_ (by simp [huser])
    rintro ⟨t, h | h⟩ <;> cases h

end

/-- **SIGKILL and SIGSTOP cannot be blocked**, in a run in which the guest passes neither of
their bits to `rt_sigprocmask` and `rt_sigaction`: no task blocks them in any state, and one
that is pending acts at the next kernel entry, exactly if the lowest signal that is deliverable
there and not ignored has no handler. -/
theorem forced_signals_act (memory : M) (es : List (SigEvent M))
    (hspares : Guarded sigStep (fun _ e => e.Spares) (new memory) es) :
    let now := run sigStep (new memory) es
    (∀ p ∈ now.liveTasks, ∀ sig ∈ forcedSignals, p.blocks sig = false) ∧
      (now.onCpu = true → ∀ sig ∈ forcedSignals, now.proc.pends sig = true →
        ((∃ s, now.pendingSignalAction.1 = .terminate s ∨ now.pendingSignalAction.1 = .stop s) ↔
          chosen (now.actsOf now.proc) now.proc allSignals = none)) := by
  intro now
  have hnow : now.Exposed := Guarded.invariant
    (fun (k : Kernel M) (e : SigEvent M) (h : k.Exposed) hspares => h.sigStep hspares)
    ⟨fun _ hp => absurd hp List.not_mem_nil, fun _ => noActs_exposed⟩ hspares
  refine ⟨fun p hp sig hsig => (hnow.tasks p hp).blocks hsig, fun hcpu sig hsig hpends => ?_⟩
  have hfree := (hnow.tasks now.proc (mem_liveTasks.mpr (.inl ⟨hcpu, rfl⟩))).blocks hsig
  exact acts_iff (hnow.acts _) hsig (Process.hasDeliverable_of_pends hpends hfree)

/-- The root blocks the signal 10 and sends SIGSTOP to its process group. -/
def stopsItsGroup : List (SigEvent Unit) :=
  [.load (), .sigprocmask 0 (signalBit 10),
    .plain (.syscall (.kill 0 SIGSTOP)) ⟨by rintro _ ⟨⟩, by rintro _ _ _ _ ⟨⟩⟩]

/-- SIGSTOP is pending on the root and acts at its next kernel entry. -/
theorem stopsItsGroup_acts :
    let now := run sigStep (new ()) stopsItsGroup
    now.proc.pends SIGSTOP = true ∧
      ∃ s, now.pendingSignalAction.1 = .terminate s ∨ now.pendingSignalAction.1 = .stop s := by
  have hacts := forced_signals_act () stopsItsGroup
    ⟨trivial, fun _ => by decide +kernel, trivial, trivial⟩
  have hpends : (run sigStep (new ()) stopsItsGroup).proc.pends SIGSTOP = true := by
    decide +kernel
  refine ⟨hpends, (hacts.2 (by decide +kernel) SIGSTOP (by decide) hpends).mpr ?_⟩
  decide +kernel

/-- The root sets a mask of all signals and sends SIGKILL to itself. -/
def blocksAll : List (SigEvent Unit) :=
  [.load (), .sigprocmask 2 (~~~0),
    .plain (.syscall (.kill ROOT_PID SIGKILL)) ⟨by rintro _ ⟨⟩, by rintro _ _ _ _ ⟨⟩⟩]

/-- **SIGKILL blocked**: the root runs on with SIGKILL pending, and its next kernel entry does
nothing about it. -/
theorem blocksAll_survives :
    let now := run sigStep (new ()) blocksAll
    now.onCpu = true ∧ now.proc.blocks SIGKILL = true ∧ now.proc.blocks SIGSTOP = true ∧
      now.proc.pends SIGKILL = true ∧ now.pendingSignalAction.1 = .none := by
  decide +kernel

end Kernel

namespace Machine

variable {M : Type} [UserMem M]

/-- **A return from a handler without its registers** is the one above. -/
theorem rtSigreturn_kernel (m : Machine M) :
    ∃ ctx, m.rtSigreturn.kernel
      = @sysRtSigreturn M (guestMem ctx (m.kernel.actsOf m.kernel.proc)) m.kernel
        (!m.ctx.signalSaved.isEmpty) := by
  rw [rtSigreturn]
  split
  · rename_i snapshot mask hsaved hmask
    have hfull : m.ctx.signalSaved.isEmpty = false := by
      rw [List.isEmpty_eq_false_iff]
      rintro hnil
      simp [hnil] at hsaved
    refine ⟨(m.popState.restoreState snapshot mask).ctx, ?_⟩
    unfold sysRtSigreturn
    rw [hfull, hmask]
    show (if (m.popState.restoreState snapshot mask).kernel.proc.deliverable = true then _
      else _ : Machine M).kernel = if _ then _ else _
    -- a signal that the old mask lets through is delivered at once
    by_cases hdeliverable : (m.popState.restoreState snapshot mask).kernel.proc.deliverable
    · rw [if_pos hdeliverable]
      exact (deliverSignal_kernel _).trans (if_pos hdeliverable).symm
    · rw [if_neg hdeliverable]
      exact (if_neg hdeliverable).symm
  rename_i hnone
  refine ⟨m.ctx, ?_⟩
  unfold sysRtSigreturn
  split
  · rename_i mask hsaved hmask
    cases hlast : m.ctx.signalSaved.getLast? with
    | none =>
      rw [List.getLast?_eq_none_iff.mp hlast] at hsaved
      cases hsaved
    | some snapshot => exact absurd hmask (hnone snapshot mask hlast)
  · rfl

end Machine

end WebTos.Proc
