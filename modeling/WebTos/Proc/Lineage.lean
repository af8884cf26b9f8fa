import WebTos.Proc.Core

/-!
What an event may make of a task (`syscall.rs`, `proc.rs`).

Every task that is live after an event comes from one that was live before, by changes of a
few kinds: signals become pending or are consumed, a handler is entered, the mask is set, a
job-control stop begins or ends, a stop report is collected, a thread or a child is created.

* `Kernel.stopOf`, `Kernel.continues`, `Kernel.reportOf`: the group an event stops, the tasks
  it continues, and the group whose stop it returns from `wait4`;
* `Kernel.TaskMove`: the changes an event allows;
* `Kernel.Local`: every task stays where it is, by such changes, and the scheduler is the same;
  one lemma for each function of the kernel that does no more.
-/

namespace WebTos.Proc

open Fd Relation List

namespace Kernel

variable {M : Type}

/-! ### Stops, continues and reports -/

/-- A signal a task sends to itself stops its group. -/
def selfStops (k : Kernel M) (signal : ℕ) : Bool :=
  k.proc.sigmask &&& signalBit signal == 0
    && ((k.actsOf k.proc signal).map (·.handler)).getD SIG_DFL == SIG_DFL
    && !defaultActionTerminates signal && defaultActionStops signal

/-- A system call stops the group of its caller. -/
def callStops (k : Kernel M) : Call M → Bool
  | .kill target signal =>
    decide (signal ≤ NSIG ∧ signal ≠ 0 ∧ (target = k.proc.tgid ∨ target = k.proc.pid))
      && k.selfStops signal
  | .sigprocmask mask =>
    match { k with proc := { k.proc with sigmask := mask } }.pendingSignalAction.1 with
    | .stop _ => true
    | _ => false
  | .ttyStop _ => true
  | _ => false

/-- The call made by an event is carried out, in the state after the signals that are ignored
were discarded. -/
def dispatched (k : Kernel M) : Event M → Option (Call M × Kernel M)
  | .syscall call =>
    if !k.onCpu then none
    else
      match k.pendingSignalAction with
      | (.terminate _, _) => none
      | (.stop _, _) => none
      | (_, k) => some (call, k)
  | _ => none

/-- **The thread group an event stops** by `stop_thread_group`. -/
def stopOf (k : Kernel M) (e : Event M) : Option ℕ :=
  match k.dispatched e with
  | some (call, k) => if k.callStops call then some k.proc.tgid else none
  | none =>
    match e, k.onCpu, k.pendingSignalAction.1 with
    | .syscall _, true, .stop _ => some k.proc.tgid
    | _, _, _ => none

/-- **The event is a SIGCONT that is addressed to the task**, by its process or its process
group. -/
def continues (k : Kernel M) (e : Event M) (p : Process) : Bool :=
  match k.dispatched e with
  | some (.kill target signal, k) =>
    signal == SIGCONT && !decide (target = k.proc.tgid ∨ target = k.proc.pid) && k.inJob target p
  | _ => false

/-- **The group whose stop an event returns** from `wait4` with `WUNTRACED`. -/
def reportOf [GuestMem M] (k : Kernel M) (e : Event M) : Option ℕ :=
  match k.dispatched e with
  | some (.wait4 pid statusPtr options, k) =>
    let filter := if 0 < pid then pid else -1
    match k.sched.takeZombie k.proc.tgid filter with
    | some _ => none
    | none =>
      if options &&& WUNTRACED != 0 then
        match k.sched.takeStopReport k.proc.tgid filter with
        | (some (group, sig), sched) =>
          match { k with sched := sched }.reportStatus statusPtr (sig * 256 + 0x7f)
            group false with
          | (.ret (.ok _), _) => some group
          | _ => none
        | _ => none
      else none
  | _ => none

/-! ### The changes of a task -/

/-- The event is a call that creates a task, and `p` belongs to the group on the CPU. -/
def Bears (k : Kernel M) (e : Event M) (p : Process) : Prop :=
  k.onCpu = true ∧ p.tgid = k.proc.tgid ∧ ∃ spec, e = .syscall (.clone spec)

/-- What an event from the state `k` may make of one task. -/
inductive TaskMove (k : Kernel M) (e : Event M) : Process → Process → Prop
  /-- Signals become pending, or are consumed. -/
  | pending (p : Process) (signals : UInt64) : TaskMove k e p { p with pendingSignals := signals }
  /-- Its descriptor table, its vfork parent and its tid address are let go or set. -/
  | cells (p : Process) (fds clearChildTid : ℕ) (vforkDone : Option ℕ) :
      TaskMove k e p
        { p with fds := fds, clearChildTid := clearChildTid, vforkDone := vforkDone }
  /-- The handler of a signal is entered. -/
  | handler (p : Process) {cell sig : ℕ} {a : SigAction} (hsig : sig ∈ allSignals)
      (installed : k.heap.sigactions cell sig = some a) :
      TaskMove k e p { p with
        signalSavedMask := p.signalSavedMask ++ [p.sigmask]
        sigmask := maskDuring p.sigmask sig a }
  /-- The mask is set. -/
  | mask (p : Process) (mask : UInt64) (called : e = .syscall (.sigprocmask mask)) :
      TaskMove k e p { p with sigmask := mask }
  /-- A job-control stop begins; the leader of the group holds the report. -/
  | stop (p : Process) (signal : ℕ) (stopped : k.stopOf e = some p.tgid) :
      TaskMove k e p { p with
        stopped := true
        stopReport := if p.pid = p.tgid then some signal else p.stopReport }
  /-- A job-control stop ends. -/
  | cont (p : Process) (continued : k.continues e p = true) :
      TaskMove k e p (jobSignalParked SIGCONT p)
  /-- The report of a stop is collected. -/
  | report (p : Process) : TaskMove k e p { p with stopReport := none }
  /-- A thread of the group on the CPU. -/
  | thread (p : Process) (born : k.Bears e p) : TaskMove k e p (p.threadSibling k.sched.nextPid)
  /-- A child of the process on the CPU. -/
  | fork (p : Process) (fds sigactions : ℕ) (born : k.Bears e p) :
      TaskMove k e p (p.forkChild k.sched.nextPid fds sigactions)
  /-- What another call makes of its caller. -/
  | other (p : Process) {memory : M → M} {objects : Heap → Heap} {task : Process → Process}
      {tasks : ParkedTask → Process → Process}
      (called : e = .syscall (.other memory objects task tasks)) : TaskMove k e p (p.retag task)
  /-- What another call makes of a parked task. -/
  | others (p : Process) (t : ParkedTask) {memory : M → M} {objects : Heap → Heap}
      {task : Process → Process} {tasks : ParkedTask → Process → Process}
      (called : e = .syscall (.other memory objects task tasks)) :
      TaskMove k e p (p.retag (tasks t))

/-- The changes an event allows, one after the other. -/
abbrev TaskMoves (k : Kernel M) (e : Event M) : Process → Process → Prop :=
  ReflTransGen (TaskMove k e)

/-- Every task of the second list is the one of the first, by the changes an event allows. -/
abbrev Tasks (k₀ : Kernel M) (e : Event M) : List ParkedTask → List ParkedTask → Prop :=
  Forall₂ fun t t' => t'.ident = t.ident ∧ TaskMoves k₀ e t.proc t'.proc

/-- Every task comes from one in its place by changes that the event `e` allows from the state
`k₀`, the one on the CPU neither stops nor goes on, no disposition is new, and the clock does not
go back. -/
structure Within (k₀ : Kernel M) (e : Event M) (k k' : Kernel M) : Prop where
  proc : TaskMoves k₀ e k.proc k'.proc
  parked : ∀ t' ∈ k'.sched.parked, ∃ t ∈ k.sched.parked, TaskMoves k₀ e t.proc t'.proc
  acts : ∀ cell s a, k'.heap.sigactions cell s = some a →
    ∃ cell', k.heap.sigactions cell' s = some a
  now : k.now ≤ k'.now
  stopped : k'.proc.stopped = k.proc.stopped

/-- The same, and the scheduler stays as it is. -/
structure Local (k₀ : Kernel M) (e : Event M) (k k' : Kernel M) : Prop
    extends Within k₀ e k k' where
  core : k'.core = k.core

/-! ### Lists of tasks -/

namespace Tasks

variable {k₀ : Kernel M} {e : Event M} {ts ts' : List ParkedTask}

lemma refl (ts : List ParkedTask) : Tasks k₀ e ts ts :=
  forall₂_same.mpr fun _ _ => ⟨rfl, .refl⟩

/-- The queue keeps its order and who stands in it. -/
lemma idents (h : Tasks k₀ e ts ts') : ts'.map ParkedTask.ident = ts.map ParkedTask.ident := by
  induction h with
  | nil => rfl
  | cons hhead _ ih => rw [map_cons, map_cons, hhead.1, ih]

/-- Every task of the new queue comes from one of the old. -/
lemma mem (h : Tasks k₀ e ts ts') {t' : ParkedTask} (ht' : t' ∈ ts') :
    ∃ t ∈ ts, TaskMoves k₀ e t.proc t'.proc := by
  induction h with
  | nil => cases ht'
  | cons hhead _ ih =>
    rcases mem_cons.mp ht' with rfl | ht'
    · exact ⟨_, mem_cons_self, hhead.2⟩
    · obtain ⟨t, ht, hmoves⟩ := ih ht'
      exact ⟨t, mem_cons_of_mem _ ht, hmoves⟩

lemma map {f : ParkedTask → ParkedTask}
    (h : ∀ t, (f t).ident = t.ident ∧ TaskMoves k₀ e t.proc (f t).proc) :
    Tasks k₀ e ts (ts.map f) :=
  forall₂_map_right_iff.mpr (forall₂_same.mpr fun t _ => h t)

lemma raised (k₀ : Kernel M) (e : Event M) (p : Process) (signal : ℕ) :
    TaskMoves k₀ e p (p.raise signal) := .single (.pending p _)

/-- A signal for one task of the queue. -/
lemma raiseAt (signal : ℕ) : ∀ (i : ℕ) (ts : List ParkedTask),
    Tasks k₀ e ts (ts.modify i (ParkedTask.raise signal))
  | _, [] => by simp
  | 0, t :: ts => .cons ⟨rfl, raised k₀ e t.proc signal⟩ (refl ts)
  | i + 1, t :: ts => .cons ⟨rfl, .refl⟩ (raiseAt signal i ts)

/-- A task that is woken is only made ready. -/
lemma wakeTasks (addr : ℕ) : ∀ (count : ℕ) (ts : List ParkedTask),
    Tasks k₀ e ts (Scheduler.wakeTasks addr count ts).2
  | 0, ts => by rw [Scheduler.wakeTasks]; exact refl ts
  | _ + 1, [] => .nil
  | count + 1, t :: ts => by
      rw [Scheduler.wakeTasks]
      split
      · rename_i t' hwake
        have hproc : t'.proc = t.proc := by
          rw [Scheduler.wakeAt] at hwake
          split at hwake
          · split_ifs at hwake
            cases hwake
            rfl
          · cases hwake
        refine .cons ⟨congrArg Process.ident hproc, ?_⟩ (wakeTasks addr count ts)
        rw [hproc]
      · exact .cons ⟨rfl, .refl⟩ (wakeTasks addr (count + 1) ts)

/-- The first report that matches is collected, and only that one. -/
lemma takeReport (ppid : ℕ) (filter : ℤ) : ∀ ts : List ParkedTask,
    Tasks k₀ e ts (Scheduler.takeReport ppid filter ts).2
  | [] => .nil
  | t :: ts => by
      rw [Scheduler.takeReport]
      split
      · exact .cons ⟨rfl, .single (.report t.proc)⟩ (refl ts)
      · exact .cons ⟨rfl, .refl⟩ (takeReport ppid filter ts)

end Tasks

/-! ### Scans -/

/-- Looking for an action consumes pending signals and changes nothing else. -/
lemma scanned_signals (acts : ℕ → Option SigAction) : ∀ (sigs : List ℕ) (p : Process),
    ∃ signals, (scanSignals acts sigs p).2 = { p with pendingSignals := signals }
  | [], p => ⟨p.pendingSignals, rfl⟩
  | sig :: sigs, p => by
      rw [scanSignals]
      dsimp only
      split_ifs
      · exact scanned_signals acts sigs p
      · exact scanned_signals acts sigs (p.consume sig)
      · exact ⟨p.pendingSignals, rfl⟩
      · exact ⟨_, rfl⟩
      · exact ⟨_, rfl⟩
      · exact scanned_signals acts sigs (p.consume sig)

/-- So does looking for a handler. -/
lemma scanned_handler (acts : ℕ → Option SigAction) : ∀ (sigs : List ℕ) (p : Process),
    ∃ signals, (scanHandler acts sigs p).2 = { p with pendingSignals := signals }
  | [], p => ⟨p.pendingSignals, rfl⟩
  | sig :: sigs, p => by
      rw [scanHandler]
      dsimp only
      split_ifs
      · exact scanned_handler acts sigs p
      · exact ⟨p.pendingSignals, rfl⟩
      split
      · split_ifs
        · exact ⟨_, rfl⟩
        · exact scanned_handler acts sigs (p.consume sig)
      · exact scanned_handler acts sigs (p.consume sig)

/-- The handler that is entered is that of one of the signals looked at. -/
lemma scanHandler_picked {acts : ℕ → Option SigAction} {sig : ℕ} {a : SigAction} :
    ∀ {sigs : List ℕ} (p : Process), (scanHandler acts sigs p).1 = some (sig, a) →
      sig ∈ sigs ∧ acts sig = some a
  | [], p, h => by cases h
  | s :: sigs, p, h => by
      have later {p : Process} (h : (scanHandler acts sigs p).1 = some (sig, a)) :
          sig ∈ s :: sigs ∧ acts sig = some a :=
        ⟨mem_cons_of_mem _ (scanHandler_picked p h).1, (scanHandler_picked p h).2⟩
      rw [scanHandler] at h
      dsimp only at h
      split_ifs at h
      · exact later h
      split at h
      · rename_i ha
        split_ifs at h
        · cases h
          exact ⟨mem_cons_self, ha⟩
        · exact later h
      · exact later h

/-- Closing descriptions leaves the handlers installed. -/
lemma sigactions_sweep (h : Heap) (live : List ℕ) : (h.sweep live).sigactions = h.sigactions := by
  rw [Heap.sweep]
  generalize h.opened.filter (· ∉ h.named live) = dropped
  -- one description at a time
  induction dropped generalizing h with
  | nil => rfl
  | cons d _ ih =>
    refine (ih _).trans ?_
    rw [Heap.dropDescription]
    dsimp only
    split <;> rfl

/-! ### Changes in place -/

namespace Within

variable {k₀ : Kernel M} {e : Event M} {k k' k'' : Kernel M}

/-- Nothing that the tasks see changes, but tasks may leave the queue. -/
lemma quiet (hproc : k'.proc = k.proc) (hparked : k'.sched.parked ⊆ k.sched.parked)
    (hacts : k'.heap.sigactions = k.heap.sigactions) (hnow : k.now ≤ k'.now) :
    Within k₀ e k k' where
  proc := by rw [hproc]
  parked t ht := ⟨t, hparked ht, .refl⟩
  acts cell _ _ h := ⟨cell, hacts ▸ h⟩
  now := hnow
  stopped := congrArg Process.stopped hproc

lemma trans (h : Within k₀ e k k') (h' : Within k₀ e k' k'') : Within k₀ e k k'' where
  proc := h.proc.trans h'.proc
  parked t'' ht'' := by
    obtain ⟨t', ht', hmoves'⟩ := h'.parked t'' ht''
    obtain ⟨t, ht, hmoves⟩ := h.parked t' ht'
    exact ⟨t, ht, hmoves.trans hmoves'⟩
  acts cell s a ha := by
    obtain ⟨cell', ha'⟩ := h'.acts cell s a ha
    exact h.acts cell' s a ha'
  now := h.now.trans h'.now
  stopped := h'.stopped.trans h.stopped

end Within

namespace Local

variable {k₀ : Kernel M} {e : Event M} {k k' k'' : Kernel M}

/-- Nothing that the tasks see changes. -/
lemma quiet (hcore : k'.core = k.core) (hproc : k'.proc = k.proc)
    (hparked : k'.sched.parked = k.sched.parked)
    (hacts : k'.heap.sigactions = k.heap.sigactions) (hnow : k.now ≤ k'.now) :
    Local k₀ e k k' :=
  ⟨.quiet hproc (fun _ ht => hparked ▸ ht) hacts hnow, hcore⟩

lemma refl (k₀ : Kernel M) (e : Event M) (k : Kernel M) : Local k₀ e k k :=
  quiet rfl rfl rfl rfl le_rfl

lemma trans (h : Local k₀ e k k') (h' : Local k₀ e k' k'') : Local k₀ e k k'' :=
  ⟨h.toWithin.trans h'.toWithin, h'.core.trans h.core⟩

/-- The task on the CPU changes. -/
lemma run {p : Process} (hident : p.ident = k.proc.ident) (hmoves : TaskMoves k₀ e k.proc p)
    (hstopped : p.stopped = k.proc.stopped) : Local k₀ e k { k with proc := p } where
  core := by simp only [Kernel.core, hident]
  proc := hmoves
  parked t ht := ⟨t, ht, .refl⟩
  acts cell _ _ h := ⟨cell, h⟩
  now := le_rfl
  stopped := hstopped

/-- The parked tasks change, each in its place. -/
lemma queue {parked : List ParkedTask} (h : Tasks k₀ e k.sched.parked parked) :
    Local k₀ e k (k.setParked parked) where
  core := by simp only [Kernel.core, setParked, h.idents]
  proc := .refl
  parked _ ht' := h.mem ht'
  acts cell _ _ h := ⟨cell, h⟩
  now := le_rfl
  stopped := rfl

variable (k₀ e k)

lemma sweep : Local k₀ e k k.sweep :=
  quiet rfl rfl rfl (sigactions_sweep _ _) le_rfl

lemma raiseAt (signal : ℕ) (i : Option ℕ) : Local k₀ e k (k.raiseAt signal i) := by
  cases i with
  | none => exact refl k₀ e k
  | some i => exact queue (Tasks.raiseAt signal i _)

lemma notifyParentSigchld (tgid : ℕ) : Local k₀ e k (k.notifyParentSigchld tgid) := by
  rw [Kernel.notifyParentSigchld]
  split
  · exact refl k₀ e k
  · exact raiseAt k₀ e k _ _

/-- A signal for a process group is raised on its parked members and on the running task. -/
lemma deliverSignalToPgrp (pgrp signal : ℕ) :
    Local k₀ e k (k.deliverSignalToPgrp pgrp signal) := by
  rw [Kernel.deliverSignalToPgrp]
  split
  · exact refl k₀ e k
  refine (queue (Tasks.map fun t => ?_)).trans (run ?_ ?_ ?_)
  · split
    · exact ⟨rfl, Tasks.raised k₀ e _ signal⟩
    · exact ⟨rfl, .refl⟩
  -- the running task, which may be a member or not
  all_goals dsimp only; split
  · rfl
  · rfl
  · exact Tasks.raised k₀ e _ signal
  · exact .refl
  · rfl
  · rfl

lemma signalProcess (tgid signal : ℕ) : Local k₀ e k (k.signalProcess tgid signal).2 := by
  rw [Kernel.signalProcess]
  split
  · exact refl k₀ e k
  split
  · dsimp only
    split
    · exact run rfl (Tasks.raised k₀ e _ signal) rfl
    · exact refl k₀ e k
  · exact raiseAt k₀ e k _ _

lemma pendingSignalAction : Local k₀ e k k.pendingSignalAction.2 := by
  obtain ⟨signals, hscan⟩ := scanned_signals (k.actsOf k.proc) allSignals k.proc
  have hproc : k.pendingSignalAction.2 = { k with proc := { k.proc with
      pendingSignals := signals } } := congrArg (fun p => { k with proc := p }) hscan
  rw [hproc]
  exact run rfl (.single (.pending _ _)) rfl

lemma futexWake (addr count : ℕ) : Local k₀ e k (k.futexWake addr count).2 :=
  queue (Tasks.wakeTasks addr count _)

lemma takeStopReport (ppid : ℕ) (filter : ℤ) :
    Local k₀ e k { k with sched := (k.sched.takeStopReport ppid filter).2 } :=
  queue (Tasks.takeReport ppid filter _)

lemma releaseVfork (done : Option ℕ) : Local k₀ e k (k.releaseVfork done) := by
  cases done with
  | none => exact refl k₀ e k
  | some => exact quiet rfl rfl rfl rfl le_rfl

lemma releaseParent : Local k₀ e k k.releaseParent := by
  have hproc : (k.releaseVfork k.proc.vforkDone).proc = k.proc := by
    cases k.proc.vforkDone <;> rfl
  refine (releaseVfork k₀ e k k.proc.vforkDone).trans (run ?_ ?_ ?_) <;> rw [hproc]
  · rfl
  · exact .single (.cells k.proc k.proc.fds k.proc.clearChildTid none)

/-- `execve` resets the handlers of its own table; the other tables keep theirs. -/
lemma discardImage : Local k₀ e k k.discardImage where
  core := rfl
  proc := .refl
  parked t ht := ⟨t, ht, .refl⟩
  acts cell s a ha := by
    have hacts : k.discardImage.heap.sigactions
        = Function.update k.heap.sigactions k.proc.sigactions fun _ => none := sigactions_sweep _ _
    rw [hacts, Function.update_apply] at ha
    split at ha
    · cases ha
    · exact ⟨cell, ha⟩
  now := le_rfl
  stopped := rfl

/-! ### Stalls -/

/-- Terminal input can raise a signal for the foreground group. -/
lemma feedTerminal (pty : ℕ) : Local k₀ e k (k.feedTerminal pty) := by
  have hfed : Local k₀ e k { k with
      stdioInput := []
      heap := k.heap.modifyPty pty fun _ => ((k.heap.ptys pty).feedInput k.stdioInput).2 } :=
    quiet rfl rfl rfl rfl le_rfl
  rw [Kernel.feedTerminal]
  dsimp only
  split
  · exact hfed.trans (deliverSignalToPgrp k₀ e _ _ _)
  · exact hfed

lemma stallOnTerminal : Local k₀ e k k.stallOnTerminal.2 := by
  rw [Kernel.stallOnTerminal]
  split
  · split
    · exact feedTerminal k₀ e k _
    · exact refl k₀ e k
  · exact refl k₀ e k

/-- The clock is only ever moved forward. -/
lemma stallOnClock (deadline : Option ℕ) : Local k₀ e k (k.stallOnClock deadline).2 := by
  cases deadline with
  | none => exact refl k₀ e k
  | some =>
    exact quiet rfl rfl rfl rfl (Nat.add_le_add_left (Nat.le_add_right _ _) _)

/-- **A stall** is resolved by input, by the network or by the clock; no task moves for it. -/
lemma resolveStall : Local k₀ e k k.resolveStall.2 := by
  have hterm := stallOnTerminal k₀ e k
  rw [Kernel.resolveStall]
  split <;> rename_i k' heq <;> rw [heq] at hterm
  · exact hterm
  refine hterm.trans ?_
  -- the flags and the broker's answers are not the tasks'
  have hflags : Local k₀ e k' { k' with networkExpired := false } :=
    quiet rfl rfl rfl rfl le_rfl
  have hanswers (readable : Net.Handle → Bool) :
      Local k₀ e k' { k' with heap := { k'.heap with brokerReadable := readable } } :=
    quiet rfl rfl rfl rfl le_rfl
  dsimp only
  split
  · split
    · split
      · exact hflags.trans (stallOnClock k₀ e _ _)
      · exact quiet rfl rfl rfl rfl le_rfl
    split
    · exact hanswers _
    · exact (hanswers _).trans (stallOnClock k₀ e _ _)
  · exact stallOnClock k₀ e _ _

lemma stallOutcome : Local k₀ e k k.stallOutcome.2 := by
  rw [Kernel.stallOutcome]
  split
  · exact refl k₀ e k
  · split <;> exact quiet rfl rfl rfl rfl le_rfl

variable {k₀ e k}

/-- A continue ends the stops of the tasks it is addressed to. -/
lemma killJobControl {target : ℤ} {signal : ℕ}
    (hcont : ∀ p, k.inJob target p → signal = SIGCONT → k₀.continues e p) :
    Local k₀ e k (k.killJobControl target signal).2 := by
  refine (queue (Tasks.map fun t => ?_)).trans (run ?_ ?_ ?_)
  · split
    · rename_i hjob
      by_cases hsignal : signal = SIGCONT
      · subst hsignal
        exact ⟨rfl, .single (.cont t.proc (hcont t.proc hjob rfl))⟩
      dsimp only [ParkedTask.ident]
      rw [jobSignalParked, if_neg hsignal]
      exact ⟨rfl, Tasks.raised k₀ e _ signal⟩
    · exact ⟨rfl, .refl⟩
  all_goals
    dsimp only [setParked]
    rw [jobSignal]
    split_ifs
  all_goals first | rfl | exact .single (.pending _ _)

end Local

lemma core_notifyParentSigchld (k : Kernel M) (tgid : ℕ) :
    (k.notifyParentSigchld tgid).core = k.core := (Local.notifyParentSigchld k .resume k tgid).core

lemma core_pendingSignalAction (k : Kernel M) : k.pendingSignalAction.2.core = k.core :=
  (Local.pendingSignalAction k .resume k).core

lemma core_deliverSignalToPgrp (k : Kernel M) (pgrp signal : ℕ) :
    (k.deliverSignalToPgrp pgrp signal).core = k.core :=
  (Local.deliverSignalToPgrp k .resume k pgrp signal).core

end Kernel

end WebTos.Proc
