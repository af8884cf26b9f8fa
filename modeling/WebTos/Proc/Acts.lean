import WebTos.Proc.Lineage

/-!
What an event does to the kernel, one act at a time (`syscall.rs`).

* `Kernel.Act`: the acts: tasks change in their places, memory changes, a task is parked, put on
  the CPU, created, reaped or ended;
* `Kernel.Reaches`: a state is reached by acts within an event, with one lemma for each function
  of `Switch`; `Kernel.step_reaches`: so is the state after every event, apart from the calls of
  other kinds;
* `Kernel.step_moves`: every event is a sequence of moves of the scheduler;
* `Kernel.step_tasks`: every task after an event comes from one before, by the changes it allows;
* `Kernel.nextPid_run_le`: an event gives out at most one process number;
* `Kernel.step_awake`: a stopped task is not on the CPU.
-/

namespace WebTos.Proc

open Fd Relation List Function ReflTransGen

namespace Kernel

variable {M : Type}

/-! ### The task that runs next -/

variable {index : ℕ}

variable {k k' : Kernel M}

/-- What a stall is resolved to can run. -/
lemma resolveStall_ready (h : k.resolveStall = (some index, k')) :
    k'.sched.findReady k'.heap k'.now = some index := by
  -- after every way to go on, the queue is searched once more
  have hclock {k : Kernel M} {deadline : Option ℕ}
      (h : k.stallOnClock deadline = (some index, k')) :
      k'.sched.findReady k'.heap k'.now = some index := by
    cases deadline with
    | none => cases h
    | some =>
      obtain ⟨hready, rfl⟩ := Prod.mk.inj h
      exact hready
  rw [resolveStall] at h
  split at h
  · rename_i i k₁ heq
    obtain ⟨hi, hk⟩ := Prod.mk.inj h
    subst hk
    rw [stallOnTerminal] at heq
    split at heq
    · split at heq
      · obtain ⟨hready, rfl⟩ := Prod.mk.inj heq
        exact hready.trans hi
      · cases heq
    · cases heq
  dsimp only at h
  split at h
  · split at h
    · split at h
      · exact hclock h
      · cases h
    split at h
    · rename_i hready
      obtain ⟨hi, rfl⟩ := Prod.mk.inj h
      exact hready.trans hi
    · exact hclock h
  · exact hclock h

/-! ### SIGKILL -/

namespace Within

variable {k₀ : Kernel M} {e : Event M}

lemma killTask (k : Kernel M) (index signal : ℕ) (t : ParkedTask) :
    Within k₀ e k (k.killTask index signal t) := by
  have herase : Within k₀ e k (k.setParked (k.sched.parked.eraseIdx index)) :=
    .quiet rfl (eraseIdx_subset) rfl le_rfl
  have hgone := herase.trans (Local.releaseVfork k₀ e _ t.proc.vforkDone).toWithin
  rw [Kernel.killTask]
  generalize (k.setParked (k.sched.parked.eraseIdx index)).releaseVfork t.proc.vforkDone = k' at *
  refine Within.trans ?_ (Local.sweep k₀ e _).toWithin
  split
  · have hzombie : Within k₀ e k' (k'.pushZombie ⟨t.proc.tgid, t.proc.ppid, signal⟩) :=
      .quiet rfl (List.Subset.refl _) rfl le_rfl
    exact (hgone.trans hzombie).trans (Local.notifyParentSigchld k₀ e _ _).toWithin
  · exact hgone

lemma killLoop (target signal : ℕ) : ∀ (fuel index : ℕ) (hit : Bool) (k : Kernel M),
    Within k₀ e k (Kernel.killLoop target signal fuel index hit k).2
  | 0, _, _, k => (Local.refl k₀ e k).toWithin
  | fuel + 1, index, hit, k => by
      rw [Kernel.killLoop]
      split
      · exact (Local.refl k₀ e k).toWithin
      split
      · exact (killTask k _ _ _).trans (killLoop target signal fuel _ _ _)
      · exact killLoop target signal fuel _ _ k

lemma killGroup (k : Kernel M) (target signal : ℕ) :
    Within k₀ e k (k.killGroup target signal).2 := by
  have hloop : Within k₀ e k _ := killLoop target signal k.sched.parked.length 0 false k
  rw [Kernel.killGroup]
  split
  rename_i hit k' heq
  rw [heq] at hloop
  split
  · exact hloop.trans (.quiet rfl (List.Subset.refl _) rfl le_rfl)
  · exact hloop

end Within

/-- A killed task leaves the queue, and a leader a zombie. -/
lemma core_killTask (k : Kernel M) (index signal : ℕ) (t : ParkedTask) :
    (k.killTask index signal t).core = { k.core with
      parked := k.core.parked.eraseIdx index
      zombies := k.core.zombies ++ Core.leadersOf t.proc.tgid [t.ident]
      died := k.core.died ++ Core.leadersOf t.proc.tgid [t.ident] } := by
  have hleft := (Local.releaseVfork k .resume (k.setParked (k.sched.parked.eraseIdx index))
    t.proc.vforkDone).core.trans (k.core_erase index)
  have hsweep : ∀ k : Kernel M, k.sweep.core = k.core := fun _ => rfl
  rw [killTask, hsweep]
  generalize (k.setParked (k.sched.parked.eraseIdx index)).releaseVfork t.proc.vforkDone = k' at *
  by_cases hpid : t.proc.pid = t.proc.tgid
  · have hlead : Core.leadersOf t.proc.tgid [t.ident] = [t.proc.tgid] := by
      simp [Core.leadersOf, ParkedTask.ident, Process.ident, hpid]
    rw [if_pos hpid, core_notifyParentSigchld, core_pushZombie, hleft, hlead]
  have hlead : Core.leadersOf t.proc.tgid [t.ident] = [] := by
    simp [Core.leadersOf, ParkedTask.ident, Process.ident, hpid]
  rw [if_neg hpid, hleft, hlead, append_nil, append_nil]

/-- The loop of SIGKILL: the queue is `pre`, already looked at, and `post`. -/
lemma killLoop_spec (target signal : ℕ) (post : List Ident) :
    ∀ (pre : List Ident) (fuel : ℕ) (hit : Bool) (k : Kernel M),
      k.core.parked = pre ++ post → post.length ≤ fuel →
      (killLoop target signal fuel pre.length hit k).1
          = (hit || post.any fun t => t.tgid == target) ∧
        (killLoop target signal fuel pre.length hit k).2.core = { k.core with
          parked := pre ++ post.filter fun t => t.tgid != target
          zombies := k.core.zombies ++ Core.leadersOf target post
          died := k.core.died ++ Core.leadersOf target post } := by
  -- the queue before `pre.length` is settled; a kill shortens it, anything else moves on
  induction post with
  | nil =>
    intro pre fuel hit k hparked _
    have hdone : killLoop target signal fuel pre.length hit k = (hit, k) := by
      cases fuel with
      | zero => rfl
      | succ fuel =>
        have hnone : k.sched.parked[pre.length]? = none := by
          have := congrArg List.length hparked
          simp only [core, length_map, append_nil] at this
          exact List.getElem?_eq_none (by omega)
        rw [killLoop, hnone]
    rw [hdone]
    refine ⟨by simp, ?_⟩
    rw [filter_nil, ← hparked]
    simp only [Core.leadersOf, filter_nil, map_nil, append_nil]
  | cons t post ih =>
    intro pre fuel hit k hparked hfuel
    obtain ⟨fuel, rfl⟩ : ∃ f, fuel = f + 1 := ⟨fuel - 1, by simp at hfuel; omega⟩
    have hget : k.core.parked[pre.length]? = some t := by rw [hparked]; simp
    obtain ⟨task, htask, hident⟩ : ∃ task, k.sched.parked[pre.length]? = some task ∧
        task.ident = t := by
      simpa [core, List.getElem?_map, Option.map_eq_some_iff] using hget
    have htgid : task.proc.tgid = t.tgid := by rw [← hident]; rfl
    rw [killLoop, htask]
    dsimp only
    -- the index stays where it is when the task there is taken out
    by_cases ht : task.proc.tgid = target
    · rw [if_pos ht]
      have hkill := core_killTask k pre.length signal task
      rw [hparked, eraseIdx_append_of_length_le le_rfl, Nat.sub_self,
        eraseIdx_cons_zero, hident, ht] at hkill
      obtain ⟨hhit, hcore⟩ := ih pre fuel true (k.killTask pre.length signal task)
        (congrArg Core.parked hkill) (by simpa using hfuel)
      refine ⟨by rw [hhit]; simp [← htgid, ht], ?_⟩
      rw [hcore, hkill]
      have hlead : Core.leadersOf target (t :: post)
          = Core.leadersOf target [t] ++ Core.leadersOf target post := by
        rw [Core.leadersOf, ← singleton_append, filter_append, map_append]
        rfl
      rw [hlead, filter_cons_of_neg (by simp [← htgid, ht])]
      simp only [append_assoc]
    rw [if_neg ht]
    have hlen : pre.length + 1 = (pre ++ [t]).length := by simp
    rw [hlen]
    obtain ⟨hhit, hcore⟩ := ih (pre ++ [t]) fuel hit k (by rw [hparked]; simp)
      (by simpa using hfuel)
    rw [htgid] at ht
    refine ⟨by rw [hhit, any_cons, beq_eq_false_iff_ne.mpr ht, Bool.false_or], ?_⟩
    have hlead : Core.leadersOf target (t :: post) = Core.leadersOf target post := by
      rw [Core.leadersOf, filter_cons_of_neg (by simp [ht])]
      rfl
    rw [hcore, hlead, filter_cons_of_pos (by simp [ht]), append_assoc]
    rfl

/-- **SIGKILL for a group** takes its parked tasks and its address space. -/
lemma core_killGroup (k : Kernel M) (target signal : ℕ) :
    (k.killGroup target signal).2.core = { k.core with
      parked := k.core.outside target
      groupMaps := if k.core.parked.any fun t => t.tgid == target
        then update k.core.groupMaps target none else k.core.groupMaps
      zombies := k.core.zombies ++ Core.leadersOf target k.core.parked
      died := k.core.died ++ Core.leadersOf target k.core.parked } := by
  have hlen : k.sched.parked.length = k.core.parked.length := by simp [core]
  obtain ⟨hhit, hcore⟩ := killLoop_spec target signal k.core.parked [] k.core.parked.length false k
    rfl le_rfl
  rw [killGroup, hlen]
  rw [length_nil, Bool.false_or] at *
  generalize killLoop target signal k.core.parked.length 0 false k = result at *
  obtain ⟨hit, k'⟩ := result
  dsimp only at hhit hcore ⊢
  -- no task of the group is left, so its address space goes too
  have hgone : k'.sched.groupHasParked target = false := by
    rw [groupHasParked_eq, hcore, List.any_eq_false]
    intro t ht
    simpa using (mem_filter.mp ht).2
  rw [hgone, ← hhit]
  cases hit with
  | true =>
    simp only [and_self, if_true]
    have hmaps : ({ k' with sched := { k'.sched with
        groupMaps := update k'.sched.groupMaps target none } } : Kernel M).core
          = { k'.core with groupMaps := update k'.core.groupMaps target none } := rfl
    rw [hmaps, hcore]
    rfl
  | false =>
    simp only [Bool.false_eq_true, false_and, if_false]
    rw [hcore]
    rfl

variable {target : ℤ}

/-- `kill` handles the caller's own group apart. -/
lemma ne_of_mem_victims {tgids : List ℕ} (h : k.victims target = some tgids)
    (hself : ¬ target = k.proc.tgid) {g : ℕ} (hg : g ∈ tgids) :
    g ≠ k.core.proc.tgid := by
  have hproc : k.core.proc.tgid = k.proc.tgid := rfl
  rw [hproc]
  rw [victims] at h
  split at h
  · exact absurd h (by simp)
  split at h
  · rw [← Option.some.inj h, mem_singleton] at hg
    rintro rfl
    omega
  split at h
  · exact absurd h (by simp)
  rw [← Option.some.inj h, groupMembers, mem_dedup, mem_mergeSort, List.mem_map] at hg
  obtain ⟨t, ht, rfl⟩ := hg
  have := (mem_filter.mp ht).2
  simp only [Bool.and_eq_true, bne_iff_ne] at this
  exact this.2

/-! ### Acts -/

/-- The event is a plain `exit` of the task on the CPU that no pending signal comes before. -/
def Exits (k : Kernel M) (e : Event M) : Prop :=
  k.onCpu = true ∧ (∃ code, e = .syscall (.exit code)) ∧
    ∀ sig, k.pendingSignalAction.1 ≠ .terminate sig ∧ k.pendingSignalAction.1 ≠ .stop sig

/-- The event is a plain `exit`, and nothing has happened to the scheduler yet. -/
structure Lone (k₀ : Kernel M) (e : Event M) (k : Kernel M) : Prop where
  exits : k₀.Exits e
  proc : k.core.proc = k₀.core.proc
  parked : k.core.parked = k₀.core.parked

/-- A task leaves the queue. -/
abbrev unqueued (k : Kernel M) (index : ℕ) : Kernel M :=
  k.setParked (k.sched.parked.eraseIdx index)

/-- A process number is given out. -/
def takePid (k : Kernel M) : Kernel M :=
  { k with sched := { k.sched with nextPid := k.sched.nextPid + 1 } }

/-- A task takes the CPU. -/
def seated (k : Kernel M) (task : ParkedTask) : Kernel M :=
  { k with lastGroup := task.proc.tgid, proc := task.proc, onCpu := true }

/-- The task on the CPU leaves it for good. -/
def gone (k : Kernel M) : Kernel M :=
  { k with proc := { k.proc with fds := placeholderCell }, onCpu := false }.sweep

section

variable [GuestMem M]

/-- **What can happen to the kernel within the event** `e` from the state `k₀`.  Tasks end only
if `deadly` holds. -/
inductive Act (deadly : Prop) (k₀ : Kernel M) (e : Event M) : Kernel M → Kernel M → Prop
  | stay {k k' : Kernel M} (h : Local k₀ e k k') : Act deadly k₀ e k k'
  | memory (k : Kernel M) (f : M → M × Bool) (hcpu : k.onCpu = true) :
      Act deadly k₀ e k (k.touch f).2
  /-- The task on the CPU is parked; it may stop with its group. -/
  | park {k : Kernel M} (k' : Kernel M) (state : ParkState) (hcpu : k.onCpu = true)
      (hcore : k'.core = k.core) (hproc : TaskMoves k₀ e k.proc k'.proc)
      (hparked : ∀ t' ∈ k'.sched.parked, ∃ t ∈ k.sched.parked, TaskMoves k₀ e t.proc t'.proc)
      (hacts : ∀ cell s a, k'.heap.sigactions cell s = some a →
        ∃ cell', k.heap.sigactions cell' s = some a)
      (hnow : k.now ≤ k'.now) : Act deadly k₀ e k (k'.parkCurrent state)
  | enter (k : Kernel M) (index : ℕ) (task : ParkedTask) (hcpu : k.onCpu = false)
      (htask : k.sched.parked[index]? = some task) (hawake : task.proc.stopped = false)
      (hgroup : k.lastGroup = task.proc.tgid) :
      Act deadly k₀ e k ((k.unqueued index).seated task)
  | swap (k : Kernel M) (index : ℕ) (task : ParkedTask) (hcpu : k.onCpu = false)
      (htask : k.sched.parked[index]? = some task) (hawake : task.proc.stopped = false)
      (hgroup : k.lastGroup ≠ task.proc.tgid)
      (hfound : ((k.unqueued index).swapSpaces task.proc.tgid).1 = true) :
      Act deadly k₀ e k
        (((k.unqueued index).swapSpaces task.proc.tgid).2.seated task)
  | missing (k : Kernel M) (index : ℕ) (task : ParkedTask) (hcpu : k.onCpu = false)
      (htask : k.sched.parked[index]? = some task) (hgroup : k.lastGroup ≠ task.proc.tgid)
      (hfound : ((k.unqueued index).swapSpaces task.proc.tgid).1 = false) :
      Act deadly k₀ e k
        ((k.unqueued index).swapSpaces task.proc.tgid).2
  | skipPid (k : Kernel M) (hpid : k.sched.nextPid = k₀.sched.nextPid) :
      Act deadly k₀ e k k.takePid
  | clone (k : Kernel M) (spec : CloneSpec) (hcpu : k.onCpu = true)
      (hpid : k.sched.nextPid = k₀.sched.nextPid) (hborn : k₀.Bears e k.proc) :
      Act deadly k₀ e k (k.takePid.enqueueChild spec k.sched.nextPid).2
  | reap (k : Kernel M) {ppid : ℕ} {filter : ℤ} {zombie : Zombie} {sched : Scheduler M}
      (htake : k.sched.takeZombie ppid filter = some (zombie, sched)) (returned : Bool) :
      Act deadly k₀ e k { k with
        sched := sched
        reaped := if returned then k.reaped ++ [zombie.pid] else k.reaped }
  | exitThread (k : Kernel M) (hdeadly : deadly) (hcpu : k.onCpu = true)
      (hpid : k.proc.pid ≠ k.proc.tgid) : Act deadly k₀ e k k.gone
  | exitLeader (k : Kernel M) (status : ℕ) (hdeadly : deadly) (hcpu : k.onCpu = true)
      (hpid : k.proc.pid = k.proc.tgid) (hroot : k.proc.tgid ≠ ROOT_PID) (hlone : Lone k₀ e k) :
      Act deadly k₀ e k (k.pushZombie ⟨k.proc.tgid, k.proc.ppid, status⟩).gone
  | exitGroup (k : Kernel M) (status : ℕ) (hdeadly : deadly) (hcpu : k.onCpu = true) :
      Act deadly k₀ e k (k.killSiblings.pushZombie ⟨k.proc.tgid, k.proc.ppid, status⟩).gone
  | halt (k : Kernel M) (group : Bool) (code : Option ℤ) (hdeadly : deadly)
      (hcpu : k.onCpu = true) :
      Act deadly k₀ e k { (if group then k.killSiblings else k) with
        exitCode := code, onCpu := false }
  | kill {k k' : Kernel M} (target : ℕ) (hdeadly : deadly) (hcpu : k.onCpu = true)
      (hother : target ≠ k.core.proc.tgid) (h : Within k₀ e k k')
      (hcore : k'.core = { k.core with
        parked := k.core.outside target
        groupMaps := if k.core.parked.any fun t => t.tgid == target
          then update k.core.groupMaps target none else k.core.groupMaps
        zombies := k.core.zombies ++ Core.leadersOf target k.core.parked
        died := k.core.died ++ Core.leadersOf target k.core.parked }) : Act deadly k₀ e k k'

/-- The state `k` is reached within the event `e` from the state `k₀`. -/
abbrev Reaches (deadly : Prop) (k₀ : Kernel M) (e : Event M) (k : Kernel M) : Prop :=
  ReflTransGen (Act deadly k₀ e) k₀ k

/-! ### Spaces and children -/

/-- The same tasks are in the same places, with the same objects and clock. -/
structure SameTasks (k k' : Kernel M) : Prop where
  proc : k'.proc = k.proc
  onCpu : k'.onCpu = k.onCpu
  parked : k'.sched.parked = k.sched.parked
  heap : k'.heap = k.heap
  now : k'.now = k.now
  died : k'.died = k.died
  nextPid : k'.sched.nextPid = k.sched.nextPid

/-- A change of address spaces moves no task. -/
lemma swapSpaces_same (k : Kernel M) (next : ℕ) : SameTasks k (k.swapSpaces next).2 := by
  have hsave : SameTasks k k.saveMap := by
    rw [saveMap]
    split <;> exact ⟨rfl, rfl, rfl, rfl, rfl, rfl, rfl⟩
  rw [swapSpaces]
  dsimp only
  split <;> exact ⟨hsave.proc, hsave.onCpu, hsave.parked, hsave.heap, hsave.now, hsave.died,
    hsave.nextPid⟩

/-- The child that a clone adds to the queue, and what else it changes. -/
structure Bred (k : Kernel M) (spec : CloneSpec) (pid : ℕ) (child : ParkedTask) (k' : Kernel M) :
    Prop where
  proc : k'.proc = k.proc
  onCpu : k'.onCpu = k.onCpu
  now : k'.now = k.now
  parked : k'.sched.parked = k.sched.parked ++ [child]
  acts : ∀ cell s a, k'.heap.sigactions cell s = some a →
    ∃ cell', k.heap.sigactions cell' s = some a
  /-- The child is a thread or a fork of the caller, with a tid address and a vfork parent. -/
  born : ∃ (p : Process) (tid : ℕ) (done : Option ℕ),
    child.proc = { p with clearChildTid := tid, vforkDone := done } ∧
      if spec.isThread then p = k.proc.threadSibling pid
      else ∃ cell, p = k.proc.forkChild pid cell cell
  core : k'.core =
    { (if spec.isThread then k.core.touched (childMap spec pid)
      else { k.core with
        groupMaps := update k.core.groupMaps pid (some (childMap spec pid k.core.mmu))
        own := update k.core.own pid (childMap spec pid (k.core.own k.core.proc.tgid)) })
      with parked := k.core.parked ++ [child.ident] }

omit [GuestMem M] in
/-- The new task, and that no disposition is new. -/
lemma newTask_eq (k : Kernel M) (spec : CloneSpec) (pid : ℕ) :
    ∃ p heap, k.newTask spec pid = (p, { k with heap := heap }) ∧
      (if spec.isThread then p = k.proc.threadSibling pid
        else ∃ cell, p = k.proc.forkChild pid cell cell) ∧
      ∀ cell s a, heap.sigactions cell s = some a →
        ∃ cell', k.heap.sigactions cell' s = some a := by
  rw [newTask]
  split
  · exact ⟨_, k.heap, rfl, rfl, fun cell s a ha => ⟨cell, ha⟩⟩
  refine ⟨_, _, rfl, ⟨_, rfl⟩, fun cell s a ha => ?_⟩
  dsimp only at ha
  rw [Function.update_apply] at ha
  split at ha
  · exact ⟨_, ha⟩
  · exact ⟨_, ha⟩

lemma newSpace_same (k : Kernel M) (spec : CloneSpec) (pid : ℕ) :
    SameTasks k (k.newSpace spec pid) := by
  rw [newSpace]
  split <;> exact ⟨rfl, rfl, rfl, rfl, rfl, rfl, rfl⟩

lemma core_newSpace (k : Kernel M) (spec : CloneSpec) (pid : ℕ) :
    (k.newSpace spec pid).core =
      if spec.isThread then k.core.touched (childMap spec pid)
      else { k.core with
        groupMaps := update k.core.groupMaps pid (some (childMap spec pid k.core.mmu))
        own := update k.core.own pid
          (childMap spec pid (k.core.own k.core.proc.tgid)) } := by
  rw [newSpace]
  split <;> rfl

omit [GuestMem M] in
lemma newVforkFlag_eq (k : Kernel M) (spec : CloneSpec) :
    ∃ done heap, k.newVforkFlag spec = (done, { k with heap := heap }) ∧
      heap.sigactions = k.heap.sigactions := by
  rw [newVforkFlag]
  split <;> exact ⟨_, _, rfl, rfl⟩

/-- A clone adds one task to the end of the queue. -/
lemma enqueueChild_bred (k : Kernel M) (spec : CloneSpec) (pid : ℕ) :
    ∃ child, Bred k spec pid child (k.enqueueChild spec pid).2 := by
  obtain ⟨p, heap, hnew, hp, hacts⟩ := k.newTask_eq spec pid
  have hsame := newSpace_same { k with heap := heap } spec pid
  have hcore := core_newSpace { k with heap := heap } spec pid
  obtain ⟨done, heap', hflag, hacts'⟩ :=
    ({ k with heap := heap }.newSpace spec pid).newVforkFlag_eq spec
  rw [enqueueChild, hnew]
  dsimp only
  rw [hflag]
  generalize ({ k with heap := heap } : Kernel M).newSpace spec pid = k' at *
  refine ⟨⟨{ (if spec.childCleartid then { p with clearChildTid := spec.childTid } else p) with
    vforkDone := done }, .ready⟩, ?_⟩
  constructor
  · exact hsame.proc
  · exact hsame.onCpu
  · exact hsame.now
  · exact congrArg (· ++ _) hsame.parked
  · intro cell s a ha
    have hheap : heap'.sigactions = heap.sigactions :=
      hacts'.trans (congrArg Heap.sigactions hsame.heap)
    exact hacts cell s a (hheap ▸ ha)
  · refine ⟨p, if spec.childCleartid then spec.childTid else p.clearChildTid, done, ?_, hp⟩
    split <;> rfl
  · rw [show k.core = ({ k with heap := heap } : Kernel M).core from rfl, ← hcore]
    simp only [core, setParked, map_append, map_cons, map_nil, hsame.parked]

/-! ### What follows from an act -/

/-- The task on the CPU is not stopped. -/
def Awake (k : Kernel M) : Prop := k.onCpu = true → k.proc.stopped = false

variable {task : ParkedTask}

namespace Act

variable {d : Prop} {k₀ k k' : Kernel M} {e : Event M}

omit [GuestMem M] in
lemma acts_of_eq (h : k'.heap.sigactions = k.heap.sigactions) (cell s : ℕ) (a : SigAction)
    (ha : k'.heap.sigactions cell s = some a) : ∃ cell', k.heap.sigactions cell' s = some a :=
  ⟨cell, h ▸ ha⟩

/-- No disposition is new. -/
lemma acts (h : Act d k₀ e k k') : ∀ cell s a, k'.heap.sigactions cell s = some a →
    ∃ cell', k.heap.sigactions cell' s = some a := by
  cases h with
  | stay h => exact h.acts
  | memory | enter | skipPid | reap => exact acts_of_eq rfl
  | park _ _ _ _ _ _ hacts => exact hacts
  | swap | missing => exact acts_of_eq (congrArg Heap.sigactions (swapSpaces_same _ _).heap)
  | clone => exact (enqueueChild_bred _ _ _).choose_spec.acts
  | exitThread | exitLeader | exitGroup => exact acts_of_eq (sigactions_sweep _ _)
  | halt group => cases group <;> exact acts_of_eq rfl
  | kill _ _ _ _ h => exact h.acts

/-- The task on the CPU is not stopped. -/
lemma awake (h : Act d k₀ e k k') (hawake : k.Awake) : k'.Awake := by
  cases h with
  | stay h =>
    intro hrun
    exact h.stopped.trans (hawake ((congrArg Core.onCpu h.core).symm.trans hrun))
  | memory | skipPid | reap => exact hawake
  | park | exitThread | exitLeader | exitGroup | halt => exact fun hrun => by cases hrun
  | enter _ _ _ _ hstopped => exact fun _ => hstopped
  | swap _ _ _ _ hstopped => exact fun _ => hstopped
  | missing _ _ hcpu =>
    exact fun hrun => by cases ((swapSpaces_same _ _).onCpu.symm.trans hrun).symm.trans hcpu
  | clone spec =>
    obtain ⟨child, hbred⟩ := k.takePid.enqueueChild_bred spec k.sched.nextPid
    intro hrun
    rw [hbred.proc]
    exact hawake (hbred.onCpu.symm.trans hrun)
  | kill _ _ hcpu _ h =>
    intro hrun
    exact h.stopped.trans (hawake hcpu)

/-- Nobody dies of the acts that end no task. -/
lemma died (h : Act False k₀ e k k') : k'.died = k.died := by
  cases h with
  | stay h => exact congrArg Core.died h.core
  | memory | enter | skipPid | reap => rfl
  | park _ _ _ hcore => exact congrArg Core.died hcore
  | swap | missing => exact (swapSpaces_same _ _).died
  | clone spec =>
    obtain ⟨child, hbred⟩ := k.takePid.enqueueChild_bred spec k.sched.nextPid
    refine (congrArg Core.died hbred.core).trans ?_
    split <;> rfl
  | exitThread hdeadly | exitLeader _ hdeadly | exitGroup _ hdeadly | halt _ _ hdeadly
  | kill _ hdeadly => exact hdeadly.elim

/-- A number is given out at most once in an event. -/
lemma nextPid_le (h : Act d k₀ e k k') (hk : k.sched.nextPid ≤ k₀.sched.nextPid + 1) :
    k'.sched.nextPid ≤ k₀.sched.nextPid + 1 := by
  cases h with
  | stay h => exact (congrArg Core.nextPid h.core).trans_le hk
  | memory | enter | exitThread | exitLeader | exitGroup => exact hk
  | park _ _ _ hcore => exact (congrArg Core.nextPid hcore).trans_le hk
  | swap | missing => exact (swapSpaces_same _ _).nextPid.trans_le hk
  | skipPid hpid => exact (congrArg (· + 1) hpid).le
  | clone spec _ hpid =>
    obtain ⟨child, hbred⟩ := k.takePid.enqueueChild_bred spec k.sched.nextPid
    refine (congrArg Core.nextPid hbred.core).trans_le ?_
    rw [← hpid]
    split <;> exact le_rfl
  | reap htake =>
    obtain ⟨_, _, -, hcore⟩ := takeZombie_spec htake
    exact (congrArg Core.nextPid hcore).trans_le hk
  | halt group => cases group <;> exact hk
  | kill _ _ _ _ _ hcore => exact (congrArg Core.nextPid hcore).trans_le hk

omit [GuestMem M] in
/-- Every task comes from one in the same place. -/
lemma tasks_of_within (h : Within k₀ e k k') (hcpu : k'.onCpu → k.onCpu) :
    ∀ p' ∈ k'.liveTasks, ∃ p ∈ k.liveTasks, TaskMoves k₀ e p p' := by
  intro p' hp'
  rcases mem_liveTasks.mp hp' with ⟨hrun, rfl⟩ | ⟨t', ht', rfl⟩
  · exact ⟨k.proc, mem_liveTasks.mpr (.inl ⟨hcpu hrun, rfl⟩), h.proc⟩
  · obtain ⟨t, ht, hmoves⟩ := h.parked t' ht'
    exact ⟨t.proc, mem_liveTasks.mpr (.inr ⟨t, ht, rfl⟩), hmoves⟩

omit [GuestMem M] in
lemma tasks_of_parked (hrun : k'.onCpu → ∃ t ∈ k.sched.parked, t.proc = k'.proc)
    (hparked : k'.sched.parked ⊆ k.sched.parked) :
    ∀ p' ∈ k'.liveTasks, ∃ p ∈ k.liveTasks, TaskMoves k₀ e p p' := by
  intro p' hp'
  refine ⟨p', mem_liveTasks.mpr (.inr ?_), .refl⟩
  rcases mem_liveTasks.mp hp' with ⟨hcpu, rfl⟩ | ⟨t, ht, rfl⟩
  · exact hrun hcpu
  · exact ⟨t, hparked ht, rfl⟩

/-- Every task after an act comes from one before it. -/
lemma tasks (h : Act d k₀ e k k') :
    ∀ p' ∈ k'.liveTasks, ∃ p ∈ k.liveTasks, TaskMoves k₀ e p p' := by
  have hsame : ∀ p' ∈ k.liveTasks, ∃ p ∈ k.liveTasks, TaskMoves k₀ e p p' :=
    fun p hp => ⟨p, hp, .refl⟩
  cases h with
  | stay h =>
    exact tasks_of_within h.toWithin fun hrun => (congrArg Core.onCpu h.core).symm.trans hrun
  | memory | skipPid => exact hsame
  -- the running task is queued behind the others
  | park _ _ hcpu _ hproc hparked =>
    intro p' hp'
    rcases mem_liveTasks.mp hp' with ⟨hrun, -⟩ | ⟨t', ht', rfl⟩
    · cases hrun
    rcases mem_append.mp ht' with ht' | ht'
    · obtain ⟨t, ht, hmoves⟩ := hparked t' ht'
      exact ⟨t.proc, mem_liveTasks.mpr (.inr ⟨t, ht, rfl⟩), hmoves⟩
    · rw [mem_singleton.mp ht']
      exact ⟨k.proc, mem_liveTasks.mpr (.inl ⟨hcpu, rfl⟩), hproc⟩
  -- a task of the queue takes the CPU
  | enter _ _ _ htask =>
    exact tasks_of_parked (fun _ => ⟨_, mem_of_getElem? htask, rfl⟩) eraseIdx_subset
  | swap index task _ htask =>
    have hsame := swapSpaces_same (k.unqueued index) task.proc.tgid
    refine tasks_of_parked (fun _ => ⟨_, mem_of_getElem? htask, rfl⟩) fun t ht => ?_
    exact eraseIdx_subset (hsame.parked ▸ ht)
  | missing index task hcpu =>
    have hsame := swapSpaces_same (k.unqueued index) task.proc.tgid
    refine tasks_of_parked (fun hrun => ?_) fun t ht => ?_
    · cases (hsame.onCpu.symm.trans hrun).symm.trans hcpu
    · exact eraseIdx_subset (hsame.parked ▸ ht)
  | clone spec hcpu hpid hborn =>
    -- the child is the last of the queue, and was born from the running task
    obtain ⟨child, hbred⟩ := k.takePid.enqueueChild_bred spec k.sched.nextPid
    intro p' hp'
    rcases mem_liveTasks.mp hp' with ⟨hrun, rfl⟩ | ⟨t', ht', rfl⟩
    · rw [hbred.proc]
      exact hsame _ (mem_liveTasks.mpr (.inl ⟨hcpu, rfl⟩))
    rw [hbred.parked] at ht'
    rcases mem_append.mp ht' with ht' | ht'
    · exact hsame _ (mem_liveTasks.mpr (.inr ⟨t', ht', rfl⟩))
    rw [mem_singleton.mp ht']
    refine ⟨k.proc, mem_liveTasks.mpr (.inl ⟨hcpu, rfl⟩), ?_⟩
    obtain ⟨p, tid, done, hchild, hp⟩ := hbred.born
    have hbirth : TaskMoves k₀ e k.proc p := by
      rw [hpid] at hp
      split at hp
      · exact hp ▸ .single (.thread k.proc hborn)
      · obtain ⟨cell, rfl⟩ := hp
        exact .single (.fork k.proc cell cell hborn)
    rw [hchild]
    exact hbirth.tail (.cells p p.fds tid done)
  | reap htake =>
    refine tasks_of_within (.quiet rfl (fun t ht => ?_) rfl le_rfl) id
    rw [Scheduler.takeZombie] at htake
    split at htake <;> cases htake
    exact ht
  -- the tasks that are left were in the queue
  | exitThread | exitLeader =>
    exact tasks_of_parked (fun hrun => by cases hrun) (List.Subset.refl _)
  | exitGroup => exact tasks_of_parked (fun hrun => by cases hrun) (filter_subset_self _)
  | halt group =>
    refine tasks_of_parked (fun hrun => by cases hrun) ?_
    cases group
    · exact List.Subset.refl _
    · exact (filter_subset_self _)
  | kill _ _ hcpu _ h => exact tasks_of_within h fun _ => hcpu

variable {P : Ident → List Ident → Prop}

omit [GuestMem M] in
lemma ident_getElem? (htask : k.sched.parked[index]? = some task) :
    k.core.parked[index]? = some task.ident := by
  rw [core, List.getElem?_map, htask]
  rfl

/-- The change of address spaces, found or not, is one move. -/
lemma moves_swap (hcpu : k.onCpu = false) (htask : k.sched.parked[index]? = some task)
    (hgroup : k.lastGroup ≠ task.proc.tgid) :
    Moves P k.core (
      if ((k.unqueued index).swapSpaces task.proc.tgid).1 then
        (((k.unqueued index).swapSpaces task.proc.tgid).2.seated task).core
      else ((k.unqueued index).swapSpaces task.proc.tgid).2.core) := by
  have hsave := core_saveMap (k.unqueued index)
  rw [k.core_erase index] at hsave
  generalize k.unqueued index = k' at *
  have hmaps : k'.saveMap.sched.groupMaps
      = k.core.savedMaps (k.core.parked.eraseIdx index) := congrArg Core.groupMaps hsave
  rw [swapSpaces]
  dsimp only
  cases hmap : k'.saveMap.sched.groupMaps task.proc.tgid with
  | some map =>
    have hmove : Move P k.core _ := .swap k.core index task.ident map hcpu (ident_getElem? htask)
      hgroup (by rw [← hmaps]; exact hmap)
    rw [← hmaps] at hmove
    convert single hmove using 1
    simp only [core, seated, if_true, Core.mk.injEq] at hsave ⊢
    tauto
  -- no map is found: the MMU is emptied and the task is lost
  | none =>
    have hmove : Move P k.core _ := .missing k.core index task.ident GuestMem.empty
      hcpu (ident_getElem? htask) hgroup (by rw [← hmaps]; exact hmap)
    rw [← hmaps] at hmove
    convert single hmove using 1
    simp only [core, Bool.false_eq_true, if_false, Core.mk.injEq] at hsave ⊢
    tauto

/-- The queue and the address spaces after a new task was added to them. -/
lemma moves_clone (k : Kernel M) (spec : CloneSpec) (hcpu : k.onCpu) :
    Moves P k.core (k.takePid.enqueueChild spec k.sched.nextPid).2.core := by
  obtain ⟨child, hbred⟩ := k.takePid.enqueueChild_bred spec k.sched.nextPid
  obtain ⟨p, tid, done, hchild, hp⟩ := hbred.born
  rw [hbred.core, ParkedTask.ident, hchild]
  cases hthread : spec.isThread with
  | true =>
    rw [hthread, if_pos rfl] at hp
    subst hp
    refine .trans (.single (.touch k.core (childMap spec k.sched.nextPid) hcpu)) (.single ?_)
    exact .thread (k.core.touched (childMap spec k.sched.nextPid)) hcpu
  | false =>
    rw [hthread, if_neg (by decide)] at hp
    obtain ⟨cell, rfl⟩ := hp
    exact .single (.fork k.core (childMap spec k.sched.nextPid) hcpu)

/-- **An act is a sequence of moves of the scheduler**, whatever leaders may leave behind. -/
lemma moves (h : Act d k₀ e k k')
    (halone : k₀.Exits e → k₀.proc.pid = k₀.proc.tgid → k₀.proc.tgid ≠ ROOT_PID →
      P k₀.core.proc k₀.core.parked) : Moves P k.core k'.core := by
  cases h with
  | stay h => rw [h.core]
  | memory f hcpu => exact .single (.touch k.core (fun m => (f m).1) hcpu)
  | park k' state hcpu hcore =>
    -- the move is read off the core of the parked machine
    have hpark : (k'.parkCurrent state).core = { k'.core with
        parked := k'.core.parked ++ [k'.core.proc]
        proc := (Process.initial placeholderCell placeholderCell).ident
        onCpu := false } := by
      simp only [parkCurrent, core, setParked, map_append]
      rfl
    rw [hpark, hcore]
    exact .single (.park k.core _ hcpu)
  | enter index task hcpu htask _ hgroup =>
    have hmove : Move P k.core _ :=
      .enter k.core index task.ident hcpu (ident_getElem? htask) hgroup
    convert single hmove using 1
    simp only [seated, core, setParked, eraseIdx_map, hgroup]
    rfl
  | swap _ _ hcpu htask _ hgroup hfound =>
    have hmoves := moves_swap (P := P) hcpu htask hgroup
    rwa [if_pos hfound] at hmoves
  | missing _ _ hcpu htask hgroup hfound =>
    have hmoves := moves_swap (P := P) hcpu htask hgroup
    rwa [hfound, if_neg (by decide)] at hmoves
  | skipPid => exact .single (.skipPid k.core)
  | clone spec hcpu => exact moves_clone k spec hcpu
  | reap htake returned =>
    obtain ⟨before, after, hz, hcore⟩ := takeZombie_spec htake
    have hmove : Move P k.core _ := .reap k.core before after _ returned hz
    convert single hmove using 1
    simp only [core, Core.mk.injEq] at hcore ⊢
    tauto
  | exitThread _ hcpu hpid => exact .single (.exitThread k.core hcpu hpid)
  | exitLeader status hdeadly hcpu hpid hroot hlone =>
    -- a lone exit is made by the task that was running when the event began
    have hpid₀ : k₀.proc.pid = k₀.proc.tgid := by
      have := congrArg Ident.pid hlone.proc
      have := congrArg Ident.tgid hlone.proc
      simp only [core, Process.ident] at *
      omega
    have hroot₀ : k₀.proc.tgid ≠ ROOT_PID :=
      fun h => hroot ((congrArg Ident.tgid hlone.proc).trans h)
    have hP := halone hlone.exits hpid₀ hroot₀
    rw [← hlone.proc, ← hlone.parked] at hP
    have hmove : Move P k.core _ := .exitLeader k.core hcpu hpid hP
    convert single hmove using 1
    simp only [gone, sweep, pushZombie, core, map_append, map_cons, map_nil]
    rfl
  | exitGroup status hdeadly hcpu =>
    have hmove : Move P k.core _ := .exitGroup k.core hcpu
    convert single hmove using 1
    -- the siblings are gone before the zombie is recorded
    have hcore := (core_pushZombie k.killSiblings ⟨k.proc.tgid, k.proc.ppid, status⟩)
    rw [core_killSiblings] at hcore
    simp only [gone, sweep, core, Core.mk.injEq] at hcore ⊢
    tauto
  | halt group _ _ hcpu =>
    have hmove : Move P k.core _ := .halt k.core group hcpu
    convert single hmove using 1
    cases group with
    | false => rfl
    | true => exact congrArg (fun c : Core M => { c with onCpu := false }) k.core_killSiblings
  | kill target _ hcpu hother _ hcore =>
    rw [hcore]
    exact .single (.kill k.core target hcpu hother)

end Act

variable {P : Ident → List Ident → Prop} {call : Call M}

namespace Reaches

variable {d : Prop} {k₀ k k' : Kernel M} {e : Event M}

lemma acts (h : Reaches d k₀ e k) : ∀ cell s a, k.heap.sigactions cell s = some a →
    ∃ cell', k₀.heap.sigactions cell' s = some a := by
  induction h with
  | refl => exact fun cell _ _ ha => ⟨cell, ha⟩
  | tail _ hact ih =>
    intro cell s a ha
    obtain ⟨cell', ha'⟩ := hact.acts cell s a ha
    exact ih cell' s a ha'

lemma tasks (h : Reaches d k₀ e k) :
    ∀ p' ∈ k.liveTasks, ∃ p ∈ k₀.liveTasks, TaskMoves k₀ e p p' := by
  induction h with
  | refl => exact fun p hp => ⟨p, hp, .refl⟩
  | tail _ hact ih =>
    intro p'' hp''
    obtain ⟨p', hp', hmoves'⟩ := hact.tasks p'' hp''
    obtain ⟨p, hp, hmoves⟩ := ih p' hp'
    exact ⟨p, hp, hmoves.trans hmoves'⟩

lemma awake (h : Reaches d k₀ e k) (hawake : k₀.Awake) : k.Awake := by
  induction h with
  | refl => exact hawake
  | tail _ hact ih => exact hact.awake ih

lemma died (h : Reaches False k₀ e k) : k.died = k₀.died := by
  induction h with
  | refl => rfl
  | tail _ hact ih => exact hact.died.trans ih

lemma nextPid_le (h : Reaches d k₀ e k) : k.sched.nextPid ≤ k₀.sched.nextPid + 1 := by
  induction h with
  | refl => exact Nat.le_succ _
  | tail _ hact ih => exact hact.nextPid_le ih

lemma moves (h : Reaches d k₀ e k)
    (halone : k₀.Exits e → k₀.proc.pid = k₀.proc.tgid → k₀.proc.tgid ≠ ROOT_PID →
      P k₀.core.proc k₀.core.parked)
    : Moves P k₀.core k.core := by
  induction h with
  | refl => exact .refl
  | tail _ hact ih => exact ih.trans (hact.moves halone)

/-! ### Scheduling -/

lemma act (h : Reaches d k₀ e k) (hact : Act d k₀ e k k') : Reaches d k₀ e k' := h.tail hact

lemma stay (h : Reaches d k₀ e k) (hlocal : Local k₀ e k k') : Reaches d k₀ e k' :=
  h.act (.stay hlocal)

lemma deliverSignal (h : Reaches d k₀ e k) (hcpu : k.onCpu) :
    Reaches d k₀ e k.deliverSignal := by
  obtain ⟨signals, hscan⟩ := scanned_handler (k.actsOf k.proc) allSignals k.proc
  have hconsumed : Local k₀ e k { k with proc := { k.proc with pendingSignals := signals } } :=
    .run rfl (.single (.pending _ _)) rfl
  rw [Kernel.deliverSignal]
  cases hpick : scanHandler (k.actsOf k.proc) allSignals k.proc with
  | mk picked p =>
    rw [hpick] at hscan
    dsimp only at hscan
    subst hscan
    cases picked with
    | none => exact h.stay hconsumed
    | some picked =>
      obtain ⟨sig, a⟩ := picked
      -- the handler was set before the event: acts bring no new disposition
      obtain ⟨hsig, ha⟩ := scanHandler_picked _ (congrArg Prod.fst hpick)
      obtain ⟨cell, hcell⟩ := h.acts _ _ _ ha
      have hwritten := (h.stay hconsumed).act
        (.memory _ (fun m => GuestMem.signalFrame m sig) hcpu)
      dsimp only
      split
      · exact hwritten.stay (.run rfl (.single (.handler _ hsig hcell)) rfl)
      · exact hwritten

/-- A task takes the CPU, and may then enter a signal handler. -/
lemma enter (h : Reaches d k₀ e (k.seated task)) :
    Reaches d k₀ e (k.enter task) := by
  rw [Kernel.enter]
  split
  · exact h.deliverSignal rfl
  · exact h

section

variable (h : Reaches d k₀ e k)
include h

/-- The task that is ready takes the CPU, with its address space. -/
lemma switchTo (hcpu : k.onCpu = false) (hready : k.sched.findReady k.heap k.now = some index) :
    Reaches d k₀ e (k.switchTo index).2 := by
  obtain ⟨hi, hrunnable, -⟩ := List.findIdx?_eq_some_iff_getElem.mp hready
  obtain ⟨task, htask⟩ : ∃ task, k.sched.parked[index] = task := ⟨_, rfl⟩
  have hawake : task.proc.stopped = false := by
    rw [htask, Scheduler.runnable, Bool.and_eq_true, Bool.not_eq_true'] at hrunnable
    exact hrunnable.1
  replace htask := List.getElem?_eq_some_iff.mpr ⟨hi, htask⟩
  rw [Kernel.switchTo, htask]
  dsimp only
  split
  · rename_i hgroup
    split <;> rename_i k' heq
    · have hswap : Act d k₀ e k _ := .swap k index task hcpu htask hawake hgroup (by rw [heq])
      rw [heq] at hswap
      exact (h.act hswap).enter
    have hmissing : Act d k₀ e k _ := .missing k index task hcpu htask hgroup (by rw [heq])
    rw [heq] at hmissing
    exact h.act hmissing
  · rename_i hgroup
    exact (h.act (.enter k index task hcpu htask hawake (not_not.mp hgroup))).enter

lemma scheduleNext (hcpu : k.onCpu = false) :
    Reaches d k₀ e k.scheduleNext.2 := by
  rw [Kernel.scheduleNext]
  split
  · rename_i hready
    exact h.switchTo hcpu hready
  have hstall := Local.resolveStall k₀ e k
  split <;> rename_i heq <;> rw [heq] at hstall
  · exact (h.stay hstall).switchTo ((congrArg Core.onCpu hstall.core).trans hcpu)
      (resolveStall_ready heq)
  · exact h.stay hstall

lemma yieldCpu (hcpu : k.onCpu = false) : Reaches d k₀ e k.yieldCpu.2 := by
  have hnext := h.scheduleNext hcpu
  rw [Kernel.yieldCpu]
  split <;> rename_i heq <;> rw [heq] at hnext
  · exact hnext
  · exact hnext.stay (.stallOutcome k₀ e _)

/-- The task on the CPU is parked and another one runs. -/
lemma blockAndSwitch (hcpu : k.onCpu) (state : ParkState) :
    Reaches d k₀ e (k.blockAndSwitch state).2 := by
  have hparked := h.act (.park k state hcpu rfl .refl (fun t ht => ⟨t, ht, .refl⟩)
    (fun cell _ _ ha => ⟨cell, ha⟩) le_rfl)
  exact hparked.yieldCpu rfl

/-- The whole group stops, and its parent is told. -/
lemma stopThreadGroup (hcpu : k.onCpu) (signal : ℕ) (hstop : k₀.stopOf e = some k.proc.tgid)
    : Reaches d k₀ e (k.stopThreadGroup signal).2 := by
  -- the threads of the group are marked first, then the caller is parked
  have hmarked : Tasks k₀ e k.sched.parked (k.markStopped signal).sched.parked := by
    refine Tasks.map fun t => ?_
    split
    · rename_i htgid
      rw [← htgid] at hstop ⊢
      exact ⟨rfl, .single (.stop t.proc signal hstop)⟩
    · exact ⟨rfl, .refl⟩
  have hcore : (k.markStopped signal).core = k.core := by
    simp only [core, hmarked.idents]
    rfl
  have htold := Local.notifyParentSigchld k₀ e (k.markStopped signal)
    (k.markStopped signal).proc.ppid
  refine (h.act (.park _ .ready hcpu (htold.core.trans hcore) ?_ ?_ htold.acts
    htold.now)).yieldCpu rfl
  · exact .head (.stop k.proc signal hstop) htold.proc
  intro t'' ht''
  obtain ⟨t', ht', hmoves'⟩ := htold.parked t'' ht''
  obtain ⟨t, ht, hmoves⟩ := hmarked.mem ht'
  exact ⟨t, ht, hmoves.trans hmoves'⟩

/-! ### Ending, creating and replacing tasks -/

/-- The scheduler is the same after the waiters of a task were released; only the memory of the
task has changed. -/
lemma releaseWaiters (hcpu : k.onCpu) :
    Reaches d k₀ e k.releaseWaiters ∧ ∃ f, k.releaseWaiters.core = k.core.touched f := by
  have hparent := Local.releaseParent k₀ e k
  have hcpu' := (congrArg Core.onCpu hparent.core).trans hcpu
  rw [Kernel.releaseWaiters, ← hparent.core]
  split
  · have hwake := Local.futexWake k₀ e
      (k.releaseParent.writeMem k.releaseParent.proc.clearChildTid [0, 0, 0, 0]).2
      k.releaseParent.proc.clearChildTid (2 ^ 64 - 1)
    exact ⟨((h.stay hparent).act (.memory _ _ hcpu')).stay hwake,
      fun m => (GuestMem.writeMem m k.releaseParent.proc.clearChildTid [0, 0, 0, 0]).1, hwake.core⟩
  · exact ⟨h.stay hparent, id, (Core.touched_id _).symm⟩

end

lemma leave (h : Reaches d k₀ e k.gone) (reported : Bool) :
    Reaches d k₀ e (k.leave reported).2 := by
  rw [Kernel.leave]
  cases reported with
  | true =>
    have htold := Local.notifyParentSigchld k₀ e k.gone k.proc.ppid
    exact (h.stay htold).yieldCpu (congrArg Core.onCpu htold.core)
  | false => exact h.yieldCpu rfl

/-- **`task_exit`**: a thread that is not the leader goes silently, a leader leaves its
threads behind when it exits by itself, and otherwise the whole group goes. -/
lemma taskExit (hd : d) (h : Reaches d k₀ e k) (hcpu : k.onCpu) (status : ℕ)
    {exitGroup : Bool} (hlone : exitGroup = false → Lone k₀ e k) :
    Reaches d k₀ e (k.taskExit status exitGroup).2 := by
  obtain ⟨hwaiters, f, hcore⟩ := h.releaseWaiters hcpu
  have hcpu' : k.releaseWaiters.onCpu := (congrArg Core.onCpu hcore).trans hcpu
  replace hlone : exitGroup = false → Lone k₀ e k.releaseWaiters := fun hplain =>
    ⟨(hlone hplain).exits, (congrArg Core.proc hcore).trans (hlone hplain).proc,
      (congrArg Core.parked hcore).trans (hlone hplain).parked⟩
  rw [Kernel.taskExit]
  generalize k.releaseWaiters = k' at *
  cases exitGroup with
  | true =>
    simp only [if_true, Bool.true_or, and_true]
    split
    · exact hwaiters.act (.halt k' true _ hd hcpu')
    · exact (hwaiters.act (.exitGroup k' status hd hcpu')).leave true
  | false =>
    simp only [Bool.false_eq_true, if_false, Bool.false_or, beq_iff_eq]
    split
    · exact hwaiters.act (.halt k' false _ hd hcpu')
    rename_i hroot
    -- a leader leaves a zombie behind, any other thread does not
    by_cases hpid : k'.proc.pid = k'.proc.tgid
    · rw [if_pos hpid, beq_iff_eq.mpr hpid]
      have hexit := hwaiters.act (.exitLeader k' status hd hcpu' hpid
        (fun h => hroot ⟨h, hpid⟩) (hlone rfl))
      exact hexit.leave true
    · rw [if_neg hpid]
      exact (hwaiters.act (.exitThread k' hd hcpu' hpid)).leave _

lemma spawn (h : Reaches d k₀ e k) (hcpu : k.onCpu)
    (hpid : k.sched.nextPid = k₀.sched.nextPid) (hborn : k₀.Bears e k.proc) (spec : CloneSpec) :
    Reaches d k₀ e (k.takePid.spawn spec k.sched.nextPid).2 := by
  have hchild := h.act (.clone k spec hcpu hpid hborn)
  obtain ⟨child, hbred⟩ := k.takePid.enqueueChild_bred spec k.sched.nextPid
  have hrun := hbred.onCpu.trans hcpu
  rw [Kernel.spawn]
  split <;> rename_i heq <;> rw [heq] at hchild hrun
  · exact hchild.blockAndSwitch hrun _
  · exact hchild

/-- A clone that cannot write the id for its parent only takes a number. -/
lemma sysCloneImpl (h : Reaches d k₀ e k) (hcpu : k.onCpu)
    (hpid : k.sched.nextPid = k₀.sched.nextPid) (hborn : k₀.Bears e k.proc) (spec : CloneSpec) :
    Reaches d k₀ e (k.sysCloneImpl spec).2 := by
  have hwrite := h.act (.memory k (fun m =>
    GuestMem.writeMem m spec.parentTid (le32 k.sched.nextPid)) hcpu)
  rw [Kernel.sysCloneImpl]
  dsimp only
  split
  · rw [writeMem]
    split <;> rename_i k' heq <;> have hk' := (Prod.ext_iff.mp heq).2
    · exact hk' ▸ hwrite.act (.skipPid _ hpid)
    -- the number is given out before the write, which does not see it
    dsimp only at hk'
    subst hk'
    exact hwrite.spawn hcpu hpid hborn spec
  · exact h.spawn hcpu hpid hborn spec

lemma sysExecve (hd : d) (h : Reaches d k₀ e k) (hcpu : k.onCpu) (image : M)
    (loaded : Bool) : Reaches d k₀ e (k.sysExecve image loaded).2 := by
  have hdiscarded := (Local.releaseParent k₀ e k).trans (.discardImage k₀ e _)
  have hcpu' := (congrArg Core.onCpu hdiscarded.core).trans hcpu
  have himage := (h.stay hdiscarded).act (.memory _ (fun _ => (image, true)) hcpu')
  rw [Kernel.sysExecve]
  split
  · exact himage
  · exact himage.taskExit hd hcpu' _ (by simp)

/-! ### Waiting and killing -/

/-- `wait4` without a zombie: a stop is reported, or the caller waits. -/
lemma waitForChild (h : Reaches d k₀ e k) (hcpu : k.onCpu) (filter : ℤ)
    (statusPtr options : ℕ) : Reaches d k₀ e (k.waitForChild filter statusPtr options).2 := by
  have htaken : Local k₀ e k { k with sched := (if options &&& WUNTRACED != 0 then
      k.sched.takeStopReport k.proc.tgid filter else (none, k.sched)).2 } := by
    split
    · exact .takeStopReport k₀ e k _ _
    · exact .refl k₀ e k
  rw [Kernel.waitForChild]
  generalize (if options &&& WUNTRACED != 0 then
      k.sched.takeStopReport k.proc.tgid filter else (none, k.sched)) = taken at *
  obtain ⟨report, sched⟩ := taken
  have htaken' := h.stay htaken
  cases report with
  -- the report is taken, and only then its status is written
  | some report =>
    obtain ⟨pid, sig⟩ := report
    have hwrite := htaken'.act (.memory _ (fun m =>
      GuestMem.writeMem m statusPtr (le32 (sig * 256 + 0x7f))) hcpu)
    dsimp only
    rw [reportStatus]
    split
    · rw [writeMem]
      split <;> rename_i heq <;> rw [heq] at hwrite <;> exact hwrite
    · exact htaken'
  | none =>
    dsimp only
    split
    · exact htaken'
    split
    · exact htaken'
    · exact htaken'.blockAndSwitch hcpu _

lemma sysWait4 (h : Reaches d k₀ e k) (hcpu : k.onCpu) (pid : ℤ) (statusPtr options : ℕ) :
    Reaches d k₀ e (k.sysWait4 pid statusPtr options).2 := by
  rw [Kernel.sysWait4]
  split
  · rename_i zombie sched htake
    -- the copy of the status neither sees the zombies nor what was returned
    have hwrite := h.act (.memory k (fun m =>
      GuestMem.writeMem m statusPtr (le32 zombie.status)) hcpu)
    have hreap (returned : Bool) :=
      hwrite.act (.reap (k.touch fun m => GuestMem.writeMem m statusPtr (le32 zombie.status)).2
        htake returned)
    rw [reportStatus]
    split
    · rw [writeMem]
      split <;> rename_i k' heq <;> have hk' := (Prod.ext_iff.mp heq).2 <;> dsimp only at hk'
      · exact hk' ▸ hreap true
      · exact hk' ▸ hreap false
    · exact h.act (.reap k htake true)
  · exact h.waitForChild hcpu _ _ _

/-- `kill` of several groups, one after the other. -/
lemma killOne (hd : d) (signal : ℕ) : ∀ (targets : List ℕ) (found : Bool) {k : Kernel M},
    Reaches d k₀ e k → k.onCpu → (∀ g ∈ targets, g ≠ k.core.proc.tgid) →
    Reaches d k₀ e (targets.foldl (Kernel.killOne signal) (found, k)).2
  | [], _, _, h, _, _ => h
  | g :: targets, found, k, h, hcpu, hother => by
      have hone : Reaches d k₀ e (Kernel.killOne signal (found, k) g).2 ∧
          (Kernel.killOne signal (found, k) g).2.onCpu ∧
          (Kernel.killOne signal (found, k) g).2.core.proc = k.core.proc := by
        rw [Kernel.killOne]
        dsimp only
        split
        · have hcore := k.core_killGroup g signal
          refine ⟨h.act (.kill g hd hcpu (hother g mem_cons_self) (.killGroup k g signal)
            hcore), (congrArg Core.onCpu hcore).trans hcpu, by rw [hcore]⟩
        have hlocal := Local.signalProcess k₀ e k g signal
        exact ⟨h.stay hlocal, (congrArg Core.onCpu hlocal.core).trans hcpu,
          congrArg Core.proc hlocal.core⟩
      obtain ⟨hone, hcpu', hproc⟩ := hone
      rw [foldl_cons]
      generalize Kernel.killOne signal (found, k) g = result at *
      obtain ⟨found', k'⟩ := result
      refine killOne hd signal targets found' hone hcpu' fun g' hg' => ?_
      rw [hproc]
      exact hother g' (mem_cons_of_mem _ hg')

variable {signal : ℕ}

section

variable (hd : d) (h : Reaches d k₀ e k) (hcpu : k.onCpu)
include hd h hcpu

/-- A signal to the caller: kept, ignored, handled, or its default. -/
lemma killSelf (hstop : k.selfStops signal → k₀.stopOf e = some k.proc.tgid) :
    Reaches d k₀ e (k.killSelf signal).2 := by
  -- the default action, whether the handler is unset or set to it
  have hdefault (hfree : k.proc.sigmask &&& signalBit signal = 0)
      (hacts : ((k.actsOf k.proc signal).map (·.handler)).getD SIG_DFL = SIG_DFL) :
      Reaches d k₀ e (k.defaultAction signal).2 := by
    rw [defaultAction]
    split
    · exact h.taskExit hd hcpu _ (by simp)
    rename_i hterminates
    split
    · rename_i hstops
      refine h.stopThreadGroup hcpu _ (hstop ?_)
      simp [selfStops, hfree, hacts, hterminates, hstops]
    · exact h
  have hraised : Reaches d k₀ e { k with proc := k.proc.raise signal } :=
    h.stay (.run rfl (Tasks.raised k₀ e _ signal) rfl)
  rw [Kernel.killSelf]
  split
  · exact hraised
  rename_i hblocked
  have hfree : k.proc.sigmask &&& signalBit signal = 0 := by simpa using hblocked
  split
  · rename_i a ha
    split
    · exact h
    split
    · exact hraised.deliverSignal hcpu
    · rename_i hhandler
      exact hdefault hfree (by simpa [ha] using hhandler)
  · rename_i ha
    exact hdefault hfree (by simp [ha])

lemma sysKill (hstop : k.callStops (.kill target signal) → k₀.stopOf e = some k.proc.tgid)
    (hcont : ∀ p, ¬ (target = k.proc.tgid ∨ target = k.proc.pid) → k.inJob target p →
      signal = SIGCONT → k₀.continues e p) :
    Reaches d k₀ e (k.sysKill target signal).2 := by
  rw [Kernel.sysKill]
  split
  · exact h
  rename_i hrange
  split
  · exact h
  rename_i hzero
  split
  · rename_i hself
    refine h.killSelf hd hcpu fun hstops => hstop ?_
    rw [callStops, hstops, Bool.and_true, decide_eq_true_iff]
    exact ⟨not_lt.mp hrange, hzero, hself⟩
  rename_i hself
  split
  · exact h.stay (.killJobControl fun p hjob hsignal => hcont p hself hjob hsignal)
  split
  · exact h
  rename_i tgids hvictims
  exact killOne hd signal tgids _ h hcpu fun g hg =>
    ne_of_mem_victims hvictims (fun h => hself (.inl h)) hg

lemma sysRtSigprocmask {mask : UInt64} (hcalled : e = .syscall (.sigprocmask mask))
    (hstop : k.callStops (.sigprocmask mask) → k₀.stopOf e = some k.proc.tgid) :
    Reaches d k₀ e (k.sysRtSigprocmask mask).2 := by
  have hmasked : Local k₀ e k { k with proc := { k.proc with sigmask := mask } } :=
    .run rfl (.single (.mask k.proc mask hcalled)) rfl
  have hacted := hmasked.trans (.pendingSignalAction k₀ e _)
  rw [callStops] at hstop
  rw [Kernel.sysRtSigprocmask]
  generalize ({ k with proc := { k.proc with sigmask := mask } } : Kernel M).pendingSignalAction
    = acted at *
  obtain ⟨action, k'⟩ := acted
  have hcpu' : k'.onCpu := (congrArg Core.onCpu hacted.core).trans hcpu
  have hgroup : k'.proc.tgid = k.proc.tgid := congrArg (fun c => c.proc.tgid) hacted.core
  cases action with
  | terminate sig => exact (h.stay hacted).taskExit hd hcpu' _ (by simp)
  | stop sig => exact (h.stay hacted).stopThreadGroup hcpu' _ (hgroup ▸ hstop rfl)
  | handler => exact (h.stay hacted).deliverSignal hcpu'
  | none => exact h.stay hacted

end

/-- What a call that is carried out does.  The calls of other kinds are apart. -/
lemma dispatch (hd : d) (hcall : k₀.dispatched (.syscall call) = some (call, k))
    (h : Reaches d k₀ (.syscall call) k) (hcore : k.core = k₀.core) (hcpu₀ : k₀.onCpu)
    (hexits : ∀ code, call = .exit code → k₀.Exits (.syscall call))
    (hother : ∀ memory objects task tasks, call ≠ .other memory objects task tasks) :
    Reaches d k₀ (.syscall call) (k.dispatch call).2 := by
  have hcpu : k.onCpu := (congrArg Core.onCpu hcore).trans hcpu₀
  -- a call that stops a group stops that of its own task
  have hstop (hstops : k.callStops call) :
      k₀.stopOf (.syscall call) = some k.proc.tgid := by
    unfold stopOf
    rw [hcall]
    exact if_pos hstops
  cases call with
  | exit code =>
    exact h.taskExit hd hcpu _ fun _ =>
      ⟨hexits code rfl, congrArg Core.proc hcore, congrArg Core.parked hcore⟩
  | exitGroup => exact h.taskExit hd hcpu _ (by simp)
  | clone spec =>
    exact h.sysCloneImpl hcpu (congrArg Core.nextPid hcore)
      ⟨hcpu₀, congrArg (fun c => c.proc.tgid) hcore, spec, rfl⟩ spec
  | execve image loaded => exact h.sysExecve hd hcpu image loaded
  | wait4 pid statusPtr options => exact h.sysWait4 hcpu pid statusPtr options
  | kill =>
    refine h.sysKill hd hcpu hstop fun p hself hjob hsignal => ?_
    rw [continues, hcall]
    simp [hself, hjob, hsignal]
  | futexWake addr count => exact h.stay (.futexWake _ _ k addr count)
  | sigprocmask => exact h.sysRtSigprocmask hd hcpu rfl hstop
  | sched_yield =>
    rw [Kernel.dispatch, sysYield]
    split
    · exact h
    · exact h.blockAndSwitch hcpu _
  | block state => exact h.blockAndSwitch hcpu state
  | ttyStop signal =>
    -- the group is told first, and the signal is consumed before its task stops
    have htold := Local.deliverSignalToPgrp k₀ (.syscall (.ttyStop signal)) k k.proc.pgid signal
    rw [Kernel.dispatch]
    generalize k.deliverSignalToPgrp k.proc.pgid signal = k' at *
    have hconsumed : Local k₀ (.syscall (.ttyStop signal)) k'
        { k' with proc := k'.proc.consume signal } := .run rfl (.single (.pending k'.proc _)) rfl
    refine ((h.stay htold).stay hconsumed).stopThreadGroup ?_ _ ?_
    · exact (congrArg Core.onCpu htold.core).trans hcpu
    · rw [hstop rfl]
      exact congrArg (fun c => some c.proc.tgid) htold.core.symm
  | other memory objects task tasks => exact absurd rfl (hother memory objects task tasks)

lemma resume (h : Reaches d k₀ e k) (hcpu : k.onCpu = false) : Reaches d k₀ e k.resume := by
  rw [Kernel.resume]
  split
  · have hflags : Local k₀ e k { k with terminalInputWait := false, networkWait := false } :=
      .quiet rfl rfl rfl rfl le_rfl
    have hnext := (h.stay hflags).scheduleNext hcpu
    split <;> rename_i heq <;> rw [heq] at hnext
    · exact hnext
    dsimp only
    split
    · exact hnext.stay (.quiet rfl rfl rfl rfl le_rfl)
    split
    · exact hnext.stay (.quiet rfl rfl rfl rfl le_rfl)
    · exact hnext
  · exact h

end Reaches

/-! ### Whole events -/

omit [GuestMem M] in
/-- A call of another kind leaves job control alone: nothing but `stop_thread_group`, SIGCONT
and `wait4` writes the fields of a stop. -/
def KeepsStops (e : Event M) : Prop :=
  ∀ memory objects task tasks, e = .syscall (.other memory objects task tasks) →
    (∀ p : Process, (task p).stopped = p.stopped ∧ (task p).stopReport = p.stopReport) ∧
      ∀ (t : ParkedTask) (p : Process),
        (tasks t p).stopped = p.stopped ∧ (tasks t p).stopReport = p.stopReport

/-- How an event that makes a call goes on. -/
lemma handle_cases (hcpu : k.onCpu) (call : Call M) :
    (∃ sig, k.pendingSignalAction.1 = .terminate sig ∧ k.dispatched (.syscall call) = none ∧
      k.handle call = k.pendingSignalAction.2.taskExit sig true) ∨
    (∃ sig, k.pendingSignalAction.1 = .stop sig ∧ k.dispatched (.syscall call) = none ∧
      k.handle call = k.pendingSignalAction.2.stopThreadGroup sig) ∨
    (k.dispatched (.syscall call) = some (call, k.pendingSignalAction.2) ∧
      k.handle call = k.pendingSignalAction.2.dispatch call) := by
  rw [handle, dispatched, hcpu]
  generalize k.pendingSignalAction = acted
  obtain ⟨action, k'⟩ := acted
  cases action with
  | terminate sig => exact .inl ⟨sig, rfl, rfl, rfl⟩
  | stop sig => exact .inr (.inl ⟨sig, rfl, rfl, rfl⟩)
  | handler | none => exact .inr (.inr ⟨rfl, rfl⟩)

variable {e : Event M}

/-- An event whose call is carried out. -/
lemma dispatched_eq (h : k.dispatched e = some (call, k')) :
    k.onCpu ∧ e = .syscall call ∧ k' = k.pendingSignalAction.2 ∧
      k.step e = (k'.dispatch call).2 := by
  cases e with
  | syscall call =>
    cases hcpu : k.onCpu with
    | false =>
      rw [dispatched, hcpu] at h
      cases h
    | true =>
      rcases handle_cases hcpu call with ⟨_, _, hnone, -⟩ | ⟨_, _, hnone, -⟩ | ⟨hsome, heq⟩
      · cases hnone.symm.trans h
      · cases hnone.symm.trans h
      cases hsome.symm.trans h
      rw [step, if_pos hcpu]
      exact ⟨rfl, rfl, rfl, congrArg Prod.snd heq⟩
  | guest | input | network | expireNetworkWait | resizeTerminal | resume => cases h

/-- A call is carried out, or a pending signal ends or stops its caller before it. -/
lemma syscall_cases (k : Kernel M) (call : Call M) :
    Reaches True k (.syscall call) (k.step (.syscall call)) ∨
      (k.onCpu = true ∧
        k.dispatched (.syscall call) = some (call, k.pendingSignalAction.2) ∧
        k.step (.syscall call) = (k.pendingSignalAction.2.dispatch call).2) := by
  have hacted := Local.pendingSignalAction k (.syscall call) k
  have h : Reaches True k (.syscall call) k.pendingSignalAction.2 := .stay .refl hacted
  rw [step]
  split
  · rename_i hcpu
    have hrun := (congrArg Core.onCpu hacted.core).trans hcpu
    rcases handle_cases hcpu call with
      ⟨sig, -, -, heq⟩ | ⟨sig, hsig, hnone, heq⟩ | ⟨hcall, heq⟩ <;> rw [heq]
    · exact .inl (h.taskExit trivial hrun _ (by simp))
    · refine .inl (h.stopThreadGroup hrun _ ?_)
      unfold stopOf
      rw [hnone, hcpu, hsig]
      exact congrArg (fun c => some c.proc.tgid) hacted.core.symm
    · exact .inr ⟨hcpu, hcall, rfl⟩
  · exact .inl .refl

/-- **Every event is a sequence of acts**, apart from the calls of other kinds. -/
theorem step_reaches (k : Kernel M) (e : Event M)
    (hother : ∀ memory objects task tasks, e ≠ .syscall (.other memory objects task tasks)) :
    Reaches True k e (k.step e) := by
  have h : Reaches True k e k := .refl
  cases e with
  | guest memory ticks =>
    rw [step]
    split
    · rename_i hcpu
      refine (h.act (.memory k (fun m => (memory m, true)) hcpu)).stay (.quiet rfl rfl rfl rfl ?_)
      exact Nat.add_le_add_right (Nat.le_add_right _ _) _
    · exact h
  | syscall call =>
    rcases k.syscall_cases call with hstep | ⟨hcpu, hcall, heq⟩
    · exact hstep
    have hacted := Local.pendingSignalAction k (.syscall call) k
    rw [heq]
    refine (h.stay hacted).dispatch trivial hcall hacted.core hcpu (fun code hexit => ?_)
      fun memory objects task tasks hc => hother memory objects task tasks (hc ▸ rfl)
    -- a signal that ends or stops the task would have kept it from its call
    refine ⟨hcpu, ⟨code, hexit ▸ rfl⟩, fun sig => ?_⟩
    rw [dispatched, hcpu] at hcall
    constructor <;> intro hsig <;>
      rw [← Prod.eta k.pendingSignalAction, hsig] at hcall <;> cases hcall
  | input | network | expireNetworkWait => exact h.stay (.quiet rfl rfl rfl rfl le_rfl)
  | resizeTerminal => exact h.stay (.deliverSignalToPgrp _ _ k _ _)
  | resume =>
    rw [step]
    split
    · exact h
    · rename_i hcpu
      exact h.resume (by simpa using hcpu)

/-- Every event is a sequence of acts, or a call of another kind that is carried out. -/
lemma step_cases (k : Kernel M) (e : Event M) :
    Reaches True k e (k.step e) ∨ ∃ memory objects task tasks, k.onCpu ∧
      e = .syscall (.other memory objects task tasks) ∧
      k.step e = (k.pendingSignalAction.2.dispatch (.other memory objects task tasks)).2 := by
  by_cases hother : ∃ memory objects task tasks, e = .syscall (.other memory objects task tasks)
  · obtain ⟨memory, objects, task, tasks, rfl⟩ := hother
    rcases k.syscall_cases (.other memory objects task tasks) with hstep | ⟨hcpu, -, heq⟩
    · exact .inl hstep
    · exact .inr ⟨memory, objects, task, tasks, hcpu, rfl, heq⟩
  · exact .inl (k.step_reaches e fun memory objects task tasks h =>
      hother ⟨memory, objects, task, tasks, h⟩)

/-- **Every event is a sequence of moves**, whatever leaders may leave behind. -/
theorem step_moves (k : Kernel M) (e : Event M)
    (halone : ∀ code, e = .syscall (.exit code) → k.onCpu →
      (∀ sig, k.pendingSignalAction.1 ≠ .terminate sig ∧ k.pendingSignalAction.1 ≠ .stop sig) →
      k.proc.pid = k.proc.tgid → k.proc.tgid ≠ ROOT_PID → P k.core.proc k.core.parked) :
    Moves P k.core (k.step e).core := by
  rcases k.step_cases e with hstep | ⟨memory, objects, task, tasks, hcpu, rfl, heq⟩
  · exact hstep.moves fun ⟨hcpu, ⟨code, he⟩, hsig⟩ => halone code he hcpu hsig
  have hcore := k.core_pendingSignalAction
  rw [heq, ← hcore]
  generalize k.pendingSignalAction.2 = k' at *
  have hcpu' := (congrArg Core.onCpu hcore).trans hcpu
  refine .trans (.single (.touch k'.core memory hcpu')) ?_
  have hother : (k'.dispatch (.other memory objects task tasks)).2.core
      = k'.core.touched memory := by
    simp only [dispatch, core, setParked, List.map_map]
    rfl
  rw [hother]

/-- **A run of `n` events gives out at most `n` process numbers.** -/
theorem nextPid_run_le (k : Kernel M) (es : List (Event M)) :
    (Lib.run step k es).sched.nextPid ≤ k.sched.nextPid + es.length := by
  have hstep : ∀ (k : Kernel M) e, (k.step e).sched.nextPid ≤ k.sched.nextPid + 1 := by
    intro k e
    rcases k.step_cases e with hstep | ⟨_, _, _, _, -, -, heq⟩
    · exact hstep.nextPid_le
    rw [heq]
    exact (congrArg Core.nextPid k.core_pendingSignalAction).trans_le (Nat.le_succ _)
  induction es generalizing k with
  | nil => exact le_rfl
  | cons e es ih =>
    have hrest := ih (k.step e)
    have hone := hstep k e
    rw [Lib.run_cons, length_cons]
    omega

/-- **Every task after an event comes from one before**, by the changes the event allows. -/
theorem step_tasks (k : Kernel M) (e : Event M) :
    ∀ p' ∈ (k.step e).liveTasks, ∃ p ∈ k.liveTasks, TaskMoves k e p p' := by
  -- a call of another kind changes tasks as it likes, after the pending signals
  rcases k.step_cases e with hstep | ⟨memory, objects, task, tasks, hcpu, rfl, heq⟩
  · exact hstep.tasks
  have hacted : Reaches True k (.syscall (.other memory objects task tasks))
      k.pendingSignalAction.2 := .stay .refl (.pendingSignalAction _ _ k)
  intro p' hp'
  rw [heq] at hp'
  rcases mem_liveTasks.mp hp' with ⟨hrun, rfl⟩ | ⟨t', ht', rfl⟩
  · obtain ⟨p, hp, hmoves⟩ := hacted.tasks _ (mem_liveTasks.mpr (.inl ⟨hrun, rfl⟩))
    exact ⟨p, hp, hmoves.tail (.other _ rfl)⟩
  obtain ⟨t, ht, rfl⟩ := List.mem_map.mp ht'
  obtain ⟨p, hp, hmoves⟩ := hacted.tasks _ (mem_liveTasks.mpr (.inr ⟨t, ht, rfl⟩))
  exact ⟨p, hp, hmoves.tail (.others _ t rfl)⟩

/-- What holds of every task and survives the changes of an event holds after it. -/
lemma step_forall {Inv : Process → Prop} (hmove : ∀ p p', TaskMove k e p p' → Inv p → Inv p')
    (h : ∀ p ∈ k.liveTasks, Inv p) :
    ∀ p ∈ (k.step e).liveTasks, Inv p := by
  intro p' hp'
  obtain ⟨p, hp, hmoves⟩ := k.step_tasks e p' hp'
  clear hp'
  induction hmoves with
  | refl => exact h p hp
  | tail _ hlast ih => exact hmove _ _ hlast ih

/-- **A stopped task is not on the CPU**: whoever the scheduler puts there is awake. -/
theorem step_awake (h : k.Awake) (hkeeps : KeepsStops e) :
    (k.step e).Awake := by
  rcases k.step_cases e with hstep | ⟨memory, objects, task, tasks, hcpu, rfl, heq⟩
  · exact hstep.awake h
  have hacted := (Local.pendingSignalAction k .resume k).stopped
  rw [heq]
  intro hrun
  exact ((hkeeps memory objects task tasks rfl).1 _).1.trans (hacted.trans (h hcpu))

end

end Kernel

end WebTos.Proc
