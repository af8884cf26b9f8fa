import WebTos.Proc.Switch

/-!
What the calls of `Switch` can do, as a small abstract scheduler.

* `Core`: who is running, who is parked, who died, and where the address spaces are,
  with everything else forgotten; `Kernel.core` is the abstraction;
* `Move`: the things that can happen to it.  The invariants of the scheduler are proved
  on the moves alone;
* `Kernel.takeZombie_spec`, `Kernel.core_saveMap`: what reaping and swapping address
  spaces do to it.

`Move` has a parameter, the condition under which the leader of a group may leave its
threads behind: the plain `exit` of a leader is the one call that does.
-/

namespace WebTos.Proc

open Relation List Function

/-- Who a task is. -/
structure Ident where
  pid : ℕ
  tgid : ℕ
  ppid : ℕ
  deriving DecidableEq, Repr

/-- Who a process is. -/
def Process.ident (p : Process) : Ident := ⟨p.pid, p.tgid, p.ppid⟩

/-- Who a parked task is. -/
def ParkedTask.ident (t : ParkedTask) : Ident := t.proc.ident

/-- The abstract scheduler. -/
structure Core (M : Type) where
  proc : Ident
  onCpu : Bool
  parked : List Ident
  groupMaps : ℕ → Option M
  nextPid : ℕ
  lastGroup : ℕ
  mmu : M
  missingSpace : Bool
  own : ℕ → M
  /-- The pids of the zombies. -/
  zombies : List ℕ
  died : List ℕ
  reaped : List ℕ

/-- The abstraction of a kernel. -/
def Kernel.core {M : Type} (k : Kernel M) : Core M where
  proc := k.proc.ident
  onCpu := k.onCpu
  parked := k.sched.parked.map ParkedTask.ident
  groupMaps := k.sched.groupMaps
  nextPid := k.sched.nextPid
  lastGroup := k.lastGroup
  mmu := k.mmu
  missingSpace := k.missingSpace
  own := k.own
  zombies := k.sched.zombies.map Zombie.pid
  died := k.died
  reaped := k.reaped

namespace Core

variable {M : Type}

/-- The address spaces after the group that was running has given up the MMU: its map
is kept if one of the tasks `rest` is its. -/
def savedMaps (c : Core M) (rest : List Ident) : ℕ → Option M :=
  if c.lastGroup ≠ 0 ∧ (rest.any fun t => t.tgid == c.lastGroup) = true then
    update c.groupMaps c.lastGroup (some c.mmu)
  else c.groupMaps

/-- The running task's memory changed: in the MMU, and what its group should see. -/
def touched (c : Core M) (f : M → M) : Core M :=
  { c with
    mmu := f c.mmu
    own := update c.own c.proc.tgid (f (c.own c.proc.tgid)) }

variable (c : Core M)

@[simp] lemma touched_id : c.touched id = c := by
  simp [touched]

/-- The parked tasks outside a group. -/
def outside (c : Core M) (group : ℕ) : List Ident := c.parked.filter fun t => t.tgid != group

/-- The leader of a group, if it is among the tasks: listed once per task that claims
to be. -/
def leadersOf (group : ℕ) (ts : List Ident) : List ℕ :=
  (ts.filter fun t => t.tgid == group && t.pid == t.tgid).map Ident.tgid

end Core

/-- **What can happen to the scheduler.**  `alone` is the condition under which the
leader of a group may exit by itself. -/
inductive Move {M : Type} (alone : Ident → List Ident → Prop) : Core M → Core M → Prop where
  | touch (c : Core M) (f : M → M) (hcpu : c.onCpu = true) :
      Move alone c (c.touched f)
  | park (c : Core M) (placeholder : Ident) (hcpu : c.onCpu = true) :
      Move alone c { c with
        parked := c.parked ++ [c.proc], proc := placeholder, onCpu := false }
  | enter (c : Core M) (i : ℕ) (t : Ident) (hcpu : c.onCpu = false)
      (ht : c.parked[i]? = some t) (hgroup : c.lastGroup = t.tgid) :
      Move alone c { c with parked := c.parked.eraseIdx i, proc := t, onCpu := true }
  | swap (c : Core M) (i : ℕ) (t : Ident) (map : M) (hcpu : c.onCpu = false)
      (ht : c.parked[i]? = some t) (hgroup : c.lastGroup ≠ t.tgid)
      (hmap : c.savedMaps (c.parked.eraseIdx i) t.tgid = some map) :
      Move alone c { c with
        parked := c.parked.eraseIdx i
        proc := t
        onCpu := true
        lastGroup := t.tgid
        mmu := map
        groupMaps := update (c.savedMaps (c.parked.eraseIdx i)) t.tgid none }
  | missing (c : Core M) (i : ℕ) (t : Ident) (lost : M) (hcpu : c.onCpu = false)
      (ht : c.parked[i]? = some t) (hgroup : c.lastGroup ≠ t.tgid)
      (hmap : c.savedMaps (c.parked.eraseIdx i) t.tgid = none) :
      Move alone c { c with
        parked := c.parked.eraseIdx i
        mmu := lost
        groupMaps := c.savedMaps (c.parked.eraseIdx i)
        missingSpace := true }
  | skipPid (c : Core M) : Move alone c { c with nextPid := c.nextPid + 1 }
  | thread (c : Core M) (hcpu : c.onCpu = true) :
      Move alone c { c with
        parked := c.parked ++ [⟨c.nextPid, c.proc.tgid, c.proc.ppid⟩]
        nextPid := c.nextPid + 1 }
  | fork (c : Core M) (f : M → M) (hcpu : c.onCpu = true) :
      Move alone c { c with
        parked := c.parked ++ [⟨c.nextPid, c.nextPid, c.proc.tgid⟩]
        groupMaps := update c.groupMaps c.nextPid (some (f c.mmu))
        own := update c.own c.nextPid (f (c.own c.proc.tgid))
        nextPid := c.nextPid + 1 }
  | exitThread (c : Core M) (hcpu : c.onCpu = true) (hpid : c.proc.pid ≠ c.proc.tgid) :
      Move alone c { c with onCpu := false }
  | exitLeader (c : Core M) (hcpu : c.onCpu = true) (hpid : c.proc.pid = c.proc.tgid)
      (halone : alone c.proc c.parked) :
      Move alone c { c with
        onCpu := false
        zombies := c.zombies ++ [c.proc.tgid]
        died := c.died ++ [c.proc.tgid] }
  | exitGroup (c : Core M) (hcpu : c.onCpu = true) :
      Move alone c { c with
        parked := c.outside c.proc.tgid
        onCpu := false
        zombies := c.zombies ++ [c.proc.tgid]
        died := c.died ++ [c.proc.tgid] }
  | halt (c : Core M) (group : Bool) (hcpu : c.onCpu = true) :
      Move alone c { c with
        parked := if group then c.outside c.proc.tgid else c.parked
        onCpu := false }
  | kill (c : Core M) (target : ℕ) (hcpu : c.onCpu = true) (hother : target ≠ c.proc.tgid) :
      Move alone c { c with
        parked := c.outside target
        groupMaps := if c.parked.any fun t => t.tgid == target
          then update c.groupMaps target none else c.groupMaps
        zombies := c.zombies ++ Core.leadersOf target c.parked
        died := c.died ++ Core.leadersOf target c.parked }
  | reap (c : Core M) (before after : List ℕ) (pid : ℕ) (reported : Bool)
      (hz : c.zombies = before ++ pid :: after) :
      Move alone c { c with
        zombies := before ++ after
        reaped := if reported then c.reaped ++ [pid] else c.reaped }

/-- A sequence of moves. -/
abbrev Moves {M : Type} (alone : Ident → List Ident → Prop) : Core M → Core M → Prop :=
  ReflTransGen (Move alone)

namespace Kernel

variable {M : Type}

/-- The tasks that can still execute. -/
def liveTasks (k : Kernel M) : List Process :=
  (if k.onCpu then [k.proc] else []) ++ k.sched.parked.map ParkedTask.proc

/-- A live task is the running one or a parked one. -/
lemma mem_liveTasks {k : Kernel M} {p : Process} :
    p ∈ k.liveTasks ↔ (k.onCpu = true ∧ p = k.proc) ∨ ∃ t ∈ k.sched.parked, t.proc = p := by
  rw [liveTasks, mem_append, List.mem_map]
  cases k.onCpu <;> simp

variable (k : Kernel M)

lemma groupHasParked_eq (group : ℕ) :
    k.sched.groupHasParked group = k.core.parked.any fun t => t.tgid == group := by
  rw [Scheduler.groupHasParked, core, List.any_map]
  rfl

lemma core_erase (index : ℕ) :
    (k.setParked (k.sched.parked.eraseIdx index)).core
      = { k.core with parked := k.core.parked.eraseIdx index } := by
  simp only [core, setParked, eraseIdx_map]

lemma core_pushZombie (zombie : Zombie) :
    (k.pushZombie zombie).core = { k.core with
      zombies := k.core.zombies ++ [zombie.pid], died := k.core.died ++ [zombie.pid] } := by
  simp only [pushZombie, core, map_append, map_cons, map_nil]

/-- Of the parked tasks those of other groups stay. -/
lemma core_killSiblings :
    k.killSiblings.core = { k.core with parked := k.core.outside k.core.proc.tgid } := by
  simp only [killSiblings, core, setParked, Core.outside, List.filter_map]
  rfl

/-- The memory map of the group that ran last is kept while a member of it is parked. -/
lemma core_saveMap :
    k.saveMap.core = { k.core with groupMaps := k.core.savedMaps k.core.parked } := by
  rw [saveMap, Core.savedMaps, groupHasParked_eq]
  have hlast : k.core.lastGroup = k.lastGroup := rfl
  rw [hlast]
  split <;> rfl

/-- `take_zombie` takes one zombie off the list. -/
lemma takeZombie_spec {k : Kernel M} {ppid : ℕ} {filter : ℤ} {zombie : Zombie}
    {sched : Scheduler M} (h : k.sched.takeZombie ppid filter = some (zombie, sched)) :
    ∃ before after, k.core.zombies = before ++ zombie.pid :: after ∧
      ({ k with sched := sched } : Kernel M).core = { k.core with zombies := before ++ after } := by
  rw [Scheduler.takeZombie] at h
  split at h
  · exact absurd h (by simp)
  · next z hfind =>
      obtain ⟨hz, before, after, hsplit, hbefore⟩ := List.find?_eq_some_iff_append.mp hfind
      obtain ⟨rfl, rfl⟩ : z = zombie ∧ _ = sched := by simpa using h
      refine ⟨before.map Zombie.pid, after.map Zombie.pid, ?_, ?_⟩
      · simp only [core, hsplit, map_append, map_cons]
      have herase : k.sched.zombies.eraseP (fun z =>
          Scheduler.matchesChild ppid filter z.pid z.ppid) = before ++ after := by
        rw [hsplit, eraseP_append_right _ (by simpa using hbefore), eraseP_cons,
          hz, cond_true]
      simp only [core, herase, map_append]

end Kernel

end WebTos.Proc
