import WebTos.Proc.Acts

/-!
What `wait4` reports of a process's death.

A process ends when its last task does, and its parent is told once.  The code creates
the zombie when the group's leader exits, when any task calls `exit_group`, and when
the leader is among the tasks a SIGKILL removes.

* `Core.Reported`: no process died twice, none of the dead has a live task, and what
  `wait4` returned are deaths, each returned once;
* `Core.Reported.move`: every move keeps it, if a leader exits by itself only as the
  last task of its group;
* `Kernel.run_deathsOnce`: so it holds along every run without such an exit, and
  `Kernel.run_deathTwice` is a run with one, after which a pid is returned twice;
* `Kernel.run_pids_unique`: no number is used twice.
-/

namespace WebTos.Proc

open Lib List List.Sublist

variable {M : Type}

namespace Core

/-- The tasks that can still execute: the one on the CPU and the parked ones. -/
def tasks (c : Core M) : List Ident := (if c.onCpu then [c.proc] else []) ++ c.parked

/-- **Deaths are reported once.** -/
structure Reported (tasks : List Ident) (nextPid : ℕ) (died zombies reaped : List ℕ) : Prop where
  /-- The zombies still there and the exits returned are deaths, none counted twice. -/
  accounted : (zombies ++ reaped).Subperm died
  once : died.Nodup
  /-- No task of a dead process is live. -/
  last : ∀ t ∈ tasks, t.tgid ∉ died
  pids : (tasks.map Ident.pid).Nodup
  fresh : ∀ t ∈ tasks, t.pid < nextPid ∧ t.tgid < nextPid
  freshDied : ∀ g ∈ died, g < nextPid

variable {t : Ident}

namespace Reported

variable {tasks tasks' : List Ident} {nextPid : ℕ} {died zombies reaped : List ℕ}

section

variable (h : Reported tasks nextPid died zombies reaped)
include h

/-- Tasks may move, or vanish. -/
lemma subperm (hsub : tasks'.Subperm tasks) :
    Reported tasks' nextPid died zombies reaped where
  accounted := h.accounted
  once := h.once
  last t ht := h.last t (hsub.subset ht)
  pids := by
    obtain ⟨l, hperm, hl⟩ := hsub
    exact (hperm.map Ident.pid).nodup (h.pids.sublist (hl.map Ident.pid))
  fresh t ht := h.fresh t (hsub.subset ht)
  freshDied := h.freshDied

lemma skipPid :
    Reported tasks (nextPid + 1) died zombies reaped :=
  { h with
    fresh := fun t ht => ⟨(h.fresh t ht).1.trans (Nat.lt_succ_self _),
      (h.fresh t ht).2.trans (Nat.lt_succ_self _)⟩
    freshDied := fun g hg => (h.freshDied g hg).trans (Nat.lt_succ_self _) }

lemma spawn {tgid ppid : ℕ} (hgroup : tgid ∉ died) (hfresh : tgid ≤ nextPid) :
    Reported (tasks ++ [⟨nextPid, tgid, ppid⟩]) (nextPid + 1) died zombies reaped where
  accounted := h.accounted
  once := h.once
  last t ht := by
    rcases mem_append.mp ht with ht | ht
    · exact h.last t ht
    · rw [mem_singleton.mp ht]
      exact hgroup
  pids := by
    rw [map_append, nodup_append]
    refine ⟨h.pids, nodup_singleton _, ?_⟩
    rintro pid hpid _ hnew rfl
    obtain ⟨t, ht, rfl⟩ := List.mem_map.mp hpid
    have hnew := mem_singleton.mp hnew
    exact absurd (h.fresh t ht).1 (by simp [hnew])
  fresh t ht := by
    rcases mem_append.mp ht with ht | ht
    · exact h.skipPid.fresh t ht
    · rw [mem_singleton.mp ht]
      exact ⟨Nat.lt_succ_self _, Nat.lt_succ_of_le hfresh⟩
  freshDied := h.skipPid.freshDied

/-- A group that had a live task dies: none is left, and a zombie is made of it. -/
lemma die (hsub : tasks'.Subperm tasks) (ht : t ∈ tasks) (hgone : ∀ u ∈ tasks', u.tgid ≠ t.tgid) :
    Reported tasks' nextPid (died ++ [t.tgid]) (zombies ++ [t.tgid]) reaped where
  accounted := by
    have hperm : ((zombies ++ [t.tgid]) ++ reaped).Perm ((zombies ++ reaped) ++ [t.tgid]) := by
      rw [append_assoc, append_assoc]
      exact perm_append_comm.append_left zombies
    exact hperm.subperm.trans ((subperm_append_right _).mpr h.accounted)
  once := by
    rw [nodup_append]
    refine ⟨h.once, nodup_singleton _, ?_⟩
    rintro g hg _ hnew rfl
    rw [mem_singleton.mp hnew] at hg
    exact h.last t ht hg
  last u hu hdead := by
    rcases mem_append.mp hdead with hdead | hdead
    · exact h.last u (hsub.subset hu) hdead
    · exact hgone u hu (mem_singleton.mp hdead)
  pids := (h.subperm hsub).pids
  fresh := (h.subperm hsub).fresh
  freshDied g hg := by
    rcases mem_append.mp hg with hg | hg
    · exact h.freshDied g hg
    · rw [mem_singleton.mp hg]
      exact (h.fresh t ht).2

end

lemma reap {before after : List ℕ} {pid : ℕ}
    (h : Reported tasks nextPid died (before ++ pid :: after) reaped) (reported : Bool) :
    Reported tasks nextPid died (before ++ after)
      (if reported then reaped ++ [pid] else reaped) := by
  refine { h with accounted := .trans ?_ h.accounted }
  cases reported with
  | true =>
    have hperm : ((before ++ after) ++ (reaped ++ [pid])).Perm
        ((before ++ pid :: after) ++ reaped) := by
      simp only [append_assoc, cons_append]
      refine List.Perm.append_left before ?_
      rw [← append_assoc]
      exact perm_append_singleton pid (after ++ reaped)
    exact hperm.subperm
  | false =>
    exact (((sublist_cons_self pid after).append_left before).append_right reaped).subperm

end Reported

variable {ts : List Ident}

/-- With one task to a pid, at most one task leads a group. -/
lemma leadersOf_eq (hpids : (ts.map Ident.pid).Nodup) (g : ℕ) :
    leadersOf g ts = [] ∨ leadersOf g ts = [g] ∧ ∃ t ∈ ts, t.tgid = g := by
  set led := ts.filter fun t => t.tgid == g && t.pid == t.tgid with hled
  have hmem : ∀ t ∈ led, t ∈ ts ∧ t.tgid = g ∧ t.pid = g := by
    intro t ht
    have := mem_filter.mp ht
    simp only [Bool.and_eq_true, beq_iff_eq] at this
    exact ⟨this.1, this.2.1, this.2.2.trans this.2.1⟩
  have hnodup : (led.map Ident.pid).Nodup :=
    hpids.sublist ((filter_sublist).map Ident.pid)
  show led.map Ident.tgid = [] ∨ led.map Ident.tgid = [g] ∧ ∃ t ∈ ts, t.tgid = g
  match hcase : led with
  | [] => exact .inl rfl
  | [t] =>
    obtain ⟨ht, htg, _⟩ := hmem t (by simp)
    exact .inr ⟨by simp [htg], t, ht, htg⟩
  | t :: u :: rest =>
    have htu : t.pid = u.pid :=
      (hmem t (by simp)).2.2.trans (hmem u (by simp)).2.2.symm
    simp [htu] at hnodup

/-- Deaths are reported once in a state of the scheduler. -/
def DeathsOnce (c : Core M) : Prop := Reported c.tasks c.nextPid c.died c.zombies c.reaped

/-- No parked task belongs to the group of `p`. -/
def Alone (p : Ident) (parked : List Ident) : Prop := ∀ t ∈ parked, t.tgid ≠ p.tgid

variable {c : Core M}

lemma tasks_running (hcpu : c.onCpu) : c.tasks = c.proc :: c.parked := by
  rw [tasks, if_pos hcpu, singleton_append]

lemma tasks_idle (hcpu : c.onCpu = false) : c.tasks = c.parked := by
  rw [tasks, hcpu, if_neg (by simp), nil_append]

section

variable {c' : Core M} {P : Ident → List Ident → Prop} {rest : List Ident}

/-- The task on the CPU leaves, and with it tasks of its group or none. -/
lemma leave_subperm (hcpu : c.onCpu) (hrest : rest.Sublist c.parked) : rest.Subperm c.tasks := by
  rw [tasks_running hcpu]
  exact hrest.subperm.trans (sublist_cons_self _ _).subperm

/-- The parked task that goes on the CPU stays a task. -/
lemma enter_subperm (hcpu : c.onCpu = false) {i : ℕ} (ht : c.parked[i]? = some t) :
    (t :: c.parked.eraseIdx i).Subperm c.tasks := by
  obtain ⟨hi, rfl⟩ := List.getElem?_eq_some_iff.mp ht
  rw [tasks_idle hcpu]
  exact (getElem_cons_eraseIdx_perm hi).subperm

lemma outside_subperm (hcpu : c.onCpu) (target : ℕ) :
    (c.proc :: c.outside target).Subperm c.tasks := by
  rw [tasks_running hcpu]
  exact ((filter_sublist).cons_cons c.proc).subperm

/-- **A move keeps the deaths there were**: tasks move or vanish, or a task is born, with the next
number. -/
lemma Reported.move {died zombies reaped : List ℕ} (hmove : Move P c c')
    (h : Reported c.tasks c.nextPid died zombies reaped) :
    Reported c'.tasks c'.nextPid died zombies reaped := by
  cases hmove with
  | touch | reap => exact h
  | park _ hcpu =>
    rw [tasks_running hcpu] at h
    exact h.subperm (perm_append_singleton _ _).subperm
  | enter _ _ hcpu ht => exact h.subperm (enter_subperm hcpu ht)
  | swap _ _ _ hcpu ht => exact h.subperm (enter_subperm hcpu ht)
  | missing _ _ _ hcpu =>
    rw [tasks_idle hcpu] at h
    rw [tasks_idle (by exact hcpu)]
    exact h.subperm (eraseIdx_sublist _ _).subperm
  | skipPid => exact h.skipPid
  -- a thread is in a group that lives, a fork leads one that never died
  | thread hcpu =>
    rw [tasks_running hcpu] at h
    rw [tasks_running (by exact hcpu)]
    exact h.spawn (h.last _ mem_cons_self) (h.fresh _ mem_cons_self).2.le
  | fork f hcpu =>
    rw [tasks_running hcpu] at h
    rw [tasks_running (by exact hcpu)]
    exact h.spawn (fun hdied => (h.freshDied _ hdied).false) le_rfl
  | exitThread hcpu => exact h.subperm (leave_subperm hcpu (refl _))
  | exitLeader hcpu => exact h.subperm (leave_subperm hcpu (refl _))
  | exitGroup hcpu => exact h.subperm (leave_subperm hcpu filter_sublist)
  | halt group hcpu =>
    cases group with
    | false => exact h.subperm (leave_subperm hcpu (refl _))
    | true => exact h.subperm (leave_subperm hcpu filter_sublist)
  | kill target hcpu =>
    rw [tasks_running (by exact hcpu)]
    exact h.subperm (outside_subperm hcpu target)

lemma Reported.moves {died zombies reaped : List ℕ} (hmoves : Moves P c c')
    (h : Reported c.tasks c.nextPid died zombies reaped) :
    Reported c'.tasks c'.nextPid died zombies reaped := by
  induction hmoves with
  | refl => exact h
  | tail _ hmove ih => exact ih.move hmove

end

namespace DeathsOnce

variable {c : Core M} {rest : List Ident}

/-- The task on the CPU leaves as the last of its group. -/
lemma die (h : c.DeathsOnce) (hcpu : c.onCpu) (hrest : rest.Sublist c.parked)
    (halone : Alone c.proc rest) :
    Reported rest c.nextPid (c.died ++ [c.proc.tgid]) (c.zombies ++ [c.proc.tgid]) c.reaped :=
  Reported.die h (leave_subperm hcpu hrest) (by rw [tasks_running hcpu]; exact mem_cons_self) halone

lemma alone_outside (c : Core M) : Alone c.proc (c.outside c.proc.tgid) := by
  intro t ht
  simpa using (mem_filter.mp ht).2

lemma kill (h : c.DeathsOnce) (hcpu : c.onCpu) {target : ℕ} (hother : target ≠ c.proc.tgid) :
    Reported (c.proc :: c.outside target) c.nextPid (c.died ++ leadersOf target c.parked)
      (c.zombies ++ leadersOf target c.parked) c.reaped := by
  have hsub := outside_subperm hcpu target
  have hpids : (c.parked.map Ident.pid).Nodup :=
    (h.subperm (leave_subperm hcpu (refl _))).pids
  rcases leadersOf_eq hpids target with hnone | ⟨hone, t, ht, rfl⟩
  · rw [hnone, append_nil, append_nil]
    exact h.subperm hsub
  rw [hone]
  refine Reported.die h hsub (mem_append_right _ ht) fun u hu => ?_
  rcases mem_cons.mp hu with rfl | hu
  · exact hother.symm
  · simpa using (mem_filter.mp hu).2

variable {c' : Core M}

/-- **Every move keeps deaths reported once**, if a leader exits by itself only when it is
alone. -/
lemma move (hmove : Move Alone c c') (h : c.DeathsOnce) : c'.DeathsOnce := by
  have hkept := Reported.move hmove h
  cases hmove with
  | exitLeader hcpu hpid halone => exact h.die hcpu (refl _) halone
  | exitGroup hcpu => exact h.die hcpu filter_sublist (alone_outside c)
  | kill _ hcpu hother =>
    rw [DeathsOnce, tasks_running (by exact hcpu)]
    exact h.kill hcpu hother
  | reap _ _ _ reported hz =>
    rw [DeathsOnce, hz] at h
    exact h.reap reported
  | _ => exact hkept

lemma moves (hmoves : Moves Alone c c') (h : c.DeathsOnce) : c'.DeathsOnce := by
  induction hmoves with
  | refl => exact h
  | tail _ hmove ih => exact ih.move hmove

end DeathsOnce

end Core

namespace Kernel

/-- **The death of a process is reported once.** -/
structure DeathsOnce (k : Kernel M) : Prop where
  /-- At most one zombie was ever created for a process. -/
  once : k.died.Nodup
  /-- A process a zombie was created for has no live task. -/
  last : ∀ p ∈ k.liveTasks, p.tgid ∉ k.died
  /-- `wait4` returned each pid as exited at most once. -/
  returnedOnce : k.reaped.Nodup
  /-- What `wait4` returned as exited has no live task. -/
  returnedDead : ∀ p ∈ k.liveTasks, p.tgid ∉ k.reaped

variable {k : Kernel M}

lemma deathsOnce_of_core (h : k.core.DeathsOnce) : k.DeathsOnce := by
  have hsub : k.reaped.Subperm k.died :=
    (sublist_append_right _ _).subperm.trans h.accounted
  obtain ⟨reaped, hperm, hreaped⟩ := hsub
  have hlast : ∀ p ∈ k.liveTasks, p.tgid ∉ k.died := by
    intro p hp
    refine h.last p.ident ?_
    rcases mem_append.mp hp with hp | hp
    · split at hp
      · next hcpu =>
          rw [mem_singleton.mp hp]
          exact mem_append_left _ (by simp [core, hcpu])
      · simp at hp
    · obtain ⟨t, ht, rfl⟩ := List.mem_map.mp hp
      exact mem_append_right _ (List.mem_map_of_mem ht)
  refine ⟨h.once, hlast, hperm.nodup (h.once.sublist hreaped), fun p hp hmem => ?_⟩
  exact hlast p hp (hreaped.subset (hperm.mem_iff.mpr hmem))

/-- The leader of a group other than the root's exits by itself, and a sibling of it is
still parked.  A pending signal that ends or stops the task would act before the call. -/
def LeavesThreads (k : Kernel M) : Event M → Prop
  | .syscall (.exit _) =>
    k.onCpu = true ∧ k.proc.pid = k.proc.tgid ∧ k.proc.tgid ≠ ROOT_PID ∧
      k.sched.groupHasParked k.proc.tgid = true ∧
      ∀ sig, k.pendingSignalAction.1 ≠ .terminate sig ∧ k.pendingSignalAction.1 ≠ .stop sig
  | _ => False

/-- A loaded image is one live task, and nothing has died. -/
lemma load_deathsOnce (k : Kernel M) (image : M) : (k.load image).core.DeathsOnce where
  accounted := List.Subperm.refl _
  once := nodup_nil
  last t ht := not_mem_nil
  pids := nodup_singleton _
  fresh t ht := by
    rw [mem_singleton.mp ht]
    exact ⟨Nat.lt_succ_self ROOT_PID, Nat.lt_succ_self ROOT_PID⟩
  freshDied g hg := absurd hg not_mem_nil

lemma run_reported [GuestMem M] (k : Kernel M) {died : List ℕ} (es : List (Event M))
    (h : Core.Reported k.core.tasks k.core.nextPid died [] []) :
    Core.Reported (run step k es).core.tasks (run step k es).core.nextPid died [] [] := by
  refine run_invariant (fun k : Kernel M => Core.Reported k.core.tasks k.core.nextPid died [] [])
    (fun k e h => ?_) es h
  exact h.moves (k.step_moves (P := fun _ _ => True) e fun _ _ _ _ _ _ => trivial)

/-- **Process numbers are not used twice**, in any run: no two live tasks have one pid, and a
group without a task stays so. -/
theorem run_pids_unique [GuestMem M] (k : Kernel M) (image : M) (es later : List (Event M)) :
    let now := run step (k.load image) es
    (now.core.tasks.map Ident.pid).Nodup ∧ ∀ g < now.core.nextPid,
      (∀ t ∈ now.core.tasks, t.tgid ≠ g) → ∀ t ∈ (run step now later).core.tasks, t.tgid ≠ g := by
  intro now
  have hnow := run_reported _ es (load_deathsOnce k image)
  refine ⟨hnow.pids, fun g hg hgone t ht hgroup => ?_⟩
  have hlater := @run_reported _ _ now [g] later { hnow with
    accounted := nil_subperm
    once := nodup_singleton g
    last := fun t ht hdied => hgone t ht (mem_singleton.mp hdied)
    freshDied := fun _ hdied => mem_singleton.mp hdied ▸ hg }
  exact hlater.last t ht (mem_singleton.mpr hgroup)

/-- **Deaths are reported once along every run** in which no leader of a group other than
the root's leaves threads behind. -/
theorem run_deathsOnce [GuestMem M] (k : Kernel M) (image : M) (es : List (Event M))
    (hguard : Guarded step (fun k e => ¬ k.LeavesThreads e) (k.load image) es) :
    (run step (k.load image) es).DeathsOnce := by
  have hstep : ∀ (k : Kernel M) (e : Event M), k.core.DeathsOnce → ¬ k.LeavesThreads e →
      (k.step e).core.DeathsOnce := by
    intro k e h hok
    refine h.moves (k.step_moves e fun code he hcpu hsig hpid hroot => ?_)
    subst he
    intro t ht hgroup
    obtain ⟨u, hu, rfl⟩ := List.mem_map.mp ht
    exact hok ⟨hcpu, hpid, hroot, any_eq_true.mpr ⟨u, hu, beq_iff_eq.mpr hgroup⟩, hsig⟩
  exact deathsOnce_of_core (Guarded.invariant hstep (load_deathsOnce k image) hguard)

/-- A memory that is never looked at. -/
instance : GuestMem Unit where
  empty := ()
  writeMem _ _ _ := ((), true)
  signalFrame _ _ := ((), true)

/-- The flags of `fork`. -/
def forkSpec : CloneSpec := ⟨false, false, false, false, false, 0, 0⟩

/-- The flag `CLONE_VM` of a thread. -/
def threadSpec : CloneSpec := ⟨true, false, false, false, false, 0, 0⟩

/-- The root forks 1001, which exits by itself as the only task of its group, and collects
it. -/
def childExits : List (Event Unit) :=
  [.syscall (.clone forkSpec), .syscall .sched_yield, .syscall (.exit 0),
    .syscall (.wait4 (-1) 0 0)]

/-- The exit of a child without threads is reported once. -/
theorem run_childExits_deathsOnce :
    (run step ((Kernel.new ()).load ()) childExits).reaped = [1001] ∧
      (run step ((Kernel.new ()).load ()) childExits).DeathsOnce := by
  refine ⟨by decide +kernel, run_deathsOnce (Kernel.new ()) () childExits ⟨id, id, ?_, id, trivial⟩⟩
  rintro ⟨-, -, -, hparked, -⟩
  exact absurd hparked (by decide +kernel)

/-- The root forks 1001 and lets it run; it starts the thread 1002 and exits by itself.
The root collects it, lets 1002 run, which ends its group, and waits again. -/
def leaderExits : List (Event Unit) :=
  [.syscall (.clone forkSpec), .syscall .sched_yield, .syscall (.clone threadSpec),
    .syscall (.exit 0), .syscall (.wait4 (-1) 0 0), .syscall .sched_yield,
    .syscall (.exitGroup 0), .syscall (.wait4 (-1) 0 0)]

/-- **A death reported twice**: the pid 1001 is returned while its thread 1002 lives, and
again when that one ends. -/
theorem run_deathTwice :
    ¬ (run step ((Kernel.new ()).load ()) leaderExits).DeathsOnce := by
  have hreaped : (run step ((Kernel.new ()).load ()) leaderExits).reaped = [1001, 1001] := by
    decide +kernel
  intro h
  have := h.returnedOnce
  rw [hreaped] at this
  exact absurd this (by decide)

end Kernel

end WebTos.Proc
