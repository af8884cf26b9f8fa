import WebTos.Proc.Deaths

/-!
Job-control stops (`stop_thread_group`, SIGCONT, `take_stop_report`).

A stop marks every task of the group and parks the one that runs; the scheduler passes over
stopped tasks whatever they wait on.  The leader of the group holds the report for the parent,
which `wait4` takes with the answer.

* `Core.Numbered`: no two tasks have one pid, and no number is given out twice;
* `Kernel.Stopped`, `Kernel.step_stopped`: a group stays stopped until it is continued;
* `Kernel.stopOf_stopped`: the group an event stops is stopped after it;
* `Kernel.Unreported`, `Kernel.reportOf_unreported`: a stop that was returned is not there to be
  returned again;
* `Kernel.stops_hold`: from a stop to the SIGCONT that ends it no task of the group is on the
  CPU, and between two returned reports of a group lies a stop of it.
-/

namespace WebTos.Proc

open Lib List Option

variable {M : Type}

namespace Core

/-! ### Numbers of tasks -/

/-- No two tasks have one pid, and the numbers in use are below the next. -/
def Numbered (c : Core M) : Prop := Reported c.tasks c.nextPid [] [] []

variable {c : Core M}

lemma numbered_running (hcpu : c.onCpu) (h : c.Numbered) :
    Reported (c.proc :: c.parked) c.nextPid [] [] [] := by
  rwa [Numbered, tasks_running hcpu] at h

variable {P : Ident → List Ident → Prop} {c' : Core M}

lemma Numbered.moves (hmoves : Moves P c c') (h : c.Numbered) : c'.Numbered :=
  Reported.moves hmoves h

/-- Numbers are given out in order. -/
lemma nextPid_moves (hmoves : Moves P c c') :
    c.nextPid ≤ c'.nextPid := by
  induction hmoves with
  | refl => exact le_rfl
  | tail _ hmove ih => cases hmove <;> first | exact ih | exact ih.trans (Nat.le_succ _)

end Core

/-- The fields of a stop agree: a report is held by the leader of a stopped group. -/
def Process.ReportsStop (p : Process) : Prop :=
  p.stopReport ≠ none → p.stopped = true ∧ p.pid = p.tgid

namespace Kernel

/-! ### Groups that are stopped -/

/-- Every live task of the group is stopped, and no task to come will be of the group. -/
structure Stopped (k : Kernel M) (g : ℕ) : Prop where
  stopped : ∀ p ∈ k.liveTasks, p.tgid = g → p.stopped = true
  given : g < k.sched.nextPid

/-- No report of a stop of the group is held. -/
def Unreported (k : Kernel M) (g : ℕ) : Prop :=
  ∀ p ∈ k.liveTasks, p.tgid = g → p.stopReport = none

/-- **The event is a SIGCONT addressed to the group.** -/
def Continued (k : Kernel M) (e : Event M) (g : ℕ) : Prop :=
  ∃ p ∈ k.liveTasks, p.tgid = g ∧ k.continues e p = true

instance (k : Kernel M) (e : Event M) (g : ℕ) : Decidable (k.Continued e g) :=
  inferInstanceAs (Decidable (∃ p ∈ k.liveTasks, p.tgid = g ∧ k.continues e p = true))

/-- What holds of the stops in every state of a run. -/
structure StopsSound (k : Kernel M) : Prop where
  numbered : k.core.Numbered
  awake : k.Awake
  reports : ∀ p ∈ k.liveTasks, p.ReportsStop

lemma load_stopsSound (k : Kernel M) (image : M) : (k.load image).StopsSound where
  numbered := load_deathsOnce k image
  awake _ := rfl
  reports p hp := by
    rw [mem_singleton.mp hp]
    exact fun h => absurd rfl h

section

variable [GuestMem M]

variable {k : Kernel M} {e : Event M} {g : ℕ}

/-- Only `kill` is addressed to anyone. -/
lemma continues_eq_false {p : Process}
    (h : ∀ target signal, e ≠ .syscall (.kill target signal)) : k.continues e p = false := by
  rw [continues]
  split
  · rename_i target signal k' hcall
    exact absurd (dispatched_eq hcall).2.1 (h target signal)
  · rfl

lemma step_stopsSound (h : k.StopsSound) (hkeeps : KeepsStops e) :
    (k.step e).StopsSound where
  numbered := h.numbered.moves (k.step_moves (P := fun _ _ => True) e fun _ _ _ _ _ _ => trivial)
  awake := step_awake h.awake hkeeps
  reports := by
    refine step_forall (fun p p' hmove hp => ?_) h.reports
    cases hmove with
    | pending | cells | handler | mask => exact hp
    | stop =>
      intro hreport
      refine ⟨rfl, by_contra fun hne => ?_⟩
      rw [if_neg hne] at hreport
      exact hne (hp hreport).2
    | cont | report | thread | fork => exact fun hreport => absurd rfl hreport
    | other called =>
      obtain ⟨htask, -⟩ := hkeeps _ _ _ _ called
      intro hreport
      have hreport' : p.stopReport ≠ none := fun hnone => hreport ((htask p).2.trans hnone)
      exact ⟨(htask p).1.trans (hp hreport').1, (hp hreport').2⟩
    | others t called =>
      obtain ⟨-, htasks⟩ := hkeeps _ _ _ _ called
      intro hreport
      have hreport' : p.stopReport ≠ none := fun hnone => hreport ((htasks t p).2.trans hnone)
      exact ⟨(htasks t p).1.trans (hp hreport').1, (hp hreport').2⟩

/-- **A group stays stopped** through every event that does not continue it. -/
lemma step_stopped (hsound : k.StopsSound) (h : k.Stopped g)
    (hkeeps : KeepsStops e) (hcont : ¬ k.Continued e g) : (k.step e).Stopped g where
  given := h.given.trans_le
    (Core.nextPid_moves (k.step_moves (P := fun _ _ => True) e fun _ _ _ _ _ _ => trivial))
  stopped := by
    -- the tasks on the way are addressed by nothing, so no stop of the group ends
    have hheld : ∀ p ∈ (k.step e).liveTasks,
        p.tgid = g → p.stopped ∧ k.continues e p = false := by
      refine step_forall (fun p p' hmove hp => ?_) fun p hp htgid =>
        ⟨h.stopped p hp htgid, by_contra fun hc => hcont ⟨p, hp, htgid, by simpa using hc⟩⟩
      cases hmove with
      | pending | cells | handler | mask | report => exact hp
      | stop => exact fun htgid => ⟨rfl, (hp htgid).2⟩
      | cont continued =>
        intro htgid
        exact absurd continued (by simp [(hp htgid).2])
      | thread born =>
        -- the task that creates it runs, so its group is not stopped
        intro htgid
        obtain ⟨hcpu, hgroup, -⟩ := born
        have hstopped := h.stopped k.proc (mem_liveTasks.mpr (.inl ⟨hcpu, rfl⟩))
          (hgroup.symm.trans htgid)
        exact absurd (hstopped.symm.trans (hsound.awake hcpu)) (by decide)
      | fork =>
        intro htgid
        exact absurd htgid h.given.ne'
      | other called =>
        intro htgid
        refine ⟨((hkeeps _ _ _ _ called).1 p).1.trans (hp htgid).1, continues_eq_false ?_⟩
        exact fun _ _ hkill => by cases called.symm.trans hkill
      | others t called =>
        intro htgid
        refine ⟨((hkeeps _ _ _ _ called).2 t p).1.trans (hp htgid).1, continues_eq_false ?_⟩
        exact fun _ _ hkill => by cases called.symm.trans hkill
    exact fun p hp htgid => (hheld p hp htgid).1

/-- **A report is not held again** before the group stops again. -/
lemma step_unreported (h : k.Unreported g)
    (hkeeps : KeepsStops e) (hstop : k.stopOf e ≠ some g) : (k.step e).Unreported g := by
  refine step_forall (fun p p' hmove hp => ?_) h
  cases hmove with
  | pending | cells | handler | mask => exact hp
  | stop _ stopped =>
    intro htgid
    exact absurd (htgid ▸ stopped) hstop
  | cont | report | thread | fork => exact fun _ => rfl
  | other called => exact fun htgid => ((hkeeps _ _ _ _ called).1 p).2.trans (hp htgid)
  | others t called => exact fun htgid => ((hkeeps _ _ _ _ called).2 t p).2.trans (hp htgid)

/-! ### The beginning of a stop -/

/-- A task that stops its group by a signal to itself does so by the default action. -/
lemma killSelf_of_selfStops {signal : ℕ} (h : k.selfStops signal) :
    k.killSelf signal = k.stopThreadGroup signal := by
  simp only [selfStops, Bool.and_eq_true, beq_iff_eq, Bool.not_eq_true'] at h
  obtain ⟨⟨⟨hfree, hhandler⟩, hterminates⟩, hstops⟩ := h
  have hdefault : k.defaultAction signal = k.stopThreadGroup signal := by
    rw [defaultAction, hterminates, if_neg (by simp), if_pos hstops]
  rw [killSelf, hfree, if_neg (by decide)]
  cases hacts : k.actsOf k.proc signal with
  | none => exact hdefault
  | some a =>
    rw [hacts, map_some, getD_some] at hhandler
    dsimp only
    rw [hhandler, if_neg (by decide), if_neg (fun h => h rfl)]
    exact hdefault

/-- A call that stops the group of its caller ends in `stop_thread_group`. -/
lemma callStops_eq (hcpu : k.onCpu) {call : Call M}
    (h : k.callStops call) :
    ∃ (k' : Kernel M) (signal : ℕ), (k.dispatch call).2 = (k'.stopThreadGroup signal).2 ∧
      k'.proc.tgid = k.proc.tgid ∧ k'.onCpu := by
  cases call with
  | kill _ signal =>
    rw [callStops, Bool.and_eq_true, decide_eq_true_iff] at h
    obtain ⟨⟨hrange, hzero, hself⟩, hstops⟩ := h
    refine ⟨k, signal, ?_, rfl, hcpu⟩
    rw [dispatch, sysKill, if_neg hrange.not_gt, if_neg hzero, if_pos hself,
      killSelf_of_selfStops hstops]
  -- a new mask can let a pending stop through
  | sigprocmask mask =>
    have hcore : ({ k with proc := { k.proc with sigmask := mask } } :
      Kernel M).pendingSignalAction.2.core = k.core := core_pendingSignalAction _
    rw [callStops] at h
    rw [dispatch, sysRtSigprocmask]
    generalize ({ k with proc := { k.proc with sigmask := mask } } : Kernel M).pendingSignalAction
      = acted at *
    obtain ⟨action, k'⟩ := acted
    cases action with
    | stop sig =>
      exact ⟨k', sig, rfl, congrArg (fun c => c.proc.tgid) hcore,
        (congrArg Core.onCpu hcore).trans hcpu⟩
    | none | handler | terminate => cases h
  | ttyStop signal =>
    have hcore := core_deliverSignalToPgrp k k.proc.pgid signal
    exact ⟨_, signal, rfl, congrArg (fun c => c.proc.tgid) hcore,
      (congrArg Core.onCpu hcore).trans hcpu⟩
  | exit | exitGroup | clone | execve | wait4 | futexWake | sched_yield | block | other => cases h

/-- An event that stops a group ends in `stop_thread_group`. -/
lemma stopOf_eq (h : k.stopOf e = some g) :
    ∃ (k' : Kernel M) (signal : ℕ), k.step e = (k'.stopThreadGroup signal).2 ∧
      k'.proc.tgid = g ∧ k'.onCpu ∧ k.onCpu ∧ k.proc.tgid = g := by
  unfold stopOf at h
  cases e with
  | syscall call =>
    cases hcpu : k.onCpu with
    | false =>
      rw [dispatched, hcpu] at h
      cases h
    | true =>
      have hcore := k.core_pendingSignalAction
      have hgroup : k.pendingSignalAction.2.proc.tgid = k.proc.tgid :=
        congrArg (fun c => c.proc.tgid) hcore
      have hrun := (congrArg Core.onCpu hcore).trans hcpu
      rw [step, if_pos hcpu]
      -- a pending signal acts before the call does
      rcases handle_cases hcpu call with
        ⟨sig, hsig, hnone, -⟩ | ⟨sig, hsig, hnone, heq⟩ | ⟨hcall, heq⟩
      · rw [hnone, hsig, hcpu] at h
        cases h
      · rw [hnone, hsig, hcpu] at h
        obtain rfl := some.inj h
        exact ⟨_, sig, congrArg Prod.snd heq, hgroup, hrun, rfl, rfl⟩
      rw [hcall] at h
      dsimp only at h
      split at h
      · rename_i hstops
        obtain rfl := some.inj h
        obtain ⟨k', signal, hstep, htgid, hrun'⟩ := callStops_eq hrun hstops
        exact ⟨k', signal, (congrArg Prod.snd heq).trans hstep, htgid, hrun', rfl,
          hgroup.symm⟩
      · cases h
  | guest | input | network | expireNetworkWait | resizeTerminal | resume => cases h

/-- After `stop_thread_group` every task of the group is stopped. -/
lemma stopThreadGroup_stopped (hcpu : k.onCpu) (signal : ℕ) :
    ∀ p ∈ (k.stopThreadGroup signal).2.liveTasks, p.tgid = k.proc.tgid → p.stopped := by
  set marked := k.markStopped signal with hmarked
  have hreaches : Reaches False marked .resume (k.stopThreadGroup signal).2 := by
    have htold := Local.notifyParentSigchld marked .resume marked marked.proc.ppid
    have h : Reaches False marked .resume _ := .stay .refl htold
    exact h.blockAndSwitch ((congrArg Core.onCpu htold.core).trans hcpu) _
  intro p' hp'
  obtain ⟨p, hp, hmoves⟩ := hreaches.tasks p' hp'
  have hmark : p.tgid = k.proc.tgid → p.stopped := by
    intro htgid
    rcases mem_liveTasks.mp hp with ⟨-, rfl⟩ | ⟨t', ht', rfl⟩
    · rfl
    obtain ⟨t, ht, rfl⟩ := List.mem_map.mp ht'
    by_cases hgroup : t.proc.tgid = k.proc.tgid
    · rw [if_pos hgroup]
    · rw [if_neg hgroup] at htgid
      exact absurd htgid hgroup
  clear hp hp'
  -- nothing that follows continues a task, or makes one
  induction hmoves with
  | refl => exact hmark
  | tail _ hmove ih =>
    cases hmove with
    | pending | cells | handler | report => exact ih
    | stop => exact fun _ => rfl
    | cont continued => exact absurd continued (by simp [continues_eq_false])
    | mask mask called => cases called
    | thread born => obtain ⟨-, -, spec, hspec⟩ := born; cases hspec
    | fork _ _ born => obtain ⟨-, -, spec, hspec⟩ := born; cases hspec
    | other called => cases called
    | others t called => cases called

/-- **The group an event stops is stopped after it.** -/
lemma stopOf_stopped (hsound : k.StopsSound)
    (h : k.stopOf e = some g) : (k.step e).Stopped g where
  stopped := by
    obtain ⟨k', signal, hstep, rfl, hcpu, -, -⟩ := stopOf_eq h
    rw [hstep]
    exact stopThreadGroup_stopped hcpu signal
  given := by
    obtain ⟨-, -, -, -, -, hcpu, rfl⟩ := stopOf_eq h
    have hfresh := Core.numbered_running hcpu hsound.numbered
    exact (hfresh.fresh _ mem_cons_self).2.trans_le
      (Core.nextPid_moves (k.step_moves (P := fun _ _ => True) e fun _ _ _ _ _ _ => trivial))

/-! ### Reports that are returned -/

omit [GuestMem M] in
/-- The report that is taken was held by a task of the queue, and the others stay. -/
lemma takeReport_eq {ppid : ℕ} {filter : ℤ} {sig : ℕ} {ts' : List ParkedTask} :
    ∀ {ts : List ParkedTask}, Scheduler.takeReport ppid filter ts = (some (g, sig), ts') →
      ∃ pre t post, ts = pre ++ t :: post ∧ t.proc.tgid = g ∧ t.proc.stopReport = some sig ∧
        ts' = pre ++ { t with proc := { t.proc with stopReport := none } } :: post
  | [], h => by cases h
  | t :: ts, h => by
      rw [Scheduler.takeReport] at h
      split at h
      · rename_i sig' _ hreport
        obtain ⟨hfound, rfl⟩ := Prod.mk.inj h
        cases hfound
        exact ⟨[], t, ts, rfl, rfl, hreport, rfl⟩
      obtain ⟨hfound, rfl⟩ := Prod.mk.inj h
      obtain ⟨pre, u, post, hts, hg, hreport, hrest⟩ := takeReport_eq (Prod.ext hfound rfl)
      exact ⟨t :: pre, u, post, congrArg (t :: ·) hts, hg, hreport, congrArg (t :: ·) hrest⟩

/-- Copying a status out changes neither the scheduler nor the caller. -/
lemma reportStatus_frame (k : Kernel M) (statusPtr status pid : ℕ) (ended : Bool) :
    (k.reportStatus statusPtr status pid ended).2.sched = k.sched ∧
      (k.reportStatus statusPtr status pid ended).2.proc = k.proc := by
  have hwrite : (k.writeMem statusPtr (le32 status)).2.sched = k.sched ∧
    (k.writeMem statusPtr (le32 status)).2.proc = k.proc := ⟨rfl, rfl⟩
  rw [reportStatus]
  split
  · split <;> rename_i heq <;> rw [heq] at hwrite
    · dsimp only
      split <;> exact hwrite
    · exact hwrite
  · dsimp only
    split <;> exact ⟨rfl, rfl⟩

/-- An event that returns the stop of a group takes its report from the queue. -/
lemma reportOf_eq (h : k.reportOf e = some g) :
    ∃ (sig ppid : ℕ) (filter : ℤ) (parked : List ParkedTask),
      Scheduler.takeReport ppid filter k.sched.parked = (some (g, sig), parked) ∧
        (k.step e).sched.parked = parked ∧
        (k.step e).proc.stopReport = k.proc.stopReport ∧ k.onCpu := by
  rw [reportOf] at h
  split at h
  · rename_i pid statusPtr options k' hcall
    -- only `wait4` returns a report, and only when there is no zombie to return
    obtain ⟨hcpu, -, rfl, hstep⟩ := dispatched_eq hcall
    obtain ⟨signals, hscan⟩ := scanned_signals (k.actsOf k.proc) allSignals k.proc
    have hreport : k.pendingSignalAction.2.proc.stopReport = k.proc.stopReport :=
      (congrArg Process.stopReport hscan :)
    have hsched : k.pendingSignalAction.2.sched = k.sched := rfl
    rw [hstep, dispatch, sysWait4, ← hsched]
    clear hstep hcall hscan hsched
    generalize k.pendingSignalAction.2 = k' at *
    dsimp only at h ⊢
    generalize (if 0 < pid then pid else -1) = filter at *
    split at h
    · cases h
    rename_i hzombie
    split at h
    · rename_i huntraced
      rw [hzombie]
      dsimp only
      rw [waitForChild, if_pos huntraced]
      -- with `WUNTRACED` the scheduler is asked for a report
      cases htaken : k'.sched.takeStopReport k'.proc.tgid filter with
      | mk report sched =>
        rw [htaken] at h
        obtain ⟨hfound, hparked⟩ := Prod.mk.inj htaken
        cases report with
        | none => cases h
        | some report =>
          obtain ⟨group, sig⟩ := report
          obtain ⟨hkept, hproc⟩ := reportStatus_frame ({ k' with sched := sched } : Kernel M)
            statusPtr (sig * 256 + 0x7f) group false
          dsimp only at h ⊢
          split at h
          · obtain rfl := some.inj h
            refine ⟨sig, _, _, sched.parked,
              Prod.ext hfound (congrArg Scheduler.parked hparked), ?_, ?_, hcpu⟩
            · rw [hkept]
            · rw [hproc]
              exact hreport
          · cases h
    · cases h
  · cases h

/-- A stop that is returned was held. -/
lemma not_unreported (h : k.reportOf e = some g) :
    ¬ k.Unreported g := by
  obtain ⟨sig, ppid, filter, parked, htaken, -, -, -⟩ := reportOf_eq h
  obtain ⟨pre, t, post, hts, htgid, hreport, -⟩ := takeReport_eq htaken
  intro hnone
  have ht : t ∈ k.sched.parked := hts ▸ mem_append_right _ mem_cons_self
  have hfree := hnone t.proc (mem_liveTasks.mpr (.inr ⟨t, ht, rfl⟩)) htgid
  cases hfree.symm.trans hreport

/-- **A stop that was returned is not held any more.** -/
lemma reportOf_unreported (hsound : k.StopsSound)
    (h : k.reportOf e = some g) : (k.step e).Unreported g := by
  obtain ⟨sig, ppid, filter, parked, htaken, hparked, hproc, hcpu⟩ := reportOf_eq h
  obtain ⟨pre, t, post, hts, htgid, hreport, rfl⟩ := takeReport_eq htaken
  have hlive : ∀ u ∈ k.sched.parked, u.proc ∈ k.liveTasks :=
    fun u hu => mem_liveTasks.mpr (.inr ⟨u, hu, rfl⟩)
  have ht : t ∈ k.sched.parked := hts ▸ mem_append_right _ mem_cons_self
  have hleader : t.proc.pid = g :=
    (hsound.reports _ (hlive t ht) (by simp [hreport])).2.trans htgid
  have hpids : (k.sched.parked.map fun u => u.proc.pid).Nodup := by
    have hcons := (Core.numbered_running hcpu hsound.numbered).pids
    rw [map_cons, nodup_cons] at hcons
    have hmap : k.core.parked.map Ident.pid = k.sched.parked.map fun u => u.proc.pid :=
      List.map_map
    exact hmap ▸ hcons.2
  -- another report of the group would be held by a second task with the leader's pid
  have hothers : ∀ u ∈ pre ++ post, u.proc.tgid = g → u.proc.stopReport = none := by
    intro u hu hgroup
    by_contra hheld
    have hu' : u ∈ k.sched.parked := by
      rw [hts]
      rcases mem_append.mp hu with hu | hu
      · exact mem_append_left _ hu
      · exact mem_append_right _ (mem_cons_of_mem _ hu)
    have hpid : u.proc.pid = t.proc.pid :=
      ((hsound.reports _ (hlive u hu') hheld).2.trans hgroup).trans hleader.symm
    have hperm : (pre ++ t :: post).Perm (t :: (pre ++ post)) := perm_middle
    rw [hts, ((hperm.map fun u => u.proc.pid).nodup_iff), map_cons, nodup_cons] at hpids
    exact hpids.1 (hpid ▸ List.mem_map_of_mem hu)
  intro p hp hgroup
  rcases mem_liveTasks.mp hp with ⟨-, rfl⟩ | ⟨u, hu, rfl⟩
  · rw [hproc]
    by_contra hheld
    have hrun := hsound.reports k.proc (mem_liveTasks.mpr (.inl ⟨hcpu, rfl⟩)) hheld
    exact absurd (hrun.1.symm.trans (hsound.awake hcpu)) (by decide)
  rw [hparked] at hu
  rcases mem_append.mp hu with hu | hu
  · exact hothers u (mem_append_left _ hu) hgroup
  rcases mem_cons.mp hu with rfl | hu
  · rfl
  · exact hothers u (mem_append_right _ hu) hgroup

/-! ### Whole runs -/

/-- An event of a run: a call that `Call.other` stands for leaves job control alone. -/
abbrev JobEvent (M : Type) : Type := { e : Event M // KeepsStops e }

/-- The kernel after an event. -/
def jobStep (k : Kernel M) (e : JobEvent M) : Kernel M := k.step e.1

/-- **In every run no stopped task is on the CPU**, and the report of a stop is held by the leader
of a group that is stopped. -/
theorem run_awake (k : Kernel M) (image : M) (es : List (JobEvent M)) :
    let now := run jobStep (k.load image) es
    (now.onCpu = true → now.proc.stopped = false) ∧
      ∀ p ∈ now.liveTasks, p.stopReport ≠ none → p.stopped = true ∧ p.pid = p.tgid := by
  intro now
  have hnow : now.StopsSound :=
    run_invariant StopsSound (fun _ e h => step_stopsSound h e.2) es (load_stopsSound k image)
  exact ⟨hnow.awake, hnow.reports⟩

/-- **Job-control stops hold.**  In every run, once an event stopped a group, no task of it is
on the CPU as long as no SIGCONT is addressed to it.  And a stop is returned by `wait4` at most
once: before the first report of a group, and between two of them, the group was stopped. -/
theorem stops_hold (k : Kernel M) (image : M) (es : List (JobEvent M)) (e : JobEvent M)
    (after : List (JobEvent M)) (g : ℕ) :
    let before := run jobStep (k.load image) es
    let now := run jobStep (jobStep before e) after
    (before.stopOf e.1 = some g →
      Guarded jobStep (fun k e => ¬ k.Continued e.1 g) (jobStep before e) after →
        ¬ (now.onCpu = true ∧ now.proc.tgid = g)) ∧
      (Guarded jobStep (fun k e => k.stopOf e.1 ≠ some g) (k.load image) es →
        before.reportOf e.1 ≠ some g) ∧
      (before.reportOf e.1 = some g →
        Guarded jobStep (fun k e => k.stopOf e.1 ≠ some g) (jobStep before e) after →
          ∀ e' : JobEvent M, now.reportOf e'.1 ≠ some g) := by
  intro before now
  have hbefore : before.StopsSound :=
    run_invariant StopsSound (fun _ e h => step_stopsSound h e.2) es (load_stopsSound k image)
  have hunreported {k : Kernel M} (h : k.Unreported g) {es : List (JobEvent M)}
      (hnone : Guarded jobStep (fun k e => k.stopOf e.1 ≠ some g) k es) :
      (run jobStep k es).Unreported g :=
    Guarded.invariant (fun (k : Kernel M) (e : JobEvent M) (h : k.Unreported g) hstop =>
      step_unreported h e.2 hstop) h hnone
  refine ⟨fun hstop huntil => ?_, fun hnone hreport => ?_, fun hreport hnone e' hagain => ?_⟩
  · -- a task that is stopped is not on the CPU
    have hheld : now.StopsSound ∧ now.Stopped g :=
      Guarded.invariant
        (fun (k : Kernel M) (e : JobEvent M) (h : k.StopsSound ∧ k.Stopped g) hcont =>
          ⟨step_stopsSound h.1 e.2, step_stopped h.1 h.2 e.2 hcont⟩)
        ⟨step_stopsSound hbefore e.2, stopOf_stopped hbefore hstop⟩ huntil
    rintro ⟨hcpu, hgroup⟩
    have hstopped := hheld.2.stopped now.proc (mem_liveTasks.mpr (.inl ⟨hcpu, rfl⟩)) hgroup
    exact absurd (hstopped.symm.trans (hheld.1.awake hcpu)) (by decide)
  · refine not_unreported hreport (hunreported (fun p hp _ => ?_) hnone)
    rw [mem_singleton.mp hp]
    rfl
  · exact not_unreported hagain (hunreported (reportOf_unreported hbefore hreport) hnone)

end

/-- The root forks 1001 and lets it run. -/
def childRuns : List (JobEvent Unit) :=
  [⟨.syscall (.clone forkSpec), by rintro _ _ _ _ ⟨⟩⟩,
    ⟨.syscall .sched_yield, by rintro _ _ _ _ ⟨⟩⟩]

/-- The child stops itself. -/
def childStops : JobEvent Unit := ⟨.syscall (.kill 1001 SIGSTOP), by rintro _ _ _ _ ⟨⟩⟩

/-- The root collects the stop. -/
def rootWaits : JobEvent Unit := ⟨.syscall (.wait4 (-1) 0 WUNTRACED), by rintro _ _ _ _ ⟨⟩⟩

/-- The root yields with only the stopped child beside it. -/
def rootYields : JobEvent Unit := ⟨.syscall .sched_yield, by rintro _ _ _ _ ⟨⟩⟩

/-- The stopped child does not run when the root yields, and its stop is returned once. -/
theorem childStops_holds :
    let start := (Kernel.new ()).load ()
    let now := run jobStep start (childRuns ++ [childStops, rootWaits, rootYields])
    (run jobStep start (childRuns ++ [childStops])).reportOf rootWaits.1 = some 1001 ∧
      ¬ (now.onCpu = true ∧ now.proc.tgid = 1001) ∧ now.reportOf rootWaits.1 ≠ some 1001 := by
  have hreport : (run jobStep ((Kernel.new ()).load ()) (childRuns ++ [childStops])).reportOf
      rootWaits.1 = some 1001 := by decide +kernel
  have hheld := (stops_hold (Kernel.new ()) () childRuns childStops [rootWaits, rootYields] 1001).1
    (by decide +kernel) ⟨by decide +kernel, by decide +kernel, trivial⟩
  have honce := (stops_hold (Kernel.new ()) () (childRuns ++ [childStops]) rootWaits
    [rootYields] 1001).2.2 hreport ⟨by decide +kernel, trivial⟩ rootWaits
  simp only [run_append, run_cons, run_nil] at hheld honce hreport ⊢
  exact ⟨hreport, hheld, honce⟩

end Kernel

end WebTos.Proc
