import WebTos.Proc.Interrupt

/-!
Telling a parent of a child's death (`notify_parent_sigchld`).

A zombie is recorded when a process exits, with no task on the CPU any more, and when SIGKILL
removes the leader of a process, with the killer on the CPU.  The parent is told by making
SIGCHLD pending on one of its parked threads.

* `chooseThread_chosen`: the thread a signal goes to;
* `Death`, `Kernel.deathsOf`: the zombies an event records, each with the state before and
  after the parent was told; `Kernel.accounts_step`: these are all;
* `Kernel.deaths_told_iff`: every death of an event is told, exactly if the parent is not the
  running process, or has another thread to be told, or was told already.
-/

namespace WebTos.Proc

open Lib List Option

namespace Process

/-- The signal is blocked. -/
def blocks (p : Process) (signal : ℕ) : Bool := p.sigmask &&& signalBit signal != 0

lemma pends_raise_self (p : Process) {s : ℕ} (hs : s ∈ Kernel.allSignals) :
    (p.raise s).pends s := by
  have hbit : ∀ s ∈ Kernel.allSignals, signalBit s ≠ 0 := by decide +kernel
  have habsorb : (p.pendingSignals ||| signalBit s) &&& signalBit s = signalBit s := by
    apply UInt64.toBitVec_inj.mp
    simp only [UInt64.toBitVec_and, UInt64.toBitVec_or]
    ext i hi
    simp only [BitVec.getElem_and, BitVec.getElem_or]
    cases p.pendingSignals.toBitVec[i] <;> cases (signalBit s).toBitVec[i] <;> rfl
  rw [pends, raise, bne_iff_ne]
  dsimp only
  rw [habsorb]
  exact hbit s hs

end Process

/-! ### The thread a signal goes to -/

/-- The task is a thread of the process that the signal may go to. -/
def Candidate (tgid : ℕ) (counts : ParkedTask → Bool) (t : ParkedTask) : Prop :=
  t.proc.tgid = tgid ∧ counts t = true

/-- The choice of a thread: there is one if there is a candidate, and it does not block the
signal if some candidate does not. -/
structure Chosen (tgid signal : ℕ) (counts : ParkedTask → Bool) (ts : List ParkedTask)
    (choice : Option ℕ) : Prop where
  nobody : choice = none → ∀ t ∈ ts, ¬ Candidate tgid counts t
  somebody : ∀ i, choice = some i → ∃ t, ts[i]? = some t ∧ Candidate tgid counts t ∧
    ((∃ u ∈ ts, Candidate tgid counts u ∧ u.proc.blocks signal = false) →
      t.proc.blocks signal = false)

/-- The choices so far, for the tasks that were looked at. -/
structure SoFar (tgid signal : ℕ) (counts : ParkedTask → Bool) (ts : List ParkedTask)
    (unblocked fallback : Option ℕ) : Prop where
  free : ∀ i, unblocked = some i → ∃ t, ts[i]? = some t ∧ Candidate tgid counts t ∧
    t.proc.blocks signal = false
  noneFree : unblocked = none → ∀ t ∈ ts, Candidate tgid counts t → t.proc.blocks signal = true
  other : ∀ i, fallback = some i → ∃ t, ts[i]? = some t ∧ Candidate tgid counts t
  noOther : fallback = none → ∀ t ∈ ts, Candidate tgid counts t → t.proc.blocks signal = false

namespace SoFar

variable {tgid signal : ℕ} {counts : ParkedTask → Bool} {ts : List ParkedTask} {t : ParkedTask}
  {unblocked fallback : Option ℕ}

lemma start : SoFar tgid signal counts [] none none where
  free _ h := by cases h
  noneFree _ _ ht := absurd ht not_mem_nil
  other _ h := by cases h
  noOther _ _ ht := absurd ht not_mem_nil

lemma chosen (h : SoFar tgid signal counts ts unblocked fallback) :
    Chosen tgid signal counts ts (unblocked.or fallback) := by
  refine ⟨fun hnone t ht hcand => ?_, fun i hi => ?_⟩
  · rw [or_eq_none_iff] at hnone
    have hblocked := h.noneFree hnone.1 t ht hcand
    rw [h.noOther hnone.2 t ht hcand] at hblocked
    cases hblocked
  cases unblocked with
  | some j =>
    obtain ⟨t, ht, hcand, hfree⟩ := h.free j rfl
    cases hi
    exact ⟨t, ht, hcand, fun _ => hfree⟩
  | none =>
    obtain ⟨t, ht, hcand⟩ := h.other i hi
    refine ⟨t, ht, hcand, ?_⟩
    rintro ⟨u, hu, hucand, hufree⟩
    rw [h.noneFree rfl u hu hucand] at hufree
    cases hufree

/-- A task that was found is still there. -/
lemma still {P : ParkedTask → Prop} {i : ℕ} (h : ∃ u, ts[i]? = some u ∧ P u) :
    ∃ u, (ts ++ [t])[i]? = some u ∧ P u := by
  obtain ⟨u, hu, hP⟩ := h
  exact ⟨u, by rw [List.getElem?_append_left (List.getElem?_eq_some_iff.mp hu).1, hu], hP⟩

variable (h : SoFar tgid signal counts ts unblocked fallback)
include h

/-- A task the signal may not go to. -/
lemma skip (hcand : ¬ Candidate tgid counts t) :
    SoFar tgid signal counts (ts ++ [t]) unblocked fallback := by
  have hold {u : ParkedTask} (hu : u ∈ ts ++ [t]) (hucand : Candidate tgid counts u) : u ∈ ts := by
    rcases mem_append.mp hu with hu | hu
    · exact hu
    · rw [mem_singleton.mp hu] at hucand
      exact absurd hucand hcand
  exact ⟨fun i hi => still (h.free i hi),
    fun hnone u hu hucand => h.noneFree hnone u (hold hu hucand) hucand,
    fun i hi => still (h.other i hi),
    fun hnone u hu hucand => h.noOther hnone u (hold hu hucand) hucand⟩

lemma takeFree (hcand : Candidate tgid counts t) (hfree : t.proc.blocks signal = false) :
    SoFar tgid signal counts (ts ++ [t]) (unblocked.or (some ts.length)) fallback := by
  refine ⟨fun i hi => ?_, fun hnone => ?_, fun i hi => ?_, fun hnone u hu hucand => ?_⟩
  · cases unblocked with
    | some j =>
      cases hi
      exact still (h.free _ rfl)
    | none =>
      cases hi
      exact ⟨t, getElem?_concat_length, hcand, hfree⟩
  · cases unblocked <;> cases hnone
  · exact still (h.other i hi)
  rcases mem_append.mp hu with hu | hu
  · exact h.noOther hnone u hu hucand
  · rw [mem_singleton.mp hu]
    exact hfree

lemma takeBlocked (hcand : Candidate tgid counts t) (hblocked : t.proc.blocks signal)
    (leader : Bool) :
    SoFar tgid signal counts (ts ++ [t]) unblocked
      (if leader then some ts.length else fallback.or (some ts.length)) := by
  have hself : ∃ u, (ts ++ [t])[ts.length]? = some u ∧ Candidate tgid counts u :=
    ⟨t, getElem?_concat_length, hcand⟩
  refine ⟨fun i hi => ?_, fun hnone u hu hucand => ?_, fun i hi => ?_, fun hnone => ?_⟩
  · exact still (h.free i hi)
  · rcases mem_append.mp hu with hu | hu
    · exact h.noneFree hnone u hu hucand
    · rw [mem_singleton.mp hu]
      exact hblocked
  · cases leader with
    | true =>
      cases hi
      exact hself
    | false =>
      cases fallback with
      | some j =>
        cases hi
        exact still (h.other _ rfl)
      | none =>
        cases hi
        exact hself
  · cases leader <;> cases fallback <;> cases hnone

end SoFar

/-- **The thread a signal goes to**, with the tasks in `pre` looked at. -/
lemma chooseThread_append (tgid signal : ℕ) (counts : ParkedTask → Bool) (ts : List ParkedTask) :
    ∀ (pre : List ParkedTask) (unblocked fallback : Option ℕ),
      SoFar tgid signal counts pre unblocked fallback →
      Chosen tgid signal counts (pre ++ ts)
        (chooseThread tgid signal counts pre.length unblocked fallback ts) := by
  induction ts with
  | nil =>
    intro pre unblocked fallback h
    rw [chooseThread, append_nil]
    exact h.chosen
  | cons t ts ih =>
    intro pre unblocked fallback h
    have hshift : pre ++ t :: ts = (pre ++ [t]) ++ ts := by
      rw [append_assoc, singleton_append]
    have hlength : pre.length + 1 = (pre ++ [t]).length := by
      rw [length_append, length_singleton]
    rw [chooseThread]
    split
    · rename_i hother
      rw [hshift, hlength]
      refine ih _ _ _ (h.skip ?_)
      rintro ⟨htgid, hcounts⟩
      simp [htgid, hcounts] at hother
    rename_i hcand
    have hcand : Candidate tgid counts t := by
      simpa [Candidate, not_or] using hcand
    dsimp only
    split
    · rename_i hfree
      have hfree : t.proc.blocks signal = false := by simpa [Process.blocks] using hfree
      split
      · -- the leader ends the search
        refine ⟨fun hnone => absurd hnone (some_ne_none _), fun i hi => ?_⟩
        cases hi
        exact ⟨t, by simp, hcand, fun _ => hfree⟩
      · rw [hshift, hlength]
        exact ih _ _ _ (h.takeFree hcand hfree)
    rename_i hblocked
    have hblocked : t.proc.blocks signal := by
      simpa [Process.blocks] using hblocked
    rw [hshift, hlength]
    exact ih _ _ _ (h.takeBlocked hcand hblocked _)

lemma chooseThread_chosen (tgid signal : ℕ) (counts : ParkedTask → Bool) (ts : List ParkedTask) :
    Chosen tgid signal counts ts (chooseThread tgid signal counts 0 none none ts) :=
  chooseThread_append tgid signal counts ts [] none none SoFar.start

namespace Kernel

variable {M : Type}

/-! ### Telling the parent -/

/-- The process is alive: a task of it can still execute. -/
def Alive (k : Kernel M) (tgid : ℕ) : Prop := ∃ p ∈ k.liveTasks, p.tgid = tgid

/-- The process has a handler for the signal. -/
def HasHandler (k : Kernel M) (tgid signal : ℕ) : Prop :=
  ∀ p ∈ k.liveTasks, p.tgid = tgid → ∃ a, k.actsOf p signal = some a ∧ 1 < a.handler

/-- The process was told of a death: SIGCHLD is pending on a thread of it, and on one that does
not block it if there is such a thread. -/
structure Told (k : Kernel M) (tgid : ℕ) : Prop where
  pending : ∃ p ∈ k.liveTasks, p.tgid = tgid ∧ p.pends SIGCHLD = true
  preferred : (∃ p ∈ k.liveTasks, p.tgid = tgid ∧ p.blocks SIGCHLD = false) →
    ∃ p ∈ k.liveTasks, p.tgid = tgid ∧ p.blocks SIGCHLD = false ∧ p.pends SIGCHLD = true

/-- The process can be told: it is not the running one, or has a parked thread that does not
block SIGCHLD, or its running thread blocks it and another is parked, or has it pending. -/
def Tellable (k : Kernel M) (tgid : ℕ) : Prop :=
  k.onCpu = false ∨ k.proc.tgid ≠ tgid ∨
    (∃ t ∈ k.sched.parked, t.proc.tgid = tgid ∧ t.proc.blocks SIGCHLD = false) ∨
    (k.sched.groupHasParked tgid = true ∧ k.proc.blocks SIGCHLD = true) ∨
    k.proc.pends SIGCHLD = true

variable {k : Kernel M} {tgid signal : ℕ} {p : Process}

lemma groupHasParked_iff :
    k.sched.groupHasParked tgid ↔ ∃ t ∈ k.sched.parked, t.proc.tgid = tgid := by
  simp [Scheduler.groupHasParked]

lemma notify_eq (halive : k.Alive tgid)
    (hhandler : k.HasHandler tgid SIGCHLD) :
    k.notifyParentSigchld tgid = k.raiseAt SIGCHLD
      (chooseThread tgid SIGCHLD (fun _ => true) 0 none none k.sched.parked) := by
  have hinstalled : ((k.groupActs tgid).any fun acts =>
      (acts SIGCHLD).any fun a => decide (1 < a.handler)) = true := by
    rw [groupActs]
    cases hfind : k.sched.parked.find? fun t => t.proc.tgid == tgid with
    | some t =>
      have ht : t ∈ k.sched.parked := mem_of_find?_eq_some hfind
      have htgid : t.proc.tgid = tgid := by simpa using find?_some hfind
      obtain ⟨a, ha, hlt⟩ := hhandler t.proc (mem_liveTasks.mpr (.inr ⟨t, ht, rfl⟩)) htgid
      simp [ha, hlt]
    | none =>
      obtain ⟨p, hp, htgid⟩ := halive
      rcases mem_liveTasks.mp hp with ⟨hcpu, rfl⟩ | ⟨t, ht, rfl⟩
      · obtain ⟨a, ha, hlt⟩ := hhandler k.proc hp htgid
        simp [htgid, ha, hlt]
      · exact absurd htgid (by simpa using find?_eq_none.mp hfind t ht)
  rw [notifyParentSigchld, hinstalled]
  rfl

lemma mem_liveTasks_raiseAt {i : ℕ} :
    p ∈ (k.raiseAt signal (some i)).liveTasks ↔ (k.onCpu = true ∧ p = k.proc) ∨
      ∃ j t, k.sched.parked[j]? = some t ∧ p = if j = i then t.proc.raise signal else t.proc := by
  have hparked : (k.raiseAt signal (some i)).sched.parked
      = k.sched.parked.modify i (ParkedTask.raise signal) := rfl
  rw [mem_liveTasks, hparked]
  refine or_congr Iff.rfl ?_
  constructor
  · rintro ⟨u, hu, rfl⟩
    obtain ⟨j, hj⟩ := mem_iff_getElem?.mp hu
    rw [getElem?_modify] at hj
    obtain ⟨t, ht, rfl⟩ := map_eq_some_iff.mp hj
    refine ⟨j, t, ht, ?_⟩
    by_cases hij : i = j
    · subst hij
      simp [ParkedTask.raise]
    · simp [hij, Ne.symm hij]
  · rintro ⟨j, t, ht, rfl⟩
    refine ⟨if i = j then t.raise signal else t, mem_iff_getElem?.mpr ⟨j, ?_⟩, ?_⟩
    · rw [getElem?_modify, ht]
      rfl
    by_cases hij : i = j
    · simp [hij, ParkedTask.raise]
    · simp [hij, Ne.symm hij]

lemma blocks_raised {c : Prop} [Decidable c] :
    (if c then p.raise signal else p).blocks signal = p.blocks signal := by
  split <;> rfl

/-- Raising a signal leaves the process a task belongs to. -/
lemma tgid_raised {c : Prop} [Decidable c] :
    (if c then p.raise signal else p).tgid = p.tgid := by
  split <;> rfl

lemma sigchld_mem : SIGCHLD ∈ allSignals := by decide

variable (halive : k.Alive tgid) (hhandler : k.HasHandler tgid SIGCHLD)
include halive hhandler

lemma tellable_of_told (h : (k.notifyParentSigchld tgid).Told tgid) :
    k.Tellable tgid := by
  rw [notify_eq halive hhandler] at h
  have hchosen := chooseThread_chosen tgid SIGCHLD (fun _ => true) k.sched.parked
  -- the running thread is the only one left that could have been told
  by_contra hnot
  simp only [Tellable, not_or, not_exists, not_and, Bool.not_eq_false, Bool.not_eq_true,
    ne_eq, not_not] at hnot
  obtain ⟨hcpu, hrunning, hblocking, hparked, hpends⟩ := hnot
  rcases hchoice : chooseThread tgid SIGCHLD (fun _ => true) 0 none none k.sched.parked with _ | i
  · rw [hchoice] at h hchosen
    obtain ⟨p, hp, htgid, hpend⟩ := h.pending
    rcases mem_liveTasks.mp hp with ⟨-, rfl⟩ | ⟨t, ht, rfl⟩
    · exact absurd hpend (by simp [raiseAt, hpends])
    · exact hchosen.nobody rfl t ht ⟨htgid, rfl⟩
  rw [hchoice] at h hchosen
  obtain ⟨t, ht, ⟨htgid, -⟩, -⟩ := hchosen.somebody i rfl
  have hfree := hparked (groupHasParked_iff.mpr ⟨t, mem_of_getElem? ht, htgid⟩)
  obtain ⟨p, hp, hptgid, hpfree, hpend⟩ := h.preferred
    ⟨k.proc, mem_liveTasks_raiseAt.mpr (.inl ⟨hcpu, rfl⟩), hrunning, hfree⟩
  rcases mem_liveTasks_raiseAt.mp hp with ⟨-, rfl⟩ | ⟨j, u, hu, rfl⟩
  · rw [hpends] at hpend
    cases hpend
  rw [tgid_raised] at hptgid
  rw [blocks_raised, hblocking u (mem_of_getElem? hu) hptgid] at hpfree
  cases hpfree

lemma told_of_tellable (h : k.Tellable tgid) :
    (k.notifyParentSigchld tgid).Told tgid := by
  rw [notify_eq halive hhandler]
  have hchosen := chooseThread_chosen tgid SIGCHLD (fun _ => true) k.sched.parked
  rcases hchoice : chooseThread tgid SIGCHLD (fun _ => true) 0 none none k.sched.parked with _ | i
  · rw [hchoice] at hchosen
    have hparked : ∀ t ∈ k.sched.parked, t.proc.tgid ≠ tgid := fun t ht htgid =>
      hchosen.nobody rfl t ht ⟨htgid, rfl⟩
    have honly : ∀ p ∈ k.liveTasks, p.tgid = tgid → k.onCpu ∧ p = k.proc := by
      intro p hp htgid
      rcases mem_liveTasks.mp hp with hrunning | ⟨t, ht, rfl⟩
      · exact hrunning
      · exact absurd htgid (hparked t ht)
    obtain ⟨p, hp, htgid⟩ := halive
    obtain ⟨hcpu, rfl⟩ := honly p hp htgid
    have hpends : k.proc.pends SIGCHLD := by
      rcases h with h | h | ⟨t, ht, httgid, -⟩ | ⟨hgroup, -⟩ | h
      · rw [hcpu] at h
        cases h
      · exact absurd htgid h
      · exact absurd httgid (hparked t ht)
      · obtain ⟨t, ht, httgid⟩ := groupHasParked_iff.mp hgroup
        exact absurd httgid (hparked t ht)
      · exact h
    refine ⟨⟨k.proc, hp, htgid, hpends⟩, ?_⟩
    rintro ⟨q, hq, hqtgid, hqfree⟩
    obtain ⟨-, rfl⟩ := honly q hq hqtgid
    exact ⟨k.proc, hp, htgid, hqfree, hpends⟩
  rw [hchoice] at hchosen
  obtain ⟨t, ht, ⟨htgid, -⟩, hfree⟩ := hchosen.somebody i rfl
  have hraised : t.proc.raise SIGCHLD ∈ (k.raiseAt SIGCHLD (some i)).liveTasks :=
    mem_liveTasks_raiseAt.mpr (.inr ⟨i, t, ht, by rw [if_pos rfl]⟩)
  refine ⟨⟨_, hraised, htgid, t.proc.pends_raise_self sigchld_mem⟩, ?_⟩
  rintro ⟨q, hq, hqtgid, hqfree⟩
  by_cases hblocked : t.proc.blocks SIGCHLD = false
  · exact ⟨_, hraised, htgid, hblocked, t.proc.pends_raise_self sigchld_mem⟩
  -- no parked thread is free, so the free one is running
  have hnone : ∀ u ∈ k.sched.parked, u.proc.tgid = tgid → u.proc.blocks SIGCHLD ≠ false :=
    fun u hu hutgid hufree => hblocked (hfree ⟨u, hu, ⟨hutgid, rfl⟩, hufree⟩)
  rcases mem_liveTasks_raiseAt.mp hq with ⟨hcpu, rfl⟩ | ⟨j, u, hu, rfl⟩
  · refine ⟨k.proc, hq, hqtgid, hqfree, ?_⟩
    rcases h with h | h | ⟨u, hu, hutgid, hufree⟩ | ⟨-, hblocks⟩ | h
    · rw [hcpu] at h
      cases h
    · exact absurd hqtgid h
    · exact absurd hufree (hnone u hu hutgid)
    · rw [hqfree] at hblocks
      cases hblocks
    · exact h
  rw [tgid_raised] at hqtgid
  rw [blocks_raised] at hqfree
  exact absurd hqfree (hnone u (mem_of_getElem? hu) hqtgid)

end Kernel

/-! ### The deaths of an event -/

/-- A death: the zombie, the state in which it is recorded, and the state in which its parent
was told. -/
structure Death (M : Type) where
  zombie : Zombie
  before : Kernel M
  after : Kernel M

namespace Kernel

variable {M : Type} [GuestMem M]

/-- The task that exits, with those it takes along gone. -/
def exiting (k : Kernel M) (exitGroup : Bool) : Kernel M :=
  if exitGroup then k.releaseWaiters.killSiblings else k.releaseWaiters

/-- The exit of the task is the end of its process. -/
def endsProcess (k : Kernel M) (exitGroup : Bool) : Bool := exitGroup || k.proc.pid == k.proc.tgid

/-- The task has left, and its process is a zombie if it ended. -/
def exited (k : Kernel M) (status : ℕ) (reported : Bool) : Kernel M :=
  let k := if reported then k.pushZombie ⟨k.proc.tgid, k.proc.ppid, status⟩ else k
  { k with proc := { k.proc with fds := placeholderCell }, onCpu := false }.sweep

/-- The death in an exit, if it is one. -/
def exitDeaths (k : Kernel M) (status : ℕ) (exitGroup : Bool) : List (Death M) :=
  let k := k.exiting exitGroup
  if k.endsProcess exitGroup && k.proc.tgid != ROOT_PID then
    [⟨⟨k.proc.tgid, k.proc.ppid, status⟩, k.exited status true,
      (k.exited status true).notifyParentSigchld k.proc.ppid⟩]
  else []

/-- The death in the removal of one parked task, if it leads its process. -/
def taskDeaths (k : Kernel M) (index signal : ℕ) (t : ParkedTask) : List (Death M) :=
  if t.proc.pid = t.proc.tgid then
    [⟨⟨t.proc.tgid, t.proc.ppid, signal⟩,
      ((k.setParked (k.sched.parked.eraseIdx index)).releaseVfork t.proc.vforkDone).pushZombie
        ⟨t.proc.tgid, t.proc.ppid, signal⟩,
      k.killTask index signal t⟩]
  else []

/-- The deaths in the loop of SIGKILL. -/
def loopDeaths (target signal : ℕ) : ℕ → ℕ → Kernel M → List (Death M)
  | 0, _, _ => []
  | fuel + 1, index, k =>
    match k.sched.parked[index]? with
    | none => []
    | some t =>
      if t.proc.tgid = target then
        k.taskDeaths index signal t
          ++ loopDeaths target signal fuel index (k.killTask index signal t)
      else loopDeaths target signal fuel (index + 1) k

/-- The deaths in SIGKILL for several processes. -/
def groupDeaths (signal : ℕ) : List ℕ → Kernel M → List (Death M)
  | [], _ => []
  | target :: targets, k =>
    loopDeaths target signal k.sched.parked.length 0 k
      ++ groupDeaths signal targets (k.killGroup target signal).2

/-- The deaths in a signal a task sends to itself. -/
def selfDeaths (k : Kernel M) (signal : ℕ) : List (Death M) :=
  if k.proc.blocks signal then []
  else if ((k.actsOf k.proc signal).map (·.handler)).getD SIG_DFL = SIG_DFL
      ∧ defaultActionTerminates signal = true then k.exitDeaths signal true
  else []

/-- The deaths in `sys_kill`. -/
def killDeaths (k : Kernel M) (target : ℤ) (signal : ℕ) : List (Death M) :=
  if NSIG < signal ∨ signal = 0 then []
  else if target = k.proc.tgid ∨ target = k.proc.pid then k.selfDeaths signal
  else if signal = SIGKILL then groupDeaths signal ((k.victims target).getD []) k
  else []

/-- The deaths in what a pending signal does at a kernel boundary. -/
def signalDeaths (k : Kernel M) : List (Death M) :=
  match k.pendingSignalAction with
  | (.terminate sig, k) => k.exitDeaths sig true
  | _ => []

/-- The deaths in a system call. -/
def callDeaths (k : Kernel M) : Call M → List (Death M)
  | .exit code => k.exitDeaths (encodeExitStatus code) false
  | .exitGroup code => k.exitDeaths (encodeExitStatus code) true
  | .execve image false =>
    (k.releaseParent.discardImage.touch fun _ => (image, true)).2.exitDeaths (127 * 256) true
  | .kill target signal => k.killDeaths target signal
  | .sigprocmask mask => { k with proc := { k.proc with sigmask := mask } }.signalDeaths
  | _ => []

/-- **The deaths of an event**: the zombies it records, in order. -/
def deathsOf (k : Kernel M) : Event M → List (Death M)
  | .syscall call =>
    if !k.onCpu then []
    else
      match k.pendingSignalAction with
      | (.terminate sig, k) => k.exitDeaths sig true
      | (.stop _, _) => []
      | (_, k) => k.callDeaths call
  | _ => []

/-! ### These are all -/

variable {k : Kernel M} {signal : ℕ} {d : Death M}

/-- How a death is recorded.  `taskExit` pushes the zombie and tells the parent with no task on
the CPU, before it looks for the next task; `killTask` does so for a parked task that leads its
process, and the process `runner` goes on. -/
inductive Death.Recorded (runner : Option ℕ) : Death M → Prop
  | exit (k : Kernel M) (status : ℕ) (exitGroup : Bool)
      (hexit : k.taskExit status exitGroup = (((k.exiting exitGroup).exited status
        true).notifyParentSigchld (k.exiting exitGroup).proc.ppid).yieldCpu) :
      Recorded runner ⟨⟨(k.exiting exitGroup).proc.tgid, (k.exiting exitGroup).proc.ppid, status⟩,
        (k.exiting exitGroup).exited status true, ((k.exiting exitGroup).exited status
          true).notifyParentSigchld (k.exiting exitGroup).proc.ppid⟩
  | kill (k before : Kernel M) (index signal : ℕ) (t : ParkedTask)
      (hparked : k.sched.parked[index]? = some t) (hrunner : k.proc.tgid ∈ runner)
      (hbefore : before = ((k.setParked (k.sched.parked.eraseIdx index)).releaseVfork
        t.proc.vforkDone).pushZombie ⟨t.proc.tgid, t.proc.ppid, signal⟩)
      (hkill : k.killTask index signal t = (before.notifyParentSigchld t.proc.ppid).sweep) :
      Recorded runner ⟨⟨t.proc.tgid, t.proc.ppid, signal⟩, before, k.killTask index signal t⟩

namespace Death.Recorded

variable {runner : Option ℕ} (h : Death.Recorded runner d)

include h

/-- The parent was told in the state in which the zombie was recorded. -/
lemma told : d.after.liveTasks = (d.before.notifyParentSigchld d.zombie.ppid).liveTasks := by
  cases h with
  | exit => rfl
  | kill k before index signal t _ _ _ hkill =>
    rw [hkill]
    rfl

lemma running (hcpu : d.before.onCpu = true) : d.before.proc.tgid ∈ runner := by
  cases h with
  | exit => cases hcpu
  | kill k before index signal t _ hrunner hbefore _ =>
    have hrelease := (Local.releaseVfork k .resume
      (k.setParked (k.sched.parked.eraseIdx index)) t.proc.vforkDone).core
    have htgid : before.proc.tgid = k.proc.tgid :=
      hbefore ▸ congrArg (fun c : Core M => c.proc.tgid) hrelease
    exact htgid ▸ hrunner

end Death.Recorded

/-- The zombies recorded from one state to another are those of the deaths, and each death is
recorded as it should be. -/
structure Accounts (runner : Option ℕ) (k k' : Kernel M) (ds : List (Death M)) : Prop where
  died : k'.died = k.died ++ ds.map fun d => d.zombie.pid
  recorded : ∀ d ∈ ds, Death.Recorded runner d

namespace Accounts

variable {runner : Option ℕ} {k' k'' : Kernel M} {ds ds' : List (Death M)}

lemma none (h : k'.died = k.died) : Accounts runner k k' [] :=
  ⟨h.trans (append_nil _).symm, fun _ hd => absurd hd not_mem_nil⟩

lemma append (h : Accounts runner k k' ds) (h' : Accounts runner k' k'' ds') :
    Accounts runner k k'' (ds ++ ds') := by
  refine ⟨?_, forall_mem_append.mpr ⟨h.recorded, h'.recorded⟩⟩
  rw [h'.died, h.died, map_append, append_assoc]

/-- No zombie is recorded before. -/
lemma after (h : Accounts runner k' k'' ds) (hdied : k'.died = k.died) :
    Accounts runner k k'' ds :=
  ⟨hdied ▸ h.died, h.recorded⟩

end Accounts

omit [GuestMem M] in
/-- What the abstract scheduler does not see records no zombie. -/
lemma died_of_core {k' : Kernel M} (h : k'.core = k.core) : k'.died = k.died :=
  congrArg Core.died h

lemma died_yieldCpu (hcpu : k.onCpu = false) : k.yieldCpu.2.died = k.died := by
  have h : Reaches False k .resume k := .refl
  exact (h.yieldCpu hcpu).died

lemma died_stopThreadGroup (k : Kernel M) (signal : ℕ) :
    (k.stopThreadGroup signal).2.died = k.died :=
  (died_yieldCpu rfl).trans
    (congrArg Core.died (core_notifyParentSigchld (k.markStopped signal) _))

lemma died_exiting (hcpu : k.onCpu) (exitGroup : Bool) :
    (k.exiting exitGroup).died = k.died := by
  have h : Reaches False k .resume k := .refl
  rw [exiting]
  split <;> exact (h.releaseWaiters hcpu).1.died

lemma taskExit_eq (k : Kernel M) (status : ℕ) (exitGroup : Bool) :
    k.taskExit status exitGroup =
      let k := k.exiting exitGroup
      let reported := k.endsProcess exitGroup
      if k.proc.tgid = ROOT_PID ∧ reported = true then
        (.exit .halt, { k with exitCode := some (exitCodeOf status), onCpu := false })
      else
        (if reported then (k.exited status true).notifyParentSigchld k.proc.ppid
          else k.exited status false).yieldCpu := by
  rw [taskExit]
  have hexiting : (if exitGroup = true then k.releaseWaiters.killSiblings else k.releaseWaiters)
      = k.exiting exitGroup := rfl
  dsimp only
  rw [hexiting, ← endsProcess]
  split
  · rfl
  · cases (k.exiting exitGroup).endsProcess exitGroup <;> rfl

/-- The deaths of an exit: the machine halts with the root process, and a thread that is not the
leader leaves no zombie. -/
lemma accounts_taskExit (hcpu : k.onCpu) (status : ℕ) (exitGroup : Bool) (runner : Option ℕ) :
    Accounts runner k (k.taskExit status exitGroup).2 (k.exitDeaths status exitGroup) := by
  have hexit := taskExit_eq k status exitGroup
  refine Accounts.after ?_ (died_exiting hcpu exitGroup)
  rw [exitDeaths]
  dsimp only at hexit ⊢
  by_cases hends : (k.exiting exitGroup).endsProcess exitGroup
  · by_cases hroot : (k.exiting exitGroup).proc.tgid = ROOT_PID
    · rw [hexit, if_pos ⟨hroot, hends⟩, if_neg (by simp [hroot])]
      exact .none rfl
    rw [if_neg fun h => hroot h.1, if_pos hends] at hexit
    rw [if_pos (by simp [hends, hroot])]
    refine ⟨?_, forall_mem_singleton.mpr (.exit k status exitGroup hexit)⟩
    have htold := core_notifyParentSigchld ((k.exiting exitGroup).exited status true)
      (k.exiting exitGroup).proc.ppid
    rw [hexit, died_yieldCpu (congrArg Core.onCpu htold), died_of_core htold]
    rfl
  · rw [hexit, if_neg fun h => hends h.2, if_neg hends, if_neg (by simp [hends])]
    exact .none (died_yieldCpu rfl)

lemma accounts_killTask {index : ℕ} {t : ParkedTask} (ht : k.sched.parked[index]? = some t) :
    Accounts (some k.proc.tgid) k (k.killTask index signal t) (k.taskDeaths index signal t) := by
  have hrelease : ((k.setParked (k.sched.parked.eraseIdx index)).releaseVfork
      t.proc.vforkDone).died = k.died :=
    congrArg Core.died (Local.releaseVfork k .resume (k.setParked _) t.proc.vforkDone).core
  rw [taskDeaths]
  split
  · rename_i hleader
    refine ⟨?_, forall_mem_singleton.mpr (.kill k _ index signal t ht rfl rfl ?_)⟩ <;>
      rw [killTask, if_pos hleader]
    exact (died_of_core (core_notifyParentSigchld _ _)).trans
      (congrArg (· ++ [t.proc.tgid]) hrelease)
  · rename_i hthread
    rw [killTask, if_neg hthread]
    exact .none hrelease

/-- The loop of SIGKILL; the killer goes on. -/
lemma accounts_killLoop (target signal : ℕ) : ∀ (fuel index : ℕ) (hit : Bool) (k : Kernel M),
    Accounts (some k.proc.tgid) k (killLoop target signal fuel index hit k).2
      (loopDeaths target signal fuel index k)
  | 0, _, _, _ => .none rfl
  | fuel + 1, index, hit, k => by
      rw [killLoop, loopDeaths]
      cases ht : k.sched.parked[index]? with
      | none => exact .none rfl
      | some t =>
        have hrunning : (k.killTask index signal t).proc.tgid = k.proc.tgid :=
          congrArg (fun c : Core M => c.proc.tgid) (k.core_killTask index signal t)
        dsimp only
        split
        · have hrest := accounts_killLoop target signal fuel index true (k.killTask index signal t)
          rw [hrunning] at hrest
          exact (accounts_killTask ht).append hrest
        · exact accounts_killLoop target signal fuel _ _ _

lemma accounts_killGroup (k : Kernel M) (target signal : ℕ) :
    Accounts (some k.proc.tgid) k (k.killGroup target signal).2
      (loopDeaths target signal k.sched.parked.length 0 k) := by
  have hloop := accounts_killLoop target signal k.sched.parked.length 0 false k
  rw [killGroup]
  split
  rename_i hit k' heq
  rw [heq] at hloop
  split <;> exact ⟨hloop.died, hloop.recorded⟩

lemma accounts_killOne : ∀ (targets : List ℕ) (found : Bool) (k : Kernel M),
    Accounts (some k.proc.tgid) k (targets.foldl (killOne SIGKILL) (found, k)).2
      (groupDeaths SIGKILL targets k)
  | [], _, _ => .none rfl
  | target :: targets, found, k => by
      have hrunning : (k.killGroup target SIGKILL).2.proc.tgid = k.proc.tgid :=
        congrArg (fun c : Core M => c.proc.tgid) (k.core_killGroup target SIGKILL)
      have hrest := accounts_killOne targets (killOne SIGKILL (found, k) target).1
        (k.killGroup target SIGKILL).2
      rw [hrunning] at hrest
      exact (k.accounts_killGroup target SIGKILL).append hrest

omit [GuestMem M] in
/-- Other signals record no zombie. -/
lemma died_signalOne (h : signal ≠ SIGKILL) :
    ∀ (targets : List ℕ) (found : Bool) (k : Kernel M),
      (targets.foldl (killOne signal) (found, k)).2.died = k.died
  | [], _, _ => rfl
  | target :: targets, found, k => by
      rw [foldl_cons, died_signalOne h targets]
      show (killOne signal (found, k) target).2.died = k.died
      rw [killOne]
      simp only [if_neg h]
      exact died_of_core (Local.signalProcess k .resume k target signal).core

/-- The deaths of a signal a task sends to itself. -/
lemma accounts_killSelf (hcpu : k.onCpu) (signal : ℕ) (runner : Option ℕ) :
    Accounts runner k (k.killSelf signal).2 (k.selfDeaths signal) := by
  have hdefault : Accounts runner k (k.defaultAction signal).2
      (if defaultActionTerminates signal = true then k.exitDeaths signal true else []) := by
    rw [defaultAction]
    split
    · exact accounts_taskExit hcpu signal true runner
    split
    · exact .none (k.died_stopThreadGroup signal)
    · exact .none rfl
  rw [killSelf, selfDeaths, Process.blocks]
  split
  · exact .none rfl
  cases hacts : k.actsOf k.proc signal with
  | none => simpa [SIG_DFL] using hdefault
  | some a =>
    dsimp only [map_some, getD_some]
    -- a handler is ignored, default or entered; only a default action ends the task
    by_cases hign : a.handler = SIG_IGN
    · rw [if_pos hign, if_neg fun h => absurd (hign.symm.trans h.1) (by decide)]
      exact .none rfl
    rw [if_neg hign]
    by_cases hdfl : a.handler = SIG_DFL
    · simpa [hdfl] using hdefault
    rw [if_pos hdfl, if_neg fun h => hdfl h.1]
    have h : Reaches False { k with proc := k.proc.raise signal } .resume _ := .refl
    exact .none (h.deliverSignal hcpu).died

/-- The process that sends SIGKILL in an event, if one does. -/
def killer (k : Kernel M) : Event M → Option ℕ
  | .syscall (.kill _ signal) => if signal = SIGKILL then some k.proc.tgid else none
  | _ => none

/-- The deaths of `sys_kill`. -/
lemma accounts_sysKill (hcpu : k.onCpu) (target : ℤ) (signal : ℕ) :
    Accounts (k.killer (.syscall (.kill target signal))) k (k.sysKill target signal).2
      (k.killDeaths target signal) := by
  rw [sysKill, killDeaths]
  by_cases hrange : NSIG < signal
  · rw [if_pos hrange, if_pos (.inl hrange)]
    exact .none rfl
  by_cases hzero : signal = 0
  · rw [if_neg hrange, if_pos hzero, if_pos (.inr hzero)]
    exact .none rfl
  have hvalid : ¬(NSIG < signal ∨ signal = 0) := not_or.mpr ⟨hrange, hzero⟩
  rw [if_neg hrange, if_neg hzero, if_neg hvalid]
  by_cases hself : target = k.proc.tgid ∨ target = k.proc.pid
  · rw [if_pos hself, if_pos hself]
    exact accounts_killSelf hcpu signal _
  rw [if_neg hself, if_neg hself]
  by_cases hkill : signal = SIGKILL
  · subst hkill
    rw [killer, if_pos rfl, if_neg (by decide), if_pos rfl]
    cases k.victims target with
    | none => exact .none rfl
    | some tgids => exact accounts_killOne tgids false k
  rw [if_neg hkill]
  refine .none ?_
  split
  · rfl
  split
  · rfl
  · exact died_signalOne hkill _ false k

/-- The deaths of what a pending signal does. -/
lemma accounts_sysRtSigprocmask (hcpu : k.onCpu) (mask : UInt64) (runner : Option ℕ) :
    Accounts runner k (k.sysRtSigprocmask mask).2
      ({ k with proc := { k.proc with sigmask := mask } } : Kernel M).signalDeaths := by
  have hpending :
      ({ k with proc := { k.proc with sigmask := mask } } : Kernel M).pendingSignalAction.2.died
        = k.died ∧
      ({ k with proc := { k.proc with sigmask := mask } } : Kernel M).pendingSignalAction.2.onCpu
        = true := ⟨rfl, hcpu⟩
  rw [sysRtSigprocmask, signalDeaths]
  generalize ({ k with proc := { k.proc with sigmask := mask } } : Kernel M).pendingSignalAction
    = acted at hpending ⊢
  obtain ⟨action, k'⟩ := acted
  obtain ⟨hdied, hcpu'⟩ := hpending
  refine Accounts.after ?_ hdied
  have h : Reaches False k' .resume k' := .refl
  cases action with
  | terminate sig => exact accounts_taskExit hcpu' sig true runner
  | stop sig => exact .none (k'.died_stopThreadGroup sig)
  | handler => exact .none (h.deliverSignal hcpu').died
  | none => exact .none rfl

/-- The deaths of a system call. -/
lemma accounts_dispatch (hcpu : k.onCpu) (call : Call M) :
    Accounts (k.killer (.syscall call)) k (k.dispatch call).2 (k.callDeaths call) := by
  have h : Reaches False k (.syscall call) k := .refl
  cases call with
  | exit | exitGroup => exact accounts_taskExit hcpu _ _ _
  | clone spec => exact .none (h.sysCloneImpl hcpu rfl ⟨hcpu, rfl, spec, rfl⟩ spec).died
  | execve image loaded =>
    have hparent := (Local.releaseParent k .resume k).core
    have hdied : k.releaseParent.died = k.died := died_of_core hparent
    -- an `execve` that fails behind the point of no return ends the task
    cases loaded with
    | true => exact .none hdied
    | false =>
      refine Accounts.after (accounts_taskExit ?_ _ _ _) hdied
      exact (congrArg Core.onCpu hparent).trans hcpu
  | wait4 pid statusPtr options => exact .none (h.sysWait4 hcpu pid statusPtr options).died
  | kill target signal => exact accounts_sysKill hcpu target signal
  | futexWake | other => exact .none rfl
  | sigprocmask mask => exact accounts_sysRtSigprocmask hcpu mask _
  | sched_yield =>
    refine .none ?_
    rw [dispatch, sysYield]
    split
    · rfl
    · exact (h.blockAndSwitch hcpu _).died
  | block state => exact .none (h.blockAndSwitch hcpu state).died
  | ttyStop =>
    refine .none ?_
    rw [dispatch, died_stopThreadGroup]
    exact died_of_core (core_deliverSignalToPgrp _ _ _)

/-- **The deaths of an event are the zombies it records.** -/
theorem accounts_step (k : Kernel M) (e : Event M) :
    Accounts (k.killer e) k (k.step e) (k.deathsOf e) := by
  cases e with
  | guest =>
    rw [step]
    split <;> exact .none rfl
  | syscall call =>
    rw [step, deathsOf]
    cases hcpu : k.onCpu with
    | false => exact .none rfl
    | true =>
      -- what a pending signal does comes before the call
      have hpending : k.pendingSignalAction.2.died = k.died ∧
        k.pendingSignalAction.2.onCpu := ⟨rfl, hcpu⟩
      have hkiller : k.killer (.syscall call) =
          k.pendingSignalAction.2.killer (.syscall call) := by
        have htgid : k.pendingSignalAction.2.proc.tgid = k.proc.tgid :=
          congrArg (·.proc.tgid) k.core_pendingSignalAction
        cases call <;> simp only [killer, htgid]
      rw [hkiller, if_pos rfl, handle]
      generalize k.pendingSignalAction = acted at hpending ⊢
      obtain ⟨action, k'⟩ := acted
      obtain ⟨hdied, hcpu'⟩ := hpending
      refine Accounts.after ?_ hdied
      cases action with
      | terminate sig => exact accounts_taskExit hcpu' sig true _
      | stop sig => exact .none (k'.died_stopThreadGroup sig)
      | handler | none => exact accounts_dispatch hcpu' call
  | input | network | expireNetworkWait => exact .none rfl
  | resizeTerminal => exact .none (died_of_core (core_deliverSignalToPgrp _ _ _))
  | resume =>
    refine .none ?_
    rw [step]
    split
    · rfl
    rename_i hcpu
    have h : Reaches False k .resume k := .refl
    exact (h.resume (by simpa using hcpu)).died

/-! ### Every death is told -/

omit [GuestMem M] in
lemma Told.congr {k' : Kernel M} {tgid : ℕ} (h : k'.liveTasks = k.liveTasks) :
    k'.Told tgid ↔ k.Told tgid := by
  constructor
  · rintro ⟨hpending, hpreferred⟩
    rw [h] at hpending hpreferred
    exact ⟨hpending, hpreferred⟩
  · rintro ⟨hpending, hpreferred⟩
    rw [← h] at hpending hpreferred
    exact ⟨hpending, hpreferred⟩

/-- **Every death is told.**  The deaths of an event are the zombies it records, each of them in
`taskExit` or in `killTask`.  Each whose parent is alive with a handler for SIGCHLD leaves the
signal pending on a thread of the parent, on one that does not block it if there is one, exactly
if the parent can be told; and the parent cannot be told only if it is the process that sends
SIGKILL. -/
theorem deaths_told_iff (k : Kernel M) (e : Event M) :
    (k.step e).died = k.died ++ (k.deathsOf e).map (fun d => d.zombie.pid) ∧
      (∀ d ∈ k.deathsOf e, Death.Recorded (k.killer e) d) ∧
      ∀ d ∈ k.deathsOf e, d.before.Alive d.zombie.ppid →
        d.before.HasHandler d.zombie.ppid SIGCHLD →
          (d.after.Told d.zombie.ppid ↔ d.before.Tellable d.zombie.ppid) ∧
            (¬ d.before.Tellable d.zombie.ppid → k.killer e = some d.zombie.ppid) := by
  have haccounts := k.accounts_step e
  refine ⟨haccounts.died, haccounts.recorded, fun d hd halive hhandler => ⟨?_, fun h => ?_⟩⟩
  · rw [Told.congr (haccounts.recorded d hd).told]
    exact ⟨tellable_of_told halive hhandler, told_of_tellable halive hhandler⟩
  have hcpu : d.before.onCpu = true := by
    cases hcpu : d.before.onCpu with
    | true => rfl
    | false => exact absurd (.inl hcpu) h
  have htgid : d.before.proc.tgid = d.zombie.ppid :=
    by_contra fun hne => h (.inr (.inl hne))
  exact htgid ▸ (haccounts.recorded d hd).running hcpu

/-- The root installs a handler for SIGCHLD and forks 1001. -/
def handlerThenFork : List (Event Unit) :=
  [.syscall (.other id (fun heap => { heap with
      sigactions := Function.update heap.sigactions ((Kernel.new ()).load ()).proc.sigactions
        fun signal => if signal = SIGCHLD then some ⟨0x1000, 0, 0, 0⟩ else none }) id
      (fun _ => id)),
    .syscall (.clone forkSpec)]

lemma root_has_handler {d : Death Unit} (hlive : d.before.liveTasks.map (·.tgid) = [ROOT_PID])
    (hacts : ∀ p ∈ d.before.liveTasks,
      ((d.before.actsOf p SIGCHLD).any fun a => decide (1 < a.handler)) = true) :
    d.before.Alive ROOT_PID ∧ d.before.HasHandler ROOT_PID SIGCHLD := by
  constructor
  · have hroot : ROOT_PID ∈ d.before.liveTasks.map (·.tgid) := hlive ▸ mem_singleton_self _
    obtain ⟨p, hp, htgid⟩ := mem_map.mp hroot
    exact ⟨p, hp, htgid⟩
  intro p hp _
  obtain ⟨a, ha, hlt⟩ := (Option.any_eq_true _ _).mp (hacts p hp)
  exact ⟨a, ha, of_decide_eq_true hlt⟩

/-- The child runs and exits: its parent is told. -/
theorem childExits_told :
    let k := run step ((Kernel.new ()).load ()) (handlerThenFork ++ [.syscall .sched_yield])
    ∃ d ∈ k.deathsOf (.syscall (.exit 0)), d.zombie.pid = 1001 ∧ d.after.Told ROOT_PID := by
  intro k
  let d := (k.deathsOf (.syscall (.exit 0))).get ⟨0, by decide +kernel⟩
  have hmem : d ∈ k.deathsOf (.syscall (.exit 0)) := get_mem _ _
  obtain ⟨halive, hhandler⟩ := root_has_handler (d := d) (by decide +kernel) (by decide +kernel)
  have hppid : d.zombie.ppid = ROOT_PID := by decide +kernel
  have htold := (deaths_told_iff k (.syscall (.exit 0))).2.2 d hmem
  rw [hppid] at htold
  exact ⟨d, hmem, by decide +kernel, (htold halive hhandler).1.mpr (.inl (by decide +kernel))⟩

/-- **A death that is not told**: the root kills 1001, and SIGCHLD is pending nowhere. -/
theorem killed_child_untold :
    let k := run step ((Kernel.new ()).load ()) handlerThenFork
    ∃ d ∈ k.deathsOf (.syscall (.kill 1001 SIGKILL)), d.zombie = ⟨1001, ROOT_PID, SIGKILL⟩ ∧
      d.before.Alive ROOT_PID ∧ d.before.HasHandler ROOT_PID SIGCHLD ∧ ¬ d.after.Told ROOT_PID := by
  intro k
  let d := (k.deathsOf (.syscall (.kill 1001 SIGKILL))).get ⟨0, by decide +kernel⟩
  have hmem : d ∈ k.deathsOf (.syscall (.kill 1001 SIGKILL)) := get_mem _ _
  obtain ⟨halive, hhandler⟩ := root_has_handler (d := d) (by decide +kernel) (by decide +kernel)
  have hnone : ∀ p ∈ d.after.liveTasks, p.pends SIGCHLD = false := by decide +kernel
  refine ⟨d, hmem, by decide +kernel, halive, hhandler, fun htold => ?_⟩
  obtain ⟨p, hp, -, hpends⟩ := htold.pending
  exact absurd hpends (by simp [hnone p hp])

end Kernel

end WebTos.Proc
