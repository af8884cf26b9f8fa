import WebTos.Proc.Acts

/-!
The scheduler's bookkeeping of address spaces.

One map is in the MMU and the maps of the other thread groups sit in a table; a switch
inside a group moves nothing.  Groups end in three ways, and the table must forget
them.

* `Core.Placed`: the map in the MMU is `last_group`'s, and every other group with a
  parked task has its own in the table;
* `Core.Placed.move`: every move of the scheduler keeps it;
* `Kernel.run_spacesInPlace`: so it holds in every state a run passes through, and the
  scheduler never misses an address space.
-/

namespace WebTos.Proc

open Lib List Function

variable {M : Type}

namespace Core

/-- **Every address space is where it belongs.** -/
structure Placed (c : Core M) : Prop where
  /-- The MMU holds the map of `last_group`. -/
  mmu : c.mmu = c.own c.lastGroup
  /-- The task on the CPU belongs to `last_group`. -/
  running : c.onCpu = true → c.proc.tgid = c.lastGroup
  /-- A parked task of another group has its group's map in the table. -/
  stored : ∀ t ∈ c.parked, t.tgid ≠ c.lastGroup → c.groupMaps t.tgid = some (c.own t.tgid)
  /-- The table holds maps of groups with a parked task only. -/
  needed : ∀ g, c.groupMaps g ≠ none → ∃ t ∈ c.parked, t.tgid = g
  absent : c.groupMaps c.lastGroup = none
  /-- Group ids are positive, and smaller than every pid still to be given. -/
  fresh : ∀ t ∈ c.parked, 0 < t.tgid ∧ t.tgid < c.nextPid
  freshLast : 0 < c.lastGroup ∧ c.lastGroup < c.nextPid
  found : c.missingSpace = false

variable {t : Ident} {i : ℕ}

/-- A parked task other than the one at `i` stays when that one goes. -/
lemma mem_eraseIdx_or {ts : List Ident} {u : Ident} (ht : ts[i]? = some t) (hu : u ∈ ts)
    : u = t ∨ u ∈ ts.eraseIdx i := by
  obtain ⟨j, hj⟩ := mem_iff_getElem?.mp hu
  by_cases hij : j = i
  · subst hij
    exact .inl (Option.some.inj (hj.symm.trans ht))
  · right
    exact mem_eraseIdx_iff_getElem?.mpr ⟨j, hij, hj⟩

variable {rest : List Ident} {c : Core M} {g : ℕ}

/-- What a group whose map is not in the MMU finds in the table on a switch. -/
lemma savedMaps_of_ne (hg : g ≠ c.lastGroup) :
    c.savedMaps rest g = c.groupMaps g := by
  rw [savedMaps]
  split
  · exact update_of_ne hg _ _
  · rfl

/-- The group that gives up the MMU has its map in the table if a task of it is left. -/
lemma savedMaps_last (h0 : 0 < c.lastGroup) (ht : t ∈ rest) (hg : t.tgid = c.lastGroup) :
    c.savedMaps rest c.lastGroup = some c.mmu := by
  have hany : (rest.any fun t => t.tgid == c.lastGroup) = true :=
    List.any_eq_true.mpr ⟨t, ht, by simp [hg]⟩
  rw [savedMaps, if_pos ⟨by omega, hany⟩, update_self]

/-- The maps in the table on a switch: that of a group with a task left, or one that was
there before. -/
lemma savedMaps_ne_none (hg : c.savedMaps rest g ≠ none) :
    (∃ t ∈ rest, t.tgid = g) ∨ c.groupMaps g ≠ none := by
  by_cases hlast : g = c.lastGroup
  · rw [savedMaps] at hg
    split at hg
    · next hsave =>
        obtain ⟨t, ht, htg⟩ := List.any_eq_true.mp hsave.2
        exact .inl ⟨t, ht, by rw [hlast, eq_of_beq htg]⟩
    · exact .inr hg
  · rw [savedMaps_of_ne hlast] at hg
    exact .inr hg

namespace Placed

variable {c : Core M}

section

variable (h : c.Placed)
include h

lemma touch (f : M → M) (hcpu : c.onCpu) : (c.touched f).Placed where
  __ := h
  mmu := by
    show f c.mmu = update c.own c.proc.tgid (f (c.own c.proc.tgid)) c.lastGroup
    rw [h.running hcpu, update_self, h.mmu]
  stored t ht hne := by
    have hne' : t.tgid ≠ c.proc.tgid := by
      rw [h.running hcpu]
      exact hne
    show c.groupMaps t.tgid = some (update c.own c.proc.tgid _ t.tgid)
    rw [update_of_ne hne', h.stored t ht hne]

/-- A task of the group on the CPU joins the queue. -/
lemma join (hcpu : c.onCpu) (hgroup : t.tgid = c.proc.tgid) :
    ({ c with parked := c.parked ++ [t] } : Core M).Placed where
  __ := h
  stored u hu hne := by
    rcases mem_append.mp hu with hu | hu
    · exact h.stored u hu hne
    · rw [mem_singleton.mp hu] at hne
      exact absurd (hgroup.trans (h.running hcpu)) hne
  needed g hg := by
    obtain ⟨u, hu, hug⟩ := h.needed g hg
    exact ⟨u, mem_append_left _ hu, hug⟩
  fresh u hu := by
    rcases mem_append.mp hu with hu | hu
    · exact h.fresh u hu
    · rw [mem_singleton.mp hu, hgroup, h.running hcpu]
      exact h.freshLast

lemma park (placeholder : Ident) (hcpu : c.onCpu) :
    ({ c with parked := c.parked ++ [c.proc], proc := placeholder, onCpu := false } :
      Core M).Placed :=
  { h.join hcpu rfl with running := by simp }

/-- A task of `last_group` goes back on the CPU: no map moves. -/
lemma enter (ht : c.parked[i]? = some t) (hgroup : c.lastGroup = t.tgid) :
    ({ c with parked := c.parked.eraseIdx i, proc := t, onCpu := true } : Core M).Placed where
  __ := h
  running _ := hgroup.symm
  stored u hu hne := h.stored u (mem_of_mem_eraseIdx hu) hne
  needed g hg := by
    obtain ⟨u, hu, hug⟩ := h.needed g hg
    refine ⟨u, ?_, hug⟩
    rcases mem_eraseIdx_or ht hu with rfl | hu'
    · rw [← hug, ← hgroup] at hg
      exact absurd h.absent hg
    · exact hu'
  fresh u hu := h.fresh u (mem_of_mem_eraseIdx hu)

/-- The map of a group that is not `last_group`'s is in the table. -/
lemma savedMaps_eq (ht : t ∈ c.parked) (hgroup : c.lastGroup ≠ t.tgid)
    : c.savedMaps rest t.tgid = some (c.own t.tgid) := by
  rw [savedMaps_of_ne hgroup.symm, h.stored t ht hgroup.symm]

/-- A task of another group goes on the CPU: its map leaves the table, and the map in
the MMU enters it if its group has a parked task left. -/
lemma swap {map : M} (ht : c.parked[i]? = some t) (hgroup : c.lastGroup ≠ t.tgid)
    (hmap : c.savedMaps (c.parked.eraseIdx i) t.tgid = some map) :
    ({ c with
      parked := c.parked.eraseIdx i
      proc := t
      onCpu := true
      lastGroup := t.tgid
      mmu := map
      groupMaps := update (c.savedMaps (c.parked.eraseIdx i)) t.tgid none } :
        Core M).Placed where
  mmu := by
    rw [h.savedMaps_eq (mem_of_getElem? ht) hgroup] at hmap
    exact (Option.some.inj hmap).symm
  running _ := rfl
  stored u hu hne := by
    show update (c.savedMaps (c.parked.eraseIdx i)) t.tgid none u.tgid
      = some (c.own u.tgid)
    rw [update_of_ne hne]
    -- a parked task of the group that ran last: its map is the one just saved
    by_cases hug : u.tgid = c.lastGroup
    · rw [hug, savedMaps_last h.freshLast.1 hu hug, h.mmu]
    · exact h.savedMaps_eq (mem_of_mem_eraseIdx hu) (Ne.symm hug)
  needed g hg := by
    change update (c.savedMaps (c.parked.eraseIdx i)) t.tgid none g ≠ none at hg
    have hne : g ≠ t.tgid := by
      rintro rfl
      exact hg (update_self _ _ _)
    rw [update_of_ne hne] at hg
    -- a map is kept because it was, or because it was just saved
    rcases savedMaps_ne_none hg with hrest | hstored
    · exact hrest
    obtain ⟨u, hu, hug⟩ := h.needed g hstored
    rcases mem_eraseIdx_or ht hu with rfl | hu'
    · exact absurd hug.symm hne
    · exact ⟨u, hu', hug⟩
  absent := update_self _ _ _
  fresh u hu := h.fresh u (mem_of_mem_eraseIdx hu)
  freshLast := h.fresh t (mem_of_getElem? ht)
  found := h.found

lemma skipPid : ({ c with nextPid := c.nextPid + 1 } : Core M).Placed :=
  { h with
    fresh := fun t ht => ⟨(h.fresh t ht).1, (h.fresh t ht).2.trans (Nat.lt_succ_self _)⟩
    freshLast := ⟨h.freshLast.1, h.freshLast.2.trans (Nat.lt_succ_self _)⟩ }

lemma thread (hcpu : c.onCpu) :
    ({ c with
      parked := c.parked ++ [⟨c.nextPid, c.proc.tgid, c.proc.ppid⟩]
      nextPid := c.nextPid + 1 } : Core M).Placed :=
  h.skipPid.join hcpu rfl

/-- A fork is a group of its own, with a copy of the map in the MMU. -/
lemma fork (f : M → M) (hcpu : c.onCpu) :
    ({ c with
      parked := c.parked ++ [⟨c.nextPid, c.nextPid, c.proc.tgid⟩]
      groupMaps := update c.groupMaps c.nextPid (some (f c.mmu))
      own := update c.own c.nextPid (f (c.own c.proc.tgid))
      nextPid := c.nextPid + 1 } : Core M).Placed where
  __ := h
  mmu := by
    show c.mmu = update c.own c.nextPid _ c.lastGroup
    rw [update_of_ne h.freshLast.2.ne, h.mmu]
  stored t ht hne := by
    show update c.groupMaps c.nextPid (some (f c.mmu)) t.tgid
      = some (update c.own c.nextPid (f (c.own c.proc.tgid)) t.tgid)
    -- the new task has a number that no group had
    rcases mem_append.mp ht with ht | ht
    · have hold : t.tgid ≠ c.nextPid := (h.fresh t ht).2.ne
      rw [update_of_ne hold, update_of_ne hold, h.stored t ht hne]
    · rw [mem_singleton.mp ht, update_self, update_self, h.running hcpu,
        h.mmu]
  needed g hg := by
    change update c.groupMaps c.nextPid (some (f c.mmu)) g ≠ none at hg
    by_cases hnew : g = c.nextPid
    · exact ⟨_, mem_append_right _ (mem_singleton_self _), hnew.symm⟩
    rw [update_of_ne hnew] at hg
    obtain ⟨t, ht, htg⟩ := h.needed g hg
    exact ⟨t, mem_append_left _ ht, htg⟩
  absent := by
    show update c.groupMaps c.nextPid _ c.lastGroup = none
    rw [update_of_ne h.freshLast.2.ne, h.absent]
  fresh t ht := by
    rcases mem_append.mp ht with ht | ht
    · exact h.skipPid.fresh t ht
    · rw [mem_singleton.mp ht]
      exact ⟨h.freshLast.1.trans h.freshLast.2, Nat.lt_succ_self _⟩
  freshLast := h.skipPid.freshLast

/-- The task on the CPU is gone, with tasks of its group or without; the map stays in the
MMU. -/
lemma leave {parked : List Ident} (zombies died : List ℕ) (hsub : ∀ t ∈ parked, t ∈ c.parked)
    (hkeep : ∀ t ∈ c.parked, t.tgid ≠ c.lastGroup → t ∈ parked) :
    ({ c with parked := parked, onCpu := false, zombies := zombies, died := died } :
      Core M).Placed where
  __ := h
  running := by simp
  stored t ht hne := h.stored t (hsub t ht) hne
  needed g hg := by
    obtain ⟨t, ht, htg⟩ := h.needed g hg
    refine ⟨t, hkeep t ht fun hlast => ?_, htg⟩
    rw [← htg, hlast] at hg
    exact hg h.absent
  fresh t ht := h.fresh t (hsub t ht)

lemma exitGroup (hcpu : c.onCpu) (zombies died : List ℕ) :
    ({ c with
      parked := c.outside c.proc.tgid, onCpu := false, zombies := zombies, died := died } :
        Core M).Placed := by
  refine h.leave zombies died (fun t ht => mem_of_mem_filter ht) fun t ht hne => ?_
  refine mem_filter.mpr ⟨ht, ?_⟩
  simpa [h.running hcpu] using hne

/-- A killed group loses its tasks and its map. -/
lemma kill {target : ℕ} (zombies died : List ℕ) (hcpu : c.onCpu) (hother : target ≠ c.proc.tgid) :
    ({ c with
      parked := c.outside target
      groupMaps := if c.parked.any fun t => t.tgid == target
        then update c.groupMaps target none else c.groupMaps
      zombies := zombies
      died := died } : Core M).Placed := by
  have hmaps : (if c.parked.any fun t => t.tgid == target
      then update c.groupMaps target none else c.groupMaps)
        = update c.groupMaps target none := by
    split
    · rfl
    · next hnone =>
        -- A group without a parked task has no entry in the first place.
        refine (update_eq_self_iff.mpr ?_).symm
        by_contra hentry
        obtain ⟨t, ht, htg⟩ := h.needed target (Ne.symm hentry)
        exact hnone (List.any_eq_true.mpr ⟨t, ht, by simp [htg]⟩)
  have hmem : ∀ t, t ∈ c.outside target → t ∈ c.parked ∧ t.tgid ≠ target := by
    intro t ht
    have := mem_filter.mp ht
    exact ⟨this.1, by simpa using this.2⟩
  rw [hmaps]
  exact { h with
    stored := fun t ht hne => by
      show update c.groupMaps target none t.tgid = some (c.own t.tgid)
      rw [update_of_ne (hmem t ht).2]
      exact h.stored t (hmem t ht).1 hne
    needed := fun g hg => by
      change update c.groupMaps target none g ≠ none at hg
      have hne : g ≠ target := by
        rintro rfl
        exact hg (update_self _ _ _)
      rw [update_of_ne hne] at hg
      obtain ⟨t, ht, htg⟩ := h.needed g hg
      exact ⟨t, mem_filter.mpr ⟨ht, by simpa [htg] using hne⟩, htg⟩
    absent := by
      show update c.groupMaps target none c.lastGroup = none
      rw [update_of_ne fun hlast => hother (hlast.symm.trans (h.running hcpu).symm)]
      exact h.absent
    fresh := fun t ht => h.fresh t (hmem t ht).1 }

end

variable {P : Ident → List Ident → Prop} {c' : Core M}

/-- **Every move keeps every address space in its place**; the missing one cannot
happen. -/
lemma move (hmove : Move P c c') (h : c.Placed) : c'.Placed := by
  cases hmove with
  | touch f hcpu => exact h.touch f hcpu
  | park placeholder hcpu => exact h.park placeholder hcpu
  | enter i t hcpu ht hgroup => exact h.enter ht hgroup
  | swap _ _ _ _ ht hgroup hmap => exact h.swap ht hgroup hmap
  | missing _ _ _ _ ht hgroup hmap =>
    rw [h.savedMaps_eq (mem_of_getElem? ht) hgroup] at hmap
    exact absurd hmap (by simp)
  | skipPid => exact h.skipPid
  | thread hcpu => exact h.thread hcpu
  | fork f hcpu => exact h.fork f hcpu
  | exitThread | exitLeader => exact h.leave _ _ (fun _ ht => ht) fun _ ht _ => ht
  | exitGroup hcpu => exact h.exitGroup hcpu _ _
  | halt group hcpu =>
    cases group with
    | false => exact h.leave _ _ (fun _ ht => ht) fun _ ht _ => ht
    | true => exact h.exitGroup hcpu _ _
  | kill _ hcpu hother => exact h.kill _ _ hcpu hother
  | reap => exact { h with }

lemma moves (hmoves : Moves P c c') (h : c.Placed) : c'.Placed := by
  induction hmoves with
  | refl => exact h
  | tail _ hmove ih => exact ih.move hmove

end Placed

end Core

namespace Kernel

/-- **The address spaces of a kernel are in their places.** -/
structure SpacesInPlace (k : Kernel M) : Prop where
  /-- The MMU holds the map of `last_group`. -/
  mmu : k.mmu = k.own k.lastGroup
  /-- Every other group with a parked task has one entry in `group_maps`, its own. -/
  stored : ∀ t ∈ k.sched.parked, t.proc.tgid ≠ k.lastGroup →
    k.sched.groupMaps t.proc.tgid = some (k.own t.proc.tgid)
  /-- No other group has an entry, and `last_group` has none. -/
  needed : ∀ g, k.sched.groupMaps g ≠ none → g ≠ k.lastGroup ∧ ∃ t ∈ k.sched.parked, t.proc.tgid = g
  /-- The branch "missing address space" was never taken. -/
  found : k.missingSpace = false
  /-- The task on the CPU runs in its own group's memory. -/
  running : k.onCpu = true → k.proc.tgid = k.lastGroup ∧ k.mmu = k.own k.proc.tgid

lemma spacesInPlace_of_placed {k : Kernel M} (h : k.core.Placed) : k.SpacesInPlace where
  __ := h
  stored t ht hne := h.stored t.ident (List.mem_map_of_mem ht) hne
  needed g hg := by
    obtain ⟨t, ht, htg⟩ := h.needed g hg
    obtain ⟨u, hu, rfl⟩ := List.mem_map.mp ht
    refine ⟨?_, u, hu, htg⟩
    rintro rfl
    exact hg h.absent
  running hcpu := by
    have hlast : k.proc.tgid = k.lastGroup := h.running hcpu
    refine ⟨hlast, ?_⟩
    rw [hlast]
    exact h.mmu

/-- A loaded image starts with its map in the MMU and the table empty. -/
lemma load_placed (k : Kernel M) (image : M) : (k.load image).core.Placed where
  mmu := rfl
  running _ := rfl
  stored t ht := absurd ht (by simp [load, sweep, core, Scheduler.new])
  needed g hg := absurd rfl hg
  absent := rfl
  fresh t ht := absurd ht (by simp [load, sweep, core, Scheduler.new])
  freshLast := ⟨Nat.succ_pos _, Nat.lt_succ_self ROOT_PID⟩
  found := rfl

/-- **The address spaces are in their places in every state a run passes through**: after
any sequence of forks, vforks, thread clones, execs, exits, kills, waits, stalls and
resumes. -/
theorem run_spacesInPlace [GuestMem M] (k : Kernel M) (image : M) (es : List (Event M)) :
    (run step (k.load image) es).SpacesInPlace := by
  have hplaced := run_invariant (fun k : Kernel M => k.core.Placed)
    (fun k e h => h.moves (k.step_moves (P := fun _ _ => True) e fun _ _ _ _ _ _ => trivial))
    es (load_placed k image)
  exact spacesInPlace_of_placed hplaced

end Kernel

end WebTos.Proc
