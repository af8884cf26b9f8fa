import Mathlib

/-!
A table of references, and how many of its slots refer to one target.

* `refs`: the slots of a table that refer to a target;
* `refs_update_of_ne`, `encard_refs_update_of_eq`, `encard_refs_update_some`: what
  writing one slot does to the number of references.
-/

namespace WebTos.Lib

open Function

variable {κ ι : Type*} {table : κ → Option ι} {k : κ} {i : ι} {x : Option ι}

/-- The slots that refer to `i`. -/
def refs (table : κ → Option ι) (i : ι) : Set κ := {k | table k = some i}

@[simp] lemma mem_refs : k ∈ refs table i ↔ table k = some i := Iff.rfl

lemma refs_eq_empty (h : ∀ k, table k ≠ some i) : refs table i = ∅ :=
  Set.eq_empty_of_forall_notMem h

variable [DecidableEq κ]

/-- A write that neither removes nor adds a reference to `i`. -/
lemma refs_update_of_ne (hold : table k ≠ some i) (hnew : x ≠ some i) :
    refs (update table k x) i = refs table i := by
  ext l
  by_cases hl : l = k
  · subst hl
    simp [hold, hnew]
  · simp [hl]

/-- A slot that referred to `i` and no longer does. -/
lemma encard_refs_update_of_eq (hold : table k = some i) (hnew : x ≠ some i) :
    (refs (update table k x) i).encard + 1 = (refs table i).encard := by
  have hset : refs (update table k x) i = refs table i \ {k} := by
    ext l
    by_cases hl : l = k
    · subst hl
      simp [hnew]
    · simp [hl]
  rw [hset]
  exact Set.encard_sdiff_singleton_add_one hold

/-- A slot that now refers to `i` and did not before. -/
lemma encard_refs_update_some (hold : table k ≠ some i) :
    (refs (update table k (some i)) i).encard = (refs table i).encard + 1 := by
  have hset : refs (update table k (some i)) i = insert k (refs table i) := by
    ext l
    by_cases hl : l = k
    · subst hl
      simp
    · simp [hl]
  rw [hset]
  exact Set.encard_insert_of_notMem hold

end WebTos.Lib
