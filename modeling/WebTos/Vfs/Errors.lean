import WebTos.Vfs.Ops

/-!
What a failed operation of `vfs.rs` leaves behind.

* `Atomic`: an error leaves the filesystem as it was;
* `atomic_iff`: `link`, `unlink` and `rename` check before they edit; `create` allocates before
  it looks at the parent.
-/

namespace WebTos.Vfs

open List

variable {α : Type} {v : Vfs}

/-- **An error leaves everything as it was**: the arena with its entries and link counts, the
nodes to be reclaimed, and the bytes counted. -/
def Atomic (v : Vfs) (r : SysResult α × Vfs) : Prop :=
  ∀ e, r.1 = .error e → r.2.nodes = v.nodes ∧ r.2.unlinked = v.unlinked ∧ r.2.bytes = v.bytes

/-- **The condition** for `create`: it is refused before it allocates, or it finds a directory
without the name.  It looks at the parent when the new node is there, under the first index past
the arena; at a later index it panics. -/
def Settled (v : Vfs) (parent : ℕ) (name : Bytes) (kind : NodeKind) (mode : ℕ) : Prop :=
  (name.isEmpty ∨ name = dot ∨ name = dotdot) ∨ (∃ e, v.reserve kind.dataLen = .error e) ∨
    let w := v.push ⟨kind, mode, newLinks kind, 0, parent⟩
    v.nodes.length < parent ∨ w.isDir parent ∧ w.entry parent name = none

lemma Atomic.of_eq {r : SysResult α × Vfs} (h : ∀ e, r.1 = .error e → r.2 = v) : v.Atomic r := by
  intro e he
  rw [h e he]
  exact ⟨rfl, rfl, rfl⟩

/-- A result behind an allocation. -/
lemma not_atomic_of_push {n : Node} {e : Errno} :
    ¬ v.Atomic ((.error e, v.push n) : SysResult α × Vfs) := fun h => by
  have hlen := congrArg length (h e rfl).1
  simp [push] at hlen

lemma atomic_create_iff (parent : ℕ) (name : Bytes) (kind : NodeKind) (mode : ℕ) :
    (parent ≤ v.nodes.length → v.Atomic (v.create parent name kind mode)) ↔
      v.Settled parent name kind mode := by
  rw [Settled]
  by_cases hpanic : v.nodes.length < parent
  · exact iff_of_true (fun h => absurd h hpanic.not_ge) (.inr (.inr (.inl hpanic)))
  rw [imp_iff_right (Nat.not_lt.mp hpanic), create]
  by_cases hname : name.isEmpty ∨ name = dot ∨ name = dotdot
  · rw [if_pos hname]
    exact iff_of_true (.of_eq fun _ _ => rfl) (.inl hname)
  rw [if_neg hname]
  cases hreserve : v.reserve kind.dataLen with
  | error e => exact iff_of_true (.of_eq fun _ _ => rfl) (.inr (.inl ⟨e, rfl⟩))
  | ok =>
    simp only [hname, hpanic, false_or, reduceCtorEq, exists_false]
    -- the errors behind the allocation leave the new node
    split_ifs with hdir hsome
    · exact iff_of_false not_atomic_of_push (by simp_all)
    · exact iff_of_false not_atomic_of_push fun h => by simp [h.2] at hsome
    · exact iff_of_true (fun e he => by cases he) (by simp_all)

/-- **Errors are atomic** but for those of `create` behind its allocation. -/
theorem atomic_iff (v : Vfs) :
    (∀ parent name kind mode,
      (parent ≤ v.nodes.length → v.Atomic (v.create parent name kind mode)) ↔
        v.Settled parent name kind mode) ∧
      (∀ parent name node, v.Atomic (v.link parent name node)) ∧
      (∀ parent name rmdir, v.Atomic (v.unlink parent name rmdir)) ∧
      ∀ oldParent oldName newParent newName,
        v.Atomic (v.rename oldParent oldName newParent newName) := by
  refine ⟨atomic_create_iff, fun parent name node => .of_eq fun e he => ?_,
    fun parent name rmdir => .of_eq fun e he => ?_,
    fun oldParent oldName newParent newName => .of_eq fun e he => ?_⟩
  · rw [link] at he ⊢
    split_ifs at he ⊢ <;> rfl
  · rw [unlink] at he ⊢
    cases hentry : v.entry parent name <;> rw [hentry] at he <;> dsimp only at he ⊢ <;>
      split_ifs at he ⊢ <;> rfl
  · rw [rename] at he ⊢
    cases hentry : v.entry oldParent oldName <;> rw [hentry] at he <;> dsimp only at he ⊢ <;>
      split_ifs at he ⊢ <;> rfl

/-- A filesystem with one file. -/
def withFile : Vfs := (bare.create ROOT (ascii "a") (.file []) 0).2

/-- **A name that is taken**: `create` fails and leaves a third node. -/
theorem create_taken_allocates :
    (withFile.create ROOT (ascii "a") (.file []) 0).2.nodes.length = 3 ∧
      ¬ withFile.Atomic (withFile.create ROOT (ascii "a") (.file []) 0) := by
  refine ⟨by decide +kernel, fun h => ?_⟩
  have hnodes := congrArg length (h .EEXIST (by decide +kernel)).1
  revert hnodes
  decide +kernel

end WebTos.Vfs
