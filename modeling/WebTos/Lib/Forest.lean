import Mathlib

/-!
Directed graphs whose edges point from a holder to what it holds, and the one
change that can close a cycle in them: hanging `c` below `p`.

* `Acyclic`: no vertex is its own proper ancestor;
* `Acyclic.attach`: an edge `p → c` keeps a graph acyclic when `p` is not
  already below `c`;
* `DepthFrom`: the vertices at a given distance below a root, by a path.
-/

namespace WebTos.Lib

open Relation

universe u

variable {α : Type u}

/-- No vertex is a proper ancestor of itself. -/
def Acyclic (E : α → α → Prop) : Prop := ∀ x, ¬ TransGen E x x

variable {E E' : α → α → Prop} {p c : α}

/-- Fewer edges, fewer cycles. -/
lemma Acyclic.mono (h : Acyclic E) (hsub : ∀ a b, E' a b → E a b) :
    Acyclic E' :=
  fun x hx => h x (hx.lift id hsub)

/-- A path of the enlarged graph stays in the old one, or crosses the new edge:
then its start reaches `p` and its end is reached from `c` in the old graph. -/
lemma transGen_attach
    (hE : ∀ a b, E' a b → E a b ∨ (a = p ∧ b = c)) {a b : α} (h : TransGen E' a b) :
    TransGen E a b ∨ (ReflTransGen E a p ∧ ReflTransGen E c b) := by
  induction h with
  | single hab =>
    rcases hE _ _ hab with h | ⟨rfl, rfl⟩
    · exact .inl (.single h)
    · exact .inr ⟨.refl, .refl⟩
  | tail _ hbc ih =>
    rcases hE _ _ hbc with h | ⟨rfl, rfl⟩
    · exact ih.imp (fun hab => hab.tail h) fun hpc => ⟨hpc.1, hpc.2.tail h⟩
    · exact .inr ⟨ih.elim TransGen.to_reflTransGen fun hpc => hpc.1, .refl⟩

/-- **Hanging `c` below `p`** keeps a graph acyclic when `p` is neither `c` nor
below it. -/
theorem Acyclic.attach (h : Acyclic E)
    (hE : ∀ a b, E' a b → E a b ∨ (a = p ∧ b = c)) (hpc : ¬ ReflTransGen E c p) :
    Acyclic E' := by
  intro x hx
  rcases transGen_attach hE hx with hx | ⟨hxp, hcx⟩
  · exact h x hx
  · exact hpc (hcx.trans hxp)

/-- A vertex no edge leaves reaches only itself. -/
lemma eq_of_reflTransGen_of_leaf (hc : ∀ x, ¬ E c x)
    (h : ReflTransGen E c p) : c = p := by
  rcases h.cases_head with h | ⟨x, hx, -⟩
  · exact h
  · exact absurd hx (hc x)

/-- The vertices `k` edges below `r`. -/
inductive DepthFrom (E : α → α → Prop) (r : α) : ℕ → α → Prop where
  | root : DepthFrom E r 0 r
  | child {k : ℕ} {p c : α} : DepthFrom E r k p → E p c → DepthFrom E r (k + 1) c

end WebTos.Lib
