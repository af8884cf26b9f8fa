import Mathlib

/-!
Maps on addresses edited over an extent `[start, start + len)`.

* `editOn`: the map changed on the extent only, with `editOn_inside` and
  `editOn_outside` as its two equations;
* `allOn`: a predicate checked at every address of the extent;
* `trailing`: the length of the part of the extent after the last address at which
  a predicate fails, which is how far a walk from its end downward gets.
-/

namespace WebTos.Lib

universe u

variable {α : Type u}

/-- The map `m`, changed by `f` on the extent. -/
def editOn (m : ℕ → α) (start len : ℕ) (f : α → α) : ℕ → α := fun b =>
  if start ≤ b ∧ b < start + len then f (m b) else m b

variable {m : ℕ → α} {f : α → α} {b len start : ℕ}

lemma editOn_inside (h₁ : start ≤ b) (h₂ : b < start + len) : editOn m start len f b = f (m b) :=
  if_pos ⟨h₁, h₂⟩

lemma editOn_outside (h : b < start ∨ start + len ≤ b) : editOn m start len f b = m b :=
  if_neg (by omega)

/-- The predicate holds at every address of the extent. -/
def allOn (p : ℕ → Bool) : ℕ → ℕ → Bool
  | _, 0 => true
  | start, len + 1 => p start && allOn p (start + 1) len

variable {p : ℕ → Bool}

lemma allOn_iff :
    allOn p start len ↔ ∀ b, start ≤ b → b < start + len → p b := by
  induction len generalizing start with
  | zero => simpa [allOn] using fun b h₁ h₂ => by omega
  | succ len ih =>
    rw [allOn, Bool.and_eq_true, ih]
    constructor
    · rintro ⟨h₀, h⟩ b h₁ h₂
      rcases Nat.eq_or_lt_of_le h₁ with rfl | h'
      · exact h₀
      · exact h b h' (by omega)
    · exact fun h => ⟨h start le_rfl (by omega), fun b h₁ h₂ => h b (by omega) (by omega)⟩

/-- How many addresses of the extent come after the last one at which the predicate
fails. -/
def trailing (p : ℕ → Bool) (start : ℕ) : ℕ → ℕ
  | 0 => 0
  | len + 1 => if p (start + len) then trailing p start len + 1 else 0

lemma trailing_le (p : ℕ → Bool) (start len : ℕ) : trailing p start len ≤ len := by
  induction len with
  | zero => exact le_rfl
  | succ len ih =>
    rw [trailing]
    split <;> omega

/-- Where the predicate holds everywhere, the walk covers the whole extent. -/
lemma trailing_of_allOn (h : allOn p start len) : trailing p start len = len := by
  rw [allOn_iff] at h
  induction len with
  | zero => rfl
  | succ len ih =>
    rw [trailing, if_pos (h _ (by omega) (by omega)), ih fun b h₁ h₂ => h b h₁ (by omega)]

end WebTos.Lib
