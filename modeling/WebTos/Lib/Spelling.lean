import Mathlib

/-!
Readers that accept one spelling of each value.

A reader `read : τ → Except ε β` is `Spelled` by `write : β → τ` if whatever it accepts is
what `write` makes of the result.  Such a reader is injective on what it accepts.

* `Except.bind_ok`, `ensure`: readers in `Except`, step by step;
* `Spelled.mapM`, `Spelled.joined`: lists, and lists with a separator;
* `numeral`, `fixed`: digits of a fixed number of places.
-/

namespace WebTos.Lib

open List

universe u

variable {α β τ : Type} {ε : Type u}

/-! ### Readers in `Except` -/

lemma bind_ok {x : Except ε α} {f : α → Except ε β} {b : β} :
    (x >>= f) = .ok b ↔ ∃ a, x = .ok a ∧ f a = .ok b := by
  cases x with
  | error e => exact ⟨fun h => (by cases h), fun ⟨_, h, _⟩ => (by cases h)⟩
  | ok a => exact ⟨fun h => ⟨a, rfl, h⟩, fun ⟨_, h, h'⟩ => (by cases h; exact h')⟩

lemma pure_ok {a b : α} : (pure a : Except ε α) = .ok b ↔ a = b :=
  ⟨fun h => (by cases h; rfl), fun h => (by rw [h]; rfl)⟩

/-- A check with its error. -/
def ensure (p : Prop) [Decidable p] (e : ε) : Except ε Unit := if p then .ok () else .error e

@[simp] lemma ensure_ok {p : Prop} [Decidable p] {e : ε} {u : Unit} :
    ensure p e = .ok u ↔ p := by
  rw [ensure]
  split_ifs with h
  · exact ⟨fun _ => h, fun _ => rfl⟩
  · exact ⟨fun h' => (by cases h'), fun h' => absurd h' h⟩

lemma forM_ok {f : α → Except ε Unit} {u : Unit} : ∀ {as : List α},
    as.forM f = .ok u ↔ ∀ a ∈ as, f a = .ok ()
  | [] => ⟨fun _ => by simp, fun _ => rfl⟩
  | a :: as => by
      change (f a >>= fun _ => as.forM f) = .ok u ↔ _
      rw [bind_ok, forall_mem_cons, forM_ok]
      exact ⟨fun ⟨_, ha, has⟩ => ⟨ha, has⟩, fun ⟨ha, has⟩ => ⟨(), ha, has⟩⟩

/-! ### One spelling for each value -/

/-- Whatever the reader accepts is the spelling of what it reads. -/
def Spelled (read : τ → Except ε β) (write : β → τ) : Prop :=
  ∀ (t : τ) (b : β), read t = .ok b → write b = t

namespace Spelled

variable {read : τ → Except ε β} {write : β → τ}

lemma mapM (h : Spelled read write) :
    Spelled (fun ts : List τ => ts.mapM read) (fun bs : List β => bs.map write) := by
  intro ts
  induction ts with
  | nil =>
    intro bs hbs
    dsimp only at hbs
    rw [mapM_nil, pure_ok] at hbs
    rw [← hbs]
    rfl
  | cons t ts ih =>
    intro bs hbs
    dsimp only at hbs
    rw [mapM_cons, bind_ok] at hbs
    obtain ⟨b, hb, hbs⟩ := hbs
    obtain ⟨bs', hbs', hpure⟩ := bind_ok.mp hbs
    obtain rfl := pure_ok.mp hpure
    exact congrArg₂ List.cons (h t b hb) (ih bs' hbs')

/-- A list of items with a separator between them. -/
lemma joined {γ : Type} [DecidableEq γ] {read : List γ → Except ε β} {write : β → List γ}
    (h : Spelled read write) (sep : γ) :
    Spelled (fun t : List γ => (t.splitOn sep).mapM read)
      (fun bs : List β => [sep].intercalate (bs.map write)) := by
  intro t bs hbs
  have hitems : bs.map write = t.splitOn sep := h.mapM _ _ hbs
  calc [sep].intercalate (bs.map write) = [sep].intercalate (t.splitOn sep) := by rw [hitems]
    _ = t := intercalate_splitOn sep

end Spelled

/-! ### Digits of a fixed number of places -/

/-- The number that digits stand for, the first one the highest. -/
def numeral (base : ℕ) (digits : List ℕ) : ℕ := digits.foldl (fun n d => n * base + d) 0

/-- The digits of a number in a given number of places. -/
def fixed (base : ℕ) : ℕ → ℕ → List ℕ
  | 0, _ => []
  | places + 1, n => fixed base places (n / base) ++ [n % base]

lemma numeral_concat (base : ℕ) (digits : List ℕ) (d : ℕ) :
    numeral base (digits ++ [d]) = numeral base digits * base + d := by
  rw [numeral, foldl_append]
  rfl

/-- A number has one spelling in a given number of places. -/
lemma fixed_numeral {base : ℕ} {digits : List ℕ} (h : ∀ d ∈ digits, d < base) :
    fixed base digits.length (numeral base digits) = digits := by
  induction digits using List.reverseRecOn with
  | nil => rfl
  | append_singleton digits d ih =>
    have hd : d < base := h d (by simp)
    have hdiv : (numeral base digits * base + d) / base = numeral base digits := by
      rw [Nat.add_comm, Nat.add_mul_div_right _ _ (Nat.zero_lt_of_lt hd), Nat.div_eq_of_lt hd,
        Nat.zero_add]
    have hmod : (numeral base digits * base + d) % base = d := by
      rw [Nat.add_comm, Nat.add_mul_mod_self_right, Nat.mod_eq_of_lt hd]
    rw [length_append, length_singleton, fixed, numeral_concat, hdiv, hmod,
      ih fun d' hd' => h d' (by simp [hd'])]

end WebTos.Lib
