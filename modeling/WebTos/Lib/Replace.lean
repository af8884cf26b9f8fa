import Mathlib

/-!
Replacing the occurrences of a word in a text, from left to right and without
overlaps, and what such a replacement can and cannot leave behind.

* `pieces w`: what the text holds between its matches of `w`, with
  `infix_of_mem_pieces` (a piece is part of the text) and
  `not_infix_of_mem_pieces` (no piece holds `w`);
* `replaceAll w p`: the pieces joined by `p`;
* `Apart p w`: `p` and `w` share no part, so that a copy of `p` put between two
  texts cannot help to form a `w` (`Apart.infix_append`);
* `infix_of_replaceStep`, `not_infix_replaceStep`: under `Apart` the replacement
  makes no new occurrence of a word and leaves none of the word it replaces;
* `replaceEach`: several replacements one after another, with
  `not_infix_replaceEach` over all of them.
-/

namespace WebTos.Lib

open List

universe u

variable {α : Type u}

/-! ### Occurrences in a concatenation -/

variable {w : List α}

/-- An occurrence in `a ++ b` lies in `a`, or in `b`, or across the seam. -/
lemma infix_append_cases {a b : List α} (h : w <:+: a ++ b) :
    w <:+: a ∨ w <:+: b ∨ ∃ w₁ w₂, w = w₁ ++ w₂ ∧ w₁ ≠ [] ∧ w₂ ≠ [] ∧ w₁ <:+ a ∧ w₂ <+: b := by
  obtain ⟨s, t, h⟩ := h
  rw [append_assoc] at h
  rcases append_eq_append_iff.mp h with ⟨m, rfl, hm⟩ | ⟨m, rfl, rfl⟩
  · -- the occurrence starts in `a`; where it ends decides
    rcases append_eq_append_iff.mp hm with ⟨k, rfl, rfl⟩ | ⟨k, rfl, rfl⟩
    · exact .inl ⟨s, k, by simp⟩
    rcases eq_or_ne m [] with rfl | hm₀
    · exact .inr (.inl ⟨[], t, by simp⟩)
    rcases eq_or_ne k [] with rfl | hk₀
    · exact .inl ⟨s, [], by simp⟩
    · exact .inr (.inr ⟨m, k, rfl, hm₀, hk₀, ⟨s, rfl⟩, ⟨t, rfl⟩⟩)
  · exact .inr (.inl ⟨m, t, by simp⟩)

/-- `p` and `w` share no part: neither occurs in the other, and no end of one is
a start of the other. -/
structure Apart (p w : List α) : Prop where
  not_inside : ¬ w <:+: p
  not_around : ¬ p <:+: w
  not_before : ∀ s, s ≠ [] → s <:+ p → ¬ s <+: w
  not_after : ∀ s, s ≠ [] → s <+: p → ¬ s <:+ w

lemma Apart.ne_nil {p : List α} (h : Apart p w) : w ≠ [] :=
  fun hw => h.not_inside (hw ▸ nil_infix)

/-- A word without the first and the last letter of `p` that does not occur in `p`
is apart from it. -/
lemma Apart.of_ends {m : List α} {a b : α} (ha : a ∉ w) (hb : b ∉ w)
    (hin : ¬ w <:+: a :: (m ++ [b])) : Apart (a :: (m ++ [b])) w where
  not_inside := hin
  not_around := fun h => ha (h.subset mem_cons_self)
  not_before := by
    intro s hs hsuf hpre
    -- a nonempty end of `p` ends in `b`
    obtain ⟨x, hx⟩ := hsuf
    obtain ⟨s', b', rfl⟩ := eq_nil_or_concat s |>.resolve_left hs
    rw [← cons_append, concat_eq_append, ← append_assoc] at hx
    have hbb : b' = b := by simpa using (append_inj' hx rfl).2
    exact hb (hbb ▸ hpre.subset (by simp))
  not_after := by
    intro s hs hpre hsuf
    cases s with
    | nil => exact hs rfl
    | cons c s =>
      obtain rfl : c = a := (cons_prefix_cons.mp hpre).1
      exact ha (hsuf.subset mem_cons_self)

variable {p y : List α}

/-- A word apart from `p` that occurs around a copy of `p` occurs on one side. -/
lemma Apart.infix_append {x : List α} (h : Apart p w) (hw : w <:+: x ++ (p ++ y)) :
    w <:+: x ∨ w <:+: y := by
  rcases infix_append_cases hw with hx | hpy | ⟨w₁, w₂, rfl, -, h₂, -, hpre⟩
  · exact .inl hx
  · rcases infix_append_cases hpy with hp | hy | ⟨w₁, w₂, rfl, h₁, -, hsuf, -⟩
    · exact absurd hp h.not_inside
    · exact .inr hy
    · exact absurd (prefix_append w₁ w₂) (h.not_before w₁ h₁ hsuf)
  rcases prefix_or_prefix_of_prefix hpre (prefix_append p y) with hle | hle
  · exact absurd (suffix_append w₁ w₂) (h.not_after w₂ h₂ hle)
  · exact absurd (hle.isInfix.trans (suffix_append w₁ w₂).isInfix) h.not_around

/-- A word apart from `p` that occurs in texts joined by `p` occurs in one of them. -/
lemma Apart.infix_intercalate (h : Apart p w) (hw₀ : w ≠ []) :
    ∀ {ts : List (List α)}, w <:+: p.intercalate ts → ∃ t ∈ ts, w <:+: t
  | [], hw => absurd (eq_nil_of_infix_nil hw) hw₀
  | [t], hw => ⟨t, by simp, by simpa using hw⟩
  | t :: t' :: ts, hw => by
      rw [intercalate_cons_cons, append_assoc] at hw
      rcases h.infix_append hw with ht | hts
      · exact ⟨t, by simp, ht⟩
      · obtain ⟨x, hx, hwx⟩ := h.infix_intercalate hw₀ hts
        exact ⟨x, mem_cons_of_mem _ hx, hwx⟩

/-! ### The pieces between the matches -/

section Pieces

variable [DecidableEq α]

/-- Puts a letter at the front of the first piece. -/
def growFirst (a : α) : List (List α) → List (List α)
  | [] => [[a]]
  | t :: ts => (a :: t) :: ts

/-- The pieces of a text between its leftmost matches of `w`.  The number counts
the letters of the last match that are still to be passed. -/
def pieces (w : List α) : ℕ → List α → List (List α)
  | _, [] => [[]]
  | 0, a :: t =>
    if w.isPrefixOf (a :: t) then [] :: pieces w (w.length - 1) t
    else growFirst a (pieces w 0 t)
  | n + 1, _ :: t => pieces w n t

/-- Every occurrence of `w`, leftmost first, replaced by `p`. -/
def replaceAll (w p t : List α) : List α := p.intercalate (pieces w 0 t)

/-- The text up to its first match is a start of the text, and the other pieces
are parts of it. -/
lemma pieces_spec (w : List α) : ∀ (n : ℕ) (t : List α), ∃ x xs,
    pieces w n t = x :: xs ∧ x <+: t.drop n ∧ ∀ y ∈ xs, y <:+: t
  | n, [] => ⟨[], [], by rw [pieces], by simp, by simp⟩
  | 0, a :: t => by
      rw [pieces]
      split_ifs with hmatch
      · obtain ⟨x, xs, heq, hx, hxs⟩ := pieces_spec w (w.length - 1) t
        refine ⟨[], _, rfl, nil_prefix, fun y hy => ?_⟩
        rw [heq] at hy
        rcases mem_cons.mp hy with rfl | hy
        · exact (hx.isInfix.trans (drop_suffix _ _).isInfix).trans (suffix_cons a t).isInfix
        · exact (hxs y hy).trans (suffix_cons a t).isInfix
      obtain ⟨x, xs, heq, hx, hxs⟩ := pieces_spec w 0 t
      refine ⟨a :: x, xs, by rw [heq, growFirst], ?_, fun y hy => ?_⟩
      · simpa using hx
      · exact (hxs y hy).trans (suffix_cons a t).isInfix
  | n + 1, a :: t => by
      obtain ⟨x, xs, heq, hx, hxs⟩ := pieces_spec w n t
      refine ⟨x, xs, by rw [pieces, heq], by simpa using hx, fun y hy => ?_⟩
      exact (hxs y hy).trans (suffix_cons a t).isInfix

variable {t : List α}

/-- A piece is part of the text. -/
lemma infix_of_mem_pieces (hy : y ∈ pieces w 0 t) : y <:+: t := by
  obtain ⟨x, xs, heq, hx, hxs⟩ := pieces_spec w 0 t
  rw [heq] at hy
  rcases mem_cons.mp hy with rfl | hy
  · simpa using hx.isInfix
  · exact hxs y hy

/-- No piece holds the word the text was cut at. -/
lemma not_infix_of_mem_pieces (hw₀ : w ≠ []) :
    ∀ (n : ℕ) (t : List α), ∀ y ∈ pieces w n t, ¬ w <:+: y
  | n, [], y, hy, hw => by
      rw [pieces, mem_singleton] at hy
      exact hw₀ (eq_nil_of_infix_nil (hy ▸ hw))
  | 0, a :: t, y, hy, hw => by
      rw [pieces] at hy
      split_ifs at hy with hmatch
      · rcases mem_cons.mp hy with rfl | hy
        · exact hw₀ (eq_nil_of_infix_nil hw)
        · exact not_infix_of_mem_pieces hw₀ _ t y hy hw
      have ih := not_infix_of_mem_pieces hw₀ 0 t
      obtain ⟨x, xs, heq, hx, -⟩ := pieces_spec w 0 t
      rw [heq] at ih hy
      rcases mem_cons.mp hy with rfl | hy
      · -- a new occurrence would start at `a`, where the text has no match
        rcases infix_cons_iff.mp hw with hpre | hin
        · have hax : a :: x <+: a :: t := by simpa using hx
          exact hmatch ( isPrefixOf_iff_prefix.mpr (hpre.trans hax))
        · exact ih x mem_cons_self hin
      · exact ih y (mem_cons_of_mem _ hy) hw
  | n + 1, a :: t, y, hy, hw => by
      rw [pieces] at hy
      exact not_infix_of_mem_pieces hw₀ n t y hy hw

/-! ### Several replacements in turn -/

/-- One replacement, made only if its word occurs. -/
def replaceStep (t : List α) (sub : List α × List α) : List α :=
  if sub.1 <:+: t then replaceAll sub.1 sub.2 t else t

/-- The replacements `subs`, one after another. -/
def replaceEach (subs : List (List α × List α)) (t : List α) : List α := subs.foldl replaceStep t

variable (subs : List (List α × List α))

@[simp] lemma replaceEach_nil_text : replaceEach subs [] = [] := by
  refine foldlRecOn (motive := (· = [])) subs _ rfl fun t ht sub _ => ?_
  simp [ht, replaceStep, replaceAll, pieces]

variable {sub : List α × List α} {u : List α}

/-- One step makes no new occurrence of a word that is apart from what it puts in. -/
lemma infix_of_replaceStep (hu₀ : u ≠ []) (hu : sub.1 <:+: t → Apart sub.2 u)
    (h : u <:+: replaceStep t sub) : u <:+: t := by
  rw [replaceStep] at h
  split_ifs at h with hocc
  · obtain ⟨y, hy, huy⟩ := (hu hocc).infix_intercalate hu₀ h
    exact huy.trans (infix_of_mem_pieces hy)
  · exact h

/-- One step leaves no occurrence of its own word. -/
lemma not_infix_replaceStep (hw₀ : sub.1 ≠ []) (hw : sub.1 <:+: t → Apart sub.2 sub.1)
    : ¬ sub.1 <:+: replaceStep t sub := by
  rw [replaceStep]
  split_ifs with hocc
  · intro h
    obtain ⟨y, hy, hwy⟩ := (hw hocc).infix_intercalate hw₀ h
    exact not_infix_of_mem_pieces hw₀ 0 t y hy hwy
  · exact hocc

variable (words : List (List α)) (hw₀ : ∀ w ∈ words, w ≠ [])
  (hsubs : ∀ sub ∈ subs, sub.1 ∈ words)
  (hapart : ∀ sub ∈ subs, sub.1 <:+: t → ∀ w ∈ words, Apart sub.2 w)
include hw₀ hsubs hapart

/-- The whole sequence makes no new occurrence of a word that is apart from
everything that may be put in. -/
lemma infix_of_replaceEach : ∀ u ∈ words, u <:+: replaceEach subs t → u <:+: t := by
  induction subs generalizing t with
  | nil => exact fun _ _ h => h
  | cons sub subs ih =>
    intro u hu h
    have hstep : ∀ w ∈ words, w <:+: replaceStep t sub → w <:+: t := fun w hw =>
      infix_of_replaceStep (hw₀ w hw) fun hocc => hapart sub mem_cons_self hocc w hw
    refine hstep u hu (ih (fun s hs => hsubs s (mem_cons_of_mem _ hs)) ?_ u hu h)
    intro s hs hocc
    have hs' : s ∈ sub :: subs := mem_cons_of_mem _ hs
    exact hapart s hs' (hstep s.1 (hsubs s hs') hocc)

/-- **Every word is gone** after a sequence of replacements none of which puts in
a text that shares a part with one of the words. -/
theorem not_infix_replaceEach : ∀ sub ∈ subs, ¬ sub.1 <:+: replaceEach subs t := by
  induction subs generalizing t with
  | nil => simp
  | cons sub subs ih =>
    have hstep : ∀ w ∈ words, w <:+: replaceStep t sub → w <:+: t := fun w hw =>
      infix_of_replaceStep (hw₀ w hw) fun hocc => hapart sub mem_cons_self hocc w hw
    have hsubs' : ∀ s ∈ subs, s.1 ∈ words := fun s hs => hsubs s (mem_cons_of_mem _ hs)
    have hapart' : ∀ s ∈ subs, s.1 <:+: replaceStep t sub → ∀ w ∈ words, Apart s.2 w :=
      fun s hs hocc => hapart s (mem_cons_of_mem _ hs) (hstep s.1 (hsubs' s hs) hocc)
    have hown : sub.1 ∈ words := hsubs sub mem_cons_self
    intro s hs
    rcases mem_cons.mp hs with rfl | hs
    · -- gone after its own step, and no later step brings it back
      intro h
      refine not_infix_replaceStep (hw₀ _ hown) (fun hocc => ?_)
        (infix_of_replaceEach subs words hw₀ hsubs' hapart' s.1 hown h)
      exact hapart s mem_cons_self hocc s.1 hown
    · exact ih hsubs' hapart' s hs

end Pieces

end WebTos.Lib
