import WebTos.Lib.Tokens
import WebTos.Vfs.Snapshot

/-!
UTF-8 text under replacement: a text stays text when words of it are replaced, since
a character never begins inside another.

* `Utf8Char`: one encoded character; `utf8Valid_append`, `utf8Valid_split`: text is
  put together and taken apart at the beginnings of characters;
* `utf8Valid_replaceAll`: replacing text by text in a text gives a text;
* `rewrites_eq`: a file rewritten again and again, with the check for UTF-8 made each
  time, is its text with the replacements made in turn.
-/

namespace WebTos

open Lib List Bool UInt8

/-! ### Characters -/

/-- One encoded character. -/
inductive Utf8Char : Bytes → Prop
  | one {b : UInt8} (h : b < 0x80) : Utf8Char [b]
  | two {b b₁ : UInt8} (h : 0xC2 ≤ b ∧ b ≤ 0xDF) (h₁ : isCont 0x80 0xBF b₁ = true) :
      Utf8Char [b, b₁]
  | three {b b₁ b₂ : UInt8} (h : 0xE0 ≤ b ∧ b ≤ 0xEF)
      (h₁ : isCont (if b = 0xE0 then 0xA0 else 0x80) (if b = 0xED then 0x9F else 0xBF) b₁ = true)
      (h₂ : isCont 0x80 0xBF b₂ = true) : Utf8Char [b, b₁, b₂]
  | four {b b₁ b₂ b₃ : UInt8} (h : 0xF0 ≤ b ∧ b ≤ 0xF4)
      (h₁ : isCont (if b = 0xF0 then 0x90 else 0x80) (if b = 0xF4 then 0x8F else 0xBF) b₁ = true)
      (h₂ : isCont 0x80 0xBF b₂ = true) (h₃ : isCont 0x80 0xBF b₃ = true) : Utf8Char [b, b₁, b₂, b₃]

lemma isTail_of_isCont {lo hi b : UInt8} (hlo : 0x80 ≤ lo) (hhi : hi ≤ 0xBF)
    (h : isCont lo hi b) : isTail b := by
  simp only [isTail, isCont, and_eq_true, decide_eq_true_eq] at h ⊢
  exact ⟨UInt8.le_trans hlo h.1, UInt8.le_trans h.2 hhi⟩

/-- A byte below or above the continuation bytes. -/
lemma not_isTail {b : UInt8} (h : b < 0x80 ∨ 0xC2 ≤ b) : isTail b = false := by
  rw [eq_false_iff]
  intro htail
  simp only [isTail, isCont, and_eq_true, decide_eq_true_eq, le_iff_toNat_le] at htail
  simp only [lt_iff_toNat_lt, le_iff_toNat_le] at h
  simp only [reduceToNat] at h htail
  omega

namespace Utf8Char

variable {c t : Bytes}

/-- A character is a byte that begins one, and continuation bytes. -/
lemma shape (h : Utf8Char c) :
    ∃ b bs, c = b :: bs ∧ isTail b = false ∧ ∀ x ∈ bs, isTail x := by
  cases h with
  | one hb => exact ⟨_, _, rfl, not_isTail (.inl hb), by simp⟩
  | two hb h₁ => exact ⟨_, _, rfl, not_isTail (.inr hb.1), by simpa [isTail] using h₁⟩
  | @three b b₁ b₂ hb h₁ h₂ =>
    have h₂' : isTail b₂ := h₂
    refine ⟨_, _, rfl, not_isTail (.inr (le_trans (b := 0xE0) (by decide) hb.1)), ?_⟩
    have htail := isTail_of_isCont (by split <;> decide) (by split <;> decide) h₁
    simpa [htail] using h₂'
  | four hb h₁ h₂ h₃ =>
    refine ⟨_, _, rfl, not_isTail (.inr (le_trans (b := 0xF0) (by decide) hb.1)), ?_⟩
    have htail := isTail_of_isCont (by split <;> decide) (by split <;> decide) h₁
    simpa [htail] using ⟨h₂, h₃⟩

/-- A character in front of a text. -/
lemma valid_append (h : Utf8Char c) (t : Bytes) : utf8Valid (c ++ t) = utf8Valid t := by
  cases h with
  | one hb =>
    rw [cons_append, nil_append, utf8Valid.eq_def]
    simp only [if_pos hb]
  | @two b b₁ hb h₁ =>
    have hge : ¬ b < 0x80 := not_lt.mpr (le_trans (b := 0xC2) (by decide) hb.1)
    rw [utf8Valid.eq_def]
    simp only [cons_append, nil_append, if_neg hge, if_pos hb, h₁, Bool.true_and]
  | @three b b₁ b₂ hb h₁ h₂ =>
    have hge : ¬ b < 0x80 := UInt8.not_lt.mpr (UInt8.le_trans (b := 0xE0) (by decide) hb.1)
    have h2 : ¬ (0xC2 ≤ b ∧ b ≤ 0xDF) := fun hc => absurd (UInt8.le_trans hb.1 hc.2) (by decide)
    rw [utf8Valid.eq_def]
    simp only [cons_append, nil_append, if_neg hge, if_neg h2, if_pos hb, h₁, h₂,
      Bool.true_and]
  | @four b b₁ b₂ b₃ hb h₁ h₂ h₃ =>
    have hge : ¬ b < 0x80 := UInt8.not_lt.mpr (UInt8.le_trans (b := 0xF0) (by decide) hb.1)
    have h2 : ¬ (0xC2 ≤ b ∧ b ≤ 0xDF) := fun hc => absurd (UInt8.le_trans hb.1 hc.2) (by decide)
    have h3 : ¬ (0xE0 ≤ b ∧ b ≤ 0xEF) := fun hc => absurd (UInt8.le_trans hb.1 hc.2) (by decide)
    rw [utf8Valid.eq_def]
    simp only [cons_append, nil_append, if_neg hge, if_neg h2, if_neg h3, h₁, h₂, h₃,
      hb.1, hb.2, decide_true, Bool.true_and]

end Utf8Char

variable {t : Bytes}

/-- A text is empty or begins with a character. -/
lemma utf8Valid_cases (h : utf8Valid t) :
    t = [] ∨ ∃ c t', Utf8Char c ∧ t = c ++ t' ∧ utf8Valid t' := by
  cases t with
  | nil => exact .inl rfl
  | cons b t =>
    right
    rw [utf8Valid.eq_def] at h
    dsimp only at h
    by_cases hb : b < 0x80
    · rw [if_pos hb] at h
      exact ⟨[b], t, .one hb, rfl, h⟩
    rw [if_neg hb] at h
    -- each further byte is there, and the first byte says how many there are
    cases t with
    | nil => exact absurd h (by simp)
    | cons b₁ t =>
      dsimp only at h
      by_cases hb₁ : 0xC2 ≤ b ∧ b ≤ 0xDF
      · rw [if_pos hb₁, and_eq_true] at h
        exact ⟨[b, b₁], t, .two hb₁ h.1, rfl, h.2⟩
      rw [if_neg hb₁] at h
      cases t with
      | nil => exact absurd h (by simp)
      | cons b₂ t =>
        dsimp only at h
        by_cases hb₂ : 0xE0 ≤ b ∧ b ≤ 0xEF
        · rw [if_pos hb₂, and_eq_true, and_eq_true] at h
          exact ⟨[b, b₁, b₂], t, .three hb₂ h.1.1 h.1.2, rfl, h.2⟩
        rw [if_neg hb₂] at h
        cases t with
        | nil => exact absurd h (by simp)
        | cons b₃ t =>
          simp only [and_eq_true, decide_eq_true_eq] at h
          obtain ⟨⟨⟨⟨hb₃, h₁⟩, h₂⟩, h₃⟩, ht⟩ := h
          exact ⟨[b, b₁, b₂, b₃], t, .four hb₃ h₁ h₂ h₃, rfl, ht⟩

/-! ### Putting text together and taking it apart -/

variable {a : Bytes}

lemma utf8Valid_append (ha : utf8Valid a) (b : Bytes) :
    utf8Valid (a ++ b) = utf8Valid b := by
  induction hn : a.length using Nat.strong_induction_on generalizing a with
  | _ n ih =>
    subst hn
    rcases utf8Valid_cases ha with rfl | ⟨c, a', hc, rfl, ha'⟩
    · rfl
    obtain ⟨x, xs, rfl, -⟩ := hc.shape
    rw [append_assoc, hc.valid_append]
    exact ih a'.length (by simp) ha' rfl

/-- A text that is not empty begins a character. -/
lemma not_isTail_head (ha : utf8Valid a) : ∀ b ∈ a.head?, isTail b = false := by
  rcases utf8Valid_cases ha with rfl | ⟨c, a', hc, rfl, -⟩
  · simp
  · obtain ⟨x, xs, rfl, hx, -⟩ := hc.shape
    simpa using hx

/-- Text can be cut where a character begins. -/
lemma utf8Valid_split {b : Bytes} (h : utf8Valid (a ++ b)) (hb : ∀ x ∈ b.head?, isTail x = false)
    : utf8Valid a ∧ utf8Valid b := by
  induction hn : a.length using Nat.strong_induction_on generalizing a with
  | _ n ih =>
    subst hn
    cases a with
    | nil => exact ⟨rfl, h⟩
    | cons x a =>
      obtain ⟨c, t, hc, heq, ht⟩ := (utf8Valid_cases h).resolve_left (by simp)
      obtain ⟨y, ys, rfl, -, htail⟩ := hc.shape
      rcases append_eq_append_iff.mp heq with ⟨m, hm, rfl⟩ | ⟨m, hm, rfl⟩
      · -- the cut lies inside the character, or at its end
        cases m with
        | nil =>
          rw [append_nil] at hm
          rw [← hm]
          refine ⟨?_, ht⟩
          have := hc.valid_append []
          rwa [append_nil] at this
        | cons z m =>
          have hz : z ∈ ys := by
            have : ys = a ++ z :: m := by simpa using (List.cons.inj hm).2
            rw [this]
            simp
          have := hb z (by simp)
          rw [htail z hz] at this
          exact absurd this (by simp)
      have hlen : m.length < (x :: a).length := by rw [hm]; simp
      obtain ⟨hm', hb'⟩ := ih m.length hlen ht rfl
      refine ⟨?_, hb'⟩
      rw [hm, hc.valid_append]
      exact hm'

/-! ### Replacement keeps text -/

/-- The pieces of a text between matches of a text are text; `x` is what was passed
since the last match. -/
lemma utf8Valid_pieces {w : Bytes} (hw : utf8Valid w) (hw₀ : w ≠ []) {x : Bytes}
    (h : utf8Valid (x ++ t)) :
    ∃ y ys, pieces w 0 t = y :: ys ∧ utf8Valid (x ++ y) ∧ ∀ z ∈ ys, utf8Valid z := by
  induction hn : t.length using Nat.strong_induction_on generalizing x t with
  | _ n ih =>
    subst hn
    cases t with
    | nil => exact ⟨[], [], by rw [pieces], h, by simp⟩
    | cons a t =>
      by_cases hpre : w <+: a :: t
      · obtain ⟨z, hz⟩ := hpre
        have hlen : z.length < (a :: t).length := by
          have hlt := length_pos_iff.mpr hw₀
          rw [← hz, length_append]
          omega
        rw [← hz] at h ⊢
        -- a match starts a character, so the text splits there
        have hhead : ∀ b ∈ (w ++ z).head?, isTail b = false := by
          rw [List.head?_append_of_ne_nil w hw₀]
          exact not_isTail_head hw
        obtain ⟨hx, hwz⟩ := utf8Valid_split h hhead
        rw [utf8Valid_append hw] at hwz
        obtain ⟨y, ys, heq, hy, hys⟩ := ih z.length hlen (x := []) hwz rfl
        refine ⟨[], y :: ys, by rw [pieces_match hw₀, heq], by rwa [append_nil], ?_⟩
        intro u hu
        rcases mem_cons.mp hu with rfl | hu
        · exact hy
        · exact hys u hu
      have hshift : utf8Valid ((x ++ [a]) ++ t) := by simpa using h
      obtain ⟨y, ys, heq, hy, hys⟩ := ih t.length (by simp) hshift rfl
      refine ⟨a :: y, ys, ?_, by simpa using hy, hys⟩
      rw [pieces, if_neg fun hm => hpre ( isPrefixOf_iff_prefix.mp hm), heq, growFirst]

/-- **Replacing text by text in a text gives a text.** -/
lemma utf8Valid_replaceAll {w p : Bytes} (hw : utf8Valid w) (hw₀ : w ≠ []) (hp : utf8Valid p)
    (ht : utf8Valid t) : utf8Valid (replaceAll w p t) := by
  have hjoin : ∀ ts : List Bytes, (∀ z ∈ ts, utf8Valid z) →
      utf8Valid (p.intercalate ts) := by
    intro ts
    induction ts with
    | nil => exact fun _ => rfl
    | cons z zs ih =>
      intro hts
      cases zs with
      | nil => simpa using hts z mem_cons_self
      | cons =>
        rw [intercalate_cons_cons, append_assoc,
          utf8Valid_append (hts z mem_cons_self), utf8Valid_append hp]
        exact ih fun u hu => hts u (mem_cons_of_mem _ hu)
  obtain ⟨y, ys, heq, hy, hys⟩ := utf8Valid_pieces (x := []) hw hw₀ ht
  rw [replaceAll, heq]
  refine hjoin _ fun z hz => ?_
  rcases mem_cons.mp hz with rfl | hz
  · exact hy
  · exact hys z hz

/-- Substitutions of text for words that are text. -/
def TextSubs (subs : List (Bytes × Bytes)) : Prop :=
  ∀ sub ∈ subs, sub.1 ≠ [] ∧ utf8Valid sub.1 = true ∧ utf8Valid sub.2 = true

variable {subs : List (Bytes × Bytes)}

lemma utf8Valid_replaceEach (hsubs : TextSubs subs) (ht : utf8Valid t)
    : utf8Valid (replaceEach subs t) := by
  refine foldlRecOn (motive := (utf8Valid ·)) subs _ ht fun t ht sub hsub => ?_
  obtain ⟨hne, hfrom, hto⟩ := hsubs sub hsub
  rw [replaceStep_eq]
  exact utf8Valid_replaceAll hfrom hne hto ht

/-- One rewriting after another, each with its own check, is the text with all the
replacements. -/
lemma rewrites_eq (hsubs : TextSubs subs) (ht : utf8Valid t) :
    subs.foldl (fun t sub => rewriteBytes [sub] t) t = replaceEach subs t := by
  induction subs generalizing t with
  | nil => rfl
  | cons sub subs ih =>
    have hone : TextSubs [sub] := fun s hs => hsubs s (by simp_all)
    have hstep : rewriteBytes [sub] t = replaceStep t sub :=
      rewriteBytes_eq (fun s hs => (hone s hs).1) ht
    rw [foldl_cons, hstep]
    exact ih (fun s hs => hsubs s (mem_cons_of_mem _ hs)) (utf8Valid_replaceEach hone ht)

lemma rewrites_of_not_text (subs : List (Bytes × Bytes)) (ht : utf8Valid t = false) :
    subs.foldl (fun t sub => rewriteBytes [sub] t) t = t := by
  refine foldlRecOn (motive := (· = t)) subs _ rfl fun _ h sub _ => ?_
  simp [h, rewriteBytes, ht]

end WebTos
