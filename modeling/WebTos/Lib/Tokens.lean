import WebTos.Lib.Replace

/-!
When replacing words by marks can be undone by replacing the marks by the words.

A text with marks in it is written over an alphabet that has a token for each mark:
`shown` spells a token as its mark, `meant` as the word it stands for.  Replacing at
the level of the spelled text is replacing at the level of tokens as long as no match
runs across a token (`Aligned`), and there nothing can be confused.

* `replaceAll_self`, `replaceStep_eq`: a word replaced by itself, and a word that does
  not occur;
* `replaceAll_flatMap`: replacement commutes with spelling;
* `replaceAll_shown_word`, `replaceAll_shown_mark`: the two directions, from words to
  marks and back;
* `restore_redact`: the words of `ks` replaced by their marks and the marks of `rs`
  replaced by their words is the text again.
-/

namespace WebTos.Lib

open List Sum

universe u v

variable {α : Type u}

/-! ### The pieces of a text -/

section Pieces

variable {w p t : List α}

/-- Letters put in front of the first piece. -/
lemma foldr_growFirst (p x : List α) (xs : List (List α)) :
    p.foldr growFirst (x :: xs) = (p ++ x) :: xs := by
  induction p with
  | nil => rfl
  | cons a p ih => rw [foldr_cons, ih, growFirst, cons_append]

lemma intercalate_growFirst (p : List α) (a : α) {ts : List (List α)} (hts : ts ≠ []) :
    p.intercalate (growFirst a ts) = a :: p.intercalate ts := by
  cases ts with
  | nil => exact absurd rfl hts
  | cons x xs =>
    cases xs with
    | nil => simp [growFirst]
    | cons => rw [growFirst, intercalate_cons_cons, intercalate_cons_cons]; simp

variable [DecidableEq α]

/-- Letters of the last match are passed without a look. -/
lemma pieces_eq_drop (w : List α) : ∀ (n : ℕ) (t : List α), pieces w n t = pieces w 0 (t.drop n)
  | 0, t => by rw [drop_zero]
  | n + 1, [] => by rw [drop_nil, pieces, pieces]
  | n + 1, a :: t => by rw [pieces, pieces_eq_drop w n t, drop_succ_cons]

lemma pieces_match (hw : w ≠ []) (t : List α) : pieces w 0 (w ++ t) = [] :: pieces w 0 t := by
  obtain ⟨a, w, rfl⟩ := exists_cons_of_ne_nil hw
  have hpre : (a :: w).isPrefixOf (a :: (w ++ t)) = true :=
    isPrefixOf_iff_prefix.mpr (prefix_append (a :: w) t)
  rw [cons_append, pieces, if_pos hpre, pieces_eq_drop]
  simp

lemma pieces_ne_nil (w : List α) (n : ℕ) (t : List α) : pieces w n t ≠ [] := by
  obtain ⟨x, xs, heq, -⟩ := pieces_spec w n t
  rw [heq]
  simp

/-- A start in which no match begins stays in the first piece. -/
lemma pieces_append (h : ∀ s, s ≠ [] → s <:+ p → ¬ w <+: s ++ t) :
    pieces w 0 (p ++ t) = p.foldr growFirst (pieces w 0 t) := by
  induction p with
  | nil => rfl
  | cons a p ih =>
    have hno : ¬ w.isPrefixOf (a :: (p ++ t)) = true := fun hpre =>
      h (a :: p) (by simp) suffix_rfl ( isPrefixOf_iff_prefix.mp hpre)
    rw [cons_append, pieces, if_neg hno, foldr_cons,
      ih fun s hs hsuf => h s hs (hsuf.trans (suffix_cons a p))]

/-- A word replaced by itself. -/
lemma replaceAll_self (hw : w ≠ []) (t : List α) : replaceAll w w t = t := by
  induction hn : t.length using Nat.strong_induction_on generalizing t with
  | _ n ih =>
    subst hn
    cases t with
    | nil => simp [replaceAll, pieces]
    | cons a t =>
      by_cases hpre : w <+: a :: t
      · -- a match at the front: it is put back before the pieces that follow
        obtain ⟨z, hz⟩ := hpre
        have hlen : z.length < (a :: t).length := by
          have hlt := length_pos_iff.mpr hw
          rw [← hz, length_append]
          omega
        rw [← hz, replaceAll, pieces_match hw]
        obtain ⟨x, xs, heq, -⟩ := pieces_spec w 0 z
        have hrest := ih z.length hlen z rfl
        rw [replaceAll, heq] at hrest
        rw [heq, intercalate_cons_cons, hrest, nil_append]
      rw [replaceAll, pieces, if_neg fun h => hpre ( isPrefixOf_iff_prefix.mp h),
        intercalate_growFirst _ _ (pieces_ne_nil w 0 t)]
      have hrest := ih t.length (by simp) t rfl
      rw [replaceAll] at hrest
      rw [hrest]

/-- A text without the word is one piece. -/
lemma pieces_of_not_infix (h : ¬ w <:+: t) : pieces w 0 t = [t] := by
  have hno : ∀ s, s ≠ [] → s <:+ t → ¬ w <+: s ++ [] := fun s _ hsuf hpre => by
    rw [append_nil] at hpre
    exact h (hpre.isInfix.trans hsuf.isInfix)
  have hpieces := pieces_append hno
  rw [append_nil] at hpieces
  rw [hpieces, pieces, foldr_growFirst, append_nil]

/-- Asking first whether the word occurs makes no difference. -/
lemma replaceStep_eq (t : List α) (sub : List α × List α) :
    replaceStep t sub = replaceAll sub.1 sub.2 t := by
  rw [replaceStep]
  split_ifs with hocc
  · rfl
  · rw [replaceAll, pieces_of_not_infix hocc]
    simp

/-- What stands in the result stood between two matches or was put in. -/
lemma mem_replaceAll_cases {a : α} (h : a ∈ replaceAll w p t) :
    (∃ x ∈ pieces w 0 t, a ∈ x) ∨ a ∈ p := by
  have hmem : ∀ {ts : List (List α)}, a ∈ p.intercalate ts → (∃ x ∈ ts, a ∈ x) ∨ a ∈ p := by
    intro ts
    induction ts with
    | nil => exact fun h => absurd h (by simp [List.intercalate])
    | cons x xs ih =>
      intro h
      cases xs with
      | nil => exact .inl ⟨x, by simp, by simpa using h⟩
      | cons =>
        rw [intercalate_cons_cons, append_assoc] at h
        rcases mem_append.mp h with h | h
        · exact .inl ⟨x, by simp, h⟩
        rcases mem_append.mp h with h | h
        · exact .inr h
        · exact (ih h).imp_left fun ⟨z, hz, hza⟩ => ⟨z, mem_cons_of_mem _ hz, hza⟩
  exact hmem h

lemma mem_of_mem_replaceAll {a : α} (h : a ∈ replaceAll w p t) : a ∈ t ∨ a ∈ p :=
  (mem_replaceAll_cases h).imp_left fun ⟨_, hx, ha⟩ => (infix_of_mem_pieces hx).subset ha

/-- A letter that is replaced is gone. -/
lemma notMem_replaceAll_singleton {a : α} (ha : a ∉ p) : a ∉ replaceAll [a] p t := by
  intro h
  rcases mem_replaceAll_cases h with ⟨x, hx, hax⟩ | hap
  · refine not_infix_of_mem_pieces (by simp) 0 t x hx ?_
    obtain ⟨s, r, rfl⟩ := append_of_mem hax
    exact ⟨s, r, by simp⟩
  · exact ha hap

end Pieces

/-! ### Spelling -/

section Spelling

variable {β : Type v} {r : β → List α} {W X y : List β}

lemma flatMap_intercalate (r : β → List α) (X : List β) (ts : List (List β)) :
    (X.intercalate ts).flatMap r = (X.flatMap r).intercalate (ts.map (·.flatMap r)) := by
  induction ts with
  | nil => simp [List.intercalate]
  | cons x xs ih =>
    cases xs with
    | nil => simp
    | cons =>
      rw [intercalate_cons_cons, flatMap_append, flatMap_append, ih]
      rw [map_cons, map_cons, map_cons, intercalate_cons_cons]

/-- A match of the spelled word in the spelled text begins where a letter begins, and
is a match of the word. -/
def Aligned (r : β → List α) (W y : List β) : Prop :=
  ∀ c z s, c :: z <:+ y → s ≠ [] → s <:+ r c → W.flatMap r <+: s ++ z.flatMap r →
    s = r c ∧ W <+: c :: z

lemma Aligned.of_suffix {z : List β} (h : Aligned r W y) (hz : z <:+ y) : Aligned r W z :=
  fun c z' s hsuf => h c z' s (hsuf.trans hz)

variable [DecidableEq β]

/-- A replacement that spells the same changes nothing in what is spelled. -/
lemma flatMap_replaceAll (hW : W ≠ []) (hX : X.flatMap r = W.flatMap r) (y : List β) :
    (replaceAll W X y).flatMap r = y.flatMap r := by
  rw [replaceAll, flatMap_intercalate, hX, ← flatMap_intercalate]
  exact congrArg (·.flatMap r) (replaceAll_self hW y)

variable [DecidableEq α]

/-- The pieces of a spelled text are the spelled pieces. -/
lemma pieces_flatMap (hr : ∀ c, r c ≠ []) (hW : W ≠ []) (h : Aligned r W y) :
    pieces (W.flatMap r) 0 (y.flatMap r) = (pieces W 0 y).map (·.flatMap r) := by
  have hw : W.flatMap r ≠ [] := by
    obtain ⟨c, W, rfl⟩ := exists_cons_of_ne_nil hW
    simp [hr c]
  induction hn : y.length using Nat.strong_induction_on generalizing y with
  | _ n ih =>
    subst hn
    cases y with
    | nil => simp [pieces]
    | cons c y =>
      by_cases hpre : W <+: c :: y
      · obtain ⟨z, hz⟩ := hpre
        have hlen : z.length < (c :: y).length := by
          have hlt := length_pos_iff.mpr hW
          rw [← hz, length_append]
          omega
        have hrest := ih z.length hlen (h.of_suffix (hz ▸ suffix_append W z)) rfl
        rw [← hz, flatMap_append, pieces_match hw, pieces_match hW, map_cons, hrest]
        rfl
      -- no match begins in the letter, neither spelled nor not
      have hno : ∀ s, s ≠ [] → s <:+ r c → ¬ W.flatMap r <+: s ++ y.flatMap r :=
        fun s hs hsuf hm => hpre (h c y s suffix_rfl hs hsuf hm).2
      have hrest := ih y.length (by simp) (h.of_suffix (suffix_cons c y)) rfl
      rw [flatMap_cons, pieces_append hno, hrest, pieces,
        if_neg fun hm => hpre ( isPrefixOf_iff_prefix.mp hm)]
      obtain ⟨x, xs, heq, -⟩ := pieces_spec W 0 y
      rw [heq, growFirst, map_cons, foldr_growFirst, map_cons, flatMap_cons]

/-- **Replacement commutes with spelling.** -/
lemma replaceAll_flatMap (hr : ∀ c, r c ≠ []) (hW : W ≠ []) (h : Aligned r W y) (X : List β) :
    replaceAll (W.flatMap r) (X.flatMap r) (y.flatMap r) = (replaceAll W X y).flatMap r := by
  rw [replaceAll, pieces_flatMap hr hW h, replaceAll, flatMap_intercalate]

end Spelling

/-! ### Tokens -/

/-- No end of the word is a start of it, but for the word itself. -/
def Unbordered (w : List α) : Prop := ∀ s, s ≠ [] → s ≠ w → s <:+ w → ¬ s <+: w

lemma Apart.symm {p w : List α} (h : Apart p w) : Apart w p where
  not_inside := h.not_around
  not_around := h.not_inside
  not_before := fun s hs hsuf hpre => h.not_after s hs hpre hsuf
  not_after := fun s hs hpre hsuf => h.not_before s hs hsuf hpre

/-- A word apart from `p` does not begin inside `p`. -/
lemma Apart.not_prefix_append {p w s t : List α} (h : Apart p w) (hs : s ≠ []) (hsuf : s <:+ p) :
    ¬ w <+: s ++ t := by
  intro hpre
  rcases prefix_or_prefix_of_prefix hpre (prefix_append s t) with hle | hle
  · exact h.not_inside (hle.isInfix.trans hsuf.isInfix)
  · exact h.not_before s hs hsuf hle

section Tokens

variable {κ : Type v} {word mark : κ → List α} {t : List α} {y z : List (α ⊕ κ)} {k : κ}

/-- A letter as it is, a token as its mark. -/
def shown (mark : κ → List α) : α ⊕ κ → List α := Sum.elim (fun a => [a]) mark

/-- A letter as it is, a token as the word it stands for. -/
def meant (word : κ → List α) : α ⊕ κ → List α := Sum.elim (fun a => [a]) word

/-- A text without tokens. -/
def plain (t : List α) : List (α ⊕ κ) := t.map inl

@[simp] lemma flatMap_shown_plain (mark : κ → List α) (t : List α) :
    (plain t).flatMap (shown mark) = t := by
  induction t with
  | nil => rfl
  | cons a t ih => exact congrArg (a :: ·) ih

@[simp] lemma flatMap_meant_plain (word : κ → List α) (t : List α) :
    (plain t).flatMap (meant word) = t :=
  flatMap_shown_plain word t

lemma inr_notMem_plain (t : List α) (k : κ) : inr k ∉ plain t := by
  simp [plain]

/-- A text all of whose letters are letters. -/
lemma eq_plain_of_no_token (h : ∀ k, inr k ∉ y) : ∃ t, y = plain t := by
  induction y with
  | nil => exact ⟨[], rfl⟩
  | cons c y ih =>
    obtain ⟨t, rfl⟩ := ih fun k hk => h k (mem_cons_of_mem _ hk)
    cases c with
    | inl a => exact ⟨a :: t, rfl⟩
    | inr k => exact absurd mem_cons_self (h k)

/-- What occurs in a text without a token in it occurs in what the text means. -/
lemma infix_meant_of_plain {u : List α} (h : plain u <:+: y) : u <:+: y.flatMap (meant word) := by
  obtain ⟨a, b, rfl⟩ := h
  exact ⟨a.flatMap (meant word), b.flatMap (meant word), by simp [flatMap_append]⟩

/-- A word none of whose ends reaches into a mark is a start of the shown text only
before its first token. -/
lemma plain_prefix_of_shown {u : List α} (hu : u <+: z.flatMap (shown mark))
    (hz : ∀ j, inr j ∈ z → ∀ s, s ≠ [] → s <:+ u → ¬ s <+: mark j ∧ ¬ mark j <+: s) :
    plain u <+: z := by
  induction z generalizing u with
  | nil =>
    rw [flatMap_nil, prefix_nil] at hu
    rw [hu]
    exact nil_prefix
  | cons c z ih =>
    cases u with
    | nil => exact nil_prefix
    | cons b u =>
      cases c with
      | inl a =>
        obtain ⟨rfl, hrest⟩ := cons_prefix_cons.mp hu
        refine cons_prefix_cons.mpr ⟨rfl, ih hrest fun j hj s hs hsuf => ?_⟩
        exact hz j (mem_cons_of_mem _ hj) s hs (hsuf.trans (suffix_cons b u))
      | inr j =>
        have hreach := hz j mem_cons_self (b :: u) (by simp) suffix_rfl
        rcases prefix_or_prefix_of_prefix hu (prefix_append (mark j) _) with hle | hle
        · exact absurd hle hreach.1
        · exact absurd hle hreach.2

/-- Words are found where they stand, if every mark in the text is apart from them. -/
lemma aligned_word {u : List α} (hap : ∀ j, inr j ∈ y → Apart (mark j) u) :
    Aligned (shown mark) (plain u) y := by
  intro c z s hsuf hs hc hpre
  rw [flatMap_shown_plain] at hpre
  have hmem : ∀ {j}, inr j ∈ c :: z → Apart (mark j) u := fun hj => hap _ (hsuf.subset hj)
  cases c with
  | inl a =>
    obtain rfl : s = [a] := by
      rcases suffix_cons_iff.mp hc with rfl | hnil
      · rfl
      · exact absurd (suffix_nil.mp hnil) hs
    refine ⟨rfl, plain_prefix_of_shown hpre fun j hj s' hs' hsuf' => ⟨fun hle => ?_, fun hle => ?_⟩⟩
    · exact (hmem hj).not_after s' hs' hle hsuf'
    · exact (hmem hj).not_around (hle.isInfix.trans hsuf'.isInfix)
  | inr j => exact absurd hpre ((hmem mem_cons_self).not_prefix_append hs hc)

/-- A mark is found at its tokens only, if it does not occur otherwise and shares no
part with the other marks in the text. -/
lemma aligned_mark (hk : mark k ≠ []) (hno : ¬ plain (mark k) <:+: y)
    (hother : ∀ j, inr j ∈ y → j ≠ k → Apart (mark j) (mark k))
    (hself : inr k ∈ y → Unbordered (mark k)) : Aligned (shown mark) [inr k] y := by
  intro c z s hsuf hs hc hpre
  have hword : [Sum.inr k].flatMap (shown mark) = mark k := by simp [shown]
  rw [hword] at hpre
  cases c with
  | inl a =>
    obtain rfl : s = [a] := by
      rcases suffix_cons_iff.mp hc with rfl | hnil
      · rfl
      · exact absurd (suffix_nil.mp hnil) hs
    obtain ⟨b, u, hbu⟩ := exists_cons_of_ne_nil hk
    rw [hbu] at hpre
    obtain ⟨rfl, hu⟩ := cons_prefix_cons.mp hpre
    -- the mark would begin with letters and run into a token, or stand there literally
    have hplain : plain u <+: z := by
      refine plain_prefix_of_shown hu fun j hj s' hs' hsuf' => ?_
      have hj : inr j ∈ y := hsuf.subset (mem_cons_of_mem _ hj)
      have hsuf'' : s' <:+ mark k := hbu ▸ hsuf'.trans (suffix_cons b u)
      have hlt : s'.length < (mark k).length := by
        rw [hbu, length_cons]
        exact Nat.lt_succ_of_le hsuf'.length_le
      by_cases hjk : j = k
      · subst hjk
        refine ⟨hself hj s' hs' (fun heq => by simp [heq] at hlt) hsuf'', fun hle => ?_⟩
        exact absurd hle.length_le (Nat.not_le.mpr hlt)
      · exact ⟨fun hle => (hother j hj hjk).not_after s' hs' hle hsuf'',
          fun hle => (hother j hj hjk).not_around (hle.isInfix.trans hsuf''.isInfix)⟩
    refine absurd ?_ hno
    rw [hbu]
    exact (cons_prefix_cons.mpr ⟨rfl, hplain⟩ : plain (b :: u) <+: _).isInfix.trans hsuf.isInfix
  | inr j =>
    have hj : inr j ∈ y := hsuf.subset mem_cons_self
    by_cases hjk : j = k
    · subst hjk
      refine ⟨?_, cons_prefix_cons.mpr ⟨rfl, nil_prefix⟩⟩
      by_contra hne
      change s <:+ mark j at hc
      rcases prefix_or_prefix_of_prefix hpre (prefix_append s _) with hle | hle
      · exact hne (hc.eq_of_length (Nat.le_antisymm hc.length_le hle.length_le))
      · exact hself hj s hs hne hc hle
    · exact absurd hpre ((hother j hj hjk).not_prefix_append hs hc)

lemma shown_ne_nil (hmark : ∀ j, mark j ≠ []) (c : α ⊕ κ) : shown mark c ≠ [] := by
  cases c with
  | inl a => simp [shown]
  | inr j => exact hmark j

variable [DecidableEq α] [DecidableEq κ]

section

variable (hmark : ∀ j, mark j ≠ [])
include hmark

lemma replaceAll_shown_word (hk : word k ≠ [])
    (hap : ∀ j, Sum.inr j ∈ y → Apart (mark j) (word k)) :
    replaceAll (word k) (mark k) (y.flatMap (shown mark))
      = (replaceAll (plain (word k)) [inr k] y).flatMap (shown mark) := by
  have hplain : plain (word k) ≠ ([] : List (α ⊕ κ)) := by simpa [plain] using hk
  have h := replaceAll_flatMap (shown_ne_nil hmark) hplain (aligned_word hap) [inr k]
  rw [flatMap_shown_plain] at h
  simpa [shown] using h

lemma replaceAll_shown_mark (hno : ¬ plain (mark k) <:+: y)
    (hother : ∀ j, Sum.inr j ∈ y → j ≠ k → Apart (mark j) (mark k))
    (hself : inr k ∈ y → Unbordered (mark k)) :
    replaceAll (mark k) (word k) (y.flatMap (shown mark))
      = (replaceAll [inr k] (plain (word k)) y).flatMap (shown mark) := by
  have h := replaceAll_flatMap (shown_ne_nil hmark) (by simp)
    (aligned_mark (hmark k) hno hother hself) (plain (word k))
  rw [flatMap_shown_plain] at h
  simpa [shown] using h

/-- The text with words replaced by marks: it is shown by some text with tokens that
still means what it meant, and has tokens for words that occur in it only. -/
lemma replaceEach_word {P : κ → Prop} (ks : List κ) (hword : ∀ k ∈ ks, word k ≠ [])
    (hP : ∀ k ∈ ks, word k <:+: t → P k) (hap : ∀ j, P j → ∀ k ∈ ks, Apart (mark j) (word k))
    (hy : y.flatMap (meant word) = t) (htok : ∀ j, inr j ∈ y → P j) :
    ∃ y' : List (α ⊕ κ), replaceEach (ks.map fun k => (word k, mark k)) (y.flatMap (shown mark))
        = y'.flatMap (shown mark) ∧
      y'.flatMap (meant word) = t ∧ ∀ j, inr j ∈ y' → P j := by
  induction ks generalizing y with
  | nil => exact ⟨y, rfl, hy, htok⟩
  | cons k ks ih =>
    have hk := hword k mem_cons_self
    have hplain : plain (word k) ≠ ([] : List (α ⊕ κ)) := by simpa [plain] using hk
    rw [map_cons, replaceEach, foldl_cons, replaceStep_eq,
      replaceAll_shown_word hmark hk fun j hj => hap j (htok j hj) k mem_cons_self]
    refine ih (fun j hj => hword j (mem_cons_of_mem _ hj))
      (fun j hj => hP j (mem_cons_of_mem _ hj))
      (fun j hj k' hk' => hap j hj k' (mem_cons_of_mem _ hk')) ?_ fun j hj => ?_
    · rw [flatMap_replaceAll hplain (by rw [flatMap_meant_plain]; simp [meant]) y]
      exact hy
    by_cases hocc : plain (word k) <:+: y
    · rcases mem_of_mem_replaceAll hj with hj | hj
      · exact htok j hj
      · obtain rfl : j = k := by simpa using hj
        exact hP j mem_cons_self (hy ▸ infix_meant_of_plain hocc)
    · rw [replaceAll, pieces_of_not_infix hocc] at hj
      exact htok j (by simpa using hj)

/-- The text with marks replaced by words: no token of a mark in the list is left. -/
lemma replaceEach_mark (rs : List κ) (hno : ∀ k ∈ rs, ¬ mark k <:+: t)
    (hother : ∀ j, inr j ∈ y → ∀ k ∈ rs, j ≠ k → Apart (mark j) (mark k))
    (hself : ∀ j, inr j ∈ y → Unbordered (mark j)) (hy : y.flatMap (meant word) = t)
    (htok : ∀ j, inr j ∈ y → j ∈ rs) :
    replaceEach (rs.map fun k => (mark k, word k)) (y.flatMap (shown mark)) = t := by
  induction rs generalizing y with
  | nil =>
    obtain ⟨u, rfl⟩ := eq_plain_of_no_token fun j hj => absurd (htok j hj) (by simp)
    rw [flatMap_meant_plain] at hy
    rw [flatMap_shown_plain, ← hy]
    rfl
  | cons k rs ih =>
    -- the mark stands in the text as a token only
    have hnok : ¬ plain (mark k) <:+: y := fun hocc =>
      hno k mem_cons_self (hy ▸ infix_meant_of_plain hocc)
    rw [map_cons, replaceEach, foldl_cons, replaceStep_eq, replaceAll_shown_mark hmark
      hnok (fun j hj hjk => hother j hj k mem_cons_self hjk) (hself k)]
    -- after the step no token of this mark is left
    have hmem : ∀ {j}, inr j ∈ replaceAll [inr k] (plain (word k)) y →
        inr j ∈ y ∧ j ≠ k := by
      intro j hj
      refine ⟨(mem_of_mem_replaceAll hj).resolve_right (inr_notMem_plain _ j), ?_⟩
      rintro rfl
      exact notMem_replaceAll_singleton (inr_notMem_plain _ j) hj
    refine ih (fun j hj => hno j (mem_cons_of_mem _ hj))
      (fun j hj k' hk' => hother j (hmem hj).1 k' (mem_cons_of_mem _ hk'))
      (fun j hj => hself j (hmem hj).1) ?_ fun j hj => ?_
    · rw [flatMap_replaceAll (by simp) (by rw [flatMap_meant_plain]; simp [meant]) y]
      exact hy
    · exact (mem_cons.mp (htok j (hmem hj).1)).resolve_left (hmem hj).2

end

/-- **Undoing a redaction**: the words of `ks` in `t` replaced by their marks, one
after the other, and then the marks of `rs` by their words, is `t` again, if `t` has no
mark of `rs` in it, every word of `ks` in `t` is put back, and the marks of those words
are apart from all words and from the other marks that are looked for. -/
theorem restore_redact (word mark : κ → List α) (ks rs : List κ) (hmark : ∀ j, mark j ≠ [])
    (hword : ∀ k ∈ ks, word k ≠ []) (hno : ∀ k ∈ rs, ¬ mark k <:+: t)
    (hback : ∀ k ∈ ks, word k <:+: t → k ∈ rs)
    (hwords : ∀ j ∈ ks, word j <:+: t → ∀ k ∈ ks, Apart (mark j) (word k))
    (hmarks : ∀ j ∈ ks, word j <:+: t → Unbordered (mark j) ∧
      ∀ k ∈ rs, j ≠ k → Apart (mark j) (mark k)) :
    replaceEach (rs.map fun k => (mark k, word k))
      (replaceEach (ks.map fun k => (word k, mark k)) t) = t := by
  obtain ⟨y, hshown, hmeant, htok⟩ :=
    replaceEach_word (P := fun k => k ∈ ks ∧ word k <:+: t) hmark ks
    hword (fun k hk hocc => ⟨hk, hocc⟩) (fun j hj => hwords j hj.1 hj.2)
    (flatMap_meant_plain word t) fun j hj => absurd hj (inr_notMem_plain t j)
  rw [flatMap_shown_plain] at hshown
  rw [hshown]
  exact replaceEach_mark hmark rs hno (fun j hj => (hmarks j (htok j hj).1 (htok j hj).2).2)
    (fun j hj => (hmarks j (htok j hj).1 (htok j hj).2).1) hmeant
    fun j hj => hback j (htok j hj).1 (htok j hj).2

end Tokens

end WebTos.Lib
