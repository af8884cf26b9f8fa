import WebTos.Fd.Objects

/-!
Terminal input that arrives in pieces (`Pty::feed_input`).

The queue does not depend on the pieces (`typeKeys_snd`).  Of the signals one call keeps only the
last (`typeKeys_fst`), so a string with two signal characters raises one signal if it comes in
one piece (`feedInput_chunks_iff`).
-/

namespace WebTos.Fd.Pty

open List

/-- What one byte does to the signal to raise and to the queue. -/
def typeKey (p : Pty) (acc : Option ℕ × Bytes) (byte : UInt8) : Option ℕ × Bytes :=
  match p.raised byte with
  | some sig => (some sig, [])
  | none => (acc.1, acc.2 ++ [byte])

/-- The signals that the signal characters of an input stand for, in order. -/
def controls (p : Pty) (bytes : Bytes) : List ℕ :=
  if p.isig then bytes.filterMap p.raised else []

/-- The signals one call raises for the foreground group: its callers deliver what it returns. -/
def signals (p : Pty) (bytes : Bytes) : List ℕ := (p.feedInput bytes).1.toList

variable {p : Pty}

lemma feedInput_of_isig (h : p.isig) (bytes : Bytes) :
    p.feedInput bytes = ((bytes.foldl p.typeKey (none, p.m2s)).1,
      { p with m2s := (bytes.foldl p.typeKey (none, p.m2s)).2, activity := p.activity + 1 }) := by
  rw [feedInput, h]
  rfl

lemma feedInput_of_raw (h : p.isig = false) (bytes : Bytes) :
    p.feedInput bytes = (none, { p with m2s := p.m2s ++ bytes, activity := p.activity + 1 }) := by
  rw [feedInput, h]
  rfl

/-- The last signal character decides what a piece raises. -/
lemma typeKeys_fst (bytes : Bytes) (acc : Option ℕ × Bytes) :
    (bytes.foldl p.typeKey acc).1 = (bytes.filterMap p.raised).getLast?.or acc.1 := by
  induction bytes generalizing acc with
  | nil => rfl
  | cons byte bytes ih =>
    rw [foldl_cons, ih, typeKey]
    cases hb : p.raised byte with
    | none => rw [filterMap_cons_none hb]
    | some sig =>
      rw [filterMap_cons_some hb, List.getLast?_cons]
      cases (bytes.filterMap p.raised).getLast? <;> rfl

/-- The queue does not depend on the signals seen before. -/
lemma typeKeys_snd (bytes : Bytes) (s s' : Option ℕ) (queue : Bytes) :
    (bytes.foldl p.typeKey (s, queue)).2 = (bytes.foldl p.typeKey (s', queue)).2 := by
  induction bytes generalizing s s' queue with
  | nil => rfl
  | cons byte bytes ih =>
    rw [foldl_cons, foldl_cons, typeKey, typeKey]
    cases p.raised byte with
    | none => exact ih _ _ _
    | some sig => rfl

/-- One call leaves the terminal's settings alone. -/
lemma feedInput_termios (p : Pty) (bytes : Bytes) : (p.feedInput bytes).2.termios = p.termios := by
  rw [feedInput]
  split_ifs <;> rfl

lemma signals_eq (p : Pty) (bytes : Bytes) :
    p.signals bytes = (p.controls bytes).getLast?.toList := by
  rw [signals, controls]
  by_cases h : p.isig
  · rw [feedInput_of_isig h, typeKeys_fst, Option.or_none, if_pos h]
  · rw [if_neg h, feedInput_of_raw (Bool.not_eq_true _ ▸ h)]
    rfl

/-- The queue after two pieces is the queue after their concatenation. -/
lemma feedInput_append_m2s (p : Pty) (a b : Bytes) :
    ((p.feedInput a).2.feedInput b).2.m2s = (p.feedInput (a ++ b)).2.m2s := by
  have hset : (p.feedInput a).2.isig = p.isig := by rw [isig, feedInput_termios, isig]
  by_cases h : p.isig
  · have hkey : (p.feedInput a).2.typeKey = p.typeKey := by
      funext acc byte
      rw [typeKey, typeKey, raised, raised, feedInput_termios]
    rw [feedInput_of_isig (hset.trans h), feedInput_of_isig h (a ++ b), hkey,
      feedInput_of_isig h a]
    rw [foldl_append, typeKeys_snd b none (a.foldl p.typeKey (none, p.m2s)).1]
  rw [Bool.not_eq_true] at h
  rw [feedInput_of_raw (hset.trans h), feedInput_of_raw h (a ++ b), feedInput_of_raw h a]
  exact append_assoc _ _ _

/-- **Terminal input does not depend on its pieces, and every signal character raises its own
signal, exactly where the two pieces together have at most one signal character.** -/
theorem feedInput_chunks_iff (p : Pty) (a b : Bytes) :
    (((p.feedInput a).2.feedInput b).2.m2s = (p.feedInput (a ++ b)).2.m2s ∧
      p.signals a ++ (p.feedInput a).2.signals b = p.signals (a ++ b) ∧
      p.signals (a ++ b) = p.controls (a ++ b)) ↔ (p.controls (a ++ b)).length ≤ 1 := by
  have hsplit : p.controls (a ++ b) = p.controls a ++ p.controls b := by
    simp only [controls]
    split_ifs
    · exact filterMap_append
    · rfl
  have hsecond : (p.feedInput a).2.controls b = p.controls b := by
    have hraised : (p.feedInput a).2.raised = p.raised := by
      funext byte
      rw [raised, raised, feedInput_termios]
    rw [controls, controls, isig, isig, feedInput_termios, hraised]
  rw [signals_eq, signals_eq, signals_eq, hsecond, hsplit]
  constructor
  · rintro ⟨-, -, h⟩
    rw [← h]
    exact Option.length_toList_le
  intro h
  refine ⟨feedInput_append_m2s p a b, ?_⟩
  rw [length_append] at h
  have hone : ∀ l : List ℕ, l.length ≤ 1 → l.getLast?.toList = l := by
    rintro (_ | ⟨s, _ | _⟩) hl <;> simp_all
  -- One of the pieces has no signal character, the other has one at most.
  rcases Nat.eq_zero_or_pos (p.controls a).length with ha | ha
  · rw [length_eq_zero_iff.mp ha]
    simp [hone _ (by omega : (p.controls b).length ≤ 1)]
  have hb : (p.controls b).length = 0 := by omega
  rw [length_eq_zero_iff.mp hb]
  simp [hone _ (by omega : (p.controls a).length ≤ 1)]

/-- An interrupt character and a quit character in one write: the interrupt is lost. -/
theorem feedInput_two_signals :
    new.signals [3] ++ (new.feedInput [3]).2.signals [28] = [2, 3] ∧
      new.signals ([3] ++ [28]) = [3] := by
  decide +kernel

end WebTos.Fd.Pty
