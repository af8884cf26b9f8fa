import WebTos.Abi
import WebTos.Lib.Run
import WebTos.Lib.Wire

/-!
The browser's snapshots of the guest filesystem (`web/worker.js`).

A snapshot is written into the older of two slots.  Each slot has a header with a
generation, a length and a digest, and a reader takes the newest slot that is whole; with
none, it takes the file of an older format.

* `encodeSnapshot`, `decodeSnapshot`: a slot and its payload;
* `newest`, `readSnapshot`, `writeSnapshot`: the protocol over a store of two slots and the
  old file; how a write ends (`Outcome`) is an input;
* `decodeSnapshot_encode`, `decodeSnapshot_torn`: the bytes of a slot decode whole or not at
  all;
* `readSnapshot_write`: what a reader finds after one write;
* `snapshots_survive`: what a reader finds after any sequence of writes, interrupted and
  completed.
-/

namespace WebTos.Web

open Lib List Option

/-- `crypto.subtle.digest("SHA-256", ..)`. -/
structure Digest where
  sha256 : Bytes → Bytes
  length_sha256 : ∀ bytes, (sha256 bytes).length = 32

/-- `Number.MAX_SAFE_INTEGER`. -/
def MAX_SAFE_INTEGER : ℕ := 2 ^ 53 - 1

/-- `SNAPSHOT_MAGIC`: "WTWFS02\0". -/
def SNAPSHOT_MAGIC : Bytes := [0x57, 0x54, 0x57, 0x46, 0x53, 0x30, 0x32, 0x00]

/-- `SNAPSHOT_HEADER`. -/
def SNAPSHOT_HEADER : ℕ := SNAPSHOT_MAGIC.length + 8 + 4 + 32

/-- `SNAPSHOT_SLOTS`. -/
inductive Slot where
  | zero | one
  deriving DecidableEq, Repr

/-- The other slot. -/
def Slot.other : Slot → Slot
  | .zero => .one
  | .one => .zero

/-- What the origin's private filesystem holds; `none` is a file that is not there. -/
structure Store where
  slots : Slot → Option Bytes
  /-- `SNAPSHOT_FILE`, of the format before. -/
  legacy : Option Bytes

/-- A slot is written. -/
def Store.put (s : Store) (slot : Slot) (bytes : Bytes) : Store :=
  { s with slots := Function.update s.slots slot (some bytes) }

/-- A decoded slot. -/
structure Decoded where
  generation : ℕ
  payload : Bytes
  deriving DecidableEq, Repr

/-- A decoded slot with its name. -/
structure Candidate extends Decoded where
  name : Slot
  deriving DecidableEq, Repr

variable (D : Digest)

/-- `encodeSnapshot`. -/
def encodeSnapshot (generation : ℕ) (payload : Bytes) : Bytes :=
  SNAPSHOT_MAGIC ++ leBytes 8 generation ++ leBytes 4 payload.length ++ D.sha256 payload ++ payload

/-- `decodeSnapshot`.  A generation that a number cannot hold exactly is not a safe integer
after rounding either. -/
def decodeSnapshot (bytes : Bytes) : Option Decoded :=
  let magic := SNAPSHOT_MAGIC.length
  if bytes.length < SNAPSHOT_HEADER then none
  else if bytes.take magic ≠ SNAPSHOT_MAGIC then none
  else
    let generation := leValue ((bytes.drop magic).take 8)
    let length := leValue ((bytes.drop (magic + 8)).take 4)
    if MAX_SAFE_INTEGER < generation ∨ bytes.length ≠ SNAPSHOT_HEADER + length then none
    else
      let payload := bytes.drop SNAPSHOT_HEADER
      let expected := (bytes.drop (magic + 12)).take 32
      if D.sha256 payload ≠ expected then none else some ⟨generation, payload⟩

/-- What a slot decodes to. -/
def candidate (s : Store) (name : Slot) : Option Candidate :=
  (s.slots name).bind fun bytes => (decodeSnapshot D bytes).map fun d => ⟨d, name⟩

/-- `snapshotCandidates`: newest first.  The sort is stable. -/
def snapshotCandidates (s : Store) : List Candidate :=
  ([Slot.zero, .one].filterMap (candidate D s)).insertionSort fun a b => b.generation ≤ a.generation

/-- The head of the candidates. -/
def newest (s : Store) : Option Candidate := (snapshotCandidates D s).head?

/-- `nextSnapshotSlot`. -/
def nextSnapshotSlot : Option Candidate → Slot
  | none => .zero
  | some newest => if newest.name = .zero then .one else .zero

/-- `readSnapshot`. -/
def readSnapshot (s : Store) : Option Bytes :=
  match newest D s with
  | some newest => some newest.payload
  | none => s.legacy

/-- How a write ends. -/
inductive Outcome where
  /-- Interrupted, with the old bytes in the slot. -/
  | kept
  /-- Interrupted, with the first bytes of the new ones in the slot, or all of them. -/
  | part (n : ℕ)
  /-- The slot is written, and the old file is deleted or not; interrupted then, or
  returned.  A deletion that fails is passed over. -/
  | whole (deleted returned : Bool)
  deriving DecidableEq, Repr

/-- The write is not interrupted. -/
def Outcome.completes : Outcome → Bool
  | .whole _ returned => returned
  | _ => false

/-- A call of `writeSnapshot`, with a payload whose length the header can hold. -/
structure Write where
  payload : Bytes
  short : payload.length < 2 ^ 32
  outcome : Outcome

/-- The generations are not used up. -/
def hasGeneration (s : Store) : Bool :=
  (newest D s).all fun newest => newest.generation < MAX_SAFE_INTEGER

/-- `writeSnapshot`: what the store holds after it, and whether it has returned normally.  It
throws when the generations are used up. -/
def writeSnapshot (s : Store) (w : Write) : Store × Bool :=
  if (newest D s).any fun newest => MAX_SAFE_INTEGER ≤ newest.generation then (s, false)
  else
    let generation := ((newest D s).map fun newest => newest.generation).getD 0 + 1
    let name := nextSnapshotSlot (newest D s)
    let bytes := encodeSnapshot D generation w.payload
    match w.outcome with
    | .kept => (s, false)
    | .part n => (s.put name (bytes.take n), false)
    | .whole deleted returned =>
      let s := s.put name bytes
      (if deleted then { s with legacy := none } else s, returned)

/-! ### A slot and its payload -/

variable {D} {g : ℕ} {p q : Bytes}

/-- The header of a snapshot. -/
def header (D : Digest) (g : ℕ) (p : Bytes) : Bytes :=
  SNAPSHOT_MAGIC ++ (leBytes 8 g ++ (leBytes 4 p.length ++ D.sha256 p))

lemma encodeSnapshot_eq : encodeSnapshot D g p = header D g p ++ p := by
  simp only [encodeSnapshot, header, append_assoc]

lemma length_header : (header D g p).length = SNAPSHOT_HEADER := by
  simp only [header, length_append, length_leBytes, D.length_sha256, SNAPSHOT_HEADER]

section

variable (hg : g ≤ MAX_SAFE_INTEGER) (hp : p.length < 2 ^ 32)
include hg hp

/-- A snapshot's header with any bytes behind it decodes exactly if the bytes have the length
and the digest of the payload. -/
lemma decodeSnapshot_header :
    decodeSnapshot D (header D g p ++ q) =
      if q.length ≠ p.length then none
      else if D.sha256 q ≠ D.sha256 p then none else some ⟨g, q⟩ := by
  have hlen : (header D g p ++ q).length = SNAPSHOT_HEADER + q.length := by
    rw [length_append, length_header]
  -- the fields before the digest have fixed lengths, so dropping them is a computation
  have hmagic : (header D g p ++ q).take 8 = SNAPSHOT_MAGIC := rfl
  have hgen : ((header D g p ++ q).drop 8).take 8 = leBytes 8 g := rfl
  have hcount : ((header D g p ++ q).drop 16).take 4 = leBytes 4 p.length := rfl
  have htail : (header D g p ++ q).drop 20 = D.sha256 p ++ q := rfl
  have hdigest : ((header D g p ++ q).drop 20).take 32 = D.sha256 p := by
    rw [htail]
    exact take_left' (D.length_sha256 p)
  have hpayload : (header D g p ++ q).drop SNAPSHOT_HEADER = q :=
    drop_left' length_header
  have hg' : leValue (leBytes 8 g) = g := leValue_leBytes (lt_of_le_of_lt hg (by decide))
  have hp' : leValue (leBytes 4 p.length) = p.length :=
    leValue_leBytes (lt_of_lt_of_eq hp (by decide))
  have hmagic_length : SNAPSHOT_MAGIC.length = 8 := rfl
  rw [decodeSnapshot]
  simp only [hmagic_length, Nat.reduceAdd]
  rw [if_neg (by omega), if_neg (not_not.mpr hmagic), hgen, hcount, hdigest, hpayload, hlen, hg',
    hp']
  simp only [Nat.not_lt.mpr hg, false_or, ne_eq, Nat.add_left_cancel_iff]

lemma decodeSnapshot_encode :
    decodeSnapshot D (encodeSnapshot D g p) = some ⟨g, p⟩ := by
  rw [encodeSnapshot_eq, decodeSnapshot_header hg hp, if_neg (not_not.mpr rfl),
    if_neg (not_not.mpr rfl)]

/-- The first bytes of a slot do not decode: the length in the header is that of the whole
payload. -/
lemma decodeSnapshot_torn {n : ℕ} (hn : n < (encodeSnapshot D g p).length) :
    decodeSnapshot D ((encodeSnapshot D g p).take n) = none := by
  rw [encodeSnapshot_eq, length_append, length_header] at hn
  rw [encodeSnapshot_eq]
  by_cases hshort : n < SNAPSHOT_HEADER
  · have hlen : ((header D g p ++ p).take n).length < SNAPSHOT_HEADER := by
      rw [length_take]
      omega
    rw [decodeSnapshot]
    exact if_pos hlen
  have htake : (header D g p ++ p).take n = header D g p ++ p.take (n - SNAPSHOT_HEADER) := by
    rw [take_append, length_header, take_of_length_le (by rw [length_header]; omega)]
  have hlen : (p.take (n - SNAPSHOT_HEADER)).length ≠ p.length := by
    rw [length_take]
    omega
  rw [htake, decodeSnapshot_header hg hp, if_pos hlen]

end

/-! ### The newest slot -/

variable {s : Store}

/-- The newest of two candidates; the first on a tie. -/
def newer : Option Candidate → Option Candidate → Option Candidate
  | some a, some b => if b.generation ≤ a.generation then some a else some b
  | some a, none => some a
  | none, b => b

lemma newest_eq : newest D s = newer (candidate D s .zero) (candidate D s .one) := by
  rw [newest, snapshotCandidates]
  cases h₀ : candidate D s .zero with
  | none => cases h₁ : candidate D s .one <;> simp [h₀, h₁, newer]
  | some a =>
    cases h₁ : candidate D s .one with
    | none => simp [h₀, h₁, newer]
    | some b =>
      by_cases hle : b.generation ≤ a.generation <;> simp [h₀, h₁, newer, hle]

variable {c : Candidate}

lemma name_candidate {name : Slot} (h : candidate D s name = some c) :
    c.name = name := by
  rw [candidate, bind_eq_some_iff] at h
  obtain ⟨bytes, -, h⟩ := h
  obtain ⟨d, -, rfl⟩ := map_eq_some_iff.mp h
  rfl

/-- The slot that a write leaves alone is the one the reader took its payload from. -/
lemma candidate_other : candidate D s (nextSnapshotSlot (newest D s)).other = newest D s := by
  rw [newest_eq]
  cases h₀ : candidate D s .zero with
  | none =>
    cases h₁ : candidate D s .one with
    | none => exact h₁
    | some b =>
      rw [newer, nextSnapshotSlot, name_candidate h₁]
      exact h₁
  | some a =>
    cases h₁ : candidate D s .one with
    | none =>
      rw [newer, nextSnapshotSlot, name_candidate h₀]
      exact h₀
    | some b =>
      rw [newer]
      split_ifs
      · rw [nextSnapshotSlot, name_candidate h₀]
        exact h₀
      · rw [nextSnapshotSlot, name_candidate h₁]
        exact h₁

lemma candidate_put_self (name : Slot) (bytes : Bytes) :
    candidate D (s.put name bytes) name = (decodeSnapshot D bytes).map fun d => ⟨d, name⟩ := by
  have hslot : (s.put name bytes).slots name = some bytes := Function.update_self ..
  rw [candidate, hslot]
  rfl

lemma candidate_put_other (name : Slot) (bytes : Bytes) :
    candidate D (s.put name bytes) name.other = candidate D s name.other := by
  have hne : name.other ≠ name := by cases name <;> decide
  have hslot : (s.put name bytes).slots name.other = s.slots name.other :=
    Function.update_of_ne hne ..
  rw [candidate, hslot]
  rfl

/-- What is newest depends on the two slots in either order, but for ties. -/
lemma newest_eq_of_slot (name : Slot) (h : ∀ a b, candidate D s name = some a →
    candidate D s name.other = some b → b.generation < a.generation) :
    newest D s = (candidate D s name).or (candidate D s name.other) := by
  rw [newest_eq]
  cases name with
  | zero =>
    cases h₀ : candidate D s .zero with
    | none => rw [newer]; rfl
    | some a =>
      cases h₁ : candidate D s .one with
      | none => rfl
      | some b => exact if_pos (h a b h₀ h₁).le
  | one =>
    cases h₀ : candidate D s .zero with
    | none => rw [newer, Slot.other, h₀, or_none]
    | some a =>
      cases h₁ : candidate D s .one with
      | none =>
        rw [Slot.other, h₀]
        rfl
      | some b => exact if_neg (Nat.not_le.mpr (h b a h₁ h₀))

variable {bytes : Bytes}

lemma newest_put_none (h : decodeSnapshot D bytes = none) :
    newest D (s.put (nextSnapshotSlot (newest D s)) bytes) = newest D s := by
  have hself := candidate_put_self (D := D) (s := s) (nextSnapshotSlot (newest D s)) bytes
  rw [h, map_none] at hself
  rw [newest_eq_of_slot (nextSnapshotSlot (newest D s)), hself, candidate_put_other,
    candidate_other, none_or]
  intro a b ha
  cases hself.symm.trans ha

/-- A write that leaves a later snapshot in its slot. -/
lemma newest_put_some {d : Decoded} (h : decodeSnapshot D bytes = some d)
    (hlt : ∀ c, newest D s = some c → c.generation < d.generation) :
    newest D (s.put (nextSnapshotSlot (newest D s)) bytes) =
      some ⟨d, nextSnapshotSlot (newest D s)⟩ := by
  have hself := candidate_put_self (D := D) (s := s) (nextSnapshotSlot (newest D s)) bytes
  rw [h, map_some] at hself
  rw [newest_eq_of_slot (nextSnapshotSlot (newest D s)), hself, some_or]
  intro a b ha hb
  rw [candidate_put_other, candidate_other] at hb
  obtain rfl := some.inj (hself.symm.trans ha)
  exact hlt b hb

/-! ### Writes -/

/-- The generation of a write. -/
def nextGeneration (newest : Option Candidate) : ℕ :=
  (newest.map fun newest => newest.generation).getD 0 + 1

lemma nextGeneration_le {newest : Option Candidate}
    (h : ¬ newest.any (fun newest => MAX_SAFE_INTEGER ≤ newest.generation) = true) :
    nextGeneration newest ≤ MAX_SAFE_INTEGER := by
  cases newest with
  | none => decide
  | some c =>
    rw [any_some, decide_eq_true_eq, Nat.not_le] at h
    exact h

lemma readSnapshot_of_newest (h : newest D s = some c) :
    readSnapshot D s = some c.payload := by
  rw [readSnapshot, h]

/-- **When a write returns**: it is not interrupted, and there is a generation for it. -/
lemma returns_iff (s : Store) (w : Write) :
    (writeSnapshot D s w).2 = true ↔ w.outcome.completes ∧ hasGeneration D s := by
  rw [writeSnapshot, hasGeneration]
  cases hnewest : newest D s with
  | none =>
    rw [any_none, if_neg Bool.false_ne_true, all_none]
    cases w.outcome <;> simp [Outcome.completes]
  | some c =>
    rw [any_some, all_some]
    split_ifs with hexhausted
    · have hused : MAX_SAFE_INTEGER ≤ c.generation := by simpa using hexhausted
      simp [hused]
    · cases w.outcome <;> simp_all [Outcome.completes]

/-- **One write**: a reader finds what it would have found before, or the new payload; the new
one if the write has returned. -/
lemma readSnapshot_write (s : Store) (w : Write) :
    (readSnapshot D (writeSnapshot D s w).1 = readSnapshot D s ∨
      readSnapshot D (writeSnapshot D s w).1 = some w.payload) ∧
    ((writeSnapshot D s w).2 = true →
      readSnapshot D (writeSnapshot D s w).1 = some w.payload) := by
  rw [writeSnapshot]
  split_ifs with hexhausted
  · exact ⟨.inl rfl, fun h => by cases h⟩
  have hg := nextGeneration_le hexhausted
  have hwhole : newest D (s.put (nextSnapshotSlot (newest D s))
      (encodeSnapshot D (nextGeneration (newest D s)) w.payload)) =
      some ⟨⟨nextGeneration (newest D s), w.payload⟩, nextSnapshotSlot (newest D s)⟩ :=
    newest_put_some (decodeSnapshot_encode hg w.short) fun c hc => by
      rw [hc]
      exact Nat.lt_succ_self _
  cases w.outcome with
  | kept => exact ⟨.inl rfl, fun h => by cases h⟩
  | part n =>
    refine ⟨?_, fun h => by cases h⟩
    by_cases hn : n < (encodeSnapshot D (nextGeneration (newest D s)) w.payload).length
    · -- a torn slot does not decode, so the other slot is still the newest
      have htorn := newest_put_none (decodeSnapshot_torn hg w.short hn) (s := s)
      refine .inl ?_
      dsimp only
      rw [← nextGeneration, readSnapshot, htorn]
      rfl
    refine .inr ?_
    dsimp only
    rw [← nextGeneration, take_of_length_le (Nat.not_lt.mp hn)]
    exact readSnapshot_of_newest hwhole
  | whole deleted =>
    cases deleted with
    | true =>
      have hread := readSnapshot_of_newest (D := D) (s := { s.put (nextSnapshotSlot (newest D s))
        (encodeSnapshot D (nextGeneration (newest D s)) w.payload) with legacy := none }) hwhole
      exact ⟨.inr hread, fun _ => hread⟩
    | false =>
      have hread := readSnapshot_of_newest hwhole
      exact ⟨.inr hread, fun _ => hread⟩

variable (D)

/-- A store, and the payloads a reader may find in it. -/
structure Session where
  store : Store
  expected : List (Option Bytes)

/-- A write narrows what may be found to its payload if it returns, and adds its payload
otherwise. -/
def Session.step (t : Session) (w : Write) : Session where
  store := (writeSnapshot D t.store w).1
  expected := if (writeSnapshot D t.store w).2 then [some w.payload]
    else some w.payload :: t.expected

lemma store_run (t : Session) (ws : List Write) :
    (run (Session.step D) t ws).store = run (fun s w => (writeSnapshot D s w).1) t.store ws := by
  induction ws generalizing t with
  | nil => rfl
  | cons w ws ih => exact ih (t.step D w)

lemma expected_step (t : Session) (w : Write) (h : readSnapshot D t.store ∈ t.expected) :
    readSnapshot D (t.step D w).store ∈ (t.step D w).expected := by
  obtain ⟨hread, hreturned⟩ := readSnapshot_write (D := D) t.store w
  rw [Session.step]
  dsimp only
  split_ifs with hret
  · rw [hreturned hret]
    exact mem_singleton_self _
  rcases hread with hold | hnew
  · rw [hold]
    exact mem_cons_of_mem _ h
  · rw [hnew]
    exact mem_cons_self

/-- **Snapshots survive**: for every content of the slots and the old file, along every
sequence of writes, interrupted and completed.  After each write a reader finds what it
would have found before the write or its payload, and its payload if the write has
returned; a write returns exactly if it is not interrupted and there is a generation left for it.
At the end a reader finds the payload of the last write that returned, or of a later one, or, if
none has returned, what was there at the start. -/
theorem snapshots_survive (s : Store) (ws : List Write) (w : Write) :
    let before := run (fun s w => (writeSnapshot D s w).1) s ws
    let after := (writeSnapshot D before w).1
    (readSnapshot D after = readSnapshot D before ∨ readSnapshot D after = some w.payload) ∧
    ((writeSnapshot D before w).2 = true → readSnapshot D after = some w.payload) ∧
    ((writeSnapshot D before w).2 = true ↔ w.outcome.completes ∧ hasGeneration D before) ∧
    (run (Session.step D) ⟨s, [readSnapshot D s]⟩ ws).store = before ∧
    readSnapshot D before ∈ (run (Session.step D) ⟨s, [readSnapshot D s]⟩ ws).expected := by
  intro before after
  obtain ⟨hread, hreturned⟩ := readSnapshot_write (D := D) before w
  have hstore := store_run D ⟨s, [readSnapshot D s]⟩ ws
  refine ⟨hread, hreturned, returns_iff before w, hstore, ?_⟩
  have hexpected := run_invariant (fun t : Session => readSnapshot D t.store ∈ t.expected)
    (expected_step D) ws (s := ⟨s, [readSnapshot D s]⟩) (mem_singleton_self _)
  rwa [hstore] at hexpected

/-- A checksum of 32 bytes. -/
def checksum : Digest := ⟨fun bytes => leBytes 32 (leValue bytes), fun _ => length_leBytes _ _⟩

/-- The file of an older format is read until the first write that is not torn, and that write's
payload after it. -/
theorem snapshots_survive_torn :
    let before := run (fun s w => (writeSnapshot checksum s w).1) ⟨fun _ => none, some [1]⟩
      [⟨[2], by decide, .part 52⟩]
    let w : Write := ⟨[3], by decide, .whole true true⟩
    readSnapshot checksum before = some [1] ∧ (writeSnapshot checksum before w).2 = true ∧
      readSnapshot checksum (writeSnapshot checksum before w).1 = some [3] := by
  intro before w
  obtain ⟨-, hread, hreturns, -⟩ := snapshots_survive checksum ⟨fun _ => none, some [1]⟩
    [⟨[2], by decide, .part 52⟩] w
  have hreturned := hreturns.mpr ⟨rfl, by decide +kernel⟩
  exact ⟨by decide +kernel, hreturned, hread hreturned⟩

end WebTos.Web
