import WebTos.Abi
import WebTos.Lib.Extent

/-!
The guest's memory as the software MMU keeps it: a permission and a value for
every mapped byte.

The MMU's range map and physical pages are folded into one partial map from
addresses to cells.  What the kernel side relies on is kept: mapping over a
mapped byte is refused, unmapping a range with a hole unmaps the rest and says
so, and a permission update walks the range from its end downward, as the cursor
of the range map does, and stops at a hole with the part above it changed.

A cell also carries how its byte came to be there (`Backing`).  No function of
the source reads that; it says which bytes a page-in is allowed to write.

* `Mem.mapMemoryLen`, `Mem.unmapMemoryLen`, `Mem.updatePerm`, `Mem.readBytes`,
  `Mem.writeBytes`: the operations, under the MMU's names;
* `Mem.Cold`: a page whose every byte is mapped, inaccessible and not yet filled;
* `Mem.Cold.mapMemoryLen`, `Mem.Cold.unmapMemoryLen`, `Mem.Cold.updatePerm`,
  `Mem.Cold.writeBytes`: when the operations keep a page cold.
-/

namespace WebTos

open Lib Option

/-! ### Address arithmetic -/

/-- The size of a page. -/
abbrev PAGE_SIZE : ℕ := 4096

/-- `addr & !(PAGE_SIZE - 1)`. -/
def pageOf (addr : ℕ) : ℕ := addr - addr % PAGE_SIZE

lemma pageOf_mod (addr : ℕ) : pageOf addr % PAGE_SIZE = 0 := by
  simp only [pageOf, PAGE_SIZE]
  omega

lemma pageOf_self {page : ℕ} (h : page % PAGE_SIZE = 0) : pageOf page = page := by
  rw [pageOf, h, Nat.sub_zero]

/-- `align_up`: an address with no aligned address above it rounds to the last
aligned address there is. -/
def alignUp (value align : ℕ) : ℕ :=
  if value + (align - 1) < 2 ^ 64 then (value + (align - 1)) / align * align else 2 ^ 64 - align

/-- `u64::wrapping_add`. -/
def wrapAdd (a b : ℕ) : ℕ := (a + b) % 2 ^ 64

lemma satAdd_lt (a b : ℕ) : satAdd a b < 2 ^ 64 := by
  rw [satAdd]
  omega

lemma wrapAdd_lt (a b : ℕ) : wrapAdd a b < 2 ^ 64 := Nat.mod_lt _ (by decide)

/-- `u64::wrapping_sub`. -/
def wrapSub (a b : ℕ) : ℕ := (a + 2 ^ 64 - b) % 2 ^ 64

/-! ### Permissions and cells -/

namespace Perm

/-- No permission. -/
def NONE : UInt8 := 0
/-- The byte has been initialized. -/
def INIT : UInt8 := 1
/-- The guest may read. -/
def READ : UInt8 := 2
/-- The guest may write. -/
def WRITE : UInt8 := 4
/-- The guest may fetch. -/
def EXEC : UInt8 := 8
/-- The byte is mapped. -/
def MAP : UInt8 := 16
/-- The byte has been decoded as code. -/
def IN_CODE_CACHE : UInt8 := 128

/-- Some access is granted. -/
def grants (perm : UInt8) : Bool := perm &&& (READ ||| WRITE ||| EXEC) != 0

end Perm

/-- How a byte came to be mapped: by an eager mapping, by a lazy file mapping whose
contents have not been brought in, or by a lazy one that a page-in filled. -/
inductive Backing where
  | eager | cold | filled
  deriving DecidableEq, Repr

/-- A mapped byte. -/
structure Cell where
  perm : UInt8
  value : UInt8
  backing : Backing
  deriving DecidableEq, Repr

/-- The memory of one address space. -/
abbrev Mem := ℕ → Option Cell

namespace Mem

/-- Memory in which nothing is mapped. -/
def empty : Mem := fun _ => none

/-- The byte is mapped. -/
def isMapped (m : Mem) (b : ℕ) : Bool := (m b).isSome

/-- Every byte of the range is mapped: the range has no hole. -/
def mapped (m : Mem) (start len : ℕ) : Bool := allOn m.isMapped start len

/-- No byte of the range is mapped. -/
def free (m : Mem) (start len : ℕ) : Bool := allOn (fun b => !m.isMapped b) start len

/-- `map_memory_len`: maps a range to copies of one cell, unless the range is
empty, runs past the address space or overlaps a mapping. -/
def mapMemoryLen (m : Mem) (start len : ℕ) (c : Cell) : Mem × Bool :=
  if len = 0 ∨ 2 ^ 64 < start + len then (m, false)
  else if m.free start len then (editOn m start len fun _ => some c, true)
  else (m, false)

/-- `unmap_memory_len`: unmaps what is mapped of the range, and says whether all
of it was. -/
def unmapMemoryLen (m : Mem) (start len : ℕ) : Mem × Bool :=
  if len = 0 ∨ 2 ^ 64 < start + len then (m, false)
  else (editOn m start len fun _ => none, m.mapped start len)

/-- The start of the part of a range that is mapped without a hole up to its end. -/
def solidFrom (m : Mem) (addr count : ℕ) : ℕ := addr + (count - trailing m.isMapped addr count)

/-- `update_perm`: rewrites the permission of the bytes behind the last hole of the
range, and says whether that was all of it. -/
def updatePerm (m : Mem) (addr count : ℕ) (perm : UInt8) : Mem × Bool :=
  if count = 0 then (m, true)
  else if 2 ^ 64 < addr + count then (m, false)
  else
    (editOn m (m.solidFrom addr count) (trailing m.isMapped addr count)
      (Option.map fun c => { c with perm := perm ||| Perm.MAP ||| Perm.INIT }),
      m.mapped addr count)

/-- `read_bytes` with no permission required. -/
def readBytes (m : Mem) : ℕ → ℕ → Option Bytes
  | _, 0 => some []
  | addr, len + 1 => do
      let c ← m addr
      let rest ← readBytes m (wrapAdd addr 1) len
      return c.value :: rest

/-- `write_bytes` with no permission required.  It stops at a hole, and at a byte
that was decoded as code and would change.  A write of more than 16 bytes stores
aligned pieces of 16 in the source, so that at such a decoded byte the bytes of its
piece in front of it are not stored either; here they are. -/
def writeBytes (m : Mem) : ℕ → Bytes → Mem × Bool
  | _, [] => (m, true)
  | addr, v :: vs =>
    match m addr with
    | none => (m, false)
    | some c =>
      if c.perm &&& Perm.IN_CODE_CACHE != 0 && c.value != v then (m, false)
      else writeBytes (Function.update m addr (some { c with value := v }))
        (wrapAdd addr 1) vs

/-! ### What the operations do -/

variable {m : Mem}

variable {b start len addr count page : ℕ} {c : Cell} {perm : UInt8}

@[simp] lemma isMapped_eq_true : m.isMapped b ↔ ∃ c, m b = some c := by
  simp [isMapped, isSome_iff_exists]

lemma readBytes_length : ∀ {addr len : ℕ} {bytes : Bytes},
    m.readBytes addr len = some bytes → bytes.length = len := by
  intro addr len
  induction len generalizing addr with
  | zero =>
    rintro bytes ⟨⟩
    rfl
  | succ len ih =>
    intro bytes h
    rw [readBytes] at h
    obtain ⟨c, -, h⟩ := bind_eq_some_iff.mp h
    obtain ⟨rest, hrest, h⟩ := bind_eq_some_iff.mp h
    obtain rfl := some.inj h
    rw [List.length_cons, ih hrest]

/-- A mapping that is made fills a free range of the address space. -/
lemma mapMemoryLen_ok (h : (m.mapMemoryLen start len c).2) :
    len ≠ 0 ∧ start + len ≤ 2 ^ 64 ∧ (∀ b, start ≤ b → b < start + len → m b = none) ∧
      (m.mapMemoryLen start len c).1 = editOn m start len fun _ => some c := by
  rw [mapMemoryLen] at h ⊢
  split_ifs at h ⊢ with h₁ h₂
  refine ⟨by omega, by omega, fun b hb hb' => ?_, rfl⟩
  have := allOn_iff.mp h₂ b hb hb'
  simpa [isMapped] using this

/-- A mapping that is refused changes nothing. -/
lemma mapMemoryLen_refused
    (h : ¬ (m.mapMemoryLen start len c).2) : (m.mapMemoryLen start len c).1 = m := by
  rw [mapMemoryLen] at h ⊢
  split_ifs at h ⊢ <;> simp_all

/-- Mapping unmaps nothing. -/
lemma isMapped_mapMemoryLen (h : m.isMapped b) :
    Mem.isMapped (m.mapMemoryLen start len c).1 b := by
  by_cases hok : (m.mapMemoryLen start len c).2
  · obtain ⟨-, -, -, heq⟩ := mapMemoryLen_ok hok
    rw [heq, isMapped, editOn]
    split_ifs
    · rfl
    · exact h
  · rwa [mapMemoryLen_refused hok]

/-- Unmapping leaves every byte outside the range alone. -/
lemma unmapMemoryLen_outside (h : b < start ∨ start + len ≤ b) :
    (m.unmapMemoryLen start len).1 b = m b := by
  rw [unmapMemoryLen]
  split_ifs
  · rfl
  · dsimp only
    exact editOn_outside h

lemma le_solidFrom : addr ≤ m.solidFrom addr count := Nat.le_add_right ..

lemma solidFrom_add : m.solidFrom addr count + trailing m.isMapped addr count = addr + count := by
  have := trailing_le m.isMapped addr count
  rw [solidFrom]
  omega

lemma solidFrom_of_mapped (h : m.mapped addr count) : m.solidFrom addr count = addr := by
  rw [solidFrom, trailing_of_allOn h, Nat.sub_self, Nat.add_zero]

/-- A permission update leaves the bytes outside the range and up to its last hole
alone. -/
lemma updatePerm_below (h : b < m.solidFrom addr count ∨ addr + count ≤ b) :
    (m.updatePerm addr count perm).1 b = m b := by
  rw [updatePerm]
  split_ifs
  · rfl
  · rfl
  · dsimp only
    exact editOn_outside (by rwa [solidFrom_add])

lemma updatePerm_outside (h : b < addr ∨ addr + count ≤ b) :
    (m.updatePerm addr count perm).1 b = m b :=
  updatePerm_below (h.imp_left fun hb => hb.trans_le le_solidFrom)

/-- A permission update that runs past the address space changes nothing. -/
lemma updatePerm_overflow (h : 2 ^ 64 < addr + count) :
    (m.updatePerm addr count perm).1 = m := by
  rw [updatePerm]
  split_ifs <;> rfl

lemma updatePerm_cell (addr count : ℕ) (perm : UInt8) (b : ℕ) :
    (m.updatePerm addr count perm).1 b = m b ∨
      (m.updatePerm addr count perm).1 b =
        (m b).map fun c => { c with perm := perm ||| Perm.MAP ||| Perm.INIT } := by
  rw [updatePerm]
  split_ifs
  · exact .inl rfl
  · exact .inl rfl
  by_cases h : m.solidFrom addr count ≤ b ∧
      b < m.solidFrom addr count + trailing m.isMapped addr count
  · exact .inr (editOn_inside h.1 h.2)
  · exact .inl (editOn_outside (by omega))

/-- On a range without holes a permission update reaches every byte. -/
lemma updatePerm_of_mapped (h : m.mapped addr count)
    (hs : addr + count ≤ 2 ^ 64) (h₁ : addr ≤ b) (h₂ : b < addr + count) :
    (m.updatePerm addr count perm).1 b =
      (m b).map fun c => { c with perm := perm ||| Perm.MAP ||| Perm.INIT } := by
  rw [updatePerm, if_neg (by omega), if_neg (by omega), solidFrom_of_mapped h,
    trailing_of_allOn h]
  exact editOn_inside h₁ h₂

/-- An update of a range without holes is refused only for running past the
address space. -/
lemma overflow_of_updatePerm (hm : m.mapped addr count)
    (h : ¬ (m.updatePerm addr count perm).2) : 2 ^ 64 < addr + count := by
  by_contra hle
  refine h ?_
  rw [updatePerm]
  split_ifs
  · rfl
  · exact hm

/-- What a write leaves as it was: what is mapped, with which permission and backing. -/
def shape (m : Mem) (b : ℕ) : Option (UInt8 × Backing) := (m b).map fun c => (c.perm, c.backing)

/-- A write changes values only. -/
lemma shape_writeBytes (vs : Bytes) (addr b : ℕ) :
    (m.writeBytes addr vs).1.shape b = m.shape b := by
  induction vs generalizing m addr with
  | nil => rfl
  | cons v vs ih =>
    rw [writeBytes]
    cases hc : m addr with
    | none => rfl
    | some c =>
      dsimp only
      split_ifs
      · rfl
      rw [ih, shape, shape, Function.update_apply]
      split_ifs with hb
      · rw [hb, hc]; rfl
      · rfl

lemma isMapped_writeBytes (vs : Bytes) (addr b : ℕ) :
    Mem.isMapped (m.writeBytes addr vs).1 b = m.isMapped b := by
  simpa [shape, isMapped] using congrArg Option.isSome (shape_writeBytes (m := m) vs addr b)

lemma isMapped_updatePerm (addr count : ℕ) (perm : UInt8) (b : ℕ) :
    Mem.isMapped (m.updatePerm addr count perm).1 b = m.isMapped b := by
  rcases updatePerm_cell (m := m) addr count perm b with h | h <;> simp [isMapped, h]

lemma isMapped_editOn_map (start len : ℕ) (f : Cell → Cell) (b : ℕ) :
    Mem.isMapped (editOn m start len (Option.map f)) b = m.isMapped b := by
  rw [isMapped, isMapped, editOn]
  split_ifs <;> simp

/-! ### Cold pages -/

/-- Every byte of the page belongs to a lazy mapping that has not been filled. -/
def coldBytes (m : Mem) (page : ℕ) : Bool :=
  allOn (fun b => match m b with
    | some c => c.backing == .cold
    | none => false) page PAGE_SIZE

/-- A cold page: every byte is mapped, grants no access, and has not been filled. -/
def Cold (m : Mem) (page : ℕ) : Prop :=
  ∀ b, page ≤ b → b < page + PAGE_SIZE →
    ∃ perm, m.shape b = some (perm, .cold) ∧ Perm.grants perm = false

lemma Cold.coldBytes (h : m.Cold page) : m.coldBytes page := by
  refine allOn_iff.mpr fun b h₁ h₂ => ?_
  obtain ⟨perm, hs, -⟩ := h b h₁ h₂
  rw [shape, map_eq_some_iff] at hs
  obtain ⟨c, hc, heq⟩ := hs
  simp only [hc, (Prod.mk.inj heq).2, beq_self_eq_true]

lemma Cold.isSome (h : m.Cold page) (h₁ : page ≤ b) (h₂ : b < page + PAGE_SIZE) :
    ∃ c, m b = some c := by
  obtain ⟨perm, hs, -⟩ := h b h₁ h₂
  rw [shape, map_eq_some_iff] at hs
  obtain ⟨c, hc, -⟩ := hs
  exact ⟨c, hc⟩

lemma Cold.congr {m' : Mem} (h : m.Cold page)
    (heq : ∀ b, page ≤ b → b < page + PAGE_SIZE → m'.shape b = m.shape b) : m'.Cold page :=
  fun b h₁ h₂ => by rw [heq b h₁ h₂]; exact h b h₁ h₂

/-- The bits an update adds to a permission grant nothing. -/
lemma grants_or_map (perm : UInt8) :
    Perm.grants (perm ||| Perm.MAP ||| Perm.INIT) = Perm.grants perm := by
  revert perm
  decide +kernel

variable (h : m.Cold page)
include h

lemma Cold.updatePerm (hperm : Perm.grants perm = false)
    : (m.updatePerm addr count perm).1.Cold page := by
  intro b h₁ h₂
  obtain ⟨q, hs, hq⟩ := h b h₁ h₂
  rcases updatePerm_cell (m := m) addr count perm b with he | he
  · exact ⟨q, by rw [shape, he]; exact hs, hq⟩
  refine ⟨_, ?_, (grants_or_map perm).trans hperm⟩
  rw [shape, he, Option.map_map]
  rw [shape, map_eq_some_iff] at hs
  obtain ⟨c, hc, heq⟩ := hs
  simp [hc, (Prod.mk.inj heq).2]

lemma Cold.updatePerm_outside (hout : page + PAGE_SIZE ≤ addr ∨ addr + count ≤ page) :
    (m.updatePerm addr count perm).1.Cold page :=
  h.congr fun b h₁ h₂ => by
    rw [shape, Mem.updatePerm_outside (by omega), shape]

lemma Cold.unmapMemoryLen (hout : page + PAGE_SIZE ≤ start ∨ start + len ≤ page) :
    (m.unmapMemoryLen start len).1.Cold page :=
  h.congr fun b h₁ h₂ => by
    rw [shape, unmapMemoryLen_outside (by omega), shape]

/-- Mapping a free range keeps cold pages cold: it overlaps none of them. -/
lemma Cold.mapMemoryLen (start len : ℕ) (c : Cell) :
    (m.mapMemoryLen start len c).1.Cold page := by
  by_cases hok : (m.mapMemoryLen start len c).2
  · obtain ⟨-, -, hfree, heq⟩ := mapMemoryLen_ok hok
    refine h.congr fun b h₁ h₂ => ?_
    obtain ⟨d, hd⟩ := h.isSome h₁ h₂
    have hout : b < start ∨ start + len ≤ b := by
      by_contra hin
      rw [hfree b (by omega) (by omega)] at hd
      exact absurd hd (by simp)
    rw [heq, shape, editOn_outside hout, shape]
  · rw [mapMemoryLen_refused hok]
    exact h

lemma Cold.writeBytes (addr : ℕ) (vs : Bytes) :
    (m.writeBytes addr vs).1.Cold page :=
  h.congr fun b _ _ => shape_writeBytes vs addr b

end Mem

end WebTos
