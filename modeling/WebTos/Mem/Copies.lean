import WebTos.Mem.Agreement
import WebTos.Mem.Installs

/-!
Copies between the kernel and guest memory (`read_mem`, `write_mem`, `read_cstr_limit`).

* `Kernel.copy`: the three copies, with the bytes they give back;
* `Kernel.mayAccess`: the permission the guest has on a byte; `Kernel.copied`: the bytes a copy
  stores to, or hands out;
* `Kernel.warm`, `Kernel.Passable`, `Kernel.Reaches`: the bytes a copy reaches, told from the
  kernel before it; nothing is run to tell them;
* `Kernel.Warmed`, `Kernel.hostTouch_ok`, `Kernel.hostTouch_of_passable`: what `host_touch` checks
  and does; `Kernel.touchPages_settled`: that it has nothing to do a second time;
* `Kernel.mem_copied_iff`: so a copy gets where it reaches;
* `Handler`: a system call, as far as it copies; `Handler.respects_iff_visible`: when its copies
  keep to the permissions of the guest.
-/

namespace WebTos

open Lib List Option Std Pager

/-! ### The copies -/

/-- A copy a system call asks for. -/
inductive CopyOp where
  | read (addr len : ℕ)
  | write (addr : ℕ) (bytes : Bytes)
  | cstr (addr max : ℕ)
  deriving DecidableEq, Repr

/-- The access a copy makes. -/
def CopyOp.access : CopyOp → AccessKind
  | .read _ _ | .cstr _ _ => .read
  | .write _ _ => .write

namespace Kernel

/-- `read_mem`. -/
def readMem (read : ChunkReader) (k : Kernel) (addr len : ℕ) : Kernel × CallResult Bytes :=
  match k.hostTouch read addr len .read with
  | (k, .error e) => (k, .error e)
  | (k, .ok _) =>
    (k, match k.mem.readBytes addr len with
      | some bytes => .ok bytes
      | none => .error Errno.EFAULT)

/-- The bytes the loop of `read_cstr_limit` reads next: never past the page. -/
def cstrTake (cursor done max : ℕ) : ℕ :=
  min (min 64 (max - done)) (PAGE_SIZE - cursor % PAGE_SIZE)

/-- The loop of `read_cstr_limit`.  Every round reads a byte, so that `max` rounds are enough. -/
def cstrLoop (read : ChunkReader) (max : ℕ) :
    ℕ → Kernel → ℕ → Bytes → Kernel × CallResult Bytes
  | 0, k, _, _ => (k, .error Errno.EINVAL)
  | rounds + 1, k, cursor, out =>
    if max ≤ out.length then (k, .error Errno.EINVAL)
    else
      let take := cstrTake cursor out.length max
      match k.hostTouch read cursor take .read with
      | (k, .error e) => (k, .error e)
      | (k, .ok _) =>
        match k.mem.readBytes cursor take with
        | none => (k, .error Errno.EFAULT)
        | some chunk =>
          match chunk.findIdx? (· == 0) with
          | some nul => (k, .ok (out ++ chunk.take nul))
          | none => cstrLoop read max rounds k (wrapAdd cursor take) (out ++ chunk)

/-- `read_cstr_limit`. -/
def readCstrLimit (read : ChunkReader) (k : Kernel) (addr max : ℕ) : Kernel × CallResult Bytes :=
  cstrLoop read max max k addr []

/-- A copy, with the bytes it gives back. -/
def copy (read : ChunkReader) (k : Kernel) : CopyOp → Kernel × CallResult Bytes
  | .read addr len => k.readMem read addr len
  | .write addr bytes =>
    match k.writeMem read addr bytes with
    | (k, .ok _) => (k, .ok [])
    | (k, .error e) => (k, .error e)
  | .cstr addr max => k.readCstrLimit read addr max

/-! ### Permissions -/

/-- The MMU grants the access on a byte. -/
def mmuGrants (k : Kernel) (access : AccessKind) (b : ℕ) : Bool :=
  (k.mem b).any fun c => c.perm &&& access.required != 0

/-- The guest's permission on a byte: that of the mapping, which the fault will install, for a
page that is still to be filled, and otherwise the MMU's. -/
def mayAccess (k : Kernel) (access : AccessKind) (b : ℕ) : Bool :=
  match k.pager.pageState k.asid b with
  | some (false, finalPerm) => finalPerm &&& access.required != 0
  | _ => k.mmuGrants access b

end Kernel

/-- The number of bytes `write_bytes` stores before it stops. -/
def Mem.stored (m : Mem) : ℕ → Bytes → ℕ
  | _, [] => 0
  | addr, v :: vs =>
    match m addr with
    | none => 0
    | some c =>
      if c.perm &&& Perm.IN_CODE_CACHE != 0 && c.value != v then 0
      else stored (Function.update m addr (some { c with value := v })) (wrapAdd addr 1) vs + 1

/-- The addresses of a range, which may run around the end of the address space. -/
def span (addr len : ℕ) : List ℕ := (List.range len).map (wrapAdd addr)

namespace Kernel

/-- The bytes a copy stores to, or hands out.  The end of a string is given away with it. -/
def copied (read : ChunkReader) (k : Kernel) : CopyOp → List ℕ
  | .read addr len =>
    match (k.readMem read addr len).2 with
    | .ok _ => span addr len
    | .error _ => []
  | .write addr bytes =>
    match k.hostTouch read addr bytes.length .write with
    | (k, .ok _) => span addr (k.mem.stored addr bytes)
    | (_, .error _) => []
  | .cstr addr max =>
    match (k.readCstrLimit read addr max).2 with
    | .ok bytes => span addr (bytes.length + 1)
    | .error _ => []

end Kernel

/-! ### What the copies reach -/

namespace Kernel

/-- The range does not leave the address space, or nobody looks. -/
def InSpace (k : Kernel) (addr len : ℕ) : Prop :=
  len = 0 ∨ k.pager.isEmpty = true ∨ addr + len < 2 ^ 64

/-- A touch passes the page of a byte: the pager does not know it, or its mapping grants the
access and it is filled or can be, with its bytes there and no decoded byte in their way. -/
def Passes (read : ChunkReader) (k : Kernel) (access : AccessKind) (b : ℕ) : Prop :=
  ∀ st, k.pager.pageState k.asid b = some st → st.2 &&& access.required ≠ 0 ∧
    (st.1 = false → ∃ fill, k.pager.installs read access k.asid (pageOf b) = some fill ∧
      (k.mem.writeBytes (pageOf b) fill.1).2 = true)

/-- A touch passes a range. -/
structure Passable (read : ChunkReader) (k : Kernel) (access : AccessKind) (addr len : ℕ) :
    Prop where
  inSpace : k.InSpace addr len
  passes : ∀ b ∈ span addr len, k.Passes read access b

/-- The memory with the pages brought in that are still to be filled. -/
def warm (read : ChunkReader) (k : Kernel) (access : AccessKind) : Mem := fun b =>
  match k.pager.installs read access k.asid (pageOf b) with
  | some (bytes, perm) => (k.mem b).map fun c =>
    ⟨perm ||| Perm.MAP ||| Perm.INIT, (bytes[b - pageOf b]?).getD c.value, .filled⟩
  | none => k.mem b

/-- A string of a memory, read from the cursor on in pieces that stay in a page and can be passed:
`n` bytes are in front of its first zero, of which `done` have been read. -/
inductive StringAt (m : Mem) (pass : ℕ → ℕ → Prop) (max : ℕ) : ℕ → ℕ → ℕ → Prop
  | last {cursor done nul : ℕ} {piece : Bytes} (hmax : done < max)
    (hpass : pass cursor (cstrTake cursor done max))
    (hread : m.readBytes cursor (cstrTake cursor done max) = some piece)
    (hnul : piece.findIdx? (· == 0) = some nul) : StringAt m pass max cursor done (done + nul)
  | more {cursor done n : ℕ} {piece : Bytes} (hmax : done < max)
    (hpass : pass cursor (cstrTake cursor done max))
    (hread : m.readBytes cursor (cstrTake cursor done max) = some piece)
    (hnul : piece.findIdx? (· == 0) = none)
    (hrest : StringAt m pass max (wrapAdd cursor (cstrTake cursor done max))
      (done + cstrTake cursor done max) n) : StringAt m pass max cursor done n

/-- The bytes a copy reaches: all of a range that can be passed and has no hole, the bytes of a
range that can be passed in front of its first hole or decoded byte, a string with its end. -/
def Reaches (read : ChunkReader) (k : Kernel) (b : ℕ) : CopyOp → Prop
  | .read addr len => k.Passable read .read addr len ∧
    ((k.warm read .read).readBytes addr len).isSome ∧ b ∈ span addr len
  | .write addr bytes => k.Passable read .write addr bytes.length ∧
    b ∈ span addr ((k.warm read .write).stored addr bytes)
  | .cstr addr max => ∃ n, b ∈ span addr (n + 1) ∧
    StringAt (k.warm read .read) (k.Passable read .read) max addr 0 n

end Kernel

/-! ### The bytes of a range -/

variable {b page addr len : ℕ} {perm : UInt8} {bytes : Bytes} {read : ChunkReader}

lemma span_add (addr n m : ℕ) : span addr (n + m) = span addr n ++ span (wrapAdd addr n) m := by
  rw [span, range_add, map_append, List.map_map]
  congr 1
  refine map_congr_left fun i _ => ?_
  simp only [Function.comp_apply, wrapAdd, Nat.mod_add_mod, Nat.add_assoc]

lemma span_mono {n m : ℕ} (h : n ≤ m) (hb : b ∈ span addr n) : b ∈ span addr m := by
  obtain ⟨i, hi, rfl⟩ := List.mem_map.mp hb
  exact List.mem_map_of_mem (mem_range.mpr ((mem_range.mp hi).trans_le h))

lemma mem_span (h : addr + len ≤ 2 ^ 64) : b ∈ span addr len ↔ addr ≤ b ∧ b < addr + len := by
  rw [span, List.mem_map]
  constructor
  · rintro ⟨i, hi, rfl⟩
    rw [mem_range] at hi
    rw [wrapAdd, Nat.mod_eq_of_lt (by omega)]
    omega
  · intro hb
    refine ⟨b - addr, mem_range.mpr (by omega), ?_⟩
    rw [wrapAdd, Nat.mod_eq_of_lt (by omega)]
    omega

namespace Mem

variable {m m' : Mem}

/-- The two memories have the same bytes where a copy of the range looks. -/
def AgreeOn (m m' : Mem) (addr len : ℕ) : Prop :=
  0 < len → ∀ b, b = addr ∨ b ∈ span addr len → m b = m' b

lemma AgreeOn.tail (h : AgreeOn m m' addr (len + 1)) : AgreeOn m m' (wrapAdd addr 1) len := by
  intro hlen b hb
  refine h (Nat.succ_pos len) b (.inr ?_)
  rcases hb with rfl | hb
  · exact List.mem_map_of_mem (mem_range.mpr (by omega))
  · rw [Nat.add_comm, span_add]
    exact mem_append_right _ hb

lemma AgreeOn.update (h : AgreeOn m m' addr len) (a : ℕ) (c : Option Cell) :
    AgreeOn (Function.update m a c) (Function.update m' a c) addr len := by
  intro hlen b hb
  rw [Function.update_apply, Function.update_apply, h hlen b hb]

lemma readBytes_congr : ∀ {addr len : ℕ}, AgreeOn m m' addr len →
    m.readBytes addr len = m'.readBytes addr len := by
  intro addr len
  induction len generalizing addr with
  | zero => exact fun _ => rfl
  | succ len ih =>
    intro h
    rw [readBytes, readBytes, h (Nat.succ_pos len) addr (.inl rfl), ih h.tail]

lemma stored_congr (bytes : Bytes) : ∀ {m m' : Mem} {addr : ℕ}, AgreeOn m m' addr bytes.length →
    m.stored addr bytes = m'.stored addr bytes := by
  induction bytes with
  | nil => exact fun _ => rfl
  | cons v vs ih =>
    intro m m' addr h
    rw [stored, stored, h (Nat.succ_pos _) addr (.inl rfl)]
    cases m' addr with
    | none => rfl
    | some c =>
      dsimp only
      rw [ih ((AgreeOn.tail h).update addr _)]

lemma stored_le (bytes : Bytes) : ∀ (m : Mem) (addr : ℕ), m.stored addr bytes ≤ bytes.length := by
  induction bytes with
  | nil => exact fun m addr => le_rfl
  | cons v vs ih =>
    intro m addr
    rw [stored]
    split
    · exact Nat.zero_le _
    split_ifs
    · exact Nat.zero_le _
    · exact Nat.succ_le_succ (ih _ _)

lemma stored_eq_length_iff (bytes : Bytes) : ∀ {m : Mem} {addr : ℕ},
    m.stored addr bytes = bytes.length ↔ (m.writeBytes addr bytes).2 = true := by
  induction bytes with
  | nil => exact iff_of_true rfl rfl
  | cons v vs ih =>
    intro m addr
    rw [writeBytes, stored, length_cons]
    cases m addr with
    | none => simp
    | some c =>
      dsimp only
      split_ifs
      · simp
      · rw [Nat.add_right_cancel_iff, ih]

/-- A write depends on the bytes of its range only. -/
lemma writeBytes_congr (h : AgreeOn m m' addr bytes.length) :
    (m.writeBytes addr bytes).2 = true ↔ (m'.writeBytes addr bytes).2 = true := by
  rw [← stored_eq_length_iff, ← stored_eq_length_iff, stored_congr bytes h]

lemma writeBytes_wrapAdd (m : Mem) (bytes : Bytes) (h : addr + 1 + bytes.length ≤ 2 ^ 64) :
    m.writeBytes (wrapAdd addr 1) bytes = m.writeBytes (addr + 1) bytes := by
  cases bytes with
  | nil => rfl
  | cons =>
    rw [length_cons] at h
    rw [wrapAdd, Nat.mod_eq_of_lt (by omega)]

/-- **A write that goes through** finds its range mapped, and puts its bytes there. -/
lemma writeBytes_cells (bytes : Bytes) : ∀ {m : Mem} {addr : ℕ}, addr + bytes.length ≤ 2 ^ 64 →
    (m.writeBytes addr bytes).2 = true → ∀ b,
    (addr ≤ b → b < addr + bytes.length → m.isMapped b = true) ∧
      (m.writeBytes addr bytes).1 b = if addr ≤ b ∧ b < addr + bytes.length then
        (m b).map fun c => { c with value := (bytes[b - addr]?).getD c.value } else m b := by
  induction bytes with
  | nil =>
    intro m addr _ _ b
    rw [length_nil, if_neg (by omega)]
    exact ⟨fun h₁ h₂ => absurd h₂ (Nat.not_lt.mpr h₁), rfl⟩
  | cons v vs ih =>
    intro m addr hspace hok b
    rw [length_cons] at hspace ⊢
    rw [writeBytes] at hok ⊢
    cases hc : m addr with
    | none =>
      rw [hc] at hok
      cases hok
    | some c =>
      rw [hc] at hok
      dsimp only at hok ⊢
      split_ifs at hok with hcode
      rw [if_neg hcode, writeBytes_wrapAdd _ _ (by omega)]
      rw [writeBytes_wrapAdd _ _ (by omega)] at hok
      obtain ⟨hmapped, hcell⟩ := ih (by omega) hok b
      rw [hcell]
      -- the first byte is put here, the others by the rest of the write
      rcases Nat.lt_trichotomy b addr with hlt | rfl | hlt
      · rw [if_neg (by omega), if_neg (by omega), Function.update_of_ne (by omega)]
        exact ⟨fun h => absurd hlt (Nat.not_lt.mpr h), rfl⟩
      · rw [if_neg (by omega), if_pos (by omega), Function.update_self, hc, Nat.sub_self]
        exact ⟨fun _ _ => isMapped_eq_true.mpr ⟨c, hc⟩, rfl⟩
      · have hsub : b - addr = b - (addr + 1) + 1 := by omega
        rw [isMapped, Function.update_of_ne (by omega)] at hmapped
        rw [Function.update_of_ne (by omega), hsub, getElem?_cons_succ]
        exact ⟨fun _ h => hmapped (by omega) (by omega), if_congr (by omega) rfl rfl⟩

end Mem

/-! ### What `host_touch` does -/

namespace Pager

variable {g g' : Pager} {asid : ℕ}

lemma pageOf_pageOf (b : ℕ) : pageOf (pageOf b) = pageOf b := by
  simp only [pageOf, PAGE_SIZE]
  omega

/-- The pager knows bytes by their page. -/
lemma pageState_pageOf (g : Pager) (asid b : ℕ) :
    g.pageState asid (pageOf b) = g.pageState asid b := by
  rw [pageState, pageState, pageOf_pageOf]

lemma mappings_congr (h : g'.spaces = g.spaces) : g'.mappings asid = g.mappings asid := by
  rw [mappings, mappings, h]

/-- The permission of a page depends on the mappings alone. -/
lemma pageState_congr (h : g'.spaces = g.spaces) {st : Bool × UInt8}
    (hst : g.pageState asid b = some st) :
    g'.pageState asid b = some (decide ((asid, pageOf b) ∈ g'.resident), st.2) := by
  rw [pageState] at hst ⊢
  rw [mappings_congr h]
  obtain ⟨m, hm, rfl⟩ := map_eq_some_iff.mp hst
  rw [hm, map_some]

lemma resident_of_pageState (h : g.pageState asid b = some (true, perm)) :
    (asid, pageOf b) ∈ g.resident := by
  rw [pageState] at h
  obtain ⟨m, -, hm⟩ := map_eq_some_iff.mp h
  exact of_decide_eq_true (congrArg Prod.fst hm)

lemma mem_values {t : TreeMap ℕ AddressSpace} {a : ℕ} {space : AddressSpace}
    (h : t[a]? = some space) : space ∈ t.values := by
  have hvalues : t.values = t.toList.map Prod.snd := by
    change DTreeMap.Internal.Impl.values _
      = List.map Prod.snd (DTreeMap.Internal.Impl.Const.toList _)
    rw [DTreeMap.Internal.Impl.values_eq_map_snd,
      DTreeMap.Internal.Impl.Const.toList_eq_toListModel_map, List.map_map]
    rfl
  rw [hvalues]
  exact List.mem_map.mpr ⟨(a, space), TreeMap.mem_toList_iff_getElem?_eq_some.mpr h, rfl⟩

lemma mappings_of_isEmpty (h : g.isEmpty) : g.mappings asid = [] := by
  cases hspace : g.spaces[asid]? with
  | none => exact mappings_of_none hspace
  | some space =>
    rw [mappings_of_some hspace]
    exact List.isEmpty_iff.mp (List.all_eq_true.mp h space (mem_values hspace))

/-- A pager without mappings knows no page. -/
lemma pageState_of_isEmpty (h : g.isEmpty) (b : ℕ) : g.pageState asid b = none := by
  rw [pageState, mappings_of_isEmpty h]
  rfl

/-- A page the pager knows and has not filled is built, and never refused as foreign. -/
lemma resolve_known (read : ChunkReader) (access : AccessKind)
    (h : g.pageState asid page = some (false, perm)) :
    (g.resolve read asid page access).1 ≠ .notLazy ∧
      ∀ resolved bytes perm', (g.resolve read asid page access).1 = .ready resolved bytes perm' →
        resolved = pageOf page := by
  obtain ⟨-, ⟨m, hm, hcovers⟩, hresident⟩ := lazy_of_pageState h
  have htouching : (g.touching asid (pageOf page)).isEmpty = false := by
    rw [isEmpty_eq_false_iff]
    exact ne_nil_of_mem (mem_filter.mpr ⟨hm, hcovers⟩)
  rw [resolve]
  rw [if_neg (by rw [htouching]; decide), if_neg hresident]
  exact buildPage_out

lemma installs_eq_none {access : AccessKind} (hpage : page % PAGE_SIZE = 0)
    (h : ¬ g.Lazy asid page) : g.installs read access asid page = none := by
  rw [installs_eq hpage, (layers_eq_nil_iff hpage).mpr h]
  rfl

end Pager

namespace Kernel

variable {read : ChunkReader} {access : AccessKind} {k k' : Kernel}

/-- The same pages are mapped, for the same address space, and what was filled still is. -/
structure SameMappings (k k' : Kernel) : Prop where
  asid : k'.asid = k.asid
  spaces : k'.pager.spaces = k.pager.spaces
  resident : k.pager.resident ⊆ k'.pager.resident

lemma SameMappings.refl (k : Kernel) : SameMappings k k := ⟨rfl, rfl, Finset.Subset.refl _⟩

lemma SameMappings.trans {k'' : Kernel} (h : SameMappings k k') (h' : SameMappings k' k'') :
    SameMappings k k'' :=
  ⟨h'.asid.trans h.asid, h'.spaces.trans h.spaces, h.resident.trans h'.resident⟩

lemma passes_pageOf (b : ℕ) : k.Passes read access (pageOf b) ↔ k.Passes read access b := by
  rw [Passes, Passes, pageState_pageOf, pageOf_pageOf]

/-- What filling pages keeps: the mappings, and so what the memory will hold and which pages a
touch passes. -/
structure Warmed (read : ChunkReader) (access : AccessKind) (k k' : Kernel) : Prop
    extends SameMappings k k' where
  warm : k'.warm read access = k.warm read access
  passes : ∀ b, k'.Passes read access b ↔ k.Passes read access b

lemma Warmed.refl (k : Kernel) : Warmed read access k k := ⟨.refl k, rfl, fun _ => .rfl⟩

lemma Warmed.trans {k'' : Kernel} (h : Warmed read access k k') (h' : Warmed read access k' k'') :
    Warmed read access k k'' :=
  ⟨h.toSameMappings.trans h'.toSameMappings, h'.warm.trans h.warm,
    fun b => (h'.passes b).trans (h.passes b)⟩

/-- **A page that is passed is filled** with what it was to hold. -/
lemma Warmed.fill {k₁ : Kernel} (hlazy : k.pager.Lazy k.asid page)
    (hpass : k.Passes read access page) (hasid : k₁.asid = k.asid)
    (hspaces : k₁.pager.spaces = k.pager.spaces)
    (hres : k₁.pager.resident = insert (k.asid, page) k.pager.resident)
    (hmem : ∀ b, k₁.mem b = if pageOf b = page then k.warm read access b else k.mem b) :
    Warmed read access k k₁ := by
  have hfilled : (k₁.asid, page) ∈ k₁.pager.resident := by
    rw [hasid, hres]
    exact Finset.mem_insert_self _ _
  have hother {b : ℕ} (hb : pageOf b ≠ page) :
      (k₁.asid, pageOf b) ∈ k₁.pager.resident ↔ (k.asid, pageOf b) ∈ k.pager.resident := by
    rw [hasid, hres, Finset.mem_insert]
    simp [hb]
  have hinstalls {b : ℕ} (hb : pageOf b ≠ page) :
      k₁.pager.installs read access k₁.asid (pageOf b) =
        k.pager.installs read access k.asid (pageOf b) := by
    have hmark := hother hb
    rw [hasid] at hmark ⊢
    rw [installs_eq (pageOf_mod b), installs_eq (pageOf_mod b),
      layers_congr (mappings_congr hspaces) hmark]
  refine ⟨⟨hasid, hspaces, hres ▸ Finset.subset_insert _ _⟩, funext fun b => ?_, fun b => ?_⟩
  · rw [Kernel.warm]
    by_cases hb : pageOf b = page
    · rw [hb, installs_eq_none hlazy.1 fun h => h.2.2 hfilled]
      exact (hmem b).trans (if_pos hb)
    · rw [hinstalls hb, hmem, if_neg hb, Kernel.warm]
  by_cases hb : pageOf b = page
  · rw [← passes_pageOf, ← passes_pageOf (k := k), hb]
    refine iff_of_true (fun st hst => ⟨?_, fun hcold => ?_⟩) hpass
    · rw [hasid] at hst
      exact (hpass _ (pageState_congr hspaces.symm hst)).1
    · obtain ⟨resident, perm⟩ := st
      obtain rfl : resident = false := hcold
      have hlazy' := lazy_of_pageState hst
      rw [pageOf_self hlazy.1] at hlazy'
      exact absurd hfilled hlazy'.2.2
  have hstate : k₁.pager.pageState k₁.asid b = k.pager.pageState k.asid b := by
    have hother := hother hb
    rw [hasid] at hother ⊢
    rw [pageState, pageState, mappings_congr hspaces, decide_eq_decide.mpr hother]
  rw [Passes, Passes, hstate, hinstalls hb]
  refine forall₂_congr fun st hst => and_congr_right fun _ => imp_congr_right fun hcold =>
    exists_congr fun fill => and_congr_right fun hfill => Mem.writeBytes_congr fun _ x hx => ?_
  -- the page of the byte is another one, whose bytes are not touched
  obtain ⟨resident, perm⟩ := st
  obtain rfl : resident = false := hcold
  have hle := (lazy_of_pageState hst).page_le
  have hmod := pageOf_mod b
  have hlen := length_of_installs hmod hfill
  rw [mem_span (by omega), hlen] at hx
  have hpage : pageOf x = pageOf b := by
    simp only [pageOf, PAGE_SIZE] at hx hmod ⊢
    omega
  rw [hmem, if_neg (hpage ▸ hb)]

lemma pageIn_cells (perm : UInt8) (hle : page + PAGE_SIZE ≤ 2 ^ 64)
    (hlen : bytes.length = PAGE_SIZE) (hw : (k.mem.writeBytes page bytes).2 = true) :
    ∃ k₁, k.pageIn page bytes perm = (k₁, true) ∧ k₁.asid = k.asid ∧
      k₁.pager = k.pager.markResident k.asid page ∧
      ∀ b, k₁.mem b = if page ≤ b ∧ b < page + PAGE_SIZE then (k.mem b).map fun c =>
        ⟨perm ||| Perm.MAP ||| Perm.INIT, (bytes[b - page]?).getD c.value, .filled⟩
      else k.mem b := by
  have hcells := Mem.writeBytes_cells bytes (by omega) hw
  have hmapped : (k.mem.writeBytes page bytes).1.mapped page PAGE_SIZE = true := by
    refine allOn_iff.mpr fun b h₁ h₂ => ?_
    rw [Mem.isMapped_writeBytes]
    exact (hcells b).1 h₁ (by omega)
  have hupdated : ((k.mem.writeBytes page bytes).1.updatePerm page PAGE_SIZE perm).2 = true := by
    rw [Mem.updatePerm, if_neg (by decide), if_neg (by omega)]
    exact hmapped
  rw [pageIn]
  simp only [hw, hupdated, Bool.not_true, Bool.false_eq_true, if_false]
  refine ⟨_, rfl, rfl, rfl, fun b => ?_⟩
  dsimp only
  by_cases hin : page ≤ b ∧ b < page + PAGE_SIZE
  · rw [if_pos hin, editOn_inside hin.1 hin.2, Mem.updatePerm_of_mapped hmapped hle hin.1 hin.2,
      (hcells b).2, if_pos (by omega), Option.map_map, Option.map_map]
    rfl
  · rw [if_neg hin, editOn_outside (by omega), Mem.updatePerm_outside (by omega), (hcells b).2,
      if_neg (by omega)]

lemma pageIn_refused (perm : UInt8) (h : (k.mem.writeBytes page bytes).2 = false) :
    ∃ k₁, k.pageIn page bytes perm = (k₁, false) := by
  rw [pageIn]
  simp [h]

/-- What a touch of the pages of some bytes does: it passes them, and fills those that were to be
filled. -/
structure Touches (read : ChunkReader) (access : AccessKind) (k k' : Kernel) (bytes : List ℕ) :
    Prop extends Warmed read access k k' where
  passed : ∀ b ∈ bytes, k.Passes read access b
  filled : ∀ r, r ∈ k'.pager.resident ↔ r ∈ k.pager.resident ∨
    ∃ b ∈ bytes, r = (k.asid, pageOf b) ∧ k.pager.Lazy k.asid (pageOf b)

lemma Touches.stay (hpass : k.Passes read access page)
    (hnot : ¬ k.pager.Lazy k.asid (pageOf page)) : Touches read access k k [page] := by
  refine ⟨.refl k, forall_mem_singleton.mpr hpass, fun r => ⟨.inl, ?_⟩⟩
  rintro (hr | ⟨b, hb, -, hlazy⟩)
  · exact hr
  · exact absurd (mem_singleton.mp hb ▸ hlazy) hnot

/-- A page that can be passed is filled. -/
lemma Touches.fill {pager : Pager} (hlazy : k.pager.Lazy k.asid page)
    (hpass : k.Passes read access page)
    (hfill : k.pager.installs read access k.asid page = some (bytes, perm))
    (hw : (k.mem.writeBytes page bytes).2 = true) (hspaces : pager.spaces = k.pager.spaces)
    (hresident : pager.resident = k.pager.resident) :
    ∃ k₁, { k with pager }.pageIn page bytes perm = (k₁, true) ∧
      Touches read access k k₁ [page] := by
  have hpage := hlazy.1
  have hself := pageOf_self hpage
  obtain ⟨k₁, hin, hasid, hpager, hmem⟩ := pageIn_cells (k := { k with pager }) perm hlazy.page_le
    (length_of_installs hpage hfill) hw
  have hset : k₁.pager.resident = insert (k.asid, page) k.pager.resident := by
    rw [hpager, markResident, hself]
    dsimp only
    rw [hresident]
  have hspaces : k₁.pager.spaces = k.pager.spaces := by
    rw [hpager]
    exact hspaces
  refine ⟨k₁, hin, .fill hlazy hpass hasid hspaces hset fun b => ?_,
    forall_mem_singleton.mpr hpass, fun r => ?_⟩
  · -- on the page its cells are the ones that are installed, elsewhere they stay
    have hb : pageOf b = page ↔ page ≤ b ∧ b < page + PAGE_SIZE := by
      simp only [pageOf, PAGE_SIZE] at hpage ⊢
      omega
    rw [hmem, Kernel.warm]
    by_cases hin : pageOf b = page
    · rw [if_pos hin, if_pos (hb.mp hin), hin, hfill]
    · rw [if_neg hin, if_neg fun h => hin (hb.mpr h)]
  · rw [hset, Finset.mem_insert]
    simp [hself, hlazy, or_comm]

/-- **One page** is passed, and filled if it is to be, or ends the touch. -/
lemma touchPages_step (hpage : page % PAGE_SIZE = 0) (rest : List ℕ) :
    (∃ k₁, Touches read access k k₁ [page] ∧
        touchPages read access k (page :: rest) = touchPages read access k₁ rest) ∨
      ¬ k.Passes read access page ∧
        ∃ k₁ e, touchPages read access k (page :: rest) = (k₁, .error e) := by
  have hself := pageOf_self hpage
  have hcold (hlazy : k.pager.Lazy k.asid (pageOf page)) :
      ∃ perm, k.pager.pageState k.asid page = some (false, perm) :=
    pageState_of_lazy hlazy hself.le (by rw [hself, PAGE_SIZE]; omega)
  rw [touchPages]
  cases hst : k.pager.pageState k.asid page with
  | none =>
    refine .inl ⟨k, .stay (fun st h => ?_) fun hlazy => ?_, rfl⟩
    · cases hst.symm.trans h
    · obtain ⟨_, h⟩ := hcold hlazy
      cases hst.symm.trans h
  | some st =>
    obtain ⟨resident, finalPerm⟩ := st
    dsimp only
    by_cases hgrant : finalPerm &&& access.required = 0
    · rw [if_pos (beq_iff_eq.mpr hgrant)]
      exact .inr ⟨fun hpass => (hpass _ hst).1 hgrant, k, _, rfl⟩
    rw [if_neg (by rwa [beq_iff_eq])]
    cases resident with
    | true =>
      refine .inl ⟨k, .stay (fun st h => ?_) fun hlazy => ?_, rfl⟩
      · cases hst.symm.trans h
        exact ⟨hgrant, fun hcold => by cases hcold⟩
      · obtain ⟨_, h⟩ := hcold hlazy
        cases hst.symm.trans h
    | false =>
      rw [if_neg Bool.false_ne_true]
      -- the page passes if its bytes are there and can be stored
      have hpasses : k.Passes read access page ↔ ∃ fill,
          k.pager.installs read access k.asid page = some fill ∧
            (k.mem.writeBytes page fill.1).2 = true := by
        rw [Passes, hself]
        refine ⟨fun h => (h _ hst).2 rfl, fun h st hst' => ?_⟩
        cases hst.symm.trans hst'
        exact ⟨hgrant, fun _ => h⟩
      obtain ⟨hforeign, hready⟩ := resolve_known read access hst
      obtain ⟨hspaces, hresident⟩ := resolve_table k.pager read k.asid page access
      have hinstalls : k.pager.installs read access k.asid page =
          (k.pager.resolve read k.asid page access).1.installed page := rfl
      rcases hres : k.pager.resolve read k.asid page access with ⟨out, pager⟩
      rw [hres] at hforeign hready hspaces hresident hinstalls
      cases out with
      | notLazy => exact absurd rfl hforeign
      | missing | invalid =>
        refine .inr ⟨fun h => ?_, _, _, rfl⟩
        obtain ⟨fill, hfill, -⟩ := hpasses.mp h
        cases hinstalls.symm.trans hfill
      | ready resolved bytes perm =>
        obtain rfl : resolved = page := (hready _ _ _ rfl).trans hself
        have hfill := hinstalls.trans (if_pos rfl)
        cases hw : (k.mem.writeBytes resolved bytes).2 with
        | false =>
          obtain ⟨k₁, hin⟩ := pageIn_refused (k := { k with pager }) perm hw
          refine .inr ⟨fun h => ?_, k₁, Errno.EFAULT, by dsimp only; rw [hin]⟩
          obtain ⟨fill, hfill', hok⟩ := hpasses.mp h
          cases hfill.symm.trans hfill'
          cases hw.symm.trans hok
        | true =>
          have hlazy := lazy_of_pageState hst
          rw [hself] at hlazy
          obtain ⟨k₁, hin, htouch⟩ :=
            Touches.fill hlazy (hpasses.mpr ⟨_, hfill, hw⟩) hfill hw hspaces hresident
          exact .inl ⟨k₁, htouch, by dsimp only; rw [hin]⟩

lemma SameMappings.lazy_iff (h : SameMappings k k') :
    k'.pager.Lazy k'.asid page ↔
      k.pager.Lazy k.asid page ∧ (k.asid, page) ∉ k'.pager.resident := by
  rw [Lazy, Lazy, mappings_congr h.spaces, h.asid]
  refine ⟨fun hl => ⟨⟨hl.1, hl.2.1, fun hr => hl.2.2 (h.resident hr)⟩, hl.2.2⟩, fun hl => ?_⟩
  exact ⟨hl.1.1, hl.1.2.1, hl.2⟩

lemma Touches.cons {k₁ : Kernel} {rest : List ℕ} (h : Touches read access k k₁ [page])
    (hrest : Touches read access k₁ k' rest) : Touches read access k k' (page :: rest) where
  toWarmed := h.toWarmed.trans hrest.toWarmed
  passed := forall_mem_cons.mpr ⟨h.passed page mem_cons_self, fun q hq =>
    (h.passes q).mp (hrest.passed q hq)⟩
  filled := by
    intro r
    have hone := h.filled r
    rw [hrest.filled, exists_mem_cons_iff]
    simp only [mem_singleton, exists_eq_left] at hone
    constructor
    · rintro (hr | ⟨b, hb, rfl, hlazy⟩)
      · exact (hone.mp hr).imp_right .inl
      · exact .inr (.inr ⟨b, hb, by rw [h.asid], (h.toSameMappings.lazy_iff.mp hlazy).1⟩)
    · rintro (hr | hp | ⟨b, hb, rfl, hlazy⟩)
      · exact .inl (hone.mpr (.inl hr))
      · exact .inl (hone.mpr (.inr hp))
      -- the page may have been filled as the first one
      by_cases hr : (k.asid, pageOf b) ∈ k₁.pager.resident
      · exact .inl hr
      · exact .inr ⟨b, hb, by rw [h.asid], h.toSameMappings.lazy_iff.mpr ⟨hlazy, hr⟩⟩

/-- **A touch of some pages** passes them all, or ends with an error. -/
lemma touchPages_spec (pages : List ℕ) (hpages : ∀ page ∈ pages, page % PAGE_SIZE = 0) :
    ∀ k : Kernel, (∃ k', Touches read access k k' pages ∧
        touchPages read access k pages = (k', .ok ())) ∨
      (∃ page ∈ pages, ¬ k.Passes read access page) ∧
        ∃ k' e, touchPages read access k pages = (k', .error e) := by
  induction pages with
  | nil =>
    intro k
    exact .inl ⟨k, ⟨.refl k, fun _ h => absurd h not_mem_nil, by simp⟩, rfl⟩
  | cons page rest ih =>
    intro k
    have hmod := forall_mem_cons.mp hpages
    rcases touchPages_step hmod.1 rest with ⟨k₁, hone, hrun⟩ | ⟨hnot, herror⟩
    · rw [hrun]
      rcases ih hmod.2 k₁ with ⟨k', hrest, hok⟩ | ⟨⟨q, hq, hnot⟩, herror⟩
      · exact .inl ⟨k', hone.cons hrest, hok⟩
      · exact .inr ⟨⟨q, mem_cons_of_mem _ hq, fun h => hnot ((hone.passes q).mpr h)⟩, herror⟩
    · exact .inr ⟨⟨page, mem_cons_self, hnot⟩, herror⟩

/-- **Nothing is left to do** on pages that are filled and grant the access. -/
lemma touchPages_settled {pages : List ℕ}
    (h : ∀ page ∈ pages, ∀ st, k.pager.pageState k.asid page = some st →
      st.2 &&& access.required ≠ 0 ∧ st.1) :
    touchPages read access k pages = (k, .ok ()) := by
  induction pages with
  | nil => rfl
  | cons page rest ih =>
    have hrest := ih fun q hq => h q (mem_cons_of_mem page hq)
    rw [touchPages]
    cases hst : k.pager.pageState k.asid page with
    | none => exact hrest
    | some st =>
      obtain ⟨hperm, hresident⟩ := h page mem_cons_self st hst
      dsimp only
      rw [if_neg (by rwa [beq_iff_eq]), if_pos hresident]
      exact hrest

lemma mem_pagesOf_bounds {start stop q : ℕ} (h : q ∈ pagesOf start stop) :
    start < q + PAGE_SIZE ∧ q < stop := by
  obtain ⟨i, hi, rfl⟩ := List.mem_map.mp h
  have hi' := mem_range.mp hi
  simp only [pageOf, PAGE_SIZE] at hi' ⊢
  omega

/-- What depends on the page holds on the pages of a range if it does on its bytes. -/
lemma forall_pagesOf {P : ℕ → Prop} (hP : ∀ b, P (pageOf b) ↔ P b) (hlen : 0 < len)
    (h : addr + len ≤ 2 ^ 64) :
    (∀ page ∈ pagesOf addr (addr + len), P page) ↔ ∀ b ∈ span addr len, P b := by
  constructor
  · intro hpages b hb
    have hin := (mem_span h).mp hb
    refine (hP b).mp (hpages _ (mem_pagesOf (pageOf_mod b) ?_ ?_)) <;>
      simp only [pageOf, PAGE_SIZE] <;> omega
  · intro hbytes page hpage
    -- the first byte of the page that lies in the range speaks for it
    have hmod := mod_of_mem_pagesOf hpage
    have hbounds := mem_pagesOf_bounds hpage
    have hpageOf : pageOf (max addr page) = page := by
      simp only [pageOf, PAGE_SIZE] at hbounds hmod ⊢
      omega
    rw [← hpageOf, hP]
    exact hbytes _ ((mem_span h).mpr (by omega))

/-- What a touch of a range does. -/
structure TouchesRange (read : ChunkReader) (access : AccessKind) (k k' : Kernel)
    (addr len : ℕ) : Prop extends Touches read access k k' (span addr len) where
  inSpace : k.InSpace addr len

lemma TouchesRange.passable (h : TouchesRange read access k k' addr len) :
    k.Passable read access addr len := ⟨h.inSpace, h.passed⟩

lemma not_lazy_of_isEmpty (h : k.pager.isEmpty) : ¬ k.pager.Lazy k.asid page := by
  rintro ⟨-, ⟨m, hm, -⟩, -⟩
  rw [mappings_of_isEmpty h] at hm
  cases hm

/-- **A touch of a range** passes it, or ends with an error. -/
lemma hostTouch_spec (read : ChunkReader) (k : Kernel) (addr len : ℕ) (access : AccessKind) :
    (∃ k', TouchesRange read access k k' addr len ∧
        k.hostTouch read addr len access = (k', .ok ())) ∨
      ¬ k.Passable read access addr len ∧
        ∃ k' e, k.hostTouch read addr len access = (k', .error e) := by
  rw [hostTouch]
  split_ifs with hempty hwraps
  · refine .inl ⟨k, ⟨⟨.refl k, fun b hb st hst => ?_, fun r => ⟨.inl, ?_⟩⟩, hempty.imp_right .inl⟩,
      rfl⟩
    · rcases hempty with rfl | hempty
      · cases hb
      · rw [pageState_of_isEmpty hempty] at hst
        cases hst
    · rintro (hr | ⟨b, hb, -, hlazy⟩)
      · exact hr
      rcases hempty with rfl | hempty
      · cases hb
      · exact absurd hlazy (not_lazy_of_isEmpty hempty)
  · refine .inr ⟨fun h => ?_, k, _, rfl⟩
    rcases h.inSpace with h | h | h
    · exact hempty (.inl h)
    · exact hempty (.inr h)
    · omega
  obtain ⟨hlen, -⟩ := not_or.mp hempty
  -- pages and bytes of a range that does not wrap say the same
  have hpages {P : ℕ → Prop} (hP : ∀ b, P (pageOf b) ↔ P b) :
      (∀ page ∈ pagesOf addr (addr + len), P page) ↔ ∀ b ∈ span addr len, P b :=
    forall_pagesOf hP (Nat.pos_of_ne_zero hlen) (by omega)
  rcases (touchPages_spec _ (fun _ => mod_of_mem_pagesOf) k : (∃ k', Touches read access k k'
    (pagesOf addr (addr + len)) ∧ _) ∨ _) with ⟨k', h, hok⟩ | ⟨⟨page, hpage, hnot⟩, herror⟩
  · refine .inl ⟨k', ⟨⟨h.toWarmed, (hpages passes_pageOf).mp h.passed, fun r => ?_⟩,
      .inr (.inr (by omega))⟩, hok⟩
    have hnone := hpages (P := fun b => ¬ (r = (k.asid, pageOf b) ∧ k.pager.Lazy k.asid (pageOf b)))
      fun b => by rw [pageOf_pageOf]
    rw [h.filled]
    refine or_congr_right (not_iff_not.mp ?_)
    simpa only [not_exists, not_and] using hnone
  · exact .inr ⟨fun h => hnot ((hpages passes_pageOf).mpr h.passes page hpage), herror⟩

lemma hostTouch_ok (h : k.hostTouch read addr len access = (k', .ok ())) :
    TouchesRange read access k k' addr len := by
  rcases hostTouch_spec read k addr len access with ⟨k₁, hk₁, hok⟩ | ⟨-, k₁, e, herror⟩
  · rw [h] at hok
    cases hok
    exact hk₁
  · rw [h] at herror
    cases herror

/-- After a touch the range holds what it was to hold. -/
lemma TouchesRange.agreeOn (h : TouchesRange read access k k' addr len) :
    Mem.AgreeOn k'.mem (k.warm read access) addr len := by
  intro hlen b hb
  have hfilled : ¬ k'.pager.Lazy k'.asid (pageOf b) := by
    rw [h.toSameMappings.lazy_iff]
    rintro ⟨hlazy, hcold⟩
    rcases h.inSpace with hzero | hempty | hspace
    · omega
    · exact not_lazy_of_isEmpty hempty hlazy
    · have hin : b ∈ span addr len := by
        rcases hb with rfl | hb
        · exact (mem_span hspace.le).mpr (by omega)
        · exact hb
      exact hcold ((h.filled _).mpr (.inr ⟨b, hin, rfl, hlazy⟩))
  rw [← h.warm, warm, installs_eq_none (pageOf_mod b) hfilled]

end Kernel

/-! ### The bytes of a copy -/

/-- The bytes a copy that succeeded had to reach. -/
def CopyOp.range : CopyOp → Bytes → List ℕ
  | .read addr len, _ => span addr len
  | .write addr bytes, _ => span addr bytes.length
  | .cstr addr _, out => span addr (out.length + 1)

variable {op : CopyOp}

namespace Kernel

variable {read : ChunkReader} {access : AccessKind} {k k' : Kernel}

/-- Where the pager knows a byte, its mapping grants the access. -/
def Granted (k : Kernel) (access : AccessKind) (b : ℕ) : Prop :=
  ∀ st, k.pager.pageState k.asid b = some st → st.2 &&& access.required ≠ 0

lemma Granted.congr (h : Granted k access b) (hasid : k.asid = k'.asid)
    (hspaces : k.pager.spaces = k'.pager.spaces) : Granted k' access b := by
  intro st hst
  rw [← hasid] at hst
  have hfound := h _ (pageState_congr hspaces hst)
  exact hfound

/-- A copy that succeeds has reached its whole range. -/
lemma copied_of_ok (h : (k.copy read op).2 = .ok bytes) :
    k.copied read op = op.range bytes := by
  cases op with
  | read | cstr =>
    rw [copy] at h
    rw [copied, h]
    rfl
  | write addr out =>
    rw [copy, writeMem] at h
    rw [copied]
    cases ht : k.hostTouch read addr out.length .write with
    | mk k₁ r =>
      rw [ht] at h
      cases r with
      | error e => cases h
      | ok _ =>
        dsimp only at h ⊢
        cases hw : (k₁.mem.writeBytes addr out).2 with
        | false =>
          rw [hw] at h
          cases h
        | true => rw [(Mem.stored_eq_length_iff out).mpr hw, CopyOp.range]

lemma Warmed.passable (h : Warmed read access k k') :
    k'.Passable read access = k.Passable read access := by
  funext addr len
  refine propext ⟨fun hp => ⟨?_, fun b hb => (h.passes b).mp (hp.passes b hb)⟩,
    fun hp => ⟨?_, fun b hb => (h.passes b).mpr (hp.passes b hb)⟩⟩
  · have hin := hp.inSpace
    rwa [InSpace, Pager.isEmpty, h.spaces] at hin
  · rw [InSpace, Pager.isEmpty, h.spaces]
    exact hp.inSpace

/-- **The loop finds a string** exactly if there is one in the memory as it will be. -/
lemma cstrLoop_iff {max n : ℕ} (rounds : ℕ) : ∀ {k : Kernel} {cursor : ℕ} {out : Bytes},
    max ≤ out.length + rounds →
    ((∃ bytes, (cstrLoop read max rounds k cursor out).2 = .ok bytes ∧ bytes.length = n) ↔
      StringAt (k.warm read .read) (k.Passable read .read) max cursor out.length n) := by
  induction rounds with
  | zero =>
    intro k cursor out hmax
    refine iff_of_false (fun ⟨_, h, _⟩ => by cases h) fun h => ?_
    cases h <;> omega
  | succ rounds ih =>
    intro k cursor out hmax
    rw [cstrLoop]
    dsimp only
    split_ifs with hfull
    · refine iff_of_false (fun ⟨_, h, _⟩ => by cases h) fun h => ?_
      cases h <;> omega
    -- the part of the string in this page can be brought in and read, or the loop ends here
    rcases hostTouch_spec read k cursor (cstrTake cursor out.length max) .read with
      ⟨k₁, ht, hok⟩ | ⟨hnot, k₁, e, herror⟩
    · rw [hok]
      dsimp only
      rw [Mem.readBytes_congr ht.agreeOn]
      cases hread : (k.warm read .read).readBytes cursor (cstrTake cursor out.length max) with
      | none =>
        refine iff_of_false (fun ⟨_, h, _⟩ => by cases h) fun h => ?_
        cases h <;> simp_all
      | some piece =>
        have hlen := Mem.readBytes_length hread
        dsimp only
        cases hnul : piece.findIdx? (· == 0) with
        | some nul =>
          -- the zero byte is in this page
          obtain ⟨hlt, -⟩ := List.findIdx?_eq_some_iff_getElem.mp hnul
          have hsize : (out ++ piece.take nul).length = out.length + nul := by
            rw [length_append, length_take]
            omega
          constructor
          · rintro ⟨_, ⟨⟩, rfl⟩
            rw [hsize]
            exact .last (by omega) ht.passable hread hnul
          · intro h
            cases h with
            | last _ _ hread' hnul' =>
              obtain rfl := some.inj (hread.symm.trans hread')
              obtain rfl := some.inj (hnul.symm.trans hnul')
              exact ⟨_, rfl, hsize⟩
            | more _ _ hread' hnul' =>
              obtain rfl := some.inj (hread.symm.trans hread')
              cases hnul.symm.trans hnul'
        | none =>
          -- the next round starts in the next page, with the memory this one has left
          have htake : 0 < cstrTake cursor out.length max := by
            simp only [cstrTake, PAGE_SIZE]
            omega
          have hrest := @ih k₁ (wrapAdd cursor (cstrTake cursor out.length max)) (out ++ piece)
            (by rw [length_append]; omega)
          rw [ht.warm, ht.toWarmed.passable, length_append, hlen] at hrest
          refine hrest.trans ⟨.more (by omega) ht.passable hread hnul, fun h => ?_⟩
          cases h with
          | last _ _ hread' hnul' =>
            obtain rfl := some.inj (hread.symm.trans hread')
            cases hnul.symm.trans hnul'
          | more _ _ _ _ hrest => exact hrest
    · rw [herror]
      refine iff_of_false (fun ⟨_, h, _⟩ => by cases h) fun h => ?_
      cases h <;> exact hnot (by assumption)

/-- **A copy gets where it reaches.** -/
lemma mem_copied_iff : b ∈ k.copied read op ↔ k.Reaches read b op := by
  cases op with
  | read addr len =>
    rw [copied, readMem, Reaches]
    rcases hostTouch_spec read k addr len .read with ⟨k₁, ht, hok⟩ | ⟨hnot, k₁, e, herror⟩
    · rw [hok]
      dsimp only
      rw [Mem.readBytes_congr ht.agreeOn]
      cases (k.warm read .read).readBytes addr len with
      | none => exact iff_of_false not_mem_nil fun h => by cases h.2.1
      | some => exact ⟨fun hb => ⟨ht.passable, rfl, hb⟩, fun h => h.2.2⟩
    · rw [herror]
      exact iff_of_false not_mem_nil fun h => hnot h.1
  | write addr bytes =>
    rw [copied, Reaches]
    rcases hostTouch_spec read k addr bytes.length .write with
      ⟨k₁, ht, hok⟩ | ⟨hnot, k₁, e, herror⟩
    · rw [hok]
      dsimp only
      rw [Mem.stored_congr bytes ht.agreeOn]
      exact (and_iff_right ht.passable).symm
    · rw [herror]
      exact iff_of_false not_mem_nil fun h => hnot h.1
  | cstr addr max =>
    -- there are as many rounds as bytes, so the loop does not end for lack of them
    have hloop (n : ℕ) := @cstrLoop_iff read max n max k addr [] (Nat.le_add_left _ _)
    rw [copied, Reaches, readCstrLimit]
    constructor
    · intro hb
      cases hout : (cstrLoop read max max k addr []).2 with
      | error e =>
        rw [hout] at hb
        cases hb
      | ok bytes =>
        rw [hout] at hb
        exact ⟨bytes.length, hb, (hloop _).mp ⟨bytes, hout, rfl⟩⟩
    · rintro ⟨n, hb, hstring⟩
      obtain ⟨bytes, hout, rfl⟩ := (hloop n).mpr hstring
      rw [hout]
      exact hb

/-- What holds on ranges that can be passed holds on a string with its end. -/
lemma StringAt.forall_span {m : Mem} {pass : ℕ → ℕ → Prop} {P : ℕ → Prop} {max cursor done n : ℕ}
    (hP : ∀ addr len, pass addr len → ∀ b ∈ span addr len, P b)
    (h : StringAt m pass max cursor done n) :
    done ≤ n ∧ ∀ b ∈ span cursor (n + 1 - done), P b := by
  induction h with
  | last _ hpass hread hnul =>
    have hlen := Mem.readBytes_length hread
    obtain ⟨hlt, -⟩ := List.findIdx?_eq_some_iff_getElem.mp hnul
    exact ⟨Nat.le_add_right _ _, fun b hb => hP _ _ hpass b (span_mono (by omega) hb)⟩
  | @more cursor done n _ _ hpass _ _ _ ih =>
    have hsplit : n + 1 - done = cstrTake cursor done max +
        (n + 1 - (done + cstrTake cursor done max)) := by omega
    refine ⟨(Nat.le_add_right _ _).trans ih.1, fun b hb => ?_⟩
    rw [hsplit, span_add] at hb
    rcases mem_append.mp hb with hb | hb
    · exact hP _ _ hpass b hb
    · exact ih.2 b hb

/-- **Every byte that is reached was passed.** -/
lemma Reaches.passes (h : k.Reaches read b op) : k.Passes read op.access b := by
  cases op with
  | read => exact h.1.passes b h.2.2
  | write addr bytes => exact h.1.passes b (span_mono (Mem.stored_le bytes _ _) h.2)
  | cstr addr max =>
    obtain ⟨n, hb, hstring⟩ := h
    exact (hstring.forall_span fun _ _ hpass => hpass.passes).2 b hb

/-- **A copy respects the permissions**: the bytes it stores to or hands out are the guest's to
access, and a range with a byte that is not makes it fail. -/
structure Respects (read : ChunkReader) (k : Kernel) (op : CopyOp) : Prop where
  permitted : ∀ b ∈ k.copied read op, k.mayAccess op.access b = true
  refused : ∀ b bytes, b ∈ op.range bytes → k.mayAccess op.access b = false →
    (k.copy read op).2 ≠ .ok bytes

/-- The kernel sees the permission of the guest: the page of the byte is still to be filled, so that
a touch asks its mapping, or the MMU grants the access. -/
def Visible (k : Kernel) (access : AccessKind) (b : ℕ) : Prop :=
  (∃ perm, k.pager.pageState k.asid b = some (false, perm)) ∨ k.mmuGrants access b = true

lemma mayAccess_iff_visible (h : k.Passes read access b) :
    k.mayAccess access b = true ↔ k.Visible access b := by
  rw [mayAccess, Visible]
  cases hst : k.pager.pageState k.asid b with
  | none => simp
  | some st =>
    obtain ⟨resident, perm⟩ := st
    cases resident with
    | true => simp
    | false => exact iff_of_true (bne_iff_ne.mpr (h _ hst).1) (.inl ⟨perm, rfl⟩)

lemma respects_iff : k.Respects read op ↔ ∀ b, k.Reaches read b op → k.Visible op.access b := by
  have hmay {b : ℕ} (hb : k.Reaches read b op) := mayAccess_iff_visible hb.passes
  constructor
  · exact fun h b hb => (hmay hb).mp (h.permitted b (mem_copied_iff.mpr hb))
  intro h
  have hall : ∀ b ∈ k.copied read op, k.mayAccess op.access b := by
    intro b hb
    have hreach := mem_copied_iff.mp hb
    exact (hmay hreach).mpr (h b hreach)
  refine ⟨hall, fun b bytes hb hdenied hok => ?_⟩
  have hmay := hall b (copied_of_ok hok ▸ hb)
  rw [hdenied] at hmay
  cases hmay

end Kernel

/-! ### System calls -/

/-- A system call, as far as it copies: what it does next may depend on the outcome of a copy,
and between its copies it changes and reads the kernel as it likes. -/
inductive Handler where
  | done
  | copy (op : CopyOp) (next : CallResult Bytes → Handler)
  | act (f : Kernel → Kernel) (next : Kernel → Handler)

namespace Handler

/-- The copies of a system call, each with the kernel it finds. -/
def copies (read : ChunkReader) : Handler → Kernel → List (Kernel × CopyOp)
  | .done, _ => []
  | .copy op next, k => (k, op) :: copies read (next (k.copy read op).2) (k.copy read op).1
  | .act f next, k => copies read (next (f k)) (f k)

/-- **Kernel copies respect the page permissions** of the guest exactly when the MMU grants the
access on every byte they reach, but for those in pages that are still to be filled. -/
theorem respects_iff_visible (read : ChunkReader) (handler : Handler) (k : Kernel) :
    (∀ c ∈ handler.copies read k, c.1.Respects read c.2) ↔
      ∀ c ∈ handler.copies read k, ∀ b, c.1.Reaches read b c.2 → c.1.Visible c.2.access b :=
  forall₂_congr fun _ _ => Kernel.respects_iff

end Handler

/-- A process that mapped a page and then changed its protection. -/
def protectedPage (prot : ℕ) : Kernel :=
  (Kernel.sysMprotect
    { asid := 0, mem := (Mem.empty.mapMemoryLen 4096 4096 ⟨Kernel.protToPerm 3, 9, .eager⟩).1,
      brkEnd := 0, mmapNext := 0, pager := .empty, parked := fun _ => none, nextAsid := 1,
      running := true, clobbered := [] } 4096 4096 prot).1

/-- A system call that copies once. -/
def Handler.single (op : CopyOp) : Handler := .copy op fun _ => .done

lemma Handler.not_respects {k : Kernel} (hb : b ∈ op.range bytes)
    (hdenied : k.mayAccess op.access b = false) (hok : (k.copy read op).2 = .ok bytes) :
    ¬ ∀ c ∈ (Handler.single op).copies read k, c.1.Respects read c.2 := by
  intro h
  exact (h (k, op) mem_cons_self).refused b bytes hb hdenied hok

/-- A host on which no file is in chunks. -/
def noChunks : ChunkReader := fun _ _ _ => .invalid "no chunked file"

/-- **A page that is read-only is written, and one without access is read.** -/
theorem protected_pages_copied :
    ¬ (∀ c ∈ (Handler.single (.write 4096 [7])).copies noChunks (protectedPage 1),
        c.1.Respects noChunks c.2) ∧
      ¬ (∀ c ∈ (Handler.single (.read 4096 1)).copies noChunks (protectedPage 0),
        c.1.Respects noChunks c.2) ∧
      (((protectedPage 1).copy noChunks (.write 4096 [7])).1.mem 4096).map Cell.value = some 7 ∧
      ((protectedPage 0).copy noChunks (.read 4096 1)).2 = .ok [9] := by
  have hok : ((protectedPage 1).copy noChunks (.write 4096 [7])).2 = .ok [] := by decide +kernel
  have hout : ((protectedPage 0).copy noChunks (.read 4096 1)).2 = .ok [9] := by decide +kernel
  exact ⟨Handler.not_respects (b := 4096) (by decide +kernel) (by decide +kernel) hok,
    Handler.not_respects (b := 4096) (by decide +kernel) (by decide +kernel) hout,
    by decide +kernel, hout⟩

end WebTos
