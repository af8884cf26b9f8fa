import WebTos.Mem.Calls

/-!
What the pager would install on a page.

* `FileMapping.paint`, `painted`: what one mapping puts on a page, and the page that the mappings
  which cover it make one after the other;
* `Pager.installs`, `Pager.layers`: what `resolve` would install on a page is the page that its
  layers make (`installs_eq`);
* `FileMapping.layer`, `layered`: the page byte by byte, where its chunks are there
  (`painted_of_present`).
-/

namespace WebTos

open List Option FileMapping Pager

variable {read : ChunkReader} {files : ChunkedFile → ℕ → UInt8} {page : ℕ} {bytes bytes' : Bytes}

/-! ### A page as it is built -/

/-- One turn of the loop of `resolve`: zeros behind the data of the mapping, then the part of its
data that lies on the page, if it can be read. -/
def FileMapping.paint (read : ChunkReader) (page : ℕ) (bytes : Bytes) (m : FileMapping) :
    Option Bytes :=
  let bytes :=
    if max m.dataEnd page < min m.stop (page + PAGE_SIZE) then
      splice bytes (max m.dataEnd page - page)
        (List.replicate (min m.stop (page + PAGE_SIZE) - max m.dataEnd page) 0)
    else bytes
  let first := max page m.dataStart
  let last := min (page + PAGE_SIZE) m.dataEnd
  if last ≤ first then some bytes
  else
    match read m.file (m.fileOffset + (first - m.dataStart)) (last - first) with
    | .ready part =>
      if part.length = last - first then some (splice bytes (first - page) part) else none
    | _ => none

/-- The permission of the last mapping. -/
def lastPerm (ms : List FileMapping) (perm : UInt8) : UInt8 :=
  ms.foldl (fun _ m => m.finalPerm) perm

/-- The page that some mappings make: the fill of the first under all of them, and the permission
of the last. -/
def painted (read : ChunkReader) (page : ℕ) : List FileMapping → Option (Bytes × UInt8)
  | [] => none
  | m :: ms =>
    ((m :: ms).foldlM (paint read page) (List.replicate PAGE_SIZE m.fill)).map fun bytes =>
      (bytes, lastPerm ms m.finalPerm)

/-- What a resolution installs on a page. -/
def FaultResolution.installed (page : ℕ) : FaultResolution → Option (Bytes × UInt8)
  | .ready p bytes perm => if p = page then some (bytes, perm) else none
  | _ => none

lemma length_splice {part : Bytes} {n : ℕ} (h : n + part.length ≤ bytes.length) :
    (splice bytes n part).length = bytes.length := by
  simp only [splice, length_append, length_take, length_drop]
  omega

lemma FileMapping.length_paint {m : FileMapping} (hlen : bytes.length = PAGE_SIZE)
    (h : m.paint read page bytes = some bytes') : bytes'.length = PAGE_SIZE := by
  rw [paint] at h
  have hwash : (if max m.dataEnd page < min m.stop (page + PAGE_SIZE) then
      splice bytes (max m.dataEnd page - page)
        (List.replicate (min m.stop (page + PAGE_SIZE) - max m.dataEnd page) 0)
      else bytes).length = PAGE_SIZE := by
    split_ifs
    · rw [length_splice, hlen]
      rw [length_replicate]
      omega
    · exact hlen
  generalize (if max m.dataEnd page < min m.stop (page + PAGE_SIZE) then _ else bytes) = washed
    at h hwash
  split_ifs at h
  · exact some.inj h ▸ hwash
  split at h
  · split_ifs at h with hpart
    rw [← some.inj h, length_splice, hwash]
    omega
  · cases h

namespace Pager

/-- What `resolve` would install on a page: its bytes and its permission. -/
def installs (g : Pager) (read : ChunkReader) (access : AccessKind) (asid page : ℕ) :
    Option (Bytes × UInt8) :=
  (g.resolve read asid page access).1.installed page

/-- The mappings that make a page, if it is still to be brought in. -/
def layers (g : Pager) (asid page : ℕ) : List FileMapping :=
  if (asid, page) ∈ g.resident then [] else g.touching asid page

variable {g g' : Pager} {access : AccessKind} {asid : ℕ}

lemma installed_buildPage (generation : ℕ) (ms : List FileMapping) (bytes : Bytes)
    (perm : UInt8) :
    (g.buildPage read asid generation page access ms bytes perm).1.installed page =
      (ms.foldlM (paint read page) bytes).map fun bytes => (bytes, lastPerm ms perm) := by
  induction ms generalizing bytes perm with
  | nil => simp [buildPage, FaultResolution.installed, lastPerm]
  | cons m ms ih =>
    rw [buildPage, foldlM_cons, paint]
    dsimp only
    generalize (if max m.dataEnd page < min m.stop (page + PAGE_SIZE) then _ else bytes) = washed
    split_ifs
    · exact ih _ _
    cases read m.file _ _ with
    | ready =>
      dsimp only
      split_ifs
      · exact ih _ _
      · rfl
    | missing =>
      cases g.pending with
      | none => rfl
      | some =>
        dsimp only
        split_ifs <;> rfl
    | invalid why => rfl

/-- **What would be installed** is the page the layers make. -/
lemma installs_eq (hpage : page % PAGE_SIZE = 0) :
    g.installs read access asid page = painted read page (g.layers asid page) := by
  have hself : pageOf page = page := pageOf_self hpage
  have hnext : satAdd page PAGE_SIZE ≠ page := by
    simp only [satAdd, PAGE_SIZE] at hpage ⊢
    omega
  rw [installs, resolve, hself, layers]
  dsimp only
  cases hms : g.touching asid page with
  | nil =>
    rw [if_pos isEmpty_nil]
    split_ifs <;> rfl
  | cons m ms =>
    rw [if_neg (by simp)]
    split_ifs with hresident hrefuses hnextRefuses
    · rfl
    · rfl
    · -- the page after it may be brought in, but not this one
      rw [FaultResolution.installed.eq_def]
      split
      · next p bytes perm hready =>
          rw [if_neg (buildPage_out.2 _ _ _ hready ▸ hnext)]
          rfl
      · rfl
    · rw [installed_buildPage]
      rfl

lemma layers_eq_nil (h : g.touching asid page = []) : g.layers asid page = [] := by
  rw [layers, h, ite_self]

lemma layers_eq_nil_iff (hpage : page % PAGE_SIZE = 0) :
    g.layers asid page = [] ↔ ¬ g.Lazy asid page := by
  rw [layers]
  split_ifs with hres
  · exact iff_of_true rfl fun hlazy => hlazy.2.2 hres
  rw [touching, filter_eq_nil_iff]
  constructor
  · rintro hnone ⟨-, ⟨m, hm, hc⟩, -⟩
    exact hnone m hm hc
  · exact fun hlazy m hm hc => hlazy ⟨hpage, ⟨m, hm, hc⟩, hres⟩

/-- The layers depend on the mappings of the space and the mark of the page. -/
lemma layers_congr (hmap : g'.mappings asid = g.mappings asid)
    (hres : (asid, page) ∈ g'.resident ↔ (asid, page) ∈ g.resident) :
    g'.layers asid page = g.layers asid page := by
  rw [layers, layers, touching, touching, hmap]
  simp only [hres]

/-- **A whole page is installed.** -/
lemma length_of_installs {perm : UInt8} (hpage : page % PAGE_SIZE = 0)
    (h : g.installs read access asid page = some (bytes, perm)) : bytes.length = PAGE_SIZE := by
  have hfold : ∀ (ms : List FileMapping) {bytes bytes' : Bytes}, bytes.length = PAGE_SIZE →
      ms.foldlM (paint read page) bytes = some bytes' → bytes'.length = PAGE_SIZE := by
    intro ms
    induction ms with
    | nil => exact fun hlen h => some.inj h ▸ hlen
    | cons m ms ih =>
      intro bytes bytes' hlen h
      rw [foldlM_cons] at h
      obtain ⟨next, hnext, hrest⟩ := bind_eq_some_iff.mp h
      exact ih (length_paint hlen hnext) hrest
  rw [installs_eq hpage, painted.eq_def] at h
  split at h
  · cases h
  · obtain ⟨_, hpaint, heq⟩ := map_eq_some_iff.mp h
    obtain ⟨rfl, -⟩ := Prod.mk.inj heq
    exact hfold _ length_replicate hpaint

end Pager

/-! ### The page byte by byte -/

/-- A store that has every chunk of every file. -/
def whole (files : ChunkedFile → ℕ → UInt8) : ChunkReader := fun file offset count =>
  .ready ((range count).map fun j => files file (offset + j))

/-- The reads that a page needs of a mapping give the bytes of the file. -/
def Pager.Present (files : ChunkedFile → ℕ → UInt8) (read : ChunkReader) (page : ℕ)
    (m : FileMapping) : Prop :=
  ∀ x len, page ≤ x → m.dataStart ≤ x → x + len ≤ page + PAGE_SIZE → x + len ≤ m.dataEnd →
    read m.file (m.fileOffset + (x - m.dataStart)) len =
      whole files m.file (m.fileOffset + (x - m.dataStart)) len

/-- What a mapping does to the byte at an address: zeros from the end of its data to its own
end, then its data. -/
def FileMapping.layer (files : ChunkedFile → ℕ → UInt8) (x : ℕ) (v : UInt8) (m : FileMapping) :
    UInt8 :=
  let v := if m.dataEnd ≤ x ∧ x < m.stop then 0 else v
  if m.dataStart ≤ x ∧ x < m.dataEnd then files m.file (m.fileOffset + (x - m.dataStart)) else v

/-- The byte that mappings leave at an address, one after the other over a fill. -/
def layered (files : ChunkedFile → ℕ → UInt8) (fill : UInt8) (ms : List FileMapping) (x : ℕ) :
    UInt8 := ms.foldl (layer files x) fill

lemma splice_tabulate {n first count : ℕ} (h : first + count ≤ n) (f part : ℕ → UInt8) :
    splice ((range n).map f) first ((range count).map part) =
      (range n).map fun i =>
        if first ≤ i ∧ i < first + count then part (i - first) else f i := by
  apply ext_getElem
  · simp [splice]
    omega
  intro i hi hi'
  have hlen : ((range n).map f).length = n := by simp
  simp only [splice, getElem_append, length_append, length_take, hlen,
    length_map, length_range, getElem_take, getElem_drop, getElem_map,
    getElem_range]
  split_ifs <;> first | omega | rfl | (congr 1; omega)

/-- A mapping whose data is there lays its bytes over the page, and zeros behind its data. -/
lemma FileMapping.paint_of_present {m : FileMapping} (h : Present files read page m)
    (f : ℕ → UInt8) : m.paint read page ((range PAGE_SIZE).map f) =
      some ((range PAGE_SIZE).map fun i => m.layer files (page + i) (f i)) := by
  have hwash : (if max m.dataEnd page < min m.stop (page + PAGE_SIZE) then
      splice ((range PAGE_SIZE).map f) (max m.dataEnd page - page)
        (List.replicate (min m.stop (page + PAGE_SIZE) - max m.dataEnd page) 0)
      else (range PAGE_SIZE).map f) = (range PAGE_SIZE).map fun i =>
        if m.dataEnd ≤ page + i ∧ page + i < m.stop then 0 else f i := by
    split_ifs with hzeros
    · have hzero (n : ℕ) : List.replicate n (0 : UInt8) = (range n).map fun _ => 0 := by simp
      rw [hzero, splice_tabulate (by omega)]
      exact map_congr_left fun i hi => if_congr (by have := mem_range.mp hi; omega) rfl rfl
    · exact map_congr_left fun i hi => (if_neg (by have := mem_range.mp hi; omega)).symm
  -- first the zeros, then the data over them
  rw [paint, hwash]
  split_ifs with hcopy
  · refine congrArg some (map_congr_left fun i hi => ?_)
    have hout : ¬ (m.dataStart ≤ page + i ∧ page + i < m.dataEnd) := by
      have := mem_range.mp hi
      omega
    rw [layer, if_neg hout]
  rw [h _ _ (le_max_left _ _) (le_max_right _ _) (by omega) (by omega), whole]
  dsimp only
  rw [if_pos (by simp), splice_tabulate (by omega)]
  refine congrArg some (map_congr_left fun i hi => ?_)
  have hi := mem_range.mp hi
  by_cases hdata : m.dataStart ≤ page + i ∧ page + i < m.dataEnd
  · rw [layer, if_pos hdata, if_pos (by omega)]
    congr 1
    omega
  · rw [layer, if_neg hdata, if_neg (by omega)]

/-- **A page whose chunks are there**, byte by byte. -/
lemma painted_of_present {m : FileMapping} {ms : List FileMapping}
    (h : ∀ m' ∈ m :: ms, Present files read page m') :
    painted read page (m :: ms) =
      some ((range PAGE_SIZE).map fun i => layered files m.fill (m :: ms) (page + i),
        lastPerm ms m.finalPerm) := by
  have hfold : ∀ (ms : List FileMapping) (f : ℕ → UInt8),
      (∀ m' ∈ ms, Present files read page m') →
      ms.foldlM (paint read page) ((range PAGE_SIZE).map f) =
        some ((range PAGE_SIZE).map fun i => ms.foldl (layer files (page + i)) (f i)) := by
    intro ms
    induction ms with
    | nil => exact fun _ _ => rfl
    | cons m ms ih =>
      intro f h
      have hms := forall_mem_cons.mp h
      rw [foldlM_cons, paint_of_present hms.1]
      exact ih _ hms.2
  have hfill : List.replicate PAGE_SIZE m.fill = (range PAGE_SIZE).map fun _ => m.fill := by simp
  rw [painted, hfill, hfold _ _ h]
  rfl

end WebTos
