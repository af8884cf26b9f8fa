import WebTos.Mem.Mmu
import WebTos.Vfs.Basic

/-!
The pager of `pager.rs`: lazy file mappings, which of their pages are resident,
and the resolution of a fault on one of them.

The table is keyed by address-space id.  `spaces` is the source's `BTreeMap` and
`resident` its `HashSet`.  The counters `page_ins` and `page_ins_by_access` are
left out: nothing reads them back.  Reading a file's chunks is a parameter
(`ChunkReader`), since what the chunk store holds changes between calls.

* `FileMapping.clipped`, `Pager.map`, `Pager.unmap`, `Pager.protect`,
  `Pager.remap`, `Pager.forkSpace`, `Pager.dropSpace`: the table's operations;
* `Pager.resolve`: what to do about a fault;
* `Pager.Lazy`: the page is lazily mapped and not resident, with one lemma per
  operation (`Lazy.of_unmap`, `Lazy.of_protect`, `Lazy.of_remap`, …) that says
  where the lazy pages of the new table come from;
* `Pager.lazy_of_ready`: a resolved page was lazily mapped and not resident.
-/

namespace WebTos

open List Option

/-- The kind of access that faulted (`AccessKind`). -/
inductive AccessKind where
  | read | write | execute
  deriving DecidableEq, Repr

/-- The permission an access needs. -/
def AccessKind.required : AccessKind → UInt8
  | .read => Perm.READ
  | .write => Perm.WRITE
  | .execute => Perm.EXEC

/-- A request for one chunk (`PageRequest`). -/
structure PageRequest where
  ticket : ℕ
  hash : Hash
  asid : ℕ
  generation : ℕ
  page : ℕ
  access : AccessKind
  deriving DecidableEq, Repr

/-! ### File mappings -/

/-- A lazy file mapping (`FileMapping`); `stop` is the field `end`. -/
structure FileMapping where
  start : ℕ
  stop : ℕ
  dataStart : ℕ
  fileOffset : ℕ
  fileLen : ℕ
  finalPerm : UInt8
  fill : UInt8
  file : ChunkedFile
  /-- The end is a 64-bit address. -/
  stop_lt : stop < 2 ^ 64
  deriving DecidableEq, Repr

namespace FileMapping

/-- `FileMapping::new`. -/
def new (start stop dataStart fileOffset fileLen : ℕ) (finalPerm fill : UInt8)
    (file : ChunkedFile) (stop_lt : stop < 2 ^ 64) : Except String FileMapping :=
  if stop ≤ start ∨ start % PAGE_SIZE ≠ 0 ∨ stop % PAGE_SIZE ≠ 0 then
    .error "file mapping range must be nonempty and page aligned"
  else if 2 ^ 64 ≤ dataStart + fileLen then .error "file mapping data range overflows"
  else if dataStart < start ∨ stop < dataStart + fileLen then
    .error "file mapping data lies outside its virtual range"
  else if 2 ^ 64 ≤ fileOffset + fileLen ∨ file.size < fileOffset + fileLen then
    .error "file mapping reads past its immutable file version"
  else .ok { start, stop, dataStart, fileOffset, fileLen, finalPerm, fill, file, stop_lt }

/-- What `new` accepts: a nonempty aligned range inside the address space. -/
lemma of_new {start stop dataStart fileOffset fileLen : ℕ} {finalPerm fill : UInt8}
    {file : ChunkedFile} {stop_lt : stop < 2 ^ 64} {m : FileMapping}
    (h : new start stop dataStart fileOffset fileLen finalPerm fill file stop_lt = .ok m) :
    m.start = start ∧ m.stop = stop ∧ start < stop ∧ start % PAGE_SIZE = 0 ∧
      stop % PAGE_SIZE = 0 := by
  rw [new] at h
  split_ifs at h with h₁
  obtain rfl := Except.ok.inj h
  exact ⟨rfl, rfl, by omega, by omega, by omega⟩

/-- `data_end`. -/
def dataEnd (m : FileMapping) : ℕ := m.dataStart + m.fileLen

/-- The page lies in the mapping: `mapping.start <= page && page < mapping.end`. -/
def covers (m : FileMapping) (page : ℕ) : Bool := decide (m.start ≤ page) && decide (page < m.stop)

/-- `clipped`: the part of the mapping inside a range. -/
def clipped (m : FileMapping) (start stop : ℕ) : Option FileMapping :=
  if stop ≤ start ∨ m.stop ≤ start ∨ stop ≤ m.start then none
  else
    let start := max start m.start
    let stop := min stop m.stop
    let dataStart := min (max m.dataStart start) stop
    let dataEnd := max (min m.dataEnd stop) dataStart
    some { m with
      start, stop, dataStart
      fileOffset := m.fileOffset + (dataStart - m.dataStart)
      fileLen := dataEnd - dataStart
      stop_lt := (min_le_right _ _).trans_lt m.stop_lt }

/-- The mapping moved by a wrapping offset. -/
def shifted (m : FileMapping) (delta : ℕ) : FileMapping :=
  { m with
    start := wrapAdd m.start delta
    stop := wrapAdd m.stop delta
    dataStart := wrapAdd m.dataStart delta
    stop_lt := wrapAdd_lt _ _ }

end FileMapping

open FileMapping

/-- The mappings of one address space (`AddressSpace`). -/
structure AddressSpace where
  generation : ℕ
  mappings : List FileMapping

/-- `generation.wrapping_add(1).max(1)`. -/
def nextGeneration (generation : ℕ) : ℕ := max (wrapAdd generation 1) 1

/-- The outcome of a fault (`FaultResolution`). -/
inductive FaultResolution where
  | notLazy
  | ready (page : ℕ) (bytes : Bytes) (perm : UInt8)
  | missing (request : PageRequest)
  | invalid (why : String)

/-- The pager (`Pager`). -/
structure Pager where
  spaces : Std.TreeMap ℕ AddressSpace
  resident : Finset (ℕ × ℕ)
  pending : Option PageRequest
  nextTicket : ℕ

/-- The pages from the page of `start` up to `stop`, in order. -/
def pagesOf (start stop : ℕ) : List ℕ :=
  (List.range ((stop - pageOf start + (PAGE_SIZE - 1)) / PAGE_SIZE)).map fun i =>
    pageOf start + PAGE_SIZE * i

namespace Pager

/-- `Pager::default`. -/
def empty : Pager := ⟨∅, ∅, none, 0⟩

/-- `map`. -/
def map (g : Pager) (asid : ℕ) (mapping : FileMapping) : Pager :=
  let space := g.spaces[asid]?.getD ⟨0, []⟩
  let space := ⟨nextGeneration space.generation, space.mappings ++ [mapping]⟩
  { g with spaces := g.spaces.insert asid space }

/-- `is_empty`. -/
def isEmpty (g : Pager) : Bool := g.spaces.values.all fun space => space.mappings.isEmpty

/-- The mappings of an address space, in insertion order. -/
def mappings (g : Pager) (asid : ℕ) : List FileMapping :=
  (g.spaces[asid]?.map AddressSpace.mappings).getD []

/-- `nonresident_pages`. -/
def nonresidentPages (g : Pager) (asid start len : ℕ) : List ℕ :=
  (pagesOf start (satAdd start len)).filter fun page =>
    !decide ((asid, page) ∈ g.resident) && (g.mappings asid).any (·.covers page)

/-- `page_state`: residency and final permission; the last mapping wins. -/
def pageState (g : Pager) (asid page : ℕ) : Option (Bool × UInt8) :=
  ((g.mappings asid).reverse.find? (·.covers (pageOf page))).map fun mapping =>
    (decide ((asid, pageOf page) ∈ g.resident), mapping.finalPerm)

/-- `bytes[at..at + part.len()].copy_from_slice(part)`. -/
def splice (bytes : Bytes) (at_ : ℕ) (part : Bytes) : Bytes :=
  bytes.take at_ ++ part ++ bytes.drop (at_ + part.length)

/-- The loop of `resolve` over the mappings that touch the page. -/
def buildPage (g : Pager) (read : ChunkReader) (asid generation page : ℕ) (access : AccessKind) :
    List FileMapping → Bytes → UInt8 → FaultResolution × Pager
  | [], bytes, perm => (.ready page bytes perm, g)
  | mapping :: rest, bytes, _ =>
    let zeroStart := max mapping.dataEnd page
    let zeroEnd := min mapping.stop (page + PAGE_SIZE)
    let bytes :=
      if zeroStart < zeroEnd then
        splice bytes (zeroStart - page) (List.replicate (zeroEnd - zeroStart) 0)
      else bytes
    let copyStart := max page mapping.dataStart
    let copyEnd := min (page + PAGE_SIZE) mapping.dataEnd
    if copyEnd ≤ copyStart then
      buildPage g read asid generation page access rest bytes mapping.finalPerm
    else
      let fileOffset := mapping.fileOffset + (copyStart - mapping.dataStart)
      let len := copyEnd - copyStart
      match read mapping.file fileOffset len with
      | .ready part =>
        if part.length = len then
          buildPage g read asid generation page access rest
            (splice bytes (copyStart - page) part) mapping.finalPerm
        else (.invalid "manifest-backed page resolved to a short range", g)
      | .missing hash =>
        match g.pending with
        | some request =>
          if request.hash = hash ∧ request.asid = asid ∧ request.generation = generation ∧
              request.page = page then (.missing request, g)
          else (.invalid "a second page-in was requested while one is pending", g)
        | none =>
          let ticket := max (wrapAdd g.nextTicket 1) 1
          let request := ⟨ticket, hash, asid, generation, page, access⟩
          (.missing request, { g with pending := some request, nextTicket := ticket })
      | .invalid why => (.invalid why, g)

/-- The mappings that touch a page. -/
def touching (g : Pager) (asid page : ℕ) : List FileMapping :=
  (g.mappings asid).filter (·.covers page)

/-- The last mapping that touches the page does not grant the access. -/
def lastRefuses (touching : List FileMapping) (access : AccessKind) : Bool :=
  match touching.getLast? with
  | none => true
  | some mapping => mapping.finalPerm &&& access.required == 0

/-- `resolve`.  A fault reported in a resident page may stem from the page after
it, which is resolved then. -/
def resolve (g : Pager) (read : ChunkReader) (asid address : ℕ) (access : AccessKind) :
    FaultResolution × Pager :=
  let page := pageOf address
  let generation := (g.spaces[asid]?.map AddressSpace.generation).getD 0
  let build := fun page touching =>
    buildPage g read asid generation page access touching
      (List.replicate PAGE_SIZE ((touching.head?.map fill).getD 0)) Perm.INIT
  if (g.touching asid page).isEmpty then (.notLazy, g)
  else if (asid, page) ∈ g.resident then
    let next := satAdd page PAGE_SIZE
    if lastRefuses (g.touching asid page) access then (.notLazy, g)
    else if lastRefuses (g.touching asid next) access || decide ((asid, next) ∈ g.resident) then
      (.notLazy, g)
    else build next (g.touching asid next)
  else build page (g.touching asid page)

/-- `mark_resident`. -/
def markResident (g : Pager) (asid page : ℕ) : Pager :=
  { g with resident := insert (asid, pageOf page) g.resident }

/-- `drop_space`.  A pending request stays, to be found stale on delivery. -/
def dropSpace (g : Pager) (asid : ℕ) : Pager :=
  { g with
    spaces := g.spaces.erase asid
    resident := g.resident.filter fun r => r.1 ≠ asid }

/-- Puts new mappings in an address space, under a new generation. -/
def setMappings (g : Pager) (asid : ℕ) (space : AddressSpace) (mappings : List FileMapping) :
    Pager :=
  { g with spaces := g.spaces.insert asid ⟨nextGeneration space.generation, mappings⟩ }

/-- What is left of a mapping when a range is cut out of it. -/
def cutOut (mapping : FileMapping) (start stop : ℕ) : List FileMapping :=
  if mapping.stop ≤ start ∨ stop ≤ mapping.start then [mapping]
  else (mapping.clipped mapping.start start).toList ++ (mapping.clipped stop mapping.stop).toList

/-- `unmap`. -/
def unmap (g : Pager) (asid start len : ℕ) : Pager :=
  if 2 ^ 64 ≤ start + len then g.dropSpace asid
  else
    match g.spaces[asid]? with
    | none => g
    | some space =>
      let stop := start + len
      { g.setMappings asid space (space.mappings.flatMap fun m => cutOut m start stop) with
        resident := g.resident.filter fun r => r.1 ≠ asid ∨ r.2 < start ∨ stop ≤ r.2 }

/-- A mapping split at the ends of a range, with a new permission inside it. -/
def reprotect (mapping : FileMapping) (start stop : ℕ) (newPerm : UInt8) : List FileMapping :=
  if mapping.stop ≤ start ∨ stop ≤ mapping.start then [mapping]
  else
    (mapping.clipped mapping.start start).toList ++
      ((mapping.clipped start stop).map fun m => { m with finalPerm := newPerm }).toList ++
      (mapping.clipped stop mapping.stop).toList

/-- `protect`. -/
def protect (g : Pager) (asid start len : ℕ) (newPerm : UInt8) : Pager :=
  if 2 ^ 64 ≤ start + len then g
  else
    match g.spaces[asid]? with
    | none => g
    | some space =>
      g.setMappings asid space
        (space.mappings.flatMap fun m => reprotect m start (start + len) newPerm)

/-- The mapping `remap` adds for the grown part: the file goes on where the last
mapping at the old end leaves off. -/
def growthTail (mappings : List FileMapping) (oldStart oldLen newStart newLen : ℕ) :
    Option FileMapping :=
  let oldEnd := satAdd oldStart oldLen
  if newLen ≤ oldLen then none
  else
    match mappings.reverse.find? fun m => decide (m.start < oldEnd) && decide (oldEnd ≤ m.stop) with
    | none => none
    | some source =>
      let tailStart := satAdd newStart oldLen
      let tailEnd := satAdd newStart newLen
      if tailEnd ≤ tailStart then none
      else
        let offset := min (satAdd source.fileOffset (oldEnd - source.dataStart)) source.file.size
        let fileLen := min (source.file.size - offset) (tailEnd - tailStart)
        (new tailStart tailEnd tailStart offset fileLen source.finalPerm source.fill
          source.file (satAdd_lt _ _)).toOption

/-- What `remap` moves of a mapping. -/
def movedPart (mapping : FileMapping) (oldStart oldEnd copyEnd newStart : ℕ) :
    List FileMapping :=
  if mapping.stop ≤ oldStart ∨ oldEnd ≤ mapping.start then []
  else
    ((mapping.clipped oldStart copyEnd).map (·.shifted (wrapSub newStart oldStart))).toList

/-- `remap`. -/
def remap (g : Pager) (asid oldStart oldLen newStart newLen : ℕ) : Pager :=
  match g.spaces[asid]? with
  | none => g
  | some space =>
    let oldEnd := satAdd oldStart oldLen
    let copyEnd := satAdd oldStart (min oldLen newLen)
    let kept := space.mappings.flatMap fun m => cutOut m oldStart oldEnd
    let moved := space.mappings.flatMap fun m => movedPart m oldStart oldEnd copyEnd newStart
    let tail := (growthTail space.mappings oldStart oldLen newStart newLen).toList
    let oldResident := g.resident.filter fun r =>
      r.1 = asid ∧ oldStart ≤ r.2 ∧ r.2 < copyEnd
    { g.setMappings asid space (kept ++ moved ++ tail) with
      resident := (g.resident.filter fun r => r.1 ≠ asid ∨ r.2 < oldStart ∨ oldEnd ≤ r.2) ∪
        oldResident.image fun r => (asid, newStart + (r.2 - oldStart)) }

/-- `fork_space`. -/
def forkSpace (g : Pager) (parent child : ℕ) : Pager :=
  match g.spaces[parent]? with
  | none => g
  | some space =>
    { g with
      spaces := g.spaces.insert child space
      resident := g.resident ∪
        (g.resident.filter fun r => r.1 = parent).image fun r => (child, r.2) }

/-! ### Which pages a mapping covers -/

variable {m m' : FileMapping} {page start stop oldStart oldLen newStart : ℕ} {perm : UInt8}

lemma covers_iff :
    m.covers page ↔ m.start ≤ page ∧ page < m.stop := by
  simp [covers]

/-- A clipped mapping covers what the mapping covers inside the range. -/
lemma covers_clipped (h : m' ∈ (m.clipped start stop).toList) (hc : m'.covers page) :
    m.covers page ∧ start ≤ page ∧ page < stop := by
  rw [clipped] at h
  split_ifs at h with hout
  · simp at h
  obtain rfl := some.inj (mem_toList.mp h)
  rw [covers_iff] at hc ⊢
  dsimp only at hc
  omega

/-- Cutting a range out leaves only pages outside it covered. -/
lemma covers_cutOut (h : m' ∈ cutOut m start stop)
    (hc : m'.covers page) : m.covers page ∧ (page < start ∨ stop ≤ page) := by
  rw [cutOut] at h
  split_ifs at h with hout
  · rw [mem_singleton] at h
    subst h
    rw [covers_iff] at hc ⊢
    omega
  rcases mem_append.mp h with h' | h'
  · obtain ⟨hm, -, hp⟩ := covers_clipped h' hc
    exact ⟨hm, .inl hp⟩
  · obtain ⟨hm, hp, -⟩ := covers_clipped h' hc
    exact ⟨hm, .inr hp⟩

/-- A change of protection covers no new page. -/
lemma covers_reprotect (h : m' ∈ reprotect m start stop perm) (hc : m'.covers page) :
    m.covers page := by
  rw [reprotect] at h
  split_ifs at h with hout
  · rw [mem_singleton] at h
    rwa [← h]
  rw [append_assoc] at h
  rcases mem_append.mp h with h' | h'
  · exact (covers_clipped h' hc).1
  rcases mem_append.mp h' with h'' | h''
  · simp only [mem_toList, map_eq_some_iff] at h''
    obtain ⟨m₁, hm₁, rfl⟩ := h''
    exact (covers_clipped (mem_toList.mpr hm₁) hc).1
  · exact (covers_clipped h'' hc).1

lemma covers_movedPart (hold : oldStart < 2 ^ 64) (hnew : newStart + oldLen < 2 ^ 64)
    (h : m' ∈ movedPart m oldStart (satAdd oldStart oldLen) (satAdd oldStart oldLen) newStart)
    (hc : m'.covers page) :
    newStart ≤ page ∧ m.covers (oldStart + (page - newStart)) ∧
      oldStart + (page - newStart) < satAdd oldStart oldLen := by
  rw [movedPart] at h
  split_ifs at h with hout
  · simp at h
  simp only [mem_toList, map_eq_some_iff] at h
  obtain ⟨m₁, hm₁, rfl⟩ := h
  have hin : ∀ q, m₁.covers q → _ := fun q => covers_clipped (mem_toList.mpr hm₁)
  rw [clipped] at hm₁
  split_ifs at hm₁ with hout'
  obtain rfl := some.inj hm₁
  -- The clipped range lies in the old one, so the move does not wrap around.
  simp only [covers_iff, shifted, wrapAdd, wrapSub, satAdd] at hc hin hout hout' ⊢
  omega

lemma ok_of_toOption {ε α : Type} {x : Except ε α} {a : α} (h : x.toOption = some a) :
    x = .ok a := by
  cases x with
  | error => cases h
  | ok b => rw [some.inj h]

variable {ms : List FileMapping} {newLen : ℕ}

/-- The grown part is covered, and nothing else. -/
lemma covers_growthTail (hnew : newStart + oldLen < 2 ^ 64)
    (h : m' ∈ (growthTail ms oldStart oldLen newStart newLen).toList) (hc : m'.covers page)
    : newStart + oldLen ≤ page ∧ page < newStart + newLen := by
  rw [growthTail] at h
  dsimp only at h
  by_cases hlen : newLen ≤ oldLen
  · simp [hlen] at h
  rw [if_neg hlen] at h
  cases hs : ms.reverse.find? fun m => decide (m.start < satAdd oldStart oldLen) &&
      decide (satAdd oldStart oldLen ≤ m.stop) with
  | none => simp [hs] at h
  | some source =>
    simp only [hs] at h
    by_cases ht : satAdd newStart newLen ≤ satAdd newStart oldLen
    · simp [ht] at h
    rw [if_neg ht, mem_toList] at h
    obtain ⟨hstart, hstop, -⟩ := of_new (ok_of_toOption h)
    rw [covers_iff, hstart, hstop] at hc
    simp only [satAdd] at hc
    omega

/-! ### The lazy pages of a table -/

/-- The page is lazily mapped and not resident. -/
def Lazy (g : Pager) (asid page : ℕ) : Prop :=
  page % PAGE_SIZE = 0 ∧ (∃ m ∈ g.mappings asid, m.covers page = true) ∧
    (asid, page) ∉ g.resident

variable {g : Pager} {asid a page : ℕ}

lemma mappings_insert (space : AddressSpace) (r : Finset (ℕ × ℕ)) (q : Option PageRequest)
    (t : ℕ) : Pager.mappings ⟨g.spaces.insert asid space, r, q, t⟩ a =
      if asid = a then space.mappings else g.mappings a := by
  rw [mappings, mappings, Std.TreeMap.getElem?_insert]
  simp only [Nat.compare_eq_eq]
  split_ifs <;> rfl

lemma mappings_of_some {space : AddressSpace} (h : g.spaces[asid]? = some space) :
    g.mappings asid = space.mappings := by
  rw [mappings, h]; rfl

lemma mappings_of_none (h : g.spaces[asid]? = none) : g.mappings asid = [] := by
  rw [mappings, h]; rfl

/-- What `page_state` says of a page that is not resident. -/
lemma lazy_of_pageState (h : g.pageState asid page = some (false, perm)) :
    g.Lazy asid (pageOf page) := by
  rw [pageState, map_eq_some_iff] at h
  obtain ⟨m, hm, heq⟩ := h
  have hr := (Prod.mk.inj heq).1
  have hc : m.covers (pageOf page) := by simpa using List.find?_some hm
  refine ⟨pageOf_mod page, ⟨m, ?_, hc⟩, by simpa using hr⟩
  exact mem_reverse.mp (List.mem_of_find?_eq_some hm)

/-! ### The table after an edit -/

lemma mappings_dropSpace :
    (g.dropSpace asid).mappings a = if a = asid then [] else g.mappings a := by
  rw [mappings, mappings, dropSpace, Std.TreeMap.getElem?_erase]
  by_cases ha : a = asid
  · subst ha
    simp
  · simp [ha, Ne.symm ha]

/-- The mappings of a space are edited as a whole; where there is no space there is nothing to
edit. -/
lemma mappings_edit {g' : Pager} {f : List FileMapping → List FileMapping} (hnil : f [] = [])
    (hnone : g.spaces[asid]? = none → g' = g)
    (hsome : ∀ space, g.spaces[asid]? = some space →
      g'.spaces = (g.setMappings asid space (f space.mappings)).spaces) :
    g'.mappings a = if a = asid then f (g.mappings asid) else g.mappings a := by
  cases hs : g.spaces[asid]? with
  | none =>
    rw [hnone hs, mappings_of_none hs, hnil]
    split_ifs with ha
    · rw [ha, mappings_of_none hs]
    · rfl
  | some space =>
    rw [mappings_of_some hs, mappings, hsome space hs]
    refine (mappings_insert _ g.resident g.pending g.nextTicket).trans ?_
    simp only [eq_comm]

variable {len : ℕ}

lemma mappings_unmap (h : start + len < 2 ^ 64) :
    (g.unmap asid start len).mappings a =
      if a = asid then (g.mappings asid).flatMap fun m => cutOut m start (start + len)
      else g.mappings a := by
  rw [unmap, if_neg (by omega)]
  refine mappings_edit rfl (fun hs => ?_) fun space hs => ?_ <;> rw [hs]

lemma mappings_protect (h : start + len < 2 ^ 64) :
    (g.protect asid start len perm).mappings a =
      if a = asid then (g.mappings asid).flatMap fun m => reprotect m start (start + len) perm
      else g.mappings a := by
  rw [protect, if_neg (by omega)]
  refine mappings_edit rfl (fun hs => ?_) fun space hs => ?_ <;> rw [hs]

lemma mappings_remap (hgrow : oldLen < newLen) :
    (g.remap asid oldStart oldLen newStart newLen).mappings a =
      if a = asid then
        ((g.mappings asid).flatMap fun m => cutOut m oldStart (satAdd oldStart oldLen)) ++
          ((g.mappings asid).flatMap fun m =>
            movedPart m oldStart (satAdd oldStart oldLen) (satAdd oldStart oldLen) newStart) ++
          (growthTail (g.mappings asid) oldStart oldLen newStart newLen).toList
      else g.mappings a := by
  rw [remap]
  refine mappings_edit
    (f := fun ms => _ ++ _ ++ (growthTail ms oldStart oldLen newStart newLen).toList) ?_
    (fun hs => ?_) fun space hs => ?_
  · rw [growthTail, if_neg (by omega)]
    rfl
  · rw [hs]
  · rw [hs, min_eq_left hgrow.le]

lemma mem_resident_unmap (h : start + len < 2 ^ 64) (hne : a = asid → g.mappings asid ≠ []) :
    (a, page) ∈ (g.unmap asid start len).resident ↔
      (a, page) ∈ g.resident ∧ (a ≠ asid ∨ page < start ∨ start + len ≤ page) := by
  rw [unmap, if_neg (by omega)]
  cases hs : g.spaces[asid]? with
  | none =>
    have ha : a ≠ asid := fun ha => hne ha (mappings_of_none hs)
    simp [ha]
  | some =>
    dsimp only
    rw [Finset.mem_filter]

lemma resident_protect : (g.protect asid start len perm).resident = g.resident := by
  rw [protect]
  split_ifs
  · rfl
  · cases g.spaces[asid]? <;> rfl

lemma mem_resident_remap (hgrow : oldLen < newLen) (hne : a = asid → g.mappings asid ≠ []) :
    (a, page) ∈ (g.remap asid oldStart oldLen newStart newLen).resident ↔
      (a, page) ∈ g.resident ∧ (a ≠ asid ∨ page < oldStart ∨ satAdd oldStart oldLen ≤ page) ∨
        a = asid ∧ ∃ p, (asid, p) ∈ g.resident ∧ oldStart ≤ p ∧ p < satAdd oldStart oldLen ∧
          page = newStart + (p - oldStart) := by
  rw [remap]
  cases hs : g.spaces[asid]? with
  | none =>
    have ha : a ≠ asid := fun ha => hne ha (mappings_of_none hs)
    simp [ha]
  | some =>
    dsimp only
    rw [Finset.mem_union, Finset.mem_filter, Finset.mem_image, min_eq_left hgrow.le]
    refine or_congr Iff.rfl ⟨?_, ?_⟩
    · rintro ⟨⟨b, p⟩, hp, heq⟩
      obtain ⟨hmem, hb, hold, hlt⟩ := Finset.mem_filter.mp hp
      obtain ⟨ha, hpage⟩ := Prod.mk.inj heq
      dsimp only at hb
      exact ⟨ha.symm, p, hb ▸ hmem, hold, hlt, hpage.symm⟩
    · rintro ⟨rfl, p, hmem, hold, hlt, rfl⟩
      exact ⟨(a, p), Finset.mem_filter.mpr ⟨hmem, rfl, hold, hlt⟩, rfl⟩

/-! ### The lazy pages after an edit -/

/-- A lazy page after `map` was lazy or lies in the new mapping. -/
lemma Lazy.of_map {mapping : FileMapping} (h : (g.map asid mapping).Lazy a page) :
    g.Lazy a page ∨ a = asid ∧ mapping.covers page := by
  obtain ⟨hp, ⟨m, hm, hc⟩, hr⟩ := h
  rw [map, mappings_insert] at hm
  split_ifs at hm with ha
  · subst ha
    rcases mem_append.mp hm with h' | h'
    · refine .inl ⟨hp, ⟨m, ?_, hc⟩, hr⟩
      cases hs : g.spaces[asid]? with
      | none => simp [hs] at h'
      | some => rw [mappings_of_some hs]; simpa [hs] using h'
    · rw [mem_singleton] at h'
      exact .inr ⟨rfl, h' ▸ hc⟩
  · exact .inl ⟨hp, ⟨m, hm, hc⟩, hr⟩

lemma Lazy.of_dropSpace (h : (g.dropSpace asid).Lazy a page) : a ≠ asid ∧ g.Lazy a page := by
  obtain ⟨hp, ⟨m, hm, hc⟩, hr⟩ := h
  rw [mappings_dropSpace] at hm
  split_ifs at hm with ha
  · cases hm
  · exact ⟨ha, hp, ⟨m, hm, hc⟩, fun hmem => hr (Finset.mem_filter.mpr ⟨hmem, ha⟩)⟩

/-- A lazy page after `unmap` was lazy, and lies outside the range if it is one
of the space that was unmapped. -/
lemma Lazy.of_unmap (h : (g.unmap asid start len).Lazy a page) :
    g.Lazy a page ∧ (a = asid → page < start ∨ start + len ≤ page) := by
  by_cases hover : 2 ^ 64 ≤ start + len
  · rw [unmap, if_pos hover] at h
    exact ⟨h.of_dropSpace.2, fun ha => absurd ha h.of_dropSpace.1⟩
  rw [Nat.not_le] at hover
  obtain ⟨hp, ⟨m, hm, hc⟩, hr⟩ := h
  rw [mappings_unmap hover] at hm
  split_ifs at hm with ha
  · obtain ⟨m₀, hm₀, hcut⟩ := mem_flatMap.mp hm
    obtain ⟨hc₀, hout⟩ := covers_cutOut hcut hc
    rw [mem_resident_unmap hover fun _ => ne_nil_of_mem hm₀] at hr
    exact ⟨⟨hp, ⟨m₀, ha ▸ hm₀, hc₀⟩, fun hmem => hr ⟨hmem, .inr hout⟩⟩, fun _ => hout⟩
  · rw [mem_resident_unmap hover fun h' => absurd h' ha] at hr
    exact ⟨⟨hp, ⟨m, hm, hc⟩, fun hmem => hr ⟨hmem, .inl ha⟩⟩, fun h' => absurd h' ha⟩

/-- `protect` makes no page lazy. -/
lemma Lazy.of_protect (h : (g.protect asid start len perm).Lazy a page) : g.Lazy a page := by
  by_cases hover : 2 ^ 64 ≤ start + len
  · rwa [protect, if_pos hover] at h
  obtain ⟨hp, ⟨m, hm, hc⟩, hr⟩ := h
  rw [resident_protect] at hr
  rw [mappings_protect (Nat.not_le.mp hover)] at hm
  split_ifs at hm with ha
  · obtain ⟨m₀, hm₀, hpart⟩ := mem_flatMap.mp hm
    exact ⟨hp, ⟨m₀, ha ▸ hm₀, covers_reprotect hpart hc⟩, hr⟩
  · exact ⟨hp, ⟨m, hm, hc⟩, hr⟩

/-- A lazy page of the child after `fork_space` is lazy in the parent. -/
lemma Lazy.of_forkSpace {parent child : ℕ} (h : (g.forkSpace parent child).Lazy a page) :
    g.Lazy a page ∨ a = child ∧ g.Lazy parent page := by
  rw [forkSpace] at h
  cases hs : g.spaces[parent]? with
  | none => rw [hs] at h; exact .inl h
  | some =>
    rw [hs] at h
    obtain ⟨hp, ⟨m, hm, hc⟩, hr⟩ := h
    rw [mappings_insert] at hm
    simp only [Finset.mem_union, not_or] at hr
    split_ifs at hm with ha
    · subst ha
      refine .inr ⟨rfl, hp, ⟨m, (mappings_of_some hs).symm ▸ hm, hc⟩, fun hmem => hr.2 ?_⟩
      exact Finset.mem_image.mpr ⟨_, Finset.mem_filter.mpr ⟨hmem, rfl⟩, rfl⟩
    · exact .inl ⟨hp, ⟨m, hm, hc⟩, hr.1⟩

/-- A lazy page after `mark_resident` was lazy and is not the page marked. -/
lemma Lazy.of_markResident {p : ℕ} (h : (g.markResident asid p).Lazy a page) :
    g.Lazy a page ∧ ¬ (a = asid ∧ page = pageOf p) := by
  obtain ⟨hp, hm, hr⟩ := h
  simp only [markResident, Finset.mem_insert, not_or, Prod.mk.injEq] at hr
  exact ⟨⟨hp, hm, hr.2⟩, hr.1⟩

/-- A lazy page after a growing `remap` is an old one outside the old range, the
image of a lazy page of it, or a page of the grown part. -/
lemma Lazy.of_remap (hold : oldStart < 2 ^ 64) (hgrow : oldLen < newLen)
    (hnew : newStart + oldLen < 2 ^ 64) (halign : oldStart % PAGE_SIZE = 0)
    (halign' : newStart % PAGE_SIZE = 0)
    (h : (g.remap asid oldStart oldLen newStart newLen).Lazy a page) :
    (g.Lazy a page ∧ (a = asid → page < oldStart ∨ satAdd oldStart oldLen ≤ page)) ∨
      (a = asid ∧ newStart ≤ page ∧ g.Lazy asid (oldStart + (page - newStart)) ∧
        oldStart + (page - newStart) < satAdd oldStart oldLen) ∨
      (a = asid ∧ newStart + oldLen ≤ page ∧ page < newStart + newLen) := by
  obtain ⟨hp, ⟨m, hm, hc⟩, hr⟩ := h
  rw [mappings_remap hgrow] at hm
  split_ifs at hm with ha
  · subst ha
    -- a mapping cut out of the old range, one that moved, or the tail of the grown part
    rcases mem_append.mp hm with hm' | hm'
    · rcases mem_append.mp hm' with hm'' | hm''
      · obtain ⟨m₀, hm₀, hcut⟩ := mem_flatMap.mp hm''
        obtain ⟨hc₀, hout⟩ := covers_cutOut hcut hc
        rw [mem_resident_remap hgrow fun _ => ne_nil_of_mem hm₀] at hr
        exact .inl ⟨⟨hp, ⟨m₀, hm₀, hc₀⟩, fun hmem => hr (.inl ⟨hmem, .inr hout⟩)⟩, fun _ => hout⟩
      obtain ⟨m₀, hm₀, hmv⟩ := mem_flatMap.mp hm''
      obtain ⟨hge, hc₀, hlt⟩ := covers_movedPart hold hnew hmv hc
      rw [mem_resident_remap hgrow fun _ => ne_nil_of_mem hm₀] at hr
      refine .inr (.inl ⟨rfl, hge, ⟨?_, ⟨m₀, hm₀, hc₀⟩,
        fun hmem => hr (.inr ⟨rfl, _, hmem, Nat.le_add_right _ _, hlt, by omega⟩)⟩, hlt⟩)
      simp only [PAGE_SIZE] at hp halign halign' ⊢
      omega
    · exact .inr (.inr ⟨rfl, covers_growthTail hnew hm' hc⟩)
  · rw [mem_resident_remap hgrow fun h' => absurd h' ha] at hr
    exact .inl ⟨⟨hp, ⟨m, hm, hc⟩, fun hmem => hr (.inl ⟨hmem, .inl ha⟩)⟩, fun h' => absurd h' ha⟩

/-! ### Resolution -/

/-- How a page may come out of its mappings: built, with the permission of one of them, refused,
or waiting for the request that is pending or for a new one. -/
inductive Builds (g : Pager) (asid generation page : ℕ) (P : UInt8 → Prop) :
    FaultResolution × Pager → Prop
  | ready {perm : UInt8} (bytes : Bytes) (h : P perm) :
    Builds g asid generation page P (.ready page bytes perm, g)
  | invalid (why : String) : Builds g asid generation page P (.invalid why, g)
  | again {request : PageRequest} (h : g.pending = some request) :
    Builds g asid generation page P (.missing request, g)
  | ask {request : PageRequest} (ticket : ℕ) (hasid : request.asid = asid)
    (hgeneration : request.generation = generation) :
    Builds g asid generation page P
      (.missing request, { g with pending := some request, nextTicket := ticket })

variable {access : AccessKind} {read : ChunkReader} {bytes : Bytes} {generation : ℕ}
  {P : UInt8 → Prop}

lemma buildPage_builds (hms : ∀ m ∈ ms, P m.finalPerm) (hperm : P perm) :
    Builds g asid generation page P
      (g.buildPage read asid generation page access ms bytes perm) := by
  induction ms generalizing bytes perm with
  | nil => exact .ready bytes hperm
  | cons m ms ih =>
    obtain ⟨hm, hrest⟩ := forall_mem_cons.mp hms
    rw [buildPage]
    dsimp only
    split
    · exact ih hrest hm
    split
    · split
      · exact ih hrest hm
      · exact .invalid _
    · split
      · next hpending =>
        split
        · exact .again hpending
        · exact .invalid _
      · exact .ask _ rfl rfl
    · exact .invalid _

/-- A fault is not the pager's, or a page is built. -/
lemma resolve_builds (g : Pager) (read : ChunkReader) (asid address : ℕ) (access : AccessKind)
    (hms : ∀ m ∈ g.mappings asid, P m.finalPerm) (hperm : P Perm.INIT) :
    g.resolve read asid address access = (.notLazy, g) ∨ ∃ page,
      Builds g asid ((g.spaces[asid]?.map AddressSpace.generation).getD 0) page P
        (g.resolve read asid address access) := by
  have htouching : ∀ page, ∀ m ∈ g.touching asid page, P m.finalPerm :=
    fun page m hm => hms m (mem_filter.mp hm).1
  rw [resolve]
  dsimp only
  split_ifs
  · exact .inl rfl
  · exact .inl rfl
  · exact .inl rfl
  · exact .inr ⟨_, buildPage_builds (htouching _) hperm⟩
  · exact .inr ⟨_, buildPage_builds (htouching _) hperm⟩

/-- A page that is built is never refused as foreign, and ready as itself. -/
lemma buildPage_out : (g.buildPage read asid generation page access ms bytes perm).1 ≠ .notLazy ∧
    ∀ p bytes' perm', (g.buildPage read asid generation page access ms bytes perm).1
      = .ready p bytes' perm' → p = page := by
  have hbuilds : Builds g asid generation page (fun _ => True)
      (g.buildPage read asid generation page access ms bytes perm) :=
    buildPage_builds (fun _ _ => trivial) trivial
  generalize g.buildPage read asid generation page access ms bytes perm = out at hbuilds ⊢
  refine ⟨fun h => ?_, fun p bytes' perm' h => ?_⟩
  · cases hbuilds <;> cases h
  · cases hbuilds <;> cases h
    rfl

/-- Resolution changes nothing but the pending request. -/
lemma resolve_table (g : Pager) (read : ChunkReader) (asid address : ℕ) (access : AccessKind) :
    (g.resolve read asid address access).2.spaces = g.spaces ∧
      (g.resolve read asid address access).2.resident = g.resident := by
  rcases g.resolve_builds (P := fun _ => True) read asid address access (fun _ _ => trivial)
    trivial with h | ⟨page, h⟩
  · rw [h]
    exact ⟨rfl, rfl⟩
  · generalize g.resolve read asid address access = out at h
    cases h <;> exact ⟨rfl, rfl⟩

lemma exists_covers_of_touching (h : g.touching asid page ≠ []) :
    ∃ m ∈ g.mappings asid, m.covers page := by
  obtain ⟨m, hm⟩ := exists_mem_of_ne_nil _ h
  exact ⟨m, mem_filter.mp hm⟩

/-- **A page that resolves is lazily mapped and not resident.** -/
lemma lazy_of_ready {address : ℕ}
    (h : (g.resolve read asid address access).1 = .ready page bytes perm) :
    g.Lazy asid page := by
  rw [resolve] at h
  dsimp only at h
  split_ifs at h with h₁ h₂ h₃ h₄
  · -- The fault was reported in a resident page: the page after it is brought in.
    rw [buildPage_out.2 _ _ _ h]
    rw [Bool.or_eq_true, not_or, decide_eq_true_eq] at h₄
    have hne : g.touching asid (satAdd (pageOf address) PAGE_SIZE) ≠ [] := by
      intro hnil
      exact h₄.1 (by rw [hnil]; rfl)
    obtain ⟨m, hm, hc⟩ := exists_covers_of_touching hne
    refine ⟨?_, ⟨m, hm, hc⟩, h₄.2⟩
    have hlt := (covers_iff.mp hc).2
    have hstop := m.stop_lt
    have hmod := pageOf_mod address
    simp only [satAdd, PAGE_SIZE] at hlt hmod ⊢
    omega
  · rw [buildPage_out.2 _ _ _ h]
    exact ⟨pageOf_mod address, exists_covers_of_touching (by simpa using h₁), h₂⟩

end Pager

end WebTos
