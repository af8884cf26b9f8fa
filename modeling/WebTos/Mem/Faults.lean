import WebTos.Mem.Copies
import WebTos.Mem.Tickets

/-!
What becomes of a page fault.

* `Pager.buildPage_yields`: a page that is built is there, or asked for;
* `Kernel.fault_yields_iff`: an access that runs over the end of a page, of which some page is
  still to be filled, finds such a page if the pager knows the page it begins in;
* `Session`: a machine as the host drives it, by `load`, `run` and `deliver_page`;
  `Session.faults_pend`: a fault on a missing chunk becomes the pending request, over every run
  in which no request is left over.
-/

namespace WebTos

open Lib List Option Pager

/-! ### Answers -/

/-- What `new` sees to: the bytes are in the file, and a page is left above the mapping. -/
structure FileMapping.Sound (m : FileMapping) : Prop where
  inFile : m.fileOffset + m.fileLen ≤ m.file.size
  inSpace : m.stop + PAGE_SIZE ≤ 2 ^ 64

lemma FileMapping.sound_of_new {start stop dataStart fileOffset fileLen : ℕ}
    {finalPerm fill : UInt8} {file : ChunkedFile} {stop_lt : stop < 2 ^ 64} {m : FileMapping}
    (h : new start stop dataStart fileOffset fileLen finalPerm fill file stop_lt = .ok m) :
    m.Sound := by
  rw [new] at h
  split_ifs at h with h₁ h₂ h₃ h₄
  obtain rfl := Except.ok.inj h
  refine ⟨by dsimp only; omega, ?_⟩
  simp only [PAGE_SIZE] at h₁ ⊢
  omega

/-- The fault brings in the page, or asks for a chunk of it. -/
def FaultResolution.Yields (answer : FaultResolution) (page : ℕ) : Prop :=
  (∃ bytes perm, answer = .ready page bytes perm) ∨
    ∃ request, answer = .missing request ∧ request.page = page

/-- The request an answer makes. -/
def FaultResolution.asks : FaultResolution → Option PageRequest
  | .missing request => some request
  | _ => none

namespace Pager

variable {g : Pager} {read : ChunkReader} {access : AccessKind} {asid generation page : ℕ}

/-- Well-formed chunks: a range of a mapped file is there, or a chunk of it is missing. -/
def ReadsWell (g : Pager) (read : ChunkReader) (asid : ℕ) : Prop :=
  ∀ m ∈ g.mappings asid, ∀ offset len, offset + len ≤ m.file.size →
    (∃ part, read m.file offset len = .ready part ∧ part.length = len) ∨
      ∃ hash, read m.file offset len = .missing hash

/-- The pager with nothing pending. -/
def fresh (g : Pager) : Pager := { g with pending := none }

/-- With nothing pending, mappings that lie in their files build the page or ask for a chunk. -/
lemma buildPage_yields (hnone : g.pending = none) {ms : List FileMapping}
    (hms : ∀ m ∈ ms, m ∈ g.mappings asid ∧ m.Sound) (hread : g.ReadsWell read asid)
    (bytes : Bytes) (perm : UInt8) :
    (g.buildPage read asid generation page access ms bytes perm).1.Yields page := by
  induction ms generalizing bytes perm with
  | nil => exact .inl ⟨bytes, perm, rfl⟩
  | cons m ms ih =>
    have hrest := ih fun m' hm' => hms m' (mem_cons_of_mem m hm')
    obtain ⟨hmem, hsound⟩ := hms m mem_cons_self
    rw [buildPage]
    dsimp only
    -- a mapping without data on the page adds nothing to it
    by_cases hcopy : min (page + PAGE_SIZE) m.dataEnd ≤ max page m.dataStart
    · rw [if_pos hcopy]
      exact hrest _ _
    rw [if_neg hcopy]
    have hlen := hsound.inFile
    have hrange := hread m hmem
      (m.fileOffset + (max page m.dataStart - m.dataStart))
      (min (page + PAGE_SIZE) m.dataEnd - max page m.dataStart)
      (by simp only [FileMapping.dataEnd] at hcopy ⊢; omega)
    rcases hrange with ⟨part, hpart, hpartLen⟩ | ⟨hash, hhash⟩
    · rw [hpart]
      dsimp only
      rw [if_pos hpartLen]
      exact hrest _ _
    · rw [hhash, hnone]
      exact .inr ⟨_, rfl, rfl⟩

/-- The request that is pending is the one this fault makes. -/
def Own (g : Pager) (read : ChunkReader) (asid address : ℕ) (access : AccessKind)
    (request : PageRequest) : Prop :=
  ∃ ticket, (g.fresh.resolve read asid address access).1 =
    .missing { request with ticket := ticket, access := access }

variable {request : PageRequest}

/-- A fault that comes again meets its own request at the same chunk. -/
lemma buildPage_own {ticket : ℕ} (hp : g.pending = some request) (ms : List FileMapping)
    (bytes : Bytes) (perm : UInt8)
    (h : (g.fresh.buildPage read asid generation page access ms bytes perm).1 =
      .missing { request with ticket := ticket, access := access }) :
    (g.buildPage read asid generation page access ms bytes perm).1 = .missing request := by
  induction ms generalizing bytes perm with
  | nil => cases h
  | cons m ms ih =>
    rw [buildPage] at h ⊢
    dsimp only at h ⊢
    split at h
    · next hcopy =>
      rw [if_pos hcopy]
      exact ih _ _ h
    · next hcopy =>
      rw [if_neg hcopy]
      split at h
      · split at h
        · next hpart =>
          rw [if_pos hpart]
          exact ih _ _ h
        · cases h
      · -- the chunk that was missing then is missing now, and the request is for it
        simp only [fresh, FaultResolution.missing.injEq, PageRequest.mk.injEq] at h
        rw [hp]
        dsimp only
        rw [if_pos ⟨h.2.1.symm, h.2.2.1.symm, h.2.2.2.1.symm, h.2.2.2.2.1.symm⟩]
      · cases h

variable {address : ℕ}

lemma resolve_own (hp : g.pending = some request) (h : g.Own read asid address access request) :
    (g.resolve read asid address access).1 = .missing request := by
  obtain ⟨ticket, h⟩ := h
  rw [resolve] at h ⊢
  have htouching : ∀ page, g.fresh.touching asid page = g.touching asid page := fun _ => rfl
  have hspaces : g.fresh.spaces = g.spaces := rfl
  have hresident : g.fresh.resident = g.resident := rfl
  simp only [htouching, hspaces, hresident] at h
  dsimp only
  split_ifs at h ⊢
  · exact buildPage_own hp _ _ _ h
  · exact buildPage_own hp _ _ _ h

lemma getLast?_touching (g : Pager) (asid b : ℕ) :
    (g.touching asid (pageOf b)).getLast?.map FileMapping.finalPerm =
      (g.pageState asid b).map Prod.snd := by
  rw [touching, pageState, List.getLast?_eq_head?_reverse, ← filter_reverse, List.head?_filter,
    Option.map_map]
  rfl

lemma touching_isEmpty (g : Pager) (asid b : ℕ) :
    (g.touching asid (pageOf b)).isEmpty = !(g.pageState asid b).isSome := by
  have h := congrArg Option.isSome (getLast?_touching g asid b)
  rw [isSome_map, isSome_map] at h
  rw [← h]
  cases g.touching asid (pageOf b) with
  | nil => rfl
  | cons => simp

lemma lastRefuses_of_pageState {b : ℕ} {st : Bool × UInt8} (h : g.pageState asid b = some st)
    (hgrant : st.2 &&& access.required ≠ 0) :
    lastRefuses (g.touching asid (pageOf b)) access = false := by
  have hlast := getLast?_touching g asid b
  rw [h, map_some, map_eq_some_iff] at hlast
  obtain ⟨m, hm, hperm⟩ := hlast
  rw [lastRefuses, hm]
  rw [← hperm] at hgrant
  simpa using hgrant

/-- **A page that the pager knows and has not filled** is brought in or asked for. -/
lemma resolve_yields (hnone : g.pending = none) (hsound : ∀ m ∈ g.mappings asid, m.Sound)
    (hread : g.ReadsWell read asid) (hknown : (g.pageState asid address).isSome)
    (hcold : (asid, pageOf address) ∉ g.resident) :
    (g.resolve read asid address access).1.Yields (pageOf address) := by
  rw [resolve]
  rw [if_neg (by rw [touching_isEmpty, hknown]; decide), if_neg hcold]
  exact buildPage_yields hnone
    (fun m hm => ⟨(mem_filter.mp hm).1, hsound m (mem_filter.mp hm).1⟩) hread _ _

/-- A fault in a resident page yields the page after it, if that is still to be filled and both
grant the access. -/
lemma resolve_yields_next {next : ℕ} {st st' : Bool × UInt8} (hnone : g.pending = none)
    (hsound : ∀ m ∈ g.mappings asid, m.Sound) (hread : g.ReadsWell read asid)
    (hst : g.pageState asid address = some st) (hgrant : st.2 &&& access.required ≠ 0)
    (hres : (asid, pageOf address) ∈ g.resident)
    (hnext : pageOf next = satAdd (pageOf address) PAGE_SIZE)
    (hst' : g.pageState asid next = some st') (hgrant' : st'.2 &&& access.required ≠ 0)
    (hcold : (asid, pageOf next) ∉ g.resident) :
    (g.resolve read asid address access).1.Yields (pageOf next) := by
  rw [resolve]
  rw [if_neg (by rw [touching_isEmpty, hst]; simp), if_pos hres,
    if_neg (by rw [lastRefuses_of_pageState hst hgrant]; decide), ← hnext,
    if_neg (by simp [lastRefuses_of_pageState hst' hgrant', hcold])]
  exact buildPage_yields hnone
    (fun m hm => ⟨(mem_filter.mp hm).1, hsound m (mem_filter.mp hm).1⟩) hread _ _

end Pager

/-! ### Accesses over the end of a page -/

namespace Kernel

variable {k : Kernel} {read : ChunkReader} {access : AccessKind}

/-- A page-in that the fault has to wait for is its own. -/
def Unhindered (k : Kernel) (read : ChunkReader) (addr : ℕ) (access : AccessKind) : Prop :=
  ∀ request, k.pager.pending = some request → k.pager.Own read k.asid addr access request

/-- A request of its own does not change what a fault yields. -/
lemma yields_of_fresh {addr page : ℕ} (hfree : k.Unhindered read addr access)
    (h : (k.pager.fresh.resolve read k.asid addr access).1.Yields page) :
    (k.pager.resolve read k.asid addr access).1.Yields page := by
  cases hp : k.pager.pending with
  | none =>
    have : k.pager.fresh = k.pager := by rw [fresh, ← hp]
    rwa [this] at h
  | some request =>
    have hown := hfree request hp
    refine .inr ⟨request, resolve_own hp hown, ?_⟩
    obtain ⟨ticket, hown⟩ := hown
    rcases h with ⟨bytes, perm, h⟩ | ⟨r, h, hpage⟩
    · rw [hown] at h
      cases h
    rw [hown] at h
    cases h
    exact hpage

/-- The access that a byte grants in the end: that of its mapping, for a page the pager knows, and
otherwise the MMU's. -/
def finallyGrants (k : Kernel) (access : AccessKind) (b : ℕ) : Bool :=
  match k.pager.pageState k.asid b with
  | some (_, finalPerm) => finalPerm &&& access.required != 0
  | none => k.mmuGrants access b

/-- **A fault on an access of up to 16 bytes, of which some page is lazily mapped and not
resident, finds such a page exactly if the pager knows the page the access begins in.** -/
theorem fault_yields_iff (k : Kernel) (read : ChunkReader) (access : AccessKind) {addr len : ℕ}
    (haddr : addr < 2 ^ 64) (hlen : 0 < len ∧ len ≤ 16)
    (hsound : ∀ m ∈ k.pager.mappings k.asid, m.Sound) (hread : k.pager.ReadsWell read k.asid)
    (hfree : k.Unhindered read addr access)
    (hgrant : ∀ b ∈ span addr len, k.finallyGrants access b = true)
    (hcold : ∃ b ∈ span addr len, k.pager.Lazy k.asid (pageOf b)) :
    (∃ b ∈ span addr len, k.pager.Lazy k.asid (pageOf b) ∧
      (k.pager.resolve read k.asid addr access).1.Yields (pageOf b)) ↔
      (k.pager.pageState k.asid addr).isSome = true := by
  have hfirst : addr ∈ span addr len :=
    List.mem_map.mpr ⟨0, mem_range.mpr hlen.1, Nat.mod_eq_of_lt haddr⟩
  constructor
  · rintro ⟨b, -, -, hyields⟩
    -- a page the pager does not know makes the fault a foreign one
    by_contra hknown
    have hempty : (k.pager.touching k.asid (pageOf addr)).isEmpty = true := by
      rw [touching_isEmpty, Bool.eq_false_iff.mpr hknown]
      rfl
    rw [resolve] at hyields
    rw [if_pos hempty] at hyields
    rcases hyields with ⟨_, _, h⟩ | ⟨_, h, _⟩ <;> cases h
  intro hknown
  by_cases hres : (k.asid, pageOf addr) ∈ k.pager.resident
  · -- The access begins in a filled page, so the cold page is the one after it.
    obtain ⟨b, hb, hlazy⟩ := hcold
    obtain ⟨st, hst⟩ := isSome_iff_exists.mp hknown
    obtain ⟨perm, hst'⟩ := pageState_of_lazy hlazy (Nat.sub_le _ _) (by
      simp only [pageOf, PAGE_SIZE]
      omega : b < pageOf b + PAGE_SIZE)
    have hnext : pageOf b = satAdd (pageOf addr) PAGE_SIZE := by
      have hne : pageOf b ≠ pageOf addr := fun he => hlazy.2.2 (he ▸ hres)
      obtain ⟨m, hm, -⟩ := map_eq_some_iff.mp hst
      have hcovers : m.covers (pageOf addr) = true := by simpa using List.find?_some hm
      have hin := (hsound m (mem_reverse.mp (List.mem_of_find?_eq_some hm))).inSpace
      have hlt := (covers_iff.mp hcovers).2
      obtain ⟨i, hi, rfl⟩ := List.mem_map.mp hb
      have hi' := mem_range.mp hi
      simp only [pageOf, wrapAdd, satAdd, PAGE_SIZE] at *
      omega
    have hgrants : ∀ {b' st'}, b' ∈ span addr len → k.pager.pageState k.asid b' = some st' →
        st'.2 &&& access.required ≠ 0 := by
      intro b' st' hb' h'
      have := hgrant b' hb'
      rw [finallyGrants, h'] at this
      simpa using this
    refine ⟨b, hb, hlazy, yields_of_fresh hfree ?_⟩
    exact resolve_yields_next rfl hsound hread hst (hgrants hfirst hst) hres hnext hst'
      (hgrants hb hst') hlazy.2.2
  -- otherwise the page the access begins in is cold itself
  have hlazy : k.pager.Lazy k.asid (pageOf addr) := by
    obtain ⟨st, hst⟩ := isSome_iff_exists.mp hknown
    obtain ⟨m, hm, -⟩ := map_eq_some_iff.mp hst
    exact ⟨pageOf_mod addr, ⟨m, mem_reverse.mp (List.mem_of_find?_eq_some hm),
      by simpa using List.find?_some hm⟩, hres⟩
  exact ⟨addr, hfirst, hlazy,
    yields_of_fresh hfree (resolve_yields rfl hsound hread hknown hres)⟩

/-- A file of one byte, mapped lazily over the pages from `start` to `12288`. -/
def lazyPart (start : ℕ) : FileMapping :=
  ⟨start, 12288, 8192, 0, 1, Perm.READ, 0, ⟨1, 4096, [[7]]⟩, by decide⟩

/-- A machine with that mapping, and with ordinary memory below `8192`. -/
def crossed (start : ℕ) (resident : Finset (ℕ × ℕ)) : Kernel :=
  { boot with
    mem := editOn Mem.empty 0 8192 fun _ => some eagerCell
    pager := { empty.map 0 (lazyPart start) with resident := resident } }

/-- A load of four bytes that begins in a filled lazy page and ends in a cold one. -/
theorem fault_yields_cold_page : ∃ b ∈ span 8190 4,
    (crossed 4096 {(0, 4096)}).pager.Lazy 0 (pageOf b) ∧
      ((crossed 4096 {(0, 4096)}).pager.resolve (fun _ _ len => .ready (List.replicate len 7)) 0
        8190 .read).1.Yields (pageOf b) := by
  refine (fault_yields_iff (crossed 4096 {(0, 4096)}) _ .read (by decide) (by decide) ?_ ?_ nofun
    (by decide +kernel) ⟨8192, by decide, by decide, ?_, by decide⟩).mpr (by decide +kernel)
  · intro m hm
    obtain rfl := mem_singleton.mp (show m ∈ [lazyPart 4096] from hm)
    exact ⟨by decide, by decide⟩
  · exact fun m _ offset len _ => .inl ⟨_, rfl, length_replicate⟩
  · exact ⟨lazyPart 4096, mem_singleton_self _, by decide⟩

/-- The same load when the first page is ordinary memory: the fault is taken for foreign. -/
theorem ordinary_page_hides_cold_page : (crossed 8192 ∅).pager.Lazy 0 8192 ∧
    (∀ b ∈ span 8190 4, (crossed 8192 ∅).finallyGrants .read b = true) ∧
    ((crossed 8192 ∅).pager.resolve (fun _ _ len => .ready (List.replicate len 7)) 0 8190
      .read).1 = .notLazy :=
  ⟨⟨by decide, ⟨lazyPart 8192, mem_singleton_self _, by decide⟩, by decide⟩,
    by decide +kernel, rfl⟩

end Kernel

/-! ### A machine driven by its host -/

/-- The operation is one of the mapping table: it neither asks for a chunk nor takes one. -/
def Paging.Op.isTable : Paging.Op → Bool
  | .resolve _ _ _ | .complete _ _ => false
  | _ => true

/-- A machine between and during the host's calls, as far as page-ins go. -/
structure Session where
  paging : Paging
  /-- The address space of the task on the CPU. -/
  asid : ℕ
  nextAsid : ℕ
  /-- `page_in_wait`. -/
  pageInWait : Bool
  /-- `file_chunk_wait`: the ticket and the chunk of a file that a system call reads. -/
  fileChunkWait : Option (ℕ × Hash)
  /-- The engine is running. -/
  running : Bool
  /-- A fault that needed a missing chunk did not become the pending request.  The source keeps
  no such record. -/
  lost : Bool

namespace Session

/-- What happens to a machine.  The calls of the host are `load`, `run` and `deliverPage`; the
others are what a guest does while the engine runs. -/
inductive Event where
  /-- `Machine::load`, with the mappings of the image, and the chunk of a file its loader waits
  for. -/
  | load (ops : List Paging.Op) (wait : Option (ℕ × Hash))
  | run
  /-- `Machine::deliver_page`; whether the memory budget has room is the host's matter. -/
  | deliverPage (ticket : ℕ) (bytes : Bytes) (room : Bool)
  /-- A change of the mapping table. -/
  | edit (op : Paging.Op)
  | switch (asid : ℕ)
  /-- A fault of the guest, or a page that a copy by the kernel touches: whether a page that is
  ready can be stored, and whether the kernel drops the answer `PAGE_IN_RESTART`. -/
  | fault (address : ℕ) (access : AccessKind) (kernel stored dropped : Bool)
  | fileMiss (ticket : ℕ) (hash : Hash)

variable (sha256 : Bytes → Hash) (s : Session)

/-- The fault needs a chunk that is not there. -/
def needs (address : ℕ) (access : AccessKind) : Bool :=
  (s.paging.pager.fresh.resolve s.paging.vfs.readChunkedRange s.asid address
    access).1.asks.isSome

/-- `resolve` for the current address space, with its record. -/
def resolve (address : ℕ) (access : AccessKind) : FaultResolution × Session :=
  let (answer, pager) :=
    s.paging.pager.resolve s.paging.vfs.readChunkedRange s.asid address access
  let pends := answer.asks.isSome && pager.pending == answer.asks
  (answer, { s with
    paging := { s.paging with pager }
    lost := s.lost || s.needs address access && !pends })

/-- `mark_resident`. -/
def mark (page : ℕ) : Session :=
  { s with paging := { s.paging with pager := s.paging.pager.markResident s.asid page } }

/-- What is done about an answer.  What becomes of a task whose fault is refused is left open. -/
def answered (kernel stored dropped : Bool) : FaultResolution → Session
  | .ready page _ _ =>
    if stored then { s.mark page with pageInWait := kernel && s.pageInWait } else s
  | .missing _ => { s with pageInWait := true, running := kernel && dropped }
  | .notLazy | .invalid _ => s

/-- The file part of `deliver_page`. -/
def deliverFile (ticket : ℕ) (bytes : Bytes) : Session :=
  match s.fileChunkWait with
  | none => s
  | some (expected, hash) =>
    if expected ≠ ticket then s
    else
      match s.paging.vfs.putChunk sha256 hash bytes with
      | .error _ => s
      | .ok vfs =>
        { s with paging := { s.paging with vfs }, fileChunkWait := none, pageInWait := false }

/-- The events, one at a time. -/
def step : Event → Session
  | .load ops wait =>
    let paging := s.paging.step sha256 (.dropSpace s.asid)
    { s with
      paging := (ops.filter (·.isTable)).foldl (Paging.step sha256) paging
      asid := s.nextAsid
      nextAsid := s.nextAsid + 1
      pageInWait := wait.isSome
      fileChunkWait := wait
      running := false }
  | .run =>
    if s.pageInWait && (s.paging.pager.pending.isSome || s.fileChunkWait.isSome) then
      { s with running := false }
    else { s with pageInWait := false, running := true }
  | .deliverPage ticket bytes room =>
    let s := { s with running := false }
    if !room then s
    else if s.paging.pager.pending.any (·.ticket == ticket) then
      let s' := { s with paging := s.paging.step sha256 (.complete ticket bytes) }
      match s.paging.completion sha256 ticket bytes with
      | .ok _ => { s' with pageInWait := false }
      | .error _ => s'
    else s.deliverFile sha256 ticket bytes
  | .edit op =>
    if s.running && op.isTable then { s with paging := s.paging.step sha256 op } else s
  | .switch asid => if s.running then { s with asid } else s
  | .fault address access kernel stored dropped =>
    if s.running then
      let (answer, s) := s.resolve address access
      s.answered kernel stored dropped answer
    else s
  | .fileMiss ticket hash =>
    if s.running then
      { s with fileChunkWait := some (ticket, hash), pageInWait := true, running := false }
    else s

/-- A machine before its first image. -/
def boot (vfs : Vfs) : Session := ⟨⟨.empty, vfs⟩, 0, 1, false, none, false, false⟩

/-- The condition on an event: the engine is not started with a request left over that nobody
waits for, and no copy whose restart is dropped needs a missing chunk. -/
def Settled : Event → Prop
  | .run => s.paging.pager.pending = none ∨ s.pageInWait = true
  | .fault address access kernel _ dropped =>
    (kernel && dropped) = true → s.needs address access = false
  | _ => True

variable {sha256 s}

/-- Nothing is lost so far, and nothing is pending while the engine runs. -/
structure Clear (s : Session) : Prop where
  kept : s.lost = false
  free : s.running = true → s.paging.pager.pending = none

/-- The mapping table is edited without regard to the pending request. -/
lemma pending_step {p : Paging} {op : Paging.Op} (h : op.isTable) :
    (p.step sha256 op).pager.pending = p.pager.pending := by
  cases op with
  | resolve | complete => cases h
  | map | markResident | dropSpace => rfl
  | unmap =>
    simp only [Paging.step, unmap]
    split_ifs
    · rfl
    · split <;> rfl
  | protect =>
    simp only [Paging.step, protect]
    split_ifs
    · rfl
    · split <;> rfl
  | remap =>
    simp only [Paging.step, remap]
    split <;> rfl
  | forkSpace =>
    simp only [Paging.step, forkSpace]
    split <;> rfl

/-- With nothing pending, a fault loses nothing, and what it asks for is pending. -/
lemma resolve_clear (h : s.lost = false) (hnone : s.paging.pager.pending = none) (address : ℕ)
    (access : AccessKind) : (s.resolve address access).2.lost = false ∧
      (s.resolve address access).2.paging.pager.pending = (s.resolve address access).1.asks ∧
      s.needs address access = (s.resolve address access).1.asks.isSome := by
  have hfresh : s.paging.pager.fresh = s.paging.pager := by rw [fresh, ← hnone]
  have hpend : (s.paging.pager.resolve s.paging.vfs.readChunkedRange s.asid address
      access).2.pending = (s.paging.pager.resolve s.paging.vfs.readChunkedRange s.asid address
      access).1.asks := by
    rcases s.paging.pager.resolve_builds (P := fun _ => True) s.paging.vfs.readChunkedRange s.asid
      address access (fun _ _ => trivial) trivial with h | ⟨page, h⟩
    · rw [h]
      exact hnone
    generalize s.paging.pager.resolve _ _ _ _ = out at h
    cases h with
    | again h => exact h
    | ask => rfl
    | ready | invalid => exact hnone
  simp only [resolve, needs, hfresh, h, Bool.false_or]
  refine ⟨?_, hpend, trivial⟩
  rw [hpend]
  simp

/-- What is done about an answer leaves no request behind while the engine runs. -/
lemma Clear.answered {answer : FaultResolution} {kernel stored dropped : Bool}
    (hlost : s.lost = false) (hpend : s.paging.pager.pending = answer.asks)
    (hdrop : (kernel && dropped) → answer.asks = none) :
    (s.answered kernel stored dropped answer).Clear := by
  cases answer with
  | notLazy | invalid => exact ⟨hlost, fun _ => hpend⟩
  | missing => exact ⟨hlost, fun hrun => absurd (hdrop hrun) (some_ne_none _)⟩
  | ready =>
    rw [Session.answered]
    split_ifs
    · exact ⟨hlost, fun _ => hpend⟩
    · exact ⟨hlost, fun _ => hpend⟩

lemma Clear.deliverFile (h : s.Clear) (ticket : ℕ) (bytes : Bytes) :
    (s.deliverFile sha256 ticket bytes).Clear := by
  rw [Session.deliverFile]
  split
  · exact h
  split_ifs
  · exact h
  split
  · exact h
  · exact ⟨h.kept, h.free⟩

/-- **One event** that is settled loses no fault. -/
lemma Clear.step (h : s.Clear) {e : Event} (he : s.Settled e) : (s.step sha256 e).Clear := by
  cases e with
  | load => exact ⟨h.kept, nofun⟩
  | run =>
    rw [Session.step]
    split_ifs with hwait
    · exact ⟨h.kept, nofun⟩
    refine ⟨h.kept, fun _ => ?_⟩
    rcases he with hnone | hw
    · exact hnone
    -- A request somebody waits for would have kept the engine from starting.
    rw [hw, Bool.true_and, Bool.or_eq_true, not_or, Bool.not_eq_true, Bool.not_eq_true] at hwait
    exact isSome_eq_false_iff.mp hwait.1 |> isNone_iff_eq_none.mp
  | deliverPage ticket bytes =>
    have hstopped : Clear { s with running := false } := ⟨h.kept, nofun⟩
    rw [Session.step]
    split_ifs
    · exact hstopped
    · split <;> exact ⟨h.kept, nofun⟩
    · exact hstopped.deliverFile ticket bytes
  | edit op =>
    rw [Session.step]
    split_ifs with hop
    · rw [Bool.and_eq_true] at hop
      exact ⟨h.kept, fun hrun => (pending_step hop.2).trans (h.free hrun)⟩
    · exact h
  | switch =>
    rw [Session.step]
    split_ifs
    · exact ⟨h.kept, h.free⟩
    · exact h
  | fault address access kernel _ dropped =>
    rw [Session.step]
    split_ifs with hrun
    · obtain ⟨hlost, hpend, hneeds⟩ := resolve_clear h.kept (h.free hrun) address access
      have hdrop (hd : (kernel && dropped)) : (s.resolve address access).1.asks = none :=
        isSome_eq_false_iff.mp (hneeds.symm.trans (he hd)) |> isNone_iff_eq_none.mp
      exact .answered hlost hpend hdrop
    · exact h
  | fileMiss =>
    rw [Session.step]
    split_ifs
    · exact ⟨h.kept, nofun⟩
    · exact h

/-- **A fault that needs a missing chunk becomes the pending request**, in every run of settled
events. -/
theorem faults_pend (sha256 : Bytes → Hash) (vfs : Vfs) (events : List Event)
    (h : Guarded (step sha256) Settled (boot vfs) events) :
    (Lib.run (step sha256) (boot vfs) events).lost = false :=
  (Guarded.invariant (fun (s : Session) _ (hs : s.Clear) he => Clear.step hs he)
    ⟨rfl, Bool.noConfusion⟩ h).kept

/-- A file mapped lazily in the address space of an image. -/
def image (asid : ℕ) : Event := .load [.map asid Paging.oneByte] none

/-- The host answers the request of the first image before it starts the second. -/
theorem faults_pend_answered : (Lib.run (step id) (boot Paging.bareVfs)
    [image 1, .run, .fault 4096 .read false true false, image 2, .deliverPage 1 [7] true, .run,
      .fault 4096 .read false true false]).lost = false :=
  faults_pend id Paging.bareVfs _ ⟨trivial, .inl (by decide +kernel), nofun, trivial, trivial,
    .inl (by decide +kernel), nofun, trivial⟩

/-- It does not, and the second image's first fault is refused. -/
theorem left_over_request_refuses : (Lib.run (step id) (boot Paging.bareVfs)
    [image 1, .run, .fault 4096 .read false true false, image 2, .run,
      .fault 4096 .read false true false]).lost = true := by
  decide +kernel

end Session

end WebTos
