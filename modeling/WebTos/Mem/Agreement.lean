import WebTos.Mem.Exec

/-!
The MMU and the pager agree: what the pager takes for a page still to be filled
is mapped, inaccessible and unfilled in the MMU.

* `AgreesOn`: every lazy page of an address space is cold in its memory;
* `Local`, `Local.trans`: a call of the running process leaves the other
  processes and the other address spaces of the pager alone;
* `Transfer`, `Transfers`: what a copy by the kernel and a fault of the guest do;
* `Ok.pageIn`, `Ok.transfers`: they keep the agreement, and a page-in writes only to a
  cold page;
* `Ok.sysMunmap`, `Ok.sysMprotect`, `Ok.sysMmap`, `Ok.sysMremap`: the calls keep it
  too, `munmap` and `mprotect` under conditions on the holes of their range.
-/

namespace WebTos

open Lib List Option Mem

/-- Every lazy page of the address space is cold in its memory. -/
def AgreesOn (g : Pager) (asid : ℕ) (m : Mem) : Prop := ∀ page, g.Lazy asid page → m.Cold page

namespace Pager

variable {g g' : Pager} {asid page : ℕ}

/-- Laziness is read off the mappings and the resident set. -/
lemma Lazy.congr (h : g'.Lazy asid page) (hs : g'.spaces = g.spaces)
    (hr : g'.resident = g.resident) : g.Lazy asid page := by
  rwa [Lazy, mappings, hs, hr] at h

/-- The last byte of a lazy page is in the address space. -/
lemma Lazy.page_le (h : g.Lazy asid page) : page + PAGE_SIZE ≤ 2 ^ 64 := by
  obtain ⟨hp, ⟨m, -, hc⟩, -⟩ := h
  have hlt := (covers_iff.mp hc).2
  have hstop := m.stop_lt
  simp only [PAGE_SIZE] at hp ⊢
  omega

/-- Two different pages do not overlap. -/
lemma Lazy.disjoint {p : ℕ} (h : g.Lazy asid page) (hp : p % PAGE_SIZE = 0) (hne : page ≠ p) :
    page + PAGE_SIZE ≤ p ∨ p + PAGE_SIZE ≤ page := by
  have hpage := h.1
  simp only [PAGE_SIZE] at hp hpage ⊢
  omega

end Pager

namespace Kernel

/-- The processes are as they were, and so are the ids of their address spaces. -/
structure SameSpaces (k k' : Kernel) : Prop where
  asid : k'.asid = k.asid
  parked : k'.parked = k.parked
  nextAsid : k'.nextAsid = k.nextAsid
  running : k'.running = k.running

lemma SameSpaces.refl (k : Kernel) : SameSpaces k k := ⟨rfl, rfl, rfl, rfl⟩

/-- The two kernels differ in what a call of the running process may change. -/
structure Local (k k' : Kernel) : Prop extends SameSpaces k k' where
  other : ∀ a page, a ≠ k.asid → k'.pager.Lazy a page → k.pager.Lazy a page

lemma Local.refl (k : Kernel) : Local k k := ⟨.refl k, fun _ _ _ h => h⟩

variable {k : Kernel} {m : Mem} {g : Pager}
  {brk next page asid addr start len stop target oldAddr oldSize newSize : ℕ} {c : List ℕ}
  {bytes : Bytes} {perm : UInt8} {k' k'' : Kernel}

lemma SameSpaces.trans (h : SameSpaces k k') (h' : SameSpaces k' k'') : SameSpaces k k'' :=
  ⟨h'.asid.trans h.asid, h'.parked.trans h.parked, h'.nextAsid.trans h.nextAsid,
    h'.running.trans h.running⟩

lemma Local.trans (h : Local k k') (h' : Local k' k'') : Local k k'' where
  toSameSpaces := h.toSameSpaces.trans h'.toSameSpaces
  other a page ha hl := h.other a page ha (h'.other a page (by rwa [h.asid]) hl)

/-- The running process agrees with the pager, and nothing has been clobbered. -/
structure Ok (k : Kernel) : Prop where
  agrees : AgreesOn k.pager k.asid k.mem
  clean : k.clobbered = []

/-- A call that changes the memory and the pager of the running process. -/
lemma Local.of (h : ∀ a page, a ≠ k.asid → g.Lazy a page → k.pager.Lazy a page) :
    Local k ⟨k.asid, m, brk, next, g, k.parked, k.nextAsid, k.running, c⟩ :=
  ⟨⟨rfl, rfl, rfl, rfl⟩, h⟩

lemma Ok.of (h : AgreesOn g k.asid m) (hc : c = []) :
    Ok ⟨k.asid, m, brk, next, g, k.parked, k.nextAsid, k.running, c⟩ :=
  ⟨h, hc⟩

/-- A page-in: the pages still to be filled are among the old ones, and no byte
is unmapped. -/
structure Fills (k k' : Kernel) : Prop extends Local k k' where
  lazy : ∀ a page, k'.pager.Lazy a page → k.pager.Lazy a page
  mapped : ∀ b, k.mem.isMapped b = true → k'.mem.isMapped b = true

lemma Fills.refl (k : Kernel) : Fills k k := ⟨.refl k, fun _ _ h => h, fun _ h => h⟩

lemma Fills.trans (h : Fills k k') (h' : Fills k' k'') : Fills k k'' :=
  ⟨h.toLocal.trans h'.toLocal, fun a page hl => h.lazy a page (h'.lazy a page hl),
    fun b hb => h'.mapped b (h.mapped b hb)⟩

/-- Only the memory and the book-keeping of a page-in changed. -/
lemma Fills.of (hlazy : ∀ a page, g.Lazy a page → k.pager.Lazy a page)
    (hmapped : ∀ b, k.mem.isMapped b → m.isMapped b) :
    Fills k ⟨k.asid, m, brk, next, g, k.parked, k.nextAsid, k.running, c⟩ :=
  ⟨.of fun a page _ h => hlazy a page h, hlazy, hmapped⟩

variable {k : Kernel} {read : ChunkReader} {access : AccessKind}

/-! ### Transfers -/

/-- What a copy by the kernel or a fault of the guest does at a time: it asks the pager for a
page, brings in the page that is ready, or writes bytes. -/
inductive Transfer (read : ChunkReader) (k : Kernel) : Kernel → Prop
  | ask {addr : ℕ} {access : AccessKind} {out : FaultResolution} {pager : Pager}
    (h : k.pager.resolve read k.asid addr access = (out, pager)) : Transfer read k { k with pager }
  | fill {addr page : ℕ} {access : AccessKind} {bytes : Bytes} {perm : UInt8} {pager : Pager}
    (h : k.pager.resolve read k.asid addr access = (.ready page bytes perm, pager)) :
    Transfer read k (pageIn { k with pager } page bytes perm).1
  | write (addr : ℕ) (bytes : Bytes) :
    Transfer read k { k with mem := (k.mem.writeBytes addr bytes).1 }

/-- A copy as a whole. -/
abbrev Transfers (read : ChunkReader) : Kernel → Kernel → Prop :=
  Relation.ReflTransGen (Transfer read)

lemma guestFault_transfers (k : Kernel) (read : ChunkReader) (addr : ℕ) (access : AccessKind) :
    Transfers read k (k.guestFault read addr access) := by
  rw [guestFault]
  split
  · next h => exact .single (.fill h)
  · next h => exact .single (.ask h)

lemma touchPages_transfers (read : ChunkReader) (access : AccessKind) (pages : List ℕ) :
    ∀ k : Kernel, Transfers read k (touchPages read access k pages).1 := by
  induction pages with
  | nil => exact fun _ => .refl
  | cons page rest ih =>
    intro k
    rw [touchPages]
    split
    · exact ih k
    split_ifs
    · exact .refl
    · exact ih k
    split
    · next h =>
      have hfill := Transfer.fill h
      split
      · next hin =>
        rw [hin] at hfill
        exact .head hfill (ih _)
      · next hin =>
        rw [hin] at hfill
        exact .single hfill
    · next h => exact .single (.ask h)
    · next h => exact .single (.ask h)
    · next h => exact .head (.ask h) (ih _)

lemma hostTouch_transfers (k : Kernel) (read : ChunkReader) (addr len : ℕ) (access : AccessKind) :
    Transfers read k (k.hostTouch read addr len access).1 := by
  rw [hostTouch]
  split_ifs
  · exact .refl
  · exact .refl
  · exact touchPages_transfers read access _ k

lemma writeMem_transfers (k : Kernel) (read : ChunkReader) (addr : ℕ) (bytes : Bytes) :
    Transfers read k (k.writeMem read addr bytes).1 := by
  have htouch := hostTouch_transfers k read addr bytes.length .write
  rw [writeMem]
  split
  · next h => rwa [h] at htouch
  · next h =>
    rw [h] at htouch
    exact htouch.tail (.write addr bytes)

/-! ### Page-ins -/

lemma updatePerm_after_write (hcold : k.mem.Cold page)
    (hle : page + PAGE_SIZE ≤ 2 ^ 64) :
    (((k.mem.writeBytes page bytes).1).updatePerm page PAGE_SIZE perm).2 = true := by
  rw [updatePerm, if_neg (by decide), if_neg (by omega)]
  refine allOn_iff.mpr fun b h₁ h₂ => ?_
  exact isMapped_eq_true.mpr ((hcold.writeBytes page bytes).isSome h₁ h₂)

/-- **A page-in of a lazy page keeps the agreement and clobbers nothing.** -/
lemma Ok.pageIn (h : k.Ok) (bytes : Bytes) (perm : UInt8)
    (hlazy : k.pager.Lazy k.asid page) :
    Fills k (k.pageIn page bytes perm).1 ∧ (k.pageIn page bytes perm).1.Ok := by
  have hcold := h.agrees page hlazy
  rw [Kernel.pageIn]
  simp only [hcold.coldBytes, updatePerm_after_write hcold hlazy.page_le, if_true, Bool.not_true,
    Bool.false_eq_true, if_false]
  split_ifs
  · refine ⟨.of (fun _ _ hl => hl) fun b hb => ?_, .of (fun p hp => ?_) h.clean⟩
    · rwa [isMapped_writeBytes]
    · exact (h.agrees p hp).writeBytes page bytes
  have hpage : pageOf page = page := pageOf_self hlazy.1
  refine ⟨.of (fun _ _ hl => hl.of_markResident.1) fun b hb => ?_, .of (fun p hp => ?_) h.clean⟩
  · rwa [isMapped_editOn_map, isMapped_updatePerm, isMapped_writeBytes]
  obtain ⟨hp', hne⟩ := hp.of_markResident
  have hdis := hp'.disjoint hlazy.1 fun he => hne ⟨rfl, by rw [hpage, he]⟩
  have hcold' : Mem.Cold (((k.mem.writeBytes page bytes).1).updatePerm page PAGE_SIZE perm).1 p :=
    ((h.agrees p hp').writeBytes page bytes).updatePerm_outside hdis
  refine hcold'.congr fun b h₁ h₂ => ?_
  rw [shape, editOn_outside (by omega), shape]

/-- Resolving a fault only changes the pending request. -/
lemma Ok.ask {out : FaultResolution} (h : k.Ok)
    (hr : k.pager.resolve read asid addr access = (out, g)) :
    Fills k { k with pager := g } ∧ Kernel.Ok { k with pager := g } := by
  obtain ⟨hs, hres⟩ := Pager.resolve_table k.pager read asid addr access
  rw [hr] at hs hres
  exact ⟨.of (fun _ _ hl => hl.congr hs hres) fun _ hb => hb,
    .of (fun p hp => h.agrees p (hp.congr hs hres)) h.clean⟩

lemma lazy_when_ready (h : k.pager.resolve read asid addr access = (.ready page bytes perm, g)) :
    g.Lazy asid page := by
  obtain ⟨hs, hr⟩ := Pager.resolve_table k.pager read asid addr access
  rw [h] at hs hr
  exact (Pager.lazy_of_ready (congrArg Prod.fst h)).congr hs.symm hr.symm

/-- **A transfer keeps the agreement.** -/
lemma Ok.transfers (h : k.Ok) (hrun : Transfers read k k') : Fills k k' ∧ k'.Ok := by
  induction hrun with
  | refl => exact ⟨.refl k, h⟩
  | tail _ hstep ih =>
    obtain ⟨hf, hok⟩ := ih
    cases hstep with
    | ask hr =>
      obtain ⟨hf', hok'⟩ := hok.ask hr
      exact ⟨hf.trans hf', hok'⟩
    | fill hr =>
      obtain ⟨hf₁, hok₁⟩ := hok.ask hr
      obtain ⟨hf₂, hok₂⟩ := hok₁.pageIn _ _ (lazy_when_ready hr)
      exact ⟨(hf.trans hf₁).trans hf₂, hok₂⟩
    | write addr bytes =>
      refine ⟨hf.trans (.of (fun _ _ hl => hl) fun b hb => ?_),
        .of (fun p hp => (hok.agrees p hp).writeBytes addr bytes) hok.clean⟩
      rwa [isMapped_writeBytes]

/-- A kernel-side write keeps the agreement. -/
lemma Ok.writeMem (h : k.Ok) (read : ChunkReader) (addr : ℕ) (bytes : Bytes) :
    Fills k (k.writeMem read addr bytes).1 ∧ (k.writeMem read addr bytes).1.Ok :=
  h.transfers (writeMem_transfers k read addr bytes)

/-! ### Unmapping -/

/-- Some byte of the range belongs to a page still to be filled. -/
def ColdIn (k : Kernel) (start len : ℕ) : Prop :=
  ∃ page b, k.pager.Lazy k.asid page ∧ page ≤ b ∧ b < page + PAGE_SIZE ∧ start ≤ b ∧
    b < start + len

lemma disjoint_of_not_coldIn (h : ¬ k.ColdIn start len)
    (hl : k.pager.Lazy k.asid page) (hlen : len ≠ 0) :
    page + PAGE_SIZE ≤ start ∨ start + len ≤ page := by
  by_contra hin
  simp only [PAGE_SIZE] at hin
  exact h ⟨page, max page start, hl, by omega, by simp only [PAGE_SIZE]; omega, by omega,
    by omega⟩

/-- No page still to be filled is cut in two by the address. -/
def Uncut (g : Pager) (asid addr : ℕ) : Prop :=
  ∀ page, g.Lazy asid page → page < addr → page + PAGE_SIZE ≤ addr

lemma uncut_of_aligned (g : Pager) (asid : ℕ) (h : addr % PAGE_SIZE = 0) :
    Uncut g asid addr := by
  intro page hl hlt
  have hp := hl.1
  simp only [PAGE_SIZE] at h hp ⊢
  omega

/-- When `munmap` is harmless: it is refused outright, or its range has no hole and
does not begin inside a page still to be filled, or it touches no such page. -/
def MunmapSafe (k : Kernel) (addr len : ℕ) : Prop :=
  2 ^ 64 < addr + len ∨
    (Uncut k.pager k.asid addr ∧ len ≤ alignUp len PAGE_SIZE ∧ k.mem.mapped addr len = true) ∨
    ¬ k.ColdIn addr len

/-- A pager that unmaps at least the range the MMU unmaps keeps the agreement. -/
lemma agrees_unmap {len' : ℕ} (h : AgreesOn g asid m)
    (hcut : Uncut g asid start) (hlen : len ≤ len') :
    AgreesOn (g.unmap asid start len') asid (m.unmapMemoryLen start len).1 := by
  intro page hl
  obtain ⟨hl', hout⟩ := hl.of_unmap
  refine (h page hl').unmapMemoryLen ?_
  rcases hout rfl with hlt | hge
  · exact .inl (hcut page hl' hlt)
  · exact .inr (by omega)

/-- **`munmap` keeps the agreement where it is safe.** -/
lemma Ok.sysMunmap (h : k.Ok) (hsafe : k.MunmapSafe addr len) :
    Local k (k.sysMunmap addr len).1 ∧ (k.sysMunmap addr len).1.Ok := by
  by_cases htriv : len = 0 ∨ 2 ^ 64 < addr + len
  · rw [Kernel.sysMunmap, unmapMemoryLen, if_pos htriv]
    exact ⟨.refl k, h⟩
  have hr : (k.mem.unmapMemoryLen addr len).2 = k.mem.mapped addr len := by
    rw [unmapMemoryLen, if_neg htriv]
  rw [Kernel.sysMunmap]
  split_ifs with hok
  · refine ⟨.of fun a page _ hl => hl.of_unmap.1, .of ?_ h.clean⟩
    rcases hsafe with hover | ⟨hcut, hlen, -⟩ | hcold
    · exact absurd hover (fun hover => htriv (.inr hover))
    · exact agrees_unmap h.agrees hcut hlen
    intro page hl
    have hl' := hl.of_unmap.1
    exact (h.agrees page hl').unmapMemoryLen
      (disjoint_of_not_coldIn hcold hl' fun he => htriv (.inl he))
  refine ⟨.of fun a page _ hl => hl, .of ?_ h.clean⟩
  rcases hsafe with hover | ⟨-, -, hmapped⟩ | hcold
  · exact absurd hover (fun hover => htriv (.inr hover))
  · exact absurd (hr.trans hmapped) hok
  · exact fun page hl => (h.agrees page hl).unmapMemoryLen
      (disjoint_of_not_coldIn hcold hl fun he => htriv (.inl he))

/-! ### Protection -/

/-- When `mprotect` is harmless: its range has no hole, or the new protection
grants nothing, or it is refused outright, or no page still to be filled has a byte
behind the last hole. -/
def MprotectSafe (k : Kernel) (addr len prot : ℕ) : Prop :=
  k.mem.mapped addr (alignUp len PAGE_SIZE) = true ∨ Perm.grants (protToPerm prot) = false ∨
    2 ^ 64 < addr + alignUp len PAGE_SIZE ∨
    ¬ k.ColdIn (k.mem.solidFrom addr (alignUp len PAGE_SIZE))
      (trailing k.mem.isMapped addr (alignUp len PAGE_SIZE))

lemma mem_pagesOf (hp : page % PAGE_SIZE = 0) (h₁ : start < page + PAGE_SIZE)
    (h₂ : page < stop) : page ∈ pagesOf start stop := by
  refine List.mem_map.mpr ⟨(page - pageOf start) / PAGE_SIZE, mem_range.mpr ?_, ?_⟩ <;>
    simp only [pageOf, PAGE_SIZE] at hp h₁ ⊢ <;> omega

lemma hidePages_cons (m : Mem) (page : ℕ) (rest : List ℕ) :
    hidePages m (page :: rest) = hidePages (m.updatePerm page PAGE_SIZE Perm.INIT).1 rest := by
  rw [hidePages, foldl_cons, hidePages]

lemma cold_hidePages (pages : List ℕ) : ∀ {m : Mem}, m.Cold page →
    (hidePages m pages).Cold page := by
  induction pages with
  | nil => exact fun h => h
  | cons q rest ih =>
    intro m h
    rw [hidePages_cons]
    exact ih (h.updatePerm (by decide))

/-- The shape of a page up to its permission. -/
def Unfilled (m : Mem) (page : ℕ) : Prop :=
  ∀ b, page ≤ b → b < page + PAGE_SIZE → ∃ perm, m.shape b = some (perm, .cold)

lemma Unfilled.updatePerm (h : Unfilled m page) (addr count : ℕ)
    (perm : UInt8) : Unfilled (m.updatePerm addr count perm).1 page := by
  intro b h₁ h₂
  obtain ⟨q, hs⟩ := h b h₁ h₂
  rcases updatePerm_cell (m := m) addr count perm b with he | he
  · exact ⟨q, by rw [shape, he]; exact hs⟩
  rw [shape, map_eq_some_iff] at hs
  obtain ⟨c, hc, heq⟩ := hs
  refine ⟨perm ||| Perm.MAP ||| Perm.INIT, ?_⟩
  rw [shape, he, hc]
  simp [(Prod.mk.inj heq).2]

lemma Unfilled.hide (h : Unfilled m page)
    (hle : page + PAGE_SIZE ≤ 2 ^ 64) (hperm : Perm.grants perm = false) :
    (m.updatePerm page PAGE_SIZE perm).1.Cold page := by
  have hmapped : m.mapped page PAGE_SIZE := by
    refine allOn_iff.mpr fun b h₁ h₂ => ?_
    obtain ⟨q, hs⟩ := h b h₁ h₂
    rw [shape, map_eq_some_iff] at hs
    obtain ⟨c, hc, -⟩ := hs
    exact isMapped_eq_true.mpr ⟨c, hc⟩
  intro b h₁ h₂
  obtain ⟨q, hs⟩ := h b h₁ h₂
  rw [shape, map_eq_some_iff] at hs
  obtain ⟨c, hc, heq⟩ := hs
  refine ⟨_, ?_, (grants_or_map perm).trans hperm⟩
  rw [shape, updatePerm_of_mapped hmapped hle h₁ h₂, hc]
  simp [(Prod.mk.inj heq).2]

lemma cold_of_mem_hidePages {pages : List ℕ} (hmem : page ∈ pages)
    (hle : page + PAGE_SIZE ≤ 2 ^ 64) : ∀ {m : Mem}, Unfilled m page →
    (hidePages m pages).Cold page := by
  induction pages with
  | nil => exact absurd hmem not_mem_nil
  | cons q rest ih =>
    intro m h
    rw [hidePages_cons]
    rcases mem_cons.mp hmem with rfl | hmem'
    · exact cold_hidePages rest (h.hide hle (by decide))
    · exact ih hmem' (h.updatePerm q PAGE_SIZE Perm.INIT)

/-- The pages an update may have opened are hidden again. -/
lemma agrees_hidePages (h : AgreesOn g asid m) :
    AgreesOn g asid
      (hidePages (m.updatePerm addr len perm).1 (g.nonresidentPages asid addr len)) := by
  intro page hl
  have hcold := h page hl
  have hle := hl.page_le
  by_cases hout : page + PAGE_SIZE ≤ addr ∨ addr + len ≤ page
  · exact cold_hidePages _ (hcold.updatePerm_outside hout)
  refine cold_of_mem_hidePages (mem_filter.mpr ⟨mem_pagesOf hl.1 (by omega) ?_, ?_⟩) hle
    (Unfilled.updatePerm (fun b h₁ h₂ => (hcold b h₁ h₂).imp fun _ h => h.1) addr len perm)
  · rw [satAdd]
    simp only [PAGE_SIZE] at hle hout
    omega
  · obtain ⟨-, ⟨m, hm, hc⟩, hr⟩ := hl
    simpa [hr] using ⟨m, hm, hc⟩

/-- **`mprotect` keeps the agreement where it is safe.** -/
lemma Ok.sysMprotect (h : k.Ok) {prot : ℕ} (hsafe : k.MprotectSafe addr len prot) :
    Local k (k.sysMprotect addr len prot).1 ∧ (k.sysMprotect addr len prot).1.Ok := by
  rw [Kernel.sysMprotect]
  split_ifs with hok
  · refine ⟨.of fun a page _ hl => hl.of_protect, .of (agrees_hidePages fun page hl => ?_) h.clean⟩
    exact h.agrees page hl.of_protect
  refine ⟨.of fun a page _ hl => hl, .of (fun page hl => ?_) h.clean⟩
  have hcold := h.agrees page hl
  rcases hsafe with hmapped | hperm | hover | hcoldIn
  · rw [updatePerm_overflow (overflow_of_updatePerm hmapped hok)]
    exact hcold
  · exact hcold.updatePerm hperm
  · rw [updatePerm_overflow hover]
    exact hcold
  refine hcold.congr fun b h₁ h₂ => ?_
  have hout : b < k.mem.solidFrom addr (alignUp len PAGE_SIZE) ∨
      addr + alignUp len PAGE_SIZE ≤ b := by
    by_contra! hin
    exact hcoldIn ⟨page, b, hl, h₁, h₂, hin.1, by rw [solidFrom_add]; exact hin.2⟩
  rw [shape, updatePerm_below hout, shape]

/-- `brk` keeps the agreement. -/
lemma Ok.sysBrk (h : k.Ok) (addr : ℕ) :
    Local k (k.sysBrk addr).1 ∧ (k.sysBrk addr).1.Ok := by
  rw [Kernel.sysBrk]
  dsimp only
  split_ifs
  · exact ⟨.refl k, h⟩
  · exact ⟨.of fun a page _ hl => hl,
      .of (fun page hl => (h.agrees page hl).mapMemoryLen _ _ _) h.clean⟩
  · exact ⟨.refl k, h⟩
  · exact ⟨.of fun a page _ hl => hl, .of h.agrees h.clean⟩

/-! ### Mapping -/

/-- Choosing the target of a mapping keeps the agreement. -/
lemma Ok.mmapTarget (host : Host) (h : k.Ok) (a : MmapArgs) (len : ℕ) :
    Local k (k.mmapTarget host a len).1 ∧ (k.mmapTarget host a len).1.Ok := by
  rw [Kernel.mmapTarget]
  split_ifs
  · exact ⟨.of fun a page _ hl => hl.of_unmap.1,
      .of (agrees_unmap h.agrees (uncut_of_aligned _ _ (pageOf_mod a.addr)) le_rfl) h.clean⟩
  · exact ⟨.refl k, h⟩
  split
  · exact ⟨.refl k, h⟩
  · exact ⟨.of fun a page _ hl => hl, .of h.agrees h.clean⟩

/-- A permission update of a range without lazy pages keeps the agreement. -/
lemma Ok.finishMmap (h : k.Ok) (perm : UInt8)
    (hfree : ∀ page, k.pager.Lazy k.asid page →
      page + PAGE_SIZE ≤ target ∨ target + len ≤ page) :
    Local k (k.finishMmap target len perm).1 ∧ (k.finishMmap target len perm).1.Ok := by
  rw [Kernel.finishMmap]
  exact ⟨.of fun a page _ hl => hl,
    .of (fun page hl => (h.agrees page hl).updatePerm_outside (hfree page hl)) h.clean⟩

/-- The pages that were lazy before a range was mapped miss it. -/
lemma disjoint_of_mapped {c : Cell} (hcold : m.Cold page)
    (hok : (m.mapMemoryLen start len c).2) :
    page + PAGE_SIZE ≤ start ∨ start + len ≤ page := by
  obtain ⟨hlen, -, hfree, -⟩ := mapMemoryLen_ok hok
  by_contra hin
  simp only [PAGE_SIZE] at hin
  obtain ⟨d, hd⟩ := hcold.isSome (b := max page start) (by omega) (by simp only [PAGE_SIZE]; omega)
  rw [hfree _ (by omega) (by omega)] at hd
  cases hd

lemma cold_of_mapped {c : Cell}
    (hok : (m.mapMemoryLen start len c).2) (hc : c.backing = .cold)
    (hp : Perm.grants c.perm = false) (h₁ : start ≤ page) (h₂ : page + PAGE_SIZE ≤ start + len) :
    (m.mapMemoryLen start len c).1.Cold page := by
  obtain ⟨-, -, -, heq⟩ := mapMemoryLen_ok hok
  intro b hb hb'
  refine ⟨c.perm, ?_, hp⟩
  rw [heq, shape, editOn_inside (by omega) (by omega), map_some, hc]

/-- A mapping recorded over a range of cold pages keeps the agreement. -/
lemma agrees_map {c : Cell} {mapping : FileMapping}
    (h : AgreesOn g asid m) (hok : (m.mapMemoryLen start len c).2)
    (hc : c.backing = .cold) (hp : Perm.grants c.perm = false) (hstart : start ≤ mapping.start)
    (hstop : mapping.stop ≤ start + len) (halign : mapping.stop % PAGE_SIZE = 0) :
    AgreesOn (g.map asid mapping) asid (m.mapMemoryLen start len c).1 := by
  intro page hl
  rcases hl.of_map with hl' | ⟨-, hcov⟩
  · exact (h page hl').mapMemoryLen _ _ _
  obtain ⟨h₁, h₂⟩ := Pager.covers_iff.mp hcov
  refine cold_of_mapped hok hc hp (by omega) ?_
  have hpage := hl.1
  simp only [PAGE_SIZE] at hpage halign ⊢
  omega

/-- Filling a freshly mapped range keeps the agreement. -/
lemma Ok.fillMmap (h : k.Ok) (read : ChunkReader) (a : MmapArgs) {contents : MapContents}
    (hok : (k.mem.mapMemoryLen target len contents.cell).2) :
    let k₁ := { k with mem := (k.mem.mapMemoryLen target len contents.cell).1 }
    Local k (fillMmap read k₁ a target len contents).1 ∧
      (fillMmap read k₁ a target len contents).1.Ok := by
  intro k₁
  have hloc₁ : Local k k₁ := .of fun a page _ hl => hl
  have hok₁ : k₁.Ok := .of (fun page hl => (h.agrees page hl).mapMemoryLen _ _ _) h.clean
  -- No page still to be filled overlaps the new range, before or after a page-in.
  have hfree : ∀ {k₂ : Kernel}, Fills k₁ k₂ → ∀ page, k₂.pager.Lazy k₂.asid page →
      page + PAGE_SIZE ≤ target ∨ target + len ≤ page := by
    intro k₂ hf page hl
    rw [hf.asid] at hl
    exact disjoint_of_mapped (h.agrees page (hf.lazy _ _ hl)) hok
  cases contents with
  | anonymous =>
    obtain ⟨hl, hok'⟩ := hok₁.finishMmap (protToPerm a.prot) (hfree (.refl k₁))
    exact ⟨hloc₁.trans hl, hok'⟩
  | bytes data =>
    obtain ⟨hf, hok₂⟩ := hok₁.writeMem read target data
    rw [Kernel.fillMmap]
    cases hw : k₁.writeMem read target data with
    | mk k₂ out =>
      rw [hw] at hf hok₂
      cases out with
      | error e => exact ⟨hloc₁.trans hf.toLocal, hok₂⟩
      | ok _ =>
        obtain ⟨hl, hok'⟩ := hok₂.finishMmap (protToPerm a.prot) (hfree hf)
        exact ⟨(hloc₁.trans hf.toLocal).trans hl, hok'⟩
  | chunked file fileLen =>
    rw [Kernel.fillMmap]
    by_cases hlen : 0 < fileLen
    · rw [if_pos hlen]
      cases hm : FileMapping.new target (wrapAdd target len) target a.offset fileLen
          (protToPerm a.prot) 0 file (wrapAdd_lt _ _) with
      | error why => exact ⟨hloc₁, hok₁⟩
      | ok =>
        obtain ⟨hstart, hstop, hlt, halign, halign'⟩ := FileMapping.of_new hm
        have hin : wrapAdd target len ≤ target + len := Nat.mod_le _ _
        refine ⟨.of fun b page hb hl => ?_, .of (agrees_map h.agrees hok ?_ ?_ ?_ ?_ ?_) h.clean⟩
        · rcases hl.of_map with hl' | ⟨hb', -⟩
          · exact hl'
          · exact absurd hb' hb
        · exact if_pos hlen
        · exact (by decide : Perm.grants Perm.INIT = false)
        · exact hstart.ge
        · exact hstop ▸ hin
        · exact hstop ▸ halign'
    rw [if_neg hlen]
    obtain ⟨hl, hok'⟩ := hok₁.finishMmap (protToPerm a.prot) (hfree (.refl k₁))
    exact ⟨hloc₁.trans hl, hok'⟩

/-- **`mmap` keeps the agreement**, whatever its arguments and however it ends. -/
lemma Ok.sysMmap (h : k.Ok) (host : Host) (read : ChunkReader) (a : MmapArgs) :
    Local k (k.sysMmap host read a).1 ∧ (k.sysMmap host read a).1.Ok := by
  rw [Kernel.sysMmap]
  split_ifs
  · exact ⟨.refl k, h⟩
  · exact ⟨.refl k, h⟩
  obtain ⟨hloc, hok⟩ := h.mmapTarget host a (alignUp a.len PAGE_SIZE)
  dsimp only
  cases ht : k.mmapTarget host a (alignUp a.len PAGE_SIZE) with
  | mk k₁ target =>
    rw [ht] at hloc hok
    cases target with
    | none => exact ⟨hloc, hok⟩
    | some =>
      cases hc : mmapContents host a (alignUp a.len PAGE_SIZE) with
      | error e => exact ⟨hloc, hok⟩
      | ok =>
        dsimp only
        split_ifs with hmap
        · obtain ⟨hloc', hok'⟩ := hok.fillMmap read a hmap
          exact ⟨hloc.trans hloc', hok'⟩
        · exact ⟨hloc, hok⟩

/-! ### Remapping -/

lemma alignUp_mod (v : ℕ) : alignUp v PAGE_SIZE % PAGE_SIZE = 0 := by
  rw [alignUp]
  split_ifs
  · exact Nat.mul_mod_left _ _
  · decide

variable {b : ℕ}

lemma pageState_of_lazy (h : g.Lazy asid page) (h₁ : page ≤ b) (h₂ : b < page + PAGE_SIZE)
    : ∃ perm, g.pageState asid b = some (false, perm) := by
  obtain ⟨hp, ⟨m, hm, hc⟩, hr⟩ := h
  have hb : pageOf b = page := by
    simp only [pageOf, PAGE_SIZE] at hp h₂ ⊢
    omega
  rw [Pager.pageState, hb]
  cases hf : (g.mappings asid).reverse.find? (·.covers page) with
  | none =>
    have := List.find?_eq_none.mp hf m (mem_reverse.mpr hm)
    exact absurd hc this
  | some m' => exact ⟨m'.finalPerm, by simp [hr]⟩

lemma settlePages_cons (g : Pager) (asid : ℕ) (m : Mem) (page : ℕ) (rest : List ℕ) :
    settlePages g asid m (page :: rest) =
      settlePages g asid (settlePages g asid m [page]) rest := by
  simp only [settlePages, foldl_cons, foldl_nil]

/-- One turn of the settling loop is a permission update of its page or nothing. -/
lemma settlePages_one (g : Pager) (asid : ℕ) (m : Mem) (page : ℕ) :
    settlePages g asid m [page] = m ∨
      ∃ perm, settlePages g asid m [page] = (m.updatePerm page PAGE_SIZE perm).1 := by
  simp only [settlePages, foldl_cons, foldl_nil]
  split
  · exact .inr ⟨_, rfl⟩
  · exact .inl rfl

lemma cold_settle_others (pages : List ℕ) :
    ∀ {m : Mem}, (∀ q ∈ pages, page + PAGE_SIZE ≤ q ∨ q + PAGE_SIZE ≤ page) → m.Cold page →
      (settlePages g asid m pages).Cold page := by
  induction pages with
  | nil => exact fun _ h => h
  | cons q rest ih =>
    intro m hout h
    rw [settlePages_cons]
    refine ih (fun q' hq' => hout q' (mem_cons_of_mem q hq')) ?_
    rcases settlePages_one g asid m q with he | ⟨perm, he⟩
    · rwa [he]
    · rw [he]
      exact h.updatePerm_outside (hout q mem_cons_self)

/-- Settling an unfilled page that is not resident makes it cold, and it stays so. -/
lemma cold_settle (hl : g.Lazy asid page) (pages : List ℕ) :
    ∀ {m : Mem}, (∀ q ∈ pages, q % PAGE_SIZE = 0) →
      (Unfilled m page → page ∈ pages → (settlePages g asid m pages).Cold page) ∧
        (m.Cold page → (settlePages g asid m pages).Cold page) := by
  obtain ⟨perm, hst⟩ := pageState_of_lazy hl le_rfl (Nat.lt_add_of_pos_right (by decide))
  have hself : ∀ m : Mem, settlePages g asid m [page] =
      (m.updatePerm page PAGE_SIZE Perm.INIT).1 := by
    intro m
    simp only [settlePages, foldl_cons, foldl_nil, hst, Bool.false_eq_true, if_false]
  induction pages with
  | nil => exact fun _ => ⟨fun _ h => absurd h not_mem_nil, fun h => h⟩
  | cons q rest ih =>
    intro m hq
    have hrest := fun m => ih (m := m) fun q' hq' => hq q' (mem_cons_of_mem q hq')
    rw [settlePages_cons]
    -- the page itself is hidden, and any other page leaves it as it is
    by_cases he : page = q
    · subst he
      rw [hself]
      exact ⟨fun h _ => (hrest _).2 (h.hide hl.page_le (by decide)),
        fun h => (hrest _).2 (h.updatePerm (by decide))⟩
    refine ⟨fun h hmem => ?_, fun h => (hrest _).2 ?_⟩
    · have hmem' := (mem_cons.mp hmem).resolve_left he
      refine (hrest _).1 ?_ hmem'
      rcases settlePages_one g asid m q with he' | ⟨perm', he'⟩
      · rwa [he']
      · rw [he']
        exact h.updatePerm q PAGE_SIZE perm'
    rcases settlePages_one g asid m q with he' | ⟨perm', he'⟩
    · rwa [he']
    · rw [he']
      exact h.updatePerm_outside (hl.disjoint (hq q mem_cons_self) he)

lemma mod_of_mem_pagesOf {q : ℕ} (h : q ∈ pagesOf start stop) : q % PAGE_SIZE = 0 := by
  obtain ⟨i, -, rfl⟩ := List.mem_map.mp h
  have := pageOf_mod start
  simp only [PAGE_SIZE] at this ⊢
  omega

lemma bounds_of_mem_pagesOf {q : ℕ} (h : q ∈ pagesOf start stop)
    (hs : start % PAGE_SIZE = 0) : start ≤ q ∧ q < stop := by
  obtain ⟨i, hi, rfl⟩ := List.mem_map.mp h
  have hi' := mem_range.mp hi
  simp only [pageOf, PAGE_SIZE] at hs hi' ⊢
  omega

/-- What `moveMapping` needs of the ranges: both are aligned and in the address
space, the new one is larger, mapped, free of lazy pages, and misses the old one. -/
structure Movable (k : Kernel) (oldAddr oldSize target newSize : ℕ) : Prop where
  old_lt : oldAddr < 2 ^ 64
  grows : oldSize < newSize
  fits : target + newSize < 2 ^ 64
  old_aligned : oldAddr % PAGE_SIZE = 0
  size_aligned : oldSize % PAGE_SIZE = 0
  target_aligned : target % PAGE_SIZE = 0
  new_aligned : newSize % PAGE_SIZE = 0
  apart : target + newSize ≤ oldAddr ∨ oldAddr + oldSize ≤ target
  mapped : ∀ b, target ≤ b → b < target + newSize → k.mem.isMapped b = true
  notLazy : ∀ page, k.pager.Lazy k.asid page →
    page + PAGE_SIZE ≤ target ∨ target + newSize ≤ page

/-- A byte of the new range after the move has the backing it is meant to have. -/
lemma shape_carryBacking {backing : Backing} (hm : Movable k oldAddr oldSize target newSize)
    (h₁ : target ≤ b) (h₂ : b < target + newSize)
    (hb : (if b < target + oldSize then
        ((k.mem (wrapAdd oldAddr (b - target))).map Cell.backing).getD .eager
      else if ((g.pageState k.asid b).map Prod.fst) = some false then .cold
      else .eager) = backing) :
    ∃ perm, shape (carryBacking k.mem g k.asid oldAddr oldSize target newSize
      (k.mem.unmapMemoryLen oldAddr oldSize).1) b = some (perm, backing) := by
  have hsize := hm.apart
  obtain ⟨c, hc⟩ := isMapped_eq_true.mp (hm.mapped b h₁ h₂)
  refine ⟨c.perm, ?_⟩
  rw [shape, carryBacking, if_pos ⟨h₁, h₂⟩, unmapMemoryLen_outside (by omega), hc]
  simp only [map_some, hb]

/-- **The move of a grown mapping keeps the agreement.** -/
lemma Ok.moveMapping (h : k.Ok)
    (hm : Movable k oldAddr oldSize target newSize) :
    Local k (k.moveMapping oldAddr oldSize target newSize) ∧
      (k.moveMapping oldAddr oldSize target newSize).Ok := by
  obtain ⟨hold, hgrow, hfit, ha, hsa, hta, hna, hapart, -, hnl⟩ := id hm
  have hnew : target + oldSize < 2 ^ 64 := by omega
  have hremap : ∀ a page, (k.pager.remap k.asid oldAddr oldSize target newSize).Lazy a page → _ :=
    fun a page => Pager.Lazy.of_remap hold hgrow hnew ha hta
  have hwrap : wrapAdd target newSize = target + newSize := Nat.mod_eq_of_lt hfit
  rw [Kernel.moveMapping]
  refine ⟨.of fun a page ha' hl => ?_, .of (fun page hl => ?_) h.clean⟩
  · rcases hremap a page hl with h' | h' | h'
    · exact h'.1
    · exact absurd h'.1 ha'
    · exact absurd h'.1 ha'
  have hpage := hl.1
  have hle := hl.page_le
  rw [hwrap]
  have haligned : ∀ q ∈ pagesOf target (target + newSize), q % PAGE_SIZE = 0 :=
    fun q hq => mod_of_mem_pagesOf hq
  -- A page of the new range is settled, so its bytes only have to be unfilled.
  have hnewPage : target ≤ page → page < target + newSize →
      Unfilled (carryBacking k.mem (k.pager.remap k.asid oldAddr oldSize target newSize) k.asid
        oldAddr oldSize target newSize (k.mem.unmapMemoryLen oldAddr oldSize).1) page →
      Mem.Cold (settlePages (k.pager.remap k.asid oldAddr oldSize target newSize) k.asid
        (carryBacking k.mem (k.pager.remap k.asid oldAddr oldSize target newSize) k.asid
          oldAddr oldSize target newSize (k.mem.unmapMemoryLen oldAddr oldSize).1)
        (pagesOf target (target + newSize))) page := by
    intro h₁ h₂ hu
    refine (cold_settle hl _ haligned).1 hu (mem_pagesOf hpage ?_ h₂)
    simp only [PAGE_SIZE]
    omega
  rcases hremap k.asid page hl with ⟨hl', hout⟩ | ⟨-, hge, hl', hlt⟩ | ⟨-, hge, hlt⟩
  · -- An old page outside the old range: nothing touches it.
    have hout' := hout rfl
    have hfree := hnl page hl'
    have hcold : (k.mem.unmapMemoryLen oldAddr oldSize).1.Cold page := by
      refine (h.agrees page hl').unmapMemoryLen ?_
      simp only [PAGE_SIZE, satAdd] at *
      omega
    refine cold_settle_others _ (fun q hq => ?_) (hcold.congr fun b h₁ h₂ => ?_)
    · have hq' := haligned q hq
      obtain ⟨h₁, h₂⟩ := bounds_of_mem_pagesOf hq hta
      simp only [PAGE_SIZE] at *
      omega
    · rw [shape, carryBacking, if_neg (by omega), shape]
  · -- The image of an old lazy page, whose bytes were moved as they were.
    have hle' := hl'.page_le
    have hlt' : page < target + oldSize := by
      simp only [satAdd] at hlt
      omega
    refine hnewPage hge (by omega) fun b h₁ h₂ => ?_
    have hb : b < target + oldSize := by
      simp only [PAGE_SIZE] at *
      omega
    refine shape_carryBacking hm (by omega) (by omega) ?_
    obtain ⟨perm, hs, -⟩ := h.agrees _ hl' (oldAddr + (b - target)) (by omega) (by omega)
    have hw : wrapAdd oldAddr (b - target) = oldAddr + (b - target) :=
      Nat.mod_eq_of_lt (by omega)
    rw [shape, map_eq_some_iff] at hs
    obtain ⟨c, hc, heq⟩ := hs
    rw [if_pos hb, hw, hc]
    exact (Prod.mk.inj heq).2
  -- A page of the grown part.
  refine hnewPage (by omega) hlt fun b h₁ h₂ => ?_
  have hb : b < target + newSize := by
    simp only [PAGE_SIZE] at *
    omega
  refine shape_carryBacking hm (by omega) hb ?_
  obtain ⟨perm, hst⟩ := pageState_of_lazy hl h₁ h₂
  rw [if_neg (by omega), hst]
  rfl

/-- When a growing `mremap` is harmless: the range the MMU finds ends below the end
of the address space and misses the old range. -/
def MremapSafe (host : Host) (k : Kernel) (oldAddr oldSize newSize : ℕ) : Prop :=
  alignUp oldSize PAGE_SIZE < alignUp newSize PAGE_SIZE → ∀ target,
    host.findFree k.mem k.mmapNext (alignUp newSize PAGE_SIZE) PAGE_SIZE = some target →
    target + alignUp newSize PAGE_SIZE < 2 ^ 64 ∧
      (target + alignUp newSize PAGE_SIZE ≤ oldAddr ∨
        oldAddr + alignUp oldSize PAGE_SIZE ≤ target)

variable {host : Host}

lemma Ok.growMapping (h : k.Ok) (hold : oldAddr < 2 ^ 64) (ha : oldAddr % PAGE_SIZE = 0)
    (hgrow : alignUp oldSize PAGE_SIZE < alignUp newSize PAGE_SIZE)
    (hsafe : MremapSafe host k oldAddr oldSize newSize) :
    Local k (k.growMapping host read oldAddr (alignUp oldSize PAGE_SIZE)
        (alignUp newSize PAGE_SIZE)).1 ∧
      (k.growMapping host read oldAddr (alignUp oldSize PAGE_SIZE)
        (alignUp newSize PAGE_SIZE)).1.Ok := by
  rw [Kernel.growMapping]
  cases hf : host.findFree k.mem k.mmapNext (alignUp newSize PAGE_SIZE) PAGE_SIZE with
  | none => exact ⟨.refl k, h⟩
  | some target =>
    obtain ⟨hfit, hapart⟩ := hsafe hgrow target hf
    have halign : target % PAGE_SIZE = 0 := Nat.mod_eq_zero_of_dvd (host.aligned hf)
    dsimp only
    by_cases hok : (k.mem.mapMemoryLen target (alignUp newSize PAGE_SIZE) eagerCell).2
    · rw [hok]
      -- the new range is mapped and readable before the bytes are copied
      set k₁ : Kernel :=
        { k with mem := (k.mem.mapMemoryLen target (alignUp newSize PAGE_SIZE) eagerCell).1 }
        with hk₁
      have hloc₁ : Local k k₁ := .of fun a page _ hl => hl
      have hok₁ : k₁.Ok := .of (fun page hl => (h.agrees page hl).mapMemoryLen _ _ _) h.clean
      simp only [Bool.not_true, Bool.false_eq_true, if_false]
      split_ifs
      · exact ⟨hloc₁, hok₁⟩
      cases hr : k₁.mem.readBytes oldAddr (alignUp oldSize PAGE_SIZE) with
      | none => exact ⟨hloc₁, hok₁⟩
      | some buf =>
        obtain ⟨hfl, hok₂⟩ := hok₁.writeMem read target buf
        dsimp only
        cases hw : k₁.writeMem read target buf with
        | mk k₂ out =>
          rw [hw] at hfl hok₂
          cases out with
          | error e => exact ⟨hloc₁.trans hfl.toLocal, hok₂⟩
          | ok _ =>
            obtain ⟨-, -, -, heq⟩ := mapMemoryLen_ok hok
            -- the copy has unmapped nothing and made no page lazy, so the move finds its range as
            -- it was
            have hmov : Movable k₂ oldAddr (alignUp oldSize PAGE_SIZE) target
                (alignUp newSize PAGE_SIZE) := by
              refine ⟨hold, hgrow, hfit, ha, alignUp_mod _, halign, alignUp_mod _, hapart,
                fun b h₁ h₂ => hfl.mapped b ?_, fun page hl => ?_⟩
              · rw [hk₁, isMapped]
                dsimp only
                rw [heq, editOn_inside h₁ h₂]
                rfl
              · rw [hfl.asid] at hl
                exact disjoint_of_mapped (h.agrees page (hfl.lazy _ _ hl)) hok
            obtain ⟨hl, hok'⟩ := hok₂.moveMapping hmov
            exact ⟨(hloc₁.trans hfl.toLocal).trans hl, hok'⟩
    rw [Bool.not_eq_true] at hok
    rw [hok]
    exact ⟨.refl k, h⟩

/-- **`mremap` keeps the agreement where it is safe.** -/
lemma Ok.sysMremap (h : k.Ok) {flags : ℕ} (hold : oldAddr < 2 ^ 64)
    (hsafe : MremapSafe host k oldAddr oldSize newSize) :
    Local k (k.sysMremap host read oldAddr oldSize newSize flags).1 ∧
      (k.sysMremap host read oldAddr oldSize newSize flags).1.Ok := by
  rw [Kernel.sysMremap]
  dsimp only
  split_ifs with h₁ h₂ h₃ h₄ h₅
  · exact ⟨.refl k, h⟩
  · exact ⟨.refl k, h⟩
  · refine ⟨.of fun a page _ hl => hl.of_unmap.1,
      .of (agrees_unmap h.agrees (uncut_of_aligned _ _ ?_) le_rfl) h.clean⟩
    have ha : oldAddr % PAGE_SIZE = 0 := by_contra fun hne => h₁ (.inl hne)
    have hn := alignUp_mod newSize
    simp only [wrapAdd, PAGE_SIZE] at ha hn ⊢
    omega
  · exact ⟨.refl k, h⟩
  · exact ⟨.refl k, h⟩
  · exact h.growMapping hold (by_contra fun hne => h₁ (.inl hne)) (by omega) hsafe

end Kernel

end WebTos
