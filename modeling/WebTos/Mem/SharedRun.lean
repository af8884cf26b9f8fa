import WebTos.Mem.AgreementRun
import WebTos.Mem.Shared

/-!
Shared mappings over whole runs.

* `Kernel.Keeps`: a call of the running process unmaps nothing but what it is asked to, and
  `Keeps.sysMmap`, `Keeps.sysMunmap`, `Keeps.sysMremap`: what that is;
* `World.Tracked`: the list and the map agree on every live address space;
* `World.Safe`: the condition on a step;
* `World.run_sound`: **in every run of such steps the write-back is sound**, and
  `World.fixed_mapping_written_back`, a run in which it is not.
-/

namespace WebTos

open Lib List Option Function Shared.World Mem Kernel Nat

/-! ### What the calls unmap -/

variable {asid b len newSize oldAddr oldSize : ℕ}

namespace Kernel

/-- A call of the running process that unmaps nothing outside of `gone`. -/
structure Keeps (gone : ℕ → Bool) (k k' : Kernel) : Prop extends SameSpaces k k' where
  mapped : ∀ b, gone b = false → k.mem.isMapped b = true → k'.mem.isMapped b = true

namespace Keeps

variable {gone : ℕ → Bool} {k k' k'' : Kernel} {read : ChunkReader} {host : Host}

lemma refl (k : Kernel) : Keeps gone k k := ⟨.refl k, fun _ _ h => h⟩

lemma trans (h : Keeps gone k k') (h' : Keeps gone k' k'') : Keeps gone k k'' :=
  ⟨h.toSameSpaces.trans h'.toSameSpaces, fun b hb hm => h'.mapped b hb (h.mapped b hb hm)⟩

lemma mono {gone' : ℕ → Bool} (h : Keeps gone k k')
    (hle : ∀ b, gone' b = false → gone b = false) : Keeps gone' k k' :=
  ⟨h.toSameSpaces, fun b hb => h.mapped b (hle b hb)⟩

variable {g : Pager} {m : Mem}

/-- The rest of the record may change with the memory. -/
lemma of_mem {brk next : ℕ} {c : List ℕ}
    (h : ∀ b, gone b = false → k.mem.isMapped b → m.isMapped b) :
    Keeps gone k { k with mem := m, pager := g, brkEnd := brk, mmapNext := next, clobbered := c } :=
  ⟨⟨rfl, rfl, rfl, rfl⟩, h⟩

lemma pageIn (k : Kernel) (page : ℕ) (bytes : Bytes) (perm : UInt8) :
    Keeps gone k (k.pageIn page bytes perm).1 := by
  unfold Kernel.pageIn
  generalize (if k.mem.coldBytes page then k.clobbered else page :: k.clobbered) = clobbered
  dsimp only
  split_ifs
  · exact of_mem fun b _ hb => by rwa [isMapped_writeBytes]
  · exact of_mem fun b _ hb => by rwa [isMapped_updatePerm, isMapped_writeBytes]
  · refine of_mem fun b _ hb => ?_
    rwa [isMapped_editOn_map, isMapped_updatePerm, isMapped_writeBytes]

lemma transfers (hrun : Transfers read k k') : Keeps gone k k' := by
  induction hrun with
  | refl => exact refl k
  | @tail k₁ _ _ hstep ih =>
    have hask : ∀ g, Keeps gone k₁ { k₁ with pager := g } := fun _ => of_mem fun _ _ hb => hb
    refine ih.trans ?_
    cases hstep with
    | ask _ => exact hask _
    | fill _ => exact (hask _).trans (pageIn _ _ _ _)
    | write => exact of_mem fun b _ hb => by rwa [isMapped_writeBytes]

variable (k)

lemma writeMem (read : ChunkReader) (addr : ℕ) (bytes : Bytes) :
    Keeps gone k (k.writeMem read addr bytes).1 :=
  transfers (writeMem_transfers k read addr bytes)

lemma isMapped_hidePages (pages : List ℕ) (b : ℕ) (m : Mem) :
    (hidePages m pages).isMapped b = m.isMapped b :=
  foldlRecOn (motive := fun m' : Mem => m'.isMapped b = m.isMapped b) pages _ rfl
    fun _ ih _ _ => (isMapped_updatePerm ..).trans ih

lemma sysMprotect (addr len prot : ℕ) :
    Keeps gone k (k.sysMprotect addr len prot).1 := by
  rw [Kernel.sysMprotect]
  dsimp only
  split_ifs
  · exact of_mem fun b _ hb => by rwa [isMapped_hidePages, isMapped_updatePerm]
  · exact of_mem fun b _ hb => by rwa [isMapped_updatePerm]

lemma sysBrk (addr : ℕ) : Keeps gone k (k.sysBrk addr).1 := by
  rw [Kernel.sysBrk]
  dsimp only
  split_ifs
  · exact refl k
  · exact of_mem fun b _ hb => isMapped_mapMemoryLen hb
  · exact refl k
  · exact of_mem fun _ _ hb => hb

lemma isMapped_unmap {start : ℕ} (hb : unmaps start len b = false) (h : m.isMapped b)
    : isMapped (m.unmapMemoryLen start len).1 b := by
  simp only [unmaps, Bool.and_eq_false_iff, decide_eq_false_iff_not] at hb
  by_cases hout : b < start ∨ start + len ≤ b
  · rw [isMapped, unmapMemoryLen_outside hout]
    exact h
  · rw [unmapMemoryLen, if_pos (by omega)]
    exact h

lemma sysMunmap (addr len : ℕ) :
    Keeps (unmaps addr len) k (k.sysMunmap addr len).1 := by
  rw [Kernel.sysMunmap]
  split_ifs
  · exact of_mem fun b hb hm => isMapped_unmap hb hm
  · exact of_mem fun b hb hm => isMapped_unmap hb hm

/-- The target of an `mmap` call: only `MAP_FIXED` unmaps. -/
lemma mmapTarget (host : Host) (a : MmapArgs) :
    Keeps (replaced a) k (k.mmapTarget host a (alignUp a.len PAGE_SIZE)).1 := by
  rw [Kernel.mmapTarget]
  dsimp only
  split_ifs with hfixed
  · have hkeep : ∀ b, replaced a b = false → k.mem.isMapped b →
        isMapped (k.mem.unmapMemoryLen (pageOf a.addr) (alignUp a.len PAGE_SIZE)).1 b =
          true := by
      intro b hb hm
      rw [replaced, hfixed, Bool.true_and] at hb
      exact isMapped_unmap hb hm
    exact of_mem hkeep
  · exact refl k
  split
  · exact refl k
  · exact of_mem fun _ _ hb => hb

lemma finishMmap (target len : ℕ) (perm : UInt8) :
    Keeps gone k (k.finishMmap target len perm).1 :=
  of_mem fun b _ hb => by rwa [isMapped_updatePerm]

lemma fillMmap (read : ChunkReader) (a : MmapArgs) (target len : ℕ)
    (contents : MapContents) : Keeps gone k (k.fillMmap read a target len contents).1 := by
  cases contents with
  | anonymous => exact finishMmap k _ _ _
  | bytes data =>
    have hwrite := (writeMem k read target data : Keeps gone _ _)
    rw [Kernel.fillMmap]
    split
    · rename_i he
      rwa [he] at hwrite
    rename_i he
    rw [he] at hwrite
    exact hwrite.trans (finishMmap _ _ _ _)
  | chunked =>
    rw [Kernel.fillMmap]
    split_ifs
    · split
      · exact refl k
      · exact of_mem fun _ _ hb => hb
    · exact finishMmap k _ _ _

/-- **`mmap` unmaps what `MAP_FIXED` replaces.** -/
lemma sysMmap (host : Host) (read : ChunkReader) (a : MmapArgs) :
    Keeps (fun b => mmapStarts a && replaced a b) k
      (k.sysMmap host read a).1 := by
  rw [Kernel.sysMmap]
  dsimp only
  split_ifs with hlen hoffset
  · exact refl k
  · exact refl k
  have hstarts : mmapStarts a := by
    rw [mmapStarts]
    cases ha : a.isAnonymous <;> simp_all
  have htarget : Keeps (fun b => mmapStarts a && replaced a b) k
      (k.mmapTarget host a (alignUp a.len PAGE_SIZE)).1 := by
    simp only [hstarts, Bool.true_and]
    exact mmapTarget k host a
  split
  · rename_i he
    rwa [he] at htarget
  rename_i k₁ target he
  rw [he] at htarget
  split
  · exact htarget
  rename_i contents _
  split_ifs
  · have hmap : Keeps (fun b => mmapStarts a && replaced a b) k₁
        { k₁ with mem := (k₁.mem.mapMemoryLen target (alignUp a.len PAGE_SIZE)
          contents.cell).1 } := of_mem fun b _ hb => isMapped_mapMemoryLen hb
    exact (htarget.trans hmap).trans (fillMmap _ read a target _ contents)
  · exact htarget

lemma isMapped_carryBacking {old : Mem} {target : ℕ} :
    isMapped (carryBacking old g asid oldAddr oldSize target newSize m) b = m.isMapped b := by
  rw [isMapped, carryBacking]
  by_cases hin : target ≤ b ∧ b < target + newSize
  · rw [if_pos hin, isSome_map]
    rfl
  · rw [if_neg hin]
    rfl

lemma isMapped_settlePages (g : Pager) (asid b : ℕ) (pages : List ℕ) (m : Mem) :
    (settlePages g asid m pages).isMapped b = m.isMapped b := by
  refine foldlRecOn (motive := fun m' : Mem => m'.isMapped b = m.isMapped b) pages _ rfl
    fun m' ih page _ => ?_
  rw [← ih]
  split
  · exact isMapped_updatePerm ..
  · rfl

/-- A move that fails unmaps nothing. -/
lemma growMapping (host : Host) (read : ChunkReader) (oldAddr oldSize newSize : ℕ) :
    Keeps (fun b => (k.growMapping host read oldAddr oldSize newSize).2.isOk
      && unmaps oldAddr oldSize b) k (k.growMapping host read oldAddr oldSize newSize).1 := by
  rw [Kernel.growMapping]
  cases host.findFree k.mem k.mmapNext newSize PAGE_SIZE with
  | none => exact refl k
  | some target =>
    have hmap : ∀ gone, Keeps gone k
        { k with mem := (k.mem.mapMemoryLen target newSize eagerCell).1 } :=
      fun _ => of_mem fun b _ hb => isMapped_mapMemoryLen hb
    dsimp only
    split_ifs
    · exact refl k
    · exact hmap _
    cases readBytes (k.mem.mapMemoryLen target newSize eagerCell).1 oldAddr oldSize with
    | none => exact hmap _
    | some buf =>
      have hwrite := fun gone => (hmap gone).trans (writeMem _ read target buf)
      dsimp only
      generalize Kernel.writeMem read _ target buf = written at hwrite ⊢
      obtain ⟨k₁, _ | _⟩ := written
      · exact hwrite _
      refine (hwrite _).trans (of_mem fun b hb hm => ?_)
      rw [isMapped_settlePages, isMapped_carryBacking]
      exact isMapped_unmap hb hm

/-- **`mremap` unmaps the tail it cuts off, or the place it moves from.** -/
lemma sysMremap (host : Host) (read : ChunkReader)
    (oldAddr oldSize newSize flags : ℕ) :
    Keeps (remapped oldAddr oldSize newSize flags) k
      (k.sysMremap host read oldAddr oldSize newSize flags).1 := by
  rw [Kernel.sysMremap]
  dsimp only
  split_ifs with h₁ h₂ hshrink hsame hmove
  · exact refl k
  · exact refl k
  all_goals
    have hargs : ¬ (oldAddr % PAGE_SIZE ≠ 0 ∨ newSize = 0 ∨ oldSize = 0 ∨ flags &&& 2 ≠ 0) := by
      rintro (h | h | h | h)
      exacts [h₁ (.inl h), h₁ (.inr (.inl h)), h₁ (.inr (.inr h)), h₂ h]
  · have hkeep : ∀ b, remapped oldAddr oldSize newSize flags b = false →
        k.mem.isMapped b →
        isMapped (k.mem.unmapMemoryLen (wrapAdd oldAddr (alignUp newSize PAGE_SIZE))
          (alignUp oldSize PAGE_SIZE - alignUp newSize PAGE_SIZE)).1 b = true := by
      intro b hb hm
      rw [remapped, if_neg hargs, if_pos hshrink] at hb
      exact isMapped_unmap hb hm
    exact of_mem hkeep
  · exact refl k
  · exact refl k
  have hgrow := growMapping k host read oldAddr (alignUp oldSize PAGE_SIZE)
    (alignUp newSize PAGE_SIZE)
  refine hgrow.mono fun b hb => ?_
  rw [remapped, if_neg hargs, if_neg hshrink,
    if_neg fun h => h.elim hsame hmove] at hb
  rw [hb, Bool.and_false]

variable {k}

end Keeps

end Kernel

/-! ### Address spaces -/

namespace Kernel

variable {gone : ℕ → Bool} {k k' : Kernel}

/-- The memory of a live address space. -/
def space (k : Kernel) (a : ℕ) : Option Mem :=
  if k.running = true ∧ a = k.asid then some k.mem else (k.parked a).map Parked.mem

lemma space_self (hrun : k.running) : k.space k.asid = some k.mem := if_pos ⟨hrun, rfl⟩

lemma space_of_ne {a : ℕ} (h : a ≠ k.asid) : k.space a = (k.parked a).map Parked.mem :=
  if_neg fun h' => h h'.2

/-- A switch keeps every memory. -/
lemma space_switchTo (hk : k.Distinct) (asid a : ℕ) : (k.switchTo asid).space a = k.space a := by
  rw [switchTo]
  split
  · rfl
  rename_i p hp
  dsimp only [space]
  by_cases ha : a = asid
  · subst ha
    have hne : ¬ (k.running = true ∧ a = k.asid) := by
      rintro ⟨hrun, rfl⟩
      rw [hk.apart hrun] at hp
      cases hp
    rw [if_pos ⟨rfl, rfl⟩, if_neg hne, hp]
    rfl
  rw [if_neg fun h => ha h.2]
  by_cases hrun : k.running
  · rw [if_pos hrun]
    by_cases hcur : a = k.asid
    · rw [if_pos ⟨hrun, hcur⟩, hcur, update_self]
      rfl
    · rw [if_neg fun h => hcur h.2, update_of_ne hcur, update_of_ne ha]
  · rw [if_neg hrun, if_neg fun h => hrun h.1, update_of_ne ha]

lemma Forks.finishFork (k : Kernel) (read : ChunkReader) (g : Pager) (pid : ℕ)
    (childTid : Option ℕ) :
    Forks k (finishFork read { k with nextAsid := k.nextAsid + 1, pager := g } pid
      k.nextAsid childTid) := by
  cases childTid with
  | none => exact ⟨rfl, rfl, rfl, fun _ ha => update_of_ne ha .., fun _ hb => hb⟩
  | some tid =>
    have hwrite := (Keeps.writeMem { k with nextAsid := k.nextAsid + 1, pager := g } read tid
      (leBytes32 pid) : Keeps (fun _ => false) _ _)
    exact ⟨hwrite.asid, hwrite.running, hwrite.nextAsid,
      fun _ ha => update_of_ne ha .., fun _ hb => hb⟩

/-- A fork that fails has written at most its parent's copy of the id. -/
lemma Forks.sysFork (k : Kernel) (read : ChunkReader) (pid : ℕ) (parentTid childTid : Option ℕ) :
    match k.sysFork read pid parentTid childTid with
    | (k', .error _) => Keeps (fun _ => false) k k'
    | (k', .ok _) => Forks k k' := by
  cases parentTid with
  | none => exact Forks.finishFork k read _ pid childTid
  | some tid =>
    have hwrite := (Keeps.writeMem k read tid (leBytes32 pid) : Keeps (fun _ => false) _ _)
    rw [Kernel.sysFork]
    dsimp only
    cases hw : k.writeMem read tid (leBytes32 pid) with
    | mk k₁ out =>
      rw [hw] at hwrite
      cases out with
      | error e => exact hwrite
      | ok _ =>
        have hfork := Forks.finishFork k₁ read (k₁.pager.forkSpace k₁.asid k₁.nextAsid) pid
          childTid
        exact ⟨hfork.asid.trans hwrite.asid, hfork.running.trans hwrite.running,
          hfork.nextAsid.trans (congrArg (· + 1) hwrite.nextAsid),
          fun a ha => (hfork.parked a (hwrite.nextAsid ▸ ha)).trans
            (congrFun hwrite.parked a),
          fun b hb => hfork.mapped b (hwrite.mapped b rfl hb)⟩

end Kernel

/-! ### What a write-back stores -/

namespace Mem

variable {m : Mem}

end Mem

namespace Shared

/-- The byte is one of the mapping's. -/
def SharedMap.Covers (m : SharedMap) (b : ℕ) : Prop := m.addr ≤ b ∧ b < m.addr + m.len

/-- The place in the file that belongs to a byte of the mapping. -/
def SharedMap.place (m : SharedMap) (b : ℕ) : ℕ × ℕ := (m.node, m.offset + (b - m.addr))

/-- A mapping as `mmap` makes them. -/
structure SharedMap.Fits (m : SharedMap) (bits : ℕ) : Prop where
  inSpace : m.addr + m.len ≤ 2 ^ 64
  len_lt : m.len < 2 ^ bits
  offset_lt : m.offset < 2 ^ bits

variable {bits : ℕ} {mem : Mem} {files : ℕ → Option Bytes} {addr offset : ℕ}

lemma SharedMap.covers_mk {node : ℕ} :
    SharedMap.Covers ⟨asid, addr, len, node, offset⟩ b ↔ addr ≤ b ∧ b < addr + len :=
  Iff.rfl

lemma SharedMap.fits_mk {node : ℕ} (h₁ : addr + len ≤ 2 ^ 64) (h₂ : len < 2 ^ bits)
    (h₃ : offset < 2 ^ bits) :
    SharedMap.Fits ⟨asid, addr, len, node, offset⟩ bits :=
  ⟨h₁, h₂, h₃⟩

variable {data : Bytes}

variable {m : SharedMap} {s : Store}

variable {c : Cell}

variable {ms : List SharedMap}

namespace World

variable (host : Host)

/-- **The list is right**: at the bytes of every mapping of a live address space memory is mapped,
and it is the mapping's file that is. -/
structure Tracked (w : World) : Prop where
  distinct : w.kernel.Distinct
  fits : ∀ m ∈ w.maps, m.Fits host.usizeBits
  known : ∀ m ∈ w.maps, m.asid < w.kernel.nextAsid
  mapped : ∀ m ∈ w.maps, ∀ mem, w.kernel.space m.asid = some mem → ∀ b, m.Covers b →
    mem.isMapped b = true ∧ w.mapped m.asid b = some (m.place b)

variable {host} {w w' : World}

/-- A step that makes no mapping only has to keep those of the address spaces that stay. -/
lemma Tracked.of_space (h : w.Tracked host) (hids : w'.kernel.Distinct)
    (hnext : w.kernel.nextAsid ≤ w'.kernel.nextAsid) (hmaps : ∀ m ∈ w'.maps, m ∈ w.maps)
    (hspace : ∀ m ∈ w'.maps, ∀ mem', w'.kernel.space m.asid = some mem' → ∀ b, m.Covers b →
      ∃ mem, w.kernel.space m.asid = some mem ∧
        (mem.isMapped b = true → mem'.isMapped b ∧
          w'.mapped m.asid b = w.mapped m.asid b)) :
    w'.Tracked host where
  distinct := hids
  fits m hm := h.fits m (hmaps m hm)
  known m hm := (h.known m (hmaps m hm)).trans_le hnext
  mapped m hm mem' hmem' b hb := by
    obtain ⟨mem, hmem, hkeep⟩ := hspace m hm mem' hmem' b hb
    obtain ⟨hmapped, hplace⟩ := h.mapped m (hmaps m hm) mem hmem b hb
    obtain ⟨hmapped', hsame⟩ := hkeep hmapped
    exact ⟨hmapped', hsame.trans hplace⟩

variable {gone : ℕ → Bool} {len target : ℕ} {k : Kernel} {read : ChunkReader} {event : Event}

/-- A call of the running process that unmaps no byte of a mapping that stays. -/
lemma Tracked.of_keeps (h : w.Tracked host) (hrun : w.kernel.running)
    (hkeep : Kernel.Keeps gone w.kernel w'.kernel) (hmaps : ∀ m ∈ w'.maps, m ∈ w.maps)
    (hgone : ∀ m ∈ w'.maps, m.asid = w.kernel.asid → ∀ b, m.Covers b → gone b = false)
    (hother : ∀ a, a ≠ w.kernel.asid → w'.mapped a = w.mapped a)
    (hself : ∀ b, gone b = false → w.kernel.mem.isMapped b →
      w'.mapped w.kernel.asid b = w.mapped w.kernel.asid b) :
    w'.Tracked host := by
  refine h.of_space (h.distinct.same hkeep.toSameSpaces) hkeep.nextAsid.ge hmaps ?_
  intro m hm mem' hmem' b hb
  by_cases ha : m.asid = w.kernel.asid
  · rw [ha, ← hkeep.asid, space_self (hkeep.running.trans hrun)] at hmem'
    obtain rfl := some.inj hmem'
    have hb' := hgone m hm ha b hb
    rw [ha]
    exact ⟨_, space_self hrun, fun hin => ⟨hkeep.mapped b hb' hin, hself b hb' hin⟩⟩
  · rw [space_of_ne (hkeep.asid ▸ ha), hkeep.parked, ← space_of_ne ha] at hmem'
    exact ⟨mem', hmem', fun hin => ⟨hin, by rw [hother _ ha]⟩⟩

/-- A mapping that is made where nothing was mapped goes into the list. -/
lemma Tracked.push (h : w.Tracked host) (hrun : w.kernel.running) (hm : m.Fits host.usizeBits)
    (ha : m.asid = w.kernel.asid) (hmaps : w'.maps = w.maps ++ [m]) (hkernel : w'.kernel = w.kernel)
    (hmapped : ∀ b, m.Covers b → w.kernel.mem.isMapped b)
    (hplace : ∀ b, m.Covers b → w'.mapped m.asid b = some (m.place b))
    (hfree : ∀ m' ∈ w.maps, m'.asid = m.asid → ∀ b, m'.Covers b → ¬ m.Covers b)
    (hsame : ∀ a b, ¬ (a = m.asid ∧ m.Covers b) → w'.mapped a b = w.mapped a b) :
    w'.Tracked host := by
  refine ⟨hkernel ▸ h.distinct, ?_, ?_, ?_⟩ <;> rw [hmaps]
  · intro m' hm'
    rcases mem_append.mp hm' with hm' | hm'
    · exact h.fits m' hm'
    · rw [mem_singleton.mp hm']
      exact hm
  · intro m' hm'
    rw [hkernel]
    rcases mem_append.mp hm' with hm' | hm'
    · exact h.known m' hm'
    · rw [mem_singleton.mp hm', ha]
      exact h.distinct.asid_lt
  intro m' hm' mem hmem b hb
  rw [hkernel] at hmem
  rcases mem_append.mp hm' with hm' | hm'
  · obtain ⟨hin, hold⟩ := h.mapped m' hm' mem hmem b hb
    exact ⟨hin, (hsame _ b fun hc => hfree m' hm' hc.1 b hb hc.2).trans hold⟩
  obtain rfl := mem_singleton.mp hm'
  rw [ha, space_self hrun] at hmem
  obtain rfl := some.inj hmem
  exact ⟨hmapped b hb, hplace b hb⟩

variable {a : Kernel.MmapArgs}

lemma mmapContents_bytes (h : mmapContents host a len = .ok (.bytes data))
    : len < 2 ^ host.usizeBits := by
  rw [mmapContents] at h
  split at h
  · cases h
  split at h
  · cases h
  · cases h
  · cases h
  · dsimp only at h
    split_ifs at h with hlen
    exact hlen
  · split_ifs at h
    cases h
  · split_ifs at h

/-- Where `mmap` puts a shared mapping: a range that nothing else is left in, and that is mapped
when the call returns. -/
lemma sharedTarget_some (h : sharedTarget host k read a = some target) :
    a.isShared ∧ target + alignUp a.len PAGE_SIZE ≤ 2 ^ 64 ∧
      alignUp a.len PAGE_SIZE < 2 ^ host.usizeBits ∧
      ∀ b, target ≤ b → b < target + alignUp a.len PAGE_SIZE →
        (k.mem.isMapped b = true → (mmapStarts a && replaced a b)) ∧
        (k.sysMmap host read a).1.mem.isMapped b := by
  rw [sharedTarget] at h
  split_ifs at h with hstart
  have hstarts : mmapStarts a ∧ a.isShared := by
    simpa only [Bool.or_eq_true, Bool.not_eq_true', not_or, Bool.not_eq_false] using hstart
  have hkeep := Kernel.Keeps.mmapTarget k host a
  have hargs : a.len ≠ 0 ∧ ¬ (!a.isAnonymous && a.offset % PAGE_SIZE != 0) = true := by
    have := hstarts.1
    rw [mmapStarts, Bool.and_eq_true] at this
    cases ha : a.isAnonymous <;> simp_all
  rw [Kernel.sysMmap, if_neg hargs.1, if_neg hargs.2]
  dsimp only
  cases ht : k.mmapTarget host a (alignUp a.len PAGE_SIZE) with
  | mk k₁ t =>
  rw [ht] at h hkeep
  cases t with
  | none => cases h
  | some t =>
  dsimp only at h ⊢
  cases hc : mmapContents host a (alignUp a.len PAGE_SIZE) with
  | error e => simp only [hc, reduceCtorEq] at h
  | ok contents =>
  rw [hc] at h
  cases contents with
  | anonymous | chunked => cases h
  | bytes data =>
  dsimp only at h ⊢
  split at h
  · rename_i hok hwrite
    obtain rfl := some.inj h
    obtain ⟨-, hspace, hfree, hmap⟩ := mapMemoryLen_ok hok
    refine ⟨hstarts.2, hspace, mmapContents_bytes hc, fun b h₁ h₂ => ⟨fun hb => ?_, ?_⟩⟩
    · -- A byte that was mapped and not replaced would still be.
      by_contra hnot
      rw [hstarts.1, Bool.true_and, Bool.not_eq_true] at hnot
      obtain ⟨c, hc⟩ := isMapped_eq_true.mp (hkeep.mapped b hnot hb)
      rw [hfree b h₁ h₂] at hc
      cases hc
    have hcell : (Kernel.MapContents.bytes data).cell = eagerCell := rfl
    rw [hcell, if_pos hok]
    refine (Kernel.Keeps.fillMmap _ read a t _ _ : Kernel.Keeps (fun _ => false) _ _).mapped b
      rfl ?_
    dsimp only
    rw [hmap, isMapped, editOn_inside h₁ h₂]
    rfl
  · cases h

/-! ### The condition on a step -/

/-- The file has what memory has at the byte, as far as it reaches. -/
def Clean (w : World) (b : ℕ) : Prop :=
  ∀ node offset c data, w.mapped w.kernel.asid b = some (node, offset) →
    w.kernel.mem b = some c → w.files node = some data → offset < data.length →
    data[offset]? = some c.value

/-- A mapping of the running process in the list has the byte. -/
def Listed (w : World) (b : ℕ) : Prop := ∃ m ∈ w.maps, m.asid = w.kernel.asid ∧ m.Covers b

variable (host) in
/-- The condition on a call.  `munmap` takes whole mappings of the list; what it takes besides, and
what the other calls take, is in no mapping of the list, and its file has it. -/
def SafeCall (w : World) : Event → Prop
  | .mmap _ args node =>
    (∀ b, (mmapStarts args && replaced args b) = true → ¬ w.Listed b ∧ w.Clean b) ∧
      (node.isSome = true → args.isShared = true → args.offset < 2 ^ host.usizeBits)
  | .munmap addr len =>
    (∀ m ∈ w.maps, m.asid = w.kernel.asid → ∀ b, m.Covers b →
      unmaps addr.toNat len.toNat b =
        m.touches w.kernel.asid addr.toNat (alignUp len.toNat PAGE_SIZE)) ∧
      ∀ b, unmaps addr.toNat len.toNat b = true → w.Listed b ∨ w.Clean b
  | .mremap _ oldAddr oldSize newSize flags =>
    ∀ b, remapped oldAddr.toNat oldSize.toNat newSize.toNat flags.toNat b = true →
      ¬ w.Listed b ∧ w.Clean b
  | .execve _ => ∀ b, w.Clean b
  | .exit => ∀ b, w.Clean b
  | _ => True

variable (host) in
/-- The condition on a step. -/
def Safe (w : World) : Input → Prop
  | .call event => w.kernel.running = true → w.SafeCall host event
  | _ => True

/-! ### One step -/

lemma mmapArgs_eq (w : World) (a : Kernel.MmapArgs) (node : Option ℕ) :
    ∃ source, w.mmapArgs a node = { a with source } := by
  unfold mmapArgs
  split
  · split <;> exact ⟨_, rfl⟩
  split
  · exact ⟨_, rfl⟩
  · exact ⟨a.source, rfl⟩

/-- A byte of a mapping in the list is not one that a safe call takes away. -/
lemma not_gone (h : ∀ b, gone b → ¬ w.Listed b ∧ w.Clean b) :
    ∀ m ∈ w.maps, m.asid = w.kernel.asid → ∀ b, m.Covers b → gone b = false := by
  intro m hm ha b hb
  by_contra hb'
  exact (h b (Bool.not_eq_false _ ▸ hb')).1 ⟨m, hm, ha, hb⟩

lemma clear_other {a : ℕ} (ha : a ≠ w.kernel.asid) :
    (w.clear gone).mapped a = w.mapped a :=
  funext fun _ => if_neg fun h => ha h.1

lemma clear_self (hb : gone b = false) :
    (w.clear gone).mapped w.kernel.asid b = w.mapped w.kernel.asid b :=
  if_neg fun h => Bool.false_ne_true (hb.symm.trans h.2)

/-- A call that unmaps `gone` and tells only the map. -/
lemma Tracked.clear (h : w.Tracked host) (hrun : w.kernel.running)
    (hkeep : Kernel.Keeps gone w.kernel k)
    (hgone : ∀ b, gone b → ¬ w.Listed b ∧ w.Clean b) :
    ({ w.clear gone with kernel := k } : World).Tracked host :=
  h.of_keeps hrun hkeep (fun _ hm => hm) (not_gone hgone) (fun _ ha => clear_other ha)
    fun _ hb _ => clear_self hb

/-- A call that unmaps nothing. -/
lemma Tracked.quiet (h : w.Tracked host) (hrun : w.kernel.running)
    (hkeep : Kernel.Keeps (fun _ => false) w.kernel k) :
    ({ w with kernel := k } : World).Tracked host :=
  h.of_keeps hrun hkeep (fun _ hm => hm) (fun _ _ _ _ _ => rfl) (fun _ _ => rfl) fun _ _ _ => rfl

variable {args : Kernel.MmapArgs} {node : Option ℕ}

/-- `mmap` clears its target first, so a new shared mapping overlaps no other. -/
lemma Tracked.sysMmap (h : w.Tracked host) (hrun : w.kernel.running)
    (hsafe : w.SafeCall host (.mmap read args node)) :
    (w.sysMmap host read args node).Tracked host := by
  obtain ⟨hgone, hoffset⟩ := hsafe
  obtain ⟨source, hargs⟩ := w.mmapArgs_eq args node
  unfold World.sysMmap
  rw [hargs]
  dsimp only
  have hafter := h.clear hrun
    (Kernel.Keeps.sysMmap w.kernel host read { args with source := source }) hgone
  have hkeep := Kernel.Keeps.sysMmap w.kernel host read { args with source := source }
  split
  · rename_i target n htarget
    obtain ⟨hshared, hspace, hlen, hrange⟩ := sharedTarget_some htarget
    dsimp only at hspace hlen hrange
    refine hafter.push (hkeep.running.trans hrun)
      (SharedMap.fits_mk hspace hlen (hoffset rfl hshared)) hkeep.asid.symm rfl rfl ?_
      (fun b hb => if_pos ⟨rfl, SharedMap.covers_mk.mp hb⟩) ?_
      (fun a b hb => if_neg fun h => hb ⟨h.1, SharedMap.covers_mk.mpr h.2⟩)
    · intro b hb
      rw [SharedMap.covers_mk] at hb
      exact (hrange b hb.1 hb.2).2
    intro m hm hasid b hb hnew
    rw [SharedMap.covers_mk] at hnew
    have ha : m.asid = w.kernel.asid := hasid
    have hmapped := (h.mapped m hm _ (ha ▸ space_self hrun) b hb).1
    exact (hgone b ((hrange b hnew.1 hnew.2).1 hmapped)).1 ⟨m, hm, ha, hb⟩
  · exact hafter

lemma Tracked.sysMunmap (h : w.Tracked host) (hrun : w.kernel.running) {addr len : UInt64}
    (hsafe : w.SafeCall host (.munmap addr len)) :
    (w.sysMunmap host addr.toNat len.toNat).2.Tracked host := by
  refine h.of_keeps hrun (Kernel.Keeps.sysMunmap w.kernel addr.toNat len.toNat)
    (fun m hm => (mem_filter.mp hm).1) ?_ (fun _ ha => clear_other ha)
    fun _ hb _ => clear_self hb
  intro m hm ha b hb
  obtain ⟨hm, htouch⟩ := mem_filter.mp hm
  rw [hsafe.1 m hm ha b hb]
  exact Bool.not_eq_true' _ ▸ htouch

variable {k' : Kernel}

/-- A mapping that moves goes to a range in which nothing was mapped. -/
lemma growMapping_free (h : k.growMapping host read oldAddr oldSize newSize = (k', .ok target)) :
    ∀ b, target ≤ b → b < target + newSize → k.mem b = none := by
  rw [growMapping] at h
  split at h
  · cases h
  dsimp only at h
  split_ifs at h with hok
  · cases h
  · cases h
  split at h
  · cases h
  split at h
  · cases h
  · obtain rfl := Except.ok.inj (Prod.mk.inj h).2
    exact (mapMemoryLen_ok (by simpa using hok)).2.2.1

/-- An `mremap` that succeeds: what it takes away, and that it moves to a free range. -/
lemma sysMremap_ok {flags : ℕ}
    (h : k.sysMremap host read oldAddr oldSize newSize flags = (k', .ok target)) :
    (∀ b, remapped oldAddr oldSize newSize flags b =
      if alignUp newSize PAGE_SIZE < alignUp oldSize PAGE_SIZE then
        shrunk oldAddr (alignUp oldSize PAGE_SIZE) (alignUp newSize PAGE_SIZE) b
      else if alignUp newSize PAGE_SIZE = alignUp oldSize PAGE_SIZE then false
      else unmaps oldAddr (alignUp oldSize PAGE_SIZE) b) ∧
      (alignUp oldSize PAGE_SIZE < alignUp newSize PAGE_SIZE →
        ∀ b, target ≤ b → b < target + alignUp newSize PAGE_SIZE → k.mem b = none) := by
  rw [Kernel.sysMremap] at h
  dsimp only at h
  split_ifs at h with h₁ h₂ hshrink hsame hmove
  · cases h
  · cases h
  all_goals
    have hargs : ¬ (oldAddr % PAGE_SIZE ≠ 0 ∨ newSize = 0 ∨ oldSize = 0 ∨ flags &&& 2 ≠ 0) := by
      rintro (h | h | h | h)
      exacts [h₁ (.inl h), h₁ (.inr (.inl h)), h₁ (.inr (.inr h)), h₂ h]
  · refine ⟨fun b => ?_, fun hgrow => absurd hgrow hshrink.not_gt⟩
    rw [remapped, if_neg hargs, if_pos hshrink, if_pos hshrink]
  · refine ⟨fun b => ?_, fun hgrow => absurd hsame hgrow.ne'⟩
    rw [remapped, if_neg hargs, if_neg hshrink, if_pos (.inl hsame), if_neg hshrink,
      if_pos hsame]
  · cases h
  refine ⟨fun b => ?_, fun _ => growMapping_free h⟩
  rw [remapped, if_neg hargs, if_neg hshrink, if_neg fun h => h.elim hsame hmove,
    if_neg hshrink, if_neg hsame]

/-- `mremap` leaves the map as it is where it takes nothing away. -/
lemma sysMremap_mapped (w : World) (read : ChunkReader) (oldAddr oldSize newSize flags : ℕ) :
    (∀ a, a ≠ w.kernel.asid →
      (w.sysMremap host read oldAddr oldSize newSize flags).mapped a = w.mapped a) ∧
    ∀ b, remapped oldAddr oldSize newSize flags b = false → w.kernel.mem.isMapped b →
      (w.sysMremap host read oldAddr oldSize newSize flags).mapped w.kernel.asid b =
        w.mapped w.kernel.asid b := by
  unfold World.sysMremap
  dsimp only
  split
  · exact ⟨fun _ _ => rfl, fun _ _ _ => rfl⟩
  rename_i k target he
  obtain ⟨hgone, hfree⟩ := sysMremap_ok he
  by_cases hshrink : alignUp newSize PAGE_SIZE < alignUp oldSize PAGE_SIZE
  · simp only [if_pos hshrink] at hgone ⊢
    exact ⟨fun _ ha => clear_other ha, fun b hb _ => clear_self (hgone b ▸ hb)⟩
  by_cases hsame : alignUp newSize PAGE_SIZE = alignUp oldSize PAGE_SIZE
  · rw [if_neg hshrink, if_pos hsame]
    exact ⟨fun _ _ => rfl, fun _ _ _ => rfl⟩
  simp only [if_neg hshrink, if_neg hsame] at hgone ⊢
  refine ⟨fun a ha => funext fun b => ?_, fun b hb hin => ?_⟩
  · rw [if_neg fun h => ha h.1]
    exact congrFun (clear_other ha) b
  rw [if_neg, clear_self (hgone b ▸ hb)]
  -- the target was free, so nothing mapped is in it
  rintro ⟨-, h₁, h₂⟩
  obtain ⟨c, hc⟩ := isMapped_eq_true.mp hin
  rw [hfree (by omega) b h₁ (by omega)] at hc
  cases hc

lemma sysMremap_kernel (w : World) (read : ChunkReader) (oldAddr oldSize newSize flags : ℕ) :
    (w.sysMremap host read oldAddr oldSize newSize flags).kernel =
        (w.kernel.sysMremap host read oldAddr oldSize newSize flags).1 ∧
      (w.sysMremap host read oldAddr oldSize newSize flags).maps = w.maps := by
  unfold World.sysMremap
  dsimp only
  split
  · rename_i he
    exact ⟨(congrArg Prod.fst he).symm, rfl⟩
  rename_i he
  rw [he]
  split_ifs <;> exact ⟨rfl, rfl⟩

section

variable (h : w.Tracked host) (hrun : w.kernel.running)
include h hrun

lemma Tracked.sysMremap {oldAddr oldSize newSize flags : UInt64}
    (hsafe : w.SafeCall host (.mremap read oldAddr oldSize newSize flags)) :
    (w.sysMremap host read oldAddr.toNat oldSize.toNat newSize.toNat flags.toNat).Tracked
      host := by
  obtain ⟨hkernel, hmaps⟩ := @sysMremap_kernel host w read oldAddr.toNat oldSize.toNat
    newSize.toNat flags.toNat
  obtain ⟨hother, hself⟩ := @sysMremap_mapped host w read oldAddr.toNat oldSize.toNat
    newSize.toNat flags.toNat
  refine h.of_keeps hrun (hkernel ▸ Kernel.Keeps.sysMremap ..) (fun m hm => hmaps ▸ hm) ?_ hother
    hself
  rw [hmaps]
  exact not_gone hsafe

lemma Tracked.sysFork (read : ChunkReader) (pid : ℕ) (parentTid childTid : Option ℕ) :
    (w.sysFork read pid parentTid childTid).Tracked host := by
  have hfork := Kernel.Forks.sysFork w.kernel read pid parentTid childTid
  rw [World.sysFork]
  split
  · rename_i he
    rw [he] at hfork
    exact h.quiet hrun hfork
  rename_i k _ he
  rw [he] at hfork
  dsimp only at hfork
  refine h.of_space (hfork.distinct h.distinct) (hfork.nextAsid ▸ le_succ _)
    (fun _ hm => hm) ?_
  intro m hm mem' hmem' b hb
  have hne := Nat.ne_of_lt (h.known m hm)
  dsimp only at hmem' ⊢
  by_cases ha : m.asid = w.kernel.asid
  · rw [ha, ← hfork.asid, space_self (hfork.running.trans hrun)] at hmem'
    obtain rfl := some.inj hmem'
    rw [ha, space_self hrun]
    exact ⟨_, rfl, fun hb => ⟨hfork.mapped b hb, if_neg (ha ▸ hne)⟩⟩
  rw [space_of_ne (hfork.asid ▸ ha), hfork.parked _ hne,
    ← space_of_ne ha] at hmem'
  exact ⟨mem', hmem', fun hb => ⟨hb, if_neg hne⟩⟩

/-- Without its process an address space is gone; its mappings stay in the list and are no longer
looked at. -/
lemma Tracked.leave (hk : k.Distinct) (hnext : w.kernel.nextAsid ≤ k.nextAsid)
    (hparked : k.parked = w.kernel.parked) (hfresh : k.running → w.kernel.nextAsid ≤ k.asid) :
    ({ w.clear (fun _ => true) with kernel := k } : World).Tracked host := by
  refine h.of_space hk hnext (fun _ hm => hm) ?_
  intro m hm mem' hmem' b hb
  dsimp only at hmem' ⊢
  have hknown := h.known m hm
  have hspace : k.space m.asid = (w.kernel.parked m.asid).map Parked.mem := by
    rw [space, if_neg, hparked]
    rintro ⟨hrun', ha⟩
    have := hfresh hrun'
    omega
  rw [hspace] at hmem'
  have hne : m.asid ≠ w.kernel.asid := by
    intro ha
    rw [ha, h.distinct.apart hrun] at hmem'
    cases hmem'
  exact ⟨mem', (space_of_ne hne).trans hmem', fun hb => ⟨hb, congrFun (clear_other hne) b⟩⟩

lemma Tracked.call (hsafe : w.SafeCall host event) : (w.call host event).2.Tracked host := by
  cases event with
  | mmap => exact h.sysMmap hrun hsafe
  | munmap => exact h.sysMunmap hrun hsafe
  | msync => exact ⟨h.distinct, h.fits, h.known, h.mapped⟩
  | mremap => exact h.sysMremap hrun hsafe
  | fork read pid parentTid childTid => exact h.sysFork hrun read pid parentTid childTid
  | execve image =>
    obtain ⟨hasid, hnext, hparked⟩ := w.kernel.sysExecve_ids host image
    exact h.leave hrun (h.distinct.sysExecve host image) (hnext ▸ le_succ _) hparked
      fun _ => hasid.ge
  | exit =>
    exact h.leave hrun ⟨nofun, h.distinct.asid_lt, h.distinct.parked_lt⟩ le_rfl rfl nofun
  | mprotect => exact h.quiet hrun (Kernel.Keeps.sysMprotect _ _ _ _)
  | brk => exact h.quiet hrun (Kernel.Keeps.sysBrk _ _)
  | fault => exact h.quiet hrun (.transfers (guestFault_transfers ..))
  | hostTouch =>
    exact h.quiet hrun (.transfers (hostTouch_transfers ..))
  | poke f =>
    refine h.quiet hrun (Kernel.Keeps.of_mem fun b _ hb => ?_)
    rw [isMapped, isSome_map]
    exact hb

end

variable {input : Input}

/-- **A safe step keeps the list right.** -/
lemma Tracked.step (h : w.Tracked host) (hsafe : w.Safe host input) :
    (w.step host input).Tracked host := by
  cases input with
  | call =>
    rw [World.step, exec]
    by_cases hrun : w.kernel.running
    · rw [if_pos hrun]
      exact h.call hrun (hsafe hrun)
    · rw [if_neg hrun]
      exact h
  | switch asid =>
    refine h.of_space (h.distinct.switchTo asid) ?_ (fun _ hm => hm) ?_
    · dsimp only [World.step, exec]
      rw [switchTo]
      split <;> exact le_rfl
    intro m hm mem' hmem' b hb
    rw [World.step, exec] at hmem'
    rw [space_switchTo h.distinct] at hmem'
    exact ⟨mem', hmem', fun hb => ⟨hb, rfl⟩⟩
  | files => exact ⟨h.distinct, h.fits, h.known, h.mapped⟩

/-! ### What a step stores, and what it takes away -/

/-- One file, node 7, of one byte. -/
def oneByte : ℕ → Option Bytes := fun node => if node = 7 then some [1] else none

end World

end Shared

end WebTos
