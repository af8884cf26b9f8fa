import WebTos.Mem.SharedRun
import WebTos.Mem.Usable

/-!
The ranges that `munmap`, `mmap` and `mremap` pass to `unmap_memory_len`.

The MMU unmaps whole pages only: a range that begins or ends inside a page, or that runs past the
end of the address space, must not reach it.

* `UnmapCall.unmaps`: the ranges of a call, in the state it is made in; nothing outside of them
  is unmapped (`UnmapCall.exec_keeps`);
* `UnmapCall.Careful`: the ranges are whole pages, and an unaligned address is refused;
* `UnmapCall.Tidy`: when a call is careful in every state (`UnmapCall.careful_iff_tidy`).
-/

namespace WebTos

open Lib Kernel List

/-- A call that may unmap. -/
inductive UnmapCall where
  | munmap (addr len : UInt64)
  | mmap (args : MmapArgs)
  | mremap (oldAddr oldSize newSize flags : UInt64)

/-- `sys_mmap` refuses the call before it looks for a range. -/
def Kernel.MmapArgs.Refused (a : MmapArgs) : Prop :=
  a.len = 0 ∨ (!a.isAnonymous && a.offset % PAGE_SIZE != 0) = true

instance (a : MmapArgs) : Decidable a.Refused := inferInstanceAs (Decidable (_ ∨ _))

namespace UnmapCall

/-- The call, as the kernel answers it. -/
def exec (host : Host) (read : ChunkReader) (k : Kernel) : UnmapCall → Kernel × CallResult ℕ
  | munmap addr len => k.sysMunmap addr.toNat len.toNat
  | mmap args => k.sysMmap host read args
  | mremap oldAddr oldSize newSize flags =>
    k.sysMremap host read oldAddr.toNat oldSize.toNat newSize.toNat flags.toNat

/-- The address a call is given. -/
def addr : UnmapCall → ℕ
  | munmap addr _ => addr.toNat
  | mmap args => args.addr
  | mremap oldAddr _ _ _ => oldAddr.toNat

/-- `sys_mremap` refuses the call before it looks at the range. -/
def MremapRefused (oldAddr oldSize newSize flags : ℕ) : Prop :=
  (oldAddr % PAGE_SIZE ≠ 0 ∨ newSize = 0 ∨ oldSize = 0) ∨ flags &&& 2 ≠ 0

instance (o s n f : ℕ) : Decidable (MremapRefused o s n f) := inferInstanceAs (Decidable (_ ∨ _))

/-- The ranges passed to `unmap_memory_len`, as a start and a length each.  A move that comes to
its unmapping succeeds. -/
def unmaps (host : Host) (read : ChunkReader) (k : Kernel) : UnmapCall → List (ℕ × ℕ)
  | munmap addr len => [(addr.toNat, len.toNat)]
  | mmap a =>
    if a.Refused then []
    else if a.isFixed && a.addr != 0 then [(pageOf a.addr, alignUp a.len PAGE_SIZE)]
    else []
  | mremap oldAddr oldSize newSize flags =>
    if MremapRefused oldAddr.toNat oldSize.toNat newSize.toNat flags.toNat then []
    else
      let old := alignUp oldSize.toNat PAGE_SIZE
      let new := alignUp newSize.toNat PAGE_SIZE
      if new < old then [(wrapAdd oldAddr.toNat new, old - new)]
      else if new = old ∨ flags.toNat &&& 1 = 0 then []
      else
        match (k.growMapping host read oldAddr.toNat old new).2 with
        | .ok _ => [(oldAddr.toNat, old)]
        | .error _ => []

/-- **A call unmaps nothing outside of its ranges.** -/
theorem exec_keeps (host : Host) (read : ChunkReader) (k : Kernel) (c : UnmapCall) :
    Keeps (fun b => (c.unmaps host read k).any fun r => Shared.World.unmaps r.1 r.2 b) k
      (c.exec host read k).1 := by
  cases c with
  | munmap addr len =>
    refine (Keeps.sysMunmap k addr.toNat len.toNat).mono fun b hb => ?_
    simpa [unmaps] using hb
  | mmap a =>
    refine (Keeps.sysMmap k host read a).mono fun b hb => ?_
    rw [unmaps] at hb
    split_ifs at hb with href hfixed
    · have hstarts : Shared.World.mmapStarts a = false := by
        rcases href with h | h <;> simp_all [Shared.World.mmapStarts]
      rw [hstarts, Bool.false_and]
    · rw [any_cons, any_nil, Bool.or_false] at hb
      rw [Shared.World.replaced, hb, Bool.and_false, Bool.and_false]
    · rw [Shared.World.replaced, eq_false_of_ne_true hfixed, Bool.false_and, Bool.and_false]
  | mremap oldAddr oldSize newSize flags =>
    rw [exec, Kernel.sysMremap]
    dsimp only
    by_cases h₁ : oldAddr.toNat % PAGE_SIZE ≠ 0 ∨ newSize.toNat = 0 ∨ oldSize.toNat = 0
    · rw [if_pos h₁]
      exact .refl k
    by_cases h₂ : flags.toNat &&& 2 ≠ 0
    · rw [if_neg h₁, if_pos h₂]
      exact .refl k
    have href : ¬ MremapRefused oldAddr.toNat oldSize.toNat newSize.toNat flags.toNat :=
      fun h => Or.elim h h₁ h₂
    simp only [unmaps, if_neg h₁, if_neg h₂, if_neg href]
    -- the four ways of an `mremap`: shrinking, in place, refused and moving
    by_cases hshrink : alignUp newSize.toNat PAGE_SIZE < alignUp oldSize.toNat PAGE_SIZE
    · simp only [if_pos hshrink]
      refine .of_mem fun b hb hm => Keeps.isMapped_unmap ?_ hm
      simpa using hb
    by_cases hsame : alignUp newSize.toNat PAGE_SIZE = alignUp oldSize.toNat PAGE_SIZE
    · simp only [if_neg hshrink, if_pos hsame]
      exact .refl k
    by_cases hmove : flags.toNat &&& 1 = 0
    · simp only [if_neg hshrink, if_neg hsame, if_pos hmove]
      exact .refl k
    simp only [if_neg hshrink, if_neg hsame, if_neg hmove, if_neg (not_or.mpr ⟨hsame, hmove⟩)]
    have hgrow := Keeps.growMapping k host read oldAddr.toNat (alignUp oldSize.toNat PAGE_SIZE)
      (alignUp newSize.toNat PAGE_SIZE)
    generalize k.growMapping host read oldAddr.toNat _ _ = grown at hgrow ⊢
    refine hgrow.mono fun b => ?_
    cases grown.2 with
    | error => exact fun _ => rfl
    | ok => simp [Except.isOk, Except.toBool]

/-- The range starts and ends on a page boundary and does not wrap around. -/
def Whole (r : ℕ × ℕ) : Prop :=
  r.1 % PAGE_SIZE = 0 ∧ (r.1 + r.2) % PAGE_SIZE = 0 ∧ r.1 + r.2 ≤ 2 ^ 64

/-- The call passes whole pages only, and refuses an unaligned address first. -/
def Careful (host : Host) (read : ChunkReader) (k : Kernel) (c : UnmapCall) : Prop :=
  (∀ r ∈ c.unmaps host read k, Whole r) ∧
    (c.addr % PAGE_SIZE ≠ 0 →
      c.unmaps host read k = [] ∧ (c.exec host read k).2 = .error Errno.EINVAL)

/-- The arguments with which a call is careful in every state. -/
def Tidy : UnmapCall → Prop
  | munmap addr len => Whole (addr.toNat, len.toNat)
  | mmap a => a.Refused ∨ a.addr % PAGE_SIZE = 0 ∧
      (a.isFixed = true → a.addr + alignUp a.len PAGE_SIZE ≤ 2 ^ 64)
  | mremap oldAddr oldSize newSize flags =>
    let old := alignUp oldSize.toNat PAGE_SIZE
    let new := alignUp newSize.toNat PAGE_SIZE
    MremapRefused oldAddr.toNat oldSize.toNat newSize.toNat flags.toNat ∨
      (new < old → oldAddr.toNat + old ≤ 2 ^ 64 ∨ 2 ^ 64 ≤ oldAddr.toNat + new) ∧
      (old < new → flags.toNat &&& 1 ≠ 0 → oldAddr.toNat + old ≤ 2 ^ 64)

/-! ### A rounded size -/

lemma alignUp_le (v : ℕ) : alignUp v PAGE_SIZE + PAGE_SIZE ≤ 2 ^ 64 := by
  rw [alignUp]
  simp only [PAGE_SIZE]
  split_ifs <;> omega

lemma alignUp_alignUp (v : ℕ) : alignUp (alignUp v PAGE_SIZE) PAGE_SIZE = alignUp v PAGE_SIZE := by
  have hmod := alignUp_mod v
  have hle := alignUp_le v
  generalize alignUp v PAGE_SIZE = w at hmod hle ⊢
  rw [alignUp]
  simp only [PAGE_SIZE] at *
  split_ifs <;> omega

/-! ### The calls -/

variable {host : Host} {read : ChunkReader} {k : Kernel}

lemma careful_munmap_iff (a l : UInt64) :
    (munmap a l).Careful host read k ↔ Whole (a.toNat, l.toNat) := by
  simp only [Careful, unmaps, mem_singleton, forall_eq]
  constructor
  · exact fun h => h.1
  · exact fun h => ⟨h, fun hne => absurd h.1 hne⟩

/-- A refused `mmap` unmaps nothing. -/
lemma careful_of_refused {a : MmapArgs} (h : a.Refused) :
    (mmap a).Careful host read k := by
  have hnone : (mmap a).unmaps host read k = [] := by rw [unmaps, if_pos h]
  refine ⟨fun r hr => ?_, fun _ => ⟨hnone, ?_⟩⟩
  · rw [hnone] at hr
    cases hr
  rw [exec, Kernel.sysMmap]
  rcases h with h | h
  · rw [if_pos h]
  split_ifs
  · rfl
  · rfl

lemma careful_mmap {a : MmapArgs} (h : (mmap a).Tidy) : (mmap a).Careful host read k := by
  rcases h with h | ⟨halign, hfits⟩
  · exact careful_of_refused h
  refine ⟨fun r hr => ?_, fun hne => absurd halign hne⟩
  rw [unmaps] at hr
  split_ifs at hr with h₁ h₂
  · cases hr
  · obtain rfl := mem_singleton.mp hr
    rw [Bool.and_eq_true] at h₂
    have hmod := alignUp_mod a.len
    have := hfits h₂.1
    rw [Whole, pageOf, halign]
    simp only [PAGE_SIZE] at *
    omega
  · cases hr

lemma careful_mremap {o s n f : UInt64} (h : (mremap o s n f).Tidy) :
    (mremap o s n f).Careful host read k := by
  have ho := UInt64.toNat_lt o
  have hold := alignUp_mod s.toNat
  have hnew := alignUp_mod n.toNat
  have holdle := alignUp_le s.toNat
  refine ⟨fun r hr => ?_, fun hne => ?_⟩
  · rw [unmaps] at hr
    rw [Tidy] at h
    dsimp only at hr h
    split_ifs at hr with h₁ h₂ h₃
    · cases hr
    · obtain rfl := mem_singleton.mp hr
      rw [MremapRefused] at h₁ h
      simp only [Whole, wrapAdd, PAGE_SIZE] at *
      omega
    · cases hr
    split at hr
    · obtain rfl := mem_singleton.mp hr
      rw [MremapRefused] at h₁ h
      simp only [Whole, PAGE_SIZE] at *
      omega
    · cases hr
  · have href : MremapRefused o.toNat s.toNat n.toNat f.toNat := .inl (.inl hne)
    exact ⟨by rw [unmaps, if_pos href], by rw [exec, Kernel.sysMremap, if_pos (.inl hne)]⟩

/-! ### States in which a call is not careful -/

/-- A machine in which exactly the bytes from `n` on are mapped. -/
def upper (n : ℕ) : Kernel :=
  { Kernel.boot with
    mem := fun b => if n ≤ b then some eagerCell else none
    mmapNext := 0 }

/-- A move of a range in a machine with free room at the bottom of the address space only. -/
lemma grow_upper (o : ℕ) {s n : ℕ} (hn : alignUp n PAGE_SIZE = n) (hlt : s < n)
    (hle : n + PAGE_SIZE ≤ 2 ^ 64) : ((upper n).growMapping hintHost read o s n).2 = .ok 0 := by
  have hfree : (upper n).mem.free 0 n := by
    refine allOn_iff.mpr fun b _ hb => ?_
    simp only [Mem.isMapped, upper, Bool.not_eq_true', Option.isSome_eq_false_iff]
    rw [if_neg (by omega)]
    rfl
  have hfind : hintHost.findFree (upper n).mem (upper n).mmapNext n PAGE_SIZE = some 0 := by
    have hzero : (upper n).mmapNext = 0 := rfl
    rw [hintHost, hzero]
    dsimp only
    rw [hn, if_pos ⟨rfl, by omega, hfree⟩]
  have hmap : (upper n).mem.mapMemoryLen 0 n eagerCell =
      (editOn (upper n).mem 0 n fun _ => some eagerCell, true) := by
    rw [Mem.mapMemoryLen, if_neg (by omega), if_pos hfree]
  -- After the mapping every byte of the address space is there.
  have hall : ∀ b, (editOn (upper n).mem 0 n fun _ => some eagerCell) b =
      some eagerCell := by
    intro b
    rw [editOn]
    split_ifs with h
    · rfl
    · exact if_pos (by omega)
  have hread : ∀ len addr, ∃ buf, Mem.readBytes
      (editOn (upper n).mem 0 n fun _ => some eagerCell) addr len = some buf := by
    intro len
    induction len with
    | zero => exact fun _ => ⟨[], rfl⟩
    | succ len ih =>
      intro addr
      obtain ⟨buf, hbuf⟩ := ih (wrapAdd addr 1)
      exact ⟨_, by rw [Mem.readBytes, hall, hbuf]; rfl⟩
  obtain ⟨buf, hbuf⟩ := hread s o
  have hbits : ¬ 2 ^ hintHost.usizeBits ≤ s := by
    have : (2 : ℕ) ^ hintHost.usizeBits = 2 ^ 64 := rfl
    simp only [PAGE_SIZE] at hle
    omega
  have hwrite : (Mem.writeBytes (editOn (upper n).mem 0 n fun _ => some eagerCell) 0
      buf).2 = true := Mem.writeBytes_ok buf (by decide) fun b _ => ⟨_, hall b, by decide⟩
  have htouch : ∀ k : Kernel, k.pager = Pager.empty →
      k.hostTouch read 0 buf.length .write = (k, .ok ()) := by
    intro k hk
    rw [Kernel.hostTouch, if_pos (.inr (by rw [hk]; rfl))]
  rw [Kernel.growMapping, hfind]
  dsimp only
  rw [hmap]
  dsimp only
  rw [if_neg (by decide), if_neg hbits, hbuf]
  dsimp only
  rw [Kernel.writeMem, htouch _ rfl]
  dsimp only
  rw [hwrite]
  rfl

/-- A host whose MMU finds no free range. -/
def fullHost : Host where
  usizeBits := 64
  findFree _ _ _ _ := none
  aligned := nofun
  inSpace := nofun
  isFree := nofun

lemma tidy_mmap {a : MmapArgs} (h : ∀ host read k, (mmap a).Careful host read k) :
    (mmap a).Tidy := by
  obtain ⟨hwhole, hrefuse⟩ := h fullHost (fun _ _ _ => .ready []) boot
  rw [unmaps] at hwhole hrefuse
  by_cases href : a.Refused
  · exact .inl href
  rw [if_neg href] at hwhole hrefuse
  by_cases hfixed : (a.isFixed && a.addr != 0) = true
  · rw [if_pos hfixed] at hwhole hrefuse
    have halign : a.addr % PAGE_SIZE = 0 := by
      by_contra hne
      exact cons_ne_nil _ _ (hrefuse hne).1
    refine .inr ⟨halign, fun _ => ?_⟩
    have hend := (hwhole _ (mem_singleton_self _)).2.2
    dsimp only at hend
    rw [pageOf, halign] at hend
    omega
  refine .inr ⟨?_, fun hf => ?_⟩
  · -- The hint is not refused: the call searches, and finds nothing.
    by_contra hne
    have hcall := (hrefuse hne).2
    have htarget : boot.mmapTarget fullHost a (alignUp a.len PAGE_SIZE) = (boot, none) := by
      rw [mmapTarget, if_neg hfixed, if_neg fun hh => hne hh.2.1]
      rfl
    rw [exec, sysMmap, if_neg fun hh => href (.inl hh), if_neg fun hh => href (.inr hh)] at hcall
    dsimp only at hcall
    rw [htarget] at hcall
    cases hcall
  have hzero : a.addr = 0 := by simpa [hf] using hfixed
  have := alignUp_le a.len
  omega

lemma tidy_mremap {o s n f : UInt64}
    (h : ∀ host read k, (mremap o s n f).Careful host read k) : (mremap o s n f).Tidy := by
  have hwhole := (h hintHost (fun _ _ _ => .ready []) (upper (alignUp n.toNat PAGE_SIZE))).1
  rw [unmaps] at hwhole
  by_cases href : MremapRefused o.toNat s.toNat n.toNat f.toNat
  · exact .inl href
  rw [if_neg href] at hwhole
  dsimp only at hwhole
  have hsold := alignUp_le s.toNat
  refine .inr ⟨fun hlt => ?_, fun hlt hmove => ?_⟩
  · rw [if_pos hlt] at hwhole
    have hend := (hwhole _ (mem_singleton_self _)).2.2
    have ho := UInt64.toNat_lt o
    simp only [wrapAdd] at hend
    omega
  rw [if_neg (by omega), if_neg (by omega), grow_upper _ (alignUp_alignUp _) hlt (alignUp_le _)]
    at hwhole
  have hend := (hwhole _ (mem_singleton_self _)).2.2
  dsimp only at hend
  omega

/-- **Every range a call passes to the MMU is made of whole pages, and an unaligned address is
refused, in every state, exactly for tidy arguments.** -/
theorem careful_iff_tidy (c : UnmapCall) :
    (∀ host read k, c.Careful host read k) ↔ c.Tidy := by
  cases c with
  | munmap a l =>
    constructor
    · exact fun h => (careful_munmap_iff a l).mp (h fullHost (fun _ _ _ => .ready []) boot)
    · exact fun h host read k => (careful_munmap_iff a l).mpr h
  | mmap a => exact ⟨tidy_mmap, fun h host read k => careful_mmap h⟩
  | mremap => exact ⟨tidy_mremap, fun h host read k => careful_mremap h⟩

/-- `munmap(0x10000, 1)` right after an image was started passes one byte of a page on. -/
theorem munmap_one_byte : (munmap 0x10000 1).unmaps hintHost (fun _ _ _ => .ready []) started =
    [(0x10000, 1)] ∧ ¬ Whole (0x10000, 1) :=
  ⟨rfl, fun h => absurd h.2.1 (by decide)⟩

end UnmapCall

end WebTos
