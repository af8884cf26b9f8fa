import WebTos.Mem.Copies

/-!
When a copy by the kernel goes through.

A write that follows a successful touch of its range can only fail at a hole of the range, or at
a byte the translator has decoded.  Neither is made by a copy.

* `Mem.Plain`: a mapped byte that was not decoded; `Mem.writeBytes_ok`: a write to such bytes
  succeeds;
* `Kernel.Steady`: what every copy keeps, and `Steady.hostTouch`, `Steady.readMem`,
  `Steady.writeMem`;
* `Kernel.Settled`: a range a touch has nothing to do on; `Kernel.writeMem_ok`: a write to a
  settled range of plain bytes succeeds.
-/

namespace WebTos

open Lib List Option

/-! ### Plain bytes -/

variable {perm : UInt8}

namespace Mem

variable {m : Mem} {b : ℕ}

/-- The byte is mapped and was not decoded as code. -/
def Plain (m : Mem) (b : ℕ) : Prop := ∃ c, m b = some c ∧ c.perm &&& Perm.IN_CODE_CACHE = 0

/-- Being plain is a matter of the mapping and the permission, not of the value. -/
lemma Plain.of_shape {m' : Mem} (h : m.Plain b) (hs : m'.shape b = m.shape b) : m'.Plain b := by
  obtain ⟨c, hc, hperm⟩ := h
  rw [shape, shape, hc, map_some] at hs
  obtain ⟨c', hc', hcell⟩ := map_eq_some_iff.mp hs
  refine ⟨c', hc', ?_⟩
  have hsame : c'.perm = c.perm := congrArg Prod.fst hcell
  rwa [hsame]

lemma Plain.writeBytes (h : m.Plain b) (addr : ℕ) (bytes : Bytes) :
    (m.writeBytes addr bytes).1.Plain b :=
  h.of_shape (shape_writeBytes bytes addr b)

/-- The bits that `update_perm` adds are not the mark of decoded bytes. -/
lemma or_map_undecoded (perm : UInt8) : perm &&& Perm.IN_CODE_CACHE = 0 →
    (perm ||| Perm.MAP ||| Perm.INIT) &&& Perm.IN_CODE_CACHE = 0 := by
  revert perm
  decide +kernel

lemma Plain.updatePerm (h : m.Plain b) (addr count : ℕ) (hperm : perm &&& Perm.IN_CODE_CACHE = 0)
    : (m.updatePerm addr count perm).1.Plain b := by
  obtain ⟨c, hc, hc'⟩ := h
  rcases updatePerm_cell (m := m) addr count perm b with he | he
  · exact ⟨c, he.trans hc, hc'⟩
  · rw [hc] at he
    exact ⟨_, he, or_map_undecoded perm hperm⟩

/-- **A write to plain bytes succeeds.** -/
lemma writeBytes_ok (bytes : Bytes) : ∀ {m : Mem} {addr : ℕ}, addr < 2 ^ 64 →
    (∀ b ∈ span addr bytes.length, m.Plain b) → (m.writeBytes addr bytes).2 := by
  induction bytes with
  | nil => exact fun _ _ => rfl
  | cons v vs ih =>
    intro m addr haddr hplain
    rw [length_cons, Nat.add_comm, span_add] at hplain
    have hfirst : addr ∈ span addr 1 := mem_singleton.mpr (Nat.mod_eq_of_lt haddr).symm
    obtain ⟨c, hc, hperm⟩ := hplain addr (mem_append_left _ hfirst)
    rw [writeBytes, hc]
    dsimp only
    rw [if_neg (by simp [hperm])]
    refine ih (wrapAdd_lt addr 1) fun b hb => ?_
    -- the bytes behind keep their shape, also where the range wraps onto the first
    refine (hplain b (mem_append_right _ hb)).of_shape ?_
    rw [shape, shape, Function.update_apply]
    split_ifs with he
    · rw [he, hc]
      rfl
    · rfl

end Mem

/-! ### What a copy keeps -/

namespace Pager

variable {g : Pager}

/-- No mapping asks for the MMU's own mark of decoded bytes. -/
def Undecoded (g : Pager) : Prop :=
  ∀ asid, ∀ m ∈ g.mappings asid, m.finalPerm &&& Perm.IN_CODE_CACHE = 0

lemma Undecoded.congr {g' : Pager} (h : g.Undecoded) (hs : g'.spaces = g.spaces) :
    g'.Undecoded := by
  intro asid m hm
  rw [mappings_congr hs] at hm
  exact h asid m hm

variable {access : AccessKind} {read : ChunkReader} {asid page : ℕ}

/-- A page is installed with the permission of a mapping, or with that of a hole. -/
lemma resolve_perm {address : ℕ} {bytes : Bytes} (hg : g.Undecoded)
    (h : (g.resolve read asid address access).1 = .ready page bytes perm) :
    perm &&& Perm.IN_CODE_CACHE = 0 := by
  have hbuilds := g.resolve_builds (P := fun perm => perm &&& Perm.IN_CODE_CACHE = 0) read asid
    address access (hg asid) (by decide)
  generalize g.resolve read asid address access = out at h hbuilds
  rcases hbuilds with rfl | ⟨_, hbuilds⟩
  · cases h
  · cases hbuilds <;> cases h
    assumption

end Pager

namespace Kernel

variable {read : ChunkReader} {access : AccessKind} {k k' k'' : Kernel}

/-- What a copy by the kernel keeps: the mappings, the filled pages and the plain bytes. -/
structure Steady (k k' : Kernel) : Prop extends SameMappings k k' where
  plain : k.pager.Undecoded → ∀ b, k.mem.Plain b → k'.mem.Plain b

lemma Steady.refl (k : Kernel) : Steady k k := ⟨.refl k, fun _ _ h => h⟩

lemma Steady.undecoded (h : Steady k k') (hg : k.pager.Undecoded) : k'.pager.Undecoded :=
  hg.congr h.spaces

lemma Steady.trans (h : Steady k k') (h' : Steady k' k'') : Steady k k'' :=
  ⟨h.toSameMappings.trans h'.toSameMappings,
    fun hg b hb => h'.plain (h.undecoded hg) b (h.plain hg b hb)⟩

/-- Filling a page keeps plain bytes plain, if the page itself is installed undecoded. -/
lemma Steady.pageIn (k : Kernel) (page : ℕ) (bytes : Bytes)
    (hperm : k.pager.Undecoded → perm &&& Perm.IN_CODE_CACHE = 0) :
    Steady k (k.pageIn page bytes perm).1 := by
  have hwritten : ∀ b, k.mem.Plain b → (k.mem.writeBytes page bytes).1.Plain b :=
    fun b hb => hb.writeBytes page bytes
  have hupdated : k.pager.Undecoded → ∀ b, k.mem.Plain b →
      ((k.mem.writeBytes page bytes).1.updatePerm page PAGE_SIZE perm).1.Plain b :=
    fun hg b hb => (hwritten b hb).updatePerm page PAGE_SIZE (hperm hg)
  -- the write of the page, the permission and the residency can each be the last step
  unfold Kernel.pageIn
  generalize (if k.mem.coldBytes page then k.clobbered else page :: k.clobbered) = clobbered
  dsimp only
  split_ifs
  · exact ⟨⟨rfl, rfl, Finset.Subset.refl _⟩, fun _ => hwritten⟩
  · refine ⟨⟨rfl, rfl, Finset.Subset.refl _⟩, fun hg b hb => ?_⟩
    dsimp only
    exact hupdated hg b hb
  refine ⟨⟨rfl, rfl, Finset.subset_insert _ _⟩, fun hg b hb => ?_⟩
  obtain ⟨c, hc, hc'⟩ := hupdated hg b hb
  dsimp only
  -- on the page itself the backing is changed last
  by_cases hin : page ≤ b ∧ b < page + PAGE_SIZE
  · exact ⟨_, (editOn_inside hin.1 hin.2).trans (congrArg _ hc), hc'⟩
  · exact ⟨c, (editOn_outside (by omega)).trans hc, hc'⟩

/-- Resolving a fault only changes the pending request. -/
lemma Steady.ask {asid addr : ℕ} {out : FaultResolution} {pager : Pager}
    (h : k.pager.resolve read asid addr access = (out, pager)) : Steady k { k with pager } := by
  obtain ⟨hs, hr⟩ := Pager.resolve_table k.pager read asid addr access
  rw [h] at hs hr
  exact ⟨⟨rfl, hs, hr.symm ▸ Finset.Subset.refl _⟩, fun _ _ hb => hb⟩

/-- **Whatever a copy does**, it is steady: it asks, fills pages and writes. -/
lemma Steady.transfers (hrun : Transfers read k k') : Steady k k' := by
  induction hrun with
  | refl => exact .refl k
  | tail _ hstep ih =>
    refine ih.trans ?_
    cases hstep with
    | ask hr => exact .ask hr
    | fill hr =>
      exact (Steady.ask hr).trans (.pageIn _ _ _ fun hg =>
        Pager.resolve_perm (hg.congr (Steady.ask hr).spaces.symm) (congrArg Prod.fst hr))
    | write addr bytes =>
      exact ⟨⟨rfl, rfl, Finset.Subset.refl _⟩, fun _ b hb => hb.writeBytes addr bytes⟩

lemma Steady.hostTouch (k : Kernel) (read : ChunkReader) (addr len : ℕ) (access : AccessKind) :
    Steady k (k.hostTouch read addr len access).1 :=
  .transfers (hostTouch_transfers k read addr len access)

lemma Steady.readMem (k : Kernel) (read : ChunkReader) (addr len : ℕ) :
    Steady k (k.readMem read addr len).1 := by
  have htouch := Steady.hostTouch k read addr len .read
  rw [Kernel.readMem]
  split
  · rename_i k₁ e he
    rwa [he] at htouch
  · rename_i k₁ u he
    rwa [he] at htouch

lemma Steady.writeMem (k : Kernel) (read : ChunkReader) (addr : ℕ) (bytes : Bytes) :
    Steady k (k.writeMem read addr bytes).1 :=
  .transfers (writeMem_transfers k read addr bytes)

/-! ### Settled ranges -/

/-- A touch has nothing to do: the known pages of the range are filled and grant the access. -/
structure Settled (k : Kernel) (access : AccessKind) (addr len : ℕ) : Prop where
  inSpace : k.InSpace addr len
  granted : ∀ b ∈ span addr len, k.Granted access b
  filled : ∀ b ∈ span addr len, (k.pager.pageState k.asid b).isSome →
    (k.asid, pageOf b) ∈ k.pager.resident

variable {addr len : ℕ}

/-- A touch of a settled range changes nothing and succeeds. -/
lemma hostTouch_settled (h : k.Settled access addr len) :
    k.hostTouch read addr len access = (k, .ok ()) := by
  rw [hostTouch]
  split_ifs with hempty hwraps
  · rfl
  · rcases h.inSpace with h' | h' | h'
    · exact absurd (.inl h') hempty
    · exact absurd (.inr h') hempty
    · omega
  obtain ⟨hlen, -⟩ := not_or.mp hempty
  refine touchPages_settled ((forall_pagesOf (fun b => ?_) (Nat.pos_of_ne_zero hlen)
    (by omega)).mpr fun b hb st hst => ⟨h.granted b hb st hst, ?_⟩)
  · rw [Pager.pageState_pageOf]
  · have hfilled := h.filled b hb (by rw [hst]; rfl)
    rw [Pager.pageState] at hst
    obtain ⟨m, -, rfl⟩ := map_eq_some_iff.mp hst
    exact decide_eq_true hfilled

lemma isEmpty_congr (hs : SameMappings k k') : k'.pager.isEmpty = k.pager.isEmpty := by
  rw [Pager.isEmpty, Pager.isEmpty, hs.spaces]

/-- A copy elsewhere leaves a settled range settled. -/
lemma Settled.steady (h : k.Settled access addr len) (hs : SameMappings k k') :
    k'.Settled access addr len := by
  refine ⟨?_, fun b hb => ?_, fun b hb hknown => ?_⟩
  · rw [InSpace, isEmpty_congr hs]
    exact h.inSpace
  · exact (h.granted b hb).congr hs.asid.symm hs.spaces.symm
  obtain ⟨st, hst⟩ := isSome_iff_exists.mp hknown
  rw [hs.asid] at hst ⊢
  have hst' := Pager.pageState_congr hs.spaces.symm hst
  exact hs.resident (h.filled b hb (by rw [hst']; rfl))

/-- **A touch settles every part of its range** on which the access is granted. -/
lemma settled_of_touch {a o n : ℕ} {access' : AccessKind}
    (h : k.hostTouch read addr len access = (k', .ok ())) (ha : a = wrapAdd addr o)
    (hn : o + n ≤ len) (hgrant : ∀ b ∈ span a n, Granted k access' b) :
    k'.Settled access' a n := by
  have htouch := hostTouch_ok h
  have hsame := htouch.toSameMappings
  have hsub : ∀ b ∈ span a n, b ∈ span addr len := by
    intro b hb
    refine span_mono hn ?_
    rw [span_add, ← ha]
    exact mem_append_right _ hb
  refine ⟨?_, fun b hb => (hgrant b hb).congr hsame.asid.symm hsame.spaces.symm,
    fun b hb hknown => ?_⟩
  · rw [InSpace, isEmpty_congr hsame]
    rcases htouch.passable.inSpace with hzero | hempty | hspace
    · exact .inl (by omega)
    · exact .inr (.inl hempty)
    right
    right
    rw [ha, wrapAdd, Nat.mod_eq_of_lt (by omega)]
    omega
  obtain ⟨st, hst⟩ := isSome_iff_exists.mp hknown
  rw [hsame.asid] at hst ⊢
  -- the page was filled before, or it was lazy and is filled now
  by_contra hcold
  refine hcold ((htouch.filled _).mpr (.inr ⟨b, hsub b hb, rfl, ?_⟩))
  have hknown := Pager.pageState_congr hsame.spaces.symm hst
  rw [decide_eq_false fun hr => hcold (hsame.resident hr)] at hknown
  exact Pager.lazy_of_pageState hknown

/-- **A write to a settled range of plain bytes succeeds.** -/
lemma writeMem_ok (read : ChunkReader) (bytes : Bytes) (haddr : addr < 2 ^ 64)
    (h : k.Settled .write addr bytes.length)
    (hplain : ∀ b ∈ span addr bytes.length, k.mem.Plain b) :
    ∃ k₁, k.writeMem read addr bytes = (k₁, .ok ()) := by
  refine ⟨{ k with mem := (k.mem.writeBytes addr bytes).1 }, ?_⟩
  rw [writeMem, hostTouch_settled h]
  dsimp only
  rw [Mem.writeBytes_ok bytes haddr hplain, if_pos rfl]

end Kernel

end WebTos
