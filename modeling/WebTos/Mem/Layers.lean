import WebTos.Mem.Faults

/-!
The page that `resolve` builds, byte by byte.

* `layered_eq_lastWritten`: of the mappings of a page the last one that writes an address decides
  its byte;
* `resolve_layers`: so is the page that `resolve` gives, where its chunks are there.
-/

namespace WebTos

open List FileMapping

variable {files : ChunkedFile → ℕ → UInt8} {page x : ℕ} {fill : UInt8}

namespace FileMapping

/-- `FileMapping::new` makes the mapping. -/
def Made (m : FileMapping) : Prop :=
  new m.start m.stop m.dataStart m.fileOffset m.fileLen m.finalPerm m.fill m.file m.stop_lt = .ok m

/-- The data or the zeros of the mapping contain the address. -/
def writes (x : ℕ) (m : FileMapping) : Bool :=
  (m.dataStart ≤ x ∧ x < m.dataEnd) ∨ (m.dataEnd ≤ x ∧ x < m.stop)

lemma layer_eq (x : ℕ) (v : UInt8) (m : FileMapping) :
    m.layer files x v = if m.writes x then m.layer files x 0 else v := by
  simp only [layer, writes, decide_eq_true_eq]
  split_ifs <;> first | rfl | omega

lemma lastPerm_eq (m : FileMapping) (ms : List FileMapping) :
    lastPerm ms m.finalPerm = (ms.getLastD m).finalPerm := by
  induction ms generalizing m with
  | nil => rfl
  | cons m' ms ih =>
    rw [getLastD_cons]
    exact ih m'

end FileMapping

/-- The byte of the last mapping with the address in its data or its zeros, else the fill. -/
def lastWritten (files : ChunkedFile → ℕ → UInt8) (fill : UInt8) (ms : List FileMapping) (x : ℕ) :
    UInt8 :=
  match ms.reverse.find? (·.writes x) with
  | some m => m.layer files x 0
  | none => fill

lemma layered_eq_lastWritten (ms : List FileMapping) :
    layered files fill ms x = lastWritten files fill ms x := by
  induction ms using List.reverseRecOn with
  | nil => rfl
  | append_singleton ms m ih =>
    rw [layered] at ih
    rw [layered, foldl_append, foldl_cons, foldl_nil, layer_eq, ih, lastWritten,
      lastWritten, reverse_append, reverse_singleton, singleton_append, find?_cons]
    cases m.writes x <;> rfl

/-- **A page in layers**: the fill of the first mapping that covers it, under the zeros and the
data of each of them in their order, with the permission of the last. -/
theorem Pager.resolve_layers {g : Pager} {read : ChunkReader} {asid : ℕ} (access : AccessKind)
    {m : FileMapping} {ms : List FileMapping} (hmade : ∀ m ∈ g.mappings asid, m.Made)
    (hpage : page % PAGE_SIZE = 0) (hcold : (asid, page) ∉ g.resident)
    (htouch : g.touching asid page = m :: ms) (hread : ∀ m' ∈ m :: ms, Present files read page m') :
    page + PAGE_SIZE < 2 ^ 64 ∧
      (g.resolve read asid page access).1 =
        .ready page ((range PAGE_SIZE).map fun i => layered files m.fill (m :: ms) (page + i))
          (ms.getLastD m).finalPerm ∧
      ∀ x, layered files m.fill (m :: ms) x = lastWritten files m.fill (m :: ms) x := by
  have hcovers : m ∈ g.mappings asid ∧ m.covers page :=
    mem_filter.mp (htouch ▸ mem_cons_self : m ∈ g.touching asid page)
  refine ⟨?_, ?_, fun x => layered_eq_lastWritten _⟩
  · have hlt := (covers_iff.mp hcovers.2).2
    have hspace := (sound_of_new (hmade m hcovers.1)).inSpace
    omega
  have hinstalls : g.installs read access asid page = _ := installs_eq hpage
  rw [layers, if_neg hcold, htouch, painted_of_present hread, lastPerm_eq, installs,
    FaultResolution.installed.eq_def] at hinstalls
  split at hinstalls
  · rename_i p bytes perm hready
    split_ifs at hinstalls with hp
    obtain ⟨hbytes, hperm⟩ := Prod.mk.inj (Option.some.inj hinstalls)
    rw [hready, hp, hbytes, hperm]
  · cases hinstalls

/-- A mapping over the same page as `oneByte`, with a byte of another file in the middle. -/
def Paging.middleByte : FileMapping :=
  { Paging.oneByte with
    dataStart := 6144, finalPerm := Perm.READ ||| Perm.WRITE, fill := 5, file := ⟨1, 4096, [[8]]⟩ }

/-- Two mappings over one page: each gives its byte, and the second the permission. -/
theorem Pager.resolve_layers_overlap :
    let files : ChunkedFile → ℕ → UInt8 := fun file _ => if file.chunks = [[7]] then 7 else 8
    let ms := [Paging.oneByte, Paging.middleByte]
    (((empty.map 7 Paging.oneByte).map 7 Paging.middleByte).resolve (whole files) 7 4096 .read).1 =
        .ready 4096 ((range PAGE_SIZE).map fun i => layered files 0 ms (4096 + i))
          (Perm.READ ||| Perm.WRITE) ∧
      [4096, 5000, 6144, 6145].map (layered files 0 ms) = [7, 0, 8, 0] := by
  intro files ms
  refine ⟨(resolve_layers .read (fun m hm => ?_) (by decide) (by decide)
    (by decide : _ = ms) fun m _ x len _ _ _ _ => rfl).2.1, by decide⟩
  have hms : ((empty.map 7 Paging.oneByte).map 7 Paging.middleByte).mappings 7 = ms := by decide
  rw [hms] at hm
  rcases mem_cons.mp hm with rfl | hm
  · rfl
  · obtain rfl := mem_singleton.mp hm
    rfl

end WebTos
