import WebTos.Vfs.RoundTrip
import WebTos.Vfs.TreeRun

/-!
The tree that `deserialize` makes of bytes, and whether it can be walked.

* `parents_of_wireImage`: the parents of an accepted image are nodes of it;
* `Vfs.Ends`: the places where a climb to the root comes to an end, or gathers a name;
* `deserialize_walkable_iff`: the tree can be walked if and only if the image starts with a
  directory and a climb from each node meets such a place;
* `accepted_image_loops`: an image with a node that is its own parent.
-/

namespace WebTos

open Lib List Function Reader Vfs

variable {w version count : ℕ} {s rest : Bytes}

/-! ### What is accepted -/

/-- What a sequence is read from, one by one. -/
lemma times_ok {α : Type} {read : ImageReader α} {P : α → Prop}
    (h : ∀ {s a rest}, read s = .ok (a, rest) → P a) {n : ℕ} {as : List α}
    (hs : times read n s = .ok (as, rest)) : as.length = n ∧ ∀ a ∈ as, P a := by
  induction n generalizing s as rest with
  | zero =>
    cases hs
    exact ⟨rfl, fun a ha => absurd ha not_mem_nil⟩
  | succ n ih =>
    obtain ⟨a, s₁, ha, hs⟩ := bind_ok hs
    obtain ⟨as, s₂, has, hs⟩ := bind_ok hs
    obtain ⟨hlen, hall⟩ := ih has
    cases hs
    exact ⟨congrArg (· + 1) hlen, forall_mem_cons.mpr ⟨h ha, hall⟩⟩

lemma parent_of_readNode {n : WireNode} (h : readNode w version count s = .ok (n, rest)) :
    n.parent < count := by
  obtain ⟨parent, s, -, h⟩ := bind_ok h
  obtain ⟨mode, s, -, h⟩ := bind_ok h
  obtain ⟨nlink, s, -, h⟩ := bind_ok h
  obtain ⟨mtimeSec, s, -, h⟩ := bind_ok h
  obtain ⟨kind, s, -, h⟩ := bind_ok h
  rw [ensure_bind] at h
  split_ifs at h with hparent
  cases h
  exact hparent

lemma parents_of_wireImage {b : Bytes} {image : WireImage} (h : wireImage w b = .ok image) :
    ∀ n ∈ image.nodes, n.parent < image.nodes.length := by
  rw [wireImage] at h
  split at h
  · rename_i image' rest hread
    cases h
    obtain ⟨⟨version, root, count⟩, s, -, hs⟩ := bind_ok hread
    dsimp only at hs
    rw [get_bind, ensure_bind] at hs
    split_ifs at hs
    obtain ⟨nodes, s', hnodes, hs'⟩ := bind_ok hs
    obtain ⟨rfl, hall⟩ := times_ok parent_of_readNode hnodes
    rw [get_bind, ensure_bind] at hs'
    split_ifs at hs'
    rw [ensure_bind] at hs'
    split_ifs at hs'
    cases hs'
    exact hall
  · cases h

/-! ### Climbs -/

namespace Vfs

variable {v : Vfs} {i : ℕ}

/-- The parent of a node. -/
def up (v : Vfs) (i : ℕ) : ℕ := (v.node i).parent

/-- The node is the root, or its parent has a name for it. -/
def Ends (v : Vfs) (i : ℕ) : Prop := i = ROOT ∨ (v.nameIn (v.up i) i).isSome = true

/-- The root is a directory, and the path of every node is found. -/
def Walkable (v : Vfs) : Prop :=
  v.isDir ROOT = true ∧ ∀ i < v.nodes.length, ∃ fuel, (v.absPathOf fuel i).isSome = true

lemma isSome_climb_succ {fuel : ℕ} {segments : List Bytes}
    (h : (v.climb fuel (v.up i) ((v.nameIn (v.up i) i).toList ++ segments)).isSome) :
    (v.climb (fuel + 1) i segments).isSome := by
  rw [climb]
  split_ifs
  · rfl
  rw [up] at h
  dsimp only
  cases hname : v.nameIn (v.node i).parent i with
  | none | some => simpa [hname] using h

/-- The climb ends: it meets the root, or a name for each of the 256 segments it has room for. -/
lemma climb_ends (hup : ∀ i < v.nodes.length, v.up i < v.nodes.length)
    (hmeets : ∀ i < v.nodes.length, ∃ n, v.Ends (v.up^[n] i)) (room : ℕ) :
    ∀ (segments : List Bytes) {i : ℕ}, i < v.nodes.length → 256 ≤ segments.length + room →
      ∃ fuel, (v.climb fuel i segments).isSome := by
  induction room with
  | zero =>
    intro segments i _ hroom
    exact ⟨0, by rw [climb, if_pos (.inr hroom)]; rfl⟩
  | succ room ih =>
    intro segments i hi hroom
    obtain ⟨n, hn⟩ := hmeets i hi
    -- down to the next place the climb meets
    induction n generalizing i with
    | zero =>
      rcases hn with rfl | hname
      · exact ⟨0, by rw [climb, if_pos (.inl rfl)]; rfl⟩
      obtain ⟨name, hname⟩ := Option.isSome_iff_exists.mp hname
      obtain ⟨fuel, hfuel⟩ := ih (name :: segments) (hup i hi)
        (by rw [length_cons]; omega)
      exact ⟨fuel + 1, isSome_climb_succ (by rw [iterate_zero, id] at hname; rwa [hname])⟩
    | succ n ihn =>
      cases hname : v.nameIn (v.up i) i with
      | none =>
        obtain ⟨fuel, hfuel⟩ := ihn (hup i hi) (by rwa [iterate_succ_apply] at hn)
        exact ⟨fuel + 1, isSome_climb_succ (by rwa [hname])⟩
      | some name =>
        obtain ⟨fuel, hfuel⟩ := ih (name :: segments) (hup i hi)
          (by rw [length_cons]; omega)
        exact ⟨fuel + 1, isSome_climb_succ (by rwa [hname])⟩

/-- A climb that meets no such place goes on. -/
lemma climb_goes_on (h : ∀ n, ¬ v.Ends (v.up^[n] i)) (fuel : ℕ) : v.climb fuel i [] = none := by
  induction fuel generalizing i with
  | zero => rw [climb, if_neg (by simpa using fun hroot => h 0 (.inl hroot))]
  | succ fuel ih =>
    have hname : v.nameIn (v.node i).parent i = none := by
      rw [← Option.not_isSome_iff_eq_none]
      exact fun hname => h 0 (.inr hname)
    rw [climb, if_neg (by simpa using fun hroot => h 0 (.inl hroot))]
    dsimp only
    rw [hname]
    exact ih fun n => h (n + 1)

end Vfs

/-- The image starts with a directory, and a climb from each node meets the root or a node that
its parent has a name for. -/
def WireImage.Grounded (image : WireImage) : Prop :=
  (∃ n, image.nodes.head? = some n ∧ n.kind.tag = 1) ∧
    ∀ i < image.nodes.length, ∃ n, image.vfs.Ends (image.vfs.up^[n] i)

lemma isDir_root_iff {image : WireImage} :
    image.vfs.isDir ROOT ↔ ∃ n, image.nodes.head? = some n ∧ n.kind.tag = 1 := by
  rw [isDir, node, WireImage.vfs]
  cases image.nodes with
  | nil => simp [ROOT, NodeKind.isDir]
  | cons n ns =>
    cases hk : n.kind <;>
      simp [ROOT, WireNode.node, hk, WireKind.kind, WireKind.tag, NodeKind.isDir]

/-- **When an accepted image can be walked.** -/
theorem deserialize_walkable_iff (w : ℕ) (b : Bytes) :
    (∀ v, deserialize w b = .ok v → v.Walkable) ↔
      ∀ image, wireImage w b = .ok image → image.Grounded := by
  have hwalk : ∀ image, wireImage w b = .ok image → (image.vfs.Walkable ↔ image.Grounded) := by
    intro image himage
    have hlen : image.vfs.nodes.length = image.nodes.length := length_map ..
    refine and_congr isDir_root_iff ⟨fun h i hi => ?_, fun h i hi => ?_⟩
    · by_contra hnot
      obtain ⟨fuel, hfuel⟩ := h i (hlen ▸ hi)
      have hroot : i ≠ ROOT := fun hroot => hnot ⟨0, .inl hroot⟩
      rw [absPathOf, if_neg hroot, climb_goes_on (not_exists.mp hnot)] at hfuel
      cases hfuel
    -- an accepted image has no parent outside of the nodes, so the climb stays inside
    have hup : ∀ i < image.vfs.nodes.length, image.vfs.up i < image.vfs.nodes.length := by
      intro i hi
      rw [hlen] at hi ⊢
      rw [up, node, WireImage.vfs]
      simp only [List.getElem?_map, List.getElem?_eq_getElem hi]
      exact parents_of_wireImage himage _ (getElem_mem hi)
    obtain ⟨fuel, hfuel⟩ := climb_ends hup (hlen ▸ h) 256 [] hi (by simp)
    refine ⟨fuel, ?_⟩
    rw [absPathOf]
    split_ifs
    · rfl
    · rwa [Option.isSome_map]
  constructor
  · intro h image himage
    exact (hwalk image himage).mp (h image.vfs (by rw [deserialize, himage]))
  · intro h v hv
    rw [deserialize] at hv
    split at hv
    · rename_i image himage
      cases hv
      exact (hwalk image himage).mpr (h image himage)
    · cases hv

/-- A directory, and a file that is its own parent. -/
def selfParent : WireImage := ⟨none, [⟨0, 0o755, 2, 0, .dir []⟩, ⟨1, 0o644, 1, 0, .file []⟩]⟩

/-- A file in the place of the root. -/
def fileRoot : WireImage := ⟨none, [⟨0, 0o644, 1, 0, .file []⟩]⟩

/-- Both are accepted: the path of the file is never found, and the root is no directory. -/
theorem accepted_image_loops :
    deserialize 64 selfParent.write = .ok selfParent.vfs ∧
      (∀ fuel, selfParent.vfs.absPathOf fuel 1 = none) ∧
      deserialize 64 fileRoot.write = .ok fileRoot.vfs ∧
      fileRoot.vfs.isDir ROOT = false := by
  refine ⟨rfl, fun fuel => ?_, rfl, rfl⟩
  have hup : ∀ n, selfParent.vfs.up^[n] 1 = 1 := fun n => iterate_fixed rfl n
  have hends : ¬ selfParent.vfs.Ends 1 := by
    rintro (hroot | hname)
    · exact absurd hroot (by decide)
    · cases hname
  rw [absPathOf, if_neg (by decide), climb_goes_on fun n => by rwa [hup]]
  rfl

end WebTos
