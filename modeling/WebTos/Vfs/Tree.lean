import WebTos.Lib.Forest
import WebTos.Vfs.Ops

/-!
What an arena of nodes must satisfy for its directories to be a tree, and the
arena updates that keep it so.

* `Vfs.Edge`: one node is an entry of another; `Vfs.Live`: reached from the root;
* `ProperName`: not empty, not `.` or `..`, and without a `/`;
* `Vfs.Core`: entries stay inside the arena, the root is never an entry, a
  directory is an entry at most once, no directory is below itself, every entry
  has a proper name, a named directory has its two links and none waits to be
  reclaimed; `Vfs.Wf` adds that a directory's entry lies in its parent;
* `Core.push`, `Core.eraseEntry`, `Core.setEntry`, `Core.dropLink`,
  `Core.setParent`: the updates that preserve it, and under which conditions.
-/

namespace WebTos

open Relation Lib List Std

/-- A name a directory entry may have. -/
structure ProperName (name : Bytes) : Prop where
  ne_nil : name ≠ []
  ne_dot : name ≠ dot
  ne_dotdot : name ≠ dotdot
  no_slash : slash ∉ name

namespace Vfs

variable {v : Vfs}

/-- `c` is an entry of `p`. -/
def Edge (v : Vfs) (p c : ℕ) : Prop := ∃ name, v.entry p name = some c

/-- The node is reached from the root by entries. -/
def Live (v : Vfs) (i : ℕ) : Prop := ReflTransGen v.Edge ROOT i

/-! ### Reading the arena after an update -/

lemma node_modifyNode (i : ℕ) (f : Node → Node) (j : ℕ) :
    (v.modifyNode i f).node j
      = if i = j ∧ i < v.nodes.length then f (v.node j) else v.node j := by
  by_cases hij : i = j
  · subst hij
    by_cases hi : i < v.nodes.length
    · simp [node, modifyNode, hi]
    · simp [node, modifyNode, hi]
  · simp [node, modifyNode, hij]

@[simp] lemma length_modifyNode (i : ℕ) (f : Node → Node) :
    (v.modifyNode i f).nodes.length = v.nodes.length := by
  simp [modifyNode]

@[simp] lemma length_push (n : Node) : (v.push n).nodes.length = v.nodes.length + 1 := by
  simp [push]

variable {i : ℕ}

lemma node_push_of_lt (n : Node) (hi : i < v.nodes.length) :
    (v.push n).node i = v.node i := by
  simp [node, push, List.getElem?_append_left hi]

lemma node_push_self (n : Node) : (v.push n).node v.nodes.length = n := by
  simp [node, push]

/-- A directory is inside the arena. -/
lemma lt_of_isDir (h : v.isDir i) : i < v.nodes.length := by
  by_contra hi
  simp [isDir, node, List.getElem?_eq_none (Nat.not_lt.mp hi), NodeKind.isDir] at h

variable {c p : ℕ} {name : Bytes}

/-- Only a directory holds entries. -/
lemma isDir_of_entry (h : v.entry p name = some c) :
    v.isDir p := by
  rw [entry] at h
  rw [isDir]
  split at h
  · next hk => rw [hk]; rfl
  · exact absurd h (by simp)

lemma entry_eq_none (h : v.isDir p = false) (name : Bytes) : v.entry p name = none := by
  by_contra hne
  obtain ⟨c, hc⟩ := Option.ne_none_iff_exists'.mp hne
  rw [isDir_of_entry hc] at h
  exact absurd h (by simp)

/-- An empty directory holds nothing, and neither does what is not a directory. -/
lemma entry_of_empty (h : v.nonEmptyDir p = false) (name : Bytes) :
    v.entry p name = none := by
  cases hk : (v.node p).kind with
  | dir =>
    simp only [nonEmptyDir, hk, Bool.not_eq_eq_eq_not, Bool.not_false] at h
    rw [entry, hk]
    exact TreeMap.getElem?_of_isEmpty h
  | _ => rw [entry, hk]

lemma Edge.isDir (h : v.Edge p c) : v.isDir p :=
  isDir_of_entry h.choose_spec

lemma exists_dir_of_isDir (h : v.isDir i) :
    ∃ entries, (v.node i).kind = .dir entries := by
  rw [Vfs.isDir] at h
  cases hk : (v.node i).kind with
  | dir entries => exact ⟨entries, rfl⟩
  | _ => rw [hk] at h; exact absurd h (by simp [NodeKind.isDir])

variable {w : Vfs}

/-- An update that keeps a node's kind keeps what it holds. -/
lemma entry_congr (h : (w.node p).kind = (v.node p).kind) (name : Bytes) :
    w.entry p name = v.entry p name := by
  rw [entry, entry, h]

lemma isDir_congr (h : (w.node p).kind = (v.node p).kind) :
    w.isDir p = v.isDir p := by
  rw [isDir, isDir, h]

/-- The node after `setKind`, field by field. -/
lemma node_setKind (i : ℕ) (kind : NodeKind) (j : ℕ) :
    (v.setKind i kind).node j
      = if i = j ∧ i < v.nodes.length then { v.node j with kind } else v.node j :=
  node_modifyNode i _ j

/-- A kind that is one of a directory as the old one was changes no other field. -/
lemma setKind_frame (kind : NodeKind) (hkind : kind.isDir = v.isDir i) (j : ℕ) :
    ((v.setKind i kind).node j).parent = (v.node j).parent ∧
      ((v.setKind i kind).node j).nlink = (v.node j).nlink ∧
      (v.setKind i kind).isDir j = v.isDir j := by
  rw [isDir, node_setKind]
  split
  · next h =>
      obtain ⟨rfl, -⟩ := h
      exact ⟨rfl, rfl, hkind⟩
  · exact ⟨rfl, rfl, rfl⟩

section setEntry

variable {p c : ℕ} {name : Bytes} {entries : TreeMap Bytes ℕ}

lemma setEntry_of_dir (h : (v.node p).kind = .dir entries) :
    v.setEntry p name c = v.setKind p (.dir (entries.insert name c)) := by
  rw [setEntry, h]

lemma eraseEntry_of_dir (h : (v.node p).kind = .dir entries) :
    v.eraseEntry p name = v.setKind p (.dir (entries.erase name)) := by
  rw [eraseEntry, h]

section

variable (hp : v.isDir p)
include hp

/-- What is held after one entry changed. -/
lemma entry_setKind_dir {entries entries' : TreeMap Bytes ℕ} {x : Option ℕ}
    (he : (v.node p).kind = .dir entries)
    (hx : ∀ m, entries'[m]? = if compare name m = .eq then x else entries[m]?) (q : ℕ)
    (m : Bytes) : (v.setKind p (.dir entries')).entry q m
      = if q = p ∧ m = name then x else v.entry q m := by
  have hlt := lt_of_isDir hp
  rw [entry, node_setKind]
  by_cases hq : q = p
  · subst hq
    rw [if_pos ⟨rfl, hlt⟩]
    by_cases hm : m = name
    · simp [hm, hx]
    · have hcmp : compare name m ≠ .eq := fun h => hm (LawfulEqCmp.eq_of_compare h).symm
      simp [hm, hx, hcmp, entry, he]
  · rw [if_neg fun h => hq h.1.symm, if_neg fun h => hq h.1, entry]

lemma entry_setEntry (q : ℕ) (m : Bytes) :
    (v.setEntry p name c).entry q m
      = if q = p ∧ m = name then some c else v.entry q m := by
  obtain ⟨entries, he⟩ := exists_dir_of_isDir hp
  rw [setEntry_of_dir he]
  exact entry_setKind_dir hp he (fun _ => TreeMap.getElem?_insert) q m

lemma entry_eraseEntry (q : ℕ) (m : Bytes) :
    (v.eraseEntry p name).entry q m
      = if q = p ∧ m = name then none else v.entry q m := by
  obtain ⟨entries, he⟩ := exists_dir_of_isDir hp
  rw [eraseEntry_of_dir he]
  exact entry_setKind_dir hp he (fun _ => TreeMap.getElem?_erase) q m

/-- `entries.insert` and `entries.remove` touch nothing but the entries. -/
lemma setEntry_frame (j : ℕ) :
    ((v.setEntry p name c).node j).parent = (v.node j).parent ∧
      ((v.setEntry p name c).node j).nlink = (v.node j).nlink ∧
      (v.setEntry p name c).isDir j = v.isDir j := by
  obtain ⟨entries, he⟩ := exists_dir_of_isDir hp
  rw [setEntry_of_dir he]
  exact setKind_frame (.dir _) hp.symm j

lemma eraseEntry_frame (j : ℕ) :
    ((v.eraseEntry p name).node j).parent = (v.node j).parent ∧
      ((v.eraseEntry p name).node j).nlink = (v.node j).nlink ∧
      (v.eraseEntry p name).isDir j = v.isDir j := by
  obtain ⟨entries, he⟩ := exists_dir_of_isDir hp
  rw [eraseEntry_of_dir he]
  exact setKind_frame (.dir _) hp.symm j

end

@[simp] lemma length_setEntry : (v.setEntry p name c).nodes.length = v.nodes.length := by
  rw [setEntry]
  split <;> simp [setKind]

@[simp] lemma length_eraseEntry : (v.eraseEntry p name).nodes.length = v.nodes.length := by
  rw [eraseEntry]
  split <;> simp [setKind]

@[simp] lemma unlinked_setEntry : (v.setEntry p name c).unlinked = v.unlinked := by
  rw [setEntry]
  split <;> rfl

@[simp] lemma unlinked_eraseEntry : (v.eraseEntry p name).unlinked = v.unlinked := by
  rw [eraseEntry]
  split <;> rfl

end setEntry

section dropLink

variable (i : ℕ)

lemma node_dropLink (j : ℕ) :
    (v.dropLink i).node j
      = if i = j ∧ i < v.nodes.length then { v.node j with nlink := (v.node i).nlink - 1 }
        else v.node j := by
  rw [dropLink]
  split
  · exact node_modifyNode i _ j
  · exact node_modifyNode i _ j

lemma dropLink_frame (j : ℕ) :
    ((v.dropLink i).node j).parent = (v.node j).parent ∧
      ((v.dropLink i).node j).kind = (v.node j).kind := by
  rw [node_dropLink]
  split <;> exact ⟨rfl, rfl⟩

lemma entry_dropLink (q : ℕ) (m : Bytes) : (v.dropLink i).entry q m = v.entry q m :=
  entry_congr (dropLink_frame i q).2 m

lemma isDir_dropLink (j : ℕ) : (v.dropLink i).isDir j = v.isDir j :=
  isDir_congr (dropLink_frame i j).2

@[simp] lemma length_dropLink : (v.dropLink i).nodes.length = v.nodes.length := by
  rw [dropLink]
  split <;> simp

/-- Only a node that just lost its last link starts waiting. -/
lemma mem_unlinked_dropLink {j : ℕ} (h : j ∈ (v.dropLink i).unlinked) :
    j ∈ v.unlinked ∨ (j = i ∧ (v.node i).nlink - 1 = 0) := by
  rw [dropLink] at h
  split at h
  · next hz =>
      rcases mem_append.mp h with h | h
      · exact .inl h
      · exact .inr ⟨mem_singleton.mp h, hz.1⟩
  · exact .inl h

/-- Dropping a displaced node's link changes link counts only. -/
lemma dropDisplaced_frame (displaced : Option ℕ) (j : ℕ) :
    ((v.dropDisplaced displaced).node j).parent = (v.node j).parent ∧
      ((v.dropDisplaced displaced).node j).kind = (v.node j).kind := by
  cases displaced with
  | none => exact ⟨rfl, rfl⟩
  | some d => exact dropLink_frame d j

@[simp] lemma length_dropDisplaced (displaced : Option ℕ) :
    (v.dropDisplaced displaced).nodes.length = v.nodes.length := by
  cases displaced with
  | none => rfl
  | some d => exact length_dropLink d

end dropLink

section setParent

variable (i p : ℕ)

lemma setParent_frame (j : ℕ) :
    ((v.setParent i p).node j).nlink = (v.node j).nlink ∧
      ((v.setParent i p).node j).kind = (v.node j).kind := by
  rw [setParent, node_modifyNode]
  split <;> exact ⟨rfl, rfl⟩

lemma parent_setParent (hi : i < v.nodes.length) (j : ℕ) :
    ((v.setParent i p).node j).parent = if j = i then p else (v.node j).parent := by
  rw [setParent, node_modifyNode]
  by_cases h : j = i
  · rw [if_pos ⟨h.symm, hi⟩, if_pos h]
  · rw [if_neg fun hc => h hc.1.symm, if_neg h]

lemma entry_setParent (q : ℕ) (m : Bytes) : (v.setParent i p).entry q m = v.entry q m :=
  entry_congr (setParent_frame i p q).2 m

lemma isDir_setParent (j : ℕ) : (v.setParent i p).isDir j = v.isDir j :=
  isDir_congr (setParent_frame i p j).2

@[simp] lemma length_setParent : (v.setParent i p).nodes.length = v.nodes.length := by
  simp [setParent]

end setParent

section push

variable {n : Node}

/-- A new node that is not a directory, or an empty one, holds nothing. -/
lemma entry_push (hn : ∀ entries, n.kind = .dir entries → entries = ∅) (q : ℕ) (m : Bytes) :
    (v.push n).entry q m = v.entry q m := by
  rcases Nat.lt_trichotomy q v.nodes.length with hq | rfl | hq
  · exact entry_congr (by rw [node_push_of_lt n hq]) m
  · have hout : v.entry v.nodes.length m = none := by
      simp [entry, node]
    rw [hout, entry, node_push_self]
    split
    · next entries hk => rw [hn entries hk]; exact TreeMap.getElem?_emptyc
    · rfl
  have hgt : v.nodes.length + 1 ≤ q := hq
  simp [entry, node, push, List.getElem?_eq_none (show (v.nodes ++ [n]).length ≤ q by simpa),
    List.getElem?_eq_none hq.le]

lemma isDir_push_of_lt (hi : i < v.nodes.length) : (v.push n).isDir i = v.isDir i :=
  isDir_congr (by rw [node_push_of_lt n hi])

end push

section setFile

lemma entry_setFile (hfile : v.isDir i = false) (data : Bytes) (q : ℕ) (m : Bytes) :
    (v.setKind i (.file data)).entry q m = v.entry q m := by
  by_cases hq : i = q
  · subst hq
    rw [entry_eq_none hfile, entry_eq_none]
    exact (setKind_frame (.file data) hfile.symm i).2.2.trans hfile
  · exact entry_congr (by rw [node_setKind, if_neg fun hc => hq hc.1]) m

/-- The nodes after `release_unreferenced`: what waited and is not referred to is
an empty file. -/
lemma node_releaseUnreferenced (referenced : List ℕ) (j : ℕ) :
    (v.releaseUnreferenced referenced).node j
      = if (j ∈ v.unlinked ∧ j ∉ referenced) ∧ j < v.nodes.length
        then { v.node j with kind := .file [] } else v.node j := by
  have hfold : ∀ (freed : List ℕ) (w : Vfs),
      (freed.foldl (fun w i => w.setKind i (.file [])) w).node j
        = if j ∈ freed ∧ j < w.nodes.length then { w.node j with kind := .file [] }
          else w.node j := by
    intro freed
    induction freed with
    | nil => exact fun w => by simp
    | cons i freed ih =>
      intro w
      rw [foldl_cons, ih, node_setKind]
      by_cases hj : i = j
      · subst hj
        by_cases hi : i < w.nodes.length <;> by_cases hf : i ∈ freed <;> simp [hi, hf, setKind]
      · simp [setKind, Ne.symm hj, hj]
  have hnode : (v.releaseUnreferenced referenced).node j
      = ((v.unlinked.filter (· ∉ referenced)).foldl (fun w i => w.setKind i (.file [])) v).node j :=
    rfl
  rw [hnode, hfold]
  simp [mem_filter]

@[simp] lemma length_releaseUnreferenced (referenced : List ℕ) :
    (v.releaseUnreferenced referenced).nodes.length = v.nodes.length := by
  refine foldlRecOn (motive := fun w : Vfs => w.nodes.length = v.nodes.length) _ _ rfl
    fun w ih i _ => ?_
  rw [← ih]
  simp [setKind]

/-- Reclaiming touches no entry and no other field, as long as no directory waits. -/
lemma releaseUnreferenced_frame (hfiles : ∀ i ∈ v.unlinked, v.isDir i = false)
    (referenced : List ℕ) (j : ℕ) :
    ((v.releaseUnreferenced referenced).node j).parent = (v.node j).parent ∧
      ((v.releaseUnreferenced referenced).node j).nlink = (v.node j).nlink ∧
      (v.releaseUnreferenced referenced).isDir j = v.isDir j := by
  rw [isDir, node_releaseUnreferenced]
  split
  · next h => exact ⟨rfl, rfl, (hfiles j h.1.1).symm⟩
  · exact ⟨rfl, rfl, rfl⟩

lemma entry_releaseUnreferenced (hfiles : ∀ i ∈ v.unlinked, v.isDir i = false)
    (referenced : List ℕ) (q : ℕ) (m : Bytes) :
    (v.releaseUnreferenced referenced).entry q m = v.entry q m := by
  by_cases hq : q ∈ v.unlinked
  · rw [entry_eq_none (hfiles q hq), entry_eq_none]
    rw [(releaseUnreferenced_frame hfiles referenced q).2.2]
    exact hfiles q hq
  · exact entry_congr (by rw [node_releaseUnreferenced, if_neg fun h => hq h.1.1]) m

end setFile

/-! ### The invariant -/

/-- The part of the invariant that does not mention the parent links' targets. -/
structure Core (v : Vfs) : Prop where
  root_dir : v.isDir ROOT = true
  parent_lt : ∀ i < v.nodes.length, (v.node i).parent < v.nodes.length
  entry_lt : ∀ {p name c}, v.entry p name = some c → c < v.nodes.length
  root_unnamed : ∀ p name, v.entry p name ≠ some ROOT
  unique : ∀ {d p name q m}, v.isDir d = true → v.entry p name = some d →
    v.entry q m = some d → q = p ∧ m = name
  acyclic : Acyclic v.Edge
  proper : ∀ {p name c}, v.entry p name = some c → ProperName name
  links : ∀ {d p name}, v.isDir d = true → v.entry p name = some d → 2 ≤ (v.node d).nlink
  unlinked_file : ∀ i ∈ v.unlinked, i < v.nodes.length ∧ v.isDir i = false

/-- A directory's entry lies in the directory its parent field points to. -/
def InParent (v : Vfs) : Prop :=
  ∀ {d p name}, v.isDir d = true → v.entry p name = some d → (v.node d).parent = p

/-- The invariant of the filesystem. -/
structure Wf (v : Vfs) : Prop extends Core v where
  in_parent : v.InParent

namespace Core

variable (h : Core v)
include h

/-- The root is inside the arena. -/
lemma root_lt : ROOT < v.nodes.length := lt_of_isDir h.root_dir

/-- An update that makes no entry, and keeps the directories. -/
lemma shrink (hlen : v.nodes.length ≤ w.nodes.length)
    (he : ∀ {q m c}, w.entry q m = some c → v.entry q m = some c)
    (hd : ∀ j < v.nodes.length, w.isDir j = v.isDir j)
    (hp : ∀ j < w.nodes.length, (w.node j).parent < w.nodes.length)
    (hl : ∀ {d p name}, v.isDir d → v.entry p name = some d → 2 ≤ (w.node d).nlink)
    (hu : ∀ i ∈ w.unlinked, i < v.nodes.length ∧ v.isDir i = false) : Core w where
  root_dir := (hd ROOT h.root_lt).trans h.root_dir
  parent_lt := hp
  entry_lt := fun hc => (h.entry_lt (he hc)).trans_le hlen
  root_unnamed := fun p name hc => h.root_unnamed p name (he hc)
  unique := fun hdir h₁ h₂ => by
    rw [hd _ (h.entry_lt (he h₁))] at hdir
    exact h.unique hdir (he h₁) (he h₂)
  acyclic := h.acyclic.mono fun a b ⟨m, hm⟩ => ⟨m, he hm⟩
  proper := fun hc => h.proper (he hc)
  links := fun hdir hc => by
    rw [hd _ (h.entry_lt (he hc))] at hdir
    exact hl hdir (he hc)
  unlinked_file := fun i hi => by
    obtain ⟨hlt, hfile⟩ := hu i hi
    exact ⟨hlt.trans_le hlen, (hd i hlt).trans hfile⟩

/-- An update that leaves every entry and every directory in place. -/
lemma congr (hlen : w.nodes.length = v.nodes.length) (he : ∀ q m, w.entry q m = v.entry q m)
    (hd : ∀ j, w.isDir j = v.isDir j)
    (hp : ∀ j < v.nodes.length, (w.node j).parent < v.nodes.length)
    (hl : ∀ {d p name}, v.isDir d → v.entry p name = some d → 2 ≤ (w.node d).nlink)
    (hu : ∀ i ∈ w.unlinked, i < v.nodes.length ∧ v.isDir i = false) : Core w :=
  h.shrink hlen.ge (fun hc => (he _ _).symm.trans hc) (fun j _ => hd j)
    (by rwa [hlen]) hl hu

/-- A new node that holds nothing is not yet part of the tree. -/
lemma push {n : Node} (hn : ∀ entries, n.kind = .dir entries → entries = ∅)
    (hparent : n.parent < v.nodes.length) : Core (v.push n) := by
  have hlen : v.nodes.length ≤ (v.push n).nodes.length := by
    rw [length_push]
    exact Nat.le_succ _
  refine h.shrink hlen (fun hc => (entry_push hn _ _).symm.trans hc)
    (fun j hj => isDir_push_of_lt hj) (fun i hi => ?_) (fun hdir hc => ?_) h.unlinked_file
  · refine Nat.lt_of_lt_of_le ?_ hlen
    rw [length_push] at hi
    rcases Nat.lt_succ_iff_lt_or_eq.mp hi with hlt | rfl
    · rw [node_push_of_lt n hlt]
      exact h.parent_lt i hlt
    · rw [node_push_self]
      exact hparent
  · rw [node_push_of_lt n (h.entry_lt hc)]
    exact h.links hdir hc

lemma eraseEntry (hp : v.isDir p) :
    Core (v.eraseEntry p name) := by
  have hframe := @eraseEntry_frame v p name hp
  refine h.shrink length_eraseEntry.ge (fun {q m c} hc => ?_) (fun j _ => (hframe j).2.2)
    (fun i hi => ?_) (fun {d _ _} hdir hc => ?_) (fun i hi => ?_)
  · rw [entry_eraseEntry hp] at hc
    split at hc
    · exact absurd hc (by simp)
    · exact hc
  · rw [length_eraseEntry] at hi ⊢
    rw [(hframe i).1]
    exact h.parent_lt i hi
  · rw [(hframe d).2.1]
    exact h.links hdir hc
  · exact h.unlinked_file i (unlinked_eraseEntry ▸ hi)

/-- Hanging `c` below `p`.  A directory may be hung only where nothing else
names it, with its two links, and never below itself. -/
lemma setEntry (hp : v.isDir p) (hname : ProperName name) (hc : c < v.nodes.length)
    (hroot : c ≠ ROOT) (hdir : v.isDir c → 2 ≤ (v.node c).nlink ∧ ∀ q m, v.entry q m ≠ some c)
    (hbelow : ¬ ReflTransGen v.Edge c p) : Core (v.setEntry p name c) := by
  have hcase : ∀ {q m x}, (v.setEntry p name c).entry q m = some x →
      (q = p ∧ m = name ∧ x = c) ∨ v.entry q m = some x := by
    intro q m x hx
    rw [entry_setEntry hp] at hx
    split at hx
    · next hqm => exact .inl ⟨hqm.1, hqm.2, (Option.some.inj hx).symm⟩
    · exact .inr hx
  have hframe := @setEntry_frame v p c name hp
  exact
    { root_dir := by rw [(hframe _).2.2]; exact h.root_dir
      parent_lt := fun i hi => by
        rw [length_setEntry] at hi ⊢
        rw [(hframe i).1]
        exact h.parent_lt i hi
      entry_lt := fun hx => by
        rw [length_setEntry]
        rcases hcase hx with ⟨-, -, rfl⟩ | hx
        · exact hc
        · exact h.entry_lt hx
      root_unnamed := fun q m hx => by
        rcases hcase hx with ⟨-, -, hx⟩ | hx
        · exact hroot hx.symm
        · exact h.root_unnamed q m hx
      unique := fun {d p' name' q m} hd h₁ h₂ => by
        rw [(hframe _).2.2] at hd
        -- the new entry is the only one of `c`, and no other entry changed
        rcases hcase h₁ with ⟨rfl, rfl, rfl⟩ | e₁ <;> rcases hcase h₂ with ⟨rfl, rfl, hdc⟩ | e₂
        · exact ⟨rfl, rfl⟩
        · exact absurd e₂ ((hdir hd).2 q m)
        · subst hdc
          exact absurd e₁ ((hdir hd).2 p' name')
        · exact h.unique hd e₁ e₂
      acyclic := h.acyclic.attach (p := p) (c := c) (fun a b ⟨m, hm⟩ => by
        rcases hcase hm with ⟨rfl, -, rfl⟩ | hm
        · exact .inr ⟨rfl, rfl⟩
        · exact .inl ⟨m, hm⟩) hbelow
      proper := fun hx => by
        rcases hcase hx with ⟨-, rfl, -⟩ | hx
        · exact hname
        · exact h.proper hx
      links := fun hd hx => by
        rw [(hframe _).2.2] at hd
        rw [(hframe _).2.1]
        rcases hcase hx with ⟨-, -, rfl⟩ | hx
        · exact (hdir hd).1
        · exact h.links hd hx
      unlinked_file := fun i hi => by
        rw [unlinked_setEntry] at hi
        rw [length_setEntry, (hframe i).2.2]
        exact h.unlinked_file i hi }

/-- A link of `i` is dropped.  A directory loses one only after its last name. -/
lemma dropLink (hi : i < v.nodes.length)
    (hdir : v.isDir i → 2 ≤ (v.node i).nlink ∧ ∀ q m, v.entry q m ≠ some i) :
    Core (v.dropLink i) := by
  refine h.congr (length_dropLink i) (entry_dropLink i) (isDir_dropLink i) ?_ ?_ ?_
  · intro j hj
    rw [(dropLink_frame i j).1]
    exact h.parent_lt j hj
  · intro d p name hd hc
    have hne : ¬ (i = d ∧ i < v.nodes.length) := by
      rintro ⟨rfl, -⟩
      exact (hdir hd).2 p name hc
    rw [node_dropLink, if_neg hne]
    exact h.links hd hc
  intro j hj
  rcases mem_unlinked_dropLink i hj with hj | ⟨rfl, hz⟩
  · exact h.unlinked_file j hj
  refine ⟨hi, Bool.eq_false_iff.mpr fun hd => ?_⟩
  have := (hdir hd).1
  omega

lemma setParent (hi : i < v.nodes.length) (hp : p < v.nodes.length) :
    Core (v.setParent i p) := by
  refine h.congr (length_setParent i p) (entry_setParent i p) (isDir_setParent i p) ?_ ?_ ?_
  · intro j hj
    rw [parent_setParent i p hi]
    split
    · exact hp
    · exact h.parent_lt j hj
  · intro d q name hd hc
    rw [(setParent_frame i p d).1]
    exact h.links hd hc
  · exact h.unlinked_file

end Core

end Vfs

end WebTos
