import WebTos.Lib.Refs
import WebTos.Vfs.TreeRun

/-!
Link counts: how many directory entries name a node, against its `nlink` field.

The entries of all directories are one table of references (`Vfs.slots`).  Inside an
operation the count and the field differ by the links that are owed: an entry just
removed, a node just allocated.  `Counted owed v` says so exactly, each update of
the arena adds or settles one debt, and an operation is right when it ends with none.

* `Counted.eraseEntry`, `Counted.setEntry`, `Counted.dropLink`, `Counted.addLink`,
  `Counted.push`: the debts each arena update makes and settles;
* `Counted.create`, `Counted.link`, `Counted.unlink`, `Counted.rename`,
  `Counted.addNode`: the operations that end without debt.  `rename` between two
  names of one file ends with one.
-/

namespace WebTos

open Lib List Function

variable {e : ℕ∞}

/-- One link less on both sides of a count. -/
lemma enat_pred {k n : ℕ} (h : e + ((k + 1 : ℕ) : ℕ∞) = n) : e + k = ((n - 1 : ℕ) : ℕ∞) := by
  have he : e ≠ ⊤ := by
    rintro rfl
    exact absurd h (by simp)
  lift e to ℕ using he
  norm_cast at h ⊢
  omega

lemma enat_le_pred {k n : ℕ} (h : e + ((k + 1 : ℕ) : ℕ∞) + 1 ≤ n) :
    2 ≤ n ∧ e + k + 1 ≤ ((n - 1 : ℕ) : ℕ∞) := by
  have he : e ≠ ⊤ := by
    rintro rfl
    exact absurd h (by simp)
  lift e to ℕ using he
  norm_cast at h ⊢
  omega

namespace Vfs

variable {v : Vfs}

/-! ### The table of entries -/

/-- What every directory holds under every name. -/
def slots (v : Vfs) (e : ℕ × Bytes) : Option ℕ := v.entry e.1 e.2

section slots

variable {p c : ℕ} {name : Bytes}

lemma slots_setEntry (hp : v.isDir p) :
    (v.setEntry p name c).slots = Function.update v.slots (p, name) (some c) := by
  funext ⟨q, m⟩
  simp only [slots, entry_setEntry hp, update_apply, Prod.mk.injEq]

lemma slots_eraseEntry (hp : v.isDir p) :
    (v.eraseEntry p name).slots = Function.update v.slots (p, name) none := by
  funext ⟨q, m⟩
  simp only [slots, entry_eraseEntry hp, update_apply, Prod.mk.injEq]

/-- Only the directory written to changes. -/
lemma node_setEntry_file (hp : v.isDir p) {j : ℕ} (hj : v.isDir j = false) :
    (v.setEntry p name c).node j = v.node j := by
  obtain ⟨entries, he⟩ := exists_dir_of_isDir hp
  rw [setEntry_of_dir he, node_setKind, if_neg]
  rintro ⟨rfl, -⟩
  simp [hp] at hj

lemma node_eraseEntry_file (hp : v.isDir p) {j : ℕ} (hj : v.isDir j = false) :
    (v.eraseEntry p name).node j = v.node j := by
  obtain ⟨entries, he⟩ := exists_dir_of_isDir hp
  rw [eraseEntry_of_dir he, node_setKind, if_neg]
  rintro ⟨rfl, -⟩
  simp [hp] at hj

/-- An erased entry is owed to the node it named. -/
lemma links_eraseEntry (he : v.entry p name = some c) (owed : List ℕ) (i : ℕ) :
    (refs (v.eraseEntry p name).slots i).encard + ((c :: owed).count i : ℕ)
      = (refs v.slots i).encard + (owed.count i : ℕ) := by
  rw [slots_eraseEntry (isDir_of_entry he)]
  have hslot : v.slots (p, name) = some c := he
  by_cases hi : i = c
  · subst hi
    rw [count_cons_self, Nat.cast_add_one, add_comm (owed.count i : ℕ∞), ← add_assoc,
      encard_refs_update_of_eq hslot (by simp)]
  · have hne : c ≠ i := Ne.symm hi
    rw [count_cons_of_ne hne, refs_update_of_ne (by simpa [hslot] using hne) (by simp)]

/-- A written entry settles a link of the node it names, and what it displaced is
owed one. -/
lemma links_setEntry (hp : v.isDir p) (owed : List ℕ) (i : ℕ) :
    (refs (v.setEntry p name c).slots i).encard
        + (((v.entry p name).toList ++ owed).count i : ℕ)
      = (refs v.slots i).encard + ((c :: owed).count i : ℕ) := by
  rw [slots_setEntry hp, count_append]
  have hslot : v.slots (p, name) = v.entry p name := rfl
  -- the cases are what the slot named before and what it names now
  by_cases hold : v.entry p name = some i
  · by_cases hi : c = i
    · -- the entry named `c` already
      subst hi
      rw [← hold, ← hslot, update_eq_self, hslot, hold]
      simp [add_comm]
    · rw [← encard_refs_update_of_eq (hslot.trans hold) (x := some c) (by simpa using hi), hold]
      simp [hi, add_assoc]
  have hcount : (v.entry p name).toList.count i = 0 := by
    rw [List.count_eq_zero]
    simpa using hold
  rw [hcount, zero_add]
  by_cases hi : c = i
  · subst hi
    rw [encard_refs_update_some (by rw [hslot]; exact hold)]
    simp [add_assoc, add_comm]
  · rw [refs_update_of_ne (by rw [hslot]; exact hold) (by simpa using hi)]
    simp [hi]

end slots

/-! ### Counts and debts -/

/-- The link counts of the arena, `owed` apart: a file's count is the number of
entries that name it, and a directory's has one more for itself (two for one in the
tree, one for one removed).  A file without links waits to be reclaimed or is empty. -/
structure Counted (owed : List ℕ) (v : Vfs) : Prop where
  root_dir : v.isDir ROOT = true
  parent_dir : ∀ i < v.nodes.length, v.isDir (v.node i).parent = true
  entry_lt : ∀ {p name c}, v.entry p name = some c → c < v.nodes.length
  file_links : ∀ i < v.nodes.length, v.isDir i = false →
    (refs v.slots i).encard + (owed.count i : ℕ) = (v.node i).nlink
  dir_links : ∀ i, v.isDir i = true →
    (refs v.slots i).encard + (owed.count i : ℕ) + 1 ≤ (v.node i).nlink
  unlinked_file : ∀ i ∈ v.unlinked, i < v.nodes.length ∧ v.isDir i = false ∧ (v.node i).nlink = 0
  waiting : ∀ i < v.nodes.length, v.isDir i = false → (v.node i).nlink = 0 →
    i ∈ v.unlinked ∨ (v.node i).kind = .file []

namespace Counted

variable {owed : List ℕ} {p c : ℕ} {name : Bytes}

lemma bounded (h : Counted owed v) : Bounded v :=
  ⟨h.root_dir, fun i hi => lt_of_isDir (h.parent_dir i hi), h.entry_lt⟩

variable {w : Vfs}

/-- An update that keeps the directories: what is left to show. -/
lemma of_dirs {owed' : List ℕ} (h : Counted owed v) (hlen : w.nodes.length = v.nodes.length)
    (hd : ∀ j, w.isDir j = v.isDir j) (hp : ∀ j < v.nodes.length, v.isDir (w.node j).parent = true)
    (he : ∀ {q m x}, w.entry q m = some x → x < v.nodes.length)
    (hfile : ∀ i < v.nodes.length, v.isDir i = false →
      (refs w.slots i).encard + (owed'.count i : ℕ) = (w.node i).nlink)
    (hdir : ∀ i, v.isDir i = true →
      (refs w.slots i).encard + (owed'.count i : ℕ) + 1 ≤ (w.node i).nlink)
    (hu : ∀ i ∈ w.unlinked, i < v.nodes.length ∧ v.isDir i = false ∧ (w.node i).nlink = 0)
    (hw : ∀ i < v.nodes.length, v.isDir i = false → (w.node i).nlink = 0 →
      i ∈ w.unlinked ∨ (w.node i).kind = .file []) : Counted owed' w := by
  refine ⟨(hd _).trans h.root_dir, ?_, ?_, ?_, ?_, ?_, ?_⟩ <;> simp only [hlen, hd] <;> assumption

/-- An update of the entries alone, from one list of debts to another. -/
lemma reslot {owed' : List ℕ} (h : Counted owed v) (hlen : w.nodes.length = v.nodes.length)
    (hfile : ∀ {j}, v.isDir j = false → w.node j = v.node j)
    (hframe : ∀ j, (w.node j).parent = (v.node j).parent ∧ (w.node j).nlink = (v.node j).nlink ∧
      w.isDir j = v.isDir j)
    (hu : w.unlinked = v.unlinked) (he : ∀ {q m x}, w.entry q m = some x → x < v.nodes.length)
    (hlinks : ∀ i, (refs w.slots i).encard + (owed'.count i : ℕ) =
      (refs v.slots i).encard + (owed.count i : ℕ))
    : Counted owed' w := by
  refine h.of_dirs hlen (fun j => (hframe j).2.2) (fun j hj => ?_) he (fun i hi hd => ?_)
    (fun i hd => ?_) (fun i hi => ?_) fun i hi hd hz => ?_
  · rw [(hframe j).1]
    exact h.parent_dir j hj
  · rw [hlinks, (hframe i).2.1]
    exact h.file_links i hi hd
  · rw [hlinks, (hframe i).2.1]
    exact h.dir_links i hd
  · rw [(hframe i).2.1]
    exact h.unlinked_file i (hu ▸ hi)
  · rw [hfile hd] at hz ⊢
    rw [hu]
    exact h.waiting i hi hd hz

/-- `entries.remove`: the node is owed the link. -/
lemma eraseEntry (h : Counted owed v) (he : v.entry p name = some c) :
    Counted (c :: owed) (v.eraseEntry p name) := by
  have hp := isDir_of_entry he
  refine h.reslot length_eraseEntry (node_eraseEntry_file hp) (eraseEntry_frame hp)
    unlinked_eraseEntry (fun {q m x} hx => ?_) (links_eraseEntry he owed)
  rw [entry_eraseEntry hp] at hx
  split at hx
  · exact absurd hx (by simp)
  · exact h.entry_lt hx

/-- `entries.insert`: a link of the node is settled, and the displaced one's is owed. -/
lemma setEntry (h : Counted (c :: owed) v) (hp : v.isDir p) (hc : c < v.nodes.length)
    (name : Bytes) :
    Counted ((v.entry p name).toList ++ owed) (v.setEntry p name c) := by
  refine h.reslot length_setEntry (node_setEntry_file hp) (setEntry_frame hp)
    unlinked_setEntry (fun {q m x} hx => ?_) (links_setEntry hp owed)
  rw [entry_setEntry hp] at hx
  split at hx
  · exact Option.some.inj hx ▸ hc
  · exact h.entry_lt hx

/-- A link count falls: a debt is settled, and a file without links starts waiting. -/
lemma dropLink (h : Counted (c :: owed) v) (hc : c < v.nodes.length) :
    Counted owed (v.dropLink c) := by
  have hslots : (v.dropLink c).slots = v.slots := funext fun e => entry_dropLink c e.1 e.2
  have hself : (v.dropLink c).node c = { v.node c with nlink := (v.node c).nlink - 1 } := by
    rw [node_dropLink, if_pos ⟨rfl, hc⟩]
  have hother : ∀ {j}, j ≠ c → (v.dropLink c).node j = v.node j := fun hj => by
    rw [node_dropLink, if_neg fun hh => hj hh.1.symm]
  have hmem : ∀ {j}, j ∈ v.unlinked → j ∈ (v.dropLink c).unlinked := by
    intro j hj
    rw [Vfs.dropLink]
    split
    · exact mem_append_left _ hj
    · exact hj
  have hdirs : v.isDir c → 2 ≤ (v.node c).nlink ∧
      (refs v.slots c).encard + (owed.count c : ℕ) + 1 ≤ (((v.node c).nlink - 1 : ℕ) : ℕ∞) := by
    intro hd
    have hold := h.dir_links c hd
    rw [count_cons_self] at hold
    exact enat_le_pred hold
  refine h.of_dirs (length_dropLink c) (isDir_dropLink c) (fun i hi => ?_) (fun hx => ?_)
    (fun i hi hd => ?_) (fun i hd => ?_) (fun i hi => ?_) fun i hi hd hz => ?_
  · rw [(dropLink_frame c i).1]
    exact h.parent_dir i hi
  · rw [entry_dropLink] at hx
    exact h.entry_lt hx
  · have hold := h.file_links i hi hd
    rw [hslots]
    -- only the node whose link falls changes
    by_cases hic : i = c
    · subst hic
      rw [count_cons_self] at hold
      rw [hself]
      exact enat_pred hold
    rw [count_cons_of_ne (Ne.symm hic)] at hold
    rw [hother hic]
    exact hold
  · have hold := h.dir_links i hd
    rw [hslots]
    by_cases hic : i = c
    · subst hic
      rw [hself]
      exact (hdirs hd).2
    rw [count_cons_of_ne (Ne.symm hic)] at hold
    rw [hother hic]
    exact hold
  · rcases mem_unlinked_dropLink c hi with hi | ⟨rfl, hz⟩
    · obtain ⟨hlt, hd, hz⟩ := h.unlinked_file i hi
      refine ⟨hlt, hd, ?_⟩
      rw [node_dropLink]
      split
      · next hic => simp [hic.1, hz]
      · exact hz
    refine ⟨hc, Bool.eq_false_iff.mpr fun hd => ?_, by rw [hself]; exact hz⟩
    have := (hdirs hd).1
    omega
  rw [(dropLink_frame c i).2]
  by_cases hic : i = c
  · subst hic
    rw [hself] at hz
    left
    rw [Vfs.dropLink]
    dsimp only at hz ⊢
    rw [hz]
    split
    · exact mem_append_right _ mem_cons_self
    · next hin => simpa using hin
  · rw [hother hic] at hz
    exact (h.waiting i hi hd hz).imp_left hmem

/-- What was displaced loses a link. -/
lemma dropDisplaced {displaced : Option ℕ} (h : Counted (displaced.toList ++ owed) v)
    (hlt : ∀ {d}, displaced = some d → d < v.nodes.length) :
    Counted owed (v.dropDisplaced displaced) := by
  cases displaced with
  | none => exact h
  | some d => exact h.dropLink (hlt rfl)

section

variable (h : Counted owed v)
include h

/-- An update that leaves the entries and the link counts in place, and empties no
file's list of links. -/
lemma congr (hlen : w.nodes.length = v.nodes.length) (he : ∀ q m, w.entry q m = v.entry q m)
    (hd : ∀ j, w.isDir j = v.isDir j) (hn : ∀ j, (w.node j).nlink = (v.node j).nlink)
    (hp : ∀ j < v.nodes.length, v.isDir (w.node j).parent) (hu : ∀ i ∈ w.unlinked, i ∈ v.unlinked)
    (hw : ∀ i, i ∈ v.unlinked ∨ (v.node i).kind = .file [] → i ∈ w.unlinked ∨
      (w.node i).kind = .file [])
    : Counted owed w := by
  have hslots : w.slots = v.slots := funext fun e => he e.1 e.2
  refine h.of_dirs hlen hd hp (fun hx => h.entry_lt ((he _ _).symm.trans hx)) (fun i hi hfile => ?_)
    (fun i hdir => ?_) (fun i hi => ?_) fun i hi hfile hz => ?_
  · rw [hslots, hn]
    exact h.file_links i hi hfile
  · rw [hslots, hn]
    exact h.dir_links i hdir
  · rw [hn]
    exact h.unlinked_file i (hu i hi)
  · exact hw i (h.waiting i hi hfile (hn i ▸ hz))

lemma setParent {i : ℕ} (hi : i < v.nodes.length) (hp : v.isDir p)
    : Counted owed (v.setParent i p) := by
  refine h.congr (length_setParent i p) (entry_setParent i p) (isDir_setParent i p)
    (fun j => (setParent_frame i p j).1) (fun j hj => ?_) (fun _ => id) fun j hj => ?_
  · rw [parent_setParent i p hi]
    split
    · exact hp
    · exact h.parent_dir j hj
  · rw [(setParent_frame i p j).2]
    exact hj

lemma setFile {i : ℕ} (hfile : v.isDir i = false) :
    Counted owed (v.setKind i (.file [])) := by
  have hframe := setKind_frame (.file []) hfile.symm
  refine h.congr (by simp [setKind]) (entry_setFile hfile []) (fun j => (hframe j).2.2)
    (fun j => (hframe j).2.1) (fun j hj => ?_) (fun _ => id) fun j hj => ?_
  · rw [(hframe j).1]
    exact h.parent_dir j hj
  rw [node_setKind]
  split
  · exact .inr rfl
  · exact hj

lemma truncate (node : ℕ) : Counted owed (v.truncate node) := by
  rw [Vfs.truncate]
  split
  · next hk => exact h.setFile (by rw [isDir, hk]; rfl)
  · next hk => exact h.setFile (by rw [isDir, hk]; rfl)
  · exact h

/-- Reclaiming empties files that wait, and nothing else. -/
lemma releaseUnreferenced (referenced : List ℕ) :
    Counted owed (v.releaseUnreferenced referenced) := by
  have hfiles : ∀ i ∈ v.unlinked, v.isDir i = false := fun i hi => (h.unlinked_file i hi).2.1
  have hframe := releaseUnreferenced_frame hfiles referenced
  refine h.congr (length_releaseUnreferenced referenced)
    (entry_releaseUnreferenced hfiles referenced) (fun j => (hframe j).2.2)
    (fun j => (hframe j).2.1) (fun j hj => ?_) (fun i hi => (mem_filter.mp hi).1)
    fun i hi => ?_
  · rw [(hframe j).1]
    exact h.parent_dir j hj
  by_cases hr : i ∈ referenced
  · rw [node_releaseUnreferenced, if_neg fun hc => hc.1.2 hr]
    exact hi.imp_left fun hu => mem_filter.mpr ⟨hu, by simpa using hr⟩
  right
  rw [node_releaseUnreferenced]
  split
  · rfl
  · next hc =>
      refine hi.resolve_left fun hu => hc ⟨⟨hu, hr⟩, (h.unlinked_file i hu).1⟩

end

/-- A node in use has a link. -/
lemma nlink_ne_zero (h : Counted [] v) (he : v.entry p name = some c) : (v.node c).nlink ≠ 0 := by
  intro hz
  have hmem : (p, name) ∈ refs v.slots c := he
  cases hd : v.isDir c with
  | false =>
    have := h.file_links c (h.entry_lt he) hd
    rw [hz] at this
    simp only [count_nil, Nat.cast_zero, add_zero, Set.encard_eq_zero] at this
    rw [this] at hmem
    exact hmem
  | true =>
    have := h.dir_links c hd
    rw [hz] at this
    simp at this

/-- A link more on a file in use: one is owed. -/
lemma addLink (h : Counted owed v) (hc : c < v.nodes.length) (hfile : v.isDir c = false)
    (hne : (v.node c).nlink ≠ 0) :
    Counted (c :: owed) (v.modifyNode c fun n => { n with nlink := n.nlink + 1 }) := by
  have hnode : ∀ j, (v.modifyNode c fun n => { n with nlink := n.nlink + 1 }).node j
      = if j = c then { v.node j with nlink := (v.node j).nlink + 1 } else v.node j := by
    intro j
    rw [node_modifyNode]
    by_cases hj : j = c
    · rw [if_pos ⟨hj.symm, hc⟩, if_pos hj]
    · rw [if_neg fun hh => hj hh.1.symm, if_neg hj]
  have hkind : ∀ j, ((v.modifyNode c fun n => { n with nlink := n.nlink + 1 }).node j).kind
      = (v.node j).kind := by
    intro j
    rw [hnode]
    split <;> rfl
  have hslots : (v.modifyNode c fun n => { n with nlink := n.nlink + 1 }).slots = v.slots :=
    funext fun e => entry_congr (hkind e.1) e.2
  -- entries and kinds are as they were; only the count of `c` and what is owed to it change
  refine h.of_dirs (length_modifyNode ..) (fun j => isDir_congr (hkind j)) (fun i hi => ?_)
    (fun hx => ?_) (fun i hi hd => ?_) (fun i hd => ?_) (fun i hi => ?_) fun i hi hd hz => ?_
  · rw [hnode]
    split <;> exact h.parent_dir i hi
  · rw [entry_congr (hkind _)] at hx
    exact h.entry_lt hx
  · have hold := h.file_links i hi hd
    rw [hslots, hnode]
    by_cases hic : i = c
    · subst hic
      rw [if_pos rfl, count_cons_self]
      push_cast
      rw [← add_assoc, hold]
    · rw [if_neg hic, count_cons_of_ne (Ne.symm hic)]
      exact hold
  · -- a directory is not the file that got the link
    have hic : i ≠ c := by
      rintro rfl
      simp [hfile] at hd
    rw [hslots, hnode, if_neg hic, count_cons_of_ne (Ne.symm hic)]
    exact h.dir_links i hd
  · obtain ⟨hlt, hd, hz⟩ := h.unlinked_file i hi
    have hic : i ≠ c := by
      rintro rfl
      exact hne hz
    rw [hnode, if_neg hic]
    exact ⟨hlt, hd, hz⟩
  rw [hkind]
  refine h.waiting i hi hd ?_
  rw [hnode] at hz
  split at hz
  · exact absurd hz (by simp)
  · exact hz

variable {n : Node}

/-- A node just allocated is owed its name. -/
lemma push (h : Counted [] v) (hn : ∀ entries, n.kind = .dir entries → entries = ∅)
    (hparent : v.isDir n.parent) (hlinks : n.nlink = newLinks n.kind) :
    Counted [v.nodes.length] (v.push n) := by
  have hslots : (v.push n).slots = v.slots := funext fun e => entry_push hn e.1 e.2
  -- no entry names the new node
  have hrefs : refs v.slots v.nodes.length = ∅ :=
    refs_eq_empty fun e (he : v.entry e.1 e.2 = _) => Nat.lt_irrefl _ (h.entry_lt he)
  have hcount : ∀ {i}, i < v.nodes.length → List.count i [v.nodes.length] = 0 := fun hi => by
    rw [List.count_eq_zero, mem_singleton]
    omega
  exact
    { root_dir := by rw [isDir_push_of_lt (lt_of_isDir h.root_dir)]; exact h.root_dir
      parent_dir := fun i hi => by
        rw [length_push] at hi
        rcases Nat.lt_succ_iff_lt_or_eq.mp hi with hlt | rfl
        · rw [node_push_of_lt n hlt, isDir_push_of_lt (lt_of_isDir (h.parent_dir i hlt))]
          exact h.parent_dir i hlt
        · rw [node_push_self, isDir_push_of_lt (lt_of_isDir hparent)]
          exact hparent
      entry_lt := fun hx => by
        rw [entry_push hn] at hx
        rw [length_push]
        exact Nat.lt_succ_of_lt (h.entry_lt hx)
      file_links := fun i hi hd => by
        rw [length_push] at hi
        rw [hslots]
        rcases Nat.lt_succ_iff_lt_or_eq.mp hi with hlt | rfl
        · rw [isDir_push_of_lt hlt] at hd
          rw [node_push_of_lt n hlt, hcount hlt]
          exact h.file_links i hlt hd
        rw [isDir, node_push_self] at hd
        -- the new node has the links of its kind, and the one owed is its name
        rw [hrefs, node_push_self, hlinks, newLinks, hd]
        simp
      dir_links := fun i hd => by
        have hi := lt_of_isDir hd
        rw [length_push] at hi
        rw [hslots]
        rcases Nat.lt_succ_iff_lt_or_eq.mp hi with hlt | rfl
        · rw [isDir_push_of_lt hlt] at hd
          rw [node_push_of_lt n hlt, hcount hlt]
          exact h.dir_links i hd
        rw [isDir, node_push_self] at hd
        rw [hrefs, node_push_self, hlinks, newLinks, hd]
        simp [one_add_one_eq_two]
      unlinked_file := fun i hi => by
        obtain ⟨hlt, hd, hz⟩ := h.unlinked_file i hi
        rw [length_push, isDir_push_of_lt hlt, node_push_of_lt n hlt]
        exact ⟨Nat.lt_succ_of_lt hlt, hd, hz⟩
      waiting := fun i hi hd hz => by
        rw [length_push] at hi
        rcases Nat.lt_succ_iff_lt_or_eq.mp hi with hlt | rfl
        · rw [isDir_push_of_lt hlt] at hd
          rw [node_push_of_lt n hlt] at hz ⊢
          exact h.waiting i hlt hd hz
        · rw [node_push_self, hlinks, newLinks] at hz
          split at hz <;> exact absurd hz (by simp) }

/-! ### The operations -/

/-- A new node under a name settles its own debt. -/
lemma attach (h : Counted [] v) (hn : ∀ entries, n.kind = .dir entries → entries = ∅)
    (hparent : v.isDir n.parent) (hlinks : n.nlink = newLinks n.kind) (name : Bytes) :
    Counted [] (v.attached n name) := by
  have hset := (h.push hn hparent hlinks).setEntry (p := n.parent)
    (by rw [isDir_push_of_lt (lt_of_isDir hparent)]; exact hparent) (by simp) name
  rw [entry_push hn] at hset
  refine hset.dropDisplaced fun {d} hd => ?_
  rw [length_setEntry, length_push]
  exact Nat.lt_succ_of_lt (h.entry_lt hd)

variable {r : Resolved} {kind : NodeKind}

section

variable (h : Counted [] v)
include h

lemma create (hr : v.ResolvedOk r) (hnone : ¬ r.node.isSome)
    (hk : ∀ entries, kind = .dir entries → entries = ∅) (mode : ℕ) :
    Counted [] (v.create r.parent r.name kind mode).2 := by
  rcases create_cases hr hnone hk mode with hsame | hatt
  · rw [hsame]
    exact h
  · rw [hatt]
    exact h.attach hk (hr.fresh hnone).2.1 rfl r.name

/-- `link`: the count rises with the entry. -/
lemma link (hr : v.ResolvedOk r) (hnone : ¬ r.node.isSome) {node : ℕ} (hlt : node < v.nodes.length)
    (hfile : v.isDir node = false) (hne : (v.node node).nlink ≠ 0) :
    Counted [] (v.link r.parent r.name node).2 := by
  obtain ⟨-, hdir, hfree⟩ := hr.fresh hnone
  -- the count and the entry change different nodes, in either order
  have hcomm : (v.setEntry r.parent r.name node).modifyNode node
      (fun n => { n with nlink := n.nlink + 1 })
      = (v.modifyNode node fun n => { n with nlink := n.nlink + 1 }).setEntry r.parent r.name
          node := by
    have hne' : node ≠ r.parent := by
      rintro rfl
      simp [hfile] at hdir
    obtain ⟨entries, he⟩ := exists_dir_of_isDir hdir
    have he' : ((v.modifyNode node fun n => { n with nlink := n.nlink + 1 }).node r.parent).kind
        = .dir entries := by
      rw [node_modifyNode, if_neg fun hh => hne' hh.1, he]
    rw [setEntry_of_dir he, setEntry_of_dir he']
    simp only [setKind, modifyNode, modify_modify_ne _ _ _ hne']
  have hkind : ((v.modifyNode node fun n => { n with nlink := n.nlink + 1 }).node r.parent).kind
      = (v.node r.parent).kind := by
    rw [node_modifyNode]
    split <;> rfl
  have hset := (h.addLink hlt hfile hne).setEntry (p := r.parent)
    (by rw [isDir_congr hkind]; exact hdir) (by simpa using hlt) r.name
  rw [entry_congr hkind, hfree] at hset
  rw [Vfs.link, hdir, hfree, hcomm]
  exact hset

/-- `unlink`: the entry and one link go. -/
lemma unlink (parent : ℕ) (name : Bytes) (rmdir : Bool) :
    Counted [] (v.unlink parent name rmdir).2 := by
  rcases unlink_cases v parent name rmdir with hsame | ⟨node, he, -, -, hgone⟩
  · rw [hsame]
    exact h
  · rw [hgone]
    exact (h.eraseEntry he).dropLink (by simpa using h.entry_lt he)

/-- **`rename`** onto its own name, or onto a name of another node.  Between two
names of one file the node would still be owed the link of the first. -/
lemma rename {oldParent : ℕ} {oldName : Bytes} {newParent : ℕ} {newName : Bytes}
    (hother : ∀ node, v.entry oldParent oldName = some node → v.nonEmptyDir node = false →
      v.entry newParent newName = some node → newParent = oldParent ∧ newName = oldName) :
    Counted [] (v.rename oldParent oldName newParent newName).2 := by
  rcases rename_cases v oldParent oldName newParent newName
    with hsame | ⟨node, he, hnew, hempty, hmoved⟩
  · rw [hsame]
    exact h
  rw [hmoved, renamed]
  have hold := isDir_of_entry he
  have hne : (v.eraseEntry oldParent oldName).entry newParent newName ≠ some node := by
    rw [entry_eraseEntry hold]
    split
    · simp
    · next hslot =>
        intro hc
        rw [hc] at hempty
        exact hslot (hother node he hempty hc)
  have hw := h.eraseEntry he
  have hnode : node < (v.eraseEntry oldParent oldName).nodes.length := by
    simpa using h.entry_lt he
  have hnew : (v.eraseEntry oldParent oldName).isDir newParent := by
    rw [(eraseEntry_frame hold newParent).2.2]
    exact hnew
  generalize v.eraseEntry oldParent oldName = w at *
  -- the moved node has its new name, and the displaced one is owed a link
  have hset := hw.setEntry hnew hnode newName
  have hfilter : (w.entry newParent newName).filter (· ≠ node) = w.entry newParent newName := by
    cases hd : w.entry newParent newName with
    | none => rfl
    | some d =>
      rw [hd] at hne
      have hdn : d ≠ node := fun hc => hne (by rw [hc])
      simp [Option.filter, hdn]
  have hdrop := hset.dropDisplaced fun {d} hd => by
    rw [length_setEntry]
    exact hw.entry_lt hd
  rw [hfilter]
  refine hdrop.setParent (by simpa using hnode) ?_
  rw [isDir_congr (dropDisplaced_frame _ _).2, (setEntry_frame hnew _).2.2]
  exact hnew

lemma mkdirP (path : Bytes) : Counted [] (v.mkdirP path).2 :=
  mkdirP_rule (fun hv hdir _ _ => hv.attach eq_empty_of_dir_empty hdir rfl _) h path

end

/-- A resolved path lies in a directory, and leads to a directory or to a named node. -/
lemma resolveRule (h : Counted owed v) : ResolveRule v (fun i => v.isDir i = true) fun r =>
    v.isDir r.parent = true ∧
      ∀ n, r.node = some n → v.isDir n ∨ ∃ p name, v.entry p name = some n where
  root := h.root_dir
  parent := fun i hi => h.parent_dir i (lt_of_isDir hi)
  dir := fun _ => id
  self := fun i hi => by
    refine ⟨h.parent_dir i (lt_of_isDir hi), fun n hn => .inl ?_⟩
    rw [resolvedSelf, Option.some.injEq] at hn
    exact hn ▸ hi
  entry := fun p name hp _ => ⟨hp, fun n hn => .inr ⟨p, name, hn⟩⟩

variable {path : Bytes}

lemma isDir_parent (h : Counted owed v) (hr : v.resolve ROOT path false = .ok r)
    : v.isDir r.parent :=
  (h.resolveRule.resolve h.root_dir hr).1

/-- `add_node` with a node that holds nothing, wherever the path leads. -/
lemma addNode (h : Counted [] v) (mode : ℕ) (hk : ∀ entries, kind = .dir entries → entries = ∅) :
    Counted [] (v.addNode path kind mode).2 := by
  have hmk := h.mkdirP (parentPath path)
  rcases addNode_cases v path hk mode fun _ r hres => hmk.isDir_parent hres
    with hsame | hsame | ⟨r, -, hres, hatt⟩
  · rw [hsame]
    exact h
  · rw [hsame]
    exact hmk
  · rw [hatt]
    exact hmk.attach hk (hmk.isDir_parent hres) rfl r.name

end Counted

end Vfs

end WebTos
