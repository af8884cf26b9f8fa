import WebTos.Vfs.Links

/-!
Link counts over runs of calls.

* `Vfs.treeNames`: the entries of the tree that name a node; `Vfs.LinksExact`: every
  file's link count is their number, and a directory without a name has no links;
* `Vfs.Rooted`: no directory was cut off from the root, with the operations that
  keep it so;
* `FsCall.KeepsLinks`: the calls that keep link counts exact.  The others are
  `rename` between two names of one file, which forgets a link, and every removal
  of a directory, which starts with two links and loses one;
* `links_exact_of_run`: link counts are exact after every run of such calls.
-/

namespace WebTos

open Relation Lib FsCall Vfs

namespace Vfs

variable {v : Vfs}

/-- The entries of the tree that name `i`: those of directories reached from the root. -/
def treeNames (v : Vfs) (i : ℕ) : Set (ℕ × Bytes) :=
  {e | v.Live e.1 ∧ v.entry e.1 e.2 = some i}

/-- Link counts agree with the tree.  The root is a directory no entry ever names. -/
structure LinksExact (v : Vfs) : Prop where
  counted : ∀ i < v.nodes.length, v.isDir i = false →
    (v.treeNames i).encard = (v.node i).nlink
  removed : ∀ d, v.isDir d = true → d ≠ ROOT → (∀ p name, v.entry p name ≠ some d) →
    (v.node d).nlink = 0

/-- The entries of a directory, listed. -/
def entriesOf (v : Vfs) (p : ℕ) : List (Bytes × ℕ) :=
  match (v.node p).kind with
  | .dir entries => entries.toList
  | _ => []

variable {name : Bytes}

lemma mem_entriesOf {p c : ℕ} (h : v.entry p name = some c) :
    p < v.nodes.length ∧ (name, c) ∈ v.entriesOf p := by
  refine ⟨lt_of_isDir (isDir_of_entry h), ?_⟩
  obtain ⟨entries, hk⟩ := exists_dir_of_isDir (isDir_of_entry h)
  rw [entry, hk] at h
  rw [entriesOf, hk]
  exact Std.TreeMap.mem_toList_iff_getElem?_eq_some.mpr h

/-! ### Directories stay reachable -/

/-- Every directory is reached from the root. -/
def Rooted (v : Vfs) : Prop := ∀ d, v.isDir d = true → v.Live d

/-- With no debt and no directory cut off, the counts are those of the tree. -/
lemma linksExact_of (h : Counted [] v) (hr : Rooted v) : v.LinksExact where
  counted := fun i hi hfile => by
    have hnames : v.treeNames i = refs v.slots i := by
      ext e
      exact ⟨fun he => he.2, fun he => ⟨hr e.1 (isDir_of_entry he), he⟩⟩
    rw [hnames, ← h.file_links i hi hfile]
    simp
  removed := fun d hd hroot hunnamed => by
    rcases ReflTransGen.cases_tail (hr d hd) with heq | ⟨p, -, name, he⟩
    · exact absurd heq hroot
    · exact absurd he (hunnamed p name)

section renamed

variable {oldParent newParent node : ℕ} {oldName : Bytes}

/-- The entries after a rename. -/
lemma entry_renamed (he : v.entry oldParent oldName = some node) (hnew : v.isDir newParent)
    (newName : Bytes) (q : ℕ) (m : Bytes) :
    (v.renamed oldParent oldName newParent newName node).entry q m
      = if q = newParent ∧ m = newName then some node
        else if q = oldParent ∧ m = oldName then none else v.entry q m := by
  have hold := isDir_of_entry he
  rw [renamed, entry_setParent, entry_congr (dropDisplaced_frame _ q).2, entry_setEntry,
    entry_eraseEntry hold]
  rw [(eraseEntry_frame hold _).2.2]
  exact hnew

lemma isDir_renamed (he : v.entry oldParent oldName = some node) (hnew : v.isDir newParent)
    (newName : Bytes) (j : ℕ) :
    (v.renamed oldParent oldName newParent newName node).isDir j = v.isDir j := by
  have hold := isDir_of_entry he
  rw [renamed, isDir_setParent, isDir_congr (dropDisplaced_frame _ j).2, (setEntry_frame _ j).2.2,
    (eraseEntry_frame hold j).2.2]
  rw [(eraseEntry_frame hold _).2.2]
  exact hnew

end renamed

namespace Rooted

/-- An update after which every entry that led to a directory still leaves its
target reachable. -/
lemma transfer {w : Vfs} (h : Rooted v)
    (hstep : ∀ {p name d}, v.entry p name = some d → v.isDir d → w.Live p → w.Live d)
    {d : ℕ} (hd : v.isDir d) : w.Live d := by
  have hpath : ∀ x, ReflTransGen v.Edge ROOT x → v.isDir x → w.Live x := by
    intro x hx
    induction hx with
    | refl => exact fun _ => ReflTransGen.refl
    | tail _ hedge ih =>
      intro hdir
      obtain ⟨name, he⟩ := hedge
      exact hstep he hdir (ih (isDir_of_entry he))
  exact hpath d (h d hd) hd

/-- An update that keeps every entry and every directory. -/
lemma congr {w : Vfs} (h : Rooted v) (he : ∀ q m, w.entry q m = v.entry q m)
    (hd : ∀ j, w.isDir j = v.isDir j) : Rooted w := by
  intro d hdir
  rw [hd] at hdir
  refine h.transfer (fun {p name c} hc _ hp => hp.tail ⟨name, ?_⟩) hdir
  rw [he]
  exact hc

lemma dropDisplaced (h : Rooted v) (displaced : Option ℕ) : Rooted (v.dropDisplaced displaced) :=
  h.congr (fun q m => entry_congr (dropDisplaced_frame displaced q).2 m)
    fun j => isDir_congr (dropDisplaced_frame displaced j).2

/-- A new node below a reachable directory; what it displaces is not a directory. -/
lemma attach {n : Node} (h : Rooted v) (hn : ∀ entries, n.kind = .dir entries → entries = ∅)
    (hparent : v.isDir n.parent) (hfile : ∀ d, v.entry n.parent name = some d → v.isDir d = false) :
    Rooted (v.attached n name) := by
  refine Rooted.dropDisplaced ?_ _
  have hp : (v.push n).isDir n.parent := by
    rw [isDir_push_of_lt (lt_of_isDir hparent)]
    exact hparent
  have hentry : ∀ q m, ((v.push n).setEntry n.parent name v.nodes.length).entry q m
      = if q = n.parent ∧ m = name then some v.nodes.length else v.entry q m := by
    intro q m
    rw [entry_setEntry hp, entry_push hn]
  have hold : ∀ {d}, v.isDir d →
      ((v.push n).setEntry n.parent name v.nodes.length).Live d := by
    refine fun hd => h.transfer (fun {q m c} hc hdir hq => hq.tail ⟨m, ?_⟩) hd
    rw [hentry, if_neg]
    · exact hc
    · rintro ⟨rfl, rfl⟩
      simp [hfile c hc] at hdir
  intro d hd
  have hlt := lt_of_isDir hd
  rw [length_setEntry, length_push] at hlt
  rcases Nat.lt_succ_iff_lt_or_eq.mp hlt with hlt | rfl
  · rw [(setEntry_frame hp d).2.2, isDir_push_of_lt hlt] at hd
    exact hold hd
  · exact (hold hparent).tail ⟨name, by rw [hentry, if_pos ⟨rfl, rfl⟩]⟩

variable {kind : NodeKind} (h : Rooted v)
include h

lemma create {r : Resolved} (hr : v.ResolvedOk r) (hnone : ¬ r.node.isSome)
    (hk : ∀ entries, kind = .dir entries → entries = ∅) (mode : ℕ) :
    Rooted (v.create r.parent r.name kind mode).2 := by
  obtain ⟨-, hdir, hfree⟩ := hr.fresh hnone
  rcases create_cases hr hnone hk mode with hsame | hatt
  · rw [hsame]
    exact h
  rw [hatt]
  refine h.attach hk hdir fun d hd => ?_
  rw [hfree] at hd
  exact absurd hd (by simp)

/-- A new entry for a file. -/
lemma link (parent : ℕ) (name : Bytes) (node : ℕ) :
    Rooted (v.link parent name node).2 := by
  rw [Vfs.link]
  split_ifs with hp hfree
  · exact h
  · exact h
  have hdir : v.isDir parent := by simpa using hp
  have hset : Rooted (v.setEntry parent name node) := by
    intro d hd
    rw [(setEntry_frame hdir d).2.2] at hd
    refine h.transfer (fun {q m c} hc _ hq => hq.tail ⟨m, ?_⟩) hd
    rw [entry_setEntry hdir, if_neg]
    · exact hc
    · rintro ⟨rfl, rfl⟩
      simp [hc] at hfree
  have hkind : ∀ j, (((v.setEntry parent name node).modifyNode node
      fun n => { n with nlink := n.nlink + 1 }).node j).kind
        = ((v.setEntry parent name node).node j).kind := by
    intro j
    rw [node_modifyNode]
    split <;> rfl
  exact hset.congr (fun q m => entry_congr (hkind q) m) fun j => isDir_congr (hkind j)

/-- Removing the name of what is not a directory. -/
lemma unlink {parent : ℕ} {rmdir : Bool}
    (hfile : ∀ node, v.entry parent name = some node → rmdir → v.isDir node → v.nonEmptyDir node) :
    Rooted (v.unlink parent name rmdir).2 := by
  rcases unlink_cases v parent name rmdir with hsame | ⟨node, he, hempty, hd, hgone⟩
  · rw [hsame]
    exact h
  rw [hgone]
  have hdir := isDir_of_entry he
  have hnode : v.isDir node = false := by
    cases hnode : v.isDir node with
    | false => rfl
    | true =>
      have hfull := hfile node he (hd ▸ hnode) hnode
      rw [hempty] at hfull
      exact absurd hfull (by simp)
  have herase : Rooted (v.eraseEntry parent name) := by
    intro d hd
    rw [(eraseEntry_frame hdir d).2.2] at hd
    refine h.transfer (fun {q m c} hc hcdir hq => hq.tail ⟨m, ?_⟩) hd
    rw [entry_eraseEntry hdir, if_neg]
    · exact hc
    · rintro ⟨rfl, rfl⟩
      rw [he, Option.some.injEq] at hc
      simp [← hc, hnode] at hcdir
  exact herase.dropDisplaced (some node)

/-- **`rename`** over what is not a directory, and not of a directory to below itself. -/
lemma rename {oldParent : ℕ} {oldName : Bytes} {newParent : ℕ} {newName : Bytes}
    (hsafe : ∀ node, v.entry oldParent oldName = some node →
      (newParent = oldParent ∧ newName = oldName) ∨ (v.entry newParent newName).any v.nonEmptyDir ∨
      ((∀ d, v.entry newParent newName = some d → v.isDir d = false) ∧
      ¬ ReflTransGen v.Edge node newParent)) :
    Rooted (v.rename oldParent oldName newParent newName).2 := by
  rcases rename_cases v oldParent oldName newParent newName
    with hsame | ⟨node, he, hnew, hempty, hmoved⟩
  · rw [hsame]
    exact h
  rw [hmoved]
  have hentry := entry_renamed he hnew newName
  have hisDir := isDir_renamed he hnew newName
  rcases hsafe node he with ⟨rfl, rfl⟩ | hfull | ⟨hfile, hbelow⟩
  · -- onto its own name: every entry is back
    refine h.congr (fun q m => ?_) hisDir
    rw [hentry]
    split
    · next hslot => rw [hslot.1, hslot.2, he]
    · rfl
  · simp [hempty] at hfull
  generalize v.renamed oldParent oldName newParent newName node = w at *
  -- an entry survives unless it is the moved node's or the displaced file's
  have hkeep : ∀ {q m c}, v.entry q m = some c → v.isDir c → c ≠ node →
      w.entry q m = some c := by
    intro q m c hc hcdir hne
    rw [hentry, if_neg, if_neg]
    · exact hc
    · rintro ⟨rfl, rfl⟩
      exact hne (Option.some.inj (hc.symm.trans he))
    · rintro ⟨rfl, rfl⟩
      simp [hfile c hc] at hcdir
  -- the way to the new parent does not pass the moved node
  have hparent : w.Live newParent := by
    have hpath : ∀ x, ReflTransGen v.Edge ROOT x → v.isDir x →
        ¬ ReflTransGen v.Edge node x → w.Live x := by
      intro x hx
      induction hx with
      | refl => exact fun _ _ => ReflTransGen.refl
      | tail _ hedge ih =>
        intro hdir hout
        obtain ⟨m, hm⟩ := hedge
        refine (ih (isDir_of_entry hm) fun hin => hout (hin.tail ⟨m, hm⟩)).tail ⟨m, ?_⟩
        refine hkeep hm hdir ?_
        rintro rfl
        exact hout .refl
    exact hpath newParent (h newParent hnew) hnew hbelow
  have hnode : w.Live node :=
    hparent.tail ⟨newName, by rw [hentry, if_pos ⟨rfl, rfl⟩]⟩
  intro d hd
  rw [hisDir] at hd
  refine h.transfer (fun {q m c} hc hcdir hq => ?_) hd
  by_cases hcn : c = node
  · rw [hcn]
    exact hnode
  · exact hq.tail ⟨m, hkeep hc hcdir hcn⟩

lemma mkdirP (path : Bytes) : Rooted (v.mkdirP path).2 := by
  refine mkdirP_rule (fun hv hdir hfree _ => hv.attach eq_empty_of_dir_empty hdir ?_) h path
  intro d hd
  rw [hfree] at hd
  exact absurd hd (by simp)

lemma truncate (node : ℕ) : Rooted (v.truncate node) := by
  have hset : v.isDir node = false → Rooted (v.setKind node (.file [])) := fun hfile =>
    h.congr (entry_setFile hfile []) fun j => (setKind_frame (.file []) hfile.symm j).2.2
  rw [Vfs.truncate]
  split
  · next hk => exact hset (by rw [isDir, hk]; rfl)
  · next hk => exact hset (by rw [isDir, hk]; rfl)
  · exact h

lemma releaseUnreferenced (hc : Counted [] v) (referenced : List ℕ) :
    Rooted (v.releaseUnreferenced referenced) := by
  have hfiles : ∀ i ∈ v.unlinked, v.isDir i = false := fun i hi => (hc.unlinked_file i hi).2.1
  exact h.congr (entry_releaseUnreferenced hfiles referenced) fun j =>
    (releaseUnreferenced_frame hfiles referenced j).2.2

/-- `add_node` over what is not a directory. -/
lemma addNode (hc : Counted [] v) {path : Bytes} (mode : ℕ)
    (hk : ∀ entries, kind = .dir entries → entries = ∅)
    (hfile : (kind.isDir = false ∧ v.occupiedByADirectory path) ∨ ∀ r d,
      (v.mkdirP (parentPath path)).2.resolve ROOT path false = .ok r →
      (v.mkdirP (parentPath path)).2.entry r.parent r.name = some d →
      (v.mkdirP (parentPath path)).2.isDir d = false) :
    Rooted (v.addNode path kind mode).2 := by
  have hmk := hc.mkdirP (parentPath path)
  rcases addNode_cases v path hk mode fun _ r hres => hmk.isDir_parent hres
    with hsame | hsame | ⟨r, hfree, hres, hatt⟩
  · rw [hsame]
    exact h
  · rw [hsame]
    exact h.mkdirP _
  rw [hatt]
  have hover := hfile.resolve_left fun hocc => by simp [hfree hocc.1] at hocc
  exact (h.mkdirP _).attach hk (hmk.isDir_parent hres) fun d hd => hover r d hres hd

end Rooted

/-- Both halves of the invariant of a run. -/
structure Linked (v : Vfs) : Prop where
  counted : Counted [] v
  rooted : Rooted v

end Vfs

/-! ### Runs of calls -/

/-- The calls that keep link counts exact.  An `unlink` must not remove a directory;
a `rename` that moves something to another name must not replace another name of what
it moves nor a directory, and must not hang a directory below itself; a host's
`add_node` must not replace a directory, and a directory it adds must be empty. -/
def FsCall.KeepsLinks (v : Vfs) : FsCall → Prop
  | .unlink base path rmdir _ =>
    ∀ r node, v.resolveAt base path false = .ok r → v.entry r.parent r.name = some node →
      rmdir = true → v.isDir node = true → v.nonEmptyDir node = true
  | .rename oldBase oldPath newBase newPath _ =>
    ∀ old new node, v.resolve oldBase oldPath false = .ok old →
      v.resolve newBase newPath false = .ok new → v.entry old.parent old.name = some node →
      (new.parent = old.parent ∧ new.name = old.name) ∨
      (v.entry new.parent new.name).any v.nonEmptyDir = true ∨
      ((∀ d, v.entry new.parent new.name = some d → d ≠ node ∧ v.isDir d = false) ∧
        ¬ ReflTransGen v.Edge node new.parent)
  | .addNode path kind _ =>
    (∀ entries, kind = .dir entries → entries = ∅) ∧
    ((kind.isDir = false ∧ v.occupiedByADirectory path = true) ∨
      ∀ r d, (v.mkdirP (parentPath path)).2.resolve ROOT path false = .ok r →
        (v.mkdirP (parentPath path)).2.entry r.parent r.name = some d →
        (v.mkdirP (parentPath path)).2.isDir d = false)
  | _ => True

open Vfs in
/-- One such call keeps the counts exact. -/
lemma FsCall.KeepsLinks.exec {v : Vfs} {call : FsCall} (hkeep : call.KeepsLinks v)
    (h : Linked v) : Linked (call.exec v) := by
  obtain ⟨hc, hr⟩ := h
  refine exec_rule (P := Linked) hc.bounded ⟨hc, hr⟩ ?_ ?_ ?_ ?_ ?_ ?_ ?_ ?_
  · exact fun r kind mode hgood hnone hk => ⟨hc.create hgood hnone hk mode,
      hr.create hgood hnone hk mode⟩
  · exact fun node => ⟨hc.truncate node, hr.truncate node⟩
  · intro oldBase oldPath old new node hbase hold hnode hfile hgood hnone
    refine ⟨?_, hr.link _ _ _⟩
    have hlt := (hc.bounded.resolve_ok (lt_of_isDir hbase) hold).node_lt hnode
    rcases (hc.resolveRule.resolve hbase hold).2 node hnode with hdir | ⟨p, name, he⟩
    · simp [hfile] at hdir
    · exact hc.link hgood hnone hlt hfile (hc.nlink_ne_zero he)
  · rintro base path rmdir referenced r rfl hres
    exact ⟨hc.unlink _ _ _, hr.unlink fun node => hkeep r node hres⟩
  · rintro oldBase oldPath newBase newPath referenced old new rfl hold hnew -
    refine ⟨hc.rename fun node he hempty hother => ?_, hr.rename fun node he => ?_⟩
    · -- what is moved may stand at the target only as the same name
      rcases hkeep old new node hold hnew he with hslot | hfull | ⟨hfile, -⟩
      · exact hslot
      · simp [hother, hempty] at hfull
      · exact absurd rfl (hfile node hother).1
    · refine (hkeep old new node hold hnew he).imp_right (Or.imp_right fun hfile => ?_)
      exact ⟨fun d hd => (hfile.1 d hd).2, hfile.2⟩
  · exact fun w referenced hw => ⟨hw.counted.releaseUnreferenced referenced,
      hw.rooted.releaseUnreferenced hw.counted referenced⟩
  · rintro path kind mode rfl
    exact ⟨hc.addNode mode hkeep.1, hr.addNode hc mode hkeep.1 hkeep.2⟩
  · exact fun path => ⟨hc.mkdirP path, hr.mkdirP path⟩

namespace Vfs

/-- The root alone. -/
lemma linked_bare : Linked bare where
  counted :=
    { root_dir := rfl
      parent_dir := fun i hi => by
        obtain rfl : i = 0 := Nat.lt_one_iff.mp hi
        rfl
      entry_lt := fun hx => by
        rw [bare_entry] at hx
        exact absurd hx (by simp)
      file_links := fun i hi hd => by
        obtain rfl : i = 0 := Nat.lt_one_iff.mp hi
        exact absurd hd (by decide)
      dir_links := fun i hd => by
        obtain rfl : i = 0 := Nat.lt_one_iff.mp (lt_of_isDir hd)
        have hrefs : refs bare.slots 0 = ∅ := refs_eq_empty fun e he => by
          rw [slots, bare_entry] at he
          exact absurd he (by simp)
        rw [hrefs]
        simp [bare, node]
      unlinked_file := fun i hi => absurd hi (by simp [bare])
      waiting := fun i hi hd => by
        obtain rfl : i = 0 := Nat.lt_one_iff.mp hi
        exact absurd hd (by decide) }
  rooted := fun d hd => by
    obtain rfl : d = ROOT := Nat.lt_one_iff.mp (lt_of_isDir hd)
    exact .refl

/-- Each path is free when its device is added. -/
def freshDevs (v : Vfs) : List (Bytes × Dev) → Bool
  | [] => true
  | d :: devs =>
    let w := (v.mkdirP (parentPath d.1)).2
    (match w.resolve ROOT d.1 false with
      | .ok r => (w.entry r.parent r.name).isNone
      | .error _ => true) &&
    freshDevs (v.addNode d.1 (.charDev d.2) 0o666).2 devs

/-- Devices at free paths. -/
lemma Linked.addDevs : ∀ {devs : List (Bytes × Dev)} {v : Vfs}, Linked v → v.freshDevs devs →
    Linked (devs.foldl (fun v d => (v.addNode d.1 (.charDev d.2) 0o666).2) v) := by
  intro devs
  induction devs with
  | nil => exact fun h _ => h
  | cons d devs ih =>
    intro v h hfresh
    rw [freshDevs, Bool.and_eq_true] at hfresh
    refine ih ⟨h.counted.addNode _ (by simp), h.rooted.addNode h.counted _ (by simp) ?_⟩ hfresh.2
    refine .inr fun r c hres he => ?_
    have hnone := hfresh.1
    rw [hres] at hnone
    simp [he] at hnone

/-- A fresh filesystem. -/
lemma linked_new : Linked new := by
  have hdirs : Linked (skeletonDirs.foldl (fun v path => (v.mkdirP path).2) bare) :=
    List.foldlRecOn (motive := Linked) _ _ linked_bare fun v hv path _ =>
      ⟨hv.counted.mkdirP path, hv.rooted.mkdirP path⟩
  rw [new]
  exact hdirs.addDevs (by decide +kernel)

end Vfs

/-- A file with two names, and `rename` from the one to the other. -/
def renameToOtherName : List FsCall :=
  [.openat ROOT (ascii "/a") ⟨false, true, false, false⟩ 0o644,
    .link ROOT (ascii "/a") ROOT (ascii "/b"),
    .rename ROOT (ascii "/a") ROOT (ascii "/b") []]

/-- The file has one name left, and still two links. -/
theorem rename_to_other_name_forgets_link :
    ¬ (run exec new renameToOtherName).LinksExact := by
  intro h
  have hcount := h.counted 15 (by decide +kernel) (by decide +kernel)
  have hnlink : ((run exec new renameToOtherName).node 15).nlink = 2 := by decide +kernel
  have hnames : ∀ p < (run exec new renameToOtherName).nodes.length,
      ∀ e ∈ (run exec new renameToOtherName).entriesOf p, e.2 = 15 →
        (p, e.1) = (ROOT, ascii "b") := by
    decide +kernel
  have hsub : (run exec new renameToOtherName).treeNames 15 ⊆ {(ROOT, ascii "b")} := by
    rintro ⟨p, name⟩ ⟨-, he⟩
    obtain ⟨hp, hmem⟩ := mem_entriesOf he
    exact hnames p hp _ hmem rfl
  have hle := Set.encard_le_encard hsub
  rw [Set.encard_singleton, hcount, hnlink] at hle
  exact absurd hle (by decide)

/-- **Link counts over runs**: after any run of calls from a fresh filesystem, each of
which keeps links where it is made, every file has as many links as the tree has entries
that name it, and a directory no entry names has none. -/
theorem links_exact_of_run (calls : List FsCall)
    (h : Guarded exec (fun v call => call.KeepsLinks v) new calls) :
    (run exec new calls).LinksExact := by
  have hlinked : Vfs.Linked (run exec new calls) :=
    Guarded.invariant (fun _ _ hv hkeep => FsCall.KeepsLinks.exec hkeep hv) linked_new h
  exact linksExact_of hlinked.counted hlinked.rooted

/-- A file with two names moved to a third, and one of them removed. -/
theorem links_exact_of_run_moved :
    let calls : List FsCall :=
      [.openat ROOT (ascii "/a") ⟨false, true, false, false⟩ 0o644,
        .link ROOT (ascii "/a") ROOT (ascii "/b"),
        .rename ROOT (ascii "/a") ROOT (ascii "/c") [],
        .unlink ROOT (ascii "/b") false []]
    Guarded exec (fun v call => call.KeepsLinks v) new calls ∧
      (run exec new calls).LinksExact := by
  intro calls
  have hkeep : Guarded exec (fun v call => call.KeepsLinks v) new calls := by
    refine ⟨trivial, trivial, ?_, ?_, trivial⟩
    · intro old new node hold hnew hnode
      have hold' : Except.ok old = Except.ok ⟨0, ascii "a", some 15⟩ :=
        hold.symm.trans (by decide +kernel)
      have hnew' : Except.ok new = Except.ok ⟨0, ascii "c", none⟩ :=
        hnew.symm.trans (by decide +kernel)
      cases hold'
      cases hnew'
      have hnode' : some node = some 15 := hnode.symm.trans (by decide +kernel)
      cases hnode'
      refine .inr (.inr ⟨fun d hd => ?_, fun hbelow => ?_⟩)
      · have hnone : some d = none := hd.symm.trans (by decide +kernel)
        exact absurd hnone (by simp)
      refine absurd (eq_of_reflTransGen_of_leaf ?_ hbelow) (by decide)
      rintro x ⟨name, hx⟩
      rw [entry_of_empty (by decide +kernel)] at hx
      exact absurd hx (by simp)
    · exact fun r node _ _ hrmdir => absurd hrmdir (by simp)
  exact ⟨hkeep, links_exact_of_run calls hkeep⟩

-- a removed directory keeps one of the two links it was made with
example : ((run exec new [.mkdir ROOT (ascii "/a") 0o755,
    .unlink ROOT (ascii "/a") true []]).node 15).nlink = 1 := by
  decide +kernel

end WebTos
