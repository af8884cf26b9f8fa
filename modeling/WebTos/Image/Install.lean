import WebTos.Image.ChunkText
import WebTos.Image.Verify
import WebTos.Vfs.Paths

/-!
The installation of a chunk manifest (`lib.rs`: `install_chunk_manifest`; `vfs.rs`:
`topology_only`).

A manifest is first applied to a copy of the filesystem without its contents, then to the
filesystem itself.

* `canonical_path`: the paths a manifest may name are spelled by their components;
* `topologyOnly`, `applyManifest`, `installChunkManifest`: the installation;
* `applyManifest_topologyOnly`: the copy accepts exactly what the filesystem accepts;
* `Installed`: what holds after some of the entries, and `Installed.entry`, that one more
  entry keeps it;
* `install_exact`: the installation is refused and changes nothing, or every entry of the
  manifest is there and every other entry is where it was.
-/

namespace WebTos

open Vfs List Option

/-! ### Canonical paths -/

lemma joinSegments_concat (cs : List Bytes) (c : Bytes) :
    joinSegments (cs ++ [c]) = joinSegments cs ++ slash :: c := by
  simp [joinSegments]

lemma parentPath_joinSegments (cs : List Bytes) {c : Bytes} (hc : slash ∉ c) :
    parentPath (joinSegments (cs ++ [c])) = joinSegments cs := by
  have hall : ∀ b ∈ c.reverse, (b ≠ slash : Bool) = true := by
    intro b hb
    rw [decide_eq_true_eq]
    rintro rfl
    exact hc (mem_reverse.mp hb)
  rw [parentPath, joinSegments_concat, reverse_append, reverse_cons, append_assoc,
    dropWhile_append_of_pos hall]
  simp

/-- No part of a path is empty but the first, without a doubled or a last slash. -/
lemma nil_notMem_tail_splitOn : ∀ {path : Bytes}, ChunkText.hasDouble slash path = false →
    path.getLast? ≠ some slash → [] ∉ (path.splitOn slash).tail
  | [], _, _ => by simp
  | [b], _, hlast => by
      have hb : b ≠ slash := fun h => hlast (by rw [h]; rfl)
      rw [splitOn_cons_eq_if_modifyHead, if_neg (by simpa using hb)]
      simp
  | b :: b' :: path, hdouble, hlast => by
      rw [ChunkText.hasDouble, Bool.or_eq_false_iff] at hdouble
      have hlast' : (b' :: path).getLast? ≠ some slash := by
        rwa [getLast?_cons_cons] at hlast
      have hrest := nil_notMem_tail_splitOn hdouble.2 hlast'
      rw [splitOn_cons_eq_if_modifyHead]
      split_ifs with hb
      · -- the part behind a slash begins with a byte that is none
        have hb' : b' ≠ slash := by
          rintro rfl
          have : b = slash := by simpa using hb
          simp [this] at hdouble
        rw [tail_cons]
        rw [splitOn_cons_eq_if_modifyHead, if_neg (by simpa using hb')] at hrest ⊢
        cases hs : path.splitOn slash with
        | nil => exact absurd hs (splitOn_ne_nil _ _)
        | cons =>
          rw [hs, modifyHead_cons, tail_cons] at hrest
          rw [modifyHead_cons, mem_cons]
          rintro (hnil | hmem)
          · cases hnil
          · exact hrest hmem
      cases hs : (b' :: path).splitOn slash with
      | nil => exact absurd hs (splitOn_ne_nil _ _)
      | cons =>
        rw [hs, tail_cons] at hrest
        rwa [modifyHead_cons, tail_cons]

/-- **A path a manifest may name** is the root or is spelled by proper names. -/
lemma canonical_path {path : Bytes} (habs : path.head? = some slash)
    (hcanon : ChunkText.noncanonical path = false) :
    path = [slash] ∨ ∃ dirs name, (∀ c ∈ dirs ++ [name], ProperName c) ∧
      path = joinSegments (dirs ++ [name]) := by
  obtain ⟨rest, rfl⟩ : ∃ rest, path = slash :: rest := by
    cases path with
    | nil => cases habs
    | cons b rest => exact ⟨rest, by rw [some.inj habs]⟩
  rw [ChunkText.noncanonical, Bool.or_eq_false_iff, Bool.or_eq_false_iff] at hcanon
  obtain ⟨⟨hlast, hdouble⟩, hdots⟩ := hcanon
  cases rest with
  | nil => exact .inl rfl
  | cons b rest =>
    right
    have hlast' : (slash :: b :: rest).getLast? ≠ some slash := by simpa using hlast
    have hsplit : (slash :: b :: rest).splitOn slash = [] :: (b :: rest).splitOn slash := by
      rw [splitOn_cons_eq_if_modifyHead, if_pos (by simp)]
    -- no name is empty, as two slashes never meet and none is at the end
    have hnil := nil_notMem_tail_splitOn hdouble hlast'
    rw [hsplit, tail_cons] at hnil
    have hproper : ∀ c ∈ (b :: rest).splitOn slash, ProperName c := by
      intro c hc
      rw [List.any_eq_false] at hdots
      have hdot := hdots c (by rw [hsplit]; exact mem_cons_of_mem _ hc)
      simp only [Bool.or_eq_true, decide_eq_true_eq, not_or] at hdot
      refine ⟨fun h => hnil (h ▸ hc), hdot.1, hdot.2, slash_notMem_of_mem_splitOn hc⟩
    have hne : (b :: rest).splitOn slash ≠ [] := splitOn_ne_nil _ _
    refine ⟨((b :: rest).splitOn slash).dropLast, ((b :: rest).splitOn slash).getLast hne, ?_, ?_⟩
    · rwa [dropLast_append_getLast]
    · rw [dropLast_append_getLast, joinSegments_eq hne, ← hsplit,
        intercalate_splitOn]

/-! ### The installation -/

/-- `topology_only`. -/
def Vfs.topologyOnly (v : Vfs) : Vfs :=
  { v with
    nodes := v.nodes.map fun n => { n with kind := n.kind.hollow }
    chunks := ∅
    storageBudget := none }

/-- Why a manifest is not installed. -/
inductive InstallError where
  /-- The manifest does not parse: why. -/
  | malformed (why : String)
  /-- `snapshot manifest root differs from the installed authority` -/
  | rootDiffers
  /-- `snapshot contains a chunk descriptor outside its manifest authority` -/
  | outsideAuthority
  /-- `cannot mkdir {path}: errno {errno}` -/
  | cannotMkdir (path : Bytes) (errno : Errno)
  /-- `cannot link {path}: errno {errno}` -/
  | cannotLink (path : Bytes) (errno : Errno)
  /-- `cannot add {path}: errno {errno}` -/
  | cannotAdd (path : Bytes) (errno : Errno)

/-- The mode and the modification time of a node. -/
def Vfs.setMeta (v : Vfs) (i mode : ℕ) (mtimeSec : ℤ) : Vfs :=
  v.modifyNode i fun n => { n with mode, mtimeSec }

namespace ChunkText

/-- An entry's node is made, before its mode and time are set. -/
def Entry.place (e : Entry) (v : Vfs) : SysResult ℕ × Vfs :=
  match e.kind with
  | .dir => v.mkdirP e.path
  | .symlink target => v.addNode e.path (.symlink target) e.mode
  | .file layout _ => v.addNode e.path (.chunkedFile layout) e.mode

/-- The error of an entry that cannot be made. -/
def Entry.cannot (e : Entry) (errno : Errno) : InstallError :=
  match e.kind with
  | .dir => .cannotMkdir e.path errno
  | .symlink _ => .cannotLink e.path errno
  | .file _ _ => .cannotAdd e.path errno

/-- `apply`. -/
def applyManifest : List Entry → Vfs → Except InstallError Unit × Vfs
  | [], v => (.ok (), v)
  | e :: entries, v =>
    match e.place v with
    | (.error errno, v) => (.error (e.cannot errno), v)
    | (.ok node, v) => applyManifest entries (v.setMeta node e.mode e.mtimeSec)

/-- The layouts a manifest names. -/
def layouts (entries : List Entry) : List ChunkedFile :=
  entries.filterMap fun e =>
    match e.kind with
    | .file layout _ => some layout
    | _ => none

/-- Every chunked file of the filesystem has a layout that the manifest names. -/
def authorized (v : Vfs) (entries : List Entry) : Bool :=
  v.nodes.all fun n =>
    match n.kind with
    | .chunkedFile layout => layout ∈ layouts entries
    | _ => true

/-- `install_chunk_manifest`. -/
def installChunkManifest (sha256 : Bytes → Hash) (e : LinuxEnv) (text : Bytes) :
    Except InstallError Hash × LinuxEnv :=
  match parse sha256 text with
  | .error why => (.error (.malformed why), e)
  | .ok m =>
    match e.vfs.manifestRoot with
    | some root =>
      if root ≠ m.root then (.error .rootDiffers, e)
      else if authorized e.vfs m.entries then
        (.ok m.root, { e with chunkManifest := some m })
      else (.error .outsideAuthority, e)
    | none =>
      match applyManifest m.entries e.vfs.topologyOnly with
      | (.error why, _) => (.error why, e)
      | (.ok (), _) =>
        match applyManifest m.entries e.vfs with
        | (.error why, v) => (.error why, { e with vfs := v })
        | (.ok (), v) =>
          (.ok m.root, { e with
            vfs := { v with manifestRoot := some m.root }
            chunkManifest := some m })

end ChunkText

/-! ### The copy -/

variable {kind : NodeKind}

namespace Vfs

variable {v : Vfs}

/-- A node of the copy. -/
def bareNode (n : Node) : Node := { n with kind := n.kind.hollow }

variable (v : Vfs)

lemma node_topologyOnly (i : ℕ) : v.topologyOnly.node i = bareNode (v.node i) := by
  rw [node, node, topologyOnly]
  rw [getElem?_map]
  cases v.nodes[i]? <;> rfl

@[simp] lemma length_topologyOnly : v.topologyOnly.nodes.length = v.nodes.length :=
  length_map _

/-- The copy has the same tree, so every path leads where it did. -/
lemma sameTree_topologyOnly : SameTree v v.topologyOnly where
  parent i := by rw [node_topologyOnly, bareNode]
  hollow i := by rw [node_topologyOnly, bareNode, NodeKind.hollow_hollow]

lemma topologyOnly_push (n : Node) :
    (v.push n).topologyOnly = v.topologyOnly.push (bareNode n) := by
  simp [topologyOnly, push, bareNode]

/-- A change of a node that does not look at its contents. -/
lemma topologyOnly_modifyNode (i : ℕ) {f : Node → Node}
    (hf : ∀ n, bareNode (f n) = f (bareNode n)) :
    (v.modifyNode i f).topologyOnly = v.topologyOnly.modifyNode i f := by
  have hnodes : (v.nodes.modify i f).map bareNode = (v.nodes.map bareNode).modify i f := by
    apply ext_getElem?
    intro j
    rw [getElem?_map, getElem?_modify, getElem?_modify, getElem?_map]
    cases v.nodes[j]? with
    | none => rfl
    | some n =>
      by_cases hij : i = j
      · simp [hij, hf]
      · simp [hij]
  exact congrArg (fun nodes => ({ v with
    nodes, chunks := ∅, storageBudget := none } : Vfs)) hnodes

lemma topologyOnly_setMeta (i mode : ℕ) (mtimeSec : ℤ) :
    (v.setMeta i mode mtimeSec).topologyOnly = v.topologyOnly.setMeta i mode mtimeSec :=
  topologyOnly_modifyNode v i fun _ => rfl

lemma topologyOnly_setEntry (p : ℕ) (name : Bytes) (c : ℕ) :
    (v.setEntry p name c).topologyOnly = v.topologyOnly.setEntry p name c := by
  rw [setEntry, setEntry, node_topologyOnly, bareNode]
  cases (v.node p).kind with
  | dir => exact topologyOnly_modifyNode v p fun _ => rfl
  | _ => rfl

lemma topologyOnly_dropDisplaced (displaced : Option ℕ) :
    (v.dropDisplaced displaced).topologyOnly = v.topologyOnly.dropDisplaced displaced := by
  cases displaced with
  | none => rfl
  | some d =>
    have hmodify := topologyOnly_modifyNode v d (f := fun n =>
      { n with nlink := (v.node d).nlink - 1 }) fun _ => rfl
    have hnlink : (v.topologyOnly.node d).nlink = (v.node d).nlink := by
      rw [node_topologyOnly, bareNode]
    rw [dropDisplaced, dropDisplaced, dropLink, dropLink, hnlink, ← hmodify]
    split_ifs with h₁ h₂ h₂
    · rfl
    · exact absurd h₁ h₂
    · exact absurd h₂ h₁
    · rfl

/-! The two operations do the same to the copy. -/

/-- The loop of `mkdir_p` looks at the tree only. -/
lemma mkdirFrom_topologyOnly (cs : List Bytes) : ∀ (v : Vfs) (cur : ℕ),
    v.topologyOnly.mkdirFrom cur cs =
      ((v.mkdirFrom cur cs).1, (v.mkdirFrom cur cs).2.topologyOnly) := by
  induction cs with
  | nil => exact fun _ _ => rfl
  | cons c cs ih =>
    intro v cur
    have hsame := sameTree_topologyOnly v
    rw [mkdirFrom, mkdirFrom, hsame.isDir, hsame.entry, hsame.parent]
    split_ifs
    · exact ih v _
    · rfl
    cases v.entry cur c with
    | some next =>
      dsimp only
      rw [(sameTree_topologyOnly _).isDir]
      split_ifs
      · rfl
      · exact ih v next
    | none =>
      have hpush := topologyOnly_push v ⟨.dir ∅, 0o755, 2, 0, cur⟩
      have hbare : bareNode ⟨.dir ∅, 0o755, 2, 0, cur⟩ = ⟨.dir ∅, 0o755, 2, 0, cur⟩ := rfl
      rw [hbare] at hpush
      dsimp only
      rw [← hpush, (sameTree_topologyOnly _).isDir, length_topologyOnly]
      split_ifs
      · rfl
      · rw [← topologyOnly_setEntry]
        exact ih _ _

lemma mkdirP_topologyOnly (path : Bytes) :
    v.topologyOnly.mkdirP path = ((v.mkdirP path).1, (v.mkdirP path).2.topologyOnly) :=
  mkdirFrom_topologyOnly _ v ROOT

lemma occupiedByADirectory_topologyOnly (path : Bytes) :
    v.topologyOnly.occupiedByADirectory path = v.occupiedByADirectory path := by
  rw [occupiedByADirectory, occupiedByADirectory, (sameTree_topologyOnly v).resolve]
  split
  · exact (sameTree_topologyOnly v).isDir _
  · rfl

/-- So does `add_node`, for a node that has no content. -/
lemma addNode_topologyOnly (path : Bytes) (hkind : kind.hollow = kind) (mode : ℕ) :
    v.topologyOnly.addNode path kind mode =
      ((v.addNode path kind mode).1, (v.addNode path kind mode).2.topologyOnly) := by
  rw [addNode, addNode, occupiedByADirectory_topologyOnly, mkdirP_topologyOnly]
  split_ifs
  · rfl
  generalize v.mkdirP (parentPath path) = made
  obtain ⟨result, w⟩ := made
  cases result with
  | error e => rfl
  | ok d =>
    dsimp only
    rw [(sameTree_topologyOnly _).resolve]
    cases w.resolve ROOT path false with
    | error e => rfl
    | ok r =>
      have hpush := topologyOnly_push w ⟨kind, mode, newLinks kind, 0, r.parent⟩
      have hbare : bareNode ⟨kind, mode, newLinks kind, 0, r.parent⟩ =
          ⟨kind, mode, newLinks kind, 0, r.parent⟩ := by
        rw [bareNode, hkind]
      rw [hbare] at hpush
      dsimp only
      rw [← hpush, (sameTree_topologyOnly _).isDir, length_topologyOnly,
        (sameTree_topologyOnly _).entry]
      split_ifs
      · rfl
      · rw [← topologyOnly_setEntry, ← topologyOnly_dropDisplaced]

end Vfs

namespace ChunkText

lemma place_topologyOnly (e : Entry) (v : Vfs) :
    e.place v.topologyOnly = ((e.place v).1, (e.place v).2.topologyOnly) := by
  rw [Entry.place, Entry.place]
  split
  · exact mkdirP_topologyOnly v e.path
  · exact addNode_topologyOnly v e.path rfl e.mode
  · exact addNode_topologyOnly v e.path rfl e.mode

/-- **The copy accepts exactly what the filesystem accepts.** -/
lemma applyManifest_topologyOnly (entries : List Entry) : ∀ v : Vfs,
    applyManifest entries v.topologyOnly =
      ((applyManifest entries v).1, (applyManifest entries v).2.topologyOnly) := by
  induction entries with
  | nil => exact fun _ => rfl
  | cons e _ ih =>
    intro v
    rw [applyManifest, applyManifest, place_topologyOnly]
    generalize e.place v = placed
    obtain ⟨result, w⟩ := placed
    cases result with
    | error => rfl
    | ok =>
      dsimp only
      rw [← topologyOnly_setMeta]
      exact ih _

/-! ### The entries one after the other -/

/-- The node is what the entry declares. -/
structure Declared (e : Entry) (n : Node) : Prop where
  mode : n.mode = e.mode
  mtimeSec : n.mtimeSec = e.mtimeSec
  dir : e.kind = .dir → n.kind.isDir = true
  symlink : ∀ target, e.kind = .symlink target → n.kind = .symlink target
  file : ∀ layout fnv, e.kind = .file layout fnv → n.kind = .chunkedFile layout

/-- The manifest names the entry `name` of the directory `d`. -/
def Names (entries : List Entry) (v : Vfs) (d : ℕ) (name : Bytes) : Prop :=
  ∃ e ∈ entries, ∃ dirs, e.path = joinSegments (dirs ++ [name]) ∧ v.descend ROOT dirs = some d

variable {v w u : Vfs} {e : Entry} {done : List Entry} {n d : ℕ} {name : Bytes} {dirs : List Bytes}

lemma Declared.alike {a b : Node} (h : Declared e a) (hab : Alike a b) : Declared e b where
  mode := hab.mode.trans h.mode
  mtimeSec := hab.mtimeSec.trans h.mtimeSec
  dir hkind := hab.isDir.trans (h.dir hkind)
  symlink target hkind := by
    have hk := h.symlink target hkind
    rw [hab.kind (by rw [hk]; rfl), hk]
  file layout fnv hkind := by
    have hk := h.file layout fnv hkind
    rw [hab.kind (by rw [hk]; rfl), hk]

/-- Setting the mode and the time of a node leaves the tree alone. -/
lemma kind_setMeta (w : Vfs) (n mode : ℕ) (mtimeSec : ℤ) (i : ℕ) :
    ((w.setMeta n mode mtimeSec).node i).kind = (w.node i).kind := by
  rw [setMeta, node_modifyNode]
  split_ifs <;> rfl

lemma entry_setMeta (w : Vfs) (n mode : ℕ) (mtimeSec : ℤ) (p : ℕ) (m : Bytes) :
    (w.setMeta n mode mtimeSec).entry p m = w.entry p m :=
  entry_congr (kind_setMeta w n mode mtimeSec p) m

lemma node_setMeta_of_ne {i mode : ℕ} {mtimeSec : ℤ} (h : n ≠ i) :
    (w.setMeta n mode mtimeSec).node i = w.node i := by
  rw [setMeta, node_modifyNode, if_neg fun hc => h hc.1]

lemma wf_setMeta (h : w.Wf) (n mode : ℕ) (mtimeSec : ℤ) : (w.setMeta n mode mtimeSec).Wf := by
  refine h.congr (length_modifyNode _ _) (entry_setMeta w n mode mtimeSec) (fun j => ?_)
    fun _ => id
  refine ⟨?_, ?_, isDir_congr (kind_setMeta w n mode mtimeSec j)⟩
  · rw [setMeta, node_modifyNode]
    split_ifs <;> rfl
  · rw [setMeta, node_modifyNode]
    split_ifs <;> rfl

/-- The path depends on the entries only. -/
lemma descend_congr (h : ∀ p m, w.entry p m = u.entry p m) : ∀ (cs : List Bytes) (cur : ℕ),
    w.descend cur cs = u.descend cur cs
  | [], _ => rfl
  | c :: cs, cur => by
      rw [descend, descend, h]
      congr 1
      funext next
      exact descend_congr h cs next

/-- Where new entries are for new nodes only, an old node is on the path it was on. -/
lemma descend_old (hold : ∀ {p m y}, w.entry p m = some y → y < v.nodes.length →
    v.entry p m = some y) : ∀ {cs : List Bytes} {d : ℕ}, w.descend ROOT cs = some d →
      d < v.nodes.length → v.descend ROOT cs = some d := by
  intro cs
  induction cs using reverseRecOn with
  | nil => exact fun h _ => h
  | append_singleton cs c ih =>
    intro d h hd
    rw [descend_concat] at h
    obtain ⟨p, hp, he⟩ := bind_eq_some_iff.mp h
    have hv := hold he hd
    exact descend_concat_some (ih hp (lt_of_isDir (isDir_of_entry hv))) hv

/-- Hanging a node below `d` leaves the paths that do not pass the place. -/
lemma descend_attached {node : Node} (hu : Core u)
    (hk : ∀ entries, node.kind = .dir entries → entries = ∅) (hd : u.isDir node.parent)
    (hdirs : u.descend ROOT dirs = some node.parent) : ∀ {cs : List Bytes} {x : ℕ},
      u.descend ROOT cs = some x → ¬ dirs ++ [name] <+: cs →
      (u.attached node name).descend ROOT cs = some x := by
  intro cs
  induction cs using reverseRecOn with
  | nil => exact fun h _ => h
  | append_singleton cs c ih =>
    intro x h hprefix
    rw [descend_concat] at h
    obtain ⟨p, hp, he⟩ := bind_eq_some_iff.mp h
    refine descend_concat_some (ih hp fun hc => hprefix (hc.trans (prefix_append _ _))) ?_
    rw [entry_attached hk hd, if_neg]
    · exact he
    · rintro ⟨rfl, rfl⟩
      rw [descend_injective hu hd hp hdirs] at hprefix
      exact hprefix prefix_rfl

lemma Entry.Ok.shape (he : e.Ok) :
    (e.path = [slash] ∧ components e.path = []) ∨
      ∃ dirs name, (∀ c ∈ dirs ++ [name], ProperName c) ∧ e.path = joinSegments (dirs ++ [name]) ∧
        components e.path = dirs ++ [name] := by
  rcases canonical_path he.absolute he.canonical with hroot | ⟨dirs, name, hproper, hpath⟩
  · exact .inl ⟨hroot, by rw [hroot]; decide⟩
  · exact .inr ⟨dirs, name, hproper, hpath, by rw [hpath, components_joinSegments hproper]⟩

/-- A manifest's path is determined by its components. -/
lemma Entry.Ok.path_eq {e' : Entry} (he : e.Ok) (he' : e'.Ok)
    (h : components e.path = components e'.path) : e.path = e'.path := by
  rcases he.shape with ⟨hpath, hcs⟩ | ⟨dirs, name, -, hpath, hcs⟩ <;>
    rcases he'.shape with ⟨hpath', hcs'⟩ | ⟨dirs', name', -, hpath', hcs'⟩
  · rw [hpath, hpath']
  · rw [hcs, hcs'] at h
    exact absurd h (by simp)
  · rw [hcs, hcs'] at h
    exact absurd h (by simp)
  · rw [hcs, hcs'] at h
    rw [hpath, hpath', h]

lemma Entry.Ok.ne_dotdot (he : e.Ok) : ∀ c ∈ components e.path, c ≠ dotdot := by
  rcases he.shape with ⟨-, hcs⟩ | ⟨dirs, name, hproper, -, hcs⟩
  · rw [hcs]
    simp
  · rw [hcs]
    exact fun c hc => (hproper c hc).ne_dotdot

/-- What holds after the entries `done`: the filesystem is a tree, new entries are for new
nodes, the entries done are there as declared, and the entries not named are kept. -/
structure Installed (v : Vfs) (done : List Entry) (w : Vfs) : Prop where
  wf : w.Wf
  length_le : v.nodes.length ≤ w.nodes.length
  old : ∀ {p m y}, w.entry p m = some y → y < v.nodes.length → v.entry p m = some y
  there : ∀ e ∈ done, ∃ n, w.descend ROOT (components e.path) = some n ∧ n < w.nodes.length ∧
    Declared e (w.node n)
  kept : ∀ {d m y}, v.entry d m = some y → ¬ Names done v d m → w.entry d m = some y

lemma Installed.refl (h : v.Wf) : Installed v [] v :=
  ⟨h, le_rfl, fun he _ => he, by simp, fun he _ => he⟩

lemma Names.cons {m : Bytes} (h : Names done v d m) : Names (e :: done) v d m := by
  obtain ⟨e', he', h⟩ := h
  exact ⟨e', mem_cons_of_mem _ he', h⟩

/-- The mode and the time of the node that was made for an entry are set last.  Before that the
node is on the entry's path, and the nodes of the entries done are others. -/
lemma Installed.setMeta (hu : u.Wf) (hle : v.nodes.length ≤ u.nodes.length)
    (hold : ∀ {p m y}, u.entry p m = some y → y < v.nodes.length → v.entry p m = some y)
    (hnew : u.descend ROOT (components e.path) = some n) (hlt : n < u.nodes.length)
    (hdeclared : ∀ node : Node, node.mode = e.mode → node.mtimeSec = e.mtimeSec →
      node.kind = (u.node n).kind → Declared e node)
    (hthere : ∀ e' ∈ done, ∃ n', u.descend ROOT (components e'.path) = some n' ∧
      n' < u.nodes.length ∧ n ≠ n' ∧ Declared e' (u.node n'))
    (hkept : ∀ {d m y}, v.entry d m = some y → ¬ Names (e :: done) v d m →
      u.entry d m = some y) :
    Installed v (e :: done) (u.setMeta n e.mode e.mtimeSec) := by
  have hentry := entry_setMeta u n e.mode e.mtimeSec
  have hlength : (u.setMeta n e.mode e.mtimeSec).nodes.length = u.nodes.length := by
    rw [Vfs.setMeta, length_modifyNode]
  refine ⟨wf_setMeta hu _ _ _, hlength ▸ hle, fun hy => hold (hentry _ _ ▸ hy),
    forall_mem_cons.mpr ⟨⟨n, ?_, hlength ▸ hlt, ?_⟩, fun e' he' => ?_⟩,
    fun hy hnot => (hentry _ _).trans (hkept hy hnot)⟩
  · rw [descend_congr hentry, hnew]
  · rw [Vfs.setMeta, node_modifyNode, if_pos ⟨rfl, hlt⟩]
    exact hdeclared _ rfl rfl rfl
  obtain ⟨n', hn', hlt', hne, hdecl⟩ := hthere e' he'
  exact ⟨n', by rw [descend_congr hentry, hn'], hlength ▸ hlt', by rwa [node_setMeta_of_ne hne]⟩

/-- **A directory entry.** -/
lemma Installed.dir (h : Installed v done w) (he : e.Ok) (hkind : e.kind = .dir)
    (hdone : ∀ e' ∈ done, e'.Ok ∧ e'.path ≠ e.path) (hplace : w.mkdirP e.path = (.ok n, u)) :
    Installed v (e :: done) (u.setMeta n e.mode e.mtimeSec) := by
  obtain ⟨hadds, hdescend, hdir⟩ := mkdirP_ok he.ne_dotdot h.wf.root_dir hplace
  have hu : u.Wf := by
    have := h.wf.mkdirP e.path
    rwa [hplace] at this
  refine .setMeta hu (h.length_le.trans hadds.length_le) (fun {p m y} hy hlt => ?_) hdescend
    (lt_of_isDir hdir) (fun node hmode hmtime hnode => ?_) (fun e' he' => ?_)
    fun hy hnot => hadds.keeps (h.kept hy fun hnames => hnot hnames.cons)
  · exact h.old ((hadds.fresh hy).resolve_right (Nat.not_le.mpr (hlt.trans_le h.length_le))) hlt
  · refine ⟨hmode, hmtime, fun _ => ?_, fun target hk => ?_, fun layout fnv hk => ?_⟩
    · rw [hnode]
      exact hdir
    · cases hkind.symm.trans hk
    · cases hkind.symm.trans hk
  obtain ⟨n', hn', hlt, hdeclared⟩ := h.there e' he'
  have hn'' := hadds.descend hn'
  refine ⟨n', hn'', hlt.trans_le hadds.length_le, ?_, hdeclared.alike (hadds.alike n' hlt)⟩
  -- another path ends at another directory
  rintro rfl
  exact (hdone e' he').2 ((hdone e' he').1.path_eq he
    (descend_injective hu.toCore hdir hn'' hdescend))

/-- **An entry that is not a directory.** -/
lemma Installed.leaf (h : Installed v done w) (he : e.Ok) (hleaf : kind.isDir = false)
    (hdone : ∀ e' ∈ done, e'.Ok ∧ e'.path ≠ e.path)
    (hdeclared : ∀ node : Node, node.mode = e.mode → node.mtimeSec = e.mtimeSec →
      node.kind = kind → Declared e node)
    (hplace : w.addNode e.path kind e.mode = (.ok n, u)) :
    Installed v (e :: done) (u.setMeta n e.mode e.mtimeSec) := by
  have hk : ∀ entries, kind = .dir entries → entries = ∅ := by
    rintro entries rfl
    cases hleaf
  rcases he.shape with ⟨hroot, -⟩ | ⟨dirs, name, hproper, hpath, hcs⟩
  · -- the root is a directory
    have hocc : w.occupiedByADirectory [slash] = true := h.wf.root_dir
    rw [hroot, addNode, if_pos ⟨by rw [hleaf]; rfl, hocc⟩] at hplace
    cases hplace
  have hdd : ∀ c ∈ dirs ++ [name], c ≠ dotdot := fun c hc => (hproper c hc).ne_dotdot
  have hparent : components (parentPath e.path) = dirs := by
    rw [hpath, parentPath_joinSegments dirs (hproper name (by simp)).no_slash,
      components_joinSegments fun c hc => hproper c (by simp [hc])]
  have hends : endsInName e.path := by
    rw [endsInName, hcs, getLast?_concat]
    simpa using hdd name (by simp)
  have hwf := h.wf.addNode e.mode (.inl hends) hk
  rw [hplace] at hwf
  -- the directories are made in `a`, and the node is hung below the last of them
  obtain ⟨a, d, hmk, hadds, hdescend, hdir, rfl, rfl, hfree⟩ :=
    addNode_ok hk hcs hparent hdd h.wf.root_dir hplace
  have ha : a.Wf := by
    have := h.wf.mkdirP (parentPath e.path)
    rwa [hmk] at this
  generalize hnode : (⟨kind, e.mode, newLinks kind, 0, d⟩ : Node) = node at *
  obtain ⟨hnk, hnp⟩ : node.kind = kind ∧ node.parent = d := by rw [← hnode]; exact ⟨rfl, rfl⟩
  subst hnp
  have hk' : ∀ entries, node.kind = .dir entries → entries = ∅ := by rw [hnk]; exact hk
  have hentry : ∀ q m, (a.attached node name).entry q m =
      if q = node.parent ∧ m = name then some a.nodes.length else a.entry q m :=
    entry_attached hk' hdir
  have hle := h.length_le.trans hadds.length_le
  have hold : ∀ {p m y}, a.entry p m = some y → y < v.nodes.length → v.entry p m = some y :=
    fun hy hlt =>
      h.old ((hadds.fresh hy).resolve_right (Nat.not_le.mpr (hlt.trans_le h.length_le))) hlt
  have hpaths : ∀ {cs : List Bytes} {x : ℕ}, a.descend ROOT cs = some x → ¬ dirs ++ [name] <+: cs →
      (a.attached node name).descend ROOT cs = some x :=
    descend_attached ha.toCore hk' hdir hdescend
  have hself : a.nodes.length < (a.attached node name).nodes.length := by
    rw [length_attached]
    exact Nat.lt_succ_self _
  refine .setMeta hwf (hle.trans hself.le) (fun {p m y} hy hlt => ?_) ?_ hself
    (fun node' hmode hmtime hnode' => hdeclared node' hmode hmtime ?_) (fun e' he' => ?_)
    fun {d' m y} hy hnot => ?_
  · rw [hentry] at hy
    split_ifs at hy
    · obtain rfl := some.inj hy
      omega
    · exact hold hy hlt
  · rw [hcs]
    refine descend_concat_some (hpaths hdescend fun hc => ?_) ?_
    · have := hc.length_le
      rw [length_append, length_singleton] at this
      omega
    · rw [hentry, if_pos ⟨rfl, rfl⟩]
  · have halike : Alike node ((a.attached node name).node a.nodes.length) := alike_attached_self
    rw [hnode', halike.kind (by rw [hnk, hleaf]), hnk]
  · obtain ⟨n', hn', hlt, hdecl⟩ := h.there e' he'
    have hlt' := hlt.trans_le hadds.length_le
    -- an entry done before is not below the new one, which is in no directory's place
    have hprefix : ¬ dirs ++ [name] <+: components e'.path := by
      rintro ⟨rest, hrest⟩
      cases rest with
      | nil =>
        rw [append_nil, ← hcs] at hrest
        exact (hdone e' he').2 ((hdone e' he').1.path_eq he hrest.symm)
      | cons =>
        rw [← hrest, descend_append] at hn'
        obtain ⟨x, hx, hbelow⟩ := bind_eq_some_iff.mp hn'
        rw [descend] at hbelow
        obtain ⟨y, hy, -⟩ := bind_eq_some_iff.mp hbelow
        have hocc := occupiedByADirectory_of_descend hcs hdd hx (isDir_of_entry hy)
        rw [hfree hleaf] at hocc
        cases hocc
    exact ⟨n', hpaths (hadds.descend hn') hprefix, hlt'.trans hself, hlt'.ne',
      hdecl.alike ((hadds.alike n' hlt).trans (alike_attached hlt'))⟩
  rw [hentry, if_neg]
  · exact hadds.keeps (h.kept hy fun hnames => hnot hnames.cons)
  · rintro ⟨rfl, rfl⟩
    exact hnot ⟨e, mem_cons_self, dirs, hpath,
      descend_old hold hdescend (lt_of_isDir (isDir_of_entry hy))⟩

/-- **One entry.** -/
lemma Installed.entry (h : Installed v done w) (he : e.Ok)
    (hdone : ∀ e' ∈ done, e'.Ok ∧ e'.path ≠ e.path) (hplace : e.place w = (.ok n, u)) :
    Installed v (e :: done) (u.setMeta n e.mode e.mtimeSec) := by
  rw [Entry.place] at hplace
  split at hplace
  · next hkind => exact h.dir he hkind hdone hplace
  · next target hkind =>
      refine h.leaf he rfl hdone (fun node hmode hmtime hnode => ?_) hplace
      refine ⟨hmode, hmtime, fun hk => ?_, fun target' hk => ?_, fun layout fnv hk => ?_⟩
      · cases hkind.symm.trans hk
      · cases hkind.symm.trans hk
        exact hnode
      · cases hkind.symm.trans hk
  · next layout fnv hkind =>
      refine h.leaf he rfl hdone (fun node hmode hmtime hnode => ?_) hplace
      refine ⟨hmode, hmtime, fun hk => ?_, fun target hk => ?_, fun layout' fnv' hk => ?_⟩
      · cases hkind.symm.trans hk
      · cases hkind.symm.trans hk
      · cases hkind.symm.trans hk
        exact hnode

/-- **All of them.** -/
lemma Installed.apply : ∀ {entries done : List Entry} {w w' : Vfs}, Installed v done w →
    (∀ e ∈ entries, e.Ok) → (∀ e ∈ done, e.Ok) →
    (entries.map Entry.path).Pairwise (· ≠ ·) → (∀ e ∈ entries, ∀ e' ∈ done, e'.path ≠ e.path) →
    applyManifest entries w = (.ok (), w') → Installed v (entries.reverse ++ done) w'
  | [], done, w, w', h, _, _, _, _, happly => by
      obtain ⟨-, rfl⟩ := Prod.mk.inj happly
      exact h
  | e :: entries, done, w, w', h, hok, hdone, hdistinct, hother, happly => by
      rw [applyManifest] at happly
      rw [map_cons, pairwise_cons] at hdistinct
      have hoks := forall_mem_cons.mp hok
      split at happly
      · obtain ⟨herror, -⟩ := Prod.mk.inj happly
        cases herror
      · next node u hplace =>
          have hentry := h.entry hoks.1
            (fun e' he' => ⟨hdone e' he', hother e mem_cons_self e' he'⟩) hplace
          have hrest := hentry.apply hoks.2 (forall_mem_cons.mpr ⟨hoks.1, hdone⟩) hdistinct.2
            (fun e' he' => forall_mem_cons.mpr
              ⟨hdistinct.1 e'.path (mem_map_of_mem he'),
                hother e' (mem_cons_of_mem _ he')⟩) happly
          rwa [reverse_cons, append_assoc]

lemma resolve_of_descend (he : e.Ok) (h : w.descend ROOT (components e.path) = some n) :
    ∃ r, w.resolve ROOT e.path false = .ok r ∧ r.node = some n := by
  rcases he.shape with ⟨hroot, hcs⟩ | ⟨dirs, name, hproper, hpath, hcs⟩
  · rw [hcs] at h
    obtain rfl := some.inj h
    exact ⟨w.resolvedSelf ROOT, by rw [hroot]; rfl, rfl⟩
  rw [hcs, descend_concat] at h
  obtain ⟨d, hd, hentry⟩ := bind_eq_some_iff.mp h
  refine ⟨_, resolve_concat hcs (fun c hc => (hproper c hc).ne_dotdot) hd
    (isDir_of_entry hentry), hentry⟩

/-- The root of the manifest is kept beside the tree. -/
lemma Installed.setRoot (h : Installed v done w) (root : Option Hash) :
    Installed v done { w with manifestRoot := root } := by
  refine ⟨h.wf.congr rfl (fun _ _ => rfl) (fun _ => ⟨rfl, rfl, rfl⟩) fun _ => id,
    h.length_le, h.old,
    fun e he => ?_, h.kept⟩
  obtain ⟨n, hn, hlt, hdeclared⟩ := h.there e he
  have hentry : ∀ p m, Vfs.entry { w with manifestRoot := root } p m = w.entry p m :=
    fun _ _ => rfl
  exact ⟨n, (descend_congr hentry _ _).trans hn, hlt, hdeclared⟩

lemma ChunkManifest.Ok.distinct {m : ChunkManifest} (h : m.Ok) :
    (m.entries.map Entry.path).Pairwise (· ≠ ·) := by
  refine h.sorted.imp ?_
  rintro path _ hlt rfl
  exact List.lt_irrefl path hlt

/-- **The installation**, refused or not. -/
lemma installChunkManifest_cases (sha256 : Bytes → Hash) (env : LinuxEnv) (text : Bytes) :
    (∃ why, installChunkManifest sha256 env text = (.error why, env)) ∨
    ∃ m, parse sha256 text = .ok m ∧ (
      (∃ root, env.vfs.manifestRoot = some root ∧ installChunkManifest sha256 env text =
        (.ok m.root, { env with chunkManifest := some m })) ∨
      ∃ v, env.vfs.manifestRoot = none ∧ applyManifest m.entries env.vfs = (.ok (), v) ∧
        installChunkManifest sha256 env text = (.ok m.root, { env with
          vfs := { v with manifestRoot := some m.root }
          chunkManifest := some m })) := by
  rw [installChunkManifest]
  cases hparse : parse sha256 text with
  | error why => exact .inl ⟨_, rfl⟩
  | ok m =>
    cases hroot : env.vfs.manifestRoot with
    | some root =>
      dsimp only
      split_ifs with hdiffers hauthorized
      · exact .inl ⟨_, rfl⟩
      · exact .inr ⟨m, rfl, .inl ⟨root, rfl, rfl⟩⟩
      · exact .inl ⟨_, rfl⟩
    | none =>
      dsimp only
      -- the second application goes as the first did
      rw [applyManifest_topologyOnly]
      generalize happly : applyManifest m.entries env.vfs = applied
      obtain ⟨result, v⟩ := applied
      cases result with
      | error why => exact .inl ⟨why, rfl⟩
      | ok _ => exact .inr ⟨m, rfl, .inr ⟨v, rfl, happly, rfl⟩⟩

/-- **The installation is all or nothing, and exact.**  It is refused and changes nothing, or
returns the digest of the text.  If there was no manifest before and it is not refused, then
the text is the spelling of the manifest's entries, every one of them resolves to a node as
declared, and every directory entry that was there before and that the manifest does not name
still names the same node. -/
theorem install_exact (sha256 : Bytes → Hash) (env : LinuxEnv) (hwf : env.vfs.Wf) (text : Bytes) :
    let result := (installChunkManifest sha256 env text).1
    let env' := (installChunkManifest sha256 env text).2
    ((∃ why, result = .error why) ∧ env' = env ∨ result = .ok (sha256 text)) ∧
    (env.vfs.manifestRoot = none → ∀ root, result = .ok root → ∃ m, parse sha256 text = .ok m ∧
      render m.entries = text ∧
      (∀ e ∈ m.entries, ∃ r n, env'.vfs.resolve ROOT e.path false = .ok r ∧
        r.node = some n ∧ Declared e (env'.vfs.node n)) ∧
      ∀ d name n, env.vfs.entry d name = some n → ¬ Names m.entries env.vfs d name →
        env'.vfs.entry d name = some n) := by
  intro result env'
  rcases installChunkManifest_cases sha256 env text with ⟨why, h⟩ | ⟨m, hparse, hcases⟩
  · have hresult : result = .error why := congrArg Prod.fst h
    refine ⟨.inl ⟨⟨why, hresult⟩, congrArg Prod.snd h⟩, fun _ root hroot => ?_⟩
    rw [hresult] at hroot
    cases hroot
  -- the text parses: an installed manifest stays as it is, or the entries are applied
  obtain ⟨hspelled, hdigest, hok⟩ := parse_ok hparse
  rcases hcases with ⟨root, hroot, h⟩ | ⟨v, hroot, happly, h⟩
  · have hresult : result = .ok m.root := congrArg Prod.fst h
    refine ⟨.inr (hdigest ▸ hresult), fun hnone => ?_⟩
    rw [hroot] at hnone
    cases hnone
  have hresult : result = .ok m.root := congrArg Prod.fst h
  have hvfs : env'.vfs = { v with manifestRoot := some m.root } :=
    congrArg (fun r => r.2.vfs) h
  refine ⟨.inr (hdigest ▸ hresult), fun _ _ _ => ⟨m, hparse, hspelled, ?_⟩⟩
  have hinstalled := ((Installed.refl hwf).apply hok.entry (by simp) hok.distinct (by simp)
    happly).setRoot (some m.root)
  rw [append_nil] at hinstalled
  rw [hvfs]
  refine ⟨fun e he => ?_, fun d name n hn hnames => hinstalled.kept hn ?_⟩
  · obtain ⟨n, hn, -, hdeclared⟩ := hinstalled.there e (mem_reverse.mpr he)
    obtain ⟨r, hr, hnode⟩ := resolve_of_descend (hok.entry e he) hn
    exact ⟨r, n, hr, hnode, hdeclared⟩
  · rintro ⟨e, he, hplace⟩
    exact hnames ⟨e, mem_reverse.mp he, hplace⟩

/-- An environment whose filesystem has the directory `/etc`. -/
def sampleEnv : LinuxEnv where
  vfs := (bare.mkdirP (ascii "/etc")).2
  cwd := ROOT
  manifest := none
  chunkManifest := none
  inFlight := ∅

/-- The sample image is installed: `/bin` and `/bin/x` are there as declared, and the entry of
`/etc` is where it was. -/
theorem install_exact_sample :
    let env' := (installChunkManifest (fun _ => []) sampleEnv sampleText).2
    ∃ m, parse (fun _ => []) sampleText = .ok m ∧ render m.entries = sampleText ∧
      m.entries.map Entry.path = [ascii "/bin", ascii "/bin/x"] ∧
      (∀ e ∈ m.entries, ∃ r n, env'.vfs.resolve ROOT e.path false = .ok r ∧ r.node = some n ∧
        Declared e (env'.vfs.node n)) ∧
      sampleEnv.vfs.entry ROOT (ascii "etc") = some 1 ∧
      env'.vfs.entry ROOT (ascii "etc") = some 1 := by
  have hok : (installChunkManifest (fun _ => []) sampleEnv sampleText).1.toOption = some [] := by
    decide +kernel
  have hpaths : (parse (fun _ => []) sampleText).toOption.map (fun m => m.entries.map Entry.path) =
      some [ascii "/bin", ascii "/bin/x"] := by
    decide +kernel
  have hetc : sampleEnv.vfs.entry ROOT (ascii "etc") = some 1 := by decide +kernel
  have hexact := (install_exact (fun _ => []) sampleEnv (wf_bare.mkdirP _) sampleText).2
  cases hresult : (installChunkManifest (fun _ => []) sampleEnv sampleText).1 with
  | error why =>
    rw [hresult] at hok
    cases hok
  | ok root =>
    obtain ⟨m, hparse, hspelled, hthere, hkept⟩ := hexact (by decide +kernel) root hresult
    rw [hparse] at hpaths
    have hentries : m.entries.map Entry.path = [ascii "/bin", ascii "/bin/x"] := some.inj hpaths
    refine ⟨m, hparse, hspelled, hentries, hthere, hetc, hkept _ _ _ hetc ?_⟩
    -- neither path ends in the name
    rintro ⟨e, he, dirs, hpath, -⟩
    have hlast : e.path.getLast? = some 99 := by
      rw [hpath, joinSegments_concat]
      simp [ascii]
    have hmem := mem_map_of_mem (f := Entry.path) he
    rw [hentries] at hmem
    rcases mem_cons.mp hmem with h | h
    · rw [h] at hlast
      revert hlast
      decide
    · rw [mem_singleton.mp h] at hlast
      revert hlast
      decide

end ChunkText

end WebTos
