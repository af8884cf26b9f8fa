import WebTos.Vfs.TreeOps

/-!
Paths that lead through directories only, and what `mkdir_p` and `add_node` do at the end
of one.

* `descend`: the node a list of names leads to, through entries of directories;
* `resolve_concat`: a path through directories resolves to where it descends;
* `descend_injective`: in a tree a directory is at the end of one path;
* `Adds`: entries are added at free places, for new nodes, and nothing else changes;
* `mkdirP_ok`, `addNode_ok`: what the two operations leave behind when they succeed.
-/

namespace WebTos.Vfs

open List Option

variable {v w x : Vfs} {cur d n : ℕ} {c name : Bytes} {cs dirs : List Bytes}

/-- The node that names lead to from a directory. -/
def descend (v : Vfs) : ℕ → List Bytes → Option ℕ
  | cur, [] => some cur
  | cur, c :: cs => (v.entry cur c).bind fun next => v.descend next cs

/-- Names lead on from where the names before them lead. -/
lemma descend_append (v : Vfs) (cur : ℕ) (cs ds : List Bytes) :
    v.descend cur (cs ++ ds) = (v.descend cur cs).bind fun next => v.descend next ds := by
  induction cs generalizing cur with
  | nil => rfl
  | cons c cs ih =>
    rw [cons_append, descend, descend]
    cases v.entry cur c with
    | none => rfl
    | some next => exact ih next

lemma descend_concat (v : Vfs) (cur : ℕ) (cs : List Bytes) (c : Bytes) :
    v.descend cur (cs ++ [c]) = (v.descend cur cs).bind fun next => v.entry next c := by
  rw [descend_append]
  congr 1
  funext next
  rw [descend]
  cases v.entry next c <;> rfl

lemma descend_concat_some (h : v.descend cur dirs = some d) (he : v.entry d name = some n) :
    v.descend cur (dirs ++ [name]) = some n := by
  rw [descend_concat, h]
  exact he

/-- A walk that leads through directories ends in the last of them. -/
lemma walk_concat {follow : ℕ → Bytes → SysResult Resolved} (hname : name ≠ dotdot) :
    ∀ {dirs : List Bytes} {cur : ℕ}, (∀ c ∈ dirs, c ≠ dotdot) → v.descend cur dirs = some d →
      v.isDir d → v.walk follow false cur (dirs ++ [name]) = .ok ⟨d, name, v.entry d name⟩
  | [], cur, _, h, hd => by
      obtain rfl := some.inj h
      rw [nil_append, walk, if_neg hname, if_neg (by rw [hd]; decide)]
      cases v.entry cur name <;> rfl
  | c :: cs, cur, hdd, h, hd => by
      rw [descend] at h
      obtain ⟨next, he, h⟩ := bind_eq_some_iff.mp h
      -- the next node is the last directory, or has an entry itself
      have hnext : v.isDir next := by
        cases cs with
        | nil =>
          obtain rfl := some.inj h
          exact hd
        | cons =>
          rw [descend] at h
          obtain ⟨_, he', -⟩ := bind_eq_some_iff.mp h
          exact isDir_of_entry he'
      obtain ⟨entries, hkind⟩ := exists_dir_of_isDir hnext
      have hrest : v.walk follow false next (cs ++ [name]) = .ok ⟨d, name, v.entry d name⟩ :=
        walk_concat hname (fun c' hc' => hdd c' (mem_cons_of_mem _ hc')) h hd
      rw [cons_append, walk, if_neg (hdd c mem_cons_self),
        if_neg (by rw [isDir_of_entry he]; decide), he]
      · dsimp only
        rw [hkind]
        exact hrest
      · simp

variable {path : Bytes}

/-- **A path through directories** resolves, without following a last link, to the entry
of its last directory. -/
lemma resolve_concat (hpath : components path = dirs ++ [name])
    (hdd : ∀ c ∈ dirs ++ [name], c ≠ dotdot) (h : v.descend ROOT dirs = some d) (hd : v.isDir d)
    : v.resolve ROOT path false = .ok ⟨d, name, v.entry d name⟩ := by
  have hne : path.isEmpty = false := by
    cases path with
    | nil => exact absurd hpath (by simp [components])
    | cons => rfl
  have hstart : walkStart ROOT path = ROOT := ite_self _
  rw [resolve, if_neg (by rw [hne]; decide), resolveDepth, hstart, hpath]
  exact walk_concat (hdd name (by simp)) (fun c hc => hdd c (by simp [hc])) h hd

/-- A path that leads to a directory is occupied by it. -/
lemma occupiedByADirectory_of_descend (hpath : components path = dirs ++ [name])
    (hdd : ∀ c ∈ dirs ++ [name], c ≠ dotdot) (h : v.descend ROOT (dirs ++ [name]) = some n)
    (hn : v.isDir n) : v.occupiedByADirectory path := by
  rw [descend_concat] at h
  obtain ⟨d, hd, he⟩ := bind_eq_some_iff.mp h
  rw [occupiedByADirectory, resolve_concat hpath hdd hd (isDir_of_entry he), he]
  exact hn

/-- **In a tree a directory is at the end of one path.** -/
lemma descend_injective (hv : Core v) : ∀ {cs ds : List Bytes} {d : ℕ}, v.isDir d →
    v.descend ROOT cs = some d → v.descend ROOT ds = some d → cs = ds := by
  intro cs
  induction cs using List.reverseRecOn with
  | nil =>
    intro ds d _ hcs hds
    obtain rfl := some.inj hcs
    cases ds using List.reverseRecOn with
    | nil => rfl
    | append_singleton ds c =>
      rw [descend_concat] at hds
      obtain ⟨p, -, he⟩ := bind_eq_some_iff.mp hds
      exact absurd he (hv.root_unnamed p c)
  | append_singleton cs c ih =>
    intro ds d hd hcs hds
    rw [descend_concat] at hcs
    obtain ⟨p, hp, he⟩ := bind_eq_some_iff.mp hcs
    cases ds using List.reverseRecOn with
    | nil =>
      obtain rfl := some.inj hds
      exact absurd he (hv.root_unnamed p c)
    | append_singleton =>
      rw [descend_concat] at hds
      obtain ⟨p', hp', he'⟩ := bind_eq_some_iff.mp hds
      -- a directory has one name, in one directory
      obtain ⟨rfl, rfl⟩ := hv.unique hd he he'
      rw [ih (isDir_of_entry he) hp hp']

/-! ### New entries -/

/-- Nothing of the node has changed but links, and entries if it is a directory. -/
structure Alike (a b : Node) : Prop where
  mode : b.mode = a.mode
  mtimeSec : b.mtimeSec = a.mtimeSec
  isDir : b.kind.isDir = a.kind.isDir
  kind : a.kind.isDir = false → b.kind = a.kind

lemma Alike.refl (a : Node) : Alike a a := ⟨rfl, rfl, rfl, fun _ => rfl⟩

lemma Alike.trans {a b c : Node} (h : Alike a b) (h' : Alike b c) : Alike a c where
  mode := h'.mode.trans h.mode
  mtimeSec := h'.mtimeSec.trans h.mtimeSec
  isDir := h'.isDir.trans h.isDir
  kind hfile := (h'.kind (h.isDir.trans hfile)).trans (h.kind hfile)

section attached

variable {node : Node}

@[simp] lemma length_attached : (v.attached node name).nodes.length = v.nodes.length + 1 := by
  simp [attached]

/-- **The entry of an attached node**: its name in its parent, and every other as before. -/
lemma entry_attached (hk : ∀ entries, node.kind = .dir entries → entries = ∅)
    (hp : v.isDir node.parent) (q : ℕ) (m : Bytes) :
    (v.attached node name).entry q m =
      if q = node.parent ∧ m = name then some v.nodes.length else v.entry q m := by
  have hp' : (v.push node).isDir node.parent := by
    rw [isDir_push_of_lt (lt_of_isDir hp)]
    exact hp
  rw [attached, entry_congr (dropDisplaced_frame _ q).2, entry_setEntry hp', entry_push hk]

/-- An entry changes the directory it is in. -/
lemma alike_setEntry (v : Vfs) (p : ℕ) (name : Bytes) (c i : ℕ) :
    Alike (v.node i) ((v.setEntry p name c).node i) := by
  rw [setEntry]
  split
  · next entries hkind =>
      rw [node_setKind]
      split_ifs with hi
      · obtain ⟨rfl, -⟩ := hi
        have hdir : (v.node p).kind.isDir := by rw [hkind]; rfl
        exact ⟨rfl, rfl, hdir.symm, fun hfile => absurd hdir (by rw [hfile]; decide)⟩
      · exact .refl _
  · exact .refl _

/-- A node that is displaced loses a link. -/
lemma alike_dropDisplaced (v : Vfs) (displaced : Option ℕ) (i : ℕ) :
    Alike (v.node i) ((v.dropDisplaced displaced).node i) := by
  cases displaced with
  | none => exact .refl _
  | some d =>
    rw [dropDisplaced, node_dropLink]
    split_ifs <;> exact ⟨rfl, rfl, rfl, fun _ => rfl⟩

/-- A node that was there before is what it was. -/
lemma alike_attached {i : ℕ} (hi : i < v.nodes.length) :
    Alike (v.node i) ((v.attached node name).node i) := by
  have h := (alike_setEntry (v.push node) node.parent name v.nodes.length i).trans
    (alike_dropDisplaced _ (v.entry node.parent name) i)
  rwa [node_push_of_lt node hi] at h

lemma alike_attached_self : Alike node ((v.attached node name).node v.nodes.length) := by
  have h := (alike_setEntry (v.push node) node.parent name v.nodes.length v.nodes.length).trans
    (alike_dropDisplaced _ (v.entry node.parent name) v.nodes.length)
  rwa [node_push_self] at h

end attached

/-- Entries have been added, at free places and for new nodes; nothing else has
changed. -/
structure Adds (v w : Vfs) : Prop where
  length_le : v.nodes.length ≤ w.nodes.length
  keeps : ∀ {p m y}, v.entry p m = some y → w.entry p m = some y
  fresh : ∀ {p m y}, w.entry p m = some y → v.entry p m = some y ∨ v.nodes.length ≤ y
  alike : ∀ i < v.nodes.length, Alike (v.node i) (w.node i)

namespace Adds

lemma refl (v : Vfs) : Adds v v := ⟨le_rfl, fun h => h, .inl, fun _ _ => .refl _⟩

lemma trans (h : Adds v w) (h' : Adds w x) : Adds v x where
  length_le := h.length_le.trans h'.length_le
  keeps he := h'.keeps (h.keeps he)
  fresh he := by
    rcases h'.fresh he with he' | hlen
    · exact h.fresh he'
    · exact .inr (h.length_le.trans hlen)
  alike i hi := (h.alike i hi).trans (h'.alike i (hi.trans_le h.length_le))

/-- Where names led before they still lead. -/
lemma descend (h : Adds v w) : ∀ {cs : List Bytes} {cur : ℕ}, v.descend cur cs = some n →
    w.descend cur cs = some n
  | [], _, hn => hn
  | c :: cs, cur, hn => by
      rw [Vfs.descend] at hn ⊢
      obtain ⟨next, he, hn⟩ := bind_eq_some_iff.mp hn
      rw [h.keeps he]
      exact h.descend hn

/-- A node attached at a free place is an entry more. -/
lemma attached {node : Node} (hk : ∀ entries, node.kind = .dir entries → entries = ∅)
    (hp : v.isDir node.parent) (hfree : v.entry node.parent name = none) :
    Adds v (v.attached node name) where
  length_le := by
    rw [length_attached]
    exact Nat.le_succ _
  keeps {p m y} he := by
    rw [entry_attached hk hp, if_neg]
    · exact he
    · rintro ⟨rfl, rfl⟩
      rw [hfree] at he
      cases he
  fresh {p m y} he := by
    rw [entry_attached hk hp] at he
    split_ifs at he
    · exact .inr (some.inj he).le
    · exact .inl he
  alike i hi := alike_attached hi

end Adds

/-! ### The two operations -/

/-- The loop of `mkdir_p`: it adds directories and ends at the last of them. -/
lemma mkdirFrom_ok : ∀ {cs : List Bytes} {v w : Vfs} {cur n : ℕ}, (∀ c ∈ cs, c ≠ dotdot) →
    v.isDir cur → v.mkdirFrom cur cs = (.ok n, w) →
      Adds v w ∧ w.descend cur cs = some n ∧ w.isDir n
  | [], v, w, cur, n, _, hcur, h => by
      obtain ⟨hn, rfl⟩ := Prod.mk.inj h
      obtain rfl := Except.ok.inj hn
      exact ⟨.refl v, rfl, hcur⟩
  | c :: cs, v, w, cur, n, hdd, hcur, h => by
      have hrest : ∀ c' ∈ cs, c' ≠ dotdot := fun c' hc' => hdd c' (mem_cons_of_mem _ hc')
      rw [mkdirFrom, if_neg (hdd c mem_cons_self), if_neg (by rw [hcur]; decide)] at h
      cases he : v.entry cur c with
      -- the name is there: it must be a directory
      | some =>
        rw [he] at h
        dsimp only at h
        split_ifs at h with hnext
        · obtain ⟨hn, -⟩ := Prod.mk.inj h
          cases hn
        obtain ⟨hadds, hdescend, hdir⟩ := mkdirFrom_ok hrest (by simpa using hnext) h
        refine ⟨hadds, ?_, hdir⟩
        rw [descend, hadds.keeps he]
        exact hdescend
      -- the name is free: the new directory stands behind all the nodes
      | none =>
        have hadds : Adds v (v.attached ⟨.dir ∅, 0o755, 2, 0, cur⟩ c) :=
          .attached eq_empty_of_dir_empty hcur he
        have hentry : (v.attached ⟨.dir ∅, 0o755, 2, 0, cur⟩ c).entry cur c =
            some v.nodes.length := by
          rw [entry_attached eq_empty_of_dir_empty hcur, if_pos ⟨rfl, rfl⟩]
        have hself : (v.attached ⟨.dir ∅, 0o755, 2, 0, cur⟩ c).isDir v.nodes.length :=
          alike_attached_self.isDir
        have hcur' : (v.push ⟨.dir ∅, 0o755, 2, 0, cur⟩).isDir cur := by
          rw [isDir_push_of_lt (lt_of_isDir hcur)]
          exact hcur
        rw [he] at h
        dsimp only at h
        rw [hcur'] at h
        rw [attached, he] at hadds hentry hself
        obtain ⟨hadds', hdescend, hdir⟩ := mkdirFrom_ok hrest hself h
        refine ⟨hadds.trans hadds', ?_, hdir⟩
        rw [descend, hadds'.keeps hentry]
        exact hdescend

/-- **`mkdir_p`** leaves a directory at the end of the path. -/
lemma mkdirP_ok (hdd : ∀ c ∈ components path, c ≠ dotdot) (hroot : v.isDir ROOT)
    (h : v.mkdirP path = (.ok n, w)) :
    Adds v w ∧ w.descend ROOT (components path) = some n ∧ w.isDir n :=
  mkdirFrom_ok hdd hroot h

/-- **`add_node`** hangs its node below the directories of the path, which it has added where
they were missing. -/
lemma addNode_ok {kind : NodeKind} {mode : ℕ} (hk : ∀ entries, kind = .dir entries → entries = ∅)
    (hpath : components path = dirs ++ [name]) (hparent : components (parentPath path) = dirs)
    (hdd : ∀ c ∈ dirs ++ [name], c ≠ dotdot) (hroot : v.isDir ROOT)
    (h : v.addNode path kind mode = (.ok n, w)) :
    ∃ u d, v.mkdirP (parentPath path) = (.ok d, u) ∧ Adds v u ∧ u.descend ROOT dirs = some d ∧
      u.isDir d ∧ n = u.nodes.length ∧
      w = u.attached ⟨kind, mode, newLinks kind, 0, d⟩ name ∧
      (kind.isDir = false → v.occupiedByADirectory path = false) := by
  rw [addNode] at h
  split_ifs at h with hocc
  · obtain ⟨hn, -⟩ := Prod.mk.inj h
    cases hn
  have hfree : kind.isDir = false → v.occupiedByADirectory path = false := fun hd => by
    simpa [hd] using hocc
  split at h
  · obtain ⟨hn, -⟩ := Prod.mk.inj h
    cases hn
  · next d u hmk =>
      -- the parents are there now, so the path resolves to a place in the last of them
      obtain ⟨hadds, hdescend, hdir⟩ := mkdirP_ok
        (by rw [hparent]; exact fun c hc => hdd c (by simp [hc])) hroot hmk
      rw [hparent] at hdescend
      rw [resolve_concat hpath hdd hdescend hdir] at h
      dsimp only at h
      have hdir' : (u.push ⟨kind, mode, newLinks kind, 0, d⟩).isDir d := by
        rw [isDir_push_of_lt (lt_of_isDir hdir)]
        exact hdir
      rw [hdir', entry_push hk] at h
      obtain ⟨hn, hw⟩ := Prod.mk.inj h
      exact ⟨u, d, hmk, hadds, hdescend, hdir, (Except.ok.inj hn).symm, hw.symm, hfree⟩

end WebTos.Vfs
