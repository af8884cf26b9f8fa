import WebTos.Vfs.Tree

/-!
Every operation of the filesystem keeps the invariant `Wf`, the two that can
leave it under the condition that they do not.

* `ResolvedOk`, `ResolveRule.resolve`, `Bounded.resolve_ok`: what path resolution can
  return: a node itself under the name `.`, or a proper name in a directory with
  the entry it has there;
* `Wf.attachNew`: a new node hung below a directory, shared by `create`,
  `mkdir_p` and `add_node`;
* `Wf.create`, `Wf.link`, `Wf.unlink`, `Wf.mkdirP`, `Wf.addNode`, `Wf.rename`,
  `Wf.releaseUnreferenced`: one lemma per operation.
-/

namespace WebTos

open Relation Lib List Option

namespace Vfs

variable {v : Vfs}

/-! ### Components and resolution -/

variable {c path : Bytes}

/-- A segment between separators does not contain one. -/
lemma slash_notMem_of_mem_splitOn (h : c ∈ path.splitOn slash) :
    slash ∉ c := by
  induction path generalizing c with
  | nil =>
    rw [splitOn_nil, mem_singleton] at h
    simp [h]
  | cons b path ih =>
    rw [splitOn_cons_eq_if_modifyHead] at h
    split at h
    · rcases mem_cons.mp h with rfl | h
      · simp
      · exact ih h
    · next hb =>
        cases hs : path.splitOn slash with
        | nil => exact absurd hs (splitOn_ne_nil _ _)
        | cons first =>
          rw [hs, modifyHead_cons] at h
          rcases mem_cons.mp h with rfl | h
          · have hfirst : slash ∉ first := ih (by rw [hs]; exact mem_cons_self)
            rw [mem_cons]
            rintro (rfl | hin)
            · exact hb (by simp)
            · exact hfirst hin
          · exact ih (by rw [hs]; exact mem_cons_of_mem _ h)

/-- A component is a proper name, unless it is `..`. -/
lemma properName_of_mem_components (h : c ∈ components path) (hdd : c ≠ dotdot) : ProperName c := by
  rw [components, mem_filter] at h
  obtain ⟨hmem, hc⟩ := h
  simp only [Bool.and_eq_true, Bool.not_eq_true', isEmpty_eq_false_iff, bne_iff_ne] at hc
  exact ⟨hc.1, hc.2, hdd, slash_notMem_of_mem_splitOn hmem⟩

/-- What resolution can return: a node itself, under the name `.`, or a proper
name in a directory with the entry it has there; indices inside the arena. -/
structure ResolvedOk (v : Vfs) (r : Resolved) : Prop where
  parent_lt : r.parent < v.nodes.length
  node_lt : ∀ {n}, r.node = some n → n < v.nodes.length
  shape : (r.name = dot ∧ r.node.isSome = true) ∨
    (ProperName r.name ∧ v.isDir r.parent = true ∧ r.node = v.entry r.parent r.name)

variable {r : Resolved}

/-- A path that names nothing yet ends in a proper name inside a directory. -/
lemma ResolvedOk.fresh (h : v.ResolvedOk r) (hnone : ¬ r.node.isSome) :
    ProperName r.name ∧ v.isDir r.parent ∧ v.entry r.parent r.name = none := by
  rcases h.shape with ⟨-, hsome⟩ | ⟨hname, hdir, hnode⟩
  · exact absurd hsome hnone
  refine ⟨hname, hdir, ?_⟩
  rw [← hnode]
  simpa using hnone

/-- **What path resolution returns**: the answer for a directory `i` itself, where `D`
holds what the walk can stand on, or a name in a directory with the entry it has
there.  What holds of all of these holds of every answer. -/
structure ResolveRule (v : Vfs) (D : ℕ → Prop) (P : Resolved → Prop) : Prop where
  root : D ROOT
  parent : ∀ i, D i → D (v.node i).parent
  dir : ∀ i, v.isDir i = true → D i
  self : ∀ i, D i → P (v.resolvedSelf i)
  entry : ∀ p name, v.isDir p = true → ProperName name → P ⟨p, name, v.entry p name⟩

variable {follow : ℕ → Bytes → SysResult Resolved} {start : ℕ}

namespace ResolveRule

variable {D : ℕ → Prop} {P : Resolved → Prop} {followLast : Bool}

/-- The component loop, given that the deeper levels return good answers. -/
lemma walk (h : ResolveRule v D P)
    (hfollow : ∀ {dir target r}, D dir → follow dir target = .ok r → P r) :
    ∀ {cs : List Bytes} {current : ℕ} {r : Resolved}, D current →
      (∀ c ∈ cs, c ≠ dotdot → ProperName c) → v.walk follow followLast current cs = .ok r →
      P r := by
  have hself : ∀ {i r}, D i → (Except.ok (v.resolvedSelf i) : SysResult Resolved) = .ok r →
    P r := by
    rintro i r hi ⟨⟩
    exact h.self i hi
  have hentry : ∀ {p name node r}, v.isDir p → ProperName name → v.entry p name = node →
      (Except.ok ⟨p, name, node⟩ : SysResult Resolved) = .ok r → P r := by
    rintro p name node r hp hname rfl ⟨⟩
    exact h.entry p name hp hname
  intro cs
  -- on the components; `follow` is the resolution one level deeper
  induction cs with
  | nil =>
    intro current r hcur _ hr
    rw [Vfs.walk] at hr
    exact hself hcur hr
  | cons c cs ih =>
    intro current r hcur hcs hr
    have hpar := h.parent current hcur
    have hrest : ∀ c' ∈ cs, c' ≠ dotdot → ProperName c' :=
      fun c' hc' => hcs c' (mem_cons_of_mem _ hc')
    have hname : c ≠ dotdot → ProperName c := hcs c mem_cons_self
    cases cs with
    | nil =>
      rw [Vfs.walk] at hr
      split_ifs at hr with hdd hdir
      · exact hself hpar hr
      have hp : v.isDir current := by simpa using hdir
      cases he : v.entry current c with
      | none =>
        rw [he] at hr
        exact hentry hp (hname hdd) he hr
      | some =>
        simp only [he] at hr
        split at hr
        · exact hfollow hcur hr
        · exact hentry hp (hname hdd) he hr
    | cons c' cs =>
      rw [Vfs.walk] at hr
      · split_ifs at hr with hdd hdir
        · exact ih hpar hrest hr
        cases he : v.entry current c with
        | none => simp [he] at hr
        | some next =>
          simp only [he] at hr
          split at hr
          · -- a symbolic link in the middle of the path
            split at hr
            · exact absurd hr (by simp)
            split at hr
            · exact absurd hr (by simp)
            · split_ifs at hr with hnode
              exact ih (h.dir _ (by simpa using hnode)) hrest hr
          · next hk => exact ih (h.dir next (by rw [isDir, hk]; rfl)) hrest hr
          · exact absurd hr (by simp)
      · simp

/-- Resolution at every depth of symbolic links. -/
lemma resolveDepth (h : ResolveRule v D P) :
    ∀ {levels start : ℕ} {path : Bytes} {followLast : Bool} {r : Resolved}, D start →
      v.resolveDepth levels start path followLast = .ok r → P r
  | 0, _, _, _, _, _, hr => by simp [Vfs.resolveDepth] at hr
  | levels + 1, start, path, followLast, r, hs, hr => by
      rw [Vfs.resolveDepth] at hr
      refine h.walk (fun hdir hf => h.resolveDepth hdir hf) ?_
        (fun c hc hdd => properName_of_mem_components hc hdd) hr
      rw [walkStart]
      split
      · exact h.root
      · exact hs

lemma resolve (h : ResolveRule v D P) (hs : D start) (hr : v.resolve start path followLast = .ok r)
    : P r := by
  rw [Vfs.resolve] at hr
  split at hr
  · exact absurd hr (by simp)
  · exact h.resolveDepth hs hr

end ResolveRule

/-- Indices stay inside the arena, and there is a root. -/
structure Bounded (v : Vfs) : Prop where
  root_dir : v.isDir ROOT = true
  parent_lt : ∀ i < v.nodes.length, (v.node i).parent < v.nodes.length
  entry_lt : ∀ {p name c}, v.entry p name = some c → c < v.nodes.length

lemma Core.bounded (h : Core v) : Bounded v := ⟨h.root_dir, h.parent_lt, h.entry_lt⟩

namespace Bounded

variable {followLast : Bool} {r : Resolved}

/-- Path resolution returns good answers only. -/
lemma resolve_ok (h : Bounded v) (hs : start < v.nodes.length)
    (hr : v.resolve start path followLast = .ok r) : v.ResolvedOk r := by
  refine ResolveRule.resolve (D := (· < v.nodes.length)) (P := v.ResolvedOk) ?_ hs hr
  refine ⟨lt_of_isDir h.root_dir, h.parent_lt, fun _ => lt_of_isDir, fun i hi => ?_,
    fun p name hp hname => ?_⟩
  · refine ⟨h.parent_lt i hi, fun hn => ?_, .inl ⟨rfl, rfl⟩⟩
    rw [resolvedSelf, some.injEq] at hn
    exact hn ▸ hi
  · exact ⟨lt_of_isDir hp, fun hn => h.entry_lt hn, .inr ⟨hname, hp, rfl⟩⟩

lemma resolveAt_ok (h : Bounded v) {base : ℕ} (hr : v.resolveAt base path followLast = .ok r)
    : v.ResolvedOk r := by
  rw [resolveAt] at hr
  split at hr
  · next hb => exact h.resolve_ok (lt_of_isDir hb) hr
  · exact absurd hr (by simp)

end Bounded

/-- The path's last component is a name: not `..`, and there is one. -/
def endsInName (path : Bytes) : Bool :=
  match (components path).getLast? with
  | some c => c != dotdot
  | none => false

/-- Without following a final link, a path that ends in a name resolves to it. -/
lemma walk_name (hdd : c ≠ dotdot) :
    ∀ {cs : List Bytes} {current : ℕ} {r : Resolved}, cs.getLast? = some c →
      v.walk follow false current cs = .ok r → r.name = c := by
  intro cs
  induction cs with
  | nil => intro _ _ hlast; simp at hlast
  | cons b cs ih =>
    intro current r hlast hr
    cases cs with
    | nil =>
      -- the last component is not followed, so its name is the result
      rw [List.getLast?_singleton, some.injEq] at hlast
      subst hlast
      rw [walk, if_neg hdd] at hr
      split at hr
      · exact absurd hr (by simp)
      cases he : v.entry current b with
      | none =>
        rw [he, Except.ok.injEq] at hr
        exact hr ▸ rfl
      | some =>
        simp only [he, Except.ok.injEq] at hr
        exact hr ▸ rfl
    | cons b' cs =>
      -- a directory or a followed link: the rest of the path ends in the same name
      rw [List.getLast?_cons_cons] at hlast
      rw [walk] at hr
      · split_ifs at hr
        · exact ih hlast hr
        cases he : v.entry current b with
        | none => simp [he] at hr
        | some =>
          simp only [he] at hr
          split at hr
          · split at hr
            · exact absurd hr (by simp)
            split at hr
            · exact absurd hr (by simp)
            · split_ifs at hr
              exact ih hlast hr
          · exact ih hlast hr
          · exact absurd hr (by simp)
      · simp

/-- A path that ends in a name does not resolve to a node itself. -/
lemma resolve_name_ne_dot (hend : endsInName path) (hr : v.resolve start path false = .ok r) :
    r.name ≠ dot := by
  rw [endsInName] at hend
  split at hend
  · next c hlast =>
      have hdd : c ≠ dotdot := by simpa using hend
      have hproper := properName_of_mem_components (List.mem_of_getLast? hlast) hdd
      rw [resolve] at hr
      split at hr
      · exact absurd hr (by simp)
      rw [resolveDepth] at hr
      rw [walk_name hdd hlast hr]
      exact hproper.ne_dot
  · exact absurd hend (by simp)

/-! ### What an operation can do -/

/-- A new node hung below its parent, in place of what had the name. -/
def attached (v : Vfs) (n : Node) (name : Bytes) : Vfs :=
  ((v.push n).setEntry n.parent name v.nodes.length).dropDisplaced (v.entry n.parent name)

/-- `node` moved from one slot to another. -/
def renamed (v : Vfs) (oldParent : ℕ) (oldName : Bytes) (newParent : ℕ) (newName : Bytes)
    (node : ℕ) : Vfs :=
  let w := v.eraseEntry oldParent oldName
  ((w.setEntry newParent newName node).dropDisplaced
    ((w.entry newParent newName).filter (· ≠ node))).setParent node newParent

variable {kind : NodeKind}

/-- `create` at a path that names nothing changes nothing, or hangs the new node. -/
lemma create_cases (hr : v.ResolvedOk r) (hnone : ¬ r.node.isSome)
    (hk : ∀ entries, kind = .dir entries → entries = ∅) (mode : ℕ) :
    (v.create r.parent r.name kind mode).2 = v ∨
      (v.create r.parent r.name kind mode).2
        = v.attached ⟨kind, mode, newLinks kind, 0, r.parent⟩ r.name := by
  obtain ⟨-, hdir, hfree⟩ := hr.fresh hnone
  rw [create]
  split
  · exact .inl rfl
  split
  · exact .inl rfl
  right
  have hdir' : (v.push ⟨kind, mode, newLinks kind, 0, r.parent⟩).isDir r.parent := by
    rw [isDir_push_of_lt hr.parent_lt]
    exact hdir
  dsimp only
  rw [hdir', entry_push hk, attached, hfree]
  rfl

/-- `unlink` changes nothing, or removes the name of a file or of an empty directory. -/
lemma unlink_cases (v : Vfs) (parent : ℕ) (name : Bytes) (rmdir : Bool) :
    (v.unlink parent name rmdir).2 = v ∨
      ∃ node, v.entry parent name = some node ∧ v.nonEmptyDir node = false ∧
        v.isDir node = rmdir ∧
        (v.unlink parent name rmdir).2 = (v.eraseEntry parent name).dropLink node := by
  rw [unlink]
  split_ifs
  · exact .inl rfl
  cases he : v.entry parent name with
  | none => exact .inl rfl
  | some node =>
    dsimp only
    split_ifs with hdir hfull hfile
    · exact .inl rfl
    · exact .inl rfl
    · exact .inl rfl
    · refine .inr ⟨node, rfl, by simpa using hfull, ?_, rfl⟩
      cases hd : v.isDir node <;> cases rmdir <;> simp_all

/-- `rename` changes nothing, or moves the node. -/
lemma rename_cases (v : Vfs) (oldParent : ℕ) (oldName : Bytes) (newParent : ℕ)
    (newName : Bytes) :
    (v.rename oldParent oldName newParent newName).2 = v ∨
      ∃ node, v.entry oldParent oldName = some node ∧ v.isDir newParent ∧
        (v.entry newParent newName).any v.nonEmptyDir = false ∧
        (v.rename oldParent oldName newParent newName).2
          = v.renamed oldParent oldName newParent newName node := by
  rw [rename]
  by_cases hp : (!v.isDir oldParent)
  · rw [if_pos hp]
    exact .inl rfl
  rw [if_neg hp]
  cases he : v.entry oldParent oldName with
  | none => exact .inl rfl
  | some node =>
    dsimp only
    split_ifs with hn hfull
    · exact .inl rfl
    · exact .inl rfl
    · exact .inr ⟨node, rfl, by simpa using hn, by simpa using hfull, rfl⟩

variable {P : Vfs → Prop}

/-- **The loop of `mkdir_p`** hangs empty directories where there is no entry, so what
survives that survives the loop, also when it stops half way. -/
lemma mkdirFrom_rule
    (hattach : ∀ {v : Vfs} {current : ℕ} {c : Bytes}, P v → v.isDir current →
      v.entry current c = none → ProperName c → P (v.attached ⟨.dir ∅, 0o755, 2, 0, current⟩ c)) :
    ∀ {cs : List Bytes} {v : Vfs} {current : ℕ}, P v → (∀ c ∈ cs, c ≠ dotdot → ProperName c) →
      P (v.mkdirFrom current cs).2 := by
  intro cs
  induction cs with
  | nil => exact fun h _ => h
  | cons c cs ih =>
    intro v current h hcs
    have hrest : ∀ c' ∈ cs, c' ≠ dotdot → ProperName c' :=
      fun c' hc' => hcs c' (mem_cons_of_mem _ hc')
    rw [mkdirFrom]
    split_ifs with hdd hp
    · exact ih h hrest
    · exact h
    have hdir : v.isDir current := by simpa using hp
    cases he : v.entry current c with
    | some =>
      dsimp only
      split_ifs
      · exact h
      · exact ih h hrest
    -- the name is free, and the new directory is hung there
    | none =>
      have hatt := hattach h hdir he (hcs c mem_cons_self hdd)
      have hdir' : (v.push ⟨.dir ∅, 0o755, 2, 0, current⟩).isDir current := by
        rw [isDir_push_of_lt (lt_of_isDir hdir)]
        exact hdir
      rw [attached, he] at hatt
      dsimp only
      rw [hdir']
      exact ih hatt hrest

lemma mkdirP_rule
    (hattach : ∀ {v : Vfs} {current : ℕ} {c : Bytes}, P v → v.isDir current →
      v.entry current c = none → ProperName c → P (v.attached ⟨.dir ∅, 0o755, 2, 0, current⟩ c))
    (h : P v) (path : Bytes) :
    P (v.mkdirP path).2 :=
  mkdirFrom_rule hattach h fun _ hc hdd => properName_of_mem_components hc hdd

/-- An empty directory holds nothing. -/
lemma eq_empty_of_dir_empty (entries : Std.TreeMap Bytes ℕ) (h : NodeKind.dir ∅ = .dir entries) :
    entries = ∅ := by
  simpa using h.symm

/-- `add_node` is refused, or makes the missing parents and then nothing more or the
node at the resolved path. -/
lemma addNode_cases (v : Vfs) (path : Bytes) (hk : ∀ entries, kind = .dir entries → entries = ∅)
    (mode : ℕ)
    (hdirs : (kind.isDir = false → v.occupiedByADirectory path = false) → ∀ r,
      (v.mkdirP (parentPath path)).2.resolve ROOT path false = .ok r →
      (v.mkdirP (parentPath path)).2.isDir r.parent) :
    (v.addNode path kind mode).2 = v ∨
      (v.addNode path kind mode).2 = (v.mkdirP (parentPath path)).2 ∨
      ∃ r, (kind.isDir = false → v.occupiedByADirectory path = false) ∧
        (v.mkdirP (parentPath path)).2.resolve ROOT path false = .ok r ∧
        (v.addNode path kind mode).2 = (v.mkdirP (parentPath path)).2.attached
          ⟨kind, mode, newLinks kind, 0, r.parent⟩ r.name := by
  rw [addNode]
  split_ifs with hocc
  · exact .inl rfl
  right
  have hfree : kind.isDir = false → v.occupiedByADirectory path = false := fun hd => by
    simpa [hd] using hocc
  have hdirs := hdirs hfree
  split
  · next e w hw => rw [hw]; exact .inl rfl
  next i w hw =>
  rw [hw] at hdirs ⊢
  dsimp only at hdirs ⊢
  cases hres : w.resolve ROOT path false with
  | error e => exact .inl rfl
  | ok r =>
    right
    refine ⟨r, hfree, rfl, ?_⟩
    have hdir := hdirs r hres
    -- the node is pushed before it is named, and its parent is still a directory
    have hdir' : (w.push ⟨kind, mode, newLinks kind, 0, r.parent⟩).isDir r.parent := by
      rw [isDir_push_of_lt (lt_of_isDir hdir)]
      exact hdir
    dsimp only
    rw [hdir', entry_push hk]
    rfl

/-! ### The operations -/

namespace Wf

variable {n : Node} {name : Bytes} {p : ℕ} {kind : NodeKind}

section

variable (h : Wf v) (hn : ∀ entries, n.kind = .dir entries → entries = ∅)
include h hn

/-- A node that holds nothing and is not yet hung anywhere. -/
lemma push (hparent : n.parent < v.nodes.length) : Wf (v.push n) where
  toCore := h.toCore.push hn hparent
  in_parent := fun hd he => by
    rw [entry_push hn] at he
    have hlt := h.entry_lt he
    rw [isDir_push_of_lt hlt] at hd
    rw [node_push_of_lt n hlt]
    exact h.in_parent hd he

/-- A new node is named by nothing and holds nothing. -/
lemma fresh_node :
    (∀ q m, (v.push n).entry q m ≠ some v.nodes.length) ∧
      ∀ x, ¬ (v.push n).Edge v.nodes.length x := by
  constructor
  · intro q m he
    rw [entry_push hn] at he
    exact Nat.lt_irrefl _ (h.entry_lt he)
  rintro x ⟨m, he⟩
  rw [entry_push hn] at he
  exact Nat.lt_irrefl _ (lt_of_isDir (isDir_of_entry he))

/-- **A new node hung below a directory**, shared by `create`, `mkdir_p` and
`add_node`. -/
lemma attachNew (hp : v.isDir n.parent) (hname : ProperName name)
    (hlinks : n.kind.isDir → 2 ≤ n.nlink) :
    Wf ((v.push n).setEntry n.parent name v.nodes.length) := by
  have hlt := lt_of_isDir hp
  have hp' : (v.push n).isDir n.parent := by rw [isDir_push_of_lt hlt]; exact hp
  obtain ⟨hunnamed, hleaf⟩ := h.fresh_node hn
  have hcore : Core ((v.push n).setEntry n.parent name v.nodes.length) := by
    refine (h.toCore.push hn hlt).setEntry hp' hname (by simp) ?_ ?_ ?_
    · exact Nat.ne_of_gt h.root_lt
    · intro hd
      rw [isDir, node_push_self] at hd
      rw [node_push_self]
      exact ⟨hlinks hd, hunnamed⟩
    · intro hbelow
      exact Nat.ne_of_gt hlt (eq_of_reflTransGen_of_leaf hleaf hbelow)
  refine ⟨hcore, fun {d q m} hd he => ?_⟩
  rw [(setEntry_frame hp' d).2.2] at hd
  rw [(setEntry_frame hp' d).1]
  rw [entry_setEntry hp'] at he
  split at he
  · next hqm =>
      rw [← some.inj he, node_push_self]
      exact hqm.1.symm
  · exact (h.push hn hlt).in_parent hd he

end

lemma dropLink (h : Wf v) {i : ℕ} (hi : i < v.nodes.length)
    (hdir : v.isDir i → 2 ≤ (v.node i).nlink ∧ ∀ q m, v.entry q m ≠ some i) :
    Wf (v.dropLink i) where
  toCore := h.toCore.dropLink hi hdir
  in_parent := fun hd he => by
    rw [isDir_dropLink] at hd
    rw [entry_dropLink] at he
    rw [(dropLink_frame i _).1]
    exact h.in_parent hd he

lemma eraseEntry (h : Wf v) (hp : v.isDir p) :
    Wf (v.eraseEntry p name) where
  toCore := h.toCore.eraseEntry hp
  in_parent := fun hd he => by
    rw [(eraseEntry_frame hp _).2.2] at hd
    rw [(eraseEntry_frame hp _).1]
    rw [entry_eraseEntry hp] at he
    split at he
    · exact absurd he (by simp)
    · exact h.in_parent hd he

/-- Once its entry is erased, a directory is named by nothing. -/
lemma unnamed_of_eraseEntry (h : Wf v) {d : ℕ} (he : v.entry p name = some d)
    (hd : v.isDir d) (q : ℕ) (m : Bytes) :
    (v.eraseEntry p name).entry q m ≠ some d := by
  intro hq
  rw [entry_eraseEntry (isDir_of_entry he)] at hq
  split at hq
  · exact absurd hq (by simp)
  · next hne => exact hne (h.unique hd he hq)

lemma two_le_newLinks (h : kind.isDir) : 2 ≤ newLinks kind := by
  rw [newLinks, if_pos h]

variable (h : Wf v)
include h

/-- `create` under a resolved path that names nothing yet. -/
lemma create (hr : v.ResolvedOk r) (hnone : ¬ r.node.isSome)
    (hk : ∀ entries, kind = .dir entries → entries = ∅) (mode : ℕ) :
    Wf (v.create r.parent r.name kind mode).2 := by
  obtain ⟨hname, hdir, hfree⟩ := hr.fresh hnone
  rcases create_cases hr hnone hk mode with hsame | hatt
  · rw [hsame]
    exact h
  · rw [hatt, attached, hfree]
    exact h.attachNew hk hdir hname two_le_newLinks

/-- A second name for a file. -/
lemma link (hr : v.ResolvedOk r) (hnone : ¬ r.node.isSome) {node : ℕ} (hlt : node < v.nodes.length)
    (hfile : v.isDir node = false) :
    Wf (v.link r.parent r.name node).2 := by
  obtain ⟨hname, hdir, -⟩ := hr.fresh hnone
  rw [Vfs.link]
  split_ifs
  · exact h
  · exact h
  -- a file holds nothing, so the new edge closes no cycle
  have hleaf : ∀ x, ¬ v.Edge node x := fun x hx => by
    rw [hx.isDir] at hfile
    exact absurd hfile (by simp)
  have hcore : Core (v.setEntry r.parent r.name node) := by
    refine h.toCore.setEntry hdir hname hlt ?_ ?_ ?_
    · rintro rfl
      rw [h.root_dir] at hfile
      exact absurd hfile (by simp)
    · exact fun hd => absurd hd (by rw [hfile]; simp)
    intro hbelow
    rw [← eq_of_reflTransGen_of_leaf hleaf hbelow, hfile] at hdir
    exact absurd hdir (by simp)
  have hin : InParent (v.setEntry r.parent r.name node) := fun {d q m} hd he => by
    rw [(setEntry_frame hdir d).2.2] at hd
    rw [(setEntry_frame hdir d).1]
    rw [entry_setEntry hdir] at he
    split at he
    · rw [some.inj he, hd] at hfile
      exact absurd hfile (by simp)
    · exact h.in_parent hd he
  have hkind : ∀ w : Vfs, ∀ j,
      ((w.modifyNode node fun n => { n with nlink := n.nlink + 1 }).node j).kind
          = (w.node j).kind ∧
        ((w.modifyNode node fun n => { n with nlink := n.nlink + 1 }).node j).parent
          = (w.node j).parent ∧
        (w.node j).nlink
          ≤ ((w.modifyNode node fun n => { n with nlink := n.nlink + 1 }).node j).nlink := by
    intro w j
    rw [node_modifyNode]
    split
    · exact ⟨rfl, rfl, Nat.le_succ _⟩
    · exact ⟨rfl, rfl, le_rfl⟩
  refine ⟨hcore.congr (by simp) (fun q m => entry_congr (hkind _ q).1 m)
    (fun j => isDir_congr (hkind _ j).1) (fun j hj => ?_) (fun {d p name} hd he => ?_)
    hcore.unlinked_file, fun {d p name} hd he => ?_⟩
  · rw [(hkind _ j).2.1]
    exact hcore.parent_lt j hj
  · exact (hcore.links hd he).trans (hkind _ d).2.2
  rw [isDir_congr (hkind _ d).1] at hd
  rw [entry_congr (hkind _ p).1] at he
  rw [(hkind _ d).2.1]
  exact hin hd he

/-- Removing an entry and its link. -/
lemma unlink (parent : ℕ) (name : Bytes) (rmdir : Bool) :
    Wf (v.unlink parent name rmdir).2 := by
  rcases unlink_cases v parent name rmdir with hsame | ⟨node, he, -, -, hgone⟩
  · rw [hsame]
    exact h
  rw [hgone]
  have hdir := isDir_of_entry he
  refine (h.eraseEntry hdir).dropLink (by simpa using h.entry_lt he) fun hd => ?_
  rw [(eraseEntry_frame hdir node).2.2] at hd
  rw [(eraseEntry_frame hdir node).2.1]
  exact ⟨h.links hd he, h.unnamed_of_eraseEntry he hd⟩

/-- `mkdir_p`, complete or not. -/
lemma mkdirP (path : Bytes) : Wf (v.mkdirP path).2 := by
  refine mkdirP_rule (fun hv hdir hfree hname => ?_) h path
  rw [attached, hfree]
  exact hv.attachNew eq_empty_of_dir_empty hdir hname fun _ => le_rfl

/-- A directory displaced from its entry has its links and no name left, so the
link it had under the name may go. -/
lemma dropDisplaced {c : ℕ} (hcore : Core (v.setEntry p name c)) {displaced : Option ℕ}
    (hdisp : ∀ {d}, displaced = some d → v.entry p name = some d ∧ d ≠ c) :
    Core ((v.setEntry p name c).dropDisplaced displaced) := by
  cases displaced with
  | none => exact hcore
  | some d =>
    obtain ⟨he, hne⟩ := hdisp rfl
    have hp := isDir_of_entry he
    refine hcore.dropLink (by simpa using h.entry_lt he) fun hd => ?_
    rw [(setEntry_frame hp d).2.2] at hd
    rw [(setEntry_frame hp d).2.1]
    refine ⟨h.links hd he, fun q m hq => ?_⟩
    rw [entry_setEntry hp] at hq
    split at hq
    · exact hne (some.inj hq).symm
    · next hother => exact hother (h.unique hd he hq)

/-- `add_node` at a path that ends in a name. -/
lemma addNode (mode : ℕ)
    (hend : endsInName path ∨ (kind.isDir = false ∧ v.occupiedByADirectory path))
    (hk : ∀ entries, kind = .dir entries → entries = ∅) :
    Wf (v.addNode path kind mode).2 := by
  have hmk := h.mkdirP (parentPath path)
  -- the call is not refused, so the path ends in a name
  have hproper : (kind.isDir = false → v.occupiedByADirectory path = false) → ∀ r,
      (v.mkdirP (parentPath path)).2.resolve ROOT path false = .ok r →
      ProperName r.name ∧ (v.mkdirP (parentPath path)).2.isDir r.parent := by
    intro hfree r hres
    have hend : endsInName path := hend.resolve_right fun hc => by
      simp [hfree hc.1] at hc
    obtain ⟨hdot, -⟩ | ⟨hname, hdir, -⟩ := (hmk.bounded.resolve_ok hmk.root_lt hres).shape
    · exact absurd hdot (resolve_name_ne_dot hend hres)
    · exact ⟨hname, hdir⟩
  rcases addNode_cases v path hk mode fun hfree r hres => (hproper hfree r hres).2
    with hsame | hsame | ⟨r, hfree, hres, hatt⟩
  · rw [hsame]
    exact h
  · rw [hsame]
    exact hmk
  rw [hatt]
  obtain ⟨hname, hdir⟩ := hproper hfree r hres
  generalize (v.mkdirP (parentPath path)).2 = w at *
  have hpush : Wf (w.push ⟨kind, mode, newLinks kind, 0, r.parent⟩) :=
    hmk.push hk (lt_of_isDir hdir)
  have hnew : Wf ((w.push ⟨kind, mode, newLinks kind, 0, r.parent⟩).setEntry r.parent
      r.name w.nodes.length) := hmk.attachNew hk hdir hname two_le_newLinks
  rw [attached]
  -- what the name pointed to before loses the link
  refine ⟨hpush.dropDisplaced hnew.toCore fun {d} hd => ⟨?_, ?_⟩, fun {d q m} hd hq => ?_⟩
  · rw [entry_push hk]
    exact hd
  · rintro rfl
    exact Nat.lt_irrefl _ (hmk.entry_lt hd)
  rw [isDir_congr (dropDisplaced_frame _ d).2] at hd
  rw [entry_congr (dropDisplaced_frame _ q).2] at hq
  rw [(dropDisplaced_frame _ d).1]
  exact hnew.in_parent hd hq

/-- **`rename`** to a proper name that does not lie below what is moved. -/
lemma rename {oldParent : ℕ} {oldName : Bytes} {newParent : ℕ} {newName : Bytes}
    (hsafe : ∀ node, v.entry oldParent oldName = some node → ProperName newName ∧
      ¬ ReflTransGen v.Edge node newParent) :
    Wf (v.rename oldParent oldName newParent newName).2 := by
  rcases rename_cases v oldParent oldName newParent newName with hsame | ⟨node, he, hnew, -, hmoved⟩
  · rw [hsame]
    exact h
  rw [hmoved, renamed]
  have hold := isDir_of_entry he
  obtain ⟨hproper, hbelow⟩ := hsafe node he
  have hw : Wf (v.eraseEntry oldParent oldName) := h.eraseEntry hold
  have hframe := @eraseEntry_frame v oldParent oldName hold
  have hnode : node < (v.eraseEntry oldParent oldName).nodes.length := by
    simpa using h.entry_lt he
  have hunnamed := fun hd => h.unnamed_of_eraseEntry he (d := node) hd
  rw [← (hframe node).2.2] at hunnamed
  have hlinks : v.isDir node → 2 ≤ (v.node node).nlink := fun hd => h.links hd he
  rw [← (hframe node).2.2, ← (hframe node).2.1] at hlinks
  -- without the old entry there are only fewer ways down
  have hleaves : ¬ ReflTransGen (v.eraseEntry oldParent oldName).Edge node newParent := by
    refine fun hr => hbelow (hr.lift id ?_)
    rintro a b ⟨m, hm⟩
    rw [entry_eraseEntry hold] at hm
    split at hm
    · exact absurd hm (by simp)
    · exact ⟨m, hm⟩
  rw [← (hframe newParent).2.2] at hnew
  -- from here on only the tree without the old entry matters
  generalize v.eraseEntry oldParent oldName = w at *
  have hcore : Core (w.setEntry newParent newName node) := by
    refine hw.toCore.setEntry hnew hproper hnode ?_ (fun hd => ⟨hlinks hd, hunnamed hd⟩) hleaves
    rintro rfl
    exact h.root_unnamed _ _ he
  have hdrop : Core ((w.setEntry newParent newName node).dropDisplaced
      ((w.entry newParent newName).filter (· ≠ node))) :=
    hw.dropDisplaced hcore fun hd => by
      rw [filter_eq_some_iff] at hd
      exact ⟨hd.1, by simpa using hd.2⟩
  refine ⟨hdrop.setParent (by simpa using hnode) (by simpa using lt_of_isDir hnew), ?_⟩
  intro d q m hd hq
  rw [isDir_setParent, isDir_congr (dropDisplaced_frame _ d).2,
    (setEntry_frame hnew d).2.2] at hd
  rw [entry_setParent, entry_congr (dropDisplaced_frame _ q).2, entry_setEntry hnew] at hq
  rw [parent_setParent _ _ (by simpa using hnode)]
  split at hq
  · next hqm => rw [if_pos (some.inj hq).symm, hqm.1]
  have hdn : d ≠ node := by
    rintro rfl
    exact hunnamed hd q m hq
  rw [if_neg hdn, (dropDisplaced_frame _ d).1, (setEntry_frame hnew d).1]
  exact hw.in_parent hd hq

/-- An update that leaves the entries, the directories and the links in place. -/
lemma congr {w : Vfs} (hlen : w.nodes.length = v.nodes.length)
    (he : ∀ q m, w.entry q m = v.entry q m)
    (hframe : ∀ j, (w.node j).parent = (v.node j).parent ∧ (w.node j).nlink = (v.node j).nlink ∧
      w.isDir j = v.isDir j)
    (hu : ∀ i ∈ w.unlinked, i ∈ v.unlinked) : Wf w := by
  refine ⟨h.toCore.congr hlen he (fun j => (hframe j).2.2) ?_ ?_ fun i hi =>
    h.unlinked_file i (hu i hi), ?_⟩
  · intro j hj
    rw [(hframe j).1]
    exact h.parent_lt j hj
  · intro d p name hd hc
    rw [(hframe d).2.1]
    exact h.links hd hc
  intro d p name hd hc
  rw [(hframe d).2.2] at hd
  rw [he] at hc
  rw [(hframe d).1]
  exact h.in_parent hd hc

/-- Writing the contents of a node that is not a directory. -/
lemma setFile {i : ℕ} (hfile : v.isDir i = false) (data : Bytes) :
    Wf (v.setKind i (.file data)) :=
  h.congr (by simp [setKind]) (entry_setFile hfile data) (setKind_frame (.file data) hfile.symm)
    fun _ => id

/-- Reclaiming frees contents of nodes that are not directories. -/
lemma releaseUnreferenced (referenced : List ℕ) :
    Wf (v.releaseUnreferenced referenced) := by
  have hfiles : ∀ i ∈ v.unlinked, v.isDir i = false := fun i hi => (h.unlinked_file i hi).2
  refine h.congr (length_releaseUnreferenced referenced)
    (entry_releaseUnreferenced hfiles referenced) (releaseUnreferenced_frame hfiles referenced) ?_
  exact fun i hi => (mem_filter.mp hi).1

lemma truncate (node : ℕ) : Wf (v.truncate node) := by
  rw [Vfs.truncate]
  split
  · next hk => exact h.setFile (by rw [isDir, hk]; rfl) []
  · next hk => exact h.setFile (by rw [isDir, hk]; rfl) []
  · exact h

end Wf

end Vfs

end WebTos
