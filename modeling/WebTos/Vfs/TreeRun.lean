import WebTos.Lib.Run
import WebTos.Vfs.TreeOps

/-!
The tree of directories over whole runs of the filesystem's calls, and the
absolute path of a directory.

* `absPathOf`: the path rebuilt by climbing the parent links (`abs_path_of`),
  with the number of climbs made explicit;
* `IsTree`: the directories reached by entries form a tree rooted at `ROOT`;
  `TreeInvariant` adds that the absolute path of each of them resolves back;
* `FsCall.Safe`: the calls that keep it.  A `rename` must not move a directory
  below itself nor give the entry the name `.` (a new path that ends in `..` or
  has no components resolves to that name); a host's `add_node` must not do the
  latter either;
* `tree_of_safe_run`: in every state a run of safe calls reaches, the directories
  form a tree, and the absolute path of each that lies at most 256 levels deep
  resolves back to it;
* `rename_into_itself_is_no_tree`: a `rename` of a directory below itself ends
  the tree.
-/

namespace WebTos

open Relation Lib List FsCall

namespace Vfs

variable {v : Vfs}

/-! ### The absolute path of a node -/

/-- The name the directory `p` first finds for the node `i`. -/
def nameIn (v : Vfs) (p i : ℕ) : Option Bytes :=
  match (v.node p).kind with
  | .dir entries => (entries.toList.find? fun e => e.2 == i).map (·.1)
  | _ => none

/-- The climbing loop of `abs_path_of`.  The segments are kept in path order, so
a new one goes in front.  The source has no bound on the climbs: `none` is a
climb longer than the fuel. -/
def climb (v : Vfs) : ℕ → ℕ → List Bytes → Option (List Bytes)
  | 0, current, segments =>
    if current = ROOT ∨ 256 ≤ segments.length then some segments else none
  | fuel + 1, current, segments =>
    if current = ROOT ∨ 256 ≤ segments.length then some segments
    else
      let parent := (v.node current).parent
      match v.nameIn parent current with
      | some name => v.climb fuel parent (name :: segments)
      | none => v.climb fuel parent segments

/-- The segments written out as a path. -/
def joinSegments (segments : List Bytes) : Bytes := segments.flatMap fun s => slash :: s

/-- Reconstructs an absolute path for `node` by climbing parent links
(`abs_path_of`). -/
def absPathOf (v : Vfs) (fuel node : ℕ) : Option Bytes :=
  if node = ROOT then some [slash]
  else
    (v.climb fuel node []).map fun segments =>
      let path := joinSegments segments
      if path.isEmpty then [slash] else path

/-- The names met on the way down from one directory to another. -/
inductive Trail (v : Vfs) : ℕ → List Bytes → ℕ → Prop where
  | here (i : ℕ) : Trail v i [] i
  | down {i next d : ℕ} {name : Bytes} {names : List Bytes} :
      v.entry i name = some next → v.isDir next = true → Trail v next names d →
      Trail v i (name :: names) d

variable {names : List Bytes} {name : Bytes} {d i p : ℕ}

lemma Trail.snoc (h : v.Trail i names p) (he : v.entry p name = some d) (hd : v.isDir d) :
    v.Trail i (names ++ [name]) d := by
  induction h with
  | here i => exact .down he hd (.here d)
  | down he' hd' _ ih => exact .down he' hd' (ih he)

lemma Wf.nameIn_eq (h : Wf v) (he : v.entry p name = some d) (hd : v.isDir d)
    : v.nameIn p d = some name := by
  obtain ⟨entries, hk⟩ := exists_dir_of_isDir (isDir_of_entry he)
  have hentry : ∀ m c, v.entry p m = some c ↔ (m, c) ∈ entries.toList := by
    intro m c
    rw [entry, hk]
    exact Std.TreeMap.mem_toList_iff_getElem?_eq_some.symm
  rw [nameIn, hk]
  dsimp only
  cases hf : entries.toList.find? fun e => e.2 == d with
  | none =>
    have hall := List.find?_eq_none.mp hf (name, d) ((hentry name d).mp he)
    simp at hall
  | some e =>
    obtain ⟨m, c⟩ := e
    have hc : c = d := by simpa using List.find?_some hf
    subst hc
    have hm := (hentry m c).mpr (List.mem_of_find?_eq_some hf)
    rw [Option.map_some, (h.unique hd he hm).2]

/-- **The climb** from a directory `k` levels deep collects the `k` names of the
way down to it, as long as they fit the limit of 256. -/
lemma Wf.climb_eq (h : Wf v) {k : ℕ} (hdepth : DepthFrom v.Edge ROOT k d) (hd : v.isDir d) :
    ∃ names, names.length = k ∧ v.Trail ROOT names d ∧ (∀ name ∈ names, ProperName name) ∧
      ∀ fuel segments, k ≤ fuel → k + segments.length ≤ 256 →
        v.climb fuel d segments = some (names ++ segments) := by
  induction hdepth with
  | root =>
    refine ⟨[], rfl, .here ROOT, by simp, fun fuel segments _ _ => ?_⟩
    cases fuel <;> rw [climb, if_pos (.inl rfl), nil_append]
  | @child k p c _ hedge ih =>
    obtain ⟨name, he⟩ := hedge
    obtain ⟨names, hlen, htrail, hproper, hclimb⟩ := ih (isDir_of_entry he)
    refine ⟨names ++ [name], by simp [hlen], htrail.snoc he hd, ?_, ?_⟩
    · intro m hm
      rcases mem_append.mp hm with hm | hm
      · exact hproper m hm
      · exact mem_singleton.mp hm ▸ h.proper he
    intro fuel segments hfuel hfit
    have hroot : c ≠ ROOT := fun hc => h.root_unnamed p name (hc ▸ he)
    obtain ⟨fuel, rfl⟩ : ∃ f, fuel = f + 1 := ⟨fuel - 1, by omega⟩
    rw [climb, if_neg (by rintro (hc | hc); exacts [hroot hc, by omega])]
    dsimp only
    rw [h.in_parent hd he, h.nameIn_eq he hd]
    dsimp only
    rw [hclimb fuel (name :: segments) (by omega) (by rw [length_cons]; omega)]
    simp

lemma joinSegments_eq (hne : names ≠ []) :
    joinSegments names = [slash].intercalate ([] :: names) := by
  induction names with
  | nil => exact absurd rfl hne
  | cons name names ih =>
    cases names with
    | nil => simp [joinSegments, List.intercalate]
    | cons =>
      have hrest := ih (by simp)
      simp only [joinSegments, List.intercalate] at hrest ⊢
      rw [flatMap_cons, hrest]
      simp

lemma components_joinSegments (h : ∀ name ∈ names, ProperName name) :
    components (joinSegments names) = names := by
  rcases eq_or_ne names [] with rfl | hne
  · rfl
  have hslash : ∀ name ∈ [] :: names, slash ∉ name := by
    intro name hname
    rcases mem_cons.mp hname with rfl | hname
    · simp
    · exact (h name hname).no_slash
  rw [components, joinSegments_eq hne, splitOn_intercalate _ hslash (by simp),
    filter_cons_of_neg (by simp), filter_eq_self]
  intro name hname
  simp [(h name hname).ne_nil, (h name hname).ne_dot]

lemma walk_trail {follow : ℕ → Bytes → SysResult Resolved} {followLast : Bool}
    (h : v.Trail i names d) (hi : v.isDir i) (hproper : ∀ name ∈ names, ProperName name) :
    ∃ r, v.walk follow followLast i names = .ok r ∧ r.node = some d := by
  induction h with
  | here i => exact ⟨v.resolvedSelf i, rfl, rfl⟩
  | @down i next d name names he hnext htrail ih =>
    have hname := (hproper name mem_cons_self).ne_dotdot
    obtain ⟨entries, hk⟩ := exists_dir_of_isDir hnext
    cases htrail with
    | here _ =>
      refine ⟨⟨i, name, some next⟩, ?_, rfl⟩
      rw [walk, if_neg hname, if_neg (by simpa using hi), he]
      simp only [hk]
    | down =>
      obtain ⟨r, hr, hnode⟩ := ih hnext fun m hm => hproper m (mem_cons_of_mem _ hm)
      refine ⟨r, ?_, hnode⟩
      rw [walk, if_neg hname, if_neg (by simpa using hi), he]
      · simp only [hk]
        exact hr
      · simp

/-- The absolute path of the directory `d`, however many climbs are allowed past
some number, resolves back to `d`. -/
def PathResolves (v : Vfs) (d : ℕ) : Prop :=
  ∃ climbs, ∀ fuel ≥ climbs, ∃ path, v.absPathOf fuel d = some path ∧
    ∀ followLast, ∃ r, v.resolve ROOT path followLast = .ok r ∧ r.node = some d

/-- **The absolute path** of a directory at most 256 levels deep resolves back. -/
theorem Wf.pathResolves (h : Wf v) {k : ℕ} (hdepth : DepthFrom v.Edge ROOT k d) (hk : k ≤ 256)
    (hd : v.isDir d) : v.PathResolves d := by
  refine ⟨k, fun fuel hfuel => ?_⟩
  by_cases hroot : d = ROOT
  · subst hroot
    refine ⟨[slash], by rw [absPathOf, if_pos rfl], fun followLast => ?_⟩
    exact ⟨v.resolvedSelf ROOT, rfl, rfl⟩
  obtain ⟨names, hlen, htrail, hproper, hclimb⟩ := h.climb_eq hdepth hd
  have hne : names ≠ [] := by
    rintro rfl
    cases htrail
    exact hroot rfl
  have hjoin : joinSegments names ≠ [] := by
    obtain ⟨name, rest, rfl⟩ := exists_cons_of_ne_nil hne
    simp [joinSegments]
  refine ⟨joinSegments names, ?_, fun followLast => ?_⟩
  · rw [absPathOf, if_neg hroot, hclimb fuel [] hfuel (by simpa using hk), append_nil,
      Option.map_some]
    simp [hjoin]
  have hhead : walkStart ROOT (joinSegments names) = ROOT := by rw [walkStart, ite_self]
  rw [resolve, if_neg (by simpa using hjoin), resolveDepth, hhead,
    components_joinSegments hproper]
  exact walk_trail htrail h.root_dir hproper

/-! ### The tree -/

/-- **The directories reached by entries form a tree rooted at `ROOT`**: each is
named by exactly one entry, which lies in the directory its parent field points
to; no directory is its own ancestor; and every entry has a proper name. -/
structure IsTree (v : Vfs) : Prop where
  named_once : ∀ d, v.Live d → d ≠ ROOT → v.isDir d = true →
    ∃! e : ℕ × Bytes, v.entry e.1 e.2 = some d
  in_parent : ∀ d p name, v.Live d → d ≠ ROOT → v.isDir d = true →
    v.entry p name = some d → (v.node d).parent = p
  acyclic : ∀ d, v.isDir d = true → ¬ TransGen v.Edge d d
  proper : ∀ p name c, v.entry p name = some c → ProperName name

/-- The tree, with absolute paths that resolve back at every depth. -/
def TreeInvariant (v : Vfs) : Prop :=
  v.IsTree ∧ ∀ d, v.Live d → v.isDir d = true → v.PathResolves d

lemma Wf.isTree (h : Wf v) : v.IsTree where
  named_once := fun d hlive hroot hd => by
    obtain ⟨p, -, name, he⟩ : ∃ p, ReflTransGen v.Edge ROOT p ∧ v.Edge p d := by
      rcases hlive.cases_tail with hc | hc
      · exact absurd hc hroot
      · exact hc
    refine ⟨(p, name), he, fun e he' => ?_⟩
    obtain ⟨hp, hname⟩ := h.unique hd he he'
    exact Prod.ext hp hname
  in_parent := fun _ _ _ _ _ hd he => h.in_parent hd he
  acyclic := fun d _ => h.acyclic d
  proper := fun _ _ _ he => h.proper he

lemma bare_entry (p : ℕ) (name : Bytes) : bare.entry p name = none := by
  cases p with
  | zero => exact Std.TreeMap.getElem?_emptyc
  | succ p => rfl

/-- The root directory alone. -/
lemma wf_bare : Wf bare where
  root_dir := rfl
  parent_lt := fun i hi => by
    have : i = 0 := by simpa [bare] using hi
    subst this
    exact hi
  entry_lt := fun he => by rw [bare_entry] at he; exact absurd he (by simp)
  root_unnamed := fun p name => by rw [bare_entry]; simp
  unique := fun _ he => by rw [bare_entry] at he; exact absurd he (by simp)
  acyclic := fun x hx => by
    obtain ⟨y, ⟨name, he⟩, -⟩ := TransGen.head'_iff.mp hx
    rw [bare_entry] at he
    exact absurd he (by simp)
  proper := fun he => by rw [bare_entry] at he; exact absurd he (by simp)
  links := fun _ he => by rw [bare_entry] at he; exact absurd he (by simp)
  unlinked_file := fun i hi => absurd hi (by simp [bare])
  in_parent := fun _ he => by rw [bare_entry] at he; exact absurd he (by simp)

/-- A fresh filesystem. -/
lemma wf_new : Wf new := by
  have hends : ∀ d ∈ skeletonDevs, endsInName d.1 := by decide +kernel
  rw [new]
  refine foldlRecOn (motive := Wf) _ _ (foldlRecOn (motive := Wf) _ _ wf_bare ?_) ?_
  · exact fun v hv path _ => hv.mkdirP path
  · exact fun v hv d hd => hv.addNode _ (.inl (hends d hd)) (by simp)

end Vfs

/-! ### Runs of calls -/

/-- The calls that keep the tree.  A `rename` whose source is there must end in
a name and must not hang what it moves below itself; a host's `add_node` must end
in a name, unless it is refused because a directory is already there, and a
directory it adds must be empty. -/
def FsCall.Safe (v : Vfs) : FsCall → Prop
  | .rename oldBase oldPath newBase newPath _ =>
    ∀ old new node, v.resolve oldBase oldPath false = .ok old →
      v.resolve newBase newPath false = .ok new → v.entry old.parent old.name = some node →
      new.name ≠ dot ∧ ¬ ReflTransGen v.Edge node new.parent
  | .addNode path kind _ =>
    (Vfs.endsInName path = true ∨
      (kind.isDir = false ∧ v.occupiedByADirectory path = true)) ∧
    ∀ entries, kind = .dir entries → entries = ∅
  | _ => True

open Vfs in
/-- **What a call can do**: nothing, or one operation at the paths it resolved, and
after a removal the contents no descriptor refers to may go.  A property that
survives these survives the call. -/
lemma FsCall.exec_rule {P : Vfs → Prop} {v : Vfs} {call : FsCall} (hb : Bounded v) (h : P v)
    (hcreate : ∀ r kind mode, v.ResolvedOk r → ¬ r.node.isSome →
      (∀ entries, kind = NodeKind.dir entries → entries = ∅) →
      P (v.create r.parent r.name kind mode).2)
    (htruncate : ∀ node, P (v.truncate node))
    (hlink : ∀ oldBase oldPath old new node, v.isDir oldBase →
      v.resolve oldBase oldPath true = .ok old → old.node = some node → v.isDir node = false →
      v.ResolvedOk new → ¬ new.node.isSome → P (v.link new.parent new.name node).2)
    (hunlink : ∀ base path rmdir referenced r, call = .unlink base path rmdir referenced →
      v.resolveAt base path false = .ok r → P (v.unlink r.parent r.name rmdir).2)
    (hrename : ∀ oldBase oldPath newBase newPath referenced old new,
      call = .rename oldBase oldPath newBase newPath referenced →
      v.resolve oldBase oldPath false = .ok old → v.resolve newBase newPath false = .ok new →
      v.ResolvedOk new → P (v.rename old.parent old.name new.parent new.name).2)
    (hrelease : ∀ w referenced, P w → P (w.releaseUnreferenced referenced))
    (haddNode : ∀ path kind mode, call = .addNode path kind mode →
      P (v.addNode path kind mode).2)
    (hmkdirP : ∀ path, P (v.mkdirP path).2) : P (call.exec v) := by
  cases call with
  | mkdir base path =>
    -- one path is resolved, and the node is made where nothing is yet
    rw [exec, sysMkdirat]
    cases hr : v.resolveAt base path true with
    | error e => exact h
    | ok r =>
      dsimp only
      split_ifs with hnode
      · exact h
      · exact hcreate _ _ _ (hb.resolveAt_ok hr) hnode eq_empty_of_dir_empty
  | openat base path flags =>
    rw [exec, sysOpenat]
    cases hr : v.resolveAt base path (!flags.nofollow) with
    | error e => exact h
    | ok r =>
      dsimp only
      -- what is there is opened, and only `O_TRUNC` changes it; what is not there is created
      cases hnode : r.node with
      | some node =>
        dsimp only
        split_ifs
        · exact h
        · exact htruncate node
        · exact h
      | none =>
        dsimp only
        split_ifs
        · exact h
        · exact hcreate _ _ _ (hb.resolveAt_ok hr) (by simp [hnode]) (by simp)
  | link oldBase oldPath newBase newPath =>
    rw [exec, sysLinkat]
    split_ifs with hbases
    · exact h
    have hbases : v.isDir oldBase ∧ v.isDir newBase := by simpa using hbases
    -- both paths are resolved, and a directory gets no second name
    cases hold : v.resolve oldBase oldPath true with
    | error e => exact h
    | ok old =>
      dsimp only
      cases hnode : old.node with
      | none => exact h
      | some =>
        dsimp only
        split_ifs with hdir
        · exact h
        cases hnew : v.resolve newBase newPath false with
        | error e => exact h
        | ok new =>
          dsimp only
          split_ifs with hsome
          · exact h
          · exact hlink _ _ _ _ _ hbases.1 hold hnode (by simpa using hdir)
              (hb.resolve_ok (lt_of_isDir hbases.2) hnew) hsome
  | symlink _ base path =>
    rw [exec, sysSymlinkat]
    cases hr : v.resolveAt base path false with
    | error e => exact h
    | ok r =>
      dsimp only
      split_ifs with hnode
      · exact h
      · exact hcreate _ _ _ (hb.resolveAt_ok hr) hnode (by simp)
  | unlink base path rmdir referenced =>
    rw [exec, sysUnlinkat]
    cases hr : v.resolveAt base path false with
    | error e => exact h
    | ok r =>
      -- the contents are released only if the name was removed
      have hun := hunlink base path rmdir referenced r rfl hr
      dsimp only
      split
      · next e w hw => rw [hw] at hun; exact hun
      · next w hw => rw [hw] at hun; exact hrelease w referenced hun
  | rename oldBase oldPath newBase newPath referenced =>
    rw [exec, sysRenameat]
    split_ifs with hbases
    · exact h
    have hbases : v.isDir oldBase ∧ v.isDir newBase := by simpa using hbases
    cases hold : v.resolve oldBase oldPath false with
    | error e => exact h
    | ok old =>
      cases hnew : v.resolve newBase newPath false with
      | error e => exact h
      | ok new =>
        -- what the new name had may be released, if the move was made
        have hre := hrename oldBase oldPath newBase newPath referenced old new rfl hold hnew
          (hb.resolve_ok (lt_of_isDir hbases.2) hnew)
        dsimp only
        split
        · next e w hw => rw [hw] at hre; exact hre
        · next w hw => rw [hw] at hre; exact hrelease w referenced hre
  | addNode path kind mode => exact haddNode path kind mode rfl
  | mkdirP path => exact hmkdirP path

open Vfs in
lemma FsCall.Safe.exec {v : Vfs} {call : FsCall} (hsafe : call.Safe v) (h : Wf v) :
    Wf (call.exec v) := by
  refine exec_rule (P := Wf) h.bounded h ?_ ?_ ?_ ?_ ?_ ?_ ?_ ?_
  · exact fun r kind mode hr hnode hk => h.create hr hnode hk mode
  · exact h.truncate
  · intro oldBase oldPath old new node hbase hold hnode hfile hr hnone
    have hlt := (h.bounded.resolve_ok (lt_of_isDir hbase) hold).node_lt hnode
    exact h.link hr hnone hlt hfile
  · exact fun base path rmdir referenced r _ _ => h.unlink r.parent r.name rmdir
  · rintro oldBase oldPath newBase newPath referenced old new rfl hold hnew hgood
    refine h.rename fun node he => ?_
    obtain ⟨hname, hbelow⟩ := hsafe old new node hold hnew he
    rcases hgood.shape with hdot | hproper
    · exact absurd hdot.1 hname
    · exact ⟨hproper.1, hbelow⟩
  · exact fun w referenced hw => hw.releaseUnreferenced referenced
  · rintro path kind mode rfl
    exact h.addNode mode hsafe.1 hsafe.2
  · exact h.mkdirP

/-- The calls `mkdir /a` and `rename /a /a/b`. -/
def renameIntoItself : List FsCall :=
  [.mkdir ROOT (ascii "/a") 0o755, .rename ROOT (ascii "/a") ROOT (ascii "/a/b") []]

/-- A directory moved below itself is its own ancestor, and no tree is left. -/
theorem rename_into_itself_is_no_tree :
    ¬ (run exec Vfs.new renameIntoItself).TreeInvariant := by
  have hentry : (run exec Vfs.new renameIntoItself).entry 15 (ascii "b") = some 15 := by
    decide +kernel
  exact fun h => h.1.acyclic 15 (Vfs.isDir_of_entry hentry) (.single ⟨_, hentry⟩)

/-- **The tree over runs**: after any run of calls from a fresh filesystem, each
of them safe where it is made, the directories form a tree, and the absolute path
of every live directory at most 256 levels deep resolves back to it. -/
theorem tree_of_safe_run (calls : List FsCall)
    (h : Guarded exec (fun v call => call.Safe v) Vfs.new calls) :
    let v := run exec Vfs.new calls
    v.IsTree ∧ ∀ d k, DepthFrom v.Edge ROOT k d → k ≤ 256 → v.isDir d = true →
      v.PathResolves d := by
  have hwf : Vfs.Wf (run exec Vfs.new calls) :=
    Guarded.invariant (fun _ _ hv hsafe => FsCall.Safe.exec hsafe hv) Vfs.wf_new h
  exact ⟨hwf.isTree, fun d k hdepth hk hd => hwf.pathResolves hdepth hk hd⟩

/-- `mkdir /a` and `rename /a /b` is a safe run. -/
theorem tree_of_safe_run_rename :
    let calls : List FsCall :=
      [.mkdir ROOT (ascii "/a") 0o755, .rename ROOT (ascii "/a") ROOT (ascii "/b") []]
    let v := run exec Vfs.new calls
    Guarded exec (fun v call => call.Safe v) Vfs.new calls ∧
      v.IsTree ∧ ∀ d k, DepthFrom v.Edge ROOT k d → k ≤ 256 → v.isDir d = true →
        v.PathResolves d := by
  intro calls v
  have hsafe : Guarded exec (fun v call => call.Safe v) Vfs.new calls := by
    refine ⟨trivial, ?_, trivial⟩
    intro old new node hold hnew hnode
    have hold' : Except.ok old = Except.ok ⟨0, ascii "a", some 15⟩ :=
      hold.symm.trans (by decide +kernel)
    have hnew' : Except.ok new = Except.ok ⟨0, ascii "b", none⟩ :=
      hnew.symm.trans (by decide +kernel)
    cases hold'
    cases hnew'
    have hnode' : some node = some 15 := hnode.symm.trans (by decide +kernel)
    cases hnode'
    refine ⟨by decide, fun hbelow => ?_⟩
    refine absurd (eq_of_reflTransGen_of_leaf ?_ hbelow) (by decide)
    rintro x ⟨name, hx⟩
    rw [Vfs.entry_of_empty (by decide +kernel)] at hx
    exact absurd hx (by simp)
  exact ⟨hsafe, tree_of_safe_run calls hsafe⟩

-- a `rename` onto a path that ends in `..` makes an entry named `.`
example : (run exec Vfs.new [.mkdir ROOT (ascii "/a") 0o755,
    .rename ROOT (ascii "/a") ROOT (ascii "/tmp/..") []]).entry ROOT dot = some 15 := by
  decide +kernel

end WebTos
