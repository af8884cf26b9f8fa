import WebTos.Vfs.Basic

/-!
The mutating operations of `vfs.rs`, and the guest's and the host's calls that
reach them.

Every operation returns its result together with the filesystem it leaves
behind: several of them change the arena and then fail (`create` allocates
before it looks at the parent, `mkdir_p` keeps the directories it made before
the component it stopped at).

* the arena updates `push`, `setKind`, `setParent`, `setEntry`, `eraseEntry`,
  `dropLink`, which are all any operation does;
* `create`, `link`, `unlink`, `rename`, `mkdirP`, `addNode`,
  `releaseUnreferenced`, `new` of `vfs.rs`;
* `FsCall` and `FsCall.exec`: the system calls over them (`sys_mkdirat`,
  `sys_openat` with `O_CREAT`, `sys_linkat`, `sys_symlinkat`, `sys_unlinkat`,
  `sys_renameat`) with the base directory that `dir_of` gives, and the host's
  `add_node` and `mkdir_p`.
-/

namespace WebTos

namespace Vfs

/-! ### Arena updates -/

/-- `alloc`: the new node's index is the old length of the arena. -/
def push (v : Vfs) (n : Node) : Vfs := { v with nodes := v.nodes ++ [n] }

/-- Changes the node at `i`. -/
def modifyNode (v : Vfs) (i : ℕ) (f : Node → Node) : Vfs :=
  { v with nodes := v.nodes.modify i f }

/-- `self.nodes[i].kind = kind`. -/
def setKind (v : Vfs) (i : ℕ) (kind : NodeKind) : Vfs :=
  v.modifyNode i fun n => { n with kind }

/-- `self.nodes[i].parent = p`. -/
def setParent (v : Vfs) (i p : ℕ) : Vfs := v.modifyNode i fun n => { n with parent := p }

/-- `entries.insert(name, c)` on the directory `p`. -/
def setEntry (v : Vfs) (p : ℕ) (name : Bytes) (c : ℕ) : Vfs :=
  match (v.node p).kind with
  | .dir entries => v.setKind p (.dir (entries.insert name c))
  | _ => v

/-- `entries.remove(name)` on the directory `p`. -/
def eraseEntry (v : Vfs) (p : ℕ) (name : Bytes) : Vfs :=
  match (v.node p).kind with
  | .dir entries => v.setKind p (.dir (entries.erase name))
  | _ => v

/-- A name of `i` is gone: its link count falls, and at zero it waits to be
reclaimed. -/
def dropLink (v : Vfs) (i : ℕ) : Vfs :=
  let nlink := (v.node i).nlink - 1
  let v := v.modifyNode i fun n => { n with nlink }
  if nlink = 0 ∧ i ∉ v.unlinked then { v with unlinked := v.unlinked ++ [i] } else v

/-- The node an `entries.insert` displaced, if any, loses the link it had under
the name. -/
def dropDisplaced (v : Vfs) : Option ℕ → Vfs
  | some d => v.dropLink d
  | none => v

/-! ### The operations of `vfs.rs` -/

/-- The bytes held in file contents, symlink targets and chunks (`bytes`). -/
def bytes (v : Vfs) : ℕ :=
  (v.nodes.map fun n => n.kind.dataLen).sum + (v.chunks.toList.map fun c => c.2.length).sum

/-- Refuses `growth` bytes that would not fit the budget (`reserve`). -/
def reserve (v : Vfs) (growth : ℕ) : SysResult Unit :=
  if growth = 0 then .ok ()
  else
    match v.storageBudget with
    | none => .ok ()
    | some budget => if v.bytes + growth ≤ budget then .ok () else .error .ENOSPC

/-- The link count of a new node. -/
def newLinks (kind : NodeKind) : ℕ := if kind.isDir then 2 else 1

/-- Creates a node under a resolved parent (`create`). -/
def create (v : Vfs) (parent : ℕ) (name : Bytes) (kind : NodeKind) (mode : ℕ) :
    SysResult ℕ × Vfs :=
  if name.isEmpty ∨ name = dot ∨ name = dotdot then (.error .EEXIST, v)
  else
    match v.reserve kind.dataLen with
    | .error e => (.error e, v)
    | .ok () =>
      let node := v.nodes.length
      let v := v.push ⟨kind, mode, newLinks kind, 0, parent⟩
      if !v.isDir parent then (.error .ENOTDIR, v)
      else if (v.entry parent name).isSome then (.error .EEXIST, v)
      else (.ok node, v.setEntry parent name node)

/-- Adds a hard link (`link`). -/
def link (v : Vfs) (parent : ℕ) (name : Bytes) (node : ℕ) : SysResult Unit × Vfs :=
  if !v.isDir parent then (.error .ENOTDIR, v)
  else if (v.entry parent name).isSome then (.error .EEXIST, v)
  else
    (.ok (), (v.setEntry parent name node).modifyNode node
      fun n => { n with nlink := n.nlink + 1 })

/-- A directory with entries. -/
def nonEmptyDir (v : Vfs) (i : ℕ) : Bool :=
  match (v.node i).kind with
  | .dir children => !children.isEmpty
  | _ => false

/-- Removes an entry (`unlink`); `rmdir` selects directory semantics. -/
def unlink (v : Vfs) (parent : ℕ) (name : Bytes) (rmdir : Bool) : SysResult Unit × Vfs :=
  if !v.isDir parent then (.error .ENOTDIR, v)
  else
    match v.entry parent name with
    | none => (.error .ENOENT, v)
    | some node =>
      if v.isDir node ∧ !rmdir then (.error .EISDIR, v)
      else if v.nonEmptyDir node then (.error .ENOTEMPTY, v)
      else if !v.isDir node ∧ rmdir then (.error .ENOTDIR, v)
      else (.ok (), (v.eraseEntry parent name).dropLink node)

/-- Moves an entry, replacing an existing target (`rename`). -/
def rename (v : Vfs) (oldParent : ℕ) (oldName : Bytes) (newParent : ℕ) (newName : Bytes) :
    SysResult Unit × Vfs :=
  if !v.isDir oldParent then (.error .ENOTDIR, v)
  else
    match v.entry oldParent oldName with
    | none => (.error .ENOENT, v)
    | some node =>
      if !v.isDir newParent then (.error .ENOTDIR, v)
      else if (v.entry newParent newName).any v.nonEmptyDir then (.error .ENOTEMPTY, v)
      else
        let v := v.eraseEntry oldParent oldName
        let displaced := v.entry newParent newName
        let v := v.setEntry newParent newName node
        let v := v.dropDisplaced (displaced.filter (· ≠ node))
        (.ok (), v.setParent node newParent)

/-- The loop of `mkdir_p` from the directory `current`. -/
def mkdirFrom (v : Vfs) (current : ℕ) : List Bytes → SysResult ℕ × Vfs
  | [] => (.ok current, v)
  | c :: cs =>
    if c = dotdot then v.mkdirFrom (v.node current).parent cs
    else if !v.isDir current then (.error .ENOTDIR, v)
    else
      match v.entry current c with
      | some next => if !v.isDir next then (.error .ENOTDIR, v) else v.mkdirFrom next cs
      | none =>
        let node := v.nodes.length
        let v := v.push ⟨.dir ∅, 0o755, 2, 0, current⟩
        if !v.isDir current then (.error .ENOTDIR, v)
        else (v.setEntry current c node).mkdirFrom node cs

/-- Creates the directory chain for `path` (`mkdir_p`). -/
def mkdirP (v : Vfs) (path : Bytes) : SysResult ℕ × Vfs := v.mkdirFrom ROOT (components path)

/-- Whether `path` already names a directory (`occupied_by_a_directory`). -/
def occupiedByADirectory (v : Vfs) (path : Bytes) : Bool :=
  match v.resolve ROOT path false with
  | .ok ⟨_, _, some node⟩ => v.isDir node
  | _ => false

/-- The path up to its last `/`, or the empty path. -/
def parentPath (path : Bytes) : Bytes :=
  ((path.reverse.dropWhile (· ≠ slash)).drop 1).reverse

/-- Creates or replaces the node at `path`, creating parents (`add_node`). -/
def addNode (v : Vfs) (path : Bytes) (kind : NodeKind) (mode : ℕ) : SysResult ℕ × Vfs :=
  if !kind.isDir ∧ v.occupiedByADirectory path then (.error .EISDIR, v)
  else
    match v.mkdirP (parentPath path) with
    | (.error e, v) => (.error e, v)
    | (.ok _, v) =>
      match v.resolve ROOT path false with
      | .error e => (.error e, v)
      | .ok resolved =>
        let node := v.nodes.length
        let v := v.push ⟨kind, mode, newLinks kind, 0, resolved.parent⟩
        if !v.isDir resolved.parent then (.error .ENOTDIR, v)
        else
          let displaced := v.entry resolved.parent resolved.name
          let v := v.setEntry resolved.parent resolved.name node
          (.ok node, v.dropDisplaced displaced)

/-- Frees the contents of unlinked nodes no descriptor refers to
(`release_unreferenced`). -/
def releaseUnreferenced (v : Vfs) (referenced : List ℕ) : Vfs :=
  let freed := v.unlinked.filter (· ∉ referenced)
  { freed.foldl (fun v i => v.setKind i (.file [])) v with
    unlinked := v.unlinked.filter (· ∈ referenced) }

/-- The node a path of the host leads to, from the root and through a last link. -/
def hostNode (v : Vfs) (path : Bytes) : Option ℕ :=
  match v.resolve ROOT path true with
  | .ok resolved => resolved.node
  | .error _ => none

/-- `read_file`: the contents of a resident regular file. -/
def readFile (v : Vfs) (path : Bytes) : Option Bytes :=
  match v.hostNode path with
  | none => none
  | some node =>
    match (v.node node).kind with
    | .file data => some data
    | _ => none

/-- The directories every Linux userland expects. -/
def skeletonDirs : List Bytes :=
  ["/bin", "/dev", "/dev/pts", "/etc", "/home", "/tmp", "/usr", "/usr/bin", "/var"].map ascii

/-- The character devices of a fresh filesystem. -/
def skeletonDevs : List (Bytes × Dev) :=
  [(ascii "/dev/null", .null), (ascii "/dev/zero", .zero), (ascii "/dev/tty", .tty),
    (ascii "/dev/urandom", .random), (ascii "/dev/ptmx", .ptmx)]

/-- The arena with the root directory alone. -/
def bare : Vfs := ⟨[⟨.dir ∅, 0o755, 2, 0, ROOT⟩], ∅, none, none, []⟩

/-- A fresh filesystem (`Vfs::new`). -/
def new : Vfs :=
  let v := skeletonDirs.foldl (fun v path => (v.mkdirP path).2) bare
  skeletonDevs.foldl (fun v d => (v.addNode d.1 (.charDev d.2) 0o666).2) v

end Vfs

/-! ### The calls that reach them -/

/-- A name that parses as a `u64`: decimal digits after an optional `+`. -/
def parsesU64 (name : Bytes) : Bool :=
  let digits := if name.head? = some 43 then name.tail else name
  !digits.isEmpty && digits.all (fun b => 48 ≤ b && b ≤ 57)
    && digits.foldl (fun n b => 10 * n + (b.toNat - 48)) 0 < 2 ^ 64

/-- The flags of `open` the filesystem part of `sys_openat` reads.  `truncates`
is `O_TRUNC` on a descriptor opened for writing. -/
structure OpenFlags where
  nofollow : Bool
  creat : Bool
  excl : Bool
  truncates : Bool
  deriving DecidableEq, Repr

/-- A call that may change the tree of names.  A guest call carries the base
directory `dir_of` gave it (the working directory or an open directory), and
the calls that may reclaim contents carry the nodes some descriptor still
refers to. -/
inductive FsCall where
  | mkdir (base : ℕ) (path : Bytes) (mode : ℕ)
  | openat (base : ℕ) (path : Bytes) (flags : OpenFlags) (mode : ℕ)
  | link (oldBase : ℕ) (oldPath : Bytes) (newBase : ℕ) (newPath : Bytes)
  | symlink (target : Bytes) (base : ℕ) (path : Bytes)
  | unlink (base : ℕ) (path : Bytes) (rmdir : Bool) (referenced : List ℕ)
  | rename (oldBase : ℕ) (oldPath : Bytes) (newBase : ℕ) (newPath : Bytes)
      (referenced : List ℕ)
  | addNode (path : Bytes) (kind : NodeKind) (mode : ℕ)
  | mkdirP (path : Bytes)

namespace Vfs

/-- `dir_of` then `resolve`: a descriptor that is not a directory's is refused. -/
def resolveAt (v : Vfs) (base : ℕ) (path : Bytes) (followLast : Bool) : SysResult Resolved :=
  if v.isDir base then v.resolve base path followLast else .error .ENOTDIR

/-- `sys_mkdirat`. -/
def sysMkdirat (v : Vfs) (base : ℕ) (path : Bytes) (mode : ℕ) : SysResult ℕ × Vfs :=
  match v.resolveAt base path true with
  | .error e => (.error e, v)
  | .ok resolved =>
    if resolved.node.isSome then (.error .EEXIST, v)
    else v.create resolved.parent resolved.name (.dir ∅) mode

/-- The missing name is a pseudoterminal slave: a decimal name in `/dev/pts`. -/
def isPtsName (v : Vfs) (resolved : Resolved) : Bool :=
  match v.resolve ROOT (ascii "/dev/pts") true with
  | .ok pts => pts.node = some resolved.parent ∧ parsesU64 resolved.name
  | .error _ => false

/-- `O_TRUNC` discards a regular file's contents. -/
def truncate (v : Vfs) (node : ℕ) : Vfs :=
  match (v.node node).kind with
  | .file _ | .chunkedFile _ => v.setKind node (.file [])
  | _ => v

/-- The filesystem part of `sys_openat`: the node the descriptor will name.  An
open of a pseudoterminal slave leaves the filesystem alone. -/
def sysOpenat (v : Vfs) (base : ℕ) (path : Bytes) (flags : OpenFlags) (mode : ℕ) :
    SysResult ℕ × Vfs :=
  match v.resolveAt base path (!flags.nofollow) with
  | .error e => (.error e, v)
  | .ok resolved =>
    match resolved.node with
    | some node =>
      if flags.creat ∧ flags.excl then (.error .EEXIST, v)
      else (.ok node, if flags.truncates then v.truncate node else v)
    | none =>
      if v.isPtsName resolved ∨ !flags.creat then (.error .ENOENT, v)
      else v.create resolved.parent resolved.name (.file []) mode

/-- `sys_linkat`. -/
def sysLinkat (v : Vfs) (oldBase : ℕ) (oldPath : Bytes) (newBase : ℕ) (newPath : Bytes) :
    SysResult Unit × Vfs :=
  if !v.isDir oldBase ∨ !v.isDir newBase then (.error .ENOTDIR, v)
  else
    match v.resolve oldBase oldPath true with
    | .error e => (.error e, v)
    | .ok old =>
      match old.node with
      | none => (.error .ENOENT, v)
      | some node =>
        if v.isDir node then (.error .EPERM, v)
        else
          match v.resolve newBase newPath false with
          | .error e => (.error e, v)
          | .ok new =>
            if new.node.isSome then (.error .EEXIST, v)
            else v.link new.parent new.name node

/-- `sys_symlinkat`. -/
def sysSymlinkat (v : Vfs) (target : Bytes) (base : ℕ) (path : Bytes) : SysResult ℕ × Vfs :=
  match v.resolveAt base path false with
  | .error e => (.error e, v)
  | .ok resolved =>
    if resolved.node.isSome then (.error .EEXIST, v)
    else v.create resolved.parent resolved.name (.symlink target) 0o777

/-- `sys_unlinkat`: what no descriptor refers to is reclaimed on success. -/
def sysUnlinkat (v : Vfs) (base : ℕ) (path : Bytes) (rmdir : Bool) (referenced : List ℕ) :
    SysResult Unit × Vfs :=
  match v.resolveAt base path false with
  | .error e => (.error e, v)
  | .ok resolved =>
    match v.unlink resolved.parent resolved.name rmdir with
    | (.error e, v) => (.error e, v)
    | (.ok (), v) => (.ok (), v.releaseUnreferenced referenced)

/-- `sys_renameat`. -/
def sysRenameat (v : Vfs) (oldBase : ℕ) (oldPath : Bytes) (newBase : ℕ) (newPath : Bytes)
    (referenced : List ℕ) : SysResult Unit × Vfs :=
  if !v.isDir oldBase ∨ !v.isDir newBase then (.error .ENOTDIR, v)
  else
    match v.resolve oldBase oldPath false with
    | .error e => (.error e, v)
    | .ok old =>
      match v.resolve newBase newPath false with
      | .error e => (.error e, v)
      | .ok new =>
        match v.rename old.parent old.name new.parent new.name with
        | (.error e, v) => (.error e, v)
        | (.ok (), v) => (.ok (), v.releaseUnreferenced referenced)

end Vfs

/-- The filesystem a call leaves behind. -/
def FsCall.exec (v : Vfs) : FsCall → Vfs
  | .mkdir base path mode => (v.sysMkdirat base path mode).2
  | .openat base path flags mode => (v.sysOpenat base path flags mode).2
  | .link oldBase oldPath newBase newPath => (v.sysLinkat oldBase oldPath newBase newPath).2
  | .symlink target base path => (v.sysSymlinkat target base path).2
  | .unlink base path rmdir referenced => (v.sysUnlinkat base path rmdir referenced).2
  | .rename oldBase oldPath newBase newPath referenced =>
    (v.sysRenameat oldBase oldPath newBase newPath referenced).2
  | .addNode path kind mode => (v.addNode path kind mode).2
  | .mkdirP path => (v.mkdirP path).2

end WebTos
