import WebTos.Abi

/-!
The in-memory filesystem of `vfs.rs`: the node arena, and path resolution.

Nodes live in an arena and are named by their index, so a directory is a map
from names to indices and every node carries the index of its parent.  A
directory's `BTreeMap` is a `Std.TreeMap` over byte strings, which iterates in
the same order.

* `Vfs.entry`: the node a directory holds under a name, the only thing the
  rest of the development reads of a directory;
* `Vfs.readChunkedRange`: a range of a chunked file, from the chunks that are resident;
* `components`, `Vfs.walk`, `Vfs.resolve`: the path walker, with `..`, symbolic
  links in the middle and at the end of a path, and its depth limit.

Left out of a node's data are the allocator's spare capacity (a buffer is as
long as its contents) and the resident chunk payloads' own bookkeeping.
-/

namespace WebTos

/-- SHA-256 digests, which name chunks. -/
abbrev Hash := Bytes

/-- The character devices (`Dev`). -/
inductive Dev where
  | null | zero | tty | random | ptmx
  deriving DecidableEq, Repr

/-- The immutable layout of a chunked file (`ChunkedFile`). -/
structure ChunkedFile where
  size : ℕ
  chunkSize : ℕ
  chunks : List Hash
  deriving DecidableEq, Repr

/-- What a node is (`NodeKind`). -/
inductive NodeKind where
  | dir (entries : Std.TreeMap Bytes ℕ)
  | file (data : Bytes)
  | chunkedFile (file : ChunkedFile)
  | symlink (target : Bytes)
  | charDev (dev : Dev)

/-- `matches!(kind, NodeKind::Dir(_))`. -/
def NodeKind.isDir : NodeKind → Bool
  | .dir _ => true
  | _ => false

/-- The bytes a node's contents occupy (`data_len`). -/
def NodeKind.dataLen : NodeKind → ℕ
  | .file data => data.length
  | .symlink target => target.length
  | .dir _ | .chunkedFile _ | .charDev _ => 0

/-- A filesystem node (`Node`). -/
structure Node where
  kind : NodeKind
  mode : ℕ
  nlink : ℕ
  mtimeSec : ℤ
  parent : ℕ

/-- The filesystem (`Vfs`). -/
structure Vfs where
  nodes : List Node
  /-- The verified resident chunks (`ChunkStore`). -/
  chunks : Std.TreeMap Hash Bytes
  manifestRoot : Option Hash
  storageBudget : Option ℕ
  /-- Nodes whose last directory entry is gone. -/
  unlinked : List ℕ

/-- The index of the root directory. -/
def ROOT : ℕ := 0

/-- The byte `'/'`. -/
def slash : UInt8 := 47

/-- The name `.`. -/
def dot : Bytes := [46]

/-- The name `..`. -/
def dotdot : Bytes := [46, 46]

/-! ### Reading chunked files -/

/-- A range read of a chunked file (`ReadRange`). -/
inductive ReadRange where
  | ready (bytes : Bytes)
  | missing (hash : Hash)
  | invalid (why : String)
  deriving DecidableEq, Repr

/-- `read_chunked_range` against the chunks that are resident at some moment. -/
abbrev ChunkReader := ChunkedFile → ℕ → ℕ → ReadRange

namespace Vfs

/-- The loop of `read_range` from a chunk on.  A layout with too few chunks panics in the
source; `ChunkedFile::new` makes none. -/
def readChunks (store : Std.TreeMap Hash Bytes) (file : ChunkedFile) (stop : ℕ) :
    List Hash → ℕ → ℕ → Bytes → ReadRange
  | [], _, cursor, out => if stop ≤ cursor then .ready out else .invalid "no such chunk"
  | hash :: rest, index, cursor, out =>
    if stop ≤ cursor then .ready out
    else
      match store[hash]? with
      | none => .missing hash
      | some chunk =>
        let first := index * file.chunkSize
        let expected := min (first + file.chunkSize) file.size - first
        let held := chunk.length
        if held ≠ expected then
          .invalid s!"verified chunk {index} has {held} bytes; manifest layout requires {expected}"
        else
          let part := (chunk.drop (cursor - first)).take (stop - cursor)
          readChunks store file stop rest (index + 1) (cursor + part.length) (out ++ part)

/-- `read_chunked_range`. -/
def readChunkedRange (v : Vfs) : ChunkReader := fun file offset len =>
  let stop := min (satAdd offset len) file.size
  if stop ≤ offset then .ready []
  else
    let index := offset / file.chunkSize
    readChunks v.chunks file stop (file.chunks.drop index) index offset []

/-! ### Path resolution -/

/-- `&self.nodes[index]`.  An index out of range panics in the source; here it
reads a node that is not a directory, and `Wf` keeps every index in range. -/
def node (v : Vfs) (i : ℕ) : Node := v.nodes[i]?.getD ⟨.file [], 0, 0, 0, 0⟩

/-- The node is a directory. -/
def isDir (v : Vfs) (i : ℕ) : Bool := (v.node i).kind.isDir

/-- The node the directory `p` holds under `name`, if any. -/
def entry (v : Vfs) (p : ℕ) (name : Bytes) : Option ℕ :=
  match (v.node p).kind with
  | .dir entries => entries[name]?
  | _ => none

/-- Splits a path into components; `.` and empty segments are dropped, `..` is
kept for the walker. -/
def components (path : Bytes) : List Bytes :=
  (path.splitOn slash).filter fun c => !c.isEmpty && c != dot

end Vfs

/-- A resolved path (`Resolved`): the parent directory, the final component, and
the target if it exists. -/
structure Resolved where
  parent : ℕ
  name : Bytes
  node : Option ℕ
  deriving DecidableEq, Repr

namespace Vfs

/-- The answer for a path that ends at the directory `i` itself (`/`, `.` or a
trailing `..`): it has no name of its own. -/
def resolvedSelf (v : Vfs) (i : ℕ) : Resolved := ⟨(v.node i).parent, dot, some i⟩

/-- The component loop of `resolve_depth`.  `follow start target` resolves the
target of a symbolic link one level deeper.  The empty list is the path with no
components; past it the loop returns on the last component. -/
def walk (v : Vfs) (follow : ℕ → Bytes → SysResult Resolved) (followLast : Bool) :
    ℕ → List Bytes → SysResult Resolved
  | current, [] => .ok (v.resolvedSelf current)
  | current, [c] =>
    if c = dotdot then .ok (v.resolvedSelf (v.node current).parent)
    else if !v.isDir current then .error .ENOTDIR
    else
      match v.entry current c with
      | none => .ok ⟨current, c, none⟩
      | some next =>
        match followLast, (v.node next).kind with
        | true, .symlink target => follow current target
        | _, _ => .ok ⟨current, c, some next⟩
  | current, c :: cs =>
    if c = dotdot then v.walk follow followLast (v.node current).parent cs
    else if !v.isDir current then .error .ENOTDIR
    else
      match v.entry current c with
      | none => .error .ENOENT
      | some next =>
        match (v.node next).kind with
        | .symlink target =>
          match follow current target with
          | .error e => .error e
          | .ok resolved =>
            match resolved.node with
            | none => .error .ENOENT
            | some node =>
              if !v.isDir node then .error .ENOTDIR
              else v.walk follow followLast node cs
        | .dir _ => v.walk follow followLast next cs
        | _ => .error .ENOTDIR

/-- Where a walk starts: an absolute path ignores the given directory. -/
def walkStart (start : ℕ) (path : Bytes) : ℕ :=
  if path.head? = some slash then ROOT else start

/-- `resolve_depth`, with the number of link levels still allowed (`9` at depth
`0`, none past depth `8`). -/
def resolveDepth (v : Vfs) : ℕ → ℕ → Bytes → Bool → SysResult Resolved
  | 0, _, _, _ => .error .ELOOP
  | levels + 1, start, path, followLast =>
    v.walk (fun dir target => v.resolveDepth levels dir target true) followLast
      (walkStart start path) (components path)

/-- Walks `path` from `start`; the empty path names nothing (`resolve`). -/
def resolve (v : Vfs) (start : ℕ) (path : Bytes) (followLast : Bool) : SysResult Resolved :=
  if path.isEmpty then .error .ENOENT else v.resolveDepth 9 start path followLast

end Vfs

end WebTos
