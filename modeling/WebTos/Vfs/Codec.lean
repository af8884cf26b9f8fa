import WebTos.Lib.Wire
import WebTos.Vfs.Basic

/-!
The binary image of the filesystem: `serialize` and `deserialize` of `vfs.rs`.

An image is written from the nodes as they stand on the wire (`WireNode`), where a
directory is the list of its entries in the order of the map; the reader gives such
nodes back, and `deserialize` puts the entries of each directory into a map again.

* `ChunkedFile.new`: the layouts that describe their size exactly;
* `WireNode.write`, `WireImage.write`, `Vfs.serialize`: the writer;
* `readNode`, `readImage`, `Vfs.deserialize`: the reader, with every refusal of the
  source.  The width `w` of a `usize` is 64, or 32 in the browser.
-/

namespace WebTos

open Lib

/-! ### Layouts -/

/-- `ChunkedFile::new`: a layout that describes exactly `size` bytes. -/
def ChunkedFile.new (size chunkSize : ℕ) (chunks : List Hash) : Except String ChunkedFile :=
  if size = 0 then
    if chunks.isEmpty ∧ chunkSize ≠ 0 ∧ 4096 ∣ chunkSize then .ok ⟨size, chunkSize, chunks⟩
    else .error "zero-length chunked file needs no chunks and a page-aligned chunk size"
  else if chunkSize = 0 ∨ ¬ 4096 ∣ chunkSize then
    .error "chunk size must be a nonzero multiple of 4096"
  else
    let expected := size ⌈/⌉ chunkSize
    if expected ≠ chunks.length then
      .error (s!"chunked file of {size} bytes at {chunkSize}-byte chunks needs {expected} " ++
        s!"hashes, got {chunks.length}")
    else .ok ⟨size, chunkSize, chunks⟩

/-- What `ChunkedFile::new` builds has a hash for each chunk. -/
lemma ChunkedFile.new_ok {size chunkSize : ℕ} {chunks : List Hash} {layout : ChunkedFile}
    (h : ChunkedFile.new size chunkSize chunks = .ok layout) :
    layout = ⟨size, chunkSize, chunks⟩ ∧ 0 < chunkSize ∧ chunks.length = size ⌈/⌉ chunkSize := by
  rw [ChunkedFile.new] at h
  dsimp only at h
  split_ifs at h with hzero hok hsize hlen
  · cases h
    subst hzero
    rw [List.isEmpty_iff.mp hok.1, zero_ceilDiv]
    exact ⟨rfl, Nat.pos_of_ne_zero hok.2.1, rfl⟩
  · cases h
    exact ⟨rfl, Nat.pos_of_ne_zero (not_or.mp hsize).1, (not_not.mp hlen).symm⟩

/-- The layout is one that `ChunkedFile::new` builds. -/
def ChunkedFile.Built (file : ChunkedFile) : Prop :=
  ChunkedFile.new file.size file.chunkSize file.chunks = .ok file

/-! ### The wire -/

/-- What a node is on the wire. -/
inductive WireKind where
  | dir (entries : List (Bytes × ℕ))
  | file (data : Bytes)
  | symlink (target : Bytes)
  | charDev (dev : Dev)
  | chunkedFile (layout : ChunkedFile)

/-- A node on the wire. -/
structure WireNode where
  parent : ℕ
  mode : ℕ
  nlink : ℕ
  mtimeSec : ℤ
  kind : WireKind

/-- What an image holds. -/
structure WireImage where
  manifestRoot : Option Hash
  nodes : List WireNode

/-- A directory's map as its entries in order. -/
def NodeKind.wire : NodeKind → WireKind
  | .dir entries => .dir entries.toList
  | .file data => .file data
  | .chunkedFile layout => .chunkedFile layout
  | .symlink target => .symlink target
  | .charDev dev => .charDev dev

/-- The entries put into a map one after another. -/
def WireKind.kind : WireKind → NodeKind
  | .dir entries => .dir (entries.foldl (fun map e => map.insert e.1 e.2) ∅)
  | .file data => .file data
  | .chunkedFile layout => .chunkedFile layout
  | .symlink target => .symlink target
  | .charDev dev => .charDev dev

def Node.wire (n : Node) : WireNode := ⟨n.parent, n.mode, n.nlink, n.mtimeSec, n.kind.wire⟩

def WireNode.node (n : WireNode) : Node := ⟨n.kind.kind, n.mode, n.nlink, n.mtimeSec, n.parent⟩

/-! ### Writing -/

/-- `SNAPSHOT_MAGIC`. -/
def snapshotMagic : Bytes := ascii "WTFS"

/-- `SNAPSHOT_VERSION`. -/
def snapshotVersion : ℕ := 3

/-- The bit pattern of an `i64`. -/
def i64Bits (z : ℤ) : ℕ := (z % 2 ^ 64).toNat

/-- The `i64` of a bit pattern. -/
def i64OfBits (n : ℕ) : ℤ := if n < 2 ^ 63 then n else n - 2 ^ 64

/-- The tag of a device. -/
def Dev.tag : Dev → ℕ
  | .null => 0
  | .zero => 1
  | .tty => 2
  | .random => 3
  | .ptmx => 5

/-- The tag of a kind. -/
def WireKind.tag : WireKind → ℕ
  | .dir _ => 1
  | .file _ => 2
  | .symlink _ => 3
  | .charDev _ => 4
  | .chunkedFile _ => 5

/-- A length of two bytes, the name, and the child. -/
def writeEntry (e : Bytes × ℕ) : Bytes := leBytes 2 e.1.length ++ e.1 ++ leBytes 8 e.2

/-- The size, the chunk size, and the table of hashes. -/
def ChunkedFile.write (file : ChunkedFile) : Bytes :=
  leBytes 8 file.size ++ leBytes 4 file.chunkSize ++ leBytes 8 file.chunks.length ++
    file.chunks.flatten

/-- What follows the tag. -/
def WireKind.writeBody : WireKind → Bytes
  | .dir entries => leBytes 4 entries.length ++ entries.flatMap writeEntry
  | .file data => leBytes 8 data.length ++ data
  | .symlink target => leBytes 2 target.length ++ target
  | .charDev dev => leBytes 1 dev.tag
  | .chunkedFile layout => layout.write

def WireKind.write (kind : WireKind) : Bytes := leBytes 1 kind.tag ++ kind.writeBody

def WireNode.write (n : WireNode) : Bytes :=
  leBytes 8 n.parent ++ leBytes 4 n.mode ++ leBytes 8 n.nlink ++ leBytes 8 (i64Bits n.mtimeSec) ++
    n.kind.write

/-- The manifest root, behind a tag. -/
def writeManifestRoot : Option Hash → Bytes
  | some root => leBytes 1 1 ++ root
  | none => leBytes 1 0

def WireImage.write (image : WireImage) : Bytes :=
  snapshotMagic ++ leBytes 4 snapshotVersion ++ writeManifestRoot image.manifestRoot ++
    leBytes 4 image.nodes.length ++ image.nodes.flatMap WireNode.write

/-- What an image of the filesystem holds. -/
def Vfs.wire (v : Vfs) : WireImage := ⟨v.manifestRoot, v.nodes.map Node.wire⟩

/-- **`serialize`**. -/
def Vfs.serialize (v : Vfs) : Bytes := v.wire.write

/-! ### Reading -/

section Readers

/-- The refusal of bytes that end too early. -/
def truncated : String := "truncated filesystem image"

abbrev ImageReader (α : Type) : Type := Reader String α

/-- `Reader::take`. -/
def readBytes (n : ℕ) : ImageReader Bytes := Reader.take truncated n

/-- `Reader::u8`, `Reader::u16`, `Reader::u32` and `Reader::u64`, for 1, 2, 4 and 8
bytes. -/
def readUint (k : ℕ) : ImageReader ℕ := Reader.uint truncated k

/-- An `i64`. -/
def readI64 : ImageReader ℤ := do
  let bits ← readUint 8
  return i64OfBits bits

/-- A `u64` that must fit a `usize` (`index`). -/
def readIndex (w : ℕ) : ImageReader ℕ := do
  let value ← readUint 8
  Reader.ensure (value < 2 ^ w) "filesystem image too large for this host"
  return value

/-- One entry of a directory in an image of `count` nodes. -/
def readEntry (w count : ℕ) : ImageReader (Bytes × ℕ) := do
  let len ← readUint 2
  let name ← readBytes len
  let child ← readIndex w
  Reader.ensure (child < count) "corrupt filesystem image: bad child index"
  return (name, child)

/-- `as_chunks::<32>`. -/
def hashesOf : ℕ → Bytes → List Hash
  | 0, _ => []
  | n + 1, bytes => bytes.take 32 :: hashesOf n (bytes.drop 32)

def readHashes (n : ℕ) : ImageReader (List Hash) := do
  let hashes ← readBytes (n * 32)
  return hashesOf n hashes

/-- A layout; `checked_mul` refuses a table longer than the host can address. -/
def readChunked (w : ℕ) : ImageReader ChunkedFile := do
  let size ← readUint 8
  let chunkSize ← readUint 4
  let count ← readIndex w
  Reader.ensure (count * 32 < 2 ^ w) "chunk hash table too large"
  let chunks ← readHashes count
  match ChunkedFile.new size chunkSize chunks with
  | .ok file => return file
  | .error e => Reader.fail e

/-- The device of a tag. -/
def devOfTag : ℕ → ImageReader Dev
  | 0 => return .null
  | 1 => return .zero
  | 2 => return .tty
  | 3 => return .random
  | 5 => return .ptmx
  | other => Reader.fail s!"unknown device tag {other}"

def readDev : ImageReader Dev := do
  let tag ← readUint 1
  devOfTag tag

/-- What follows the tag; a chunked file needs version 2. -/
def readBody (w version count tag : ℕ) : ImageReader WireKind :=
  if tag = 1 then do
    let n ← readUint 4
    let entries ← Reader.times (readEntry w count) n
    return .dir entries
  else if tag = 2 then do
    let len ← readIndex w
    let data ← readBytes len
    return .file data
  else if tag = 3 then do
    let len ← readUint 2
    let target ← readBytes len
    return .symlink target
  else if tag = 4 then do
    let dev ← readDev
    return .charDev dev
  else if tag = 5 ∧ 2 ≤ version then do
    let file ← readChunked w
    return .chunkedFile file
  else Reader.fail s!"unknown node tag {tag}"

def readKind (w version count : ℕ) : ImageReader WireKind := do
  let tag ← readUint 1
  readBody w version count tag

/-- One node; its parent is checked last. -/
def readNode (w version count : ℕ) : ImageReader WireNode := do
  let parent ← readIndex w
  let mode ← readUint 4
  let nlink ← readUint 8
  let mtimeSec ← readI64
  let kind ← readKind w version count
  Reader.ensure (parent < count) "corrupt filesystem image: bad parent index"
  return ⟨parent, mode, nlink, mtimeSec, kind⟩

/-- The manifest root behind its tag. -/
def rootOfTag (tag : ℕ) : ImageReader (Option Hash) :=
  if tag = 0 then return none
  else if tag = 1 then do
    let root ← readBytes 32
    return some root
  else Reader.fail "invalid snapshot manifest-root tag"

/-- The manifest root, which images have from version 3 on. -/
def readManifestRoot (version : ℕ) : ImageReader (Option Hash) :=
  if 3 ≤ version then do
    let tag ← readUint 1
    rootOfTag tag
  else return none

/-- The smallest a node can be on the wire. -/
def minNodeBytes : ℕ := 8 + 4 + 8 + 8 + 1

/-- Everything before the nodes: the version, the manifest root, and how many nodes
there are. -/
def readHeader : ImageReader (ℕ × Option Hash × ℕ) := do
  let magic ← readBytes 4
  Reader.ensure (magic = snapshotMagic) "not a filesystem image"
  let version ← readUint 4
  Reader.ensure (1 ≤ version ∧ version ≤ snapshotVersion) "unsupported filesystem image version"
  let root ← readManifestRoot version
  let count ← readUint 4
  Reader.ensure (count ≠ 0 ∧ count ≤ 4000000) "implausible filesystem image"
  return (version, root, count)

/-- The node is a chunked file. -/
def WireKind.isChunked : WireKind → Bool
  | .chunkedFile _ => true
  | _ => false

/-- The whole image; the claimed number of nodes must fit the bytes that are left. -/
def readImage (w : ℕ) : ImageReader WireImage := do
  let (version, root, count) ← readHeader
  let left ← get
  Reader.ensure (min (count * minNodeBytes) (2 ^ w - 1) ≤ left.length)
    (s!"implausible filesystem image: {count} nodes claimed, " ++
      s!"{left.length} bytes to hold them")
  let nodes ← Reader.times (readNode w version count) count
  let rest ← get
  Reader.ensure (rest = []) "filesystem image has trailing bytes"
  Reader.ensure (¬ (root = none ∧ nodes.any fun n => n.kind.isChunked))
    "chunked snapshot has no manifest root"
  return ⟨root, nodes⟩

end Readers

/-- The image read, or why it is refused. -/
def wireImage (w : ℕ) (bytes : Bytes) : Except String WireImage :=
  match readImage w bytes with
  | .ok (image, _) => .ok image
  | .error e => .error e

/-- The filesystem of an image: no chunk is resident, no budget is set, and nothing
waits to be reclaimed. -/
def WireImage.vfs (image : WireImage) : Vfs :=
  ⟨image.nodes.map WireNode.node, ∅, image.manifestRoot, none, []⟩

/-- **`deserialize`**, on a host whose `usize` has `w` bits. -/
def Vfs.deserialize (w : ℕ) (bytes : Bytes) : Except String Vfs :=
  match wireImage w bytes with
  | .ok image => .ok image.vfs
  | .error e => .error e

end WebTos
