import WebTos.Image.ChunkText
import WebTos.Vfs.TreeRun

/-!
The verification of executable images (`lib.rs`, `manifest.rs`, `lazy_elf.rs`):
what the host delivers, what the manifest commits to, and what a start of an image
hands to the ELF loader.

* `Manifest`, `Manifest.check`: the plain manifest, a digest and a size by path;
  `ChunkText.ChunkManifest.file`: the chunk manifest, a layout by path;
* `LinuxEnv`: the parts of the environment the verification reads.  A streaming
  digest is kept as the bytes it has been fed, and `sha256` stands for the digest
  function;
* `LinuxEnv.addFile`, `createFile`, `appendFile`: the host's deliveries;
* `LinuxEnv.verifyImage`, `openImage`: the check, and the lookup that hands the
  image over;
* `LinuxEnv.startImage`, `load`, `execve`: the starts, with every image they hand
  over (`Handed`), also when a later part of the start fails;
* `ImageStep`: one step of the host or of the guest.

What an ELF parser makes of an image is a parameter (`ElfReader`): it refuses the
image, or reads the interpreter it names, if any.
-/

namespace WebTos

/-! ### Manifests -/

/-- What a manifest commits to for one file (`Entry` of `manifest.rs`). -/
structure Commitment where
  digest : Hash
  size : ℕ

/-- The images a host has committed to, by guest path (`Manifest`).  `parse`
refuses a path that is not absolute. -/
structure Manifest where
  entries : Std.TreeMap Bytes Commitment
  absolute : ∀ path ∈ entries, path.head? = some slash

/-- `ChunkManifest::file`. -/
def ChunkText.ChunkManifest.file (m : ChunkText.ChunkManifest) (path : Bytes) :
    Option ChunkedFile :=
  m.entries.findSome? fun entry =>
    if entry.path ≠ path then none
    else
      match entry.kind with
      | .file file _ => some file
      | _ => none

open ChunkText (ChunkManifest)

/-- Why an image is not started. -/
inductive ImageError where
  /-- `cannot load {path}: errno {errno}` -/
  | errno (path : Bytes) (errno : Errno)
  /-- `cannot load {path}: no such file` -/
  | noSuchFile (path : Bytes)
  /-- `refused: snapshot manifest root is not the installed authority` -/
  | wrongRoot
  /-- `refused: {resolved} is not in the chunk manifest` -/
  | notInChunkManifest (resolved : Bytes)
  /-- `refused: {path} chunk layout differs from the manifest` -/
  | layoutDiffers (path : Bytes)
  /-- `refused: {path} resident bytes differ from the chunk manifest` -/
  | residentDiffers (path : Bytes)
  /-- `refused: {path} is not a regular manifest file` -/
  | notManifestFile (path : Bytes)
  /-- `refused: {path} is chunked but no authenticated chunk manifest is installed` -/
  | noChunkManifest (path : Bytes)
  /-- `refused: {path} is not in the manifest` -/
  | notInManifest (path : Bytes)
  /-- `refused: {path}: manifest says {committed} bytes, {delivered} delivered` -/
  | sizeDiffers (path : Bytes) (committed delivered : ℕ)
  /-- `refused: {path}: manifest says {committed}, delivered {delivered}` -/
  | digestDiffers (path : Bytes) (committed delivered : Hash)
  /-- `not a regular file: {path}`, or `not a chunked file: {path}` -/
  | wrongKind (path : Bytes)
  /-- The climb of `abs_path_of` took more steps than were allowed. -/
  | unfinished

/-- `Manifest::check`: the size first, then the digest. -/
def Manifest.check (m : Manifest) (path : Bytes) (digest : Hash) (size : ℕ) :
    Except ImageError Unit :=
  match m.entries[path]? with
  | none => .error (.notInManifest path)
  | some entry =>
    if entry.size ≠ size then .error (.sizeDiffers path entry.size size)
    else if entry.digest ≠ digest then .error (.digestDiffers path entry.digest digest)
    else .ok ()

/-- `resident_matches_chunk_layout`. -/
def residentMatchesChunkLayout (sha256 : Bytes → Hash) (data : Bytes) (layout : ChunkedFile) :
    Bool :=
  data.length = layout.size
    && (data.length + layout.chunkSize - 1) / layout.chunkSize = layout.chunks.length
    && ((data.toChunks layout.chunkSize).zip layout.chunks).all fun c => sha256 c.1 = c.2

/-! ### The environment and the deliveries -/

/-- The parts of `LinuxEnv` that image verification reads.  `inFlight` holds, for
each path under delivery, the bytes its digest has been fed. -/
structure LinuxEnv where
  vfs : Vfs
  cwd : ℕ
  manifest : Option Manifest
  chunkManifest : Option ChunkManifest
  inFlight : Std.TreeMap Bytes Bytes

namespace LinuxEnv

variable (sha256 : Bytes → Hash)

/-- `check_against_manifest`. -/
def checkAgainstManifest (e : LinuxEnv) (path : Bytes) (digest : Hash) (size : ℕ) :
    Except ImageError Unit :=
  match e.manifest with
  | none => .ok ()
  | some m => m.check path digest size

/-- `add_file`: what it displaces is reclaimed unless a descriptor refers to it. -/
def addFile (e : LinuxEnv) (path bytes : Bytes) (mode : ℕ) (referenced : List ℕ) : LinuxEnv :=
  match e.checkAgainstManifest path (sha256 bytes) bytes.length with
  | .error _ => e
  | .ok () => { e with
      vfs := (e.vfs.addNode path (.file bytes) mode).2.releaseUnreferenced referenced }

/-- `create_file`: the digest starts when there is a manifest to check against. -/
def createFile (e : LinuxEnv) (path : Bytes) (mode : ℕ) (referenced : List ℕ) : LinuxEnv :=
  { e with
    inFlight := if e.manifest.isSome then e.inFlight.insert path [] else e.inFlight
    vfs := (e.vfs.addNode path (.file []) mode).2.releaseUnreferenced referenced }

/-- `append_file`: the digest is fed before the file is found. -/
def appendFile (e : LinuxEnv) (path bytes : Bytes) : LinuxEnv :=
  { e with
    inFlight :=
      match e.inFlight[path]? with
      | some fed => e.inFlight.insert path (fed ++ bytes)
      | none => e.inFlight
    vfs :=
      match e.vfs.hostNode path with
      | none => e.vfs
      | some node =>
        match (e.vfs.node node).kind with
        | .file data => e.vfs.setKind node (.file (data ++ bytes))
        | _ => e.vfs }

/-! ### The check and the use -/

/-- The chunk manifest's part of `verify_image`: the node's own absolute path must
be committed to, and the node must still be that file. -/
def verifyChunked (v : Vfs) (climbs : ℕ) (m : ChunkManifest) (path : Bytes) (node : ℕ) :
    Except ImageError Unit :=
  if v.manifestRoot ≠ some m.root then .error .wrongRoot
  else
    match v.absPathOf climbs node with
    | none => .error .unfinished
    | some resolvedPath =>
      match m.file resolvedPath with
      | none => .error (.notInChunkManifest resolvedPath)
      | some expected =>
        match (v.node node).kind with
        | .chunkedFile actual =>
          if actual = expected then .ok () else .error (.layoutDiffers path)
        | .file data =>
          if residentMatchesChunkLayout sha256 data expected then .ok ()
          else .error (.residentDiffers path)
        | _ => .error (.notManifestFile path)

/-- The plain manifest's part of `verify_image`: it is consulted under the path as
it is written, with the streamed digest if there is one. -/
def verifyPlain (e : LinuxEnv) (m : Manifest) (path : Bytes) : Except ImageError Unit × LinuxEnv :=
  match e.inFlight[path]? with
  | some fed => (m.check path (sha256 fed) fed.length,
      { e with inFlight := e.inFlight.erase path })
  | none =>
    match e.vfs.readFile path with
    | none => (.error (.noSuchFile path), e)
    | some bytes => (m.check path (sha256 bytes) bytes.length, e)

/-- `verify_image`. -/
def verifyImage (climbs : ℕ) (e : LinuxEnv) (path : Bytes) : Except ImageError Unit × LinuxEnv :=
  match e.vfs.resolve e.cwd path true with
  | .error errno => (.error (.errno path errno), e)
  | .ok resolved =>
    match resolved.node with
    | none => (.error (.noSuchFile path), e)
    | some node =>
      match e.chunkManifest with
      | some m => (verifyChunked sha256 e.vfs climbs m path node, e)
      | none =>
        match (e.vfs.node node).kind with
        | .chunkedFile _ => (.error (.noChunkManifest path), e)
        | _ =>
          match e.manifest with
          | none => (.ok (), e)
          | some m => e.verifyPlain sha256 m path

/-- What is handed to the ELF loader: the bytes of a resident file, or the layout
of a chunked one. -/
inductive Content where
  | bytes (data : Bytes)
  | layout (file : ChunkedFile)
  deriving DecidableEq

/-- An image handed to the ELF loader: the path it was named by, the directory the
path was resolved from, and the node it led to. -/
structure Handed where
  cwd : ℕ
  path : Bytes
  node : ℕ
  content : Content
  deriving DecidableEq

/-- The lookup after the check: `read_file` of the ELF loader takes a resident
file only, and `inspect` of the lazy loader a chunked one only. -/
def openImage (climbs : ℕ) (chunked : Bool) (e : LinuxEnv) (path : Bytes) :
    Except ImageError Handed × LinuxEnv :=
  match e.verifyImage sha256 climbs path with
  | (.error why, e) => (.error why, e)
  | (.ok (), e) =>
    match e.vfs.resolve e.cwd path true with
    | .error errno => (.error (.errno path errno), e)
    | .ok resolved =>
      match resolved.node with
      | none => (.error (.noSuchFile path), e)
      | some node =>
        match chunked, (e.vfs.node node).kind with
        | false, .file data => (.ok ⟨e.cwd, path, node, .bytes data⟩, e)
        | true, .chunkedFile file => (.ok ⟨e.cwd, path, node, .layout file⟩, e)
        | _, _ => (.error (.wrongKind path), e)

end LinuxEnv

/-- What an ELF parser makes of an image, given the resident chunks: `none` if it
refuses it, and otherwise the path of the interpreter the image names, if any. -/
abbrev ElfReader := Std.TreeMap Hash Bytes → LinuxEnv.Content → Option (Option Bytes)

namespace LinuxEnv

variable (sha256 : Bytes → Hash) (climbs : ℕ) (reader : ElfReader)

/-- The outcome of a start: the images handed over, in order, the environment
after it, and whether the start went through. -/
structure Start where
  handed : List Handed
  env : LinuxEnv
  ok : Bool

/-- Loads an image and the interpreter it names; an interpreter names no other. -/
def loadImages (chunked : Bool) (e : LinuxEnv) (path : Bytes) : Start :=
  match e.openImage sha256 climbs chunked path with
  | (.error _, e) => ⟨[], e, false⟩
  | (.ok image, e) =>
    match reader e.vfs.chunks image.content with
    | none => ⟨[image], e, false⟩
    | some none => ⟨[image], e, true⟩
    | some (some interpreter) =>
      match e.openImage sha256 climbs chunked interpreter with
      | (.error _, e) => ⟨[image], e, false⟩
      | (.ok image', e) =>
        ⟨[image, image'], e, reader e.vfs.chunks image'.content = some none⟩

/-- The path leads to a chunked file. -/
def isChunked (e : LinuxEnv) (path : Bytes) : Bool :=
  match e.vfs.resolve e.cwd path true with
  | .ok ⟨_, _, some node⟩ =>
    match (e.vfs.node node).kind with
    | .chunkedFile _ => true
    | _ => false
  | _ => false

/-- `start_image`: the lazy loader for a chunked file, the ELF loader otherwise. -/
def startImage (e : LinuxEnv) (path : Bytes) : Start :=
  e.loadImages sha256 climbs reader (e.isChunked path) path

/-- `Machine::load`: a check under the old working directory, then a fresh process
at the root. -/
def load (e : LinuxEnv) (path : Bytes) : Start :=
  match e.verifyImage sha256 climbs path with
  | (.error _, e) => ⟨[], e, false⟩
  | (.ok (), e) => { e with cwd := ROOT }.startImage sha256 climbs reader path

/-- The bytes every ELF file starts with. -/
def elfMagic : Bytes := [0x7f, 0x45, 0x4c, 0x46]

/-- `sys_execve`: what is plainly not an ELF is refused before the point of no
return, and a chunked image is inspected once before it. -/
def execve (e : LinuxEnv) (path : Bytes) : Start :=
  match e.vfs.resolve e.cwd path true with
  | .ok ⟨_, _, some node⟩ =>
    match (e.vfs.node node).kind with
    | .file data =>
      if data.take 4 = elfMagic then e.startImage sha256 climbs reader path else ⟨[], e, false⟩
    | .chunkedFile _ =>
      let prepared := e.loadImages sha256 climbs reader true path
      if prepared.ok then prepared.env.startImage sha256 climbs reader path
      else ⟨[], prepared.env, false⟩
    | _ => ⟨[], e, false⟩
  | _ => ⟨[], e, false⟩

end LinuxEnv

/-! ### Guest writes -/

namespace Vfs

open Errno in
/-- `materialize_file`: the contents of a regular file, a chunked one made
resident first. -/
def materializeFile (v : Vfs) (node : ℕ) : SysResult (Bytes × Vfs) :=
  match (v.node node).kind with
  | .file data => .ok (data, v)
  | .chunkedFile file =>
    match v.readChunkedRange file 0 (2 ^ 64 - 1) with
    | .missing _ | .invalid _ => .error EIO
    | .ready bytes =>
      match v.reserve bytes.length with
      | .error e => .error e
      | .ok () => .ok (bytes, v.setKind node (.file bytes))
  | .dir _ => .error .EISDIR
  | _ => .error .EINVAL

/-- Gives a regular file new contents; only what it grows by is charged, and a
refused charge leaves the contents alone. -/
def replaceContents (v : Vfs) (node : ℕ) (f : Bytes → Bytes) : Vfs :=
  match v.materializeFile node with
  | .error _ => v
  | .ok (data, v) =>
    match v.reserve ((f data).length - data.length) with
    | .error _ => v
    | .ok () => v.setKind node (.file (f data))

/-- `data.resize(length, 0)`. -/
def resized (length : ℕ) (data : Bytes) : Bytes :=
  (data ++ List.replicate (length - data.length) 0).take length

/-- The contents after `bytes` are written at `offset`. -/
def written (offset : ℕ) (bytes data : Bytes) : Bytes :=
  let last := offset + bytes.length
  let room := resized (max last data.length) data
  room.take offset ++ bytes ++ room.drop last

end Vfs

/-! ### Steps -/

/-- One step of the host or of the guest.  A guest call on a descriptor carries
the node the descriptor refers to. -/
inductive ImageStep where
  | addFile (path bytes : Bytes) (mode : ℕ) (referenced : List ℕ)
  | createFile (path : Bytes) (mode : ℕ) (referenced : List ℕ)
  | appendFile (path bytes : Bytes)
  | fs (call : FsCall)
  | write (node offset : ℕ) (bytes : Bytes)
  | ftruncate (node length : ℕ)
  | chdir (path : Bytes)
  /-- Another task, with its own working directory, comes on the CPU. -/
  | switch (cwd : ℕ)
  | load (path : Bytes)
  | execve (path : Bytes)

namespace ImageStep

variable (sha256 : Bytes → Hash) (climbs : ℕ) (reader : ElfReader)

/-- `sys_chdir`. -/
def chdirTo (e : LinuxEnv) (path : Bytes) : LinuxEnv :=
  match e.vfs.resolve e.cwd path true with
  | .ok ⟨_, _, some node⟩ => if e.vfs.isDir node then { e with cwd := node } else e
  | _ => e

/-- The start a step makes, if it is one. -/
def start (e : LinuxEnv) : ImageStep → Option LinuxEnv.Start
  | .load path => some (e.load sha256 climbs reader path)
  | .execve path => some (e.execve sha256 climbs reader path)
  | _ => none

/-- The environment after a step. -/
def exec (e : LinuxEnv) : ImageStep → LinuxEnv
  | .addFile path bytes mode referenced => e.addFile sha256 path bytes mode referenced
  | .createFile path mode referenced => e.createFile path mode referenced
  | .appendFile path bytes => e.appendFile path bytes
  | .fs call => { e with vfs := call.exec e.vfs }
  | .write node offset bytes =>
    { e with vfs := e.vfs.replaceContents node (Vfs.written offset bytes) }
  | .ftruncate node length => { e with vfs := e.vfs.replaceContents node (Vfs.resized length) }
  | .chdir path => chdirTo e path
  | .switch cwd => { e with cwd }
  | .load path => (e.load sha256 climbs reader path).env
  | .execve path => (e.execve sha256 climbs reader path).env

/-- The images a step hands to the ELF loader. -/
def handed (e : LinuxEnv) (step : ImageStep) : List LinuxEnv.Handed :=
  match step.start sha256 climbs reader e with
  | some started => started.handed
  | none => []

end ImageStep

end WebTos
