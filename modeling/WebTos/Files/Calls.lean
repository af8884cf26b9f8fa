import WebTos.Files.Env
import WebTos.Image.Verify
import WebTos.Vfs.Codec
import WebTos.Vfs.Snapshot

/-!
The guest's calls on files and the host's calls that change the filesystem
(`syscall.rs`, `lib.rs`).

A call runs to the point where it answers: `Call.body` gives the answer, the environment
and whether `reclaim_unlinked` is called before the call returns.  Arguments that lie in
guest memory come with the call, already copied in; an answer says what is copied out.

* `Env.readBacking`, `Env.writeBacking`, `Env.sysOpenat`, `Env.sysSendfile`, ..: one
  definition for each function of the source;
* `Call`, `Call.body`, `Call.exec`: the guest's calls.  What ends, creates or switches
  tasks is there as far as descriptor tables go;
* `HostCall`, `Event`, `Env.step`: the host's calls, and one step of a run.

Left out are the notifications of inotify watchers, the profile of opened files and the
failures of the host's allocator.
-/

namespace WebTos.Files

open Fd

/-! ### Flags -/

/-- `O_CREAT`. -/
def O_CREAT : ℕ := 0o100
/-- `O_EXCL`. -/
def O_EXCL : ℕ := 0o200
/-- `O_TRUNC`. -/
def O_TRUNC : ℕ := 0o1000
/-- `O_APPEND`. -/
def O_APPEND : ℕ := 0o2000
/-- `O_NONBLOCK`. -/
def O_NONBLOCK : ℕ := 0o4000
/-- `O_DIRECTORY`. -/
def O_DIRECTORY : ℕ := 0o200000
/-- `O_NOFOLLOW`. -/
def O_NOFOLLOW : ℕ := 0o400000
/-- `O_CLOEXEC`. -/
def O_CLOEXEC : ℕ := 0o2000000

/-- `flags & bit != 0`. -/
def has (flags bit : ℕ) : Bool := flags &&& bit != 0

/-- The flags a description keeps. -/
def statusFlags (flags : ℕ) : ℕ := flags &&& (O_ACCMODE ||| O_APPEND ||| O_NONBLOCK)

/-- The most a `read` or `write` moves at once. -/
def IO_LIMIT : ℕ := 0x400000

/-- The most a `sendfile` moves at once. -/
def SENDFILE_LIMIT : ℕ := 0x40000

/-! ### Reading nodes -/

/-- A range of a byte string, cut at its end. -/
def slice (data : Bytes) (offset len : ℕ) : Bytes := (data.drop offset).take len

/-- `read_node_range`. -/
def readNodeRange (v : Vfs) (node offset len : ℕ) : SysResult ReadRange :=
  match v.nodes[node]? with
  | none => .error .ENOENT
  | some n =>
    match n.kind with
    | .file data => .ok (.ready (slice data offset len))
    | .chunkedFile file => .ok (v.readChunkedRange file offset len)
    | .dir _ => .error .EISDIR
    | _ => .error .EINVAL

/-- `first_missing_file_chunk`. -/
def firstMissingFileChunk (v : Vfs) (node : ℕ) : SysResult (Option Hash) :=
  match v.nodes[node]? with
  | none => .error .ENOENT
  | some n =>
    match n.kind with
    | .file _ => .ok none
    | .chunkedFile file => .ok (file.chunks.find? fun hash => !v.chunks.contains hash)
    | .dir _ => .error .EISDIR
    | _ => .error .EINVAL

/-- `Node::size`. -/
def nodeSize (n : Node) : ℕ :=
  match n.kind with
  | .file data => data.length
  | .chunkedFile file => file.size
  | .symlink target => target.length
  | .dir entries => entries.size
  | .charDev _ => 0

/-- `Node::file_type_bits`. -/
def fileTypeBits (n : Node) : ℕ :=
  match n.kind with
  | .dir _ => 0o040000
  | .file _ | .chunkedFile _ => 0o100000
  | .symlink _ => 0o120000
  | .charDev _ => 0o020000

/-- `Node::d_type`. -/
def dType (n : Node) : ℕ :=
  match n.kind with
  | .dir _ => 4
  | .file _ | .chunkedFile _ => 8
  | .symlink _ => 10
  | .charDev _ => 2

end WebTos.Files

namespace WebTos.Fd

/-- `IN_Q_OVERFLOW`. -/
def IN_Q_OVERFLOW : ℕ := 0x4000

/-- The bytes a name takes in a record: terminated, and padded to the header's alignment. -/
def InotifyEvent.nameLen (event : InotifyEvent) : ℕ :=
  if event.name.isEmpty then 0 else (event.name.length + 1) ⌈/⌉ 16 * 16

/-- One `inotify_event` record. -/
def InotifyEvent.record (event : InotifyEvent) : Bytes :=
  Lib.leBytes 4 (event.descriptor % 2 ^ 32).toNat ++ Lib.leBytes 4 event.mask ++
    Lib.leBytes 4 event.cookie ++ Lib.leBytes 4 event.nameLen ++ event.name ++
    List.replicate (event.nameLen - event.name.length) 0

/-- The loop of `read_inotify`: as many whole records as fit, and the events left. -/
def takeEvents (bufLen : ℕ) : Bytes → List InotifyEvent → SysResult (Bytes × List InotifyEvent)
  | out, [] => .ok (out, [])
  | out, event :: events =>
    let record := 16 + event.nameLen
    if out.isEmpty ∧ bufLen < record then .error .EINVAL
    else if bufLen < out.length + record then .ok (out, event :: events)
    else takeEvents bufLen (out ++ event.record) events

/-- `read_inotify`: an overflow is announced before the events that survived it. -/
def InotifyInner.readInotify (inner : InotifyInner) (bufLen : ℕ) : SysResult Bytes × InotifyInner :=
  let queue := if inner.overflowed then ⟨-1, IN_Q_OVERFLOW, 0, []⟩ :: inner.queue else inner.queue
  let inner := { inner with queue, overflowed := false }
  if queue.isEmpty then (.ok [], inner)
  else
    match takeEvents bufLen [] queue with
    | .error errno => (.error errno, inner)
    | .ok (out, rest) => (.ok out, { inner with queue := rest, activity := inner.activity + 1 })

end WebTos.Fd

namespace WebTos.Files

open Fd

/-! ### Answers -/

/-- `Stat`, for the one device and the one user there is; the three times are equal. -/
structure Stat where
  ino : ℕ
  nlink : ℕ
  mode : ℕ
  rdev : ℕ
  size : ℕ
  blksize : ℕ
  blocks : ℕ
  mtimeSec : ℤ
  deriving DecidableEq, Repr

/-- What the guest is told. -/
inductive Answer where
  | ret (result : SysResult ℕ)
  /-- The bytes are copied to the caller's buffer, and their number is returned. -/
  | data (bytes : Bytes)
  | stat (stat : Stat)
  /-- The call waits for a chunk of the image and is made again. -/
  | wait (hash : Hash)
  /-- The task parks, and the call is made again. -/
  | park
  /-- So many bytes were sent; an offset passed in memory is moved there. -/
  | sent (written : ℕ) (next : Option ℕ)
  /-- The bytes a mapping is filled with, or the file its pages come from. -/
  | mapped (bytes : Bytes)
  | lazy (file : ChunkedFile) (len : ℕ)
  deriving DecidableEq, Repr

/-- `ReadBackingError`. -/
inductive ReadError where
  | errno (errno : Errno)
  | missing (hash : Hash)
  deriving DecidableEq, Repr

/-- The answer to a failed read. -/
def ReadError.answer : ReadError → Answer
  | .errno e => .ret (.error e)
  | .missing hash => .wait hash

/-- A call up to its answer: `reclaims` says that `reclaim_unlinked` runs last. -/
structure Done where
  answer : Answer
  env : Env
  reclaims : Bool

/-- A call that ends without reclaiming. -/
def Done.of (r : Answer × Env) : Done := ⟨r.1, r.2, false⟩

namespace Env

/-- The call fails and changes nothing. -/
def fail (e : Env) (errno : Errno) : Answer × Env := (.ret (.error errno), e)

/-- The description of a descriptor, with its cell. -/
def descOf (e : Env) (fd : ℕ) : SysResult (ℕ × Description) :=
  match e.table.get fd with
  | .error errno => .error errno
  | .ok entry => .ok (entry.desc, e.heap.descs entry.desc)

/-- `dir_of`; no descriptor is `AT_FDCWD`. -/
def dirOf (e : Env) : Option ℕ → SysResult ℕ
  | none => .ok e.cur.cwd
  | some fd =>
    match e.descOf fd with
    | .error errno => .error errno
    | .ok (_, desc) =>
      match desc.backing with
      | .dir node _ => .ok node
      | _ => .error .ENOTDIR

/-- `dir_of` and `resolve`.  The working directory is a directory. -/
def resolveAt (e : Env) (dirfd : Option ℕ) (path : Bytes) (follow : Bool) : SysResult Resolved :=
  match e.dirOf dirfd with
  | .error errno => .error errno
  | .ok base => e.heap.vfs.resolveAt base path follow

/-! ### Descriptors -/

/-- A new description in a fresh cell. -/
def newDesc (e : Env) (desc : Description) : Env :=
  { e with heap := { e.heap with
    descs := Function.update e.heap.descs e.heap.next desc
    opened := e.heap.opened ++ [e.heap.next]
    next := e.heap.next + 1 } }

/-- A new description under the lowest free descriptor; without one it is dropped. -/
def installDesc (e : Env) (desc : Description) (cloexec : Bool) : SysResult ℕ × Env :=
  let cell := e.heap.next
  let e := e.newDesc desc
  match e.table.insert ⟨cell, cloexec⟩ with
  | (.ok fd, t) => (.ok fd, e.setTable t)
  | (.error errno, t) => (.error errno, (e.setTable t).sweep)

/-- The close arm of the dispatcher. -/
def sysClose (e : Env) (fd : ℕ) : Done :=
  match e.table.close fd with
  | (.error errno, _) => ⟨.ret (.error errno), e, false⟩
  | (.ok (), t) => ⟨.ret (.ok 0), (e.setTable t).sweep, true⟩

/-- The descriptors of a range are closed, or marked close-on-exec. -/
def closeFrom (first last : ℕ) (cloexec : Bool) (fd : ℕ) (slot : Option FdEntry) :
    Option FdEntry :=
  if first ≤ fd ∧ fd ≤ last then
    if cloexec then slot.map fun entry => { entry with cloexec := true } else none
  else slot

/-- `sys_close_range`. -/
def sysCloseRange (e : Env) (first last : ℕ) (cloexec : Bool) : Answer × Env :=
  if last < first then e.fail .EINVAL
  else (.ret (.ok 0), (e.setTable ⟨e.table.entries.mapIdx (closeFrom first last cloexec)⟩).sweep)

/-- `sys_dup`. -/
def sysDup (e : Env) (fd min : ℕ) (cloexec : Bool) : Answer × Env :=
  match e.table.get fd with
  | .error errno => e.fail errno
  | .ok entry =>
    let (result, t) := e.table.insertFrom min ⟨entry.desc, cloexec⟩
    (.ret result, e.setTable t)

/-- `sys_dup2`. -/
def sysDup2 (e : Env) (fd newFd : ℕ) (cloexec : Bool) : Answer × Env :=
  match e.table.get fd with
  | .error errno => e.fail errno
  | .ok entry =>
    if fd = newFd then (.ret (.ok newFd), e)
    else
      let (result, t) := e.table.insertAt newFd ⟨entry.desc, cloexec⟩
      (.ret result, (e.setTable t).sweep)

/-- `F_SETFD`. -/
def setCloexec (e : Env) (fd : ℕ) (cloexec : Bool) : Answer × Env :=
  match e.table.get fd with
  | .error errno => e.fail errno
  | .ok entry => (.ret (.ok 0), e.setTable ⟨e.table.entries.set fd (some { entry with cloexec })⟩)

/-- `F_SETFL`. -/
def setStatusFlags (e : Env) (fd arg : ℕ) : Answer × Env :=
  match e.descOf fd with
  | .error errno => e.fail errno
  | .ok (d, desc) =>
    (.ret (.ok 0), e.setDesc d { desc with
      flags := (desc.flags &&& O_ACCMODE) ||| (arg &&& (O_APPEND ||| O_NONBLOCK)) })

/-! ### Opening -/

/-- A pseudoterminal's slave is opened; an opener through `/dev/pts` becomes the foreground
group until one claims it. -/
def openSlave (e : Env) (pty : ℕ) (viaPts : Bool) (flags : ℕ) : SysResult ℕ × Env :=
  let heap := e.heap.modifyPty pty fun p =>
    { p with
      slaves := p.slaves + 1
      slaveEverOpened := true
      activity := p.activity + 1
      fgPgrp := if viaPts ∧ p.fgPgrp = 0 then e.cur.pgid else p.fgPgrp }
  { e with heap }.installDesc ⟨.ptySlave pty, 0, statusFlags flags⟩ (has flags O_CLOEXEC)

/-- An open of `/dev/tty` lands on the host's terminal when there is one. -/
def controllingTty (e : Env) (resolved : Resolved) : Option ℕ :=
  match resolved.node with
  | none => none
  | some node =>
    match (e.heap.vfs.node node).kind with
    | .charDev .tty => e.stdioPty
    | _ => none

/-- The number a decimal name writes. -/
def u64Of (name : Bytes) : ℕ :=
  (if name.head? = some 43 then name.tail else name).foldl (fun n b => 10 * n + (b.toNat - 48)) 0

/-- A missing name in `/dev/pts` that is a number, with the pseudoterminal of that id. -/
def ptsSlave (e : Env) (resolved : Resolved) : Option (Option ℕ) :=
  if resolved.node.isNone ∧ e.heap.vfs.isPtsName resolved then some e.ptys[u64Of resolved.name]?
  else none

/-- `mode & !umask`. -/
def masked (mode umask : ℕ) : ℕ := mode ^^^ (mode &&& umask)

/-- The node to open: the one found, or a new file under `O_CREAT`. -/
def openNode (e : Env) (resolved : Resolved) (flags mode : ℕ) : SysResult ℕ × Env :=
  match resolved.node with
  | some node => if has flags O_CREAT ∧ has flags O_EXCL then (.error .EEXIST, e) else (.ok node, e)
  | none =>
    if !has flags O_CREAT then (.error .ENOENT, e)
    else
      let (result, v) := e.heap.vfs.create resolved.parent resolved.name (.file [])
        (masked (mode &&& 0o777) e.cur.umask)
      (result, e.setVfs v)

/-- A new master of the pseudoterminal multiplexor. -/
def openPtmx (e : Env) (flags : ℕ) : SysResult ℕ × Env :=
  let cell := e.heap.next
  { e with
    nextPtyId := e.nextPtyId + 1
    ptys := e.ptys.insert e.nextPtyId cell
    heap := { e.heap with ptys := Function.update e.heap.ptys cell Pty.new, next := cell + 1 } }
      |>.installDesc ⟨.ptyMaster cell, 0, statusFlags flags⟩ (has flags O_CLOEXEC)

/-- The access mode asks for more than reading. -/
def writes (flags : ℕ) : Bool := flags &&& O_ACCMODE != O_RDONLY

/-- The description of an open node.  A secret opens for reading only, and only for its
principal; that is decided before a truncation. -/
def openBacking (e : Env) (node flags : ℕ) : SysResult ℕ × Env :=
  let install (e : Env) (backing : Fd.Backing) :=
    e.installDesc ⟨backing, 0, statusFlags flags⟩ (has flags O_CLOEXEC)
  match (e.heap.vfs.node node).kind with
  | .dir _ => if writes flags then (.error .EISDIR, e) else install e (.dir node 0)
  | .file _ | .chunkedFile _ =>
    if has flags O_DIRECTORY then (.error .ENOTDIR, e)
    else if e.heap.isHostSecretNode node ∧
        ((e.heap.hostSecretForNode node).isNone ∨ writes flags) then (.error .EACCES, e)
    else if has flags O_TRUNC ∧ writes flags then
      install (e.setVfs (e.heap.vfs.setKind node (.file []))) (.file node)
    else install e (.file node)
  | .charDev .ptmx => e.openPtmx flags
  | .charDev dev => install e (.dev dev)
  | .symlink _ => (.error .ELOOP, e)

/-- `sys_openat`, after the refresh of a synthesised file. -/
def sysOpenat (e : Env) (dirfd : Option ℕ) (path : Bytes) (flags mode : ℕ) : SysResult ℕ × Env :=
  match e.resolveAt dirfd path (!has flags O_NOFOLLOW) with
  | .error errno => (.error errno, e)
  | .ok resolved =>
    match e.controllingTty resolved with
    | some pty => e.openSlave pty false flags
    | none =>
      match e.ptsSlave resolved with
      | some (some pty) => e.openSlave pty true flags
      | some none => (.error .ENOENT, e)
      | none =>
        match e.openNode resolved flags mode with
        | (.error errno, e) => (.error errno, e)
        | (.ok node, e) => e.openBacking node flags

/-! ### Reading and writing -/

/-- `next_random`: xorshift64*. -/
def nextRandom (e : Env) : UInt64 × Env :=
  let x := e.rngState
  let x := x ^^^ (x >>> 12)
  let x := x ^^^ (x <<< 25)
  let x := x ^^^ (x >>> 27)
  (x * 0x2545f4914f6cdd1d, { e with rngState := x })

/-- `len` bytes of `/dev/urandom`, eight for each number drawn. -/
def randomBytes (e : Env) (len : ℕ) : Bytes × Env :=
  (List.range (len ⌈/⌉ 8)).foldl (fun (acc : Bytes × Env) _ =>
    let (x, e) := acc.2.nextRandom
    ((acc.1 ++ Lib.leBytes 8 x.toNat).take len, e)) ([], e)

/-- The file part of `read_backing`: a secret's value for its principal only, a range of the
node otherwise. -/
def readFileAt (e : Env) (node offset len : ℕ) : Except ReadError Bytes :=
  if e.heap.isHostSecretNode node then
    match e.heap.hostSecretForNode node with
    | none => .error (.errno .EACCES)
    | some secret => .ok (slice secret offset len)
  else
    match readNodeRange e.heap.vfs node offset len with
    | .error errno => .error (.errno errno)
    | .ok (.ready bytes) => .ok bytes
    | .ok (.missing hash) => .error (.missing hash)
    | .ok (.invalid _) => .error (.errno Errno.EIO)

/-- `read_backing` on a description, with the bytes read and the offset after them.  Pipes,
sockets, terminals and events are read before this point. -/
def readBacking (e : Env) (desc : Description) (len : ℕ) :
    Except ReadError (Bytes × ℕ) × Env :=
  match desc.backing with
  | .std .in => (.ok ([], desc.offset), e)
  | .std _ => (.error (.errno .EBADF), e)
  | .inotify inner =>
    let (result, inner') := (e.heap.inotifys inner).readInotify len
    let e := { e with heap := { e.heap with
      inotifys := Function.update e.heap.inotifys inner inner' } }
    match result with
    | .error errno => (.error (.errno errno), e)
    | .ok bytes => (.ok (bytes, desc.offset), e)
  | .file node =>
    match e.readFileAt node desc.offset len with
    | .error err => (.error err, e)
    | .ok bytes => (.ok (bytes, desc.offset + bytes.length), e)
  | .dir _ _ => (.error (.errno .EISDIR), e)
  | .dev .zero => (.ok (List.replicate len 0, desc.offset), e)
  | .dev .random =>
    let (bytes, e) := e.randomBytes len
    (.ok (bytes, desc.offset), e)
  | .dev _ => (.ok ([], desc.offset), e)
  | _ => (.error (.errno .EINVAL), e)

/-- `sys_read`. -/
def sysRead (e : Env) (fd count : ℕ) : Answer × Env :=
  match e.descOf fd with
  | .error errno => e.fail errno
  | .ok (d, desc) =>
    if !desc.readable then e.fail .EBADF
    else
      match e.readBacking desc (min count IO_LIMIT) with
      | (.error err, e) => (err.answer, e)
      | (.ok (bytes, offset), e) => (.data bytes, e.setDesc d { desc with offset })

/-- `sys_pread`: the description's own offset stays. -/
def sysPread (e : Env) (fd count pos : ℕ) : Answer × Env :=
  match e.descOf fd with
  | .error errno => e.fail errno
  | .ok (_, desc) =>
    match desc.backing with
    | .file _ =>
      match e.readBacking { desc with offset := pos } (min count IO_LIMIT) with
      | (.error err, e) => (err.answer, e)
      | (.ok (bytes, _), e) => (.data bytes, e)
    | _ => e.fail .ESPIPE

/-- The file part of `write_backing`: the result, and the offset after it, which an append
moves even if the write is refused then.  Only what the file grows by is charged, after a
chunked file has been made resident. -/
def writeFileAt (e : Env) (node offset : ℕ) (append : Bool) (bytes : Bytes) :
    (SysResult ℕ × ℕ) × Env :=
  if e.heap.isHostSecretNode node then ((.error .EPERM, offset), e)
  else
    match e.heap.vfs.materializeFile node with
    | .error errno => ((.error errno, offset), e)
    | .ok (data, v) =>
      let e := e.setVfs v
      let start := if append then data.length else offset
      let last := start + bytes.length
      if e.usize ≤ last then ((.error .EFBIG, start), e)
      else
        match v.reserve (last - data.length) with
        | .error errno => ((.error errno, start), e)
        | .ok () =>
          ((.ok bytes.length, last),
            e.setVfs (v.setKind node (.file (Vfs.written start bytes data))))

/-- `write_backing`. -/
def writeBacking (e : Env) (desc : Description) (bytes : Bytes) : (SysResult ℕ × ℕ) × Env :=
  if !desc.writable then ((.error .EBADF, desc.offset), e)
  else
    match desc.backing with
    | .std .in | .inotify _ => ((.error .EBADF, desc.offset), e)
    | .std _ | .dev .tty =>
      ((.ok bytes.length, desc.offset),
        { e with heap := { e.heap with output := e.heap.output ++ bytes } })
    | .dev _ => ((.ok bytes.length, desc.offset), e)
    | .file node => e.writeFileAt node desc.offset (has desc.flags O_APPEND) bytes
    | .dir _ _ => ((.error .EISDIR, desc.offset), e)
    | _ => ((.error .EINVAL, desc.offset), e)

/-- `wait_to_materialize`: what stops a write to a file before it starts. -/
def waitToMaterialize (e : Env) (node : ℕ) : Option Answer :=
  match firstMissingFileChunk e.heap.vfs node with
  | .ok (some hash) => some (.wait hash)
  | .ok none => none
  | .error errno => some (.ret (.error errno))

/-- The stop of `wait_to_materialize` for a description on a file. -/
def writeStop (e : Env) (desc : Description) : Option Answer :=
  match desc.backing with
  | .file node => e.waitToMaterialize node
  | _ => none

/-- `sys_write` of bytes from guest memory, or of the fault that reading them gave. -/
def sysWrite (e : Env) (fd : ℕ) (bytes : SysResult Bytes) : Answer × Env :=
  match e.descOf fd with
  | .error errno => e.fail errno
  | .ok (d, desc) =>
    match e.writeStop desc, bytes with
    | some stop, _ => (stop, e)
    | none, .error errno => e.fail errno
    | none, .ok bytes =>
      let ((result, offset), e) := e.writeBacking desc bytes
      (.ret result, e.setDesc d { desc with offset })

/-- `sys_pwrite`. -/
def sysPwrite (e : Env) (fd : ℕ) (bytes : SysResult Bytes) (pos : ℕ) : Answer × Env :=
  match e.descOf fd with
  | .error errno => e.fail errno
  | .ok (_, desc) =>
    match desc.backing with
    | .file node =>
      match e.waitToMaterialize node, bytes with
      | some stop, _ => (stop, e)
      | none, .error errno => e.fail errno
      | none, .ok bytes =>
        let ((result, _), e) := e.writeBacking { desc with offset := pos } bytes
        (.ret result, e)
    | _ => e.fail .ESPIPE

/-- `sys_ftruncate`. -/
def sysFtruncate (e : Env) (fd length : ℕ) : Answer × Env :=
  if 2 ^ 30 < length then e.fail .EFBIG
  else
    match e.descOf fd with
    | .error errno => e.fail errno
    | .ok (_, desc) =>
      match writes desc.flags, desc.backing with
      | true, .file node =>
        if e.heap.isHostSecretNode node then e.fail .EPERM
        else
          match e.waitToMaterialize node, e.heap.vfs.materializeFile node with
          | some stop, _ => (stop, e)
          | none, .error errno => e.fail errno
          | none, .ok (data, v) =>
            match v.reserve (length - data.length) with
            | .error errno => (.ret (.error errno), e.setVfs v)
            | .ok () =>
              (.ret (.ok 0), e.setVfs (v.setKind node (.file (Vfs.resized length data))))
      | _, _ => e.fail .EINVAL

/-- `x as i64` of a `u64`. -/
def asI64 (n : ℕ) : ℤ := if n < 2 ^ 63 then n else n - 2 ^ 64

/-- The size `sys_lseek` counts from the end of, for a description that has one. -/
def seekSize (e : Env) (backing : Fd.Backing) : SysResult ℕ :=
  match backing with
  | .file node =>
    if e.heap.isHostSecretNode node then
      match e.heap.hostSecretForNode node with
      | none => .error .EACCES
      | some value => .ok value.length
    else .ok (nodeSize (e.heap.vfs.node node))
  | .dev _ => .ok 0
  | _ => .error .ESPIPE

/-- `sys_lseek`. -/
def sysLseek (e : Env) (fd offset whence : ℕ) : Answer × Env :=
  match e.descOf fd with
  | .error errno => e.fail errno
  | .ok (d, desc) =>
    match desc.backing with
    | .dir node _ =>
      if whence = 0 then (.ret (.ok offset), e.setDesc d { desc with backing := .dir node offset })
      else e.fail .EINVAL
    | backing =>
      match e.seekSize backing with
      | .error errno => e.fail errno
      | .ok size =>
        let base? : Option ℤ :=
          if whence = 0 then some 0
          else if whence = 1 then some (asI64 desc.offset)
          else if whence = 2 then some (asI64 size)
          else none
        match base? with
        | none => e.fail .EINVAL
        | some base =>
          let target := base + asI64 offset
          if target < 0 ∨ 2 ^ 63 ≤ target then e.fail .EINVAL
          else (.ret (.ok target.toNat), e.setDesc d { desc with offset := target.toNat })

/-! ### Looking -/

/-- `stat_of_node`: the size of a secret for its principal, that of its marker otherwise. -/
def statOfNode (e : Env) (node : ℕ) : Stat :=
  let n := e.heap.vfs.node node
  let size := ((e.heap.hostSecretForNode node).map List.length).getD (nodeSize n)
  { ino := node + 1, nlink := n.nlink, mode := fileTypeBits n ||| (n.mode &&& 0o7777), rdev := 0,
    size, blksize := 4096, blocks := (size + 511) / 512, mtimeSec := n.mtimeSec }

/-- The `Stat` of what is not in the filesystem. -/
def anonymousStat (ino mode rdev blksize : ℕ) : Stat :=
  { ino, nlink := 1, mode, rdev, size := 0, blksize, blocks := 0, mtimeSec := 0 }

/-- `stat_of_fd`. -/
def statOfFd (e : Env) (fd : ℕ) : SysResult Stat :=
  match e.descOf fd with
  | .error errno => .error errno
  | .ok (_, desc) =>
    .ok <| match desc.backing with
      | .file node | .dir node _ => e.statOfNode node
      | .std _ | .dev .tty | .ptyMaster _ | .ptySlave _ =>
        anonymousStat (2 ^ 64 - 1) (0o020000 ||| 0o620) (136 * 256) 1024
      | .dev _ => anonymousStat (2 ^ 64 - 2) (0o020000 ||| 0o666) 0 4096
      | .pipe _ _ | .socketPair _ _ | .net _ =>
        anonymousStat (2 ^ 64 - 3) (0o010000 ||| 0o600) 0 4096
      | .eventFd _ | .timerFd _ | .epoll _ | .inotify _ => anonymousStat (2 ^ 64 - 4) 0o600 0 4096

/-- `sys_fstat`. -/
def sysFstat (e : Env) (fd : ℕ) : Answer :=
  match e.statOfFd fd with
  | .error errno => .ret (.error errno)
  | .ok stat => .stat stat

/-- `sys_statpath`. -/
def sysStatpath (e : Env) (dirfd : Option ℕ) (path : Bytes) (follow : Bool) : Answer :=
  match e.resolveAt dirfd path follow with
  | .error errno => .ret (.error errno)
  | .ok resolved =>
    match resolved.node with
    | none => .ret (.error .ENOENT)
    | some node => .stat (e.statOfNode node)

/-- `sys_faccessat`. -/
def sysFaccessat (e : Env) (dirfd : Option ℕ) (path : Bytes) : Answer :=
  match e.resolveAt dirfd path true with
  | .error errno => .ret (.error errno)
  | .ok resolved => .ret (if resolved.node.isSome then .ok 0 else .error .ENOENT)

/-- `sys_readlinkat`, of any path but `/proc/self/exe`. -/
def sysReadlinkat (e : Env) (dirfd : Option ℕ) (path : Bytes) (size : ℕ) : Answer :=
  match e.resolveAt dirfd path false with
  | .error errno => .ret (.error errno)
  | .ok resolved =>
    match resolved.node with
    | none => .ret (.error .ENOENT)
    | some node =>
      match (e.heap.vfs.node node).kind with
      | .symlink target => .data (target.take size)
      | _ => .ret (.error .EINVAL)

/-- `list`: a directory's entries, after itself and its parent. -/
def list (v : Vfs) (dir : ℕ) : SysResult (List (Bytes × ℕ)) :=
  match (v.node dir).kind with
  | .dir entries => .ok ((dot, dir) :: (dotdot, (v.node dir).parent) :: entries.toList)
  | _ => .error .ENOTDIR

/-- `encode_dirent64`: header, name and padding, if they fit. -/
def encodeDirent64 (ino nextOff type : ℕ) (name : Bytes) (remaining : ℕ) : Option Bytes :=
  let reclen := (19 + name.length + 1 + 7) / 8 * 8
  if remaining < reclen then none
  else
    some (Lib.leBytes 8 ino ++ Lib.leBytes 8 nextOff ++ Lib.leBytes 2 reclen ++
      Lib.leBytes 1 type ++ name ++ List.replicate (reclen - 19 - name.length) 0)

/-- The loop of `sys_getdents64` from a position on: the records, and the next position.
Nothing comes back when not even the first record fits. -/
def direntsFrom (v : Vfs) (count : ℕ) : Bytes → ℕ → List (Bytes × ℕ) → SysResult (Bytes × ℕ)
  | out, position, [] => .ok (out, position)
  | out, position, (name, node) :: entries =>
    match encodeDirent64 (node + 1) (position + 1) (dType (v.node node)) name
        (count - out.length) with
    | some record => direntsFrom v count (out ++ record) (position + 1) entries
    | none => if out.isEmpty then .error .EINVAL else .ok (out, position)

/-- `sys_getdents64`. -/
def sysGetdents64 (e : Env) (fd count : ℕ) : Answer × Env :=
  match e.descOf fd with
  | .error errno => e.fail errno
  | .ok (d, desc) =>
    match desc.backing with
    | .dir node cookie =>
      match list e.heap.vfs node with
      | .error errno => e.fail errno
      | .ok entries =>
        match direntsFrom e.heap.vfs count [] cookie (entries.drop cookie) with
        | .error errno => e.fail errno
        | .ok (out, position) =>
          (.data out, e.setDesc d { desc with backing := .dir node position })
    | _ => e.fail .ENOTDIR

/-! ### `sendfile` and mappings -/

/-- What `sendfile` takes from its file, and how much of it a description accepts.  A pipe
takes what it has room for. -/
def sendChunk (e : Env) (outFd : ℕ) (chunk : Bytes) : Except Answer ℕ × Env :=
  match e.descOf outFd with
  | .error errno => (.error (.ret (.error errno)), e)
  | .ok (d, desc) =>
    if !desc.writable then (.error (.ret (.error .EBADF)), e)
    else
      match desc.backing with
      | .pipe inner true =>
        let pipe := e.heap.pipes inner
        let room := PIPE_CAPACITY - pipe.data.length
        if pipe.readers = 0 then (.error (.ret (.error .EPIPE)), e)
        else if room = 0 then (.error .park, e)
        else
          (.ok (min chunk.length room), { e with
            heap := e.heap.modifyPipe inner fun p => { p with data := p.data ++ chunk.take room } })
      | _ =>
        match e.writeBacking desc chunk with
        | ((.error errno, offset), e) =>
          (.error (.ret (.error errno)), e.setDesc d { desc with offset })
        | ((.ok n, offset), e) => (.ok (min n chunk.length), e.setDesc d { desc with offset })

/-- `sys_sendfile`, with the offset passed in memory if there is one. -/
def sysSendfile (e : Env) (outFd inFd : ℕ) (offset? : Option (SysResult ℕ)) (count : ℕ) :
    Answer × Env :=
  match e.descOf inFd with
  | .error errno => e.fail errno
  | .ok (d, desc) =>
    match desc.backing, offset?.getD (.ok desc.offset) with
    | .file _, .error errno => e.fail errno
    | .file node, .ok offset =>
      match e.readFileAt node offset (min count SENDFILE_LIMIT) with
      | .error err => (err.answer, e)
      | .ok [] => (.ret (.ok 0), e)
      | .ok chunk =>
        match e.sendChunk outFd chunk with
        | (.error answer, e) => (answer, e)
        | (.ok written, e) =>
          if offset?.isSome then (.sent written (some (offset + written)), e)
          else
            -- The input may be the output's own description.
            (.sent written none,
              e.setDesc d { e.heap.descs d with offset := offset + written })
    | _, _ => e.fail .EINVAL

/-- The file part of `sys_mmap`. -/
def sysMmapFile (e : Env) (fd : ℕ) (shared : Bool) (offset len : ℕ) : Answer :=
  match e.descOf fd with
  | .error errno => .ret (.error errno)
  | .ok (_, desc) =>
    match desc.backing with
    | .file node =>
      if e.heap.isHostSecretNode node then .ret (.error .ENODEV)
      else
        match (e.heap.vfs.node node).kind with
        | .file data =>
          if e.usize ≤ len then .ret (.error .EFBIG) else .mapped (slice data offset len)
        | .chunkedFile file =>
          if shared then .ret (.error .ENODEV) else .lazy file (min (file.size - offset) len)
        | _ => .ret (.error (if shared then .ENODEV else .EBADF))
    | _ => .ret (.error .EBADF)

/-- `sync_shared_range` for one mapping of a node: its bytes overwrite what the file has
there, and never lengthen it. -/
def syncSharedRange (e : Env) (node offset : ℕ) (bytes : Bytes) : Env :=
  match (e.heap.vfs.node node).kind with
  | .file data =>
    let start := min offset data.length
    let room := bytes.take (data.length - start)
    e.setVfs (e.heap.vfs.setKind node
      (.file (data.take start ++ room ++ data.drop (start + room.length))))
  | _ => e

/-! ### Names -/

/-- A call of `vfs.rs` below the directory `dir_of` gives. -/
def atDir {α : Type} (e : Env) (dirfd : Option ℕ) (f : ℕ → SysResult α × Vfs) : Answer × Env :=
  match e.dirOf dirfd with
  | .error errno => e.fail errno
  | .ok base =>
    match f base with
    | (.error errno, v) => (.ret (.error errno), e.setVfs v)
    | (.ok _, v) => (.ret (.ok 0), e.setVfs v)

/-- `sys_mkdirat`. -/
def sysMkdirat (e : Env) (dirfd : Option ℕ) (path : Bytes) (mode : ℕ) : Answer × Env :=
  e.atDir dirfd fun base => e.heap.vfs.sysMkdirat base path (masked (mode &&& 0o777) e.cur.umask)

/-- `sys_symlinkat`. -/
def sysSymlinkat (e : Env) (target : Bytes) (dirfd : Option ℕ) (path : Bytes) : Answer × Env :=
  e.atDir dirfd fun base => e.heap.vfs.sysSymlinkat target base path

/-- `sys_linkat`. -/
def sysLinkat (e : Env) (oldDirfd : Option ℕ) (oldPath : Bytes) (newDirfd : Option ℕ)
    (newPath : Bytes) : Answer × Env :=
  match e.dirOf oldDirfd with
  | .error errno => e.fail errno
  | .ok oldBase => e.atDir newDirfd fun newBase =>
    e.heap.vfs.sysLinkat oldBase oldPath newBase newPath

/-- `sys_unlinkat`. -/
def sysUnlinkat (e : Env) (dirfd : Option ℕ) (path : Bytes) (rmdir : Bool) : Done :=
  match e.resolveAt dirfd path false with
  | .error errno => ⟨.ret (.error errno), e, false⟩
  | .ok resolved =>
    match e.heap.vfs.unlink resolved.parent resolved.name rmdir with
    | (.error errno, v) => ⟨.ret (.error errno), e.setVfs v, false⟩
    | (.ok (), v) => ⟨.ret (.ok 0), e.setVfs v, true⟩

/-- `sys_renameat`. -/
def sysRenameat (e : Env) (oldDirfd : Option ℕ) (oldPath : Bytes) (newDirfd : Option ℕ)
    (newPath : Bytes) : Done :=
  match e.resolveAt oldDirfd oldPath false with
  | .error errno => ⟨.ret (.error errno), e, false⟩
  | .ok old =>
    match e.resolveAt newDirfd newPath false with
    | .error errno => ⟨.ret (.error errno), e, false⟩
    | .ok new =>
      match e.heap.vfs.rename old.parent old.name new.parent new.name with
      | (.error errno, v) => ⟨.ret (.error errno), e.setVfs v, false⟩
      | (.ok (), v) => ⟨.ret (.ok 0), e.setVfs v, true⟩

/-- A node's mode or time is changed. -/
def touchNode (e : Env) (node : ℕ) (mode : ℕ → ℕ) (mtime : ℤ → ℤ) : Env :=
  e.setVfs (e.heap.vfs.modifyNode node fun n =>
    { n with mode := mode n.mode, mtimeSec := mtime n.mtimeSec })

/-- `sys_chmodat` and `sys_utimensat` on a path. -/
def touchAt (e : Env) (dirfd : Option ℕ) (path : Bytes) (follow : Bool) (mode : ℕ → ℕ)
    (mtime : ℤ → ℤ) : Answer × Env :=
  match e.resolveAt dirfd path follow with
  | .error errno => e.fail errno
  | .ok resolved =>
    match resolved.node with
    | none => e.fail .ENOENT
    | some node => (.ret (.ok 0), e.touchNode node mode mtime)

/-- `sys_fchmod` and `sys_utimensat` on a descriptor. -/
def touchFd (e : Env) (fd : ℕ) (mode : ℕ → ℕ) (mtime : ℤ → ℤ) : Answer × Env :=
  match e.descOf fd with
  | .error errno => e.fail errno
  | .ok (_, desc) =>
    match desc.backing.node? with
    | none => (.ret (.ok 0), e)
    | some node => (.ret (.ok 0), e.touchNode node mode mtime)

/-- The working directory of the task on the CPU is changed. -/
def setCwd (e : Env) (node : ℕ) : Env := { e with cur := { e.cur with cwd := node } }

/-- `sys_chdir`. -/
def sysChdir (e : Env) (path : Bytes) : Answer × Env :=
  match e.resolveAt none path true with
  | .error errno => e.fail errno
  | .ok resolved =>
    match resolved.node with
    | none => e.fail .ENOENT
    | some node =>
      if e.heap.vfs.isDir node then (.ret (.ok 0), e.setCwd node) else e.fail .ENOTDIR

/-- `sys_fchdir`. -/
def sysFchdir (e : Env) (fd : ℕ) : Answer × Env :=
  match e.dirOf (some fd) with
  | .error errno => e.fail errno
  | .ok node => (.ret (.ok 0), e.setCwd node)

/-! ### Tasks -/

/-- A fork copies the descriptor table into a fresh cell. -/
def fork (e : Env) : Env :=
  let cell := e.heap.next
  { e with
    heap := { e.heap with
      tables := Function.update e.heap.tables cell e.table
      next := cell + 1 }
    parked := e.parked ++ [{ e.cur with fds := cell }] }

/-- A thread shares the table. -/
def thread (e : Env) : Env := { e with parked := e.parked ++ [e.cur] }

/-- `execve` closes what is marked so. -/
def execve (e : Env) : Env := (e.setTable e.table.closeCloexec).sweep

/-- The parked tasks whose places are not among `victims`. -/
def survivors (parked : List Task) (victims : List ℕ) : List Task :=
  (parked.zipIdx.filter fun t => t.2 ∉ victims).map Prod.fst

/-- The task on the CPU dies, and the parked ones at the places `siblings` with it.  It stays
in `env.proc` until the next one is put there. -/
def exit (e : Env) (siblings : List ℕ) : Env :=
  { e with alive := false, parked := survivors e.parked siblings }.sweep

/-- SIGKILL removes parked tasks. -/
def kill (e : Env) (victims : List ℕ) : Env :=
  { e with parked := survivors e.parked victims }.sweep

/-- A parked task is put on the CPU, for a live one that parks or for a dead one. -/
def switch (e : Env) (index : ℕ) : Env :=
  match e.parked[index]? with
  | none => e
  | some t =>
    { e with
      cur := t
      alive := true
      parked := e.parked.eraseIdx index ++ if e.alive then [e.cur] else [] }.sweep

/-- The heap a call sees that has nothing to do with mounted secrets. -/
def blinded (e : Env) : Heap := { e.heap with hostSecretHandles := ∅ }

/-- A call that changes no file, no descriptor and no directory: only the objects behind other
descriptors, the output, and the mask and group of its task. -/
def other (e : Env) (f : Heap → Answer × Heap) (task : Task → Task) : Answer × Env :=
  let (answer, h) := f e.blinded
  (answer, { e with
    heap := { e.heap with
      pipes := h.pipes, ptys := h.ptys, events := h.events, timers := h.timers, nets := h.nets
      inotifys := h.inotifys, epolls := h.epolls, sigactions := h.sigactions
      vforkDone := h.vforkDone, brokerReadable := h.brokerReadable, output := h.output }
    cur := { e.cur with umask := (task e.cur).umask, pgid := (task e.cur).pgid } })

/-! ### The host's calls -/

/-- `add_file` of a file the manifest accepts, before its `reclaim_unlinked`. -/
def addFile (e : Env) (path bytes : Bytes) (mode : ℕ) : Env :=
  e.setVfs (e.heap.vfs.addNode path (.file bytes) mode).2

/-- `append_file`. -/
def appendFile (e : Env) (path bytes : Bytes) : Env :=
  match e.heap.vfs.hostNode path with
  | none => e
  | some node =>
    match (e.heap.vfs.node node).kind with
    | .file data => e.setVfs (e.heap.vfs.setKind node (.file (data ++ bytes)))
    | _ => e

/-- `refresh_procfs` for a path it answers, with the text it writes: a file that is there is
rewritten in place, and else it is added. -/
def refreshProcfs (e : Env) (path content : Bytes) (vouched : Bool) : Done :=
  match e.heap.vfs.takeFileContents path with
  | (some _, v) => ⟨.ret (.ok 0), e.setVfs (v.putFileContents path content), false⟩
  | (none, v) =>
    if vouched then ⟨.ret (.ok 0), (e.setVfs v).addFile path content 0o444, true⟩
    else ⟨.ret (.ok 0), e.setVfs v, false⟩

/-- `import_fs`: the filesystem is replaced as a whole, its budget kept. -/
def importFs (e : Env) (bytes : Bytes) : Env :=
  match Vfs.deserialize (Nat.log 2 e.usize) bytes with
  | .error _ => e
  | .ok restored =>
    { e.setVfs { restored with storageBudget := e.heap.vfs.storageBudget } with mounted := [] }

/-- `load`: a fresh root process replaces every task. -/
def load (e : Env) : Env :=
  let (cell, heap) := e.heap.newTable
  { e with
    heap := heap
    cur := ⟨cell, ROOT, 0o022, 1000⟩
    alive := true
    parked := []
    stdioPty := none }.sweep

end Env

/-! ### Steps -/

/-- A call of the guest, or what the kernel does with its tasks.  `read` and `write` are the
plain ones; on pipes, sockets, terminals and events the call is `other`, and a vectored call
is a sequence of calls. -/
inductive Call where
  | openat (dirfd : Option ℕ) (path : Bytes) (flags mode : ℕ)
  /-- The refresh of a synthesised file before an `openat`. -/
  | procfs (path content : Bytes) (vouched : Bool)
  | close (fd : ℕ)
  | closeRange (first last : ℕ) (cloexec : Bool)
  | dup (fd min : ℕ) (cloexec : Bool)
  | dup2 (fd newFd : ℕ) (cloexec : Bool)
  | setCloexec (fd : ℕ) (cloexec : Bool)
  | setStatusFlags (fd arg : ℕ)
  | read (fd count : ℕ)
  | pread (fd count pos : ℕ)
  | write (fd : ℕ) (bytes : SysResult Bytes)
  | pwrite (fd : ℕ) (bytes : SysResult Bytes) (pos : ℕ)
  | ftruncate (fd length : ℕ)
  | lseek (fd offset whence : ℕ)
  | fstat (fd : ℕ)
  | stat (dirfd : Option ℕ) (path : Bytes) (follow : Bool)
  | access (dirfd : Option ℕ) (path : Bytes)
  | readlink (dirfd : Option ℕ) (path : Bytes) (size : ℕ)
  | getdents (fd count : ℕ)
  | sendfile (outFd inFd : ℕ) (offset : Option (SysResult ℕ)) (count : ℕ)
  | mmap (fd : ℕ) (shared : Bool) (offset len : ℕ)
  | sync (node offset : ℕ) (bytes : Bytes)
  | mkdir (dirfd : Option ℕ) (path : Bytes) (mode : ℕ)
  | symlink (target : Bytes) (dirfd : Option ℕ) (path : Bytes)
  | link (oldDirfd : Option ℕ) (oldPath : Bytes) (newDirfd : Option ℕ) (newPath : Bytes)
  | unlink (dirfd : Option ℕ) (path : Bytes) (rmdir : Bool)
  | rename (oldDirfd : Option ℕ) (oldPath : Bytes) (newDirfd : Option ℕ) (newPath : Bytes)
  | touchAt (dirfd : Option ℕ) (path : Bytes) (follow : Bool) (mode : ℕ → ℕ) (mtime : ℤ → ℤ)
  | touchFd (fd : ℕ) (mode : ℕ → ℕ) (mtime : ℤ → ℤ)
  | chdir (path : Bytes)
  | fchdir (fd : ℕ)
  /-- A new descriptor on something that is no file. -/
  | object (backing : Fd.Backing) (flags : ℕ) (cloexec : Bool)
  | fork
  | thread
  | execve
  | exit (siblings : List ℕ)
  | kill (victims : List ℕ)
  | switch (index : ℕ)
  | other (f : Heap → Answer × Heap) (task : Task → Task)

/-- A call up to its answer. -/
def Call.body (e : Env) : Call → Done
  | .openat dirfd path flags mode =>
    let (result, e) := e.sysOpenat dirfd path flags mode
    .of (.ret result, e)
  | .procfs path content vouched => e.refreshProcfs path content vouched
  | .close fd => e.sysClose fd
  | .closeRange first last cloexec => .of (e.sysCloseRange first last cloexec)
  | .dup fd min cloexec => .of (e.sysDup fd min cloexec)
  | .dup2 fd newFd cloexec => .of (e.sysDup2 fd newFd cloexec)
  | .setCloexec fd cloexec => .of (e.setCloexec fd cloexec)
  | .setStatusFlags fd arg => .of (e.setStatusFlags fd arg)
  | .read fd count => .of (e.sysRead fd count)
  | .pread fd count pos => .of (e.sysPread fd count pos)
  | .write fd bytes => .of (e.sysWrite fd bytes)
  | .pwrite fd bytes pos => .of (e.sysPwrite fd bytes pos)
  | .ftruncate fd length => .of (e.sysFtruncate fd length)
  | .lseek fd offset whence => .of (e.sysLseek fd offset whence)
  | .fstat fd => .of (e.sysFstat fd, e)
  | .stat dirfd path follow => .of (e.sysStatpath dirfd path follow, e)
  | .access dirfd path => .of (e.sysFaccessat dirfd path, e)
  | .readlink dirfd path size => .of (e.sysReadlinkat dirfd path size, e)
  | .getdents fd count => .of (e.sysGetdents64 fd count)
  | .sendfile outFd inFd offset count => .of (e.sysSendfile outFd inFd offset count)
  | .mmap fd shared offset len => .of (e.sysMmapFile fd shared offset len, e)
  | .sync node offset bytes => .of (.ret (.ok 0), e.syncSharedRange node offset bytes)
  | .mkdir dirfd path mode => .of (e.sysMkdirat dirfd path mode)
  | .symlink target dirfd path => .of (e.sysSymlinkat target dirfd path)
  | .link oldDirfd oldPath newDirfd newPath => .of (e.sysLinkat oldDirfd oldPath newDirfd newPath)
  | .unlink dirfd path rmdir => e.sysUnlinkat dirfd path rmdir
  | .rename oldDirfd oldPath newDirfd newPath => e.sysRenameat oldDirfd oldPath newDirfd newPath
  | .touchAt dirfd path follow mode mtime => .of (e.touchAt dirfd path follow mode mtime)
  | .touchFd fd mode mtime => .of (e.touchFd fd mode mtime)
  | .chdir path => .of (e.sysChdir path)
  | .fchdir fd => .of (e.sysFchdir fd)
  | .object backing flags cloexec =>
    if backing.node?.isSome then .of (e.fail .EINVAL)
    else
      let (result, e) := e.installDesc ⟨backing, 0, flags⟩ cloexec
      .of (.ret result, e)
  | .fork => .of (.ret (.ok 0), e.fork)
  | .thread => .of (.ret (.ok 0), e.thread)
  | .execve => .of (.ret (.ok 0), e.execve)
  | .exit siblings => .of (.ret (.ok 0), e.exit siblings)
  | .kill victims => .of (.ret (.ok 0), e.kill victims)
  | .switch index => .of (.ret (.ok 0), e.switch index)
  | .other f task => .of (e.other f task)

/-- A call, with its answer. -/
def Call.exec (e : Env) (c : Call) : Answer × Env :=
  let d := c.body e
  (d.answer, if d.reclaims then d.env.reclaimUnlinked else d.env)

/-- A call of the host.  `vouched` says that the manifest in force accepts the file. -/
inductive HostCall where
  | addFile (path bytes : Bytes) (mode : ℕ) (vouched : Bool)
  | createFile (path : Bytes) (mode : ℕ)
  | appendFile (path bytes : Bytes)
  | addSymlink (path target : Bytes)
  | addChunkedFile (path : Bytes) (file : ChunkedFile) (mode : ℕ) (vouched : Bool)
  | mkdirP (path : Bytes)
  | mountSecretHandle (name : String) (value path : Bytes) (principal : String)
  | setAgentPrincipal (principal : String)
  | importFs (bytes : Bytes)
  | load

/-- A host's call up to the `reclaim_unlinked` it ends with, if it does. -/
def HostCall.body (e : Env) : HostCall → Bool × Env
  | .addFile path bytes mode vouched =>
    if vouched then (true, e.addFile path bytes mode) else (false, e)
  | .createFile path mode => (true, e.addFile path [] mode)
  | .appendFile path bytes => (false, e.appendFile path bytes)
  | .addSymlink path target =>
    (false, e.setVfs (e.heap.vfs.addNode path (.symlink target) 0o777).2)
  | .addChunkedFile path file mode vouched =>
    if vouched then (false, e.setVfs (e.heap.vfs.addNode path (.chunkedFile file) mode).2)
    else (false, e)
  | .mkdirP path => (false, e.setVfs (e.heap.vfs.mkdirP path).2)
  | .mountSecretHandle name value path principal =>
    let (mounted, e) := e.mountSecretHandle name value path principal
    (mounted.isOk, e)
  | .setAgentPrincipal principal =>
    if principal.isEmpty then (false, e)
    else (false, { e with heap := { e.heap with agentPrincipal := some principal } })
  | .importFs bytes => (false, e.importFs bytes)
  | .load => (false, e.load)

/-- One event of a run. -/
inductive Event where
  | guest (call : Call)
  | host (call : HostCall)

/-- An event up to the `reclaim_unlinked` it ends with, if it does.  A dead task makes no
calls; only another task can be put in its place. -/
def Event.body (e : Env) : Event → Bool × Env
  | .guest (.switch index) => (false, e.switch index)
  | .guest call => if e.alive then ((call.body e).reclaims, (call.body e).env) else (false, e)
  | .host call => call.body e

/-- The environment after an event. -/
def Env.step (e : Env) (event : Event) : Env :=
  let (reclaims, e) := event.body e
  if reclaims then e.reclaimUnlinked else e

/-- `LinuxEnv::new` on a host whose `usize` has `w` bits: nothing is loaded yet. -/
def Env.new (w : ℕ) : Env where
  heap := Heap.new
  cur := ⟨0, ROOT, 0o022, 1000⟩
  alive := false
  parked := []
  stdioPty := none
  ptys := ∅
  nextPtyId := 0
  rngState := 0x9e3779b97f4a7c15
  usize := 2 ^ w
  mounted := []

end WebTos.Files
