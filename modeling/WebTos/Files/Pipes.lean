import WebTos.Files.Calls
import WebTos.Mem.Usable

/-!
Pipes and socket pairs, with the copies between their buffers and guest memory.

The calls that move bytes (`outcome_read`, `outcome_write`, `outcome_vectored`, `sys_sendfile`,
`sys_sendmsg`, `sys_recvmsg`) are modelled with the memory they copy from and to.  Every other
call leaves the buffers alone; the calls on files and descriptors are those of `Files.Call`.

* `World`: the environment, the memory on the CPU, and two ghost strings for each buffer: what
  successful writes were told has been accepted, and what successful reads were given;
* `World.outcomeRead`, `World.outcomeWrite`, `World.outcomeVectored`, `World.sysSendfile`,
  `World.sysSendmsg`, `World.sysRecvmsg`: the calls;
* `World.sysPipe`, `World.sysSocketpair`: new buffers;
* `World.step`: one event.
-/

/-! ### The buffers of descriptions -/

namespace WebTos.Fd.Backing

/-- The buffer a read of the backing drains. -/
def source : Backing → Option ℕ
  | .pipe inner false => some inner
  | .socketPair rx _ => some rx
  | _ => none

/-- The buffer a write to the backing fills. -/
def sink : Backing → Option ℕ
  | .pipe inner true => some inner
  | .socketPair _ tx => some tx
  | _ => none

end WebTos.Fd.Backing

namespace WebTos.Pipes

open Files Fd Lib Function

/-- What becomes of a call. -/
inductive Outcome where
  | ret (result : SysResult ℕ)
  /-- The task parks, and the call is made again. -/
  | park
  /-- The call waits for a page or a chunk of a file and is made again. -/
  | suspend
  /-- The call goes on in a handler that has nothing to do with pipes. -/
  | elsewhere
  deriving DecidableEq, Repr

/-- What a failed copy makes of its call. -/
def Outcome.of : Failure → Outcome
  | .errno e => .ret (.error e)
  | .pageInRestart => .suspend

/-- What an answer of the file calls means for `sendfile`. -/
def Outcome.ofAnswer : Answer → Outcome
  | .ret result => .ret result
  | .park => .park
  | .wait _ => .suspend
  | _ => .elsewhere

/-- The environment with the memory of the task on the CPU.  `accepted` and `received` are not in
the source. -/
structure World where
  env : Env
  mem : WebTos.Kernel
  /-- What the image's files give a page-in. -/
  chunks : ChunkReader
  /-- What successful writes put in a buffer. -/
  accepted : ℕ → Bytes
  /-- What successful reads were given from a buffer. -/
  received : ℕ → Bytes

namespace World

/-- The buffer of a pipe. -/
def data (w : World) (i : ℕ) : Bytes := (w.env.heap.pipes i).data

/-- A call that fails and changes nothing. -/
def fail (w : World) (errno : Errno) : Outcome × World := (.ret (.error errno), w)

/-- The world with another memory. -/
def setMem (w : World) (k : WebTos.Kernel) : World := { w with mem := k }

/-- The world with one pipe changed. -/
def modifyPipe (w : World) (i : ℕ) (f : PipeInner → PipeInner) : World :=
  { w with env := { w.env with heap := w.env.heap.modifyPipe i f } }

/-- A successful write of the bytes. -/
def accept (w : World) (i : ℕ) (bytes : Bytes) : World :=
  { w with accepted := update w.accepted i (w.accepted i ++ bytes) }

/-- A successful read of the bytes. -/
def receive (w : World) (i : ℕ) (bytes : Bytes) : World :=
  { w with received := update w.received i (w.received i ++ bytes) }

/-! ### Reading and writing -/

/-- What a read takes: `count as usize` loses the bits a `usize` does not have. -/
def readTake (w : World) (i count : ℕ) : ℕ :=
  min (min (count % w.env.usize) (w.data i).length) IO_LIMIT

/-- The pipe arm of `outcome_read`: the bytes leave the buffer before they are copied. -/
def readPipe (w : World) (i : ℕ) (nonblock : Bool) (buf : UInt64) (count : ℕ) : Outcome × World :=
  if w.data i = [] then
    if (w.env.heap.pipes i).writers = 0 then (.ret (.ok 0), w)
    else if nonblock then w.fail .EAGAIN
    else (.park, w)
  else
    let chunk := (w.data i).take (w.readTake i count)
    let w := w.modifyPipe i fun p =>
      { p with data := p.data.drop (w.readTake i count), activity := p.activity + 1 }
    match w.mem.writeMem w.chunks buf.toNat chunk with
    | (k, .ok _) => (.ret (.ok chunk.length), (w.setMem k).receive i chunk)
    | (k, .error e) => (.of e, w.setMem k)

/-- `outcome_read`. -/
def outcomeRead (w : World) (fd : ℕ) (buf : UInt64) (count : ℕ) : Outcome × World :=
  match w.env.descOf fd with
  | .error errno => w.fail errno
  | .ok (_, desc) =>
    if !desc.readable then w.fail .EBADF
    else
      match desc.backing with
      | .pipe _ true => w.fail .EBADF
      | .epoll _ => w.fail .EINVAL
      | backing =>
        match w.mem.hostTouch w.chunks buf.toNat (min count IO_LIMIT) .write with
        | (k, .error e) => (.of e, w.setMem k)
        | (k, .ok _) =>
          match backing.source with
          | none => (.elsewhere, w.setMem k)
          | some i => (w.setMem k).readPipe i (has desc.flags O_NONBLOCK) buf count

/-- The pipe arm of `outcome_write`. -/
def writePipe (w : World) (i : ℕ) (nonblock : Bool) (buf : UInt64) (count : ℕ) :
    Outcome × World :=
  let room := PIPE_CAPACITY - (w.data i).length
  if (w.env.heap.pipes i).readers = 0 then w.fail .EPIPE
  else if room = 0 then if nonblock then w.fail .EAGAIN else (.park, w)
  else
    let take := min (min (count % w.env.usize) room) IO_LIMIT
    match w.mem.readMem w.chunks buf.toNat take with
    | (k, .error e) => (.of e, w.setMem k)
    | (k, .ok bytes) =>
      (.ret (.ok take), ((w.setMem k).modifyPipe i fun p =>
        { p with data := p.data ++ bytes, activity := p.activity + 1 }).accept i bytes)

/-- `outcome_write`. -/
def outcomeWrite (w : World) (fd : ℕ) (buf : UInt64) (count : ℕ) : Outcome × World :=
  match w.env.descOf fd with
  | .error errno => w.fail errno
  | .ok (_, desc) =>
    if !desc.writable then w.fail .EBADF
    else
      match desc.backing with
      | .pipe _ false => w.fail .EBADF
      | .timerFd _ | .epoll _ => w.fail .EINVAL
      | backing =>
        match backing.sink with
        | none => (.elsewhere, w)
        | some i => w.writePipe i (has desc.flags O_NONBLOCK) buf count

/-- A little-endian word of a record. -/
def word (raw : Bytes) (at_ : ℕ) : UInt64 := .ofNat (leValue (slice raw at_ 8))

/-- `iter_iov`: the segments, as addresses and lengths. -/
def iterIov (w : World) (iov : UInt64) (iovcnt : ℕ) : World × CallResult (List (UInt64 × ℕ)) :=
  let n := min iovcnt 1024
  match w.mem.readMem w.chunks iov.toNat (n * 16) with
  | (k, .error e) => (w.setMem k, .error e)
  | (k, .ok raw) =>
    (w.setMem k,
      .ok ((List.range n).map fun j => (word raw (16 * j), (word raw (16 * j + 8)).toNat)))

/-- The first segment that is not empty. -/
def segment (entries : List (UInt64 × ℕ)) : Option (UInt64 × ℕ) := entries.find? fun e => e.2 ≠ 0

/-- `outcome_vectored`: one segment for each call. -/
def outcomeVectored (w : World) (fd : ℕ) (iov : UInt64) (iovcnt : ℕ) (write : Bool) :
    Outcome × World :=
  match w.iterIov iov iovcnt with
  | (w, .error e) => (.of e, w)
  | (w, .ok entries) =>
    match segment entries with
    | none => (.ret (.ok 0), w)
    | some (base, len) => if write then w.outcomeWrite fd base len else w.outcomeRead fd base len

/-! ### `sendfile` and messages -/

/-- The end of `sys_sendfile`: the offset moves in guest memory, or in the description. -/
def finishSend (w : World) (d : ℕ) (offsetPtr : UInt64) (next : ℕ) : World × CallResult Unit :=
  if offsetPtr = 0 then
    ({ w with env := w.env.setDesc d { w.env.heap.descs d with offset := next } }, .ok ())
  else
    match w.mem.writeMem w.chunks offsetPtr.toNat (leBytes 8 next) with
    | (k, result) => (w.setMem k, result)

/-- The pipe `sendfile` may put its bytes in. -/
def pipeOut (w : World) (fd : ℕ) : Option ℕ :=
  match w.env.descOf fd with
  | .ok (_, desc) =>
    match desc.backing with
    | .pipe inner true => some inner
    | _ => none
  | .error _ => none

/-- `sys_sendfile` from the offset on. -/
def sendFrom (w : World) (outFd d node offset : ℕ) (offsetPtr : UInt64) (count : ℕ) :
    Outcome × World :=
  match w.env.readFileAt node offset (min count SENDFILE_LIMIT) with
  | .error err => (.ofAnswer err.answer, w)
  | .ok [] => (.ret (.ok 0), w)
  | .ok chunk =>
    match w.env.sendChunk outFd chunk with
    | (.error answer, env) => (.ofAnswer answer, { w with env })
    | (.ok written, env) =>
      match World.finishSend { w with env } d offsetPtr (offset + written) with
      | (w', .error e) => (.of e, w')
      | (w', .ok _) =>
        (.ret (.ok written),
          match w.pipeOut outFd with
          | none => w'
          | some i => w'.accept i (chunk.take written))

/-- `sys_sendfile`. -/
def sysSendfile (w : World) (outFd inFd : ℕ) (offsetPtr : UInt64) (count : ℕ) : Outcome × World :=
  match w.env.descOf inFd with
  | .error errno => w.fail errno
  | .ok (d, desc) =>
    match desc.backing with
    | .file node =>
      if offsetPtr = 0 then w.sendFrom outFd d node desc.offset offsetPtr count
      else
        match w.mem.readMem w.chunks offsetPtr.toNat 8 with
        | (k, .error e) => (.of e, w.setMem k)
        | (k, .ok raw) => (w.setMem k).sendFrom outFd d node (leValue raw) offsetPtr count
    | _ => w.fail .EINVAL

/-- `read_msghdr`. -/
structure Msghdr where
  name : UInt64
  nameLen : ℕ
  iov : UInt64
  iovcnt : ℕ

/-- `read_msghdr` of a record. -/
def Msghdr.ofBytes (raw : Bytes) : Msghdr where
  name := word raw 0
  nameLen := (word raw 8).toNat % 2 ^ 32
  iov := word raw 16
  iovcnt := (word raw 24).toNat

/-- The sender's address is wanted, and there is room for it. -/
def Msghdr.wantsName (h : Msghdr) : Bool := h.name ≠ 0 ∧ 16 ≤ h.nameLen

/-- `sys_sendmsg`.  With an address it is a call of network sockets. -/
def sysSendmsg (w : World) (fd : ℕ) (msg : UInt64) : Outcome × World :=
  match w.mem.readMem w.chunks msg.toNat 56 with
  | (k, .error e) => (.of e, w.setMem k)
  | (k, .ok raw) =>
    let header := Msghdr.ofBytes raw
    match (w.setMem k).iterIov header.iov header.iovcnt with
    | (w, .error e) => (.of e, w)
    | (w, .ok entries) =>
      match segment entries with
      | none => (.ret (.ok 0), w)
      | some (base, len) =>
        if header.name ≠ 0 then (.elsewhere, w) else w.outcomeWrite fd base len

/-- The end of `sys_recvmsg` after a read that succeeded: the length of the address.  A read whose
call fails in the end has not succeeded. -/
def finishRecv (before w : World) (msg : UInt64) (wants : Bool) (n : ℕ) : Outcome × World :=
  if wants then
    match w.mem.writeMem w.chunks (msg + 8).toNat (leBytes 4 16) with
    | (k, .error e) => (.of e, { w.setMem k with received := before.received })
    | (k, .ok _) => (.ret (.ok n), w.setMem k)
  else (.ret (.ok n), w)

/-- The start of `sys_recvmsg`: the header, with the first segment that is not empty. -/
def recvHeader (w : World) (msg : UInt64) :
    World × CallResult (Msghdr × Option (UInt64 × ℕ)) :=
  match w.mem.readMem w.chunks msg.toNat 56 with
  | (k, .error e) => (w.setMem k, .error e)
  | (k, .ok raw) =>
    let header := Msghdr.ofBytes raw
    match k.writeMem w.chunks (msg + 40).toNat (List.replicate 8 0) with
    | (k, .error e) => (w.setMem k, .error e)
    | (k, .ok _) =>
      match (w.setMem k).iterIov header.iov header.iovcnt with
      | (w, .error e) => (w, .error e)
      | (w, .ok entries) => (w, .ok (header, segment entries))

/-- `sys_recvmsg` on a descriptor that is no network socket. -/
def sysRecvmsg (w : World) (fd : ℕ) (msg : UInt64) : Outcome × World :=
  match w.recvHeader msg with
  | (w, .error e) => (.of e, w)
  | (w, .ok (_, none)) => (.ret (.ok 0), w)
  | (w, .ok (header, some (base, len))) =>
    match w.outcomeRead fd base len with
    | (.ret (.ok n), w') => w.finishRecv w' msg header.wantsName n
    | other => other

/-! ### New pipes -/

/-- A new pipe in a fresh cell, with one reader and one writer. -/
def newPipe (w : World) : World :=
  let cell := w.env.heap.next
  { w with
    env := { w.env with heap := { w.env.heap with
      pipes := update w.env.heap.pipes cell ⟨[], 1, 1, 0⟩
      next := cell + 1 } }
    accepted := update w.accepted cell []
    received := update w.received cell [] }

/-- `install_fd`. -/
def install (w : World) (desc : Description) (cloexec : Bool) : SysResult ℕ × World :=
  match w.env.installDesc desc cloexec with
  | (result, env) => (result, { w with env })

/-- The descriptor is closed again. -/
def uninstall (w : World) (fd : ℕ) : World :=
  { w with env := (w.env.setTable (w.env.table.close fd).2).sweep }

/-- The two descriptors as the caller is told them. -/
def fdPair (a b : ℕ) : Bytes := leBytes 4 a ++ leBytes 4 b

/-- `sys_pipe`.  A second descriptor that cannot be had leaves the first one open. -/
def sysPipe (w : World) (fdsPtr : UInt64) (flags : ℕ) : Outcome × World :=
  let i := w.env.heap.next
  let cloexec := has flags O_CLOEXEC
  match w.newPipe.install ⟨.pipe i false, 0, O_RDONLY ||| (flags &&& O_NONBLOCK)⟩ cloexec with
  | (.error e, w) => w.fail e
  | (.ok readFd, w) =>
    match w.install ⟨.pipe i true, 0, O_WRONLY ||| (flags &&& O_NONBLOCK)⟩ cloexec with
    | (.error e, w) => w.fail e
    | (.ok writeFd, w) =>
      match w.mem.writeMem w.chunks fdsPtr.toNat (fdPair readFd writeFd) with
      | (k, .error e) => (.of e, ((w.setMem k).uninstall readFd).uninstall writeFd)
      | (k, .ok _) => (.ret (.ok 0), w.setMem k)

/-- `sys_socketpair`, of a domain and type it accepts. -/
def sysSocketpair (w : World) (sv : UInt64) (cloexec : Bool) : Outcome × World :=
  let ab := w.env.heap.next
  let ba := w.newPipe.env.heap.next
  match w.newPipe.newPipe.install ⟨.socketPair ba ab, 0, O_RDWR⟩ cloexec with
  | (.error e, w) => w.fail e
  | (.ok fdA, w) =>
    match w.install ⟨.socketPair ab ba, 0, O_RDWR⟩ cloexec with
    | (.error e, w) => w.fail e
    | (.ok fdB, w) =>
      match w.mem.writeMem w.chunks sv.toNat (fdPair fdA fdB) with
      | (k, .error e) => (.of e, w.setMem k)
      | (k, .ok _) => (.ret (.ok 0), w.setMem k)

/-! ### Runs -/

/-- One event of a run. -/
inductive Event where
  | read (fd : ℕ) (buf : UInt64) (count : ℕ)
  | write (fd : ℕ) (buf : UInt64) (count : ℕ)
  | readv (fd : ℕ) (iov : UInt64) (iovcnt : ℕ)
  | writev (fd : ℕ) (iov : UInt64) (iovcnt : ℕ)
  | sendfile (outFd inFd : ℕ) (offsetPtr : UInt64) (count : ℕ)
  | sendmsg (fd : ℕ) (msg : UInt64)
  | recvmsg (fd : ℕ) (msg : UInt64)
  | pipe (fdsPtr : UInt64) (flags : ℕ)
  | socketpair (sv : UInt64) (cloexec : Bool)
  /-- A call on files or descriptors, a fork, an exit or a switch of tasks. -/
  | files (event : Files.Event)
  /-- Any other call changes objects, but no buffer of a pipe. -/
  | other (f : Heap → Heap)
  /-- Guest code runs, memory calls are made, another task's memory is put on the CPU. -/
  | memory (k : WebTos.Kernel) (chunks : ChunkReader)

/-- The event moves no bytes of a pipe: `sendfile` is an event of its own, as are the calls on
objects that are no files. -/
def movesNothing : Files.Event → Bool
  | .guest (.sendfile ..) | .guest (.other ..) => false
  | _ => true

/-- The objects after another call: the buffers are as they were. -/
def keepBuffers (h h' : Heap) : Heap :=
  { h' with pipes := fun i => { h'.pipes i with data := (h.pipes i).data } }

/-- One event. -/
def step (w : World) : Event → World
  | .read fd buf count => (w.outcomeRead fd buf count).2
  | .write fd buf count => (w.outcomeWrite fd buf count).2
  | .readv fd iov iovcnt => (w.outcomeVectored fd iov iovcnt false).2
  | .writev fd iov iovcnt => (w.outcomeVectored fd iov iovcnt true).2
  | .sendfile outFd inFd offsetPtr count => (w.sysSendfile outFd inFd offsetPtr count).2
  | .sendmsg fd msg => (w.sysSendmsg fd msg).2
  | .recvmsg fd msg => (w.sysRecvmsg fd msg).2
  | .pipe fdsPtr flags => (w.sysPipe fdsPtr flags).2
  | .socketpair sv cloexec => (w.sysSocketpair sv cloexec).2
  | .files event => if movesNothing event then { w with env := w.env.step event } else w
  | .other f =>
    { w with env := { w.env with heap := keepBuffers w.env.heap (f w.env.heap) } }
  | .memory k chunks => { w with mem := k, chunks }

/-- The start, on a host whose `usize` has `bits` bits. -/
def new (bits : ℕ) (k : WebTos.Kernel) (chunks : ChunkReader) : World where
  env := .new bits
  mem := k
  chunks := chunks
  accepted _ := []
  received _ := []

end World

end WebTos.Pipes
