import WebTos.Vfs.Ops

/-!
Descriptors and the objects behind them (`fd.rs`), and what a parked task may
wait on (`Watch` of `proc.rs`).

Open file descriptions and the objects they refer to are shared (`Rc<RefCell<..>>`
in the source): here they live in the cells of a `Heap` and are named by their
cell's number.  Two numbers are equal exactly when the source's pointers are.

* `FdTable`: descriptor tables, with the lowest-free-slot allocation;
* `Watch.ready`: when a readiness source fires;
* `Heap.sweep`: what happens when the last table that names a description is gone
  (`Drop for Description`).

Left out are the counters of the network meter, the geometry of a terminal and
the watch lists of inotify instances, which nothing below reads.
-/

namespace WebTos.Fd

/-- `PIPE_CAPACITY`. -/
def PIPE_CAPACITY : ℕ := 0x100000

/-- `FD_LIMIT`. -/
def FD_LIMIT : ℕ := 1024

/-- `StdStream`. -/
inductive StdStream where
  | in | out | err
  deriving DecidableEq, Repr

/-- `PipeInner`: the buffer of a pipe, its live ends, and its change counter. -/
structure PipeInner where
  data : Bytes
  readers : ℕ
  writers : ℕ
  activity : ℕ
  deriving DecidableEq, Repr

/-- `Pty`: a pseudoterminal pair. -/
structure Pty where
  m2s : Bytes
  s2m : Bytes
  /-- The 36 bytes of `struct termios`. -/
  termios : Bytes
  masters : ℕ
  slaves : ℕ
  slaveEverOpened : Bool
  activity : ℕ
  fgPgrp : ℕ
  deriving DecidableEq, Repr

namespace Pty

/-- `Pty::new`: one master, and the cooked-mode defaults of `openpty`. -/
def new : Pty where
  m2s := []
  s2m := []
  termios :=
    [0x00, 0x05, 0, 0] ++ [0x05, 0, 0, 0] ++ [0xbf, 0, 0, 0] ++ [0x3b, 0x8a, 0, 0] ++ [0] ++
      [3, 28, 127, 21, 4, 0, 1, 0, 17, 19, 26, 0, 18, 15, 23, 22, 0, 0, 0]
  masters := 1
  slaves := 0
  slaveEverOpened := false
  activity := 0
  fgPgrp := 0

/-- `isig`: the low bit of `c_lflag`. -/
def isig (p : Pty) : Bool := p.termios.getD 12 0 &&& 1 != 0

/-- The signal a typed byte raises: the interrupt, quit and suspend characters of
`c_cc`, each disabled when it is NUL. -/
def raised (p : Pty) (byte : UInt8) : Option ℕ :=
  let intr := p.termios.getD 17 0
  let quit := p.termios.getD 18 0
  let susp := p.termios.getD 27 0
  if intr != 0 && byte == intr then some 2
  else if quit != 0 && byte == quit then some 3
  else if susp != 0 && byte == susp then some 20
  else none

/-- `feed_input`: the input side of the line discipline.  A signal character is not
data: it discards the input already queued. -/
def feedInput (p : Pty) (bytes : Bytes) : Option ℕ × Pty :=
  if !p.isig then (none, { p with m2s := p.m2s ++ bytes, activity := p.activity + 1 })
  else
    let (signal, m2s) := bytes.foldl (fun (acc : Option ℕ × Bytes) byte =>
      match p.raised byte with
      | some sig => (some sig, [])
      | none => (acc.1, acc.2 ++ [byte])) (none, p.m2s)
    (signal, { p with m2s := m2s, activity := p.activity + 1 })

end Pty

/-- `EventFdInner`. -/
structure EventFdInner where
  count : ℕ
  semaphore : Bool
  activity : ℕ
  deriving DecidableEq, Repr

/-- `TimerFdInner`: times are deterministic nanoseconds. -/
structure TimerFdInner where
  nextExpiry : Option ℕ
  interval : ℕ
  deriving DecidableEq, Repr

/-- `InotifyEvent`. -/
structure InotifyEvent where
  descriptor : ℤ
  mask : ℕ
  cookie : ℕ
  name : Bytes
  deriving DecidableEq, Repr

/-- `InotifyInner`: the events not read yet. -/
structure InotifyInner where
  queue : List InotifyEvent
  overflowed : Bool
  activity : ℕ
  deriving DecidableEq, Repr

/-- `NetSocket`: a socket with its change counter, which edge-triggered waits look at. -/
structure NetSocket extends Net.NetSocket where
  activity : ℕ
  deriving DecidableEq, Repr

/-- A set of epoll conditions: the bits `EPOLLIN`, `EPOLLOUT` and `EPOLLHUP`. -/
structure Conditions where
  readable : Bool
  writable : Bool
  hangup : Bool
  deriving DecidableEq, Repr

/-- What `epoll_ctl` registers for a descriptor: the bits of the event mask that
`epoll_wait` tests, and the user data. -/
structure Interest where
  epollin : Bool
  epollout : Bool
  epollet : Bool
  data : UInt64
  deriving DecidableEq, Repr

/-- `EpollInner`: the interest list, and the delivered edges with the activity of
their backing at delivery. -/
structure EpollInner where
  interests : Std.TreeMap ℕ Interest
  edgeFired : Std.TreeMap ℕ (Conditions × ℕ)

/-- `Backing`. -/
inductive Backing where
  | std (stream : StdStream)
  | file (node : ℕ)
  | dir (node : ℕ) (cookie : ℕ)
  | dev (dev : Dev)
  | pipe (inner : ℕ) (writeEnd : Bool)
  | socketPair (rx tx : ℕ)
  | eventFd (inner : ℕ)
  | timerFd (inner : ℕ)
  | net (socket : ℕ)
  | epoll (inner : ℕ)
  | ptyMaster (pty : ℕ)
  | ptySlave (pty : ℕ)
  | inotify (inner : ℕ)
  deriving DecidableEq, Repr

/-- `O_ACCMODE`. -/
def O_ACCMODE : ℕ := 3
/-- `O_RDONLY`. -/
def O_RDONLY : ℕ := 0
/-- `O_WRONLY`. -/
def O_WRONLY : ℕ := 1
/-- `O_RDWR`. -/
def O_RDWR : ℕ := 2

/-- `Description`: an open file description. -/
structure Description where
  backing : Backing
  offset : ℕ
  flags : ℕ
  deriving DecidableEq, Repr

namespace Description

/-- `Description::readable`. -/
def readable (d : Description) : Bool := d.flags &&& O_ACCMODE != O_WRONLY

/-- `Description::writable`. -/
def writable (d : Description) : Bool := d.flags &&& O_ACCMODE != O_RDONLY

end Description

/-- `FdEntry`: the description's cell and the close-on-exec flag. -/
structure FdEntry where
  desc : ℕ
  cloexec : Bool
  deriving DecidableEq, Repr

/-! ### Descriptor tables -/

/-- `FdTable`. -/
structure FdTable where
  entries : List (Option FdEntry)
  deriving DecidableEq, Repr

namespace FdTable

/-- `FdTable::get`. -/
def get (t : FdTable) (fd : ℕ) : SysResult FdEntry :=
  match t.entries[fd]? with
  | some (some entry) => .ok entry
  | _ => .error .EBADF

/-- The lowest free slot at or above `min`, or the end of the table. -/
def freeSlot (t : FdTable) (min : ℕ) : ℕ :=
  min + ((t.entries.drop min).findIdx fun slot => slot.isNone)

/-- The table grown with empty slots to at least `len`. -/
def grown (t : FdTable) (len : ℕ) : FdTable :=
  ⟨t.entries ++ List.replicate (len - t.entries.length) none⟩

/-- `FdTable::insert_from`: the lowest free slot at or above `min`. -/
def insertFrom (t : FdTable) (min : ℕ) (entry : FdEntry) : SysResult ℕ × FdTable :=
  if FD_LIMIT ≤ min then (.error .EINVAL, t)
  else
    let t := t.grown min
    let fd := t.freeSlot min
    if fd < t.entries.length then (.ok fd, ⟨t.entries.set fd (some entry)⟩)
    else if FD_LIMIT ≤ t.entries.length then (.error .EMFILE, t)
    else (.ok t.entries.length, ⟨t.entries ++ [some entry]⟩)

/-- `FdTable::insert`. -/
def insert (t : FdTable) (entry : FdEntry) : SysResult ℕ × FdTable := t.insertFrom 0 entry

/-- `FdTable::insert_at`: exactly at `fd`, closing anything already there. -/
def insertAt (t : FdTable) (fd : ℕ) (entry : FdEntry) : SysResult ℕ × FdTable :=
  if FD_LIMIT ≤ fd then (.error .EBADF, t)
  else
    let t := t.grown (fd + 1)
    (.ok fd, ⟨t.entries.set fd (some entry)⟩)

/-- `FdTable::close_cloexec`. -/
def closeCloexec (t : FdTable) : FdTable :=
  ⟨t.entries.map fun slot => if slot.any (·.cloexec) then none else slot⟩

/-- `FdTable::close`. -/
def close (t : FdTable) (fd : ℕ) : SysResult Unit × FdTable :=
  match t.entries[fd]? with
  | some (some _) => (.ok (), ⟨t.entries.set fd none⟩)
  | _ => (.error .EBADF, t)

/-- The descriptions the table names, in the order of `FdTable::iter`. -/
def descs (t : FdTable) : List ℕ := t.entries.filterMap fun slot => slot.map (·.desc)

end FdTable

/-- `SigAction`: the words of a registered action. -/
structure SigAction where
  handler : UInt64
  flags : UInt64
  restorer : UInt64
  mask : UInt64
  deriving DecidableEq, Repr

/-- `HostSecretHandle`. -/
structure HostSecretHandle where
  name : String
  value : Bytes
  principal : String
  deriving DecidableEq, Repr

/-- The cells the shared pointers of the environment point to, with the parts of
`LinuxEnv` that belong to no task. -/
structure Heap where
  vfs : Vfs
  tables : ℕ → FdTable
  descs : ℕ → Description
  /-- The descriptions that have not been dropped. -/
  opened : List ℕ
  pipes : ℕ → PipeInner
  ptys : ℕ → Pty
  events : ℕ → EventFdInner
  timers : ℕ → TimerFdInner
  nets : ℕ → NetSocket
  inotifys : ℕ → InotifyInner
  epolls : ℕ → EpollInner
  sigactions : ℕ → ℕ → Option SigAction
  /-- The release flags of suspended vfork parents. -/
  vforkDone : ℕ → Bool
  /-- What the host's broker answers for `readable`. -/
  brokerReadable : Net.Handle → Bool
  hostSecretHandles : Std.TreeMap ℕ HostSecretHandle
  hostSecretNodes : Std.TreeMap ℕ ℕ
  nextHostSecretHandle : ℕ
  agentPrincipal : Option String
  output : Bytes
  /-- The next free cell. -/
  next : ℕ

/-! ### Readiness sources -/

/-- `Watch`: one readiness source a parked task may wait on. -/
inductive Watch where
  | pipeReadable (pipe : ℕ)
  | pipeWritable (pipe : ℕ)
  | event (event : ℕ)
  | timer (timer : ℕ)
  | netReadable (socket : ℕ)
  | pipeActivity (pipe seen : ℕ)
  | eventActivity (event seen : ℕ)
  | ptyReadable (pty : ℕ) (master : Bool)
  | ptyActivity (pty seen : ℕ)
  | inotifyReadable (inner : ℕ)
  | inotifyActivity (inner seen : ℕ)
  | always
  deriving DecidableEq, Repr

namespace PipeInner

/-- A read of the pipe makes progress: there is data, or no writer is left. -/
def canRead (p : PipeInner) : Bool := !p.data.isEmpty || p.writers == 0

/-- A write to the pipe makes progress: there is room, or no reader is left. -/
def canWrite (p : PipeInner) : Bool := decide (p.data.length < PIPE_CAPACITY) || p.readers == 0

end PipeInner

/-- `Watch::ready`, at the time `now`. -/
def Watch.ready (h : Heap) (now : ℕ) : Watch → Bool
  | .pipeReadable pipe => (h.pipes pipe).canRead
  | .pipeWritable pipe => (h.pipes pipe).canWrite
  | .event e => decide (0 < (h.events e).count)
  | .timer t => (h.timers t).nextExpiry.any fun expiry => decide (expiry ≤ now)
  | .netReadable socket => (h.nets socket).handle.any h.brokerReadable
  | .pipeActivity pipe seen => (h.pipes pipe).activity != seen
  | .eventActivity e seen => (h.events e).activity != seen
  | .ptyReadable pty true =>
    !(h.ptys pty).s2m.isEmpty || ((h.ptys pty).slaveEverOpened && (h.ptys pty).slaves == 0)
  | .ptyReadable pty false => !(h.ptys pty).m2s.isEmpty || (h.ptys pty).masters == 0
  | .ptyActivity pty seen => (h.ptys pty).activity != seen
  | .inotifyReadable inner => !(h.inotifys inner).queue.isEmpty || (h.inotifys inner).overflowed
  | .inotifyActivity inner seen => (h.inotifys inner).activity != seen
  | .always => true

/-! ### Dropping descriptions -/

namespace Heap

/-- The heap with one pipe changed. -/
def modifyPipe (h : Heap) (i : ℕ) (f : PipeInner → PipeInner) : Heap :=
  { h with pipes := Function.update h.pipes i (f (h.pipes i)) }

/-- The heap with one pseudoterminal changed. -/
def modifyPty (h : Heap) (i : ℕ) (f : Pty → Pty) : Heap :=
  { h with ptys := Function.update h.ptys i (f (h.ptys i)) }

/-- `Drop for Description`: the end it held is gone.  A network endpoint is closed
at the broker, which is the host's. -/
def dropDescription (h : Heap) (d : ℕ) : Heap :=
  let h := { h with opened := h.opened.erase d }
  match (h.descs d).backing with
  | .pipe inner true =>
    h.modifyPipe inner fun p => { p with writers := p.writers - 1, activity := p.activity + 1 }
  | .pipe inner false =>
    h.modifyPipe inner fun p => { p with readers := p.readers - 1, activity := p.activity + 1 }
  | .socketPair rx tx =>
    (h.modifyPipe rx fun p => { p with readers := p.readers - 1, activity := p.activity + 1 })
      |>.modifyPipe tx fun p => { p with writers := p.writers - 1, activity := p.activity + 1 }
  | .ptyMaster pty =>
    h.modifyPty pty fun p => { p with masters := p.masters - 1, activity := p.activity + 1 }
  | .ptySlave pty =>
    h.modifyPty pty fun p => { p with slaves := p.slaves - 1, activity := p.activity + 1 }
  | _ => h

/-- The descriptions named by the tables in use. -/
def named (h : Heap) (live : List ℕ) : List ℕ := live.flatMap fun t => (h.tables t).descs

/-- Every description that no table in use names any more is dropped.  A reference
count would do this one description at a time, when its last name goes. -/
def sweep (h : Heap) (live : List ℕ) : Heap :=
  (h.opened.filter (· ∉ h.named live)).foldl dropDescription h

/-- The objects of `LinuxEnv::new`: a fresh filesystem, and no cell in use.  Cell 0 is
never handed out. -/
def new : Heap where
  vfs := Vfs.new
  tables _ := ⟨[]⟩
  descs _ := ⟨.std .in, 0, O_RDONLY⟩
  opened := []
  pipes _ := ⟨[], 0, 0, 0⟩
  ptys _ := ⟨[], [], [], 0, 0, false, 0, 0⟩
  events _ := ⟨0, false, 0⟩
  timers _ := ⟨none, 0⟩
  nets _ := { kind := .tcp, activity := 0 }
  inotifys _ := ⟨[], false, 0⟩
  epolls _ := ⟨∅, ∅⟩
  sigactions _ _ := none
  vforkDone _ := false
  brokerReadable _ := false
  hostSecretHandles := ∅
  hostSecretNodes := ∅
  nextHostSecretHandle := 1
  agentPrincipal := none
  output := []
  next := 1

/-- The description of a standard stream in `FdTable::new`. -/
def stdDescription (stream : StdStream) : Description :=
  ⟨.std stream, 0, if stream = .in then O_RDONLY else O_WRONLY⟩

/-- `FdTable::new`, in fresh cells: descriptors 0, 1 and 2 on descriptions of their own.
The cell of the table also holds the empty dispositions of a fresh process. -/
def newTable (h : Heap) : ℕ × Heap :=
  let cell := h.next
  (cell, { h with
    tables := Function.update h.tables cell
      ⟨[some ⟨cell, false⟩, some ⟨cell + 1, false⟩, some ⟨cell + 2, false⟩]⟩
    descs := Function.update (Function.update (Function.update h.descs
      cell (stdDescription .in)) (cell + 1) (stdDescription .out)) (cell + 2) (stdDescription .err)
    opened := h.opened ++ [cell, cell + 1, cell + 2]
    sigactions := Function.update h.sigactions cell fun _ => none
    next := cell + 3 })

end Heap

end WebTos.Fd
