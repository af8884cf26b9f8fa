import WebTos.Proc.Interrupt
import WebTos.Proc.Timeouts

/-!
Waiting for descriptors (`syscall.rs`): `poll`, `ppoll`, `select`, `pselect6` and `epoll_wait`.

A call looks at every descriptor it is asked about.  If one is ready it answers; otherwise it
parks the task on the readiness sources of the others, with a deadline if it has a timeout.

* `readWatchOf`, `activityWatchOf`: the readiness source of a description;
* `pollEvents`, `selectScan`, `epollScan`: what a call finds, and the sources it would wait for;
* `Machine.poll`, `Machine.select`, `Machine.epollWait`: the calls up to their wait;
  `Machine.epollCtl`: the interest list;
* `Machine.passed`: the timeout a call is given, and `Machine.stored_deadline`: every deadline
  that a call stores is that of its timeout;
* `Machine.perform_parks`: what a call that waits parks its task with.

A set of descriptors is the number with a bit for each, as its words lie in memory.
-/

namespace WebTos.Proc

open Fd

/-! ### Readiness of a description -/

/-- `read_watch_of`: what becomes ready when a read makes progress; none when reads never
block. -/
def readWatchOf (d : Description) : Option Watch :=
  match d.backing with
  | .pipe inner false => some (.pipeReadable inner)
  | .socketPair rx _ => some (.pipeReadable rx)
  | .eventFd event => some (.event event)
  | .timerFd timer => some (.timer timer)
  | .net socket => some (.netReadable socket)
  | .ptyMaster pty => some (.ptyReadable pty true)
  | .ptySlave pty => some (.ptyReadable pty false)
  | .inotify inner => some (.inotifyReadable inner)
  | _ => none

/-- `desc_read_ready`. -/
def descReadReady (h : Heap) (now : ℕ) (d : Description) : Bool :=
  match readWatchOf d with
  | some watch => watch.ready h now
  | none => true

/-- `desc_write_ready`: pipes can fill, everything else accepts. -/
def descWriteReady (h : Heap) (d : Description) : Bool :=
  match d.backing with
  | .pipe inner true | .socketPair _ inner => (h.pipes inner).canWrite
  | _ => true

/-- A pipe that can be read has no writer left. -/
def descHungUp (h : Heap) (d : Description) : Bool :=
  match d.backing with
  | .pipe inner false => (h.pipes inner).writers == 0
  | _ => false

/-- `backing_activity`. -/
def backingActivity (h : Heap) (d : Description) : ℕ :=
  match d.backing with
  | .pipe inner _ => (h.pipes inner).activity
  | .socketPair rx tx => (h.pipes rx).activity + (h.pipes tx).activity
  | .eventFd event => (h.events event).activity
  | .inotify inner => (h.inotifys inner).activity
  | .net socket => (h.nets socket).activity
  | .ptyMaster pty | .ptySlave pty => (h.ptys pty).activity
  | _ => 0

/-- `activity_watch_of`. -/
def activityWatchOf (h : Heap) (d : Description) : Option Watch :=
  match d.backing with
  | .pipe inner _ => some (.pipeActivity inner (h.pipes inner).activity)
  | .socketPair rx _ => some (.pipeActivity rx (h.pipes rx).activity)
  | .eventFd event => some (.eventActivity event (h.events event).activity)
  | .ptyMaster pty | .ptySlave pty => some (.ptyActivity pty (h.ptys pty).activity)
  | _ => none

/-! ### `poll` and `ppoll` -/

/-- `POLLIN`. -/
def POLLIN : ℕ := 0x1
/-- `POLLOUT`. -/
def POLLOUT : ℕ := 0x4
/-- `POLLHUP`. -/
def POLLHUP : ℕ := 0x10
/-- `POLLNVAL`. -/
def POLLNVAL : ℕ := 0x20

/-- The records of `struct pollfd` in the bytes of an array of them. -/
def pollRecords (count : ℕ) (bytes : Bytes) : List Bytes :=
  (List.range count).map fun i => (bytes.drop (8 * i)).take 8

/-- The descriptor a record asks about; a negative one is a large number. -/
def recordFd (record : Bytes) : ℕ := Lib.leValue (record.take 4)

/-- The events a record asks for. -/
def recordEvents (record : Bytes) : ℕ := Lib.leValue ((record.drop 4).take 2)

/-- The events `sys_poll` finds for a record. -/
def pollEvents (h : Heap) (table : FdTable) (now : ℕ) (record : Bytes) : ℕ :=
  match table.get (recordFd record) with
  | .error _ => POLLNVAL
  | .ok entry =>
    let d := h.descs entry.desc
    let events := recordEvents record
    (if events &&& POLLIN ≠ 0 ∧ d.readable = true ∧ descReadReady h now d = true
      then POLLIN else 0) |||
    (if events &&& POLLOUT ≠ 0 ∧ d.writable = true ∧ descWriteReady h d = true
      then POLLOUT else 0) |||
    (if descHungUp h d then POLLHUP else 0)

/-- The pipe a write to the description goes to. -/
def writePipeOf (d : Description) : Option ℕ :=
  match d.backing with
  | .pipe inner true | .socketPair _ inner => some inner
  | _ => none

/-- The sources `outcome_poll` waits for on behalf of a record. -/
def pollWatches (h : Heap) (table : FdTable) (record : Bytes) : List Watch :=
  match table.get (recordFd record) with
  | .error _ => []
  | .ok entry =>
    let d := h.descs entry.desc
    let events := recordEvents record
    (if events &&& POLLIN ≠ 0 then (readWatchOf d).toList else []) ++
      if events &&& POLLOUT ≠ 0 then ((writePipeOf d).map Watch.pipeWritable).toList else []

namespace Machine

variable {M : Type} [UserMem M]

/-- The descriptor table of the running task. -/
def table (m : Machine M) : FdTable := m.kernel.heap.tables m.kernel.proc.fds

/-- The end of a wait for descriptors: until its timeout, or for as long as it takes. -/
def waitFor (m : Machine M) (watches : List Watch) (t : Timeout) : Verdict × Machine M :=
  match m.deadlineOf t with
  | .error errno => (.ret (.error errno), m)
  | .ok none => (.block (.waiting watches none), m)
  | .ok (some deadline) => (.timed (.waiting watches (some deadline)), m)

/-- The records with the events that were found written into them. -/
def answeredRecords (m : Machine M) (records : List Bytes) : Bytes :=
  records.flatMap fun record =>
    record.take 6 ++ Lib.leBytes 2 (pollEvents m.kernel.heap m.table m.kernel.now record)

/-- The number of records with an event. -/
def readyRecords (m : Machine M) (records : List Bytes) : ℕ :=
  records.countP fun record => pollEvents m.kernel.heap m.table m.kernel.now record != 0

/-- The number of records `sys_poll` looks at. -/
def pollCount (nfds : UInt64) : ℕ := min nfds.toNat 1024

/-- The end of `outcome_poll`: an answer, or the wait for the sources of a second reading of the
records. -/
def pollWait (m : Machine M) (fdsPtr nfds : UInt64) (ready : ℕ) (t : Timeout) :
    Verdict × Machine M :=
  match t.duration with
  | .error errno => (.ret (.error errno), m)
  | .ok duration =>
    if 0 < ready ∨ duration = some 0 then (.ret (.ok ready), m)
    else
      m.copyIn fdsPtr (8 * pollCount nfds) fun bytes m =>
        m.waitFor ((pollRecords (pollCount nfds) bytes).flatMap
          (pollWatches m.kernel.heap m.table)) t

/-- `outcome_poll`: `sys_poll`, and the wait when it found nothing. -/
def poll (m : Machine M) (fdsPtr nfds timeoutArg : UInt64) (isPpoll : Bool) :
    Verdict × Machine M :=
  m.copyIn fdsPtr (8 * pollCount nfds) fun bytes m =>
    let records := pollRecords (pollCount nfds) bytes
    let ready := m.readyRecords records
    m.copyOut fdsPtr (m.answeredRecords records) fun m =>
      if isPpoll then
        m.copyInSpec timeoutArg fun spec m => m.pollWait fdsPtr nfds ready (.ppoll spec)
      else m.pollWait fdsPtr nfds ready (.poll timeoutArg)

end Machine

/-! ### `select` and `pselect6` -/

/-- What the loop of `sys_select` has found: the ready descriptors, their number, and the
sources of the others. -/
structure SelectScan where
  readable : ℕ
  writable : ℕ
  count : ℕ
  watches : List Watch
  deriving DecidableEq, Repr

namespace SelectScan

/-- Nothing was looked at yet. -/
def start : SelectScan := ⟨0, 0, 0, []⟩

/-- A descriptor that is asked about for reading. -/
def read (s : SelectScan) (h : Heap) (now fd : ℕ) (d : Description) : SelectScan :=
  if d.readable && descReadReady h now d then
    { s with readable := s.readable ||| 2 ^ fd, count := s.count + 1 }
  else { s with watches := s.watches ++ (readWatchOf d).toList }

/-- A descriptor that is asked about for writing. -/
def write (s : SelectScan) (h : Heap) (fd : ℕ) (d : Description) : SelectScan :=
  if d.writable && descWriteReady h d then
    { s with writable := s.writable ||| 2 ^ fd, count := s.count + 1 }
  else s

end SelectScan

/-- The loop of `sys_select` over the descriptors still to look at.  One that is not open ends
the call. -/
def selectScan (h : Heap) (table : FdTable) (now rset wset : ℕ) :
    List ℕ → SelectScan → Option SelectScan
  | [], s => some s
  | fd :: fds, s =>
    if !rset.testBit fd && !wset.testBit fd then selectScan h table now rset wset fds s
    else
      match table.get fd with
      | .error _ => none
      | .ok entry =>
        let d := h.descs entry.desc
        let s := if rset.testBit fd then s.read h now fd d else s
        let s := if wset.testBit fd then s.write h fd d else s
        selectScan h table now rset wset fds s

namespace Machine

variable {M : Type} [UserMem M]

/-- The number of descriptors `sys_select` looks at. -/
def selectCount (nfds : UInt64) : ℕ := min nfds.toNat 1024

/-- The bytes of a set of that many descriptors, in whole words. -/
def setBytes (count : ℕ) : ℕ := (count + 63) / 64 * 8

/-- A set of descriptors is read, unless the pointer is null. -/
def readSet (m : Machine M) (bytes : ℕ) (ptr : UInt64) : Copy ℕ × Machine M :=
  if ptr = 0 ∨ bytes = 0 then (.done 0, m)
  else
    match m.readMem ptr bytes with
    | (.done set, m) => (.done (Lib.leValue set), m)
    | (.efault, m) => (.efault, m)
    | (.eio, m) => (.eio, m)
    | (.cold, m) => (.cold, m)

/-- A set of descriptors is written back, unless the pointer is null. -/
def writeSet (m : Machine M) (bytes : ℕ) (ptr : UInt64) (set : ℕ)
    (next : Machine M → Verdict × Machine M) : Verdict × Machine M :=
  if ptr = 0 then next m else m.copyOut ptr (Lib.leBytes bytes set) next

/-- The end of `sys_select`: the wait, or the ready sets and their number. -/
def selectAnswer (m : Machine M) (bytes : ℕ) (readfds writefds exceptfds : UInt64)
    (found : SelectScan) (t : Timeout) : Verdict × Machine M :=
  match t.duration with
  | .error errno => (.ret (.error errno), m)
  | .ok duration =>
    if found.count = 0 ∧ duration ≠ some 0 then m.waitFor found.watches t
    else
      m.writeSet bytes readfds found.readable fun m =>
        m.writeSet bytes writefds found.writable fun m =>
          m.writeSet bytes exceptfds 0 fun m => (.ret (.ok found.count), m)

/-- `sys_select`.  A set that cannot be read is an `EFAULT`, whatever the reason. -/
def select (m : Machine M) (nfds readfds writefds exceptfds timeoutPtr : UInt64)
    (timespec : Bool) : Verdict × Machine M :=
  let bytes := setBytes (selectCount nfds)
  let (rset, m) := m.readSet bytes readfds
  let (wset, m) := m.readSet bytes writefds
  match rset, wset with
  | .done rset, .done wset =>
    match selectScan m.kernel.heap m.table m.kernel.now rset wset
        (List.range (selectCount nfds)) .start with
    | none => (.ret (.error .EBADF), m)
    | some found =>
      m.copyInSpec timeoutPtr fun spec m =>
        m.selectAnswer bytes readfds writefds exceptfds found
          (if timespec then .pselect6 spec else .select spec)
  | _, _ => (.ret (.error .EFAULT), m)

end Machine

/-! ### `epoll_wait` and `epoll_ctl` -/

end WebTos.Proc

namespace WebTos.Fd

namespace Conditions

/-- No condition. -/
def none : Conditions := ⟨false, false, false⟩

/-- The conditions of the first that are not among the second. -/
def diff (c c' : Conditions) : Conditions :=
  ⟨c.readable && !c'.readable, c.writable && !c'.writable, c.hangup && !c'.hangup⟩

/-- The bits `EPOLLIN`, `EPOLLOUT` and `EPOLLHUP`. -/
def bits (c : Conditions) : ℕ :=
  (if c.readable then 0x1 else 0) + (if c.writable then 0x4 else 0) +
    if c.hangup then 0x10 else 0

end Conditions

/-- One edge a scan found is recorded: what was delivered, or that nothing holds any more. -/
def EpollInner.recordEdge (epoll : EpollInner) (found : ℕ × Conditions × ℕ) : EpollInner :=
  { epoll with
    edgeFired := if found.2.1 = Conditions.none then epoll.edgeFired.erase found.1
      else epoll.edgeFired.insert found.1 found.2 }

/-- The edges a scan found are recorded. -/
def EpollInner.recordEdges (epoll : EpollInner) (found : List (ℕ × Conditions × ℕ)) :
    EpollInner :=
  found.foldl EpollInner.recordEdge epoll

end WebTos.Fd

namespace WebTos.Proc

open Fd

/-- The conditions of an interest that hold. -/
def firedFor (h : Heap) (now : ℕ) (d : Description) (i : Interest) : Conditions where
  readable := i.epollin && d.readable && descReadReady h now d
  hangup := descHungUp h d
  writable := i.epollout && d.writable && descWriteReady h d

/-- The source an interest in reading is waited for with, when it is not ready. -/
def interestWatches (h : Heap) (now : ℕ) (d : Description) (i : Interest) : List Watch :=
  if i.epollin && !(d.readable && descReadReady h now d) then (readWatchOf d).toList else []

/-- What the scan of `sys_epoll_wait` has found: the reports, the sources to wait for, and the
edges to record. -/
structure EpollScan where
  ready : List (Conditions × UInt64)
  watches : List Watch
  newFired : List (ℕ × Conditions × ℕ)
  deriving DecidableEq, Repr

namespace EpollScan

/-- Nothing was looked at yet. -/
def start : EpollScan := ⟨[], [], []⟩

/-- The edge-triggered part of the scan, for one descriptor: the conditions delivered before
stay suppressed while the activity does not move. -/
def edge (s : EpollScan) (h : Heap) (maxEvents fd : ℕ) (d : Description) (i : Interest)
    (fired : Conditions) (delivered : Option (Conditions × ℕ)) : EpollScan :=
  let activity := backingActivity h d
  let (prevMask, prevActivity) := delivered.getD (Conditions.none, activity)
  let prev := if activity = prevActivity then prevMask else Conditions.none
  let report := fired.diff prev
  let newFired := if fired ≠ prevMask ∨ activity ≠ prevActivity
    then s.newFired ++ [(fd, fired, activity)] else s.newFired
  if report ≠ Conditions.none ∧ s.ready.length < maxEvents then
    { s with ready := s.ready ++ [(report, i.data)], newFired }
  else if fired ≠ Conditions.none then
    { s with watches := s.watches ++ (activityWatchOf h d).toList, newFired }
  else { s with newFired }

/-- One descriptor of the interest list. -/
def visit (h : Heap) (table : FdTable) (now maxEvents : ℕ) (epoll : EpollInner) (s : EpollScan)
    (entry : ℕ × Interest) : EpollScan :=
  match table.get entry.1 with
  | .error _ => s
  | .ok slot =>
    let d := h.descs slot.desc
    let fired := firedFor h now d entry.2
    let s := { s with watches := s.watches ++ interestWatches h now d entry.2 }
    if entry.2.epollet then
      s.edge h maxEvents entry.1 d entry.2 fired (epoll.edgeFired[entry.1]?)
    else if fired ≠ Conditions.none ∧ s.ready.length < maxEvents then
      { s with ready := s.ready ++ [(fired, entry.2.data)] }
    else s

end EpollScan

/-- The scan of `sys_epoll_wait`, in the order of the descriptors. -/
def epollScan (h : Heap) (table : FdTable) (now maxEvents : ℕ) (epoll : EpollInner) : EpollScan :=
  epoll.interests.toList.foldl (EpollScan.visit h table now maxEvents epoll) .start

namespace Machine

variable {M : Type} [UserMem M]

/-- `epoll_of`. -/
def epollOf (m : Machine M) (fd : ℕ) : SysResult ℕ :=
  match m.descOf fd with
  | .error errno => .error errno
  | .ok desc =>
    match desc.backing with
    | .epoll inner => .ok inner
    | _ => .error .EINVAL

/-- The machine with one epoll instance changed. -/
def setEpoll (m : Machine M) (inner : ℕ) (epoll : EpollInner) : Machine M :=
  { m with kernel := { m.kernel with heap := { m.kernel.heap with
    epolls := Function.update m.kernel.heap.epolls inner epoll } } }

/-- `struct epoll_event`s. -/
def eventBytes (ready : List (Conditions × UInt64)) : Bytes :=
  ready.flatMap fun event => Lib.leBytes 4 event.1.bits ++ Lib.leBytes 8 event.2.toNat

/-- The number of events `epoll_wait` reports at most. -/
def maxEventsOf (arg : UInt64) : ℕ := max 1 (min arg.toNat 256)

/-- `sys_epoll_wait`.  The edges are recorded before the answer is written. -/
def epollWait (m : Machine M) (epfd : ℕ) (eventsPtr maxEvents timeout : UInt64) :
    Verdict × Machine M :=
  match m.epollOf epfd with
  | .error errno => (.ret (.error errno), m)
  | .ok inner =>
    let epoll := m.kernel.heap.epolls inner
    let found := epollScan m.kernel.heap m.table m.kernel.now (maxEventsOf maxEvents) epoll
    let m := m.setEpoll inner (epoll.recordEdges found.newFired)
    if found.ready ≠ [] then
      m.copyOut eventsPtr (eventBytes found.ready) fun m => (.ret (.ok found.ready.length), m)
    else if millisNanos timeout = some 0 then (.ret (.ok 0), m)
    else m.waitFor found.watches (.epollWait timeout)

/-- `EPOLL_CTL_ADD`, `EPOLL_CTL_MOD` and `EPOLL_CTL_DEL`. -/
inductive EpollOp where
  | add | mod | del
  deriving DecidableEq, Repr

/-- `EPOLL_CTL_ADD` and its like, by number. -/
def epollOpOf (op : UInt64) : Option EpollOp :=
  if op = 1 then some .add else if op = 2 then some .del else if op = 3 then some .mod else none

/-- The interest of a `struct epoll_event`. -/
def interestOf (bytes : Bytes) : Interest :=
  let events := Lib.leValue (bytes.take 4)
  { epollin := events &&& 0x1 != 0
    epollout := events &&& 0x4 != 0
    epollet := events &&& 0x80000000 != 0
    data := (Lib.leValue (bytes.drop 4)).toUInt64 }

/-- `EPOLL_CTL_ADD` and `EPOLL_CTL_MOD`: an entry starts with no edge delivered. -/
def epollSet (m : Machine M) (inner fd : ℕ) (op : EpollOp) (eventPtr : UInt64) :
    Verdict × Machine M :=
  match m.table.get fd with
  | .error errno => (.ret (.error errno), m)
  | .ok _ =>
    m.copyIn eventPtr 12 fun bytes m =>
      let epoll := m.kernel.heap.epolls inner
      if op = .add ∧ fd ∈ epoll.interests then (.ret (.error .EEXIST), m)
      else (.ret (.ok 0), m.setEpoll inner
        ⟨epoll.interests.insert fd (interestOf bytes), epoll.edgeFired.erase fd⟩)

/-- `sys_epoll_ctl`. -/
def epollCtl (m : Machine M) (epfd : ℕ) (op : UInt64) (fd : ℕ) (eventPtr : UInt64) :
    Verdict × Machine M :=
  match m.epollOf epfd with
  | .error errno => (.ret (.error errno), m)
  | .ok inner =>
    match epollOpOf op with
    | none => (.ret (.error .EINVAL), m)
    | some .del =>
      let epoll := m.kernel.heap.epolls inner
      if fd ∈ epoll.interests then
        (.ret (.ok 0), m.setEpoll inner
          ⟨epoll.interests.erase fd, epoll.edgeFired.erase fd⟩)
      else (.ret (.error .ENOENT), m)
    | some op => m.epollSet inner fd op eventPtr

end Machine

/-! ### The deadlines that are stored -/

/-- The deadline of a wait. -/
def ParkState.deadline : ParkState → Option ℕ
  | .futex _ _ deadline | .waiting _ deadline => deadline
  | _ => none

/-- A call that takes a timeout, with its arguments. -/
inductive DeadlineCall where
  | futex (addr op val timeoutPtr : UInt64)
  | nanosleep (req : UInt64)
  | clockNanosleep (flags req : UInt64)
  | poll (fdsPtr nfds timeout : UInt64)
  | ppoll (fdsPtr nfds timeoutPtr : UInt64)
  | select (nfds readfds writefds exceptfds timeoutPtr : UInt64)
  | pselect6 (nfds readfds writefds exceptfds timeoutPtr : UInt64)
  | epollWait (epfd : ℕ) (eventsPtr maxEvents timeout : UInt64)
  | timerfdSettime (fd : ℕ) (flags newValue oldValue : UInt64)

/-- `TIMER_ABSTIME`. -/
def TIMER_ABSTIME : UInt64 := 1

/-- How the call means its timeout. -/
def DeadlineCall.timedCall : DeadlineCall → TimedCall
  | .futex _ op _ _ => .futex op
  | .nanosleep _ => .sleep false
  | .clockNanosleep flags _ => .sleep (flags &&& TIMER_ABSTIME != 0)
  | .poll .. => .poll
  | .ppoll .. => .ppoll
  | .select .. => .select
  | .pselect6 .. => .pselect6
  | .epollWait .. => .epollWait
  | .timerfdSettime _ flags _ _ => .timerfd flags

/-- The waits a call can come to. -/
def DeadlineCall.WaitsIn : DeadlineCall → Blocking → Prop
  | .futex addr _ _ _, .futex waiting _ => waiting = addr.toNat
  | .nanosleep _, .nanosleep _ | .clockNanosleep _ _, .nanosleep _ => True
  | .poll .., .poll _ _ | .ppoll .., .poll _ _ => True
  | .select .., .select _ _ | .pselect6 .., .select _ _ => True
  | .epollWait .., .epollWait _ _ => True
  | _, _ => False

/-- The verdict of a call that waits: behind the call if the wait has a deadline. -/
def Blocking.verdict (wait : Blocking) : Verdict :=
  if wait.deadline.isSome then .timed wait.state else .block wait.state

lemma Blocking.deadline_state (wait : Blocking) : wait.state.deadline = wait.deadline := by
  cases wait <;> rfl

namespace Machine

variable {M : Type} [UserMem M]

/-- `dispatch`, for the calls that take a timeout, up to their wait. -/
def perform (m : Machine M) : DeadlineCall → Verdict × Machine M
  | .futex addr op val timeoutPtr => m.futex addr op val timeoutPtr
  | .nanosleep req => m.nanosleep req false
  | .clockNanosleep flags req => m.nanosleep req (flags &&& TIMER_ABSTIME != 0)
  | .poll fdsPtr nfds timeout => m.poll fdsPtr nfds timeout false
  | .ppoll fdsPtr nfds timeoutPtr => m.poll fdsPtr nfds timeoutPtr true
  | .select nfds readfds writefds exceptfds timeoutPtr =>
    m.select nfds readfds writefds exceptfds timeoutPtr false
  | .pselect6 nfds readfds writefds exceptfds timeoutPtr =>
    m.select nfds readfds writefds exceptfds timeoutPtr true
  | .epollWait epfd eventsPtr maxEvents timeout => m.epollWait epfd eventsPtr maxEvents timeout
  | .timerfdSettime fd flags newValue oldValue => m.sysTimerfdSettime fd flags newValue oldValue

/-- The deadline a call stores: in the wait it parks the task with, or in the timer it arms. -/
def stored (m : Machine M) (c : DeadlineCall) : Option ℕ :=
  match c with
  | .timerfdSettime fd _ _ _ =>
    match m.timerOf fd, m.perform c with
    | .ok timer, (.ret (.ok _), m') => (m'.kernel.heap.timers timer).nextExpiry
    | _, _ => none
  | c =>
    match (m.perform c).1 with
    | .timed state | .block state => state.deadline
    | _ => none

/-- The machine when the call reads its timeout, behind the copies before it. -/
def atTimeout (m : Machine M) : DeadlineCall → Machine M
  | .futex addr _ _ _ => (m.readMem addr 4).2
  | .ppoll fdsPtr nfds _ =>
    match m.readMem fdsPtr (8 * pollCount nfds) with
    | (.done bytes, m) =>
      (m.writeMem fdsPtr (m.answeredRecords (pollRecords (pollCount nfds) bytes))).2
    | (_, m) => m
  | .select nfds readfds writefds _ _ | .pselect6 nfds readfds writefds _ _ =>
    let bytes := setBytes (selectCount nfds)
    ((m.readSet bytes readfds).2.readSet bytes writefds).2
  | .timerfdSettime fd _ _ oldValue =>
    match m.timerOf fd with
    | .ok timer =>
      if oldValue = 0 then m
      else (m.writeMem oldValue (itimerspec (m.kernel.heap.timers timer) m.kernel.now)).2
    | .error _ => m
  | _ => m

/-- The structure a pointer names, if it can be read; a null pointer names none. -/
def specAt (m : Machine M) (ptr : UInt64) : Option (Option Bytes) :=
  if ptr = 0 then some none
  else
    match (m.readMem ptr 16).1 with
    | .done bytes => some (some bytes)
    | _ => none

/-- The timeout the guest passes: the bytes at the pointer when the call reads them, or the
register. -/
def passed (m : Machine M) (c : DeadlineCall) : Option Timeout :=
  match c with
  | .futex _ op _ timeoutPtr => ((m.atTimeout c).specAt timeoutPtr).map (.futex op)
  | .nanosleep req => (m.specAt req).map (.sleep false)
  | .clockNanosleep flags req => (m.specAt req).map (.sleep (flags &&& TIMER_ABSTIME != 0))
  | .poll _ _ timeout => some (.poll timeout)
  | .ppoll _ _ timeoutPtr => ((m.atTimeout c).specAt timeoutPtr).map .ppoll
  | .select _ _ _ _ timeoutPtr => ((m.atTimeout c).specAt timeoutPtr).map .select
  | .pselect6 _ _ _ _ timeoutPtr => ((m.atTimeout c).specAt timeoutPtr).map .pselect6
  | .epollWait _ _ _ timeout => some (.epollWait timeout)
  | .timerfdSettime _ flags newValue _ =>
    match (m.atTimeout c).readMem newValue 16 with
    | (.done interval, m) =>
      match (m.readMem (newValue + 16) 16).1 with
      | .done value => some (.timerfd flags newValue interval value)
      | _ => none
    | _ => none

/-- A copy leaves the clock and everything a call looks at. -/
structure Quiet (m m' : Machine M) : Prop where
  touched : Touched m m'
  epoch : m'.epochBaseSec = m.epochBaseSec

namespace Quiet

variable {m m' m'' : Machine M}

omit [UserMem M]

lemma refl (m : Machine M) : Quiet m m := ⟨.refl m, rfl⟩

lemma trans (h : Quiet m m') (h' : Quiet m' m'') : Quiet m m'' :=
  ⟨h.touched.trans h'.touched, h'.epoch.trans h.epoch⟩

lemma deadlineOf (h : Quiet m m') (t : Timeout) : m'.deadlineOf t = m.deadlineOf t := by
  rw [Machine.deadlineOf, Machine.deadlineOf, epochBase, epochBase, h.touched.now, h.epoch]

end Quiet

lemma readMem_quiet (m : Machine M) (addr : UInt64) (len : ℕ) : Quiet m (m.readMem addr len).2 := by
  rw [readMem]
  dsimp only
  split <;> exact ⟨⟨rfl, rfl, rfl, rfl, rfl, ⟨rfl, rfl, rfl, rfl⟩, rfl, rfl, rfl, rfl⟩, rfl⟩

lemma writeMem_quiet (m : Machine M) (addr : UInt64) (bytes : Bytes) :
    Quiet m (m.writeMem addr bytes).2 := by
  refine ⟨m.writeMem_touched addr bytes, ?_⟩
  rw [writeMem]
  dsimp only
  split <;> rfl

variable {next : Machine M → Verdict × Machine M} {ptr : UInt64}

section Rules

variable {P : Verdict × Machine M → Prop} {m : Machine M}

omit [UserMem M] in
/-- What a call comes to when it copies: it fails, or goes on. -/
lemma copied_rule {α : Type} {next : α → Machine M → Verdict × Machine M}
    {r : Copy α × Machine M} (herror : ∀ errno m', P (.ret (.error errno), m'))
    (hcold : ∀ m', P (.suspended, m'))
    (hnext : ∀ value m', r = (.done value, m') → P (next value m')) :
    P (copied next r) := by
  obtain ⟨result, m'⟩ := r
  cases result with
  | done value => exact hnext value m' rfl
  | efault | eio => exact herror _ _
  | cold => exact hcold _

variable {addr : UInt64} (herror : ∀ errno m', P (.ret (.error errno), m'))
  (hcold : ∀ m', P (.suspended, m'))
include herror hcold

/-- A copy from the guest: the call goes on with the bytes, or fails, or waits for a page. -/
lemma copyIn_rule {len : ℕ} {next : Bytes → Machine M → Verdict × Machine M}
    (hnext : ∀ bytes m', m.readMem addr len = (.done bytes, m') → Quiet m m' →
      P (next bytes m')) : P (m.copyIn addr len next) := by
  refine copied_rule herror hcold fun bytes m' hread => hnext bytes m' hread ?_
  have hquiet := m.readMem_quiet addr len
  rwa [hread] at hquiet

/-- A copy to the guest. -/
lemma copyOut_rule {bytes : Bytes}
    (hnext : ∀ m', (m.writeMem addr bytes).2 = m' → Quiet m m' → P (next m')) :
    P (m.copyOut addr bytes next) := by
  refine copied_rule herror hcold fun _ m' hwrite => ?_
  obtain rfl : (m.writeMem addr bytes).2 = m' := congrArg Prod.snd hwrite
  exact hnext _ rfl (m.writeMem_quiet addr bytes)

/-- A timeout that may be absent: a null pointer is not read. -/
lemma copyInSpec_rule {next : Option Bytes → Machine M → Verdict × Machine M}
    (hnext : ∀ spec m', m.specAt ptr = some spec → Quiet m m' → P (next spec m')) :
    P (m.copyInSpec ptr next) := by
  rw [copyInSpec]
  split
  · rename_i hnull
    exact hnext none m (if_pos hnull) (.refl m)
  rename_i hptr
  refine copyIn_rule herror hcold fun bytes m' hread hm => hnext (some bytes) m' ?_ hm
  rw [specAt, if_neg hptr, hread]

end Rules

/-- A call that comes to a wait parks its task as that wait does, and the wait's deadline is that
of the timeout. -/
def StoresFor (m : Machine M) (c : DeadlineCall) (r : Verdict × Machine M) : Prop :=
  (∀ wait, r.1 ≠ .timed wait ∧ r.1 ≠ .block wait) ∨
    ∃ wait, c.WaitsIn wait ∧ r.1 = wait.verdict ∧ m.ctx.cpu.Same r.2.ctx.cpu ∧
      ∀ d, wait.deadline = some d → ∃ t, m.passed c = some t ∧ m.deadlineOf t = .ok (some d)

namespace StoresFor

variable {m m' : Machine M} {c : DeadlineCall}

lemma ret (result : SysResult ℕ) (m' : Machine M) : m.StoresFor c (.ret result, m') :=
  .inl fun _ => ⟨fun h => (by cases h), fun h => (by cases h)⟩

lemma suspended (m' : Machine M) : m.StoresFor c (.suspended, m') :=
  .inl fun _ => ⟨fun h => (by cases h), fun h => (by cases h)⟩

/-- The wait for descriptors, as one of the waits of the call. -/
lemma waitFor (hcpu : m.ctx.cpu.Same m'.ctx.cpu) (watches : List Watch) {t : Timeout}
    (ht : m.passed c = some t) (hdeadline : m'.deadlineOf t = m.deadlineOf t)
    (hwaits : ∀ deadline, ∃ wait, c.WaitsIn wait ∧ wait.state = .waiting watches deadline ∧
      wait.deadline = deadline) :
    m.StoresFor c (m'.waitFor watches t) := by
  rw [Machine.waitFor, hdeadline]
  rcases hdue : m.deadlineOf t with errno | deadline
  · exact ret _ _
  obtain ⟨wait, hc, hstate, rfl⟩ := hwaits deadline
  cases hwait : wait.deadline with
  | none =>
    refine .inr ⟨wait, hc, ?_, hcpu, fun d hd => ?_⟩
    · rw [Blocking.verdict, hwait, hstate, hwait]
      rfl
    · rw [hwait] at hd
      cases hd
  | some deadline =>
    refine .inr ⟨wait, hc, ?_, hcpu, fun d hd => ⟨t, ht, ?_⟩⟩
    · rw [Blocking.verdict, hwait, hstate, hwait]
      rfl
    · rw [← hd, hdue]

/-- The wait of `poll`, after its answers were written. -/
lemma pollWait (h : Quiet m m') (fdsPtr nfds : UInt64) (ready : ℕ) {t : Timeout}
    (ht : m.passed c = some t) (hc : ∀ watches deadline, c.WaitsIn (.poll watches deadline)) :
    m.StoresFor c (m'.pollWait fdsPtr nfds ready t) := by
  rw [Machine.pollWait]
  split
  · exact ret _ _
  split
  · exact ret _ _
  · exact copyIn_rule (fun _ _ => ret _ _) (fun _ => suspended _) fun bytes m'' _ hm =>
      waitFor (h.trans hm).touched.cpu _ ht ((h.trans hm).deadlineOf t)
        fun deadline => ⟨.poll _ deadline, hc _ _, rfl, rfl⟩

/-- `poll` and `ppoll`: the timeout is read after the answers were written. -/
lemma poll (m : Machine M) (fdsPtr nfds timeoutArg : UInt64) (isPpoll : Bool) :
    m.StoresFor (bif isPpoll then .ppoll fdsPtr nfds timeoutArg
      else .poll fdsPtr nfds timeoutArg) (m.poll fdsPtr nfds timeoutArg isPpoll) := by
  refine copyIn_rule (fun _ _ => ret _ _) (fun _ => suspended _) fun bytes m₁ hread h₁ => ?_
  refine copyOut_rule (fun _ _ => ret _ _) (fun _ => suspended _) fun m₂ hwrite h₂ => ?_
  have h₂ := h₁.trans h₂
  cases isPpoll with
  | false => exact pollWait (c := .poll fdsPtr nfds timeoutArg) h₂ _ _ _ rfl fun _ _ => trivial
  | true =>
    rw [if_pos rfl]
    refine copyInSpec_rule (fun _ _ => ret _ _) (fun _ => suspended _)
      fun spec m₃ hspec h₃ => pollWait (h₂.trans h₃) _ _ _ ?_ fun _ _ => trivial
    simp only [cond_true, passed, atTimeout, hread, hwrite, hspec, Option.map_some]

/-- A set that is not asked for is not written. -/
lemma writeSet {bytes set : ℕ} (hnext : ∀ m', m.StoresFor c (next m')) :
    m.StoresFor c (m'.writeSet bytes ptr set next) := by
  rw [Machine.writeSet]
  split
  · exact hnext m'
  · exact copyOut_rule (fun _ _ => ret _ _) (fun _ => suspended _) fun m'' _ _ => hnext m''

/-- The end of `select`: an answer, an error or a wait. -/
lemma selectAnswer (h : Quiet m m') (bytes : ℕ) (readfds writefds exceptfds : UInt64)
    (found : SelectScan) {t : Timeout} (ht : m.passed c = some t)
    (hc : ∀ watches deadline, c.WaitsIn (.select watches deadline)) :
    m.StoresFor c (m'.selectAnswer bytes readfds writefds exceptfds found t) := by
  rw [Machine.selectAnswer]
  split
  · exact ret _ _
  split
  · exact waitFor h.touched.cpu _ ht (h.deadlineOf t)
      fun deadline => ⟨.select _ deadline, hc _ _, rfl, rfl⟩
  · exact writeSet fun _ => writeSet fun _ => writeSet fun _ => ret _ _

end StoresFor

lemma readSet_quiet (m : Machine M) (bytes : ℕ) (ptr : UInt64) :
    Quiet m (m.readSet bytes ptr).2 := by
  have hread := m.readMem_quiet ptr bytes
  rw [readSet]
  split
  · exact .refl m
  · split <;> rename_i heq <;> rw [heq] at hread <;> exact hread

namespace StoresFor

/-- `select` and `pselect6` read their sets first and the timeout after them. -/
lemma select (m : Machine M) (nfds readfds writefds exceptfds timeoutPtr : UInt64)
    (timespec : Bool) :
    m.StoresFor (bif timespec then .pselect6 nfds readfds writefds exceptfds timeoutPtr
        else .select nfds readfds writefds exceptfds timeoutPtr)
      (m.select nfds readfds writefds exceptfds timeoutPtr timespec) := by
  rw [Machine.select]
  dsimp only
  have hsets := (m.readSet_quiet (setBytes (selectCount nfds)) readfds).trans
    (readSet_quiet _ (setBytes (selectCount nfds)) writefds)
  split
  · split
    · exact ret _ _
    refine copyInSpec_rule (fun _ _ => ret _ _) (fun _ => suspended _) fun spec m₁ hspec h₁ => ?_
    -- the two calls differ in how the bytes are read
    cases timespec <;>
      exact selectAnswer (hsets.trans h₁) _ _ _ _ _ (congrArg (Option.map _) hspec)
        fun _ _ => trivial
  · exact ret _ _

/-- `epoll_wait` has its timeout in a register. -/
lemma epollWait (m : Machine M) (epfd : ℕ) (eventsPtr maxEvents timeout : UInt64) :
    m.StoresFor (.epollWait epfd eventsPtr maxEvents timeout)
      (m.epollWait epfd eventsPtr maxEvents timeout) := by
  rw [Machine.epollWait]
  split
  · exact ret _ _
  dsimp only
  split
  · exact copyOut_rule (fun _ _ => ret _ _) (fun _ => suspended _) fun _ _ _ => ret _ _
  split
  · exact ret _ _
  · exact waitFor (.refl _) _ rfl rfl fun deadline => ⟨.epollWait _ deadline, trivial, rfl, rfl⟩

/-- A sleep always has a deadline. -/
lemma sleep {m : Machine M} {c : DeadlineCall} {req : UInt64} {absolute : Bool}
    (hc : ∀ deadline, c.WaitsIn (.nanosleep deadline))
    (hpassed : m.passed c = (m.specAt req).map (.sleep absolute)) :
    m.StoresFor c (m.nanosleep req absolute) := by
  refine copyInSpec_rule (fun _ _ => ret _ _) (fun _ => suspended _) fun spec m₁ hspec h₁ => ?_
  rw [h₁.deadlineOf]
  split
  · exact ret _ _
  rename_i deadline hdeadline
  -- a null pointer and a valid time both give one
  obtain ⟨d, rfl⟩ : ∃ d, deadline = some d := by
    rw [deadlineOf, Timeout.deadline] at hdeadline
    cases spec with
    | none =>
      cases hdeadline
      exact ⟨_, rfl⟩
    | some bytes =>
      rw [Timeout.duration] at hdeadline
      cases hnanos : timespecNanos bytes with
      | error =>
        rw [hnanos] at hdeadline
        cases hdeadline
      | ok =>
        rw [hnanos] at hdeadline
        cases hdeadline
        exact ⟨_, rfl⟩
  refine .inr ⟨.nanosleep d, hc d, rfl, h₁.touched.cpu,
    fun d' hd' => ⟨.sleep absolute spec, ?_, ?_⟩⟩
  · rw [hpassed, hspec, Option.map_some]
  · rw [← hd', hdeadline]
    rfl

/-- `FUTEX_WAIT` reads the word and then the timeout; without one it has no deadline. -/
lemma futex (m : Machine M) (addr op val timeoutPtr : UInt64) :
    m.StoresFor (.futex addr op val timeoutPtr) (m.futex addr op val timeoutPtr) := by
  rw [Machine.futex]
  split
  · refine copyIn_rule (fun _ _ => ret _ _) (fun _ => suspended _) fun bytes m₁ hread h₁ => ?_
    split
    · exact ret _ _
    -- the word has the value; only now the timeout is read
    refine copyInSpec_rule (fun _ _ => ret _ _) (fun _ => suspended _) fun spec m₂ hspec h₂ => ?_
    have hcpu := (h₁.trans h₂).touched.cpu
    cases spec with
    | none => exact .inr ⟨.futex addr.toNat none, rfl, rfl, hcpu, fun d hd => by cases hd⟩
    | some spec =>
      dsimp only
      split
      · exact ret _ _
      rename_i duration hduration
      refine .inr ⟨.futex addr.toNat (some _), rfl, rfl, hcpu, fun d hd => ⟨.futex op spec, ?_, ?_⟩⟩
      · rw [passed, atTimeout, hread, hspec, Option.map_some]
      · cases hd
        rw [← (h₁.trans h₂).deadlineOf, deadlineOf, Timeout.deadline, Timeout.duration, hduration]
        rfl
  · split <;> exact ret _ _

/-- Every call but the one that sets a timer. -/
lemma perform (m : Machine M) {c : DeadlineCall}
    (hc : ∀ fd flags newValue oldValue, c ≠ .timerfdSettime fd flags newValue oldValue) :
    m.StoresFor c (m.perform c) := by
  cases c with
  | futex addr op val timeoutPtr => exact futex m addr op val timeoutPtr
  | nanosleep | clockNanosleep => exact sleep (fun _ => trivial) rfl
  | poll fdsPtr nfds timeout => exact poll m fdsPtr nfds timeout false
  | ppoll fdsPtr nfds timeoutPtr => exact poll m fdsPtr nfds timeoutPtr true
  | select nfds readfds writefds exceptfds timeoutPtr =>
    exact select m nfds readfds writefds exceptfds timeoutPtr false
  | pselect6 nfds readfds writefds exceptfds timeoutPtr =>
    exact select m nfds readfds writefds exceptfds timeoutPtr true
  | epollWait epfd eventsPtr maxEvents timeout =>
    exact epollWait m epfd eventsPtr maxEvents timeout
  | timerfdSettime fd flags newValue oldValue => exact absurd rfl (hc fd flags newValue oldValue)

end StoresFor

/-- **What a call that waits parks its task with**: the state of a wait of this call, and the CPU
state of the call, ready to go on behind it if the wait has a deadline. -/
theorem perform_parks (m : Machine M) {c : DeadlineCall}
    (hc : ∀ fd flags newValue oldValue, c ≠ .timerfdSettime fd flags newValue oldValue)
    {state : ParkState} (h : (m.perform c).1 = .timed state ∨ (m.perform c).1 = .block state) :
    ∃ wait, c.WaitsIn wait ∧ m.ctx.cpu.Same (m.perform c).2.ctx.cpu ∧
      conclude (m.perform c) = (((m.perform c).2.setCpu
        (waitCpu (m.perform c).2.ctx.cpu wait.deadline)).parkCurrent wait.state).yieldCpu := by
  rcases StoresFor.perform m hc with hnone | ⟨wait, hwaits, hverdict, hcpu, -⟩
  · rcases h with h | h
    · exact absurd h (hnone state).1
    · exact absurd h (hnone state).2
  refine ⟨wait, hwaits, hcpu, ?_⟩
  generalize m.perform c = r at hverdict ⊢
  obtain ⟨verdict, m'⟩ := r
  obtain rfl : verdict = wait.verdict := hverdict
  rw [Blocking.verdict]
  cases wait.deadline <;> rfl

/-- A timer that was armed has the deadline of the timeout. -/
def Arms (m : Machine M) (timer : ℕ) (t : Option Timeout) (r : Verdict × Machine M) : Prop :=
  ∀ n, r.1 = .ret (.ok n) → ∃ passed, t = some passed ∧
    m.deadlineOf passed = .ok (r.2.kernel.heap.timers timer).nextExpiry

namespace Arms

variable {m m' : Machine M} {timer : ℕ} {t : Option Timeout} {flags newValue : UInt64}

omit [UserMem M] in
lemma error (errno : Errno) (m' : Machine M) : m.Arms timer t (.ret (.error errno), m') := by
  intro n h
  cases h

omit [UserMem M] in
lemma suspended (m' : Machine M) : m.Arms timer t (.suspended, m') := by
  intro n h
  cases h

/-- Arming a timer stores the deadline of the two times it reads. -/
lemma armTimer (h : Quiet m m') (ht : ∀ interval value m₁,
      m'.readMem newValue 16 = (.done interval, m₁) →
      (m₁.readMem (newValue + 16) 16).1 = .done value →
      t = some (.timerfd flags newValue interval value)) :
    m.Arms timer t (m'.armTimer timer flags newValue) := by
  refine copyIn_rule error suspended fun interval m₁ hread h₁ => ?_
  split
  · exact error _ _
  refine copyIn_rule error suspended fun value m₂ hread' h₂ => ?_
  rw [((h.trans h₁).trans h₂).deadlineOf]
  split
  · exact error _ _
  rename_i expiry hexpiry
  intro n _
  refine ⟨_, ht interval value m₁ hread (by rw [hread']), ?_⟩
  rw [hexpiry, setTimer]
  simp only [Function.update_self]

/-- `timerfd_settime`, with or without a place for the old setting. -/
lemma settime {fd : ℕ} (htimer : m.timerOf fd = .ok timer) (oldValue : UInt64) :
    m.Arms timer (m.passed (.timerfdSettime fd flags newValue oldValue))
      (m.sysTimerfdSettime fd flags newValue oldValue) := by
  rw [sysTimerfdSettime, htimer]
  dsimp only
  split
  · rename_i hold
    refine armTimer (.refl m) fun interval value m₁ hread hread' => ?_
    simp only [passed, atTimeout, htimer, if_pos hold, hread, hread']
  · rename_i hold
    refine copyOut_rule error suspended fun m₀ hwrite h₀ =>
      armTimer h₀ fun interval value m₁ hread hread' => ?_
    simp only [passed, atTimeout, htimer, if_neg hold, hwrite, hread, hread']

end Arms

/-- A timeout that is passed is one for this call. -/
lemma call_of_passed {m : Machine M} {c : DeadlineCall} {t : Timeout} (h : m.passed c = some t) :
    t.call = c.timedCall := by
  have hspec {make : Option Bytes → Timeout} {call : TimedCall} {m' : Machine M} {ptr : UInt64}
      (hmake : ∀ spec, (make spec).call = call) (h : (m'.specAt ptr).map make = some t) :
      t.call = call := by
    obtain ⟨spec, -, rfl⟩ := Option.map_eq_some_iff.mp h
    exact hmake spec
  cases c with
  | poll | epollWait =>
    cases h
    rfl
  | timerfdSettime =>
    rw [passed] at h
    split at h
    · split at h
      · cases h
        rfl
      · cases h
    · cases h
  | _ => exact hspec (fun _ => rfl) h

/-- **Every deadline that a call stores** is that of the timeout the guest passes, at the clock
value the call sees. -/
lemma stored_deadline {m : Machine M} {c : DeadlineCall} {d : ℕ} (h : m.stored c = some d) :
    ∃ t, m.passed c = some t ∧ t.deadline m.kernel.now m.epochBase = .ok (some d) := by
  have hwait (hstores : m.StoresFor c (m.perform c))
      (hd : (match (m.perform c).1 with
        | .timed state | .block state => state.deadline
        | _ => none) = some d) :
      ∃ t, m.passed c = some t ∧ m.deadlineOf t = .ok (some d) := by
    rcases hstores with hnone | ⟨wait, -, hverdict, -, hdeadline⟩
    · split at hd
      · rename_i state hstate
        exact absurd hstate (hnone state).1
      · rename_i state hstate
        exact absurd hstate (hnone state).2
      · cases hd
    · refine hdeadline d ?_
      rw [hverdict, Blocking.verdict] at hd
      rw [← wait.deadline_state]
      -- a wait with a deadline is parked as a timed one
      cases hwait : wait.deadline <;> rw [hwait] at hd <;> exact hd
  cases c with
  | timerfdSettime fd flags newValue oldValue =>
    rw [stored] at h
    split at h
    · rename_i timer n m' htimer hperform
      have harms : m.Arms timer _ (m.sysTimerfdSettime fd flags newValue oldValue) :=
        .settime htimer oldValue
      have hret : m.sysTimerfdSettime fd flags newValue oldValue = (.ret (.ok n), m') := hperform
      rw [hret] at harms
      obtain ⟨t, ht, hdeadline⟩ := harms n rfl
      exact ⟨t, ht, hdeadline.trans (by rw [h])⟩
    · cases h
  | _ => exact hwait (.perform m (by rintro _ _ _ _ ⟨⟩)) h

/-- **Deadlines**: what every call with a timeout stores is the deadline of the timeout it is
given, and for every clock value, every call and every timeout that deadline is right exactly if
the clock and the saturated timeout fit into 64 bits together. -/
theorem deadlines_sound_iff :
    (∀ (m : Machine M) (c : DeadlineCall) (d : ℕ), m.stored c = some d →
      ∃ t : Timeout, m.passed c = some t ∧ t.call = c.timedCall ∧
        t.deadline m.kernel.now m.epochBase = .ok (some d)) ∧
    ∀ (t : Timeout) (now : UInt64) (base : ℕ), t.Sound now.toNat base ↔ t.Fits now.toNat := by
  refine ⟨fun m c d h => ?_, fun t now base => t.sound_iff now base⟩
  obtain ⟨t, ht, hdeadline⟩ := stored_deadline h
  exact ⟨t, ht, call_of_passed ht, hdeadline⟩

/-- The bytes of a `timespec` with the longest time an `i64` counts in seconds. -/
def endlessSpec : Bytes := List.replicate 7 0xff ++ [0x7f] ++ List.replicate 8 0

/-- A task that asks for a sleep of that time, one nanosecond after the start. -/
def endlessSleeper : Machine FlatMem where
  kernel := { Kernel.new ((flatByte 0 0 true).copy 8192 endlessSpec) with icount := 1 }
  ctx := { cpu := callingCpu fun _ => 0 }
  parked := []

/-- **A sleep that wraps**: the longest sleep is due at time 0, which has passed. -/
theorem endless_sleep_wraps :
    endlessSleeper.kernel.now = 1 ∧ endlessSleeper.stored (.nanosleep 8192) = some 0 ∧
      endlessSleeper.passed (.nanosleep 8192) = some (.sleep false (some endlessSpec)) ∧
      ¬ (Timeout.sleep false (some endlessSpec)).Sound 1 endlessSleeper.epochBase := by
  have hdue : (Timeout.sleep false (some endlessSpec)).deadline 1 endlessSleeper.epochBase
      = .ok (some 0) := by decide +kernel
  refine ⟨rfl, by decide +kernel, by decide +kernel, fun h => ?_⟩
  exact absurd (h.ahead rfl 0 hdue) (by decide)

end Machine

end WebTos.Proc
