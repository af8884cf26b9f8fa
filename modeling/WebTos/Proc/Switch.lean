import WebTos.Lib.Run
import WebTos.Lib.Wire
import WebTos.Proc.Kernel

/-!
Switching, creating and ending tasks (`syscall.rs`).

* `Kernel.scheduleNext`: restores the first ready task, swapping address spaces when
  it belongs to another thread group; `Kernel.resolveStall`: what is tried when no
  task is ready;
* `Kernel.taskExit`, `Kernel.sysCloneImpl`, `Kernel.sysExecve`, `Kernel.sysKill`,
  `Kernel.sysWait4`: the calls that create, replace, end and reap tasks;
* `Kernel.load`: the state a run starts from; `Event`, `Kernel.step`: the guest's calls
  and instructions, and what the host does while the machine is paused.

A system call that neither parks, creates, ends nor reaps a task is `Call.other`,
whose effect on memory, objects and the tasks' signal state is arbitrary; one that
has to wait is `Call.block`, with an arbitrary wait.  The guest runs only while a
task is on the CPU: a machine that stopped with `Halt` or `Deadlock` has exited, one
that is paused goes on through `resume`, and a pause that leaves no wait outstanding
is a deadlock the host does not run on from.
-/

namespace WebTos.Proc

open Fd Function

namespace Kernel

variable {M : Type}

/-! ### Parking and scheduling -/

/-- The cell of the descriptor table and of the dispositions of `Process::initial`
when it only stands in for a task that left the CPU. -/
def placeholderCell : ℕ := 0

/-- `park_current`. -/
def parkCurrent (k : Kernel M) (state : ParkState) : Kernel M :=
  { k.setParked (k.sched.parked ++ [⟨k.proc, state⟩]) with
    proc := Process.initial placeholderCell placeholderCell
    onCpu := false }

/-- Queued terminal input goes to the stdio pty once its reader has drained it; the
line discipline may raise a signal on the foreground group. -/
def feedTerminal (k : Kernel M) (pty : ℕ) : Kernel M :=
  let (signal, fed) := (k.heap.ptys pty).feedInput k.stdioInput
  let k := { k with stdioInput := [], heap := k.heap.modifyPty pty fun _ => fed }
  match signal with
  | some sig => k.deliverSignalToPgrp fed.fgPgrp sig
  | none => k

/-- The first part of `resolve_stall`: terminal input, and the task it made ready. -/
def stallOnTerminal (k : Kernel M) : Option ℕ × Kernel M :=
  match k.stdioPty with
  | some pty =>
    if !k.stdioInput.isEmpty && (k.heap.ptys pty).m2s.isEmpty then
      let fed := k.feedTerminal pty
      (fed.sched.findReady fed.heap fed.now, fed)
    else (none, k)
  | none => (none, k)

/-- The last part of `resolve_stall`: time moves to the earliest deadline. -/
def stallOnClock (k : Kernel M) (deadline : Option ℕ) : Option ℕ × Kernel M :=
  match deadline with
  | none => (none, k)
  | some deadline =>
    let k := { k with warpNanos := k.warpNanos + (deadline - k.now) }
    (k.sched.findReady k.heap k.now, k)

/-- `resolve_stall`: what is tried when every task is parked and none is ready. -/
def resolveStall (k : Kernel M) : Option ℕ × Kernel M :=
  match k.stallOnTerminal with
  | (some index, k) => (some index, k)
  | (none, k) =>
    let deadline := k.sched.earliestDeadline k.heap
    let handles := k.sched.netWatchHandles k.heap
    match handles.isEmpty, k.net with
    | false, some broker =>
      if broker.hostDriven then
        if k.networkExpired then { k with networkExpired := false }.stallOnClock deadline
        else (none, { k with networkWait := true })
      else
        let (woke, readable) := broker.waitReady handles
        let k := { k with heap := { k.heap with brokerReadable := readable } }
        match woke, k.sched.findReady k.heap k.now with
        | true, some index => (some index, k)
        | _, _ => k.stallOnClock deadline
    | _, _ => k.stallOnClock deadline

/-- The MMU gives up its map; it is kept while the group it belongs to has parked
tasks. -/
def saveMap (k : Kernel M) : Kernel M :=
  if k.lastGroup ≠ 0 ∧ k.sched.groupHasParked k.lastGroup = true then
    { k with sched := { k.sched with
      groupMaps := update k.sched.groupMaps k.lastGroup (some k.mmu) } }
  else k

/-- The address spaces are swapped for the group `next`; false when it has none. -/
def swapSpaces [GuestMem M] (k : Kernel M) (next : ℕ) : Bool × Kernel M :=
  let k := k.saveMap
  match k.sched.groupMaps next with
  | some map =>
    (true, { k with
      mmu := map
      sched := { k.sched with groupMaps := update k.sched.groupMaps next none } })
  | none => (false, { k with mmu := GuestMem.empty, missingSpace := true })

/-- The parked task `task` takes the CPU. -/
def enter [GuestMem M] (k : Kernel M) (task : ParkedTask) : Kernel M :=
  let k := { k with lastGroup := task.proc.tgid, proc := task.proc, onCpu := true }
  if task.proc.deliverable then k.deliverSignal else k

/-- The rest of `schedule_next`, for the task at `index`. -/
def switchTo [GuestMem M] (k : Kernel M) (index : ℕ) : Bool × Kernel M :=
  match k.sched.parked[index]? with
  | none => (false, k)
  | some task =>
    let k := k.setParked (k.sched.parked.eraseIdx index)
    if k.lastGroup ≠ task.proc.tgid then
      match k.swapSpaces task.proc.tgid with
      | (true, k) => (true, k.enter task)
      | (false, k) => (false, k)
    else (true, k.enter task)

/-- `schedule_next`: restores the first ready task; false when nothing is runnable. -/
def scheduleNext [GuestMem M] (k : Kernel M) : Bool × Kernel M :=
  match k.sched.findReady k.heap k.now with
  | some index => k.switchTo index
  | none =>
    match k.resolveStall with
    | (some index, k) => k.switchTo index
    | (none, k) => (false, k)

/-- `blocked_on_terminal_input`. -/
def blockedOnTerminalInput (k : Kernel M) : Bool :=
  match k.stdioPty with
  | none => false
  | some stdio =>
    k.stdioInput.isEmpty && k.sched.parked.any fun t =>
      match t.state with
      | .waiting watches none => watches.contains (.ptyReadable stdio false)
      | _ => false

/-- `stall_outcome`. -/
def stallOutcome (k : Kernel M) : Outcome × Kernel M :=
  if k.networkWait then (.exit .interrupted, k)
  else if k.blockedOnTerminalInput then
    (.exit .interrupted, { k with terminalInputWait := true })
  else (.exit .deadlock, { k with exitCode := some (-1) })

/-- Hands the CPU to the next ready task, or reports the stall. -/
def yieldCpu [GuestMem M] (k : Kernel M) : Outcome × Kernel M :=
  match k.scheduleNext with
  | (true, k) => (.switched, k)
  | (false, k) => k.stallOutcome

/-- `block_and_switch`, and the timed waits, which park the same way. -/
def blockAndSwitch [GuestMem M] (k : Kernel M) (state : ParkState) : Outcome × Kernel M :=
  (k.parkCurrent state).yieldCpu

/-- The running task's whole group is marked stopped; its leader holds the report for the
parent. -/
def markStopped (k : Kernel M) (signal : ℕ) : Kernel M :=
  let stop (p : Process) : Process :=
    { p with
      stopped := true
      stopReport := if p.pid = k.proc.tgid then some signal else p.stopReport }
  let told := k.sched.parked.map fun t =>
    if t.proc.tgid = k.proc.tgid then { t with proc := stop t.proc } else t
  { k.setParked told with proc := stop k.proc }

/-- `stop_thread_group`. -/
def stopThreadGroup [GuestMem M] (k : Kernel M) (signal : ℕ) : Outcome × Kernel M :=
  let k := k.markStopped signal
  (k.notifyParentSigchld k.proc.ppid).blockAndSwitch .ready

/-! ### Ending tasks -/

/-- A vfork child that execs, exits or is killed releases its parent. -/
def releaseVfork (k : Kernel M) (done : Option ℕ) : Kernel M :=
  match done with
  | some cell =>
    { k with heap := { k.heap with vforkDone := update k.heap.vforkDone cell true } }
  | none => k

/-- The running task releases its vfork parent, once. -/
def releaseParent (k : Kernel M) : Kernel M :=
  { k.releaseVfork k.proc.vforkDone with proc := { k.proc with vforkDone := none } }

/-- The parked tasks of the running task's group leave the queue. -/
def killSiblings (k : Kernel M) : Kernel M :=
  k.setParked (k.sched.parked.filter fun t => t.proc.tgid != k.proc.tgid)

/-- A zombie is recorded. -/
def pushZombie (k : Kernel M) (zombie : Zombie) : Kernel M :=
  { k with
    sched := { k.sched with zombies := k.sched.zombies ++ [zombie] }
    died := k.died ++ [zombie.pid] }

/-- The exit code of a wait status: 128 plus the signal for a signal death. -/
def exitCodeOf (status : ℕ) : ℕ :=
  if status % 128 ≠ 0 then 128 + status % 128 else status / 256

/-- The first part of `task_exit`: the vfork parent and the thread that joins this one
are released. -/
def releaseWaiters [GuestMem M] (k : Kernel M) : Kernel M :=
  let k := k.releaseParent
  if k.proc.clearChildTid ≠ 0 then
    ((k.writeMem k.proc.clearChildTid [0, 0, 0, 0]).2.futexWake
      k.proc.clearChildTid (2 ^ 64 - 1)).2
  else k

/-- The last part of `task_exit`: the task's descriptor table is let go, the parent is
told, and another task takes the CPU. -/
def leave [GuestMem M] (k : Kernel M) (reported : Bool) : Outcome × Kernel M :=
  let ppid := k.proc.ppid
  let k := { k with proc := { k.proc with fds := placeholderCell }, onCpu := false }.sweep
  (if reported then k.notifyParentSigchld ppid else k).yieldCpu

/-- `task_exit`. -/
def taskExit [GuestMem M] (k : Kernel M) (status : ℕ) (exitGroup : Bool) : Outcome × Kernel M :=
  let k := k.releaseWaiters
  let k := if exitGroup then k.killSiblings else k
  let reported := exitGroup || k.proc.pid == k.proc.tgid
  if k.proc.tgid = ROOT_PID ∧ reported = true then
    (.exit .halt, { k with exitCode := some (exitCodeOf status), onCpu := false })
  else
    (if reported then k.pushZombie ⟨k.proc.tgid, k.proc.ppid, status⟩ else k).leave reported

/-! ### Creating and replacing tasks -/

/-- `CloneSpec`: the flags `sys_clone_impl` reads, and the tid addresses. -/
structure CloneSpec where
  vm : Bool
  vfork : Bool
  parentSettid : Bool
  childCleartid : Bool
  childSettid : Bool
  parentTid : ℕ
  childTid : ℕ
  deriving DecidableEq, Repr

/-- A vfork clone sets `CLONE_VM` too, but is not a thread. -/
def CloneSpec.isThread (spec : CloneSpec) : Bool := spec.vm && !spec.vfork

/-- A `u32` in little-endian bytes. -/
def le32 (n : ℕ) : Bytes := Lib.leBytes 4 n

/-- The process of the new task.  A fork copies the descriptor table and the
dispositions into fresh cells. -/
def newTask (k : Kernel M) (spec : CloneSpec) (pid : ℕ) : Process × Kernel M :=
  if spec.isThread then (k.proc.threadSibling pid, k)
  else
    let cell := k.heap.next
    (k.proc.forkChild pid cell cell, { k with heap := { k.heap with
      tables := update k.heap.tables cell (k.heap.tables k.proc.fds)
      sigactions := update k.heap.sigactions cell (k.heap.sigactions k.proc.sigactions)
      next := cell + 1 } })

/-- What `CLONE_CHILD_SETTID` makes of the child's memory. -/
def childMap [GuestMem M] (spec : CloneSpec) (pid : ℕ) (m : M) : M :=
  if spec.childSettid ∧ spec.childTid ≠ 0 then (GuestMem.writeMem m spec.childTid (le32 pid)).1
  else m

/-- The address space of the new task: a thread shares its group's map, a fork gets a
copy under its own group. -/
def newSpace [GuestMem M] (k : Kernel M) (spec : CloneSpec) (pid : ℕ) : Kernel M :=
  if spec.isThread then (k.touch fun m => (childMap spec pid m, true)).2
  else
    { k with
      sched := { k.sched with
        groupMaps := update k.sched.groupMaps pid (some (childMap spec pid k.mmu)) }
      own := update k.own pid (childMap spec pid (k.own k.proc.tgid)) }

/-- The release flag of a vfork child, in a fresh cell. -/
def newVforkFlag (k : Kernel M) (spec : CloneSpec) : Option ℕ × Kernel M :=
  if spec.vfork then
    let cell := k.heap.next
    (some cell, { k with heap := { k.heap with
      vforkDone := update k.heap.vforkDone cell false
      next := cell + 1 } })
  else (none, k)

/-- The new task is parked ready; the answer is the release flag of a vfork child. -/
def enqueueChild [GuestMem M] (k : Kernel M) (spec : CloneSpec) (pid : ℕ) :
    Option ℕ × Kernel M :=
  let (child, k) := k.newTask spec pid
  let child := if spec.childCleartid then { child with clearChildTid := spec.childTid } else child
  let (done, k) := (k.newSpace spec pid).newVforkFlag spec
  (done, k.setParked (k.sched.parked ++ [⟨{ child with vforkDone := done }, .ready⟩]))

/-- The child is created; a vfork parent suspends. -/
def spawn [GuestMem M] (k : Kernel M) (spec : CloneSpec) (pid : ℕ) : Outcome × Kernel M :=
  match k.enqueueChild spec pid with
  | (some cell, k) => k.blockAndSwitch (.vforkDone cell)
  | (none, k) => (.ret (.ok pid), k)

/-- `sys_clone_impl`. -/
def sysCloneImpl [GuestMem M] (k : Kernel M) (spec : CloneSpec) : Outcome × Kernel M :=
  let pid := k.sched.nextPid
  let k := { k with sched := { k.sched with nextPid := pid + 1 } }
  if spec.parentSettid ∧ spec.parentTid ≠ 0 then
    match k.writeMem spec.parentTid (le32 pid) with
    | (false, k) => (.ret (.error .EFAULT), k)
    | (true, k) => k.spawn spec pid
  else k.spawn spec pid

/-- The dispositions go back to their defaults and the close-on-exec descriptors are
closed. -/
def discardImage (k : Kernel M) : Kernel M :=
  { k with heap := { k.heap with
    sigactions := update k.heap.sigactions k.proc.sigactions fun _ => none
    tables := update k.heap.tables k.proc.fds
      (k.heap.tables k.proc.fds).closeCloexec } }.sweep

/-- `sys_execve` past the point of no return.  `image` is the address space
`start_image` leaves, and `loaded` whether it succeeded. -/
def sysExecve [GuestMem M] (k : Kernel M) (image : M) (loaded : Bool) : Outcome × Kernel M :=
  let k := (k.releaseParent.discardImage.touch fun _ => (image, true)).2
  if loaded then (.switched, k) else k.taskExit (127 * 256) true

/-! ### Waiting and killing -/

/-- `WNOHANG`. -/
def WNOHANG : ℕ := 1
/-- `WUNTRACED`. -/
def WUNTRACED : ℕ := 2

/-- `wait4` has a status to report: it is copied out, unless the pointer is null.  The
exit of a child counts as returned when the copy succeeds. -/
def reportStatus [GuestMem M] (k : Kernel M) (statusPtr status pid : ℕ) (exited : Bool) :
    Outcome × Kernel M :=
  let reported (k : Kernel M) : Outcome × Kernel M :=
    (.ret (.ok pid), if exited then { k with reaped := k.reaped ++ [pid] } else k)
  if statusPtr ≠ 0 then
    match k.writeMem statusPtr (le32 status) with
    | (true, k) => reported k
    | (false, k) => (.ret (.error .EFAULT), k)
  else reported k

/-- The part of `sys_wait4` after the zombies: stops, and the wait itself. -/
def waitForChild [GuestMem M] (k : Kernel M) (filter : ℤ) (statusPtr options : ℕ) :
    Outcome × Kernel M :=
  let untraced := options &&& WUNTRACED != 0
  let (report, sched) := if untraced then k.sched.takeStopReport k.proc.tgid filter
    else (none, k.sched)
  let k := { k with sched := sched }
  match report with
  | some (pid, sig) => k.reportStatus statusPtr (sig * 256 + 0x7f) pid false
  | none =>
    if !k.sched.hasChild k.proc.tgid filter then (.ret (.error .ECHILD), k)
    else if options &&& WNOHANG != 0 then (.ret (.ok 0), k)
    else k.blockAndSwitch (.waitChild filter untraced)

/-- `sys_wait4`. -/
def sysWait4 [GuestMem M] (k : Kernel M) (pid : ℤ) (statusPtr options : ℕ) :
    Outcome × Kernel M :=
  let filter := if 0 < pid then pid else -1
  match k.sched.takeZombie k.proc.tgid filter with
  | some (zombie, sched) =>
    { k with sched := sched }.reportStatus statusPtr zombie.status zombie.pid true
  | none => k.waitForChild filter statusPtr options

/-- One task of a group that is killed: it leaves the queue, its vfork parent is
released, and a group leader becomes a zombie. -/
def killTask (k : Kernel M) (index signal : ℕ) (t : ParkedTask) : Kernel M :=
  let k := (k.setParked (k.sched.parked.eraseIdx index)).releaseVfork t.proc.vforkDone
  let k := if t.proc.pid = t.proc.tgid then
    (k.pushZombie ⟨t.proc.tgid, t.proc.ppid, signal⟩).notifyParentSigchld t.proc.ppid else k
  k.sweep

/-- The loop of `sys_kill` for SIGKILL over the queue from `index` on, with enough
fuel for its length; whether a task was hit. -/
def killLoop (target signal : ℕ) : ℕ → ℕ → Bool → Kernel M → Bool × Kernel M
  | 0, _, hit, k => (hit, k)
  | fuel + 1, index, hit, k =>
    match k.sched.parked[index]? with
    | none => (hit, k)
    | some t =>
      if t.proc.tgid = target then killLoop target signal fuel index true
        (k.killTask index signal t)
      else killLoop target signal fuel (index + 1) hit k

/-- SIGKILL for the group `target`, carried out on the sender's behalf. -/
def killGroup (k : Kernel M) (target signal : ℕ) : Bool × Kernel M :=
  let (hit, k) := killLoop target signal k.sched.parked.length 0 false k
  if hit ∧ k.sched.groupHasParked target = false then
    (hit, { k with sched := { k.sched with
      groupMaps := update k.sched.groupMaps target none } })
  else (hit, k)

/-- The default action of a signal a task sends to itself. -/
def defaultAction [GuestMem M] (k : Kernel M) (signal : ℕ) : Outcome × Kernel M :=
  if defaultActionTerminates signal then k.taskExit signal true
  else if defaultActionStops signal then k.stopThreadGroup signal
  else (.ret (.ok 0), k)

/-- A signal a task sends to itself. -/
def killSelf [GuestMem M] (k : Kernel M) (signal : ℕ) : Outcome × Kernel M :=
  if k.proc.sigmask &&& signalBit signal != 0 then
    (.ret (.ok 0), { k with proc := k.proc.raise signal })
  else
    match k.actsOf k.proc signal with
    | some a =>
      if a.handler = SIG_IGN then (.ret (.ok 0), k)
      else if a.handler ≠ SIG_DFL then
        (.switched, { k with proc := k.proc.raise signal }.deliverSignal)
      else k.defaultAction signal
    | none => k.defaultAction signal

/-- The bits of the four stop signals. -/
def stopBits : UInt64 := signalBit 19 ||| signalBit 20 ||| signalBit 21 ||| signalBit 22

/-- What a job-control signal does to the running task: a continue has only pending stop
signals to clear, a stop is queued. -/
def jobSignal (signal : ℕ) (p : Process) : Process :=
  if signal = SIGCONT then { p with pendingSignals := p.pendingSignals &&& ~~~stopBits }
  else p.raise signal

/-- What a job-control signal does to a parked task: a continue lifts the stop. -/
def jobSignalParked (signal : ℕ) (p : Process) : Process :=
  if signal = SIGCONT then { jobSignal signal p with stopped := false, stopReport := none }
  else p.raise signal

/-- The process group a target of zero or below names. -/
def targetGroup (k : Kernel M) (target : ℤ) : ℤ := if target = 0 then k.proc.pgid else -target

/-- The task is in the process, or in the process group, a job-control signal names. -/
def inJob (k : Kernel M) (target : ℤ) (p : Process) : Bool :=
  if 0 < target then (p.tgid : ℤ) == target else (p.pgid : ℤ) == k.targetGroup target

/-- Job-control signals to another process or group. -/
def killJobControl (k : Kernel M) (target : ℤ) (signal : ℕ) : Outcome × Kernel M :=
  let found := k.inJob target k.proc || k.sched.parked.any fun t => k.inJob target t.proc
  let told := k.sched.parked.map fun t =>
    if k.inJob target t.proc then { t with proc := jobSignalParked signal t.proc } else t
  (.ret (if found then .ok 0 else .error .ESRCH), { k.setParked told with
    proc := if k.inJob target k.proc then jobSignal signal k.proc else k.proc })

/-- One target of `sys_kill`. -/
def killOne (signal : ℕ) (acc : Bool × Kernel M) (target : ℕ) : Bool × Kernel M :=
  let hit := if signal = SIGKILL then acc.2.killGroup target signal
    else acc.2.signalProcess target signal
  (acc.1 || hit.1, hit.2)

/-- The parked thread groups of a process group other than the caller's own, in order and
once each. -/
def groupMembers (k : Kernel M) (pgid : ℤ) : List ℕ :=
  let tgids := (k.sched.parked.filter fun t =>
    (t.proc.pgid : ℤ) == pgid && t.proc.tgid != k.proc.tgid).map (·.proc.tgid)
  (tgids.mergeSort (· ≤ ·)).dedup

/-- The thread groups a signal to `target` reaches; none when there is no such group. -/
def victims (k : Kernel M) (target : ℤ) : Option (List ℕ) :=
  if target = -1 then none
  else if 0 < target then some [target.toNat]
  else if (k.groupMembers (k.targetGroup target)).isEmpty
      && (k.proc.pgid : ℤ) != k.targetGroup target then none
  else some (k.groupMembers (k.targetGroup target))

/-- `sys_kill`. -/
def sysKill [GuestMem M] (k : Kernel M) (target : ℤ) (signal : ℕ) : Outcome × Kernel M :=
  if NSIG < signal then (.ret (.error .EINVAL), k)
  else if signal = 0 then
    let found := target == k.proc.tgid || k.sched.parked.any fun t => (t.proc.tgid : ℤ) == target
    (.ret (if found then .ok 0 else .error .ESRCH), k)
  else if target = k.proc.tgid ∨ target = k.proc.pid then k.killSelf signal
  else if signal = SIGCONT ∨ defaultActionStops signal = true then k.killJobControl target signal
  else
    match k.victims target with
    | none => (.ret (.error .ESRCH), k)
    | some tgids =>
      let (found, k) := tgids.foldl (killOne signal) (false, k)
      (.ret (if found then .ok 0 else .error .ESRCH), k)

/-- `sys_yield`. -/
def sysYield [GuestMem M] (k : Kernel M) : Outcome × Kernel M :=
  if (k.sched.findReady k.heap k.now).isNone then (.ret (.ok 0), k)
  else k.blockAndSwitch .ready

/-- The end of `sys_rt_sigprocmask`: a signal it unblocked acts before it returns. -/
def sysRtSigprocmask [GuestMem M] (k : Kernel M) (mask : UInt64) : Outcome × Kernel M :=
  match { k with proc := { k.proc with sigmask := mask } }.pendingSignalAction with
  | (.terminate sig, k) => k.taskExit sig true
  | (.stop sig, k) => k.stopThreadGroup sig
  | (.handler, k) => (.switched, k.deliverSignal)
  | (.none, k) => (.ret (.ok 0), k)

end Kernel

/-! ### Runs -/

/-- What a call that concerns no other task may do to a task: everything but its
identity. -/
def Process.retag (f : Process → Process) (p : Process) : Process :=
  { f p with pid := p.pid, tgid := p.tgid, ppid := p.ppid }

/-- A system call. -/
inductive Call (M : Type) where
  | exit (code : ℕ)
  | exitGroup (code : ℕ)
  | clone (spec : Kernel.CloneSpec)
  | execve (image : M) (loaded : Bool)
  | wait4 (pid : ℤ) (statusPtr options : ℕ)
  | kill (target : ℤ) (signal : ℕ)
  | futexWake (addr count : ℕ)
  | sigprocmask (mask : UInt64)
  | sched_yield
  | block (state : ParkState)
  | ttyStop (signal : ℕ)
  | other (memory : M → M) (objects : Heap → Heap) (task : Process → Process)
      (tasks : ParkedTask → Process → Process)

namespace Kernel

variable {M : Type} [GuestMem M]

/-- `encode_exit_status`. -/
def encodeExitStatus (code : ℕ) : ℕ := code % 256 * 256

/-- `dispatch`, as far as it concerns tasks. -/
def dispatch (k : Kernel M) : Call M → Outcome × Kernel M
  | .exit code => k.taskExit (encodeExitStatus code) false
  | .exitGroup code => k.taskExit (encodeExitStatus code) true
  | .clone spec => k.sysCloneImpl spec
  | .execve image loaded => k.sysExecve image loaded
  | .wait4 pid statusPtr options => k.sysWait4 pid statusPtr options
  | .kill target signal => k.sysKill target signal
  | .futexWake addr count =>
    let (woken, k) := k.futexWake addr count
    (.ret (.ok woken), k)
  | .sigprocmask mask => k.sysRtSigprocmask mask
  | .sched_yield => k.sysYield
  | .block state => k.blockAndSwitch state
  | .ttyStop signal =>
    let k := k.deliverSignalToPgrp k.proc.pgid signal
    { k with proc := k.proc.consume signal }.stopThreadGroup signal
  | .other memory objects task tasks =>
    let k := (k.touch fun m => (memory m, true)).2
    (.ret (.ok 0), { k.setParked (k.sched.parked.map fun t =>
        { t with proc := t.proc.retag (tasks t) }) with
      proc := k.proc.retag task
      heap := objects k.heap })

/-- `handle`: a pending signal whose default action ends or stops the task acts before
the call. -/
def handle (k : Kernel M) (call : Call M) : Outcome × Kernel M :=
  match k.pendingSignalAction with
  | (.terminate sig, k) => k.taskExit sig true
  | (.stop sig, k) => k.stopThreadGroup sig
  | (_, k) => k.dispatch call

/-- The head of `run`, for a machine paused on the host: a task is put back on the CPU,
or the wait that is still outstanding is recorded again. -/
def resume (k : Kernel M) : Kernel M :=
  if k.terminalInputWait || k.networkWait then
    match { k with terminalInputWait := false, networkWait := false }.scheduleNext with
    | (true, k) => k
    | (false, k) =>
      let netWait := k.net.any (·.hostDriven) && !(k.sched.netWatchHandles k.heap).isEmpty
      if k.blockedOnTerminalInput then { k with terminalInputWait := true }
      else if netWait then { k with networkWait := true }
      else k
  else k

/-- `LinuxEnv::new`, on an MMU with the map `memory`: nothing is loaded yet. -/
def new (memory : M) : Kernel M where
  heap := Heap.new
  proc := Process.initial placeholderCell placeholderCell
  onCpu := false
  sched := Scheduler.new
  lastGroup := ROOT_PID
  mmu := memory
  icount := 0
  warpNanos := 0
  stdioPty := none
  stdioInput := []
  net := none
  networkWait := false
  networkExpired := false
  terminalInputWait := false
  exitCode := none
  missingSpace := false
  own _ := memory
  died := []
  reaped := []

/-- `load`: the host starts an image that could be mapped as `image`.  A fresh root
process on fresh stdio replaces every task of the previous run; the ghosts start over
with it. -/
def load (k : Kernel M) (image : M) : Kernel M :=
  let (cell, heap) := k.heap.newTable
  { k with
    heap := heap
    proc := Process.initial cell cell
    onCpu := true
    sched := Scheduler.new
    lastGroup := ROOT_PID
    mmu := image
    stdioPty := none
    stdioInput := []
    terminalInputWait := false
    exitCode := none
    missingSpace := false
    own := fun _ => image
    died := []
    reaped := [] }.sweep

end Kernel

/-- One event of a run: the guest executes instructions or makes a call, or the host
types, answers the network, lets a network wait expire, resizes the terminal, or
resumes the machine. -/
inductive Event (M : Type) where
  | guest (memory : M → M) (ticks : ℕ)
  | syscall (call : Call M)
  | input (bytes : Bytes)
  | network (readable : Net.Handle → Bool)
  | expireNetworkWait
  | resizeTerminal (pgrp : ℕ)
  | resume

/-- The kernel after one event.  The guest's part happens only with a task on the CPU. -/
def Kernel.step {M : Type} [GuestMem M] (k : Kernel M) : Event M → Kernel M
  | .guest memory ticks =>
    if k.onCpu then { (k.touch fun m => (memory m, true)).2 with icount := k.icount + ticks }
    else k
  | .syscall call => if k.onCpu then (k.handle call).2 else k
  | .input bytes => { k with stdioInput := k.stdioInput ++ bytes }
  | .network readable => { k with heap := { k.heap with brokerReadable := readable } }
  | .expireNetworkWait => { k with networkExpired := true }
  | .resizeTerminal pgrp => k.deliverSignalToPgrp pgrp 28
  | .resume => if k.onCpu then k else k.resume

end WebTos.Proc
