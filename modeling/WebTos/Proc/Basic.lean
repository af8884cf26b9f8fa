import WebTos.Fd.Objects

/-!
Processes, threads and the scheduler's queue (`proc.rs`).

One virtual CPU runs one task; every other task is parked with the state it waits
in.  Tasks of one thread group share the address space, the descriptor table and
the signal dispositions.

* `Process.forkChild`, `Process.threadSibling`: what a new task inherits;
* `Scheduler.waitIsSatisfied`, `Scheduler.findReady`: which parked task may run;
* `Scheduler.takeZombie`, `Scheduler.hasChild`: what `wait4` looks at.

The address spaces of parked groups are values of an arbitrary type `M`
(`VirtualMemoryMap`).  Left out of a process are its registers, its alternate
signal stack, its image's names and its address-space id, which the scheduler
does not read.
-/

namespace WebTos.Proc

open Fd

/-- `ROOT_PID`. -/
def ROOT_PID : ℕ := 1000

/-- `Process`: the state of one task.  The descriptor table and the signal
dispositions are cells that threads share. -/
structure Process where
  pid : ℕ
  /-- The thread-group id. -/
  tgid : ℕ
  ppid : ℕ
  pgid : ℕ
  fds : ℕ
  cwd : ℕ
  sigactions : ℕ
  sigmask : UInt64
  pendingSignals : UInt64
  /-- The masks to reinstate when the handlers now running return, innermost last. -/
  signalSavedMask : List UInt64
  clearChildTid : ℕ
  /-- Set on a vfork child: the flag that releases its parent. -/
  vforkDone : Option ℕ
  stopped : Bool
  /-- A stop the parent has not collected yet. -/
  stopReport : Option ℕ
  deriving DecidableEq, Repr

namespace Process

/-- `Process::initial`, with the cells of its descriptor table and dispositions. -/
def initial (fds sigactions : ℕ) : Process where
  pid := ROOT_PID
  tgid := ROOT_PID
  ppid := 1
  pgid := ROOT_PID
  fds := fds
  cwd := ROOT
  sigactions := sigactions
  sigmask := 0
  pendingSignals := 0
  signalSavedMask := []
  clearChildTid := 0
  vforkDone := none
  stopped := false
  stopReport := none

/-- `fork_child`: a process of its own, with copies of the descriptor table and of
the dispositions in the cells `fds` and `sigactions`. -/
def forkChild (p : Process) (pid fds sigactions : ℕ) : Process :=
  { p with
    pid := pid
    tgid := pid
    ppid := p.tgid
    fds := fds
    sigactions := sigactions
    pendingSignals := 0
    signalSavedMask := []
    clearChildTid := 0
    vforkDone := none
    stopped := false
    stopReport := none }

/-- `thread_sibling`: another task of the same group, sharing its cells. -/
def threadSibling (p : Process) (tid : ℕ) : Process :=
  { p with
    pid := tid
    pendingSignals := 0
    signalSavedMask := []
    clearChildTid := 0
    vforkDone := none
    stopped := false
    stopReport := none }

/-- A signal is pending and not blocked. -/
def deliverable (p : Process) : Bool := p.pendingSignals &&& ~~~p.sigmask != 0

end Process

/-- `ParkState`: why a parked task is not runnable (or that it is). -/
inductive ParkState where
  | ready
  | waitChild (pid : ℤ) (untraced : Bool)
  | futex (addr : ℕ) (woken : Bool) (deadline : Option ℕ)
  | pipeRead (pipe : ℕ)
  | pipeWrite (pipe : ℕ)
  | waiting (watches : List Watch) (deadline : Option ℕ)
  | vforkDone (done : ℕ)
  deriving DecidableEq, Repr

/-- The wait is a vfork parent's, which no signal interrupts. -/
def ParkState.isVforkDone : ParkState → Bool
  | .vforkDone _ => true
  | _ => false

/-- `ParkedTask`. -/
structure ParkedTask where
  proc : Process
  state : ParkState
  deriving DecidableEq, Repr

/-- `Zombie`: a terminated process whose parent has not reaped it yet. -/
structure Zombie where
  pid : ℕ
  ppid : ℕ
  status : ℕ
  deriving DecidableEq, Repr

/-- `Scheduler`.  `next_pid` is a `u64`; an event raises it by at most one
(`Kernel.nextPid_run_le`), so that a run of less than `2 ^ 64 - 1001` events does not
overflow it. -/
structure Scheduler (M : Type) where
  parked : List ParkedTask
  zombies : List Zombie
  groupMaps : ℕ → Option M
  nextPid : ℕ

namespace Scheduler

variable {M : Type}

/-- `Scheduler::new`. -/
def new : Scheduler M := ⟨[], [], fun _ => none, ROOT_PID + 1⟩

/-- `group_has_parked`. -/
def groupHasParked (s : Scheduler M) (tgid : ℕ) : Bool :=
  s.parked.any fun t => t.proc.tgid == tgid

/-- The `wait4` filter: `-1` is any child, a positive number that child. -/
def matchesChild (ppid : ℕ) (filter : ℤ) (childPid childPpid : ℕ) : Bool :=
  childPpid == ppid && (filter == -1 || (childPid : ℤ) == filter)

/-- `has_child`. -/
def hasChild (s : Scheduler M) (ppid : ℕ) (filter : ℤ) : Bool :=
  (s.zombies.any fun z => matchesChild ppid filter z.pid z.ppid)
    || s.parked.any fun t => matchesChild ppid filter t.proc.tgid t.proc.ppid

/-- The first task of the list with a stop report its parent may collect: the child
and the signal, and the list with that report taken. -/
def takeReport (ppid : ℕ) (filter : ℤ) : List ParkedTask → Option (ℕ × ℕ) × List ParkedTask
  | [] => (none, [])
  | t :: ts =>
    match matchesChild ppid filter t.proc.tgid t.proc.ppid, t.proc.stopReport with
    | true, some sig =>
      (some (t.proc.tgid, sig), { t with proc := { t.proc with stopReport := none } } :: ts)
    | _, _ =>
      let (report, ts) := takeReport ppid filter ts
      (report, t :: ts)

/-- `take_stop_report`. -/
def takeStopReport (s : Scheduler M) (ppid : ℕ) (filter : ℤ) : Option (ℕ × ℕ) × Scheduler M :=
  let (report, parked) := takeReport ppid filter s.parked
  (report, { s with parked := parked })

/-- `take_zombie`. -/
def takeZombie (s : Scheduler M) (ppid : ℕ) (filter : ℤ) : Option (Zombie × Scheduler M) :=
  match s.zombies.find? fun z => matchesChild ppid filter z.pid z.ppid with
  | none => none
  | some zombie =>
    some (zombie, { s with
      zombies := s.zombies.eraseP fun z => matchesChild ppid filter z.pid z.ppid })

/-- The wake-up of one task by `futex_wake`, if it waits at `addr`. -/
def wakeAt (addr : ℕ) (t : ParkedTask) : Option ParkedTask :=
  match t.state with
  | .futex waiting false deadline =>
    if waiting = addr then some { t with state := .futex waiting true deadline } else none
  | _ => none

/-- The loop of `futex_wake`: at most `count` waiters, in queue order. -/
def wakeTasks (addr : ℕ) : ℕ → List ParkedTask → ℕ × List ParkedTask
  | 0, ts => (0, ts)
  | _ + 1, [] => (0, [])
  | count + 1, t :: ts =>
    match wakeAt addr t with
    | some t =>
      let (woken, ts) := wakeTasks addr count ts
      (woken + 1, t :: ts)
    | none =>
      let (woken, ts) := wakeTasks addr (count + 1) ts
      (woken, t :: ts)

/-- `futex_wake`. -/
def futexWake (s : Scheduler M) (addr count : ℕ) : ℕ × Scheduler M :=
  let (woken, parked) := wakeTasks addr count s.parked
  (woken, { s with parked := parked })

/-- `wait_is_satisfied`. -/
def waitIsSatisfied (s : Scheduler M) (h : Heap) (t : ParkedTask) (now : ℕ) : Bool :=
  match t.state with
  | .ready => true
  | .futex _ woken deadline => woken || deadline.any fun d => decide (d ≤ now)
  | .waitChild pid untraced =>
    (s.zombies.any fun z => matchesChild t.proc.tgid pid z.pid z.ppid)
      || (untraced && s.parked.any fun u =>
          u.proc.stopReport.isSome && matchesChild t.proc.tgid pid u.proc.tgid u.proc.ppid)
  | .pipeRead pipe => (h.pipes pipe).canRead
  | .pipeWrite pipe => (h.pipes pipe).canWrite
  | .waiting watches deadline =>
    (deadline.any fun d => decide (d ≤ now)) || watches.any fun w => w.ready h now
  | .vforkDone done => h.vforkDone done

/-- The test of `find_ready` for one task. -/
def runnable (s : Scheduler M) (h : Heap) (now : ℕ) (t : ParkedTask) : Bool :=
  !t.proc.stopped
    && ((t.proc.deliverable && !t.state.isVforkDone) || s.waitIsSatisfied h t now)

/-- `find_ready`: the first ready task, in queue order. -/
def findReady (s : Scheduler M) (h : Heap) (now : ℕ) : Option ℕ :=
  s.parked.findIdx? fun t => s.runnable h now t

/-- The deadlines a parked task can be woken by. -/
def deadlinesOf (h : Heap) (t : ParkedTask) : List ℕ :=
  match t.state with
  | .futex _ _ deadline => deadline.toList
  | .waiting watches deadline =>
    (watches.filterMap fun w =>
      match w with
      | .timer t => (h.timers t).nextExpiry
      | _ => none) ++ deadline.toList
  | _ => []

/-- `earliest_deadline`. -/
def earliestDeadline (s : Scheduler M) (h : Heap) : Option ℕ :=
  ((s.parked.filter fun t => !t.proc.stopped).flatMap (deadlinesOf h)).min?

/-- `net_watch_handles`. -/
def netWatchHandles (s : Scheduler M) (h : Heap) : List Net.Handle :=
  s.parked.flatMap fun t =>
    match t.state with
    | .waiting watches _ =>
      watches.filterMap fun w =>
        match w with
        | .netReadable socket => (h.nets socket).handle
        | _ => none
    | _ => []

end Scheduler

end WebTos.Proc
