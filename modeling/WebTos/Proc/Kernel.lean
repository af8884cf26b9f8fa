import WebTos.Proc.Basic

/-!
The state the scheduler works on, and signals (`syscall.rs`).

* `Kernel`: the running task, the scheduler, the address space in the MMU and the
  host's side of a stall.  Three fields have no counterpart in the source and are
  read by no function: `own`, the memory each thread group should see, which only
  the group's own tasks change; and `died` and `reaped`, the zombies ever created
  and the exits `wait4` ever returned;
* `Kernel.touch`: a change of the running task's memory;
* `Kernel.pendingSignalAction`, `Kernel.deliverSignal`, `Kernel.notifyParentSigchld`:
  what a pending signal does at a kernel boundary, and who is told of a death.
-/

namespace WebTos.Proc

open Fd

/-- An address space (`VirtualMemoryMap`): what `write_mem` and the frame of a signal
handler make of it, and whether they succeed. -/
class GuestMem (M : Type) where
  /-- `VirtualMemoryMap::default`. -/
  empty : M
  writeMem : M → ℕ → Bytes → M × Bool
  /-- The three writes of a handler's frame, for a signal. -/
  signalFrame : M → ℕ → M × Bool

/-- The host's network broker. -/
structure Broker where
  hostDriven : Bool
  /-- `wait_ready`: whether something woke the wait, and what is readable then. -/
  waitReady : List Net.Handle → Bool × (Net.Handle → Bool)

/-- The environment, as far as scheduling is concerned. -/
structure Kernel (M : Type) where
  heap : Heap
  proc : Process
  /-- The task in `proc` is on the CPU.  Otherwise `proc` is a placeholder or dead. -/
  onCpu : Bool
  sched : Scheduler M
  lastGroup : ℕ
  mmu : M
  icount : ℕ
  warpNanos : ℕ
  stdioPty : Option ℕ
  stdioInput : Bytes
  net : Option Broker
  networkWait : Bool
  networkExpired : Bool
  terminalInputWait : Bool
  exitCode : Option ℤ
  /-- The error "missing address space" was logged. -/
  missingSpace : Bool
  own : ℕ → M
  died : List ℕ
  reaped : List ℕ

/-- `VmExit`, as far as scheduling returns it. -/
inductive VmExit where
  | halt | interrupted | deadlock
  deriving DecidableEq, Repr

/-- `Outcome`. -/
inductive Outcome where
  | ret (result : SysResult ℕ)
  | switched
  | exit (exit : VmExit)
  deriving DecidableEq, Repr

namespace Kernel

variable {M : Type}

/-- `now_nanos`. -/
def now (k : Kernel M) : ℕ := k.icount + k.warpNanos

/-- The running task changes its memory: the map in the MMU, and with it what the
task's group should see. -/
def touch (k : Kernel M) (f : M → M × Bool) : Bool × Kernel M :=
  ((f k.mmu).2, { k with
    mmu := (f k.mmu).1
    own := Function.update k.own k.proc.tgid (f (k.own k.proc.tgid)).1 })

/-- `write_mem` into the running task's memory. -/
def writeMem [GuestMem M] (k : Kernel M) (addr : ℕ) (bytes : Bytes) : Bool × Kernel M :=
  k.touch fun m => GuestMem.writeMem m addr bytes

/-- The descriptor tables of the running and the parked tasks. -/
def liveTables (k : Kernel M) : List ℕ := k.proc.fds :: k.sched.parked.map fun t => t.proc.fds

/-- The descriptions whose last table entry is gone are dropped. -/
def sweep (k : Kernel M) : Kernel M := { k with heap := k.heap.sweep k.liveTables }

/-- The kernel with its parked tasks replaced. -/
def setParked (k : Kernel M) (parked : List ParkedTask) : Kernel M :=
  { k with sched := { k.sched with parked := parked } }

/-- `futex_wake` on the scheduler. -/
def futexWake (k : Kernel M) (addr count : ℕ) : ℕ × Kernel M :=
  let (woken, sched) := k.sched.futexWake addr count
  (woken, { k with sched := sched })

end Kernel

/-! ### Signals -/

/-- `SIGKILL`. -/
def SIGKILL : ℕ := 9
/-- `SIGCHLD`. -/
def SIGCHLD : ℕ := 17
/-- `SIGCONT`. -/
def SIGCONT : ℕ := 18
/-- `SIGSTOP`. -/
def SIGSTOP : ℕ := 19
/-- `NSIG`. -/
def NSIG : ℕ := 64
/-- `SIG_DFL`. -/
def SIG_DFL : UInt64 := 0
/-- `SIG_IGN`. -/
def SIG_IGN : UInt64 := 1
/-- `SA_NODEFER`. -/
def SA_NODEFER : UInt64 := 0x40000000

/-- The bit of a signal in a 64-bit set. -/
def signalBit (signal : ℕ) : UInt64 := (1 : UInt64) <<< (signal - 1).toUInt64

/-- `default_action_terminates`. -/
def defaultActionTerminates (signal : ℕ) : Bool := signal ∉ [17, 18, 19, 20, 21, 22, 23, 28]

/-- `default_action_stops`. -/
def defaultActionStops (signal : ℕ) : Bool := decide (19 ≤ signal) && decide (signal ≤ 22)

/-- `acts_on_signal`, for a process with these dispositions. -/
def actsOnSignal (acts : ℕ → Option SigAction) (signal : ℕ) : Bool :=
  if signal = SIGKILL ∨ signal = SIGSTOP then true
  else
    let byDefault := defaultActionTerminates signal || defaultActionStops signal
    match acts signal with
    | some a =>
      if a.handler = SIG_DFL then byDefault else if a.handler = SIG_IGN then false else true
    | none => byDefault

namespace Process

/-- The task with a signal made pending. -/
def raise (p : Process) (signal : ℕ) : Process :=
  { p with pendingSignals := p.pendingSignals ||| signalBit signal }

/-- The task with a pending signal consumed. -/
def consume (p : Process) (signal : ℕ) : Process :=
  { p with pendingSignals := p.pendingSignals &&& ~~~signalBit signal }

/-- The signal is pending and not blocked. -/
def hasDeliverable (p : Process) (signal : ℕ) : Bool :=
  p.pendingSignals &&& ~~~p.sigmask &&& signalBit signal != 0

end Process

/-- A parked task with a signal made pending. -/
def ParkedTask.raise (signal : ℕ) (t : ParkedTask) : ParkedTask :=
  { t with proc := t.proc.raise signal }

/-- The thread of `tgid` a signal goes to: one that does not block it, the leader
first, and otherwise one that does.  The arguments are the index of the list's
head, the choices so far, and which tasks count. -/
def chooseThread (tgid signal : ℕ) (counts : ParkedTask → Bool) :
    ℕ → Option ℕ → Option ℕ → List ParkedTask → Option ℕ
  | _, unblocked, fallback, [] => unblocked.or fallback
  | i, unblocked, fallback, t :: ts =>
    if t.proc.tgid != tgid || !counts t then
      chooseThread tgid signal counts (i + 1) unblocked fallback ts
    else
      let blocked := t.proc.sigmask &&& signalBit signal != 0
      let leader := t.proc.pid == tgid
      if !blocked then
        if leader then some i
        else chooseThread tgid signal counts (i + 1) (unblocked.or (some i)) fallback ts
      else
        chooseThread tgid signal counts (i + 1) unblocked
          (if leader then some i else fallback.or (some i)) ts

namespace Kernel

variable {M : Type}

/-- The dispositions of a task. -/
def actsOf (k : Kernel M) (p : Process) : ℕ → Option SigAction := k.heap.sigactions p.sigactions

/-- The signal is made pending on the parked task `i`, if there is one. -/
def raiseAt (k : Kernel M) (signal : ℕ) : Option ℕ → Kernel M
  | some i => k.setParked (k.sched.parked.modify i (ParkedTask.raise signal))
  | none => k

/-- `deliver_signal_to_pgrp`. -/
def deliverSignalToPgrp (k : Kernel M) (pgrp signal : ℕ) : Kernel M :=
  if pgrp = 0 then k
  else
    let wants (p : Process) : Bool := p.pgid == pgrp && actsOnSignal (k.actsOf p) signal
    let told := k.sched.parked.map fun t => if wants t.proc then t.raise signal else t
    { k.setParked told with proc := if wants k.proc then k.proc.raise signal else k.proc }

/-- `signal_process`: whether such a process exists. -/
def signalProcess (k : Kernel M) (tgid signal : ℕ) : Bool × Kernel M :=
  if signal = 0 ∨ NSIG < signal then (false, k)
  else if k.proc.tgid = tgid then
    (true, if actsOnSignal (k.actsOf k.proc) signal
      then { k with proc := k.proc.raise signal } else k)
  else
    (k.sched.groupHasParked tgid,
      k.raiseAt signal (chooseThread tgid signal (fun t => actsOnSignal (k.actsOf t.proc) signal)
        0 none none k.sched.parked))

/-- The dispositions of the group `tgid`, read from a parked member or else from the
running task. -/
def groupActs (k : Kernel M) (tgid : ℕ) : Option (ℕ → Option SigAction) :=
  match k.sched.parked.find? fun t => t.proc.tgid == tgid with
  | some t => some (k.actsOf t.proc)
  | none => if k.proc.tgid = tgid then some (k.actsOf k.proc) else none

/-- `notify_parent_sigchld`. -/
def notifyParentSigchld (k : Kernel M) (parentTgid : ℕ) : Kernel M :=
  let hasHandler := (k.groupActs parentTgid).any fun acts =>
    (acts SIGCHLD).any fun a => decide (1 < a.handler)
  if !hasHandler then k
  else k.raiseAt SIGCHLD
    (chooseThread parentTgid SIGCHLD (fun _ => true) 0 none none k.sched.parked)

/-- `SignalExitAction`. -/
inductive SignalExitAction where
  | none | handler | terminate (signal : ℕ) | stop (signal : ℕ)
  deriving DecidableEq, Repr

/-- The loop of `pending_signal_action` over the signals still to look at, lowest
first.  Ignored signals are discarded on the way, and so are those whose default
action is to do nothing. -/
def scanSignals (acts : ℕ → Option SigAction) : List ℕ → Process → SignalExitAction × Process
  | [], p => (.none, p)
  | sig :: sigs, p =>
    if !p.hasDeliverable sig then scanSignals acts sigs p
    else
      let handler := ((acts sig).map (·.handler)).getD SIG_DFL
      if handler = SIG_IGN then scanSignals acts sigs (p.consume sig)
      else if handler ≠ SIG_DFL then (.handler, p)
      else if defaultActionTerminates sig then (.terminate sig, p.consume sig)
      else if defaultActionStops sig then (.stop sig, p.consume sig)
      else scanSignals acts sigs (p.consume sig)

/-- The signals, lowest first. -/
def allSignals : List ℕ := (List.range NSIG).map (· + 1)

/-- `pending_signal_action`. -/
def pendingSignalAction (k : Kernel M) : SignalExitAction × Kernel M :=
  let (action, proc) := scanSignals (k.actsOf k.proc) allSignals k.proc
  (action, { k with proc := proc })

/-- The scan of `deliver_signal`: the lowest signal with a handler.  A signal whose
default action ends or stops the task is left pending and ends the scan. -/
def scanHandler (acts : ℕ → Option SigAction) :
    List ℕ → Process → Option (ℕ × SigAction) × Process
  | [], p => (none, p)
  | sig :: sigs, p =>
    if !p.hasDeliverable sig then scanHandler acts sigs p
    else
      let handler := ((acts sig).map (·.handler)).getD SIG_DFL
      if handler = SIG_DFL ∧ (defaultActionTerminates sig || defaultActionStops sig) = true then
        (none, p)
      else
        match acts sig with
        | some a =>
          if a.handler ≠ SIG_DFL ∧ a.handler ≠ SIG_IGN then (some (sig, a), p.consume sig)
          else scanHandler acts sigs (p.consume sig)
        | none => scanHandler acts sigs (p.consume sig)

/-- The mask while a handler runs: its own signal, unless `SA_NODEFER`, and its mask. -/
def maskDuring (mask : UInt64) (sig : ℕ) (a : SigAction) : UInt64 :=
  (if a.flags &&& SA_NODEFER = 0 then mask ||| signalBit sig else mask) ||| a.mask

/-- `deliver_signal`: enters the handler of the lowest deliverable signal.  When the
frame cannot be written the delivery is abandoned and the mask put back. -/
def deliverSignal [GuestMem M] (k : Kernel M) : Kernel M :=
  match scanHandler (k.actsOf k.proc) allSignals k.proc with
  | (none, proc) => { k with proc := proc }
  | (some (sig, a), proc) =>
    let (ok, k) := { k with proc := proc }.touch fun m => GuestMem.signalFrame m sig
    if ok then
      { k with proc := { k.proc with
        signalSavedMask := k.proc.signalSavedMask ++ [k.proc.sigmask]
        sigmask := maskDuring k.proc.sigmask sig a } }
    else k

end Kernel

end WebTos.Proc
