import WebTos.Proc.Acts

/-!
Tasks with their registers (`syscall.rs`): parking a task, putting it back on the CPU, and
running its signal handlers.

The scheduler's model has tasks without registers.  Here every task has a `Context`: its CPU
state, and what `deliver_signal` keeps for it.  The contexts of the parked tasks stand in the
order of the queue.

* `Cpu.prepareResume`, `Cpu.endWaitWith`: the resume point of a parked task;
* `Machine.deliverSignal`, `Machine.rtSigreturn`: entering a handler and returning from it;
* `Machine.scheduleNext`: the first ready task goes on the CPU, with the return value and the
  resume point of its wait put right first;
* `Machine.deliverSignal_kernel`, `Machine.scheduleNext_kernel`: without its registers a
  machine does what the scheduler's model does.
-/

namespace WebTos.Proc

open Fd List Option Function Proc.Kernel

/-! ### The CPU -/

/-- The registers the kernel reads and writes. -/
inductive Reg where
  | rax | rdi | rsi | rdx | r10 | r8 | r9 | rsp
  deriving DecidableEq, Repr

/-- `Exception`: what the interpreter handles next. -/
inductive Exc where
  | externalAddr (addr : UInt64)
  | syscall (pc : UInt64)
  deriving DecidableEq, Repr

/-- `Cpu`, as far as the kernel touches it. -/
structure Cpu where
  regs : Reg → UInt64
  pc : UInt64
  nextPc : UInt64
  exception : Exc
  pendingException : Option Exc := none

/-- `SYSCALL_INSN_LEN`. -/
def SYSCALL_INSN_LEN : UInt64 := 2

/-- `neg`: an errno as a return value. -/
def neg (errno : UInt64) : UInt64 := 0 - errno

/-- `EINTR`. -/
def EINTR : UInt64 := 4
/-- `ETIMEDOUT`. -/
def ETIMEDOUT : UInt64 := 110

namespace Cpu

/-- Writes a register. -/
def writeVar (c : Cpu) (r : Reg) (value : UInt64) : Cpu :=
  { c with regs := update c.regs r value }

/-- The CPU goes on at an address. -/
def goto (c : Cpu) (addr : UInt64) : Cpu :=
  { c with pc := addr, exception := .externalAddr addr, pendingException := none }

/-- `prepare_resume`: the task goes on after the system call, or runs it again. -/
def prepareResume (c : Cpu) (restart : Bool) : Cpu :=
  let resume := if restart then c.nextPc - SYSCALL_INSN_LEN else c.nextPc
  { c.goto resume with nextPc := resume }

/-- `end_wait_with`: steps over the instruction the CPU points at. -/
def endWaitWith (c : Cpu) (value : UInt64) : Cpu :=
  let after := c.pc + SYSCALL_INSN_LEN
  { (c.writeVar .rax value).goto after with nextPc := after }

end Cpu

/-! ### Machines -/

/-- What a copy into or out of guest memory comes to: `EFAULT`, `EIO` for a page that cannot be
read in, and `PAGE_IN_RESTART` for one that has to be fetched first. -/
inductive Copy (α : Type) where
  | done (value : α)
  | efault
  | eio
  | cold
  deriving DecidableEq, Repr

/-- The copy succeeded. -/
def Copy.isDone {α : Type} : Copy α → Bool
  | .done _ => true
  | _ => false

/-- An address space, with the copies of the kernel.  A copy may fill lazy pages, also one that
fails. -/
class UserMem (M : Type) where
  /-- `VirtualMemoryMap::default`. -/
  empty : M
  readMem : M → ℕ → ℕ → M × Copy Bytes
  writeMem : M → ℕ → Bytes → M × Copy Unit

/-- The CPU state of a task, and what `Process` keeps for its handlers: the interrupted states,
innermost last, and the alternate stack. -/
structure Context where
  cpu : Cpu
  signalSaved : List Cpu := []
  altstack : Option (UInt64 × UInt64) := none
  altstackDepth : ℕ := 0
  altstackFrames : List Bool := []

/-- The scheduler's kernel with the context of the running task and those of the parked ones,
in the order of the queue. -/
structure Machine (M : Type) where
  kernel : Kernel M
  ctx : Context
  parked : List Context
  pageInWait : Bool := false
  /-- `epoch_base_sec`. -/
  epochBaseSec : ℕ := 0

/-! ### Signal handlers -/

/-- `SA_RESTART`. -/
def SA_RESTART : UInt64 := 0x10000000
/-- `SA_ONSTACK`. -/
def SA_ONSTACK : UInt64 := 0x08000000

/-- `saturating_add`. -/
def satAdd (a b : UInt64) : UInt64 := if a.toNat + b.toNat < 2 ^ 64 then a + b else ~~~0

/-- `saturating_sub`. -/
def satSub (a b : UInt64) : UInt64 := if b ≤ a then a - b else 0

/-- The addresses of a handler's frame, and whether it is on the alternate stack. -/
structure Frame where
  onAlt : Bool
  siginfo : UInt64
  ucontext : UInt64
  sp : UInt64
  deriving DecidableEq, Repr

/-- Where `deliver_signal` puts the frame of a handler. -/
def Context.frame (c : Context) (a : SigAction) : Frame :=
  let onAlt := a.flags &&& SA_ONSTACK != 0 && c.altstack.isSome
  let top := match onAlt, c.altstackDepth, c.altstack with
    | true, 0, some (base, size) => satAdd base size
    | _, _, _ => c.cpu.regs .rsp
  -- the red zone is skipped unless the alternate stack starts here
  let below := if !onAlt || decide (0 < c.altstackDepth) then satSub top 128 else top
  let siginfo := satSub below 128
  let ucontext := satSub siginfo 256
  { onAlt, siginfo, ucontext, sp := satSub (ucontext &&& ~~~15) 8 }

/-- Whether the handler of the lowest deliverable signal has the interrupted call run again, if
that signal has a handler. -/
def lowestRestarts (acts : ℕ → Option SigAction) (p : Process) : Option Bool :=
  match allSignals.find? p.hasDeliverable with
  | none => none
  | some sig =>
    match acts sig with
    | none => none
    | some a =>
      if a.handler = SIG_DFL ∨ a.handler = SIG_IGN then none
      else some (a.flags &&& SA_RESTART != 0)

/-- `si_signo`, and zeros. -/
def siginfoBytes (sig : ℕ) : Bytes := Lib.leBytes 4 sig ++ List.replicate 124 0

namespace Machine

variable {M : Type}

/-- The machine with the running task's process replaced. -/
def setProc (m : Machine M) (proc : Process) : Machine M :=
  { m with kernel := { m.kernel with proc := proc } }

/-- The machine with the running task's CPU state replaced. -/
def setCpu (m : Machine M) (cpu : Cpu) : Machine M := { m with ctx := { m.ctx with cpu := cpu } }

/-- `write_mem`.  A cold page leaves a request for it, and the exception to replay. -/
def writeMem [UserMem M] (m : Machine M) (addr : UInt64) (bytes : Bytes) : Copy Unit × Machine M :=
  let result := (UserMem.writeMem m.kernel.mmu addr.toNat bytes).2
  let kernel := (m.kernel.touch fun mem =>
    ((UserMem.writeMem mem addr.toNat bytes).1, result.isDone)).2
  match result with
  | .cold =>
    (.cold, { m with
      kernel
      ctx := { m.ctx with cpu := { m.ctx.cpu with
        pendingException := some m.ctx.cpu.exception } }
      pageInWait := true })
  | result => (result, { m with kernel })

/-- The three writes of a handler's frame: the answer is that of the last one. -/
def writeFrame [UserMem M] (m : Machine M) (sig : ℕ) (a : SigAction) : Copy Unit × Machine M :=
  let frame := m.ctx.frame a
  let m := (m.writeMem frame.siginfo (siginfoBytes sig)).2
  let m := (m.writeMem frame.ucontext (List.replicate 256 0)).2
  m.writeMem frame.sp (Lib.leBytes 8 a.restorer.toNat)

/-- The interrupted state is kept, and the handler's mask set. -/
def saveState (m : Machine M) (sig : ℕ) (a : SigAction) : Machine M :=
  let proc := m.kernel.proc
  { m.setProc { proc with
      signalSavedMask := proc.signalSavedMask ++ [proc.sigmask]
      sigmask := maskDuring proc.sigmask sig a } with
    ctx := { m.ctx with signalSaved := m.ctx.signalSaved ++ [m.ctx.cpu] } }

/-- What was kept last is thrown away, and its mask put back. -/
def dropState (m : Machine M) : Machine M :=
  let proc := m.kernel.proc
  { m.setProc { proc with
      signalSavedMask := proc.signalSavedMask.dropLast
      sigmask := proc.signalSavedMask.getLastD proc.sigmask } with
    ctx := { m.ctx with signalSaved := m.ctx.signalSaved.dropLast } }

/-- The CPU enters the handler on its frame. -/
def enterHandler (m : Machine M) (sig : ℕ) (a : SigAction) (frame : Frame) : Machine M :=
  let cpu := (((m.ctx.cpu.writeVar .rsp frame.sp).writeVar .rdi sig.toUInt64).writeVar .rsi
    frame.siginfo).writeVar .rdx frame.ucontext
  { m with ctx := { m.ctx with
    cpu := cpu.goto a.handler
    altstackDepth := if frame.onAlt then m.ctx.altstackDepth + 1 else m.ctx.altstackDepth
    altstackFrames := m.ctx.altstackFrames ++ [frame.onAlt] } }

/-- The part of `deliver_signal` after the signal was chosen and taken from the pending ones. -/
def runHandler [UserMem M] (m : Machine M) (sig : ℕ) (a : SigAction) : Bool × Machine M :=
  let frame := m.ctx.frame a
  let (result, m) := (m.saveState sig a).writeFrame sig a
  if result.isDone then (true, m.enterHandler sig a frame) else (false, m.dropState)

/-- `deliver_signal`. -/
def deliverSignal [UserMem M] (m : Machine M) : Bool × Machine M :=
  match scanHandler (m.kernel.actsOf m.kernel.proc) allSignals m.kernel.proc with
  | (none, proc) => (false, m.setProc proc)
  | (some (sig, a), proc) => (m.setProc proc).runHandler sig a

/-- What `rt_sigreturn` takes from the lists of the running handlers. -/
def popState (m : Machine M) : Machine M :=
  let proc := m.kernel.proc
  { m.setProc { proc with signalSavedMask := proc.signalSavedMask.dropLast } with
    ctx := { m.ctx with signalSaved := m.ctx.signalSaved.dropLast } }

/-- The interrupted state and its mask are put back; the handler's stack is left. -/
def restoreState (m : Machine M) (snapshot : Cpu) (mask : UInt64) : Machine M :=
  let depth := if m.ctx.altstackFrames.getLast? = some true then m.ctx.altstackDepth - 1
    else m.ctx.altstackDepth
  { m.setProc { m.kernel.proc with sigmask := mask } with
    ctx := { m.ctx with
      cpu := snapshot
      altstackDepth := depth
      altstackFrames := m.ctx.altstackFrames.dropLast } }

/-- `rt_sigreturn`: the interrupted state comes back, and with it the mask, which may let the
next handler run.  Without a handler to return from it is a call that returns 0. -/
def rtSigreturn [UserMem M] (m : Machine M) : Machine M :=
  match m.ctx.signalSaved.getLast?, m.kernel.proc.signalSavedMask.getLast? with
  | some snapshot, some mask =>
    let m := m.popState.restoreState snapshot mask
    if m.kernel.proc.deliverable then m.deliverSignal.2 else m
  | _, _ =>
    let m := m.popState
    m.setCpu { m.ctx.cpu.writeVar .rax 0 with exception := .externalAddr m.ctx.cpu.nextPc }

/-! ### Parking and scheduling -/

/-- `park_current`, for a task whose resume point is set. -/
def parkCurrent (m : Machine M) (state : ParkState) : Machine M :=
  { m with kernel := m.kernel.parkCurrent state, parked := m.parked ++ [m.ctx] }

/-- `signal_restarts_the_syscall`. -/
def signalRestartsTheSyscall (m : Machine M) : Option Bool :=
  lowestRestarts (m.kernel.actsOf m.kernel.proc) m.kernel.proc

/-- A timed futex wait reached its deadline without a wake. -/
def timedOut (state : ParkState) (now : ℕ) : Bool :=
  match state with
  | .futex _ false (some deadline) => decide (deadline ≤ now)
  | _ => false

/-- The end of `schedule_next`, with the task's process, its context and its address space in
place: the return value and the resume point of the wait are put right, and the handler of a
pending signal is entered. -/
def resumeTask [UserMem M] (m : Machine M) (state : ParkState) (now : ℕ) (conditionReady : Bool) :
    Machine M :=
  let timedOut := timedOut state now
  let m := if timedOut then m.setCpu (m.ctx.cpu.writeVar .rax (neg ETIMEDOUT)) else m
  if m.kernel.proc.deliverable then
    let m := if !state.isVforkDone && !timedOut && !conditionReady
        && m.signalRestartsTheSyscall == some false then
      m.setCpu (m.ctx.cpu.endWaitWith (neg EINTR)) else m
    m.deliverSignal.2
  else m

end Machine

/-- The scheduler's view of an address space: `frame` stands for the writes of a handler's
frame, which depend on the task's registers. -/
@[reducible] def UserMem.toGuestMem {M : Type} [UserMem M] (frame : M → ℕ → M × Bool) :
    GuestMem M where
  empty := UserMem.empty
  writeMem mem addr bytes :=
    ((UserMem.writeMem mem addr bytes).1, (UserMem.writeMem mem addr bytes).2.isDone)
  signalFrame := frame

namespace Machine

variable {M : Type}

/-- The address spaces are swapped for the group of the next task, if it is another one. -/
def swapFor [UserMem M] (k : Kernel M) (tgid : ℕ) : Bool × Kernel M :=
  if k.lastGroup ≠ tgid then
    @swapSpaces M (UserMem.toGuestMem fun mem _ => (mem, false)) k tgid
  else (true, k)

/-- The rest of `schedule_next`, for the task at `index`; `now` is the time at which
`schedule_next` started. -/
def switchTo [UserMem M] (m : Machine M) (now index : ℕ) : Bool × Machine M :=
  match m.kernel.sched.parked[index]?, m.parked[index]? with
  | some task, some ctx =>
    let kernel := m.kernel.setParked (m.kernel.sched.parked.eraseIdx index)
    let conditionReady := kernel.sched.waitIsSatisfied kernel.heap task now
    match swapFor kernel task.proc.tgid with
    | (false, kernel) => (false, { m with kernel, parked := m.parked.eraseIdx index })
    | (true, kernel) =>
      let kernel := { kernel with
        lastGroup := task.proc.tgid
        proc := task.proc
        onCpu := true }
      let m := { m with kernel, ctx, parked := m.parked.eraseIdx index }
      (true, m.resumeTask task.state now conditionReady)
  | _, _ => (false, m)

/-- The task `schedule_next` goes for, if there is one, and what finding it did. -/
def pick (m : Machine M) : Option ℕ × Kernel M :=
  match m.kernel.sched.findReady m.kernel.heap m.kernel.now with
  | some index => (some index, m.kernel)
  | none => m.kernel.resolveStall

/-- `schedule_next`: restores the first ready task; false when nothing is runnable. -/
def scheduleNext [UserMem M] (m : Machine M) : Bool × Machine M :=
  match m.pick with
  | (some index, kernel) => { m with kernel }.switchTo m.kernel.now index
  | (none, kernel) => (false, { m with kernel })

/-- Hands the CPU to the next ready task, or reports the stall. -/
def yieldCpu [UserMem M] (m : Machine M) : Outcome × Machine M :=
  match m.scheduleNext with
  | (true, m) => (.switched, m)
  | (false, m) => (m.kernel.stallOutcome.1, { m with kernel := m.kernel.stallOutcome.2 })

/-- `block_and_switch`. -/
def blockAndSwitch [UserMem M] (m : Machine M) (state : ParkState) (restart : Bool) :
    Outcome × Machine M :=
  ((m.setCpu (m.ctx.cpu.prepareResume restart)).parkCurrent state).yieldCpu

/-- The timed waits: the return value is set at once, and the task goes on after the call. -/
def parkTimed [UserMem M] (m : Machine M) (state : ParkState) : Outcome × Machine M :=
  ((m.setCpu ((m.ctx.cpu.writeVar .rax 0).prepareResume false)).parkCurrent state).yieldCpu

/-- The CPU state the running task goes on with once the handlers it entered above the first
`depth` ones have returned. -/
def interrupted (m : Machine M) (depth : ℕ) : Cpu := (m.ctx.signalSaved[depth]?).getD m.ctx.cpu

end Machine

/-! ### What copies and handlers leave -/

/-- The two CPU states go on alike: they differ in the exception to replay at most. -/
structure Cpu.Same (c c' : Cpu) : Prop where
  regs : c'.regs = c.regs
  pc : c'.pc = c.pc
  nextPc : c'.nextPc = c.nextPc
  exception : c'.exception = c.exception

lemma Cpu.Same.refl (c : Cpu) : c.Same c := ⟨rfl, rfl, rfl, rfl⟩

lemma Cpu.Same.trans {c c' c'' : Cpu} (h : c.Same c') (h' : c'.Same c'') : c.Same c'' :=
  ⟨h'.regs.trans h.regs, h'.pc.trans h.pc, h'.nextPc.trans h.nextPc,
    h'.exception.trans h.exception⟩

/-- What a copy into guest memory leaves: the process, the queue, the clock, and all of the
context but the exception to replay. -/
structure Touched {M : Type} (m m' : Machine M) : Prop where
  proc : m'.kernel.proc = m.kernel.proc
  sched : m'.kernel.sched = m.kernel.sched
  heap : m'.kernel.heap = m.kernel.heap
  now : m'.kernel.now = m.kernel.now
  parked : m'.parked = m.parked
  cpu : m.ctx.cpu.Same m'.ctx.cpu
  signalSaved : m'.ctx.signalSaved = m.ctx.signalSaved
  altstack : m'.ctx.altstack = m.ctx.altstack
  altstackDepth : m'.ctx.altstackDepth = m.ctx.altstackDepth
  altstackFrames : m'.ctx.altstackFrames = m.ctx.altstackFrames

namespace Touched

variable {M : Type} {m m' m'' : Machine M}

lemma refl (m : Machine M) : Touched m m := ⟨rfl, rfl, rfl, rfl, rfl, .refl _, rfl, rfl, rfl, rfl⟩

lemma trans (h : Touched m m') (h' : Touched m' m'') : Touched m m'' where
  proc := h'.proc.trans h.proc
  sched := h'.sched.trans h.sched
  heap := h'.heap.trans h.heap
  now := h'.now.trans h.now
  parked := h'.parked.trans h.parked
  cpu := h.cpu.trans h'.cpu
  signalSaved := h'.signalSaved.trans h.signalSaved
  altstack := h'.altstack.trans h.altstack
  altstackDepth := h'.altstackDepth.trans h.altstackDepth
  altstackFrames := h'.altstackFrames.trans h.altstackFrames

end Touched

namespace Machine

variable {M : Type} [UserMem M]

lemma writeMem_touched (m : Machine M) (addr : UInt64) (bytes : Bytes) :
    Touched m (m.writeMem addr bytes).2 := by
  rw [writeMem]
  dsimp only
  split <;> exact ⟨rfl, rfl, rfl, rfl, rfl, ⟨rfl, rfl, rfl, rfl⟩, rfl, rfl, rfl, rfl⟩

lemma writeFrame_touched (m : Machine M) (sig : ℕ) (a : SigAction) :
    Touched m (m.writeFrame sig a).2 :=
  ((m.writeMem_touched _ _).trans (writeMem_touched _ _ _)).trans (writeMem_touched _ _ _)

variable {m : Machine M} {saved : List Cpu} {index : ℕ} {task : ParkedTask}

omit [UserMem M] in
lemma interrupted_eq_cpu (h : m.ctx.signalSaved = saved) :
    m.interrupted saved.length = m.ctx.cpu := by
  rw [interrupted, h, List.getElem?_eq_none le_rfl, getD_none]

omit [UserMem M] in
lemma interrupted_eq_saved {cpu : Cpu}
    (h : m.ctx.signalSaved = saved ++ [cpu]) : m.interrupted saved.length = cpu := by
  rw [interrupted, h, List.getElem?_concat_length, getD_some]

/-- **What a delivery leaves to go on with**: the state that was interrupted. -/
lemma deliverSignal_interrupted (m : Machine M) :
    m.ctx.cpu.Same (m.deliverSignal.2.interrupted m.ctx.signalSaved.length) ∧
      m.ctx.signalSaved <+: m.deliverSignal.2.ctx.signalSaved := by
  rw [deliverSignal]
  split
  · rename_i proc _
    have hsaved : (m.setProc proc).ctx.signalSaved = m.ctx.signalSaved := rfl
    refine ⟨?_, prefix_refl _⟩
    rw [interrupted_eq_cpu hsaved]
    exact .refl _
  rename_i sig a proc _
  -- a handler is entered and the interrupted state is kept on top, or the context is as it was
  have htouched := ((m.setProc proc).saveState sig a).writeFrame_touched sig a
  have hsaved : _ = m.ctx.signalSaved ++ [m.ctx.cpu] := htouched.signalSaved
  rw [runHandler]
  dsimp only
  split_ifs
  · refine ⟨?_, hsaved ▸ prefix_append _ _⟩
    convert Cpu.Same.refl m.ctx.cpu using 1
    exact interrupted_eq_saved hsaved
  have hdropped : (((m.setProc proc).saveState sig a).writeFrame sig a).2.dropState.ctx.signalSaved
      = m.ctx.signalSaved := (congrArg dropLast hsaved).trans dropLast_concat
  refine ⟨?_, hdropped ▸ prefix_refl _⟩
  dsimp only
  rw [interrupted_eq_cpu hdropped]
  exact htouched.cpu

/-- `rt_sigreturn` of the handler that was entered last: what goes on is the state it
interrupted. -/
lemma rtSigreturn_interrupted (m : Machine M) {snapshot : Cpu}
    (hsaved : m.ctx.signalSaved = saved ++ [snapshot])
    (hmask : m.kernel.proc.signalSavedMask ≠ []) :
    snapshot.Same (m.rtSigreturn.interrupted saved.length) := by
  obtain ⟨mask, hlast⟩ : ∃ mask, m.kernel.proc.signalSavedMask.getLast? = some mask :=
    ⟨_, List.getLast?_eq_some_getLast hmask⟩
  have hback : (m.popState.restoreState snapshot mask).ctx.signalSaved = saved := by
    rw [restoreState, popState]
    dsimp only
    rw [hsaved, dropLast_concat]
  have hgo := (m.popState.restoreState snapshot mask).deliverSignal_interrupted.1
  rw [hback] at hgo
  rw [rtSigreturn, hsaved, List.getLast?_concat, hlast]
  dsimp only
  split_ifs
  · exact hgo
  · rw [interrupted_eq_cpu hback]
    exact .refl _

/-! ### Without the registers -/

/-- The writes of a handler's frame, for the task with this context and these dispositions. -/
def frameWrites (ctx : Context) (acts : ℕ → Option SigAction) (mem : M) (sig : ℕ) : M × Bool :=
  match acts sig with
  | none => (mem, false)
  | some a =>
    let frame := ctx.frame a
    let mem := (UserMem.writeMem mem frame.siginfo.toNat (siginfoBytes sig)).1
    let mem := (UserMem.writeMem mem frame.ucontext.toNat (List.replicate 256 0)).1
    let last := UserMem.writeMem mem frame.sp.toNat (Lib.leBytes 8 a.restorer.toNat)
    (last.1, last.2.isDone)

/-- The scheduler's view of memory while the task with this context runs. -/
@[reducible] def guestMem (ctx : Context) (acts : ℕ → Option SigAction) : GuestMem M :=
  UserMem.toGuestMem (frameWrites ctx acts)

lemma writeMem_kernel (m : Machine M) (addr : UInt64) (bytes : Bytes) :
    (m.writeMem addr bytes).1 = (UserMem.writeMem m.kernel.mmu addr.toNat bytes).2 ∧
      (m.writeMem addr bytes).2.kernel = { m.kernel with
        mmu := (UserMem.writeMem m.kernel.mmu addr.toNat bytes).1
        own := update m.kernel.own m.kernel.proc.tgid
          (UserMem.writeMem (m.kernel.own m.kernel.proc.tgid) addr.toNat bytes).1 } := by
  rw [writeMem]
  dsimp only
  split
  · rename_i hcold
    exact ⟨hcold.symm, rfl⟩
  · exact ⟨rfl, rfl⟩

/-- The three writes are one change of the running task's memory. -/
lemma writeFrame_kernel (m : Machine M) {sig : ℕ} {a : SigAction} {acts : ℕ → Option SigAction}
    (ha : acts sig = some a) :
    ((m.writeFrame sig a).1.isDone, (m.writeFrame sig a).2.kernel)
      = m.kernel.touch fun mem => frameWrites m.ctx acts mem sig := by
  rw [writeFrame]
  obtain ⟨hresult, hkernel⟩ := writeMem_kernel ((m.writeMem (m.ctx.frame a).siginfo
    (siginfoBytes sig)).2.writeMem (m.ctx.frame a).ucontext (List.replicate 256 0)).2
    (m.ctx.frame a).sp (Lib.leBytes 8 a.restorer.toNat)
  rw [hresult, hkernel, (writeMem_kernel _ _ _).2, (writeMem_kernel _ _ _).2, touch]
  simp only [frameWrites, ha, update_self, update_idem]

/-- **A delivery without its registers** is the scheduler's. -/
theorem deliverSignal_kernel (m : Machine M) :
    m.deliverSignal.2.kernel
      = @Kernel.deliverSignal M (guestMem m.ctx (m.kernel.actsOf m.kernel.proc)) m.kernel := by
  let : GuestMem M := guestMem m.ctx (m.kernel.actsOf m.kernel.proc)
  have hacts (sig : ℕ) (a : SigAction)
      (h : (scanHandler (m.kernel.actsOf m.kernel.proc) allSignals
        m.kernel.proc).1 = some (sig, a)) : m.kernel.actsOf m.kernel.proc sig = some a :=
    (Kernel.scanHandler_picked _ h).2
  rw [deliverSignal, Kernel.deliverSignal]
  rcases hscan : Kernel.scanHandler (m.kernel.actsOf m.kernel.proc) Kernel.allSignals
    m.kernel.proc with ⟨_ | ⟨sig, a⟩, proc⟩
  · rfl
  have ha := hacts sig a (by rw [hscan])
  have htouch := ((m.setProc proc).saveState sig a).writeFrame_kernel ha
  obtain ⟨hdone, hkernel⟩ := Prod.ext_iff.mp htouch
  dsimp only at hdone hkernel ⊢
  rw [runHandler]
  dsimp only
  -- the mask and the saved masks are all that tells the two states apart
  by_cases hok : (((m.setProc proc).saveState sig a).writeFrame sig a).1.isDone = true
  · rw [if_pos hok, enterHandler]
    exact hkernel.trans (if_pos (hdone.symm.trans hok)).symm
  rw [if_neg hok, dropState, setProc]
  dsimp only
  refine Eq.trans ?_ (if_neg (hdone ▸ hok)).symm
  rw [hkernel]
  simp only [touch, saveState, setProc, getLastD_concat, dropLast_concat]
  rfl

/-! ### Whole switches -/

/-- The CPU state a wait ends with, before a handler is entered: a deadline that passed gives
`-ETIMEDOUT`, and a signal whose handler does not restart the call gives `-EINTR`. -/
def waitEnd (acts : ℕ → Option SigAction) (task : ParkedTask) (now : ℕ) (conditionReady : Bool)
    (cpu : Cpu) : Cpu :=
  if timedOut task.state now then cpu.writeVar .rax (neg ETIMEDOUT)
  else if task.proc.deliverable && !task.state.isVforkDone && !conditionReady
      && lowestRestarts acts task.proc == some false then cpu.endWaitWith (neg EINTR)
  else cpu

/-- The CPU state the running task leaves the wait with. -/
def resumed (m : Machine M) (state : ParkState) (now : ℕ) (conditionReady : Bool) : Cpu :=
  waitEnd (m.kernel.actsOf m.kernel.proc) ⟨m.kernel.proc, state⟩ now conditionReady m.ctx.cpu

/-- The end of `schedule_next` puts the CPU state right and then delivers. -/
lemma resumeTask_eq (m : Machine M) (state : ParkState) (now : ℕ) (conditionReady : Bool) :
    m.resumeTask state now conditionReady
      = if m.kernel.proc.deliverable then
          (m.setCpu (m.resumed state now conditionReady)).deliverSignal.2
        else m.setCpu (m.resumed state now conditionReady) := by
  have hself : m.setCpu m.ctx.cpu = m := rfl
  have hrestarts (cpu : Cpu) :
      (m.setCpu cpu).signalRestartsTheSyscall = m.signalRestartsTheSyscall := rfl
  have hproc (cpu : Cpu) : (m.setCpu cpu).kernel.proc = m.kernel.proc := rfl
  have hresumed : m.resumed state now conditionReady
      = if timedOut state now then m.ctx.cpu.writeVar .rax (neg ETIMEDOUT)
        else if m.kernel.proc.deliverable && !state.isVforkDone && !conditionReady
          && m.signalRestartsTheSyscall == some false then m.ctx.cpu.endWaitWith (neg EINTR)
        else m.ctx.cpu := rfl
  rw [resumeTask, hresumed]
  dsimp only
  cases timedOut state now with
  | true => cases hdeliverable : m.kernel.proc.deliverable <;> simp [hproc, hdeliverable]
  | false =>
    cases hdeliverable : m.kernel.proc.deliverable with
    | false => simp [hself, hdeliverable]
    | true =>
      by_cases hends : m.signalRestartsTheSyscall = some false <;>
        cases state.isVforkDone <;> cases conditionReady <;>
        simp [hself, hdeliverable, hends]

/-- **What a task goes on with** once the handlers it is given on the way are done. -/
lemma resumeTask_interrupted (m : Machine M) (state : ParkState) (now : ℕ)
    (conditionReady : Bool) :
    (m.resumed state now conditionReady).Same
        ((m.resumeTask state now conditionReady).interrupted m.ctx.signalSaved.length) ∧
      m.ctx.signalSaved <+: (m.resumeTask state now conditionReady).ctx.signalSaved := by
  have hsaved : (m.setCpu (m.resumed state now conditionReady)).ctx.signalSaved
      = m.ctx.signalSaved := rfl
  rw [resumeTask_eq]
  split_ifs
  · exact (m.setCpu (m.resumed state now conditionReady)).deliverSignal_interrupted
  refine ⟨?_, prefix_refl _⟩
  rw [interrupted_eq_cpu hsaved]
  exact .refl _

/-- Without its registers the end of `schedule_next` is the scheduler's. -/
lemma resumeTask_kernel (m : Machine M) (state : ParkState) (now : ℕ) (conditionReady : Bool) :
    ∃ frame, (m.resumeTask state now conditionReady).kernel
      = if m.kernel.proc.deliverable then
          @Kernel.deliverSignal M (UserMem.toGuestMem frame) m.kernel
        else m.kernel := by
  refine ⟨frameWrites (m.setCpu (m.resumed state now conditionReady)).ctx
    (m.kernel.actsOf m.kernel.proc), ?_⟩
  rw [resumeTask_eq]
  split_ifs
  · exact (m.setCpu (m.resumed state now conditionReady)).deliverSignal_kernel
  · rfl

lemma deliverSignal_parked (m : Machine M) : m.deliverSignal.2.parked = m.parked := by
  rw [deliverSignal]
  split
  · rfl
  rename_i sig a proc _
  have htouched := ((m.setProc proc).saveState sig a).writeFrame_touched sig a
  rw [runHandler]
  dsimp only
  split_ifs
  · exact htouched.parked
  · exact htouched.parked

/-- Neither the clock nor the queue moves while a task is put back. -/
lemma resumeTask_frame (m : Machine M) (state : ParkState) (now : ℕ) (conditionReady : Bool) :
    (m.resumeTask state now conditionReady).kernel.now = m.kernel.now ∧
      (m.resumeTask state now conditionReady).kernel.sched = m.kernel.sched ∧
      (m.resumeTask state now conditionReady).parked = m.parked := by
  have hparked : (m.resumeTask state now conditionReady).parked = m.parked := by
    rw [resumeTask_eq]
    split_ifs
    · exact deliverSignal_parked _
    · rfl
  obtain ⟨frame, hframe⟩ := m.resumeTask_kernel state now conditionReady
  rw [hframe, hparked]
  split_ifs
  · unfold Kernel.deliverSignal
    split
    · exact ⟨rfl, rfl, rfl⟩
    · dsimp only
      split_ifs <;> exact ⟨rfl, rfl, rfl⟩
  · exact ⟨rfl, rfl, rfl⟩

/-- The task at `index` has the CPU, its context and its address space back, and nothing else was
done yet. -/
structure Restored (m : Machine M) (index : ℕ) (task : ParkedTask) (ctx : Context)
    (placed : Machine M) : Prop where
  isTask : m.kernel.sched.parked[index]? = some task
  isContext : m.parked[index]? = some ctx
  ctx : placed.ctx = ctx
  proc : placed.kernel.proc = task.proc
  heap : placed.kernel.heap = m.kernel.heap
  now : placed.kernel.now = m.kernel.now
  queue : placed.kernel.sched.parked = m.kernel.sched.parked.eraseIdx index
  zombies : placed.kernel.sched.zombies = m.kernel.sched.zombies
  parked : placed.parked = m.parked.eraseIdx index

omit [UserMem M] in
/-- The wait of a task that left the queue is judged by the dead and the other waiting tasks. -/
lemma waitIsSatisfied_congr {s s' : Scheduler M} (hparked : s'.parked = s.parked)
    (hzombies : s'.zombies = s.zombies) (h : Heap) (t : ParkedTask) (now : ℕ) :
    s'.waitIsSatisfied h t now = s.waitIsSatisfied h t now := by
  rw [Scheduler.waitIsSatisfied, Scheduler.waitIsSatisfied, hparked, hzombies]

/-- What swapping the address spaces leaves. -/
lemma swapFor_frame {k k' : Kernel M} {tgid : ℕ} {ok : Bool} (h : swapFor k tgid = (ok, k')) :
    k'.heap = k.heap ∧ k'.now = k.now ∧ k'.sched.parked = k.sched.parked ∧
      k'.sched.zombies = k.sched.zombies := by
  rw [swapFor] at h
  split_ifs at h with hother
  · unfold swapSpaces at h
    have hsave : k.saveMap.heap = k.heap ∧ k.saveMap.now = k.now ∧
        k.saveMap.sched.parked = k.sched.parked ∧ k.saveMap.sched.zombies = k.sched.zombies := by
      rw [saveMap]
      split_ifs <;> exact ⟨rfl, rfl, rfl, rfl⟩
    dsimp only at h
    split at h <;> cases h <;> exact hsave
  · cases h
    exact ⟨rfl, rfl, rfl, rfl⟩

variable {m' : Machine M} {now : ℕ}

/-- **A switch**: the task is put back on the CPU, and its wait ended. -/
lemma switchTo_restored (h : m.switchTo now index = (true, m')) :
    ∃ task ctx placed, Restored m index task ctx placed ∧
      m' = placed.resumeTask task.state now
        (placed.kernel.sched.waitIsSatisfied placed.kernel.heap task now) := by
  rw [switchTo] at h
  split at h
  · rename_i task ctx htask hctx
    dsimp only at h
    split at h
    · cases h
    rename_i kernel hswap
    obtain ⟨hheap, hnow, hparked, hzombies⟩ := swapFor_frame hswap
    have hready := waitIsSatisfied_congr hparked hzombies m.kernel.heap task now
    let placed : Machine M := { m with
      kernel := { kernel with lastGroup := task.proc.tgid, proc := task.proc, onCpu := true }
      ctx := ctx
      parked := m.parked.eraseIdx index }
    refine ⟨task, ctx, placed, ⟨htask, hctx, rfl, rfl, hheap, hnow, hparked, hzombies, rfl⟩, ?_⟩
    have hheap' : placed.kernel.heap = m.kernel.heap := hheap
    rw [hheap']
    exact (Prod.ext_iff.mp h).2.symm.trans
      (congrArg (placed.resumeTask task.state now) hready.symm)
  · cases h

variable {ctx : Context}

/-- `schedule_next` puts this task, with this context, back on the CPU. -/
structure Resumes (m : Machine M) (task : ParkedTask) (ctx : Context) (m' : Machine M) : Prop where
  picked : ∃ index, m.pick.1 = some index ∧ m.pick.2.sched.parked[index]? = some task ∧
    m.parked[index]? = some ctx
  scheduled : m.scheduleNext = (true, m')

/-- Whether the wait of this task is over when `schedule_next` looks at the clock. -/
def waitOver (m : Machine M) (task : ParkedTask) (index : ℕ) : Bool :=
  (m.pick.2.setParked (m.pick.2.sched.parked.eraseIdx index)).sched.waitIsSatisfied
    m.pick.2.heap task m.kernel.now

/-- **What a resumed task goes on with**: the CPU state of its context, with its wait ended. -/
theorem Resumes.interrupted (h : m.Resumes task ctx m') :
    ∃ index, m.pick.1 = some index ∧
      (waitEnd (m.pick.2.actsOf task.proc) task m.kernel.now (m.waitOver task index) ctx.cpu).Same
        (m'.interrupted ctx.signalSaved.length) ∧
      ctx.signalSaved <+: m'.ctx.signalSaved ∧ m'.kernel.now = m.pick.2.now := by
  obtain ⟨⟨index, hindex, htask, hctx⟩, hscheduled⟩ := h
  refine ⟨index, hindex, ?_⟩
  have hpick : m.pick = (some index, m.pick.2) := Prod.ext hindex rfl
  rw [scheduleNext, hpick] at hscheduled
  obtain ⟨task', ctx', placed, hplaced, rfl⟩ := switchTo_restored hscheduled
  obtain rfl : task = task' := some.inj (htask.symm.trans hplaced.isTask)
  obtain rfl : ctx = ctx' := some.inj (hctx.symm.trans hplaced.isContext)
  have hready : placed.kernel.sched.waitIsSatisfied placed.kernel.heap task m.kernel.now
      = m.waitOver task index := by
    rw [hplaced.heap]
    exact waitIsSatisfied_congr
      (s := (m.pick.2.setParked (m.pick.2.sched.parked.eraseIdx index)).sched)
      hplaced.queue hplaced.zombies _ _ _
  obtain ⟨hsame, hprefix⟩ := placed.resumeTask_interrupted task.state m.kernel.now
    (m.waitOver task index)
  rw [resumed, actsOf, hplaced.proc, hplaced.heap, hplaced.ctx] at hsame
  rw [hplaced.ctx] at hprefix
  rw [hready, (placed.resumeTask_frame _ _ _).1, hplaced.now]
  exact ⟨hsame, hprefix, rfl⟩

/-- The scheduler's switch, by the swap of the address spaces, which no frame takes part in. -/
lemma kernel_switchTo_eq (frame : M → ℕ → M × Bool) {k : Kernel M}
    (htask : k.sched.parked[index]? = some task) :
    @Kernel.switchTo M (UserMem.toGuestMem frame) k index
      = match swapFor (k.setParked (k.sched.parked.eraseIdx index)) task.proc.tgid with
        | (true, k) => (true, @Kernel.enter M (UserMem.toGuestMem frame) k task)
        | (false, k) => (false, k) := by
  unfold Kernel.switchTo swapFor
  rw [htask]
  dsimp only
  split_ifs <;> rfl

/-- A switch without its registers is the scheduler's. -/
lemma switchTo_kernel (m : Machine M) (now index : ℕ)
    (haligned : m.parked.length = m.kernel.sched.parked.length) :
    ∃ frame, ((m.switchTo now index).1, (m.switchTo now index).2.kernel)
      = @Kernel.switchTo M (UserMem.toGuestMem frame) m.kernel index := by
  cases htask : m.kernel.sched.parked[index]? with
  | none =>
    refine ⟨fun mem _ => (mem, false), ?_⟩
    unfold switchTo Kernel.switchTo
    rw [htask]
  | some task =>
    have hlt : index < m.parked.length :=
      haligned ▸ (List.getElem?_eq_some_iff.mp htask).1
    rw [switchTo, htask, List.getElem?_eq_getElem hlt]
    simp only [kernel_switchTo_eq _ htask]
    rcases swapFor (m.kernel.setParked (m.kernel.sched.parked.eraseIdx index)) task.proc.tgid
      with ⟨_ | _, kernel⟩
    · exact ⟨fun mem _ => (mem, false), rfl⟩
    · exact (resumeTask_kernel _ _ _ _).imp fun _ hframe => Prod.ext rfl hframe

/-- **A schedule without its registers** is the scheduler's. -/
theorem scheduleNext_kernel (m : Machine M)
    (haligned : m.parked.length = m.pick.2.sched.parked.length) :
    ∃ frame, (m.scheduleNext.1, m.scheduleNext.2.kernel)
      = @Kernel.scheduleNext M (UserMem.toGuestMem frame) m.kernel := by
  revert haligned
  rw [scheduleNext, pick]
  unfold Kernel.scheduleNext
  cases m.kernel.sched.findReady m.kernel.heap m.kernel.now with
  | some => exact m.switchTo_kernel _ _
  | none =>
    rcases m.kernel.resolveStall with ⟨_ | index, kernel⟩
    · exact fun _ => ⟨fun mem _ => (mem, false), rfl⟩
    · exact switchTo_kernel { m with kernel } _ _

end Machine

/-- Memory without pages, that can be written everywhere or nowhere. -/
structure FlatMem where
  bytes : ℕ → UInt8
  writable : Bool

/-- The bytes of flat memory after a copy to `addr`. -/
def FlatMem.copy (mem : FlatMem) (addr : ℕ) (data : Bytes) : FlatMem :=
  { mem with bytes := fun i => if addr ≤ i then (data[i - addr]?).getD (mem.bytes i)
      else mem.bytes i }

instance : UserMem FlatMem where
  empty := ⟨fun _ => 0, false⟩
  readMem mem addr len := (mem, .done ((List.range len).map fun i => mem.bytes (addr + i)))
  writeMem mem addr data := if mem.writable then (mem.copy addr data, .done ()) else (mem, .efault)

instance : GuestMem FlatMem := UserMem.toGuestMem fun mem _ => (mem, mem.writable)

/-- Flat memory that holds a byte at one address, and zeros elsewhere. -/
def flatByte (addr : ℕ) (byte : UInt8) (writable : Bool) : FlatMem :=
  ⟨update (fun _ => 0) addr byte, writable⟩

/-- A CPU that made a system call of two bytes at 4096. -/
def callingCpu (regs : Reg → UInt64) : Cpu where
  regs := regs
  pc := 4096
  nextPc := 4098
  exception := .syscall 4096

end WebTos.Proc
