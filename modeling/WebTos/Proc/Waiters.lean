import WebTos.Proc.Futex

/-!
What becomes of the waiters a futex wake counts.

* `WaitCall`: what `FUTEX_WAIT` leaves of its caller in the queue; `Machine.Waiters`: every
  task parked on a futex is left so, as it is in every run (`Machine.run_waiters`);
* `Machine.Returned`: what it is for a wait to be over;
* `WaitCall.returned`, `WaitCall.not_returned`: a woken waiter with a deadline returns 0, and
  one without runs its call again;
* `Machine.wake_returns_iff`: which wakes let all the waiters they count return.
-/

namespace WebTos.Proc

open List Option Scheduler Proc.Kernel

/-! ### Calls in the queue -/

/-- What `FUTEX_WAIT`, called with `c`, leaves of its caller in the queue. -/
structure WaitCall (c : Cpu) (addr : ℕ) (deadline : Option ℕ) (cpu : Cpu) : Prop where
  parked : cpu = waitCpu c deadline
  addr : (c.regs .rdi).toNat = addr
  wait : IsWait (c.regs .rsi)

/-- The wait has a deadline. -/
def ParkState.timed : ParkState → Bool
  | .futex _ _ deadline => deadline.isSome
  | _ => false

/-- A task that waits on a futex was parked by a call of its own. -/
def ParkedByCall (state : ParkState) (ctx : Context) : Prop :=
  ∀ addr woken deadline, state = .futex addr woken deadline →
    ∃ c, WaitCall c addr deadline ctx.cpu

namespace Kernel

variable {M : Type}

/-- The waits of the queue, without the tasks. -/
def waits (k : Kernel M) : List ParkState := k.sched.parked.map (·.state)

variable (k : Kernel M)

lemma waits_deliverSignalToPgrp (pgrp signal : ℕ) :
    (k.deliverSignalToPgrp pgrp signal).waits = k.waits := by
  rw [deliverSignalToPgrp]
  split_ifs
  · rfl
  simp only [waits, setParked, List.map_map]
  refine map_congr_left fun t _ => ?_
  dsimp only [Function.comp_apply]
  split_ifs <;> rfl

lemma waits_stallOnTerminal : k.stallOnTerminal.2.waits = k.waits := by
  rw [stallOnTerminal]
  split
  · split
    · dsimp only [feedTerminal]
      split
      · exact waits_deliverSignalToPgrp ..
      · rfl
    · rfl
  · rfl

lemma waits_stallOnClock (deadline : Option ℕ) :
    (k.stallOnClock deadline).2.waits = k.waits := by
  cases deadline <;> rfl

/-- A stall may raise signals on the parked tasks, but leaves their waits. -/
lemma waits_resolveStall : k.resolveStall.2.waits = k.waits := by
  have hterminal := waits_stallOnTerminal k
  rw [resolveStall]
  split
  · next index k' heq => rw [← hterminal, heq]
  · next k' heq =>
      rw [heq] at hterminal
      rw [← hterminal]
      dsimp only
      split
      · split
        · split
          · exact waits_stallOnClock _ _
          · rfl
        split
        · rfl
        · exact waits_stallOnClock _ _
      · exact waits_stallOnClock _ _

end Kernel

variable {addr : UInt64} {len : ℕ}

namespace Machine

variable {M : Type}

/-- Every task parked on a futex was parked there by a call of its own. -/
def Waiters (m : Machine M) : Prop := Forall₂ ParkedByCall m.kernel.waits m.parked

variable [UserMem M]

/-- The call the running task is at, with its arguments from the registers. -/
def futexCall (m : Machine M) : Outcome × Machine M :=
  let regs := m.ctx.cpu.regs
  m.sysFutex (regs .rdi) (regs .rsi) (regs .rdx) (regs .r10)

/-- The wait called with `c` is over: the task is behind the call with 0 or `-EINTR`, or in front
of it and running it again gives that. -/
def Returned (m : Machine M) (c : Cpu) : Prop :=
  (c.Returns m.ctx.cpu 0 ∨ c.Returns m.ctx.cpu (neg EINTR)) ∨
    (m.ctx.cpu.exception = .externalAddr (c.nextPc - SYSCALL_INSN_LEN) ∧
      (m.futexCall.1 = .ret (.ok 0) ∨ m.futexCall.1 = .ret (.error .EINTR)))

/-- The woken waiter at `index` returns from its call when it is next scheduled, whatever happened
to the rest of the machine, and to its own signals, until then. -/
def ReturnsWhenScheduled (m : Machine M) (index : ℕ) : Prop :=
  ∀ {task : ParkedTask} {ctx : Context} {c : Cpu} {addr : ℕ} {deadline : Option ℕ},
    m.kernel.sched.parked[index]? = some task → task.state = .futex addr true deadline →
    m.parked[index]? = some ctx → WaitCall c addr deadline ctx.cpu →
    ∀ (proc : Process) (later resumed m' : Machine M),
      later.Resumes ⟨proc, task.state⟩ ctx resumed →
      (resumed.interrupted ctx.signalSaved.length).Same m'.ctx.cpu → m'.Returned c

/-- A task that leaves the CPU gets no answer yet. -/
lemma yieldCpu_ne_ret (m : Machine M) (result : SysResult ℕ) : m.yieldCpu.1 ≠ .ret result := by
  rw [yieldCpu]
  split
  · exact fun h => by cases h
  · rw [stallOutcome]
    split_ifs <;> exact fun h => by cases h

variable {result : SysResult ℕ} {m : Machine M}

/-- An answer was the verdict. -/
lemma conclude_ret {r : Verdict × Machine M} (h : (conclude r).1 = .ret result) :
    r.1 = .ret result := by
  obtain ⟨verdict, m'⟩ := r
  cases verdict with
  | ret => exact congrArg Verdict.ret (Outcome.ret.inj h)
  | suspended => cases h
  | block | timed => exact absurd h (yieldCpu_ne_ret _ _)

/-- A read gives the answer itself only when it fails. -/
lemma copyIn_ret {next : Bytes → Machine M → Verdict × Machine M}
    (h : (m.copyIn addr len next).1 = .ret result) :
    result = .error .EFAULT ∨ result = .error Errno.EIO ∨
      ∃ bytes m', (next bytes m').1 = .ret result := by
  rw [copyIn] at h
  generalize m.readMem addr len = r at h
  obtain ⟨copy, m'⟩ := r
  cases copy with
  | done bytes => exact .inr (.inr ⟨bytes, m', h⟩)
  | efault => exact .inl (Verdict.ret.inj h).symm
  | eio => exact .inr (.inl (Verdict.ret.inj h).symm)
  | cold => cases h

/-- **What a wait answers at once** is a refusal: never 0, and never `EINTR`. -/
lemma sysFutex_wait_ret {op val timeoutPtr : UInt64} (hop : IsWait op)
    (h : (m.sysFutex addr op val timeoutPtr).1 = .ret result) :
    result ∈ [.error .EFAULT, .error Errno.EIO, .error .EAGAIN, .error .EINVAL] := by
  have h := conclude_ret h
  rw [futex, if_pos hop] at h
  rcases copyIn_ret h with rfl | rfl | ⟨bytes, m', h⟩
  · simp
  · simp
  -- the word has another value
  split_ifs at h with hword
  · cases h
    simp
  rw [futexWait, copyInSpec] at h
  split_ifs at h
  rcases copyIn_ret h with rfl | rfl | ⟨bytes, m', h⟩
  · simp
  · simp
  dsimp only at h
  split at h
  · rename_i errno herrno
    cases h
    -- a timeout can only be refused as invalid
    unfold timespecNanos at herrno
    dsimp only at herrno
    split_ifs at herrno
    cases herrno
    simp
  · cases h

end Machine

namespace WaitCall

variable {M : Type} [UserMem M] {m later resumed : Machine M} {c : Cpu} {addr : ℕ} {ctx : Context}
  {proc : Process}

lemma returned {deadline : ℕ} (h : WaitCall c addr (some deadline) ctx.cpu)
    (hresumes : later.Resumes ⟨proc, .futex addr true (some deadline)⟩ ctx resumed)
    (hsame : (resumed.interrupted ctx.signalSaved.length).Same m.ctx.cpu) : m.Returned c := by
  have hwoken := hresumes.woken rfl
  rw [h.parked] at hwoken
  exact .inl (.inl ((waitCpu_returns c deadline).of_same (hwoken.trans hsame)))

/-- A woken waiter without one is in front of its call again, which does not return 0 or
`EINTR`. -/
lemma not_returned (h : WaitCall c addr none ctx.cpu)
    (hresumes : later.Resumes ⟨proc, .futex addr true none⟩ ctx resumed)
    (hsame : (resumed.interrupted ctx.signalSaved.length).Same m.ctx.cpu) : ¬ m.Returned c := by
  have hwoken := hresumes.woken rfl
  rw [h.parked] at hwoken
  have hgo := hwoken.trans hsame
  have hexc : m.ctx.cpu.exception = .externalAddr (c.nextPc - SYSCALL_INSN_LEN) := hgo.exception
  have hregs : m.ctx.cpu.regs = c.regs := hgo.regs
  have hne : c.nextPc - SYSCALL_INSN_LEN ≠ c.nextPc := by
    rw [Ne, sub_eq_self]
    decide
  have hwait : IsWait (m.ctx.cpu.regs .rsi) := hregs ▸ h.wait
  rintro ((hreturns | hreturns) | ⟨-, hcall | hcall⟩)
  · exact hne (Exc.externalAddr.inj (hexc.symm.trans hreturns.1))
  · exact hne (Exc.externalAddr.inj (hexc.symm.trans hreturns.1))
  · exact absurd (Machine.sysFutex_wait_ret hwait hcall) (by decide)
  · exact absurd (Machine.sysFutex_wait_ret hwait hcall) (by decide)

end WaitCall

namespace Machine

variable {M : Type} [UserMem M] {deadline : Option ℕ}

/-- A task that was woken can be resumed, by a machine in which it is the only one to run. -/
lemma exists_resumes (m : Machine M) (t : ParkedTask) (ctx : Context) {addr : ℕ}
    (hstate : t.state = .futex addr true deadline) :
    ∃ proc, ∃ later resumed : Machine M, later.Resumes ⟨proc, t.state⟩ ctx resumed := by
  let proc : Process := { t.proc with stopped := false }
  let later : Machine M := { m with
    kernel := { m.kernel.setParked [⟨proc, t.state⟩] with lastGroup := proc.tgid }
    parked := [ctx] }
  have hrunnable : later.kernel.sched.runnable later.kernel.heap later.kernel.now
      ⟨proc, t.state⟩ = true := by
    rw [runnable, waitIsSatisfied, hstate]
    simp [proc]
  have hready : later.kernel.sched.findReady later.kernel.heap later.kernel.now = some 0 := by
    rw [findReady]
    exact (List.findIdx?_cons).trans (if_pos hrunnable)
  have hpick : later.pick = (some 0, later.kernel) := by rw [pick, hready]
  have hswap : swapFor (later.kernel.setParked (later.kernel.sched.parked.eraseIdx 0)) proc.tgid
      = (true, later.kernel.setParked (later.kernel.sched.parked.eraseIdx 0)) := by
    rw [swapFor]
    exact if_neg fun h => h rfl
  refine ⟨proc, later, later.scheduleNext.2, ⟨0, ?_, ?_, rfl⟩, Prod.ext ?_ rfl⟩
  · rw [hpick]
  · rw [hpick]
    rfl
  have htask : later.kernel.sched.parked[0]? = some ⟨proc, t.state⟩ := rfl
  have hctx : later.parked[0]? = some ctx := rfl
  rw [scheduleNext, hpick]
  dsimp only
  rw [switchTo, htask, hctx]
  dsimp only
  rw [hswap]

variable {m : Machine M}

section

omit [UserMem M]

lemma Waiters.call (h : m.Waiters) {index addr : ℕ} {t : ParkedTask} {woken : Bool}
    (ht : m.kernel.sched.parked[index]? = some t) (hstate : t.state = .futex addr woken deadline) :
    ∃ ctx c, m.parked[index]? = some ctx ∧ WaitCall c addr deadline ctx.cpu := by
  obtain ⟨hlength, hget⟩ := forall₂_iff_get.mp h
  have hwait : m.kernel.waits[index]? = some (.futex addr woken deadline) := by
    rw [waits, List.getElem?_map, ht, map_some, hstate]
  obtain ⟨hlt, hwait⟩ := List.getElem?_eq_some_iff.mp hwait
  have hlt' : index < m.parked.length := hlength ▸ hlt
  obtain ⟨c, hc⟩ := hget index hlt hlt' addr woken deadline hwait
  exact ⟨_, c, List.getElem?_eq_getElem hlt', hc⟩

lemma pick_waits (m : Machine M) : m.pick.2.waits = m.kernel.waits := by
  rw [pick]
  split
  · rfl
  · exact waits_resolveStall m.kernel

lemma Waiters.park (h : m.Waiters) {state : ParkState}
    (hcall : ParkedByCall state m.ctx) : (m.parkCurrent state).Waiters := by
  rw [Waiters, Kernel.waits, parkCurrent, Kernel.parkCurrent]
  simp only [Kernel.setParked, map_append]
  exact rel_append h (.cons hcall .nil)

end

/-- A task that is put on the CPU takes its context with it. -/
lemma Waiters.switchTo (h : m.Waiters) (now index : ℕ) : (m.switchTo now index).2.Waiters := by
  rw [Machine.switchTo]
  split
  · have herased : Forall₂ ParkedByCall ((m.kernel.sched.parked.eraseIdx index).map (·.state))
        (m.parked.eraseIdx index) := by
      rw [eraseIdx_eq_take_drop_succ, eraseIdx_eq_take_drop_succ, map_append, map_take, map_drop]
      exact rel_append (forall₂_take _ h) (forall₂_drop _ h)
    dsimp only
    split
    · rename_i kernel hswap
      rw [Waiters, waits, (swapFor_frame hswap).2.2.1]
      exact herased
    · rename_i kernel hswap
      rw [Waiters, waits, (resumeTask_frame _ _ _ _).2.1, (resumeTask_frame _ _ _ _).2.2,
        (swapFor_frame hswap).2.2.1]
      exact herased
  · exact h

lemma Waiters.scheduleNext (h : m.Waiters) : m.scheduleNext.2.Waiters := by
  have hpicked : ({ m with kernel := m.pick.2 } : Machine M).Waiters := by
    rwa [Waiters, pick_waits]
  rw [Machine.scheduleNext]
  rcases hpick : m.pick with ⟨_ | index, kernel⟩ <;> rw [hpick] at hpicked
  · exact hpicked
  · exact hpicked.switchTo _ _

/-- A task that gives up the CPU. -/
lemma Waiters.yieldCpu (h : m.Waiters) : m.yieldCpu.2.Waiters := by
  have hnext := h.scheduleNext
  rw [Machine.yieldCpu]
  split
  · rename_i heq
    rwa [heq] at hnext
  rename_i stalled heq
  rw [heq] at hnext
  have hqueue : stalled.kernel.stallOutcome.2.sched = stalled.kernel.sched := by
    rw [stallOutcome]
    split_ifs <;> rfl
  rw [Waiters, waits, hqueue]
  exact hnext

omit [UserMem M] in
lemma waits_wakeTasks (addr count : ℕ) (ts : List ParkedTask) (ctxs : List Context)
    (h : Forall₂ ParkedByCall (ts.map (·.state)) ctxs) :
    Forall₂ ParkedByCall ((wakeTasks addr count ts).2.map (·.state)) ctxs := by
  induction ts generalizing count ctxs with
  | nil => cases count <;> exact h
  | cons t ts ih =>
    cases count with
    | zero => exact h
    | succ =>
      rw [map_cons] at h
      obtain ⟨ctx, ctxs, hhead, htail, rfl⟩ := forall₂_cons_left_iff.mp h
      rw [wakeTasks]
      cases hwake : Scheduler.wakeAt addr t with
      | none => exact .cons hhead (ih _ _ htail)
      | some t' =>
        refine .cons ?_ (ih _ _ htail)
        have hwaits : waitsAt addr t := by
          rw [waitsAt, hwake, isSome_some]
        obtain ⟨deadline, hbefore, hafter⟩ := woken_state hwaits
        rw [Scheduler.woken, hwake, getD_some] at hafter
        intro addr' woken deadline' hstate
        cases hafter.symm.trans hstate
        exact hhead _ _ _ hbefore

/-- A read leaves the queue, and the running task but for the exception to replay. -/
lemma Waiters.copyIn (h : m.Waiters) {next : Bytes → Machine M → Verdict × Machine M}
    (hnext : ∀ bytes m', m'.Waiters → m'.ctx = m.ctx → (conclude (next bytes m')).2.Waiters) :
    (conclude (m.copyIn addr len next)).2.Waiters := by
  rw [Machine.copyIn, readMem]
  dsimp only
  cases (UserMem.readMem m.kernel.mmu addr.toNat len).2 with
  | done bytes => exact hnext _ _ h rfl
  | efault | eio | cold => exact h

/-- **Waiters are parked by their calls**: the call of the running task keeps to that. -/
theorem Waiters.futexCall (h : m.Waiters) : m.futexCall.2.Waiters := by
  rw [Machine.futexCall]
  by_cases hwait : IsWait (m.ctx.cpu.regs .rsi)
  · rw [sysFutex, futex, if_pos hwait]
    refine h.copyIn fun bytes m₁ h₁ hctx₁ => ?_
    split_ifs
    · exact h₁
    rw [futexWait, copyInSpec]
    split_ifs
    · -- without a timeout the call is made again when the task goes on
      refine (Waiters.park (m := m₁.setCpu (m₁.ctx.cpu.prepareResume true)) h₁ ?_).yieldCpu
      rintro addr woken deadline ⟨⟩
      refine ⟨m.ctx.cpu, ?_, rfl, hwait⟩
      rw [← hctx₁]
      rfl
    refine h₁.copyIn fun bytes m₂ h₂ hctx₂ => ?_
    dsimp only
    split
    · exact h₂
    refine (Waiters.park (m := m₂.setCpu ((m₂.ctx.cpu.writeVar .rax 0).prepareResume false))
      h₂ ?_).yieldCpu
    rintro addr woken deadline ⟨⟩
    refine ⟨m.ctx.cpu, ?_, rfl, hwait⟩
    rw [← hctx₁, ← hctx₂]
    rfl
  by_cases hwake : IsWake (m.ctx.cpu.regs .rsi)
  · rw [sysFutex_wake m hwake]
    exact waits_wakeTasks _ _ _ _ h
  · rw [sysFutex, futex, if_neg hwait, if_neg hwake]
    exact h

/-- The task on the CPU comes to a futex call or to another wait, or the scheduler is entered. -/
inductive TaskEvent where
  | futex (cpu : Cpu)
  | block (watches : List Fd.Watch) (deadline : Option ℕ)
  | schedule

/-- One event. -/
def taskStep (m : Machine M) : TaskEvent → Machine M
  | .futex cpu => (m.setCpu cpu).futexCall.2
  | .block watches deadline => (m.blockAndSwitch (.waiting watches deadline) true).2
  | .schedule => m.scheduleNext.2

/-- **Waits and schedules in any order**: every futex waiter was parked by its own call, and the
next schedule is the scheduler's. -/
theorem run_waiters (start : Machine M) (hstart : start.Waiters) (es : List TaskEvent) :
    let m := Lib.run taskStep start es
    m.Waiters ∧ ∃ frame, (m.scheduleNext.1, m.scheduleNext.2.kernel)
      = @Kernel.scheduleNext M (UserMem.toGuestMem frame) m.kernel := by
  intro m
  have hwaiters : m.Waiters := Lib.run_invariant Waiters (fun m e h => by
    cases e with
    | futex => exact Waiters.futexCall (by exact h)
    | block => exact Waiters.yieldCpu (Waiters.park (by exact h) (by rintro _ _ _ ⟨⟩))
    | schedule => exact h.scheduleNext) es hstart
  have hlength := (congrArg length m.pick_waits).trans hwaiters.length_eq
  exact ⟨hwaiters, m.scheduleNext_kernel (by simpa [waits] using hlength.symm)⟩

/-- **Which woken waiters return.**  A wake that returns `n` counts `n` waiters at its address that
were not woken yet, and they all return when they are next scheduled exactly if each of them has a
deadline. -/
theorem wake_returns_iff (m : Machine M) (addr op val timeoutPtr : UInt64) (hop : IsWake op)
    (hwaiters : m.Waiters) :
    ∃ n m', m.sysFutex addr op val timeoutPtr = (.ret (.ok n), m') ∧
      ((m.kernel.sched.parked.zip m'.kernel.sched.parked).filter changed).length = n ∧
      ((∀ index t t', m.kernel.sched.parked[index]? = some t →
          m'.kernel.sched.parked[index]? = some t' → t' ≠ t →
          waitsAt addr.toNat t = true ∧ m'.ReturnsWhenScheduled index) ↔
        ∀ t ∈ (m.kernel.sched.parked.filter (waitsAt addr.toNat)).take val.toNat,
          t.state.timed = true) := by
  refine ⟨_, _, m.sysFutex_wake hop addr val timeoutPtr, ?_, ?_⟩
  · obtain ⟨hcounted, hnumber⟩ := zip_wakeTasks addr.toNat val.toNat
      m.kernel.sched.parked
    exact ((congrArg List.length hcounted).trans (length_map _)).trans hnumber.symm
  constructor
  · intro hreturns t ht
    -- a waiter without a deadline is parked at its call and executes it again
    by_contra huntimed
    have hwaits := of_mem_filter (mem_of_mem_take ht)
    obtain ⟨hzip, hchanged⟩ := mem_filter.mp (mem_zip_wakeTasks.mpr ⟨ht, rfl⟩)
    obtain ⟨index, hindex⟩ := mem_iff_getElem?.mp hzip
    obtain ⟨hbefore, hafter⟩ := List.getElem?_zip_eq_some.mp hindex
    obtain ⟨deadline, hstate, hwoken⟩ := woken_state hwaits
    obtain rfl : deadline = none := by
      rw [hstate] at huntimed
      cases deadline with
      | none => rfl
      | some d => exact absurd rfl huntimed
    obtain ⟨ctx, c, hctx, hcall⟩ := hwaiters.call hbefore hstate
    obtain ⟨proc, later, resumed, hresumes⟩ := m.exists_resumes _ ctx hwoken
    -- its next step is an interrupted one, which does not return
    have hreturned := (hreturns index t _ hbefore hafter (bne_iff_ne.mp hchanged)).2 hafter hwoken
      hctx hcall proc later resumed (resumed.setCpu (resumed.interrupted ctx.signalSaved.length))
      hresumes (.refl _)
    rw [hwoken] at hresumes
    exact hcall.not_returned hresumes (.refl _) hreturned
  -- a waiter with a deadline is parked behind its call
  intro htimed index t t' hbefore hafter hne
  have hzip : (t, t') ∈ m.kernel.sched.parked.zip _ :=
    mem_iff_getElem?.mpr ⟨index, List.getElem?_zip_eq_some.mpr ⟨hbefore, hafter⟩⟩
  obtain ⟨ht, rfl⟩ := mem_zip_wakeTasks.mp
    (mem_filter.mpr ⟨hzip, bne_iff_ne.mpr hne⟩)
  have hwaits := of_mem_filter (mem_of_mem_take ht)
  refine ⟨hwaits, ?_⟩
  obtain ⟨deadline, hstate, hwoken⟩ := woken_state hwaits
  have htimed := htimed t ht
  rw [hstate] at htimed
  obtain ⟨d, rfl⟩ := isSome_iff_exists.mp htimed
  intro task ctx c addr' deadline' htask hstate' hctx hcall proc later resumed m' hresumes hsame
  obtain rfl := some.inj (htask.symm.trans hafter)
  cases hwoken.symm.trans hstate'
  rw [hwoken] at hresumes
  exact hcall.returned hresumes hsame

/-- The registers of `futex(4096, FUTEX_WAIT, 0, NULL)`. -/
def waitRegs : Reg → UInt64
  | .rax => 202
  | .rdi => 4096
  | _ => 0

/-- The root waits at 4096 with a deadline, and the thread it started runs. -/
def timedWaiter : Machine FlatMem where
  kernel := Lib.run step ((new (flatByte 0 0 true)).load (flatByte 0 0 true))
    [.syscall (.clone joinedSpec), .syscall (.block (.futex 4096 false (some 200)))]
  ctx := { cpu := callingCpu fun _ => 0 }
  parked := [{ cpu := waitCpu (callingCpu waitRegs) (some 200) }]

/-- A waiter with a deadline that is woken returns. -/
theorem wake_returns_timed :
    ∃ n m', timedWaiter.sysFutex 4096 FUTEX_WAKE 1 0 = (.ret (.ok n), m') ∧
      ∀ index t t', timedWaiter.kernel.sched.parked[index]? = some t →
        m'.kernel.sched.parked[index]? = some t' → t' ≠ t →
        waitsAt 4096 t = true ∧ m'.ReturnsWhenScheduled index := by
  have hstates : timedWaiter.kernel.sched.parked.map (·.state)
      = [.futex 4096 false (some 200)] := by decide +kernel
  obtain ⟨t, ht, htstate⟩ := map_eq_singleton_iff.mp hstates
  have hwaiters : timedWaiter.Waiters := by
    rw [Waiters, waits, hstates]
    refine .cons (fun addr woken deadline hstate => ?_) .nil
    cases hstate
    exact ⟨callingCpu waitRegs, rfl, rfl, by decide⟩
  obtain ⟨n, m', hret, -, hiff⟩ := timedWaiter.wake_returns_iff 4096 FUTEX_WAKE 1 0 (by decide)
    hwaiters
  refine ⟨n, m', hret, hiff.mpr fun t' ht' => ?_⟩
  have hmem := mem_of_mem_filter (mem_of_mem_take ht')
  rw [ht, mem_singleton] at hmem
  rw [hmem, htstate]
  rfl

/-- The root has started a thread and is about to wait at 4096, where the word is 0. -/
def aboutToWait : Machine FlatMem where
  kernel := Lib.run step ((new (flatByte 0 0 true)).load (flatByte 0 0 true))
    [.syscall (.clone joinedSpec)]
  ctx := { cpu := callingCpu waitRegs }
  parked := [{ cpu := callingCpu fun _ => 0 }]

/-- The root waits. -/
theorem run_waiters_thread :
    (Lib.run taskStep aboutToWait [.futex aboutToWait.ctx.cpu, .schedule]).Waiters := by
  have hstates : aboutToWait.kernel.waits = [.ready] := by decide +kernel
  refine (aboutToWait.run_waiters ?_ _).1
  rw [Waiters, hstates]
  exact .cons (by rintro _ _ _ ⟨⟩) .nil

/-- The root waits; the thread wakes it, and gives up the CPU. -/
def wokenAgain : Machine FlatMem :=
  ((aboutToWait.futexCall.2.sysFutex 4096 FUTEX_WAKE 1 0).2.blockAndSwitch .ready false).2

/-- **A wake that is lost**: the wake returns 1, and the waiter it counted is put back in front of
its call, finds the word as it was, and waits again. -/
theorem woken_waiter_waits_again :
    (aboutToWait.futexCall.2.sysFutex 4096 FUTEX_WAKE 1 0).1 = .ret (.ok 1) ∧
      wokenAgain.kernel.proc.pid = 1000 ∧
      wokenAgain.ctx.cpu.exception = .externalAddr 4096 ∧
      wokenAgain.futexCall.1 = .switched ∧
      wokenAgain.futexCall.2.kernel.sched.parked.map (fun t => (t.proc.pid, t.state))
        = [(1000, .futex 4096 false none)] := by
  decide +kernel

end Machine

end WebTos.Proc
