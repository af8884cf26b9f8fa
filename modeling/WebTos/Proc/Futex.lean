import WebTos.Proc.Deaths
import WebTos.Proc.Registers

/-!
Futexes (`sys_futex`, and `futex_wake` of the scheduler).

* `Verdict`, `Machine.conclude`: what a call that may wait comes to before the scheduler is
  asked;
* `Machine.sysFutex`: waiting on a word, with or without a deadline, and waking its waiters;
* `Scheduler.isolated_iff`: whose waiters a wake reaches;
* `Scheduler.zip_wakeTasks`: which waiters a wake changes and counts;
* `waitCpu`: the CPU state a waiter is parked with, and `Machine.Resumes.woken`,
  `Machine.timedWait_result`: the one it goes on with.

A wake only sets a flag in the queue.  A wait with a deadline is parked behind its call with
the return value in place; one without is parked in front of it, so that it runs again.
-/

namespace WebTos.Proc

open Fd List Option Scheduler Proc.Kernel

/-! ### The call -/

/-- `FUTEX_CMD_MASK`: strips the private and the clock bit. -/
def FUTEX_CMD_MASK : UInt64 := 0x7f
/-- `FUTEX_WAIT`. -/
def FUTEX_WAIT : UInt64 := 0
/-- `FUTEX_WAKE`. -/
def FUTEX_WAKE : UInt64 := 1
/-- `FUTEX_WAIT_BITSET`, whose timeout is absolute. -/
def FUTEX_WAIT_BITSET : UInt64 := 9
/-- `FUTEX_WAKE_BITSET`. -/
def FUTEX_WAKE_BITSET : UInt64 := 10
/-- `FUTEX_CLOCK_REALTIME`. -/
def FUTEX_CLOCK_REALTIME : UInt64 := 0x100

/-- The operation is a wait. -/
def IsWait (op : UInt64) : Prop :=
  op &&& FUTEX_CMD_MASK = FUTEX_WAIT ∨ op &&& FUTEX_CMD_MASK = FUTEX_WAIT_BITSET

/-- The operation is a wake. -/
def IsWake (op : UInt64) : Prop :=
  op &&& FUTEX_CMD_MASK = FUTEX_WAKE ∨ op &&& FUTEX_CMD_MASK = FUTEX_WAKE_BITSET

instance (op : UInt64) : Decidable (IsWait op) := inferInstanceAs (Decidable (_ ∨ _))

instance (op : UInt64) : Decidable (IsWake op) := inferInstanceAs (Decidable (_ ∨ _))

/-- `read_timespec_at`, of the bytes it read: nanoseconds, saturating. -/
def timespecNanos (bytes : Bytes) : SysResult ℕ :=
  let sec := Lib.leValue (bytes.take 8)
  let nsec := Lib.leValue (bytes.drop 8)
  -- the two are signed, and refused when negative
  if 2 ^ 63 ≤ sec ∨ 10 ^ 9 ≤ nsec then .error .EINVAL
  else .ok (min (min (sec * 10 ^ 9) (2 ^ 64 - 1) + nsec) (2 ^ 64 - 1))

/-- The deadline of a timed wait, with the clock at `now` and the epoch's start at `base`: a
`FUTEX_WAIT_BITSET` means a time on one of the clocks, a `FUTEX_WAIT` a time from now on. -/
def futexDue (now base duration : ℕ) (op : UInt64) : ℕ :=
  if op &&& FUTEX_CMD_MASK = FUTEX_WAIT_BITSET then
    max (if op &&& FUTEX_CLOCK_REALTIME ≠ 0 then duration - base else duration) now
  else (now + duration) % 2 ^ 64

/-- What a call that may wait comes to before the scheduler is asked: an answer, a page that
has to be fetched first, a wait after which the call runs again, or one that goes on behind
the call. -/
inductive Verdict where
  | ret (result : SysResult ℕ)
  | suspended
  | block (state : ParkState)
  | timed (state : ParkState)
  deriving DecidableEq, Repr

namespace Machine

variable {M : Type} [UserMem M]

/-- The verdict is carried out. -/
def conclude : Verdict × Machine M → Outcome × Machine M
  | (.ret result, m) => (.ret result, m)
  | (.suspended, m) => (.exit .interrupted, m)
  | (.block state, m) => m.blockAndSwitch state true
  | (.timed state, m) => m.parkTimed state

/-- `read_mem`.  A cold page leaves a request for it, and the exception to replay. -/
def readMem (m : Machine M) (addr : UInt64) (len : ℕ) : Copy Bytes × Machine M :=
  let result := (UserMem.readMem m.kernel.mmu addr.toNat len).2
  let kernel := (m.kernel.touch fun mem =>
    ((UserMem.readMem mem addr.toNat len).1, result.isDone)).2
  match result with
  | .cold =>
    (.cold, { m with
      kernel
      ctx := { m.ctx with cpu := { m.ctx.cpu with
        pendingException := some m.ctx.cpu.exception } }
      pageInWait := true })
  | result => (result, { m with kernel })

/-- The verdict of a call on a copy it cannot go on without. -/
def copied {α : Type} (next : α → Machine M → Verdict × Machine M) :
    Copy α × Machine M → Verdict × Machine M
  | (.done value, m) => next value m
  | (.efault, m) => (.ret (.error .EFAULT), m)
  | (.eio, m) => (.ret (.error Errno.EIO), m)
  | (.cold, m) => (.suspended, m)

/-- The call goes on with bytes of guest memory. -/
def copyIn (m : Machine M) (addr : UInt64) (len : ℕ)
    (next : Bytes → Machine M → Verdict × Machine M) : Verdict × Machine M :=
  copied next (m.readMem addr len)

/-- The call goes on with the structure a pointer names, if it is not null. -/
def copyInSpec (m : Machine M) (ptr : UInt64)
    (next : Option Bytes → Machine M → Verdict × Machine M) : Verdict × Machine M :=
  if ptr = 0 then next none m else m.copyIn ptr 16 fun bytes m => next (some bytes) m

/-- `epoch_base_sec` in nanoseconds, saturating. -/
def epochBase (m : Machine M) : ℕ := min (m.epochBaseSec * 10 ^ 9) (2 ^ 64 - 1)

/-- The wait of `sys_futex`, once the word has the expected value. -/
def futexWait (m : Machine M) (addr op timeoutPtr : UInt64) : Verdict × Machine M :=
  m.copyInSpec timeoutPtr fun spec m =>
    match spec with
    | none => (.block (.futex addr.toNat false none), m)
    | some bytes =>
      match timespecNanos bytes with
      | .error errno => (.ret (.error errno), m)
      | .ok duration =>
        let deadline := futexDue m.kernel.now m.epochBase duration op
        (.timed (.futex addr.toNat false (some deadline)), m)

/-- `sys_futex`, up to its wait. -/
def futex (m : Machine M) (addr op val timeoutPtr : UInt64) : Verdict × Machine M :=
  if IsWait op then
    m.copyIn addr 4 fun bytes m =>
      if Lib.leValue bytes ≠ val.toNat % 2 ^ 32 then (.ret (.error .EAGAIN), m)
      else m.futexWait addr op timeoutPtr
  else if IsWake op then
    let (woken, kernel) := m.kernel.futexWake addr.toNat val.toNat
    (.ret (.ok woken), { m with kernel })
  else (.ret (.error .ENOSYS), m)

/-- `sys_futex`. -/
def sysFutex (m : Machine M) (addr op val timeoutPtr : UInt64) : Outcome × Machine M :=
  conclude (m.futex addr op val timeoutPtr)

end Machine

/-! ### Whose waiters a wake reaches -/

namespace Scheduler

/-- The task waits at the address and was not woken yet. -/
def waitsAt (addr : ℕ) (t : ParkedTask) : Bool := (wakeAt addr t).isSome

/-- A wake by a task of the group `tgid` keeps to that group: no other task is changed, and the
number of waiters it reports is what its own group gives. -/
structure Isolated (tgid addr count : ℕ) (ts : List ParkedTask) (after : ℕ × List ParkedTask) :
    Prop where
  unwoken : Forall₂ (fun t t' => t.proc.tgid ≠ tgid → t' = t) ts after.2
  uncounted : after.1 = min count (ts.countP fun t => waitsAt addr t && t.proc.tgid == tgid)

variable {addr : ℕ} {t t' : ParkedTask}

lemma wakeAt_ne (h : wakeAt addr t = some t') : t' ≠ t := by
  rw [wakeAt] at h
  split at h
  · rename_i waiting deadline hstate
    split_ifs at h
    cases h
    intro heq
    have := congrArg ParkedTask.state heq
    rw [hstate] at this
    cases this
  · cases h

section Isolated

variable {tgid addr count n : ℕ} {t t' : ParkedTask} {ts ts' : List ParkedTask}

lemma isolated_cons_woken (h : wakeAt addr t = some t') :
    Isolated tgid addr (count + 1) (t :: ts) (n + 1, t' :: ts') ↔
      t.proc.tgid = tgid ∧ Isolated tgid addr count ts (n, ts') := by
  have hwaits : waitsAt addr t := by rw [waitsAt, h, isSome_some]
  constructor
  · rintro ⟨hunwoken, huncounted⟩
    obtain ⟨hhead, htail⟩ := forall₂_cons.mp hunwoken
    have hown : t.proc.tgid = tgid := by
      by_contra hforeign
      exact wakeAt_ne h (hhead hforeign)
    refine ⟨hown, htail, ?_⟩
    simp only [countP_cons, hwaits, hown, Bool.true_and, beq_self_eq_true, if_true]
      at huncounted
    dsimp only
    omega
  · rintro ⟨hown, hunwoken, huncounted⟩
    refine ⟨.cons (fun hforeign => absurd hown hforeign) hunwoken, ?_⟩
    simp only [countP_cons, hwaits, hown, Bool.true_and, beq_self_eq_true, if_true]
    dsimp only at huncounted
    omega

lemma isolated_cons_passed (h : wakeAt addr t = none) :
    Isolated tgid addr count (t :: ts) (n, t :: ts') ↔ Isolated tgid addr count ts (n, ts') := by
  have hwaits : waitsAt addr t = false := by rw [waitsAt, h, isSome_none]
  have hcount : (t :: ts).countP (fun t => waitsAt addr t && t.proc.tgid == tgid)
      = ts.countP fun t => waitsAt addr t && t.proc.tgid == tgid := by
    rw [countP_cons, hwaits, Bool.false_and, if_neg Bool.false_ne_true, Nat.add_zero]
  constructor
  · rintro ⟨hunwoken, huncounted⟩
    exact ⟨(forall₂_cons.mp hunwoken).2, huncounted.trans (by rw [hcount])⟩
  · rintro ⟨hunwoken, huncounted⟩
    exact ⟨.cons (fun _ => rfl) hunwoken, huncounted.trans (by rw [hcount])⟩

end Isolated

/-- **Which waiters a wake reaches**: it stays in the waker's group exactly if the first `count`
waiters of the queue, whatever their group, are tasks of that group. -/
lemma isolated_iff (tgid addr count : ℕ) (ts : List ParkedTask) :
    Isolated tgid addr count ts (wakeTasks addr count ts) ↔
      ∀ t ∈ (ts.filter (waitsAt addr)).take count, t.proc.tgid = tgid := by
  induction ts generalizing count with
  | nil =>
    have hnone : wakeTasks addr count [] = (0, []) := by cases count <;> rfl
    rw [hnone]
    exact ⟨fun _ t ht => by simp at ht, fun _ => ⟨.nil, (Nat.min_zero count).symm⟩⟩
  | cons t ts ih =>
    cases count with
    | zero =>
      refine ⟨fun _ t ht => by simp at ht, fun _ => ⟨?_, (Nat.zero_min _).symm⟩⟩
      exact forall₂_same.mpr fun t _ _ => rfl
    | succ count =>
      rw [wakeTasks]
      cases h : wakeAt addr t with
      | some t' =>
        have hwaits : waitsAt addr t := by rw [waitsAt, h, isSome_some]
        rw [filter_cons_of_pos hwaits, take_succ_cons, forall_mem_cons,
          ← ih count]
        exact isolated_cons_woken h
      | none =>
        have hwaits : ¬ waitsAt addr t := by simp [waitsAt, h]
        rw [filter_cons_of_neg hwaits, ← ih (count + 1)]
        exact isolated_cons_passed h

/-- The task as a wake at `addr` leaves it. -/
def woken (addr : ℕ) (t : ParkedTask) : ParkedTask := (wakeAt addr t).getD t

/-- The wake changed the task at this position of the queue. -/
def changed (p : ParkedTask × ParkedTask) : Bool := p.2 != p.1

lemma filter_changed_zip_self (ts : List ParkedTask) : (ts.zip ts).filter changed = [] := by
  induction ts with
  | nil => rfl
  | cons t ts ih => simp [changed, ih]

/-- **What a wake counts** are the first `count` waiters, and it changes these and no other. -/
lemma zip_wakeTasks (addr count : ℕ) (ts : List ParkedTask) :
    (ts.zip (wakeTasks addr count ts).2).filter changed
        = ((ts.filter (waitsAt addr)).take count).map (fun t => (t, woken addr t)) ∧
      (wakeTasks addr count ts).1 = ((ts.filter (waitsAt addr)).take count).length := by
  induction ts generalizing count with
  | nil => cases count <;> exact ⟨rfl, rfl⟩
  | cons t ts ih =>
    cases count with
    -- what is behind the last one woken stays as it is
    | zero => exact ⟨filter_changed_zip_self (t :: ts), rfl⟩
    | succ count =>
      rw [wakeTasks]
      cases h : wakeAt addr t with
      | some t' =>
        have hwaits : waitsAt addr t := by rw [waitsAt, h, isSome_some]
        have hwoken : woken addr t = t' := by rw [woken, h, getD_some]
        have hne : changed (t, t') := bne_iff_ne.mpr (wakeAt_ne h)
        rw [filter_cons_of_pos hwaits, take_succ_cons, map_cons, hwoken]
        dsimp only
        rw [zip_cons_cons, filter_cons_of_pos hne, (ih count).1, (ih count).2]
        exact ⟨rfl, rfl⟩
      | none =>
        have hwaits : ¬ waitsAt addr t := by simp [waitsAt, h]
        have heq : ¬ changed (t, t) := by simp [changed]
        rw [filter_cons_of_neg hwaits]
        dsimp only
        rw [zip_cons_cons, filter_cons_of_neg heq]
        exact ih (count + 1)

lemma mem_zip_wakeTasks {count : ℕ} {ts : List ParkedTask} :
    (t, t') ∈ (ts.zip (wakeTasks addr count ts).2).filter changed ↔
      t ∈ (ts.filter (waitsAt addr)).take count ∧ t' = woken addr t := by
  rw [(zip_wakeTasks addr count ts).1, List.mem_map]
  constructor
  · rintro ⟨t, ht, heq⟩
    cases heq
    exact ⟨ht, rfl⟩
  · rintro ⟨ht, rfl⟩
    exact ⟨t, ht, rfl⟩

lemma woken_state (h : waitsAt addr t) :
    ∃ deadline, t.state = .futex addr false deadline ∧
      (woken addr t).state = .futex addr true deadline := by
  rw [waitsAt, wakeAt] at h
  rw [woken, wakeAt]
  split at h
  · rename_i waiting deadline hstate
    split_ifs at h with haddr
    · rw [if_pos haddr]
      exact ⟨deadline, by rw [hstate, haddr], by rw [haddr]; rfl⟩
    · cases h
  · cases h

end Scheduler

namespace Machine

variable {M : Type}

/-- A wake by `FUTEX_WAKE` or `FUTEX_WAKE_BITSET`. -/
lemma sysFutex_wake [UserMem M] (m : Machine M) {op : UInt64} (hop : IsWake op)
    (addr val timeoutPtr : UInt64) :
    m.sysFutex addr op val timeoutPtr
      = (.ret (.ok (m.kernel.futexWake addr.toNat val.toNat).1),
          { m with kernel := (m.kernel.futexWake addr.toNat val.toNat).2 }) := by
  have hwait : ¬ IsWait op := by
    rcases hop with hop | hop <;> rw [IsWait, hop] <;> decide
  rw [sysFutex, futex, if_neg hwait, if_pos hop]
  rfl

/-- The wake at the end of a thread reaches every waiter at its `clear_child_tid`. -/
lemma parked_releaseWaiters [GuestMem M] {k : Kernel M} (hclear : k.proc.clearChildTid ≠ 0) :
    k.releaseWaiters.sched.parked
      = (wakeTasks k.proc.clearChildTid (2 ^ 64 - 1) k.sched.parked).2 := by
  have hsched : k.releaseParent.sched = k.sched := by
    unfold releaseParent releaseVfork
    split <;> rfl
  unfold releaseWaiters
  dsimp only
  rw [if_pos (show k.releaseParent.proc.clearChildTid ≠ 0 from hclear)]
  generalize 2 ^ 64 - 1 = count
  change (wakeTasks k.proc.clearChildTid count k.releaseParent.sched.parked).2 = _
  rw [hsched]

/-- **A wake keeps to the address space of the waker** exactly if no task of another group is
among the waiters it reaches first: for a `FUTEX_WAKE` call, and for the wake at the end of a
thread, which has no limit. -/
theorem wake_isolated_iff [UserMem M] [GuestMem M] :
    (∀ (m : Machine M) (addr op val timeoutPtr : UInt64), IsWake op →
      ∃ n m', m.sysFutex addr op val timeoutPtr = (.ret (.ok n), m') ∧
        (Scheduler.Isolated m.kernel.proc.tgid addr.toNat val.toNat m.kernel.sched.parked
            (n, m'.kernel.sched.parked) ↔
          ∀ t ∈ (m.kernel.sched.parked.filter (waitsAt addr.toNat)).take val.toNat,
            t.proc.tgid = m.kernel.proc.tgid)) ∧
      ∀ k : Kernel M, k.proc.clearChildTid ≠ 0 →
        (Scheduler.Isolated k.proc.tgid k.proc.clearChildTid (2 ^ 64 - 1) k.sched.parked
            ((k.futexWake k.proc.clearChildTid (2 ^ 64 - 1)).1, k.releaseWaiters.sched.parked) ↔
          ∀ t ∈ (k.sched.parked.filter (waitsAt k.proc.clearChildTid)).take (2 ^ 64 - 1),
            t.proc.tgid = k.proc.tgid) := by
  constructor
  · intro m addr op val timeoutPtr hop
    exact ⟨_, _, m.sysFutex_wake hop addr val timeoutPtr, isolated_iff _ _ _ _⟩
  intro k hclear
  rw [parked_releaseWaiters hclear]
  exact isolated_iff _ _ _ _

/-- The root creates the task 1001 and waits at 4096; the new task runs. -/
def waitedFor (spec : Kernel.CloneSpec) : Machine FlatMem where
  kernel := Lib.run step ((new (flatByte 0 0 true)).load (flatByte 0 0 true))
    [.syscall (.clone spec), .syscall (.block (.futex 4096 false none))]
  ctx := { cpu := callingCpu fun _ => 0 }
  parked := [{ cpu := callingCpu fun _ => 0 }]

/-- The flags of a thread that is joined at 4096. -/
def joinedSpec : Kernel.CloneSpec := ⟨true, false, false, true, false, 0, 4096⟩

/-- A thread wakes its own group, by a call and by its end. -/
theorem wake_isolated_thread :
    (∃ n m', (waitedFor joinedSpec).sysFutex 4096 FUTEX_WAKE 1 0 = (.ret (.ok n), m') ∧
      Scheduler.Isolated 1000 4096 1 (waitedFor joinedSpec).kernel.sched.parked
        (n, m'.kernel.sched.parked)) ∧
      Scheduler.Isolated 1000 4096 (2 ^ 64 - 1) (waitedFor joinedSpec).kernel.sched.parked
        (((waitedFor joinedSpec).kernel.futexWake 4096 (2 ^ 64 - 1)).1,
          (waitedFor joinedSpec).kernel.releaseWaiters.sched.parked) := by
  have hgroup : (waitedFor joinedSpec).kernel.proc.tgid = 1000 := by decide +kernel
  have hclear : (waitedFor joinedSpec).kernel.proc.clearChildTid = 4096 := by decide +kernel
  have hparked (count : ℕ) :
      ∀ t ∈ ((waitedFor joinedSpec).kernel.sched.parked.filter (waitsAt 4096)).take
        count, t.proc.tgid = 1000 := by
    have hall : ∀ t ∈ (waitedFor joinedSpec).kernel.sched.parked, t.proc.tgid = 1000 := by
      decide +kernel
    exact fun t ht => hall t (mem_of_mem_filter (mem_of_mem_take ht))
  obtain ⟨hcall, hexit⟩ := wake_isolated_iff (M := FlatMem)
  constructor
  · obtain ⟨n, m', hret, hisolated⟩ := hcall (waitedFor joinedSpec) 4096 FUTEX_WAKE 1 0 (by decide)
    rw [hgroup] at hisolated
    exact ⟨n, m', hret, hisolated.mpr (hparked 1)⟩
  have hisolated := hexit (waitedFor joinedSpec).kernel (by rw [hclear]; decide)
  rw [hgroup, hclear] at hisolated
  exact hisolated.mpr (hparked _)

/-- **A wake that another process takes**: the fork 1001 wakes its parent, which has an address
space of its own, and counts it. -/
theorem foreign_waiter_woken :
    (waitedFor forkSpec).kernel.proc.tgid = 1001 ∧
      ((waitedFor forkSpec).sysFutex 4096 FUTEX_WAKE 1 0).1 = .ret (.ok 1) ∧
      ((waitedFor forkSpec).sysFutex 4096 FUTEX_WAKE 1 0).2.kernel.sched.parked.map
          (fun t => (t.proc.tgid, t.state)) = [(1000, .futex 4096 true none)] := by
  decide +kernel

end Machine

/-! ### The result of a timed wait -/

/-- The call made with `c` has returned `value` to a task that goes on with `cpu`. -/
def Cpu.Returns (c cpu : Cpu) (value : UInt64) : Prop :=
  cpu.exception = .externalAddr c.nextPc ∧ cpu.regs .rax = value

/-- The CPU state `FUTEX_WAIT` parks its caller with: behind the call and with its return value,
if there is a deadline, and otherwise in front of the call. -/
def waitCpu (c : Cpu) : Option ℕ → Cpu
  | none => c.prepareResume true
  | some _ => (c.writeVar .rax 0).prepareResume false

lemma waitCpu_returns (c : Cpu) (deadline : ℕ) : c.Returns (waitCpu c (some deadline)) 0 :=
  ⟨rfl, rfl⟩

lemma Cpu.Returns.of_same {c cpu cpu' : Cpu} {value : UInt64} (h : c.Returns cpu value)
    (hsame : cpu.Same cpu') : c.Returns cpu' value :=
  ⟨hsame.exception.trans h.1, (congrFun hsame.regs .rax).trans h.2⟩

namespace Machine

variable {M : Type} [UserMem M]

variable {task : ParkedTask} {addr now : ℕ} {deadline : Option ℕ}

variable (acts : ℕ → Option SigAction)

lemma waitEnd_woken
    (hstate : task.state = .futex addr true deadline) (cpu : Cpu) :
    waitEnd acts task now true cpu = cpu := by
  have htime : timedOut task.state now = false := by
    rw [hstate]
    rfl
  rw [waitEnd, htime]
  simp

omit [UserMem M] in
lemma waitOver_woken {m : Machine M} {index : ℕ}
    (hstate : task.state = .futex addr true deadline) : m.waitOver task index := by
  rw [waitOver, waitIsSatisfied, hstate]
  rfl

/-- A waiter that was woken goes on as it was parked, whatever else happened. -/
lemma Resumes.woken {m m' : Machine M} {ctx : Context}
    (h : m.Resumes task ctx m')
    (hstate : task.state = .futex addr true deadline) :
    ctx.cpu.Same (m'.interrupted ctx.signalSaved.length) := by
  obtain ⟨index, -, hsame, -⟩ := h.interrupted
  rwa [waitOver_woken hstate, waitEnd_woken _ hstate] at hsame

/-- A waiter whose deadline passed before `schedule_next` looked at the clock. -/
lemma waitEnd_timedOut {deadline : ℕ}
    (hstate : task.state = .futex addr false (some deadline)) (hle : deadline ≤ now)
    (ready : Bool) (cpu : Cpu) :
    waitEnd acts task now ready cpu = cpu.writeVar .rax (neg ETIMEDOUT) := by
  have htime : timedOut task.state now := by
    rw [hstate, timedOut]
    exact decide_eq_true hle
  rw [waitEnd, htime, if_pos rfl]

/-- A waiter whose deadline had not passed then: it is left as it was parked, or its wait ends
with `EINTR`. -/
lemma waitEnd_early {deadline : ℕ}
    (hstate : task.state = .futex addr false (some deadline)) (hlt : ¬ deadline ≤ now)
    (ready : Bool) (cpu : Cpu) :
    waitEnd acts task now ready cpu = cpu ∨
      waitEnd acts task now ready cpu = cpu.endWaitWith (neg EINTR) := by
  have htime : timedOut task.state now = false := by
    rw [hstate, timedOut]
    exact decide_eq_false hlt
  rw [waitEnd, htime, if_neg Bool.false_ne_true]
  split_ifs
  · exact .inr rfl
  · exact .inl rfl

/-- **The result of a timed wait.**  A waiter that was woken returns 0.  One that was not and is
resumed with its deadline behind it returns `-ETIMEDOUT` exactly if the deadline had passed when
`schedule_next` looked at the clock, before it moved the clock itself. -/
theorem timedWait_result {m m' : Machine M} {task : ParkedTask} {ctx : Context} {c : Cpu}
    {addr deadline : ℕ} {woken : Bool}
    (hstate : task.state = .futex addr woken (some deadline))
    (hctx : ctx.cpu = waitCpu c (some deadline)) (hresumes : m.Resumes task ctx m') :
    (woken = true → c.Returns (m'.interrupted ctx.signalSaved.length) 0) ∧
      (woken = false → deadline ≤ m'.kernel.now →
        (c.Returns (m'.interrupted ctx.signalSaved.length) (neg ETIMEDOUT) ↔
          deadline ≤ m.kernel.now)) := by
  constructor
  · rintro rfl
    have hsame := hresumes.woken hstate
    rw [hctx] at hsame
    exact (waitCpu_returns c deadline).of_same hsame
  rintro rfl -
  obtain ⟨index, -, hsame, -⟩ := hresumes.interrupted
  rw [hctx] at hsame
  constructor
  · intro hreturns
    -- before its deadline the wait ends with 0, or with `EINTR` for a signal
    by_contra hlt
    have hrax := congrFun hsame.regs .rax
    rw [hreturns.2] at hrax
    rcases waitEnd_early (m.pick.2.actsOf task.proc) hstate hlt (m.waitOver task index)
      (waitCpu c (some deadline)) with hend | hend
    · rw [hend] at hrax
      exact absurd (show neg ETIMEDOUT = 0 from hrax) (by decide)
    · rw [hend] at hrax
      exact absurd (show neg ETIMEDOUT = neg EINTR from hrax) (by decide)
  intro hle
  rw [waitEnd_timedOut _ hstate hle] at hsame
  exact Cpu.Returns.of_same ⟨rfl, rfl⟩ hsame

/-- The root process after its image was loaded, in a system call.  The memory is zero but for a
timespec of 200 nanoseconds at 8192. -/
def loaded : Machine FlatMem where
  kernel := (new (flatByte 8200 200 true)).load (flatByte 8200 200 true)
  ctx := { cpu := callingCpu fun _ => 0 }
  parked := []

/-- The root is parked in a wait with a deadline at 200, and the clock is at 300. -/
def expired : Machine FlatMem :=
  let m := (loaded.setCpu (waitCpu loaded.ctx.cpu (some 200))).parkCurrent
    (.futex 4096 false (some 200))
  { m with kernel := { m.kernel with icount := 300 } }

/-- A wait whose deadline is already behind it when it is looked at. -/
theorem timedWait_result_expired :
    ∃ m', expired.Resumes ⟨loaded.kernel.proc, .futex 4096 false (some 200)⟩
        { cpu := waitCpu loaded.ctx.cpu (some 200) } m' ∧
      loaded.ctx.cpu.Returns (m'.interrupted 0) (neg ETIMEDOUT) := by
  have hscheduled : expired.scheduleNext.1 = true := by decide +kernel
  have hresumes : expired.Resumes ⟨loaded.kernel.proc, .futex 4096 false (some 200)⟩
      { cpu := waitCpu loaded.ctx.cpu (some 200) } expired.scheduleNext.2 :=
    ⟨⟨0, by decide +kernel, by decide +kernel, rfl⟩, Prod.ext hscheduled rfl⟩
  refine ⟨_, hresumes, ((timedWait_result rfl rfl hresumes).2 rfl ?_).mpr ?_⟩
  · decide +kernel
  · decide +kernel

/-- **A wait that times out with 0**: the only task waits for 200 nanoseconds; the clock is moved
to its deadline, and the call returns 0. -/
theorem warped_wait_returns_zero :
    (loaded.sysFutex 4096 FUTEX_WAIT 0 8192).1 = .switched ∧
      (loaded.sysFutex 4096 FUTEX_WAIT 0 8192).2.kernel.proc.pid = 1000 ∧
      (loaded.sysFutex 4096 FUTEX_WAIT 0 8192).2.kernel.now = 200 ∧
      (loaded.sysFutex 4096 FUTEX_WAIT 0 8192).2.ctx.cpu.exception = .externalAddr 4098 ∧
      (loaded.sysFutex 4096 FUTEX_WAIT 0 8192).2.ctx.cpu.regs .rax = 0 := by
  decide +kernel

end Machine

end WebTos.Proc
