import WebTos.Proc.Futex

/-!
Timeouts, and the deadlines the calls that wait make of them (`syscall.rs`).

A call reads its timeout from guest memory or from a register, refuses what is no time,
and saturates what is too long to count in nanoseconds.  Each call then adds the clock
on its own.

* `Timeout`: a timeout as the guest passes it, for each of the calls that take one;
  `Timeout.deadline`: the deadline the call stores for it;
* `Machine.nanosleep`, `Machine.sysTimerfdSettime`: the calls whose only wait is for the time;
* `Timeout.sound_iff`: a relative deadline is right exactly if the sum of the clock and the
  saturated timeout fits into 64 bits.
-/

namespace WebTos.Proc

open Fd List Option

/-! ### Timeouts -/

/-- `read_timeval_at`, of the bytes it read: nanoseconds, saturating. -/
def timevalNanos (bytes : Bytes) : SysResult ℕ :=
  let sec := Lib.leValue (bytes.take 8)
  let usec := Lib.leValue (bytes.drop 8)
  if 2 ^ 63 ≤ sec ∨ 10 ^ 6 ≤ usec then .error .EINVAL
  else .ok (min (min (sec * 10 ^ 9) (2 ^ 64 - 1) + min (usec * 10 ^ 3) (2 ^ 64 - 1)) (2 ^ 64 - 1))

/-- A timeout in milliseconds, an `i32` in a register: a negative one never passes. -/
def millisNanos (arg : UInt64) : Option ℕ :=
  if arg.toNat % 2 ^ 32 < 2 ^ 31 then some (arg.toNat % 2 ^ 32 * 10 ^ 6) else none

/-- The calls that take a timeout, with the flags that say how it is meant. -/
inductive TimedCall where
  | futex (op : UInt64)
  | sleep (absolute : Bool)
  | poll
  | ppoll
  | select
  | pselect6
  | epollWait
  | timerfd (flags : UInt64)
  deriving DecidableEq, Repr

/-- `TFD_TIMER_ABSTIME`. -/
def TFD_TIMER_ABSTIME : UInt64 := 1

/-- The timeout is a time on the clock. -/
def TimedCall.absolute : TimedCall → Bool
  | .futex op => op &&& FUTEX_CMD_MASK == FUTEX_WAIT_BITSET
  | .sleep absolute => absolute
  | .timerfd flags => flags &&& TFD_TIMER_ABSTIME != 0
  | _ => false

/-- A timeout as the guest passes it: the bytes of a `timespec` or `timeval`, unless the
pointer is null, or milliseconds in a register.  `timerfd_settime` reads the interval first,
at `newValue`, and the timeout after it. -/
inductive Timeout where
  | futex (op : UInt64) (spec : Option Bytes)
  | sleep (absolute : Bool) (spec : Option Bytes)
  | poll (arg : UInt64)
  | ppoll (spec : Option Bytes)
  | select (spec : Option Bytes)
  | pselect6 (spec : Option Bytes)
  | epollWait (arg : UInt64)
  | timerfd (flags newValue : UInt64) (interval value : Bytes)
  deriving DecidableEq

namespace Timeout

/-- The call the timeout is for. -/
def call : Timeout → TimedCall
  | .futex op _ => .futex op
  | .sleep absolute _ => .sleep absolute
  | .poll _ => .poll
  | .ppoll _ => .ppoll
  | .select _ => .select
  | .pselect6 _ => .pselect6
  | .epollWait _ => .epollWait
  | .timerfd flags _ _ _ => .timerfd flags

/-- The timeout as the call reads it; none is no timeout.  A sleep without a time is one of
no length. -/
def duration : Timeout → SysResult (Option ℕ)
  | .futex _ none | .ppoll none | .select none | .pselect6 none => .ok none
  | .sleep _ none => .ok (some 0)
  | .futex _ (some spec) | .sleep _ (some spec) | .ppoll (some spec) | .pselect6 (some spec) =>
    (timespecNanos spec).map some
  | .select (some spec) => (timevalNanos spec).map some
  | .poll arg | .epollWait arg => .ok (millisNanos arg)
  | .timerfd _ _ interval value =>
    match timespecNanos interval with
    | .error errno => .error errno
    | .ok _ => (timespecNanos value).map some

/-- The deadline for a timeout of this duration, with the clock at `now` and the epoch's start
at `base`.  The waits for descriptors return at once without a duration, and a timer without
one is disarmed. -/
def due (now base duration : ℕ) : TimedCall → Option ℕ
  | .futex op => some (futexDue now base duration op)
  | .sleep absolute => some (if absolute then max duration now else (now + duration) % 2 ^ 64)
  | .timerfd flags =>
    if duration = 0 then none
    else some (if flags &&& TFD_TIMER_ABSTIME ≠ 0 then duration
      else (now + duration) % 2 ^ 64)
  | .poll | .ppoll | .select | .pselect6 | .epollWait =>
    if duration = 0 then none else some ((now + duration) % 2 ^ 64)

/-- The deadline the call stores. -/
def deadline (t : Timeout) (now base : ℕ) : SysResult (Option ℕ) :=
  t.duration.map fun duration => duration.bind fun duration => due now base duration t.call

end Timeout

/-! ### The calls -/

namespace Machine

variable {M : Type} [UserMem M]

/-- The call goes on once the bytes are in guest memory. -/
def copyOut (m : Machine M) (addr : UInt64) (bytes : Bytes)
    (next : Machine M → Verdict × Machine M) : Verdict × Machine M :=
  copied (fun _ m => next m) (m.writeMem addr bytes)

/-- The deadline of a timeout at this moment. -/
def deadlineOf (m : Machine M) (t : Timeout) : SysResult (Option ℕ) :=
  t.deadline m.kernel.now m.epochBase

/-- `outcome_nanosleep`: parks until the deadline. -/
def nanosleep (m : Machine M) (req : UInt64) (absolute : Bool) : Verdict × Machine M :=
  m.copyInSpec req fun spec m =>
    match m.deadlineOf (.sleep absolute spec) with
    | .error errno => (.ret (.error errno), m)
    | .ok deadline => (.timed (.waiting [] deadline), m)

/-- The description behind a descriptor of the running task. -/
def descOf (m : Machine M) (fd : ℕ) : SysResult Description :=
  ((m.kernel.heap.tables m.kernel.proc.fds).get fd).map fun entry => m.kernel.heap.descs entry.desc

/-- `timer_of`. -/
def timerOf (m : Machine M) (fd : ℕ) : SysResult ℕ :=
  match m.descOf fd with
  | .error errno => .error errno
  | .ok desc =>
    match desc.backing with
    | .timerFd timer => .ok timer
    | _ => .error .EINVAL

/-- The machine with one timer changed. -/
def setTimer (m : Machine M) (timer : ℕ) (inner : TimerFdInner) : Machine M :=
  { m with kernel := { m.kernel with heap := { m.kernel.heap with
    timers := Function.update m.kernel.heap.timers timer inner } } }

/-- The `itimerspec` of a timer: its interval, and the time left until it expires. -/
def itimerspec (inner : TimerFdInner) (now : ℕ) : Bytes :=
  let left := (inner.nextExpiry.map (· - now)).getD 0
  Lib.leBytes 8 (inner.interval / 10 ^ 9) ++ Lib.leBytes 8 (inner.interval % 10 ^ 9) ++
    Lib.leBytes 8 (left / 10 ^ 9) ++ Lib.leBytes 8 (left % 10 ^ 9)

/-- `sys_timerfd_settime`, from the reading of the new setting on. -/
def armTimer (m : Machine M) (timer : ℕ) (flags newValue : UInt64) : Verdict × Machine M :=
  m.copyIn newValue 16 fun interval m =>
    match timespecNanos interval with
    | .error errno => (.ret (.error errno), m)
    | .ok period =>
      m.copyIn (newValue + 16) 16 fun value m =>
        match m.deadlineOf (.timerfd flags newValue interval value) with
        | .error errno => (.ret (.error errno), m)
        | .ok expiry => (.ret (.ok 0), m.setTimer timer ⟨expiry, period⟩)

/-- `sys_timerfd_settime`. -/
def sysTimerfdSettime (m : Machine M) (fd : ℕ) (flags newValue oldValue : UInt64) :
    Verdict × Machine M :=
  match m.timerOf fd with
  | .error errno => (.ret (.error errno), m)
  | .ok timer =>
    if oldValue = 0 then m.armTimer timer flags newValue
    else
      m.copyOut oldValue (itimerspec (m.kernel.heap.timers timer) m.kernel.now) fun m =>
        m.armTimer timer flags newValue

end Machine

/-! ### What a deadline should be -/

/-- The time a `timespec` asks for, if it is one. -/
def timespecLength (bytes : Bytes) : Option ℕ :=
  let sec := Lib.leValue (bytes.take 8)
  let nsec := Lib.leValue (bytes.drop 8)
  if 2 ^ 63 ≤ sec ∨ 10 ^ 9 ≤ nsec then none else some (sec * 10 ^ 9 + nsec)

/-- The time a `timeval` asks for, if it is one. -/
def timevalLength (bytes : Bytes) : Option ℕ :=
  let sec := Lib.leValue (bytes.take 8)
  let usec := Lib.leValue (bytes.drop 8)
  if 2 ^ 63 ≤ sec ∨ 10 ^ 6 ≤ usec then none else some (sec * 10 ^ 9 + usec * 10 ^ 3)

namespace Timeout

/-- The nanoseconds the guest asks for, however many; none if it asks for no time. -/
def length : Timeout → Option ℕ
  | .futex _ none | .ppoll none | .select none | .pselect6 none => none
  | .sleep _ none => some 0
  | .futex _ (some spec) | .sleep _ (some spec) | .ppoll (some spec) | .pselect6 (some spec) =>
    timespecLength spec
  | .select (some spec) => timevalLength spec
  | .poll arg | .epollWait arg => millisNanos arg
  | .timerfd _ _ interval value =>
    if (timespecLength interval).isSome then timespecLength value else none

/-- The address of the second half of an `itimerspec`, which is read when the first is one. -/
def addressSums : Timeout → List (ℕ × ℕ)
  | .timerfd _ newValue interval _ =>
    match timespecNanos interval with
    | .ok _ => [(newValue.toNat, 16)]
    | .error _ => []
  | _ => []

/-- The clock and a relative timeout. -/
def clockSums (t : Timeout) (now base : ℕ) : List (ℕ × ℕ) :=
  match t.duration with
  | .ok (some duration) =>
    if t.call.absolute = false ∧ due now base duration t.call ≠ none then [(now, duration)]
    else []
  | _ => []

/-- The unchecked additions of the call. -/
def sums (t : Timeout) (now base : ℕ) : List (ℕ × ℕ) := t.addressSums ++ t.clockSums now base

/-- **A deadline that is right**: no addition overflows, a relative deadline has not passed
yet, and a shorter timeout for the same call has no later one. -/
structure Sound (t : Timeout) (now base : ℕ) : Prop where
  exact_sums : ∀ s ∈ t.sums now base, s.1 + s.2 < 2 ^ 64
  ahead : t.call.absolute = false → ∀ d, t.deadline now base = .ok (some d) → now ≤ d
  longer : ∀ (t' : Timeout) (n' n d' d : ℕ), t'.call = t.call → t'.length = some n' →
    t.length = some n → n' ≤ n → t'.deadline now base = .ok (some d') →
    t.deadline now base = .ok (some d) → d' ≤ d

/-- The clock and a relative timeout, saturated, fit into 64 bits together, and so does the end
of an `itimerspec`'s first half. -/
structure Fits (t : Timeout) (now : ℕ) : Prop where
  clock : t.call.absolute = false → ∀ n, t.length = some n → now + min n (2 ^ 64 - 1) < 2 ^ 64
  address : ∀ flags newValue interval value, t = .timerfd flags newValue interval value →
    (timespecLength interval).isSome → newValue.toNat + 16 < 2 ^ 64

/-! ### When it is right -/

lemma timespecNanos_eq (bytes : Bytes) : timespecNanos bytes =
    match timespecLength bytes with
    | none => .error .EINVAL
    | some n => .ok (min n (2 ^ 64 - 1)) := by
  rw [timespecNanos, timespecLength]
  split
  · rfl
  · congr 1
    omega

lemma timevalNanos_eq (bytes : Bytes) : timevalNanos bytes =
    match timevalLength bytes with
    | none => .error .EINVAL
    | some n => .ok (min n (2 ^ 64 - 1)) := by
  rw [timevalNanos, timevalLength]
  split
  · rfl
  · congr 1
    omega

variable {n now base d : ℕ} {t : Timeout}

lemma millisNanos_lt {arg : UInt64} (h : millisNanos arg = some n) : n < 2 ^ 64 - 1 := by
  rw [millisNanos] at h
  split at h
  · rename_i hlt
    cases h
    omega
  · cases h

/-- What the call reads is what the guest asks for, saturated. -/
lemma duration_eq (t : Timeout) (d : ℕ) :
    t.duration = .ok (some d) ↔ ∃ n, t.length = some n ∧ min n (2 ^ 64 - 1) = d := by
  have hspec (bytes : Bytes) : (timespecNanos bytes).map some = .ok (some d) ↔
      ∃ n, timespecLength bytes = some n ∧ min n (2 ^ 64 - 1) = d := by
    rw [timespecNanos_eq]
    cases timespecLength bytes <;> simp [Except.map]
  have hval (bytes : Bytes) : (timevalNanos bytes).map some = .ok (some d) ↔
      ∃ n, timevalLength bytes = some n ∧ min n (2 ^ 64 - 1) = d := by
    rw [timevalNanos_eq]
    cases timevalLength bytes <;> simp [Except.map]
  -- milliseconds of an `i32` never saturate
  have hmillis (arg : UInt64) : (.ok (millisNanos arg) : SysResult (Option ℕ)) = .ok (some d) ↔
      ∃ n, millisNanos arg = some n ∧ min n (2 ^ 64 - 1) = d := by
    cases hm : millisNanos arg with
    | none => simp
    | some n =>
      have hmin : min n (2 ^ 64 - 1) = n := Nat.min_eq_left (millisNanos_lt hm).le
      simp only [Except.ok.injEq, some.injEq, exists_eq_left', hmin]
  cases t with
  | futex op spec => cases spec <;> simp [duration, length, hspec]
  | sleep _ spec => cases spec <;> simp [duration, length, hspec, eq_comm]
  | poll arg => exact hmillis arg
  | ppoll spec => cases spec <;> simp [duration, length, hspec]
  | select spec => cases spec <;> simp [duration, length, hval]
  | pselect6 spec => cases spec <;> simp [duration, length, hspec]
  | epollWait arg => exact hmillis arg
  | timerfd _ _ interval value =>
    rw [duration, length, timespecNanos_eq interval]
    cases timespecLength interval with
    | none => simp
    | some => simpa using hspec value

/-- A stored deadline comes from a time the guest asked for. -/
lemma deadline_eq (h : t.deadline now base = .ok (some d)) :
    ∃ n, t.length = some n ∧ due now base (min n (2 ^ 64 - 1)) t.call = some d := by
  rw [deadline] at h
  rcases hdur : t.duration with errno | _ | duration
  · simp [hdur, Except.map] at h
  · simp [hdur, Except.map] at h
  obtain ⟨n, hn, rfl⟩ := (duration_eq t duration).mp hdur
  simp only [hdur, Except.map, bind_some, Except.ok.injEq] at h
  exact ⟨n, hn, h⟩

/-- A relative deadline is a sum, unless there is nothing to wait for. -/
lemma due_relative (now base duration : ℕ) {c : TimedCall} (h : c.absolute = false) :
    due now base duration c = some ((now + duration) % 2 ^ 64) ∨
      (due now base duration c = none ∧ duration = 0) := by
  cases c with
  | futex | sleep => exact .inl (by simp_all [due, futexDue, TimedCall.absolute])
  | timerfd flags =>
    by_cases hzero : duration = 0 <;> simp_all [due, TimedCall.absolute]
  | _ => by_cases hzero : duration = 0 <;> simp [due, hzero]

/-- An absolute deadline grows with the timeout. -/
lemma due_absolute_mono (now base : ℕ) {c : TimedCall} {n' d' : ℕ} (h : c.absolute)
    (hle : n' ≤ n) (hd' : due now base n' c = some d') (hd : due now base n c = some d) :
    d' ≤ d := by
  cases c with
  | futex op =>
    have hop : op &&& FUTEX_CMD_MASK = FUTEX_WAIT_BITSET := by
      simpa [TimedCall.absolute] using h
    simp only [due, futexDue, hop, if_true, some.injEq] at hd hd'
    subst hd hd'
    split <;> omega
  | sleep absolute =>
    obtain rfl : absolute := h
    simp only [due, if_true, some.injEq] at hd hd'
    omega
  | timerfd flags =>
    have habs : flags &&& TFD_TIMER_ABSTIME ≠ 0 := by simpa [TimedCall.absolute] using h
    simp only [due, habs, ne_eq, not_false_eq_true, if_true] at hd hd'
    split at hd
    · cases hd
    split at hd'
    · cases hd'
    cases hd
    cases hd'
    exact hle
  | _ => cases h

lemma Fits.due_eq (h : t.Fits now)
    (hrel : t.call.absolute = false) (hn : t.length = some n)
    (hd : due now base (min n (2 ^ 64 - 1)) t.call = some d) : d = now + min n (2 ^ 64 - 1) := by
  have hfits := h.clock hrel n hn
  rcases due_relative now base (min n (2 ^ 64 - 1)) hrel with hsum | ⟨hnone, -⟩
  · rw [hsum, Nat.mod_eq_of_lt hfits] at hd
    exact (some.inj hd).symm
  · rw [hnone] at hd
    cases hd

/-- The first halves of `itimerspec`s that are times. -/
lemma mem_addressSums {s : ℕ × ℕ} :
    s ∈ t.addressSums ↔ ∃ flags newValue interval value,
      t = .timerfd flags newValue interval value ∧ (timespecLength interval).isSome ∧
        s = (newValue.toNat, 16) := by
  constructor
  · intro h
    cases t with
    | timerfd flags newValue interval value =>
      refine ⟨flags, newValue, interval, value, rfl, ?_⟩
      rw [addressSums, timespecNanos_eq] at h
      cases hlen : timespecLength interval <;> simp_all
    | _ => simp [addressSums] at h
  · rintro ⟨flags, newValue, interval, value, rfl, hlen, rfl⟩
    obtain ⟨period, hperiod⟩ := isSome_iff_exists.mp hlen
    rw [addressSums, timespecNanos_eq, hperiod]
    exact mem_singleton_self _

/-- A relative timeout that is waited for is added to the clock, and nothing else is. -/
lemma mem_clockSums {s : ℕ × ℕ} :
    s ∈ t.clockSums now base ↔ ∃ n, t.call.absolute = false ∧ t.length = some n ∧
      due now base (min n (2 ^ 64 - 1)) t.call ≠ none ∧ s = (now, min n (2 ^ 64 - 1)) := by
  rw [clockSums]
  constructor
  · intro h
    split at h
    · rename_i duration hdur
      obtain ⟨n, hn, rfl⟩ := (duration_eq t duration).mp hdur
      split at h
      · rename_i hrel
        exact ⟨n, hrel.1, hn, hrel.2, mem_singleton.mp h⟩
      · cases h
    · cases h
  · rintro ⟨n, hrel, hn, hdue, rfl⟩
    rw [(duration_eq t _).mpr ⟨n, hn, rfl⟩]
    simp only [if_pos (And.intro hrel hdue), mem_singleton]

/-- **When a deadline is right**: for every clock value, every call and every timeout the guest
can pass, exactly if the clock and the saturated timeout fit into 64 bits together. -/
theorem sound_iff (t : Timeout) (now : UInt64) (base : ℕ) :
    t.Sound now.toNat base ↔ t.Fits now.toNat := by
  have hnow : now.toNat < 2 ^ 64 := now.toNat_lt
  constructor
  · intro h
    refine ⟨fun hrel n hn => ?_, ?_⟩
    · rcases due_relative now.toNat base (min n (2 ^ 64 - 1)) hrel with hsum | ⟨-, hzero⟩
      · refine h.exact_sums (now.toNat, _) (mem_append_right _ (mem_clockSums.mpr ?_))
        exact ⟨n, hrel, hn, by rw [hsum]; exact some_ne_none _, rfl⟩
      · omega
    rintro flags newValue interval value rfl hlen
    refine h.exact_sums (newValue.toNat, 16) (mem_append_left _ (mem_addressSums.mpr ?_))
    exact ⟨flags, newValue, interval, value, rfl, hlen, rfl⟩
  intro h
  refine ⟨fun s hs => ?_, fun hrel d hd => ?_, fun t' n' n d' d hcall hn' hn hle hd' hd => ?_⟩
  · rcases mem_append.mp hs with haddress | hclock
    · obtain ⟨flags, newValue, interval, value, ht, hlen, rfl⟩ := mem_addressSums.mp haddress
      exact h.address flags newValue interval value ht hlen
    · obtain ⟨n, hrel, hn, -, rfl⟩ := mem_clockSums.mp hclock
      exact h.clock hrel n hn
  · obtain ⟨n, hn, hdue⟩ := deadline_eq hd
    rw [h.due_eq hrel hn hdue]
    omega
  obtain ⟨n₁, hn₁, hdue⟩ := deadline_eq hd
  obtain ⟨n₂, hn₂, hdue'⟩ := deadline_eq hd'
  obtain rfl : n₁ = n := some.inj (hn₁.symm.trans hn)
  obtain rfl : n₂ = n' := some.inj (hn₂.symm.trans hn')
  rw [hcall] at hdue'
  cases habs : t.call.absolute with
  | true => exact due_absolute_mono _ _ habs (by omega) hdue' hdue
  | false =>
    -- the shorter one fits as well
    have hfits := h.clock habs n₁ hn
    have hd := h.due_eq habs hn hdue
    rcases due_relative now.toNat base (min n₂ (2 ^ 64 - 1)) habs with hsum | ⟨hnone, -⟩
    · rw [hsum, Nat.mod_eq_of_lt (by omega)] at hdue'
      have := some.inj hdue'
      omega
    · rw [hnone] at hdue'
      cases hdue'

end Timeout

end WebTos.Proc
