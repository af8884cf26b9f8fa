import WebTos.Proc.Poll

/-!
Timers (`timerfd`), and what reading one counts.

A timer that has expired is read as the number of periods that went by; the read moves the
next expiry behind the clock.

* `Machine.readTimer`: `outcome_read` on a timer;
* `TimerRead`, `TimerRead.total`: reads of one timer, each in a machine of its own, and the sum
  of what they return;
* `expirations`: the number of times a periodic timer expires up to a time;
* `TimerRead.reads_counted_iff`: the reads return that number exactly if none that was due failed to
  store its answer.

The expiry is moved before the answer is copied out, and a copy that fails does not put it
back.
-/

namespace WebTos.Proc

open Fd List Option Machine Nat

/-! ### Reading a timer -/

/-- The expirations since the last read, and the timer after it; none if there is none. -/
def expire (inner : TimerFdInner) (now : ℕ) : Option (ℕ × TimerFdInner) :=
  match inner.nextExpiry with
  | none => none
  | some expiry =>
    if now < expiry then none
    else if inner.interval = 0 then some (1, { inner with nextExpiry := none })
    else
      let n := min ((now - expiry) / inner.interval + 1) (2 ^ 64 - 1)
      some (n, { inner with
        nextExpiry := some (min (expiry + min (n * inner.interval) (2 ^ 64 - 1)) (2 ^ 64 - 1)) })

/-- An address space with `host_touch` for writing: the pages of a range are filled, or asked
for.  `peek` gives the bytes of a range whatever their permissions. -/
class PagedMem (M : Type) extends UserMem M where
  hostTouch : M → ℕ → ℕ → M × Copy Unit
  peek : M → ℕ → ℕ → Bytes
  /-- A copy that succeeds leaves its bytes in the buffer. -/
  peek_writeMem (mem : M) (addr : ℕ) (bytes : Bytes) : (writeMem mem addr bytes).2.isDone →
    peek (writeMem mem addr bytes).1 addr bytes.length = bytes

lemma lt_of_expire {inner inner' : TimerFdInner} {now n : ℕ}
    (h : expire inner now = some (n, inner')) : 1 ≤ n ∧ n < 256 ^ 8 := by
  rw [expire] at h
  split at h
  · cases h
  split at h
  · cases h
  split at h
  · cases h
    decide
  · cases h
    exact ⟨le_min (le_add_left 1 _) (by decide), (min_le_right _ _).trans_lt (by decide)⟩

namespace Machine

variable {M : Type} [PagedMem M]

/-- `host_touch`.  A cold page leaves a request for it, and the exception to replay. -/
def hostTouch (m : Machine M) (addr : UInt64) (len : ℕ) : Copy Unit × Machine M :=
  let result := (PagedMem.hostTouch m.kernel.mmu addr.toNat len).2
  let kernel := (m.kernel.touch fun mem =>
    ((PagedMem.hostTouch mem addr.toNat len).1, result.isDone)).2
  match result with
  | .cold =>
    (.cold, { m with
      kernel
      ctx := { m.ctx with cpu := { m.ctx.cpu with
        pendingException := some m.ctx.cpu.exception } }
      pageInWait := true })
  | result => (result, { m with kernel })

/-- `ensure_guest_range`. -/
def ensureGuestRange (m : Machine M) (addr : UInt64) (len : ℕ)
    (next : Machine M → Verdict × Machine M) : Verdict × Machine M :=
  copied (fun _ m => next m) (m.hostTouch addr len)

/-- `outcome_read` of a timer, once its description was found readable. -/
def readTimer (m : Machine M) (timer : ℕ) (nonblock : Bool) (buf : UInt64) (count : ℕ) :
    Verdict × Machine M :=
  m.ensureGuestRange buf (min count 0x400000) fun m =>
    if count < 8 then (.ret (.error .EINVAL), m)
    else
      match expire (m.kernel.heap.timers timer) m.kernel.now with
      | none =>
        if nonblock then (.ret (.error .EAGAIN), m)
        else (.block (.waiting [.timer timer] none), m)
      | some (n, inner) =>
        (m.setTimer timer inner).copyOut buf (Lib.leBytes 8 n) fun m => (.ret (.ok 8), m)

variable (m : Machine M) (addr : UInt64) (len : ℕ)
include m addr len

lemma hostTouch_quiet :
    Quiet m (m.hostTouch addr len).2 := by
  rw [hostTouch]
  dsimp only
  split <;> exact ⟨⟨rfl, rfl, rfl, rfl, rfl, ⟨rfl, rfl, rfl, rfl⟩, rfl, rfl, rfl, rfl⟩, rfl⟩

lemma hostTouch_mmu :
    (m.hostTouch addr len).2.kernel.mmu = (PagedMem.hostTouch m.kernel.mmu addr.toNat len).1 := by
  rw [hostTouch]
  dsimp only
  split <;> rfl

end Machine

/-! ### A sequence of reads -/

/-- One read of a timer: the machine it is made in, whose timer is put in from outside, and the
arguments. -/
structure TimerRead (M : Type) where
  machine : Machine M
  nonblock : Bool
  buf : UInt64
  count : ℕ

variable {inner : TimerFdInner}

namespace TimerRead

variable {M : Type}

/-- The time of the read. -/
def now (r : TimerRead M) : ℕ := r.machine.kernel.now

variable [PagedMem M]

/-- The read, of a timer in this state. -/
def outcome (r : TimerRead M) (timer : ℕ) (inner : TimerFdInner) : Verdict × Machine M :=
  (r.machine.setTimer timer inner).readTimer timer r.nonblock r.buf r.count

/-- The timer after the read. -/
def after (r : TimerRead M) (timer : ℕ) (inner : TimerFdInner) : TimerFdInner :=
  (r.outcome timer inner).2.kernel.heap.timers timer

/-- The value the read returns, if it succeeds: the number that is in the buffer after it. -/
def value (r : TimerRead M) (timer : ℕ) (inner : TimerFdInner) : Option ℕ :=
  match r.outcome timer inner with
  | (.ret (.ok n), m) => some (Lib.leValue (PagedMem.peek m.kernel.mmu r.buf.toNat n))
  | _ => none

/-- The sum of the values the reads return, and the timer after them. -/
def total (timer : ℕ) : TimerFdInner → List (TimerRead M) → ℕ
  | _, [] => 0
  | inner, r :: rs => (r.value timer inner).getD 0 + total timer (r.after timer inner) rs

/-- The read gets as far as the timer: its buffer is long enough, and no page of it is
missing. -/
def reaches (r : TimerRead M) : Bool :=
  decide (8 ≤ r.count) &&
    (PagedMem.hostTouch r.machine.kernel.mmu r.buf.toNat (min r.count 0x400000)).2.isDone

/-- The answer can be copied to the buffer. -/
def stores (r : TimerRead M) (n : ℕ) : Bool :=
  (UserMem.writeMem (PagedMem.hostTouch r.machine.kernel.mmu r.buf.toNat
    (min r.count 0x400000)).1 r.buf.toNat (Lib.leBytes 8 n)).2.isDone

/-! ### One read -/

/-- The machine after the pages of the buffer were touched. -/
def touched (r : TimerRead M) (timer : ℕ) (inner : TimerFdInner) : Machine M :=
  ((r.machine.setTimer timer inner).hostTouch r.buf (min r.count 0x400000)).2

variable (r : TimerRead M)

lemma touched_timer (timer : ℕ) (inner : TimerFdInner) :
    (r.touched timer inner).kernel.heap.timers timer = inner := by
  rw [touched, (hostTouch_quiet _ _ _).touched.heap]
  exact Function.update_self ..

lemma touched_now (timer : ℕ) (inner : TimerFdInner) :
    (r.touched timer inner).kernel.now = r.now :=
  (hostTouch_quiet _ _ _).touched.now

lemma touch_fst (timer : ℕ) (inner : TimerFdInner) :
    ((r.machine.setTimer timer inner).hostTouch r.buf (min r.count 0x400000)).1 =
      (PagedMem.hostTouch r.machine.kernel.mmu r.buf.toNat (min r.count 0x400000)).2 := by
  rw [hostTouch]
  dsimp only
  split
  · next hcold => exact hcold.symm
  · rfl

/-- A read that does not get as far as the timer fails, and leaves it. -/
lemma of_not_reaches {r : TimerRead M} (h : r.reaches = false) (timer : ℕ)
    (inner : TimerFdInner) : r.value timer inner = none ∧ r.after timer inner = inner := by
  have htimer := r.touched_timer timer inner
  have hfst := r.touch_fst timer inner
  rw [value, after, outcome, readTimer, ensureGuestRange]
  rw [touched] at htimer
  rcases htouch : (r.machine.setTimer timer inner).hostTouch r.buf (min r.count 0x400000)
    with ⟨result, m⟩
  rw [htouch] at hfst htimer
  cases result with
  | done _ =>
    have hshort : r.count < 8 := by
      by_contra hlong
      rw [reaches, ← hfst, decide_eq_true (by omega)] at h
      cases h
    simp only [Machine.copied, if_pos hshort]
    exact ⟨trivial, htimer⟩
  | efault | eio | cold => exact ⟨rfl, htimer⟩

lemma outcome_of_reaches {r : TimerRead M} (h : r.reaches) (timer : ℕ)
    (inner : TimerFdInner) : r.outcome timer inner =
      match expire inner r.now with
      | none =>
        if r.nonblock then (.ret (.error .EAGAIN), r.touched timer inner)
        else (.block (.waiting [.timer timer] none), r.touched timer inner)
      | some (n, inner') =>
        ((r.touched timer inner).setTimer timer inner').copyOut r.buf (Lib.leBytes 8 n)
          fun m => (.ret (.ok 8), m) := by
  have hfst := r.touch_fst timer inner
  rw [reaches, Bool.and_eq_true, decide_eq_true_eq] at h
  have htimer := r.touched_timer timer inner
  have hnow := r.touched_now timer inner
  rw [outcome, readTimer, ensureGuestRange]
  rw [touched] at htimer hnow ⊢
  rcases htouch : (r.machine.setTimer timer inner).hostTouch r.buf (min r.count 0x400000)
    with ⟨result, m⟩
  rw [htouch] at hfst htimer hnow
  rw [← hfst] at h
  cases result with
  | done _ =>
    dsimp only at htimer hnow
    simp only [Machine.copied, if_neg (not_lt.mpr h.1), hnow]
    rw [htimer]
  | efault | eio | cold => cases h.2

lemma of_not_due {r : TimerRead M} (timer : ℕ) (h : expire inner r.now = none) :
    r.value timer inner = none ∧ r.after timer inner = inner := by
  cases hreach : r.reaches with
  | false => exact of_not_reaches hreach timer inner
  | true =>
    have htimer := r.touched_timer timer inner
    rw [value, after, outcome_of_reaches hreach, h]
    cases r.nonblock <;> exact ⟨rfl, htimer⟩

/-- A read of a timer that has expired takes the expirations, and returns them if the buffer
takes them. -/
lemma of_due {r : TimerRead M} {inner' : TimerFdInner} {n : ℕ} (hreach : r.reaches) (timer : ℕ)
    (h : expire inner r.now = some (n, inner')) :
    r.value timer inner = (if r.stores n then some n else none) ∧
      r.after timer inner = inner' := by
  have hquiet := ((r.touched timer inner).setTimer timer inner').writeMem_quiet r.buf
    (Lib.leBytes 8 n)
  have htimer : (((r.touched timer inner).setTimer timer inner').writeMem r.buf
      (Lib.leBytes 8 n)).2.kernel.heap.timers timer = inner' := by
    rw [hquiet.touched.heap]
    exact Function.update_self ..
  have hstores : (((r.touched timer inner).setTimer timer inner').writeMem r.buf
      (Lib.leBytes 8 n)).1.isDone = r.stores n := by
    rw [(writeMem_kernel _ _ _).1, stores]
    exact congrArg (fun mem => (UserMem.writeMem mem _ _).2.isDone) (hostTouch_mmu _ _ _)
  -- what was stored is read back from the buffer
  have hpeek : (((r.touched timer inner).setTimer timer inner').writeMem r.buf
      (Lib.leBytes 8 n)).1.isDone → Lib.leValue (PagedMem.peek
        (((r.touched timer inner).setTimer timer inner').writeMem r.buf
          (Lib.leBytes 8 n)).2.kernel.mmu r.buf.toNat 8) = n := by
    intro hdone
    rw [(writeMem_kernel _ _ _).1] at hdone
    rw [(writeMem_kernel _ _ _).2]
    have hback := PagedMem.peek_writeMem _ _ _ hdone
    rw [Lib.length_leBytes] at hback
    rw [hback, Lib.leValue_leBytes (lt_of_expire h).2]
  rw [value, after, outcome_of_reaches hreach, h]
  dsimp only
  rw [copyOut, ← hstores]
  rcases hwrite : ((r.touched timer inner).setTimer timer inner').writeMem r.buf (Lib.leBytes 8 n)
    with ⟨result, m⟩
  rw [hwrite] at htimer hpeek
  cases result with
  | done => exact ⟨congrArg some (hpeek rfl), htimer⟩
  | efault | eio | cold => exact ⟨rfl, htimer⟩

end TimerRead

/-! ### What the reads should count -/

/-- The number of times a timer with first expiry `t` and interval `p` has expired by `T`. -/
noncomputable def expirations (t p T : ℕ) : ℕ := {k : ℕ | t + k * p ≤ T}.ncard

/-- A periodic timer of which the first `N` expirations were taken. -/
def periodic (t p N : ℕ) : TimerFdInner := ⟨some (t + N * p), p⟩

variable {N : ℕ}

section Counting

variable {t p : ℕ}

lemma expirations_eq (hp : 0 < p) (T : ℕ) :
    expirations t p T = if T < t then 0 else (T - t) / p + 1 := by
  rw [expirations]
  split
  · rename_i hlt
    have hempty : {k : ℕ | t + k * p ≤ T} = ∅ := by
      ext k
      simp only [Set.mem_ofPred_eq, Set.mem_empty_iff_false, iff_false, not_le]
      omega
    rw [hempty, Set.ncard_empty]
  rename_i hle
  have hrange : {k : ℕ | t + k * p ≤ T} = ↑(Finset.range ((T - t) / p + 1)) := by
    ext k
    simp only [Set.mem_ofPred_eq, Finset.coe_range, Set.mem_Iio, Nat.lt_succ_iff,
      Nat.le_div_iff_mul_le hp]
    omega
  rw [hrange, Set.ncard_coe_finset, Finset.card_range]

lemma expirations_mono (hp : 0 < p) {T T' : ℕ} (h : T ≤ T') :
    expirations t p T ≤ expirations t p T' := by
  have hdiv : (T - t) / p ≤ (T' - t) / p := Nat.div_le_div_right (by omega)
  rw [expirations_eq hp, expirations_eq hp]
  generalize (T - t) / p = a at *
  generalize (T' - t) / p = b at *
  split <;> split <;> omega

/-- The expirations beyond the first `N` have begun exactly if the next one is due. -/
lemma lt_expirations_iff (hp : 0 < p) (N T : ℕ) :
    N < expirations t p T ↔ t + N * p ≤ T := by
  rw [expirations_eq hp]
  split
  · constructor
    · omega
    · intro h
      omega
  · rw [Nat.lt_succ_iff, Nat.le_div_iff_mul_le hp]
    omega

variable {now : ℕ}

lemma expire_periodic_none (h : now < t + N * p) :
    expire (periodic t p N) now = none := by
  rw [expire, periodic]
  exact if_pos h

/-- **What one read takes**: all expirations that were not taken yet. -/
lemma expire_periodic (hp : 0 < p) (hdue : t + N * p ≤ now)
    (hfits : t + expirations t p now * p < 2 ^ 64) :
    expire (periodic t p N) now
      = some (expirations t p now - N, periodic t p (expirations t p now)) := by
  have hN : N < expirations t p now := (lt_expirations_iff hp N now).mpr hdue
  -- the periods since the next expiry, and that one
  have hcount : (now - (t + N * p)) / p + 1 = expirations t p now - N := by
    have hsub : (now - (t + N * p)) / p = (now - t) / p - N := by
      rw [← Nat.sub_sub, mul_comm N p, Nat.sub_mul_div]
    rw [hsub]
    rw [expirations_eq hp, if_neg (by omega)] at hN ⊢
    generalize (now - t) / p = a at *
    omega
  have hnext : t + N * p + (expirations t p now - N) * p = t + expirations t p now * p := by
    rw [Nat.sub_mul]
    have := Nat.mul_le_mul_right p hN.le
    omega
  have hle : expirations t p now - N ≤ (expirations t p now - N) * p :=
    Nat.le_mul_of_pos_right _ hp
  rw [expire, periodic]
  have hmin : min (expirations t p now - N) (2 ^ 64 - 1) = expirations t p now - N :=
    min_eq_left (by omega)
  have hmin' : min ((expirations t p now - N) * p) (2 ^ 64 - 1) = (expirations t p now - N) * p :=
    min_eq_left (by omega)
  simp only [if_neg (not_lt.mpr hdue), if_neg hp.ne', hcount, hmin, hmin', hnext]
  rw [min_eq_left (by omega)]
  rfl

end Counting

namespace TimerRead

variable {M : Type} [PagedMem M]

/-- The timer was due, the read reached it, and its answer could not be stored: the expirations
it took are lost. -/
def Loses (r : TimerRead M) (inner : TimerFdInner) : Prop :=
  r.reaches = true ∧ ∃ n inner', expire inner r.now = some (n, inner') ∧ r.stores n = false

/-- No read of the sequence loses expirations. -/
def Keeps (timer : ℕ) : TimerFdInner → List (TimerRead M) → Prop
  | _, [] => True
  | inner, r :: rs => ¬ r.Loses inner ∧ Keeps timer (r.after timer inner) rs

variable {timer v : ℕ}

lemma value_eq_some {r : TimerRead M} (h : r.value timer inner = some v) :
    r.reaches ∧ ∃ inner', expire inner r.now = some (v, inner') ∧ r.stores v := by
  cases hreach : r.reaches with
  | false => simp [(of_not_reaches hreach timer inner).1] at h
  | true =>
    refine ⟨rfl, ?_⟩
    rcases hexpire : expire inner r.now with _ | ⟨n, inner'⟩
    · simp [(of_not_due timer hexpire).1] at h
    rw [(of_due hreach timer hexpire).1] at h
    split at h
    · rename_i hstores
      cases h
      exact ⟨inner', rfl, hstores⟩
    · cases h

/-- The timer after the reads. -/
def afterAll (timer : ℕ) (inner : TimerFdInner) (rs : List (TimerRead M)) : TimerFdInner :=
  rs.foldl (fun inner r => r.after timer inner) inner

/-! ### Reads of a periodic timer -/

section Periodic

variable {t p : ℕ} (timer : ℕ) {r : TimerRead M}

/-- A read before the next expiry. -/
lemma periodic_early (h : r.now < t + N * p) :
    r.value timer (periodic t p N) = none ∧
      r.after timer (periodic t p N) = periodic t p N ∧ ¬ r.Loses (periodic t p N) := by
  have hexpire : expire (periodic t p N) r.now = none := expire_periodic_none h
  refine ⟨(of_not_due timer hexpire).1, (of_not_due timer hexpire).2, ?_⟩
  rintro ⟨-, n, inner', hsome, -⟩
  rw [hexpire] at hsome
  cases hsome

lemma periodic_unreached (h : r.reaches = false) :
    r.value timer (periodic t p N) = none ∧
      r.after timer (periodic t p N) = periodic t p N ∧ ¬ r.Loses (periodic t p N) := by
  refine ⟨(of_not_reaches h _ _).1, (of_not_reaches h _ _).2, ?_⟩
  rintro ⟨hreach, -⟩
  rw [h] at hreach
  cases hreach

lemma periodic_due (hp : 0 < p) (hreach : r.reaches) (hdue : t + N * p ≤ r.now)
    (hfits : t + expirations t p r.now * p < 2 ^ 64) :
    (r.value timer (periodic t p N) = (if r.stores (expirations t p r.now - N)
        then some (expirations t p r.now - N) else none)) ∧
      r.after timer (periodic t p N) = periodic t p (expirations t p r.now) ∧
      (r.Loses (periodic t p N) ↔ r.stores (expirations t p r.now - N) = false) := by
  have hexpire := expire_periodic hp hdue hfits
  refine ⟨(of_due hreach timer hexpire).1, (of_due hreach timer hexpire).2, ?_, fun hstores => ?_⟩
  · rintro ⟨-, n, inner', hsome, hstores⟩
    rw [hexpire] at hsome
    cases hsome
    exact hstores
  · exact ⟨hreach, _, _, hexpire, hstores⟩

/-- **What the reads return together**, up to one that succeeds: at most the expirations that
were not taken before, and all of them exactly if no read lost any. -/
lemma total_periodic (hp : 0 < p) (last : TimerRead M)
    (hfits : t + expirations t p last.now * p < 2 ^ 64) (rs : List (TimerRead M)) :
    ∀ N, (∀ r ∈ rs, r.now ≤ last.now) →
      last.value timer (afterAll timer (periodic t p N) rs) ≠ none →
      total timer (periodic t p N) (rs ++ [last]) ≤ expirations t p last.now - N ∧
        N < expirations t p last.now ∧
        (total timer (periodic t p N) (rs ++ [last]) = expirations t p last.now - N ↔
          Keeps timer (periodic t p N) rs) := by
  induction rs with
  | nil =>
    intro N _ hlast
    obtain ⟨v, hv⟩ := ne_none_iff_exists'.mp hlast
    have hvalue : last.value timer (periodic t p N) = some v := hv
    obtain ⟨-, inner', hexpire, -⟩ := value_eq_some hvalue
    have hdue : t + N * p ≤ last.now := by
      by_contra hearly
      rw [expire_periodic_none (not_le.mp hearly)] at hexpire
      cases hexpire
    rw [expire_periodic hp hdue hfits] at hexpire
    obtain rfl : expirations t p last.now - N = v := by
      simpa using (Prod.ext_iff.mp (some.inj hexpire)).1
    have htotal : total timer (periodic t p N) ([] ++ [last]) = expirations t p last.now - N := by
      simp only [nil_append, total, hvalue, getD_some, add_zero]
    exact ⟨htotal.le, (lt_expirations_iff hp N _).mpr hdue, fun _ => trivial, fun _ => htotal⟩
  | cons r rs ih =>
    intro N htimes hlast
    have hr : r.now ≤ last.now := htimes r mem_cons_self
    have hmono := expirations_mono (t := t) hp hr
    have hfitsr : t + expirations t p r.now * p < 2 ^ 64 := by
      have := mul_le_mul_right p hmono
      omega
    have hrest : ∀ r' ∈ rs, r'.now ≤ last.now := fun r' hr' =>
      htimes r' (mem_cons_of_mem _ hr')
    have hcons : total timer (periodic t p N) (r :: rs ++ [last])
        = (r.value timer (periodic t p N)).getD 0
          + total timer (r.after timer (periodic t p N)) (rs ++ [last]) := rfl
    have hafter : afterAll timer (periodic t p N) (r :: rs)
        = afterAll timer (r.after timer (periodic t p N)) rs := rfl
    rw [hafter] at hlast
    -- a read that is early or does not reach the timer leaves everything as it is
    have hskip (hvalue : r.value timer (periodic t p N) = none)
        (hsame : r.after timer (periodic t p N) = periodic t p N)
        (hkept : ¬ r.Loses (periodic t p N)) :
        total timer (periodic t p N) (r :: rs ++ [last]) ≤ expirations t p last.now - N ∧
          N < expirations t p last.now ∧
          (total timer (periodic t p N) (r :: rs ++ [last]) = expirations t p last.now - N ↔
            Keeps timer (periodic t p N) (r :: rs)) := by
      rw [hsame] at hlast
      obtain ⟨hle, hlt, hiff⟩ := ih N hrest hlast
      rw [hcons, hvalue, hsame, getD_none, zero_add, Keeps, hsame]
      exact ⟨hle, hlt, hiff.trans (and_iff_right hkept).symm⟩
    rcases lt_or_ge r.now (t + N * p) with hearly | hdue
    · obtain ⟨hvalue, hsame, hkept⟩ := periodic_early timer hearly
      exact hskip hvalue hsame hkept
    cases hreach : r.reaches with
    | false =>
      obtain ⟨hvalue, hsame, hkept⟩ := periodic_unreached timer hreach
      exact hskip hvalue hsame hkept
    | true =>
      obtain ⟨hvalue, hmoved, hloses⟩ := periodic_due timer hp hreach hdue hfitsr
      have hN := (lt_expirations_iff hp N r.now).mpr hdue
      rw [hmoved] at hlast
      obtain ⟨hle, hlt, hiff⟩ := ih _ hrest hlast
      rw [hcons, hvalue, hmoved, Keeps, hmoved, hloses, ← hiff]
      cases hstores : r.stores (expirations t p r.now - N) with
      | true =>
        simp only [if_true, getD_some, Bool.true_eq_false, not_false_eq_true, true_and]
        refine ⟨by omega, by omega, ?_⟩
        constructor <;> intro h <;> omega
      | false =>
        simp only [Bool.false_eq_true, if_false, getD_none, not_true_eq_false,
          false_and, iff_false]
        refine ⟨by omega, by omega, by omega⟩

end Periodic

lemma one_le_value {r : TimerRead M} (h : r.value timer inner = some v) : 1 ≤ v := by
  obtain ⟨-, inner', hexpire, -⟩ := value_eq_some h
  exact (lt_of_expire hexpire).1

/-- **Expirations are counted**: for every timer armed with a first expiry `t` and an interval
`p`, and every sequence of reads in the order of time that ends with one that succeeds at `T`,
the values returned add up to the number of expirations by `T` exactly if no read lost what it
took.  Each value is positive, and a read with nothing to return waits or gives `EAGAIN`. -/
theorem reads_counted_iff {t p : ℕ} (hp : 0 < p) (timer : ℕ) (rs : List (TimerRead M))
    (last : TimerRead M)
    (hsorted : (rs ++ [last]).Pairwise fun r r' => r.now ≤ r'.now)
    (hfits : t + expirations t p last.now * p < 2 ^ 64)
    (hlast : last.value timer (afterAll timer ⟨some t, p⟩ rs) ≠ none) :
    (total timer ⟨some t, p⟩ (rs ++ [last]) = expirations t p last.now ↔
        Keeps timer ⟨some t, p⟩ rs) ∧
      (∀ (r : TimerRead M) (inner : TimerFdInner) (v : ℕ), r.value timer inner = some v → 1 ≤ v) ∧
      ∀ (r : TimerRead M) (inner : TimerFdInner), r.reaches = true → expire inner r.now = none →
        (r.outcome timer inner).1 = if r.nonblock then .ret (.error .EAGAIN)
          else .block (.waiting [.timer timer] none) := by
  have hstart : (⟨some t, p⟩ : TimerFdInner) = periodic t p 0 := by
    rw [periodic, zero_mul, add_zero]
  have htimes : ∀ r ∈ rs, r.now ≤ last.now := fun r hr =>
    (pairwise_append.mp hsorted).2.2 r hr last (mem_singleton_self last)
  refine ⟨?_, fun r inner v => one_le_value, fun r inner hreach hnone => ?_⟩
  · rw [hstart] at hlast ⊢
    simpa using (total_periodic timer hp last hfits rs 0 htimes hlast).2.2
  · rw [outcome_of_reaches hreach, hnone]
    cases r.nonblock <;> rfl

end TimerRead

instance : PagedMem FlatMem where
  hostTouch mem _ _ := (mem, .done ())
  peek mem addr len := (List.range len).map fun i => mem.bytes (addr + i)
  peek_writeMem mem addr bytes hdone := by
    have hwritable : mem.writable = true := by
      by_contra h
      simp only [UserMem.writeMem, if_neg h] at hdone
      cases hdone
    refine List.ext_getElem (by simp) fun i hi _ => ?_
    simp [UserMem.writeMem, hwritable, FlatMem.copy, show i < bytes.length by simpa using hi]

/-- A read at a time, with a buffer that can be written or cannot. -/
def readAt (now : ℕ) (writable : Bool) : TimerRead FlatMem where
  machine := {
    kernel := { Kernel.new (flatByte 0 0 writable) with icount := now }
    ctx := { cpu := callingCpu fun _ => 0 }
    parked := [] }
  nonblock := true
  buf := 8192
  count := 8

namespace TimerRead

/-- A timer that expires at 10, 20 and 30, read at 10 and at 35. -/
theorem reads_counted_twice : total 0 ⟨some 10, 10⟩ ([readAt 10 true] ++ [readAt 35 true])
    = expirations 10 10 35 ∧ expirations 10 10 35 = 3 := by
  have hthree : expirations 10 10 35 = 3 := by
    rw [expirations_eq (by decide)]
    decide
  refine ⟨?_, hthree⟩
  refine (reads_counted_iff (by decide) 0 [readAt 10 true] (readAt 35 true) (by decide +kernel)
    ?_ (by decide +kernel)).1.mpr ⟨?_, trivial⟩
  · have hnow : (readAt 35 true).now = 35 := rfl
    rw [hnow, hthree]
    decide
  · rintro ⟨-, n, inner, -, hstores⟩
    cases hstores

/-- **A lost expiration**: the first read has a buffer that cannot be written.  It fails, and
the expiration it took is counted by no read after it. -/
theorem faulting_read_loses_expirations :
    total 0 ⟨some 10, 10⟩ [readAt 10 false, readAt 35 true] = 2 ∧
      (readAt 35 true).value 0 (afterAll 0 ⟨some 10, 10⟩ [readAt 10 false]) = some 2 ∧
      expirations 10 10 35 = 3 := by
  refine ⟨by decide +kernel, by decide +kernel, ?_⟩
  rw [expirations_eq (by decide)]
  decide

end TimerRead

end WebTos.Proc
