import WebTos.Lib.Run
import WebTos.Vm.Fuel

/-!
`InterpVm::run`: fuel in slices, exceptions, and the instruction limit.

A run alternates slices of the block loop with calls of `handle_exception`.  Here it is
taken apart into steps, so that the host, the kernel and the JIT may do at each of them
whatever they like: what they decide is the step's input.

* `Engine`: the VM with its limit and timer, and where in `run` it stands;
* `Response`: what the kernel, the lifter and the demand pager make of an exception;
* `Engine.handle`, `Engine.slice`, `Engine.round`: the parts of `run`;
* `Engine.Step`, `Engine.step`: one step of the host or of a run;
* `Engine.Bounded`: while a run is under way, the count cannot pass its bound;
* `Engine.count_le`: over every sequence of steps that meets `Engine.Sound`, a run that
  has returned left the count at most the larger of the count at its entry and its limit.
-/

namespace WebTos

open Lib

variable {σ ω : Type}

/-- `VmExit`, apart from `Running`. -/
inductive EngineExit where
  | instructionLimit | breakpoint | interrupted | halt | killed | deadlock | outOfMemory
  | unimplemented
  | unhandled (exception : Exception)
deriving DecidableEq, Repr

/-- The code of `ExternalAddr`. -/
def EXTERNAL_ADDR : ExceptionCode := .other 0x2001

/-- The exits of the exceptions that have one of their own. -/
def exitOf (e : Exception) : EngineExit :=
  match e.code with
  | .other 0x0002 | .other 0x0003 => .halt
  | .other 0x0004 => .breakpoint
  | .other 0x0501 => .outOfMemory
  | _ => .unhandled e

/-- The instruction counter and the fuel are the same. -/
structure Cpu.SameCount (c c' : Cpu σ) : Prop where
  icount : c'.icount = c.icount
  start : c'.fuelStart = c.fuelStart
  fuel : c'.fuel = c.fuel

/-- What the environment says to an exception. -/
inductive EnvAnswer where
  | declines
  | running
  | exit (exit : EngineExit)
deriving DecidableEq, Repr

/-- What the lifter makes of an address. -/
inductive Lifted (σ ω : Type) where
  | found (vm : Vm σ ω)
  /-- The block map has the address already. -/
  | corrupted
  /-- The bytes do not decode: the exception that says so. -/
  | failed (vm : Vm σ ω) (exception : Exception)

/-- What the host, the environment and the lifter make of one exception.  None of them
touches the instruction counter: the kernel saves it over a reset of the CPU. -/
structure Response (σ ω : Type) where
  /-- The interrupt flag is set. -/
  interrupted : Bool
  /-- `try_page_in` filled the page, and the memory then. -/
  pagedIn : Option (σ → σ)
  /-- `Environment::handle_exception`. -/
  env : Vm σ ω → EnvAnswer × Vm σ ω
  /-- The exception the environment queues for the next pass. -/
  queued : Option Exception
  /-- The environment marks a retry of a restartable fault. -/
  retry : Bool
  /-- `Environment::next_timer`. -/
  timer : ℕ
  /-- `handle_external_address` and `handle_code_not_translated`. -/
  lift : Vm σ ω → Lifted σ ω
  env_count : ∀ v : Vm σ ω, v.cpu.SameCount (env v).2.cpu
  lift_found : ∀ v vm : Vm σ ω, lift v = .found vm → v.cpu.SameCount vm.cpu
  lift_failed : ∀ (v vm : Vm σ ω) (e : Exception), lift v = .failed vm e →
    v.cpu.SameCount vm.cpu

/-- Where in `run` the engine stands. -/
inductive Phase where
  /-- No run is under way. -/
  | idle
  /-- The exception queued before this pass is being handled. -/
  | queued
  /-- About to hand out fuel. -/
  | fuel
  /-- In the block loop. -/
  | loop
  /-- The exception the block loop was left with is being handled. -/
  | after
deriving DecidableEq, Repr

/-- The engine.  `entry` and `inForce` are read by no function: the count and the limit
that the run now under way, or the last one, was started with. -/
structure Engine (σ ω : Type) where
  vm : Vm σ ω
  pendingException : Option Exception
  icountLimit : ℕ
  nextTimer : ℕ
  resumePageIn : Bool
  /-- `PAGE_IN_RETRY`. -/
  pageInRetry : Bool
  phase : Phase
  lastExit : Option EngineExit
  entry : ℕ
  inForce : ℕ

namespace Engine

/-- The engine around a VM that has not run. -/
def new (v : Vm σ ω) : Engine σ ω where
  vm := { v with cpu := { v.cpu with icount := 0, fuelStart := 0, fuel := 0 } }
  pendingException := none
  icountLimit := 2 ^ 64 - 1
  nextTimer := 0
  resumePageIn := false
  pageInRetry := false
  phase := .idle
  lastExit := none
  entry := 0
  inForce := 2 ^ 64 - 1

/-- The retired instructions (`Cpu::icount`). -/
def count (e : Engine σ ω) : ℕ := e.vm.cpu.retired

/-- The CPU is replaced. -/
def setCpu (e : Engine σ ω) (c : Cpu σ) : Engine σ ω := { e with vm := { e.vm with cpu := c } }

/-- `CHECK_FOR_INTERRUPT_FLAG_TIMER`. -/
def CHECK_FOR_INTERRUPT_FLAG_TIMER : ℕ := 0x100000

/-- `update_timer`, given the environment's timer. -/
def updateTimer (e : Engine σ ω) (timer : ℕ) : Engine σ ω :=
  let check := (CHECK_FOR_INTERRUPT_FLAG_TIMER + e.vm.cpu.icount) % 2 ^ 64
  { e with nextTimer := min (min e.icountLimit timer) check }

/-- The head of the loop in `run`: a queued exception comes first. -/
def top (e : Engine σ ω) : Engine σ ω :=
  match e.pendingException with
  | some exception =>
    { e.setCpu { e.vm.cpu with exception := some exception } with
      pendingException := none
      phase := .queued }
  | none => { e with phase := .fuel }

/-- `get_current_block`, for an engine that stands nowhere. -/
def find (v : Vm σ ω) : Vm σ ω :=
  match v.place with
  | .left none =>
    match v.resolve v.cpu.pc with
    | some id => { v with place := .running id 0 }
    | none => v
  | .left (some (id, offset)) => { v with place := .running id offset }
  | .running _ _ => v

/-- The start of `run`.  A resumed run keeps the timer of the run it resumes. -/
def start (e : Engine σ ω) (timer : ℕ) : Engine σ ω :=
  let resumed := e.resumePageIn
  let e := { e with resumePageIn := false, entry := e.count, inForce := e.icountLimit }
  (if resumed then e else { e with vm := find e.vm }.updateTimer timer).top

/-- What a call of `handle_exception` comes to.  `again` is its call of itself with the
exception of the lifter. -/
inductive Verdict where
  | running
  | exit (exit : EngineExit)
  | again
deriving DecidableEq, Repr

/-- An address is looked up and lifted. -/
def translate (r : Response σ ω) (e : Engine σ ω) : Verdict × Engine σ ω :=
  match r.lift e.vm with
  | .found vm => (.running, { e with vm })
  | .corrupted => (.exit (.unhandled ⟨.corruptedBlockMap, 0⟩), e)
  | .failed vm exception =>
    let e := { e with vm }.setCpu { vm.cpu with exception := some exception }
    if e.icountLimit ≤ e.vm.cpu.icount then (.exit .instructionLimit, e) else (.again, e)

/-- `handle_exception`, past the environment. -/
def handleDeclined (r : Response σ ω) (e : Engine σ ω) : Verdict × Engine σ ω :=
  match e.vm.cpu.exception with
  | none | some ⟨.instructionLimit, _⟩ =>
    if e.icountLimit ≤ e.vm.cpu.icount then (.exit .instructionLimit, e)
    else if e.vm.cpu.pc ∈ e.vm.code.breakpoints then (.exit .breakpoint, e)
    else (.running, e.updateTimer r.timer)
  | some exception =>
    if exception.code = .codeNotTranslated ∨ exception.code = .selfModifyingCode ∨
        exception.code = EXTERNAL_ADDR then e.translate r
    else (.exit (exitOf exception), e)

/-- `handle_exception`. -/
def handle (r : Response σ ω) (e : Engine σ ω) : Verdict × Engine σ ω :=
  if r.interrupted then (.exit .interrupted, e)
  else
    match r.pagedIn with
    | some fill =>
      (.running, { e.setCpu { e.vm.cpu with regs := fill e.vm.cpu.regs, exception := none } with
        pageInRetry := true })
    | none =>
      let (answer, vm) := r.env e.vm
      let e := { e with
        vm
        pendingException := r.queued.or e.pendingException
        pageInRetry := e.pageInRetry || r.retry }
      match answer with
      | .running => (.running, e)
      | .exit exit => (.exit exit, e)
      | .declines => e.handleDeclined r

/-- A verdict on the exception that is being handled. -/
def settle (e : Engine σ ω) (resumeAt : Engine σ ω → Engine σ ω) : Verdict → Engine σ ω
  | .running => resumeAt e
  | .again => e
  | .exit exit => { e with phase := .idle, lastExit := some exit }

/-- `adjust_cpu_fuel_for_block_reentry`. -/
def adjustFuel (c : Cpu σ) (block : LiftedBlock ω) (offset : ℕ) (retry : Bool) : Cpu σ :=
  if retry then c
  else if (markers (block.pcode.take offset)).isEmpty then c
  else
    match block.pcode[offset]? with
    | some (.op _) => { c with fuel := c.fuel - 1 }
    | _ => c

/-- `run_block_interpreter`, up to its loop. -/
def enterLoop (e : Engine σ ω) : Engine σ ω :=
  let v := find { e.vm with cpu := { e.vm.cpu with exception := none } }
  match v.place with
  | .left _ => { e with vm := v.raise v.cpu .codeNotTranslated v.cpu.pc, phase := .loop }
  | .running id offset =>
    match v.code.blocks[id]? with
    | none => { e with vm := v.raise v.cpu .corruptedBlockMap 0, phase := .loop }
    | some block =>
      { e with
        vm := { v with cpu := adjustFuel v.cpu block offset e.pageInRetry }
        pageInRetry := false
        phase := .loop }

/-- Fuel is handed out up to the timer. -/
def slice (e : Engine σ ω) : Engine σ ω :=
  let n := e.nextTimer - e.vm.cpu.icount
  if 0 < n then (e.setCpu (e.vm.cpu.updateFuel n)).enterLoop
  else
    let value := (e.vm.cpu.exception.map Exception.value).getD 0
    { e.setCpu { e.vm.cpu with exception := some ⟨.instructionLimit, value⟩ } with phase := .after }

/-- A round of the block loop; once the loop is left the fuel is cleared. -/
def round (M : Machine σ ω) (translates : ω → Bool) (e : Engine σ ω) (x : Choice) : Engine σ ω :=
  match e.vm.place with
  | .left _ => { e.setCpu (e.vm.cpu.updateFuel 0) with phase := .after }
  | .running _ _ => { e with vm := e.vm.round M translates x }

/-- A step of the host or of a run. -/
inductive Step (σ ω : Type) where
  /-- The host sets `icount_limit`. -/
  | setLimit (limit : UInt64)
  /-- `suspend_for_page_in`. -/
  | suspend
  /-- `cancel_page_in_resume`. -/
  | cancel
  /-- The host calls `run`; the environment's timer then. -/
  | run (timer : ℕ)
  /-- A call of `handle_exception`. -/
  | respond (r : Response σ ω)
  /-- Fuel is handed out. -/
  | slice
  /-- A round of the block loop. -/
  | round (x : Choice)

/-- The engine after a step.  A step that the phase has no use for does nothing. -/
def step (M : Machine σ ω) (translates : ω → Bool) (e : Engine σ ω) : Step σ ω → Engine σ ω
  | .setLimit limit => if e.phase = .idle then { e with icountLimit := limit.toNat } else e
  | .suspend => if e.phase = .idle then { e with resumePageIn := true } else e
  | .cancel => if e.phase = .idle then { e with resumePageIn := false, pageInRetry := false } else e
  | .run timer => if e.phase = .idle then e.start timer else e
  | .respond r =>
    match e.phase with
    | .queued => (e.handle r).2.settle (fun e => { e with phase := .fuel }) (e.handle r).1
    | .after => (e.handle r).2.settle top (e.handle r).1
    | _ => e
  | .slice => if e.phase = .fuel then e.slice else e
  | .round x => if e.phase = .loop then e.round M translates x else e

/-! ### The count and its bound -/

/-- What a run may bring the count to. -/
def bound (e : Engine σ ω) : ℕ := max e.entry e.inForce

/-- A run is under way and no fuel is out: the count is between that of the run's entry
and the run's bound, and the timer is within the bound. -/
structure AtRest (e : Engine σ ω) : Prop where
  entry_lt : e.entry < 2 ^ 64
  inForce_lt : e.inForce < 2 ^ 64
  limit : e.icountLimit = e.inForce
  timer_le : e.nextTimer ≤ e.bound
  start : e.vm.cpu.fuelStart = 0
  fuel : e.vm.cpu.fuel = 0
  entry_le : e.entry ≤ e.vm.cpu.icount
  le_bound : e.vm.cpu.icount ≤ e.bound

/-- The count is within the bound of the run now under way or last made, and no fuel is out
that could take it past the bound. -/
structure Bounded (e : Engine σ ω) : Prop where
  entry_lt : e.entry < 2 ^ 64
  inForce_lt : e.inForce < 2 ^ 64
  limit_lt : e.icountLimit < 2 ^ 64
  metered : Cpu.Metered e.entry e.bound e.vm.cpu
  timed : e.phase ≠ .idle → e.icountLimit = e.inForce ∧ e.nextTimer ≤ e.bound
  clear : e.phase ≠ .loop → e.vm.cpu.fuelStart = 0 ∧ e.vm.cpu.fuel = 0

variable {e : Engine σ ω}

lemma AtRest.bounded (h : e.AtRest) : e.Bounded where
  entry_lt := h.entry_lt
  inForce_lt := h.inForce_lt
  limit_lt := h.limit.trans_lt h.inForce_lt
  metered := by
    refine ⟨?_, ?_, ?_⟩
    · rw [h.fuel]
      exact Nat.zero_le _
    · exact h.entry_le.trans (Nat.le_add_right _ _)
    · rw [h.start]
      exact h.le_bound
  timed _ := ⟨h.limit, h.timer_le⟩
  clear _ := ⟨h.start, h.fuel⟩

/-- Outside the block loop the counter is up to date. -/
lemma Bounded.count_eq (h : e.Bounded) (hphase : e.phase ≠ .loop) : e.count = e.vm.cpu.icount := by
  obtain ⟨hstart, hfuel⟩ := h.clear hphase
  rw [count, Cpu.retired, hstart, hfuel]
  rfl

lemma Bounded.icount_le (h : e.Bounded) (hphase : e.phase ≠ .loop) :
    e.entry ≤ e.vm.cpu.icount ∧ e.vm.cpu.icount ≤ e.bound := by
  obtain ⟨hstart, hfuel⟩ := h.clear hphase
  obtain ⟨-, hlo, hhi⟩ := h.metered
  rw [hstart] at hlo hhi
  rw [hfuel] at hlo
  exact ⟨hlo, hhi⟩

lemma Bounded.bound_lt (h : e.Bounded) : e.bound < 2 ^ 64 := max_lt h.entry_lt h.inForce_lt

lemma Bounded.atRest (h : e.Bounded) (hidle : e.phase ≠ .idle) (hloop : e.phase ≠ .loop) :
    e.AtRest where
  entry_lt := h.entry_lt
  inForce_lt := h.inForce_lt
  limit := (h.timed hidle).1
  timer_le := (h.timed hidle).2
  start := (h.clear hloop).1
  fuel := (h.clear hloop).2
  entry_le := (h.icount_le hloop).1
  le_bound := (h.icount_le hloop).2

/-- An engine that has not run. -/
lemma Bounded.new (v : Vm σ ω) : (Engine.new v).Bounded where
  entry_lt := Nat.two_pow_pos 64
  inForce_lt := Nat.sub_lt (Nat.two_pow_pos 64) Nat.one_pos
  limit_lt := Nat.sub_lt (Nat.two_pow_pos 64) Nat.one_pos
  metered := ⟨le_rfl, le_rfl, Nat.zero_le _⟩
  timed h := absurd rfl h
  clear _ := ⟨rfl, rfl⟩

/-! ### Handling an exception -/

lemma nextTimer_updateTimer_le (e : Engine σ ω) (timer : ℕ) :
    (e.updateTimer timer).nextTimer ≤ e.icountLimit :=
  (min_le_left _ _).trans (min_le_left _ _)

/-- What a run is measured by, and whether the next one resumes, does not change inside it. -/
structure SameRun (e e' : Engine σ ω) : Prop where
  entry : e'.entry = e.entry
  inForce : e'.inForce = e.inForce
  limit : e'.icountLimit = e.icountLimit
  resume : e'.resumePageIn = e.resumePageIn

/-- The handling of an exception: the counter does not change either, and the timer may be set
anew. -/
structure Handled (e e' : Engine σ ω) : Prop extends SameRun e e' where
  cpu : e.vm.cpu.SameCount e'.vm.cpu
  timer : e'.nextTimer = e.nextTimer ∨ e'.nextTimer ≤ e.icountLimit

variable {e' e₁ e₂ e₃ : Engine σ ω}

lemma SameRun.bound (h : SameRun e e') : e'.bound = e.bound := by
  rw [Engine.bound, Engine.bound, h.entry, h.inForce]

lemma Handled.refl (e : Engine σ ω) : Handled e e :=
  ⟨⟨rfl, rfl, rfl, rfl⟩, ⟨rfl, rfl, rfl⟩, .inl rfl⟩

lemma Handled.trans (h : Handled e₁ e₂) (h' : Handled e₂ e₃) : Handled e₁ e₃ where
  entry := h'.entry.trans h.entry
  inForce := h'.inForce.trans h.inForce
  limit := h'.limit.trans h.limit
  resume := h'.resume.trans h.resume
  cpu := ⟨h'.cpu.icount.trans h.cpu.icount, h'.cpu.start.trans h.cpu.start,
    h'.cpu.fuel.trans h.cpu.fuel⟩
  timer := by
    -- the last of the two timers counts, under the same limit
    rcases h'.timer with heq | hle
    · rw [heq]
      exact h.timer
    · exact .inr (hle.trans h.limit.le)

/-- The engine when the environment has seen the exception. -/
def answered (e : Engine σ ω) (r : Response σ ω) : Engine σ ω :=
  { e with
    vm := (r.env e.vm).2
    pendingException := r.queued.or e.pendingException
    pageInRetry := e.pageInRetry || r.retry }

/-- What a call of `handle_exception` comes to.  It stops at the limit only when the count has
reached it, if the environment does not ask for that stop. -/
structure Replied (r : Response σ ω) (e : Engine σ ω) (reply : Verdict × Engine σ ω) : Prop
    extends Handled e reply.2 where
  phase : reply.2.phase = e.phase
  exit : (∀ v : Vm σ ω, (r.env v).1 ≠ .exit .instructionLimit) →
    reply.1 = .exit .instructionLimit → e.icountLimit ≤ e.vm.cpu.icount

/-- A lookup fails at the limit, or asks for another call. -/
lemma replied_translate (r : Response σ ω) : Replied r e (e.translate r) := by
  rw [translate]
  split
  · next vm hlift =>
      exact ⟨⟨⟨rfl, rfl, rfl, rfl⟩, r.lift_found _ _ hlift, .inl rfl⟩, rfl, fun _ h => by cases h⟩
  · exact ⟨.refl e, rfl, fun _ h => by cases h⟩
  · next vm exception hlift =>
      have hcount := r.lift_failed _ _ _ hlift
      have hhandled : Handled e
          ({ e with vm }.setCpu { vm.cpu with exception := some exception }) :=
        ⟨⟨rfl, rfl, rfl, rfl⟩, ⟨hcount.icount, hcount.start, hcount.fuel⟩, .inl rfl⟩
      dsimp only
      split_ifs with hlimit
      · exact ⟨hhandled, rfl, fun _ _ => hlimit.trans hcount.icount.le⟩
      · exact ⟨hhandled, rfl, fun _ h => by cases h⟩

/-- The end of a slice: out of instructions, at a breakpoint, or on with a new timer. -/
lemma replied_sliceEnd (r : Response σ ω) : Replied r e
    (if e.icountLimit ≤ e.vm.cpu.icount then (.exit .instructionLimit, e)
      else if e.vm.cpu.pc ∈ e.vm.code.breakpoints then (.exit .breakpoint, e)
      else (.running, e.updateTimer r.timer)) := by
  split_ifs with hlimit
  · exact ⟨.refl e, rfl, fun _ _ => hlimit⟩
  · exact ⟨.refl e, rfl, fun _ h => by cases h⟩
  · exact ⟨⟨⟨rfl, rfl, rfl, rfl⟩, ⟨rfl, rfl, rfl⟩, .inr (nextTimer_updateTimer_le _ _)⟩, rfl,
      fun _ h => by cases h⟩

lemma replied_declined (r : Response σ ω) : Replied r e (e.handleDeclined r) := by
  rw [handleDeclined]
  split
  · exact replied_sliceEnd r
  · exact replied_sliceEnd r
  split_ifs
  · exact replied_translate r
  · refine ⟨.refl e, rfl, fun _ h => ?_⟩
    rw [exitOf] at h
    split at h <;> cases h

/-- **A call of `handle_exception`** leaves the count and its bound alone. -/
lemma replied_handle (r : Response σ ω) : Replied r e (e.handle r) := by
  rw [handle]
  split_ifs
  · exact ⟨.refl e, rfl, fun _ h => by cases h⟩
  split
  · exact ⟨⟨⟨rfl, rfl, rfl, rfl⟩, ⟨rfl, rfl, rfl⟩, .inl rfl⟩, rfl, fun _ h => by cases h⟩
  have hanswered : Handled e (e.answered r) :=
    ⟨⟨rfl, rfl, rfl, rfl⟩, r.env_count e.vm, .inl rfl⟩
  dsimp only
  split
  · exact ⟨hanswered, rfl, fun _ h => by cases h⟩
  · next exit hexit =>
      refine ⟨hanswered, rfl, fun henv h => absurd ?_ (henv e.vm)⟩
      rw [hexit, Verdict.exit.inj h]
  · have hdeclined := replied_declined (e := e.answered r) r
    exact ⟨hanswered.trans hdeclined.toHandled, hdeclined.phase,
      fun henv h => (hdeclined.exit henv h).trans hanswered.cpu.icount.le⟩

lemma handled_top (e : Engine σ ω) : Handled e e.top := by
  rw [top]
  split <;> exact ⟨⟨rfl, rfl, rfl, rfl⟩, ⟨rfl, rfl, rfl⟩, .inl rfl⟩

lemma handled_settle {resumeAt : Engine σ ω → Engine σ ω} (h : Handled e (resumeAt e))
    (verdict : Verdict) : Handled e (e.settle resumeAt verdict) := by
  cases verdict with
  | running => exact h
  | again => exact .refl e
  | exit => exact ⟨⟨rfl, rfl, rfl, rfl⟩, ⟨rfl, rfl, rfl⟩, .inl rfl⟩

/-- A step that handles an exception, whatever comes of it. -/
lemma handled_respond (M : Machine σ ω) (translates : ω → Bool) (r : Response σ ω) :
    Handled e (e.step M translates (.respond r)) := by
  have hreply := (replied_handle (e := e) r).toHandled
  rw [step]
  split
  · exact hreply.trans
      (handled_settle ⟨⟨rfl, rfl, rfl, rfl⟩, ⟨rfl, rfl, rfl⟩, .inl rfl⟩ _)
  · exact hreply.trans (handled_settle (handled_top _) _)
  · exact .refl e

/-- A run at rest is at rest after the handling of an exception. -/
lemma AtRest.handled (h : e.AtRest) (hhandled : Handled e e') : e'.AtRest := by
  refine ⟨?_, ?_, ?_, ?_, ?_, ?_, ?_, ?_⟩
  · rw [hhandled.entry]
    exact h.entry_lt
  · rw [hhandled.inForce]
    exact h.inForce_lt
  · rw [hhandled.limit, hhandled.inForce, h.limit]
  · rw [hhandled.bound]
    rcases hhandled.timer with heq | hle
    · exact heq.le.trans h.timer_le
    · exact hle.trans (h.limit.le.trans (le_max_right _ _))
  · rw [hhandled.cpu.start, h.start]
  · rw [hhandled.cpu.fuel, h.fuel]
  · rw [hhandled.entry, hhandled.cpu.icount]
    exact h.entry_le
  · rw [hhandled.bound, hhandled.cpu.icount]
    exact h.le_bound

/-! ### The other steps -/

lemma find_cpu (v : Vm σ ω) : (find v).cpu = v.cpu := by
  rw [find]
  split
  · split <;> rfl
  · rfl
  · rfl

/-- The start of a run: the timer is set within the limit, or is the one of the run that
is resumed. -/
lemma Bounded.start (h : e.Bounded) (hidle : e.phase = .idle) (timer : ℕ)
    (hresume : e.resumePageIn → e.nextTimer ≤ max e.icountLimit e.count) :
    (e.start timer).AtRest := by
  have hloop : e.phase ≠ .loop := by rw [hidle]; decide
  have hcount := h.count_eq hloop
  have hicount_lt : e.vm.cpu.icount < 2 ^ 64 := (h.icount_le hloop).2.trans_lt h.bound_lt
  obtain ⟨hstart, hfuel⟩ := h.clear hloop
  rw [Engine.start]
  refine AtRest.handled ?_ (handled_top _)
  dsimp only
  split_ifs with hresumed
  · -- a resumed run keeps its timer
    refine ⟨hcount.trans_lt hicount_lt, h.limit_lt, rfl, ?_, hstart, hfuel, hcount.le, ?_⟩
    · exact (hresume hresumed).trans (max_comm _ _).le
    · exact hcount.symm.le.trans (le_max_left _ _)
  refine ⟨hcount.trans_lt hicount_lt, h.limit_lt, rfl, ?_, ?_, ?_, ?_, ?_⟩
  · exact (nextTimer_updateTimer_le _ _).trans (le_max_right _ _)
  · exact (congrArg Cpu.fuelStart (find_cpu e.vm)).trans hstart
  · exact (congrArg Cpu.fuel (find_cpu e.vm)).trans hfuel
  · exact hcount.le.trans (congrArg Cpu.icount (find_cpu e.vm)).symm.le
  · exact ((congrArg Cpu.icount (find_cpu e.vm)).trans hcount.symm).le.trans (le_max_left _ _)

lemma adjustFuel_spends (c : Cpu σ) (block : LiftedBlock ω) (offset : ℕ) (retry : Bool) :
    Cpu.Spends c (adjustFuel c block offset retry) := by
  rw [adjustFuel]
  split_ifs
  · exact .refl c
  · exact .refl c
  split
  · exact ⟨rfl, rfl, Nat.sub_le _ _⟩
  · exact .refl c

/-- The way into the block loop costs at most fuel. -/
lemma enterLoop_spends (e : Engine σ ω) :
    Cpu.Spends e.vm.cpu e.enterLoop.vm.cpu ∧ e.enterLoop.phase = .loop ∧
      SameRun e e.enterLoop ∧ e.enterLoop.nextTimer = e.nextTimer := by
  have hfind := find_cpu { e.vm with cpu := { e.vm.cpu with exception := none } }
  rw [enterLoop]
  dsimp only
  generalize find { e.vm with cpu := { e.vm.cpu with exception := none } } = v at hfind
  have hspends : Cpu.Spends e.vm.cpu v.cpu := by
    rw [hfind]
    exact ⟨rfl, rfl, le_rfl⟩
  split
  · exact ⟨hspends.trans ⟨rfl, rfl, le_rfl⟩, rfl, ⟨rfl, rfl, rfl, rfl⟩, rfl⟩
  split
  · exact ⟨hspends.trans ⟨rfl, rfl, le_rfl⟩, rfl, ⟨rfl, rfl, rfl, rfl⟩, rfl⟩
  · exact ⟨hspends.trans (adjustFuel_spends _ _ _ _), rfl, ⟨rfl, rfl, rfl, rfl⟩, rfl⟩

/-- The fuel handed out ends at the timer. -/
lemma AtRest.metered_slice (h : e.AtRest) {n : ℕ} (hn : e.vm.cpu.icount + n = e.nextTimer) :
    Cpu.Metered e.entry e.bound (e.vm.cpu.updateFuel n) := by
  have hcount : (e.vm.cpu.updateFuel n).icount = e.vm.cpu.icount :=
    (Cpu.icount_updateFuel h.bounded.metered h.bounded.bound_lt n).trans
      (by rw [h.start, h.fuel]; rfl)
  refine ⟨le_rfl, ?_, ?_⟩
  · rw [hcount]
    exact h.entry_le.trans (Nat.le_add_right _ _)
  · rw [hcount]
    exact hn.le.trans h.timer_le

/-- A slice of the block loop begins within the bound, or not at all. -/
lemma AtRest.slice (h : e.AtRest) : e.slice.Bounded := by
  rw [Engine.slice]
  dsimp only
  split_ifs with hn
  · obtain ⟨hspends, hphase, hsame, htimer⟩ :=
      enterLoop_spends (e.setCpu (e.vm.cpu.updateFuel (e.nextTimer - e.vm.cpu.icount)))
    have hbound : _ = e.bound := hsame.bound
    refine ⟨hsame.entry.trans_lt h.entry_lt, hsame.inForce.trans_lt h.inForce_lt,
      hsame.limit.trans_lt (h.limit.trans_lt h.inForce_lt), ?_, fun _ => ⟨?_, ?_⟩,
      fun hloop => absurd hphase hloop⟩
    · rw [hsame.entry, hbound]
      exact (h.metered_slice (by omega)).spends hspends
    · exact hsame.limit.trans (h.limit.trans hsame.inForce.symm)
    · rw [htimer, hbound]
      exact h.timer_le
  · apply AtRest.bounded
    exact h.handled ⟨⟨rfl, rfl, rfl, rfl⟩, ⟨rfl, rfl, rfl⟩, .inl rfl⟩

variable {translates : ω → Bool} {M : Machine σ ω}

/-- A round of the block loop spends fuel that was handed out. -/
lemma Bounded.round (h : e.Bounded) (hphase : e.phase = .loop)
    (hmixed : e.vm.RoundUnmixed translates) (x : Choice) :
    (e.round M translates x).Bounded := by
  have htimed := h.timed (by rw [hphase]; decide)
  rw [Engine.round]
  split
  · exact ⟨h.entry_lt, h.inForce_lt, h.limit_lt, h.metered.updateFuel h.bound_lt (Nat.zero_le _),
      fun _ => htimed, fun _ => ⟨rfl, rfl⟩⟩
  · exact ⟨h.entry_lt, h.inForce_lt, h.limit_lt, Vm.round_metered h.metered h.bound_lt hmixed x,
      fun _ => htimed, fun hloop => absurd hphase hloop⟩

/-! ### Whole sequences of runs -/

/-- The conditions on a step: a run that resumes after a page-in finds the timer of the
run it resumes within its own limit, or nothing left to execute under that timer; and the
rounds of the block loop call no trace as a self-loop. -/
def Sound (translates : ω → Bool) (e : Engine σ ω) : Step σ ω → Prop
  | .run _ => e.resumePageIn = true → e.nextTimer ≤ max e.icountLimit e.count
  | .round _ => e.phase = .loop → e.vm.RoundUnmixed translates
  | _ => True

/-- **One step** keeps the count within the bound of its run. -/
lemma Bounded.step (h : e.Bounded) (s : Step σ ω) (hsound : Sound translates e s)
    : (e.step M translates s).Bounded := by
  cases s with
  | setLimit limit =>
    rw [Engine.step]
    split_ifs with hidle
    · exact ⟨h.entry_lt, h.inForce_lt, limit.toNat_lt, h.metered, fun hne => absurd hidle hne,
        h.clear⟩
    · exact h
  | suspend | cancel =>
    rw [Engine.step]
    split_ifs
    · exact ⟨h.entry_lt, h.inForce_lt, h.limit_lt, h.metered, h.timed, h.clear⟩
    · exact h
  | run timer =>
    rw [Engine.step]
    split_ifs with hidle
    · exact (h.start hidle timer hsound).bounded
    · exact h
  | respond r =>
    have hhandled := handled_respond (e := e) M translates r
    -- a response is only taken where the engine asked for one
    cases hphase : e.phase with
    | queued | after =>
      have hrest := h.atRest (by rw [hphase]; decide) (by rw [hphase]; decide)
      exact (hrest.handled hhandled).bounded
    | idle | fuel | loop =>
      simp only [Engine.step, hphase]
      exact h
  | slice =>
    rw [Engine.step]
    split_ifs with hphase
    · exact (h.atRest (by rw [hphase]; decide) (by rw [hphase]; decide)).slice
    · exact h
  | round x =>
    rw [Engine.step]
    split_ifs with hphase
    · exact h.round hphase (hsound hphase) x
    · exact h

/-- **The instruction limit is kept** along every sequence of runs, changes of the limit,
suspensions and resumptions whose steps are sound: when a run has returned, the count is
at most the larger of the count it found and the limit it was given. -/
theorem count_le (M : Machine σ ω) (translates : ω → Bool) (v : Vm σ ω) (ss : List (Step σ ω))
    (hsound : Guarded (step M translates) (Sound translates) (Engine.new v) ss)
    (hreturned : (run (step M translates) (Engine.new v) ss).phase = .idle) :
    (run (step M translates) (Engine.new v) ss).count ≤
      max (run (step M translates) (Engine.new v) ss).entry
        (run (step M translates) (Engine.new v) ss).inForce := by
  have hstep : ∀ (e : Engine σ ω) (s : Step σ ω), e.Bounded → Sound translates e s →
      (e.step M translates s).Bounded := fun e s h hs => h.step s hs
  have hend := Guarded.invariant hstep (Bounded.new v) hsound
  have hloop : (run (Engine.step M translates) (Engine.new v) ss).phase ≠ .loop := by
    rw [hreturned]
    decide
  rw [hend.count_eq hloop]
  exact (hend.icount_le hloop).2

/-! A guest of one instruction in a loop, which reads a page that is not there at first. -/

/-- The page is resident or not; a load of it faults until it is. -/
def lazyMachine : Machine Bool Unit where
  exec _ resident := (resident, if resident then none else some ⟨.other 0x0201, 0x2000⟩)
  load _ _ := 0
  load_lt _ _ := Nat.pow_pos (by decide)

/-- The VM at the block of that instruction, with the JIT off. -/
def lazyVm : Vm Bool Unit where
  cpu := ⟨false, 0, none, 0, 0, 0⟩
  place := .running 0 0
  code := ⟨[⟨[.marker 0 1, .op ()], 0, 0, .jump (.internal 0), 0⟩], fun _ => none, []⟩
  lifted _ _ := []
  isaMode := 0
  asid := 0
  jit := .cleared none

/-- Rounds in which there is nothing for the JIT to decide. -/
def plainChoice : Choice where
  traceRoom := ⟨[], []⟩
  regionRoom := ⟨[], []⟩
  blockRoom := ⟨[], []⟩
  traceCompiles := false
  regionCompiles := false
  blockCompiles := false
  regionRuns := false
  blockRuns := false
  promotes := false
  scan order := order.zipIdx
  scan_perm _ := .refl _

/-- The environment's answer to a fault on the page: the run is left until the page is
there, which it is when the run goes on. -/
def pageWait : Response Bool Unit where
  interrupted := false
  pagedIn := none
  env v := (.exit .interrupted, { v with cpu := { v.cpu with regs := true } })
  queued := none
  retry := false
  timer := 2 ^ 64 - 1
  lift _ := .corrupted
  env_count _ := ⟨rfl, rfl, rfl⟩
  lift_found _ _ h := by cases h
  lift_failed _ _ _ h := by cases h

/-- An environment that has nothing to say. -/
def noAnswer : Response Bool Unit :=
  { pageWait with env := fun v => (.declines, v), env_count := fun _ => ⟨rfl, rfl, rfl⟩ }

/-- A run up to the fault, which the page's absence interrupts. -/
def faultingRun : List (Step Bool Unit) :=
  [.run (2 ^ 64 - 1), .slice, .round plainChoice, .round plainChoice, .respond pageWait]

/-- A run resumed there, to the end of its fuel. -/
def resumedRun : List (Step Bool Unit) :=
  [.suspend, .run (2 ^ 64 - 1), .slice] ++ List.replicate 11 (.round plainChoice) ++
    [.respond noAnswer]

lemma roundUnmixed_of_jitOff {v : Vm σ ω} (h : v.jit.after = none) :
    v.RoundUnmixed translates := by
  intro id after block _ hafter
  rw [h] at hafter
  cases hafter

/-- A run under a limit of ten that faults after one instruction. -/
theorem count_le_faultingRun :
    let e := run (step lazyMachine fun _ => true) (Engine.new lazyVm) (.setLimit 10 :: faultingRun)
    e.phase = .idle ∧ e.count ≤ max e.entry e.inForce := by
  refine ⟨by decide +kernel, count_le lazyMachine (fun _ => true) lazyVm _ ?_ (by decide +kernel)⟩
  refine ⟨trivial, fun h => absurd h (by decide +kernel), trivial, fun _ => ?_, fun _ => ?_,
    trivial, trivial⟩
  · exact roundUnmixed_of_jitOff rfl
  · exact roundUnmixed_of_jitOff (by decide +kernel)

/-- **A limit that is lowered during a page-in does not hold**: the run is started under a
limit of ten and suspended after one instruction; resumed under a limit of five, it goes
on to ten. -/
theorem lowered_limit_overrun :
    let e := run (step lazyMachine fun _ => true) (Engine.new lazyVm)
      (.setLimit 10 :: faultingRun ++ .setLimit 5 :: resumedRun)
    e.phase = .idle ∧ e.entry = 1 ∧ e.inForce = 5 ∧ e.count = 10 := by
  decide +kernel

end Engine

end WebTos
