import WebTos.Vm.Run

/-!
The CPU budget of a machine (`lib.rs`: `set_cpu_budget`, `cpu_headroom`, `Machine::run`).

`Machine::run` folds what is left of the budget into the engine's instruction limit by a
minimum, and nothing raises the limit again.

* `LinuxMachine`, `LinuxMachine.Step`: the machine between and inside its runs;
* `LinuxMachine.Allowed`: the conditions on a step;
* `LinuxMachine.Within`: the count is within the budget, and so is everything that could
  raise it;
* `Engine.Opens`: the task on the CPU, given fuel, retires an instruction;
* `LinuxMachine.budget_kept`: over every sequence of steps that meets `Allowed`, the count
  is at most the budget in force, and a run that finds room under the instruction limit
  and a task to run executes at least one instruction.
-/

namespace WebTos

open Lib Option Engine

variable {σ ω : Type}

/-- What a run finds of the waits of the run before it. -/
structure Waits (σ ω : Type) where
  /-- `page_in_wait`. -/
  pageIn : Bool
  /-- The page or the chunk has not been delivered. -/
  outstanding : Bool
  /-- `terminal_input_wait` or `network_wait`. -/
  host : Bool
  /-- `resume_parked`: the VM with a task put back on the CPU, if there is one. -/
  resume : Vm σ ω → Option (Vm σ ω)
  resume_count : ∀ v v' : Vm σ ω, resume v = some v' → v.cpu.SameCount v'.cpu

/-- The VM that the run goes on with; `none` is a return with nothing done. -/
def Waits.resumeWith (w : Waits σ ω) (v : Vm σ ω) : Option (Vm σ ω) :=
  if w.pageIn && w.outstanding then none
  else if w.host then w.resume v
  else some v

/-- A machine. -/
structure LinuxMachine (σ ω : Type) where
  engine : Engine σ ω
  cpuBudget : Option ℕ
  /-- `run` has been called and has not returned. -/
  running : Bool

namespace LinuxMachine

/-- The machine around a VM that has not run. -/
def new (v : Vm σ ω) : LinuxMachine σ ω := ⟨.new v, none, false⟩

/-- `icount`. -/
def count (m : LinuxMachine σ ω) : ℕ := m.engine.count

/-- `cpu_headroom`. -/
def cpuHeadroom (m : LinuxMachine σ ω) : Option ℕ := m.cpuBudget.map (· - m.count)

/-- The environment's timer: `LinuxEnv` has none. -/
def noTimer : ℕ := 2 ^ 64 - 1

/-- The limit of a run: the budget's ceiling is folded into the one of the run before. -/
def ceiling (m : LinuxMachine σ ω) : ℕ :=
  match m.cpuHeadroom with
  | some headroom => min m.engine.icountLimit (min (m.count + headroom) (2 ^ 64 - 1))
  | none => m.engine.icountLimit

/-- The head of `Machine::run`.  With no headroom, or still waiting, it returns at once. -/
def start (m : LinuxMachine σ ω) (w : Waits σ ω) : LinuxMachine σ ω :=
  if m.cpuHeadroom = some 0 then m
  else
    let engine := { m.engine with icountLimit := m.ceiling }
    match w.resumeWith engine.vm with
    | none => { m with engine }
    | some vm => { m with engine := { engine with vm }.start noTimer, running := true }

/-- Derived code is dropped, to be lifted again. -/
def flush (v : Vm σ ω) : Vm σ ω :=
  { v with
    place := .left none
    code := { v.code with blocks := [], map := fun _ => none }
    lifted := fun _ _ => []
    jit := .cleared v.jit.after }

/-- The tail of `Machine::run`, when the engine has returned: after a page of code came in
it runs on, and a wait for a page suspends it. -/
def finish (m : LinuxMachine σ ω) (recompile pageInWait : Bool) : LinuxMachine σ ω :=
  if m.engine.lastExit = some .interrupted ∧ recompile then
    { m with engine := { m.engine with vm := flush m.engine.vm }.start noTimer }
  else
    { m with
      engine := { m.engine with resumePageIn :=
        m.engine.resumePageIn || (m.engine.lastExit = some .interrupted && pageInWait) }
      running := false }

/-- A step of the host or of a run. -/
inductive Step (σ ω : Type) where
  /-- `set_cpu_budget`. -/
  | setCpuBudget (instructions : Option UInt64)
  /-- The host calls `run`. -/
  | run (w : Waits σ ω)
  /-- A call of `handle_exception`.  `LinuxEnv` never answers with the instruction limit. -/
  | respond (r : Response σ ω) (h : ∀ v : Vm σ ω, (r.env v).1 ≠ .exit .instructionLimit)
  | slice
  | round (x : Choice)
  /-- The engine's run has returned. -/
  | finish (recompile pageInWait : Bool)

/-- The machine after a step.  The host acts between runs only. -/
def step (M : Machine σ ω) (translates : ω → Bool) (m : LinuxMachine σ ω) :
    Step σ ω → LinuxMachine σ ω
  | .setCpuBudget instructions =>
    if m.running then m else { m with cpuBudget := instructions.map UInt64.toNat }
  | .run w => if m.running then m else m.start w
  | .respond r _ =>
    if m.running then { m with engine := m.engine.step M translates (.respond r) } else m
  | .slice => if m.running then { m with engine := m.engine.step M translates .slice } else m
  | .round x =>
    if m.running then { m with engine := m.engine.step M translates (.round x) } else m
  | .finish recompile pageInWait =>
    if m.running ∧ m.engine.phase = .idle then m.finish recompile pageInWait else m

/-- The conditions on a step: a budget is not set below the count, nor, while a run is
suspended for a page, below the timer of that run; and the block loop calls no trace as
a self-loop. -/
def Allowed (translates : ω → Bool) (m : LinuxMachine σ ω) : Step σ ω → Prop
  | .setCpuBudget (some b) =>
    m.running = false → m.count ≤ b.toNat ∧
      (m.engine.resumePageIn = true → m.engine.nextTimer ≤ b.toNat)
  | .round _ => m.engine.phase = .loop → m.engine.vm.RoundUnmixed translates
  | _ => True

end LinuxMachine


/-! ### The engine under way -/

namespace Engine

variable {M : Machine σ ω} {translates : ω → Bool} {e e' : Engine σ ω} {r : Response σ ω} {c : ℕ}

/-- A run is under way or has just returned: outside the block loop no fuel is out. -/
structure UnderWay (e : Engine σ ω) : Prop where
  bounded : e.Bounded
  rest : e.phase ≠ .loop → e.AtRest

/-- An idle engine has not stopped at the limit with the count at `c`. -/
def Honest (c : ℕ) (e : Engine σ ω) : Prop :=
  e.phase = .idle → e.lastExit = some .instructionLimit → c < e.count

/-- A step of the engine inside a run. -/
structure Advances (e e' : Engine σ ω) : Prop extends SameRun e e' where
  underWay : e'.UnderWay
  count_le : e.count ≤ e'.count
  honest : ∀ c < e.icountLimit, e.Honest c → e'.Honest c

lemma AtRest.underWay (h : e.AtRest) : e.UnderWay := ⟨h.bounded, fun _ => h⟩

lemma UnderWay.stay (h : e.UnderWay) : Advances e e :=
  ⟨⟨rfl, rfl, rfl, rfl⟩, h, le_rfl, fun _ _ hhonest => hhonest⟩

lemma Handled.count (h : Handled e e') : e'.count = e.count := by
  rw [Engine.count, Engine.count, Cpu.retired, Cpu.retired, h.cpu.icount, h.cpu.start, h.cpu.fuel]

lemma metered_le {lo hi : ℕ} {c : Cpu σ} (h : Cpu.Metered lo hi c) : lo ≤ c.retired := by
  obtain ⟨hfuel, hlo, -⟩ := h
  rw [Cpu.retired]
  omega

/-- The count is a lower bound from here on. -/
lemma Bounded.metered_count (h : e.Bounded) : Cpu.Metered e.count e.bound e.vm.cpu := by
  obtain ⟨hfuel, hlo, hhi⟩ := h.metered
  refine ⟨hfuel, ?_, hhi⟩
  rw [count, Cpu.retired]
  omega

lemma Bounded.count_le_bound (h : e.Bounded) : e.count ≤ e.bound := by
  obtain ⟨hfuel, -, hhi⟩ := h.metered
  rw [count, Cpu.retired]
  omega

lemma phase_top (e : Engine σ ω) : e.top.phase ≠ .idle := by
  rw [top]
  split <;> exact fun h => by cases h

/-- An exception ends a run at the limit only by that verdict. -/
lemma settle_exit {resumeAt : Engine σ ω → Engine σ ω} {verdict : Verdict}
    (hidle : e.phase ≠ .idle) (hresume : (resumeAt e).phase ≠ .idle)
    (hphase : (e.settle resumeAt verdict).phase = .idle)
    (hexit : (e.settle resumeAt verdict).lastExit = some .instructionLimit) :
    verdict = .exit .instructionLimit := by
  cases verdict with
  | running => exact absurd hphase hresume
  | again => exact absurd hphase hidle
  | exit => exact congrArg _ (some.inj hexit)

/-- A call of `handle_exception` settles outside the block loop, and stops a run at the limit only
if the count is there. -/
lemma UnderWay.respond (h : e.UnderWay)
    (henv : ∀ v : Vm σ ω, (r.env v).1 ≠ .exit .instructionLimit) :
    Advances e (e.step M translates (.respond r)) := by
  have hhandled := handled_respond (e := e) M translates r
  by_cases hloop : e.phase = .loop
  · simp only [step, hloop]
    exact h.stay
  refine ⟨hhandled.toSameRun, ((h.rest hloop).handled hhandled).underWay, hhandled.count.symm.le,
    fun c hlimit hhonest hphase hexit => ?_⟩
  rw [hhandled.count]
  -- the verdict alone can make the engine idle
  have hreply := replied_handle (e := e) r
  have hstop : ∀ {resumeAt : Engine σ ω → Engine σ ω}, e.phase ≠ .idle →
      (resumeAt (e.handle r).2).phase ≠ .idle →
      ((e.handle r).2.settle resumeAt (e.handle r).1).phase = .idle →
      ((e.handle r).2.settle resumeAt (e.handle r).1).lastExit = some .instructionLimit →
      c < e.count := by
    intro resumeAt hidle hresume hphase hexit
    have hverdict := settle_exit (by rwa [hreply.phase]) hresume hphase hexit
    calc c < e.icountLimit := hlimit
      _ ≤ e.vm.cpu.icount := hreply.exit henv hverdict
      _ = e.count := (h.bounded.count_eq hloop).symm
  rw [step] at hphase hexit
  split at hphase
  · next hqueued =>
      rw [hqueued] at hexit
      exact hstop (by rw [hqueued]; decide) (fun h => by cases h) hphase hexit
  · next hafter =>
      rw [hafter] at hexit
      exact hstop (by rw [hafter]; decide) (phase_top _) hphase hexit
  · rw [hphase] at hexit
    exact hhonest hphase hexit

/-- Fuel is handed out to the block loop, or there is none left. -/
lemma UnderWay.slice (h : e.UnderWay) : Advances e (e.step M translates .slice) := by
  rw [step]
  split_ifs with hphase
  · have hrest := h.rest (by rw [hphase]; decide)
    have hbounded := hrest.slice
    rw [Engine.slice] at hbounded ⊢
    dsimp only at hbounded ⊢
    split_ifs at hbounded ⊢
    · -- the way into the loop may cost fuel, which the count includes
      obtain ⟨hspends, hloop, hsame, -⟩ :=
        enterLoop_spends (e.setCpu (e.vm.cpu.updateFuel (e.nextTimer - e.vm.cpu.icount)))
      refine ⟨⟨hsame.entry, hsame.inForce, hsame.limit, hsame.resume⟩,
        ⟨hbounded, fun hne => absurd hloop hne⟩, ?_,
        fun _ _ _ hidle => by cases hloop.symm.trans hidle⟩
      obtain ⟨hfuel, -, hhi⟩ := hrest.metered_slice (n := e.nextTimer - e.vm.cpu.icount) (by omega)
      have hicount := Cpu.icount_updateFuel h.bounded.metered_count h.bounded.bound_lt
        (e.nextTimer - e.vm.cpu.icount)
      refine metered_le (Cpu.Metered.spends ⟨hfuel, ?_, hhi⟩ hspends)
      exact (h.bounded.metered_count.lo_le.trans hicount.symm.le).trans (Nat.le_add_right _ _)
    · refine ⟨⟨rfl, rfl, rfl, rfl⟩, AtRest.underWay ?_, le_rfl, fun _ _ _ hidle => by cases hidle⟩
      exact hrest.handled ⟨⟨rfl, rfl, rfl, rfl⟩, ⟨rfl, rfl, rfl⟩, .inl rfl⟩
  · exact h.stay

/-- A round spends fuel, or leaves the block loop. -/
lemma UnderWay.round (h : e.UnderWay) (x : Choice)
    (hmixed : e.phase = .loop → e.vm.RoundUnmixed translates) :
    Advances e (e.step M translates (.round x)) := by
  have hbounded := h.bounded.step (M := M) (.round x) hmixed
  have hmetered := h.bounded.metered_count
  rw [step] at hbounded ⊢
  split_ifs at hbounded ⊢ with hphase
  · have hround := Vm.round_metered (M := M) hmetered h.bounded.bound_lt (hmixed hphase) x
    rw [Engine.round] at hbounded ⊢
    cases hplace : e.vm.place with
    | left =>
      simp only [hplace] at hbounded ⊢
      exact ⟨⟨rfl, rfl, rfl, rfl⟩, ⟨hbounded, hbounded.atRest fun hidle => by cases hidle⟩,
        metered_le (hmetered.updateFuel h.bounded.bound_lt (Nat.zero_le _)),
        fun _ _ _ hidle => by cases hidle⟩
    | running =>
      simp only [hplace] at hbounded ⊢
      exact ⟨⟨rfl, rfl, rfl, rfl⟩, ⟨hbounded, fun hne => absurd hphase hne⟩, metered_le hround,
        fun _ _ _ hidle => by cases hphase.symm.trans hidle⟩
  · exact h.stay

/-- What a run is started with. -/
structure Begun (e e' : Engine σ ω) : Prop where
  entry : e'.entry = e.count
  inForce : e'.inForce = e.icountLimit
  limit : e'.icountLimit = e.icountLimit
  resume : e'.resumePageIn = false
  count : e'.count = e.count
  phase : e'.phase ≠ .idle

lemma begun_start (e : Engine σ ω) (timer : ℕ) : Begun e (e.start timer) := by
  rw [start]
  dsimp only
  split_ifs
  · obtain hhandled := handled_top
      { e with resumePageIn := false, entry := e.count, inForce := e.icountLimit }
    exact ⟨hhandled.entry, hhandled.inForce, hhandled.limit, hhandled.resume, hhandled.count,
      phase_top _⟩
  obtain hhandled := handled_top (updateTimer
    { e with
      vm := find e.vm
      resumePageIn := false
      entry := e.count
      inForce := e.icountLimit } timer)
  exact ⟨hhandled.entry, hhandled.inForce, hhandled.limit, hhandled.resume,
    hhandled.count.trans (congrArg Cpu.retired (find_cpu e.vm)), phase_top _⟩

end Engine

/-! ### The budget -/

variable {e : Engine σ ω}

namespace LinuxMachine

variable {M : Machine σ ω} {translates : ω → Bool} {m : LinuxMachine σ ω}

/-- The count is within the budget; so is the bound of a run under way, and the timer of a
run that is suspended. -/
structure Within (m : LinuxMachine σ ω) : Prop where
  bounded : m.engine.Bounded
  budget : ∀ b, m.cpuBudget = some b → b < 2 ^ 64 ∧ m.count ≤ b
  run : m.running = true → m.engine.UnderWay ∧ m.engine.resumePageIn = false ∧
    ∀ b, m.cpuBudget = some b → m.engine.bound ≤ b
  idle : m.running = false → m.engine.phase = .idle ∧
    (m.engine.resumePageIn = true → m.engine.nextTimer ≤ max m.engine.icountLimit m.count ∧
      ∀ b, m.cpuBudget = some b → m.engine.nextTimer ≤ b)

lemma Within.new (v : Vm σ ω) : (new v).Within where
  bounded := .new v
  budget _ h := by cases h
  run h := by cases h
  idle _ := ⟨rfl, fun h => by cases h⟩

/-- A step inside a run. -/
lemma Within.inner (h : m.Within) (hrun : m.running) (hadv : m.engine.Advances e) :
    Within { m with engine := e } := by
  obtain ⟨-, hresume, hbound⟩ := h.run hrun
  have hway := hadv.underWay
  have hbound' : ∀ b, m.cpuBudget = some b → e.bound ≤ b := by
    intro b hb
    rw [hadv.bound]
    exact hbound b hb
  refine ⟨hway.bounded, fun b hb => ⟨(h.budget b hb).1, ?_⟩, fun _ => ⟨hway, ?_, hbound'⟩, ?_⟩
  · exact hway.bounded.count_le_bound.trans (hbound' b hb)
  · rw [hadv.resume, hresume]
  · exact fun hidle => by cases hrun.symm.trans hidle

variable {c : ℕ} {w : Waits σ ω} {vm : Vm σ ω}

lemma resumeWith_count (h : w.resumeWith m.engine.vm = some vm) :
    m.engine.vm.cpu.SameCount vm.cpu := by
  rw [Waits.resumeWith] at h
  split_ifs at h
  · exact w.resume_count _ vm h
  · obtain rfl := some.inj h
    exact ⟨rfl, rfl, rfl⟩

/-- Putting a task back on the CPU counts no instruction. -/
lemma count_resumeWith (hresume : w.resumeWith m.engine.vm = some vm)
    (limit : ℕ) : Engine.count { m.engine with icountLimit := limit, vm } = m.count := by
  obtain ⟨hicount, hstart, hfuel⟩ := resumeWith_count hresume
  rw [Engine.count, count, Engine.count, Cpu.retired, Cpu.retired, hicount, hstart, hfuel]

/-- The limit is never raised. -/
lemma ceiling_le (m : LinuxMachine σ ω) : m.ceiling ≤ m.engine.icountLimit := by
  rw [ceiling]
  split
  · exact min_le_left _ _
  · exact le_rfl

/-- With a budget that the count is within, the limit of a run is the smaller of the old
limit and the budget. -/
lemma ceiling_of_budget {b : ℕ} (hb : m.cpuBudget = some b) (hlt : b < 2 ^ 64)
    (hle : m.count ≤ b) : m.ceiling = min m.engine.icountLimit b := by
  have hsum : min (m.count + (b - m.count)) (2 ^ 64 - 1) = b := by omega
  rw [ceiling, cpuHeadroom, hb]
  dsimp only [map_some]
  rw [hsum]

lemma ceiling_of_none (hb : m.cpuBudget = none) : m.ceiling = m.engine.icountLimit := by
  rw [ceiling, cpuHeadroom, hb]
  rfl

/-- The timer of a suspended run is within the limit of the run that resumes it. -/
lemma Within.timer_le (h : m.Within) (hidle : m.running = false)
    (hresume : m.engine.resumePageIn) : m.engine.nextTimer ≤ max m.ceiling m.count := by
  obtain ⟨hlimit, hbudget⟩ := (h.idle hidle).2 hresume
  cases hb : m.cpuBudget with
  | none => rwa [ceiling_of_none hb]
  | some b =>
    obtain ⟨hlt, hle⟩ := h.budget b hb
    have := hbudget b hb
    rw [ceiling_of_budget hb hlt hle]
    omega

/-- The engine is started under a limit within the budget. -/
lemma Within.begun (h : m.Within) (hbounded : e.Bounded) (hphase : e.phase = .idle)
    (hresume : e.resumePageIn → e.nextTimer ≤ max e.icountLimit e.count)
    (hcount : e.count = m.count) (hlimit : ∀ b, m.cpuBudget = some b → e.icountLimit ≤ b) :
    Within { m with engine := e.start noTimer, running := true } := by
  have hrest := hbounded.start hphase noTimer hresume
  have hbegun := begun_start e noTimer
  have hbound : ∀ b, m.cpuBudget = some b → (e.start noTimer).bound ≤ b := by
    intro b hb
    rw [bound, hbegun.entry, hbegun.inForce, hcount]
    exact max_le (h.budget b hb).2 (hlimit b hb)
  refine ⟨hrest.bounded, fun b hb => ⟨(h.budget b hb).1, ?_⟩,
    fun _ => ⟨hrest.underWay, hbegun.resume, hbound⟩, fun hidle => (by cases hidle)⟩
  exact hrest.bounded.count_le_bound.trans (hbound b hb)

/-- **A call of `run`** starts within the budget, or not at all. -/
lemma Within.start (h : m.Within) (hidle : m.running = false) (w : Waits σ ω) :
    (m.start w).Within := by
  have hphase := (h.idle hidle).1
  have hloop : m.engine.phase ≠ .loop := by rw [hphase]; decide
  have hceiling : ∀ b, m.cpuBudget = some b → m.ceiling ≤ b := by
    intro b hb
    obtain ⟨hlt, hle⟩ := h.budget b hb
    rw [ceiling_of_budget hb hlt hle]
    exact min_le_right _ _
  have hbounded := h.bounded
  rw [LinuxMachine.start]
  split_ifs
  · exact h
  dsimp only
  split
  · -- no task can go on: only the limit was lowered
    refine ⟨{ hbounded with
      limit_lt := (ceiling_le m).trans_lt hbounded.limit_lt
      timed := fun hne => absurd hphase hne }, h.budget,
      fun hrun => (by cases hidle.symm.trans hrun), fun _ => ⟨hphase, fun hresume => ?_⟩⟩
    exact ⟨h.timer_le hidle hresume, ((h.idle hidle).2 hresume).2⟩
  · next vm hresume =>
      obtain ⟨hicount, hstart, hfuel⟩ := resumeWith_count hresume
      obtain ⟨hstart₀, hfuel₀⟩ := hbounded.clear hloop
      have hcount := count_resumeWith hresume m.ceiling
      refine h.begun ?_ hphase ?_ hcount hceiling
      · refine ⟨hbounded.entry_lt, hbounded.inForce_lt, (ceiling_le m).trans_lt hbounded.limit_lt,
          hbounded.metered.spends ⟨hicount, hstart, hfuel.le⟩, fun hne => absurd hphase hne,
          fun _ => ⟨hstart.trans hstart₀, hfuel.trans hfuel₀⟩⟩
      intro hresume
      rw [hcount]
      exact h.timer_le hidle hresume

/-- The end of a run: the timer left behind is within the budget. -/
lemma Within.finish (h : m.Within) (hrun : m.running) (hphase : m.engine.phase = .idle)
    (recompile pageInWait : Bool) : (m.finish recompile pageInWait).Within := by
  have hloop : m.engine.phase ≠ .loop := by rw [hphase]; decide
  obtain ⟨hway, hresumed, hbound⟩ := h.run hrun
  have hrest := hway.rest hloop
  have hbounded := h.bounded
  rw [LinuxMachine.finish]
  split_ifs
  · have hbegun := h.begun (e := { m.engine with vm := flush m.engine.vm })
      { hbounded with timed := fun hne => absurd hphase hne } hphase
      (fun hresume => by cases hresumed.symm.trans hresume) rfl
      fun b hb => (hrest.limit.le.trans (le_max_right _ _)).trans (hbound b hb)
    exact ⟨hbegun.bounded, hbegun.budget, fun _ => hbegun.run rfl,
      fun hidle => by cases hrun.symm.trans hidle⟩
  refine ⟨{ hbounded with timed := fun hne => absurd hphase hne }, h.budget,
    fun hrun => (by cases hrun), fun _ => ⟨hphase, fun _ => ⟨?_, ?_⟩⟩⟩
  swap
  · exact fun b hb => hrest.timer_le.trans (hbound b hb)
  refine hrest.timer_le.trans (max_le ?_ (hrest.limit.symm.le.trans (le_max_left _ _)))
  exact (hrest.entry_le.trans (hbounded.count_eq hloop).symm.le).trans (le_max_right _ _)

/-- The steps a run is made of once it has been called. -/
def Step.Inside : Step σ ω → Prop
  | .setCpuBudget _ | .run _ => False
  | _ => True

/-- A step inside a run, under its conditions. -/
def AllowedInside (translates : ω → Bool) (m : LinuxMachine σ ω) (s : Step σ ω) : Prop :=
  s.Inside ∧ Allowed translates m s

/-- A step inside a run does nothing, or is one of the engine, or the end of it. -/
lemma Within.inside (h : m.Within) (s : Step σ ω) (hs : AllowedInside translates m s) :
    m.step M translates s = m ∨
      (∃ e, m.step M translates s = { m with engine := e } ∧ m.running ∧ m.engine.Advances e) ∨
      ∃ recompile pageInWait, m.step M translates s = m.finish recompile pageInWait ∧
        m.running ∧ m.engine.phase = .idle := by
  obtain ⟨hinside, hs⟩ := hs
  cases s with
  | setCpuBudget | run => cases hinside
  | respond r henv =>
    rw [LinuxMachine.step]
    split_ifs with hrun
    · exact .inr (.inl ⟨_, rfl, hrun, (h.run hrun).1.respond henv⟩)
    · exact .inl rfl
  | slice =>
    rw [LinuxMachine.step]
    split_ifs with hrun
    · exact .inr (.inl ⟨_, rfl, hrun, (h.run hrun).1.slice⟩)
    · exact .inl rfl
  | round x =>
    rw [LinuxMachine.step]
    split_ifs with hrun
    · exact .inr (.inl ⟨_, rfl, hrun, (h.run hrun).1.round x hs⟩)
    · exact .inl rfl
  | finish =>
    rw [LinuxMachine.step]
    split_ifs with hrun
    · exact .inr (.inr ⟨_, _, rfl, hrun⟩)
    · exact .inl rfl

/-- **One step** keeps the count within the budget. -/
lemma Within.step (h : m.Within) (s : Step σ ω) (hs : Allowed translates m s) :
    (m.step M translates s).Within := by
  by_cases hinside : s.Inside
  · rcases h.inside (M := M) s ⟨hinside, hs⟩ with
      hstep | ⟨e, hstep, hrun, hadv⟩ | ⟨recompile, pageInWait, hstep, hrun, hidle⟩ <;> rw [hstep]
    · exact h
    · exact h.inner hrun hadv
    · exact h.finish hrun hidle recompile pageInWait
  cases s with
  -- the budget is only set between runs
  | setCpuBudget =>
    rw [LinuxMachine.step]
    cases hrun : m.running with
    | true => exact h
    | false =>
      refine ⟨h.bounded, ?_, fun h' => (by cases h'),
        fun _ => ⟨(h.idle hrun).1, fun hresume => ⟨?_, ?_⟩⟩⟩
      · rintro b hb
        obtain ⟨b', rfl, rfl⟩ := map_eq_some_iff.mp hb
        exact ⟨b'.toNat_lt, (hs hrun).1⟩
      · exact ((h.idle hrun).2 hresume).1
      rintro b hb
      obtain ⟨b', rfl, rfl⟩ := map_eq_some_iff.mp hb
      exact (hs hrun).2 hresume
  | run w =>
    rw [LinuxMachine.step]
    split_ifs with hrun
    · exact h
    · exact h.start (by simpa using hrun) w
  | respond | slice | round | finish => exact absurd trivial hinside

end LinuxMachine

/-! ### Code that runs -/

namespace Engine

variable {M : Machine σ ω} {translates : ω → Bool} {e : Engine σ ω} {r : Response σ ω}

/-- The exception of a slice that found no fuel, which the environment leaves to the engine,
sets the timer anew. -/
structure Silent (r : Response σ ω) : Prop where
  interrupted : r.interrupted = false
  pagedIn : r.pagedIn = none
  env : ∀ v : Vm σ ω, r.env v = (.declines, v)
  queued : r.queued = none
  retry : r.retry = false

/-- The code at hand runs: whatever the timer, if it is in the future then a slice and
`k` rounds retire an instruction. -/
def Opens (M : Machine σ ω) (translates : ω → Bool) (k : ℕ) (e : Engine σ ω) : Prop :=
  ∀ timer : ℕ, e.vm.cpu.icount < timer → timer < 2 ^ 64 → ∀ xs : List Choice, xs.length = k →
    e.count < (run (step M translates) { e with nextTimer := timer }
      (.slice :: xs.map .round)).count

/-- The engine out of fuel, with the exception that says so. -/
def spent (e : Engine σ ω) : Engine σ ω :=
  let value := (e.vm.cpu.exception.map Exception.value).getD 0
  { e.setCpu { e.vm.cpu with exception := some ⟨.instructionLimit, value⟩ } with phase := .after }

/-- Out of fuel while the limit is not reached: the engine goes on under a new timer. -/
lemma respond_silent (hr : Silent r) (hpending : e.pendingException = none)
    (hbreak : e.vm.cpu.pc ∉ e.vm.code.breakpoints) (hlimit : e.vm.cpu.icount < e.icountLimit) :
    e.spent.step M translates (.respond r) =
      { e.spent with phase := .fuel, nextTimer := (e.updateTimer r.timer).nextTimer } := by
  have hhandle : e.spent.handle r = (.running, e.spent.updateTimer r.timer) := by
    have hanswered : e.spent.answered r = e.spent := by
      rw [answered, hr.env, hr.queued, hr.retry, none_or, Bool.or_false]
    have hdeclined : e.spent.handle r = (e.spent.answered r).handleDeclined r := by
      simp only [handle, answered, hr.interrupted, hr.pagedIn, hr.env, Bool.false_eq_true, if_false]
    rw [hdeclined, hanswered]
    change (if e.icountLimit ≤ e.vm.cpu.icount then (Verdict.exit .instructionLimit, e.spent)
      else if e.vm.cpu.pc ∈ e.vm.code.breakpoints then (.exit .breakpoint, e.spent)
      else (.running, e.spent.updateTimer r.timer)) = _
    rw [if_neg (Nat.not_le.mpr hlimit), if_neg hbreak]
  change (e.spent.handle r).2.settle top (e.spent.handle r).1 = _
  rw [hhandle]
  change (e.spent.updateTimer r.timer).top = _
  rw [top]
  split
  · next hsome => cases hpending.symm.trans hsome
  · rfl

/-- The code at hand runs under a spent timer too, once the timer has been set anew. -/
lemma Opens.of_spent {k : ℕ} (h : Opens M translates k e) (hr : Silent r)
    (hphase : e.phase = .fuel) (hpending : e.pendingException = none)
    (hbreak : e.vm.cpu.pc ∉ e.vm.code.breakpoints) (hlimit : e.vm.cpu.icount < e.icountLimit)
    (htimer : e.nextTimer ≤ e.vm.cpu.icount)
    (hnew : e.vm.cpu.icount < (e.updateTimer r.timer).nextTimer)
    (hlt : (e.updateTimer r.timer).nextTimer < 2 ^ 64) (xs : List Choice) (hxs : xs.length = k) :
    e.count < (run (step M translates) e
      (.slice :: .respond r :: .slice :: xs.map .round)).count := by
  have hspent : e.step M translates .slice = e.spent := by
    rw [step, if_pos hphase, slice, if_neg (by omega)]
    rfl
  -- the slice after the new timer is the slice of an engine that had it all along
  have hslice : ({ e.spent with
      phase := .fuel
      nextTimer := (e.updateTimer r.timer).nextTimer } : Engine σ ω).step M translates .slice =
      ({ e with nextTimer := (e.updateTimer r.timer).nextTimer } : Engine σ ω).step M translates
        .slice := by
    rw [step, step, if_pos rfl, if_pos hphase, slice, slice]
    have hpos : 0 < (e.updateTimer r.timer).nextTimer - e.vm.cpu.icount := by omega
    dsimp only
    rw [if_pos hpos]
    change (if 0 < (e.updateTimer r.timer).nextTimer - e.vm.cpu.icount then _ else _) = _
    rw [if_pos hpos]
    rfl
  have hopens := h _ hnew hlt xs hxs
  rw [run_cons, ← hslice] at hopens
  rw [run_cons, run_cons, run_cons, hspent, respond_silent hr hpending hbreak hlimit]
  exact hopens

end Engine

namespace LinuxMachine

variable {M : Machine σ ω} {translates : ω → Bool} {m : LinuxMachine σ ω}

lemma count_finish (m : LinuxMachine σ ω) (recompile pageInWait : Bool) :
    (m.finish recompile pageInWait).count = m.count := by
  rw [finish]
  split_ifs
  · exact (begun_start { m.engine with vm := flush m.engine.vm } noTimer).count
  · rfl

/-- A run under way, or just over, that found the count at `c` and the limit above it: it
has not stopped at the limit with nothing executed. -/
structure Going (c : ℕ) (m : LinuxMachine σ ω) : Prop where
  within : m.Within
  limit : c < m.engine.icountLimit
  count : c ≤ m.count
  exit : m.engine.Honest c

variable {c : ℕ} {w : Waits σ ω} {vm : Vm σ ω}

/-- Inside a run the limit stays above the count it was found with. -/
lemma Going.step (h : Going c m) (s : Step σ ω) (hs : AllowedInside translates m s) :
    Going c (m.step M translates s) := by
  have hwithin := h.within.step (M := M) s hs.2
  rcases h.within.inside (M := M) s hs with
    hstep | ⟨e, hstep, -, hadv⟩ | ⟨recompile, pageInWait, hstep, -⟩
  · rwa [hstep]
  · rw [hstep] at hwithin ⊢
    exact ⟨hwithin, h.limit.trans_eq hadv.limit.symm, h.count.trans hadv.count_le,
      hadv.honest c h.limit h.exit⟩
  have hcount := h.count.trans_eq (count_finish m recompile pageInWait).symm
  rw [hstep] at hwithin ⊢
  rw [finish] at hwithin hcount ⊢
  -- a page of code came in: the run goes on under the same limit
  split_ifs at hwithin hcount ⊢
  · have hbegun := begun_start { m.engine with vm := flush m.engine.vm } noTimer
    exact ⟨hwithin, h.limit.trans_eq hbegun.limit.symm, hcount,
      fun hidle => absurd hidle hbegun.phase⟩
  · exact ⟨hwithin, h.limit, hcount, h.exit⟩

/-- A run that finds room below the limit and below the budget. -/
lemma Going.start (h : m.Within) (hidle : m.running = false)
    (hlimit : m.count < m.engine.icountLimit) (hroom : ∀ b, m.cpuBudget = some b → m.count < b)
    (hresume : w.resumeWith m.engine.vm = some vm) : Going m.count (m.start w) := by
  have hwithin := h.start hidle w
  have hceiling : m.count < m.ceiling := by
    cases hb : m.cpuBudget with
    | none => rwa [ceiling_of_none hb]
    | some b =>
      rw [ceiling_of_budget hb (h.budget b hb).1 (h.budget b hb).2]
      exact lt_min hlimit (hroom b hb)
  have hheadroom : m.cpuHeadroom ≠ some 0 := by
    intro hzero
    obtain ⟨b, hb, hsub⟩ := map_eq_some_iff.mp hzero
    have := hroom b hb
    omega
  rw [LinuxMachine.start, if_neg hheadroom] at hwithin ⊢
  dsimp only at hwithin ⊢
  rw [hresume] at hwithin ⊢
  have hbegun := begun_start { m.engine with icountLimit := m.ceiling, vm } noTimer
  refine ⟨hwithin, hceiling.trans_eq hbegun.limit.symm, ?_,
    fun hphase => absurd hphase hbegun.phase⟩
  exact (count_resumeWith hresume m.ceiling).symm.le.trans hbegun.count.symm.le

/-- A run that found the count at `c` and the limit no higher: it executes nothing. -/
structure Held (c : ℕ) (m : LinuxMachine σ ω) : Prop where
  within : m.Within
  limit : m.engine.icountLimit ≤ c
  count : m.count = c
  bound : m.running = true → m.engine.bound ≤ c

lemma Held.step (h : Held c m) (s : Step σ ω) (hs : AllowedInside translates m s) :
    Held c (m.step M translates s) := by
  have hwithin := h.within.step (M := M) s hs.2
  rcases h.within.inside (M := M) s hs with
    hstep | ⟨e, hstep, hrun, hadv⟩ | ⟨recompile, pageInWait, hstep, -⟩
  · rwa [hstep]
  · rw [hstep] at hwithin ⊢
    have hbound : e.bound ≤ c := hadv.bound.le.trans (h.bound hrun)
    refine ⟨hwithin, hadv.limit.le.trans h.limit, le_antisymm ?_ ?_, fun _ => hbound⟩
    · exact hwithin.bounded.count_le_bound.trans hbound
    · exact h.count.symm.le.trans hadv.count_le
  have hcount := (count_finish m recompile pageInWait).trans h.count
  rw [hstep] at hwithin ⊢
  rw [finish] at hwithin hcount ⊢
  split_ifs at hwithin hcount ⊢
  · have hbegun := begun_start { m.engine with vm := flush m.engine.vm } noTimer
    refine ⟨hwithin, hbegun.limit.le.trans h.limit, hcount, fun _ => ?_⟩
    rw [Engine.bound, hbegun.entry, hbegun.inForce]
    exact max_le h.count.le h.limit
  · exact ⟨hwithin, h.limit, hcount, fun hrun => by cases hrun⟩

/-- A run that finds the limit reached. -/
lemma Held.start (h : m.Within) (hidle : m.running = false)
    (hlimit : m.engine.icountLimit ≤ m.count) (w : Waits σ ω) : Held m.count (m.start w) := by
  have hwithin := h.start hidle w
  have hceiling := (ceiling_le m).trans hlimit
  rw [LinuxMachine.start] at hwithin ⊢
  split_ifs at hwithin ⊢
  · exact ⟨h, hlimit, rfl, fun hrun => by cases hidle.symm.trans hrun⟩
  dsimp only at hwithin ⊢
  split at hwithin
  · exact ⟨hwithin, hceiling, rfl, fun hrun => by cases hidle.symm.trans hrun⟩
  · next vm hresume =>
      have hcount := count_resumeWith hresume m.ceiling
      have hbegun := begun_start { m.engine with icountLimit := m.ceiling, vm } noTimer
      refine ⟨hwithin, hbegun.limit.le.trans hceiling, hbegun.count.trans hcount, fun _ => ?_⟩
      rw [Engine.bound, hbegun.entry, hbegun.inForce]
      exact max_le hcount.le hceiling

/-! ### Progress -/

/-- The step of the machine is the one of its engine. -/
def Lifts (M : Machine σ ω) (translates : ω → Bool) (s : Step σ ω) (t : Engine.Step σ ω) : Prop :=
  ∀ m : LinuxMachine σ ω, m.running = true →
    m.step M translates s = { m with engine := m.engine.step M translates t }

/-- Inside a run the engine goes its own way. -/
lemma run_engine {ss : List (Step σ ω)} {ts : List (Engine.Step σ ω)}
    (h : List.Forall₂ (Lifts M translates) ss ts) (hrun : m.running) :
    (run (step M translates) m ss).engine = run (Engine.step M translates) m.engine ts := by
  induction h generalizing m with
  | nil => rfl
  | cons hs _ ih =>
    rw [run_cons, run_cons, hs m hrun]
    exact ih hrun

lemma lifts_slice (xs : List Choice) :
    List.Forall₂ (Lifts M translates) (.slice :: xs.map .round) (.slice :: xs.map .round) := by
  refine .cons (fun m hrun => if_pos hrun) ?_
  rw [List.forall₂_map_left_iff, List.forall₂_map_right_iff, List.forall₂_same]
  exact fun x _ m hrun => if_pos hrun

/-- What a run that found the count at `c` comes to, if it has executed nothing so far: if
it has returned, it was not stopped by the limit; and where it stands before code that
runs, it executes an instruction next, at once or after its timer has been set anew. -/
structure RunsOn (M : Machine σ ω) (translates : ω → Bool) (c : ℕ) (m : LinuxMachine σ ω) :
    Prop where
  exit : m.running = false → m.engine.lastExit ≠ some .instructionLimit
  opens : ∀ k : ℕ, m.running = true → m.engine.phase = .fuel → m.engine.pendingException = none →
    m.engine.vm.cpu.pc ∉ m.engine.vm.code.breakpoints → c + 2 ^ 20 < 2 ^ 64 →
    m.engine.Opens M translates k →
    ∀ (r : Response σ ω) (hr : ∀ v : Vm σ ω, (r.env v).1 ≠ .exit .instructionLimit),
      Engine.Silent r → r.timer = noTimer →
      ∃ pre ∈ [[], [Step.slice, .respond r hr]], ∀ xs : List Choice, xs.length = k →
        c < (run (step M translates) m (pre ++ .slice :: xs.map .round)).count

/-- **Progress**: with fuel to hand out, the code at hand retires an instruction. -/
lemma Going.runsOn (h : Going c m) (hcount : m.count = c) : RunsOn M translates c m := by
  refine ⟨fun hidle hexit => ?_, ?_⟩
  · exact absurd (h.exit (h.within.idle hidle).1 hexit) hcount.not_gt
  intro k hrun hphase hpending hbreak hroom hopens r hr hsilent htimer
  have hloop : m.engine.phase ≠ .loop := by rw [hphase]; decide
  have hicount : m.engine.vm.cpu.icount = c := (h.within.bounded.count_eq hloop).symm.trans hcount
  have hrest := (h.within.run hrun).1.rest hloop
  -- a timer that is spent is set anew first, up to the limit
  by_cases hspent : m.engine.nextTimer ≤ m.engine.vm.cpu.icount
  · refine ⟨[.slice, .respond r hr], by simp, fun xs hxs => ?_⟩
    have hnew : (m.engine.updateTimer r.timer).nextTimer =
        min (min m.engine.icountLimit (2 ^ 64 - 1)) (2 ^ 20 + c) := by
      have hcheck : (2 ^ 20 + c) % 2 ^ 64 = 2 ^ 20 + c := Nat.mod_eq_of_lt (by omega)
      rw [updateTimer, htimer, hicount]
      exact congrArg (min (min m.engine.icountLimit (2 ^ 64 - 1))) hcheck
    have hlimit := h.limit
    have hlifts : List.Forall₂ (Lifts M translates)
        (.slice :: .respond r hr :: .slice :: xs.map .round)
        (.slice :: .respond r :: .slice :: xs.map .round) :=
      .cons (fun m hrun => if_pos hrun) (.cons (fun m hrun => if_pos hrun) (lifts_slice xs))
    have := hopens.of_spent hsilent hphase hpending hbreak (hicount.trans_lt hlimit) hspent
      (by omega) (by omega) xs hxs
    rw [← hcount, LinuxMachine.count, LinuxMachine.count]
    exact this.trans_eq (congrArg Engine.count (run_engine hlifts hrun)).symm
  refine ⟨[], by simp, fun xs hxs => ?_⟩
  have := hopens m.engine.nextTimer (by omega)
    (hrest.timer_le.trans_lt h.within.bounded.bound_lt) xs hxs
  rw [← hcount, LinuxMachine.count, LinuxMachine.count]
  exact this.trans_eq (congrArg Engine.count (run_engine (lifts_slice xs) hrun)).symm

/-- **The CPU budget** along every sequence of calls of `set_cpu_budget` and `run` whose
steps are allowed.  The count is at most the budget in force.  And if a run finds a task to
go on with and a budget above the count, or none, then it depends on the limit that earlier
runs have left: under a limit above the count it executes an instruction before the limit
stops it, and under any other it executes nothing. -/
theorem budget_kept (M : Machine σ ω) (translates : ω → Bool) (v : Vm σ ω)
    (ss : List (Step σ ω))
    (hallowed : Guarded (step M translates) (Allowed translates) (new v) ss) :
    let m := run (step M translates) (new v) ss
    (∀ b, m.cpuBudget = some b → m.count ≤ b) ∧
    (m.running = false → ∀ (w : Waits σ ω) (ts : List (Step σ ω)),
      Guarded (step M translates) (AllowedInside translates) (m.step M translates (.run w)) ts →
      let m' := run (step M translates) (m.step M translates (.run w)) ts
      (m.count < m.engine.icountLimit → (∀ b, m.cpuBudget = some b → m.count < b) →
        (w.resumeWith m.engine.vm).isSome →
        m.count < m'.count ∨ m'.count = m.count ∧ RunsOn M translates m.count m') ∧
      (m.engine.icountLimit ≤ m.count → m'.count = m.count)) := by
  intro m
  have hstep : ∀ (m : LinuxMachine σ ω) (s : Step σ ω), m.Within → Allowed translates m s →
      (m.step M translates s).Within := fun m s h hs => h.step s hs
  have hwithin : m.Within := Guarded.invariant hstep (.new v) hallowed
  refine ⟨fun b hb => (hwithin.budget b hb).2, fun hidle w ts hts => ?_⟩
  have hrun : m.step M translates (.run w) = m.start w := by rw [step, hidle]; rfl
  intro m'
  rw [hrun] at hts
  have hm' : m' = run (step M translates) (m.start w) ts := by rw [← hrun]
  refine ⟨fun hlimit hroom hresume => ?_, fun hlimit => ?_⟩
  · obtain ⟨vm, hvm⟩ := isSome_iff_exists.mp hresume
    have hstep : ∀ (n : LinuxMachine σ ω) (s : Step σ ω), Going m.count n →
        AllowedInside translates n s → Going m.count (n.step M translates s) :=
      fun n s h hs => h.step s hs
    -- under a limit above the count, `Going` holds from the start of the run on
    have hgoing : Going m.count m' := by
      rw [hm']
      exact Guarded.invariant hstep (Going.start hwithin hidle hlimit hroom hvm) hts
    rcases hgoing.count.lt_or_eq with hlt | heq
    · exact .inl hlt
    · exact .inr ⟨heq.symm, hgoing.runsOn heq.symm⟩
  have hstep : ∀ (n : LinuxMachine σ ω) (s : Step σ ω), Held m.count n →
      AllowedInside translates n s → Held m.count (n.step M translates s) :=
    fun n s h hs => h.step s hs
  -- under any other limit the count stands still
  have hheld : Held m.count m' := by
    rw [hm']
    exact Guarded.invariant hstep (Held.start hwithin hidle hlimit w) hts
  exact hheld.count

/-! The guest of one instruction in a loop, its page resident. -/

/-- The VM at the block of that instruction. -/
def residentVm : Vm Bool Unit := { lazyVm with cpu := ⟨true, 0, none, 0, 0, 0⟩ }

/-- A run that was not waiting. -/
def noWait : Waits Bool Unit where
  pageIn := false
  outstanding := false
  host := false
  resume v := some v
  resume_count _ _ h := by
    obtain rfl := some.inj h
    exact ⟨rfl, rfl, rfl⟩

/-- The steps of a machine with that guest. -/
def residentStep : LinuxMachine Bool Unit → Step Bool Unit → LinuxMachine Bool Unit :=
  step lazyMachine fun _ => true

lemma noAnswer_env (v : Vm Bool Unit) :
    (noAnswer.env v).1 ≠ .exit .instructionLimit := fun h => by cases h

/-- A machine at that guest's instruction, about to hand out fuel. -/
lemma opens_resident {e : Engine Bool Unit} (hvm : e.vm = residentVm) (hphase : e.phase = .fuel) :
    e.Opens lazyMachine (fun _ => true) 1 := by
  intro timer hlt _ xs hxs
  obtain ⟨x, rfl⟩ := List.length_eq_one_iff.mp hxs
  obtain ⟨n, rfl⟩ := Nat.exists_eq_add_one_of_ne_zero (Nat.ne_of_gt (Nat.zero_lt_of_lt hlt))
  have hfuel : residentVm.cpu.updateFuel (n + 1) = ⟨true, 0, none, 0, n + 1, n + 1⟩ := by
    simp [Cpu.updateFuel, residentVm]
  have hslice : (Engine.step lazyMachine (fun _ => true) { e with nextTimer := n + 1 }
      .slice) = { e with
        nextTimer := n + 1
        vm := { residentVm with cpu := ⟨true, 0, none, 0, n + 1, n + 1⟩ }
        pageInRetry := false
        phase := .loop } := by
    rw [Engine.step, if_pos hphase, Engine.slice]
    dsimp only
    rw [hvm]
    change (if 0 < n + 1 then _ else _) = _
    rw [if_pos n.succ_pos]
    change enterLoop { e with
      nextTimer := n + 1
      vm := { residentVm with cpu := residentVm.cpu.updateFuel (n + 1) } } = _
    rw [hfuel]
    -- at the start of a block nothing is charged yet, so a retry makes no difference
    have hretry : adjustFuel (⟨true, 0, none, 0, n + 1, n + 1⟩ : Cpu Bool)
        ⟨[.marker 0 1, .op ()], 0, 0, .jump (.internal 0), 0⟩ 0 e.pageInRetry =
        ⟨true, 0, none, 0, n + 1, n + 1⟩ := by
      cases e.pageInRetry <;> rfl
    exact congrArg (fun c => ({ e with
      nextTimer := n + 1
      vm := { residentVm with cpu := c }
      pageInRetry := false
      phase := .loop } : Engine Bool Unit)) hretry
  rw [run_cons, hslice, Engine.count, hvm]
  change 0 < (⟨true, 0, none, 0, n + 1, n⟩ : Cpu Bool).retired
  rw [Cpu.retired]
  dsimp only
  omega

/-- Under a budget of ten the guest's first run executes an instruction. -/
theorem budget_kept_resident :
    let m := run residentStep (new residentVm) [.setCpuBudget (some 10), .run noWait]
    ∃ pre ∈ [[], [.slice, .respond noAnswer noAnswer_env]], ∀ xs : List Choice,
      xs.length = 1 → 0 < (run residentStep m (pre ++ .slice :: xs.map .round)).count := by
  intro m
  have hkept := budget_kept lazyMachine (fun _ => true) residentVm
    [.setCpuBudget (some 10)] ⟨fun _ => ⟨Nat.zero_le _, fun h => by cases h⟩, trivial⟩
  have hgoes := ((hkept.2 rfl noWait [] trivial).1 (by decide) ?_ rfl).resolve_left (lt_irrefl 0)
  · exact hgoes.2.opens 1 rfl rfl rfl (by decide) (by decide) (opens_resident rfl rfl)
      noAnswer noAnswer_env ⟨rfl, rfl, fun _ => rfl, rfl, rfl⟩ rfl
  intro b hb
  obtain rfl := some.inj hb
  decide

/-- **A raised budget is not used**: the guest spends a budget of ten, the budget is raised to
twenty, and the next run stops at the old ceiling with nothing executed. -/
theorem raised_budget_unused :
    let spent := run residentStep (new residentVm)
      (.setCpuBudget (some 10) :: .run noWait :: .slice :: List.replicate 12 (.round plainChoice) ++
        [.respond noAnswer noAnswer_env, .finish false false])
    let next := run residentStep spent
      [.setCpuBudget (some 20), .run noWait, .slice, .respond noAnswer noAnswer_env,
        .finish false false]
    spent.running = false ∧ spent.count = 10 ∧ next.running = false ∧ next.cpuBudget = some 20 ∧
      next.count = 10 ∧ next.engine.lastExit = some .instructionLimit := by
  decide +kernel

end LinuxMachine

end WebTos
