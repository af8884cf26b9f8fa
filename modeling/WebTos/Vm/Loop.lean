import WebTos.Vm.TraceCorrect

/-!
The block loop of the engine, `run_block_interpreter`, one round at a time.

A round enters a block.  If the block is hot it may run as part of a compiled trace, as
a compiled self-loop, or as a compiled block; otherwise the interpreter runs it.  Which
code the backend still holds depends on the code budget and on what the backend accepts,
so the answers of `make_room` and `compile` are inputs of a round (`Choice`), and so is
the point at which an address is lifted again with the optimizer on.

* `Vm`: the CPU, the block table and the JIT's caches;
* `Vm.round`: one round of the loop;
* `Vm.tracePlan_of_not_selected`: when no trace is looked for.
-/

namespace WebTos

open Option Function

variable {σ ω : Type}

/-! ### Compiled code -/

/-- What a handle of the region cache stands for. -/
inductive Region (ω : Type) where
  | trace (arms : List (TraceArm ω))
  | selfLoop (pcode : List (Instr ω)) (cond : Option VarNode)

/-- `translate_region`: a constant condition is not compiled. -/
def translateRegion (translates : ω → Bool) (pcode : List (Instr ω)) :
    Option Value → Option (Region ω)
  | some (.const _) => none
  | some (.var v) => if bails translates pcode then none else some (.selfLoop pcode (some v))
  | none => if bails translates pcode then none else some (.selfLoop pcode none)

/-- `translate_block`. -/
def translateBlock (translates : ω → Bool) (pcode : List (Instr ω)) : Option (List (Instr ω)) :=
  if bails translates pcode then none else some pcode

/-- The byte a self-loop tests. -/
def loopsOn (M : Machine σ ω) (regs : σ) : Option VarNode → Bool
  | none => true
  | some v => M.load v regs % 256 != 0

/-- The loop emitted for a self-loop, after `iter` iterations; `rounds` bounds those to
come. -/
def runSelfLoop (M : Machine σ ω) (pcode : List (Instr ω)) (cond : Option VarNode) (max : ℕ) :
    ℕ → ℕ → σ → ℕ → RegionResult σ
  | 0, _, regs, pc => ⟨regs, pc, none, .unavailable⟩
  | rounds + 1, iter, regs, pc =>
    match runOps M pcode 0 regs with
    | (regs, some (j, e)) => ⟨regs, pc, some e, .faulted iter j⟩
    | (regs, none) =>
      if iter + 1 < max && loopsOn M regs cond then
        runSelfLoop M pcode cond max rounds (iter + 1) regs pc
      else ⟨regs, pc, none, .ran (iter + 1)⟩

/-- `call_region`, with a budget: instructions for a trace, iterations for a
self-loop. -/
def callRegion (M : Machine σ ω) (region : Region ω) (c : Cpu σ) (max : ℕ) : RegionResult σ :=
  match region with
  | .trace arms => runTrace M arms max (max + 1) 0 0 c.regs c.pc
  | .selfLoop pcode cond => runSelfLoop M pcode cond max max 0 c.regs c.pc

/-! ### The JIT's caches -/

/-- The caches, all by block id.  `some none` is a decision not to compile. -/
structure Jit (ω : Type) where
  after : Option ℕ
  entries : ℕ → ℕ
  blocks : ℕ → Option (Option (List (Instr ω)))
  regions : ℕ → Option (Option (Region ω))
  traceMeta : ℕ → Option TraceMeta

/-- The handles that one call of `make_room` evicts. -/
structure Evicted where
  blocks : List ℕ
  regions : List ℕ

/-- An evicted handle leaves its cache; a decision not to compile stays. -/
def dropHandles {α : Type} (keys : List ℕ) (cache : ℕ → Option (Option α)) (k : ℕ) :
    Option (Option α) :=
  if k ∈ keys then (cache k).filter Option.isNone else cache k

namespace Jit

/-- `set_jit_tiering` and the JIT's part of `flush_code`: nothing compiled. -/
def cleared (after : Option ℕ) : Jit ω :=
  ⟨after, fun _ => 0, fun _ => none, fun _ => none, fun _ => none⟩

/-- `JitBudget::make_room`, given what it evicts. -/
def makeRoom (jit : Jit ω) (e : Evicted) : Jit ω :=
  { jit with
    blocks := dropHandles e.blocks jit.blocks
    regions := dropHandles e.regions jit.regions
    traceMeta := fun k => if k ∈ e.regions then none else jit.traceMeta k }

/-- A decision about a block's region, with what the host keeps about a trace. -/
def setRegion (jit : Jit ω) (id : ℕ) (decided : Option (Region ω)) : Jit ω :=
  { jit with regions := update jit.regions id (some decided) }

def setTrace (jit : Jit ω) (id : ℕ) (arms : List (TraceArm ω)) (tm : TraceMeta) : Jit ω :=
  { jit with
    regions := update jit.regions id (some (some (.trace arms)))
    traceMeta := update jit.traceMeta id (some tm) }

def setBlock (jit : Jit ω) (id : ℕ) (decided : Option (List (Instr ω))) : Jit ω :=
  { jit with blocks := update jit.blocks id (some decided) }

def countEntry (jit : Jit ω) (id : ℕ) : Jit ω :=
  { jit with entries := update jit.entries id (jit.entries id + 1) }

end Jit

/-- What a round of the loop does not decide itself: evictions, the backend's answers,
whether an address reaches the count at which it is lifted again, and the iteration
order of the hash map that a trace's states are kept in. -/
structure Choice where
  traceRoom : Evicted
  regionRoom : Evicted
  blockRoom : Evicted
  traceCompiles : Bool
  regionCompiles : Bool
  blockCompiles : Bool
  regionRuns : Bool
  blockRuns : Bool
  promotes : Bool
  scan : List ℕ → List (ℕ × ℕ)
  scan_perm : ∀ order, (scan order).Perm order.zipIdx

/-! ### The loop -/

/-- Where the VM stands: at a p-code offset of a block, or out of the loop, with the
p-code instruction that raised the exception if one did. -/
inductive Place where
  | running (id offset : ℕ)
  | left (at? : Option (ℕ × ℕ))
deriving DecidableEq, Repr

/-- A lifted group and the bytes and context it was lifted from. -/
structure LiftedCode where
  group : BlockGroup
  context : ℕ
  source : List UInt8
deriving DecidableEq, Repr

/-- The virtual machine, as far as the block loop reads and writes it. -/
structure Vm (σ ω : Type) where
  cpu : Cpu σ
  place : Place
  code : BlockTable ω
  lifted : ℕ → ℕ → List LiftedCode
  isaMode : ℕ
  asid : ℕ
  jit : Jit ω

namespace Vm

/-- `get_block_key`. -/
def key (v : Vm σ ω) (vaddr : ℕ) : BlockKey := ⟨vaddr, v.isaMode, v.asid⟩

/-- The first block of the group at an address, in the current mode and address
space. -/
def resolve (v : Vm σ ω) (vaddr : ℕ) : Option ℕ := v.code.resolve (v.key vaddr)

/-- The breakpoint test at a block's entry: the fuel ends at the first breakpoint. -/
def stopAtBreakpoint (v : Vm σ ω) (block : LiftedBlock ω) (offset : ℕ) : Cpu σ :=
  if block.hasBreakpoint then
    match (markers (block.pcode.drop offset)).findIdx? fun addr => addr ∈ v.code.breakpoints with
    | some i => v.cpu.updateFuel (min v.cpu.fuel i)
    | none => v.cpu
  else v.cpu

/-- Leaving the loop with an exception. -/
def raise (v : Vm σ ω) (c : Cpu σ) (code : ExceptionCode) (value : ℕ) : Vm σ ω :=
  { v with cpu := { c with exception := some ⟨code, value⟩ }, place := .left none }

/-- An address that has earned the optimizer: the cheap version is dropped, and the loop
left to lift it again. -/
def promote (v : Vm σ ω) (c : Cpu σ) (addr : ℕ) : Vm σ ω :=
  { v with
    code := { v.code with map := update v.code.map (v.key addr) none }
    lifted := update v.lifted addr (update (v.lifted addr) v.isaMode [])
    : Vm σ ω }.raise c .codeNotTranslated addr

/-- The loop goes on from where a block, a trace or an exit has landed. -/
def arrive (v : Vm σ ω) (promotes : Bool) (c : Cpu σ) : Landing → Vm σ ω
  | .run id => { v with cpu := c, place := .running id 0 }
  | .fault id offset => { v with cpu := c, place := .left (some (id, offset)) }
  | .out => { v with cpu := c, place := .left none }
  | .goto addr =>
    if promotes then v.promote c addr
    else
      match v.resolve addr with
      | some id => { v with cpu := c, place := .running id 0 }
      | none => v.raise c .codeNotTranslated addr

section Paths

variable (M : Machine σ ω) (translates : ω → Bool) (x : Choice) (v : Vm σ ω)
  (block : LiftedBlock ω) (id : ℕ) (hot : Bool)

/-- The trace handle of a block: the one in the region cache, whatever trace it was
compiled for, or a new one for the trace just selected. -/
def traceHandle (order : List ℕ) (jit : Jit ω) : Jit ω × Option (Region ω) :=
  match jit.regions id with
  | some decided => (jit, decided)
  | none =>
    match translateTrace translates v.code.blocks (x.scan order) order with
    | none => (jit.setRegion id none, none)
    | some (arms, tm) =>
      let jit := jit.makeRoom x.traceRoom
      if x.traceCompiles then (jit.setTrace id arms tm, some (.trace arms)) else (jit, none)

/-- The backend can be asked to run a region of the block: there is fuel for the block,
and the backend holds the handle. -/
def regionReady : Bool := block.numInstructions ≤ v.cpu.fuel && x.regionRuns

/-- The trace that a round is about to call, if it calls one as a trace. -/
def tracePlan (jit : Jit ω) : Jit ω × Option (Region ω × TraceMeta) :=
  match selectTrace translates v.code.blocks v.resolve id, hot with
  | some order, true =>
    let handled := traceHandle translates x v id order jit
    (handled.1,
      if regionReady x v block then
        handled.2.bind fun region => (handled.1.traceMeta id).map fun tm => (region, tm)
      else none)
  | _, _ => (jit, none)

/-- What the host makes of a trace it called: a report it cannot use is a corrupted
block map. -/
def landTrace (region : Region ω) (tm : TraceMeta) : Cpu σ × Landing :=
  let r := callRegion M region v.cpu v.cpu.fuel
  (bookkeep v.code.blocks tm v.cpu r).getD
    ({ v.cpu with regs := r.regs, pc := r.pc, exception := some ⟨.corruptedBlockMap, 0⟩ }, .out)

/-- The region handle of a self-loop: the one in the region cache, or a new one. -/
def selfLoopHandle (cond : Option Value) (jit : Jit ω) : Jit ω × Option (Region ω) :=
  match jit.regions id with
  | some decided => (jit, decided)
  | none =>
    if !hot then (jit, none)
    else
      match translateRegion translates block.pcode cond with
      | none => (jit.setRegion id none, none)
      | some region =>
        let jit := jit.makeRoom x.regionRoom
        if x.regionCompiles then (jit.setRegion id (some region), some region) else (jit, none)

/-- The region that a round is about to call as a self-loop. -/
def selfLoopPlan (jit : Jit ω) : Jit ω × Option (Region ω) :=
  match selfLoopKind block id with
  | none => (jit, none)
  | some cond =>
    let handled := selfLoopHandle translates x block id hot cond jit
    (handled.1, if regionReady x v block then handled.2 else none)

/-- A fault that compiled code reports, after `iters` whole runs of the block. -/
def landFault (iters index : ℕ) (r : RegionResult σ) : Cpu σ × Landing :=
  let (pc, insns) := faultPcAndFuel block.pcode index
  ({ v.cpu with
      regs := r.regs
      pc := pc.getD r.pc
      exception := r.exception
      fuel := v.cpu.fuel - iters * block.numInstructions - insns }, .fault id index)

/-- The fuel that is left after `iters` whole runs of the block.  The product saturates
and the difference wraps around, as for the word that a trace returns. -/
def loopFuel (fuel iters num : ℕ) : ℕ := (fuel + (2 ^ 64 - min (iters * num) (2 ^ 64 - 1))) % 2 ^ 64

/-- What the host makes of what a self-loop reports. -/
def settleSelfLoop (r : RegionResult σ) : Option (Cpu σ × Landing) :=
  match r.outcome with
  | .ran iters => some (takeExit M block.exit
      { v.cpu with
        regs := r.regs
        pc := r.pc
        fuel := loopFuel v.cpu.fuel iters block.numInstructions })
  | .faulted iters index => some (landFault v block id iters index r)
  | .unavailable => none

/-- A call of a region as a self-loop: as many iterations as the fuel covers. -/
def landSelfLoop (region : Region ω) : Option (Cpu σ × Landing) :=
  settleSelfLoop M v block id (callRegion M region v.cpu (v.cpu.fuel / block.numInstructions))

/-- The handle of a compiled block: the one in the cache, or a new one. -/
def blockHandle (jit : Jit ω) : Jit ω × Option (List (Instr ω)) :=
  match jit.blocks id with
  | some decided => (jit, decided)
  | none =>
    if !hot then (jit, none)
    else
      match translateBlock translates block.pcode with
      | none => (jit.setBlock id none, none)
      | some pcode =>
        let jit := jit.makeRoom x.blockRoom
        if x.blockCompiles then (jit.setBlock id (some pcode), some pcode) else (jit, none)

/-- The compiled block that a round is about to call. -/
def blockPlan (jit : Jit ω) : Jit ω × Option (List (Instr ω)) :=
  let handled := blockHandle translates x block id hot jit
  (handled.1, if block.numInstructions ≤ v.cpu.fuel && x.blockRuns then handled.2 else none)

/-- What the host makes of a block it called. -/
def landBlock (pcode : List (Instr ω)) : Cpu σ × Landing :=
  match runOps M pcode 0 v.cpu.regs with
  | (regs, none) => takeExit M block.exit
      { v.cpu with regs := regs, fuel := v.cpu.fuel - block.numInstructions }
  | (regs, some (i, e)) => landFault v block id 0 i ⟨regs, v.cpu.pc, some e, .faulted 0 i⟩

/-- A round at the entry of a block that may be compiled. -/
def jitRound (after : ℕ) : Vm σ ω :=
  let counted := v.jit.countEntry id
  let hot : Bool := after ≤ counted.entries id
  let traced := tracePlan translates x v block id hot counted
  match traced.2 with
  | some (region, tm) =>
    { v with jit := traced.1 }.arrive false (landTrace M v region tm).1 (landTrace M v region tm).2
  | none =>
    let looped := selfLoopPlan translates x v block id hot traced.1
    match looped.2.bind (landSelfLoop M v block id) with
    | some r => { v with jit := looped.1 }.arrive x.promotes r.1 r.2
    | none =>
      let blocked := blockPlan translates x v block id hot looped.1
      let r := blocked.2.elim (interpretStep M block id 0 v.cpu) (landBlock M v block id)
      { v with jit := blocked.1 }.arrive x.promotes r.1 r.2

end Paths

/-- A round by the interpreter. -/
def plainRound (M : Machine σ ω) (x : Choice) (v : Vm σ ω) (block : LiftedBlock ω) (id offset : ℕ) :
    Vm σ ω :=
  v.arrive x.promotes (interpretStep M block id offset v.cpu).1
    (interpretStep M block id offset v.cpu).2

/-- One round of `run_block_interpreter`. -/
def round (M : Machine σ ω) (translates : ω → Bool) (x : Choice) (v : Vm σ ω) : Vm σ ω :=
  match v.place with
  | .left _ => v
  | .running id offset =>
    match v.code.blocks[id]? with
    | none => v.raise v.cpu .corruptedBlockMap 0
    | some block =>
      let v := { v with cpu := v.stopAtBreakpoint block offset }
      match v.jit.after with
      | some after =>
        if offset = 0 ∧ block.hasBreakpoint = false ∧ 0 < block.numInstructions then
          jitRound M translates x v block id after
        else plainRound M x v block id offset
      | none => plainRound M x v block id offset

end Vm

/-! ### What the caches hold -/

lemma Jit.regions_none_makeRoom {jit : Jit ω} {id : ℕ} (hid : jit.regions id = none)
    (e : Evicted) : (jit.makeRoom e).regions id = none := by
  simp [makeRoom, dropHandles, hid]

namespace Vm

variable {translates : ω → Bool} {x : Choice} {v : Vm σ ω} {block : LiftedBlock ω} {id : ℕ}
  {hot : Bool} {jit : Jit ω} {order : List ℕ}

/-- Without a selected trace the caches stay as they are. -/
lemma tracePlan_of_not_selected
    (h : hot = false ∨ selectTrace translates v.code.blocks v.resolve id = none) :
    tracePlan translates x v block id hot jit = (jit, none) := by
  unfold tracePlan
  rcases h with rfl | h
  · split
    · contradiction
    · rfl
  · rw [h]

variable (translates v id hot) in
lemma selected_or_not :
    (hot = true ∧ ∃ order, selectTrace translates v.code.blocks v.resolve id = some order) ∨
      (hot = false ∨ selectTrace translates v.code.blocks v.resolve id = none) := by
  cases hot
  · exact .inr (.inl rfl)
  rcases h : selectTrace translates v.code.blocks v.resolve id with _ | order
  · exact .inr (.inr rfl)
  · exact .inl ⟨rfl, order, rfl⟩

variable {region : Region ω}

/-- The handle of a round is the one that the region cache then has. -/
lemma traceHandle_handle
    (h : (traceHandle translates x v id order jit).1.regions id = some (some region)) :
    (traceHandle translates x v id order jit).2 = some region := by
  rw [traceHandle] at h ⊢
  split at h
  · next hid => exact some.inj (hid.symm.trans h)
  · next hid =>
      split at h
      · simp [Jit.setRegion] at h
      dsimp only at h ⊢
      split at h
      · simp only [Jit.setTrace, Function.update_self, some.injEq] at h
        simp [*]
      · rw [Jit.regions_none_makeRoom hid] at h
        cases h

/-- What `translate_region` compiles is the block as a self-loop. -/
lemma translateRegion_eq {pcode : List (Instr ω)} {cond : Option Value}
    (h : translateRegion translates pcode cond = some region) :
    ∃ var, region = .selfLoop pcode var ∧ cond = var.map Value.var := by
  unfold translateRegion at h
  split at h
  · cases h
  · next var =>
      split at h
      · cases h
      · exact ⟨some var, (some.inj h).symm, rfl⟩
  split at h
  · cases h
  · exact ⟨none, (some.inj h).symm, rfl⟩

end Vm

end WebTos
