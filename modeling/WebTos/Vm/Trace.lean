import WebTos.Vm.Block

/-!
Compiled traces: what `translate_trace` emits, how the emitted loop runs, and what
the host makes of the number it returns.

A trace becomes one wasm loop over a state number, with one arm per block.  An arm
stores the block's start in the program counter, returns if the block does not fit
the fuel, runs the block's operations, and picks the next state or returns a resume
index packed under the retired count.  The emitted code is kept as the list of its
arms (`TraceArm`).

The states of a trace are scanned by the iteration order of a hash map; the order is
the parameter `scan`, any arrangement of the blocks with their state numbers.

* `translateTrace`, `callTrace`, `bookkeep`: translation, one call, and the host's
  bookkeeping;
* `Compiled`: what the emitted arms are, `compiled_of_translateTrace`.
-/

namespace WebTos

open List Option Prod

variable {σ : Type} {ω : Type}

/-! ### Translation -/

/-- Where the host resumes: a block of the arena, or an address (`usize::MAX` for the
block id). -/
structure TraceResume where
  block : Option ℕ
  addr : ℕ
deriving DecidableEq, Repr

/-- What `emit_trace_target` emits for a target: the next state, or a return with the
program counter stored. -/
inductive TraceEdge where
  | state (k : ℕ)
  | leave (addr resume : ℕ)
deriving DecidableEq, Repr

/-- The end of an arm. -/
inductive TraceExit where
  | jump (edge : TraceEdge)
  | branch (cond : Value) (taken fallthrough : TraceEdge)
deriving DecidableEq, Repr

/-- The code emitted for one block of a trace; `base` is the fault index of its first
p-code instruction. -/
structure TraceArm (ω : Type) where
  start : ℕ
  num : ℕ
  resume : ℕ
  pcode : List (Instr ω)
  base : ℕ
  exit : TraceExit
deriving DecidableEq, Repr

/-- `TraceMeta`: what the host keeps about a compiled trace. -/
structure TraceMeta where
  resumes : List TraceResume
  faultSites : List (ℕ × ℕ)
  blocks : List ℕ
deriving DecidableEq, Repr

/-- `trace_resume`: the index of a resume point, added if it is new and there is room
for an eight-bit index. -/
def traceResume (resumes : List TraceResume) (r : TraceResume) : Option (ℕ × List TraceResume) :=
  match resumes.idxOf? r with
  | some i => some (i, resumes)
  | none => if 256 ≤ resumes.length then none else some (resumes.length, resumes ++ [r])

section Translate

variable (translates : ω → Bool) (blocks : List (LiftedBlock ω)) (scan : List (ℕ × ℕ))

/-- `target_resume`. -/
def targetResume : Target → Option TraceResume
  | .internal id => (blocks[id]?).map fun block => ⟨some id, block.start⟩
  | .external (.const addr) => some ⟨none, addr⟩
  | _ => none

/-- The state a target continues in: by block id inside a group, and for an address by
scanning the trace's blocks for one that starts there. -/
def internalState : Target → Option ℕ
  | .internal id => (scan.find? fun p => p.1 = id).map snd
  | .external (.const addr) =>
    (scan.find? fun p => (blocks[p.1]?).map LiftedBlock.start = some addr).map snd
  | _ => none

/-- `emit_trace_target`. -/
def emitTraceTarget (target : Target) (resumes : List TraceResume) :
    Option (TraceEdge × List TraceResume) :=
  match internalState blocks scan target with
  | some k => some (.state k, resumes)
  | none => do
      let r ← targetResume blocks target
      let (i, resumes) ← traceResume resumes r
      return (.leave r.addr i, resumes)

/-- A branch condition has a width that wasm loads. -/
def loadable : Value → Bool
  | .var v => v.size = 1 || v.size = 2 || v.size = 4 || v.size = 8
  | .const _ => true

/-- The exit of an arm. -/
def emitTraceExit (exit : BlockExit) (resumes : List TraceResume) :
    Option (TraceExit × List TraceResume) :=
  match exit with
  | .jump target => do
      let (edge, resumes) ← emitTraceTarget blocks scan target resumes
      return (.jump edge, resumes)
  | .branch cond target fallthrough => do
      guard (loadable cond)
      let (taken, resumes) ← emitTraceTarget blocks scan target resumes
      let (fall, resumes) ← emitTraceTarget blocks scan fallthrough resumes
      return (.branch cond taken fall, resumes)
  | _ => none

/-- One arm of the loop. -/
def emitTraceArm (base id : ℕ) (resumes : List TraceResume) :
    Option (TraceArm ω × List TraceResume) := do
  let block ← blocks[id]?
  let (resume, resumes) ← traceResume resumes ⟨some id, block.start⟩
  guard (!bails translates block.pcode)
  let (exit, resumes) ← emitTraceExit blocks scan block.exit resumes
  return (⟨block.start, block.numInstructions, resume, block.pcode, base, exit⟩, resumes)

/-- The arms, in the order of the trace. -/
def emitTraceArms : ℕ → List ℕ → List TraceResume → Option (List (TraceArm ω) × List TraceResume)
  | _, [], resumes => some ([], resumes)
  | base, id :: order, resumes => do
      let (arm, resumes) ← emitTraceArm translates blocks scan base id resumes
      let (arms, resumes) ← emitTraceArms (base + arm.pcode.length) order resumes
      return (arm :: arms, resumes)

/-- A block may stand in a trace: no breakpoint, and at least one instruction. -/
def admits (id : ℕ) : Bool :=
  match blocks[id]? with
  | none => false
  | some block => !block.hasBreakpoint && block.numInstructions != 0

/-- The fault sites: for each p-code instruction of the trace, its block and its index
there. -/
def faultSites (order : List ℕ) : List (ℕ × ℕ) :=
  order.flatMap fun id =>
    (range ((blocks[id]?).elim 0 fun block => block.pcode.length)).map fun j => (id, j)

/-- `translate_trace`. -/
def translateTrace (order : List ℕ) : Option (List (TraceArm ω) × TraceMeta) :=
  if order.length < 2 ∨ 8 < order.length ∨ ¬order.Nodup ∨ ¬order.all (admits blocks) then none
  else do
    let (arms, resumes) ← emitTraceArms translates blocks scan 0 order []
    return (arms, ⟨resumes, faultSites blocks order, order⟩)

end Translate

/-! ### Running a compiled trace -/

/-- What the backend reports of a call. -/
inductive RegionOutcome where
  | ran (iters : ℕ)
  | faulted (iters index : ℕ)
  | unavailable
deriving DecidableEq, Repr

/-- What a call leaves behind: registers and memory, the program counter it stored,
the exception its imports raised, and the outcome. -/
structure RegionResult (σ : Type) where
  regs : σ
  pc : ℕ
  exception : Option Exception
  outcome : RegionOutcome

/-- The edge an arm takes: compiled code tests the condition at its full width. -/
def TraceExit.choose (M : Machine σ ω) (regs : σ) : TraceExit → TraceEdge
  | .jump edge => edge
  | .branch cond taken fallthrough => if M.read regs cond = 0 then fallthrough else taken

/-- `(iter << TRACE_RESUME_BITS) | resume`, in 64 bits. -/
def packResume (iter resume : ℕ) : ℕ := (iter * 256) % 2 ^ 64 + resume

/-- The emitted loop, from state `k` with `iter` instructions retired.  `rounds` bounds
the arms entered; an arm that is left for another one retires an instruction, so a
budget of `max` is spent within `max + 1` of them. -/
def runTrace (M : Machine σ ω) (arms : List (TraceArm ω)) (max : ℕ) :
    ℕ → ℕ → ℕ → σ → ℕ → RegionResult σ
  | 0, _, _, regs, pc => ⟨regs, pc, none, .unavailable⟩
  | rounds + 1, k, iter, regs, pc =>
    match arms[k]? with
    | none => ⟨regs, pc, none, .ran (packResume iter 0)⟩
    | some arm =>
      if max < (iter + arm.num) % 2 ^ 64 then
        ⟨regs, arm.start, none, .ran (packResume iter arm.resume)⟩
      else
        match runOps M arm.pcode arm.base regs with
        | (regs, some (j, e)) => ⟨regs, arm.start, some e, .faulted iter j⟩
        | (regs, none) =>
          match arm.exit.choose M regs with
          | .state k => runTrace M arms max rounds k ((iter + arm.num) % 2 ^ 64) regs arm.start
          | .leave addr resume =>
            ⟨regs, addr, none, .ran (packResume ((iter + arm.num) % 2 ^ 64) resume)⟩

/-- `call_region` on a trace: the state starts at 0, the budget is the fuel. -/
def callTrace (M : Machine σ ω) (arms : List (TraceArm ω)) (c : Cpu σ) : RegionResult σ :=
  runTrace M arms c.fuel (c.fuel + 1) 0 0 c.regs c.pc

/-- The host's bookkeeping after a call of a trace; `none` is the corrupted-block-map
exit. -/
def bookkeep (blocks : List (LiftedBlock ω)) (tm : TraceMeta) (c : Cpu σ) (r : RegionResult σ) :
    Option (Cpu σ × Landing) :=
  let c' := { c with regs := r.regs, pc := r.pc, exception := r.exception.or c.exception }
  match r.outcome with
  | .ran packed =>
    let retired := packed / 256
    match tm.resumes[packed % 256]? with
    | none => none
    | some resume =>
      if retired = 0 ∨ c.fuel < retired then none
      else
        let c' := { c' with fuel := c.fuel - retired }
        match resume.block with
        | some id => some (c', .run id)
        | none => some ({ c' with pc := resume.addr }, .goto resume.addr)
  | .faulted retired index =>
    match tm.faultSites[index]? with
    | none => none
    | some (id, j) =>
      if c.fuel < retired then none
      else
        let (pc, insns) := faultPcAndFuel ((blocks[id]?).elim [] LiftedBlock.pcode) j
        some ({ c' with pc := pc.getD r.pc, fuel := c.fuel - retired - insns }, .fault id j)
  | .unavailable => none

/-! ### What is emitted -/

/-- The edge emitted for a target of a block in the trace `order`. -/
def EdgeFor (blocks : List (LiftedBlock ω)) (order : List ℕ) (resumes : List TraceResume) :
    Target → TraceEdge → Prop
  | .internal id, .state k => order[k]? = some id
  | .internal id, .leave addr i =>
    id ∉ order ∧ (∃ block, blocks[id]? = some block ∧ block.start = addr) ∧
      resumes[i]? = some ⟨some id, addr⟩
  | .external (.const a), .state k =>
    ∃ id block, order[k]? = some id ∧ blocks[id]? = some block ∧ block.start = a
  | .external (.const a), .leave addr i =>
    addr = a ∧ (∀ id ∈ order, ∀ block, blocks[id]? = some block → block.start ≠ a) ∧
      resumes[i]? = some ⟨none, a⟩
  | _, _ => False

/-- The exit emitted for a block's exit. -/
def ExitFor (blocks : List (LiftedBlock ω)) (order : List ℕ) (resumes : List TraceResume) :
    BlockExit → TraceExit → Prop
  | .jump target, .jump edge => EdgeFor blocks order resumes target edge
  | .branch cond target fallthrough, .branch cond' taken fall =>
    cond' = cond ∧ EdgeFor blocks order resumes target taken ∧
      EdgeFor blocks order resumes fallthrough fall
  | _, _ => False

/-- The arm emitted for a block of the trace. -/
structure ArmFor (blocks : List (LiftedBlock ω)) (order : List ℕ) (resumes : List TraceResume)
    (id : ℕ) (block : LiftedBlock ω) (arm : TraceArm ω) : Prop where
  start : arm.start = block.start
  num : arm.num = block.numInstructions
  pcode : arm.pcode = block.pcode
  resume : resumes[arm.resume]? = some ⟨some id, block.start⟩
  exit : ExitFor blocks order resumes block.exit arm.exit

variable {i : ℕ}

lemma getElem?_of_prefix {α : Type} {xs ys : List α} (h : xs <+: ys) {x : α} (hx : xs[i]? = some x)
    : ys[i]? = some x := by
  obtain ⟨zs, rfl⟩ := h
  rw [List.getElem?_append_left (List.getElem?_eq_some_iff.mp hx).1, hx]

section Emitted

variable {blocks : List (LiftedBlock ω)} {order : List ℕ} {resumes resumes' : List TraceResume}
  {target : Target} {edge : TraceEdge}

/-- Resume points are only ever added, so an emitted edge stays right. -/
lemma EdgeFor.mono (h : resumes <+: resumes') (he : EdgeFor blocks order resumes target edge)
    : EdgeFor blocks order resumes' target edge := by
  match target, edge, he with
  | .internal _, .state _, he => exact he
  | .internal _, .leave _ _, he => exact ⟨he.1, he.2.1, getElem?_of_prefix h he.2.2⟩
  | .external (.const _), .state _, he => exact he
  | .external (.const _), .leave _ _, he => exact ⟨he.1, he.2.1, getElem?_of_prefix h he.2.2⟩

variable {texit : TraceExit} {exit : BlockExit}

lemma ExitFor.mono (h : resumes <+: resumes') (he : ExitFor blocks order resumes exit texit)
    : ExitFor blocks order resumes' exit texit := by
  match exit, texit, he with
  | .jump _, .jump _, he => exact EdgeFor.mono h he
  | .branch _ _ _, .branch _ _ _, he => exact ⟨he.1, he.2.1.mono h, he.2.2.mono h⟩

variable {arm : TraceArm ω} {id : ℕ}

lemma ArmFor.mono (h : resumes <+: resumes') {block : LiftedBlock ω}
    (ha : ArmFor blocks order resumes id block arm) : ArmFor blocks order resumes' id block arm :=
  { ha with
    resume := getElem?_of_prefix h ha.resume
    exit := ha.exit.mono h }

variable {r : TraceResume}

/-- `trace_resume` keeps the earlier indices and never hands out the 257th. -/
lemma traceResume_spec (h : traceResume resumes r = some (i, resumes')) :
    resumes <+: resumes' ∧ resumes'[i]? = some r ∧
      (resumes.length ≤ 256 → resumes'.length ≤ 256) := by
  rw [traceResume] at h
  split at h
  · next j hj =>
      obtain ⟨rfl, rfl⟩ := mk.inj (some.inj h)
      rw [idxOf?_eq_some_iff] at hj
      exact ⟨prefix_rfl, by grind, id⟩
  split at h
  · cases h
  · obtain ⟨rfl, rfl⟩ := mk.inj (some.inj h)
    exact ⟨prefix_append _ _, by simp, by simp; omega⟩

/-- `scan` lists the blocks of the trace with their state numbers. -/
def Scans (order : List ℕ) (scan : List (ℕ × ℕ)) : Prop :=
  ∀ id k, (id, k) ∈ scan ↔ order[k]? = some id

variable {translates : ω → Bool} {scan : List (ℕ × ℕ)}

/-- A target found among the states of the trace is a jump between arms. -/
lemma internalState_some (hscan : Scans order scan) {k : ℕ}
    (h : internalState blocks scan target = some k) :
    EdgeFor blocks order resumes target (.state k) := by
  match target with
  | .internal id =>
    obtain ⟨⟨id', k'⟩, hfind, rfl⟩ := map_eq_some_iff.mp h
    have hid : id' = id := by simpa using find?_some hfind
    exact hid ▸ (hscan id' k').mp (mem_of_find?_eq_some hfind)
  | .external (.const a) =>
    obtain ⟨⟨id', k'⟩, hfind, rfl⟩ := map_eq_some_iff.mp h
    have hstart : (blocks[id']?).map LiftedBlock.start = some a := by
      simpa only [decide_eq_true_eq] using find?_some hfind
    obtain ⟨block, hblock, hs⟩ := map_eq_some_iff.mp hstart
    exact ⟨id', block, (hscan id' k').mp (mem_of_find?_eq_some hfind), hblock, hs⟩

/-- A target that is not found leaves the trace at its resume point. -/
lemma internalState_none (hscan : Scans order scan) (h : internalState blocks scan target = none)
    (hr : targetResume blocks target = some r) (hi : resumes[i]? = some r)
    : EdgeFor blocks order resumes target (.leave r.addr i) := by
  match target with
  | .internal id =>
    obtain ⟨block, hblock, rfl⟩ := map_eq_some_iff.mp hr
    refine ⟨fun hid => ?_, ⟨block, hblock, rfl⟩, hi⟩
    obtain ⟨k, hk⟩ := mem_iff_getElem?.mp hid
    have hnone := find?_eq_none.mp (map_eq_none_iff.mp h) _ ((hscan id k).mpr hk)
    simp at hnone
  | .external (.const a) =>
    obtain rfl := some.inj hr
    refine ⟨rfl, fun id hid block hblock hstart => ?_, hi⟩
    obtain ⟨k, hk⟩ := mem_iff_getElem?.mp hid
    have hnone := find?_eq_none.mp (map_eq_none_iff.mp h) _ ((hscan id k).mpr hk)
    simp [hblock, hstart] at hnone

/-- What grows while the arms are emitted: the resume points, within an eight-bit
index. -/
structure Grows (resumes resumes' : List TraceResume) : Prop where
  kept : resumes <+: resumes'
  fits : resumes.length ≤ 256 → resumes'.length ≤ 256

lemma Grows.trans {a b c : List TraceResume} (h : Grows a b) (h' : Grows b c) : Grows a c :=
  ⟨h.kept.trans h'.kept, fun ha => h'.fits (h.fits ha)⟩

variable (hscan : Scans order scan)
include hscan

/-- **One target**: an arm of the trace, or a resume point. -/
lemma emitTraceTarget_spec
    (h : emitTraceTarget blocks scan target resumes = some (edge, resumes')) :
    Grows resumes resumes' ∧ EdgeFor blocks order resumes' target edge := by
  rw [emitTraceTarget] at h
  split at h
  · next k hk =>
      obtain ⟨rfl, rfl⟩ := mk.inj (some.inj h)
      exact ⟨⟨prefix_rfl, id⟩, internalState_some hscan hk⟩
  · next hnone =>
      simp only [bind_eq_bind, bind_eq_some_iff] at h
      obtain ⟨r, hr, ⟨i, rs⟩, hi, heq⟩ := h
      obtain ⟨rfl, rfl⟩ := mk.inj (some.inj heq)
      obtain ⟨hpre, hget, hfits⟩ := traceResume_spec hi
      exact ⟨⟨hpre, hfits⟩, internalState_none hscan hnone hr hget⟩

/-- **One exit**: its targets in order, the second after the first. -/
lemma emitTraceExit_spec (h : emitTraceExit blocks scan exit resumes = some (texit, resumes')) :
    Grows resumes resumes' ∧ ExitFor blocks order resumes' exit texit := by
  match exit with
  | .jump target =>
    simp only [emitTraceExit, bind_eq_bind, bind_eq_some_iff] at h
    obtain ⟨⟨edge, rs⟩, he, heq⟩ := h
    obtain ⟨rfl, rfl⟩ := mk.inj (some.inj heq)
    exact emitTraceTarget_spec hscan he
  | .branch cond target fallthrough =>
    simp only [emitTraceExit, bind_eq_bind, bind_eq_some_iff] at h
    obtain ⟨-, -, ⟨taken, rs₁⟩, ht, ⟨fall, rs₂⟩, hf, heq⟩ := h
    obtain ⟨rfl, rfl⟩ := mk.inj (some.inj heq)
    obtain ⟨hg₁, ht⟩ := emitTraceTarget_spec hscan ht
    obtain ⟨hg₂, hf⟩ := emitTraceTarget_spec hscan hf
    exact ⟨hg₁.trans hg₂, rfl, ht.mono hg₂.kept, hf⟩

/-- **One arm** stands for the block it was emitted from. -/
lemma emitTraceArm_spec {base : ℕ}
    (h : emitTraceArm translates blocks scan base id resumes = some (arm, resumes')) :
    Grows resumes resumes' ∧ arm.base = base ∧
      ∃ block, blocks[id]? = some block ∧ ArmFor blocks order resumes' id block arm := by
  simp only [emitTraceArm, bind_eq_bind, bind_eq_some_iff] at h
  obtain ⟨block, hblock, ⟨i, rs₁⟩, hr, -, -, ⟨texit, rs₂⟩, hexit, heq⟩ := h
  obtain ⟨rfl, rfl⟩ := mk.inj (some.inj heq)
  obtain ⟨hpre, hget, hfits⟩ := traceResume_spec hr
  obtain ⟨hg, hexit⟩ := emitTraceExit_spec hscan hexit
  exact ⟨Grows.trans ⟨hpre, hfits⟩ hg, rfl, block, hblock,
    ⟨rfl, rfl, rfl, getElem?_of_prefix hg.kept hget, hexit⟩⟩

/-- The arms come in the order of the trace, and the fault indices of each are the
places of its p-code in `faultSites`. -/
lemma emitTraceArms_spec : ∀ {suffix : List ℕ} {base : ℕ}
    {resumes resumes' : List TraceResume} {arms : List (TraceArm ω)} (before : List (ℕ × ℕ)),
    before.length = base →
    emitTraceArms translates blocks scan base suffix resumes = some (arms, resumes') →
    Grows resumes resumes' ∧ ∀ (k : ℕ) (id : ℕ), suffix[k]? = some id →
      ∃ (block : LiftedBlock ω) (arm : TraceArm ω), blocks[id]? = some block ∧ arms[k]? = some arm ∧
        ArmFor blocks order resumes' id block arm ∧
        ∀ j < block.pcode.length,
          (before ++ faultSites blocks suffix)[arm.base + j]? = some (id, j) := by
  intro suffix
  induction suffix with
  | nil =>
    intro base resumes resumes' arms before _ h
    obtain ⟨rfl, rfl⟩ := mk.inj (some.inj h)
    exact ⟨⟨prefix_rfl, id⟩, by simp⟩
  | cons id suffix ih =>
    intro base resumes resumes' arms before hbase h
    simp only [emitTraceArms, bind_eq_bind, bind_eq_some_iff] at h
    obtain ⟨⟨arm, rs₁⟩, harm, ⟨rest, rs₂⟩, hrest, heq⟩ := h
    obtain ⟨rfl, rfl⟩ := mk.inj (some.inj heq)
    obtain ⟨hg₁, hb, block, hblock, hfor⟩ := emitTraceArm_spec hscan harm
    -- the sites of this block come first, and those of the rest behind them
    have hsites : faultSites blocks (id :: suffix) =
        (range block.pcode.length).map (fun j => (id, j)) ++ faultSites blocks suffix := by
      simp [faultSites, hblock]
    obtain ⟨hg₂, hall⟩ := ih (before ++ (range block.pcode.length).map fun j => (id, j))
      (by simp [hbase, hfor.pcode]) hrest
    refine ⟨hg₁.trans hg₂, fun k id' hk => ?_⟩
    cases k with
    -- the arm emitted here; later arms only add resume points
    | zero =>
      obtain rfl : id = id' := by simpa using hk
      refine ⟨block, arm, hblock, rfl, hfor.mono hg₂.kept, fun j hj => ?_⟩
      rw [hsites, hb, ← hbase, getElem?_append_right (by omega),
        getElem?_append_left (by simpa using hj)]
      simp [hj]
    | succ k =>
      obtain ⟨block', arm', hblock', harm', hfor', hsite'⟩ := hall k id' (by simpa using hk)
      refine ⟨block', arm', hblock', by simpa using harm', hfor', fun j hj => ?_⟩
      rw [hsites, ← append_assoc]
      exact hsite' j hj

end Emitted

/-- What a compiled trace is, in terms of the blocks it was compiled from. -/
structure Compiled (blocks : List (LiftedBlock ω)) (arms : List (TraceArm ω)) (tm : TraceMeta) :
    Prop where
  fits : tm.resumes.length ≤ 256
  arm : ∀ (k id : ℕ), tm.blocks[k]? = some id →
    ∃ (block : LiftedBlock ω) (arm : TraceArm ω), blocks[id]? = some block ∧ arms[k]? = some arm ∧
      ArmFor blocks tm.blocks tm.resumes id block arm ∧ 0 < block.numInstructions ∧
      block.hasBreakpoint = false ∧
      ∀ j < block.pcode.length, tm.faultSites[arm.base + j]? = some (id, j)

/-- **Translation emits what `Compiled` says**, whatever order the states are scanned
in. -/
lemma compiled_of_translateTrace {translates : ω → Bool} {blocks : List (LiftedBlock ω)}
    {order : List ℕ} {scan : List (ℕ × ℕ)} {arms : List (TraceArm ω)} {tm : TraceMeta}
    (hscan : scan.Perm order.zipIdx)
    (h : translateTrace translates blocks scan order = some (arms, tm)) :
    Compiled blocks arms tm ∧ tm.blocks = order := by
  have hs : Scans order scan := by
    intro id k
    rw [hscan.mem_iff, mem_zipIdx_iff_getElem?]
  rw [translateTrace] at h
  split at h
  · cases h
  next hok =>
    simp only [bind_eq_bind, bind_eq_some_iff] at h
    obtain ⟨⟨arms', rs⟩, hemit, heq⟩ := h
    obtain ⟨rfl, rfl⟩ := mk.inj (some.inj heq)
    obtain ⟨hg, hall⟩ := emitTraceArms_spec hs [] rfl hemit
    refine ⟨⟨hg.fits (by simp), fun k id hk => ?_⟩, rfl⟩
    obtain ⟨block, arm, hblock, harm, hfor, hsite⟩ := hall k id hk
    have hadm : admits blocks id := by
      push Not at hok
      exact all_eq_true.mp hok.2.2.2 id (mem_of_getElem? hk)
    simp only [admits, hblock, Bool.and_eq_true, Bool.not_eq_true', bne_iff_ne] at hadm
    exact ⟨block, arm, hblock, harm, hfor, Nat.pos_of_ne_zero hadm.2, hadm.1, hsite⟩

end WebTos
