import Mathlib

/-!
Lifted blocks and the interpreter that runs them.

The lifter cuts guest code into blocks of p-code.  An `InstructionMarker` opens
each guest instruction; it moves the program counter there and takes one unit of
fuel.  Everything else a p-code operation does is left to a `Machine`: registers
other than the program counter, guest memory and the exception raised.  A block
may begin in the middle of an instruction, as the parts of a `CMOV` or a `REP` do,
and then shares its start address with the block it continues.

* `interpretBlock`: `Cpu::interpret_block_unchecked`;
* `blockExit`: `Cpu::block_exit`, with the shadow stack off as the engine sets it;
* `selectTrace`: the selector of looping traces, `selfLoopKind`: of self-loops;
* `interpret_split`: a block that fits the fuel stops where its operations do, at
  the program counter of the last marker passed;
* `selectFrom_step`: one round of the selector of traces.
-/

namespace WebTos

open List Option

/-! ### Blocks -/

/-- A p-code variable: a register or a temporary, with an offset into it. -/
structure VarNode where
  id : ℤ
  offset : ℕ
  size : ℕ
deriving DecidableEq, Repr

/-- An operand of a block's exit. -/
inductive Value where
  | var (v : VarNode)
  | const (value : ℕ)
deriving DecidableEq, Repr

/-- Where a block goes next: nowhere (the next instruction did not decode), to
another block of its group, or to an address. -/
inductive Target where
  | invalid (code addr : ℕ)
  | internal (id : ℕ)
  | external (addr : Value)
deriving DecidableEq, Repr

/-- How a block ends. -/
inductive BlockExit where
  | jump (target : Target)
  | branch (cond : Value) (target fallthrough : Target)
  | call (target : Value) (fallthrough : ℕ)
  | ret (target : Value)
deriving DecidableEq, Repr

/-- The targets that a block's exit can choose from. -/
def BlockExit.targets : BlockExit → List Target
  | .jump target => [target]
  | .branch _ target fallthrough => [target, fallthrough]
  | .call target _ => [.external target]
  | .ret target => [.external target]

/-- A p-code instruction: the marker that opens a guest instruction, or an
operation. -/
inductive Instr (ω : Type) where
  | marker (addr len : ℕ)
  | op (o : ω)
deriving DecidableEq, Repr

/-- The address of a marker. -/
def Instr.addr? {ω : Type} : Instr ω → Option ℕ
  | .marker addr _ => some addr
  | .op _ => none

/-- A block as the lifter makes it. -/
structure LiftedBlock (ω : Type) where
  pcode : List (Instr ω)
  start : ℕ
  context : ℕ
  exit : BlockExit
  breakpoints : ℕ
deriving DecidableEq, Repr

/-- The addresses of the markers, in order. -/
def markers {ω : Type} (pcode : List (Instr ω)) : List ℕ := pcode.filterMap Instr.addr?

namespace LiftedBlock

variable {ω : Type}

/-- The number of guest instructions the block opens. -/
def numInstructions (block : LiftedBlock ω) : ℕ := (markers block.pcode).length

/-- The address of the last guest instruction the block opens. -/
def lastMarker (block : LiftedBlock ω) : Option ℕ := (markers block.pcode).getLast?

/-- The block's first p-code instruction is a marker, so that nothing in the block
runs under the program counter it was entered with. -/
def startsWithMarker (block : LiftedBlock ω) : Bool :=
  match block.pcode with
  | .marker _ _ :: _ => true
  | _ => false

def hasBreakpoint (block : LiftedBlock ω) : Bool := block.breakpoints != 0

end LiftedBlock

/-! ### The interpreter -/

/-- The exceptions that the block loop raises or reads, and the others by number. -/
inductive ExceptionCode where
  | instructionLimit
  | codeNotTranslated
  | selfModifyingCode
  | corruptedBlockMap
  | decodeError (code : ℕ)
  | other (code : ℕ)
deriving DecidableEq, Repr

structure Exception where
  code : ExceptionCode
  value : ℕ
deriving DecidableEq, Repr

/-- What the p-code operations do: to the registers (the program counter apart) and
guest memory, kept together in `σ`, and which exception they raise. -/
structure Machine (σ : Type) (ω : Type) where
  /-- One operation. -/
  exec : ω → σ → σ × Option Exception
  /-- The value of a variable, at its own width. -/
  load : VarNode → σ → ℕ
  load_lt : ∀ v regs, load v regs < 256 ^ v.size

/-- The CPU: registers and memory, program counter, pending exception, and the
retired instructions as a count and the fuel of the current slice. -/
structure Cpu (σ : Type) where
  regs : σ
  pc : ℕ
  exception : Option Exception
  icount : ℕ
  fuelStart : ℕ
  fuel : ℕ
deriving DecidableEq, Repr

/-- `Cpu::icount`. -/
def Cpu.retired {σ : Type} (c : Cpu σ) : ℕ := c.icount + c.fuelStart - c.fuel

/-- `Cpu::update_fuel`, in the wrapping arithmetic of a release build. -/
def Cpu.updateFuel {σ : Type} (c : Cpu σ) (new : ℕ) : Cpu σ :=
  { c with
    icount := (c.icount + c.fuelStart + (2 ^ 64 - c.fuel)) % 2 ^ 64
    fuelStart := new
    fuel := new }

variable {σ : Type} {ω : Type}

/-- The value of an operand. -/
def Machine.read (M : Machine σ ω) (regs : σ) : Value → ℕ
  | .var v => M.load v regs
  | .const c => c

/-- `interpret_block_unchecked` from p-code index `i` on: the index it stops at, or
`none` if the block completes. -/
def interpretFrom (M : Machine σ ω) : List (Instr ω) → ℕ → Cpu σ → Cpu σ × Option ℕ
  | [], _, c => (c, none)
  | .marker addr _ :: rest, i, c =>
    match c.fuel with
    | 0 => ({ c with pc := addr, exception := some ⟨.instructionLimit, addr⟩ }, some i)
    | fuel + 1 => interpretFrom M rest (i + 1) { c with pc := addr, fuel := fuel }
  | .op o :: rest, i, c =>
    match M.exec o c.regs with
    | (regs, some e) => ({ c with regs := regs, exception := some e }, some i)
    | (regs, none) => interpretFrom M rest (i + 1) { c with regs := regs }

/-- `Cpu::interpret_block_unchecked`. -/
def interpretBlock (M : Machine σ ω) (pcode : List (Instr ω)) (offset : ℕ) (c : Cpu σ) :
    Cpu σ × Option ℕ :=
  interpretFrom M (pcode.drop offset) offset c

/-- `Cpu::block_exit`: a branch reads one byte of its condition. -/
def blockExit (M : Machine σ ω) (exit : BlockExit) (regs : σ) : Target :=
  match exit with
  | .jump target => target
  | .branch cond target fallthrough =>
    if M.read regs cond % 256 = 0 then fallthrough else target
  | .call target _ => .external target
  | .ret target => .external target

lemma blockExit_mem (M : Machine σ ω) (exit : BlockExit) (regs : σ) :
    blockExit M exit regs ∈ exit.targets := by
  cases exit with
  | branch =>
    rw [blockExit, BlockExit.targets]
    split <;> simp
  | _ => simp [blockExit, BlockExit.targets]

/-- Where the block loop stands after a block: at a block's entry, on its way to
an address, stopped at a p-code instruction of a block, or past its decoded code. -/
inductive Landing where
  | run (id : ℕ)
  | goto (addr : ℕ)
  | fault (id offset : ℕ)
  | out
deriving DecidableEq, Repr

/-- The end of a completed block.  An instruction that did not decode has no marker, so
the fuel is looked at here. -/
def takeExit (M : Machine σ ω) (exit : BlockExit) (c : Cpu σ) : Cpu σ × Landing :=
  match blockExit M exit c.regs with
  | .internal n => (c, .run n)
  | .external v => ({ c with pc := M.read c.regs v }, .goto (M.read c.regs v))
  | .invalid code addr =>
    let code := if c.fuel = 0 then .instructionLimit else .decodeError code
    ({ c with pc := addr, exception := some ⟨code, addr⟩ }, .out)

/-- A block by the interpreter, from a p-code offset to its exit. -/
def interpretStep (M : Machine σ ω) (block : LiftedBlock ω) (id offset : ℕ) (c : Cpu σ) :
    Cpu σ × Landing :=
  match interpretBlock M block.pcode offset c with
  | (c, some i) => (c, .fault id i)
  | (c, none) => takeExit M block.exit c

/-! ### Compiled bodies -/

/-- A block's operations as compiled code runs them: markers emit nothing.  The
result has the index it stops at and the exception raised there. -/
def runOps (M : Machine σ ω) : List (Instr ω) → ℕ → σ → σ × Option (ℕ × Exception)
  | [], _, regs => (regs, none)
  | .marker _ _ :: rest, i, regs => runOps M rest (i + 1) regs
  | .op o :: rest, i, regs =>
    match M.exec o regs with
    | (regs, some e) => (regs, some (i, e))
    | (regs, none) => runOps M rest (i + 1) regs

/-- `fault_pc_and_fuel`: the address of the last marker up to the faulting
instruction, and how many there are. -/
def faultPcAndFuel (pcode : List (Instr ω)) (faultIndex : ℕ) : Option ℕ × ℕ :=
  let passed := markers (pcode.take (faultIndex + 1))
  (passed.getLast?, passed.length)

@[simp] lemma markers_nil : markers ([] : List (Instr ω)) = [] := rfl

@[simp] lemma markers_marker (addr len : ℕ) (rest : List (Instr ω)) :
    markers (.marker addr len :: rest) = addr :: markers rest := rfl

@[simp] lemma markers_op (o : ω) (rest : List (Instr ω)) :
    markers (.op o :: rest) = markers rest := rfl

/-- The markers up to and including a p-code index. -/
def passed (pcode : List (Instr ω)) (index : ℕ) : List ℕ := markers (pcode.take (index + 1))

/-- The address a list of markers leaves in the program counter. -/
def pcAfter (pc : ℕ) (passed : List ℕ) : ℕ := passed.getLast?.getD pc

@[simp] lemma pcAfter_nil (pc : ℕ) : pcAfter pc [] = pc := rfl

@[simp] lemma pcAfter_cons (pc addr : ℕ) (rest : List ℕ) :
    pcAfter pc (addr :: rest) = pcAfter addr rest := by
  cases rest with
  | nil => rfl
  | cons => simp [pcAfter, List.getLast?_cons]

/-- The CPU after the markers of `seen` and the operations between them. -/
def Cpu.advance (c : Cpu σ) (seen : List ℕ) (regs : σ) (exception : Option Exception) : Cpu σ :=
  { c with
    regs := regs
    pc := pcAfter c.pc seen
    fuel := c.fuel - seen.length
    exception := exception }

/-- What the interpreter makes of a compiled body's outcome. -/
def settle (c : Cpu σ) (pcode : List (Instr ω)) (i : ℕ) :
    σ × Option (ℕ × Exception) → Cpu σ × Option ℕ
  | (regs, none) => (c.advance (markers pcode) regs c.exception, none)
  | (regs, some (j, e)) => (c.advance (passed pcode (j - i)) regs (some e), some j)

/-- A body stops at one of its own instructions. -/
lemma le_of_runOps (M : Machine σ ω) : ∀ (pcode : List (Instr ω)) (i : ℕ) (regs regs' : σ)
    (j : ℕ) (e : Exception), runOps M pcode i regs = (regs', some (j, e)) →
    i ≤ j ∧ j < i + pcode.length
  | [], i, regs, regs', j, e, h => by simp [runOps] at h
  | .marker _ _ :: rest, i, regs, regs', j, e, h => by
      have := le_of_runOps M rest (i + 1) regs regs' j e h
      simp only [length_cons]
      omega
  | .op o :: rest, i, regs, regs', j, e, h => by
      rw [runOps] at h
      simp only [length_cons]
      rcases hx : M.exec o regs with ⟨regs₁, _ | e₁⟩ <;> rw [hx] at h <;> dsimp only at h
      · have := le_of_runOps M rest (i + 1) regs₁ regs' j e h
        omega
      have hj : i = j := by
        have := (Prod.mk.inj h).2
        simp only [some.injEq, Prod.mk.injEq] at this
        exact this.1
      omega

/-- **A block that fits the fuel** runs as its operations do: it stops where they
stop, with the program counter and the fuel of the markers passed on the way. -/
lemma interpretFrom_eq_settle (M : Machine σ ω) : ∀ (pcode : List (Instr ω)) (i : ℕ) (c : Cpu σ),
    (markers pcode).length ≤ c.fuel →
    interpretFrom M pcode i c = settle c pcode i (runOps M pcode i c.regs)
  | [], _, _, _ => rfl
  | .marker addr len :: rest, i, c, hfit => by
      simp only [markers_marker, length_cons] at hfit
      obtain ⟨fuel, hfuel⟩ : ∃ fuel, c.fuel = fuel + 1 := ⟨c.fuel - 1, by omega⟩
      have hrest : (markers rest).length ≤ fuel := by omega
      rw [interpretFrom]
      simp only [hfuel]
      rw [interpretFrom_eq_settle M rest (i + 1) { c with pc := addr, fuel := fuel } hrest, runOps]
      rcases hrun : runOps M rest (i + 1) c.regs with ⟨regs, _ | ⟨j, e⟩⟩
      · simp [settle, Cpu.advance, hfuel]
      have hj := le_of_runOps M rest (i + 1) c.regs regs j e hrun
      -- indices are counted from the start of the block
      have hidx : j - i = j - (i + 1) + 1 := by omega
      simp [settle, Cpu.advance, hfuel, passed, hidx]
  | .op o :: rest, i, c, hfit => by
      rw [interpretFrom, runOps]
      rcases hx : M.exec o c.regs with ⟨regs, _ | e⟩
      · dsimp only
        rw [interpretFrom_eq_settle M rest (i + 1) { c with regs := regs } hfit]
        rcases hrun : runOps M rest (i + 1) regs with ⟨regs', _ | ⟨j, e⟩⟩
        · simp [settle, Cpu.advance]
        have hj := le_of_runOps M rest (i + 1) regs regs' j e hrun
        have hidx : j - i = j - (i + 1) + 1 := by omega
        simp [settle, Cpu.advance, passed, hidx]
      · simp [settle, Cpu.advance, passed]

/-! ### Choosing what to compile -/

/-- `first_bail` finds an operation that does not translate. -/
def bails (translates : ω → Bool) (pcode : List (Instr ω)) : Bool :=
  pcode.any fun
    | .marker _ _ => false
    | .op o => !translates o

section Selector

variable (translates : ω → Bool) (blocks : List (LiftedBlock ω)) (resolve : ℕ → Option ℕ)

/-- `in_group`: the block a target names, an address through the block map. -/
def inGroup : Target → Option ℕ
  | .internal id => if id < blocks.length then some id else none
  | .external (.const addr) => resolve addr
  | _ => none

/-- `has_static_addr`. -/
def hasStaticAddr : Target → Bool
  | .internal id => id < blocks.length
  | .external (.const _) => true
  | _ => false

/-- The successor that the selector follows out of a branch that does not close the
trace: the fallthrough before the taken target, if it is new and its sibling is a
static side exit. -/
def follow (header : ℕ) (order : List ℕ) (target fallthrough : Target) : Option ℕ :=
  let fresh (t : Target) := (inGroup blocks resolve t).filter fun n => n != header && n ∉ order
  match fresh fallthrough, hasStaticAddr blocks target with
  | some n, true => some n
  | _, _ =>
    match fresh target, hasStaticAddr blocks fallthrough with
    | some n, true => some n
    | _, _ => none

/-- A branch closes the trace: one side returns to the header and the other is a
static side exit. -/
def closes (header : ℕ) (order : List ℕ) (target fallthrough : Target) : Bool :=
  2 ≤ order.length &&
    ((inGroup blocks resolve target == some header && hasStaticAddr blocks fallthrough) ||
      (inGroup blocks resolve fallthrough == some header && hasStaticAddr blocks target))

/-- The loop of `select_trace`, with the number of blocks it may still add. -/
def selectFrom (header : ℕ) : ℕ → List ℕ → ℕ → Option (List ℕ)
  | 0, _, _ => none
  | room + 1, visited, cur =>
    if cur ∈ visited then none
    else
      let order := visited ++ [cur]
      match blocks[cur]? with
      | none => none
      | some block =>
        if bails translates block.pcode then none
        else
          match block.exit with
          | .jump target =>
            match inGroup blocks resolve target with
            | none => none
            | some n =>
              if n = header then if 2 ≤ order.length then some order else none
              else if n ∈ order then none
              else selectFrom header room order n
          | .branch _ target fallthrough =>
            if closes blocks resolve header order target fallthrough then some order
            else
              match follow blocks resolve header order target fallthrough with
              | none => none
              | some n => selectFrom header room order n
          | _ => none

/-- `select_trace`: at most eight blocks, from the header and back to it. -/
def selectTrace (header : ℕ) : Option (List ℕ) :=
  selectFrom translates blocks resolve header 8 [] header

variable {blocks resolve} in
/-- The selector follows one of the two targets of a branch. -/
lemma follow_eq {header : ℕ} {order : List ℕ} {target fallthrough : Target} {n : ℕ}
    (h : follow blocks resolve header order target fallthrough = some n) :
    inGroup blocks resolve target = some n ∨ inGroup blocks resolve fallthrough = some n := by
  simp only [follow] at h
  split at h
  · next hf _ =>
      obtain rfl := some.inj h
      exact .inr (filter_eq_some_iff.mp hf).1
  split at h
  · next ht _ =>
      obtain rfl := some.inj h
      exact .inl (filter_eq_some_iff.mp ht).1
  · cases h

variable {translates blocks resolve}

/-- One round of the selector: it adds the current block, and stops or follows one of
the block's targets. -/
lemma selectFrom_step {header room cur : ℕ} {visited order : List ℕ}
    (h : selectFrom translates blocks resolve header (room + 1) visited cur = some order) :
    ∃ block, blocks[cur]? = some block ∧
      (order = visited ++ [cur] ∨ ∃ t ∈ block.exit.targets, ∃ n, inGroup blocks resolve t = some n ∧
        selectFrom translates blocks resolve header room (visited ++ [cur]) n = some order) := by
  rw [selectFrom] at h
  split at h
  · cases h
  dsimp only at h
  split at h
  · cases h
  next block hblock =>
    refine ⟨block, hblock, ?_⟩
    split at h
    · cases h
    split at h
    · -- a jump ends the trace where it closes the loop
      next target hexit =>
        split at h
        · cases h
        next n hn =>
          split at h
          · split at h
            · exact .inl (some.inj h).symm
            · cases h
          split at h
          · cases h
          · exact .inr ⟨target, by simp [hexit, BlockExit.targets], n, hn, h⟩
    · -- so does a branch, and otherwise one side is followed
      next cond target fallthrough hexit =>
        split at h
        · exact .inl (some.inj h).symm
        split at h
        · cases h
        next n hn =>
          rcases follow_eq hn with hn | hn
          · exact .inr ⟨target, by simp [hexit, BlockExit.targets], n, hn, h⟩
          · exact .inr ⟨fallthrough, by simp [hexit, BlockExit.targets], n, hn, h⟩
    · cases h

/-- The blocks visited so far come first in the trace. -/
lemma selectFrom_append {header : ℕ} : ∀ {room : ℕ} {visited : List ℕ} {cur : ℕ} {order : List ℕ},
    selectFrom translates blocks resolve header room visited cur = some order →
    visited ++ [cur] <+: order := by
  intro room
  induction room with
  | zero =>
    intro visited cur order h
    simp [selectFrom] at h
  | succ room ih =>
    intro visited cur order h
    obtain ⟨_, -, rfl | ⟨_, -, n, -, hrest⟩⟩ := selectFrom_step h
    · exact prefix_rfl
    · exact (prefix_append _ [n]).trans (ih hrest)

end Selector

/-- `resolves_to_self`: the target is the block, by its id or by its address. -/
def resolvesToSelf (block : LiftedBlock ω) (id : ℕ) : Target → Bool
  | .internal n => n == id
  | .external (.const addr) => addr == block.start
  | _ => false

/-- `self_loop_kind`: the condition under which the block's exit returns to the
block itself, `none` inside for an unconditional jump. -/
def selfLoopKind (block : LiftedBlock ω) (id : ℕ) : Option (Option Value) :=
  match block.exit with
  | .branch cond target _ => if resolvesToSelf block id target then some (some cond) else none
  | .jump target => if resolvesToSelf block id target then some none else none
  | _ => none

/-! ### The block table -/

/-- What the block map is keyed by. -/
structure BlockKey where
  vaddr : ℕ
  isaMode : ℕ
  asid : ℕ
deriving DecidableEq, Repr

/-- The blocks that one call of the lifter made: a range of the arena, and the guest
bytes they came from. -/
structure BlockGroup where
  first : ℕ
  last : ℕ
  start : ℕ
  stop : ℕ
deriving DecidableEq, Repr

/-- The arena of lifted blocks, the groups by address, mode and address space, and the
addresses to stop at. -/
structure BlockTable (ω : Type) where
  blocks : List (LiftedBlock ω)
  map : BlockKey → Option BlockGroup
  breakpoints : List ℕ

/-- `resolve_trace_external`. -/
def BlockTable.resolve (code : BlockTable ω) (key : BlockKey) : Option ℕ :=
  (code.map key).map BlockGroup.first

end WebTos
