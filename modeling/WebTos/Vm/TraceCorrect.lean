import WebTos.Vm.Trace

/-!
A compiled trace against the interpreter.

`interpretBlocks` runs the blocks of a trace one after another from the header, and
stops at the first exit that leaves the trace or the first block that does not fit
the fuel.  One call of the compiled trace with the host's bookkeeping does the same,
where every address that the trace takes for one of its own blocks is the address of
that block in the block map.

* `bookkeep_runTrace`: the loop of the compiled trace follows the interpreter, arm by
  arm;
* `dispatchTrace_eq_interpretBlocks`: the two agree on registers, memory, program
  counter, exception, fuel and landing;
* `trace_skips_first_block`: without the condition they do not.  A loop whose first
  instruction is a conditional move is lifted into blocks that share one start, and
  the back edge can continue after the move.
-/

namespace WebTos

open List Option

variable {σ ω : Type}

/-! ### The interpreter on the blocks of a trace -/

section Reference

variable (M : Machine σ ω) (blocks : List (LiftedBlock ω)) (resolve : ℕ → Option ℕ)
  (order : List ℕ)

/-- The block of `order` that a landing continues in. -/
def staysIn : Landing → Option ℕ
  | .run n => if n ∈ order then some n else none
  | .goto addr => (resolve addr).filter fun n => n ∈ order
  | _ => none

/-- The blocks of `order` one after another by the interpreter, until one does not fit
the fuel or does not stay in `order`; `rounds` bounds the blocks entered. -/
def interpretBlocks : ℕ → ℕ → Cpu σ → Option (Cpu σ × Landing)
  | 0, _, _ => none
  | rounds + 1, id, c =>
    match blocks[id]? with
    | none => none
    | some block =>
      if c.fuel < block.numInstructions then some (c, .run id)
      else
        match staysIn resolve order (interpretStep M block id 0 c).2 with
        | some n => interpretBlocks rounds n (interpretStep M block id 0 c).1
        | none => some (interpretStep M block id 0 c)

end Reference

/-- What the lifter promises: a block entered from inside its group continues the
instruction that its predecessor stopped in, and starts at that instruction; and the
instruction count of a block is a 32-bit number. -/
structure LifterShape (blocks : List (LiftedBlock ω)) : Prop where
  continues : ∀ (id n : ℕ) (block next : LiftedBlock ω), blocks[id]? = some block →
    blocks[n]? = some next → .internal n ∈ block.exit.targets →
    next.start = block.lastMarker.getD block.start
  small : ∀ (id : ℕ) (block : LiftedBlock ω), blocks[id]? = some block →
    block.numInstructions < 2 ^ 32

/-- What the block map promises: the block it gives for an address starts there. -/
def MapStarts (blocks : List (LiftedBlock ω)) (resolve : ℕ → Option ℕ) : Prop :=
  ∀ (addr id : ℕ) (block : LiftedBlock ω), resolve addr = some id → blocks[id]? = some block →
    block.start = addr

/-- An address that leads from a block of the trace to the start of a block of the trace
leads to that block in the block map. -/
def EdgesResolve (blocks : List (LiftedBlock ω)) (resolve : ℕ → Option ℕ) (order : List ℕ) : Prop :=
  ∀ id ∈ order, ∀ block : LiftedBlock ω, blocks[id]? = some block →
    ∀ n ∈ order, ∀ next : LiftedBlock ω, blocks[n]? = some next →
      .external (.const next.start) ∈ block.exit.targets → resolve next.start = some n

/-- The condition of a branch is one byte wide. -/
def OneByte : BlockExit → Prop
  | .branch (.var v) _ _ => v.size = 1
  | .branch (.const c) _ _ => c < 256
  | _ => True

/-- The branches of the trace test one byte. -/
def OneByteConds (blocks : List (LiftedBlock ω)) (order : List ℕ) : Prop :=
  ∀ id ∈ order, ∀ block : LiftedBlock ω, blocks[id]? = some block → OneByte block.exit

/-! ### One arm -/

/-- A compiled body and the interpreter count the same operations from different
indices. -/
lemma runOps_shift (M : Machine σ ω) (base : ℕ) : ∀ (pcode : List (Instr ω)) (i : ℕ) (regs : σ),
    runOps M pcode (base + i) regs =
      ((runOps M pcode i regs).1, (runOps M pcode i regs).2.map fun p => (base + p.1, p.2))
  | [], _, _ => rfl
  | .marker _ _ :: rest, i, regs => runOps_shift M base rest (i + 1) regs
  | .op o :: rest, i, regs => by
      simp only [runOps]
      rcases M.exec o regs with ⟨regs', _ | e⟩
      · exact runOps_shift M base rest (i + 1) regs'
      · rfl

lemma OneByte.read_mod {M : Machine σ ω} {cond : Value} {target fallthrough : Target}
    (h : OneByte (.branch cond target fallthrough)) (regs : σ) :
    M.read regs cond % 256 = M.read regs cond := by
  refine Nat.mod_eq_of_lt ?_
  match cond with
  | .var v =>
    have hlt := M.load_lt v regs
    rw [show v.size = 1 from h] at hlt
    exact hlt
  | .const c => exact h

variable {blocks : List (LiftedBlock ω)}

/-- The arm takes the edge emitted for the target that the interpreter takes. -/
lemma ExitFor.choose {order : List ℕ} {resumes : List TraceResume} {exit : BlockExit}
    {texit : TraceExit} (h : ExitFor blocks order resumes exit texit) (hone : OneByte exit)
    (M : Machine σ ω) (regs : σ) :
    EdgeFor blocks order resumes (blockExit M exit regs) (texit.choose M regs) := by
  match exit, texit, h with
  | .jump _, .jump _, h => exact h
  | .branch cond target fallthrough, .branch _ taken fall, h =>
    obtain ⟨rfl, ht, hf⟩ := h
    rw [blockExit, TraceExit.choose, hone.read_mod]
    split
    · exact hf
    · exact ht

/-- Unpacking a return value of the trace. -/
lemma packResume_unpack {iter resume : ℕ} (hiter : iter < 2 ^ 56) (hresume : resume < 256) :
    packResume iter resume / 256 = iter ∧ packResume iter resume % 256 = resume := by
  rw [packResume, Nat.mod_eq_of_lt (by omega)]
  omega

variable {pc pc' : ℕ}

/-- The markers of a block that starts with one overwrite the program counter. -/
lemma pcAfter_of_ne_nil {passed : List ℕ} (h : passed ≠ []) :
    pcAfter pc passed = pcAfter pc' passed := by
  cases passed with
  | nil => exact absurd rfl h
  | cons => rw [pcAfter_cons, pcAfter_cons]

variable {block : LiftedBlock ω}

lemma passed_ne_nil (h : block.startsWithMarker) (j : ℕ) :
    passed block.pcode j ≠ [] := by
  rw [LiftedBlock.startsWithMarker] at h
  split at h
  · next heq => simp [passed, heq]
  · cases h

lemma pcAfter_markers (h : 0 < block.numInstructions) (pc pc' : ℕ) :
    pcAfter pc (markers block.pcode) = block.lastMarker.getD pc' :=
  pcAfter_of_ne_nil (ne_nil_of_length_pos h)

/-- The CPU inside a trace that was called with `c`: `iter` instructions later. -/
def Cpu.during (c : Cpu σ) (iter : ℕ) (regs : σ) (pc : ℕ) : Cpu σ :=
  { c with regs := regs, pc := pc, fuel := c.fuel - iter }

section Bookkeeping

variable {blocks : List (LiftedBlock ω)} {tm : TraceMeta} {c : Cpu σ} {iter : ℕ} {regs : σ}

/-- A return with a valid resume index and a count between 1 and the fuel. -/
lemma bookkeep_ran (hfits : tm.resumes.length ≤ 256) {i addr : ℕ} {block : Option ℕ}
    (hi : tm.resumes[i]? = some ⟨block, addr⟩) (hpos : 0 < iter) (hle : iter ≤ c.fuel)
    (hmax : c.fuel < 2 ^ 56) :
    bookkeep blocks tm c ⟨regs, pc, none, .ran (packResume iter i)⟩ =
      some (match block with
        | some id => (c.during iter regs pc, .run id)
        | none => (c.during iter regs addr, .goto addr)) := by
  have hlt : i < tm.resumes.length := (List.getElem?_eq_some_iff.mp hi).1
  obtain ⟨hdiv, hmod⟩ := packResume_unpack (show iter < 2 ^ 56 by omega) (show i < 256 by omega)
  have hok : ¬(iter = 0 ∨ c.fuel < iter) := by omega
  cases block <;> simp [bookkeep, hdiv, hmod, hi, hok, Cpu.during]

/-- A fault at a p-code instruction of a block of the trace. -/
lemma bookkeep_faulted {index id j : ℕ} {e : Exception}
    (hsite : tm.faultSites[index]? = some (id, j)) (hblock : blocks[id]? = some block)
    (hle : iter ≤ c.fuel) :
    bookkeep blocks tm c ⟨regs, pc, some e, .faulted iter index⟩ =
      some ((c.during iter regs pc).advance (passed block.pcode j) regs (some e), .fault id j) := by
  have hok : ¬c.fuel < iter := by omega
  simp [bookkeep, hsite, hok, hblock, faultPcAndFuel, Cpu.during, Cpu.advance, passed, pcAfter]

end Bookkeeping

/-! ### The whole trace -/

variable {c : Cpu σ}

section Simulation

variable {M : Machine σ ω} {blocks : List (LiftedBlock ω)} {resolve : ℕ → Option ℕ}
  {arms : List (TraceArm ω)} {tm : TraceMeta}

/-- What a trace needs of the blocks around it to be run as the interpreter runs it. -/
structure Faithful (blocks : List (LiftedBlock ω)) (resolve : ℕ → Option ℕ) (order : List ℕ) :
    Prop where
  shape : LifterShape blocks
  starts : MapStarts blocks resolve
  edges : EdgesResolve blocks resolve order
  conds : OneByteConds blocks order

/-- From the entry of a block of the trace, with `rounds` blocks to go, the compiled
trace with the host's bookkeeping gives what the interpreter gives. -/
def Follows (M : Machine σ ω) (blocks : List (LiftedBlock ω)) (resolve : ℕ → Option ℕ)
    (arms : List (TraceArm ω)) (tm : TraceMeta) (c : Cpu σ) (rounds : ℕ) : Prop :=
  ∀ (k id iter : ℕ) (regs : σ) (pc pc' : ℕ) (block : LiftedBlock ω),
    tm.blocks[k]? = some id → blocks[id]? = some block → iter ≤ c.fuel → c.fuel - iter < rounds →
    (pc = block.start ∨ block.startsWithMarker = true ∧ block.numInstructions ≤ c.fuel - iter) →
    (0 < iter ∨ block.numInstructions ≤ c.fuel) →
    ∃ r, bookkeep blocks tm c (runTrace M arms c.fuel rounds k iter regs pc') = some r ∧
      interpretBlocks M blocks resolve tm.blocks rounds id (c.during iter regs pc) = some r

lemma follows_edge (hC : Compiled blocks arms tm) (hF : Faithful blocks resolve tm.blocks)
    (hmax : c.fuel < 2 ^ 56) {rounds : ℕ} (ih : Follows M blocks resolve arms tm c rounds)
    {id iter : ℕ} {regs : σ} {edge : TraceEdge} (hid : id ∈ tm.blocks)
    (hblock : blocks[id]? = some block) (hpos : 0 < iter) (hiter : iter ≤ c.fuel)
    (hrounds : c.fuel - iter < rounds)
    (hedge : EdgeFor blocks tm.blocks tm.resumes (blockExit M block.exit regs) edge) :
    ∃ r, bookkeep blocks tm c
          (match edge with
            | .state k => runTrace M arms c.fuel rounds k iter regs pc'
            | .leave addr i => ⟨regs, addr, none, .ran (packResume iter i)⟩) = some r ∧
      (match staysIn resolve tm.blocks
            (takeExit M block.exit (c.during iter regs (block.lastMarker.getD block.start))).2 with
        | some n => interpretBlocks M blocks resolve tm.blocks rounds n
            (takeExit M block.exit (c.during iter regs (block.lastMarker.getD block.start))).1
        | none => some (takeExit M block.exit
            (c.during iter regs (block.lastMarker.getD block.start)))) = some r := by
  have hmem := blockExit_mem M block.exit regs
  rw [takeExit, show (c.during iter regs (block.lastMarker.getD block.start)).regs = regs from rfl]
  generalize blockExit M block.exit regs = target at hedge hmem ⊢
  match target, edge, hedge with
  -- inside the trace: the next arm, and the block it was made for
  | .internal n, .state k, hedge =>
    obtain ⟨next, -, hnext, -⟩ := hC.arm k n hedge
    have hn : n ∈ tm.blocks := mem_of_getElem? hedge
    have hstart := hF.shape.continues id n block next hblock hnext hmem
    simp only [staysIn, if_pos hn]
    exact ih k n iter regs _ pc' next hedge hnext hiter hrounds (.inl hstart.symm) (.inl hpos)
  -- a block that is not in the trace: the host resumes at its start
  | .internal n, .leave addr i, ⟨hn, ⟨next, hnext, haddr⟩, hi⟩ =>
    have hstart := hF.shape.continues id n block next hblock hnext hmem
    simp only [staysIn, if_neg hn]
    rw [← hstart, haddr]
    exact ⟨_, bookkeep_ran hC.fits hi hpos hiter hmax, rfl⟩
  -- an address that the interpreter resolves to a block of the trace
  | .external (.const _), .state k, ⟨n, next, hn, hnext, rfl⟩ =>
    have hn' : n ∈ tm.blocks := mem_of_getElem? hn
    have hres := hF.edges id hid block hblock n hn' next hnext hmem
    simp only [staysIn, Machine.read, hres, filter_some, hn', decide_true, if_true]
    exact ih k n iter regs _ pc' next hn hnext hiter hrounds (.inl rfl) (.inl hpos)
  | .external (.const a), .leave addr i, ⟨haddr, hnone, hi⟩ =>
    -- no block of the trace starts at the address
    have hout : (resolve a).filter (fun n => n ∈ tm.blocks) = none := by
      rw [filter_eq_none_iff]
      intro n hn
      simp only [decide_eq_true_eq]
      intro hmem'
      obtain ⟨k, hk⟩ := mem_iff_getElem?.mp hmem'
      obtain ⟨next, -, hnext, -⟩ := hC.arm k n hk
      exact hnone n hmem' next hnext (hF.starts a n next hn hnext)
    simp only [staysIn, Machine.read, hout, haddr]
    exact ⟨_, bookkeep_ran hC.fits hi hpos hiter hmax, rfl⟩

/-- **Arm by arm**, the compiled trace with the host's bookkeeping follows the
interpreter. -/
lemma bookkeep_runTrace (hC : Compiled blocks arms tm) (hF : Faithful blocks resolve tm.blocks)
    (c : Cpu σ) (hmax : c.fuel < 2 ^ 56) (rounds : ℕ) :
    Follows M blocks resolve arms tm c rounds := by
  induction rounds with
  | zero =>
    intro k id iter regs pc pc' block _ _ _ hrounds
    omega
  | succ rounds ih =>
    intro k id iter regs pc pc' block hk hblock hiter hrounds hpc hpos
    obtain ⟨block', arm, hblock', harmk, harm, hnum, -, hsite⟩ := hC.arm k id hk
    obtain rfl : block = block' := some.inj (hblock.symm.trans hblock')
    have hid : id ∈ tm.blocks := mem_of_getElem? hk
    have hsmall := hF.shape.small id block hblock
    have hadd : (iter + arm.num) % 2 ^ 64 = iter + block.numInstructions := by
      rw [harm.num]
      exact Nat.mod_eq_of_lt (by omega)
    rw [runTrace, interpretBlocks]
    simp only [harmk, hblock, hadd]
    by_cases hfit : c.fuel < iter + block.numInstructions
    · -- the block does not fit: both stop at its entry
      obtain rfl : pc = block.start := by
        rcases hpc with rfl | ⟨-, hle⟩
        · rfl
        · omega
      have hstop : (c.during iter regs block.start).fuel < block.numInstructions := by
        simp only [Cpu.during]
        omega
      rw [if_pos hfit, if_pos hstop, harm.start]
      exact ⟨_, bookkeep_ran hC.fits harm.resume (by omega) hiter hmax, rfl⟩
    have hgo : ¬(c.during iter regs pc).fuel < block.numInstructions := by
      simp only [Cpu.during]
      omega
    have hops : runOps M arm.pcode arm.base regs = ((runOps M block.pcode 0 regs).1,
        (runOps M block.pcode 0 regs).2.map fun p => (arm.base + p.1, p.2)) := by
      rw [harm.pcode]
      exact runOps_shift M arm.base block.pcode 0 regs
    have hint : interpretBlock M block.pcode 0 (c.during iter regs pc) = _ :=
      interpretFrom_eq_settle M block.pcode 0 (c.during iter regs pc) (Nat.le_of_not_lt hgo)
    rw [if_neg hfit, if_neg hgo, hops, interpretStep, hint,
      show (c.during iter regs pc).regs = regs from rfl]
    rcases hrun : runOps M block.pcode 0 regs with ⟨regs', _ | ⟨j, e⟩⟩
    · -- the block completes: the edge taken decides
      have hlast : (c.during iter regs pc).advance (markers block.pcode) regs' c.exception =
          c.during (iter + block.numInstructions) regs' (block.lastMarker.getD block.start) := by
        simp only [Cpu.advance, Cpu.during, pcAfter_markers hnum pc block.start, Nat.sub_sub]
        rfl
      dsimp only [settle, map_none]
      rw [show (c.during iter regs pc).exception = c.exception from rfl, hlast]
      exact follows_edge hC hF hmax ih hid hblock (by omega) (by omega) (by omega)
        (harm.exit.choose (hF.conds id hid block hblock) M regs')
    -- an operation faults: the host rebuilds the program counter from the markers
    obtain ⟨-, hj⟩ := le_of_runOps M block.pcode 0 regs regs' j e hrun
    rw [Nat.zero_add] at hj
    refine ⟨_, bookkeep_faulted (hsite j hj) hblock hiter, ?_⟩
    have hpc' : pcAfter pc (passed block.pcode j) = pcAfter arm.start (passed block.pcode j) := by
      rcases hpc with rfl | ⟨hm, -⟩
      · rw [harm.start]
      · exact pcAfter_of_ne_nil (passed_ne_nil hm j)
    simp [settle, staysIn, Cpu.advance, Cpu.during, hpc']

end Simulation

/-! ### One dispatch -/

/-- One dispatch of a compiled trace: the call, and the host's bookkeeping. -/
def dispatchTrace (M : Machine σ ω) (blocks : List (LiftedBlock ω)) (arms : List (TraceArm ω))
    (tm : TraceMeta) (c : Cpu σ) : Option (Cpu σ × Landing) :=
  bookkeep blocks tm c (callTrace M arms c)

/-- What the trace reports makes sense to the host: a count between 1 and the fuel with
a valid resume index, or a fault at a valid index. -/
def ReportOk (tm : TraceMeta) (fuel : ℕ) : RegionOutcome → Prop
  | .ran packed => 1 ≤ packed / 256 ∧ packed / 256 ≤ fuel ∧ packed % 256 < tm.resumes.length
  | .faulted retired index => retired ≤ fuel ∧ index < tm.faultSites.length
  | .unavailable => False

lemma reportOk_of_bookkeep {tm : TraceMeta} {res : RegionResult σ} {r : Cpu σ × Landing}
    (h : bookkeep blocks tm c res = some r) :
    ReportOk tm c.fuel res.outcome := by
  simp only [bookkeep] at h
  split at h
  · next packed hout =>
      split at h
      · cases h
      next resume hresume =>
        split at h
        · cases h
        · rw [hout]
          exact ⟨by omega, by omega, (List.getElem?_eq_some_iff.mp hresume).1⟩
  · next retired index hout =>
      split at h
      · cases h
      next id j hsite =>
        split at h
        · cases h
        · rw [hout]
          exact ⟨by omega, (List.getElem?_eq_some_iff.mp hsite).1⟩
  · cases h

/-- **Trace correctness.**  A trace that the selector chooses and that compiles, called
with fuel for its header block, gives what the interpreter gives on its blocks, from
the header to the first exit that leaves the trace or the first block that does not fit
the fuel; and the host finds nothing wrong with what it reports. -/
theorem dispatchTrace_eq_interpretBlocks (M : Machine σ ω) {translates : ω → Bool}
    {blocks : List (LiftedBlock ω)} {resolve : ℕ → Option ℕ} {header : ℕ} {order : List ℕ}
    {scan : List (ℕ × ℕ)} {arms : List (TraceArm ω)} {tm : TraceMeta} {block : LiftedBlock ω}
    (hsel : selectTrace translates blocks resolve header = some order)
    (hscan : scan.Perm order.zipIdx)
    (htrace : translateTrace translates blocks scan order = some (arms, tm))
    (hshape : LifterShape blocks) (hmap : MapStarts blocks resolve)
    (hedges : EdgesResolve blocks resolve order) (hconds : OneByteConds blocks order)
    (hblock : blocks[header]? = some block) (c : Cpu σ) (hfuel : block.numInstructions ≤ c.fuel)
    (hmax : c.fuel < 2 ^ 56) (hpc : c.pc = block.start ∨ block.startsWithMarker = true) :
    ∃ r, dispatchTrace M blocks arms tm c = some r ∧
      interpretBlocks M blocks resolve order (c.fuel + 1) header c = some r ∧
      ReportOk tm c.fuel (callTrace M arms c).outcome := by
  obtain ⟨hC, rfl⟩ := compiled_of_translateTrace hscan htrace
  have hk : tm.blocks[0]? = some header := by
    obtain ⟨rest, hrest⟩ := selectFrom_append hsel
    rw [← hrest]
    rfl
  obtain ⟨r, hr, hr'⟩ := bookkeep_runTrace (M := M) hC ⟨hshape, hmap, hedges, hconds⟩ c hmax
    (c.fuel + 1) 0 header 0 c.regs c.pc c.pc block hk hblock (Nat.zero_le _) (by omega)
    (hpc.imp id fun h => ⟨h, hfuel⟩) (.inr hfuel)
  exact ⟨r, hr, hr', reportOk_of_bookkeep hr⟩

/-! ### Two loops -/

/-- The operations of the loops below: count a pass, and count down to the exit. -/
inductive LoopOp where
  | pass
  | countDown
deriving DecidableEq, Repr

/-- A machine of two registers, the passes left and the passes made.  Variable 0 reads
the passes left, every other variable reads one. -/
def loopMachine : Machine (ℕ × ℕ) LoopOp where
  exec
    | .pass, (left, made) => ((left, made + 1), none)
    | .countDown, (left, made) => ((left - 1, made), none)
  load v regs := (if v.id = 0 then regs.1 else 1) % 256 ^ v.size
  load_lt v _ := Nat.mod_lt _ (Nat.pow_pos (by decide))

/-- A CPU at an address, with passes left and fuel. -/
def loopCpu (pc left fuel : ℕ) : Cpu (ℕ × ℕ) := ⟨(left, 0), pc, none, 0, fuel, fuel⟩

/-- `top: inc; jmp mid; mid: dec; jne top`. -/
def twoBlockLoop : List (LiftedBlock LoopOp) :=
  [⟨[.marker 0x1000 2, .op .pass], 0x1000, 0, .jump (.external (.const 0x1010)), 0⟩,
   ⟨[.marker 0x1010 2, .op .countDown], 0x1010, 0,
    .branch (.var ⟨0, 0, 1⟩) (.external (.const 0x1000)) (.external (.const 0x1020)), 0⟩]

/-- `top: cmov; dec; jne top`.  The conditional move is cut into its condition (block
0), the move (block 1) and what follows it (block 2), and all three start at it. -/
def cmovLoop : List (LiftedBlock LoopOp) :=
  [⟨[.marker 0x1000 4, .op .pass], 0x1000, 0,
    .branch (.var ⟨1, 0, 1⟩) (.internal 2) (.internal 1), 0⟩,
   ⟨[.op .pass], 0x1000, 0, .jump (.internal 2), 0⟩,
   ⟨[.marker 0x1004 2, .op .countDown], 0x1000, 0,
    .branch (.var ⟨0, 0, 1⟩) (.external (.const 0x1000)) (.external (.const 0x1020)), 0⟩]

/-- The block map of the first loop: a group at `top` and one at `mid`. -/
def loopMap (addr : ℕ) : Option ℕ :=
  if addr = 0x1000 then some 0 else if addr = 0x1010 then some 1 else none

/-- The block map of the second loop: the group at `top`. -/
def cmovMap (addr : ℕ) : Option ℕ := if addr = 0x1000 then some 0 else none

lemma lifterShape_of
    (hcont : ∀ p ∈ blocks.zipIdx, ∀ q ∈ blocks.zipIdx, .internal q.2 ∈ p.1.exit.targets →
      q.1.start = p.1.lastMarker.getD p.1.start)
    (hsmall : ∀ block ∈ blocks, block.numInstructions < 2 ^ 32) : LifterShape blocks where
  continues id n block next hblock hnext :=
    hcont (block, id) (List.mem_zipIdx_iff_getElem?.mpr hblock) (next, n)
      (List.mem_zipIdx_iff_getElem?.mpr hnext)
  small _ block hblock := hsmall block (mem_of_getElem? hblock)

/-- The two-block loop runs as it is interpreted. -/
theorem dispatchTrace_twoBlockLoop :
    ∃ arms tm r,
      translateTrace (fun _ => true) twoBlockLoop [(1, 1), (0, 0)] [0, 1] = some (arms, tm) ∧
        dispatchTrace loopMachine twoBlockLoop arms tm (loopCpu 0x1000 3 100) = some r ∧
        interpretBlocks loopMachine twoBlockLoop loopMap [0, 1] 101 0 (loopCpu 0x1000 3 100) =
          some r := by
  obtain ⟨⟨arms, tm⟩, htrace⟩ := isSome_iff_exists.mp (show (translateTrace (fun _ => true)
    twoBlockLoop [(1, 1), (0, 0)] [0, 1]).isSome = true by decide +kernel)
  have hsel : selectTrace (fun _ => true) twoBlockLoop loopMap 0 = some [0, 1] := by decide +kernel
  have hshape : LifterShape twoBlockLoop := lifterShape_of (by decide +kernel) (by decide +kernel)
  have hmap : MapStarts twoBlockLoop loopMap := by
    intro addr id block haddr hblock
    simp only [loopMap] at haddr
    split_ifs at haddr with h₀ h₁ <;> obtain rfl := some.inj haddr <;>
      obtain rfl := some.inj hblock
    · exact h₀.symm
    · exact h₁.symm
  have hedges : EdgesResolve twoBlockLoop loopMap [0, 1] := by
    intro id hid block hblock n hn next hnext
    fin_cases hid <;> fin_cases hn <;> obtain rfl := some.inj hblock <;>
      obtain rfl := some.inj hnext <;> decide
  have hconds : OneByteConds twoBlockLoop [0, 1] := by
    intro id hid block hblock
    fin_cases hid <;> obtain rfl := some.inj hblock
    · exact trivial
    · rfl
  obtain ⟨r, hr, hr', -⟩ := dispatchTrace_eq_interpretBlocks loopMachine hsel (by decide) htrace
    hshape hmap hedges hconds rfl (loopCpu 0x1000 3 100) (by decide) (by decide) (.inl rfl)
  exact ⟨arms, tm, r, htrace, hr, hr'⟩

/-- **The back edge that skips the conditional move.**  The loop is traced from the
block after the move to the block with its condition and back.  Both start at the move,
and if the scan meets the first of them first, the jump back to the move continues after
it: the compiled trace makes no pass where the interpreter makes one. -/
theorem trace_skips_first_block :
    selectTrace (fun _ => true) cmovLoop cmovMap 2 = some [2, 0] ∧
      [(2, 0), (0, 1)].Perm [2, 0].zipIdx ∧ LifterShape cmovLoop ∧
      MapStarts cmovLoop cmovMap ∧ OneByteConds cmovLoop [2, 0] ∧
      ∃ arms tm r r',
        translateTrace (fun _ => true) cmovLoop [(2, 0), (0, 1)] [2, 0] = some (arms, tm) ∧
          dispatchTrace loopMachine cmovLoop arms tm (loopCpu 0x1000 2 100) = some r ∧
          interpretBlocks loopMachine cmovLoop cmovMap [2, 0] 101 2 (loopCpu 0x1000 2 100) =
            some r' ∧
          r.1.regs = (0, 0) ∧ r'.1.regs = (0, 1) ∧ r.1.retired = 2 ∧ r'.1.retired = 3 := by
  refine ⟨by decide +kernel, by decide,
    lifterShape_of (by decide +kernel) (by decide +kernel), ?_, ?_,
    ?_⟩
  · intro addr id block haddr hblock
    simp only [cmovMap] at haddr
    split_ifs at haddr with h
    obtain rfl := some.inj haddr
    obtain rfl := some.inj hblock
    exact h.symm
  · intro id hid block hblock
    fin_cases hid <;> obtain rfl := some.inj hblock <;> rfl
  have hdispatch : (translateTrace (fun _ => true) cmovLoop [(2, 0), (0, 1)] [2, 0]).bind
      (fun p => dispatchTrace loopMachine cmovLoop p.1 p.2 (loopCpu 0x1000 2 100)) =
      some (⟨(0, 0), 0x1020, none, 0, 100, 98⟩, .goto 0x1020) := by decide +kernel
  have hinterpret : interpretBlocks loopMachine cmovLoop cmovMap [2, 0] 101 2
      (loopCpu 0x1000 2 100) = some (⟨(0, 1), 0x1020, none, 0, 100, 97⟩, .goto 0x1020) := by
    decide +kernel
  obtain ⟨⟨arms, tm⟩, htrace, hr⟩ := bind_eq_some_iff.mp hdispatch
  exact ⟨arms, tm, _, _, htrace, hr, hinterpret, rfl, rfl, rfl, rfl⟩

end WebTos
