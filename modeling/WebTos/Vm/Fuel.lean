import WebTos.Vm.Loop

/-!
What a round of the block loop does to the fuel.

* `Cpu.Spends`: the fuel has gone down, and nothing else that counts instructions has
  changed;
* `Cpu.Metered`: the retired instructions are at least `lo`, and the fuel that is left
  cannot take them past `hi`;
* `Vm.Unmixed`: a trace in the region cache of a self-loop is still one that the block's
  entry selects;
* `Vm.round_metered`: a round keeps the meter.

A trace that is called as a self-loop is the one way to more fuel: the word it returns
is taken for a number of iterations, and the fuel wraps around.
-/

namespace WebTos

open Option

variable {σ ω : Type} {hi lo : ℕ}

namespace Cpu

/-- Fuel was spent, and no more than there was. -/
structure Spends (c c' : Cpu σ) : Prop where
  icount : c'.icount = c.icount
  start : c'.fuelStart = c.fuelStart
  fuel : c'.fuel ≤ c.fuel

lemma Spends.refl (c : Cpu σ) : Spends c c := ⟨rfl, rfl, le_rfl⟩

variable {c c' : Cpu σ}

lemma Spends.trans {c'' : Cpu σ} (h : Spends c c') (h' : Spends c' c'') : Spends c c'' :=
  ⟨h'.icount.trans h.icount, h'.start.trans h.start, h'.fuel.trans h.fuel⟩

/-- The retired instructions are between `lo` and `hi`, now and however much of the fuel
is spent. -/
structure Metered (lo hi : ℕ) (c : Cpu σ) : Prop where
  fuel_le : c.fuel ≤ c.fuelStart
  lo_le : lo ≤ c.icount + (c.fuelStart - c.fuel)
  le_hi : c.icount + c.fuelStart ≤ hi

/-- The meter only depends on what is left of the fuel. -/
lemma Metered.spends (h : Metered lo hi c) (hs : Spends c c') :
    Metered lo hi c' := by
  obtain ⟨hle, hlo, hhi⟩ := h
  obtain ⟨hi', hs', hf⟩ := hs
  refine ⟨?_, ?_, ?_⟩
  · rw [hs']
    exact hf.trans hle
  · rw [hi', hs']
    omega
  · rwa [hi', hs']

/-- The count after the fuel is replaced. -/
lemma icount_updateFuel (h : Metered lo hi c) (hhi : hi < 2 ^ 64) (new : ℕ)
    : (c.updateFuel new).icount = c.icount + (c.fuelStart - c.fuel) := by
  obtain ⟨hle, hlo, hhi'⟩ := h
  simp only [updateFuel]
  omega

/-- Fuel may be taken away. -/
lemma Metered.updateFuel {new : ℕ} (h : Metered lo hi c) (hhi : hi < 2 ^ 64) (hnew : new ≤ c.fuel)
    : Metered lo hi (c.updateFuel new) := by
  have hcount := icount_updateFuel h hhi new
  obtain ⟨hle, hlo, hhi'⟩ := h
  refine ⟨le_rfl, ?_, ?_⟩
  · rw [hcount]
    exact hlo.trans (Nat.le_add_right _ _)
  rw [hcount]
  simp only [Cpu.updateFuel]
  omega

end Cpu

/-! ### Blocks and compiled code -/

section Paths

variable {M : Machine σ ω} {v : Vm σ ω} {block : LiftedBlock ω} {id : ℕ} {c : Cpu σ}

/-- Every marker costs one unit, and none is passed without fuel. -/
lemma interpretFrom_spends (M : Machine σ ω) : ∀ (pcode : List (Instr ω)) (i : ℕ) (c : Cpu σ),
    Cpu.Spends c (interpretFrom M pcode i c).1
  | [], _, c => .refl c
  | .marker addr _ :: rest, i, c => by
      rw [interpretFrom]
      split
      · exact ⟨rfl, rfl, le_rfl⟩
      · next fuel hfuel =>
          have hrest := interpretFrom_spends M rest (i + 1) { c with pc := addr, fuel := fuel }
          refine ⟨hrest.icount, hrest.start, hrest.fuel.trans ?_⟩
          rw [hfuel]
          exact Nat.le_succ fuel
  | .op o :: rest, i, c => by
      rw [interpretFrom]
      split
      · exact ⟨rfl, rfl, le_rfl⟩
      · next regs _ =>
          have hrest := interpretFrom_spends M rest (i + 1) { c with regs := regs }
          exact ⟨hrest.icount, hrest.start, hrest.fuel⟩

lemma takeExit_spends (exit : BlockExit) (c : Cpu σ) : Cpu.Spends c (takeExit M exit c).1 := by
  rw [takeExit]
  split <;> exact ⟨rfl, rfl, le_rfl⟩

lemma interpretStep_spends (block : LiftedBlock ω) (id offset : ℕ) (c : Cpu σ) :
    Cpu.Spends c (interpretStep M block id offset c).1 := by
  rw [interpretStep, interpretBlock]
  have h := interpretFrom_spends M (block.pcode.drop offset) offset c
  generalize interpretFrom M (block.pcode.drop offset) offset c = r at h
  obtain ⟨c', _ | i⟩ := r
  · exact h.trans (takeExit_spends _ _)
  · exact h

namespace Vm

/-- The host charges a trace for what it retired, and drops the call if that is more than there was.
-/
lemma landTrace_spends (region : Region ω) (tm : TraceMeta) :
    Cpu.Spends v.cpu (landTrace M v region tm).1 := by
  rw [landTrace]
  dsimp only
  cases h : bookkeep v.code.blocks tm v.cpu (callRegion M region v.cpu v.cpu.fuel) with
  | none => exact ⟨rfl, rfl, le_rfl⟩
  | some r =>
    rw [bookkeep] at h
    dsimp only at h
    split at h
    · split at h
      · cases h
      · split_ifs at h
        split at h <;> obtain rfl := some.inj h <;> exact ⟨rfl, rfl, Nat.sub_le _ _⟩
    · split at h
      · cases h
      split_ifs at h
      obtain rfl := some.inj h
      exact ⟨rfl, rfl, (Nat.sub_le _ _).trans (Nat.sub_le _ _)⟩
    · cases h

lemma landFault_spends (iters index : ℕ) (r : RegionResult σ) :
    Cpu.Spends v.cpu (landFault v block id iters index r).1 :=
  ⟨rfl, rfl, (Nat.sub_le _ _).trans (Nat.sub_le _ _)⟩

variable {pcode : List (Instr ω)} {cond : Option VarNode}

/-- A self-loop runs at most as many iterations as it is given. -/
lemma iters_of_runSelfLoop {max iters : ℕ} (rounds iter : ℕ) (regs : σ) (pc : ℕ)
    (hrounds : iter + rounds = max)
    (h : (runSelfLoop M pcode cond max rounds iter regs pc).outcome = .ran iters) :
    iters ≤ max := by
  induction rounds generalizing iter regs with
  | zero => cases h
  | succ rounds ih =>
    rw [runSelfLoop] at h
    split at h
    · cases h
    split_ifs at h
    · exact ih (iter + 1) _ (by omega) h
    · obtain rfl := RegionOutcome.ran.inj h
      omega

/-- The iterations of a self-loop are those the fuel covers, so the charge does not wrap. -/
lemma landSelfLoop_spends {r : Cpu σ × Landing} (hfuel : v.cpu.fuel < 2 ^ 64)
    (h : landSelfLoop M v block id (.selfLoop pcode cond) = some r) : Cpu.Spends v.cpu r.1 := by
  rw [landSelfLoop, settleSelfLoop] at h
  split at h
  · next iters hout =>
      obtain rfl := some.inj h
      have hexit := takeExit_spends (M := M) block.exit { v.cpu with
        regs := (callRegion M (.selfLoop pcode cond) v.cpu
          (v.cpu.fuel / block.numInstructions)).regs
        pc := (callRegion M (.selfLoop pcode cond) v.cpu (v.cpu.fuel / block.numInstructions)).pc
        fuel := loopFuel v.cpu.fuel iters block.numInstructions }
      have hiters := iters_of_runSelfLoop _ 0 v.cpu.regs v.cpu.pc (Nat.zero_add _) hout
      -- iterations that the fuel covers are charged exactly
      have hmul := (Nat.mul_le_mul_right block.numInstructions hiters).trans
        (Nat.div_mul_le_self ..)
      refine ⟨hexit.icount, hexit.start, hexit.fuel.trans ?_⟩
      dsimp only [loopFuel]
      omega
  · obtain rfl := some.inj h
    exact landFault_spends _ _ _
  · cases h

/-- A compiled block is charged for all of its instructions, or up to the fault. -/
lemma landBlock_spends (pcode : List (Instr ω)) :
    Cpu.Spends v.cpu (landBlock M v block id pcode).1 := by
  rw [landBlock]
  split
  · next regs _ =>
      have hexit := takeExit_spends (M := M) block.exit
        { v.cpu with regs := regs, fuel := v.cpu.fuel - block.numInstructions }
      exact ⟨hexit.icount, hexit.start, hexit.fuel.trans (Nat.sub_le _ _)⟩
  · exact landFault_spends _ _ _

/-- Arriving somewhere costs nothing. -/
lemma arrive_spends (promotes : Bool) (c : Cpu σ) (l : Landing) :
    Cpu.Spends c (v.arrive promotes c l).cpu := by
  cases l with
  | goto =>
    rw [arrive]
    split_ifs
    · exact ⟨rfl, rfl, le_rfl⟩
    · split <;> exact ⟨rfl, rfl, le_rfl⟩
  | _ => exact ⟨rfl, rfl, le_rfl⟩

end Vm

end Paths

/-! ### A round -/

namespace Vm

variable {translates : ω → Bool} {x : Choice} {v : Vm σ ω} {block : LiftedBlock ω} {id : ℕ}
  {hot : Bool} {jit : Jit ω}

/-- If a trace is kept for a block that is a self-loop, the block's next entry calls it as
a trace: the block is hot, the trace is still selected there, and the host still has what
it needs to read the trace's answer. -/
def Unmixed (translates : ω → Bool) (v : Vm σ ω) (id after : ℕ) (block : LiftedBlock ω) : Prop :=
  ∀ arms, v.jit.regions id = some (some (.trace arms)) → (selfLoopKind block id).isSome = true →
    after ≤ v.jit.entries id + 1 ∧
      (selectTrace translates v.code.blocks v.resolve id).isSome = true ∧
      (v.jit.traceMeta id).isSome = true

/-- A trace that stands in the region cache after the trace path is there with what the
host keeps about it, unless it stood there before. -/
lemma traceMeta_of_traceHandle {order : List ℕ} {arms : List (TraceArm ω)}
    (hold : jit.regions id = some (some (.trace arms)) → (jit.traceMeta id).isSome)
    (h : (traceHandle translates x v id order jit).1.regions id = some (some (.trace arms))) :
    ((traceHandle translates x v id order jit).1.traceMeta id).isSome := by
  rw [traceHandle] at h ⊢
  split at h
  · exact hold h
  · next hid =>
      split at h
      · simp [Jit.setRegion] at h
      dsimp only at h ⊢
      split at h
      · simp [Jit.setTrace, *]
      · rw [Jit.regions_none_makeRoom hid] at h
        cases h

/-- The region of the self-loop path is a self-loop: a trace in its place would have been called as
one. -/
lemma selfLoopPlan_selfLoop {region : Region ω}
    (hold : ∀ arms, jit.regions id = some (some (.trace arms)) →
      (selfLoopKind block id).isSome → hot ∧
        (selectTrace translates v.code.blocks v.resolve id).isSome ∧
        (jit.traceMeta id).isSome)
    (hmiss : (tracePlan translates x v block id hot jit).2 = none)
    (h : (selfLoopPlan translates x v block id hot
      (tracePlan translates x v block id hot jit).1).2 = some region) :
    ∃ pcode cond, region = .selfLoop pcode cond := by
  rw [selfLoopPlan] at h
  split at h
  · cases h
  next cond hkind =>
    dsimp only at h
    split_ifs at h with hready
    rw [selfLoopHandle] at h
    split at h
    · next decided hid =>
        dsimp only at h
        subst h
        cases region with
        | selfLoop pcode cond => exact ⟨pcode, cond, rfl⟩
        | trace arms =>
          exfalso
          have hsome : (selfLoopKind block id).isSome := by rw [hkind]; rfl
          rcases selected_or_not translates v id hot with ⟨rfl, order, hsel⟩ | hnot
          · -- The trace and its record are there, so the trace path would have called it.
            simp only [tracePlan, hsel] at hmiss hid
            have hmeta := traceMeta_of_traceHandle (fun h => (hold arms h hsome).2.2) hid
            obtain ⟨tm, htm⟩ := isSome_iff_exists.mp hmeta
            rw [if_pos hready, traceHandle_handle hid] at hmiss
            simp [htm] at hmiss
          rw [tracePlan_of_not_selected hnot] at hid
          obtain ⟨hhot, hsel, -⟩ := hold arms hid hsome
          rcases hnot with hcold | hnone
          · rw [hcold] at hhot
            cases hhot
          · rw [hnone] at hsel
            cases hsel
    split at h
    · cases h
    split at h
    · cases h
    next region' hregion =>
      dsimp only at h
      split at h
      · obtain rfl := some.inj h
        obtain ⟨var, rfl, -⟩ := translateRegion_eq hregion
        exact ⟨_, _, rfl⟩
      · cases h

variable {M : Machine σ ω}

/-- **A round with the JIT on** keeps the meter. -/
lemma jitRound_metered {after : ℕ} (h : Cpu.Metered lo hi v.cpu) (hhi : hi < 2 ^ 64)
    (hmixed : Unmixed translates v id after block) :
    Cpu.Metered lo hi (jitRound M translates x v block id after).cpu := by
  have hfuel : v.cpu.fuel < 2 ^ 64 :=
    (h.fuel_le.trans ((Nat.le_add_left _ _).trans h.le_hi)).trans_lt hhi
  have hold : ∀ arms, (v.jit.countEntry id).regions id = some (some (.trace arms)) →
      (selfLoopKind block id).isSome →
      decide (after ≤ (v.jit.countEntry id).entries id) ∧
        (selectTrace translates v.code.blocks v.resolve id).isSome ∧
        ((v.jit.countEntry id).traceMeta id).isSome := by
    intro arms hid hkind
    obtain ⟨hhot, hsel, hmeta⟩ := hmixed arms hid hkind
    refine ⟨?_, hsel, hmeta⟩
    simpa [Jit.countEntry] using hhot
  refine h.spends ?_
  rw [jitRound]
  dsimp only
  split
  · exact (landTrace_spends _ _).trans (arrive_spends _ _ _)
  · -- no trace is called: a self-loop, a compiled block or the interpreter
    next hmiss =>
      split
      · next r hr =>
          obtain ⟨region, hregion, hland⟩ := bind_eq_some_iff.mp hr
          obtain ⟨pcode, cond, rfl⟩ := selfLoopPlan_selfLoop hold hmiss hregion
          exact (landSelfLoop_spends hfuel hland).trans (arrive_spends _ _ _)
      refine Cpu.Spends.trans ?_ (arrive_spends _ _ _)
      generalize (blockPlan _ _ _ _ _ _ _).2 = compiled
      cases compiled with
      | none => exact interpretStep_spends _ _ _ _
      | some pcode => exact landBlock_spends pcode

/-- The rounds that a condition on compiled code concerns: those at the entry of a block
with the JIT on. -/
def RoundUnmixed (translates : ω → Bool) (v : Vm σ ω) : Prop :=
  ∀ id after block, v.place = .running id 0 → v.jit.after = some after →
    v.code.blocks[id]? = some block → Unmixed translates v id after block

/-- **A round of the block loop keeps the meter**, compiled code or not. -/
theorem round_metered (h : Cpu.Metered lo hi v.cpu) (hhi : hi < 2 ^ 64)
    (hmixed : RoundUnmixed translates v) (x : Choice) :
    Cpu.Metered lo hi (v.round M translates x).cpu := by
  rw [round]
  cases hplace : v.place with
  | left at? => exact h
  | running id offset =>
    dsimp only
    cases hblock : v.code.blocks[id]? with
    | none => exact h.spends ⟨rfl, rfl, le_rfl⟩
    | some block =>
      dsimp only
      -- a breakpoint takes fuel away, so that the block stops in front of it
      have hstop : Cpu.Metered lo hi (v.stopAtBreakpoint block offset) := by
        rw [stopAtBreakpoint]
        repeat' split
        exacts [h.updateFuel hhi (min_le_left _ _), h, h]
      have hplain : Cpu.Metered lo hi
          (plainRound M x { v with cpu := v.stopAtBreakpoint block offset } block id
            offset).cpu :=
        hstop.spends ((interpretStep_spends _ _ _ _).trans (arrive_spends _ _ _))
      cases hafter : v.jit.after with
      | none => exact hplain
      | some after =>
        dsimp only
        split_ifs with hentry
        · obtain ⟨rfl, -, -⟩ := hentry
          exact jitRound_metered hstop hhi (hmixed id after block hplace hafter hblock)
        · exact hplain

end Vm

end WebTos
