import Ps2Recomp.Proof.Plan
import Ps2Recomp.Spec.Recompiler

/-!
# The blocks of an emitted function

The emission loop writes one block of code for every instruction, and one for a branch
together with its delay slot. `blocks` lists them with the state the loop is in there;
`emit_eq` puts the function together from them.

* `blocks_addresses`: the blocks cover the decoded instructions, each once and in order.
* `mem_blocks`: what a block takes from the instruction list.
-/

namespace Ps2Recomp

/-! ## What replaces a delay slot -/

/-- The statements that stand for an instruction in a delay slot. -/
def Stmt.runsInSlot : Stmt → Bool
  | .instr _ _ | .capture _ _ _ | .kick _ => true
  | _ => false

/-- A delay slot is replaced by slot statements only. -/
def ControlFlowEmitter.OverrideOk (e : ControlFlowEmitter) : Prop :=
  ∀ st ∈ e.delaySlotOverride, st.runsInSlot = true

theorem ControlFlowEmitter.delaySlotCode_runsInSlot {e : ControlFlowEmitter} (ho : e.OverrideOk) :
    ∀ st ∈ e.delaySlotCode, st.runsInSlot = true := by
  unfold delaySlotCode
  split
  · simp
  · split
    · exact ho
    · simp [Stmt.runsInSlot]

/-! ## The statements of a branch -/

namespace ControlFlowEmitter

variable {e : ControlFlowEmitter}

theorem emitDelaySlot_stmts : ∀ st ∈ e.emitDelaySlot, st.runsInSlot = false ∨ st ∈ e.delaySlotCode := by
  unfold emitDelaySlot
  split
  · simp
  · intro st hst
    simp only [List.mem_append, List.mem_cons, List.not_mem_nil, or_false] at hst
    rcases hst with ((rfl | rfl | rfl) | h) | rfl
    · exact .inl rfl
    · exact .inl rfl
    · exact .inl rfl
    · exact .inr h
    · exact .inl rfl

theorem emitInternalTarget_stmts (t source : Word) : ∀ st ∈ e.emitInternalTarget t source, st.runsInSlot = false := by
  unfold emitInternalTarget
  split <;> simp [Stmt.runsInSlot]

theorem emitTaken_stmts : ∀ st ∈ e.emitTaken, st.runsInSlot = false := by
  unfold emitTaken
  dsimp only
  split
  · exact emitInternalTarget_stmts _ _
  · simp [Stmt.runsInSlot]

theorem emitStaticJump_stmts (isCall : Bool) :
    ∀ st ∈ e.emitStaticJump isCall, st.runsInSlot = false ∨ st ∈ e.delaySlotCode := by
  unfold emitStaticJump
  dsimp only
  intro st hst
  rcases List.mem_append.1 hst with hst | hst
  · rcases List.mem_append.1 hst with hst | hst
    · left
      split at hst
      · rw [List.mem_singleton.1 hst]
        rfl
      · cases hst
    · exact emitDelaySlot_stmts st hst
  · left
    revert hst
    split
    · exact emitInternalTarget_stmts _ _ st
    · split
      · split <;> simp +contextual [Stmt.runsInSlot, or_imp]
      · split <;> simp +contextual [Stmt.runsInSlot, or_imp]

theorem emitRegisterJump_stmts (isCall : Bool) :
    ∀ st ∈ (e.emitRegisterJump isCall).flatMap BlockItem.stmts, st.runsInSlot = false ∨ st ∈ e.delaySlotCode := by
  unfold emitRegisterJump
  dsimp only
  intro st hst
  simp only [List.flatMap_append, List.mem_append, List.flatMap_map, BlockItem.stmts] at hst
  rcases hst with ((((h | h) | h) | h) | h) | h
  · left
    revert h
    simp +contextual [BlockItem.stmts, Stmt.runsInSlot]
  · left
    revert h
    split <;> simp +contextual [BlockItem.stmts, Stmt.runsInSlot]
  · exact emitDelaySlot_stmts st (by simpa using h)
  · left
    revert h
    simp +contextual [BlockItem.stmts, Stmt.runsInSlot]
  · split at h <;> simp [BlockItem.stmts] at h
  · left
    revert h
    split
    · simp +contextual [BlockItem.stmts, Stmt.runsInSlot]
    · split <;> simp +contextual [BlockItem.stmts, Stmt.runsInSlot, or_imp]

theorem emitConditionalBranch_stmts :
    ∀ st ∈ e.emitConditionalBranch.flatMap BlockItem.stmts, st.runsInSlot = false ∨ st ∈ e.delaySlotCode := by
  have hlink : ∀ st ∈ (if e.linksIfTaken then [Stmt.setGprU32 31 e.fallthroughPc] else []), st.runsInSlot = false := by
    split <;> simp [Stmt.runsInSlot]
  unfold emitConditionalBranch
  dsimp only
  intro st hst
  simp only [List.flatMap_append, List.mem_append] at hst
  rcases hst with (h | h) | h
  · left
    revert h
    simp +contextual [BlockItem.stmts, Stmt.runsInSlot]
  · left
    revert h
    split <;> simp +contextual [BlockItem.stmts, Stmt.runsInSlot]
  · split at h
    · simp only [List.flatMap_cons, List.flatMap_nil, List.append_nil, BlockItem.stmts, List.mem_append] at h
      rcases h with (h | h) | h
      · exact .inl (hlink st h)
      · exact emitDelaySlot_stmts st h
      · exact .inl (emitTaken_stmts st h)
    · simp only [List.flatMap_append, List.mem_append, List.flatMap_map, BlockItem.stmts,
        List.flatMap_cons, List.flatMap_nil, List.append_nil] at h
      rcases h with (h | h) | h
      · left
        revert h
        split <;> simp +contextual [BlockItem.stmts, Stmt.runsInSlot]
      · exact emitDelaySlot_stmts st (by simpa using h)
      · exact .inl (emitTaken_stmts st h)

/-- **The statements of a branch**: control flow, and what stands for its delay slot. Only
an instruction that is no branch is translated itself. -/
theorem emit_stmts : ∀ st ∈ e.emit.flatMap Item.stmts,
    st.runsInSlot = false ∨ st ∈ e.delaySlotCode ∨ st = .instr e.branchInst none := by
  have hmap : ∀ l : List Stmt, (l.map Item.stmt).flatMap Item.stmts = l := by
    intro l
    rw [List.flatMap_map]
    simp [Item.stmts]
  intro st hst
  unfold emit at hst
  simp only [List.flatMap_append, List.mem_append] at hst
  rcases hst with (((h | h) | h) | h) | h
  · unfold emitResumeFromDelaySlotEntry at h
    split at h
    · cases h
    · simp only [List.flatMap_cons, List.flatMap_nil, List.append_nil, Item.stmts, List.mem_append] at h
      rcases h with h | h
      · exact (emitDelaySlot_stmts st h).imp_right .inl
      · left
        revert h
        simp +contextual [Stmt.runsInSlot, or_imp]
  · left
    revert h
    simp +contextual [Item.stmts, Stmt.runsInSlot]
  · unfold emitTransfer at h
    split at h
    · rw [hmap] at h
      exact (emitStaticJump_stmts _ st h).imp_right .inl
    · split at h
      · simp only [List.flatMap_cons, List.flatMap_nil, List.append_nil, Item.stmts] at h
        exact (emitRegisterJump_stmts _ st h).imp_right .inl
      · split at h
        · simp only [List.flatMap_cons, List.flatMap_nil, List.append_nil, Item.stmts] at h
          exact (emitConditionalBranch_stmts st h).imp_right .inl
        · rw [hmap] at h
          rcases List.mem_cons.1 h with h | h
          · exact .inr (.inr h)
          · exact (emitDelaySlot_stmts st h).imp_right .inl
  · unfold emitFallthroughLabelIfNeeded at h
    split at h <;> simp [Item.stmts] at h
  · left
    revert h
    simp +contextual [Item.stmts, Stmt.runsInSlot]

end ControlFlowEmitter

theorem emitGifDmaCapture_runsInSlot (plan : GifDmaKickPlan) (slot : Option (Fin 4)) :
    ∀ st ∈ emitGifDmaCapture plan slot, st.runsInSlot = true := by
  unfold emitGifDmaCapture
  split
  · simp
  · split
    · simp [Stmt.runsInSlot]
    · simp

/-! ## Blocks -/

namespace FunctionEmitter

/-- One round of the emission loop. -/
structure Block where
  index : ℕ
  inst : Instruction
  /-- The delay slot of a branch, if it was decoded. -/
  delaySlot : Option Instruction
  /-- The constants at a plain instruction, before it. -/
  constants : ConstantRegisterState
  /-- The plan the round follows. -/
  plan : GifDmaKickPlan

namespace Block

variable (cg : CodeGenerator) (ar : AnalysisResult) (b : Block)

/-- The delay slot as it is emitted. -/
def slot : Instruction := b.delaySlot.getD (makeSyntheticDelaySlot (b.inst.address + 4))

/-- The branch of a block. -/
def emitter : ControlFlowEmitter :=
  branchEmitter cg ar b.index b.inst b.slot b.delaySlot.isSome b.plan

/-- The addresses of the instructions in the block. -/
def addresses : List Word := b.inst.address :: (b.delaySlot.map (·.address)).toList

/-- The labels of a block and the hook before it. -/
def head : List Item :=
  labelFor ar b.inst.address ++ hookBefore cg b.inst.address ++
    if b.delaySlot.isSome then labelFor ar b.slot.address else []

/-- The code of a block after its labels and its hook. -/
def core : List Item :=
  if b.inst.hasDelaySlot then (b.emitter cg ar).emit
  else emitPlain cg b.index b.inst b.constants b.plan

/-- The code of a block. -/
def code : List Item := b.head cg ar ++ b.core cg ar

end Block

theorem Block.overrideOk (cg : CodeGenerator) (ar : AnalysisResult) (b : Block) : (b.emitter cg ar).OverrideOk := by
  unfold ControlFlowEmitter.OverrideOk Block.emitter branchEmitter gifDmaDelaySlotOverride
  dsimp only
  intro st hst
  split at hst
  · rcases List.mem_append.1 hst with h | h
    · exact emitGifDmaCapture_runsInSlot _ _ st h
    · rw [List.mem_singleton] at h
      rw [h]
      rfl
  · cases hst

variable (cg : CodeGenerator) (fn : Function) (instructions : List Instruction)

/-- The rounds of the emission loop. -/
def blocksFrom (ar : AnalysisResult) : ℕ → List Instruction → EmitState → List Block
  | _, [], _ => []
  | i, inst :: rest, st =>
    if inst.hasDelaySlot then
      match rest with
      | delaySlot :: rest' =>
        if delaySlot.address = inst.address + 4 then
          ⟨i, inst, some delaySlot, st.constants, st.plan⟩ ::
            blocksFrom ar (i + 2) rest' { plan := planAfterBranch i true st.plan }
        else
          ⟨i, inst, none, st.constants, st.plan⟩ ::
            blocksFrom ar (i + 1) (delaySlot :: rest') { plan := planAfterBranch i false st.plan }
      | [] => [⟨i, inst, none, st.constants, st.plan⟩]
    else
      let k := constantsAt ar inst st.constants
      let plan := currentPlan instructions ar i { st with constants := k }
      ⟨i, inst, none, k, plan⟩ :: blocksFrom ar (i + 1) rest (stateAfterPlain i inst k plan)

/-- The blocks of a function. -/
def blocks : List Block :=
  blocksFrom instructions (analysisResult cg fn instructions) 0 instructions {}

theorem emitFrom_eq (ar : AnalysisResult) (i : ℕ) (rest : List Instruction) (st : EmitState) :
    emitFrom cg instructions ar i rest st = (blocksFrom instructions ar i rest st).flatMap (Block.code cg ar) := by
  fun_induction blocksFrom instructions ar i rest st with
  | case1 => simp [emitFrom]
  | case2 i inst st hd d rest' ha ih =>
    rw [emitFrom]
    simp only [hd, ha, if_true, ih, List.flatMap_cons]
    simp [Block.code, Block.head, Block.core, Block.emitter, Block.slot, hd, emitBranch]
  | case3 i inst st hd d rest' ha ih =>
    rw [emitFrom]
    simp only [hd, ha, if_true, if_false, ih, List.flatMap_cons]
    simp [Block.code, Block.head, Block.core, Block.emitter, Block.slot, hd, emitBranch]
  | case4 i inst st hd =>
    simp [emitFrom, hd, Block.code, Block.head, Block.core, Block.emitter, Block.slot, emitBranch]
  | case5 i inst rest st hd k plan ih =>
    rw [emitFrom.eq_def]
    simp only [hd, if_false, Bool.false_eq_true, List.flatMap_cons]
    simp [Block.code, Block.head, Block.core, hd, ih, k, plan]

/-- The store of the end address after the last instruction. -/
def emitEnd : List Item := if endsInBranch instructions then [] else [.stmt (.setPc fn.endAddr)]

theorem emit_eq : emit cg fn instructions =
    emitEntry cg fn instructions ++
      (blocks cg fn instructions).flatMap (Block.code cg (analysisResult cg fn instructions)) ++
      emitEnd fn instructions := by
  rw [emit, emitFrom_eq]; rfl

/-- **The blocks cover the instructions**, each once and in order. -/
theorem blocksFrom_addresses (ar : AnalysisResult) (i : ℕ) (rest : List Instruction) (st : EmitState) :
    (blocksFrom instructions ar i rest st).flatMap Block.addresses = rest.map (·.address) := by
  fun_induction blocksFrom instructions ar i rest st with
  | case1 => rfl
  | case2 i inst st hd d rest' ha ih => simp [Block.addresses, ih]
  | case3 i inst st hd d rest' ha ih => simp [Block.addresses, ih]
  | case4 i inst st hd => simp [Block.addresses]
  | case5 i inst rest st hd k plan ih => simp [Block.addresses, ih, k, plan]

/-- What a block of the list `rest` at offset `i` is made of. -/
structure Block.From (i : ℕ) (rest : List Instruction) (b : Block) : Prop where
  le : i ≤ b.index
  inst : rest[b.index - i]? = some b.inst
  slot : ∀ d, b.delaySlot = some d → b.inst.hasDelaySlot = true ∧
    rest[b.index + 1 - i]? = some d ∧ d.address = b.inst.address + 4

variable {rest : List Instruction}

theorem Block.From.cons {i n : ℕ} {b : Block} (front : List Instruction)
    (h : b.From (i + n) rest) (hn : front.length = n) : b.From i (front ++ rest) := by
  have hle := h.le
  refine ⟨by omega, ?_, fun d hd => ⟨(h.slot d hd).1, ?_, (h.slot d hd).2.2⟩⟩
  · rw [List.getElem?_append_right (by omega), hn, show b.index - i - n = b.index - (i + n) by omega]
    exact h.inst
  · rw [List.getElem?_append_right (by omega), hn,
      show b.index + 1 - i - n = b.index + 1 - (i + n) by omega]
    exact (h.slot d hd).2.1

section

variable {ar : AnalysisResult} {b : Block}

section

variable {i : ℕ} {st : EmitState}

theorem mem_blocksFrom (hb : b ∈ blocksFrom instructions ar i rest st) : b.From i rest := by
  fun_induction blocksFrom instructions ar i rest st with
  | case1 => simp at hb
  | case2 i inst st hd d rest' ha ih =>
    rcases List.mem_cons.1 hb with rfl | hb
    · exact ⟨le_rfl, by simp, fun d' hd' => by cases hd'; exact ⟨hd, by simp, ha⟩⟩
    · exact (ih hb).cons [inst, d] rfl
  | case3 i inst st hd d rest' ha ih =>
    rcases List.mem_cons.1 hb with rfl | hb
    · exact ⟨le_rfl, by simp, fun d' hd' => by cases hd'⟩
    · exact (ih hb).cons [inst] rfl
  | case4 i inst st hd =>
    rw [List.mem_singleton] at hb
    subst hb
    exact ⟨le_rfl, by simp, fun d' hd' => by cases hd'⟩
  | case5 i inst rest st hd k plan ih =>
    rcases List.mem_cons.1 hb with rfl | hb
    · exact ⟨le_rfl, by simp, fun d' hd' => by cases hd'⟩
    · exact (ih hb).cons [inst] rfl

/-- **The plans of the loop** are what `tryBuildGifDmaKickPlan` returns. -/
theorem blocksFrom_plan {P : GifDmaKickPlan → Prop} (h0 : P {})
    (hbuild : ∀ i k, P (tryBuildGifDmaKickPlan instructions i k ar.entryPoints))
    (hst : P st.plan)
    (hb : b ∈ blocksFrom instructions ar i rest st) : P b.plan := by
  have hafter : ∀ i d, ∀ plan, P plan → P (planAfterBranch i d plan) := by
    intro i d plan hp
    unfold planAfterBranch
    split
    · exact h0
    · exact hp
  fun_induction blocksFrom instructions ar i rest st with
  | case1 => simp at hb
  | case2 i inst st hd d rest' ha ih =>
    rcases List.mem_cons.1 hb with rfl | hb
    · exact hst
    · exact ih (hafter _ _ _ hst) hb
  | case3 i inst st hd d rest' ha ih =>
    rcases List.mem_cons.1 hb with rfl | hb
    · exact hst
    · exact ih (hafter _ _ _ hst) hb
  | case4 i inst st hd =>
    rw [List.mem_singleton] at hb
    subst hb
    exact hst
  | case5 i inst rest st hd k plan ih =>
    have hplan : P plan := by
      unfold plan currentPlan
      split
      · exact hst
      · exact hbuild _ _
    rcases List.mem_cons.1 hb with rfl | hb
    · exact hplan
    · refine ih ?_ hb
      unfold stateAfterPlain
      dsimp only
      split
      · exact h0
      · exact hplan

end

section

variable (hb : b ∈ blocksFrom instructions ar 0 instructions {})

include hb

theorem blocksFrom_scanned : b.plan.Scanned instructions ar.entryPoints :=
  blocksFrom_plan instructions (P := fun plan => plan.Scanned instructions ar.entryPoints)
    (fun h => by cases h) (fun _ _ hv => ⟨_, _, tryBuildGifDmaKickPlan_spec hv⟩)
    (fun h => by cases h) hb

/-- **Only the delay slot of a return is replaced.** -/
theorem Block.override_nil (hr : isReturnWithDelaySlot b.inst = false) : (b.emitter cg ar).delaySlotOverride = [] := by
  unfold Block.emitter branchEmitter
  dsimp only
  split
  · rename_i hp
    simp only [Bool.and_eq_true, beq_iff_eq] at hp
    obtain ⟨⟨⟨hv, hc⟩, hbi⟩, -⟩ := hp
    obtain ⟨startIndex, k0, hspec⟩ := blocksFrom_scanned instructions hb hv
    obtain ⟨hidx, -, inst, -, hi, hri, -⟩ := hspec.branch hc
    rw [hidx, Option.some.injEq] at hbi
    have hinst := (mem_blocksFrom instructions hb).inst
    rw [Nat.sub_zero, ← hbi, hi] at hinst
    cases hinst
    rw [hr] at hri
    cases hri
  · rfl

end

end

theorem mem_blocks {b : Block} (hb : b ∈ blocks cg fn instructions) : b.From 0 instructions :=
  mem_blocksFrom instructions hb

theorem Block.From.mem {b : Block} {i : ℕ} (h : b.From i rest) :
    b.inst ∈ rest := List.mem_of_getElem? h.inst

end FunctionEmitter

end Ps2Recomp
