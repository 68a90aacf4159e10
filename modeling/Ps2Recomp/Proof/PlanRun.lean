import Ps2Recomp.Proof.Hints

/-!
# Runs under a kick plan

The code that the emission loop writes while it follows a plan, and its straight runs.

* `rangeCode`, `runTo`: the code of a stretch of instructions, and a run of it.
* `Setting.runTo_sound`: constants that hold at the start hold along the run.
* `Setting.runTo_end`: a run to the last store makes one kick.
* `Setting.kick_values`: the arguments of the kick, slot by slot.
-/

namespace Ps2Recomp

open Goto

/-! ## The stores of a plan -/

variable {inst : Instruction}

section Plan

variable {instructions : List Instruction} {startIndex : ℕ} {internalTargets : List Word}
  {k : ConstantRegisterState} {plan : GifDmaKickPlan}

theorem GifDmaKickPlan.position_le (plan : GifDmaKickPlan) (i : Fin 4) : plan.position i ≤ plan.storeIndices i := by
  unfold GifDmaKickPlan.position
  split
  · omega
  · exact le_rfl

theorem GifDmaKickPlan.position_eq (plan : GifDmaKickPlan) {i : Fin 4} (hi : i < 3) :
    plan.position i = plan.storeIndices i := by
  unfold GifDmaKickPlan.position
  rw [if_neg]
  simp [hi.ne]

section

variable (h : PlanSpec instructions startIndex internalTargets k plan)

include h

theorem PlanSpec.mono : StrictMono plan.storeIndices :=
  fun i i' hlt => (h.before i i' hlt).trans_le (plan.position_le i')

theorem PlanSpec.position_mono {i i' : Fin 4} (hle : i ≤ i') : plan.position i ≤ plan.position i' := by
  rcases hle.lt_or_eq with hlt | rfl
  · exact (plan.position_le i).trans (h.before i i' hlt).le
  · exact le_rfl

theorem PlanSpec.slotFor (i : Fin 4) : plan.slotFor (plan.storeIndices i) = some i := by
  unfold GifDmaKickPlan.slotFor
  obtain ⟨i', hi'⟩ : ∃ i', (List.finRange 4).find?
      (fun slot => plan.storeIndices slot == plan.storeIndices i) = some i' := by
    rw [← Option.isSome_iff_exists, List.find?_isSome]
    exact ⟨i, List.mem_finRange i, by simp⟩
  have heq := List.find?_some hi'
  rw [beq_iff_eq] at heq
  rw [hi', h.mono.injective heq]

end

/-- Loads and stores have no delay slot. -/
def NoSlot (inst : Instruction) : Prop :=
  isDirectMemoryAccess inst = true → inst.hasDelaySlot = false

theorem PlanSpec.noDelaySlot (h : PlanSpec instructions startIndex internalTargets k plan)
    (hd : ∀ inst ∈ instructions, NoSlot inst) {n : ℕ} (hn : startIndex ≤ n) (hn' : n < plan.position 3)
    (hi : instructions[n]? = some inst) : inst.hasDelaySlot = false :=
  (h.plain n hn hn' inst hi).elim (hd inst (List.mem_of_getElem? hi)) id

end Plan

/-- The kicks of a run, the last one first. -/
def State.kicks {ρ : Type} (s : State ρ) : List (Fin 4 → Word) :=
  s.log.filterMap fun e => match e with
    | .kick vs => some vs
    | _ => none

/-! ## The code of a stretch of instructions -/

namespace FunctionEmitter

variable {ρ : Type} {rt : Runtime ρ} {cg : CodeGenerator} {instructions : List Instruction}
  {ar : AnalysisResult} {plan : GifDmaKickPlan} {startIndex : ℕ} {k : ConstantRegisterState}

/-- What the emission loop writes for the instructions from index `i` up to index `j`, when it
comes to `i` with the constants `k` and the plan. -/
def rangeCode (cg : CodeGenerator) (instructions : List Instruction) (ar : AnalysisResult)
    (plan : GifDmaKickPlan) (k : ConstantRegisterState) (i j : ℕ) : List Item :=
  emitFrom cg instructions ar i ((instructions.take j).drop i) ⟨k, plan⟩

/-- A straight run of that code. -/
def runTo (rt : Runtime ρ) (cg : CodeGenerator) (instructions : List Instruction)
    (ar : AnalysisResult) (plan : GifDmaKickPlan) (k : ConstantRegisterState) (s : State ρ)
    (i j : ℕ) : Result ρ :=
  Goto.seq (Item.exec rt) s (rangeCode cg instructions ar plan k i j)

section

variable {i : ℕ} {rest : List Instruction} (hd : inst.hasDelaySlot = false)

include hd

theorem emitFrom_currentPlan {st : EmitState}
    (hp : currentPlan instructions ar i { st with constants := constantsAt ar inst st.constants } =
      plan) (hv : plan.valid = true) :
    emitFrom cg instructions ar i (inst :: rest) st =
      emitFrom cg instructions ar i (inst :: rest) ⟨st.constants, plan⟩ := by
  have hp' : currentPlan instructions ar i ⟨constantsAt ar inst st.constants, plan⟩ = plan := by
    unfold currentPlan
    rw [if_pos hv]
  unfold emitFrom
  dsimp only
  rw [hd, hp, hp']
  rfl

theorem emitFrom_plain (hv : plan.valid = true) (hi : i ≠ plan.endIndex) :
    emitFrom cg instructions ar i (inst :: rest) ⟨k, plan⟩ =
      labelFor ar inst.address ++ hookBefore cg inst.address ++
        (emitPlain cg i inst (constantsAt ar inst k) plan ++
          emitFrom cg instructions ar (i + 1) rest ⟨updateConstantRegisters inst (constantsAt ar inst k), plan⟩) := by
  have hp : currentPlan instructions ar i ⟨constantsAt ar inst k, plan⟩ = plan := by
    unfold currentPlan
    rw [if_pos hv]
  have hc : plan.completesAt i = false := by
    unfold GifDmaKickPlan.completesAt
    simp [hi]
  rw [emitFrom.eq_def]
  dsimp only
  rw [hd, if_neg (by simp), hp]
  unfold stateAfterPlain
  rw [hc, Bool.and_false, if_neg (by simp)]

end

theorem emitFrom_append {l l' : List Instruction} {i : ℕ} (hd : ∀ inst ∈ l, inst.hasDelaySlot = false)
    (hv : plan.valid = true) (hend : i + l.length ≤ plan.endIndex) (k : ConstantRegisterState) :
    ∃ k', emitFrom cg instructions ar i (l ++ l') ⟨k, plan⟩ =
      emitFrom cg instructions ar i l ⟨k, plan⟩ ++ emitFrom cg instructions ar (i + l.length) l' ⟨k', plan⟩ := by
  induction l generalizing i k with
  | nil => exact ⟨k, by simp [emitFrom]⟩
  | cons inst l ih =>
    rw [List.length_cons] at hend
    obtain ⟨k', hk'⟩ := ih (i := i + 1) (fun x hx => hd x (List.mem_cons_of_mem _ hx)) (by omega)
      (updateConstantRegisters inst (constantsAt ar inst k))
    refine ⟨k', ?_⟩
    have hi : i ≠ plan.endIndex := by omega
    have hslot := hd inst List.mem_cons_self
    rw [List.cons_append, emitFrom_plain hslot hv hi, emitFrom_plain hslot hv hi, hk',
      List.length_cons, show i + 1 + l.length = i + (l.length + 1) by omega]
    simp only [List.append_assoc]

theorem slice_append {i n j : ℕ} (hin : i ≤ n) (hnj : n ≤ j) :
    (instructions.take j).drop i = (instructions.take n).drop i ++ (instructions.take j).drop n := by
  have hsplit : instructions.take j = instructions.take n ++ (instructions.take j).drop n := by
    conv_lhs => rw [← List.take_append_drop n (instructions.take j)]
    rw [List.take_take, Nat.min_eq_left hnj]
  by_cases hlen : n ≤ instructions.length
  · conv_lhs => rw [hsplit]
    rw [List.drop_append_of_le_length (by rw [List.length_take]; omega)]
  · rw [List.take_of_length_le (by omega), List.take_of_length_le (by omega),
      List.drop_of_length_le (show instructions.length ≤ n by omega), List.append_nil]

theorem slice_singleton {n : ℕ} (hi : instructions[n]? = some inst) : (instructions.take (n + 1)).drop n = [inst] := by
  obtain ⟨hlen, rfl⟩ := List.getElem?_eq_some_iff.1 hi
  rw [List.take_add_one, List.getElem?_eq_getElem hlen, Option.toList_some,
    List.drop_append_of_le_length (by rw [List.length_take]; omega),
    List.drop_of_length_le (by rw [List.length_take]; omega), List.nil_append]

theorem rangeCode_append {i n j : ℕ} (hin : i ≤ n) (hnj : n ≤ j) (hlen : n ≤ instructions.length)
    (hd : ∀ m, i ≤ m → m < n → ∀ inst, instructions[m]? = some inst → inst.hasDelaySlot = false)
    (hv : plan.valid = true) (hend : n ≤ plan.endIndex) (k : ConstantRegisterState) :
    ∃ k', rangeCode cg instructions ar plan k i j =
      rangeCode cg instructions ar plan k i n ++ rangeCode cg instructions ar plan k' n j := by
  have hl : ((instructions.take n).drop i).length = n - i := by
    rw [List.length_drop, List.length_take, Nat.min_eq_left hlen]
  have hd' : ∀ inst ∈ (instructions.take n).drop i, inst.hasDelaySlot = false := by
    intro inst hm
    obtain ⟨m, hm⟩ := List.mem_iff_getElem?.1 hm
    rw [List.getElem?_drop, List.getElem?_take] at hm
    split at hm
    · exact hd (i + m) (by omega) (by omega) inst hm
    · cases hm
  obtain ⟨k', hk'⟩ : ∃ k', emitFrom cg instructions ar i
      ((instructions.take n).drop i ++ (instructions.take j).drop n) ⟨k, plan⟩ = _ :=
    emitFrom_append hd' hv (by omega) k
  refine ⟨k', ?_⟩
  unfold rangeCode
  rw [slice_append hin hnj, hk', hl, show i + (n - i) = n by omega]

/-! ## One instruction -/

/-- The captured values after the capture of a slot. -/
def captureValues (plan : GifDmaKickPlan) (slot : Option (Fin 4)) (s : State ρ) : Word → Fin 4 → Word :=
  match slot with
  | none => s.kickValue
  | some slot =>
    match plan.captures slot, plan.values slot with
    | some reg, .temp address slot => fun a i =>
      if a = address ∧ i = slot then s.ctx.gprU32 reg else s.kickValue a i
    | _, _ => s.kickValue

/-- The state after the capture of a slot. -/
def capture (plan : GifDmaKickPlan) (slot : Option (Fin 4)) (s : State ρ) : State ρ :=
  { s with kickValue := captureValues plan slot s }

theorem emitGifDmaCapture_run (slot : Option (Fin 4)) (s : State ρ) :
    Goto.seq (Stmt.exec rt) s (emitGifDmaCapture plan slot) = (capture plan slot s, .next) := by
  unfold emitGifDmaCapture capture captureValues
  cases slot with
  | none => rfl
  | some slot =>
    dsimp only
    cases plan.captures slot with
    | none => rfl
    | some reg =>
      cases plan.values slot with
      | literal v => rfl
      | temp address i => rfl

theorem labelFor_run (a : Word) (s : State ρ) : Goto.seq (Item.exec rt) s (labelFor ar a) = (s, .next) := by
  unfold labelFor
  split <;> rfl

variable {kh : ConstantRegisterState}

theorem emitPlain_run_suppressed {n : ℕ} (hs : plan.suppresses n = true) (hn : n ≠ plan.endIndex) (s : State ρ) :
    Goto.seq (Item.exec rt) s (emitPlain cg n inst kh plan) = (capture plan (plan.slotFor n) s, .next) := by
  have hc : plan.completesAt n = false := by
    unfold GifDmaKickPlan.completesAt
    simp [hn]
  unfold emitPlain
  rw [if_pos hs, hc, if_neg (by simp), List.append_nil, Item.seq_map_stmt, emitGifDmaCapture_run]

theorem emitPlain_run {n : ℕ} (hs : plan.suppresses n = false) (hu : Unhooked cg inst.address) (s : State ρ) :
    Goto.seq (Item.exec rt) s (emitPlain cg n inst kh plan) =
      (Stmt.instr inst (resolveMemoryAccessHint inst kh)).exec rt (s.mapCtx (·.setPc inst.address)) := by
  unfold emitPlain
  rw [hs, if_neg (by simp), hookAfter_nil hu, List.append_nil, seq_cons, Item.exec_stmt]
  rw [show (Stmt.setPc inst.address).exec rt s = (s.mapCtx (·.setPc inst.address), .next) from rfl,
    andThen_next, seq_cons, Item.exec_stmt]
  exact andThen_pure _

/-! ## The end of a plan -/

theorem kickArg_capture_congr {s s' : State ρ} (hr : s'.ctx.r = s.ctx.r) (hv : s'.kickValue = s.kickValue)
    (slot : Option (Fin 4)) (v : KickValue) : (capture plan slot s').kickArg v = (capture plan slot s).kickArg v := by
  have hcap : captureValues plan slot s' = captureValues plan slot s := by
    unfold captureValues
    simp only [hv, Ctx.gprU32_congr hr]
  cases v with
  | literal v => rfl
  | temp a i => exact congrFun (congrFun hcap a) i

/-- The last store of a plan, where it is no delay slot. -/
theorem emitPlain_run_last (hs : plan.suppresses plan.endIndex = true) (s : State ρ) :
    (Goto.seq (Item.exec rt) s (emitPlain cg plan.endIndex inst kh plan)).1.kicks =
      (fun j => (capture plan (plan.slotFor plan.endIndex) s).kickArg (plan.values j)) ::
        s.kicks := by
  have hc : plan.completesAt plan.endIndex = true := by
    unfold GifDmaKickPlan.completesAt
    rw [(suppresses_iff.1 hs).1]
    simp
  unfold emitPlain
  rw [if_pos hs, if_pos hc, seq_append, Item.seq_map_stmt, emitGifDmaCapture_run, andThen_next]
  rfl

theorem return_run {e : ControlFlowEmitter} (hret : isReturnWithDelaySlot e.branchInst = true)
    (ho : e.delaySlotOverride = gifDmaDelaySlotOverride plan)
    (hd : e.isInternalTarget e.delayPc = false) (s : State ρ) :
    (Goto.seq (Item.exec rt) s e.emit).1.kicks =
      (fun j => (capture plan (plan.slotFor plan.endIndex) s).kickArg (plan.values j)) ::
        s.kicks := by
  unfold isReturnWithDelaySlot at hret
  simp only [Bool.and_eq_true, beq_iff_eq] at hret
  obtain ⟨⟨⟨hop, hfn⟩, hrs⟩, -⟩ := hret
  have hstatic : e.branchInst.isStaticJump = false := by simp [Instruction.isStaticJump, hop]
  have hjr : e.branchInst.isJr = true := by simp [Instruction.isJr, hop, hfn]
  have hjalr : e.branchInst.isJalr = false := by
    rw [Instruction.isJalr, hop, hfn]
    rfl
  have htargets : e.resolvedLocalIndirectTargets = [] := by
    unfold ControlFlowEmitter.resolvedLocalIndirectTargets
    rw [if_neg]
    rw [Instruction.isIndirectJump, hfn, hrs]
    simp [specialJr, specialJalr]
  have hlen : (e.delaySlotOverride.length != 0) = true := by
    rw [ho]
    simp [gifDmaDelaySlotOverride]
  have hslot : e.emitDelaySlot = [.setPc e.delayPc, .setInDelaySlot true, .setBranchPc e.branchPc] ++
      gifDmaDelaySlotOverride plan ++ [.setInDelaySlot false] := by
    unfold ControlFlowEmitter.emitDelaySlot ControlFlowEmitter.delaySlotCode ControlFlowEmitter.hasRealDelaySlot
    simp only [hlen, Bool.true_or, Bool.not_true, Bool.false_eq_true, if_false, if_true]
    rw [ho]
  have hblock : e.emitRegisterJump false =
      [.stmt (.declJumpTarget 31), .stmt (.setPc e.delayPc), .stmt (.setInDelaySlot true),
        .stmt (.setBranchPc e.branchPc)] ++
      (emitGifDmaCapture plan (plan.slotFor plan.endIndex)).map .stmt ++
      [.stmt (gifDmaKickCall plan), .stmt (.setInDelaySlot false), .stmt .setPcJumpTarget,
        .stmt .setPcJumpTarget, .stmt .ret] := by
    unfold ControlFlowEmitter.emitRegisterJump gifDmaDelaySlotOverride at *
    rw [htargets, hslot, hrs]
    simp
  have hresume : e.emitResumeFromDelaySlotEntry = [] := by
    unfold ControlFlowEmitter.emitResumeFromDelaySlotEntry
    simp [hd]
  have htransfer : e.emitTransfer = [.block (e.emitRegisterJump false)] := by
    unfold ControlFlowEmitter.emitTransfer
    simp [hstatic, hjr, hjalr]
  -- what stands in front of the capture leaves the registers and the captured values alone
  obtain ⟨s', hs', hr, hv, hk⟩ : ∃ s', Goto.seq (BlockItem.exec rt) (s.mapCtx (·.setPc e.branchPc))
      [.stmt (.declJumpTarget 31), .stmt (.setPc e.delayPc), .stmt (.setInDelaySlot true),
        .stmt (.setBranchPc e.branchPc)] = (s', .next) ∧ s'.ctx.r = s.ctx.r ∧
      s'.kickValue = s.kickValue ∧ s'.kicks = s.kicks := ⟨_, rfl, rfl, rfl, rfl⟩
  have hrun : (Goto.seq (BlockItem.exec rt) (s.mapCtx (·.setPc e.branchPc))
      (e.emitRegisterJump false)).1.kicks =
        (fun j => (capture plan (plan.slotFor plan.endIndex) s').kickArg (plan.values j)) ::
          s'.kicks ∧
      (Goto.seq (BlockItem.exec rt) (s.mapCtx (·.setPc e.branchPc)) (e.emitRegisterJump false)).2 = .exit .ret := by
    rw [hblock, seq_append, seq_append, hs', andThen_next, BlockItem.seq_map_stmt, emitGifDmaCapture_run, andThen_next]
    exact ⟨rfl, rfl⟩
  unfold ControlFlowEmitter.emit
  rw [hresume, htransfer, List.nil_append, List.append_assoc, List.append_assoc, List.cons_append,
    List.cons_append, List.nil_append, List.nil_append, seq_cons, Item.exec_stmt,
    show (Stmt.setPc e.branchPc).exec rt s = (s.mapCtx (·.setPc e.branchPc), .next) from rfl,
    andThen_next, seq_cons, Item.exec_block]
  generalize Goto.seq (BlockItem.exec rt) (s.mapCtx (·.setPc e.branchPc)) (e.emitRegisterJump false) = r at hrun
  obtain ⟨t, f⟩ := r
  obtain ⟨hkicks, rfl⟩ := hrun
  rw [andThen_exit, hkicks, hk]
  congr 1
  funext j
  exact kickArg_capture_congr hr hv _ _

/-! ## Runs under a plan -/

/-- A plan of a scan, in code without hooks. -/
structure Setting (rt : Runtime ρ) (cg : CodeGenerator) (instructions : List Instruction)
    (ar : AnalysisResult) (startIndex : ℕ) (k : ConstantRegisterState) (plan : GifDmaKickPlan) :
    Prop where
  valid : plan.valid = true
  spec : PlanSpec instructions startIndex ar.entryPoints k plan
  noSlot : ∀ inst ∈ instructions, NoSlot inst
  unhooked : ∀ inst ∈ instructions, Unhooked cg inst.address
  flags : ∀ inst ∈ instructions, FlagsCover rt.toMachine inst

namespace Setting

variable (h : Setting rt cg instructions ar startIndex k plan)

include h

theorem position_lt : plan.position 3 < instructions.length := by
  obtain ⟨inst, hm⟩ := h.spec.matched 3
  obtain ⟨hlen, -⟩ := List.getElem?_eq_some_iff.1 hm.index
  exact lt_of_le_of_lt (plan.position_le 3) hlen

theorem position_le_end : plan.position 3 ≤ plan.endIndex := by
  rw [h.spec.endIndex]
  exact plan.position_le 3

variable {i n : ℕ}

/-- **One more instruction.** -/
theorem runTo_succ (hs : startIndex ≤ i) (hin : i ≤ n) (hn : n < plan.position 3)
    (k' : ConstantRegisterState) (s : State ρ) :
    ∃ inst kh, instructions[n]? = some inst ∧
      runTo rt cg instructions ar plan k' s i (n + 1) =
        andThen (runTo rt cg instructions ar plan k' s i n) fun s =>
          Goto.seq (Item.exec rt) s (emitPlain cg n inst kh plan) := by
  have hlen := h.position_lt
  have hend := h.position_le_end
  obtain ⟨inst, hi⟩ : ∃ inst, instructions[n]? = some inst :=
    ⟨_, List.getElem?_eq_getElem (by omega)⟩
  have hd : ∀ m, i ≤ m → m < n → ∀ inst, instructions[m]? = some inst → inst.hasDelaySlot = false :=
    fun m hm hm' x hx => h.spec.noDelaySlot h.noSlot (by omega) (by omega) hx
  obtain ⟨kn, hkn⟩ : ∃ kn, rangeCode cg instructions ar plan k' i (n + 1) =
      rangeCode cg instructions ar plan k' i n ++ rangeCode cg instructions ar plan kn n (n + 1) :=
    rangeCode_append hin (by omega) (by omega) hd h.valid (by omega) k'
  refine ⟨inst, constantsAt ar inst kn, hi, ?_⟩
  have hone : rangeCode cg instructions ar plan kn n (n + 1) =
      labelFor ar inst.address ++ emitPlain cg n inst (constantsAt ar inst kn) plan := by
    unfold rangeCode
    rw [slice_singleton hi,
      emitFrom_plain (h.spec.noDelaySlot h.noSlot (by omega) hn hi) h.valid (by omega),
      hookBefore_nil (h.unhooked inst (List.mem_of_getElem? hi))]
    simp [emitFrom]
  unfold runTo
  rw [hkn, hone, seq_append]
  congr 1
  funext s
  rw [seq_append, labelFor_run, andThen_next]

omit h in
theorem runTo_self (k' : ConstantRegisterState) (s : State ρ) (i : ℕ) :
    runTo rt cg instructions ar plan k' s i i = (s, .next) := by
  unfold runTo rangeCode
  rw [List.drop_of_length_le (by rw [List.length_take]; omega)]
  rfl

/-- **The loop follows a plan** from where it finds it to its last store. -/
theorem emitFrom_rangeCode (hi : instructions[startIndex]? = some inst) (hlt : startIndex < plan.position 3)
    {st : EmitState}
    (hp : currentPlan instructions ar startIndex { st with constants := constantsAt ar inst st.constants } = plan) :
    ∃ kn, emitFrom cg instructions ar startIndex (instructions.drop startIndex) st =
      rangeCode cg instructions ar plan st.constants startIndex (plan.position 3) ++
        emitFrom cg instructions ar (plan.position 3) (instructions.drop (plan.position 3)) ⟨kn, plan⟩ := by
  have hd : ∀ m, startIndex ≤ m → m < plan.position 3 → ∀ x, instructions[m]? = some x →
      x.hasDelaySlot = false := fun m hm hm' x hx => h.spec.noDelaySlot h.noSlot hm hm' hx
  have hfollow : emitFrom cg instructions ar startIndex (instructions.drop startIndex) st =
      emitFrom cg instructions ar startIndex (instructions.drop startIndex) ⟨st.constants, plan⟩ := by
    obtain ⟨hlen, rfl⟩ := List.getElem?_eq_some_iff.1 hi
    rw [List.drop_eq_getElem_cons hlen]
    exact emitFrom_currentPlan (hd _ le_rfl hlt _ hi) hp h.valid
  have hlen := h.position_lt
  obtain ⟨kn, hkn⟩ : ∃ kn,
      rangeCode cg instructions ar plan st.constants startIndex instructions.length =
        rangeCode cg instructions ar plan st.constants startIndex (plan.position 3) ++
          rangeCode cg instructions ar plan kn (plan.position 3) instructions.length :=
    rangeCode_append hlt.le hlen.le hlen.le hd h.valid h.position_le_end st.constants
  unfold rangeCode at hkn
  rw [List.take_length] at hkn
  exact ⟨kn, hfollow.trans hkn⟩

theorem runTo_induction {i : ℕ} (hs : startIndex ≤ i) (k' : ConstantRegisterState) {s : State ρ}
    {P : ℕ → State ρ → Prop} (h0 : P i s)
    (hstep : ∀ n inst kh t t', i ≤ n → n < plan.position 3 → instructions[n]? = some inst →
      runTo rt cg instructions ar plan k' s i n = (t, .next) → P n t →
      Goto.seq (Item.exec rt) t (emitPlain cg n inst kh plan) = (t', .next) → P (n + 1) t')
    {n : ℕ} (hin : i ≤ n) (hn : n ≤ plan.position 3) {t : State ρ}
    (ht : runTo rt cg instructions ar plan k' s i n = (t, .next)) : P n t := by
  induction n, hin using Nat.le_induction generalizing t with
  | base =>
    rw [runTo_self] at ht
    cases ht
    exact h0
  | succ n hin ih =>
    obtain ⟨inst, kh, hi, hrun⟩ := h.runTo_succ hs hin (by omega) k' s
    rw [hrun] at ht
    obtain ⟨u, hu, ht⟩ := andThen_eq_next ht
    exact hstep n inst kh u t hin (by omega) hi hu (ih (by omega) hu) ht

variable {k' : ConstantRegisterState} {s t : State ρ}

theorem runTo_le {i n m : ℕ} (hs : startIndex ≤ i) (him : i ≤ m) (hmn : m ≤ n) (hn : n ≤ plan.position 3)
    (ht : runTo rt cg instructions ar plan k' s i n = (t, .next)) :
    ∃ u, runTo rt cg instructions ar plan k' s i m = (u, .next) := by
  induction n, hmn using Nat.le_induction generalizing t with
  | base => exact ⟨t, ht⟩
  | succ n hmn ih =>
    obtain ⟨inst, kh, -, hrun⟩ := h.runTo_succ hs (him.trans hmn) (by omega) k' s
    rw [hrun] at ht
    obtain ⟨u, hu, -⟩ := andThen_eq_next ht
    exact ih (by omega) hu

section

variable (hs : startIndex ≤ i) (hin : i ≤ n) (hn : n ≤ plan.position 3)

include hs hin hn

/-- **The constants of the scan hold along a run** that starts with them. -/
theorem runTo_sound {k1 k' : ConstantRegisterState} (hk : Sound k' s.ctx)
    (ht : runTo rt cg instructions ar plan k1 s i n = (t, .next)) :
    Sound (scanConstants instructions i k' n) t.ctx := by
  refine h.runTo_induction hs k1 (P := fun n t => Knows (scanConstants instructions i k' n) t) ?_ ?_ hin hn ht
  · rw [scanConstants_start]
    exact hk
  · intro n inst kh t t' hin hn hi _ hP he
    have hm := List.mem_of_getElem? hi
    have hsw : plan.suppresses n = true → inst.opcode = .sw := fun hsup =>
      GifDmaKickPlan.Scanned.opcode (fun _ => ⟨startIndex, k, h.spec⟩) hsup hi
    have hout : Outline (lang rt) (Knows (scanConstants instructions i k' n))
        (plainOutline ρ cg n inst kh (scanConstants instructions i k' n) plan) _ :=
      emitPlain_outline kh _ (h.flags inst hm) hsw
    have hrun := hout.run hP (by rw [plainOutline_fst]; exact he)
    rw [(h.unhooked inst hm).2, Option.isSome_none, Bool.and_false, if_neg (by simp)] at hrun
    rw [scanConstants_succ hin hi]
    exact hrun

theorem runTo_kicks (ht : runTo rt cg instructions ar plan k' s i n = (t, .next)) : t.kicks = s.kicks := by
  refine h.runTo_induction hs k' (P := fun _ t => t.kicks = s.kicks) rfl ?_ hin hn ht
  intro n inst kh t t' _ hn hi _ hP he
  have hend := h.position_le_end
  cases hsup : plan.suppresses n with
  | true =>
    rw [emitPlain_run_suppressed hsup (by omega)] at he
    cases he
    exact hP
  | false =>
    rw [emitPlain_run hsup (h.unhooked inst (List.mem_of_getElem? hi))] at he
    have hkick := congrArg (fun r : Result ρ => r.1.kicks) he
    exact hkick.symm.trans hP

end

/-! ## The captured values -/

theorem values_cases (j : Fin 4) : (∃ v, plan.values j = .literal v) ∨ ∃ a, plan.values j = .temp a j := by
  obtain ⟨inst, hm⟩ := h.spec.matched j
  have hval := hm.value
  split at hval
  · exact .inl ⟨_, hval⟩
  · exact .inr ⟨_, hval.1⟩

theorem kickArg_capture_of_ne {j j' : Fin 4} (hne : j ≠ j') (s : State ρ) :
    (capture plan (some j') s).kickArg (plan.values j) = s.kickArg (plan.values j) := by
  rcases h.values_cases j with ⟨v, hv⟩ | ⟨a, hv⟩
  · rw [hv]
    rfl
  · rw [hv]
    change captureValues plan (some j') s a j = s.kickValue a j
    unfold captureValues
    dsimp only
    cases plan.captures j' with
    | none => rfl
    | some reg =>
      rcases h.values_cases j' with ⟨v, hv'⟩ | ⟨a', hv'⟩
      · rw [hv']
      · rw [hv']
        dsimp only
        rw [if_neg (fun hc => hne hc.2)]

omit h in
/-- **The argument of a slot is the word its store would store**, right after the capture. -/
theorem kickArg_capture {j : Fin 4} (hm : Matched instructions k' plan j inst) {s : State ρ}
    (hk : ∀ v, k'.read inst.rt = some v → s.ctx.gprU32 inst.rt = v) :
    (capture plan (some j) s).kickArg (plan.values j) = s.ctx.gprU32 inst.rt := by
  have hval := hm.value
  split at hval
  · rename_i v hv
    rw [hval, hk v hv]
    rfl
  · rw [hval.1]
    change captureValues plan (some j) s inst.address j = _
    unfold captureValues
    dsimp only
    rw [hval.1, hval.2]
    dsimp only
    rw [if_pos ⟨rfl, rfl⟩]

/-- The argument of a slot does not change after its store. -/
theorem runTo_kickArg (hs : startIndex ≤ i) {j : Fin 4} (hi : i ≤ plan.storeIndices j) (hjn : plan.storeIndices j < n)
    (hn : n ≤ plan.position 3) {s t u : State ρ}
    (hu : runTo rt cg instructions ar plan k' s i (plan.storeIndices j) = (u, .next))
    (ht : runTo rt cg instructions ar plan k' s i n = (t, .next)) :
    t.kickArg (plan.values j) = (capture plan (some j) u).kickArg (plan.values j) := by
  refine h.runTo_induction hs k' (P := fun n t => plan.storeIndices j < n →
    t.kickArg (plan.values j) = (capture plan (some j) u).kickArg (plan.values j))
    (fun hlt => by omega) ?_ (hi.trans hjn.le) hn ht hjn
  intro n inst kh t t' _ hn hinst htn hP he hlt
  have hend := h.position_le_end
  cases hsup : plan.suppresses n with
  | true =>
    rw [emitPlain_run_suppressed hsup (by omega)] at he
    cases he
    obtain ⟨-, j', rfl⟩ := suppresses_iff.1 hsup
    rw [h.spec.slotFor]
    by_cases hjj : j = j'
    · subst hjj
      rw [hu] at htn
      cases htn
      rfl
    · have hne : plan.storeIndices j ≠ plan.storeIndices j' :=
        fun heq => hjj (h.spec.mono.injective heq)
      rw [h.kickArg_capture_of_ne hjj]
      exact hP (by omega)
  | false =>
    rw [emitPlain_run hsup (h.unhooked inst (List.mem_of_getElem? hinst))] at he
    have hval : t'.kickValue = t.kickValue := congrArg (fun r : Result ρ => r.1.kickValue) he.symm
    have hne : plan.storeIndices j ≠ n := by
      intro heq
      rw [suppresses_iff.2 ⟨h.valid, j, heq⟩] at hsup
      cases hsup
    rw [← hP (by omega)]
    unfold State.kickArg
    rw [hval]

theorem last_kicks (kn : ConstantRegisterState) (t : State ρ) :
    (Goto.seq (Item.exec rt) t
      (rangeCode cg instructions ar plan kn (plan.position 3) (plan.endIndex + 1))).1.kicks =
      (fun j => (capture plan (some 3) t).kickArg (plan.values j)) :: t.kicks := by
  have hslot : plan.slotFor plan.endIndex = some 3 := by rw [h.spec.endIndex, h.spec.slotFor]
  have hnil : ∀ n st, emitFrom cg instructions ar n [] st = [] := fun n st => by rw [emitFrom]
  cases hc : plan.completesInDelaySlot with
  | false =>
    -- the last store stands alone
    have hpos : plan.position 3 = plan.endIndex := by
      unfold GifDmaKickPlan.position
      rw [hc, h.spec.endIndex]
      rfl
    obtain ⟨inst, hm⟩ := h.spec.matched 3
    have hi := hm.index
    rw [← h.spec.endIndex] at hi
    have hmem := List.mem_of_getElem? hi
    have hd : inst.hasDelaySlot = false :=
      h.noSlot inst hmem (by simp [isDirectMemoryAccess, hm.opcode])
    have hcode : rangeCode cg instructions ar plan kn (plan.position 3) (plan.endIndex + 1) =
        labelFor ar inst.address ++ emitPlain cg plan.endIndex inst (constantsAt ar inst kn) plan := by
      unfold rangeCode
      rw [hpos, slice_singleton hi, emitFrom.eq_def]
      dsimp only
      rw [hd, if_neg (by simp), hookBefore_nil (h.unhooked inst hmem), hnil, currentPlan, if_pos h.valid]
      simp
    have hsup : plan.suppresses plan.endIndex = true :=
      suppresses_iff.2 ⟨h.valid, 3, h.spec.endIndex.symm⟩
    rw [hcode, seq_append, labelFor_run, andThen_next, emitPlain_run_last hsup, hslot]
  | true =>
    -- the last store is in the delay slot of a return
    obtain ⟨hbi, hend, inst, d, hi, hret, hdi, hda⟩ := h.spec.branch hc
    have hds : inst.hasDelaySlot = true := by
      unfold isReturnWithDelaySlot at hret
      simp only [Bool.and_eq_true] at hret
      exact hret.2
    have hno : d.address ∉ ar.entryPoints := by
      have h03 := h.spec.before 0 3 (by decide)
      exact h.spec.noLabel (plan.position 3 + 1) (by omega) (by omega) d hdi
    have hslice : (instructions.take (plan.endIndex + 1)).drop (plan.position 3) = [inst, d] := by
      rw [hend, slice_append (show plan.position 3 ≤ plan.position 3 + 1 by omega) (by omega),
        slice_singleton hi, slice_singleton hdi]
      rfl
    have hcode : rangeCode cg instructions ar plan kn (plan.position 3) (plan.endIndex + 1) =
        labelFor ar inst.address ++ (branchEmitter cg ar (plan.position 3) inst d true plan).emit := by
      unfold rangeCode
      rw [hslice, emitFrom.eq_def]
      dsimp only
      rw [if_pos hds, if_pos hda, hookBefore_nil (h.unhooked inst (List.mem_of_getElem? hi)), hnil]
      unfold emitBranch labelFor
      rw [if_pos rfl, if_neg hno]
      simp
    have hoverride : (branchEmitter cg ar (plan.position 3) inst d true plan).delaySlotOverride =
        gifDmaDelaySlotOverride plan := by
      unfold branchEmitter
      simp [h.valid, hc, hbi]
    have hdelay : (branchEmitter cg ar (plan.position 3) inst d true plan).isInternalTarget
        (branchEmitter cg ar (plan.position 3) inst d true plan).delayPc = false := by
      change ar.entryPoints.contains (inst.address + 4) = false
      rw [← hda]
      simpa using hno
    rw [hcode, seq_append, labelFor_run, andThen_next, return_run hret hoverride hdelay, hslot]

/-- **A run to the last store makes one kick.** -/
theorem runTo_end {i : ℕ} (hs : startIndex ≤ i) (hi : i ≤ plan.position 3)
    (ht : runTo rt cg instructions ar plan k' s i (plan.position 3) = (t, .next)) :
    (runTo rt cg instructions ar plan k' s i (plan.endIndex + 1)).1.kicks =
      (fun j => (capture plan (some 3) t).kickArg (plan.values j)) :: s.kicks := by
  have hend := h.position_le_end
  have hd : ∀ m, i ≤ m → m < plan.position 3 → ∀ inst, instructions[m]? = some inst → inst.hasDelaySlot = false :=
    fun m hm hm' x hx => h.spec.noDelaySlot h.noSlot (by omega) hm' hx
  obtain ⟨kn, hkn⟩ : ∃ kn, rangeCode cg instructions ar plan k' i (plan.endIndex + 1) =
      rangeCode cg instructions ar plan k' i (plan.position 3) ++
        rangeCode cg instructions ar plan kn (plan.position 3) (plan.endIndex + 1) :=
    rangeCode_append hi (by omega) h.position_lt.le hd h.valid hend k'
  have hkicks := h.runTo_kicks hs hi le_rfl ht
  unfold runTo at ht ⊢
  rw [hkn, seq_append, ht, andThen_next, h.last_kicks, hkicks]

/-- **The arguments of the kick**, slot by slot: the word its store would have stored, if the
literal was right there. -/
theorem kick_values {i : ℕ} (hs : startIndex ≤ i) (hi : i ≤ plan.storeIndices 0)
    (ht : runTo rt cg instructions ar plan k' s i (plan.position 3) = (t, .next)) {j : Fin 4}
    {kj : ConstantRegisterState} (hm : Matched instructions kj plan j inst)
    {u : State ρ} (hu : runTo rt cg instructions ar plan k' s i (plan.position j) = (u, .next))
    (hk : ∀ v, kj.read inst.rt = some v → u.ctx.gprU32 inst.rt = v) :
    (capture plan (some 3) t).kickArg (plan.values j) = u.ctx.gprU32 inst.rt := by
  rcases slot_cases j with hj | rfl
  · have hbefore := h.spec.before j 3 hj
    have hle : plan.storeIndices 0 ≤ plan.storeIndices j := h.spec.mono.monotone (Fin.zero_le j)
    rw [plan.position_eq hj] at hu
    rw [h.kickArg_capture_of_ne hj.ne, h.runTo_kickArg hs (hi.trans hle) hbefore le_rfl hu ht, kickArg_capture hm hk]
  · rw [ht] at hu
    cases hu
    exact kickArg_capture hm hk

theorem runTo_next (hl : ∀ inst, rt.leaves inst = false) (hs : startIndex ≤ i) (hin : i ≤ n) (hn : n ≤ plan.position 3)
    (k' : ConstantRegisterState) (s : State ρ) : ∃ t, runTo rt cg instructions ar plan k' s i n = (t, .next) := by
  induction n, hin using Nat.le_induction with
  | base => exact ⟨s, runTo_self k' s i⟩
  | succ n hin ih =>
    obtain ⟨inst, kh, hi, hrun⟩ := h.runTo_succ hs hin (by omega) k' s
    obtain ⟨t, ht⟩ := ih (by omega)
    have hend := h.position_le_end
    rw [hrun, ht, andThen_next]
    cases hsup : plan.suppresses n with
    | true => exact ⟨_, emitPlain_run_suppressed hsup (by omega) t⟩
    | false =>
      rw [emitPlain_run hsup (h.unhooked inst (List.mem_of_getElem? hi))]
      unfold Stmt.exec
      dsimp only
      rw [hl inst]
      exact ⟨_, rfl⟩

end Setting

end FunctionEmitter

end Ps2Recomp
