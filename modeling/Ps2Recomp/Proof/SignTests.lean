import Ps2Recomp.Proof.Loads

/-!
# Branches on the sign of a register

`conditionalBranchExpression` reads the low word for the branches on a sign (`GPR_S32`), while `SLT`
and `BEQ` read the doubleword (`GPR_S64` and `GPR_U64`). The two agree on a register whose word has
the sign of the doubleword and is zero only with it.
-/

namespace Ps2Recomp.SignTests

open Memory (Devices)

/-- The emitted condition of a branch. -/
def condition (e : ControlFlowEmitter) (inst : Instruction) : Cond :=
  ({ e with branchInst := inst } : ControlFlowEmitter).conditionalBranchExpression

/-- `BLTZ`, `BLTZL`, `BLTZAL` and `BLTZALL`. -/
def isLtz (inst : Instruction) : Prop :=
  inst.opcode = .regimm ∧ inst.rt ∈ [regimmBltz, regimmBltzl, regimmBltzal, regimmBltzall]

/-- `BGEZ`, `BGEZL`, `BGEZAL` and `BGEZALL`. -/
def isGez (inst : Instruction) : Prop :=
  inst.opcode = .regimm ∧ inst.rt ∈ [regimmBgez, regimmBgezl, regimmBgezal, regimmBgezall]

/-- `BLEZ` and `BLEZL`. -/
def isLez (inst : Instruction) : Prop := inst.opcode = .blez ∨ inst.opcode = .blezl

/-- `BGTZ` and `BGTZL`. -/
def isGtz (inst : Instruction) : Prop := inst.opcode = .bgtz ∨ inst.opcode = .bgtzl

/-- `SLT rd, rs, $zero`. -/
def sltZero (rs rd : Reg) : Instruction := { opcode := .special, function := 0x2A, rs := rs, rd := rd }

/-- `BEQ rs, $zero`. -/
def beqZero (rs : Reg) : Instruction := { opcode := .beq, rs := rs }

variable {ρ : Type} {D : Type}

/-- The branches on the sign of `rs` agree with `SLT` and with `BEQ`. -/
structure Agree (m : Machine ρ) (e : ControlFlowEmitter) (rs : Reg) (c : Ctx ρ) : Prop where
  ltz : ∀ inst, isLtz inst → inst.rs = rs → ∀ rd, rd ≠ 0 → ∀ hint,
    ((condition e inst).eval c = true ↔ (m.exec (sltZero rs rd) hint c).gprU64 rd = 1)
  gez : ∀ inst, isGez inst → inst.rs = rs → ∀ rd, rd ≠ 0 → ∀ hint,
    ((condition e inst).eval c = true ↔ ¬(m.exec (sltZero rs rd) hint c).gprU64 rd = 1)
  lez : ∀ inst, isLez inst → inst.rs = rs → ∀ rd, rd ≠ 0 → ∀ hint,
    ((condition e inst).eval c = true ↔ (m.exec (sltZero rs rd) hint c).gprU64 rd = 1 ∨
      (condition e (beqZero rs)).eval c = true)
  gtz : ∀ inst, isGtz inst → inst.rs = rs → ∀ rd, rd ≠ 0 → ∀ hint,
    ((condition e inst).eval c = true ↔ ¬((m.exec (sltZero rs rd) hint c).gprU64 rd = 1 ∨
      (condition e (beqZero rs)).eval c = true))

/-! ### The emitted conditions -/

section

variable {e : ControlFlowEmitter} {inst : Instruction} {c : Ctx ρ}

theorem ltz_iff (h : isLtz inst) : (condition e inst).eval c = true ↔ (c.gprU32 inst.rs).msb = true := by
  obtain ⟨hop, hrt⟩ := h
  have hcond : condition e inst = .ltzS32 inst.rs := by
    unfold condition ControlFlowEmitter.conditionalBranchExpression
    dsimp only
    rw [hop]
    exact if_pos (by simpa using hrt)
  rw [hcond, Cond.eval, decide_eq_true_iff, BitVec.msb_eq_toInt, decide_eq_true_iff]

theorem gez_iff (h : isGez inst) : (condition e inst).eval c = true ↔ ¬(c.gprU32 inst.rs).msb = true := by
  obtain ⟨hop, hrt⟩ := h
  have hcond : condition e inst = .gezS32 inst.rs := by
    unfold condition ControlFlowEmitter.conditionalBranchExpression
    dsimp only
    rw [hop]
    have hltz : ¬(inst.rt = regimmBltz ∨ inst.rt = regimmBltzl ∨ inst.rt = regimmBltzal ∨ inst.rt = regimmBltzall) := by
      simp only [List.mem_cons, List.not_mem_nil, or_false] at hrt
      rcases hrt with h | h | h | h <;> rw [h] <;> decide
    dsimp only
    rw [if_neg hltz]
    exact if_pos (by simpa using hrt)
  rw [hcond, Cond.eval, decide_eq_true_iff, BitVec.msb_eq_toInt, decide_eq_true_iff]
  exact Int.not_lt.symm

theorem lez_iff (h : isLez inst) :
    (condition e inst).eval c = true ↔ (c.gprU32 inst.rs).msb = true ∨ c.gprU32 inst.rs = 0 := by
  have hcond : condition e inst = .lezS32 inst.rs := by
    unfold condition ControlFlowEmitter.conditionalBranchExpression
    dsimp only
    rcases h with hop | hop <;> rw [hop]
  have hzero : (c.gprU32 inst.rs).toInt = 0 ↔ c.gprU32 inst.rs = 0 :=
    ⟨fun h => BitVec.eq_of_toInt_eq h, fun h => by rw [h]; rfl⟩
  rw [hcond, Cond.eval, decide_eq_true_iff, BitVec.msb_eq_toInt, decide_eq_true_iff, ← hzero]
  omega

theorem gtz_iff (h : isGtz inst) : (condition e inst).eval c = true ↔
    ¬((c.gprU32 inst.rs).msb = true ∨ c.gprU32 inst.rs = 0) := by
  have hcond : condition e inst = .gtzS32 inst.rs := by
    unfold condition ControlFlowEmitter.conditionalBranchExpression
    dsimp only
    rcases h with hop | hop <;> rw [hop]
  have hzero : (c.gprU32 inst.rs).toInt = 0 ↔ c.gprU32 inst.rs = 0 :=
    ⟨fun h => BitVec.eq_of_toInt_eq h, fun h => by rw [h]; rfl⟩
  rw [hcond, Cond.eval, decide_eq_true_iff, BitVec.msb_eq_toInt, decide_eq_true_iff, ← hzero]
  omega

theorem beqZero_iff (rs : Reg) : (condition e (beqZero rs)).eval c = true ↔ c.gprU64 rs = 0 := by
  have hcond : condition e (beqZero rs) = .eqU64 rs 0 := rfl
  rw [hcond, Cond.eval, beq_iff_eq]
  rfl

end

variable {d : Devices D} {outside : Instruction → MemoryAccessHint → Statement (Core D)}
  {leaves : Instruction → Bool}

/-- `SLT rd, rs, $zero` writes the sign of the doubleword. -/
theorem sltZero_iff {rs rd : Reg} (hrd : rd ≠ 0) (hint : MemoryAccessHint) (c : Ctx (Excepting (Core D))) :
    ((Core.bus d outside leaves).machine.exec (sltZero rs rd) hint c).gprU64 rd = 1 ↔ (c.gprU64 rs).msb = true := by
  have hexec : ((Core.bus d outside leaves).machine.exec (sltZero rs rd) hint c).gprU64 rd =
      (c.setGprU64 rd (flag ((c.gprU64 rs).slt 0))).gprU64 rd := rfl
  have hneg : (c.gprU64 rs).slt 0 = (c.gprU64 rs).msb := BitVec.slt_zero_eq_msb
  rw [hexec, Ctx.gprU64_setGprU64, if_pos ⟨rfl, hrd⟩, hneg, flag]
  split
  · exact iff_of_true rfl ‹_›
  · exact iff_of_false (by decide) ‹_›

/-- **The branches on a sign agree with the comparisons** exactly when the low word of the register
has the sign of the doubleword and is zero only with it. -/
theorem sign_tests_agree_iff (d : Devices D)
    (outside : Instruction → MemoryAccessHint → Statement (Core D)) (leaves : Instruction → Bool)
    (e : ControlFlowEmitter) (rs : Reg) (c : Ctx (Excepting (Core D))) :
    Agree (Core.bus d outside leaves).machine e rs c ↔
      ((c.gprU64 rs).setWidth 32).msb = (c.gprU64 rs).msb ∧ ((c.gprU64 rs).setWidth 32 = 0 → c.gprU64 rs = 0) := by
  rw [← Ctx.gprU32_eq]
  constructor
  · intro h
    have hsign : (c.gprU32 rs).msb = true ↔ (c.gprU64 rs).msb = true := by
      have hop : isLtz { opcode := .regimm, rs := rs } := ⟨rfl, List.mem_cons_self⟩
      have hbltz := h.ltz { opcode := .regimm, rs := rs } hop rfl 2 (by decide) none
      rwa [ltz_iff hop, sltZero_iff (by decide)] at hbltz
    refine ⟨Bool.eq_iff_iff.mpr hsign, fun hlow => ?_⟩
    have hblez := h.lez { opcode := .blez, rs := rs } (.inl rfl) rfl 2 (by decide) none
    rw [lez_iff (.inl rfl), sltZero_iff (by decide), beqZero_iff] at hblez
    refine (hblez.mp (.inr hlow)).resolve_left fun hneg => ?_
    have hmsb := hsign.mpr hneg
    rw [hlow] at hmsb
    cases hmsb
  · rintro ⟨hsign, hzero⟩
    have hlow : c.gprU32 rs = 0 ↔ c.gprU64 rs = 0 :=
      ⟨hzero, fun h => by rw [Ctx.gprU32_eq, h]; rfl⟩
    constructor
    · rintro inst hinst rfl rd hrd hint
      rw [ltz_iff hinst, sltZero_iff hrd, hsign]
    · rintro inst hinst rfl rd hrd hint
      rw [gez_iff hinst, sltZero_iff hrd, hsign]
    · rintro inst hinst rfl rd hrd hint
      rw [lez_iff hinst, sltZero_iff hrd, beqZero_iff, hsign, hlow]
    · rintro inst hinst rfl rd hrd hint
      rw [gtz_iff hinst, sltZero_iff hrd, beqZero_iff, hsign, hlow]

/-- An emitter for a program without functions. -/
def plainEmitter : ControlFlowEmitter where
  gen := { analyzer := ⟨[], []⟩ }
  branchInst := {}
  delaySlot := {}
  analysisResult := {}

/-- **A doubleword with a sign of its own**: `BLTZ` does not branch where `SLT` writes 1. -/
theorem wide_sign_not_tested : ¬∀ (rs : Reg) (c : Ctx (Excepting (Core Unit))),
    Agree (Core.bus Memory.quiet (fun _ _ c => c) fun _ => false).machine plainEmitter rs c := by
  intro h
  have hop : isLtz { opcode := .regimm, rs := 1 } := ⟨rfl, List.mem_cons_self⟩
  have hwide := (h 1 (Loads.signed.setGprU64 1 0x8000000000000000)).ltz
    { opcode := .regimm, rs := 1 } hop rfl 2 (by decide) none
  rw [ltz_iff hop, sltZero_iff (by decide)] at hwide
  have hsigned : ((Loads.signed.setGprU64 1 0x8000000000000000).gprU64 1).msb = true := by
    decide +kernel
  have hlow : ((Loads.signed.setGprU64 1 0x8000000000000000).gprU32 1).msb = false := by
    decide +kernel
  have hbranch := hwide.mpr hsigned
  rw [hlow] at hbranch
  cases hbranch

end Ps2Recomp.SignTests
