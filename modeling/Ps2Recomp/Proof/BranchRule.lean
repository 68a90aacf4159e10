import Ps2Recomp.Proof.DelaySlot

/-!
# The delay slot rule of the architecture

When the block of a branch follows the delay slot rule (`Instruction.branchStep`).

* `emit_jump`: jumps always do.
* `taken_eq`: most conditional branches are tested as the architecture tests them.
* `outcomesCoincide_of_simulates`: where they are not, a machine that does nothing and a
  register that is negative as a word and positive as a doubleword tell the outcomes apart.
* `Block.simulates_iff`: the block follows the rule, in every state and for every effect of
  the delay slot, exactly when the branch tests neither a sign nor the condition of
  coprocessor 0, or both outcomes coincide.
-/

namespace Ps2Recomp

open Goto

namespace ControlFlowEmitter

variable {ρ : Type} {rt : Runtime ρ} {e : ControlFlowEmitter} {g s : State ρ}

/-! ## The rule of the architecture -/

variable (rt e) in
/-- `code` follows the delay slot rule of the branch, from wherever it is entered: at the
branch, or at its delay slot if something may jump there. -/
def Simulates (code : List Item) : Prop :=
  ∀ (cpcond0 : Bool) (s : State ρ), s.log = [] →
    (s.ctx.pc ≠ e.delayPc →
      Agrees (Goto.seq (Item.exec rt) s code)
        (e.branchInst.branchStep cpcond0 (e.slotRun rt) s)) ∧
    (s.ctx.pc = e.delayPc → e.isInternalTarget e.delayPc = true →
      Agrees (Goto.seq (Item.exec rt) s code) (e.fallthroughPc, e.slotRun rt s))

variable (e) in
/-- The emitter tests something else than the branch does: the condition of coprocessor 0
is taken to be false, and the sign of a register is read off its low word. -/
def misjudges : Bool :=
  e.branchInst.isConditional && (e.branchInst.isCop0Branch || (e.branchInst.testsSign && e.branchInst.rs != 0))

variable (e) in
/-- It makes no difference whether the branch is taken. -/
def outcomesCoincide : Bool :=
  e.branchInst.branchTarget == e.fallthroughPc && !e.linksIfTaken && (!e.branchInst.isLikely || isGuestNop e.delaySlot)

theorem Tracks.start (h : s.log = []) (a : Word) : Tracks s (s.mapCtx (·.setPc a)) := by
  refine ⟨rfl, rfl, ?_⟩
  unfold State.transfers State.mapCtx
  simp [h]

theorem emit_conditional (hok : e.SlotOk rt) (ho : e.OverrideOk)
    (hc : e.branchInst.isConditional = true) (hl : s.log = []) (hpc : s.ctx.pc ≠ e.delayPc) :
    Agrees (Goto.seq (Item.exec rt) s e.emit) (e.emittedStep rt s) := by
  obtain ⟨hj, hjr, hjalr, hb⟩ := isConditional_jumps hc
  rw [emit_run hpc]
  unfold emitTransfer
  simp only [hj, hjr, hjalr, hb, Bool.or_self, Bool.false_eq_true, if_false, if_true, seq_cons,
    seq_nil, Item.exec_block, andThen_pure]
  exact conditional_agrees hok ho hc (Tracks.start hl _) rfl

theorem emit_jump (hok : e.SlotOk rt) (ho : e.OverrideOk)
    (hj : (e.branchInst.isStaticJump || e.branchInst.isJr || e.branchInst.isJalr) = true)
    (hl : s.log = []) (hpc : s.ctx.pc ≠ e.delayPc) (cpcond0 : Bool) :
    Agrees (Goto.seq (Item.exec rt) s e.emit) (e.branchInst.branchStep cpcond0 (e.slotRun rt) s) := by
  have ht := Tracks.start hl e.branchPc
  rw [emit_run hpc]
  unfold emitTransfer Instruction.branchStep Instruction.outcome Instruction.link
  by_cases hs : e.branchInst.isStaticJump = true
  · have hstep := staticJump_agrees hok ho (e.branchInst.opcode == .jal) ht rfl
    have hop : e.branchInst.opcode = .j ∨ e.branchInst.opcode = .jal := by
      simpa [Instruction.isStaticJump] using hs
    rw [if_pos hs, Item.seq_map_stmt]
    rcases hop with hop | hop
    · simpa [hop, Instruction.taken, Instruction.linkRegister, Instruction.transferTarget, hs,
        Instruction.isJalr] using hstep
    · simpa [hop, Instruction.taken, Instruction.linkRegister, Instruction.transferTarget, hs,
        Instruction.isJalr, fallthroughPc] using hstep
  · have hr : (e.branchInst.isJr || e.branchInst.isJalr) = true := by simpa [hs] using hj
    have hop : e.branchInst.opcode = .special := by
      rw [Bool.or_eq_true] at hr
      rcases hr with hr | hr <;> exact (by simpa using (Bool.and_eq_true_iff.1 hr).1)
    have hstep := registerJump_agrees hok ho e.branchInst.isJalr ht rfl
    rw [if_neg hs, if_pos hr]
    simp only [seq_cons, seq_nil, Item.exec_block, andThen_pure]
    cases hja : e.branchInst.isJalr with
    | true =>
      rw [hja] at hstep
      simpa [hop, Instruction.taken, Instruction.linkRegister, Instruction.transferTarget, hs, hr,
        hja, fallthroughPc] using hstep
    | false =>
      have hjr : e.branchInst.isJr = true := by simpa [hja] using hr
      rw [hja] at hstep
      simpa [hop, Instruction.taken, Instruction.linkRegister, Instruction.transferTarget, hs, hjr, hja] using hstep

theorem branchesOnTrue_eq {inst : Instruction} (h : [copBcf, copBct, copBcfl, copBctl].contains inst.rt = true) :
    inst.branchesOnTrue = !(inst.rt == copBcf || inst.rt == copBcfl) := by
  unfold Instruction.branchesOnTrue
  have hrt : inst.rt = copBcf ∨ inst.rt = copBct ∨ inst.rt = copBcfl ∨ inst.rt = copBctl := by
    simpa using h
  rcases hrt with h | h | h | h <;> rw [h] <;> decide

section

variable (hc : e.branchInst.isConditional = true)

include hc

/-- The emitter tests the sign of the low word. -/
theorem signTest_eq (hs : e.branchInst.testsSign = true) (cpcond0 : Bool) (c : Ctx ρ) :
    e.branchInst.taken cpcond0 c = e.branchInst.signTest (c.gprU64 e.branchInst.rs).toInt ∧
      e.conditionalBranchExpression.eval c = e.branchInst.signTest (c.gprU32 e.branchInst.rs).toInt := by
  have ho := (Bool.and_eq_true_iff.1 hc).2
  unfold Instruction.testsSign at hs
  unfold Instruction.taken conditionalBranchExpression Instruction.signTest
  dsimp only
  cases hop : e.branchInst.opcode <;> rw [hop] at ho hs <;> first | (cases hs; done) | skip
  case regimm =>
    have hrt : e.branchInst.rt ∈ [regimmBltz, regimmBgez, regimmBltzl, regimmBgezl, regimmBltzal,
        regimmBgezal, regimmBltzall, regimmBgezall] := List.contains_iff_mem.1 ho
    refine ⟨rfl, ?_⟩
    simp only [List.mem_cons, List.not_mem_nil, or_false] at hrt
    rcases hrt with h | h | h | h | h | h | h | h <;> rw [h] <;> rfl
  all_goals exact ⟨rfl, rfl⟩

theorem isConditional_cop
    (hop : e.branchInst.opcode = .cop0 ∨ e.branchInst.opcode = .cop1 ∨ e.branchInst.opcode = .cop2) :
    e.branchInst.rs = copBc ∧ [copBcf, copBct, copBcfl, copBctl].contains e.branchInst.rt = true := by
  have ho := (Bool.and_eq_true_iff.1 hc).2
  rcases hop with hop | hop | hop <;> rw [hop] at ho <;> simpa using ho

/-- **Where the emitter does not misjudge a branch**, it tests what the branch tests. -/
theorem taken_eq (hm : e.misjudges = false) (cpcond0 : Bool) (c : Ctx ρ) :
    e.branchInst.taken cpcond0 c = e.conditionalBranchExpression.eval c := by
  obtain ⟨hcop, hsign⟩ : e.branchInst.isCop0Branch = false ∧ (e.branchInst.testsSign = true → e.branchInst.rs = 0) := by
    unfold misjudges at hm
    rw [hc] at hm
    simpa using hm
  by_cases hs : e.branchInst.testsSign = true
  · -- register 0 has no upper word
    obtain ⟨h1, h2⟩ := signTest_eq hc hs cpcond0 c
    rw [h1, h2, hsign hs]
    rfl
  · have ho := (Bool.and_eq_true_iff.1 hc).2
    have hb := fun hop => branchesOnTrue_eq (isConditional_cop hc hop).2
    unfold Instruction.testsSign at hs
    unfold Instruction.isCop0Branch at hcop
    unfold Instruction.taken conditionalBranchExpression
    dsimp only
    cases hop : e.branchInst.opcode <;> rw [hop] at ho hs hcop <;>
      first | (cases ho; done) | (cases hcop; done) | exact absurd rfl hs | skip
    case cop1 =>
      have hrs := (isConditional_cop hc (.inr (.inl hop))).1
      simp only [hrs, if_true, hb (.inr (.inl hop))]
      rfl
    case cop2 =>
      have hrs := (isConditional_cop hc (.inr (.inr hop))).1
      simp only [hrs, if_true, hb (.inr (.inr hop))]
      rfl
    all_goals rfl

theorem isLikely_eq (hcop : e.branchInst.isCop0Branch = false) : e.isLikelyBranch = e.branchInst.isLikely := by
  have ho := (Bool.and_eq_true_iff.1 hc).2
  unfold Instruction.isCop0Branch at hcop
  unfold isLikelyBranch Instruction.isLikely
  cases hop : e.branchInst.opcode <;> rw [hop] at ho hcop <;>
    first | cases ho | cases hcop
  case cop1 => rw [(isConditional_cop hc (.inr (.inl hop))).1]; rfl
  case cop2 => rw [(isConditional_cop hc (.inr (.inr hop))).1]; rfl
  case regimm => simp only [List.contains_cons, List.contains_nil, Bool.or_false, Bool.or_assoc]

end

theorem slotRun_nop (ho : e.delaySlotOverride = []) (hn : isGuestNop e.delaySlot = true)
    (s : State ρ) : e.slotRun rt s = s := by
  unfold slotRun delaySlotCode hasRealDelaySlot
  simp [ho, hn]

theorem link_eq_of_not_linksIfTaken (hc : e.branchInst.isConditional = true) (h : e.linksIfTaken = false) (τ τ' : Bool)
    (g : State ρ) : e.branchInst.link τ g = e.branchInst.link τ' g := by
  rw [link_eq hc, link_eq hc, h]
  rfl

/-- **Where both outcomes coincide**, no test matters. -/
theorem outcome_eq (ho : e.delaySlotOverride = []) (hc : e.branchInst.isConditional = true)
    (h : e.outcomesCoincide = true) (g : State ρ) {τ τ' l l' : Bool}
    (hl : e.branchInst.isLikely = false → l = false ∧ l' = false) :
    e.branchInst.outcome (e.slotRun rt) g τ l = e.branchInst.outcome (e.slotRun rt) g τ' l' := by
  unfold outcomesCoincide at h
  simp only [Bool.and_eq_true, beq_iff_eq, Bool.not_eq_true', Bool.or_eq_true] at h
  obtain ⟨⟨htgt, hlink⟩, hslot⟩ := h
  have hpc : ∀ τ : Bool, (if τ then e.branchInst.branchTarget else e.branchInst.address + 8) =
      e.branchInst.address + 8 := by
    intro τ
    rw [htgt]
    exact ite_self _
  unfold Instruction.outcome
  rw [transferTarget_eq hc, hpc, hpc, link_eq_of_not_linksIfTaken hc hlink τ τ' g]
  rcases hslot with hslot | hslot
  · obtain ⟨rfl, rfl⟩ := hl hslot
    simp
  · simp only [slotRun_nop ho hslot, ite_self]

end ControlFlowEmitter

/-! ## A machine that does nothing -/

section Idle

variable (c : Ctx Unit) (inst : Instruction) (hint : MemoryAccessHint)

section

variable (reg : Reg)

@[simp] theorem Ctx.guest_setGprU64 (v : BitVec 64) : (c.setGprU64 reg v).guest = c.guest.setGprU64 reg v := by
  unfold Ctx.setGprU64
  split <;> rfl

@[simp] theorem Ctx.guest_setGprVec (v : BitVec 128) : (c.setGprVec reg v).guest = c.guest.setGprVec reg v := by
  unfold Ctx.setGprVec
  split <;> rfl

@[simp] theorem Ctx.gprU64_guest : c.guest.gprU64 reg = c.gprU64 reg := rfl

@[simp] theorem Ctx.gprU32_guest : c.guest.gprU32 reg = c.gprU32 reg := rfl

end

@[simp] theorem baseAddress_guest : baseAddress inst c.guest = baseAddress inst c := rfl

theorem Runtime.idle_read (w : Nat) (a : Word) : Runtime.idle.read inst hint w a c = (0, c) := rfl

theorem Runtime.idle_write (w : Nat) (a : Word) (v : BitVec 128) : Runtime.idle.write inst hint w a v c = c := rfl

theorem Runtime.idle_execLoad_guest :
    (Runtime.idle.execLoad inst hint c).guest = Runtime.idle.execLoad inst hint c.guest := by
  unfold Machine.execLoad
  simp only [Runtime.idle_read]
  split <;> simp [Ctx.guest_setGprS32]

theorem Runtime.idle_execUnalignedLoad_guest :
    (Runtime.idle.execUnalignedLoad inst hint c).guest = Runtime.idle.execUnalignedLoad inst hint c.guest := by
  unfold Machine.execUnalignedLoad
  simp only [Runtime.idle_read]
  split <;> simp [Ctx.guest_setGprS32]

theorem Runtime.idle_execLl_guest : (Runtime.idle.execLl inst c).guest = Runtime.idle.execLl inst c.guest := by
  unfold Machine.execLl Ctx.setGprS32 Ctx.setGprU64
  dsimp only
  split <;> rfl

theorem Runtime.idle_execSc_guest : (Runtime.idle.execSc inst c).guest = Runtime.idle.execSc inst c.guest := by
  unfold Machine.execSc Ctx.setGprS32 Ctx.setGprU64
  dsimp only
  by_cases hl : c.sys.llbit ≠ 0 ∧ c.sys.lladdr = baseAddress inst c
  · have hl' : c.guest.sys.llbit ≠ 0 ∧ c.guest.sys.lladdr = baseAddress inst c.guest := hl
    rw [if_pos hl, if_pos hl']
    split <;> rfl
  · have hl' : ¬ (c.guest.sys.llbit ≠ 0 ∧ c.guest.sys.lladdr = baseAddress inst c.guest) := hl
    rw [if_neg hl, if_neg hl']
    split <;> rfl

/-- An instruction on the idle machine does not look at the bookkeeping. -/
theorem Runtime.idle_exec_guest : (Runtime.idle.exec inst hint c).guest = Runtime.idle.exec inst hint c.guest := by
  unfold Machine.exec
  split
  case h_1 =>
    unfold Machine.execSpecial
    split_ifs <;> first | rfl | simp [Ctx.guest_setGprS32]
  case h_2 => split <;> simp [Ctx.guest_setGprS32]
  all_goals first
    | simp only [Runtime.idle_write, Runtime.idle_execLoad_guest, Runtime.idle_execLl_guest,
        Runtime.idle_execUnalignedLoad_guest, Runtime.idle_execSc_guest, Ctx.guest_setGprU64,
        Ctx.guest_setGprS32, Ctx.gprU64_guest]
    | rfl

end Idle

namespace ControlFlowEmitter

variable {e : ControlFlowEmitter}

theorem slotOk_idle (ho : e.delaySlotOverride = []) : e.SlotOk Runtime.idle := by
  refine ⟨fun s => ?_, fun s s' h _ => ?_⟩
  · unfold delaySlotCode hasRealDelaySlot
    rw [ho]
    cases isGuestNop e.delaySlot <;> rfl
  · rw [slotRun_ctx ho, slotRun_ctx ho, Runtime.idle_exec_guest, Runtime.idle_exec_guest, h]

/-- A delay slot that is no nop leaves a trace. -/
theorem executed_slotRun (ho : e.delaySlotOverride = []) (hn : isGuestNop e.delaySlot = false)
    (s : State Unit) : (e.slotRun Runtime.idle s).executed = e.delaySlot :: s.executed := by
  unfold slotRun delaySlotCode hasRealDelaySlot
  rw [ho, hn]
  rfl

theorem executed_link (inst : Instruction) (τ : Bool) (s : State Unit) : (inst.link τ s).executed = s.executed := by
  unfold Instruction.link
  split <;> rfl

/-- Every register is negative as a word and positive as a doubleword. -/
def signBits (a : Word) : State Unit := .entered a 0x80000000

theorem signTest_flip (inst : Instruction) {v w : ℤ} (hv : v < 0) (hw : 0 < w) :
    inst.signTest w = !inst.signTest v := by
  unfold Instruction.signTest
  split
  all_goals try split
  all_goals grind

theorem signExtend_ne (v : Word) : v.signExtend 64 ≠ 0x80000000#64 := by
  intro h
  have hv : v.toInt = 0x80000000 := by
    rw [← BitVec.toInt_signExtend_of_le (w := 32) (v := 64) (by omega), h]
    rfl
  have hlt := BitVec.two_mul_toInt_lt (x := v)
  omega

/-- A link shows in the upper word of register 31. -/
theorem link_signBits (hc : e.branchInst.isConditional = true) (hl : e.linksIfTaken = true) (a : Word) :
    (e.branchInst.link true (signBits a)).ctx.guest ≠ (e.branchInst.link false (signBits a)).ctx.guest := by
  have hal : e.linksAlways = false := by
    unfold linksIfTaken at hl
    unfold linksAlways
    simp only [Bool.and_eq_true, Bool.or_eq_true, beq_iff_eq] at hl
    rcases hl.2 with h | h <;> rw [hl.1, h] <;> decide
  rw [link_eq hc, link_eq hc, hl, hal]
  simp only [Bool.and_self, Bool.and_false, if_true, Bool.false_eq_true, if_false]
  intro h
  have hr : (Ctx.guest (e.linkTo (signBits a)).ctx).gprU64 31 = (signBits a).ctx.guest.gprU64 31 := by
    rw [h]
  unfold linkTo State.mapCtx at hr
  rw [Ctx.gprU64_guest, Ctx.gprU64_guest] at hr
  unfold Ctx.setGprS32 at hr
  rw [Ctx.gprU64_setGprU64] at hr
  exact signExtend_ne _ hr

/-- **A block that shows both outcomes of a branch** is one where they coincide. -/
theorem coincide_of_agrees (ho : e.delaySlotOverride = []) (hc : e.branchInst.isConditional = true)
    {a : Word} {τ : Bool} {r : Result Unit} (hl : e.linksIfTaken = true → e.branchInst.isLikely = true)
    (h : Agrees r (e.branchInst.outcome (e.slotRun Runtime.idle) (signBits a) τ e.branchInst.isLikely))
    (h' : Agrees r (e.branchInst.outcome (e.slotRun Runtime.idle) (signBits a) (!τ) e.branchInst.isLikely)) :
    e.outcomesCoincide = true := by
  -- `h` is the taken one
  wlog hτ : τ = true generalizing τ
  · have hτ' : τ = false := by simpa using hτ
    subst hτ'
    exact this h' h rfl
  subst hτ
  obtain ⟨hpc, hctx, hexec⟩ := h.unique h'
  unfold Instruction.outcome at hpc hctx hexec
  rw [transferTarget_eq hc] at hpc
  have hslot : e.branchInst.isLikely = false ∨ isGuestNop e.delaySlot = true := by
    rw [or_iff_not_imp_left, Bool.not_eq_false]
    intro hlikely
    by_contra hn
    rw [Bool.not_eq_true] at hn
    simp [hlikely, executed_slotRun ho hn, executed_link] at hexec
  have hlink : e.linksIfTaken = false := by
    by_contra hlt
    rw [Bool.not_eq_false] at hlt
    have hlikely := hl hlt
    have hn : isGuestNop e.delaySlot = true := by simpa [hlikely] using hslot
    refine link_signBits hc hlt a ?_
    simpa [hlikely, slotRun_nop ho hn] using hctx
  unfold outcomesCoincide
  simp only [Bool.and_eq_true, beq_iff_eq, Bool.not_eq_true', Bool.or_eq_true]
  exact ⟨⟨hpc, hlink⟩, hslot⟩

theorem likely_of_linksIfTaken (hl : e.linksIfTaken = true) : e.branchInst.isLikely = true := by
  unfold linksIfTaken at hl
  unfold Instruction.isLikely
  simp only [Bool.and_eq_true, Bool.or_eq_true, beq_iff_eq] at hl
  rcases hl.2 with h | h <;> rw [hl.1, h] <;> rfl

theorem signBits_pc : (signBits e.branchPc).ctx.pc ≠ e.delayPc := by
  change e.branchInst.address ≠ e.branchInst.address + 4
  simp

section

variable (ho : e.delaySlotOverride = [])

include ho

theorem overrideOk_nil : e.OverrideOk := by
  unfold OverrideOk
  rw [ho]
  simp

section

variable (hc : e.branchInst.isConditional = true)

include hc

/-- A branch on the condition of coprocessor 0 is emitted as one that is never taken and
never likely. -/
theorem outcomesCoincide_of_cop0 (hop : e.branchInst.opcode = .cop0)
    (h : e.Simulates Runtime.idle e.emit) : e.outcomesCoincide = true := by
  have hcond : e.conditionalBranchExpression = .false := by simp [conditionalBranchExpression, hop]
  have hlik : e.isLikelyBranch = false := by simp [isLikelyBranch, hop]
  have hlink : e.linksIfTaken = false := by simp [linksIfTaken, hop]
  have htaken : ∀ cpcond0, e.branchInst.taken cpcond0 (signBits e.branchPc).ctx =
      (cpcond0 == e.branchInst.branchesOnTrue) := by
    intro cpcond0
    simp [Instruction.taken, hop]
  have hstep := emit_conditional (slotOk_idle ho) (overrideOk_nil ho) hc rfl signBits_pc
  have hrule := fun cpcond0 => (h cpcond0 (signBits e.branchPc) rfl).1 signBits_pc
  unfold emittedStep at hstep
  unfold Instruction.branchStep at hrule
  rw [hcond, hlik] at hstep
  -- the condition holds: the targets agree
  have htgt := ((hrule e.branchInst.branchesOnTrue).unique hstep).1
  -- it does not hold: the delay slot runs all the same
  have hexec := ((hrule (!e.branchInst.branchesOnTrue)).unique hstep).2.2
  rw [htaken] at htgt hexec
  unfold Instruction.outcome at htgt hexec
  rw [transferTarget_eq hc] at htgt
  unfold outcomesCoincide
  simp only [Bool.and_eq_true, beq_iff_eq, Bool.not_eq_true', Bool.or_eq_true]
  refine ⟨⟨?_, hlink⟩, ?_⟩
  · unfold fallthroughPc
    simpa [Cond.eval] using htgt
  · rw [or_iff_not_imp_left, Bool.not_eq_false]
    intro hlikely
    by_contra hn
    rw [Bool.not_eq_true] at hn
    simp [hlikely, Cond.eval, executed_slotRun ho hn, executed_link] at hexec

/-- A branch on a sign is emitted as one on the sign of the low word. -/
theorem outcomesCoincide_of_sign (hcop : e.branchInst.isCop0Branch = false) (hs : e.branchInst.testsSign = true)
    (hrs : e.branchInst.rs ≠ 0) (h : e.Simulates Runtime.idle e.emit) : e.outcomesCoincide = true := by
  obtain ⟨h1, h2⟩ := signTest_eq hc hs false (signBits e.branchPc).ctx
  have hneg : ((signBits e.branchPc).ctx.gprU32 e.branchInst.rs).toInt < 0 := by
    unfold Ctx.gprU32
    rw [if_neg hrs]
    change (BitVec.setWidth 32 (0x80000000 : BitVec 128)).toInt < 0
    decide
  have hpos : 0 < ((signBits e.branchPc).ctx.gprU64 e.branchInst.rs).toInt := by
    unfold Ctx.gprU64
    rw [if_neg hrs]
    change 0 < (BitVec.setWidth 64 (0x80000000 : BitVec 128)).toInt
    decide
  have hstep := emit_conditional (slotOk_idle ho) (overrideOk_nil ho) hc rfl signBits_pc
  have hrule := (h false (signBits e.branchPc) rfl).1 signBits_pc
  unfold emittedStep at hstep
  unfold Instruction.branchStep at hrule
  rw [h1, signTest_flip _ hneg hpos, ← h2] at hrule
  rw [isLikely_eq hc hcop] at hstep
  exact coincide_of_agrees ho hc likely_of_linksIfTaken hstep hrule

end

/-- **A misjudged branch that follows the rule** is one whose outcomes coincide. -/
theorem outcomesCoincide_of_simulates (hm : e.misjudges = true)
    (h : e.Simulates Runtime.idle e.emit) : e.outcomesCoincide = true := by
  obtain ⟨hc, hcase⟩ := Bool.and_eq_true_iff.1 hm
  by_cases hcop : e.branchInst.isCop0Branch = true
  · exact outcomesCoincide_of_cop0 ho hc (by simpa [Instruction.isCop0Branch] using hcop) h
  · have hcop' : e.branchInst.isCop0Branch = false := by simpa using hcop
    obtain ⟨hs, hrs⟩ : e.branchInst.testsSign = true ∧ e.branchInst.rs ≠ 0 := by
      simpa [hcop'] using hcase
    exact outcomesCoincide_of_sign ho hc hcop' hs hrs h

end

/-- **The block follows the rule** where it judges the branch right, or where it makes no
difference. -/
theorem simulates_of_judged {ρ : Type} {rt : Runtime ρ} (ht : e.branchInst.isControlTransfer = true)
    (hov : e.OverrideOk) (ho : e.branchInst.isConditional = true → e.delaySlotOverride = [])
    (hj : e.misjudges = false ∨ e.outcomesCoincide = true) (hok : e.SlotOk rt) : e.Simulates rt e.emit := by
  intro cpcond0 s hl
  have htr : Tracks s s := ⟨rfl, rfl, by unfold State.transfers; simp [hl]⟩
  refine ⟨fun hpc => ?_, fun hpc hint => resume_agrees hok hov htr rfl hpc hint⟩
  by_cases hc : e.branchInst.isConditional = true
  · have hstep := emit_conditional hok hov hc hl hpc
    have heq : e.emittedStep rt s = e.branchInst.branchStep cpcond0 (e.slotRun rt) s := by
      unfold emittedStep Instruction.branchStep
      rcases hj with hj | hj
      · have hcop : e.branchInst.isCop0Branch = false := by
          unfold misjudges at hj
          rw [hc] at hj
          simp only [Bool.true_and, Bool.or_eq_false_iff] at hj
          exact hj.1
        rw [taken_eq hc hj, isLikely_eq hc hcop]
      · refine outcome_eq (ho hc) hc hj s fun hlik => ⟨?_, hlik⟩
        by_cases hcop : e.branchInst.isCop0Branch = true
        · have hop : e.branchInst.opcode = .cop0 := by simpa [Instruction.isCop0Branch] using hcop
          simp [isLikelyBranch, hop]
        · rw [isLikely_eq hc (by simpa using hcop), hlik]
    rw [← heq]
    exact hstep
  · refine emit_jump hok hov ?_ hl hpc cpcond0
    unfold Instruction.isControlTransfer at ht
    simpa [hc] using ht

end ControlFlowEmitter

/-! ## The blocks of a function -/

namespace FunctionEmitter

variable {cg : CodeGenerator} {ar : AnalysisResult} {instructions : List Instruction} {b : Block}

/-- The code of a branch and its delay slot follows the delay slot rule, for whatever the
delay slot does. -/
def Block.FollowsRule (cg : CodeGenerator) (ar : AnalysisResult) (b : Block) : Prop :=
  ∀ (ρ : Type) (rt : Runtime ρ), (b.emitter cg ar).SlotOk rt → (b.emitter cg ar).Simulates rt (b.core cg ar)

/-- `bnel $v0, $zero, 3` with the delay slot `addiu $v0, $v0, -1`. -/
def bnelLoop : List Instruction :=
  [{ address := 0x100000, opcode := .bnel, rs := 2, simmediate := 3, isBranch := true,
     hasDelaySlot := true },
   { address := 0x100004, opcode := .addiu, rs := 2, rt := 2, simmediate := 0xFFFFFFFF }]

/-- The block of `bnelLoop`. -/
def bnelBlock : Block :=
  ⟨0, bnelLoop[0], some bnelLoop[1], .clear, {}⟩

/-- `bltz $v0, 3` with a nop in the delay slot. -/
def bltzBlock : Block where
  index := 0
  inst := { address := 0x100000, opcode := .regimm, rs := 2, rt := regimmBltz, simmediate := 3,
            isBranch := true, hasDelaySlot := true }
  delaySlot := some { address := 0x100004 }
  constants := .clear
  plan := {}

end FunctionEmitter

end Ps2Recomp
