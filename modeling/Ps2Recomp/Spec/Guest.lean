import Ps2Recomp.Spec.ControlFlowEmitter

/-!
# Branches of the guest machine

The delay slot rule of the architecture, which the emitted blocks are compared with: the
condition and the target are read first, then the link register is written, then the
instruction in the delay slot runs, unless the branch is likely and not taken, and then
control is at the target or at `branch + 8`.

The condition signal of coprocessor 0 is not part of the context; it is an argument.
What a block has done is read off its result: where control went (`arrival`), in which
context, and which instructions ran.
-/

namespace Ps2Recomp

namespace Instruction

variable (inst : Instruction)

/-- A coprocessor branch on a true condition. -/
def branchesOnTrue : Bool := inst.rt == copBct || inst.rt == copBctl

/-- The branches that test the sign of a register. -/
def testsSign : Bool :=
  match inst.opcode with
  | .blez | .blezl | .bgtz | .bgtzl | .regimm => true
  | _ => false

/-- `BC0F`, `BC0T`, `BC0FL` and `BC0TL`. -/
def isCop0Branch : Bool := inst.opcode == .cop0

/-- The conditional branches, as the decoder marks them. -/
def isConditional : Bool :=
  inst.isBranch && match inst.opcode with
  | .beq | .beql | .bne | .bnel | .blez | .blezl | .bgtz | .bgtzl => true
  | .regimm => [regimmBltz, regimmBgez, regimmBltzl, regimmBgezl, regimmBltzal, regimmBgezal,
      regimmBltzall, regimmBgezall].contains inst.rt
  | .cop0 | .cop1 | .cop2 => inst.rs == copBc && [copBcf, copBct, copBcfl, copBctl].contains inst.rt
  | _ => false

/-- `J`, `JAL`, `JR`, `JALR` and the conditional branches. -/
def isControlTransfer : Bool :=
  inst.isStaticJump || inst.isJr || inst.isJalr || inst.isConditional

/-- The test of a branch on the sign of `v`. -/
def signTest (v : ℤ) : Bool :=
  match inst.opcode with
  | .blez | .blezl => decide (v ≤ 0)
  | .bgtz | .bgtzl => decide (0 < v)
  | _ =>
    if [regimmBltz, regimmBltzl, regimmBltzal, regimmBltzall].contains inst.rt then decide (v < 0)
    else decide (0 ≤ v)

/-- Whether the branch is taken. -/
def taken {ρ : Type} (cpcond0 : Bool) (c : Ctx ρ) : Bool :=
  match inst.opcode with
  | .beq | .beql => c.gprU64 inst.rs == c.gprU64 inst.rt
  | .bne | .bnel => c.gprU64 inst.rs != c.gprU64 inst.rt
  | .blez | .blezl | .bgtz | .bgtzl | .regimm => inst.signTest (c.gprU64 inst.rs).toInt
  | .cop0 => cpcond0 == inst.branchesOnTrue
  | .cop1 => (c.sys.fcr31 &&& 0x800000 != 0) == inst.branchesOnTrue
  | .cop2 => (c.sys.vu0Status &&& 0x1 != 0) == inst.branchesOnTrue
  | _ => true

/-- The branches that annul their delay slot when they are not taken. -/
def isLikely : Bool :=
  match inst.opcode with
  | .beql | .bnel | .blezl | .bgtzl => true
  | .regimm => [regimmBltzl, regimmBgezl, regimmBltzall, regimmBgezall].contains inst.rt
  | .cop0 | .cop1 | .cop2 => inst.rt == copBcfl || inst.rt == copBctl
  | _ => false

/-- The register that receives the return address. -/
def linkRegister (taken : Bool) : Option Reg :=
  if inst.opcode = .jal then some 31
  else if inst.isJalr then some inst.rd
  else if inst.opcode = .regimm then
    if inst.rt = regimmBltzal ∨ inst.rt = regimmBgezal then some 31
    else if inst.rt = regimmBltzall ∨ inst.rt = regimmBgezall then
      if taken then some 31 else none
    else none
  else none

/-- Where the branch goes when it is taken. -/
def transferTarget {ρ : Type} (c : Ctx ρ) : Word :=
  if inst.isStaticJump then inst.jumpTarget
  else if inst.isJr || inst.isJalr then c.gprU32 inst.rs else inst.branchTarget

/-- The link register is written. -/
def link {ρ : Type} (taken : Bool) (s : State ρ) : State ρ :=
  match inst.linkRegister taken with
  | some reg => s.mapCtx (·.setGprS32 reg (inst.address + 8))
  | none => s

/-- What a branch does that is `taken` and `likely`: where control is afterwards, and the
state there. `slot` is the effect of the instruction in the delay slot. -/
def outcome {ρ : Type} (slot : State ρ → State ρ) (s : State ρ) (taken likely : Bool) : Word × State ρ :=
  (if taken then inst.transferTarget s.ctx else inst.address + 8,
    if taken || !likely then slot (inst.link taken s) else inst.link taken s)

/-- **The delay slot rule.** -/
def branchStep {ρ : Type} (cpcond0 : Bool) (slot : State ρ → State ρ) (s : State ρ) : Word × State ρ :=
  inst.outcome slot s (inst.taken cpcond0 s.ctx) inst.isLikely

end Instruction

/-! ## What a block has done -/

/-- The context without the fields that only keep track of emitted code. -/
def Ctx.guest {ρ : Type} (c : Ctx ρ) : Ctx ρ :=
  { c with sys := { c.sys with pc := 0, inDelaySlot := false, branchPc := 0 } }

namespace State

variable {ρ : Type}

/-- The hand-overs of control in a log. -/
def transfers (s : State ρ) : List (Word × Ctx ρ) :=
  s.log.filterMap fun e => match e with | .transfer t c => some (t, c) | _ => none

/-- The translated instructions in a log. -/
def executed (s : State ρ) : List Instruction :=
  s.log.filterMap fun e => match e with | .exec inst _ _ => some inst | _ => none

end State

/-- Where control is after a block, and the context it is there with: the first hand-over
to other code, or the label jumped to, or `ctx->pc`. -/
def arrival {ρ : Type} (r : Result ρ) : Word × Ctx ρ :=
  match r.1.transfers.getLast? with
  | some p => p
  | none =>
    (match r.2 with
      | .goto (.at t) => t
      | .goto (.fallthrough b) => b + 8
      | _ => r.1.ctx.pc, r.1.ctx)

/-- The result of a block agrees with a step of the guest machine. -/
def Agrees {ρ : Type} (r : Result ρ) (g : Word × State ρ) : Prop :=
  (arrival r).1 = g.1 ∧ (arrival r).2.guest = g.2.ctx.guest ∧ r.1.executed = g.2.executed

end Ps2Recomp
