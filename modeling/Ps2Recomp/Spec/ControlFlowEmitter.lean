import Ps2Recomp.Spec.Analyzer
import Ps2Recomp.Spec.Kick
import Ps2Recomp.Spec.Names

/-!
# Branches and their delay slots

`ControlFlowEmitter`: the code for a branch together with its delay slot, from the
check that enters at the delay slot to the fall through at `branch + 8`.
-/

namespace Ps2Recomp

/-- The configuration of a `CodeGenerator`. -/
structure CodeGenerator where
  analyzer : Analyzer
  /-- The function symbols by address. -/
  symbols : List (Word × String) := []
  renamedFunctions : List (Word × String) := []
  relocationCallNames : List (Word × String) := []
  midAsmHooksBefore : List (Word × String) := []
  midAsmHooksAfter : List (Word × String) := []
  resumeEntryTargetsByOwner : List (Word × List Word) := []
  /-- `ps2_runtime_calls::resolveSyscallName`, then `resolveStubName`, with the
  namespace of the handler. -/
  resolveHandler : String → Option String := fun _ => none

/-- `getFunctionName`; empty when the address has no name. -/
def CodeGenerator.getFunctionName (cg : CodeGenerator) (a : Word) : String :=
  match cg.renamedFunctions.lookup a with
  | some name => name
  | none => ((cg.symbols.lookup a).map sanitizeSymbolName).getD ""

/-- A `ControlFlowEmitter`. An empty override stands for none. -/
structure ControlFlowEmitter where
  gen : CodeGenerator
  branchInst : Instruction
  delaySlot : Instruction
  analysisResult : AnalysisResult
  delaySlotOverride : List Stmt := []

namespace ControlFlowEmitter

variable (e : ControlFlowEmitter)

def branchPc : Word := e.branchInst.address

def delayPc : Word := e.branchInst.address + 4

def fallthroughPc : Word := e.branchInst.address + 8

def hasRealDelaySlot : Bool := e.delaySlotOverride.length != 0 || !isGuestNop e.delaySlot

def isCallLikeEdge : Bool := e.branchInst.opcode == .jal || e.branchInst.isJalr

def isInternalTarget (target : Word) : Bool := e.analysisResult.entryPoints.contains target

def isLikelyBranch : Bool :=
  match e.branchInst.opcode with
  | .beql | .bnel | .blezl | .bgtzl => true
  | .regimm => e.branchInst.rt == regimmBltzl || e.branchInst.rt == regimmBgezl ||
      e.branchInst.rt == regimmBltzall || e.branchInst.rt == regimmBgezall
  | .cop1 | .cop2 => e.branchInst.rs == copBc && (e.branchInst.rt == copBcfl || e.branchInst.rt == copBctl)
  | _ => false

def resolvedLocalIndirectTargets : List Word :=
  if e.branchInst.isIndirectJump then
    match e.analysisResult.jumpTableTargets.lookup e.branchInst.address with
    | none => []
    | some targets => sortUnique targets
  else []

def delaySlotCode : List Stmt :=
  if !e.hasRealDelaySlot then []
  else if e.delaySlotOverride.length != 0 then e.delaySlotOverride
  else [.instr e.delaySlot none]

def emitDelaySlot : List Stmt :=
  if !e.hasRealDelaySlot then []
  else [.setPc e.delayPc, .setInDelaySlot true, .setBranchPc e.branchPc] ++ e.delaySlotCode ++ [.setInDelaySlot false]

def emitResumeFromDelaySlotEntry : List Item :=
  if !e.isInternalTarget e.delayPc then []
  else [.ifPcEq e.delayPc (e.emitDelaySlot ++ [.setPc e.fallthroughPc,
    .goto (if e.isInternalTarget e.fallthroughPc then .at e.fallthroughPc
      else .fallthrough e.branchPc)])]

/-- `emitInternalTarget`: a backward edge that is no call checks for preemption. -/
def emitInternalTarget (target sourcePc : Word) : List Stmt :=
  [.setPc target] ++
    (if target ≤ sourcePc ∧ e.isCallLikeEdge = false then [.preempt] else []) ++
    [.goto (.at target)]

/-- The handler that `emitRelocationCallIfAvailable` finds. -/
def relocationHandler : Option String :=
  (e.gen.relocationCallNames.lookup e.branchInst.address).bind e.gen.resolveHandler

def emitStaticJump (isCall : Bool) : List Stmt :=
  let target := buildAbsoluteJumpTarget e.branchInst.address e.branchInst.target
  (if isCall then [.setGprU32 31 e.fallthroughPc] else []) ++ e.emitDelaySlot ++
    (if e.isInternalTarget target then e.emitInternalTarget target e.branchPc
    else [.setPc target] ++
      if isCall then
        match e.relocationHandler with
        | some handler => [.callHandler handler, .returnIfPcNe e.fallthroughPc]
        | none => [.dispatch .directCall (.const target) e.branchPc e.fallthroughPc]
      else if e.gen.getFunctionName target ≠ "" then [.callFunction target]
      else [.dispatch .directJump (.const target) e.branchPc 0])

def emitRegisterJump (isCall : Bool) : List BlockItem :=
  let targets := e.resolvedLocalIndirectTargets
  [.stmt (.declJumpTarget e.branchInst.rs)] ++
    (if isCall && e.branchInst.rd != 0 then [.stmt (.setGprU32 e.branchInst.rd e.fallthroughPc)]
      else []) ++
    e.emitDelaySlot.map .stmt ++ [.stmt .setPcJumpTarget] ++
    (if targets ≠ [] then [.switchTarget targets] else []) ++
    (if isCall then [.stmt (.dispatch .indirectCall .jumpTarget e.branchPc e.fallthroughPc)]
      else if e.branchInst.rs = 31 then [.stmt .setPcJumpTarget, .stmt .ret]
      else [.stmt (.dispatch .indirectJump .jumpTarget e.branchPc 0)])

def conditionalBranchExpression : Cond :=
  let inst := e.branchInst
  match inst.opcode with
  | .beq | .beql => .eqU64 inst.rs inst.rt
  | .bne | .bnel => .neU64 inst.rs inst.rt
  | .blez | .blezl => .lezS32 inst.rs
  | .bgtz | .bgtzl => .gtzS32 inst.rs
  | .regimm =>
    if inst.rt = regimmBltz ∨ inst.rt = regimmBltzl ∨ inst.rt = regimmBltzal ∨
        inst.rt = regimmBltzall then .ltzS32 inst.rs
    else if inst.rt = regimmBgez ∨ inst.rt = regimmBgezl ∨ inst.rt = regimmBgezal ∨
        inst.rt = regimmBgezall then .gezS32 inst.rs
    else .false
  | .cop1 =>
    if inst.rs = copBc then .fcr31 (!(inst.rt == copBcf || inst.rt == copBcfl)) else .false
  | .cop2 =>
    if inst.rs = copBc then .vu0Status (!(inst.rt == copBcf || inst.rt == copBcfl)) else .false
  | _ => .false

/-- `BLTZAL` and `BGEZAL`: the link is unconditional. -/
def linksAlways : Bool :=
  e.branchInst.opcode == .regimm && (e.branchInst.rt == regimmBltzal || e.branchInst.rt == regimmBgezal)

/-- `BLTZALL` and `BGEZALL`: the link is written only when the branch is taken. -/
def linksIfTaken : Bool :=
  e.branchInst.opcode == .regimm && (e.branchInst.rt == regimmBltzall || e.branchInst.rt == regimmBgezall)

/-- The end of a taken conditional branch. -/
def emitTaken : List Stmt :=
  let target := e.branchInst.branchTarget
  if e.isInternalTarget target then e.emitInternalTarget target e.branchPc
  else [.setPc target, .ret]

def emitConditionalBranch : List BlockItem :=
  let link : Stmt := .setGprU32 31 e.fallthroughPc
  let conditionalLink : List Stmt := if e.linksIfTaken then [link] else []
  [.stmt (.declBranchTaken e.conditionalBranchExpression)] ++
    (if e.linksAlways then [.stmt link] else []) ++
    if e.isLikelyBranch then [.ifTaken (conditionalLink ++ e.emitDelaySlot ++ e.emitTaken)]
    else (if e.linksIfTaken then [.ifTaken conditionalLink] else []) ++
      e.emitDelaySlot.map .stmt ++ [.ifTaken e.emitTaken]

/-- The part of `emit` that depends on the kind of branch. -/
def emitTransfer : List Item :=
  if e.branchInst.isStaticJump then (e.emitStaticJump (e.branchInst.opcode == .jal)).map .stmt
  else if e.branchInst.isJr || e.branchInst.isJalr then
    [.block (e.emitRegisterJump e.branchInst.isJalr)]
  else if e.branchInst.isBranch then [.block e.emitConditionalBranch]
  -- `emitFallbackInstruction`
  else (Stmt.instr e.branchInst none :: e.emitDelaySlot).map .stmt

def emitFallthroughLabelIfNeeded : List Item :=
  if e.isInternalTarget e.delayPc && !e.isInternalTarget e.fallthroughPc then
    [.label (.fallthrough e.branchPc)]
  else []

def emit : List Item :=
  e.emitResumeFromDelaySlotEntry ++ [.stmt (.setPc e.branchPc)] ++ e.emitTransfer ++
    e.emitFallthroughLabelIfNeeded ++ [.stmt (.setPc e.fallthroughPc)]

end ControlFlowEmitter

end Ps2Recomp

/-!
# Function bodies

`FunctionEmitter::emit`: the entry switch over the resume targets, then the code of
each instruction with its label, its hooks and the constants known there, then the
store of the end address when the last instruction is no branch.
-/

namespace Ps2Recomp

def makeSyntheticDelaySlot (address : Word) : Instruction :=
  { address := address, opcode := .special, function := specialSll }

/-- What the emission loop carries: the known registers and the current plan. -/
structure EmitState where
  constants : ConstantRegisterState := .clear
  plan : GifDmaKickPlan := {}

/-- `setMidAsmHooks`: a later hook at the same address and side replaces an earlier
one, so the maps are read from the end of the list. -/
def CodeGenerator.setMidAsmHooks (cg : CodeGenerator) (hooks : List MidAsmHook) : CodeGenerator :=
  let named := (hooks.filter (·.name ≠ "")).reverse
  { cg with
    midAsmHooksBefore := (named.filter (!·.after)).map fun h => (h.address, h.name)
    midAsmHooksAfter := (named.filter (·.after)).map fun h => (h.address, h.name) }

namespace FunctionEmitter

variable (cg : CodeGenerator) (fn : Function) (instructions : List Instruction)

/-- The resume targets of the function: its own, and those assigned to it as an owner. -/
def resumeTargets : List Word :=
  sortUnique ((cg.analyzer.analyze fn instructions none).resumeEntryPoints ++
    (cg.resumeEntryTargetsByOwner.lookup fn.start).getD [])

/-- The analysis result the emission works with: resume targets get labels too. -/
def analysisResult : AnalysisResult :=
  let res := cg.analyzer.analyze fn instructions none
  { res with entryPoints := res.entryPoints ++ resumeTargets cg fn instructions }

/-- The label of an instruction, if something may jump to it. -/
def labelFor (ar : AnalysisResult) (a : Word) : List Item :=
  if a ∈ ar.entryPoints then [.label (.at a)] else []

/-- The call of a hook before an instruction. -/
def hookBefore (a : Word) : List Item :=
  match cg.midAsmHooksBefore.lookup a with
  | none => []
  | some name => [.stmt (.setPc a), .stmt (.hook name), .stmt (.returnIfPcNe a)]

/-- The call of a hook after an instruction. -/
def hookAfter (a : Word) : List Item :=
  match cg.midAsmHooksAfter.lookup a with
  | none => []
  | some name => [.stmt (.hook name)]

/-- The branch `inst` at index `i` with its delay slot. -/
def branchEmitter (ar : AnalysisResult) (i : ℕ) (inst delaySlot : Instruction) (decoded : Bool)
    (plan : GifDmaKickPlan) : ControlFlowEmitter :=
  { gen := cg
    branchInst := inst
    delaySlot := delaySlot
    analysisResult := ar
    delaySlotOverride :=
      if plan.valid && plan.completesInDelaySlot && plan.branchIndex == some i && decoded then
        gifDmaDelaySlotOverride plan
      else [] }

/-- The code of the branch at index `i`. -/
def emitBranch (ar : AnalysisResult) (i : ℕ) (inst delaySlot : Instruction) (decoded : Bool)
    (plan : GifDmaKickPlan) : List Item :=
  (if decoded then labelFor ar delaySlot.address else []) ++ (branchEmitter cg ar i inst delaySlot decoded plan).emit

/-- The plan after the branch at index `i`. -/
def planAfterBranch (i : ℕ) (decoded : Bool) (plan : GifDmaKickPlan) : GifDmaKickPlan :=
  if plan.valid && plan.completesInDelaySlot && plan.branchIndex == some i && decoded then {}
  else plan

/-- The plan the emission follows at index `i`. -/
def currentPlan (ar : AnalysisResult) (i : ℕ) (st : EmitState) : GifDmaKickPlan :=
  if st.plan.valid then st.plan
  else tryBuildGifDmaKickPlan instructions i st.constants ar.entryPoints

/-- The code of an instruction that is no branch: the capture and the call of a plan
that suppresses it, or its translation with the hook after it. -/
def emitPlain (i : ℕ) (inst : Instruction) (k : ConstantRegisterState) (plan : GifDmaKickPlan) : List Item :=
  if plan.suppresses i then
    (emitGifDmaCapture plan (plan.slotFor i)).map .stmt ++
      if plan.completesAt i then [.stmt (.setPc inst.address), .stmt (gifDmaKickCall plan)] else []
  else
    [.stmt (.setPc inst.address), .stmt (.instr inst (resolveMemoryAccessHint inst k))] ++ hookAfter cg inst.address

/-- The state after an instruction that is no branch. -/
def stateAfterPlain (i : ℕ) (inst : Instruction) (k : ConstantRegisterState) (plan : GifDmaKickPlan) : EmitState :=
  { constants := updateConstantRegisters inst k
    plan := if plan.suppresses i && plan.completesAt i then {} else plan }

/-- The constants at an instruction: a label forgets them. -/
def constantsAt (ar : AnalysisResult) (inst : Instruction) (k : ConstantRegisterState) :
    ConstantRegisterState :=
  if inst.address ∈ ar.entryPoints then .clear else k

/-- The emission loop, from index `i` on with the remaining instructions. -/
def emitFrom (ar : AnalysisResult) : ℕ → List Instruction → EmitState → List Item
  | _, [], _ => []
  | i, inst :: rest, st =>
    labelFor ar inst.address ++ hookBefore cg inst.address ++
      if inst.hasDelaySlot then
        match rest with
        | delaySlot :: rest' =>
          if delaySlot.address = inst.address + 4 then
            emitBranch cg ar i inst delaySlot true st.plan ++
              emitFrom ar (i + 2) rest' { plan := planAfterBranch i true st.plan }
          else
            emitBranch cg ar i inst (makeSyntheticDelaySlot (inst.address + 4)) false st.plan ++
              emitFrom ar (i + 1) (delaySlot :: rest') { plan := planAfterBranch i false st.plan }
        | [] => emitBranch cg ar i inst (makeSyntheticDelaySlot (inst.address + 4)) false st.plan
      else
        let k := constantsAt ar inst st.constants
        let plan := currentPlan instructions ar i { st with constants := k }
        emitPlain cg i inst k plan ++ emitFrom ar (i + 1) rest (stateAfterPlain i inst k plan)

/-- `lastInstructionWasControlFlow` after the loop, `true` for an empty function. -/
def endsInBranch : List Instruction → Bool
  | [] => true
  | [inst] => inst.hasDelaySlot
  | inst :: next :: rest =>
    if inst.hasDelaySlot && next.address = inst.address + 4 then
      match rest with
      | [] => true
      | _ => endsInBranch rest
    else endsInBranch (next :: rest)

/-- The entry switch and the initial `ctx->pc`. -/
def emitEntry : List Item :=
  (if resumeTargets cg fn instructions ≠ [] then [.switchPc (resumeTargets cg fn instructions)]
    else []) ++ [.stmt (.setPc fn.start)]

def emit : List Item :=
  emitEntry cg fn instructions ++
    emitFrom cg instructions (analysisResult cg fn instructions) 0 instructions {} ++
    if endsInBranch instructions then [] else [.stmt (.setPc fn.endAddr)]

end FunctionEmitter

end Ps2Recomp
