import Mathlib.Data.Fin.VecNotation
import Ps2Recomp.Spec.Code

/-!
# GIF DMA kick plans

`tryBuildGifDmaKickPlan` looks for four word stores to the D_PCR, D_STAT, GIF TADR
and GIF CHCR registers, in that order and with constant addresses. The function
emitter then leaves the stores out and calls `kickGifDmaChainFromMMIO` at the last
one with the four stored values: literals where the value register is a known
constant, and otherwise temporaries captured where the store stood.
-/

namespace Ps2Recomp

/-- `kTargets`: D_PCR, D_STAT, GIF TADR, GIF CHCR. -/
def kTargets : Fin 4 → Word := ![0x1000E020, 0x1000E010, 0x1000A030, 0x1000A000]

def kMaxScanInstructions : ℕ := 32

/-- `GifDmaKickPlan`. `captures slot` is the register of the capture expression
`GPR_U32(ctx, reg)`, when the slot has one. -/
structure GifDmaKickPlan where
  valid : Bool := false
  storeIndices : Fin 4 → ℕ := fun _ => 0
  values : Fin 4 → KickValue := fun _ => .literal 0
  captures : Fin 4 → Option Reg := fun _ => none
  branchIndex : Option ℕ := none
  endIndex : ℕ := 0
  completesInDelaySlot : Bool := false

namespace GifDmaKickPlan

def suppresses (plan : GifDmaKickPlan) (index : ℕ) : Bool :=
  plan.valid && (List.finRange 4).any (fun slot => plan.storeIndices slot == index)

def completesAt (plan : GifDmaKickPlan) (index : ℕ) : Bool := plan.valid && index == plan.endIndex

/-- `slotFor`, with `none` for the source's out-of-range slot. -/
def slotFor (plan : GifDmaKickPlan) (index : ℕ) : Option (Fin 4) :=
  (List.finRange 4).find? (fun slot => plan.storeIndices slot == index)

end GifDmaKickPlan

/-- `isReturnWithDelaySlot`. -/
def isReturnWithDelaySlot (inst : Instruction) : Bool :=
  inst.opcode == .special && inst.function == specialJr && inst.rs == 31 && inst.hasDelaySlot

/-- `tryMatchGifDmaStore`: the plan with the slot filled in, if the store matches. -/
def tryMatchGifDmaStore (index : ℕ) (inst : Instruction) (hint : MemoryAccessHint)
    (k : ConstantRegisterState) (slot : Fin 4) (plan : GifDmaKickPlan) : Option GifDmaKickPlan :=
  if inst.opcode = .sw ∧ hint = some (kTargets slot) then
    match k.read inst.rt with
    | some v => some { plan with
        storeIndices := Function.update plan.storeIndices slot index
        values := Function.update plan.values slot (.literal v) }
    | none => some { plan with
        storeIndices := Function.update plan.storeIndices slot index
        values := Function.update plan.values slot (.temp inst.address slot)
        captures := Function.update plan.captures slot (some inst.rt) }
  else none

/-- The scan loop, `fuel` instructions from `j` on. `slot` is the source's `matched`:
the loop returns when it would reach four. -/
def scanGifDmaKick (instructions : List Instruction) (startIndex : ℕ) (internalTargets : List Word) :
    ℕ → ℕ → ConstantRegisterState → Fin 4 → GifDmaKickPlan → GifDmaKickPlan
  | 0, _, _, _, _ => {}
  | fuel + 1, j, k, slot, plan =>
    match instructions[j]? with
    | none => {}
    | some inst =>
      if j ≠ startIndex ∧ 0 < slot ∧ inst.address ∈ internalTargets then {}
      else if isDirectMemoryAccess inst then
        match tryMatchGifDmaStore j inst (resolveMemoryAccessHint inst k) k slot plan with
        | none => {}
        | some plan' =>
          if slot = 3 then { plan' with valid := true, endIndex := j }
          else scanGifDmaKick instructions startIndex internalTargets fuel (j + 1)
            (updateConstantRegisters inst k) (slot + 1) plan'
      else if isReturnWithDelaySlot inst then
        match instructions[j + 1]? with
        | none => {}
        | some delayInst =>
          if slot ≠ 3 ∨ delayInst.address ≠ inst.address + 4 ∨ delayInst.address ∈ internalTargets then {}
          else
            match tryMatchGifDmaStore (j + 1) delayInst (resolveMemoryAccessHint delayInst k) k slot
              plan with
            | none => {}
            | some plan' => { plan' with
                valid := true, completesInDelaySlot := true, branchIndex := some j, endIndex := j + 1 }
      else if inst.hasDelaySlot || inst.isBranch || inst.isJump || inst.modificationInfo.modifiesControl then {}
      else scanGifDmaKick instructions startIndex internalTargets fuel (j + 1)
        (updateConstantRegisters inst k) slot plan

/-- `tryBuildGifDmaKickPlan`. -/
def tryBuildGifDmaKickPlan (instructions : List Instruction) (startIndex : ℕ)
    (k : ConstantRegisterState) (internalTargets : List Word) : GifDmaKickPlan :=
  if startIndex ≥ instructions.length then {}
  else scanGifDmaKick instructions startIndex internalTargets
    (min instructions.length (startIndex + kMaxScanInstructions) - startIndex) startIndex k 0 {}

/-- `gifDmaKickCall`. -/
def gifDmaKickCall (plan : GifDmaKickPlan) : Stmt := .kick plan.values

/-- `emitGifDmaCapture`: nothing for a slot whose value is a literal. -/
def emitGifDmaCapture (plan : GifDmaKickPlan) (slot : Option (Fin 4)) : List Stmt :=
  match slot with
  | none => []
  | some slot =>
    match plan.captures slot, plan.values slot with
    | some reg, .temp address slot => [.capture address slot reg]
    | _, _ => []

/-- `gifDmaDelaySlotOverride`. -/
def gifDmaDelaySlotOverride (plan : GifDmaKickPlan) : List Stmt :=
  emitGifDmaCapture plan (plan.slotFor plan.endIndex) ++ [gifDmaKickCall plan]

end Ps2Recomp
