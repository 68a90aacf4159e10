import Ps2Recomp.Spec.Exceptions
import Ps2Recomp.Spec.Memory

/-!
# The integer core

Emitted code over the memory of the guest: `READn` and `WRITEn` (`ps2_runtime_macros.h`) with the
`LoadN` and `StoreN` they fall back on, and the translations of `SpecialTranslator` and
`InstructionTranslator` that raise no exception and that `Machine.exec` does not write out (shifts,
`HI` and `LO`, products and quotients, logic, comparisons).

`decodeInstruction` fills the fields of an instruction from its word (`r5900_decoder.cpp`). The flags
that it takes from the tables of the disassembler are an argument.
-/

namespace Ps2Recomp

open Memory (Width Devices Ps2Memory ps2IsSpecialAddress)

/-! ### Decoding -/

/-- The values of `MipsOpcodes`. -/
def Opcode.ofBits (op : BitVec 6) : Opcode :=
  match op.toNat with
  | 0x00 => .special | 0x01 => .regimm | 0x02 => .j | 0x03 => .jal
  | 0x04 => .beq | 0x05 => .bne | 0x06 => .blez | 0x07 => .bgtz
  | 0x08 => .addi | 0x09 => .addiu | 0x0A => .slti | 0x0B => .sltiu
  | 0x0C => .andi | 0x0D => .ori | 0x0E => .xori | 0x0F => .lui
  | 0x10 => .cop0 | 0x11 => .cop1 | 0x12 => .cop2 | 0x13 => .cop3
  | 0x14 => .beql | 0x15 => .bnel | 0x16 => .blezl | 0x17 => .bgtzl
  | 0x18 => .daddi | 0x19 => .daddiu | 0x1A => .ldl | 0x1B => .ldr
  | 0x1C => .mmi | 0x1E => .lq | 0x1F => .sq
  | 0x20 => .lb | 0x21 => .lh | 0x22 => .lwl | 0x23 => .lw
  | 0x24 => .lbu | 0x25 => .lhu | 0x26 => .lwr | 0x27 => .lwu
  | 0x28 => .sb | 0x29 => .sh | 0x2A => .swl | 0x2B => .sw
  | 0x2C => .sdl | 0x2D => .sdr | 0x2E => .swr | 0x2F => .cache
  | 0x30 => .ll | 0x31 => .lwc1 | 0x32 => .lwc2 | 0x33 => .pref
  | 0x34 => .lld | 0x35 => .ldc1 | 0x36 => .ldc2 | 0x37 => .ld
  | 0x38 => .sc | 0x39 => .swc1 | 0x3A => .swc2
  | 0x3C => .scd | 0x3D => .sdc1 | 0x3E => .sdc2 | 0x3F => .sd
  | _ => .reserved

/-- A field of five bits. -/
def regField (raw : Word) (low : ℕ) : Reg := (raw.extractLsb' low 5).toFin

/-- `R5900Decoder::decodeInstruction`. -/
def decodeInstruction (flags : Instruction) (address raw : Word) : Instruction :=
  { flags with
    address := address
    opcode := .ofBits (raw.extractLsb' 26 6)
    rs := regField raw 21
    rt := regField raw 16
    rd := regField raw 11
    sa := regField raw 6
    function := raw.extractLsb' 0 6
    immediate := (raw.extractLsb' 0 16).setWidth 32
    simmediate := (raw.extractLsb' 0 16).signExtend 32
    target := raw &&& 0x3FFFFFF
    isMmio := false
    mmioAddress := 0 }

/-! ### Memory -/

/-- What the emitted statements see besides the general registers: the memory, `ctx->hi` and
`ctx->lo`. -/
structure Core (D : Type) where
  memory : Ps2Memory D
  hi : BitVec 64
  lo : BitVec 64

def Width.ofBits : ℕ → Width
  | 8 => .w8
  | 16 => .w16
  | 32 => .w32
  | 64 => .w64
  | _ => .w128

namespace Core

variable {D : Type}

/-- `READn`, or `LoadN` where the flag is set; no value when the memory throws. -/
def read (d : Devices D) (slow : Bool) (width : ℕ) (vaddr : Word) (s : Core D) : Option (BitVec 128) × Core D :=
  let w := Width.ofBits width
  if slow || ps2IsSpecialAddress vaddr then
    match d.read w vaddr s.memory with
    | .ok v m => (some (v.setWidth 128), { s with memory := m })
    | .error _ m => (none, { s with memory := m })
  else (some ((w.fastRead s.memory.rdram vaddr).setWidth 128), s)

/-- `WRITEn`, or `StoreN` where the flag is set; whether the memory throws. A store of 32 bits runs
the handlers of the transfers that it completed. -/
def write (d : Devices D) (slow : Bool) (width : ℕ) (vaddr : Word) (value : BitVec 128) (s : Core D) : Bool × Core D :=
  let w := Width.ofBits width
  if slow || ps2IsSpecialAddress vaddr then
    let stored : Memory.MemM D Unit := do
      d.write w vaddr (value.setWidth _)
      if w = .w32 then d.drainCompletedDmacHandlers
    match stored s.memory with
    | .ok _ m => (false, { s with memory := m })
    | .error _ m => (true, { s with memory := m })
  else
    let rdram := w.fastWrite s.memory.rdram vaddr (value.setWidth _)
    (false, { s with memory := { s.memory with rdram := rdram } })

end Core

/-! ### Translations -/

section

variable {D : Type}

abbrev Ctx.hi (c : Ctx (Excepting (Core D))) : BitVec 64 := c.sys.rest.mem.hi

abbrev Ctx.lo (c : Ctx (Excepting (Core D))) : BitVec 64 := c.sys.rest.mem.lo

def Ctx.setCore (c : Ctx (Excepting (Core D))) (s : Core D) : Ctx (Excepting (Core D)) :=
  { c with sys := { c.sys with rest := { c.sys.rest with mem := s } } }

def Ctx.setHi (c : Ctx (Excepting (Core D))) (v : BitVec 64) : Ctx (Excepting (Core D)) :=
  c.setCore { c.sys.rest.mem with hi := v }

def Ctx.setLo (c : Ctx (Excepting (Core D))) (v : BitVec 64) : Ctx (Excepting (Core D)) :=
  c.setCore { c.sys.rest.mem with lo := v }

/-- `MULT` and `MULTU`: both halves of the product, and the low one in `rd`. -/
def setProduct (rd : Reg) (result : BitVec 64) (c : Ctx (Excepting (Core D))) : Ctx (Excepting (Core D)) :=
  let c := c.setLo ((result.setWidth 32).signExtend 64)
  let c := c.setHi (((result >>> 32).setWidth 32).signExtend 64)
  c.setGprS32 rd (result.setWidth 32)

def translateDiv (inst : Instruction) : Statement (Core D) := fun c =>
  let divisor := c.gprU32 inst.rt
  let dividend := c.gprU32 inst.rs
  if divisor ≠ 0 then
    if divisor = -1 ∧ dividend = 0x80000000 then
      (c.setLo ((0x80000000 : Word).signExtend 64)).setHi 0
    else
      (c.setLo ((dividend.sdiv divisor).signExtend 64)).setHi ((dividend.srem divisor).signExtend 64)
  else
    (c.setLo (if dividend.msb then 1 else 0xFFFFFFFFFFFFFFFF)).setHi (dividend.signExtend 64)

def translateDivu (inst : Instruction) : Statement (Core D) := fun c =>
  let divisor := c.gprU32 inst.rt
  let dividend := c.gprU32 inst.rs
  if divisor ≠ 0 then
    (c.setLo ((dividend / divisor).signExtend 64)).setHi ((dividend % divisor).signExtend 64)
  else (c.setLo 0xFFFFFFFFFFFFFFFF).setHi (dividend.signExtend 64)

/-- The value of a comparison in a register. -/
def flag (b : Bool) : BitVec 64 := if b then 1 else 0

/-- `SpecialTranslator::translate`: the functions that raise nothing, but for `MFSA` and `MTSA`. -/
def translateSpecial (inst : Instruction) : Option (Statement (Core D)) :=
  match inst.function.toNat with
  | 0x02 => some fun c => c.setGprS32 inst.rd (c.gprU32 inst.rt >>> inst.sa.val)
  | 0x03 => some fun c => c.setGprS32 inst.rd ((c.gprU32 inst.rt).sshiftRight inst.sa.val)
  | 0x04 => some fun c =>
    c.setGprS32 inst.rd (c.gprU32 inst.rt <<< (c.gprU32 inst.rs &&& 0x1F).toNat)
  | 0x06 => some fun c =>
    c.setGprS32 inst.rd (c.gprU32 inst.rt >>> (c.gprU32 inst.rs &&& 0x1F).toNat)
  | 0x07 => some fun c =>
    c.setGprS32 inst.rd ((c.gprU32 inst.rt).sshiftRight (c.gprU32 inst.rs &&& 0x1F).toNat)
  | 0x0A => some fun c =>
    if c.gprU64 inst.rt = 0 then c.setGprU64 inst.rd (c.gprU64 inst.rs) else c
  | 0x0B => some fun c =>
    if c.gprU64 inst.rt ≠ 0 then c.setGprU64 inst.rd (c.gprU64 inst.rs) else c
  | 0x0F => some fun c => c
  | 0x10 => some fun c => c.setGprU64 inst.rd c.hi
  | 0x11 => some fun c => c.setHi (c.gprU64 inst.rs)
  | 0x12 => some fun c => c.setGprU64 inst.rd c.lo
  | 0x13 => some fun c => c.setLo (c.gprU64 inst.rs)
  | 0x14 => some fun c =>
    c.setGprU64 inst.rd (c.gprU64 inst.rt <<< (c.gprU32 inst.rs &&& 0x3F).toNat)
  | 0x16 => some fun c =>
    c.setGprU64 inst.rd (c.gprU64 inst.rt >>> (c.gprU32 inst.rs &&& 0x3F).toNat)
  | 0x17 => some fun c =>
    c.setGprU64 inst.rd ((c.gprU64 inst.rt).sshiftRight (c.gprU32 inst.rs &&& 0x3F).toNat)
  | 0x18 => some fun c =>
    setProduct inst.rd ((c.gprU32 inst.rs).signExtend 64 * (c.gprU32 inst.rt).signExtend 64) c
  | 0x19 => some fun c =>
    setProduct inst.rd ((c.gprU32 inst.rs).setWidth 64 * (c.gprU32 inst.rt).setWidth 64) c
  | 0x1A => some (translateDiv inst)
  | 0x1B => some (translateDivu inst)
  | 0x23 => some fun c => c.setGprS32 inst.rd (c.gprU32 inst.rs - c.gprU32 inst.rt)
  | 0x24 => some fun c => c.setGprU64 inst.rd (c.gprU64 inst.rs &&& c.gprU64 inst.rt)
  | 0x26 => some fun c => c.setGprU64 inst.rd (c.gprU64 inst.rs ^^^ c.gprU64 inst.rt)
  | 0x27 => some fun c => c.setGprU64 inst.rd (~~~(c.gprU64 inst.rs ||| c.gprU64 inst.rt))
  | 0x2A => some fun c => c.setGprU64 inst.rd (flag ((c.gprU64 inst.rs).slt (c.gprU64 inst.rt)))
  | 0x2B => some fun c => c.setGprU64 inst.rd (flag ((c.gprU64 inst.rs).ult (c.gprU64 inst.rt)))
  | 0x2F => some fun c => c.setGprU64 inst.rd (c.gprU64 inst.rs - c.gprU64 inst.rt)
  | 0x38 => some fun c => c.setGprU64 inst.rd (c.gprU64 inst.rt <<< inst.sa.val)
  | 0x3A => some fun c => c.setGprU64 inst.rd (c.gprU64 inst.rt >>> inst.sa.val)
  | 0x3B => some fun c => c.setGprU64 inst.rd ((c.gprU64 inst.rt).sshiftRight inst.sa.val)
  | 0x3C => some fun c => c.setGprU64 inst.rd (c.gprU64 inst.rt <<< (32 + inst.sa.val))
  | 0x3E => some fun c => c.setGprU64 inst.rd (c.gprU64 inst.rt >>> (32 + inst.sa.val))
  | 0x3F => some fun c => c.setGprU64 inst.rd ((c.gprU64 inst.rt).sshiftRight (32 + inst.sa.val))
  | _ => none

/-- `InstructionTranslator::translate`: the integer instructions that raise nothing and that
`Machine.exec` leaves to `Machine.other`. -/
def translateInteger (inst : Instruction) : Option (Statement (Core D)) :=
  match inst.opcode with
  | .special => translateSpecial inst
  | .slti => some fun c =>
    c.setGprU64 inst.rt (flag ((c.gprU64 inst.rs).slt (inst.simmediate.signExtend 64)))
  | .sltiu => some fun c =>
    c.setGprU64 inst.rt (flag ((c.gprU64 inst.rs).ult (inst.simmediate.signExtend 64)))
  | .daddiu => some fun c =>
    c.setGprU64 inst.rt (c.gprU64 inst.rs + inst.simmediate.signExtend 64)
  | .cache | .pref => some fun c => c
  | _ => none

/-- **The machine of emitted code**, over the memory of the guest. What an instruction outside the
integer core does, and whether it leaves the function, are arguments. -/
def Core.bus (d : Devices D) (outside : Instruction → MemoryAccessHint → Statement (Core D))
    (leaves : Instruction → Bool) : Bus (Core D) where
  read := Core.read d
  write := Core.write d
  other inst hint := (translateInteger inst).getD (outside inst hint)
  leaves := leaves

end

end Ps2Recomp
