import Ps2Recomp.Lib.Indices

/-!
# Decoded guest instructions

The data the recompiler works on (`ps2recomp/types.h`, `ps2recomp/instructions.h`):
decoded instructions, functions, sections and the configured hooks, with the
address arithmetic of `control_flow_utils.h`.

Register fields are `Fin 32` and the function field six bits wide, as
`R5900Decoder::decodeInstruction` masks them. The type flags and the
modification flags are data of their own: the decoder takes most of them from
a disassembler library that is not part of the repository. `isMMI` is no field:
the decoder sets it exactly for the opcode `mmi`.
-/

namespace Ps2Recomp

/-- A 32-bit word or guest address (`uint32_t`). -/
abbrev Word := BitVec 32

/-- A general purpose register number. -/
abbrev Reg := Fin 32

/-- `MipsOpcodes`, with the encodings the enumeration leaves out in `reserved`. -/
inductive Opcode
  | special | regimm | j | jal | beq | bne | blez | bgtz
  | addi | addiu | slti | sltiu | andi | ori | xori | lui
  | cop0 | cop1 | cop2 | cop3 | beql | bnel | blezl | bgtzl
  | daddi | daddiu | ldl | ldr | mmi | lq | sq
  | lb | lh | lwl | lw | lbu | lhu | lwr | lwu
  | sb | sh | swl | sw | sdl | sdr | swr | cache
  | ll | lwc1 | lwc2 | pref | lld | ldc1 | ldc2 | ld
  | sc | swc1 | swc2 | scd | sdc1 | sdc2 | sd
  | reserved
  deriving DecidableEq, Repr

/-! ## Function and condition fields -/

def specialSll : BitVec 6 := 0x00
def specialJr : BitVec 6 := 0x08
def specialJalr : BitVec 6 := 0x09
def specialAddu : BitVec 6 := 0x21
def specialOr : BitVec 6 := 0x25
def specialDaddu : BitVec 6 := 0x2D

def regimmBltz : Reg := 0x00
def regimmBgez : Reg := 0x01
def regimmBltzl : Reg := 0x02
def regimmBgezl : Reg := 0x03
def regimmBltzal : Reg := 0x10
def regimmBgezal : Reg := 0x11
def regimmBltzall : Reg := 0x12
def regimmBgezall : Reg := 0x13

/-- The branch format of a coprocessor (`COP0_BC`, `COP1_BC`, `COP2_BC`). -/
def copBc : Reg := 0x08

/-- The branch conditions of a coprocessor (`COP*_BC_BCF`, `BCT`, `BCFL`, `BCTL`). -/
def copBcf : Reg := 0x00
def copBct : Reg := 0x01
def copBcfl : Reg := 0x02
def copBctl : Reg := 0x03

/-- The part of `modificationInfo` that the recompiler reads. -/
structure ModificationInfo where
  modifiesGPR : Bool := false
  modifiesControl : Bool := false
  deriving DecidableEq, Repr

/-- A decoded instruction. -/
structure Instruction where
  address : Word := 0
  opcode : Opcode := .special
  rs : Reg := 0
  rt : Reg := 0
  rd : Reg := 0
  sa : Reg := 0
  function : BitVec 6 := 0
  immediate : Word := 0
  simmediate : Word := 0
  target : Word := 0
  isBranch : Bool := false
  isJump : Bool := false
  hasDelaySlot : Bool := false
  isMmio : Bool := false
  mmioAddress : Word := 0
  modificationInfo : ModificationInfo := {}
  deriving DecidableEq, Repr

/-- A function of the input program (`endAddr` is the source's `end`). -/
structure Function where
  name : String
  start : Word
  endAddr : Word
  isRecompiled : Bool := false
  isStub : Bool := false
  isSkipped : Bool := false
  deriving DecidableEq, Repr

/-- A section of the input program; `data` is `none` when it has no bytes. -/
structure Section where
  address : Word
  size : Word
  isCode : Bool
  data : Option (Word → BitVec 8)

/-- A configured mid-asm hook. -/
structure MidAsmHook where
  address : Word
  name : String
  after : Bool := false
  deriving DecidableEq, Repr

/-! ## Address arithmetic of branches -/

/-- `buildAbsoluteJumpTarget`. -/
def buildAbsoluteJumpTarget (address target : Word) : Word :=
  ((address + 4) &&& 0xF0000000) ||| (target <<< 2)

/-- `isGuestNop`: the all-zero shift, or `addiu $zero, $zero, 0`. -/
def isGuestNop (inst : Instruction) : Bool :=
  (inst.opcode == .special && inst.function == specialSll && inst.rd == 0 && inst.rt == 0 && inst.sa == 0) ||
    (inst.opcode == .addiu && inst.rs == 0 && inst.rt == 0 && inst.simmediate.setWidth 16 == 0)

namespace Instruction

/-- The target of a conditional branch: `address + 4` plus the sign-extended
16-bit offset in words. -/
def branchTarget (inst : Instruction) : Word :=
  (inst.address + 4) + ((inst.simmediate.setWidth 16).signExtend 32 <<< 2)

/-- The target of `J` and `JAL`. -/
def jumpTarget (inst : Instruction) : Word := buildAbsoluteJumpTarget inst.address inst.target

def isStaticJump (inst : Instruction) : Bool := inst.opcode == .j || inst.opcode == .jal

def isJr (inst : Instruction) : Bool := inst.opcode == .special && inst.function == specialJr

def isJalr (inst : Instruction) : Bool := inst.opcode == .special && inst.function == specialJalr

/-- A register jump whose targets the analyzer looks for: `JR` through another
register than `$ra`, or `JALR`. -/
def isIndirectJump (inst : Instruction) : Bool :=
  inst.opcode == .special && ((inst.function == specialJr && inst.rs != 31) || inst.function == specialJalr)

end Instruction

end Ps2Recomp
