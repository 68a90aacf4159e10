import Ps2Recomp.Spec.Instruction

/-!
# The guest context of emitted code

`R5900Context` as the emitted functions see it (`ps2_runtime.h`) and the
register access macros of `ps2_runtime_macros.h`. The fields that the modelled
statements name are fields here; the rest of the context, the guest memory and
the runtime's own state are one value `rest` of an arbitrary type.
-/

namespace Ps2Recomp

/-- Everything but the general purpose registers. -/
structure Sys (ρ : Type) where
  pc : Word
  inDelaySlot : Bool
  branchPc : Word
  fcr31 : Word
  vu0Status : BitVec 16
  llbit : Word
  lladdr : Word
  rest : ρ

/-- `R5900Context` with the machine around it. -/
structure Ctx (ρ : Type) where
  r : Reg → BitVec 128
  sys : Sys ρ

namespace Ctx

variable {ρ : Type}

/-! ## Register reads -/

/-- `GPR_U64`: register 0 reads as zero whatever the array holds. -/
def gprU64 (c : Ctx ρ) (reg : Reg) : BitVec 64 := if reg = 0 then 0 else (c.r reg).setWidth 64

/-- `GPR_U32`, and with the signed reading of the same bits `GPR_S32`. -/
def gprU32 (c : Ctx ρ) (reg : Reg) : Word := if reg = 0 then 0 else (c.r reg).setWidth 32

/-- `GPR_VEC`. -/
def gprVec (c : Ctx ρ) (reg : Reg) : BitVec 128 := if reg = 0 then 0 else c.r reg

/-! ## Register writes -/

/-- `SET_GPR_VEC`. -/
def setGprVec (c : Ctx ρ) (reg : Reg) (v : BitVec 128) : Ctx ρ :=
  if reg = 0 then c else { c with r := Function.update c.r reg v }

/-- `SET_GPR_U64` (and `SET_GPR_S64`): `Ps2SetGprLow64` keeps the upper half. -/
def setGprU64 (c : Ctx ρ) (reg : Reg) (v : BitVec 64) : Ctx ρ :=
  if reg = 0 then c
  else { c with r := Function.update c.r reg ((c.r reg).extractLsb' 64 64 ++ v) }

/-- `SET_GPR_S32`, and `SET_GPR_U32`, which sign-extends just the same. -/
def setGprS32 (c : Ctx ρ) (reg : Reg) (v : Word) : Ctx ρ := c.setGprU64 reg (v.signExtend 64)

/-- `ctx->pc = a`. -/
def setPc (c : Ctx ρ) (a : Word) : Ctx ρ := { c with sys := { c.sys with pc := a } }

/-- `ctx->pc`, for reading. -/
def pc (c : Ctx ρ) : Word := c.sys.pc

/-! ## What a write leaves in the low words -/

theorem setWidth_append_low (a b : BitVec 64) : (a ++ b : BitVec 128).setWidth 64 = b := by
  apply BitVec.eq_of_getLsbD_eq
  intro i hi
  rw [BitVec.getLsbD_setWidth, BitVec.getLsbD_append]
  simp [hi]

section

variable (c : Ctx ρ)

theorem gprU32_eq (reg : Reg) : c.gprU32 reg = (c.gprU64 reg).setWidth 32 := by
  unfold gprU32 gprU64
  split
  · rfl
  · rw [BitVec.setWidth_setWidth_of_le _ (by omega)]

section

variable (reg reg' : Reg)

theorem gprU64_setGprU64 (v : BitVec 64) :
    (c.setGprU64 reg v).gprU64 reg' = if reg' = reg ∧ reg ≠ 0 then v else c.gprU64 reg' := by
  unfold setGprU64 gprU64
  by_cases h0 : reg = 0
  · simp [h0]
  · by_cases h : reg' = reg
    · subst h; simp [h0, setWidth_append_low]
    · simp [h0, h]

theorem gprU32_setGprU64 (v : BitVec 64) :
    (c.setGprU64 reg v).gprU32 reg' =
      if reg' = reg ∧ reg ≠ 0 then v.setWidth 32 else c.gprU32 reg' := by
  rw [gprU32_eq, gprU64_setGprU64, gprU32_eq]
  split <;> rfl

theorem gprU32_setGprS32 (v : Word) :
    (c.setGprS32 reg v).gprU32 reg' = if reg' = reg ∧ reg ≠ 0 then v else c.gprU32 reg' := by
  unfold setGprS32
  rw [gprU32_setGprU64]
  have hv : (v.signExtend 64).setWidth 32 = v := by
    apply BitVec.eq_of_getLsbD_eq
    intro i hi
    rw [BitVec.getLsbD_setWidth, BitVec.getLsbD_signExtend]
    have hi' : i < 64 := by omega
    simp [hi, hi']
  rw [hv]

theorem gprU32_setGprVec (v : BitVec 128) :
    (c.setGprVec reg v).gprU32 reg' =
      if reg' = reg ∧ reg ≠ 0 then v.setWidth 32 else c.gprU32 reg' := by
  unfold setGprVec gprU32
  by_cases h0 : reg = 0
  · simp [h0]
  · by_cases h : reg' = reg
    · subst h; simp [h0]
    · simp [h0, h]

end

@[simp] theorem gprU32_zero : c.gprU32 0 = 0 := by simp [gprU32]

@[simp] theorem setPc_pc (a : Word) : (c.setPc a).pc = a := rfl

@[simp] theorem setPc_r (a : Word) : (c.setPc a).r = c.r := rfl

end

/-- Reads look at the register array only. -/
theorem gprU32_congr {c c' : Ctx ρ} (h : c.r = c'.r) (reg : Reg) : c.gprU32 reg = c'.gprU32 reg := by
  unfold gprU32; rw [h]

end Ctx

end Ps2Recomp

/-!
# What a translated instruction does

`InstructionTranslator::translate` turns one instruction into one statement;
`Machine.exec` is that statement's effect on the context. The statements the
analyses of the emitter reason about are written out: immediates, `LUI`, the
loads and stores, `LL`/`SC`, and `ADDU`, `DADDU`, `OR` and `SLL` of `SPECIAL`.
Every other translation, the guest memory and its MMIO side effects are fields
of `Machine`: the results below hold for all of them.
-/

namespace Ps2Recomp

/-- `MemoryAccessHint`: the address, when the emitter resolved it. -/
abbrev MemoryAccessHint := Option Word

/-- The parts of the machine that the emitted statements call into. -/
structure Machine (ρ : Type) where
  /-- `runtime->LoadN` when the flag is set, `READn` otherwise, of a width in bits. -/
  load : Bool → Nat → Word → Sys ρ → BitVec 128 × Sys ρ
  /-- `runtime->StoreN` when the flag is set, `WRITEn` otherwise. -/
  store : Bool → Nat → Word → BitVec 128 → Sys ρ → Sys ρ
  /-- The statement of an instruction that is not written out here. -/
  other : Instruction → MemoryAccessHint → Ctx ρ → Ctx ρ
  /-- The statement ends in `return` or `throw` (`ERET`, an unhandled instruction). -/
  leaves : Instruction → Bool

/-- `effectiveMemoryHintFor`: a configured MMIO address replaces the hint. -/
def effectiveMemoryHintFor (inst : Instruction) (hint : MemoryAccessHint) : MemoryAccessHint :=
  if inst.isMmio then some inst.mmioAddress else hint

/-- `ADD32(GPR_U32(ctx, rs), simmediate)`. -/
def baseAddress {ρ : Type} (inst : Instruction) (c : Ctx ρ) : Word :=
  c.gprU32 inst.rs + inst.simmediate

namespace Machine

variable {ρ : Type} (m : Machine ρ)

/-- `translateMemoryRead`: a read of `width` bits at the hint, or at `addr`. -/
def read (inst : Instruction) (hint : MemoryAccessHint) (width : Nat) (addr : Word) (c : Ctx ρ) : BitVec 128 × Ctx ρ :=
  let res := m.load inst.isMmio width ((effectiveMemoryHintFor inst hint).getD addr) c.sys
  (res.1, { c with sys := res.2 })

/-- `translateMemoryWrite`. -/
def write (inst : Instruction) (hint : MemoryAccessHint) (width : Nat) (addr : Word)
    (v : BitVec 128) (c : Ctx ρ) : Ctx ρ :=
  { c with sys := m.store inst.isMmio width ((effectiveMemoryHintFor inst hint).getD addr) v c.sys }

/-- `LWL` and `LWR` merge into the low word; `LDL` and `LDR` into the doubleword. -/
def mergeLeft (width offset : Nat) (old mem : BitVec 64) : BitVec 64 :=
  let shift := (width / 8 - 1 - offset) * 8
  (old &&& ((1#64 <<< shift) - 1#64)) ||| (mem <<< shift)

def mergeRight (width offset : Nat) (old mem : BitVec 64) : BitVec 64 :=
  let keep : BitVec 64 := if offset = 0 then 0 else BitVec.allOnes 64 <<< ((width / 8 - offset) * 8)
  (old &&& keep) ||| (mem >>> (offset * 8))

/-- The loads of `isDirectMemoryAccess` into a general register. -/
def execLoad (inst : Instruction) (hint : MemoryAccessHint) (c : Ctx ρ) : Ctx ρ :=
  let a := baseAddress inst c
  match inst.opcode with
  | .lb => let p := m.read inst hint 8 a c; p.2.setGprS32 inst.rt ((p.1.setWidth 8).signExtend 32)
  | .lh => let p := m.read inst hint 16 a c; p.2.setGprS32 inst.rt ((p.1.setWidth 16).signExtend 32)
  | .lw => let p := m.read inst hint 32 a c; p.2.setGprS32 inst.rt (p.1.setWidth 32)
  | .lbu => let p := m.read inst hint 8 a c; p.2.setGprS32 inst.rt ((p.1.setWidth 8).setWidth 32)
  | .lhu => let p := m.read inst hint 16 a c; p.2.setGprS32 inst.rt ((p.1.setWidth 16).setWidth 32)
  | .lwu => let p := m.read inst hint 32 a c; p.2.setGprS32 inst.rt (p.1.setWidth 32)
  | .lq => let p := m.read inst hint 128 a c; p.2.setGprVec inst.rt p.1
  | _ => let p := m.read inst hint 64 a c; p.2.setGprU64 inst.rt (p.1.setWidth 64)

/-- `LWL`, `LWR`, `LDL`, `LDR`: the aligned read merged into `rt`. -/
def execUnalignedLoad (inst : Instruction) (hint : MemoryAccessHint) (c : Ctx ρ) : Ctx ρ :=
  let a := baseAddress inst c
  match inst.opcode with
  | .lwl =>
    let p := m.read inst hint 32 (a &&& ~~~3) c
    let old := (c.gprU32 inst.rt).setWidth 64
    p.2.setGprS32 inst.rt ((mergeLeft 32 (a &&& 3).toNat old ((p.1.setWidth 32).setWidth 64)).setWidth 32)
  | .lwr =>
    let p := m.read inst hint 32 (a &&& ~~~3) c
    let off := (a &&& 3).toNat
    let merged : Word :=
      (mergeRight 32 off ((c.gprU32 inst.rt).setWidth 64) ((p.1.setWidth 32).setWidth 64)).setWidth 32
    p.2.setGprU64 inst.rt (if off = 0 then merged.signExtend 64
      else (c.gprU64 inst.rt &&& 0xFFFFFFFF00000000) ||| merged.setWidth 64)
  | .ldl =>
    let p := m.read inst hint 64 (a &&& ~~~7) c
    p.2.setGprU64 inst.rt (mergeLeft 64 (a &&& 7).toNat (c.gprU64 inst.rt) (p.1.setWidth 64))
  | _ =>
    let p := m.read inst hint 64 (a &&& ~~~7) c
    p.2.setGprU64 inst.rt (mergeRight 64 (a &&& 7).toNat (c.gprU64 inst.rt) (p.1.setWidth 64))

/-- `LL`: a plain load that also sets the reservation. -/
def execLl (inst : Instruction) (c : Ctx ρ) : Ctx ρ :=
  let a := baseAddress inst c
  let p := m.load false 32 a c.sys
  let c' := ({ c with sys := p.2 } : Ctx ρ).setGprS32 inst.rt (p.1.setWidth 32)
  { c' with sys := { c'.sys with llbit := 1, lladdr := a } }

/-- `SC`: a store when the reservation holds, the outcome in `rt`. -/
def execSc (inst : Instruction) (c : Ctx ρ) : Ctx ρ :=
  let a := baseAddress inst c
  let c' : Ctx ρ :=
    if c.sys.llbit ≠ 0 ∧ c.sys.lladdr = a then
      ({ c with sys := m.store false 32 a ((c.gprU32 inst.rt).setWidth 128) c.sys } : Ctx ρ).setGprS32 inst.rt 1
    else c.setGprS32 inst.rt 0
  { c' with sys := { c'.sys with llbit := 0, lladdr := 0 } }

/-- `SpecialTranslator::translate`, for the functions written out here. -/
def execSpecial (inst : Instruction) (hint : MemoryAccessHint) (c : Ctx ρ) : Ctx ρ :=
  if inst.function = specialSll then
    if inst.rd = 0 then c else c.setGprS32 inst.rd (c.gprU32 inst.rt <<< inst.sa.val)
  else if inst.function = specialAddu then
    c.setGprS32 inst.rd (c.gprU32 inst.rs + c.gprU32 inst.rt)
  else if inst.function = specialDaddu then
    c.setGprU64 inst.rd (c.gprU64 inst.rs + c.gprU64 inst.rt)
  else if inst.function = specialOr then
    c.setGprU64 inst.rd (c.gprU64 inst.rs ||| c.gprU64 inst.rt)
  else m.other inst hint c

/-- The statement `InstructionTranslator::translate` emits for an instruction. -/
def exec (inst : Instruction) (hint : MemoryAccessHint) (c : Ctx ρ) : Ctx ρ :=
  match inst.opcode with
  | .special => m.execSpecial inst hint c
  | .addiu => if inst.rt = 0 then c else c.setGprS32 inst.rt (c.gprU32 inst.rs + inst.simmediate)
  | .andi => c.setGprU64 inst.rt (c.gprU64 inst.rs &&& (inst.immediate.setWidth 16).setWidth 64)
  | .ori => c.setGprU64 inst.rt (c.gprU64 inst.rs ||| (inst.immediate.setWidth 16).setWidth 64)
  | .xori => c.setGprU64 inst.rt (c.gprU64 inst.rs ^^^ (inst.immediate.setWidth 16).setWidth 64)
  | .lui => c.setGprS32 inst.rt (inst.immediate <<< 16)
  | .lb | .lh | .lw | .lbu | .lhu | .lwu | .lq | .ld => m.execLoad inst hint c
  | .lwl | .lwr | .ldl | .ldr => m.execUnalignedLoad inst hint c
  | .ll => m.execLl inst c
  | .sc => m.execSc inst c
  | .sb => m.write inst hint 8 (baseAddress inst c) ((c.gprU32 inst.rt).setWidth 128) c
  | .sh => m.write inst hint 16 (baseAddress inst c) ((c.gprU32 inst.rt).setWidth 128) c
  | .sw => m.write inst hint 32 (baseAddress inst c) ((c.gprU32 inst.rt).setWidth 128) c
  | .sd => m.write inst hint 64 (baseAddress inst c) ((c.gprU64 inst.rt).setWidth 128) c
  | .sq => m.write inst hint 128 (baseAddress inst c) (c.gprVec inst.rt) c
  | _ => m.other inst hint c

/-! ## Nops and frame facts -/

section

variable (inst : Instruction) (hint : MemoryAccessHint) (w : Nat) (a : Word)

include hint

@[simp] theorem read_r (c : Ctx ρ) : (m.read inst hint w a c).2.r = c.r := rfl

@[simp] theorem write_r (v : BitVec 128) (c : Ctx ρ) : (m.write inst hint w a v c).r = c.r := rfl

end

/-- **A guest nop does nothing**, so the emitter may leave it out. -/
theorem exec_nop {inst : Instruction} (h : isGuestNop inst = true) (hint : MemoryAccessHint)
    (c : Ctx ρ) : m.exec inst hint c = c := by
  unfold isGuestNop at h
  simp only [Bool.or_eq_true, Bool.and_eq_true, beq_iff_eq] at h
  unfold exec
  rcases h with ⟨⟨⟨⟨ho, hf⟩, hd⟩, -⟩, -⟩ | ⟨⟨⟨ho, -⟩, ht⟩, -⟩
  · simp [ho, execSpecial, hf, hd]
  · simp [ho, ht]

end Machine

end Ps2Recomp
