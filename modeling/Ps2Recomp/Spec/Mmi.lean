import Ps2Recomp.Lib.CxxInt
import Ps2Recomp.Lib.Simd
import Ps2Recomp.Spec.Exceptions

/-!
# The multimedia instructions

`MmiTranslator::translate` and the translations it calls (`mmi_translation_helpers.cpp`), with the
macros of `ps2_runtime_macros.h` that they write: the saturating additions and subtractions, the
absolute values, the shuffles of one register, and what multiplies and divides. The other
instructions of the four tables are left out.

An emitted statement has no value where it would evaluate what C++ leaves undefined.
-/

namespace Ps2Recomp

open Simd

/-- The registers of the multiplier. -/
structure HiLo where
  hi : BitVec 64 := 0
  lo : BitVec 64 := 0
  hi1 : BitVec 64 := 0
  lo1 : BitVec 64 := 0
  deriving DecidableEq, Repr

/-- The context, as far as arithmetic needs it. -/
abbrev GuestCtx := Ctx (Excepting HiLo)

abbrev Emitted := GuestCtx → Option GuestCtx

namespace Ctx

def hilo (c : GuestCtx) : HiLo := c.sys.rest.mem

def setHiLo (c : GuestCtx) (v : HiLo) : GuestCtx :=
  { c with sys := { c.sys with rest := { c.sys.rest with mem := v } } }

/-- `ctx->lo = lo; ctx->hi = hi;` -/
def setLoHi (c : GuestCtx) (lo hi : BitVec 64) : GuestCtx := c.setHiLo { c.hilo with lo, hi }

/-- `ctx->lo1 = lo; ctx->hi1 = hi;` -/
def setLo1Hi1 (c : GuestCtx) (lo hi : BitVec 64) : GuestCtx :=
  c.setHiLo { c.hilo with lo1 := lo, hi1 := hi }

/-- A context of the given registers, outside of exceptions. -/
def ofRegisters (r : Reg → M128) (v : HiLo) : GuestCtx where
  r := r
  sys := {
    pc := 0, inDelaySlot := false, branchPc := 0, fcr31 := 0, vu0Status := 0, llbit := 0, lladdr := 0
    rest := { cop0 := {}, raised := 0, f := fun _ => 0, vu0Vf := fun _ => 0, mem := v } }

section Hilo

variable (c : GuestCtx) (reg : Reg) (lo hi : BitVec 64)

@[simp]
theorem hilo_setLoHi : (c.setLoHi lo hi).hilo = { c.hilo with lo, hi } := rfl

@[simp]
theorem hilo_setLo1Hi1 : (c.setLo1Hi1 lo hi).hilo = { c.hilo with lo1 := lo, hi1 := hi } := rfl

@[simp]
theorem hilo_setGprVec (v : M128) : (c.setGprVec reg v).hilo = c.hilo := by
  unfold setGprVec
  split <;> rfl

@[simp]
theorem hilo_setGprU64 (v : BitVec 64) : (c.setGprU64 reg v).hilo = c.hilo := by
  unfold setGprU64
  split <;> rfl

@[simp]
theorem hilo_setGprS32 (v : Word) : (c.setGprS32 reg v).hilo = c.hilo := hilo_setGprU64 c reg _

end Hilo

end Ctx

namespace Mmi

/-- `SET_GPR_VEC(ctx, rd, f(GPR_VEC(ctx, rs), GPR_VEC(ctx, rt)));` -/
def vec2 (inst : Instruction) (f : M128 → M128 → M128) : Emitted := fun c =>
  some (c.setGprVec inst.rd (f (c.gprVec inst.rs) (c.gprVec inst.rt)))

/-- The same with one source, whose field the translation chooses. -/
def vec1 (inst : Instruction) (source : Reg) (f : M128 → M128) : Emitted := fun c =>
  some (c.setGprVec inst.rd (f (c.gprVec source)))

/-! ## Saturating additions and subtractions -/

def int32Min : BitVec 32 := 0x80000000
def int32Max : BitVec 32 := 0x7FFFFFFF

/-- Both branches of the preprocessor condition: `sse41` is `__SSE4_1__`. -/
def select (sse41 : Bool) (mask whenSet whenClear : M128) : M128 :=
  if sse41 then mmBlendvEpi8 whenClear whenSet mask
  else (mask &&& whenSet) ||| mmAndnotSi128 mask whenClear

def ps2Paddsw (sse41 : Bool) (a b : M128) : M128 :=
  let sum := mmAddEpi 32 a b
  let overflow := mmSraiEpi 32 31 ((a ^^^ sum) &&& (b ^^^ sum))
  let inputSign := mmSraiEpi 32 31 a
  let sat := select sse41 inputSign (mmSet1Epi 32 int32Min) (mmSet1Epi 32 int32Max)
  select sse41 overflow sat sum

def ps2Psubsw (sse41 : Bool) (a b : M128) : M128 :=
  let diff := mmSubEpi 32 a b
  let overflow := mmSraiEpi 32 31 ((a ^^^ b) &&& (a ^^^ diff))
  let inputSign := mmSraiEpi 32 31 a
  let sat := select sse41 inputSign (mmSet1Epi 32 int32Min) (mmSet1Epi 32 int32Max)
  select sse41 overflow sat diff

def ps2Paddu32 (a b : M128) : M128 :=
  let sum := mmAddEpi 32 a b
  let overflow := mmCmpgtEpi 32 (a ^^^ mmSet1Epi 32 int32Min) (sum ^^^ mmSet1Epi 32 int32Min)
  sum ||| overflow

def ps2Psubu32 (a b : M128) : M128 :=
  let diff := mmSubEpi 32 a b
  let underflow := mmCmpgtEpi 32 (b ^^^ mmSet1Epi 32 int32Min) (a ^^^ mmSet1Epi 32 int32Min)
  mmAndnotSi128 underflow diff

/-! ## The funnel shift -/

/-- The bytes of `combined`, those of `rt` below those of `rs`. -/
def combined (rs rt : M128) (i : ℕ) : BitVec 8 := if i < 16 then lane 8 i rt else lane 8 (i - 16) rs

/-- The 64 bits that end up low and high, from the words of `combined`; `sa` is not 0. -/
def funnelWords (rs rt : M128) (sa : ℕ) : BitVec 64 × BitVec 64 :=
  let lo0 := lane 64 0 rt
  let lo1 := lane 64 1 rt
  let hi0 := lane 64 0 rs
  let hi1 := lane 64 1 rs
  if sa < 64 then
    ((lo0 >>> sa) ||| (lo1 <<< (64 - sa)), (lo1 >>> sa) ||| (hi0 <<< (64 - sa)))
  else
    let s := sa - 64
    if s = 0 then (lo1, hi0)
    else ((lo1 >>> s) ||| (hi0 <<< (64 - s)), (hi0 >>> s) ||| (hi1 <<< (64 - s)))

def ps2Qfsrv (rs rt : M128) (sa : ℕ) : M128 :=
  if sa = 0 then rt
  else if 128 ≤ sa then
    if 256 ≤ sa then 0
    else
      let shift := sa - 128
      if shift = 0 then rs
      else
        let byteShift := shift / 8
        let bitShift := shift % 8
        let result := ofLanes 8 fun i => if i + byteShift < 16 then lane 8 (i + byteShift) rs else 0
        if 0 < bitShift then
          mmSrliEpi 64 bitShift result ||| mmSlliEpi 64 (64 - bitShift) (mmSrliSi128 8 result)
        else result
  else
    let byteShift := sa / 8
    let bitShift := sa % 8
    if 0 < bitShift then
      let (r0, r1) := funnelWords rs rt sa
      mmSet 64 [r1, r0]
    else ofLanes 8 fun i => if i + byteShift < 32 then combined rs rt (i + byteShift) else 0

/-! ## Shuffles of one register -/

/-- The expression of `translatePEXEH` and of `translatePEXCH`. -/
def exchangeHalfwords (v : M128) : M128 :=
  mmShuffleloEpi16 (mmShufflehiEpi16 v (mmShuffle 2 3 0 1)) (mmShuffle 2 3 0 1)

/-- The expression of `translatePREVH`. -/
def reverseHalfwords (v : M128) : M128 :=
  mmShuffleEpi8 v (mmSetr 8 [14, 15, 12, 13, 10, 11, 8, 9, 6, 7, 4, 5, 2, 3, 0, 1])

def ps2Pexew (v : M128) : M128 := mmShuffleEpi32 v (mmShuffle 2 3 0 1)

/-- The expression of `translatePROT3W`. -/
def rotateWords (v : M128) : M128 := mmShuffleEpi32 v (mmShuffle 0 3 2 1)

/-- The expression of `translatePEXCW`. -/
def exchangeWords (v : M128) : M128 := mmShuffleEpi32 v (mmShuffle 1 0 3 2)

/-- The expression of `translatePCPYH`. -/
def copyHalfword (src : M128) : M128 :=
  let l := lane 16 0 src
  let h := lane 16 4 src
  mmSet 16 [h, h, h, h, l, l, l, l]

/-- The expression of `translatePEXT5`. -/
def expand5 (rt : M128) : M128 :=
  let a1 := mmSlliEpi 32 3 (rt &&& mmSet1Epi 32 0x0000001F)
  let a2 := mmSlliEpi 32 6 (rt &&& mmSet1Epi 32 0x000003E0)
  let a3 := mmSlliEpi 32 9 (rt &&& mmSet1Epi 32 0x00007C00)
  let a4 := mmSlliEpi 32 16 (rt &&& mmSet1Epi 32 0x00008000)
  (a1 ||| a2) ||| (a3 ||| a4)

/-- The expression of `translatePPAC5`. -/
def pack5 (rt : M128) : M128 :=
  let a1 := mmSrliEpi 32 3 rt &&& mmSet1Epi 32 0x0000001F
  let a2 := mmSrliEpi 32 6 rt &&& mmSet1Epi 32 0x000003E0
  let a3 := mmSrliEpi 32 9 rt &&& mmSet1Epi 32 0x00007C00
  let a4 := mmSrliEpi 32 16 rt &&& mmSet1Epi 32 0x00008000
  (a1 ||| a2) ||| (a3 ||| a4)

end Mmi

end Ps2Recomp

/-!
# Integer arithmetic in emitted code

`SpecialTranslator::translate`, `MmiTranslator::translate` and the immediate forms of
`InstructionTranslator::translate`, for the instructions that add, subtract, multiply and divide,
with the operations of the C++ types they are written in. What these statements do where every
operation is defined is also part of `guarded`.
-/

namespace Ps2Recomp

open Simd CxxInt

namespace Arith

variable (inst : Instruction)

/-! ## Function fields -/

def specialMult : BitVec 6 := 0x18
def specialMultu : BitVec 6 := 0x19
def specialDiv : BitVec 6 := 0x1A
def specialDivu : BitVec 6 := 0x1B
def specialSubu : BitVec 6 := 0x23
def specialDsubu : BitVec 6 := 0x2F

def mmiMadd : BitVec 6 := 0x00
def mmiMaddu : BitVec 6 := 0x01
def mmiMsub : BitVec 6 := 0x02
def mmiMsubu : BitVec 6 := 0x03
def mmiMmi0 : BitVec 6 := 0x08
def mmiMmi2 : BitVec 6 := 0x09
def mmiMult1 : BitVec 6 := 0x18
def mmiMultu1 : BitVec 6 := 0x19
def mmiDiv1 : BitVec 6 := 0x1A
def mmiDivu1 : BitVec 6 := 0x1B
def mmiMadd1 : BitVec 6 := 0x20
def mmiMaddu1 : BitVec 6 := 0x21
def mmiMmi1 : BitVec 6 := 0x28
def mmiMmi3 : BitVec 6 := 0x29

/-! ## Additions and subtractions -/

/-- Either the overflow exception or the result. -/
def checked (overflow : Bool) (result : GuestCtx → GuestCtx) (c : GuestCtx) : GuestCtx :=
  if overflow then c.signal .integerOverflow else result c

def add : Emitted := fun c => do
  let result ← sadd ((c.gprU32 inst.rs).signExtend 64) ((c.gprU32 inst.rt).signExtend 64)
  some (checked (decide (result.toInt > 2147483647 ∨ result.toInt < -2147483648))
    (·.setGprS32 inst.rd (result.setWidth 32)) c)

def addu : Emitted := fun c =>
  some (c.setGprS32 inst.rd (c.gprU32 inst.rs + c.gprU32 inst.rt))

/-- With `SUB32_OV`. -/
def sub : Emitted := fun c => do
  let a := c.gprU32 inst.rs
  let b := c.gprU32 inst.rt
  let r ← ssub a b
  some (checked ((a ^^^ b).msb && (a ^^^ r).msb) (·.setGprS32 inst.rd r) c)

def subu : Emitted := fun c =>
  some (c.setGprS32 inst.rd (c.gprU32 inst.rs - c.gprU32 inst.rt))

def dadd : Emitted := fun c => do
  let a := c.gprU64 inst.rs
  let b := c.gprU64 inst.rt
  let r ← sadd a b
  some (checked (!(a ^^^ b).msb && (a ^^^ r).msb) (·.setGprU64 inst.rd r) c)

def daddu : Emitted := fun c =>
  some (c.setGprU64 inst.rd (c.gprU64 inst.rs + c.gprU64 inst.rt))

def dsub : Emitted := fun c => do
  let a := c.gprU64 inst.rs
  let b := c.gprU64 inst.rt
  let r ← ssub a b
  some (checked ((a ^^^ b).msb && (a ^^^ r).msb) (·.setGprU64 inst.rd r) c)

def dsubu : Emitted := fun c =>
  some (c.setGprU64 inst.rd (c.gprU64 inst.rs - c.gprU64 inst.rt))

/-- With `ADD32_OV`. -/
def addi : Emitted := fun c =>
  if inst.rt = 0 then some c else do
    let a := c.gprU32 inst.rs
    let b := inst.simmediate
    let r ← sadd a b
    some (checked (!(a ^^^ b).msb && (a ^^^ r).msb) (·.setGprS32 inst.rt r) c)

/-- The immediate is written in decimal: a literal that no `int` holds has a type of 64 bits. -/
def addiu : Emitted := fun c =>
  if inst.rt = 0 then some c
  else if inst.simmediate.msb then do
    let sum ← sadd ((c.gprU32 inst.rs).setWidth 64) (inst.simmediate.setWidth 64)
    some (c.setGprS32 inst.rt (sum.setWidth 32))
  else some (c.setGprS32 inst.rt (c.gprU32 inst.rs + inst.simmediate))

def daddi : Emitted := fun c => do
  let src := c.gprU64 inst.rs
  let imm := inst.simmediate.signExtend 64
  let res ← sadd src imm
  some (checked (!(src ^^^ imm).msb && (src ^^^ res).msb) (·.setGprU64 inst.rt res) c)

/-- `SET_GPR_S64` does not evaluate the value of a write to register 0. -/
def daddiu : Emitted := fun c =>
  if inst.rt = 0 then some c else do
    let sum ← sadd (c.gprU64 inst.rs) (inst.simmediate.signExtend 64)
    some (c.setGprU64 inst.rt sum)

/-! ## Multiplications -/

/-- `(uint64_t)(int64_t)(int32_t)v` and `Ps2SignExt32ToU64` of the low word, and of the word above. -/
def lowWord (v : BitVec 64) : BitVec 64 := (v.setWidth 32).signExtend 64

def highWord (v : BitVec 64) : BitVec 64 := ((v >>> 32).setWidth 32).signExtend 64

/-- `(uint32_t)v` and `(uint32_t)(v >> 32)`, assigned to 64 bits. -/
def lowWordU (v : BitVec 64) : BitVec 64 := (v.setWidth 32).setWidth 64

def highWordU (v : BitVec 64) : BitVec 64 := ((v >>> 32).setWidth 32).setWidth 64

def ps2HiLoToU64 (hi lo : BitVec 64) : BitVec 64 :=
  ((hi &&& 0xFFFFFFFF) <<< 32) ||| (lo &&& 0xFFFFFFFF)

/-- What a multiplication leaves: the two words, and the low one in the destination. -/
def leaveProduct (set : GuestCtx → BitVec 64 → BitVec 64 → GuestCtx) (result : BitVec 64) (c : GuestCtx) : GuestCtx :=
  let c' := set c (lowWord result) (highWord result)
  if inst.rd ≠ 0 then c'.setGprS32 inst.rd (result.setWidth 32) else c'

/-- The product of the two sources in 64 bits, of a signed or an unsigned type. -/
def product (signed : Bool) (c : GuestCtx) : Option (BitVec 64) :=
  if signed then smul ((c.gprU32 inst.rs).signExtend 64) ((c.gprU32 inst.rt).signExtend 64)
  else some ((c.gprU32 inst.rs).setWidth 64 * (c.gprU32 inst.rt).setWidth 64)

def multiply (signed : Bool) (set : GuestCtx → BitVec 64 → BitVec 64 → GuestCtx) : Emitted :=
  fun c => do
    let result ← product inst signed c
    some (leaveProduct inst set result c)

def mult : Emitted := multiply inst true Ctx.setLoHi
def multu : Emitted := multiply inst false Ctx.setLoHi
def mult1 : Emitted := multiply inst true Ctx.setLo1Hi1
def multu1 : Emitted := multiply inst false Ctx.setLo1Hi1

/-- The accumulator is unsigned, and so is its sum with a signed product. -/
def accumulate (signed subtract : Bool) (acc : HiLo → BitVec 64)
    (set : GuestCtx → BitVec 64 → BitVec 64 → GuestCtx) : Emitted := fun c => do
  let prod ← product inst signed c
  let result := if subtract then acc c.hilo - prod else acc c.hilo + prod
  some (leaveProduct inst set result c)

/-- `Ps2HiLoToU64(ctx->hi, ctx->lo)` and `Ps2HiLoToU64(ctx->hi1, ctx->lo1)`. -/
def acc0 (v : HiLo) : BitVec 64 := ps2HiLoToU64 v.hi v.lo

def acc1 (v : HiLo) : BitVec 64 := ps2HiLoToU64 v.hi1 v.lo1

def madd : Emitted := accumulate inst true false acc0 Ctx.setLoHi
def maddu : Emitted := accumulate inst false false acc0 Ctx.setLoHi
def msub : Emitted := accumulate inst true true acc0 Ctx.setLoHi
def msubu : Emitted := accumulate inst false true acc0 Ctx.setLoHi
def madd1 : Emitted := accumulate inst true false acc1 Ctx.setLo1Hi1
def maddu1 : Emitted := accumulate inst false false acc1 Ctx.setLo1Hi1

/-! ## Multiplications of halfwords -/

/-- `(int64_t)p0 + (int64_t)p1 + (int64_t)p2 + (int64_t)p3`. -/
def sum4 (p0 p1 p2 p3 : Word) : Option (BitVec 64) := do
  let s1 ← sadd (p0.signExtend 64) (p1.signExtend 64)
  let s2 ← sadd s1 (p2.signExtend 64)
  sadd s2 (p3.signExtend 64)

/-- `ctx->lo = (uint32_t)acc; ctx->hi = (uint32_t)(acc >> 32); SET_GPR_U64(ctx, rd, acc);` -/
def leaveSum (acc : BitVec 64) (c : GuestCtx) : GuestCtx :=
  (c.setLoHi (lowWordU acc) (highWordU acc)).setGprU64 inst.rd acc

/-- The four words of `_mm_madd_epi16`, taken out with `_mm_cvtsi128_si32`. -/
def maddWord (c : GuestCtx) (k : ℕ) : Word :=
  mmCvtsi128Si32 (mmSrliSi128 (4 * k) (mmMaddEpi16 (c.gprVec inst.rs) (c.gprVec inst.rt)))

def maddSum (c : GuestCtx) : Option (BitVec 64) :=
  sum4 (maddWord inst c 0) (maddWord inst c 1) (maddWord inst c 2) (maddWord inst c 3)

def translatePMADDH : Emitted := fun c => do
  let s ← maddSum inst c
  let acc ← sadd (acc0 c.hilo) s
  some (leaveSum inst acc c)

def translatePMSUBH : Emitted := fun c => do
  let s ← maddSum inst c
  let acc ← ssub (acc0 c.hilo) s
  some (leaveSum inst acc c)

def translatePMULTH : Emitted := fun c => do
  let result ← maddSum inst c
  some (leaveSum inst result c)

/-- `prod_ev` and `prod_od`: both factors of each are of one register. -/
def prodEv (c : GuestCtx) : M128 :=
  let evens := mmShuffleEpi32 (c.gprVec inst.rs) (mmShuffle 2 0 2 0)
  mmMulloEpi 16 evens (mmShuffleEpi32 (c.gprVec inst.rs) (mmShuffle 2 0 2 0))

def prodOd (c : GuestCtx) : M128 :=
  let odds := mmShuffleEpi32 (c.gprVec inst.rt) (mmShuffle 3 1 3 1)
  mmMulloEpi 16 odds (mmShuffleEpi32 (c.gprVec inst.rt) (mmShuffle 3 1 3 1))

/-- `_mm_extract_epi16(v, 2 * k) + _mm_extract_epi16(v, 2 * k + 1)`, of type `int`. -/
def pairSum (v : M128) (k : ℕ) : Option Word :=
  sadd ((lane 16 (2 * k) v).setWidth 32) ((lane 16 (2 * k + 1) v).setWidth 32)

def accumulatePairs (pairs : GuestCtx → M128) : Emitted := fun c => do
  let h0 ← pairSum (pairs c) 0
  let h1 ← pairSum (pairs c) 1
  let h2 ← pairSum (pairs c) 2
  let h3 ← pairSum (pairs c) 3
  let s ← sum4 h0 h1 h2 h3
  let acc ← sadd (acc0 c.hilo) s
  some (leaveSum inst acc c)

def translatePHMADH : Emitted :=
  accumulatePairs inst fun c => mmAddEpi 16 (prodEv inst c) (prodOd inst c)

def translatePHMSBH : Emitted :=
  accumulatePairs inst fun c => mmSubEpi 16 (prodOd inst c) (prodEv inst c)

/-! ## Divisions -/

/-- The statement of `SPECIAL_DIV` and `MMI_DIV1`. -/
def divide (set : GuestCtx → BitVec 64 → BitVec 64 → GuestCtx) : Emitted := fun c =>
  let divisor := c.gprU32 inst.rt
  let dividend := c.gprU32 inst.rs
  if divisor ≠ 0 then
    if divisor = -1 ∧ dividend = Mmi.int32Min then some (set c (Mmi.int32Min.signExtend 64) 0)
    else do
      let q ← sdiv dividend divisor
      let r ← srem dividend divisor
      some (set c (q.signExtend 64) (r.signExtend 64))
  else some (set c (if dividend.msb then 1 else 0xFFFFFFFFFFFFFFFF) (dividend.signExtend 64))

/-- The statement of `SPECIAL_DIVU` and `MMI_DIVU1`. -/
def divideU (set : GuestCtx → BitVec 64 → BitVec 64 → GuestCtx) : Emitted := fun c =>
  let divisor := c.gprU32 inst.rt
  if divisor ≠ 0 then do
    let q ← udiv (c.gprU32 inst.rs) divisor
    let r ← urem (c.gprU32 inst.rs) divisor
    some (set c (q.signExtend 64) (r.signExtend 64))
  else some (set c 0xFFFFFFFFFFFFFFFF ((c.gprU32 inst.rs).signExtend 64))

def div : Emitted := divide inst Ctx.setLoHi
def divu : Emitted := divideU inst Ctx.setLoHi
def div1 : Emitted := divide inst Ctx.setLo1Hi1
def divu1 : Emitted := divideU inst Ctx.setLo1Hi1

/-- `SET_GPR_U32(ctx, rd, ctx->lo);` after the assignments. -/
def leaveQuotient (c : GuestCtx) (lo hi : BitVec 64) : GuestCtx :=
  (c.setLoHi lo hi).setGprS32 inst.rd (lo.setWidth 32)

def translatePDIVW : Emitted := fun c =>
  let rs0 := c.gprU32 inst.rs
  let rt0 := c.gprU32 inst.rt
  if rt0 ≠ 0 then
    if rt0 = -1 ∧ rs0 = Mmi.int32Min then some (leaveQuotient inst c (Mmi.int32Min.setWidth 64) 0)
    else do
      let q ← sdiv rs0 rt0
      let r ← srem rs0 rt0
      some (leaveQuotient inst c (q.setWidth 64) (r.setWidth 64))
  else some (leaveQuotient inst c (if rs0.msb then 1 else -1) (rs0.setWidth 64))

def translatePDIVUW : Emitted := fun c =>
  let rs0 := c.gprU32 inst.rs
  let rt0 := c.gprU32 inst.rt
  if rt0 ≠ 0 then do
    let q ← udiv rs0 rt0
    let r ← urem rs0 rt0
    some (leaveQuotient inst c (q.setWidth 64) (r.setWidth 64))
  else some (leaveQuotient inst c 0xFFFFFFFF (rs0.setWidth 64))

/-- Nothing guards the quotients against overflow. -/
def translatePDIVBW : Emitted := fun c =>
  let rsWords := fun k => lane 32 k (c.gprVec inst.rs)
  let div := lane 32 0 (c.gprVec inst.rt)
  if div ≠ 0 then do
    let q0 ← sdiv (rsWords 0) div
    let r ← srem (rsWords 0) div
    let q1 ← sdiv (rsWords 1) div
    let q2 ← sdiv (rsWords 2) div
    let q3 ← sdiv (rsWords 3) div
    some ((c.setLoHi (q0.setWidth 64) (r.setWidth 64)).setGprVec inst.rd (mmSet 32 [q3, q2, q1, q0]))
  else
    some ((c.setLoHi (if (rsWords 0).msb then 1 else -1) ((rsWords 0).setWidth 64)).setGprVec inst.rd
      (mmSet 32 [0, 0, 0, 0]))

/-! ## The translators -/

def translateMMI0Instruction (sse41 : Bool) (inst : Instruction) : Option Emitted :=
  match inst.sa.val with
  | 0x10 => some (Mmi.vec2 inst (Mmi.ps2Paddsw sse41))  -- `MMI0_PADDSW`
  | 0x11 => some (Mmi.vec2 inst (Mmi.ps2Psubsw sse41))  -- `MMI0_PSUBSW`
  | 0x14 => some (Mmi.vec2 inst (mmAddsEpi 16))         -- `MMI0_PADDSH`
  | 0x15 => some (Mmi.vec2 inst (mmSubsEpi 16))         -- `MMI0_PSUBSH`
  | 0x18 => some (Mmi.vec2 inst (mmAddsEpi 8))          -- `MMI0_PADDSB`
  | 0x19 => some (Mmi.vec2 inst (mmSubsEpi 8))          -- `MMI0_PSUBSB`
  | 0x1E => some (Mmi.vec1 inst inst.rt Mmi.expand5)    -- `MMI0_PEXT5`
  | 0x1F => some (Mmi.vec1 inst inst.rt Mmi.pack5)      -- `MMI0_PPAC5`
  | _ => none

def translateMMI1Instruction (inst : Instruction) : Option Emitted :=
  match inst.sa.val with
  | 0x01 => some (Mmi.vec1 inst inst.rs (mmAbsEpi 32))  -- `MMI1_PABSW`
  | 0x05 => some (Mmi.vec1 inst inst.rs (mmAbsEpi 16))  -- `MMI1_PABSH`
  | 0x10 => some (Mmi.vec2 inst Mmi.ps2Paddu32)         -- `MMI1_PADDUW`
  | 0x11 => some (Mmi.vec2 inst Mmi.ps2Psubu32)         -- `MMI1_PSUBUW`
  -- the halfwords are added and subtracted without saturation
  | 0x14 => some (Mmi.vec2 inst (mmAddEpi 16))          -- `MMI1_PADDUH`
  | 0x15 => some (Mmi.vec2 inst (mmSubEpi 16))          -- `MMI1_PSUBUH`
  | 0x18 => some (Mmi.vec2 inst (mmAddsEpu 8))          -- `MMI1_PADDUB`
  | 0x19 => some (Mmi.vec2 inst (mmSubsEpu 8))          -- `MMI1_PSUBUB`
  | _ => none

def translateMMI2Instruction (inst : Instruction) : Option Emitted :=
  match inst.sa.val with
  | 0x0D => some (translatePDIVW inst)
  | 0x10 => some (translatePMADDH inst)
  | 0x11 => some (translatePHMADH inst)
  | 0x14 => some (translatePMSUBH inst)
  | 0x15 => some (translatePHMSBH inst)
  | 0x1A => some (Mmi.vec1 inst inst.rs Mmi.exchangeHalfwords)  -- `translatePEXEH`
  | 0x1B => some (Mmi.vec1 inst inst.rs Mmi.reverseHalfwords)   -- `translatePREVH`
  | 0x1C => some (translatePMULTH inst)
  | 0x1D => some (translatePDIVBW inst)
  | 0x1E => some (Mmi.vec1 inst inst.rs Mmi.ps2Pexew)           -- `translatePEXEW`
  | 0x1F => some (Mmi.vec1 inst inst.rs Mmi.rotateWords)        -- `translatePROT3W`
  | _ => none

def translateMMI3Instruction (inst : Instruction) : Option Emitted :=
  match inst.sa.val with
  | 0x0D => some (translatePDIVUW inst)
  | 0x1A => some (Mmi.vec1 inst inst.rs Mmi.exchangeHalfwords)  -- `translatePEXCH`
  -- the one shuffle that reads the field the instruction has its source in
  | 0x1B => some (Mmi.vec1 inst inst.rt Mmi.copyHalfword)       -- `translatePCPYH`
  | 0x1E => some (Mmi.vec1 inst inst.rs Mmi.exchangeWords)      -- `translatePEXCW`
  | _ => none

/-- `MmiTranslator::translate`. -/
def translateMmi (sse41 : Bool) (inst : Instruction) : Option Emitted :=
  if inst.function = mmiMadd then some (madd inst)
  else if inst.function = mmiMaddu then some (maddu inst)
  else if inst.function = mmiMsub then some (msub inst)
  else if inst.function = mmiMsubu then some (msubu inst)
  else if inst.function = mmiMmi0 then translateMMI0Instruction sse41 inst
  else if inst.function = mmiMmi2 then translateMMI2Instruction inst
  else if inst.function = mmiMult1 then some (mult1 inst)
  else if inst.function = mmiMultu1 then some (multu1 inst)
  else if inst.function = mmiDiv1 then some (div1 inst)
  else if inst.function = mmiDivu1 then some (divu1 inst)
  else if inst.function = mmiMadd1 then some (madd1 inst)
  else if inst.function = mmiMaddu1 then some (maddu1 inst)
  else if inst.function = mmiMmi1 then translateMMI1Instruction inst
  else if inst.function = mmiMmi3 then translateMMI3Instruction inst
  else none

/-- `SpecialTranslator::translate`. -/
def translateSpecial (inst : Instruction) : Option Emitted :=
  if inst.function = specialMult then some (mult inst)
  else if inst.function = specialMultu then some (multu inst)
  else if inst.function = specialDiv then some (div inst)
  else if inst.function = specialDivu then some (divu inst)
  else if inst.function = specialAdd then some (add inst)
  else if inst.function = specialAddu then some (addu inst)
  else if inst.function = specialSub then some (sub inst)
  else if inst.function = specialSubu then some (subu inst)
  else if inst.function = specialDadd then some (dadd inst)
  else if inst.function = specialDaddu then some (daddu inst)
  else if inst.function = specialDsub then some (dsub inst)
  else if inst.function = specialDsubu then some (dsubu inst)
  else none

def translate (sse41 : Bool) (inst : Instruction) : Option Emitted :=
  match inst.opcode with
  | .special => translateSpecial inst
  | .mmi => translateMmi sse41 inst
  | .addi => some (addi inst)
  | .addiu => some (addiu inst)
  | .daddi => some (daddi inst)
  | .daddiu => some (daddiu inst)
  | _ => none

end Arith

end Ps2Recomp

/-!
# Packed words and the moves of HI and LO

`MmiTranslator::translate` and `SpecialTranslator::translate`, for the packed multiplications of
words, the variable shifts, and the instructions that move HI and LO.
-/

namespace Ps2Recomp

open Simd

namespace Packed

variable (inst : Instruction)

/-! ## Function fields -/

def specialSllv : BitVec 6 := 0x04
def specialSrlv : BitVec 6 := 0x06
def specialSrav : BitVec 6 := 0x07
def specialMfhi : BitVec 6 := 0x10
def specialMthi : BitVec 6 := 0x11
def specialMflo : BitVec 6 := 0x12
def specialMtlo : BitVec 6 := 0x13

def mmiMfhi1 : BitVec 6 := 0x10
def mmiMthi1 : BitVec 6 := 0x11
def mmiMflo1 : BitVec 6 := 0x12
def mmiMtlo1 : BitVec 6 := 0x13
def mmiPmfhl : BitVec 6 := 0x30
def mmiPmthl : BitVec 6 := 0x31

/-! ## Multiplications of words -/

/-- `p01` and `p23`: each holds the products of the words 0 and 2 of its operands. -/
def p01 (c : GuestCtx) : M128 := mmMulEpu32 (c.gprVec inst.rs) (c.gprVec inst.rt)

def p23 (c : GuestCtx) : M128 :=
  mmMulEpu32 (mmSrliSi128 8 (c.gprVec inst.rs)) (mmSrliSi128 8 (c.gprVec inst.rt))

/-- The four products, each taken out with `_mm_cvtsi128_si64`. -/
def wordProduct (c : GuestCtx) : ℕ → BitVec 64
  | 0 => mmCvtsi128Si64 (p01 inst c)
  | 1 => mmCvtsi128Si64 (mmSrliSi128 8 (p01 inst c))
  | 2 => mmCvtsi128Si64 (p23 inst c)
  | _ => mmCvtsi128Si64 (mmSrliSi128 8 (p23 inst c))

/-- `acc += ..` or `acc -= ..`, four times, where `acc` is unsigned. -/
def accumulateWords (subtract : Bool) (init : HiLo → BitVec 64) : Emitted := fun c =>
  let acc := (List.range 4).foldl
    (fun acc k => if subtract then acc - wordProduct inst c k else acc + wordProduct inst c k)
    (init c.hilo)
  some (Arith.leaveSum inst acc c)

def translatePMADDW : Emitted := accumulateWords inst false Arith.acc0
def translatePMSUBW : Emitted := accumulateWords inst true Arith.acc0
def translatePMULTW : Emitted := accumulateWords inst false fun _ => 0
def translatePMADDUW : Emitted := accumulateWords inst false Arith.acc0

/-- HI and LO get the first product only, and the destination the low words of all four. -/
def translatePMULTUW : Emitted := fun c =>
  let res := wordProduct inst c
  some ((c.setLoHi (Arith.lowWordU (res 0)) (Arith.highWordU (res 0))).setGprVec inst.rd
    (mmSet 32 [(res 3).setWidth 32, (res 2).setWidth 32, (res 1).setWidth 32, (res 0).setWidth 32]))

/-! ## Variable shifts -/

/-- The scalar operations on a word and an amount of five bits: `SLL32`, `SRL32`, `SRA32`. -/
def sll32 (a count : Word) : Word := a <<< (count &&& 0x1F)
def srl32 (a count : Word) : Word := a >>> (count &&& 0x1F)
def sra32 (a count : Word) : Word := a.sshiftRight (count &&& 0x1F).toNat

/-- `SPECIAL_SLLV` and its kin: the word of `rt`, by the amount of `rs`. -/
def shiftWord (op : Word → Word → Word) : Emitted := fun c =>
  some (c.setGprS32 inst.rd (op (c.gprU32 inst.rt) (c.gprU32 inst.rs)))

def sllv : Emitted := shiftWord inst sll32
def srlv : Emitted := shiftWord inst srl32
def srav : Emitted := shiftWord inst sra32

/-- `_mm_custom_sllv_epi32`, `_mm_custom_srlv_epi32`, `_mm_custom_srav_epi32`: word by word. -/
def mmCustomShift (op : Word → Word → Word) (a count : M128) : M128 := map2 32 op a count

/-- `PS2_PSLLVW` and its kin get `rs` as the value and `rt` as the amount. -/
def psllvw : Emitted := Mmi.vec2 inst (mmCustomShift sll32)
def psrlvw : Emitted := Mmi.vec2 inst (mmCustomShift srl32)
def psravw : Emitted := Mmi.vec2 inst (mmCustomShift sra32)

/-! ## Moves of HI and LO -/

/-- `SET_GPR_U64(ctx, rd, ctx->hi);` and the like. -/
def moveFrom (field : HiLo → BitVec 64) : Emitted := fun c =>
  some (c.setGprU64 inst.rd (field c.hilo))

/-- `ctx->hi = GPR_U64(ctx, rs);` and the like. -/
def moveTo (set : HiLo → BitVec 64 → HiLo) : Emitted := fun c =>
  some (c.setHiLo (set c.hilo (c.gprU64 inst.rs)))

/-- `ctx->hi = GPR_U32(ctx, rs);` and the like. -/
def moveWordTo (set : HiLo → BitVec 64 → HiLo) : Emitted := fun c =>
  some (c.setHiLo (set c.hilo ((c.gprU32 inst.rs).setWidth 64)))

def mfhi : Emitted := moveFrom inst (·.hi)
def mflo : Emitted := moveFrom inst (·.lo)
def mfhi1 : Emitted := moveFrom inst (·.hi1)
def mflo1 : Emitted := moveFrom inst (·.lo1)

def mthi : Emitted := moveTo inst fun v x => { v with hi := x }
def mtlo : Emitted := moveTo inst fun v x => { v with lo := x }
def mthi1 : Emitted := moveTo inst fun v x => { v with hi1 := x }
def mtlo1 : Emitted := moveTo inst fun v x => { v with lo1 := x }

/-- `MMI2_PMFHI` and `MMI2_PMFLO`. -/
def pmfhi : Emitted := moveFrom inst (·.hi)
def pmflo : Emitted := moveFrom inst (·.lo)

def translatePMTHI : Emitted := moveWordTo inst fun v x => { v with hi := x }
def translatePMTLO : Emitted := moveWordTo inst fun v x => { v with lo := x }

/-- `PMFHL_LW` of `translatePMFHLInstruction`, with `PS2_PMFHL_LW`. -/
def pmfhlLw : Emitted := fun c =>
  some (c.setGprVec inst.rd (mmUnpackloEpi64 (mmSet1Epi 64 c.hilo.lo) (mmSet1Epi 64 c.hilo.hi)))

/-- `PMFHL_LW` of `translatePMTHLInstruction`: `_mm_extract_epi32` is an `int`. -/
def pmthlLw : Emitted := fun c =>
  let val := c.gprVec inst.rs
  some (c.setLoHi ((lane 32 0 val).signExtend 64) ((lane 32 1 val).signExtend 64))

/-! ## The translators -/

def translateMMI2Instruction (inst : Instruction) : Option Emitted :=
  match inst.sa.val with
  | 0x00 => some (translatePMADDW inst)
  | 0x02 => some (psllvw inst)
  | 0x03 => some (psrlvw inst)
  | 0x04 => some (translatePMSUBW inst)
  | 0x08 => some (pmfhi inst)
  | 0x09 => some (pmflo inst)
  | 0x0C => some (translatePMULTW inst)
  | _ => none

def translateMMI3Instruction (inst : Instruction) : Option Emitted :=
  match inst.sa.val with
  | 0x00 => some (translatePMADDUW inst)
  | 0x03 => some (psravw inst)
  | 0x08 => some (translatePMTHI inst)
  | 0x09 => some (translatePMTLO inst)
  | 0x0C => some (translatePMULTUW inst)
  | _ => none

/-- `MmiTranslator::translate`. -/
def translateMmi (inst : Instruction) : Option Emitted :=
  if inst.function = Arith.mmiMmi2 then translateMMI2Instruction inst
  else if inst.function = mmiMfhi1 then some (mfhi1 inst)
  else if inst.function = mmiMthi1 then some (mthi1 inst)
  else if inst.function = mmiMflo1 then some (mflo1 inst)
  else if inst.function = mmiMtlo1 then some (mtlo1 inst)
  else if inst.function = Arith.mmiMmi3 then translateMMI3Instruction inst
  else if inst.function = mmiPmfhl then if inst.sa = 0 then some (pmfhlLw inst) else none
  else if inst.function = mmiPmthl then if inst.sa = 0 then some (pmthlLw inst) else none
  else none

/-- `SpecialTranslator::translate`. -/
def translateSpecial (inst : Instruction) : Option Emitted :=
  if inst.function = specialSllv then some (sllv inst)
  else if inst.function = specialSrlv then some (srlv inst)
  else if inst.function = specialSrav then some (srav inst)
  else if inst.function = specialMfhi then some (mfhi inst)
  else if inst.function = specialMthi then some (mthi inst)
  else if inst.function = specialMflo then some (mflo inst)
  else if inst.function = specialMtlo then some (mtlo inst)
  else none

/-- `InstructionTranslator::translate`, for the instructions above and those of `Arith.translate`. -/
def translate (sse41 : Bool) (inst : Instruction) : Option Emitted :=
  match inst.opcode with
  | .special => (translateSpecial inst).or (Arith.translate sse41 inst)
  | .mmi => (translateMmi inst).or (Arith.translate sse41 inst)
  | _ => Arith.translate sse41 inst

end Packed

end Ps2Recomp
