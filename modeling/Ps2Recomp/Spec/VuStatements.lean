import Ps2Recomp.Spec.VuMicro

/-!
# The other statements of VU0 instructions

Conversions, divisions, the random register, the calls of microprograms (`vu_translation_helpers.cpp`), and
the loads and stores of vector registers (`OPCODE_LDC2` and `OPCODE_SDC2` in `instruction_translator.cpp`).
With them `VuTranslator::translate` is complete.

What a microprogram does to the state of the interpreter and to the memory is a parameter (`execute`).
-/

namespace Ps2Recomp.Vu

open Vectors Memory Statement

namespace Cop2Instruction

def vu0S2Vsqrt : Word := 0x39

/-- `vectorInfo.ftf` -/
def ftf (inst : Cop2Instruction) : Fin 4 :=
  let vuFunc := if 0x3C ≤ inst.function then special2Func inst.raw else inst.function.setWidth 32
  if cop2Co ≤ inst.rs ∧ [vu0S2Vdiv, vu0S2Vsqrt, vu0S2Vrsqrt].contains vuFunc then .ofNat 4 (inst.raw >>> 23).toNat else 0

end Cop2Instruction

/-! ### Conversions and divisions -/

section Conversions

variable (f : FloatOps) (inst : Cop2Instruction) (v : Vu0)

/-- `1.0f / (1 << shift)`, for the four shifts. -/
def scaleDown : ℕ → Word
  | 0 => 0x3F800000
  | 4 => 0x3D800000
  | 12 => 0x39800000
  | _ => 0x38000000

/-- `static_cast<float>(1 << shift)`, for the four shifts. -/
def scaleUp : ℕ → Word
  | 0 => 0x3F800000
  | 4 => 0x41800000
  | 12 => 0x45800000
  | _ => 0x47000000

def translateVuVitof (shift : ℕ) : Vu0 :=
  blendVf inst v inst.rt (ps2Vmul f (fun c => f.ofInt (v.vf inst.rd c)) (set1Ps (scaleDown shift)))

def translateVuVftoi (shift : ℕ) : Vu0 :=
  blendVf inst v inst.rt fun c => f.toInt (ps2Vmul f (v.vf inst.rd) (set1Ps (scaleUp shift)) c)

def translateVuVdiv : Vu0 :=
  let fs := v.vf inst.rd inst.fsf
  let ft := v.vf inst.rt inst.ftf
  { v with q := if feq ft 0 then 0 else f.div fs ft }

def translateVuVsqrt : Vu0 :=
  let ft := v.vf inst.rt inst.ftf
  { v with q := f.sqrt (if f.lt 0 ft then ft else 0) }

def translateVuVrsqrt : Vu0 :=
  let ft := v.vf inst.rt inst.ftf
  { v with q := if f.lt 0 ft then f.div 0x3F800000 (f.sqrt ft) else 0 }

end Conversions

/-! ### The random register -/

section Random

variable (inst : Cop2Instruction) (v : Vu0)

def translateVuVrnext : Vu0 :=
  let feedback := v.r 0 ^^^ (v.r 0 <<< 13) ^^^ (v.r 1 >>> 19) ^^^ (v.r 2 <<< 7)
  { v with r := ![v.r 1, v.r 2, v.r 3, feedback] }

def translateVuVrget : Vu0 := blendVf inst v inst.rt v.r

def translateVuVrinit : Vu0 :=
  let bits := v.vf inst.rd inst.fsf
  let seed := if bits = 0 then 1 else bits
  let next (r : Word) : Word := r * 0x41C64E6D + 0x3039
  { v with r := ![seed, next seed, next (next seed), next (next (next seed))] }

def translateVuVrxor : Vu0 :=
  let srcBits := v.vf inst.rd inst.fsf
  let mixed : Vec := fun c =>
    let xored := v.r c ^^^ srcBits
    let once := xored ^^^ (xored <<< 7)
    once ^^^ (once >>> 9)
  { v with r := mixed }

end Random

/-! ### Microprograms -/

def seedVu0IdleSuccess {D : Type} (c : Ctx Vu0) (m : Ps2Memory D) : Ctx Vu0 × Ps2Memory D :=
  let v := { c.sys.rest with clipFlags := 0, clipFlags2 := 0, macFlags := 0, q := one, vpuStat := 0, vpuStat2 := 0 }
  ({ c with sys := { c.sys with vu0Status := 0, rest := v } }, m)

def copyVu0StateToContext (s : VU1State) (c : Ctx Vu0) : Ctx Vu0 :=
  let v := { c.sys.rest with
    vf := Function.update s.vf 0 vf0
    vi := Function.update (fun n => (s.vi n).setWidth 16) 0 0
    acc := s.acc
    q := s.q
    p := s.p
    i := s.i
    macFlags := s.mac
    clipFlags := s.clip
    clipFlags2 := s.clip
    itop := s.itop
    pc := s.pc
    tpc := s.pc
    vpuStat := 0
    vpuStat2 := 0 }
  { c with sys := { c.sys with vu0Status := s.status.setWidth 16, rest := v } }

section Calls

variable {D : Type} (execute : Word → VU1State → Ps2Memory D → VU1State × Ps2Memory D)

/-- `PS2Runtime::executeVU0Microprogram`. The call is `execute startPC state`. -/
def executeVU0Microprogram (address : Word) (c : Ctx Vu0) (m : Ps2Memory D) : Ctx Vu0 × Ps2Memory D :=
  let startPC := address &&& (~~~0x7 : Word)
  if startPC + 8 > vu0CodeSize then seedVu0IdleSuccess c m
  else
    let (state, m') := execute startPC (copyVu0ContextToState c) m
    (copyVu0StateToContext state c, m')

variable (inst : Cop2Instruction)

def translateVuVcallms : Statement D := fun c m =>
  let targetByteAddr := ((inst.raw >>> 6) &&& (0x1FF : Word)) <<< 3
  let c := { c with sys := { c.sys with rest := { c.sys.rest with tpc := targetByteAddr } } }
  some (executeVU0Microprogram execute targetByteAddr c m)

def translateVuVcallmsr : Statement D := fun c m => do
  let instrIndex := (← c.sys.rest.getVi inst.rd) &&& 0x1FF
  let targetByteAddr := instrIndex.setWidth 32 <<< 3
  let c := { c with sys := { c.sys with rest := { c.sys.rest with pc := targetByteAddr } } }
  return executeVU0Microprogram execute targetByteAddr c m

end Calls

/-! ### The translator -/

section Translate

variable {D : Type} (f : FloatOps) (d : Devices D) (execute : Word → VU1State → Ps2Memory D → VU1State × Ps2Memory D)

/-- `emitUnhandledInstruction` -/
def unhandled : Statement D := fun _ _ => none

/-- The functions below `0x3C` that `translateSpecial1` does not list. -/
def restSpecial1 (inst : Cop2Instruction) : ℕ → Statement D
  | 0x38 => translateVuVcallms execute inst
  | 0x39 => translateVuVcallmsr execute inst
  | _ => unhandled

/-- The selectors that `translateSpecial2` does not list. -/
def restSpecial2 (inst : Cop2Instruction) : ℕ → Statement D
  | 0x10 => onVu0 (translateVuVitof f inst · 0)
  | 0x11 => onVu0 (translateVuVitof f inst · 4)
  | 0x12 => onVu0 (translateVuVitof f inst · 12)
  | 0x13 => onVu0 (translateVuVitof f inst · 15)
  | 0x14 => onVu0 (translateVuVftoi f inst · 0)
  | 0x15 => onVu0 (translateVuVftoi f inst · 4)
  | 0x16 => onVu0 (translateVuVftoi f inst · 12)
  | 0x17 => onVu0 (translateVuVftoi f inst · 15)
  | 0x38 => onVu0 (translateVuVdiv f inst)
  | 0x39 => onVu0 (translateVuVsqrt f inst)
  | 0x3A => onVu0 (translateVuVrsqrt f inst)
  | 0x3B => onVu0 id
  | 0x40 => onVu0 translateVuVrnext
  | 0x41 => onVu0 (translateVuVrget inst)
  | 0x42 => onVu0 (translateVuVrinit inst)
  | 0x43 => onVu0 (translateVuVrxor inst)
  | _ => unhandled

/-- The statements outside of the arithmetic, integer and memory groups. -/
def otherStatements (inst : Cop2Instruction) : Statement D :=
  if cop2Co ≤ inst.rs then
    if 0x3C ≤ inst.function then restSpecial2 f inst (special2Func inst.raw).toNat
    else restSpecial1 execute inst inst.function.toNat
  else unhandled

/-- `VuTranslator::translate`, with all of its statements. -/
def translateCop2 (inst : Cop2Instruction) : Statement D := translate f d (otherStatements f execute) inst

/-- `OPCODE_LDC2` -/
def translateLqc2 (rs rt : Reg) (simmediate : Word) : Statement D := fun c m => do
  let (value, m') ← read128 d (c.gprU32 rs + simmediate) m
  onVu0 (fun v => { v with vf := Function.update v.vf rt value }) c m'

/-- `OPCODE_SDC2` -/
def translateSqc2 (rs rt : Reg) (simmediate : Word) : Statement D := fun c m => do
  let m' ← write128 d (c.gprU32 rs + simmediate) (c.sys.rest.vf rt) m
  return (c, m')

end Translate

/-! ### Contexts -/

/-- All registers are zero. -/
def zeroVu0 : Vu0 where
  vf _ := 0
  vi _ := 0
  q := 0
  p := 0
  i := 0
  r := 0
  acc := 0
  macFlags := 0
  clipFlags := 0
  clipFlags2 := 0
  cmsar0 := 0
  cmsar1 := 0
  cmsar2 := 0
  cmsar3 := 0
  vpuStat := 0
  vpuStat2 := 0
  vpuStat3 := 0
  vpuStat4 := 0
  tpc := 0
  tpc2 := 0
  fbrst := 0
  fbrst2 := 0
  fbrst3 := 0
  fbrst4 := 0
  itop := 0
  top := 0
  info := 0
  xitop := 0
  pc := 0

/-- `m_cpuContext` behind `PS2Runtime::PS2Runtime`. -/
def runtimeContext : Ctx Vu0 where
  r _ := 0
  sys := { pc := 0, inDelaySlot := false, branchPc := 0, fcr31 := 0, vu0Status := 0, llbit := 0, lladdr := 0, rest := zeroVu0 }

/-- `R5900Context::R5900Context` -/
def defaultContext : Ctx Vu0 :=
  { runtimeContext with sys := { runtimeContext.sys with rest := { zeroVu0 with q := one } } }

end Ps2Recomp.Vu
