import Ps2Recomp.Lib.Vectors
import Ps2Recomp.Spec.Translate
import Ps2Recomp.Spec.Memory

/-!
# Emitted statements of VU0 instructions

`VuTranslator::translate` (`vu_translator.cpp`, `vu_translation_helpers.cpp`) turns an instruction of
coprocessor 2 into one statement on the VU0 registers of `R5900Context`. A definition here is the
effect of that statement, under the name of the function that emits it.

The arithmetic of the floats is a parameter (`FloatOps`), and so are the statements outside of the
arithmetic, integer and memory groups (`other`): conversions, divisions, the random register and the
calls of microprograms. A statement that indexes the integer registers outside of their array, or that
throws, has no result.
-/

namespace Ps2Recomp.Vu

open Vectors Memory

/-! ### Floats -/

/-- **The arithmetic of the host** on single precision floats. Apart from the NaNs, `<` follows the order
of the floats. -/
structure FloatOps where
  add : Word → Word → Word
  sub : Word → Word → Word
  mul : Word → Word → Word
  div : Word → Word → Word
  sqrt : Word → Word
  /-- `static_cast<float>` of an `int32_t`. -/
  ofInt : Word → Word
  /-- `static_cast<int32_t>` of a float. -/
  toInt : Word → Word
  lt : Word → Word → Bool
  lt_iff : ∀ a b, isNaN a = false → isNaN b = false → (lt a b = true ↔ value a < value b)

/-! ### Registers -/

/-- The registers of VU0 in `R5900Context`, apart from `vu0_status`. -/
structure Vu0 where
  vf : Reg → Vec
  vi : Fin 16 → BitVec 16
  q : Word
  p : Word
  i : Word
  r : Vec
  acc : Vec
  macFlags : Word
  clipFlags : Word
  clipFlags2 : Word
  cmsar0 : Word
  cmsar1 : Word
  cmsar2 : Word
  cmsar3 : Word
  vpuStat : Word
  vpuStat2 : Word
  vpuStat3 : Word
  vpuStat4 : Word
  tpc : Word
  tpc2 : Word
  fbrst : Word
  fbrst2 : Word
  fbrst3 : Word
  fbrst4 : Word
  itop : Word
  top : Word
  info : Word
  xitop : Word
  pc : Word

namespace Vu0

/-- `ctx->vi[n]`, for reading. -/
def getVi (v : Vu0) (n : Reg) : Option (BitVec 16) := if h : n.val < 16 then some (v.vi ⟨n, h⟩) else none

/-- `ctx->vi[n] = x`. -/
def setVi (v : Vu0) (n : Reg) (x : BitVec 16) : Option Vu0 :=
  if h : n.val < 16 then some { v with vi := Function.update v.vi ⟨n, h⟩ x } else none

end Vu0

/-- What a statement does to the registers and the memory. -/
abbrev Statement (D : Type) := Ctx Vu0 → Ps2Memory D → Option (Ctx Vu0 × Ps2Memory D)

namespace Statement

variable {D : Type}

/-- A statement on the registers of VU0. -/
def onVu0 (g : Vu0 → Vu0) : Statement D := fun c m =>
  some ({ c with sys := { c.sys with rest := g c.sys.rest } }, m)

/-- A statement on them that may fail. -/
def tryVu0 (g : Vu0 → Option Vu0) : Statement D := fun c m =>
  (g c.sys.rest).map fun v => ({ c with sys := { c.sys with rest := v } }, m)

/-- A statement on them and the memory. -/
def onMemory (g : Vu0 → Ps2Memory D → Option (Vu0 × Ps2Memory D)) : Statement D := fun c m =>
  (g c.sys.rest m).map fun (v, m') => ({ c with sys := { c.sys with rest := v } }, m')

end Statement

/-! ### Instructions -/

/-- An instruction of coprocessor 2. -/
structure Cop2Instruction where
  raw : Word
  rs : Reg
  rt : Reg
  rd : Reg
  sa : Reg
  function : BitVec 6
  /-- `vectorInfo.vectorField` -/
  vectorField : BitVec 4
  /-- `vectorInfo.fsf` -/
  fsf : Fin 4
  deriving DecidableEq, Repr

def vu0S2Vdiv : Word := 0x38

def vu0S2Vrsqrt : Word := 0x3A

def vu0S2Vmtir : Word := 0x3C

def vu0S2Vrinit : Word := 0x42

def vu0S2Vrxor : Word := 0x43

def cop2Co : Reg := 0x10

/-- The selector of the table that the functions from `0x3C` on lead to. -/
def special2Func (raw : Word) : Word := (((raw >>> 6) &&& 0x1F) <<< 2) ||| (raw &&& 0x3)

/-- `decodeInstruction` and `decodeCOP2` -/
def decodeCop2 (raw : Word) : Cop2Instruction :=
  let rs : Reg := .ofNat 32 (raw >>> 21).toNat
  let function : BitVec 6 := raw.setWidth 6
  let isCo := cop2Co ≤ rs
  let vuFunc := if 0x3C ≤ function then special2Func raw else function.setWidth 32
  let selects := isCo && [vu0S2Vdiv, vu0S2Vrsqrt, vu0S2Vmtir, vu0S2Vrinit, vu0S2Vrxor].contains vuFunc
  { raw, rs, function
    rt := .ofNat 32 (raw >>> 16).toNat
    rd := .ofNat 32 (raw >>> 11).toNat
    sa := .ofNat 32 (raw >>> 6).toNat
    vectorField := if isCo then (raw >>> 21).setWidth 4 else 0xF
    fsf := if selects then .ofNat 4 (raw >>> 21).toNat else 0 }

namespace Cop2Instruction

/-- `inst.function & 0x3` -/
def field (inst : Cop2Instruction) : Fin 4 := .ofNat 4 inst.function.toNat

end Cop2Instruction

/-- `codegen::vuMaskExpr`, which the statements also write out. -/
def vuMaskExpr (destMask : BitVec 4) : Vec :=
  setEpi32 (if destMask &&& 0x1 ≠ 0 then -1 else 0) (if destMask &&& 0x2 ≠ 0 then -1 else 0)
    (if destMask &&& 0x4 ≠ 0 then -1 else 0) (if destMask &&& 0x8 ≠ 0 then -1 else 0)

/-! ### Arithmetic -/

section Arithmetic

variable (f : FloatOps)

/-- `PS2_VADD` -/
def ps2Vadd (a b : Vec) : Vec := fun c => f.add (a c) (b c)

/-- `PS2_VSUB` -/
def ps2Vsub (a b : Vec) : Vec := fun c => f.sub (a c) (b c)

/-- `PS2_VMUL` -/
def ps2Vmul (a b : Vec) : Vec := fun c => f.mul (a c) (b c)

/-- `_mm_max_ps`: the second operand, unless the first is greater. -/
def maxPs (a b : Vec) : Vec := fun c => if f.lt (b c) (a c) then a c else b c

/-- `_mm_min_ps`: the second operand, unless the first is less. -/
def minPs (a b : Vec) : Vec := fun c => if f.lt (a c) (b c) then a c else b c

/-- `_mm_cmpgt_ps` -/
def cmpgtPs (a b : Vec) : Vec := compared fun c => f.lt (b c) (a c)

/-- `_mm_cmplt_ps` -/
def cmpltPs (a b : Vec) : Vec := compared fun c => f.lt (a c) (b c)

variable (inst : Cop2Instruction) (v : Vu0)

/-- The second operand of the statements on whole registers. -/
def whole : Vec := v.vf inst.rt

/-- The second operand of the `_Field` statements. -/
def oneField : Vec := shufflePs (v.vf inst.rt) (v.vf inst.rt) inst.field inst.field inst.field inst.field

/-- `_mm_set1_ps(ctx->vu0_q)` -/
def fromQ (_ : Cop2Instruction) (v : Vu0) : Vec := set1Ps v.q

/-- `_mm_set1_ps(ctx->vu0_i)` -/
def fromI (_ : Cop2Instruction) (v : Vu0) : Vec := set1Ps v.i

/-- The fields of a register that the instruction names are written. -/
def blendVf (reg : Reg) (res : Vec) : Vu0 :=
  { v with vf := Function.update v.vf reg (blendvPs (v.vf reg) res (vuMaskExpr inst.vectorField)) }

/-- The fields of the accumulator that the instruction names are written. -/
def blendAcc (res : Vec) : Vu0 := { v with acc := blendvPs v.acc res (vuMaskExpr inst.vectorField) }

variable (op : Vec → Vec → Vec) (operand : Cop2Instruction → Vu0 → Vec)

/-- The shape of the statements that write a register. -/
def toVf : Vu0 := blendVf inst v inst.sa (op (v.vf inst.rd) (operand inst v))

/-- The shape of the statements that add a product to the accumulator, and write a register. -/
def productToVf : Vu0 :=
  let mulRes := ps2Vmul f (v.vf inst.rd) (operand inst v)
  let res := op v.acc mulRes
  { blendVf inst v inst.sa res with acc := res }

/-- The shape of the statements that write the accumulator. -/
def toAcc : Vu0 := blendAcc inst v (op (v.vf inst.rd) (operand inst v))

/-- The shape of the statements that add a product to the accumulator. -/
def productToAcc : Vu0 :=
  let mulRes := ps2Vmul f (v.vf inst.rd) (operand inst v)
  blendAcc inst v (op v.acc mulRes)

def translateVuVaddField : Vu0 := toVf inst v (ps2Vadd f) oneField

def translateVuVsubField : Vu0 := toVf inst v (ps2Vsub f) oneField

def translateVuVmulField : Vu0 := toVf inst v (ps2Vmul f) oneField

def translateVuVadd : Vu0 := toVf inst v (ps2Vadd f) whole

def translateVuVsub : Vu0 := toVf inst v (ps2Vsub f) whole

def translateVuVmul : Vu0 := toVf inst v (ps2Vmul f) whole

def translateVuVmaddField : Vu0 := productToVf f inst v (ps2Vadd f) oneField

def translateVuVmsubField : Vu0 := productToVf f inst v (ps2Vsub f) oneField

def translateVuVminiField : Vu0 := toVf inst v (minPs f) oneField

def translateVuVmaxField : Vu0 := toVf inst v (maxPs f) oneField

def translateVuVmadd : Vu0 := productToVf f inst v (ps2Vadd f) whole

def translateVuVmaddq : Vu0 := productToVf f inst v (ps2Vadd f) fromQ

def translateVuVmaddi : Vu0 := productToVf f inst v (ps2Vadd f) fromI

def translateVuVmax : Vu0 := toVf inst v (maxPs f) whole

def translateVuVmaxi : Vu0 := toVf inst v (maxPs f) fromI

def translateVuVminii : Vu0 := toVf inst v (minPs f) fromI

def translateVuVmuli : Vu0 := toVf inst v (ps2Vmul f) fromI

def translateVuVmulq : Vu0 := toVf inst v (ps2Vmul f) fromQ

def translateVuVopmsub : Vu0 := productToVf f inst v (ps2Vsub f) whole

def translateVuVaddq : Vu0 := toVf inst v (ps2Vadd f) fromQ

def translateVuVaddi : Vu0 := toVf inst v (ps2Vadd f) fromI

def translateVuVmsub : Vu0 := productToVf f inst v (ps2Vsub f) whole

def translateVuVmini : Vu0 := toVf inst v (minPs f) whole

def translateVuVsubi : Vu0 := toVf inst v (ps2Vsub f) fromI

def translateVuVsubq : Vu0 := toVf inst v (ps2Vsub f) fromQ

def translateVuVmsubq : Vu0 := productToVf f inst v (ps2Vsub f) fromQ

def translateVuVmsubi : Vu0 := productToVf f inst v (ps2Vsub f) fromI

def translateVuVaddaField : Vu0 := toAcc inst v (ps2Vadd f) oneField

def translateVuVsubaField : Vu0 := toAcc inst v (ps2Vsub f) oneField

def translateVuVmaddaField : Vu0 := productToAcc f inst v (ps2Vadd f) oneField

def translateVuVmsubaField : Vu0 := productToAcc f inst v (ps2Vsub f) oneField

def translateVuVmulaField : Vu0 := toAcc inst v (ps2Vmul f) oneField

def translateVuVadda : Vu0 := toAcc inst v (ps2Vadd f) whole

def translateVuVaddaq : Vu0 := toAcc inst v (ps2Vadd f) fromQ

def translateVuVaddai : Vu0 := toAcc inst v (ps2Vadd f) fromI

def translateVuVsuba : Vu0 := toAcc inst v (ps2Vsub f) whole

def translateVuVsubaq : Vu0 := toAcc inst v (ps2Vsub f) fromQ

def translateVuVsubai : Vu0 := toAcc inst v (ps2Vsub f) fromI

def translateVuVmadda : Vu0 := productToAcc f inst v (ps2Vadd f) whole

def translateVuVmaddaq : Vu0 := productToAcc f inst v (ps2Vadd f) fromQ

def translateVuVmaddai : Vu0 := productToAcc f inst v (ps2Vadd f) fromI

def translateVuVmsuba : Vu0 := productToAcc f inst v (ps2Vsub f) whole

def translateVuVmsubaq : Vu0 := productToAcc f inst v (ps2Vsub f) fromQ

def translateVuVmsubai : Vu0 := productToAcc f inst v (ps2Vsub f) fromI

def translateVuVmula : Vu0 := toAcc inst v (ps2Vmul f) whole

def translateVuVmulaq : Vu0 := toAcc inst v (ps2Vmul f) fromQ

def translateVuVmulai : Vu0 := toAcc inst v (ps2Vmul f) fromI

def translateVuVopmula : Vu0 := toAcc inst v (ps2Vmul f) whole

/-- `VU0_S2_VABS` -/
def translateVuVabs : Vu0 := blendVf inst v inst.rt (andPs (v.vf inst.rd) (set1Ps 0x7FFFFFFF))

/-- `VU0_S2_VMOVE` -/
def translateVuVmove : Vu0 := blendVf inst v inst.rt (v.vf inst.rd)

/-- `VU0_S2_VMR32` -/
def translateVuVmr32 : Vu0 := blendVf inst v inst.rt (shufflePs (v.vf inst.rd) (v.vf inst.rd) 0 3 2 1)

/-- `VU0_S2_VCLIPw` -/
def translateVuVclipw : Vu0 :=
  let fs := v.vf inst.rd
  let ft := oneField inst v
  let negFt := xorPs ft (set1Ps 0x80000000)
  let gtMask := movemaskPs (cmpgtPs f fs ft)
  let ltMask := movemaskPs (cmpltPs f fs negFt)
  let flags := (ltMask &&& 0x1) <<< 0 ||| (gtMask &&& 0x1) <<< 1 ||| (ltMask &&& 0x2) <<< 1 |||
    (gtMask &&& 0x2) <<< 2 ||| (ltMask &&& 0x4) <<< 2 ||| (gtMask &&& 0x4) <<< 3
  { v with clipFlags := ((v.clipFlags <<< 6) ||| (flags &&& 0x3F)) &&& 0xFFFFFF }

end Arithmetic

/-! ### Integers and memory -/

section Memory

variable {D : Type} (d : Devices D) (inst : Cop2Instruction)

/-- `READ32` -/
def read32 (addr : Word) (m : Ps2Memory D) : Option (Word × Ps2Memory D) :=
  match d.readMacro .w32 addr m with
  | .ok value m' => some (value, m')
  | .error _ _ => none

/-- `WRITE32` -/
def write32 (addr value : Word) (m : Ps2Memory D) : Option (Ps2Memory D) :=
  match d.writeMacro .w32 addr value m with
  | .ok _ m' => some m'
  | .error _ _ => none

/-- `READ128`, as a vector. -/
def read128 (addr : Word) (m : Ps2Memory D) : Option (Vec × Ps2Memory D) :=
  match d.readMacro .w128 addr m with
  | .ok value m' => some (castSi128 value, m')
  | .error _ _ => none

/-- `WRITE128` of a vector. -/
def write128 (addr : Word) (value : Vec) (m : Ps2Memory D) : Option (Ps2Memory D) :=
  match d.writeMacro .w128 addr (castPs value) m with
  | .ok _ m' => some m'
  | .error _ _ => none

def translateVuVmtir (v : Vu0) : Option Vu0 := v.setVi inst.rt ((v.vf inst.rd inst.fsf).setWidth 16)

def translateVuVmfir (v : Vu0) : Option Vu0 := do
  let tmp := (← v.getVi inst.rd).signExtend 32
  return blendVf inst v inst.rt (set1Ps tmp)

def translateVuVilwr (v : Vu0) (m : Ps2Memory D) : Option (Vu0 × Ps2Memory D) := do
  let addr := ((← v.getVi inst.rd).setWidth 32 <<< 2) &&& 0x3FFC
  let (word, m) ← read32 d addr m
  return (← v.setVi inst.rt (word.setWidth 16), m)

def translateVuViswr (v : Vu0) (m : Ps2Memory D) : Option (Vu0 × Ps2Memory D) := do
  let addr := ((← v.getVi inst.rd).setWidth 32 <<< 2) &&& 0x3FFC
  let m ← write32 d addr ((← v.getVi inst.rt).setWidth 32) m
  return (v, m)

/-- The shape of the statements on three integer registers. -/
def onVi (op : BitVec 16 → BitVec 16 → BitVec 16) (v : Vu0) : Option Vu0 := do
  v.setVi inst.sa (op (← v.getVi inst.rd) (← v.getVi inst.rt))

def translateVuViadd : Vu0 → Option Vu0 := onVi inst (· + ·)

def translateVuVisub : Vu0 → Option Vu0 := onVi inst (· - ·)

def translateVuViand : Vu0 → Option Vu0 := onVi inst (· &&& ·)

def translateVuVior : Vu0 → Option Vu0 := onVi inst (· ||| ·)

def translateVuViaddi (v : Vu0) : Option Vu0 := do
  let sa : Word := .ofNat 32 inst.sa
  let imm5 := if sa &&& 0x10 ≠ 0 then sa ||| ~~~0x1F else sa
  v.setVi inst.rt (((← v.getVi inst.rd).setWidth 32 + imm5).setWidth 16)

/-- The address that `VLQI` and its siblings form from an integer register. -/
def quadAddr (vi : BitVec 16) : Word := (vi &&& 0x3FF).setWidth 32 <<< 4

def translateVuVlqi (v : Vu0) (m : Ps2Memory D) : Option (Vu0 × Ps2Memory D) := do
  let (res, m) ← read128 d (quadAddr (← v.getVi inst.rd)) m
  let v := blendVf inst v inst.rt res
  return (← v.setVi inst.rd (((← v.getVi inst.rd) + 1) &&& 0x3FF), m)

def translateVuVsqi (v : Vu0) (m : Ps2Memory D) : Option (Vu0 × Ps2Memory D) := do
  let addr := quadAddr (← v.getVi inst.rd)
  let (oldVal, m) ← read128 d addr m
  let res := blendvPs oldVal (v.vf inst.rt) (vuMaskExpr inst.vectorField)
  let m ← write128 d addr res m
  return (← v.setVi inst.rd (((← v.getVi inst.rd) + 1) &&& 0x3FF), m)

def translateVuVlqd (v : Vu0) (m : Ps2Memory D) : Option (Vu0 × Ps2Memory D) := do
  let v ← v.setVi inst.rd (((← v.getVi inst.rd) - 1) &&& 0x3FF)
  let (res, m) ← read128 d (quadAddr (← v.getVi inst.rd)) m
  return (blendVf inst v inst.rt res, m)

def translateVuVsqd (v : Vu0) (m : Ps2Memory D) : Option (Vu0 × Ps2Memory D) := do
  let v ← v.setVi inst.rd (((← v.getVi inst.rd) - 1) &&& 0x3FF)
  let addr := quadAddr (← v.getVi inst.rd)
  let (oldVal, m) ← read128 d addr m
  let res := blendvPs oldVal (v.vf inst.rt) (vuMaskExpr inst.vectorField)
  let m ← write128 d addr res m
  return (v, m)

end Memory

/-! ### Control registers -/

section Control

variable (inst : Cop2Instruction) (c : Ctx Vu0)

/-- `COP2_QMFC2` -/
def qmfc2 : Ctx Vu0 := c.setGprVec inst.rt (castPs (c.sys.rest.vf inst.rd))

/-- `COP2_QMTC2` -/
def qmtc2 (v : Vu0) : Vu0 := { v with vf := Function.update v.vf inst.rd (castSi128 (c.gprVec inst.rt)) }

/-- `COP2_CFC2`: the registers of `VU0_CR_*`. The statement of another number is a comment. -/
def cfc2 : Ctx Vu0 :=
  let v := c.sys.rest
  match inst.rd.val with
  | 0 => c.setGprS32 inst.rt (c.sys.vu0Status.setWidth 32)
  | 1 => c.setGprS32 inst.rt v.macFlags
  | 2 => c.setGprS32 inst.rt v.vpuStat
  | 3 => c.setGprVec inst.rt (castPs v.r)
  | 4 => c.setGprS32 inst.rt v.i
  | 5 => c.setGprS32 inst.rt v.clipFlags
  | 6 => c.setGprS32 inst.rt v.tpc
  | 7 => c.setGprS32 inst.rt v.cmsar0
  | 8 => c.setGprS32 inst.rt v.fbrst
  | 9 => c.setGprS32 inst.rt v.vpuStat2
  | 10 => c.setGprS32 inst.rt v.tpc2
  | 11 => c.setGprS32 inst.rt v.cmsar1
  | 12 => c.setGprS32 inst.rt v.fbrst2
  | 13 => c.setGprS32 inst.rt v.vpuStat3
  | 14 => c.setGprS32 inst.rt v.cmsar2
  | 15 => c.setGprS32 inst.rt v.fbrst3
  | 16 => c.setGprS32 inst.rt v.vpuStat4
  | 17 => c.setGprS32 inst.rt v.cmsar3
  | 18 => c.setGprS32 inst.rt v.fbrst4
  | 20 => c.setGprVec inst.rt (castPs v.acc)
  | 21 => c.setGprS32 inst.rt v.info
  | 22 => c.setGprS32 inst.rt v.clipFlags2
  | 26 => c.setGprS32 inst.rt v.p
  | 27 => c.setGprS32 inst.rt v.xitop
  | 28 => c.setGprS32 inst.rt v.itop
  | 29 => c.setGprS32 inst.rt v.top
  | _ => c

/-- `COP2_CTC2` -/
def ctc2 : Ctx Vu0 :=
  let v := c.sys.rest
  let value := c.gprU32 inst.rt
  let write (v : Vu0) : Ctx Vu0 := { c with sys := { c.sys with rest := v } }
  match inst.rd.val with
  | 0 => { c with sys := { c.sys with vu0Status := (value &&& 0xFFFF).setWidth 16 } }
  | 1 => write { v with macFlags := value }
  | 2 => write { v with vpuStat := value }
  | 3 => write { v with r := castSi128 (c.gprVec inst.rt) }
  | 4 => write { v with i := value }
  | 5 => write { v with clipFlags := value }
  | 6 => write { v with tpc := value }
  | 7 => write { v with cmsar0 := value }
  | 8 => write { v with fbrst := value }
  | 9 => write { v with vpuStat2 := value }
  | 10 => write { v with tpc2 := value }
  | 11 => write { v with cmsar1 := value }
  | 12 => write { v with fbrst2 := value }
  | 13 => write { v with vpuStat3 := value }
  | 14 => write { v with cmsar2 := value }
  | 15 => write { v with fbrst3 := value }
  | 16 => write { v with vpuStat4 := value }
  | 17 => write { v with cmsar3 := value }
  | 18 => write { v with fbrst4 := value }
  | 20 => write { v with acc := castSi128 (c.gprVec inst.rt) }
  | 21 => write { v with info := value }
  | 22 => write { v with clipFlags2 := value }
  | 26 => write { v with p := value }
  | 27 => write { v with xitop := value &&& 0x3FF }
  | 28 => write { v with itop := value &&& 0x3FF }
  | 29 => write { v with top := value &&& 0x3FF }
  | _ => c

end Control

/-! ### The translator -/

section Translate

open Statement

variable {D : Type} (f : FloatOps) (d : Devices D) (other : Cop2Instruction → Statement D)

/-- The functions below `0x3C`. -/
def translateSpecial1 (inst : Cop2Instruction) : ℕ → Statement D
  | 0x00 | 0x01 | 0x02 | 0x03 => onVu0 (translateVuVaddField f inst)
  | 0x04 | 0x05 | 0x06 | 0x07 => onVu0 (translateVuVsubField f inst)
  | 0x08 | 0x09 | 0x0A | 0x0B => onVu0 (translateVuVmaddField f inst)
  | 0x0C | 0x0D | 0x0E | 0x0F => onVu0 (translateVuVmsubField f inst)
  | 0x10 | 0x11 | 0x12 | 0x13 => onVu0 (translateVuVmaxField f inst)
  | 0x14 | 0x15 | 0x16 | 0x17 => onVu0 (translateVuVminiField f inst)
  | 0x18 | 0x19 | 0x1A | 0x1B => onVu0 (translateVuVmulField f inst)
  | 0x1C => onVu0 (translateVuVmulq f inst)
  | 0x1D => onVu0 (translateVuVmaxi f inst)
  | 0x1E => onVu0 (translateVuVmuli f inst)
  | 0x1F => onVu0 (translateVuVminii f inst)
  | 0x20 => onVu0 (translateVuVaddq f inst)
  | 0x21 => onVu0 (translateVuVmaddq f inst)
  | 0x22 => onVu0 (translateVuVaddi f inst)
  | 0x23 => onVu0 (translateVuVmaddi f inst)
  | 0x24 => onVu0 (translateVuVsubq f inst)
  | 0x25 => onVu0 (translateVuVmsubq f inst)
  | 0x26 => onVu0 (translateVuVsubi f inst)
  | 0x27 => onVu0 (translateVuVmsubi f inst)
  | 0x28 => onVu0 (translateVuVadd f inst)
  | 0x29 => onVu0 (translateVuVmadd f inst)
  | 0x2A => onVu0 (translateVuVmul f inst)
  | 0x2B => onVu0 (translateVuVmax f inst)
  | 0x2C => onVu0 (translateVuVsub f inst)
  | 0x2D => onVu0 (translateVuVmsub f inst)
  | 0x2E => onVu0 (translateVuVopmsub f inst)
  | 0x2F => onVu0 (translateVuVmini f inst)
  | 0x30 => tryVu0 (translateVuViadd inst)
  | 0x31 => tryVu0 (translateVuVisub inst)
  | 0x32 => tryVu0 (translateVuViaddi inst)
  | 0x34 => tryVu0 (translateVuViand inst)
  | 0x35 => tryVu0 (translateVuVior inst)
  | _ => other inst

/-- The functions from `0x3C` on. -/
def translateSpecial2 (inst : Cop2Instruction) : ℕ → Statement D
  | 0x00 | 0x01 | 0x02 | 0x03 => onVu0 (translateVuVaddaField f inst)
  | 0x04 | 0x05 | 0x06 | 0x07 => onVu0 (translateVuVsubaField f inst)
  | 0x08 | 0x09 | 0x0A | 0x0B => onVu0 (translateVuVmaddaField f inst)
  | 0x0C | 0x0D | 0x0E | 0x0F => onVu0 (translateVuVmsubaField f inst)
  | 0x18 | 0x19 | 0x1A | 0x1B => onVu0 (translateVuVmulaField f inst)
  | 0x1C => onVu0 (translateVuVmulaq f inst)
  | 0x1D => onVu0 (translateVuVabs inst)
  | 0x1E => onVu0 (translateVuVmulai f inst)
  | 0x1F => onVu0 (translateVuVclipw f inst)
  | 0x20 => onVu0 (translateVuVaddaq f inst)
  | 0x21 => onVu0 (translateVuVmaddaq f inst)
  | 0x22 => onVu0 (translateVuVaddai f inst)
  | 0x23 => onVu0 (translateVuVmaddai f inst)
  | 0x24 => onVu0 (translateVuVsubaq f inst)
  | 0x25 => onVu0 (translateVuVmsubaq f inst)
  | 0x26 => onVu0 (translateVuVsubai f inst)
  | 0x27 => onVu0 (translateVuVmsubai f inst)
  | 0x28 => onVu0 (translateVuVadda f inst)
  | 0x29 => onVu0 (translateVuVmadda f inst)
  | 0x2A => onVu0 (translateVuVmula f inst)
  | 0x2C => onVu0 (translateVuVsuba f inst)
  | 0x2D => onVu0 (translateVuVmsuba f inst)
  | 0x2E => onVu0 (translateVuVopmula f inst)
  | 0x2F => onVu0 id
  | 0x30 => onVu0 (translateVuVmove inst)
  | 0x31 => onVu0 (translateVuVmr32 inst)
  | 0x34 => onMemory (translateVuVlqi d inst)
  | 0x35 => onMemory (translateVuVsqi d inst)
  | 0x36 => onMemory (translateVuVlqd d inst)
  | 0x37 => onMemory (translateVuVsqd d inst)
  | 0x3C => tryVu0 (translateVuVmtir inst)
  | 0x3D => tryVu0 (translateVuVmfir inst)
  | 0x3E => onMemory (translateVuVilwr d inst)
  | 0x3F => onMemory (translateVuViswr d inst)
  | _ => other inst

/-- `VuTranslator::translate` -/
def translate (inst : Cop2Instruction) : Statement D :=
  match inst.rs.val with
  | 0x01 => fun c m => some (qmfc2 inst c, m)
  | 0x02 => fun c m => some (cfc2 inst c, m)
  | 0x05 => fun c m => onVu0 (qmtc2 inst c) c m
  | 0x06 => fun c m => some (ctc2 inst c, m)
  | 0x08 => fun c m => some (c, m)
  | _ =>
    if cop2Co ≤ inst.rs then
      if 0x3C ≤ inst.function then translateSpecial2 f d other inst (special2Func inst.raw).toNat
      else translateSpecial1 f other inst inst.function.toNat
    else other inst

end Translate

end Ps2Recomp.Vu
