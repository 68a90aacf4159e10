import Ps2Recomp.Spec.VuMacro

/-!
# The interpreter of microprograms

`VU1Interpreter` (`ps2_vu1_upper.cpp`, `ps2_vu1_lower.cpp`, `ps2_vu1_core.cpp`): the upper instructions,
and the lower instructions whose first bit is set. The other lower instructions and XGKICK are
parameters. The interpreter also runs the microprograms of VU0, on a copy of the registers of
`R5900Context` (`copyVu0ContextToState`).
-/

namespace Ps2Recomp.Vu

open Vectors

structure VU1State where
  vf : Reg → Vec
  vi : Fin 16 → Word
  acc : Vec
  q : Word
  p : Word
  i : Word
  pc : Word
  mac : Word
  clip : Word
  status : Word
  ebit : Bool
  top : Word
  itop : Word
  branchPending : Bool
  branchTarget : Word
  branchDelay : Word

/-- The float 1.0. -/
def one : Word := 0x3F800000

/-- `vf[0]`: (0, 0, 0, 1). -/
def vf0 : Vec := ![0, 0, 0, one]

def copyVu0ContextToState (c : Ctx Vu0) : VU1State :=
  let v := c.sys.rest
  { vf := Function.update v.vf 0 vf0
    vi := Function.update (fun n => (v.vi n).signExtend 32) 0 0
    acc := v.acc
    q := v.q
    p := v.p
    i := v.i
    pc := v.pc
    mac := v.macFlags
    clip := v.clipFlags
    status := c.sys.vu0Status.setWidth 32
    ebit := false
    top := 0
    itop := v.itop
    branchPending := false
    branchTarget := 0
    branchDelay := 0 }

/-! ### Fields of an instruction -/

/-- `DEST` -/
def destOf (instr : Word) : BitVec 4 := (instr >>> 21).setWidth 4

/-- `FT` -/
def ftOf (instr : Word) : Reg := .ofNat 32 (instr >>> 16).toNat

/-- `FS` -/
def fsOf (instr : Word) : Reg := .ofNat 32 (instr >>> 11).toNat

/-- `FD` -/
def fdOf (instr : Word) : Reg := .ofNat 32 (instr >>> 6).toNat

/-- `BC`: the field that is broadcast. -/
def bcOf (instr : Word) : Fin 4 := .ofNat 4 instr.toNat

/-- `VIT` -/
def vitOf (instr : Word) : Fin 16 := .ofNat 16 (instr >>> 16).toNat

/-- `VIS` -/
def visOf (instr : Word) : Fin 16 := .ofNat 16 (instr >>> 11).toNat

/-- `VID` -/
def vidOf (instr : Word) : Fin 16 := .ofNat 16 (instr >>> 6).toNat

/-- The selector of the tables of special instructions. -/
def specialOp (instr : Word) : ℕ := ((instr &&& (0x3 : Word)) ||| ((instr >>> 4) &&& (0x7C : Word))).toNat

def applyDest (dst result : Vec) (dest : BitVec 4) : Vec :=
  ![if dest &&& 0x8 ≠ 0 then result 0 else dst 0, if dest &&& 0x4 ≠ 0 then result 1 else dst 1,
    if dest &&& 0x2 ≠ 0 then result 2 else dst 2, if dest &&& 0x1 ≠ 0 then result 3 else dst 3]

/-- The field that an instruction on one field names: the first of its `dest`. -/
def compOf (dest : BitVec 4) : Fin 4 :=
  if dest &&& 0x8 ≠ 0 then 0 else if dest &&& 0x4 ≠ 0 then 1 else if dest &&& 0x2 ≠ 0 then 2 else 3

namespace VU1State

/-- `applyDest(m_state.vf[n], result, dest)` -/
def setVf (s : VU1State) (n : Reg) (result : Vec) (dest : BitVec 4) : VU1State :=
  { s with vf := Function.update s.vf n (applyDest (s.vf n) result dest) }

/-- `applyDestAcc(result, dest)` -/
def setAcc (s : VU1State) (result : Vec) (dest : BitVec 4) : VU1State :=
  { s with acc := applyDest s.acc result dest }

/-- `if (n != 0) m_state.vi[n] = x` -/
def setVi (s : VU1State) (n : Fin 16) (x : Word) : VU1State :=
  if n ≠ 0 then { s with vi := Function.update s.vi n x } else s

end VU1State

/-- `(int32_t)(int16_t)x` -/
def toInt16 (x : Word) : Word := (x.setWidth 16).signExtend 32

/-! ### Upper instructions -/

section Upper

variable (f : FloatOps)

/-- The flags of `CLIP`. -/
def clipFlags (vs : Vec) (w : Word) : Word :=
  (if f.lt w (vs 0) then 0x01 else 0) ||| (if f.lt (vs 0) (negated w) then 0x02 else 0) |||
    (if f.lt w (vs 1) then 0x04 else 0) ||| (if f.lt (vs 1) (negated w) then 0x08 else 0) |||
    (if f.lt w (vs 2) then 0x10 else 0) ||| (if f.lt (vs 2) (negated w) then 0x20 else 0)

/-- The special group, by its selector. -/
def upperSpecial (instr : Word) (s : VU1State) : ℕ → VU1State :=
  let dest := destOf instr
  let ft := ftOf instr
  let vs := s.vf (fsOf instr)
  let vt := s.vf ft
  let bc := vt (bcOf instr)
  fun
  | 0x00 | 0x01 | 0x02 | 0x03 => s.setAcc (fun c => f.add (vs c) bc) dest
  | 0x04 | 0x05 | 0x06 | 0x07 => s.setAcc (fun c => f.sub (vs c) bc) dest
  | 0x08 | 0x09 | 0x0A | 0x0B => s.setAcc (fun c => f.add (s.acc c) (f.mul (vs c) bc)) dest
  | 0x0C | 0x0D | 0x0E | 0x0F => s.setAcc (fun c => f.sub (s.acc c) (f.mul (vs c) bc)) dest
  -- The integers of ITOF are divided by 1, 16, 4096 and 32768, and the floats of FTOI multiplied.
  | 0x10 => s.setVf ft (fun c => f.ofInt (vs c)) dest
  | 0x11 => s.setVf ft (fun c => f.div (f.ofInt (vs c)) 0x41800000) dest
  | 0x12 => s.setVf ft (fun c => f.div (f.ofInt (vs c)) 0x45800000) dest
  | 0x13 => s.setVf ft (fun c => f.div (f.ofInt (vs c)) 0x47000000) dest
  | 0x14 => s.setVf ft (fun c => f.toInt (vs c)) dest
  | 0x15 => s.setVf ft (fun c => f.toInt (f.mul (vs c) 0x41800000)) dest
  | 0x16 => s.setVf ft (fun c => f.toInt (f.mul (vs c) 0x45800000)) dest
  | 0x17 => s.setVf ft (fun c => f.toInt (f.mul (vs c) 0x47000000)) dest
  | 0x18 | 0x19 | 0x1A | 0x1B => s.setAcc (fun c => f.mul (vs c) bc) dest
  | 0x1C => s.setAcc (fun c => f.mul (vs c) s.q) dest
  | 0x1D => s.setVf ft (fun c => magnitude (vs c)) dest
  | 0x1E => s.setAcc (fun c => f.mul (vs c) s.i) dest
  | 0x1F => { s with clip := (s.clip <<< 6) ||| clipFlags f vs (magnitude (vt 3)) }
  | 0x20 => s.setAcc (fun c => f.add (vs c) s.q) dest
  | 0x21 => s.setAcc (fun c => f.add (s.acc c) (f.mul (vs c) s.q)) dest
  | 0x22 => s.setAcc (fun c => f.add (vs c) s.i) dest
  | 0x23 => s.setAcc (fun c => f.add (s.acc c) (f.mul (vs c) s.i)) dest
  | 0x24 => s.setAcc (fun c => f.sub (vs c) s.q) dest
  | 0x25 => s.setAcc (fun c => f.sub (s.acc c) (f.mul (vs c) s.q)) dest
  | 0x26 => s.setAcc (fun c => f.sub (vs c) s.i) dest
  | 0x27 => s.setAcc (fun c => f.sub (s.acc c) (f.mul (vs c) s.i)) dest
  | 0x28 => s.setAcc (fun c => f.add (vs c) (vt c)) dest
  | 0x29 => s.setAcc (fun c => f.add (s.acc c) (f.mul (vs c) (vt c))) dest
  | 0x2A => s.setAcc (fun c => f.mul (vs c) (vt c)) dest
  | 0x2C => s.setAcc (fun c => f.sub (vs c) (vt c)) dest
  | 0x2D => s.setAcc (fun c => f.sub (s.acc c) (f.mul (vs c) (vt c))) dest
  | 0x2E => s.setAcc ![f.mul (vs 1) (vt 2), f.mul (vs 2) (vt 0), f.mul (vs 0) (vt 1), 0] dest
  | _ => s

/-- The upper instructions, by their opcode. -/
def upper (instr : Word) (s : VU1State) : ℕ → VU1State :=
  let dest := destOf instr
  let fd := fdOf instr
  let vs := s.vf (fsOf instr)
  let vt := s.vf (ftOf instr)
  let bc := vt (bcOf instr)
  fun
  | 0x00 | 0x01 | 0x02 | 0x03 => s.setVf fd (fun c => f.add (vs c) bc) dest
  | 0x04 | 0x05 | 0x06 | 0x07 => s.setVf fd (fun c => f.sub (vs c) bc) dest
  | 0x08 | 0x09 | 0x0A | 0x0B => s.setVf fd (fun c => f.add (s.acc c) (f.mul (vs c) bc)) dest
  | 0x0C | 0x0D | 0x0E | 0x0F => s.setVf fd (fun c => f.sub (s.acc c) (f.mul (vs c) bc)) dest
  | 0x10 | 0x11 | 0x12 | 0x13 => s.setVf fd (fun c => if f.lt bc (vs c) then vs c else bc) dest
  | 0x14 | 0x15 | 0x16 | 0x17 => s.setVf fd (fun c => if f.lt (vs c) bc then vs c else bc) dest
  | 0x18 | 0x19 | 0x1A | 0x1B => s.setVf fd (fun c => f.mul (vs c) bc) dest
  | 0x1C => s.setVf fd (fun c => f.mul (vs c) s.q) dest
  | 0x1D => s.setVf fd (fun c => if f.lt s.i (vs c) then vs c else s.i) dest
  | 0x1E => s.setVf fd (fun c => f.mul (vs c) s.i) dest
  | 0x1F => s.setVf fd (fun c => if f.lt (vs c) s.i then vs c else s.i) dest
  | 0x20 => s.setVf fd (fun c => f.add (vs c) s.q) dest
  | 0x21 => s.setVf fd (fun c => f.add (s.acc c) (f.mul (vs c) s.q)) dest
  | 0x22 => s.setVf fd (fun c => f.add (vs c) s.i) dest
  | 0x23 => s.setVf fd (fun c => f.add (s.acc c) (f.mul (vs c) s.i)) dest
  | 0x24 => s.setVf fd (fun c => f.sub (vs c) s.q) dest
  | 0x25 => s.setVf fd (fun c => f.sub (s.acc c) (f.mul (vs c) s.q)) dest
  | 0x26 => s.setVf fd (fun c => f.sub (vs c) s.i) dest
  | 0x27 => s.setVf fd (fun c => f.sub (s.acc c) (f.mul (vs c) s.i)) dest
  | 0x28 => s.setVf fd (fun c => f.add (vs c) (vt c)) dest
  | 0x29 => s.setVf fd (fun c => f.add (s.acc c) (f.mul (vs c) (vt c))) dest
  | 0x2A => s.setVf fd (fun c => f.mul (vs c) (vt c)) dest
  | 0x2B => s.setVf fd (fun c => if f.lt (vt c) (vs c) then vs c else vt c) dest
  | 0x2C => s.setVf fd (fun c => f.sub (vs c) (vt c)) dest
  | 0x2D => s.setVf fd (fun c => f.sub (s.acc c) (f.mul (vs c) (vt c))) dest
  | 0x2E =>
    s.setVf fd ![f.sub (s.acc 0) (f.mul (vs 1) (vt 2)), f.sub (s.acc 1) (f.mul (vs 2) (vt 0)),
      f.sub (s.acc 2) (f.mul (vs 0) (vt 1)), 0] dest
  | 0x2F => s.setVf fd (fun c => if f.lt (vs c) (vt c) then vs c else vt c) dest
  | 0x3C | 0x3D | 0x3E | 0x3F => upperSpecial f instr s (specialOp instr)
  | _ => s

/-- `VU1Interpreter::execUpper` -/
def execUpper (instr : Word) (s : VU1State) : VU1State := upper f instr s (instr &&& 0x3F).toNat

end Upper

/-! ### Lower instructions -/

section Lower

/-- The largest float. -/
def maxFloat : Word := 0x7F7FFFFF

/-- The bits of an address that stay inside of the data memory. -/
def wrapped (dataSize vi : Word) : Word := ((vi.setWidth 16).setWidth 32 * 16) &&& (dataSize - 1)

/-- The data of the interpreter: its registers and the data memory of the unit. -/
structure Machine where
  state : VU1State
  vuData : Bytes.Memory

namespace Machine

/-- `m_state` is changed. -/
def onState (x : Machine) (g : VU1State → VU1State) : Machine := { x with state := g x.state }

end Machine

variable (f : FloatOps) (dataSize : Word) (instr : Word) (x : Machine)

/-- `LQI` and `LQD` read the quadword at `addr`. -/
def loadQuad (addr : Word) : Machine :=
  if addr.toNat + 16 ≤ dataSize.toNat then
    x.onState (·.setVf (ftOf instr) (Bytes.quad x.vuData addr.toNat) (destOf instr))
  else x

/-- `SQI` and `SQD` write the fields of a register at `addr`. -/
def storeQuad (addr : Word) : Machine :=
  if addr.toNat + 16 ≤ dataSize.toNat then
    let tmp := applyDest (Bytes.quad x.vuData addr.toNat) (x.state.vf (fsOf instr)) (destOf instr)
    { x with vuData := Bytes.setQuad x.vuData addr.toNat tmp }
  else x

/-- `ILWR` -/
def loadInteger (addr : Word) : Machine :=
  if addr.toNat + 16 ≤ dataSize.toNat then
    x.onState (·.setVi (vitOf instr) (toInt16 (Bytes.quad x.vuData addr.toNat (compOf (destOf instr)))))
  else x

/-- `ISWR` -/
def storeInteger (addr : Word) : Machine :=
  if addr.toNat + 16 ≤ dataSize.toNat then
    let val := ((x.state.vi (vitOf instr)).setWidth 16).setWidth 32
    let tmp := applyDest (Bytes.quad x.vuData addr.toNat) (set1Ps val) (destOf instr)
    { x with vuData := Bytes.setQuad x.vuData addr.toNat tmp }
  else x

/-- The special group, by its selector. -/
def lowerSpecial (doXgkick : Word → Machine → Machine) : ℕ → Machine :=
  let s := x.state
  let dest := destOf instr
  let vfT := ftOf instr
  let vfS := fsOf instr
  let viT := vitOf instr
  let viS := visOf instr
  let fsf : Fin 4 := .ofNat 4 (instr >>> 21).toNat
  let ftf : Fin 4 := .ofNat 4 (instr >>> 23).toNat
  let sum := f.add (f.add (f.mul (s.vf vfS 0) (s.vf vfS 0)) (f.mul (s.vf vfS 1) (s.vf vfS 1)))
    (f.mul (s.vf vfS 2) (s.vf vfS 2))
  fun
  | 0x30 => x.onState (·.setVf vfT (s.vf vfS) dest)
  | 0x31 => x.onState (·.setVf vfT ![s.vf vfS 1, s.vf vfS 2, s.vf vfS 3, s.vf vfS 0] dest)
  | 0x34 => (loadQuad dataSize instr x (wrapped dataSize (s.vi viS))).onState (·.setVi viS (toInt16 (s.vi viS + 1)))
  | 0x35 => (storeQuad dataSize instr x (wrapped dataSize (s.vi viT))).onState (·.setVi viT (toInt16 (s.vi viT + 1)))
  | 0x36 =>
    let x := x.onState (·.setVi viS (toInt16 (s.vi viS - 1)))
    loadQuad dataSize instr x (wrapped dataSize (x.state.vi viS))
  | 0x37 =>
    let x := x.onState (·.setVi viT (toInt16 (s.vi viT - 1)))
    storeQuad dataSize instr x (wrapped dataSize (x.state.vi viT))
  | 0x38 =>
    let num := s.vf vfS fsf
    let den := s.vf vfT ftf
    if !feq den 0 then { x with state := { s with q := f.div num den } }
    else if f.lt 0 num || feq num 0 then { x with state := { s with q := maxFloat } }
    else { x with state := { s with q := negated maxFloat } }
  | 0x39 => { x with state := { s with q := f.sqrt (magnitude (s.vf vfT ftf)) } }
  | 0x3A =>
    let den := f.sqrt (magnitude (s.vf vfT ftf))
    { x with state := { s with q := if !feq den 0 then f.div (s.vf vfS fsf) den else maxFloat } }
  | 0x3C => x.onState (·.setVi viT (toInt16 (s.vf vfS (compOf dest))))
  | 0x3D => x.onState (·.setVf vfT (set1Ps (toInt16 (s.vi viS))) dest)
  | 0x3E => loadInteger dataSize instr x (wrapped dataSize (s.vi viS))
  | 0x3F => storeInteger dataSize instr x (wrapped dataSize (s.vi viS))
  | 0x64 => x.onState (·.setVf vfT (set1Ps s.p) dest)
  | 0x68 => x.onState (·.setVi viT (s.top &&& 0x3FF))
  | 0x69 => x.onState (·.setVi viT (s.itop &&& 0x3FF))
  | 0x6C => doXgkick instr x
  | 0x72 => { x with state := { s with p := f.sqrt sum } }
  | 0x73 =>
    let len := f.sqrt sum
    { x with state := { s with p := if !feq len 0 then f.div one len else maxFloat } }
  | 0x7A =>
    let val := s.vf vfS fsf
    { x with state := { s with p := if !feq val 0 then f.div one val else maxFloat } }
  | _ => x

/-- The lower instructions whose first bit is set, by their function. -/
def lower (doXgkick : Word → Machine → Machine) : ℕ → Machine :=
  let s := x.state
  let viT := vitOf instr
  let viS := visOf instr
  let viD := vidOf instr
  fun
  | 0x30 => x.onState (·.setVi viD (toInt16 (s.vi viS + s.vi viT)))
  | 0x31 => x.onState (·.setVi viD (toInt16 (s.vi viS - s.vi viT)))
  | 0x32 =>
    let imm5 : BitVec 5 := (instr >>> 6).setWidth 5
    x.onState (·.setVi viT (toInt16 (s.vi viS + imm5.signExtend 32)))
  | 0x34 => x.onState (·.setVi viD (s.vi viS &&& s.vi viT))
  | 0x35 => x.onState (·.setVi viD (s.vi viS ||| s.vi viT))
  | 0x3C | 0x3D | 0x3E | 0x3F => lowerSpecial f dataSize instr x doXgkick (specialOp instr)
  | _ => x

/-- `VU1Interpreter::execLower`. `primary` stands for the instructions whose first bit is clear. -/
def execLower (primary doXgkick : Word → Machine → Machine) : Machine :=
  if instr = 0x00000000 ∨ instr = 0x8000033C then x
  else if (instr >>> 25) &&& 0x7F = 0x40 then lower f dataSize instr x doXgkick (instr &&& 0x3F).toNat
  else primary instr x

end Lower

end Ps2Recomp.Vu

/-!
# The clip flags of microprograms

The lower instructions of `VU1Interpreter::execLower` that set and test the clip flags
(`ps2_vu1_lower.cpp`). The others whose first bit is clear are a parameter.
-/

namespace Ps2Recomp.Vu

/-- The seven bits that `execLower` switches on. -/
def opcodeOf (instr : Word) : ℕ := ((instr >>> 25) &&& 0x7F).toNat

def imm24Of (instr : Word) : Word := instr &&& 0xFFFFFF

def flagInstruction (rest : Word → Machine → Machine) (instr : Word) (x : Machine) : Machine :=
  let clip := x.state.clip
  let imm24 := imm24Of instr
  let test := fun b : Bool => x.onState (·.setVi 1 (if b then 1 else 0))
  match opcodeOf instr with
  | 0x10 => test (clip &&& 0xFFFFFF = imm24)       -- FCEQ
  | 0x11 => x.onState ({ · with clip := imm24 })   -- FCSET
  | 0x12 => test (clip &&& imm24 ≠ 0)              -- FCAND
  | 0x13 => test (clip ||| imm24 = 0xFFFFFF)       -- FCOR
  | _ => rest instr x

end Ps2Recomp.Vu
