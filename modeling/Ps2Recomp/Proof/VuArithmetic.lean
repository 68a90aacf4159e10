import Mathlib.Algebra.Order.Group.Abs
import Mathlib.Tactic.IntervalCases
import Ps2Recomp.Proof.Memory
import Ps2Recomp.Spec.VuMicro

/-!
# The arithmetic of VU0, twice

The arithmetic of VU0 is written twice: as the statement that the translator emits for a macro
instruction, and as the interpreter's case of the micro instruction with the same fields. `MacroOp` lists
what the instructions are to do; both tables are read into it (`translate_op`, `upper_op`).

* `same_iff`: what the two do from the same registers.
* `macro_agrees_iff`: they leave the same registers where VF0 holds its constant and the instruction is
  `Exact`. Sums of a product into a register are not, as the statement also leaves the sum in the
  accumulator, and neither are the outer products, which the statement computes field by field, and
  clipping, whose flags it takes with the sign of `w` and in another order.
-/

namespace Ps2Recomp.Vu

open Vectors Memory Statement

/-! ### The instructions -/

/-- Where the second operand comes from. -/
inductive Operand
  | one | all | q | i
  deriving DecidableEq, Repr

inductive Arith
  | add | sub | mul | max | mini
  deriving DecidableEq, Repr

/-- Whether a product is added to the accumulator or subtracted from it. -/
inductive Accumulation
  | add | sub
  deriving DecidableEq, Repr

/-- **The arithmetic instructions.** -/
inductive MacroOp
  | vf (a : Arith) (o : Operand)
  | acc (a : Arith) (o : Operand)
  | sumVf (a : Accumulation) (o : Operand)
  | sumAcc (a : Accumulation) (o : Operand)
  | opmula | opmsub | abs | move | mr32 | clip
  deriving DecidableEq, Repr

/-- The functions below `0x3C`. -/
def special1Op : ℕ → Option MacroOp
  | 0x00 | 0x01 | 0x02 | 0x03 => some (.vf .add .one)
  | 0x04 | 0x05 | 0x06 | 0x07 => some (.vf .sub .one)
  | 0x08 | 0x09 | 0x0A | 0x0B => some (.sumVf .add .one)
  | 0x0C | 0x0D | 0x0E | 0x0F => some (.sumVf .sub .one)
  | 0x10 | 0x11 | 0x12 | 0x13 => some (.vf .max .one)
  | 0x14 | 0x15 | 0x16 | 0x17 => some (.vf .mini .one)
  | 0x18 | 0x19 | 0x1A | 0x1B => some (.vf .mul .one)
  | 0x1C => some (.vf .mul .q)
  | 0x1D => some (.vf .max .i)
  | 0x1E => some (.vf .mul .i)
  | 0x1F => some (.vf .mini .i)
  | 0x20 => some (.vf .add .q)
  | 0x21 => some (.sumVf .add .q)
  | 0x22 => some (.vf .add .i)
  | 0x23 => some (.sumVf .add .i)
  | 0x24 => some (.vf .sub .q)
  | 0x25 => some (.sumVf .sub .q)
  | 0x26 => some (.vf .sub .i)
  | 0x27 => some (.sumVf .sub .i)
  | 0x28 => some (.vf .add .all)
  | 0x29 => some (.sumVf .add .all)
  | 0x2A => some (.vf .mul .all)
  | 0x2B => some (.vf .max .all)
  | 0x2C => some (.vf .sub .all)
  | 0x2D => some (.sumVf .sub .all)
  | 0x2E => some .opmsub
  | 0x2F => some (.vf .mini .all)
  | _ => none

/-- The functions from `0x3C` on, by their selector. -/
def special2Op : ℕ → Option MacroOp
  | 0x00 | 0x01 | 0x02 | 0x03 => some (.acc .add .one)
  | 0x04 | 0x05 | 0x06 | 0x07 => some (.acc .sub .one)
  | 0x08 | 0x09 | 0x0A | 0x0B => some (.sumAcc .add .one)
  | 0x0C | 0x0D | 0x0E | 0x0F => some (.sumAcc .sub .one)
  | 0x18 | 0x19 | 0x1A | 0x1B => some (.acc .mul .one)
  | 0x1C => some (.acc .mul .q)
  | 0x1D => some .abs
  | 0x1E => some (.acc .mul .i)
  | 0x1F => some .clip
  | 0x20 => some (.acc .add .q)
  | 0x21 => some (.sumAcc .add .q)
  | 0x22 => some (.acc .add .i)
  | 0x23 => some (.sumAcc .add .i)
  | 0x24 => some (.acc .sub .q)
  | 0x25 => some (.sumAcc .sub .q)
  | 0x26 => some (.acc .sub .i)
  | 0x27 => some (.sumAcc .sub .i)
  | 0x28 => some (.acc .add .all)
  | 0x29 => some (.sumAcc .add .all)
  | 0x2A => some (.acc .mul .all)
  | 0x2C => some (.acc .sub .all)
  | 0x2D => some (.sumAcc .sub .all)
  | 0x2E => some .opmula
  | 0x30 => some .move
  | 0x31 => some .mr32
  | _ => none

/-- A macro instruction: the opcode of coprocessor 2 with the bit of the `CO` formats. -/
def IsMacro (w : Word) : Prop := w >>> 25 = 0x25

instance (w : Word) : Decidable (IsMacro w) := inferInstanceAs (Decidable (_ = _))

/-- The arithmetic instruction that a word encodes. -/
def MacroOp.ofWord (w : Word) : Option MacroOp :=
  if 0x3C ≤ (w.setWidth 6 : BitVec 6) then special2Op (special2Func w).toNat
  else special1Op (w.setWidth 6 : BitVec 6).toNat

section Meaning

variable (f : FloatOps)

def Arith.lane : Arith → Word → Word → Word
  | .add, a, b => f.add a b
  | .sub, a, b => f.sub a b
  | .mul, a, b => f.mul a b
  | .max, a, b => if f.lt b a then a else b
  | .mini, a, b => if f.lt a b then a else b

def Accumulation.lane : Accumulation → Word → Word → Word
  | .add, a, b => f.add a b
  | .sub, a, b => f.sub a b

/-- The operand of the interpreter. -/
def Operand.micro (instr : Word) (s : VU1State) : Operand → Vec
  | .one => fun _ => s.vf (ftOf instr) (bcOf instr)
  | .all => s.vf (ftOf instr)
  | .q => fun _ => s.q
  | .i => fun _ => s.i

/-- The operand of the statement. -/
def Operand.emitted (inst : Cop2Instruction) (v : Vu0) : Operand → Vec
  | .one => oneField inst v
  | .all => whole inst v
  | .q => fromQ inst v
  | .i => fromI inst v

/-- The outer product, whose last field is zero. -/
def outer (vs vt : Vec) : Vec := ![f.mul (vs 1) (vt 2), f.mul (vs 2) (vt 0), f.mul (vs 0) (vt 1), 0]

/-- The outer product subtracted from the accumulator. -/
def outerSub (acc vs vt : Vec) : Vec :=
  ![f.sub (acc 0) (f.mul (vs 1) (vt 2)), f.sub (acc 1) (f.mul (vs 2) (vt 0)), f.sub (acc 2) (f.mul (vs 0) (vt 1)), 0]

/-- The interpreter's step. -/
def MacroOp.step (instr : Word) (s : VU1State) : MacroOp → VU1State
  | .vf a o => s.setVf (fdOf instr) (fun c => a.lane f (s.vf (fsOf instr) c) (o.micro instr s c)) (destOf instr)
  | .acc a o => s.setAcc (fun c => a.lane f (s.vf (fsOf instr) c) (o.micro instr s c)) (destOf instr)
  | .sumVf a o =>
    s.setVf (fdOf instr) (fun c => a.lane f (s.acc c) (f.mul (s.vf (fsOf instr) c) (o.micro instr s c))) (destOf instr)
  | .sumAcc a o =>
    s.setAcc (fun c => a.lane f (s.acc c) (f.mul (s.vf (fsOf instr) c) (o.micro instr s c))) (destOf instr)
  | .opmula => s.setAcc (outer f (s.vf (fsOf instr)) (s.vf (ftOf instr))) (destOf instr)
  | .opmsub => s.setVf (fdOf instr) (outerSub f s.acc (s.vf (fsOf instr)) (s.vf (ftOf instr))) (destOf instr)
  | .abs => s.setVf (ftOf instr) (fun c => magnitude (s.vf (fsOf instr) c)) (destOf instr)
  | .move => s.setVf (ftOf instr) (s.vf (fsOf instr)) (destOf instr)
  | .mr32 =>
    s.setVf (ftOf instr) ![s.vf (fsOf instr) 1, s.vf (fsOf instr) 2, s.vf (fsOf instr) 3, s.vf (fsOf instr) 0]
      (destOf instr)
  | .clip => { s with clip := (s.clip <<< 6) ||| clipFlags f (s.vf (fsOf instr)) (magnitude (s.vf (ftOf instr) 3)) }

/-- The statement's effect. -/
def MacroOp.statement (inst : Cop2Instruction) (v : Vu0) : MacroOp → Vu0
  | .vf a o => toVf inst v (fun x y c => a.lane f (x c) (y c)) fun inst v => o.emitted inst v
  | .acc a o => toAcc inst v (fun x y c => a.lane f (x c) (y c)) fun inst v => o.emitted inst v
  | .sumVf a o => productToVf f inst v (fun x y c => a.lane f (x c) (y c)) fun inst v => o.emitted inst v
  | .sumAcc a o => productToAcc f inst v (fun x y c => a.lane f (x c) (y c)) fun inst v => o.emitted inst v
  | .opmula => translateVuVopmula f inst v
  | .opmsub => translateVuVopmsub f inst v
  | .abs => translateVuVabs inst v
  | .move => translateVuVmove inst v
  | .mr32 => translateVuVmr32 inst v
  | .clip => translateVuVclipw f inst v

/-- `MOVE` and `MR32` are lower instructions. -/
def MacroOp.isLower : MacroOp → Bool
  | .move | .mr32 => true
  | _ => false

variable {f} {k : ℕ} {op : MacroOp} {inst : Cop2Instruction} {instr : Word} {s : VU1State}

section

variable {D : Type} {d : Devices D} {other : Cop2Instruction → Statement D}

theorem translate_op1 (h : special1Op k = some op) :
    translateSpecial1 (D := D) f other inst k = onVu0 fun v => op.statement f inst v := by
  unfold special1Op at h
  split at h <;> cases h <;> rfl

theorem translate_op2 (h : special2Op k = some op) :
    translateSpecial2 f d other inst k = onVu0 fun v => op.statement f inst v := by
  unfold special2Op at h
  split at h <;> cases h <;> rfl

end

theorem upper_op1 (h : special1Op k = some op) : upper f instr s k = op.step f instr s := by
  unfold special1Op at h
  split at h <;> cases h <;> rfl

theorem upper_op2 (h : special2Op k = some op) (hl : op.isLower = false) :
    upperSpecial f instr s k = op.step f instr s := by
  unfold special2Op at h
  split at h <;> cases h <;> first | rfl | cases hl

end Meaning

/-! ### The fields of a register -/

/-- An instruction names the field `c`. -/
def Selects (dest : BitVec 4) (c : Fin 4) : Prop := dest &&& (0x8 >>> c.val) ≠ 0

instance (dest : BitVec 4) (c : Fin 4) : Decidable (Selects dest c) := inferInstanceAs (Decidable (_ ≠ _))

variable {dest : BitVec 4} {dst result result' : Vec}

theorem applyDest_apply (c : Fin 4) : applyDest dst result dest c = if Selects dest c then result c else dst c := by
  fin_cases c <;> rfl

/-- **The mask of a statement** selects the fields of the interpreter. -/
theorem blendvPs_vuMaskExpr : blendvPs dst result (vuMaskExpr dest) = applyDest dst result dest := by
  have hblend := blendvPs_setEpi32 (v := dst) (w := result) (Selects dest)
  funext c
  rw [applyDest_apply]
  exact congrFun hblend c

/-- Writes that leave the same register write the same to the fields that are named. -/
theorem applyDest_eq_iff : applyDest dst result dest = applyDest dst result' dest ↔ ∀ c, Selects dest c → result c = result' c := by
  constructor
  · intro h c hc
    have hlane := congrFun h c
    rwa [applyDest_apply, applyDest_apply, if_pos hc, if_pos hc] at hlane
  · intro h
    funext c
    rw [applyDest_apply, applyDest_apply]
    by_cases hc : Selects dest c
    · rw [if_pos hc, if_pos hc, h c hc]
    · rw [if_neg hc, if_neg hc]

/-! ### From the same registers -/

/-- The registers of the interpreter are those of the context. -/
structure Copied (v : Vu0) (s : VU1State) : Prop where
  vf : s.vf = v.vf
  acc : s.acc = v.acc
  q : s.q = v.q
  i : s.i = v.i
  clip : s.clip = v.clipFlags

/-- A statement and a micro instruction with the same fields. -/
structure Fields (inst : Cop2Instruction) (instr : Word) : Prop where
  rt : ftOf instr = inst.rt
  rd : fsOf instr = inst.rd
  sa : fdOf instr = inst.sa
  field : bcOf instr = inst.field
  vectorField : destOf instr = inst.vectorField

/-- **The same outcome**: the vector registers, the accumulator and the 24 bits of the clip flags. -/
structure Same (v : Vu0) (s : VU1State) : Prop where
  vf : v.vf = s.vf
  acc : v.acc = s.acc
  clip : v.clipFlags &&& 0xFFFFFF = s.clip &&& 0xFFFFFF

variable {f : FloatOps} {v : Vu0} {s : VU1State} {inst : Cop2Instruction} {instr : Word} {reg : Reg}

section

variable (hn : Fields inst instr)

include hn

section

variable (hc : Copied v s)

include hc

theorem emitted_eq (o : Operand) : o.emitted inst v = o.micro instr s := by
  cases o with
  | one =>
    rw [Operand.emitted, Operand.micro, oneField, shufflePs_self, hn.rt, hn.field, hc.vf]
    rfl
  | all => rw [Operand.emitted, Operand.micro, whole, hn.rt, hc.vf]
  | q =>
    rw [Operand.emitted, Operand.micro, fromQ, hc.q]
    rfl
  | i =>
    rw [Operand.emitted, Operand.micro, fromI, hc.i]
    rfl

theorem same_blendVf : Same (blendVf inst v reg result) (s.setVf reg result (destOf instr)) := by
  refine ⟨?_, hc.acc.symm, by rw [VU1State.setVf, blendVf, hc.clip]⟩
  rw [VU1State.setVf, blendVf, blendvPs_vuMaskExpr, hc.vf, hn.vectorField]

theorem same_blendAcc_iff : Same (blendAcc inst v result) (s.setAcc result' (destOf instr)) ↔ ∀ c,
    Selects inst.vectorField c → result c = result' c := by
  rw [← @applyDest_eq_iff _ v.acc, ← blendvPs_vuMaskExpr]
  constructor
  · intro h
    have hacc := h.acc
    rwa [VU1State.setAcc, hc.acc, hn.vectorField] at hacc
  · intro h
    refine ⟨hc.vf.symm, ?_, by rw [VU1State.setAcc, blendAcc, hc.clip]⟩
    rwa [VU1State.setAcc, hc.acc, hn.vectorField]

theorem same_replaced_iff :
    Same { blendVf inst v reg result with acc := result } (s.setVf reg result' (destOf instr)) ↔
      result = v.acc ∧ ∀ c, Selects inst.vectorField c → result c = result' c := by
  have hvf : (blendVf inst v reg result).vf = (s.setVf reg result' (destOf instr)).vf ↔
      ∀ c, Selects inst.vectorField c → result c = result' c := by
    rw [← @applyDest_eq_iff _ (v.vf reg), VU1State.setVf, blendVf, blendvPs_vuMaskExpr, hc.vf, hn.vectorField]
    refine ⟨fun h => ?_, fun h => by rw [h]⟩
    simpa only [Function.update_self] using congrFun h reg
  constructor
  · intro h
    exact ⟨h.acc.trans hc.acc, hvf.1 h.vf⟩
  · rintro ⟨hacc, hsel⟩
    exact ⟨hvf.2 hsel, hacc.trans hc.acc.symm, by rw [VU1State.setVf, blendVf, hc.clip]⟩

end

end

/-! ### Flags -/

/-- Six flags. -/
def flagsOf (b : Fin 6 → Bool) : Word :=
  (if b 0 then 0x01 else 0) ||| (if b 1 then 0x02 else 0) ||| (if b 2 then 0x04 else 0) |||
    (if b 3 then 0x08 else 0) ||| (if b 4 then 0x10 else 0) ||| (if b 5 then 0x20 else 0)

theorem getLsbD_flagsOf (b : Fin 6 → Bool) (j : Fin 6) : (flagsOf b).getLsbD j = b j := by
  have hbit (p : Bool) (x : Word) (i : ℕ) : (if p then x else 0).getLsbD i = (p && x.getLsbD i) := by
    cases p with
    | false => exact BitVec.getLsbD_zero
    | true => rfl
  simp only [flagsOf, BitVec.getLsbD_or, hbit]
  fin_cases j <;> simp

/-- Flags that are shifted in are the same if and only if they are. -/
theorem shifted_eq_iff (x : Word) (b b' : Fin 6 → Bool) :
    ((x <<< 6) ||| flagsOf b) &&& (0xFFFFFF : Word) = ((x <<< 6) ||| flagsOf b') &&& (0xFFFFFF : Word) ↔ b = b' := by
  refine ⟨fun h => ?_, fun h => by rw [h]⟩
  funext j
  have hj := j.isLt
  have hmask : (0xFFFFFF : Word).getLsbD j = true := by
    fin_cases j <;> rfl
  have hbit := congrArg (BitVec.getLsbD · j.val) h
  simpa only [BitVec.getLsbD_and, BitVec.getLsbD_or, BitVec.getLsbD_shiftLeft, hmask, getLsbD_flagsOf,
    decide_eq_true hj, Bool.not_true, Bool.and_false, Bool.false_and, Bool.false_or, Bool.and_true] using hbit

theorem statement_flags (lt gt : Fin 4 → Bool) :
    let ltMask := movemaskPs (compared lt)
    let gtMask := movemaskPs (compared gt)
    ((ltMask &&& 0x1) <<< 0 ||| (gtMask &&& 0x1) <<< 1 ||| (ltMask &&& 0x2) <<< 1 ||| (gtMask &&& 0x2) <<< 2 |||
      (ltMask &&& 0x4) <<< 2 ||| (gtMask &&& 0x4) <<< 3) &&& 0x3F = flagsOf ![lt 0, gt 0, lt 1, gt 1, lt 2, gt 2] := by
  have htable : ∀ l0 l1 l2 l3 g0 g1 g2 g3 : Bool,
      let ltMask : Word := (BitVec.ofBool l3 ++ BitVec.ofBool l2 ++ BitVec.ofBool l1 ++ BitVec.ofBool l0).setWidth 32
      let gtMask : Word := (BitVec.ofBool g3 ++ BitVec.ofBool g2 ++ BitVec.ofBool g1 ++ BitVec.ofBool g0).setWidth 32
      ((ltMask &&& 0x1) <<< 0 ||| (gtMask &&& 0x1) <<< 1 ||| (ltMask &&& 0x2) <<< 1 ||| (gtMask &&& 0x2) <<< 2 |||
        (ltMask &&& 0x4) <<< 2 ||| (gtMask &&& 0x4) <<< 3) &&& 0x3F = flagsOf ![l0, g0, l1, g1, l2, g2] := by
    decide +kernel
  rw [movemaskPs_compared, movemaskPs_compared]
  exact htable _ _ _ _ _ _ _ _

/-- The two tests of a field agree if and only if it is not clipped, and `w` is not negative. -/
theorem tests_iff {x w : Word} (hx : isNaN x = false) (hw : isNaN w = false) :
    f.lt x (negated w) = f.lt (magnitude w) x ∧ f.lt w x = f.lt x (negated (magnitude w)) ↔ |value x| ≤ value w := by
  have hbelow := f.lt_iff x (negated w) hx (by rwa [isNaN_negated])
  have habove := f.lt_iff (magnitude w) x (by rwa [isNaN_magnitude]) hx
  have hover := f.lt_iff w x hw hx
  have hunder := f.lt_iff x (negated (magnitude w)) hx (by rwa [isNaN_negated, isNaN_magnitude])
  rw [value_negated] at hbelow hunder
  rw [value_magnitude] at habove hunder
  have hfirst : f.lt x (negated w) = f.lt (magnitude w) x ↔ (value x < -value w ↔ |value w| < value x) := by
    rw [Bool.eq_iff_iff, hbelow, habove]
  have hsecond : f.lt w x = f.lt x (negated (magnitude w)) ↔ (value w < value x ↔ value x < -|value w|) := by
    rw [Bool.eq_iff_iff, hover, hunder]
  rw [hfirst, hsecond]
  rcases abs_cases (value x) with ⟨hvx, hx0⟩ | ⟨hvx, hx0⟩ <;> rcases abs_cases (value w) with ⟨hvw, hw0⟩ | ⟨hvw, hw0⟩ <;>
    omega

/-! ### What the two do -/

namespace MacroOp

/-- **Where a statement does what the interpreter does.** A sum that goes to a register must leave the
accumulator as it is; the fields of an outer product must be those of the products field by field; and
no field is clipped, with `w` not below zero. -/
def Exact (f : FloatOps) (inst : Cop2Instruction) (v : Vu0) : MacroOp → Prop
  | .sumVf a o => ∀ c, a.lane f (v.acc c) (f.mul (v.vf inst.rd c) (o.emitted inst v c)) = v.acc c
  | .opmula =>
    ∀ c, Selects inst.vectorField c → f.mul (v.vf inst.rd c) (v.vf inst.rt c) = outer f (v.vf inst.rd) (v.vf inst.rt) c
  | .opmsub =>
    (∀ c, f.sub (v.acc c) (f.mul (v.vf inst.rd c) (v.vf inst.rt c)) = v.acc c) ∧
      ∀ c, Selects inst.vectorField c →
        f.sub (v.acc c) (f.mul (v.vf inst.rd c) (v.vf inst.rt c)) = outerSub f v.acc (v.vf inst.rd) (v.vf inst.rt) c
  | .clip => ∀ c : Fin 4, c ≠ 3 → |value (v.vf inst.rd c)| ≤ value (v.vf inst.rt 3)
  | _ => True

/-- The operands that a comparison reads are numbers. -/
def NoNaN (inst : Cop2Instruction) (v : Vu0) : MacroOp → Prop
  | .clip => (∀ c : Fin 4, c ≠ 3 → isNaN (v.vf inst.rd c) = false) ∧ isNaN (v.vf inst.rt 3) = false
  | _ => True

/-- The vector register that is written. -/
def destination (inst : Cop2Instruction) : MacroOp → Option Reg
  | .vf _ _ | .sumVf _ _ | .opmsub => some inst.sa
  | .abs | .move | .mr32 => some inst.rt
  | _ => none

end MacroOp

section

variable (hn : Fields inst instr) (hc : Copied v s)

include hn hc

theorem same_clip_iff (hfield : inst.field = 3) (hnan : MacroOp.clip.NoNaN inst v) :
    Same (MacroOp.clip.statement f inst v) (MacroOp.clip.step f instr s) ↔ MacroOp.clip.Exact f inst v := by
  obtain ⟨hx, hw⟩ := hnan
  have hstatement : (MacroOp.clip.statement f inst v).clipFlags =
      ((v.clipFlags <<< 6) ||| flagsOf ![f.lt (v.vf inst.rd 0) (negated (v.vf inst.rt 3)), f.lt (v.vf inst.rt 3) (v.vf inst.rd 0),
        f.lt (v.vf inst.rd 1) (negated (v.vf inst.rt 3)), f.lt (v.vf inst.rt 3) (v.vf inst.rd 1),
        f.lt (v.vf inst.rd 2) (negated (v.vf inst.rt 3)), f.lt (v.vf inst.rt 3) (v.vf inst.rd 2)]) &&& 0xFFFFFF := by
    rw [MacroOp.statement, translateVuVclipw, oneField, shufflePs_self, hfield]
    exact congrArg (fun flags => (v.clipFlags <<< 6 ||| flags) &&& 0xFFFFFF) (statement_flags _ _)
  have hstep : (MacroOp.clip.step f instr s).clip =
      (v.clipFlags <<< 6) ||| flagsOf ![f.lt (magnitude (v.vf inst.rt 3)) (v.vf inst.rd 0),
        f.lt (v.vf inst.rd 0) (negated (magnitude (v.vf inst.rt 3))), f.lt (magnitude (v.vf inst.rt 3)) (v.vf inst.rd 1),
        f.lt (v.vf inst.rd 1) (negated (magnitude (v.vf inst.rt 3))), f.lt (magnitude (v.vf inst.rt 3)) (v.vf inst.rd 2),
        f.lt (v.vf inst.rd 2) (negated (magnitude (v.vf inst.rt 3)))] := by
    rw [MacroOp.step, hc.vf, hc.clip, hn.rd, hn.rt]
    rfl
  have hsame : Same (MacroOp.clip.statement f inst v) (MacroOp.clip.step f instr s) ↔
      (MacroOp.clip.statement f inst v).clipFlags &&& (0xFFFFFF : Word) = (MacroOp.clip.step f instr s).clip &&& (0xFFFFFF : Word) :=
    ⟨Same.clip, fun hclip => ⟨hc.vf.symm, hc.acc.symm, hclip⟩⟩
  rw [hsame, hstatement, hstep, BitVec.and_assoc, BitVec.and_self, shifted_eq_iff]
  have htest (c : Fin 4) (hne : c ≠ 3) := tests_iff (f := f) (hx c hne) hw
  constructor
  · intro h c hne
    refine (htest c hne).1 ?_
    -- The tests of a field are two neighbours of the list.
    fin_cases c
    · exact ⟨congrFun h 0, congrFun h 1⟩
    · exact ⟨congrFun h 2, congrFun h 3⟩
    · exact ⟨congrFun h 4, congrFun h 5⟩
    · exact absurd rfl hne
  · intro h
    obtain ⟨h0, h1⟩ := (htest 0 (by decide)).2 (h 0 (by decide))
    obtain ⟨h2, h3⟩ := (htest 1 (by decide)).2 (h 1 (by decide))
    obtain ⟨h4, h5⟩ := (htest 2 (by decide)).2 (h 2 (by decide))
    rw [h0, h1, h2, h3, h4, h5]

/-- **From the same registers**, a statement and the interpreter come to the same outcome where the
instruction is exact. -/
theorem same_iff {op : MacroOp} (hfield : op = .clip → inst.field = 3) (hnan : op.NoNaN inst v) :
    Same (op.statement f inst v) (op.step f instr s) ↔ op.Exact f inst v := by
  cases op with
  | vf a o =>
    refine iff_of_true ?_ trivial
    rw [MacroOp.step, hn.rd, hc.vf, ← emitted_eq hn hc, hn.sa]
    exact same_blendVf hn hc
  | acc a o =>
    refine iff_of_true ?_ trivial
    rw [MacroOp.step, hn.rd, hc.vf, ← emitted_eq hn hc]
    exact (same_blendAcc_iff hn hc).2 fun _ _ => rfl
  | sumVf a o =>
    rw [MacroOp.step, hn.rd, hc.vf, hc.acc, ← emitted_eq hn hc, hn.sa]
    refine (same_replaced_iff hn hc).trans ⟨fun h c => congrFun h.1 c, fun h => ⟨funext h, fun _ _ => rfl⟩⟩
  | sumAcc a o =>
    refine iff_of_true ?_ trivial
    rw [MacroOp.step, hn.rd, hc.vf, hc.acc, ← emitted_eq hn hc]
    exact (same_blendAcc_iff hn hc).2 fun _ _ => rfl
  | opmula =>
    rw [MacroOp.step, hn.rd, hn.rt, hc.vf]
    exact same_blendAcc_iff hn hc
  | opmsub =>
    rw [MacroOp.step, hn.rd, hn.rt, hc.vf, hc.acc, hn.sa]
    exact (same_replaced_iff hn hc).trans (and_congr_left' funext_iff)
  | abs =>
    refine iff_of_true ?_ trivial
    rw [MacroOp.step, hn.rd, hn.rt, hc.vf]
    exact same_blendVf hn hc
  | move =>
    refine iff_of_true ?_ trivial
    rw [MacroOp.step, hn.rd, hn.rt, hc.vf]
    exact same_blendVf hn hc
  | mr32 =>
    refine iff_of_true ?_ trivial
    rw [MacroOp.step, hn.rd, hn.rt, hc.vf]
    exact same_blendVf hn hc
  | clip => exact same_clip_iff hn hc (hfield rfl) hnan

end

/-! ### Words -/

/-- The word of an upper instruction with the low 25 bits of `w`. -/
def upperWord (w : Word) : Word := w &&& 0x1FFFFFF

/-- The word of a lower instruction of the special group with them. -/
def lowerWord (w : Word) : Word := 0x80000000 ||| (w &&& 0x1FFFFFF)

/-- What the two units call that is not written out. -/
structure Surroundings (D : Type) where
  float : FloatOps
  devices : Devices D
  other : Cop2Instruction → Statement D
  primary : Word → Machine → Machine
  doXgkick : Word → Machine → Machine

namespace Surroundings

variable {D : Type} (e : Surroundings D)

/-- The emitted statement of a word. -/
def emitted (w : Word) : Statement D := translate e.float e.devices e.other (decodeCop2 w)

/-- The interpreter on the registers that `copyVu0ContextToState` copies, and the data memory of VU0. -/
def interpreted (lower : Bool) (w : Word) (c : Ctx Vu0) (vuData : Bytes.Memory) : Machine :=
  if lower then
    execLower e.float vu0DataSize (lowerWord w) ⟨copyVu0ContextToState c, vuData⟩ e.primary e.doXgkick
  else ⟨execUpper e.float (upperWord w) (copyVu0ContextToState c), vuData⟩

end Surroundings

section Words

variable {w : Word}

theorem toNat_low : (w &&& 0x1FFFFFF).toNat = w.toNat % 2 ^ 25 := by
  rw [BitVec.toNat_and]
  exact Nat.and_two_pow_sub_one_eq_mod w.toNat 25

theorem toNat_upperWord : (upperWord w).toNat % 2 ^ 25 = w.toNat % 2 ^ 25 := by
  rw [upperWord, toNat_low]
  exact Nat.mod_mod _ _

theorem toNat_lowerWord : (lowerWord w).toNat = 2 ^ 31 + w.toNat % 2 ^ 25 := by
  have hlt : w.toNat % 2 ^ 25 < 2 ^ 31 := by omega
  rw [lowerWord, BitVec.toNat_or, toNat_low]
  exact (Nat.two_pow_add_eq_or_of_lt hlt 1).symm

theorem toNat_lowerWord_mod : (lowerWord w).toNat % 2 ^ 25 = w.toNat % 2 ^ 25 := by
  rw [toNat_lowerWord]
  omega

theorem rs_ge (h : IsMacro w) : cop2Co ≤ (decodeCop2 w).rs := by
  have hnat := congrArg BitVec.toNat h
  rw [BitVec.toNat_ushiftRight, Nat.shiftRight_eq_div_pow] at hnat
  have hval : w.toNat / 2 ^ 25 = 37 := hnat
  rw [decodeCop2, Fin.le_def, Fin.val_ofNat, BitVec.toNat_ushiftRight, Nat.shiftRight_eq_div_pow]
  change 16 ≤ _
  omega

/-- **Both decoders** read the same fields out of the low 25 bits. -/
theorem fields_of_low (h : IsMacro w) (hlow : instr.toNat % 2 ^ 25 = w.toNat % 2 ^ 25) : Fields (decodeCop2 w) instr := by
  have hshift (x : Word) (n : ℕ) : (x >>> n).toNat = x.toNat / 2 ^ n := by
    rw [BitVec.toNat_ushiftRight, Nat.shiftRight_eq_div_pow]
  refine ⟨?_, ?_, ?_, ?_, ?_⟩
  · rw [ftOf, decodeCop2, Fin.ext_iff, Fin.val_ofNat, Fin.val_ofNat, hshift, hshift]
    omega
  · rw [fsOf, decodeCop2, Fin.ext_iff, Fin.val_ofNat, Fin.val_ofNat, hshift, hshift]
    omega
  · rw [fdOf, decodeCop2, Fin.ext_iff, Fin.val_ofNat, Fin.val_ofNat, hshift, hshift]
    omega
  · rw [bcOf, Cop2Instruction.field, decodeCop2, Fin.ext_iff, Fin.val_ofNat, Fin.val_ofNat, BitVec.toNat_setWidth]
    omega
  · have hfield : (decodeCop2 w).vectorField = (w >>> 21).setWidth 4 := by
      have hco := rs_ge h
      simp only [decodeCop2] at hco ⊢
      exact if_pos hco
    rw [hfield, destOf]
    apply BitVec.eq_of_toNat_eq
    rw [BitVec.toNat_setWidth, BitVec.toNat_setWidth, hshift, hshift]
    omega

section

variable (hlow : instr.toNat % 2 ^ 25 = w.toNat % 2 ^ 25)

include hlow

theorem specialOp_eq : specialOp instr = (special2Func w).toNat := by
  rw [specialOp, special2Func]
  refine congrArg BitVec.toNat (BitVec.eq_of_getLsbD_eq fun i hi => ?_)
  have hbit (j : ℕ) (hj : j < 25) (hword : j < 32) : instr[j] = w[j] := by
    have htest := congrArg (Nat.testBit · j) hlow
    simpa only [Nat.testBit_mod_two_pow, decide_eq_true hj, Bool.true_and, BitVec.testBit_toNat,
      BitVec.getLsbD_eq_getElem hword] using htest
  simp only [BitVec.getLsbD_or, BitVec.getLsbD_and, BitVec.getLsbD_ushiftRight, BitVec.getLsbD_shiftLeft]
  interval_cases i <;> simp [hbit]

theorem function_eq : (instr &&& 0x3F).toNat = (w.setWidth 6 : BitVec 6).toNat := by
  have hmask : (instr &&& 0x3F).toNat = instr.toNat % 2 ^ 6 := by
    rw [BitVec.toNat_and]
    exact Nat.and_two_pow_sub_one_eq_mod instr.toNat 6
  rw [hmask, BitVec.toNat_setWidth]
  omega

end

end Words

/-! ### The dispatch -/

section Dispatch

variable {D : Type} {d : Devices D} {other : Cop2Instruction → Statement D} {k : ℕ} {op : MacroOp} {x : Machine}
  {dataSize : Word} {primary doXgkick : Word → Machine → Machine} {w : Word}

theorem translate_co (h : cop2Co ≤ inst.rs) :
    translate f d other inst = if 0x3C ≤ inst.function then translateSpecial2 f d other inst (special2Func inst.raw).toNat
      else translateSpecial1 f other inst inst.function.toNat := by
  have hrs : 16 ≤ inst.rs.val := h
  unfold translate
  split
  all_goals first | omega | exact if_pos h

theorem upper_special (hlo : 0x3C ≤ k) (hhi : k < 0x40) : upper f instr s k = upperSpecial f instr s (specialOp instr) := by
  interval_cases k <;> rfl

theorem lower_special (hlo : 0x3C ≤ k) (hhi : k < 0x40) :
    lower f dataSize instr x doXgkick k = lowerSpecial f dataSize instr x doXgkick (specialOp instr) := by
  interval_cases k <;> rfl

theorem lowerSpecial_op (h : special2Op k = some op) (hl : op.isLower = true) :
    lowerSpecial f dataSize instr x doXgkick k = x.onState fun s => op.step f instr s := by
  unfold special2Op at h
  split at h <;> cases h <;> first | rfl | cases hl

/-- Below `0x3C` nothing is a lower instruction. -/
theorem isLower_op1 (h : special1Op k = some op) : op.isLower = false := by
  unfold special1Op at h
  split at h <;> cases h <;> rfl

/-- Only `CLIP` has the selector `0x1F`. -/
theorem clip_selector (h : special2Op k = some .clip) : k = 0x1F := by
  unfold special2Op at h
  split at h <;> first | rfl | cases h

/-- The special group is reached with every word but that of a NOP. -/
theorem execLower_special (hnop : lowerWord w ≠ 0x8000033C) : execLower f dataSize (lowerWord w) x primary doXgkick =
    lower f dataSize (lowerWord w) x doXgkick (lowerWord w &&& 0x3F).toNat := by
  have hnat := toNat_lowerWord (w := w)
  have hzero : lowerWord w ≠ 0x00000000 := by
    intro h
    rw [h, show (0x00000000 : Word).toNat = 0 from rfl] at hnat
    omega
  have hprimary : (lowerWord w >>> 25) &&& 0x7F = 0x40 := by
    have hshift : (lowerWord w >>> 25).toNat = 64 := by
      rw [BitVec.toNat_ushiftRight, hnat, Nat.shiftRight_eq_div_pow]
      omega
    rw [BitVec.eq_of_toNat_eq (y := 64) hshift]
    rfl
  rw [execLower, if_neg (not_or.2 ⟨hzero, hnop⟩), if_pos hprimary]

end Dispatch

/-! ### The outcome -/

section Outcome

variable {D : Type} {op : MacroOp} {w : Word} {c : Ctx Vu0}

/-- **The statement does what the interpreter does**, from the context `c` and the memory `m`. -/
def MacroAgrees (e : Surroundings D) (w : Word) (op : MacroOp) (c : Ctx Vu0) (m : Ps2Memory D) : Prop :=
  ∃ c' m', e.emitted w c m = some (c', m') ∧ Same c'.sys.rest (e.interpreted op.isLower w c (m.vu .vu0Data)).state

section

variable (e : Surroundings D) (hw : IsMacro w) (hop : MacroOp.ofWord w = some op)

include hw hop

theorem emitted_op : e.emitted w = onVu0 fun v => op.statement e.float (decodeCop2 w) v := by
  rw [Surroundings.emitted, translate_co (rs_ge hw)]
  rw [MacroOp.ofWord] at hop
  by_cases hf : 0x3C ≤ (w.setWidth 6 : BitVec 6)
  · rw [if_pos hf] at hop
    exact (if_pos hf).trans (translate_op2 hop)
  · rw [if_neg hf] at hop
    exact (if_neg hf).trans (translate_op1 hop)

theorem interpreted_op (hdest : op.destination (decodeCop2 w) ≠ some 0) (vuData : Bytes.Memory) :
    ∃ instr, instr.toNat % 2 ^ 25 = w.toNat % 2 ^ 25 ∧
      (e.interpreted op.isLower w c vuData).state = op.step e.float instr (copyVu0ContextToState c) := by
  rw [MacroOp.ofWord] at hop
  have hlt : (w.setWidth 6 : BitVec 6).toNat < 0x40 := (w.setWidth 6 : BitVec 6).isLt
  by_cases hf : 0x3C ≤ (w.setWidth 6 : BitVec 6)
  · rw [if_pos hf] at hop
    cases hl : op.isLower with
    | false =>
      refine ⟨upperWord w, toNat_upperWord, ?_⟩
      have hstep := @upper_op2 e.float _ _ (upperWord w) (copyVu0ContextToState c) hop hl
      rw [← specialOp_eq toNat_upperWord] at hstep
      rw [Surroundings.interpreted, if_neg Bool.false_ne_true, execUpper, function_eq toNat_upperWord,
        upper_special hf hlt, hstep]
    | true =>
      refine ⟨lowerWord w, toNat_lowerWord_mod, ?_⟩
      have hnop : lowerWord w ≠ 0x8000033C := by
        intro h
        have hrt : (decodeCop2 w).rt = 0 := by
          rw [← (fields_of_low hw toNat_lowerWord_mod).rt, h]
          rfl
        refine hdest ?_
        -- The lower instructions are those that write the register of a NOP.
        cases op with
        | move => exact congrArg some hrt
        | mr32 => exact congrArg some hrt
        | _ => cases hl
      have hstep := @lowerSpecial_op e.float (lowerWord w) _ _ ⟨copyVu0ContextToState c, vuData⟩ vu0DataSize e.doXgkick hop hl
      rw [← specialOp_eq toNat_lowerWord_mod] at hstep
      rw [Surroundings.interpreted, if_pos rfl, execLower_special hnop, function_eq toNat_lowerWord_mod,
        lower_special hf hlt, hstep]
      rfl
  · rw [if_neg hf] at hop
    refine ⟨upperWord w, toNat_upperWord, ?_⟩
    rw [Surroundings.interpreted, isLower_op1 hop, if_neg Bool.false_ne_true, execUpper, function_eq toNat_upperWord,
      upper_op1 hop]

end

theorem clip_field (hop : MacroOp.ofWord w = some .clip) : (decodeCop2 w).field = 3 := by
  rw [MacroOp.ofWord] at hop
  by_cases hf : 0x3C ≤ (w.setWidth 6 : BitVec 6)
  · rw [if_pos hf] at hop
    have hsel : special2Func w = 0x1F := BitVec.eq_of_toNat_eq (clip_selector hop)
    have hand : w &&& (0x3 : Word) = special2Func w &&& (0x3 : Word) := by
      refine BitVec.eq_of_getLsbD_eq fun i hi => ?_
      simp only [special2Func, BitVec.getLsbD_or, BitVec.getLsbD_and, BitVec.getLsbD_ushiftRight, BitVec.getLsbD_shiftLeft]
      interval_cases i <;> simp
    have hlow : w.toNat % 4 = 3 := by
      have hnat := congrArg BitVec.toNat hand
      rw [hsel, BitVec.toNat_and] at hnat
      exact (Nat.and_two_pow_sub_one_eq_mod w.toNat 2).symm.trans hnat
    rw [Cop2Instruction.field, decodeCop2, Fin.ext_iff, Fin.val_ofNat, BitVec.toNat_setWidth]
    change _ = 3
    omega
  · rw [if_neg hf] at hop
    unfold special1Op at hop
    split at hop <;> cases hop

theorem statement_vf0 {v : Vu0} (hdest : op.destination inst ≠ some 0) : (op.statement f inst v).vf 0 = v.vf 0 := by
  have hne {reg : Reg} (h : some reg ≠ some (0 : Reg)) : (0 : Reg) ≠ reg := fun heq => h (congrArg some heq.symm)
  cases op with
  | vf a o => exact Function.update_of_ne (hne hdest) _ _
  | sumVf a o => exact Function.update_of_ne (hne hdest) _ _
  | opmsub => exact Function.update_of_ne (hne hdest) _ _
  | abs => exact Function.update_of_ne (hne hdest) _ _
  | move => exact Function.update_of_ne (hne hdest) _ _
  | mr32 => exact Function.update_of_ne (hne hdest) _ _
  | acc a o => rfl
  | sumAcc a o => rfl
  | opmula => rfl
  | clip => rfl

theorem step_vf0 {s : VU1State} (hn : Fields inst instr) (hdest : op.destination inst ≠ some 0) :
    (op.step f instr s).vf 0 = s.vf 0 := by
  have hne {reg : Reg} (h : some reg ≠ some (0 : Reg)) : (0 : Reg) ≠ reg := fun heq => h (congrArg some heq.symm)
  have hsa := hn.sa.symm
  have hrt := hn.rt.symm
  cases op with
  | vf a o => exact Function.update_of_ne (hsa ▸ hne hdest) _ _
  | sumVf a o => exact Function.update_of_ne (hsa ▸ hne hdest) _ _
  | opmsub => exact Function.update_of_ne (hsa ▸ hne hdest) _ _
  | abs => exact Function.update_of_ne (hrt ▸ hne hdest) _ _
  | move => exact Function.update_of_ne (hrt ▸ hne hdest) _ _
  | mr32 => exact Function.update_of_ne (hrt ▸ hne hdest) _ _
  | acc a o => rfl
  | sumAcc a o => rfl
  | opmula => rfl
  | clip => rfl

/-- The copy has the registers of the context, as long as VF0 holds its constant. -/
theorem copied (h : c.sys.rest.vf 0 = vf0) : Copied c.sys.rest (copyVu0ContextToState c) := by
  refine ⟨?_, rfl, rfl, rfl, rfl⟩
  rw [copyVu0ContextToState, ← h]
  exact Function.update_eq_self 0 c.sys.rest.vf

/-- **The arithmetic of both agrees** exactly where VF0 holds its constant and the instruction is exact. -/
theorem macro_agrees_iff (e : Surroundings D) (m : Ps2Memory D) (hw : IsMacro w) (hop : MacroOp.ofWord w = some op)
    (hdest : op.destination (decodeCop2 w) ≠ some 0) (hnan : op.NoNaN (decodeCop2 w) c.sys.rest) :
    MacroAgrees e w op c m ↔ c.sys.rest.vf 0 = vf0 ∧ op.Exact e.float (decodeCop2 w) c.sys.rest := by
  obtain ⟨instr, hlow, hinterpreted⟩ := interpreted_op e hw hop hdest (m.vu .vu0Data) (c := c)
  have hfields := fields_of_low hw hlow
  have hagrees : MacroAgrees e w op c m ↔
      Same (op.statement e.float (decodeCop2 w) c.sys.rest) (op.step e.float instr (copyVu0ContextToState c)) := by
    rw [MacroAgrees, emitted_op e hw hop, hinterpreted]
    constructor
    · rintro ⟨c', m', hrun, hsame⟩
      cases hrun
      exact hsame
    · intro hsame
      exact ⟨_, _, rfl, hsame⟩
  rw [hagrees]
  by_cases hzero : c.sys.rest.vf 0 = vf0
  · have hfield : op = .clip → (decodeCop2 w).field = 3 := by
      rintro rfl
      exact clip_field hop
    rw [same_iff hfields (copied hzero) hfield hnan]
    exact ⟨fun h => ⟨hzero, h⟩, fun h => h.2⟩
  · refine iff_of_false (fun hsame => hzero ?_) fun h => hzero h.1
    rw [← statement_vf0 (f := e.float) hdest, hsame.vf, step_vf0 hfields hdest]
    exact Function.update_self 0 vf0 c.sys.rest.vf

end Outcome

/-! ### Runs on small numbers -/

/-- Sums with 0, and products with 0 and 1. -/
def smallOps : FloatOps where
  add a b := if a = 0 then b else a
  sub a _ := a
  mul a b := if a = one then b else if b = one then a else 0
  div a _ := a
  sqrt a := a
  ofInt a := a
  toInt a := a
  lt a b := decide (value a < value b)
  lt_iff _ _ _ _ := decide_eq_true_iff

/-- VF0 holds its constant, the first field of VF1 is 1, and all else is 0. -/
def smallVu0 : Vu0 where
  vf n := if n = 0 then vf0 else if n = 1 then ![one, 0, 0, 0] else 0
  vi _ := 0
  q := 0
  p := 0
  i := 0
  r := 0
  acc := 0
  macFlags := 0
  clipFlags := 0
  clipFlags2 := 0
  cmsar0 := 0
  cmsar1 := 0
  cmsar2 := 0
  cmsar3 := 0
  vpuStat := 0
  vpuStat2 := 0
  vpuStat3 := 0
  vpuStat4 := 0
  tpc := 0
  tpc2 := 0
  fbrst := 0
  fbrst2 := 0
  fbrst3 := 0
  fbrst4 := 0
  itop := 0
  top := 0
  info := 0
  xitop := 0
  pc := 0

def smallContext : Ctx Vu0 where
  r _ := 0
  sys := { pc := 0, inDelaySlot := false, branchPc := 0, fcr31 := 0, vu0Status := 0, llbit := 0, lladdr := 0, rest := smallVu0 }

def small : Surroundings Unit where
  float := smallOps
  devices := quiet
  other _ c m := some (c, m)
  primary _ x := x
  doXgkick _ x := x

/-- `VADD.xyzw vf2, vf1, vf2`. -/
theorem vadd_agrees : MacroAgrees small 0x4BE208A8 (.vf .add .all) smallContext cleared :=
  (@macro_agrees_iff Unit (.vf .add .all) 0x4BE208A8 smallContext small cleared (by decide) (by decide) (by decide)
    trivial).2 ⟨rfl, trivial⟩

/-- **`VMADD.x vf2, vf1, vf1` leaves the sum in the accumulator too.** -/
theorem vmadd_accumulates : ¬∀ (e : Surroundings Unit) (w : Word) (op : MacroOp) (c : Ctx Vu0) (m : Ps2Memory Unit),
    IsMacro w → MacroOp.ofWord w = some op → op.destination (decodeCop2 w) ≠ some 0 →
      op.NoNaN (decodeCop2 w) c.sys.rest → MacroAgrees e w op c m := by
  intro h
  obtain ⟨c', m', hrun, hsame⟩ :=
    h small 0x4B0108A9 (.sumVf .add .all) smallContext cleared (by decide) (by decide) (by decide) trivial
  cases hrun
  exact absurd (congrFun hsame.acc 0) (by decide)

end Ps2Recomp.Vu
