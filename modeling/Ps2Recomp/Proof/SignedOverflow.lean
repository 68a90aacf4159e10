import Ps2Recomp.Lib.Words
import Ps2Recomp.Spec.Mmi

/-!
# Signed overflow in emitted arithmetic

Which of the emitted additions, subtractions and multiplications evaluate a signed operation whose
result does not fit its type. The wide and the unsigned ones never do; the ones that compute in the
type of the operands and test the result afterwards do exactly where they should raise the exception.

* `sound_iff`: each statement is defined and does what the architecture says exactly on the operands
  that `NoOverflow` names.
-/

namespace Ps2Recomp.Arith

open Simd CxxInt

variable {inst : Instruction} {c : GuestCtx}

/-! ## Tests that come too late -/

variable {n : ℕ}

/-- A sum that is defined never passes the test for overflow. -/
theorem addFlag_of_fits {a b : BitVec n} (h : Fits n (a.toInt + b.toInt)) :
    (!(a ^^^ b).msb && (a ^^^ (a + b)).msb) = false := by
  rw [← not_saddOverflow h, BitVec.saddOverflow_eq, BitVec.msb_xor, BitVec.msb_xor]
  cases a.msb <;> cases b.msb <;> cases (a + b).msb <;> rfl

theorem subFlag_of_fits {a b : BitVec n} (h : Fits n (a.toInt - b.toInt)) :
    ((a ^^^ b).msb && (a ^^^ (a - b)).msb) = false := by
  rw [← not_ssubOverflow h, BitVec.ssubOverflow_eq, BitVec.msb_xor, BitVec.msb_xor]
  cases a.msb <;> cases b.msb <;> cases (a - b).msb <;> rfl

section

variable (a b : BitVec n) (result : BitVec n → GuestCtx → GuestCtx) (c : GuestCtx)

theorem addChecked_eq :
    (do let r ← sadd a b; some (checked (!(a ^^^ b).msb && (a ^^^ r).msb) (result r) c)) =
      if Fits n (a.toInt + b.toInt) then some (result (a + b) c) else none := by
  split
  · rename_i h
    rw [sadd_eq_some h]
    dsimp only [Option.bind_eq_bind, Option.bind_some]
    rw [addFlag_of_fits h]
    rfl
  · rename_i h
    rw [sadd_eq_none h]
    rfl

theorem subChecked_eq :
    (do let r ← ssub a b; some (checked ((a ^^^ b).msb && (a ^^^ r).msb) (result r) c)) =
      if Fits n (a.toInt - b.toInt) then some (result (a - b) c) else none := by
  split
  · rename_i h
    rw [ssub_eq_some h]
    dsimp only [Option.bind_eq_bind, Option.bind_some]
    rw [subFlag_of_fits h]
    rfl
  · rename_i h
    rw [ssub_eq_none h]
    rfl

end

theorem sub_eq :
    sub inst c =
      if Fits 32 ((c.gprU32 inst.rs).toInt - (c.gprU32 inst.rt).toInt) then
        some (c.setGprS32 inst.rd (c.gprU32 inst.rs - c.gprU32 inst.rt))
      else none := subChecked_eq _ _ (fun r c => c.setGprS32 inst.rd r) c

theorem dadd_eq :
    dadd inst c =
      if Fits 64 ((c.gprU64 inst.rs).toInt + (c.gprU64 inst.rt).toInt) then
        some (c.setGprU64 inst.rd (c.gprU64 inst.rs + c.gprU64 inst.rt))
      else none := addChecked_eq _ _ (fun r c => c.setGprU64 inst.rd r) c

theorem dsub_eq :
    dsub inst c =
      if Fits 64 ((c.gprU64 inst.rs).toInt - (c.gprU64 inst.rt).toInt) then
        some (c.setGprU64 inst.rd (c.gprU64 inst.rs - c.gprU64 inst.rt))
      else none := subChecked_eq _ _ (fun r c => c.setGprU64 inst.rd r) c

theorem daddi_eq :
    daddi inst c =
      if Fits 64 ((c.gprU64 inst.rs).toInt + (inst.simmediate.signExtend 64).toInt) then
        some (c.setGprU64 inst.rt (c.gprU64 inst.rs + inst.simmediate.signExtend 64))
      else none := addChecked_eq _ _ (fun r c => c.setGprU64 inst.rt r) c

theorem addi_eq (h0 : inst.rt ≠ 0) :
    addi inst c =
      if Fits 32 ((c.gprU32 inst.rs).toInt + inst.simmediate.toInt) then
        some (c.setGprS32 inst.rt (c.gprU32 inst.rs + inst.simmediate))
      else none := (if_neg h0).trans (addChecked_eq _ _ (fun r c => c.setGprS32 inst.rt r) c)

/-! ## Sums in a wider type -/

theorem toInt_extended (x : Word) : (x.signExtend 64).toInt = x.toInt :=
  BitVec.toInt_signExtend_of_le (by decide)

theorem fits_word (x : Word) : -2147483648 ≤ x.toInt ∧ x.toInt < 2147483648 :=
  fits_toInt x (by decide)

theorem fits_add_extended (a b : Word) : Fits 64 ((a.signExtend 64).toInt + (b.signExtend 64).toInt) := by
  have ha := fits_word a
  have hb := fits_word b
  rw [toInt_extended, toInt_extended]
  exact ⟨by omega, by omega⟩

theorem setWidth_add_extended (a b : Word) : (a.signExtend 64 + b.signExtend 64).setWidth 32 = a + b := by
  rw [BitVec.setWidth_add _ _ (by decide), SignExtend.low (by decide), SignExtend.low (by decide)]

theorem not_fits_word_iff {z : ℤ} : ¬Fits 32 z ↔ z > 2147483647 ∨ z < -2147483648 := by
  constructor
  · intro h
    by_contra hin
    exact h ⟨by omega, by omega⟩
  · rintro hout ⟨hlo, hhi⟩
    omega

/-- `ADD` adds in 64 bits, and raises the exception where it should. -/
theorem add_eq :
    add inst c =
      some (if Fits 32 ((c.gprU32 inst.rs).toInt + (c.gprU32 inst.rt).toInt) then
        c.setGprS32 inst.rd (c.gprU32 inst.rs + c.gprU32 inst.rt)
      else c.signal .integerOverflow) := by
  rw [add, sadd_eq_some (fits_add_extended _ _)]
  dsimp only [Option.bind_eq_bind, Option.bind_some]
  rw [toInt_add (fits_add_extended _ _), toInt_extended, toInt_extended, setWidth_add_extended, checked]
  congr 1
  by_cases h : Fits 32 ((c.gprU32 inst.rs).toInt + (c.gprU32 inst.rt).toInt)
  · rw [if_pos h, if_neg]
    rw [decide_eq_true_iff, ← not_fits_word_iff]
    exact not_not.2 h
  · rw [if_neg h, if_pos (decide_eq_true (not_fits_word_iff.1 h))]

theorem toInt_setWidth_of_lt {w n : ℕ} (h : w < n) (x : BitVec w) : (x.setWidth n).toInt = x.toNat := by
  have hlt := x.isLt
  have hpow : 2 ^ (w + 1) ≤ 2 ^ n := Nat.pow_le_pow_right (by decide) h
  rw [Nat.pow_succ'] at hpow
  have hnat : (x.setWidth n).toNat = x.toNat := BitVec.toNat_setWidth_of_le h.le
  rw [BitVec.toInt_eq_toNat_of_lt (by omega), hnat]

theorem addiu_isSome (inst : Instruction) (c : GuestCtx) : ∃ c', addiu inst c = some c' := by
  unfold addiu
  split
  · exact ⟨_, rfl⟩
  split
  · have hfits : Fits 64 (((c.gprU32 inst.rs).setWidth 64).toInt + (inst.simmediate.setWidth 64).toInt) := by
      have hrs := (c.gprU32 inst.rs).isLt
      have himm := inst.simmediate.isLt
      rw [toInt_setWidth_of_lt (by decide), toInt_setWidth_of_lt (by decide)]
      exact ⟨by omega, by omega⟩
    rw [sadd_eq_some hfits]
    exact ⟨_, rfl⟩
  · exact ⟨_, rfl⟩

theorem sum4_eq (p0 p1 p2 p3 : Word) :
    ∃ s, sum4 p0 p1 p2 p3 = some s ∧ s.toInt = p0.toInt + p1.toInt + p2.toInt + p3.toInt := by
  have h0 := fits_word p0
  have h1 := fits_word p1
  have h2 := fits_word p2
  have h3 := fits_word p3
  have s1 : (p0.signExtend 64 + p1.signExtend 64).toInt = p0.toInt + p1.toInt := by
    rw [toInt_add (fits_add_extended _ _), toInt_extended, toInt_extended]
  have f2 : Fits 64 ((p0.signExtend 64 + p1.signExtend 64).toInt + (p2.signExtend 64).toInt) := by
    rw [s1, toInt_extended]
    exact ⟨by omega, by omega⟩
  have s2 := toInt_add f2
  rw [s1, toInt_extended] at s2
  have f3 : Fits 64 ((p0.signExtend 64 + p1.signExtend 64 + p2.signExtend 64).toInt + (p3.signExtend 64).toInt) := by
    rw [s2, toInt_extended]
    exact ⟨by omega, by omega⟩
  have s3 := toInt_add f3
  rw [s2, toInt_extended] at s3
  refine ⟨_, ?_, s3⟩
  rw [sum4, sadd_eq_some (fits_add_extended _ _)]
  dsimp only [Option.bind_eq_bind, Option.bind_some]
  rw [sadd_eq_some f2]
  dsimp only [Option.bind_some]
  exact sadd_eq_some f3

/-! ## Products -/

theorem product_isSome (inst : Instruction) (c : GuestCtx) (signed : Bool) : ∃ p, product inst signed c = some p := by
  cases signed
  · exact ⟨_, rfl⟩
  · have hfits := fits_mul (n := 64) (m := 32) (by decide) (by decide)
      (fits_word (c.gprU32 inst.rs)) (fits_word (c.gprU32 inst.rt))
    rw [← toInt_extended, ← toInt_extended (c.gprU32 inst.rt)] at hfits
    exact ⟨_, smul_eq_some hfits⟩

section

variable {set : GuestCtx → BitVec 64 → BitVec 64 → GuestCtx}

theorem multiply_isSome {signed : Bool} : ∃ c', multiply inst signed set c = some c' := by
  obtain ⟨p, hp⟩ := product_isSome inst c signed
  rw [multiply, hp]
  exact ⟨_, rfl⟩

theorem accumulate_isSome {signed subtract : Bool} {acc : HiLo → BitVec 64} :
    ∃ c', accumulate inst signed subtract acc set c = some c' := by
  obtain ⟨p, hp⟩ := product_isSome inst c signed
  rw [accumulate, hp]
  exact ⟨_, rfl⟩

end

/-- The sum of the eight products of halfwords, as the four words have it. -/
def maddTotal (inst : Instruction) (c : GuestCtx) : ℤ :=
  (maddWord inst c 0).toInt + (maddWord inst c 1).toInt + (maddWord inst c 2).toInt + (maddWord inst c 3).toInt

theorem maddSum_eq (inst : Instruction) (c : GuestCtx) : ∃ s, maddSum inst c = some s ∧ s.toInt = maddTotal inst c := sum4_eq _ _ _ _

def pairTotal (v : M128) (k : ℕ) : ℤ := (lane 16 (2 * k) v).toNat + (lane 16 (2 * k + 1) v).toNat

/-- The sum of the eight halfwords, which are not signed. -/
def pairsTotal (v : M128) : ℤ := pairTotal v 0 + pairTotal v 1 + pairTotal v 2 + pairTotal v 3

theorem pairSum_eq (v : M128) (k : ℕ) : ∃ h, pairSum v k = some h ∧ h.toInt = pairTotal v k := by
  have hlo := (lane 16 (2 * k) v).isLt
  have hhi := (lane 16 (2 * k + 1) v).isLt
  have hfits : Fits 32 (((lane 16 (2 * k) v).setWidth 32).toInt + ((lane 16 (2 * k + 1) v).setWidth 32).toInt) := by
    rw [toInt_setWidth_of_lt (by decide), toInt_setWidth_of_lt (by decide)]
    exact ⟨by omega, by omega⟩
  have hsum := toInt_add hfits
  rw [toInt_setWidth_of_lt (by decide), toInt_setWidth_of_lt (by decide)] at hsum
  exact ⟨_, sadd_eq_some hfits, hsum⟩

theorem pmaddh_eq_none_iff : translatePMADDH inst c = none ↔ ¬Fits 64 ((acc0 c.hilo).toInt + maddTotal inst c) := by
  obtain ⟨s, hs, hval⟩ := maddSum_eq inst c
  rw [translatePMADDH, hs, ← hval]
  exact bind_sadd_eq_none_iff

theorem pmsubh_eq_none_iff : translatePMSUBH inst c = none ↔ ¬Fits 64 ((acc0 c.hilo).toInt - maddTotal inst c) := by
  obtain ⟨s, hs, hval⟩ := maddSum_eq inst c
  rw [translatePMSUBH, hs, ← hval]
  exact bind_ssub_eq_none_iff

theorem pmulth_isSome (inst : Instruction) (c : GuestCtx) : ∃ c', translatePMULTH inst c = some c' := by
  obtain ⟨s, hs, -⟩ := maddSum_eq inst c
  rw [translatePMULTH, hs]
  exact ⟨_, rfl⟩

theorem accumulatePairs_eq_none_iff {pairs : GuestCtx → M128} :
    accumulatePairs inst pairs c = none ↔ ¬Fits 64 ((acc0 c.hilo).toInt + pairsTotal (pairs c)) := by
  obtain ⟨h0, e0, v0⟩ := pairSum_eq (pairs c) 0
  obtain ⟨h1, e1, v1⟩ := pairSum_eq (pairs c) 1
  obtain ⟨h2, e2, v2⟩ := pairSum_eq (pairs c) 2
  obtain ⟨h3, e3, v3⟩ := pairSum_eq (pairs c) 3
  obtain ⟨s, hs, hval⟩ := sum4_eq h0 h1 h2 h3
  rw [v0, v1, v2, v3] at hval
  rw [accumulatePairs, e0, e1, e2, e3]
  dsimp only [Option.bind_eq_bind, Option.bind_some]
  rw [hs, pairsTotal, ← hval]
  exact bind_sadd_eq_none_iff

theorem phmadh_eq_none_iff : translatePHMADH inst c = none ↔
    ¬Fits 64 ((acc0 c.hilo).toInt + pairsTotal (mmAddEpi 16 (prodEv inst c) (prodOd inst c))) :=
  accumulatePairs_eq_none_iff

theorem phmsbh_eq_none_iff : translatePHMSBH inst c = none ↔
    ¬Fits 64 ((acc0 c.hilo).toInt + pairsTotal (mmSubEpi 16 (prodOd inst c) (prodEv inst c))) :=
  accumulatePairs_eq_none_iff

/-! ## The instructions -/

inductive Arithmetic
  | add | addi | addiu | addu | sub | subu | dadd | daddi | daddiu | daddu | dsub | dsubu
  | mult | multu | mult1 | multu1 | madd | maddu | madd1 | maddu1 | msub | msubu
  | pmaddh | pmsubh | phmadh | phmsbh | pmulth
  deriving DecidableEq, Repr

/-- Where an instruction is in the encoding. -/
inductive Encoding
  | special (function : BitVec 6) | immediate (opcode : Opcode) | mmi (function : BitVec 6)
  | mmi2 (subfunc : Reg)

def Encoding.Of (inst : Instruction) : Encoding → Prop
  | .special f => inst.opcode = .special ∧ inst.function = f
  | .immediate o => inst.opcode = o
  | .mmi f => inst.opcode = .mmi ∧ inst.function = f
  | .mmi2 s => inst.opcode = .mmi ∧ inst.function = mmiMmi2 ∧ inst.sa = s

namespace Arithmetic

def encoding : Arithmetic → Encoding
  | add => .special specialAdd
  | addi => .immediate .addi
  | addiu => .immediate .addiu
  | addu => .special specialAddu
  | sub => .special specialSub
  | subu => .special specialSubu
  | dadd => .special specialDadd
  | daddi => .immediate .daddi
  | daddiu => .immediate .daddiu
  | daddu => .special specialDaddu
  | dsub => .special specialDsub
  | dsubu => .special specialDsubu
  | mult => .special specialMult
  | multu => .special specialMultu
  | mult1 => .mmi mmiMult1
  | multu1 => .mmi mmiMultu1
  | madd => .mmi mmiMadd
  | maddu => .mmi mmiMaddu
  | madd1 => .mmi mmiMadd1
  | maddu1 => .mmi mmiMaddu1
  | msub => .mmi mmiMsub
  | msubu => .mmi mmiMsubu
  | pmaddh => .mmi2 0x10
  | pmsubh => .mmi2 0x14
  | phmadh => .mmi2 0x11
  | phmsbh => .mmi2 0x15
  | pmulth => .mmi2 0x1C

def statement : Arithmetic → Instruction → Emitted
  | add => Arith.add
  | addi => Arith.addi
  | addiu => Arith.addiu
  | addu => Arith.addu
  | sub => Arith.sub
  | subu => Arith.subu
  | dadd => Arith.dadd
  | daddi => Arith.daddi
  | daddiu => Arith.daddiu
  | daddu => Arith.daddu
  | dsub => Arith.dsub
  | dsubu => Arith.dsubu
  | mult => Arith.mult
  | multu => Arith.multu
  | mult1 => Arith.mult1
  | multu1 => Arith.multu1
  | madd => Arith.madd
  | maddu => Arith.maddu
  | madd1 => Arith.madd1
  | maddu1 => Arith.maddu1
  | msub => Arith.msub
  | msubu => Arith.msubu
  | pmaddh => translatePMADDH
  | pmsubh => translatePMSUBH
  | phmadh => translatePHMADH
  | phmsbh => translatePHMSBH
  | pmulth => translatePMULTH

theorem translate_eq {op : Arithmetic} {inst : Instruction} (sse41 : Bool)
    (h : op.encoding.Of inst) : translate sse41 inst = some (op.statement inst) := by
  cases hop : op.encoding with
  | special f =>
    rw [hop] at h
    obtain ⟨hop', hfun⟩ := h
    rw [translate, hop']
    dsimp only
    rw [translateSpecial, hfun]
    cases op <;> cases hop <;> rfl
  | immediate o =>
    rw [hop] at h
    rw [translate, show inst.opcode = o from h]
    cases op <;> cases hop <;> rfl
  | mmi f =>
    rw [hop] at h
    obtain ⟨hop', hfun⟩ := h
    rw [translate, hop']
    dsimp only
    rw [translateMmi, hfun]
    cases op <;> cases hop <;> rfl
  | mmi2 s =>
    rw [hop] at h
    obtain ⟨hop', hfun, hsa⟩ := h
    rw [translate, hop']
    dsimp only
    rw [translateMmi, hfun, translateMMI2Instruction, hsa]
    cases op <;> cases hop <;> rfl

/-- The exception if the mathematical result does not fit, the result otherwise. -/
def raiseUnless (fits : Prop) [Decidable fits] (result c : GuestCtx) : GuestCtx :=
  if fits then result else c.signal .integerOverflow

/-- What the checked instructions and `DADDIU` are to do. -/
def Fulfils (op : Arithmetic) (inst : Instruction) (c c' : GuestCtx) : Prop :=
  match op with
  | add =>
    c' = raiseUnless (Fits 32 ((c.gprU32 inst.rs).toInt + (c.gprU32 inst.rt).toInt))
      (c.setGprS32 inst.rd (c.gprU32 inst.rs + c.gprU32 inst.rt)) c
  | addi =>
    c' = raiseUnless (Fits 32 ((c.gprU32 inst.rs).toInt + inst.simmediate.toInt))
      (c.setGprS32 inst.rt (c.gprU32 inst.rs + inst.simmediate)) c
  | sub =>
    c' = raiseUnless (Fits 32 ((c.gprU32 inst.rs).toInt - (c.gprU32 inst.rt).toInt))
      (c.setGprS32 inst.rd (c.gprU32 inst.rs - c.gprU32 inst.rt)) c
  | dadd =>
    c' = raiseUnless (Fits 64 ((c.gprU64 inst.rs).toInt + (c.gprU64 inst.rt).toInt))
      (c.setGprU64 inst.rd (c.gprU64 inst.rs + c.gprU64 inst.rt)) c
  | daddi =>
    c' = raiseUnless (Fits 64 ((c.gprU64 inst.rs).toInt + (inst.simmediate.signExtend 64).toInt))
      (c.setGprU64 inst.rt (c.gprU64 inst.rs + inst.simmediate.signExtend 64)) c
  | dsub =>
    c' = raiseUnless (Fits 64 ((c.gprU64 inst.rs).toInt - (c.gprU64 inst.rt).toInt))
      (c.setGprU64 inst.rd (c.gprU64 inst.rs - c.gprU64 inst.rt)) c
  | daddiu => c' = c.setGprU64 inst.rt (c.gprU64 inst.rs + inst.simmediate.signExtend 64)
  | _ => True

/-- Every signed operation of the statement fits its type, and the statement does what it is to do. -/
def Sound (op : Arithmetic) (inst : Instruction) (c : GuestCtx) : Prop :=
  ∃ c', op.statement inst c = some c' ∧ op.Fulfils inst c c'

/-- No result leaves the type that the statement computes it in. -/
def NoOverflow (op : Arithmetic) (inst : Instruction) (c : GuestCtx) : Prop :=
  match op with
  | addi => Fits 32 ((c.gprU32 inst.rs).toInt + inst.simmediate.toInt)
  | sub => Fits 32 ((c.gprU32 inst.rs).toInt - (c.gprU32 inst.rt).toInt)
  | dadd => Fits 64 ((c.gprU64 inst.rs).toInt + (c.gprU64 inst.rt).toInt)
  | daddi => Fits 64 ((c.gprU64 inst.rs).toInt + (inst.simmediate.signExtend 64).toInt)
  | dsub => Fits 64 ((c.gprU64 inst.rs).toInt - (c.gprU64 inst.rt).toInt)
  | daddiu =>
    inst.rt = 0 ∨ Fits 64 ((c.gprU64 inst.rs).toInt + (inst.simmediate.signExtend 64).toInt)
  | pmaddh => Fits 64 ((acc0 c.hilo).toInt + maddTotal inst c)
  | pmsubh => Fits 64 ((acc0 c.hilo).toInt - maddTotal inst c)
  | phmadh =>
    Fits 64 ((acc0 c.hilo).toInt + pairsTotal (mmAddEpi 16 (prodEv inst c) (prodOd inst c)))
  | phmsbh =>
    Fits 64 ((acc0 c.hilo).toInt + pairsTotal (mmSubEpi 16 (prodOd inst c) (prodEv inst c)))
  | _ => True

theorem raise_iff {st : Option GuestCtx} {fits : Prop} [Decidable fits] {result : GuestCtx}
    (h : st = if fits then some result else none) :
    (∃ c', st = some c' ∧ c' = raiseUnless fits result c) ↔ fits := by
  constructor
  · rintro ⟨c', hc', -⟩
    by_contra hfits
    rw [h, if_neg hfits] at hc'
    cases hc'
  · intro hfits
    exact ⟨result, h.trans (if_pos hfits), (if_pos hfits).symm⟩

theorem signal_ne (c : GuestCtx) (e : PS2Exception) : c ≠ c.signal e := by
  intro h
  have hraised : c.sys.rest.raised = c.sys.rest.raised + 1 :=
    congrArg (fun c : GuestCtx => c.sys.rest.raised) h
  omega

/-- With `$zero` as its destination nothing is emitted, not even the exception. -/
theorem sound_addi_iff : Arithmetic.addi.Sound inst c ↔ Fits 32 ((c.gprU32 inst.rs).toInt + inst.simmediate.toInt) := by
  by_cases h0 : inst.rt = 0
  · have hnop : Arith.addi inst c = some c := if_pos h0
    have hset : ∀ v, c.setGprS32 inst.rt v = c := fun v => if_pos h0
    constructor
    · rintro ⟨c', hc', heq⟩
      by_contra hfits
      cases hnop.symm.trans hc'
      exact signal_ne c _ (heq.trans (if_neg hfits))
    · intro hfits
      exact ⟨c, hnop, ((if_pos hfits).trans (hset _)).symm⟩
  · exact raise_iff (addi_eq h0)

theorem sound_daddiu_iff : Arithmetic.daddiu.Sound inst c ↔ inst.rt = 0 ∨
    Fits 64 ((c.gprU64 inst.rs).toInt + (inst.simmediate.signExtend 64).toInt) := by
  by_cases h0 : inst.rt = 0
  · have hset : ∀ v, c.setGprU64 inst.rt v = c := fun v => if_pos h0
    exact iff_of_true ⟨c, if_pos h0, (hset _).symm⟩ (Or.inl h0)
  · rw [or_iff_right h0]
    constructor
    · rintro ⟨c', hc', -⟩
      by_contra hfits
      rw [statement, Arith.daddiu, if_neg h0, sadd_eq_none hfits] at hc'
      cases hc'
    · intro hfits
      refine ⟨_, ?_, rfl⟩
      rw [statement, Arith.daddiu, if_neg h0, sadd_eq_some hfits]
      rfl

theorem sound_iff_of_none (op : Arithmetic) {fits : Prop} (hful : ∀ c', op.Fulfils inst c c')
    (h : op.statement inst c = none ↔ ¬fits) : op.Sound inst c ↔ fits := by
  constructor
  · rintro ⟨c', hc', -⟩
    by_contra hfits
    rw [h.2 hfits] at hc'
    cases hc'
  · intro hfits
    obtain ⟨c', hc'⟩ := Option.ne_none_iff_exists'.1 fun hnone => h.1 hnone hfits
    exact ⟨c', hc', hful c'⟩

end Arithmetic

/-- **Where emitted arithmetic is free of signed overflow.** -/
theorem sound_iff (sse41 : Bool) (op : Arithmetic) (inst : Instruction) (h : op.encoding.Of inst) :
    translate sse41 inst = some (op.statement inst) ∧ ∀ c, op.Sound inst c ↔ op.NoOverflow inst c := by
  refine ⟨Arithmetic.translate_eq sse41 h, ?_⟩
  intro c
  cases op with
  | add => exact iff_of_true ⟨_, add_eq, rfl⟩ trivial
  | addi => exact Arithmetic.sound_addi_iff
  | addiu =>
    obtain ⟨c', hc'⟩ := addiu_isSome inst c
    exact iff_of_true ⟨c', hc', trivial⟩ trivial
  | sub => exact Arithmetic.raise_iff sub_eq
  | dadd => exact Arithmetic.raise_iff dadd_eq
  | daddi => exact Arithmetic.raise_iff daddi_eq
  | daddiu => exact Arithmetic.sound_daddiu_iff
  | dsub => exact Arithmetic.raise_iff dsub_eq
  | addu | subu | daddu | dsubu => exact iff_of_true ⟨_, rfl, trivial⟩ trivial
  | mult | multu | mult1 | multu1 =>
    obtain ⟨c', hc'⟩ := multiply_isSome
    exact iff_of_true ⟨c', hc', trivial⟩ trivial
  | madd | maddu | madd1 | maddu1 | msub | msubu =>
    obtain ⟨c', hc'⟩ := accumulate_isSome
    exact iff_of_true ⟨c', hc', trivial⟩ trivial
  | pmaddh => exact Arithmetic.sound_iff_of_none .pmaddh (fun _ => trivial) pmaddh_eq_none_iff
  | pmsubh => exact Arithmetic.sound_iff_of_none .pmsubh (fun _ => trivial) pmsubh_eq_none_iff
  | phmadh =>
    exact Arithmetic.sound_iff_of_none .phmadh (fun _ => trivial) phmadh_eq_none_iff
  | phmsbh =>
    exact Arithmetic.sound_iff_of_none .phmsbh (fun _ => trivial) phmsbh_eq_none_iff
  | pmulth =>
    obtain ⟨c', hc'⟩ := pmulth_isSome inst c
    exact iff_of_true ⟨c', hc', trivial⟩ trivial

/-- `sub $3, $4, $5` -/
def subInst : Instruction := { opcode := .special, function := specialSub, rs := 4, rt := 5, rd := 3 }

/-- The least number in `$4` and the other operand in `$5`. -/
def subRegisters (v : Word) (reg : Reg) : M128 :=
  if reg = 4 then 0x80000000 else if reg = 5 then v.setWidth 128 else 0

theorem sub_zero_sound : Arithmetic.sub.Sound subInst (.ofRegisters (subRegisters 0) {}) :=
  ((sound_iff true .sub subInst ⟨rfl, rfl⟩).2 _).2
    (show Fits 32 ((0x80000000 : Word).toInt - (0 : Word).toInt) by decide)

/-- The difference of the least number and 1 is undefined, and no exception is raised. -/
theorem sub_one_undefined :
    translate true subInst = some (Arith.sub subInst) ∧
      Arith.sub subInst (.ofRegisters (subRegisters 1) {}) = none ∧
      ¬Fits 32 ((0x80000000 : Word).toInt - (1 : Word).toInt) := by
  refine ⟨rfl, ?_, by decide⟩
  rw [sub_eq]
  exact if_neg (by decide +kernel)

end Ps2Recomp.Arith
