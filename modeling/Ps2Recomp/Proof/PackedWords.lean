import Ps2Recomp.Lib.Words
import Ps2Recomp.Spec.Mmi
import Mathlib.Tactic.IntervalCases

/-!
# Packed words against the scalar instructions

A packed instruction should do with the words 0 and 2 of its registers what the scalar one does with
their low words: `upper` puts word 2 in place of word 0.

* `Multiplication.agrees_iff`: the packed multiplications add four unsigned products into HI and LO,
  zero-extended, and leave HI1 and LO1 alone.
* `VariableShift.agrees_iff`: the variable shifts take the value from `rs` and the amount from `rt`.
* `wordOp_agrees_iff`: when each agrees with its scalar instruction.
-/

namespace Ps2Recomp.Packed

open Simd CxxInt

variable {inst : Instruction} {c : GuestCtx}

/-- The registers with their upper halves in place of the lower. -/
def upper (c : GuestCtx) : GuestCtx := { c with r := fun g => c.r g >>> 64 }

/-! ## Lanes and halves -/

theorem lane_shift64 (v : M128) (k : ℕ) : lane 32 k (mmSrliSi128 8 v) = lane 32 (k + 2) v := by
  apply BitVec.eq_of_getLsbD_eq
  intro j hj
  rw [getLsbD_lane hj, getLsbD_lane hj, mmSrliSi128, BitVec.getLsbD_ushiftRight]
  congr 1
  omega

theorem lane64_shift64 (v : M128) : lane 64 0 (mmSrliSi128 8 v) = lane 64 1 v := by
  apply BitVec.eq_of_getLsbD_eq
  intro j hj
  rw [getLsbD_lane hj, getLsbD_lane hj, mmSrliSi128, BitVec.getLsbD_ushiftRight]
  congr 1
  omega

section

variable (c : GuestCtx) (g : Reg)

theorem gprU32_lane : c.gprU32 g = lane 32 0 (c.gprVec g) := by
  rw [Ctx.gprU32, Ctx.gprVec]
  split
  · rfl
  · exact BitVec.setWidth_eq_extractLsb' (by decide)

theorem gprVec_upper : (upper c).gprVec g = mmSrliSi128 8 (c.gprVec g) := by
  rw [Ctx.gprVec, Ctx.gprVec]
  split <;> rfl

theorem gprU32_upper : (upper c).gprU32 g = lane 32 2 (c.gprVec g) := by
  rw [gprU32_lane, gprVec_upper, lane_shift64]

end

theorem hilo_upper (c : GuestCtx) : (upper c).hilo = c.hilo := rfl

/-! ## Words of a product -/

/-- The product in 64 bits of two words, of a signed or an unsigned type. -/
def wordMul (signed : Bool) (a b : Word) : BitVec 64 :=
  if signed then a.signExtend 64 * b.signExtend 64 else a.setWidth 64 * b.setWidth 64

theorem product_eq (inst : Instruction) (signed : Bool) (c : GuestCtx) :
    Arith.product inst signed c = some (wordMul signed (c.gprU32 inst.rs) (c.gprU32 inst.rt)) := by
  cases signed with
  | false => rfl
  | true =>
    refine smul_eq_some ?_
    rw [BitVec.toInt_signExtend_of_le (by decide), BitVec.toInt_signExtend_of_le (by decide)]
    exact fits_mul (by decide) (by decide) (fits_toInt _ (by decide)) (fits_toInt _ (by decide))

theorem wordProduct_eq (inst : Instruction) (c : GuestCtx) :
    wordProduct inst c 0 = wordMul false (lane 32 0 (c.gprVec inst.rs)) (lane 32 0 (c.gprVec inst.rt)) ∧
      wordProduct inst c 1 = wordMul false (lane 32 2 (c.gprVec inst.rs)) (lane 32 2 (c.gprVec inst.rt)) ∧
      wordProduct inst c 2 = wordMul false (lane 32 2 (c.gprVec inst.rs)) (lane 32 2 (c.gprVec inst.rt)) ∧
      wordProduct inst c 3 = 0 := by
  have hmul : ∀ a b : M128, ∀ i, 64 * (i + 1) ≤ 128 →
      lane 64 i (mmMulEpu32 a b) = wordMul false (lane 32 (2 * i) a) (lane 32 (2 * i) b) :=
    fun a b i hi => lane_ofLanes hi
  have hzero : ∀ v : M128, lane 32 4 v = 0 := by
    intro v
    apply BitVec.eq_of_getLsbD_eq
    intro j hj
    rw [getLsbD_lane hj, BitVec.getLsbD_of_ge _ _ (by omega)]
    exact BitVec.getLsbD_zero.symm
  refine ⟨hmul _ _ 0 (by decide), ?_, ?_, ?_⟩
  · exact (lane64_shift64 _).trans (hmul _ _ 1 (by decide))
  · refine (hmul _ _ 0 (by decide)).trans ?_
    rw [lane_shift64, lane_shift64]
  · refine (lane64_shift64 _).trans ((hmul _ _ 1 (by decide)).trans ?_)
    rw [lane_shift64, lane_shift64, hzero, hzero]
    rfl

theorem setWidth_eq_signExtend_iff {a b : Word} : a.setWidth 64 = b.signExtend 64 ↔ a = b ∧ b.msb = false := by
  constructor
  · intro h
    have hlow := congrArg (BitVec.setWidth 32) h
    rw [SignExtend.low (by decide), BitVec.setWidth_setWidth_of_le _ (by decide), BitVec.setWidth_eq] at hlow
    have htop := congrArg BitVec.msb h
    rw [BitVec.msb_signExtend, BitVec.msb_setWidth, BitVec.getLsbD_of_ge a _ (by decide)] at htop
    exact ⟨hlow, htop.symm⟩
  · rintro ⟨rfl, h⟩
    exact (BitVec.signExtend_eq_setWidth_of_msb_false h).symm

theorem eq_iff_words {a r : BitVec 64} :
    a = r ↔ a.setWidth 32 = r.setWidth 32 ∧ (a >>> 32).setWidth 32 = (r >>> 32).setWidth 32 := by
  constructor
  · rintro rfl
    exact ⟨rfl, rfl⟩
  · rintro ⟨hlow, hhigh⟩
    apply BitVec.eq_of_getLsbD_eq
    intro j hj
    by_cases h : j < 32
    · have := congrArg (BitVec.getLsbD · j) hlow
      simpa [BitVec.getLsbD_setWidth, h] using this
    · have := congrArg (BitVec.getLsbD · (j - 32)) hhigh
      have hsub : 32 + (j - 32) = j := by omega
      simpa [BitVec.getLsbD_setWidth, BitVec.getLsbD_ushiftRight, hsub, show j - 32 < 32 by omega] using this

/-- Words extended with zeros are words extended with their signs where neither is negative. -/
theorem words_eq_iff {a r : BitVec 64} : Arith.lowWordU a = Arith.lowWord r ∧ Arith.highWordU a = Arith.highWord r ↔ a =
    r ∧ r.getLsbD 31 = false ∧ r.getLsbD 63 = false := by
  have hlow : (r.setWidth 32).msb = r.getLsbD 31 := BitVec.msb_setWidth _
  have hhigh : ((r >>> 32).setWidth 32).msb = r.getLsbD 63 := by
    rw [BitVec.msb_setWidth, BitVec.getLsbD_ushiftRight]
    rfl
  rw [Arith.lowWordU, Arith.lowWord, Arith.highWordU, Arith.highWord, setWidth_eq_signExtend_iff,
    setWidth_eq_signExtend_iff, hlow, hhigh, eq_iff_words]
  constructor
  · rintro ⟨⟨h1, h2⟩, h3, h4⟩
    exact ⟨⟨h1, h3⟩, h2, h4⟩
  · rintro ⟨⟨h1, h3⟩, h2, h4⟩
    exact ⟨⟨h1, h2⟩, h3, h4⟩

theorem ps2HiLoToU64_words (r : BitVec 64) : Arith.ps2HiLoToU64 (Arith.highWord r) (Arith.lowWord r) = r := by
  have hmask : ∀ (x : Word) (k : ℕ), (x.signExtend 64 &&& 0xFFFFFFFF).getLsbD k = x.getLsbD k := by
    intro x k
    rw [show (0xFFFFFFFF : BitVec 64) = (BitVec.allOnes 32).setWidth 64 from rfl, BitVec.getLsbD_and,
      BitVec.getLsbD_setWidth, BitVec.getLsbD_allOnes, BitVec.getLsbD_signExtend]
    by_cases hk : k < 32
    · simp [hk, show k < 64 by omega]
    · simp [hk, BitVec.getLsbD_of_ge x k (by omega)]
  apply BitVec.eq_of_getLsbD_eq
  intro j hj
  rw [Arith.ps2HiLoToU64, Arith.highWord, Arith.lowWord, BitVec.getLsbD_or, BitVec.getLsbD_shiftLeft,
    hmask, hmask, BitVec.getLsbD_setWidth, BitVec.getLsbD_setWidth, BitVec.getLsbD_ushiftRight]
  by_cases h : j < 32
  · simp [h, hj]
  · have hsub : 32 + (j - 32) = j := by omega
    simp [h, hj, hsub, show j - 32 < 32 by omega]

theorem lane_append (a b : BitVec 64) : lane 32 0 (a ++ b) = b.setWidth 32 ∧ lane 32 1 (a ++ b) =
    (b >>> 32).setWidth 32 ∧ lane 32 2 (a ++ b) = a.setWidth 32 ∧ lane 32 3 (a ++ b) = (a >>> 32).setWidth 32 := by
  refine ⟨?_, ?_, ?_, ?_⟩ <;> apply BitVec.eq_of_getLsbD_eq <;> intro j hj <;>
    rw [getLsbD_lane hj, BitVec.getLsbD_append, BitVec.getLsbD_setWidth, decide_eq_true hj, Bool.true_and]
  · rw [if_pos (by omega)]
    congr 1
    omega
  · rw [if_pos (by omega), BitVec.getLsbD_ushiftRight]
  · rw [if_neg (by omega)]
    congr 1
    omega
  · rw [if_neg (by omega), BitVec.getLsbD_ushiftRight]
    congr 1
    omega

/-- The low words of two halves, each half's one place further up. -/
theorem set_eq_append_iff {a b : BitVec 64} :
    mmSet 32 [0, a.setWidth 32, a.setWidth 32, b.setWidth 32] = a ++ b ↔ a = b >>> 32 := by
  obtain ⟨h0, h1, h2, h3⟩ := lane_append a b
  have hset : ∀ i < 4, lane 32 i (mmSet 32 [0, a.setWidth 32, a.setWidth 32, b.setWidth 32]) =
      [b.setWidth 32, a.setWidth 32, a.setWidth 32, 0].getD i 0 := by
    intro i hi
    exact lane_setr (by omega)
  have hup : ((b >>> 32) >>> 32).setWidth 32 = (0 : Word) := by
    rw [← BitVec.shiftRight_add, BitVec.ushiftRight_eq_zero (by decide)]
    rfl
  rw [eq_iff_words, hup]
  constructor
  · intro heq
    refine ⟨?_, ?_⟩
    · rw [← h1, ← heq, hset 1 (by decide)]
      rfl
    · rw [← h3, ← heq, hset 3 (by decide)]
      rfl
  · rintro ⟨hlow, hhigh⟩
    apply ext_lanes (w := 32) (by decide)
    intro i hi
    have hi4 : i < 4 := by omega
    rw [hset i hi4]
    interval_cases i
    · exact h0.symm
    · exact hlow.trans h1.symm
    · exact h2.symm
    · exact (h3.trans hhigh).symm

/-! ## What a multiplication leaves -/

theorem hilo_leaveProduct {set : GuestCtx → BitVec 64 → BitVec 64 → GuestCtx} (r : BitVec 64) :
    (Arith.leaveProduct inst set r c).hilo = (set c (Arith.lowWord r) (Arith.highWord r)).hilo := by
  rw [Arith.leaveProduct]
  split
  · exact Ctx.hilo_setGprU64 _ _ _
  · rfl

theorem gprVec_setGprU64 {g : Reg} {v : BitVec 64} (h : g ≠ 0) :
    (c.setGprU64 g v).gprVec g = (c.r g).extractLsb' 64 64 ++ v := by
  rw [Ctx.setGprU64, if_neg h, Ctx.gprVec, if_neg h]
  exact Function.update_self _ _ _

theorem gprVec_setGprVec {g : Reg} {v : M128} (h : g ≠ 0) : (c.setGprVec g v).gprVec g = v := by
  rw [Ctx.setGprVec, if_neg h, Ctx.gprVec, if_neg h]
  exact Function.update_self _ _ _

/-- Added to an accumulator, or subtracted from it. -/
def combine (subtract : Bool) (acc p : BitVec 64) : BitVec 64 := if subtract then acc - p else acc + p

theorem combine_inj {subtract : Bool} {acc p q : BitVec 64} :
    combine subtract acc p = combine subtract acc q ↔ p = q := by
  cases subtract with
  | false => exact add_right_inj acc
  | true => exact sub_right_inj

theorem combine_combine (subtract : Bool) (acc p q : BitVec 64) :
    combine subtract (combine subtract acc p) q = combine subtract acc (p + q) := by
  cases subtract with
  | false => exact add_assoc acc p q
  | true => exact sub_sub acc p q

/-- The products of the words 0 and of the words 2. -/
def product0 (signed : Bool) (inst : Instruction) (c : GuestCtx) : BitVec 64 :=
  wordMul signed (lane 32 0 (c.gprVec inst.rs)) (lane 32 0 (c.gprVec inst.rt))

def product2 (signed : Bool) (inst : Instruction) (c : GuestCtx) : BitVec 64 :=
  wordMul signed (lane 32 2 (c.gprVec inst.rs)) (lane 32 2 (c.gprVec inst.rt))

/-- The products of the words 2 are taken twice. -/
theorem accumulateWords_eq (inst : Instruction) (subtract : Bool) (init : HiLo → BitVec 64) (c : GuestCtx) :
    accumulateWords inst subtract init c =
      some (Arith.leaveSum inst (combine subtract (init c.hilo)
        (product0 false inst c + (product2 false inst c + product2 false inst c))) c) := by
  obtain ⟨h0, h1, h2, h3⟩ := wordProduct_eq inst c
  have hfold : (List.range 4).foldl
      (fun acc k => if subtract then acc - wordProduct inst c k else acc + wordProduct inst c k) (init c.hilo) =
      combine subtract (combine subtract (combine subtract (combine subtract (init c.hilo)
        (wordProduct inst c 0)) (wordProduct inst c 1)) (wordProduct inst c 2)) (wordProduct inst c 3) := rfl
  rw [accumulateWords, hfold, combine_combine, combine_combine, combine_combine, h0, h1, h2, h3, add_zero]
  rfl

/-- The instructions that multiply the words 0 and 2. -/
inductive Multiplication
  | pmultw | pmultuw | pmaddw | pmadduw | pmsubw
  deriving DecidableEq, Repr

namespace Multiplication

def signed : Multiplication → Bool
  | pmultuw | pmadduw => false
  | pmultw | pmaddw | pmsubw => true

def subtracts : Multiplication → Bool
  | pmsubw => true
  | pmultw | pmultuw | pmaddw | pmadduw => false

/-- What the product is added to, given the accumulator. -/
def base (acc : HiLo → BitVec 64) : Multiplication → HiLo → BitVec 64
  | pmultw | pmultuw => fun _ => 0
  | pmaddw | pmadduw | pmsubw => acc

def function : Multiplication → BitVec 6
  | pmultw | pmaddw | pmsubw => Arith.mmiMmi2
  | pmultuw | pmadduw => Arith.mmiMmi3

def subfunc : Multiplication → Reg
  | pmultw | pmultuw => 0x0C
  | pmaddw | pmadduw => 0x00
  | pmsubw => 0x04

def Encodes (op : Multiplication) (inst : Instruction) : Prop :=
  inst.opcode = .mmi ∧ inst.function = op.function ∧ inst.sa = op.subfunc

def statement : Multiplication → Instruction → Emitted
  | pmultw => translatePMULTW
  | pmultuw => translatePMULTUW
  | pmaddw => translatePMADDW
  | pmadduw => translatePMADDUW
  | pmsubw => translatePMSUBW

/-- A scalar multiplication, on the pair of registers that `acc` reads and `set` writes. -/
def scalarOn (acc : HiLo → BitVec 64) (set : GuestCtx → BitVec 64 → BitVec 64 → GuestCtx) :
    Multiplication → Instruction → Emitted
  | pmultw => fun inst => Arith.multiply inst true set
  | pmultuw => fun inst => Arith.multiply inst false set
  | pmaddw => fun inst => Arith.accumulate inst true false acc set
  | pmadduw => fun inst => Arith.accumulate inst false false acc set
  | pmsubw => fun inst => Arith.accumulate inst true true acc set

/-- The scalar instruction, on HI and LO. -/
def scalar : Multiplication → Instruction → Emitted
  | pmultw => Arith.mult
  | pmultuw => Arith.multu
  | pmaddw => Arith.madd
  | pmadduw => Arith.maddu
  | pmsubw => Arith.msub

/-- Its counterpart on HI1 and LO1. There is none of `MSUB`: it is `MSUB` with the other pair. -/
def scalar1 : Multiplication → Instruction → Emitted
  | pmultw => Arith.mult1
  | pmultuw => Arith.multu1
  | pmaddw => Arith.madd1
  | pmadduw => Arith.maddu1
  | pmsubw => scalarOn Arith.acc1 Ctx.setLo1Hi1 pmsubw

/-- HI and LO are what the scalar instruction leaves for the words 0, HI1 and LO1 what its counterpart
leaves for the words 2, and the destination holds both results in 64 bits. -/
def Agrees (op : Multiplication) (inst : Instruction) (c : GuestCtx) : Prop :=
  ∃ c' d e, op.statement inst c = some c' ∧ op.scalar inst c = some d ∧
    op.scalar1 inst (upper c) = some e ∧
    c'.hilo = { hi := d.hilo.hi, lo := d.hilo.lo, hi1 := e.hilo.hi1, lo1 := e.hilo.lo1 } ∧
    (inst.rd ≠ 0 → c'.gprVec inst.rd = Arith.acc1 e.hilo ++ Arith.acc0 d.hilo)

/-- The results for the words 0 and for the words 2. -/
def first (op : Multiplication) (inst : Instruction) (c : GuestCtx) : BitVec 64 :=
  combine op.subtracts (op.base Arith.acc0 c.hilo) (product0 op.signed inst c)

def second (op : Multiplication) (inst : Instruction) (c : GuestCtx) : BitVec 64 :=
  combine op.subtracts (op.base Arith.acc1 c.hilo) (product2 op.signed inst c)

/-- Neither word of the first result is negative, HI1 and LO1 hold the second already, and the
destination gets both. -/
structure Meets (op : Multiplication) (inst : Instruction) (c : GuestCtx) : Prop where
  low : (op.first inst c).getLsbD 31 = false
  high : (op.first inst c).getLsbD 63 = false
  lo1 : c.hilo.lo1 = Arith.lowWord (op.second inst c)
  hi1 : c.hilo.hi1 = Arith.highWord (op.second inst c)
  products : op ≠ pmultuw →
    product0 false inst c + (product2 false inst c + product2 false inst c) = product0 op.signed inst c
  destination : inst.rd ≠ 0 →
    if op = pmultuw then product2 false inst c = product0 false inst c >>> 32
    else (c.r inst.rd).extractLsb' 64 64 = op.second inst c

theorem scalarOn_eq (op : Multiplication) {acc : HiLo → BitVec 64} {set : GuestCtx → BitVec 64 → BitVec 64 → GuestCtx}
    {p : Bool → BitVec 64} (hp : ∀ signed, Arith.product inst signed c = some (p signed)) :
    op.scalarOn acc set inst c =
      some (Arith.leaveProduct inst set (combine op.subtracts (op.base acc c.hilo) (p op.signed)) c) := by
  have hmult : ∀ signed, Arith.multiply inst signed set c =
      some (Arith.leaveProduct inst set (combine false 0 (p signed)) c) := by
    intro signed
    rw [Arith.multiply, hp, combine, if_neg Bool.false_ne_true, zero_add]
    rfl
  have hacc : ∀ signed subtract, Arith.accumulate inst signed subtract acc set c =
      some (Arith.leaveProduct inst set (combine subtract (acc c.hilo) (p signed)) c) := by
    intro signed subtract
    rw [Arith.accumulate, hp]
    rfl
  cases op with
  | pmultw => exact hmult true
  | pmultuw => exact hmult false
  | pmaddw => exact hacc true false
  | pmadduw => exact hacc false false
  | pmsubw => exact hacc true true

section

variable (op : Multiplication) (inst : Instruction) (c : GuestCtx)

theorem scalar_eq : op.scalar inst c = some (Arith.leaveProduct inst Ctx.setLoHi (op.first inst c) c) := by
  have heq : op.scalar = op.scalarOn Arith.acc0 Ctx.setLoHi := by cases op <;> rfl
  have hprod : ∀ signed, Arith.product inst signed c = some (product0 signed inst c) := by
    intro signed
    rw [product_eq, gprU32_lane, gprU32_lane, product0]
  rw [heq, scalarOn_eq op hprod, first]

theorem scalar1_eq :
    op.scalar1 inst (upper c) = some (Arith.leaveProduct inst Ctx.setLo1Hi1 (op.second inst c) (upper c)) := by
  have heq : op.scalar1 = op.scalarOn Arith.acc1 Ctx.setLo1Hi1 := by cases op <;> rfl
  have hprod : ∀ signed, Arith.product inst signed (upper c) = some (product2 signed inst c) := by
    intro signed
    rw [product_eq, gprU32_upper, gprU32_upper, product2]
  rw [heq, scalarOn_eq op hprod, second, hilo_upper]

end

variable {op : Multiplication}

theorem agrees_iff_of {c' : GuestCtx} (h : op.statement inst c = some c') :
    op.Agrees inst c ↔
      c'.hilo = ⟨Arith.highWord (op.first inst c), Arith.lowWord (op.first inst c),
        Arith.highWord (op.second inst c), Arith.lowWord (op.second inst c)⟩ ∧
      (inst.rd ≠ 0 → c'.gprVec inst.rd = op.second inst c ++ op.first inst c) := by
  have hd : (Arith.leaveProduct inst Ctx.setLoHi (op.first inst c) c).hilo =
      { c.hilo with lo := Arith.lowWord (op.first inst c), hi := Arith.highWord (op.first inst c) } :=
    hilo_leaveProduct _
  have he : (Arith.leaveProduct inst Ctx.setLo1Hi1 (op.second inst c) (upper c)).hilo =
      { c.hilo with lo1 := Arith.lowWord (op.second inst c), hi1 := Arith.highWord (op.second inst c) } :=
    hilo_leaveProduct _
  have hacc0 : Arith.acc0 (Arith.leaveProduct inst Ctx.setLoHi (op.first inst c) c).hilo = op.first inst c := by
    rw [hd]
    exact ps2HiLoToU64_words _
  have hacc1 : Arith.acc1 (Arith.leaveProduct inst Ctx.setLo1Hi1 (op.second inst c) (upper c)).hilo =
      op.second inst c := by
    rw [he]
    exact ps2HiLoToU64_words _
  constructor
  · rintro ⟨_, _, _, hc', hd', he', hhilo, hrd⟩
    rw [h] at hc'
    rw [scalar_eq] at hd'
    rw [scalar1_eq] at he'
    cases hc'
    cases hd'
    cases he'
    rw [hacc0, hacc1] at hrd
    rw [hd, he] at hhilo
    exact ⟨hhilo, hrd⟩
  · rintro ⟨hhilo, hrd⟩
    refine ⟨_, _, _, h, scalar_eq op inst c, scalar1_eq op inst c, ?_, ?_⟩
    · rw [hd, he, hhilo]
    · rw [hacc0, hacc1]
      exact hrd

theorem hilo_eq_iff {v : HiLo} {a r r' : BitVec 64} :
    ({ v with hi := Arith.highWordU a, lo := Arith.lowWordU a } : HiLo) =
        ⟨Arith.highWord r, Arith.lowWord r, Arith.highWord r', Arith.lowWord r'⟩ ↔
      (a = r ∧ r.getLsbD 31 = false ∧ r.getLsbD 63 = false) ∧ v.lo1 = Arith.lowWord r' ∧ v.hi1 = Arith.highWord r' := by
  rw [HiLo.mk.injEq, ← words_eq_iff]
  constructor
  · rintro ⟨hhi, hlo, hhi1, hlo1⟩
    exact ⟨⟨hlo, hhi⟩, hlo1, hhi1⟩
  · rintro ⟨⟨hlo, hhi⟩, hlo1, hhi1⟩
    exact ⟨hhi, hlo, hhi1, hlo1⟩

theorem statement_eq (h : op ≠ pmultuw) (inst : Instruction) (c : GuestCtx) :
    op.statement inst c = some (Arith.leaveSum inst (combine op.subtracts (op.base Arith.acc0 c.hilo)
      (product0 false inst c + (product2 false inst c + product2 false inst c))) c) := by
  have hstatement : op.statement inst = accumulateWords inst op.subtracts (op.base Arith.acc0) := by
    cases op with
    | pmultuw => exact absurd rfl h
    | pmultw => rfl
    | pmaddw => rfl
    | pmadduw => rfl
    | pmsubw => rfl
  rw [hstatement, accumulateWords_eq]

theorem agrees_iff_of_sum (h : op ≠ pmultuw) : op.Agrees inst c ↔ op.Meets inst c := by
  have hvec : inst.rd ≠ 0 → ∀ a : BitVec 64, (Arith.leaveSum inst a c).gprVec inst.rd =
      (c.r inst.rd).extractLsb' 64 64 ++ a := fun hrd a => gprVec_setGprU64 hrd
  have hhilo : ∀ a : BitVec 64, (Arith.leaveSum inst a c).hilo =
      { c.hilo with hi := Arith.highWordU a, lo := Arith.lowWordU a } := fun a => Ctx.hilo_setGprU64 _ _ _
  rw [agrees_iff_of (statement_eq h inst c), hhilo, hilo_eq_iff]
  constructor
  · rintro ⟨⟨⟨hsum, hlow, hhigh⟩, hlo1, hhi1⟩, hrd⟩
    refine ⟨hlow, hhigh, hlo1, hhi1, fun _ => combine_inj.1 hsum, fun h0 => ?_⟩
    rw [if_neg h]
    have hrd' := hrd h0
    rw [hvec h0, hsum] at hrd'
    exact (BitVec.append_left_inj _).1 hrd'
  · intro hm
    have hsum := congrArg (combine op.subtracts (op.base Arith.acc0 c.hilo)) (hm.products h)
    refine ⟨⟨⟨hsum, hm.low, hm.high⟩, hm.lo1, hm.hi1⟩, fun h0 => ?_⟩
    have hdest := hm.destination h0
    rw [if_neg h] at hdest
    rw [hvec h0, hdest, hsum]
    rfl

/-- What `PMULTUW` leaves. -/
def leaveWords (inst : Instruction) (c : GuestCtx) : GuestCtx :=
  (c.setLoHi (Arith.lowWordU (wordProduct inst c 0)) (Arith.highWordU (wordProduct inst c 0))).setGprVec inst.rd
    (mmSet 32 [(wordProduct inst c 3).setWidth 32, (wordProduct inst c 2).setWidth 32,
      (wordProduct inst c 1).setWidth 32, (wordProduct inst c 0).setWidth 32])

theorem pmultuw_agrees_iff : pmultuw.Agrees inst c ↔ pmultuw.Meets inst c := by
  obtain ⟨h0, h1, h2, h3⟩ := wordProduct_eq inst c
  have hfirst : pmultuw.first inst c = product0 false inst c := zero_add _
  have hsecond : pmultuw.second inst c = product2 false inst c := zero_add _
  have hw0 : wordProduct inst c 0 = pmultuw.first inst c := h0.trans hfirst.symm
  have hw1 : wordProduct inst c 1 = pmultuw.second inst c := h1.trans hsecond.symm
  have hw2 : wordProduct inst c 2 = pmultuw.second inst c := h2.trans hsecond.symm
  have hstatement : pmultuw.statement inst c = some (leaveWords inst c) := rfl
  have hvec : inst.rd ≠ 0 → (leaveWords inst c).gprVec inst.rd =
      mmSet 32 [0, (pmultuw.second inst c).setWidth 32, (pmultuw.second inst c).setWidth 32,
        (pmultuw.first inst c).setWidth 32] := by
    intro hrd
    rw [leaveWords, gprVec_setGprVec hrd, h3, hw2, hw1, hw0]
    rfl
  have hhilo : (leaveWords inst c).hilo =
      { c.hilo with hi := Arith.highWordU (pmultuw.first inst c), lo := Arith.lowWordU (pmultuw.first inst c) } := by
    rw [leaveWords, Ctx.hilo_setGprVec, hw0]
    rfl
  rw [agrees_iff_of hstatement, hhilo, hilo_eq_iff]
  constructor
  · rintro ⟨⟨⟨-, hlow, hhigh⟩, hlo1, hhi1⟩, hrd⟩
    refine ⟨hlow, hhigh, hlo1, hhi1, fun h => absurd rfl h, fun h => ?_⟩
    have hrd' := hrd h
    rw [hvec h, set_eq_append_iff, hsecond, hfirst] at hrd'
    exact hrd'
  · intro hm
    refine ⟨⟨⟨rfl, hm.low, hm.high⟩, hm.lo1, hm.hi1⟩, fun h => ?_⟩
    rw [hvec h, set_eq_append_iff, hsecond, hfirst]
    exact hm.destination h

theorem agrees_iff (op : Multiplication) : op.Agrees inst c ↔ op.Meets inst c := by
  by_cases h : op = pmultuw
  · rw [h]
    exact pmultuw_agrees_iff
  · exact agrees_iff_of_sum h

end Multiplication

/-! ## Variable shifts -/

inductive VariableShift
  | psllvw | psrlvw | psravw
  deriving DecidableEq, Repr

namespace VariableShift

def word : VariableShift → Word → Word → Word
  | psllvw => sll32
  | psrlvw => srl32
  | psravw => sra32

def function : VariableShift → BitVec 6
  | psllvw | psrlvw => Arith.mmiMmi2
  | psravw => Arith.mmiMmi3

def subfunc : VariableShift → Reg
  | psllvw => 0x02
  | psrlvw | psravw => 0x03

def Encodes (op : VariableShift) (inst : Instruction) : Prop :=
  inst.opcode = .mmi ∧ inst.function = op.function ∧ inst.sa = op.subfunc

def statement : VariableShift → Instruction → Emitted
  | psllvw => Packed.psllvw
  | psrlvw => Packed.psrlvw
  | psravw => Packed.psravw

/-- The scalar instruction. -/
def scalar : VariableShift → Instruction → Emitted
  | psllvw => sllv
  | psrlvw => srlv
  | psravw => srav

/-- Each half of the destination is what the scalar instruction writes for the half's low words. -/
def Agrees (op : VariableShift) (inst : Instruction) (c : GuestCtx) : Prop :=
  ∃ c' d e, op.statement inst c = some c' ∧ op.scalar inst c = some d ∧ op.scalar inst (upper c) = some e ∧
    lane 64 0 (c'.gprVec inst.rd) = d.gprU64 inst.rd ∧ lane 64 1 (c'.gprVec inst.rd) = e.gprU64 inst.rd

/-- The values and amounts of word `k` may be exchanged, and those of the word above give its sign. -/
def Symmetric (op : VariableShift) (inst : Instruction) (c : GuestCtx) (k : ℕ) : Prop :=
  let rs := fun i => lane 32 i (c.gprVec inst.rs)
  let rt := fun i => lane 32 i (c.gprVec inst.rt)
  op.word (rs k) (rt k) = op.word (rt k) (rs k) ∧
    op.word (rs (k + 1)) (rt (k + 1)) = if (op.word (rt k) (rs k)).msb then BitVec.allOnes 32 else 0

def Meets (op : VariableShift) (inst : Instruction) (c : GuestCtx) : Prop :=
  inst.rd ≠ 0 → op.Symmetric inst c 0 ∧ op.Symmetric inst c 2

theorem signExtend_eq_append_iff {h l x : Word} :
    (h ++ l : BitVec 64) = x.signExtend 64 ↔ l = x ∧ h = if x.msb then BitVec.allOnes 32 else 0 := by
  have hext : x.signExtend 64 = (if x.msb then BitVec.allOnes 32 else 0) ++ x := by
    apply BitVec.eq_of_getLsbD_eq
    intro j hj
    rw [BitVec.getLsbD_signExtend, BitVec.getLsbD_append, decide_eq_true hj, Bool.true_and]
    by_cases hj32 : j < 32
    · rw [if_pos hj32, if_pos hj32]
    · rw [if_neg hj32, if_neg hj32]
      cases x.msb with
      | false => exact BitVec.getLsbD_zero.symm
      | true => exact (BitVec.getLsbD_allOnes.trans (decide_eq_true (by omega))).symm
  rw [hext]
  constructor
  · intro heq
    have hlow := congrArg (BitVec.setWidth 32) heq
    rw [BitVec.setWidth_append_eq_right, BitVec.setWidth_append_eq_right] at hlow
    rw [hlow] at heq
    exact ⟨hlow, (BitVec.append_left_inj _).1 heq⟩
  · rintro ⟨rfl, rfl⟩
    rfl

/-- A half of the destination, and what the scalar instruction has for it. -/
theorem half_eq_iff (op : VariableShift) (rs rt : M128) {k : ℕ} (hk : k < 2) :
    lane 64 k (mmCustomShift op.word rs rt) = (op.word (lane 32 (2 * k) rt) (lane 32 (2 * k) rs)).signExtend 64 ↔
      op.word (lane 32 (2 * k) rs) (lane 32 (2 * k) rt) = op.word (lane 32 (2 * k) rt) (lane 32 (2 * k) rs) ∧
        op.word (lane 32 (2 * k + 1) rs) (lane 32 (2 * k + 1) rt) =
          if (op.word (lane 32 (2 * k) rt) (lane 32 (2 * k) rs)).msb then BitVec.allOnes 32 else 0 := by
  have hhalf : lane 64 k (mmCustomShift op.word rs rt) =
      op.word (lane 32 (2 * k + 1) rs) (lane 32 (2 * k + 1) rt) ++
        op.word (lane 32 (2 * k) rs) (lane 32 (2 * k) rt) := by
    refine (lane_double (w := 32)).trans ?_
    rw [mmCustomShift, lane_map2 _ (by omega), lane_map2 _ (by omega)]
  rw [hhalf]
  exact signExtend_eq_append_iff

theorem agrees_iff (op : VariableShift) : op.Agrees inst c ↔ op.Meets inst c := by
  have hstatement : op.statement inst c =
      some (c.setGprVec inst.rd (mmCustomShift op.word (c.gprVec inst.rs) (c.gprVec inst.rt))) := by
    cases op <;> rfl
  have hscalar : ∀ c', op.scalar inst c' =
      some (c'.setGprS32 inst.rd (op.word (c'.gprU32 inst.rt) (c'.gprU32 inst.rs))) := by
    intro c'
    cases op <;> rfl
  have hlow : ∀ (c' : GuestCtx) (v : Word), inst.rd ≠ 0 → (Ctx.setGprS32 c' inst.rd v).gprU64 inst.rd = v.signExtend 64 := by
    intro c' v h
    rw [Ctx.setGprS32, Ctx.gprU64_setGprU64, if_pos ⟨rfl, h⟩]
  have h0 := half_eq_iff op (c.gprVec inst.rs) (c.gprVec inst.rt) (k := 0) (by decide)
  have h2 := half_eq_iff op (c.gprVec inst.rs) (c.gprVec inst.rt) (k := 1) (by decide)
  constructor
  · rintro ⟨_, _, _, hc', hd, he, hlane0, hlane1⟩ hrd
    rw [hstatement] at hc'
    rw [hscalar] at hd he
    cases hc'
    cases hd
    cases he
    rw [gprVec_setGprVec hrd, hlow _ _ hrd, gprU32_lane, gprU32_lane] at hlane0
    rw [gprVec_setGprVec hrd, hlow _ _ hrd, gprU32_upper, gprU32_upper] at hlane1
    exact ⟨h0.1 hlane0, h2.1 hlane1⟩
  · intro hm
    refine ⟨_, _, _, hstatement, hscalar c, hscalar (upper c), ?_⟩
    by_cases hrd : inst.rd = 0
    · have hvec : ∀ c' : GuestCtx, c'.gprVec inst.rd = 0 := fun c' => if_pos hrd
      have hword : ∀ c' : GuestCtx, c'.gprU64 inst.rd = 0 := fun c' => if_pos hrd
      rw [hvec, hword, hword]
      exact ⟨rfl, rfl⟩
    · rw [gprVec_setGprVec hrd, hlow _ _ hrd, hlow _ _ hrd, gprU32_lane, gprU32_lane, gprU32_upper, gprU32_upper]
      exact ⟨h0.2 (hm hrd).1, h2.2 (hm hrd).2⟩

end VariableShift

/-! ## All of them -/

inductive WordOp
  | multiplication (op : Multiplication)
  | shift (op : VariableShift)
  deriving DecidableEq, Repr

namespace WordOp

def Encodes : WordOp → Instruction → Prop
  | multiplication op => op.Encodes
  | shift op => op.Encodes

def statement : WordOp → Instruction → Emitted
  | multiplication op => op.statement
  | shift op => op.statement

def Agrees : WordOp → Instruction → GuestCtx → Prop
  | multiplication op => op.Agrees
  | shift op => op.Agrees

def Meets : WordOp → Instruction → GuestCtx → Prop
  | multiplication op => op.Meets
  | shift op => op.Meets

theorem agrees_iff (op : WordOp) : op.Agrees inst c ↔ op.Meets inst c := by
  cases op with
  | multiplication op => exact op.agrees_iff
  | shift op => exact op.agrees_iff

theorem translate_eq (sse41 : Bool) (op : WordOp) (h : op.Encodes inst) :
    translate sse41 inst = some (op.statement inst) := by
  cases op with
  | multiplication op =>
    obtain ⟨hop, hfun, hsa⟩ := h
    rw [translate, hop]
    dsimp only
    rw [translateMmi, hfun, translateMMI2Instruction, translateMMI3Instruction, hsa]
    cases op <;> rfl
  | shift op =>
    obtain ⟨hop, hfun, hsa⟩ := h
    rw [translate, hop]
    dsimp only
    rw [translateMmi, hfun, translateMMI2Instruction, translateMMI3Instruction, hsa]
    cases op <;> rfl

end WordOp

/-- **A packed word instruction** is emitted as its template, which does with the words 0 and 2 what the
scalar instruction does if and only if the registers satisfy `Meets`: for a multiplication, that the
products of the words 2, taken twice and unsigned, do not show in HI and LO, that no word of the result
is negative, and that HI1, LO1 and the destination have the second result already; for a shift, that
value and amount may be exchanged and the odd words give the signs. -/
theorem wordOp_agrees_iff (sse41 : Bool) (op : WordOp) (inst : Instruction) (h : op.Encodes inst) :
    translate sse41 inst = some (op.statement inst) ∧ ∀ c : GuestCtx, op.Agrees inst c ↔ op.Meets inst c :=
  ⟨WordOp.translate_eq sse41 op h, fun _ => op.agrees_iff⟩

/-- `pmultw $3, $4, $5` -/
def pmultwInst : Instruction :=
  { opcode := .mmi, function := Arith.mmiMmi2, rs := 4, rt := 5, rd := 3, sa := 0x0C }

/-- Words 0 and 2 of registers 4 and 5 are `x` and `y`, and the registers of the multiplier hold zero. -/
def evenWords (x y : Word) : GuestCtx :=
  Ctx.ofRegisters (fun g => if g = 4 ∨ g = 5 then mmSetr 32 [x, 0, y, 0] else 0) {}

/-- Three times three in the words 0, and zeros in the words 2. -/
theorem pmultw_three_agrees : (WordOp.multiplication .pmultw).Agrees pmultwInst (evenWords 3 0) := by
  refine ((wordOp_agrees_iff true (.multiplication .pmultw) pmultwInst ⟨rfl, rfl, rfl⟩).2 _).2 ?_
  exact ⟨by decide +kernel, by decide +kernel, by decide +kernel, by decide +kernel,
    fun _ => by decide +kernel, fun _ => by decide +kernel⟩

/-- **One times one, twice**: LO is 3, and LO1 keeps its zero. -/
theorem pmultw_ones_disagree :
    translate true pmultwInst = some (translatePMULTW pmultwInst) ∧
      (translatePMULTW pmultwInst (evenWords 1 1)).map Ctx.hilo = some ⟨0, 3, 0, 0⟩ ∧
      (Arith.mult pmultwInst (evenWords 1 1)).map Ctx.hilo = some ⟨0, 1, 0, 0⟩ ∧
      ¬ (WordOp.multiplication .pmultw).Agrees pmultwInst (evenWords 1 1) := by
  refine ⟨WordOp.translate_eq true (.multiplication .pmultw) ⟨rfl, rfl, rfl⟩, by decide +kernel, by decide +kernel, ?_⟩
  rw [WordOp.agrees_iff]
  intro hm
  exact absurd hm.lo1 (by decide +kernel)

end Ps2Recomp.Packed
