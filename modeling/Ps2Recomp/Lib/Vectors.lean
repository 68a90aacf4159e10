import Mathlib.Algebra.Order.Group.Unbundled.Int
import Mathlib.Data.Fintype.Basic
import Mathlib.Tactic.FinCases
import Ps2Recomp.Lib.Bytes

/-!
# Vectors of four floats

Registers of four lanes, and the instructions that move, select and compare their lanes. A lane is
the bit pattern of a single precision float: its sign is its first bit, and apart from the NaNs the
patterns are ordered as the numbers `value` that they spell with a sign and a magnitude.

* `shufflePs_self`: a shuffle of one lane broadcasts it.
* `blendvPs_setEpi32`: a blend under a mask of four conditions takes each lane by its condition.
* `castSi128_load`, `store_castPs`: a register that is loaded and stored is a quadword of the memory.
* `value_negated`, `value_magnitude`: the sign bit, flipped and cleared.
-/

namespace Vectors

/-- A register. -/
abbrev Vec := Bytes.Quad

/-! ### Lanes -/

/-- `_mm_set1_ps`. -/
def set1Ps (x : BitVec 32) : Vec := fun _ => x

/-- `_mm_set_epi32`, which names the last lane first. -/
def setEpi32 (e3 e2 e1 e0 : BitVec 32) : Vec := ![e0, e1, e2, e3]

/-- `_mm_shuffle_ps` with `_MM_SHUFFLE(d, c, b, a)`. -/
def shufflePs (v w : Vec) (d c b a : Fin 4) : Vec := ![v a, v b, w c, w d]

/-- `_mm_blendv_ps`: the first bit of a lane of the mask selects it from `w`. -/
def blendvPs (v w mask : Vec) : Vec := fun c => if (mask c).msb then w c else v c

/-- `_mm_and_ps`. -/
def andPs (v w : Vec) : Vec := fun c => v c &&& w c

/-- `_mm_xor_ps`. -/
def xorPs (v w : Vec) : Vec := fun c => v c ^^^ w c

/-- The lanes of a comparison. -/
def compared (holds : Fin 4 → Bool) : Vec := fun c => if holds c then -1 else 0

/-- `_mm_movemask_ps`: the first bits of the lanes. -/
def movemaskPs (v : Vec) : BitVec 32 :=
  (BitVec.ofBool (v 3).msb ++ BitVec.ofBool (v 2).msb ++ BitVec.ofBool (v 1).msb ++ BitVec.ofBool (v 0).msb).setWidth 32

/-- `_mm_castsi128_ps` -/
def castSi128 (x : BitVec 128) : Vec := fun c => x.extractLsb' (32 * c) 32

/-- `_mm_castps_si128` -/
def castPs (v : Vec) : BitVec 128 := v 3 ++ v 2 ++ v 1 ++ v 0

variable {v w : Vec}

/-- **A shuffle of one lane** broadcasts it. -/
@[simp] theorem shufflePs_self (v : Vec) (k : Fin 4) : shufflePs v v k k k k = set1Ps (v k) := by
  funext c
  fin_cases c <;> rfl

theorem msb_condition (p : Prop) [Decidable p] : (if p then -1 else 0 : BitVec 32).msb = decide p := by
  split
  · rw [decide_eq_true ‹p›]
    rfl
  · rw [decide_eq_false ‹¬p›]
    rfl

/-- **A blend under four conditions** takes each lane by its own. -/
theorem blendvPs_setEpi32 (p : Fin 4 → Prop) [DecidablePred p] :
    blendvPs v w (setEpi32 (if p 3 then -1 else 0) (if p 2 then -1 else 0) (if p 1 then -1 else 0)
      (if p 0 then -1 else 0)) = fun c => if p c then w c else v c := by
  have hlane (c : Fin 4) : (setEpi32 (if p 3 then -1 else 0) (if p 2 then -1 else 0) (if p 1 then -1 else 0)
      (if p 0 then -1 else 0) c).msb = decide (p c) := by
    fin_cases c <;> exact msb_condition _
  funext c
  rw [blendvPs, hlane]
  simp only [decide_eq_true_eq]

theorem movemaskPs_compared (holds : Fin 4 → Bool) :
    movemaskPs (compared holds) =
      (BitVec.ofBool (holds 3) ++ BitVec.ofBool (holds 2) ++ BitVec.ofBool (holds 1) ++
        BitVec.ofBool (holds 0)).setWidth 32 := by
  have hlane (c : Fin 4) : (compared holds c).msb = holds c := by
    rw [compared, msb_condition, Bool.decide_eq_true]
  rw [movemaskPs, hlane, hlane, hlane, hlane]

/-! ### Quadwords of a memory -/

section Casts

open Bytes

variable {m : Memory} {p k : ℕ}

/-- **A loaded register** has the lanes of the quadword. -/
theorem castSi128_load : castSi128 (.ofNat 128 (load m p 16)) = quad m p := by
  funext c
  have hc := c.isLt
  refine BitVec.eq_of_getLsbD_eq fun i hi => ?_
  have hplace : 8 * p + (32 * c + i) = 8 * (p + 4 * c) + i := by omega
  rw [castSi128, quad, BitVec.getLsbD_extractLsb', BitVec.getLsbD_ofNat, BitVec.getLsbD_ofNat, testBit_load,
    testBit_load, hplace, decide_eq_true hi, decide_eq_true (by omega : 32 * c.val + i < 128)]
  simp only [Bool.true_and]

theorem getLsbD_castPs (hk : k < 128) : (castPs v).getLsbD k = (v (.ofNat 4 (k / 32))).getLsbD (k % 32) := by
  rw [castPs, BitVec.getLsbD_append, BitVec.getLsbD_append, BitVec.getLsbD_append]
  -- Which of the four lanes the bit lies in.
  have hlane : k / 32 = 0 ∨ k / 32 = 1 ∨ k / 32 = 2 ∨ k / 32 = 3 := by omega
  rcases hlane with h | h | h | h
  · rw [if_pos (by omega), h, show k % 32 = k by omega]
    rfl
  · rw [if_neg (by omega), if_pos (by omega), h, show k % 32 = k - 32 by omega]
    rfl
  · rw [if_neg (by omega), if_neg (by omega), if_pos (by omega), h, show k % 32 = k - 32 - 32 by omega]
    rfl
  · rw [if_neg (by omega), if_neg (by omega), if_neg (by omega), h, show k % 32 = k - 32 - 32 - 32 by omega]
    rfl

/-- **A stored register** is a written quadword. -/
theorem store_castPs : store m p (castPs v).toNat 16 = setQuad m p v := by
  funext q
  rw [store, setQuad]
  by_cases hq : p ≤ q ∧ q < p + 16
  · rw [if_pos hq, if_pos hq]
    refine BitVec.eq_of_getLsbD_eq fun i hi => ?_
    have hpow : (256 : ℕ) ^ (q - p) = 2 ^ (8 * (q - p)) := by
      rw [pow_mul]
      rfl
    have hdiv : (i + 8 * (q - p)) / 32 = (q - p) / 4 := by omega
    have hmod : (i + 8 * (q - p)) % 32 = 8 * ((q - p) % 4) + i := by omega
    rw [BitVec.getLsbD_ofNat, hpow, Nat.testBit_div_two_pow, BitVec.testBit_toNat, getLsbD_castPs (by omega), hdiv, hmod,
      BitVec.getLsbD_setWidth, BitVec.getLsbD_ushiftRight]
  · rw [if_neg hq, if_neg hq]

end Casts

/-! ### Floats -/

def signMask : BitVec 32 := 0x80000000

def magnitudeMask : BitVec 32 := 0x7FFFFFFF

/-- The number with the other sign. -/
def negated (x : BitVec 32) : BitVec 32 := x ^^^ signMask

/-- `fabs`: the number without its sign. -/
def magnitude (x : BitVec 32) : BitVec 32 := x &&& magnitudeMask

/-- A magnitude beyond that of infinity. -/
def isNaN (x : BitVec 32) : Bool := 0x7F800000 < (magnitude x).toNat

/-- The place of a float in the order of the floats. -/
def value (x : BitVec 32) : ℤ := if x.msb then -(magnitude x).toNat else (magnitude x).toNat

/-- `==` on floats. -/
def feq (x y : BitVec 32) : Bool := !isNaN x && !isNaN y && value x == value y

variable {x : BitVec 32}

theorem getLsbD_signMask {i : ℕ} (hi : i < 32) : signMask.getLsbD i = decide (i = 31) := by
  revert i
  decide

theorem getLsbD_magnitudeMask {i : ℕ} (hi : i < 32) : magnitudeMask.getLsbD i = decide (i ≠ 31) := by
  revert i
  decide

theorem msb_negated : (negated x).msb = !x.msb := by
  rw [negated, BitVec.msb_xor, show signMask.msb = true from rfl, Bool.xor_true]

theorem msb_magnitude : (magnitude x).msb = false := by
  rw [magnitude, BitVec.msb_and, show magnitudeMask.msb = false from rfl, Bool.and_false]

@[simp] theorem magnitude_negated : magnitude (negated x) = magnitude x := by
  refine BitVec.eq_of_getLsbD_eq fun i hi => ?_
  rw [magnitude, magnitude, negated, BitVec.getLsbD_and, BitVec.getLsbD_and, BitVec.getLsbD_xor,
    getLsbD_signMask hi, getLsbD_magnitudeMask hi]
  by_cases hlast : i = 31 <;> simp [hlast]

@[simp] theorem magnitude_magnitude : magnitude (magnitude x) = magnitude x := by
  rw [magnitude, magnitude, BitVec.and_assoc, BitVec.and_self]

/-- **The other sign.** -/
theorem value_negated : value (negated x) = -value x := by
  rw [value, value, msb_negated, magnitude_negated]
  cases x.msb <;> simp

/-- **No sign.** -/
theorem value_magnitude : value (magnitude x) = |value x| := by
  rw [value, value, msb_magnitude, magnitude_magnitude]
  have hnat : (0 : ℤ) ≤ (magnitude x).toNat := Int.natCast_nonneg _
  cases x.msb with
  | false => simp [abs_of_nonneg hnat]
  | true => simp [abs_of_nonneg hnat]

@[simp] theorem isNaN_negated : isNaN (negated x) = isNaN x := by rw [isNaN, isNaN, magnitude_negated]

@[simp] theorem isNaN_magnitude : isNaN (magnitude x) = isNaN x := by rw [isNaN, isNaN, magnitude_magnitude]

end Vectors
