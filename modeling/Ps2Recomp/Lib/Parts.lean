import Mathlib.Data.BitVec
import Ps2Recomp.Lib.Bytes

/-!
# The bytes of a word

A machine word as its bytes, the low one first. Shifts by whole bytes move them, masks of whole bytes
pick them: what a merge of two words leaves is read off byte by byte, and so is what a word has from
a memory or puts into it.
-/

namespace Parts

/-- Byte `b` of a word. -/
def byte {w : ℕ} (v : BitVec w) (b : ℕ) : BitVec 8 := v.extractLsb' (8 * b) 8

variable {w n b k i : ℕ} {u v : BitVec w}

theorem getLsbD_byte (hi : i < 8) : (byte v b).getLsbD i = v.getLsbD (8 * b + i) := by
  rw [byte, BitVec.getLsbD_extractLsb', decide_eq_true hi, Bool.true_and]

theorem eq_of_bytes (hw : w ≤ 8 * n) (h : ∀ b < n, byte u b = byte v b) : u = v := by
  refine BitVec.eq_of_getLsbD_eq fun i hi => ?_
  have hr : i % 8 < 8 := Nat.mod_lt _ (by decide)
  have hb : (byte u (i / 8)).getLsbD (i % 8) = (byte v (i / 8)).getLsbD (i % 8) := by
    rw [h (i / 8) (by omega)]
  rwa [getLsbD_byte hr, getLsbD_byte hr, Nat.div_add_mod] at hb

/-! ### Words from words -/

theorem byte_or : byte (u ||| v) b = byte u b ||| byte v b := by
  refine BitVec.eq_of_getLsbD_eq fun i hi => ?_
  rw [BitVec.getLsbD_or, getLsbD_byte hi, getLsbD_byte hi, getLsbD_byte hi, BitVec.getLsbD_or]

theorem byte_and : byte (u &&& v) b = byte u b &&& byte v b := by
  refine BitVec.eq_of_getLsbD_eq fun i hi => ?_
  rw [BitVec.getLsbD_and, getLsbD_byte hi, getLsbD_byte hi, getLsbD_byte hi, BitVec.getLsbD_and]

theorem byte_not (hb : 8 * b + 8 ≤ w) : byte (~~~v) b = ~~~byte v b := by
  refine BitVec.eq_of_getLsbD_eq fun i hi => ?_
  rw [BitVec.getLsbD_not, getLsbD_byte hi, getLsbD_byte hi, BitVec.getLsbD_not,
    decide_eq_true (by omega), decide_eq_true hi]

theorem byte_allOnes (hb : 8 * b + 8 ≤ w) : byte (BitVec.allOnes w) b = BitVec.allOnes 8 := by
  refine BitVec.eq_of_getLsbD_eq fun i hi => ?_
  rw [getLsbD_byte hi, BitVec.getLsbD_allOnes, BitVec.getLsbD_allOnes, decide_eq_true (by omega), decide_eq_true hi]

theorem byte_above (hb : w ≤ 8 * b) : byte v b = 0 := by
  refine BitVec.eq_of_getLsbD_eq fun i hi => ?_
  rw [getLsbD_byte hi, BitVec.getLsbD_of_ge _ _ (by omega), BitVec.ofNat_eq_ofNat, BitVec.getLsbD_zero]

theorem byte_zero : byte (0 : BitVec w) b = 0 := by
  refine BitVec.eq_of_getLsbD_eq fun i hi => ?_
  rw [getLsbD_byte hi, BitVec.ofNat_eq_ofNat, BitVec.getLsbD_zero, BitVec.ofNat_eq_ofNat, BitVec.getLsbD_zero]

theorem byte_setWidth {w' : ℕ} (hb : 8 * b + 8 ≤ w') : byte (v.setWidth w') b = byte v b := by
  refine BitVec.eq_of_getLsbD_eq fun i hi => ?_
  rw [getLsbD_byte hi, getLsbD_byte hi, BitVec.getLsbD_setWidth, decide_eq_true (by omega), Bool.true_and]

theorem byte_shiftLeft (hb : 8 * b + 8 ≤ w) : byte (v <<< (k * 8)) b = if b < k then 0 else byte v (b - k) := by
  refine BitVec.eq_of_getLsbD_eq fun i hi => ?_
  rw [getLsbD_byte hi, BitVec.getLsbD_shiftLeft, decide_eq_true (by omega), Bool.true_and]
  split
  · rw [decide_eq_true (by omega), BitVec.ofNat_eq_ofNat, BitVec.getLsbD_zero]
    rfl
  · have hplace : 8 * b + i - k * 8 = 8 * (b - k) + i := by omega
    rw [decide_eq_false (by omega), getLsbD_byte hi, hplace]
    rfl

theorem byte_ushiftRight : byte (v >>> (k * 8)) b = byte v (b + k) := by
  refine BitVec.eq_of_getLsbD_eq fun i hi => ?_
  have hplace : k * 8 + (8 * b + i) = 8 * (b + k) + i := by omega
  rw [getLsbD_byte hi, getLsbD_byte hi, BitVec.getLsbD_ushiftRight, hplace]

theorem byte_lowMask (hk : k * 8 < w) : byte ((1#w <<< (k * 8)) - 1#w) b = if b < k then BitVec.allOnes 8 else 0 := by
  have hpow : 2 ^ (k * 8) < 2 ^ w := Nat.pow_lt_pow_right (by decide) hk
  have hpos : 0 < 2 ^ (k * 8) := Nat.two_pow_pos _
  have hone : 1 < 2 ^ w := Nat.one_lt_two_pow (by omega)
  have hmask : ((1#w <<< (k * 8)) - 1#w).toNat = 2 ^ (k * 8) - 1 := by
    have hshift : (1#w <<< (k * 8)).toNat = 2 ^ (k * 8) := by
      rw [BitVec.toNat_shiftLeft, BitVec.toNat_ofNat, Nat.mod_eq_of_lt hone, Nat.one_shiftLeft, Nat.mod_eq_of_lt hpow]
    have hle : 1#w ≤ 1#w <<< (k * 8) := by
      rw [BitVec.le_def, hshift, BitVec.toNat_ofNat, Nat.mod_eq_of_lt hone]
      exact hpos
    rw [BitVec.toNat_sub_of_le hle, hshift, BitVec.toNat_ofNat, Nat.mod_eq_of_lt hone]
  refine BitVec.eq_of_getLsbD_eq fun i hi => ?_
  rw [getLsbD_byte hi, ← BitVec.testBit_toNat, hmask, Nat.testBit_two_pow_sub_one]
  split
  · rw [decide_eq_true (by omega), BitVec.getLsbD_allOnes, decide_eq_true hi]
  · rw [decide_eq_false (by omega), BitVec.ofNat_eq_ofNat, BitVec.getLsbD_zero]

/-! ### Merged bytes -/

variable (x y : BitVec 8)

theorem merge_new : x &&& ~~~BitVec.allOnes 8 ||| y &&& BitVec.allOnes 8 = y := by
  rw [BitVec.not_allOnes, BitVec.and_zero, BitVec.and_allOnes, BitVec.zero_or]

theorem merge_old : x &&& ~~~(0 : BitVec 8) ||| y &&& 0 = x := by
  rw [BitVec.ofNat_eq_ofNat, BitVec.not_zero, BitVec.and_allOnes, BitVec.and_zero, BitVec.or_zero]

theorem join_new : x &&& 0 ||| y = y := by
  rw [BitVec.ofNat_eq_ofNat, BitVec.and_zero, BitVec.zero_or]

theorem join_old (x : BitVec 8) : x &&& BitVec.allOnes 8 ||| 0 = x := by
  rw [BitVec.and_allOnes, BitVec.ofNat_eq_ofNat, BitVec.or_zero]

/-! ### Words and memories -/

variable {m : Bytes.Memory} {p : ℕ}

theorem byte_ofNat_load (hb : b < n) (hw : 8 * b + 8 ≤ w) : byte (BitVec.ofNat w (Bytes.load m p n)) b = m (p + b) := by
  refine BitVec.eq_of_getLsbD_eq fun i hi => ?_
  have hq : (8 * p + (8 * b + i)) / 8 = p + b := by omega
  have hr : (8 * p + (8 * b + i)) % 8 = i := by omega
  rw [getLsbD_byte hi, BitVec.getLsbD_ofNat, Bytes.testBit_load, Bytes.bit, hq, hr,
    decide_eq_true (by omega), decide_eq_true (by omega), Bool.true_and, Bool.true_and]

theorem store_byte (hb : b < n) : Bytes.store m p v.toNat n (p + b) = byte v b := by
  rw [Bytes.store, if_pos (by omega), Nat.add_sub_cancel_left]
  refine BitVec.eq_of_getLsbD_eq fun i hi => ?_
  have hpow : (256 : ℕ) ^ b = 2 ^ (8 * b) := by
    rw [pow_mul]
    rfl
  rw [getLsbD_byte hi, BitVec.getLsbD_ofNat, decide_eq_true hi, Bool.true_and, hpow,
    Nat.testBit_div_two_pow, BitVec.testBit_toNat, Nat.add_comm]

end Parts
