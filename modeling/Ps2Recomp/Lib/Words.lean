import Mathlib.Data.BitVec

/-!
# Masks

Bit masks on machine words, read as numbers: the low bits are a remainder, and what is left without
them is a multiple.
-/

namespace Masks

variable {w k : ℕ} {x a : BitVec w}

theorem toNat_sub_one (ha : a.toNat = 2 ^ k) : (a - 1).toNat = 2 ^ k - 1 := by
  have hpos : 0 < 2 ^ k := Nat.two_pow_pos k
  have hlt := a.isLt
  have hw : 1 < 2 ^ w ∨ w = 0 := by
    rcases Nat.eq_zero_or_pos w with h | h
    · exact .inr h
    · exact .inl (Nat.one_lt_two_pow (by omega))
  rcases hw with hw | rfl
  · have hone : (1 : BitVec w).toNat = 1 := by simp [Nat.mod_eq_of_lt hw]
    have hle : (1 : BitVec w) ≤ a := by
      rw [BitVec.le_def, hone]
      omega
    rw [BitVec.toNat_sub_of_le hle, hone, ha]
  · have : a.toNat = 0 := by
      have := a.isLt
      omega
    omega

theorem toNat_and_low (ha : a.toNat = 2 ^ k) : (x &&& (a - 1)).toNat = x.toNat % a.toNat := by
  rw [BitVec.toNat_and, toNat_sub_one ha, ha, Nat.and_two_pow_sub_one_eq_mod]

theorem and_add_and_not (m : BitVec w) : (x &&& m).toNat + (x &&& ~~~m).toNat = x.toNat := by
  have hdisj : (x &&& m) &&& (x &&& ~~~m) = 0#w := by
    apply BitVec.eq_of_getLsbD_eq
    intro i hi
    simp only [BitVec.getLsbD_and, BitVec.getLsbD_not, hi, decide_true, Bool.true_and, BitVec.getLsbD_zero]
    cases x.getLsbD i <;> cases m.getLsbD i <;> rfl
  have hor : (x &&& m) ||| (x &&& ~~~m) = x := by
    apply BitVec.eq_of_getLsbD_eq
    intro i hi
    simp only [BitVec.getLsbD_or, BitVec.getLsbD_and, BitVec.getLsbD_not, hi, decide_true, Bool.true_and]
    cases x.getLsbD i <;> cases m.getLsbD i <;> rfl
  rw [← BitVec.toNat_add_of_and_eq_zero hdisj, BitVec.add_eq_or_of_and_eq_zero _ _ hdisj, hor]

/-- **Without the low bits a word is rounded down.** -/
theorem toNat_and_not_low (ha : a.toNat = 2 ^ k) : (x &&& ~~~(a - 1)).toNat = x.toNat - x.toNat % a.toNat := by
  have h := and_add_and_not (x := x) (a - 1)
  rw [toNat_and_low ha] at h
  omega

theorem dvd_and_not_low (ha : a.toNat = 2 ^ k) : a.toNat ∣ (x &&& ~~~(a - 1)).toNat := by
  rw [toNat_and_not_low ha]
  exact Nat.dvd_sub_mod _

end Masks

/-!
# Sign extension

A word and its sign extension to a wider one: the wider word determines the narrow one, and the
operations on the two go together.
-/

namespace SignExtend

variable {w n : ℕ} {x y : BitVec w}

theorem low (h : w ≤ n) (x : BitVec w) : (x.signExtend n).setWidth w = x := by
  refine BitVec.eq_of_getLsbD_eq fun i hi => ?_
  rw [BitVec.getLsbD_setWidth, BitVec.getLsbD_signExtend, decide_eq_true hi, decide_eq_true (by omega), if_pos hi]
  rfl

/-- Extended words compare like the words. -/
theorem slt_iff (h : w ≤ n) : (x.signExtend n).slt (y.signExtend n) = x.slt y := by
  rw [BitVec.slt_eq_decide, BitVec.slt_eq_decide, BitVec.toInt_signExtend_of_le h, BitVec.toInt_signExtend_of_le h]

/-- Negative words go to the top of the wider range, so that the unsigned order stays. -/
theorem ult_iff (h : w ≤ n) : (x.signExtend n).ult (y.signExtend n) = x.ult y := by
  have hpow : 2 ^ w ≤ 2 ^ n := Nat.pow_le_pow_right (by decide) h
  have hx : x.toNat < 2 ^ w := x.isLt
  have hy : y.toNat < 2 ^ w := y.isLt
  have hwide : ∀ z : BitVec w, (z.signExtend n).toNat = z.toNat + if z.msb then 2 ^ n - 2 ^ w else 0 := by
    intro z
    rw [BitVec.toNat_signExtend, BitVec.toNat_setWidth_of_le h]
  have hsign : ∀ z : BitVec w, z.msb = true ↔ 2 ^ (w - 1) ≤ z.toNat := by
    intro z
    rw [BitVec.msb_eq_decide, decide_eq_true_iff]
  rw [BitVec.ult_eq_decide, BitVec.ult_eq_decide, hwide, hwide]
  apply decide_eq_decide.mpr
  by_cases hxs : x.msb = true
  · by_cases hys : y.msb = true
    · rw [if_pos hxs, if_pos hys]
      omega
    · have hxle := (hsign x).mp hxs
      have hyle := mt (hsign y).mpr hys
      rw [if_pos hxs, if_neg hys]
      omega
  · by_cases hys : y.msb = true
    · have hyle := (hsign y).mp hys
      have hxle := mt (hsign x).mpr hxs
      rw [if_neg hxs, if_pos hys]
      omega
    · rw [if_neg hxs, if_neg hys]
      omega

theorem of_setWidth {k : ℕ} (hk : k < w) (v : BitVec k) : (v.setWidth w).signExtend n = v.setWidth n := by
  have hmsb : (v.setWidth w).msb = false := by
    rw [BitVec.msb_setWidth]
    exact Bool.and_eq_false_imp.mpr fun _ => BitVec.getLsbD_of_ge _ _ (by omega)
  rw [BitVec.signExtend_eq_setWidth_of_msb_false hmsb]
  refine BitVec.eq_of_toNat_eq ?_
  have hlt : v.toNat < 2 ^ w := v.isLt.trans (Nat.pow_lt_pow_right (by decide) hk)
  rw [BitVec.toNat_setWidth, BitVec.toNat_setWidth, BitVec.toNat_setWidth, Nat.mod_eq_of_lt hlt]

end SignExtend
