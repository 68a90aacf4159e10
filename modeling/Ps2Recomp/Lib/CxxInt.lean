import Mathlib.Algebra.Order.Ring.Abs
import Mathlib.Data.BitVec

/-!
# Signed integer arithmetic that may be undefined

The operations of a C++ integer type on bit vectors: they have no value where the language gives
them none, that is where a signed result does not fit and where a divisor is zero.

* `sadd_eq_some`, `sadd_eq_none` and the rest: defined exactly where the result fits.
* `fits_mul`: a product of operands of half the width always fits.
-/

namespace CxxInt

variable {n m : ℕ} {a b r : BitVec n}

/-- The numbers of the signed type of `n` bits. -/
def Fits (n : ℕ) (z : ℤ) : Prop := -2 ^ (n - 1) ≤ z ∧ z < 2 ^ (n - 1)

instance (z : ℤ) : Decidable (Fits n z) := inferInstanceAs (Decidable (_ ∧ _))

def sadd (a b : BitVec n) : Option (BitVec n) :=
  if Fits n (a.toInt + b.toInt) then some (a + b) else none

def ssub (a b : BitVec n) : Option (BitVec n) :=
  if Fits n (a.toInt - b.toInt) then some (a - b) else none

def smul (a b : BitVec n) : Option (BitVec n) :=
  if Fits n (a.toInt * b.toInt) then some (a * b) else none

/-- The quotient of a signed division does not fit for one pair of operands. -/
def DivOverflows (a b : BitVec n) : Prop := a = BitVec.intMin n ∧ b = -1

instance : Decidable (DivOverflows a b) := inferInstanceAs (Decidable (_ ∧ _))

def sdiv (a b : BitVec n) : Option (BitVec n) :=
  if b = 0 ∨ DivOverflows a b then none else some (a.sdiv b)

def srem (a b : BitVec n) : Option (BitVec n) :=
  if b = 0 ∨ DivOverflows a b then none else some (a.srem b)

def udiv (a b : BitVec n) : Option (BitVec n) := if b = 0 then none else some (a / b)

def urem (a b : BitVec n) : Option (BitVec n) := if b = 0 then none else some (a % b)

/-! ### Where they are defined -/

theorem sadd_eq_some (h : Fits n (a.toInt + b.toInt)) : sadd a b = some (a + b) := if_pos h

theorem ssub_eq_some (h : Fits n (a.toInt - b.toInt)) : ssub a b = some (a - b) := if_pos h

theorem smul_eq_some (h : Fits n (a.toInt * b.toInt)) : smul a b = some (a * b) := if_pos h

theorem sadd_eq_none (h : ¬Fits n (a.toInt + b.toInt)) : sadd a b = none := if_neg h

theorem ssub_eq_none (h : ¬Fits n (a.toInt - b.toInt)) : ssub a b = none := if_neg h

section

variable (h0 : b ≠ 0) (h : ¬DivOverflows a b)

include h0 h

theorem sdiv_eq_some : sdiv a b = some (a.sdiv b) :=
  if_neg (not_or.2 ⟨h0, h⟩)

theorem srem_eq_some : srem a b = some (a.srem b) :=
  if_neg (not_or.2 ⟨h0, h⟩)

end

theorem sdiv_eq_none (h : DivOverflows a b) : sdiv a b = none := if_pos (Or.inr h)

theorem udiv_eq_some (h0 : b ≠ 0) : udiv a b = some (a / b) := if_neg h0

theorem urem_eq_some (h0 : b ≠ 0) : urem a b = some (a % b) := if_neg h0

section

variable {β : Type} {f : BitVec n → β}

theorem bind_sadd_eq_none_iff : ((sadd a b).bind fun r => some (f r)) = none ↔ ¬Fits n (a.toInt + b.toInt) := by
  rw [sadd]
  split
  · rename_i h
    exact iff_of_false (Option.some_ne_none _) (not_not.2 h)
  · rename_i h
    exact iff_of_true rfl h

theorem bind_ssub_eq_none_iff : ((ssub a b).bind fun r => some (f r)) = none ↔ ¬Fits n (a.toInt - b.toInt) := by
  rw [ssub]
  split
  · rename_i h
    exact iff_of_false (Option.some_ne_none _) (not_not.2 h)
  · rename_i h
    exact iff_of_true rfl h

end

/-! ### Results that fit are exact -/

theorem not_saddOverflow (h : Fits n (a.toInt + b.toInt)) : a.saddOverflow b = false := by
  rw [BitVec.saddOverflow, decide_eq_false (not_le.2 h.2), decide_eq_false (not_lt.2 h.1)]
  rfl

theorem not_ssubOverflow (h : Fits n (a.toInt - b.toInt)) : a.ssubOverflow b = false := by
  rw [BitVec.ssubOverflow, decide_eq_false (not_le.2 h.2), decide_eq_false (not_lt.2 h.1)]
  rfl

theorem toInt_add (h : Fits n (a.toInt + b.toInt)) : (a + b).toInt = a.toInt + b.toInt :=
  BitVec.toInt_add_of_not_saddOverflow (Bool.eq_false_iff.1 (not_saddOverflow h))

/-! ### Results of wider types -/

theorem fits_toInt (a : BitVec n) (hn : 0 < n) : Fits n a.toInt := by
  have hlo := BitVec.le_two_mul_toInt (x := a)
  have hhi := BitVec.two_mul_toInt_lt (x := a)
  have hsplit : (2 : ℤ) ^ n = 2 * 2 ^ (n - 1) := by rw [← pow_succ', Nat.sub_add_cancel hn]
  exact ⟨by omega, by omega⟩

/-- Operands of half the width have their product in the type. -/
theorem fits_mul {x y : ℤ} (hm : 0 < m) (hn : 2 * m ≤ n) (hx : Fits m x) (hy : Fits m y) : Fits n (x * y) := by
  have hx' : |x| ≤ 2 ^ (m - 1) := abs_le.2 ⟨hx.1, hx.2.le⟩
  have hy' : |y| ≤ 2 ^ (m - 1) := abs_le.2 ⟨hy.1, hy.2.le⟩
  have hprod : |x * y| < 2 ^ (n - 1) :=
    calc |x * y| = |x| * |y| := abs_mul x y
      _ ≤ 2 ^ (m - 1) * 2 ^ (m - 1) := mul_le_mul hx' hy' (abs_nonneg y) (Int.pow_nonneg (by decide))
      _ = 2 ^ (m - 1 + (m - 1)) := (pow_add 2 (m - 1) (m - 1)).symm
      _ < 2 ^ (n - 1) := pow_lt_pow_right₀ (by decide) (by omega)
  obtain ⟨hlo, hhi⟩ := abs_lt.1 hprod
  exact ⟨hlo.le, hhi⟩

end CxxInt
