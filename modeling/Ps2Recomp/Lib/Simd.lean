import Ps2Recomp.Lib.Indices

/-!
# Saturating arithmetic

Sums and differences of bit vectors that are clamped to what the width holds, and the ways a
processor without such instructions computes them: from the sign bits of the wrapped result
(`clampS_add`, `clampS_sub`) or from an unsigned comparison (`clampU_add`, `clampU_sub`), itself
made of a signed one by turning the sign bits over (`xor_intMin_lt`).
-/

namespace Simd

variable {w : ℕ}

/-- A value that does not fit is replaced by the nearest one that does. -/
def clampS (w : ℕ) (x : ℤ) : BitVec w := BitVec.ofInt w (max (-2 ^ (w - 1)) (min (2 ^ (w - 1) - 1) x))

def clampU (w : ℕ) (x : ℤ) : BitVec w := BitVec.ofInt w (max 0 (min (2 ^ w - 1) x))

variable (x y : BitVec w)

theorem two_pow_pred (hw : 0 < w) : (2 : ℤ) ^ w = 2 * 2 ^ (w - 1) := by
  rw [← pow_succ', Nat.sub_add_cancel hw]

theorem toNat_two_pow_pred (n : ℕ) : ((2 : ℤ) ^ n - 1).toNat = 2 ^ n - 1 := by
  have hone := Nat.one_le_two_pow (n := n)
  rw [← Int.toNat_natCast (2 ^ n - 1), Nat.cast_sub hone]
  push_cast
  rfl

variable {z : ℤ}

theorem clampS_of_fits (hlo : -2 ^ (w - 1) ≤ z) (hhi : z < 2 ^ (w - 1)) : clampS w z = BitVec.ofInt w z := by
  rw [clampS, min_eq_right (by omega), max_eq_right hlo]

theorem clampS_of_lt (hz : z < -2 ^ (w - 1)) : clampS w z = BitVec.intMin w := by
  have hpos : (0 : ℤ) < 2 ^ (w - 1) := Int.pow_pos (by decide)
  rw [clampS, min_eq_right (by omega), max_eq_left (by omega), ← BitVec.intMin_eq_neg_two_pow]

section

variable (hw : 0 < w)

include hw

theorem clampS_of_ge (hz : 2 ^ (w - 1) ≤ z) : clampS w z = BitVec.intMax w := by
  have hpos : (0 : ℤ) < 2 ^ (w - 1) := Int.pow_pos (by decide)
  rw [clampS, min_eq_left (by omega), max_eq_right (by omega)]
  apply BitVec.eq_of_toNat_eq
  have hsplit := two_pow_pred hw
  have hmax := BitVec.toNat_intMax (w := w)
  rw [hmax, BitVec.toNat_ofInt, Int.emod_eq_of_lt (by omega) (by push_cast; omega), toNat_two_pow_pred]

/-- A result `z` that overflows in the direction of the sign of `x`, or not, and then is `r`. -/
theorem clampS_of_overflow {r : BitVec w} (hlo : z < -2 ^ (w - 1) → x.toInt < 0)
    (hhi : 2 ^ (w - 1) ≤ z → 0 ≤ x.toInt) (hr : -2 ^ (w - 1) ≤ z → z < 2 ^ (w - 1) → BitVec.ofInt w z = r) :
    clampS w z = if (decide (2 ^ (w - 1) ≤ z) || decide (z < -2 ^ (w - 1))) then
      if x.msb then BitVec.intMin w else BitVec.intMax w else r := by
  rw [BitVec.msb_eq_toInt]
  rcases lt_or_ge z (-2 ^ (w - 1)) with hz | hz
  · rw [decide_eq_true hz, Bool.or_true, if_pos rfl, if_pos (decide_eq_true (hlo hz)), clampS_of_lt hz]
  rcases lt_or_ge z (2 ^ (w - 1)) with hz' | hz'
  · rw [decide_eq_false hz.not_gt, decide_eq_false hz'.not_ge, Bool.or_false, if_neg (by simp),
      clampS_of_fits hz hz', hr hz hz']
  · rw [decide_eq_true hz', Bool.true_or, if_pos rfl, if_neg (by simpa using hhi hz'), clampS_of_ge hw hz']

/-- The sign of a sum tells whether it fits. -/
theorem clampS_add :
    clampS w (x.toInt + y.toInt) =
      if ((x ^^^ (x + y)) &&& (y ^^^ (x + y))).msb then
        if x.msb then BitVec.intMin w else BitVec.intMax w
      else x + y := by
  have hmask : ((x ^^^ (x + y)) &&& (y ^^^ (x + y))).msb = x.saddOverflow y := by
    rw [BitVec.saddOverflow_eq, BitVec.msb_and, BitVec.msb_xor, BitVec.msb_xor]
    cases x.msb <;> cases y.msb <;> cases (x + y).msb <;> rfl
  have hyhi := BitVec.two_mul_toInt_lt (x := y)
  have hylo := BitVec.le_two_mul_toInt (x := y)
  rw [two_pow_pred hw] at hyhi hylo
  rw [hmask]
  refine clampS_of_overflow x hw (fun hz => by omega) (fun hz => by omega) fun _ _ => ?_
  rw [BitVec.ofInt_add, BitVec.ofInt_toInt, BitVec.ofInt_toInt]

theorem clampS_sub :
    clampS w (x.toInt - y.toInt) =
      if ((x ^^^ y) &&& (x ^^^ (x - y))).msb then
        if x.msb then BitVec.intMin w else BitVec.intMax w
      else x - y := by
  have hmask : ((x ^^^ y) &&& (x ^^^ (x - y))).msb = x.ssubOverflow y := by
    rw [BitVec.ssubOverflow_eq, BitVec.msb_and, BitVec.msb_xor, BitVec.msb_xor]
    cases x.msb <;> cases y.msb <;> cases (x - y).msb <;> rfl
  have hyhi := BitVec.two_mul_toInt_lt (x := y)
  have hylo := BitVec.le_two_mul_toInt (x := y)
  rw [two_pow_pred hw] at hyhi hylo
  rw [hmask]
  refine clampS_of_overflow x hw (fun hz => by omega) (fun hz => by omega) fun hlo hhi => ?_
  rw [← BitVec.toInt_sub_of_not_ssubOverflow, BitVec.ofInt_toInt]
  rw [BitVec.ssubOverflow, decide_eq_false hlo.not_gt, decide_eq_false hhi.not_ge]
  decide

end

theorem clampU_of_fits {z : ℕ} (hz : z < 2 ^ w) : clampU w z = BitVec.ofNat w z := by
  have hcast : (z : ℤ) < 2 ^ w := by exact_mod_cast hz
  rw [clampU, min_eq_right (by omega), max_eq_right (by omega), BitVec.ofInt_natCast]

theorem clampU_of_ge (hz : 2 ^ w ≤ z) : clampU w z = BitVec.allOnes w := by
  have hpos : (0 : ℤ) < 2 ^ w := Int.pow_pos (by decide)
  rw [clampU, min_eq_left (by omega), max_eq_right (by omega)]
  apply BitVec.eq_of_toNat_eq
  rw [BitVec.toNat_ofInt, Int.emod_eq_of_lt (by omega) (by push_cast; omega), BitVec.toNat_allOnes, toNat_two_pow_pred]

theorem clampU_of_neg (hz : z < 0) : clampU w z = 0 := by
  have hpos : (0 : ℤ) < 2 ^ w := Int.pow_pos (by decide)
  rw [clampU, min_eq_right (by omega), max_eq_left (by omega)]
  rfl

theorem toNat_add_of_carry (h : 2 ^ w ≤ x.toNat + y.toNat) : (x + y).toNat = x.toNat + y.toNat - 2 ^ w := by
  have hx := x.isLt
  have hy := y.isLt
  rw [BitVec.toNat_add, Nat.mod_eq_sub_mod h, Nat.mod_eq_of_lt (by omega)]

/-- A sum is less than its operand exactly when it was carried out of. -/
theorem clampU_add : clampU w (x.toNat + y.toNat) = if (x + y).toNat < x.toNat then BitVec.allOnes w else x + y := by
  have hy := y.isLt
  rcases lt_or_ge (x.toNat + y.toNat) (2 ^ w) with h | h
  · have hsum : (x + y).toNat = x.toNat + y.toNat := BitVec.toNat_add_of_lt h
    rw [← Nat.cast_add, clampU_of_fits h, if_neg (by omega), ← hsum, BitVec.ofNat_toNat, BitVec.setWidth_eq]
  · rw [toNat_add_of_carry x y h, if_pos (by omega)]
    exact clampU_of_ge (by exact_mod_cast h)

theorem clampU_sub : clampU w (x.toNat - y.toNat) = if x.toNat < y.toNat then 0 else x - y := by
  rcases lt_or_ge x.toNat y.toNat with h | h
  · rw [if_pos h]
    exact clampU_of_neg (by omega)
  · have hdiff : (x - y).toNat = x.toNat - y.toNat := BitVec.toNat_sub_of_le h
    have hlt := x.isLt
    rw [if_neg h.not_gt, ← Nat.cast_sub h, clampU_of_fits (by omega), ← hdiff, BitVec.ofNat_toNat, BitVec.setWidth_eq]

/-- **Addition that wraps saturates exactly where nothing is carried out.** -/
theorem add_eq_clampU : x + y = clampU w (x.toNat + y.toNat) ↔ x.toNat + y.toNat < 2 ^ w := by
  have hx := x.isLt
  have hy := y.isLt
  constructor
  · intro heq
    by_contra h
    have hcarry := toNat_add_of_carry x y (not_lt.1 h)
    rw [heq, clampU_of_ge (by exact_mod_cast not_lt.1 h), BitVec.toNat_allOnes] at hcarry
    omega
  · intro h
    rw [clampU_add, if_neg]
    rw [BitVec.toNat_add_of_lt h]
    omega

theorem sub_eq_clampU : x - y = clampU w (x.toNat - y.toNat) ↔ y.toNat ≤ x.toNat := by
  constructor
  · intro heq
    by_contra h
    rw [clampU_sub, if_pos (not_le.1 h)] at heq
    have hsame : x = y := sub_eq_zero.1 heq
    exact h (le_of_eq (congrArg BitVec.toNat hsame.symm))
  · intro h
    rw [clampU_sub, if_neg h.not_gt]

theorem xor_intMin_of_msb (h : x.msb = false) : x ^^^ BitVec.intMin w = x + BitVec.intMin w := by
  have hdisj : x &&& BitVec.intMin w = 0#w := by
    apply BitVec.eq_of_getLsbD_eq
    intro i hi
    rw [BitVec.getLsbD_and, BitVec.getLsbD_intMin, BitVec.getLsbD_zero]
    by_cases htop : i + 1 = w
    · rw [BitVec.msb_eq_getLsbD_last, show w - 1 = i by omega] at h
      rw [h, Bool.false_and]
    · rw [decide_eq_false htop, Bool.and_false]
  rw [BitVec.add_eq_or_of_and_eq_zero _ _ hdisj]
  apply BitVec.eq_of_getLsbD_eq
  intro i hi
  have hbit := congrArg (BitVec.getLsbD · i) hdisj
  simp only [BitVec.getLsbD_and, BitVec.getLsbD_zero] at hbit
  rw [BitVec.getLsbD_xor, BitVec.getLsbD_or]
  cases hx : x.getLsbD i <;> cases hm : (BitVec.intMin w).getLsbD i <;> simp_all

section

variable (hw : 0 < w)

include hw

/-- The sign bit turned over is the sign bit added. -/
theorem xor_intMin : x ^^^ BitVec.intMin w = x + BitVec.intMin w := by
  cases h : x.msb
  · exact xor_intMin_of_msb x h
  · have hback := xor_intMin_of_msb (x ^^^ BitVec.intMin w) (by
      rw [BitVec.msb_xor, h, BitVec.msb_intMin, decide_eq_true hw]
      rfl)
    rw [BitVec.xor_assoc, BitVec.xor_self, BitVec.xor_zero] at hback
    conv_rhs => rw [hback]
    have hzero : BitVec.intMin w + BitVec.intMin w = 0 :=
      calc BitVec.intMin w + BitVec.intMin w = -BitVec.intMin w + BitVec.intMin w := by
            rw [BitVec.neg_intMin]
        _ = 0 := neg_add_cancel _
    rw [BitVec.add_assoc, hzero, add_zero]

theorem toInt_xor_intMin : (x ^^^ BitVec.intMin w).toInt = x.toNat - 2 ^ (w - 1) := by
  have hx := x.isLt
  have hsplit : 2 ^ w = 2 * 2 ^ (w - 1) := by rw [← pow_succ', Nat.sub_add_cancel hw]
  rw [xor_intMin x hw, BitVec.toInt_eq_toNat_cond, BitVec.toNat_add, BitVec.toNat_intMin_of_pos hw]
  rcases lt_or_ge x.toNat (2 ^ (w - 1)) with h | h
  · rw [Nat.mod_eq_of_lt (by omega), if_neg (by omega), hsplit]
    push_cast
    omega
  · rw [Nat.mod_eq_sub_mod (by omega), Nat.mod_eq_of_lt (by omega), if_pos (by omega), Nat.cast_sub (by omega), hsplit]
    push_cast
    omega

/-- With its sign bit turned over an unsigned number is compared as a signed one. -/
theorem xor_intMin_lt : (x ^^^ BitVec.intMin w).toInt < (y ^^^ BitVec.intMin w).toInt ↔ x.toNat < y.toNat := by
  rw [toInt_xor_intMin x hw, toInt_xor_intMin y hw]
  omega

theorem sshiftRight_top : x.sshiftRight (w - 1) = if x.msb then BitVec.allOnes w else 0 := by
  apply BitVec.eq_of_getLsbD_eq
  intro i hi
  rw [BitVec.getLsbD_sshiftRight, decide_eq_false (not_le.2 hi), Bool.not_false, Bool.true_and]
  have hbit : (if w - 1 + i < w then x.getLsbD (w - 1 + i) else x.msb) = x.msb := by
    split
    · rw [BitVec.msb_eq_getLsbD_last, show i = 0 by omega, Nat.add_zero]
    · rfl
  rw [hbit]
  cases x.msb
  · simp
  · simp [hi]

end

end Simd

/-!
# 128 bit registers of lanes

A register is a bit vector. Its lanes of `w` bits are read with `lane` and put together with
`ofLanes`; the vector instructions are functions on lanes, under the names of their intrinsics with
the width as an argument (`_mm_add_epi32` is `mmAddEpi 32`).

* `lane_ofLanes`, `ext_lanes`: the lanes of a register determine it, and every choice of lanes is one.
* `lane_mmAddEpi` and the rest: an instruction, lane by lane.
-/

namespace Simd

/-- `__m128i` -/
abbrev M128 := BitVec 128

variable {w n : ℕ} {i j : ℕ} {a b : M128} {f : ℕ → BitVec w}

def lane (w i : ℕ) (v : M128) : BitVec w := v.extractLsb' (w * i) w

def ofLanes (w : ℕ) (f : ℕ → BitVec w) : M128 :=
  (List.range (128 / w)).foldr (fun i acc => ((f i).setWidth 128 <<< (w * i)) ||| acc) 0

/-! ### Lanes -/

theorem getLsbD_lane (hj : j < w) : (lane w i a).getLsbD j = a.getLsbD (w * i + j) := by
  rw [lane, BitVec.getLsbD_extractLsb', decide_eq_true hj, Bool.true_and]

theorem getLsbD_foldr (l : List ℕ) (k : ℕ) (hk : k < 128) :
    (l.foldr (fun i acc => ((f i).setWidth 128 <<< (w * i)) ||| acc) 0).getLsbD k =
      l.any fun i => decide (w * i ≤ k) && (f i).getLsbD (k - w * i) := by
  induction l with
  | nil => simp
  | cons i l ih =>
    rw [List.foldr_cons, BitVec.getLsbD_or, ih, List.any_cons, BitVec.getLsbD_shiftLeft,
      BitVec.getLsbD_setWidth, decide_eq_true hk, Bool.true_and,
      decide_eq_true (show k - w * i < 128 by omega), Bool.true_and]
    congr 2
    rw [← decide_not]
    exact decide_eq_decide.2 not_lt

theorem getLsbD_ofLanes (hi : w * (i + 1) ≤ 128) (hj : j < w) :
    (ofLanes w f).getLsbD (w * i + j) = (f i).getLsbD j := by
  have hexp : w * (i + 1) = w * i + w := Nat.mul_succ w i
  rw [ofLanes, getLsbD_foldr _ _ (by omega), Bool.eq_iff_iff, List.any_eq_true]
  constructor
  · rintro ⟨k, -, hk⟩
    rw [Bool.and_eq_true, decide_eq_true_iff] at hk
    obtain ⟨hle, hbit⟩ := hk
    -- only the lane that the bit is in has it
    have hlt : w * i + j - w * k < w := BitVec.lt_of_getLsbD hbit
    have hk : k = i := by
      rcases Nat.lt_trichotomy k i with h | h | h
      · have := Nat.mul_le_mul_left w (Nat.succ_le_of_lt h)
        rw [Nat.mul_succ] at this
        omega
      · exact h
      · have := Nat.mul_le_mul_left w (Nat.succ_le_of_lt h)
        rw [Nat.mul_succ] at this
        omega
    rw [hk, Nat.add_sub_cancel_left] at hbit
    exact hbit
  · intro hbit
    refine ⟨i, ?_, ?_⟩
    · rw [List.mem_range]
      exact Nat.lt_of_succ_le ((Nat.le_div_iff_mul_le (by omega)).2 (by rw [Nat.mul_comm]; exact hi))
    · rw [Bool.and_eq_true, decide_eq_true_iff, Nat.add_sub_cancel_left]
      exact ⟨Nat.le_add_right _ _, hbit⟩

@[simp]
theorem lane_ofLanes (hi : w * (i + 1) ≤ 128) : lane w i (ofLanes w f) = f i := by
  apply BitVec.eq_of_getLsbD_eq
  intro j hj
  rw [getLsbD_lane hj, getLsbD_ofLanes hi hj]

/-- **The lanes determine the register.** -/
theorem ext_lanes (hw : w ∣ 128) (h : ∀ i, w * (i + 1) ≤ 128 → lane w i a = lane w i b) : a = b := by
  obtain ⟨n, hn⟩ := hw
  apply BitVec.eq_of_getLsbD_eq
  intro k hk
  have hw0 : 0 < w := by
    by_contra h0
    rw [Nat.eq_zero_of_not_pos h0, Nat.zero_mul] at hn
    cases hn
  have hsplit := Nat.div_add_mod k w
  have hj := Nat.mod_lt k hw0
  have hlt : k / w < n := by
    rw [Nat.div_lt_iff_lt_mul hw0, Nat.mul_comm, ← hn]
    exact hk
  have hi : w * (k / w + 1) ≤ 128 := by
    rw [hn]
    exact Nat.mul_le_mul_left w hlt
  rw [← hsplit, ← getLsbD_lane hj, ← getLsbD_lane hj, h _ hi]

/-! ### Lane by lane -/

/-- The same function on all lanes. -/
def map2 (w : ℕ) (op : BitVec w → BitVec w → BitVec w) (a b : M128) : M128 :=
  ofLanes w fun i => op (lane w i a) (lane w i b)

def map1 (w : ℕ) (op : BitVec w → BitVec w) (a : M128) : M128 := ofLanes w fun i => op (lane w i a)

@[simp]
theorem lane_map2 (op : BitVec w → BitVec w → BitVec w) (hi : w * (i + 1) ≤ 128) :
    lane w i (map2 w op a b) = op (lane w i a) (lane w i b) := lane_ofLanes hi

@[simp]
theorem lane_map1 (op : BitVec w → BitVec w) (hi : w * (i + 1) ≤ 128) :
    lane w i (map1 w op a) = op (lane w i a) := lane_ofLanes hi

def mmAddEpi (w : ℕ) : M128 → M128 → M128 := map2 w (· + ·)

def mmSubEpi (w : ℕ) : M128 → M128 → M128 := map2 w (· - ·)

/-- `_mm_adds_epi8`, `_mm_adds_epi16` -/
def mmAddsEpi (w : ℕ) : M128 → M128 → M128 := map2 w fun x y => clampS w (x.toInt + y.toInt)

def mmSubsEpi (w : ℕ) : M128 → M128 → M128 := map2 w fun x y => clampS w (x.toInt - y.toInt)

/-- `_mm_adds_epu8`, `_mm_adds_epu16` -/
def mmAddsEpu (w : ℕ) : M128 → M128 → M128 := map2 w fun x y => clampU w (x.toNat + y.toNat)

def mmSubsEpu (w : ℕ) : M128 → M128 → M128 := map2 w fun x y => clampU w (x.toNat - y.toNat)

/-- A lane of ones where the first is greater, as a signed number. -/
def mmCmpgtEpi (w : ℕ) : M128 → M128 → M128 :=
  map2 w fun x y => if y.toInt < x.toInt then BitVec.allOnes w else 0

/-- `_mm_abs_epi16`, `_mm_abs_epi32`: the least number is left as it is. -/
def mmAbsEpi (w : ℕ) : M128 → M128 := map1 w fun x => if x.msb then -x else x

def mmSraiEpi (w n : ℕ) : M128 → M128 := map1 w fun x => x.sshiftRight n

def mmSrliEpi (w n : ℕ) : M128 → M128 := map1 w fun x => x >>> n

def mmSlliEpi (w n : ℕ) : M128 → M128 := map1 w fun x => x <<< n

def mmMulloEpi (w : ℕ) : M128 → M128 → M128 := map2 w (· * ·)

/-- The products of the signed halfwords, added in pairs. -/
def mmMaddEpi16 (a b : M128) : M128 :=
  ofLanes 32 fun i =>
    (lane 16 (2 * i) a).signExtend 32 * (lane 16 (2 * i) b).signExtend 32 +
      (lane 16 (2 * i + 1) a).signExtend 32 * (lane 16 (2 * i + 1) b).signExtend 32

/-- A shift by whole bytes. -/
def mmSrliSi128 (n : ℕ) (a : M128) : M128 := a >>> (8 * n)

def mmCvtsi128Si32 (a : M128) : BitVec 32 := lane 32 0 a

def mmCvtsi128Si64 (a : M128) : BitVec 64 := lane 64 0 a

/-- The products of the unsigned words 0 and 2, in 64 bits each. -/
def mmMulEpu32 (a b : M128) : M128 :=
  ofLanes 64 fun i => (lane 32 (2 * i) a).setWidth 64 * (lane 32 (2 * i) b).setWidth 64

/-- The lower halves of two registers. -/
def mmUnpackloEpi64 (a b : M128) : M128 := ofLanes 64 fun i => if i = 0 then lane 64 0 a else lane 64 0 b

/-- `_mm_set1_epi32` -/
def mmSet1Epi (w : ℕ) (x : BitVec w) : M128 := ofLanes w fun _ => x

def mmAndnotSi128 (a b : M128) : M128 := ~~~a &&& b

/-- `_mm_blendv_epi8`: the bytes of `b` where the mask has its upper bit. -/
def mmBlendvEpi8 (a b mask : M128) : M128 :=
  ofLanes 8 fun i => if (lane 8 i mask).msb then lane 8 i b else lane 8 i a

/-! ### Lanes that change places -/

/-- The lane of the result is the named lane of the operand. -/
def permute (w : ℕ) (σ : ℕ → ℕ) (a : M128) : M128 := ofLanes w fun i => lane w (σ i) a

@[simp]
theorem lane_permute {σ : ℕ → ℕ} (hi : w * (i + 1) ≤ 128) :
    lane w i (permute w σ a) = lane w (σ i) a := lane_ofLanes hi

/-- The places that a list names. -/
def places (l : List ℕ) (i : ℕ) : ℕ := l.getD i i

section

variable (hn : w * n = 128) (hw : 0 < w)

include hn hw

theorem permute_congr {σ τ : ℕ → ℕ} (h : ∀ i < n, σ i = τ i) : permute w σ a = permute w τ a := by
  apply ext_lanes ⟨n, hn.symm⟩
  intro i hi
  rw [lane_permute hi, lane_permute hi, h i]
  rw [← hn] at hi
  exact Nat.le_of_mul_le_mul_left hi hw

/-- Permutations of two registers agree lane by lane: read the first through the inverse. -/
theorem permute_eq_iff {σ r τ π : ℕ → ℕ}
    (h : ∀ i < n, σ i < n ∧ r i < n ∧ σ (r i) = i ∧ τ (r i) = π i ∧ π (σ i) = τ i) :
    permute w σ a = permute w τ b ↔ ∀ i < n, lane w i a = lane w (π i) b := by
  have hlane : ∀ {i}, i < n ↔ w * (i + 1) ≤ 128 := by
    intro i
    rw [← hn, Nat.mul_le_mul_left_iff hw, Nat.succ_le_iff]
  constructor
  · intro heq i hi
    obtain ⟨-, hr, hσr, hτr, -⟩ := h i hi
    have hri := congrArg (lane w (r i)) heq
    rwa [lane_permute (hlane.1 hr), lane_permute (hlane.1 hr), hσr, hτr] at hri
  · intro heq
    apply ext_lanes ⟨n, hn.symm⟩
    intro i hi
    obtain ⟨hσ, -, -, -, hπσ⟩ := h i (hlane.2 hi)
    rw [lane_permute hi, lane_permute hi, heq _ hσ, hπσ]

theorem permute_involutive {σ : ℕ → ℕ} (h : ∀ i < n, σ i < n ∧ σ (σ i) = i) : permute w σ (permute w σ a) = a := by
  apply ext_lanes ⟨n, hn.symm⟩
  intro i hi
  have hlane : ∀ {i}, i < n ↔ w * (i + 1) ≤ 128 := by
    intro i
    rw [← hn, Nat.mul_le_mul_left_iff hw, Nat.succ_le_iff]
  obtain ⟨hσ, hσσ⟩ := h i (hlane.2 hi)
  rw [lane_permute hi, lane_permute (hlane.1 hσ), hσσ]

end

/-- A lane of twice the width is two lanes. -/
theorem lane_double : lane (w + w) i a = lane w (2 * i + 1) a ++ lane w (2 * i) a := by
  have hlo : (w + w) * i = w * (2 * i) := by rw [← Nat.two_mul, Nat.mul_assoc, Nat.mul_left_comm]
  have hhi : w * (2 * i + 1) = w * (2 * i) + w := Nat.mul_succ _ _
  apply BitVec.eq_of_getLsbD_eq
  intro j hj
  rw [getLsbD_lane hj, BitVec.getLsbD_append, hlo]
  split
  · rename_i hlow
    rw [getLsbD_lane hlow]
  · rename_i hhigh
    rw [getLsbD_lane (by omega), hhi]
    congr 1
    omega

/-- `_MM_SHUFFLE`, two bits for each lane. -/
def mmShuffle (z y x w : ℕ) : ℕ := z * 64 + y * 16 + x * 4 + w

def selector (imm i : ℕ) : ℕ := imm / 4 ^ i % 4

def mmShuffleEpi32 (a : M128) (imm : ℕ) : M128 := permute 32 (selector imm) a

def mmShuffleloEpi16 (a : M128) (imm : ℕ) : M128 :=
  permute 16 (fun i => if i < 4 then selector imm i else i) a

def mmShufflehiEpi16 (a : M128) (imm : ℕ) : M128 :=
  permute 16 (fun i => if i < 4 then i else 4 + selector imm (i - 4)) a

/-- A byte of the mask with its upper bit set clears the byte. -/
def mmShuffleEpi8 (a mask : M128) : M128 :=
  ofLanes 8 fun i =>
    if (lane 8 i mask).msb then 0 else lane 8 ((lane 8 i mask).toNat % 16) a

/-- `_mm_setr_epi8` .. `_mm_setr_epi32`, the lowest lane first. -/
def mmSetr (w : ℕ) (l : List (BitVec w)) : M128 := ofLanes w fun i => l.getD i 0

/-- `_mm_set_epi16`, `_mm_set_epi32`, the lowest lane last. -/
def mmSet (w : ℕ) (l : List (BitVec w)) : M128 := mmSetr w l.reverse

@[simp]
theorem lane_setr {l : List (BitVec w)} (hi : w * (i + 1) ≤ 128) :
    lane w i (mmSetr w l) = l.getD i 0 := lane_ofLanes hi

/-! ### Instructions, lane by lane -/

@[simp]
theorem lane_set1 (x : BitVec w) (hi : w * (i + 1) ≤ 128) : lane w i (mmSet1Epi w x) = x :=
  lane_ofLanes hi

@[simp]
theorem lane_and : lane w i (a &&& b) = lane w i a &&& lane w i b := BitVec.extractLsb'_and

@[simp]
theorem lane_or : lane w i (a ||| b) = lane w i a ||| lane w i b := BitVec.extractLsb'_or

@[simp]
theorem lane_xor : lane w i (a ^^^ b) = lane w i a ^^^ lane w i b := BitVec.extractLsb'_xor

section

variable (hi : w * (i + 1) ≤ 128)

include hi

theorem lane_mmAddEpi : lane w i (mmAddEpi w a b) = lane w i a + lane w i b := lane_map2 _ hi

theorem lane_mmSubEpi : lane w i (mmSubEpi w a b) = lane w i a - lane w i b := lane_map2 _ hi

theorem lane_mmAddsEpi :
    lane w i (mmAddsEpi w a b) = clampS w ((lane w i a).toInt + (lane w i b).toInt) := lane_map2 _ hi

theorem lane_mmSubsEpi :
    lane w i (mmSubsEpi w a b) = clampS w ((lane w i a).toInt - (lane w i b).toInt) := lane_map2 _ hi

theorem lane_mmAddsEpu :
    lane w i (mmAddsEpu w a b) = clampU w ((lane w i a).toNat + (lane w i b).toNat) := lane_map2 _ hi

theorem lane_mmSubsEpu :
    lane w i (mmSubsEpu w a b) = clampU w ((lane w i a).toNat - (lane w i b).toNat) := lane_map2 _ hi

theorem lane_mmSlliEpi : lane w i (mmSlliEpi w n a) = lane w i a <<< n :=
  lane_map1 _ hi

theorem lane_mmSrliEpi : lane w i (mmSrliEpi w n a) = lane w i a >>> n :=
  lane_map1 _ hi

end

theorem lane_mmSraiEpi_top (hw : 0 < w) (hi : w * (i + 1) ≤ 128) :
    lane w i (mmSraiEpi w (w - 1) a) = if (lane w i a).msb then BitVec.allOnes w else 0 := by
  rw [mmSraiEpi, lane_map1 _ hi, sshiftRight_top _ hw]

theorem lane_andnot (hi : w * (i + 1) ≤ 128) : lane w i (mmAndnotSi128 a b) = ~~~lane w i a &&& lane w i b := by
  have hexp : w * (i + 1) = w * i + w := Nat.mul_succ w i
  apply BitVec.eq_of_getLsbD_eq
  intro j hj
  rw [getLsbD_lane hj, mmAndnotSi128, BitVec.getLsbD_and, BitVec.getLsbD_not, BitVec.getLsbD_and,
    BitVec.getLsbD_not, getLsbD_lane hj, getLsbD_lane hj, decide_eq_true hj, decide_eq_true (by omega)]

theorem getLsbD_blendv {m : M128} {k : ℕ} (hk : k < 128) :
    (mmBlendvEpi8 a b m).getLsbD k =
      if m.getLsbD (8 * (k / 8) + 7) then b.getLsbD k else a.getLsbD k := by
  have hj : k % 8 < 8 := Nat.mod_lt k (by decide)
  have hi : 8 * (k / 8 + 1) ≤ 128 := by omega
  have hmsb : (lane 8 (k / 8) m).msb = m.getLsbD (8 * (k / 8) + 7) := by
    rw [BitVec.msb_eq_getLsbD_last, getLsbD_lane (by decide)]
  conv_lhs => rw [← Nat.div_add_mod k 8]
  rw [mmBlendvEpi8, getLsbD_ofLanes hi hj, hmsb]
  split <;> rw [getLsbD_lane hj, Nat.div_add_mod]

/-- A mask of whole lanes chooses whole lanes. -/
theorem lane_blendv {m : M128} {p : Prop} [Decidable p] (h8 : 8 ∣ w) (hi : w * (i + 1) ≤ 128)
    (hm : lane w i m = if p then BitVec.allOnes w else 0) :
    lane w i (mmBlendvEpi8 a b m) = if p then lane w i b else lane w i a := by
  obtain ⟨n, rfl⟩ := h8
  have hexp : 8 * n * (i + 1) = 8 * n * i + 8 * n := Nat.mul_succ _ i
  apply BitVec.eq_of_getLsbD_eq
  intro j hj
  have hbyte : 8 * ((8 * n * i + j) / 8) + 7 = 8 * n * i + (8 * (j / 8) + 7) := by
    rw [Nat.mul_assoc, Nat.mul_add_div (by decide)]
    omega
  have hmask : m.getLsbD (8 * ((8 * n * i + j) / 8) + 7) = decide p := by
    rw [hbyte, ← getLsbD_lane (by omega), hm]
    by_cases hp : p
    · rw [if_pos hp, decide_eq_true hp, BitVec.getLsbD_allOnes, decide_eq_true (by omega)]
    · rw [if_neg hp, decide_eq_false hp]
      exact BitVec.getLsbD_zero
  rw [getLsbD_lane hj, getLsbD_blendv (by omega), hmask]
  by_cases hp : p
  · rw [if_pos (decide_eq_true hp), if_pos hp, getLsbD_lane hj]
  · rw [if_neg (by simp [hp]), if_neg hp, getLsbD_lane hj]

end Simd
