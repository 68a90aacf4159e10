import Ps2Recomp.Spec.Mmi

/-!
# The funnel shift

`ps2_qfsrv` shifts by whole bytes, or by 64-bit words whose bits it joins. Bit `k` of each result is
bit `sa + k` of `rs` behind `rt` (`funnel`).
-/

namespace Ps2Recomp.Mmi

open Simd

variable {rs rt a : M128} {sa k : ℕ}

/-- Bit `k` of `rs` behind `rt`. -/
def funnel (rs rt : M128) (k : ℕ) : Bool := if k < 128 then rt.getLsbD k else rs.getLsbD (k - 128)

theorem getLsbD_append_shift (hk : k < 128) :
    (((rs ++ rt : BitVec 256) >>> sa).setWidth 128).getLsbD k = funnel rs rt (sa + k) := by
  rw [BitVec.getLsbD_setWidth, decide_eq_true hk, Bool.true_and, BitVec.getLsbD_ushiftRight, BitVec.getLsbD_append, funnel]

theorem getLsbD_low (i : ℕ) (hi : 64 * i + 64 ≤ 128) (hk : k < 64) :
    (lane 64 i rt).getLsbD k = funnel rs rt (64 * i + k) := by
  rw [getLsbD_lane hk, funnel, if_pos (by omega)]

theorem getLsbD_high (i : ℕ) (hk : k < 64) : (lane 64 i rs).getLsbD k = funnel rs rt (128 + 64 * i + k) := by
  rw [getLsbD_lane hk, funnel, if_neg (by omega)]
  exact congrArg rs.getLsbD (by omega)

/-- **Two words that are joined**, of those that follow one another in the row. -/
theorem getLsbD_joined {x y : BitVec 64} {o s : ℕ} (hx : ∀ j < 64, x.getLsbD j = funnel rs rt (o + j))
    (hy : ∀ j < 64, y.getLsbD j = funnel rs rt (o + 64 + j)) (hs : s < 64) (hk : k < 64) :
    ((x >>> s) ||| (y <<< (64 - s))).getLsbD k = funnel rs rt (o + s + k) := by
  rw [BitVec.getLsbD_or, BitVec.getLsbD_ushiftRight, BitVec.getLsbD_shiftLeft, decide_eq_true hk, Bool.true_and]
  by_cases hsk : s + k < 64
  · rw [decide_eq_true (by omega : k < 64 - s), Bool.not_true, Bool.false_and, Bool.or_false, hx _ hsk]
    exact congrArg (funnel rs rt) (by omega)
  · rw [decide_eq_false (by omega : ¬k < 64 - s), Bool.not_false, Bool.true_and,
      BitVec.getLsbD_of_ge x _ (by omega), Bool.false_or, hy _ (by omega)]
    exact congrArg (funnel rs rt) (by omega)

theorem getLsbD_bytes {f : ℕ → BitVec 8} (hk : k < 128) : (ofLanes 8 f).getLsbD k = (f (k / 8)).getLsbD (k % 8) := by
  have hlane := getLsbD_ofLanes (f := f) (by omega : 8 * (k / 8 + 1) ≤ 128) (Nat.mod_lt k (by decide))
  rwa [Nat.div_add_mod] at hlane

theorem getLsbD_words {x y : BitVec 64} {o : ℕ} (hx : ∀ j < 64, x.getLsbD j = funnel rs rt (o + j))
    (hy : ∀ j < 64, y.getLsbD j = funnel rs rt (o + 64 + j)) (hk : k < 128) :
    (mmSet 64 [y, x]).getLsbD k = funnel rs rt (o + k) := by
  have hbit (i : ℕ) (hi : i < 64) (n : ℕ) : (lane 64 n (mmSet 64 [y, x])).getLsbD i = (mmSet 64 [y, x]).getLsbD (64 * n + i) :=
    getLsbD_lane hi
  by_cases hlow : k < 64
  · have hlane : lane 64 0 (mmSet 64 [y, x]) = x := lane_setr (by decide)
    have hword := hbit k hlow 0
    rw [hlane, hx k hlow, Nat.mul_zero, Nat.zero_add] at hword
    exact hword.symm
  · have hlane : lane 64 1 (mmSet 64 [y, x]) = y := lane_setr (by decide)
    have hword := hbit (k - 64) (by omega) 1
    rw [hlane, hy _ (by omega), show 64 * 1 + (k - 64) = k by omega, show o + 64 + (k - 64) = o + k by omega] at hword
    exact hword.symm

theorem getLsbD_funnelWords (hsa : sa < 128) (hk : k < 128) :
    (mmSet 64 [(funnelWords rs rt sa).2, (funnelWords rs rt sa).1]).getLsbD k = funnel rs rt (sa + k) := by
  have hlo0 (j : ℕ) (hj : j < 64) : (lane 64 0 rt).getLsbD j = funnel rs rt (0 + j) := getLsbD_low 0 (by omega) hj
  have hlo1 (j : ℕ) (hj : j < 64) : (lane 64 1 rt).getLsbD j = funnel rs rt (64 + j) := getLsbD_low 1 (by omega) hj
  have hhi0 (j : ℕ) (hj : j < 64) : (lane 64 0 rs).getLsbD j = funnel rs rt (128 + j) := getLsbD_high 0 hj
  have hhi1 (j : ℕ) (hj : j < 64) : (lane 64 1 rs).getLsbD j = funnel rs rt (192 + j) := getLsbD_high 1 hj
  refine getLsbD_words (fun j hj => ?_) (fun j hj => ?_) hk
  · rw [funnelWords]
    by_cases hlow : sa < 64
    · rw [if_pos hlow, getLsbD_joined hlo0 hlo1 hlow hj, Nat.zero_add]
    · rw [if_neg hlow]
      by_cases hs : sa - 64 = 0
      · rw [if_pos hs, hlo1 j hj, show sa = 64 by omega]
      · rw [if_neg hs, getLsbD_joined hlo1 hhi0 (by omega) hj, show 64 + (sa - 64) = sa by omega]
  · rw [funnelWords]
    by_cases hlow : sa < 64
    · rw [if_pos hlow, getLsbD_joined hlo1 hhi0 hlow hj, Nat.add_comm 64]
    · rw [if_neg hlow]
      by_cases hs : sa - 64 = 0
      · rw [if_pos hs, hhi0 j hj, show sa = 64 by omega]
      · rw [if_neg hs, getLsbD_joined hhi0 hhi1 (by omega) hj, show 128 + (sa - 64) = sa + 64 by omega]

theorem getLsbD_wordShift {s : ℕ} (hs : s < 64) (hk : k < 128) :
    (mmSrliEpi 64 s a ||| mmSlliEpi 64 (64 - s) (mmSrliSi128 8 a)).getLsbD k = funnel 0 a (s + k) := by
  have hword := getLsbD_lane (i := k / 64) (a := mmSrliEpi 64 s a ||| mmSlliEpi 64 (64 - s) (mmSrliSi128 8 a))
    (Nat.mod_lt k (by decide : 0 < 64))
  rw [Nat.div_add_mod, lane_or, lane_mmSrliEpi (by omega), lane_mmSlliEpi (by omega)] at hword
  have hlow (j : ℕ) (hj : j < 64) : (lane 64 (k / 64) a).getLsbD j = funnel 0 a (64 * (k / 64) + j) :=
    getLsbD_low _ (by omega) hj
  rw [← hword, getLsbD_joined hlow ?_ hs (Nat.mod_lt k (by decide))]
  · exact congrArg (funnel 0 a) (by omega)
  · intro j hj
    rw [getLsbD_lane hj, mmSrliSi128, BitVec.getLsbD_ushiftRight, funnel]
    split
    · exact congrArg a.getLsbD (by omega)
    · rw [BitVec.getLsbD_of_ge a _ (by omega)]
      exact BitVec.getLsbD_zero.symm

/-- **`ps2_qfsrv` is the funnel shift**: the low half of `rs` behind `rt`, shifted right. -/
theorem ps2Qfsrv_eq (rs rt : M128) {sa : ℕ} (hsa : sa < 256) :
    ps2Qfsrv rs rt sa = ((rs ++ rt : BitVec 256) >>> sa).setWidth 128 := by
  apply BitVec.eq_of_getLsbD_eq
  intro k hk
  rw [getLsbD_append_shift hk, ps2Qfsrv]
  by_cases hzero : sa = 0
  · rw [if_pos hzero, funnel, hzero, Nat.zero_add, if_pos hk]
  rw [if_neg hzero]
  by_cases hhigh : 128 ≤ sa
  · rw [if_pos hhigh, if_neg (by omega : ¬256 ≤ sa), funnel, if_neg (by omega : ¬sa + k < 128)]
    dsimp only
    by_cases hshift : sa - 128 = 0
    · rw [if_pos hshift]
      exact congrArg rs.getLsbD (by omega)
    · have hbytes (j : ℕ) (hj : j < 128) :
          (ofLanes 8 fun i => if i + (sa - 128) / 8 < 16 then lane 8 (i + (sa - 128) / 8) rs else 0).getLsbD j =
            rs.getLsbD (8 * ((sa - 128) / 8) + j) := by
        rw [getLsbD_bytes hj]
        split
        · rw [getLsbD_lane (Nat.mod_lt j (by decide))]
          exact congrArg rs.getLsbD (by omega)
        · rw [BitVec.getLsbD_of_ge rs _ (by omega)]
          exact BitVec.getLsbD_zero
      rw [if_neg hshift]
      by_cases hbits : 0 < (sa - 128) % 8
      · rw [if_pos hbits, getLsbD_wordShift (by omega) hk, funnel]
        split
        · next hin =>
          rw [hbytes _ hin]
          exact congrArg rs.getLsbD (by omega)
        · rw [BitVec.getLsbD_of_ge rs _ (by omega)]
          exact BitVec.getLsbD_zero
      · rw [if_neg hbits, hbytes k hk]
        exact congrArg rs.getLsbD (by omega)
  · rw [if_neg hhigh]
    by_cases hbits : 0 < sa % 8
    · rw [if_pos hbits]
      exact getLsbD_funnelWords (by omega) hk
    · rw [if_neg hbits, getLsbD_bytes hk, if_pos (by omega), combined, funnel]
      split
      · rw [if_pos (by omega), getLsbD_lane (Nat.mod_lt k (by decide))]
        exact congrArg rt.getLsbD (by omega)
      · rw [if_neg (by omega), getLsbD_lane (Nat.mod_lt k (by decide))]
        exact congrArg rs.getLsbD (by omega)

theorem ps2Qfsrv_12 : ps2Qfsrv 0x1234 0 12 = ((0x1234#128 ++ 0#128 : BitVec 256) >>> 12).setWidth 128 :=
  ps2Qfsrv_eq 0x1234 0 (by decide)

end Ps2Recomp.Mmi
