import Ps2Recomp.Spec.Mmi
import Mathlib.Tactic.IntervalCases

/-!
# Instructions of one source

The absolute values and the shuffles, whose source is the register of the field `rt`. All but three
are emitted with the field `rs`, and six of them with another permutation.

* `reads_rt_iff`: what is emitted writes the architecture's function of `rt` exactly if the registers
  of the two fields agree as `Matches` says, or the destination is register 0.
-/

namespace Ps2Recomp.Mmi

open Simd Arith

variable {v rs rt : M128} {i : ℕ} {sse41 : Bool}

/-! ## What is emitted, as permutations -/

theorem exchangeHalfwords_eq : exchangeHalfwords v = permute 16 (places [1, 0, 3, 2, 5, 4, 7, 6]) v := by
  apply ext_lanes (w := 16) (by decide)
  intro i hi
  have hi8 : i < 8 := by omega
  rw [exchangeHalfwords, mmShuffleloEpi16, mmShufflehiEpi16, lane_permute hi, lane_permute hi]
  interval_cases i <;> exact lane_permute (by decide)

theorem ps2Pexew_eq : ps2Pexew v = permute 32 (places [1, 0, 3, 2]) v :=
  permute_congr (n := 4) rfl (by decide) (by decide)

theorem rotateWords_eq : rotateWords v = permute 32 (places [1, 2, 3, 0]) v :=
  permute_congr (n := 4) rfl (by decide) (by decide)

theorem exchangeWords_eq : exchangeWords v = permute 32 (places [2, 3, 0, 1]) v :=
  permute_congr (n := 4) rfl (by decide) (by decide)

theorem copyHalfword_eq : copyHalfword v = permute 16 (places [0, 0, 0, 0, 4, 4, 4, 4]) v := by
  apply ext_lanes (w := 16) (by decide)
  intro i hi
  have hi8 : i < 8 := by omega
  rw [copyHalfword, mmSet, lane_setr hi, lane_permute hi]
  interval_cases i <;> rfl

theorem lane_reverseBytes (hi : 8 * (i + 1) ≤ 128) :
    lane 8 i (reverseHalfwords v) = lane 8 (places [14, 15, 12, 13, 10, 11, 8, 9, 6, 7, 4, 5, 2, 3, 0, 1] i) v := by
  have hi16 : i < 16 := by omega
  rw [reverseHalfwords, mmShuffleEpi8, lane_ofLanes hi, lane_setr hi]
  interval_cases i <;> rfl

theorem reverseHalfwords_eq : reverseHalfwords v = permute 16 (places [7, 6, 5, 4, 3, 2, 1, 0]) v := by
  apply ext_lanes (w := 16) (by decide)
  intro i hi
  have hi8 : i < 8 := by omega
  rw [lane_permute hi]
  calc lane 16 i (reverseHalfwords v)
      = lane 8 (2 * i + 1) (reverseHalfwords v) ++ lane 8 (2 * i) (reverseHalfwords v) := lane_double (w := 8)
    _ = lane 8 (2 * (7 - i) + 1) v ++ lane 8 (2 * (7 - i)) v := by
        rw [lane_reverseBytes (by omega), lane_reverseBytes (by omega)]
        interval_cases i <;> rfl
    _ = lane 16 (7 - i) v := (lane_double (w := 8)).symm
    _ = lane 16 (places [7, 6, 5, 4, 3, 2, 1, 0] i) v := by interval_cases i <;> rfl

/-! ## Lanes of their own -/

/-- The absolute value, with the greatest number for that of the least. -/
def saturatingAbs (w : ℕ) (x : BitVec w) : BitVec w := clampS w |x.toInt|

theorem toNat_abs_eq_natAbs {w : ℕ} (x : BitVec w) : x.abs.toNat = x.toInt.natAbs := by
  have hlt := x.isLt
  rw [BitVec.toNat_abs, BitVec.toInt_eq_msb_cond]
  split
  · omega
  · omega

theorem toNat_saturatingAbs {w : ℕ} (hw : 0 < w) (x : BitVec w) :
    (saturatingAbs w x).toNat = min x.toInt.natAbs (2 ^ (w - 1) - 1) := by
  have hone := Nat.one_le_two_pow (n := w - 1)
  rw [saturatingAbs, ← Int.natCast_natAbs]
  rcases lt_or_ge x.toInt.natAbs (2 ^ (w - 1)) with h | h
  · have hcast : (x.toInt.natAbs : ℤ) < 2 ^ (w - 1) := by exact_mod_cast h
    have hsplit : 2 ^ w = 2 * 2 ^ (w - 1) := by rw [← pow_succ', Nat.sub_add_cancel hw]
    have hneg : -(2 : ℤ) ^ (w - 1) ≤ 0 := neg_nonpos.2 (Int.pow_nonneg (by decide))
    rw [clampS_of_fits (by omega) hcast, BitVec.ofInt_natCast, BitVec.toNat_ofNat,
      Nat.mod_eq_of_lt (by omega), min_eq_left (by omega)]
  · rw [clampS_of_ge hw (by exact_mod_cast h), BitVec.toNat_intMax, min_eq_right (by omega)]

theorem abs_eq_saturatingAbs {w : ℕ} (hw : 0 < w) (x y : BitVec w) :
    x.abs = saturatingAbs w y ↔ x.toInt.natAbs = min y.toInt.natAbs (2 ^ (w - 1) - 1) := by
  rw [← BitVec.toNat_inj, toNat_abs_eq_natAbs, toNat_saturatingAbs hw]

theorem mmAbsEpi_eq_iff {w n : ℕ} (hn : w * n = 128) (hw : 0 < w) : mmAbsEpi w rs = map1 w (saturatingAbs w) rt ↔
    ∀ i < n, (lane w i rs).toInt.natAbs = min (lane w i rt).toInt.natAbs (2 ^ (w - 1) - 1) := by
  have hlane : ∀ {i}, i < n ↔ w * (i + 1) ≤ 128 := by
    intro i
    rw [← hn, Nat.mul_le_mul_left_iff hw, Nat.succ_le_iff]
  constructor
  · intro heq i hi
    have hi' := congrArg (lane w i) heq
    rw [mmAbsEpi, lane_map1 _ (hlane.1 hi), lane_map1 _ (hlane.1 hi)] at hi'
    exact (abs_eq_saturatingAbs hw _ _).1 hi'
  · intro heq
    apply ext_lanes ⟨n, hn.symm⟩
    intro i hi
    rw [mmAbsEpi, lane_map1 _ hi, lane_map1 _ hi]
    exact (abs_eq_saturatingAbs hw _ _).2 (heq i (hlane.2 hi))

/-- A word of the fields 1-5-5-5 in bytes of their own, at the upper end of each. -/
def expandWord (x : BitVec 32) : BitVec 32 :=
  (((x.extractLsb' 15 1 ++ 0#7) ++ (x.extractLsb' 10 5 ++ 0#3)) ++ (x.extractLsb' 5 5 ++ 0#3)) ++
    (x.extractLsb' 0 5 ++ 0#3)

/-- The upper bits of the four bytes as the fields 1-5-5-5. -/
def packWord (x : BitVec 32) : BitVec 32 :=
  (((0#16 ++ x.extractLsb' 31 1) ++ x.extractLsb' 19 5) ++ x.extractLsb' 11 5) ++ x.extractLsb' 3 5

theorem expand5_eq : expand5 v = map1 32 expandWord v := by
  apply ext_lanes (w := 32) (by decide)
  intro i hi
  rw [expand5]
  simp only [lane_or, lane_mmSlliEpi hi, lane_and, lane_set1 _ hi, lane_map1 _ hi, expandWord]
  apply BitVec.eq_of_getLsbD_eq
  intro j hj
  simp only [BitVec.getLsbD_or, BitVec.getLsbD_shiftLeft, BitVec.getLsbD_and, BitVec.getLsbD_append,
    BitVec.getLsbD_extractLsb']
  interval_cases j <;> simp

theorem pack5_eq : pack5 v = map1 32 packWord v := by
  apply ext_lanes (w := 32) (by decide)
  intro i hi
  rw [pack5]
  simp only [lane_or, lane_mmSrliEpi hi, lane_and, lane_set1 _ hi, lane_map1 _ hi, packWord]
  apply BitVec.eq_of_getLsbD_eq
  intro j hj
  simp only [BitVec.getLsbD_or, BitVec.getLsbD_ushiftRight, BitVec.getLsbD_and, BitVec.getLsbD_append,
    BitVec.getLsbD_extractLsb']
  interval_cases j <;> simp

/-! ## The instructions -/

inductive Unary
  | pabsw | pabsh | pexeh | prevh | pexew | prot3w | pexch | pexcw | pcpyh | pext5 | ppac5
  deriving DecidableEq, Repr

namespace Unary

def function : Unary → BitVec 6
  | pext5 | ppac5 => mmiMmi0
  | pabsw | pabsh => mmiMmi1
  | pexeh | prevh | pexew | prot3w => mmiMmi2
  | pexch | pexcw | pcpyh => mmiMmi3

def subfunc : Unary → Reg
  | pabsw => 0x01
  | pabsh => 0x05
  | pexeh | pexch => 0x1A
  | prevh | pcpyh => 0x1B
  | pexew | pexcw | pext5 => 0x1E
  | prot3w | ppac5 => 0x1F

def Encodes (op : Unary) (inst : Instruction) : Prop :=
  inst.opcode = .mmi ∧ inst.function = op.function ∧ inst.sa = op.subfunc

/-- The register that the emitted expression reads. -/
def source (op : Unary) (inst : Instruction) : Reg :=
  match op with
  | pcpyh | pext5 | ppac5 => inst.rt
  | _ => inst.rs

/-- The emitted expression, of that register. -/
def expression : Unary → M128 → M128
  | pabsw => mmAbsEpi 32
  | pabsh => mmAbsEpi 16
  | pexeh => exchangeHalfwords
  | prevh => reverseHalfwords
  | pexew => ps2Pexew
  | prot3w => rotateWords
  | pexch => exchangeHalfwords
  | pexcw => exchangeWords
  | pcpyh => copyHalfword
  | pext5 => expand5
  | ppac5 => pack5

/-- The architecture's function of `rt`; for a shuffle, the places the lanes are taken from. -/
def architecture : Unary → M128 → M128
  | pabsw => map1 32 (saturatingAbs 32)
  | pabsh => map1 16 (saturatingAbs 16)
  | pexeh => permute 16 (places [2, 1, 0, 3, 6, 5, 4, 7])
  | prevh => permute 16 (places [3, 2, 1, 0, 7, 6, 5, 4])
  | pexew => permute 32 (places [2, 1, 0, 3])
  | prot3w => permute 32 (places [1, 2, 0, 3])
  | pexch => permute 16 (places [0, 2, 1, 3, 4, 6, 5, 7])
  | pexcw => permute 32 (places [0, 2, 1, 3])
  | pcpyh => permute 16 (places [0, 0, 0, 0, 4, 4, 4, 4])
  | pext5 => map1 32 expandWord
  | ppac5 => map1 32 packWord

/-- Each lane of `rs` has the magnitude of that of `rt`, up to the greatest number. -/
def SameMagnitude (w n : ℕ) (rs rt : M128) : Prop :=
  ∀ i < n, (lane w i rs).toInt.natAbs = min (lane w i rt).toInt.natAbs (2 ^ (w - 1) - 1)

/-- The lanes of `rs` are those of `rt` at the listed places. -/
def Rearranged (w : ℕ) (l : List ℕ) (rs rt : M128) : Prop :=
  ∀ i < l.length, lane w i rs = lane w (places l i) rt

/-- When reading `rs` does no harm. -/
def Matches (op : Unary) (rs rt : M128) : Prop :=
  match op with
  | pabsw => SameMagnitude 32 4 rs rt
  | pabsh => SameMagnitude 16 8 rs rt
  | pexeh => Rearranged 16 [1, 2, 3, 0, 5, 6, 7, 4] rs rt
  | prevh => Rearranged 16 [4, 5, 6, 7, 0, 1, 2, 3] rs rt
  | pexew => Rearranged 32 [1, 2, 3, 0] rs rt
  | prot3w => Rearranged 32 [3, 1, 2, 0] rs rt
  | pexch => Rearranged 16 [2, 0, 3, 1, 6, 4, 7, 5] rs rt
  | pexcw => Rearranged 32 [1, 3, 0, 2] rs rt
  | pcpyh | pext5 | ppac5 => True

/-- Those the architecture has as involutions. -/
def SelfInverse : Unary → Prop
  | pexeh | prevh | pexew | pexch | pexcw => True
  | _ => False

theorem translate_eq {op : Unary} {inst : Instruction} (h : op.Encodes inst) :
    Arith.translate sse41 inst = some (vec1 inst (op.source inst) op.expression) := by
  obtain ⟨hop, hfun, hsa⟩ := h
  rw [Arith.translate, hop]
  dsimp only
  rw [translateMmi, hfun, translateMMI0Instruction, translateMMI1Instruction, translateMMI2Instruction,
    translateMMI3Instruction, hsa]
  cases op <;> rfl

theorem expression_eq_iff (op : Unary) (inst : Instruction) (c : GuestCtx) : op.expression (c.gprVec (op.source inst)) =
    op.architecture (c.gprVec inst.rt) ↔ op.Matches (c.gprVec inst.rs) (c.gprVec inst.rt) := by
  cases op with
  | pabsw => exact mmAbsEpi_eq_iff rfl (by decide)
  | pabsh => exact mmAbsEpi_eq_iff rfl (by decide)
  | pexeh =>
    simp only [expression, architecture, source, exchangeHalfwords_eq]
    exact permute_eq_iff (r := places [1, 0, 3, 2, 5, 4, 7, 6]) rfl (by decide) (by decide)
  | prevh =>
    simp only [expression, architecture, source, reverseHalfwords_eq]
    exact permute_eq_iff (r := places [7, 6, 5, 4, 3, 2, 1, 0]) rfl (by decide) (by decide)
  | pexew =>
    simp only [expression, architecture, source, ps2Pexew_eq]
    exact permute_eq_iff (r := places [1, 0, 3, 2]) rfl (by decide) (by decide)
  | prot3w =>
    simp only [expression, architecture, source, rotateWords_eq]
    exact permute_eq_iff (r := places [3, 0, 1, 2]) rfl (by decide) (by decide)
  | pexch =>
    simp only [expression, architecture, source, exchangeHalfwords_eq]
    exact permute_eq_iff (r := places [1, 0, 3, 2, 5, 4, 7, 6]) rfl (by decide) (by decide)
  | pexcw =>
    simp only [expression, architecture, source, exchangeWords_eq]
    exact permute_eq_iff (r := places [2, 3, 0, 1]) rfl (by decide) (by decide)
  | pcpyh => exact iff_of_true copyHalfword_eq trivial
  | pext5 => exact iff_of_true expand5_eq trivial
  | ppac5 => exact iff_of_true pack5_eq trivial

theorem expression_expression (op : Unary) (h : op.SelfInverse) (v : M128) : op.expression (op.expression v) = v := by
  cases op with
  | pexeh | pexch =>
    simp only [expression, exchangeHalfwords_eq]
    exact permute_involutive (n := 8) rfl (by decide) (by decide)
  | prevh =>
    simp only [expression, reverseHalfwords_eq]
    exact permute_involutive (n := 8) rfl (by decide) (by decide)
  | pexew =>
    simp only [expression, ps2Pexew_eq]
    exact permute_involutive (n := 4) rfl (by decide) (by decide)
  | pexcw =>
    simp only [expression, exchangeWords_eq]
    exact permute_involutive (n := 4) rfl (by decide) (by decide)
  | pabsw | pabsh | prot3w | pcpyh | pext5 | ppac5 => exact h.elim

end Unary

/-- Two writes of one register leave the same state exactly if the values agree or it is `$zero`. -/
theorem setGprVec_inj (c : GuestCtx) (reg : Reg) (x y : M128) :
    c.setGprVec reg x = c.setGprVec reg y ↔ reg = 0 ∨ x = y := by
  unfold Ctx.setGprVec
  by_cases h0 : reg = 0
  · simp [h0]
  · rw [if_neg h0, if_neg h0, or_iff_right h0]
    constructor
    · intro heq
      have hreg := congrFun (congrArg Ctx.r heq) reg
      dsimp only at hreg
      rwa [Function.update_self, Function.update_self] at hreg
    · rintro rfl
      rfl

/-- **Instructions of one source write the architecture's function of `rt` exactly where the register
they read happens to match it.** -/
theorem reads_rt_iff (sse41 : Bool) (op : Unary) (inst : Instruction) (h : op.Encodes inst) :
    Arith.translate sse41 inst = some (vec1 inst (op.source inst) op.expression) ∧
      (∀ c : GuestCtx,
        vec1 inst (op.source inst) op.expression c =
            some (c.setGprVec inst.rd (op.architecture (c.gprVec inst.rt))) ↔
          inst.rd = 0 ∨ op.Matches (c.gprVec inst.rs) (c.gprVec inst.rt)) ∧
      (op.SelfInverse → ∀ v, op.expression (op.expression v) = v) := by
  refine ⟨Unary.translate_eq h, ?_, op.expression_expression⟩
  intro c
  rw [vec1, Option.some.injEq, setGprVec_inj, op.expression_eq_iff]

/-- `pexew $3, $5` with `$zero` in the field that is read. -/
def pexewInst : Instruction :=
  { opcode := .mmi, function := mmiMmi2, rs := 0, rt := 5, rd := 3, sa := 0x1E }

theorem pexew_reads_zero :
    vec1 pexewInst (Unary.pexew.source pexewInst) Unary.pexew.expression (.ofRegisters (fun _ => 0) {}) =
      some ((Ctx.ofRegisters (fun _ => 0) {}).setGprVec 3 (Unary.pexew.architecture 0)) :=
  ((reads_rt_iff true .pexew pexewInst ⟨rfl, rfl, rfl⟩).2.1 (.ofRegisters (fun _ => 0) {})).2
    (Or.inr (show ∀ i < 4, lane 32 i 0 = lane 32 (places [1, 2, 3, 0] i) 0 by decide +kernel))

/-- With the words 1, 2, 3, 4 in `$5` nothing of them reaches `$3`. -/
theorem pexew_ignores_rt :
    Arith.translate true pexewInst = some (vec1 pexewInst 0 Unary.pexew.expression) ∧
      (vec1 pexewInst 0 Unary.pexew.expression
          (.ofRegisters (fun _ => mmSetr 32 [1, 2, 3, 4]) {})).map (·.gprVec 3) = some 0 ∧
      Unary.pexew.architecture (mmSetr 32 [1, 2, 3, 4]) = mmSetr 32 [3, 2, 1, 4] := by
  refine ⟨rfl, ?_, ?_⟩
  · decide +kernel
  · decide +kernel

end Ps2Recomp.Mmi
