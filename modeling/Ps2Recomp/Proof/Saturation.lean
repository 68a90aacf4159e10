import Ps2Recomp.Spec.Mmi

/-!
# Packed saturating arithmetic

The twelve instructions, lane by lane. The words are computed from wrapped sums: `lane_ps2Paddsw` and
the three lemmas after it say that these clamp. The unsigned halfwords are added and subtracted with
the wrapping instructions.

* `saturates_iff`: what is emitted clamps every lane, but for the unsigned halfwords, where it does
  exactly if no lane leaves the range.
-/

namespace Ps2Recomp.Mmi

open Simd Arith

variable {a b : M128} {i : ℕ} {sse41 : Bool}

/-! ## The words -/

theorem int32Min_eq : int32Min = BitVec.intMin 32 := rfl

theorem int32Max_eq : int32Max = BitVec.intMax 32 := rfl

section

variable (hi : 32 * (i + 1) ≤ 128)

include hi

/-- With either instruction set a mask of whole lanes chooses between two registers. -/
theorem lane_select {m x y : M128} {p : Prop} [Decidable p] (hm : lane 32 i m = if p then BitVec.allOnes 32 else 0) :
    lane 32 i (select sse41 m x y) = if p then lane 32 i x else lane 32 i y := by
  cases sse41
  · rw [select, if_neg Bool.false_ne_true, lane_or, lane_and, lane_andnot hi, hm]
    by_cases hp : p
    · rw [if_pos hp, if_pos hp, BitVec.allOnes_and, BitVec.not_allOnes, BitVec.zero_and, BitVec.or_zero]
    · rw [if_neg hp, if_neg hp]
      exact (congrArg₂ _ BitVec.zero_and BitVec.allOnes_and).trans BitVec.zero_or
  · rw [select, if_pos rfl]
    exact lane_blendv (by decide) hi hm

theorem lane_limit :
    lane 32 i (select sse41 (mmSraiEpi 32 31 a) (mmSet1Epi 32 int32Min) (mmSet1Epi 32 int32Max)) =
      if (lane 32 i a).msb then BitVec.intMin 32 else BitVec.intMax 32 := by
  rw [lane_select hi (lane_mmSraiEpi_top (by decide) hi), lane_set1 _ hi, lane_set1 _ hi, int32Min_eq, int32Max_eq]

theorem lane_ps2Paddsw : lane 32 i (ps2Paddsw sse41 a b) = clampS 32 ((lane 32 i a).toInt + (lane 32 i b).toInt) := by
  rw [clampS_add _ _ (by decide), ps2Paddsw]
  rw [lane_select hi (lane_mmSraiEpi_top (by decide) hi), lane_limit hi, lane_and, lane_xor, lane_xor, lane_mmAddEpi hi]

theorem lane_ps2Psubsw : lane 32 i (ps2Psubsw sse41 a b) = clampS 32 ((lane 32 i a).toInt - (lane 32 i b).toInt) := by
  rw [clampS_sub _ _ (by decide), ps2Psubsw]
  rw [lane_select hi (lane_mmSraiEpi_top (by decide) hi), lane_limit hi, lane_and, lane_xor, lane_xor, lane_mmSubEpi hi]

/-- A signed comparison of registers with their sign bits turned over is an unsigned one. -/
theorem lane_unsigned_gt :
    lane 32 i (mmCmpgtEpi 32 (a ^^^ mmSet1Epi 32 int32Min) (b ^^^ mmSet1Epi 32 int32Min)) =
      if (lane 32 i b).toNat < (lane 32 i a).toNat then BitVec.allOnes 32 else 0 := by
  rw [mmCmpgtEpi, lane_map2 _ hi, lane_xor, lane_xor, lane_set1 _ hi, int32Min_eq]
  exact if_congr (xor_intMin_lt _ _ (by decide)) rfl rfl

theorem lane_ps2Paddu32 : lane 32 i (ps2Paddu32 a b) = clampU 32 ((lane 32 i a).toNat + (lane 32 i b).toNat) := by
  rw [clampU_add, ps2Paddu32]
  rw [lane_or, lane_unsigned_gt hi, lane_mmAddEpi hi]
  split
  · exact BitVec.or_allOnes
  · exact BitVec.or_zero

theorem lane_ps2Psubu32 : lane 32 i (ps2Psubu32 a b) = clampU 32 ((lane 32 i a).toNat - (lane 32 i b).toNat) := by
  rw [clampU_sub, ps2Psubu32]
  rw [lane_andnot hi, lane_unsigned_gt hi, lane_mmSubEpi hi]
  split
  · rw [BitVec.not_allOnes]
    exact BitVec.zero_and
  · exact BitVec.allOnes_and

end

/-! ## The instructions -/

inductive Saturating
  | paddsb | paddsh | paddsw | psubsb | psubsh | psubsw
  | paddub | padduh | padduw | psubub | psubuh | psubuw
  deriving DecidableEq, Repr

namespace Saturating

def width : Saturating → ℕ
  | paddsb | psubsb | paddub | psubub => 8
  | paddsh | psubsh | padduh | psubuh => 16
  | paddsw | psubsw | padduw | psubuw => 32

def signed : Saturating → Bool
  | paddsb | paddsh | paddsw | psubsb | psubsh | psubsw => true
  | paddub | padduh | padduw | psubub | psubuh | psubuw => false

def subtracts : Saturating → Bool
  | paddsb | paddsh | paddsw | paddub | padduh | padduw => false
  | psubsb | psubsh | psubsw | psubub | psubuh | psubuw => true

/-- A lane of the architecture's result. -/
def clamped (op : Saturating) (x y : BitVec op.width) : BitVec op.width :=
  if op.signed then clampS op.width (if op.subtracts then x.toInt - y.toInt else x.toInt + y.toInt)
  else clampU op.width (if op.subtracts then x.toNat - y.toNat else x.toNat + y.toNat)

/-- The expression that is emitted, of the two source registers. -/
def expression (sse41 : Bool) : Saturating → M128 → M128 → M128
  | paddsb => mmAddsEpi 8
  | paddsh => mmAddsEpi 16
  | paddsw => ps2Paddsw sse41
  | psubsb => mmSubsEpi 8
  | psubsh => mmSubsEpi 16
  | psubsw => ps2Psubsw sse41
  | paddub => mmAddsEpu 8
  | padduh => mmAddEpi 16
  | padduw => ps2Paddu32
  | psubub => mmSubsEpu 8
  | psubuh => mmSubEpi 16
  | psubuw => ps2Psubu32

/-- The two fields of the encoding. -/
def function (op : Saturating) : BitVec 6 := if op.signed then mmiMmi0 else mmiMmi1

def subfunc : Saturating → Reg
  | paddsw | padduw => 0x10
  | psubsw | psubuw => 0x11
  | paddsh | padduh => 0x14
  | psubsh | psubuh => 0x15
  | paddsb | paddub => 0x18
  | psubsb | psubub => 0x19

def Encodes (op : Saturating) (inst : Instruction) : Prop :=
  inst.opcode = .mmi ∧ inst.function = op.function ∧ inst.sa = op.subfunc

/-- No unsigned halfword leaves the range. -/
def InRange (op : Saturating) (a b : M128) : Prop :=
  match op with
  | padduh => ∀ i < 8, (lane 16 i a).toNat + (lane 16 i b).toNat < 65536
  | psubuh => ∀ i < 8, (lane 16 i b).toNat ≤ (lane 16 i a).toNat
  | _ => True

theorem translate_eq {op : Saturating} {inst : Instruction} (h : op.Encodes inst) :
    Arith.translate sse41 inst = some (vec2 inst (op.expression sse41)) := by
  obtain ⟨hop, hfun, hsa⟩ := h
  rw [Arith.translate, hop]
  dsimp only
  rw [translateMmi, hfun, translateMMI0Instruction, translateMMI1Instruction, hsa]
  cases op <;> rfl

section Clamped

variable (op : Saturating) {x y : BitVec op.width}

theorem clamped_adds (hs : op.signed = true) (ht : op.subtracts = false) :
    op.clamped x y = clampS op.width (x.toInt + y.toInt) := by rw [clamped, if_pos hs, ht]; rfl

theorem clamped_subs (hs : op.signed = true) (ht : op.subtracts = true) :
    op.clamped x y = clampS op.width (x.toInt - y.toInt) := by rw [clamped, if_pos hs, if_pos ht]

theorem clamped_addu (hs : op.signed = false) (ht : op.subtracts = false) :
    op.clamped x y = clampU op.width (x.toNat + y.toNat) := by rw [clamped, hs, ht]; rfl

theorem clamped_subu (hs : op.signed = false) (ht : op.subtracts = true) :
    op.clamped x y = clampU op.width (x.toNat - y.toNat) := by
  rw [clamped, hs, if_neg Bool.false_ne_true, if_pos ht]

end Clamped

theorem lane_expression (op : Saturating) (hadd : op ≠ padduh) (hsub : op ≠ psubuh) (hi : op.width * (i + 1) ≤ 128) :
    lane op.width i (op.expression sse41 a b) = op.clamped (lane op.width i a) (lane op.width i b) := by
  cases op with
  | paddsb => exact (lane_mmAddsEpi hi).trans (clamped_adds paddsb rfl rfl).symm
  | paddsh => exact (lane_mmAddsEpi hi).trans (clamped_adds paddsh rfl rfl).symm
  | paddsw => exact (lane_ps2Paddsw hi).trans (clamped_adds paddsw rfl rfl).symm
  | psubsb => exact (lane_mmSubsEpi hi).trans (clamped_subs psubsb rfl rfl).symm
  | psubsh => exact (lane_mmSubsEpi hi).trans (clamped_subs psubsh rfl rfl).symm
  | psubsw => exact (lane_ps2Psubsw hi).trans (clamped_subs psubsw rfl rfl).symm
  | paddub => exact (lane_mmAddsEpu hi).trans (clamped_addu paddub rfl rfl).symm
  | padduw => exact (lane_ps2Paddu32 hi).trans (clamped_addu padduw rfl rfl).symm
  | psubub => exact (lane_mmSubsEpu hi).trans (clamped_subu psubub rfl rfl).symm
  | psubuw => exact (lane_ps2Psubu32 hi).trans (clamped_subu psubuw rfl rfl).symm
  | padduh => exact absurd rfl hadd
  | psubuh => exact absurd rfl hsub

end Saturating

theorem halfwords_iff {P Q : ℕ → Prop} (h : ∀ i, 16 * (i + 1) ≤ 128 → (P i ↔ Q i)) :
    (∀ i, 16 * (i + 1) ≤ 128 → P i) ↔ ∀ i < 8, Q i := by
  constructor
  · intro hp i hi
    have hi : 16 * (i + 1) ≤ 128 := by omega
    exact (h i hi).1 (hp i hi)
  · intro hq i hi
    exact (h i hi).2 (hq i (by omega))

/-- **Packed saturating arithmetic: every lane is clamped, but for the unsigned halfwords.** -/
theorem saturates_iff (sse41 : Bool) (op : Saturating) (inst : Instruction) (h : op.Encodes inst) :
    Arith.translate sse41 inst = some (vec2 inst (op.expression sse41)) ∧
      ∀ a b, (∀ i, op.width * (i + 1) ≤ 128 →
          lane op.width i (op.expression sse41 a b) =
            op.clamped (lane op.width i a) (lane op.width i b)) ↔ op.InRange a b := by
  refine ⟨Saturating.translate_eq h, ?_⟩
  intro a b
  by_cases hadd : op = .padduh
  · subst hadd
    apply halfwords_iff
    intro i hi
    rw [Saturating.clamped_addu .padduh rfl rfl]
    exact (lane_mmAddEpi hi ▸ add_eq_clampU (lane 16 i a) (lane 16 i b))
  by_cases hsub : op = .psubuh
  · subst hsub
    apply halfwords_iff
    intro i hi
    rw [Saturating.clamped_subu .psubuh rfl rfl]
    exact (lane_mmSubEpi hi ▸ sub_eq_clampU (lane 16 i a) (lane 16 i b))
  · constructor
    · intro _
      cases op <;> first | exact trivial | contradiction
    · intro _ i hi
      exact op.lane_expression hadd hsub hi

theorem paddsw_saturates :
    lane 32 0 (Saturating.expression true .paddsw 0x7FFFFFFF 1) =
      Saturating.clamped .paddsw (lane 32 0 0x7FFFFFFF) (lane 32 0 1) :=
  ((saturates_iff true .paddsw { opcode := .mmi, function := mmiMmi0, sa := 0x10 }
    ⟨rfl, rfl, rfl⟩).2 0x7FFFFFFF 1).2 trivial 0 (by decide)

/-- `0xFFFF` and 1 in the lowest halfword: the sum is 0. -/
theorem padduh_wraps :
    Arith.translate true { opcode := .mmi, function := mmiMmi1, rs := 4, rt := 5, rd := 3, sa := 0x14 } =
        some (vec2 { opcode := .mmi, function := mmiMmi1, rs := 4, rt := 5, rd := 3, sa := 0x14 }
          (Saturating.expression true .padduh)) ∧
      lane 16 0 (Saturating.expression true .padduh 0xFFFF 1) = 0 ∧
      Saturating.clamped .padduh (lane 16 0 0xFFFF) (lane 16 0 1) = 0xFFFF := by
  refine ⟨rfl, ?_, ?_⟩
  · decide +kernel
  · decide +kernel

end Ps2Recomp.Mmi
