import Ps2Recomp.Spec.Mmi
import Mathlib.Tactic.IntervalCases

/-!
# The divisions

Which of the emitted divisions evaluate an undefined quotient, and what they leave in the registers
of the multiplier where the architecture has no quotient: for a divisor of zero, and for the least
number divided by -1.

* `divide_safe_iff`: the four divisions of one word never do, and leave the values of `DIV` and `DIVU`. The
  packed ones do so only under the conditions of `Guarded`.
-/

namespace Ps2Recomp

open Simd CxxInt

namespace Ctx

variable (c : GuestCtx) (reg : Reg)

/-- The first word of a register. -/
theorem lane_gprVec : lane 32 0 (c.gprVec reg) = c.gprU32 reg := by
  unfold gprVec gprU32 lane
  split
  · rfl
  · exact (BitVec.setWidth_eq_extractLsb' (by decide)).symm

end Ctx

namespace Arith

variable {inst : Instruction} {c : GuestCtx} {set : GuestCtx → BitVec 64 → BitVec 64 → GuestCtx}

/-! ## The division of one word -/

theorem divOverflows_iff {a b : Word} : DivOverflows a b ↔ b = -1 ∧ a = Mmi.int32Min := And.comm

/-- What `DIV` assigns to LO and HI where there is no quotient. -/
def divLo (dividend divisor : Word) : BitVec 64 :=
  if divisor = 0 then if dividend.msb then 1 else 0xFFFFFFFFFFFFFFFF
  else Mmi.int32Min.signExtend 64

def divHi (dividend divisor : Word) : BitVec 64 := if divisor = 0 then dividend.signExtend 64 else 0

theorem divide_zero (h0 : c.gprU32 inst.rt = 0) : divide inst set c =
    some (set c (divLo (c.gprU32 inst.rs) (c.gprU32 inst.rt)) (divHi (c.gprU32 inst.rs) (c.gprU32 inst.rt))) := by
  rw [divide, divLo, divHi, if_pos h0, if_pos h0]
  exact if_neg (not_not.2 h0)

theorem divide_overflow (h : DivOverflows (c.gprU32 inst.rs) (c.gprU32 inst.rt)) : divide inst set c =
    some (set c (divLo (c.gprU32 inst.rs) (c.gprU32 inst.rt)) (divHi (c.gprU32 inst.rs) (c.gprU32 inst.rt))) := by
  have h0 : c.gprU32 inst.rt ≠ 0 := by rw [h.2]; decide
  rw [divide, divLo, divHi, if_neg h0, if_neg h0]
  exact (if_pos h0).trans (if_pos (divOverflows_iff.1 h))

theorem divide_quotient (h0 : c.gprU32 inst.rt ≠ 0) (h : ¬DivOverflows (c.gprU32 inst.rs) (c.gprU32 inst.rt)) :
    divide inst set c =
      some (set c (((c.gprU32 inst.rs).sdiv (c.gprU32 inst.rt)).signExtend 64)
        (((c.gprU32 inst.rs).srem (c.gprU32 inst.rt)).signExtend 64)) := by
  have hguard := fun h' => h (divOverflows_iff.2 h')
  rw [divide, sdiv_eq_some h0 h, srem_eq_some h0 h]
  exact (if_pos h0).trans (if_neg hguard)

/-- Whatever the pair of registers, the division has a value, and the same for every pair. -/
theorem divide_isSome (inst : Instruction) (c : GuestCtx) : ∃ lo hi, ∀ set, divide inst set c = some (set c lo hi) := by
  by_cases h0 : c.gprU32 inst.rt = 0
  · exact ⟨_, _, fun set => divide_zero h0⟩
  by_cases h : DivOverflows (c.gprU32 inst.rs) (c.gprU32 inst.rt)
  · exact ⟨_, _, fun set => divide_overflow h⟩
  · exact ⟨_, _, fun set => divide_quotient h0 h⟩

theorem divideU_zero (h0 : c.gprU32 inst.rt = 0) :
    divideU inst set c =
      some (set c 0xFFFFFFFFFFFFFFFF ((c.gprU32 inst.rs).signExtend 64)) := if_neg (not_not.2 h0)

theorem divideU_quotient (h0 : c.gprU32 inst.rt ≠ 0) :
    divideU inst set c =
      some (set c ((c.gprU32 inst.rs / c.gprU32 inst.rt).signExtend 64)
        ((c.gprU32 inst.rs % c.gprU32 inst.rt).signExtend 64)) := by
  rw [divideU, udiv_eq_some h0, urem_eq_some h0]
  exact if_pos h0

theorem divideU_isSome (inst : Instruction) (c : GuestCtx) :
    ∃ lo hi, ∀ set, divideU inst set c = some (set c lo hi) := by
  by_cases h0 : c.gprU32 inst.rt = 0
  · exact ⟨_, _, fun set => divideU_zero h0⟩
  · exact ⟨_, _, fun set => divideU_quotient h0⟩

/-! ## The packed divisions -/

theorem pdivw_zero (h0 : c.gprU32 inst.rt = 0) :
    translatePDIVW inst c =
      some (leaveQuotient inst c (if (c.gprU32 inst.rs).msb then 1 else -1)
        ((c.gprU32 inst.rs).setWidth 64)) := if_neg (not_not.2 h0)

theorem pdivw_overflow (h : DivOverflows (c.gprU32 inst.rs) (c.gprU32 inst.rt)) :
    translatePDIVW inst c = some (leaveQuotient inst c (Mmi.int32Min.setWidth 64) 0) := by
  have h0 : c.gprU32 inst.rt ≠ 0 := by rw [h.2]; decide
  exact (if_pos h0).trans (if_pos (divOverflows_iff.1 h))

theorem pdivw_quotient (h0 : c.gprU32 inst.rt ≠ 0) (h : ¬DivOverflows (c.gprU32 inst.rs) (c.gprU32 inst.rt)) :
    ∃ lo hi, translatePDIVW inst c = some (leaveQuotient inst c lo hi) := by
  have hguard := fun h' => h (divOverflows_iff.2 h')
  rw [translatePDIVW, sdiv_eq_some h0 h, srem_eq_some h0 h]
  exact ⟨_, _, (if_pos h0).trans (if_neg hguard)⟩

theorem pdivuw_zero (h0 : c.gprU32 inst.rt = 0) : translatePDIVUW inst c =
    some (leaveQuotient inst c 0xFFFFFFFF ((c.gprU32 inst.rs).setWidth 64)) :=
  if_neg (not_not.2 h0)

theorem pdivuw_quotient (h0 : c.gprU32 inst.rt ≠ 0) :
    ∃ lo hi, translatePDIVUW inst c = some (leaveQuotient inst c lo hi) := by
  rw [translatePDIVUW, udiv_eq_some h0, urem_eq_some h0]
  exact ⟨_, _, if_pos h0⟩

/-- Some word of the dividend has no quotient by the one divisor. -/
def WordOverflows (inst : Instruction) (c : GuestCtx) : Prop :=
  ∃ k < 4, DivOverflows (lane 32 k (c.gprVec inst.rs)) (c.gprU32 inst.rt)

theorem pdivbw_zero (h0 : c.gprU32 inst.rt = 0) :
    translatePDIVBW inst c =
      some ((c.setLoHi (if (c.gprU32 inst.rs).msb then 1 else -1)
        ((c.gprU32 inst.rs).setWidth 64)).setGprVec inst.rd (mmSet 32 [0, 0, 0, 0])) := by
  rw [translatePDIVBW]
  simp only [Ctx.lane_gprVec]
  exact if_neg (not_not.2 h0)

theorem pdivbw_quotient (h0 : c.gprU32 inst.rt ≠ 0) (h : ¬WordOverflows inst c) :
    ∃ c', translatePDIVBW inst c = some c' := by
  have hword : ∀ k < 4, ¬DivOverflows (lane 32 k (c.gprVec inst.rs)) (c.gprU32 inst.rt) :=
    fun k hk hover => h ⟨k, hk, hover⟩
  rw [translatePDIVBW]
  simp only [Ctx.lane_gprVec c inst.rt]
  rw [if_pos h0, sdiv_eq_some h0 (hword 0 (by decide)), srem_eq_some h0 (hword 0 (by decide)),
    sdiv_eq_some h0 (hword 1 (by decide)), sdiv_eq_some h0 (hword 2 (by decide)),
    sdiv_eq_some h0 (hword 3 (by decide))]
  exact ⟨_, rfl⟩

theorem pdivbw_overflow (h : WordOverflows inst c) : translatePDIVBW inst c = none := by
  obtain ⟨k, hk, hover⟩ := h
  have h0 : c.gprU32 inst.rt ≠ 0 := by rw [hover.2]; decide
  rw [translatePDIVBW]
  simp only [Ctx.lane_gprVec c inst.rt]
  rw [if_pos h0]
  cases q0 : sdiv (lane 32 0 (c.gprVec inst.rs)) (c.gprU32 inst.rt) with
  | none => rfl
  | some v0 =>
    cases hr : srem (lane 32 0 (c.gprVec inst.rs)) (c.gprU32 inst.rt) with
    | none => rfl
    | some vr =>
      cases q1 : sdiv (lane 32 1 (c.gprVec inst.rs)) (c.gprU32 inst.rt) with
      | none => rfl
      | some v1 =>
        cases q2 : sdiv (lane 32 2 (c.gprVec inst.rs)) (c.gprU32 inst.rt) with
        | none => rfl
        | some v2 =>
          cases q3 : sdiv (lane 32 3 (c.gprVec inst.rs)) (c.gprU32 inst.rt) with
          | none => rfl
          | some v3 =>
            have hnone := sdiv_eq_none hover
            interval_cases k <;> simp_all

/-! ## The seven instructions -/

inductive Division
  | div | divu | div1 | divu1 | pdivw | pdivuw | pdivbw
  deriving DecidableEq, Repr

namespace Division

def Encodes (op : Division) (inst : Instruction) : Prop :=
  match op with
  | .div => inst.opcode = .special ∧ inst.function = specialDiv
  | .divu => inst.opcode = .special ∧ inst.function = specialDivu
  | .div1 => inst.opcode = .mmi ∧ inst.function = mmiDiv1
  | .divu1 => inst.opcode = .mmi ∧ inst.function = mmiDivu1
  | .pdivw => inst.opcode = .mmi ∧ inst.function = mmiMmi2 ∧ inst.sa = 0x0D
  | .pdivuw => inst.opcode = .mmi ∧ inst.function = mmiMmi3 ∧ inst.sa = 0x0D
  | .pdivbw => inst.opcode = .mmi ∧ inst.function = mmiMmi2 ∧ inst.sa = 0x1D

def statement : Division → Instruction → Emitted
  | .div => Arith.div
  | .divu => Arith.divu
  | .div1 => Arith.div1
  | .divu1 => Arith.divu1
  | .pdivw => translatePDIVW
  | .pdivuw => translatePDIVUW
  | .pdivbw => translatePDIVBW

def signed : Division → Bool
  | .div | .div1 | .pdivw | .pdivbw => true
  | .divu | .divu1 | .pdivuw => false

/-- The pair of registers that a division leaves its results in. -/
def results (op : Division) (v : HiLo) : BitVec 64 × BitVec 64 :=
  match op with
  | .div | .divu | .pdivw | .pdivuw | .pdivbw => (v.lo, v.hi)
  | .div1 | .divu1 => (v.lo1, v.hi1)

/-- The division of one word of the same kind. -/
def single (op : Division) : Instruction → Emitted := if op.signed then Arith.div else Arith.divu

/-- The first words have no quotient. -/
def Exceptional (op : Division) (inst : Instruction) (c : GuestCtx) : Prop :=
  c.gprU32 inst.rt = 0 ∨ op.signed ∧ DivOverflows (c.gprU32 inst.rs) (c.gprU32 inst.rt)

/-- Every operation of the statement is defined, and where there is no quotient the registers are as
`DIV` or `DIVU` leaves them. -/
def Safe (op : Division) (inst : Instruction) (c : GuestCtx) : Prop :=
  ∃ c', op.statement inst c = some c' ∧
    (op.Exceptional inst c → ∃ d, op.single inst c = some d ∧ op.results c'.hilo = (d.hilo.lo, d.hilo.hi))

/-- The operands that the packed divisions handle as `DIV` and `DIVU` do. -/
def Guarded (op : Division) (inst : Instruction) (c : GuestCtx) : Prop :=
  match op with
  | .pdivw =>
    ¬DivOverflows (c.gprU32 inst.rs) (c.gprU32 inst.rt) ∧ (c.gprU32 inst.rt = 0 → (c.gprU32 inst.rs).msb = false)
  | .pdivuw => c.gprU32 inst.rt ≠ 0
  | .pdivbw =>
    ¬WordOverflows inst c ∧ (c.gprU32 inst.rt = 0 → (c.gprU32 inst.rs).msb = false)
  | .div | .divu | .div1 | .divu1 => True

theorem translate_eq {op : Division} {inst : Instruction} (sse41 : Bool) (h : op.Encodes inst) :
    translate sse41 inst = some (op.statement inst) := by
  cases op with
  | div | divu =>
    obtain ⟨hop, hfun⟩ := h
    rw [translate, hop]
    dsimp only
    rw [translateSpecial, hfun]
    rfl
  | div1 | divu1 =>
    obtain ⟨hop, hfun⟩ := h
    rw [translate, hop]
    dsimp only
    rw [translateMmi, hfun]
    rfl
  | pdivw | pdivuw | pdivbw =>
    obtain ⟨hop, hfun, hsa⟩ := h
    rw [translate, hop]
    dsimp only
    rw [translateMmi, hfun, translateMMI2Instruction, translateMMI3Instruction, hsa]
    rfl

/-- Sign extension and zero extension agree on the words that are not negative. -/
theorem extend_eq_iff (x : Word) : x.setWidth 64 = x.signExtend 64 ↔ x.msb = false := by
  constructor
  · intro heq
    have htop := congrArg (BitVec.getLsbD · 63) heq
    simp only [BitVec.getLsbD_setWidth, BitVec.getLsbD_signExtend] at htop
    rw [if_neg (by decide), BitVec.getLsbD_of_ge x 63 (by decide)] at htop
    exact htop.symm
  · intro hmsb
    exact (BitVec.signExtend_eq_setWidth_of_msb_false hmsb).symm

variable {c' d : GuestCtx}

theorem safe_iff_of (op : Division) (hc : op.statement inst c = some c') (hd : op.single inst c = some d) :
    op.Safe inst c ↔ (op.Exceptional inst c → op.results c'.hilo = (d.hilo.lo, d.hilo.hi)) := by
  constructor
  · rintro ⟨c'', hc'', hreg⟩ hex
    obtain ⟨d', hd', heq⟩ := hreg hex
    cases hc.symm.trans hc''
    cases hd.symm.trans hd'
    exact heq
  · intro hreg
    exact ⟨c', hc, fun hex => ⟨d, hd, hreg hex⟩⟩

section

variable (inst : Instruction) (c : GuestCtx)

theorem safe_div : Division.div.Safe inst c ∧ Division.div1.Safe inst c := by
  obtain ⟨lo, hi, hsome⟩ := divide_isSome inst c
  constructor
  · exact (safe_iff_of .div (hsome _) (hsome _)).2 fun _ => rfl
  · exact (safe_iff_of .div1 (hsome _) (hsome _)).2 fun _ => rfl

theorem safe_divu : Division.divu.Safe inst c ∧ Division.divu1.Safe inst c := by
  obtain ⟨lo, hi, hsome⟩ := divideU_isSome inst c
  constructor
  · exact (safe_iff_of .divu (hsome _) (hsome _)).2 fun _ => rfl
  · exact (safe_iff_of .divu1 (hsome _) (hsome _)).2 fun _ => rfl

end

/-- With a divisor of zero the remainder is the dividend, here extended with zeros. -/
theorem zero_results_iff (h0 : c.gprU32 inst.rt = 0) :
    (((if (c.gprU32 inst.rs).msb then 1 else -1 : BitVec 64), (c.gprU32 inst.rs).setWidth 64) =
        (divLo (c.gprU32 inst.rs) (c.gprU32 inst.rt), divHi (c.gprU32 inst.rs) (c.gprU32 inst.rt))) ↔
      (c.gprU32 inst.rs).msb = false := by
  rw [divLo, divHi, if_pos h0, if_pos h0, Prod.mk.injEq, extend_eq_iff]
  exact and_iff_right rfl

theorem safe_pdivw_iff : Division.pdivw.Safe inst c ↔ Division.pdivw.Guarded inst c := by
  by_cases h0 : c.gprU32 inst.rt = 0
  · have hover : ¬DivOverflows (c.gprU32 inst.rs) (c.gprU32 inst.rt) := by
      rintro ⟨-, h⟩
      rw [h0] at h
      exact absurd h (by decide)
    have hex : Division.pdivw.Exceptional inst c := Or.inl h0
    rw [safe_iff_of .pdivw (pdivw_zero h0) (divide_zero h0), forall_prop_of_true hex, Guarded,
      and_iff_right hover, forall_prop_of_true h0, ← zero_results_iff h0]
    rw [results, leaveQuotient, Ctx.hilo_setGprS32]
    rfl
  by_cases h : DivOverflows (c.gprU32 inst.rs) (c.gprU32 inst.rt)
  · have hex : Division.pdivw.Exceptional inst c := Or.inr ⟨rfl, h⟩
    rw [safe_iff_of .pdivw (pdivw_overflow h) (divide_overflow h), forall_prop_of_true hex]
    refine iff_of_false ?_ fun hg => hg.1 h
    intro heq
    rw [results, leaveQuotient, Ctx.hilo_setGprS32] at heq
    rw [divLo, if_neg h0] at heq
    have hlo : Mmi.int32Min.setWidth 64 = Mmi.int32Min.signExtend 64 := congrArg Prod.fst heq
    exact absurd hlo (by decide)
  · obtain ⟨lo, hi, hsome⟩ := pdivw_quotient h0 h
    rw [safe_iff_of .pdivw hsome (divide_quotient h0 h)]
    refine iff_of_true ?_ ⟨h, fun h' => absurd h' h0⟩
    rintro (h' | ⟨-, h'⟩)
    · exact absurd h' h0
    · exact absurd h' h

theorem safe_pdivuw_iff : Division.pdivuw.Safe inst c ↔ Division.pdivuw.Guarded inst c := by
  by_cases h0 : c.gprU32 inst.rt = 0
  · have hex : Division.pdivuw.Exceptional inst c := Or.inl h0
    rw [safe_iff_of .pdivuw (pdivuw_zero h0) (divideU_zero h0), forall_prop_of_true hex]
    refine iff_of_false ?_ fun hg => hg h0
    intro heq
    rw [results, leaveQuotient, Ctx.hilo_setGprS32] at heq
    have hlo : (0xFFFFFFFF : BitVec 64) = 0xFFFFFFFFFFFFFFFF := congrArg Prod.fst heq
    exact absurd hlo (by decide)
  · obtain ⟨lo, hi, hsome⟩ := pdivuw_quotient h0
    rw [safe_iff_of .pdivuw hsome (divideU_quotient h0)]
    refine iff_of_true ?_ h0
    rintro (h' | ⟨h', -⟩)
    · exact absurd h' h0
    · cases h'

theorem safe_pdivbw_iff : Division.pdivbw.Safe inst c ↔ Division.pdivbw.Guarded inst c := by
  by_cases h0 : c.gprU32 inst.rt = 0
  · have hover : ¬WordOverflows inst c := by
      rintro ⟨k, -, -, h⟩
      rw [h0] at h
      exact absurd h (by decide)
    have hex : Division.pdivbw.Exceptional inst c := Or.inl h0
    rw [safe_iff_of .pdivbw (pdivbw_zero h0) (divide_zero h0), forall_prop_of_true hex, Guarded,
      and_iff_right hover, forall_prop_of_true h0, ← zero_results_iff h0]
    rw [results, Ctx.hilo_setGprVec]
    rfl
  by_cases h : WordOverflows inst c
  · refine iff_of_false ?_ fun hg => hg.1 h
    rintro ⟨c', hc, -⟩
    rw [statement, pdivbw_overflow h] at hc
    cases hc
  · obtain ⟨c', hsome⟩ := pdivbw_quotient h0 h
    have hfirst : ¬DivOverflows (c.gprU32 inst.rs) (c.gprU32 inst.rt) := by
      rw [← Ctx.lane_gprVec c inst.rs]
      exact fun hover => h ⟨0, by decide, hover⟩
    rw [safe_iff_of .pdivbw hsome (divide_quotient h0 hfirst)]
    refine iff_of_true ?_ ⟨h, fun h' => absurd h' h0⟩
    rintro (h' | ⟨-, h'⟩)
    · exact absurd h' h0
    · exact absurd h' hfirst

section

variable (op : Division) (inst : Instruction) (c : GuestCtx)

theorem statement_isSome (hop : op ≠ .pdivbw) : ∃ c', op.statement inst c = some c' := by
  cases op with
  | div | div1 =>
    obtain ⟨lo, hi, hsome⟩ := divide_isSome inst c
    exact ⟨_, hsome _⟩
  | divu | divu1 =>
    obtain ⟨lo, hi, hsome⟩ := divideU_isSome inst c
    exact ⟨_, hsome _⟩
  | pdivw =>
    by_cases h0 : c.gprU32 inst.rt = 0
    · exact ⟨_, pdivw_zero h0⟩
    by_cases h : DivOverflows (c.gprU32 inst.rs) (c.gprU32 inst.rt)
    · exact ⟨_, pdivw_overflow h⟩
    · obtain ⟨lo, hi, hsome⟩ := pdivw_quotient h0 h
      exact ⟨_, hsome⟩
  | pdivuw =>
    by_cases h0 : c.gprU32 inst.rt = 0
    · exact ⟨_, pdivuw_zero h0⟩
    · obtain ⟨lo, hi, hsome⟩ := pdivuw_quotient h0
      exact ⟨_, hsome⟩
  | pdivbw => exact absurd rfl hop

theorem statement_eq_none_iff : op.statement inst c = none ↔ op = .pdivbw ∧ WordOverflows inst c := by
  by_cases hop : op = .pdivbw
  · subst hop
    rw [and_iff_right rfl]
    refine ⟨?_, pdivbw_overflow⟩
    intro hnone
    by_contra h
    have h0 : c.gprU32 inst.rt ≠ 0 := by
      intro h0
      rw [statement, pdivbw_zero h0] at hnone
      cases hnone
    obtain ⟨c', hsome⟩ := pdivbw_quotient h0 h
    rw [statement, hsome] at hnone
    cases hnone
  · refine iff_of_false ?_ fun h => hop h.1
    obtain ⟨c', hsome⟩ := op.statement_isSome inst c hop
    rw [hsome]
    exact Option.some_ne_none c'

end

end Division

/-- **Which emitted divisions are safe**: those of one word always, the packed ones where their guards
suffice. -/
theorem divide_safe_iff (sse41 : Bool) (op : Division) (inst : Instruction) (h : op.Encodes inst) :
    translate sse41 inst = some (op.statement inst) ∧
      (∀ c, op.statement inst c = none ↔ op = .pdivbw ∧ WordOverflows inst c) ∧
      ∀ c, op.Safe inst c ↔ op.Guarded inst c := by
  refine ⟨Division.translate_eq sse41 h, op.statement_eq_none_iff inst, ?_⟩
  intro c
  cases op with
  | div => exact iff_of_true (Division.safe_div inst c).1 trivial
  | div1 => exact iff_of_true (Division.safe_div inst c).2 trivial
  | divu => exact iff_of_true (Division.safe_divu inst c).1 trivial
  | divu1 => exact iff_of_true (Division.safe_divu inst c).2 trivial
  | pdivw => exact Division.safe_pdivw_iff
  | pdivuw => exact Division.safe_pdivuw_iff
  | pdivbw => exact Division.safe_pdivbw_iff

/-- `div $4, $5` -/
def divInst : Instruction := { opcode := .special, function := specialDiv, rs := 4, rt := 5 }

theorem div_safe : Division.div.Safe divInst (.ofRegisters (fun _ => 0) {}) :=
  ((divide_safe_iff true .div divInst ⟨rfl, rfl⟩).2.2 _).2 trivial

/-- `pdivbw $3, $4, $5` -/
def pdivbwInst : Instruction :=
  { opcode := .mmi, function := mmiMmi2, rs := 4, rt := 5, rd := 3, sa := 0x1D }

/-- The least number in the second word, and -1. -/
def pdivbwRegisters (reg : Reg) : M128 :=
  if reg = 4 then mmSetr 32 [8, 0x80000000] else if reg = 5 then mmSetr 32 [0xFFFFFFFF] else 0

theorem pdivbw_traps :
    translate true pdivbwInst = some (translatePDIVBW pdivbwInst) ∧
      translatePDIVBW pdivbwInst (.ofRegisters pdivbwRegisters {}) = none := by
  refine ⟨rfl, pdivbw_overflow ⟨1, by decide, ?_⟩⟩
  decide +kernel

end Arith

end Ps2Recomp
