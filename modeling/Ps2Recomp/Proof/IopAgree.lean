import Ps2Recomp.Proof.Unaligned
import Ps2Recomp.Spec.IopCpu

/-!
# Emitted code and the interpreter of the IOP

The two implementations of the instructions that MIPS I has. The registers of the EE hold the sign
extensions of those of the IOP (`Agree`), and an instruction on both sides keeps that: what the
emitted statement sets is the extension of what `IopCpu::execOne` sets. `LWR` keeps the upper half of
its register and with it, perhaps, another sign.
-/

namespace Ps2Recomp.IopAgree

open Memory (Width Devices Ps2Memory ps2IsSpecialAddress)
open Loads (loadWidth emitted loadedBy loaded afterLoad)

variable {D σ : Type}

/-- The registers of the EE hold those of the IOP, extended but for the one that is `loose`, and the
memories are the same at the places of `S`. -/
structure Agree (S : Set ℕ) (loose : Option Reg) (c : Ctx (Excepting (Core D))) (s : IopCpu σ) : Prop where
  low : ∀ r, c.gprU32 r = s.gpr r
  gpr : ∀ r, loose ≠ some r → c.gprU64 r = (s.gpr r).signExtend 64
  hi : c.hi = s.hi.signExtend 64
  lo : c.lo = s.lo.signExtend 64
  mem : ∀ q ∈ S, c.rdram q = s.ram q

section

variable {S : Set ℕ} {loose : Option Reg} {c : Ctx (Excepting (Core D))} {s : IopCpu σ} {rd : Reg}

theorem W_gpr (i r : Reg) (v : Word) : (s.W i v).gpr r = if r = i ∧ i ≠ 0 then v else s.gpr r := by
  unfold IopCpu.W
  by_cases hi : i = 0
  · rw [if_pos hi, if_neg fun h => h.2 hi]
  · rw [if_neg hi]
    by_cases hr : r = i
    · rw [hr, if_pos ⟨rfl, hi⟩]
      exact Function.update_self i v s.gpr
    · rw [if_neg fun h => hr h.1]
      exact Function.update_of_ne hr v s.gpr

theorem W_rest (i : Reg) (v : Word) : (s.W i v).hi = s.hi ∧ (s.W i v).lo = s.lo ∧ (s.W i v).ram = s.ram := by
  unfold IopCpu.W
  split
  · exact ⟨rfl, rfl, rfl⟩
  · exact ⟨rfl, rfl, rfl⟩

theorem setGprU64_rest (i : Reg) (v : BitVec 64) :
    (c.setGprU64 i v).hi = c.hi ∧ (c.setGprU64 i v).lo = c.lo ∧ (c.setGprU64 i v).rdram = c.rdram := by
  unfold Ctx.setGprU64
  split
  · exact ⟨rfl, rfl, rfl⟩
  · exact ⟨rfl, rfl, rfl⟩

/-- **A register is set on both sides**, on the one to the extension. -/
theorem Agree.set (h : Agree S none c s) {V : BitVec 64} {v : Word} (hv : V = v.signExtend 64) :
    Agree S none (c.setGprU64 rd V) (s.W rd v) := by
  obtain ⟨hshi, hslo, hsram⟩ := W_rest (s := s) rd v
  obtain ⟨hchi, hclo, hcram⟩ := setGprU64_rest (c := c) rd V
  constructor
  · intro r
    rw [Ctx.gprU32_setGprU64, W_gpr, h.low, hv, SignExtend.low (by decide)]
  · intro r hr
    rw [Ctx.gprU64_setGprU64, W_gpr, h.gpr r hr, hv]
    split
    · rfl
    · rfl
  · rw [hchi, hshi, h.hi]
  · rw [hclo, hslo, h.lo]
  · intro q hq
    rw [hcram, hsram, h.mem q hq]

theorem Agree.quietly {f : Statement (Core D)} (h : Agree S loose (f c) s) : Agree S loose (Bus.quietly f c) s :=
  ⟨h.low, h.gpr, h.hi, h.lo, h.mem⟩

section

variable (h : Agree S loose c s)

include h

theorem Agree.setPc (pc : Word) : Agree S loose c { s with pc := pc } :=
  ⟨h.low, h.gpr, h.hi, h.lo, h.mem⟩

theorem Agree.zeroed : Agree S loose c s.zeroed := by
  have hgpr : ∀ r, s.zeroed.gpr r = s.gpr r := by
    intro r
    by_cases hr : r = 0
    · rw [hr, ← h.low 0]
      exact Function.update_self 0 0 s.gpr
    · exact Function.update_of_ne hr 0 s.gpr
  constructor
  · intro r
    rw [hgpr, h.low]
  · intro r hr
    rw [hgpr, h.gpr r hr]
  · exact h.hi
  · exact h.lo
  · exact h.mem

theorem Agree.setHiLo {H L : BitVec 64} {hi lo : Word} (hH : H = hi.signExtend 64) (hL : L = lo.signExtend 64) :
    Agree S loose ((c.setLo L).setHi H) (s.setHiLo hi lo) :=
  ⟨h.low, h.gpr, hH, hL, h.mem⟩

end

end

/-! ### `SPECIAL` -/

/-- The functions of MIPS I but for `ADD`, `SUB`, the jumps and the traps. -/
def specials : List ℕ :=
  [0x00, 0x02, 0x03, 0x04, 0x06, 0x07, 0x10, 0x11, 0x12, 0x13, 0x18, 0x19, 0x1A, 0x1B, 0x21, 0x23,
    0x24, 0x25, 0x26, 0x27, 0x2A, 0x2B]

section

variable {d : Devices D} {outside : Instruction → MemoryAccessHint → Statement (Core D)}
  {leaves : Instruction → Bool} {S : Set ℕ} {c : Ctx (Excepting (Core D))} {s : IopCpu σ}
  {inst : Instruction} {hint : MemoryAccessHint}

theorem guardedSpecial_none (h : inst.function ∉ [specialBreak, specialAdd, specialSub, specialDadd, specialDsub])
    (ht : specialTrap inst.function = none) : guardedSpecial (μ := Core D) inst = none := by
  simp only [List.mem_cons, List.not_mem_nil, or_false, not_or] at h
  obtain ⟨h1, h2, h3, h4, h5⟩ := h
  rw [guardedSpecial, if_neg h1, if_neg h2, if_neg h3, if_neg h4, if_neg h5, ht]
  rfl

theorem exec_special (hop : inst.opcode = .special)
    (hexec : inst.function ∉ [specialSll, specialAddu, specialDaddu, specialOr])
    (hguard : inst.function ∉ [specialBreak, specialAdd, specialSub, specialDadd, specialDsub])
    (ht : specialTrap inst.function = none) (c : Ctx (Excepting (Core D))) :
    (Core.bus d outside leaves).machine.exec inst hint c =
      Bus.quietly ((translateSpecial inst).getD (outside inst hint)) c := by
  simp only [List.mem_cons, List.not_mem_nil, or_false, not_or] at hexec
  obtain ⟨h1, h2, h3, h4⟩ := hexec
  unfold Machine.exec
  rw [hop]
  dsimp only
  rw [Machine.execSpecial, if_neg h1, if_neg h2, if_neg h3, if_neg h4]
  unfold Bus.machine guarded
  dsimp only
  rw [hop]
  dsimp only
  rw [guardedSpecial_none hguard ht]
  unfold Core.bus translateInteger
  dsimp only
  rw [hop]
  rfl

theorem flag_eq (b : Bool) : flag b = (if b then 1 else 0 : Word).signExtend 64 := by
  cases b with
  | true => decide
  | false => decide

section

variable (h : Agree S none c s)

include h

theorem div_agrees : Agree S none (translateDiv inst c) (s.div (s.gpr inst.rs) (s.gpr inst.rt)) := by
  unfold translateDiv IopCpu.div
  dsimp only
  rw [h.low, h.low]
  by_cases hzero : s.gpr inst.rt = 0
  · rw [if_neg (not_not.mpr hzero), if_pos hzero]
    refine h.setHiLo rfl ?_
    split
    · decide
    · decide
  · rw [if_pos hzero, if_neg hzero]
    by_cases hmin : s.gpr inst.rs = 0x80000000 ∧ s.gpr inst.rt = -1
    · rw [if_pos hmin, if_pos hmin.symm]
      exact h.setHiLo (by decide) rfl
    · rw [if_neg hmin, if_neg fun hs => hmin hs.symm]
      exact h.setHiLo rfl rfl

theorem divu_agrees : Agree S none (translateDivu inst c) (s.divu (s.gpr inst.rs) (s.gpr inst.rt)) := by
  unfold translateDivu IopCpu.divu
  dsimp only
  rw [h.low, h.low]
  by_cases hzero : s.gpr inst.rt = 0
  · rw [if_neg (not_not.mpr hzero), if_pos hzero]
    exact h.setHiLo rfl (by decide)
  · rw [if_pos hzero, if_neg hzero]
    exact h.setHiLo rfl rfl

theorem product_agrees {r r' : BitVec 64} (hr : r = r') : Agree S none (setProduct 0 r c) (s.mult r') := by
  rw [hr]
  exact h.setHiLo rfl rfl

end

section

variable (hop : inst.opcode = .special)

include hop

section

variable (h : Agree S none c s) (hooks : IopHooks σ)

include h hooks

theorem direct_agrees (hf : inst.function ∈ [specialSll, specialAddu, specialOr]) :
    Agree S none ((Core.bus d outside leaves).machine.exec inst hint c)
      (s.special hooks inst.function.toNat inst.rs inst.rt inst.rd inst.sa) := by
  unfold Machine.exec
  rw [hop]
  dsimp only
  unfold Machine.execSpecial
  simp only [List.mem_cons, List.not_mem_nil, or_false] at hf
  rcases hf with hf | hf | hf
  · rw [hf, if_pos rfl]
    change Agree S none _ (s.W inst.rd (s.gpr inst.rt <<< inst.sa.val))
    by_cases hrd : inst.rd = 0
    · rw [if_pos hrd, hrd]
      exact h
    · rw [if_neg hrd]
      exact h.set (by rw [h.low])
  · rw [hf, if_neg (by decide), if_pos rfl]
    change Agree S none _ (s.W inst.rd (s.gpr inst.rs + s.gpr inst.rt))
    exact h.set (by rw [h.low, h.low])
  · rw [hf, if_neg (by decide), if_neg (by decide), if_neg (by decide), if_pos rfl]
    change Agree S none _ (s.W inst.rd (s.gpr inst.rs ||| s.gpr inst.rt))
    exact h.set (by rw [h.gpr _ nofun, h.gpr _ nofun, BitVec.signExtend_or])

theorem translated_agrees
    (hf : inst.function.toNat ∈ [0x02, 0x03, 0x04, 0x06, 0x07, 0x10, 0x11, 0x12, 0x13, 0x18, 0x19, 0x1A,
      0x1B, 0x23, 0x24, 0x26, 0x27, 0x2A, 0x2B])
    (hmult : inst.function.toNat = 0x18 ∨ inst.function.toNat = 0x19 → inst.rd = 0) :
    Agree S none ((Core.bus d outside leaves).machine.exec inst hint c)
      (s.special hooks inst.function.toNat inst.rs inst.rt inst.rd inst.sa) := by
  have hplain : inst.function ∉ [specialSll, specialAddu, specialDaddu, specialOr] ∧
      inst.function ∉ [specialBreak, specialAdd, specialSub, specialDadd, specialDsub] ∧
      specialTrap inst.function = none := by
    revert hf
    generalize inst.function = f
    revert f
    decide
  rw [exec_special hop hplain.1 hplain.2.1 hplain.2.2]
  refine Agree.quietly ?_
  unfold translateSpecial IopCpu.special
  simp only [List.mem_cons, List.not_mem_nil, or_false] at hf
  rcases hf with hf | hf | hf | hf | hf | hf | hf | hf | hf | hf | hf | hf | hf | hf | hf | hf | hf | hf | hf
  · rw [hf]
    exact h.set (by rw [h.low])
  · rw [hf]
    exact h.set (by rw [h.low])
  · rw [hf]
    exact h.set (by rw [h.low, h.low])
  · rw [hf]
    exact h.set (by rw [h.low, h.low])
  · rw [hf]
    exact h.set (by rw [h.low, h.low])
  · rw [hf]
    exact h.set h.hi
  · rw [hf]
    exact ⟨h.low, h.gpr, h.gpr _ nofun, h.lo, h.mem⟩
  · rw [hf]
    exact h.set h.lo
  · rw [hf]
    exact ⟨h.low, h.gpr, h.hi, h.gpr _ nofun, h.mem⟩
  · rw [hf, hmult (.inl hf)]
    exact product_agrees h (by rw [h.low, h.low])
  · rw [hf, hmult (.inr hf)]
    exact product_agrees h (by rw [h.low, h.low])
  · rw [hf]
    exact div_agrees h
  · rw [hf]
    exact divu_agrees h
  · rw [hf]
    exact h.set (by rw [h.low, h.low])
  · rw [hf]
    exact h.set (by rw [h.gpr _ nofun, h.gpr _ nofun, BitVec.signExtend_and])
  · rw [hf]
    exact h.set (by rw [h.gpr _ nofun, h.gpr _ nofun, BitVec.signExtend_xor])
  · rw [hf]
    exact h.set (by
      rw [h.gpr _ nofun, h.gpr _ nofun, BitVec.signExtend_not (by decide), BitVec.signExtend_or])
  · rw [hf]
    exact h.set (by rw [h.gpr _ nofun, h.gpr _ nofun, SignExtend.slt_iff (by decide), flag_eq])
  · rw [hf]
    exact h.set (by rw [h.gpr _ nofun, h.gpr _ nofun, SignExtend.ult_iff (by decide), flag_eq])

/-- **The functions of `SPECIAL` agree.** -/
theorem special_agrees (hf : inst.function.toNat ∈ specials)
    (hmult : inst.function.toNat = 0x18 ∨ inst.function.toNat = 0x19 → inst.rd = 0) :
    Agree S none ((Core.bus d outside leaves).machine.exec inst hint c)
      (s.special hooks inst.function.toNat inst.rs inst.rt inst.rd inst.sa) := by
  by_cases hdirect : inst.function ∈ [specialSll, specialAddu, specialOr]
  · exact direct_agrees hop h hooks hdirect
  · refine translated_agrees hop h hooks ?_ hmult
    revert hdirect hf
    generalize inst.function = f
    revert f
    decide

end

end

/-! ### Immediates -/

/-- **The instructions with an immediate agree.** -/
theorem immediate_agrees {op : BitVec 6} {field : BitVec 16} (hop : inst.opcode = .ofBits op)
    (himm : inst.immediate = field.setWidth 32) (hsimm : inst.simmediate = field.signExtend 32)
    (hin : op.toNat ∈ [0x09, 0x0A, 0x0B, 0x0C, 0x0D, 0x0E, 0x0F]) (h : Agree S none c s) :
    Agree S none ((Core.bus d outside leaves).machine.exec inst hint c)
      (s.immediate op.toNat inst.rs inst.rt (field.setWidth 32) (field.signExtend 32)) := by
  have hzero : (inst.immediate.setWidth 16).setWidth 64 = (field.setWidth 32).signExtend 64 := by
    have hfield : (field.setWidth 32).setWidth 16 = field := by
      rw [BitVec.setWidth_setWidth_of_le _ (by decide), BitVec.setWidth_eq]
    rw [himm, hfield, SignExtend.of_setWidth (by decide)]
  unfold Opcode.ofBits at hop
  unfold Machine.exec IopCpu.immediate
  simp only [List.mem_cons, List.not_mem_nil, or_false] at hin
  rcases hin with hin | hin | hin | hin | hin | hin | hin
  · rw [hin] at hop ⊢
    rw [hop, hsimm]
    dsimp only
    by_cases hrt : inst.rt = 0
    · rw [if_pos hrt, hrt]
      exact h
    · rw [if_neg hrt]
      exact h.set (by rw [h.low])
  · rw [hin] at hop ⊢
    rw [hop]
    unfold Bus.machine guarded Core.bus translateInteger
    dsimp only
    rw [hop]
    refine Agree.quietly (h.set ?_)
    rw [hsimm, h.gpr _ nofun, SignExtend.slt_iff (by decide), flag_eq]
  · rw [hin] at hop ⊢
    rw [hop]
    unfold Bus.machine guarded Core.bus translateInteger
    dsimp only
    rw [hop]
    refine Agree.quietly (h.set ?_)
    rw [hsimm, h.gpr _ nofun, SignExtend.ult_iff (by decide), flag_eq]
  · rw [hin] at hop ⊢
    rw [hop]
    exact h.set (by rw [hzero, h.gpr _ nofun, BitVec.signExtend_and])
  · rw [hin] at hop ⊢
    rw [hop]
    exact h.set (by rw [hzero, h.gpr _ nofun, BitVec.signExtend_or])
  · rw [hin] at hop ⊢
    rw [hop]
    exact h.set (by rw [hzero, h.gpr _ nofun, BitVec.signExtend_xor])
  · rw [hin] at hop ⊢
    rw [hop, himm]
    exact h.set rfl

end

end Ps2Recomp.IopAgree
