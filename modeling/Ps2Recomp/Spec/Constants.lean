import Ps2Recomp.Spec.Translate

/-!
# Constant registers

The forward constant propagation of the function emitter
(`gif_dma_kick_analyzer.cpp`): which registers hold a known low word, how an
instruction changes that, and the address of a memory access whose base is known.

* `Sound`: every known register holds its recorded word.
* `updateConstantRegisters_sound`: executing an instruction keeps that, when the
  decoder flags every register write that the update does not handle by opcode.
* `resolveMemoryAccessHint_sound`: a resolved hint is the address the access computes.
-/

namespace Ps2Recomp

/-- `ConstantRegisterState`: the arrays `known` and `values` in one. `$zero` is known from
`clear` on, and no write changes it. -/
structure ConstantRegisterState where
  value : Reg → Option Word
  zero : value 0 = some 0

namespace ConstantRegisterState

/-- `clear`: only `$zero` is known. -/
def clear : ConstantRegisterState := ⟨fun reg => if reg = 0 then some 0 else none, rfl⟩

def read (k : ConstantRegisterState) (reg : Reg) : Option Word := k.value reg

/-- The entry of a register other than `$zero` is replaced. -/
def set (k : ConstantRegisterState) (reg : Reg) (o : Option Word) : ConstantRegisterState :=
  if h : reg = 0 then k
  else ⟨Function.update k.value reg o, by rw [Function.update_of_ne (Ne.symm h), k.zero]⟩

def write (k : ConstantRegisterState) (reg : Reg) (v : Word) : ConstantRegisterState :=
  k.set reg (some v)

def invalidate (k : ConstantRegisterState) (reg : Reg) : ConstantRegisterState := k.set reg none

theorem read_set (k : ConstantRegisterState) (reg reg' : Reg) (o : Option Word) :
    (k.set reg o).read reg' = if reg' = reg ∧ reg ≠ 0 then o else k.read reg' := by
  unfold set read
  by_cases h0 : reg = 0
  · simp [h0]
  · by_cases h : reg' = reg
    · subst h
      simp [h0]
    · simp [h0, h]

/-- The two ends of each case of the switch: a known result is written, an
unknown one invalidates the register. -/
def assign (k : ConstantRegisterState) (reg : Reg) : Option Word → ConstantRegisterState
  | some v => k.write reg v
  | none => k.invalidate reg

end ConstantRegisterState

open ConstantRegisterState (clear)

/-- `isDirectMemoryAccess`. -/
def isDirectMemoryAccess (inst : Instruction) : Bool :=
  match inst.opcode with
  | .lb | .lh | .lw | .lbu | .lhu | .lwu | .lq | .ld | .lwc1 | .ldc2
  | .sb | .sh | .sw | .sq | .sd | .swc1 | .sdc2 => true
  | _ => false

/-- `resolveMemoryAccessHint`. -/
def resolveMemoryAccessHint (inst : Instruction) (k : ConstantRegisterState) : MemoryAccessHint :=
  if isDirectMemoryAccess inst then (k.read inst.rs).map (· + inst.simmediate) else none

/-- The tail of `updateConstantRegisters`: a flagged write forgets everything. -/
def clearIfModified (inst : Instruction) (k : ConstantRegisterState) : ConstantRegisterState :=
  if inst.modificationInfo.modifiesGPR || inst.modificationInfo.modifiesControl then clear else k

/-- `updateConstantRegisters`. -/
def updateConstantRegisters (inst : Instruction) (k : ConstantRegisterState) :
    ConstantRegisterState :=
  match inst.opcode with
  | .lui => k.write inst.rt (inst.immediate <<< 16)
  | .ori => k.assign inst.rt ((k.read inst.rs).map (· ||| (inst.immediate &&& 0xFFFF)))
  | .addiu => k.assign inst.rt ((k.read inst.rs).map (· + inst.simmediate))
  | .andi => k.assign inst.rt ((k.read inst.rs).map (· &&& (inst.immediate &&& 0xFFFF)))
  | .xori => k.assign inst.rt ((k.read inst.rs).map (· ^^^ (inst.immediate &&& 0xFFFF)))
  | .lb | .lh | .lwl | .lw | .lbu | .lhu | .lwr | .lwu | .ldl | .ldr | .lq | .ll | .ld
  | .sc => k.invalidate inst.rt
  | .special =>
    if inst.function = specialAddu ∨ inst.function = specialDaddu then
      k.assign inst.rd ((k.read inst.rs).bind fun lhs => (k.read inst.rt).map (lhs + ·))
    else if inst.function = specialOr then
      k.assign inst.rd ((k.read inst.rs).bind fun lhs => (k.read inst.rt).map (lhs ||| ·))
    else clearIfModified inst k
  | _ => clearIfModified inst k

/-- The instructions `updateConstantRegisters` handles by opcode. -/
def handledByOpcode (inst : Instruction) : Bool :=
  match inst.opcode with
  | .lui | .ori | .addiu | .andi | .xori
  | .lb | .lh | .lwl | .lw | .lbu | .lhu | .lwr | .lwu | .ldl | .ldr | .lq | .ll | .ld | .sc => true
  | .special =>
    inst.function = specialAddu || inst.function = specialDaddu || inst.function = specialOr
  | _ => false

/-! ## Soundness -/

section Sound

variable {ρ : Type} {m : Machine ρ} {k : ConstantRegisterState} {c c' : Ctx ρ}

/-- Every known register holds its recorded word. -/
def Sound (k : ConstantRegisterState) (c : Ctx ρ) : Prop :=
  ∀ reg v, k.read reg = some v → c.gprU32 reg = v

/-- The decoder sets `modifiesGPR` or `modifiesControl` on an instruction that
writes a register and is not handled by opcode. -/
def FlagsCover (m : Machine ρ) (inst : Instruction) : Prop :=
  handledByOpcode inst = false → inst.modificationInfo.modifiesGPR = false →
    inst.modificationInfo.modifiesControl = false →
    ∀ (hint : MemoryAccessHint) (c : Ctx ρ) (reg : Reg), (m.exec inst hint c).gprU32 reg = c.gprU32 reg

theorem sound_clear (c : Ctx ρ) : Sound clear c := by
  intro reg v h
  simp only [ConstantRegisterState.read, clear] at h
  split at h
  · rename_i h0; rw [h0]; simpa using h
  · simp at h

theorem Sound.congr (h : Sound k c) (hr : ∀ reg, c'.gprU32 reg = c.gprU32 reg) : Sound k c' :=
  fun reg v hv => (hr reg).trans (h reg v hv)

variable {reg : Reg} {v : Word}

section

variable (h : Sound k c)

include h

/-- A register write of the machine against the analysis: what it writes is right, or
unknown. -/
theorem Sound.set {o : Option Word} (ho : ∀ w, o = some w → v = w)
    (hr : ∀ reg', c'.gprU32 reg' = if reg' = reg ∧ reg ≠ 0 then v else c.gprU32 reg') :
    Sound (k.set reg o) c' := by
  intro reg' w hw
  rw [ConstantRegisterState.read_set] at hw
  rw [hr]
  split at hw
  · rename_i heq
    rw [if_pos heq]
    exact ho w hw
  · rename_i hne
    rw [if_neg hne]
    exact h reg' w hw

section

variable (hr : ∀ reg', c'.gprU32 reg' = if reg' = reg ∧ reg ≠ 0 then v else c.gprU32 reg')

include hr

theorem Sound.write : Sound (k.write reg v) c' := h.set (fun _ hw => Option.some.inj hw) hr

theorem Sound.invalidate : Sound (k.invalidate reg) c' := h.set (fun _ hw => by cases hw) hr

end

theorem Sound.assign {o : Option Word} (ho : ∀ w, o = some w → v = w)
    (hr : ∀ reg', c'.gprU32 reg' = if reg' = reg ∧ reg ≠ 0 then v else c.gprU32 reg') :
    Sound (k.assign reg o) c' := by
  cases o with
  | none => exact h.invalidate hr
  | some w => rw [ho w rfl] at hr; exact h.write hr

/-- One operand: the analysis applies the same `f` to the known word. -/
theorem Sound.assign_map {reg rs : Reg} (f : Word → Word)
    (hr : ∀ reg', c'.gprU32 reg' = if reg' = reg ∧ reg ≠ 0 then f (c.gprU32 rs) else c.gprU32 reg') :
    Sound (k.assign reg ((k.read rs).map f)) c' := by
  refine h.assign (fun w hw => ?_) hr
  obtain ⟨x, hx, rfl⟩ := Option.map_eq_some_iff.1 hw
  rw [h _ _ hx]

theorem Sound.assign_bind {reg rs rt : Reg} (f : Word → Word → Word)
    (hr : ∀ reg', c'.gprU32 reg' = if reg' = reg ∧ reg ≠ 0 then f (c.gprU32 rs) (c.gprU32 rt) else c.gprU32 reg') :
    Sound (k.assign reg ((k.read rs).bind fun lhs => (k.read rt).map (f lhs))) c' := by
  refine h.assign (fun w hw => ?_) hr
  obtain ⟨x, hx, hw⟩ := Option.bind_eq_some_iff.1 hw
  obtain ⟨y, hy, rfl⟩ := Option.map_eq_some_iff.1 hw
  rw [h _ _ hx, h _ _ hy]

end

theorem immediate_low (x : Word) : ((x.setWidth 16).setWidth 64).setWidth 32 = x &&& 0xFFFF := by
  apply BitVec.eq_of_toNat_eq
  have h := Nat.and_two_pow_sub_one_eq_mod x.toNat 16
  simp only [BitVec.toNat_setWidth, BitVec.toNat_and]
  simp only [Nat.reducePow, Nat.reduceSub] at h
  simp [h]
  omega

section

variable (inst : Instruction)

section

variable (hint : MemoryAccessHint) (c : Ctx ρ)

include hint

theorem execLoad_gpr :
    ∃ v, ∀ reg, (m.execLoad inst hint c).gprU32 reg =
      if reg = inst.rt ∧ inst.rt ≠ 0 then v else c.gprU32 reg := by
  unfold Machine.execLoad
  split <;>
    exact ⟨_, fun reg => by
      simp only [Ctx.gprU32_setGprS32, Ctx.gprU32_setGprU64, Ctx.gprU32_setGprVec]
      rw [Ctx.gprU32_congr (m.read_r inst hint _ _ c) reg]⟩

theorem execUnalignedLoad_gpr :
    ∃ v, ∀ reg, (m.execUnalignedLoad inst hint c).gprU32 reg =
      if reg = inst.rt ∧ inst.rt ≠ 0 then v else c.gprU32 reg := by
  unfold Machine.execUnalignedLoad
  split <;>
    exact ⟨_, fun reg => by
      simp only [Ctx.gprU32_setGprS32, Ctx.gprU32_setGprU64]
      rw [Ctx.gprU32_congr (m.read_r inst hint _ _ c) reg]⟩

end

theorem execLl_gpr (c : Ctx ρ) :
    ∃ v, ∀ reg, (m.execLl inst c).gprU32 reg =
      if reg = inst.rt ∧ inst.rt ≠ 0 then v else c.gprU32 reg :=
  ⟨_, fun reg => Ctx.gprU32_setGprS32 _ inst.rt reg _⟩

theorem execSc_gpr (c : Ctx ρ) :
    ∃ v, ∀ reg, (m.execSc inst c).gprU32 reg =
      if reg = inst.rt ∧ inst.rt ≠ 0 then v else c.gprU32 reg := by
  by_cases h : c.sys.llbit ≠ 0 ∧ c.sys.lladdr = baseAddress inst c
  · refine ⟨1, fun reg => ?_⟩
    rw [← Ctx.gprU32_setGprS32 c inst.rt reg 1]
    apply Ctx.gprU32_congr
    simp only [Machine.execSc, if_pos h, Ctx.setGprS32, Ctx.setGprU64]
    split <;> rfl
  · refine ⟨0, fun reg => ?_⟩
    rw [← Ctx.gprU32_setGprS32 c inst.rt reg 0]
    apply Ctx.gprU32_congr
    simp only [Machine.execSc, if_neg h]

end

variable {inst : Instruction}

/-- An instruction that invalidates `rt` writes at most `rt`. -/
theorem exec_invalidated (hint : MemoryAccessHint) (c : Ctx ρ)
    (h : inst.opcode ∈ [Opcode.lb, .lh, .lwl, .lw, .lbu, .lhu, .lwr, .lwu, .ldl, .ldr, .lq, .ll, .ld, .sc]) :
    ∃ v, ∀ reg, (m.exec inst hint c).gprU32 reg =
      if reg = inst.rt ∧ inst.rt ≠ 0 then v else c.gprU32 reg := by
  simp only [List.mem_cons, List.not_mem_nil, or_false] at h
  unfold Machine.exec
  rcases h with h | h | h | h | h | h | h | h | h | h | h | h | h | h <;> rw [h] <;>
    first
    | exact execLoad_gpr inst hint c
    | exact execUnalignedLoad_gpr inst hint c
    | exact execLl_gpr inst c
    | exact execSc_gpr inst c

section

variable (h : Sound k c) (hf : FlagsCover m inst)

include h hf

theorem Sound.clearIfModified (hn : handledByOpcode inst = false) (hint : MemoryAccessHint) :
    Sound (clearIfModified inst k) (m.exec inst hint c) := by
  unfold Ps2Recomp.clearIfModified
  split
  · exact sound_clear _
  · rename_i hflag
    simp only [Bool.or_eq_true, not_or, Bool.not_eq_true] at hflag
    exact h.congr (hf hn hflag.1 hflag.2 hint c)

/-- **The update is sound** for an instruction whose writes the decoder flags. -/
theorem updateConstantRegisters_sound (hint : MemoryAccessHint) :
    Sound (updateConstantRegisters inst k) (m.exec inst hint c) := by
  have hinv : inst.opcode ∈ [Opcode.lb, .lh, .lwl, .lw, .lbu, .lhu, .lwr, .lwu, .ldl, .ldr, .lq,
      .ll, .ld, .sc] → Sound (k.invalidate inst.rt) (m.exec inst hint c) := by
    intro hm
    obtain ⟨v, hv⟩ := exec_invalidated (m := m) hint c hm
    exact h.invalidate hv
  unfold updateConstantRegisters
  split
  case h_1 ho =>
    refine h.write fun reg => ?_
    simp only [Machine.exec, ho]
    exact Ctx.gprU32_setGprS32 ..
  case h_2 ho =>
    refine h.assign_map (· ||| (inst.immediate &&& 0xFFFF)) fun reg => ?_
    simp only [Machine.exec, ho]
    rw [Ctx.gprU32_setGprU64, BitVec.setWidth_or, immediate_low, ← Ctx.gprU32_eq]
  case h_3 ho =>
    refine h.assign_map (· + inst.simmediate) fun reg => ?_
    simp only [Machine.exec, ho]
    split
    · rename_i h0; simp [h0]
    · exact Ctx.gprU32_setGprS32 ..
  case h_4 ho =>
    refine h.assign_map (· &&& (inst.immediate &&& 0xFFFF)) fun reg => ?_
    simp only [Machine.exec, ho]
    rw [Ctx.gprU32_setGprU64, BitVec.setWidth_and, immediate_low, ← Ctx.gprU32_eq]
  case h_5 ho =>
    refine h.assign_map (· ^^^ (inst.immediate &&& 0xFFFF)) fun reg => ?_
    simp only [Machine.exec, ho]
    rw [Ctx.gprU32_setGprU64, BitVec.setWidth_xor, immediate_low, ← Ctx.gprU32_eq]
  case h_20 ho =>
    -- `SPECIAL`: the three handled functions, then the flags
    split
    · rename_i hfn
      refine h.assign_bind (· + ·) fun reg => ?_
      simp only [Machine.exec, ho, Machine.execSpecial]
      rcases hfn with hfn | hfn
      · rw [hfn, if_neg (by decide), if_pos rfl]
        exact Ctx.gprU32_setGprS32 ..
      · rw [hfn, if_neg (by decide), if_neg (by decide), if_pos rfl, Ctx.gprU32_setGprU64,
          BitVec.setWidth_add _ _ (by omega), ← Ctx.gprU32_eq, ← Ctx.gprU32_eq]
    · rename_i hfn
      simp only [not_or] at hfn
      split
      · rename_i hor
        refine h.assign_bind (· ||| ·) fun reg => ?_
        simp only [Machine.exec, ho, Machine.execSpecial]
        rw [hor, if_neg (by decide), if_neg (by decide), if_neg (by decide), if_pos rfl,
          Ctx.gprU32_setGprU64, BitVec.setWidth_or, ← Ctx.gprU32_eq, ← Ctx.gprU32_eq]
      · rename_i hor
        exact h.clearIfModified hf (by simp [handledByOpcode, ho, hfn, hor]) hint
  case h_21 hn =>
    refine h.clearIfModified hf ?_ hint
    unfold handledByOpcode
    split <;> simp_all
  all_goals
    rename_i ho
    exact hinv (by simp [ho])

end

/-- **A resolved hint is the address the access computes.** -/
theorem resolveMemoryAccessHint_sound (h : Sound k c) {a : Word}
    (ha : resolveMemoryAccessHint inst k = some a) : a = baseAddress inst c := by
  unfold resolveMemoryAccessHint at ha
  split at ha
  · obtain ⟨x, hx, rfl⟩ := Option.map_eq_some_iff.1 ha
    rw [baseAddress, h _ _ hx]
  · simp at ha

end Sound

end Ps2Recomp
