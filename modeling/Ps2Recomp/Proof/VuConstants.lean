import Ps2Recomp.Proof.VuMemory
import Ps2Recomp.Spec.VuStatements

/-!
# The constant registers of VU0

VF0 is the vector (0, 0, 0, 1), and VI0 is zero. The interpreter restores both after each instruction. The
emitted statements write whatever register an instruction names, and the constructors of `R5900Context`
and `PS2Runtime` leave VF0 at zero.

The development is staged:

* `Leaves`: each statement leaves the registers alone that it has not for a destination, and a microprogram
  comes back with both constants (`cop2_leaves`, `Emitted.leaves`).
* `constants_run`: statements that spare both registers keep the constants over a whole run.
* `not_constant`: no run from a context that is built has them before its first instruction.
-/

namespace Ps2Recomp.Vu

open Vectors Memory Statement

/-- VF0 and VI0 hold their constants. -/
def Constants (c : Ctx Vu0) : Prop := c.sys.rest.vf 0 = vf0 ∧ c.sys.rest.vi 0 = 0

instance (c : Ctx Vu0) : Decidable (Constants c) := inferInstanceAs (Decidable (_ ∧ _))

/-! ### Destinations -/

/-- The selectors of the conversions and of `VRGET`. -/
def restToVf (k : ℕ) : Bool := (0x10 ≤ k && k ≤ 0x17) || k == 0x41

/-- The vector register that an instruction of coprocessor 2 writes. -/
def vfDest (w : Word) : Option Reg :=
  let inst := decodeCop2 w
  if inst.rs = 0x05 then some inst.rd
  else if ¬cop2Co ≤ inst.rs then none
  else
    match MacroOp.ofWord w, IntegerOp.ofWord w with
    | some op, _ => op.destination inst
    | none, some op => op.vfDest inst
    | none, none => if 0x3C ≤ inst.function ∧ restToVf (special2Func w).toNat then some inst.rt else none

/-- The integer register that it writes. -/
def viDest (w : Word) : Option Reg :=
  let inst := decodeCop2 w
  if ¬cop2Co ≤ inst.rs then none
  else
    match MacroOp.ofWord w, IntegerOp.ofWord w with
    | none, some op => op.viDest inst
    | _, _ => none

section Statements

variable {D : Type} {f : FloatOps} {d : Devices D} {execute : Word → VU1State → Ps2Memory D → VU1State × Ps2Memory D}
  {inst : Cop2Instruction} {v : Vu0} {w : Word} {c c' : Ctx Vu0} {m m' : Ps2Memory D} {k : ℕ}

theorem Leaves.of_eq {vf vi : Option Reg} {v' : Vu0} (hvf : v'.vf = v.vf) (hvi : v'.vi = v.vi) : Leaves vf vi v v' :=
  ⟨fun n _ => congrFun hvf n, fun n _ => congrFun hvi n⟩

section

variable (reg : Reg) (result : Vec) (vi : Option Reg)

theorem leaves_blendVf : Leaves (some reg) vi v (blendVf inst v reg result) :=
  ⟨fun _ hn => Function.update_of_ne (fun h => hn (congrArg some h.symm)) _ _, fun _ _ => rfl⟩

/-- The statements that write the accumulator too. -/
theorem leaves_replaced : Leaves (some reg) vi v { blendVf inst v reg result with acc := result } :=
  ⟨(@leaves_blendVf inst v reg result vi).vf, fun _ _ => rfl⟩

end

/-- **The arithmetic** writes its destination only. -/
theorem MacroOp.statement_leaves (op : MacroOp) : Leaves (op.destination inst) none v (op.statement f inst v) := by
  cases op with
  | vf a o => exact leaves_blendVf _ _ _
  | sumVf a o => exact leaves_replaced _ _ _
  | opmsub => exact leaves_replaced _ _ _
  | abs => exact leaves_blendVf _ _ _
  | move => exact leaves_blendVf _ _ _
  | mr32 => exact leaves_blendVf _ _ _
  | acc a o => exact .of_eq rfl rfl
  | sumAcc a o => exact .of_eq rfl rfl
  | opmula => exact .of_eq rfl rfl
  | clip => exact .of_eq rfl rfl

/-! ### The other statements -/

variable {other : Cop2Instruction → Statement D}

/-- The statements below `0x3C` that are in neither table. -/
theorem translateSpecial1_rest (hk : k < 0x3C) (hop : special1Op k = none)
    (hint : special1Integer k = none) : translateSpecial1 f other inst k = other inst := by
  interval_cases k <;> first | rfl | exact absurd hop (by decide) | exact absurd hint (by decide)

/-- The selectors that are in neither table. -/
theorem translateSpecial2_rest (hk : k < 128) (hop : special2Op k = none) (hint : special2Integer k = none) :
    translateSpecial2 f d other inst k = onVu0 id ∨ translateSpecial2 f d other inst k = other inst := by
  interval_cases k <;> first | exact .inl rfl | exact .inr rfl | exact absurd hop (by decide) | exact absurd hint (by decide)

theorem copyVu0StateToContext_constants (s : VU1State) (c : Ctx Vu0) : Constants (copyVu0StateToContext s c) := by
  refine ⟨?_, ?_⟩
  · change Function.update s.vf 0 vf0 0 = vf0
    exact Function.update_self 0 vf0 s.vf
  · change Function.update (fun n => (s.vi n).setWidth 16) 0 0 0 = 0
    rw [Function.update_self]

/-- The instructions of a microprogram are numbered with nine bits, so that none starts outside of the memory. -/
theorem callAddress_fits (y : Word) : ¬(((y &&& (0x1FF : Word)) <<< 3) &&& (~~~0x7 : Word)) + 8 > vu0CodeSize := by
  have hmask : ((y &&& (0x1FF : Word)) <<< 3) &&& (~~~0x7 : Word) = (y &&& (0x1FF : Word)) <<< 3 := by
    refine BitVec.eq_of_getLsbD_eq fun i hi => ?_
    simp only [BitVec.getLsbD_and, BitVec.getLsbD_shiftLeft, BitVec.getLsbD_not]
    interval_cases i <;> simp
  have hlow : (y &&& (0x1FF : Word)).toNat = y.toNat % 2 ^ 9 := by
    rw [BitVec.toNat_and]
    exact Nat.and_two_pow_sub_one_eq_mod y.toNat 9
  have hnat : ((y &&& (0x1FF : Word)) <<< 3).toNat = y.toNat % 2 ^ 9 * 8 := by
    rw [BitVec.toNat_shiftLeft, hlow, Nat.shiftLeft_eq]
    omega
  have hsize : vu0CodeSize.toNat = 4096 := rfl
  have height : (8 : Word).toNat = 8 := rfl
  rw [hmask, gt_iff_lt, BitVec.lt_def, BitVec.toNat_add, hnat, hsize, height]
  omega

/-- **A call** restores both constants. -/
theorem call_constants (y : Word) (h : executeVU0Microprogram execute ((y &&& (0x1FF : Word)) <<< 3) c m = (c', m')) :
    Constants c' := by
  rw [executeVU0Microprogram, if_neg (callAddress_fits y)] at h
  cases h
  exact copyVu0StateToContext_constants _ _

theorem restSpecial1_constants (hrun : restSpecial1 execute inst k c m = some (c', m')) : Constants c' := by
  unfold restSpecial1 at hrun
  split at hrun
  · rw [translateVuVcallms] at hrun
    exact call_constants _ (Option.some.inj hrun)
  · rw [translateVuVcallmsr] at hrun
    cases hvi : c.sys.rest.getVi inst.rd with
    | none =>
      rw [hvi] at hrun
      cases hrun
    | some vi =>
      rw [hvi] at hrun
      have hindex : (vi &&& 0x1FF).setWidth 32 = (vi.setWidth 32 &&& (0x1FF : Word)) := BitVec.setWidth_and
      have hcall := Option.some.inj hrun
      rw [hindex] at hcall
      exact call_constants (vi.setWidth 32) hcall
  · cases hrun

theorem restSpecial2_leaves (hrun : restSpecial2 f inst k c m = some (c', m')) :
    Leaves (if restToVf k then some inst.rt else none) none c.sys.rest c'.sys.rest := by
  unfold restSpecial2 at hrun
  split at hrun <;> cases hrun
  all_goals first | exact leaves_blendVf _ _ _ | exact .of_eq rfl rfl

/-- A word of coprocessor 2. -/
def IsCop2 (w : Word) : Prop := w >>> 26 = 0x12

theorem isMacro_of_co (hw : IsCop2 w) (hco : cop2Co ≤ (decodeCop2 w).rs) : IsMacro w := by
  have hopcode : w.toNat / 2 ^ 26 = 18 := by
    have hnat := congrArg BitVec.toNat hw
    rwa [BitVec.toNat_ushiftRight, Nat.shiftRight_eq_div_pow] at hnat
  have hrs : 16 ≤ w.toNat / 2 ^ 21 % 32 := by
    rw [decodeCop2, Fin.le_def, Fin.val_ofNat, BitVec.toNat_ushiftRight, Nat.shiftRight_eq_div_pow] at hco
    exact hco
  apply BitVec.eq_of_toNat_eq
  rw [BitVec.toNat_ushiftRight, Nat.shiftRight_eq_div_pow]
  change _ = 37
  omega

theorem special2Func_lt (w : Word) : (special2Func w).toNat < 128 := by
  have hmask : special2Func w &&& (0x7F : Word) = special2Func w := by
    refine BitVec.eq_of_getLsbD_eq fun i hi => ?_
    simp only [special2Func, BitVec.getLsbD_or, BitVec.getLsbD_and, BitVec.getLsbD_ushiftRight, BitVec.getLsbD_shiftLeft]
    interval_cases i <;> simp
  have hnat := congrArg BitVec.toNat hmask
  rw [BitVec.toNat_and] at hnat
  have hmod : (special2Func w).toNat % 2 ^ 7 = (special2Func w).toNat :=
    (Nat.and_two_pow_sub_one_eq_mod (special2Func w).toNat 7).symm.trans hnat
  omega

theorem rest_leaves (hco : cop2Co ≤ (decodeCop2 w).rs) (hop : MacroOp.ofWord w = none) (hint : IntegerOp.ofWord w = none)
    (hrun : translateCop2 f d execute (decodeCop2 w) c m = some (c', m')) :
    Constants c' ∨ Leaves (if 0x3C ≤ (decodeCop2 w).function ∧ restToVf (special2Func w).toNat then some (decodeCop2 w).rt else none)
      none c.sys.rest c'.sys.rest := by
  have hother : otherStatements f execute (decodeCop2 w) =
      if 0x3C ≤ (decodeCop2 w).function then restSpecial2 f (decodeCop2 w) (special2Func w).toNat
      else restSpecial1 execute (decodeCop2 w) (decodeCop2 w).function.toNat := if_pos hco
  rw [translateCop2, translate_co hco] at hrun
  by_cases hf : 0x3C ≤ (decodeCop2 w).function
  · have hop : special2Op (special2Func w).toNat = none := (if_pos hf).symm.trans hop
    have hint : special2Integer (special2Func w).toNat = none := (if_pos hf).symm.trans hint
    rw [if_pos hf] at hrun hother
    have hcases := @translateSpecial2_rest D f d (decodeCop2 w) _ (otherStatements f execute) (special2Func_lt w) hop hint
    rcases hcases with hid | hrest
    · change translateSpecial2 f d _ (decodeCop2 w) (special2Func w).toNat c m = _ at hrun
      rw [hid] at hrun
      cases hrun
      exact .inr (.of_eq rfl rfl)
    · change translateSpecial2 f d _ (decodeCop2 w) (special2Func w).toNat c m = _ at hrun
      rw [hrest, hother] at hrun
      have hleaves := restSpecial2_leaves hrun
      refine .inr ?_
      simpa only [hf, true_and] using hleaves
  · have hop : special1Op (decodeCop2 w).function.toNat = none := (if_neg hf).symm.trans hop
    have hint : special1Integer (decodeCop2 w).function.toNat = none := (if_neg hf).symm.trans hint
    rw [if_neg hf] at hrun hother
    have hlt : (decodeCop2 w).function.toNat < 0x3C := by
      rw [BitVec.le_def, not_le] at hf
      exact hf
    rw [translateSpecial1_rest hlt hop hint, hother] at hrun
    exact .inl (restSpecial1_constants hrun)

theorem setGprVec_sys (reg : Reg) (y : BitVec 128) : (c.setGprVec reg y).sys = c.sys := by
  rw [Ctx.setGprVec]
  split <;> rfl

theorem setGprS32_sys (reg : Reg) (y : Word) : (c.setGprS32 reg y).sys = c.sys := by
  rw [Ctx.setGprS32, Ctx.setGprU64]
  split <;> rfl

theorem cfc2_sys : (cfc2 inst c).sys = c.sys := by
  unfold cfc2
  dsimp only
  split <;> simp only [setGprS32_sys, setGprVec_sys]

theorem ctc2_vf : (ctc2 inst c).sys.rest.vf = c.sys.rest.vf := by
  unfold ctc2
  dsimp only
  split <;> rfl

theorem translate_control (hco : ¬cop2Co ≤ inst.rs) :
    translate f d other inst = (fun c m => some (qmfc2 inst c, m)) ∨
    translate f d other inst = (fun c m => some (cfc2 inst c, m)) ∨
    (inst.rs = 0x05 ∧ translate f d other inst = fun c m => onVu0 (qmtc2 inst c) c m) ∨
    translate f d other inst = (fun c m => some (ctc2 inst c, m)) ∨
    translate f d other inst = (fun c m => some (c, m)) ∨ translate f d other inst = other inst := by
  unfold translate
  split
  · exact .inl rfl
  · exact .inr (.inl rfl)
  · next hrs => exact .inr (.inr (.inl ⟨Fin.ext hrs, rfl⟩))
  · exact .inr (.inr (.inr (.inl rfl)))
  · exact .inr (.inr (.inr (.inr (.inl rfl))))
  · exact .inr (.inr (.inr (.inr (.inr (if_neg hco)))))

/-- **An instruction of coprocessor 2** writes its destinations only, or comes back from a microprogram. -/
theorem cop2_leaves (hw : IsCop2 w) (hrun : translateCop2 f d execute (decodeCop2 w) c m = some (c', m')) :
    Constants c' ∨ Leaves (vfDest w) (viDest w) c.sys.rest c'.sys.rest := by
  by_cases hco : cop2Co ≤ (decodeCop2 w).rs
  · have hne : (decodeCop2 w).rs ≠ 0x05 := by
      intro h
      rw [h] at hco
      exact absurd hco (by decide)
    have hmacro := isMacro_of_co hw hco
    -- The statements do not depend on what the interpreter does.
    let e : Surroundings D := ⟨f, d, otherStatements f execute, fun _ x => x, fun _ x => x⟩
    have hemitted : e.emitted w c m = some (c', m') := hrun
    rw [vfDest, viDest, if_neg hne, if_neg (not_not.2 hco), if_neg (not_not.2 hco)]
    cases hop : MacroOp.ofWord w with
    | some op =>
      rw [emitted_op e hmacro hop] at hemitted
      cases hemitted
      exact .inr op.statement_leaves
    | none =>
      cases hint : IntegerOp.ofWord w with
      | some op =>
        rw [emitted_integer e hmacro hint] at hemitted
        obtain ⟨⟨v', m''⟩, hstatement, hpair⟩ := Option.map_eq_some_iff.1 hemitted
        cases hpair
        exact .inr (IntegerOp.statement_leaves hstatement)
      | none => exact rest_leaves hco hop hint hrun
  · refine .inr ?_
    rw [translateCop2] at hrun
    rcases translate_control hco with hs | hs | ⟨hrs, hs⟩ | hs | hs | hs <;> rw [hs] at hrun
    · cases hrun
      exact .of_eq (by rw [qmfc2, setGprVec_sys]) (by rw [qmfc2, setGprVec_sys])
    · cases hrun
      exact .of_eq (by rw [cfc2_sys]) (by rw [cfc2_sys])
    · cases hrun
      rw [vfDest, if_pos hrs]
      exact ⟨fun _ hn => Function.update_of_ne (fun h => hn (congrArg some h.symm)) _ _, fun _ _ => rfl⟩
    · cases hrun
      exact .of_eq ctc2_vf (ctc2_vi _)
    · cases hrun
      exact .of_eq rfl rfl
    · rw [otherStatements, if_neg hco] at hrun
      cases hrun

end Statements

/-! ### Runs -/

/-- **A statement of emitted code**: one that a word of coprocessor 2 or a load or store of a vector register
leads to, or any other, which names no register of VU0. -/
inductive Emitted (D : Type)
  | cop2 (w : Word) (hw : IsCop2 w)
  | lqc2 (rs rt : Reg) (simmediate : Word)
  | sqc2 (rs rt : Reg) (simmediate : Word)
  | ee (g : Statement D) (keeps : ∀ c m c' m', g c m = some (c', m') → c'.sys.rest = c.sys.rest)

section Runs

variable {D : Type} (f : FloatOps) (d : Devices D) (execute : Word → VU1State → Ps2Memory D → VU1State × Ps2Memory D)

/-- What a statement does. -/
def Emitted.run : Emitted D → Statement D
  | .cop2 w _ => translateCop2 f d execute (decodeCop2 w)
  | .lqc2 rs rt simmediate => translateLqc2 d rs rt simmediate
  | .sqc2 rs rt simmediate => translateSqc2 d rs rt simmediate
  | .ee g _ => g

/-- What statements do one after the other. -/
def runAll : List (Emitted D) → Statement D
  | [], c, m => some (c, m)
  | e :: es, c, m => (e.run f d execute c m).bind fun (c', m') => runAll es c' m'

/-- **VF0 and VI0 hold their constants before every instruction** of a run. -/
def ConstantBefore (es : List (Emitted D)) (c : Ctx Vu0) (m : Ps2Memory D) : Prop :=
  ∀ done e rest c' m', es = done ++ e :: rest → runAll f d execute done c m = some (c', m') → Constants c'

/-- **The statement spares VF0 and VI0**: neither is a destination of it. -/
def Emitted.Spares : Emitted D → Prop
  | .cop2 w _ => vfDest w ≠ some 0 ∧ ∀ reg, viDest w = some reg → viOf reg ≠ 0
  | .lqc2 _ rt _ => rt ≠ 0
  | .sqc2 _ _ _ | .ee _ _ => True

variable {f d execute} {c c' : Ctx Vu0} {m m' : Ps2Memory D} {e : Emitted D}

theorem Constants.of_leaves {vf vi : Option Reg} (h : Leaves vf vi c.sys.rest c'.sys.rest) (hvf : vf ≠ some 0)
    (hvi : ∀ reg, vi = some reg → viOf reg ≠ 0) (hc : Constants c) : Constants c' :=
  ⟨(h.vf 0 hvf).trans hc.1, (h.vi 0 fun reg hreg => (hvi reg hreg).symm).trans hc.2⟩

/-- **A statement that spares the constants** keeps them. -/
theorem constants_step (hrun : e.run f d execute c m = some (c', m')) (hspares : e.Spares) (hc : Constants c) :
    Constants c' := by
  cases e with
  | cop2 w hw =>
    rcases cop2_leaves hw hrun with hconstants | hleaves
    · exact hconstants
    · exact hc.of_leaves hleaves hspares.1 hspares.2
  | lqc2 rs rt simmediate =>
    obtain ⟨⟨value, m''⟩, -, hwrite⟩ := Option.bind_eq_some_iff.1 hrun
    cases hwrite
    exact ⟨(Function.update_of_ne (Ne.symm hspares) _ _).trans hc.1, hc.2⟩
  | sqc2 rs rt simmediate =>
    obtain ⟨m'', -, hstore⟩ := Option.bind_eq_some_iff.1 hrun
    cases hstore
    exact hc
  | ee g keeps =>
    have hrest := keeps c m c' m' hrun
    rwa [Constants, hrest]

/-- **Over a run.** -/
theorem constants_run (es : List (Emitted D)) (hrun : runAll f d execute es c m = some (c', m'))
    (hspares : ∀ e ∈ es, e.Spares) (hc : Constants c) : Constants c' := by
  induction es generalizing c m with
  | nil =>
    cases hrun
    exact hc
  | cons e es ih =>
    obtain ⟨⟨c1, m1⟩, hstep, hrest⟩ := Option.bind_eq_some_iff.1 hrun
    have hc1 := constants_step hstep (hspares e (List.mem_cons_self ..)) hc
    exact ih hrest (fun e' he' => hspares e' (List.mem_cons_of_mem _ he')) hc1

/-- Before each statement of a run that spares the constants. -/
theorem constantBefore_of_spares {es : List (Emitted D)} (hspares : ∀ e ∈ es, e.Spares) (hc : Constants c) :
    ConstantBefore f d execute es c m := by
  intro done e rest c' m' hes hrun
  refine constants_run done hrun (fun e' he' => hspares e' ?_) hc
  rw [hes]
  exact List.mem_append_left _ he'

/-! ### Contexts -/

/-- The registers of VU0 are those that `PS2Runtime::PS2Runtime` or `R5900Context::R5900Context` leaves. -/
def Built (c : Ctx Vu0) : Prop := c.sys.rest = runtimeContext.sys.rest ∨ c.sys.rest = defaultContext.sys.rest

theorem Built.vf0_eq (hc : Built c) : c.sys.rest.vf 0 = 0 := by
  rcases hc with h | h <;> rw [h] <;> rfl

/-- **No built context has the constants.** -/
theorem Built.not_constants (hc : Built c) : ¬Constants c := by
  intro h
  have hlane := congrFun (hc.vf0_eq.symm.trans h.1) 3
  exact absurd hlane (by decide)

/-- `VCALLMS` or `VCALLMSR`. -/
def Emitted.IsCall : Emitted D → Prop
  | .cop2 w _ => cop2Co ≤ (decodeCop2 w).rs ∧ ((decodeCop2 w).function = 0x38 ∨ (decodeCop2 w).function = 0x39)
  | _ => False

/-- **A call of a microprogram** restores both constants, whatever it finds. -/
theorem Emitted.IsCall.constants (hcall : e.IsCall) (hrun : e.run f d execute c m = some (c', m')) : Constants c' := by
  cases e with
  | cop2 w hw =>
    obtain ⟨hco, hfunction⟩ := hcall
    have hlt : ¬0x3C ≤ (decodeCop2 w).function := by
      rcases hfunction with h | h <;> rw [h] <;> decide
    have hother : otherStatements f execute (decodeCop2 w) = restSpecial1 execute (decodeCop2 w) (decodeCop2 w).function.toNat := by
      rw [otherStatements, if_pos hco, if_neg hlt]
    rw [Emitted.run, translateCop2, translate_co hco, if_neg hlt] at hrun
    have hspecial : translateSpecial1 f (otherStatements f execute) (decodeCop2 w) (decodeCop2 w).function.toNat =
        otherStatements f execute (decodeCop2 w) := by
      rcases hfunction with h | h <;> rw [h] <;> rfl
    rw [hspecial, hother] at hrun
    exact restSpecial1_constants hrun
  | _ => exact hcall.elim

/-- **VF0 is never constant from the start.** No run from a context that is built has the constants before its
first instruction; from a call of a microprogram on, they last as long as no statement has VF0 or VI0 for a
destination. -/
theorem constant_before_iff (es : List (Emitted D)) (c : Ctx Vu0) (m : Ps2Memory D) (hc : Built c) :
    (ConstantBefore f d execute es c m ↔ es = []) ∧
      ∀ done call rest c' m', es = done ++ call :: rest → call.IsCall → (∀ e ∈ rest, e.Spares) →
        runAll f d execute (done ++ [call]) c m = some (c', m') → ConstantBefore f d execute rest c' m' := by
  refine ⟨⟨fun h => ?_, fun h => ?_⟩, ?_⟩
  · cases es with
    | nil => rfl
    | cons e rest => exact absurd (h [] e rest c m rfl rfl) hc.not_constants
  · rintro done e rest c' m' hes -
    rw [h] at hes
    exact absurd hes.symm (List.append_ne_nil_of_right_ne_nil _ (List.cons_ne_nil _ _))
  · intro done call rest c' m' _ hcall hspares hrun
    refine constantBefore_of_spares hspares ?_
    have hsplit (xs : List (Emitted D)) (c : Ctx Vu0) (m : Ps2Memory D)
        (hrun : runAll f d execute (xs ++ [call]) c m = some (c', m')) : Constants c' := by
      induction xs generalizing c m with
      | nil =>
        obtain ⟨⟨c₁, m₁⟩, hstep, hrest⟩ := Option.bind_eq_some_iff.1 hrun
        cases hrest
        exact hcall.constants hstep
      | cons e xs ih =>
        obtain ⟨⟨c₁, m₁⟩, -, hrest⟩ := Option.bind_eq_some_iff.1 hrun
        exact ih c₁ m₁ hrest
    exact hsplit done c m hrun

/-- Microprograms that do nothing. -/
def still (_ : Word) (s : VU1State) (m : Ps2Memory Unit) : VU1State × Ps2Memory Unit := (s, m)

/-- `VNOP` -/
def vnop : Emitted Unit := .cop2 0x4A0002FF (by decide : (0x4A0002FF : Word) >>> 26 = 0x12)

/-- Before the first instruction of a program VF0 is zero. -/
theorem vf0_not_constant : ¬ConstantBefore smallOps quiet still [vnop] runtimeContext cleared := by
  intro h
  have hempty := ((constant_before_iff [vnop] runtimeContext cleared (.inl rfl)).1).1 h
  exact List.cons_ne_nil _ _ hempty

/-- **The constants do not hold in every run from a context that is built.** -/
theorem not_always_constant : ¬∀ (es : List (Emitted Unit)) (c : Ctx Vu0) (m : Ps2Memory Unit), Built c →
    ConstantBefore smallOps quiet still es c m := by
  intro h
  have hconstants := h [vnop] runtimeContext cleared (.inl rfl) [] vnop [] runtimeContext cleared rfl rfl
  exact Built.not_constants (.inl rfl) hconstants

end Runs

end Ps2Recomp.Vu
