import Ps2Recomp.Proof.VuArithmetic

/-!
# The clip register of microprograms

`tests_right_iff`: along every run, the tests of the clip flags answer what the 24 bits of the last four
results of `CLIP` say, unless `FCOR` is executed while the register of the interpreter holds bits
above these 24. `CLIP` does not drop them, `FCEQ` and the immediate of `FCAND` do.
-/

namespace Ps2Recomp.Vu

open Vectors

/-! ### Runs -/

/-- An instruction that sets or tests the clip flags, or anything else that keeps them. -/
inductive ClipStep where
  | clip (instr : Word) (special : instr &&& 0x7FF = 0x1FF)
  | flag (instr : Word) (opcode : 0x10 ≤ opcodeOf instr ∧ opcodeOf instr ≤ 0x13)
  | other (change : Machine → Machine) (keeps : ∀ x, (change x).state.clip = x.state.clip)

variable (f : FloatOps) (dataSize : Word) (rest kick : Word → Machine → Machine)

/-- What the interpreter does. -/
def ClipStep.exec (x : Machine) : ClipStep → Machine
  | .clip instr _ => x.onState (execUpper f instr)
  | .flag instr _ => execLower f dataSize instr x (flagInstruction rest) kick
  | .other change _ => change x

/-- The six comparisons of a `CLIP`, the last of them in the first bit. -/
def clipResult (x : Machine) (instr : Word) : BitVec 6 :=
  let vs := x.state.vf (fsOf instr)
  let w := magnitude (x.state.vf (ftOf instr) 3)
  BitVec.ofBool (f.lt (vs 2) (negated w)) ++ BitVec.ofBool (f.lt w (vs 2)) ++
    BitVec.ofBool (f.lt (vs 1) (negated w)) ++ BitVec.ofBool (f.lt w (vs 1)) ++
    BitVec.ofBool (f.lt (vs 0) (negated w)) ++ BitVec.ofBool (f.lt w (vs 0))

/-- A result is shifted in from the right. -/
def shiftIn (c : BitVec 24) (result : BitVec 6) : BitVec 24 := (c ++ result).setWidth 24

/-- The immediate of 24 bits. -/
def immOf (instr : Word) : BitVec 24 := instr.setWidth 24

/-- The clip register of 24 bits after the step. -/
def ClipStep.register (x : Machine) (c : BitVec 24) : ClipStep → BitVec 24
  | .clip instr _ => shiftIn c (clipResult f x instr)
  | .flag instr _ => if opcodeOf instr = 0x11 then immOf instr else c
  | .other _ _ => c

/-- The answer that a test gives where the register is `c`. -/
def answer (c : BitVec 24) (instr : Word) : Prop :=
  (opcodeOf instr = 0x10 ∧ c = immOf instr) ∨ (opcodeOf instr = 0x12 ∧ c &&& immOf instr ≠ 0) ∨
    (opcodeOf instr = 0x13 ∧ c ||| immOf instr = 0xFFFFFF)

/-- A test leaves its answer in `vi[1]`. -/
def ClipStep.Right (x : Machine) (c : BitVec 24) (e : ClipStep) : Prop :=
  match e with
  | .flag instr _ =>
    opcodeOf instr ≠ 0x11 → ((e.exec f dataSize rest kick x).state.vi 1 = 1 ↔ answer c instr)
  | _ => True

/-- The machine and the register of 24 bits after some steps. -/
def runClip (x : Machine) (c : BitVec 24) : List ClipStep → Machine × BitVec 24
  | [] => (x, c)
  | e :: es => runClip (e.exec f dataSize rest kick x) (e.register f x c) es

/-! ### One step -/

variable {f dataSize rest kick} {x : Machine} {c : BitVec 24} {instr : Word}

theorem and_low24 (x : Word) : x &&& 0xFFFFFF = (x.setWidth 24).setWidth 32 := by
  apply BitVec.eq_of_toNat_eq
  rw [BitVec.toNat_and, BitVec.toNat_setWidth_of_le (by decide), BitVec.toNat_setWidth]
  exact Nat.and_two_pow_sub_one_eq_mod x.toNat 24

theorem execUpper_clip (h : instr &&& 0x7FF = 0x1FF) (s : VU1State) : execUpper f instr s =
    { s with clip := (s.clip <<< 6) ||| clipFlags f (s.vf (fsOf instr)) (magnitude (s.vf (ftOf instr) 3)) } := by
  have hpart : ∀ m : Word, m &&& 0x7FF = m → instr &&& m = (0x1FF : Word) &&& m := by
    intro m hm
    rw [← h, BitVec.and_assoc, BitVec.and_comm (0x7FF : Word) m, hm]
  have hop : (instr &&& (0x3F : Word)).toNat = 0x3F := by
    rw [hpart _ (by decide)]
    decide
  have hspecial : specialOp instr = 0x1F := by
    have hshift : (instr >>> 4) &&& (0x7C : Word) = (instr &&& 0x7C0) >>> 4 := by
      rw [BitVec.ushiftRight_and_distrib]
      rfl
    rw [specialOp, hshift, hpart _ (by decide), hpart _ (by decide)]
    decide
  rw [execUpper, hop]
  change upperSpecial f instr s (specialOp instr) = _
  rw [hspecial]
  rfl

theorem flags_append (b0 b1 b2 b3 b4 b5 : Bool) :
    ((if b0 then 0x01 else 0) ||| (if b1 then 0x02 else 0) ||| (if b2 then 0x04 else 0) |||
      (if b3 then 0x08 else 0) ||| (if b4 then 0x10 else 0) ||| (if b5 then 0x20 else 0) : Word) =
      (BitVec.ofBool b5 ++ BitVec.ofBool b4 ++ BitVec.ofBool b3 ++ BitVec.ofBool b2 ++
        BitVec.ofBool b1 ++ BitVec.ofBool b0).setWidth 32 := by
  revert b0 b1 b2 b3 b4 b5
  decide

theorem clipFlags_eq (x : Machine) : clipFlags f (x.state.vf (fsOf instr)) (magnitude (x.state.vf (ftOf instr) 3)) =
    (clipResult f x instr).setWidth 32 := by
  exact flags_append _ _ _ _ _ _

/-- A result that is shifted into a wider register is shifted into its 24 bits. -/
theorem setWidth_shiftIn (clip : Word) (result : BitVec 6) :
    ((clip <<< 6) ||| result.setWidth 32).setWidth 24 = shiftIn (clip.setWidth 24) result := by
  rw [shiftIn, BitVec.setWidth_append_eq_shiftLeft_setWidth_or, BitVec.setWidth_or,
    BitVec.setWidth_shiftLeft_of_le (by decide), BitVec.setWidth_setWidth_of_le _ (by decide),
    BitVec.setWidth_eq]

/-- The instructions that set or test the flags are none of the others of `execLower`. -/
theorem execLower_flag (h : 0x10 ≤ opcodeOf instr ∧ opcodeOf instr ≤ 0x13) :
    execLower f dataSize instr x (flagInstruction rest) kick = flagInstruction rest instr x := by
  have hskip : ¬(instr = 0x00000000 ∨ instr = 0x8000033C) := by
    rintro (rfl | rfl)
    · exact absurd h.1 (by decide)
    · exact absurd h.2 (by decide)
  have hfirst : (instr >>> 25) &&& 0x7F ≠ 0x40 := by
    intro heq
    have : opcodeOf instr = 0x40 := congrArg BitVec.toNat heq
    omega
  rw [execLower, if_neg hskip, if_neg hfirst]

/-- The low 24 bits of the register of the interpreter go on as the register of 24 bits. -/
theorem register_step (hc : x.state.clip.setWidth 24 = c) (e : ClipStep) :
    (e.exec f dataSize rest kick x).state.clip.setWidth 24 = e.register f x c := by
  subst hc
  cases e with
  | clip instr h =>
    change (execUpper f instr x.state).clip.setWidth 24 = _
    rw [execUpper_clip h, clipFlags_eq]
    exact setWidth_shiftIn _ _
  | flag instr h =>
    have hclip : (ClipStep.exec f dataSize rest kick x (.flag instr h)).state.clip =
        if opcodeOf instr = 0x11 then imm24Of instr else x.state.clip := by
      have hop : opcodeOf instr = 0x10 ∨ opcodeOf instr = 0x11 ∨ opcodeOf instr = 0x12 ∨
          opcodeOf instr = 0x13 := by omega
      change (execLower f dataSize instr x (flagInstruction rest) kick).state.clip = _
      rw [execLower_flag h]
      unfold flagInstruction
      rcases hop with hop | hop | hop | hop <;> rw [hop] <;> rfl
    rw [hclip, ClipStep.register]
    split
    · rw [imm24Of, and_low24, BitVec.setWidth_setWidth_of_le _ (by decide), BitVec.setWidth_eq]
      rfl
    · rfl
  | other change keeps => exact congrArg (BitVec.setWidth 24) (keeps x)

/-! ### The tests -/

theorem setWidth24_inj {a b : BitVec 24} : a.setWidth 32 = b.setWidth 32 ↔ a = b := by
  constructor
  · intro h
    have := congrArg (BitVec.setWidth 24) h
    rwa [BitVec.setWidth_setWidth_of_le _ (by decide), BitVec.setWidth_setWidth_of_le _ (by decide),
      BitVec.setWidth_eq, BitVec.setWidth_eq] at this
  · exact congrArg _

/-- A word without bits above the 24 is its low part. -/
theorem low24_of_lt {x : Word} (h : x.toNat < 2 ^ 24) : (x.setWidth 24).setWidth 32 = x := by
  apply BitVec.eq_of_toNat_eq
  rw [BitVec.toNat_setWidth_of_le (by decide), BitVec.toNat_setWidth, Nat.mod_eq_of_lt h]

/-- **`FCOR` sees the bits above the 24.** -/
theorem or_eq_ones_iff (clip : Word) (imm : BitVec 24) :
    clip ||| imm.setWidth 32 = 0xFFFFFF ↔ clip.toNat < 2 ^ 24 ∧ clip.setWidth 24 ||| imm = 0xFFFFFF := by
  constructor
  · intro h
    constructor
    · have hle : clip.toNat ≤ (clip ||| imm.setWidth 32).toNat := by
        rw [BitVec.toNat_or]
        exact Nat.left_le_or
      rw [h] at hle
      exact Nat.lt_of_le_of_lt hle (by decide)
    · have := congrArg (BitVec.setWidth 24) h
      rwa [BitVec.setWidth_or, BitVec.setWidth_setWidth_of_le _ (by decide), BitVec.setWidth_eq] at this
  · rintro ⟨hlt, h⟩
    rw [← low24_of_lt hlt, ← BitVec.setWidth_or, h]
    rfl

section Tests

variable (rest) (x instr)

theorem vi_test (b : Bool) : (x.state.setVi 1 (if b then 1 else 0)).vi 1 = 1 ↔ b = true := by
  rw [VU1State.setVi, if_pos (by decide)]
  cases b <;> simp

/-- The register of `FCEQ` is masked. -/
theorem fceq_iff (h : opcodeOf instr = 0x10) :
    (flagInstruction rest instr x).state.vi 1 = 1 ↔ x.state.clip.setWidth 24 = immOf instr := by
  unfold flagInstruction
  rw [h]
  refine (vi_test x _).trans ?_
  rw [decide_eq_true_iff, imm24Of, and_low24, and_low24]
  exact setWidth24_inj

/-- The immediate of `FCAND` masks its register. -/
theorem fcand_iff (h : opcodeOf instr = 0x12) :
    (flagInstruction rest instr x).state.vi 1 = 1 ↔ x.state.clip.setWidth 24 &&& immOf instr ≠ 0 := by
  unfold flagInstruction
  rw [h]
  refine (vi_test x _).trans ?_
  have hlow : x.state.clip &&& imm24Of instr = (x.state.clip.setWidth 24 &&& immOf instr).setWidth 32 := by
    have htwice : (0xFFFFFF : Word) &&& (instr &&& 0xFFFFFF) = instr &&& 0xFFFFFF := by
      rw [BitVec.and_comm, BitVec.and_assoc, BitVec.and_self]
    rw [BitVec.setWidth_and, immOf, ← and_low24, ← and_low24, imm24Of, BitVec.and_assoc, htwice]
  rw [decide_eq_true_iff, hlow]
  exact not_congr (setWidth24_inj (b := 0))

/-- Nothing masks the register of `FCOR`. -/
theorem fcor_iff (h : opcodeOf instr = 0x13) : (flagInstruction rest instr x).state.vi 1 = 1 ↔
    x.state.clip.toNat < 2 ^ 24 ∧ x.state.clip.setWidth 24 ||| immOf instr = 0xFFFFFF := by
  unfold flagInstruction
  rw [h]
  refine (vi_test x _).trans ?_
  rw [decide_eq_true_iff, imm24Of, and_low24]
  exact or_eq_ones_iff _ _

end Tests

/-- What a test answers, in the bits that the interpreter reads. -/
theorem right_flag_iff (hc : x.state.clip.setWidth 24 = c) (h : 0x10 ≤ opcodeOf instr ∧ opcodeOf instr ≤ 0x13) :
    (ClipStep.flag instr h).Right f dataSize rest kick x c ↔
      (opcodeOf instr = 0x13 → x.state.clip.toNat < 2 ^ 24 ∨ c ||| immOf instr ≠ 0xFFFFFF) := by
  subst hc
  change (_ → ((execLower f dataSize instr x (flagInstruction rest) kick).state.vi 1 = 1 ↔ _)) ↔ _
  rw [execLower_flag h]
  have hop : opcodeOf instr = 0x10 ∨ opcodeOf instr = 0x11 ∨ opcodeOf instr = 0x12 ∨ opcodeOf instr = 0x13 := by omega
  rcases hop with hop | hop | hop | hop
  · have hanswer : answer (x.state.clip.setWidth 24) instr ↔ x.state.clip.setWidth 24 = immOf instr := by
      simp [answer, hop]
    refine iff_of_true (fun _ => ?_) (fun hfcor => by omega)
    rw [fceq_iff rest x instr hop, hanswer]
  · exact iff_of_true (fun hne => absurd hop hne) (fun hfcor => by omega)
  · have hanswer : answer (x.state.clip.setWidth 24) instr ↔ x.state.clip.setWidth 24 &&& immOf instr ≠ 0 := by
      simp [answer, hop]
    refine iff_of_true (fun _ => ?_) (fun hfcor => by omega)
    rw [fcand_iff rest x instr hop, hanswer]
  · have hanswer : answer (x.state.clip.setWidth 24) instr ↔ x.state.clip.setWidth 24 ||| immOf instr = 0xFFFFFF := by
      simp [answer, hop]
    rw [fcor_iff rest x instr hop, hanswer]
    constructor
    · intro hright _
      by_cases hones : x.state.clip.setWidth 24 ||| immOf instr = 0xFFFFFF
      · exact .inl ((hright (by omega)).2 hones).1
      · exact .inr hones
    · intro hcond _
      exact ⟨And.right, fun hones => ⟨(hcond hop).resolve_right (not_not_intro hones), hones⟩⟩

/-! ### Runs -/

variable (f dataSize rest kick) in
/-- Along a run the registers go together. -/
theorem register_run (es : List ClipStep) : ∀ (x : Machine) (c : BitVec 24), x.state.clip.setWidth 24 = c →
    (runClip f dataSize rest kick x c es).1.state.clip.setWidth 24 = (runClip f dataSize rest kick x c es).2 := by
  induction es with
  | nil => exact fun x c hc => hc
  | cons e es ih => exact fun x c hc => ih _ _ (register_step hc e)

variable (f dataSize rest kick) in
/-- **The tests answer what the last four results say, except where `FCOR` sees bits above them.** -/
theorem tests_right_iff (x : Machine) (es : List ClipStep) :
    (∀ before e after, es = before ++ e :: after →
      let y := runClip f dataSize rest kick x (x.state.clip.setWidth 24) before
      e.Right f dataSize rest kick y.1 y.2) ↔
    ∀ before instr h after, es = before ++ .flag instr h :: after → opcodeOf instr = 0x13 →
      let y := runClip f dataSize rest kick x (x.state.clip.setWidth 24) before
      y.1.state.clip.toNat < 2 ^ 24 ∨ y.2 ||| immOf instr ≠ 0xFFFFFF := by
  constructor
  · intro hright before instr h after hes
    exact (right_flag_iff (register_run f dataSize rest kick before x _ rfl) h).1 (hright before _ after hes)
  · intro hcond before e after hes
    cases e with
    | flag instr h =>
      exact (right_flag_iff (register_run f dataSize rest kick before x _ rfl) h).2 (hcond before instr h after hes)
    | clip instr h => trivial
    | other change keeps => trivial

/-! ### A bit that is shifted out -/

/-- The last flag is set, `CLIP` shifts it out, and `FCOR` tests all flags at once. -/
def shiftedOut : List ClipStep :=
  [.flag 0x22800000 (by decide), .clip 0x01C001FF (by decide), .flag 0x26FFFFFF (by decide)]

/-- **`FCOR` fails because of a flag that `CLIP` has shifted out.** -/
theorem shifted_out_lost :
    ¬∀ (f : FloatOps) (dataSize : Word) (rest kick : Word → Machine → Machine) (x : Machine)
      (es before after : List ClipStep) (e : ClipStep), es = before ++ e :: after →
      let y := runClip f dataSize rest kick x (x.state.clip.setWidth 24) before
      e.Right f dataSize rest kick y.1 y.2 := by
  intro h
  let x : Machine := ⟨copyVu0ContextToState smallContext, fun _ => 0⟩
  let before := shiftedOut.take 2
  have hright := h smallOps 0x4000 (fun _ x => x) (fun _ x => x) x shiftedOut before [] (.flag 0x26FFFFFF (by decide)) rfl
  have hc := register_run smallOps 0x4000 (fun _ x => x) (fun _ x => x) before x _ rfl
  have hover : ¬(runClip smallOps 0x4000 (fun _ x => x) (fun _ x => x) x
      (x.state.clip.setWidth 24) before).1.state.clip.toNat < 2 ^ 24 := by decide
  rcases (right_flag_iff hc (by decide)).1 hright (by decide) with hlt | hones
  · exact hover hlt
  · exact hones (by decide)

end Ps2Recomp.Vu
