import Ps2Recomp.Proof.VuArithmetic

/-!
# The integers and the memory of VU0, twice

The integer and memory instructions of VU0 are written twice, as the arithmetic is. The statements on
integer registers do what the interpreter does (`same_three`, `same_iaddi`, `same_mfir`). The statements on
memory work on another memory: they access main memory where the interpreter accesses the data memory
of VU0, and keep ten bits of an address register where it keeps sixteen. `integerAgrees_iff` says where
they come to the same. `writesVi_iff` and `readsVi_iff` do so for the control registers 1 to 15, none of
which is an integer register.
-/

namespace Ps2Recomp.Vu

open Vectors Memory Statement

/-! ### The instructions -/

/-- The operations on three integer registers. -/
inductive Three
  | add | sub | and | or
  deriving DecidableEq, Repr

/-- **The integer and memory instructions.** -/
inductive IntegerOp
  | three (t : Three)
  | iaddi | mtir | mfir | lqi | sqi | lqd | sqd | ilwr | iswr
  deriving DecidableEq, Repr

/-- The functions below `0x3C`. -/
def special1Integer : ℕ → Option IntegerOp
  | 0x30 => some (.three .add)
  | 0x31 => some (.three .sub)
  | 0x32 => some .iaddi
  | 0x34 => some (.three .and)
  | 0x35 => some (.three .or)
  | _ => none

/-- The functions from `0x3C` on, by their selector. -/
def special2Integer : ℕ → Option IntegerOp
  | 0x34 => some .lqi
  | 0x35 => some .sqi
  | 0x36 => some .lqd
  | 0x37 => some .sqd
  | 0x3C => some .mtir
  | 0x3D => some .mfir
  | 0x3E => some .ilwr
  | 0x3F => some .iswr
  | _ => none

/-- The integer instruction that a word encodes. -/
def IntegerOp.ofWord (w : Word) : Option IntegerOp :=
  if 0x3C ≤ (w.setWidth 6 : BitVec 6) then special2Integer (special2Func w).toNat
  else special1Integer (w.setWidth 6 : BitVec 6).toNat

def Three.apply {n : ℕ} : Three → BitVec n → BitVec n → BitVec n
  | .add, a, b => a + b
  | .sub, a, b => a - b
  | .and, a, b => a &&& b
  | .or, a, b => a ||| b

/-- What the interpreter makes of the result: sums and differences are cut to 16 bits. -/
def Three.keep : Three → Word → Word
  | .add, x | .sub, x => toInt16 x
  | .and, x | .or, x => x

namespace IntegerOp

variable {D : Type} (d : Devices D) (inst : Cop2Instruction)

/-- The statement's effect. -/
def statement (v : Vu0) (m : Ps2Memory D) : IntegerOp → Option (Vu0 × Ps2Memory D)
  | .three t => (onVi inst t.apply v).map (·, m)
  | .iaddi => (translateVuViaddi inst v).map (·, m)
  | .mtir => (translateVuVmtir inst v).map (·, m)
  | .mfir => (translateVuVmfir inst v).map (·, m)
  | .lqi => translateVuVlqi d inst v m
  | .sqi => translateVuVsqi d inst v m
  | .lqd => translateVuVlqd d inst v m
  | .sqd => translateVuVsqd d inst v m
  | .ilwr => translateVuVilwr d inst v m
  | .iswr => translateVuViswr d inst v m

/-- The interpreter's step. -/
def step (instr : Word) (x : Machine) : IntegerOp → Machine
  | .three t =>
    x.onState (·.setVi (vidOf instr) (t.keep (t.apply (x.state.vi (visOf instr)) (x.state.vi (vitOf instr)))))
  | .iaddi =>
    let imm5 : BitVec 5 := (instr >>> 6).setWidth 5
    x.onState (·.setVi (vitOf instr) (toInt16 (x.state.vi (visOf instr) + imm5.signExtend 32)))
  | .mtir => x.onState (·.setVi (vitOf instr) (toInt16 (x.state.vf (fsOf instr) (compOf (destOf instr)))))
  | .mfir => x.onState (·.setVf (ftOf instr) (set1Ps (toInt16 (x.state.vi (visOf instr)))) (destOf instr))
  | .lqi =>
    (loadQuad vu0DataSize instr x (wrapped vu0DataSize (x.state.vi (visOf instr)))).onState
      (·.setVi (visOf instr) (toInt16 (x.state.vi (visOf instr) + 1)))
  | .sqi =>
    (storeQuad vu0DataSize instr x (wrapped vu0DataSize (x.state.vi (vitOf instr)))).onState
      (·.setVi (vitOf instr) (toInt16 (x.state.vi (vitOf instr) + 1)))
  | .lqd =>
    let y := x.onState (·.setVi (visOf instr) (toInt16 (x.state.vi (visOf instr) - 1)))
    loadQuad vu0DataSize instr y (wrapped vu0DataSize (y.state.vi (visOf instr)))
  | .sqd =>
    let y := x.onState (·.setVi (vitOf instr) (toInt16 (x.state.vi (vitOf instr) - 1)))
    storeQuad vu0DataSize instr y (wrapped vu0DataSize (y.state.vi (vitOf instr)))
  | .ilwr => loadInteger vu0DataSize instr x (wrapped vu0DataSize (x.state.vi (visOf instr)))
  | .iswr => storeInteger vu0DataSize instr x (wrapped vu0DataSize (x.state.vi (visOf instr)))

variable {d inst} {f : FloatOps} {other : Cop2Instruction → Statement D} {k : ℕ} {op : IntegerOp} {instr : Word} {x : Machine}
  {doXgkick : Word → Machine → Machine}

theorem tryVu0_eq (g : Vu0 → Option Vu0) : (tryVu0 g : Statement D) = onMemory fun v m => (g v).map (·, m) := by
  funext c m
  rw [tryVu0, onMemory]
  cases g c.sys.rest <;> rfl

theorem translate_op1 (h : special1Integer k = some op) :
    translateSpecial1 (D := D) f other inst k = onMemory fun v m => op.statement d inst v m := by
  unfold special1Integer at h
  split at h <;> cases h <;> exact tryVu0_eq _

theorem translate_op2 (h : special2Integer k = some op) :
    translateSpecial2 f d other inst k = onMemory fun v m => op.statement d inst v m := by
  unfold special2Integer at h
  split at h <;> cases h <;> first | rfl | exact tryVu0_eq _

theorem lower_op1 (h : special1Integer k = some op) : lower f vu0DataSize instr x doXgkick k = op.step instr x := by
  unfold special1Integer at h
  split at h <;> cases h <;> rfl

theorem lower_op2 (h : special2Integer k = some op) :
    lowerSpecial f vu0DataSize instr x doXgkick k = op.step instr x := by
  unfold special2Integer at h
  split at h <;> cases h <;> rfl

end IntegerOp

/-! ### Integer registers -/

/-- The integer register that four bits of a field name. -/
def viOf (n : Reg) : Fin 16 := .ofNat 16 n.val

/-- **The same outcome**: the vector registers, the integer registers modulo `2 ^ 16` and the data memory
of VU0, while main memory stays as it is. -/
structure SameData {D : Type} (m : Ps2Memory D) (v : Vu0) (m' : Ps2Memory D) (x : Machine) : Prop where
  vf : v.vf = x.state.vf
  vi : ∀ n, v.vi n = (x.state.vi n).setWidth 16
  vuData : m'.vu .vu0Data = x.vuData
  rdram : m'.rdram = m.rdram

/-- The interpreter holds the registers of the context and the data memory of VU0. -/
structure CopiedData {D : Type} (v : Vu0) (m : Ps2Memory D) (x : Machine) : Prop where
  vf : x.state.vf = v.vf
  vi : ∀ n, (x.state.vi n).setWidth 16 = v.vi n
  vuData : x.vuData = m.vu .vu0Data

variable {y : BitVec 16}

section Registers

variable {v : Vu0} {s : VU1State} {n : Reg} {instr : Word} {inst : Cop2Instruction}

theorem getVi_lt (h : n < 16) : v.getVi n = some (v.vi (viOf n)) := by
  have hn : n.val < 16 := h
  have hindex : (⟨n.val, hn⟩ : Fin 16) = viOf n := Fin.ext (Nat.mod_eq_of_lt hn).symm
  rw [Vu0.getVi, dif_pos hn, hindex]

theorem getVi_ge (h : ¬n < 16) : v.getVi n = none := dif_neg h

theorem setVi_lt (h : n < 16) (y : BitVec 16) : v.setVi n y = some { v with vi := Function.update v.vi (viOf n) y } := by
  have hn : n.val < 16 := h
  have hindex : (⟨n.val, hn⟩ : Fin 16) = viOf n := Fin.ext (Nat.mod_eq_of_lt hn).symm
  rw [Vu0.setVi, dif_pos hn, hindex]

theorem setVi_ge (h : ¬n < 16) (y : BitVec 16) : v.setVi n y = none := dif_neg h

theorem viOf_inj {n' : Reg} (h : n < 16) (h' : n' < 16) (heq : viOf n = viOf n') : n = n' := by
  have hn : n.val < 16 := h
  have hn' : n'.val < 16 := h'
  have hval := congrArg Fin.val heq
  rw [viOf, viOf, Fin.val_ofNat, Fin.val_ofNat, Nat.mod_eq_of_lt hn, Nat.mod_eq_of_lt hn'] at hval
  exact Fin.ext hval

theorem viOf_ne_zero (h : n < 16) (hne : n ≠ 0) : viOf n ≠ 0 := fun heq => hne (viOf_inj h (by decide) heq)

section

variable (hn : Fields inst instr)

include hn

theorem vitOf_eq : vitOf instr = viOf inst.rt := by
  rw [← hn.rt, vitOf, viOf, ftOf, Fin.ext_iff, Fin.val_ofNat, Fin.val_ofNat, Fin.val_ofNat]
  omega

theorem visOf_eq : visOf instr = viOf inst.rd := by
  rw [← hn.rd, visOf, viOf, fsOf, Fin.ext_iff, Fin.val_ofNat, Fin.val_ofNat, Fin.val_ofNat]
  omega

theorem vidOf_eq : vidOf instr = viOf inst.sa := by
  rw [← hn.sa, vidOf, viOf, fdOf, Fin.ext_iff, Fin.val_ofNat, Fin.val_ofNat, Fin.val_ofNat]
  omega

end

@[simp] theorem setWidth_toInt16 (y : Word) : (toInt16 y).setWidth 16 = y.setWidth 16 := by
  refine BitVec.eq_of_getLsbD_eq fun i hi => ?_
  rw [toInt16, BitVec.getLsbD_setWidth, BitVec.getLsbD_signExtend, BitVec.getLsbD_setWidth, if_pos hi,
    decide_eq_true (by omega : i < 32)]
  simp only [decide_eq_true hi, Bool.true_and]

theorem setVi_apply (j n : Fin 16) (y : Word) :
    ((s.setVi j y).vi n).setWidth 16 = if n = j ∧ j ≠ 0 then y.setWidth 16 else (s.vi n).setWidth 16 := by
  rw [VU1State.setVi]
  by_cases hj : j ≠ 0
  · rw [if_pos hj]
    by_cases hn : n = j
    · rw [if_pos ⟨hn, hj⟩, hn]
      exact congrArg (BitVec.setWidth 16) (Function.update_self j y s.vi)
    · rw [if_neg fun h => hn h.1]
      exact congrArg (BitVec.setWidth 16) (Function.update_of_ne hn y s.vi)
  · rw [if_neg hj, if_neg fun h => hj h.2]

section

variable (hs : ∀ n, (s.vi n).setWidth 16 = v.vi n)

include hs

/-- A register that both write holds the same if and only if they write the same. -/
theorem updates_iff {j : Fin 16} (hj : j ≠ 0) (y : BitVec 16) (z : Word) :
    (∀ n, Function.update v.vi j y n = ((s.setVi j z).vi n).setWidth 16) ↔ y = z.setWidth 16 := by
  constructor
  · intro h
    have hself := h j
    rwa [Function.update_self, setVi_apply, if_pos ⟨rfl, hj⟩] at hself
  · rintro h n
    rw [setVi_apply, hs]
    by_cases hn : n = j
    · rw [if_pos ⟨hn, hj⟩, hn, Function.update_self, h]
    · rw [if_neg fun hnj => hn hnj.1, Function.update_of_ne hn]

/-- Where a write changes the register, the other must write the same register. -/
theorem updates_apart_iff {i j : Fin 16} (hy : y ≠ v.vi i) (z : Word) :
    (∀ n, Function.update v.vi i y n = ((s.setVi j z).vi n).setWidth 16) ↔ i = j ∧ j ≠ 0 ∧ y = z.setWidth 16 := by
  constructor
  · intro h
    have hself := h i
    rw [Function.update_self, setVi_apply, hs] at hself
    by_cases hij : i = j ∧ j ≠ 0
    · rw [if_pos hij] at hself
      exact ⟨hij.1, hij.2, hself⟩
    · rw [if_neg hij] at hself
      exact absurd hself hy
  · rintro ⟨rfl, hj, h⟩
    exact (updates_iff hs hj y z).2 h

end

end Registers

/-! ### Accesses -/

section Accesses

variable {D : Type} {d : Devices D} {m : Ps2Memory D} {addr : Word}

/-- Addresses of the statements, which keep below 16 KiB, lead to main memory. -/
theorem not_special (h : addr.toNat < 0x4000) : ps2IsSpecialAddress addr = false := by
  rw [Bool.eq_false_iff, ne_eq, special_iff]
  have hphys : physical addr.toNat = addr.toNat := if_neg (by omega)
  omega

theorem masked (h : addr.toNat < 0x4000) : addr &&& ramMask = addr := by
  apply BitVec.eq_of_toNat_eq
  rw [and_ramMask]
  exact Nat.mod_eq_of_lt (by omega)

section

variable (addr : Word) (h : addr.toNat + 4 ≤ 0x4000)

include h

theorem read32_eq : read32 d addr m = some (.ofNat 32 (Bytes.load m.rdram addr.toNat 4), m) := by
  have hfast := readMacro_fast (d := d) (m := m) (w := .w32) (not_special (by omega : addr.toNat < 0x4000))
  have hread := fastRead_eq (w := .w32) (b := m.rdram) (masked (by omega : addr.toNat < 0x4000)) (by
    change addr.toNat + 4 ≤ _
    omega)
  rw [read32, hfast, hread]
  rfl

theorem write32_eq (y : Word) :
    write32 d addr y m = some { m with rdram := Bytes.store m.rdram addr.toNat y.toNat 4 } := by
  have hfast := writeMacro_fast (d := d) (m := m) (w := .w32) (not_special (by omega : addr.toNat < 0x4000)) y
  have hwrite := fastWrite_eq (w := .w32) (b := m.rdram) y (masked (by omega : addr.toNat < 0x4000)) (by
    change addr.toNat + 4 ≤ _
    omega)
  rw [write32, hfast, hwrite]
  rfl

end

theorem read128_eq (h : addr.toNat + 16 ≤ 0x4000) : read128 d addr m = some (Bytes.quad m.rdram addr.toNat, m) := by
  have hfast := readMacro_fast (d := d) (m := m) (w := .w128) (not_special (by omega : addr.toNat < 0x4000))
  have hread := fastRead_eq (w := .w128) (b := m.rdram) (masked (by omega : addr.toNat < 0x4000)) (by
    change addr.toNat + 16 ≤ _
    omega)
  rw [read128, hfast, hread]
  exact congrArg (fun lanes => some (lanes, m)) castSi128_load

theorem write128_eq (h : addr.toNat + 16 ≤ 0x4000) (y : Vec) :
    write128 d addr y m = some { m with rdram := Bytes.setQuad m.rdram addr.toNat y } := by
  have hfast := writeMacro_fast (d := d) (m := m) (w := .w128) (not_special (by omega : addr.toNat < 0x4000)) (castPs y)
  have hwrite := fastWrite_eq (w := .w128) (b := m.rdram) (castPs y) (masked (by omega : addr.toNat < 0x4000)) (by
    change addr.toNat + 16 ≤ _
    omega)
  rw [write128, hfast, hwrite]
  exact congrArg (fun b => some { m with rdram := b }) store_castPs

/-- The statements keep ten bits of an address register. -/
theorem toNat_quadAddr (vi : BitVec 16) : (quadAddr vi).toNat = vi.toNat % 1024 * 16 := by
  have hlow : (vi &&& 0x3FF).toNat = vi.toNat % 1024 := by
    rw [BitVec.toNat_and]
    exact Nat.and_two_pow_sub_one_eq_mod vi.toNat 10
  rw [quadAddr, BitVec.toNat_shiftLeft, BitVec.toNat_setWidth, hlow, Nat.shiftLeft_eq]
  omega

/-- The address of `VILWR` and `VISWR`. -/
theorem toNat_wordAddr (vi : BitVec 16) : ((vi.setWidth 32 <<< 2) &&& 0x3FFC : Word).toNat = vi.toNat % 4096 * 4 := by
  have hlt := vi.isLt
  have hword : (vi.setWidth 32 <<< 2 : Word).toNat = vi.toNat * 4 := by
    rw [BitVec.toNat_shiftLeft, BitVec.toNat_setWidth, Nat.shiftLeft_eq]
    omega
  have hmask : ((vi.setWidth 32 <<< 2) &&& 0x3FFC : Word) = (vi.setWidth 32 <<< 2) &&& (0x3FFF : Word) := by
    refine BitVec.eq_of_getLsbD_eq fun i hi => ?_
    simp only [BitVec.getLsbD_and, BitVec.getLsbD_shiftLeft]
    by_cases h2 : i < 2
    · simp [h2]
    · have hbits : ∀ i < 32, ¬i < 2 → (0x3FFC : Word).getLsbD i = (0x3FFF : Word).getLsbD i := by decide
      rw [hbits i hi h2]
  have hand : ((vi.setWidth 32 <<< 2) &&& (0x3FFF : Word)).toNat = vi.toNat * 4 % 2 ^ 14 := by
    rw [BitVec.toNat_and, hword]
    exact Nat.and_two_pow_sub_one_eq_mod _ 14
  rw [hmask, hand]
  omega

/-- The interpreter keeps an address inside of the data memory. -/
theorem toNat_wrapped (y : Word) : (wrapped vu0DataSize y).toNat = (y.setWidth 16).toNat * 16 % 4096 := by
  have hmask : (vu0DataSize - 1 : Word).toNat = 2 ^ 12 - 1 := rfl
  rw [wrapped, and_low hmask, BitVec.toNat_mul, BitVec.toNat_setWidth]
  have hlt := (y.setWidth 16).isLt
  change ((y.setWidth 16).toNat % 2 ^ 32 * 16) % 2 ^ 32 % 2 ^ 12 = _
  omega

theorem wrapped_fits (y : Word) : (wrapped vu0DataSize y).toNat + 16 ≤ vu0DataSize.toNat := by
  have hsize : vu0DataSize.toNat = 4096 := rfl
  rw [toNat_wrapped, hsize]
  omega

end Accesses

/-! ### Where the two agree -/

section Fits

variable {D : Type} (m : Ps2Memory D) (vi : BitVec 16)

/-- The word of main memory that `VILWR` and `VISWR` access. -/
def ramWord : Word := .ofNat 32 (Bytes.load m.rdram (vi.toNat % 4096 * 4) 4)

/-- The quadword of main memory that `VLQI` and its siblings access. -/
def ramQuad : Vec := Bytes.quad m.rdram (vi.toNat % 1024 * 16)

/-- The quadword of the data memory that the interpreter accesses. -/
def dataQuad : Vec := Bytes.quad (m.vu .vu0Data) (vi.toNat * 16 % 4096)

variable (inst : Cop2Instruction) (v : Vu0)

/-- **Where a statement does what the interpreter does.** Integer registers must be among the sixteen.
The two memories must hold the same in the fields that are loaded, and what is stored in the fields that
are stored; the address register must keep to ten bits, and the statement of a store must take the
register of the interpreter for it. -/
def IntegerOp.Fits : IntegerOp → Prop
  | .three _ => inst.sa < 16 ∧ inst.rd < 16 ∧ inst.rt < 16
  | .iaddi => inst.rd < 16 ∧ inst.rt < 16
  | .mtir =>
    inst.rt < 16 ∧ (v.vf inst.rd inst.fsf).setWidth 16 = (v.vf inst.rd (compOf inst.vectorField)).setWidth 16
  | .mfir => inst.rd < 16
  | .lqi =>
    let vi := v.vi (viOf inst.rd)
    inst.rd < 16 ∧ (vi + 1).toNat < 1024 ∧ ∀ c, Selects inst.vectorField c → ramQuad m vi c = dataQuad m vi c
  | .sqi =>
    let vi := v.vi (viOf inst.rd)
    inst.rd < 16 ∧ viOf inst.rd = viOf inst.rt ∧ viOf inst.rt ≠ 0 ∧ (vi + 1).toNat < 1024 ∧
      (∀ c, Selects inst.vectorField c → v.vf inst.rt c = ramQuad m vi c) ∧
        ∀ c, Selects inst.vectorField c → v.vf inst.rd c = dataQuad m vi c
  | .lqd =>
    let vi := v.vi (viOf inst.rd) - 1
    inst.rd < 16 ∧ vi.toNat < 1024 ∧ ∀ c, Selects inst.vectorField c → ramQuad m vi c = dataQuad m vi c
  | .sqd =>
    let vi := v.vi (viOf inst.rd) - 1
    inst.rd < 16 ∧ viOf inst.rd = viOf inst.rt ∧ viOf inst.rt ≠ 0 ∧ vi.toNat < 1024 ∧
      (∀ c, Selects inst.vectorField c → v.vf inst.rt c = ramQuad m vi c) ∧
        ∀ c, Selects inst.vectorField c → v.vf inst.rd c = dataQuad m vi c
  | .ilwr =>
    let vi := v.vi (viOf inst.rd)
    inst.rd < 16 ∧ inst.rt < 16 ∧ (ramWord m vi).setWidth 16 = (dataQuad m vi (compOf inst.vectorField)).setWidth 16
  | .iswr =>
    let vi := v.vi (viOf inst.rd)
    let word : Word := (v.vi (viOf inst.rt)).setWidth 32
    inst.rd < 16 ∧ inst.rt < 16 ∧ word = ramWord m vi ∧ ∀ c, Selects inst.vectorField c → word = dataQuad m vi c

/-- The vector register that a statement writes. -/
def IntegerOp.vfDest : IntegerOp → Option Reg
  | .mfir | .lqi | .lqd => some inst.rt
  | _ => none

/-- The integer register that a statement writes. -/
def IntegerOp.viDest : IntegerOp → Option Reg
  | .three _ => some inst.sa
  | .iaddi | .mtir | .ilwr => some inst.rt
  | .lqi | .sqi | .lqd | .sqd => some inst.rd
  | .mfir | .iswr => none

/-- The registers that the interpreter writes are none of the constant ones. A store counts up or down the
register that four bits of `rt` name. -/
def IntegerOp.Destined : IntegerOp → Prop
  | .three _ => inst.sa ≠ 0
  | .iaddi | .mtir | .mfir | .ilwr => inst.rt ≠ 0
  | .sqi | .sqd => viOf inst.rt ≠ 0
  | .lqi | .lqd => inst.rt ≠ 0 ∧ inst.rd ≠ 0
  | .iswr => True

end Fits

/-! ### What the statements do -/

section Statements

variable {D : Type} {d : Devices D} {m : Ps2Memory D} {v : Vu0} {inst : Cop2Instruction} {op : IntegerOp}

/-- The integer registers that a statement names are among the sixteen. -/
def IntegerOp.Registers (inst : Cop2Instruction) : IntegerOp → Prop
  | .three _ => inst.sa < 16 ∧ inst.rd < 16 ∧ inst.rt < 16
  | .iaddi | .ilwr | .iswr => inst.rd < 16 ∧ inst.rt < 16
  | .mtir => inst.rt < 16
  | .mfir | .lqi | .sqi | .lqd | .sqd => inst.rd < 16

/-- `v` with `y` in the integer register. -/
def putVi (v : Vu0) (n : Reg) (y : BitVec 16) : Vu0 := { v with vi := Function.update v.vi (viOf n) y }

/-- `m` with the quadword at an address register. -/
def putQuad (m : Ps2Memory D) (vi : BitVec 16) (y : Vec) : Ps2Memory D :=
  { m with rdram := Bytes.setQuad m.rdram (vi.toNat % 1024 * 16) y }

/-- The immediate of `VIADDI`. -/
def imm5 (sa : Reg) : BitVec 16 := (BitVec.ofNat 5 sa.val).signExtend 16

/-- **What a statement does** with these registers. -/
def IntegerOp.result (inst : Cop2Instruction) (v : Vu0) (m : Ps2Memory D) : IntegerOp → Vu0 × Ps2Memory D
  | .three t => (putVi v inst.sa (t.apply (v.vi (viOf inst.rd)) (v.vi (viOf inst.rt))), m)
  | .iaddi => (putVi v inst.rt (v.vi (viOf inst.rd) + imm5 inst.sa), m)
  | .mtir => (putVi v inst.rt ((v.vf inst.rd inst.fsf).setWidth 16), m)
  | .mfir => (blendVf inst v inst.rt (set1Ps ((v.vi (viOf inst.rd)).signExtend 32)), m)
  | .lqi =>
    let vi := v.vi (viOf inst.rd)
    (putVi (blendVf inst v inst.rt (ramQuad m vi)) inst.rd ((vi + 1) &&& 0x3FF), m)
  | .sqi =>
    let vi := v.vi (viOf inst.rd)
    (putVi v inst.rd ((vi + 1) &&& 0x3FF), putQuad m vi (applyDest (ramQuad m vi) (v.vf inst.rt) inst.vectorField))
  | .lqd =>
    let vi := (v.vi (viOf inst.rd) - 1) &&& 0x3FF
    (blendVf inst (putVi v inst.rd vi) inst.rt (ramQuad m vi), m)
  | .sqd =>
    let vi := (v.vi (viOf inst.rd) - 1) &&& 0x3FF
    (putVi v inst.rd vi, putQuad m vi (applyDest (ramQuad m vi) (v.vf inst.rt) inst.vectorField))
  | .ilwr => (putVi v inst.rt ((ramWord m (v.vi (viOf inst.rd))).setWidth 16), m)
  | .iswr =>
    (v, { m with
      rdram := Bytes.store m.rdram ((v.vi (viOf inst.rd)).toNat % 4096 * 4) ((v.vi (viOf inst.rt)).setWidth 32 : Word).toNat 4 })

section

variable (vi : BitVec 16)

theorem read_wordAddr : read32 d ((vi.setWidth 32 <<< 2) &&& 0x3FFC) m = some (ramWord m vi, m) := by
  have haddr := toNat_wordAddr vi
  rw [read32_eq _ (by omega), haddr]
  rfl

theorem write_wordAddr (y : Word) : write32 d ((vi.setWidth 32 <<< 2) &&& 0x3FFC) y m =
    some { m with rdram := Bytes.store m.rdram (vi.toNat % 4096 * 4) y.toNat 4 } := by
  have haddr := toNat_wordAddr vi
  rw [write32_eq _ (by omega), haddr]

theorem read_quadAddr : read128 d (quadAddr vi) m = some (ramQuad m vi, m) := by
  have haddr := toNat_quadAddr vi
  rw [read128_eq (by omega), haddr]
  rfl

theorem write_quadAddr (y : Vec) : write128 d (quadAddr vi) y m = some (putQuad m vi y) := by
  have haddr := toNat_quadAddr vi
  rw [write128_eq (by omega), haddr, putQuad]

end

theorem getVi_putVi {n : Reg} (hn : n < 16) (y : BitVec 16) : (putVi v n y).getVi n = some y := by
  rw [getVi_lt hn]
  change some (Function.update v.vi (viOf n) y (viOf n)) = _
  rw [Function.update_self]

theorem translateVuViaddi_eq (hrd : inst.rd < 16) (hrt : inst.rt < 16) :
    translateVuViaddi inst v = some (putVi v inst.rt (v.vi (viOf inst.rd) + imm5 inst.sa)) := by
  have himm : ∀ sa : Reg,
      (if (BitVec.ofNat 32 sa.val : Word) &&& 0x10 ≠ 0 then (BitVec.ofNat 32 sa.val : Word) ||| ~~~0x1F
        else BitVec.ofNat 32 sa.val).setWidth 16 = imm5 sa := by
    decide +kernel
  rw [translateVuViaddi, getVi_lt hrd]
  change v.setVi inst.rt _ = _
  rw [setVi_lt hrt, putVi, BitVec.setWidth_add _ _ (by omega), himm]
  congr 3
  rw [BitVec.setWidth_setWidth_of_le _ (by omega), BitVec.setWidth_eq]

theorem IntegerOp.statement_eq (h : op.Registers inst) : op.statement d inst v m = some (op.result inst v m) := by
  cases op with
  | three t =>
    obtain ⟨hsa, hrd, hrt⟩ := h
    rw [statement, onVi, getVi_lt hrd, getVi_lt hrt]
    exact congrArg (Option.map (·, m)) (setVi_lt hsa _)
  | iaddi =>
    rw [statement, translateVuViaddi_eq h.1 h.2]
    rfl
  | mtir => exact congrArg (Option.map (·, m)) (setVi_lt h _)
  | mfir =>
    rw [statement, translateVuVmfir, getVi_lt h]
    rfl
  | lqi =>
    rw [statement, translateVuVlqi, getVi_lt h]
    change (read128 d _ m).bind _ = _
    rw [read_quadAddr]
    change ((blendVf inst v inst.rt (ramQuad m (v.vi (viOf inst.rd)))).getVi inst.rd).bind _ = _
    rw [getVi_lt h]
    change (Vu0.setVi _ _ _).bind _ = _
    rw [setVi_lt h]
    rfl
  | sqi =>
    rw [statement, translateVuVsqi, getVi_lt h]
    change (read128 d _ m).bind _ = _
    rw [read_quadAddr]
    change (write128 d _ _ m).bind _ = _
    rw [write_quadAddr, blendvPs_vuMaskExpr]
    change (Vu0.setVi _ _ _).bind _ = _
    rw [setVi_lt h]
    rfl
  | lqd =>
    rw [statement, translateVuVlqd, getVi_lt h]
    change (v.setVi inst.rd _).bind _ = _
    rw [setVi_lt h]
    change ((putVi v inst.rd _).getVi inst.rd).bind _ = _
    rw [getVi_putVi h]
    change (read128 d _ m).bind _ = _
    rw [read_quadAddr]
    rfl
  | sqd =>
    rw [statement, translateVuVsqd, getVi_lt h]
    change (v.setVi inst.rd _).bind _ = _
    rw [setVi_lt h]
    change ((putVi v inst.rd _).getVi inst.rd).bind _ = _
    rw [getVi_putVi h]
    change (read128 d _ m).bind _ = _
    rw [read_quadAddr]
    change (write128 d _ _ m).bind _ = _
    rw [write_quadAddr, blendvPs_vuMaskExpr]
    rfl
  | ilwr =>
    rw [statement, translateVuVilwr, getVi_lt h.1]
    change (read32 d _ m).bind _ = _
    rw [read_wordAddr]
    change (v.setVi inst.rt _).bind _ = _
    rw [setVi_lt h.2]
    rfl
  | iswr =>
    rw [statement, translateVuViswr, getVi_lt h.1, getVi_lt h.2]
    change (write32 d _ _ m).bind _ = _
    rw [write_wordAddr]
    rfl

theorem lt_of_getVi {α : Type} {n : Reg} {f : BitVec 16 → Option α} (h : ((v.getVi n).bind f).isSome) :
    n < 16 ∧ (f (v.vi (viOf n))).isSome := by
  by_cases hn : n < 16
  · rw [getVi_lt hn] at h
    exact ⟨hn, h⟩
  · rw [getVi_ge hn] at h
    cases h

theorem lt_of_setVi {n : Reg} (h : (v.setVi n y).isSome) : n < 16 := by
  by_contra hn
  rw [setVi_ge hn] at h
  cases h

/-- A statement with a register that is none of the sixteen has no result. -/
theorem IntegerOp.registers_of_isSome (h : (op.statement d inst v m).isSome) : op.Registers inst := by
  cases op with
  | three t =>
    rw [statement, Option.isSome_map] at h
    obtain ⟨hrd, h⟩ := lt_of_getVi h
    obtain ⟨hrt, h⟩ := lt_of_getVi h
    exact ⟨lt_of_setVi h, hrd, hrt⟩
  | iaddi =>
    rw [statement, Option.isSome_map] at h
    obtain ⟨hrd, h⟩ := lt_of_getVi h
    exact ⟨hrd, lt_of_setVi h⟩
  | mtir =>
    rw [statement, Option.isSome_map] at h
    exact lt_of_setVi h
  | mfir =>
    rw [statement, Option.isSome_map] at h
    exact (lt_of_getVi h).1
  | ilwr =>
    obtain ⟨hrd, h⟩ := lt_of_getVi h
    change ((read32 d _ m).bind _).isSome at h
    rw [read_wordAddr] at h
    change ((v.setVi _ _).bind _).isSome at h
    exact ⟨hrd, lt_of_setVi (Option.isSome_of_isSome_bind h)⟩
  | iswr =>
    obtain ⟨hrd, h⟩ := lt_of_getVi h
    exact ⟨hrd, (lt_of_getVi h).1⟩
  | lqi => exact (lt_of_getVi h).1
  | sqi => exact (lt_of_getVi h).1
  | lqd => exact (lt_of_getVi h).1
  | sqd => exact (lt_of_getVi h).1

end Statements

/-! ### Both -/

section Both

variable {D : Type} {d : Devices D} {m : Ps2Memory D} {v : Vu0} {x : Machine} {inst : Cop2Instruction} {instr : Word}
  {result result' : Vec} {dest : BitVec 4}

/-- The statement has a result, and the interpreter comes to the same. -/
def Outcome (d : Devices D) (m : Ps2Memory D) (v : Vu0) (x : Machine) (inst : Cop2Instruction) (instr : Word)
    (op : IntegerOp) : Prop :=
  ∃ v' m', op.statement d inst v m = some (v', m') ∧ SameData m v' m' (op.step instr x)

theorem outcome_iff {op : IntegerOp} : Outcome d m v x inst instr op ↔ op.Registers inst ∧
    SameData m (op.result inst v m).1 (op.result inst v m).2 (op.step instr x) := by
  constructor
  · rintro ⟨v', m', hsome, hsame⟩
    have hregs : op.Registers inst := IntegerOp.registers_of_isSome (by
      rw [hsome]
      rfl)
    rw [IntegerOp.statement_eq hregs] at hsome
    rw [Option.some.inj hsome]
    exact ⟨hregs, hsame⟩
  · rintro ⟨hregs, hsame⟩
    exact ⟨_, _, IntegerOp.statement_eq hregs, hsame⟩

theorem setVi_vf (s : VU1State) (j : Fin 16) (z : Word) : (s.setVi j z).vf = s.vf := by
  rw [VU1State.setVi]
  split <;> rfl

theorem sameData_vi_iff (hc : CopiedData v m x) {n : Reg} (hn : n < 16) (hne : n ≠ 0) {z : Word} :
    SameData m (putVi v n y) m (x.onState (·.setVi (viOf n) z)) ↔ y = z.setWidth 16 := by
  rw [← updates_iff hc.vi (viOf_ne_zero hn hne)]
  refine ⟨fun h => h.vi, fun h => ⟨?_, h, hc.vuData.symm, rfl⟩⟩
  rw [Machine.onState, setVi_vf, hc.vf, putVi]

theorem applyDest_eq_self_iff {dst : Vec} : applyDest dst result dest = dst ↔ ∀ c, Selects dest c → result c = dst c := by
  have hself : applyDest dst dst dest = dst := by
    funext c
    rw [applyDest_apply, ite_self]
  have hiff := @applyDest_eq_iff dest dst result dst
  rwa [hself] at hiff

/-- Both write the fields of one vector register. -/
theorem blended_eq_iff (hc : CopiedData v m x) (hn : Fields inst instr) :
    (blendVf inst v inst.rt result).vf = (x.state.setVf (ftOf instr) result' (destOf instr)).vf ↔
      ∀ c, Selects inst.vectorField c → result c = result' c := by
  rw [← @applyDest_eq_iff _ (v.vf inst.rt), blendVf, blendvPs_vuMaskExpr, VU1State.setVf, hc.vf, hn.rt, hn.vectorField]
  exact (Function.update_injective v.vf inst.rt).eq_iff

/-- The statement of a store leaves main memory as it is. -/
theorem stored_eq_iff {b : Bytes.Memory} {p : ℕ} {y : Vec} :
    Bytes.setQuad b p (applyDest (Bytes.quad b p) y dest) = b ↔ ∀ c, Selects dest c → y c = Bytes.quad b p c := by
  rw [Bytes.setQuad_eq_self_iff, applyDest_eq_self_iff]

theorem toNat_wrapped_vi (hc : CopiedData v m x) (n : Fin 16) :
    (wrapped vu0DataSize (x.state.vi n)).toNat = (v.vi n).toNat * 16 % 4096 := by
  rw [toNat_wrapped, hc.vi]

section

variable {s : VU1State} {vi : BitVec 16} {addr : Word} (hdata : x.vuData = m.vu .vu0Data)
  (haddr : addr.toNat = vi.toNat * 16 % 4096)

include hdata haddr

theorem loadQuad_eq : loadQuad vu0DataSize instr ⟨s, x.vuData⟩ addr =
    ⟨s.setVf (ftOf instr) (dataQuad m vi) (destOf instr), x.vuData⟩ := by
  have hsize : vu0DataSize.toNat = 4096 := rfl
  rw [loadQuad, if_pos (by omega), Machine.onState, dataQuad, haddr, hdata]

theorem storeQuad_eq :
    storeQuad vu0DataSize instr ⟨s, x.vuData⟩ addr =
      ⟨s, Bytes.setQuad (m.vu .vu0Data) (vi.toNat * 16 % 4096)
        (applyDest (dataQuad m vi) (s.vf (fsOf instr)) (destOf instr))⟩ := by
  have hsize : vu0DataSize.toNat = 4096 := rfl
  rw [storeQuad, if_pos (by omega), haddr, hdata]
  rfl

end

section

variable (y : BitVec 16)

theorem tenBits_iff : y &&& 0x3FF = y ↔ y.toNat < 1024 := by
  have hand : (y &&& 0x3FF).toNat = y.toNat % 1024 := by
    rw [BitVec.toNat_and]
    exact Nat.and_two_pow_sub_one_eq_mod y.toNat 10
  rw [← BitVec.toNat_inj, hand]
  omega

theorem next_ne : (y + 1) &&& 0x3FF ≠ y := by
  have hone : (1 : BitVec 16).toNat = 1 := rfl
  rw [ne_eq, ← BitVec.toNat_inj, BitVec.toNat_and, BitVec.toNat_add, hone]
  change ¬_ &&& (2 ^ 10 - 1) = _
  rw [Nat.and_two_pow_sub_one_eq_mod]
  omega

theorem previous_ne : (y - 1) &&& 0x3FF ≠ y := by
  have hone : (1 : BitVec 16).toNat = 1 := rfl
  have hlt := y.isLt
  rw [ne_eq, ← BitVec.toNat_inj, BitVec.toNat_and, BitVec.toNat_sub, hone]
  change ¬_ &&& (2 ^ 10 - 1) = _
  rw [Nat.and_two_pow_sub_one_eq_mod]
  omega

end

theorem setWidth_sub (a b : Word) : (a - b).setWidth 16 = a.setWidth 16 - b.setWidth 16 := by
  have ha := a.isLt
  have hb := b.isLt
  apply BitVec.eq_of_toNat_eq
  rw [BitVec.toNat_setWidth, BitVec.toNat_sub, BitVec.toNat_sub, BitVec.toNat_setWidth, BitVec.toNat_setWidth]
  omega

theorem setWidth_three (t : Three) (a b : Word) :
    (t.keep (t.apply a b)).setWidth 16 = t.apply (a.setWidth 16) (b.setWidth 16) := by
  cases t with
  | add => exact (setWidth_toInt16 _).trans (BitVec.setWidth_add _ _ (by omega))
  | sub => exact (setWidth_toInt16 _).trans (setWidth_sub a b)
  | and => exact BitVec.setWidth_and
  | or => exact BitVec.setWidth_or

section

variable (hc : CopiedData v m x)

include hc

section

variable (hn : Fields inst instr)

include hn

/-- **Sums, differences and bitwise operations** of integer registers. -/
theorem same_three {t : Three} (hsa : inst.sa < 16) (hdest : inst.sa ≠ 0) :
    SameData m (putVi v inst.sa (t.apply (v.vi (viOf inst.rd)) (v.vi (viOf inst.rt)))) m ((IntegerOp.three t).step instr x) := by
  rw [IntegerOp.step, vidOf_eq hn, visOf_eq hn, vitOf_eq hn, sameData_vi_iff hc hsa hdest, setWidth_three, hc.vi, hc.vi]

/-- **Sums with an immediate.** -/
theorem same_iaddi (hrt : inst.rt < 16) (hdest : inst.rt ≠ 0) :
    SameData m (putVi v inst.rt (v.vi (viOf inst.rd) + imm5 inst.sa)) m (IntegerOp.iaddi.step instr x) := by
  have himm : (((instr >>> 6).setWidth 5 : BitVec 5).signExtend 32 : Word).setWidth 16 = imm5 inst.sa := by
    have hfield : ((instr >>> 6).setWidth 5 : BitVec 5) = BitVec.ofNat 5 inst.sa.val := by
      apply BitVec.eq_of_toNat_eq
      rw [← hn.sa, fdOf, BitVec.toNat_setWidth, BitVec.toNat_ofNat, Fin.val_ofNat]
      omega
    have hextend : ∀ sa : Reg, ((BitVec.ofNat 5 sa.val).signExtend 32 : Word).setWidth 16 = imm5 sa := by
      decide +kernel
    rw [hfield, hextend]
  rw [IntegerOp.step, visOf_eq hn, vitOf_eq hn, sameData_vi_iff hc hrt hdest, setWidth_toInt16,
    BitVec.setWidth_add _ _ (by omega), himm, hc.vi]

/-- **An integer register goes to the fields of a vector register.** -/
theorem same_mfir :
    SameData m (blendVf inst v inst.rt (set1Ps ((v.vi (viOf inst.rd)).signExtend 32))) m (IntegerOp.mfir.step instr x) := by
  rw [IntegerOp.step, visOf_eq hn, toInt16, hc.vi]
  exact ⟨(blended_eq_iff hc hn).2 fun _ _ => rfl, fun n => (hc.vi n).symm, hc.vuData.symm, rfl⟩

section

variable (hrt : inst.rt < 16) (hdest : inst.rt ≠ 0)

include hrt hdest

theorem same_mtir_iff :
    SameData m (putVi v inst.rt ((v.vf inst.rd inst.fsf).setWidth 16)) m (IntegerOp.mtir.step instr x) ↔
      (v.vf inst.rd inst.fsf).setWidth 16 = (v.vf inst.rd (compOf inst.vectorField)).setWidth 16 := by
  rw [IntegerOp.step, vitOf_eq hn, sameData_vi_iff hc hrt hdest, setWidth_toInt16, hc.vf, hn.rd, hn.vectorField]

theorem same_ilwr_iff :
    SameData m (putVi v inst.rt ((ramWord m (v.vi (viOf inst.rd))).setWidth 16)) m (IntegerOp.ilwr.step instr x) ↔
      (ramWord m (v.vi (viOf inst.rd))).setWidth 16 =
        (dataQuad m (v.vi (viOf inst.rd)) (compOf inst.vectorField)).setWidth 16 := by
  have hsize : vu0DataSize.toNat = 4096 := rfl
  have haddr := toNat_wrapped_vi hc (viOf inst.rd)
  have hstep : IntegerOp.step instr x .ilwr = x.onState (·.setVi (viOf inst.rt)
      (toInt16 (dataQuad m (v.vi (viOf inst.rd)) (compOf inst.vectorField)))) := by
    rw [IntegerOp.step, loadInteger, visOf_eq hn, if_pos (by omega), vitOf_eq hn, haddr, hc.vuData, hn.vectorField]
    rfl
  rw [hstep, sameData_vi_iff hc hrt hdest, setWidth_toInt16]

end

theorem same_iswr_iff :
    SameData m v (IntegerOp.iswr.result inst v m).2 (IntegerOp.iswr.step instr x) ↔
      (v.vi (viOf inst.rt)).setWidth 32 = ramWord m (v.vi (viOf inst.rd)) ∧
        ∀ c, Selects inst.vectorField c → (v.vi (viOf inst.rt)).setWidth 32 = dataQuad m (v.vi (viOf inst.rd)) c := by
  have hsize : vu0DataSize.toNat = 4096 := rfl
  have haddr := toNat_wrapped_vi hc (viOf inst.rd)
  set word : Word := (v.vi (viOf inst.rt)).setWidth 32 with hword
  have hstep : IntegerOp.step instr x .iswr = { x with
      vuData := Bytes.setQuad (m.vu .vu0Data) ((v.vi (viOf inst.rd)).toNat * 16 % 4096)
        (applyDest (dataQuad m (v.vi (viOf inst.rd))) (set1Ps word) inst.vectorField) } := by
    rw [IntegerOp.step, storeInteger, visOf_eq hn, if_pos (by omega), vitOf_eq hn, haddr, hc.vuData, hn.vectorField, hc.vi]
    rfl
  have hram : Bytes.store m.rdram ((v.vi (viOf inst.rd)).toNat % 4096 * 4) word.toNat 4 = m.rdram ↔
      word = ramWord m (v.vi (viOf inst.rd)) := by
    constructor
    · intro h
      rw [ramWord, ← load_store m.rdram ((v.vi (viOf inst.rd)).toNat % 4096 * 4) 4 word, h]
    · intro h
      rw [h, ramWord, BitVec.toNat_ofNat, Nat.mod_eq_of_lt Bytes.load_lt, Bytes.store_load]
  rw [hstep]
  constructor
  · intro h
    exact ⟨hram.1 h.rdram, stored_eq_iff.1 h.vuData.symm⟩
  · rintro ⟨hsame, hdata⟩
    exact ⟨hc.vf.symm, fun n => (hc.vi n).symm, (stored_eq_iff.2 hdata).symm, hram.2 hsame⟩

end

end

/-- The address register of the interpreter, after it is written. -/
theorem setVi_self {s : VU1State} {j : Fin 16} (hj : j ≠ 0) (z : Word) : ((s.setVi j z).vi j).setWidth 16 = z.setWidth 16 := by
  rw [setVi_apply, if_pos ⟨rfl, hj⟩]

section

variable (hc : CopiedData v m x) (hn : Fields inst instr)

include hc hn

theorem same_lqi_iff (hrd : inst.rd < 16) (hdest : inst.rd ≠ 0) :
    SameData m (IntegerOp.lqi.result inst v m).1 m (IntegerOp.lqi.step instr x) ↔
      (v.vi (viOf inst.rd) + 1).toNat < 1024 ∧
        ∀ c, Selects inst.vectorField c → ramQuad m (v.vi (viOf inst.rd)) c = dataQuad m (v.vi (viOf inst.rd)) c := by
  have hstep : IntegerOp.lqi.step instr x =
      ⟨(x.state.setVf (ftOf instr) (dataQuad m (v.vi (viOf inst.rd))) (destOf instr)).setVi (viOf inst.rd)
        (toInt16 (x.state.vi (viOf inst.rd) + 1)), x.vuData⟩ := by
    rw [IntegerOp.step, visOf_eq hn, loadQuad_eq hc.vuData (toNat_wrapped_vi hc (viOf inst.rd))]
    rfl
  have hnext : (toInt16 (x.state.vi (viOf inst.rd) + 1)).setWidth 16 = v.vi (viOf inst.rd) + 1 := by
    rw [setWidth_toInt16, BitVec.setWidth_add _ _ (by omega), hc.vi]
    rfl
  have hvi := updates_iff (s := x.state.setVf (ftOf instr) (dataQuad m (v.vi (viOf inst.rd))) (destOf instr)) hc.vi
    (viOf_ne_zero hrd hdest) ((v.vi (viOf inst.rd) + 1) &&& 0x3FF) (toInt16 (x.state.vi (viOf inst.rd) + 1))
  rw [hnext, tenBits_iff] at hvi
  rw [hstep]
  constructor
  · intro h
    refine ⟨hvi.1 h.vi, (blended_eq_iff hc hn).1 ?_⟩
    have hvf := h.vf
    rwa [setVi_vf] at hvf
  · rintro ⟨hlt, hsame⟩
    refine ⟨?_, hvi.2 hlt, hc.vuData.symm, rfl⟩
    rw [setVi_vf]
    exact (blended_eq_iff hc hn).2 hsame

theorem same_sqi_iff :
    SameData m (IntegerOp.sqi.result inst v m).1 (IntegerOp.sqi.result inst v m).2 (IntegerOp.sqi.step instr x) ↔
      viOf inst.rd = viOf inst.rt ∧ viOf inst.rt ≠ 0 ∧ (v.vi (viOf inst.rd) + 1).toNat < 1024 ∧
        (∀ c, Selects inst.vectorField c → v.vf inst.rt c = ramQuad m (v.vi (viOf inst.rd)) c) ∧
          ∀ c, Selects inst.vectorField c → v.vf inst.rd c = dataQuad m (v.vi (viOf inst.rd)) c := by
  have hstep : IntegerOp.sqi.step instr x =
      ⟨x.state.setVi (viOf inst.rt) (toInt16 (x.state.vi (viOf inst.rt) + 1)),
        Bytes.setQuad (m.vu .vu0Data) ((v.vi (viOf inst.rt)).toNat * 16 % 4096)
          (applyDest (dataQuad m (v.vi (viOf inst.rt))) (v.vf inst.rd) inst.vectorField)⟩ := by
    rw [IntegerOp.step, vitOf_eq hn, storeQuad_eq hc.vuData (toNat_wrapped_vi hc (viOf inst.rt)), hc.vf, hn.rd, hn.vectorField]
    rfl
  have hnext : (toInt16 (x.state.vi (viOf inst.rt) + 1)).setWidth 16 = v.vi (viOf inst.rt) + 1 := by
    rw [setWidth_toInt16, BitVec.setWidth_add _ _ (by omega), hc.vi]
    rfl
  have hvi := updates_apart_iff (v := v) (j := viOf inst.rt) hc.vi (next_ne (v.vi (viOf inst.rd)))
    (toInt16 (x.state.vi (viOf inst.rt) + 1))
  rw [hnext] at hvi
  rw [hstep]
  constructor
  · intro h
    obtain ⟨hreg, hne, hten⟩ := hvi.1 h.vi
    rw [← hreg, tenBits_iff] at hten
    have hdata := h.vuData.symm
    rw [← hreg] at hdata
    exact ⟨hreg, hne, hten, stored_eq_iff.1 h.rdram, stored_eq_iff.1 hdata⟩
  · rintro ⟨hreg, hne, hten, hram, hdata⟩
    refine ⟨?_, hvi.2 ⟨hreg, hne, ?_⟩, ?_, stored_eq_iff.2 hram⟩
    · rw [setVi_vf, hc.vf]
      rfl
    · rw [← hreg, tenBits_iff]
      exact hten
    · rw [← hreg]
      exact (stored_eq_iff.2 hdata).symm

end

/-- The number before in ten bits, where it has no more. -/
theorem previous_eq (h : (y - 1).toNat < 1024) : (y - 1) &&& 0x3FF = y - 1 := (tenBits_iff _).2 h

section

variable (hc : CopiedData v m x) (hn : Fields inst instr)

include hc hn

theorem same_lqd_iff (hrd : inst.rd < 16) (hdest : inst.rd ≠ 0) :
    SameData m (IntegerOp.lqd.result inst v m).1 m (IntegerOp.lqd.step instr x) ↔
      (v.vi (viOf inst.rd) - 1).toNat < 1024 ∧
        ∀ c, Selects inst.vectorField c → ramQuad m (v.vi (viOf inst.rd) - 1) c = dataQuad m (v.vi (viOf inst.rd) - 1) c := by
  have hne := viOf_ne_zero hrd hdest
  have hprevious : (toInt16 (x.state.vi (viOf inst.rd) - 1)).setWidth 16 = v.vi (viOf inst.rd) - 1 := by
    rw [setWidth_toInt16, setWidth_sub, hc.vi]
    rfl
  have hstep : IntegerOp.lqd.step instr x =
      ⟨(x.state.setVi (viOf inst.rd) (toInt16 (x.state.vi (viOf inst.rd) - 1))).setVf (ftOf instr)
        (dataQuad m (v.vi (viOf inst.rd) - 1)) (destOf instr), x.vuData⟩ := by
    rw [IntegerOp.step, visOf_eq hn, Machine.onState]
    refine loadQuad_eq hc.vuData ?_
    rw [toNat_wrapped, setVi_self hne, hprevious]
  have hvi := updates_iff (v := v) hc.vi hne ((v.vi (viOf inst.rd) - 1) &&& 0x3FF)
    (toInt16 (x.state.vi (viOf inst.rd) - 1))
  rw [hprevious, tenBits_iff] at hvi
  have hvf (result : Vec) : (blendVf inst v inst.rt result).vf =
      ((x.state.setVi (viOf inst.rd) (toInt16 (x.state.vi (viOf inst.rd) - 1))).setVf (ftOf instr)
        (dataQuad m (v.vi (viOf inst.rd) - 1)) (destOf instr)).vf ↔
      ∀ c, Selects inst.vectorField c → result c = dataQuad m (v.vi (viOf inst.rd) - 1) c := by
    rw [VU1State.setVf, setVi_vf]
    exact blended_eq_iff hc hn
  rw [hstep]
  constructor
  · intro h
    have hlt := hvi.1 h.vi
    have hfields := (hvf _).1 h.vf
    rw [previous_eq hlt] at hfields
    exact ⟨hlt, hfields⟩
  · rintro ⟨hlt, hsame⟩
    refine ⟨(hvf _).2 ?_, hvi.2 hlt, hc.vuData.symm, rfl⟩
    rw [previous_eq hlt]
    exact hsame

theorem same_sqd_iff :
    SameData m (IntegerOp.sqd.result inst v m).1 (IntegerOp.sqd.result inst v m).2 (IntegerOp.sqd.step instr x) ↔
      viOf inst.rd = viOf inst.rt ∧ viOf inst.rt ≠ 0 ∧ (v.vi (viOf inst.rd) - 1).toNat < 1024 ∧
        (∀ c, Selects inst.vectorField c → v.vf inst.rt c = ramQuad m (v.vi (viOf inst.rd) - 1) c) ∧
          ∀ c, Selects inst.vectorField c → v.vf inst.rd c = dataQuad m (v.vi (viOf inst.rd) - 1) c := by
  have hprevious : (toInt16 (x.state.vi (viOf inst.rt) - 1)).setWidth 16 = v.vi (viOf inst.rt) - 1 := by
    rw [setWidth_toInt16, setWidth_sub, hc.vi]
    rfl
  have hvi := updates_apart_iff (v := v) (j := viOf inst.rt) hc.vi (previous_ne (v.vi (viOf inst.rd)))
    (toInt16 (x.state.vi (viOf inst.rt) - 1))
  rw [hprevious] at hvi
  -- The decrement, and the store at the address after it.
  have hstep (hne : viOf inst.rt ≠ 0) : IntegerOp.sqd.step instr x =
      ⟨x.state.setVi (viOf inst.rt) (toInt16 (x.state.vi (viOf inst.rt) - 1)),
        Bytes.setQuad (m.vu .vu0Data) ((v.vi (viOf inst.rt) - 1).toNat * 16 % 4096)
          (applyDest (dataQuad m (v.vi (viOf inst.rt) - 1)) (v.vf inst.rd) inst.vectorField)⟩ := by
    have haddr : (wrapped vu0DataSize ((x.state.setVi (viOf inst.rt) (toInt16 (x.state.vi (viOf inst.rt) - 1))).vi
        (viOf inst.rt))).toNat = (v.vi (viOf inst.rt) - 1).toNat * 16 % 4096 := by
      rw [toNat_wrapped, setVi_self hne, hprevious]
    rw [IntegerOp.step, vitOf_eq hn, Machine.onState, ← hc.vf, ← hn.rd, ← hn.vectorField]
    refine (storeQuad_eq hc.vuData haddr).trans ?_
    rw [setVi_vf]
  have hstate : (IntegerOp.sqd.step instr x).state =
      x.state.setVi (viOf inst.rt) (toInt16 (x.state.vi (viOf inst.rt) - 1)) := by
    rw [IntegerOp.step, vitOf_eq hn, storeQuad, if_pos (wrapped_fits _)]
    rfl
  constructor
  · intro h
    have hregs := h.vi
    rw [hstate] at hregs
    obtain ⟨hreg, hne, hten⟩ := hvi.1 hregs
    rw [← hreg, tenBits_iff] at hten
    have hram := h.rdram
    have hdata := h.vuData.symm
    rw [hstep hne, ← hreg] at hdata
    rw [IntegerOp.result, putQuad, previous_eq hten] at hram
    rw [IntegerOp.result, putQuad, previous_eq hten] at hdata
    exact ⟨hreg, hne, hten, stored_eq_iff.1 hram, stored_eq_iff.1 hdata⟩
  · rintro ⟨hreg, hne, hten, hram, hdata⟩
    rw [hstep hne, IntegerOp.result, putQuad, previous_eq hten]
    refine ⟨?_, ?_, ?_, stored_eq_iff.2 hram⟩
    · rw [setVi_vf, hc.vf]
      rfl
    · have hregs := hvi.2 ⟨hreg, hne, by rw [← hreg, tenBits_iff]; exact hten⟩
      rw [previous_eq hten] at hregs
      exact hregs
    · rw [← hreg]
      exact (stored_eq_iff.2 hdata).symm

/-- **From the same registers and memories**, a statement and the interpreter come to the same outcome
where the instruction fits. -/
theorem sameData_iff {op : IntegerOp} (hdest : op.Destined inst) :
    Outcome d m v x inst instr op ↔ op.Fits m inst v := by
  rw [outcome_iff]
  cases op with
  | three t => exact and_iff_left_of_imp fun h => same_three hc hn h.1 hdest
  | iaddi => exact and_iff_left_of_imp fun h => same_iaddi hc hn h.2 hdest
  | mfir => exact and_iff_left_of_imp fun _ => same_mfir hc hn
  | mtir => exact and_congr_right fun hrt => same_mtir_iff hc hn hrt hdest
  | lqi => exact and_congr_right fun hrd => same_lqi_iff hc hn hrd hdest.2
  | sqi => exact and_congr_right fun _ => same_sqi_iff hc hn
  | lqd => exact and_congr_right fun hrd => same_lqd_iff hc hn hrd hdest.2
  | sqd => exact and_congr_right fun _ => same_sqd_iff hc hn
  | ilwr => exact (and_congr_right fun h => same_ilwr_iff hc hn h.2 hdest).trans and_assoc
  | iswr => exact (and_congr_right fun _ => same_iswr_iff hc hn).trans and_assoc

end

end Both

/-! ### The constants -/

section Constants

variable {D : Type} {d : Devices D} {m m' : Ps2Memory D} {v v' : Vu0} {x : Machine} {inst : Cop2Instruction} {instr : Word}
  {op : IntegerOp}

/-- What a statement leaves as it is. -/
structure Leaves (vfDest viDest : Option Reg) (v v' : Vu0) : Prop where
  vf : ∀ n, vfDest ≠ some n → v'.vf n = v.vf n
  vi : ∀ n, (∀ reg, viDest = some reg → n ≠ viOf reg) → v'.vi n = v.vi n

theorem leaves_vi (reg : Reg) (y : BitVec 16) (vfDest : Option Reg) : Leaves vfDest (some reg) v (putVi v reg y) :=
  ⟨fun _ _ => rfl, fun _ hn => Function.update_of_ne (hn reg rfl) _ _⟩

theorem leaves_vf (result : Vec) (viDest : Option Reg) : Leaves (some inst.rt) viDest v (blendVf inst v inst.rt result) :=
  ⟨fun _ hn => Function.update_of_ne (fun h => hn (congrArg some h.symm)) _ _, fun _ _ => rfl⟩

theorem Leaves.trans {vfDest viDest : Option Reg} {v'' : Vu0} (h : Leaves vfDest viDest v v')
    (h' : Leaves vfDest viDest v' v'') : Leaves vfDest viDest v v'' :=
  ⟨fun n hn => (h'.vf n hn).trans (h.vf n hn), fun n hn => (h'.vi n hn).trans (h.vi n hn)⟩

section

variable (h : op.statement d inst v m = some (v', m'))

include h

theorem IntegerOp.statement_some : op.Registers inst ∧ op.result inst v m = (v', m') := by
  have hregs : op.Registers inst := registers_of_isSome (by
    rw [h]
    rfl)
  rw [statement_eq hregs] at h
  exact ⟨hregs, Option.some.inj h⟩

/-- **A statement** writes the registers of its destinations only. -/
theorem IntegerOp.statement_leaves : Leaves (op.vfDest inst) (op.viDest inst) v v' := by
  obtain ⟨-, h⟩ := statement_some h
  cases op with
  | three t =>
    cases h
    exact leaves_vi inst.sa _ _
  | iaddi =>
    cases h
    exact leaves_vi inst.rt _ _
  | mtir =>
    cases h
    exact leaves_vi inst.rt _ _
  | mfir =>
    cases h
    exact leaves_vf _ _
  | lqi =>
    cases h
    exact (leaves_vf _ _).trans (leaves_vi inst.rd _ _)
  | sqi =>
    cases h
    exact leaves_vi inst.rd _ _
  | lqd =>
    cases h
    exact (leaves_vi inst.rd _ _).trans (leaves_vf _ _)
  | sqd =>
    cases h
    exact leaves_vi inst.rd _ _
  | ilwr =>
    cases h
    exact leaves_vi inst.rt _ _
  | iswr =>
    cases h
    exact ⟨fun _ _ => rfl, fun _ _ => rfl⟩

/-- The integer register that it writes is one of the sixteen. -/
theorem IntegerOp.viDest_lt {reg : Reg} (hreg : op.viDest inst = some reg) : reg < 16 := by
  obtain ⟨hregs, -⟩ := statement_some h
  cases op <;> cases hreg
  case three.refl => exact hregs.1
  case iaddi.refl => exact hregs.2
  case ilwr.refl => exact hregs.2
  all_goals exact hregs

end

theorem setVi_zero (s : VU1State) (j : Fin 16) (z : Word) : (s.setVi j z).vi 0 = s.vi 0 := by
  rw [VU1State.setVi]
  by_cases hj : j ≠ 0
  · rw [if_pos hj]
    exact Function.update_of_ne (Ne.symm hj) z s.vi
  · rw [if_neg hj]

theorem IntegerOp.step_vi0 : (op.step instr x).state.vi 0 = x.state.vi 0 := by
  cases op with
  | three t => exact setVi_zero _ _ _
  | iaddi => exact setVi_zero _ _ _
  | mtir => exact setVi_zero _ _ _
  | mfir => rfl
  | lqi =>
    rw [IntegerOp.step, loadQuad, if_pos (wrapped_fits _)]
    exact setVi_zero _ _ _
  | sqi =>
    rw [IntegerOp.step, storeQuad, if_pos (wrapped_fits _)]
    exact setVi_zero _ _ _
  | lqd =>
    rw [IntegerOp.step, loadQuad, if_pos (wrapped_fits _)]
    exact setVi_zero _ _ _
  | sqd =>
    rw [IntegerOp.step, storeQuad, if_pos (wrapped_fits _)]
    exact setVi_zero _ _ _
  | ilwr =>
    rw [IntegerOp.step, loadInteger, if_pos (wrapped_fits _)]
    exact setVi_zero _ _ _
  | iswr =>
    rw [IntegerOp.step, storeInteger, if_pos (wrapped_fits _)]

theorem IntegerOp.step_vf0 (hn : Fields inst instr) (hdest : op.vfDest inst ≠ some 0) :
    (op.step instr x).state.vf 0 = x.state.vf 0 := by
  have hload (h : some inst.rt ≠ some (0 : Reg)) (s : VU1State) (result : Vec) (dest : BitVec 4) :
      (s.setVf (ftOf instr) result dest).vf 0 = s.vf 0 := by
    rw [hn.rt]
    exact Function.update_of_ne (fun heq => h (congrArg some heq.symm)) _ _
  cases op with
  | three t => exact congrFun (setVi_vf _ _ _) 0
  | iaddi => exact congrFun (setVi_vf _ _ _) 0
  | mtir => exact congrFun (setVi_vf _ _ _) 0
  | mfir => exact hload hdest _ _ _
  | lqi =>
    rw [IntegerOp.step, loadQuad, if_pos (wrapped_fits _)]
    exact (congrFun (setVi_vf _ _ _) 0).trans (hload hdest _ _ _)
  | sqi =>
    rw [IntegerOp.step, storeQuad, if_pos (wrapped_fits _)]
    exact congrFun (setVi_vf _ _ _) 0
  | lqd =>
    rw [IntegerOp.step, loadQuad, if_pos (wrapped_fits _)]
    exact (hload hdest _ _ _).trans (congrFun (setVi_vf _ _ _) 0)
  | sqd =>
    rw [IntegerOp.step, storeQuad, if_pos (wrapped_fits _)]
    exact congrFun (setVi_vf _ _ _) 0
  | ilwr =>
    rw [IntegerOp.step, loadInteger, if_pos (wrapped_fits _)]
    exact congrFun (setVi_vf _ _ _) 0
  | iswr =>
    rw [IntegerOp.step, storeInteger, if_pos (wrapped_fits _)]

/-- A store counts the register that it names. -/
theorem IntegerOp.step_counted (hn : Fields inst instr) (hop : op = .sqi ∨ op = .sqd) (hdest : op.Destined inst) :
    ((op.step instr x).state.vi (viOf inst.rt)).setWidth 16 ≠ (x.state.vi (viOf inst.rt)).setWidth 16 := by
  have hone : (1 : BitVec 16).toNat = 1 := rfl
  rcases hop with rfl | rfl
  · rw [IntegerOp.step, storeQuad, if_pos (wrapped_fits _), vitOf_eq hn]
    change ((VU1State.setVi _ _ _).vi _).setWidth 16 ≠ _
    rw [setVi_self hdest, setWidth_toInt16, BitVec.setWidth_add _ _ (by omega), ne_eq, ← BitVec.toNat_inj, BitVec.toNat_add]
    change ¬(_ + 1) % 2 ^ 16 = _
    omega
  · rw [IntegerOp.step, storeQuad, if_pos (wrapped_fits _), vitOf_eq hn]
    change ((VU1State.setVi _ _ _).vi _).setWidth 16 ≠ _
    rw [setVi_self hdest, setWidth_toInt16, setWidth_sub, ne_eq, ← BitVec.toNat_inj, BitVec.toNat_sub]
    change ¬(2 ^ 16 - 1 + _) % 2 ^ 16 = _
    omega

end Constants

/-! ### Words -/

section Words

variable {D : Type} {op : IntegerOp} {w : Word} {c : Ctx Vu0}

/-- **The statement does what the interpreter does**, from the context `c` and the memory `m`. -/
def IntegerAgrees (e : Surroundings D) (w : Word) (c : Ctx Vu0) (m : Ps2Memory D) : Prop :=
  ∃ c' m', e.emitted w c m = some (c', m') ∧ SameData m c'.sys.rest m' (e.interpreted true w c (m.vu .vu0Data))

theorem emitted_integer (e : Surroundings D) (hw : IsMacro w) (hop : IntegerOp.ofWord w = some op) :
    e.emitted w = onMemory fun v m => op.statement e.devices (decodeCop2 w) v m := by
  rw [Surroundings.emitted, translate_co (rs_ge hw)]
  rw [IntegerOp.ofWord] at hop
  by_cases hf : 0x3C ≤ (w.setWidth 6 : BitVec 6)
  · rw [if_pos hf] at hop
    exact (if_pos hf).trans (IntegerOp.translate_op2 hop)
  · rw [if_neg hf] at hop
    exact (if_neg hf).trans (IntegerOp.translate_op1 hop)

theorem not_nop (hop : IntegerOp.ofWord w = some op) : lowerWord w ≠ 0x8000033C := by
  intro h
  have hnat := toNat_lowerWord_mod (w := w)
  have hspecial : specialOp (lowerWord w) = (special2Func w).toNat := specialOp_eq hnat
  have hfunction : (lowerWord w &&& 0x3F).toNat = (w.setWidth 6 : BitVec 6).toNat := function_eq hnat
  rw [h] at hspecial hfunction
  have hf : 0x3C ≤ (w.setWidth 6 : BitVec 6) := by
    rw [BitVec.le_def, ← hfunction]
    decide
  have hselector : (special2Func w).toNat = 0x30 := by
    rw [← hspecial]
    rfl
  rw [IntegerOp.ofWord, if_pos hf, hselector] at hop
  cases hop

theorem interpreted_integer (e : Surroundings D) (hop : IntegerOp.ofWord w = some op) (vuData : Bytes.Memory) :
    e.interpreted true w c vuData = op.step (lowerWord w) ⟨copyVu0ContextToState c, vuData⟩ := by
  rw [Surroundings.interpreted, if_pos rfl, execLower_special (not_nop hop), function_eq toNat_lowerWord_mod]
  rw [IntegerOp.ofWord] at hop
  have hlt : (w.setWidth 6 : BitVec 6).toNat < 0x40 := (w.setWidth 6 : BitVec 6).isLt
  by_cases hf : 0x3C ≤ (w.setWidth 6 : BitVec 6)
  · rw [if_pos hf, ← specialOp_eq toNat_lowerWord_mod] at hop
    rw [lower_special hf hlt]
    exact IntegerOp.lower_op2 hop
  · rw [if_neg hf] at hop
    exact IntegerOp.lower_op1 hop

theorem copied_vi {n : Fin 16} (hn : n ≠ 0) : ((copyVu0ContextToState c).vi n).setWidth 16 = c.sys.rest.vi n := by
  have hextend (y : BitVec 16) : (y.signExtend 32 : Word).setWidth 16 = y := by
    refine BitVec.eq_of_getLsbD_eq fun i hi => ?_
    rw [BitVec.getLsbD_setWidth, BitVec.getLsbD_signExtend, if_pos hi, decide_eq_true hi,
      decide_eq_true (by omega : i < 32), Bool.true_and, Bool.true_and]
  change (Function.update (fun n => (c.sys.rest.vi n).signExtend 32) 0 0 n).setWidth 16 = _
  rw [Function.update_of_ne hn]
  exact hextend _

/-- The copy has the integer registers of the context, as long as VI0 is zero. -/
theorem copiedData {m : Ps2Memory D} (hvf : c.sys.rest.vf 0 = vf0) (hvi : c.sys.rest.vi 0 = 0) :
    CopiedData c.sys.rest m ⟨copyVu0ContextToState c, m.vu .vu0Data⟩ := by
  refine ⟨(copied hvf).vf, fun n => ?_, rfl⟩
  by_cases hn : n = 0
  · rw [hn, hvi]
    rfl
  · exact copied_vi hn

theorem constants_of_outcome {d : Devices D} {m : Ps2Memory D} {inst : Cop2Instruction} {instr : Word}
    (hn : Fields inst instr) (hdest : op.Destined inst)
    (h : Outcome d m c.sys.rest ⟨copyVu0ContextToState c, m.vu .vu0Data⟩ inst instr op) :
    c.sys.rest.vf 0 = vf0 ∧ c.sys.rest.vi 0 = 0 := by
  obtain ⟨v', m', hstatement, hsame⟩ := h
  have hleaves := IntegerOp.statement_leaves hstatement
  have hvf : op.vfDest inst ≠ some 0 := by
    intro heq
    cases op with
    | mfir => exact hdest (Option.some.inj heq)
    | lqi => exact hdest.1 (Option.some.inj heq)
    | lqd => exact hdest.1 (Option.some.inj heq)
    | _ => cases heq
  refine ⟨?_, ?_⟩
  · rw [← hleaves.vf 0 hvf, hsame.vf, IntegerOp.step_vf0 hn hvf]
    exact Function.update_self 0 vf0 c.sys.rest.vf
  · have hvi : ∀ reg, op.viDest inst = some reg → 0 ≠ viOf reg := by
      intro reg hreg hzero
      -- Only a store may write VI0, and then it does not count the register that the interpreter counts.
      have hstore (hop : op = .sqi ∨ op = .sqd) : False := by
        have hrt : viOf inst.rt ≠ 0 := by
          rcases hop with rfl | rfl <;> exact hdest
        have hkept : v'.vi (viOf inst.rt) = c.sys.rest.vi (viOf inst.rt) := by
          refine hleaves.vi _ fun reg' hreg' => ?_
          rw [hreg, Option.some.injEq] at hreg'
          rwa [← hreg', ← hzero]
        have hcounted := IntegerOp.step_counted (x := ⟨copyVu0ContextToState c, m.vu .vu0Data⟩) hn hop hdest
        rw [← hsame.vi, hkept] at hcounted
        exact hcounted (copied_vi hrt).symm
      have hlt := IntegerOp.viDest_lt hstatement hreg
      cases op with
      | three t => exact viOf_ne_zero hlt (Option.some.inj hreg ▸ hdest) hzero.symm
      | iaddi => exact viOf_ne_zero hlt (Option.some.inj hreg ▸ hdest) hzero.symm
      | mtir => exact viOf_ne_zero hlt (Option.some.inj hreg ▸ hdest) hzero.symm
      | ilwr => exact viOf_ne_zero hlt (Option.some.inj hreg ▸ hdest) hzero.symm
      | lqi => exact viOf_ne_zero hlt (Option.some.inj hreg ▸ hdest.2) hzero.symm
      | lqd => exact viOf_ne_zero hlt (Option.some.inj hreg ▸ hdest.2) hzero.symm
      | sqi => exact hstore (.inl rfl)
      | sqd => exact hstore (.inr rfl)
      | mfir => cases hreg
      | iswr => cases hreg
    rw [← hleaves.vi 0 hvi, hsame.vi, IntegerOp.step_vi0]
    rfl

/-- **The integers and the memory of both agree** exactly where VF0 and VI0 hold their constants and the
instruction fits. -/
theorem integerAgrees_iff (e : Surroundings D) (m : Ps2Memory D) (hw : IsMacro w) (hop : IntegerOp.ofWord w = some op)
    (hdest : op.Destined (decodeCop2 w)) :
    IntegerAgrees e w c m ↔ c.sys.rest.vf 0 = vf0 ∧ c.sys.rest.vi 0 = 0 ∧ op.Fits m (decodeCop2 w) c.sys.rest := by
  have hfields := fields_of_low hw (toNat_lowerWord_mod (w := w))
  have hagrees : IntegerAgrees e w c m ↔
      Outcome e.devices m c.sys.rest ⟨copyVu0ContextToState c, m.vu .vu0Data⟩ (decodeCop2 w) (lowerWord w) op := by
    rw [IntegerAgrees, Outcome, emitted_integer e hw hop, interpreted_integer e hop]
    constructor
    · rintro ⟨c', m', hrun, hsame⟩
      obtain ⟨⟨v', m''⟩, hstatement, hpair⟩ := Option.map_eq_some_iff.1 hrun
      cases hpair
      exact ⟨v', m', hstatement, hsame⟩
    · rintro ⟨v', m', hstatement, hsame⟩
      refine ⟨{ c with sys := { c.sys with rest := v' } }, m', ?_, hsame⟩
      rw [onMemory, hstatement]
      rfl
  rw [hagrees]
  constructor
  · intro h
    obtain ⟨hvf, hvi⟩ := constants_of_outcome hfields hdest h
    exact ⟨hvf, hvi, (sameData_iff (copiedData hvf hvi) hfields hdest).1 h⟩
  · rintro ⟨hvf, hvi, hfits⟩
    exact (sameData_iff (copiedData hvf hvi) hfields hdest).2 hfits

end Words

/-! ### Control registers -/

section Control

variable {D : Type} {w : Word} {c : Ctx Vu0} {m : Ps2Memory D}

/-- A word encodes `CFC2`. -/
def IsCfc2 (w : Word) : Prop := w >>> 21 = 0x242

/-- A word encodes `CTC2`. -/
def IsCtc2 (w : Word) : Prop := w >>> 21 = 0x246

instance : Decidable (IsCfc2 w) := inferInstanceAs (Decidable (_ = _))

instance : Decidable (IsCtc2 w) := inferInstanceAs (Decidable (_ = _))

/-- The number names an integer register other than VI0. -/
def NamesVi (n : Reg) : Prop := n ≠ 0 ∧ n < 16

instance (n : Reg) : Decidable (NamesVi n) := inferInstanceAs (Decidable (_ ∧ _))

/-- The statement writes the low 16 bits of a general purpose register to an integer register. -/
def WritesVi (e : Surroundings D) (w : Word) (c : Ctx Vu0) (m : Ps2Memory D) : Prop :=
  ∃ c' m', e.emitted w c m = some (c', m') ∧
    c'.sys.rest.vi (viOf (decodeCop2 w).rd) = (c.gprU32 (decodeCop2 w).rt).setWidth 16

/-- The statement reads an integer register into the low 16 bits of a general purpose register. -/
def ReadsVi (e : Surroundings D) (w : Word) (c : Ctx Vu0) (m : Ps2Memory D) : Prop :=
  ∃ c' m', e.emitted w c m = some (c', m') ∧
    (c'.gprU32 (decodeCop2 w).rt).setWidth 16 = c.sys.rest.vi (viOf (decodeCop2 w).rd)

/-- The control registers 1 to 15. -/
def controlRegister (v : Vu0) (n : Reg) : Word :=
  match n.val with
  | 1 => v.macFlags
  | 2 => v.vpuStat
  | 3 => v.r 0
  | 4 => v.i
  | 5 => v.clipFlags
  | 6 => v.tpc
  | 7 => v.cmsar0
  | 8 => v.fbrst
  | 9 => v.vpuStat2
  | 10 => v.tpc2
  | 11 => v.cmsar1
  | 12 => v.fbrst2
  | 13 => v.vpuStat3
  | 14 => v.cmsar2
  | _ => v.fbrst3

theorem rs_of_control {k : ℕ} (hk : k < 32) (h : w >>> 21 = .ofNat 32 (0x240 + k)) : (decodeCop2 w).rs.val = k := by
  rw [decodeCop2, h, Fin.val_ofNat, BitVec.toNat_ofNat]
  omega

theorem emitted_cfc2 (e : Surroundings D) (h : IsCfc2 w) :
    e.emitted w = fun c m => some (cfc2 (decodeCop2 w) c, m) := by
  rw [Surroundings.emitted, translate, rs_of_control (by omega : 2 < 32) h]
  rfl

theorem emitted_ctc2 (e : Surroundings D) (h : IsCtc2 w) :
    e.emitted w = fun c m => some (ctc2 (decodeCop2 w) c, m) := by
  rw [Surroundings.emitted, translate, rs_of_control (by omega : 6 < 32) h]
  rfl

/-- No control register is an integer register. -/
theorem ctc2_vi (inst : Cop2Instruction) : (ctc2 inst c).sys.rest.vi = c.sys.rest.vi := by
  unfold ctc2
  dsimp only
  split <;> rfl

theorem setWidth_castPs (y : Vec) : (castPs y).setWidth 32 = y 0 := by
  refine BitVec.eq_of_getLsbD_eq fun i hi => ?_
  rw [BitVec.getLsbD_setWidth, decide_eq_true hi, Bool.true_and]
  rw [getLsbD_castPs (by omega), Nat.div_eq_of_lt hi, Nat.mod_eq_of_lt hi]
  rfl

theorem cfc2_reads {inst : Cop2Instruction} (hrd : NamesVi inst.rd) (hrt : inst.rt ≠ 0) :
    (cfc2 inst c).gprU32 inst.rt = controlRegister c.sys.rest inst.rd := by
  have hlow (y : Word) : (c.setGprS32 inst.rt y).gprU32 inst.rt = y := by
    rw [Ctx.gprU32_setGprS32, if_pos ⟨rfl, hrt⟩]
  have hvec (y : Vec) : (c.setGprVec inst.rt (castPs y)).gprU32 inst.rt = y 0 := by
    rw [Ctx.gprU32_setGprVec, if_pos ⟨rfl, hrt⟩, setWidth_castPs]
  obtain ⟨hne, hlt⟩ := hrd
  have hlt' : inst.rd.val < 16 := hlt
  have hne' : inst.rd.val ≠ 0 := fun h => hne (Fin.ext h)
  unfold cfc2 controlRegister
  generalize inst.rd.val = n at hlt' hne'
  interval_cases n
  · exact absurd rfl hne'
  all_goals simp only [hlow, hvec]

theorem writesVi_iff (e : Surroundings D) (h : IsCtc2 w) :
    WritesVi e w c m ↔ c.sys.rest.vi (viOf (decodeCop2 w).rd) = (c.gprU32 (decodeCop2 w).rt).setWidth 16 := by
  rw [WritesVi, emitted_ctc2 e h]
  constructor
  · rintro ⟨c', m', hrun, hwritten⟩
    cases hrun
    rwa [ctc2_vi] at hwritten
  · intro hsame
    refine ⟨_, _, rfl, ?_⟩
    rwa [ctc2_vi]

theorem readsVi_iff (e : Surroundings D) (h : IsCfc2 w) (hrd : NamesVi (decodeCop2 w).rd) (hrt : (decodeCop2 w).rt ≠ 0) :
    ReadsVi e w c m ↔
      (controlRegister c.sys.rest (decodeCop2 w).rd).setWidth 16 = c.sys.rest.vi (viOf (decodeCop2 w).rd) := by
  rw [ReadsVi, emitted_cfc2 e h]
  constructor
  · rintro ⟨c', m', hrun, hread⟩
    cases hrun
    rwa [cfc2_reads hrd hrt] at hread
  · intro hsame
    refine ⟨_, _, rfl, ?_⟩
    rwa [cfc2_reads hrd hrt]

/-- **The integer registers and the memory of VU0** are the same for macro instructions, microprograms and
control transfers exactly where the instructions fit, and where the control registers hold the numbers of
the integer registers. -/
theorem macro_memory_agrees_iff (e : Surroundings D) (w : Word) (c : Ctx Vu0) (m : Ps2Memory D) :
    (∀ op, IsMacro w → IntegerOp.ofWord w = some op → op.Destined (decodeCop2 w) →
      (IntegerAgrees e w c m ↔
        c.sys.rest.vf 0 = vf0 ∧ c.sys.rest.vi 0 = 0 ∧ op.Fits m (decodeCop2 w) c.sys.rest)) ∧
    (IsCtc2 w → NamesVi (decodeCop2 w).rd →
      (WritesVi e w c m ↔ c.sys.rest.vi (viOf (decodeCop2 w).rd) = (c.gprU32 (decodeCop2 w).rt).setWidth 16)) ∧
    (IsCfc2 w → NamesVi (decodeCop2 w).rd → (decodeCop2 w).rt ≠ 0 →
      (ReadsVi e w c m ↔
        (controlRegister c.sys.rest (decodeCop2 w).rd).setWidth 16 = c.sys.rest.vi (viOf (decodeCop2 w).rd))) :=
  ⟨fun _ hw hop hdest => integerAgrees_iff e m hw hop hdest, fun h _ => writesVi_iff e h,
    fun h hrd hrt => readsVi_iff e h hrd hrt⟩

/-- `VIADD vi2, vi1, vi1`. -/
theorem viadd_agrees : IntegerAgrees small 0x4A0108B0 smallContext cleared :=
  ((macro_memory_agrees_iff small 0x4A0108B0 smallContext cleared).1 (.three .add) (by decide) (by decide)
    (by decide : (decodeCop2 0x4A0108B0).sa ≠ 0)).2
      ⟨rfl, rfl, (by decide : (decodeCop2 0x4A0108B0).sa < 16 ∧ (decodeCop2 0x4A0108B0).rd < 16 ∧ (decodeCop2 0x4A0108B0).rt < 16)⟩

/-- VI1 holds 5. -/
def fiveContext : Ctx Vu0 :=
  { smallContext with sys := { smallContext.sys with rest := { smallVu0 with vi := fun n => if n = 1 then 5 else 0 } } }

/-- **`VISWR.x vi1, (vi0)` writes main memory.** -/
theorem viswr_writes_ram : ¬∀ (e : Surroundings Unit) (w : Word) (op : IntegerOp) (c : Ctx Vu0) (m : Ps2Memory Unit),
    IsMacro w → IntegerOp.ofWord w = some op → op.Destined (decodeCop2 w) → c.sys.rest.vf 0 = vf0 →
      c.sys.rest.vi 0 = 0 → IntegerAgrees e w c m := by
  intro h
  have hagrees := h small 0x4B0103FF .iswr fiveContext cleared (by decide) (by decide) trivial rfl rfl
  have hiff := @integerAgrees_iff Unit .iswr 0x4B0103FF fiveContext small cleared (by decide) (by decide) trivial
  have hfits := (hiff.1 hagrees).2.2
  exact absurd hfits.2.2.1 (by decide)

end Control

end Ps2Recomp.Vu
