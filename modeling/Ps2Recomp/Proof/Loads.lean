import Ps2Recomp.Proof.Memory
import Ps2Recomp.Spec.Core

/-!
# Main memory under the emitted statements

`Ps2FastRead*` and `Ps2FastWrite*` see main memory repeated over all addresses (`mainMemory`): a read
is the little endian value of the bytes from its address on, around the end of the memory too, and an
aligned write is a store.
-/

namespace Ps2Recomp

open Memory (Width Devices Ps2Memory ps2FastRead ps2FastWrite ramMask ps2IsSpecialAddress)

/-- Main memory, repeated over all addresses. -/
def mainMemory (rdram : Bytes.Memory) : Bytes.Memory := fun q => rdram (q % 2 ^ 25)

section

variable {b : Bytes.Memory} {a : Word} {n : ℕ}

theorem ps2FastRead_toNat (hn : n ≤ 16) : (ps2FastRead n b a).toNat = Bytes.load (mainMemory b) a.toNat n := by
  have hoff : (a &&& ramMask).toNat = a.toNat % 2 ^ 25 := Memory.and_ramMask a
  unfold ps2FastRead
  dsimp only
  split
  · rw [BitVec.toNat_ofNat, Nat.mod_eq_of_lt Bytes.load_lt]
    apply Bytes.load_moved
    intro i hi
    have hi32 : (BitVec.ofNat 32 (0 + i)).toNat = i := by
      rw [BitVec.toNat_ofNat]
      omega
    have hwrap : (((a &&& ramMask) + BitVec.ofNat 32 (0 + i)) &&& ramMask).toNat = (a.toNat + i) % 2 ^ 25 := by
      rw [Memory.and_ramMask, BitVec.toNat_add, hoff, hi32]
      omega
    rw [mainMemory, ← hwrap]
  · rename_i hfits
    have hend : (a &&& ramMask).toNat + n ≤ 2 ^ 25 := by
      have hle : (a &&& ramMask) ≤ Memory.ramSize - BitVec.ofNat 32 n := by
        simpa [Memory.fastRangeIsContiguous] using hfits
      have hsize : (Memory.ramSize - BitVec.ofNat 32 n).toNat = 2 ^ 25 - n := by
        have hram : Memory.ramSize.toNat = 2 ^ 25 := rfl
        rw [BitVec.toNat_sub, hram, BitVec.toNat_ofNat]
        omega
      have := BitVec.le_def.mp hle
      omega
    rw [BitVec.toNat_ofNat, Nat.mod_eq_of_lt Bytes.load_lt]
    apply Bytes.load_moved
    intro i hi
    have hin : (a.toNat + i) % 2 ^ 25 = a.toNat % 2 ^ 25 + i := by omega
    rw [mainMemory, hin, hoff]

theorem fastRead_toNat (w : Width) : (w.fastRead b a).toNat = Bytes.load (mainMemory b) a.toNat w.bytes := by
  cases w with
  | w8 =>
    have hbyte : (Memory.ps2FastRead8 b a).toNat = Bytes.load (mainMemory b) a.toNat 1 := by
      rw [Bytes.load, Bytes.load, Memory.ps2FastRead8, Memory.and_ramMask, mainMemory]
      omega
    exact hbyte
  | w16 => exact ps2FastRead_toNat (by decide)
  | w32 => exact ps2FastRead_toNat (by decide)
  | w64 => exact ps2FastRead_toNat (by decide)
  | w128 => exact ps2FastRead_toNat (by decide)

theorem ps2FastWrite_aligned (hn : n ∣ 2 ^ 25) (h16 : n ≤ 16) (hal : n ∣ a.toNat) (v : BitVec (8 * n)) :
    ps2FastWrite n b a v = Bytes.store b (a.toNat % 2 ^ 25) v.toNat n := by
  have hoff : (a &&& ramMask).toNat = a.toNat % 2 ^ 25 := Memory.and_ramMask a
  have hfits : (a &&& ramMask).toNat + n ≤ 2 ^ 25 := by
    have hlt : a.toNat % 2 ^ 25 < 2 ^ 25 := Nat.mod_lt _ (by decide)
    have hdvd : n ∣ 2 ^ 25 - a.toNat % 2 ^ 25 :=
      Nat.dvd_sub hn ((Nat.dvd_mod_iff hn).mpr hal)
    have hle := Nat.le_of_dvd (by omega) hdvd
    omega
  rw [Memory.ps2FastWrite_eq h16 rfl hfits, hoff]

end

/-! ### Addresses of parts -/

section

variable {n : ℕ} (hn : n = 4 ∨ n = 8) (x : Word)

include hn

theorem align_toNat : (x &&& ~~~BitVec.ofNat 32 (n - 1)).toNat = x.toNat - x.toNat % n := by
  rcases hn with rfl | rfl
  · exact Masks.toNat_and_not_low (x := x) (a := 4) (k := 2) rfl
  · exact Masks.toNat_and_not_low (x := x) (a := 8) (k := 3) rfl

theorem offset_toNat : (x &&& BitVec.ofNat 32 (n - 1)).toNat = x.toNat % n := by
  rcases hn with rfl | rfl
  · exact Masks.toNat_and_low (x := x) (a := 4) (k := 2) rfl
  · exact Masks.toNat_and_low (x := x) (a := 8) (k := 3) rfl

theorem lt_of_align (h : ps2IsSpecialAddress (x &&& ~~~BitVec.ofNat 32 (n - 1)) = false) : x.toNat < 0xC0000000 := by
  have halign := align_toNat hn x
  have hlow : ¬0xC0000000 ≤ (x &&& ~~~BitVec.ofNat 32 (n - 1)).toNat := by
    intro hhigh
    rw [Memory.special_iff.mpr (.inl hhigh)] at h
    cases h
  rcases hn with rfl | rfl <;> omega

end

/-! ### Accesses to main memory -/

section

variable {D : Type}

abbrev Ctx.rdram (c : Ctx (Excepting (Core D))) : Bytes.Memory := c.sys.rest.mem.memory.rdram

def Ctx.setRdram (c : Ctx (Excepting (Core D))) (rdram : Bytes.Memory) : Ctx (Excepting (Core D)) :=
  c.setCore { c.sys.rest.mem with memory := { c.sys.rest.mem.memory with rdram := rdram } }

@[simp] theorem Ctx.setRdram_rdram (c : Ctx (Excepting (Core D))) (m : Bytes.Memory) : (c.setRdram m).rdram = m := rfl

variable {d : Devices D} {outside : Instruction → MemoryAccessHint → Statement (Core D)}
  {leaves : Instruction → Bool} {a : Word}

section

variable (hs : ps2IsSpecialAddress a = false) (width : ℕ)

include hs

theorem Core.load_fast (s : Sys (Excepting (Core D))) : (Core.bus d outside leaves).load false width a s =
    (BitVec.ofNat 128 (Bytes.load (mainMemory s.rest.mem.memory.rdram) a.toNat (Width.ofBits width).bytes), s) := by
  have hread : Core.read d false width a s.rest.mem =
      (some (((Width.ofBits width).fastRead s.rest.mem.memory.rdram a).setWidth 128), s.rest.mem) := by
    unfold Core.read
    rw [hs]
    rfl
  unfold Bus.load Core.bus
  dsimp only
  rw [hread, ← fastRead_toNat, BitVec.ofNat_toNat]

theorem Core.store_fast (v : BitVec 128) (c : Ctx (Excepting (Core D))) :
    { c with sys := (Core.bus d outside leaves).store false width a v c.sys } =
      c.setRdram ((Width.ofBits width).fastWrite c.rdram a (v.setWidth _)) := by
  unfold Bus.store Core.bus Core.write
  dsimp only
  rw [hs]
  rfl

end

end

end Ps2Recomp

/-!
# Loads

What the statement of a load leaves in `rt`. The translator picks `SET_GPR_U32` for the loads that
should extend with zeros, and `SET_GPR_U32` extends the sign of its word (`ps2_runtime_macros.h`): a
byte or a half word has no sign bit there, the word of `LWU` has.
-/

namespace Ps2Recomp.Loads

open Memory (Width Devices Ps2Memory ps2IsSpecialAddress)

/-- The loads of up to 64 bits, with what they read. -/
def loadWidth : Opcode → Option Width
  | .lb | .lbu => some .w8
  | .lh | .lhu => some .w16
  | .lw | .lwu => some .w32
  | .ld => some .w64
  | _ => none

/-- The low doubleword that a load of the value `v` should leave: `LB`, `LH` and `LW` extend the
sign, the others with zeros. -/
def extended (op : Opcode) (v : ℕ) : BitVec 64 :=
  match op with
  | .lb => (BitVec.ofNat 8 v).signExtend 64
  | .lh => (BitVec.ofNat 16 v).signExtend 64
  | .lw => (BitVec.ofNat 32 v).signExtend 64
  | _ => BitVec.ofNat 64 v

/-- `rt` has the low doubleword `v` afterwards, and no other bit of a register has changed. -/
structure Leaves {ρ : Type} (rt : Reg) (v : BitVec 64) (c c' : Ctx ρ) : Prop where
  low : rt ≠ 0 → c'.gprU64 rt = v
  upper : (c'.r rt).extractLsb' 64 64 = (c.r rt).extractLsb' 64 64
  others : ∀ reg, reg ≠ rt → c'.r reg = c.r reg
  zero : c'.gprU32 0 = 0 ∧ c'.gprU64 0 = 0 ∧ c'.gprVec 0 = 0

variable {D : Type} (d : Devices D)

/-- The value at an address: of the bytes of main memory, or what `PS2Memory` answers, which is zero
when it throws. -/
def loaded (slow : Bool) (w : Width) (vaddr : Word) (m : Ps2Memory D) : ℕ :=
  if slow || ps2IsSpecialAddress vaddr then
    match d.read w vaddr m with
    | .ok v _ => v.toNat
    | .error _ _ => 0
  else Bytes.load (mainMemory m.rdram) vaddr.toNat w.bytes

/-- The value that a load reads. -/
def loadedBy (w : Width) (inst : Instruction) (hint : MemoryAccessHint) (c : Ctx (Excepting (Core D))) : ℕ :=
  loaded d inst.isMmio w ((effectiveMemoryHintFor inst hint).getD (baseAddress inst c)) c.sys.rest.mem.memory

variable {d}

theorem loaded_lt (slow : Bool) (w : Width) (vaddr : Word) (m : Ps2Memory D) :
    loaded d slow w vaddr m < 2 ^ (8 * w.bytes) := by
  unfold loaded
  split
  · split
    · exact BitVec.isLt _
    · exact Nat.two_pow_pos _
  · exact Bytes.load_lt

theorem read_value (slow : Bool) (width : ℕ) (vaddr : Word) (s : Core D) : (Core.read d slow width vaddr s).1.getD 0 =
    BitVec.ofNat 128 (loaded d slow (Width.ofBits width) vaddr s.memory) := by
  unfold Core.read loaded
  dsimp only
  split
  · cases d.read (Width.ofBits width) vaddr s.memory with
    | ok v m => exact (BitVec.ofNat_toNat 128 v).symm
    | error e m => rfl
  · rw [← fastRead_toNat, BitVec.ofNat_toNat]
    rfl

theorem load_value (d : Devices D) (outside : Instruction → MemoryAccessHint → Statement (Core D))
    (leaves : Instruction → Bool) (slow : Bool) (width : ℕ) (vaddr : Word) (s : Sys (Excepting (Core D))) :
    ((Core.bus d outside leaves).load slow width vaddr s).1 =
      BitVec.ofNat 128 (loaded d slow (Width.ofBits width) vaddr s.rest.mem.memory) := by
  rw [← read_value]
  unfold Bus.load Core.bus
  dsimp only
  cases (Core.read d slow width vaddr s.rest.mem).1 with
  | none => rfl
  | some v => rfl

/-- The low doubleword that the translator leaves: `SET_GPR_S32`, `SET_GPR_U32` and `SET_GPR_U64`. -/
def emitted (op : Opcode) (v : ℕ) : BitVec 64 :=
  match op with
  | .lb => ((BitVec.ofNat 8 v).signExtend 32).signExtend 64
  | .lh => ((BitVec.ofNat 16 v).signExtend 32).signExtend 64
  | .lbu => ((BitVec.ofNat 8 v).setWidth 32).signExtend 64
  | .lhu => ((BitVec.ofNat 16 v).setWidth 32).signExtend 64
  | .lw | .lwu => (BitVec.ofNat 32 v).signExtend 64
  | _ => BitVec.ofNat 64 v

/-- What a load leaves of everything but the registers. -/
def afterLoad (d : Devices D) (outside : Instruction → MemoryAccessHint → Statement (Core D))
    (leaves : Instruction → Bool) (w : Width) (inst : Instruction) (hint : MemoryAccessHint)
    (c : Ctx (Excepting (Core D))) : Sys (Excepting (Core D)) :=
  ((Core.bus d outside leaves).load inst.isMmio (8 * w.bytes)
    ((effectiveMemoryHintFor inst hint).getD (baseAddress inst c)) c.sys).2

theorem exec_load (d : Devices D) (outside : Instruction → MemoryAccessHint → Statement (Core D))
    (leaves : Instruction → Bool) {inst : Instruction} {w : Width} (hw : loadWidth inst.opcode = some w)
    (hint : MemoryAccessHint) (c : Ctx (Excepting (Core D))) :
    (Core.bus d outside leaves).machine.exec inst hint c =
      ({ c with sys := afterLoad d outside leaves w inst hint c } : Ctx (Excepting (Core D))).setGprU64
        inst.rt (emitted inst.opcode (loadedBy d w inst hint c)) := by
  have hread : ∀ width, 8 * w.bytes = width → Width.ofBits width = w →
      (Core.bus d outside leaves).machine.read inst hint width (baseAddress inst c) c =
        (BitVec.ofNat 128 (loadedBy d w inst hint c),
          { c with sys := afterLoad d outside leaves w inst hint c }) := by
    rintro width rfl hwidth
    refine Prod.ext ?_ rfl
    have hvalue := load_value d outside leaves inst.isMmio (8 * w.bytes)
      ((effectiveMemoryHintFor inst hint).getD (baseAddress inst c)) c.sys
    rw [hwidth] at hvalue
    exact hvalue
  have hexec : (Core.bus d outside leaves).machine.exec inst hint c =
      (Core.bus d outside leaves).machine.execLoad inst hint c := by
    unfold Machine.exec
    revert hw
    cases inst.opcode <;> intro hw <;> first | rfl | cases hw
  rw [hexec]
  unfold Machine.execLoad
  revert hw
  cases inst.opcode with
  | lb | lbu =>
    intro hw
    cases hw
    dsimp only
    rw [hread 8 rfl rfl, BitVec.setWidth_ofNat_of_le (show 8 ≤ 128 by decide)]
    rfl
  | lh | lhu =>
    intro hw
    cases hw
    dsimp only
    rw [hread 16 rfl rfl, BitVec.setWidth_ofNat_of_le (show 16 ≤ 128 by decide)]
    rfl
  | lw | lwu =>
    intro hw
    cases hw
    dsimp only
    rw [hread 32 rfl rfl, BitVec.setWidth_ofNat_of_le (show 32 ≤ 128 by decide)]
    rfl
  | ld =>
    intro hw
    cases hw
    dsimp only
    rw [hread 64 rfl rfl, BitVec.setWidth_ofNat_of_le (show 64 ≤ 128 by decide)]
    rfl
  | _ => intro hw; cases hw

/-! ### The setters -/

/-- The word of a byte or a half word has no sign. -/
theorem signExtend_of_narrow {k : ℕ} (hk : k < 32) {v : ℕ} (hv : v < 2 ^ k) :
    ((BitVec.ofNat k v).setWidth 32).signExtend 64 = BitVec.ofNat 64 v := by
  rw [SignExtend.of_setWidth hk]
  exact BitVec.setWidth_ofNat_of_le_of_lt (by omega) hv

theorem signExtend_eq_iff {v : ℕ} (hv : v < 2 ^ 32) :
    (BitVec.ofNat 32 v).signExtend 64 = BitVec.ofNat 64 v ↔ v.testBit 31 = false := by
  have hmsb : (BitVec.ofNat 32 v).msb = v.testBit 31 := by
    rw [BitVec.msb_eq_getLsbD_last, BitVec.getLsbD_ofNat]
    simp
  constructor
  · intro heq
    have hbit : ((BitVec.ofNat 32 v).signExtend 64).getLsbD 63 = v.testBit 31 := by
      rw [BitVec.getLsbD_signExtend, hmsb]
      simp
    rw [← hbit, heq, BitVec.getLsbD_ofNat, Nat.testBit_lt_two_pow (hv.trans (by decide))]
    rfl
  · intro hbit
    rw [BitVec.signExtend_eq_setWidth_of_msb_false (hmsb.trans hbit)]
    exact BitVec.setWidth_ofNat_of_le_of_lt (by decide) hv

theorem emitted_eq_iff {op : Opcode} {w : Width} (hw : loadWidth op = some w) {v : ℕ} (hv : v < 2 ^ (8 * w.bytes)) :
    emitted op v = extended op v ↔ (op = .lwu → v.testBit 31 = false) := by
  revert hw
  cases op with
  | lb | lh =>
    intro hw
    refine ⟨nofun, fun _ => BitVec.eq_of_toInt_eq ?_⟩
    unfold emitted extended
    dsimp only
    rw [BitVec.toInt_signExtend_of_le (by decide), BitVec.toInt_signExtend_of_le (by decide),
      BitVec.toInt_signExtend_of_le (by decide)]
  | lbu =>
    intro hw
    cases hw
    exact ⟨nofun, fun _ => signExtend_of_narrow (by decide) hv⟩
  | lhu =>
    intro hw
    cases hw
    exact ⟨nofun, fun _ => signExtend_of_narrow (by decide) hv⟩
  | lw | ld => exact fun _ => ⟨nofun, fun _ => rfl⟩
  | lwu =>
    intro hw
    cases hw
    exact (signExtend_eq_iff hv).trans ⟨fun h _ => h, fun h => h rfl⟩
  | _ => intro hw; cases hw

theorem setGprU64_leaves {ρ : Type} (c : Ctx ρ) (sys : Sys ρ) (rt : Reg) (v : BitVec 64) :
    Leaves rt v c (({ c with sys := sys } : Ctx ρ).setGprU64 rt v) := by
  constructor
  · intro hrt
    rw [Ctx.gprU64_setGprU64, if_pos ⟨rfl, hrt⟩]
  · unfold Ctx.setGprU64
    split
    · rfl
    · dsimp only
      rw [Function.update_self]
      exact BitVec.extractLsb'_append_eq_left
  · intro reg hreg
    unfold Ctx.setGprU64
    split
    · rfl
    · exact Function.update_of_ne hreg _ _
  · exact ⟨rfl, rfl, rfl⟩

/-- **A load leaves the extended value, but for the word of `LWU` with its top bit set**, which
`SET_GPR_U32` extends like a signed one. -/
theorem load_extends_iff (d : Devices D) (outside : Instruction → MemoryAccessHint → Statement (Core D))
    (leaves : Instruction → Bool) (inst : Instruction) (hint : MemoryAccessHint)
    (c : Ctx (Excepting (Core D))) (w : Width) (hw : loadWidth inst.opcode = some w) :
    Leaves inst.rt (extended inst.opcode (loadedBy d w inst hint c)) c
        ((Core.bus d outside leaves).machine.exec inst hint c) ↔
      (inst.opcode = .lwu → inst.rt ≠ 0 → (loadedBy d w inst hint c).testBit 31 = false) := by
  have hv : loadedBy d w inst hint c < 2 ^ (8 * w.bytes) := loaded_lt _ _ _ _
  rw [exec_load d outside leaves hw hint c]
  have hleaves := setGprU64_leaves c (afterLoad d outside leaves w inst hint c) inst.rt
    (emitted inst.opcode (loadedBy d w inst hint c))
  constructor
  · intro h hop hrt
    have heq := (hleaves.low hrt).symm.trans (h.low hrt)
    exact (emitted_eq_iff hw hv).mp heq hop
  · intro h
    refine { hleaves with low := fun hrt => ?_ }
    rw [hleaves.low hrt]
    exact (emitted_eq_iff hw hv).mpr fun hop => h hop hrt

/-- A context over memory whose bytes are all `0x80`. -/
def signed : Ctx (Excepting (Core Unit)) where
  r _ := 0
  sys :=
    { pc := 0x100000, inDelaySlot := false, branchPc := 0, fcr31 := 0, vu0Status := 0, llbit := 0
      lladdr := 0
      rest :=
        { cop0 := {}, raised := 0, f := fun _ => 0, vu0Vf := fun _ => 0
          mem := { memory := { Memory.cleared with rdram := fun _ => 0x80 }, hi := 0, lo := 0 } } }

/-- `op $v0, 0x200($zero)`. -/
def loadAt (op : Opcode) : Instruction := { opcode := op, rt := 2, simmediate := 0x200 }

/-- The half word `0x8080` keeps its value. -/
theorem load_extends_iff_half : Leaves 2 0x8080 signed
    ((Core.bus Memory.quiet (fun _ _ c => c) fun _ => false).machine.exec (loadAt .lhu) none signed) := by
  have h := (load_extends_iff Memory.quiet (fun _ _ c => c) (fun _ => false) (loadAt .lhu) none signed
    .w16 rfl).mpr nofun
  have hv : extended .lhu (loadedBy Memory.quiet .w16 (loadAt .lhu) none signed) = 0x8080 := by
    decide +kernel
  rwa [← hv]

/-- **`LWU` of `0x80808080` leaves `0xFFFFFFFF80808080`.** -/
theorem lwu_extends_sign : ¬∀ (inst : Instruction) (hint : MemoryAccessHint)
    (c : Ctx (Excepting (Core Unit))) (w : Width), loadWidth inst.opcode = some w →
    Leaves inst.rt (extended inst.opcode (loadedBy Memory.quiet w inst hint c)) c
      ((Core.bus Memory.quiet (fun _ _ c => c) fun _ => false).machine.exec inst hint c) := by
  intro h
  have hlow := (h (loadAt .lwu) none signed .w32 rfl).low (by decide)
  have hne : ((Core.bus Memory.quiet (fun _ _ c => c) fun _ => false).machine.exec (loadAt .lwu) none
      signed).gprU64 2 ≠ extended .lwu (loadedBy Memory.quiet .w32 (loadAt .lwu) none signed) := by
    decide +kernel
  exact hne hlow

end Ps2Recomp.Loads
