import Ps2Recomp.Proof.Memory
import Ps2Recomp.Spec.Dma

/-!
# Parts of a status register

A store of a byte or a halfword to an I/O register reads the register, replaces the addressed bits and
writes the whole word. In a register that ones clear, the bits that were read are written as ones.

* `locate_status`: the registers lie behind all memories.
* `write_readBack_iff`: reading bits back does no harm exactly where there are none.
* `sub_word_store_iff`: the same for the stores of bytes and halfwords.
-/

namespace Ps2Recomp.Dma

open Memory

variable {G : Type} {m : Mem G} {r : StatusRegister} {address physAddr : Word}

/-! ### Where the registers are -/

theorem address_range (hphys : physAddr &&& ~~~3 = r.address) :
    r.address.toNat ≤ physAddr.toNat ∧ physAddr.toNat ≤ r.address.toNat + 3 := by
  have hsplit := Masks.and_add_and_not (x := physAddr) 3
  have hlow : (physAddr &&& 3).toNat ≤ 3 := by
    rw [BitVec.toNat_and]
    exact Nat.and_le_right
  rw [hphys] at hsplit
  omega

theorem address_cases (r : StatusRegister) : r.address.toNat = 0x1000E010 ∨ r.address.toNat = 0x1000F000 := by
  cases r
  · exact .inl rfl
  · exact .inr rfl

theorem locate_status {n : Word} (_hn : n.toNat ≤ 4) (htrans : translateAddress m.tlbEntries address = .ok physAddr)
    (hphys : physAddr &&& ~~~3 = r.address) : locate m.tlbEntries address n = .ok (.other physAddr) := by
  have hrange := address_range hphys
  have hcases := address_cases r
  have hscratch : isScratchpad address = false := by
    -- the offset of a scratchpad address is too small
    by_contra hscratch
    have hs : isScratchpad address = true := by simpa using hscratch
    have hlt := scratchpadOffset_lt hs
    have hsize : scratchpadSize.toNat = 0x4000 := rfl
    rw [translateAddress, if_pos hs] at htrans
    cases htrans
    omega
  have hvu : mapVuMemory physAddr n = none := by
    refine mapVu_eq_none fun v hv => ?_
    have hbase : 0x11000000 ≤ v.base.toNat := by cases v <;> decide
    omega
  exact locate_eq_other hscratch htrans (by omega) hvu

theorem isIoRegister_status (hphys : physAddr &&& ~~~3 = r.address) : isIoRegister physAddr = true := by
  have hrange := address_range hphys
  have hcases := address_cases r
  rw [isIoRegister_iff]
  omega

/-! ### What a store does -/

section

variable (d : Devices (Dmac G))

theorem writeIORegister_status (r : StatusRegister) (value : Word) (m : Mem G) :
    (withStatus d).writeIORegister r.address value m = .ok () (r.write m value) := by
  cases r <;> rfl

theorem writeIoBits_status (r : StatusRegister) (mask value : Word) (m : Mem G) :
    (withStatus d).writeIoBits r.address mask value m = .ok () (r.write m ((reg m r.address &&& mask) ||| value)) :=
  writeIORegister_status d r _ m

theorem write8_status (value : BitVec 8) (htrans : translateAddress m.tlbEntries address = .ok physAddr)
    (hphys : physAddr &&& ~~~3 = r.address) :
    (withStatus d).write8 address value m = .ok () (r.write m
      ((reg m r.address &&& outsideByte physAddr) ||| value.setWidth 32 <<< ((physAddr &&& 3) * 8))) := by
  rw [Devices.write8, bind_ok (located_ok (locate_status (by decide) htrans hphys))]
  simp only [Devices.writeIo8, isIoRegister_status hphys, if_true, hphys]
  exact writeIoBits_status d r _ _ m

theorem write16_status (value : BitVec 16) (haligned : 2 ∣ address.toNat)
    (htrans : translateAddress m.tlbEntries address = .ok physAddr) (hphys : physAddr &&& ~~~3 = r.address) :
    (withStatus d).write16 address value m = .ok () (r.write m
      ((reg m r.address &&& outsideHalf physAddr) ||| value.setWidth 32 <<< ((physAddr &&& 2) * 8))) := by
  rw [Devices.write16, bind_ok (checkAligned_ok (k := 1) rfl haligned), Devices.storeAt,
    bind_ok (located_ok (locate_status (by decide) htrans hphys))]
  simp only [Devices.writeIo16, isIoRegister_status hphys, if_true, hphys]
  exact writeIoBits_status d r _ _ m

theorem write32_status (r : StatusRegister) (value : Word) (m : Mem G) :
    (withStatus d).write32 r.address value m = .ok () (r.write m value) := by
  have htrans : translateAddress m.tlbEntries r.address = .ok r.address := by cases r <;> rfl
  have hphys : r.address &&& ~~~3 = r.address := by cases r <;> decide
  have haligned : 2 ^ 2 ∣ r.address.toNat := by cases r <;> decide
  have hgs : isGsPrivReg r.address = false := by cases r <;> decide
  rw [Devices.write32, bind_ok (checkAligned_ok rfl haligned), hgs]
  simp only [Bool.false_eq_true, if_false]
  rw [Devices.storeAt, bind_ok (located_ok (locate_status (by decide) htrans hphys))]
  simp only [isIoRegister_status hphys, if_true]
  exact writeIORegister_status d r value m

end

/-! ### Reading back -/

theorem setReg_inj {a x y : Word} (h : setReg m a x = setReg m a y) : x = y := by
  have hx := congrFun (congrArg Ps2Memory.ioRegisters h) a
  simpa [setReg] using hx

/-- The word that a write leaves in `D_STAT`. -/
def dStatNext (current value : Word) : Word :=
  let low : Word := 0x3FF
  let status := (current &&& low) &&& ~~~(value &&& low)
  let mask := ((current >>> 16) &&& low) ^^^ ((value >>> 16) &&& low)
  let next := (current &&& ~~~(low ||| (low <<< 16) ||| 0x80000000)) ||| status ||| (mask <<< 16)
  if status &&& mask ≠ 0 then next ||| 0x80000000 else next

theorem statusBits {i : ℕ} (hi : i < 10) : (0x3FF : Word).getLsbD i = true ∧ (0x3FF : Word).getLsbD (16 + i) = false ∧
    (0x80000000 : Word).getLsbD i = false ∧ (0x80000000 : Word).getLsbD (16 + i) = false := by
  revert i
  decide

section

variable {i : ℕ} (current value : Word) (hi : i < 10)

include hi

theorem getLsbD_dStatNext_status : (dStatNext current value).getLsbD i = (current.getLsbD i && !value.getLsbD i) := by
  obtain ⟨hlow, -, htop, -⟩ := statusBits hi
  have hshift : decide (i < 16) = true := decide_eq_true (by omega)
  have hword : decide (i < 32) = true := decide_eq_true (by omega)
  rw [dStatNext]
  split <;>
    simp only [BitVec.getLsbD_or, BitVec.getLsbD_and, BitVec.getLsbD_not, BitVec.getLsbD_shiftLeft, hlow,
      htop, hshift, hword] <;>
    cases current.getLsbD i <;> cases value.getLsbD i <;> rfl

theorem getLsbD_dStatNext_mask :
    (dStatNext current value).getLsbD (16 + i) = (current.getLsbD (16 + i) ^^ value.getLsbD (16 + i)) := by
  obtain ⟨hlow, hhigh, -, htop⟩ := statusBits hi
  have hshift : decide (16 + i < 16) = false := decide_eq_false (by omega)
  have hword : decide (16 + i < 32) = true := decide_eq_true (by omega)
  rw [dStatNext]
  split <;>
    simp only [BitVec.getLsbD_or, BitVec.getLsbD_and, BitVec.getLsbD_not, BitVec.getLsbD_xor,
      BitVec.getLsbD_shiftLeft, BitVec.getLsbD_ushiftRight, Nat.add_sub_cancel_left, hlow, hhigh, htop, hshift,
      hword] <;>
    cases current.getLsbD (16 + i) <;> cases value.getLsbD (16 + i) <;> rfl

end

theorem getLsbD_changedByOnes (i : ℕ) : StatusRegister.dStat.changedByOnes.getLsbD i = true ↔
    i < 10 ∨ 16 ≤ i ∧ i < 26 := by
  by_cases hi : i < 32
  · have hall : ∀ i < 32, StatusRegister.dStat.changedByOnes.getLsbD i = true ↔ i < 10 ∨ 16 ≤ i ∧ i < 26 := by
      decide
    exact hall i hi
  · rw [BitVec.getLsbD_of_ge _ _ (by omega)]
    simp only [Bool.false_eq_true, false_iff]
    omega

theorem dStatNext_congr {current value value' : Word}
    (h : value &&& StatusRegister.dStat.changedByOnes = value' &&& StatusRegister.dStat.changedByOnes) :
    dStatNext current value = dStatNext current value' := by
  have hlow : ∀ v : Word, v &&& 0x3FF = v &&& StatusRegister.dStat.changedByOnes &&& 0x3FF := by
    intro v
    rw [BitVec.and_assoc]
    rfl
  have hhigh : ∀ v : Word, (v >>> 16) &&& (0x3FF : Word) =
      ((v &&& StatusRegister.dStat.changedByOnes) >>> 16) &&& (0x3FF : Word) := by
    intro v
    rw [BitVec.ushiftRight_and_distrib, BitVec.and_assoc]
    rfl
  simp only [dStatNext]
  rw [hlow value, hlow value', hhigh value, hhigh value', h]

/-- **Reading back.** With the bits of `outside` read back, a write leaves the register as a write of
`value` alone does if and only if none of those that ones change was set. -/
theorem write_readBack_iff (r : StatusRegister) (m : Mem G) {outside value : Word} (hvalue : value &&& outside = 0) :
    r.write m ((reg m r.address &&& outside) ||| value) = r.write m value ↔
      reg m r.address &&& outside &&& r.changedByOnes = 0 := by
  have hbit : ∀ i, outside.getLsbD i = true → value.getLsbD i = false := by
    intro i ho
    have h : (value &&& outside).getLsbD i = (0#32).getLsbD i := by
      rw [hvalue]
      rfl
    simpa only [BitVec.getLsbD_and, ho, Bool.and_true, BitVec.getLsbD_zero] using h
  generalize hcurrent : reg m r.address = current
  cases r with
  | intcStat =>
    have hall : current &&& outside &&& StatusRegister.intcStat.changedByOnes = current &&& outside :=
      BitVec.and_allOnes
    rw [hall]
    have hwrite : ∀ v, StatusRegister.intcStat.write m v = setReg m intcStat (current &&& ~~~v) := by
      intro v
      rw [← hcurrent]
      rfl
    rw [hwrite, hwrite]
    constructor
    · intro h
      have hnext := setReg_inj h
      apply BitVec.eq_of_getLsbD_eq
      intro i hi
      have hi' : decide (i < 32) = true := decide_eq_true hi
      have h := congrArg (fun x => x.getLsbD i) hnext
      simp only [BitVec.getLsbD_and, BitVec.getLsbD_or, BitVec.getLsbD_not, hi', Bool.true_and] at h
      refine (BitVec.getLsbD_and ..).trans (Eq.trans ?_ BitVec.getLsbD_zero.symm)
      cases ho : outside.getLsbD i with
      | false => exact Bool.and_false _
      | true =>
        rw [ho, hbit i ho] at h
        cases hc : current.getLsbD i with
        | false => rfl
        | true => simp [hc] at h
    · intro h
      have hzero : (0 : Word) ||| value = value := BitVec.zero_or
      rw [h, hzero]
  | dStat =>
    have hwrite : ∀ v, StatusRegister.dStat.write m v = setReg m dStat (dStatNext current v) := by
      intro v
      rw [← hcurrent]
      rfl
    rw [hwrite, hwrite]
    constructor
    · intro h
      have hnext := setReg_inj h
      apply BitVec.eq_of_getLsbD_eq
      intro i hi
      refine (BitVec.getLsbD_and ..).trans (Eq.trans ?_ BitVec.getLsbD_zero.symm)
      rw [BitVec.getLsbD_and]
      cases hM : StatusRegister.dStat.changedByOnes.getLsbD i with
      | false => exact Bool.and_false _
      | true =>
        rw [Bool.and_true]
        cases ho : outside.getLsbD i with
        | false => exact Bool.and_false _
        | true =>
          have hv := hbit i ho
          have h := congrArg (fun x => x.getLsbD i) hnext
          rcases (getLsbD_changedByOnes i).1 hM with hlow | ⟨hge, hlt⟩
          · simp only [getLsbD_dStatNext_status _ _ hlow, BitVec.getLsbD_or, BitVec.getLsbD_and, ho, hv] at h
            cases hc : current.getLsbD i with
            | false => rfl
            | true => simp [hc] at h
          · obtain ⟨j, rfl⟩ := Nat.exists_eq_add_of_le hge
            have hj : j < 10 := by omega
            simp only [getLsbD_dStatNext_mask _ _ hj, BitVec.getLsbD_or, BitVec.getLsbD_and, ho, hv] at h
            cases hc : current.getLsbD (16 + j) with
            | false => rfl
            | true => simp [hc] at h
    · intro h
      have hsame : (current &&& outside ||| value) &&& StatusRegister.dStat.changedByOnes =
          value &&& StatusRegister.dStat.changedByOnes := by
        rw [BitVec.and_or_distrib_right, h]
        exact BitVec.zero_or
      rw [dStatNext_congr hsame]

/-! ### The stores -/

theorem shifted_and_outside {value low : Word} (h : value &&& low = value) (n : ℕ) :
    value <<< n &&& ~~~(low <<< n) = 0 := by
  rw [← h, BitVec.shiftLeft_and_distrib, BitVec.and_assoc, BitVec.and_not_self]
  exact BitVec.and_zero

theorem byte_and_outside (value : BitVec 8) (physAddr : Word) :
    value.setWidth 32 <<< ((physAddr &&& 3) * 8) &&& outsideByte physAddr = 0 := by
  refine shifted_and_outside ?_ _
  have hlow : (0xFF : Word) = (BitVec.allOnes 8).setWidth 32 := by decide
  rw [hlow, ← BitVec.setWidth_and, BitVec.and_allOnes]

theorem half_and_outside (value : BitVec 16) (physAddr : Word) :
    value.setWidth 32 <<< ((physAddr &&& 2) * 8) &&& outsideHalf physAddr = 0 := by
  refine shifted_and_outside ?_ _
  have hlow : (0xFFFF : Word) = (BitVec.allOnes 16).setWidth 32 := by decide
  rw [hlow, ← BitVec.setWidth_and, BitVec.and_allOnes]

/-- **Stores of bytes and halfwords** to a status register do what the store of a word with zeros
outside the addressed bits does, exactly where no bit was set outside that ones change. -/
theorem sub_word_store_iff (d : Devices (Dmac G)) (r : StatusRegister) (m : Mem G)
    (address physAddr : Word) (htrans : translateAddress m.tlbEntries address = .ok physAddr)
    (hphys : physAddr &&& ~~~3 = r.address) :
    (∀ value : BitVec 8,
      (withStatus d).write8 address value m =
          (withStatus d).write32 r.address (value.setWidth 32 <<< ((physAddr &&& 3) * 8)) m ↔
        reg m r.address &&& outsideByte physAddr &&& r.changedByOnes = 0) ∧
    (2 ∣ address.toNat → ∀ value : BitVec 16,
      (withStatus d).write16 address value m =
          (withStatus d).write32 r.address (value.setWidth 32 <<< ((physAddr &&& 2) * 8)) m ↔
        reg m r.address &&& outsideHalf physAddr &&& r.changedByOnes = 0) := by
  constructor
  · intro value
    rw [write8_status d value htrans hphys, write32_status, EStateM.Result.ok.injEq, ← write_readBack_iff r m
      (byte_and_outside value physAddr)]
    exact and_iff_right rfl
  · intro haligned value
    rw [write16_status d value haligned htrans hphys, write32_status, EStateM.Result.ok.injEq,
      ← write_readBack_iff r m (half_and_outside value physAddr)]
    exact and_iff_right rfl

/-- Devices behind which there is nothing. -/
def noDevices : Devices (Dmac Unit) where
  readIORegister _ := pure 0
  writeIORegister _ _ := pure ()
  isRegister _ := false
  isFifo _ := false
  readFifo128 _ := pure 0
  writeFifo128 _ _ := pure ()
  signalException _ m := m
  drainCompletedDmacHandlers := pure ()
  isRegister_io := quiet.isRegister_io
  isFifo_io := quiet.isRegister_io

/-- The VIF1 channel has completed, and no mask is set. -/
def vif1Completed : Mem Unit where
  rdram _ := 0
  scratchpad _ := 0
  vu _ _ := 0
  vu1CodeGeneration := 0
  tlbEntries := []
  gs _ := 0
  csr := 0
  ioRegisters a := if a = dStat then some 2 else none
  devices := ⟨fun _ => [], [], true, fun _ => 0, ⟨false, [], ()⟩⟩

/-- A store of the byte that has the bit. -/
theorem vif1Completed_first : (withStatus noDevices).write8 0x1000E010 2 vif1Completed =
    (withStatus noDevices).write32 0x1000E010 2 vif1Completed :=
  ((sub_word_store_iff noDevices .dStat vif1Completed 0x1000E010 0x1000E010 (by decide) (by decide)).1 2).2 (by decide)

/-- **A store of zero to the second byte** clears the bit in the first one. -/
theorem vif1Completed_second : ¬∀ (d : Devices (Dmac Unit)) (r : StatusRegister) (m : Mem Unit)
    (address physAddr : Word), translateAddress m.tlbEntries address = .ok physAddr →
    physAddr &&& ~~~3 = r.address → ∀ value : BitVec 8,
    (withStatus d).write8 address value m =
      (withStatus d).write32 r.address (value.setWidth 32 <<< ((physAddr &&& 3) * 8)) m := by
  intro h
  have htrans : translateAddress vif1Completed.tlbEntries 0x1000E011 = .ok 0x1000E011 := by decide
  have hphys : (0x1000E011 : Word) &&& ~~~3 = StatusRegister.dStat.address := by decide
  have hsame := h noDevices .dStat vif1Completed 0x1000E011 0x1000E011 htrans hphys 0
  rw [write8_status noDevices 0 htrans hphys, write32_status, EStateM.Result.ok.injEq] at hsame
  have hreg := congrArg (fun m => reg m dStat) hsame.2
  revert hreg
  decide

end Ps2Recomp.Dma
