import Ps2Recomp.Proof.IopAgree

/-!
# Loads and stores on the two processors

Accesses to the first two megabytes, which both processors see as their RAM. The parts of `LWL` and
the rest are shifted and masked in two ways; they have the same bytes.
-/

namespace Ps2Recomp.IopAgree

open Parts (byte)
open Memory (Width Devices Ps2Memory ps2IsSpecialAddress)
open Loads (loadWidth emitted loadedBy loaded afterLoad)

variable {D σ : Type}

/-- The `n` bytes at `p` are RAM of both processors, and have been compared. -/
structure Shared (S : Set ℕ) (n p : ℕ) : Prop where
  fits : p + n ≤ 2 ^ 21
  mem : ∀ b < n, p + b ∈ S

section

variable {S : Set ℕ} {c : Ctx (Excepting (Core D))} {s : IopCpu σ} {A : Word} {n : ℕ}

theorem not_special (h : A.toNat < 2 ^ 21) : ps2IsSpecialAddress A = false := by
  have hphys : Memory.physical A.toNat = A.toNat := by
    rw [Memory.physical, if_neg (by omega)]
  rw [Bool.eq_false_iff]
  intro hs
  rw [Memory.special_iff, hphys] at hs
  omega

theorem load_shared (hmem : ∀ q ∈ S, c.rdram q = s.ram q) (h : Shared S n A.toNat) :
    Bytes.load (mainMemory c.rdram) A.toNat n = Bytes.load s.ram A.toNat n := by
  have hfits := h.fits
  apply Bytes.load_moved
  intro b hb
  have hin : (A.toNat + b) % 2 ^ 25 = A.toNat + b := Nat.mod_eq_of_lt (by omega)
  rw [mainMemory, hin]
  exact hmem _ (h.mem b hb)

/-! ### The bus of the IOP -/

theorem phys_eq (h : A.toNat < 2 ^ 21) : (A &&& 0x1FFFFFFF).toNat = A.toNat := by
  have hlow : (A &&& 0x1FFFFFFF).toNat = A.toNat % 2 ^ 29 := Memory.and_low (k := 29) rfl A
  rw [hlow]
  exact Nat.mod_eq_of_lt (by omega)

theorem iopRamOffset_eq (h : A.toNat < 2 ^ 21) : (Dma.iopRamOffset A).toNat = A.toNat := by
  have hphys := phys_eq h
  have hsize : Dma.iopRamSize.toNat = 2 ^ 21 := rfl
  have hlt : A &&& 0x1FFFFFFF < Dma.iopRamSize := by
    rw [BitVec.lt_def, hphys, hsize]
    exact h
  rw [Dma.iopRamOffset, if_pos hlt, hphys]

/-- An access to the RAM, below its end. -/
theorem ram_access (hn : 0 < n) (h : A.toNat + n ≤ 2 ^ 21) : A &&& 0x1FFFFFFF < Dma.iopRamSize ∧
    ¬Dma.iopRamSize.toNat < (Dma.iopRamOffset A).toNat + n ∧ (Dma.iopRamOffset A).toNat = A.toNat := by
  have hA : A.toNat < 2 ^ 21 := by omega
  have hsize : Dma.iopRamSize.toNat = 2 ^ 21 := rfl
  have hoffset : (Dma.iopRamOffset A).toNat = A.toNat := by rw [iopRamOffset_eq hA]
  refine ⟨?_, by omega, hoffset⟩
  rw [BitVec.lt_def, phys_eq hA, hsize]
  exact hA

theorem busRead_ram (hn : 0 < n) (hooks : IopHooks σ) (h : A.toNat + n ≤ 2 ^ 21) :
    s.busRead hooks n A = (.ofNat 32 (Bytes.load s.ram A.toNat n), s) := by
  obtain ⟨hlt, hend, hoffset⟩ := ram_access hn h
  unfold IopCpu.busRead IopCpu.iopRead
  dsimp only
  rw [if_pos hlt, if_neg hend, hoffset]

theorem busWrite_ram (hn : 0 < n) (hooks : IopHooks σ) (v : Word) (h : A.toNat + n ≤ 2 ^ 21) : s.busWrite hooks n A v =
    { s with ram := Bytes.store s.ram A.toNat (v.toNat % 2 ^ (8 * n)) n } := by
  obtain ⟨hlt, hend, hoffset⟩ := ram_access hn h
  unfold IopCpu.busWrite IopCpu.iopWrite
  dsimp only
  rw [if_pos hlt, if_neg hend, hoffset]

/-- **The same word is stored on both sides.** -/
theorem Agree.store (h : Agree S none c s) (p u : ℕ) :
    Agree S none (c.setRdram (Bytes.store c.rdram p u n)) { s with ram := Bytes.store s.ram p u n } := by
  refine ⟨h.low, h.gpr, h.hi, h.lo, fun q hq => ?_⟩
  have hsame := h.mem q hq
  rw [Ctx.setRdram_rdram]
  unfold Bytes.store
  dsimp only
  rw [hsame]

end

/-! ### Whole accesses -/

/-- The hint, where there is one, is the address that the instruction computes. -/
def HintOk (inst : Instruction) (hint : MemoryAccessHint) (c : Ctx (Excepting (Core D))) : Prop :=
  ∀ a, hint = some a → a = baseAddress inst c ∧ isDirectMemoryAccess inst = true

section

variable {d : Devices D} {outside : Instruction → MemoryAccessHint → Statement (Core D)}
  {leaves : Instruction → Bool} {S : Set ℕ} {c : Ctx (Excepting (Core D))} {s : IopCpu σ}
  {inst : Instruction} {hint : MemoryAccessHint} {n : ℕ} {A : Word}

theorem hinted_address (hmmio : inst.isMmio = false) (hhint : HintOk inst hint c) :
    (effectiveMemoryHintFor inst hint).getD (baseAddress inst c) = baseAddress inst c := by
  rw [effectiveMemoryHintFor, hmmio]
  cases hint with
  | none => rfl
  | some a => exact (hhint a rfl).1

theorem load_main {w : Width} (hw : loadWidth inst.opcode = some w) (hmmio : inst.isMmio = false)
    (hhint : HintOk inst hint c) (hA : (baseAddress inst c).toNat < 2 ^ 21) :
    (Core.bus d outside leaves).machine.exec inst hint c = c.setGprU64 inst.rt
      (emitted inst.opcode (Bytes.load (mainMemory c.rdram) (baseAddress inst c).toNat w.bytes)) := by
  have hs := not_special hA
  have hloaded : loadedBy d w inst hint c = Bytes.load (mainMemory c.rdram) (baseAddress inst c).toNat w.bytes := by
    rw [loadedBy, hinted_address hmmio hhint, hmmio, loaded, hs]
    rfl
  have hafter : afterLoad d outside leaves w inst hint c = c.sys := by
    rw [afterLoad, hinted_address hmmio hhint, hmmio, Core.load_fast hs]
  rw [Loads.exec_load d outside leaves hw, hloaded, hafter]

/-- **The loads agree.** -/
theorem load_agrees (h : Agree S none c s) (hooks : IopHooks σ) {w : Width} {f : Word → Word}
    (hw : loadWidth inst.opcode = some w) (hmmio : inst.isMmio = false) (hhint : HintOk inst hint c)
    (hsh : Shared S w.bytes (baseAddress inst c).toNat)
    (hf : ∀ v, v < 2 ^ (8 * w.bytes) → emitted inst.opcode v = (f (.ofNat 32 v)).signExtend 64) :
    Agree S none ((Core.bus d outside leaves).machine.exec inst hint c)
      ((s.busRead hooks w.bytes (baseAddress inst c)).2.W inst.rt
        (f (s.busRead hooks w.bytes (baseAddress inst c)).1)) := by
  have hpos : 0 < w.bytes := by cases w <;> decide
  have hA : (baseAddress inst c).toNat < 2 ^ 21 := by
    have := hsh.fits
    omega
  rw [load_main hw hmmio hhint hA, busRead_ram hpos hooks hsh.fits, load_shared h.mem hsh]
  exact h.set (hf _ Bytes.load_lt)

theorem write_main (hn : n = 1 ∨ n = 2 ∨ n = 4) (hmmio : inst.isMmio = false) (hhint : HintOk inst hint c)
    (hal : n ∣ (baseAddress inst c).toNat) (hA : (baseAddress inst c).toNat < 2 ^ 21) (v : Word) :
    (Core.bus d outside leaves).machine.write inst hint (8 * n) (baseAddress inst c) (v.setWidth 128) c =
      c.setRdram (Bytes.store c.rdram (baseAddress inst c).toNat (v.toNat % 2 ^ (8 * n)) n) := by
  have hs := not_special hA
  have hin : (baseAddress inst c).toNat % 2 ^ 25 = (baseAddress inst c).toNat :=
    Nat.mod_eq_of_lt (by omega)
  have hvalue : ∀ m, m ≤ 128 → ((v.setWidth 128).setWidth m).toNat = v.toNat % 2 ^ m := by
    intro m hm
    rw [BitVec.setWidth_setWidth_of_le _ hm, BitVec.toNat_setWidth]
  have hwrite : (Core.bus d outside leaves).machine.write inst hint (8 * n) (baseAddress inst c)
      (v.setWidth 128) c = c.setRdram ((Width.ofBits (8 * n)).fastWrite c.rdram (baseAddress inst c)
        ((v.setWidth 128).setWidth _)) := by
    unfold Machine.write
    rw [hinted_address hmmio hhint, hmmio]
    exact Core.store_fast hs (8 * n) (v.setWidth 128) c
  rw [hwrite]
  rcases hn with rfl | rfl | rfl
  · have hbyte : (Width.ofBits (8 * 1)).fastWrite c.rdram (baseAddress inst c)
        ((v.setWidth 128).setWidth _) = Bytes.store c.rdram (baseAddress inst c &&& Memory.ramMask).toNat
          ((v.setWidth 128).setWidth 8).toNat 1 := rfl
    rw [hbyte, Memory.and_ramMask, hin, hvalue 8 (by decide)]
  · have hhalf : (Width.ofBits (8 * 2)).fastWrite c.rdram (baseAddress inst c)
        ((v.setWidth 128).setWidth _) = Bytes.store c.rdram ((baseAddress inst c).toNat % 2 ^ 25)
          ((v.setWidth 128).setWidth 16).toNat 2 := ps2FastWrite_aligned (by decide) (by decide) hal _
    rw [hhalf, hin, hvalue 16 (by decide)]
  · have hword : (Width.ofBits (8 * 4)).fastWrite c.rdram (baseAddress inst c)
        ((v.setWidth 128).setWidth _) = Bytes.store c.rdram ((baseAddress inst c).toNat % 2 ^ 25)
          ((v.setWidth 128).setWidth 32).toNat 4 := ps2FastWrite_aligned (by decide) (by decide) hal _
    rw [hword, hin, hvalue 32 (by decide)]

/-- **The stores agree.** -/
theorem store_agrees (h : Agree S none c s) (hooks : IopHooks σ) (hn : n = 1 ∨ n = 2 ∨ n = 4)
    (hmmio : inst.isMmio = false) (hhint : HintOk inst hint c)
    (hal : n ∣ (baseAddress inst c).toNat) (hsh : Shared S n (baseAddress inst c).toNat) :
    Agree S none ((Core.bus d outside leaves).machine.write inst hint (8 * n) (baseAddress inst c)
        ((c.gprU32 inst.rt).setWidth 128) c)
      (s.busWrite hooks n (baseAddress inst c) (s.gpr inst.rt)) := by
  have hpos : 0 < n := by omega
  have hA : (baseAddress inst c).toNat < 2 ^ 21 := by
    have := hsh.fits
    omega
  rw [write_main hn hmmio hhint hal hA, busWrite_ram hpos hooks _ hsh.fits, h.low]
  exact h.store _ _

end

/-! ### Parts of words -/

section

variable {k b : ℕ} (old mem : Word)

theorem byte_lowThree (j : ℕ) : byte (0x00FFFFFF : Word) j = if j < 3 then BitVec.allOnes 8 else 0 := by
  have hmask : (0x00FFFFFF : Word) = BitVec.allOnes 32 >>> (1 * 8) := by decide
  rw [hmask, Parts.byte_ushiftRight]
  split
  · exact Parts.byte_allOnes (by omega)
  · exact Parts.byte_above (by omega)

theorem byte_highThree {j : ℕ} (hj : j < 4) : byte (0xFFFFFF00 : Word) j = if j < 1 then 0 else BitVec.allOnes 8 := by
  have hmask : (0xFFFFFF00 : Word) = BitVec.allOnes 32 <<< (1 * 8) := by decide
  rw [hmask, Parts.byte_shiftLeft (by omega)]
  split
  · rfl
  · exact Parts.byte_allOnes (by omega)

section

variable (hk : k < 4) (hb : b < 4)

include hk hb

theorem iop_lwl_byte :
    byte ((old &&& ((0x00FFFFFF : Word) >>> (k * 8))) ||| (mem <<< (24 - k * 8))) b =
      if 3 - k ≤ b then byte mem (b - (3 - k)) else byte old b := by
  have hshift : 24 - k * 8 = (3 - k) * 8 := by omega
  rw [hshift, Parts.byte_or, Parts.byte_and, Parts.byte_ushiftRight, byte_lowThree, Parts.byte_shiftLeft (by omega)]
  by_cases hleft : 3 - k ≤ b
  · rw [if_neg (by omega), if_neg (by omega), if_pos hleft]
    exact Parts.join_new _ _
  · rw [if_pos (by omega), if_pos (by omega), if_neg hleft]
    exact Parts.join_old _

theorem iop_lwr_byte :
    byte ((old &&& ((0xFFFFFF00 : Word) <<< (24 - k * 8))) ||| (mem >>> (k * 8))) b =
      if b < 4 - k then byte mem (b + k) else byte old b := by
  have hshift : 24 - k * 8 = (3 - k) * 8 := by omega
  rw [hshift, Parts.byte_or, Parts.byte_and, Parts.byte_shiftLeft (by omega), Parts.byte_ushiftRight]
  by_cases hright : b < 4 - k
  · have hmask : (if b < 3 - k then 0 else byte (0xFFFFFF00 : Word) (b - (3 - k))) = 0 := by
      split
      · rfl
      · rw [byte_highThree (by omega), if_pos (by omega)]
    rw [hmask, if_pos hright]
    exact Parts.join_new _ _
  · have habove : byte mem (b + k) = 0 := Parts.byte_above (by omega)
    rw [if_neg (by omega), byte_highThree (by omega), if_neg (by omega), if_neg hright, habove]
    exact Parts.join_old _

/-- What `SWL` of the IOP merges: as `LWR`, with the register and the word in each other's place. -/
theorem iop_swl_byte :
    byte ((old >>> (24 - k * 8)) ||| (mem &&& ((0xFFFFFF00 : Word) <<< (k * 8)))) b =
      if b ≤ k then byte old (b + (3 - k)) else byte mem b := by
  have hswap := iop_lwr_byte mem old (k := 3 - k) (by omega) hb
  have hlow : (3 - k) * 8 = 24 - k * 8 := by omega
  have hhigh : 24 - (24 - k * 8) = k * 8 := by omega
  rw [hlow, hhigh, BitVec.or_comm] at hswap
  exact hswap.trans (if_congr (by omega) rfl rfl)

theorem iop_swr_byte :
    byte ((old <<< (k * 8)) ||| (mem &&& ((0x00FFFFFF : Word) >>> (24 - k * 8)))) b =
      if k ≤ b then byte old (b - k) else byte mem b := by
  have hswap := iop_lwl_byte mem old (k := 3 - k) (by omega) hb
  have hlow : (3 - k) * 8 = 24 - k * 8 := by omega
  have hhigh : 24 - (24 - k * 8) = k * 8 := by omega
  have hback : 3 - (3 - k) = k := by omega
  rw [hlow, hhigh, hback, BitVec.or_comm] at hswap
  exact hswap

end

end

section

variable {d : Devices D} {outside : Instruction → MemoryAccessHint → Statement (Core D)}
  {leaves : Instruction → Bool} {S : Set ℕ} {c : Ctx (Excepting (Core D))} {s : IopCpu σ}
  {inst : Instruction}

/-- The aligned word around an address. -/
def wordAround (A : Word) : Word := A &&& ~~~3

theorem wordAround_toNat (A : Word) : (wordAround A).toNat = A.toNat - A.toNat % 4 :=
  align_toNat (.inl rfl) A

theorem offset_eq (A : Word) : (A &&& 3).toNat = A.toNat % 4 := offset_toNat (.inl rfl) A

theorem around_shared (h : Agree S none c s) (hooks : IopHooks σ) {A : Word} (hsh : Shared S 4 (wordAround A).toNat) :
    ps2IsSpecialAddress (wordAround A) = false ∧
      ∃ mem : Word, s.busRead hooks 4 (wordAround A) = (mem, s) ∧
        mem = .ofNat 32 (Bytes.load (mainMemory c.rdram) (A.toNat - A.toNat % 4) 4) ∧
        ∀ b < 4, mainMemory c.rdram (A.toNat - A.toNat % 4 + b) = byte mem b := by
  have hfits := hsh.fits
  have hload := load_shared h.mem hsh
  rw [wordAround_toNat] at hload
  refine ⟨not_special (by omega), _, busRead_ram (by decide) hooks hsh.fits, ?_, ?_⟩
  · rw [wordAround_toNat, hload]
  · intro b hb
    rw [wordAround_toNat, ← hload, Parts.byte_ofNat_load hb (by omega)]

/-- **`LWL` agrees.** -/
theorem lwl_agrees (hop : inst.opcode = .lwl) (hmmio : inst.isMmio = false) (h : Agree S none c s)
    (hooks : IopHooks σ) (hsh : Shared S 4 (wordAround (baseAddress inst c)).toNat) :
    Agree S none ((Core.bus d outside leaves).machine.exec inst none c)
      (let p := s.busRead hooks 4 (wordAround (baseAddress inst c))
        let sh := (baseAddress inst c &&& 3).toNat * 8
        p.2.W inst.rt ((s.gpr inst.rt &&& ((0x00FFFFFF : Word) >>> sh)) ||| (p.1 <<< (24 - sh)))) := by
  obtain ⟨hs, mem, hread, -, hmem⟩ := around_shared h hooks hsh
  obtain ⟨v, hv, hbytes⟩ := Unaligned.exec_lwl d outside leaves hop hmmio rfl hs
  have hk : (baseAddress inst c).toNat % 4 < 4 := Nat.mod_lt _ (by decide)
  dsimp only
  rw [hv, hread, offset_eq]
  refine h.set (congrArg _ (Parts.eq_of_bytes (n := 4) le_rfl fun b hb => ?_))
  rw [hbytes b hb, iop_lwl_byte _ _ hk hb, h.low]
  split
  · exact hmem _ (by omega)
  · rfl

theorem Agree.setLow (h : Agree S none c s) {rd : Reg} {V : BitVec 64} {v : Word}
    (hv : V.setWidth 32 = v) : Agree S (some rd) (c.setGprU64 rd V) (s.W rd v) := by
  obtain ⟨hshi, hslo, hsram⟩ := W_rest (s := s) rd v
  obtain ⟨hchi, hclo, hcram⟩ := setGprU64_rest (c := c) rd V
  constructor
  · intro r
    rw [Ctx.gprU32_setGprU64, W_gpr, h.low, hv]
  · intro r hr
    have hne : ¬(r = rd ∧ rd ≠ 0) := fun hrd => hr (by rw [hrd.1])
    rw [Ctx.gprU64_setGprU64, W_gpr, if_neg hne, if_neg hne, h.gpr r nofun]
  · rw [hchi, hshi, h.hi]
  · rw [hclo, hslo, h.lo]
  · intro q hq
    rw [hcram, hsram, h.mem q hq]

/-- **`LWR` agrees in the low word.** -/
theorem lwr_agrees (hop : inst.opcode = .lwr) (hmmio : inst.isMmio = false) (h : Agree S none c s)
    (hooks : IopHooks σ) (hsh : Shared S 4 (wordAround (baseAddress inst c)).toNat) :
    Agree S (some inst.rt) ((Core.bus d outside leaves).machine.exec inst none c)
      (let p := s.busRead hooks 4 (wordAround (baseAddress inst c))
        let sh := (baseAddress inst c &&& 3).toNat * 8
        p.2.W inst.rt ((s.gpr inst.rt &&& ((0xFFFFFF00 : Word) <<< (24 - sh))) ||| (p.1 >>> sh))) := by
  obtain ⟨hs, mem, hread, -, hmem⟩ := around_shared h hooks hsh
  obtain ⟨v, hv, hbytes⟩ := Unaligned.exec_lwr d outside leaves hop hmmio rfl hs
  have hk : (baseAddress inst c).toNat % 4 < 4 := Nat.mod_lt _ (by decide)
  have hvalue : v = (s.gpr inst.rt &&& ((0xFFFFFF00 : Word) <<< (24 - (baseAddress inst c).toNat % 4 * 8))) |||
      (mem >>> ((baseAddress inst c).toNat % 4 * 8)) := by
    refine Parts.eq_of_bytes (n := 4) le_rfl fun b hb => ?_
    rw [hbytes b hb, iop_lwr_byte _ _ hk hb, h.low]
    split
    · rw [← hmem _ (by omega)]
      exact congrArg _ (Unaligned.right_byte (n := 4)).symm
    · rfl
  dsimp only
  rw [hv, hread, offset_eq]
  refine h.setLow ?_
  rw [← hvalue]
  split
  · exact SignExtend.low (by decide) v
  · exact Unaligned.low_of_kept _ v

theorem rewrite_agrees (h : Agree S none c s) (hooks : IopHooks σ) {A : Word}
    (hsh : Shared S 4 (wordAround A).toNat) {merge : ℕ → Word → Word → Word} {val new mem : Word}
    (hmem : mem = .ofNat 32 (Bytes.load (mainMemory c.rdram) (A.toNat - A.toNat % 4) 4))
    (hnew : merge (A.toNat % 4) val mem = new) :
    Agree S none (c.setRdram (Unaligned.rewrite 4 A merge val c.rdram)) (s.busWrite hooks 4 (wordAround A) new) := by
  have hfits := hsh.fits
  rw [wordAround_toNat] at hfits
  have hplace : (A.toNat - A.toNat % 4) % 2 ^ 25 = A.toNat - A.toNat % 4 :=
    Nat.mod_eq_of_lt (by omega)
  have hrewrite : Unaligned.rewrite 4 A merge val c.rdram =
      Bytes.store c.rdram (A.toNat - A.toNat % 4) new.toNat 4 := by
    rw [← hnew, hmem, Unaligned.rewrite, hplace]
  have hsmall : new.toNat % 2 ^ (8 * 4) = new.toNat := Nat.mod_eq_of_lt new.isLt
  rw [busWrite_ram (by decide) hooks new hsh.fits, hsmall, wordAround_toNat, hrewrite]
  exact h.store _ _

/-- **`SWL` agrees.** -/
theorem swl_agrees (hop : inst.opcode = .swl) (hmmio : inst.isMmio = false) (h : Agree S none c s)
    (hooks : IopHooks σ) (hsh : Shared S 4 (wordAround (baseAddress inst c)).toNat) :
    Agree S none ((Core.bus d outside leaves).machine.exec inst none c)
      (let p := s.busRead hooks 4 (wordAround (baseAddress inst c))
        let sh := (baseAddress inst c &&& 3).toNat * 8
        p.2.busWrite hooks 4 (wordAround (baseAddress inst c))
          ((s.gpr inst.rt >>> (24 - sh)) ||| (p.1 &&& ((0xFFFFFF00 : Word) <<< sh)))) := by
  obtain ⟨hs, mem, hread, hload, -⟩ := around_shared h hooks hsh
  have hk : (baseAddress inst c).toNat % 4 < 4 := Nat.mod_lt _ (by decide)
  dsimp only
  rw [Unaligned.exec_storePart d outside leaves .swl hop hmmio rfl hs, ← Ctx.gprU32_eq, hread, offset_eq]
  refine rewrite_agrees h hooks hsh hload (Parts.eq_of_bytes (n := 4) le_rfl fun b hb => ?_)
  rw [Unaligned.byte_storeLeft (n := 4) rfl hk hb, iop_swl_byte _ _ hk hb, h.low]

/-- **`SWR` agrees.** -/
theorem swr_agrees (hop : inst.opcode = .swr) (hmmio : inst.isMmio = false) (h : Agree S none c s)
    (hooks : IopHooks σ) (hsh : Shared S 4 (wordAround (baseAddress inst c)).toNat) :
    Agree S none ((Core.bus d outside leaves).machine.exec inst none c)
      (let p := s.busRead hooks 4 (wordAround (baseAddress inst c))
        let sh := (baseAddress inst c &&& 3).toNat * 8
        p.2.busWrite hooks 4 (wordAround (baseAddress inst c))
          ((s.gpr inst.rt <<< sh) ||| (p.1 &&& ((0x00FFFFFF : Word) >>> (24 - sh))))) := by
  obtain ⟨hs, mem, hread, hload, -⟩ := around_shared h hooks hsh
  have hk : (baseAddress inst c).toNat % 4 < 4 := Nat.mod_lt _ (by decide)
  dsimp only
  rw [Unaligned.exec_storePart d outside leaves .swr hop hmmio rfl hs, ← Ctx.gprU32_eq, hread, offset_eq]
  refine rewrite_agrees h hooks hsh hload (Parts.eq_of_bytes (n := 4) le_rfl fun b hb => ?_)
  rw [Unaligned.byte_storeRight (n := 4) rfl hb, iop_swr_byte _ _ hk hb, h.low]

/-! ### Instruction words -/

/-- `ADDIU` to `LUI`. -/
def immediates : List ℕ := [0x09, 0x0A, 0x0B, 0x0C, 0x0D, 0x0E, 0x0F]

/-- `LB` to `LWR`, `SB` to `SW` and `SWR`. -/
def accesses : List ℕ := [0x20, 0x21, 0x22, 0x23, 0x24, 0x25, 0x26, 0x28, 0x29, 0x2A, 0x2B, 0x2E]

def accessSize (op : ℕ) : ℕ :=
  if op ∈ [0x20, 0x24, 0x28] then 1 else if op ∈ [0x21, 0x25, 0x29] then 2 else 4

/-- What an instruction accesses at `A` is shared, and aligned unless it is a part of a word. -/
def Accessed (S : Set ℕ) (op : ℕ) (A : Word) : Prop :=
  if op ∈ [0x22, 0x26, 0x2A, 0x2E] then Shared S 4 (wordAround A).toNat
  else accessSize op ∣ A.toNat ∧ Shared S (accessSize op) A.toNat

/-- **The loads and stores agree.** -/
theorem access_agrees {op : BitVec 6} {hint : MemoryAccessHint} (hop : inst.opcode = .ofBits op)
    (hin : op.toNat ∈ accesses) (hmmio : inst.isMmio = false) (hhint : HintOk inst hint c)
    (h : Agree S none c s) (hooks : IopHooks σ) (hacc : Accessed S op.toNat (baseAddress inst c)) :
    Agree S (if op.toNat = 0x26 then some inst.rt else none)
      ((Core.bus d outside leaves).machine.exec inst hint c)
      (s.access hooks op.toNat inst.rs inst.rt inst.simmediate) := by
  have hbase : s.gpr inst.rs + inst.simmediate = baseAddress inst c := by rw [baseAddress, h.low]
  have hpart : isDirectMemoryAccess inst = false → hint = none := by
    intro hdirect
    cases hint with
    | none => rfl
    | some a =>
      rw [(hhint a rfl).2] at hdirect
      cases hdirect
  unfold Opcode.ofBits at hop
  unfold IopCpu.access
  dsimp only
  rw [hbase]
  simp only [accesses, List.mem_cons, List.not_mem_nil, or_false] at hin
  rcases hin with hin | hin | hin | hin | hin | hin | hin | hin | hin | hin | hin | hin
  · rw [hin] at hop hacc ⊢
    refine load_agrees h hooks (w := .w8) (f := fun v => (v.setWidth 8).signExtend 32) (by rw [hop]; rfl)
      hmmio hhint hacc.2 fun v _ => ?_
    rw [hop, BitVec.setWidth_ofNat_of_le (show 8 ≤ 32 by decide)]
    rfl
  · rw [hin] at hop hacc ⊢
    refine load_agrees h hooks (w := .w16) (f := fun v => (v.setWidth 16).signExtend 32) (by rw [hop]; rfl)
      hmmio hhint hacc.2 fun v _ => ?_
    rw [hop, BitVec.setWidth_ofNat_of_le (show 16 ≤ 32 by decide)]
    rfl
  · rw [hin] at hop hacc ⊢
    obtain rfl := hpart (by unfold isDirectMemoryAccess; rw [hop]; rfl)
    exact lwl_agrees hop hmmio h hooks hacc
  · rw [hin] at hop hacc ⊢
    refine load_agrees h hooks (w := .w32) (f := fun v => v) (by rw [hop]; rfl) hmmio hhint hacc.2 fun v _ => ?_
    rw [hop]
    rfl
  · rw [hin] at hop hacc ⊢
    refine load_agrees h hooks (w := .w8) (f := fun v => v) (by rw [hop]; rfl) hmmio hhint hacc.2 fun v hv => ?_
    rw [hop]
    exact congrArg (BitVec.signExtend 64) (BitVec.setWidth_ofNat_of_le_of_lt (by decide) hv)
  · rw [hin] at hop hacc ⊢
    refine load_agrees h hooks (w := .w16) (f := fun v => v) (by rw [hop]; rfl) hmmio hhint hacc.2 fun v hv => ?_
    rw [hop]
    exact congrArg (BitVec.signExtend 64) (BitVec.setWidth_ofNat_of_le_of_lt (by decide) hv)
  · rw [hin] at hop hacc ⊢
    obtain rfl := hpart (by unfold isDirectMemoryAccess; rw [hop]; rfl)
    exact lwr_agrees hop hmmio h hooks hacc
  · rw [hin] at hop hacc ⊢
    unfold Machine.exec
    rw [hop]
    exact store_agrees h hooks (.inl rfl) hmmio hhint hacc.1 hacc.2
  · rw [hin] at hop hacc ⊢
    unfold Machine.exec
    rw [hop]
    exact store_agrees h hooks (.inr (.inl rfl)) hmmio hhint hacc.1 hacc.2
  · rw [hin] at hop hacc ⊢
    obtain rfl := hpart (by unfold isDirectMemoryAccess; rw [hop]; rfl)
    exact swl_agrees hop hmmio h hooks hacc
  · rw [hin] at hop hacc ⊢
    unfold Machine.exec
    rw [hop]
    exact store_agrees h hooks (.inr (.inr rfl)) hmmio hhint hacc.1 hacc.2
  · rw [hin] at hop hacc ⊢
    obtain rfl := hpart (by unfold isDirectMemoryAccess; rw [hop]; rfl)
    exact swr_agrees hop hmmio h hooks hacc

/-- The opcode of an instruction word. -/
def opcodeOf (code : Word) : BitVec 6 := code.extractLsb' 26 6

def functionOf (code : Word) : BitVec 6 := code.extractLsb' 0 6

/-- The instructions of MIPS I but for `ADD`, `SUB`, `ADDI`, branches, jumps, traps and coprocessors,
and with no `rd` in `MULT` and `MULTU`. -/
def MipsI (code : Word) : Prop :=
  (opcodeOf code).toNat = 0 ∧ (functionOf code).toNat ∈ specials ∧
      ((functionOf code).toNat = 0x18 ∨ (functionOf code).toNat = 0x19 → regField code 11 = 0) ∨
    (opcodeOf code).toNat ∈ immediates ∨ (opcodeOf code).toNat ∈ accesses

theorem MipsI.jump_none {code : Word} (h : MipsI code) (curpc : Word) (s : IopCpu σ) :
    IopCpu.jump code curpc s = none := by
  unfold IopCpu.jump
  rcases h with ⟨hop, hf, -⟩ | hop | hop
  · unfold opcodeOf at hop
    unfold functionOf at hf
    dsimp only
    rw [hop]
    revert hf
    generalize (code.extractLsb' 0 6).toNat = f
    intro hf
    simp only [specials, List.mem_cons, List.not_mem_nil, or_false] at hf
    rcases hf with rfl | rfl | rfl | rfl | rfl | rfl | rfl | rfl | rfl | rfl | rfl | rfl | rfl | rfl | rfl |
      rfl | rfl | rfl | rfl | rfl | rfl | rfl <;> rfl
  · unfold opcodeOf at hop
    simp only [immediates, List.mem_cons, List.not_mem_nil, or_false] at hop
    dsimp only
    rcases hop with hop | hop | hop | hop | hop | hop | hop <;> rw [hop] <;> rfl
  · unfold opcodeOf at hop
    simp only [accesses, List.mem_cons, List.not_mem_nil, or_false] at hop
    dsimp only
    rcases hop with hop | hop | hop | hop | hop | hop | hop | hop | hop | hop | hop | hop <;>
      rw [hop] <;> rfl

theorem execOne_plain (hooks : IopHooks σ) {code : Word} (hfetch : s.busRead hooks 4 s.pc = (code, s))
    (hcode : MipsI code) (depth : ℕ) : IopCpu.execOne hooks (depth + 1) s =
      some ((IopCpu.exec hooks code { s with pc := s.pc + 4 }).zeroed) := by
  unfold IopCpu.execOne
  dsimp only
  rw [hfetch]
  dsimp only
  rw [hcode.jump_none]

end

/-- **Emitted code and the interpreter agree on MIPS I.** The emitted statement and `execOne`, from
registers that hold the same words, leave registers, `HI` and `LO` that hold the same words, and
memories that agree where they did; only the upper half of the target of `LWR` may be another. -/
theorem emitted_agrees_with_interpreter (d : Devices D)
    (outside : Instruction → MemoryAccessHint → Statement (Core D)) (leaves : Instruction → Bool)
    (hooks : IopHooks σ) (flags : Instruction) (address code : Word) (hcode : MipsI code) (S : Set ℕ)
    (c : Ctx (Excepting (Core D))) (s : IopCpu σ) (hagree : Agree S none c s) (hint : MemoryAccessHint)
    (hhint : HintOk (decodeInstruction flags address code) hint c)
    (hfetch : s.busRead hooks 4 s.pc = (code, s))
    (hacc : (opcodeOf code).toNat ∈ accesses → Accessed S (opcodeOf code).toNat
      (baseAddress (decodeInstruction flags address code) c)) (depth : ℕ) :
    ∃ s', IopCpu.execOne hooks (depth + 1) s = some s' ∧
      Agree S (if (opcodeOf code).toNat = 0x26 then some (regField code 16) else none)
        ((Core.bus d outside leaves).machine.exec (decodeInstruction flags address code) hint c) s' := by
  refine ⟨_, execOne_plain hooks hfetch hcode depth, Agree.zeroed ?_⟩
  have hnext : Agree S none c { s with pc := s.pc + 4 } := hagree.setPc _
  unfold IopCpu.exec
  dsimp only
  rcases hcode with ⟨hop, hf, hmult⟩ | hop | hop
  · have hspecial : (decodeInstruction flags address code).opcode = .special := by
      change Opcode.ofBits (opcodeOf code) = .special
      rw [Opcode.ofBits, hop]
      rfl
    rw [if_neg (by rw [hop]; decide)]
    unfold opcodeOf at hop
    rw [if_pos hop]
    exact special_agrees hspecial hnext hooks hf hmult
  · have hrange : (opcodeOf code).toNat ≠ 0 ∧ (opcodeOf code).toNat ≠ 0x26 ∧
        (opcodeOf code).toNat ≠ 0x10 ∧ (opcodeOf code).toNat < 0x10 := by
      simp only [immediates, List.mem_cons, List.not_mem_nil, or_false] at hop
      omega
    rw [if_neg hrange.2.1]
    unfold opcodeOf at hrange
    rw [if_neg hrange.1, if_neg hrange.2.2.1, if_pos hrange.2.2.2]
    exact immediate_agrees rfl rfl rfl hop hnext
  · have hrange : (opcodeOf code).toNat ≠ 0 ∧ (opcodeOf code).toNat ≠ 0x10 ∧ ¬(opcodeOf code).toNat < 0x10 := by
      simp only [accesses, List.mem_cons, List.not_mem_nil, or_false] at hop
      omega
    unfold opcodeOf at hrange
    rw [if_neg hrange.1, if_neg hrange.2.1, if_neg hrange.2.2]
    exact access_agrees rfl hop rfl hhint hnext hooks (hacc hop)

/-- `subu $v0, $a0, $a1`, over memory that holds it everywhere. -/
def subuAt (q : ℕ) : BitVec 8 := byte (0x00851023 : Word) (q % 4)

/-- The interpreter with `-1` in `$a0`. -/
def interpreter : IopCpu Unit where
  gpr r := if r = 4 then 0xFFFFFFFF else 0
  hi := 0
  lo := 0
  pc := 0
  cop0 _ := 0
  halted := false
  ram := subuAt
  hooked := ()

/-- The same state of the EE. -/
def extendedState : Ctx (Excepting (Core Unit)) :=
  { Loads.signed with r := fun r => ((interpreter.gpr r).signExtend 64).setWidth 128 }.setRdram subuAt

def silent : IopHooks Unit where
  ioRead _ u := (none, u)
  ioWrite _ _ u := u
  trap := none

/-- A difference that is negative. -/
theorem emitted_agrees_with_interpreter_subu :
    ∃ s', IopCpu.execOne silent 1 interpreter = some s' ∧ Agree Set.univ none
      ((Core.bus Memory.quiet (fun _ _ c => c) fun _ => false).machine.exec
        (decodeInstruction {} 0 0x00851023) none extendedState) s' := by
  have hagree : Agree Set.univ none extendedState interpreter :=
    ⟨by decide +kernel, fun r _ => by revert r; decide +kernel, rfl, rfl, fun _ _ => rfl⟩
  have hload : BitVec.ofNat 32 (Bytes.load interpreter.ram 0 4) = 0x00851023 := by decide +kernel
  have hfetch : interpreter.busRead silent 4 interpreter.pc = (0x00851023, interpreter) := by
    rw [← hload]
    exact busRead_ram (by decide) silent (by decide)
  exact emitted_agrees_with_interpreter Memory.quiet (fun _ _ c => c) (fun _ => false) silent {} 0
    0x00851023 (.inl (by decide)) Set.univ extendedState interpreter hagree none (fun _ h => nomatch h)
    hfetch (fun h => absurd h (by decide)) 0

end Ps2Recomp.IopAgree
