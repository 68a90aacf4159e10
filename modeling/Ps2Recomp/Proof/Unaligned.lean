import Ps2Recomp.Lib.Parts
import Ps2Recomp.Proof.Loads

/-!
# Unaligned words

`LWL` with `LWR`, `LDL` with `LDR` and the stores `SWL` with `SWR`, `SDL` with `SDR`, in either order.
Each reads the aligned word around its address and merges bytes; what the two of a pair merge are
the bytes of the word at the lower address, wherever that lies.
-/

namespace Ps2Recomp.Unaligned

open Parts
open Memory (Width Devices Ps2Memory ps2IsSpecialAddress ps2FastRead ps2FastWrite ramMask)

/-! ### The merges -/

section

variable {w n o b : ℕ}

/-- `SWL` and `SDL` put the high bytes of the register below the offset. -/
theorem byte_storeLeft (hw : w = 8 * n) (ho : o < n) (hb : b < n) (val old : BitVec w) :
    byte (storeLeft o val old) b = if b ≤ o then byte val (b + (n - 1 - o)) else byte old b := by
  subst hw
  have hshift : 8 * n / 8 - 1 - o = n - 1 - o := by omega
  unfold storeLeft
  dsimp only
  rw [hshift, byte_or, byte_and, byte_not (by omega), byte_and, byte_ushiftRight, byte_ushiftRight]
  split
  · rw [byte_allOnes (by omega)]
    exact merge_new _ _
  · have habove : byte (BitVec.allOnes (8 * n)) (b + (n - 1 - o)) = 0 := byte_above (by omega)
    rw [habove]
    exact merge_old _ _

/-- `SWR` and `SDR` put the low bytes of the register from the offset on. -/
theorem byte_storeRight (hw : w = 8 * n) (hb : b < n) (val old : BitVec w) :
    byte (storeRight o val old) b = if o ≤ b then byte val (b - o) else byte old b := by
  subst hw
  unfold storeRight
  dsimp only
  rw [byte_or, byte_and, byte_not (by omega), byte_and, byte_shiftLeft (by omega), byte_shiftLeft (by omega)]
  by_cases hbo : b < o
  · rw [if_pos hbo, if_pos hbo, if_neg (by omega)]
    exact merge_old _ _
  · rw [if_neg hbo, if_neg hbo, if_pos (by omega), byte_allOnes (by omega)]
    exact merge_new _ _

section

variable (hn : n ≤ 8) (ho : o < n) (hb : b < n) (old mem : BitVec 64)

include hn ho hb

/-- `LWL` and `LDL` take the high bytes from the memory. -/
theorem byte_mergeLeft :
    byte (Machine.mergeLeft (8 * n) o old mem) b =
      if n - 1 - o ≤ b then byte mem (b - (n - 1 - o)) else byte old b := by
  have hshift : 8 * n / 8 - 1 - o = n - 1 - o := by omega
  unfold Machine.mergeLeft
  dsimp only
  rw [hshift, byte_or, byte_and, byte_lowMask (by omega), byte_shiftLeft (by omega)]
  by_cases hbo : b < n - 1 - o
  · rw [if_pos hbo, if_pos hbo, if_neg (by omega)]
    exact join_old _
  · rw [if_neg hbo, if_neg hbo, if_pos (by omega)]
    exact join_new _ _

/-- `LWR` and `LDR` take the low bytes from the memory, and all when the address is aligned. -/
theorem byte_mergeRight (hmem : ∀ j, n ≤ j → byte mem j = 0) :
    byte (Machine.mergeRight (8 * n) o old mem) b =
      if b < n - o then byte mem (b + o) else byte old b := by
  have hshift : 8 * n / 8 - o = n - o := by omega
  have hkeep : byte (if o = 0 then 0 else BitVec.allOnes 64 <<< ((8 * n / 8 - o) * 8)) b =
      if b < n - o then 0 else BitVec.allOnes 8 := by
    by_cases h0 : o = 0
    · rw [if_pos h0, byte_zero, if_pos (by omega)]
    · rw [if_neg h0, hshift, byte_shiftLeft (by omega)]
      by_cases hbo : b < n - o
      · rw [if_pos hbo, if_pos hbo]
      · rw [if_neg hbo, if_neg hbo, byte_allOnes (by omega)]
  unfold Machine.mergeRight
  dsimp only
  rw [byte_or, byte_and, hkeep, byte_ushiftRight]
  by_cases hbo : b < n - o
  · rw [if_pos hbo, if_pos hbo]
    exact join_new _ _
  · rw [if_neg hbo, if_neg hbo, hmem _ (by omega)]
    exact join_old _

end

end

/-! ### The parts of a word -/

/-- The word of `n` bytes at an address. -/
def word (n : ℕ) (rdram : Bytes.Memory) (a : Word) : BitVec (8 * n) :=
  .ofNat _ (Bytes.load (mainMemory rdram) a.toNat n)

/-- The left part of the word at `a` lies at `x`, its last byte. -/
structure Parts (n : ℕ) (a x : Word) : Prop where
  size : n = 4 ∨ n = 8
  last : x.toNat = a.toNat + (n - 1)

section

variable {n : ℕ} {a x : Word} {rdram : Bytes.Memory}

section

variable {b : ℕ}

theorem left_byte (h : Parts n a x) (hb : b < n) (hleft : n - 1 - x.toNat % n ≤ b) :
    x.toNat - x.toNat % n + (b - (n - 1 - x.toNat % n)) = a.toNat + b := by
  obtain ⟨hsize, hlast⟩ := h
  rcases hsize with rfl | rfl <;> omega

theorem right_byte : a.toNat - a.toNat % n + (b + a.toNat % n) = a.toNat + b := by
  have hle : a.toNat % n ≤ a.toNat := Nat.mod_le _ _
  omega

theorem left_or_right (h : Parts n a x) (hb : b < n) (hright : ¬b < n - a.toNat % n) : n - 1 - x.toNat % n ≤ b := by
  obtain ⟨hsize, hlast⟩ := h
  rcases hsize with rfl | rfl <;> omega

theorem right_or_left (h : Parts n a x) (hleft : ¬n - 1 - x.toNat % n ≤ b) : b < n - a.toNat % n := by
  obtain ⟨hsize, hlast⟩ := h
  rcases hsize with rfl | rfl <;> omega

end

end

/-! ### Stores -/

/-- The bytes of `v`, over the places that the word at `a` repeats at. -/
def target {w : ℕ} (a : Word) (v : BitVec w) : Bytes.Memory := fun q =>
  byte v ((q + 2 ^ 25 - a.toNat % 2 ^ 25) % 2 ^ 25)

/-- Some bytes of the word at `a`. -/
def places (a : Word) (S : Set ℕ) : Set ℕ := {q | ∃ i ∈ S, q = (a.toNat + i) % 2 ^ 25}

theorem target_place {w : ℕ} {a : Word} {v : BitVec w} {i : ℕ} (hi : i < 2 ^ 25) :
    target a v ((a.toNat + i) % 2 ^ 25) = byte v i := by
  have hplace : ((a.toNat + i) % 2 ^ 25 + 2 ^ 25 - a.toNat % 2 ^ 25) % 2 ^ 25 = i := by omega
  rw [target, hplace]

section

variable {n : ℕ} {a x : Word}

/-- A word that is merged around an address and written back. -/
def rewrite (n : ℕ) (x : Word) (merge : ℕ → BitVec (8 * n) → BitVec (8 * n) → BitVec (8 * n))
    (val : BitVec (8 * n)) (rdram : Bytes.Memory) : Bytes.Memory :=
  let old := BitVec.ofNat (8 * n) (Bytes.load (mainMemory rdram) (x.toNat - x.toNat % n) n)
  Bytes.store rdram ((x.toNat - x.toNat % n) % 2 ^ 25) (merge (x.toNat % n) val old).toNat n

section

variable {merge : ℕ → BitVec (8 * n) → BitVec (8 * n) → BitVec (8 * n)} {val : BitVec (8 * n)}
  (hn : n = 4 ∨ n = 8) (rdram : Bytes.Memory)

include hn

theorem rewrite_byte {b : ℕ} (hb : b < n) :
    rewrite n x merge val rdram ((x.toNat - x.toNat % n + b) % 2 ^ 25) =
      byte (merge (x.toNat % n) val
        (BitVec.ofNat (8 * n) (Bytes.load (mainMemory rdram) (x.toNat - x.toNat % n) n))) b := by
  have hplace : (x.toNat - x.toNat % n + b) % 2 ^ 25 = (x.toNat - x.toNat % n) % 2 ^ 25 + b := by
    rcases hn with rfl | rfl <;> omega
  rw [hplace, rewrite]
  exact store_byte hb

theorem rewrite_off {q : ℕ} (hq : ∀ b < n, q ≠ (x.toNat - x.toNat % n + b) % 2 ^ 25) :
    rewrite n x merge val rdram q = rdram q := by
  refine Bytes.store_off ?_
  by_contra hin
  have hb : q - (x.toNat - x.toNat % n) % 2 ^ 25 < n := by omega
  refine hq _ hb ?_
  rcases hn with rfl | rfl <;> omega

end

/-- **The left part writes its bytes of the word and no others.** -/
theorem rewrite_left (h : Parts n a x) (val : BitVec (8 * n)) :
    Bytes.Writes (rewrite n x storeLeft val) (places a {i | i < n ∧ n - 1 - x.toNat % n ≤ i}) (target a val) := by
  have hpos : x.toNat % n < n := Nat.mod_lt _ (by rcases h.size with rfl | rfl <;> decide)
  constructor
  · rintro rdram q ⟨i, ⟨hi, hleft⟩, rfl⟩
    have hbyte := left_byte h hi hleft
    have hsmall : i < 2 ^ 25 := by
      rcases h.size with rfl | rfl <;> omega
    rw [← hbyte, rewrite_byte h.size rdram (by omega),
      byte_storeLeft rfl hpos (by omega), if_pos (by omega), Nat.sub_add_cancel hleft, hbyte,
      target_place hsmall]
  · intro rdram q hq
    by_cases hin : ∃ b < n, q = (x.toNat - x.toNat % n + b) % 2 ^ 25
    · obtain ⟨b, hb, rfl⟩ := hin
      have hold : ¬b ≤ x.toNat % n := by
        intro hle
        refine hq ⟨b + (n - 1 - x.toNat % n), ⟨by omega, by omega⟩, ?_⟩
        rw [← left_byte h (by omega) (by omega), Nat.add_sub_cancel]
      rw [rewrite_byte h.size rdram hb, byte_storeLeft rfl hpos hb, if_neg hold,
        byte_ofNat_load hb (by omega), mainMemory]
    · exact rewrite_off h.size rdram fun b hb heq => hin ⟨b, hb, heq⟩

/-- **The right part writes its bytes of the word and no others.** -/
theorem rewrite_right (hn : n = 4 ∨ n = 8) (val : BitVec (8 * n)) :
    Bytes.Writes (rewrite n a storeRight val) (places a {i | i < n - a.toNat % n}) (target a val) := by
  constructor
  · rintro rdram q ⟨i, hi, rfl⟩
    have hi' : i < n - a.toNat % n := hi
    have hsmall : i < 2 ^ 25 := by
      rcases hn with rfl | rfl <;> omega
    rw [← right_byte (n := n), rewrite_byte hn rdram (by omega), byte_storeRight rfl (by omega),
      if_pos (by omega), Nat.add_sub_cancel, right_byte, target_place hsmall]
  · intro rdram q hq
    by_cases hin : ∃ b < n, q = (a.toNat - a.toNat % n + b) % 2 ^ 25
    · obtain ⟨b, hb, rfl⟩ := hin
      have hold : ¬a.toNat % n ≤ b := by
        intro hle
        refine hq ⟨b - a.toNat % n, ?_, ?_⟩
        · exact Nat.sub_lt_sub_right hle hb
        · rw [← right_byte (n := n), Nat.sub_add_cancel hle]
      rw [rewrite_byte hn rdram hb, byte_storeRight rfl hb, if_neg hold, byte_ofNat_load hb (by omega), mainMemory]
    · exact rewrite_off hn rdram fun b hb heq => hin ⟨b, hb, heq⟩

/-- The memory has the word `v` at `a` and is the same elsewhere. -/
structure Stored (n : ℕ) (a : Word) (v : BitVec (8 * n)) (rdram rdram' : Bytes.Memory) : Prop where
  on : ∀ i < n, mainMemory rdram' (a.toNat + i) = byte v i
  off : ∀ q, (∀ i < n, q ≠ (a.toNat + i) % 2 ^ 25) → rdram' q = rdram q

theorem stored_of_writes {f : Bytes.Memory → Bytes.Memory} {S : Set ℕ} {v : BitVec (8 * n)}
    (hn : n = 4 ∨ n = 8) (hf : Bytes.Writes f (places a S) (target a v)) (hS : ∀ i, i ∈ S ↔ i < n)
    (rdram : Bytes.Memory) : Stored n a v rdram (f rdram) := by
  constructor
  · intro i hi
    have hsmall : i < 2 ^ 25 := by
      rcases hn with rfl | rfl <;> omega
    rw [mainMemory, hf.on rdram _ ⟨i, (hS i).mpr hi, rfl⟩, target_place hsmall]
  · intro q hq
    refine hf.off rdram q ?_
    rintro ⟨i, hi, rfl⟩
    exact hq i ((hS i).mp hi) rfl

end

theorem places_union {a : Word} {S T : Set ℕ} : places a S ∪ places a T = places a (S ∪ T) := by
  ext q
  constructor
  · rintro (⟨i, hi, rfl⟩ | ⟨i, hi, rfl⟩)
    · exact ⟨i, .inl hi, rfl⟩
    · exact ⟨i, .inr hi, rfl⟩
  · rintro ⟨i, hi | hi, rfl⟩
    · exact .inl ⟨i, hi, rfl⟩
    · exact .inr ⟨i, hi, rfl⟩

section

variable {n : ℕ} {a x : Word}

theorem mem_parts (h : Parts n a x) (i : ℕ) :
    i ∈ ({i | i < n ∧ n - 1 - x.toNat % n ≤ i} ∪ {i | i < n - a.toNat % n} : Set ℕ) ↔ i < n := by
  constructor
  · rintro (hi | hi)
    · exact hi.1
    · have hi' : i < n - a.toNat % n := hi
      omega
  · intro hi
    by_cases hright : i < n - a.toNat % n
    · exact .inr hright
    · exact .inl ⟨hi, left_or_right h hi hright⟩

section

variable (h : Parts n a x) (val : BitVec (8 * n)) (rdram : Bytes.Memory)

include h

theorem stored_left_right : Stored n a val rdram (rewrite n a storeRight val (rewrite n x storeLeft val rdram)) := by
  have hboth := (rewrite_left h val).comp (rewrite_right h.size val)
  rw [places_union] at hboth
  exact stored_of_writes h.size hboth (mem_parts h) rdram

theorem stored_right_left : Stored n a val rdram (rewrite n x storeLeft val (rewrite n a storeRight val rdram)) := by
  have hboth := (rewrite_right h.size val).comp (rewrite_left h val)
  rw [places_union, Set.union_comm] at hboth
  exact stored_of_writes h.size hboth (mem_parts h) rdram

end

theorem Stored.word {v : BitVec (8 * n)} {rdram rdram' : Bytes.Memory} (h : Stored n a v rdram rdram') :
    word n rdram' a = v := by
  refine eq_of_bytes le_rfl fun b hb => ?_
  rw [Unaligned.word, byte_ofNat_load hb (by omega), h.on b hb]

end

/-! ### The statements -/

section

variable {D : Type} (d : Devices D) (outside : Instruction → MemoryAccessHint → Statement (Core D))
  (leaves : Instruction → Bool) {n : ℕ} {x : Word} {inst : Instruction} {c : Ctx (Excepting (Core D))}

section

variable (hn : n = 4 ∨ n = 8)

include hn

theorem load_aligned {A : Word} (hA : A = x &&& ~~~BitVec.ofNat 32 (n - 1))
    (hs : ps2IsSpecialAddress A = false) (s : Sys (Excepting (Core D))) :
    (Core.bus d outside leaves).load false (8 * n) A s =
      (BitVec.ofNat 128 (Bytes.load (mainMemory s.rest.mem.memory.rdram) (x.toNat - x.toNat % n) n), s) := by
  have hbytes : (Width.ofBits (8 * n)).bytes = n := by rcases hn with rfl | rfl <;> rfl
  rw [Core.load_fast hs, hbytes, hA, align_toNat hn]

theorem fastWrite_aligned (b : Bytes.Memory) (v : BitVec 128) :
    (Width.ofBits (8 * n)).fastWrite b (x &&& ~~~BitVec.ofNat 32 (n - 1)) (v.setWidth _) =
      Bytes.store b ((x.toNat - x.toNat % n) % 2 ^ 25) (v.setWidth (8 * n)).toNat n := by
  have halign := align_toNat hn x
  have hdvd : n ∣ (x &&& ~~~BitVec.ofNat 32 (n - 1)).toNat := by
    rw [halign]
    exact Nat.dvd_sub_mod _
  rw [← halign]
  rcases hn with rfl | rfl
  · exact ps2FastWrite_aligned (by decide) (by decide) hdvd _
  · exact ps2FastWrite_aligned (by decide) (by decide) hdvd _

theorem storePart_eq (hmmio : inst.isMmio = false)
    (hs : ps2IsSpecialAddress (baseAddress inst c &&& ~~~BitVec.ofNat 32 (n - 1)) = false)
    (merge : ℕ → BitVec (8 * n) → BitVec (8 * n) → BitVec (8 * n)) :
    storePart (Core.bus d outside leaves).accesses inst none (8 * n) merge c =
      c.setRdram (rewrite n (baseAddress inst c) merge ((c.gprU64 inst.rt).setWidth (8 * n)) c.rdram) := by
  have hlow : 8 * n / 8 - 1 = n - 1 := by omega
  have hsize : 8 * n ≤ 128 := by omega
  have hhint : (effectiveMemoryHintFor inst none).getD
      (baseAddress inst c &&& ~~~BitVec.ofNat 32 (n - 1)) = baseAddress inst c &&& ~~~BitVec.ofNat 32 (n - 1) := by
    rw [effectiveMemoryHintFor, hmmio]
    rfl
  have hread : (Core.bus d outside leaves).accesses.read inst none (8 * n)
      (baseAddress inst c &&& ~~~BitVec.ofNat 32 (n - 1)) c =
        (BitVec.ofNat 128 (Bytes.load (mainMemory c.rdram)
          ((baseAddress inst c).toNat - (baseAddress inst c).toNat % n) n), c) := by
    unfold Machine.read
    rw [hhint, hmmio]
    exact congrArg (fun p => (p.1, { c with sys := p.2 })) (load_aligned d outside leaves hn rfl hs c.sys)
  have hwrite : ∀ v : BitVec 128, (Core.bus d outside leaves).accesses.write inst none (8 * n)
      (baseAddress inst c &&& ~~~BitVec.ofNat 32 (n - 1)) v c =
        c.setRdram (Bytes.store c.rdram
          (((baseAddress inst c).toNat - (baseAddress inst c).toNat % n) % 2 ^ 25)
          (v.setWidth (8 * n)).toNat n) := by
    intro v
    unfold Machine.write
    rw [hhint, hmmio, ← fastWrite_aligned hn]
    exact Core.store_fast hs (8 * n) v c
  unfold storePart rewrite
  dsimp only
  rw [hlow, hread, hwrite, offset_toNat hn, BitVec.setWidth_ofNat_of_le hsize,
    BitVec.setWidth_setWidth_of_le _ hsize, BitVec.setWidth_eq]

theorem byte_mem {A : Word} (hA : A = x &&& ~~~BitVec.ofNat 32 (n - 1))
    (hs : ps2IsSpecialAddress A = false) (hmmio : inst.isMmio = false) :
    ∃ v : BitVec 128, (Core.bus d outside leaves).machine.read inst none (8 * n) A c = (v, c) ∧
      ∀ b < n, byte v b = mainMemory c.rdram (x.toNat - x.toNat % n + b) := by
  refine ⟨BitVec.ofNat 128 (Bytes.load (mainMemory c.rdram) (x.toNat - x.toNat % n) n), ?_, ?_⟩
  · have hhint : (effectiveMemoryHintFor inst none).getD A = A := by
      rw [effectiveMemoryHintFor, hmmio]
      rfl
    unfold Machine.read
    rw [hhint, hmmio]
    exact congrArg (fun p => (p.1, { c with sys := p.2 })) (load_aligned d outside leaves hn hA hs c.sys)
  · intro b hb
    exact byte_ofNat_load hb (by omega)

end

variable {a : Word} {v : BitVec 64} {mem : BitVec 128} {rdram : Bytes.Memory} {b : ℕ}

theorem byte_left (hn : n = 4 ∨ n = 8) (hin : ∀ b < n, byte mem b = mainMemory rdram (x.toNat - x.toNat % n + b))
    (hb : b < n) :
    byte (Machine.mergeLeft (8 * n) (x.toNat % n) v ((mem.setWidth (8 * n)).setWidth 64)) b =
      if n - 1 - x.toNat % n ≤ b then mainMemory rdram (x.toNat - x.toNat % n + (b - (n - 1 - x.toNat % n)))
      else byte v b := by
  have hpos : x.toNat % n < n := Nat.mod_lt _ (by omega)
  rw [byte_mergeLeft (by omega) hpos hb]
  split
  · rw [byte_setWidth (by omega), byte_setWidth (by omega), hin _ (by omega)]
  · rfl

theorem byte_right (hn : n = 4 ∨ n = 8) (hin : ∀ b < n, byte mem b = mainMemory rdram (a.toNat - a.toNat % n + b))
    (hb : b < n) :
    byte (Machine.mergeRight (8 * n) (a.toNat % n) v ((mem.setWidth (8 * n)).setWidth 64)) b =
      if b < n - a.toNat % n then mainMemory rdram (a.toNat + b) else byte v b := by
  have hpos : a.toNat % n < n := Nat.mod_lt _ (by omega)
  have hzero : ∀ j, n ≤ j → byte ((mem.setWidth (8 * n)).setWidth 64) j = 0 := by
    intro j hj
    by_cases hj8 : j < 8
    · rw [byte_setWidth (by omega), byte_above (by omega)]
    · exact byte_above (by omega)
  rw [byte_mergeRight (by omega) hpos hb _ _ hzero]
  split
  · rw [byte_setWidth (by omega), byte_setWidth (by omega), hin _ (by omega), right_byte]
  · rfl

theorem exec_lwl (hop : inst.opcode = .lwl) (hmmio : inst.isMmio = false)
    (hx : baseAddress inst c = x) (hs : ps2IsSpecialAddress (x &&& ~~~3) = false) :
    ∃ v : Word, (Core.bus d outside leaves).machine.exec inst none c = c.setGprS32 inst.rt v ∧
      ∀ b < 4, byte v b = if 3 - x.toNat % 4 ≤ b
        then mainMemory c.rdram (x.toNat - x.toNat % 4 + (b - (3 - x.toNat % 4)))
        else byte (c.gprU32 inst.rt) b := by
  obtain ⟨mem, hread, hin⟩ := byte_mem d outside leaves (x := x) (c := c) (.inl rfl) rfl hs hmmio
  have hoff : (x &&& 3).toNat = x.toNat % 4 := offset_toNat (.inl rfl) x
  refine ⟨(Machine.mergeLeft 32 (x.toNat % 4) ((c.gprU32 inst.rt).setWidth 64)
    ((mem.setWidth 32).setWidth 64)).setWidth 32, ?_, fun b hb => ?_⟩
  · unfold Machine.exec
    rw [hop]
    unfold Machine.execUnalignedLoad
    dsimp only
    rw [hop, hx, ← hoff]
    dsimp only
    have hread' : (Core.bus d outside leaves).machine.read inst none 32 (x &&& ~~~3) c = (mem, c) := hread
    rw [hread']
  · rw [byte_setWidth (by omega)]
    exact (byte_left (.inl rfl) hin hb).trans (by rw [byte_setWidth (by omega)])

theorem exec_lwr (hop : inst.opcode = .lwr) (hmmio : inst.isMmio = false)
    (ha : baseAddress inst c = a) (hs : ps2IsSpecialAddress (a &&& ~~~3) = false) :
    ∃ v : Word, (Core.bus d outside leaves).machine.exec inst none c =
        c.setGprU64 inst.rt (if a.toNat % 4 = 0 then v.signExtend 64
          else c.gprU64 inst.rt &&& 0xFFFFFFFF00000000 ||| v.setWidth 64) ∧
      ∀ b < 4, byte v b = if b < 4 - a.toNat % 4 then mainMemory c.rdram (a.toNat + b)
        else byte (c.gprU32 inst.rt) b := by
  obtain ⟨mem, hread, hin⟩ := byte_mem d outside leaves (x := a) (c := c) (.inl rfl) rfl hs hmmio
  have hoff : (a &&& 3).toNat = a.toNat % 4 := offset_toNat (.inl rfl) a
  refine ⟨(Machine.mergeRight 32 (a.toNat % 4) ((c.gprU32 inst.rt).setWidth 64)
    ((mem.setWidth 32).setWidth 64)).setWidth 32, ?_, fun b hb => ?_⟩
  · unfold Machine.exec
    rw [hop]
    unfold Machine.execUnalignedLoad
    dsimp only
    rw [hop, ha, ← hoff]
    dsimp only
    have hread' : (Core.bus d outside leaves).machine.read inst none 32 (a &&& ~~~3) c = (mem, c) := hread
    rw [hread']
  · rw [byte_setWidth (by omega)]
    exact (byte_right (.inl rfl) hin hb).trans (by rw [byte_setWidth (by omega)])

theorem exec_ldl (h : Parts 8 a x) (hop : inst.opcode = .ldl) (hmmio : inst.isMmio = false)
    (hx : baseAddress inst c = x) (hs : ps2IsSpecialAddress (x &&& ~~~7) = false) :
    ∃ v : BitVec 64, (Core.bus d outside leaves).machine.exec inst none c = c.setGprU64 inst.rt v ∧
      ∀ b < 8, byte v b = if 7 - x.toNat % 8 ≤ b then mainMemory c.rdram (a.toNat + b)
        else byte (c.gprU64 inst.rt) b := by
  obtain ⟨mem, hread, hin⟩ := byte_mem d outside leaves (x := x) (c := c) h.size rfl hs hmmio
  have hoff : (x &&& 7).toNat = x.toNat % 8 := offset_toNat h.size x
  refine ⟨Machine.mergeLeft 64 (x.toNat % 8) (c.gprU64 inst.rt) (mem.setWidth 64), ?_, fun b hb => ?_⟩
  · unfold Machine.exec
    rw [hop]
    unfold Machine.execUnalignedLoad
    dsimp only
    rw [hop, hx, ← hoff]
    dsimp only
    have hread' : (Core.bus d outside leaves).machine.read inst none 64 (x &&& ~~~7) c = (mem, c) := hread
    rw [hread']
  · have hmerge := byte_left (v := c.gprU64 inst.rt) h.size hin hb
    rw [BitVec.setWidth_eq] at hmerge
    refine hmerge.trans (ite_congr rfl (fun hleft => ?_) fun _ => rfl)
    rw [left_byte h hb hleft]

theorem exec_ldr (hop : inst.opcode = .ldr) (hmmio : inst.isMmio = false)
    (ha : baseAddress inst c = a) (hs : ps2IsSpecialAddress (a &&& ~~~7) = false) :
    ∃ v : BitVec 64, (Core.bus d outside leaves).machine.exec inst none c = c.setGprU64 inst.rt v ∧
      ∀ b < 8, byte v b = if b < 8 - a.toNat % 8 then mainMemory c.rdram (a.toNat + b)
        else byte (c.gprU64 inst.rt) b := by
  obtain ⟨mem, hread, hin⟩ := byte_mem d outside leaves (x := a) (c := c) (.inr rfl) rfl hs hmmio
  have hoff : (a &&& 7).toNat = a.toNat % 8 := offset_toNat (.inr rfl) a
  refine ⟨Machine.mergeRight 64 (a.toNat % 8) (c.gprU64 inst.rt) (mem.setWidth 64), ?_, fun b hb => ?_⟩
  · unfold Machine.exec
    rw [hop]
    unfold Machine.execUnalignedLoad
    dsimp only
    rw [hop, ha, ← hoff]
    dsimp only
    have hread' : (Core.bus d outside leaves).machine.read inst none 64 (a &&& ~~~7) c = (mem, c) := hread
    rw [hread']
  · have hmerge := byte_right (v := c.gprU64 inst.rt) (.inr rfl) hin hb
    rw [BitVec.setWidth_eq] at hmerge
    exact hmerge

/-- The stores of a part of a word of `n` bytes, with their merges. -/
inductive StoresPart : Opcode → (n : ℕ) → (ℕ → BitVec (8 * n) → BitVec (8 * n) → BitVec (8 * n)) → Prop
  | swl : StoresPart .swl 4 storeLeft
  | swr : StoresPart .swr 4 storeRight
  | sdl : StoresPart .sdl 8 storeLeft
  | sdr : StoresPart .sdr 8 storeRight

section

variable {op : Opcode} {merge : ℕ → BitVec (8 * n) → BitVec (8 * n) → BitVec (8 * n)}
  (h : StoresPart op n merge)

include h

theorem StoresPart.size : n = 4 ∨ n = 8 := by
  cases h
  all_goals decide

theorem exec_storePart (hop : inst.opcode = op) (hmmio : inst.isMmio = false)
    (hx : baseAddress inst c = x) (hs : ps2IsSpecialAddress (x &&& ~~~BitVec.ofNat 32 (n - 1)) = false) :
    (Core.bus d outside leaves).machine.exec inst none c =
      c.setRdram (rewrite n x merge ((c.gprU64 inst.rt).setWidth (8 * n)) c.rdram) := by
  subst hx
  rw [← storePart_eq d outside leaves h.size hmmio hs merge]
  unfold Machine.exec
  cases h
  all_goals
    rw [hop]
    unfold Bus.machine guarded
    dsimp only
    rw [hop]
    rfl

end

end

/-! ### Pairs -/

/-- `inst` is the instruction `op` on `rt`, and its address is `x` when it runs. -/
structure At {ρ : Type} (inst : Instruction) (op : Opcode) (rt : Reg) (x : Word) (c : Ctx ρ) : Prop where
  opcode : inst.opcode = op
  rt : inst.rt = rt
  mmio : inst.isMmio = false
  address : baseAddress inst c = x

/-- The last byte of the word of `n` bytes at `a`. -/
def lastByte (n : ℕ) (a : Word) : Word := a + BitVec.ofNat 32 (n - 1)

/-- `i` and then `j` are the left part at the last byte of the word at `a` and the right part at `a`,
in either order. -/
def Pair {ρ : Type} (m : Machine ρ) (left right : Opcode) (n : ℕ) (rt : Reg) (a : Word)
    (i j : Instruction) (c : Ctx ρ) : Prop :=
  At i left rt (lastByte n a) c ∧ At j right rt a (m.exec i none c) ∨
    At i right rt a c ∧ At j left rt (lastByte n a) (m.exec i none c)

/-- What a pair does. -/
def runPair {ρ : Type} (m : Machine ρ) (i j : Instruction) (c : Ctx ρ) : Ctx ρ :=
  m.exec j none (m.exec i none c)

/-- The word of `n` bytes at `a` lies in main memory. -/
structure InMain (n : ℕ) (a : Word) : Prop where
  right : ps2IsSpecialAddress (a &&& ~~~BitVec.ofNat 32 (n - 1)) = false
  left : ps2IsSpecialAddress (lastByte n a &&& ~~~BitVec.ofNat 32 (n - 1)) = false

theorem InMain.parts {n : ℕ} {a : Word} (hn : n = 4 ∨ n = 8) (h : InMain n a) : Parts n a (lastByte n a) := by
  have hlow := lt_of_align hn a h.right
  refine ⟨hn, ?_⟩
  rw [lastByte, BitVec.toNat_add, BitVec.toNat_ofNat]
  rcases hn with rfl | rfl <;> omega

section

variable {D : Type}

section

variable (c : Ctx (Excepting (Core D)))

@[simp] theorem setGprU64_rdram (reg : Reg) (v : BitVec 64) : (c.setGprU64 reg v).rdram = c.rdram := by
  unfold Ctx.setGprU64
  split
  · rfl
  · rfl

theorem gprU64_setRdram (m : Bytes.Memory) (reg : Reg) : (c.setRdram m).gprU64 reg = c.gprU64 reg := rfl

end

end

theorem msb_of_byte {u v : Word} (h : byte u 3 = byte v 3) : u.msb = v.msb := by
  have hbit : ∀ x : Word, x.msb = (byte x 3).getLsbD 7 := by
    intro x
    rw [BitVec.msb_eq_getLsbD_last, getLsbD_byte (by decide)]
  rw [hbit, hbit, h]

/-- The upper half of a register keeps the sign of a word when the lower half gets one with that
sign. -/
theorem keep_sign {u v : Word} (h : u.msb = v.msb) :
    u.signExtend 64 &&& 0xFFFFFFFF00000000 ||| v.setWidth 64 = v.signExtend 64 := by
  have hmask : (0xFFFFFFFF00000000 : BitVec 64) = BitVec.allOnes 64 <<< 32 := by decide
  refine BitVec.eq_of_getLsbD_eq fun i hi => ?_
  rw [BitVec.getLsbD_or, BitVec.getLsbD_and, hmask, BitVec.getLsbD_shiftLeft, BitVec.getLsbD_allOnes,
    BitVec.getLsbD_signExtend, BitVec.getLsbD_signExtend, BitVec.getLsbD_setWidth, h]
  by_cases hlow : i < 32
  · simp [hlow, hi]
  · have hlt : i - 32 < 64 := by omega
    have hout : v.getLsbD i = false := BitVec.getLsbD_of_ge v i (by omega)
    simp [hlow, hi, hlt, hout]

theorem low_of_kept (u : BitVec 64) (v : Word) : (u &&& 0xFFFFFFFF00000000 ||| v.setWidth 64).setWidth 32 = v := by
  have hmask : (0xFFFFFFFF00000000 : BitVec 64) = BitVec.allOnes 64 <<< 32 := by decide
  refine BitVec.eq_of_getLsbD_eq fun i hi => ?_
  rw [BitVec.getLsbD_setWidth, BitVec.getLsbD_or, BitVec.getLsbD_and, hmask,
    BitVec.getLsbD_shiftLeft, BitVec.getLsbD_setWidth]
  have hlt : i < 64 := by omega
  simp [hi, hlt]

section

variable {D : Type} {d : Devices D} {outside : Instruction → MemoryAccessHint → Statement (Core D)}
  {leaves : Instruction → Bool} {a : Word} {rt : Reg} {i j : Instruction}
  {c : Ctx (Excepting (Core D))}

/-- `LWL` and `LWR` leave the word at `a` with its sign. -/
theorem load_word (hrt : rt ≠ 0) (hmain : InMain 4 a)
    (hpair : Pair (Core.bus d outside leaves).machine .lwl .lwr 4 rt a i j c) :
    (runPair (Core.bus d outside leaves).machine i j c).gprU64 rt = (word 4 c.rdram a).signExtend 64 := by
  have hparts := hmain.parts (.inl rfl)
  have hword : ∀ v : Word, (∀ b < 4, byte v b = mainMemory c.rdram (a.toNat + b)) → v = word 4 c.rdram a := by
    intro v hv
    refine eq_of_bytes (n := 4) le_rfl fun b hb => ?_
    rw [hv b hb]
    exact (byte_ofNat_load hb (by omega)).symm
  unfold runPair
  rcases hpair with ⟨hi, hj⟩ | ⟨hi, hj⟩
  · -- the left part leaves the sign of the word, which the right part keeps
    obtain ⟨u, hu, hubytes⟩ := exec_lwl d outside leaves hi.opcode hi.mmio hi.address hmain.left
    rw [hu, hi.rt] at hj ⊢
    obtain ⟨v, hv, hvbytes⟩ := exec_lwr d outside leaves hj.opcode hj.mmio hj.address hmain.right
    have hmem : (c.setGprS32 rt u).rdram = c.rdram := setGprU64_rdram c rt _
    have hlow : (c.setGprS32 rt u).gprU32 rt = u := by
      rw [Ctx.gprU32_setGprS32, if_pos ⟨rfl, hrt⟩]
    have hfull : (c.setGprS32 rt u).gprU64 rt = u.signExtend 64 := by
      rw [Ctx.setGprS32, Ctx.gprU64_setGprU64, if_pos ⟨rfl, hrt⟩]
    rw [hj.rt, hmem, hlow] at hvbytes
    have hbytes : ∀ b < 4, byte v b = mainMemory c.rdram (a.toNat + b) := by
      intro b hb
      rw [hvbytes b hb]
      split
      · rfl
      · rename_i hright
        have hleft := left_or_right hparts hb hright
        rw [hubytes b hb, if_pos hleft]
        exact congrArg _ (left_byte hparts hb hleft)
    have hsign : u.msb = v.msb := by
      apply msb_of_byte
      rw [hubytes 3 (by decide), if_pos (Nat.sub_le _ _), hbytes 3 (by decide)]
      exact congrArg _ (left_byte hparts (by decide) (Nat.sub_le _ _))
    rw [hv, hj.rt, Ctx.gprU64_setGprU64, if_pos ⟨rfl, hrt⟩, hfull, keep_sign hsign, ite_self, hword v hbytes]
  · obtain ⟨u, hu, hubytes⟩ := exec_lwr d outside leaves hi.opcode hi.mmio hi.address hmain.right
    rw [hu, hi.rt] at hj ⊢
    rw [hi.rt] at hubytes
    obtain ⟨v, hv, hvbytes⟩ := exec_lwl d outside leaves hj.opcode hj.mmio hj.address hmain.left
    have hlow : (c.setGprU64 rt (if a.toNat % 4 = 0 then u.signExtend 64
        else c.gprU64 rt &&& 0xFFFFFFFF00000000 ||| u.setWidth 64)).gprU32 rt = u := by
      rw [Ctx.gprU32_setGprU64, if_pos ⟨rfl, hrt⟩]
      split
      · exact SignExtend.low (by decide) u
      · exact low_of_kept _ u
    rw [hj.rt, setGprU64_rdram, hlow] at hvbytes
    have hbytes : ∀ b < 4, byte v b = mainMemory c.rdram (a.toNat + b) := by
      intro b hb
      rw [hvbytes b hb]
      split
      · rename_i hleft
        exact congrArg _ (left_byte hparts hb hleft)
      · rename_i hleft
        rw [hubytes b hb, if_pos (right_or_left hparts hleft)]
    rw [hv, hj.rt, Ctx.setGprS32, Ctx.gprU64_setGprU64, if_pos ⟨rfl, hrt⟩, hword v hbytes]

theorem load_doubleword (hrt : rt ≠ 0) (hmain : InMain 8 a)
    (hpair : Pair (Core.bus d outside leaves).machine .ldl .ldr 8 rt a i j c) :
    (runPair (Core.bus d outside leaves).machine i j c).gprU64 rt = word 8 c.rdram a := by
  have hparts := hmain.parts (.inr rfl)
  have hword : ∀ v : BitVec 64, (∀ b < 8, byte v b = mainMemory c.rdram (a.toNat + b)) → v = word 8 c.rdram a := by
    intro v hv
    refine eq_of_bytes (n := 8) le_rfl fun b hb => ?_
    rw [hv b hb]
    exact (byte_ofNat_load hb (by omega)).symm
  have hset : ∀ v : BitVec 64, (c.setGprU64 rt v).gprU64 rt = v := by
    intro v
    rw [Ctx.gprU64_setGprU64, if_pos ⟨rfl, hrt⟩]
  unfold runPair
  rcases hpair with ⟨hi, hj⟩ | ⟨hi, hj⟩
  · obtain ⟨u, hu, hubytes⟩ := exec_ldl d outside leaves hparts hi.opcode hi.mmio hi.address hmain.left
    rw [hu, hi.rt] at hj ⊢
    obtain ⟨v, hv, hvbytes⟩ := exec_ldr d outside leaves hj.opcode hj.mmio hj.address hmain.right
    rw [hj.rt, setGprU64_rdram, hset] at hvbytes
    rw [hv, hj.rt, Ctx.gprU64_setGprU64, if_pos ⟨rfl, hrt⟩]
    refine hword v fun b hb => ?_
    rw [hvbytes b hb]
    split
    · rfl
    · rename_i hright
      rw [hubytes b hb, if_pos (left_or_right hparts hb hright)]
  · obtain ⟨u, hu, hubytes⟩ := exec_ldr d outside leaves hi.opcode hi.mmio hi.address hmain.right
    rw [hu, hi.rt] at hj ⊢
    obtain ⟨v, hv, hvbytes⟩ := exec_ldl d outside leaves hparts hj.opcode hj.mmio hj.address hmain.left
    rw [hj.rt, setGprU64_rdram, hset] at hvbytes
    rw [hv, hj.rt, Ctx.gprU64_setGprU64, if_pos ⟨rfl, hrt⟩]
    refine hword v fun b hb => ?_
    rw [hvbytes b hb]
    split
    · rfl
    · rename_i hleft
      rw [hubytes b hb, if_pos (right_or_left hparts hleft)]

/-- The stores of the two parts store the word of the register at `a`. -/
theorem store_pair {left right : Opcode} {n : ℕ} (hl : StoresPart left n storeLeft) (hr : StoresPart right n storeRight)
    (hmain : InMain n a) (hpair : Pair (Core.bus d outside leaves).machine left right n rt a i j c) :
    Stored n a ((c.gprU64 rt).setWidth (8 * n)) c.rdram (runPair (Core.bus d outside leaves).machine i j c).rdram := by
  have hparts := hmain.parts hl.size
  unfold runPair
  rcases hpair with ⟨hi, hj⟩ | ⟨hi, hj⟩
  · rw [exec_storePart d outside leaves hl hi.opcode hi.mmio hi.address hmain.left, hi.rt] at hj ⊢
    rw [exec_storePart d outside leaves hr hj.opcode hj.mmio hj.address hmain.right, hj.rt, gprU64_setRdram]
    exact stored_left_right hparts _ c.rdram
  · rw [exec_storePart d outside leaves hr hi.opcode hi.mmio hi.address hmain.right, hi.rt] at hj ⊢
    rw [exec_storePart d outside leaves hl hj.opcode hj.mmio hj.address hmain.left, hj.rt, gprU64_setRdram]
    exact stored_right_left hparts _ c.rdram

theorem store_word (hmain : InMain 4 a) (hpair : Pair (Core.bus d outside leaves).machine .swl .swr 4 rt a i j c) :
    Stored 4 a (c.gprU32 rt) c.rdram (runPair (Core.bus d outside leaves).machine i j c).rdram := by
  rw [Ctx.gprU32_eq]
  exact store_pair .swl .swr hmain hpair

theorem store_doubleword (hmain : InMain 8 a)
    (hpair : Pair (Core.bus d outside leaves).machine .sdl .sdr 8 rt a i j c) :
    Stored 8 a (c.gprU64 rt) c.rdram (runPair (Core.bus d outside leaves).machine i j c).rdram := by
  have hstored := store_pair .sdl .sdr hmain hpair
  rw [BitVec.setWidth_eq] at hstored
  exact hstored

end

/-- What the pairs do to the word at `a`, in either order. -/
structure Exact {D : Type} (m : Machine (Excepting (Core D))) (a : Word)
    (c : Ctx (Excepting (Core D))) : Prop where
  loadWord : InMain 4 a → ∀ rt, rt ≠ 0 → ∀ i j, Pair m .lwl .lwr 4 rt a i j c →
    (runPair m i j c).gprU64 rt = (word 4 c.rdram a).signExtend 64
  loadDoubleword : InMain 8 a → ∀ rt, rt ≠ 0 → ∀ i j, Pair m .ldl .ldr 8 rt a i j c →
    (runPair m i j c).gprU64 rt = word 8 c.rdram a
  storeWord : InMain 4 a → ∀ rt i j, Pair m .swl .swr 4 rt a i j c →
    Stored 4 a (c.gprU32 rt) c.rdram (runPair m i j c).rdram
  storeDoubleword : InMain 8 a → ∀ rt i j, Pair m .sdl .sdr 8 rt a i j c →
    Stored 8 a (c.gprU64 rt) c.rdram (runPair m i j c).rdram
  wordBack : InMain 4 a → ∀ rt i j, Pair m .swl .swr 4 rt a i j c → ∀ rt', rt' ≠ 0 → ∀ i' j',
    Pair m .lwl .lwr 4 rt' a i' j' (runPair m i j c) →
    (runPair m i' j' (runPair m i j c)).gprU64 rt' = (c.gprU32 rt).signExtend 64
  doublewordBack : InMain 8 a → ∀ rt i j, Pair m .sdl .sdr 8 rt a i j c → ∀ rt', rt' ≠ 0 → ∀ i' j',
    Pair m .ldl .ldr 8 rt' a i' j' (runPair m i j c) →
    (runPair m i' j' (runPair m i j c)).gprU64 rt' = c.gprU64 rt

/-- **The pairs load and store unaligned words**, at every address of main memory, around its end
too, in either order and with every register. -/
theorem unaligned_pairs_exact {D : Type} (d : Devices D)
    (outside : Instruction → MemoryAccessHint → Statement (Core D)) (leaves : Instruction → Bool)
    (a : Word) (c : Ctx (Excepting (Core D))) : Exact (Core.bus d outside leaves).machine a c where
  loadWord hmain rt hrt i j hpair := load_word hrt hmain hpair
  loadDoubleword hmain rt hrt i j hpair := load_doubleword hrt hmain hpair
  storeWord hmain rt i j hpair := store_word hmain hpair
  storeDoubleword hmain rt i j hpair := store_doubleword hmain hpair
  wordBack hmain rt i j hpair rt' hrt' i' j' hpair' := by
    rw [load_word hrt' hmain hpair', (store_word hmain hpair).word]
  doublewordBack hmain rt i j hpair rt' hrt' i' j' hpair' := by
    rw [load_doubleword hrt' hmain hpair', (store_doubleword hmain hpair).word]

/-- `op rt, offset($zero)`. -/
def part (op : Opcode) (rt : Reg) (offset : Word) : Instruction :=
  { opcode := op, rt := rt, simmediate := offset }

/-- **Nothing is loaded into `$zero`, and nothing is stored at the addresses of the BIOS.** -/
theorem parts_elsewhere :
    (¬∀ (a : Word) (c : Ctx (Excepting (Core Unit))) (rt : Reg) (i j : Instruction),
      Pair (Core.bus Memory.quiet (fun _ _ c => c) fun _ => false).machine .lwl .lwr 4 rt a i j c →
      (runPair (Core.bus Memory.quiet (fun _ _ c => c) fun _ => false).machine i j c).gprU64 rt =
        (word 4 c.rdram a).signExtend 64) ∧
    ¬∀ (a : Word) (c : Ctx (Excepting (Core Unit))) (rt : Reg) (i j : Instruction),
      Pair (Core.bus Memory.quiet (fun _ _ c => c) fun _ => false).machine .swl .swr 4 rt a i j c →
      Stored 4 a (c.gprU32 rt) c.rdram
        (runPair (Core.bus Memory.quiet (fun _ _ c => c) fun _ => false).machine i j c).rdram := by
  constructor
  · intro h
    have hpair : Pair (Core.bus Memory.quiet (fun _ _ c => c) fun _ => false).machine .lwl .lwr 4 0 0x201
        (part .lwl 0 0x204) (part .lwr 0 0x201) Loads.signed :=
      .inl ⟨⟨rfl, rfl, rfl, rfl⟩, ⟨rfl, rfl, rfl, rfl⟩⟩
    have hload := h 0x201 Loads.signed 0 _ _ hpair
    exact absurd hload (by decide +kernel)
  · intro h
    have hpair : Pair (Core.bus Memory.quiet (fun _ _ c => c) fun _ => false).machine .swl .swr 4 0
        0x1FC00001 (part .swl 0 0x1FC00004) (part .swr 0 0x1FC00001) Loads.signed :=
      .inl ⟨⟨rfl, rfl, rfl, rfl⟩, ⟨rfl, rfl, rfl, rfl⟩⟩
    have hstore := (h 0x1FC00001 Loads.signed 0 _ _ hpair).on 0 (by decide)
    exact absurd hstore (by decide +kernel)

end Ps2Recomp.Unaligned
