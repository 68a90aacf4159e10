import Ps2Recomp.Lib.Words
import Ps2Recomp.Spec.Memory

/-!
# The fast path and `PS2Memory`

Where main memory is behind an address, the fast path and `PS2Memory` read and write the same bytes
(`fast_path_agrees`). The classifier of the fast path knows the devices (`device_special`), but for
the code of the first vector unit and the data of the second.
-/

namespace Ps2Recomp.Memory

variable {D α β : Type} {d : Devices D} {m m' : Ps2Memory D} {tlb : List TlbEntry} {w : Width}
  {a off phys : Word} {v : Vu} {t : Target}

/-! ### Addresses as numbers -/

theorem inRange_iff (x base size : Word) (h : base.toNat + size.toNat ≤ 2 ^ 32) :
    ps2AddressInRange x base size = true ↔ base.toNat ≤ x.toNat ∧ x.toNat < base.toNat + size.toNat := by
  have hx := x.isLt
  rw [ps2AddressInRange, decide_eq_true_iff, BitVec.lt_def]
  by_cases hle : base.toNat ≤ x.toNat
  · rw [BitVec.toNat_sub_of_le (BitVec.le_def.2 hle)]
    omega
  · rw [BitVec.toNat_sub_of_lt (BitVec.lt_def.2 (by omega))]
    omega

theorem and_low {mask : Word} {k : ℕ} (hm : mask.toNat = 2 ^ k - 1) (a : Word) :
    (a &&& mask).toNat = a.toNat % 2 ^ k := by
  rw [BitVec.toNat_and, hm, Nat.and_two_pow_sub_one_eq_mod]

theorem and_ramMask (a : Word) : (a &&& ramMask).toNat = a.toNat % 2 ^ 25 := and_low rfl a

theorem directMapped (a : Word) : (ps2DirectMappedPhysicalAddress a).toNat = a.toNat % 2 ^ 29 :=
  and_low rfl a

theorem isIoRegister_iff : isIoRegister a = true ↔ 0x10000000 ≤ a.toNat ∧ a.toNat < 0x10010000 :=
  inRange_iff a ioBase ioSize (by decide)

theorem isGsPrivReg_iff : isGsPrivReg a = true ↔ 0x12000000 ≤ a.toNat ∧ a.toNat < 0x12002000 :=
  inRange_iff a gsPrivRegBase gsPrivRegSize (by decide)

theorem mirror_iff : ps2IsUncachedRamMirrorAddress a = true ↔ 0x20000000 ≤ a.toNat ∧ a.toNat < 0x40000000 :=
  inRange_iff a 0x20000000 0x20000000 (by decide)

theorem kseg01_iff : ps2IsKseg01Address a = true ↔ 0x80000000 ≤ a.toNat ∧ a.toNat < 0xC0000000 :=
  inRange_iff a 0x80000000 0x40000000 (by decide)

theorem isScratchpad_iff : isScratchpad a = true ↔
    0x70000000 ≤ a.toNat ∧ a.toNat < 0x70004000 ∨ 0xF0000000 ≤ a.toNat ∧ a.toNat < 0xF0004000 := by
  have ha := a.isLt
  have hbase : scratchpadBase.toNat = 0x70000000 := rfl
  have hend : (scratchpadBase + scratchpadSize).toNat = 0x70004000 := rfl
  have hlow : (a &&& 0x7FFFFFFF).toNat = a.toNat % 2 ^ 31 := and_low rfl a
  have htop : a &&& 0x80000000 ≠ 0 ↔ 2 ^ 31 ≤ a.toNat := by
    have hsplit := Masks.and_add_and_not (x := a) 0x7FFFFFFF
    have hnot : (~~~0x7FFFFFFF : Word) = 0x80000000 := rfl
    rw [hnot, hlow] at hsplit
    have hzero : a &&& 0x80000000 = 0 ↔ (a &&& 0x80000000).toNat = 0 := BitVec.toNat_inj.symm
    rw [ne_eq, hzero]
    omega
  rw [isScratchpad]
  split
  · next hin =>
    rw [BitVec.le_def, BitVec.lt_def, hbase, hend] at hin
    exact iff_of_true rfl (.inl hin)
  · next hin =>
    rw [BitVec.le_def, BitVec.lt_def, hbase, hend] at hin
    split
    · next h =>
      rw [htop] at h
      rw [Bool.and_eq_true, decide_eq_true_iff, decide_eq_true_iff, BitVec.le_def, BitVec.lt_def, hbase, hend, hlow]
      omega
    · next h =>
      rw [htop] at h
      simp only [Bool.false_eq_true, false_iff]
      omega

theorem scratchpadOffset_lt (h : isScratchpad a = true) : (ps2ScratchpadOffset a).toNat < scratchpadSize.toNat := by
  have hbase : scratchpadBase.toNat = 0x70000000 := rfl
  have hend : (scratchpadBase + scratchpadSize).toNat = 0x70004000 := rfl
  have hsize : scratchpadSize.toNat = 0x4000 := rfl
  have hlow : (a &&& 0x7FFFFFFF).toNat = a.toNat % 2 ^ 31 := and_low rfl a
  have hin := isScratchpad_iff.1 h
  rw [ps2ScratchpadOffset]
  split
  next hle =>
    rw [BitVec.le_def, BitVec.lt_def, hbase, hend] at hle
    have hge : scratchpadBase ≤ a := by
      rw [BitVec.le_def, hbase]
      exact hle.1
    rw [BitVec.toNat_sub_of_le hge]
    omega
  next hnot =>
    rw [BitVec.le_def, BitVec.lt_def, hbase, hend] at hnot
    have hle : scratchpadBase ≤ a &&& 0x7FFFFFFF := by
      rw [BitVec.le_def, hbase, hlow]
      omega
    rw [BitVec.toNat_sub_of_le hle]
    omega

/-- The physical address of an address below `KSEG2`, as the classifier sees it. -/
def physical (n : ℕ) : ℕ := if 0x80000000 ≤ n then n % 2 ^ 29 else n

/-- **The classifier.** The range of the vector units goes from the data of the first to the code of
the second. -/
theorem special_iff : ps2IsSpecialAddress a = true ↔
    0xC0000000 ≤ a.toNat ∨
    0x1FC00000 ≤ physical a.toNat ∧ physical a.toNat < 0x20000000 ∨
    0x70000000 ≤ physical a.toNat ∧ physical a.toNat < 0x70004000 ∨
    0x10000000 ≤ physical a.toNat ∧ physical a.toNat < 0x10010000 ∨
    0x12000000 ≤ physical a.toNat ∧ physical a.toNat < 0x12002000 ∨
    0x11004000 ≤ physical a.toNat ∧ physical a.toNat < 0x1100C000 := by
  have hphys : (ps2PhysicalAddress a).toNat = physical a.toNat := by
    rw [ps2PhysicalAddress, physical]
    split
    · next h =>
      have h' : 0x80000000 ≤ a.toNat := BitVec.le_def.1 h
      rw [directMapped, if_pos h']
    · next h =>
      have h' : ¬0x80000000 ≤ a.toNat := fun h' => h (BitVec.le_def.2 h')
      rw [if_neg h']
  rw [ps2IsSpecialAddress]
  split
  · next h =>
    rw [ps2IsKseg23Address, decide_eq_true_iff, BitVec.le_def] at h
    exact iff_of_true rfl (.inl h)
  · next h =>
    rw [ps2IsKseg23Address, decide_eq_true_iff, BitVec.le_def] at h
    have hlow : ¬0xC0000000 ≤ a.toNat := h
    have hvu : (vu1CodeBase + vu1CodeSize).toNat = 0x1100C000 := rfl
    have hvu0 : vu0DataBase.toNat = 0x11004000 := rfl
    rw [ps2IsPhysicalSpecialAddress, Bool.or_eq_true, Bool.or_eq_true, Bool.or_eq_true, Bool.or_eq_true,
      inRange_iff _ biosBase biosSize (by decide), inRange_iff _ scratchpadBase scratchpadSize (by decide),
      inRange_iff _ ioBase ioSize (by decide), inRange_iff _ gsPrivRegBase gsPrivRegSize (by decide),
      Bool.and_eq_true, decide_eq_true_iff, decide_eq_true_iff, BitVec.le_def, BitVec.lt_def, hphys, hvu,
      hvu0, or_iff_right hlow, or_assoc, or_assoc, or_assoc]
    exact Iff.rfl

/-! ### Translation -/

/-- The physical address of an address below `KSEG2`, as `PS2Memory` sees it. -/
def translated (n : ℕ) : ℕ :=
  if 0x20000000 ≤ n ∧ n < 0x40000000 then n % 2 ^ 25
  else if 0x80000000 ≤ n then n % 2 ^ 29
  else n

theorem translate_low (tlb : List TlbEntry) (hs : isScratchpad a = false) (hlow : a.toNat < 0xC0000000) :
    ∃ p, translateAddress tlb a = .ok p ∧ p.toNat = translated a.toNat := by
  have htop : (0x80000000 : Word).toNat = 0x80000000 := rfl
  have hkseg : ps2IsKseg23Address a = false := by
    rw [ps2IsKseg23Address, decide_eq_false_iff_not, BitVec.le_def]
    exact not_le.2 hlow
  rw [translateAddress, hs, if_neg (by simp), translated]
  split
  · next h => exact ⟨_, rfl, by rw [if_pos (mirror_iff.1 h), and_ramMask]⟩
  · next h =>
    rw [mirror_iff] at h
    rw [if_neg h]
    split
    · next h' => exact ⟨_, rfl, by rw [if_pos (kseg01_iff.1 h').1, directMapped]⟩
    · next h' =>
      rw [kseg01_iff] at h'
      refine ⟨a, ?_, by rw [if_neg (by omega)]⟩
      rw [if_pos (BitVec.lt_def.2 (by omega))]

variable {n : Word}

theorem mapVu_some (h : mapVuMemory phys n = some (v, off)) :
    v.base.toNat ≤ phys.toNat ∧ phys.toNat < v.base.toNat + v.size.toNat := by
  obtain ⟨u, -, hu⟩ := List.exists_of_findSome?_eq_some h
  obtain ⟨o, ho, heq⟩ := Option.map_eq_some_iff.1 hu
  obtain ⟨rfl, rfl⟩ := Prod.mk.inj heq
  rw [Vu.mapRange] at ho
  split at ho
  · cases ho
  · next hge =>
    have hge' := BitVec.not_lt.1 hge
    simp only at ho
    split at ho
    · cases ho
    · next hlt =>
      rw [not_or, BitVec.le_def, BitVec.toNat_sub_of_le hge'] at hlt
      rw [BitVec.le_def] at hge'
      omega

/-- **What an address leads to.** -/
theorem locate_cases {place : Place} (h : locate tlb a n = .ok place) :
    ∃ p, translateAddress tlb a = .ok p ∧
      (isScratchpad a = true ∧ place = .memory .scratchpad p ∨
        isScratchpad a = false ∧ p.toNat < 2 ^ 25 ∧ place = .memory .rdram p ∨
        isScratchpad a = false ∧ (∃ v off, place = .memory (.vu v) off ∧
          v.base.toNat ≤ p.toNat ∧ p.toNat < v.base.toNat + v.size.toNat) ∨
        isScratchpad a = false ∧ 2 ^ 25 ≤ p.toNat ∧ mapVuMemory p n = none ∧ place = .other p) := by
  have hram : ramSize.toNat = 2 ^ 25 := rfl
  unfold locate at h
  cases hp : translateAddress tlb a with
  | error e =>
    rw [hp] at h
    cases h
  | ok p =>
    rw [hp] at h
    refine ⟨p, rfl, ?_⟩
    cases hs : isScratchpad a with
    | true =>
      rw [hs] at h
      cases h
      exact .inl ⟨rfl, rfl⟩
    | false =>
      rw [hs] at h
      by_cases hlt : p < ramSize
      · simp only [bind, Except.bind, Bool.false_eq_true, if_false, if_pos hlt] at h
        cases h
        exact .inr (.inl ⟨rfl, by rwa [BitVec.lt_def, hram] at hlt, rfl⟩)
      · simp only [bind, Except.bind, Bool.false_eq_true, if_false, if_neg hlt] at h
        rw [BitVec.lt_def, hram, not_lt] at hlt
        cases hv : mapVuMemory p n with
        | some r =>
          rw [hv] at h
          cases h
          exact .inr (.inr (.inl ⟨rfl, _, _, rfl, mapVu_some hv⟩))
        | none =>
          rw [hv] at h
          cases h
          exact .inr (.inr (.inr ⟨rfl, hlt, rfl, rfl⟩))

/-! ### The devices -/

/-- Neither main memory nor nothing. -/
def Target.isDevice : Target → Bool
  | .memory .rdram _ => false
  | .nothing => false
  | _ => true

/-- The code of the first vector unit and the data of the second. -/
def Target.isOuterVu : Target → Bool
  | .memory (.vu .vu0Code) _ => true
  | .memory (.vu .vu1Data) _ => true
  | _ => false

theorem target_cases (h : target tlb w a = .ok t) :
    (isGsPrivReg a = true ∧ (w = .w32 ∨ w = .w64) ∧ t = .gs) ∨
      ¬((w = .w32 ∨ w = .w64) ∧ isGsPrivReg a = true) ∧
      ((∃ r off, locate tlb a (.ofNat 32 w.bytes) = .ok (.memory r off) ∧ t = .memory r off) ∨
        ∃ p, locate tlb a (.ofNat 32 w.bytes) = .ok (.other p) ∧ t = if isIoRegister p then .io else .nothing) := by
  rw [target] at h
  split at h
  · next hgs =>
    cases h
    exact .inl ⟨hgs.2, hgs.1, rfl⟩
  · next hgs =>
    refine .inr ⟨hgs, ?_⟩
    cases hl : locate tlb a (.ofNat 32 w.bytes) with
    | error e =>
      rw [hl] at h
      cases h
    | ok place =>
      rw [hl] at h
      cases place with
      | memory r off =>
        cases h
        exact .inl ⟨r, off, rfl, rfl⟩
      | other p =>
        cases h
        exact .inr ⟨p, rfl, rfl⟩

/-- **The devices are special**, but for two memories of the vector units. -/
theorem device_special (h : target tlb w a = .ok t) (hdev : t.isDevice = true)
    (houter : t.isOuterVu = false) : ps2IsSpecialAddress a = true := by
  rw [special_iff]
  by_cases hhigh : 0xC0000000 ≤ a.toNat
  · exact .inl hhigh
  right
  -- below `KSEG2` both see the same physical address, where there is a device
  have hsame : translated a.toNat = physical a.toNat ∨ translated a.toNat < 2 ^ 25 := by
    rw [translated, physical]
    split_ifs <;> omega
  have hlow : ∀ p, translateAddress tlb a = .ok p → isScratchpad a = false →
      p.toNat = physical a.toNat ∨ p.toNat < 2 ^ 25 := by
    intro p hp hs
    obtain ⟨q, hq, hqt⟩ := translate_low tlb hs (by omega)
    rw [hp] at hq
    cases hq
    rwa [hqt]
  have hphys : a.toNat < 0x80000000 → physical a.toNat = a.toNat := by
    intro hlt
    rw [physical, if_neg (by omega)]
  obtain ⟨hgs, -, -⟩ | ⟨-, ⟨r, off, hl, rfl⟩ | ⟨p, hl, rfl⟩⟩ := target_cases h
  · rw [isGsPrivReg_iff] at hgs
    rw [hphys (by omega)]
    omega
  · obtain ⟨p, hp, ⟨hs, heq⟩ | ⟨-, -, heq⟩ | ⟨hs, u, o, heq, hu⟩ | ⟨-, -, -, heq⟩⟩ := locate_cases hl
    · rw [isScratchpad_iff] at hs
      rw [hphys (by omega)]
      omega
    · cases heq
      cases hdev
    · cases heq
      have hpa := hlow p hp hs
      cases u with
      | vu0Code => cases houter
      | vu1Data => cases houter
      | vu0Data =>
        have hb : Vu.vu0Data.base.toNat = 0x11004000 := rfl
        have hn : Vu.vu0Data.size.toNat = 0x1000 := rfl
        omega
      | vu1Code =>
        have hb : Vu.vu1Code.base.toNat = 0x11008000 := rfl
        have hn : Vu.vu1Code.size.toNat = 0x4000 := rfl
        omega
    · cases heq
  · obtain ⟨q, hp, ⟨-, heq⟩ | ⟨-, -, heq⟩ | ⟨-, u, o, heq, -⟩ | ⟨hs, -, -, heq⟩⟩ := locate_cases hl
    · cases heq
    · cases heq
    · cases heq
    · cases heq
      have hpa := hlow p hp hs
      split at hdev
      · next hio =>
        rw [isIoRegister_iff] at hio
        omega
      · cases hdev

/-! ### Main memory -/

theorem TlbEntry.translate_mod {entry : TlbEntry} (h : entry.translate a = some phys) :
    phys.toNat % 16 = a.toNat % 16 := by
  have hones : ∀ i < 4, (0xFFF : Word).getLsbD i = true := by decide
  have hzeros : ∀ i < 32, 4 ≤ i → (15 : Word).getLsbD i = false := by decide
  rw [TlbEntry.translate] at h
  split at h
  · simp only at h
    split at h
    · cases h
      set mask := entry.mask &&& 0x01FFE000
      have hlow : ((entry.pfn <<< 12 ||| (a &&& (mask ||| 0xFFF))) &&& 15 : Word) = a &&& 15 := by
        apply BitVec.eq_of_getLsbD_eq
        intro i hi
        rw [BitVec.getLsbD_and, BitVec.getLsbD_and]
        rcases Nat.lt_or_ge i 4 with h4 | h4
        · have h12 : i < 12 := by omega
          rw [BitVec.getLsbD_or, BitVec.getLsbD_shiftLeft, BitVec.getLsbD_and, BitVec.getLsbD_or, hones i h4]
          simp [h12]
        · rw [hzeros i hi h4, Bool.and_false, Bool.and_false]
      have hmod := congrArg BitVec.toNat hlow
      rwa [and_low (k := 4) rfl, and_low (k := 4) rfl] at hmod
    · cases h
  · cases h

theorem translate_mod (h : translateAddress tlb a = .ok phys) (hs : isScratchpad a = false) :
    phys.toNat % 16 = a.toNat % 16 := by
  by_cases hlow : a.toNat < 0xC0000000
  · obtain ⟨p, hp, hpt⟩ := translate_low tlb hs hlow
    rw [h] at hp
    cases hp
    rw [hpt, translated]
    split_ifs <;> omega
  · have hmirror : ¬ps2IsUncachedRamMirrorAddress a = true := by
      rw [mirror_iff]
      omega
    have hkseg : ¬ps2IsKseg01Address a = true := by
      rw [kseg01_iff]
      omega
    have htop : ¬a < 0x80000000 := by
      rw [BitVec.lt_def]
      have : (0x80000000 : Word).toNat = 0x80000000 := rfl
      omega
    have hhigh : ps2IsKseg23Address a = true := by
      rw [ps2IsKseg23Address, decide_eq_true_iff, BitVec.le_def]
      exact not_lt.1 hlow
    rw [translateAddress, hs, if_neg (by simp), if_neg hmirror, if_neg hkseg, if_neg htop, if_pos hhigh] at h
    split at h
    · next p hp =>
      cases h
      obtain ⟨entry, -, he⟩ := List.exists_of_findSome?_eq_some hp
      exact TlbEntry.translate_mod he
    · cases h

section

variable (hl : locate tlb a (.ofNat 32 w.bytes) = .ok (.memory .rdram off))

include hl

theorem rdram_fits (hal : w.bytes ∣ a.toNat) : off.toNat + w.bytes ≤ 2 ^ 25 := by
  obtain ⟨p, hp, ⟨-, heq⟩ | ⟨hs, hlt, heq⟩ | ⟨-, u, o, heq, -⟩ | ⟨-, -, -, heq⟩⟩ := locate_cases hl
  · cases heq
  · cases heq
    have hmod := translate_mod hp hs
    cases w with
    | w8 =>
      simp only [Width.bytes] at hal ⊢
      omega
    | w16 =>
      simp only [Width.bytes] at hal ⊢
      omega
    | w32 =>
      simp only [Width.bytes] at hal ⊢
      omega
    | w64 =>
      simp only [Width.bytes] at hal ⊢
      omega
    | w128 =>
      simp only [Width.bytes] at hal ⊢
      omega
  · cases heq
  · cases heq

/-- **Main memory by either way.** The fast path masks the address, `PS2Memory` translates it. -/
theorem rdram_offset (hsp : ps2IsSpecialAddress a = false) : a &&& ramMask = off := by
  apply BitVec.eq_of_toNat_eq
  obtain ⟨p, hp, ⟨-, heq⟩ | ⟨hs, hlt, heq⟩ | ⟨-, u, o, heq, -⟩ | ⟨-, -, -, heq⟩⟩ := locate_cases hl
  · cases heq
  · cases heq
    have hlow : a.toNat < 0xC0000000 := by
      rw [← Bool.not_eq_true, special_iff] at hsp
      omega
    obtain ⟨q, hq, hqt⟩ := translate_low tlb hs hlow
    rw [hp] at hq
    cases hq
    rw [hqt] at hlt
    rw [and_ramMask, hqt]
    rw [translated] at hlt ⊢
    split_ifs at hlt ⊢ <;> omega
  · cases heq
  · cases heq

end

theorem bind_ok {x : MemM D α} {f : α → MemM D β} {y : α} (h : x m = .ok y m') : (x >>= f) m = f y m' := by
  have hbind : (x >>= f) m = EStateM.bind x f m := rfl
  rw [hbind, EStateM.bind, h]

variable {op : String}

theorem checkAligned_ok {lowBits : Word} {k : ℕ} (hk : lowBits.toNat = 2 ^ k - 1)
    (h : 2 ^ k ∣ a.toNat) : checkAligned lowBits op a m = .ok () m := by
  have hzero : a &&& lowBits = 0 := by
    apply BitVec.eq_of_toNat_eq
    rw [and_low hk, Nat.mod_eq_zero_of_dvd h]
    rfl
  rw [checkAligned, if_neg (not_not.2 hzero)]
  rfl

theorem located_ok {place : Place} (h : locate m.tlbEntries a n = .ok place) : located a n m = .ok place m := by
  rw [located]
  refine (bind_ok rfl).trans ?_
  rw [h]
  rfl

section

variable {n : ℕ} (h : off.toNat + n ≤ 2 ^ 25)

include h

theorem inRange_ok : inRange off n .rdram op a m = .ok () m := by
  have hlim : Region.rdram.limit.toNat = 2 ^ 25 := rfl
  rw [inRange, if_neg (by omega)]
  rfl

theorem loadScalar_ok : loadScalar n .rdram off op a m = .ok (.ofNat _ (Bytes.load m.rdram off.toNat n)) m := by
  rw [loadScalar, bind_ok (inRange_ok h)]
  rfl

end

theorem not_io_of_rdram (h : off.toNat < 2 ^ 25) : isIoRegister off = false := by
  rw [← Bool.not_eq_true, isIoRegister_iff]
  omega

theorem not_isFifo {p : Word} (hio : isIoRegister p = false) : d.isFifo p = false := by
  rw [← Bool.not_eq_true]
  intro h
  rw [d.isFifo_io p h] at hio
  cases hio

theorem storeAt_ok {n : ℕ} {value : BitVec (8 * n)} {writeIo : Word → MemM D Unit}
    (hl : locate m.tlbEntries a (.ofNat 32 n) = .ok (.memory .rdram off))
    (h : off.toNat + n ≤ 2 ^ 25) (hio : ∀ m, writeIo off m = .ok () m) :
    Devices.storeAt n op a value writeIo m =
      .ok () { m with rdram := Bytes.store m.rdram off.toNat value.toNat n } := by
  have hstore : storeScalar n .rdram off value op a m =
      .ok () { m with rdram := Bytes.store m.rdram off.toNat value.toNat n } := by
    rw [storeScalar, bind_ok (inRange_ok h)]
    rfl
  rw [Devices.storeAt, bind_ok (located_ok hl)]
  exact (bind_ok hstore).trans (hio _)

theorem ofNat_load_one (b : Bytes.Memory) (p : ℕ) : BitVec.ofNat 8 (Bytes.load b p 1) = b p := by
  rw [Bytes.load, Bytes.load, Nat.mul_zero, Nat.add_zero, BitVec.ofNat_toNat, BitVec.setWidth_eq]

section

variable (hl : locate m.tlbEntries a (.ofNat 32 w.bytes) = .ok (.memory .rdram off))

include hl

section

variable (hgs : ¬((w = .w32 ∨ w = .w64) ∧ isGsPrivReg a = true)) (hal : w.bytes ∣ a.toNat)

include hgs hal

/-- **`PS2Memory::read8` to `read128` of main memory.** -/
theorem read_ok : d.read w a m = .ok (.ofNat _ (Bytes.load m.rdram off.toNat w.bytes)) m := by
  have hfits := rdram_fits hl hal
  cases w with
  | w8 =>
    have hl : locate m.tlbEntries a 1 = .ok (.memory .rdram off) := hl
    have hread : d.read8 a m = .ok (m.rdram off.toNat) m := by
      rw [Devices.read8, bind_ok (located_ok hl)]
      rfl
    rw [Devices.read, hread]
    exact congrArg (EStateM.Result.ok · m) (ofNat_load_one m.rdram off.toNat).symm
  | w16 =>
    have hl : locate m.tlbEntries a 2 = .ok (.memory .rdram off) := hl
    rw [Devices.read, Devices.read16, bind_ok (checkAligned_ok (k := 1) rfl hal), bind_ok (located_ok hl)]
    exact loadScalar_ok hfits
  | w32 =>
    have hl : locate m.tlbEntries a 4 = .ok (.memory .rdram off) := hl
    have hgs' : ¬isGsPrivReg a = true := fun h => hgs ⟨.inl rfl, h⟩
    rw [Devices.read, Devices.read32, bind_ok (checkAligned_ok (k := 2) rfl hal), if_neg hgs', bind_ok (located_ok hl)]
    exact loadScalar_ok hfits
  | w64 =>
    have hl : locate m.tlbEntries a 8 = .ok (.memory .rdram off) := hl
    have hgs' : ¬isGsPrivReg a = true := fun h => hgs ⟨.inr rfl, h⟩
    rw [Devices.read, Devices.read64, bind_ok (checkAligned_ok (k := 3) rfl hal), if_neg hgs', bind_ok (located_ok hl)]
    exact loadScalar_ok hfits
  | w128 =>
    have hl : locate m.tlbEntries a 16 = .ok (.memory .rdram off) := hl
    rw [Devices.read, Devices.read128, bind_ok (checkAligned_ok (k := 4) rfl hal), bind_ok (located_ok hl)]
    exact loadScalar_ok hfits

/-- **`PS2Memory::write8` to `write128` of main memory.** -/
theorem write_ok (value : BitVec (8 * w.bytes)) :
    d.write w a value m = .ok () { m with rdram := Bytes.store m.rdram off.toNat value.toNat w.bytes } := by
  have hfits := rdram_fits hl hal
  have hpos : 0 < w.bytes := by cases w <;> decide
  have hio : isIoRegister off = false := not_io_of_rdram (by omega)
  cases w with
  | w8 =>
    have hl : locate m.tlbEntries a 1 = .ok (.memory .rdram off) := hl
    have hw : ∀ value : BitVec 8, d.write8 a value m =
        .ok () { m with rdram := Bytes.store m.rdram off.toNat value.toNat 1 } := by
      intro value
      rw [Devices.write8, bind_ok (located_ok hl)]
      refine (bind_ok rfl).trans ?_
      rw [Devices.writeIo8, hio]
      rfl
    exact hw value
  | w16 =>
    have hl : locate m.tlbEntries a 2 = .ok (.memory .rdram off) := hl
    have hw : ∀ value : BitVec 16, d.write16 a value m =
        .ok () { m with rdram := Bytes.store m.rdram off.toNat value.toNat 2 } := by
      intro value
      rw [Devices.write16, bind_ok (checkAligned_ok (k := 1) rfl hal)]
      refine storeAt_ok hl hfits fun m => ?_
      rw [Devices.writeIo16, hio]
      rfl
    exact hw value
  | w32 =>
    have hl : locate m.tlbEntries a 4 = .ok (.memory .rdram off) := hl
    have hgs' : ¬isGsPrivReg a = true := fun h => hgs ⟨.inl rfl, h⟩
    have hw : ∀ value : BitVec 32, d.write32 a value m =
        .ok () { m with rdram := Bytes.store m.rdram off.toNat value.toNat 4 } := by
      intro value
      rw [Devices.write32, bind_ok (checkAligned_ok (k := 2) rfl hal), if_neg hgs']
      refine storeAt_ok hl hfits fun m => ?_
      rw [hio]
      rfl
    exact hw value
  | w64 =>
    have hl : locate m.tlbEntries a 8 = .ok (.memory .rdram off) := hl
    have hgs' : ¬isGsPrivReg a = true := fun h => hgs ⟨.inr rfl, h⟩
    have hw : ∀ value : BitVec 64, d.write64 a value m =
        .ok () { m with rdram := Bytes.store m.rdram off.toNat value.toNat 8 } := by
      intro value
      rw [Devices.write64, bind_ok (checkAligned_ok (k := 3) rfl hal), if_neg hgs']
      refine storeAt_ok hl hfits fun m => ?_
      rw [hio]
      rfl
    exact hw value
  | w128 =>
    have hl : locate m.tlbEntries a 16 = .ok (.memory .rdram off) := hl
    have hw : ∀ value : BitVec 128, d.write128 a value m =
        .ok () { m with rdram := Bytes.store m.rdram off.toNat value.toNat 16 } := by
      intro value
      rw [Devices.write128, bind_ok (checkAligned_ok (k := 4) rfl hal)]
      refine storeAt_ok hl hfits fun m => ?_
      rw [hio, not_isFifo hio]
      rfl
    exact hw value

end

end

/-! ### The fast path -/

theorem contiguous_of_fits {n : ℕ} (hn : n ≤ 16) (h : off.toNat + n ≤ 2 ^ 25) :
    fastRangeIsContiguous off (.ofNat 32 n) = true := by
  have hram : ramSize.toNat = 2 ^ 25 := rfl
  have hof : (BitVec.ofNat 32 n).toNat = n := by
    rw [BitVec.toNat_ofNat]
    exact Nat.mod_eq_of_lt (by omega)
  rw [fastRangeIsContiguous, decide_eq_true_iff, BitVec.le_def, BitVec.toNat_sub_of_le, hof, hram]
  · omega
  · rw [BitVec.le_def, hof, hram]
    omega

variable {b : Bytes.Memory}

section

variable {n : ℕ} (hn : n ≤ 16) (ha : a &&& ramMask = off) (h : off.toNat + n ≤ 2 ^ 25)

include hn ha h

theorem ps2FastRead_eq : ps2FastRead n b a = .ofNat _ (Bytes.load b off.toNat n) := by
  rw [ps2FastRead]
  simp only
  rw [ha, contiguous_of_fits hn h]
  rfl

theorem ps2FastWrite_eq {value : BitVec (8 * n)} :
    ps2FastWrite n b a value = Bytes.store b off.toNat value.toNat n := by
  rw [ps2FastWrite, ha, contiguous_of_fits hn h]
  rfl

end

theorem fastRead_eq (ha : a &&& ramMask = off) (h : off.toNat + w.bytes ≤ 2 ^ 25) :
    w.fastRead b a = .ofNat _ (Bytes.load b off.toNat w.bytes) := by
  cases w with
  | w8 =>
    have hread : ps2FastRead8 b a = b off.toNat := by rw [ps2FastRead8, ha]
    exact hread.trans (ofNat_load_one b off.toNat).symm
  | w16 => exact ps2FastRead_eq (n := 2) (by omega) ha h
  | w32 => exact ps2FastRead_eq (n := 4) (by omega) ha h
  | w64 => exact ps2FastRead_eq (n := 8) (by omega) ha h
  | w128 => exact ps2FastRead_eq (n := 16) (by omega) ha h

theorem fastWrite_eq (value : BitVec (8 * w.bytes)) (ha : a &&& ramMask = off) (h : off.toNat + w.bytes ≤ 2 ^ 25) :
    w.fastWrite b a value = Bytes.store b off.toNat value.toNat w.bytes := by
  cases w with
  | w8 =>
    have hwrite : ∀ value : BitVec 8, ps2FastWrite8 b a value = Bytes.store b off.toNat value.toNat 1 := by
      intro value
      rw [ps2FastWrite8, ha]
    exact hwrite value
  | w16 => exact ps2FastWrite_eq (n := 2) (by omega) ha h
  | w32 => exact ps2FastWrite_eq (n := 4) (by omega) ha h
  | w64 => exact ps2FastWrite_eq (n := 8) (by omega) ha h
  | w128 => exact ps2FastWrite_eq (n := 16) (by omega) ha h

theorem load_store (b : Bytes.Memory) (p n : ℕ) (value : BitVec (8 * n)) :
    BitVec.ofNat (8 * n) (Bytes.load (Bytes.store b p value.toNat n) p n) = value := by
  have hload : Bytes.load (Bytes.store b p value.toNat n) p n = value.toNat := by
    refine Bytes.load_eq_of_bytes value.isLt fun i hi => ?_
    have hpow : (256 : ℕ) ^ i = 2 ^ (8 * i) := by
      rw [pow_mul]
      rfl
    rw [Bytes.store, if_pos (by omega), Nat.add_sub_cancel_left, hpow, Nat.shiftRight_eq_div_pow]
  rw [hload, BitVec.ofNat_toNat, BitVec.setWidth_eq]

/-- **Both ways to main memory do the same.** The emitted code and `PS2Memory` read one value and leave
one memory, and either reads back what either stored. A store of 32 bits that takes the slow path runs
the handlers of completed transfers afterwards. -/
structure Agrees (d : Devices D) (m : Ps2Memory D) (w : Width) (a : Word) : Prop where
  read : ∃ v, d.readMacro w a m = .ok v m ∧ d.read w a m = .ok v m
  write : ∀ v, ∃ m', d.write w a v m = .ok () m' ∧
    (ps2IsSpecialAddress a = false → d.writeMacro w a v m = .ok () m') ∧
    d.readMacro w a m' = .ok v m' ∧ d.read w a m' = .ok v m'

theorem readMacro_special (h : ps2IsSpecialAddress a = true) : d.readMacro w a = d.load w a := by
  rw [Devices.readMacro, if_pos h]

theorem writeMacro_special (h : ps2IsSpecialAddress a = true) (value : BitVec (8 * w.bytes)) :
    d.writeMacro w a value = d.store w a value := by
  rw [Devices.writeMacro, if_pos h]

section

variable (h : ps2IsSpecialAddress a = false)

include h

theorem readMacro_fast : d.readMacro w a m = .ok (w.fastRead m.rdram a) m := by
  rw [Devices.readMacro, h, if_neg (by simp)]
  rfl

theorem writeMacro_fast (value : BitVec (8 * w.bytes)) :
    d.writeMacro w a value m = .ok () { m with rdram := w.fastWrite m.rdram a value } := by
  rw [Devices.writeMacro, h, if_neg (by simp)]
  rfl

end

theorem readMacro_ok (hl : locate m.tlbEntries a (.ofNat 32 w.bytes) = .ok (.memory .rdram off))
    (hgs : ¬((w = .w32 ∨ w = .w64) ∧ isGsPrivReg a = true)) (hal : w.bytes ∣ a.toNat) :
    d.readMacro w a m = .ok (.ofNat _ (Bytes.load m.rdram off.toNat w.bytes)) m := by
  cases hsp : ps2IsSpecialAddress a with
  | true => rw [readMacro_special hsp, Devices.load, read_ok hl hgs hal]
  | false => rw [readMacro_fast hsp, fastRead_eq (rdram_offset hl hsp) (rdram_fits hl hal)]

theorem agrees_of_rdram (h : target m.tlbEntries w a = .ok (.memory .rdram off))
    (hal : w.bytes ∣ a.toNat) : Agrees d m w a := by
  obtain ⟨-, -, heq⟩ | ⟨hgs, ⟨r, off', hl, heq⟩ | ⟨p, hl, heq⟩⟩ := target_cases h
  · cases heq
  · cases heq
    refine ⟨⟨_, readMacro_ok hl hgs hal, read_ok hl hgs hal⟩, fun value => ?_⟩
    set m' : Ps2Memory D := { m with rdram := Bytes.store m.rdram off.toNat value.toNat w.bytes } with hm'
    have hl' : locate m'.tlbEntries a (.ofNat 32 w.bytes) = .ok (.memory .rdram off) := hl
    have hback : EStateM.Result.ok (.ofNat _ (Bytes.load m'.rdram off.toNat w.bytes)) m' =
        (EStateM.Result.ok value m' : EStateM.Result Fault (Ps2Memory D) (BitVec (8 * w.bytes))) := by
      rw [hm', load_store]
    refine ⟨m', write_ok hl hgs hal value, fun hsp => ?_, (readMacro_ok hl' hgs hal).trans hback,
      (read_ok hl' hgs hal).trans hback⟩
    rw [writeMacro_fast hsp, fastWrite_eq value (rdram_offset hl hsp) (rdram_fits hl hal)]
  · split at heq
    · cases heq
    · cases heq

/-! ### Nothing there -/

theorem mapRange_eq_none (h : ¬(v.base.toNat ≤ phys.toNat ∧
    phys.toNat + n.toNat ≤ v.base.toNat + v.size.toNat)) : v.mapRange phys n = none := by
  rw [Vu.mapRange]
  split
  · rfl
  · next hge =>
    have hge' := BitVec.not_lt.1 hge
    simp only
    rw [if_pos]
    by_contra hcon
    rw [not_or, BitVec.not_le, BitVec.not_lt, BitVec.lt_def, BitVec.le_def] at hcon
    have hsub := BitVec.toNat_sub_of_le hge'
    rw [BitVec.toNat_sub_of_le (BitVec.le_def.2 hcon.1.le), hsub] at hcon
    rw [BitVec.le_def] at hge'
    omega

theorem mapVu_eq_none (h : ∀ v : Vu, ¬(v.base.toNat ≤ phys.toNat ∧
    phys.toNat + n.toNat ≤ v.base.toNat + v.size.toNat)) : mapVuMemory phys n = none := by
  rw [mapVuMemory, List.findSome?_eq_none_iff]
  intro u _
  rw [mapRange_eq_none (h u)]
  rfl

theorem of_mapVu_none (h : mapVuMemory phys n = none) (v : Vu) : v.mapRange phys n = none := by
  rw [mapVuMemory, List.findSome?_eq_none_iff] at h
  have hv := h v (by cases v <;> simp)
  rwa [Option.map_eq_none_iff] at hv

theorem mapRange_ne_none (hlo : v.base.toNat ≤ phys.toNat) (hhi : phys.toNat + n.toNat ≤ v.base.toNat + v.size.toNat)
    (hn : 0 < n.toNat) : v.mapRange phys n ≠ none := by
  have hsub := BitVec.toNat_sub_of_le (BitVec.le_def.2 hlo)
  rw [Vu.mapRange, if_neg (BitVec.not_lt.2 (BitVec.le_def.2 hlo))]
  simp only
  rw [if_neg]
  · simp
  · rw [not_or, BitVec.not_le, BitVec.not_lt, BitVec.lt_def, BitVec.le_def]
    have hlt : (phys - v.base).toNat < v.size.toNat := by omega
    rw [BitVec.toNat_sub_of_le (BitVec.le_def.2 hlt.le)]
    omega

theorem locate_eq_other (hs : isScratchpad a = false) (hp : translateAddress tlb a = .ok phys)
    (hram : 2 ^ 25 ≤ phys.toNat) (hvu : mapVuMemory phys n = none) : locate tlb a n = .ok (.other phys) := by
  have hlt : ¬phys < ramSize := by
    have hsize : ramSize.toNat = 2 ^ 25 := rfl
    rw [BitVec.lt_def, hsize]
    omega
  unfold locate
  rw [hs, hp]
  simp only [bind, Except.bind, Bool.false_eq_true, if_false, if_neg hlt]
  rw [hvu]
  rfl

theorem half_nothing (hlow : a.toNat < 0xC0000000) (hal : 8 ∣ a.toNat) (hs : isScratchpad a = false)
    (hp : translateAddress tlb a = .ok phys) (hram : 2 ^ 25 ≤ phys.toNat) (hvu : mapVuMemory phys 8 = none)
    (hio : isIoRegister phys = false) (hgs : isGsPrivReg a = false) (k : ℕ) (hk : k = 0 ∨ k = 4) :
    target tlb .w32 (a + .ofNat 32 k) = .ok .nothing := by
  have hadd : (a + BitVec.ofNat 32 k).toNat = a.toNat + k := by
    have hof : (BitVec.ofNat 32 k).toNat = k := by
      rw [BitVec.toNat_ofNat]
      exact Nat.mod_eq_of_lt (by omega)
    rw [BitVec.toNat_add_of_lt (by omega), hof]
  obtain ⟨q, hq, hqt⟩ := translate_low tlb hs hlow
  rw [hp] at hq
  cases hq
  have hs' : isScratchpad (a + BitVec.ofNat 32 k) = false := by
    rw [← Bool.not_eq_true, isScratchpad_iff] at hs ⊢
    omega
  obtain ⟨q, hq, hq't⟩ := translate_low tlb hs' (by omega)
  have hqp : q.toNat = phys.toNat + k := by
    rw [hq't, hqt, hadd]
    rw [translated, translated]
    split_ifs <;> omega
  have hmod : phys.toNat % 8 = 0 := by
    have := translate_mod hp hs
    omega
  have hvu' : mapVuMemory q 4 = none := by
    refine mapVu_eq_none fun u hu => ?_
    have h4 : (4 : Word).toNat = 4 := rfl
    have h8 : (8 : Word).toNat = 8 := rfl
    have hlo : u.base.toNat % 8 = 0 := by cases u <;> rfl
    have hhi : (u.base.toNat + u.size.toNat) % 8 = 0 := by cases u <;> rfl
    have hne : u.mapRange phys 8 ≠ none := mapRange_ne_none (by omega) (by omega) (by decide)
    exact hne (of_mapVu_none hvu u)
  have hloc : locate tlb (a + BitVec.ofNat 32 k) 4 = .ok (.other q) :=
    locate_eq_other hs' hq (by omega) hvu'
  have hio' : isIoRegister q = false := by
    rw [← Bool.not_eq_true, isIoRegister_iff] at hio ⊢
    omega
  have hgs' : isGsPrivReg (a + BitVec.ofNat 32 k) = false := by
    rw [← Bool.not_eq_true, isGsPrivReg_iff] at hgs ⊢
    omega
  rw [target, if_neg (by rw [hgs']; simp)]
  have hbytes : BitVec.ofNat 32 Width.w32.bytes = 4 := rfl
  rw [hbytes, hloc]
  simp only [Except.map, hio']
  rfl

/-- What the target says about the address, where there is nothing. -/
theorem nothing_cases (h : target tlb w a = .ok .nothing) :
    ¬((w = .w32 ∨ w = .w64) ∧ isGsPrivReg a = true) ∧ isScratchpad a = false ∧
      ∃ p, translateAddress tlb a = .ok p ∧ 2 ^ 25 ≤ p.toNat ∧
        mapVuMemory p (.ofNat 32 w.bytes) = none ∧ isIoRegister p = false ∧
        locate tlb a (.ofNat 32 w.bytes) = .ok (.other p) := by
  obtain ⟨-, -, heq⟩ | ⟨hgs, ⟨r, off, hl, heq⟩ | ⟨p, hl, heq⟩⟩ := target_cases h
  · cases heq
  · cases heq
  · obtain ⟨q, hp, ⟨-, hq⟩ | ⟨-, -, hq⟩ | ⟨-, u, o, hq, -⟩ | ⟨hs, hram, hvu, hq⟩⟩ := locate_cases hl
    · cases hq
    · cases hq
    · cases hq
    · cases hq
      refine ⟨hgs, hs, p, hp, hram, hvu, ?_, hl⟩
      cases hio : isIoRegister p with
      | false => rfl
      | true =>
        rw [hio] at heq
        cases heq

theorem read32_nothing (h : target m.tlbEntries .w32 a = .ok .nothing) (hal : 4 ∣ a.toNat) :
    d.read32 a m = .ok 0 m := by
  obtain ⟨hgs, -, p, -, -, -, hio, hl⟩ := nothing_cases h
  have hl : locate m.tlbEntries a 4 = .ok (.other p) := hl
  have hgs' : ¬isGsPrivReg a = true := fun h => hgs ⟨.inl rfl, h⟩
  rw [Devices.read32, bind_ok (checkAligned_ok (k := 2) rfl hal), if_neg hgs', bind_ok (located_ok hl)]
  simp only [hio]
  rfl

/-- **Where there is nothing, `PS2Memory` reads zeros.** -/
theorem read_nothing (h : target m.tlbEntries w a = .ok .nothing) (hal : w.bytes ∣ a.toNat)
    (hlow : a.toNat < 0xC0000000) : d.read w a m = .ok 0 m := by
  obtain ⟨hgs, hs, p, hp, hram, hvu, hio, hl⟩ := nothing_cases h
  cases w with
  | w8 =>
    have hl : locate m.tlbEntries a 1 = .ok (.other p) := hl
    rw [Devices.read, Devices.read8, bind_ok (located_ok hl)]
    simp only [hio]
    rfl
  | w16 =>
    have hl : locate m.tlbEntries a 2 = .ok (.other p) := hl
    rw [Devices.read, Devices.read16, bind_ok (checkAligned_ok (k := 1) rfl hal), bind_ok (located_ok hl)]
    simp only [hio]
    rfl
  | w32 => exact read32_nothing h hal
  | w64 =>
    have hal : 8 ∣ a.toNat := hal
    have hl : locate m.tlbEntries a 8 = .ok (.other p) := hl
    have hgs' : isGsPrivReg a = false := by
      rw [← Bool.not_eq_true]
      exact fun h => hgs ⟨.inr rfl, h⟩
    have hioa : isIoRegister a = false := by
      -- an address of a register below `KSEG2` is its physical address
      rw [← Bool.not_eq_true, isIoRegister_iff] at hio ⊢
      obtain ⟨q, hq, hqt⟩ := translate_low m.tlbEntries hs hlow
      rw [hp] at hq
      cases hq
      intro ha
      rw [hqt, translated, if_neg (by omega), if_neg (by omega)] at hio
      exact hio ha
    have hreg : d.isRegister a = false := by
      rw [← Bool.not_eq_true]
      intro h
      rw [d.isRegister_io a h] at hioa
      cases hioa
    have hhalf := half_nothing hlow hal hs hp hram hvu hio hgs'
    have hlo : d.read32 a m = .ok 0 m := by
      have h0 := hhalf 0 (.inl rfl)
      rw [BitVec.add_zero] at h0
      exact read32_nothing h0 (by omega)
    have hhi : d.read32 (a + 4) m = .ok 0 m := by
      refine read32_nothing (hhalf 4 (.inr rfl)) ?_
      have h4 : (4 : Word).toNat = 4 := rfl
      rw [BitVec.toNat_add_of_lt (by omega), h4]
      omega
    rw [Devices.read, Devices.read64, bind_ok (checkAligned_ok (k := 3) rfl hal), hgs',
      if_neg (by simp), bind_ok (located_ok hl)]
    simp only [hreg, hioa, Bool.false_eq_true, if_false]
    rw [bind_ok hlo, bind_ok hhi]
    rfl
  | w128 =>
    have hl : locate m.tlbEntries a 16 = .ok (.other p) := hl
    rw [Devices.read, Devices.read128, bind_ok (checkAligned_ok (k := 4) rfl hal), bind_ok (located_ok hl)]
    simp only [not_isFifo hio]
    rfl

theorem storeAt_other {n : ℕ} {value : BitVec (8 * n)} {writeIo : Word → MemM D Unit}
    (hl : locate m.tlbEntries a (.ofNat 32 n) = .ok (.other phys)) (hio : writeIo phys m = .ok () m) :
    Devices.storeAt n op a value writeIo m = .ok () m := by
  rw [Devices.storeAt, bind_ok (located_ok hl)]
  exact hio

/-- **Where there is nothing, `PS2Memory` drops what is written.** -/
theorem write_nothing (h : target m.tlbEntries w a = .ok .nothing) (hal : w.bytes ∣ a.toNat)
    (value : BitVec (8 * w.bytes)) : d.write w a value m = .ok () m := by
  obtain ⟨hgs, hs, p, hp, hram, hvu, hio, hl⟩ := nothing_cases h
  cases w with
  | w8 =>
    have hl : locate m.tlbEntries a 1 = .ok (.other p) := hl
    have hw : ∀ value : BitVec 8, d.write8 a value m = .ok () m := by
      intro value
      rw [Devices.write8, bind_ok (located_ok hl)]
      simp only [Devices.writeIo8, hio]
      rfl
    exact hw value
  | w16 =>
    have hw : ∀ value : BitVec 16, d.write16 a value m = .ok () m := by
      intro value
      rw [Devices.write16, bind_ok (checkAligned_ok (k := 1) rfl hal)]
      refine storeAt_other hl ?_
      rw [Devices.writeIo16, hio]
      rfl
    exact hw value
  | w32 =>
    have hgs' : ¬isGsPrivReg a = true := fun h => hgs ⟨.inl rfl, h⟩
    have hw : ∀ value : BitVec 32, d.write32 a value m = .ok () m := by
      intro value
      rw [Devices.write32, bind_ok (checkAligned_ok (k := 2) rfl hal), if_neg hgs']
      refine storeAt_other hl ?_
      rw [hio]
      rfl
    exact hw value
  | w64 =>
    have hgs' : ¬isGsPrivReg a = true := fun h => hgs ⟨.inr rfl, h⟩
    have hw : ∀ value : BitVec 64, d.write64 a value m = .ok () m := by
      intro value
      rw [Devices.write64, bind_ok (checkAligned_ok (k := 3) rfl hal), if_neg hgs']
      refine storeAt_other hl ?_
      rw [hio]
      rfl
    exact hw value
  | w128 =>
    have hw : ∀ value : BitVec 128, d.write128 a value m = .ok () m := by
      intro value
      rw [Devices.write128, bind_ok (checkAligned_ok (k := 4) rfl hal)]
      refine storeAt_other hl ?_
      rw [hio, not_isFifo hio]
      rfl
    exact hw value

/-- **The fast path.** A device is special, so that the emitted code asks `PS2Memory` for it (the code
of the first vector unit and the data of the second apart). Main memory is the same by either way.
Where there is nothing, `PS2Memory` reads zeros and drops what is written; the emitted code asks it, or
takes the address for one of main memory. -/
theorem fast_path_agrees (h : target m.tlbEntries w a = .ok t) :
    (t.isDevice = true → t.isOuterVu = false → ps2IsSpecialAddress a = true ∧
      d.readMacro w a = d.load w a ∧ ∀ value, d.writeMacro w a value = d.store w a value) ∧
    (∀ off, t = .memory .rdram off → w.bytes ∣ a.toNat → Agrees d m w a) ∧
    (t = .nothing → w.bytes ∣ a.toNat → ps2IsSpecialAddress a = false →
      d.read w a m = .ok 0 m ∧ d.readMacro w a m = .ok (w.fastRead m.rdram a) m ∧
      ∀ value, d.write w a value m = .ok () m ∧
        d.writeMacro w a value m = .ok () { m with rdram := w.fastWrite m.rdram a value }) ∧
    (t = .nothing → ps2IsSpecialAddress a = true →
      d.readMacro w a = d.load w a ∧ ∀ value, d.writeMacro w a value = d.store w a value) := by
  refine ⟨fun hdev houter => ?_, fun off ht hal => ?_, fun ht hal hsp => ?_, fun _ hsp => ?_⟩
  · have hsp := device_special h hdev houter
    exact ⟨hsp, readMacro_special hsp, writeMacro_special hsp⟩
  · subst ht
    exact agrees_of_rdram h hal
  · subst ht
    have hlow : a.toNat < 0xC0000000 := by
      rw [← Bool.not_eq_true, special_iff] at hsp
      omega
    exact ⟨read_nothing h hal hlow, readMacro_fast hsp,
      fun value => ⟨write_nothing h hal value, writeMacro_fast hsp value⟩⟩
  · exact ⟨readMacro_special hsp, writeMacro_special hsp⟩

/-- Devices that hold nothing. The FIFOs of the IPU are where they are. -/
def quiet : Devices Unit where
  readIORegister _ := pure 0
  writeIORegister _ _ := pure ()
  isRegister _ := false
  isFifo addr := addr == 0x10007000 || addr == 0x10007010
  readFifo128 _ := pure 0
  writeFifo128 _ _ := pure ()
  signalException _ m := m
  drainCompletedDmacHandlers := pure ()
  isRegister_io _ h := nomatch h
  isFifo_io addr h := by
    rw [Bool.or_eq_true, beq_iff_eq, beq_iff_eq] at h
    rcases h with rfl | rfl
    · decide
    · decide

/-- Memory that is all zeros. -/
def cleared : Ps2Memory Unit where
  rdram _ := 0
  scratchpad _ := 0
  vu _ _ := 0
  vu1CodeGeneration := 0
  tlbEntries := []
  gs _ := 0
  csr := 0
  ioRegisters _ := none
  devices := ()

theorem uncached_agrees : target cleared.tlbEntries .w64 0x20001000 = .ok (.memory .rdram 0x1000) ∧
    Agrees quiet cleared .w64 0x20001000 := by
  have h : target cleared.tlbEntries .w64 0x20001000 = .ok (.memory .rdram 0x1000) := by decide
  exact ⟨h, (fast_path_agrees h).2.1 0x1000 rfl (by decide)⟩

/-- **There is no memory behind the address of the BIOS.** What is stored there is not read back. -/
theorem bios_not_stored : ¬∀ (d : Devices Unit) (m : Ps2Memory Unit) (w : Width) (a : Word) (t : Target),
    target m.tlbEntries w a = .ok t → (t.isDevice = true → ps2IsSpecialAddress a = true) ∧
    (t.isDevice = false → w.bytes ∣ a.toNat → Agrees d m w a) := by
  intro h
  have ht : target cleared.tlbEntries .w8 0x1FC00000 = .ok .nothing := by decide
  obtain ⟨m', hwrite, -, -, hread⟩ :=
    ((h quiet cleared .w8 0x1FC00000 .nothing ht).2 rfl (by decide)).write 1
  rw [write_nothing ht (by decide)] at hwrite
  cases hwrite
  rw [read_nothing ht (by decide) (by decide)] at hread
  have hv : (0 : BitVec 8) = 1 := (EStateM.Result.ok.inj hread).1
  exact absurd hv (by decide)

end Ps2Recomp.Memory
