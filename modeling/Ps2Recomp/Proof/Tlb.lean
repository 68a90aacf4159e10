import Ps2Recomp.Proof.Memory
import Ps2Recomp.Spec.Tlb

/-!
# TLB entries, written and read back

An entry goes through five masks: the moves to the registers, `TLBWI`, the store of the entry, the
probe and the translation. The move to `EntryHi` keeps two bits of the page number.

* `written_entries`: the entry that is stored.
* `readsBack_iff`: when probe, read and translation give back what was moved.
-/

namespace Ps2Recomp.TlbCtx

open Memory

variable {c d : TlbCtx} {i h l p a : Word}

/-! ## Lists with one entry of interest -/

theorem findSome?_set {α β : Type} {f : α → Option β} {x : α} : ∀ {xs : List α} {i : ℕ}, i < xs.length →
    (∀ j y, j ≠ i → xs[j]? = some y → f y = none) → (xs.set i x).findSome? f = f x := by
  intro xs
  induction xs with
  | nil => intro i hi; exact absurd hi (Nat.not_lt_zero i)
  | cons y xs ih =>
    intro i hi hother
    cases i with
    | zero =>
      rw [List.set_cons_zero, List.findSome?_cons]
      have hnone : xs.findSome? f = none := by
        rw [List.findSome?_eq_none_iff]
        intro z hz
        obtain ⟨j, hj⟩ := List.mem_iff_getElem?.1 hz
        exact hother (j + 1) z (by omega) (by rw [List.getElem?_cons_succ, hj])
      rw [hnone]
      cases f x <;> rfl
    | succ i =>
      rw [List.set_cons_succ, List.findSome?_cons, hother 0 y (by omega) rfl]
      refine ih (Nat.lt_of_succ_lt_succ hi) fun j z hj hz => ?_
      exact hother (j + 1) z (by omega) (by rw [List.getElem?_cons_succ, hz])

theorem findIdx?_set {α : Type} {q : α → Bool} {x : α} {xs : List α} {i : ℕ} (hi : i < xs.length) (hx : q x = true)
    (hother : ∀ j y, j < i → xs[j]? = some y → q y = false) : (xs.set i x).findIdx? q = some i := by
  have hi' : i < (xs.set i x).length := by rwa [List.length_set]
  refine List.findIdx?_eq_some_iff_getElem.2 ⟨hi', ?_, ?_⟩
  · rwa [List.getElem_set_self]
  · intro j hj
    have hj' : j < xs.length := by omega
    rw [List.getElem_set_ne (by omega), hother j xs[j] hj (List.getElem?_eq_getElem hj')]
    exact Bool.false_ne_true

/-! ## Pages -/

/-- The bits that an entry of page mask `p` does not compare. -/
def offsetMask (p : Word) : Word := (p &&& 0x01FFE000) ||| 0xFFF

/-- `a` is on the page of `h`. -/
def OnPage (h p a : Word) : Prop := a &&& ~~~offsetMask p = h &&& ~~~offsetMask p

/-- The bits of the page number that the move to `EntryHi` drops. -/
def droppedBits (h : Word) : Word := h &&& 0x3FFFF000

theorem pageNumber_iff : h &&& 0xC0000000 = h &&& 0xFFFFF000 ↔ droppedBits h = 0 := by
  have hsplit : h &&& 0xFFFFF000 = (h &&& 0xC0000000) ||| droppedBits h := by
    rw [droppedBits, ← BitVec.and_or_distrib_left]
    rfl
  constructor
  · intro heq
    calc droppedBits h = (h &&& 0xFFFFF000) &&& 0x3FFFF000 := by rw [droppedBits, BitVec.and_assoc]; rfl
      _ = (h &&& 0xC0000000) &&& 0x3FFFF000 := by rw [heq]
      _ = 0 := by rw [BitVec.and_assoc]; exact BitVec.and_zero
  · intro hzero
    rw [hsplit, hzero]
    exact BitVec.or_zero.symm

/-- No compared bit is below the page number. -/
theorem not_offsetMask (p : Word) : ~~~offsetMask p = 0xFFFFF000 &&& ~~~offsetMask p := by
  have hlow : ~~~offsetMask p = ~~~(p &&& 0x01FFE000) &&& 0xFFFFF000 := by
    rw [offsetMask, BitVec.not_or]
    rfl
  rw [hlow, BitVec.and_comm (0xFFFFF000 : Word), BitVec.and_assoc, BitVec.and_self]

theorem kept_page (hd : droppedBits h = 0) : (h &&& 0xC0000000) &&& ~~~offsetMask p = h &&& ~~~offsetMask p := by
  rw [pageNumber_iff.2 hd, BitVec.and_assoc, ← not_offsetMask]

theorem onPage_or : OnPage h p (h ||| offsetMask p) := by
  rw [OnPage, BitVec.and_comm, BitVec.and_or_distrib_left, BitVec.not_and_self, BitVec.and_comm]
  exact BitVec.or_zero

theorem or_eq_add_iff (x y : Word) : x ||| y = x + y ↔ x &&& y = 0 := by
  have hrest : x &&& (y &&& ~~~x) = 0 := by
    rw [BitVec.and_comm y, ← BitVec.and_assoc, BitVec.and_not_self]
    exact BitVec.zero_and
  constructor
  · intro hor
    have hunion : x ||| y = x + (y &&& ~~~x) := by
      rw [BitVec.add_eq_or_of_and_eq_zero _ _ hrest]
      apply BitVec.eq_of_getLsbD_eq
      intro k hk
      rw [BitVec.getLsbD_or, BitVec.getLsbD_or, BitVec.getLsbD_and, BitVec.getLsbD_not, decide_eq_true hk]
      cases x.getLsbD k <;> simp
    have hy : y &&& ~~~x = y := add_left_cancel (hunion.symm.trans hor)
    rw [← hy]
    exact hrest
  · intro hand
    exact (BitVec.add_eq_or_of_and_eq_zero x y hand).symm

/-! ## The entry that is stored -/

/-- The values moved to the registers, and `TLBWI`. -/
def written (c : TlbCtx) (i h l p : Word) : TlbCtx :=
  handleTLBWI (mtc0 .index i (mtc0 .pageMask p (mtc0 .entryLo0 l (mtc0 .entryHi h c))))

/-- The page number that the entry is given. -/
def pfnOf (l : Word) : Word := (l >>> 6) &&& 0x000FFFFF

/-- The entry: of the page number, the two bits that the move keeps. -/
def entryOf (h l p : Word) : TlbEntry where
  vpn := h &&& 0xC0000000
  pfn := pfnOf l
  mask := p &&& 0x01FFE000
  valid := l &&& 0x2 ≠ 0

theorem index_low (hi : i.toNat < tlbEntryCount) : i &&& 0x3F = i := by
  apply BitVec.eq_of_toNat_eq
  rw [and_low (k := 6) rfl]
  exact Nat.mod_eq_of_lt (hi.trans (by decide))

theorem writeEntry_eq (t : Tlb) (hi : i.toNat < tlbEntryCount) :
    ∃ hcount, writeEntry { t with
        entryHi := h &&& 0xC00000FF, entryLo0 := l &&& 0x3FFFFFFF, pageMask := p &&& 0x01FFE000, index := i } i =
      some { t with
        entryHi := h &&& 0xC00000FF, entryLo0 := l &&& 0x3FFFFFFF, pageMask := p &&& 0x01FFE000, index := i
        tlbEntries := t.tlbEntries.set i.toNat (entryOf h l p), count := hcount } := by
  have hlt : ¬t.tlbEntries.length ≤ i.toNat := by rw [t.count]; omega
  have hvpn : (h &&& 0xC00000FF) &&& 0xFFFFF000 &&& 0xFFFFF000 = h &&& 0xC0000000 := by
    rw [BitVec.and_assoc, BitVec.and_assoc]
    rfl
  have hpfn : ((l &&& 0x3FFFFFFF) >>> 6) &&& 0x000FFFFF &&& 0x000FFFFF = pfnOf l := by
    rw [BitVec.ushiftRight_and_distrib, BitVec.and_assoc, BitVec.and_assoc]
    rfl
  have hmask : (p &&& 0x01FFE000) &&& 0x01FFE000 &&& 0x01FFE000 = p &&& 0x01FFE000 := by
    rw [BitVec.and_assoc, BitVec.and_assoc]
    rfl
  have hvalid : (l &&& 0x3FFFFFFF) &&& 0x2 = l &&& 0x2 := by
    rw [BitVec.and_assoc]
    rfl
  refine ⟨by rw [List.length_set, t.count], ?_⟩
  rw [writeEntry, Tlb.tlbWrite, if_neg hlt]
  simp only [hvpn, hpfn, hmask, hvalid]
  rfl

theorem tlb_written (c : TlbCtx) (hi : i.toNat < tlbEntryCount) :
    (tlb (written c i h l p)).tlbEntries = (tlb c).tlbEntries.set i.toNat (entryOf h l p) := by
  obtain ⟨hcount, heq⟩ := writeEntry_eq (h := h) (l := l) (p := p) (tlb c) hi
  have hindex : i &&& 0x3F &&& 0x3F = i := by rw [index_low hi, index_low hi]
  have hmoved : tlb (mtc0 .index i (mtc0 .pageMask p (mtc0 .entryLo0 l (mtc0 .entryHi h c)))) =
      { tlb c with
        entryHi := h &&& 0xC00000FF, entryLo0 := l &&& 0x3FFFFFFF, pageMask := p &&& 0x01FFE000,
        index := i &&& 0x3F } := rfl
  rw [written, handleTLBWI, hmoved]
  dsimp only
  rw [hindex, index_low hi, heq]
  rfl

/-! ## What is given back -/

/-- No other valid entry maps an address of the page. -/
def Alone (t : Tlb) (i h p : Word) : Prop :=
  ∀ j entry, j ≠ i.toNat → t.tlbEntries[j]? = some entry → ∀ a, OnPage h p a → entry.translate a = none

/-- Whatever else happens to the registers, as long as the entries stay: the probe finds the entry, the
read restores the page number, the page frame with its valid bit and the page mask, and the addresses of
the page in KSEG2 and KSEG3 are translated to the page frame, with their offsets. -/
structure ReadsBack (c : TlbCtx) (i h l p : Word) : Prop where
  probe : ∀ d, (tlb d).tlbEntries = (tlb (written c i h l p)).tlbEntries →
    (tlb (handleTLBP (mtc0 .entryHi h d))).index &&& 0x8000003F = i
  vpn : ∀ d, (tlb d).tlbEntries = (tlb (written c i h l p)).tlbEntries →
    (tlb (handleTLBR (mtc0 .index i d))).entryHi &&& 0xFFFFF000 = h &&& 0xFFFFF000
  pfn : ∀ d, (tlb d).tlbEntries = (tlb (written c i h l p)).tlbEntries →
    (tlb (handleTLBR (mtc0 .index i d))).entryLo0 &&& 0x03FFFFC2 = l &&& 0x03FFFFC2
  pageMask : ∀ d, (tlb d).tlbEntries = (tlb (written c i h l p)).tlbEntries →
    (tlb (handleTLBR (mtc0 .index i d))).pageMask = p &&& 0x01FFE000
  translate : ∀ a, ps2IsKseg23Address a → OnPage h p a →
    translateAddress (tlb (written c i h l p)).tlbEntries a = .ok ((pfnOf l <<< 12) + (a &&& offsetMask p))

/-- The move to `EntryHi` drops no bit of the page number; and if the page is in KSEG2 or KSEG3, its
frame starts at a multiple of its size. -/
structure Meets (h l p : Word) : Prop where
  kept : droppedBits h = 0
  aligned : 0xC0000000 ≤ h → (pfnOf l <<< 12) &&& offsetMask p = 0

theorem offsetMask_and (p : Word) : offsetMask (p &&& 0x01FFE000) = offsetMask p := by
  rw [offsetMask, offsetMask, BitVec.and_assoc, BitVec.and_self]

theorem translate_eq_none {entry : TlbEntry} : entry.translate a = none ↔
    ¬(entry.valid = true ∧ a &&& ~~~offsetMask entry.mask = entry.vpn &&& ~~~offsetMask entry.mask) := by
  rw [TlbEntry.translate]
  split
  · next hv =>
    dsimp only
    split
    · next heq => exact iff_of_false (Option.some_ne_none _) (not_not.2 ⟨hv, heq⟩)
    · next hne => exact iff_of_true rfl fun h => hne h.2
  · next hv => exact iff_of_true rfl fun h => hv h.1

theorem probes_eq {entry : TlbEntry} (hd : droppedBits h = 0) :
    Tlb.probes (h &&& 0xC0000000) entry = (entry.translate h).isSome := by
  rw [Bool.eq_iff_iff, Option.isSome_iff_ne_none, ne_eq, translate_eq_none, not_not, Tlb.probes,
    Bool.and_eq_true, beq_iff_eq]
  exact and_congr_right fun _ => by rw [← kept_page (p := entry.mask) hd]; rfl

theorem translate_entryOf (hv : l &&& 0x2 ≠ 0) (hd : droppedBits h = 0) (ha : OnPage h p a) :
    (entryOf h l p).translate a = some ((pfnOf l <<< 12) ||| (a &&& offsetMask p)) := by
  have hvalid : (entryOf h l p).valid = true := decide_eq_true hv
  have hmask : (entryOf h l p).mask &&& 0x01FFE000 ||| 0xFFF = offsetMask p := offsetMask_and p
  rw [TlbEntry.translate, if_pos hvalid]
  dsimp only
  rw [hmask, if_pos]
  · rfl
  · exact ha.trans (kept_page hd).symm

section

variable (hi : i.toNat < tlbEntryCount) (hd : (tlb d).tlbEntries = (tlb (written c i h l p)).tlbEntries)

include hi hd

theorem read_written :
    (tlb (mtc0 .index i d)).tlbRead ((tlb (mtc0 .index i d)).index &&& 0x3F) = some (entryOf h l p) := by
  have hindex : (tlb (mtc0 .index i d)).index &&& 0x3F = i := by
    have hmoved : (tlb (mtc0 .index i d)).index = i &&& 0x3F := rfl
    rw [hmoved, index_low hi, index_low hi]
  have hentries : (tlb (mtc0 .index i d)).tlbEntries = (tlb c).tlbEntries.set i.toNat (entryOf h l p) := by
    rw [← tlb_written c hi, ← hd]
    rfl
  rw [hindex, Tlb.tlbRead, hentries]
  exact List.getElem?_set_self (by rw [(tlb c).count]; exact hi)

theorem handleTLBR_written :
    (tlb (handleTLBR (mtc0 .index i d))).entryHi = ((tlb d).entryHi &&& 0x00000FFF) ||| (h &&& 0xC0000000) ∧
      (tlb (handleTLBR (mtc0 .index i d))).entryLo0 =
        ((tlb d).entryLo0 &&& ~~~(0x03FFFFC2 : Word)) ||| (pfnOf l <<< 6) ||| (if l &&& 0x2 ≠ 0 then 0x2 else 0) ∧
      (tlb (handleTLBR (mtc0 .index i d))).pageMask = p &&& 0x01FFE000 := by
  have hvpn : (entryOf h l p).vpn &&& 0xFFFFF000 = h &&& 0xC0000000 := by
    rw [entryOf, BitVec.and_assoc]
    rfl
  have hpfn : (entryOf h l p).pfn &&& 0x000FFFFF = pfnOf l := by
    rw [entryOf, pfnOf, BitVec.and_assoc, BitVec.and_self]
  have hmask : (entryOf h l p).mask &&& 0x01FFE000 = p &&& 0x01FFE000 := by
    rw [entryOf, BitVec.and_assoc, BitVec.and_self]
  rw [handleTLBR, read_written hi hd]
  dsimp only
  rw [hvpn, hpfn, hmask]
  have hvalid : (if (entryOf h l p).valid then 0x2 else 0 : Word) = if l &&& 0x2 ≠ 0 then 0x2 else 0 := by
    simp [entryOf]
  rw [hvalid]
  exact ⟨rfl, rfl, rfl⟩

end

theorem probe_written (hv : l &&& 0x2 ≠ 0) (hi : i.toNat < tlbEntryCount) (halone : Alone (tlb c) i h p)
    (hk : droppedBits h = 0) (hd : (tlb d).tlbEntries = (tlb (written c i h l p)).tlbEntries) :
    (tlb (handleTLBP (mtc0 .entryHi h d))).index &&& 0x8000003F = i := by
  have hlt : i.toNat < (tlb c).tlbEntries.length := by rw [(tlb c).count]; exact hi
  have hvpn : (tlb (mtc0 .entryHi h d)).entryHi &&& 0xFFFFF000 &&& 0xFFFFF000 = h &&& 0xC0000000 := by
    have hmoved : (tlb (mtc0 .entryHi h d)).entryHi = h &&& 0xC00000FF := rfl
    rw [hmoved, BitVec.and_assoc, BitVec.and_assoc]
    rfl
  have hentries : (tlb (mtc0 .entryHi h d)).tlbEntries = (tlb c).tlbEntries.set i.toNat (entryOf h l p) := by
    rw [← tlb_written c hi, ← hd]
    rfl
  have hprobe : (tlb (mtc0 .entryHi h d)).tlbProbe ((tlb (mtc0 .entryHi h d)).entryHi &&& 0xFFFFF000) =
      some i.toNat := by
    rw [Tlb.tlbProbe, hvpn, hentries]
    refine findIdx?_set hlt ?_ fun j entry hj hentry => ?_
    · rw [probes_eq hk, translate_entryOf hv hk rfl]
      rfl
    · rw [probes_eq hk, halone j entry (by omega) hentry h rfl]
      rfl
  have hindex : (.ofNat 32 i.toNat : Word) &&& 0x3F = i := by rw [BitVec.ofNat_toNat, BitVec.setWidth_eq, index_low hi]
  have hfield : i &&& 0x8000003F = i := by
    conv_rhs => rw [← index_low hi]
    conv_lhs => rw [← index_low hi, BitVec.and_assoc]
    rfl
  rw [handleTLBP, hprobe]
  dsimp only
  rw [hindex]
  calc (((tlb (mtc0 .entryHi h d)).index &&& ~~~(0x8000003F : Word)) ||| i) &&& 0x8000003F
      = ((tlb (mtc0 .entryHi h d)).index &&& ~~~(0x8000003F : Word)) &&& 0x8000003F ||| i &&& 0x8000003F :=
        BitVec.and_or_distrib_right
    _ = i := by
        rw [BitVec.and_assoc, BitVec.not_and_self, hfield]
        exact (congrArg (· ||| i) BitVec.and_zero).trans BitVec.zero_or

theorem translateAddress_high {entries : List TlbEntry} (hk : ps2IsKseg23Address a) (hlt : a.toNat < 0xF0000000) :
    translateAddress entries a = match entries.findSome? (·.translate a) with
      | some physAddr => .ok physAddr
      | none => .error (.tlbMiss a) := by
  have hle : 0xC0000000 ≤ a.toNat := by
    rw [ps2IsKseg23Address, decide_eq_true_iff, BitVec.le_def] at hk
    exact hk
  have hscratch : ¬isScratchpad a = true := by
    rw [isScratchpad_iff]
    omega
  have hmirror : ¬ps2IsUncachedRamMirrorAddress a = true := by
    rw [mirror_iff]
    omega
  have hkseg : ¬ps2IsKseg01Address a = true := by
    rw [kseg01_iff]
    omega
  have htop : ¬a < 0x80000000 := by
    rw [BitVec.lt_def]
    have : (0x80000000 : Word).toNat = 0x80000000 := rfl
    omega
  unfold translateAddress
  cases entries.findSome? (·.translate a) <;>
    simp only [hscratch, hmirror, hkseg, htop, hk, if_false, if_true, Bool.false_eq_true]

theorem onPage_lt (hk : droppedBits h = 0) (ha : OnPage h p a) : a.toNat < 0xF0000000 := by
  have hsplit := Masks.and_add_and_not (x := a) (offsetMask p)
  have hlow : (a &&& offsetMask p).toNat ≤ 0x01FFFFFF := by
    have hmask : offsetMask p = offsetMask p &&& 0x01FFFFFF := by
      rw [offsetMask, BitVec.and_or_distrib_right, BitVec.and_assoc]
      rfl
    rw [hmask, ← BitVec.and_assoc, BitVec.toNat_and]
    exact Nat.and_le_right
  have hpage : (a &&& ~~~offsetMask p).toNat ≤ 0xC0000000 := by
    rw [ha, ← kept_page hk, BitVec.and_assoc, BitVec.and_comm h, BitVec.and_assoc, BitVec.toNat_and]
    exact Nat.and_le_left
  omega

theorem translate_written (hv : l &&& 0x2 ≠ 0) (hi : i.toNat < tlbEntryCount) (halone : Alone (tlb c) i h p)
    (hk : droppedBits h = 0) (hkseg : ps2IsKseg23Address a) (ha : OnPage h p a) :
    translateAddress (tlb (written c i h l p)).tlbEntries a = .ok ((pfnOf l <<< 12) ||| (a &&& offsetMask p)) := by
  have hlt : i.toNat < (tlb c).tlbEntries.length := by rw [(tlb c).count]; exact hi
  have hfind : ((tlb c).tlbEntries.set i.toNat (entryOf h l p)).findSome? (·.translate a) =
      some ((pfnOf l <<< 12) ||| (a &&& offsetMask p)) := by
    rw [findSome?_set hlt fun j entry hj hentry => halone j entry hj hentry a ha]
    exact translate_entryOf hv hk ha
  rw [translateAddress_high hkseg (onPage_lt hk ha), tlb_written c hi, hfind]

theorem add_eq_or_of_aligned (hal : (pfnOf l <<< 12) &&& offsetMask p = 0) :
    (pfnOf l <<< 12) ||| (a &&& offsetMask p) = (pfnOf l <<< 12) + (a &&& offsetMask p) := by
  rw [or_eq_add_iff, BitVec.and_comm a, ← BitVec.and_assoc, hal]
  exact BitVec.zero_and

theorem kseg23_or (hh : 0xC0000000 ≤ h) : ps2IsKseg23Address (h ||| offsetMask p) := by
  rw [ps2IsKseg23Address, decide_eq_true_iff, BitVec.le_def, BitVec.toNat_or]
  exact le_trans (BitVec.le_def.1 hh) Nat.left_le_or

theorem kseg23_of_onPage (hk : ps2IsKseg23Address a) (ha : OnPage h p a) : 0xC0000000 ≤ h := by
  have htop : ∀ x : Word, (x &&& 0xC0000000).toNat = x.toNat - x.toNat % 2 ^ 30 := by
    intro x
    have hsplit := Masks.and_add_and_not (x := x) (0x3FFFFFFF : Word)
    have hlow : (x &&& 0x3FFFFFFF).toNat = x.toNat % 2 ^ 30 := and_low rfl x
    have hnot : (~~~0x3FFFFFFF : Word) = 0xC0000000 := rfl
    rw [hnot, hlow] at hsplit
    omega
  have hmask : ∀ x : Word, x &&& ~~~offsetMask p &&& 0xC0000000 = x &&& 0xC0000000 := by
    intro x
    have hkept : ~~~offsetMask p &&& 0xC0000000 = 0xC0000000 := by
      rw [offsetMask, BitVec.not_or, BitVec.not_and, BitVec.and_or_distrib_right, BitVec.and_or_distrib_right,
        BitVec.and_assoc, BitVec.and_assoc, show (~~~0xFFF &&& 0xC0000000 : Word) = 0xC0000000 from rfl,
        show (~~~0x01FFE000 &&& 0xC0000000 : Word) = 0xC0000000 from rfl]
      apply BitVec.eq_of_getLsbD_eq
      intro k _
      rw [BitVec.getLsbD_or, BitVec.getLsbD_and]
      cases (0xC0000000 : Word).getLsbD k <;> simp
    rw [BitVec.and_assoc, hkept]
  have heq : a &&& 0xC0000000 = h &&& 0xC0000000 := by
    rw [← hmask a, ha, hmask h]
  rw [ps2IsKseg23Address, decide_eq_true_iff, BitVec.le_def] at hk
  have hnat := congrArg BitVec.toNat heq
  rw [htop, htop] at hnat
  rw [BitVec.le_def]
  have hconst : (0xC0000000 : Word).toNat = 0xC0000000 := rfl
  have halt := a.isLt
  omega

theorem frame_eq (hv : l &&& 0x2 ≠ 0) : (pfnOf l <<< 6) ||| 0x2 = l &&& 0x03FFFFC2 := by
  have hmask : ∀ j < 32, (0x03FFFFC2 : Word).getLsbD j =
      ((decide (6 ≤ j) && (0x000FFFFF : Word).getLsbD (j - 6)) || decide (j = 1)) := by decide
  have htwo : ∀ j < 32, (0x2 : Word).getLsbD j = decide (j = 1) := by decide
  have hbit : l.getLsbD 1 = true := by
    by_contra hfalse
    apply hv
    apply BitVec.eq_of_getLsbD_eq
    intro j hj
    rw [BitVec.getLsbD_and, htwo j hj]
    by_cases h1 : j = 1
    · rw [h1, Bool.eq_false_of_not_eq_true hfalse]
      rfl
    · rw [decide_eq_false h1, Bool.and_false]
      exact BitVec.getLsbD_zero.symm
  apply BitVec.eq_of_getLsbD_eq
  intro j hj
  rw [BitVec.getLsbD_or, BitVec.getLsbD_and, BitVec.getLsbD_shiftLeft, pfnOf, BitVec.getLsbD_and,
    BitVec.getLsbD_ushiftRight, hmask j hj, htwo j hj, decide_eq_true hj, Bool.true_and]
  by_cases h6 : j < 6
  · by_cases h1 : j = 1
    · subst h1
      rw [hbit]
      rfl
    · simp [h1, h6, show ¬6 ≤ j by omega]
  · have hsub : 6 + (j - 6) = j := by omega
    simp [h6, show 6 ≤ j by omega, show j ≠ 1 by omega, hsub]

/-- **Entries read back**: with the valid bit set and no other valid entry for an address of the page, an
entry written with `TLBWI` is found by the probe, read back and translated as it was moved to the
registers if and only if the move to `EntryHi` drops no bit of the page number and, for a page of KSEG2
or KSEG3, the page frame is aligned to the page's size. -/
theorem readsBack_iff (c : TlbCtx) (i h l p : Word) (hi : i.toNat < tlbEntryCount) (hv : l &&& 0x2 ≠ 0)
    (halone : Alone (tlb c) i h p) : ReadsBack c i h l p ↔ Meets h l p := by
  have hvpn : ∀ d, (tlb d).tlbEntries = (tlb (written c i h l p)).tlbEntries →
      (tlb (handleTLBR (mtc0 .index i d))).entryHi &&& 0xFFFFF000 = h &&& 0xC0000000 := by
    intro d hd
    rw [(handleTLBR_written hi hd).1, BitVec.and_or_distrib_right, BitVec.and_assoc, BitVec.and_assoc]
    exact (congrArg (· ||| h &&& 0xC0000000) BitVec.and_zero).trans BitVec.zero_or
  have hpfn : ∀ d, (tlb d).tlbEntries = (tlb (written c i h l p)).tlbEntries →
      (tlb (handleTLBR (mtc0 .index i d))).entryLo0 &&& 0x03FFFFC2 = l &&& 0x03FFFFC2 := by
    intro d hd
    rw [(handleTLBR_written hi hd).2.1, if_pos hv, BitVec.or_assoc, frame_eq hv, BitVec.and_or_distrib_right,
      BitVec.and_assoc, BitVec.not_and_self, BitVec.and_assoc, BitVec.and_self]
    exact (congrArg (· ||| l &&& 0x03FFFFC2) BitVec.and_zero).trans BitVec.zero_or
  constructor
  · intro hr
    have hk : droppedBits h = 0 := by
      rw [← pageNumber_iff, ← hvpn _ rfl]
      exact hr.vpn _ rfl
    refine ⟨hk, fun hh => ?_⟩
    have htranslate := hr.translate _ (kseg23_or hh) onPage_or
    rw [translate_written hv hi halone hk (kseg23_or hh) onPage_or] at htranslate
    have hlast : (h ||| offsetMask p) &&& offsetMask p = offsetMask p := by
      rw [BitVec.and_comm]
      apply BitVec.eq_of_getLsbD_eq
      intro k _
      rw [BitVec.getLsbD_and, BitVec.getLsbD_or]
      cases (offsetMask p).getLsbD k <;> simp
    rw [hlast] at htranslate
    exact (or_eq_add_iff _ _).1 (Except.ok.inj htranslate)
  · intro hm
    refine ⟨fun d hd => probe_written hv hi halone hm.kept hd, fun d hd => ?_, hpfn,
      fun d hd => (handleTLBR_written hi hd).2.2, fun a hk ha => ?_⟩
    · rw [hvpn d hd]
      exact pageNumber_iff.2 hm.kept
    · rw [translate_written hv hi halone hm.kept hk ha]
      rw [add_eq_or_of_aligned (hm.aligned (kseg23_of_onPage hk ha))]

/-- A table without a valid entry. -/
def emptyCtx : TlbCtx where
  r := fun _ => 0
  sys := {
    pc := 0, inDelaySlot := false, branchPc := 0, fcr31 := 0, vu0Status := 0, llbit := 0, lladdr := 0
    rest := {
      cop0 := {}, raised := 0, f := fun _ => 0, vu0Vf := fun _ => 0
      mem := { tlbEntries := List.replicate tlbEntryCount ⟨0, 0, 0, false⟩, count := List.length_replicate } } }

theorem alone_empty (i h p : Word) : Alone (tlb emptyCtx) i h p := by
  intro j entry _ hentry a _
  have hmem := List.mem_of_getElem? hentry
  have hinvalid : entry = ⟨0, 0, 0, false⟩ := List.eq_of_mem_replicate hmem
  rw [hinvalid]
  rfl

/-- The first page of KSEG2. -/
theorem kseg2_readsBack : ReadsBack emptyCtx 5 0xC0000000 0x42 0 :=
  (readsBack_iff emptyCtx 5 0xC0000000 0x42 0 (by decide) (by decide) (alone_empty _ _ _)).2
    ⟨by decide, fun _ => by decide⟩

/-- **The page after it** is written as the first: `TLBR` does not restore its number, and its own
address misses. -/
theorem second_page_lost :
    (tlb (handleTLBR (written emptyCtx 5 0xC0001000 0x42 0))).entryHi = 0xC0000000 ∧
      translateAddress (tlb (written emptyCtx 5 0xC0001000 0x42 0)).tlbEntries 0xC0001000 =
        .error (.tlbMiss 0xC0001000) ∧
      ¬ReadsBack emptyCtx 5 0xC0001000 0x42 0 := by
  refine ⟨by decide +kernel, by decide +kernel, fun hr => ?_⟩
  have hvpn := hr.vpn (written emptyCtx 5 0xC0001000 0x42 0) rfl
  exact absurd hvpn (by decide +kernel)

end Ps2Recomp.TlbCtx
