import Ps2Recomp.Lib.Words
import Ps2Recomp.Spec.GuestHeap

/-!
# The block list of the guest heap

The blocks tile the heap, and no two neighbours are free (`Heap.WF`). Cutting a block out of a free one
(`allocate_cases`), merging (`coalesce_wf`) and giving a block back (`freeBlock_spec`) keep it so. Each
is described by what it does to the set of the blocks that are not free.
-/

namespace Ps2Recomp.GuestHeap

open Tiling

variable {h h' : Heap} {l p q : List GuestHeapBlock} {block b : GuestHeapBlock} {a e : ℕ}
  {size alignment allocSize addr : Word} {st : BitVec 64}

/-! ### Numbers -/

theorem normalize_spec (alignment : Word) :
    ∃ k, (normalizeGuestHeapAlignment alignment).toNat = 2 ^ k ∧ 4 ≤ k ∧ k < 32 := by
  rw [normalizeGuestHeapAlignment]
  split
  · exact ⟨4, rfl, by omega, by omega⟩
  · next hv =>
    rw [Bool.not_eq_true', Bool.not_eq_false, isGuestHeapAlignmentValid, Bool.and_eq_true, bne_iff_ne, beq_iff_eq] at hv
    obtain ⟨hne, hand⟩ := hv
    have hne' : alignment.toNat ≠ 0 := fun h => hne (BitVec.eq_of_toNat_eq h)
    have hsub : (alignment - 1).toNat = alignment.toNat - 1 := by
      have hone : (1 : Word).toNat = 1 := rfl
      rw [BitVec.toNat_sub_of_le, hone]
      rw [BitVec.le_def, hone]
      omega
    have hzero : alignment.toNat &&& (alignment.toNat - 1) = 0 := by
      rw [← hsub, ← BitVec.toNat_and, hand]
      rfl
    obtain ⟨k, hk⟩ := (Nat.and_sub_one_eq_zero_iff_isPowerOfTwo hne').1 hzero
    have hlt : k < 32 := by
      refine (Nat.pow_lt_pow_iff_right (by omega : 1 < 2)).1 ?_
      rw [← hk]
      exact alignment.isLt
    rw [stdMax]
    split
    · exact ⟨4, rfl, by omega, by omega⟩
    · next hge =>
      refine ⟨k, hk, ?_, hlt⟩
      rw [BitVec.lt_def, hk] at hge
      have h16 : kGuestHeapDefaultAlignment.toNat = 2 ^ 4 := rfl
      rw [h16] at hge
      exact (Nat.pow_le_pow_iff_right (by omega : 1 < 2)).1 (by omega)

theorem normalize_normalize (alignment : Word) :
    normalizeGuestHeapAlignment (normalizeGuestHeapAlignment alignment) = normalizeGuestHeapAlignment alignment := by
  obtain ⟨k, hk, hk4, -⟩ := normalize_spec alignment
  generalize normalizeGuestHeapAlignment alignment = v at hk
  have hzero : v &&& (v - 1) = 0 := by
    apply BitVec.eq_of_toNat_eq
    rw [Masks.toNat_and_low hk, Nat.mod_self]
    rfl
  have h16 : kGuestHeapDefaultAlignment.toNat = 2 ^ 4 := rfl
  have hle : 2 ^ 4 ≤ 2 ^ k := Nat.pow_le_pow_right (by omega) hk4
  have hne : v ≠ 0 := by
    rintro rfl
    have : (0 : Word).toNat = 0 := rfl
    omega
  have hv : isGuestHeapAlignmentValid v = true := by
    rw [isGuestHeapAlignmentValid, Bool.and_eq_true, bne_iff_ne, beq_iff_eq]
    exact ⟨hne, hzero⟩
  rw [normalizeGuestHeapAlignment, hv, if_neg (by simp), stdMax, if_neg]
  rw [BitVec.lt_def]
  omega

theorem align_spec {v : Word} (hv : v.toNat ≤ 0xFFFFFFF0) :
    v.toNat ≤ (alignGuestHeapValue v kGuestHeapDefaultAlignment).toNat ∧
      (alignGuestHeapValue v kGuestHeapDefaultAlignment).toNat < v.toNat + 16 ∧
      16 ∣ (alignGuestHeapValue v kGuestHeapDefaultAlignment).toNat := by
  have hpow : kGuestHeapDefaultAlignment.toNat = 2 ^ 4 := rfl
  have hmask : (kGuestHeapDefaultAlignment - 1).toNat = 15 := rfl
  have hmax : (0xFFFFFFFF - (kGuestHeapDefaultAlignment - 1) : Word).toNat = 0xFFFFFFF0 := rfl
  have hsum : (v + (kGuestHeapDefaultAlignment - 1)).toNat = v.toNat + 15 := by
    rw [BitVec.toNat_add_of_lt (by rw [hmask]; omega), hmask]
  rw [alignGuestHeapValue, if_neg (by decide)]
  simp only
  rw [if_neg (by rw [BitVec.lt_def, hmax]; omega)]
  refine ⟨?_, ?_, ?_⟩
  · rw [Masks.toNat_and_not_low hpow, hsum, hpow]
    omega
  · rw [Masks.toNat_and_not_low hpow, hsum, hpow]
    omega
  · exact Masks.dvd_and_not_low (a := kGuestHeapDefaultAlignment) hpow

/-! ### Tilings by blocks -/

/-- The blocks fill `[a, e)`. -/
abbrev Filled (a e : ℕ) (l : List GuestHeapBlock) : Prop :=
  Tiles (fun b => b.addr.toNat) (fun b => b.size.toNat) a e l

/-- **No two free blocks are neighbours.** -/
def Apart (l : List GuestHeapBlock) : Prop :=
  (l.map (·.free)).IsChain fun x y => ¬(x = true ∧ y = true)

/-- **The block list is in order.** -/
structure Heap.WF (h : Heap) : Prop where
  filled : Filled h.base.toNat h.limit.toNat h.blocks
  apart : Apart h.blocks
  limit_le : h.limit.toNat ≤ 0x01F00000
  base_pos : h.blocks ≠ [] → 0 < h.base.toNat
  configured : h.configured = true

/-- The blocks that are not free. -/
def Heap.Live (h : Heap) (b : GuestHeapBlock) : Prop := b ∈ h.blocks ∧ b.free = false

theorem blockStart_toNat : block.blockStart.toNat = block.addr.toNat := by
  rw [GuestHeapBlock.blockStart, BitVec.toNat_setWidth]
  have := block.addr.isLt
  exact Nat.mod_eq_of_lt (by omega)

theorem blockEnd_toNat : block.blockEnd.toNat = block.addr.toNat + block.size.toNat := by
  have h1 := block.addr.isLt
  have h2 := block.size.isLt
  have hsize : (block.size.setWidth 64).toNat = block.size.toNat := by
    rw [BitVec.toNat_setWidth]
    exact Nat.mod_eq_of_lt (by omega)
  rw [GuestHeapBlock.blockEnd, BitVec.toNat_add_of_lt, blockStart_toNat, hsize]
  rw [blockStart_toNat, hsize]
  omega

/-! ### Allocation -/

theorem alignedStart_spec (hfit : block.alignedStart allocSize alignment = some st)
    {k : ℕ} (hk : alignment.toNat = 2 ^ k) :
    block.free = true ∧ block.addr.toNat ≤ st.toNat ∧
      st.toNat + allocSize.toNat ≤ block.addr.toNat + block.size.toNat ∧ alignment.toNat ∣ st.toNat := by
  rw [GuestHeapBlock.alignedStart] at hfit
  split at hfit
  · cases hfit
  next hfree =>
  split at hfit
  · cases hfit
  next hsize =>
  simp only at hfit
  split at hfit
  · cases hfit
  next hge =>
  cases hfit
  have h1 := block.addr.isLt
  have h2 := block.size.isLt
  have hwide : ∀ x : Word, (x.setWidth 64).toNat = x.toNat := by
    intro x
    have := x.isLt
    rw [BitVec.toNat_setWidth]
    exact Nat.mod_eq_of_lt (by omega)
  have hpow : (alignment.setWidth 64).toNat = 2 ^ k := by rw [hwide, hk]
  have hle : allocSize.toNat ≤ block.size.toNat := by
    rw [BitVec.lt_def] at hsize
    omega
  have hraw : (block.blockEnd - allocSize.setWidth 64).toNat =
      block.addr.toNat + block.size.toNat - allocSize.toNat := by
    rw [BitVec.toNat_sub_of_le, blockEnd_toNat, hwide]
    rw [BitVec.le_def, blockEnd_toNat, hwide]
    omega
  have hdvd := Masks.dvd_and_not_low (x := block.blockEnd - allocSize.setWidth 64) hpow
  have hval := Masks.toNat_and_not_low (x := block.blockEnd - allocSize.setWidth 64) hpow
  rw [hpow, ← hk] at hdvd
  rw [BitVec.lt_def, blockStart_toNat, Nat.not_lt] at hge
  refine ⟨by simpa using hfree, hge, ?_, hdvd⟩
  rw [hval, hraw]
  omega

theorem allocateFrom_cases {l' : List GuestHeapBlock} (hr : allocateFrom allocSize alignment l = some (l', st)) :
    ∃ p block q, l = p ++ block :: q ∧ block.alignedStart allocSize alignment = some st ∧
      l' = p ++ (block.replacement st allocSize ++ q) := by
  induction l generalizing l' with
  | nil => cases hr
  | cons x l ih =>
    rw [allocateFrom] at hr
    split at hr
    · next st hst =>
      cases hr
      exact ⟨[], x, l, rfl, hst, rfl⟩
    · rw [Option.map_eq_some_iff] at hr
      obtain ⟨⟨l1, st1⟩, hr', heq⟩ := hr
      obtain ⟨rfl, rfl⟩ := Prod.mk.inj heq
      obtain ⟨p, block, q, rfl, hst, hl1⟩ := ih hr'
      exact ⟨x :: p, block, q, rfl, hst, congrArg (x :: ·) hl1⟩

theorem apart_iff_of_used (hb : block.free = false) : Apart (p ++ block :: q) ↔ Apart p ∧ Apart q := by
  simp only [Apart, List.map_append, List.map_cons, hb]
  rw [List.isChain_append, List.isChain_cons]
  constructor
  · rintro ⟨h1, ⟨-, h2⟩, -⟩
    exact ⟨h1, h2⟩
  · rintro ⟨h1, h2⟩
    refine ⟨h1, ⟨fun y _ => by simp, h2⟩, fun x _ y hy => ?_⟩
    cases hy
    simp

theorem Apart.left (hl : Apart (p ++ q)) : Apart p := by
  rw [Apart, List.map_append] at hl
  exact hl.left_of_append

theorem Apart.right (hl : Apart (p ++ q)) : Apart q := by
  rw [Apart, List.map_append] at hl
  exact hl.right_of_append

theorem Apart.congr (hl : Apart l) (hpq : p.map (·.free) = l.map (·.free)) : Apart p := by
  rw [Apart, hpq]
  exact hl

/-- What is cut off a free block, if anything: one free block. -/
def Rest (a e : ℕ) (l : List GuestHeapBlock) : Prop :=
  Filled a e l ∧ (l = [] ∨ l.map (·.free) = [true])

theorem rest_of {x n : Word} (hx : x.toNat = a) (hn : n.toNat = e - a) (hle : a ≤ e) :
    Rest a e (if 0 < n then [⟨x, n, true⟩] else []) := by
  have hzero : (0 : Word).toNat = 0 := rfl
  split
  · next hpos =>
    rw [BitVec.lt_def, hzero] at hpos
    refine ⟨⟨hx, hpos, ?_⟩, .inr rfl⟩
    simp only [Tiles]
    omega
  · next hpos =>
    rw [BitVec.lt_def, hzero] at hpos
    refine ⟨?_, .inl rfl⟩
    simp only [Tiles]
    omega

/-- **A block is cut out of a free one.** -/
theorem replacement_spec (hlo : block.addr.toNat ≤ st.toNat)
    (hhi : st.toNat + allocSize.toNat ≤ block.addr.toNat + block.size.toNat)
    (hlt : block.addr.toNat + block.size.toNat < 2 ^ 32) :
    ∃ pre suf, block.replacement st allocSize = pre ++ ⟨st.setWidth 32, allocSize, false⟩ :: suf ∧
      Rest block.addr.toNat st.toNat pre ∧
      Rest (st.toNat + allocSize.toNat) (block.addr.toNat + block.size.toNat) suf := by
  have hallocEnd : (st + allocSize.setWidth 64).toNat = st.toNat + allocSize.toNat := by
    have hw : (allocSize.setWidth 64).toNat = allocSize.toNat := by
      rw [BitVec.toNat_setWidth]
      exact Nat.mod_eq_of_lt (by omega)
    rw [BitVec.toNat_add_of_lt (by omega), hw]
  have hpre : ((st - block.blockStart).setWidth 32 : Word).toNat = st.toNat - block.addr.toNat := by
    rw [BitVec.toNat_setWidth, BitVec.toNat_sub_of_le, blockStart_toNat]
    · exact Nat.mod_eq_of_lt (by omega)
    · rw [BitVec.le_def, blockStart_toNat]
      exact hlo
  have hsuf : ((block.blockEnd - (st + allocSize.setWidth 64)).setWidth 32 : Word).toNat =
      block.addr.toNat + block.size.toNat - (st.toNat + allocSize.toNat) := by
    rw [BitVec.toNat_setWidth, BitVec.toNat_sub_of_le, blockEnd_toNat, hallocEnd]
    · exact Nat.mod_eq_of_lt (by omega)
    · rw [BitVec.le_def, blockEnd_toNat, hallocEnd]
      exact hhi
  refine ⟨_, _, rfl, rest_of rfl hpre hlo, rest_of ?_ hsuf hhi⟩
  rw [BitVec.toNat_setWidth, hallocEnd]
  exact Nat.mod_eq_of_lt (by omega)

theorem Rest.free (hr : Rest a e l) (hb : b ∈ l) : b.free = true := by
  obtain ⟨-, rfl | hmap⟩ := hr
  · cases hb
  · have hmem : b.free ∈ l.map (·.free) := List.mem_map_of_mem hb
    rw [hmap] at hmem
    simpa using hmem

section

variable (hr : Rest a e l) (hb : block.free = true) (hp : Apart (p ++ block :: q))

include hr hb hp

theorem Rest.apart_before : Apart (p ++ l) := by
  obtain ⟨-, rfl | hmap⟩ := hr
  · rw [List.append_nil]
    exact hp.left
  · have hp' : Apart (p ++ [block]) := by
      have : p ++ block :: q = (p ++ [block]) ++ q := by simp
      rw [this] at hp
      exact hp.left
    exact hp'.congr (by simp [hmap, hb])

theorem Rest.apart_after : Apart (l ++ q) := by
  obtain ⟨-, rfl | hmap⟩ := hr
  · have : p ++ block :: q = (p ++ [block]) ++ q := by simp
    rw [this] at hp
    exact hp.right
  · exact hp.right.congr (by simp [hmap, hb])

end

/-- **The list after a block is cut out of a free one.** -/
structure Cut (a e : ℕ) (l : List GuestHeapBlock) (new : GuestHeapBlock) (l' : List GuestHeapBlock) :
    Prop where
  filled : Filled a e l'
  apart : Apart l'
  fresh : new ∉ l
  live : ∀ x, x ∈ l' ∧ x.free = false ↔ x = new ∨ x ∈ l ∧ x.free = false

theorem cut_spec (hfilled : Filled a e (p ++ block :: q)) (hapart : Apart (p ++ block :: q)) (he : e < 2 ^ 32)
    (hfree : block.free = true) (hlo : block.addr.toNat ≤ st.toNat)
    (hhi : st.toNat + allocSize.toNat ≤ block.addr.toNat + block.size.toNat) (hpos : 0 < allocSize.toNat) :
    Cut a e (p ++ block :: q) ⟨st.setWidth 32, allocSize, false⟩ (p ++ (block.replacement st allocSize ++ q)) := by
  have hmem : block ∈ p ++ block :: q := by simp
  have hin := hfilled.mem hmem
  obtain ⟨pre, suf, hrep, hpre, hsuf⟩ := replacement_spec hlo hhi (by omega)
  set new : GuestHeapBlock := ⟨st.setWidth 32, allocSize, false⟩ with hnew
  have haddr : (st.setWidth 32 : Word).toNat = st.toNat := by
    rw [BitVec.toNat_setWidth]
    exact Nat.mod_eq_of_lt (by omega)
  have hl' : p ++ (block.replacement st allocSize ++ q) = (p ++ pre) ++ new :: (suf ++ q) := by
    rw [hrep]
    simp
  rw [hl']
  refine ⟨?_, ?_, ?_, fun x => ?_⟩
  · obtain ⟨m, h1, hb, -, h2⟩ := tiles_append.1 hfilled
    simp only at hb h2
    subst hb
    refine tiles_append.2 ⟨st.toNat, tiles_append.2 ⟨_, h1, hpre.1⟩, haddr, hpos, ?_⟩
    exact tiles_append.2 ⟨_, hsuf.1, h2⟩
  · rw [apart_iff_of_used rfl]
    exact ⟨hpre.apart_before hfree hapart, hsuf.apart_after hfree hapart⟩
  · intro hx
    -- it would overlap the free block that it is cut out of
    have hne : new ≠ block := by
      intro heq
      have hf : new.free = block.free := congrArg _ heq
      rw [hfree] at hf
      cases hf
    have := hfilled.apart hx hmem hne
    simp only [hnew, haddr] at this
    omega
  · simp only [List.mem_append, List.mem_cons]
    constructor
    · rintro ⟨(hx | hx) | hx | hx | hx, hf⟩
      · exact .inr ⟨.inl hx, hf⟩
      · rw [hpre.free hx] at hf
        cases hf
      · exact .inl hx
      · rw [hsuf.free hx] at hf
        cases hf
      · exact .inr ⟨.inr (.inr hx), hf⟩
    · rintro (rfl | ⟨hx | hx | hx, hf⟩)
      · exact ⟨.inr (.inl rfl), rfl⟩
      · exact ⟨.inl (.inl hx), hf⟩
      · rw [hx, hfree] at hf
        cases hf
      · exact ⟨.inr (.inr (.inr hx)), hf⟩

/-- **What an allocation does**: it makes one more block that is not free. -/
structure Allocated (h : Heap) (size alignment : Word) (h' : Heap) (addr : Word) : Prop where
  wf : h'.WF
  base : h'.base = h.base
  limit : h'.limit = h.limit
  pos : 0 < addr.toNat
  aligned : (normalizeGuestHeapAlignment alignment).toNat ∣ addr.toNat
  live : ∃ b, b.addr = addr ∧ size.toNat ≤ b.size.toNat ∧ ¬h.Live b ∧ ∀ x, h'.Live x ↔ x = b ∨ h.Live x

theorem allocate_cases (hwf : h.WF) (size alignment : Word) : h.allocate size alignment = (h, 0) ∨
    Allocated h size alignment (h.allocate size alignment).1 (h.allocate size alignment).2 := by
  rw [Heap.allocate]
  split
  · exact .inl rfl
  next hsize =>
  split
  · exact .inl rfl
  next hmax =>
  simp only
  split
  · exact .inl rfl
  split
  · exact .inl rfl
  next blocks st hr =>
  right
  obtain ⟨p, block, q, hl, hst, rfl⟩ := allocateFrom_cases hr
  obtain ⟨k, hk, -⟩ := normalize_spec alignment
  obtain ⟨hfree, hlo, hhi, hdvd⟩ := alignedStart_spec hst hk
  have hsize' : size.toNat ≤ 0xFFFFFFF0 := by
    rw [BitVec.lt_def] at hmax
    have hval : (0xFFFFFFFF - (kGuestHeapDefaultAlignment - 1) : Word).toNat = 0xFFFFFFF0 := rfl
    omega
  have hge := (align_spec hsize').1
  have hpos : size.toNat ≠ 0 := fun h => hsize (BitVec.eq_of_toNat_eq h)
  have hlim := hwf.limit_le
  have hbase : 0 < h.base.toNat := hwf.base_pos (by rw [hl]; simp)
  have hfilled := hwf.filled
  have hapart := hwf.apart
  rw [hl] at hfilled hapart
  have hcut := cut_spec hfilled hapart (by omega) hfree hlo hhi (by omega)
  have hin := hfilled.mem (x := block) (by simp)
  have haddr : (st.setWidth 32 : Word).toNat = st.toNat := by
    rw [BitVec.toNat_setWidth]
    exact Nat.mod_eq_of_lt (by omega)
  refine ⟨⟨hcut.filled, hcut.apart, hlim, fun _ => hbase, hwf.configured⟩, rfl, rfl, ?_, ?_,
    ⟨st.setWidth 32, alignGuestHeapValue size kGuestHeapDefaultAlignment, false⟩, rfl, hge, ?_, ?_⟩
  · rw [haddr]
    omega
  · rw [haddr]
    exact hdvd
  · rintro ⟨hx, -⟩
    rw [hl] at hx
    exact hcut.fresh hx
  · intro x
    rw [Heap.Live, Heap.Live, hl]
    exact hcut.live x

/-! ### Merging -/

/-- **The list after a pass of `coalesceGuestHeapLocked`.** -/
theorem coalesce_spec (hf : Filled a e l) (he : e < 2 ^ 32) : Filled a e (coalesceGuestHeap l) ∧
    Apart (coalesceGuestHeap l) ∧ ∀ x, x ∈ coalesceGuestHeap l ∧ x.free = false ↔ x ∈ l ∧ x.free = false := by
  have hfilled : Filled a e (coalesceGuestHeap l) := by
    refine hf.coalesce fun x y _ hle => ⟨rfl, ?_⟩
    exact BitVec.toNat_add_of_lt (by omega)
  refine ⟨hfilled, ?_, fun x => ?_⟩
  · have hm : ∀ x y z, mergeable x y = true → mergeable z (merge x y) = mergeable z x :=
      fun _ _ _ _ => rfl
    have hchain : (coalesceGuestHeap l).IsChain fun x y => mergeable x y = false := coalesce_isChain hm l
    rw [Apart, List.isChain_map]
    refine hfilled.isChain hchain fun x y hxy htouch => ?_
    rintro ⟨hx, hy⟩
    have heq : x.blockEnd = y.blockStart := by
      apply BitVec.eq_of_toNat_eq
      rw [blockEnd_toNat, blockStart_toNat]
      exact htouch
    simp [mergeable, hx, hy, heq] at hxy
  · have hfilter : (coalesceGuestHeap l).filter (!·.free) = l.filter (!·.free) := by
      refine filter_coalesce (fun x y hxy => ?_) l
      rw [mergeable, Bool.and_eq_true, Bool.and_eq_true] at hxy
      simp [hxy.1.1, hxy.1.2, merge]
    have hmem : ∀ l : List GuestHeapBlock, x ∈ l ∧ x.free = false ↔ x ∈ l.filter (!·.free) := by
      intro l
      simp
    rw [hmem, hmem, hfilter]

/-! ### Blocks by their addresses -/

theorem find_some {r : List GuestHeapBlock × GuestHeapBlock × List GuestHeapBlock}
    (hr : findGuestHeapBlock addr l = some r) :
    l = r.1 ++ r.2.1 :: r.2.2 ∧ r.2.1.free = false ∧ r.2.1.addr = addr &&& ramMask := by
  induction l generalizing r with
  | nil => cases hr
  | cons x l ih =>
    rw [findGuestHeapBlock] at hr
    split at hr
    · next hx =>
      cases hr
      rw [Bool.and_eq_true, Bool.not_eq_true', beq_iff_eq] at hx
      exact ⟨rfl, hx⟩
    · rw [Option.map_eq_some_iff] at hr
      obtain ⟨r', hr', rfl⟩ := hr
      obtain ⟨h1, h2⟩ := ih hr'
      exact ⟨congrArg (x :: ·) h1, h2⟩

theorem find_none (hr : findGuestHeapBlock addr l = none) (hb : b ∈ l) (hfree : b.free = false) :
    b.addr ≠ addr &&& ramMask := by
  induction l with
  | nil => cases hb
  | cons x l ih =>
    rw [findGuestHeapBlock] at hr
    split at hr
    · cases hr
    · next hx =>
      rw [Option.map_eq_none_iff] at hr
      rcases List.mem_cons.1 hb with rfl | hb
      · intro heq
        simp [hfree, heq] at hx
      · exact ih hr hb

theorem mem_iff_of_filled (hf : Filled a e (p ++ block :: q)) {x : GuestHeapBlock} :
    x ∈ p ++ q ↔ x ∈ p ++ block :: q ∧ x.addr ≠ block.addr := by
  constructor
  · intro hx
    have hmem : x ∈ p ++ block :: q := by
      simp only [List.mem_append, List.mem_cons] at hx ⊢
      tauto
    refine ⟨hmem, fun heq => ?_⟩
    obtain rfl : x = block := hf.inj hmem (by simp) (congrArg BitVec.toNat heq)
    obtain ⟨m, h1, hm, hpos, h2⟩ := tiles_append.1 hf
    rcases List.mem_append.1 hx with hx | hx
    · have := (h1.mem hx).2.2
      have := hpos
      simp only at hm this
      omega
    · have := (h2.mem hx).1
      simp only at hm this hpos
      omega
  · rintro ⟨hx, hne⟩
    simp only [List.mem_append, List.mem_cons] at hx ⊢
    rcases hx with hx | rfl | hx
    · exact .inl hx
    · exact absurd rfl hne
    · exact .inr hx

/-- **What giving back a block does**: there is one block less that is not free. -/
structure Freed (h : Heap) (addr : Word) (h' : Heap) : Prop where
  wf : h'.WF
  base : h'.base = h.base
  limit : h'.limit = h.limit
  live : ∀ x, h'.Live x ↔ h.Live x ∧ x.addr ≠ addr &&& ramMask

theorem freeBlock_spec (hwf : h.WF) (addr : Word) : Freed h addr (h.freeBlock addr) := by
  rw [Heap.freeBlock]
  split
  · next hr =>
    refine ⟨hwf, rfl, rfl, fun x => ⟨fun hx => ⟨hx, find_none hr hx.1 hx.2⟩, fun hx => hx.1⟩⟩
  · next before block after hr =>
    obtain ⟨hl, hfree, haddr⟩ := find_some hr
    have hlim := hwf.limit_le
    have hfilled := hwf.filled
    rw [hl] at hfilled
    have hfilled' : Filled h.base.toNat h.limit.toNat (before ++ { block with free := true } :: after) := by
      obtain ⟨m, h1, h2⟩ := tiles_append.1 hfilled
      exact tiles_append.2 ⟨m, h1, h2⟩
    obtain ⟨h1, h2, h3⟩ := coalesce_spec hfilled' (by omega)
    refine ⟨⟨h1, h2, hlim, fun _ => hwf.base_pos (by rw [hl]; simp), hwf.configured⟩, rfl, rfl,
      fun x => (h3 x).trans ?_⟩
    rw [Heap.Live, hl, ← haddr, and_right_comm, ← mem_iff_of_filled hfilled]
    simp only [List.mem_append, List.mem_cons]
    constructor
    · rintro ⟨hx | hx | hx, hf⟩
      · exact ⟨.inl hx, hf⟩
      · rw [hx] at hf
        cases hf
      · exact ⟨.inr hx, hf⟩
    · rintro ⟨hx | hx, hf⟩
      · exact ⟨.inl hx, hf⟩
      · exact ⟨.inr (.inr hx), hf⟩

end Ps2Recomp.GuestHeap
