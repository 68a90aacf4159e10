import Ps2Recomp.Lib.Words
import Ps2Recomp.Spec.IopHeap

/-!
# The IOP heap hands out disjoint blocks

The map has the blocks that have been handed out, sorted and apart (`Inv`). Where no sum wraps, the scan over it is
`Spans.firstFit` (`scan_eq`), so what it finds is apart from all blocks, and it finds something if there is anything.
-/

namespace Ps2Recomp.IopHeap

open Spans (Span Sorted firstFit)

variable {h : Heap} {size aligned : Word} {l : List (Word × Word)}

/-! ### Rounding -/

theorem toNat_align : (alignIopHeapSize size).toNat = if roundUp size < 2 ^ 32 then roundUp size else 0 := by
  have hpow : kIopHeapAlign.toNat = 2 ^ 6 := rfl
  have hmask : (kIopHeapAlign - 1).toNat = 63 := rfl
  have hsize := size.isLt
  rw [alignIopHeapSize, Masks.toNat_and_not_low hpow, hpow, roundUp]
  split
  · rw [BitVec.toNat_add_of_lt (by rw [hmask]; omega), hmask]
    omega
  · rw [BitVec.toNat_add, hmask]
    omega

theorem dvd_align : 64 ∣ (alignIopHeapSize size).toNat := by
  rw [toNat_align, roundUp]
  split
  · exact Nat.dvd_mul_left _ _
  · exact Nat.dvd_zero _

theorem le_align (hne : alignIopHeapSize size ≠ 0) : size.toNat ≤ (alignIopHeapSize size).toNat := by
  have hpos : (alignIopHeapSize size).toNat ≠ 0 := fun hzero => hne (BitVec.eq_of_toNat_eq hzero)
  rw [toNat_align, roundUp] at hpos ⊢
  split
  · omega
  next hnot => exact absurd (if_neg hnot) hpos

theorem align_of_dvd (hdvd : 64 ∣ size.toNat) : alignIopHeapSize size = size := by
  have hsize := size.isLt
  apply BitVec.eq_of_toNat_eq
  rw [toNat_align, roundUp]
  split <;> omega

/-! ### The map -/

def span (e : Word × Word) : Span := ⟨e.1.toNat, e.2.toNat⟩

/-- An entry of the map: aligned, not empty and inside the heap. -/
structure Good (e : Word × Word) : Prop where
  start : 64 ∣ e.1.toNat
  len : 64 ∣ e.2.toNat
  pos : 0 < e.2.toNat
  base : kIopHeapBase.toNat ≤ e.1.toNat
  limit : e.1.toNat + e.2.toNat ≤ kIopHeapLimit.toNat

/-- **The map has the blocks that have been handed out**, sorted and apart. -/
structure Inv (h : Heap) : Prop where
  perm : (h.handedOut.map fun b => (b.addr, b.size)).Perm h.state.allocations
  sorted : Sorted (h.state.allocations.map span)
  good : ∀ e ∈ h.state.allocations, Good e
  large : ∀ b ∈ h.handedOut, b.requested.toNat ≤ b.size.toNat

/-- Where no sum wraps, the scan is `firstFit`. -/
theorem scan_eq {candidate : Word} {bound : ℕ} (hgood : ∀ e ∈ l, Good e) (hc : candidate.toNat ≤ bound)
    (hbound : ∀ e ∈ l, (span e).stop ≤ bound) (hsum : bound + aligned.toNat < 2 ^ 32) :
    (scan aligned candidate l).toNat = firstFit aligned.toNat candidate.toNat (l.map span) := by
  induction l generalizing candidate with
  | nil => rfl
  | cons e rest ih =>
    obtain ⟨addr, len⟩ := e
    have he : Good (addr, len) := hgood _ List.mem_cons_self
    have hstop : addr.toNat + len.toNat ≤ bound := hbound _ List.mem_cons_self
    have hend : (addr + len).toNat = addr.toNat + len.toNat := BitVec.toNat_add_of_lt (by omega)
    have hcand : (candidate + aligned).toNat = candidate.toNat + aligned.toNat := BitVec.toNat_add_of_lt (by omega)
    have hblock : alignIopHeapSize (addr + len) = addr + len :=
      align_of_dvd (by rw [hend]; exact Nat.dvd_add he.start he.len)
    have hrest : ∀ e ∈ rest, Good e := fun e he => hgood e (List.mem_cons_of_mem _ he)
    have hbound' : ∀ e ∈ rest, (span e).stop ≤ bound := fun e he => hbound e (List.mem_cons_of_mem _ he)
    rw [scan, List.map_cons, firstFit]
    have hfits : candidate + aligned ≤ addr ↔ candidate.toNat + aligned.toNat ≤ (span (addr, len)).start := by
      rw [BitVec.le_def, hcand]
      rfl
    by_cases hle : candidate + aligned ≤ addr
    · rw [if_pos hle, if_pos (hfits.1 hle)]
    · rw [if_neg hle, if_neg (mt hfits.2 hle), hblock]
      dsimp only
      have hmax : (if candidate < addr + len then addr + len else candidate).toNat =
          max candidate.toNat (span (addr, len)).stop := by
        have hspan : (span (addr, len)).stop = (addr + len).toNat := hend.symm
        rw [hspan]
        split
        next hlt =>
          rw [BitVec.lt_def] at hlt
          omega
        next hnot =>
          rw [BitVec.lt_def] at hnot
          omega
      rw [← hmax]
      refine ih hrest ?_ hbound'
      rw [hmax]
      exact max_le hc hstop

theorem insertBlock_spec {addr len : Word} (hsorted : Sorted (l.map span)) (hpos : ∀ e ∈ l, 0 < e.2.toNat)
    (hlen : 0 < len.toNat) (hapart : ∀ e ∈ l, Span.Apart (span (addr, len)) (span e)) :
    Sorted ((insertBlock addr len l).map span) ∧ (insertBlock addr len l).Perm ((addr, len) :: l) := by
  induction l with
  | nil => exact ⟨List.pairwise_singleton _ _, List.Perm.refl _⟩
  | cons e rest ih =>
    rw [List.map_cons] at hsorted
    obtain ⟨hfirst, hrest⟩ := List.pairwise_cons.1 hsorted
    have hepos : 0 < e.2.toNat := hpos e List.mem_cons_self
    have hapartE : addr.toNat + len.toNat ≤ e.1.toNat ∨ e.1.toNat + e.2.toNat ≤ addr.toNat := hapart e List.mem_cons_self
    rw [insertBlock]
    split
    next hlt =>
      rw [BitVec.lt_def] at hlt
      refine ⟨List.pairwise_cons.2 ⟨fun s hs => ?_, hsorted⟩, List.Perm.refl _⟩
      have hstop : (span (addr, len)).stop ≤ e.1.toNat := hapartE.resolve_right (by omega)
      rcases List.mem_cons.1 hs with rfl | hs
      · exact hstop
      · have hbehind : (span e).stop ≤ s.start := hfirst s hs
        have hself : e.1.toNat ≤ (span e).stop := Nat.le_add_right _ _
        exact le_trans hstop (le_trans hself hbehind)
    next hnot =>
      rw [BitVec.lt_def] at hnot
      have hbehind : e.1.toNat + e.2.toNat ≤ addr.toNat := hapartE.resolve_left (by omega)
      have hne : addr ≠ e.1 := by
        rintro rfl
        omega
      rw [if_neg hne]
      obtain ⟨hsorted', hperm⟩ := ih hrest (fun e he => hpos e (List.mem_cons_of_mem _ he))
        fun e he => hapart e (List.mem_cons_of_mem _ he)
      refine ⟨List.pairwise_cons.2 ⟨fun s hs => ?_, hsorted'⟩, (hperm.cons e).trans (List.Perm.swap _ _ _)⟩
      obtain ⟨e', he', rfl⟩ := List.mem_map.1 hs
      rcases List.mem_cons.1 (hperm.mem_iff.1 he') with rfl | he'
      · exact hbehind
      · exact hfirst _ (List.mem_map_of_mem he')

/-! ### Calls -/

theorem le_stop {b : Block} (hb : b ∈ h.handedOut) : b.span.stop ≤ h.stop := by
  rw [Heap.stop]
  generalize h.handedOut = l at hb
  induction l with
  | nil => exact absurd hb List.not_mem_nil
  | cons b' l ih =>
    rw [List.foldr_cons]
    rcases List.mem_cons.1 hb with rfl | hb
    · exact le_max_left _ _
    · exact le_trans (ih hb) (le_max_right _ _)

theorem base_le_stop : kIopHeapBase.toNat ≤ h.stop := by
  rw [Heap.stop]
  induction h.handedOut with
  | nil => exact le_rfl
  | cons b l ih => exact le_trans ih (le_max_right _ _)

theorem Inv.mem_iff (hi : Inv h) (e : Word × Word) :
    e ∈ h.state.allocations ↔ ∃ b ∈ h.handedOut, (b.addr, b.size) = e := by
  rw [← hi.perm.mem_iff, List.mem_map]

theorem Inv.stop_le (hi : Inv h) {e : Word × Word} (he : e ∈ h.state.allocations) : (span e).stop ≤ h.stop := by
  obtain ⟨b, hb, rfl⟩ := (hi.mem_iff e).1 he
  exact le_stop hb

/-- **The allocator**: it takes a place that is apart from all blocks, or there is none. -/
theorem alloc_spec (hi : Inv h) (hfits : h.Fits (.alloc size)) :
    (allocateSifHeapBlock h.state size = (0, h.state) ∧ ∀ start, ¬h.Gap start (roundUp size)) ∨
      ∃ c, c ≠ 0 ∧ Good (c, alignIopHeapSize size) ∧ size.toNat ≤ (alignIopHeapSize size).toNat ∧
        (∀ e ∈ h.state.allocations, Span.Apart (span (c, alignIopHeapSize size)) (span e)) ∧
        allocateSifHeapBlock h.state size =
          (c, ⟨insertBlock c (alignIopHeapSize size) h.state.allocations, c + alignIopHeapSize size⟩) := by
  have hbase : kIopHeapBase.toNat = 0x01A00000 := rfl
  have hlimit : kIopHeapLimit.toNat = 0x01F00000 := rfl
  have halign : (alignIopHeapSize size).toNat = if roundUp size < 2 ^ 32 then roundUp size else 0 := toNat_align
  rw [allocateSifHeapBlock]
  by_cases hzero : alignIopHeapSize size = 0
  · rw [if_pos hzero]
    refine .inl ⟨rfl, fun start hgap => ?_⟩
    obtain ⟨hpos, -, hend, -⟩ := hgap
    rw [hzero] at halign
    split at halign
    · have : roundUp size = 0 := halign.symm
      omega
    · omega
  rw [if_neg hzero]
  dsimp only
  have hround : (alignIopHeapSize size).toNat = roundUp size := by
    rw [halign]
    refine if_pos (not_le.1 fun hge => hzero (BitVec.eq_of_toNat_eq ?_))
    rw [halign, if_neg (not_lt.2 hge)]
    rfl
  have hlt := (alignIopHeapSize size).isLt
  have hsum : h.stop + (alignIopHeapSize size).toNat < 2 ^ 32 := by
    rcases hfits with hwrap | hsum
    · omega
    · rw [hround]
      exact hsum
  have hscan := scan_eq hi.good (base_le_stop (h := h)) (fun e he => hi.stop_le he) hsum
  have hge : kIopHeapBase.toNat ≤ firstFit (alignIopHeapSize size).toNat kIopHeapBase.toNat
      (h.state.allocations.map span) := Spans.le_firstFit
  have hle : firstFit (alignIopHeapSize size).toNat kIopHeapBase.toNat (h.state.allocations.map span) ≤ h.stop := by
    refine Spans.firstFit_le_of_stops base_le_stop fun s hs => ?_
    obtain ⟨e, he, rfl⟩ := List.mem_map.1 hs
    exact hi.stop_le he
  have hapart : ∀ s ∈ h.state.allocations.map span, Span.Apart
      ⟨firstFit (alignIopHeapSize size).toNat kIopHeapBase.toNat (h.state.allocations.map span),
        (alignIopHeapSize size).toNat⟩ s := Spans.firstFit_apart hi.sorted
  have hdvd : 64 ∣ firstFit (alignIopHeapSize size).toNat kIopHeapBase.toNat (h.state.allocations.map span) := by
    refine Spans.dvd_firstFit (by decide) fun s hs => ?_
    obtain ⟨e, he, rfl⟩ := List.mem_map.1 hs
    exact Nat.dvd_add (hi.good e he).start (hi.good e he).len
  rw [← hscan] at hge hle hapart hdvd
  generalize scan (alignIopHeapSize size) kIopHeapBase h.state.allocations = c at hscan hge hle hapart hdvd ⊢
  have hend : (c + alignIopHeapSize size).toNat = c.toNat + (alignIopHeapSize size).toNat :=
    BitVec.toNat_add_of_lt (by omega)
  by_cases hfail : c < kIopHeapBase ∨ kIopHeapLimit < c + alignIopHeapSize size
  · rw [if_pos hfail]
    refine .inl ⟨rfl, fun start hgap => ?_⟩
    obtain ⟨-, hstart, hstop, hfree⟩ := hgap
    have hfirst : c.toNat ≤ start := by
      rw [hscan]
      refine Spans.firstFit_le hstart fun s hs => ?_
      obtain ⟨e, he, rfl⟩ := List.mem_map.1 hs
      obtain ⟨b, hb, rfl⟩ := (hi.mem_iff e).1 he
      rw [hround]
      exact hfree b hb
    rw [BitVec.lt_def, BitVec.lt_def, hend] at hfail
    omega
  · rw [if_neg hfail]
    rw [not_or, BitVec.lt_def, BitVec.lt_def, hend] at hfail
    have hne : c ≠ 0 := by
      rintro rfl
      rw [hbase] at hge
      exact absurd hge (by decide)
    have hpos : 0 < (alignIopHeapSize size).toNat := Nat.pos_of_ne_zero fun h0 => hzero (BitVec.eq_of_toNat_eq h0)
    exact .inr ⟨c, hne, ⟨hdvd, dvd_align, hpos, hge, not_lt.1 hfail.2⟩, le_align hzero,
      fun e he => hapart _ (List.mem_map_of_mem he), rfl⟩

theorem free_spec (addr : Word) :
    (freeSifHeapBlock h.state addr = (false, h.state) ∧ ∀ e ∈ h.state.allocations, e.1 ≠ addr) ∨
      ∃ next, freeSifHeapBlock h.state addr = (true, ⟨h.state.allocations.filter (·.1 ≠ addr), next⟩) := by
  rw [freeSifHeapBlock]
  split
  · exact .inr ⟨_, rfl⟩
  next hnone =>
    refine .inl ⟨rfl, fun e he heq => hnone (List.any_eq_true.2 ⟨e, he, ?_⟩)⟩
    rw [heq, decide_eq_true rfl]

/-! ### Runs -/

theorem Inv.initial : Inv Heap.initial where
  perm := List.Perm.refl _
  sorted := List.Pairwise.nil
  good _ he := absurd he List.not_mem_nil
  large _ hb := absurd hb List.not_mem_nil

theorem Inv.step (hi : Inv h) (a : Act) (hfits : h.Fits a) : Inv (h.step a).2 := by
  cases a with
  | alloc size =>
    rw [Heap.step]
    rcases alloc_spec hi hfits with ⟨heq, -⟩ | ⟨c, hne, hgood, hlarge, hapart, heq⟩
    · rw [heq]
      exact hi
    · rw [heq]
      dsimp only
      rw [if_neg hne]
      obtain ⟨hsorted, hperm⟩ := insertBlock_spec hi.sorted (fun e he => (hi.good e he).pos) hgood.pos hapart
      refine ⟨(hi.perm.cons _).trans hperm.symm, hsorted, fun e he => ?_, fun b hb => ?_⟩
      · rcases List.mem_cons.1 (hperm.mem_iff.1 he) with rfl | he
        · exact hgood
        · exact hi.good e he
      · rcases List.mem_cons.1 hb with rfl | hb
        · exact hlarge
        · exact hi.large b hb
  | free addr =>
    rw [Heap.step]
    rcases free_spec (h := h) addr with ⟨heq, -⟩ | ⟨next, heq⟩
    · rw [heq]
      exact hi
    · rw [heq]
      dsimp only
      refine ⟨?_, ?_, fun e he => hi.good e (List.mem_of_mem_filter he), fun b hb =>
        hi.large b (List.mem_of_mem_filter hb)⟩
      · have hfilter := hi.perm.filter (fun e => decide (e.1 ≠ addr))
        rw [List.filter_map] at hfilter
        exact hfilter
      · exact hi.sorted.sublist ((List.filter_sublist).map _)
  | init => exact Inv.initial

theorem inv_of_reach (hr : Reach h) : Inv h := by
  induction hr with
  | initial => exact Inv.initial
  | step a hr hfits ih => exact ih.step a hfits

theorem Inv.sound (hi : Inv h) : h.Sound := by
  have hmem : ∀ b ∈ h.handedOut, Good (b.addr, b.size) := fun b hb => hi.good _ ((hi.mem_iff _).2 ⟨b, hb, rfl⟩)
  refine ⟨?_, fun b hb => (hmem b hb).start, hi.large, fun b hb => (hmem b hb).base, fun b hb => (hmem b hb).limit⟩
  have hspans : (h.handedOut.map (·.span)).Perm (h.state.allocations.map span) := by
    have hmap := hi.perm.map span
    rw [List.map_map] at hmap
    exact hmap
  exact (hspans.pairwise_iff fun h => Span.Apart.symm h).2 hi.sorted.apart

/-- **The IOP heap hands out disjoint blocks**, and only fails where there is nothing, in every run in which no size
comes up to the end of the address space from the last block. -/
theorem sound_of_reach (hr : Reach h) : h.Sound ∧ ∀ a, h.Fits a → h.Proper a := by
  have hi := inv_of_reach hr
  refine ⟨hi.sound, fun a hfits => ?_⟩
  cases a with
  | alloc size =>
    intro hzero
    rcases alloc_spec hi hfits with ⟨heq, hgap⟩ | ⟨c, hne, -, -, -, heq⟩
    · refine ⟨?_, hgap⟩
      rw [Heap.step, heq]
      rfl
    · rw [Heap.step, heq] at hzero
      exact absurd hzero hne
  | free addr =>
    intro hfail
    rcases free_spec (h := h) addr with ⟨heq, hnone⟩ | ⟨next, heq⟩
    · refine ⟨?_, fun b hb => hnone _ ((hi.mem_iff _).2 ⟨b, hb, rfl⟩)⟩
      rw [Heap.step, heq]
      rfl
    · rw [Heap.step, heq] at hfail
      exact absurd rfl hfail
  | init => trivial

theorem sound_of_reach_two : ((Heap.initial.step (.alloc 100)).2.step (.alloc 0xF0000000)).2.Sound :=
  (sound_of_reach (.step (.alloc 0xF0000000) (.step (.alloc 100) .initial (.inr (by decide))) (.inr (by decide)))).1

/-- The sum of the size and of the first candidate wraps, so that a block that is handed out twice fits. -/
theorem wrapped_size_overlaps : ¬∀ as : List Act, (as.foldl (fun h a => (h.step a).2) Heap.initial).Sound := by
  intro hall
  have hapart := (hall [.alloc 64, .alloc 0xFFFFFF80]).apart
  have hblocks : (([.alloc 64, .alloc 0xFFFFFF80] : List Act).foldl (fun h a => (h.step a).2) Heap.initial).handedOut =
      [⟨0x01A00000, 0xFFFFFF80, 0xFFFFFF80⟩, ⟨0x01A00000, 64, 64⟩] := by decide
  rw [hblocks] at hapart
  have hpair : Span.Apart ⟨0x01A00000, 0xFFFFFF80⟩ ⟨0x01A00000, 64⟩ :=
    List.rel_of_pairwise_cons hapart List.mem_cons_self
  exact hpair.not_both (n := 0x01A00000) (by decide) (by decide)

end Ps2Recomp.IopHeap
