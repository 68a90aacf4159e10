import Ps2Recomp.Proof.GuestHeap

/-!
# Runs of the guest heap

Along every run the blocks tile the heap and what was handed out lies apart in it (`Inv`, `run_inv`).
`guestRealloc` does to the blocks that are not free what giving the old one back and handing a new one
out would do (`Realloced`), whether it shrinks, grows or moves; where it stays in place it returns the
old address, whatever alignment was asked for (`guest_heap_sound`).
-/

namespace Ps2Recomp.GuestHeap

open Tiling Transition

variable {h h' : Heap} {s s' s₀ : State} {before after rest : List GuestHeapBlock}
  {block next b : GuestHeapBlock} {size newSize requested alignment addr guestAddr : Word} {a : Act}
  {as : List Act}

/-! ### Resizing -/

/-- **What a new size does**: another block that is not free takes the place of `block`. -/
structure Realloced (h : Heap) (block : GuestHeapBlock) (newSize : Word) (h' : Heap) (addr : Word) :
    Prop where
  wf : h'.WF
  base : h'.base = h.base
  limit : h'.limit = h.limit
  pos : 0 < addr.toNat
  fresh : ∀ x, h.Live x → x.addr ≠ block.addr → x.addr ≠ addr
  live : ∃ b, b.addr = addr ∧ newSize.toNat ≤ b.size.toNat ∧ ∀ x, h'.Live x ↔ x = b ∨ h.Live x ∧ x.addr ≠ block.addr

theorem live_pos (hwf : h.WF) (hb : h.Live b) : 0 < b.addr.toNat := by
  have hbase : 0 < h.base.toNat := hwf.base_pos fun hnil => by
    have := hb.1
    rw [hnil] at this
    cases this
  have := (hwf.filled.mem hb.1).1
  omega

variable {heapEnd : Word}

section

variable (hwf : h.WF) (hl : h.blocks = before ++ block :: after) (hfree : block.free = false)
  (hle : newSize.toNat ≤ requested.toNat)

include hwf hl hfree hle

theorem realloced_of_live {blocks : List GuestHeapBlock}
    (hfilled : Filled h.base.toNat h.limit.toNat blocks) (hapart : Apart blocks)
    (hlive : ∀ x, x ∈ blocks ∧ x.free = false ↔
      x = { block with size := requested } ∨ x ∈ before ++ after ∧ x.free = false) :
    Realloced h block newSize { h with blocks, heapEnd } block.addr := by
  have hblock : h.Live block := ⟨by rw [hl]; simp, hfree⟩
  refine ⟨⟨hfilled, hapart, hwf.limit_le, fun _ => hwf.base_pos (by rw [hl]; simp), hwf.configured⟩, rfl,
    rfl, live_pos hwf hblock, fun _ _ hne => hne, { block with size := requested }, rfl, hle,
    fun x => (hlive x).trans ?_⟩
  have hf := hwf.filled
  rw [hl] at hf
  rw [Heap.Live, hl, and_right_comm, ← mem_iff_of_filled hf]

theorem shrink_spec (hpos : 0 < requested.toNat) (hlt : requested.toNat < block.size.toNat) :
    Realloced h block newSize
      { h with
        blocks := coalesceGuestHeap (before ++ { block with size := requested } ::
          ⟨block.addr + requested, block.size - requested, true⟩ :: after)
        heapEnd } block.addr := by
  have hf := hwf.filled
  rw [hl] at hf
  have hlim := hwf.limit_le
  have hin := hf.mem (x := block) (by simp)
  obtain ⟨m, h1, hm, -, h2⟩ := tiles_append.1 hf
  have htail : (block.addr + requested).toNat = block.addr.toNat + requested.toNat :=
    BitVec.toNat_add_of_lt (by omega)
  have hsize : (block.size - requested).toNat = block.size.toNat - requested.toNat :=
    BitVec.toNat_sub_of_le (by rw [BitVec.le_def]; omega)
  have hfilled : Filled h.base.toNat h.limit.toNat (before ++ { block with size := requested } ::
      ⟨block.addr + requested, block.size - requested, true⟩ :: after) := by
    simp only at hm h2
    subst hm
    refine tiles_append.2 ⟨_, h1, rfl, hpos, htail, ?_, ?_⟩
    · simp only [hsize]
      omega
    · have heq : block.addr.toNat + requested.toNat + (block.size - requested).toNat =
          block.addr.toNat + block.size.toNat := by
        rw [hsize]
        omega
      simp only [heq]
      exact h2
  obtain ⟨hf', hap, hlive⟩ := coalesce_spec hfilled (by omega)
  refine realloced_of_live hwf hl hfree hle hf' hap fun x => (hlive x).trans ?_
  simp only [List.mem_append, List.mem_cons]
  constructor
  · rintro ⟨hx | hx | hx | hx, hxf⟩
    · exact .inr ⟨.inl hx, hxf⟩
    · exact .inl hx
    · rw [hx] at hxf
      cases hxf
    · exact .inr ⟨.inr hx, hxf⟩
  · rintro (rfl | ⟨hx | hx, hxf⟩)
    · exact ⟨.inr (.inl rfl), hfree⟩
    · exact ⟨.inl hx, hxf⟩
    · exact ⟨.inr (.inr (.inr hx)), hxf⟩

end

theorem grow_spec (hwf : h.WF) (hl : h.blocks = before ++ block :: next :: rest) (hfree : block.free = false)
    (hnext : next.free = true) (hle : newSize.toNat ≤ requested.toNat) (hgt : block.size.toNat < requested.toNat)
    (hfit : requested.toNat ≤ block.size.toNat + next.size.toNat) :
    Realloced h block newSize
      { h with
        blocks := before ++ { block with size := requested } ::
          if next.size = requested - block.size then rest
          else { next with
            addr := next.addr + (requested - block.size)
            size := next.size - (requested - block.size) } :: rest
        heapEnd } block.addr := by
  have hf := hwf.filled
  have hap := hwf.apart
  rw [hl] at hf hap
  have hlim := hwf.limit_le
  obtain ⟨m, h1, hm, hpos, hn, hnpos, h2⟩ := tiles_append.1 hf
  simp only at hm hn h2
  subst hm
  have hend := h2.le
  have hextra : (requested - block.size).toNat = requested.toNat - block.size.toNat :=
    BitVec.toNat_sub_of_le (by rw [BitVec.le_def]; omega)
  have hap' : Apart before ∧ Apart (next :: rest) := (apart_iff_of_used hfree).1 hap
  -- what is left of the block behind
  set left := if next.size = requested - block.size then rest
    else { next with
      addr := next.addr + (requested - block.size)
      size := next.size - (requested - block.size) } :: rest with hleft
  have hrest : Filled (block.addr.toNat + requested.toNat) h.limit.toNat left ∧ Apart left ∧
      ∀ x, x ∈ left ∧ x.free = false ↔ x ∈ next :: rest ∧ x.free = false := by
    rw [hleft]
    split
    · next heq =>
      have hsz : next.size.toNat = requested.toNat - block.size.toNat := by rw [heq, hextra]
      refine ⟨?_, Apart.right (p := [next]) hap'.2, fun x => ?_⟩
      · have heq' : block.addr.toNat + requested.toNat =
            block.addr.toNat + block.size.toNat + next.size.toNat := by omega
        rw [heq']
        exact h2
      · rw [List.mem_cons]
        constructor
        · rintro ⟨hx, hxf⟩
          exact ⟨.inr hx, hxf⟩
        · rintro ⟨rfl | hx, hxf⟩
          · rw [hnext] at hxf
            cases hxf
          · exact ⟨hx, hxf⟩
    · next hne =>
      have hne' : next.size.toNat ≠ requested.toNat - block.size.toNat := by
        intro heq
        exact hne (BitVec.eq_of_toNat_eq (heq.trans hextra.symm))
      have haddr : (next.addr + (requested - block.size)).toNat = block.addr.toNat + requested.toNat := by
        rw [BitVec.toNat_add_of_lt (by rw [hextra]; omega), hextra, hn]
        omega
      have hsize : (next.size - (requested - block.size)).toNat =
          next.size.toNat - (requested.toNat - block.size.toNat) := by
        rw [BitVec.toNat_sub_of_le (by rw [BitVec.le_def, hextra]; omega), hextra]
      refine ⟨⟨haddr, ?_, ?_⟩, hap'.2.congr rfl, fun x => ?_⟩
      · simp only [hsize]
        omega
      · have heq : block.addr.toNat + requested.toNat +
            (next.size - (requested - block.size)).toNat =
            block.addr.toNat + block.size.toNat + next.size.toNat := by
          rw [hsize]
          omega
        simp only [heq]
        exact h2
      · simp only [List.mem_cons]
        constructor
        · rintro ⟨rfl | hx, hxf⟩
          · rw [hnext] at hxf
            cases hxf
          · exact ⟨.inr hx, hxf⟩
        · rintro ⟨rfl | hx, hxf⟩
          · rw [hnext] at hxf
            cases hxf
          · exact ⟨.inr hx, hxf⟩
  obtain ⟨hfl, hapl, hlive⟩ := hrest
  have hfree' : ({ block with size := requested } : GuestHeapBlock).free = false := hfree
  refine realloced_of_live hwf hl hfree hle (tiles_append.2 ⟨_, h1, rfl, ?_, hfl⟩)
    ((apart_iff_of_used hfree').2 ⟨hap'.1, hapl⟩) fun x => ?_
  · simp only
    omega
  · simp only [List.mem_append, List.mem_cons]
    constructor
    · rintro ⟨hx | hx | hx, hxf⟩
      · exact .inr ⟨.inl hx, hxf⟩
      · exact .inl hx
      · exact .inr ⟨.inr (List.mem_cons.1 ((hlive x).1 ⟨hx, hxf⟩).1), hxf⟩
    · rintro (rfl | ⟨hx | hx, hxf⟩)
      · exact ⟨.inr (.inl rfl), hfree⟩
      · exact ⟨.inl hx, hxf⟩
      · exact ⟨.inr (.inr ((hlive x).2 ⟨List.mem_cons.2 hx, hxf⟩).1), hxf⟩

theorem and_ramMask (haddr : addr.toNat < 0x02000000) : addr &&& ramMask = addr := by
  apply BitVec.eq_of_toNat_eq
  have hmask : ramMask.toNat = 2 ^ 25 - 1 := rfl
  rw [BitVec.toNat_and, hmask, Nat.and_two_pow_sub_one_of_lt_two_pow haddr]

theorem live_lt (hwf : h.WF) (hb : h.Live b) : b.addr.toNat + b.size.toNat ≤ 0x01F00000 := by
  have := (hwf.filled.mem hb.1).2.2
  have := hwf.limit_le
  omega

theorem live_inj (hwf : h.WF) (hb : h.Live b) (hblock : h.Live block) (heq : b.addr = block.addr) :
    b = block := hwf.filled.inj hb.1 hblock.1 (congrArg BitVec.toNat heq)

theorem move_spec (hwf : h.WF) (hblock : h.Live block) (hal : Allocated h newSize alignment h' addr) :
    Realloced h block newSize (h'.freeBlock block.addr) addr := by
  obtain ⟨new, hnew, hsize, hfresh, hlive⟩ := hal.live
  have hfreed := freeBlock_spec hal.wf block.addr
  have hmask : block.addr &&& ramMask = block.addr := by
    have := live_lt hwf hblock
    exact and_ramMask (by omega)
  have hother : ∀ x, h.Live x → x.addr ≠ addr := by
    intro x hx heq
    have hx' : x = new := live_inj hal.wf ((hlive x).2 (.inr hx)) ((hlive new).2 (.inl rfl)) (heq.trans hnew.symm)
    rw [hx'] at hx
    exact hfresh hx
  refine ⟨hfreed.wf, hfreed.base.trans hal.base, hfreed.limit.trans hal.limit, hal.pos,
    fun x hx _ => hother x hx, new, hnew, hsize, fun x => ?_⟩
  rw [hfreed.live, hlive, hmask]
  constructor
  · rintro ⟨hx | hx, hne⟩
    · exact .inl hx
    · exact .inr ⟨hx, hne⟩
  · rintro (rfl | ⟨hx, hne⟩)
    · refine ⟨.inl rfl, ?_⟩
      rw [hnew]
      exact (hother block hblock).symm
    · exact ⟨.inr hx, hne⟩

/-! ### `guestRealloc` -/

/-- The new size is found in place: the block is large enough, or the one behind it is free and the
two are. -/
def InPlace (block : GuestHeapBlock) (after : List GuestHeapBlock) (requested : Word) : Prop :=
  requested ≤ block.size ∨ ∃ next rest, after = next :: rest ∧ next.free = true ∧
    block.blockEnd = next.blockStart ∧
    requested.setWidth 64 ≤ block.size.setWidth 64 + next.size.setWidth 64

theorem widths {x y z : Word} (hxyz : x.setWidth 64 ≤ y.setWidth 64 + z.setWidth 64) : x.toNat ≤ y.toNat + z.toNat := by
  have hwide : ∀ x : Word, (x.setWidth 64).toNat = x.toNat := by
    intro x
    have := x.isLt
    rw [BitVec.toNat_setWidth]
    exact Nat.mod_eq_of_lt (by omega)
  have hy := y.isLt
  have hz := z.isLt
  rw [BitVec.le_def, BitVec.toNat_add_of_lt (by rw [hwide, hwide]; omega), hwide, hwide, hwide] at hxyz
  exact hxyz

/-- **The three outcomes of a new size.** -/
inductive Outcome (s : State) (block : GuestHeapBlock) (after : List GuestHeapBlock)
    (newSize requested alignment : Word) : State × Word → Prop
  | inPlace {heap : Heap} : InPlace block after requested → Realloced s.heap block newSize heap block.addr →
      Outcome s block after newSize requested alignment ({ s with heap }, block.addr)
  | moved {heap : Heap} {addr : Word} : ¬InPlace block after requested →
      Allocated s.heap newSize alignment heap addr →
      Outcome s block after newSize requested alignment
        ({ s with
          heap := heap.freeBlock block.addr
          rdram := memmove s.rdram addr.toNat block.addr.toNat (stdMin block.size newSize).toNat }, addr)
  | failed : ¬InPlace block after requested → Outcome s block after newSize requested alignment (s, 0)

theorem moveBlock_outcome (hwf : s.heap.WF) (hblock : s.heap.Live block) (hnot : ¬InPlace block after requested) :
    Outcome s block after newSize requested alignment (s.moveBlock block.addr block.size newSize alignment) := by
  rw [State.moveBlock]
  simp only
  rcases allocate_cases hwf newSize alignment with heq | hal
  · rw [heq]
    simp only [if_true]
    exact .failed hnot
  · generalize s.heap.allocate newSize alignment = r at hal
    obtain ⟨heap, addr⟩ := r
    simp only at hal ⊢
    have hpos := hal.pos
    obtain ⟨new, hnew, hsize, -, hlive⟩ := hal.live
    have hnew' := live_lt hal.wf ((hlive new).2 (.inl rfl))
    have hold := live_lt hwf hblock
    rw [hnew] at hnew'
    have hne : addr ≠ 0 := by
      rintro rfl
      have : (0 : Word).toNat = 0 := rfl
      omega
    have hcopy := stdMin_toNat block.size newSize
    have hram : ramSize.toNat = 0x02000000 := rfl
    have hfits : ∀ x : Word, x.toNat + (stdMin block.size newSize).toNat ≤ 0x01F00000 →
        x + stdMin block.size newSize ≤ ramSize := by
      intro x hx
      rw [BitVec.le_def, BitVec.toNat_add_of_lt (by omega), hram]
      omega
    rw [if_neg hne, and_ramMask (by omega), and_ramMask (by omega),
      if_pos ⟨hfits addr (by omega), hfits block.addr (by omega)⟩]
    exact .moved hnot hal

/-- **`guestRealloc` with the block found.** -/
theorem resizeBlock_outcome (hwf : s.heap.WF) (hl : s.heap.blocks = before ++ block :: after)
    (hfree : block.free = false) (hpos : 0 < newSize.toNat) (hle : newSize.toNat ≤ requested.toNat) :
    Outcome s block after newSize requested alignment
      (s.resizeBlock before block after newSize requested alignment) := by
  have hblock : s.heap.Live block := ⟨by rw [hl]; simp, hfree⟩
  have hin := hwf.filled.mem hblock.1
  have hlim := hwf.limit_le
  rw [State.resizeBlock.eq_def]
  simp only
  split
  · next hshrink =>
    split
    · next hlt =>
      rw [BitVec.lt_def] at hlt
      exact .inPlace (.inl hshrink) (shrink_spec hwf hl hfree hle (by omega) hlt)
    · next hlt =>
      -- the size stays
      have heq : requested = block.size := by
        rw [BitVec.lt_def] at hlt
        rw [BitVec.le_def] at hshrink
        exact BitVec.eq_of_toNat_eq (by omega)
      refine .inPlace (.inl hshrink) (realloced_of_live hwf hl hfree hle hwf.filled hwf.apart fun x => ?_)
      rw [heq, hl]
      simp only [List.mem_append, List.mem_cons]
      constructor
      · rintro ⟨hx | hx | hx, hxf⟩
        · exact .inr ⟨.inl hx, hxf⟩
        · exact .inl hx
        · exact .inr ⟨.inr hx, hxf⟩
      · rintro (rfl | ⟨hx | hx, hxf⟩)
        · exact ⟨.inr (.inl rfl), hfree⟩
        · exact ⟨.inl hx, hxf⟩
        · exact ⟨.inr (.inr hx), hxf⟩
  · next hgrow =>
    have hgt : block.size.toNat < requested.toNat := by
      rw [BitVec.le_def] at hgrow
      omega
    split
    · next next rest =>
      split
      · next hfit =>
        refine .inPlace (.inr ⟨next, rest, rfl, hfit⟩) ?_
        exact grow_spec hwf hl hfree hfit.1 hle hgt (widths hfit.2.2)
      · next hfit =>
        refine moveBlock_outcome hwf hblock ?_
        rintro (h | ⟨next', rest', heq, h⟩)
        · exact hgrow h
        · cases heq
          exact hfit h
    · refine moveBlock_outcome hwf hblock ?_
      rintro (h | ⟨next', rest', heq, -⟩)
      · exact hgrow h
      · cases heq

/-! ### What is handed out -/

/-- **What is handed out are the blocks that are not free**, each at least as large as it was asked
for. -/
structure Handed (L : GuestHeapBlock → Prop) (out : List (Word × Word)) : Prop where
  block : ∀ e ∈ out, ∃ b, L b ∧ b.addr = e.1 ∧ e.2.toNat ≤ b.size.toNat
  entry : ∀ b, L b → ∃ e ∈ out, e.1 = b.addr
  nodup : (out.map Prod.fst).Nodup

section Handed

variable {L L' : GuestHeapBlock → Prop} {out : List (Word × Word)} {n : Word}

theorem Handed.insert (hL : Handed L out) (hb : ∀ x, L x → x.addr ≠ b.addr)
    (hn : n.toNat ≤ b.size.toNat) (hL' : ∀ x, L' x ↔ x = b ∨ L x) : Handed L' ((b.addr, n) :: out) := by
  refine ⟨fun e he => ?_, fun x hx => ?_, List.nodup_cons.2 ⟨fun hmem => ?_, hL.nodup⟩⟩
  · rcases List.mem_cons.1 he with rfl | he
    · exact ⟨b, (hL' b).2 (.inl rfl), rfl, hn⟩
    · obtain ⟨x, hx, hrest⟩ := hL.block e he
      exact ⟨x, (hL' x).2 (.inr hx), hrest⟩
  · rcases (hL' x).1 hx with rfl | hx
    · exact ⟨_, List.mem_cons_self, rfl⟩
    · obtain ⟨e, he, heq⟩ := hL.entry x hx
      exact ⟨e, List.mem_cons_of_mem _ he, heq⟩
  · obtain ⟨e, he, heq⟩ := List.mem_map.1 hmem
    obtain ⟨x, hx, hxe, -⟩ := hL.block e he
    exact hb x hx (hxe.trans heq)

theorem Handed.remove (hL : Handed L out) (hL' : ∀ x, L' x ↔ L x ∧ x.addr ≠ addr) :
    Handed L' (out.filter (·.1 ≠ addr)) := by
  refine ⟨fun e he => ?_, fun x hx => ?_, hL.nodup.sublist (List.filter_sublist.map _)⟩
  · obtain ⟨he, hne⟩ := List.mem_filter.1 he
    obtain ⟨x, hx, hxe, hsize⟩ := hL.block e he
    refine ⟨x, (hL' x).2 ⟨hx, ?_⟩, hxe, hsize⟩
    rw [hxe]
    simpa using hne
  · obtain ⟨hx, hne⟩ := (hL' x).1 hx
    obtain ⟨e, he, heq⟩ := hL.entry x hx
    refine ⟨e, List.mem_filter.2 ⟨he, ?_⟩, heq⟩
    rw [heq]
    simpa using hne

end Handed

/-- **The heap is in order**, and what is handed out is what it says. -/
structure Inv (s : State) : Prop where
  wf : s.heap.WF
  handed : Handed s.heap.Live s.handedOut

theorem ensureInitialized_eq (hwf : h.WF) : h.ensureInitialized = h := by
  rw [Heap.ensureInitialized, if_pos hwf.configured]

theorem ne_zero_of_pos (hpos : 0 < addr.toNat) : addr ≠ 0 := by
  rintro rfl
  have : (0 : Word).toNat = 0 := rfl
  omega

section

variable (hi : Inv s)

include hi

/-- **`guestMalloc`** changes nothing, or hands a block out. -/
theorem guestMalloc_cases (size alignment : Word) :
    s.guestMalloc size alignment = (s, 0) ∨
      ∃ heap addr, s.guestMalloc size alignment =
          ({ s with heap, handedOut := (addr, size) :: s.handedOut }, addr) ∧
        Allocated s.heap size alignment heap addr := by
  simp only [State.guestMalloc, Heap.guestMalloc, ensureInitialized_eq hi.wf]
  rcases allocate_cases hi.wf size alignment with heq | hal
  · rw [heq]
    exact .inl rfl
  · right
    generalize s.heap.allocate size alignment = r at hal
    obtain ⟨heap, addr⟩ := r
    refine ⟨heap, addr, ?_, hal⟩
    simp only [State.handOut, if_neg (ne_zero_of_pos hal.pos)]

theorem Inv.allocated {heap : Heap} (hal : Allocated s.heap size alignment heap addr) :
    Inv { s with heap, handedOut := (addr, size) :: s.handedOut } := by
  obtain ⟨new, hnew, hsize, hfresh, hlive⟩ := hal.live
  refine ⟨hal.wf, ?_⟩
  rw [← hnew]
  refine hi.handed.insert (fun x hx heq => ?_) hsize hlive
  obtain rfl : x = new := live_inj hal.wf ((hlive x).2 (.inr hx)) ((hlive new).2 (.inl rfl)) heq
  exact hfresh hx

theorem Inv.guestMalloc (size alignment : Word) : Inv (s.guestMalloc size alignment).1 := by
  rcases guestMalloc_cases hi size alignment with heq | ⟨heap, addr, heq, hal⟩
  · rw [heq]
    exact hi
  · rw [heq]
    exact hi.allocated hal

theorem Inv.guestFree (guestAddr : Word) : Inv (s.guestFree guestAddr) := by
  rw [State.guestFree]
  split
  · exact hi
  · next hne =>
    have hfreed := freeBlock_spec hi.wf guestAddr
    simp only [Heap.guestFree, if_neg hne, ensureInitialized_eq hi.wf]
    exact ⟨hfreed.wf, hi.handed.remove hfreed.live⟩

theorem Inv.rdram {m : Bytes.Memory} : Inv { s with rdram := m } := ⟨hi.wf, hi.handed⟩

theorem Inv.guestCalloc (count size alignment : Word) : Inv (s.guestCalloc count size alignment).1 := by
  rw [State.guestCalloc]
  split
  · exact hi
  split
  · exact hi
  have hm := hi.guestMalloc (count * size) alignment
  simp only
  split
  · split
    · exact hm.rdram
    · exact hm
  · exact hm

theorem Inv.realloced {heap : Heap} {m : Bytes.Memory}
    (hre : Realloced s.heap block newSize heap addr) (haddr : block.addr = guestAddr &&& ramMask) :
    Inv (({ s with heap, rdram := m }.takeBack guestAddr).handOut addr newSize) := by
  obtain ⟨new, hnew, hsize, hlive⟩ := hre.live
  simp only [State.handOut, if_neg (ne_zero_of_pos hre.pos), State.takeBack]
  refine ⟨hre.wf, ?_⟩
  have hremoved : Handed (fun x => s.heap.Live x ∧ x.addr ≠ guestAddr &&& ramMask)
      (s.handedOut.filter (·.1 ≠ guestAddr &&& ramMask)) := hi.handed.remove fun x => .rfl
  rw [haddr] at hlive
  rw [← hnew]
  refine hremoved.insert (fun x hx => ?_) hsize hlive
  rw [hnew]
  exact hre.fresh x hx.1 (by rw [haddr]; exact hx.2)

end

/-- The size that `guestRealloc` works with. -/
def requestedSize (newSize : Word) : Word := alignGuestHeapValue newSize kGuestHeapDefaultAlignment

/-- **`guestRealloc` of an address**: there is no block or the size is too large, or the block found
gets the new size. -/
theorem guestRealloc_cases (hi : Inv s) (hne : guestAddr ≠ 0) (hsize : newSize ≠ 0) (alignment : Word) :
    (s.guestRealloc guestAddr newSize alignment = (s, 0) ∧
      ∀ r, newSize ≤ 0xFFFFFFF0 → findGuestHeapBlock guestAddr s.heap.blocks ≠ some r) ∨
    ∃ before block after, newSize ≤ 0xFFFFFFF0 ∧
      findGuestHeapBlock guestAddr s.heap.blocks = some (before, block, after) ∧
      ∃ r, Outcome s block after newSize (requestedSize newSize)
          (normalizeGuestHeapAlignment alignment) r ∧
        s.guestRealloc guestAddr newSize alignment =
          if r.2 = 0 then (r.1, 0) else ((r.1.takeBack guestAddr).handOut r.2 newSize, r.2) := by
  have hmax : (0xFFFFFFFF - (kGuestHeapDefaultAlignment - 1) : Word) = 0xFFFFFFF0 := rfl
  rw [State.guestRealloc, if_neg hne, if_neg hsize, hmax]
  simp only [ensureInitialized_eq hi.wf]
  split
  · next hlarge =>
    refine .inl ⟨rfl, fun r hle => ?_⟩
    exact absurd hlarge (BitVec.not_lt.2 hle)
  · next hle =>
    have hle : newSize ≤ 0xFFFFFFF0 := BitVec.not_lt.1 hle
    split
    · next hnone =>
      refine .inl ⟨rfl, fun r _ hr => ?_⟩
      rw [hnone] at hr
      cases hr
    · next before block after hfind =>
      refine .inr ⟨before, block, after, hle, hfind, _, ?_, rfl⟩
      obtain ⟨hl, hfree, -⟩ := find_some hfind
      have hpos : newSize.toNat ≠ 0 := fun h => hsize (BitVec.eq_of_toNat_eq h)
      have hge : newSize.toNat ≤ (requestedSize newSize).toNat := (align_spec (BitVec.le_def.1 hle)).1
      exact resizeBlock_outcome hi.wf hl hfree (by omega) hge

variable {r : State × Word}

section

variable {after : List GuestHeapBlock}

theorem Outcome.realloced (hi : Inv s)
    (hblock : s.heap.Live block) (ho : Outcome s block after newSize requested alignment r)
    (hr : r.2 ≠ 0) : Realloced s.heap block newSize r.1.heap r.2 := by
  cases ho with
  | inPlace _ hre => exact hre
  | moved _ hal => exact move_spec hi.wf hblock hal
  | failed _ => exact absurd rfl hr

theorem Outcome.state (ho : Outcome s block after newSize requested alignment r) :
    r.1 = { s with heap := r.1.heap, rdram := r.1.rdram } := by
  cases ho with
  | inPlace _ _ => rfl
  | moved _ _ => rfl
  | failed _ => rfl

end

theorem Inv.guestRealloc (hi : Inv s) (guestAddr newSize alignment : Word) :
    Inv (s.guestRealloc guestAddr newSize alignment).1 := by
  by_cases hne : guestAddr = 0
  · rw [State.guestRealloc, if_pos hne]
    exact hi.guestMalloc newSize alignment
  by_cases hsize : newSize = 0
  · rw [State.guestRealloc, if_neg hne, if_pos hsize]
    exact hi.guestFree guestAddr
  rcases guestRealloc_cases hi hne hsize alignment with
    ⟨heq, -⟩ | ⟨before, block, after, -, hfind, r, ho, heq⟩
  · rw [heq]
    exact hi
  · rw [heq]
    obtain ⟨hl, hfree, haddr⟩ := find_some hfind
    have hblock : s.heap.Live block := ⟨by rw [hl]; simp, hfree⟩
    split
    · next hzero =>
      cases ho with
      | inPlace _ hre => exact absurd hzero (ne_zero_of_pos hre.pos)
      | moved _ hal => exact absurd hzero (ne_zero_of_pos hal.pos)
      | failed _ => exact hi
    · next hr =>
      have hre := ho.realloced hi hblock hr
      rw [ho.state]
      exact hi.realloced hre haddr

theorem step_inv (hi : Inv s) (a : Act) : Inv (step s a).1 := by
  cases a with
  | guestMalloc size alignment => exact hi.guestMalloc size alignment
  | guestCalloc count size alignment => exact hi.guestCalloc count size alignment
  | guestRealloc guestAddr newSize alignment => exact hi.guestRealloc guestAddr newSize alignment
  | guestFree guestAddr => exact hi.guestFree guestAddr
  | guest rdram => exact hi.rdram

/-! ### The start -/

theorem align_le {v : Word} (hv : v.toNat ≤ 0x01F00000) :
    v.toNat ≤ (alignGuestHeapValue v kGuestHeapDefaultAlignment).toNat ∧
      (alignGuestHeapValue v kGuestHeapDefaultAlignment).toNat ≤ 0x01F00000 := by
  have := align_spec (v := v) (by omega)
  omega

theorem clampBase_le (v : Word) : (clampGuestHeapBase v).toNat ≤ 0x01F00000 := by
  have hhard : (stdMin kGuestHeapHardLimit ramSize).toNat = 0x01F00000 := rfl
  rw [clampGuestHeapBase]
  generalize (if ramSize ≤ v then v &&& ramMask else v) = x
  rw [stdMin]
  split
  · exact hhard.le
  · next hlt =>
    rw [BitVec.lt_def, hhard] at hlt
    omega

theorem clampBase_eq {v : Word} (hv : v.toNat ≤ 0x01F00000) : clampGuestHeapBase v = v := by
  have hram : ramSize.toNat = 0x02000000 := rfl
  have hhard : (stdMin kGuestHeapHardLimit ramSize).toNat = 0x01F00000 := rfl
  rw [clampGuestHeapBase, if_neg (by rw [BitVec.le_def]; omega)]
  rw [stdMin, if_neg (by rw [BitVec.lt_def]; omega)]

theorem clampLimit_le (v : Word) : (clampGuestHeapLimit v).toNat ≤ 0x01F00000 := by
  have hhard : (stdMin kGuestHeapHardLimit ramSize).toNat = 0x01F00000 := rfl
  rw [clampGuestHeapLimit]
  split
  · exact hhard.le
  · next hlt =>
    rw [not_or, BitVec.lt_def, hhard] at hlt
    omega

/-- **A fresh heap is in order.** It is one free block, or nothing. -/
theorem reset_wf (hpos : 0 < h.suggestedBase.toNat) (hle : h.suggestedBase.toNat ≤ 0x01F00000) (guestLimit : Word) :
    (h.reset h.suggestedBase guestLimit).WF ∧ ∀ b, ¬(h.reset h.suggestedBase guestLimit).Live b := by
  have hbase := align_le hle
  have hne : alignGuestHeapValue h.suggestedBase kGuestHeapDefaultAlignment ≠ 0 :=
    ne_zero_of_pos (by omega)
  have hlim := clampLimit_le guestLimit
  have hlim0 := clampLimit_le 0
  simp only [Heap.reset, clampBase_eq hle, if_neg hne]
  generalize alignGuestHeapValue h.suggestedBase kGuestHeapDefaultAlignment = base at hbase ⊢
  generalize clampGuestHeapLimit guestLimit = limit at hlim ⊢
  generalize clampGuestHeapLimit 0 = limit0 at hlim0 ⊢
  -- the limit in use is one of the two, or the heap is empty
  have hone : ∀ limit' : Word, limit'.toNat ≤ 0x01F00000 → ¬limit' ≤ base →
      ∀ h' : Heap, h'.blocks = (if base < limit' then [⟨base, limit' - base, true⟩] else []) →
      h'.base = base → h'.limit = limit' → h'.configured = true → h'.WF ∧ ∀ b, ¬h'.Live b := by
    intro limit' hle' hlt h' hblocks hb hl hc
    have hlt' : base.toNat < limit'.toNat := by
      rw [BitVec.le_def] at hlt
      omega
    rw [if_pos (BitVec.lt_def.2 hlt')] at hblocks
    have hsize : (limit' - base).toNat = limit'.toNat - base.toNat :=
      BitVec.toNat_sub_of_le (BitVec.le_def.2 hlt'.le)
    refine ⟨⟨?_, ?_, ?_, fun _ => ?_, hc⟩, fun b hb' => ?_⟩
    · rw [hblocks, hb, hl]
      refine ⟨rfl, ?_, ?_⟩
      · simp only [hsize]
        omega
      · simp only [Tiles, hsize]
        omega
    · rw [hblocks]
      exact List.isChain_singleton _
    · rw [hl]
      exact hle'
    · rw [hb]
      omega
    · rw [Heap.Live, hblocks, List.mem_singleton] at hb'
      obtain ⟨rfl, hfree⟩ := hb'
      cases hfree
  by_cases h1 : limit ≤ base
  · simp only [if_pos h1]
    by_cases h2 : limit0 ≤ base
    · simp only [if_pos h2]
      refine ⟨⟨rfl, .nil, Nat.zero_le _, fun hnil => absurd rfl hnil, rfl⟩, fun b hb => ?_⟩
      cases hb.1
    · simp only [if_neg h2]
      exact hone limit0 hlim0 h2 _ rfl rfl rfl rfl
  · simp only [if_neg h1]
    exact hone limit hlim h1 _ rfl rfl rfl rfl

theorem configured_inv (hc : s.Configured) : Inv s := by
  obtain ⟨hout, h, hun, guestBase, guestLimit, heq⟩ := hc
  have hwf : s.heap.WF ∧ ∀ b, ¬s.heap.Live b := by
    rw [heq, Heap.configureGuestHeap]
    have hbase := align_le (clampBase_le guestBase)
    have hsuggested : h.suggestedBase.toNat ≤ 0x01F00000 := BitVec.le_def.1 hun.suggestedBase_le
    have hsuggested_ne : h.suggestedBase.toNat ≠ 0 :=
      fun hz => hun.suggestedBase_ne (BitVec.eq_of_toNat_eq hz)
    rw [if_pos hun.suggestedBase_ne]
    refine reset_wf (h := { h with suggestedBase := _ }) ?_ ?_ guestLimit
    · simp only
      split
      · omega
      · next hne =>
        have : (alignGuestHeapValue (clampGuestHeapBase guestBase) kGuestHeapDefaultAlignment).toNat ≠ 0 :=
          fun hz => hne (BitVec.eq_of_toNat_eq hz)
        omega
    · simp only
      split
      · exact hsuggested
      · exact hbase.2
  refine ⟨hwf.1, ⟨fun e he => ?_, fun b hb => absurd hb (hwf.2 b), ?_⟩⟩
  · rw [hout] at he
    cases he
  · rw [hout]
    exact .nil

/-- **Along every run** the heap is in order. -/
theorem run_inv (hc : s₀.Configured) (hrun : Run Step s₀ as s) : Inv s := by
  refine hrun.state_invariant (configured_inv hc) fun s a s' hi hs => ?_
  rw [← hs]
  exact step_inv hi a

/-! ### What the calls owe -/

/-- **The blocks partition the heap**, and what is handed out lies apart in it. -/
structure Sound (s : State) : Prop where
  filled : Filled s.heap.base.toNat s.heap.limit.toNat s.heap.blocks
  apart : Apart s.heap.blocks
  inside : ∀ e ∈ s.handedOut, s.heap.base.toNat ≤ e.1.toNat ∧ e.1.toNat + e.2.toNat ≤ s.heap.limit.toNat
  disjoint : s.handedOut.Pairwise fun e e' =>
    e.1.toNat + e.2.toNat ≤ e'.1.toNat ∨ e'.1.toNat + e'.2.toNat ≤ e.1.toNat

theorem Inv.sound (hi : Inv s) : Sound s := by
  refine ⟨hi.wf.filled, hi.wf.apart, fun e he => ?_, ?_⟩
  · obtain ⟨b, hb, haddr, hsize⟩ := hi.handed.block e he
    have := hi.wf.filled.mem hb.1
    rw [← haddr]
    omega
  · have hne : s.handedOut.Pairwise fun e e' => e.1 ≠ e'.1 := List.pairwise_map.1 hi.handed.nodup
    refine hne.imp_of_mem fun {e e'} he he' hee => ?_
    obtain ⟨b, hb, haddr, hsize⟩ := hi.handed.block e he
    obtain ⟨b', hb', haddr', hsize'⟩ := hi.handed.block e' he'
    have hbb : b ≠ b' := by
      rintro rfl
      exact hee (haddr.symm.trans haddr')
    have := hi.wf.filled.apart hb.1 hb'.1 hbb
    rw [← haddr, ← haddr']
    omega

/-- A non-zero address has the alignment that was asked for. -/
def Aligned (alignment addr : Word) : Prop :=
  addr ≠ 0 → (normalizeGuestHeapAlignment alignment).toNat ∣ addr.toNat

/-- **What `guestRealloc` does to the guest's bytes**, and that it may fail without a trace. -/
structure Preserves (s : State) (guestAddr newSize : Word) (r : State × Word) : Prop where
  bytes : ∀ block, s.heap.Live block → block.addr = guestAddr &&& ramMask → r.2 ≠ 0 →
    ∀ i < min block.size.toNat newSize.toNat, r.1.rdram (r.2.toNat + i) = s.rdram (block.addr.toNat + i)
  others : ∀ b, s.heap.Live b → b.addr ≠ guestAddr &&& ramMask →
    ∀ i < b.size.toNat, r.1.rdram (b.addr.toNat + i) = s.rdram (b.addr.toNat + i)
  failed : r.2 = 0 → guestAddr = 0 ∨ newSize ≠ 0 → r.1.heap.blocks = s.heap.blocks

/-- **What a call owes.** A new size of 0 is no failure: it gives the block back. -/
def Meets (s : State) : Act → Prop
  | .guestMalloc size alignment => Aligned alignment (s.guestMalloc size alignment).2
  | .guestCalloc count size alignment => Aligned alignment (s.guestCalloc count size alignment).2
  | .guestRealloc guestAddr newSize alignment =>
    Aligned alignment (s.guestRealloc guestAddr newSize alignment).2 ∧
      Preserves s guestAddr newSize (s.guestRealloc guestAddr newSize alignment)
  | .guestFree guestAddr => (∀ b, s.heap.Live b → b.addr ≠ guestAddr &&& ramMask) →
    (s.guestFree guestAddr).heap.blocks = s.heap.blocks
  | .guest _ => True

/-- **The condition.** A block that gets its new size in place has the alignment that was asked
for already. -/
def Aligns (s : State) : Act → Prop
  | .guestRealloc guestAddr newSize alignment => newSize ≠ 0 → newSize ≤ 0xFFFFFFF0 →
    ∀ before block after, findGuestHeapBlock guestAddr s.heap.blocks = some (before, block, after) →
    InPlace block after (requestedSize newSize) →
    (normalizeGuestHeapAlignment alignment).toNat ∣ block.addr.toNat
  | _ => True

theorem guestMalloc_aligned (hi : Inv s) (size alignment : Word) :
    Aligned alignment (s.guestMalloc size alignment).2 := by
  rcases guestMalloc_cases hi size alignment with heq | ⟨heap, addr, heq, hal⟩
  · rw [heq]
    exact fun hne => absurd rfl hne
  · rw [heq]
    exact fun _ => hal.aligned

theorem guestMalloc_rdram (s : State) (size alignment : Word) : (s.guestMalloc size alignment).1.rdram = s.rdram := by
  simp only [State.guestMalloc, State.handOut]
  split
  · rfl
  · rfl

theorem guestCalloc_aligned (hi : Inv s) (count size alignment : Word) :
    Aligned alignment (s.guestCalloc count size alignment).2 := by
  rw [State.guestCalloc]
  split
  · exact fun hne => absurd rfl hne
  split
  · exact fun hne => absurd rfl hne
  have hm := guestMalloc_aligned hi (count * size) alignment
  simp only
  split
  · split
    · exact hm
    · exact hm
  · exact hm

theorem addr_ne_zero (hi : Inv s) (hb : s.heap.Live b) : b.addr ≠ 0 &&& ramMask := by
  have hzero : (0 &&& ramMask : Word) = 0 := rfl
  rw [hzero]
  exact ne_zero_of_pos (live_pos hi.wf hb)

/-- **Giving back what is not there.** -/
theorem guestFree_blocks (hi : Inv s) (hnone : ∀ b, s.heap.Live b → b.addr ≠ guestAddr &&& ramMask) :
    (s.guestFree guestAddr).heap.blocks = s.heap.blocks := by
  rw [State.guestFree]
  split
  · rfl
  · next hne =>
    simp only [Heap.guestFree, if_neg hne, ensureInitialized_eq hi.wf, State.takeBack, Heap.freeBlock]
    split
    · rfl
    · next before block after hfind =>
      obtain ⟨hl, hfree, haddr⟩ := find_some hfind
      exact absurd haddr (hnone block ⟨by rw [hl]; simp, hfree⟩)

theorem guestFree_rdram (s : State) (guestAddr : Word) : (s.guestFree guestAddr).rdram = s.rdram := by
  rw [State.guestFree]
  split
  · rfl
  · rfl

/-- **The bytes after a new size.** -/
theorem Outcome.preserves {after : List GuestHeapBlock} (hi : Inv s)
    (hblock : s.heap.Live block) (haddr : block.addr = guestAddr &&& ramMask)
    (ho : Outcome s block after newSize requested alignment r) : Preserves s guestAddr newSize r := by
  have hsame : ∀ x, s.heap.Live x → x.addr = guestAddr &&& ramMask → x = block :=
    fun x hx hxa => live_inj hi.wf hx hblock (hxa.trans haddr.symm)
  cases ho with
  | inPlace _ hre =>
    refine ⟨fun x hx hxa _ i _ => ?_, fun _ _ _ _ _ => rfl, fun hzero => ?_⟩
    · rw [hsame x hx hxa]
    · exact absurd hzero (ne_zero_of_pos hre.pos)
  | moved _ hal =>
    have hcopy := stdMin_toNat block.size newSize
    obtain ⟨new, hnew, hsize, hfresh, hlive⟩ := hal.live
    refine ⟨fun x hx hxa _ i hlt => ?_, fun x hx _ i hlt => ?_, fun hzero => ?_⟩
    · rw [hsame x hx hxa] at hlt ⊢
      simp only [memmove]
      rw [if_pos (by omega), Nat.add_sub_cancel_left]
    · -- the new block lies apart from the old ones
      have hne : x ≠ new := by
        rintro rfl
        exact hfresh hx
      have := hal.wf.filled.apart ((hlive x).2 (.inr hx)).1 ((hlive new).2 (.inl rfl)).1 hne
      rw [hnew] at this
      simp only [memmove]
      rw [if_neg (by omega)]
    · exact absurd hzero (ne_zero_of_pos hal.pos)
  | failed _ => exact ⟨fun _ _ _ hne => absurd rfl hne, fun _ _ _ _ _ => rfl, fun _ _ => rfl⟩

theorem preserves_handOut (hp : Preserves s guestAddr newSize r) :
    Preserves s guestAddr newSize
      (if r.2 = 0 then (r.1, 0) else ((r.1.takeBack guestAddr).handOut r.2 newSize, r.2)) := by
  split
  · next hzero => exact ⟨fun _ _ _ hne => absurd rfl hne, hp.others, fun _ => hp.failed hzero⟩
  · next hne =>
    refine ⟨fun x hx hxa hr i hlt => ?_, fun x hx hxa i hlt => ?_, fun hzero => absurd hzero hne⟩
    · simp only [State.handOut, if_neg hne, State.takeBack]
      exact hp.bytes x hx hxa hr i hlt
    · simp only [State.handOut, if_neg hne, State.takeBack]
      exact hp.others x hx hxa i hlt

theorem guestRealloc_preserves (hi : Inv s) (guestAddr newSize alignment : Word) :
    Preserves s guestAddr newSize (s.guestRealloc guestAddr newSize alignment) := by
  by_cases hne : guestAddr = 0
  · rw [State.guestRealloc, if_pos hne, hne]
    refine ⟨fun b hb hz => absurd hz (addr_ne_zero hi hb), fun b _ _ i _ => ?_, fun hzero _ => ?_⟩
    · rw [guestMalloc_rdram]
    · rcases guestMalloc_cases hi newSize alignment with heq | ⟨heap, addr, heq, hal⟩
      · rw [heq]
      · rw [heq] at hzero
        exact absurd hzero (ne_zero_of_pos hal.pos)
  by_cases hsize : newSize = 0
  · rw [State.guestRealloc, if_neg hne, if_pos hsize]
    refine ⟨fun _ _ _ hr => absurd rfl hr, fun b _ _ i _ => ?_, fun _ hor => ?_⟩
    · rw [guestFree_rdram]
    · rcases hor with h | h
      · exact absurd h hne
      · exact absurd hsize h
  rcases guestRealloc_cases hi hne hsize alignment with
    ⟨heq, -⟩ | ⟨before, block, after, -, hfind, r, ho, heq⟩
  · rw [heq]
    exact ⟨fun _ _ _ hr => absurd rfl hr, fun _ _ _ _ _ => rfl, fun _ _ => rfl⟩
  · rw [heq]
    obtain ⟨hl, hfree, haddr⟩ := find_some hfind
    exact preserves_handOut (ho.preserves hi ⟨by rw [hl]; simp, hfree⟩ haddr)

/-- **The address of a block with a new size**: the old one where it is found in place, else an
aligned one. -/
theorem Outcome.aligned_iff {after : List GuestHeapBlock} (hblock : 0 < block.addr.toNat)
    (ho : Outcome s block after newSize requested (normalizeGuestHeapAlignment alignment) r) :
    Aligned alignment r.2 ↔
      (InPlace block after requested → (normalizeGuestHeapAlignment alignment).toNat ∣ block.addr.toNat) := by
  cases ho with
  | inPlace hin _ =>
    constructor
    · intro hal _
      exact hal (ne_zero_of_pos hblock)
    · intro hal _
      exact hal hin
  | moved hnot hal =>
    refine ⟨fun _ hin => absurd hin hnot, fun _ _ => ?_⟩
    have := hal.aligned
    rwa [normalize_normalize] at this
  | failed hnot => exact ⟨fun _ hin => absurd hin hnot, fun _ hne => absurd rfl hne⟩

theorem guestRealloc_aligned_iff (hi : Inv s) (guestAddr newSize alignment : Word) :
    Aligned alignment (s.guestRealloc guestAddr newSize alignment).2 ↔
      Aligns s (.guestRealloc guestAddr newSize alignment) := by
  have hlive : ∀ {before block after},
      findGuestHeapBlock guestAddr s.heap.blocks = some (before, block, after) →
      s.heap.Live block ∧ block.addr = guestAddr &&& ramMask := by
    intro before block after hfind
    obtain ⟨hl, hfree, haddr⟩ := find_some hfind
    exact ⟨⟨by rw [hl]; simp, hfree⟩, haddr⟩
  by_cases hne : guestAddr = 0
  · rw [State.guestRealloc, if_pos hne]
    refine ⟨fun _ _ _ before block after hfind => ?_, fun _ => guestMalloc_aligned hi newSize alignment⟩
    obtain ⟨hb, haddr⟩ := hlive hfind
    rw [hne] at haddr
    exact absurd haddr (addr_ne_zero hi hb)
  by_cases hsize : newSize = 0
  · rw [State.guestRealloc, if_neg hne, if_pos hsize]
    exact ⟨fun _ h => absurd hsize h, fun _ hr => absurd rfl hr⟩
  rcases guestRealloc_cases hi hne hsize alignment with
    ⟨heq, hnone⟩ | ⟨before, block, after, hle, hfind, r, ho, heq⟩
  · rw [heq]
    refine ⟨fun _ _ hle before block after hfind => absurd hfind (hnone _ hle), fun _ hr => absurd rfl hr⟩
  · have hres : (s.guestRealloc guestAddr newSize alignment).2 = r.2 := by
      rw [heq]
      split
      · next hz => exact hz.symm
      · rfl
    rw [hres, ho.aligned_iff (live_pos hi.wf (hlive hfind).1)]
    constructor
    · intro hin _ _ before' block' after' hfind' hin'
      rw [hfind] at hfind'
      cases hfind'
      exact hin hin'
    · intro hal
      exact hal hsize hle before block after hfind

/-- **The guest heap.** Along every run the blocks partition the heap and what is handed out lies apart
in it, and a call does what it owes exactly when it does not keep a block in place that lacks the
alignment that was asked for. -/
theorem guest_heap_sound (hc : s₀.Configured) (hrun : Run Step s₀ as s) : Sound s ∧ ∀ a, Meets s a ↔ Aligns s a := by
  have hi := run_inv hc hrun
  refine ⟨hi.sound, fun a => ?_⟩
  cases a with
  | guestMalloc size alignment => exact iff_of_true (guestMalloc_aligned hi size alignment) trivial
  | guestCalloc count size alignment =>
    exact iff_of_true (guestCalloc_aligned hi count size alignment) trivial
  | guestRealloc guestAddr newSize alignment =>
    rw [← guestRealloc_aligned_iff hi]
    exact and_iff_left (guestRealloc_preserves hi guestAddr newSize alignment)
  | guestFree guestAddr => exact iff_of_true (guestFree_blocks hi) trivial
  | guest _ => exact iff_of_true trivial trivial

/-- A heap of one megabyte. -/
def configured : State where
  heap := (⟨[], 0, 0, 0, kGuestHeapDefaultBase, false⟩ : Heap).configureGuestHeap 0x100000 0x200000
  rdram _ := 0
  handedOut := []

theorem configured_configured : configured.Configured := by
  refine ⟨rfl, ⟨[], 0, 0, 0, kGuestHeapDefaultBase, false⟩, ⟨?_, ?_⟩, 0x100000, 0x200000, rfl⟩
  · decide
  · decide

/-- A block that is aligned to a page stays so when it shrinks. -/
theorem page_shrunk :
    Sound (configured.guestMalloc 0x100 4096).1 ∧
      ((configured.guestMalloc 0x100 4096).1.guestRealloc 0x1FF000 0x80 4096).2 = 0x1FF000 ∧
      Meets (configured.guestMalloc 0x100 4096).1 (.guestRealloc 0x1FF000 0x80 4096) := by
  have hrun : Run Step configured ([] ++ [.guestMalloc 0x100 4096])
      (configured.guestMalloc 0x100 4096).1 := .snoc .nil rfl
  obtain ⟨hsound, hmeets⟩ := guest_heap_sound configured_configured hrun
  refine ⟨hsound, by decide +kernel, (hmeets _).2 fun _ _ before block after hfind _ => ?_⟩
  obtain ⟨-, -, haddr⟩ := find_some hfind
  simp only at haddr
  rw [haddr]
  decide

/-- **A shrunk block keeps its address.** The page that was asked for is not given. -/
theorem page_not_given : ¬∀ (s₀ s : State) (as : List Act), s₀.Configured → Run Step s₀ as s →
    Sound s ∧ ∀ a, Meets s a := by
  intro h
  have hrun : Run Step configured ([] ++ [.guestMalloc 0x100 16]) (configured.guestMalloc 0x100 16).1 :=
    .snoc .nil rfl
  have hmeets := (h _ _ _ configured_configured hrun).2 (.guestRealloc 0x1FFF00 0x80 4096)
  have hres : ((configured.guestMalloc 0x100 16).1.guestRealloc 0x1FFF00 0x80 4096).2 = 0x1FFF00 := by
    decide +kernel
  have hal := hmeets.1
  rw [hres] at hal
  exact absurd (hal (by decide)) (by decide)

end Ps2Recomp.GuestHeap
