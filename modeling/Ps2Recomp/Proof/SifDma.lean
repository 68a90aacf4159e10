import Ps2Recomp.Lib.Moves
import Ps2Recomp.Proof.Memory
import Ps2Recomp.Spec.SifDma

/-!
# sceSifSetDma

A call that fails leaves everything as it was. One that succeeds copies every entry as a move does, as long as the
direction of the copy, which is chosen on guest addresses, is right for the memory that they lead to (`Straight`), and
answers every packet of the RPC protocol, as long as there is only one.
-/

namespace Ps2Recomp.SifDma

open Memory VSync SifRpc Moves

variable {spr : Bool} {addr dst src size : Word} {m m' : GuestMemory} {i n : ℕ}

/-! ### Places -/

/-- Where a guest address leads. -/
def place (addr : Word) : HostPtr := ⟨(ps2ResolveGuestPointer addr).1, (ps2ResolveGuestPointer addr).2.toNat⟩

theorem getMemPtr_some {p : HostPtr} (h : getMemPtr spr addr = some p) : p = place addr := by
  rw [getMemPtr] at h
  dsimp only at h
  split at h
  · exact absurd h (Option.some_ne_none p).symm
  · exact (Option.some.inj h).symm

/-- The bytes of both memories. -/
def bytesOf (m : GuestMemory) (p : HostPtr) : BitVec 8 := m.area p.scratch p.offset

theorem bytesOf_update (p : HostPtr) (v : BitVec 8) :
    bytesOf (m.setArea p.scratch (Function.update (m.area p.scratch) p.offset v)) = Function.update (bytesOf m) p v := by
  funext q
  rw [bytesOf, GuestMemory.area_setArea]
  by_cases hq : q = p
  · rw [hq, if_pos rfl, Function.update_self, Function.update_self]
  · rw [Function.update_of_ne hq]
    split
    next hscratch =>
      have hoffset : q.offset ≠ p.offset := by
        intro hoffset
        refine hq ?_
        cases q
        cases p
        rw [SifRpc.HostPtr.mk.injEq]
        exact ⟨hscratch, hoffset⟩
      rw [Function.update_of_ne hoffset, bytesOf, hscratch]
    · rfl

/-! ### Ranges -/

def InScratch (addr : Word) : Prop := 0x70000000 ≤ addr.toNat ∧ addr.toNat < 0x70004000

instance : Decidable (InScratch addr) := instDecidableAnd

theorem copyable_iff : isCopyableGuestAddress addr = true ↔
    addr.toNat < 0x40000000 ∨ InScratch addr ∨ 0x80000000 ≤ addr.toNat ∧ addr.toNat < 0xC0000000 := by
  have hscratch : ps2AddressInRange addr scratchpadBase scratchpadSize = true ↔ InScratch addr :=
    inRange_iff addr scratchpadBase scratchpadSize (by decide)
  have hlow : addr < 0x20000000 ↔ addr.toNat < 0x20000000 := BitVec.lt_def
  rw [isCopyableGuestAddress, Bool.or_eq_true, Bool.or_eq_true, Bool.or_eq_true, hscratch, decide_eq_true_iff, hlow,
    mirror_iff, kseg01_iff, InScratch]
  omega

theorem place_scratch (h : InScratch addr) : place addr = ⟨true, addr.toNat - 0x70000000⟩ := by
  have hs : isScratchpad addr = true := isScratchpad_iff.2 (.inl h)
  have hin : scratchpadBase ≤ addr ∧ addr < scratchpadBase + scratchpadSize := ⟨BitVec.le_def.2 h.1, BitVec.lt_def.2 h.2⟩
  have hsub : (addr - scratchpadBase).toNat = addr.toNat - 0x70000000 := BitVec.toNat_sub_of_le hin.1
  rw [place, ps2ResolveGuestPointer, if_pos hs]
  dsimp only
  rw [ps2ScratchpadOffset, if_pos hin, hsub]

/-- RAM is reached through every segment, over and over. -/
theorem place_ram (hc : isCopyableGuestAddress addr = true) (h : ¬InScratch addr) :
    place addr = ⟨false, addr.toNat % 2 ^ 25⟩ := by
  have hc := copyable_iff.1 hc
  have hs : ¬isScratchpad addr = true := by
    rw [isScratchpad_iff]
    rw [InScratch] at h hc
    omega
  have hlow : (addr &&& 0x1FFFFFFF).toNat = addr.toNat % 2 ^ 29 := and_low rfl addr
  have hsize : ramSize.toNat = 2 ^ 25 := rfl
  -- the physical address, before it is cut to the size of RAM
  have hphys : ∀ phys : Word, phys.toNat % 2 ^ 25 = addr.toNat % 2 ^ 25 →
      (if ramSize ≤ phys then phys &&& ramMask else phys).toNat = addr.toNat % 2 ^ 25 := by
    intro phys hmod
    split
    · rw [and_ramMask, hmod]
    next hlt =>
      have hlt : phys.toNat < 2 ^ 25 := hsize ▸ not_le.1 fun hle => hlt (BitVec.le_def.2 hle)
      omega
  rw [place, ps2ResolveGuestPointer, if_neg hs]
  dsimp only
  rw [hphys]
  have h1 : addr < 0x20000000 ↔ addr.toNat < 0x20000000 := BitVec.lt_def
  have h2 : 0x20000000 ≤ addr ↔ 0x20000000 ≤ addr.toNat := BitVec.le_def
  have h3 : addr < 0x40000000 ↔ addr.toNat < 0x40000000 := BitVec.lt_def
  have h4 : 0x80000000 ≤ addr ↔ 0x80000000 ≤ addr.toNat := BitVec.le_def
  have h5 : addr < 0xC0000000 ↔ addr.toNat < 0xC0000000 := BitVec.lt_def
  rw [InScratch] at h hc
  split
  · rfl
  next hhigh =>
    have hmapped : 0x20000000 ≤ addr ∧ addr < 0x40000000 ∨ 0x80000000 ≤ addr ∧ addr < 0xC0000000 := by
      rw [h1] at hhigh
      rw [h2, h3, h4, h5]
      omega
    rw [if_pos hmapped, hlow]
    omega

theorem toNat_byteAddr (addr : Word) (hn : i < 2 ^ 32) : (byteAddr addr i).toNat = (addr.toNat + i) % 2 ^ 32 := by
  rw [byteAddr, BitVec.toNat_add, BitVec.toNat_ofNat, Nat.mod_eq_of_lt hn]

section

variable (h : ∀ j ≤ i, isCopyableGuestAddress (byteAddr addr j) = true) (hi : i < 2 ^ 32)

include h hi

/-- A range stays in the scratchpad, or outside: what is next to it cannot be copied. -/
theorem inScratch_byteAddr : InScratch (byteAddr addr i) ↔ InScratch addr := by
  induction i with
  | zero =>
    have hzero : byteAddr addr 0 = addr := BitVec.add_zero addr
    rw [hzero]
  | succ i ih =>
    rw [← ih (fun j hj => h j (by omega)) (by omega)]
    have hc := copyable_iff.1 (h i (by omega))
    have hc' := copyable_iff.1 (h (i + 1) le_rfl)
    have hi' := toNat_byteAddr addr hi
    have hi : (byteAddr addr i).toNat = (addr.toNat + i) % 2 ^ 32 := toNat_byteAddr addr (by omega)
    rw [InScratch] at hc hc' ⊢
    rw [InScratch]
    omega

theorem toNat_of_copyable : (byteAddr addr i).toNat = addr.toNat + i := by
  induction i with
  | zero =>
    have hzero : byteAddr addr 0 = addr := BitVec.add_zero addr
    rw [hzero, Nat.add_zero]
  | succ i ih =>
    have hlast := ih (fun j hj => h j (by omega)) (by omega)
    have hc := copyable_iff.1 (h i (by omega))
    rw [InScratch] at hc
    rw [toNat_byteAddr addr hi]
    exact Nat.mod_eq_of_lt (by omega)

end

/-- The bytes of a range that can be copied. -/
def Copyable (addr : Word) (n : ℕ) : Prop := ∀ i < n, isCopyableGuestAddress (byteAddr addr i) = true

section

variable (h : Copyable addr n) (hn : n ≤ 2 ^ 25)

include h hn

theorem Copyable.place (hi : i < n) :
    place (byteAddr addr i) =
      if InScratch addr then ⟨true, addr.toNat + i - 0x70000000⟩ else ⟨false, (addr.toNat + i) % 2 ^ 25⟩ := by
  have hall : ∀ j ≤ i, isCopyableGuestAddress (byteAddr addr j) = true := fun j hj => h j (by omega)
  have hin := inScratch_byteAddr hall (by omega)
  have htoNat := toNat_of_copyable hall (by omega)
  by_cases hscratch : InScratch addr
  · rw [if_pos hscratch, place_scratch (hin.2 hscratch), htoNat]
  · rw [if_neg hscratch, place_ram (h i hi) fun hs => hscratch (hin.1 hs), htoNat]

theorem Copyable.end_le (hscratch : InScratch addr) : addr.toNat + n ≤ 0x70004000 := by
  rcases Nat.eq_zero_or_pos n with rfl | hpos
  · exact le_of_lt hscratch.2
  · have hall : ∀ j ≤ n - 1, isCopyableGuestAddress (byteAddr addr j) = true := fun j hj => h j (by omega)
    have hin := (inScratch_byteAddr hall (by omega)).2 hscratch
    have htoNat := toNat_of_copyable hall (by omega)
    rw [InScratch] at hin
    omega

end

theorem canCopy_iff : canCopyGuestByteRange spr dst src size = true ↔
    Copyable src size.toNat ∧ Copyable dst size.toNat ∧ ∀ i < size.toNat,
      (getMemPtr spr (byteAddr src i)).isSome = true ∧ (getMemPtr spr (byteAddr dst i)).isSome = true := by
  rw [canCopyGuestByteRange, List.all_eq_true]
  constructor
  · intro h
    have hall : ∀ i < size.toNat, ((isCopyableGuestAddress (byteAddr src i) = true ∧
        isCopyableGuestAddress (byteAddr dst i) = true) ∧ (getMemPtr spr (byteAddr src i)).isSome = true) ∧
        (getMemPtr spr (byteAddr dst i)).isSome = true := by
      intro i hi
      have hand := h i (List.mem_range.2 hi)
      rw [Bool.and_eq_true, Bool.and_eq_true, Bool.and_eq_true] at hand
      exact hand
    exact ⟨fun i hi => (hall i hi).1.1.1, fun i hi => (hall i hi).1.1.2, fun i hi => ⟨(hall i hi).1.2, (hall i hi).2⟩⟩
  · rintro ⟨hsrc, hdst, hptr⟩ i hi
    have hi := List.mem_range.1 hi
    rw [Bool.and_eq_true, Bool.and_eq_true, Bool.and_eq_true]
    exact ⟨⟨⟨hsrc i hi, hdst i hi⟩, (hptr i hi).1⟩, (hptr i hi).2⟩

/-! ### Copies -/

/-- The places that are read, and those that are written. -/
abbrev places (addr : Word) (i : ℕ) : HostPtr := place (byteAddr addr i)

theorem copyByte_eq (hsrc : (getMemPtr spr (byteAddr src i)).isSome = true)
    (hdst : (getMemPtr spr (byteAddr dst i)).isSome = true) :
    ∃ m', copyByte spr dst src m i = some m' ∧
      bytesOf m' = Function.update (bytesOf m) (places dst i) (bytesOf m (places src i)) := by
  obtain ⟨p, hp⟩ := Option.isSome_iff_exists.1 hsrc
  obtain ⟨q, hq⟩ := Option.isSome_iff_exists.1 hdst
  refine ⟨_, by rw [copyByte, hp, hq], ?_⟩
  rw [bytesOf_update, getMemPtr_some hq, getMemPtr_some hp]
  rfl

theorem foldlM_copyByte {l : List ℕ} (h : ∀ i ∈ l, (getMemPtr spr (byteAddr src i)).isSome = true ∧
    (getMemPtr spr (byteAddr dst i)).isSome = true) :
    ∃ m', l.foldlM (copyByte spr dst src) m = some m' ∧
      bytesOf m' = copyEach (places src) (places dst) l (bytesOf m) := by
  induction l generalizing m with
  | nil => exact ⟨m, rfl, rfl⟩
  | cons i l ih =>
    obtain ⟨hsrc, hdst⟩ := h i List.mem_cons_self
    obtain ⟨m1, hcopy, hbytes⟩ := copyByte_eq (m := m) hsrc hdst
    obtain ⟨m', hfold, hm'⟩ := ih (m := m1) fun j hj => h j (List.mem_cons_of_mem _ hj)
    refine ⟨m', ?_, ?_⟩
    · rw [List.foldlM_cons, hcopy]
      exact hfold
    · rw [hm', hbytes]
      rfl

/-- The order of the copy. -/
def order (dst src size : Word) : List ℕ :=
  if copyBackward dst src size then (List.range size.toNat).reverse else List.range size.toNat

theorem mem_order : i ∈ order dst src size ↔ i ∈ List.range size.toNat := by
  rw [order]
  split
  · exact List.mem_reverse
  · exact Iff.rfl

theorem copyGuestByteRange_eq (h : canCopyGuestByteRange spr dst src size = true) (m : GuestMemory) :
    ∃ m', copyGuestByteRange spr dst src size m = some m' ∧
      bytesOf m' = copyEach (places src) (places dst) (order dst src size) (bytesOf m) := by
  rw [copyGuestByteRange, if_neg (not_not.2 h)]
  exact foldlM_copyByte fun i hi => (canCopy_iff.1 h).2.2 i (List.mem_range.1 (mem_order.1 hi))

/-! ### Directions -/

/-- How far the destination is ahead of the source in RAM. -/
def ahead (dst src : Word) : ℕ := (dst - src).toNat % 2 ^ 25

/-- The direction of the copy is right: the ranges are in different memories, or the source's bytes are not written
before they are read. -/
def Straight (dst src size : Word) : Prop :=
  (InScratch src ↔ ¬InScratch dst) ∨ ahead dst src = 0 ∨ size.toNat ≤ ahead dst src ∨
    copyBackward dst src size = true ∧ size.toNat + ahead dst src ≤ 2 ^ 25

theorem copyBackward_iff (dst src size : Word) :
    copyBackward dst src size = true ↔ src.toNat < dst.toNat ∧ dst.toNat < src.toNat + size.toNat := by
  rw [copyBackward, Bool.and_eq_true, decide_eq_true_iff, decide_eq_true_iff, BitVec.lt_def]

theorem toNat_ahead (dst src : Word) : ahead dst src = (dst.toNat + 2 ^ 32 - src.toNat) % 2 ^ 25 := by
  have hs := src.isLt
  have hd := dst.isLt
  rw [ahead, BitVec.toNat_sub]
  omega

section Directions

variable (hs : Copyable src size.toNat) (hd : Copyable dst size.toNat) (hn : size.toNat ≤ 2 ^ 25)

include hd hn in
theorem places_inj {j : ℕ} (hi : i < size.toNat) (hj : j < size.toNat) (hne : i ≠ j) : places dst i ≠ places dst j := by
  rw [places, places, hd.place hn hi, hd.place hn hj]
  split
  · intro heq
    have hoff := congrArg HostPtr.offset heq
    dsimp only at hoff
    have hlow := ‹InScratch dst›.1
    omega
  · intro heq
    have hoff := congrArg HostPtr.offset heq
    dsimp only at hoff
    omega

include hs hd hn in
/-- When what is written at `i` is read at `j`. -/
theorem places_eq_iff {j : ℕ} (hi : i < size.toNat) (hj : j < size.toNat) :
    places dst i = places src j ↔ (InScratch src ↔ InScratch dst) ∧
      if InScratch dst then dst.toNat + i = src.toNat + j else (dst.toNat + i) % 2 ^ 25 = (src.toNat + j) % 2 ^ 25 := by
  rw [places, places, hd.place hn hi, hs.place hn hj]
  by_cases hsrc : InScratch src
  · by_cases hdst : InScratch dst
    · rw [if_pos hsrc, if_pos hdst, if_pos hdst, HostPtr.mk.injEq]
      have h1 := hsrc.1
      have h2 := hdst.1
      constructor
      · rintro ⟨-, heq⟩
        exact ⟨iff_of_true hsrc hdst, by omega⟩
      · rintro ⟨-, heq⟩
        exact ⟨rfl, by omega⟩
    · rw [if_pos hsrc, if_neg hdst, if_neg hdst, HostPtr.mk.injEq]
      exact iff_of_false (fun h => Bool.false_ne_true h.1) fun h => hdst (h.1.1 hsrc)
  · by_cases hdst : InScratch dst
    · rw [if_neg hsrc, if_pos hdst, if_pos hdst, HostPtr.mk.injEq]
      exact iff_of_false (fun h => Bool.false_ne_true h.1.symm) fun h => hsrc (h.1.2 hdst)
    · rw [if_neg hsrc, if_neg hdst, if_neg hdst, HostPtr.mk.injEq]
      exact ⟨fun h => ⟨iff_of_false hsrc hdst, h.2⟩, fun h => ⟨rfl, h.2⟩⟩

include hs hd hn in
/-- In a copy in the right direction nothing is read that was written before. -/
theorem not_read_after (h : Straight dst src size) :
    (order dst src size).Pairwise fun i j => places dst i ≠ places src j := by
  have hsrc := src.isLt
  have hdst := dst.isLt
  have hback := copyBackward_iff dst src size
  have hahead := toNat_ahead dst src
  rw [Straight] at h
  rw [order]
  split
  next hb =>
    rw [List.pairwise_reverse]
    refine List.Pairwise.imp_of_mem (fun {j i} hj hi hlt heq => ?_) List.pairwise_lt_range
    have hi := List.mem_range.1 hi
    have hj := List.mem_range.1 hj
    obtain ⟨hsame, hplace⟩ := (places_eq_iff hs hd hn hi hj).1 heq
    obtain ⟨hgt, hlt'⟩ := hback.1 hb
    split at hplace
    · omega
    · rcases h with h | h | h | ⟨-, h⟩
      · exact absurd h (by rw [hsame]; exact iff_not_self)
      · omega
      · omega
      · omega
  next hb =>
    refine List.Pairwise.imp_of_mem (fun {i j} hi hj hlt heq => ?_) List.pairwise_lt_range
    have hi := List.mem_range.1 hi
    have hj := List.mem_range.1 hj
    obtain ⟨hsame, hplace⟩ := (places_eq_iff hs hd hn hi hj).1 heq
    have hnot : ¬(src.toNat < dst.toNat ∧ dst.toNat < src.toNat + size.toNat) := fun h => hb (hback.2 h)
    split at hplace
    · omega
    · rcases h with h | h | h | ⟨h, -⟩
      · exact absurd h (by rw [hsame]; exact iff_not_self)
      · omega
      · omega
      · exact absurd h hb

include hs hd hn in
/-- In the wrong direction what is copied first is read later. -/
theorem read_after (h : ¬Straight dst src size) : ∃ i rest j, order dst src size = i :: rest ∧ j ∈ rest ∧ places dst i =
    places src j ∧ i < size.toNat ∧ j < size.toNat ∧ i ≠ j := by
  have hsrc := src.isLt
  have hdst := dst.isLt
  have hback := copyBackward_iff dst src size
  have hahead := toNat_ahead dst src
  rw [Straight, not_or, not_or, not_or] at h
  obtain ⟨hmixed, hzero, hnear, hround⟩ := h
  have hsame : InScratch src ↔ InScratch dst := by
    by_contra hne
    exact hmixed (by tauto)
  -- in the scratchpad, which is not reached in two ways, the direction is always right
  have hram : ¬InScratch dst := by
    intro hscratch
    have hscratch' := hsame.2 hscratch
    have hend := hd.end_le hn hscratch
    have hend' := hs.end_le hn hscratch'
    have hlow := hscratch.1
    have hlow' := hscratch'.1
    by_cases hb : src.toNat < dst.toNat ∧ dst.toNat < src.toNat + size.toNat
    · exact hround ⟨hback.2 hb, by omega⟩
    · omega
  by_cases hb : copyBackward dst src size = true
  · obtain ⟨n, hn'⟩ : ∃ n, size.toNat = n + 1 := ⟨size.toNat - 1, by omega⟩
    have hfar : 2 ^ 25 < size.toNat + ahead dst src := not_le.1 fun hle => hround ⟨hb, hle⟩
    obtain ⟨hgt, hlt⟩ := hback.1 hb
    refine ⟨n, (List.range n).reverse, n + ahead dst src - 2 ^ 25, ?_, ?_, ?_, by omega, by omega, by omega⟩
    · rw [order, if_pos hb, hn', List.range_succ, List.reverse_append]
      rfl
    · rw [List.mem_reverse, List.mem_range]
      omega
    · refine (places_eq_iff hs hd hn (by omega) (by omega)).2 ⟨hsame, ?_⟩
      rw [if_neg hram]
      omega
  · obtain ⟨n, hn'⟩ : ∃ n, size.toNat = n + 1 := ⟨size.toNat - 1, by omega⟩
    refine ⟨0, (List.range n).map Nat.succ, ahead dst src, ?_, ?_, ?_, by omega, by omega, by omega⟩
    · rw [order, if_neg hb, hn', List.range_succ_eq_map]
    · rw [List.mem_map]
      exact ⟨ahead dst src - 1, List.mem_range.2 (by omega), by omega⟩
    · refine (places_eq_iff hs hd hn (by omega) (by omega)).2 ⟨hsame, ?_⟩
      rw [if_neg hram]
      omega

end Directions

theorem order_nodup : (order dst src size).Pairwise fun i j => i ≠ j := by
  rw [order]
  split
  · rw [List.pairwise_reverse]
    exact List.pairwise_lt_range.imp fun hlt heq => absurd heq (ne_of_gt hlt)
  · exact List.pairwise_lt_range.imp fun hlt heq => absurd heq (ne_of_lt hlt)

/-- The memory with given bytes. -/
def memoryOf (bytes : HostPtr → BitVec 8) : GuestMemory :=
  ⟨fun offset => bytes ⟨false, offset⟩, fun offset => bytes ⟨true, offset⟩⟩

theorem bytesOf_memoryOf (bytes : HostPtr → BitVec 8) : bytesOf (memoryOf bytes) = bytes := by
  funext p
  rw [bytesOf]
  cases p with
  | mk scratch offset => cases scratch <;> rfl

/-- **A copy is a move of every content just when its direction is right.** -/
theorem copy_moves_iff (h : canCopyGuestByteRange spr dst src size = true) (hn : size.toNat ≤ 2 ^ 25) :
    (∀ m m', copyGuestByteRange spr dst src size m = some m' →
      Moved (places src) (places dst) (List.range size.toNat) (bytesOf m) (bytesOf m')) ↔ Straight dst src size := by
  obtain ⟨hs, hd, -⟩ := canCopy_iff.1 h
  have hinj : (order dst src size).Pairwise fun i j => places dst i ≠ places dst j := by
    refine List.Pairwise.imp_of_mem (fun {i j} hi hj hne => ?_) order_nodup
    exact places_inj hd hn (List.mem_range.1 (mem_order.1 hi)) (List.mem_range.1 (mem_order.1 hj)) hne
  constructor
  · intro hall
    by_contra hnot
    obtain ⟨i, rest, j, horder, hj, hread, hi', hj', hne⟩ := read_after hs hd hn hnot
    rw [horder] at hinj
    have htwo : Nontrivial (BitVec 8) := ⟨⟨0, 1, by decide⟩⟩
    obtain ⟨bytes, hbytes⟩ := exists_not_moved (V := BitVec 8) hinj hj hread (places_inj hs hn hi' hj' hne)
    obtain ⟨m', hcopy, hm'⟩ := copyGuestByteRange_eq h (memoryOf bytes)
    refine hbytes ?_
    have hmoved := hall _ _ hcopy
    rw [hm', bytesOf_memoryOf, horder] at hmoved
    exact hmoved.perm fun k => by rw [← horder, mem_order]
  · intro hstraight m m' hcopy
    obtain ⟨m1, hcopy', hm1⟩ := copyGuestByteRange_eq h m
    have heq : m1 = m' := Option.some.inj (hcopy'.symm.trans hcopy)
    rw [← heq, hm1]
    exact (moved_copyEach hinj (not_read_after hs hd hn hstraight)).perm fun k => mem_order.symm

/-! ### Lists -/

section Lists

variable {env : Env} {dmatAddr count : Word} {l : List ℕ}

/-- The descriptors that ask for something. -/
def transfers (env : Env) (m : GuestMemory) (dmatAddr : Word) (l : List ℕ) : List Ps2SifDmaTransfer :=
  (l.filterMap (readTransfer env m dmatAddr)).filter fun xfer => 0 < xfer.size.toInt

/-- The packets of the RPC protocol among them. -/
def packets (env : Env) (m : GuestMemory) (dmatAddr : Word) (l : List ℕ) : List SifRpcReplyPacket :=
  (transfers env m dmatAddr l).filterMap (rpcPacket env m)

/-- A transfer that is accepted. -/
structure Good (env : Env) (xfer : Ps2SifDmaTransfer) : Prop where
  size_le : xfer.size ≤ ramSize
  copyable : isCopyableGuestAddress xfer.src = true
  mapped : getMemPtr env.scratchpadMapped xfer.src ≠ none

/-- Descriptors that can be read, with transfers that are accepted. -/
structure AllGood (env : Env) (m : GuestMemory) (dmatAddr : Word) (l : List ℕ) : Prop where
  readable : ∀ i ∈ l, (readTransfer env m dmatAddr i).isSome = true
  good : ∀ xfer ∈ transfers env m dmatAddr l, Good env xfer

variable {xfer : Ps2SifDmaTransfer}

section

variable {i : ℕ} (h : readTransfer env m dmatAddr i = some xfer)

include h

theorem transfers_cons :
    transfers env m dmatAddr (i :: l) =
      if 0 < xfer.size.toInt then xfer :: transfers env m dmatAddr l else transfers env m dmatAddr l := by
  rw [transfers, List.filterMap_cons, h]
  dsimp only
  rw [List.filter_cons]
  by_cases hpos : 0 < xfer.size.toInt
  · rw [if_pos hpos, if_pos (decide_eq_true hpos), transfers]
  · rw [if_neg hpos, if_neg (by rw [decide_eq_true_iff]; exact hpos), transfers]

theorem allGood_cons :
    AllGood env m dmatAddr (i :: l) ↔ (0 < xfer.size.toInt → Good env xfer) ∧ AllGood env m dmatAddr l := by
  have hcons := transfers_cons (l := l) h
  constructor
  · intro hall
    refine ⟨fun hpos => hall.good xfer ?_, fun j hj => hall.readable j (List.mem_cons_of_mem _ hj),
      fun x hx => hall.good x ?_⟩
    · rw [hcons, if_pos hpos]
      exact List.mem_cons_self
    · rw [hcons]
      split
      · exact List.mem_cons_of_mem _ hx
      · exact hx
  · rintro ⟨hgood, hall⟩
    refine ⟨fun j hj => ?_, fun x hx => ?_⟩
    · rcases List.mem_cons.1 hj with rfl | hj
      · rw [h]
        rfl
      · exact hall.readable j hj
    · rw [hcons] at hx
      split at hx
      next hpos =>
        rcases List.mem_cons.1 hx with rfl | hx
        · exact hgood hpos
        · exact hall.good x hx
      · exact hall.good x hx

end

variable {checked : Checked}

section

variable {i : ℕ} (h : readTransfer env m dmatAddr i = some xfer)

include h

theorem checkTransfer_skip (hpos : ¬0 < xfer.size.toInt) : checkTransfer env m dmatAddr checked i = some checked := by
  rw [checkTransfer, h]
  dsimp only
  rw [if_pos (not_lt.1 hpos)]

section

variable (hpos : 0 < xfer.size.toInt)

include hpos

theorem checkTransfer_good (hgood : Good env xfer) : checkTransfer env m dmatAddr checked i =
    some ⟨checked.pending ++ [xfer], checked.rpcReply.or (rpcPacket env m xfer)⟩ := by
  have hbad : ¬(¬isCopyableGuestAddress xfer.src = true ∨ getMemPtr env.scratchpadMapped xfer.src = none) :=
    fun h => h.elim (fun h => h hgood.copyable) hgood.mapped
  rw [checkTransfer, h]
  dsimp only
  rw [if_neg (not_le.2 hpos), if_neg (BitVec.not_lt.2 hgood.size_le), if_neg hbad]

theorem checkTransfer_bad (hgood : ¬Good env xfer) : checkTransfer env m dmatAddr checked i = none := by
  rw [checkTransfer, h]
  dsimp only
  rw [if_neg (not_le.2 hpos)]
  split
  · rfl
  next hsize =>
    split
    · rfl
    next hbad =>
      obtain ⟨hcopyable, hmapped⟩ := not_or.1 hbad
      exact absurd ⟨BitVec.not_lt.1 hsize, not_not.1 hcopyable, hmapped⟩ hgood

theorem head_packets :
    (packets env m dmatAddr (i :: l)).head? = (rpcPacket env m xfer).or (packets env m dmatAddr l).head? := by
  rw [packets, packets, transfers_cons h, if_pos hpos, List.filterMap_cons]
  cases rpcPacket env m xfer with
  | none => rfl
  | some packet => rfl

end

end

/-- **The checks** end with the transfers and the first packet, if all is accepted. -/
theorem foldlM_check (checked : Checked) (h : AllGood env m dmatAddr l) :
    l.foldlM (checkTransfer env m dmatAddr) checked =
      some ⟨checked.pending ++ transfers env m dmatAddr l, checked.rpcReply.or (packets env m dmatAddr l).head?⟩ := by
  induction l generalizing checked with
  | nil =>
    have hpackets : packets env m dmatAddr [] = [] := rfl
    have htransfers : transfers env m dmatAddr [] = [] := rfl
    rw [hpackets, htransfers, List.append_nil, List.head?_nil, Option.or_none]
    rfl
  | cons i l ih =>
    obtain ⟨xfer, hread⟩ := Option.isSome_iff_exists.1 (h.readable i List.mem_cons_self)
    obtain ⟨hgood, hall⟩ := (allGood_cons hread).1 h
    rw [List.foldlM_cons]
    by_cases hpos : 0 < xfer.size.toInt
    · have happend : checked.pending ++ xfer :: transfers env m dmatAddr l =
          checked.pending ++ [xfer] ++ transfers env m dmatAddr l := List.append_cons _ _ _
      rw [checkTransfer_good hread hpos (hgood hpos), transfers_cons hread, if_pos hpos, head_packets hread hpos,
        ← Option.or_assoc, happend]
      exact ih ⟨checked.pending ++ [xfer], checked.rpcReply.or (rpcPacket env m xfer)⟩ hall
    · have hpackets : packets env m dmatAddr (i :: l) = packets env m dmatAddr l := by
        rw [packets, packets, transfers_cons hread, if_neg hpos]
      rw [checkTransfer_skip hread hpos, transfers_cons hread, if_neg hpos, hpackets]
      exact ih checked hall

/-- If not, they give up. -/
theorem foldlM_check_none (checked : Checked) (h : ¬AllGood env m dmatAddr l) :
    l.foldlM (checkTransfer env m dmatAddr) checked = none := by
  induction l generalizing checked with
  | nil => exact absurd ⟨fun i hi => absurd hi List.not_mem_nil, fun x hx => absurd hx List.not_mem_nil⟩ h
  | cons i l ih =>
    rw [List.foldlM_cons]
    cases hread : readTransfer env m dmatAddr i with
    | none =>
      rw [checkTransfer, hread]
      rfl
    | some xfer =>
      rw [allGood_cons hread] at h
      by_cases hpos : 0 < xfer.size.toInt
      · by_cases hgood : Good env xfer
        · rw [checkTransfer_good hread hpos hgood]
          exact ih _ fun hall => h ⟨fun _ => hgood, hall⟩
        · rw [checkTransfer_bad hread hpos hgood]
          rfl
      · rw [checkTransfer_skip hread hpos]
        exact ih checked fun hall => h ⟨fun hpos' => absurd hpos' hpos, hall⟩

/-! ### Delivery -/

/-- Transfers, one after the other: each is moved as a whole if it leads from guest memory to guest memory, and then
noted and acknowledged. -/
inductive Delivers (env : Env) : List Ps2SifDmaTransfer → GuestMemory → GuestMemory → Prop
  | nil (m : GuestMemory) : Delivers env [] m m
  | cons (xfer : Ps2SifDmaTransfer) {rest : List Ps2SifDmaTransfer} {m moved m' : GuestMemory}
      (hmoved : if canCopyGuestByteRange env.scratchpadMapped xfer.dest xfer.src xfer.size then
        Moved (places xfer.src) (places xfer.dest) (List.range xfer.size.toNat) (bytesOf m) (bytesOf moved)
        else moved = m)
      (hrest : Delivers env rest (ackSjxStreamRingIfMatched env xfer (env.noteDtxSifDmaTransfer xfer moved)) m') :
      Delivers env (xfer :: rest) m m'

/-- Every copy goes in the right direction. -/
def AllStraight (env : Env) (l : List Ps2SifDmaTransfer) : Prop :=
  ∀ xfer ∈ l, canCopyGuestByteRange env.scratchpadMapped xfer.dest xfer.src xfer.size = true →
    Straight xfer.dest xfer.src xfer.size

theorem isCopyable_of_canCopy (hpos : 0 < xfer.size.toInt)
    (h : canCopyGuestByteRange spr xfer.dest xfer.src xfer.size = true) : isCopyableGuestAddress xfer.dest = true := by
  have hsize : 0 < xfer.size.toNat := by
    refine Nat.pos_of_ne_zero fun hzero => ?_
    have heq : xfer.size = 0 := BitVec.eq_of_toNat_eq hzero
    rw [heq] at hpos
    exact absurd hpos (by decide)
  have hfirst := (canCopy_iff.1 h).2.1 0 hsize
  have hzero : byteAddr xfer.dest 0 = xfer.dest := BitVec.add_zero _
  rw [hzero] at hfirst
  exact hfirst

theorem doTransfer_eq (hpos : 0 < xfer.size.toInt) (m : GuestMemory) :
    ∃ moved, doTransfer env m xfer =
        some (ackSjxStreamRingIfMatched env xfer (env.noteDtxSifDmaTransfer xfer moved)) ∧
      if canCopyGuestByteRange env.scratchpadMapped xfer.dest xfer.src xfer.size then
        copyGuestByteRange env.scratchpadMapped xfer.dest xfer.src xfer.size m = some moved
      else moved = m := by
  rw [doTransfer]
  by_cases hcan : canCopyGuestByteRange env.scratchpadMapped xfer.dest xfer.src xfer.size = true
  · obtain ⟨moved, hcopy, -⟩ := copyGuestByteRange_eq hcan m
    refine ⟨moved, ?_, by rw [if_pos hcan, hcopy]⟩
    rw [hcan, isCopyable_of_canCopy hpos hcan, Bool.true_and, if_pos rfl, hcopy]
    rfl
  · refine ⟨m, ?_, by rw [if_neg hcan]⟩
    rw [eq_false_of_ne_true hcan, Bool.and_false, if_neg Bool.false_ne_true]
    rfl

section

variable {l : List Ps2SifDmaTransfer} (hpos : ∀ xfer ∈ l, 0 < xfer.size.toInt)

include hpos

theorem doTransfers_ok (m : GuestMemory) : ∃ m', doTransfers env l m = (true, m') := by
  induction l generalizing m with
  | nil => exact ⟨m, rfl⟩
  | cons xfer l ih =>
    obtain ⟨moved, hdo, -⟩ := doTransfer_eq (hpos xfer List.mem_cons_self) m
    rw [doTransfers, hdo]
    exact ih (fun x hx => hpos x (List.mem_cons_of_mem _ hx)) _

theorem delivers (hgood : ∀ xfer ∈ l, Good env xfer) (hstraight : AllStraight env l) (m : GuestMemory) :
    Delivers env l m (doTransfers env l m).2 := by
  induction l generalizing m with
  | nil => exact .nil m
  | cons xfer l ih =>
    obtain ⟨moved, hdo, hmoved⟩ := doTransfer_eq (hpos xfer List.mem_cons_self) m
    rw [doTransfers, hdo]
    have hrest := ih (fun x hx => hpos x (List.mem_cons_of_mem _ hx)) (fun x hx => hgood x (List.mem_cons_of_mem _ hx))
      (fun x hx => hstraight x (List.mem_cons_of_mem _ hx))
      (ackSjxStreamRingIfMatched env xfer (env.noteDtxSifDmaTransfer xfer moved))
    refine .cons xfer ?_ hrest
    by_cases hcan : canCopyGuestByteRange env.scratchpadMapped xfer.dest xfer.src xfer.size = true
    · rw [if_pos hcan] at hmoved ⊢
      have hsize : xfer.size.toNat ≤ 2 ^ 25 := BitVec.le_def.1 (hgood xfer List.mem_cons_self).size_le
      exact (copy_moves_iff hcan hsize).2 (hstraight xfer List.mem_cons_self hcan) m moved hmoved
    · rw [if_neg hcan] at hmoved ⊢
      exact hmoved

end

/-! ### The call -/

/-- The arguments, the descriptors and their transfers are accepted. -/
structure Accepted (env : Env) (m : GuestMemory) (dmatAddr count : Word) : Prop where
  dmatAddr_ne_zero : dmatAddr ≠ 0
  count_ne_zero : count ≠ 0
  count_le : count ≤ 32
  allGood : AllGood env m dmatAddr (List.range count.toNat)

/-- A call that fails has no effect; one that succeeds does every transfer and answers every packet once. -/
structure Sound (env : Env) (m : GuestMemory) (dmatAddr count : Word) : Prop where
  failed : (sceSifSetDma env m dmatAddr count).ret = 0 →
    (sceSifSetDma env m dmatAddr count).memory = m ∧ (sceSifSetDma env m dmatAddr count).delivered = []
  moved : (sceSifSetDma env m dmatAddr count).ret ≠ 0 →
    Delivers env (transfers env m dmatAddr (List.range count.toNat)) m (sceSifSetDma env m dmatAddr count).memory
  replied : (sceSifSetDma env m dmatAddr count).ret ≠ 0 →
    (sceSifSetDma env m dmatAddr count).delivered.Perm (packets env m dmatAddr (List.range count.toNat))

theorem pos_of_mem_transfers (h : xfer ∈ transfers env m dmatAddr l) :
    0 < xfer.size.toInt := of_decide_eq_true (List.mem_filter.1 h).2

theorem sceSifSetDma_failed (h : ¬Accepted env m dmatAddr count) : sceSifSetDma env m dmatAddr count = ⟨0, m, []⟩ := by
  rw [sceSifSetDma]
  split
  · rfl
  next hargs =>
    obtain ⟨hdmat, hrest⟩ := not_or.1 hargs
    obtain ⟨hcount, hle⟩ := not_or.1 hrest
    have hbad : ¬AllGood env m dmatAddr (List.range count.toNat) := fun hall =>
      h ⟨hdmat, hcount, BitVec.not_lt.1 hle, hall⟩
    rw [foldlM_check_none _ hbad]

theorem sceSifSetDma_eq (h : Accepted env m dmatAddr count) : sceSifSetDma env m dmatAddr count =
    ⟨env.dmaId, (doTransfers env (transfers env m dmatAddr (List.range count.toNat)) m).2,
      (packets env m dmatAddr (List.range count.toNat)).head?.toList⟩ := by
  have hargs : ¬(dmatAddr = 0 ∨ count = 0 ∨ 32 < count) := by
    rintro (hzero | hzero | hlt)
    · exact h.dmatAddr_ne_zero hzero
    · exact h.count_ne_zero hzero
    · exact BitVec.not_lt.2 h.count_le hlt
  obtain ⟨m', hdone⟩ : ∃ m', doTransfers env (transfers env m dmatAddr (List.range count.toNat)) m = (true, m') :=
    doTransfers_ok (fun xfer hx => pos_of_mem_transfers hx) m
  rw [sceSifSetDma, if_neg hargs, foldlM_check _ h.allGood]
  dsimp only
  rw [List.nil_append, hdone, Option.none_or]

end Lists

/-! ### Instances -/

def plainEnv : Env where
  scratchpadMapped := false
  sjxRings := []
  noteDtxSifDmaTransfer := fun _ m => m
  dmaId := 1
  dmaId_ne_zero := by decide

/-- A list at 0x100 of transfers to the IOP, all of the same 32 bytes at 0x1000, which are a BIND packet. -/
def bindMemory : GuestMemory where
  rdram := fun p =>
    if 0x100 ≤ p ∧ p < 0x140 then
      let words : List Word := [0x1000, 0xFFFFFFFF, 0x20, 0]
      BitVec.ofNat 8 ((words.getD ((p - 0x100) % 16 / 4) 0).toNat / 256 ^ (p % 4))
    else if 0x1008 ≤ p ∧ p < 0x100C then BitVec.ofNat 8 (kSifCmdRpcBind.toNat / 256 ^ (p % 4))
    else 0
  scratchpad := fun _ => 0

end Ps2Recomp.SifDma
