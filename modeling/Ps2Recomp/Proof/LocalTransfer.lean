import Ps2Recomp.Spec.LocalTransfer
import Ps2Recomp.Proof.PixelWrite
import Ps2Recomp.Lib.Moves
import Mathlib.Data.List.FinRange

/-!
# Transfers within one buffer

`writeTrxdir_moves`: a transfer within a buffer of whole pages moves the pixels of its rectangle, also where
source and destination overlap, when its direction leads away from what it has written. A buffer that is half
a page wide and a direction that leads the other way stand in `not_moved`.
-/

namespace Ps2Recomp.GSMem

open Bytes PixelStorageMode
open Vertices (field storeField)

namespace ImageGs

variable {gs : ImageGs} {psm : PixelStorageMode} {i j n : ℕ}

/-! ### Order -/

/-- The rows are copied from the last to the first. -/
def Upward (gs : ImageGs) : Prop := gs.dir = 1 ∨ gs.dir = 3

/-- The pixels of a row are copied from the last to the first. -/
def Leftward (gs : ImageGs) : Prop := gs.dir = 2 ∨ gs.dir = 3

/-- The rectangles have a pixel in common. -/
def Overlapping (gs : ImageGs) : Prop :=
  (gs.ssax < gs.dsax + gs.rrw ∧ gs.dsax < gs.ssax + gs.rrw) ∧ gs.ssay < gs.dsay + gs.rrh ∧ gs.dsay < gs.ssay + gs.rrh

/-- Where the rectangles overlap, the direction leads away from the destination. -/
structure Ordered (gs : ImageGs) : Prop where
  up : gs.Overlapping → gs.ssay < gs.dsay → gs.Upward
  down : gs.Overlapping → gs.dsay < gs.ssay → ¬gs.Upward
  left : gs.Overlapping → gs.dsay = gs.ssay → gs.ssax < gs.dsax → gs.Leftward
  right : gs.Overlapping → gs.dsay = gs.ssay → gs.dsax < gs.ssax → ¬gs.Leftward

section

variable (gs : ImageGs)

theorem dir_lt : gs.dir < 4 := (field gs.trxpos 59 2).isLt

theorem copiedPixel_fst (i : ℕ) : (gs.Leftward ∧ (gs.copiedPixel i).1 = gs.rrw - i % gs.rrw - 1) ∨
    (¬gs.Leftward ∧ (gs.copiedPixel i).1 = i % gs.rrw) := by
  have hlt := gs.dir_lt
  unfold copiedPixel Leftward
  interval_cases gs.dir <;> simp

theorem copiedPixel_snd (i : ℕ) : (gs.Upward ∧ (gs.copiedPixel i).2 = gs.rrh - i / gs.rrw - 1) ∨
    (¬gs.Upward ∧ (gs.copiedPixel i).2 = i / gs.rrw) := by
  have hlt := gs.dir_lt
  unfold copiedPixel Upward
  interval_cases gs.dir <;> simp

end

theorem turn_lt (hi : i < gs.rrw * gs.rrh) : i % gs.rrw < gs.rrw ∧ i / gs.rrw < gs.rrh := by
  have hw : 0 < gs.rrw := Nat.pos_of_ne_zero fun h0 => by simp [h0] at hi
  exact ⟨Nat.mod_lt i hw, Nat.div_lt_of_lt_mul hi⟩

theorem copiedPixel_lt (hi : i < gs.rrw * gs.rrh) : (gs.copiedPixel i).1 < gs.rrw ∧ (gs.copiedPixel i).2 < gs.rrh := by
  obtain ⟨hcol, hrow⟩ := turn_lt hi
  have hx := gs.copiedPixel_fst i
  have hy := gs.copiedPixel_snd i
  generalize i % gs.rrw = col at *
  generalize i / gs.rrw = row at *
  exact ⟨by rcases hx with ⟨-, hx⟩ | ⟨-, hx⟩ <;> omega, by rcases hy with ⟨-, hy⟩ | ⟨-, hy⟩ <;> omega⟩

theorem exists_copiedPixel {x y : ℕ} (hx : x < gs.rrw) (hy : y < gs.rrh) :
    ∃ i < gs.rrw * gs.rrh, gs.copiedPixel i = (x, y) := by
  -- The column and the row in the order of the turns.
  obtain ⟨col, hcol, hxcol⟩ : ∃ col < gs.rrw, (gs.Leftward ∧ x = gs.rrw - col - 1) ∨ (¬gs.Leftward ∧ x = col) := by
    by_cases hl : gs.Leftward
    · exact ⟨gs.rrw - x - 1, by omega, .inl ⟨hl, by omega⟩⟩
    · exact ⟨x, hx, .inr ⟨hl, rfl⟩⟩
  obtain ⟨row, hrow, hyrow⟩ : ∃ row < gs.rrh, (gs.Upward ∧ y = gs.rrh - row - 1) ∨ (¬gs.Upward ∧ y = row) := by
    by_cases hu : gs.Upward
    · exact ⟨gs.rrh - y - 1, by omega, .inl ⟨hu, by omega⟩⟩
    · exact ⟨y, hy, .inr ⟨hu, rfl⟩⟩
  have hw : 0 < gs.rrw := Nat.zero_lt_of_lt hx
  have hmod : (row * gs.rrw + col) % gs.rrw = col := by
    rw [Nat.add_comm, Nat.add_mul_mod_self_right, Nat.mod_eq_of_lt hcol]
  have hdiv : (row * gs.rrw + col) / gs.rrw = row := by
    rw [Nat.add_comm, Nat.add_mul_div_right _ _ hw, Nat.div_eq_of_lt hcol, Nat.zero_add]
  refine ⟨row * gs.rrw + col, ?_, Prod.ext ?_ ?_⟩
  · rw [Nat.mul_comm gs.rrw]
    exact digits_lt hrow hcol
  · rcases gs.copiedPixel_fst (row * gs.rrw + col) with ⟨hl, h⟩ | ⟨hl, h⟩ <;> rw [hmod] at h
    · exact h.trans (hxcol.resolve_right fun hno => hno.1 hl).2.symm
    · exact h.trans (hxcol.resolve_left fun hno => hl hno.1).2.symm
  · rcases gs.copiedPixel_snd (row * gs.rrw + col) with ⟨hu, h⟩ | ⟨hu, h⟩ <;> rw [hdiv] at h
    · exact h.trans (hyrow.resolve_right fun hno => hno.1 hu).2.symm
    · exact h.trans (hyrow.resolve_left fun hno => hu hno.1).2.symm

section

variable (hi : i < gs.rrw * gs.rrh) (hj : j < gs.rrw * gs.rrh)

include hi hj

theorem column_inj (h : (gs.copiedPixel i).1 = (gs.copiedPixel j).1) : i % gs.rrw = j % gs.rrw := by
  have hci := (turn_lt hi).1
  have hcj := (turn_lt hj).1
  have hxi := gs.copiedPixel_fst i
  have hxj := gs.copiedPixel_fst j
  generalize i % gs.rrw = ci at *
  generalize j % gs.rrw = cj at *
  rcases hxi with ⟨hl, hxi⟩ | ⟨hl, hxi⟩
  · have := (hxj.resolve_right fun hno => hno.1 hl).2
    omega
  · have := (hxj.resolve_left fun hno => hl hno.1).2
    omega

theorem row_inj (h : (gs.copiedPixel i).2 = (gs.copiedPixel j).2) : i / gs.rrw = j / gs.rrw := by
  have hri := (turn_lt hi).2
  have hrj := (turn_lt hj).2
  have hyi := gs.copiedPixel_snd i
  have hyj := gs.copiedPixel_snd j
  generalize i / gs.rrw = ri at *
  generalize j / gs.rrw = rj at *
  rcases hyi with ⟨hu, hyi⟩ | ⟨hu, hyi⟩
  · have := (hyj.resolve_right fun hno => hno.1 hu).2
    omega
  · have := (hyj.resolve_left fun hno => hu hno.1).2
    omega

end

/-- Later turns are in later rows, or further on in the same. -/
theorem turn_order (hij : i < j) (w : ℕ) : i / w < j / w ∨ i / w = j / w ∧ i % w < j % w := by
  rcases Nat.lt_or_ge (i / w) (j / w) with h | h
  · exact .inl h
  · right
    have heq : i / w = j / w := Nat.le_antisymm (Nat.div_le_div_right hij.le) h
    have hi := Nat.div_add_mod i w
    have hj := Nat.div_add_mod j w
    rw [heq] at hi
    generalize w * (j / w) = start at *
    exact ⟨heq, by omega⟩

theorem copiedPixel_ne (hij : i < j) (hj : j < gs.rrw * gs.rrh) : gs.copiedPixel i ≠ gs.copiedPixel j := by
  intro h
  have hcol := column_inj (Nat.lt_trans hij hj) hj (congrArg Prod.fst h)
  have hrow := row_inj (Nat.lt_trans hij hj) hj (congrArg Prod.snd h)
  rcases turn_order hij gs.rrw with hturn | ⟨-, hturn⟩
  · exact absurd hrow hturn.ne
  · exact absurd hcol hturn.ne

/-- **A pixel that has been written is not read later.** -/
theorem Ordered.apart (h : gs.Ordered) (hij : i < j) (hj : j < gs.rrw * gs.rrh) :
    ((gs.copiedPixel i).1 + gs.dsax, (gs.copiedPixel i).2 + gs.dsay) ≠
      ((gs.copiedPixel j).1 + gs.ssax, (gs.copiedPixel j).2 + gs.ssay) := by
  intro heq
  obtain ⟨hx, hy⟩ := Prod.mk.inj heq
  have hi := Nat.lt_trans hij hj
  have hturn := turn_order hij gs.rrw
  obtain ⟨hci, hri⟩ := turn_lt hi
  obtain ⟨hcj, hrj⟩ := turn_lt hj
  have hcommon : gs.Overlapping := by
    obtain ⟨hxi, hyi⟩ := copiedPixel_lt hi
    obtain ⟨hxj, hyj⟩ := copiedPixel_lt hj
    exact ⟨⟨by omega, by omega⟩, by omega, by omega⟩
  rcases Nat.lt_trichotomy gs.ssay gs.dsay with hlt | hrow | hgt
  · -- The row that is read lies below the one that was written, and has been copied before it.
    have hup := h.up hcommon hlt
    have hyi := ((gs.copiedPixel_snd i).resolve_right fun hno => hno.1 hup).2
    have hyj := ((gs.copiedPixel_snd j).resolve_right fun hno => hno.1 hup).2
    generalize i / gs.rrw = ri at *
    generalize j / gs.rrw = rj at *
    omega
  · have hsame : i / gs.rrw = j / gs.rrw := row_inj hi hj (by omega)
    have hlater : i % gs.rrw < j % gs.rrw := (hturn.resolve_left fun hno => by omega).2
    rcases Nat.lt_trichotomy gs.ssax gs.dsax with hlt | hcol | hgt
    · have hleft := h.left hcommon hrow.symm hlt
      have hxi := ((gs.copiedPixel_fst i).resolve_right fun hno => hno.1 hleft).2
      have hxj := ((gs.copiedPixel_fst j).resolve_right fun hno => hno.1 hleft).2
      generalize i % gs.rrw = ci at *
      generalize j % gs.rrw = cj at *
      omega
    · exact absurd (column_inj hi hj (by omega)) hlater.ne
    · have hright := h.right hcommon hrow.symm hgt
      have hxi := ((gs.copiedPixel_fst i).resolve_left fun hno => hright hno.1).2
      have hxj := ((gs.copiedPixel_fst j).resolve_left fun hno => hright hno.1).2
      generalize i % gs.rrw = ci at *
      generalize j % gs.rrw = cj at *
      omega
  · have hdown := h.down hcommon hgt
    have hyi := ((gs.copiedPixel_snd i).resolve_left fun hno => hdown hno.1).2
    have hyj := ((gs.copiedPixel_snd j).resolve_left fun hno => hdown hno.1).2
    generalize i / gs.rrw = ri at *
    generalize j / gs.rrw = rj at *
    omega

/-! ### Pixels of the buffer -/

/-- The transfer stays within one buffer, of the mode `psm`, and its rectangles fit. -/
structure Within (gs : ImageGs) (psm : PixelStorageMode) : Prop where
  mode : psmOf gs.spsm = some psm
  spsm : gs.dpsm = gs.spsm
  base : gs.dbp = gs.sbp
  width : gs.copyDbw = gs.copySbw
  source : ∀ x < gs.rrw, ∀ y < gs.rrh, psm.Fits gs.copySbw (x + gs.ssax) (y + gs.ssay)
  destination : ∀ x < gs.rrw, ∀ y < gs.rrh, psm.Fits gs.copySbw (x + gs.dsax) (y + gs.dsay)

/-- The pixels of a buffer. -/
abbrev Pixel (gs : ImageGs) (psm : PixelStorageMode) : Type := { p : ℕ × ℕ // psm.Fits gs.copySbw p.1 p.2 }

/-- What the pixels of the buffer hold. -/
def pixels (gs : ImageGs) (psm : PixelStorageMode) (vram : Memory) (p : gs.Pixel psm) : ℕ :=
  readPixelFuncs psm vram gs.sbp gs.copySbw p.val.1 p.val.2

namespace Within

/-- The pixel that is read in a turn. -/
def src (h : gs.Within psm) (i : Fin (gs.rrw * gs.rrh)) : gs.Pixel psm :=
  ⟨((gs.copiedPixel i).1 + gs.ssax, (gs.copiedPixel i).2 + gs.ssay),
    h.source _ (copiedPixel_lt i.isLt).1 _ (copiedPixel_lt i.isLt).2⟩

/-- The pixel that is written in a turn. -/
def dst (h : gs.Within psm) (i : Fin (gs.rrw * gs.rrh)) : gs.Pixel psm :=
  ⟨((gs.copiedPixel i).1 + gs.dsax, (gs.copiedPixel i).2 + gs.dsay),
    h.destination _ (copiedPixel_lt i.isLt).1 _ (copiedPixel_lt i.isLt).2⟩

section

variable (h : gs.Within psm) (hpages : psm.WholePages gs.copySbw)

include h hpages

theorem pixels_copyPixel (vram : Memory) (i : Fin (gs.rrw * gs.rrh)) : gs.pixels psm (gs.copyPixel vram i) =
    Function.update (gs.pixels psm vram) (h.dst i) (gs.pixels psm vram (h.src i)) := by
  have hcopy : gs.copyPixel vram i = writePixelFuncs psm vram gs.sbp gs.copySbw (h.dst i).val.1 (h.dst i).val.2
      (gs.pixels psm vram (h.src i)) := by
    unfold copyPixel writeVram GSMem.readVram
    simp only [h.spsm, h.base, h.width, h.mode]
    rfl
  have hvalue : gs.pixels psm vram (h.src i) < 2 ^ psm.bitsPerPixel := by
    rw [pixels, readPixelFuncs_eq]
    exact read_lt
  rw [hcopy]
  generalize gs.pixels psm vram (h.src i) = v at *
  funext p
  by_cases hp : p = h.dst i
  · rw [hp, Function.update_self, pixels, readPixelFuncs_eq, writePixelFuncs_eq, writePixelAddress, read_write_self,
      Nat.mod_mod_of_dvd _ (pow_dvd_pow 2 psm.bitsPerPixel_le), Nat.mod_eq_of_lt hvalue]
  · rw [Function.update_of_ne hp, pixels, pixels, readPixelFuncs_eq, readPixelFuncs_eq, writePixelFuncs_eq,
      writePixelAddress]
    exact read_write_of_disjoint ((h.dst i).property.place_disjoint p.property hpages fun he => hp (Subtype.ext he))

theorem pixels_foldl (l : List (Fin (gs.rrw * gs.rrh))) :
    ∀ vram, gs.pixels psm (l.foldl (fun vram (i : Fin _) => gs.copyPixel vram i.val) vram) =
      Moves.copyEach h.src h.dst l (gs.pixels psm vram) := by
  induction l with
  | nil => exact fun _ => rfl
  | cons i l ih =>
    intro vram
    rw [List.foldl_cons, ih, h.pixels_copyPixel hpages]
    rfl

end

theorem pairwise_finRange (n : ℕ) : (List.finRange n).Pairwise fun i j => i.val < j.val := by
  have hrange : ((List.finRange n).map Fin.val).Pairwise (· < ·) := by
    rw [List.map_coe_finRange_eq_range]
    exact List.pairwise_lt_range
  exact List.pairwise_map.1 hrange

/-- **The turns move the pixels.** -/
theorem moved (h : gs.Within psm) (hpages : psm.WholePages gs.copySbw) (ho : gs.Ordered) (vram : Memory) :
    Moves.Moved h.src h.dst (List.finRange (gs.rrw * gs.rrh)) (gs.pixels psm vram)
      (gs.pixels psm ((List.range (gs.rrw * gs.rrh)).foldl gs.copyPixel vram)) := by
  have hfold : (List.range (gs.rrw * gs.rrh)).foldl gs.copyPixel vram =
      (List.finRange (gs.rrw * gs.rrh)).foldl (fun vram (i : Fin _) => gs.copyPixel vram i.val) vram := by
    rw [← List.map_coe_finRange_eq_range, List.foldl_map]
  rw [hfold, h.pixels_foldl hpages]
  have horder := pairwise_finRange (gs.rrw * gs.rrh)
  apply Moves.moved_copyEach
  · refine List.Pairwise.imp (fun {i j} hij (he : h.dst i = h.dst j) => ?_) horder
    obtain ⟨hx, hy⟩ := Prod.mk.inj (congrArg Subtype.val he)
    exact copiedPixel_ne hij j.isLt (Prod.ext (Nat.add_right_cancel hx) (Nat.add_right_cancel hy))
  · refine List.Pairwise.imp (fun {i j} hij (he : h.dst i = h.src j) => ?_) horder
    exact ho.apart hij j.isLt (congrArg Subtype.val he)

end Within

theorem bit_copyPixels {k : ℕ} (h : ∀ x < gs.rrw, ∀ y < gs.rrh, ∀ b,
    ¬PixelBit gs.dpsm gs.dbp gs.copyDbw (x + gs.dsax) (y + gs.dsay) b k) (l : List ℕ) :
    ∀ vram, (∀ i ∈ l, i < gs.rrw * gs.rrh) → bit (l.foldl gs.copyPixel vram) k = bit vram k := by
  induction l with
  | nil => exact fun _ _ => rfl
  | cons i l ih =>
    intro vram hl
    obtain ⟨hx, hy⟩ := copiedPixel_lt (hl i List.mem_cons_self)
    rw [List.foldl_cons, ih _ fun j hj => hl j (List.mem_cons_of_mem i hj)]
    exact bit_writeVram_of_not (h _ hx _ hy)

/-! ### Transfers -/

theorem performLocalToLocalTransfer_vram (gs : ImageGs) :
    gs.performLocalToLocalTransfer.vram = (List.range (gs.rrw * gs.rrh)).foldl gs.copyPixel gs.vram := by
  rw [performLocalToLocalTransfer]
  split
  · next h0 =>
    rw [h0]
    rfl
  · rfl

theorem writeTrxdir_vram {value : BitVec 64} (hvalue : (field value 0 2).toNat = 2) (gs : ImageGs) :
    (gs.writeTrxdir performLocalToLocalTransfer value).vram =
      (List.range (gs.rrw * gs.rrh)).foldl gs.copyPixel gs.vram := by
  rw [writeTrxdir]
  simp only [xdir, hvalue, if_pos]
  exact performLocalToLocalTransfer_vram _

/-- **A transfer moves its rectangle.** -/
theorem writeTrxdir_moves {value : BitVec 64} (hvalue : (field value 0 2).toNat = 2) (h : gs.Within psm)
    (hpages : psm.WholePages gs.copySbw) (ho : gs.Ordered) :
    let vram := (gs.writeTrxdir performLocalToLocalTransfer value).vram
    (∀ x < gs.rrw, ∀ y < gs.rrh,
      readPixelFuncs psm vram gs.sbp gs.copySbw (x + gs.dsax) (y + gs.dsay) =
        readPixelFuncs psm gs.vram gs.sbp gs.copySbw (x + gs.ssax) (y + gs.ssay)) ∧
      (∀ x y, psm.Fits gs.copySbw x y → ¬(gs.dsax ≤ x ∧ x < gs.dsax + gs.rrw ∧ gs.dsay ≤ y ∧ y < gs.dsay + gs.rrh) →
        readPixelFuncs psm vram gs.sbp gs.copySbw x y = readPixelFuncs psm gs.vram gs.sbp gs.copySbw x y) ∧
      ∀ k, (∀ x < gs.rrw, ∀ y < gs.rrh, ∀ b,
        ¬PixelBit gs.spsm gs.sbp gs.copySbw (x + gs.dsax) (y + gs.dsay) b k) → bit vram k = bit gs.vram k := by
  have hmoved := h.moved hpages ho gs.vram
  rw [← writeTrxdir_vram hvalue gs] at hmoved
  refine ⟨fun x hx y hy => ?_, fun x y hfits hout => ?_, fun k hk => ?_⟩
  · obtain ⟨i, hi, hpixel⟩ := exists_copiedPixel hx hy
    have hcopied := hmoved.copied ⟨i, hi⟩ (List.mem_finRange _)
    simp only [pixels, Within.src, Within.dst, hpixel] at hcopied
    exact hcopied
  · refine hmoved.kept ⟨(x, y), hfits⟩ fun i _ he => hout ?_
    have hdx : x = (gs.copiedPixel i).1 + gs.dsax := congrArg (fun p => p.val.1) he
    have hdy : y = (gs.copiedPixel i).2 + gs.dsay := congrArg (fun p => p.val.2) he
    obtain ⟨hx, hy⟩ := copiedPixel_lt i.isLt
    exact ⟨by omega, by omega, by omega, by omega⟩
  · rw [writeTrxdir_vram hvalue]
    rw [← h.spsm, ← h.base, ← h.width] at hk
    exact bit_copyPixels hk _ gs.vram fun i hi => List.mem_range.1 hi

/-- Four pixels that move down and to the right, onto one of themselves. -/
def downRight : ImageGs where
  vram := fun i => BitVec.ofNat 8 i
  bitbltbuf := 0x0001000000010000
  trxpos := 0x0801000100000000
  trxreg := 0x0000000200000002
  trxdir := 3
  transferState := ⟨0, 0, 0, 0⟩
  localToHostBuffer := []
  localToHostReadPos := 0

theorem downRight_moves :
    downRight.Ordered ∧ ∀ x < downRight.rrw, ∀ y < downRight.rrh,
      readPixelFuncs .c32 (downRight.writeTrxdir performLocalToLocalTransfer 2).vram downRight.sbp downRight.copySbw
          (x + downRight.dsax) (y + downRight.dsay) =
        readPixelFuncs .c32 downRight.vram downRight.sbp downRight.copySbw (x + downRight.ssax)
          (y + downRight.ssay) := by
  have hwithin : downRight.Within .c32 :=
    { mode := rfl
      spsm := rfl
      base := rfl
      width := rfl
      source := fun x hx y hy => by
        change x < 2 at hx
        change y < 2 at hy
        interval_cases x <;> interval_cases y <;> exact ⟨by decide, by decide⟩
      destination := fun x hx y hy => by
        change x < 2 at hx
        change y < 2 at hy
        interval_cases x <;> interval_cases y <;> exact ⟨by decide, by decide⟩ }
  have hordered : downRight.Ordered :=
    { up := fun _ _ => .inl rfl
      down := fun _ hdown => absurd hdown (by decide)
      left := fun _ hrow _ => absurd hrow (by decide)
      right := fun _ hrow _ => absurd hrow (by decide) }
  have hlocal : (field 2 0 2).toNat = 2 := by decide
  exact ⟨hordered, (writeTrxdir_moves hlocal hwithin (fun hno => absurd hno (by decide)) hordered).1⟩

/-- A pixel of a buffer of 8 bit pixels that is half a page wide moves a page down. -/
def halfPage : ImageGs :=
  { downRight with
    bitbltbuf := 0x1301000013010000
    trxpos := 0x0840000000000001
    trxreg := 0x0000000100000001 }

/-- Two rows move up from the last to the first. -/
def upFromLast : ImageGs :=
  { downRight with
    trxpos := 0x0800000000010000
    trxreg := 0x0000000200000001 }

/-- The rows of half a page are those of the next page, and with the last row first, the row that is read next has
been written. -/
theorem not_moved :
    (halfPage.Within .p8 ∧ 1 ≤ halfPage.copySbw ∧ halfPage.Ordered ∧ PixelStorageMode.Fits .p8 halfPage.copySbw 0 0 ∧
        readPixelFuncs .p8 (halfPage.writeTrxdir performLocalToLocalTransfer 2).vram halfPage.sbp halfPage.copySbw 0 0 ≠
          readPixelFuncs .p8 halfPage.vram halfPage.sbp halfPage.copySbw 0 0) ∧
      upFromLast.Within .c32 ∧ 1 ≤ upFromLast.copySbw ∧ ¬upFromLast.ssay < upFromLast.dsay ∧
        ¬(upFromLast.dsay = upFromLast.ssay) ∧
        readPixelFuncs .c32 (upFromLast.writeTrxdir performLocalToLocalTransfer 2).vram upFromLast.sbp
            upFromLast.copySbw upFromLast.dsax upFromLast.dsay ≠
          readPixelFuncs .c32 upFromLast.vram upFromLast.sbp upFromLast.copySbw upFromLast.ssax upFromLast.ssay := by
  have hhalf : halfPage.Within .p8 :=
    { mode := rfl
      spsm := rfl
      base := rfl
      width := rfl
      source := fun x hx y hy => by
        obtain rfl : x = 0 := Nat.lt_one_iff.1 hx
        obtain rfl : y = 0 := Nat.lt_one_iff.1 hy
        exact ⟨by decide, by decide⟩
      destination := fun x hx y hy => by
        obtain rfl : x = 0 := Nat.lt_one_iff.1 hx
        obtain rfl : y = 0 := Nat.lt_one_iff.1 hy
        exact ⟨by decide, by decide⟩ }
  have hup : upFromLast.Within .c32 :=
    { mode := rfl
      spsm := rfl
      base := rfl
      width := rfl
      source := fun x hx y hy => by
        obtain rfl : x = 0 := Nat.lt_one_iff.1 hx
        change y < 2 at hy
        interval_cases y <;> exact ⟨by decide, by decide⟩
      destination := fun x hx y hy => by
        obtain rfl : x = 0 := Nat.lt_one_iff.1 hx
        change y < 2 at hy
        interval_cases y <;> exact ⟨by decide, by decide⟩ }
  have hordered : halfPage.Ordered :=
    { up := fun _ _ => .inl rfl
      down := fun _ hdown => absurd hdown (by decide)
      left := fun _ hrow _ => absurd hrow (by decide)
      right := fun _ hrow _ => absurd hrow (by decide) }
  exact ⟨⟨hhalf, by decide, hordered, ⟨by decide, by decide⟩, by decide +kernel⟩, hup, by decide, by decide, by decide,
    by decide +kernel⟩

end ImageGs

end Ps2Recomp.GSMem
