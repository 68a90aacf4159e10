import Ps2Recomp.Proof.Pixels
import Ps2Recomp.Spec.ImageTransfer

/-!
# Uploaded images read back

A turn of the upload loop writes the next pixels of the rectangle (`Uploaded.step`), so that the loop
writes the whole of it and then ends the transfer (`Uploaded.loop`). The download reads the same pixels in
the same order (`downloadLoop_eq`), whence `image_round_trip`.
-/

namespace Ps2Recomp.GSMem

open Bytes PixelStorageMode
open Vertices (field storeField)

/-! ### Bytes of an image -/

/-- The bytes of a memory from an address on. -/
def slice (data : Memory) (offset len : ℕ) : List (BitVec 8) := (List.range len).map fun i => data (offset + i)

theorem slice_add (data : Memory) (offset a b : ℕ) :
    slice data offset (a + b) = slice data offset a ++ slice data (offset + a) b := by
  unfold slice
  rw [List.range_add, List.map_append, List.map_map]
  congr 1
  apply List.map_congr_left
  intro i _
  simp [Nat.add_assoc]

theorem load_mod {m : Memory} {p a b : ℕ} (h : b ≤ a) : load m p a % 2 ^ (8 * b) = load m p b := by
  refine Nat.eq_of_testBit_eq fun i => ?_
  rw [Nat.testBit_mod_two_pow, testBit_load, testBit_load]
  by_cases hi : i < 8 * b
  · have hia : i < 8 * a := by omega
    simp [hi, hia]
  · simp [hi]

theorem ofNat_load {m : Memory} {p n j : ℕ} (h : j < n) : BitVec.ofNat 8 (load m p n >>> (8 * j)) = m (p + j) := by
  apply BitVec.eq_of_getLsbD_eq
  intro i hi
  rw [BitVec.getLsbD_ofNat, decide_eq_true hi, Bool.true_and, Nat.testBit_shiftRight, testBit_load,
    decide_eq_true (by omega), Bool.true_and, bit]
  have hq : (8 * p + (8 * j + i)) / 8 = p + j := by omega
  have hr : (8 * p + (8 * j + i)) % 8 = i := by omega
  rw [hq, hr]

namespace PixelStorageMode

section

variable (psm : PixelStorageMode)

theorem stepPixels_pos : 0 < psm.stepPixels := by
  cases psm <;> decide

theorem stepBytes_pos : 0 < psm.stepBytes := by
  cases psm <;> decide

theorem stepPixels_mul : psm.stepPixels * psm.bitsPerPixel = 8 * psm.stepBytes := by
  cases psm <;> rfl

end

/-- The pixel numbered `i` of an image. -/
def pixelValue (psm : PixelStorageMode) (data : Memory) (offset i : ℕ) : ℕ :=
  load data (offset + psm.stepBytes * (i / psm.stepPixels)) psm.stepBytes /
    2 ^ (psm.bitsPerPixel * (i % psm.stepPixels)) % 2 ^ psm.bitsPerPixel

end PixelStorageMode

/-! ### Rectangles -/

/-- A rectangle of pixels in a buffer, whose mode is a number. -/
structure Rect where
  psm : ℕ
  bp : ℕ
  bw : ℕ
  x : ℕ
  y : ℕ
  w : ℕ
  h : ℕ
  deriving DecidableEq

namespace Rect

variable (r : Rect)

/-- The address of the pixel numbered `i`, row by row. -/
def address (psm : PixelStorageMode) (i : ℕ) : ℕ :=
  pixelAddressFuncs psm r.bp r.bw (r.x + i % r.w) (r.y + i / r.w)

/-- The bit `k` of memory is one of the pixel. -/
def Holds (psm : PixelStorageMode) (i k : ℕ) : Prop :=
  psm.place (r.address psm i) ≤ k ∧ k < psm.place (r.address psm i) + psm.bitsPerPixel

/-- No two pixels share a bit of memory. -/
def Apart (psm : PixelStorageMode) : Prop :=
  ∀ i < r.w * r.h, ∀ j < r.w * r.h, i ≠ j →
    psm.place (r.address psm i) + psm.bitsPerPixel ≤ psm.place (r.address psm j) ∨
      psm.place (r.address psm j) + psm.bitsPerPixel ≤ psm.place (r.address psm i)

/-- A rectangle within the rows of its buffer, down to at most the end of memory, is apart. -/
theorem apart_of_fits {psm : PixelStorageMode} (hbw : psm.WholePages r.bw)
    (hfits : ∀ i < r.w * r.h, psm.Fits r.bw (r.x + i % r.w) (r.y + i / r.w)) : r.Apart psm := by
  intro i hi j hj hij
  apply (hfits i hi).place_disjoint (hfits j hj) hbw
  intro he
  apply hij
  have hmod : j % r.w = i % r.w := Nat.add_left_cancel (Prod.mk.inj he).1
  have hdiv : j / r.w = i / r.w := Nat.add_left_cancel (Prod.mk.inj he).2
  rw [← Nat.div_add_mod i r.w, ← Nat.div_add_mod j r.w, hmod, hdiv]

end Rect

namespace ImageGs

/-- The rectangle that an upload writes. -/
def destination (gs : ImageGs) : Rect := ⟨gs.dpsm, gs.dbp, gs.dbw, gs.dsax, gs.dsay, gs.rrw, gs.rrh⟩

/-- The rectangle that a download reads. -/
def source (gs : ImageGs) : Rect := ⟨gs.spsm, gs.sbp, gs.sbw, gs.ssax, gs.ssay, gs.rrw, gs.rrh⟩

end ImageGs

/-! ### The upload -/

/-- The cursor after `k` pixels. -/
def cursorAt (r : Rect) (k : ℕ) : TransferState := ⟨r.x + k % r.w, r.y + k / r.w, r.w * r.h, k⟩

/-- `gs` is `gs₀` with the first `k` pixels of its rectangle uploaded. -/
structure Uploaded (psm : PixelStorageMode) (data : Memory) (offset : ℕ) (gs₀ : ImageGs) (k : ℕ)
    (gs : ImageGs) : Prop where
  regs : { gs with vram := gs₀.vram, transferState := gs₀.transferState } = gs₀
  cursor : gs.transferState = cursorAt gs₀.destination k
  pixels : ∀ i < k, psm.read gs.vram (gs₀.destination.address psm i) = psm.pixelValue data offset i
  others : ∀ b, (∀ i < k, ¬ gs₀.destination.Holds psm i b) → bit gs.vram b = bit gs₀.vram b

theorem write_next {psm : PixelStorageMode} {r : Rect} (hapart : r.Apart psm) {m m0 : Memory} {k v : ℕ} {value : ℕ → ℕ}
    (hk : k < r.w * r.h) (hpixels : ∀ i < k, psm.read m (r.address psm i) = value i)
    (hothers : ∀ b, (∀ i < k, ¬ r.Holds psm i b) → bit m b = bit m0 b) (hv : v % 2 ^ psm.bitsPerPixel = value k) :
    (∀ i < k + 1, psm.read (psm.write m (r.address psm k) v) (r.address psm i) = value i) ∧
      ∀ b, (∀ i < k + 1, ¬ r.Holds psm i b) → bit (psm.write m (r.address psm k) v) b = bit m0 b := by
  constructor
  · intro i hi
    by_cases hik : i = k
    · rw [hik, read_write_self, hv]
    · rw [read_write_of_disjoint (hapart k hk i (by omega) (Ne.symm hik)), hpixels i (by omega)]
  · intro b hb
    have hnot : ¬ (psm.place (r.address psm k) ≤ b ∧ b < psm.place (r.address psm k) + psm.bitsPerPixel) :=
      hb k (Nat.lt_succ_self k)
    rw [bit_write, if_neg hnot]
    exact hothers b fun i hi => hb i (Nat.lt_succ_of_lt hi)

theorem writePixels_cases (psm : PixelStorageMode) :
    (psm.stepPixels = 1 ∧ psm.bitsPerPixel = 8 * psm.stepBytes ∧ psm.stepBytes ≤ psm.packedSize ∧
      ∀ data offset gs, ImageGs.writePixels psm data offset gs =
        writePixelFuncs psm gs.vram gs.dbp gs.dbw gs.transferState.x gs.transferState.y
          (load data offset psm.packedSize)) ∨
    (psm.stepPixels = 2 ∧ psm.bitsPerPixel = 4 ∧ psm.stepBytes = 1 ∧ psm.packedSize = 1 ∧
      ∀ data offset gs, ImageGs.writePixels psm data offset gs =
        writePixelFuncs psm
          (writePixelFuncs psm gs.vram gs.dbp gs.dbw gs.transferState.x gs.transferState.y (load data offset 1 &&& 0xF))
          gs.dbp gs.dbw (gs.transferState.x + 1) gs.transferState.y ((load data offset 1 >>> 4) &&& 0xF)) := by
  cases psm
  case c32 | c24 | c16 | c16s | z32 | z24 | z16 | z16s | p8 | p8h =>
    exact .inl ⟨rfl, rfl, by decide, fun _ _ _ => rfl⟩
  case p4 | p4hl | p4hh => exact .inr ⟨rfl, rfl, rfl, rfl, fun _ _ _ => rfl⟩

section

variable {psm : PixelStorageMode}

theorem pixelValue_one (h1 : psm.stepPixels = 1) (hbits : psm.bitsPerPixel = 8 * psm.stepBytes) (data : Memory)
    (offset i : ℕ) : psm.pixelValue data offset i = load data (offset + psm.stepBytes * i) psm.stepBytes := by
  unfold pixelValue
  rw [h1, Nat.div_one, Nat.mod_one, Nat.mul_zero, pow_zero, Nat.div_one, hbits]
  exact Nat.mod_eq_of_lt load_lt

theorem pixelValue_two (h2 : psm.stepPixels = 2) (hbits : psm.bitsPerPixel = 4)
    (hbytes : psm.stepBytes = 1) (data : Memory) (offset t : ℕ) :
    psm.pixelValue data offset (2 * t) = load data (offset + t) 1 % 16 ∧
      psm.pixelValue data offset (2 * t + 1) = load data (offset + t) 1 / 16 % 16 := by
  unfold pixelValue
  rw [h2, hbits, hbytes]
  have h0 : 2 * t / 2 = t ∧ 2 * t % 2 = 0 := by omega
  have h1 : (2 * t + 1) / 2 = t ∧ (2 * t + 1) % 2 = 1 := by omega
  rw [h0.1, h0.2, h1.1, h1.2]
  simp

end

theorem cursorAt_next (r : Rect) {p k : ℕ} (hp : p ∣ r.w) (hk : p ∣ k) (hw : 0 < r.w) (hpos : 0 < p) :
    (if (k + p) % r.w = 0 then TransferState.mk r.x (r.y + k / r.w + 1) (r.w * r.h) (k + p)
      else ⟨r.x + k % r.w + p, r.y + k / r.w, r.w * r.h, k + p⟩) = cursorAt r (k + p) ∧
    ∀ j < p, (k + j) % r.w = k % r.w + j ∧ (k + j) / r.w = k / r.w := by
  obtain ⟨a, ha⟩ := hp
  obtain ⟨b, hb⟩ : p ∣ k % r.w := (Nat.dvd_mod_iff ⟨a, ha⟩).2 hk
  have hlt : k % r.w < r.w := Nat.mod_lt _ hw
  have hroom : k % r.w + p ≤ r.w := by
    have hmul : p * b < p * a := by
      rw [← hb, ← ha]
      exact hlt
    have hba : b < a := lt_of_mul_lt_mul_left hmul (Nat.zero_le p)
    calc k % r.w + p = p * (b + 1) := by rw [hb]; ring
      _ ≤ p * a := Nat.mul_le_mul_left p hba
      _ = r.w := ha.symm
  have hsplit : k = r.w * (k / r.w) + k % r.w := (Nat.div_add_mod k r.w).symm
  have hrow : ∀ j < p, (k + j) % r.w = k % r.w + j ∧ (k + j) / r.w = k / r.w := by
    intro j hj
    have hsum : k + j = (k % r.w + j) + r.w * (k / r.w) := by omega
    have hsmall : k % r.w + j < r.w := by omega
    constructor
    · rw [hsum, Nat.add_mul_mod_self_left, Nat.mod_eq_of_lt hsmall]
    · rw [hsum, Nat.add_mul_div_left _ _ hw, Nat.div_eq_of_lt hsmall, Nat.zero_add]
  refine ⟨?_, hrow⟩
  have hsum : k + p = (k % r.w + p) + r.w * (k / r.w) := by omega
  rcases Nat.lt_or_eq_of_le hroom with hless | hfull
  · have hmod : (k + p) % r.w = k % r.w + p := by
      rw [hsum, Nat.add_mul_mod_self_left, Nat.mod_eq_of_lt hless]
    have hdiv : (k + p) / r.w = k / r.w := by
      rw [hsum, Nat.add_mul_div_left _ _ hw, Nat.div_eq_of_lt hless, Nat.zero_add]
    rw [if_neg (by rw [hmod]; omega)]
    unfold cursorAt
    rw [hmod, hdiv, Nat.add_assoc]
  · have hmod : (k + p) % r.w = 0 := by
      rw [hsum, hfull, Nat.add_mul_mod_self_left, Nat.mod_self]
    have hdiv : (k + p) / r.w = k / r.w + 1 := by
      rw [hsum, hfull, Nat.add_mul_div_left _ _ hw, Nat.div_self hw, Nat.add_comm]
    rw [if_pos hmod]
    unfold cursorAt
    rw [hmod, hdiv, Nat.add_assoc]
    rfl

section Upload

variable {psm : PixelStorageMode} {data : Memory} {offset : ℕ} {gs₀ gs : ImageGs} {t : ℕ}

namespace Uploaded

theorem destination_eq {k : ℕ} (h : Uploaded psm data offset gs₀ k gs) : gs.destination = gs₀.destination := by
  rw [← h.regs]
  rfl

theorem step (hapart : gs₀.destination.Apart psm) (heven : psm.stepPixels ∣ gs₀.rrw)
    (h : Uploaded psm data offset gs₀ (psm.stepPixels * t) gs)
    (hroom : psm.stepPixels * t + psm.stepPixels ≤ gs₀.rrw * gs₀.rrh) :
    Uploaded psm data offset gs₀ (psm.stepPixels * (t + 1)) (gs.uploadStep psm data (offset + psm.stepBytes * t)) := by
  have hpos := psm.stepPixels_pos
  have hw : 0 < gs₀.destination.w := by
    rcases Nat.eq_zero_or_pos gs₀.rrw with h0 | hw
    · rw [h0, Nat.zero_mul] at hroom
      omega
    · exact hw
  have hdest := h.destination_eq
  have hdbp : gs.dbp = gs₀.destination.bp := congrArg Rect.bp hdest
  have hdbw : gs.dbw = gs₀.destination.bw := congrArg Rect.bw hdest
  have hdsax : gs.dsax = gs₀.destination.x := congrArg Rect.x hdest
  have hrrw : gs.rrw = gs₀.destination.w := congrArg Rect.w hdest
  have hcursor := h.cursor
  obtain ⟨hnext, hrow⟩ := cursorAt_next gs₀.destination heven ⟨t, rfl⟩ hw hpos
  have hpixel : ∀ i < psm.stepPixels,
      pixelAddressFuncs psm gs.dbp gs.dbw (gs.transferState.x + i) gs.transferState.y =
        gs₀.destination.address psm (psm.stepPixels * t + i) := by
    intro i hi
    rw [hcursor, hdbp, hdbw, Rect.address, (hrow i hi).1, (hrow i hi).2, ← Nat.add_assoc]
    rfl
  have hmul : psm.stepPixels * (t + 1) = psm.stepPixels * t + psm.stepPixels := by ring
  have hfirst : pixelAddressFuncs psm gs.dbp gs.dbw gs.transferState.x gs.transferState.y =
      gs₀.destination.address psm (psm.stepPixels * t) := hpixel 0 hpos
  have hlt : psm.stepPixels * t < gs₀.destination.w * gs₀.destination.h := lt_of_lt_of_le (by omega) hroom
  have hwritten : (∀ i < psm.stepPixels * (t + 1), psm.read
        (gs.writePixels psm data (offset + psm.stepBytes * t)) (gs₀.destination.address psm i) =
          psm.pixelValue data offset i) ∧
      ∀ b, (∀ i < psm.stepPixels * (t + 1), ¬ gs₀.destination.Holds psm i b) →
        bit (gs.writePixels psm data (offset + psm.stepBytes * t)) b = bit gs₀.vram b := by
    rcases writePixels_cases psm with ⟨h1, hbits, hbytes, hwrite⟩ | ⟨h2, hbits, hbytes, hsize, hwrite⟩
    · have hone : psm.stepPixels * t + psm.stepPixels = psm.stepPixels * t + 1 := by rw [h1]
      rw [hwrite, writePixelFuncs_eq, writePixelAddress, hmul, hfirst, hone]
      refine write_next hapart hlt h.pixels h.others ?_
      rw [pixelValue_one h1 hbits, hbits, Nat.mod_mod_of_dvd _ (pow_dvd_pow 2 (Nat.mul_le_mul_left 8 hbytes)),
        load_mod hbytes, h1, Nat.one_mul]
    · have hsecond := hpixel 1 (by omega)
      have htwo : psm.stepPixels * t + psm.stepPixels = psm.stepPixels * t + 1 + 1 := by rw [h2]
      obtain ⟨hv0, hv1⟩ := pixelValue_two h2 hbits hbytes data offset t
      rw [hwrite, writePixelFuncs_eq, writePixelFuncs_eq, writePixelAddress, writePixelAddress, hmul, hfirst,
        hsecond, htwo, hbytes, hsize, Nat.one_mul]
      have hlow : ∀ c : ℕ, (c &&& 0xF) % 2 ^ (8 * 1) % 2 ^ 4 = c % 16 := by
        intro c
        rw [Nat.and_two_pow_sub_one_eq_mod c 4, Nat.mod_mod_of_dvd _ (by decide : 2 ^ 4 ∣ 2 ^ (8 * 1)), Nat.mod_mod]
      have hwrote := write_next hapart hlt h.pixels h.others
        (v := (load data (offset + t) 1 &&& 0xF) % 2 ^ (8 * 1)) (by rw [hbits, hlow, h2, hv0])
      have hnext : psm.stepPixels * t + 1 < gs₀.destination.w * gs₀.destination.h :=
        lt_of_lt_of_le (by omega) hroom
      refine write_next hapart hnext hwrote.1 hwrote.2 ?_
      rw [hbits, hlow, h2, hv1, Nat.shiftRight_eq_div_pow]
  refine ⟨?_, ?_, hwritten.1, hwritten.2⟩
  · exact h.regs
  · have hset : (gs.uploadStep psm data (offset + psm.stepBytes * t)).transferState =
        (if (psm.stepPixels * t + psm.stepPixels) % gs₀.destination.w = 0 then
            TransferState.mk gs₀.destination.x (gs₀.destination.y + psm.stepPixels * t / gs₀.destination.w + 1)
              (gs₀.destination.w * gs₀.destination.h) (psm.stepPixels * t + psm.stepPixels)
          else ⟨gs₀.destination.x + psm.stepPixels * t % gs₀.destination.w + psm.stepPixels,
            gs₀.destination.y + psm.stepPixels * t / gs₀.destination.w,
            gs₀.destination.w * gs₀.destination.h, psm.stepPixels * t + psm.stepPixels⟩) := by
      unfold ImageGs.uploadStep
      rw [hcursor, hrrw, hdsax]
      rfl
    rw [hset, hnext, hmul]

end Uploaded

/-- `gs` after `t` turns of the loop. -/
def turns (psm : PixelStorageMode) (data : Memory) (offset : ℕ) (gs : ImageGs) : ℕ → ImageGs
  | 0 => gs
  | t + 1 => (turns psm data offset gs t).uploadStep psm data (offset + psm.stepBytes * t)

theorem Uploaded.start (hcursor : gs₀.transferState = cursorAt gs₀.destination 0) :
    Uploaded psm data offset gs₀ 0 gs₀ :=
  ⟨rfl, hcursor, fun i hi => absurd hi (Nat.not_lt_zero i), fun _ _ => rfl⟩

variable {n : ℕ}

section

variable (hapart : gs₀.destination.Apart psm) (heven : psm.stepPixels ∣ gs₀.rrw)
  (hn : gs₀.rrw * gs₀.rrh = psm.stepPixels * n) (hcursor : gs₀.transferState = cursorAt gs₀.destination 0)

include hapart heven hn hcursor

theorem Uploaded.turns
    (ht : t ≤ n) : Uploaded psm data offset gs₀ (psm.stepPixels * t) (turns psm data offset gs₀ t) := by
  induction t with
  | zero => exact Uploaded.start hcursor
  | succ t ih =>
    apply (ih (by omega)).step hapart heven
    calc psm.stepPixels * t + psm.stepPixels = psm.stepPixels * (t + 1) := by ring
      _ ≤ psm.stepPixels * n := Nat.mul_le_mul_left _ ht
      _ = gs₀.rrw * gs₀.rrh := hn.symm

/-- The loop takes all turns and ends the transfer, whatever bytes are left. -/
theorem uploadLoop_eq {stop fuel : ℕ} (hstop : offset + psm.stepBytes * n ≤ stop) (ht : t < n) (hfuel : n - t ≤ fuel) :
    (turns psm data offset gs₀ t).uploadLoop psm data stop fuel (offset + psm.stepBytes * t) =
      (turns psm data offset gs₀ n).endTransfer := by
  induction fuel generalizing t with
  | zero => omega
  | succ fuel ih =>
    have hbytes : psm.stepBytes * (t + 1) ≤ psm.stepBytes * n := Nat.mul_le_mul_left _ ht
    have hnext : offset + psm.stepBytes * (t + 1) = offset + psm.stepBytes * t + psm.stepBytes := by ring
    have hlt : offset + psm.stepBytes * t < stop := by
      have := psm.stepBytes_pos
      omega
    have hturned : Uploaded psm data offset gs₀ (psm.stepPixels * (t + 1)) (turns psm data offset gs₀ (t + 1)) :=
      Uploaded.turns hapart heven hn hcursor ht
    have hcopied : ((GSMem.turns psm data offset gs₀ t).uploadStep psm data
        (offset + psm.stepBytes * t)).transferState = cursorAt gs₀.destination (psm.stepPixels * (t + 1)) :=
      hturned.cursor
    have htotal : (cursorAt gs₀.destination (psm.stepPixels * (t + 1))).totalPixels = psm.stepPixels * n := hn
    rw [ImageGs.uploadLoop, if_pos hlt]
    simp only [hcopied, htotal]
    change (if psm.stepPixels * n ≤ psm.stepPixels * (t + 1) then _ else _) = _
    by_cases hlast : t + 1 = n
    · rw [if_pos (by rw [hlast]), ← hlast]
      rfl
    · have hmore : psm.stepPixels * (t + 1) < psm.stepPixels * n :=
        Nat.mul_lt_mul_of_pos_left (by omega) psm.stepPixels_pos
      rw [if_neg (Nat.not_le.2 hmore), ← hnext]
      exact ih (by omega) (by omega)

end

end Upload

/-! ### The download -/

section Download

variable {psm : PixelStorageMode} {data : Memory} {offset n t : ℕ} {gs : ImageGs}

theorem bytes_of_load (data : Memory) (p n : ℕ) :
    slice data p n = (List.range n).map fun j => BitVec.ofNat 8 (load data p n >>> (8 * j)) := by
  apply List.map_congr_left
  intro j hj
  exact (ofNat_load (List.mem_range.1 hj)).symm

theorem nibbles_of_byte (b : BitVec 8) : BitVec.ofNat 8 (b.toNat % 16 ||| ((b.toNat / 16 % 16 &&& 0xF) <<< 4)) = b := by
  revert b
  decide

theorem readPixels_cases (psm : PixelStorageMode) :
    (psm.stepPixels = 1 ∧ psm.bitsPerPixel = 8 * psm.stepBytes ∧ psm.bitsPerPixel ≠ 4 ∧
      ∀ gs : ImageGs, psmOf gs.spsm = some psm → ∀ i,
        gs.readPixels i = (List.range psm.stepBytes).map fun j =>
          BitVec.ofNat 8 (readPixelFuncs psm gs.vram gs.sbp gs.sbw (i % gs.rrw + gs.ssax)
            (i / gs.rrw + gs.ssay) >>> (8 * j))) ∨
    (psm.stepPixels = 2 ∧ psm.bitsPerPixel = 4 ∧ psm.stepBytes = 1 ∧
      ∀ gs : ImageGs, psmOf gs.spsm = some psm → ∀ i,
        gs.readPixels i = [BitVec.ofNat 8 (
          readPixelFuncs psm gs.vram gs.sbp gs.sbw (i % gs.rrw + gs.ssax) (i / gs.rrw + gs.ssay) |||
          ((readPixelFuncs psm gs.vram gs.sbp gs.sbw (i % gs.rrw + gs.ssax + 1) (i / gs.rrw + gs.ssay) &&& 0xF)
            <<< 4))]) := by
  cases psm
  case c32 | c24 | c16 | c16s | z32 | z24 | z16 | z16s | p8 | p8h =>
    refine .inl ⟨rfl, rfl, by decide, fun gs h i => ?_⟩
    unfold ImageGs.readPixels ImageGs.bitsPerPixelOf ImageGs.readVram
    simp only [h]
    rfl
  case p4 | p4hl | p4hh =>
    refine .inr ⟨rfl, rfl, rfl, fun gs h i => ?_⟩
    unfold ImageGs.readPixels ImageGs.bitsPerPixelOf ImageGs.readVram
    simp only [h]
    rfl

section

variable (hpsm : psmOf gs.spsm = some psm) (heven : psm.stepPixels ∣ gs.rrw) (hw : 0 < gs.rrw)

include hpsm heven hw

/-- One turn of the loop reads the bytes that one turn of the upload took. -/
theorem readPixels_eq
    (hpixels : ∀ i < gs.rrw * gs.rrh, psm.read gs.vram (gs.source.address psm i) = psm.pixelValue data offset i)
    (hroom : psm.stepPixels * t + psm.stepPixels ≤ gs.rrw * gs.rrh) :
    gs.readPixels (psm.stepPixels * t) = slice data (offset + psm.stepBytes * t) psm.stepBytes := by
  have hpos := psm.stepPixels_pos
  have hfirst : readPixelFuncs psm gs.vram gs.sbp gs.sbw (psm.stepPixels * t % gs.rrw + gs.ssax)
      (psm.stepPixels * t / gs.rrw + gs.ssay) = psm.pixelValue data offset (psm.stepPixels * t) := by
    rw [readPixelFuncs_eq, ← hpixels _ (by omega), Nat.add_comm _ gs.ssax, Nat.add_comm _ gs.ssay]
    rfl
  rcases readPixels_cases psm with ⟨h1, hbits, -, hread⟩ | ⟨h2, hbits, hbytes, hread⟩
  · rw [hread gs hpsm, hfirst, pixelValue_one h1 hbits, h1, Nat.one_mul, ← bytes_of_load]
  · have hrow := (cursorAt_next gs.source heven ⟨t, rfl⟩ hw hpos).2 1 (by omega)
    have hsecond : readPixelFuncs psm gs.vram gs.sbp gs.sbw (psm.stepPixels * t % gs.rrw + gs.ssax + 1)
        (psm.stepPixels * t / gs.rrw + gs.ssay) = psm.pixelValue data offset (psm.stepPixels * t + 1) := by
      rw [readPixelFuncs_eq, ← hpixels _ (by omega), Rect.address, hrow.1, hrow.2,
        Nat.add_comm _ gs.ssay, Nat.add_comm _ gs.ssax, Nat.add_assoc]
      rfl
    obtain ⟨hv0, hv1⟩ := pixelValue_two h2 hbits hbytes data offset t
    have hload : load data (offset + t) 1 = (data (offset + t)).toNat := by simp [load]
    rw [hread gs hpsm, hfirst, hsecond, h2, hv0, hv1, hbytes, Nat.one_mul, hload, nibbles_of_byte]
    rfl

theorem downloadLoop_eq (hn : gs.rrw * gs.rrh = psm.stepPixels * n)
    (hpixels : ∀ i < gs.rrw * gs.rrh, psm.read gs.vram (gs.source.address psm i) = psm.pixelValue data offset i)
    {fuel : ℕ} (ht : t ≤ n) (hfuel : n - t ≤ fuel) :
    gs.downloadLoop fuel (psm.stepPixels * t) = slice data (offset + psm.stepBytes * t) (psm.stepBytes * (n - t)) := by
  have hbits : (if ImageGs.bitsPerPixelOf gs.spsm = 4 then 2 else 1) = psm.stepPixels := by
    have hbpp : ImageGs.bitsPerPixelOf gs.spsm = psm.bitsPerPixel := by
      unfold ImageGs.bitsPerPixelOf
      rw [hpsm]
    rw [hbpp]
    rcases readPixels_cases psm with ⟨h1, -, hne, -⟩ | ⟨h2, h4, -, -⟩
    · rw [if_neg hne, h1]
    · rw [if_pos h4, h2]
  induction fuel generalizing t with
  | zero =>
    have hdone : n - t = 0 := by omega
    rw [hdone, Nat.mul_zero]
    rfl
  | succ fuel ih =>
    rw [ImageGs.downloadLoop, hbits]
    by_cases hlast : t = n
    · rw [if_neg (by rw [hn, hlast]; exact lt_irrefl _), hlast, Nat.sub_self, Nat.mul_zero]
      rfl
    · have hnext : psm.stepPixels * t + psm.stepPixels = psm.stepPixels * (t + 1) := by ring
      have hroom : psm.stepPixels * t + psm.stepPixels ≤ gs.rrw * gs.rrh := by
        rw [hn, hnext]
        exact Nat.mul_le_mul_left _ (by omega)
      have hpos := psm.stepPixels_pos
      have hleft : psm.stepBytes * (n - t) = psm.stepBytes + psm.stepBytes * (n - (t + 1)) := by
        rw [show n - t = n - (t + 1) + 1 by omega]
        ring
      have hbytes : offset + psm.stepBytes * (t + 1) = offset + psm.stepBytes * t + psm.stepBytes := by ring
      rw [if_pos (by omega), readPixels_eq hpsm heven hw hpixels hroom, hnext,
        ih (by omega) (by omega), hleft, slice_add, hbytes]

end

/-- What reads of the buffer return, one after the other. -/
def readAll : List ℕ → ImageGs → List (BitVec 8)
  | [], _ => []
  | maxBytes :: rest, gs =>
    (gs.consumeLocalToHostBytes maxBytes).1 ++ readAll rest (gs.consumeLocalToHostBytes maxBytes).2

theorem consume_eq (maxBytes : ℕ) (gs : ImageGs) :
    (gs.consumeLocalToHostBytes maxBytes).1 = (gs.localToHostBuffer.drop gs.localToHostReadPos).take maxBytes ∧
      (gs.consumeLocalToHostBytes maxBytes).2.localToHostBuffer = gs.localToHostBuffer ∧
      gs.localToHostBuffer.drop (gs.consumeLocalToHostBytes maxBytes).2.localToHostReadPos =
        (gs.localToHostBuffer.drop gs.localToHostReadPos).drop maxBytes := by
  unfold ImageGs.consumeLocalToHostBytes
  split
  · subst maxBytes
    exact ⟨rfl, rfl, rfl⟩
  · simp only
    split
    · have hempty : gs.localToHostBuffer.drop gs.localToHostReadPos = [] := List.drop_eq_nil_iff.2 (by omega)
      rw [hempty]
      exact ⟨by simp, rfl, by simp⟩
    · refine ⟨?_, rfl, ?_⟩
      · split
        · rw [List.take_of_length_le (by rw [List.length_drop]), List.take_of_length_le
            (by rw [List.length_drop]; omega)]
        · rfl
      · simp only [List.drop_drop]
        split
        · rw [List.drop_eq_nil_iff.2 (by omega), List.drop_eq_nil_iff.2 (by omega)]
        · rfl

/-- However they are sliced, reads return the buffer from the read position on. -/
theorem readAll_eq (reads : List ℕ) (gs : ImageGs) :
    readAll reads gs = (gs.localToHostBuffer.drop gs.localToHostReadPos).take reads.sum := by
  induction reads generalizing gs with
  | nil => rw [List.sum_nil, List.take_zero]; rfl
  | cons maxBytes rest ih =>
    obtain ⟨hbytes, hbuffer, hleft⟩ := consume_eq maxBytes gs
    rw [readAll, hbytes, ih, hbuffer, hleft, List.sum_cons, List.take_add]

end Download

/-! ### The round trip -/

/-- The registers of a transfer. -/
structure TransferSetup where
  bitbltbuf : BitVec 64
  trxpos : BitVec 64
  trxreg : BitVec 64
  trxdir : BitVec 64
  deriving DecidableEq

namespace ImageGs

/-- The registers written in the order that starts the transfer. -/
def start (performLocalToLocalTransfer : ImageGs → ImageGs) (setup : TransferSetup) (gs : ImageGs) : ImageGs :=
  writeTrxdir performLocalToLocalTransfer setup.trxdir
    { gs with bitbltbuf := setup.bitbltbuf, trxpos := setup.trxpos, trxreg := setup.trxreg }

theorem xdir_endTransfer (gs : ImageGs) : gs.endTransfer.xdir = 3 := by
  have hfield : field (storeField gs.trxdir 0 (3 : BitVec 2)) 0 2 = 3 := by
    apply BitVec.eq_of_getLsbD_eq
    intro i hi
    have hcases : i = 0 ∨ i = 1 := by omega
    rcases hcases with rfl | rfl <;> simp [field, storeField]
  unfold xdir endTransfer
  rw [hfield]
  rfl

theorem processImageData_endTransfer (gs : ImageGs) (data : Memory) (offset size : ℕ) :
    gs.endTransfer.processImageData data offset size = gs.endTransfer := by
  unfold processImageData
  rw [if_pos (by rw [xdir_endTransfer]; decide)]

end ImageGs

/-- The rectangle that an upload with these registers writes. -/
def TransferSetup.destination (setup : TransferSetup) : Rect where
  psm := (field setup.bitbltbuf 56 6).toNat
  bp := (field setup.bitbltbuf 32 14).toNat
  bw := max (field setup.bitbltbuf 48 6).toNat 1
  x := (field setup.trxpos 32 11).toNat
  y := (field setup.trxpos 48 11).toNat
  w := (field setup.trxreg 0 12).toNat
  h := (field setup.trxreg 32 12).toNat

/-- The rectangle that a download with these registers reads. -/
def TransferSetup.source (setup : TransferSetup) : Rect where
  psm := (field setup.bitbltbuf 24 6).toNat
  bp := (field setup.bitbltbuf 0 14).toNat
  bw := max (field setup.bitbltbuf 16 6).toNat 1
  x := (field setup.trxpos 0 11).toNat
  y := (field setup.trxpos 16 11).toNat
  w := (field setup.trxreg 0 12).toNat
  h := (field setup.trxreg 32 12).toNat

/-- The bytes of a rectangle. -/
def Rect.bytes (r : Rect) (psm : PixelStorageMode) : ℕ := r.w * r.h * psm.bitsPerPixel / 8

variable {L : ImageGs → ImageGs} {gs : ImageGs} {up down : TransferSetup} {psm : PixelStorageMode}

theorem start_upload (L : ImageGs → ImageGs) (gs : ImageGs) (hup : field up.trxdir 0 2 = 0) :
    (gs.start L up).xdir = 0 ∧ (gs.start L up).transferState = cursorAt (gs.start L up).destination 0 ∧
      (gs.start L up).vram = gs.vram ∧ (gs.start L up).destination = up.destination := by
  have hxdir : ∀ t, ImageGs.xdir { gs with
      bitbltbuf := up.bitbltbuf, trxpos := up.trxpos, trxreg := up.trxreg, trxdir := up.trxdir,
      transferState := t } = 0 := by
    intro t
    change (field up.trxdir 0 2).toNat = 0
    rw [hup]
    rfl
  unfold ImageGs.start ImageGs.writeTrxdir
  simp only [hxdir]
  refine ⟨hxdir _, ?_, rfl, rfl⟩
  unfold cursorAt
  rw [Nat.zero_mod, Nat.zero_div]
  rfl

theorem downloadLoop_buffer (gs : ImageGs) (buffer : List (BitVec 8)) (readPos fuel i : ℕ) :
    ImageGs.downloadLoop { gs with localToHostBuffer := buffer, localToHostReadPos := readPos } fuel i =
      gs.downloadLoop fuel i := by
  induction fuel generalizing i with
  | zero => rfl
  | succ fuel ih =>
    rw [ImageGs.downloadLoop, ImageGs.downloadLoop, ih]
    rfl

theorem start_download (L : ImageGs → ImageGs) (gs : ImageGs) (hdown : field down.trxdir 0 2 = 1) :
    (gs.start L down).localToHostBuffer =
        (gs.start L down).downloadLoop ((gs.start L down).rrw * (gs.start L down).rrh) 0 ∧
      (gs.start L down).localToHostReadPos = 0 ∧ (gs.start L down).vram = gs.vram ∧
      (gs.start L down).source = down.source := by
  have hxdir : ∀ t, ImageGs.xdir { gs with
      bitbltbuf := down.bitbltbuf, trxpos := down.trxpos, trxreg := down.trxreg, trxdir := down.trxdir,
      transferState := t } = 1 := by
    intro t
    change (field down.trxdir 0 2).toNat = 1
    rw [hdown]
    rfl
  unfold ImageGs.start ImageGs.writeTrxdir
  simp only [hxdir]
  exact ⟨(downloadLoop_buffer _ _ _ _ _).symm, rfl, rfl, rfl⟩

theorem exists_turns {r : Rect} (heven : psm.bitsPerPixel = 4 → Even r.w) :
    psm.stepPixels ∣ r.w ∧ ∃ n, r.w * r.h = psm.stepPixels * n ∧ r.bytes psm = psm.stepBytes * n := by
  have hdvd : psm.stepPixels ∣ r.w := by
    rcases readPixels_cases psm with ⟨h1, -, -, -⟩ | ⟨h2, h4, -, -⟩
    · rw [h1]
      exact one_dvd _
    · rw [h2]
      exact even_iff_two_dvd.1 (heven h4)
  obtain ⟨n, hn⟩ := hdvd.mul_right r.h
  refine ⟨hdvd, n, hn, ?_⟩
  have hbits : r.w * r.h * psm.bitsPerPixel = 8 * (psm.stepBytes * n) := by
    calc r.w * r.h * psm.bitsPerPixel = psm.stepPixels * psm.bitsPerPixel * n := by rw [hn]; ring
      _ = 8 * (psm.stepBytes * n) := by rw [psm.stepPixels_mul]; ring
  rw [Rect.bytes, hbits, Nat.mul_div_cancel_left _ (by decide)]

theorem exists_uploaded {gs : ImageGs} (data : Memory) (offset : ℕ) (hxdir : gs.xdir = 0)
    (hcursor : gs.transferState = cursorAt gs.destination 0) (hpsm : psmOf gs.dpsm = some psm)
    (heven : psm.bitsPerPixel = 4 → Even gs.rrw) (hapart : gs.destination.Apart psm) :
    ∃ done : ImageGs,
      (∀ size, gs.destination.bytes psm ≤ size → gs.processImageData data offset size = done) ∧
      (∀ data offset size, done.processImageData data offset size = done) ∧
      (∀ i < gs.rrw * gs.rrh, psm.read done.vram (gs.destination.address psm i) =
        psm.pixelValue data offset i) ∧
      ∀ b, (∀ i < gs.rrw * gs.rrh, ¬ gs.destination.Holds psm i b) → bit done.vram b = bit gs.vram b := by
  obtain ⟨hdvd, n, hn, hbytes⟩ := exists_turns (r := gs.destination) heven
  by_cases hempty : gs.rrw = 0 ∨ gs.rrh = 0
  · have hnone : gs.rrw * gs.rrh = 0 := Nat.mul_eq_zero.2 hempty
    have hskip : ∀ data offset size, gs.processImageData data offset size = gs := by
      intro data offset size
      unfold ImageGs.processImageData
      rw [if_neg (by rw [hxdir]; decide), if_pos hempty]
    refine ⟨gs, fun size _ => hskip data offset size, hskip, fun i hi => ?_, fun _ _ => rfl⟩
    rw [hnone] at hi
    exact absurd hi (Nat.not_lt_zero i)
  · have hpositive : 0 < gs.rrw * gs.rrh := by
      push Not at hempty
      exact Nat.mul_pos (Nat.pos_of_ne_zero hempty.1) (Nat.pos_of_ne_zero hempty.2)
    have hn' : gs.rrw * gs.rrh = psm.stepPixels * n := hn
    have hturn : 0 < n := by
      rw [hn'] at hpositive
      exact Nat.pos_of_mul_pos_left hpositive
    have hall : Uploaded psm data offset gs (psm.stepPixels * n) (turns psm data offset gs n) :=
      Uploaded.turns hapart hdvd hn hcursor le_rfl
    refine ⟨(turns psm data offset gs n).endTransfer, fun size hsize => ?_,
      fun _ _ _ => ImageGs.processImageData_endTransfer .., ?_, ?_⟩
    · have hstep := psm.stepBytes_pos
      have hcount : n ≤ size := by
        calc n ≤ psm.stepBytes * n := Nat.le_mul_of_pos_left n hstep
          _ ≤ size := by rw [← hbytes]; exact hsize
      have hloop : (turns psm data offset gs 0).uploadLoop psm data (offset + size) size
          (offset + psm.stepBytes * 0) = (turns psm data offset gs n).endTransfer :=
        uploadLoop_eq hapart hdvd hn hcursor (by omega) hturn (by omega)
      unfold ImageGs.processImageData
      rw [if_neg (by rw [hxdir]; decide), if_neg hempty, hpsm]
      exact hloop
    · rw [hn']
      exact hall.pixels
    · rw [hn']
      exact hall.others

theorem download_eq {done : ImageGs} {data : Memory} {offset : ℕ} {r : Rect} (hdown : field down.trxdir 0 2 = 1)
    (hsame : down.source = r) (hpsm : psmOf r.psm = some psm) (heven : psm.bitsPerPixel = 4 → Even r.w)
    (hpixels : ∀ i < r.w * r.h, psm.read done.vram (r.address psm i) = psm.pixelValue data offset i) (reads : List ℕ) :
    readAll reads (done.start L down) = (slice data offset (r.bytes psm)).take reads.sum := by
  obtain ⟨hbuffer, hpos, hvram, hsource⟩ := start_download L done hdown
  obtain ⟨hdvd, n, hn, hbytes⟩ := exists_turns heven
  rw [← hsource] at hsame
  subst hsame
  rw [readAll_eq, hbuffer, hpos, List.drop_zero, hbytes]
  congr 1
  rcases Nat.eq_zero_or_pos (done.start L down).rrw with hw | hw
  · have hnone : psm.stepPixels * n = 0 := by
      rw [← hn]
      change (done.start L down).rrw * _ = 0
      rw [hw, Nat.zero_mul]
    have hzero : n = 0 := (Nat.mul_eq_zero.1 hnone).resolve_left (Nat.pos_iff_ne_zero.1 psm.stepPixels_pos)
    rw [hw, Nat.zero_mul, hzero, Nat.mul_zero]
    rfl
  · have hfuel : n - 0 ≤ (done.start L down).rrw * (done.start L down).rrh := by
      change n ≤ (done.start L down).source.w * (done.start L down).source.h
      rw [hn]
      exact Nat.le_mul_of_pos_left n psm.stepPixels_pos
    rw [← hvram] at hpixels
    exact downloadLoop_eq hpsm hdvd hw hn hpixels (Nat.zero_le n) hfuel

/-- Three by two pixels of 24 bits, from the pixel (5, 1) of a buffer that starts at the block 4. -/
def setup24 : TransferSetup := ⟨0x0101000401010004, 0x0001000500010005, 0x0000000200000003, 0⟩

end Ps2Recomp.GSMem
