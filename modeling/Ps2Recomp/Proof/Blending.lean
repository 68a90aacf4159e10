import Ps2Recomp.Proof.PixelWrite
import Mathlib.Tactic.FinCases

/-!
# Blending

`blended_stored_iff`: the colour channels that `writePixel` stores are those of the formula
`((A - B) * C >> 7) + D`, except without `COLCLAMP`, where the channels of the source are stored, and in
frames of 24 bits, where the alpha of the frame counts as 0.
-/

namespace Ps2Recomp.GSMem

open Bytes PixelStorageMode
open Vertices (field)

/-! ### The formula -/

/-- What a selector picks for `A`, `B` and `D`. -/
def pick (sel : ℕ) (cs cd : ℤ) : ℤ :=
  match sel with
  | 0 => cs
  | 1 => cd
  | _ => 0

/-- A channel of 8 bits in the format of the frame. -/
def inFormat (psm : ℕ) (v : ℤ) : ℤ := if ImageGs.bitsPerPixelOf psm = 16 then v / 8 else v

/-- A channel of the pixel that is stored. -/
def storedChannel (psm : ℕ) (p : BitVec 32) (c : Fin 3) : ℤ :=
  if ImageGs.bitsPerPixelOf psm = 16 then ((p >>> (5 * c.val)).setWidth 5).toNat
  else ((p >>> (8 * c.val)).setWidth 8).toNat

namespace PixelGs

variable (gs : PixelGs) (x y : ℕ) (r g b a : BitVec 8) (c : Fin 3)

def source : ℤ := (![r, g, b] c).toNat

/-- A channel of the pixel in the frame. -/
def destination : ℤ := ((gs.frameColour x y >>> (8 * c.val)).setWidth 8).toNat

/-- The frame holds 24 bits for each pixel. -/
def Is24 : Prop := gs.fpsm = 1 ∨ gs.fpsm = 49

instance : Decidable gs.Is24 := by
  unfold Is24
  infer_instance

/-- `C` -/
def factor : ℤ :=
  if Alpha.c gs.alpha = 0 then a.toNat
  else if Alpha.c gs.alpha = 1 then
    if gs.Is24 then 0x80 else ((gs.frameColour x y >>> 24).setWidth 8).toNat
  else (Alpha.fix gs.alpha).toNat

def valueA : ℤ := pick (Alpha.a gs.alpha) (source r g b c) (gs.destination x y c)

def valueB : ℤ := pick (Alpha.b gs.alpha) (source r g b c) (gs.destination x y c)

def valueD : ℤ := pick (Alpha.d gs.alpha) (source r g b c) (gs.destination x y c)

def formula : ℤ :=
  ((gs.valueA x y r g b c - gs.valueB x y r g b c) * gs.factor x y a) >>> (7 : ℕ) + gs.valueD x y r g b c

/-- The channel that should be stored. -/
def blended : ℤ :=
  if gs.pabeKeeps a then source r g b c
  else if gs.clamp then max 0 (min 255 (gs.formula x y r g b a c))
  else gs.formula x y r g b a c % 256

end PixelGs

/-! ### Channels of words -/

theorem pack32_channel (r g b a : BitVec 8) (c : Fin 3) :
    (pack32 r g b a >>> (8 * c.val)).setWidth 8 = ![r, g, b] c := by
  apply BitVec.eq_of_getLsbD_eq
  intro i hi
  have h16 : 8 + i < 16 := by omega
  have h24 : 16 + i < 24 := by omega
  fin_cases c <;> simp (disch := omega) [pack32, BitVec.getLsbD_of_ge, h16, h24, Nat.lt_trans h16]

theorem masked_channel (pixel fbrgba : BitVec 32) (c : Fin 3) :
    (((pixel &&& 0x00FFFFFF) ||| (fbrgba &&& 0xFF000000)) >>> (8 * c.val)).setWidth 8 =
      (pixel >>> (8 * c.val)).setWidth 8 := by
  apply BitVec.eq_of_getLsbD_eq
  intro i hi
  have hlow : 8 * c.val + i < 24 := by omega
  simp only [BitVec.getLsbD_setWidth, BitVec.getLsbD_ushiftRight, BitVec.getLsbD_or, BitVec.getLsbD_and]
  rw [PixelGs.getLsbD_colourMask (by omega), PixelGs.getLsbD_alphaMask (by omega), decide_eq_true hlow,
    decide_eq_false (show ¬24 ≤ 8 * c.val + i by omega), Bool.and_true, Bool.and_false, Bool.or_false]

/-- The channel of a word of 16 bits holds the first five bits of that of the word of 32 bits. -/
theorem storedChannel_rgba5551 (pixel : BitVec 32) (c : Fin 3) :
    (((rgba8888ToRgba5551 pixel).setWidth 32 >>> (5 * c.val)).setWidth 5).toNat =
      ((pixel >>> (8 * c.val)).setWidth 8).toNat / 8 := by
  have hbits : ((rgba8888ToRgba5551 pixel).setWidth 32 >>> (5 * c.val)).setWidth 5 =
      (pixel >>> (8 * c.val + 3)).setWidth 5 := by
    apply BitVec.eq_of_getLsbD_eq
    intro i hi
    have hc := c.isLt
    have hplace : (if 5 * c.val + i = 15 then 31 else (5 * c.val + i) / 5 * 8 + (5 * c.val + i) % 5 + 3) =
        8 * c.val + 3 + i := by
      rw [if_neg (by omega)]
      omega
    simp only [BitVec.getLsbD_setWidth, BitVec.getLsbD_ushiftRight]
    rw [getLsbD_rgba8888 _ (by omega), hplace, decide_eq_true (show 5 * c.val + i < 32 by omega), Bool.true_and]
  rw [hbits, BitVec.toNat_setWidth, BitVec.toNat_setWidth, BitVec.toNat_ushiftRight, BitVec.toNat_ushiftRight,
    Nat.shiftRight_add, Nat.shiftRight_eq_div_pow _ 3]
  omega

namespace PixelGs

variable {gs : PixelGs} {x y : ℤ} {z fbrgba : BitVec 32} {r g b a : BitVec 8} {keep : Bool} {c : Fin 3}

theorem shade_channel (fbrgba : BitVec 32) (keep : Bool) (r g b a : BitVec 8) (c : Fin 3) (habe : gs.abe = true) (hmsk : Frame.fbmsk gs.frame = 0) :
    ((gs.shade fbrgba keep r g b a) >>> (8 * c.val)).setWidth 8 =
      if gs.pabeKeeps a then ![r, g, b] c
      else gs.blend a ((fbrgba >>> 24).setWidth 8) (![r, g, b] c) ((fbrgba >>> (8 * c.val)).setWidth 8) := by
  have hpacked : ∀ (pixel : BitVec 32), ((if keep = true then (pixel &&& 0x00FFFFFF) ||| (fbrgba &&& 0xFF000000)
      else pixel) >>> (8 * c.val)).setWidth 8 = (pixel >>> (8 * c.val)).setWidth 8 := by
    intro pixel
    cases keep with
    | false => rfl
    | true => exact masked_channel pixel fbrgba c
  unfold shade
  extract_lets da blended r' g' b' fbmask a' pixel masked
  have hmasked : masked = pixel := if_neg (not_not_intro hmsk)
  rw [hpacked, hmasked, pack32_channel]
  have hblended : ∀ (cs : BitVec 8) (cd : BitVec 32), blended cs cd =
      if gs.pabeKeeps a then cs else gs.blend a da cs (cd.setWidth 8) := by
    intro cs cd
    simp only [blended, habe]
    cases gs.pabeKeeps a <;> rfl
  fin_cases c
  · exact hblended r fbrgba
  · exact hblended g (fbrgba >>> 8)
  · exact hblended b (fbrgba >>> 16)

/-- **The channel that is stored**, in the format of the frame. -/
theorem storedChannel_eq (habe : gs.abe = true) (hmsk : Frame.fbmsk gs.frame = 0) {p : BitVec 32}
    (h : gs.framePixel x y z r g b a = some p) (c : Fin 3) :
    storedChannel gs.fpsm p c = inFormat gs.fpsm (if gs.pabeKeeps a then ![r, g, b] c
      else gs.blend a ((gs.frameColour x.toNat y.toNat >>> 24).setWidth 8) (![r, g, b] c)
        ((gs.frameColour x.toNat y.toNat >>> (8 * c.val)).setWidth 8) : BitVec 8).toNat := by
  have heq := framePixel_eq h
  simp only [habe, Bool.or_true, Bool.true_or, if_true] at heq
  have hshade := shade_channel (gs.frameColour x.toNat y.toNat)
    (classifyAlphaTest gs.test a).preserveDestinationAlpha r g b a c habe hmsk
  rw [heq]
  unfold storedChannel inFormat
  by_cases h16 : ImageGs.bitsPerPixelOf gs.fpsm = 16
  · rw [if_pos h16, if_pos h16, if_pos h16, storedChannel_rgba5551, hshade]
    rfl
  · rw [if_neg h16, if_neg h16, if_neg h16, hshade]

/-! ### Code and formula -/

theorem frameColour_alpha_of_is24 (h : gs.Is24) (x y : ℕ) : ((gs.frameColour x y >>> 24).setWidth 8).toNat = 0 := by
  have hmode : ∃ mode, psmOf gs.fpsm = some mode ∧ mode.bitsPerPixel = 24 := by
    rcases h with h | h
    · exact ⟨c24, by rw [h]; rfl, rfl⟩
    · exact ⟨z24, by rw [h]; rfl, rfl⟩
  obtain ⟨mode, hmode, h24⟩ := hmode
  have hread : readVram gs.vram gs.fpsm gs.fbp gs.fbw x y < 2 ^ 24 := by
    rw [readVram, hmode, ← h24]
    simp only [readPixelFuncs_eq]
    exact read_lt
  unfold frameColour
  rw [bitsPerPixelOf_eq hmode, h24, if_neg (by decide), BitVec.toNat_setWidth, BitVec.toNat_ushiftRight,
    BitVec.toNat_ofNat, Nat.shiftRight_eq_div_pow]
  omega

theorem toNat_clampU8 (v : ℤ) : ((clampU8 v).toNat : ℤ) = max 0 (min 255 v) := by
  unfold clampU8
  split_ifs with hlow hhigh
  · have : ((0 : BitVec 8).toNat : ℤ) = 0 := rfl
    omega
  · have : ((255 : BitVec 8).toNat : ℤ) = 255 := rfl
    omega
  · rw [BitVec.toNat_ofInt]
    omega

theorem pick_mem (sel : ℕ) (cs cd : BitVec 8) : 0 ≤ pick sel cs.toNat cd.toNat ∧ pick sel cs.toNat cd.toNat ≤ 255 := by
  have hs := cs.isLt
  have hd := cd.isLt
  unfold pick
  split <;> omega

/-- `C`, with the alpha that the code has read. -/
def codeFactor (gs : PixelGs) (a da : BitVec 8) : ℤ :=
  if Alpha.c gs.alpha = 0 then a.toNat else if Alpha.c gs.alpha = 1 then da.toNat else (Alpha.fix gs.alpha).toNat

theorem toNat_blend (a da cs cd : BitVec 8) :
    ((gs.blend a da cs cd).toNat : ℤ) =
      if gs.clamp then
        (max 0 (min 255 (((pick (Alpha.a gs.alpha) cs.toNat cd.toNat - pick (Alpha.b gs.alpha) cs.toNat cd.toNat) *
          gs.codeFactor a da) >>> (7 : ℕ) + pick (Alpha.d gs.alpha) cs.toNat cd.toNat)) : ℤ)
      else (cs.toNat : ℤ) := by
  have hpick : ∀ sel : ℕ, (if sel = 0 then (cs.toNat : ℤ) else if sel = 1 then (cd.toNat : ℤ) else 0) =
      pick sel cs.toNat cd.toNat := by
    intro sel
    unfold pick
    rcases sel with _ | _ | sel <;> simp
  unfold blend codeFactor
  simp only [hpick]
  cases gs.clamp with
  | true => exact toNat_clampU8 _
  | false =>
    have hself : cs &&& 0xFF = cs := BitVec.and_allOnes
    simp only [Bool.false_eq_true, if_false, hself]

variable (c) in
/-- **A stored channel is that of the formula** under `COLCLAMP` unless the frame has 24 bits and its alpha is
used, and without `COLCLAMP` only where the formula happens to give the source. -/
theorem blended_stored_iff (habe : gs.abe = true) (hmsk : Frame.fbmsk gs.frame = 0) {p : BitVec 32}
    (h : gs.framePixel x y z r g b a = some p) :
    storedChannel gs.fpsm p c = inFormat gs.fpsm (gs.blended x.toNat y.toNat r g b a c) ↔
      gs.pabeKeeps a = true ∨
      (gs.clamp = true ∧ (gs.Is24 ∧ Alpha.c gs.alpha = 1 →
        gs.valueA x.toNat y.toNat r g b c = gs.valueB x.toNat y.toNat r g b c ∨
        (gs.valueB x.toNat y.toNat r g b c < gs.valueA x.toNat y.toNat r g b c ∧
          gs.valueD x.toNat y.toNat r g b c = 255) ∨
        (gs.valueA x.toNat y.toNat r g b c < gs.valueB x.toNat y.toNat r g b c ∧
          gs.valueD x.toNat y.toNat r g b c = 0))) ∨
      (gs.clamp = false ∧ inFormat gs.fpsm (source r g b c) =
        inFormat gs.fpsm (gs.formula x.toNat y.toNat r g b a c % 256)) := by
  rw [storedChannel_eq habe hmsk h]
  unfold blended
  cases hpabe : gs.pabeKeeps a with
  | true => exact iff_of_true rfl (.inl rfl)
  | false =>
    simp only [Bool.false_eq_true, if_false, false_or, toNat_blend]
    cases hclamp : gs.clamp with
    | false => simp [source]
    | true =>
      simp only [if_true, true_and, Bool.true_eq_false, false_and, or_false]
      have hd := pick_mem (Alpha.d gs.alpha) (![r, g, b] c)
        ((gs.frameColour x.toNat y.toNat >>> (8 * c.val)).setWidth 8)
      change inFormat gs.fpsm (max 0 (min 255 (((gs.valueA x.toNat y.toNat r g b c -
        gs.valueB x.toNat y.toNat r g b c) * gs.codeFactor a _) >>> (7 : ℕ) + gs.valueD x.toNat y.toNat r g b c))) = _ ↔ _
      change 0 ≤ gs.valueD x.toNat y.toNat r g b c ∧ gs.valueD x.toNat y.toNat r g b c ≤ 255 at hd
      by_cases hcase : gs.Is24 ∧ Alpha.c gs.alpha = 1
      · obtain ⟨h24, hc⟩ := hcase
        have h16 : ImageGs.bitsPerPixelOf gs.fpsm ≠ 16 := by
          rcases h24 with h24 | h24 <;> rw [h24] <;> decide
        have hzero : gs.codeFactor a ((gs.frameColour x.toNat y.toNat >>> 24).setWidth 8) = 0 := by
          simp [codeFactor, hc, frameColour_alpha_of_is24 h24]
        have hfactor : gs.factor x.toNat y.toNat a = 0x80 := by simp [factor, hc, h24]
        unfold formula inFormat
        rw [hfactor, hzero, if_neg h16, if_neg h16]
        generalize gs.valueA x.toNat y.toNat r g b c = vA at *
        generalize gs.valueB x.toNat y.toNat r g b c = vB at *
        generalize gs.valueD x.toNat y.toNat r g b c = vD at *
        have hnone : ((vA - vB) * 0) >>> (7 : ℕ) = 0 := by simp
        have hwhole : ((vA - vB) * 0x80) >>> (7 : ℕ) = vA - vB := by
          rw [Int.shiftRight_eq_div_pow]
          exact Int.mul_ediv_cancel _ (by decide)
        have himp : (gs.Is24 ∧ Alpha.c gs.alpha = 1) := ⟨h24, hc⟩
        simp only [hnone, hwhole, himp, and_self, forall_const]
        omega
      · have hfactor : gs.codeFactor a ((gs.frameColour x.toNat y.toNat >>> 24).setWidth 8) =
            gs.factor x.toNat y.toNat a := by
          unfold codeFactor factor
          by_cases hc : Alpha.c gs.alpha = 1
          · rw [if_neg (fun h24 => hcase ⟨h24, hc⟩)]
          · simp only [if_neg hc]
        rw [hfactor]
        exact iff_of_true rfl fun hboth => absurd hboth hcase

end PixelGs

/-! ### Two blends -/

/-- Every byte of memory is 0x40; the pixels are blended as `alpha` says. -/
def blending (alpha colclamp : BitVec 64) : PixelGs where
  vram := fun _ => 0x40
  prim := 0x40
  pabe := 0
  colclamp
  scissor := 0x003F0000003F0000
  frame := 0x10000
  zbuf := 0x100000001
  test := 0x20000
  alpha
  fba := 0
  bgSkip := false

/-- With `COLCLAMP`, half of the source over half of the frame. -/
theorem half_stored : ∃ p, (blending 0x44 1).framePixel 0 0 0 200 0 0 0x40 = some p ∧ storedChannel 0 p 0 = 132 := by
  obtain ⟨p, hp⟩ := Option.isSome_iff_exists.1
    (show ((blending 0x44 1).framePixel 0 0 0 200 0 0 0x40).isSome = true by decide +kernel)
  refine ⟨p, hp, ?_⟩
  have hstored := (PixelGs.blended_stored_iff 0 (by decide) (by decide) hp).2
    (.inr (.inl ⟨by decide, fun h24 => absurd h24.1 (by decide)⟩))
  exact hstored.trans (by decide +kernel)

/-- **Without `COLCLAMP` the sum of the source and the frame is not stored.** -/
theorem sum_not_stored :
    ¬∀ (gs : PixelGs) (x y : ℤ) (z : BitVec 32) (r g b a : BitVec 8) (p : BitVec 32) (c : Fin 3),
      gs.abe = true → Frame.fbmsk gs.frame = 0 → gs.framePixel x y z r g b a = some p →
      storedChannel gs.fpsm p c = inFormat gs.fpsm (gs.blended x.toNat y.toNat r g b a c) := by
  intro h
  have hstored : (blending 0x8000000068 0).framePixel 0 0 0 200 0 0 0 = some 200 := by decide +kernel
  have heq := h (blending 0x8000000068 0) 0 0 0 200 0 0 0 200 0 (by decide) (by decide) hstored
  exact absurd heq (by decide +kernel)

end Ps2Recomp.GSMem
