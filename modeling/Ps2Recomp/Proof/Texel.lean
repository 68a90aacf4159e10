import Ps2Recomp.Proof.Clut
import Ps2Recomp.Proof.Readout
import Mathlib.Tactic.IntervalCases

/-!
# Texels

The first sample behind a TEXFLUSH reads its page anew (`samplePoint_flushed`), and the page holds the
word of each pixel (`page_pixel`). What the sample makes of the word is the colour of the texel for
the modes without indices, except for three of the depth modes, and for the indices of 8 and 4 bits
with a palette of 32 bits: in the other modes with indices, which are the upper bits of words, the index
is taken from the low byte, and the entries of 16 bits of a palette are not expanded.

`texel_iff`: when samples are right.
-/

namespace Ps2Recomp.GSMem

open Bytes PixelStorageMode
open Vertices (field)

/-! ### Colours -/

section Colours

variable (texa : BitVec 64)

/-- The alpha of a colour that has none. -/
def texaAlpha (rgb : BitVec 24) : BitVec 8 := if Texa.aem texa ∧ rgb = 0 then 0 else Texa.ta0 texa

/-- The 8 bits of each colour of a 16 bit value. -/
def expanded (c : BitVec 16) : BitVec 24 :=
  (c.extractLsb' 10 5 ++ 0#3) ++ ((c.extractLsb' 5 5 ++ 0#3) ++ (c.extractLsb' 0 5 ++ 0#3))

/-- The colour of a value of `bits` bits. -/
def colour (bits : ℕ) (value : BitVec 32) : BitVec 32 :=
  match bits with
  | 24 => texaAlpha texa (value.setWidth 24) ++ value.setWidth 24
  | 16 =>
    let c := value.setWidth 16
    (if c.getLsbD 15 then Texa.ta1 texa else texaAlpha texa (expanded c)) ++ expanded c
  | _ => value

theorem and_or_shift (texel : BitVec 32) (a : BitVec 8) :
    (texel &&& (0x00FFFFFF : BitVec 32)) ||| (a.setWidth 32 <<< 24) = a ++ texel.setWidth 24 := by
  apply BitVec.eq_of_getLsbD_eq
  intro i hi
  have hmask : (0x00FFFFFF : BitVec 32) = (BitVec.allOnes 24).setWidth 32 := by decide
  rw [hmask]
  simp only [BitVec.getLsbD_or, BitVec.getLsbD_and, BitVec.getLsbD_setWidth, BitVec.getLsbD_allOnes,
    BitVec.getLsbD_shiftLeft, BitVec.getLsbD_append, hi, decide_true, Bool.true_and]
  by_cases hlow : i < 24
  · simp [hlow]
  · simp [hlow, show i - 24 < 32 by omega]

theorem rgba5551ToRgba8888_eq (c : BitVec 16) : rgba5551ToRgba8888 c = (c.extractLsb' 15 1 ++ 0#7) ++ expanded c := by
  apply BitVec.eq_of_getLsbD_eq
  intro i hi
  simp only [rgba5551ToRgba8888, expanded, BitVec.getLsbD_or, BitVec.getLsbD_and, BitVec.getLsbD_shiftLeft,
    BitVec.getLsbD_ushiftRight, BitVec.getLsbD_setWidth, BitVec.getLsbD_append, BitVec.getLsbD_extractLsb']
  interval_cases i
  all_goals simp

theorem bytes_zero_iff (texel : BitVec 32) :
    (texel.setWidth 8 = 0 ∧ (texel >>> 8).setWidth 8 = 0 ∧ (texel >>> 16).setWidth 8 = 0) ↔ texel.setWidth 24 = 0 := by
  simp only [← BitVec.toNat_inj, BitVec.toNat_setWidth, BitVec.toNat_ushiftRight, Nat.shiftRight_eq_div_pow]
  change (_ = 0 ∧ _ = 0 ∧ _ = 0) ↔ _ = 0
  omega

theorem top_append (texel : BitVec 32) : (texel >>> 24).setWidth 8 ++ texel.setWidth 24 = texel := by
  apply BitVec.eq_of_getLsbD_eq
  intro i hi
  simp only [BitVec.getLsbD_append, BitVec.getLsbD_setWidth, BitVec.getLsbD_ushiftRight]
  by_cases hlow : i < 24
  · simp [hlow]
  · simp [hlow, show i - 24 < 8 by omega, show 24 + (i - 24) = i by omega]

theorem and_0x80 : ∀ a : BitVec 8, a &&& (0x80 : BitVec 8) ≠ 0 ↔ a.getLsbD 7 = true := by decide

theorem applyTexa_eq (psm : ℕ) (texel : BitVec 32) :
    applyTexa texa psm texel =
      match psmOf psm with
      | some .c24 => texaAlpha texa (texel.setWidth 24) ++ texel.setWidth 24
      | some .c16 | some .c16s =>
        (if texel.getLsbD 31 then Texa.ta1 texa else texaAlpha texa (texel.setWidth 24)) ++ texel.setWidth 24
      | _ => texel := by
  have htransparent : (if (Texa.aem texa && decide (texel.setWidth 8 = 0 ∧ (texel >>> 8).setWidth 8 = 0 ∧
      (texel >>> 16).setWidth 8 = 0)) = true then 0 else Texa.ta0 texa) = texaAlpha texa (texel.setWidth 24) := by
    by_cases hzero : texel.setWidth 24 = 0
    · simp only [texaAlpha, hzero, (bytes_zero_iff texel).mpr hzero, and_self, and_true, decide_true, Bool.and_true]
    · simp only [texaAlpha, hzero, mt (bytes_zero_iff texel).mp hzero, and_false, decide_false, Bool.and_false,
        Bool.false_eq_true]
  have htop : ((texel >>> 24).setWidth 8 : BitVec 8).getLsbD 7 = texel.getLsbD 31 := by simp
  unfold applyTexa
  dsimp only
  rw [htransparent]
  simp only [and_or_shift, top_append, and_0x80, htop]
  generalize psmOf psm = mode
  rcases mode with _ | mode
  · rfl
  · cases mode
    case c16 | c16s => exact (apply_ite (· ++ texel.setWidth 24) ..).symm
    all_goals rfl

end Colours

/-! ### Pages -/

section Pages

variable {psm : PixelStorageMode} {bw : ℕ}

theorem read_congr {data : Memory} {a a' : ℕ} (h : psm.place a = psm.place a') :
    psm.read data a = psm.read data a' := by
  refine Nat.eq_of_testBit_eq fun i => ?_
  rw [testBit_read, testBit_read, h]

section

variable (psm : PixelStorageMode)

theorem place_page (bp bw bw' x y : ℕ) :
    psm.place (pixelAddressFuncs psm ((bp + psm.pageId 0 bw x y * 32) % 2 ^ 14) bw' (x % psm.pageExtent.x)
      (y % psm.pageExtent.y)) = psm.place (pixelAddressFuncs psm bp bw x y) := by
  have hwidth : 0 < psm.pageExtent.x ∧ 0 < psm.pageExtent.y := by cases psm <;> decide
  have hfirst : psm.pageId 0 bw' (x % psm.pageExtent.x) (y % psm.pageExtent.y) = 0 := by
    rw [pageId, Nat.div_eq_of_lt (Nat.mod_lt _ hwidth.1), Nat.div_eq_of_lt (Nat.mod_lt _ hwidth.2)]
    simp
  have hin : psm.inPage (x % psm.pageExtent.x) (y % psm.pageExtent.y) = psm.inPage x y := by
    rw [inPage, columnId_mod, blockId_mod, inPage]
  have hbits : psm.pixelsPerPage * psm.unpackedBitWidth = 65536 := by
    rw [pixelsPerPage_eq, Nat.mul_assoc, pixelsPerBlock_mul]
  rw [place_lookup, place_lookup, inBuffer, inBuffer, hfirst, hin, Nat.zero_mul, Nat.zero_add, Nat.add_mul,
    Nat.mul_assoc (psm.pageId 0 bw x y), hbits]
  generalize psm.inPage x y * psm.unpackedBitWidth = i
  generalize psm.pageId 0 bw x y = page
  omega

theorem pageShape_eq :
    psm.readoutMode ∈ readOutModes ∧
      1 <<< psm.readoutMode.pageShape.pageWidth2 = psm.readoutMode.pageExtent.x ∧
      1 <<< psm.readoutMode.pageShape.pageHeight2 = psm.readoutMode.pageExtent.y ∧
      psm.readoutMode.pageShape.bytesPerPixel = psm.readoutMode.packedSize ∧
      Pitch psm.readoutMode psm.readoutMode.pageShape.pitch := by
  cases psm
  all_goals exact ⟨by decide, by decide, by decide, by decide, ⟨by decide, by decide⟩⟩

theorem pagesPerRow_eq (hbw : 1 ≤ bw) (hlt : bw < 64) (hwhole : psm.WholePages bw) :
    max 1 ((bw * 64) >>> psm.readoutMode.pageShape.pageWidth2) = bw * 64 % 2 ^ 32 / psm.readoutMode.pageExtent.x := by
  have hpages : 1 ≤ bw * 64 / psm.readoutMode.pageExtent.x := by
    cases psm
    case p8 =>
      obtain ⟨half, hhalf⟩ := hwhole (.inl rfl)
      change 1 ≤ bw * 64 / 128
      omega
    case p4 =>
      obtain ⟨half, hhalf⟩ := hwhole (.inr rfl)
      change 1 ≤ bw * 64 / 128
      omega
    all_goals
      change 1 ≤ bw * 64 / 64
      omega
  obtain ⟨-, hwidth, -⟩ := pageShape_eq psm
  rw [Nat.one_shiftLeft] at hwidth
  rw [Nat.shiftRight_eq_div_pow, hwidth, Nat.mod_eq_of_lt (show bw * 64 < 2 ^ 32 by omega)]
  exact max_eq_right hpages

end

/-- **The word of a pixel** is what an empty cache finds in the page it reads out. -/
theorem page_pixel (gs : TextureGs) (hvalid : gs.texturePageCache.valid = false) {number : ℕ}
    (hpsm : psmOf number = some psm) (hbw : 1 ≤ bw) (hlt : bw < 64) (hwhole : psm.WholePages bw) (tbp0 u v : ℕ)
    (hv : v < 2 ^ 15) :
    ∃ baseBlock, gs.readTexturePageCache number tbp0 bw u v =
      (readPixelFuncs psm.readoutMode gs.vram tbp0 bw u v, gs.reloadTexturePageCache psm.readoutMode baseBlock) := by
  obtain ⟨hmode, hwidth, hheight, hbytes, hpitch⟩ := pageShape_eq psm
  have hpages := pagesPerRow_eq psm hbw hlt hwhole
  have hextent : 0 < psm.readoutMode.pageExtent.x ∧ 0 < psm.readoutMode.pageExtent.y := by
    cases psm <;> decide
  have hmod : ∀ {a n extent : ℕ}, 1 <<< n = extent → a &&& (1 <<< n - 1) = a % extent := by
    intro a n extent h
    rw [← h, Nat.one_shiftLeft, Nat.and_two_pow_sub_one_eq_mod]
  have hdiv : ∀ {a n extent : ℕ}, 1 <<< n = extent → a >>> n = a / extent := by
    intro a n extent h
    rw [← h, Nat.one_shiftLeft, Nat.shiftRight_eq_div_pow]
  -- The number of the page is far from 32 bits.
  have hrow : v / psm.readoutMode.pageExtent.y * (bw * 64 % 2 ^ 32 / psm.readoutMode.pageExtent.x) < 2 ^ 32 := by
    calc _ ≤ v * (bw * 64) := Nat.mul_le_mul (Nat.div_le_self ..) ((Nat.div_le_self ..).trans (Nat.mod_le ..))
      _ ≤ 2 ^ 15 * 2 ^ 12 := Nat.mul_le_mul (by omega) (by omega)
      _ < 2 ^ 32 := by decide
  have hpage : v / psm.readoutMode.pageExtent.y * (bw * 64 % 2 ^ 32 / psm.readoutMode.pageExtent.x) +
      u / psm.readoutMode.pageExtent.x = psm.readoutMode.pageId 0 bw u v := by
    rw [pageId, Nat.mod_eq_of_lt hrow, Nat.zero_div, Nat.zero_add]
  unfold TextureGs.readTexturePageCache
  simp only [hpsm, hvalid, true_or, if_true]
  refine ⟨_, Prod.ext ?_ rfl⟩
  simp only [hpages, hbytes]
  rw [hmod hwidth, hmod hheight, hdiv hwidth, hdiv hheight, hpage, show 0x3FFF = 2 ^ 14 - 1 from rfl,
    Nat.and_two_pow_sub_one_eq_mod]
  have hread := (readPage_eq_readPixel hmode hpitch gs.texturePageCache.buffer gs.vram
    ((tbp0 + psm.readoutMode.pageId 0 bw u v * 32) % 2 ^ 14) bw).1 _ (Nat.mod_lt u hextent.1) _
    (Nat.mod_lt v hextent.2)
  refine hread.trans ?_
  rw [readPixelFuncs_eq, readPixelFuncs_eq]
  exact read_congr (place_page ..)

theorem clampInt_eq {x n : ℕ} (h : x < 2 ^ n) : (clampInt x 0 (((1 <<< n : ℕ) : ℤ) - 1)).toNat = x := by
  rw [clampInt, Nat.one_shiftLeft, if_neg (by omega), if_neg (by omega), Int.toNat_natCast]

/-- **The first sample** behind a TEXFLUSH. -/
theorem samplePoint_flushed (gs : TextureGs) (ci : Fin 2) (flush : BitVec 64)
    (hpsm : psmOf (Tex0.psm (gs.tex0 ci)) = some psm) (hbw : 1 ≤ Tex0.tbw (gs.tex0 ci))
    (hwhole : psm.WholePages (Tex0.tbw (gs.tex0 ci))) {u v : ℕ} (hu : u < 2 ^ Tex0.tw (gs.tex0 ci))
    (hv : v < 2 ^ Tex0.th (gs.tex0 ci)) :
    ∃ gs', (gs.writeRegister 0x3F flush).bind (TextureGs.samplePoint ci u v) =
      (gs.texelOf (gs.tex0 ci)
        (readPixelFuncs psm.readoutMode gs.vram (Tex0.tbp0 (gs.tex0 ci)) (Tex0.tbw (gs.tex0 ci)) u v)).map
          (·, gs') := by
  have hth : Tex0.th (gs.tex0 ci) < 16 := (field (gs.tex0 ci) 30 4).isLt
  have hrows : v < 2 ^ 15 := hv.trans_le (Nat.pow_le_pow_right (by omega) (by omega))
  obtain ⟨baseBlock, hpage⟩ := page_pixel
    { gs with texflush := flush, texturePageCache := { gs.texturePageCache with valid := false } } rfl hpsm hbw
    (field (gs.tex0 ci) 14 6).isLt hwhole (Tex0.tbp0 (gs.tex0 ci)) u v hrows
  refine ⟨TextureGs.reloadTexturePageCache psm.readoutMode baseBlock
    { gs with texflush := flush, texturePageCache := { gs.texturePageCache with valid := false } }, ?_⟩
  rw [TextureGs.writeRegister, Option.bind_some, TextureGs.samplePoint]
  simp only [clampInt_eq hu, clampInt_eq hv, hpage]
  rw [Option.map_eq_bind]
  rfl

end Pages

/-! ### The texel of a texture -/

/-- The modes with indices. -/
def PixelStorageMode.Indexed (psm : PixelStorageMode) : Prop := psm ∈ [p8, p8h, p4, p4hl, p4hh]

instance (psm : PixelStorageMode) : Decidable psm.Indexed := inferInstanceAs (Decidable (psm ∈ _))

/-- The entry of a palette in the buffer, if it is all there. -/
def clutEntry (clutCache : Memory) (cpsm csa i : ℕ) : Option ℕ :=
  let n := if cpsm = 0 ∨ cpsm = 1 then 4 else 2
  if cpsm ∈ [0, 1, 2, 10] ∧ (csa * 16 + i + 1) * n ≤ clutCacheSize then
    some (load clutCache ((csa * 16 + i) * n) n)
  else none

/-- The texel of a texture: the pixel of the mode, or the entry of the palette that it is the index of. -/
def referenceTexel (vram clutCache : Memory) (texa tex : BitVec 64) (u v : ℕ) : Option (BitVec 32) :=
  let value := readVram vram (Tex0.psm tex) (Tex0.tbp0 tex) (Tex0.tbw tex) u v
  match psmOf (Tex0.psm tex) with
  | none => none
  | some psm =>
    if psm.Indexed then
      (clutEntry clutCache (Tex0.cpsm tex) (Tex0.csa tex) value).map fun entry =>
        colour texa (ImageGs.bitsPerPixelOf (Tex0.cpsm tex)) (.ofNat 32 entry)
    else some (colour texa psm.bitsPerPixel (.ofNat 32 value))

/-- The buffer holds the first entry of the palette. -/
def HasEntries (tex : BitVec 64) : Prop :=
  (Tex0.cpsm tex = 0 ∨ Tex0.cpsm tex = 1) ∧ Tex0.csa tex < 16 ∨ Tex0.cpsm tex = 2 ∨ Tex0.cpsm tex = 10

instance (tex : BitVec 64) : Decidable (HasEntries tex) := inferInstanceAs (Decidable (_ ∨ _))

/-- The textures whose samples are right: of a mode without indices other than three of the depth modes,
or of bytes or nibbles of their own with a palette of 32 bits, or without a palette. -/
def TexelKept (tex : BitVec 64) : Prop :=
  match psmOf (Tex0.psm tex) with
  | some .z24 | some .z16 | some .z16s => False
  | some .p8 | some .p4 => HasEntries tex → Tex0.cpsm tex = 0
  | some .p8h | some .p4hl | some .p4hh => ¬ HasEntries tex
  | _ => True

variable (clutCache : Memory)

theorem clutEntry_zero_isSome {tex : BitVec 64} (h : HasEntries tex) :
    ∃ entry, clutEntry clutCache (Tex0.cpsm tex) (Tex0.csa tex) 0 = some entry := by
  have hcsa : Tex0.csa tex < 32 := (field tex 56 5).isLt
  rcases h with ⟨h01, hlt⟩ | h2
  · exact ⟨_, if_pos ⟨by rcases h01 with h | h <;> simp [h], by rw [if_pos h01, clutCacheSize]; omega⟩⟩
  · exact ⟨_, if_pos ⟨by rcases h2 with h | h <;> simp [h], by rw [if_neg (by omega), clutCacheSize]; omega⟩⟩

theorem clutEntry_eq_none {tex : BitVec 64} (h : ¬ HasEntries tex) (i : ℕ) :
    clutEntry clutCache (Tex0.cpsm tex) (Tex0.csa tex) i = none := by
  refine if_neg ?_
  rintro ⟨hmem, hroom⟩
  apply h
  simp only [List.mem_cons, List.not_mem_nil, or_false] at hmem
  rcases hmem with h0 | h1 | h2 | h10
  · rw [if_pos (.inl h0), clutCacheSize] at hroom
    exact .inl ⟨.inl h0, by omega⟩
  · rw [if_pos (.inr h1), clutCacheSize] at hroom
    exact .inl ⟨.inr h1, by omega⟩
  · exact .inr (.inl h2)
  · exact .inr (.inr h10)

theorem clutEntry_word {csa i : ℕ} (h : csa * 16 + i < 256) :
    clutEntry clutCache 0 csa i = some (load clutCache ((csa * 16 + i) * 4) 4) := by
  have hroom : (csa * 16 + i + 1) * 4 ≤ clutCacheSize := by
    rw [clutCacheSize]
    omega
  exact if_pos ⟨List.mem_cons_self, hroom⟩

theorem readClutCache_of_entry {clutCache : Memory} {cpsm csa i entry : ℕ}
    (h : clutEntry clutCache cpsm csa i = some entry) : readClutCache clutCache cpsm i csa = some entry := by
  unfold clutEntry at h
  by_cases hin : cpsm ∈ [0, 1, 2, 10] ∧ (csa * 16 + i + 1) * (if cpsm = 0 ∨ cpsm = 1 then 4 else 2) ≤ clutCacheSize
  · rw [if_pos hin] at h
    obtain ⟨hmem, hroom⟩ := hin
    have hsum : ∀ n, csa * 16 * n + i * n = (csa * 16 + i) * n := fun n => (Nat.add_mul ..).symm
    have hlast : ∀ n, (csa * 16 + i) * n + n = (csa * 16 + i + 1) * n := fun n => (Nat.succ_mul ..).symm
    simp only [List.mem_cons, List.not_mem_nil, or_false] at hmem
    rcases hmem with rfl | rfl | rfl | rfl
    all_goals
      simp only [readClutCache, psmOf, loadClut]
      rw [hsum, hlast]
      exact (if_pos hroom).trans h
  · rw [if_neg hin] at h
    exact absurd h (Option.some_ne_none _).symm

/-! ### Samples that are right -/

section Samples

variable {gs : TextureGs} {tex : BitVec 64} {psm : PixelStorageMode} {u v : ℕ} {texel : BitVec 32}

theorem readPixel_c24 (vram : Memory) (bp bw x y : ℕ) :
    readPixelFuncs c24 vram bp bw x y = readPixelFuncs c32 vram bp bw x y % 2 ^ 24 := by
  refine Nat.eq_of_testBit_eq fun i => ?_
  have hplace : c24.place (pixelAddressFuncs c24 bp bw x y) = c32.place (pixelAddressFuncs c32 bp bw x y) := rfl
  rw [readPixelFuncs_eq, readPixelFuncs_eq, Nat.testBit_mod_two_pow, testBit_read, testBit_read, hplace]
  by_cases hi : i < 24
  · simp [hi, bitsPerPixel, show i < 32 by omega]
  · simp [hi, bitsPerPixel]

theorem readPixel_lt (psm : PixelStorageMode) (vram : Memory) (bp bw x y : ℕ) :
    readPixelFuncs psm vram bp bw x y < 2 ^ psm.bitsPerPixel := by
  rw [readPixelFuncs_eq]
  exact read_lt

variable {out : ℕ}

theorem texel_word (hpsm : psmOf (Tex0.psm tex) = some psm) (hmode : psm = c32 ∨ psm = z32) :
    gs.texelOf tex out = some (.ofNat 32 out) := by
  unfold TextureGs.texelOf
  rcases hmode with rfl | rfl
  · simp only [hpsm, applyTexa_eq]
  · simp only [hpsm, applyTexa_eq]

theorem texel_c24 (hpsm : psmOf (Tex0.psm tex) = some c24) :
    gs.texelOf tex out = some (colour gs.texa 24 (.ofNat 32 (out % 2 ^ 24))) := by
  have hrgb : (BitVec.ofNat 32 out).setWidth 24 = (BitVec.ofNat 32 (out % 2 ^ 24)).setWidth 24 := by
    apply BitVec.eq_of_toNat_eq
    simp only [BitVec.toNat_setWidth, BitVec.toNat_ofNat]
    omega
  unfold TextureGs.texelOf
  simp only [hpsm, applyTexa_eq, colour, hrgb]

section

variable (hpsm : psmOf (Tex0.psm tex) = some psm)

include hpsm

theorem texel_half (hmode : psm = c16 ∨ psm = c16s) :
    gs.texelOf tex out = some (colour gs.texa 16 (.ofNat 32 out)) := by
  have hhalf : (BitVec.ofNat 32 out).setWidth 16 = BitVec.ofNat 16 out := by
    apply BitVec.eq_of_toNat_eq
    simp only [BitVec.toNat_setWidth, BitVec.toNat_ofNat]
    omega
  have hrgb : ∀ c : BitVec 16, (rgba5551ToRgba8888 c).setWidth 24 = expanded c := by
    intro c
    rw [rgba5551ToRgba8888_eq]
    apply BitVec.eq_of_getLsbD_eq
    intro i hi
    simp only [BitVec.getLsbD_setWidth, BitVec.getLsbD_append, hi, decide_true, Bool.true_and, if_true]
  have htop : ∀ c : BitVec 16, (rgba5551ToRgba8888 c).getLsbD 31 = c.getLsbD 15 := by
    intro c
    rw [rgba5551ToRgba8888_eq]
    simp only [BitVec.getLsbD_append, BitVec.getLsbD_extractLsb']
    rfl
  unfold TextureGs.texelOf
  rcases hmode with rfl | rfl
  · simp only [hpsm, applyTexa_eq, hrgb, htop, colour, hhalf]
  · simp only [hpsm, applyTexa_eq, hrgb, htop, colour, hhalf]

theorem texel_index {index entry : ℕ} (hmode : psm = p8 ∨ psm = p4)
    (hlt : index < 256) (hentry : clutEntry gs.clutCache (Tex0.cpsm tex) (Tex0.csa tex) index = some entry) :
    gs.texelOf tex index = some (.ofNat 32 entry) := by
  have hlookup := readClutCache_of_entry hentry
  unfold TextureGs.texelOf
  rcases hmode with rfl | rfl
  · simp only [hpsm, Nat.mod_eq_of_lt hlt, hlookup, Option.bind_eq_bind, Option.bind_some, applyTexa_eq]
  · simp only [hpsm, Nat.mod_eq_of_lt hlt, hlookup, Option.bind_eq_bind, Option.bind_some, applyTexa_eq]

/-- **The samples that are right.** -/
theorem texelOf_kept (hkept : TexelKept tex) (href : referenceTexel gs.vram gs.clutCache gs.texa tex u v = some texel) :
    gs.texelOf tex (readPixelFuncs psm.readoutMode gs.vram (Tex0.tbp0 tex) (Tex0.tbw tex) u v) = some texel := by
  unfold referenceTexel readVram at href
  unfold TexelKept at hkept
  simp only [hpsm] at href hkept
  have hnone : ¬ HasEntries tex → ∀ i, clutEntry gs.clutCache (Tex0.cpsm tex) (Tex0.csa tex) i = none :=
    fun h => clutEntry_eq_none gs.clutCache h
  -- Modes with indices of their own have a palette of 32 bits, others have no palette.
  have hindex : psm.Indexed → HasEntries tex → psm = p8 ∨ psm = p4 := by
    intro hindexed hentries
    cases psm
    case p8 => exact .inl rfl
    case p4 => exact .inr rfl
    case p8h | p4hl | p4hh => exact absurd hentries hkept
    all_goals exact absurd hindexed (by decide)
  by_cases hindexed : psm.Indexed
  · rw [if_pos hindexed] at href
    obtain ⟨entry, hentry, hcolour⟩ := Option.map_eq_some_iff.mp href
    have hentries : HasEntries tex := by
      by_contra hno
      rw [hnone hno] at hentry
      exact absurd hentry (Option.some_ne_none _).symm
    have hmode := hindex hindexed hentries
    have hcpsm : Tex0.cpsm tex = 0 := by
      rcases hmode with rfl | rfl
      · exact hkept hentries
      · exact hkept hentries
    have hreadout : psm.readoutMode = psm := by
      rcases hmode with rfl | rfl
      · rfl
      · rfl
    have hlt : readPixelFuncs psm gs.vram (Tex0.tbp0 tex) (Tex0.tbw tex) u v < 256 := by
      refine (readPixel_lt ..).trans_le ?_
      rcases hmode with rfl | rfl
      · decide
      · decide
    rw [hcpsm] at hcolour
    rw [hreadout, texel_index hpsm hmode hlt hentry, ← hcolour]
    rfl
  · rw [if_neg hindexed] at href
    rw [← Option.some.inj href]
    cases psm
    case c32 => exact texel_word hpsm (.inl rfl)
    case z32 => exact texel_word hpsm (.inr rfl)
    case c24 =>
      rw [readPixel_c24]
      exact texel_c24 hpsm
    case c16 => exact texel_half hpsm (.inl rfl)
    case c16s => exact texel_half hpsm (.inr rfl)
    case z24 | z16 | z16s => exact hkept.elim
    all_goals exact absurd (by decide) hindexed

end

end Samples

/-! ### Samples that are wrong -/

section Wrong

variable {tex : BitVec 64} {psm : PixelStorageMode}

theorem load_zeros (p n : ℕ) : load (filled 0) p n = 0 := by
  induction n generalizing p with
  | zero => rfl
  | succ n ih =>
    rw [load, ih]
    rfl

/-- Alpha that TEXA gives to black, in the modes where samples do not look at it: of a texture, or of
its palette. -/
theorem zeros_wrong (hpsm : psmOf (Tex0.psm tex) = some psm)
    (h : psm ∈ [z24, z16, z16s] ∨ psm.Indexed ∧ HasEntries tex ∧ Tex0.cpsm tex ≠ 0) (gs : TextureGs) :
    referenceTexel (filled 0) (filled 0) 1 tex 0 0 = some 0x01000000 ∧
      { gs with vram := filled 0, clutCache := filled 0, texa := 1 }.texelOf tex 0 = some 0 := by
  have hvalue : readVram (filled 0) (Tex0.psm tex) (Tex0.tbp0 tex) (Tex0.tbw tex) 0 0 = 0 := by
    unfold readVram
    simp only [hpsm]
    rw [readPixelFuncs_eq, read_zeros]
  rcases h with hmode | ⟨hindexed, hentries, hcpsm⟩
  · simp only [List.mem_cons, List.not_mem_nil, or_false] at hmode
    unfold referenceTexel TextureGs.texelOf
    simp only [hpsm, hvalue, applyTexa_eq]
    rcases hmode with rfl | rfl | rfl
    · exact ⟨(if_neg (by decide)).trans (by decide), rfl⟩
    · exact ⟨(if_neg (by decide)).trans (by decide), rfl⟩
    · exact ⟨(if_neg (by decide)).trans (by decide), rfl⟩
  · obtain ⟨entry, hentry⟩ := clutEntry_zero_isSome (filled 0) hentries
    have hzero : entry = 0 := by
      unfold clutEntry at hentry
      rw [← Option.some.inj ((Option.ite_none_right_eq_some.mp hentry).2), load_zeros]
    subst hzero
    have hlookup := readClutCache_of_entry hentry
    constructor
    · have hbits : ImageGs.bitsPerPixelOf (Tex0.cpsm tex) = 24 ∨ ImageGs.bitsPerPixelOf (Tex0.cpsm tex) = 16 := by
        rcases hentries with ⟨hzero | hone, -⟩ | htwo | hten
        · exact absurd hzero hcpsm
        · exact .inl (by rw [hone]; rfl)
        · exact .inr (by rw [htwo]; rfl)
        · exact .inr (by rw [hten]; rfl)
      unfold referenceTexel
      simp only [hpsm, hvalue, hindexed, if_true, hentry, Option.map_some]
      rcases hbits with hb | hb
      · rw [hb]
        decide
      · rw [hb]
        decide
    · have hmode := hindexed
      simp only [PixelStorageMode.Indexed, List.mem_cons, List.not_mem_nil, or_false] at hmode
      unfold TextureGs.texelOf
      rcases hmode with rfl | rfl | rfl | rfl | rfl
      all_goals simp only [hpsm, Nat.zero_mod, hlookup, Option.bind_eq_bind, Option.bind_some, applyTexa_eq]
      all_goals rfl

/-- Words of one. -/
def wordsOfOne : Memory := fun q => if q % 4 = 0 then 1 else 0

/-- A palette of zeros and of another colour by turns. -/
def alternating : Memory := fun q => if q / 4 % 2 = 0 then 0 else 1

theorem bit_wordsOfOne (k : ℕ) : bit wordsOfOne k = decide (k % 32 = 0) := by
  unfold bit wordsOfOne
  by_cases hbyte : k / 8 % 4 = 0
  · have hk : k % 32 = k % 8 := by omega
    have hlt : k % 8 < 8 := Nat.mod_lt _ (by omega)
    rw [if_pos hbyte, hk]
    generalize k % 8 = i at *
    interval_cases i <;> rfl
  · rw [if_neg hbyte, decide_eq_false (by omega)]
    exact BitVec.getLsbD_zero

section

variable (hpsm : psmOf (Tex0.psm tex) = some psm)

include hpsm

/-- The upper bits of a word as an index, where samples take the low byte. -/
theorem upper_wrong (hmode : psm ∈ [p8h, p4hl, p4hh])
    (hcpsm : Tex0.cpsm tex = 0) (hcsa : Tex0.csa tex < 16) (gs : TextureGs) :
    referenceTexel wordsOfOne alternating 0 tex 0 0 = some 0 ∧
      { gs with vram := wordsOfOne, clutCache := alternating, texa := 0 }.texelOf tex
        (readPixelFuncs psm.readoutMode wordsOfOne (Tex0.tbp0 tex) (Tex0.tbw tex) 0 0) ≠ some 0 := by
  have hbit : ∀ i, bit wordsOfOne i = decide (i % 32 = 0) := bit_wordsOfOne
  have hmodes : psm.Indexed ∧ psm.readoutMode = c32 ∧ ∀ i < psm.bitsPerPixel, ∀ a, (psm.place a + i) % 32 ≠ 0 := by
    simp only [List.mem_cons, List.not_mem_nil, or_false] at hmode
    rcases hmode with rfl | rfl | rfl
    all_goals
      refine ⟨by decide, rfl, fun i hi a => ?_⟩
      simp only [bitsPerPixel, place, unpackedBitWidth, bitOffset] at *
      omega
  obtain ⟨hindexed, hreadout, hplace⟩ := hmodes
  have hvalue : readVram wordsOfOne (Tex0.psm tex) (Tex0.tbp0 tex) (Tex0.tbw tex) 0 0 = 0 := by
    unfold readVram
    simp only [hpsm]
    rw [readPixelFuncs_eq]
    refine Nat.eq_of_testBit_eq fun i => ?_
    rw [testBit_read, Nat.zero_testBit]
    by_cases hi : i < psm.bitsPerPixel
    · rw [hbit, decide_eq_false (hplace i hi _), Bool.and_false]
    · rw [decide_eq_false hi, Bool.false_and]
  have hword : readPixelFuncs c32 wordsOfOne (Tex0.tbp0 tex) (Tex0.tbw tex) 0 0 = 1 := by
    rw [readPixelFuncs_eq]
    refine Nat.eq_of_testBit_eq fun i => ?_
    have hplace : ∀ a, c32.place a % 32 = 0 := by
      intro a
      simp only [place, unpackedBitWidth, bitOffset]
      omega
    have hstart := hplace (pixelAddressFuncs c32 (Tex0.tbp0 tex) (Tex0.tbw tex) 0 0)
    rw [testBit_read, hbit, Bool.eq_iff_iff, Nat.testBit_one_eq_true_iff_self_eq_zero, Bool.and_eq_true,
      decide_eq_true_eq, decide_eq_true_eq]
    simp only [bitsPerPixel]
    omega
  -- The entries 0 and 1 of the palette.
  have hzero : clutEntry alternating 0 (Tex0.csa tex) 0 = some 0 := by
    have hload : load alternating ((Tex0.csa tex * 16 + 0) * 4) 4 = load (filled 0) ((Tex0.csa tex * 16 + 0) * 4) 4 := by
      apply load_congr
      intro r hlo hhi
      exact if_pos (by omega)
    rw [clutEntry_word _ (by omega), hload, load_zeros]
  have hone : clutEntry alternating 0 (Tex0.csa tex) 1 = some 0x01010101 := by
    have hload : load alternating ((Tex0.csa tex * 16 + 1) * 4) 4 = load (filled 1) ((Tex0.csa tex * 16 + 1) * 4) 4 := by
      apply load_congr
      intro r hlo hhi
      exact if_neg (by omega)
    rw [clutEntry_word _ (by omega), hload]
    simp only [load, filled]
    decide
  constructor
  · unfold referenceTexel
    simp only [hpsm, hvalue, hcpsm, hindexed, if_true, hzero, Option.map_some]
    rfl
  · have hlookup := readClutCache_of_entry hone
    simp only [List.mem_cons, List.not_mem_nil, or_false] at hmode
    rw [hreadout, hword]
    unfold TextureGs.texelOf
    rcases hmode with rfl | rfl | rfl
    all_goals
      simp only [hpsm, hcpsm, hlookup, Nat.reduceMod, Option.bind_eq_bind, Option.bind_some, applyTexa_eq]
      decide

/-- The textures whose samples do not show what the mode says, in one content of memory at least. -/
theorem exists_wrong (hnot : ¬ TexelKept tex) (gs : TextureGs) :
    ∃ vram clutCache texa texel, referenceTexel vram clutCache texa tex 0 0 = some texel ∧
      { gs with vram, clutCache, texa }.texelOf tex
        (readPixelFuncs psm.readoutMode vram (Tex0.tbp0 tex) (Tex0.tbw tex) 0 0) ≠ some texel := by
  have hzeros : psm ∈ [z24, z16, z16s] ∨ psm.Indexed ∧ HasEntries tex ∧ Tex0.cpsm tex ≠ 0 →
      ∃ vram clutCache texa texel, referenceTexel vram clutCache texa tex 0 0 = some texel ∧
        { gs with vram, clutCache, texa }.texelOf tex
          (readPixelFuncs psm.readoutMode vram (Tex0.tbp0 tex) (Tex0.tbw tex) 0 0) ≠ some texel := by
    intro h
    obtain ⟨href, hsample⟩ := zeros_wrong hpsm h gs
    refine ⟨filled 0, filled 0, 1, 0x01000000, href, ?_⟩
    rw [readPixelFuncs_eq, read_zeros, hsample]
    decide
  unfold TexelKept at hnot
  simp only [hpsm] at hnot
  cases psm
  case z24 | z16 | z16s => exact hzeros (.inl (by decide))
  case p8 | p4 =>
    obtain ⟨hentries, hcpsm⟩ := Classical.not_imp.mp hnot
    exact hzeros (.inr ⟨by decide, hentries, hcpsm⟩)
  case p8h | p4hl | p4hh =>
    have hentries := not_not.mp hnot
    by_cases hcpsm : Tex0.cpsm tex = 0
    · have hcsa : Tex0.csa tex < 16 := by
        rcases hentries with ⟨-, hlt⟩ | htwo
        · exact hlt
        · omega
      obtain ⟨href, hsample⟩ := upper_wrong hpsm (by decide) hcpsm hcsa gs
      exact ⟨wordsOfOne, alternating, 0, 0, href, hsample⟩
    · exact hzeros (.inr ⟨by decide, hentries, hcpsm⟩)
  all_goals exact absurd trivial hnot

end

end Wrong

/-! ### Textures -/

/-- A texture in one of the modes, of a row of whole pages at least. -/
structure IsTexture (tex : BitVec 64) (psm : PixelStorageMode) : Prop where
  mode : psmOf (Tex0.psm tex) = some psm
  width : 1 ≤ Tex0.tbw tex
  pages : psm.WholePages (Tex0.tbw tex)

/-- **When texels are right.** For every texture, from any state of the registers: the first sample of
each of its texels behind a TEXFLUSH is the texel of the texture, whatever GS memory and the
palette hold and whatever TEXA says, exactly for the textures of `TexelKept`. -/
theorem texel_iff (gs : TextureGs) (ci : Fin 2) {psm : PixelStorageMode} (h : IsTexture (gs.tex0 ci) psm) :
    (∀ vram clutCache texa flush, ∀ u < 2 ^ Tex0.tw (gs.tex0 ci), ∀ v < 2 ^ Tex0.th (gs.tex0 ci), ∀ texel,
      referenceTexel vram clutCache texa (gs.tex0 ci) u v = some texel →
        ∃ gs', ({ gs with vram, clutCache, texa }.writeRegister 0x3F flush).bind (TextureGs.samplePoint ci u v) =
          some (texel, gs')) ↔ TexelKept (gs.tex0 ci) := by
  constructor
  · intro hall
    by_contra hnot
    obtain ⟨vram, clutCache, texa, texel, href, hwrong⟩ := exists_wrong h.mode hnot gs
    obtain ⟨gs', hsample⟩ := hall vram clutCache texa 0 0 (Nat.two_pow_pos _) 0 (Nat.two_pow_pos _) texel href
    obtain ⟨gs'', hflushed⟩ := samplePoint_flushed { gs with vram, clutCache, texa } ci 0 h.mode h.width h.pages
      (Nat.two_pow_pos _) (Nat.two_pow_pos _)
    obtain ⟨texel', htexel, heq⟩ := Option.map_eq_some_iff.mp (hflushed.symm.trans hsample)
    have heq' : texel' = texel := congrArg Prod.fst heq
    exact hwrong (htexel.trans (congrArg some heq'))
  · intro hkept vram clutCache texa flush u hu v hv texel href
    obtain ⟨gs', hflushed⟩ := samplePoint_flushed { gs with vram, clutCache, texa } ci flush h.mode h.width h.pages
      hu hv
    have htexel : { gs with vram, clutCache, texa }.texelOf (gs.tex0 ci) (readPixelFuncs psm.readoutMode vram
        (Tex0.tbp0 (gs.tex0 ci)) (Tex0.tbw (gs.tex0 ci)) u v) = some texel := texelOf_kept h.mode hkept href
    exact ⟨gs', hflushed.trans (congrArg (Option.map (·, gs')) htexel)⟩

/-- A texture of bytes with a palette of 32 bits. -/
theorem t8_texel_right :
    let gs : TextureGs := { TextureGs.initial (filled 0) with tex0 := fun _ => 0x1308000 }
    IsTexture (gs.tex0 0) p8 ∧ ∀ vram clutCache texa flush, ∀ u < 2 ^ Tex0.tw (gs.tex0 0),
      ∀ v < 2 ^ Tex0.th (gs.tex0 0), ∀ texel, referenceTexel vram clutCache texa (gs.tex0 0) u v = some texel →
        ∃ gs', ({ gs with vram, clutCache, texa }.writeRegister 0x3F flush).bind (TextureGs.samplePoint 0 u v) =
          some (texel, gs') := by
  have h : IsTexture 0x1308000 p8 := ⟨by decide, by decide, fun _ => ⟨1, by decide⟩⟩
  exact ⟨h, (texel_iff { TextureGs.initial (filled 0) with tex0 := fun _ => 0x1308000 } 0 h).mpr fun _ => by decide⟩

/-- The upper byte of a word as an index. -/
theorem t8h_texel_wrong :
    ¬ ∀ (gs : TextureGs) (ci : Fin 2) (psm : PixelStorageMode), IsTexture (gs.tex0 ci) psm →
      ∀ flush, ∀ u < 2 ^ Tex0.tw (gs.tex0 ci), ∀ v < 2 ^ Tex0.th (gs.tex0 ci), ∀ texel,
        referenceTexel gs.vram gs.clutCache gs.texa (gs.tex0 ci) u v = some texel →
          ∃ gs', (gs.writeRegister 0x3F flush).bind (TextureGs.samplePoint ci u v) = some (texel, gs') := by
  intro hall
  have hpages : p8h.WholePages (Tex0.tbw 0x1B04000) := fun hmode => absurd hmode (by decide)
  have h : IsTexture 0x1B04000 p8h := ⟨by decide, by decide, hpages⟩
  obtain ⟨href, hwrong⟩ := upper_wrong h.mode (by decide) (by decide) (by decide) (.initial (filled 0))
  obtain ⟨gs', hsample⟩ := hall
    { TextureGs.initial wordsOfOne with clutCache := alternating, tex0 := fun _ => 0x1B04000 } 0 p8h h 0 0
    (Nat.two_pow_pos _) 0 (Nat.two_pow_pos _) 0 href
  obtain ⟨gs'', hflushed⟩ := samplePoint_flushed
    { TextureGs.initial wordsOfOne with clutCache := alternating, tex0 := fun _ => 0x1B04000 } 0 0 h.mode h.width h.pages
    (Nat.two_pow_pos _) (Nat.two_pow_pos _)
  obtain ⟨texel, htexel, heq⟩ := Option.map_eq_some_iff.mp (hflushed.symm.trans hsample)
  have heq' : texel = 0 := congrArg Prod.fst heq
  exact hwrong (htexel.trans (congrArg some heq'))

end Ps2Recomp.GSMem
