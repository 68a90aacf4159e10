import Ps2Recomp.Spec.PixelWrite
import Ps2Recomp.Proof.Pixels
import Mathlib.Tactic.IntervalCases

/-!
# What writing a pixel changes

`writePixel_enables_iff`: the bits of memory that `writePixel` changes are those that the scissor, the tests
and the masks enable, except where the alpha test fails and only the frame, or only its colours, should be
written: the depth is stored there too. With `ZB_ONLY` nothing is stored.
-/

namespace Ps2Recomp.GSMem

open Bytes PixelStorageMode
open Vertices (field)

/-! ### Bits of a pixel -/

/-- The bit of the 32 bits of a colour that a bit of a pixel is taken from. -/
def colourBit (psm i : ℕ) : ℕ :=
  if ImageGs.bitsPerPixelOf psm = 16 then (if i = 15 then 31 else i / 5 * 8 + i % 5 + 3) else i

/-- The bit `i` of a pixel of a buffer is the bit `k` of memory. -/
def PixelBit (psm base bw x y i k : ℕ) : Prop :=
  ∃ mode, psmOf psm = some mode ∧ i < mode.bitsPerPixel ∧ k = mode.place (pixelAddressFuncs mode base bw x y) + i

variable {vram : Memory} {psm base bw x y i k value : ℕ}

theorem bitsPerPixelOf_eq {mode : PixelStorageMode} (h : psmOf psm = some mode) :
    ImageGs.bitsPerPixelOf psm = mode.bitsPerPixel := by
  rw [ImageGs.bitsPerPixelOf, h]

theorem bit_writeVram (h : PixelBit psm base bw x y i k) :
    bit (writeVram vram psm base bw x y value) k = value.testBit i := by
  obtain ⟨mode, hmode, hi, rfl⟩ := h
  have hsize := mode.bitsPerPixel_le
  rw [writeVram, hmode]
  simp only [writePixelFuncs_eq]
  rw [writePixelAddress, bit_write, if_pos (by omega), Nat.add_sub_cancel_left, Nat.testBit_mod_two_pow,
    decide_eq_true (by omega), Bool.true_and]

theorem bit_writeVram_of_not (h : ∀ i, ¬PixelBit psm base bw x y i k) :
    bit (writeVram vram psm base bw x y value) k = bit vram k := by
  rw [writeVram]
  cases hmode : psmOf psm with
  | none => rfl
  | some mode =>
    simp only [writePixelFuncs_eq]
    rw [writePixelAddress, bit_write, if_neg]
    rintro ⟨hlo, hhi⟩
    exact h _ ⟨mode, hmode, by omega, (Nat.add_sub_cancel' hlo).symm⟩

theorem testBit_readVram (vram : Memory) (h : PixelBit psm base bw x y i k) :
    (readVram vram psm base bw x y).testBit i = bit vram k := by
  obtain ⟨mode, hmode, hi, rfl⟩ := h
  rw [readVram, hmode]
  simp only [readPixelFuncs_eq]
  rw [testBit_read, decide_eq_true hi, Bool.true_and]

/-! ### Colours of 16 bits -/

theorem getLsbD_rgba5551 (c : BitVec 16) (hi : i < 16) :
    (rgba5551ToRgba8888 c).getLsbD (if i = 15 then 31 else i / 5 * 8 + i % 5 + 3) = c.getLsbD i := by
  unfold rgba5551ToRgba8888
  interval_cases i <;> simp

theorem getLsbD_rgba8888 (c : BitVec 32) (hi : i < 16) :
    (rgba8888ToRgba5551 c).getLsbD i = c.getLsbD (if i = 15 then 31 else i / 5 * 8 + i % 5 + 3) := by
  unfold rgba8888ToRgba5551
  interval_cases i <;> simp

theorem colourBit_lt (hi : i < 32) (h16 : ImageGs.bitsPerPixelOf psm = 16 → i < 16) : colourBit psm i < 32 := by
  unfold colourBit
  split_ifs with hsize h15
  · decide
  · have := h16 hsize
    omega
  · exact hi

namespace PixelGs

variable {gs : PixelGs} {x y : ℤ} {z fbrgba : BitVec 32} {r g b a : BitVec 8} {keep : Bool} {i j k : ℕ}

theorem getLsbD_frameColour {x y : ℕ} (h : PixelBit gs.fpsm gs.fbp gs.fbw x y i k) :
    (gs.frameColour x y).getLsbD (colourBit gs.fpsm i) = bit gs.vram k := by
  have hread := testBit_readVram gs.vram h
  obtain ⟨mode, hmode, hi, -⟩ := h
  have hbits := bitsPerPixelOf_eq hmode
  have hle : mode.bitsPerPixel ≤ 32 := by cases mode <;> decide
  unfold frameColour colourBit
  by_cases h16 : ImageGs.bitsPerPixelOf gs.fpsm = 16
  · rw [if_pos h16, if_pos h16, getLsbD_rgba5551 _ (by omega), BitVec.getLsbD_ofNat, hread,
      decide_eq_true (by omega), Bool.true_and]
  · rw [if_neg h16, if_neg h16, BitVec.getLsbD_ofNat, hread, decide_eq_true (by omega), Bool.true_and]

theorem getLsbD_colourMask (hj : j < 32) : (0x00FFFFFF : BitVec 32).getLsbD j = decide (j < 24) := by
  revert j
  decide

theorem getLsbD_alphaMask (hj : j < 32) : (0xFF000000 : BitVec 32).getLsbD j = decide (24 ≤ j) := by
  revert j
  decide

theorem getLsbD_shade (fbrgba : BitVec 32) (r g b a : BitVec 8) (hj : j < 32)
    (h : (Frame.fbmsk gs.frame).getLsbD j = true ∨ keep = true ∧ 24 ≤ j) :
    (gs.shade fbrgba keep r g b a).getLsbD j = fbrgba.getLsbD j := by
  unfold shade
  extract_lets da blended r' g' b' fbmask a' pixel masked
  have hmasked : fbmask.getLsbD j = true → masked.getLsbD j = fbrgba.getLsbD j := by
    intro hm
    have hne : fbmask ≠ 0 := by
      rintro h0
      rw [h0] at hm
      simp at hm
    simp only [masked]
    rw [if_pos hne, BitVec.getLsbD_or, BitVec.getLsbD_and, BitVec.getLsbD_and, BitVec.getLsbD_not, hm]
    simp
  cases keep with
  | false => exact hmasked (h.resolve_right (by simp))
  | true =>
    rw [if_pos rfl, BitVec.getLsbD_or, BitVec.getLsbD_and, BitVec.getLsbD_and, getLsbD_colourMask hj,
      getLsbD_alphaMask hj]
    by_cases h24 : 24 ≤ j
    · simp [h24, show ¬j < 24 by omega]
    · simp [h24, show j < 24 by omega, hmasked (h.resolve_right (by omega))]

/-! ### What is enabled -/

variable (gs x y z a)

/-- The pixel is in the scissor rectangle and passes the depth test. -/
def Reached : Prop := gs.scissored x y = false ∧ gs.depthTest x.toNat y.toNat z = true

/-- What is done where the alpha test fails. -/
def afail : ℕ := (field gs.test 12 2).toNat

/-- The bit `k` of memory belongs to the frame's pixel, and may be written. -/
def FramePermits (k : ℕ) : Prop :=
  ∃ i, PixelBit gs.fpsm gs.fbp gs.fbw x.toNat y.toNat i k ∧
    (Frame.fbmsk gs.frame).getLsbD (colourBit gs.fpsm i) = false ∧
    (passesAlphaTest gs.test a = true ∨ gs.afail = 1 ∨ gs.afail = 3 ∧ colourBit gs.fpsm i < 24)

/-- The bit `k` of memory belongs to the depth pixel, and may be written. -/
def DepthPermits (k : ℕ) : Prop :=
  (∃ i, PixelBit gs.zpsm gs.zbp gs.fbw x.toNat y.toNat i k) ∧ Zbuf.zmsk gs.zbuf = false ∧
    (passesAlphaTest gs.test a = true ∨ gs.afail = 2)

/-- The depth pixel of `vram` holds `z`. -/
def HoldsDepth (vram : Memory) : Prop :=
  ∀ i k, PixelBit gs.zpsm gs.zbp gs.fbw x.toNat y.toNat i k → bit vram k = z.getLsbD i

/-- `ZB_ONLY`: the alpha test fails, and only the depth should be written. -/
def DepthOnly : Prop :=
  gs.Reached x y z ∧ passesAlphaTest gs.test a = false ∧ gs.afail = 2 ∧ Zbuf.zmsk gs.zbuf = false

variable (r g b) in
/-- A call changes what is enabled, and with `ZB_ONLY` it stores the depth. -/
structure Enables : Prop where
  confined : ∀ k, bit (gs.writePixel x y z r g b a) k ≠ bit gs.vram k →
    gs.Reached x y z ∧ (gs.FramePermits x y a k ∨ gs.DepthPermits x y a k)
  depthOnly : gs.DepthOnly x y z a → gs.HoldsDepth x y z (gs.writePixel x y z r g b a)

/-- Only the frame should be written, and the depth would change bits that are not to be written in
the frame either. -/
def Leaks : Prop :=
  gs.bgSkip = false ∧ gs.Reached x y z ∧ passesAlphaTest gs.test a = false ∧ (gs.afail = 1 ∨ gs.afail = 3) ∧
    Zbuf.zmsk gs.zbuf = false ∧
    ∃ i k, PixelBit gs.zpsm gs.zbp gs.fbw x.toNat y.toNat i k ∧ z.getLsbD i ≠ bit gs.vram k ∧ ¬gs.FramePermits x y a k

/-! ### What is stored -/

variable {gs x y z a}

theorem writeFramebuffer_iff : (classifyAlphaTest gs.test a).writeFramebuffer = true ↔ passesAlphaTest gs.test a =
    true ∨ gs.afail = 1 ∨ gs.afail = 3 := by
  unfold classifyAlphaTest afail
  cases passesAlphaTest gs.test a with
  | true => simp
  | false =>
    have hlt : (field gs.test 12 2).toNat < 4 := (field gs.test 12 2).isLt
    generalize (field gs.test 12 2).toNat = n at *
    interval_cases n <;> simp

theorem preserveDestinationAlpha_iff : (classifyAlphaTest gs.test a).preserveDestinationAlpha = true ↔
    passesAlphaTest gs.test a = false ∧ gs.afail = 3 := by
  unfold classifyAlphaTest afail
  cases passesAlphaTest gs.test a with
  | true => simp
  | false =>
    have hlt : (field gs.test 12 2).toNat < 4 := (field gs.test 12 2).isLt
    generalize (field gs.test 12 2).toNat = n at *
    interval_cases n <;> simp

theorem framePixel_isSome_iff : (gs.framePixel x y z r g b a).isSome = true ↔ gs.bgSkip = false ∧ gs.Reached x y z ∧
    (passesAlphaTest gs.test a = true ∨ gs.afail = 1 ∨ gs.afail = 3) := by
  rw [← writeFramebuffer_iff]
  unfold framePixel Reached
  cases hskip : gs.bgSkip <;> cases hscissor : gs.scissored x y <;>
    cases hwrite : (classifyAlphaTest gs.test a).writeFramebuffer <;>
    cases hdepth : gs.depthTest x.toNat y.toNat z <;> simp [hwrite]

variable {p : BitVec 32}

section

variable (h : gs.framePixel x y z r g b a = some p)

include h

theorem framePixel_eq :
    let alphaTest := classifyAlphaTest gs.test a
    let frmw := decide (Frame.fbmsk gs.frame ≠ 0) || gs.abe || alphaTest.preserveDestinationAlpha
    let pixel := gs.shade (if frmw then gs.frameColour x.toNat y.toNat else 0) alphaTest.preserveDestinationAlpha r g b a
    p = if ImageGs.bitsPerPixelOf gs.fpsm = 16 then (rgba8888ToRgba5551 pixel).setWidth 32 else pixel := by
  obtain ⟨hskip, ⟨hscissor, hdepth⟩, hwrite⟩ := framePixel_isSome_iff.1 (Option.isSome_of_eq_some h)
  have hwrite := writeFramebuffer_iff.2 hwrite
  simp only [framePixel, hskip, hscissor, hdepth, hwrite, Bool.not_true, Bool.false_eq_true, if_false] at h
  exact (Option.some.inj h).symm

/-- **The masks keep the bits of the frame that are not to be written.** -/
theorem getLsbD_framePixel (hbit : PixelBit gs.fpsm gs.fbp gs.fbw x.toNat y.toNat i k)
    (hnot : ¬gs.FramePermits x y a k) : p.getLsbD i = bit gs.vram k := by
  obtain ⟨-, -, hwrite⟩ := framePixel_isSome_iff.1 (Option.isSome_of_eq_some h)
  have hcolour := getLsbD_frameColour hbit
  have hpermits : ¬((Frame.fbmsk gs.frame).getLsbD (colourBit gs.fpsm i) = false ∧
      (passesAlphaTest gs.test a = true ∨ gs.afail = 1 ∨ gs.afail = 3 ∧ colourBit gs.fpsm i < 24)) :=
    fun hp => hnot ⟨i, hbit, hp⟩
  obtain ⟨mode, hmode, hi, -⟩ := hbit
  have hbits := bitsPerPixelOf_eq hmode
  have hle : mode.bitsPerPixel ≤ 32 := by cases mode <;> decide
  have hj : colourBit gs.fpsm i < 32 := colourBit_lt (by omega) (by omega)
  -- The bit is kept by one of the masks, and then the frame has been read.
  have hkeep : (Frame.fbmsk gs.frame).getLsbD (colourBit gs.fpsm i) = true ∨
      (classifyAlphaTest gs.test a).preserveDestinationAlpha = true ∧ 24 ≤ colourBit gs.fpsm i := by
    rw [preserveDestinationAlpha_iff]
    cases hm : (Frame.fbmsk gs.frame).getLsbD (colourBit gs.fpsm i) with
    | true => exact .inl rfl
    | false =>
      right
      have hpass : ¬passesAlphaTest gs.test a = true := fun hp => hpermits ⟨hm, .inl hp⟩
      have hthree : gs.afail = 3 :=
        (hwrite.resolve_left hpass).resolve_left fun h1 => hpermits ⟨hm, .inr (.inl h1)⟩
      refine ⟨⟨by simpa using hpass, hthree⟩, Nat.le_of_not_lt fun hlt => ?_⟩
      exact hpermits ⟨hm, .inr (.inr ⟨hthree, hlt⟩)⟩
  have hfrmw : (decide (Frame.fbmsk gs.frame ≠ 0) || gs.abe ||
      (classifyAlphaTest gs.test a).preserveDestinationAlpha) = true := by
    rcases hkeep with hm | ⟨hp, -⟩
    · have hne : Frame.fbmsk gs.frame ≠ 0 := by
        rintro h0
        rw [h0] at hm
        simp at hm
      rw [decide_eq_true hne]
      rfl
    · rw [hp, Bool.or_true]
  have hshade := fun f => getLsbD_shade f r g b a hj hkeep
  have heq := framePixel_eq h
  simp only [hfrmw, if_true] at heq
  rw [heq, ← hcolour]
  by_cases h16 : ImageGs.bitsPerPixelOf gs.fpsm = 16
  · rw [if_pos h16, BitVec.getLsbD_setWidth, decide_eq_true (by omega), Bool.true_and,
      getLsbD_rgba8888 _ (by omega), ← hshade]
    congr 1
    simp only [colourBit, if_pos h16]
  · rw [if_neg h16, ← hshade]
    congr 1
    simp only [colourBit, if_neg h16]

end

/-! ### What is changed -/

theorem writePixel_of_none (h : gs.framePixel x y z r g b a = none) : gs.writePixel x y z r g b a = gs.vram := by
  rw [writePixel, h]

section

variable (h : gs.framePixel x y z r g b a = some p)

include h

theorem bit_writePixel_depth
    (hm : Zbuf.zmsk gs.zbuf = false) (hbit : PixelBit gs.zpsm gs.zbp gs.fbw x.toNat y.toNat i k) :
    bit (gs.writePixel x y z r g b a) k = z.getLsbD i := by
  rw [writePixel, h]
  simp only [hm]
  exact bit_writeVram hbit

/-- **The other bits change only where the frame may be written.** -/
theorem bit_writePixel_frame
    (hdepth : Zbuf.zmsk gs.zbuf = true ∨ ∀ i, ¬PixelBit gs.zpsm gs.zbp gs.fbw x.toNat y.toNat i k)
    (hnot : ¬gs.FramePermits x y a k) : bit (gs.writePixel x y z r g b a) k = bit gs.vram k := by
  have hframe : bit (writeVram gs.vram gs.fpsm gs.fbp gs.fbw x.toNat y.toNat p.toNat) k = bit gs.vram k := by
    by_cases hbit : ∃ i, PixelBit gs.fpsm gs.fbp gs.fbw x.toNat y.toNat i k
    · obtain ⟨i, hbit⟩ := hbit
      rw [bit_writeVram hbit]
      exact getLsbD_framePixel h hbit hnot
    · exact bit_writeVram_of_not (not_exists.1 hbit)
  rw [writePixel, h]
  cases hm : Zbuf.zmsk gs.zbuf with
  | true => exact hframe
  | false =>
    have hdepth := hdepth.resolve_left (by rw [hm]; decide)
    exact (bit_writeVram_of_not hdepth).trans hframe

end

theorem framePixel_of_depthOnly (h : gs.DepthOnly x y z a) : gs.framePixel x y z r g b a = none := by
  obtain ⟨-, hfail, htwo, -⟩ := h
  rw [← Option.not_isSome_iff_eq_none, framePixel_isSome_iff]
  rintro ⟨-, -, hpass | hone | hthree⟩
  · rw [hfail] at hpass
    cases hpass
  · omega
  · omega

variable (gs x y z r g b a)

/-- **What is enabled is written, unless only the frame or only the depth is enabled.** -/
theorem writePixel_enables_iff :
    gs.Enables x y z r g b a ↔ ¬gs.Leaks x y z a ∧ ¬(gs.DepthOnly x y z a ∧ ¬gs.HoldsDepth x y z gs.vram) := by
  constructor
  · intro h
    constructor
    · rintro ⟨hskip, hreached, hfail, hmode, hmask, i, k, hbit, hdiff, hnot⟩
      obtain ⟨p, hp⟩ := Option.isSome_iff_exists.1
        ((framePixel_isSome_iff (r := r) (g := g) (b := b)).2 ⟨hskip, hreached, .inr hmode⟩)
      have hafter := bit_writePixel_depth hp hmask hbit
      obtain ⟨-, hpermits⟩ := h.confined k (by rwa [hafter])
      rcases hpermits with hframe | ⟨-, -, hpass | htwo⟩
      · exact hnot hframe
      · rw [hfail] at hpass
        cases hpass
      · omega
    · rintro ⟨honly, hlacks⟩
      have hholds := h.depthOnly honly
      rw [writePixel_of_none (framePixel_of_depthOnly honly)] at hholds
      exact hlacks hholds
  · rintro ⟨hleaks, hskips⟩
    constructor
    · intro k hchanged
      cases hp : gs.framePixel x y z r g b a with
      | none => exact absurd (by rw [writePixel_of_none hp]) hchanged
      | some p =>
        obtain ⟨hskip, hreached, hwrite⟩ := framePixel_isSome_iff.1 (Option.isSome_of_eq_some hp)
        refine ⟨hreached, or_iff_not_imp_left.2 fun hnot => ?_⟩
        by_cases hdepth : Zbuf.zmsk gs.zbuf = true ∨ ∀ i, ¬PixelBit gs.zpsm gs.zbp gs.fbw x.toNat y.toNat i k
        · exact absurd (bit_writePixel_frame hp hdepth hnot) hchanged
        · rw [not_or, not_forall_not] at hdepth
          obtain ⟨hmask, i, hbit⟩ := hdepth
          have hmask : Zbuf.zmsk gs.zbuf = false := by simpa using hmask
          refine ⟨⟨i, hbit⟩, hmask, or_iff_not_imp_left.2 fun hpass => ?_⟩
          -- The depth is stored although the alpha test fails.
          rw [bit_writePixel_depth hp hmask hbit] at hchanged
          exact absurd ⟨hskip, hreached, by simpa using hpass, hwrite.resolve_left hpass, hmask, i, k, hbit,
            hchanged, hnot⟩ hleaks
    · intro honly
      rw [writePixel_of_none (framePixel_of_depthOnly honly)]
      exact not_not.1 fun hlacks => hskips ⟨honly, hlacks⟩

end PixelGs

/-! ### A pixel that fails the alpha test -/

/-- The alpha test never passes and leaves the frame to be written, the depth test always passes, and the
depth is in the second page. -/
def frameOnly : PixelGs where
  vram := fun _ => 0
  prim := 0
  pabe := 0
  colclamp := 0
  scissor := 0x003F0000003F0000
  frame := 0x10000
  zbuf := 1
  test := 0x31001
  alpha := 0
  fba := 0
  bgSkip := false

/-- **With `FB_ONLY` the depth is stored too.** -/
theorem frameOnly_leaks :
    ¬∀ (gs : PixelGs) (x y : ℤ) (z : BitVec 32) (r g b a : BitVec 8), gs.Enables x y z r g b a := by
  intro h
  have hstored : (frameOnly.framePixel 0 0 1 0 0 0 0).isSome = true :=
    PixelGs.framePixel_isSome_iff.2 ⟨rfl, ⟨by decide, by decide⟩, .inr (.inl (by decide))⟩
  obtain ⟨p, hp⟩ := Option.isSome_iff_exists.1 hstored
  have hdepth : PixelBit frameOnly.zpsm frameOnly.zbp frameOnly.fbw 0 0 0 114688 :=
    ⟨z32, by decide, by decide, by decide +kernel⟩
  have hchanged : bit (frameOnly.writePixel 0 0 1 0 0 0 0) 114688 ≠ bit frameOnly.vram 114688 := by
    rw [PixelGs.bit_writePixel_depth hp (by decide) hdepth]
    decide
  obtain ⟨-, ⟨i, ⟨mode, hmode, hi, hk⟩, -⟩ | ⟨-, -, hpass | htwo⟩⟩ := (h frameOnly 0 0 1 0 0 0 0).confined _ hchanged
  · obtain rfl : c32 = mode := Option.some.inj hmode
    have hplace : c32.place (pixelAddressFuncs c32 frameOnly.fbp frameOnly.fbw (0 : ℤ).toNat (0 : ℤ).toNat) = 0 := by
      decide +kernel
    rw [hplace] at hk
    have : i < 32 := hi
    omega
  · exact absurd hpass (by decide)
  · exact absurd htwo (by decide)

end Ps2Recomp.GSMem
