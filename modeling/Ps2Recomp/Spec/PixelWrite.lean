import Ps2Recomp.Spec.Texture

/-!
# Writing a pixel

`GSRasterizer::writePixel` (`ps2_gs_rasterizer.cpp`): the scissor, the alpha test, the depth test, blending,
the masks and the two stores, on the registers of the active context. The counters of its probes are left
out.
-/

namespace Ps2Recomp.GSMem

open Bytes PixelStorageMode
open Vertices (field)

/-! ### Registers -/

namespace Frame

variable (frame : BitVec 64)

def fbp : ℕ := (field frame 0 9).toNat
def fbw : ℕ := (field frame 16 6).toNat
def psm : ℕ := (field frame 24 6).toNat
def fbmsk : BitVec 32 := field frame 32 32

end Frame

namespace Zbuf

variable (zbuf : BitVec 64)

def zbp : ℕ := (field zbuf 0 9).toNat
def psm : ℕ := (field zbuf 24 4).toNat
def zmsk : Bool := field zbuf 32 1 ≠ 0

end Zbuf

namespace Scissor

variable (scissor : BitVec 64)

def x0 : ℕ := (field scissor 0 11).toNat
def x1 : ℕ := (field scissor 16 11).toNat
def y0 : ℕ := (field scissor 32 11).toNat
def y1 : ℕ := (field scissor 48 11).toNat

end Scissor

namespace Alpha

variable (alpha : BitVec 64)

def a : ℕ := (field alpha 0 2).toNat
def b : ℕ := (field alpha 2 2).toNat
def c : ℕ := (field alpha 4 2).toNat
def d : ℕ := (field alpha 6 2).toNat
def fix : BitVec 8 := field alpha 32 8

end Alpha

/-- What `writePixel` reads of the GS, with the registers of the active context. -/
structure PixelGs where
  vram : Memory
  prim : BitVec 64
  pabe : BitVec 64
  colclamp : BitVec 64
  scissor : BitVec 64
  frame : BitVec 64
  zbuf : BitVec 64
  test : BitVec 64
  alpha : BitVec 64
  fba : BitVec 64
  /-- `t_bgSkip` -/
  bgSkip : Bool

/-! ### The alpha test -/

def passesAlphaTest (testReg : BitVec 64) (alpha : BitVec 8) : Bool :=
  if field testReg 0 1 = 0 then true
  else
    let aref : BitVec 8 := field testReg 4 8
    match (field testReg 1 3).toNat with
    | 0 => false
    | 1 => true
    | 2 => alpha < aref
    | 3 => alpha ≤ aref
    | 4 => alpha = aref
    | 5 => alpha ≥ aref
    | 6 => alpha > aref
    | 7 => alpha ≠ aref
    | _ => true

structure AlphaTestResult where
  writeFramebuffer : Bool
  preserveDestinationAlpha : Bool

def classifyAlphaTest (testReg : BitVec 64) (alpha : BitVec 8) : AlphaTestResult :=
  if passesAlphaTest testReg alpha then ⟨true, false⟩
  else
    match (field testReg 12 2).toNat with
    | 1 => ⟨true, false⟩   -- FB_ONLY
    | 3 => ⟨true, true⟩    -- RGB_ONLY
    | _ => ⟨false, false⟩  -- KEEP, ZB_ONLY

/-! ### Colours -/

def rgba8888ToRgba5551 (c : BitVec 32) : BitVec 16 :=
  let r := (c &&& 0xFF) >>> 3
  let g := ((c >>> 8) &&& 0xFF) >>> 3
  let b := ((c >>> 16) &&& 0xFF) >>> 3
  let a := ((c >>> 24) &&& 0xFF) >>> 7
  (r ||| (g <<< 5) ||| (b <<< 10) ||| (a <<< 15)).setWidth 16

def pack32 (r g b a : BitVec 8) : BitVec 32 :=
  r.setWidth 32 ||| (g.setWidth 32 <<< 8) ||| (b.setWidth 32 <<< 16) ||| (a.setWidth 32 <<< 24)

def clampU8 (v : ℤ) : BitVec 8 := if v < 0 then 0 else if v > 255 then 255 else BitVec.ofInt 8 v

/-- `WriteVram` -/
def writeVram (vram : Memory) (psm base bw x y value : ℕ) : Memory :=
  match psmOf psm with
  | some psm => writePixelFuncs psm vram base bw x y value
  | none => vram

def framePageBaseToBlock (fbp : ℕ) : ℕ := fbp <<< 5

namespace PixelGs

variable (gs : PixelGs)

def abe : Bool := field gs.prim 6 1 ≠ 0
def clamp : Bool := field gs.colclamp 0 1 ≠ 0

/-- `PABE` turns blending off where the first bit of the alpha of the source is clear. -/
def pabeKeeps (a : BitVec 8) : Bool := field gs.pabe 0 1 ≠ 0 ∧ a &&& 0x80 = 0

def fbp : ℕ := framePageBaseToBlock (Frame.fbp gs.frame)
def fbw : ℕ := max (Frame.fbw gs.frame) 1
def fpsm : ℕ := Frame.psm gs.frame
def zbp : ℕ := framePageBaseToBlock (Zbuf.zbp gs.zbuf)
def zpsm : ℕ := Zbuf.psm gs.zbuf ||| 0x30

/-- Outside of the scissor rectangle. -/
def scissored (x y : ℤ) : Bool :=
  x < Scissor.x0 gs.scissor ∨ x > Scissor.x1 gs.scissor ∨ y < Scissor.y0 gs.scissor ∨ y > Scissor.y1 gs.scissor

/-- The pixel of the frame, with 8 bits for each channel. -/
def frameColour (x y : ℕ) : BitVec 32 :=
  let c := readVram gs.vram gs.fpsm gs.fbp gs.fbw x y
  if ImageGs.bitsPerPixelOf gs.fpsm = 16 then rgba5551ToRgba8888 (BitVec.ofNat 16 c) else BitVec.ofNat 32 c

def depthTest (x y : ℕ) (z : BitVec 32) : Bool :=
  match (field gs.test 17 2).toNat with
  | 1 => true
  | 2 => z.toNat ≥ readVram gs.vram gs.zpsm gs.zbp gs.fbw x y
  | 3 => z.toNat > readVram gs.vram gs.zpsm gs.zbp gs.fbw x y
  | _ => false

/-- A channel of the source `cs`, over that of the frame `cd`, whose pixel has the alpha `da`. -/
def blend (a da cs cd : BitVec 8) : BitVec 8 :=
  let pickRGB := fun sel : ℕ => if sel = 0 then (cs.toNat : ℤ) else if sel = 1 then cd.toNat else 0
  let cAlpha : ℤ :=
    if Alpha.c gs.alpha = 0 then a.toNat
    else if Alpha.c gs.alpha = 1 then da.toNat
    else (Alpha.fix gs.alpha).toNat
  let br := (((pickRGB (Alpha.a gs.alpha) - pickRGB (Alpha.b gs.alpha)) * cAlpha) >>> (7 : ℕ)) + pickRGB (Alpha.d gs.alpha)
  if gs.clamp then clampU8 br else cs &&& 0xFF

/-- The word that is stored in the frame, before its conversion to 16 bits. -/
def shade (fbrgba : BitVec 32) (preserveDestinationAlpha : Bool) (r g b a : BitVec 8) : BitVec 32 :=
  let da := (fbrgba >>> 24).setWidth 8
  let blended := fun (cs : BitVec 8) (cd : BitVec 32) =>
    if gs.abe && !gs.pabeKeeps a then gs.blend a da cs (cd.setWidth 8) else cs
  let r := blended r fbrgba
  let g := blended g (fbrgba >>> 8)
  let b := blended b (fbrgba >>> 16)
  let fbmask := Frame.fbmsk gs.frame
  let a := if !preserveDestinationAlpha && decide (field gs.fba 0 1 ≠ 0 ∧ gs.fpsm ≠ 1) then a ||| 0x80 else a
  let pixel := pack32 r g b a
  let pixel := if fbmask ≠ 0 then (pixel &&& ~~~fbmask) ||| (fbrgba &&& fbmask) else pixel
  if preserveDestinationAlpha then (pixel &&& 0x00FFFFFF) ||| (fbrgba &&& 0xFF000000) else pixel

/-- The word that `writePixel` stores in the frame, where it does not return before. -/
def framePixel (x y : ℤ) (z : BitVec 32) (r g b a : BitVec 8) : Option (BitVec 32) :=
  if gs.bgSkip then none
  else if gs.scissored x y then none
  else
    let alphaTest := classifyAlphaTest gs.test a
    if !alphaTest.writeFramebuffer then none
    else
      let frmw := decide (Frame.fbmsk gs.frame ≠ 0) || gs.abe || alphaTest.preserveDestinationAlpha
      let fbrgba := if frmw then gs.frameColour x.toNat y.toNat else 0
      if !gs.depthTest x.toNat y.toNat z then none
      else
        let pixel := gs.shade fbrgba alphaTest.preserveDestinationAlpha r g b a
        some (if ImageGs.bitsPerPixelOf gs.fpsm = 16 then (rgba8888ToRgba5551 pixel).setWidth 32 else pixel)

/-- The memory after `writePixel`. -/
def writePixel (x y : ℤ) (z : BitVec 32) (r g b a : BitVec 8) : Memory :=
  match gs.framePixel x y z r g b a with
  | none => gs.vram
  | some pixel =>
    let vram := writeVram gs.vram gs.fpsm gs.fbp gs.fbw x.toNat y.toNat pixel.toNat
    if Zbuf.zmsk gs.zbuf then vram
    else writeVram vram gs.zpsm gs.zbp gs.fbw x.toNat y.toNat z.toNat

end PixelGs

end Ps2Recomp.GSMem
