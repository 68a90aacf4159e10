import Ps2Recomp.Spec.ImageTransfer

/-!
# Textures and palettes

The texture registers of `ps2_gs_gpu.cpp`, the buffer of the palette with its loads and lookups, the
cache of one page of a texture, and the point sampling of `ps2_gs_rasterizer.cpp`. An access to the
buffer of the palette past its end is undefined. No address here reaches 32 bits.
-/

namespace Ps2Recomp.GSMem

open Bytes PixelStorageMode
open Vertices (field)

/-- `m_texture_page_cache`. -/
structure TexturePageCache where
  buffer : Memory
  valid : Bool
  baseBlock : ℕ
  psm : PixelStorageMode

/-- The part of the GS that reads textures. -/
structure TextureGs where
  vram : Memory
  texturePageCache : TexturePageCache
  clutCache : Memory
  cbp0 : ℕ
  cbp1 : ℕ
  tex0 : Fin 2 → BitVec 64
  tex2 : Fin 2 → BitVec 64
  texclut : BitVec 64
  texa : BitVec 64
  texflush : BitVec 64

/-- The texture registers and caches of a new GS. -/
def TextureGs.initial (vram : Memory) : TextureGs where
  vram
  texturePageCache := ⟨fun _ => 0, false, 0, c32⟩
  clutCache := fun _ => 0
  cbp0 := 0
  cbp1 := 0
  tex0 := fun _ => 0
  tex2 := fun _ => 0
  texclut := 0
  texa := 0
  texflush := 0

namespace Tex0

variable (tex0 : BitVec 64)

def tbp0 : ℕ := (field tex0 0 14).toNat
def tbw : ℕ := (field tex0 14 6).toNat
def psm : ℕ := (field tex0 20 6).toNat
def tw : ℕ := (field tex0 26 4).toNat
def th : ℕ := (field tex0 30 4).toNat
def cbp : ℕ := (field tex0 37 14).toNat
def cpsm : ℕ := (field tex0 51 4).toNat
def csm : ℕ := (field tex0 55 1).toNat
def csa : ℕ := (field tex0 56 5).toNat
def cld : ℕ := (field tex0 61 3).toNat

end Tex0

namespace Texclut

variable (texclut : BitVec 64)

def cbw : ℕ := (field texclut 0 6).toNat
def cou : ℕ := (field texclut 6 6).toNat
def cov : ℕ := (field texclut 12 10).toNat

end Texclut

namespace Texa

variable (texa : BitVec 64)

def ta0 : BitVec 8 := field texa 0 8
def aem : Bool := field texa 15 1 ≠ 0
def ta1 : BitVec 8 := field texa 32 8

end Texa

/-- `ReadVram`. -/
def readVram (vram : Memory) (psm base bw x y : ℕ) : ℕ :=
  match psmOf psm with
  | some psm => readPixelFuncs psm vram base bw x y
  | none => 0

/-! ### The palette -/

/-- The size of `m_clut_cache`. -/
def clutCacheSize : ℕ := 1024

/-- A copy out of `m_clut_cache`. -/
def loadClut (clutCache : Memory) (offset n : ℕ) : Option ℕ :=
  if offset + n ≤ clutCacheSize then some (load clutCache offset n) else none

/-- A copy into `m_clut_cache`. -/
def storeClut (clutCache : Memory) (offset value n : ℕ) : Option Memory :=
  if offset + n ≤ clutCacheSize then some (store clutCache offset value n) else none

def readClutCache (clutCache : Memory) (psm index csa : ℕ) : Option ℕ :=
  match psmOf psm with
  | some .c32 | some .c24 => loadClut clutCache (csa * 16 * 4 + index * 4) 4
  | some .c16 | some .c16s => loadClut clutCache (csa * 16 * 2 + index * 2) 2
  | _ => some 0

/-- The loop of a load over its first `count` entries, of `n` bytes each: the entry `i` is copied to
`offset i`. -/
def loadEntries (offset value : ℕ → ℕ) (n : ℕ) : ℕ → Memory → Option Memory
  | 0, clutCache => some clutCache
  | count + 1, clutCache => do
    let clutCache ← loadEntries offset value n count clutCache
    storeClut clutCache (offset count &&& 0x3FF) (value count) n

def reloadClutCacheCSM1 (vram clutCache : Memory) (psm cpsm cbp csa : ℕ) : Option Memory :=
  let cbpp := ImageGs.bitsPerPixelOf cpsm
  let tbpp := ImageGs.bitsPerPixelOf psm
  let clutBytesPerPixel := cbpp / 8
  let offset := csa * 16
  let entries := (1 <<< tbpp) % 2 ^ 32
  let totalCacheEntries := 1024 / clutBytesPerPixel
  let dstCapacity := if offset < totalCacheEntries then totalCacheEntries - offset else 0
  let loadCount := min entries dstCapacity
  let cacheAddr := fun i => offset * clutBytesPerPixel + i * clutBytesPerPixel
  match tbpp with
  | 4 =>
    loadEntries cacheAddr
      (fun i =>
        let x := i &&& 7
        let y := (i / 8) &&& 1
        readVram vram cpsm cbp 1 x y)
      clutBytesPerPixel loadCount clutCache
  | 8 =>
    loadEntries cacheAddr
      (fun i =>
        let x := (i &&& 7) + if i &&& 0x10 ≠ 0 then 8 else 0
        let y := (i &&& 0xE0) / 16 + if i &&& 0x8 ≠ 0 then 1 else 0
        readVram vram cpsm cbp 1 x y)
      clutBytesPerPixel loadCount clutCache
  | _ => some clutCache

def reloadClutCacheCSM2 (vram clutCache : Memory) (texclut : BitVec 64) (psm cbp : ℕ) : Option Memory :=
  let tbpp := ImageGs.bitsPerPixelOf psm
  let entries := (1 <<< tbpp) % 2 ^ 32
  let uoffset := Texclut.cou texclut * 16
  let cbw := Texclut.cbw texclut
  -- The offset is in pixels already, and is taken 16 times again.
  loadEntries (fun i => i * 2) (fun i => readVram vram 2 cbp cbw (uoffset * 16 + i) (Texclut.cov texclut))
    2 entries clutCache

namespace TextureGs

/-- The first switch of `ReloadClutCache`: whether CLD asks for a load. -/
def cldLoad (cbp cld : ℕ) (gs : TextureGs) : Bool × TextureGs :=
  match cld with
  | 1 => (true, gs)
  | 2 => (true, { gs with cbp0 := cbp })
  | 3 => (true, { gs with cbp1 := cbp })
  | 4 => if cbp ≠ gs.cbp0 then (true, { gs with cbp0 := cbp }) else (false, gs)
  | 5 => if cbp ≠ gs.cbp1 then (true, { gs with cbp1 := cbp }) else (false, gs)
  | _ => (false, gs)

def reloadClutCache (psm cpsm cbp csm csa cld : ℕ) (gs : TextureGs) : Option TextureGs :=
  let (load, gs) := gs.cldLoad cbp cld
  if ¬ load then some gs
  else
    match csm with
    | 0 => do
      let clutCache ← reloadClutCacheCSM1 gs.vram gs.clutCache psm cpsm cbp csa
      some { gs with clutCache }
    | 1 => do
      let clutCache ← reloadClutCacheCSM2 gs.vram gs.clutCache gs.texclut psm cbp
      some { gs with clutCache }
    | _ => some gs

/-- The load that a value of TEX0 asks for. -/
def reloadFor (tex0 : BitVec 64) (gs : TextureGs) : Option TextureGs :=
  gs.reloadClutCache (Tex0.psm tex0) (Tex0.cpsm tex0) (Tex0.cbp tex0) (Tex0.csm tex0) (Tex0.csa tex0) (Tex0.cld tex0)

/-- `writeRegister` with a texture register of the context `ci`. -/
def writeTex0 (ci : Fin 2) (value : BitVec 64) (gs : TextureGs) : Option TextureGs :=
  reloadFor value { gs with tex0 := Function.update gs.tex0 ci value }

def writeTex2 (ci : Fin 2) (value : BitVec 64) (gs : TextureGs) : Option TextureGs :=
  let mask : BitVec 64 := 0x0000001FFC0FFFFF
  let tex0 := (gs.tex0 ci &&& mask) ||| (value &&& ~~~mask)
  reloadFor tex0
    { gs with
      tex0 := Function.update gs.tex0 ci tex0
      tex2 := Function.update gs.tex2 ci value }

/-- `writeRegister` for the registers of textures. -/
def writeRegister (regAddr : ℕ) (value : BitVec 64) (gs : TextureGs) : Option TextureGs :=
  match regAddr with
  | 0x06 => gs.writeTex0 0 value
  | 0x07 => gs.writeTex0 1 value
  | 0x16 => gs.writeTex2 0 value
  | 0x17 => gs.writeTex2 1 value
  | 0x1C => some { gs with texclut := value }
  | 0x3B => some { gs with texa := value }
  | 0x3F =>
    some { gs with
      texflush := value
      texturePageCache := { gs.texturePageCache with valid := false } }
  | _ => some gs

end TextureGs

/-! ### The page of a texture -/

/-- The mode that a page is read out in: several modes are parts of the same words. -/
def PixelStorageMode.readoutMode : PixelStorageMode → PixelStorageMode
  | c32 | c24 | p8h | p4hh | p4hl => c32
  | z32 | z24 => z32
  | psm => psm

/-- The page of a mode that is read out. -/
structure PageShape where
  pageWidth2 : ℕ
  pageHeight2 : ℕ
  bytesPerPixel : ℕ
  pitch : ℕ

def PixelStorageMode.pageShape : PixelStorageMode → PageShape
  | c32 | c24 | p8h | p4hh | p4hl | z32 | z24 => ⟨6, 5, 4, 256⟩
  | c16 | c16s | z16 | z16s => ⟨6, 6, 2, 128⟩
  | p8 => ⟨7, 6, 1, 128⟩
  | p4 => ⟨7, 7, 1, 128⟩

namespace TextureGs

def reloadTexturePageCache (psm : PixelStorageMode) (baseBlock : ℕ) (gs : TextureGs) : TextureGs :=
  { gs with
    texturePageCache :=
      { buffer := readPageFuncs psm gs.texturePageCache.buffer psm.pageShape.pitch gs.vram baseBlock
        valid := true
        baseBlock
        psm := psm.readoutMode } }

def readTexturePageCache (psm tbp0 tbw u v : ℕ) (gs : TextureGs) : ℕ × TextureGs :=
  match psmOf psm with
  | none => (0, gs)
  | some psm =>
    let psm := psm.readoutMode
    let shape := psm.pageShape
    let pageWidth := 1 <<< shape.pageWidth2
    let pageHeight := 1 <<< shape.pageHeight2
    let pagesPerRow := max 1 ((tbw * 64) >>> shape.pageWidth2)
    let pageId := (v >>> shape.pageHeight2) * pagesPerRow + (u >>> shape.pageWidth2)
    let blockId := (tbp0 + pageId * 32) &&& 0x3FFF
    let cache := gs.texturePageCache
    let gs :=
      if cache.valid = false ∨ cache.baseBlock ≠ blockId ∨ cache.psm ≠ psm then
        gs.reloadTexturePageCache psm blockId
      else gs
    let off := (v &&& (pageHeight - 1)) * shape.pitch + (u &&& (pageWidth - 1)) * shape.bytesPerPixel
    (load gs.texturePageCache.buffer off shape.bytesPerPixel, gs)

end TextureGs

/-! ### Sampling -/

def rgba5551ToRgba8888 (c : BitVec 16) : BitVec 32 :=
  let c := c.setWidth 32
  let r := (c &&& 0x1F) <<< 3
  let g := ((c >>> 5) &&& 0x1F) <<< 3
  let b := ((c >>> 10) &&& 0x1F) <<< 3
  let a := ((c >>> 15) &&& 0x01) <<< 7
  r ||| (g <<< 8) ||| (b <<< 16) ||| (a <<< 24)

def applyTexa (texa : BitVec 64) (psm : ℕ) (texel : BitVec 32) : BitVec 32 :=
  let r := texel.setWidth 8
  let g := (texel >>> 8).setWidth 8
  let b := (texel >>> 16).setWidth 8
  let rgbZero : Bool := r = 0 ∧ g = 0 ∧ b = 0
  let a := (texel >>> 24).setWidth 8
  let replaced (a : BitVec 8) : BitVec 32 := (texel &&& (0x00FFFFFF : BitVec 32)) ||| (a.setWidth 32 <<< 24)
  let transparent : BitVec 8 := if Texa.aem texa && rgbZero then 0 else Texa.ta0 texa
  match psmOf psm with
  | some .c32 => texel
  | some .c24 => replaced transparent
  | some .c16 | some .c16s =>
    if a &&& (0x80 : BitVec 8) ≠ 0 then replaced (Texa.ta1 texa) else replaced transparent
  | _ => replaced a

def clampInt (v lo hi : ℤ) : ℤ := if v < lo then lo else if v > hi then hi else v

namespace TextureGs

/-- The switch of `samplePoint` over the mode of the texture, from what its page holds. -/
def texelOf (tex : BitVec 64) (out : ℕ) (gs : TextureGs) : Option (BitVec 32) :=
  match psmOf (Tex0.psm tex) with
  | some .c32 | some .z32 | some .c24 | some .z24 =>
    some (applyTexa gs.texa (Tex0.psm tex) (BitVec.ofNat 32 out))
  | some .c16 | some .c16s | some .z16 | some .z16s =>
    some (applyTexa gs.texa (Tex0.psm tex) (rgba5551ToRgba8888 (BitVec.ofNat 16 out)))
  | some .p8 | some .p8h | some .p4 | some .p4hl | some .p4hh => do
    -- The index is the low byte, in every mode.
    let entry ← readClutCache gs.clutCache (Tex0.cpsm tex) (out % 256) (Tex0.csa tex)
    some (applyTexa gs.texa (Tex0.psm tex) (BitVec.ofNat 32 entry))
  | none => some 0xFFFF00FF

/-- `samplePoint` of `sampleTexture`, for the context `ci`. -/
def samplePoint (ci : Fin 2) (sampleU sampleV : ℤ) (gs : TextureGs) : Option (BitVec 32 × TextureGs) := do
  let tex := gs.tex0 ci
  let texW : ℤ := 1 <<< Tex0.tw tex
  let texH : ℤ := 1 <<< Tex0.th tex
  let u := (clampInt sampleU 0 (texW - 1)).toNat
  let v := (clampInt sampleV 0 (texH - 1)).toNat
  let (out, gs) := gs.readTexturePageCache (Tex0.psm tex) (Tex0.tbp0 tex) (Tex0.tbw tex) u v
  let texel ← gs.texelOf tex out
  some (texel, gs)

end TextureGs

end Ps2Recomp.GSMem
