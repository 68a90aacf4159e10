import Ps2Recomp.Spec.GsMemory
import Ps2Recomp.Spec.VertexQueue

/-!
# Transfers of images

The transfers between the host and GS memory of `ps2_gs_gpu.cpp`: the registers of a transfer, its
cursor, `processImageData` and `performLocalToHostToBuffer`. The transfer within GS memory is a
parameter. The thirteen loops of `processImageData` are one, with what the cases differ in. The image is
read from a memory, from an address on; the cursor does not wrap.
-/

namespace Ps2Recomp.GSMem

open Bytes PixelStorageMode
open Vertices (field storeField)

/-- `m_transferState`. -/
structure TransferState where
  x : ℕ
  y : ℕ
  totalPixels : ℕ
  copiedPixels : ℕ
  deriving DecidableEq

/-- The part of the GS that transfers images. -/
structure ImageGs where
  vram : Memory
  bitbltbuf : BitVec 64
  trxpos : BitVec 64
  trxreg : BitVec 64
  trxdir : BitVec 64
  transferState : TransferState
  localToHostBuffer : List (BitVec 8)
  localToHostReadPos : ℕ

/-- The modes with a number in a register. -/
def psmOf : ℕ → Option PixelStorageMode
  | 0 => some .c32
  | 1 => some .c24
  | 2 => some .c16
  | 10 => some .c16s
  | 19 => some .p8
  | 20 => some .p4
  | 27 => some .p8h
  | 36 => some .p4hl
  | 44 => some .p4hh
  | 48 => some .z32
  | 49 => some .z24
  | 50 => some .z16
  | 58 => some .z16s
  | _ => none

namespace ImageGs

variable (gs : ImageGs)

def sbp : ℕ := (field gs.bitbltbuf 0 14).toNat
def sbw : ℕ := max (field gs.bitbltbuf 16 6).toNat 1
def spsm : ℕ := (field gs.bitbltbuf 24 6).toNat
def dbp : ℕ := (field gs.bitbltbuf 32 14).toNat
def dbw : ℕ := max (field gs.bitbltbuf 48 6).toNat 1
def dpsm : ℕ := (field gs.bitbltbuf 56 6).toNat

def ssax : ℕ := (field gs.trxpos 0 11).toNat
def ssay : ℕ := (field gs.trxpos 16 11).toNat
def dsax : ℕ := (field gs.trxpos 32 11).toNat
def dsay : ℕ := (field gs.trxpos 48 11).toNat

def rrw : ℕ := (field gs.trxreg 0 12).toNat
def rrh : ℕ := (field gs.trxreg 32 12).toNat

def xdir : ℕ := (field gs.trxdir 0 2).toNat

def endTransfer : ImageGs :=
  { gs with trxdir := storeField gs.trxdir 0 (3 : BitVec 2), transferState := ⟨0, 0, 0, 0⟩ }

end ImageGs

/-! ### Uploads -/

/-- The bytes that a turn of the loop takes. -/
def PixelStorageMode.stepBytes : PixelStorageMode → ℕ
  | c32 | z32 => 4
  | c24 | z24 => 3
  | c16 | z16 | c16s | z16s => 2
  | p8 | p8h | p4 | p4hl | p4hh => 1

/-- The pixels that a turn of the loop writes. -/
def PixelStorageMode.stepPixels : PixelStorageMode → ℕ
  | p4 | p4hl | p4hh => 2
  | _ => 1

namespace ImageGs

/-- What a turn of the loop writes. The bytes are copied to a word; with 24 bits a pixel, these are four. -/
def writePixels (psm : PixelStorageMode) (data : Memory) (offset : ℕ) (gs : ImageGs) : Memory :=
  let c := load data offset psm.packedSize
  let x := gs.transferState.x
  let y := gs.transferState.y
  match psm with
  | p4 | p4hl | p4hh =>
    let c0 := c &&& 0xF
    let c1 := (c >>> 4) &&& 0xF
    writePixelFuncs psm (writePixelFuncs psm gs.vram gs.dbp gs.dbw x y c0) gs.dbp gs.dbw (x + 1) y c1
  | _ => writePixelFuncs psm gs.vram gs.dbp gs.dbw x y c

/-- A turn of the loop, up to its last test. -/
def uploadStep (psm : PixelStorageMode) (data : Memory) (offset : ℕ) (gs : ImageGs) : ImageGs :=
  let t := gs.transferState
  let copiedPixels := t.copiedPixels + psm.stepPixels
  { gs with
    vram := gs.writePixels psm data offset
    transferState :=
      if copiedPixels % gs.rrw = 0 then ⟨gs.dsax, t.y + 1, t.totalPixels, copiedPixels⟩
      else ⟨t.x + psm.stepPixels, t.y, t.totalPixels, copiedPixels⟩ }

/-- The loop over the bytes of `data` up to `stop`, each turn of which takes one at least. -/
def uploadLoop (psm : PixelStorageMode) (data : Memory) (stop : ℕ) : ℕ → ℕ → ImageGs → ImageGs
  | 0, _, gs => gs
  | fuel + 1, offset, gs =>
    if offset < stop then
      let gs := gs.uploadStep psm data offset
      if gs.transferState.copiedPixels ≥ gs.transferState.totalPixels then gs.endTransfer
      else uploadLoop psm data stop fuel (offset + psm.stepBytes) gs
    else gs

def processImageData (data : Memory) (offset sizeBytes : ℕ) (gs : ImageGs) : ImageGs :=
  if gs.xdir ≠ 0 then gs
  else if gs.rrw = 0 ∨ gs.rrh = 0 then gs
  else
    match psmOf gs.dpsm with
    | some psm => gs.uploadLoop psm data (offset + sizeBytes) sizeBytes offset
    | none => gs

/-! ### Downloads -/

/-- `ReadVram`. -/
def readVram (gs : ImageGs) (psm base bw x y : ℕ) : ℕ :=
  match psmOf psm with
  | some psm => readPixelFuncs psm gs.vram base bw x y
  | none => 0

/-- `BitsPerPixel` of a number. -/
def bitsPerPixelOf (psm : ℕ) : ℕ :=
  match psmOf psm with
  | some psm => psm.bitsPerPixel
  | none => 32

/-- The bytes of a turn of the loop from the pixel numbered `pixelCount` on. -/
def readPixels (gs : ImageGs) (pixelCount : ℕ) : List (BitVec 8) :=
  let x := pixelCount % gs.rrw
  let y := pixelCount / gs.rrw
  let v := gs.readVram gs.spsm gs.sbp gs.sbw (x + gs.ssax) (y + gs.ssay)
  match bitsPerPixelOf gs.spsm with
  | 32 => [BitVec.ofNat 8 v, BitVec.ofNat 8 (v >>> 8), BitVec.ofNat 8 (v >>> 16), BitVec.ofNat 8 (v >>> 24)]
  | 24 => [BitVec.ofNat 8 v, BitVec.ofNat 8 (v >>> 8), BitVec.ofNat 8 (v >>> 16)]
  | 16 => [BitVec.ofNat 8 v, BitVec.ofNat 8 (v >>> 8)]
  | 8 => [BitVec.ofNat 8 v]
  | 4 =>
    let v2 := gs.readVram gs.spsm gs.sbp gs.sbw (x + gs.ssax + 1) (y + gs.ssay)
    [BitVec.ofNat 8 (v ||| ((v2 &&& 0xF) <<< 4))]
  | _ => []

/-- The loop over the pixels. -/
def downloadLoop (gs : ImageGs) : ℕ → ℕ → List (BitVec 8)
  | 0, _ => []
  | fuel + 1, pixelCount =>
    if pixelCount < gs.rrw * gs.rrh then
      gs.readPixels pixelCount ++ downloadLoop gs fuel (pixelCount + if bitsPerPixelOf gs.spsm = 4 then 2 else 1)
    else []

def performLocalToHostToBuffer (gs : ImageGs) : ImageGs :=
  { gs with localToHostBuffer := gs.downloadLoop (gs.rrw * gs.rrh) 0, localToHostReadPos := 0 }

/-- The bytes that are read, and what is left. -/
def consumeLocalToHostBytes (maxBytes : ℕ) (gs : ImageGs) : List (BitVec 8) × ImageGs :=
  if maxBytes = 0 then ([], gs)
  else
    let avail := gs.localToHostBuffer.length - gs.localToHostReadPos
    if avail = 0 then ([], gs)
    else
      let toCopy := if avail < maxBytes then avail else maxBytes
      ((gs.localToHostBuffer.drop gs.localToHostReadPos).take toCopy,
        { gs with localToHostReadPos := gs.localToHostReadPos + toCopy })

/-! ### Registers -/

/-- A write to TRXDIR, with the transfer within GS memory. -/
def writeTrxdir (performLocalToLocalTransfer : ImageGs → ImageGs) (value : BitVec 64) (gs : ImageGs) :
    ImageGs :=
  let gs := { gs with trxdir := value, transferState := ⟨gs.dsax, gs.dsay, gs.rrw * gs.rrh, 0⟩ }
  if gs.xdir = 2 then performLocalToLocalTransfer gs
  else if gs.xdir = 1 then gs.performLocalToHostToBuffer
  else gs

end ImageGs

end Ps2Recomp.GSMem
