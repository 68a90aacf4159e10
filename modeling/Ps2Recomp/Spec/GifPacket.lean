import Ps2Recomp.Spec.Gif
import Ps2Recomp.Spec.ImageTransfer

/-!
# GIF packets

`GS::processGIFPacket` of `ps2_gs_gpu.cpp`, with its shortcut for image uploads. What it calls of the GS
is a parameter (`GsCalls`); the bytes of IMAGE data still owed are its own. A packet is a memory, read
from address zero on, with its size; what lies behind it can be read too. Offsets do not wrap.
-/

namespace Ps2Recomp.Gif

open Bytes

/-- What a packet calls, on a GS of type `G`. -/
structure GsCalls (G : Type) where
  /-- `m_registers.rgbaq.q = 1.0f`. -/
  resetQ : G → G
  writeRegister : Byte → BitVec 64 → G → G
  writeRegisterPacked : Byte → BitVec 64 → BitVec 64 → G → G
  /-- The data of a memory from an address on, with its size. -/
  processImageData : Memory → ℕ → ℕ → G → G

/-- A GS, with `m_pendingImageBytes`. -/
structure GifState (G : Type) where
  gs : G
  pendingImageBytes : ℕ

def regPrim : Byte := 0x00
def regBitbltbuf : Byte := 0x50
def regTrxpos : Byte := 0x51
def regTrxreg : Byte := 0x52
def regTrxdir : Byte := 0x53

def loadLE64 (data : Memory) (offset : ℕ) : BitVec 64 := BitVec.ofNat 64 (load data offset 8)

inductive GifFormat
  | packed | reglist | image | disabled
  deriving DecidableEq, Repr

/-- A GIFtag. -/
structure GifTag where
  lo : BitVec 64
  hi : BitVec 64
  deriving DecidableEq

namespace GifTag

def nloop (tag : GifTag) : ℕ := (tag.lo &&& 0x7FFF).toNat

def flg (tag : GifTag) : GifFormat :=
  match ((tag.lo >>> 58) &&& 0x3).toNat with
  | 0 => .packed
  | 1 => .reglist
  | 2 => .image
  | _ => .disabled

def nreg (tag : GifTag) : ℕ :=
  let nreg := ((tag.lo >>> 60) &&& 0xF).toNat
  if nreg = 0 then 16 else nreg

def pre (tag : GifTag) : Bool := (tag.lo >>> 46) &&& 1 != 0

def prim (tag : GifTag) : BitVec 64 := (tag.lo >>> 47) &&& 0x7FF

def regs (tag : GifTag) : List Byte :=
  (List.range tag.nreg).map fun i => ((tag.hi >>> (i * 4)) &&& 0xF).setWidth 8

/-- The descriptors of the payload, in its order. -/
def descriptors (tag : GifTag) : List Byte := (List.replicate tag.nloop tag.regs).flatten

end GifTag

def loadTag (data : Memory) (offset : ℕ) : GifTag := ⟨loadLE64 data offset, loadLE64 data (offset + 8)⟩

section

variable {G : Type} (c : GsCalls G)

namespace GifState

/-- A write to TRXDIR drops the bytes owed. -/
def writeRegister (addr : Byte) (value : BitVec 64) (s : GifState G) : GifState G where
  gs := c.writeRegister addr value s.gs
  pendingImageBytes := if addr = regTrxdir then 0 else s.pendingImageBytes

def writeRegisterPacked (desc : Byte) (lo hi : BitVec 64) (s : GifState G) : GifState G where
  gs := c.writeRegisterPacked desc lo hi s.gs
  pendingImageBytes :=
    if desc = 0x0E ∧ (hi &&& 0xFF).setWidth 8 = regTrxdir then 0 else s.pendingImageBytes

def processImageData (data : Memory) (offset size : ℕ) (s : GifState G) : GifState G :=
  { s with gs := c.processImageData data offset size s.gs }

end GifState

/-- The payload in PACKED format. Without an offset the packet has ended. -/
def packedLoop (data : Memory) (sizeBytes : ℕ) : List Byte → ℕ → GifState G → GifState G × Option ℕ
  | [], offset, s => (s, some offset)
  | desc :: descs, offset, s =>
    if offset + 16 > sizeBytes then (s, none)
    else
      packedLoop data sizeBytes descs (offset + 16)
        (s.writeRegisterPacked c desc (loadLE64 data offset) (loadLE64 data (offset + 8)))

/-- The payload in REGLIST format. -/
def reglistLoop (data : Memory) (sizeBytes : ℕ) : List Byte → ℕ → GifState G → GifState G × Option ℕ
  | [], offset, s => (s, some offset)
  | addr :: addrs, offset, s =>
    if offset + 8 > sizeBytes then (s, none)
    else reglistLoop data sizeBytes addrs (offset + 8) (s.writeRegister c addr (loadLE64 data offset))

/-- A tag before its payload. -/
def beginTag (tag : GifTag) (s : GifState G) : GifState G :=
  let s := { s with gs := c.resetQ s.gs }
  if tag.pre then s.writeRegister c regPrim tag.prim else s

/-- The payload of a tag. -/
def processPayload (data : Memory) (sizeBytes : ℕ) (tag : GifTag) (offset : ℕ) (s : GifState G) :
    GifState G × Option ℕ :=
  match tag.flg with
  | .packed => packedLoop c data sizeBytes tag.descriptors offset s
  | .reglist =>
    let (s, next) := reglistLoop c data sizeBytes tag.descriptors offset s
    (s, next.map fun offset => if tag.nloop * tag.nreg % 2 = 1 then offset + 8 else offset)
  | .image =>
    let requested := tag.nloop * 16
    let imageBytes := min requested (sizeBytes - offset)
    let s := { s with pendingImageBytes := requested - imageBytes }
    let s := if imageBytes ≠ 0 then s.processImageData c data offset imageBytes else s
    (s, if s.pendingImageBytes ≠ 0 then none else some (offset + imageBytes))
  | .disabled => (s, some offset)

def processTag (data : Memory) (sizeBytes offset : ℕ) (s : GifState G) : GifState G × Option ℕ :=
  let tag := loadTag data offset
  processPayload c data sizeBytes tag (offset + 16) (beginTag c tag s)

/-- The tags of a packet. Every one takes sixteen bytes, so the size bounds their number. -/
def tagLoop (data : Memory) (sizeBytes : ℕ) : ℕ → ℕ → GifState G → GifState G
  | 0, _, s => s
  | fuel + 1, offset, s =>
    if offset + 16 ≤ sizeBytes then
      match processTag c data sizeBytes offset s with
      | (s, none) => s
      | (s, some offset) => tagLoop data sizeBytes fuel offset s
    else s

/-- The registers of the shortcut, and the size of its image. -/
structure ImageUpload where
  bitbltbuf : BitVec 64
  trxpos : BitVec 64
  trxreg : BitVec 64
  trxdir : BitVec 64
  imageBytes : ℕ
  deriving DecidableEq

/-- The tests of `tryProcessNativeImageUploadPacket`. -/
def imageUpload? (data : Memory) (sizeBytes : ℕ) : Option ImageUpload :=
  if sizeBytes < 16 + 64 + 16 then none
  else
    let setup := loadTag data 0
    if setup.nloop ≠ 4 ∨ setup.flg ≠ .packed ∨ setup.nreg ≠ 1 ∨ setup.hi &&& 0xF ≠ 0x0E then none
    else
      let regs := fun i => loadLE64 data (16 + 16 * i)
      let addrs := (List.range 4).map fun i => (loadLE64 data (16 + 16 * i + 8) &&& 0xFF).setWidth 8
      if addrs ≠ [regBitbltbuf, regTrxpos, regTrxreg, regTrxdir] then none
      else
        let rrw := regs 2 &&& 0xFFF
        let rrh := (regs 2 >>> 32) &&& 0xFFF
        if regs 3 &&& 0x3 ≠ 0 ∨ rrw = 0 ∨ rrh = 0 then none
        else
          let image := loadTag data 80
          if image.flg ≠ .image ∨ image.nloop = 0 then none
          else if 96 + image.nloop * 16 ≠ sizeBytes then none
          else some ⟨regs 0, regs 1, regs 2, regs 3, image.nloop * 16⟩

/-- `uploadImageNative`. -/
def uploadImageNative (upload : ImageUpload) (data : Memory) (offset : ℕ) (s : GifState G) : GifState G :=
  let s := s.writeRegister c regBitbltbuf upload.bitbltbuf
  let s := s.writeRegister c regTrxpos upload.trxpos
  let s := s.writeRegister c regTrxreg upload.trxreg
  let s := s.writeRegister c regTrxdir upload.trxdir
  s.processImageData c data offset upload.imageBytes

/-- The part of a packet from its first tag on. -/
def processTags (data : Memory) (sizeBytes offset : ℕ) (s : GifState G) : GifState G :=
  match (if offset = 0 ∧ 16 ≤ sizeBytes then imageUpload? data sizeBytes else none) with
  | some upload => uploadImageNative c upload data 96 s
  | none => tagLoop c data sizeBytes sizeBytes offset s

def processGIFPacket (data : Memory) (sizeBytes : ℕ) (s : GifState G) : GifState G :=
  if sizeBytes = 0 then s
  else if s.pendingImageBytes ≠ 0 then
    let take := min s.pendingImageBytes sizeBytes
    let s := { s with pendingImageBytes := s.pendingImageBytes - take }
    let s := s.processImageData c data 0 take
    if take ≥ sizeBytes then s else processTags c data sizeBytes take s
  else processTags c data sizeBytes 0 s

end

end Ps2Recomp.Gif

/-!
# Packets on the GS

The calls of a packet on a GS whose transfers are those of `ps2_gs_gpu.cpp`. What the other registers
do, drawing among it, is a parameter (`GsRest`): they may read and write GS memory, but no register of a
transfer.
-/

namespace Ps2Recomp.Gif

open Bytes GSMem

/-- The rest of the GS. -/
structure GsRest (R : Type) where
  resetQ : R → R
  writeRegister : Byte → BitVec 64 → Memory × R → Memory × R
  writeRegisterPacked : Byte → BitVec 64 → BitVec 64 → Memory × R → Memory × R
  performLocalToLocalTransfer : ImageGs → ImageGs
  /-- What lies behind the buffer of a write to HWREG. -/
  behindHwreg : Memory

namespace GsRest

variable {R : Type} (rest : GsRest R)

def onMemory (f : Memory × R → Memory × R) (gs : ImageGs × R) : ImageGs × R :=
  let (vram, r) := f (gs.1.vram, gs.2)
  ({ gs.1 with vram }, r)

/-- The buffer of a write to HWREG. -/
def hwreg (value : BitVec 64) : Memory := fun i =>
  if i < 8 then (value >>> (8 * i)).setWidth 8 else rest.behindHwreg i

def writeRegisterAll (addr : Byte) (value : BitVec 64) (gs : ImageGs × R) : ImageGs × R :=
  match addr.toNat with
  | 0x50 => ({ gs.1 with bitbltbuf := value }, gs.2)
  | 0x51 => ({ gs.1 with trxpos := value }, gs.2)
  | 0x52 => ({ gs.1 with trxreg := value }, gs.2)
  | 0x53 => (gs.1.writeTrxdir rest.performLocalToLocalTransfer value, gs.2)
  | 0x54 => (gs.1.processImageData (rest.hwreg value) 0 8, gs.2)
  | _ => onMemory (rest.writeRegister addr value) gs

/-- The GS as packets call it. -/
def calls : GsCalls (ImageGs × R) where
  resetQ gs := (gs.1, rest.resetQ gs.2)
  writeRegister := rest.writeRegisterAll
  writeRegisterPacked desc lo hi gs :=
    if desc = 0x0E then rest.writeRegisterAll ((hi &&& 0xFF).setWidth 8) lo gs
    else onMemory (rest.writeRegisterPacked desc lo hi) gs
  processImageData data offset size gs := (gs.1.processImageData data offset size, gs.2)

end GsRest

end Ps2Recomp.Gif
