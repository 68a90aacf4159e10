import Ps2Recomp.Spec.GifPacket
import Ps2Recomp.Spec.VuMicro

/-!
# XGKICK

`doXgkick` of `VU1Interpreter::execLower` (`ps2_vu1_lower.cpp`): the walk over the tags in VU data memory, and
the bytes that are submitted. Sizes and offsets are numbers of 32 bits.
-/

namespace Ps2Recomp.Vu

open Bytes Gif

section Xgkick

variable (vuData : Memory) (dataSize : Word)

def wrapOffset (off : Word) : Word := off % dataSize

/-- The byte at an offset that wraps. -/
def wrappedByte (off : Word) : Byte := vuData (wrapOffset dataSize off).toNat

def read64Wrap (off : Word) : BitVec 64 := loadLE64 (fun i => wrappedByte vuData dataSize (off + .ofNat 32 i)) 0

/-- The size of a tag with its data. -/
def pktSize (tagLo : BitVec 64) : Word :=
  let nloop : Word := (tagLo &&& 0x7FFF).setWidth 32
  let nreg : Word := ((tagLo >>> 60) &&& 0xF).setWidth 32
  let nreg := if nreg = 0 then 16 else nreg
  match ((tagLo >>> 58) &&& 0x3).toNat with
  | 0 => 16 + nloop * nreg * 16
  | 1 =>
    let regs := nloop * nreg
    let pktSize := 16 + regs * 8
    if regs &&& 1 ≠ 0 then pktSize + 8 else pktSize
  | 2 => 16 + nloop * 16
  | _ => 16

/-- What the loop over the tags keeps. -/
structure Kick where
  pktOff : Word
  totalBytes : Word
  done : Bool
  deriving DecidableEq

/-- Some turns of the loop. -/
def kickLoop : ℕ → Kick → Kick
  | 0, k => k
  | safety + 1, k =>
    if k.done then k
    else
      let tagLo := read64Wrap vuData dataSize k.pktOff
      let size := pktSize tagLo
      if size = 0 then k
      else
        kickLoop safety
          { pktOff := wrapOffset dataSize (k.pktOff + size)
            totalBytes := k.totalBytes + size
            done := (tagLo >>> 15) &&& 1 != 0 }

/-- The start address. -/
def kickAddr (vi : Word) : Word := wrapOffset dataSize ((vi.setWidth 16).setWidth 32 * 16)

/-- The loop, with its bound. -/
def kick (vi : Word) : Kick := kickLoop vuData dataSize 256 ⟨kickAddr dataSize vi, 0, false⟩

/-- What is submitted. -/
def submitted (vi : Word) : Option (List Byte) :=
  if dataSize < 16 then none
  else
    let addr := kickAddr dataSize vi
    let totalBytes := (kick vuData dataSize vi).totalBytes
    if totalBytes = 0 then none
    else if addr + totalBytes ≤ dataSize then
      some ((List.range totalBytes.toNat).map fun i => vuData (addr.toNat + i))
    else some ((List.range totalBytes.toNat).map fun i => wrappedByte vuData dataSize (addr + .ofNat 32 i))

end Xgkick

def doXgkick (dataSize instr : Word) (x : Machine) : Option (List Byte) :=
  submitted x.vuData dataSize (x.state.vi (visOf instr))

end Ps2Recomp.Vu
