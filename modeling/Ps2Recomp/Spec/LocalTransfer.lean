import Ps2Recomp.Spec.PixelWrite

/-!
# Transfers within GS memory

`GS::performLocalToLocalTransfer` (`ps2_gs_gpu.cpp`). Its four loops are one, with the place of the pixel that
each of them copies in a turn.
-/

namespace Ps2Recomp.GSMem.ImageGs

open Bytes
open Vertices (field)

variable (gs : ImageGs)

def dir : ℕ := (field gs.trxpos 59 2).toNat

/-- `bitbltbuf.sbw` -/
def copySbw : ℕ := (field gs.bitbltbuf 16 6).toNat

/-- `bitbltbuf.dbw` -/
def copyDbw : ℕ := (field gs.bitbltbuf 48 6).toNat

/-- The place in the rectangle of the pixel that is copied in a turn of the loop. -/
def copiedPixel (pixelCount : ℕ) : ℕ × ℕ :=
  match gs.dir with
  -- left -> right, top -> bottom
  | 0 => (pixelCount % gs.rrw, pixelCount / gs.rrw)
  -- left -> right, bottom -> top
  | 1 => (pixelCount % gs.rrw, gs.rrh - pixelCount / gs.rrw - 1)
  -- right -> left, top -> bottom
  | 2 => (gs.rrw - pixelCount % gs.rrw - 1, pixelCount / gs.rrw)
  -- right -> left, bottom -> top
  | _ => (gs.rrw - pixelCount % gs.rrw - 1, gs.rrh - pixelCount / gs.rrw - 1)

/-- A turn of the loop. -/
def copyPixel (vram : Memory) (pixelCount : ℕ) : Memory :=
  let (x, y) := gs.copiedPixel pixelCount
  writeVram vram gs.dpsm gs.dbp gs.copyDbw (x + gs.dsax) (y + gs.dsay)
    (GSMem.readVram vram gs.spsm gs.sbp gs.copySbw (x + gs.ssax) (y + gs.ssay))

def performLocalToLocalTransfer : ImageGs :=
  let totalPixels := gs.rrw * gs.rrh
  if totalPixels = 0 then gs.endTransfer
  else endTransfer { gs with vram := (List.range totalPixels).foldl gs.copyPixel gs.vram }

end Ps2Recomp.GSMem.ImageGs
