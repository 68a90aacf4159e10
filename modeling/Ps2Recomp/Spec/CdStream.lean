import Ps2Recomp.Spec.CdFiles
import Ps2Recomp.Spec.McStubs

/-!
# The calls that read the disc

`sceCdRead`, `sceCdReadChain`, `sceCdSearchFile`, `sceCdStStart` and `sceCdStRead` (`CD.cpp`). They share the place of
the stream, `streamingLbn`, and its end. Every call returns `$v0`. What the movie player is told of the stream is left
out.
-/

namespace Ps2Recomp.CdStream

open CdFiles Memory
open HostFiles (Guest u32Bytes)
open GuestPaths (Str stripIsoVersionSuffix)
open McStubs (readPs2CStringBounded)
open SifRpc (HostPtr)

/-- The guest's memory and the disc. -/
structure CdWorld (F : Type) where
  guest : Guest
  cd : CdState F

variable {F : Type} (d : Disc F) (w : CdWorld F)

/-! ### Buffers -/

/-- `buf & PS2_RAM_MASK` -/
def ramOffset (buf : Word) : ℕ := (buf &&& ramMask).toNat

/-- The bytes of so many sectors, as many as there are up to the end of RAM. -/
def clampReadBytes (sectors : Word) (offset : ℕ) : ℕ := min (sectors.toNat * kCdSectorSize) (ramSize.toNat - offset)

namespace CdWorld

variable {w}

/-- Bytes into RAM. -/
def put (w : CdWorld F) (offset : ℕ) (bytes : List Byte) : CdWorld F :=
  { w with guest := w.guest.copyTo ⟨false, offset⟩ bytes }

/-- `readCdSectors` into RAM. -/
def readInto (w : CdWorld F) (lbn sectors : Word) (offset byteCount : ℕ) : Bool × CdWorld F :=
  let read := readCdSectors d w.cd lbn sectors byteCount
  (read.ok, { w.put offset read.stored with cd := { w.cd with lastCdError := read.error } })

def setStreamingLbn (w : CdWorld F) (lbn : Word) : CdWorld F := { w with cd := { w.cd with streamingLbn := lbn } }

end CdWorld

/-! ### sceCdRead -/

structure CdReadArgs where
  lbn : Word
  sectors : Word
  buf : Word
  deriving DecidableEq, Repr

def tryRead (args : CdReadArgs) : Bool × CdWorld F :=
  let offset := ramOffset args.buf
  let bytes := clampReadBytes args.sectors offset
  if bytes = 0 then (true, w) else w.readInto d args.lbn args.sectors offset bytes

def kMaxReasonableSectors : ℕ := ramSize.toNat / kCdSectorSize

/-- The other layouts of the registers that are tried, up to the first that can be read. -/
def tryAlternatives : List CdReadArgs → CdWorld F → Option CdReadArgs × CdWorld F
  | [], w => (none, w)
  | candidate :: rest, w =>
    if kMaxReasonableSectors < candidate.sectors.toNat ∨ ¬isResolvableCdLbn d w.cd candidate.lbn then
      tryAlternatives rest w
    else
      let (ok, w) := tryRead d w candidate
      if ok then (some candidate, w) else tryAlternatives rest w

def alternatives (a0 a1 a2 : Word) : List CdReadArgs :=
  [⟨a2, a1, a0⟩, ⟨a0, a2, a1⟩, ⟨a1, a0, a2⟩, ⟨a1, a2, a0⟩, ⟨a2, a0, a1⟩]

/-- The layout that is read, if one can be. -/
def selectRead (a0 a1 a2 : Word) : Option CdReadArgs × CdWorld F :=
  let (ok, w') := tryRead d w ⟨a0, a1, a2⟩
  if ok then (some ⟨a0, a1, a2⟩, w')
  else if isResolvableCdLbn d w'.cd a0 then (none, w')
  else tryAlternatives d (alternatives a0 a1 a2) w'

def sceCdRead (a0 a1 a2 : Word) : Word × CdWorld F :=
  match selectRead d w a0 a1 a2 with
  | (some selected, w) => (1, w.setStreamingLbn (selected.lbn + selected.sectors))
  | (none, w) => (0, w.put (ramOffset a2) (List.replicate (clampReadBytes a1 (ramOffset a2)) 0))

/-! ### sceCdReadChain -/

/-- The loop over the entries of the chain, of which so many are left. -/
def readChainLoop : ℕ → Word → CdWorld F → Bool × CdWorld F
  | 0, _, w => (true, w)
  | n + 1, addr, w =>
    match w.guest.ptr addr with
    | none => (false, w)
    | some entry =>
      let lbn := SifRpc.word w.guest.memory entry 0
      let sectors := SifRpc.word w.guest.memory entry 1
      let buf := SifRpc.word w.guest.memory entry 2
      if lbn = 0xFFFFFFFF ∨ sectors = 0 then (true, w)
      else
        let offset := ramOffset buf
        let (ok, w) := w.readInto d lbn sectors offset (clampReadBytes sectors offset)
        if ok then readChainLoop n (addr + 16) (w.setStreamingLbn (lbn + sectors)) else (false, w)

def sceCdReadChain (chainAddr : Word) : Word × CdWorld F :=
  let (ok, w) := readChainLoop d 64 chainAddr w
  (if ok then 1 else 0, w)

/-! ### sceCdSearchFile -/

/-- `path(...).filename()`, of a path without backslashes. -/
def filename (path : Str) : Str := (path.reverse.takeWhile (· ≠ '/')).reverse

/-- `sceCdlFILE`: the first sector, the size, the name in 16 bytes and 8 bytes of the date. -/
def packedFile (ps2Path : Str) (entry : CdFileEntry F) : List Byte :=
  let leaf := stripIsoVersionSuffix (filename (normalizeCdPathNoPrefix ps2Path))
  u32Bytes entry.baseLbn ++ u32Bytes entry.sizeBytes ++
    (((leaf.take 15).map fun c => BitVec.ofNat 8 c.toNat).rightpad 24 0)

def sceCdSearchFile (fileAddr pathAddr : Word) : Word × CdWorld F :=
  let path := readPs2CStringBounded w.guest pathAddr 260
  if path = [] ∨ normalizeCdPathNoPrefix path = [] then (0, { w with cd := { w.cd with lastCdError := -1 } })
  else
    match registerCdFile d w.cd path with
    | (none, cd) => (0, { w with cd })
    | (some entry, cd) =>
      match w.guest.ptr fileAddr with
      | none => (0, { w with cd := { cd with lastCdError := -1 } })
      | some p =>
        (1,
          { guest := w.guest.copyTo p (packedFile path entry)
            cd := { cd with streamingLbn := entry.baseLbn, streamingEndLbn := entry.baseLbn + entry.sectors } })

/-! ### The stream -/

def sceCdStStart (lbn : Word) : CdWorld F :=
  { w with cd := { w.cd with streamingLbn := lbn, streamingEndLbn := cdStreamingEndLbnForStart d w.cd lbn } }

/-- The sectors that are read: no more than there are up to the end of the stream. -/
def streamSectors (cd : CdState F) (requestedSectors : Word) : Word :=
  if cd.streamingEndLbn ≠ 0xFFFFFFFF then
    if cd.streamingEndLbn ≤ cd.streamingLbn then 0
    else
      let remaining := cd.streamingEndLbn - cd.streamingLbn
      if remaining < requestedSectors then remaining else requestedSectors
  else requestedSectors

/-- The error that a call leaves where it is asked to. -/
def putError (errAddr : Word) (error : ℤ) : CdWorld F :=
  { w with guest := w.guest.copyAt errAddr (u32Bytes (BitVec.ofInt 32 error)) }

def sceCdStRead (requestedSectors buf errAddr : Word) : Word × CdWorld F :=
  let offset := ramOffset buf
  let requestedBytes := clampReadBytes requestedSectors offset
  let sectors := streamSectors w.cd requestedSectors
  let bytes := clampReadBytes sectors offset
  let (ok, w) := if 0 < sectors then w.readInto d w.cd.streamingLbn sectors offset bytes else (false, w)
  if ok then
    let w := w.setStreamingLbn (w.cd.streamingLbn + sectors)
    (sectors, putError (w.put (offset + bytes) (List.replicate (requestedBytes - bytes) 0)) errAddr 0)
  else
    let w := w.put offset (List.replicate requestedBytes 0)
    (0, putError w errAddr w.cd.lastCdError)

end Ps2Recomp.CdStream
