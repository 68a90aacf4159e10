import Ps2Recomp.Lib.Tiling
import Ps2Recomp.Spec.Instruction
import Ps2Recomp.Spec.GuestPaths

/-!
# The sectors of the disc

The part of `Support.h` that stands for the disc. A host file is given sectors of its own when it is first looked
for, from `kCdPseudoLbnStart` on; every other sector is one of the configured image. `Disc` has what is asked of the
host, whose files do not change; `F` is `std::filesystem::path`.
-/

namespace Ps2Recomp.CdFiles

open GuestPaths (Str toLowerAscii hasPrefix replaceBackslashes stripIsoVersionSuffix)

abbrev Byte : Type := BitVec 8

abbrev kCdSectorSize : ℕ := 2048

abbrev kCdPseudoLbnStart : Word := 0x00100000

structure CdFileEntry (F : Type) where
  hostPath : F
  sizeBytes : Word
  baseLbn : Word
  sectors : Word
  deriving DecidableEq, Repr

/-- The entries of `g_cdFilesByKey`. -/
abbrev Files (F : Type) : Type := List (Str × CdFileEntry F)

/-- The host. The four searches take a normalized path: a regular file at `cdHostPath`, the one of
`resolveCaseInsensitivePath`, and the files of `g_cdLeafIndex` and of `g_cdLoosePathIndex`. -/
structure Disc (F : Type) where
  cdHostPath : Str → Option F
  resolveCaseInsensitivePath : Str → Option F
  cdLeafIndex : Str → Option F
  cdLoosePathIndex : Str → Option F
  cdImagePath : Option F
  fileSize : F → Option (BitVec 64)
  /-- What a file that can be opened holds. -/
  content : F → Option (List Byte)
  /-- The order in which an `unordered_map` is gone through. -/
  iterate : Files F → Files F
  iterate_perm : ∀ files, (iterate files).Perm files

/-- The variables of the disc that the calls share. -/
structure CdState (F : Type) where
  files : Files F
  nextPseudoLbn : Word
  lastCdError : ℤ
  streamingLbn : Word
  streamingEndLbn : Word

def CdState.initial {F : Type} : CdState F := ⟨[], kCdPseudoLbnStart, 0, 0, 0xFFFFFFFF⟩

/-! ### Paths -/

def isSpace (c : Char) : Bool := c ∈ [' ', '\t', '\n', '\x0b', '\x0c', '\r']

def trimLeadingSeparators (value : Str) : Str := value.dropWhile fun c => c = '/' || c = '\\'

def normalizeCdPathNoPrefix (path : Str) : Str :=
  let path := replaceBackslashes path
  let path :=
    if hasPrefix path "cdrom0:" then path.drop 7
    else if hasPrefix path "cdrom:" then path.drop 6
    else path
  let path := (trimLeadingSeparators path).dropWhile isSpace
  stripIsoVersionSuffix (path.reverse.dropWhile isSpace).reverse

def cdPathKey (ps2Path : Str) : Str := toLowerAscii (normalizeCdPathNoPrefix ps2Path)

/-! ### Registration -/

def sectorsForBytes (byteCount : BitVec 64) : Word :=
  let sectors := (byteCount + 2047) / 2048
  if 0 < sectors then sectors.setWidth 32 else 1

variable {F : Type} (d : Disc F) (c : CdState F)

/-- The host file that a path of the disc is for. -/
def findHostFile (ps2Path : Str) : Option F :=
  let normalized := normalizeCdPathNoPrefix ps2Path
  (d.cdHostPath normalized).or ((d.resolveCaseInsensitivePath normalized).or
    ((d.cdLeafIndex normalized).or (d.cdLoosePathIndex normalized)))

/-- The entry of a file that was not registered before. -/
def newEntry (path : F) (sizeBytes : BitVec 64) : CdFileEntry F where
  hostPath := path
  sizeBytes := BitVec.ofNat 32 (min sizeBytes.toNat 0xFFFFFFFF)
  baseLbn := c.nextPseudoLbn
  sectors := sectorsForBytes sizeBytes

def registerCdFile (ps2Path : Str) : Option (CdFileEntry F) × CdState F :=
  let key := cdPathKey ps2Path
  let failed : Option (CdFileEntry F) × CdState F := (none, { c with lastCdError := -1 })
  if key = [] then failed
  else
    match c.files.lookup key with
    | some existing => (some existing, { c with lastCdError := 0 })
    | none =>
      match findHostFile d ps2Path with
      | none => failed
      | some path =>
        match d.fileSize path with
        | none => failed
        | some sizeBytes =>
          let entry := newEntry c path sizeBytes
          (some entry,
            { c with
              files := c.files ++ [(key, entry)]
              nextPseudoLbn := c.nextPseudoLbn + (entry.sectors + 1)
              lastCdError := 0 })

/-! ### Reading -/

/-- What a read returns, and what it puts where it was told to. The error that it leaves is 0 if it succeeds. -/
structure HostRead where
  ok : Bool
  stored : List Byte
  deriving DecidableEq, Repr

def HostRead.error (r : HostRead) : ℤ := if r.ok then 0 else -1

def readHostRange (path : F) (offsetBytes byteCount : ℕ) : HostRead :=
  if byteCount = 0 then ⟨true, []⟩
  else
    match d.content path with
    | none => ⟨false, List.replicate byteCount 0⟩
    | some data => ⟨true, ((data.drop offsetBytes).take byteCount).rightpad byteCount 0⟩

/-- `lbn >= entry.baseLbn && lbn < endLbn` -/
def CdFileEntry.Holds (entry : CdFileEntry F) (lbn : Word) : Prop :=
  entry.baseLbn ≤ lbn ∧ lbn < entry.baseLbn + entry.sectors

instance (entry : CdFileEntry F) (lbn : Word) : Decidable (entry.Holds lbn) := instDecidableAnd

def findRegisteredCdFileForLbn (lbn : Word) : Option (CdFileEntry F) :=
  ((d.iterate c.files).find? fun e => e.2.Holds lbn).map (·.2)

/-- `tryGetCdImageTotalSectors` -/
def cdImageTotalSectors : Option ℕ :=
  (d.cdImagePath.bind d.fileSize).map fun sizeBytes => sizeBytes.toNat / kCdSectorSize

def readCdSectors (lbn sectors : Word) (byteCount : ℕ) : HostRead :=
  match findRegisteredCdFileForLbn d c lbn with
  | some entry => readHostRange d entry.hostPath ((lbn - entry.baseLbn).toNat * kCdSectorSize) byteCount
  | none =>
    match d.cdImagePath with
    | none => ⟨false, []⟩
    | some cdImage =>
      match cdImageTotalSectors d with
      | some total =>
        if total ≤ lbn.toNat ∨ total < lbn.toNat + sectors.toNat then ⟨false, []⟩
        else readHostRange d cdImage (lbn.toNat * kCdSectorSize) byteCount
      | none => readHostRange d cdImage (lbn.toNat * kCdSectorSize) byteCount

def isResolvableCdLbn (lbn : Word) : Bool :=
  (findRegisteredCdFileForLbn d c lbn).isSome || (cdImageTotalSectors d).any fun total => lbn.toNat < total

def cdStreamingEndLbnForStart (lbn : Word) : Word :=
  match findRegisteredCdFileForLbn d c lbn with
  | some entry => entry.baseLbn + entry.sectors
  | none => 0xFFFFFFFF

end Ps2Recomp.CdFiles
