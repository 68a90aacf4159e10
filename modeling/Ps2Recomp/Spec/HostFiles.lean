import Ps2Recomp.Spec.SifRpc
import Ps2Recomp.Spec.GuestPaths

/-!
# The host's files

What the calls that read files find: the guest's memory, with a note of every copy that they make into it, and the
host. `Host` has the operations of `<cstdio>` and `<filesystem>` that are called, on files `F` and with `σ` for all
that the host keeps; what is assumed of them is a field.
-/

namespace Ps2Recomp.HostFiles

open Memory VSync
open SifRpc (HostPtr getMemPtr)
open GuestPaths (Str Path)

abbrev Byte : Type := BitVec 8

/-! ### Guest memory -/

/-- A copy into an array through a host pointer. -/
structure Store where
  ptr : HostPtr
  bytes : List Byte
  deriving DecidableEq, Repr

/-- The size of the array behind a host pointer. -/
def arraySize (scratch : Bool) : ℕ := if scratch then scratchpadSize.toNat else ramSize.toNat

/-- All of the copy is inside the array that its first byte is in. -/
def Store.Inside (store : Store) : Prop := store.ptr.offset + store.bytes.length ≤ arraySize store.ptr.scratch

/-- The guest's memory, and what has been copied into it, the first copy in front. -/
structure Guest where
  memory : GuestMemory
  scratchpadMapped : Bool
  stores : List Store

/-- The bytes of a word, the low one first. -/
def u32Bytes (value : Word) : List Byte := (List.range 4).map fun i => BitVec.ofNat 8 (value.toNat / 256 ^ i)

namespace Guest

variable (g : Guest)

def ptr (addr : Word) : Option HostPtr := getMemPtr g.scratchpadMapped addr

def copyTo (p : HostPtr) (bytes : List Byte) : Guest :=
  { g with
    memory := g.memory.setArea p.scratch (Bytes.copy (g.memory.area p.scratch) p.offset bytes)
    stores := g.stores ++ [⟨p, bytes⟩] }

/-- `memcpy` to where a guest address leads, if it leads somewhere. -/
def copyAt (addr : Word) (bytes : List Byte) : Guest :=
  match g.ptr addr with
  | some p => g.copyTo p bytes
  | none => g

/-- The bytes behind a host pointer. -/
def bytes (p : HostPtr) (n : ℕ) : List Byte := (List.range n).map fun i => g.memory.area p.scratch (p.offset + i)

/-- `readGuestU32` into a variable that is zero. -/
def readGuestU32 (addr : Word) : Word :=
  match g.ptr addr with
  | some p => SifRpc.word g.memory p 0
  | none => 0

def writeGuestU32 (addr value : Word) : Guest := g.copyAt addr (u32Bytes value)

/-- `writeResultI32` -/
def writeResultI32 (recvBufAddr result : Word) : Guest :=
  if recvBufAddr = 0 then g else g.writeGuestU32 recvBufAddr result

end Guest

def toStr (bytes : List Byte) : Str := (bytes.takeWhile (· ≠ 0)).map fun b => Char.ofNat b.toNat

/-! ### Files -/

/-- `operator<` of strings. -/
def strLess : Str → Str → Bool
  | _, [] => false
  | [], _ :: _ => true
  | a :: s, b :: t => a.toNat < b.toNat || (a = b && strLess s t)

/-- The mode of `fopen`. -/
inductive Mode
  | rb
  | wb
  | ab
  | rPlus
  | wPlus
  | aPlus
  deriving DecidableEq, Repr

/-- `std::tm` -/
structure Tm where
  sec : ℤ
  min : ℤ
  hour : ℤ
  mday : ℤ
  mon : ℤ
  year : ℤ

/-- `directory_entry`; `modified` is nothing where the time of the last write cannot be read. -/
structure DirectoryEntry where
  filename : Str
  isDirectory : Bool
  fileSize : Word
  modified : Option ℤ

/-- What `<cstdio>`, `<filesystem>` and `<ctime>` do. A question that ends with an error is answered with no. -/
structure Host (σ F : Type) where
  pathExists : σ → Path → Bool
  isDirectory : σ → Path → Bool
  createDirectories : σ → Path → σ
  directoryIterator : σ → Path → List DirectoryEntry
  fopen : σ → Path → Mode → Option F × σ
  fclose : σ → F → Bool × σ
  fread : σ → F → ℕ → List Byte × σ
  fwrite : σ → F → List Byte → ℕ × σ
  fflush : σ → F → σ
  ferror : σ → F → Bool
  clearerr : σ → F → σ
  now : σ → ℤ
  localtime : ℤ → Option Tm
  /-- `std::sort` by a key; entries with the same key come in any order. -/
  sort : (DirectoryEntry → Str) → List DirectoryEntry → List DirectoryEntry
  length_fread : ∀ s f n, (fread s f n).1.length ≤ n
  sort_perm : ∀ key l, (sort key l).Perm l
  sort_pairwise : ∀ key l, (sort key l).Pairwise fun a b => strLess (key b) (key a) = false

end Ps2Recomp.HostFiles
