import Ps2Recomp.Spec.HostFiles

/-!
# The string searches of the C library

`strchr`, `strrchr` and `strstr` (`LibC.cpp`) call the host's functions on a host pointer, and map what these
find back with `hostPtrToPs2Addr` (`Support.h`). The host's string ends at the first zero of its array.
-/

namespace Ps2Recomp.LibC

open VSync (GuestMemory)
open SifRpc (HostPtr)
open HostFiles
open Memory (ramSize)

/-- The characters in front of the terminator. -/
def hostString (m : GuestMemory) (p : HostPtr) : List Byte :=
  ((List.range (arraySize p.scratch - p.offset)).map fun i => m.area p.scratch (p.offset + i)).takeWhile (· ≠ 0)

/-- The terminator is a character too. -/
def charsAt (str : List Byte) (c : Byte) : List ℕ :=
  (List.range (str.length + 1)).filter fun i => (str ++ [0])[i]? = some c

def stringsAt (str needle : List Byte) : List ℕ :=
  (List.range (str.length + 1)).filter fun i => needle.isPrefixOf (str.drop i)

/-- Zero outside of main memory. -/
def hostPtrToPs2Addr (p : HostPtr) : Word :=
  if p.scratch = false ∧ p.offset < ramSize.toNat then BitVec.ofNat 32 p.offset else 0

/-- What is returned for the place that the host has found. -/
def foundAddr (p : HostPtr) (found : Option ℕ) : Word :=
  match found with
  | some i => hostPtrToPs2Addr { p with offset := p.offset + i }
  | none => 0

variable (g : Guest)

def strchr (strAddr charCode : Word) : Word :=
  match g.ptr strAddr with
  | some hostStr => foundAddr hostStr (charsAt (hostString g.memory hostStr) (charCode.setWidth 8)).head?
  | none => 0

def strrchr (strAddr charCode : Word) : Word :=
  match g.ptr strAddr with
  | some hostStr => foundAddr hostStr (charsAt (hostString g.memory hostStr) (charCode.setWidth 8)).getLast?
  | none => 0

def strstr (haystackAddr needleAddr : Word) : Word :=
  match g.ptr haystackAddr, g.ptr needleAddr with
  | some hostHaystack, some hostNeedle =>
    foundAddr hostHaystack (stringsAt (hostString g.memory hostHaystack) (hostString g.memory hostNeedle)).head?
  | _, _ => 0

end Ps2Recomp.LibC
