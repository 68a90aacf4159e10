import Ps2Recomp.Lib.Spans
import Ps2Recomp.Spec.Instruction

/-!
# The IOP heap

The allocator behind `sceSifAllocIopHeap` and `sceSifAllocSysMemory` (`SIF.cpp`): a first-fit scan over an ordered
map of blocks, in 32-bit arithmetic. `Heap` adds a note of what has been handed out, for which size, and not been
freed; `sceSifInitIopHeap` frees everything.
-/

namespace Ps2Recomp.IopHeap

abbrev kIopHeapBase : Word := 0x01A00000

abbrev kIopHeapLimit : Word := 0x01F00000

abbrev kIopHeapAlign : Word := 64

/-- `g_sifHeapAllocations`, sorted by address, and `g_iopHeapNext`. -/
structure State where
  allocations : List (Word × Word)
  iopHeapNext : Word
  deriving DecidableEq, Repr

def alignIopHeapSize (size : Word) : Word := (size + (kIopHeapAlign - 1)) &&& ~~~(kIopHeapAlign - 1)

/-- The scan of `allocateSifHeapBlock`. -/
def scan (alignedSize : Word) : Word → List (Word × Word) → Word
  | candidate, [] => candidate
  | candidate, (addr, size) :: rest =>
    if candidate + alignedSize ≤ addr then candidate
    else
      let blockEnd := alignIopHeapSize (addr + size)
      scan alignedSize (if candidate < blockEnd then blockEnd else candidate) rest

/-- `g_sifHeapAllocations[addr] = size` -/
def insertBlock (addr size : Word) : List (Word × Word) → List (Word × Word)
  | [] => [(addr, size)]
  | block :: rest =>
    if addr < block.1 then (addr, size) :: block :: rest
    else if addr = block.1 then (addr, size) :: rest
    else block :: insertBlock addr size rest

def allocateSifHeapBlock (s : State) (requestSize : Word) : Word × State :=
  let alignedSize := alignIopHeapSize requestSize
  if alignedSize = 0 then (0, s)
  else
    let candidate := scan alignedSize kIopHeapBase s.allocations
    if candidate < kIopHeapBase ∨ kIopHeapLimit < candidate + alignedSize then (0, s)
    else
      (candidate,
        { allocations := insertBlock candidate alignedSize s.allocations
          iopHeapNext := candidate + alignedSize })

def freeSifHeapBlock (s : State) (addr : Word) : Bool × State :=
  if s.allocations.any (·.1 = addr) then
    let allocations := s.allocations.filter (·.1 ≠ addr)
    (true, { allocations, iopHeapNext := if allocations = [] then kIopHeapBase else s.iopHeapNext })
  else (false, s)

def resetSifHeapState : State := ⟨[], kIopHeapBase⟩

/-! ### Runs -/

/-- A block that has been handed out, with the size that was asked for. -/
structure Block where
  addr : Word
  size : Word
  requested : Word
  deriving DecidableEq, Repr

structure Heap where
  state : State
  handedOut : List Block
  deriving DecidableEq, Repr

/-- `alloc` is both `sceSifAllocIopHeap` and `sceSifAllocSysMemory`, and `free` both of their counterparts. -/
inductive Act
  | alloc (size : Word)
  | free (addr : Word)
  | init
  deriving DecidableEq, Repr

/-- With what the call returns. -/
def Heap.step (h : Heap) : Act → Word × Heap
  | .alloc size =>
    let (addr, state) := allocateSifHeapBlock h.state size
    (addr, { state, handedOut := if addr = 0 then h.handedOut
      else ⟨addr, alignIopHeapSize size, size⟩ :: h.handedOut })
  | .free addr =>
    let (freed, state) := freeSifHeapBlock h.state addr
    (if freed then 0 else -1,
      { state, handedOut := if freed then h.handedOut.filter (·.addr ≠ addr) else h.handedOut })
  | .init => (0, ⟨resetSifHeapState, []⟩)

def Heap.initial : Heap := ⟨resetSifHeapState, []⟩

/-! ### Disjoint, and complete -/

def Block.span (b : Block) : Spans.Span := ⟨b.addr.toNat, b.size.toNat⟩

/-- **The blocks that have been handed out** are apart, aligned, large enough and inside the heap. -/
structure Heap.Sound (h : Heap) : Prop where
  apart : (h.handedOut.map (·.span)).Pairwise Spans.Span.Apart
  aligned : ∀ b ∈ h.handedOut, 64 ∣ b.addr.toNat
  large : ∀ b ∈ h.handedOut, b.requested.toNat ≤ b.size.toNat
  base : ∀ b ∈ h.handedOut, kIopHeapBase.toNat ≤ b.addr.toNat
  limit : ∀ b ∈ h.handedOut, b.addr.toNat + b.size.toNat ≤ kIopHeapLimit.toNat

/-- The size, rounded up, as a number. -/
def roundUp (size : Word) : ℕ := (size.toNat + 63) / 64 * 64

/-- A stretch of the heap, not empty, that no block has a part of. -/
def Heap.Gap (h : Heap) (start len : ℕ) : Prop :=
  0 < len ∧ kIopHeapBase.toNat ≤ start ∧ start + len ≤ kIopHeapLimit.toNat ∧
    ∀ b ∈ h.handedOut, Spans.Span.Apart ⟨start, len⟩ b.span

/-- **What a call does**: it fails only where there is nothing for it, and then changes nothing. -/
def Heap.Proper (h : Heap) : Act → Prop
  | .alloc size => (h.step (.alloc size)).1 = 0 → (h.step (.alloc size)).2 = h ∧ ∀ start, ¬h.Gap start (roundUp size)
  | .free addr => (h.step (.free addr)).1 ≠ 0 → (h.step (.free addr)).2 = h ∧ ∀ b ∈ h.handedOut, b.addr ≠ addr
  | .init => True

/-- Where the last block ends. -/
def Heap.stop (h : Heap) : ℕ := h.handedOut.foldr (fun b n => max b.span.stop n) kIopHeapBase.toNat

/-- The sum of the size and of an address in the heap is a word. -/
def Heap.Fits (h : Heap) : Act → Prop
  | .alloc size => 2 ^ 32 ≤ roundUp size ∨ h.stop + roundUp size < 2 ^ 32
  | _ => True

/-- Runs whose calls all fit. -/
inductive Reach : Heap → Prop
  | initial : Reach Heap.initial
  | step {h : Heap} (a : Act) (hr : Reach h) (hfits : h.Fits a) : Reach (h.step a).2

end Ps2Recomp.IopHeap
