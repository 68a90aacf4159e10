import Ps2Recomp.Lib.Bytes
import Ps2Recomp.Lib.Tiling
import Ps2Recomp.Lib.Transition
import Ps2Recomp.Spec.Instruction

/-!
# The guest heap

The allocator that the runtime keeps over a part of the guest's memory (`ps2_runtime.cpp`): a list of
blocks, free or not. `guestMalloc` cuts a block out of the top of the first free one that it fits in,
`guestFree` merges free neighbours, and `guestRealloc` shrinks, grows into the next block or moves.

Addresses and sizes are the source's `uint32_t`, and `uint64_t` where the source widens them. The
calls hold the heap's mutex, so they are the steps of a run. Between them the guest writes to its
memory.
-/

namespace Ps2Recomp.GuestHeap

/-- `std::min` and `std::max` of two `uint32_t`. -/
def stdMin (a b : Word) : Word := if b < a then b else a

theorem stdMin_toNat (x y : Word) : (stdMin x y).toNat = min x.toNat y.toNat := by
  rw [stdMin]
  split
  · next hlt =>
    rw [BitVec.lt_def] at hlt
    omega
  · next hlt =>
    rw [BitVec.lt_def] at hlt
    omega

def stdMax (a b : Word) : Word := if a < b then b else a

def ramSize : Word := 0x02000000

def ramMask : Word := 0x01FFFFFF

def kGuestHeapDefaultBase : Word := 0x00100000

def kGuestHeapDefaultAlignment : Word := 16

def kGuestHeapHardLimit : Word := 0x01F00000

structure GuestHeapBlock where
  addr : Word
  size : Word
  free : Bool
  deriving DecidableEq, Repr

structure Heap where
  blocks : List GuestHeapBlock
  base : Word
  heapEnd : Word
  limit : Word
  suggestedBase : Word
  configured : Bool
  deriving DecidableEq, Repr

def alignGuestHeapValue (value alignment : Word) : Word :=
  if alignment = 0 then value
  else
    let mask := alignment - 1
    if 0xFFFFFFFF - mask < value then 0xFFFFFFFF else (value + mask) &&& ~~~mask

def isGuestHeapAlignmentValid (alignment : Word) : Bool :=
  alignment != 0 && (alignment &&& (alignment - 1)) == 0

def normalizeGuestHeapAlignment (alignment : Word) : Word :=
  if !isGuestHeapAlignmentValid alignment then kGuestHeapDefaultAlignment
  else stdMax alignment kGuestHeapDefaultAlignment

def clampGuestHeapBase (guestBase : Word) : Word :=
  let normalized := if ramSize ≤ guestBase then guestBase &&& ramMask else guestBase
  stdMin normalized (stdMin kGuestHeapHardLimit ramSize)

def clampGuestHeapLimit (guestLimit : Word) : Word :=
  let hardLimit := stdMin kGuestHeapHardLimit ramSize
  if guestLimit = 0 ∨ hardLimit < guestLimit then hardLimit else guestLimit

namespace GuestHeapBlock

variable (block : GuestHeapBlock)

def blockStart : BitVec 64 := block.addr.setWidth 64

def blockEnd : BitVec 64 := block.blockStart + block.size.setWidth 64

/-- Where `allocSize` bytes go in the block, if they fit. -/
def alignedStart (allocSize alignment : Word) : Option (BitVec 64) :=
  if !block.free then none
  else if block.size < allocSize then none
  else
    -- the guest's own heap grows up from the base
    let rawTop := block.blockEnd - allocSize.setWidth 64
    let alignedStart := rawTop &&& ~~~(alignment.setWidth 64 - 1)
    if alignedStart < block.blockStart then none else some alignedStart

/-- What replaces the block when `allocSize` bytes at `alignedStart` are cut out of it. -/
def replacement (alignedStart : BitVec 64) (allocSize : Word) : List GuestHeapBlock :=
  let allocEnd := alignedStart + allocSize.setWidth 64
  let prefixSize : Word := (alignedStart - block.blockStart).setWidth 32
  let suffixSize : Word := (block.blockEnd - allocEnd).setWidth 32
  (if 0 < prefixSize then [⟨block.addr, prefixSize, true⟩] else []) ++
    ⟨alignedStart.setWidth 32, allocSize, false⟩ ::
    (if 0 < suffixSize then [⟨allocEnd.setWidth 32, suffixSize, true⟩] else [])

end GuestHeapBlock

/-- The search of `allocateGuestBlockLocked`: the new blocks and where the new block starts. -/
def allocateFrom (allocSize alignment : Word) : List GuestHeapBlock → Option (List GuestHeapBlock × BitVec 64)
  | [] => none
  | block :: l =>
    match block.alignedStart allocSize alignment with
    | some alignedStart => some (block.replacement alignedStart allocSize ++ l, alignedStart)
    | none => (allocateFrom allocSize alignment l).map fun r => (block :: r.1, r.2)

/-- Two free blocks that touch. -/
def mergeable (prev curr : GuestHeapBlock) : Bool :=
  prev.free && curr.free && prev.blockEnd == curr.blockStart

def merge (prev curr : GuestHeapBlock) : GuestHeapBlock := { prev with size := prev.size + curr.size }

/-- `coalesceGuestHeapLocked` -/
def coalesceGuestHeap : List GuestHeapBlock → List GuestHeapBlock := Tiling.coalesce mergeable merge

/-- `findGuestHeapBlockIndexLocked`: the block at an address that is not free, with those before and
after it. -/
def findGuestHeapBlock (guestAddr : Word) : List GuestHeapBlock →
    Option (List GuestHeapBlock × GuestHeapBlock × List GuestHeapBlock)
  | [] => none
  | block :: l =>
    if !block.free && block.addr == guestAddr &&& ramMask then some ([], block, l)
    else (findGuestHeapBlock guestAddr l).map fun r => (block :: r.1, r.2)

namespace Heap

variable (h : Heap)

/-- `resetGuestHeapLocked` -/
def reset (guestBase guestLimit : Word) : Heap :=
  let base := alignGuestHeapValue (clampGuestHeapBase guestBase) kGuestHeapDefaultAlignment
  let limit := clampGuestHeapLimit guestLimit
  let base :=
    if base = 0 then
      alignGuestHeapValue
        (clampGuestHeapBase (if h.suggestedBase ≠ 0 then h.suggestedBase else kGuestHeapDefaultBase))
        kGuestHeapDefaultAlignment
    else base
  let (base, limit) :=
    if limit ≤ base then
      (alignGuestHeapValue (clampGuestHeapBase h.suggestedBase) kGuestHeapDefaultAlignment, clampGuestHeapLimit 0)
    else (base, limit)
  let (base, limit) : Word × Word := if limit ≤ base then (0, 0) else (base, limit)
  { h with
    blocks := if base < limit then [⟨base, limit - base, true⟩] else []
    base := base
    heapEnd := base
    limit := limit
    configured := true }

/-- `ensureGuestHeapInitializedLocked` -/
def ensureInitialized : Heap :=
  if h.configured then h
  else
    h.reset (if h.suggestedBase = 0 then kGuestHeapDefaultBase else h.suggestedBase) (clampGuestHeapLimit 0)

/-- `configureGuestHeap` -/
def configureGuestHeap (guestBase guestLimit : Word) : Heap :=
  let normalizedBase := alignGuestHeapValue (clampGuestHeapBase guestBase) kGuestHeapDefaultAlignment
  let normalizedBase :=
    if normalizedBase = 0 then
      if h.suggestedBase ≠ 0 then h.suggestedBase else kGuestHeapDefaultBase
    else normalizedBase
  { h with suggestedBase := normalizedBase }.reset normalizedBase guestLimit

/-- `allocateGuestBlockLocked` -/
def allocate (size alignment : Word) : Heap × Word :=
  if size = 0 then (h, 0)
  else if 0xFFFFFFFF - (kGuestHeapDefaultAlignment - 1) < size then (h, 0)
  else
    let allocSize := alignGuestHeapValue size kGuestHeapDefaultAlignment
    if allocSize = 0 then (h, 0)
    else
      match allocateFrom allocSize (normalizeGuestHeapAlignment alignment) h.blocks with
      | none => (h, 0)
      | some (blocks, alignedStart) =>
        ({ h with
            blocks
            heapEnd := stdMax h.heapEnd ((alignedStart + allocSize.setWidth 64).setWidth 32) },
          alignedStart.setWidth 32)

/-- `freeGuestBlockLocked` -/
def freeBlock (guestAddr : Word) : Heap :=
  match findGuestHeapBlock guestAddr h.blocks with
  | none => h
  | some (before, block, after) =>
    { h with blocks := coalesceGuestHeap (before ++ { block with free := true } :: after) }

def guestMalloc (size alignment : Word) : Heap × Word := h.ensureInitialized.allocate size alignment

def guestFree (guestAddr : Word) : Heap :=
  if guestAddr = 0 then h else h.ensureInitialized.freeBlock guestAddr

end Heap

/-- The heap with the guest's memory. -/
structure State where
  heap : Heap
  rdram : Bytes.Memory
  /-- What was handed out and not taken back, with the sizes that were asked for. No call reads it. -/
  handedOut : List (Word × Word)

/-- `memset(rdram + p, 0, n)` -/
def memset (m : Bytes.Memory) (p n : ℕ) : Bytes.Memory := fun q => if p ≤ q ∧ q < p + n then 0 else m q

/-- `memmove(rdram + dst, rdram + src, n)` -/
def memmove (m : Bytes.Memory) (dst src n : ℕ) : Bytes.Memory := fun q =>
  if dst ≤ q ∧ q < dst + n then m (src + (q - dst)) else m q

namespace State

variable (s : State)

def handOut (addr size : Word) : State :=
  if addr = 0 then s else { s with handedOut := (addr, size) :: s.handedOut }

def takeBack (guestAddr : Word) : State :=
  { s with handedOut := s.handedOut.filter (·.1 ≠ guestAddr &&& ramMask) }

def guestMalloc (size alignment : Word) : State × Word :=
  let (heap, addr) := s.heap.guestMalloc size alignment
  ({ s with heap }.handOut addr size, addr)

def guestFree (guestAddr : Word) : State :=
  if guestAddr = 0 then s
  else { s with heap := s.heap.guestFree guestAddr }.takeBack guestAddr

def guestCalloc (count size alignment : Word) : State × Word :=
  if count = 0 ∨ size = 0 then (s, 0)
  else if 0xFFFFFFFF / size < count then (s, 0)
  else
    let totalSize := count * size
    let (s, guestAddr) := s.guestMalloc totalSize alignment
    if guestAddr ≠ 0 then
      let physAddr := guestAddr &&& ramMask
      if physAddr + totalSize ≤ ramSize then
        ({ s with rdram := memset s.rdram physAddr.toNat totalSize.toNat }, guestAddr)
      else (s, guestAddr)
    else (s, guestAddr)

/-- The last part of `guestRealloc`: the block at `oldAddr` is moved. -/
def moveBlock (oldAddr oldSize newSize alignment : Word) : State × Word :=
  let (heap, newAddr) := s.heap.allocate newSize alignment
  if newAddr = 0 then ({ s with heap }, 0)
  else
    let copyBytes := stdMin oldSize newSize
    let dstPhys := newAddr &&& ramMask
    let srcPhys := oldAddr &&& ramMask
    let rdram :=
      if dstPhys + copyBytes ≤ ramSize ∧ srcPhys + copyBytes ≤ ramSize then
        memmove s.rdram dstPhys.toNat srcPhys.toNat copyBytes.toNat
      else s.rdram
    ({ s with heap := heap.freeBlock oldAddr, rdram }, newAddr)

/-- The part of `guestRealloc` with the block found. -/
def resizeBlock (before : List GuestHeapBlock) (block : GuestHeapBlock) (after : List GuestHeapBlock)
    (newSize requestedSize alignment : Word) : State × Word :=
  let oldAddr := block.addr
  let oldSize := block.size
  let resized := { block with size := requestedSize }
  if requestedSize ≤ oldSize then
    if requestedSize < oldSize then
      let tail : GuestHeapBlock := ⟨oldAddr + requestedSize, oldSize - requestedSize, true⟩
      ({ s with heap.blocks := coalesceGuestHeap (before ++ resized :: tail :: after) }, oldAddr)
    else (s, oldAddr)
  else
    match after with
    | next :: rest =>
      if next.free ∧ block.blockEnd = next.blockStart ∧
          requestedSize.setWidth 64 ≤ block.size.setWidth 64 + next.size.setWidth 64 then
        let extraNeeded := requestedSize - oldSize
        let grown :=
          if next.size = extraNeeded then rest
          else { next with addr := next.addr + extraNeeded, size := next.size - extraNeeded } :: rest
        ({ s with
            heap.blocks := before ++ resized :: grown
            heap.heapEnd := stdMax s.heap.heapEnd (oldAddr + requestedSize) }, oldAddr)
      else s.moveBlock oldAddr oldSize newSize alignment
    | [] => s.moveBlock oldAddr oldSize newSize alignment

def guestRealloc (guestAddr newSize alignment : Word) : State × Word :=
  if guestAddr = 0 then s.guestMalloc newSize alignment
  else if newSize = 0 then (s.guestFree guestAddr, 0)
  else if 0xFFFFFFFF - (kGuestHeapDefaultAlignment - 1) < newSize then (s, 0)
  else
    let normalizedAlignment := normalizeGuestHeapAlignment alignment
    let requestedSize := alignGuestHeapValue newSize kGuestHeapDefaultAlignment
    let s := { s with heap := s.heap.ensureInitialized }
    match findGuestHeapBlock guestAddr s.heap.blocks with
    | none => (s, 0)
    | some (before, block, after) =>
      let (s, addr) := s.resizeBlock before block after newSize requestedSize normalizedAlignment
      if addr = 0 then (s, 0) else ((s.takeBack guestAddr).handOut addr newSize, addr)

end State

/-! ### Runs -/

inductive Act
  | guestMalloc (size alignment : Word)
  | guestCalloc (count size alignment : Word)
  | guestRealloc (guestAddr newSize alignment : Word)
  | guestFree (guestAddr : Word)
  /-- the guest writes to its memory -/
  | guest (rdram : Bytes.Memory)

/-- A call, with the address that it returns. -/
def step (s : State) : Act → State × Word
  | .guestMalloc size alignment => s.guestMalloc size alignment
  | .guestCalloc count size alignment => s.guestCalloc count size alignment
  | .guestRealloc guestAddr newSize alignment => s.guestRealloc guestAddr newSize alignment
  | .guestFree guestAddr => (s.guestFree guestAddr, 0)
  | .guest rdram => ({ s with rdram }, 0)

def Step (s : State) (a : Act) (s' : State) : Prop := (step s a).1 = s'

/-- The heap of a runtime as its constructor or `loadELF` leaves it, before it is configured. -/
structure Heap.Unconfigured (h : Heap) : Prop where
  suggestedBase_ne : h.suggestedBase ≠ 0
  suggestedBase_le : h.suggestedBase ≤ kGuestHeapHardLimit

/-- The start of a run: `configureGuestHeap` was called, and nothing is handed out. -/
def State.Configured (s : State) : Prop :=
  s.handedOut = [] ∧ ∃ h : Heap, h.Unconfigured ∧ ∃ guestBase guestLimit,
    s.heap = h.configureGuestHeap guestBase guestLimit

end Ps2Recomp.GuestHeap
