import Ps2Recomp.Spec.Dma

/-!
# Transfers

`processPendingTransfers` of `ps2_memory.cpp`, and what starts a transfer: `writeIORegister` for the
registers of the DMAC and those that only keep what is written to them, `processGIFPacket`, and the two
copies between main memory and the IOP.

What takes the data of the VIFs is a parameter (`Engines`). It leaves the DMAC alone.
-/

namespace Ps2Recomp.Dma

open Memory Gif

variable {G : Type}

/-- The DMAC is as it was. -/
structure Kept (m m' : Mem G) : Prop where
  ioRegisters : m'.ioRegisters = m.ioRegisters
  tlbEntries : m'.tlbEntries = m.tlbEntries
  pending : m'.devices.pending = m.devices.pending
  causes : m'.devices.completedDmacCauses = m.devices.completedDmacCauses
  gsVram : m'.devices.gsVram = m.devices.gsVram

/-- What takes the data of the channels. -/
structure Engines (G : Type) where
  sink : Sink G
  processVIF0Data : List Byte → Mem G → Mem G
  processVIF1Data : List Byte → Mem G → Mem G
  vif0_kept : ∀ data m, Kept m (processVIF0Data data m)
  vif1_kept : ∀ data m, Kept m (processVIF1Data data m)

/-! ### Handing out -/

/-- Data that is handed out: what a chain gathered, or a range of a memory. -/
inductive Piece
  | chainData (data : List Byte)
  | range (r : Region) (src chunk : Word)
  deriving DecidableEq, Repr

namespace Piece

def data (m : Mem G) : Piece → List Byte
  | .chainData data => data
  | .range r src chunk => slice (m.bytes r) src.toNat chunk.toNat

/-- A range lies in its memory. -/
def Inside : Piece → Prop
  | .chainData _ => True
  | .range r src chunk => src.toNat + chunk.toNat ≤ r.limit.toNat

end Piece

/-- How much has to be left for another round: a quadword for the GIF, a byte for a VIF. -/
def Channel.least : Channel → Word
  | .gif => 16
  | .vif0 | .vif1 => 1

/-- What a pending transfer hands out. -/
def pieces (m : Mem G) (ch : Channel) (p : PendingTransfer) : List Piece :=
  if p.chainData ≠ [] then [.chainData p.chainData]
  else if 0 < p.qwc then
    match translateAddress m.tlbEntries p.srcAddr with
    | .error _ => []
    | .ok srcPhys =>
      let sizeBytes := sizeOfQuads p.qwc
      let r : Region := if p.fromScratchpad then .scratchpad else .rdram
      (chunks r.limit ch.least (sizeBytes.toNat + 1) srcPhys sizeBytes).map fun c => .range r c.1 c.2
  else []

section

variable (e : Engines G)

def submitGifPacket (pathId : GifPathId) (data : List Byte) (drainImmediately path2DirectHl : Bool)
    (m : Mem G) : Mem G :=
  { m with devices.gif := m.devices.gif.submitGifPacket e.sink pathId data drainImmediately path2DirectHl }

/-- `processVIF0Data` and `processVIF1Data` of a range of main memory. -/
def processRange (processData : List Byte → Mem G → Mem G) (srcPhys sizeBytes : Word) (m : Mem G) : Mem G :=
  if sizeBytes = 0 ∨ ramSize ≤ srcPhys then m
  else
    let sizeBytes :=
      if ramSize.toNat < srcPhys.toNat + sizeBytes.toNat then ramSize - srcPhys else sizeBytes
    processData (slice m.rdram srcPhys.toNat sizeBytes.toNat) m

def processVif (processData : List Byte → Mem G → Mem G) (m : Mem G) : Piece → Mem G
  | .range .rdram src chunk => processRange processData src chunk m
  | p => processData (p.data m) m

/-- A piece is handed to the device of a channel. -/
def hand (ch : Channel) (m : Mem G) (p : Piece) : Mem G :=
  match ch with
  | .gif => submitGifPacket e .path3 (p.data m) false false m
  | .vif0 => processVif e.processVIF0Data m p
  | .vif1 => processVif e.processVIF1Data m p

def processTransfer (ch : Channel) (m : Mem G) (p : PendingTransfer) : Mem G :=
  (pieces m ch p).foldl (hand e ch) m

def clearPending (m : Mem G) (ch : Channel) : Mem G :=
  { m with devices.pending := fun c => if c = ch then [] else m.devices.pending c }

def processChannel (ch : Channel) (m : Mem G) : Mem G :=
  clearPending ((m.devices.pending ch).foldl (processTransfer e ch) m) ch

/-- What is handed out for a list of transfers, in order. -/
def handedOut (ch : Channel) : Mem G → List PendingTransfer → List Piece
  | _, [] => []
  | m, p :: ps => pieces m ch p ++ handedOut ch (processTransfer e ch m p) ps

end

/-- A transfer is over. -/
def complete (m : Mem G) (ch : Channel) : Mem G :=
  let m := queueCompletedDmacCause (raiseDStatChannel m ch.bit) ch.bit
  let m := setReg m ch.base (reg m ch.base &&& ~~~0x100)
  setReg m (ch.base + 0x20) 0

def completeIf (had : Bool) (ch : Channel) (m : Mem G) : Mem G := if had then complete m ch else m

def hadPending (m : Mem G) (ch : Channel) : Bool := !(m.devices.pending ch).isEmpty

/-- `processPendingTransfers`: the GIF, then VIF0, then VIF1. -/
def processPendingTransfers (e : Engines G) (m : Mem G) : Mem G :=
  let hadGif := hadPending m .gif
  let m := processChannel e .gif m
  let hadVif0 := hadPending m .vif0
  let m := processChannel e .vif0 m
  let hadVif1 := hadPending m .vif1
  let m := processChannel e .vif1 m
  let m := { m with devices.gif.behind := GifPort.drainArbiter e.sink m.devices.gif.behind }
  completeIf hadVif1 .vif1 (completeIf hadVif0 .vif0 (completeIf hadGif .gif m))

/-- All that `processPendingTransfers` hands out. -/
def allHandedOut (e : Engines G) (m : Mem G) : List Piece :=
  let gif := processChannel e .gif m
  let vif0 := processChannel e .vif0 gif
  handedOut e .gif m (m.devices.pending .gif) ++ handedOut e .vif0 gif (gif.devices.pending .vif0) ++
    handedOut e .vif1 vif0 (vif0.devices.pending .vif1)

/-- What `processGIFPacket` hands out. -/
def gifPieces (srcPhysAddr qwCount : Word) : List Piece :=
  let sizeBytes := sizeOfQuads qwCount
  (chunks ramSize 16 (sizeBytes.toNat + 1) srcPhysAddr sizeBytes).map fun c => .range .rdram c.1 c.2

/-- `processGIFPacket` of a range of main memory. -/
def processGIFPacket (e : Engines G) (srcPhysAddr qwCount : Word) (m : Mem G) : Mem G :=
  if qwCount = 0 then m
  else
    (gifPieces srcPhysAddr qwCount).foldl (fun m p => submitGifPacket e .path3 (p.data m) true false m) m

/-! ### Starting -/

/-- A channel between the scratchpad and main memory. -/
inductive SprChannel
  | fromSPR | toSPR
  deriving DecidableEq, Repr

namespace SprChannel

def base : SprChannel → Word
  | .fromSPR => 0x1000D000
  | .toSPR => 0x1000D400

def bit : SprChannel → ℕ
  | .fromSPR => 8
  | .toSPR => 9

end SprChannel

def putByte (b : Bytes.Memory) (p : ℕ) (v : Byte) : Bytes.Memory := fun q => if q = p then v else b q

/-- The loop over the bytes of a transfer of the scratchpad. -/
def sprCopy (ch : SprChannel) (spMadr sadr : Word) (bytes : ℕ) (m : Mem G) : Mem G :=
  (List.range (min bytes (ramSize.toNat - spMadr.toNat))).foldl (fun m i =>
    let sp := ((sadr + .ofNat 32 i) &&& (scratchpadSize - 1)).toNat
    let mp := spMadr.toNat + i
    match ch with
    | .fromSPR => { m with rdram := putByte m.rdram mp (m.scratchpad sp) }
    | .toSPR => { m with scratchpad := putByte m.scratchpad sp (m.rdram mp) }) m

/-- A write with STR set to the CHCR of the scratchpad. It is done at once, whether the DMAC is
enabled or not. -/
def sprTransfer (ch : SprChannel) (value : Word) : DmaM G Unit := fun m =>
  match translateAddress m.tlbEntries (reg m (ch.base + 0x10)) with
  | .error err => .error err m
  | .ok spMadr =>
    let bytes := (reg m (ch.base + 0x20)).toNat * 16
    let sadr := reg m (ch.base + 0x80) &&& (scratchpadSize - 1)
    let m := if spMadr < ramSize then sprCopy ch spMadr sadr (min bytes ramSize.toNat) m else m
    let m := raiseDStatChannel m ch.bit
    let m := setReg m ch.base (value &&& ~~~0x100)
    .ok () (setReg m (ch.base + 0x20) 0)

def dmacEnabled (m : Mem G) : Bool :=
  match m.ioRegisters dCtrl with
  | none => true
  | some value => value.getLsbD 0

/-- The transfer of a channel, by its mode, is put on the list. -/
def enqueueTransfer (ch : Channel) (chcr : Word) : DmaM G Unit := fun m =>
  let madr := reg m (ch.base + 0x10)
  let qwc := reg m (ch.base + 0x20)
  let mode := (chcr >>> 2) &&& 0x3
  if mode = 1 then chainTransfer ch chcr m
  else .ok () (if qwc = 0 then m else enqueue m ch ⟨isScratchpad madr, madr, qwc, []⟩)

/-- Without anything that takes packets, transfers of the GIF wait. -/
def autoProcess (e : Engines G) : Channel → Bool
  | .gif => e.sink.gifPacketCallback.isSome || e.sink.gifArbiter.isSome
  | .vif0 | .vif1 => true

/-- A write with STR set to the CHCR of VIF0, VIF1 or the GIF. -/
def startTransfer (e : Engines G) (ch : Channel) (value : Word) : DmaM G Unit := fun m =>
  if !dmacEnabled m then .ok () m
  else if !(m.devices.gsVram || ch = .vif0) then .ok () m
  else
    match enqueueTransfer ch value m with
    | .error err m => .error err m
    | .ok _ m => .ok () (if autoProcess e ch then processPendingTransfers e m else m)

/-- A channel with code of its own. -/
inductive AnyChannel
  | dma (ch : Channel)
  | spr (ch : SprChannel)
  deriving DecidableEq, Repr

namespace AnyChannel

def base : AnyChannel → Word
  | .dma ch => ch.base
  | .spr ch => ch.base

def bit : AnyChannel → ℕ
  | .dma ch => ch.bit
  | .spr ch => ch.bit

def all : List AnyChannel := [.dma .vif0, .dma .vif1, .dma .gif, .spr .fromSPR, .spr .toSPR]

end AnyChannel

/-- `writeIORegister` -/
def writeIORegister (e : Engines G) (address value : Word) : DmaM G Unit := fun m =>
  if address = dStat then .ok () (writeDStat m value)
  else
    let m := setReg m address value
    match AnyChannel.all.find? fun c => value.getLsbD 8 && address == c.base with
    | some (.dma ch) => startTransfer e ch value m
    | some (.spr ch) => sprTransfer ch value m
    | none => .ok () m

/-! ### The IOP -/

def iopRamSize : Word := 2 * 1024 * 1024

def iopRamOffset (addr : Word) : Word :=
  let phys := addr &&& 0x1FFFFFFF
  if phys < iopRamSize then phys else iopRamSize

/-- `n` bytes of `src` are put into `dst`. -/
def copyBytes (dst : Bytes.Memory) (dstOff : ℕ) (src : Bytes.Memory) (srcOff n : ℕ) : Bytes.Memory := fun q =>
  if dstOff ≤ q ∧ q < dstOff + n then src (srcOff + (q - dstOff)) else dst q

/-- What is left of `n` bytes from an offset on. -/
def clampTo (limit off n : Word) : Word := if limit < off + n then limit - off else n

/-- `sifDmaEEtoIOP` -/
def sifDmaEEtoIOP (eeAddr iopAddr bytes : Word) : DmaM G Word := fun m =>
  if bytes = 0 then .ok 0 m
  else
    match translateAddress m.tlbEntries eeAddr with
    | .error err => .error err m
    | .ok eeOff =>
      let iopOff := iopRamOffset iopAddr
      if ramSize ≤ eeOff ∨ iopRamSize ≤ iopOff then .ok 0 m
      else
        let n := clampTo iopRamSize iopOff (clampTo ramSize eeOff bytes)
        .ok n { m with
          devices.iopRam := copyBytes m.devices.iopRam iopOff.toNat m.rdram eeOff.toNat n.toNat }

/-- `sifDmaIOPtoEE` -/
def sifDmaIOPtoEE (iopAddr eeAddr bytes : Word) : DmaM G Word := fun m =>
  if bytes = 0 then .ok 0 m
  else
    let iopOff := iopRamOffset iopAddr
    match translateAddress m.tlbEntries eeAddr with
    | .error err => .error err m
    | .ok eeOff =>
      if ramSize ≤ eeOff ∨ iopRamSize ≤ iopOff then .ok 0 m
      else
        let n := clampTo ramSize eeOff (clampTo iopRamSize iopOff bytes)
        .ok n { m with
          rdram := copyBytes m.rdram eeOff.toNat m.devices.iopRam iopOff.toNat n.toNat }

end Ps2Recomp.Dma
