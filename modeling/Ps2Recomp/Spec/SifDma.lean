import Ps2Recomp.Spec.SifRpc

/-!
# sceSifSetDma

`sceSifSetDma` (`SIF.cpp`) up to the call of `deliverSifRpcReply`: a pass that checks the descriptors and looks for
a packet of the RPC protocol, and then one that copies. What `noteDtxSifDmaTransfer` does to memory is a parameter,
and so is the number that is returned. The handlers of the DMA channel, which run behind the copies, are left out.
-/

namespace Ps2Recomp.SifDma

open Memory VSync SifRpc

abbrev kSifCmdRpcEnd : Word := 0x80000008

abbrev kSifCmdRpcBind : Word := 0x80000009

abbrev kSifCmdRpcCall : Word := 0x8000000A

structure Ps2SifDmaTransfer where
  src : Word
  dest : Word
  size : Word
  attr : Word
  deriving DecidableEq, Repr

/-- An entry of `g_sjxRings`. -/
structure SjxStreamRing where
  iopDest : Word
  eeBase : Word
  wkLen : Word
  deriving DecidableEq, Repr

/-- The 16 words of a packet. -/
structure SifRpcReplyPacket where
  words : List Word
  deriving DecidableEq, Repr

def SifRpcReplyPacket.cid (packet : SifRpcReplyPacket) : Word := packet.words.getD 2 0

/-- What a call finds besides the guest's memory. -/
structure Env where
  scratchpadMapped : Bool
  sjxRings : List SjxStreamRing
  noteDtxSifDmaTransfer : Ps2SifDmaTransfer → GuestMemory → GuestMemory
  dmaId : Word
  dmaId_ne_zero : dmaId ≠ 0

/-! ### Copies -/

def isCopyableGuestAddress (addr : Word) : Bool :=
  ps2AddressInRange addr scratchpadBase scratchpadSize || addr < 0x20000000 ||
    ps2IsUncachedRamMirrorAddress addr || ps2IsKseg01Address addr

/-- The `i`-th byte of a range. -/
def byteAddr (addr : Word) (i : ℕ) : Word := addr + BitVec.ofNat 32 i

def canCopyGuestByteRange (spr : Bool) (dstAddr srcAddr sizeBytes : Word) : Bool :=
  (List.range sizeBytes.toNat).all fun i =>
    isCopyableGuestAddress (byteAddr srcAddr i) && isCopyableGuestAddress (byteAddr dstAddr i) &&
      (getMemPtr spr (byteAddr srcAddr i)).isSome && (getMemPtr spr (byteAddr dstAddr i)).isSome

/-- `*dst = *src`; `none` where a pointer is null. -/
def copyByte (spr : Bool) (dstAddr srcAddr : Word) (m : GuestMemory) (i : ℕ) : Option GuestMemory :=
  match getMemPtr spr (byteAddr srcAddr i), getMemPtr spr (byteAddr dstAddr i) with
  | some src, some dst =>
    some (m.setArea dst.scratch (Function.update (m.area dst.scratch) dst.offset (m.area src.scratch src.offset)))
  | _, _ => none

/-- `dstBegin > srcBegin && dstBegin < srcEnd`, in 64 bits. -/
def copyBackward (dstAddr srcAddr sizeBytes : Word) : Bool :=
  srcAddr < dstAddr && dstAddr.toNat < srcAddr.toNat + sizeBytes.toNat

def copyGuestByteRange (spr : Bool) (dstAddr srcAddr sizeBytes : Word) (m : GuestMemory) : Option GuestMemory :=
  if ¬canCopyGuestByteRange spr dstAddr srcAddr sizeBytes then none
  else
    let order := List.range sizeBytes.toNat
    (if copyBackward dstAddr srcAddr sizeBytes then order.reverse else order).foldlM (copyByte spr dstAddr srcAddr) m

/-! ### The stream rings -/

/-- `ps2x_sjxLookupStreamByIopDest` -/
def lookupStreamByIopDest (rings : List SjxStreamRing) (iopDest : Word) : Option SjxStreamRing :=
  if iopDest = 0 ∨ iopDest = 0xFFFFFFFF then none
  else rings.find? fun ring => ring.iopDest = iopDest && ring.eeBase ≠ 0 && 0x40 ≤ ring.wkLen

def ackSjxStreamRingIfMatched (env : Env) (xfer : Ps2SifDmaTransfer) (m : GuestMemory) : GuestMemory :=
  match lookupStreamByIopDest env.sjxRings xfer.dest with
  | none => m
  | some ring =>
    if xfer.src &&& 0x0FFFFFFF ≠ ring.eeBase &&& 0x0FFFFFFF ∨ xfer.size ≠ ring.wkLen then m
    else
      match getMemPtr env.scratchpadMapped (ring.eeBase + ring.wkLen - 4) with
      | none => m
      | some ackPtr => setWord m ackPtr 0 (word m ackPtr 0 + 1)

/-! ### The descriptors -/

/-- The `i`-th descriptor of the list. -/
def readTransfer (env : Env) (m : GuestMemory) (dmatAddr : Word) (i : ℕ) : Option Ps2SifDmaTransfer :=
  (getMemPtr env.scratchpadMapped (dmatAddr + BitVec.ofNat 32 (i * 16))).map fun p =>
    ⟨word m p 0, word m p 1, word m p 2, word m p 3⟩

/-- Up to 64 bytes of the source, with zeros behind them, as words. -/
def packetAt (m : GuestMemory) (p : HostPtr) (sizeBytes : Word) : SifRpcReplyPacket :=
  let byte := fun i => if i < min sizeBytes.toNat 64 then m.area p.scratch (p.offset + i) else 0
  ⟨(List.range 16).map fun k => BitVec.ofNat 32 (Bytes.load byte (4 * k) 4)⟩

/-- A packet of the RPC protocol that leaves with the transfer. -/
def rpcPacket (env : Env) (m : GuestMemory) (xfer : Ps2SifDmaTransfer) : Option SifRpcReplyPacket :=
  match getMemPtr env.scratchpadMapped xfer.src with
  | none => none
  | some sp =>
    let packet := packetAt m sp xfer.size
    if 0x20 ≤ xfer.size ∧ (packet.cid = kSifCmdRpcBind ∨ packet.cid = kSifCmdRpcEnd ∨ packet.cid = kSifCmdRpcCall) then
      some packet
    else none

/-- The transfers that are pending, and the packet that is answered. -/
structure Checked where
  pending : List Ps2SifDmaTransfer
  rpcReply : Option SifRpcReplyPacket
  deriving DecidableEq, Repr

/-- A round of the first loop; `none` where it gives up. -/
def checkTransfer (env : Env) (m : GuestMemory) (dmatAddr : Word) (checked : Checked) (i : ℕ) : Option Checked :=
  match readTransfer env m dmatAddr i with
  | none => none
  | some xfer =>
    if xfer.size.toInt ≤ 0 then some checked
    else if ramSize < xfer.size then none
    else if ¬isCopyableGuestAddress xfer.src ∨ getMemPtr env.scratchpadMapped xfer.src = none then none
    else
      some
        { pending := checked.pending ++ [xfer]
          rpcReply := checked.rpcReply.or (rpcPacket env m xfer) }

/-- A round of the second loop. -/
def doTransfer (env : Env) (m : GuestMemory) (xfer : Ps2SifDmaTransfer) : Option GuestMemory :=
  let destIsEeRam := isCopyableGuestAddress xfer.dest &&
    canCopyGuestByteRange env.scratchpadMapped xfer.dest xfer.src xfer.size
  let copied :=
    if destIsEeRam then copyGuestByteRange env.scratchpadMapped xfer.dest xfer.src xfer.size m else some m
  copied.map fun m => ackSjxStreamRingIfMatched env xfer (env.noteDtxSifDmaTransfer xfer m)

/-- What a call returns, the memory that it leaves, and what is handed to `deliverSifRpcReply`. -/
structure Outcome where
  ret : Word
  memory : GuestMemory
  delivered : List SifRpcReplyPacket

/-- The second loop, and the memory it leaves where it gives up. -/
def doTransfers (env : Env) : List Ps2SifDmaTransfer → GuestMemory → Bool × GuestMemory
  | [], m => (true, m)
  | xfer :: rest, m =>
    match doTransfer env m xfer with
    | none => (false, m)
    | some m => doTransfers env rest m

def sceSifSetDma (env : Env) (m : GuestMemory) (dmatAddr count : Word) : Outcome :=
  if dmatAddr = 0 ∨ count = 0 ∨ 32 < count then ⟨0, m, []⟩
  else
    match (List.range count.toNat).foldlM (checkTransfer env m dmatAddr) ⟨[], none⟩ with
    | none => ⟨0, m, []⟩
    | some checked =>
      match doTransfers env checked.pending m with
      | (false, m) => ⟨0, m, []⟩
      | (true, m) => ⟨env.dmaId, m, checked.rpcReply.toList⟩

end Ps2Recomp.SifDma
