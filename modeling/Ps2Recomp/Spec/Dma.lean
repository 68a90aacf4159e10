import Ps2Recomp.Spec.Gif
import Ps2Recomp.Spec.Memory

/-!
# DMA to the vector units and to the GIF

The channels VIF0, VIF1 and GIF, and how a chain of tags is followed (`writeIORegister` of
`ps2_memory.cpp`). The source of a transfer is put on the list of pending transfers of its channel, or
the chain of tags is followed at once and its data gathered.

A register that was never written reads as 0; that reading one makes an entry for it is left out.
-/

namespace Ps2Recomp.Dma

open Memory Gif

inductive Channel
  | vif0 | vif1 | gif
  deriving DecidableEq, Repr

namespace Channel

def base : Channel → Word
  | .vif0 => 0x10008000
  | .vif1 => 0x10009000
  | .gif => 0x1000A000

/-- The bit of the channel in `D_STAT`, and its cause. -/
def bit : Channel → ℕ
  | .vif0 => 0
  | .vif1 => 1
  | .gif => 2

def isVif : Channel → Bool
  | .vif0 | .vif1 => true
  | .gif => false

end Channel

def dStat : Word := 0x1000E010

def dCtrl : Word := 0x1000E000

structure PendingTransfer where
  fromScratchpad : Bool
  srcAddr : Word
  qwc : Word
  chainData : List Byte
  deriving DecidableEq, Repr

/-- The part of `PS2Memory` that transfers are about. -/
structure Dmac (G : Type) where
  pending : Channel → List PendingTransfer
  completedDmacCauses : List ℕ
  /-- the memory of the GS was allocated -/
  gsVram : Bool
  iopRam : Bytes.Memory
  gif : GifPort G

variable {G : Type}

abbrev Mem (G : Type) := Ps2Memory (Dmac G)

abbrev DmaM (G : Type) := MemM (Dmac G)

/-! ### Registers -/

section

variable (m : Mem G)

def reg (address : Word) : Word := (m.ioRegisters address).getD 0

def setReg (address value : Word) : Mem G :=
  { m with ioRegisters := fun a => if a = address then some value else m.ioRegisters a }

/-- Bit 31 of `D_STAT` says whether a channel has both its status and its mask set. -/
def dStatSummary (dstat : Word) : Word :=
  let status := dstat &&& 0x3FF
  let mask := (dstat >>> 16) &&& 0x3FF
  if status &&& mask ≠ 0 then dstat ||| 0x80000000 else dstat &&& ~~~0x80000000

/-- `raiseDStatChannel` -/
def raiseDStatChannel (channelBit : ℕ) : Mem G :=
  setReg m dStat (dStatSummary (reg m dStat ||| ((1 : Word) <<< channelBit)))

def queueCompletedDmacCause (cause : ℕ) : Mem G :=
  { m with devices.completedDmacCauses := m.devices.completedDmacCauses ++ [cause] }

/-- A write to `D_STAT`: the status bits are cleared and the mask bits toggled by ones. -/
def writeDStat (value : Word) : Mem G :=
  let current := reg m dStat
  let status := (current &&& 0x3FF) &&& ~~~(value &&& 0x3FF)
  let mask := ((current >>> 16) &&& 0x3FF) ^^^ ((value >>> 16) &&& 0x3FF)
  let next := (current &&& ~~~(0x3FF ||| ((0x3FF : Word) <<< 16) ||| 0x80000000)) ||| status ||| (mask <<< 16)
  setReg m dStat (if status &&& mask ≠ 0 then next ||| 0x80000000 else next)

end

/-! ### Copying -/

/-- The ranges of a copying loop, `src` and `chunk` of each round: around the end of the memory, while
`least` bytes are left. Every round takes a byte at least. -/
def chunks (limit least : Word) : ℕ → Word → Word → List (Word × Word)
  | 0, _, _ => []
  | n + 1, src, bytesLeft =>
    if bytesLeft < least then []
    else
      let src := if limit ≤ src then 0 else src
      let chunk := if limit < src + bytesLeft then limit - src else bytesLeft
      if chunk = 0 then []
      else (src, chunk) :: chunks limit least n (src + chunk) (bytesLeft - chunk)

/-- `n` bytes of a memory. -/
def slice (b : Bytes.Memory) (offset n : ℕ) : List Byte := (List.range n).map fun i => b (offset + i)

/-- The bytes of `qwCount` quadwords, in 32 bits. -/
def sizeOfQuads (qwCount : Word) : Word :=
  let bytes64 := qwCount.setWidth 64 * 16
  if (0xFFFFFFFF : BitVec 64) < bytes64 then 0xFFFFFFFF else bytes64.setWidth 32

/-- The memory that a transfer reads from, with the offset in it. -/
def sourceOf (tlbEntries : List TlbEntry) (address : Word) : Except Fault (Region × Word) := do
  let phys ← translateAddress tlbEntries address
  return (if isScratchpad address then .scratchpad else .rdram, phys)

/-- `appendData` -/
def appendData (m : Mem G) (srcAddr qwCount : Word) : Except Fault (List Byte) := do
  let bytes := sizeOfQuads qwCount
  let (r, src) ← sourceOf m.tlbEntries srcAddr
  return (chunks r.limit 1 (bytes.toNat + 1) src bytes).flatMap fun c =>
    slice (m.bytes r) c.1.toNat c.2.toNat

/-! ### Chains -/

inductive TagId
  | refe | cnt | next | ref | refs | call | ret | endTag
  deriving DecidableEq, Repr

def TagId.ofBits (b : BitVec 3) : TagId :=
  match b.toNat with
  | 0 => .refe
  | 1 => .cnt
  | 2 => .next
  | 3 => .ref
  | 4 => .refs
  | 5 => .call
  | 6 => .ret
  | _ => .endTag

/-- `DmaTagView` -/
structure DmaTag where
  qwc : BitVec 16
  id : TagId
  irq : Bool
  addr : Word
  upper : Word
  deriving DecidableEq, Repr

def decodeDmaTag (tag : BitVec 64) : DmaTag where
  qwc := tag.setWidth 16
  id := .ofBits ((tag >>> 28).setWidth 3)
  irq := tag.getLsbD 31
  addr := (tag >>> 32).setWidth 32 &&& 0x7FFFFFFF
  upper := (tag >>> 16).setWidth 32 &&& 0xFFFF

/-- The first eight bytes of a quadword as a number. -/
def load64 (b : Bytes.Memory) (offset : ℕ) : BitVec 64 := .ofNat 64 (Bytes.load b offset 8)

/-- The tag at an address, if it lies in a memory. -/
def readTag (m : Mem G) (tagAddr : Word) : Option DmaTag :=
  match sourceOf m.tlbEntries tagAddr with
  | .error _ => none
  | .ok (r, physTag) =>
    if r.limit < physTag + 16 then none else some (decodeDmaTag (load64 (m.bytes r) physTag.toNat))

structure ChainState where
  tagAddr : Word
  asr0 : Word
  asr1 : Word
  asp : Word
  chainBuf : List Byte
  tagsProcessed : ℕ
  lastTagUpper : Word
  deriving DecidableEq, Repr

/-- The `switch` over the id of a tag: where its data is, what comes next, and whether it is the
last. -/
def ChainState.follow (c : ChainState) (tag : DmaTag) : Word × ChainState × Bool :=
  let tagQwc := tag.qwc.setWidth 32
  match tag.id with
  | .refe => (tag.addr, { c with tagAddr := c.tagAddr + 16 }, true)
  | .cnt =>
    let dataAddr := c.tagAddr + 16
    (dataAddr, { c with tagAddr := dataAddr + tagQwc * 16 }, false)
  | .next => (c.tagAddr + 16, { c with tagAddr := tag.addr }, false)
  | .ref | .refs => (tag.addr, { c with tagAddr := c.tagAddr + 16 }, false)
  | .call =>
    let dataAddr := c.tagAddr + 16
    let retAddr := dataAddr + tagQwc * 16
    let c :=
      if c.asp = 0 then { c with asr0 := retAddr, asp := 1 }
      else if c.asp = 1 then { c with asr1 := retAddr, asp := 2 }
      else c
    (dataAddr, { c with tagAddr := tag.addr }, false)
  | .ret =>
    let dataAddr := c.tagAddr + 16
    if c.asp = 2 then (dataAddr, { c with tagAddr := c.asr1, asp := 1 }, false)
    else if c.asp = 1 then (dataAddr, { c with tagAddr := c.asr0, asp := 0 }, false)
    else (dataAddr, c, true)
  | .endTag => (c.tagAddr + 16, c, true)

/-- `appendCompactVif1TagData` with no data: the upper half of the tag. -/
def compactTagData (m : Mem G) (localTagAddr : Word) : Except Fault (List Byte) := do
  let (r, tagPhys) ← sourceOf m.tlbEntries localTagAddr
  if r.limit < tagPhys + 16 then return []
  let data ← appendData m (localTagAddr + 16) 0
  return slice (m.bytes r) (tagPhys.toNat + 8) 8 ++ data

/-- What goes in front of the data of a tag. -/
def tagHead (m : Mem G) (vifChannel : Bool) (localTagAddr : Word) : Except Fault (List Byte) :=
  if vifChannel then compactTagData m localTagAddr else .ok []

def tagPayload (m : Mem G) (dataAddr : Word) (qwc : BitVec 16) : Except Fault (List Byte) :=
  if 0 < qwc then appendData m dataAddr (qwc.setWidth 32) else .ok []

/-- The loop over the tags. -/
def chainLoop (m : Mem G) (vifChannel tieEnabled : Bool) : ℕ → ChainState → Except Fault ChainState
  | 0, c => .ok c
  | n + 1, c =>
    match readTag m c.tagAddr with
    | none => .ok c
    | some tag => do
      let (dataAddr, next, endChain) := c.follow tag
      let head ← tagHead m vifChannel c.tagAddr
      let payload ← tagPayload m dataAddr tag.qwc
      let next :=
        { next with
          chainBuf := c.chainBuf ++ head ++ payload
          tagsProcessed := c.tagsProcessed + 1
          lastTagUpper := tag.upper }
      if endChain || (tag.irq && tieEnabled) then return next
      else chainLoop m vifChannel tieEnabled n next

def kMaxChainTags : ℕ := 4096

/-- The registers that the walk starts from. -/
def chainStart (m : Mem G) (ch : Channel) (chcr : Word) : ChainState where
  tagAddr := reg m (ch.base + 0x30)
  asr0 := reg m (ch.base + 0x40)
  asr1 := reg m (ch.base + 0x50)
  asp := (chcr >>> 4) &&& 0x3
  chainBuf := []
  tagsProcessed := 0
  lastTagUpper := (chcr >>> 16) &&& 0xFFFF

def tieEnabled (chcr : Word) : Bool := chcr.getLsbD 7

/-- The registers that the walk writes back. -/
def writeBack (m : Mem G) (ch : Channel) (chcr : Word) (c : ChainState) : Mem G :=
  let m := setReg m (ch.base + 0x30) c.tagAddr
  let m := setReg m (ch.base + 0x40) c.asr0
  let m := setReg m (ch.base + 0x50) c.asr1
  let chcr := (chcr &&& ~~~((0x3 : Word) <<< 4)) ||| ((c.asp &&& 0x3) <<< 4)
  let chcr := (chcr &&& 0x0000FFFF) ||| (c.lastTagUpper <<< 16)
  setReg m ch.base chcr

def enqueue (m : Mem G) (ch : Channel) (pt : PendingTransfer) : Mem G :=
  { m with devices.pending := fun c => if c = ch then m.devices.pending ch ++ [pt] else m.devices.pending c }

/-- The source chain mode of a channel. -/
def chainTransfer (ch : Channel) (chcr : Word) : DmaM G Unit := fun m =>
  match chainLoop m ch.isVif (tieEnabled chcr) kMaxChainTags (chainStart m ch chcr) with
  | .error e => .error e m
  | .ok c =>
    let m := writeBack m ch chcr c
    .ok () (if c.chainBuf = [] then m else enqueue m ch ⟨false, 0, 0, c.chainBuf⟩)

end Ps2Recomp.Dma

/-!
# The registers that ones clear

`D_STAT` and `INTC_STAT` (`writeIORegister` of `ps2_memory.cpp`). What is written to them is not what
they then hold: a one clears a bit of status, and in the upper half of `D_STAT` it toggles a mask.
-/

namespace Ps2Recomp.Dma

open Memory

variable {G : Type}

def intcStat : Word := 0x1000F000

/-- All bits of `INTC_STAT` are cleared by ones. -/
def writeIntcStat (m : Mem G) (value : Word) : Mem G :=
  setReg m intcStat (reg m intcStat &&& ~~~value)

inductive StatusRegister
  | dStat | intcStat
  deriving DecidableEq, Repr

namespace StatusRegister

def address : StatusRegister → Word
  | .dStat => Dma.dStat
  | .intcStat => Dma.intcStat

/-- The bits at which a one that is written changes the register. -/
def changedByOnes : StatusRegister → Word
  | .dStat => 0x03FF03FF
  | .intcStat => 0xFFFFFFFF

/-- What a store of a word does. -/
def write : StatusRegister → Mem G → Word → Mem G
  | .dStat => writeDStat
  | .intcStat => writeIntcStat

end StatusRegister

/-- `writeIORegister` with the branches of the two registers. The branches before and behind them are
for other addresses, and are those of `d`. -/
def withStatus (d : Devices (Dmac G)) : Devices (Dmac G) :=
  { d with
    writeIORegister := fun address value =>
      if address = dStat then modify fun m => writeDStat m value
      else if address = intcStat then modify fun m => writeIntcStat m value
      else d.writeIORegister address value }

/-- The bits outside the byte that a store to `physAddr` addresses. -/
def outsideByte (physAddr : Word) : Word := ~~~((0xFF : Word) <<< ((physAddr &&& 3) * 8))

/-- The bits outside the halfword that a store to `physAddr` addresses. -/
def outsideHalf (physAddr : Word) : Word := ~~~((0xFFFF : Word) <<< ((physAddr &&& 2) * 8))

end Ps2Recomp.Dma

/-!
# The source chain of the architecture

What a chain of DMA tags stands for, in its own terms: a list of tags, each found where the one before
it points to, the bytes of each, and the registers behind the last. The walk of `Spec/Dma` is compared
with it.

Two rules of the architecture are parameters. On a channel to a vector unit CHCR.TTE says whether the
upper half of a tag goes in front of its data, and bit 31 of an address of the DMAC selects the
scratchpad.
-/

namespace Ps2Recomp.Dma

open Memory Gif

structure Rules where
  /-- the upper half of a tag is transferred -/
  tagTransfer : Bool
  /-- bit 31 of an address selects the scratchpad -/
  sprBit : Bool

/-- The registers of a channel in chain mode. -/
structure ChainRegs where
  tadr : Word
  asr0 : Word
  asr1 : Word
  asp : Word
  deriving DecidableEq, Repr

namespace ChainRegs

variable (s : ChainRegs)

/-- A return address is put on the stack, if there is room. -/
def push (ret : Word) : ChainRegs :=
  if s.asp = 0 then { s with asr0 := ret, asp := 1 }
  else if s.asp = 1 then { s with asr1 := ret, asp := 2 }
  else s

/-- The return address on top of the stack, and the stack without it. -/
def pop : Option (Word × ChainRegs) :=
  if s.asp = 2 then some (s.asr1, { s with asp := 1 })
  else if s.asp = 1 then some (s.asr0, { s with asp := 0 })
  else none

end ChainRegs

namespace Rules

variable {G : Type} (ρ : Rules) (m : Mem G) (s : ChainRegs) (tag : BitVec 64)

/-- The memory that an address of the DMAC leads to. -/
def locate (a : Word) : Option (Region × ℕ) :=
  if ρ.sprBit && a.msb then some (.scratchpad, a.toNat % scratchpadSize.toNat)
  else (sourceOf m.tlbEntries a).toOption.map fun p => (p.1, p.2.toNat)

/-- The address in a tag. -/
def addr : Word :=
  if ρ.sprBit then (tag >>> 32).setWidth 32 else (decodeDmaTag tag).addr

/-- Where the data of a tag is: at its address, or behind it. -/
def data : Word :=
  match (decodeDmaTag tag).id with
  | .refe | .ref | .refs => ρ.addr tag
  | .cnt | .next | .call | .ret | .endTag => s.tadr + 16

/-- The registers behind a tag. -/
def next : ChainRegs :=
  let behind := s.tadr + 16 + (decodeDmaTag tag).qwc.setWidth 32 * 16
  match (decodeDmaTag tag).id with
  | .refe | .ref | .refs => { s with tadr := s.tadr + 16 }
  | .cnt => { s with tadr := behind }
  | .next => { s with tadr := ρ.addr tag }
  | .call => { s.push behind with tadr := ρ.addr tag }
  | .ret =>
    match s.pop with
    | some (ret, s) => { s with tadr := ret }
    | none => s
  | .endTag => s

/-- **Whether a tag is the last**: `refe`, `end`, a `ret` with nothing to return to, or an interrupt
with TIE set. -/
def isLast (tie : Bool) : Bool :=
  (decodeDmaTag tag).id = .refe || (decodeDmaTag tag).id = .endTag ||
    ((decodeDmaTag tag).id = .ret && s.pop.isNone) || ((decodeDmaTag tag).irq && tie)

/-- `n` bytes from an address on. Behind the end of a memory is its start. -/
def bytes (a : Word) (n : ℕ) : Option (List Byte) :=
  (ρ.locate m a).map fun p =>
    let start := if p.2 < p.1.limit.toNat then p.2 else 0
    (List.range n).map fun i => m.bytes p.1 ((start + i) % p.1.limit.toNat)

/-- The tag at an address. -/
def tagAt (a : Word) : Option (BitVec 64) :=
  (ρ.locate m a).bind fun p =>
    if p.2 + 16 ≤ p.1.limit.toNat then some (load64 (m.bytes p.1) p.2) else none

/-- The upper half of the tag at an address, if it is transferred. The quadword behind the tag has to
be mapped too. -/
def head (a : Word) : Option (List Byte) :=
  if ρ.tagTransfer then do
    let p ← ρ.locate m a
    let _ ← ρ.locate m (a + 16)
    return slice (m.bytes p.1) (p.2 + 8) 8
  else some []

/-- The data of a tag. -/
def payload : Option (List Byte) :=
  let qwc := (decodeDmaTag tag).qwc
  if 0 < qwc then ρ.bytes m (ρ.data s tag) (16 * qwc.toNat) else some []

/-- What a tag adds to the transfer. -/
def link : Option (List Byte) := do
  let head ← ρ.head m s.tadr
  let payload ← ρ.payload m s tag
  return head ++ payload

end Rules

/-- The rules of the architecture for a transfer with `chcr`. -/
def architecture (ch : Channel) (chcr : Word) : Rules := ⟨ch.isVif && chcr.getLsbD 6, true⟩

/-- **A source chain**: the tags from the registers on, in order, with the bytes that they stand for
and the registers behind the last. -/
inductive SourceChain {G : Type} (ρ : Rules) (m : Mem G) (tie : Bool) :
    ChainRegs → List (BitVec 64) → List Byte → ChainRegs → Prop
  | last {s : ChainRegs} {tag : BitVec 64} {bs : List Byte} :
      ρ.tagAt m s.tadr = some tag → ρ.link m s tag = some bs → Rules.isLast s tag tie = true →
      SourceChain ρ m tie s [tag] bs (ρ.next s tag)
  | link {s s' : ChainRegs} {tag : BitVec 64} {bs bs' : List Byte} {tags : List (BitVec 64)} :
      ρ.tagAt m s.tadr = some tag → ρ.link m s tag = some bs → Rules.isLast s tag tie = false →
      SourceChain ρ m tie (ρ.next s tag) tags bs' s' → SourceChain ρ m tie s (tag :: tags) (bs ++ bs') s'

/-- The registers of a channel before a transfer with `chcr`. -/
def ChainRegs.of {G : Type} (m : Mem G) (ch : Channel) (chcr : Word) : ChainRegs :=
  ⟨reg m (ch.base + 0x30), reg m (ch.base + 0x40), reg m (ch.base + 0x50), (chcr >>> 4) &&& 0x3⟩

/-! ### What a walk meets

A walk of at most `n` tags from the registers on, as the code follows it. -/

section

variable {G : Type} (m : Mem G) (vif tie : Bool)

/-- The state of a walk that has gathered nothing. -/
def ChainRegs.state (r : ChainRegs) : ChainState := ⟨r.tadr, r.asr0, r.asr1, r.asp, [], 0, 0⟩

/-- The registers in the state of a walk. -/
def ChainState.regs (c : ChainState) : ChainRegs := ⟨c.tagAddr, c.asr0, c.asr1, c.asp⟩

def isMapped (a : Word) : Bool :=
  match sourceOf m.tlbEntries a with
  | .ok _ => true
  | .error _ => false

/-- No address of the walk misses the TLB. -/
def walkMapped : ℕ → ChainRegs → Bool
  | 0, _ => true
  | n + 1, r =>
    match readTag m r.tadr with
    | none => true
    | some tag =>
      let (dataAddr, next, endChain) := r.state.follow tag
      (!vif || isMapped m (r.tadr + 16)) && (!decide (0 < tag.qwc) || isMapped m dataAddr) &&
        ((endChain || (tag.irq && tie)) || walkMapped n next.regs)

/-- Some tag of the walk carries data: any on a channel to a vector unit, one with QWC on the GIF. -/
def walkCarries : ℕ → ChainRegs → Bool
  | 0, _ => false
  | n + 1, r =>
    match readTag m r.tadr with
    | none => false
    | some tag =>
      let (_, next, endChain) := r.state.follow tag
      vif || decide (0 < tag.qwc) || (!(endChain || (tag.irq && tie)) && walkCarries n next.regs)

end

/-- **The chain of a channel carries data**, and is mapped. -/
def ChainHasData {G : Type} (m : Mem G) (ch : Channel) (chcr : Word) : Prop :=
  walkMapped m ch.isVif (tieEnabled chcr) kMaxChainTags (ChainRegs.of m ch chcr) = true ∧
    walkCarries m ch.isVif (tieEnabled chcr) kMaxChainTags (ChainRegs.of m ch chcr) = true

end Ps2Recomp.Dma
