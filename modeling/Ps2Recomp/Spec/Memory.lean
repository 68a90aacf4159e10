import Ps2Recomp.Lib.Bytes
import Ps2Recomp.Spec.Instruction

/-!
# The memory of the guest

Two ways to the guest's memory. The emitted code reads and writes main memory directly (`Ps2FastRead*`
and `Ps2FastWrite*` of `ps2_runtime_macros.h`), unless `Ps2IsSpecialAddress` (`ps2_address.h`) sends
it to `PS2Memory` (`ps2_memory.cpp`), which knows all that is mapped: main memory, the scratchpad, the
memories of the vector units, the registers of the devices and those of the GS.

What a register of a device does when it is read or written is a parameter (`Devices`), and with it
the decoder of the IPU, which is not part of the repository.
-/

namespace Ps2Recomp.Memory

/-! ### Addresses -/

def ramSize : Word := 32 * 1024 * 1024

def ramMask : Word := ramSize - 1

def scratchpadBase : Word := 0x70000000

def scratchpadSize : Word := 16 * 1024

def ioBase : Word := 0x10000000

def ioSize : Word := 0x10000

def biosBase : Word := 0x1FC00000

def biosSize : Word := 4 * 1024 * 1024

def vu0CodeBase : Word := 0x11000000

def vu0DataBase : Word := 0x11004000

def vu0CodeSize : Word := 4 * 1024

def vu0DataSize : Word := 4 * 1024

def vu1CodeBase : Word := 0x11008000

def vu1DataBase : Word := 0x1100C000

def vu1CodeSize : Word := 16 * 1024

def vu1DataSize : Word := 16 * 1024

def gsPrivRegBase : Word := 0x12000000

def gsPrivRegSize : Word := 0x2000

def ps2AddressInRange (value base size : Word) : Bool := value - base < size

def ps2IsUncachedRamMirrorAddress (addr : Word) : Bool := ps2AddressInRange addr 0x20000000 0x20000000

def ps2IsKseg01Address (addr : Word) : Bool := ps2AddressInRange addr 0x80000000 0x40000000

def ps2IsKseg23Address (addr : Word) : Bool := 0xC0000000 ≤ addr

def ps2DirectMappedPhysicalAddress (addr : Word) : Word := addr &&& 0x1FFFFFFF

def ps2PhysicalAddress (addr : Word) : Word :=
  if 0x80000000 ≤ addr then ps2DirectMappedPhysicalAddress addr else addr

def ps2IsPhysicalSpecialAddress (physAddr : Word) : Bool :=
  ps2AddressInRange physAddr biosBase biosSize ||
  ps2AddressInRange physAddr scratchpadBase scratchpadSize ||
  ps2AddressInRange physAddr ioBase ioSize ||
  ps2AddressInRange physAddr gsPrivRegBase gsPrivRegSize ||
  (vu0DataBase ≤ physAddr && physAddr < vu1CodeBase + vu1CodeSize)

def ps2IsSpecialAddress (addr : Word) : Bool :=
  if ps2IsKseg23Address addr then true else ps2IsPhysicalSpecialAddress (ps2PhysicalAddress addr)

def isGsPrivReg (addr : Word) : Bool := ps2AddressInRange addr gsPrivRegBase gsPrivRegSize

def isIoRegister (addr : Word) : Bool := ps2AddressInRange addr ioBase ioSize

/-- `ps2IsScratchpadAddress` -/
def isScratchpad (addr : Word) : Bool :=
  if scratchpadBase ≤ addr ∧ addr < scratchpadBase + scratchpadSize then true
  else if addr &&& 0x80000000 ≠ 0 then
    let lower := addr &&& 0x7FFFFFFF
    scratchpadBase ≤ lower && lower < scratchpadBase + scratchpadSize
  else false

def ps2ScratchpadOffset (addr : Word) : Word :=
  if scratchpadBase ≤ addr ∧ addr < scratchpadBase + scratchpadSize then addr - scratchpadBase
  else (addr &&& 0x7FFFFFFF) - scratchpadBase

structure TlbEntry where
  vpn : Word
  pfn : Word
  mask : Word
  valid : Bool
  deriving DecidableEq, Repr

/-- What an entry of the TLB maps an address to. -/
def TlbEntry.translate (entry : TlbEntry) (virtualAddress : Word) : Option Word :=
  if entry.valid then
    let mask := entry.mask &&& 0x01FFE000
    let compareMask := ~~~(mask ||| 0xFFF)
    if virtualAddress &&& compareMask = entry.vpn &&& compareMask then
      let pageOffsetMask := mask ||| 0xFFF
      let physBase := entry.pfn <<< 12
      some (physBase ||| (virtualAddress &&& pageOffsetMask))
    else none
  else none

/-- The exceptions of `PS2Memory`, with the start of their text. -/
inductive Fault
  | unaligned (op : String) (address : Word)
  | outOfBounds (op : String) (address : Word)
  | tlbMiss (address : Word)
  deriving DecidableEq, Repr

def translateAddress (tlbEntries : List TlbEntry) (virtualAddress : Word) : Except Fault Word :=
  if isScratchpad virtualAddress then .ok (ps2ScratchpadOffset virtualAddress)
  else if ps2IsUncachedRamMirrorAddress virtualAddress then .ok (virtualAddress &&& ramMask)
  else if ps2IsKseg01Address virtualAddress then .ok (ps2DirectMappedPhysicalAddress virtualAddress)
  else if virtualAddress < 0x80000000 then .ok virtualAddress
  else if ps2IsKseg23Address virtualAddress then
    match tlbEntries.findSome? (·.translate virtualAddress) with
    | some physAddr => .ok physAddr
    | none => .error (.tlbMiss virtualAddress)
  else .ok virtualAddress

/-! ### What is mapped -/

inductive Vu
  | vu0Code | vu0Data | vu1Code | vu1Data
  deriving DecidableEq, Repr

def Vu.base : Vu → Word
  | .vu0Code => vu0CodeBase
  | .vu0Data => vu0DataBase
  | .vu1Code => vu1CodeBase
  | .vu1Data => vu1DataBase

def Vu.size : Vu → Word
  | .vu0Code => vu0CodeSize
  | .vu0Data => vu0DataSize
  | .vu1Code => vu1CodeSize
  | .vu1Data => vu1DataSize

/-- The part `mapRange` of `mapVuMemory`: the offset in one of the memories. -/
def Vu.mapRange (v : Vu) (physAddr size : Word) : Option Word :=
  if physAddr < v.base then none
  else
    let offset := physAddr - v.base
    if v.size ≤ offset ∨ v.size - offset < size then none else some offset

def mapVuMemory (physAddr size : Word) : Option (Vu × Word) :=
  [Vu.vu0Code, .vu0Data, .vu1Code, .vu1Data].findSome? fun v =>
    (v.mapRange physAddr size).map fun offset => (v, offset)

/-- The memories of bytes. -/
inductive Region
  | scratchpad | rdram | vu (v : Vu)
  deriving DecidableEq, Repr

def Region.limit : Region → Word
  | .scratchpad => scratchpadSize
  | .rdram => ramSize
  | .vu v => v.size

def Region.name : Region → String
  | .scratchpad => "scratchpad"
  | .rdram => "rdram"
  | .vu _ => "vu"

/-- What an address leads to. -/
inductive Place
  | memory (r : Region) (offset : Word)
  | other (physAddr : Word)
  deriving DecidableEq, Repr

/-- How all reads and writes start: the scratchpad, main memory, then the vector units. -/
def locate (tlbEntries : List TlbEntry) (address size : Word) : Except Fault Place := do
  let scratch := isScratchpad address
  let physAddr ← translateAddress tlbEntries address
  if scratch then return .memory .scratchpad physAddr
  if physAddr < ramSize then return .memory .rdram physAddr
  match mapVuMemory physAddr size with
  | some (v, offset) => return .memory (.vu v) offset
  | none => return .other physAddr

/-- The privileged registers of the GS but for CSR. -/
inductive GsReg
  | pmode | smode1 | smode2 | srfsh | synch1 | synch2 | syncv | dispfb1 | display1 | dispfb2
  | display2 | extbuf | extdata | extwrite | bgcolor | imr | busdir | siglblid
  deriving DecidableEq, Repr

def gsRegOffsets : List (Word × GsReg) :=
  [(0x0000, .pmode), (0x0010, .smode1), (0x0020, .smode2), (0x0030, .srfsh), (0x0040, .synch1),
    (0x0050, .synch2), (0x0060, .syncv), (0x0070, .dispfb1), (0x0080, .display1), (0x0090, .dispfb2),
    (0x00A0, .display2), (0x00B0, .extbuf), (0x00C0, .extdata), (0x00D0, .extwrite),
    (0x00E0, .bgcolor), (0x1010, .imr), (0x1040, .busdir), (0x1080, .siglblid)]

def gsRegOff (addr : Word) : Word := (addr - gsPrivRegBase) &&& ~~~0x7

def gsRegPtr (addr : Word) : Option GsReg := gsRegOffsets.lookup (gsRegOff addr)

def kGsCsrRegOffset : Word := 0x1000

/-- `PS2Memory`. The state `D` is what lies behind the registers of the devices. -/
structure Ps2Memory (D : Type) where
  rdram : Bytes.Memory
  scratchpad : Bytes.Memory
  vu : Vu → Bytes.Memory
  vu1CodeGeneration : ℕ
  tlbEntries : List TlbEntry
  gs : GsReg → BitVec 64
  csr : BitVec 64
  ioRegisters : Word → Option Word
  devices : D

/-- A call may throw, and keeps what it did until then. -/
abbrev MemM (D : Type) := EStateM Fault (Ps2Memory D)

/-- **The devices**: what their registers do. The IPU answers to registers only, and so do its
FIFOs (`0x10007000` and `0x10007010`). -/
structure Devices (D : Type) where
  readIORegister : Word → MemM D Word
  writeIORegister : Word → Word → MemM D Unit
  /-- `ps2_ipu::isRegister` -/
  isRegister : Word → Bool
  /-- `ps2_ipu::isFifo` -/
  isFifo : Word → Bool
  /-- `ps2_ipu::readFifo128` and `syncIpuChannels` -/
  readFifo128 : Word → MemM D (BitVec 128)
  writeFifo128 : Word → BitVec 128 → MemM D Unit
  /-- `SignalException` with the address error of a load or of a store -/
  signalException : (store : Bool) → Ps2Memory D → Ps2Memory D
  drainCompletedDmacHandlers : MemM D Unit
  isRegister_io : ∀ addr, isRegister addr = true → isIoRegister addr = true
  isFifo_io : ∀ addr, isFifo addr = true → isIoRegister addr = true

namespace Ps2Memory

variable {D : Type} (m : Ps2Memory D)

def bytes : Region → Bytes.Memory
  | .scratchpad => m.scratchpad
  | .rdram => m.rdram
  | .vu v => m.vu v

def setBytes (r : Region) (b : Bytes.Memory) : Ps2Memory D :=
  match r with
  | .scratchpad => { m with scratchpad := b }
  | .rdram => { m with rdram := b }
  | .vu v => { m with vu := fun u => if u = v then b else m.vu u }

end Ps2Memory

/-! ### `PS2Memory` -/

section

variable {D : Type}

def located (address size : Word) : MemM D Place := do
  match locate (← get).tlbEntries address size with
  | .ok place => return place
  | .error e => throw e

def inRange (offset : Word) (n : ℕ) (r : Region) (op : String) (address : Word) : MemM D Unit := do
  if r.limit.toNat < offset.toNat + n then throw (.outOfBounds (op ++ " " ++ r.name) address)

def loadScalar (n : ℕ) (r : Region) (offset : Word) (op : String) (address : Word) : MemM D (BitVec (8 * n)) := do
  inRange offset n r op address
  return .ofNat _ (Bytes.load ((← get).bytes r) offset.toNat n)

def storeScalar (n : ℕ) (r : Region) (offset : Word) (value : BitVec (8 * n)) (op : String)
    (address : Word) : MemM D Unit := do
  inRange offset n r op address
  modify fun m => m.setBytes r (Bytes.store (m.bytes r) offset.toNat value.toNat n)

def markVU1CodeModified : MemM D Unit :=
  modify fun m => { m with vu1CodeGeneration := m.vu1CodeGeneration + 1 }

/-- Whether an address is a multiple of the width, in the words of the source. -/
def checkAligned (lowBits : Word) (op : String) (address : Word) : MemM D Unit := do
  if address &&& lowBits ≠ 0 then throw (.unaligned op address)

def writeCsrHalf (csr : BitVec 64) (off value : Word) : BitVec 64 :=
  if off = 0 then
    let oldLow : Word := csr.setWidth 32
    let mergedLow := (oldLow &&& 0x3) ||| (value &&& ~~~0x3)
    let desired := (csr &&& 0xFFFFFFFF00000000) ||| mergedLow.setWidth 64
    desired &&& ~~~((value &&& 0x3).setWidth 64)
  else
    let mask := (0xFFFFFFFF : BitVec 64) <<< (off * 8)
    (csr &&& ~~~mask) ||| (value.setWidth 64 <<< (off * 8))

def writeCsrFull (csr value : BitVec 64) : BitVec 64 :=
  ((csr &&& 0x3) ||| (value &&& ~~~0x3)) &&& ~~~(value &&& 0x3)

/-- The value of a privileged register of the GS. -/
def gsRead (address : Word) : MemM D (BitVec 64) := do
  let m ← get
  if gsRegOff address = kGsCsrRegOffset then return m.csr
  else
    match gsRegPtr address with
    | some reg => return m.gs reg
    | none => return 0

/-- A privileged register of the GS but for CSR is changed. -/
def gsModify (address : Word) (f : BitVec 64 → BitVec 64) : MemM D Unit := do
  match gsRegPtr address with
  | some reg => modify fun m => { m with gs := fun r => if r = reg then f (m.gs reg) else m.gs r }
  | none => return ()

namespace Devices

variable (d : Devices D)

def read8 (address : Word) : MemM D (BitVec 8) := do
  match ← located address 1 with
  | .memory r offset => return (← get).bytes r offset.toNat
  | .other physAddr =>
    if isIoRegister physAddr then
      let value ← d.readIORegister (physAddr &&& ~~~0x3)
      let shift := (physAddr &&& 3) * 8
      return (value >>> shift).setWidth 8
    else return 0

def read16 (address : Word) : MemM D (BitVec 16) := do
  checkAligned 1 "Unaligned 16-bit read" address
  match ← located address 2 with
  | .memory r offset => loadScalar 2 r offset "read16" address
  | .other physAddr =>
    if isIoRegister physAddr then
      let value ← d.readIORegister (physAddr &&& ~~~0x3)
      let shift := (physAddr &&& 2) * 8
      return (value >>> shift).setWidth 16
    else return 0

def read32 (address : Word) : MemM D (BitVec 32) := do
  checkAligned 3 "Unaligned 32-bit read" address
  if isGsPrivReg address then
    let off := address &&& 7
    return ((← gsRead address) >>> (off * 8)).setWidth 32
  match ← located address 4 with
  | .memory r offset => loadScalar 4 r offset "read32" address
  | .other physAddr => if isIoRegister physAddr then d.readIORegister physAddr else return 0

def read64 (address : Word) : MemM D (BitVec 64) := do
  checkAligned 7 "Unaligned 64-bit read" address
  if isGsPrivReg address then return ← gsRead address
  match ← located address 8 with
  | .memory r offset => loadScalar 8 r offset "read64" address
  | .other _ =>
    if d.isRegister address then
      let lo ← d.readIORegister address
      let hi ← d.readIORegister (address + 4)
      return lo.setWidth 64 ||| (hi.setWidth 64 <<< 32)
    else if isIoRegister address then
      let m ← get
      let lo := (m.ioRegisters address).getD 0
      let hi := (m.ioRegisters (address + 4)).getD 0
      return lo.setWidth 64 ||| (hi.setWidth 64 <<< 32)
    else
      let lo ← d.read32 address
      let hi ← d.read32 (address + 4)
      return lo.setWidth 64 ||| (hi.setWidth 64 <<< 32)

def read128 (address : Word) : MemM D (BitVec 128) := do
  checkAligned 15 "Unaligned 128-bit read" address
  match ← located address 16 with
  | .memory r offset => loadScalar 16 r offset "read128" address
  | .other physAddr => if d.isFifo physAddr then d.readFifo128 physAddr else return 0

/-- Some bits of a register are written: the rest is as it was. -/
def writeIoBits (regAddr mask value : Word) : MemM D Unit := do
  let old := ((← get).ioRegisters regAddr).getD 0
  d.writeIORegister regAddr ((old &&& mask) ||| value)

/-- The last part of `write8`. Main memory and the scratchpad come here too. -/
def writeIo8 (physAddr : Word) (value : BitVec 8) : MemM D Unit := do
  if isIoRegister physAddr then
    let shift := (physAddr &&& 3) * 8
    d.writeIoBits (physAddr &&& ~~~0x3) (~~~((0xFF : Word) <<< shift)) (value.setWidth 32 <<< shift)

def write8 (address : Word) (value : BitVec 8) : MemM D Unit := do
  match ← located address 1 with
  | .memory (.vu v) offset =>
    modify fun m => m.setBytes (.vu v) (Bytes.store (m.vu v) offset.toNat value.toNat 1)
    if v = .vu1Code then markVU1CodeModified
  | .memory r physAddr =>
    modify fun m => m.setBytes r (Bytes.store (m.bytes r) physAddr.toNat value.toNat 1)
    d.writeIo8 physAddr value
  | .other physAddr => d.writeIo8 physAddr value

def writeIo16 (physAddr : Word) (value : BitVec 16) : MemM D Unit := do
  if isIoRegister physAddr then
    let shift := (physAddr &&& 2) * 8
    d.writeIoBits (physAddr &&& ~~~0x3) (~~~((0xFFFF : Word) <<< shift)) (value.setWidth 32 <<< shift)

/-- The memory part of the writes, and what comes after it. -/
def storeAt (n : ℕ) (op : String) (address : Word) (value : BitVec (8 * n))
    (writeIo : Word → MemM D Unit) : MemM D Unit := do
  match ← located address (.ofNat 32 n) with
  | .memory (.vu v) offset =>
    storeScalar n (.vu v) offset value op address
    if v = .vu1Code then markVU1CodeModified
  | .memory r physAddr =>
    storeScalar n r physAddr value op address
    writeIo physAddr
  | .other physAddr => writeIo physAddr

def write16 (address : Word) (value : BitVec 16) : MemM D Unit := do
  checkAligned 1 "Unaligned 16-bit write" address
  storeAt 2 "write16" address value fun physAddr => d.writeIo16 physAddr value

def write32 (address value : Word) : MemM D Unit := do
  checkAligned 3 "Unaligned 32-bit write" address
  if isGsPrivReg address then
    let off := address &&& 7
    if gsRegOff address = kGsCsrRegOffset then
      modify fun m => { m with csr := writeCsrHalf m.csr off value }
    else
      let mask := (0xFFFFFFFF : BitVec 64) <<< (off * 8)
      gsModify address fun reg => (reg &&& ~~~mask) ||| (value.setWidth 64 <<< (off * 8))
  else
    storeAt 4 "write32" address value fun physAddr => do
      if isIoRegister physAddr then d.writeIORegister physAddr value

def write64 (address : Word) (value : BitVec 64) : MemM D Unit := do
  checkAligned 7 "Unaligned 64-bit write" address
  if isGsPrivReg address then
    if gsRegOff address = kGsCsrRegOffset then
      modify fun m => { m with csr := writeCsrFull m.csr value }
    else gsModify address fun _ => value
  else
    storeAt 8 "write64" address value fun physAddr => do
      if isIoRegister physAddr then
        d.write32 address (value.setWidth 32)
        d.write32 (address + 4) ((value >>> 32).setWidth 32)

def write128 (address : Word) (value : BitVec 128) : MemM D Unit := do
  checkAligned 15 "Unaligned 128-bit write" address
  storeAt 16 "write128" address value fun physAddr => do
    if d.isFifo physAddr then d.writeFifo128 physAddr value
    else if isIoRegister physAddr then
      d.write64 address (value.setWidth 64)
      d.write64 (address + 8) ((value >>> 64).setWidth 64)

end Devices

end

/-! ### The fast path -/

def fastRangeIsContiguous (offset bytes : Word) : Bool := offset ≤ ramSize - bytes

def ps2FastRead8 (rdram : Bytes.Memory) (addr : Word) : BitVec 8 := rdram (addr &&& ramMask).toNat

/-- `Ps2FastRead16` and its siblings: `n` bytes, around the end of the memory if they lie so. -/
def ps2FastRead (n : ℕ) (rdram : Bytes.Memory) (addr : Word) : BitVec (8 * n) :=
  let offset := addr &&& ramMask
  if !fastRangeIsContiguous offset (.ofNat 32 n) then
    let wrapped : Bytes.Memory := fun i => rdram ((offset + .ofNat 32 i) &&& ramMask).toNat
    .ofNat _ (Bytes.load wrapped 0 n)
  else .ofNat _ (Bytes.load rdram offset.toNat n)

def ps2FastWrite8 (rdram : Bytes.Memory) (addr : Word) (value : BitVec 8) : Bytes.Memory :=
  Bytes.store rdram (addr &&& ramMask).toNat value.toNat 1

/-- `Ps2FastWrite16` and its siblings. -/
def ps2FastWrite (n : ℕ) (rdram : Bytes.Memory) (addr : Word) (value : BitVec (8 * n)) :
    Bytes.Memory :=
  let offset := addr &&& ramMask
  if !fastRangeIsContiguous offset (.ofNat 32 n) then
    (List.range n).foldl
      (fun rdram i => Bytes.store rdram ((offset + .ofNat 32 i) &&& ramMask).toNat (value.toNat / 256 ^ i) 1) rdram
  else Bytes.store rdram offset.toNat value.toNat n

def ps2FastRead16 : Bytes.Memory → Word → BitVec 16 := ps2FastRead 2

def ps2FastRead32 : Bytes.Memory → Word → BitVec 32 := ps2FastRead 4

def ps2FastRead64 : Bytes.Memory → Word → BitVec 64 := ps2FastRead 8

def ps2FastRead128 : Bytes.Memory → Word → BitVec 128 := ps2FastRead 16

def ps2FastWrite16 : Bytes.Memory → Word → BitVec 16 → Bytes.Memory := ps2FastWrite 2

def ps2FastWrite32 : Bytes.Memory → Word → BitVec 32 → Bytes.Memory := ps2FastWrite 4

def ps2FastWrite64 : Bytes.Memory → Word → BitVec 64 → Bytes.Memory := ps2FastWrite 8

def ps2FastWrite128 : Bytes.Memory → Word → BitVec 128 → Bytes.Memory := ps2FastWrite 16

/-! ### All widths -/

inductive Width
  | w8 | w16 | w32 | w64 | w128
  deriving DecidableEq, Repr

namespace Width

def bytes : Width → ℕ
  | .w8 => 1
  | .w16 => 2
  | .w32 => 4
  | .w64 => 8
  | .w128 => 16

def fastRead : (w : Width) → Bytes.Memory → Word → BitVec (8 * w.bytes)
  | .w8 => ps2FastRead8
  | .w16 => ps2FastRead16
  | .w32 => ps2FastRead32
  | .w64 => ps2FastRead64
  | .w128 => ps2FastRead128

def fastWrite : (w : Width) → Bytes.Memory → Word → BitVec (8 * w.bytes) → Bytes.Memory
  | .w8 => ps2FastWrite8
  | .w16 => ps2FastWrite16
  | .w32 => ps2FastWrite32
  | .w64 => ps2FastWrite64
  | .w128 => ps2FastWrite128

end Width

namespace Devices

variable {D : Type} (d : Devices D)

/-- `PS2Memory::read8` to `PS2Memory::read128` -/
def read : (w : Width) → Word → MemM D (BitVec (8 * w.bytes))
  | .w8 => d.read8
  | .w16 => d.read16
  | .w32 => d.read32
  | .w64 => d.read64
  | .w128 => d.read128

def write : (w : Width) → Word → BitVec (8 * w.bytes) → MemM D Unit
  | .w8 => d.write8
  | .w16 => d.write16
  | .w32 => d.write32
  | .w64 => d.write64
  | .w128 => d.write128

/-- `PS2Runtime::Load8` to `PS2Runtime::Load128` -/
def load (w : Width) (vaddr : Word) : MemM D (BitVec (8 * w.bytes)) := fun m =>
  match d.read w vaddr m with
  | .ok v m => .ok v m
  | .error _ m => .ok 0 (d.signalException false m)

/-- `PS2Runtime::Store8` to `PS2Runtime::Store128`. A store of 32 bits runs the handlers of the
transfers that it completed. -/
def store (w : Width) (vaddr : Word) (value : BitVec (8 * w.bytes)) : MemM D Unit := fun m =>
  match (do d.write w vaddr value; if w = .w32 then d.drainCompletedDmacHandlers : MemM D Unit) m with
  | .ok _ m => .ok () m
  | .error _ m => .ok () (d.signalException true m)

/-- `READ8` to `READ128` -/
def readMacro (w : Width) (addr : Word) : MemM D (BitVec (8 * w.bytes)) := do
  if ps2IsSpecialAddress addr then d.load w addr else return w.fastRead (← get).rdram addr

/-- `WRITE8` to `WRITE128` -/
def writeMacro (w : Width) (addr : Word) (value : BitVec (8 * w.bytes)) : MemM D Unit := do
  if ps2IsSpecialAddress addr then d.store w addr value
  else modify fun m => { m with rdram := w.fastWrite m.rdram addr value }

end Devices

/-! ### Where an access goes -/

inductive Target
  | memory (r : Region) (offset : Word)
  | io
  | gs
  | nothing
  deriving DecidableEq, Repr

/-- **Where `PS2Memory` sends an access.** The registers of the GS are looked for before the address
is translated, and only by the accesses of 32 and 64 bits. -/
def target (tlbEntries : List TlbEntry) (w : Width) (address : Word) : Except Fault Target :=
  if (w = .w32 ∨ w = .w64) ∧ isGsPrivReg address = true then .ok .gs
  else
    (locate tlbEntries address (.ofNat 32 w.bytes)).map fun
      | .memory r offset => .memory r offset
      | .other physAddr => if isIoRegister physAddr then .io else .nothing

end Ps2Recomp.Memory
