import Ps2Recomp.Spec.GuestHeap
import Ps2Recomp.Spec.SifRpc

/-!
# SJRMT streams

The ring of a remote stream joint (`SJRMT_*` in `RPC.cpp`): room at `writePos` and data at `readPos`, each
with a count of bytes, in the guest's memory from `wkAddr` on. Chunks of room are filled by the guest and put
back as data, chunks of data are read and put back as room.

A ledger beside a run keeps the chunks that are out and the bytes that went through the ring.
-/

namespace Ps2Recomp.Sjrmt

open VSync SifRpc
open GuestHeap (stdMin)

/-- `DtxSjrmtState`, without its handle, mode and identifier words. -/
structure DtxSjrmtState where
  wkAddr : Word
  wkSize : Word
  readPos : Word
  writePos : Word
  roomBytes : Word
  dataBytes : Word
  deriving DecidableEq, Repr

def dtxNormalizeSjrmtCapacity (requestedBytes : Word) : Word :=
  if requestedBytes = 0 ∨ 0x01000000 < requestedBytes then 0x4000 else requestedBytes

/-- `SJRMT_RBF_CREATE`, `SJRMT_MEM_CREATE` and `SJRMT_UNI_CREATE` -/
def create (urpcCommand arg0 arg1 arg2 : Word) : DtxSjrmtState :=
  let (wkAddr, wkSize) :=
    if urpcCommand = 34 then (arg1, arg2)
    else if urpcCommand = 33 then (arg0, arg1)
    else (arg0, if arg1 ≠ 0 then arg1 else arg2)
  let wkSize := dtxNormalizeSjrmtCapacity wkSize
  { wkAddr, wkSize, readPos := 0, writePos := 0, roomBytes := wkSize, dataBytes := 0 }

/-- A chunk that is handed out: its address and its length. -/
structure Chunk where
  ptr : Word
  len : Word
  deriving DecidableEq, Repr

namespace DtxSjrmtState

variable (s : DtxSjrmtState)

def cap : Word := if s.wkSize = 0 then 0x4000 else s.wkSize

/-- `SJRMT_RESET` -/
def reset : DtxSjrmtState := { s with readPos := 0, writePos := 0, roomBytes := s.cap, dataBytes := 0 }

/-- `SJRMT_GET_CHUNK` -/
def getChunk (streamId nbyte : Word) : DtxSjrmtState × Chunk :=
  if streamId = 0 then
    let len := stdMin nbyte s.roomBytes
    ({ s with writePos := (s.writePos + len) % s.cap, roomBytes := s.roomBytes - len },
      ⟨s.wkAddr + s.writePos % s.cap, len⟩)
  else if streamId = 1 then
    let len := stdMin nbyte s.dataBytes
    ({ s with readPos := (s.readPos + len) % s.cap, dataBytes := s.dataBytes - len },
      ⟨s.wkAddr + s.readPos % s.cap, len⟩)
  else (s, ⟨0, 0⟩)

/-- `SJRMT_UNGET_CHUNK` -/
def ungetChunk (streamId len : Word) : DtxSjrmtState :=
  let delta := len % s.cap
  if streamId = 0 then
    { s with
      writePos := (s.writePos + s.cap - delta) % s.cap
      roomBytes := stdMin s.cap (s.roomBytes + len) }
  else if streamId = 1 then
    { s with
      readPos := (s.readPos + s.cap - delta) % s.cap
      dataBytes := stdMin s.cap (s.dataBytes + len) }
  else s

/-- `SJRMT_PUT_CHUNK` -/
def putChunk (streamId len : Word) : DtxSjrmtState :=
  if streamId = 0 then { s with roomBytes := stdMin s.cap (s.roomBytes + len) }
  else if streamId = 1 then { s with dataBytes := stdMin s.cap (s.dataBytes + len) }
  else s

/-- `dtxConsumeSjrmtDataLocked`, on behalf of a PS2RNA that plays. -/
def consume : DtxSjrmtState :=
  if s.cap = 0 ∨ s.dataBytes = 0 then s
  else
    let consumed := stdMin s.cap s.dataBytes
    { s with
      readPos := (s.readPos + consumed) % s.cap
      dataBytes := s.dataBytes - consumed
      roomBytes := stdMin s.cap (s.roomBytes + consumed) }

end DtxSjrmtState

/-! ### Memory -/

/-- The byte at a guest address. -/
def byteAt (spr : Bool) (m : GuestMemory) (addr : Word) : BitVec 8 :=
  match getMemPtr spr addr with
  | some p => m.area p.scratch p.offset
  | none => 0

/-- `dtxCopyBytes` of one byte; `none` where an address does not resolve. -/
def dtxCopyByte (spr : Bool) (m : GuestMemory) (dstAddr srcAddr : Word) : Option GuestMemory :=
  match getMemPtr spr srcAddr, getMemPtr spr dstAddr with
  | some _, some dst =>
    some (m.setArea dst.scratch (Function.update (m.area dst.scratch) dst.offset (byteAt spr m srcAddr)))
  | _, _ => none

/-- The loop of `dtxAppendToSjrmtData`, with the bytes it copies. -/
def appendLoop (spr : Bool) (s : DtxSjrmtState) (srcDataAddr : Word) : ℕ → Word → GuestMemory →
    GuestMemory × List (BitVec 8)
  | 0, _, m => (m, [])
  | n + 1, i, m =>
    match dtxCopyByte spr m (s.wkAddr + (s.writePos + i) % s.cap) (srcDataAddr + i) with
    | none => (m, [])
    | some m' =>
      let (m'', bytes) := appendLoop spr s srcDataAddr n (i + 1) m'
      (m'', byteAt spr m (srcDataAddr + i) :: bytes)

/-- `dtxAppendToSjrmtData`, with the bytes it appends. -/
def dtxAppendToSjrmtData (spr : Bool) (m : GuestMemory) (s : DtxSjrmtState) (srcDataAddr requestedLen : Word) :
    GuestMemory × DtxSjrmtState × List (BitVec 8) :=
  if s.cap = 0 ∨ s.wkAddr = 0 ∨ s.roomBytes = 0 ∨ requestedLen = 0 then (m, s, [])
  else
    let (m', bytes) := appendLoop spr s srcDataAddr (stdMin requestedLen s.roomBytes).toNat 0 m
    let copiedLen : Word := BitVec.ofNat 32 bytes.length
    (m', { s with
      writePos := (s.writePos + copiedLen) % s.cap
      roomBytes := s.roomBytes - copiedLen
      dataBytes := stdMin s.cap (s.dataBytes + copiedLen) }, bytes)

/-! ### Runs -/

/-- The bytes in a chunk. -/
def Chunk.bytes (spr : Bool) (m : GuestMemory) (c : Chunk) : List (BitVec 8) :=
  (List.range c.len.toNat).map fun i => byteAt spr m (c.ptr + BitVec.ofNat 32 i)

/-- The chunks of room and of data that are out, the oldest first; the bytes that were put or appended as
data, and those that were handed out as data or consumed, since the stream was created or reset. -/
structure Ledger where
  rooms : List Chunk
  datas : List Chunk
  put : List (BitVec 8)
  taken : List (BitVec 8)

def Ledger.empty : Ledger := ⟨[], [], [], []⟩

/-- The bytes of some chunks together. -/
def size (l : List Chunk) : ℕ := (l.map fun c => c.len.toNat).sum

/-- The bytes of the ring that hold data: put and not put back as room. -/
def Ledger.holds (l : Ledger) (s : DtxSjrmtState) (j : ℕ) : Prop :=
  ∃ i, l.taken.length - size l.datas ≤ i ∧ i < l.put.length ∧ j = i % s.cap.toNat

structure State where
  memory : GuestMemory
  sj : DtxSjrmtState
  ledger : Ledger

/-- The commands on one handle, appends and consumption, and what the guest writes. -/
inductive Cmd
  | create (urpcCommand arg0 arg1 arg2 : Word)
  | reset
  | getChunk (streamId nbyte : Word)
  | ungetRoom (c : Chunk)
  | ungetData (c : Chunk)
  | putData (c : Chunk)
  | putRoom (c : Chunk)
  | append (srcDataAddr requestedLen : Word)
  | consume
  | write (m : GuestMemory)

/-- What a command does. A room chunk is put as data with the bytes that are in it. -/
def Cmd.run (spr : Bool) (s : State) : Cmd → State
  | create urpcCommand arg0 arg1 arg2 =>
    { s with sj := Sjrmt.create urpcCommand arg0 arg1 arg2, ledger := .empty }
  | reset => { s with sj := s.sj.reset, ledger := .empty }
  | getChunk streamId nbyte =>
    let (sj, c) := s.sj.getChunk streamId nbyte
    let ledger :=
      if streamId = 0 then { s.ledger with rooms := s.ledger.rooms ++ [c] }
      else if streamId = 1 then
        { s.ledger with datas := s.ledger.datas ++ [c], taken := s.ledger.taken ++ c.bytes spr s.memory }
      else s.ledger
    { s with sj, ledger }
  | ungetRoom c =>
    { s with sj := s.sj.ungetChunk 0 c.len, ledger := { s.ledger with rooms := s.ledger.rooms.dropLast } }
  | ungetData c =>
    { s with
      sj := s.sj.ungetChunk 1 c.len
      ledger := { s.ledger with
        datas := s.ledger.datas.dropLast
        taken := s.ledger.taken.take (s.ledger.taken.length - c.len.toNat) } }
  | putData c =>
    { s with
      sj := s.sj.putChunk 1 c.len
      ledger := { s.ledger with rooms := s.ledger.rooms.tail, put := s.ledger.put ++ c.bytes spr s.memory } }
  | putRoom c =>
    { s with sj := s.sj.putChunk 0 c.len, ledger := { s.ledger with datas := s.ledger.datas.tail } }
  | append srcDataAddr requestedLen =>
    let (m, sj, bytes) := dtxAppendToSjrmtData spr s.memory s.sj srcDataAddr requestedLen
    { memory := m, sj, ledger := { s.ledger with put := s.ledger.put ++ bytes } }
  | consume => { s with sj := s.sj.consume, ledger := { s.ledger with taken := s.ledger.put } }
  | write m => { s with memory := m }

/-- The bytes of the ring lie at different places of the host. -/
def Mapped (spr : Bool) (wkAddr wkSize : Word) : Prop :=
  (∀ i < wkSize.toNat, (getMemPtr spr (wkAddr + BitVec.ofNat 32 i)).isSome) ∧
    ∀ i < wkSize.toNat, ∀ j < wkSize.toNat,
      getMemPtr spr (wkAddr + BitVec.ofNat 32 i) = getMemPtr spr (wkAddr + BitVec.ofNat 32 j) → i = j

/-- The order of the commands: the newest chunk of a stream is ungot, the oldest one is put back; appends and
consumption come while no chunk is out; the guest leaves the data in the ring alone. -/
def Cmd.InOrder (spr : Bool) (s : State) : Cmd → Prop
  | create urpcCommand arg0 arg1 arg2 =>
    Mapped spr (Sjrmt.create urpcCommand arg0 arg1 arg2).wkAddr (Sjrmt.create urpcCommand arg0 arg1 arg2).wkSize
  | ungetRoom c => s.ledger.rooms.getLast? = some c
  | ungetData c => s.ledger.datas.getLast? = some c
  | putData c => s.ledger.rooms.head? = some c
  | putRoom c => s.ledger.datas.head? = some c
  | append _ _ => s.ledger.rooms = [] ∧ s.ledger.datas = []
  | consume => s.ledger.rooms = [] ∧ s.ledger.datas = []
  | write m =>
    ∀ j, s.ledger.holds s.sj j →
      byteAt spr m (s.sj.wkAddr + BitVec.ofNat 32 j) = byteAt spr s.memory (s.sj.wkAddr + BitVec.ofNat 32 j)
  | _ => True

/-- The bytes that `SJRMT_GET_CHUNK` finds do not go beyond the end of the ring. -/
def Cmd.Fits (s : State) : Cmd → Prop
  | getChunk streamId nbyte =>
    (streamId = 0 → s.sj.writePos.toNat + min nbyte.toNat s.sj.roomBytes.toNat ≤ s.sj.wkSize.toNat) ∧
      (streamId = 1 → s.sj.readPos.toNat + min nbyte.toNat s.sj.dataBytes.toNat ≤ s.sj.wkSize.toNat)
  | _ => True

/-- The states of a run that begins with a create, where all commands satisfy `P`. -/
inductive Reach (spr : Bool) (P : State → Cmd → Prop) : State → Prop
  | create (s : State) (urpcCommand arg0 arg1 arg2 : Word) (h : P s (.create urpcCommand arg0 arg1 arg2)) :
      Reach spr P ((Cmd.create urpcCommand arg0 arg1 arg2).run spr s)
  | cmd {s : State} (c : Cmd) (h : Reach spr P s) (hc : P s c) : Reach spr P (c.run spr s)

/-- The bytes of two chunks are different ones. -/
def Chunk.Apart (c d : Chunk) : Prop :=
  ∀ i < c.len.toNat, ∀ j < d.len.toNat, c.ptr + BitVec.ofNat 32 i ≠ d.ptr + BitVec.ofNat 32 j

/-- Bytes are conserved, chunks lie in the ring and apart, and data comes out as it went in. -/
structure Conserved (s : State) : Prop where
  total : s.sj.roomBytes.toNat + s.sj.dataBytes.toNat + (size s.ledger.rooms + size s.ledger.datas) = s.sj.wkSize.toNat
  inside : ∀ c ∈ s.ledger.rooms ++ s.ledger.datas, (c.ptr - s.sj.wkAddr).toNat + c.len.toNat ≤ s.sj.wkSize.toNat
  apart : (s.ledger.rooms ++ s.ledger.datas).Pairwise Chunk.Apart
  inOrder : s.ledger.taken <+: s.ledger.put

end Ps2Recomp.Sjrmt
