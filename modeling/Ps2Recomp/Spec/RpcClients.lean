import Ps2Recomp.Spec.SifRpc

/-!
# Binding and calling

`SifInitRpc`, `SifBindRpc`, and the two ends of `SifCallRpc`: what it does before a call is handled, and the
reply behind it. Reply packets and servers for unknown services are slots of two pools that are handed out in
turn. What handles a call (the IOP's services, functions of the guest) is a step of its own: it writes memory,
and it may make calls itself.

`Ties` notes which service each client was bound to and whose last bind or call is complete, and
`ClientsValid` is what shall hold of them.
-/

namespace Ps2Recomp.SifRpc

open VSync

def kRpcPacketSize : Word := 64

def kRpcPacketPoolBase : Word := 0x01F00000

def kRpcPacketPoolCount : Word := 0x00010000 / kRpcPacketSize

def kRpcServerPoolBase : Word := 0x01F10000

def kRpcServerStride : Word := 0x80

def kRpcServerPoolCount : Word := 0x00010000 / kRpcServerStride

/-- `rpcZeroRdram`, below its limit of a megabyte. It ends at an address that does not resolve. -/
def rpcZeroRdram (spr : Bool) (dst : Word) : ℕ → GuestMemory → GuestMemory
  | 0, m => m
  | size + 1, m =>
    match getMemPtr spr dst with
    | none => m
    | some p => rpcZeroRdram spr (dst + 1) size (m.setArea p.scratch (Bytes.store (m.area p.scratch) p.offset 0 1))

/-- The slot of the pool that is handed out at an index. -/
def packetAt (index : Word) : Word := kRpcPacketPoolBase + index % kRpcPacketPoolCount * kRpcPacketSize

def slotAt (index : Word) : Word := kRpcServerPoolBase + index % kRpcServerPoolCount * kRpcServerStride

namespace Packet

/-- The words of a packet that the library looks at. -/
abbrev ready : ℕ := 4
abbrev rpcId : ℕ := 6
abbrev owner : ℕ := 7

end Packet

namespace RpcState

variable (s : RpcState)

def rpcAllocPacketAddr : RpcState × Word :=
  let addr := packetAt s.packetIndex
  ({ s with
      packetIndex := s.packetIndex + 1
      memory := rpcZeroRdram s.scratchpadMapped addr kRpcPacketSize.toNat s.memory }, addr)

def rpcAllocServerAddr : RpcState × Word :=
  let addr := slotAt s.serverIndex
  ({ s with
      serverIndex := s.serverIndex + 1
      memory := rpcZeroRdram s.scratchpadMapped addr kRpcServerStride.toNat s.memory }, addr)

/-- `g_rpc_clients.find` -/
def findClient (c : Word) : Option RpcClientState := s.clients.lookup c

/-- `g_rpc_clients[c] = v;` -/
def putClient (c : Word) (v : RpcClientState) : RpcState :=
  { s with clients := (c, v) :: s.clients.filter fun e => e.1 ≠ c }

/-- The reply packet behind a bind or a call. -/
def reply (clientPtr : Word) (client : HostPtr) : RpcState :=
  let (s, pkt) := s.rpcAllocPacketAddr
  if pkt = 0 then s
  else
    let m :=
      match s.ptr pkt with
      | none => s.memory
      | some p =>
        setWords s.memory p
          [(Packet.ready, 1), (Packet.rpcId, word s.memory client Client.rpcId), (Packet.owner, clientPtr)]
    { s with memory := setWord m client Client.pktAddr pkt }

end RpcState

/-- `SifInitRpc`, without the states of the services. -/
def sifInitRpc (s : RpcState) : RpcState :=
  if s.initialized then s
  else
    { s with
      servers := fun _ => none
      clients := []
      nextId := 1
      packetIndex := 0
      serverIndex := 0
      activeQueue := 0
      initialized := true }

/-- The server of a service that nobody has registered. -/
def dummyServer (s : RpcState) (rpcId : Word) : RpcState × Word :=
  let (s, serverPtr) := s.rpcAllocServerAddr
  if serverPtr = 0 then (s, 0)
  else
    let m :=
      match s.ptr serverPtr with
      | none => s.memory
      | some dummy => setWords s.memory dummy ((List.range 17).map (·, 0) ++ [(Server.sid, rpcId)])
    ({ s with memory := m, servers := Function.update s.servers rpcId (some serverPtr) }, serverPtr)

/-- `SifBindRpc`, without the semaphore that it signals in the end. -/
def sifBindRpc (s : RpcState) (clientPtr rpcId mode : Word) : RpcState × Word :=
  match s.ptr clientPtr with
  | none => (s, -1)
  | some client =>
    let m := setWords s.memory client
      [(Client.command, 0), (Client.buf, 0), (Client.cbuf, 0), (Client.endFunction, 0), (Client.endParam, 0),
        (Client.server, 0), (Client.pktAddr, 0), (Client.semaId, -1), (Client.mode, mode),
        (Client.rpcId, s.nextId)]
    let s := { s with memory := m, nextId := s.nextId + 1 }.putClient clientPtr { sid := rpcId }
    let known := (s.servers rpcId).getD 0
    let (s, serverPtr) := if known = 0 then dummyServer s rpcId else (s, known)
    let m :=
      if serverPtr ≠ 0 then
        match s.ptr serverPtr with
        | none => setWords s.memory client [(Client.server, serverPtr), (Client.buf, 0), (Client.cbuf, 0)]
        | some sd =>
          let m := setWord s.memory client Client.server serverPtr
          let m := setWord m client Client.buf (word m sd Server.buf)
          setWord m client Client.cbuf (word m sd Server.cbuf)
      else setWords s.memory client [(Client.server, 0), (Client.buf, 0), (Client.cbuf, 0)]
    ({ s with memory := m }.reply clientPtr client, 0)

/-- What `SifCallRpc` decodes from registers and stack. -/
structure CallArgs where
  clientPtr : Word
  rpcNum : Word
  mode : Word
  sendSize : Word
  recvBuf : Word
  recvSize : Word
  endFunc : Word
  endParam : Word
  deriving DecidableEq, Repr

def kSifRpcModeNowait : Word := 0x01

/-- `SifCallRpc` before the call is handled; `none` where there is no client. -/
def beginCall (s : RpcState) (a : CallArgs) : Option RpcState :=
  match s.ptr a.clientPtr with
  | none => none
  | some client =>
    let m := setWords s.memory client
      [(Client.command, a.rpcNum), (Client.endFunction, a.endFunc), (Client.endParam, a.endParam),
        (Client.mode, a.mode)]
    let entry : RpcClientState := { (s.findClient a.clientPtr).getD {} with busy := true, lastRpc := a.rpcNum }
    let s := { s with memory := m }.putClient a.clientPtr entry
    let mapped := if entry.sid ≠ 0 then (s.servers entry.sid).getD 0 else 0
    let m :=
      if mapped ≠ 0 ∧ word s.memory client Client.server ≠ mapped then
        setWord s.memory client Client.server mapped
      else s.memory
    let serverPtr := word m client Client.server
    let m :=
      if serverPtr = 0 then m
      else
        match s.ptr serverPtr with
        | none => m
        | some sd =>
          setWords m sd
            [(Server.client, a.clientPtr), (Server.pktAddr, word m client Client.pktAddr),
              (Server.rpcNumber, a.rpcNum), (Server.size, a.sendSize), (Server.recvbuf, a.recvBuf),
              (Server.rsize, a.recvSize),
              (Server.rmode, if (a.mode &&& kSifRpcModeNowait) ≠ 0 ∧ a.endFunc = 0 then 0 else 1),
              (Server.rid, 0)]
    some { s with memory := m }

/-- `SifCallRpc` behind the handling of the call. -/
def endCall (s : RpcState) (clientPtr : Word) : RpcState :=
  match s.ptr clientPtr with
  | none => s
  | some client =>
    let s := s.reply clientPtr client
    s.putClient clientPtr { (s.findClient clientPtr).getD {} with busy := false }

/-! ### Runs -/

inductive RpcKind
  | client | server | queue | packet | slot
  deriving DecidableEq, Repr

def RpcKind.words : RpcKind → ℕ
  | client => 10
  | server => 17
  | queue => 6
  | packet => 16
  | slot => 32

/-- The service each client was bound to, whose last bind or call is complete, and whose calls are handled. -/
structure Ties where
  bound : Word → Option Word
  settled : Word → Bool
  pending : List Word

def Ties.empty : Ties := ⟨fun _ => none, fun _ => false, []⟩

/-- A step of a run: one of the four calls or an end of one, or what happens while a call is handled. -/
inductive ClientStep
  | init
  | bind (clientPtr rpcId mode : Word)
  | register (sdPtr sid func buf sp : Word)
  | beginCall (a : CallArgs)
  | endCall (clientPtr : Word)
  | allocHandle
  | write (m : GuestMemory)

namespace ClientStep

def run (s : RpcState) : ClientStep → RpcState
  | init => sifInitRpc s
  | bind clientPtr rpcId mode => (sifBindRpc s clientPtr rpcId mode).1
  | register sdPtr sid func buf sp => (sifRegisterRpc s sdPtr sid func buf sp).1
  | beginCall a => (SifRpc.beginCall s a).getD s
  | endCall clientPtr => SifRpc.endCall s clientPtr
  | allocHandle => s.rpcAllocServerAddr.1
  | write m => { s with memory := m }

def note (t : Ties) : ClientStep → Ties
  | bind clientPtr rpcId _ =>
    { t with
      bound := Function.update t.bound clientPtr (some rpcId)
      settled := Function.update t.settled clientPtr true }
  | beginCall a =>
    { t with settled := Function.update t.settled a.clientPtr false, pending := a.clientPtr :: t.pending }
  | endCall clientPtr =>
    { t with settled := Function.update t.settled clientPtr true, pending := t.pending.erase clientPtr }
  | _ => t

end ClientStep

variable {spr : Bool} (L : Layout RpcKind.words spr)

/-- The records of the pools are where the pools are. -/
def Layout.HasPools : Prop :=
  (∀ index, L.kind (packetAt index) = some .packet) ∧ ∀ index, L.kind (slotAt index) = some .slot

/-- A record that a client may have as its server. -/
def Layout.IsServer (p : Word) : Prop := L.kind p = some .server ∨ L.kind p = some .slot

/-- The links of queues and servers lead to servers. -/
def Layout.Linked (m : GuestMemory) : Prop :=
  (∀ q, L.kind q = some .queue → field spr m q Queue.link = 0 ∨ L.kind (field spr m q Queue.link) = some .server) ∧
    ∀ p, L.kind p = some .server → field spr m p Server.link = 0 ∨ L.kind (field spr m p Server.link) = some .server

/-- Memory in which the words that tie clients, packets and servers are the same. -/
def Layout.KeepsTies (m m' : GuestMemory) : Prop :=
  (∀ c, L.kind c = some .client → ∀ i ∈ [Client.pktAddr, Client.rpcId, Client.server],
      field spr m' c i = field spr m c i) ∧
    (∀ p, L.kind p = some .packet → ∀ i ∈ [Packet.ready, Packet.rpcId, Packet.owner],
      field spr m' p i = field spr m p i) ∧
    ∀ p, L.IsServer p → field spr m' p Server.sid = field spr m p Server.sid

/-- Steps on records of the right kinds. What handles a call keeps the words of the ties. -/
def ClientStep.OnRecords (s : RpcState) (t : Ties) : ClientStep → Prop
  | init => True
  | bind clientPtr _ _ => L.kind clientPtr = some .client
  | register sdPtr _ _ _ sp =>
    L.kind sdPtr = some .server ∧ (s.readStackU32 sp 0x18 = 0 ∨ L.kind (s.readStackU32 sp 0x18) = some .queue)
  | beginCall a =>
    L.kind a.clientPtr = some .client ∧ (t.bound a.clientPtr ≠ none ∨ field spr s.memory a.clientPtr Client.server = 0)
  | endCall clientPtr => clientPtr ∈ t.pending
  | allocHandle => True
  | write m => L.KeepsTies s.memory m ∧ L.Linked m

/-- No other client whose last bind or call is complete has the next packet. -/
def PacketFree (spr : Bool) (s : RpcState) (t : Ties) (clientPtr : Word) : Prop :=
  ∀ c, c ≠ clientPtr → t.settled c = true → field spr s.memory c Client.pktAddr ≠ packetAt s.packetIndex

/-- No bound client in `S` has the next slot for its server. -/
def SlotFree (spr : Bool) (s : RpcState) (t : Ties) (S : Word → Prop) : Prop :=
  ∀ c, S c → t.bound c ≠ none → field spr s.memory c Client.server ≠ slotAt s.serverIndex

/-- What keeps the clients' records: a slot is handed out only while no client (but the one that is bound or
called) has it, and a server is registered or found for no other service than that of the clients that have
it or get it. -/
def ClientStep.Keeps (spr : Bool) (s : RpcState) (t : Ties) : ClientStep → Prop
  | init => True
  | bind clientPtr rpcId _ =>
    PacketFree spr s t clientPtr ∧
      match s.servers rpcId with
      | none => SlotFree spr s t (· ≠ clientPtr)
      | some sd => sd ≠ 0 ∧ field spr s.memory sd Server.sid = rpcId
  | register sdPtr sid _ _ _ =>
    ∀ c id, t.bound c = some id →
      (field spr s.memory c Client.server = sdPtr ∨ ∃ e ∈ s.clients, e.1 = c ∧ e.2.sid = sid) → id = sid
  | beginCall a =>
    ∀ sid sd, (s.findClient a.clientPtr).map RpcClientState.sid = some sid → sid ≠ 0 → s.servers sid = some sd →
      field spr s.memory sd Server.sid = sid
  | endCall clientPtr => PacketFree spr s t clientPtr
  | allocHandle => SlotFree spr s t fun _ => True
  | write _ => True

/-- The states of a run from a state without clients, with their ties, where all steps satisfy `P`. -/
inductive ClientReach (P : RpcState → Ties → ClientStep → Prop) : RpcState → Ties → Prop
  | start (s : RpcState) (hspr : s.scratchpadMapped = spr) (hs : ∀ id, s.servers id = none) (hc : s.clients = [])
      (hm : L.Linked s.memory) : ClientReach P s .empty
  | step {s : RpcState} {t : Ties} (c : ClientStep) (h : ClientReach P s t) (hc : P s t c) :
      ClientReach P (c.run s) (c.note t)

/-- Every client whose last bind or call is complete has a packet that is ready, has the client's id and
belongs to it; and it has a server of the service it was bound to. -/
def ClientsValid (spr : Bool) (s : RpcState) (t : Ties) : Prop :=
  ∀ c, t.settled c = true →
    (∃ index, field spr s.memory c Client.pktAddr = packetAt index) ∧
      field spr s.memory (field spr s.memory c Client.pktAddr) Packet.ready = 1 ∧
      field spr s.memory (field spr s.memory c Client.pktAddr) Packet.rpcId = field spr s.memory c Client.rpcId ∧
      field spr s.memory (field spr s.memory c Client.pktAddr) Packet.owner = c ∧
      ∀ id, t.bound c = some id →
        field spr s.memory c Client.server ≠ 0 ∧ field spr s.memory (field spr s.memory c Client.server) Server.sid = id

end Ps2Recomp.SifRpc
