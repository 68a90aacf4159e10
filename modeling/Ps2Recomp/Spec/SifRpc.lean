import Ps2Recomp.Spec.VSync
import Ps2Recomp.Lib.Intrusive

/-!
# The records of the remote procedure calls

The HLE of the SIF library (`RPC.cpp`) keeps its servers, queues and clients in records of the guest's
memory, with the layouts of `State.h`: a record is named by a guest address, `getMemPtr` resolves its first
byte, and its fields lie behind it. Here are the records' fields, what the host keeps beside them, and the
four calls that edit the lists of queues and servers.

Debug events and log lines are left out.
-/

namespace Ps2Recomp.SifRpc

open Memory VSync

/-- A host pointer into main memory or into the scratchpad. -/
structure HostPtr where
  scratch : Bool
  offset : ℕ
  deriving DecidableEq, Repr

/-- `getMemPtr`, which is null where the scratchpad is not there yet. -/
def getMemPtr (scratchpadMapped : Bool) (addr : Word) : Option HostPtr :=
  let (scratch, offset) := ps2ResolveGuestPointer addr
  if scratch && !scratchpadMapped then none else some ⟨scratch, offset.toNat⟩

/-- The `i`-th word of the record at a host pointer. -/
def word (m : GuestMemory) (p : HostPtr) (i : ℕ) : Word :=
  BitVec.ofNat 32 (Bytes.load (m.area p.scratch) (p.offset + 4 * i) 4)

def setWord (m : GuestMemory) (p : HostPtr) (i : ℕ) (v : Word) : GuestMemory :=
  m.setArea p.scratch (Bytes.store (m.area p.scratch) (p.offset + 4 * i) v.toNat 4)

/-- Assignments to the fields of one record, one after the other. -/
def setWords (m : GuestMemory) (p : HostPtr) (l : List (ℕ × Word)) : GuestMemory :=
  l.foldl (fun m e => setWord m p e.1 e.2) m

/-! ### Fields

The position of each field among the words of its record: of `t_SifRpcClientData` behind its `hdr`, of
`t_SifRpcServerData` and of `t_SifRpcDataQueue`. -/

namespace Client

abbrev pktAddr : ℕ := 0
abbrev rpcId : ℕ := 1
abbrev semaId : ℕ := 2
abbrev mode : ℕ := 3
abbrev command : ℕ := 4
abbrev buf : ℕ := 5
abbrev cbuf : ℕ := 6
abbrev endFunction : ℕ := 7
abbrev endParam : ℕ := 8
abbrev server : ℕ := 9

end Client

namespace Server

abbrev sid : ℕ := 0
abbrev func : ℕ := 1
abbrev buf : ℕ := 2
abbrev size : ℕ := 3
abbrev cfunc : ℕ := 4
abbrev cbuf : ℕ := 5
abbrev size2 : ℕ := 6
abbrev client : ℕ := 7
abbrev pktAddr : ℕ := 8
abbrev rpcNumber : ℕ := 9
abbrev recvbuf : ℕ := 10
abbrev rsize : ℕ := 11
abbrev rmode : ℕ := 12
abbrev rid : ℕ := 13
abbrev link : ℕ := 14
abbrev next : ℕ := 15
abbrev base : ℕ := 16

end Server

namespace Queue

abbrev threadId : ℕ := 0
abbrev active : ℕ := 1
abbrev link : ℕ := 2
abbrev start : ℕ := 3
abbrev stop : ℕ := 4
abbrev next : ℕ := 5

end Queue

/-- The `i`-th word of the record at a guest address. -/
def field (spr : Bool) (m : GuestMemory) (p : Word) (i : ℕ) : Word :=
  match getMemPtr spr p with
  | some h => word m h i
  | none => 0

/-- Where the guest has records, each of some kind, that do not overlap. The null pointer names none. -/
structure Layout {κ : Type} (words : κ → ℕ) (spr : Bool) where
  kind : Word → Option κ
  ptr : Word → HostPtr
  ne_zero : ∀ {p k}, kind p = some k → p ≠ 0
  resolves : ∀ {p k}, kind p = some k → getMemPtr spr p = some (ptr p)
  apart : ∀ {p q k k'}, kind p = some k → kind q = some k' → p ≠ q → (ptr p).scratch = (ptr q).scratch →
    (ptr p).offset + 4 * words k ≤ (ptr q).offset ∨ (ptr q).offset + 4 * words k' ≤ (ptr p).offset

/-! ### State -/

/-- `RpcClientState` -/
structure RpcClientState where
  busy : Bool := false
  lastRpc : Word := 0
  sid : Word := 0
  deriving DecidableEq, Repr

/-- The guest's memory and the globals `g_rpc_*`. Of an entry of `g_rpc_servers` only `sd_ptr` is kept, the
other field being its key. -/
structure RpcState where
  memory : GuestMemory
  scratchpadMapped : Bool
  initialized : Bool
  servers : Word → Option Word
  clients : List (Word × RpcClientState)
  nextId : Word
  packetIndex : Word
  serverIndex : Word
  activeQueue : Word

namespace RpcState

variable (s : RpcState)

def ptr (addr : Word) : Option HostPtr := getMemPtr s.scratchpadMapped addr

/-- `readStackU32` into a variable that is zero. -/
def readStackU32 (sp offset : Word) : Word :=
  match s.ptr (sp + offset) with
  | some p => word s.memory p 0
  | none => 0

end RpcState

/-- `for (int guard = 0; guard < 1024 && curPtr; ++guard)` -/
def kListGuard : ℕ := 1024

/-! ### Queues -/

/-- The search of `SifSetRpcQueue` for the end of the list of queues. -/
def appendQueue (spr : Bool) (qdPtr : Word) : ℕ → Word → GuestMemory → GuestMemory
  | 0, _, m => m
  | guard + 1, curPtr, m =>
    if curPtr = 0 then m
    else if curPtr = qdPtr then m
    else
      match getMemPtr spr curPtr with
      | none => m
      | some cur =>
        if word m cur Queue.next = 0 then setWord m cur Queue.next qdPtr
        else appendQueue spr qdPtr guard (word m cur Queue.next) m

/-- The new state, and the result. -/
def sifSetRpcQueue (s : RpcState) (qdPtr threadId : Word) : RpcState × Word :=
  match s.ptr qdPtr with
  | none => (s, -1)
  | some qd =>
    let m := setWords s.memory qd
      [(Queue.threadId, threadId), (Queue.active, 0), (Queue.link, 0), (Queue.start, 0), (Queue.stop, 0),
        (Queue.next, 0)]
    if s.activeQueue = 0 then ({ s with memory := m, activeQueue := qdPtr }, 0)
    else ({ s with memory := appendQueue s.scratchpadMapped qdPtr kListGuard s.activeQueue m }, 0)

/-- The search of `SifRemoveRpcQueue` behind the head; `none` where the queue is not found. -/
def unlinkQueue (spr : Bool) (qdPtr : Word) : ℕ → Word → GuestMemory → Option GuestMemory
  | 0, _, _ => none
  | guard + 1, curPtr, m =>
    if curPtr = 0 then none
    else
      match getMemPtr spr curPtr with
      | none => none
      | some cur =>
        if word m cur Queue.next = qdPtr then
          some (setWord m cur Queue.next
            (match getMemPtr spr qdPtr with
              | some rem => word m rem Queue.next
              | none => 0))
        else unlinkQueue spr qdPtr guard (word m cur Queue.next) m

def sifRemoveRpcQueue (s : RpcState) (qdPtr : Word) : RpcState × Word :=
  if qdPtr = 0 then (s, 0)
  else if s.activeQueue = 0 then (s, 0)
  else if s.activeQueue = qdPtr then
    ({ s with
        activeQueue :=
          match s.ptr qdPtr with
          | some qd => word s.memory qd Queue.next
          | none => 0 }, qdPtr)
  else
    match unlinkQueue s.scratchpadMapped qdPtr kListGuard s.activeQueue s.memory with
    | some m => ({ s with memory := m }, qdPtr)
    | none => (s, 0)

/-! ### Servers -/

/-- The search of `SifRegisterRpc` for the end of a queue's list of servers. -/
def appendServer (spr : Bool) (sdPtr : Word) : ℕ → Word → GuestMemory → GuestMemory
  | 0, _, m => m
  | guard + 1, curPtr, m =>
    if curPtr = 0 then m
    else
      match getMemPtr spr curPtr with
      | none => m
      | some cur =>
        if word m cur Server.link = 0 then setWord m cur Server.link sdPtr
        else if word m cur Server.link = sdPtr then m
        else appendServer spr sdPtr guard (word m cur Server.link) m

/-- The arguments of `SifRegisterRpc`: four in registers, three on the stack. -/
structure RegisterArgs where
  sdPtr : Word
  sid : Word
  func : Word
  buf : Word
  cfunc : Word
  cbuf : Word
  qd : Word
  deriving DecidableEq, Repr

/-- The insertion of the server into the list of its queue. -/
def enlist (spr : Bool) (a : RegisterArgs) (m : GuestMemory) : GuestMemory :=
  if a.qd = 0 then m
  else
    match getMemPtr spr a.qd with
    | none => m
    | some queue =>
      if word m queue Queue.link = 0 then setWord m queue Queue.link a.sdPtr
      else appendServer spr a.sdPtr kListGuard (word m queue Queue.link) m

/-- The clients that are bound to the service get the new server. -/
def rebindClients (spr : Bool) (a : RegisterArgs) (sd : HostPtr) (clients : List (Word × RpcClientState))
    (m : GuestMemory) : GuestMemory :=
  clients.foldl (fun m e =>
    if e.2.sid = a.sid then
      match getMemPtr spr e.1 with
      | none => m
      | some cd =>
        let m := setWord m cd Client.server a.sdPtr
        let m := setWord m cd Client.buf (word m sd Server.buf)
        setWord m cd Client.cbuf (word m sd Server.cbuf)
    else m) m

/-- The fields that `SifRegisterRpc` gives the record. -/
def RegisterArgs.fields (a : RegisterArgs) : List (ℕ × Word) :=
  [(Server.sid, a.sid), (Server.func, a.func), (Server.buf, a.buf), (Server.size, 0), (Server.cfunc, a.cfunc),
    (Server.cbuf, a.cbuf), (Server.size2, 0), (Server.client, 0), (Server.pktAddr, 0), (Server.rpcNumber, 0),
    (Server.recvbuf, 0), (Server.rsize, 0), (Server.rmode, 0), (Server.rid, 0), (Server.base, a.qd),
    (Server.link, 0), (Server.next, 0)]

def registerRpc (s : RpcState) (a : RegisterArgs) : RpcState × Word :=
  match s.ptr a.sdPtr with
  | none => (s, -1)
  | some sd =>
    let m := setWords s.memory sd a.fields
    let m := enlist s.scratchpadMapped a m
    ({ s with
        memory := rebindClients s.scratchpadMapped a sd s.clients m
        servers := Function.update s.servers a.sid (some a.sdPtr) }, 0)

/-- What `SifRegisterRpc` reads from the registers `$a0` to `$a3` and from the stack. -/
def RpcState.registerArgs (s : RpcState) (sdPtr sid func buf sp : Word) : RegisterArgs :=
  { sdPtr, sid, func, buf
    cfunc := s.readStackU32 sp 0x10
    cbuf := s.readStackU32 sp 0x14
    qd := s.readStackU32 sp 0x18 }

def sifRegisterRpc (s : RpcState) (sdPtr sid func buf sp : Word) : RpcState × Word :=
  registerRpc s (s.registerArgs sdPtr sid func buf sp)

/-- The search of `SifRemoveRpc` behind the head; `none` where the server is not found. -/
def unlinkServer (spr : Bool) (sdPtr : Word) : ℕ → Word → GuestMemory → Option GuestMemory
  | 0, _, _ => none
  | guard + 1, curPtr, m =>
    if curPtr = 0 then none
    else
      match getMemPtr spr curPtr with
      | none => none
      | some cur =>
        if word m cur Server.link = sdPtr then
          some (match getMemPtr spr sdPtr with
            | some sd => setWord (setWord m cur Server.link (word m sd Server.link)) sd Server.link 0
            | none => setWord m cur Server.link 0)
        else unlinkServer spr sdPtr guard (word m cur Server.link) m

def sifRemoveRpc (s : RpcState) (sdPtr qdPtr : Word) : RpcState × Word :=
  match s.ptr qdPtr with
  | none => (s, 0)
  | some qd =>
    if sdPtr = 0 then (s, 0)
    else if word s.memory qd Queue.link = sdPtr then
      ({ s with
          memory :=
            match s.ptr sdPtr with
            | some sd => setWord (setWord s.memory qd Queue.link (word s.memory sd Server.link)) sd Server.link 0
            | none => setWord s.memory qd Queue.link 0 }, sdPtr)
    else
      match unlinkServer s.scratchpadMapped sdPtr kListGuard (word s.memory qd Queue.link) s.memory with
      | some m => ({ s with memory := m }, sdPtr)
      | none => (s, 0)

end Ps2Recomp.SifRpc

/-!
# Runs of the calls on RPC queues

A run of `SifSetRpcQueue`, `SifRegisterRpc`, `SifRemoveRpc` and `SifRemoveRpcQueue` (`Spec.SifRpc`) by a
guest that leaves the links of its records alone. A ledger beside it says which queues were set and which
servers were registered, and not removed since, in the order of their first insertion; `ListsMatch` is what
the lists in memory shall have to do with it.
-/

namespace Ps2Recomp.SifRpc

open Intrusive VSync

inductive Kind
  | client | server | queue
  deriving DecidableEq, Repr

/-- The size of a record. -/
def Kind.words : Kind → ℕ
  | client => 10
  | server => 17
  | queue => 6

/-- A pointer of the guest. -/
def toPtr (p : Word) : Option Word := if p = 0 then none else some p

/-- The queues: from `g_rpc_active_queue` through `next`. -/
def queueChain (spr : Bool) (m : GuestMemory) (activeQueue : Word) : Chain Word where
  head := toPtr activeQueue
  next := fun p => toPtr (field spr m p Queue.next)

/-- The servers of a queue: from its `link` through their `link`. -/
def serverChain (spr : Bool) (m : GuestMemory) (qd : Word) : Chain Word where
  head := toPtr (field spr m qd Queue.link)
  next := fun p => toPtr (field spr m p Server.link)

/-- A call on the queues, with its register arguments. -/
inductive Call
  | setRpcQueue (qdPtr threadId : Word)
  | registerRpc (sdPtr sid func buf sp : Word)
  | removeRpcQueue (qdPtr : Word)
  | removeRpc (sdPtr qdPtr : Word)
  deriving DecidableEq, Repr

def Call.run (s : RpcState) : Call → RpcState
  | setRpcQueue qdPtr threadId => (sifSetRpcQueue s qdPtr threadId).1
  | registerRpc sdPtr sid func buf sp => (sifRegisterRpc s sdPtr sid func buf sp).1
  | removeRpcQueue qdPtr => (sifRemoveRpcQueue s qdPtr).1
  | removeRpc sdPtr qdPtr => (sifRemoveRpc s sdPtr qdPtr).1

/-! ### Ledger -/

/-- The queues ever set, those set and not removed since, and for each queue the servers registered with it
and not removed since. -/
structure Ledger where
  known : List Word
  queues : List Word
  servers : Word → List Word

def Ledger.empty : Ledger := ⟨[], [], fun _ => []⟩

/-- A first insertion goes to the end; a repeated one changes nothing. -/
def inserted (l : List Word) (p : Word) : List Word := if p ∈ l then l else l ++ [p]

namespace Ledger

variable (l : Ledger)

def set (qd : Word) : Ledger := { l with known := inserted l.known qd, queues := inserted l.queues qd }

def register (sd qd : Word) : Ledger :=
  if qd = 0 then l else { l with servers := Function.update l.servers qd (inserted (l.servers qd) sd) }

def removeQueue (qd : Word) : Ledger := { l with queues := l.queues.erase qd }

def removeServer (sd qd : Word) : Ledger :=
  { l with servers := Function.update l.servers qd ((l.servers qd).erase sd) }

end Ledger

/-- The queue that a registration names on the stack. -/
def RpcState.qdArg (s : RpcState) (sp : Word) : Word := s.readStackU32 sp 0x18

/-- The ledger after a call that is made in the state `s`. -/
def Call.note (s : RpcState) (l : Ledger) : Call → Ledger
  | setRpcQueue qdPtr _ => l.set qdPtr
  | registerRpc sdPtr _ _ _ sp => l.register sdPtr (s.qdArg sp)
  | removeRpcQueue qdPtr => l.removeQueue qdPtr
  | removeRpc sdPtr qdPtr => l.removeServer sdPtr qdPtr

/-! ### Runs -/

variable {spr : Bool} (L : Layout Kind.words spr)

/-- Calls on records of the right kind, and on queues that were set. -/
def Call.OnRecords (s : RpcState) (l : Ledger) : Call → Prop
  | setRpcQueue qdPtr _ => L.kind qdPtr = some .queue
  | registerRpc sdPtr _ _ _ sp => L.kind sdPtr = some .server ∧ (s.qdArg sp = 0 ∨ s.qdArg sp ∈ l.known)
  | removeRpcQueue _ => True
  | removeRpc _ qdPtr => qdPtr ∈ l.known

/-- Fewer than 1024 queues in the list, and fewer than 1024 servers in that of each queue. -/
def Ledger.Small (l : Ledger) : Prop := l.queues.length < 1024 ∧ ∀ qd, (l.servers qd).length < 1024

/-- What keeps the lists: a queue is set only while no server is in its list, and again only as the last
of the queues. A server is registered again only while it is the last of each list it is in, and not the
only one of its new queue's; else the last of its new queue's list is in no other list. -/
def Call.Keeps (s : RpcState) (l : Ledger) : Call → Prop
  | setRpcQueue qdPtr _ => l.servers qdPtr = [] ∧ (qdPtr ∈ l.queues → l.queues.getLast? = some qdPtr)
  | registerRpc sdPtr _ _ _ sp =>
    (∀ qd, sdPtr ∈ l.servers qd → (l.servers qd).getLast? = some sdPtr) ∧
      (s.qdArg sp ≠ 0 →
        if sdPtr ∈ l.servers (s.qdArg sp) then l.servers (s.qdArg sp) ≠ [sdPtr]
        else ∀ x, (l.servers (s.qdArg sp)).getLast? = some x → ∀ qd, qd ≠ s.qdArg sp → x ∉ l.servers qd)
  | removeRpcQueue _ => True
  | removeRpc _ _ => True

/-- The guest keeps the links of its records. -/
def Layout.KeepsLinks (m m' : GuestMemory) : Prop :=
  ∀ p, (L.kind p = some .server → field spr m' p Server.link = field spr m p Server.link) ∧
    (L.kind p = some .queue →
      field spr m' p Queue.link = field spr m p Queue.link ∧ field spr m' p Queue.next = field spr m p Queue.next)

/-- The states of a run from a state without queues, with their ledgers, where all calls satisfy `P`. -/
inductive Reach (P : RpcState → Ledger → Call → Prop) : RpcState → Ledger → Prop
  | start (s : RpcState) (hspr : s.scratchpadMapped = spr) (hq : s.activeQueue = 0)
      (hc : ∀ e ∈ s.clients, L.kind e.1 = some .client) : Reach P s .empty
  | call {s : RpcState} {l : Ledger} (c : Call) (h : Reach P s l) (hc : P s l c) : Reach P (c.run s) (c.note s l)
  | guest {s : RpcState} {l : Ledger} (m : GuestMemory) (h : Reach P s l) (hm : L.KeepsLinks s.memory m) :
      Reach P { s with memory := m } l

/-- The calls that the lists are claimed to survive. -/
def Allowed (s : RpcState) (l : Ledger) (c : Call) : Prop := c.OnRecords L s l ∧ l.Small

/-- The lists in memory end, have no duplicates, and are those of the ledger. -/
structure ListsMatch (spr : Bool) (s : RpcState) (l : Ledger) : Prop where
  queues : (queueChain spr s.memory s.activeQueue).Spells (toPtr s.activeQueue) l.queues
  queues_nodup : l.queues.Nodup
  servers : ∀ qd ∈ l.known,
    (serverChain spr s.memory qd).Spells (toPtr (field spr s.memory qd Queue.link)) (l.servers qd)
  servers_nodup : ∀ qd ∈ l.known, (l.servers qd).Nodup

end Ps2Recomp.SifRpc
