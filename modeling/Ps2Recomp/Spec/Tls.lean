import Mathlib.Data.List.AList
import Ps2Recomp.Lib.Bytes
import Ps2Recomp.Spec.Instruction

/-!
# Thread-local storage

`GetThreadTLS` and the calls that make and end threads (`System.cpp`, `Thread.cpp`), as far as the TLS block of a
thread depends on them. Blocks are handed out in turn from a pool of 256. A call is one step; what the exit handlers of
a thread do comes before its exit, and an exit is over when `on_fiber_exit` is.
-/

namespace Ps2Recomp.Tls

abbrev kTlsPoolBase : Word := 0x01F20000

abbrev kTlsBlockSize : Word := 0x100

abbrev kTlsPoolCount : Word := 0x100

/-- `ThreadInfo`: `dormant` says that its status is `THS_DORMANT`. -/
structure ThreadInfo where
  started : Bool
  dormant : Bool
  tlsBase : Word
  deriving DecidableEq, Repr

/-- `g_threads`, `g_nextThreadId`, `g_tls_index` and the guest's RAM. -/
structure State where
  threads : AList fun _ : ℤ => ThreadInfo
  nextThreadId : ℤ
  tlsIndex : Word
  rdram : Bytes.Memory

def State.initial (rdram : Bytes.Memory) : State := ⟨∅, 2, 0, rdram⟩

variable (s : State) (tid : ℤ)

/-! ### Blocks -/

def blockAddr (index : Word) : Word := kTlsPoolBase + index % kTlsPoolCount * kTlsBlockSize

def allocTlsAddr : Word × State :=
  let addr := blockAddr s.tlsIndex
  (addr,
    { s with
      tlsIndex := s.tlsIndex + 1
      rdram := Bytes.copy s.rdram addr.toNat (List.replicate kTlsBlockSize.toNat 0) })

/-- The record of the thread that runs, which is made where there is none. -/
def ensureCurrentThreadInfo : ThreadInfo × State :=
  match s.threads.lookup tid with
  | some info => (info, s)
  | none =>
    let info : ThreadInfo := ⟨true, false, 0⟩
    (info, { s with threads := s.threads.insert tid info })

def getThreadTLS : Word × State :=
  let (info, s) := ensureCurrentThreadInfo s tid
  if info.tlsBase = 0 then
    let (addr, s) := allocTlsAddr s
    (addr, { s with threads := s.threads.insert tid { info with tlsBase := addr } })
  else (info.tlsBase, s)

/-! ### Threads -/

abbrev KE_OK : ℤ := 0

abbrev KE_ERROR : ℤ := -1

abbrev KE_NO_MEMORY : ℤ := -400

abbrev KE_ILLEGAL_THID : ℤ := -406

abbrev KE_UNKNOWN_THID : ℤ := -407

abbrev KE_DORMANT : ℤ := -413

abbrev KE_NOT_DORMANT : ℤ := -414

/-- The search of `CreateThread`, with so many attempts left. -/
def findThreadId (threads : AList fun _ : ℤ => ThreadInfo) : ℕ → ℤ → Option ℤ × ℤ
  | 0, next => (none, next)
  | attempts + 1, next =>
    let candidate := if next < 2 ∨ 0xFF < next then 2 else next
    let next := if 0xFF ≤ candidate then 2 else candidate + 1
    if candidate ∈ threads then findThreadId threads attempts next else (some candidate, next)

/-- `CreateThread`, with parameters that can be read. -/
def createThread : ℤ × State :=
  match findThreadId s.threads 0xFE s.nextThreadId with
  | (none, nextThreadId) => (KE_ERROR, { s with nextThreadId })
  | (some id, nextThreadId) => (id, { s with threads := s.threads.insert id ⟨false, true, 0⟩, nextThreadId })

/-- `StartThread`; `runnable` says that the entry is a function and that the runtime goes on, `created` that the fiber
is made. -/
def startThread (runnable created : Bool) : ℤ × State :=
  if tid = 0 then (KE_ILLEGAL_THID, s)
  else
    match s.threads.lookup tid with
    | none => (KE_UNKNOWN_THID, s)
    | some info =>
      if ¬runnable then (KE_ERROR, s)
      else if info.started ∨ ¬info.dormant then (KE_NOT_DORMANT, s)
      else if ¬created then (KE_NO_MEMORY, s)
      else (KE_OK, { s with threads := s.threads.insert tid { info with started := true, dormant := false } })

/-- The reset in `on_fiber_exit`, of a record that is still there. -/
def onFiberExit : State :=
  match s.threads.lookup tid with
  | some info => { s with threads := s.threads.insert tid { info with started := false, dormant := true } }
  | none => s

/-- `ExitThread`, and the return from the entry of a thread. -/
def exitThread : State := onFiberExit (ensureCurrentThreadInfo s tid).2 tid

def exitDeleteThread : State :=
  let s := (ensureCurrentThreadInfo s tid).2
  onFiberExit { s with threads := s.threads.erase tid } tid

def terminateThread : ℤ × State :=
  match s.threads.lookup tid with
  | none => (KE_UNKNOWN_THID, s)
  | some info => if info.dormant then (KE_DORMANT, s) else (KE_OK, onFiberExit s tid)

def deleteThread : ℤ × State :=
  if tid = 0 then (KE_ILLEGAL_THID, s)
  else
    match s.threads.lookup tid with
    | none => (KE_UNKNOWN_THID, s)
    | some info =>
      if info.started ∨ ¬info.dormant then (KE_NOT_DORMANT, s)
      else (KE_OK, { s with threads := s.threads.erase tid })

/-! ### Runs -/

/-- A call; `tid` is the thread that makes it, or the one that it is about. -/
inductive Act
  | create
  | start (tid : ℤ) (runnable created : Bool)
  | exit (tid : ℤ)
  | exitDelete (tid : ℤ)
  | terminate (tid : ℤ)
  | delete (tid : ℤ)
  | getTls (tid : ℤ)
  deriving DecidableEq, Repr

def step (s : State) : Act → State
  | .create => (createThread s).2
  | .start tid runnable created => (startThread s tid runnable created).2
  | .exit tid => exitThread s tid
  | .exitDelete tid => exitDeleteThread s tid
  | .terminate tid => (terminateThread s tid).2
  | .delete tid => (deleteThread s tid).2
  | .getTls tid => (getThreadTLS s tid).2

end Ps2Recomp.Tls
