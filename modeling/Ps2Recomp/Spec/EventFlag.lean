import Ps2Recomp.Spec.Threads

/-!
# Event flags

A step is a critical section under the mutex of one event flag. A thread in `WaitEventFlag` gives up
the mutex for its wait only, which may be over at any time: `SetEventFlag` wakes everybody in it, and
who is woken looks at the bits again.

The flags in the record of a thread are behind another mutex. `WaitEventFlag` looks at them several
times in one section, and other calls write them in between.
-/

namespace Ps2Recomp.EventFlag

open Sched (Tid)
open Threads (Caller ThreadInfo)

/-- `WEF_OR` -/
def wefOr : BitVec 32 := 1
/-- `WEF_CLEAR` -/
def wefClear : BitVec 32 := 0x10
/-- `WEF_CLEAR_ALL` -/
def wefClearAll : BitVec 32 := 0x20
/-- `WEF_MODE_MASK` -/
def wefModeMask : BitVec 32 := wefOr ||| wefClear ||| wefClearAll
/-- `EA_MULTI` -/
def eaMulti : BitVec 32 := 0x2

/-- The fields that the calls read or write. -/
structure EventFlagInfo where
  attr : BitVec 32 := 0
  bits : BitVec 32 := 0
  waiters : ℤ := 0
  deleted : Bool := false
  deriving DecidableEq, Repr

/-- The arguments of `WaitEventFlag` and `PollEventFlag`. -/
structure Request where
  waitBits : BitVec 32
  mode : BitVec 32
  /-- there is a place for the result -/
  resBits : Bool
  deriving DecidableEq, Repr

/-- `KE_*`, or the exception that ends the thread -/
inductive Ret
  | ok | illegalMode | ilpat | multi | cond | waitDelete | releaseWait | threadExit
  deriving DecidableEq, Repr

/-- What a call returns, and the word it stores. -/
structure Outcome where
  ret : Ret
  stored : Option (BitVec 32) := none
  deriving DecidableEq, Repr

/-- The checks of the arguments. -/
def Request.check (r : Request) : Option Ret :=
  if r.mode &&& ~~~wefModeMask ≠ 0 then some .illegalMode
  else if r.waitBits = 0 then some .ilpat
  else none

namespace EventFlagInfo

variable (x : EventFlagInfo) (r : Request)

/-- Another thread waits, and only one may. -/
def taken : Bool := x.attr &&& eaMulti = 0 && 0 < x.waiters

/-- The bits satisfy the wait. -/
def holds : Bool :=
  if r.mode &&& wefOr ≠ 0 then x.bits &&& r.waitBits ≠ 0 else x.bits &&& r.waitBits = r.waitBits

/-- `PollEventFlag` under the mutex. -/
def poll : EventFlagInfo × Outcome :=
  match r.check with
  | some ret => (x, { ret })
  | none =>
    if x.taken then (x, { ret := .multi })
    else if !x.holds r then (x, { ret := .cond })
    else
      ({ x with
          bits := if r.mode &&& wefClearAll ≠ 0 then 0
            else if r.mode &&& wefClear ≠ 0 then x.bits &&& ~~~r.waitBits
            else x.bits },
        { ret := .ok, stored := if r.resBits then some x.bits else none })

/-- A thread goes into the wait. -/
def enter : EventFlagInfo := { x with waiters := x.waiters + 1 }

/-- A thread comes out of the wait. -/
def less : EventFlagInfo := { x with waiters := x.waiters - 1 }

/-- The predicate `satisfied` of `WaitEventFlag`, where `marked` says that the caller's record has
`forceRelease` or `terminated` set. -/
def satisfied (marked : Bool) : Bool := marked || x.deleted || x.holds r

/-- The end of `WaitEventFlag`, after its loop. -/
def waitEnd (ret : Ret) : EventFlagInfo × Outcome :=
  let ret := if ret = .ok ∧ x.deleted then .waitDelete else ret
  if ret = .ok then
    ({ x with
        bits := if r.mode &&& wefClearAll ≠ 0 then 0
          else if r.mode &&& wefClear ≠ 0 then x.bits &&& ~~~r.waitBits
          else x.bits },
      { ret, stored := if r.resBits then some x.bits else none })
  else (x, { ret })

end EventFlagInfo

/-! ### States -/

/-- Where a caller stands. -/
inductive Place
  | idle
  /-- in the wait of `WaitEventFlag` on the flag `o` -/
  | blocked (o : ℕ) (r : Request)
  /-- gone: `block_current` threw in a shutdown, and `o` still counts the caller -/
  | unwound (o : ℕ)
  deriving DecidableEq, Repr

/-- The event flag that counts the caller. -/
def Place.flag : Place → Option ℕ
  | .idle => none
  | .blocked o _ | .unwound o => some o

structure State where
  /-- All flags that were ever created. A thread keeps one that is deleted alive. -/
  flag : ℕ → EventFlagInfo
  created : ℕ
  /-- `g_eventFlags` -/
  eventFlags : List (ℤ × ℕ)
  nextEventFlagId : BitVec 32
  info : Tid → ThreadInfo
  place : Caller → Place
  /-- What the last `WaitEventFlag` of a caller returned. -/
  outcome : Caller → Option Outcome

namespace State

variable (s : State)

def setFlag (o : ℕ) (x : EventFlagInfo) : State := { s with flag := Function.update s.flag o x }

def setPlace (c : Caller) (place : Place) : State :=
  { s with place := Function.update s.place c place }

def setInfo (t : Tid) (f : ThreadInfo → ThreadInfo) : State :=
  { s with info := Function.update s.info t (f (s.info t)) }

/-- A write to the record of the caller, if it has one. -/
def onRecord (c : Caller) (f : ThreadInfo → ThreadInfo) : State :=
  match c with
  | .fiber t => s.setInfo t f
  | .host _ => s

/-- A flag in the record of the caller, if it has one. -/
def mark (c : Caller) (f : ThreadInfo → Bool) : Bool :=
  match c with
  | .fiber t => f (s.info t)
  | .host _ => false

/-- What `satisfied` looks at in the record of the caller. -/
def marked (c : Caller) : Bool := s.mark c (·.forceRelease) || s.mark c (·.terminated)

/-- Other calls write to the record of the caller in the middle of its section. -/
def meanwhile (c : Caller) (info : Option ThreadInfo) : State :=
  match info with
  | some info => s.onRecord c fun _ => info
  | none => s

/-- The call of `c` returns. -/
def returns (c : Caller) (outcome : Outcome) : State :=
  { s with outcome := Function.update s.outcome c (some outcome) }.setPlace c .idle

/-- `WaitEventFlag` leaves its wait, if it was in it, and returns. -/
def leave (c : Caller) (o : ℕ) (r : Request) (ret : Ret) : State :=
  let (x, outcome) := (s.flag o).waitEnd r ret
  (s.setFlag o x).returns c outcome

/-- The head of the loop of `WaitEventFlag`, up to its wait. -/
def loopHead (c : Caller) (o : ℕ) (r : Request) (released : Bool) : State :=
  if s.mark c (fun info => info.forceRelease || released) then
    ((s.onRecord c fun info => Threads.clearThreadWaiting { info with forceRelease := false }).leave c o r .releaseWait)
  else
    (s.setFlag o (s.flag o).enter).setPlace c (.blocked o r)

/-- `WaitEventFlag` on a flag it has looked up, to its wait or its end. -/
def waitEventFlag (c : Caller) (o : ℕ) (r : Request) (info : Option ThreadInfo) (released : Bool) : Option State :=
  if s.place c = .idle ∧ o < s.created then
    match r.check with
    | some ret => some (s.returns c { ret })
    | none =>
      if (s.flag o).taken then some (s.returns c { ret := .multi })
      else if s.mark c (·.terminated) then some (s.returns c { ret := .threadExit })
      else
        let s := s.meanwhile c info
        if (s.flag o).satisfied r (s.marked c) then some (s.leave c o r .ok)
        else some ((s.onRecord c (Threads.setThreadWaiting .event)).loopHead c o r released)
  else none

/-- `WaitEventFlag` when its wait is over. -/
def wake (c : Caller) (info : Option ThreadInfo) (released : Bool) : Option State :=
  match s.place c with
  | .idle | .unwound _ => none
  | .blocked o r =>
    let s := s.setFlag o (s.flag o).less
    if (s.flag o).deleted then
      -- a release that has come as well is left in the record
      some ((s.onRecord c Threads.clearThreadWaiting).leave c o r .waitDelete)
    else if s.mark c (·.forceRelease) then
      some ((s.onRecord c fun info => Threads.clearThreadWaiting { info with forceRelease := false }).leave
        c o r .releaseWait)
    else if s.mark c (·.terminated) then some (s.returns c { ret := .threadExit })
    else
      let s := s.meanwhile c info
      if (s.flag o).satisfied r (s.marked c) then
        some ((s.onRecord c Threads.clearThreadWaiting).leave c o r .ok)
      else some (s.loopHead c o r released)

/-- `block_current` throws in a shutdown. -/
def shutdown (t : Tid) : Option State :=
  match s.place (.fiber t) with
  | .idle | .unwound _ => none
  | .blocked o _ => some ((s.returns (.fiber t) { ret := .threadExit }).setPlace (.fiber t) (.unwound o))

/-- `CreateEventFlag` with the words of its parameter that can be read. -/
def createEventFlag (attr initBits : BitVec 32) : State :=
  { s with
    flag := Function.update s.flag s.created { attr, bits := initBits }
    created := s.created + 1
    eventFlags := (s.nextEventFlagId.toInt, s.created) :: s.eventFlags.filter (·.1 ≠ s.nextEventFlagId.toInt)
    nextEventFlagId := s.nextEventFlagId + 1 }

/-- `DeleteEventFlag` up to the wakeups. -/
def deleteEventFlag (eid : ℤ) : State :=
  match s.eventFlags.lookup eid with
  | none => s
  | some o =>
    { s.setFlag o { s.flag o with deleted := true } with
      eventFlags := s.eventFlags.filter (·.1 ≠ eid) }

/-- `SetEventFlag` up to the wakeups. -/
def setEventFlag (o : ℕ) (bits : BitVec 32) : Option State :=
  if o < s.created then
    some (if bits = 0 then s else s.setFlag o { s.flag o with bits := (s.flag o).bits ||| bits })
  else none

def clearEventFlag (o : ℕ) (bits : BitVec 32) : Option State :=
  if o < s.created then some (s.setFlag o { s.flag o with bits := (s.flag o).bits &&& bits }) else none

def pollEventFlag (o : ℕ) (r : Request) : Option State :=
  if o < s.created then some (s.setFlag o ((s.flag o).poll r).1) else none

/-- `ReleaseWaitThread` under the mutex of the thread's record. -/
def releaseWaitThread (t : Tid) : State :=
  if (s.info t).status = .wait ∨ (s.info t).status = .waitSuspend then
    s.setInfo t fun info => Threads.endWait { info with forceRelease := true }
  else s

end State

/-! ### Runs -/

inductive Act
  | createEventFlag (attr initBits : BitVec 32)
  | deleteEventFlag (eid : ℤ)
  | setEventFlag (o : ℕ) (bits : BitVec 32)
  | clearEventFlag (o : ℕ) (bits : BitVec 32)
  | pollEventFlag (o : ℕ) (r : Request)
  | waitEventFlag (c : Caller) (o : ℕ) (r : Request) (info : Option ThreadInfo) (released : Bool)
  | wake (c : Caller) (info : Option ThreadInfo) (released : Bool)
  | releaseWaitThread (t : Tid)
  | shutdown (t : Tid)
  /-- what other calls on threads write to a record -/
  | record (t : Tid) (info : ThreadInfo)
  deriving DecidableEq, Repr

def step (s : State) : Act → Option State
  | .createEventFlag attr initBits => some (s.createEventFlag attr initBits)
  | .deleteEventFlag eid => some (s.deleteEventFlag eid)
  | .setEventFlag o bits => s.setEventFlag o bits
  | .clearEventFlag o bits => s.clearEventFlag o bits
  | .pollEventFlag o r => s.pollEventFlag o r
  | .waitEventFlag c o r info released => s.waitEventFlag c o r info released
  | .wake c info released => s.wake c info released
  | .releaseWaitThread t => some (s.releaseWaitThread t)
  | .shutdown t => s.shutdown t
  | .record t info => some (s.setInfo t fun _ => info)

def Step (s : State) (a : Act) (s' : State) : Prop := step s a = some s'

/-- No event flag yet, and nobody in a call. -/
structure State.Initial (s : State) : Prop where
  created : s.created = 0
  eventFlags : s.eventFlags = []
  place : ∀ c, s.place c = .idle

def State.init : State where
  flag _ := {}
  created := 0
  eventFlags := []
  nextEventFlagId := 1
  info _ := { status := .run }
  place _ := .idle
  outcome _ := none

end Ps2Recomp.EventFlag
