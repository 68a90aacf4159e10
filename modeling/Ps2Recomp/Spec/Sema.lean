import Ps2Recomp.Spec.Threads

/-!
# Semaphores

A step is a critical section under the mutex of one semaphore. A thread in `WaitSema` gives up the
mutex for its wait only, and takes it again whenever `block_current` returns, for a reason of its
own or without one.

Threads with an id of their own put themselves on the wait-list. A borrowed host worker
(`Caller.host`) has no id and no record: it is counted as a waiter, but not on the list.
-/

namespace Ps2Recomp.Sema

open Sched (Tid)
open Threads (Caller ThreadInfo)

/-- `FiberToken` -/
abbrev Token := BitVec 64

/-- The fields that the calls read or write. -/
structure SemaInfo where
  count : ℤ := 0
  maxCount : ℤ := 0
  initCount : ℤ := 0
  waiters : ℤ := 0
  deleted : Bool := false
  waitList : List (Tid × Token) := []
  deriving DecidableEq, Repr

/-! ### CreateSema -/

def looksLikeGuestPointerOrNull (value : BitVec 32) : Bool :=
  value = 0 || (value &&& 0x1FFFFFFF) < 0x02000000

structure DecodedSemaParams where
  init : ℤ := 0
  max : ℤ := 1
  deriving DecidableEq, Repr

def countLooksPlausible (value : ℤ) : Bool := 0 < value && value ≤ 0x10000

/-- `param` are the words that can be read. Both layouts have the initial count as third word. -/
def decodeCreateSemaParams (param : List (BitVec 32)) : DecodedSemaParams :=
  let word (i : ℕ) : BitVec 32 := param.getD i 0
  let hasEeLayout := 3 ≤ param.length
  let eeMax := if hasEeLayout then (word 1).toInt else 1
  let eeInit := if hasEeLayout then (word 2).toInt else 0
  let eeOption := if 6 ≤ param.length then word 5 else 0
  let hasLegacyLayout := 4 ≤ param.length
  let legacyMax := if hasLegacyLayout then (word 3).toInt else 1
  let legacyInit := if hasLegacyLayout then (word 2).toInt else 0
  let legacyOption := if hasLegacyLayout then word 1 else 0
  let useLegacyLayout :=
    if hasLegacyLayout ∧ hasEeLayout ∧ countLooksPlausible legacyMax ∧ ¬countLooksPlausible eeMax then
      true
    else if hasLegacyLayout ∧ hasEeLayout ∧ countLooksPlausible legacyMax ∧ countLooksPlausible eeMax then
      !looksLikeGuestPointerOrNull eeOption && looksLikeGuestPointerOrNull legacyOption
    else decide hasLegacyLayout && !decide hasEeLayout
  if useLegacyLayout ∧ hasLegacyLayout then { max := legacyMax, init := legacyInit }
  else if hasEeLayout then { max := eeMax, init := eeInit }
  else {}

/-- The new semaphore, with the counts brought into range. -/
def SemaInfo.create (params : DecodedSemaParams) : SemaInfo :=
  let max := if params.max ≤ 0 then 1 else params.max
  let init := if params.init < 0 then 0 else params.init
  let init := if max < init then max else init
  { count := init, maxCount := max, initCount := init }

/-- The search for an id that is not in use, with the next id to try. -/
def findId (used : List ℤ) : ℕ → BitVec 32 → Option ℤ × BitVec 32
  | 0, next => (none, next)
  | attempts + 1, next =>
    let candidate := if next.toInt ≤ 0 then 1 else next
    if candidate.toInt ≤ 0 ∨ candidate.toInt ∈ used then findId used attempts (candidate + 1)
    else (some candidate.toInt, candidate + 1)

/-! ### The sections -/

namespace SemaInfo

variable (x : SemaInfo)

/-- `SignalSema`: the waiter that it takes off the list, or `none` for `KE_SEMA_OVF`. -/
def signal : Option (Option (Tid × Token) × SemaInfo) :=
  if x.maxCount ≤ x.count then none
  else some (x.waitList.head?, { x with count := x.count + 1, waitList := x.waitList.tail })

/-- A permit is taken if there is one. -/
def take : Option SemaInfo :=
  if 0 < x.count then some { x with count := x.count - 1 } else none

/-- `publishWaiter`, and the count of waiters. -/
def publish (c : Caller) (token : Token) : SemaInfo :=
  { x with
    waiters := x.waiters + 1
    waitList := match c with
      | .fiber t => x.waitList ++ [(t, token)]
      | .host _ => x.waitList }

/-- `unpublishWaiter`, and the count of waiters. -/
def unpublish (c : Caller) : SemaInfo :=
  { x with
    waiters := x.waiters - 1
    waitList := match c with
      | .fiber t => x.waitList.eraseP (·.1 = t)
      | .host _ => x.waitList }

end SemaInfo

/-! ### States -/

/-- Where a caller stands. -/
inductive Place
  | idle
  /-- in the wait of `WaitSema` on the semaphore `o` -/
  | blocked (o : ℕ)
  /-- gone: `block_current` threw in a shutdown, and `o` still counts the caller -/
  | unwound (o : ℕ)
  deriving DecidableEq, Repr

/-- The semaphore that counts the caller. -/
def Place.sema : Place → Option ℕ
  | .idle => none
  | .blocked o | .unwound o => some o

/-- How a `WaitSema` ends. -/
inductive Exit
  | permit | waitDelete | releaseWait
  /-- `ThreadExitException` -/
  | threadExit
  deriving DecidableEq, Repr

/-- What has happened to a semaphore. No call reads it. -/
structure Ledger where
  /-- `SignalSema` calls that returned its id -/
  signals : ℤ := 0
  /-- permits taken by `WaitSema` and `PollSema` -/
  permits : ℤ := 0
  deriving DecidableEq, Repr

structure State where
  /-- All semaphores that were ever created. A thread keeps one that is deleted alive. -/
  sema : ℕ → SemaInfo
  created : ℕ
  /-- `g_semas` -/
  semas : List (ℤ × ℕ)
  nextSemaId : BitVec 32
  info : Tid → ThreadInfo
  place : Caller → Place
  exit : Caller → Option Exit
  ledger : ℕ → Ledger

namespace State

variable (s : State)

def setSema (o : ℕ) (x : SemaInfo) : State := { s with sema := Function.update s.sema o x }

def setPlace (c : Caller) (place : Place) : State :=
  { s with place := Function.update s.place c place }

def setExit (c : Caller) (e : Exit) : State := { s with exit := Function.update s.exit c (some e) }

def setLedger (o : ℕ) (f : Ledger → Ledger) : State :=
  { s with ledger := Function.update s.ledger o (f (s.ledger o)) }

def setInfo (t : Tid) (f : ThreadInfo → ThreadInfo) : State :=
  { s with info := Function.update s.info t (f (s.info t)) }

/-- A write to the record of the caller, if it has one. -/
def onRecord (c : Caller) (f : ThreadInfo → ThreadInfo) : State :=
  match c with
  | .fiber t => s.setInfo t f
  | .host _ => s

/-- A flag in the record of the caller, if it has one. -/
def flag (c : Caller) (f : ThreadInfo → Bool) : Bool :=
  match c with
  | .fiber t => f (s.info t)
  | .host _ => false

/-- `WaitSema` leaves its loop. -/
def leave (c : Caller) (e : Exit) : State :=
  ((s.onRecord c Threads.clearThreadWaiting).setExit c e).setPlace c .idle

/-- `WaitSema` takes a permit, after which the semaphore is `x`, and leaves. -/
def grant (c : Caller) (o : ℕ) (x : SemaInfo) : State :=
  ((s.setSema o x).setLedger o fun l => { l with permits := l.permits + 1 }).leave c .permit

/-- The head of the loop of `WaitSema`, up to its wait. The mutex of the semaphore does not keep a
`ReleaseWaitThread` out, which may have come since the record was last looked at. -/
def loopHead (c : Caller) (o : ℕ) (token : Token) (released : Bool) : State :=
  if s.flag c (fun info => info.forceRelease || released) then
    (s.onRecord c fun info => { info with forceRelease := false }).leave c .releaseWait
  else (s.setSema o ((s.sema o).publish c token)).setPlace c (.blocked o)

/-- `WaitSema` on a semaphore it has looked up, to its wait or its end. -/
def waitSema (c : Caller) (o : ℕ) (token : Token) (released : Bool) : Option State :=
  if s.place c = .idle ∧ o < s.created then
    if s.flag c (·.terminated) then some (s.setExit c .threadExit)
    else
      match (s.sema o).take with
      | some x => some (s.grant c o x)
      | none => some ((s.onRecord c (Threads.setThreadWaiting .sema)).loopHead c o token released)
  else none

/-- `WaitSema` when its wait is over. -/
def wake (c : Caller) (token : Token) (released : Bool) : Option State :=
  match s.place c with
  | .idle | .unwound _ => none
  | .blocked o =>
    let s := s.setSema o ((s.sema o).unpublish c)
    if (s.sema o).deleted then some (s.leave c .waitDelete)
    else if s.flag c (·.forceRelease) then
      some ((s.onRecord c fun info => { info with forceRelease := false }).leave c .releaseWait)
    -- the exception leaves the record as it is
    else if s.flag c (·.terminated) then some ((s.setExit c .threadExit).setPlace c .idle)
    else
      match (s.sema o).take with
      | some x => some (s.grant c o x)
      | none => some (s.loopHead c o token released)

/-- `block_current` throws in a shutdown. -/
def shutdown (t : Tid) : Option State :=
  match s.place (.fiber t) with
  | .idle | .unwound _ => none
  | .blocked o => some ((s.setExit (.fiber t) .threadExit).setPlace (.fiber t) (.unwound o))

def pollSema (o : ℕ) : Option State :=
  if o < s.created then
    match (s.sema o).take with
    | some x => some ((s.setSema o x).setLedger o fun l => { l with permits := l.permits + 1 })
    | none => some s
  else none

/-- `SignalSema` under the mutex, with the waiter it is going to wake. -/
def signalSema (o : ℕ) : Option (Option (Tid × Token) × State) :=
  if o < s.created then
    match (s.sema o).signal with
    | some (woken, x) =>
      some (woken, (s.setSema o x).setLedger o fun l => { l with signals := l.signals + 1 })
    | none => some (none, s)
  else none

/-- `CreateSema` on the words that can be read. -/
def createSema (param : List (BitVec 32)) : State :=
  if param.length < 3 then s
  else
    match findId (s.semas.map Prod.fst) 0x7FFF s.nextSemaId with
    | (none, next) => { s with nextSemaId := next }
    | (some id, next) =>
      { s with
        nextSemaId := next
        sema := Function.update s.sema s.created (.create (decodeCreateSemaParams param))
        created := s.created + 1
        semas := (id, s.created) :: s.semas
        ledger := Function.update s.ledger s.created {} }

/-- `DeleteSema` up to the wakeups. -/
def deleteSema (sid : ℤ) : State :=
  match s.semas.lookup sid with
  | none => s
  | some o =>
    { s with
      semas := s.semas.filter (·.1 ≠ sid)
      sema := Function.update s.sema o { s.sema o with deleted := true, waitList := [] } }

/-- `ReleaseWaitThread` under the mutex of the thread's record. -/
def releaseWaitThread (t : Tid) : State :=
  if (s.info t).status = .wait ∨ (s.info t).status = .waitSuspend then
    s.setInfo t fun info => Threads.endWait { info with forceRelease := true }
  else s

end State

/-! ### Runs -/

inductive Act
  | createSema (param : List (BitVec 32))
  | deleteSema (sid : ℤ)
  | signalSema (o : ℕ)
  | pollSema (o : ℕ)
  | waitSema (c : Caller) (o : ℕ) (token : Token) (released : Bool)
  | wake (c : Caller) (token : Token) (released : Bool)
  | releaseWaitThread (t : Tid)
  | terminateThread (t : Tid)
  | shutdown (t : Tid)
  /-- what other calls on threads write, also within a section of a semaphore -/
  | record (t : Tid) (info : ThreadInfo)
  deriving DecidableEq, Repr

def step (s : State) : Act → Option State
  | .createSema param => some (s.createSema param)
  | .deleteSema sid => some (s.deleteSema sid)
  | .signalSema o => (s.signalSema o).map Prod.snd
  | .pollSema o => s.pollSema o
  | .waitSema c o token released => s.waitSema c o token released
  | .wake c token released => s.wake c token released
  | .releaseWaitThread t => some (s.releaseWaitThread t)
  | .terminateThread t =>
    if (s.info t).status = .dormant then some s
    else some (s.setInfo t fun info => { info with terminated := true, forceRelease := true })
  | .shutdown t => s.shutdown t
  | .record t info => some (s.setInfo t fun _ => info)

def Step (s : State) (a : Act) (s' : State) : Prop := step s a = some s'

/-- No semaphore yet, and nobody in a call. -/
structure State.Initial (s : State) : Prop where
  created : s.created = 0
  semas : s.semas = []
  place : ∀ c, s.place c = .idle

def State.init : State where
  sema _ := {}
  created := 0
  semas := []
  nextSemaId := 1
  info _ := { status := .run }
  place _ := .idle
  exit _ := none
  ledger _ := {}

end Ps2Recomp.Sema

/-!
# Semaphores on the scheduler

The calls on semaphores, together with the scheduler that parks and wakes the fibers in them. A
fiber that goes into the wait of `WaitSema` is published and parks; it is back when `block_current`
has returned. `SignalSema` and `DeleteSema` make their wakeups when they have given up the mutex of
the semaphore, so a wakeup is a step of its own.

All other sections of the scheduler may come at any time, among them those that `SuspendThread`,
`ResumeThread`, `ReleaseWaitThread` and `TerminateThread` end with.
-/

namespace Ps2Recomp.SemaSched

open Sched (Tid)
open Threads (Caller)
open Sema (Token)

structure State where
  sched : Sched.State
  sema : Sema.State
  /-- Taken off a wait-list, with the wakeup still to be made. -/
  wakeups : List (Tid × Token)

namespace State

variable (fuel : ℕ) (s : State)

/-- `current_fiber_token`; a host thread has the null token. -/
def currentFiberToken : Caller → Token
  | .fiber t => s.sched.makeFiberToken t
  | .host _ => 0

/-- A fiber executes its code; a host thread at any time. -/
def CanCall : Caller → Prop
  | .fiber t => s.sched.At t .code
  | .host _ => True

instance (c : Caller) : Decidable (s.CanCall c) :=
  match c with
  | .fiber t => inferInstanceAs (Decidable (s.sched.At t .code))
  | .host _ => inferInstanceAs (Decidable True)

/-- A section of `WaitSema` ends. A fiber in its wait goes on to park. -/
def settle (c : Caller) (sema : Sema.State) : Option State :=
  match c, sema.place c with
  | .fiber t, .blocked _ =>
    (Sched.step fuel s.sched (.publish t)).map fun sched => { s with sched, sema }
  | _, _ => some { s with sema }

def waitSema (c : Caller) (o : ℕ) (released : Bool) : Option State :=
  if s.CanCall c then do
    let sema ← s.sema.waitSema c o (s.currentFiberToken c) released
    s.settle fuel c sema
  else none

/-- `WaitSema` when `block_current` has returned. -/
def wake (c : Caller) (released : Bool) : Option State :=
  if s.CanCall c then do
    let sema ← s.sema.wake c (s.currentFiberToken c) released
    s.settle fuel c sema
  else none

def signalSema (o : ℕ) : Option State :=
  (s.sema.signalSema o).map fun r => { s with sema := r.2, wakeups := s.wakeups ++ r.1.toList }

def deleteSema (sid : ℤ) : State :=
  { s with
    sema := s.sema.deleteSema sid
    wakeups := s.wakeups ++ match s.sema.semas.lookup sid with
      | none => []
      | some o => (s.sema.sema o).waitList }

/-- The `enqueue_external_wakeup_validated` of `SignalSema` and `DeleteSema`. -/
def wakeup (e : Tid × Token) : Option State :=
  if e ∈ s.wakeups then
    (Sched.step fuel s.sched (.enqueueExternalWakeupValidated e.1 e.2)).map fun sched =>
      { s with sched, wakeups := s.wakeups.erase e }
  else none

/-- The sections of the scheduler that run outside these calls: a fiber in the wait of `WaitSema`
executes `arm_park` and `block_current` only. -/
def allows : Sched.Act → Bool
  | .schedulerShutdown _ => false
  | .armPark _ | .blockCurrent _ => true
  | a =>
    match Threads.State.byFiber a with
    | some t => s.sema.place (.fiber t) = .idle
    | none => true

end State

/-! ### Runs -/

inductive Act
  | scheduler (a : Sched.Act)
  | createSema (param : List (BitVec 32))
  | deleteSema (sid : ℤ)
  | signalSema (o : ℕ)
  | wakeup (e : Tid × Token)
  | pollSema (o : ℕ)
  | waitSema (c : Caller) (o : ℕ) (released : Bool)
  | wake (c : Caller) (released : Bool)
  | releaseWaitThread (t : Tid)
  | terminateThread (t : Tid)
  /-- what other calls on threads write to a record -/
  | record (t : Tid) (info : Threads.ThreadInfo)
  deriving DecidableEq, Repr

/-- A section under the mutex of a semaphore or of a record that neither parks nor wakes. -/
def State.onSema (s : State) (a : Sema.Act) : Option State :=
  (Sema.step s.sema a).map fun sema => { s with sema }

def step (fuel : ℕ) (s : State) : Act → Option State
  | .scheduler a =>
    if s.allows a then (Sched.step fuel s.sched a).map fun sched => { s with sched } else none
  | .createSema param => s.onSema (.createSema param)
  | .deleteSema sid => some (s.deleteSema sid)
  | .signalSema o => s.signalSema o
  | .wakeup e => s.wakeup fuel e
  | .pollSema o => s.onSema (.pollSema o)
  | .waitSema c o released => s.waitSema fuel c o released
  | .wake c released => s.wake fuel c released
  | .releaseWaitThread t => s.onSema (.releaseWaitThread t)
  | .terminateThread t => s.onSema (.terminateThread t)
  | .record t info => s.onSema (.record t info)

def Step (s : State) (a : Act) (s' : State) : Prop := ∃ fuel, step fuel s a = some s'

/-- The scheduler is in a state it can reach and not stopping; there is no semaphore yet. -/
structure State.Initial (s : State) : Prop where
  sched : ∃ s₀ as, s₀.Initial ∧ Transition.Run Sched.Step s₀ as s.sched
  stop : s.sched.stop = false
  sema : s.sema.Initial
  wakeups : s.wakeups = []

def State.init : State := ⟨.init, .init, []⟩

end Ps2Recomp.SemaSched
