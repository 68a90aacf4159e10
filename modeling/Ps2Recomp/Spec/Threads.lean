import Ps2Recomp.Spec.Scheduler

/-!
# The calls on threads

`SuspendThread`, `ResumeThread`, `SleepThread`, `WakeupThread`, `CancelWakeupThread` and
`ReleaseWaitThread`. They keep the guest's view of a thread in its `ThreadInfo`, under the mutex of
that record, and drive the scheduler in later steps, without it. A call is a sequence of steps,
and steps of other calls and of the scheduler come in between. Calls are made by fibers, on the
slot they execute on, and by host threads at any time.

The set of started threads does not change here: starting and leaving a thread reset its record.
-/

namespace Ps2Recomp.Threads

open Sched (Tid FiberPc)

/-- `THS_*` -/
inductive ThreadStatus
  | run | ready | wait | suspend | waitSuspend | dormant
  deriving DecidableEq, Repr

/-- `TSW_*` -/
inductive WaitType
  | none | sleep | sema | event
  deriving DecidableEq, Repr

/-- The fields that the calls read or write. -/
structure ThreadInfo where
  status : ThreadStatus := .dormant
  waitType : WaitType := .none
  wakeupCount : ℤ := 0
  suspendCount : ℕ := 0
  forceRelease : Bool := false
  terminated : Bool := false
  deriving DecidableEq, Repr

/-- What has happened to the wakeups of a thread since it was started. No call reads it. -/
structure Tally where
  /-- `WakeupThread` calls that were accepted -/
  accepted : ℤ := 0
  /-- `SleepThread` calls that took one -/
  slept : ℤ := 0
  /-- taken away by `CancelWakeupThread` -/
  discarded : ℤ := 0
  deriving DecidableEq, Repr

/-- Who makes a call. `g_currentThreadId` is the fiber's id, or -1 on a host thread. -/
inductive Caller
  | fiber (tid : Tid)
  | host (n : ℕ)
  deriving DecidableEq, Repr

/-- Where a call stands. -/
inductive Call
  | idle
  /-- `SuspendThread`, with the guest's count raised -/
  | suspending (tid : Tid)
  /-- `SuspendThread` of the caller itself, in `suspend_self` -/
  | parking
  /-- `ResumeThread`, with the guest's count lowered -/
  | resuming (tid : Tid)
  /-- `ResumeThread`, past its second look at the guest's count, which was 0 -/
  | clearing (tid : Tid)
  /-- `SleepThread`, in the wait of its loop -/
  | sleeping
  /-- `WakeupThread` or `ReleaseWaitThread`, before its `make_ready` -/
  | waking (tid : Tid)
  deriving DecidableEq, Repr

structure State where
  sched : Sched.State
  info : Tid → ThreadInfo
  call : Caller → Call
  tally : Tid → Tally

namespace State

def setInfo (s : State) (t : Tid) (f : ThreadInfo → ThreadInfo) : State :=
  { s with info := Function.update s.info t (f (s.info t)) }

def setCall (s : State) (c : Caller) (call : Call) : State :=
  { s with call := Function.update s.call c call }

def setTally (s : State) (t : Tid) (f : Tally → Tally) : State :=
  { s with tally := Function.update s.tally t (f (s.tally t)) }

/-- A fiber makes calls from its own code; a host thread at any time. -/
def CanCall (s : State) : Caller → Prop
  | .fiber t => s.sched.At t .code
  | .host _ => True

instance (s : State) (c : Caller) : Decidable (s.CanCall c) :=
  match c with
  | .fiber t => inferInstanceAs (Decidable (s.sched.At t .code))
  | .host _ => inferInstanceAs (Decidable True)

end State

/-- `applySuspendStatusLocked` -/
def applySuspendStatusLocked (info : ThreadInfo) : ThreadInfo :=
  { info with status := if info.waitType ≠ .none then .waitSuspend else .suspend }

/-- `setThreadWaiting` -/
def setThreadWaiting (waitType : WaitType) (info : ThreadInfo) : ThreadInfo :=
  { info with
    status := if 0 < info.suspendCount then .waitSuspend else .wait
    waitType
    forceRelease := false }

/-- `clearThreadWaiting` -/
def clearThreadWaiting (info : ThreadInfo) : ThreadInfo :=
  { info with status := if 0 < info.suspendCount then .suspend else .run, waitType := .none }

/-- What `WakeupThread` and `ReleaseWaitThread` do to the record of a thread that waits. -/
def endWait (info : ThreadInfo) : ThreadInfo :=
  { info with status := if 0 < info.suspendCount then .suspend else .ready, waitType := .none }

/-- The record of a thread in the loop of `SleepThread`, whether it is suspended or not. -/
def asleep (info : ThreadInfo) : ThreadInfo :=
  { info with status := .wait, waitType := .sleep }

/-- The record of a thread at the end of `SleepThread`. -/
def awake (info : ThreadInfo) : ThreadInfo :=
  { info with status := .run, waitType := .none }

namespace State

variable (fuel : ℕ) (s : State)

/-- A section of the scheduler. -/
def scheduler (a : Sched.Act) : Option State :=
  (Sched.step fuel s.sched a).map fun sched => { s with sched }

/-! ### SuspendThread -/

/-- `SuspendThread` under the mutex of the thread's record. -/
def suspendThread (c : Caller) (t : Tid) : Option State :=
  if s.call c = .idle ∧ s.CanCall c then
    if (s.info t).status = .dormant then some s
    else
      some ((s.setInfo t fun info =>
        applySuspendStatusLocked { info with suspendCount := info.suspendCount + 1 }).setCall c (.suspending t))
  else none

/-- `SuspendThread` after it: `suspend_self`, up to its `arm_park`, or `suspend_other`. -/
def suspendFiber (c : Caller) : Option State :=
  match s.call c with
  | .suspending t =>
    if c = .fiber t then
      -- a terminated thread unwinds
      if (s.info t).terminated then some (s.setCall c .idle)
      else do
        let s ← s.scheduler fuel (.suspendSelf t)
        some (s.setCall c .parking)
    else if s.CanCall c then do
      let s ← s.scheduler fuel (.suspendOther t)
      some (s.setCall c .idle)
    else none
  | _ => none

/-- `SuspendThread` of the caller itself when `suspend_self` has returned. It returns `KE_OK`
unless the thread is terminated. -/
def suspendReturn (t : Tid) : Option State :=
  if s.call (.fiber t) = .parking ∧ s.sched.At t .code then
    if (s.info t).terminated then some (s.setCall (.fiber t) .idle)
    else some ((s.setInfo t fun info => { info with status := .run }).setCall (.fiber t) .idle)
  else none

/-! ### ResumeThread -/

/-- `ResumeThread` under the mutex of the thread's record. -/
def resumeThread (c : Caller) (t : Tid) : Option State :=
  if s.call c = .idle ∧ s.CanCall c then
    if (s.info t).status = .dormant ∨ (s.info t).suspendCount = 0 then some s
    else
      let s := s.setInfo t fun info => { info with suspendCount := info.suspendCount - 1 }
      let s := if (s.info t).suspendCount = 0 then
          s.setInfo t fun info => { info with
            status := if info.waitType ≠ .none then .wait
              else if c = .fiber t then .run else .ready }
        else s
      some (s.setCall c (.resuming t))
  else none

/-- `ResumeThread` looks at the count again. -/
def resumeRead (c : Caller) : Option State :=
  match s.call c with
  | .resuming t =>
    if s.CanCall c then
      if (s.info t).suspendCount = 0 then some (s.setCall c (.clearing t)) else some (s.setCall c .idle)
    else none
  | _ => none

/-- The `clear_suspend` of `ResumeThread`. -/
def resumeClear (c : Caller) : Option State :=
  match s.call c with
  | .clearing t =>
    if s.CanCall c then do
      let s ← s.scheduler fuel (.clearSuspend t)
      some (s.setCall c .idle)
    else none
  | _ => none

/-! ### SleepThread, WakeupThread, CancelWakeupThread and ReleaseWaitThread -/

/-- `SleepThread` up to the wait of its loop. From there on the thread waits on its own record, as
others do on the list of an object. -/
def sleepThread (t : Tid) : Option State :=
  if s.call (.fiber t) = .idle ∧ s.sched.At t .code then
    -- a terminated thread unwinds
    if (s.info t).terminated then some s
    else if 0 < (s.info t).wakeupCount then
      some ((s.setInfo t fun info => awake { info with wakeupCount := info.wakeupCount - 1 }).setTally t
        fun tally => { tally with slept := tally.slept + 1 })
    else do
      let s ← s.scheduler fuel (.publish t)
      some ((s.setInfo t fun info => asleep { info with forceRelease := false }).setCall (.fiber t) .sleeping)
  else none

/-- A round of the loop of `SleepThread` after its wait. -/
def sleepCheck (t : Tid) : Option State :=
  if s.call (.fiber t) = .sleeping ∧ s.sched.At t .code then
    if (s.info t).terminated then some (s.setCall (.fiber t) .idle)
    else if (s.info t).forceRelease then
      some ((s.setInfo t fun info => awake { info with forceRelease := false }).setCall (.fiber t) .idle)
    else if 0 < (s.info t).wakeupCount then
      some (((s.setInfo t fun info => awake { info with wakeupCount := info.wakeupCount - 1 }).setTally t
        fun tally => { tally with slept := tally.slept + 1 }).setCall (.fiber t) .idle)
    else do
      -- a spurious wakeup
      let s ← s.scheduler fuel (.publish t)
      some (s.setInfo t asleep)
  else none

/-- `WakeupThread` under the mutex of the thread's record. -/
def wakeupThread (c : Caller) (t : Tid) : Option State :=
  if s.call c = .idle ∧ s.CanCall c then
    if t = 0 ∨ c = .fiber t ∨ (s.info t).status = .dormant then some s
    else
      let sleeping := (s.info t).status = .wait ∧ (s.info t).waitType = .sleep
      let s := s.setInfo t fun info => { info with wakeupCount := info.wakeupCount + 1 }
      let s := s.setTally t fun tally => { tally with accepted := tally.accepted + 1 }
      if sleeping then some ((s.setInfo t endWait).setCall c (.waking t)) else some s
  else none

def cancelWakeupThread (c : Caller) (t : Tid) : Option State :=
  if s.call c = .idle ∧ s.CanCall c then
    some ((s.setInfo t fun info => { info with wakeupCount := 0 }).setTally t
      fun tally => { tally with discarded := tally.discarded + (s.info t).wakeupCount })
  else none

/-- `ReleaseWaitThread` under the mutex of the thread's record. -/
def releaseWaitThread (c : Caller) (t : Tid) : Option State :=
  if s.call c = .idle ∧ s.CanCall c then
    if t = 0 ∨ c = .fiber t then some s
    else if (s.info t).status = .wait ∨ (s.info t).status = .waitSuspend then
      some ((s.setInfo t fun info => endWait { info with forceRelease := true }).setCall c (.waking t))
    else some s
  else none

/-- The `make_ready` of `WakeupThread` and `ReleaseWaitThread`. -/
def makeReady (c : Caller) : Option State :=
  match s.call c with
  | .waking t =>
    if s.CanCall c then do
      let s ← s.scheduler fuel (.makeReady t)
      some (s.setCall c .idle)
    else none
  | _ => none

/-! ### The rest of the program -/

/-- The fiber that executes a section of the scheduler, for those that only a fiber executes. -/
def byFiber : Sched.Act → Option Tid
  | .publish t | .suspendSelf t | .waitWhileSuspended t | .suspendGate t | .armPark t | .blockCurrent t | .maybeYield t
  | .forceReschedule t | .yieldToWorker t | .joinFiber t _ | .joinIteration t | .joinRestore t
  | .exitFiber t | .finishFiber t => some t
  | _ => none

/-- The sections of the scheduler that run outside these calls. A fiber inside a call executes
none of its own, except for `arm_park` and `block_current` where the call waits. A thread is
terminated after its record says so. -/
def allows : Sched.Act → Bool
  | .suspendSelf _ | .suspendOther _ | .clearSuspend _ | .schedulerShutdown _ => false
  | .requestTerminate t => (s.info t).terminated
  | .armPark t | .blockCurrent t =>
    s.call (.fiber t) = .idle ∨ s.call (.fiber t) = .parking ∨ s.call (.fiber t) = .sleeping
  | a =>
    match byFiber a with
    | some t => s.call (.fiber t) = .idle
    | none => true

end State

/-! ### Runs -/

inductive Act
  | scheduler (a : Sched.Act)
  | suspendThread (c : Caller) (t : Tid)
  | suspendFiber (c : Caller)
  | suspendReturn (t : Tid)
  | resumeThread (c : Caller) (t : Tid)
  | resumeRead (c : Caller)
  | resumeClear (c : Caller)
  | sleepThread (t : Tid)
  | sleepCheck (t : Tid)
  | wakeupThread (c : Caller) (t : Tid)
  | cancelWakeupThread (c : Caller) (t : Tid)
  | releaseWaitThread (c : Caller) (t : Tid)
  | makeReady (c : Caller)
  /-- `TerminateThread` under the mutex of the thread's record -/
  | terminateThread (t : Tid)
  /-- what a wait on an object writes to the record of its thread -/
  | setThreadWaiting (t : Tid) (waitType : WaitType)
  | clearThreadWaiting (t : Tid)
  | consumeForceRelease (t : Tid)
  /-- the end of `waitWhileSuspended` -/
  | runAgain (t : Tid)
  deriving DecidableEq, Repr

/-- A write of the thread `t` to its own record, outside the calls above. -/
def State.ownRecord (s : State) (t : Tid) (f : ThreadInfo → ThreadInfo) : Option State :=
  if s.call (.fiber t) = .idle ∧ s.sched.At t .code then some (s.setInfo t f) else none

def step (fuel : ℕ) (s : State) : Act → Option State
  | .scheduler a => if s.allows a then s.scheduler fuel a else none
  | .suspendThread c t => s.suspendThread c t
  | .suspendFiber c => s.suspendFiber fuel c
  | .suspendReturn t => s.suspendReturn t
  | .resumeThread c t => s.resumeThread c t
  | .resumeRead c => s.resumeRead c
  | .resumeClear c => s.resumeClear fuel c
  | .sleepThread t => s.sleepThread fuel t
  | .sleepCheck t => s.sleepCheck fuel t
  | .wakeupThread c t => s.wakeupThread c t
  | .cancelWakeupThread c t => s.cancelWakeupThread c t
  | .releaseWaitThread c t => s.releaseWaitThread c t
  | .makeReady c => s.makeReady fuel c
  | .terminateThread t =>
    if (s.info t).status = .dormant then some s
    else some (s.setInfo t fun info => { info with terminated := true, forceRelease := true })
  | .setThreadWaiting t waitType => s.ownRecord t (setThreadWaiting waitType)
  | .clearThreadWaiting t => s.ownRecord t clearThreadWaiting
  | .consumeForceRelease t => s.ownRecord t fun info => { info with forceRelease := false }
  | .runAgain t =>
    s.ownRecord t fun info =>
      { info with status := if info.suspendCount = 0 then .run else info.status }

def Step (s : State) (a : Act) (s' : State) : Prop := ∃ fuel, step fuel s a = some s'

/-- No call is in progress, and the scheduler is in a state it can reach and not stopping. -/
structure State.Initial (s : State) : Prop where
  sched : ∃ s₀ as, s₀.Initial ∧ Transition.Run Sched.Step s₀ as s.sched
  stop : s.sched.stop = false
  call : ∀ c, s.call c = .idle

end Ps2Recomp.Threads

/-!
# Rotating the ready queue

`RotateThreadReadyQueue` of `Thread.cpp`: the priority that it rotates, and its two sections of the
scheduler. The lock is free between them, so sections of other threads come in between.
-/

namespace Ps2Recomp.Sched

open Transition

/-- The priority that the call rotates, or `none` where it returns an error. The argument 0 stands
for `ThreadInfo::currentPriority`. -/
def rotatedPriority (arg currentPriority : ℤ) : Option ℤ :=
  let prio := if arg = 0 then (if 0 < currentPriority then currentPriority else 1) else arg
  if prio ≤ 0 ∨ 128 ≤ prio then none else some prio

/-- A section that is not one of the fiber `t`. -/
def ByOther (t : Tid) (s : State) (a : Act) (s' : State) : Prop :=
  Step s a s' ∧ Threads.State.byFiber a ≠ some t

/-- A call of the fiber `t` that rotates a priority: the state behind `rotate_ready_queue`, the
state in which `maybe_yield` looks at the queue, and the state behind it. -/
structure RotateCall (s : State) (t : Tid) (arg currentPriority : ℤ) (rotated looks s' : State) :
    Prop where
  runs : s.At t .code
  rotate : ∃ prio, rotatedPriority arg currentPriority = some prio ∧ Step s (.rotateReadyQueue prio) rotated
  between : ∃ as, Run (ByOther t) rotated as looks
  yield : Step looks (.maybeYield t) s'

end Ps2Recomp.Sched
