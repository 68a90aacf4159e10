import Ps2Recomp.Spec.Threads

/-!
# Waiting for the vertical blank

`WaitForNextVSyncTick` (`Interrupt.cpp`) on a fiber, and `signalVSyncFlag` on the interrupt worker. A fiber
reads the tick counter, enters itself in `g_vsync_waitList`, parks once, and returns the counter. The worker
counts, takes the list in a later section, and wakes the entries one by one.

All other sections of the scheduler come in between, among them every other way to wake a fiber.
-/

namespace Ps2Recomp.VSyncWait

open Sched (Tid)

/-- An entry of `g_vsync_waitList`: the thread id and the token of the fiber. -/
abbrev Entry : Type := Tid × BitVec 64

/-- Where a fiber stands in `WaitForNextVSyncTick`. -/
inductive Call
  | idle
  /-- the counter is read -/
  | entered (entryTick : BitVec 64)
  /-- entered in the list, in or behind the park; `parked` if `block_current` did park -/
  | waiting (entryTick token : BitVec 64) (parked : Bool)
  deriving DecidableEq, Repr

/-- Where the interrupt worker stands. -/
inductive Worker
  /-- behind the count, before it takes the list -/
  | ticked
  /-- with the entries that it still has to wake -/
  | waking (waiters : List Entry)
  deriving DecidableEq, Repr

structure State where
  sched : Sched.State
  tickCounter : BitVec 64
  waitList : List Entry
  worker : Worker
  call : Tid → Call
  /-- the flag of the thread's record, if it has one -/
  terminated : Tid → Bool
  /-- what the last call returned -/
  returned : Tid → BitVec 64

namespace State

variable (fuel : ℕ) (s : State)

def setCall (t : Tid) (call : Call) : State := { s with call := Function.update s.call t call }

/-- The first section of `WaitForNextVSyncTick`. -/
def enter (t : Tid) : Option State :=
  if s.call t = .idle ∧ s.sched.At t .code then some (s.setCall t (.entered s.tickCounter)) else none

/-- The section that publishes the fiber. -/
def publish (t : Tid) : Option State :=
  match s.call t with
  | .entered entryTick => do
    let sched ← Sched.step fuel s.sched (.publish t)
    let token := s.sched.makeFiberToken t
    some ({ s with sched, waitList := s.waitList ++ [(t, token)] }.setCall t (.waiting entryTick token false))
  | _ => none

/-- Erases the fiber's own entry, if it is still in the list. -/
def unlist (token : BitVec 64) : State := { s with waitList := s.waitList.eraseP fun e => e.2 = token }

/-- The end of the call: a fiber that did park and is terminated unwinds, otherwise the counter is returned. -/
def finish (t : Tid) : Option State :=
  match s.call t with
  | .waiting _ token parked =>
    if s.sched.At t .code then
      let s := (s.unlist token).setCall t .idle
      if parked ∧ s.terminated t then some s
      else some { s with returned := Function.update s.returned t s.tickCounter }
    else none
  | _ => none

/-- The first section of `signalVSyncFlag`. -/
def tick : Option State :=
  if s.worker = .waking [] then some { s with tickCounter := s.tickCounter + 1, worker := .ticked } else none

/-- The section of `wakeWaiters`. -/
def takeList : Option State :=
  if s.worker = .ticked then some { s with waitList := [], worker := .waking s.waitList } else none

/-- `wakeWaiters` wakes the next entry. -/
def wake : Option State :=
  match s.worker with
  | .waking ((t, token) :: waiters) => do
    let sched ← Sched.step fuel s.sched (.enqueueExternalWakeupValidated t token)
    some { s with sched, worker := .waking waiters }
  | _ => none

/-- The sections of the scheduler outside the calls. A fiber in a call executes none of its own, except for
`arm_park` and `block_current` where it waits. -/
def allows : Sched.Act → Bool
  | .schedulerShutdown _ => false
  | .armPark t | .blockCurrent t =>
    match s.call t with
    | .entered _ => false
    | _ => true
  | a =>
    match Threads.State.byFiber a with
    | some t => s.call t = .idle
    | none => true

/-- A section of the scheduler; `block_current` tells its caller whether it parks. -/
def scheduler (a : Sched.Act) : Option State :=
  if s.allows a then do
    let sched ← Sched.step fuel s.sched a
    match a with
    | .blockCurrent t =>
      match s.call t with
      | .waiting entryTick token _ =>
        some ({ s with sched }.setCall t (.waiting entryTick token (sched.pc t = Sched.FiberPc.parked true)))
      | _ => some { s with sched }
    | _ => some { s with sched }
  else none

end State

/-! ### Runs -/

inductive Act
  | enter (t : Tid)
  | publish (t : Tid)
  | finish (t : Tid)
  | tick
  | takeList
  | wake
  | scheduler (a : Sched.Act)
  /-- any other write to a thread's record -/
  | setTerminated (t : Tid) (terminated : Bool)
  deriving DecidableEq, Repr

def step (fuel : ℕ) (s : State) : Act → Option State
  | .enter t => s.enter t
  | .publish t => s.publish fuel t
  | .finish t => s.finish t
  | .tick => s.tick
  | .takeList => s.takeList
  | .wake => s.wake fuel
  | .scheduler a => s.scheduler fuel a
  | .setTerminated t terminated => some { s with terminated := Function.update s.terminated t terminated }

def Step (s : State) (a : Act) (s' : State) : Prop := ∃ fuel, step fuel s a = some s'

/-- No call is in progress, and the scheduler is in a state it can reach and not stopping. -/
structure State.Initial (s : State) : Prop where
  sched : ∃ s₀ as, s₀.Initial ∧ Transition.Run Sched.Step s₀ as s.sched
  stop : s.sched.stop = false
  call : ∀ t, s.call t = .idle
  waitList : s.waitList = []

/-- The section wakes the fiber `f`: its wakeup is not dropped. -/
def Rouses (s : Sched.State) (f : Tid) : Sched.Act → Prop
  | .makeReady t => t = f ∧ (s.fibers f).suspendCount = 0
  | .enqueueExternalWakeupValidated t token =>
    t = f ∧ token ≠ 0 ∧ s.makeFiberToken f = token ∧ (s.fibers f).suspendCount = 0
  | .clearSuspend t => t = f
  | .requestTerminate t => t = f
  | _ => False

/-- `f` waits, and there was no tick since it entered its call. -/
def State.Early (s : State) (f : Tid) : Prop := ∃ token parked, s.call f = .waiting s.tickCounter token parked

/-- **No wakeup comes before the tick**: none is pending when `f` enters itself in the list, and none comes
while the counter is what `f` read, be it of the worker, with an entry of the tick before, or of somebody else.
And the counter does not wrap. -/
def Calm (f : Tid) (s : State) : Act → Prop
  | .publish t => t = f → s.call f = .entered s.tickCounter → (s.sched.fibers f).wakePending = false
  | .scheduler a => s.Early f → ¬Rouses s.sched f a
  | .wake =>
    s.Early f → ∀ t token waiters, s.worker = .waking ((t, token) :: waiters) →
      ¬Rouses s.sched f (.enqueueExternalWakeupValidated t token)
  | .tick => s.tickCounter ≠ BitVec.allOnes 64
  | _ => True

end Ps2Recomp.VSyncWait
