import Ps2Recomp.Lib.Indices
import Ps2Recomp.Lib.Intrusive
import Ps2Recomp.Lib.Transition

/-!
# The fiber scheduler

One executor thread runs all guest fibers, one at a time; host workers borrow the guest slot
with a token. All of it is shared state behind `g_sched_mutex`, so a step of the model is one
critical section (or one atomic operation outside the lock), and a run interleaves the steps of
the executor, the fibers, the workers and any other host thread.

The run queue is the intrusive list of the source: `FiberContext.next` links the nodes and the
walks over it are the source's loops. A loop that never ends has no step: `Step` asks for some
number of rounds that is enough.

A fiber's own code is not modelled. `FiberPc` says where in the scheduler's protocols it stands;
`FiberPc.code` is everywhere else, where it may call any operation.
-/

namespace Ps2Recomp.Sched

open Intrusive

/-- The bits of a guest thread id. -/
abbrev Tid := BitVec 32

/-- `FiberContext::State` -/
inductive FiberState
  | fresh | ready | running | blocked | exiting | finished
  deriving DecidableEq, Repr

structure FiberContext where
  /-- A lower number is a higher priority. -/
  priority : ℤ := 1
  generation : BitVec 32 := 0
  state : FiberState := .fresh
  next : Option Tid := none
  inRunQueue : Bool := false
  wakePending : Bool := false
  terminateRequested : Bool := false
  suspendCount : ℕ := 0
  joinFloorActive : Bool := false
  joinSavedPriority : ℤ := 0
  deriving DecidableEq, Repr

/-- Where a fiber stands. -/
inductive FiberPc
  | code
  /-- on an object's wait-list, before `arm_park` -/
  | waiting
  /-- in `suspend_self` or `waitWhileSuspended`, before `arm_park` -/
  | suspending
  /-- in `yield_point`, past the suspend check and before `block_current` -/
  | gated
  /-- between `arm_park` and `block_current` -/
  | armed (published : Bool)
  /-- in the `ps2fiber_yield` of `block_current` -/
  | parked (published : Bool)
  /-- in a cooperative `ps2fiber_yield` -/
  | yielded
  /-- in `join_fiber`, before an iteration of its loop -/
  | joining (tid : Tid) (generation : BitVec 32)
  /-- in the `ps2fiber_yield` of `join_fiber` -/
  | joinYielded (tid : Tid) (generation : BitVec 32)
  /-- in `join_fiber`, after its loop -/
  | joined
  /-- in the last `ps2fiber_yield` of the trampoline -/
  | finished
  deriving DecidableEq, Repr

/-- The fiber executes; otherwise it has switched back to the executor. -/
def FiberPc.executing : FiberPc → Bool
  | .parked _ | .yielded | .joinYielded _ _ | .finished => false
  | .code | .waiting | .suspending | .gated | .armed _ | .joining _ _ | .joined => true

/-- Where a resumed fiber goes on. A new fiber starts with its code. -/
def FiberPc.resumed : FiberPc → FiberPc
  | .parked _ | .yielded => .code
  | .joinYielded t g => .joining t g
  | .joining t g => .joining t g
  | .armed published => .armed published
  | .code => .code
  | .waiting => .waiting
  | .suspending => .suspending
  | .gated => .gated
  | .joined => .joined
  | .finished => .finished

/-- On a wait-list, and `block_current` has not returned yet. -/
def FiberPc.published : FiberPc → Bool
  | .waiting => true
  | .armed published | .parked published => published
  | .code | .suspending | .gated | .yielded | .joining _ _ | .joinYielded _ _ | .joined
  | .finished => false

inductive ExecutorPc
  /-- in `g_sched_cv.wait` -/
  | waiting
  /-- in `ps2fiber_resume` -/
  | resuming (tid : Tid)
  /-- in `ps2fiber_free`, without the lock -/
  | freeing
  | quit
  deriving DecidableEq, Repr

/-- A host worker that pairs `async_guest_begin` with `async_guest_end`. -/
inductive WorkerPc
  | idle
  /-- counted in `g_host_token_waiters`, before its wait is over -/
  | waiting
  | holding
  deriving DecidableEq, Repr

structure State where
  /-- The contexts, under the thread ids by which `g_fiber_map` has them. -/
  fibers : Tid → FiberContext
  /-- The keys of `g_fiber_map`. -/
  fiberMap : List Tid
  runQueue : Option Tid
  runningFiber : Option Tid
  guestTokenHeldByHost : Bool
  stop : Bool
  hostTokenWaiters : ℤ
  hostTokenGrants : BitVec 64
  nextGeneration : BitVec 32
  executor : ExecutorPc
  deferringToWaiters : Bool
  grantsAtDefer : BitVec 64
  pc : Tid → FiberPc
  /-- The fiber's code is over and its exit hook runs. -/
  inExitHook : Tid → Bool
  worker : ℕ → WorkerPc
  tlsHoldsGuestToken : ℕ → Bool
  /-- A `SCHED_REQUIRE` failed. -/
  fatal : Bool

namespace State

def modify (s : State) (t : Tid) (f : FiberContext → FiberContext) : State :=
  { s with fibers := Function.update s.fibers t (f (s.fibers t)) }

def setPc (s : State) (t : Tid) (pc : FiberPc) : State :=
  { s with pc := Function.update s.pc t pc }

/-! ### The run queue -/

/-- The links of the run queue. -/
def chain (s : State) : Chain Tid where
  head := s.runQueue
  next t := (s.fibers t).next

def setChain (s : State) (c : Chain Tid) : State :=
  { s with runQueue := c.head, fibers := fun t => { s.fibers t with next := c.next t } }

def enqueueLocked (fuel : ℕ) (s : State) (t : Tid) : Option State :=
  if (s.fibers t).inRunQueue then some s
  else do
    let s := s.modify t fun fc => { fc with inRunQueue := true, state := .ready }
    -- stable: behind the nodes of the same priority
    let pp ← s.chain.seek (fun u => (s.fibers u).priority ≤ (s.fibers t).priority) fuel .head
    some (s.setChain (s.chain.link pp t))

def removeLocked (fuel : ℕ) (s : State) (t : Tid) : Option State :=
  if !(s.fibers t).inRunQueue then some s
  else do
    let pp ← s.chain.seek (· ≠ t) fuel .head
    if (s.chain.get pp).isSome then
      some ((s.setChain (s.chain.unlink pp t)).modify t fun fc => { fc with inRunQueue := false })
    else some s

def popHeadLocked (s : State) : Option (Tid × State) :=
  match s.runQueue with
  | none => none
  | some t =>
    some (t, (s.setChain (s.chain.unlink .head t)).modify t fun fc => { fc with inRunQueue := false })

def rotateReadyQueue (fuel : ℕ) (s : State) (priority : ℤ) : Option State := do
  let pp ← s.chain.seek (fun u => (s.fibers u).priority ≠ priority) fuel .head
  match s.chain.get pp with
  | none => some s
  | some victim =>
    let c := s.chain.unlink pp victim
    let ins ← c.seek (fun u => (s.fibers u).priority = priority) fuel pp
    some (s.setChain (c.link ins victim))

/-! ### Waking -/

def wakeLocked (fuel : ℕ) (s : State) (t : Tid) : Option State :=
  if (s.fibers t).inRunQueue then some s
  -- the running fiber owns its link: `block_current` or the executor honours the wakeup
  else if s.runningFiber = some t then some (s.modify t fun fc => { fc with wakePending := true })
  else s.enqueueLocked fuel t

def makeReady (fuel : ℕ) (s : State) (t : Tid) : Option State :=
  if t ∈ s.fiberMap ∧ (s.fibers t).suspendCount = 0 then s.wakeLocked fuel t else some s

/-- `make_fiber_token` -/
def makeFiberToken (s : State) (t : Tid) : BitVec 64 := (s.fibers t).generation ++ t

def enqueueExternalWakeupValidated (fuel : ℕ) (s : State) (t : Tid) (token : BitVec 64) : Option State :=
  if t ∈ s.fiberMap ∧ token ≠ 0 ∧ s.makeFiberToken t = token ∧ (s.fibers t).suspendCount = 0 then
    s.wakeLocked fuel t
  else some s

def requestTerminate (fuel : ℕ) (s : State) (t : Tid) : Option State :=
  if t ∈ s.fiberMap then
    (s.modify t fun fc => { fc with terminateRequested := true, suspendCount := 0 }).wakeLocked fuel t
  else some s

def clearSuspend (fuel : ℕ) (s : State) (t : Tid) : Option State :=
  if t ∈ s.fiberMap then
    (s.modify t fun fc => { fc with suspendCount := 0 }).wakeLocked fuel t
  else some s

def suspendOther (fuel : ℕ) (s : State) (t : Tid) : Option State :=
  if t ∈ s.fiberMap then
    let s := s.modify t fun fc => { fc with suspendCount := fc.suspendCount + 1 }
    if (s.fibers t).state = .ready then do
      let s ← s.removeLocked fuel t
      some (s.modify t fun fc => { fc with state := .blocked })
    else some s
  else some s

def updatePriority (fuel : ℕ) (s : State) (t : Tid) (newPriority : ℤ) : Option State :=
  if t ∉ s.fiberMap then some s
  else if (s.fibers t).joinFloorActive then
    some (s.modify t fun fc => { fc with joinSavedPriority := newPriority })
  else if (s.fibers t).priority = newPriority then some s
  else if (s.fibers t).inRunQueue then do
    let s ← s.removeLocked fuel t
    (s.modify t fun fc => { fc with priority := newPriority }).enqueueLocked fuel t
  else some (s.modify t fun fc => { fc with priority := newPriority })

/-- What `scheduler_shutdown` does to one fiber. -/
def shutdownFiber (fuel : ℕ) (s : State) (t : Tid) : Option State :=
  match (s.fibers t).state with
  | .blocked =>
    (s.modify t fun fc => { fc with terminateRequested := true, suspendCount := 0 }).wakeLocked fuel t
  | .exiting => (s.modify t fun fc => { fc with suspendCount := 0 }).wakeLocked fuel t
  | _ => some (s.modify t fun fc => { fc with terminateRequested := true })

/-- The fibers come in the order of the hash map. -/
def schedulerShutdown (fuel : ℕ) (s : State) (order : List Tid) : Option State :=
  order.foldlM (shutdownFiber fuel) { s with stop := true }

/-- The last section of `create_fiber`. That the scheduler is not stopping was checked in a
section before it. The callers start a dormant thread only, and a thread turns dormant on its
own fiber, which leaves the map before other guest code runs. -/
def createFiber (fuel : ℕ) (s : State) (t : Tid) (priority : ℤ) : Option State :=
  if t ∈ s.fiberMap ∨ t = 0 then none
  else
    let fc : FiberContext := { priority, generation := s.nextGeneration }
    { s with
      fibers := Function.update s.fibers t fc
      fiberMap := t :: s.fiberMap
      nextGeneration := s.nextGeneration + 1
      pc := Function.update s.pc t .code
      inExitHook := Function.update s.inExitHook t false }.enqueueLocked fuel t

/-! ### The fiber that executes -/

/-- The executor has switched to `t`, which stands at `pc`. -/
def At (s : State) (t : Tid) (pc : FiberPc) : Prop := s.executor = .resuming t ∧ s.pc t = pc

instance (s : State) (t : Tid) (pc : FiberPc) : Decidable (s.At t pc) :=
  inferInstanceAs (Decidable (_ ∧ _))

/-- `t` appends itself to the wait-list of an object. -/
def publish (s : State) (t : Tid) : Option State :=
  if s.At t .code then some (s.setPc t .waiting) else none

/-- The first step of `suspend_self`. -/
def suspendSelf (s : State) (t : Tid) : Option State :=
  if s.At t .code then
    some ((s.modify t fun fc => { fc with suspendCount := fc.suspendCount + 1 }).setPc t .suspending)
  else none

/-- A round of `waitWhileSuspended`, which looks at the guest's count only. -/
def waitWhileSuspended (s : State) (t : Tid) : Option State :=
  if s.At t .code then some (s.setPc t .suspending) else none

/-- The suspend check of `yield_point`. -/
def suspendGate (s : State) (t : Tid) : Option State :=
  if s.At t .code ∧ 0 < (s.fibers t).suspendCount then some (s.setPc t .gated) else none

def armPark (s : State) (t : Tid) : Option State :=
  if s.At t .waiting then
    some ((s.modify t fun fc => { fc with state := .blocked }).setPc t (.armed true))
  else if s.At t .suspending then
    some ((s.modify t fun fc => { fc with state := .blocked }).setPc t (.armed false))
  else none

/-- The section of `block_current` for a fiber that is on a wait-list or not. It throws, returns
at once, or parks. -/
def blockSection (s : State) (t : Tid) (published : Bool) : State :=
  if s.stop && (s.fibers t).terminateRequested then
    (s.modify t fun fc => { fc with wakePending := false, state := .running }).setPc t .code
  else if (s.fibers t).wakePending then
    (s.modify t fun fc => { fc with wakePending := false, state := .running }).setPc t .code
  else
    (s.modify t fun fc => { fc with wakePending := false, state := .blocked }).setPc t (.parked published)

def blockCurrent (s : State) (t : Tid) : Option State :=
  if s.executor = .resuming t then
    match s.pc t with
    | .armed published => some (s.blockSection t published)
    | .gated => some (s.blockSection t false)
    | _ => none
  else none

/-- `maybe_yield` and `force_reschedule`: `t` queues itself and yields if the head of the run
queue has a priority that `gives` way to. -/
def yieldTo (gives : ℤ → ℤ → Bool) (fuel : ℕ) (s : State) (t : Tid) : Option State :=
  if s.At t .code then
    match s.runQueue with
    | none => some s
    | some head =>
      if gives (s.fibers head).priority (s.fibers t).priority then do
        let s ← s.enqueueLocked fuel t
        some (s.setPc t .yielded)
      else some s
  else none

def maybeYield : ℕ → State → Tid → Option State := yieldTo (· < ·)

def forceReschedule : ℕ → State → Tid → Option State := yieldTo (· ≤ ·)

/-- The last step of `yield_point`: a host worker waits for the token. -/
def yieldToWorker (s : State) (t : Tid) : Option State :=
  if s.At t .code ∧ 0 < s.hostTokenWaiters then some (s.setPc t .yielded) else none

/-- The first section of `join_fiber`. -/
def joinFiber (s : State) (t target : Tid) : Option State :=
  if s.At t .code then
    if target ∈ s.fiberMap then some (s.setPc t (.joining target (s.fibers target).generation))
    else some s
  else none

/-- The section of an iteration of the loop of `join_fiber`. -/
def joinIteration (s : State) (t : Tid) : Option State :=
  if s.executor = .resuming t then
    match s.pc t with
    | .joining target generation =>
      if target ∉ s.fiberMap ∨ (s.fibers target).generation ≠ generation ∨ (s.fibers target).state = .finished then
        some (s.setPc t .joined)
      else
        let floor := (s.fibers target).priority
        let s := s.setPc t (.joinYielded target generation)
        if (s.fibers t).priority < floor then
          some (s.modify t fun fc =>
            { fc with
              joinFloorActive := true
              joinSavedPriority := if fc.joinFloorActive then fc.joinSavedPriority else fc.priority
              priority := floor })
        else some s
    | _ => none
  else none

/-- The last section of `join_fiber`. -/
def joinRestore (s : State) (t : Tid) : Option State :=
  if s.At t .joined then
    let s := s.setPc t .code
    if (s.fibers t).joinFloorActive then
      let restore := (s.fibers t).joinSavedPriority
      let s := s.modify t fun fc => { fc with joinFloorActive := false }
      if (s.fibers t).priority ≠ restore then
        if (s.fibers t).inRunQueue then some { s with fatal := true }
        else some (s.modify t fun fc => { fc with priority := restore })
      else some s
    else some s
  else none

/-- The trampoline, when the fiber's code is over. -/
def exitFiber (s : State) (t : Tid) : Option State :=
  if s.At t .code ∧ s.inExitHook t = false then
    some { s.modify t fun fc => { fc with state := .exiting } with
      inExitHook := Function.update s.inExitHook t true }
  else none

/-- The trampoline, when the exit hook is over. -/
def finishFiber (s : State) (t : Tid) : Option State :=
  if s.At t .code ∧ s.inExitHook t = true then
    some ((s.modify t fun fc => { fc with state := .finished }).setPc t .finished)
  else none

/-! ### The executor -/

def canQuit (s : State) : Bool := s.stop && s.runQueue.isNone

/-- The predicate keeps the executor's own record of a deferral. -/
def canRun (s : State) : Bool × State :=
  if s.runQueue.isNone || s.runningFiber.isSome || s.guestTokenHeldByHost then (false, s)
  else if s.hostTokenWaiters = 0 then (true, { s with deferringToWaiters := false })
  else if !s.deferringToWaiters then
    (false, { s with deferringToWaiters := true, grantsAtDefer := s.hostTokenGrants })
  else if s.hostTokenGrants ≠ s.grantsAtDefer then (true, { s with deferringToWaiters := false })
  else (false, s)

/-- The executor switches to `t`, just popped. -/
def resume (s : State) (t : Tid) : State :=
  { (s.modify t fun fc => { fc with state := .running }).setPc t (s.pc t).resumed with
    runningFiber := some t
    executor := .resuming t }

/-- One evaluation of the wait's predicate and, if it holds, what follows up to the unlock. -/
def executorWait (s : State) : Option State :=
  if s.executor = .waiting then
    if s.canQuit then some { s with executor := .quit }
    else
      match s.canRun with
      | (false, s) => some s
      | (true, s) =>
        match s.popHeadLocked with
        | none => some { s with fatal := true }
        | some (t, s) => some (s.resume t)
  else none

/-- The section after `ps2fiber_resume`. -/
def executorPost (fuel : ℕ) (s : State) : Option State :=
  match s.executor with
  | .resuming t =>
    if (s.pc t).executing then none
    else
      let s := { s with runningFiber := none, executor := .waiting }
      match (s.fibers t).state with
      | .running | .exiting => s.enqueueLocked fuel t
      | .blocked =>
        if (s.fibers t).wakePending ∧ (s.fibers t).suspendCount = 0 then
          (s.modify t fun fc => { fc with wakePending := false }).enqueueLocked fuel t
        else some s
      | .finished =>
        some { s with fiberMap := s.fiberMap.filter (· ≠ t), executor := .freeing }
      | .fresh | .ready => some s
  | _ => none

/-- The executor takes the lock again after `ps2fiber_free`. -/
def executorFreed (s : State) : Option State :=
  if s.executor = .freeing then some { s with executor := .waiting } else none

/-! ### Host workers -/

/-- `async_guest_begin` up to the lock. -/
def asyncGuestBegin (s : State) (w : ℕ) : Option State :=
  if s.worker w = .idle then
    some { s with
      hostTokenWaiters := s.hostTokenWaiters + 1
      worker := Function.update s.worker w .waiting }
  else none

/-- `async_guest_begin` when its wait is over. -/
def asyncGuestGrant (s : State) (w : ℕ) : Option State :=
  if s.worker w = .waiting ∧ s.runningFiber = none ∧ s.guestTokenHeldByHost = false then
    some { s with
      guestTokenHeldByHost := true
      tlsHoldsGuestToken := Function.update s.tlsHoldsGuestToken w true
      hostTokenWaiters := s.hostTokenWaiters - 1
      hostTokenGrants := s.hostTokenGrants + 1
      worker := Function.update s.worker w .holding }
  else none

def asyncGuestEnd (s : State) (w : ℕ) : Option State :=
  if s.worker w = .holding then
    if !s.guestTokenHeldByHost || !s.tlsHoldsGuestToken w then some { s with fatal := true }
    else
      some { s with
        guestTokenHeldByHost := false
        tlsHoldsGuestToken := Function.update s.tlsHoldsGuestToken w false
        worker := Function.update s.worker w .idle }
  else none

end State

/-! ### Runs -/

inductive Act
  | executorWait | executorPost | executorFreed
  | publish (t : Tid) | suspendSelf (t : Tid) | waitWhileSuspended (t : Tid)
  | suspendGate (t : Tid) | armPark (t : Tid)
  | blockCurrent (t : Tid) | maybeYield (t : Tid) | forceReschedule (t : Tid)
  | yieldToWorker (t : Tid) | joinFiber (t target : Tid) | joinIteration (t : Tid)
  | joinRestore (t : Tid) | exitFiber (t : Tid) | finishFiber (t : Tid)
  | createFiber (t : Tid) (priority : ℤ) | requestTerminate (t : Tid)
  | updatePriority (t : Tid) (newPriority : ℤ) | makeReady (t : Tid)
  | enqueueExternalWakeupValidated (t : Tid) (token : BitVec 64) | suspendOther (t : Tid)
  | clearSuspend (t : Tid) | rotateReadyQueue (priority : ℤ) | schedulerShutdown (order : List Tid)
  | asyncGuestBegin (w : ℕ) | asyncGuestGrant (w : ℕ) | asyncGuestEnd (w : ℕ)
  deriving DecidableEq, Repr

/-- One step with at most `fuel` rounds for each loop. After a failed `SCHED_REQUIRE` there is
none. -/
def step (fuel : ℕ) (s : State) (a : Act) : Option State :=
  if s.fatal then none
  else
    match a with
    | .executorWait => s.executorWait
    | .executorPost => s.executorPost fuel
    | .executorFreed => s.executorFreed
    | .publish t => s.publish t
    | .suspendSelf t => s.suspendSelf t
    | .waitWhileSuspended t => s.waitWhileSuspended t
    | .suspendGate t => s.suspendGate t
    | .armPark t => s.armPark t
    | .blockCurrent t => s.blockCurrent t
    | .maybeYield t => s.maybeYield fuel t
    | .forceReschedule t => s.forceReschedule fuel t
    | .yieldToWorker t => s.yieldToWorker t
    | .joinFiber t target => s.joinFiber t target
    | .joinIteration t => s.joinIteration t
    | .joinRestore t => s.joinRestore t
    | .exitFiber t => s.exitFiber t
    | .finishFiber t => s.finishFiber t
    | .createFiber t priority => s.createFiber fuel t priority
    | .requestTerminate t => s.requestTerminate fuel t
    | .updatePriority t newPriority => s.updatePriority fuel t newPriority
    | .makeReady t => s.makeReady fuel t
    | .enqueueExternalWakeupValidated t token => s.enqueueExternalWakeupValidated fuel t token
    | .suspendOther t => s.suspendOther fuel t
    | .clearSuspend t => s.clearSuspend fuel t
    | .rotateReadyQueue priority => s.rotateReadyQueue fuel priority
    | .schedulerShutdown order =>
      if order.Perm s.fiberMap then s.schedulerShutdown fuel order else none
    | .asyncGuestBegin w => s.asyncGuestBegin w
    | .asyncGuestGrant w => s.asyncGuestGrant w
    | .asyncGuestEnd w => s.asyncGuestEnd w

def Step (s : State) (a : Act) (s' : State) : Prop := ∃ fuel, step fuel s a = some s'

/-- After `scheduler_init`: no fiber, no worker at work. -/
structure State.Initial (s : State) : Prop where
  fiberMap : s.fiberMap = []
  runQueue : s.runQueue = none
  runningFiber : s.runningFiber = none
  guestTokenHeldByHost : s.guestTokenHeldByHost = false
  executor : s.executor = .waiting
  pc : ∀ t, s.pc t = .code
  worker : ∀ w, s.worker w = .idle
  tlsHoldsGuestToken : ∀ w, s.tlsHoldsGuestToken w = false
  fatal : s.fatal = false

/-- The first epoch of a process. -/
def State.init : State where
  fibers _ := {}
  fiberMap := []
  runQueue := none
  runningFiber := none
  guestTokenHeldByHost := false
  stop := false
  hostTokenWaiters := 0
  hostTokenGrants := 0
  nextGeneration := 1
  executor := .waiting
  deferringToWaiters := false
  grantsAtDefer := 0
  pc _ := .code
  inExitHook _ := false
  worker _ := .idle
  tlsHoldsGuestToken _ := false
  fatal := false

end Ps2Recomp.Sched
