import Ps2Recomp.Spec.Threads

/-!
# The stacks of threads

`StartThread` allocates a stack for a thread that has none. Its record owns the stack, and three
exits give it back: `DeleteThread`, `on_fiber_exit` for a thread whose record has left `g_threads`,
and, through the latter, `ExitDeleteThread`.

Guest code executes in one slot, so a call is one step up to where it gives the slot up. Exit handlers
are guest code: they run in `ExitThread` and its kin before these unwind, and once more in
`on_fiber_exit`, and they make calls too.
-/

namespace Ps2Recomp.Stacks

open Threads (ThreadStatus)

/-- The fields that the calls on stacks read or write. -/
structure ThreadInfo where
  stack : BitVec 32 := 0
  stackSize : BitVec 32 := 0
  started : Bool := false
  ownsStack : Bool := false
  status : ThreadStatus := .dormant
  terminated : Bool := false
  deriving DecidableEq, Repr

/-- Where the fiber of a thread id stands. -/
inductive Phase
  /-- there is none -/
  | none
  | code
  /-- in `on_fiber_exit`, in the exit handlers, with the record it has looked up -/
  | hook (info : Option ℕ)
  deriving DecidableEq, Repr

/-- A stack that `StartThread` has obtained from `guestMalloc`. No call reads it. -/
structure Stack where
  info : ℕ
  address : BitVec 32
  /-- how often it was passed to `guestFree` -/
  frees : ℕ := 0
  deriving DecidableEq, Repr

structure State where
  /-- All records that were ever made. A caller keeps one that is deleted alive. -/
  info : ℕ → ThreadInfo
  created : ℕ
  /-- `g_threads` -/
  threads : List (ℤ × ℕ)
  nextThreadId : ℤ
  phase : ℤ → Phase
  /-- the record whose thread the fiber runs, if `StartThread` made the fiber -/
  runs : ℤ → Option ℕ
  autoStacks : ℕ → Stack
  stackCount : ℕ
  /-- the last stack that was obtained for a record -/
  stackOf : ℕ → Option ℕ

namespace State

variable (s : State)

def setInfo (i : ℕ) (f : ThreadInfo → ThreadInfo) : State :=
  { s with info := Function.update s.info i (f (s.info i)) }

def setPhase (t : ℤ) (phase : Phase) : State := { s with phase := Function.update s.phase t phase }

/-- `lookupThreadInfo` -/
def lookupThreadInfo (t : ℤ) : Option ℕ := s.threads.lookup t

/-- A new record. -/
def make (t : ℤ) (info : ThreadInfo) : State :=
  { s with
    info := Function.update s.info s.created info
    created := s.created + 1
    threads := (t, s.created) :: s.threads }

def erase (t : ℤ) : State := { s with threads := s.threads.filter (·.1 ≠ t) }

/-- `guestMalloc` for the record `i`. -/
def guestMalloc (i : ℕ) (address : BitVec 32) : State :=
  { s with
    autoStacks := Function.update s.autoStacks s.stackCount { info := i, address }
    stackCount := s.stackCount + 1
    stackOf := Function.update s.stackOf i (some s.stackCount) }

/-- `guestFree` of the stack of the record `i`. -/
def guestFree (i : ℕ) (address : BitVec 32) : State :=
  match s.stackOf i with
  | none => s
  | some k =>
    if (s.autoStacks k).address = address then
      { s with autoStacks := Function.update s.autoStacks k { s.autoStacks k with frees := (s.autoStacks k).frees + 1 } }
    else s

/-- A record that owns a stack gives it back. -/
def giveBack (i : ℕ) : State :=
  if (s.info i).ownsStack ∧ (s.info i).stack ≠ 0 then
    (s.guestFree i (s.info i).stack).setInfo i fun info =>
      { info with stack := 0, stackSize := 0, ownsStack := false }
  else s

end State

/-- The search for a thread id, with the next id to try. -/
def findThreadId (used : List ℤ) : ℕ → ℤ → Option ℤ × ℤ
  | 0, next => (none, next)
  | attempts + 1, next =>
    let candidate := if next < 2 ∨ 0xFF < next then 2 else next
    let next := if 0xFF ≤ candidate then 2 else candidate + 1
    if candidate ∈ used then findThreadId used attempts next else (some candidate, next)

namespace State

variable (s : State)

def createThread (stack stackSize : BitVec 32) : State :=
  match findThreadId (s.threads.map Prod.fst) 0xFE s.nextThreadId with
  | (none, next) => { s with nextThreadId := next }
  | (some id, next) => { s.make id { stack, stackSize } with nextThreadId := next }

def deleteThread (t : ℤ) : State :=
  match s.lookupThreadInfo t with
  | none => s
  | some i =>
    if t = 0 ∨ (s.info i).started ∨ (s.info i).status ≠ .dormant then s
    else (s.giveBack i).erase t

/-- `StartThread`, where `callable` says that the entry is registered and no stop was requested,
`autoStack` is what `guestMalloc` returns, and `fiber` that `create_fiber` did not throw. A fiber
is made for an id that has none. -/
def startThread (t : ℤ) (callable : Bool) (autoStack : BitVec 32) (fiber : Bool) : Option State :=
  match s.lookupThreadInfo t with
  | none => some s
  | some i =>
    if t = 0 ∨ !callable ∨ (s.info i).started ∨ (s.info i).status ≠ .dormant then some s
    else if s.phase t ≠ .none then none
    else
      let s := s.setInfo i fun info => { info with started := true, status := .ready, terminated := false }
      let s :=
        if (s.info i).stack = 0 ∧ (s.info i).stackSize ≠ 0 ∧ autoStack ≠ 0 then
          (s.guestMalloc i autoStack).setInfo i fun info =>
            { info with stack := autoStack, ownsStack := true }
        else s
      let s :=
        if (s.info i).stack ≠ 0 ∧ (s.info i).stackSize = 0 then
          s.setInfo i fun info => { info with stackSize := 0x800 }
        else s
      if fiber then some { s.setPhase t .code with runs := Function.update s.runs t (some i) }
      else some (s.setInfo i fun info => { info with started := false, status := .dormant })

/-- `ensureCurrentThreadInfo` on the fiber of `t` with the stack pointer `sp`. -/
def ensureCurrentThreadInfo (t : ℤ) (sp : BitVec 32) : State × ℕ :=
  match s.lookupThreadInfo t with
  | some i => (s, i)
  | none => (s.make t { started := true, status := .run, stack := sp }, s.created)

/-- The exception leaves the code of the fiber: the trampoline calls `on_fiber_exit`. One that an
exit handler throws goes no further than the handler. -/
def unwind (t : ℤ) (handler : Bool) : State :=
  if s.phase t = .code ∧ !handler then s.setPhase t (.hook (s.lookupThreadInfo t)) else s

/-- `markSelfExitingLocked` -/
def markSelfExiting (i : ℕ) : State := s.setInfo i fun info => { info with terminated := true }

/-- `ExitThread` after its exit handlers, called by the fiber of `t`, also from an exit handler. -/
def exitThread (t : ℤ) (sp : BitVec 32) (handler : Bool) : Option State :=
  if s.phase t = .none then none
  else
    let (s, i) := s.ensureCurrentThreadInfo t sp
    some ((s.markSelfExiting i).unwind t handler)

/-- `ExitDeleteThread` after its exit handlers. -/
def exitDeleteThread (t : ℤ) (sp : BitVec 32) (handler : Bool) : Option State :=
  if s.phase t = .none then none
  else
    let (s, i) := s.ensureCurrentThreadInfo t sp
    some (((s.markSelfExiting i).erase t).unwind t handler)

/-- The code of the fiber of `t` ends: it returns, or it is terminated and unwinds. -/
def endCode (t : ℤ) : Option State :=
  if s.phase t = .code then some (s.unwind t false) else none

/-- `TerminateThread` under the mutex of the thread's record. -/
def terminateThread (t : ℤ) : State :=
  match s.lookupThreadInfo t with
  | none => s
  | some i =>
    if (s.info i).status = .dormant then s
    else s.setInfo i fun info => { info with terminated := true }

/-- The rest of `on_fiber_exit`, after which the fiber is finished. -/
def onFiberExit (t : ℤ) : Option State :=
  match s.phase t with
  | .hook info =>
    let s :=
      match info with
      | none => s
      | some i =>
        let s := s.setInfo i fun info =>
          { info with started := false, status := .dormant, terminated := false }
        if (s.lookupThreadInfo t).isNone then s.giveBack i else s
    some { s.setPhase t .none with runs := Function.update s.runs t none }
  | _ => none

end State

/-! ### Runs -/

inductive Act
  | createThread (stack stackSize : BitVec 32)
  | deleteThread (t : ℤ)
  | startThread (t : ℤ) (callable : Bool) (autoStack : BitVec 32) (fiber : Bool)
  | exitThread (t : ℤ) (sp : BitVec 32) (handler : Bool)
  | exitDeleteThread (t : ℤ) (sp : BitVec 32) (handler : Bool)
  | terminateThread (t : ℤ)
  | endCode (t : ℤ)
  | onFiberExit (t : ℤ)
  /-- another call of the fiber of `t` that wants its record -/
  | ensureCurrentThreadInfo (t : ℤ) (sp : BitVec 32)
  deriving DecidableEq, Repr

def step (s : State) : Act → Option State
  | .createThread stack stackSize => some (s.createThread stack stackSize)
  | .deleteThread t => some (s.deleteThread t)
  | .startThread t callable autoStack fiber => s.startThread t callable autoStack fiber
  | .exitThread t sp handler => s.exitThread t sp handler
  | .exitDeleteThread t sp handler => s.exitDeleteThread t sp handler
  | .terminateThread t => some (s.terminateThread t)
  | .endCode t => s.endCode t
  | .onFiberExit t => s.onFiberExit t
  | .ensureCurrentThreadInfo t sp =>
    if s.phase t = .none then none else some (s.ensureCurrentThreadInfo t sp).1

def Step (s : State) (a : Act) (s' : State) : Prop := step s a = some s'

/-- No thread yet. There may be fibers that were not made by `StartThread`. -/
structure State.Initial (s : State) : Prop where
  created : s.created = 0
  threads : s.threads = []
  phase : ∀ t, s.phase t = .none ∨ s.phase t = .code
  runs : ∀ t, s.runs t = none
  stackCount : s.stackCount = 0
  stackOf : ∀ i, s.stackOf i = none

def State.init : State where
  info _ := {}
  created := 0
  threads := []
  nextThreadId := 2
  phase t := if t = 1 then .code else .none
  runs _ := none
  autoStacks _ := { info := 0, address := 0 }
  stackCount := 0
  stackOf _ := none

end Ps2Recomp.Stacks
