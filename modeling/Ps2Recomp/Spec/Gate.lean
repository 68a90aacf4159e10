import Ps2Recomp.Spec.Threads

/-!
# The interrupt-disable gate

A guest that has cleared the `EIE` bit of its COP0 status does not give its slot up in `yield_point`.
The bit's shadow `tls_intr_disabled` is a thread-local variable, so it belongs to the OS thread that
executes the guest code: to the executor, for all fibers alike, or to the fiber's own thread if the
fibers are built on pthreads.

The rest of `yield_point`, and all else that the scheduler does, are its sections.
-/

namespace Ps2Recomp.Gate

open Sched (Tid)
open Threads (Caller)

/-- How `ps2_fiber.cpp` makes fibers. -/
inductive Backend
  /-- ucontext, SceFiber or Win32: the fibers are switched on the executor thread -/
  | executor
  /-- `PS2X_FIBER_PTHREAD` -/
  | pthread
  deriving DecidableEq, Repr

inductive OsThread
  | executor
  | fiber (t : Tid)
  | host (w : ℕ)
  deriving DecidableEq, Repr

/-- The thread that executes the code of a fiber, or of a host worker. -/
def osThread : Backend → Caller → OsThread
  | .executor, .fiber _ => .executor
  | .pthread, .fiber t => .fiber t
  | _, .host w => .host w

/-- The thread-local variables. -/
structure Tls where
  intrDisabled : Bool := false
  intrDisableSamples : BitVec 32 := 0
  backedgeCounter : BitVec 32 := 0
  deriving DecidableEq, Repr

def kIntrDisableYieldEscape : BitVec 32 := 4096

def Tls.guestIntrDisableEnter (tls : Tls) : Tls :=
  if tls.intrDisabled then tls else { tls with intrDisabled := true, intrDisableSamples := 0 }

def Tls.guestIntrDisableLeave (tls : Tls) : Tls :=
  if !tls.intrDisabled then tls else { tls with intrDisabled := false, intrDisableSamples := 0 }

/-- What `yield_point` decides before its last two steps, the only ones in which a fiber gives the
slot up to another of its own accord. -/
inductive Decision
  /-- not one of 128 back-edges -/
  | unsampled
  /-- on a host worker -/
  | worker
  /-- throws `ThreadExitException` -/
  | terminate
  | suspend
  /-- the gate is closed: the fiber keeps the slot -/
  | keep
  /-- `maybe_yield` and the handoff to a host worker come next; with `escape` for a section that the
  safety valve let through -/
  | surrender (escape : Bool)
  deriving DecidableEq, Repr

/-- The gate. -/
def Tls.gate (tls : Tls) : Tls × Decision :=
  if tls.intrDisabled then
    let tls := { tls with intrDisableSamples := tls.intrDisableSamples + 1 }
    if tls.intrDisableSamples < kIntrDisableYieldEscape then (tls, .keep)
    else ({ tls with intrDisableSamples := 0 }, .surrender true)
  else (tls, .surrender false)

/-- The first part of `yield_point` on a thread whose current fiber is `fc`. -/
def Tls.yieldPoint (tls : Tls) (fc : Option Sched.FiberContext) : Tls × Decision :=
  let tls := { tls with backedgeCounter := tls.backedgeCounter + 1 }
  if tls.backedgeCounter &&& 127 ≠ 0 then (tls, .unsampled)
  else
    match fc with
    | none => (tls, .worker)
    | some fc =>
      if fc.terminateRequested then (tls, .terminate)
      else if 0 < fc.suspendCount then (tls, .suspend)
      else tls.gate

/-- Where a fiber stands in `yield_point`. -/
inductive Place
  | outside
  /-- before `maybe_yield` -/
  | surrendering
  /-- after `maybe_yield` -/
  | offering
  deriving DecidableEq, Repr

structure State where
  sched : Sched.State
  tls : OsThread → Tls
  place : Tid → Place

namespace State

variable (backend : Backend) (fuel : ℕ) (s : State)

/-- A fiber executes its code outside `yield_point`; a worker holds the token. -/
def CanCall : Caller → Prop
  | .fiber t => s.sched.At t .code ∧ s.place t = .outside
  | .host w => s.sched.worker w = .holding

instance (c : Caller) : Decidable (s.CanCall c) :=
  match c with
  | .fiber t => inferInstanceAs (Decidable (s.sched.At t .code ∧ s.place t = .outside))
  | .host w => inferInstanceAs (Decidable (s.sched.worker w = .holding))

def setTls (th : OsThread) (tls : Tls) : State := { s with tls := Function.update s.tls th tls }

def setPlace (t : Tid) (place : Place) : State := { s with place := Function.update s.place t place }

/-- The guest clears `EIE`: `ps2x_guest_intr_disable_enter`. -/
def disableIntr (c : Caller) : Option State :=
  if s.CanCall c then
    some (s.setTls (osThread backend c) (s.tls (osThread backend c)).guestIntrDisableEnter)
  else none

/-- The guest sets `EIE`: `ps2x_guest_intr_disable_leave`. -/
def enableIntr (c : Caller) : Option State :=
  if s.CanCall c then
    some (s.setTls (osThread backend c) (s.tls (osThread backend c)).guestIntrDisableLeave)
  else none

/-- `tls_current_fiber` of the thread that executes `c` -/
def currentFiber : Caller → Option Sched.FiberContext
  | .fiber t => some (s.sched.fibers t)
  | .host _ => none

/-- `yield_point` up to its decision. With `suspend` it goes on to `block_current`, with `surrender`
to `maybe_yield`. -/
def yieldPoint (c : Caller) : Option (State × Decision) :=
  if s.CanCall c then
    let (tls, decision) := (s.tls (osThread backend c)).yieldPoint (s.currentFiber c)
    let s := s.setTls (osThread backend c) tls
    match c, decision with
    | .fiber t, .suspend => (s.sched.suspendGate t).map fun sched => ({ s with sched }, decision)
    | .fiber t, .surrender _ => some (s.setPlace t .surrendering, decision)
    | _, _ => some (s, decision)
  else none

/-- The section of the scheduler `a`. In `yield_point` a fiber executes `maybe_yield`, then the
handoff, which is nowhere else. A thread for a new fiber has new variables. -/
def scheduler (a : Sched.Act) : Option State :=
  (Sched.step fuel s.sched a).bind fun sched =>
    match a with
    | .suspendGate _ => none
    | .createFiber t _ => some ({ s.setTls (.fiber t) {} with sched }.setPlace t .outside)
    | .maybeYield t =>
      if s.place t = .offering then none
      else if s.place t = .surrendering then some ({ s with sched }.setPlace t .offering)
      else some { s with sched }
    | .yieldToWorker t =>
      if s.place t = .offering then some ({ s with sched }.setPlace t .outside) else none
    | a =>
      match Threads.State.byFiber a with
      | some t => if s.place t = .outside then some { s with sched } else none
      | none => some { s with sched }

/-- `yield_point` returns without a handoff. -/
def yieldPointReturn (t : Tid) : Option State :=
  if s.sched.At t .code ∧ s.place t = .offering ∧ s.sched.hostTokenWaiters = 0 then
    some (s.setPlace t .outside)
  else none

end State

/-! ### Runs -/

inductive Act
  | scheduler (a : Sched.Act)
  | disableIntr (c : Caller)
  | enableIntr (c : Caller)
  | yieldPoint (c : Caller) (decision : Decision)
  | yieldPointReturn (t : Tid)
  deriving DecidableEq, Repr

def step (backend : Backend) (fuel : ℕ) (s : State) : Act → Option State
  | .scheduler a => s.scheduler fuel a
  | .disableIntr c => s.disableIntr backend c
  | .enableIntr c => s.enableIntr backend c
  | .yieldPoint c decision =>
    (s.yieldPoint backend c).bind fun r => if r.2 = decision then some r.1 else none
  | .yieldPointReturn t => s.yieldPointReturn t

def Step (backend : Backend) (s : State) (a : Act) (s' : State) : Prop :=
  ∃ fuel, step backend fuel s a = some s'

structure State.Initial (s : State) : Prop where
  sched : s.sched.Initial
  tls : ∀ th, s.tls th = {}
  place : ∀ t, s.place t = .outside

def State.init : State where
  sched := .init
  tls _ := {}
  place _ := .outside

end Ps2Recomp.Gate
