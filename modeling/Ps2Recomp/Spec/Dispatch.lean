import Ps2Recomp.Spec.Recompiler

/-!
# Calls through the runtime

`dispatchGuestBranch` runs the function that is registered at a guest address, and tells the emitted
code that called it whether it may go on behind the call. It finds out from `ctx->pc`. The function
may make calls of its own, so calls nest; the model allows them up to some depth, and for each run of
emitted code up to some number of items.

How a call was left is recorded by a ghost, `Watched.left`. No function reads it but to see that the
depth was used up.
-/

namespace Ps2Recomp

/-- How control has left a function of the table. -/
inductive Leave
  /-- guest code has gone to `ctx->pc`, by a return, by a branch out of the function or at its end,
  whether there is a function or not -/
  | moved
  /-- a preemption check has returned -/
  | preempted
  /-- a host handler has completed -/
  | handler
  /-- the model allows no more -/
  | stuck
  deriving DecidableEq, Repr

/-- The rest of the machine, with how the call was left that is being unwound, if one is. -/
structure Watched (ρ : Type) where
  rest : ρ
  left : Option Leave

section Watched

variable {ρ α β : Type}

def Sys.withRest (sys : Sys α) (rest : β) : Sys β :=
  ⟨sys.pc, sys.inDelaySlot, sys.branchPc, sys.fcr31, sys.vu0Status, sys.llbit, sys.lladdr, rest⟩

def Ctx.withRest (c : Ctx α) (rest : β) : Ctx β := ⟨c.r, c.sys.withRest rest⟩

/-- A function of the machine does not touch the ghost. -/
def Sys.unwatched (f : Sys ρ → Sys ρ) (sys : Sys (Watched ρ)) : Sys (Watched ρ) :=
  let sys' := f (sys.withRest sys.rest.rest)
  sys'.withRest ⟨sys'.rest, sys.rest.left⟩

def Ctx.unwatched (f : Ctx ρ → Ctx ρ) (c : Ctx (Watched ρ)) : Ctx (Watched ρ) :=
  let c' := f (c.withRest c.sys.rest.rest)
  c'.withRest ⟨c'.sys.rest, c.sys.rest.left⟩

def Ctx.left (c : Ctx (Watched ρ)) : Option Leave := c.sys.rest.left

def Ctx.setLeft (c : Ctx (Watched ρ)) (left : Option Leave) : Ctx (Watched ρ) :=
  { c with sys := { c.sys with rest := { c.sys.rest with left } } }

end Watched

/-- A function of the table. -/
inductive Callee (ρ : Type)
  | code (items : List Item)
  | host (run : Ctx ρ → Ctx ρ)

/-- `PS2Runtime::MissingFunctionPolicy` -/
inductive MissingFunctionPolicy
  | stop | continueToTarget | breakOnce | skipCallDebug
  deriving DecidableEq, Repr

/-- The machine and the runtime, with the registered functions. -/
structure World (ρ : Type) extends Machine ρ where
  hook : String → Ctx ρ → Ctx ρ
  kick : (Fin 4 → Word) → Sys ρ → Sys ρ
  preempt : ρ → Bool × ρ
  callHandler : String → Ctx ρ → Ctx ρ
  /-- The function table. The functions that emitted code calls by name are in it. -/
  functions : Word → Option (Callee ρ)
  missingFunctionPolicy : MissingFunctionPolicy
  isStopRequested : ρ → Bool
  requestStop : ρ → ρ

/-- The kinds of branch that are calls. -/
def GuestBranchKind.isCall : GuestBranchKind → Bool
  | .directCall | .indirectCall => true
  | .directJump | .indirectJump => false

namespace World

variable {ρ : Type} (w : World ρ)

/-- `reportMissingFunction`, without the report. -/
def reportMissingFunction (targetPc : Word) (c : Ctx (Watched ρ)) : Ctx (Watched ρ) :=
  let c := c.setPc targetPc
  if w.missingFunctionPolicy = .stop then
    { c with sys := { c.sys with rest := ⟨w.requestStop c.sys.rest.rest, some .moved⟩ } }
  else c.setLeft (some .moved)

/-- `dispatchGuestBranch`, where `call` runs the function at an address. -/
def dispatchGuestBranch (call : Word → Ctx (Watched ρ) → Ctx (Watched ρ)) (kind : GuestBranchKind)
    (targetPc fallthroughPc : Word) (c : Ctx (Watched ρ)) : Bool × Ctx (Watched ρ) :=
  let c := c.setPc targetPc
  if (w.functions targetPc).isNone then
    let c := w.reportMissingFunction targetPc c
    if w.missingFunctionPolicy = .skipCallDebug ∧ kind.isCall then
      (true, (c.setPc fallthroughPc).setLeft none)
    else if w.missingFunctionPolicy = .continueToTarget then (true, (c.setPc targetPc).setLeft none)
    else (false, c)
  else
    let entryPc := c.pc
    let c := call targetPc c
    if w.isStopRequested c.sys.rest.rest ∨ c.pc = 0 ∨ c.left = some .stuck then (false, c)
    else if !kind.isCall then (false, c)
    else
      let c := if c.pc = entryPc then c.setPc fallthroughPc else c
      if c.pc = fallthroughPc then (true, c.setLeft none) else (false, c)

/-- The runtime of emitted code whose calls run functions with `call`. -/
def runtimeWith (call : Word → Ctx (Watched ρ) → Ctx (Watched ρ)) : Runtime (Watched ρ) where
  load mmio width addr sys :=
    let r := w.load mmio width addr (sys.withRest sys.rest.rest)
    (r.1, r.2.withRest ⟨r.2.rest, sys.rest.left⟩)
  store mmio width addr v := Sys.unwatched (w.store mmio width addr v)
  other inst hint := Ctx.unwatched (w.other inst hint)
  leaves := w.leaves
  hook name := Ctx.unwatched (w.hook name)
  kick values := Sys.unwatched (w.kick values)
  preempt x := ((w.preempt x.rest).1, ⟨(w.preempt x.rest).2, x.left⟩)
  dispatch kind targetPc _ fallthroughPc := w.dispatchGuestBranch call kind targetPc fallthroughPc
  callFunction := call
  callHandler name := Ctx.unwatched (w.callHandler name)

/-- The state of an emitted function that is called. -/
def entered (c : Ctx (Watched ρ)) : State (Watched ρ) where
  ctx := c
  jumpTarget := 0
  branchTaken := false
  kickValue _ _ := 0
  log := []

/-- An emitted function returns. If it does so because a call of its own was left for good, it
passes that on. -/
def leave (c : Ctx (Watched ρ)) : Option Exit → Ctx (Watched ρ)
  | some .preempted => c.setLeft (some .preempted)
  | _ => if c.left.isNone then c.setLeft (some .moved) else c

/-- A call of the function at an address, with calls nested to a depth of `n` in it. -/
def call : ℕ → Word → Ctx (Watched ρ) → Ctx (Watched ρ)
  | 0, _, c => c.setLeft (some .stuck)
  | n + 1, targetPc, c =>
    match w.functions targetPc with
    | none => w.reportMissingFunction c.pc c
    | some (.host run) => (c.unwatched run).setLeft (some .handler)
    | some (.code items) =>
      match Goto.run (lang (w.runtimeWith (call n))) items n 0 (entered (c.setLeft none)) with
      | none => c.setLeft (some .stuck)
      | some (s, e) => leave s.ctx e

end World

end Ps2Recomp
