import Ps2Recomp.Lib.Goto
import Ps2Recomp.Spec.Constants

/-!
# The emitted C++ functions

The statements that `FunctionEmitter` and `ControlFlowEmitter` write, and what they
do. An emitted function is a list of `Item`s at function scope; a compound statement
(`{ ... }`, `if`, `switch`) is one item. Labels stand at function scope only, and so
do the jumps that reach them land between items.

Comments, `#include`s and the logging lines are not modelled. Of the two forms of a
`jr $ra` the default one is modelled (`PS2X_STRICT_RETURN_DIAGNOSTICS` off).

`State.log` is a ghost: it records the translated instructions, hooks, kicks and
hand-overs of control in the order they happen.
-/

namespace Ps2Recomp

/-- `label_<address>` and `label_fallthrough_0x<branch>`. -/
inductive Label
  | at (a : Word)
  | fallthrough (branchPc : Word)
  deriving DecidableEq, Repr

/-- An argument of the kick call: a literal, or a captured value
`gifDmaKickValue_<address>_<slot>`. -/
inductive KickValue
  | literal (v : Word)
  | temp (address : Word) (slot : Fin 4)
  deriving DecidableEq, Repr

/-- `PS2Runtime::GuestBranchKind`. -/
inductive GuestBranchKind
  | directJump | directCall | indirectJump | indirectCall
  deriving DecidableEq, Repr

/-- The conditions `conditionalBranchExpression` writes. -/
inductive Cond
  | eqU64 (rs rt : Reg)
  | neU64 (rs rt : Reg)
  | lezS32 (rs : Reg)
  | gtzS32 (rs : Reg)
  | ltzS32 (rs : Reg)
  | gezS32 (rs : Reg)
  | fcr31 (set : Bool)
  | vu0Status (set : Bool)
  | false
  deriving DecidableEq, Repr

/-- The target expression of a runtime dispatch. -/
inductive Target
  | const (a : Word)
  | jumpTarget
  deriving DecidableEq, Repr

/-- Statements without a body. -/
inductive Stmt
  /-- `ctx->pc = 0x..u;` -/
  | setPc (a : Word)
  /-- `ctx->pc = jumpTarget;` -/
  | setPcJumpTarget
  | setInDelaySlot (b : Bool)
  | setBranchPc (a : Word)
  /-- `SET_GPR_U32(ctx, reg, 0x..u);` -/
  | setGprU32 (reg : Reg) (v : Word)
  /-- `const uint32_t jumpTarget = GPR_U32(ctx, rs);` -/
  | declJumpTarget (rs : Reg)
  /-- `const bool branch_taken_0x.. = (..);` -/
  | declBranchTaken (c : Cond)
  /-- The translation of an instruction. -/
  | instr (inst : Instruction) (hint : MemoryAccessHint)
  /-- `uint32_t gifDmaKickValue_<address>_<slot> = GPR_U32(ctx, reg);` -/
  | capture (address : Word) (slot : Fin 4) (reg : Reg)
  /-- `runtime->kickGifDmaChainFromMMIO(..);` -/
  | kick (values : Fin 4 → KickValue)
  /-- `{ extern void name(..); name(rdram, ctx, runtime); }` -/
  | hook (name : String)
  /-- `if (ctx->pc != 0x..u) { return; }` -/
  | returnIfPcNe (a : Word)
  /-- `if (runtime->shouldPreemptGuestExecution()) { return; }` -/
  | preempt
  | goto (l : Label)
  /-- `return;` -/
  | ret
  /-- `if (!runtime->dispatchGuestBranch(..)) { return; }` -/
  | dispatch (kind : GuestBranchKind) (target : Target) (sourcePc returnPc : Word)
  /-- `name(rdram, ctx, runtime); return;` for the function of a guest address. -/
  | callFunction (target : Word)
  /-- The block of `emitRelocationCallIfAvailable` that calls a handler and
  returns to `$ra` if it left `ctx->pc` alone. -/
  | callHandler (name : String)

/-- What stands inside a `{ ... }`. -/
inductive BlockItem
  | stmt (s : Stmt)
  /-- `if (branch_taken_0x..) { .. }` -/
  | ifTaken (body : List Stmt)
  /-- `switch (jumpTarget) { case t: goto label_t; .. default: break; }` -/
  | switchTarget (targets : List Word)

/-- What stands at function scope. -/
inductive Item
  | label (l : Label)
  | stmt (s : Stmt)
  /-- `if (ctx->pc == 0x..u) { .. }` -/
  | ifPcEq (a : Word) (body : List Stmt)
  /-- `switch (ctx->pc) { case t: goto label_t; .. default: break; }` -/
  | switchPc (targets : List Word)
  | block (body : List BlockItem)

namespace Item

/-- The label an item defines. -/
def labelOf : Item → Option Label
  | .label l => some l
  | _ => none

end Item

/-! ## Running the emitted code -/

/-- The runtime calls of emitted code; a machine for the translated instructions. -/
structure Runtime (ρ : Type) extends Machine ρ where
  hook : String → Ctx ρ → Ctx ρ
  /-- `kickGifDmaChainFromMMIO` writes I/O registers; it has the context for tracing only. -/
  kick : (Fin 4 → Word) → Sys ρ → Sys ρ
  /-- `shouldPreemptGuestExecution` has no access to the registers, but other threads may
  run in it. -/
  preempt : ρ → Bool × ρ
  dispatch : GuestBranchKind → Word → Word → Word → Ctx ρ → Bool × Ctx ρ
  callFunction : Word → Ctx ρ → Ctx ρ
  callHandler : String → Ctx ρ → Ctx ρ

/-- How an emitted function returns to its caller. -/
inductive Exit
  | ret
  /-- The return of a preemption check. -/
  | preempted
  deriving DecidableEq, Repr

/-- What the ghost log records. -/
inductive Event (ρ : Type)
  /-- A translated instruction, with its hint and the context it runs in. -/
  | exec (inst : Instruction) (hint : MemoryAccessHint) (c : Ctx ρ)
  | hook (name : String)
  | kick (values : Fin 4 → Word)
  /-- Control is handed to the guest code at `target`, or to the scheduler with the guest
  there, in the context `c`. -/
  | transfer (target : Word) (c : Ctx ρ)

/-- The state of a running emitted function: context, locals and log. -/
structure State (ρ : Type) where
  ctx : Ctx ρ
  jumpTarget : Word
  branchTaken : Bool
  kickValue : Word → Fin 4 → Word
  log : List (Event ρ)

/-- The result of a statement. -/
abbrev Result (ρ : Type) := State ρ × Goto.Flow Label Exit

/-- The value of a condition. -/
def Cond.eval {ρ : Type} (c : Ctx ρ) : Cond → Bool
  | .eqU64 rs rt => c.gprU64 rs == c.gprU64 rt
  | .neU64 rs rt => c.gprU64 rs != c.gprU64 rt
  | .lezS32 rs => decide ((c.gprU32 rs).toInt ≤ 0)
  | .gtzS32 rs => decide (0 < (c.gprU32 rs).toInt)
  | .ltzS32 rs => decide ((c.gprU32 rs).toInt < 0)
  | .gezS32 rs => decide (0 ≤ (c.gprU32 rs).toInt)
  | .fcr31 set => (c.sys.fcr31 &&& 0x800000 != 0) == set
  | .vu0Status set => (c.sys.vu0Status &&& 0x1 != 0) == set
  | .false => Bool.false

namespace State

variable {ρ : Type}

def mapCtx (s : State ρ) (f : Ctx ρ → Ctx ρ) : State ρ := { s with ctx := f s.ctx }

def record (s : State ρ) (e : Event ρ) : State ρ := { s with log := e :: s.log }

def kickArg (s : State ρ) : KickValue → Word
  | .literal v => v
  | .temp address slot => s.kickValue address slot

end State

namespace Stmt

variable {ρ : Type} (rt : Runtime ρ)

/-- One statement. -/
def exec (st : Stmt) (s : State ρ) : Result ρ :=
  match st with
  | .setPc a => (s.mapCtx (·.setPc a), .next)
  | .setPcJumpTarget => (s.mapCtx (·.setPc s.jumpTarget), .next)
  | .setInDelaySlot b =>
    (s.mapCtx fun c => { c with sys := { c.sys with inDelaySlot := b } }, .next)
  | .setBranchPc a => (s.mapCtx fun c => { c with sys := { c.sys with branchPc := a } }, .next)
  | .setGprU32 reg v => (s.mapCtx (·.setGprS32 reg v), .next)
  | .declJumpTarget rs => ({ s with jumpTarget := s.ctx.gprU32 rs }, .next)
  | .declBranchTaken c => ({ s with branchTaken := c.eval s.ctx }, .next)
  | .instr inst hint =>
    ((s.record (.exec inst hint s.ctx)).mapCtx (rt.exec inst hint),
      if rt.leaves inst then .exit .ret else .next)
  | .capture address slot reg =>
    ({ s with kickValue := fun a i =>
        if a = address ∧ i = slot then s.ctx.gprU32 reg else s.kickValue a i }, .next)
  | .kick values =>
    let vs := fun i => s.kickArg (values i)
    ((s.record (.kick vs)).mapCtx fun c => { c with sys := rt.kick vs c.sys }, .next)
  | .hook name => ((s.record (.hook name)).mapCtx (rt.hook name), .next)
  | .returnIfPcNe a => (s, if s.ctx.pc = a then .next else .exit .ret)
  | .preempt =>
    let p := rt.preempt s.ctx.sys.rest
    ((s.record (.transfer s.ctx.pc s.ctx)).mapCtx fun c => { c with sys := { c.sys with rest := p.2 } },
      if p.1 then .exit .preempted else .next)
  | .goto l => (s, .goto l)
  | .ret => (s, .exit .ret)
  | .dispatch kind target sourcePc returnPc =>
    let t := match target with | .const a => a | .jumpTarget => s.jumpTarget
    let p := rt.dispatch kind t sourcePc returnPc s.ctx
    ((s.record (.transfer t s.ctx)).mapCtx fun _ => p.2, if p.1 then .next else .exit .ret)
  | .callFunction t => ((s.record (.transfer t s.ctx)).mapCtx (rt.callFunction t), .exit .ret)
  | .callHandler name =>
    -- the handler stands for the guest code at `ctx->pc`
    let c := rt.callHandler name s.ctx
    ((s.record (.transfer s.ctx.pc s.ctx)).mapCtx fun _ =>
      if c.pc = s.ctx.pc then c.setPc (c.gprU32 31) else c, .next)

end Stmt

namespace BlockItem

variable {ρ : Type} (rt : Runtime ρ)

def exec (b : BlockItem) (s : State ρ) : Result ρ :=
  match b with
  | .stmt st => st.exec rt s
  | .ifTaken body => if s.branchTaken then Goto.seq (Stmt.exec rt) s body else (s, .next)
  | .switchTarget targets =>
    (s, if s.jumpTarget ∈ targets then .goto (.at s.jumpTarget) else .next)

@[simp] theorem exec_stmt (st : Stmt) (s : State ρ) : (BlockItem.stmt st).exec rt s = st.exec rt s := rfl

@[simp] theorem exec_ifTaken (body : List Stmt) (s : State ρ) :
    (BlockItem.ifTaken body).exec rt s =
      if s.branchTaken then Goto.seq (Stmt.exec rt) s body else (s, .next) := rfl

@[simp] theorem exec_switchTarget (targets : List Word) (s : State ρ) :
    (BlockItem.switchTarget targets).exec rt s =
      (s, if s.jumpTarget ∈ targets then .goto (.at s.jumpTarget) else .next) := rfl

theorem seq_map_stmt (l : List Stmt) (s : State ρ) :
    Goto.seq (BlockItem.exec rt) s (l.map .stmt) = Goto.seq (Stmt.exec rt) s l := by
  induction l generalizing s with
  | nil => rfl
  | cons x l ih => simp only [List.map_cons, Goto.seq_cons, exec_stmt, ih]

end BlockItem

namespace Item

variable {ρ : Type} (rt : Runtime ρ)

def exec (i : Item) (s : State ρ) : Result ρ :=
  match i with
  | .label _ => (s, .next)
  | .stmt st => st.exec rt s
  | .ifPcEq a body => if s.ctx.pc = a then Goto.seq (Stmt.exec rt) s body else (s, .next)
  | .switchPc targets => (s, if s.ctx.pc ∈ targets then .goto (.at s.ctx.pc) else .next)
  | .block body => Goto.seq (BlockItem.exec rt) s body

@[simp] theorem exec_label (l : Label) (s : State ρ) : (Item.label l).exec rt s = (s, .next) := rfl

@[simp] theorem exec_stmt (st : Stmt) (s : State ρ) : (Item.stmt st).exec rt s = st.exec rt s := rfl

@[simp] theorem exec_ifPcEq (a : Word) (body : List Stmt) (s : State ρ) :
    (Item.ifPcEq a body).exec rt s =
      if s.ctx.pc = a then Goto.seq (Stmt.exec rt) s body else (s, .next) := rfl

@[simp] theorem exec_switchPc (targets : List Word) (s : State ρ) :
    (Item.switchPc targets).exec rt s = (s, if s.ctx.pc ∈ targets then .goto (.at s.ctx.pc) else .next) := rfl

@[simp] theorem exec_block (body : List BlockItem) (s : State ρ) :
    (Item.block body).exec rt s = Goto.seq (BlockItem.exec rt) s body := rfl

theorem seq_map_stmt (l : List Stmt) (s : State ρ) :
    Goto.seq (Item.exec rt) s (l.map .stmt) = Goto.seq (Stmt.exec rt) s l := by
  induction l generalizing s with
  | nil => rfl
  | cons x l ih => simp only [List.map_cons, Goto.seq_cons, exec_stmt, ih]

end Item

/-- The language of emitted code, run with `rt`. -/
def lang {ρ : Type} (rt : Runtime ρ) : Goto.Lang Item Label (State ρ) Exit where
  label := Item.labelOf
  exec := Item.exec rt

/-- A runtime that does nothing: loads read zero, and no call leaves a trace. -/
def Runtime.idle : Runtime Unit where
  load _ _ _ sys := (0, sys)
  store _ _ _ _ sys := sys
  other _ _ c := c
  leaves _ := false
  hook _ c := c
  kick _ sys := sys
  preempt r := (false, r)
  dispatch _ _ _ _ c := (false, c)
  callFunction _ c := c
  callHandler _ c := c

/-- The state of a function entered at `a` with `v` in every register. -/
def State.entered (a : Word) (v : BitVec 128) : State Unit where
  ctx := ⟨fun _ => v, ⟨a, false, 0, 0, 0, 0, 0, ()⟩⟩
  jumpTarget := 0
  branchTaken := false
  kickValue _ _ := 0
  log := []

/-! ## The statements in an item, and the jumps it can make -/

def BlockItem.stmts : BlockItem → List Stmt
  | .stmt s => [s]
  | .ifTaken body => body
  | .switchTarget _ => []

/-- All the statements in an item. -/
def Item.stmts : Item → List Stmt
  | .label _ => []
  | .stmt s => [s]
  | .ifPcEq _ body => body
  | .switchPc _ => []
  | .block body => body.flatMap BlockItem.stmts

def Stmt.gotos : Stmt → List Label
  | .goto l => [l]
  | _ => []

def BlockItem.gotos : BlockItem → List Label
  | .stmt s => s.gotos
  | .ifTaken body => body.flatMap Stmt.gotos
  | .switchTarget targets => targets.map .at

/-- The labels an item jumps to. -/
def Item.gotos : Item → List Label
  | .label _ => []
  | .stmt s => s.gotos
  | .ifPcEq _ body => body.flatMap Stmt.gotos
  | .switchPc targets => targets.map .at
  | .block body => body.flatMap BlockItem.gotos

/-- The statements that declare a variable with an initialiser. -/
def Stmt.declares : Stmt → Bool
  | .capture _ _ _ | .declJumpTarget _ | .declBranchTaken _ => true
  | _ => false

/-- The declarations at function scope. What a compound statement declares ends with it. -/
def Item.declares : Item → Bool
  | .stmt s => s.declares
  | _ => false

/-! ## How code may end -/

/-- How a statement may end. The mark says that the runtime was asked: a preemption check
was made, or the dispatcher was called. -/
def Stmt.ends (st : Stmt) (m : Bool) : List (Option Label × Bool) :=
  match st with
  | .goto l => [(some l, m)]
  | .ret | .callFunction _ => []
  | .preempt | .dispatch _ _ _ _ => [(none, true)]
  | _ => [(none, m)]

def BlockItem.ends (b : BlockItem) (m : Bool) : List (Option Label × Bool) :=
  match b with
  | .stmt s => s.ends m
  | .ifTaken body => Goto.ends Stmt.ends body m ++ [(none, m)]
  | .switchTarget targets => targets.map (fun t => (some (.at t), m)) ++ [(none, m)]

/-- How an item may end that is entered with `ctx->pc = pc`. -/
def Item.ends (pc : Word) (i : Item) (m : Bool) : List (Option Label × Bool) :=
  match i with
  | .label _ => [(none, m)]
  | .stmt s => s.ends m
  | .ifPcEq a body => if pc = a then Goto.ends Stmt.ends body m else [(none, m)]
  | .switchPc targets => [(if pc ∈ targets then some (.at pc) else none, m)]
  | .block body => Goto.ends BlockItem.ends body m

end Ps2Recomp
