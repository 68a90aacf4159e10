import Ps2Recomp.Spec.ControlFlowEmitter

/-!
# COP0 exceptions in emitted code

`raiseCop0Exception` and `PS2Runtime::SignalException` (`ps2_runtime.cpp`), and the machine
they make of the emitted statements: `LoadN` and `StoreN` catch what `PS2Memory` throws, the
checked additions and subtractions test for overflow, the traps for their condition. Every
other translation is a field of `Bus` that raises nothing.

`Excepting.raised` is a ghost: it counts the exceptions.
-/

namespace Ps2Recomp

/-! ## Raising an exception -/

/-- `PS2Exception`, those that the modelled code signals. -/
inductive PS2Exception
  | tlbRefill | addressErrorLoad | addressErrorStore | breakpoint | integerOverflow | trap
  deriving DecidableEq, Repr

/-- The enumerators' values, the exception codes of `Cause`. -/
def PS2Exception.code : PS2Exception → Word
  | .tlbRefill => 0x02
  | .addressErrorLoad => 0x04
  | .addressErrorStore => 0x05
  | .breakpoint => 0x09
  | .integerOverflow => 0x0C
  | .trap => 0x0D

def cop0CauseExccodeMask : Word := 0x0000007C
def cop0CauseBd : Word := 0x80000000
def cop0StatusExl : Word := 0x00000002
def cop0StatusBev : Word := 0x00400000

def exceptionVectorGeneral : Word := 0x80000080
def exceptionVectorTlbRefill : Word := 0x80000000
def exceptionVectorBoot : Word := 0xBFC00200

/-- The COP0 registers that an exception reads and writes. -/
structure Cop0 where
  epc : Word := 0
  cause : Word := 0
  status : Word := 0
  deriving DecidableEq, Repr

/-- What the exception code sees of the context beyond `Sys`; `mem` is the rest. -/
structure Excepting (μ : Type) where
  cop0 : Cop0
  raised : ℕ
  /-- The bits of `ctx->f`. -/
  f : Reg → Word
  vu0Vf : Reg → BitVec 128
  mem : μ

/-- `selectExceptionVector`. -/
def selectExceptionVector (cop0 : Cop0) (tlbRefill : Bool) : Word :=
  if cop0.status &&& cop0StatusBev ≠ 0 then exceptionVectorBoot
  else if tlbRefill then exceptionVectorTlbRefill else exceptionVectorGeneral

variable {μ : Type}

/-- `raiseCop0Exception`. -/
def raiseCop0Exception (ctx : Sys (Excepting μ)) (exceptionCode : Word) (tlbRefill : Bool) : Sys (Excepting μ) :=
  let cop0 := ctx.rest.cop0
  let excCode := (exceptionCode <<< 2) &&& cop0CauseExccodeMask
  let entered : Cop0 :=
    if ctx.inDelaySlot then
      { epc := ctx.branchPc
        cause := (cop0.cause &&& ~~~cop0CauseExccodeMask) ||| excCode ||| cop0CauseBd
        status := cop0.status ||| cop0StatusExl }
    else
      { epc := ctx.pc
        cause := (cop0.cause &&& ~~~(cop0CauseExccodeMask ||| cop0CauseBd)) ||| excCode
        status := cop0.status ||| cop0StatusExl }
  { ctx with
    pc := selectExceptionVector entered tlbRefill
    inDelaySlot := false
    rest := { ctx.rest with cop0 := entered, raised := ctx.rest.raised + 1 } }

/-- `SignalException`, and with it `handleBreak`, `handleTrap` and `HandleIntegerOverflow`. -/
def signalException (ctx : Sys (Excepting μ)) (e : PS2Exception) : Sys (Excepting μ) :=
  raiseCop0Exception ctx e.code (e == .tlbRefill)

/-- The same on the whole context. -/
def Ctx.signal (c : Ctx (Excepting μ)) (e : PS2Exception) : Ctx (Excepting μ) :=
  { c with sys := signalException c.sys e }

/-! ## Memory accesses -/

/-- The memory, and the translations that raise no exception. -/
structure Bus (μ : Type) where
  /-- `PS2Memory::readN` of `PS2Runtime::LoadN` when the flag is set, of `READn` otherwise,
  of a width in bits; no value when it throws. -/
  read : Bool → Nat → Word → μ → Option (BitVec 128) × μ
  /-- `PS2Memory::writeN`; whether it throws. -/
  write : Bool → Nat → Word → BitVec 128 → μ → Bool × μ
  other : Instruction → MemoryAccessHint → Ctx (Excepting μ) → Ctx (Excepting μ)
  /-- Whether a translation that is not written out ends in `return` or `throw`. -/
  leaves : Instruction → Bool

namespace Bus

variable (bus : Bus μ)

/-- `Load8` .. `Load128`: a read that throws signals an exception and reads as zero. -/
def load (slow : Bool) (width : Nat) (vaddr : Word) (ctx : Sys (Excepting μ)) : BitVec 128 × Sys (Excepting μ) :=
  let p := bus.read slow width vaddr ctx.rest.mem
  let ctx' := { ctx with rest := { ctx.rest with mem := p.2 } }
  match p.1 with
  | some v => (v, ctx')
  | none => (0, signalException ctx' .addressErrorLoad)

/-- `Store8` .. `Store128`. -/
def store (slow : Bool) (width : Nat) (vaddr : Word) (value : BitVec 128)
    (ctx : Sys (Excepting μ)) : Sys (Excepting μ) :=
  let p := bus.write slow width vaddr value ctx.rest.mem
  let ctx' := { ctx with rest := { ctx.rest with mem := p.2 } }
  if p.1 then signalException ctx' .addressErrorStore else ctx'

/-- The accesses alone. -/
def accesses : Machine (Excepting μ) where
  load := bus.load
  store := bus.store
  other _ _ c := c
  leaves _ := false

end Bus

/-! ## The translations that may raise an exception -/

def specialBreak : BitVec 6 := 0x0D
def specialAdd : BitVec 6 := 0x20
def specialSub : BitVec 6 := 0x22
def specialDadd : BitVec 6 := 0x2C
def specialDsub : BitVec 6 := 0x2E

/-- `((a ^ b) >= 0) && ((a ^ r) < 0)` for `r = a + b` (`ADD32_OV`, `DADD`, `DADDI`). -/
def addOverflows {n : ℕ} (a b : BitVec n) : Bool := !(a ^^^ b).msb && (a ^^^ (a + b)).msb

/-- `((a ^ b) < 0) && ((a ^ r) < 0)` for `r = a - b` (`SUB32_OV`, `DSUB`). -/
def subOverflows {n : ℕ} (a b : BitVec n) : Bool := (a ^^^ b).msb && (a ^^^ (a - b)).msb

/-- The conditions of the traps. -/
inductive TrapCond
  | ge | geu | lt | ltu | eq | ne
  deriving DecidableEq, Repr

def TrapCond.eval (a b : BitVec 64) : TrapCond → Bool
  | .ge => decide (b.toInt ≤ a.toInt)
  | .geu => decide (b ≤ a)
  | .lt => decide (a.toInt < b.toInt)
  | .ltu => decide (a < b)
  | .eq => a == b
  | .ne => a != b

/-- `SPECIAL_TGE` .. `SPECIAL_TNE`. -/
def specialTrap (function : BitVec 6) : Option TrapCond :=
  if function = 0x30 then some .ge
  else if function = 0x31 then some .geu
  else if function = 0x32 then some .lt
  else if function = 0x33 then some .ltu
  else if function = 0x34 then some .eq
  else if function = 0x36 then some .ne
  else none

/-- `REGIMM_TGEI` .. `REGIMM_TNEI`. -/
def regimmTrap (rt : Reg) : Option TrapCond :=
  if rt = 0x08 then some .ge
  else if rt = 0x09 then some .geu
  else if rt = 0x0A then some .lt
  else if rt = 0x0B then some .ltu
  else if rt = 0x0C then some .eq
  else if rt = 0x0E then some .ne
  else none

/-- `if (..) { runtime->handleTrap(rdram, ctx); }`. -/
def trapIf (taken : Bool) (c : Ctx (Excepting μ)) : Ctx (Excepting μ) :=
  if taken then c.signal .trap else c

/-- The statement of an instruction. -/
abbrev Statement (μ : Type) := Ctx (Excepting μ) → Ctx (Excepting μ)

/-- `SpecialTranslator::translate`, for the functions that may raise an exception. -/
def guardedSpecial (inst : Instruction) : Option (Statement μ) :=
  if inst.function = specialBreak then some (·.signal .breakpoint)
  else if inst.function = specialAdd then some fun c =>
    let result := (c.gprU32 inst.rs).toInt + (c.gprU32 inst.rt).toInt
    if result > 2147483647 ∨ result < -2147483648 then c.signal .integerOverflow
    else c.setGprS32 inst.rd (BitVec.ofInt 32 result)
  else if inst.function = specialSub then some fun c =>
    let a := c.gprU32 inst.rs
    let b := c.gprU32 inst.rt
    if subOverflows a b then c.signal .integerOverflow else c.setGprS32 inst.rd (a - b)
  else if inst.function = specialDadd then some fun c =>
    let a := c.gprU64 inst.rs
    let b := c.gprU64 inst.rt
    if addOverflows a b then c.signal .integerOverflow else c.setGprU64 inst.rd (a + b)
  else if inst.function = specialDsub then some fun c =>
    let a := c.gprU64 inst.rs
    let b := c.gprU64 inst.rt
    if subOverflows a b then c.signal .integerOverflow else c.setGprU64 inst.rd (a - b)
  else (specialTrap inst.function).map fun k c =>
    trapIf (k.eval (c.gprU64 inst.rs) (c.gprU64 inst.rt)) c

/-- `RegimmTranslator::translate`, for the traps. -/
def guardedRegimm (inst : Instruction) : Option (Statement μ) :=
  (regimmTrap inst.rt).map fun k c =>
    trapIf (k.eval (c.gprU64 inst.rs) (inst.simmediate.signExtend 64)) c

/-- A store of part of a register: the aligned word is read, merged and written back. `merge`
takes the offset, the register and the word. -/
def storePart (m : Machine (Excepting μ)) (inst : Instruction) (hint : MemoryAccessHint)
    (width : ℕ) (merge : ℕ → BitVec width → BitVec width → BitVec width) : Statement μ := fun c =>
  let addr := baseAddress inst c
  let low : Word := BitVec.ofNat 32 (width / 8 - 1)
  let old := m.read inst hint width (addr &&& ~~~low) c
  let new := merge (addr &&& low).toNat ((c.gprU64 inst.rt).setWidth width) (old.1.setWidth width)
  m.write inst hint width (addr &&& ~~~low) (new.setWidth 128) old.2

/-- `(old & ~mask) | ((val >> shift) & mask)` of `SWL` and `SDL`. -/
def storeLeft {width : ℕ} (offset : ℕ) (val old : BitVec width) : BitVec width :=
  let shift := (width / 8 - 1 - offset) * 8
  let mask := BitVec.allOnes width >>> shift
  (old &&& ~~~mask) ||| ((val >>> shift) &&& mask)

/-- `(old & ~mask) | ((val << shift) & mask)` of `SWR` and `SDR`. -/
def storeRight {width : ℕ} (offset : ℕ) (val old : BitVec width) : BitVec width :=
  let shift := offset * 8
  let mask := BitVec.allOnes width <<< shift
  (old &&& ~~~mask) ||| ((val <<< shift) &&& mask)

/-- The coprocessor loads and stores. -/
def coprocessorAccess (m : Machine (Excepting μ)) (inst : Instruction) (hint : MemoryAccessHint) :
    Statement μ := fun c =>
  let addr := baseAddress inst c
  match inst.opcode with
  | .lwc1 =>
    let p := m.read inst hint 32 addr c
    let f := Function.update p.2.sys.rest.f inst.rt (p.1.setWidth 32)
    { p.2 with sys := { p.2.sys with rest := { p.2.sys.rest with f := f } } }
  | .swc1 => m.write inst hint 32 addr ((c.sys.rest.f inst.rt).setWidth 128) c
  | .ldc2 =>
    let p := m.read inst hint 128 addr c
    let vf := Function.update p.2.sys.rest.vu0Vf inst.rt p.1
    { p.2 with sys := { p.2.sys with rest := { p.2.sys.rest with vu0Vf := vf } } }
  | _ => m.write inst hint 128 addr (c.sys.rest.vu0Vf inst.rt) c

/-- `InstructionTranslator::translate`, for the statements that may raise an exception and
that `Machine.exec` does not write out. -/
def guarded (m : Machine (Excepting μ)) (inst : Instruction) (hint : MemoryAccessHint) : Option (Statement μ) :=
  match inst.opcode with
  | .special => guardedSpecial inst
  | .regimm => guardedRegimm inst
  | .addi => some fun c =>
    let a := c.gprU32 inst.rs
    if inst.rt = 0 then c
    else if addOverflows a inst.simmediate then c.signal .integerOverflow
    else c.setGprS32 inst.rt (a + inst.simmediate)
  | .daddi => some fun c =>
    let src := c.gprU64 inst.rs
    let imm := inst.simmediate.signExtend 64
    if addOverflows src imm then c.signal .integerOverflow
    else c.setGprU64 inst.rt (src + imm)
  | .lwc1 | .swc1 | .ldc2 | .sdc2 => some (coprocessorAccess m inst hint)
  | .swl => some (storePart m inst hint 32 storeLeft)
  | .swr => some (storePart m inst hint 32 storeRight)
  | .sdl => some (storePart m inst hint 64 storeLeft)
  | .sdr => some (storePart m inst hint 64 storeRight)
  | _ => none

/-- The opcodes whose translators may write `return` or `throw`. -/
def mayLeave : Opcode → Bool
  | .special | .regimm | .cop0 | .cop1 | .cop2 | .cop3 | .mmi | .lwc2 | .lld | .ldc1 | .swc2
  | .scd | .sdc1 | .reserved => true
  | _ => false

namespace Bus

variable (bus : Bus μ)

/-- A statement that raises nothing. -/
def quietly (f : Statement μ) : Statement μ := fun c =>
  let c' := f c
  { c' with sys := { c'.sys with rest := { c'.sys.rest with raised := c.sys.rest.raised } } }

/-- The machine of emitted code. -/
def machine : Machine (Excepting μ) where
  load := bus.load
  store := bus.store
  other inst hint := (guarded bus.accesses inst hint).getD (quietly (bus.other inst hint))
  leaves inst :=
    mayLeave inst.opcode && (guarded bus.accesses inst none).isNone && bus.leaves inst

/-- The machine with the runtime calls `calls`. -/
def runtime (calls : Runtime (Excepting μ)) : Runtime (Excepting μ) :=
  { calls with toMachine := bus.machine }

end Bus

/-! ## What a run passes -/

/-- A statement of an emitted function and the state it runs in. -/
abbrev Passed (ρ : Type) := Stmt × State ρ

section Trail

variable {ρ : Type} (rt : Runtime ρ)

def Stmt.trail (st : Stmt) (s : State ρ) : List (Passed ρ) := [(st, s)]

def BlockItem.trail (b : BlockItem) (s : State ρ) : List (Passed ρ) :=
  match b with
  | .stmt st => st.trail s
  | .ifTaken body => if s.branchTaken then Goto.seqTrail Stmt.trail (Stmt.exec rt) s body else []
  | .switchTarget _ => []

def Item.trail (i : Item) (s : State ρ) : List (Passed ρ) :=
  match i with
  | .label _ => []
  | .stmt st => st.trail s
  | .ifPcEq a body =>
    if s.ctx.pc = a then Goto.seqTrail Stmt.trail (Stmt.exec rt) s body else []
  | .switchPc _ => []
  | .block body => Goto.seqTrail (BlockItem.trail rt) (BlockItem.exec rt) s body

/-- The statements that the first `fuel` items of a run go through. -/
def runTrail (prog : List Item) (fuel : ℕ) (s : State ρ) : List (Passed ρ) :=
  Goto.runTrail (lang rt) (Item.trail rt) prog fuel 0 s

end Trail

/-- The statement raises an exception. -/
def raises (rt : Runtime (Excepting μ)) (x : Passed (Excepting μ)) : Bool :=
  match x.1 with
  | .instr inst hint =>
    (rt.exec inst hint x.2.ctx).sys.rest.raised != x.2.ctx.sys.rest.raised
  | _ => false

/-- The statements of guest instructions: the instructions themselves, what stands for a
suppressed one, the stores to `ctx->pc` that go from one to the next, and the links and
transfers of branches. -/
def Stmt.isGuest : Stmt → Bool
  | .setPc _ | .setPcJumpTarget | .setGprU32 _ _ | .instr _ _ | .kick _ | .dispatch _ _ _ _
  | .callFunction _ | .callHandler _ => true
  | _ => false

end Ps2Recomp
