import Ps2Recomp.Spec.Memory

/-!
# The registration of the vertical blank

`SetVSyncFlag` and `signalVSyncFlag` (`Interrupt.cpp`), cut into their atomic steps. A guest thread publishes
two addresses under `g_vsync_flag_mutex` and then, outside of it, clears the words there. The interrupt
worker takes the registration under the mutex, and then writes the words.
-/

namespace Ps2Recomp.VSync

open Memory

/-- The two memories that `getMemPtr` leads to. -/
structure GuestMemory where
  rdram : Bytes.Memory
  scratchpad : Bytes.Memory

/-- `ps2ResolveGuestPointer`: whether it is the scratchpad, and the offset. -/
def ps2ResolveGuestPointer (addr : Word) : Bool × Word :=
  if isScratchpad addr then (true, ps2ScratchpadOffset addr)
  else
    let phys : Word :=
      if addr < 0x20000000 then addr
      else if (0x20000000 ≤ addr ∧ addr < 0x40000000) ∨ (0x80000000 ≤ addr ∧ addr < 0xC0000000) then addr &&& 0x1FFFFFFF
      else 0
    (false, if ramSize ≤ phys then phys &&& ramMask else phys)

namespace GuestMemory

variable (m : GuestMemory)

def area (scratch : Bool) : Bytes.Memory := if scratch then m.scratchpad else m.rdram

def setArea (scratch : Bool) (b : Bytes.Memory) : GuestMemory :=
  if scratch then { m with scratchpad := b } else { m with rdram := b }

@[simp] theorem area_setArea (scratch scratch' : Bool) (bytes : Bytes.Memory) :
    (m.setArea scratch bytes).area scratch' = if scratch' = scratch then bytes else m.area scratch' := by
  cases scratch <;> cases scratch' <;> rfl

/-- The little endian word of `n` bytes at a guest address. -/
def read (addr : Word) (n : ℕ) : ℕ :=
  Bytes.load (m.area (ps2ResolveGuestPointer addr).1) (ps2ResolveGuestPointer addr).2.toNat n

/-- `writeGuestU32NoThrow` and `writeGuestU64NoThrow`, of `n` bytes. -/
def writeGuestNoThrow (n : ℕ) (addr : Word) (value : ℕ) : GuestMemory :=
  if addr = 0 then m
  else
    let (scratch, offset) := ps2ResolveGuestPointer addr
    m.setArea scratch (Bytes.store (m.area scratch) offset.toNat value n)

def writeGuestU32NoThrow (addr : Word) (value : Word) : GuestMemory := m.writeGuestNoThrow 4 addr value.toNat

def writeGuestU64NoThrow (addr : Word) (value : BitVec 64) : GuestMemory := m.writeGuestNoThrow 8 addr value.toNat

end GuestMemory

structure VSyncFlagRegistration where
  flagAddr : Word
  tickAddr : Word
  deriving DecidableEq, Repr

/-- Where a call of `SetVSyncFlag` is: outside, or behind its first or its second step. -/
inductive Setter
  | outside
  | published (reg : VSyncFlagRegistration)
  | flagCleared (reg : VSyncFlagRegistration)
  deriving DecidableEq, Repr

/-- Where the worker is: outside of `signalVSyncFlag`, or behind its first or its second step. -/
inductive Worker
  | outside
  | taken (reg : VSyncFlagRegistration) (tickValue : BitVec 64)
  | flagWritten (reg : VSyncFlagRegistration) (tickValue : BitVec 64)
  deriving DecidableEq, Repr

/-- The guest threads `ι`, the worker, and what they share. -/
structure State (ι : Type) where
  memory : GuestMemory
  registration : VSyncFlagRegistration
  tickCounter : BitVec 64
  setters : ι → Setter
  worker : Worker

/-- The atomic steps of the thread `i` in `SetVSyncFlag`, and those of the worker in `signalVSyncFlag`. -/
inductive Step (ι : Type)
  | publish (i : ι) (reg : VSyncFlagRegistration)
  | clearFlag (i : ι) (flagAddr : Word)
  | clearTick (i : ι) (tickAddr : Word)
  | take
  | writeFlag
  | writeTick
  deriving DecidableEq, Repr

section Steps

variable {ι : Type} [DecidableEq ι]

/-- A step, where it is possible. -/
def step (s : State ι) : Step ι → Option (State ι)
  | .publish i reg =>
    if s.setters i = .outside then
      some { s with registration := reg, setters := Function.update s.setters i (.published reg) }
    else none
  | .clearFlag i flagAddr =>
    match s.setters i with
    | .published reg =>
      if reg.flagAddr = flagAddr then
        some { s with
          memory := s.memory.writeGuestU32NoThrow flagAddr 0
          setters := Function.update s.setters i (.flagCleared reg) }
      else none
    | _ => none
  | .clearTick i tickAddr =>
    match s.setters i with
    | .flagCleared reg =>
      if reg.tickAddr = tickAddr then
        some { s with
          memory := s.memory.writeGuestU64NoThrow tickAddr 0
          setters := Function.update s.setters i .outside }
      else none
    | _ => none
  | .take =>
    if s.worker = .outside then
      some { s with
        registration := ⟨0, 0⟩
        tickCounter := s.tickCounter + 1
        worker := .taken s.registration (s.tickCounter + 1) }
    else none
  | .writeFlag =>
    match s.worker with
    | .taken reg tickValue =>
      some { s with
        memory := if reg.flagAddr ≠ 0 then s.memory.writeGuestU32NoThrow reg.flagAddr 1 else s.memory
        worker := .flagWritten reg tickValue }
    | _ => none
  | .writeTick =>
    match s.worker with
    | .flagWritten reg tickValue =>
      some { s with
        memory := if reg.tickAddr ≠ 0 then s.memory.writeGuestU64NoThrow reg.tickAddr tickValue else s.memory
        worker := .outside }
    | _ => none

/-- Steps of all parties, in any order. -/
def run (s : State ι) : List (Step ι) → Option (State ι)
  | [] => some s
  | e :: es => (step s e).bind fun s' => run s' es

end Steps

end Ps2Recomp.VSync
