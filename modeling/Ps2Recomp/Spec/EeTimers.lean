import Mathlib.Data.List.FinRange
import Ps2Recomp.Spec.Memory

/-!
# The EE timers

Four timers count with the host's clock (`updateEeTimerCounter`, `writeIORegister` and `readIORegister`
of `ps2_memory.cpp`). A timer is brought up to date when its count is read and when another of its
registers is written; what does not make a tick is kept as a fraction.

The steady clock is outside: each access has what the clock reads, in nanoseconds.
-/

namespace Ps2Recomp.EeTimers

open Memory

abbrev Ns := BitVec 64

def kEeTimerBase : Fin 4 → Word
  | 0 => 0x10000000
  | 1 => 0x10000800
  | 2 => 0x10001000
  | 3 => 0x10001800

def kEeTimerModeOffset : Word := 0x10

def kEeTimerCompareOffset : Word := 0x20

def kEeTimerHoldOffset : Word := 0x30

def kEeTimerModeCue : Word := 1 <<< 7

def kEeTimerTicksPerSecond : BitVec 64 := 15720

def kNanosecondsPerSecond : BitVec 64 := 1000000000

/-- The part of `PS2Memory` that the timers are. -/
structure Timers where
  ioRegisters : Word → Option Word
  timerLastHostNs : Fin 4 → Ns
  timerFractionNs : Fin 4 → BitVec 64

def eeTimerIndexForAddress (address : Word) : Option (Fin 4) :=
  (List.finRange 4).find? fun i =>
    let base := kEeTimerBase i
    address = base ∨ address = base + kEeTimerModeOffset ∨ address = base + kEeTimerCompareOffset ∨
      address = base + kEeTimerHoldOffset

namespace Timers

variable (s : Timers)

/-- A register that was never written reads as 0. -/
def reg (address : Word) : Word := (s.ioRegisters address).getD 0

def setReg (address value : Word) : Timers :=
  { s with ioRegisters := Function.update s.ioRegisters address (some value) }

def setLast (i : Fin 4) (nowNs : Ns) : Timers :=
  { s with timerLastHostNs := Function.update s.timerLastHostNs i nowNs }

def setFraction (i : Fin 4) (fraction : BitVec 64) : Timers :=
  { s with timerFractionNs := Function.update s.timerFractionNs i fraction }

def count (i : Fin 4) : Word := s.reg (kEeTimerBase i)

/-- `MODE.CUE` -/
def enabled (i : Fin 4) : Prop := s.reg (kEeTimerBase i + kEeTimerModeOffset) &&& kEeTimerModeCue ≠ 0

instance (i : Fin 4) : Decidable (s.enabled i) := inferInstanceAs (Decidable (_ ≠ _))

def updateEeTimerCounter (i : Fin 4) (nowNs : Ns) : Timers :=
  if s.timerLastHostNs i = 0 then s.setLast i nowNs
  else if ¬s.enabled i then (s.setLast i nowNs).setFraction i 0
  else
    let elapsedNs := nowNs - s.timerLastHostNs i
    if elapsedNs = 0 then s.setLast i nowNs
    else
      let scaled := elapsedNs * kEeTimerTicksPerSecond + s.timerFractionNs i
      let ticks := scaled / kNanosecondsPerSecond
      let s := (s.setLast i nowNs).setFraction i (scaled % kNanosecondsPerSecond)
      if ticks ≠ 0 then s.setReg (kEeTimerBase i) (s.count i + ticks.setWidth 32) else s

/-- `readIORegister` of a timer's register. -/
def readIORegister (address : Word) (nowNs : Ns) : Word × Timers :=
  match eeTimerIndexForAddress address with
  | some i =>
    let s := if address = kEeTimerBase i then s.updateEeTimerCounter i nowNs else s
    (s.reg address, s)
  | none => (s.reg address, s)

/-- `writeIORegister` of a timer's register. The clock may read more the second time. -/
def writeIORegister (address value : Word) (nowNs nowNs' : Ns) : Timers :=
  match eeTimerIndexForAddress address with
  | some i =>
    let countAddr := kEeTimerBase i
    if address = countAddr then ((s.setReg address value).setLast i nowNs).setFraction i 0
    else
      let s := ((s.updateEeTimerCounter i nowNs).setReg address value).setLast i nowNs'
      if address = countAddr + kEeTimerModeOffset then s.setFraction i 0 else s
  | none => s

end Timers

/-- An access to a register of the timers. -/
inductive Access
  | read (address : Word) (nowNs : Ns)
  | write (address value : Word) (nowNs nowNs' : Ns)

def step (s : Timers) : Access → Timers
  | .read address nowNs => (s.readIORegister address nowNs).2
  | .write address value nowNs nowNs' => s.writeIORegister address value nowNs nowNs'

end Ps2Recomp.EeTimers
