import Ps2Recomp.Lib.Transition
import Ps2Recomp.Spec.SifRpc

/-!
# The mirror of the syscall overrides

`SetSyscall`, `initializeGuestKernelState` and `GetEntryAddress` (`System.cpp`). The overrides are a hash
map, and the mirrored addresses a hash set, so that the order of a pass over either is one of any.
-/

namespace Ps2Recomp.SyscallMirror

open Memory VSync SifRpc

def kGuestSyscallTableGuestBase : Word := 0x80011F80
def kGuestSyscallTablePhysBase : Word := kGuestSyscallTableGuestBase &&& 0x1FFFFFFF
def kGuestSyscallMirrorLimit : Word := 0x00080000
def kGuestSyscallTableProbeBase : Word := 0x000002F0

/-- `g_syscall_overrides`, `g_syscall_mirror_addrs` and the guest's memory. -/
structure State where
  overrides : Word → Option Word
  mirrorAddrs : Finset Word
  memory : GuestMemory

def tryResolveGuestSyscallMirrorAddr (syscallIndex : Word) : Option Word :=
  let offsetBytes : ℤ := syscallIndex.toInt * 4
  let guestAddr64 : ℤ := kGuestSyscallTablePhysBase.toNat + offsetBytes
  if guestAddr64 < 0 ∨ (kGuestSyscallMirrorLimit.toNat : ℤ) < guestAddr64 + 4 then none
  else some (.ofInt 32 guestAddr64)

section

variable (spr : Bool) (s : State)

def writeGuestKernelWord (m : GuestMemory) (guestAddr value : Word) : GuestMemory :=
  match getMemPtr spr guestAddr with
  | some ptr => setWord m ptr 0 value
  | none => m

def seedGuestSyscallTableProbeLocked : State :=
  let m := writeGuestKernelWord spr s.memory (kGuestSyscallTableProbeBase + 0) (kGuestSyscallTableGuestBase >>> 16)
  { s with
    memory := writeGuestKernelWord spr m (kGuestSyscallTableProbeBase + 8) (kGuestSyscallTableGuestBase &&& 0xFFFF)
    mirrorAddrs := insert (kGuestSyscallTableProbeBase + 8) (insert (kGuestSyscallTableProbeBase + 0) s.mirrorAddrs) }

def mirrorGuestSyscallEntryLocked (syscallIndex handler : Word) : State :=
  match tryResolveGuestSyscallMirrorAddr syscallIndex with
  | none => s
  | some guestAddr =>
    { s with
      memory := writeGuestKernelWord spr s.memory guestAddr handler
      mirrorAddrs := if handler = 0 then s.mirrorAddrs.erase guestAddr else insert guestAddr s.mirrorAddrs }

/-- `addrs` and `entries` are the orders of the two passes. -/
def initializeGuestKernelState (addrs : List Word) (entries : List (Word × Word)) : State :=
  let cleared := addrs.foldl (fun m guestAddr => writeGuestKernelWord spr m guestAddr 0) s.memory
  entries.foldl (fun s entry => mirrorGuestSyscallEntryLocked spr s entry.1 entry.2)
    (seedGuestSyscallTableProbeLocked spr { s with memory := cleared, mirrorAddrs := ∅ })

def SetSyscall (syscallIndex handler : Word) : State :=
  mirrorGuestSyscallEntryLocked spr
    { s with overrides := Function.update s.overrides syscallIndex (if handler = 0 then none else some handler) }
    syscallIndex handler

def GetEntryAddress (syscallNum : Word) : Word :=
  match getMemPtr spr (kGuestSyscallTableGuestBase + syscallNum * 4) with
  | some ptr => word s.memory ptr 0
  | none => 0

end

inductive Call
  | setSyscall (syscallIndex handler : Word)
  | init
  deriving DecidableEq

inductive Step (spr : Bool) : State → Call → State → Prop
  | setSyscall (s : State) (syscallIndex handler : Word) :
      Step spr s (.setSyscall syscallIndex handler) (SetSyscall spr s syscallIndex handler)
  | init (s : State) {addrs : List Word} {entries : List (Word × Word)} (ha : ∀ a, a ∈ addrs ↔ a ∈ s.mirrorAddrs)
      (he : ∀ e, e ∈ entries ↔ s.overrides e.1 = some e.2) :
      Step spr s .init (initializeGuestKernelState spr s addrs entries)

/-- No override, and a memory of zeros. -/
def start : State := ⟨fun _ => none, ∅, ⟨0, 0⟩⟩

end Ps2Recomp.SyscallMirror
