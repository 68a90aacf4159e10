import Ps2Recomp.Lib.Cas
import Ps2Recomp.Spec.Memory

/-!
# The status register of the GS and its writers

`GSRegisters::csr` is one atomic word with three kinds of writers: the vsync worker
(`updateGsCsrFieldForVSync`, `Interrupt.cpp`), the packets that write `SIGNAL` and `FINISH`
(`GS::writeRegister`, `ps2_gs_gpu.cpp`), and the stores of the guest (`writeCsrHalf` and `writeCsrFull`,
`ps2_memory.cpp`), which are loops of `compare_exchange_weak`.
-/

namespace Ps2Recomp.Csr

open Memory

abbrev Dword := BitVec 64

def kGsCsrFieldMask : Dword := 0x2000

/-- The updates of one atomic operation. -/
inductive Rmw
  | vsync (tickValue : Dword)
  | signal
  | finish
  deriving DecidableEq, Repr

/-- The stores of the guest: `write32` to the low or the high half, and `write64`. -/
inductive GuestWrite
  | low (value : Word)
  | high (value : Word)
  | full (value : Dword)
  deriving DecidableEq, Repr

/-- `updateGsCsrFieldForVSync` -/
def updateGsCsrFieldForVSync (tickValue csr : Dword) : Dword :=
  if tickValue &&& 1 ≠ 0 then csr ||| kGsCsrFieldMask else csr &&& ~~~kGsCsrFieldMask

def applyRmw : Rmw → Dword → Dword
  | .vsync tickValue, csr => updateGsCsrFieldForVSync tickValue csr
  | .signal, csr => csr ||| 0x1
  | .finish, csr => csr ||| 0x2

/-- What the loop of a store computes from what it has loaded. -/
def applyWrite : GuestWrite → Dword → Dword
  | .low value, csr => writeCsrHalf csr 0 value
  | .high value, csr => writeCsrHalf csr 4 value
  | .full value, csr => writeCsrFull csr value

/-- The register, and the stores of the threads `ι` that are in their loops. -/
abbrev State (ι : Type) := Cas.Shared ι GuestWrite Dword

abbrev Step (ι : Type) := Cas.Step ι GuestWrite Rmw

/-- Steps of all writers, in any order. -/
def run {ι : Type} [DecidableEq ι] : State ι → List (Step ι) → Option (State ι) := Cas.run applyWrite applyRmw

end Ps2Recomp.Csr
