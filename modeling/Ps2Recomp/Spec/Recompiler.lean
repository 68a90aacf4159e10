import Ps2Recomp.Spec.ControlFlowEmitter

/-!
# The recompiler around the code generator

`PS2Recompiler`: the decoding of the functions, the resume targets that
`discoverAdditionalEntryPoints` assigns to owner functions, the generated names, and the
function table that `FunctionTableEmitter` writes for the dispatcher.

The maps from owners to resume targets and from addresses to instructions are lists read
by their first match. The map of resume targets is a hash map: the table goes through
it in some order, which is an argument of `FunctionTableEmitter.emit`.
-/

namespace Ps2Recomp

/-- What the recompiler starts from: the functions and sections of the input and its
configuration. -/
structure Recompiler where
  /-- `m_codeGenerator` as `initialize` sets it up. -/
  codeGenerator : CodeGenerator
  /-- `extractFunctions`. -/
  extracted : List Function
  /-- `extractFunctions` merges the functions that start at one address. -/
  starts_nodup : (extracted.map (·.start)).Nodup
  isStubFunction : Function → Bool
  shouldSkipFunction : Function → Bool
  /-- The instruction at an address after patches and MMIO overrides; none when the
  address is not valid or the decoder throws. -/
  decodeAt : Word → Option Instruction
  ingestedExternalCallTargets : List Word := []
  /-- `DiscoverDataEmbeddedThreadEntries`. -/
  threadEntries : List Word := []
  /-- `m_bootstrapInfo.entry`, when valid. -/
  bootstrapEntry : Option Word := none
  /-- `resolveStubTarget` gives `StubTarget::Syscall`. -/
  isSyscallTarget : String → Bool := fun _ => false

namespace Recompiler

variable (R : Recompiler)

/-! ## Decoding -/

/-- The loop of `decodeFunction` from `address` on, with whether it was truncated. A loop
that runs longer than `fuel = 2 ^ 30` comes back to an address it has seen. -/
def decodeFrom (endAddr : Word) : ℕ → Word → List Instruction × Bool
  | 0, _ => ([], false)
  | fuel + 1, address =>
    if address < endAddr then
      match R.decodeAt address with
      | none => ([], true)
      | some inst =>
        let rest := decodeFrom endAddr fuel (address + 4)
        ({ inst with address := address } :: rest.1, rest.2)
    else ([], false)

/-- `decodeFunction`: a truncated function ends after its last instruction. -/
def decodeFunction (f : Function) : Option (Function × List Instruction) :=
  let res := R.decodeFrom f.endAddr (2 ^ 30) f.start
  match res.1.getLast? with
  | none => none
  | some last => some (if res.2 then { f with endAddr := last.address + 4 } else f, res.1)

/-- One round of the loop of `recompile`: the function with its flags, and its
instructions if they were decoded. -/
def recompileFunction (f : Function) : Function × Option (List Instruction) :=
  if R.isStubFunction f then ({ f with isStub := true, isSkipped := false }, none)
  else if R.shouldSkipFunction f then ({ f with isStub := false, isSkipped := true }, none)
  else
    match R.decodeFunction f with
    | none => ({ f with isSkipped := true }, none)
    | some (f', instructions) => ({ f' with isRecompiled := true }, some instructions)

/-- `m_functions` after `recompile`. -/
def functions : List Function := R.extracted.map fun f => (R.recompileFunction f).1

/-- `m_decodedFunctions` after `recompile`. -/
def decodedFunctions : List (Word × List Instruction) :=
  R.extracted.filterMap fun f => (R.recompileFunction f).2.map fun is => (f.start, is)

/-- The instructions decoded for the function that starts at `start`. -/
def decoded (start : Word) : Option (List Instruction) := R.decodedFunctions.lookup start

/-! ## Resume targets -/

/-- The functions that own resume targets. -/
def ownsTargets (f : Function) : Bool := f.hasCode && !isEntryFunctionName f.name

/-- `findContainingFunction`. -/
def findContainingFunction (a : Word) : Option Function :=
  (R.functions.filter fun f => ownsTargets f && decide (f.start ≤ a) && decide (a < f.endAddr) &&
    ((R.decoded f.start).getD []).any (·.address == a)).foldl betterOwner none

/-- A target outside the function that names it goes to the function around it. -/
def assignExternal (target : Word) : List (Word × Word) :=
  match R.findContainingFunction target with
  | none => []
  | some owner => if owner.start = target then [] else [(owner.start, target)]

/-- What the loop of `discoverAdditionalEntryPoints` assigns for a function. -/
def assignFunction (f : Function) : List (Word × Word) :=
  match R.decoded f.start with
  | none => []
  | some instructions =>
    let res := R.codeGenerator.analyzer.analyze f instructions (some R.functions)
    ((res.resumeEntryPoints ++ res.indirectFallbackEntryPoints).map fun t => (f.start, t)) ++
      res.externalEntryPoints.flatMap R.assignExternal

/-- The pairs of an owner and a target, in the order of assignment. -/
def assignments : List (Word × Word) :=
  (R.functions.filter ownsTargets).flatMap R.assignFunction ++
    R.ingestedExternalCallTargets.flatMap R.assignExternal ++
    R.threadEntries.flatMap R.assignExternal

/-- `m_resumeEntryTargetsByOwner`. -/
def resumeEntryTargetsByOwner : List (Word × List Word) :=
  (R.assignments.map (·.1)).dedup.map fun owner =>
    (owner, sortUnique ((R.assignments.filter (·.1 = owner)).map (·.2)))

/-! ## Generated code -/

/-- `shouldGenerateCodeForFunction`. -/
def shouldGenerateCodeForFunction (f : Function) : Bool := f.isRecompiled || f.isStub || f.isSkipped

/-- `m_functionRenames`. -/
def functionRenames : List (Word × String) :=
  (R.functions.filter shouldGenerateCodeForFunction).map fun f => (f.start, makeName f)

/-- The code generator that `generateOutput` works with. -/
def generator : CodeGenerator :=
  { R.codeGenerator with
    renamedFunctions := R.functionRenames
    resumeEntryTargetsByOwner := R.resumeEntryTargetsByOwner }

/-- The code of a function that has code. -/
def code (f : Function) : List Item :=
  FunctionEmitter.emit R.generator f ((R.decoded f.start).getD [])

/-- A program of one function, decoded from `start` on. -/
def single (name : String) (start : Word) (instructions : List Instruction) : Recompiler where
  codeGenerator := { analyzer := { sections := [], configJumpTables := [] } }
  extracted :=
    [{ name := name, start := start, endAddr := start + 4 * BitVec.ofNat 32 instructions.length }]
  starts_nodup := by simp
  isStubFunction := fun _ => false
  shouldSkipFunction := fun _ => false
  decodeAt := fun a => instructions[(a - start).toNat / 4]?

end Recompiler

/-! ## The function table -/

namespace FunctionTableEmitter

variable (R : Recompiler)

/-- `addEntry`. An entry is an address with the address whose name is registered there. -/
def addEntry (entries : List (Word × Word)) (e : Word × Word) : Option (List (Word × Word)) :=
  if R.generator.getFunctionName e.2 = "" then some entries
  else if e.1 &&& 3 ≠ 0 then none
  else if e.1 ∈ entries.map (·.1) then some entries
  else some (entries ++ [e])

/-- The functions of a class, each registered under its own name. -/
def functionEntries (p : Function → Bool) : List (Word × Word) :=
  ((R.functions.filter Recompiler.shouldGenerateCodeForFunction).filter p).map fun f => (f.start, f.start)

/-- The calls of `addEntry` in order. `byOwner` is the order of the hash map. -/
def requests (byOwner : List (Word × List Word)) : List (Word × Word) :=
  R.bootstrapEntry.toList.map (fun a => (a, a)) ++
    functionEntries R (fun f => !f.isSkipped && !f.isStub) ++
    byOwner.flatMap (fun p => p.2.map fun t => (t, p.1)) ++
    functionEntries R (fun f => !f.isSkipped && f.isStub && !R.isSyscallTarget f.name) ++
    functionEntries R (fun f => !f.isSkipped && f.isStub && R.isSyscallTarget f.name) ++
    functionEntries R (fun f => f.isSkipped)

/-- `FunctionTableEmitter::emit`; none when it throws. -/
def emit (byOwner : List (Word × List Word)) : Option (List (Word × Word)) :=
  if R.bootstrapEntry.any (fun a => R.generator.getFunctionName a == "") then none
  else (requests R byOwner).foldlM (addEntry R) []

section Slots

variable (entries : List (Word × Word))

/-- The entries in the order of their addresses. -/
def sorted : List (Word × Word) := entries.insertionSort fun a b => a.1 ≤ b.1

/-- `g_ps2RecompiledFunctionTableBase`. -/
def tableBase : Word := ((sorted entries).head?.map fun e => e.1 &&& ~~~3).getD 0

/-- `g_ps2RecompiledFunctionTableEnd`. -/
def tableEnd : Word := ((sorted entries).getLast?.map fun e => (e.1 + 4 + 3) &&& ~~~3).getD 0

/-- `g_ps2RecompiledFunctionTableSlotCount`. -/
def slotCount : Word := (tableEnd entries - tableBase entries) >>> 2

/-- The length of `g_ps2RecompiledFunctionTable`. -/
def tableLength : ℕ := if slotCount entries = 0 then 1 else (slotCount entries).toNat

/-- The slot of an address. -/
def slot (a : Word) : Word := (a - tableBase entries) >>> 2

/-- What the constructor of the table leaves in a slot: the last entry assigned to it. -/
def slotValue (i : Word) : Option Word :=
  if i.toNat < tableLength entries then
    ((sorted entries).map fun e => (slot entries e.1, e.2)).reverse.lookup i
  else none

end Slots

end FunctionTableEmitter

end Ps2Recomp
