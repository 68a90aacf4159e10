import Mathlib.Data.List.Dedup
import Mathlib.Data.List.Sort
import Ps2Recomp.Spec.Instruction

/-!
# The control flow analyzer

`ControlFlowAnalyzer::analyze`: which addresses of a function get labels, which of
them are registered as places where execution can resume, and which targets lie in
other functions. The analyzer only inserts into the sets of its result and never
reads them back, so each set is written as the list of what is inserted; lists
stand for the sets by their members.
-/

namespace Ps2Recomp

/-- `ControlFlowAnalysisResult`. `jumpTableTargets` is read by its first match. -/
structure AnalysisResult where
  entryPoints : List Word := []
  externalEntryPoints : List Word := []
  resumeEntryPoints : List Word := []
  indirectFallbackEntryPoints : List Word := []
  jumpTableTargets : List (Word × List Word) := []
  deriving DecidableEq, Repr

/-- `std::sort` followed by `std::unique`. -/
def sortUnique (l : List Word) : List Word := (l.insertionSort (· ≤ ·)).dedup

@[simp] theorem mem_sortUnique {l : List Word} {a : Word} : a ∈ sortUnique l ↔ a ∈ l := by
  simp [sortUnique]

/-- What the analyzer is constructed with. -/
structure Analyzer where
  sections : List Section
  /-- `m_configJumpTableTargetsByAddress`. -/
  configJumpTables : List (Word × List Word)

def isEntryFunctionName (name : String) : Bool := "entry_".toList.isPrefixOf name.toList

/-- A function whose code is generated from its instructions. -/
def Function.hasCode (f : Function) : Bool := f.isRecompiled && !f.isStub && !f.isSkipped

/-- The later of two functions by start address, as the lookups of a containing
function keep it. -/
def betterOwner (best : Option Function) (f : Function) : Option Function :=
  match best with
  | none => some f
  | some b => if b.start < f.start then some f else some b

/-! ## Jump tables -/

/-- `for (i = from - 1; i >= 0 && i >= from - window; --i)`: the first index at
which `p` holds. -/
def findBack (instructions : List Instruction) (p : Instruction → Bool) : ℕ → ℕ → Option ℕ
  | _, 0 => none
  | 0, _ => none
  | n + 1, window + 1 =>
    match instructions[n]? with
    | some inst => if p inst then some n else findBack instructions p n window
    | none => none

/-- What the scan before a register jump finds: the address of the table, and the
`ADDU` that indexes it. -/
structure TableScan where
  tableAddress : Word
  adduIndex : ℕ
  tableBaseReg : Reg
  indexReg : Reg

/-- The low half that instructions between the `LUI` and the `ADDU` add: the last one wins. -/
def tableLow (reg : Reg) (between : List Instruction) : Word :=
  between.foldl (fun low inst =>
    if inst.rs = reg ∧ inst.rt = reg then
      if inst.opcode = .addiu then inst.simmediate
      else if inst.opcode = .ori then inst.immediate else low
    else low) 0

/-- The back scan from a register jump over `LW`, `ADDU` and `LUI`. -/
def scanTable (instructions : List Instruction) (jr : Instruction) : Option TableScan := do
  let jrIndex ← instructions.findIdx? (·.address == jr.address)
  let lwIndex ← findBack instructions (fun i => (i.opcode == .lw || i.opcode == .lwu) && i.rt == jr.rs) jrIndex 20
  let lw ← instructions[lwIndex]?
  let adduIndex ← findBack instructions
    (fun i => i.opcode == .special && i.function == specialAddu && i.rd == lw.rs) lwIndex 10
  let addu ← instructions[adduIndex]?
  let luiIndex ← findBack instructions (fun i => i.opcode == .lui && (i.rt == addu.rs || i.rt == addu.rt)) adduIndex 20
  let lui ← instructions[luiIndex]?
  let between := (instructions.drop (luiIndex + 1)).take (adduIndex - (luiIndex + 1))
  return {
    tableAddress := (lui.immediate <<< 16) + tableLow lui.rt between + lw.simmediate
    adduIndex := adduIndex
    tableBaseReg := addu.rs
    indexReg := addu.rt }

/-- `numCases`: the bound of the comparison before the table access. -/
def tableCases (instructions : List Instruction) (scan : TableScan) : ℕ :=
  let unshifted : Reg :=
    match (findBack instructions (fun i => i.opcode == .special && i.function == specialSll &&
        (i.rd == scan.tableBaseReg || i.rd == scan.indexReg)) scan.adduIndex 10).bind
        (instructions[·]?) with
    | some inst => inst.rt
    | none => 0
  if unshifted = 0 then 0
  else
    match (findBack instructions (fun i => (i.opcode == .sltiu || i.opcode == .slti) &&
        i.rs == unshifted) scan.adduIndex 30).bind (instructions[·]?) with
    | some inst => inst.immediate.toNat
    | none => 0

/-- A little-endian word of a section. -/
def Section.readWord (data : Word → BitVec 8) (offset : Word) : Word :=
  data (offset + 3) ++ data (offset + 2) ++ data (offset + 1) ++ data offset

/-- The entries of a table in section data, up to the first that lies outside; the
flag says whether all of them were inside. -/
def readCases (sec : Section) (data : Word → BitVec 8) : ℕ → Word → List Word × Bool
  | 0, _ => ([], true)
  | n + 1, addr =>
    if sec.address ≤ addr ∧ addr + 4 ≤ sec.address + sec.size then
      let rest := readCases sec data n (addr + 4)
      (Section.readWord data (addr - sec.address) :: rest.1, rest.2)
    else ([], false)

namespace Analyzer

variable (az : Analyzer) (fn : Function) (instructions : List Instruction)
  (allFunctions : Option (List Function))

/-- In the function's range and decoded. -/
def isLocal (a : Word) : Bool :=
  decide (fn.start ≤ a) && decide (a < fn.endAddr) && (instructions.map (·.address)).contains a

/-- The section that holds a table. -/
def tableSection (a : Word) : Option Section :=
  az.sections.find? (fun sec => decide (sec.address ≤ a) && decide (a < sec.address + sec.size))

/-- The configured targets of the table at an address. -/
def configuredTargets (scan : TableScan) : List Word :=
  (az.configJumpTables.lookup scan.tableAddress).getD []

/-- The targets read from the table in section data, with whether the table is valid. -/
def rodataTargets (scan : TableScan) : List Word × Bool :=
  let numCases := tableCases instructions scan
  if 0 < numCases ∧ numCases ≤ 1000 then
    match az.tableSection scan.tableAddress with
    | some sec =>
      match sec.data with
      | some data => readCases sec data numCases scan.tableAddress
      | none => ([], false)
    | none => ([], false)
  else ([], false)

/-- The local targets found for a register jump: the configured table, or else the
one in section data. Empty when no table was found. -/
def tableTargets (jr : Instruction) : List Word :=
  match scanTable instructions jr with
  | none => []
  | some scan =>
    let configured := (az.configuredTargets scan).filter (isLocal fn instructions)
    if configured ≠ [] then sortUnique configured
    else
      let cases := az.rodataTargets instructions scan
      if cases.2 then (cases.1.filter (isLocal fn instructions)).dedup else []

/-- The targets outside the function that the table search comes across. -/
def tableExternals (jr : Instruction) : List Word :=
  match scanTable instructions jr with
  | none => []
  | some scan =>
    let outside := fun a => !isLocal fn instructions a
    let configured := az.configuredTargets scan
    configured.filter outside ++
      (if configured.filter (isLocal fn instructions) ≠ [] then []
        else (az.rodataTargets instructions scan).1.filter outside)

/-! ## Queues -/

def isExecutableAddress (a : Word) : Bool :=
  az.sections.any (fun sec =>
    sec.isCode && decide (sec.address ≤ a) && decide (a < sec.address + sec.size))

def findContainingExternalFunction (a : Word) : Option Function :=
  match allFunctions with
  | none => none
  | some fns =>
    if az.isExecutableAddress a then
      (fns.filter (fun f => f.hasCode && !isEntryFunctionName f.name && decide (f.start ≤ a) &&
        decide (a < f.endAddr))).foldl betterOwner none
    else none

def queueExternalEntryTarget (target : Word) : List Word :=
  match az.findContainingExternalFunction allFunctions target with
  | none => []
  | some owner => if owner.start = fn.start ∨ target = owner.start then [] else [target]

def queueResumeEntryTarget (resumeAddr : Word) : List Word :=
  if isLocal fn instructions resumeAddr then [resumeAddr] else []

def queueLoopResumeEntryTarget (target sourcePc : Word) : List Word :=
  if sourcePc < target ∨ target = fn.start then []
  else queueResumeEntryTarget fn instructions target

/-! ## Instructions -/

/-- A branch the analyzer follows, other than `J` and `JAL`. -/
def isConditionalBranch (inst : Instruction) : Bool :=
  inst.isBranch && inst.opcode != .j && inst.opcode != .jal

/-- The static target of an instruction, if it has one. -/
def staticTarget (inst : Instruction) : Option Word :=
  if isConditionalBranch inst then some inst.branchTarget
  else if inst.isStaticJump then some inst.jumpTarget else none

/-- The label the branch loop inserts for an instruction. -/
def branchEntry (inst : Instruction) : List Word :=
  match staticTarget inst with
  | some t => if isLocal fn instructions t then [t] else []
  | none => []

/-- The resume points the branch loop queues for an instruction. -/
def branchResume (inst : Instruction) : List Word :=
  (match staticTarget inst with
    | some t =>
      if isLocal fn instructions t then queueLoopResumeEntryTarget fn instructions t inst.address
      else []
    | none => []) ++
  (if inst.opcode = .jal then queueResumeEntryTarget fn instructions (inst.address + 8) else [])

/-- The external target the branch loop queues for an instruction. -/
def branchExternal (inst : Instruction) : List Word :=
  match staticTarget inst with
  | some t =>
    if isLocal fn instructions t then [] else az.queueExternalEntryTarget fn allFunctions t
  | none => []

/-- The register jumps the analyzer looks for tables of. -/
def indirectJumps : List Instruction := instructions.filter (·.isIndirectJump)

/-- The return point of a `JALR`. -/
def jalrResume (inst : Instruction) : List Word :=
  if inst.function = specialJalr then queueResumeEntryTarget fn instructions (inst.address + 8)
  else []

/-- `needsIndirectFallback`: some register jump has no table. -/
def needsIndirectFallback : Bool :=
  (indirectJumps instructions).any (fun jr => az.tableTargets fn instructions jr == [])

/-- The addresses that an unresolved register jump promotes. -/
def fallbackEntries : List Word :=
  if az.needsIndirectFallback fn instructions then
    (instructions.map (·.address)).filter (isLocal fn instructions)
  else []

def analyze : AnalysisResult :=
  let jrs := indirectJumps instructions
  let resume := instructions.flatMap (branchResume fn instructions) ++ jrs.flatMap (jalrResume fn instructions)
  let fallback := az.fallbackEntries fn instructions
  { entryPoints := instructions.flatMap (branchEntry fn instructions) ++ resume ++
      jrs.flatMap (az.tableTargets fn instructions) ++ fallback
    externalEntryPoints :=
      instructions.flatMap (az.branchExternal fn instructions allFunctions) ++
        (jrs.flatMap (az.tableExternals fn instructions)).flatMap (az.queueExternalEntryTarget fn allFunctions)
    resumeEntryPoints := resume
    indirectFallbackEntryPoints := fallback
    -- a later jump at the same address overwrites the entry
    jumpTableTargets := ((jrs.map fun jr => (jr.address, az.tableTargets fn instructions jr)).filter
      (fun p => p.2 ≠ [])).reverse }

end Analyzer

end Ps2Recomp
