import Ps2Recomp.Spec.Analyzer
import Ps2Recomp.Lib.Floor
import Mathlib.Data.List.AList

/-!
# Functions of a program without symbols

`ScanJalTargetsFallback` of `elf_parser.cpp`: where a stripped program's functions
start. The entry, the targets of calls and of tail calls, and words that look like
pointers to a prologue seed a set of starts; the last pass then splits after every
`jr $ra` whose next instruction no branch of the program targets.

The set of starts is the list of what is inserted and stands for the set by its
members. Sections are smaller than 2^32 - 4 bytes: in a larger one the offset of the
scanning loops wraps and they do not end.
-/

namespace Ps2Recomp.FunctionScan

/-- `FindCodeSectionByAddress`. The end of a section wraps as the source's does. -/
def findCodeSectionByAddress (sections : List Section) (address : Word) : Option Section :=
  sections.find? (fun sec => sec.isCode && decide (sec.address ≤ address) &&
    decide (address < sec.address + sec.size))

/-- `MakeAutoFunctionName`, the format `sub_%08X`. -/
def makeAutoFunctionName (address : Word) : String :=
  let digits := (Nat.toDigits 16 address.toNat).map Char.toUpper
  "sub_" ++ String.ofList (List.replicate (8 - digits.length) '0' ++ digits)

/-- A word as a scanning loop meets it: its address, its value, and the value of the
following word where the section still has one. -/
structure ScannedWord where
  pc : Word
  raw : Word
  next : Option Word
  deriving DecidableEq, Repr

/-- The words of a section, in the order of `for (offset = 0; offset + 4 <= size; offset += 4)`. -/
def sectionWords (sec : Section) : List ScannedWord :=
  match sec.data with
  | none => []
  | some data => (List.range (sec.size.toNat / 4)).map (fun i =>
      let offset := BitVec.ofNat 32 (4 * i)
      { pc := sec.address + offset
        raw := Section.readWord data offset
        next := if offset + 8 ≤ sec.size then some (Section.readWord data (offset + 4)) else none })

/-- The words of all code sections, section by section. -/
def codeWords (sections : List Section) : List ScannedWord :=
  (sections.filter (·.isCode)).flatMap sectionWords

/-! ## Fields of a word -/

def opcodeOf (raw : Word) : Word := (raw >>> 26) &&& 0x3F

/-- The target of `J` and `JAL`. -/
def absoluteTarget (pc raw : Word) : Word :=
  ((pc + 4) &&& 0xF0000000) ||| ((raw &&& 0x03FFFFFF) <<< 2)

/-- The target of a branch by its sign-extended offset. -/
def relativeTarget (pc raw : Word) : Word :=
  pc + 4 + (((raw.setWidth 16).signExtend 32) <<< 2)

/-- `addiu $sp, $sp, imm` or `daddiu $sp, $sp, imm`. -/
def adjustsStack (w : Word) : Bool :=
  w &&& 0xFFFF0000 == 0x27BD0000 || w &&& 0xFFFF0000 == 0x67BD0000

/-- The frame is torn down: a positive adjustment. -/
def releasesStack (w : Word) : Bool :=
  adjustsStack w && w &&& 0x8000 == 0 && w &&& 0xFFFF != 0

/-- The frame is set up: a negative adjustment. -/
def allocatesStack (w : Word) : Bool :=
  adjustsStack w && w &&& 0x8000 != 0

/-! ## Seeds -/

/-- `isFunctionTarget`: a call, or a jump that releases the frame in its delay slot. -/
def isFunctionTarget (w : ScannedWord) : Bool :=
  opcodeOf w.raw == 3 || (opcodeOf w.raw == 2 && w.next.any releasesStack)

def looksLikePrologue (sections : List Section) (addr : Word) : Bool :=
  match findCodeSectionByAddress sections addr with
  | none => false
  | some s =>
    match s.data with
    | none => false
    | some data =>
      let off := addr - s.address
      if s.size < off + 4 then false else allocatesStack (Section.readWord data off)

/-- The entry point, if code holds it. -/
def seedEntry (sections : List Section) (entry : Word) : List Word :=
  if (findCodeSectionByAddress sections entry).isSome then [entry] else []

/-- One word of the first pass. -/
def seedTarget (sections : List Section) (starts : List Word) (w : ScannedWord) : List Word :=
  let target := absoluteTarget w.pc w.raw
  if isFunctionTarget w && (findCodeSectionByAddress sections target).isSome then
    starts.insert target
  else starts

/-- One word of the second pass, which scans data too. -/
def seedPointer (sections : List Section) (starts : List Word) (w : ScannedWord) : List Word :=
  if w.raw &&& 3 ≠ 0 ∨ w.raw ∈ starts then starts
  else if (findCodeSectionByAddress sections w.raw).isSome && looksLikePrologue sections w.raw then
    starts.insert w.raw
  else starts

/-- The starts that are known before the return boundaries are split. -/
def seeds (sections : List Section) (entry : Word) : List Word :=
  (sections.flatMap sectionWords).foldl (seedPointer sections)
    ((codeWords sections).foldl (seedTarget sections) (seedEntry sections entry))

/-! ## Return boundaries -/

/-- The target a word has as a branch or a jump, whatever it really is. -/
def branchTargetOf (w : ScannedWord) : Option Word :=
  let op := opcodeOf w.raw
  if op = 2 ∨ op = 3 then some (absoluteTarget w.pc w.raw)
  else if op = 1 ∨ (4 ≤ op ∧ op ≤ 7) ∨ (0x14 ≤ op ∧ op ≤ 0x17) then
    some (relativeTarget w.pc w.raw)
  else if (op = 0x10 ∨ op = 0x11 ∨ op = 0x12 ∨ op = 0x13) ∧ (w.raw >>> 21) &&& 0x1F = 8 then
    some (relativeTarget w.pc w.raw)
  else none

def branchTargets (sections : List Section) : List Word :=
  (codeWords sections).filterMap branchTargetOf

/-- The loop over the padding after a return: where it stops and the word it stops on.
The number is how many nops may still be skipped. -/
def skipNops (cs : Section) (data : Word → BitVec 8) : ℕ → Word → Word → Word × Word
  | 0, candidate, coff => (candidate, Section.readWord data coff)
  | n + 1, candidate, coff =>
    if Section.readWord data coff = 0 ∧ coff + 8 ≤ cs.size then
      skipNops cs data n (candidate + 4) (coff + 4)
    else (candidate, Section.readWord data coff)

/-- The first word from `candidate` on that is no nop, as far as the source looks. -/
def paddingEnd (sections : List Section) (candidate : Word) : Option Word :=
  match findCodeSectionByAddress sections candidate with
  | none => none
  | some cs =>
    match cs.data with
    | none => none
    | some data =>
      let coff := candidate - cs.address
      if cs.size < coff + 4 then none
      else
        let stop := skipNops cs data 32 candidate coff
        if stop.2 = 0 then none else some stop.1

/-- `jr $ra`. -/
def jrRa : Word := 0x03E00008

/-- The start that one word adds. -/
def splitAt (sections : List Section) (starts : List Word) (w : ScannedWord) : Option Word :=
  let candidate := w.pc + 8
  if w.raw ≠ jrRa then none
  else if candidate &&& 3 ≠ 0 ∨ candidate ∈ starts ∨ candidate ∈ branchTargets sections then none
  else
    match paddingEnd sections candidate with
    | none => none
    | some s => if s ∈ starts ∨ s ∈ branchTargets sections then none else some s

/-- The state of the last pass. `added` is not data of the source: it records each start
the pass adds next to the address of its `jr $ra`. -/
structure Pass where
  starts : List Word
  added : List (Word × Word)

/-- One word of the last pass. -/
def Pass.step (sections : List Section) (pass : Pass) (w : ScannedWord) : Pass :=
  match splitAt sections pass.starts w with
  | none => pass
  | some s => { starts := pass.starts.insert s, added := pass.added ++ [(w.pc, s)] }

/-- The last pass over a list of words. -/
def returnPass (sections : List Section) (entry : Word) (words : List ScannedWord) : Pass :=
  words.foldl (Pass.step sections) { starts := seeds sections entry, added := [] }

/-! ## The functions -/

/-- A function from each start to the next one of its section. -/
def functionsFrom (sections : List Section) : List Word → List Function
  | [] => []
  | start :: rest =>
    match findCodeSectionByAddress sections start with
    | none => functionsFrom sections rest
    | some sec =>
      let secEnd := sec.address + sec.size
      let stop :=
        match rest.head? with
        | some next => if start < next ∧ next < secEnd then next else secEnd
        | none => secEnd
      { name := makeAutoFunctionName start
        start := start
        endAddr := if start < stop then stop else start + 4 } :: functionsFrom sections rest

/-- `ScanJalTargetsFallback`: the functions it appends. -/
def scanJalTargetsFallback (sections : List Section) (entry : Word) : List Function :=
  functionsFrom sections (sortUnique (returnPass sections entry (codeWords sections)).starts)

end Ps2Recomp.FunctionScan

/-!
# The functions of an input program

`ElfParser::extractFunctions`: the function symbols and the functions of the debug data or of
a map are merged by their start. Sized symbols and named functions with an end give
authoritative ranges; a function inside such a range is dropped, and a function without an end
gets one from what follows it.

`authoritativeEndByStart` is a hash map that is only looked up and sorted, so the order of its
entries is not data. `indexByStart` finds the one function with a start.
-/

namespace Ps2Recomp.FunctionExtraction

open FunctionScan

/-- A symbol of the symbol table, with what the extraction reads of it. -/
structure Symbol where
  name : String
  address : Word
  size : Word
  isFunction : Bool
  isImported : Bool
  deriving DecidableEq, Repr

/-- What the parser has collected when functions are extracted. -/
structure ElfParser where
  sections : List Section
  symbols : List Symbol
  extraFunctions : List Function
  hasLoadedGhidraMap : Bool
  ghidraMapStarts : List Word

def isAutoGeneratedName (name : String) : Bool :=
  ["sub_", "FUN_", "LAB_", "DAT_"].any (fun p => p.toList.isPrefixOf name.toList)

def findSectionByAddress (sections : List Section) (address : Word) : Option Section :=
  sections.find? (fun sec => decide (sec.address ≤ address) &&
    decide (address < sec.address + sec.size))

/-- `FindFunctionSectionByAddress`: any section will do where none is executable. -/
def findFunctionSectionByAddress (sections : List Section) (address : Word) : Option Section :=
  match findCodeSectionByAddress sections address with
  | some sec => some sec
  | none => if sections.any (·.isCode) then none else findSectionByAddress sections address

/-- The cast of a 64-bit end, `0xFFFFFFFF` where it does not fit. -/
def saturateEnd (end64 : ℕ) : Word := if 0xFFFFFFFF < end64 then 0xFFFFFFFF else BitVec.ofNat 32 end64

def clampFunctionEndToSection (sec : Option Section) (start requestedEnd : Word) : Word :=
  match sec with
  | none => requestedEnd
  | some sec =>
    let sectionEnd64 := sec.address.toNat + sec.size.toNat
    let sectionEnd := saturateEnd sectionEnd64
    let stop := if requestedEnd = 0 ∨ sectionEnd < requestedEnd then sectionEnd else requestedEnd
    if stop ≤ start then
      if start.toNat + 4 ≤ sectionEnd64 then BitVec.ofNat 32 (start.toNat + 4) else sectionEnd
    else stop

/-- `authoritativeEndByStart`. -/
abbrev Ends := AList (fun _ : Word => Word)

/-- `emplace`, and the greater end where the start is there already. -/
def Ends.put (ends : Ends) (start stop : Word) : Ends :=
  match ends.lookup start with
  | none => ends.insert start stop
  | some known => if known < stop then ends.insert start stop else ends

namespace ElfParser

variable (p : ElfParser)

/-- `FindFunctionSectionByAddress` on the sections of the program. -/
def sectionOf (address : Word) : Option Section := findFunctionSectionByAddress p.sections address

/-- The function symbols that the table defines. -/
def functionSymbols : List Symbol := p.symbols.filter (fun s => s.isFunction && !s.isImported)

/-! ## Authoritative ranges -/

/-- The range clamped to the section of its start, if there is one and something is left. -/
def clampedRange (start requestedEnd : Word) : Option (Word × Word) :=
  match p.sectionOf start with
  | none => none
  | some sec =>
    let stop := clampFunctionEndToSection (some sec) start requestedEnd
    if stop ≤ start then none else some (start, stop)

/-- The range of a sized symbol. With a map loaded, an automatic name counts only where the map
has the address. -/
def symbolRange (s : Symbol) : Option (Word × Word) :=
  if s.size = 0 then none
  else if p.hasLoadedGhidraMap && isAutoGeneratedName s.name && !p.ghidraMapStarts.contains s.address then
    none
  else p.clampedRange s.address (saturateEnd (s.address.toNat + s.size.toNat))

/-- The range of a named function with an end. -/
def extraRange (f : Function) : Option (Word × Word) :=
  if f.start = 0 ∨ f.endAddr ≤ f.start ∨ f.name = "" ∨ isAutoGeneratedName f.name then none
  else p.clampedRange f.start f.endAddr

/-- The ranges in the order in which the two loops put them. -/
def givenRanges : List (Word × Word) :=
  p.functionSymbols.filterMap p.symbolRange ++ p.extraFunctions.filterMap p.extraRange

def authoritativeEndByStart : Ends :=
  p.givenRanges.foldl (fun ends r => ends.put r.1 r.2) ∅

def authoritativeRanges : List (Word × Word) :=
  (p.authoritativeEndByStart.entries.map (fun e => (e.1, e.2))).insertionSort (fun a b => a.1.toNat ≤ b.1.toNat)

/-- `isInsideAuthoritativeRange`: asks the one range in front of the `upper_bound`. -/
def isInsideAuthoritativeRange (startAddress : Word) : Bool :=
  match Floor.floor? (fun r => r.1.toNat) p.authoritativeRanges startAddress.toNat with
  | none => false
  | some r => decide (r.1 < startAddress) && decide (startAddress < r.2)

def hasOwnAuthoritativeRange (start : Word) : Bool :=
  (p.authoritativeEndByStart.lookup start).isSome

/-! ## Merging -/

def hasAutoName (name : String) : Bool := name == "" || isAutoGeneratedName name

/-- The end that an authoritative range gives. -/
def ownEnd (start : Word) : Option Word :=
  (p.authoritativeEndByStart.lookup start).map (clampFunctionEndToSection (p.sectionOf start) start)

/-- A function whose start is new. -/
def inserted (f : Function) : Function := { f with endAddr := (p.ownEnd f.start).getD f.endAddr }

/-- A function whose start is known. -/
def mergedInto (existing f : Function) : Function :=
  { existing with
    name :=
      if f.name ≠ "" ∧ (existing.name = "" ∨
          (isAutoGeneratedName existing.name ∧ !isAutoGeneratedName f.name)) then f.name
      else existing.name
    endAddr :=
      match p.ownEnd existing.start with
      | some stop => stop
      | none => if existing.endAddr < f.endAddr then f.endAddr else existing.endAddr
    isStub := existing.isStub || f.isStub
    isSkipped := existing.isSkipped || f.isSkipped }

/-- Whether `addOrMerge` takes a function at all. -/
def admits (f : Function) : Bool :=
  f.start != 0 && (p.sectionOf f.start).isSome &&
    !(p.isInsideAuthoritativeRange f.start && (!p.hasOwnAuthoritativeRange f.start || hasAutoName f.name))

def addOrMerge (functions : List Function) (f : Function) : List Function :=
  if !p.admits f then functions
  else if functions.any (fun g => g.start == f.start) then
    functions.map (fun g => if g.start = f.start then p.mergedInto g f else g)
  else functions ++ [p.inserted f]

/-- The function that stands for a symbol. -/
def symbolFunction (s : Symbol) : Function where
  name := s.name
  start := s.address
  endAddr := if s.size = 0 then 0 else saturateEnd (s.address.toNat + s.size.toNat)

/-- What the two loops hand to `addOrMerge`. -/
def candidates : List Function :=
  (p.functionSymbols.filter (fun s => (p.sectionOf s.address).isSome)).map symbolFunction ++ p.extraFunctions

/-! ## Ends -/

/-- The end of a function that has none, from the start of the next one. -/
def inferredEnd (f : Function) (next : Option Function) : Word :=
  match p.sectionOf f.start with
  | none => f.start + 4
  | some sec =>
    let sectionEnd := sec.address + sec.size
    let nextStart :=
      match next with
      | some g => if f.start < g.start ∧ g.start < sectionEnd then g.start else sectionEnd
      | none => sectionEnd
    if f.start < nextStart then nextStart else f.start + 4

/-- One round of the last loop. -/
def finalEnd (f : Function) (next : Option Function) : Word :=
  match p.authoritativeEndByStart.lookup f.start with
  | some stop => stop
  | none => if f.start < f.endAddr then f.endAddr else p.inferredEnd f next

def inferEnds : List Function → List Function
  | [] => []
  | f :: rest => { f with endAddr := p.finalEnd f rest.head? } :: inferEnds rest

def extractFunctions : List Function :=
  p.inferEnds ((p.candidates.foldl p.addOrMerge []).insertionSort (fun a b => a.start.toNat ≤ b.start.toNat))

end ElfParser

end Ps2Recomp.FunctionExtraction
