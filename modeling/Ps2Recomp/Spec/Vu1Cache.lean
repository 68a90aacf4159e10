import Ps2Recomp.Spec.Memory
import Ps2Recomp.Spec.Vif

/-!
# The decode cache of VU1

The loop of `VU1Interpreter::run` with `getDecodedInstructionPairForPc` (`ps2_vu1_core.cpp`), the command MPG
(`ps2_vif1_interpreter.cpp`) and the stores to the code memory. What an instruction pair does to the rest of the
interpreter, and whether its lower half goes first, are parameters. `m_vu1CodeGeneration` is kept as the number of
modifications, and compared as the code does.
-/

namespace Ps2Recomp.Vu1Cache

open Memory

structure DecodedInstructionPair where
  lower : Word
  upper : Word
  iBit : Bool
  eBit : Bool
  lowerBeforeUpper : Bool
  deriving DecidableEq, Repr

/-- Where `vuCode` points: to the code memory of VU1, or to another buffer. -/
inductive VuCode
  | vu1Code
  | other (n : ℕ)
  deriving DecidableEq, Repr

structure Cache where
  valid : Bool
  vuCode : VuCode
  codeSize : Word
  generation : ℕ
  pairs : List DecodedInstructionPair

structure VuState (σ : Type) where
  pc : Word
  ebit : Bool
  branchPending : Bool
  branchTarget : Word
  branchDelay : Word
  rest : σ

/-- `vuLowerShouldRunBeforeUpper`, and `execUpper` and `execLower` in their order; the bytes of the other buffers. -/
structure Env (σ : Type) where
  lowerFirst : Word → Word → Bool
  exec : DecodedInstructionPair → VuState σ → VuState σ
  buffers : ℕ → Bytes.Memory

/-- The interpreter over the memory, with the arguments of a run under way. -/
structure System (D σ : Type) where
  memory : Ps2Memory D
  cache : Cache
  vu : VuState σ
  run : Option (VuCode × Word)

section

variable {D σ : Type} (env : Env σ)

def decodeInstructionPair (code : Bytes.Memory) (pc : ℕ) : DecodedInstructionPair :=
  let lower : Word := .ofNat 32 (Bytes.load code pc 4)
  let upper : Word := .ofNat 32 (Bytes.load code (pc + 4) 4)
  let iBit := upper.getLsbD 31
  { lower, upper, iBit, eBit := upper.getLsbD 30, lowerBeforeUpper := !iBit && env.lowerFirst upper lower }

def rebuildDecodedCodeCache (code : Bytes.Memory) (codeSize : Word) (generation : ℕ) : Cache where
  valid := true
  vuCode := .vu1Code
  codeSize := codeSize
  generation := generation
  pairs := (List.range (codeSize.toNat / 8)).map fun i => decodeInstructionPair env code (i * 8)

/-- The bytes at `vuCode`. -/
def codeAt (m : Ps2Memory D) : VuCode → Bytes.Memory
  | .vu1Code => m.vu .vu1Code
  | .other n => env.buffers n

/-- The pair, if the index is inside of the cache. -/
def getDecodedInstructionPairForPc (vuCode : VuCode) (codeSize pc : Word) (m : Ps2Memory D) (c : Cache) :
    Option DecodedInstructionPair × Cache :=
  if pc &&& 7 ≠ 0 ∨ vuCode ≠ .vu1Code then (some (decodeInstructionPair env (codeAt env m vuCode) pc.toNat), c)
  else
    let generation := m.vu1CodeGeneration
    let c :=
      if c.valid = false ∨ c.vuCode ≠ vuCode ∨ c.codeSize ≠ codeSize ∨
          BitVec.ofNat 64 c.generation ≠ BitVec.ofNat 64 generation then
        rebuildDecodedCodeCache env (codeAt env m vuCode) codeSize generation
      else c
    (c.pairs[pc.toNat / 8]?, c)

/-- The rest of a round, and whether the run ends. -/
def advance (codeSize : Word) (decoded : DecodedInstructionPair) (s : VuState σ) : VuState σ × Bool :=
  let nextPC := s.pc + 8
  let t := { env.exec decoded s with pc := if codeSize ≤ nextPC then 0 else nextPC }
  let t :=
    if t.branchPending then
      if t.branchDelay = 0 then { t with pc := t.branchTarget &&& 0x3FFF, branchPending := false }
      else { t with branchDelay := t.branchDelay - 1 }
    else t
  if t.ebit then (t, true) else ({ t with ebit := decoded.eBit }, false)

/-- `VIF_MPG` -/
def mpg (cmd : Word) (data : List (BitVec 8)) (m : Ps2Memory D) : Ps2Memory D :=
  let destAddr := (Vif.imm cmd).toNat * 8
  let copyBytes := Vif.mpgCopied vu1CodeSize.toNat destAddr cmd
  if destAddr < vu1CodeSize.toNat ∧ copyBytes ≤ data.length then
    let m := m.setBytes (.vu .vu1Code) (Bytes.copy (m.vu .vu1Code) destAddr (data.take copyBytes))
    { m with vu1CodeGeneration := m.vu1CodeGeneration + 1 }
  else m

/-- What a call leaves, whether it throws or not. -/
def leaves {α : Type} : EStateM.Result Fault (Ps2Memory D) α → Ps2Memory D
  | .ok _ m => m
  | .error _ m => m

inductive Event
  | execute (vuCode : VuCode) (codeSize startPC : Word)
  | resume (vuCode : VuCode) (codeSize : Word)
  | cycle
  | mpg (cmd : Word) (data : List (BitVec 8))
  | store (w : Width) (address : Word) (value : BitVec (8 * w.bytes))

/-- The runs are over code of at most the size of the code memory, the stores go there, and a round goes on with
a pair of the cache only. -/
def step (d : Devices D) (s : System D σ) : Event → Option (System D σ)
  | .execute vuCode codeSize startPC =>
    if vu1CodeSize < codeSize then none
    else
      let vu := { s.vu with
        pc := startPC &&& 0x3FFF, ebit := false, branchPending := false, branchTarget := 0, branchDelay := 0 }
      some { s with vu, run := some (vuCode, codeSize) }
  | .resume vuCode codeSize =>
    if vu1CodeSize < codeSize then none
    else some { s with vu := { s.vu with ebit := false }, run := some (vuCode, codeSize) }
  | .cycle =>
    match s.run with
    | none => none
    | some (vuCode, codeSize) =>
      if codeSize < s.vu.pc + 8 then some { s with run := none }
      else
        match getDecodedInstructionPairForPc env vuCode codeSize s.vu.pc s.memory s.cache with
        | (none, _) => none
        | (some decoded, cache) =>
          let p := advance env codeSize decoded s.vu
          some { s with cache, vu := p.1, run := if p.2 then none else s.run }
  | .mpg cmd data => some { s with memory := mpg cmd data s.memory }
  | .store w address value =>
    match locate s.memory.tlbEntries address (.ofNat 32 w.bytes) with
    | .ok (.memory (.vu .vu1Code) _) => some { s with memory := leaves (d.write w address value s.memory) }
    | _ => none

end

end Ps2Recomp.Vu1Cache
