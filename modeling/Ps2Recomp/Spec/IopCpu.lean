import Ps2Recomp.Spec.Core
import Ps2Recomp.Spec.Transfers

/-!
# The interpreter of the IOP

`IopCpu::execOne` (`ps2_iop_cpu.cpp`) over the RAM of the IOP (`iopRead*` and `iopWrite*` of
`ps2_memory.cpp`). What lies outside the RAM and the handler of traps are hooks, with a state of their
own. A branch runs the instruction in its delay slot first, which may be a branch again: `execOne` has
a depth and no result when the branches go deeper.
-/

namespace Ps2Recomp

open Dma (iopRamSize iopRamOffset)

/-- `IopCpu`, with the RAM of the IOP and the state of the hooks. -/
structure IopCpu (σ : Type) where
  gpr : Reg → Word
  hi : Word
  lo : Word
  pc : Word
  cop0 : Reg → Word
  halted : Bool
  ram : Bytes.Memory
  hooked : σ

/-- `m_ioRead`, `m_ioWrite` and `m_trap`. -/
structure IopHooks (σ : Type) where
  ioRead : Word → σ → Option Word × σ
  ioWrite : Word → Word → σ → σ
  trap : Option (Word → IopCpu σ → IopCpu σ)

namespace IopCpu

variable {σ : Type} (h : IopHooks σ)

/-! ### The bus -/

/-- `iopRead8`, `iopRead16` and `iopRead32`: zero beyond the end. -/
def iopRead (n : ℕ) (addr : Word) (s : IopCpu σ) : ℕ :=
  let off := iopRamOffset addr
  if iopRamSize.toNat < off.toNat + n then 0 else Bytes.load s.ram off.toNat n

def iopWrite (n : ℕ) (addr : Word) (value : ℕ) (s : IopCpu σ) : IopCpu σ :=
  let off := iopRamOffset addr
  if iopRamSize.toNat < off.toNat + n then s else { s with ram := Bytes.store s.ram off.toNat value n }

/-- `busRead8`, `busRead16` and `busRead32`. -/
def busRead (n : ℕ) (addr : Word) (s : IopCpu σ) : Word × IopCpu σ :=
  let phys := addr &&& 0x1FFFFFFF
  if phys < iopRamSize then (.ofNat 32 (s.iopRead n addr), s)
  else
    let p := h.ioRead phys s.hooked
    (.ofNat 32 ((p.1.getD 0).toNat % 2 ^ (8 * n)), { s with hooked := p.2 })

/-- `busWrite8`, `busWrite16` and `busWrite32`, of the low bytes of a word. -/
def busWrite (n : ℕ) (addr value : Word) (s : IopCpu σ) : IopCpu σ :=
  let phys := addr &&& 0x1FFFFFFF
  let v := value.toNat % 2 ^ (8 * n)
  if phys < iopRamSize then s.iopWrite n addr v
  else { s with hooked := h.ioWrite phys (.ofNat 32 v) s.hooked }

/-! ### Instructions -/

/-- `W(i, v)`. -/
def W (i : Reg) (v : Word) (s : IopCpu σ) : IopCpu σ :=
  if i = 0 then s else { s with gpr := Function.update s.gpr i v }

def setHiLo (hi lo : Word) (s : IopCpu σ) : IopCpu σ := { s with hi := hi, lo := lo }

def trap (excode : Word) (s : IopCpu σ) : IopCpu σ :=
  match h.trap with
  | some f => f excode s
  | none => { s with halted := true }

/-- `DIV` -/
def div (a b : Word) (s : IopCpu σ) : IopCpu σ :=
  if b = 0 then s.setHiLo a (if a.msb then 1 else 0xFFFFFFFF)
  else if a = 0x80000000 ∧ b = -1 then s.setHiLo 0 0x80000000
  else s.setHiLo (a.srem b) (a.sdiv b)

/-- `DIVU` -/
def divu (a b : Word) (s : IopCpu σ) : IopCpu σ :=
  if b = 0 then s.setHiLo a 0xFFFFFFFF else s.setHiLo (a % b) (a / b)

/-- `MULT` and `MULTU`, of the product. -/
def mult (r : BitVec 64) (s : IopCpu σ) : IopCpu σ := s.setHiLo ((r >>> 32).setWidth 32) (r.setWidth 32)

/-- The cases of `SPECIAL` that do not branch. -/
def special (funct : ℕ) (rs rt rd sa : Reg) (s : IopCpu σ) : IopCpu σ :=
  let R := s.gpr
  match funct with
  | 0x00 => s.W rd (R rt <<< sa.val)
  | 0x02 => s.W rd (R rt >>> sa.val)
  | 0x03 => s.W rd ((R rt).sshiftRight sa.val)
  | 0x04 => s.W rd (R rt <<< (R rs &&& 31).toNat)
  | 0x06 => s.W rd (R rt >>> (R rs &&& 31).toNat)
  | 0x07 => s.W rd ((R rt).sshiftRight (R rs &&& 31).toNat)
  | 0x0C => trap h 0x20 s
  | 0x0D => trap h 0x24 s
  | 0x10 => s.W rd s.hi
  | 0x11 => { s with hi := R rs }
  | 0x12 => s.W rd s.lo
  | 0x13 => { s with lo := R rs }
  | 0x18 => s.mult ((R rs).signExtend 64 * (R rt).signExtend 64)
  | 0x19 => s.mult ((R rs).setWidth 64 * (R rt).setWidth 64)
  | 0x1A => s.div (R rs) (R rt)
  | 0x1B => s.divu (R rs) (R rt)
  | 0x20 | 0x21 => s.W rd (R rs + R rt)
  | 0x22 | 0x23 => s.W rd (R rs - R rt)
  | 0x24 => s.W rd (R rs &&& R rt)
  | 0x25 => s.W rd (R rs ||| R rt)
  | 0x26 => s.W rd (R rs ^^^ R rt)
  | 0x27 => s.W rd (~~~(R rs ||| R rt))
  | 0x2A => s.W rd (if (R rs).slt (R rt) then 1 else 0)
  | 0x2B => s.W rd (if (R rs).ult (R rt) then 1 else 0)
  | _ => s

/-- The instructions with an immediate. -/
def immediate (op : ℕ) (rs rt : Reg) (imm simm : Word) (s : IopCpu σ) : IopCpu σ :=
  let R := s.gpr
  match op with
  | 0x08 | 0x09 => s.W rt (R rs + simm)
  | 0x0A => s.W rt (if (R rs).slt simm then 1 else 0)
  | 0x0B => s.W rt (if (R rs).ult simm then 1 else 0)
  | 0x0C => s.W rt (R rs &&& imm)
  | 0x0D => s.W rt (R rs ||| imm)
  | 0x0E => s.W rt (R rs ^^^ imm)
  | 0x0F => s.W rt (imm <<< 16)
  | _ => s

/-- `COP0` -/
def execCop0 (rs rt rd : Reg) (s : IopCpu σ) : IopCpu σ :=
  match rs.val with
  | 0x00 | 0x02 => s.W rt (s.cop0 rd)
  | 0x04 | 0x06 => { s with cop0 := Function.update s.cop0 rd (s.gpr rt) }
  | 0x10 =>
    let status := s.cop0 12
    { s with cop0 := Function.update s.cop0 12 ((status &&& 0xFFFFFFF0) ||| ((status &&& 0x3C) >>> 2)) }
  | _ => s

/-- Loads and stores. -/
def access (op : ℕ) (rs rt : Reg) (simm : Word) (s : IopCpu σ) : IopCpu σ :=
  let a := s.gpr rs + simm
  let old := s.gpr rt
  let sh := (a &&& 3).toNat * 8
  match op with
  | 0x20 => let p := busRead h 1 a s; p.2.W rt ((p.1.setWidth 8).signExtend 32)
  | 0x21 => let p := busRead h 2 a s; p.2.W rt ((p.1.setWidth 16).signExtend 32)
  | 0x22 =>
    let p := busRead h 4 (a &&& ~~~3) s
    p.2.W rt ((old &&& ((0x00FFFFFF : Word) >>> sh)) ||| (p.1 <<< (24 - sh)))
  | 0x23 => let p := busRead h 4 a s; p.2.W rt p.1
  | 0x24 => let p := busRead h 1 a s; p.2.W rt p.1
  | 0x25 => let p := busRead h 2 a s; p.2.W rt p.1
  | 0x26 =>
    let p := busRead h 4 (a &&& ~~~3) s
    p.2.W rt ((old &&& ((0xFFFFFF00 : Word) <<< (24 - sh))) ||| (p.1 >>> sh))
  | 0x28 => busWrite h 1 a old s
  | 0x29 => busWrite h 2 a old s
  | 0x2A =>
    let p := busRead h 4 (a &&& ~~~3) s
    busWrite h 4 (a &&& ~~~3) ((old >>> (24 - sh)) ||| (p.1 &&& ((0xFFFFFF00 : Word) <<< sh))) p.2
  | 0x2B => busWrite h 4 a old s
  | 0x2E =>
    let p := busRead h 4 (a &&& ~~~3) s
    busWrite h 4 (a &&& ~~~3) ((old <<< sh) ||| (p.1 &&& ((0x00FFFFFF : Word) >>> (24 - sh)))) p.2
  | _ => s

/-- Where a branch or jump goes, and what it links. -/
structure Jump where
  target : Word
  link : Option Reg := none
  taken : Bool := true

/-- The branches and jumps; `curpc` is the address of the instruction. -/
def jump (code curpc : Word) (s : IopCpu σ) : Option Jump :=
  let R := s.gpr
  let rs := regField code 21
  let rt := regField code 16
  let rd := regField code 11
  let branchTarget := curpc + 4 + ((code.extractLsb' 0 16).signExtend 32 <<< 2)
  let jumpTarget := ((curpc + 4) &&& 0xF0000000) ||| ((code &&& 0x03FFFFFF) <<< 2)
  let lt := (R rs).msb
  match (code.extractLsb' 26 6).toNat with
  | 0x00 =>
    match (code.extractLsb' 0 6).toNat with
    | 0x08 => some { target := R rs }
    | 0x09 => some { target := R rs, link := some rd }
    | _ => none
  | 0x01 =>
    match rt.val with
    | 0x00 => some { target := branchTarget, taken := lt }
    | 0x01 => some { target := branchTarget, taken := !lt }
    | 0x10 => some { target := branchTarget, link := some 31, taken := lt }
    | 0x11 => some { target := branchTarget, link := some 31, taken := !lt }
    | _ => none
  | 0x02 => some { target := jumpTarget }
  | 0x03 => some { target := jumpTarget, link := some 31 }
  | 0x04 => some { target := branchTarget, taken := R rs == R rt }
  | 0x05 => some { target := branchTarget, taken := R rs != R rt }
  | 0x06 => some { target := branchTarget, taken := decide ((R rs).toInt ≤ 0) }
  | 0x07 => some { target := branchTarget, taken := decide (0 < (R rs).toInt) }
  | _ => none

/-- `m_gpr[0] = 0` -/
def zeroed (s : IopCpu σ) : IopCpu σ := { s with gpr := Function.update s.gpr 0 0 }

/-- The instructions that do not branch. -/
def exec (code : Word) (s : IopCpu σ) : IopCpu σ :=
  let op := (code.extractLsb' 26 6).toNat
  let rs := regField code 21
  let rt := regField code 16
  let rd := regField code 11
  let imm : Word := (code.extractLsb' 0 16).setWidth 32
  let simm : Word := (code.extractLsb' 0 16).signExtend 32
  if op = 0 then special h (code.extractLsb' 0 6).toNat rs rt rd (regField code 6) s
  else if op = 0x10 then execCop0 rs rt rd s
  else if op < 0x10 then immediate op rs rt imm simm s
  else access h op rs rt simm s

/-- `IopCpu::execOne`, for branches in delay slots `depth` deep. -/
def execOne : ℕ → IopCpu σ → Option (IopCpu σ)
  | 0, _ => none
  | depth + 1, s =>
    let fetched := busRead h 4 s.pc s
    let code := fetched.1
    let s' := { fetched.2 with pc := s.pc + 4 }
    match jump code s.pc s' with
    | some j =>
      let linked := match j.link with
        | some reg => s'.W reg (s'.pc + 4)
        | none => s'
      if j.taken then (execOne depth linked).map fun t => zeroed { t with pc := j.target }
      else some (zeroed linked)
    | none => some (zeroed (exec h code s'))

/-! ### Runs -/

/-- The target of the taken branch or jump at `pc`, and the state in which its delay slot is executed. -/
def takenAt (s : IopCpu σ) : Option (Word × IopCpu σ) :=
  let fetched := busRead h 4 s.pc s
  let s' := { fetched.2 with pc := s.pc + 4 }
  match jump fetched.1 s.pc s' with
  | some j =>
    let linked := match j.link with
      | some reg => s'.W reg (s'.pc + 4)
      | none => s'
    if j.taken then some (j.target, linked) else none
  | none => none

/-- How often `execOne` increments `m_instrCount`: its recursive calls do so too. -/
def counted : ℕ → IopCpu σ → ℕ
  | 0, _ => 0
  | depth + 1, s =>
    match takenAt h s with
    | some p => counted depth p.2 + 1
    | none => 1

/-- Branches in delay slots cannot go deeper than the RAM. -/
def slotDepth : ℕ := iopRamSize.toNat + 1

/-- The loop of `IopCpu::run`, without an import hook, when `m_instrCount` is `retired` behind `start`. -/
def runLoop (haltPc : Option Word) (maxInstr : Word) : ℕ → IopCpu σ → ℕ → Option (IopCpu σ × ℕ)
  | 0, _, _ => none
  | fuel + 1, s, retired =>
    if BitVec.ofNat 32 retired < maxInstr then
      if haltPc = some s.pc then some ({ s with halted := true }, retired)
      else
        match execOne h slotDepth s with
        | some t =>
          if t.halted then some (t, retired + counted h slotDepth s)
          else runLoop haltPc maxInstr fuel t (retired + counted h slotDepth s)
        | none => none
    else some (s, retired)

/-- `IopCpu::run` returns the low word of the count. -/
def run (haltPc : Option Word) (maxInstr : Word) (fuel : ℕ) (s : IopCpu σ) : Option (IopCpu σ × ℕ) :=
  runLoop h haltPc maxInstr fuel { s with halted := false } 0

end IopCpu

end Ps2Recomp
