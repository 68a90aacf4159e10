import Ps2Recomp.Spec.Exceptions
import Ps2Recomp.Spec.Memory

/-!
# The TLB

`tlbRead`, `tlbWrite` and `tlbProbe` of `PS2Memory`, the handlers of the TLB instructions
(`ps2_runtime.cpp`), and of `Cop0Translator::translate` what they and the moves to their registers
are emitted as.
-/

namespace Ps2Recomp

open Memory (TlbEntry)

/-- The size that `PS2Memory::initialize` gives `m_tlbEntries`. -/
def tlbEntryCount : ℕ := 48

/-- The entries, with the COP0 registers of the TLB instructions. -/
structure Tlb where
  tlbEntries : List TlbEntry
  count : tlbEntries.length = tlbEntryCount
  index : Word := 0
  random : Word := 47
  entryLo0 : Word := 0
  entryLo1 : Word := 0
  pageMask : Word := 0
  wired : Word := 0
  entryHi : Word := 0

/-- The context, as far as the TLB instructions need it. -/
abbrev TlbCtx := Ctx (Excepting Tlb)

namespace Tlb

/-! ## The entries -/

def tlbRead (t : Tlb) (index : Word) : Option TlbEntry := t.tlbEntries[index.toNat]?

/-- The entry is written if there is one of this index. -/
def tlbWrite (t : Tlb) (index vpn pfn mask : Word) (valid : Bool) : Option Tlb :=
  if t.tlbEntries.length ≤ index.toNat then none
  else
    some { t with
      tlbEntries := t.tlbEntries.set index.toNat ⟨vpn &&& 0xFFFFF000, pfn &&& 0x000FFFFF, mask &&& 0x01FFE000, valid⟩
      count := by rw [List.length_set, t.count] }

/-- The condition of `tlbProbe` on one entry. -/
def probes (normalizedVpn : Word) (entry : TlbEntry) : Bool :=
  let compareMask := ~~~((entry.mask &&& 0x01FFE000) ||| 0xFFF)
  entry.valid && (normalizedVpn &&& compareMask) == (entry.vpn &&& compareMask)

/-- No index where the source has -1. -/
def tlbProbe (t : Tlb) (vpn : Word) : Option ℕ := t.tlbEntries.findIdx? (probes (vpn &&& 0xFFFFF000))

end Tlb

namespace TlbCtx

def tlb (c : TlbCtx) : Tlb := c.sys.rest.mem

def setTlb (c : TlbCtx) (t : Tlb) : TlbCtx :=
  { c with sys := { c.sys with rest := { c.sys.rest with mem := t } } }

/-- `raiseCop0Exception(ctx, EXCEPTION_RESERVED_INSTRUCTION);` -/
def raiseReserved (c : TlbCtx) : TlbCtx := { c with sys := raiseCop0Exception c.sys 0x0A false }

/-! ## The instructions -/

def handleTLBR (c : TlbCtx) : TlbCtx :=
  let t := tlb c
  match t.tlbRead (t.index &&& 0x3F) with
  | none => raiseReserved c
  | some entry =>
    setTlb c { t with
      entryHi := (t.entryHi &&& 0x00000FFF) ||| (entry.vpn &&& 0xFFFFF000)
      entryLo0 := (t.entryLo0 &&& ~~~(0x03FFFFC2 : Word)) ||| ((entry.pfn &&& 0x000FFFFF) <<< 6) |||
        (if entry.valid then 0x2 else 0)
      pageMask := entry.mask &&& 0x01FFE000 }

/-- The registers' part of `handleTLBWI` and `handleTLBWR`. -/
def writeEntry (t : Tlb) (index : Word) : Option Tlb :=
  t.tlbWrite index (t.entryHi &&& 0xFFFFF000) ((t.entryLo0 >>> 6) &&& 0x000FFFFF)
    (t.pageMask &&& 0x01FFE000) (t.entryLo0 &&& 0x2 ≠ 0)

def handleTLBWI (c : TlbCtx) : TlbCtx :=
  match writeEntry (tlb c) ((tlb c).index &&& 0x3F) with
  | none => raiseReserved c
  | some t => setTlb c t

def handleTLBWR (c : TlbCtx) : TlbCtx :=
  let entryCount : Word := .ofNat 32 tlbEntryCount
  let wired := if entryCount - 1 < (tlb c).wired then entryCount - 1 else (tlb c).wired
  let random := (tlb c).random % entryCount
  let random := if random < wired then wired else random
  match writeEntry (tlb c) random with
  | none => raiseReserved c
  | some t =>
    setTlb c { t with
      index := (t.index &&& ~~~0x3F) ||| (random &&& 0x3F)
      random := if random ≤ wired then entryCount - 1 else random - 1 }

def handleTLBP (c : TlbCtx) : TlbCtx :=
  let t := tlb c
  match t.tlbProbe (t.entryHi &&& 0xFFFFF000) with
  | some index =>
    setTlb c { t with index := (t.index &&& ~~~0x8000003F) ||| (.ofNat 32 index &&& 0x3F) }
  | none => setTlb c { t with index := t.index ||| 0x80000000 }

/-- The registers of the TLB, as `MTC0` writes them. -/
inductive Cop0Reg
  | index | random | entryLo0 | entryLo1 | pageMask | wired | entryHi
  deriving DecidableEq, Repr

def Cop0Reg.code : Cop0Reg → Reg
  | index => 0
  | random => 1
  | entryLo0 => 2
  | entryLo1 => 3
  | pageMask => 5
  | wired => 6
  | entryHi => 10

/-- The statement of a move to a register, of the value `GPR_U32(ctx, rt)`. -/
def mtc0 (rd : Cop0Reg) (value : Word) (c : TlbCtx) : TlbCtx :=
  let t := tlb c
  match rd with
  | .index => setTlb c { t with index := value &&& 0x3F }
  | .random => c
  | .entryLo0 => setTlb c { t with entryLo0 := value &&& 0x3FFFFFFF }
  | .entryLo1 => setTlb c { t with entryLo1 := value &&& 0x3FFFFFFF }
  | .pageMask => setTlb c { t with pageMask := value &&& 0x01FFE000 }
  | .wired => setTlb c { t with wired := value &&& 0x3F, random := 47 }
  | .entryHi => setTlb c { t with entryHi := value &&& 0xC00000FF }

/-- `Cop0Translator::translate`. -/
def translateCop0 (inst : Instruction) : Option (TlbCtx → TlbCtx) :=
  if inst.rs = 0x04 then
    ([.index, .random, .entryLo0, .entryLo1, .pageMask, .wired, .entryHi].find? fun r =>
      Cop0Reg.code r = inst.rd).map fun r c => mtc0 r (c.gprU32 inst.rt) c
  else if inst.rs = 0x10 then
    if inst.function = 0x01 then some handleTLBR
    else if inst.function = 0x02 then some handleTLBWI
    else if inst.function = 0x06 then some handleTLBWR
    else if inst.function = 0x08 then some handleTLBP
    else none
  else none

end TlbCtx

end Ps2Recomp
