import Ps2Recomp.Proof.PackedWords

/-!
# Moves through HI and LO

HI1:HI and LO1:LO are registers of 128 bits, and PMTHI, PMTLO, PMFHI and PMFLO should move all of them.

* `passage_returns_iff`: what each pair of moves returns, as it is emitted. PMTHI and PMTLO move a word,
  PMFHI and PMFLO write the lower half, and PMTHL.LW moves two words of four.
-/

namespace Ps2Recomp.Packed

open Simd

/-- One of the two registers. -/
inductive Side
  | hi | lo
  deriving DecidableEq, Repr

/-- A move, as an instruction. -/
inductive Move
  | mf (s : Side) | mf1 (s : Side) | mt (s : Side) | mt1 (s : Side)
  | pmf (s : Side) | pmt (s : Side) | pmfhl | pmthl
  deriving DecidableEq, Repr

namespace Move

def opcode : Move → Opcode
  | mf _ | mt _ => .special
  | mf1 _ | mt1 _ | pmf _ | pmt _ | pmfhl | pmthl => .mmi

def function : Move → BitVec 6
  | mf .hi => specialMfhi
  | mf .lo => specialMflo
  | mt .hi => specialMthi
  | mt .lo => specialMtlo
  | mf1 .hi => mmiMfhi1
  | mf1 .lo => mmiMflo1
  | mt1 .hi => mmiMthi1
  | mt1 .lo => mmiMtlo1
  | pmf _ => Arith.mmiMmi2
  | pmt _ => Arith.mmiMmi3
  | pmfhl => mmiPmfhl
  | pmthl => mmiPmthl

/-- The field that tells the packed moves apart. -/
def subfunc : Move → Option Reg
  | pmf .hi | pmt .hi => some 0x08
  | pmf .lo | pmt .lo => some 0x09
  | pmfhl | pmthl => some 0
  | mf _ | mt _ | mf1 _ | mt1 _ => none

def Encodes (m : Move) (inst : Instruction) : Prop :=
  inst.opcode = m.opcode ∧ inst.function = m.function ∧ ∀ sa ∈ m.subfunc, inst.sa = sa

def statement (m : Move) (inst : Instruction) : Emitted :=
  match m with
  | mf .hi => mfhi inst
  | mf .lo => mflo inst
  | mt .hi => mthi inst
  | mt .lo => mtlo inst
  | mf1 .hi => mfhi1 inst
  | mf1 .lo => mflo1 inst
  | mt1 .hi => mthi1 inst
  | mt1 .lo => mtlo1 inst
  | pmf .hi => pmfhi inst
  | pmf .lo => pmflo inst
  | pmt .hi => translatePMTHI inst
  | pmt .lo => translatePMTLO inst
  | pmfhl => pmfhlLw inst
  | pmthl => pmthlLw inst

theorem translate_eq (sse41 : Bool) {inst : Instruction} (m : Move) (h : m.Encodes inst) :
    translate sse41 inst = some (m.statement inst) := by
  obtain ⟨hop, hfun, hsa⟩ := h
  rw [translate, hop]
  cases m with
  | mf s =>
    dsimp only [opcode]
    rw [translateSpecial, hfun]
    cases s <;> rfl
  | mt s =>
    dsimp only [opcode]
    rw [translateSpecial, hfun]
    cases s <;> rfl
  | mf1 s =>
    dsimp only [opcode]
    rw [translateMmi, hfun]
    cases s <;> rfl
  | mt1 s =>
    dsimp only [opcode]
    rw [translateMmi, hfun]
    cases s <;> rfl
  | pmf s =>
    dsimp only [opcode]
    rw [translateMmi, hfun, translateMMI2Instruction]
    cases s <;> rw [hsa _ rfl] <;> rfl
  | pmt s =>
    dsimp only [opcode]
    rw [translateMmi, hfun, translateMMI3Instruction]
    cases s <;> rw [hsa _ rfl] <;> rfl
  | pmfhl =>
    dsimp only [opcode]
    rw [translateMmi, hfun, hsa _ rfl]
    rfl
  | pmthl =>
    dsimp only [opcode]
    rw [translateMmi, hfun, hsa _ rfl]
    rfl

end Move

/-! ## Passages -/

/-- Moves into the registers, and a move out of them. -/
inductive Passage
  /-- PMTHI, then PMFHI -/
  | whole (s : Side)
  /-- PMTHI, then MFHI -/
  | low (s : Side)
  /-- PMTHI, then MFHI1 -/
  | high (s : Side)
  /-- MTHI and MTHI1, then PMFHI -/
  | join (s : Side)
  /-- PMTHL.LW, then PMFHL.LW -/
  | words
  deriving DecidableEq, Repr

/-- One instruction after the other. -/
def execute (sse41 : Bool) : List Instruction → Emitted
  | [] => some
  | inst :: code => fun c => do
    let statement ← translate sse41 inst
    let c' ← statement c
    execute sse41 code c'

namespace Passage

def writer : Passage → Move
  | whole s | low s | high s => .pmt s
  | join s => .mt s
  | words => .pmthl

def reader : Passage → Move
  | whole s | join s => .pmf s
  | low s => .mf s
  | high s => .mf1 s
  | words => .pmfhl

/-- The instructions: `w1` is the second move into the registers. -/
structure Encodes (p : Passage) (w w1 r : Instruction) : Prop where
  writer : p.writer.Encodes w
  second : ∀ s, p = join s → (Move.mt1 s).Encodes w1
  reader : p.reader.Encodes r
  rd : r.rd ≠ 0

def code (p : Passage) (w w1 r : Instruction) : List Instruction :=
  match p with
  | join _ => [w, w1, r]
  | whole _ | low _ | high _ | words => [w, r]

/-- The register read into holds what the moves into the registers had. -/
def Returned (p : Passage) (w w1 r : Instruction) (c c' : GuestCtx) : Prop :=
  match p with
  | whole _ | words => c'.gprVec r.rd = c.gprVec w.rs
  | low _ => c'.gprU64 r.rd = (c.gprVec w.rs).setWidth 64
  | high _ => c'.gprU64 r.rd = (c.gprVec w.rs).extractLsb' 64 64
  | join _ => c'.gprVec r.rd = c.gprU64 w1.rs ++ c.gprU64 w.rs

/-- What is moved is one unsigned word, or for PMTHL.LW one signed word; and the upper half is where
the reader leaves or looks for it. -/
def Meets (p : Passage) (w w1 r : Instruction) (c : GuestCtx) : Prop :=
  let x := c.gprVec w.rs
  match p with
  | whole _ => x.extractLsb' 32 32 = 0 ∧ (c.r r.rd).extractLsb' 64 64 = x.extractLsb' 64 64
  | low _ => x.extractLsb' 32 32 = 0
  | high .hi => c.hilo.hi1 = x.extractLsb' 64 64
  | high .lo => c.hilo.lo1 = x.extractLsb' 64 64
  | join _ => (c.r r.rd).extractLsb' 64 64 = c.gprU64 w1.rs
  | words => x = (x.setWidth 32).signExtend 128

end Passage

/-! ## What a passage leaves -/

theorem append_inj {m n : ℕ} {a a' : BitVec m} {b b' : BitVec n} : a ++ b = a' ++ b' ↔ a = a' ∧ b = b' := by
  constructor
  · intro h
    have hlow := congrArg (BitVec.setWidth n) h
    rw [BitVec.setWidth_append_eq_right, BitVec.setWidth_append_eq_right] at hlow
    rw [hlow] at h
    exact ⟨(BitVec.append_left_inj _).1 h, hlow⟩
  · rintro ⟨rfl, rfl⟩
    rfl

theorem halves (x : M128) : x.extractLsb' 64 64 ++ x.setWidth 64 = x := by
  apply BitVec.eq_of_getLsbD_eq
  intro j hj
  rw [BitVec.getLsbD_append]
  split
  · rename_i h
    rw [BitVec.getLsbD_setWidth, decide_eq_true h, Bool.true_and]
  · rename_i h
    rw [BitVec.getLsbD_extractLsb', decide_eq_true (by omega), Bool.true_and]
    congr 1
    omega

section

variable (c : GuestCtx) (g : Reg)

theorem gprU64_eq : c.gprU64 g = (c.gprVec g).setWidth 64 := by
  rw [Ctx.gprU64, Ctx.gprVec]
  split <;> rfl

/-- The low word is the low half exactly if the upper word is zero. -/
theorem word_eq_half_iff :
    (c.gprU32 g).setWidth 64 = (c.gprVec g).setWidth 64 ↔ (c.gprVec g).extractLsb' 32 32 = 0 := by
  have hword : c.gprU32 g = ((c.gprVec g).setWidth 64).setWidth 32 := by
    rw [Ctx.gprU32_eq, gprU64_eq]
  have hlow : ((((c.gprVec g).setWidth 64).setWidth 32).setWidth 64 : BitVec 64).setWidth 32 =
      ((c.gprVec g).setWidth 64).setWidth 32 := by
    rw [BitVec.setWidth_setWidth_of_le _ (by decide), BitVec.setWidth_eq]
  have hhigh : ∀ y : Word, ((y.setWidth 64) >>> 32).setWidth 32 = (0 : Word) := by
    intro y
    apply BitVec.eq_of_getLsbD_eq
    intro j hj
    rw [BitVec.getLsbD_setWidth, BitVec.getLsbD_ushiftRight, BitVec.getLsbD_setWidth,
      BitVec.getLsbD_of_ge y _ (by omega)]
    simp
  have hupper : (((c.gprVec g).setWidth 64) >>> 32).setWidth 32 = (c.gprVec g).extractLsb' 32 32 := by
    apply BitVec.eq_of_getLsbD_eq
    intro j hj
    rw [BitVec.getLsbD_setWidth, BitVec.getLsbD_ushiftRight, BitVec.getLsbD_setWidth,
      BitVec.getLsbD_extractLsb', decide_eq_true hj, decide_eq_true (show 32 + j < 64 by omega), Bool.true_and,
      Bool.true_and]
  rw [hword, eq_iff_words, hlow, hhigh, hupper]
  constructor
  · rintro ⟨-, h⟩
    exact h.symm
  · intro h
    exact ⟨rfl, h.symm⟩

end

/-- Two words extended are the register exactly if one word extended is. -/
theorem words_eq_self_iff (x : M128) :
    (lane 32 1 x).signExtend 64 ++ (lane 32 0 x).signExtend 64 = x ↔ x = (x.setWidth 32).signExtend 128 := by
  have hsign : ∀ k, (lane 32 k x).msb = x.getLsbD (32 * k + 31) := fun k => by
    rw [BitVec.msb_eq_getLsbD_last, getLsbD_lane (by decide)]
  have hget : ∀ k i, (h : i < 32) → (lane 32 k x)[i] = x.getLsbD (32 * k + i) := fun k i h => by
    rw [← BitVec.getLsbD_eq_getElem, getLsbD_lane h]
  -- the bits of both sides
  have hpair : ∀ j < 128, ((lane 32 1 x).signExtend 64 ++ (lane 32 0 x).signExtend 64).getLsbD j =
      x.getLsbD (if j < 32 then j else if j < 64 then 31 else if j < 96 then j - 32 else 63) := by
    intro j hj
    rw [BitVec.getLsbD_append, BitVec.getLsbD_signExtend, BitVec.getLsbD_signExtend, hsign, hsign]
    by_cases h32 : j < 32
    · simp [h32, show j < 64 by omega, hget]
    by_cases h64 : j < 64
    · simp [h32, h64]
    by_cases h96 : j < 96
    · have hlt : j - 64 < 32 := by omega
      have hsub : 32 + (j - 64) = j - 32 := by omega
      simp [h32, h64, h96, hlt, show j - 64 < 64 by omega, hget, hsub]
    · simp [h32, h64, h96, show ¬j - 64 < 32 by omega, show j - 64 < 64 by omega]
  have hword : ∀ j < 128, ((x.setWidth 32).signExtend 128).getLsbD j = x.getLsbD (if j < 32 then j else 31) := by
    intro j hj
    rw [BitVec.getLsbD_signExtend, BitVec.msb_setWidth, BitVec.getLsbD_setWidth]
    by_cases h32 : j < 32
    · simp [h32, hj]
    · simp [h32, hj]
  constructor
  · intro h
    have hbit : ∀ j < 128, x.getLsbD j =
        x.getLsbD (if j < 32 then j else if j < 64 then 31 else if j < 96 then j - 32 else 63) := by
      intro j hj
      rw [← hpair j hj, h]
    apply BitVec.eq_of_getLsbD_eq
    intro j hj
    rw [hword j hj]
    by_cases h32 : j < 32
    · rw [if_pos h32]
    have h2 : ∀ k, 32 ≤ k → k < 64 → x.getLsbD k = x.getLsbD 31 := by
      intro k hk hk'
      rw [hbit k (by omega), if_neg (by omega), if_pos hk']
    rw [if_neg h32]
    by_cases h64 : j < 64
    · exact h2 j (by omega) h64
    rw [hbit j hj, if_neg h32, if_neg h64]
    split
    · exact h2 _ (by omega) (by omega)
    · exact h2 63 (by decide) (by decide)
  · intro h
    have hhigh : ∀ k, 32 ≤ k → k < 128 → x.getLsbD k = x.getLsbD 31 := by
      intro k hk hk'
      have hbit := hword k hk'
      rwa [if_neg (by omega), ← h] at hbit
    apply BitVec.eq_of_getLsbD_eq
    intro j hj
    rw [hpair j hj]
    by_cases h32 : j < 32
    · rw [if_pos h32]
    rw [if_neg h32, hhigh j (by omega) hj]
    by_cases h64 : j < 64
    · rw [if_pos h64]
    rw [if_neg h64]
    split
    · exact hhigh _ (by omega) (by omega)
    · exact hhigh 63 (by decide) (by decide)

theorem execute_pair (sse41 : Bool) {m m' : Move} {w r : Instruction} {c c' : GuestCtx} (hw : m.Encodes w)
    (hr : m'.Encodes r) (hc : m.statement w c = some c') : execute sse41 [w, r] c = m'.statement r c' := by
  simp only [execute, m.translate_eq sse41 hw, m'.translate_eq sse41 hr, Option.bind_eq_bind, Option.bind_some, hc]
  exact Option.bind_fun_some _

variable {sse41 : Bool}

theorem execute_triple {m m' m'' : Move} {w w' r : Instruction} {c c' c'' : GuestCtx} (hw : m.Encodes w)
    (hw' : m'.Encodes w') (hr : m''.Encodes r) (hc : m.statement w c = some c') (hc' : m'.statement w' c' = some c'') :
    execute sse41 [w, w', r] c = m''.statement r c'' := by
  rw [← execute_pair sse41 hw' hr hc', execute, m.translate_eq sse41 hw]
  simp only [Option.bind_eq_bind, Option.bind_some, hc]

namespace Passage

variable {w w1 r : Instruction} {c : GuestCtx}

/-- What the writers leave in the registers of the multiplier. -/
def written (p : Passage) (w w1 : Instruction) (c : GuestCtx) : HiLo :=
  let v := c.hilo
  let word := (c.gprU32 w.rs).setWidth 64
  match p with
  | whole .hi | low .hi | high .hi => { v with hi := word }
  | whole .lo | low .lo | high .lo => { v with lo := word }
  | join .hi => { v with hi := c.gprU64 w.rs, hi1 := c.gprU64 w1.rs }
  | join .lo => { v with lo := c.gprU64 w.rs, lo1 := c.gprU64 w1.rs }
  | words => { v with
      lo := (lane 32 0 (c.gprVec w.rs)).signExtend 64, hi := (lane 32 1 (c.gprVec w.rs)).signExtend 64 }

theorem execute_eq (p : Passage) (h : p.Encodes w w1 r) (c : GuestCtx) :
    execute sse41 (p.code w w1 r) c = p.reader.statement r (c.setHiLo (p.written w w1 c)) := by
  cases p with
  | whole s => cases s <;> exact execute_pair _ h.writer h.reader rfl
  | low s => cases s <;> exact execute_pair _ h.writer h.reader rfl
  | high s => cases s <;> exact execute_pair _ h.writer h.reader rfl
  | join s => cases s <;> exact execute_triple h.writer (h.second _ rfl) h.reader rfl rfl
  | words => exact execute_pair _ h.writer h.reader rfl

/-- A reader of a half leaves the other half of its destination. -/
theorem whole_half (h : r.rd ≠ 0) (v : HiLo) (x : BitVec 64) :
    ((c.setHiLo v).setGprU64 r.rd x).gprVec r.rd = (c.r r.rd).extractLsb' 64 64 ++ x :=
  gprVec_setGprU64 h

theorem returned_iff {c' : GuestCtx} (p : Passage) (h : p.Encodes w w1 r)
    (hc : execute sse41 (p.code w w1 r) c = some c') : p.Returned w w1 r c c' ↔ p.Meets w w1 r c := by
  rw [execute_eq p h c] at hc
  have hrd := h.rd
  have hlow : ∀ (v : HiLo) (x : BitVec 64), ((c.setHiLo v).setGprU64 r.rd x).gprU64 r.rd = x := by
    intro v x
    rw [Ctx.gprU64_setGprU64, if_pos ⟨rfl, hrd⟩]
  cases p with
  | whole s =>
    have hc' : c' = (c.setHiLo ((whole s).written w w1 c)).setGprU64 r.rd ((c.gprU32 w.rs).setWidth 64) := by
      cases s <;> exact (Option.some.inj hc).symm
    rw [Returned, Meets, hc', whole_half hrd, ← word_eq_half_iff]
    conv_lhs => rw [← halves (c.gprVec w.rs)]
    exact append_inj.trans and_comm
  | low s =>
    have hc' : c' = (c.setHiLo ((low s).written w w1 c)).setGprU64 r.rd ((c.gprU32 w.rs).setWidth 64) := by
      cases s <;> exact (Option.some.inj hc).symm
    rw [Returned, Meets, hc', hlow, ← word_eq_half_iff]
  | high s =>
    cases s with
    | hi =>
      have hc' : c' = (c.setHiLo ((high .hi).written w w1 c)).setGprU64 r.rd c.hilo.hi1 :=
        (Option.some.inj hc).symm
      rw [Returned, Meets, hc', hlow]
    | lo =>
      have hc' : c' = (c.setHiLo ((high .lo).written w w1 c)).setGprU64 r.rd c.hilo.lo1 :=
        (Option.some.inj hc).symm
      rw [Returned, Meets, hc', hlow]
  | join s =>
    have hc' : c' = (c.setHiLo ((join s).written w w1 c)).setGprU64 r.rd (c.gprU64 w.rs) := by
      cases s <;> exact (Option.some.inj hc).symm
    rw [Returned, Meets, hc', whole_half hrd]
    exact BitVec.append_left_inj _
  | words =>
    have hc' : c' = (c.setHiLo (words.written w w1 c)).setGprVec r.rd
        (mmUnpackloEpi64 (mmSet1Epi 64 ((lane 32 0 (c.gprVec w.rs)).signExtend 64))
          (mmSet1Epi 64 ((lane 32 1 (c.gprVec w.rs)).signExtend 64))) :=
      (Option.some.inj hc).symm
    have hpair : ∀ a b : BitVec 64, mmUnpackloEpi64 (mmSet1Epi 64 a) (mmSet1Epi 64 b) = b ++ a := by
      intro a b
      apply ext_lanes (w := 64) (by decide)
      intro i hi
      have hi2 : i < 2 := by omega
      rw [mmUnpackloEpi64, lane_ofLanes hi, lane_set1 _ (by decide), lane_set1 _ (by decide)]
      apply BitVec.eq_of_getLsbD_eq
      intro j hj
      rw [getLsbD_lane hj, BitVec.getLsbD_append]
      interval_cases i
      · rw [if_pos rfl, if_pos (by omega), Nat.mul_zero, Nat.zero_add]
      · rw [if_neg (by decide), if_neg (by omega)]
        congr 1
        omega
    rw [Returned, Meets, hc', gprVec_setGprVec hrd, hpair]
    exact words_eq_self_iff _

end Passage

/-- **HI and LO as registers of 128 bits**: every passage through them runs, and the register read into
holds what was moved if and only if `Meets` holds: PMTHI and PMTLO move only a word, PMFHI and PMFLO
only the lower half, MFHI1 and MFLO1 read what PMTHI and PMTLO never write, and PMTHL.LW moves two words. -/
theorem passage_returns_iff (sse41 : Bool) (p : Passage) {w w1 r : Instruction} (h : p.Encodes w w1 r)
    (c : GuestCtx) :
    ∃ c', execute sse41 (p.code w w1 r) c = some c' ∧ (p.Returned w w1 r c c' ↔ p.Meets w w1 r c) := by
  have hsome : ∃ c', execute sse41 (p.code w w1 r) c = some c' := by
    rw [Passage.execute_eq p h c]
    cases p with
    | whole s => cases s <;> exact ⟨_, rfl⟩
    | low s => cases s <;> exact ⟨_, rfl⟩
    | high s => cases s <;> exact ⟨_, rfl⟩
    | join s => cases s <;> exact ⟨_, rfl⟩
    | words => exact ⟨_, rfl⟩
  obtain ⟨c', hc'⟩ := hsome
  exact ⟨c', hc', p.returned_iff h hc'⟩

/-- `pmthi $4` -/
def pmthiInst : Instruction := { opcode := .mmi, function := Arith.mmiMmi3, rs := 4, sa := 0x08 }

/-- `pmfhi $3` -/
def pmfhiInst : Instruction := { opcode := .mmi, function := Arith.mmiMmi2, rd := 3, sa := 0x08 }

theorem pmthi_pmfhi_encodes : (Passage.whole .hi).Encodes pmthiInst pmthiInst pmfhiInst where
  writer := ⟨rfl, rfl, fun _ h => Option.some.inj h⟩
  second := nofun
  reader := ⟨rfl, rfl, fun _ h => Option.some.inj h⟩
  rd := by decide

/-- The register that PMTHI reads. -/
def registerFour (x : M128) : GuestCtx := Ctx.ofRegisters (fun g => if g = 4 then x else 0) {}

theorem pmthi_pmfhi_word : ∃ c', execute true [pmthiInst, pmfhiInst] (registerFour 7) = some c' ∧ c'.gprVec 3 = 7 := by
  obtain ⟨c', hc', h⟩ := passage_returns_iff true (.whole .hi) pmthi_pmfhi_encodes (registerFour 7)
  exact ⟨c', hc', h.2 ⟨by decide +kernel, by decide +kernel⟩⟩

/-- **Two to the 64** comes back as zero. -/
theorem pmthi_pmfhi_lost :
    ∃ c', execute true [pmthiInst, pmfhiInst] (registerFour (1 <<< 64)) = some c' ∧
      c'.gprVec 3 ≠ (registerFour (1 <<< 64)).gprVec 4 :=
  ⟨_, rfl, by decide +kernel⟩

end Ps2Recomp.Packed
