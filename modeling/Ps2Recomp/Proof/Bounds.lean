import Ps2Recomp.Proof.Completion

/-!
# Where transfers read

A range that is handed out lies in its memory exactly where its start and its length do not overflow 32
bits together (`transfers_in_bounds`). The two copies between main memory and the IOP test twice, and
overflow only where both tests do, or where the second cuts less than the first should have.
-/

namespace Ps2Recomp.Dma

open Memory Gif

variable {G : Type} {e : Engines G} {m m' : Mem G} {ch : Channel}

/-- The first test of a copying loop does not overflow. -/
def RangeFits (limit src size : Word) : Prop := wrapStart limit src + size.toNat < 2 ^ 32

/-- A pending transfer does not overflow. One of a chain has no range. -/
def TransferFits (m : Mem G) (p : PendingTransfer) : Prop :=
  p.chainData = [] → ∀ srcPhys, translateAddress m.tlbEntries p.srcAddr = .ok srcPhys →
    RangeFits (if p.fromScratchpad then scratchpadSize else ramSize) srcPhys (sizeOfQuads p.qwc)

theorem least_bounds (ch : Channel) : 0 < ch.least.toNat ∧ ch.least.toNat ≤ 16 := by
  cases ch with
  | vif0 => decide
  | vif1 => decide
  | gif => decide

theorem sizeOfQuads_zero : sizeOfQuads 0 = 0 := by decide

theorem wrapStart_fits {limit src : Word} (hpos : 0 < limit.toNat) : RangeFits limit src 0 := by
  have := wrapStart_lt src hpos
  have hlimit := limit.isLt
  have hzero : (0 : Word).toNat = 0 := rfl
  rw [RangeFits]
  omega

theorem ranges_inside (r : Region) (hr : r = .scratchpad ∨ r = .rdram) (ch : Channel) (src size : Word) :
    (∀ p ∈ (chunks r.limit ch.least (size.toNat + 1) src size).map fun c => Piece.range r c.1 c.2, p.Inside) ↔
      RangeFits r.limit src size := by
  obtain ⟨hpos, hsmall⟩ := limit_of hr
  obtain ⟨hleast, hleast'⟩ := least_bounds ch
  rw [RangeFits, ← chunks_inside_iff (n := size.toNat) hpos hsmall hleast hleast', List.forall_mem_map]
  exact Iff.rfl

theorem pieces_inside (m : Mem G) (ch : Channel) (p : PendingTransfer) :
    (∀ q ∈ pieces m ch p, q.Inside) ↔ TransferFits m p := by
  rw [pieces, TransferFits]
  by_cases hdata : p.chainData = []
  · rw [if_neg (by simp [hdata])]
    by_cases hq : 0 < p.qwc
    · rw [if_pos hq]
      cases translateAddress m.tlbEntries p.srcAddr with
      | error err => simp
      | ok srcPhys =>
        simp only [hdata, forall_const, Except.ok.injEq, forall_eq']
        cases p.fromScratchpad with
        | true => exact ranges_inside .scratchpad (.inl rfl) ch srcPhys _
        | false => exact ranges_inside .rdram (.inr rfl) ch srcPhys _
    · have hzero : p.qwc = 0 := by
        rw [BitVec.lt_def] at hq
        exact BitVec.eq_of_toNat_eq (by simpa using hq)
      rw [if_neg hq, hzero, sizeOfQuads_zero]
      refine iff_of_true (by simp) fun _ srcPhys _ => ?_
      split
      · exact wrapStart_fits (by decide)
      · exact wrapStart_fits (by decide)
  · rw [if_pos hdata]
    refine iff_of_true ?_ fun h => absurd h hdata
    intro q hq
    obtain rfl := List.mem_singleton.1 hq
    trivial

theorem transferFits_congr (h : m'.tlbEntries = m.tlbEntries) (p : PendingTransfer) :
    TransferFits m' p ↔ TransferFits m p := by
  rw [TransferFits, TransferFits, h]

theorem handedOut_inside (e : Engines G) (ch : Channel) (ps : List PendingTransfer) (m : Mem G) :
    (∀ q ∈ handedOut e ch m ps, q.Inside) ↔ ∀ p ∈ ps, TransferFits m p := by
  induction ps generalizing m with
  | nil => simp [handedOut]
  | cons p ps ih =>
    have hkept := processTransfer_kept e ch m p
    rw [handedOut, List.forall_mem_append, pieces_inside, ih, List.forall_mem_cons]
    simp only [transferFits_congr hkept.tlbEntries]

/-- **What processing hands out** lies in the memories where every pending transfer fits. -/
theorem allHandedOut_inside (e : Engines G) (m : Mem G) :
    (∀ q ∈ allHandedOut e m, q.Inside) ↔ ∀ ch, ∀ p ∈ m.devices.pending ch, TransferFits m p := by
  have h1 := processChannel_kept e .gif m
  have h2 := processChannel_kept e .vif0 (processChannel e .gif m)
  set m1 := processChannel e .gif m with hm1
  set m2 := processChannel e .vif0 m1 with hm2
  have htlb1 : m1.tlbEntries = m.tlbEntries := h1.tlbEntries
  have htlb2 : m2.tlbEntries = m.tlbEntries := h2.tlbEntries.trans htlb1
  have hvif0 : m1.devices.pending .vif0 = m.devices.pending .vif0 := by
    rw [h1.pending]
    rfl
  have hvif1 : m2.devices.pending .vif1 = m.devices.pending .vif1 := by
    have hzero : m2.devices.pending .vif1 = m1.devices.pending .vif1 := by
      rw [h2.pending]
      rfl
    have hzero' : m1.devices.pending .vif1 = m.devices.pending .vif1 := by
      rw [h1.pending]
      rfl
    exact hzero.trans hzero'
  rw [allHandedOut, ← hm1, ← hm2, List.forall_mem_append, List.forall_mem_append, handedOut_inside, handedOut_inside,
    handedOut_inside, hvif0, hvif1]
  simp only [transferFits_congr htlb1, transferFits_congr htlb2]
  constructor
  · rintro ⟨⟨hgif, h0⟩, h1⟩ ch
    cases ch with
    | vif0 => exact h0
    | vif1 => exact h1
    | gif => exact hgif
  · intro h
    exact ⟨⟨h .gif, h .vif0⟩, h .vif1⟩

/-! ### The IOP -/

/-- The two tests of a copy, in order: the first does not overflow, or the second does not and cuts as
much. -/
def ClampsFit (limit₁ off₁ limit₂ off₂ bytes : Word) : Prop :=
  off₁.toNat + bytes.toNat < 2 ^ 32 ∨
    off₂.toNat + bytes.toNat < 2 ^ 32 ∧ off₁.toNat + (limit₂.toNat - off₂.toNat) ≤ limit₁.toNat

variable {limit off n : Word}

/-- A test that does not overflow cuts what is over the end. -/
theorem clampTo_fits (hoff : off.toNat < limit.toNat) (h : off.toNat + n.toNat < 2 ^ 32) :
    (clampTo limit off n).toNat = min n.toNat (limit.toNat - off.toNat) := by
  have hsum : (off + n).toNat = off.toNat + n.toNat := BitVec.toNat_add_of_lt h
  rw [clampTo]
  split
  · next hlt =>
    rw [BitVec.lt_def, hsum] at hlt
    rw [BitVec.toNat_sub_of_le (BitVec.le_def.2 (by omega))]
    omega
  · next hlt =>
    rw [BitVec.lt_def, hsum] at hlt
    omega

/-- One that overflows cuts nothing. -/
theorem clampTo_over (hoff : off.toNat < limit.toNat) (h : 2 ^ 32 ≤ off.toNat + n.toNat) : clampTo limit off n = n := by
  have hn := n.isLt
  rw [clampTo, if_neg]
  rw [BitVec.lt_def, BitVec.toNat_add]
  omega

theorem clamps_inside {limit1 off1 limit2 off2 bytes : Word} (h1 : off1.toNat < limit1.toNat)
    (h2 : off2.toNat < limit2.toNat) (hs1 : limit1.toNat ≤ 2 ^ 25) (hs2 : limit2.toNat ≤ 2 ^ 25) :
    (off1.toNat + (clampTo limit2 off2 (clampTo limit1 off1 bytes)).toNat ≤ limit1.toNat ∧
        off2.toNat + (clampTo limit2 off2 (clampTo limit1 off1 bytes)).toNat ≤ limit2.toNat) ↔
      ClampsFit limit1 off1 limit2 off2 bytes := by
  set n := clampTo limit2 off2 (clampTo limit1 off1 bytes)
  have hbytes := bytes.isLt
  rw [ClampsFit]
  by_cases hfirst : off1.toNat + bytes.toNat < 2 ^ 32
  · have hin := clampTo_fits h1 hfirst
    have hn : n.toNat = min (clampTo limit1 off1 bytes).toNat (limit2.toNat - off2.toNat) :=
      clampTo_fits h2 (by omega)
    refine iff_of_true ?_ (.inl hfirst)
    omega
  · have hin : clampTo limit1 off1 bytes = bytes := clampTo_over h1 (by omega)
    by_cases hsecond : off2.toNat + bytes.toNat < 2 ^ 32
    · have hn : n.toNat = min bytes.toNat (limit2.toNat - off2.toNat) := by
        simp only [n, hin]
        exact clampTo_fits h2 hsecond
      omega
    · -- neither cuts
      have hn : n = bytes := by
        simp only [n, hin]
        exact clampTo_over h2 (by omega)
      rw [hn]
      omega

/-- A copy to the IOP copies what it reports, inside both memories. -/
def CopiesToIop (m : Mem G) (eeAddr iopAddr bytes : Word) : Prop :=
  ∀ n m', sifDmaEEtoIOP eeAddr iopAddr bytes m = .ok n m' → n = 0 ∧ m' = m ∨
    ∃ eeOff, translateAddress m.tlbEntries eeAddr = .ok eeOff ∧
      (eeOff.toNat + n.toNat ≤ ramSize.toNat ∧ (iopRamOffset iopAddr).toNat + n.toNat ≤ iopRamSize.toNat) ∧
      m' = { m with
        devices.iopRam := copyBytes m.devices.iopRam (iopRamOffset iopAddr).toNat m.rdram eeOff.toNat n.toNat }

/-- A copy from the IOP copies what it reports, inside both memories. -/
def CopiesToEe (m : Mem G) (iopAddr eeAddr bytes : Word) : Prop :=
  ∀ n m', sifDmaIOPtoEE iopAddr eeAddr bytes m = .ok n m' → n = 0 ∧ m' = m ∨
    ∃ eeOff, translateAddress m.tlbEntries eeAddr = .ok eeOff ∧
      ((iopRamOffset iopAddr).toNat + n.toNat ≤ iopRamSize.toNat ∧ eeOff.toNat + n.toNat ≤ ramSize.toNat) ∧
      m' = { m with
        rdram := copyBytes m.rdram eeOff.toNat m.devices.iopRam (iopRamOffset iopAddr).toNat n.toNat }

/-- The copies that start inside both memories fit. -/
def SifFits (m : Mem G) (eeAddr iopAddr : Word) (fits : Word → Word → Prop) : Prop :=
  ∀ eeOff, translateAddress m.tlbEntries eeAddr = .ok eeOff → eeOff < ramSize →
    iopRamOffset iopAddr < iopRamSize → fits eeOff (iopRamOffset iopAddr)

theorem clampTo_ne_zero (hoff : off.toNat < limit.toNat) (hn : n ≠ 0) : clampTo limit off n ≠ 0 := by
  rw [clampTo]
  split
  · intro h
    have hnat := congrArg BitVec.toNat h
    have hzero : (0 : Word).toNat = 0 := rfl
    rw [BitVec.toNat_sub_of_le (BitVec.le_def.2 (by omega))] at hnat
    omega
  · exact hn

/-- What a copy reports, whose count is the bytes left inside both memories: `inside` of the count, which is
not zero, and `fits` of the offsets and the bytes are the same. -/
theorem copies_iff {m : Mem G} {eeAddr iopAddr bytes : Word} {run : EStateM.Result Fault (Mem G) Word}
    {count : Word → Word} {inside : Word → Word → Prop} {after : Word → Word → Mem G} {fits : Word → Word → Prop}
    (hrun : run = if bytes = 0 then .ok 0 m
      else match translateAddress m.tlbEntries eeAddr with
        | .error err => .error err m
        | .ok eeOff =>
          if ramSize ≤ eeOff ∨ iopRamSize ≤ iopRamOffset iopAddr then .ok 0 m
          else .ok (count eeOff) (after eeOff (count eeOff)))
    (hzero : bytes = 0 → ∀ eeOff, eeOff < ramSize → iopRamOffset iopAddr < iopRamSize →
      fits eeOff (iopRamOffset iopAddr))
    (hcount : bytes ≠ 0 → ∀ eeOff, eeOff < ramSize → iopRamOffset iopAddr < iopRamSize →
      count eeOff ≠ 0 ∧ (inside eeOff (count eeOff) ↔ fits eeOff (iopRamOffset iopAddr))) :
    (∀ n m', run = .ok n m' → n = 0 ∧ m' = m ∨
      ∃ eeOff, translateAddress m.tlbEntries eeAddr = .ok eeOff ∧ inside eeOff n ∧ m' = after eeOff n) ↔
        SifFits m eeAddr iopAddr fits := by
  rw [SifFits, hrun]
  by_cases hbytes : bytes = 0
  · rw [if_pos hbytes]
    refine iff_of_true ?_ fun eeOff _ hee hiopOff => hzero hbytes eeOff hee hiopOff
    intro n m' h
    cases h
    exact .inl ⟨rfl, rfl⟩
  rw [if_neg hbytes]
  cases translateAddress m.tlbEntries eeAddr with
  | error err => exact iff_of_true (fun n m' h => nomatch h) fun eeOff h => nomatch h
  | ok eeOff =>
    simp only [Except.ok.injEq, forall_eq', exists_eq_left']
    by_cases hout : ramSize ≤ eeOff ∨ iopRamSize ≤ iopRamOffset iopAddr
    · rw [if_pos hout]
      refine iff_of_true ?_ fun hee hiopOff => ?_
      · intro n m' h
        cases h
        exact .inl ⟨rfl, rfl⟩
      · rcases hout with h | h
        · exact absurd h (BitVec.not_le.2 hee)
        · exact absurd h (BitVec.not_le.2 hiopOff)
    · rw [if_neg hout]
      obtain ⟨hee, hiopOff⟩ := not_or.1 hout
      rw [BitVec.not_le] at hee hiopOff
      obtain ⟨hne, hinside⟩ := hcount hbytes eeOff hee hiopOff
      simp only [hee, hiopOff, forall_const, ← hinside]
      constructor
      · intro h
        rcases h _ _ rfl with ⟨h0, -⟩ | ⟨h, -⟩
        · exact absurd h0 hne
        · exact h
      · intro h n' m' heq
        cases heq
        exact .inr ⟨h, rfl⟩

theorem copiesToIop_iff (m : Mem G) (eeAddr iopAddr bytes : Word) : CopiesToIop m eeAddr iopAddr bytes ↔
    SifFits m eeAddr iopAddr fun eeOff iopOff => ClampsFit ramSize eeOff iopRamSize iopOff bytes := by
  refine copies_iff rfl (fun hzero eeOff hee _ => .inl ?_) fun hzero eeOff hee hiopOff => ?_
  · rw [BitVec.lt_def] at hee
    have : (0 : Word).toNat = 0 := rfl
    rw [hzero]
    omega
  · rw [BitVec.lt_def] at hee hiopOff
    exact ⟨clampTo_ne_zero hiopOff (clampTo_ne_zero hee hzero), clamps_inside hee hiopOff (by decide) (by decide)⟩

theorem copiesToEe_iff (m : Mem G) (iopAddr eeAddr bytes : Word) : CopiesToEe m iopAddr eeAddr bytes ↔
    SifFits m eeAddr iopAddr fun eeOff iopOff => ClampsFit iopRamSize iopOff ramSize eeOff bytes := by
  refine copies_iff rfl (fun hzero eeOff _ hiopOff => .inl ?_) fun hzero eeOff hee hiopOff => ?_
  · rw [BitVec.lt_def] at hiopOff
    have : (0 : Word).toNat = 0 := rfl
    rw [hzero]
    omega
  · rw [BitVec.lt_def] at hee hiopOff
    exact ⟨clampTo_ne_zero hee (clampTo_ne_zero hiopOff hzero), clamps_inside hiopOff hee (by decide) (by decide)⟩

/-- **Where transfers stay in bounds.** -/
theorem transfers_in_bounds (e : Engines G) (m : Mem G) :
    ((∀ q ∈ allHandedOut e m, q.Inside) ↔ ∀ ch, ∀ p ∈ m.devices.pending ch, TransferFits m p) ∧
      (∀ src qw, (∀ q ∈ gifPieces src qw, q.Inside) ↔ RangeFits ramSize src (sizeOfQuads qw)) ∧
      (∀ eeAddr iopAddr bytes, CopiesToIop m eeAddr iopAddr bytes ↔
        SifFits m eeAddr iopAddr fun eeOff iopOff => ClampsFit ramSize eeOff iopRamSize iopOff bytes) ∧
      ∀ iopAddr eeAddr bytes, CopiesToEe m iopAddr eeAddr bytes ↔
        SifFits m eeAddr iopAddr fun eeOff iopOff => ClampsFit iopRamSize iopOff ramSize eeOff bytes :=
  ⟨allHandedOut_inside e m, fun src qw => ranges_inside .rdram (.inr rfl) .gif src (sizeOfQuads qw),
    copiesToIop_iff m, copiesToEe_iff m⟩

/-- **A length near 2^32 is read past the end of memory**: MADR 16, QWC 0x0FFFFFFF. -/
theorem long_transfer_outside : ¬∀ m : Mem Unit, ∀ q ∈ allHandedOut quietEngines m, q.Inside := by
  intro h
  have hfits := (allHandedOut_inside quietEngines
    (enqueue oneTag .gif ⟨false, 16, 0x0FFFFFFF, []⟩)).1 (h _) .gif ⟨false, 16, 0x0FFFFFFF, []⟩ List.mem_cons_self
  have := hfits rfl 16 rfl
  rw [RangeFits] at this
  revert this
  decide

end Ps2Recomp.Dma
