import Mathlib.Data.Fintype.Card
import Mathlib.Order.WellFounded
import Ps2Recomp.Proof.PlanRun

/-!
# Kick plans against the stores they replace

A valid plan leaves four stores out and passes their values to one call. That is right for a
run from the start of the scan. The scan also crosses labels in front of the first store
without forgetting its constants, and a run from such a label has the registers it likes.

* `KickSound`: every run of the code makes one kick, with what the four stores would store.
* `LabelsAgree`: the constants of the scan do not depend on what was known at a label.
* `kickSound_iff`: the first holds exactly when the second does.
-/

namespace Ps2Recomp

open Goto

/-! ## Known registers -/

section Known

variable {k k' : ConstantRegisterState}

/-- The same registers are known, maybe with other values. -/
def SameKnown (k k' : ConstantRegisterState) : Prop :=
  ∀ reg, (k.read reg).isSome = (k'.read reg).isSome

section

variable (h : SameKnown k k')

include h

section

variable {o o' : Option Word} (reg : Reg) (ho : o.isSome = o'.isSome)

include ho

theorem SameKnown.set : SameKnown (k.set reg o) (k'.set reg o') := by
  intro reg'
  rw [ConstantRegisterState.read_set, ConstantRegisterState.read_set]
  split
  · exact ho
  · exact h reg'

theorem SameKnown.assign : SameKnown (k.assign reg o) (k'.assign reg o') := by
  have hset : ∀ (k : ConstantRegisterState) (o : Option Word), k.assign reg o = k.set reg o := by
    intro k o
    cases o <;> rfl
  rw [hset, hset]
  exact h.set reg ho

end

theorem SameKnown.map (reg : Reg) (f : Word → Word) : ((k.read reg).map f).isSome = ((k'.read reg).map f).isSome := by
  rw [Option.isSome_map, Option.isSome_map]
  exact h reg

theorem SameKnown.bind (rs rt : Reg) (f : Word → Word → Word) :
    ((k.read rs).bind fun x => (k.read rt).map (f x)).isSome =
      ((k'.read rs).bind fun x => (k'.read rt).map (f x)).isSome := by
  have hb : ∀ k : ConstantRegisterState, ((k.read rs).bind fun x => (k.read rt).map (f x)).isSome =
      ((k.read rs).isSome && (k.read rt).isSome) := by
    intro k
    cases k.read rs with
    | none => rfl
    | some x => exact Option.isSome_map
  rw [hb, hb, h rs, h rt]

theorem SameKnown.clearIfModified (inst : Instruction) :
    SameKnown (clearIfModified inst k) (clearIfModified inst k') := by
  unfold Ps2Recomp.clearIfModified
  split
  · exact fun reg => rfl
  · exact h

/-- Which registers an instruction leaves known does not depend on their values. -/
theorem SameKnown.update (inst : Instruction) :
    SameKnown (updateConstantRegisters inst k) (updateConstantRegisters inst k') := by
  unfold updateConstantRegisters
  split
  case h_20 =>
    split
    · exact h.assign _ (h.bind _ _ _)
    · split
      · exact h.assign _ (h.bind _ _ _)
      · exact h.clearIfModified inst
  all_goals first
    | exact h.set _ rfl
    | exact h.assign _ (h.map _ _)
    | exact h.clearIfModified inst

end

/-- The known registers of `k`, with what they hold in a context. -/
def ConstantRegisterState.holding {ρ : Type} (k : ConstantRegisterState) (c : Ctx ρ) : ConstantRegisterState where
  value reg := (k.read reg).map fun _ => c.gprU32 reg
  zero := by
    rw [show k.read 0 = some 0 from k.zero, Option.map_some, Ctx.gprU32_zero]

section

variable {ρ : Type} (k : ConstantRegisterState) (c : Ctx ρ)

theorem sameKnown_holding : SameKnown (k.holding c) k := by
  intro reg
  exact Option.isSome_map

theorem sound_holding : Sound (k.holding c) c := by
  intro reg v h
  obtain ⟨_, -, rfl⟩ := Option.map_eq_some_iff.1 h
  rfl

end

/-- A state whose registers hold the constants `k`. -/
def State.holding (k : ConstantRegisterState) : State Unit :=
  { State.entered 0 0 with
    ctx := ⟨fun reg => ((k.read reg).getD 0).setWidth 128, (State.entered 0 0).ctx.sys⟩ }

theorem sound_stateHolding (k : ConstantRegisterState) : Sound k (State.holding k).ctx := by
  intro reg v h
  unfold Ctx.gprU32 State.holding
  dsimp only
  split
  · rename_i h0
    rw [h0, show k.read 0 = some 0 from k.zero] at h
    exact Option.some.inj h
  · rw [h, Option.getD_some, BitVec.setWidth_setWidth_of_le _ (by omega), BitVec.setWidth_eq]

end Known

/-! ## The first accesses of a scan -/

section Accesses

variable {instructions : List Instruction} {startIndex : ℕ} {internalTargets : List Word}
  {k : ConstantRegisterState} {plan : GifDmaKickPlan}

/-- The first four loads and stores from `startIndex` on. -/
structure FirstAccesses (instructions : List Instruction) (startIndex : ℕ) (idx : Fin 4 → ℕ) :
    Prop where
  mono : StrictMono idx
  start_le : ∀ i, startIndex ≤ idx i
  access : ∀ i, ∃ inst, instructions[idx i]? = some inst ∧ isDirectMemoryAccess inst = true
  all : ∀ n, startIndex ≤ n → n ≤ idx 3 → ∀ inst, instructions[n]? = some inst →
    isDirectMemoryAccess inst = true → ∃ i, idx i = n

section

variable {idx idx' : Fin 4 → ℕ} (h : FirstAccesses instructions startIndex idx)
  (h' : FirstAccesses instructions startIndex idx')

include h h'

theorem FirstAccesses.range_subset (hle : idx 3 ≤ idx' 3) : Set.range idx ⊆ Set.range idx' := by
  rintro n ⟨i, rfl⟩
  obtain ⟨inst, hi, hd⟩ := h.access i
  have hi3 : idx i ≤ idx 3 := h.mono.monotone (Fin.le_last i)
  exact h'.all _ (h.start_le i) (hi3.trans hle) inst hi hd

theorem FirstAccesses.unique : idx = idx' := by
  -- one range is contained in the other, and both have four elements
  have key : ∀ f g : Fin 4 → ℕ, StrictMono f → StrictMono g → Set.range f ⊆ Set.range g → f = g := by
    intro f g hf hg hsub
    refine (hf.range_inj hg).1 ?_
    have hsub' : Finset.univ.image f ⊆ Finset.univ.image g := by
      intro n hn
      obtain ⟨i, -, rfl⟩ := Finset.mem_image.1 hn
      obtain ⟨i', hi'⟩ := hsub ⟨i, rfl⟩
      exact Finset.mem_image.2 ⟨i', Finset.mem_univ _, hi'⟩
    have heq := Finset.eq_of_subset_of_card_le hsub' (by
      rw [Finset.card_image_of_injective _ hf.injective, Finset.card_image_of_injective _ hg.injective])
    have hset := congrArg (fun t : Finset ℕ => (t : Set ℕ)) heq
    simpa using hset
  rcases le_total (idx 3) (idx' 3) with hle | hle
  · exact key _ _ h.mono h'.mono (h.range_subset h' hle)
  · exact (key _ _ h'.mono h.mono (h'.range_subset h hle)).symm

end

/-- Where the registers of the instruction at index `n` are read: in front of it, or of the
branch whose delay slot it is in. -/
def readIndex (instructions : List Instruction) (n : ℕ) : ℕ :=
  if (instructions[n - 1]?).any (·.hasDelaySlot) then n - 1 else n

section

variable (h : PlanSpec instructions startIndex internalTargets k plan)

include h

/-- The stores of a plan are the first accesses of its scan. -/
theorem PlanSpec.firstAccesses : FirstAccesses instructions startIndex plan.storeIndices := by
  refine ⟨h.mono, fun i => (h.start_le i).trans (plan.position_le i), fun i => ?_, fun n hn hn' => ?_⟩
  · obtain ⟨inst, hm⟩ := h.matched i
    exact ⟨inst, hm.index, by simp [isDirectMemoryAccess, hm.opcode]⟩
  · rw [← h.endIndex] at hn'
    exact h.access n hn hn'

/-- The registers of a store are read at its position, unless the scan starts with it. -/
theorem PlanSpec.readIndex (hd : ∀ inst ∈ instructions, NoSlot inst) {i : Fin 4}
    (hs : startIndex < plan.storeIndices i) : readIndex instructions (plan.storeIndices i) = plan.position i := by
  unfold Ps2Recomp.readIndex
  by_cases hc : plan.completesInDelaySlot = true ∧ i = 3
  · obtain ⟨hc, rfl⟩ := hc
    obtain ⟨-, hend, inst, -, hi, hret, -⟩ := h.branch hc
    have hpos : plan.storeIndices 3 - 1 = plan.position 3 := by
      have := h.endIndex
      omega
    have hslot : inst.hasDelaySlot = true := by
      unfold isReturnWithDelaySlot at hret
      simp only [Bool.and_eq_true] at hret
      exact hret.2
    rw [hpos, hi, Option.any_some, hslot, if_pos rfl]
  · have hpos : plan.position i = plan.storeIndices i := by
      unfold GifDmaKickPlan.position
      rw [if_neg]
      simpa using hc
    obtain ⟨x, hx⟩ := h.matched i
    obtain ⟨hlen, -⟩ := List.getElem?_eq_some_iff.1 hx.index
    obtain ⟨inst, hi⟩ : ∃ inst, instructions[plan.storeIndices i - 1]? = some inst :=
      ⟨_, List.getElem?_eq_getElem (by omega)⟩
    have hle : plan.position i ≤ plan.position 3 := h.position_mono (Fin.le_last i)
    rw [hi, Option.any_some, h.noDelaySlot hd (by omega) (by omega) hi, hpos]
    rfl

end

end Accesses

namespace FunctionEmitter

variable {ρ : Type} {rt : Runtime ρ} {cg : CodeGenerator} {instructions : List Instruction}
  {ar : AnalysisResult} {plan : GifDmaKickPlan} {startIndex : ℕ} {k : ConstantRegisterState}

/-! ## Soundness of a plan -/

/-- A run may come to the scanned instructions at their start, with the constants the scan
starts with, or at a label among them. -/
def Entry (instructions : List Instruction) (startIndex : ℕ) (internalTargets : List Word)
    (k : ConstantRegisterState) (plan : GifDmaKickPlan) (i : ℕ) (s : State ρ) : Prop :=
  (i = startIndex ∧ Knows k s) ∨ (startIndex < i ∧ i ≤ plan.endIndex ∧
    ∃ inst, instructions[i]? = some inst ∧ inst.address ∈ internalTargets)

/-- The run from `i` makes one kick. At each of the four stores the address is the one of the
slot, and the argument of the slot is the word in the register that is stored. -/
def KicksStores (rt : Runtime ρ) (cg : CodeGenerator) (instructions : List Instruction)
    (ar : AnalysisResult) (plan : GifDmaKickPlan) (k : ConstantRegisterState) (s : State ρ)
    (i : ℕ) : Prop :=
  ∃ vs, (runTo rt cg instructions ar plan k s i (plan.endIndex + 1)).1.kicks = [vs] ∧
    ∀ slot, ∃ inst, instructions[plan.storeIndices slot]? = some inst ∧ inst.opcode = .sw ∧
      baseAddress inst (runTo rt cg instructions ar plan k s i (plan.position slot)).1.ctx =
        kTargets slot ∧
      vs slot = (runTo rt cg instructions ar plan k s i (plan.position slot)).1.ctx.gprU32 inst.rt

/-- **What a plan has to do.** The stores stand in their order, and every run of the emitted
code that comes to the last of them kicks with what they would store. -/
def KickSound (instructions : List Instruction) (startIndex : ℕ) (internalTargets : List Word)
    (k : ConstantRegisterState) (plan : GifDmaKickPlan) : Prop :=
  StrictMono plan.storeIndices ∧
  ∀ (ρ : Type) (rt : Runtime ρ) (cg : CodeGenerator) (ar : AnalysisResult),
    ar.entryPoints = internalTargets → (∀ inst ∈ instructions, Unhooked cg inst.address) →
    (∀ inst ∈ instructions, FlagsCover rt.toMachine inst) →
    ∀ (i : ℕ) (s : State ρ), Entry instructions startIndex internalTargets k plan i s →
      s.kicks = [] →
      (runTo rt cg instructions ar plan k s i (plan.position 3)).2 = .next →
      KicksStores rt cg instructions ar plan k s i

/-- At every label in front of the first of the four stores, whatever the known registers hold
there: the constants that follow from it are those of the scan, in the registers of the
stores. -/
def LabelsAgree (instructions : List Instruction) (startIndex : ℕ) (internalTargets : List Word)
    (k : ConstantRegisterState) : Prop :=
  ∀ idx, FirstAccesses instructions startIndex idx →
    ∀ i label, startIndex < i → i ≤ idx 0 → instructions[i]? = some label →
      label.address ∈ internalTargets →
      ∀ k', SameKnown k' (scanConstants instructions startIndex k i) →
        ∀ slot inst, instructions[idx slot]? = some inst → ∀ reg, reg = inst.rs ∨ reg = inst.rt →
          (scanConstants instructions i k' (readIndex instructions (idx slot))).read reg =
            (scanConstants instructions startIndex k (readIndex instructions (idx slot))).read reg

/-- What the decoder promises: loads and stores have no delay slot, and register writes of the
instructions whose translation is written out are flagged. -/
def Decoded (instructions : List Instruction) : Prop :=
  ∀ inst ∈ instructions, NoSlot inst ∧ FlagsCover Runtime.idle.toMachine inst

theorem scanConstants_trans {i n : ℕ} (hs : startIndex ≤ i) (hin : i ≤ n) : scanConstants instructions startIndex k n =
    scanConstants instructions i (scanConstants instructions startIndex k i) n := by
  unfold scanConstants
  rw [← List.foldl_append, show n - startIndex = (i - startIndex) + (n - i) by omega, List.take_add,
    List.drop_drop, show startIndex + (i - startIndex) = i by omega]

section

variable {k' : ConstantRegisterState}

theorem scanConstants_sameKnown (h : SameKnown k' k) (i n : ℕ) :
    SameKnown (scanConstants instructions i k' n) (scanConstants instructions i k n) := by
  unfold scanConstants
  induction (instructions.drop i).take (n - i) generalizing k k' with
  | nil => exact h
  | cons inst l ih => exact ih (h.update inst)

theorem Setting.sound (h : Setting rt cg instructions ar startIndex k plan) {i : ℕ}
    (hs : startIndex ≤ i) (hi : i ≤ plan.storeIndices 0) {s : State ρ}
    (hk : Sound k' s.ctx)
    (hagree : ∀ slot inst, instructions[plan.storeIndices slot]? = some inst →
      ∀ reg, reg = inst.rs ∨ reg = inst.rt →
        (scanConstants instructions i k' (plan.position slot)).read reg =
          (scanConstants instructions startIndex k (plan.position slot)).read reg)
    (hkicks : s.kicks = [])
    (hnext : (runTo rt cg instructions ar plan k s i (plan.position 3)).2 = .next) :
    KicksStores rt cg instructions ar plan k s i := by
  obtain ⟨t, ht⟩ : ∃ t, runTo rt cg instructions ar plan k s i (plan.position 3) = (t, .next) :=
    ⟨_, Prod.ext rfl hnext⟩
  have hpos : ∀ slot, i ≤ plan.position slot ∧ plan.position slot ≤ plan.position 3 := by
    intro slot
    have h0 : plan.position 0 ≤ plan.position slot := h.spec.position_mono (Fin.zero_le slot)
    rw [plan.position_eq (by decide)] at h0
    exact ⟨hi.trans h0, h.spec.position_mono (Fin.le_last slot)⟩
  have hkick := h.runTo_end hs (hpos 3).1 ht
  rw [hkicks] at hkick
  refine ⟨_, hkick, fun slot => ?_⟩
  · obtain ⟨inst, hm⟩ := h.spec.matched slot
    obtain ⟨u, hu⟩ := h.runTo_le hs (hpos slot).1 (hpos slot).2 le_rfl ht
    have hsound : Sound _ u.ctx := h.runTo_sound hs (hpos slot).1 (hpos slot).2 hk hu
    refine ⟨inst, hm.index, hm.opcode, ?_, ?_⟩
    · obtain ⟨w, hw, hw'⟩ := Option.map_eq_some_iff.1 hm.address
      rw [← hagree slot inst hm.index inst.rs (.inl rfl)] at hw
      rw [hu, baseAddress, hsound _ _ hw, hw']
    · rw [hu]
      refine h.kick_values hs hi ht hm hu fun v hv => ?_
      rw [← hagree slot inst hm.index inst.rt (.inr rfl)] at hv
      exact hsound _ _ hv

end

section

variable {internalTargets : List Word} (hdec : Decoded instructions) (hv : plan.valid = true)
  (hspec : PlanSpec instructions startIndex internalTargets k plan)

include hdec hv hspec

theorem KickSound.labelsAgree : KickSound instructions startIndex internalTargets k plan →
    LabelsAgree instructions startIndex internalTargets k := by
  have hslots : ∀ inst ∈ instructions, NoSlot inst := fun inst hi => (hdec inst hi).1
  intro hsound idx hidx i label hsi hi0 hlab hmem k' hk' slot inst hinst reg hreg
  obtain rfl := hidx.unique hspec.firstAccesses
  have h0 : plan.storeIndices 0 ≤ plan.storeIndices slot :=
    hspec.mono.monotone (Fin.zero_le slot)
  rw [hspec.readIndex hslots (by omega)]
  -- a run from the label with the registers of `k'`
  have h : Setting Runtime.idle { analyzer := ⟨[], []⟩ } instructions
      { entryPoints := internalTargets } startIndex k plan :=
    ⟨hv, hspec, hslots, fun _ _ => ⟨rfl, rfl⟩, fun x hx => (hdec x hx).2⟩
  have hpos : i ≤ plan.position slot ∧ plan.position slot ≤ plan.position 3 := by
    have hle : plan.position 0 ≤ plan.position slot := hspec.position_mono (Fin.zero_le slot)
    rw [plan.position_eq (by decide)] at hle
    exact ⟨hi0.trans hle, hspec.position_mono (Fin.le_last slot)⟩
  have hend := h.position_le_end
  obtain ⟨t, ht⟩ := h.runTo_next (fun _ => rfl) hsi.le (hpos.1.trans hpos.2) le_rfl k (State.holding k')
  obtain ⟨u, hu⟩ := h.runTo_le hsi.le hpos.1 hpos.2 le_rfl ht
  have hknown : SameKnown (scanConstants instructions i k' (plan.position slot))
      (scanConstants instructions startIndex k (plan.position slot)) := by
    rw [scanConstants_trans hsi.le hpos.1]
    exact scanConstants_sameKnown hk' i _
  have hs : Sound _ u.ctx := h.runTo_sound hsi.le hpos.1 hpos.2 (sound_stateHolding k') hu
  obtain ⟨vs, hvs, hall⟩ := hsound.2 Unit Runtime.idle { analyzer := ⟨[], []⟩ }
    { entryPoints := internalTargets } rfl h.unhooked h.flags i (State.holding k')
    (.inr ⟨hsi, by omega, label, hlab, hmem⟩) rfl (congrArg Prod.snd ht)
  obtain ⟨x, hx, -, haddr, hval⟩ := hall slot
  rw [hinst] at hx
  cases hx
  rw [hu] at haddr hval
  obtain ⟨y, hm⟩ := hspec.matched slot
  have hy := hm.index
  rw [hinst] at hy
  cases hy
  -- a register known to the scan holds its word in the run
  have hread : ∀ reg w, (scanConstants instructions startIndex k (plan.position slot)).read reg =
      some w → u.ctx.gprU32 reg = w →
      (scanConstants instructions i k' (plan.position slot)).read reg = some w := by
    intro reg w hw hu
    have hsome := hknown reg
    rw [hw, Option.isSome_some] at hsome
    obtain ⟨w', hw'⟩ := Option.isSome_iff_exists.1 hsome
    rw [hw', ← hs _ _ hw', hu]
  rcases hreg with rfl | rfl
  · obtain ⟨w, hw, hw'⟩ := Option.map_eq_some_iff.1 hm.address
    rw [hw]
    refine hread _ _ hw ?_
    rw [← hw'] at haddr
    exact add_right_cancel (show u.ctx.gprU32 inst.rs + inst.simmediate = _ from haddr)
  · cases hrt : (scanConstants instructions startIndex k (plan.position slot)).read inst.rt with
    | none =>
      have hsome := hknown inst.rt
      rw [hrt] at hsome
      simpa using hsome
    | some v =>
      refine hread _ _ hrt ?_
      have hlit := hm.value
      rw [hrt] at hlit
      rw [h.runTo_end hsi.le (hpos.1.trans hpos.2) ht] at hvs
      obtain ⟨rfl, -⟩ := List.cons.inj hvs
      rw [← hval]
      dsimp only at hlit ⊢
      rw [hlit]
      rfl

theorem LabelsAgree.kickSound : LabelsAgree instructions startIndex internalTargets k →
    KickSound instructions startIndex internalTargets k plan := by
  have hslots : ∀ inst ∈ instructions, NoSlot inst := fun inst hi => (hdec inst hi).1
  intro hagree
  refine ⟨hspec.mono, ?_⟩
  intro ρ rt cg ar har hu hf i s hentry hkicks hnext
  subst har
  have h : Setting rt cg instructions ar startIndex k plan := ⟨hv, hspec, hslots, hu, hf⟩
  rcases hentry with ⟨rfl, hk⟩ | ⟨hsi, hie, label, hlab, hmem⟩
  · have h0 := h.spec.start_le 0
    rw [plan.position_eq (by decide)] at h0
    exact h.sound le_rfl h0 hk (fun _ _ _ _ _ => rfl) hkicks hnext
  · -- a label stands in front of the first store, or at it
    have hi0 : i ≤ plan.storeIndices 0 := by
      by_contra hlt
      exact hspec.noLabel i (by omega) hie label hlab hmem
    refine h.sound hsi.le hi0 (sound_holding (scanConstants instructions startIndex k i) s.ctx)
      (fun slot inst hinst reg hreg => ?_) hkicks hnext
    have h0 : plan.storeIndices 0 ≤ plan.storeIndices slot :=
      hspec.mono.monotone (Fin.zero_le slot)
    have hag := hagree _ hspec.firstAccesses i label hsi hi0 hlab hmem _
      (sameKnown_holding _ s.ctx) slot inst hinst reg hreg
    rwa [hspec.readIndex hslots (by omega)] at hag

end

/-- **A plan is sound exactly when its labels agree.** -/
theorem kickSound_iff {internalTargets : List Word} (hdec : Decoded instructions)
    (hv : (tryBuildGifDmaKickPlan instructions startIndex k internalTargets).valid = true) :
    KickSound instructions startIndex internalTargets k
        (tryBuildGifDmaKickPlan instructions startIndex k internalTargets) ↔
      LabelsAgree instructions startIndex internalTargets k :=
  ⟨KickSound.labelsAgree hdec hv (tryBuildGifDmaKickPlan_spec hv),
    LabelsAgree.kickSound hdec hv (tryBuildGifDmaKickPlan_spec hv)⟩

/-- `lui $t0, 0x1001` and the four stores through `$t0`, then a loop back to the first. -/
def kickLoop : List Instruction :=
  [{ address := 0x100, opcode := .lui, rt := 8, immediate := 0x1001 },
    { address := 0x104, opcode := .sw, rs := 8, rt := 4, simmediate := 0xFFFFE020 },
    { address := 0x108, opcode := .sw, rs := 8, rt := 5, simmediate := 0xFFFFE010 },
    { address := 0x10C, opcode := .sw, rs := 8, rt := 6, simmediate := 0xFFFFA030 },
    { address := 0x110, opcode := .sw, rs := 8, rt := 7, simmediate := 0xFFFFA000 },
    { address := 0x114, opcode := .bne, rs := 2, simmediate := 0xFFFFFFFB, isBranch := true,
      hasDelaySlot := true },
    { address := 0x118 }]

theorem kickLoop_decoded : Decoded kickLoop := by
  intro inst hi
  simp only [kickLoop, List.mem_cons, List.not_mem_nil, or_false] at hi
  rcases hi with rfl | rfl | rfl | rfl | rfl | rfl | rfl
  · exact ⟨fun _ => rfl, fun h => by cases h⟩
  · exact ⟨fun _ => rfl, fun _ _ _ _ _ _ => rfl⟩
  · exact ⟨fun _ => rfl, fun _ _ _ _ _ _ => rfl⟩
  · exact ⟨fun _ => rfl, fun _ _ _ _ _ _ => rfl⟩
  · exact ⟨fun _ => rfl, fun _ _ _ _ _ _ => rfl⟩
  · exact ⟨fun h => (by cases h), fun _ _ _ _ _ _ => rfl⟩
  · exact ⟨fun _ => rfl, fun _ _ _ _ _ _ => rfl⟩

/-- The loop back to `lui` sets the base register again. -/
theorem kickLoop_sound :
    (tryBuildGifDmaKickPlan kickLoop 0 .clear [0x100]).valid = true ∧
      KickSound kickLoop 0 [0x100] .clear (tryBuildGifDmaKickPlan kickLoop 0 .clear [0x100]) := by
  refine ⟨by decide, (kickSound_iff kickLoop_decoded (by decide)).2 ?_⟩
  intro idx hidx i label hi0 hi hlab hmem
  obtain ⟨n, rfl⟩ : ∃ n, i = n + 1 := ⟨i - 1, by omega⟩
  have htail : ∀ x ∈ kickLoop.tail, x.address ∉ [0x100#32] := by decide
  exact absurd hmem (htail label (List.mem_of_getElem? (show kickLoop.tail[n]? = some label from hlab)))

/-- **A label at the first store.** A run that comes to `0x104` with zero in `$t0` would store
to `0xFFFFE020` and kicks the channel instead. -/
theorem kickLoop_not_sound :
    (tryBuildGifDmaKickPlan kickLoop 0 .clear [0x104]).valid = true ∧ Decoded kickLoop ∧
      ¬ KickSound kickLoop 0 [0x104] .clear (tryBuildGifDmaKickPlan kickLoop 0 .clear [0x104]) := by
  refine ⟨by decide, kickLoop_decoded, fun h => ?_⟩
  obtain ⟨vs, -, hall⟩ := h.2 Unit Runtime.idle { analyzer := ⟨[], []⟩ } { entryPoints := [0x104] }
    rfl (fun _ _ => ⟨rfl, rfl⟩) (fun x hx => (kickLoop_decoded x hx).2) 1 (.entered 0x104 0)
    (.inr ⟨by decide, by decide, _, rfl, by decide⟩) rfl rfl
  obtain ⟨inst, hx, -, haddr, -⟩ := hall 0
  cases hx
  exact absurd haddr (by decide)

end FunctionEmitter

end Ps2Recomp
