import Ps2Recomp.Spec.Kick

/-!
# What a kick plan says

`tryBuildGifDmaKickPlan` returns a valid plan only when its scan has matched four stores.

* `scanConstants`: what the scan knows at an index.
* `Matched`: a slot of the plan holds a store with the address of the slot, and its value.
* `PlanSpec`, `tryBuildGifDmaKickPlan_spec`: the slots of a valid plan are matched, in
  order, and no label stands after the first of them.
-/

namespace Ps2Recomp

variable {instructions : List Instruction} {startIndex : ℕ} {internalTargets : List Word}
  {k₀ k : ConstantRegisterState} {plan plan' : GifDmaKickPlan}

/-- The constants of the scan in front of index `j`. -/
def scanConstants (instructions : List Instruction) (startIndex : ℕ) (k₀ : ConstantRegisterState)
    (j : ℕ) : ConstantRegisterState :=
  ((instructions.drop startIndex).take (j - startIndex)).foldl (fun k inst => updateConstantRegisters inst k) k₀

theorem scanConstants_start : scanConstants instructions startIndex k₀ startIndex = k₀ := by
  simp [scanConstants]

variable {inst : Instruction} {j : ℕ}

theorem scanConstants_succ (hj : startIndex ≤ j) (hi : instructions[j]? = some inst) :
    scanConstants instructions startIndex k₀ (j + 1) =
      updateConstantRegisters inst (scanConstants instructions startIndex k₀ j) := by
  have hget : (instructions.drop startIndex)[j - startIndex]? = some inst := by
    rw [List.getElem?_drop, show startIndex + (j - startIndex) = j by omega]
    exact hi
  unfold scanConstants
  rw [show j + 1 - startIndex = j - startIndex + 1 by omega, List.take_add_one, hget,
    Option.toList_some, List.foldl_append]
  rfl

/-- Slot `slot` of the plan holds a store to the address of the slot, where `k` is known at
the store, with its value: a literal if the register is known, else a capture. -/
structure Matched (instructions : List Instruction) (k : ConstantRegisterState)
    (plan : GifDmaKickPlan) (slot : Fin 4) (inst : Instruction) : Prop where
  index : instructions[plan.storeIndices slot]? = some inst
  opcode : inst.opcode = .sw
  address : (k.read inst.rs).map (· + inst.simmediate) = some (kTargets slot)
  value : match k.read inst.rt with
    | some v => plan.values slot = .literal v
    | none => plan.values slot = .temp inst.address slot ∧ plan.captures slot = some inst.rt

variable {slot : Fin 4}

theorem tryMatchGifDmaStore_spec {index : ℕ} (hi : instructions[index]? = some inst)
    (h : tryMatchGifDmaStore index inst (resolveMemoryAccessHint inst k) k slot plan = some plan') :
    Matched instructions k plan' slot inst ∧ plan'.storeIndices slot = index ∧
      (∀ i, i ≠ slot → plan'.storeIndices i = plan.storeIndices i ∧
        plan'.values i = plan.values i ∧ plan'.captures i = plan.captures i) ∧
      plan'.branchIndex = plan.branchIndex ∧
      plan'.completesInDelaySlot = plan.completesInDelaySlot := by
  unfold tryMatchGifDmaStore at h
  split at h
  · rename_i hm
    have haddr : (k.read inst.rs).map (· + inst.simmediate) = some (kTargets slot) := by
      have hd : isDirectMemoryAccess inst = true := by simp [isDirectMemoryAccess, hm.1]
      have h2 := hm.2
      unfold resolveMemoryAccessHint at h2
      rwa [if_pos hd] at h2
    have hother : ∀ {β : Type} (f : Fin 4 → β) (v : β) (i : Fin 4), i ≠ slot →
        Function.update f slot v i = f i := fun f v i hne => Function.update_of_ne hne v f
    split at h
    · rename_i v hv
      cases h
      refine ⟨⟨?_, hm.1, haddr, ?_⟩, ?_, fun i hne => ⟨hother _ _ i hne, hother _ _ i hne, rfl⟩, rfl, rfl⟩
      · simpa using hi
      · simp [hv]
      · simp
    · rename_i hv
      cases h
      refine ⟨⟨?_, hm.1, haddr, ?_⟩, ?_, fun i hne => ⟨hother _ _ i hne, hother _ _ i hne, hother _ _ i hne⟩, rfl, rfl⟩
      · simpa using hi
      · simp [hv]
      · simp
  · cases h

theorem Matched.mono (h : Matched instructions k plan slot inst)
    (hs : plan'.storeIndices slot = plan.storeIndices slot ∧ plan'.values slot = plan.values slot ∧
      plan'.captures slot = plan.captures slot) : Matched instructions k plan' slot inst := by
  obtain ⟨h1, h2, h3, h4⟩ := h
  rw [← hs.1] at h1
  rw [← hs.2.1, ← hs.2.2] at h4
  exact ⟨h1, h2, h3, h4⟩

/-- Where the registers of a store are read: in front of the store, or of the return whose
delay slot it is in. -/
def GifDmaKickPlan.position (plan : GifDmaKickPlan) (slot : Fin 4) : ℕ :=
  if plan.completesInDelaySlot && slot == 3 then plan.storeIndices slot - 1
  else plan.storeIndices slot

/-- A valid plan that a scan from `startIndex` with the constants `k₀` has found. -/
structure PlanSpec (instructions : List Instruction) (startIndex : ℕ) (internalTargets : List Word)
    (k₀ : ConstantRegisterState) (plan : GifDmaKickPlan) : Prop where
  matched : ∀ i, ∃ inst, Matched instructions (scanConstants instructions startIndex k₀ (plan.position i)) plan i inst
  start_le : ∀ i, startIndex ≤ plan.position i
  before : ∀ i i', i < i' → plan.storeIndices i < plan.position i'
  endIndex : plan.endIndex = plan.storeIndices 3
  branch : plan.completesInDelaySlot = true →
    plan.branchIndex = some (plan.position 3) ∧ plan.endIndex = plan.position 3 + 1 ∧
      ∃ inst delayInst, instructions[plan.position 3]? = some inst ∧
        isReturnWithDelaySlot inst = true ∧
        instructions[plan.position 3 + 1]? = some delayInst ∧ delayInst.address = inst.address + 4
  noLabel : ∀ n, plan.storeIndices 0 < n → n ≤ plan.endIndex →
    ∀ inst, instructions[n]? = some inst → inst.address ∉ internalTargets
  access : ∀ n, startIndex ≤ n → n ≤ plan.endIndex → ∀ inst, instructions[n]? = some inst →
    isDirectMemoryAccess inst = true → ∃ i, plan.storeIndices i = n
  plain : ∀ n, startIndex ≤ n → n < plan.position 3 → ∀ inst, instructions[n]? = some inst →
    isDirectMemoryAccess inst = true ∨ inst.hasDelaySlot = false

/-- The scan in front of index `j` with `slot` stores matched. -/
structure ScanInv (instructions : List Instruction) (startIndex : ℕ) (internalTargets : List Word)
    (k₀ : ConstantRegisterState) (j : ℕ) (slot : Fin 4) (plan : GifDmaKickPlan) : Prop where
  start_le : startIndex ≤ j
  matched : ∀ i < slot, ∃ inst,
    Matched instructions (scanConstants instructions startIndex k₀ (plan.storeIndices i)) plan i inst
  bounds : ∀ i < slot, startIndex ≤ plan.storeIndices i ∧ plan.storeIndices i < j
  ordered : ∀ i i', i < i' → i' < slot → plan.storeIndices i < plan.storeIndices i'
  noLabel : 0 < slot → ∀ n, plan.storeIndices 0 < n → n < j →
    ∀ inst, instructions[n]? = some inst → inst.address ∉ internalTargets
  branch : plan.branchIndex = none ∧ plan.completesInDelaySlot = false
  access : ∀ n, startIndex ≤ n → n < j → ∀ inst, instructions[n]? = some inst →
    isDirectMemoryAccess inst = true → ∃ i < slot, plan.storeIndices i = n
  plain : ∀ n, startIndex ≤ n → n < j → ∀ inst, instructions[n]? = some inst →
    isDirectMemoryAccess inst = true ∨ inst.hasDelaySlot = false

theorem ScanInv.finish {j index : ℕ} (h : ScanInv instructions startIndex internalTargets k₀ j 3 plan)
    (hk : k = scanConstants instructions startIndex k₀ j) (hi : instructions[index]? = some inst)
    (hm : tryMatchGifDmaStore index inst (resolveMemoryAccessHint inst k) k 3 plan = some plan') :
    (∀ i < 3, plan'.storeIndices i = plan.storeIndices i) ∧ plan'.storeIndices 3 = index ∧
      (∀ i < 3, ∃ inst, Matched instructions
        (scanConstants instructions startIndex k₀ (plan'.storeIndices i)) plan' i inst) ∧
      (∃ inst, Matched instructions (scanConstants instructions startIndex k₀ j) plan' 3 inst) := by
  obtain ⟨hmat, hidx, hother, -, -⟩ := tryMatchGifDmaStore_spec hi hm
  refine ⟨fun i hlt => (hother i hlt.ne).1, hidx, fun i hlt => ?_, inst, hk ▸ hmat⟩
  obtain ⟨x, hx⟩ := h.matched i hlt
  rw [(hother i hlt.ne).1]
  exact ⟨x, hx.mono (hother i hlt.ne)⟩

theorem suppresses_iff {i : ℕ} : plan.suppresses i = true ↔ plan.valid = true ∧ ∃ slot, plan.storeIndices slot = i := by
  unfold GifDmaKickPlan.suppresses
  simp

theorem slot_cases (i : Fin 4) : i < 3 ∨ i = 3 := lt_or_eq_of_le (Fin.le_last i)

theorem ScanInv.spec_store (h : ScanInv instructions startIndex internalTargets k₀ j 3 plan)
    (hk : k = scanConstants instructions startIndex k₀ j) (hi : instructions[j]? = some inst)
    (hlab : inst.address ∉ internalTargets ∨ j = startIndex)
    (hm : tryMatchGifDmaStore j inst (resolveMemoryAccessHint inst k) k 3 plan = some plan') :
    PlanSpec instructions startIndex internalTargets k₀
      { plan' with valid := true, endIndex := j } := by
  obtain ⟨hidx, hlast, hmat, hmat3⟩ := h.finish hk hi hm
  have hflags : plan'.completesInDelaySlot = false :=
    (tryMatchGifDmaStore_spec hi hm).2.2.2.2.trans h.branch.2
  have hpos : ∀ i, GifDmaKickPlan.position { plan' with valid := true, endIndex := j } i =
      plan'.storeIndices i := by
    intro i
    unfold GifDmaKickPlan.position
    simp [hflags]
  have hbound : ∀ i < 3, startIndex ≤ plan'.storeIndices i ∧ plan'.storeIndices i < j := by
    intro i hlt
    rw [hidx i hlt]
    exact h.bounds i hlt
  refine ⟨fun i => ?_, fun i => ?_, fun i i' hlt => ?_, hlast.symm, fun hd => ?_, fun n hn hn' => ?_,
    fun n hn hn' x hx hdir => ?_, fun n hn hn' => ?_⟩
  · rw [hpos]
    rcases slot_cases i with hlt | rfl
    · obtain ⟨x, hx⟩ := hmat i hlt
      exact ⟨x, hx.mono ⟨rfl, rfl, rfl⟩⟩
    · obtain ⟨x, hx⟩ := hmat3
      rw [hlast]
      exact ⟨x, hx.mono ⟨rfl, rfl, rfl⟩⟩
  · rw [hpos]
    rcases slot_cases i with hlt | rfl
    · exact (hbound i hlt).1
    · rw [hlast]
      exact h.start_le
  · rw [hpos]
    have hi3 : i < 3 := lt_of_lt_of_le hlt (Fin.le_last i')
    rcases slot_cases i' with hlt' | rfl
    · change plan'.storeIndices i < plan'.storeIndices i'
      rw [hidx i hi3, hidx i' hlt']
      exact h.ordered i i' hlt hlt'
    · rw [hlast]
      exact (hbound i hi3).2
  · change plan'.completesInDelaySlot = true at hd
    rw [hflags] at hd
    cases hd
  · change plan'.storeIndices 0 < n at hn
    change n ≤ j at hn'
    intro x hx
    rcases Nat.lt_or_eq_of_le hn' with hlt | rfl
    · rw [hidx 0 (by decide)] at hn
      exact h.noLabel (by decide) n hn hlt x hx
    · rw [hi] at hx
      cases hx
      have h0 := hbound 0 (by decide)
      exact hlab.resolve_right (by omega)
  · rcases Nat.lt_or_eq_of_le (show n ≤ j from hn') with hlt | rfl
    · obtain ⟨i, hi3, hidx'⟩ := h.access n hn hlt x hx hdir
      exact ⟨i, (hidx i hi3).trans hidx'⟩
    · exact ⟨3, hlast⟩
  · rw [hpos, hlast] at hn'
    exact h.plain n hn hn'

theorem ScanInv.spec_return {inst delayInst : Instruction}
    (h : ScanInv instructions startIndex internalTargets k₀ j 3 plan)
    (hk : k = scanConstants instructions startIndex k₀ j) (hi : instructions[j]? = some inst)
    (hret : isReturnWithDelaySlot inst = true) (hlab : inst.address ∉ internalTargets ∨ j = startIndex)
    (hd : instructions[j + 1]? = some delayInst) (hda : delayInst.address = inst.address + 4)
    (hdl : delayInst.address ∉ internalTargets)
    (hm : tryMatchGifDmaStore (j + 1) delayInst (resolveMemoryAccessHint delayInst k) k 3 plan = some plan') :
    PlanSpec instructions startIndex internalTargets k₀ { plan' with
      valid := true, completesInDelaySlot := true, branchIndex := some j, endIndex := j + 1 } := by
  obtain ⟨hidx, hlast, hmat, hmat3⟩ := h.finish hk hd hm
  have hpos : ∀ i < 3, GifDmaKickPlan.position { plan' with
      valid := true, completesInDelaySlot := true, branchIndex := some j, endIndex := j + 1 } i =
      plan'.storeIndices i := by
    intro i hlt
    unfold GifDmaKickPlan.position
    simp [hlt.ne]
  have hpos3 : GifDmaKickPlan.position { plan' with
      valid := true, completesInDelaySlot := true, branchIndex := some j, endIndex := j + 1 } 3 =
      j := by
    unfold GifDmaKickPlan.position
    simp [hlast]
  have hbound : ∀ i < 3, startIndex ≤ plan'.storeIndices i ∧ plan'.storeIndices i < j := by
    intro i hlt
    rw [hidx i hlt]
    exact h.bounds i hlt
  refine ⟨fun i => ?_, fun i => ?_, fun i i' hlt => ?_, hlast.symm, fun _ => ?_, fun n hn hn' => ?_,
    fun n hn hn' x hx hdir => ?_, fun n hn hn' => ?_⟩
  · rcases slot_cases i with hlt | rfl
    · rw [hpos i hlt]
      obtain ⟨x, hx⟩ := hmat i hlt
      exact ⟨x, hx.mono ⟨rfl, rfl, rfl⟩⟩
    · rw [hpos3]
      obtain ⟨x, hx⟩ := hmat3
      exact ⟨x, hx.mono ⟨rfl, rfl, rfl⟩⟩
  · rcases slot_cases i with hlt | rfl
    · rw [hpos i hlt]
      exact (hbound i hlt).1
    · rw [hpos3]
      exact h.start_le
  · have hi3 : i < 3 := lt_of_lt_of_le hlt (Fin.le_last i')
    rcases slot_cases i' with hlt' | rfl
    · rw [hpos i' hlt']
      change plan'.storeIndices i < plan'.storeIndices i'
      rw [hidx i hi3, hidx i' hlt']
      exact h.ordered i i' hlt hlt'
    · rw [hpos3]
      exact (hbound i hi3).2
  · rw [hpos3]
    exact ⟨rfl, rfl, inst, delayInst, hi, hret, hd, hda⟩
  · change plan'.storeIndices 0 < n at hn
    change n ≤ j + 1 at hn'
    have h0 := hbound 0 (by decide)
    intro x hx
    rcases Nat.lt_or_eq_of_le hn' with hlt | rfl
    · rcases Nat.lt_or_eq_of_le (Nat.le_of_lt_succ hlt) with hlt | rfl
      · rw [hidx 0 (by decide)] at hn
        exact h.noLabel (by decide) n hn hlt x hx
      · rw [hi] at hx
        cases hx
        exact hlab.resolve_right (by omega)
    · rw [hd] at hx
      cases hx
      exact hdl
  · rcases Nat.lt_or_eq_of_le (show n ≤ j + 1 from hn') with hlt | rfl
    · rcases Nat.lt_or_eq_of_le (Nat.le_of_lt_succ hlt) with hlt | rfl
      · obtain ⟨i, hi3, hidx'⟩ := h.access n hn hlt x hx hdir
        exact ⟨i, (hidx i hi3).trans hidx'⟩
      · -- the return itself is no access
        rw [hi] at hx
        cases hx
        have hop : inst.opcode = .special := by
          unfold isReturnWithDelaySlot at hret
          simp only [Bool.and_eq_true, beq_iff_eq] at hret
          exact hret.1.1.1
        unfold isDirectMemoryAccess at hdir
        rw [hop] at hdir
        cases hdir
    · exact ⟨3, hlast⟩
  · rw [hpos3] at hn'
    exact h.plain n hn hn'

theorem ScanInv.store (h : ScanInv instructions startIndex internalTargets k₀ j slot plan)
    (hk : k = scanConstants instructions startIndex k₀ j) (hi : instructions[j]? = some inst)
    (hlab : 0 < slot → inst.address ∉ internalTargets ∨ j = startIndex) (hs : slot ≠ 3)
    (hdir : isDirectMemoryAccess inst = true)
    (hm : tryMatchGifDmaStore j inst (resolveMemoryAccessHint inst k) k slot plan = some plan') :
    ScanInv instructions startIndex internalTargets k₀ (j + 1) (slot + 1) plan' := by
  obtain ⟨hmat, hidx, hother, hb, hc⟩ := tryMatchGifDmaStore_spec hi hm
  have hv : (slot + 1).val = slot.val + 1 :=
    Fin.val_add_one_of_lt (lt_of_le_of_ne (Fin.le_last slot) hs)
  have hslot : slot < slot + 1 := by
    rw [Fin.lt_def, hv]
    omega
  have hcases : ∀ i : Fin 4, i < slot + 1 → i < slot ∨ i = slot := by
    intro i hlt
    rw [Fin.lt_def, hv] at hlt
    rcases Nat.lt_or_eq_of_le (Nat.le_of_lt_succ hlt) with h | h
    · exact .inl h
    · exact .inr (Fin.ext h)
  refine ⟨by have := h.start_le; omega, fun i hlt => ?_, fun i hlt => ?_, fun i i' hlt hlt' => ?_,
    fun _ n hn hn' x hx => ?_, ⟨hb.trans h.branch.1, hc.trans h.branch.2⟩,
    fun n hn hn' x hx hd => ?_, fun n hn hn' x hx => ?_⟩
  · rcases hcases i hlt with hlt | rfl
    · obtain ⟨x, hx⟩ := h.matched i hlt
      rw [(hother i hlt.ne).1]
      exact ⟨x, hx.mono (hother i hlt.ne)⟩
    · rw [hidx, ← hk]
      exact ⟨inst, hmat⟩
  · rcases hcases i hlt with hlt | rfl
    · rw [(hother i hlt.ne).1]
      have := h.bounds i hlt
      omega
    · rw [hidx]
      have := h.start_le
      omega
  · rcases hcases i' hlt' with hlt' | rfl
    · rw [(hother i (hlt.trans hlt').ne).1, (hother i' hlt'.ne).1]
      exact h.ordered i i' hlt hlt'
    · rw [hidx, (hother i hlt.ne).1]
      exact (h.bounds i hlt).2
  · -- a label may stand at the first store, and before it
    by_cases hs0 : slot = 0
    · subst hs0
      rw [hidx] at hn
      omega
    · have hpos : 0 < slot := Fin.pos_iff_ne_zero.2 hs0
      rw [(hother 0 hpos.ne).1] at hn
      rcases Nat.lt_or_eq_of_le (Nat.le_of_lt_succ hn') with hlt | rfl
      · exact h.noLabel hpos n hn hlt x hx
      · rw [hi] at hx
        cases hx
        have h0 := h.bounds 0 hpos
        exact (hlab hpos).resolve_right (by omega)
  · rcases Nat.lt_or_eq_of_le (Nat.le_of_lt_succ hn') with hlt | rfl
    · obtain ⟨i, hi', hidx'⟩ := h.access n hn hlt x hx hd
      exact ⟨i, hi'.trans hslot, (hother i hi'.ne).1.trans hidx'⟩
    · exact ⟨slot, hslot, hidx⟩
  · rcases Nat.lt_or_eq_of_le (Nat.le_of_lt_succ hn') with hlt | rfl
    · exact h.plain n hn hlt x hx
    · rw [hi] at hx
      cases hx
      exact .inl hdir

theorem ScanInv.skip (h : ScanInv instructions startIndex internalTargets k₀ j slot plan)
    (hi : instructions[j]? = some inst) (hlab : 0 < slot → inst.address ∉ internalTargets ∨ j = startIndex)
    (hdir : isDirectMemoryAccess inst = false) (hds : inst.hasDelaySlot = false) :
    ScanInv instructions startIndex internalTargets k₀ (j + 1) slot plan := by
  refine ⟨by have := h.start_le; omega, h.matched, fun i hlt => ?_, h.ordered,
    fun hpos n hn hn' x hx => ?_, h.branch, fun n hn hn' x hx hd => ?_, fun n hn hn' x hx => ?_⟩
  · have := h.bounds i hlt
    omega
  · rcases Nat.lt_or_eq_of_le (Nat.le_of_lt_succ hn') with hlt | rfl
    · exact h.noLabel hpos n hn hlt x hx
    · rw [hi] at hx
      cases hx
      have h0 := h.bounds 0 hpos
      exact (hlab hpos).resolve_right (by omega)
  · rcases Nat.lt_or_eq_of_le (Nat.le_of_lt_succ hn') with hlt | rfl
    · exact h.access n hn hlt x hx hd
    · rw [hi] at hx
      cases hx
      rw [hdir] at hd
      cases hd
  · rcases Nat.lt_or_eq_of_le (Nat.le_of_lt_succ hn') with hlt | rfl
    · exact h.plain n hn hlt x hx
    · rw [hi] at hx
      cases hx
      exact .inr hds

/-- **What a scan returns.** -/
theorem scanGifDmaKick_spec {fuel j : ℕ} (h : ScanInv instructions startIndex internalTargets k₀ j slot plan)
    (hk : k = scanConstants instructions startIndex k₀ j)
    (hv : (scanGifDmaKick instructions startIndex internalTargets fuel j k slot plan).valid = true) :
    PlanSpec instructions startIndex internalTargets k₀
      (scanGifDmaKick instructions startIndex internalTargets fuel j k slot plan) := by
  induction fuel generalizing j k slot plan with
  | zero => cases hv
  | succ fuel ih =>
    unfold scanGifDmaKick at hv ⊢
    split at hv
    · cases hv
    rename_i inst hinst
    have hnext : updateConstantRegisters inst k = scanConstants instructions startIndex k₀ (j + 1) := by
      rw [hk, scanConstants_succ h.start_le hinst]
    split at hv
    · cases hv
    rename_i hlab'
    have hlab : 0 < slot → inst.address ∉ internalTargets ∨ j = startIndex := by
      intro hs
      by_contra hcon
      rw [not_or, not_not] at hcon
      exact hlab' ⟨hcon.2, hs, hcon.1⟩
    rw [if_neg hlab']
    split at hv
    · rename_i hdirect
      rw [if_pos hdirect]
      split at hv
      · cases hv
      rename_i plan' hm
      split at hv
      · rename_i hs
        subst hs
        exact h.spec_store hk hinst (hlab (by decide)) hm
      · rename_i hs
        rw [if_neg hs]
        exact ih (h.store hk hinst hlab hs hdirect hm) hnext hv
    · rename_i hdirect
      rw [if_neg hdirect]
      split at hv
      · rename_i hret
        rw [if_pos hret]
        split at hv
        · cases hv
        rename_i delayInst hd
        split at hv
        · cases hv
        rename_i hcond
        rw [if_neg hcond]
        simp only [not_or, not_not] at hcond
        obtain ⟨rfl, hda, hdl⟩ := hcond
        split at hv
        · cases hv
        rename_i plan' hm
        exact h.spec_return hk hinst hret (hlab (by decide)) hd hda hdl hm
      · rename_i hret
        rw [if_neg hret]
        split at hv
        · cases hv
        · rename_i hctl
          rw [if_neg hctl]
          simp only [Bool.or_eq_true, not_or, Bool.not_eq_true] at hctl
          exact ih (h.skip hinst hlab (by simpa using hdirect) hctl.1.1.1) hnext hv

/-- **A valid plan is what its scan has matched.** -/
theorem tryBuildGifDmaKickPlan_spec
    (hv : (tryBuildGifDmaKickPlan instructions startIndex k₀ internalTargets).valid = true) :
    PlanSpec instructions startIndex internalTargets k₀
      (tryBuildGifDmaKickPlan instructions startIndex k₀ internalTargets) := by
  unfold tryBuildGifDmaKickPlan at hv ⊢
  split at hv
  · cases hv
  · rename_i hlen
    rw [if_neg hlen]
    refine scanGifDmaKick_spec ?_ scanConstants_start.symm hv
    have hnot : ∀ i : Fin 4, ¬ i < 0 := fun i => Fin.not_lt_zero i
    exact ⟨le_rfl, fun i hi => absurd hi (hnot i), fun i hi => absurd hi (hnot i),
      fun i i' _ hi => absurd hi (hnot i'), fun h => absurd h (hnot 0), ⟨rfl, rfl⟩,
      fun n hn hn' => by omega, fun n hn hn' => by omega⟩

/-- A plan that is not valid, or was found by a scan. -/
def GifDmaKickPlan.Scanned (instructions : List Instruction) (internalTargets : List Word)
    (plan : GifDmaKickPlan) : Prop :=
  plan.valid = true → ∃ startIndex k₀, PlanSpec instructions startIndex internalTargets k₀ plan

/-- A plan suppresses stores only. -/
theorem GifDmaKickPlan.Scanned.opcode (h : plan.Scanned instructions internalTargets) {i : ℕ}
    (hs : plan.suppresses i = true) (hi : instructions[i]? = some inst) : inst.opcode = .sw := by
  obtain ⟨hv, slot, rfl⟩ := suppresses_iff.1 hs
  obtain ⟨startIndex, k₀, hspec⟩ := h hv
  obtain ⟨x, hx⟩ := hspec.matched slot
  have hidx := hx.index
  rw [hi] at hidx
  cases hidx
  exact hx.opcode

end Ps2Recomp
