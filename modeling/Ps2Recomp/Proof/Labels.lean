import Ps2Recomp.Proof.Targets

/-!
# Labels

Every label that an emitted function jumps to is defined in it exactly once.

Labels stand in three places: in front of an instruction, in front of a decoded delay
slot, which the emission loop skips, and at the end of a branch (`label_fallthrough`).
Jumps come from branches, jump tables, the entry switch and the delay slot resume.

* `count_at`: an entry point has as many labels as decoded instructions.
* `count_fallthrough`: a fall through label stands in the block of its branch only.
* `emit_closed`: hence every jump has its one label.
* `code_closed`: so do the functions of a recompiler run.
-/

namespace Ps2Recomp

open Goto

/-! ## The jumps of a branch -/

namespace ControlFlowEmitter

variable {e : ControlFlowEmitter}

/-- The addresses that a branch jumps to inside its function. -/
def targets (e : ControlFlowEmitter) : List Word :=
  if e.branchInst.isStaticJump then [e.branchInst.jumpTarget].filter e.isInternalTarget
  else if e.branchInst.isJr || e.branchInst.isJalr then e.resolvedLocalIndirectTargets
  else if e.branchInst.isBranch then [e.branchInst.branchTarget].filter e.isInternalTarget
  else []

/-- Where a branch goes on after it was entered at its delay slot. -/
def resumeLabels (e : ControlFlowEmitter) : List Label :=
  if e.isInternalTarget e.delayPc then
    [if e.isInternalTarget e.fallthroughPc then .at e.fallthroughPc else .fallthrough e.branchPc]
  else []

theorem emitDelaySlot_gotos (ho : e.delaySlotOverride.flatMap Stmt.gotos = []) :
    e.emitDelaySlot.flatMap Stmt.gotos = [] := by
  unfold emitDelaySlot delaySlotCode
  split
  · rfl
  · split <;> simp [Stmt.gotos, ho]

theorem emitInternalTarget_gotos (t source : Word) : (e.emitInternalTarget t source).flatMap Stmt.gotos = [.at t] := by
  unfold emitInternalTarget
  split <;> simp [Stmt.gotos]

theorem emitTaken_gotos : e.emitTaken.flatMap Stmt.gotos =
    ([e.branchInst.branchTarget].filter e.isInternalTarget).map .at := by
  unfold emitTaken
  dsimp only
  split
  · rename_i hi
    rw [emitInternalTarget_gotos, List.filter_cons_of_pos hi]
    rfl
  · rename_i hi
    rw [List.filter_cons_of_neg hi]
    rfl

theorem emitStaticJump_gotos (ho : e.delaySlotOverride.flatMap Stmt.gotos = []) (isCall : Bool) :
    (e.emitStaticJump isCall).flatMap Stmt.gotos = ([e.branchInst.jumpTarget].filter e.isInternalTarget).map .at := by
  have hlink : (if isCall then [Stmt.setGprU32 31 e.fallthroughPc] else []).flatMap Stmt.gotos = [] := by split <;> rfl
  unfold emitStaticJump Instruction.jumpTarget
  simp only [List.flatMap_append, hlink, emitDelaySlot_gotos ho, List.nil_append]
  split
  · rename_i hi
    rw [emitInternalTarget_gotos, List.filter_cons_of_pos hi]
    rfl
  · rename_i hi
    rw [List.filter_cons_of_neg hi]
    split
    · split <;> simp [Stmt.gotos]
    · split <;> simp [Stmt.gotos]

theorem flatMap_gotos_map (l : List Stmt) : (l.map BlockItem.stmt).flatMap BlockItem.gotos = l.flatMap Stmt.gotos := by
  rw [List.flatMap_map]; rfl

section

variable (ho : e.delaySlotOverride.flatMap Stmt.gotos = [])

include ho

theorem emitRegisterJump_gotos (isCall : Bool) :
    (e.emitRegisterJump isCall).flatMap BlockItem.gotos = e.resolvedLocalIndirectTargets.map .at := by
  have hlink : (if isCall && e.branchInst.rd != 0 then
      [BlockItem.stmt (.setGprU32 e.branchInst.rd e.fallthroughPc)] else []).flatMap
        BlockItem.gotos = [] := by split <;> rfl
  have hswitch : (if e.resolvedLocalIndirectTargets ≠ [] then
      [BlockItem.switchTarget e.resolvedLocalIndirectTargets] else []).flatMap BlockItem.gotos =
        e.resolvedLocalIndirectTargets.map .at := by
    split
    · rw [List.flatMap_singleton]
      rfl
    · rename_i h
      rw [not_not.1 h]
      rfl
  unfold emitRegisterJump
  simp only [List.flatMap_append, flatMap_gotos_map, emitDelaySlot_gotos ho, hlink, hswitch]
  split
  · simp [BlockItem.gotos, Stmt.gotos]
  · split <;> simp [BlockItem.gotos, Stmt.gotos]

theorem emitConditionalBranch_gotos : e.emitConditionalBranch.flatMap BlockItem.gotos =
    ([e.branchInst.branchTarget].filter e.isInternalTarget).map .at := by
  have hlink : (if e.linksIfTaken then [Stmt.setGprU32 31 e.fallthroughPc]
      else []).flatMap Stmt.gotos = [] := by split <;> rfl
  have halways : (if e.linksAlways then [BlockItem.stmt (.setGprU32 31 e.fallthroughPc)]
      else []).flatMap BlockItem.gotos = [] := by split <;> rfl
  have htaken : (if e.linksIfTaken then [BlockItem.ifTaken (if e.linksIfTaken then
      [.setGprU32 31 e.fallthroughPc] else [])] else []).flatMap BlockItem.gotos = [] := by
    split <;> rfl
  unfold emitConditionalBranch
  simp only [List.flatMap_append, halways]
  split
  · simp only [List.flatMap_singleton, BlockItem.gotos, List.flatMap_append, hlink,
      emitDelaySlot_gotos ho, emitTaken_gotos, List.nil_append, Stmt.gotos]
  · simp only [List.flatMap_append, htaken, flatMap_gotos_map, emitDelaySlot_gotos ho,
      List.flatMap_singleton, BlockItem.gotos, emitTaken_gotos, List.nil_append, Stmt.gotos]

end

theorem flatMap_item_gotos_map (l : List Stmt) : (l.map Item.stmt).flatMap Item.gotos = l.flatMap Stmt.gotos := by
  rw [List.flatMap_map]; rfl

section

variable (ho : e.delaySlotOverride.flatMap Stmt.gotos = [])

include ho

theorem emitTransfer_gotos : e.emitTransfer.flatMap Item.gotos = e.targets.map .at := by
  unfold emitTransfer targets
  split
  · rw [flatMap_item_gotos_map, emitStaticJump_gotos ho]
  · split
    · rw [List.flatMap_singleton]
      exact emitRegisterJump_gotos ho _
    · split
      · rw [List.flatMap_singleton]
        exact emitConditionalBranch_gotos ho
      · rw [flatMap_item_gotos_map, List.flatMap_cons, emitDelaySlot_gotos ho]
        rfl

/-- **The jumps of a branch.** -/
theorem emit_gotos : e.emit.flatMap Item.gotos = e.resumeLabels ++ e.targets.map .at := by
  have hresume : e.emitResumeFromDelaySlotEntry.flatMap Item.gotos = e.resumeLabels := by
    unfold emitResumeFromDelaySlotEntry resumeLabels
    cases e.isInternalTarget e.delayPc with
    | false => rfl
    | true => simp [Item.gotos, emitDelaySlot_gotos ho, Stmt.gotos]
  have hfall : e.emitFallthroughLabelIfNeeded.flatMap Item.gotos = [] := by
    unfold emitFallthroughLabelIfNeeded
    split <;> rfl
  unfold emit
  simp only [List.flatMap_append, hresume, emitTransfer_gotos ho, hfall, List.flatMap_singleton,
    Item.gotos, Stmt.gotos, List.append_nil]

end

theorem mem_targets {t : Word} (h : t ∈ e.targets) :
    e.isInternalTarget t = true ∨ t ∈ e.resolvedLocalIndirectTargets := by
  unfold targets at h
  split at h
  · exact .inl (List.mem_filter.1 h).2
  · split at h
    · exact .inr h
    · split at h
      · exact .inl (List.mem_filter.1 h).2
      · cases h

/-! ## The labels of a branch -/

theorem filterMap_labelOf_map (l : List Stmt) : (l.map Item.stmt).filterMap Item.labelOf = [] := by
  rw [List.filterMap_map]
  exact List.filterMap_eq_nil_iff.2 fun _ _ => rfl

theorem emitTransfer_labels : e.emitTransfer.filterMap Item.labelOf = [] := by
  unfold emitTransfer
  split
  · exact filterMap_labelOf_map _
  · split
    · rfl
    · split
      · rfl
      · exact filterMap_labelOf_map _

theorem emit_labels : e.emit.filterMap Item.labelOf =
    if e.isInternalTarget e.delayPc && !e.isInternalTarget e.fallthroughPc then
      [.fallthrough e.branchPc] else [] := by
  have hres : e.emitResumeFromDelaySlotEntry.filterMap Item.labelOf = [] := by
    unfold emitResumeFromDelaySlotEntry
    split <;> rfl
  unfold emit emitFallthroughLabelIfNeeded
  simp only [List.filterMap_append, hres, emitTransfer_labels]
  split <;> rfl

end ControlFlowEmitter

/-! ## The labels of a function -/

namespace FunctionEmitter

variable {cg : CodeGenerator} {fn : Function} {instructions : List Instruction}
  {ar : AnalysisResult} {b : Block}

theorem gifDmaDelaySlotOverride_gotos (plan : GifDmaKickPlan) :
    (gifDmaDelaySlotOverride plan).flatMap Stmt.gotos = [] := by
  unfold gifDmaDelaySlotOverride emitGifDmaCapture gifDmaKickCall
  split
  · rfl
  · split <;> rfl

theorem Block.override_gotos : (b.emitter cg ar).delaySlotOverride.flatMap Stmt.gotos = [] := by
  unfold Block.emitter branchEmitter
  dsimp only
  split
  · exact gifDmaDelaySlotOverride_gotos _
  · rfl

variable (a : Word)

theorem hookBefore_gotos : (hookBefore cg a).flatMap Item.gotos = [] := by
  unfold hookBefore
  split <;> rfl

theorem hookAfter_gotos : (hookAfter cg a).flatMap Item.gotos = [] := by
  unfold hookAfter
  split <;> rfl

theorem labelFor_gotos : (labelFor ar a).flatMap Item.gotos = [] := by
  unfold labelFor
  split <;> rfl

theorem emitPlain_gotos (i : ℕ) (inst : Instruction) (k : ConstantRegisterState)
    (plan : GifDmaKickPlan) : (emitPlain cg i inst k plan).flatMap Item.gotos = [] := by
  have hcap : (emitGifDmaCapture plan (plan.slotFor i)).flatMap Stmt.gotos = [] := by
    unfold emitGifDmaCapture
    split
    · rfl
    · split <;> rfl
  unfold emitPlain
  split
  · rw [List.flatMap_append, ControlFlowEmitter.flatMap_item_gotos_map, hcap]
    split <;> rfl
  · rw [List.flatMap_append, hookAfter_gotos]; rfl

theorem Block.head_gotos : (b.head cg ar).flatMap Item.gotos = [] := by
  unfold Block.head
  simp only [List.flatMap_append, labelFor_gotos, hookBefore_gotos, List.nil_append]
  split
  · exact labelFor_gotos _
  · rfl

theorem Block.code_gotos : (b.code cg ar).flatMap Item.gotos =
    if b.inst.hasDelaySlot then (b.emitter cg ar).resumeLabels ++ (b.emitter cg ar).targets.map .at
    else [] := by
  unfold Block.code Block.core
  rw [List.flatMap_append, Block.head_gotos, List.nil_append]
  split
  · exact ControlFlowEmitter.emit_gotos Block.override_gotos
  · exact emitPlain_gotos _ _ _ _

/-- The fall through label of a block. -/
def Block.hasFallthroughLabel (cg : CodeGenerator) (ar : AnalysisResult) (b : Block) : Bool :=
  b.inst.hasDelaySlot && (b.emitter cg ar).isInternalTarget (b.emitter cg ar).delayPc &&
    !(b.emitter cg ar).isInternalTarget (b.emitter cg ar).fallthroughPc

theorem labelFor_labels : (labelFor ar a).filterMap Item.labelOf = if a ∈ ar.entryPoints then [.at a] else [] := by
  unfold labelFor
  split <;> rfl

theorem hookBefore_labels : (hookBefore cg a).filterMap Item.labelOf = [] := by
  unfold hookBefore
  split <;> rfl

theorem emitPlain_labels (i : ℕ) (inst : Instruction) (k : ConstantRegisterState)
    (plan : GifDmaKickPlan) : (emitPlain cg i inst k plan).filterMap Item.labelOf = [] := by
  unfold emitPlain hookAfter
  split
  · rw [List.filterMap_append, ControlFlowEmitter.filterMap_labelOf_map]
    split <;> rfl
  · split <;> rfl

theorem Block.head_labels : (b.head cg ar).filterMap Item.labelOf =
    (b.addresses.filter (· ∈ ar.entryPoints)).map .at := by
  unfold Block.head Block.addresses Block.slot
  simp only [List.filterMap_append, labelFor_labels, hookBefore_labels, List.append_nil]
  cases b.delaySlot with
  | none => by_cases h1 : b.inst.address ∈ ar.entryPoints <;> simp [h1]
  | some d =>
    by_cases h1 : b.inst.address ∈ ar.entryPoints <;>
      by_cases h2 : d.address ∈ ar.entryPoints <;> simp [h1, h2, labelFor_labels]

/-- **The labels of a block**: its entry points, then its fall through label. -/
theorem Block.code_labels : (b.code cg ar).filterMap Item.labelOf = (b.addresses.filter (· ∈ ar.entryPoints)).map .at ++
      if b.hasFallthroughLabel cg ar then [.fallthrough b.inst.address] else [] := by
  unfold Block.code Block.core Block.hasFallthroughLabel
  rw [List.filterMap_append, Block.head_labels]
  cases hd : b.inst.hasDelaySlot with
  | false => simp [emitPlain_labels]
  | true => rw [if_pos rfl, ControlFlowEmitter.emit_labels]; rfl

theorem flatMap_code_labels (bs : List Block) :
    (bs.flatMap (Block.code cg ar)).filterMap Item.labelOf =
      bs.flatMap fun b => (b.addresses.filter (· ∈ ar.entryPoints)).map Label.at ++
        if b.hasFallthroughLabel cg ar then [.fallthrough b.inst.address] else [] := by
  rw [List.filterMap_flatMap]
  exact List.flatMap_congr fun b _ => Block.code_labels

/-- **An entry point has one label for each instruction at it.** -/
theorem count_at (bs : List Block) {a : Word} (ha : a ∈ ar.entryPoints) :
    ((bs.flatMap (Block.code cg ar)).filterMap Item.labelOf).count (.at a) = (bs.flatMap Block.addresses).count a := by
  rw [flatMap_code_labels]
  induction bs with
  | nil => rfl
  | cons b bs ih =>
    have hinj : Function.Injective Label.at := fun x y h => by cases h; rfl
    have hfall : (if b.hasFallthroughLabel cg ar then [Label.fallthrough b.inst.address]
        else []).count (.at a) = 0 := by split <;> simp
    rw [List.flatMap_cons, List.flatMap_cons, List.count_append, List.count_append, ih,
      List.count_append, hfall, List.count_map_of_injective _ _ hinj,
      List.count_filter (by simpa using ha), Nat.add_zero]

/-- **A fall through label stands in the block of its branch only.** -/
theorem count_fallthrough {bs : List Block} (hnd : (bs.map (·.inst.address)).Nodup) (hb : b ∈ bs)
    (hl : b.hasFallthroughLabel cg ar = true) :
    ((bs.flatMap (Block.code cg ar)).filterMap Item.labelOf).count (.fallthrough b.inst.address) =
      1 := by
  have hcount : ∀ cs : List Block, (cs.flatMap fun b =>
      (b.addresses.filter (· ∈ ar.entryPoints)).map Label.at ++
        if b.hasFallthroughLabel cg ar then [.fallthrough b.inst.address] else []).count (.fallthrough b.inst.address) =
      cs.countP fun c => c.inst.address = b.inst.address && c.hasFallthroughLabel cg ar := by
    intro cs
    induction cs with
    | nil => rfl
    | cons c cs ih =>
      have hat : ((c.addresses.filter (· ∈ ar.entryPoints)).map Label.at).count (.fallthrough b.inst.address) = 0 := by
        rw [List.count_eq_zero]; simp
      rw [List.flatMap_cons, List.count_append, List.count_append, ih, hat, List.countP_cons]
      by_cases h1 : c.inst.address = b.inst.address <;> by_cases h2 : c.hasFallthroughLabel cg ar <;>
        simp [h1, h2, Nat.add_comm]
  rw [flatMap_code_labels, hcount]
  -- only one block has the address of `b`
  have hle : bs.countP (fun c => c.inst.address = b.inst.address && c.hasFallthroughLabel cg ar) ≤
      (bs.map (·.inst.address)).count b.inst.address := by
    rw [List.count, List.countP_map]
    exact List.countP_mono_left fun c _ h => by simpa using (Bool.and_eq_true_iff.1 h).1
  have hone := List.nodup_iff_count_le_one.1 hnd b.inst.address
  have hpos : 0 < bs.countP (fun c => c.inst.address = b.inst.address && c.hasFallthroughLabel cg ar) :=
    List.countP_pos_iff.2 ⟨b, hb, by simp [hl]⟩
  omega

/-! ## Closed functions -/

theorem countP_labelOf (items : List Item) (l : Label) :
    items.countP (fun j => j.labelOf = some l) = (items.filterMap Item.labelOf).count l := by
  rw [List.count, List.countP_filterMap]
  congr 1
  funext j
  cases hj : j.labelOf with
  | none => simp
  | some l' => by_cases h : l' = l <;> simp [h]

theorem emitEntry_labels : (emitEntry cg fn instructions).filterMap Item.labelOf = [] := by
  unfold emitEntry
  split <;> rfl

theorem emitEnd_labels : (emitEnd fn instructions).filterMap Item.labelOf = [] := by
  unfold emitEnd
  split <;> rfl

theorem emit_labels : (emit cg fn instructions).filterMap Item.labelOf = ((blocks cg fn instructions).flatMap
      (Block.code cg (analysisResult cg fn instructions))).filterMap Item.labelOf := by
  rw [emit_eq, List.filterMap_append, List.filterMap_append, emitEntry_labels, emitEnd_labels,
    List.nil_append, List.append_nil]

variable (cg fn instructions) in
theorem blocks_addresses : (blocks cg fn instructions).flatMap Block.addresses =
    instructions.map (·.address) := blocksFrom_addresses _ _ _ _ _

theorem blocks_nodup (hnd : (instructions.map (·.address)).Nodup) :
    ((blocks cg fn instructions).map (·.inst.address)).Nodup := by
  rw [← blocks_addresses cg fn instructions] at hnd
  refine List.Nodup.sublist ?_ hnd
  generalize blocks cg fn instructions = bs
  induction bs with
  | nil => exact List.Sublist.slnil
  | cons b bs ih =>
    rw [List.flatMap_cons, List.map_cons, Block.addresses, List.cons_append]
    exact (ih.trans (List.sublist_append_right _ _)).cons_cons _

theorem emit_gotos {i : Item} (hi : i ∈ emit cg fn instructions) {l : Label} (hl : l ∈ i.gotos) :
    (∃ t ∈ (analysisResult cg fn instructions).entryPoints, l = .at t) ∨
      ∃ b ∈ blocks cg fn instructions,
        b.hasFallthroughLabel cg (analysisResult cg fn instructions) = true ∧ l = .fallthrough b.inst.address := by
  rw [emit_eq, List.append_assoc, List.mem_append, List.mem_append] at hi
  rcases hi with hi | hi | hi
  · -- the entry switch
    left
    unfold emitEntry at hi
    rw [List.mem_append] at hi
    rcases hi with hi | hi
    · split at hi
      · rw [List.mem_singleton] at hi
        subst hi
        obtain ⟨t, ht, rfl⟩ := List.mem_map.1 hl
        exact ⟨t, List.mem_append_right _ ht, rfl⟩
      · simp at hi
    · rw [List.mem_singleton] at hi
      subst hi; simp [Item.gotos, Stmt.gotos] at hl
  · obtain ⟨b, hb, hib⟩ := List.mem_flatMap.1 hi
    have hmem := List.mem_flatMap.2 ⟨i, hib, hl⟩
    rw [Block.code_gotos] at hmem
    split at hmem
    · rename_i hd
      rcases List.mem_append.1 hmem with hr | ht
      · -- the delay slot resume
        unfold ControlFlowEmitter.resumeLabels at hr
        split at hr
        · rename_i h1
          rw [List.mem_singleton] at hr
          subst hr
          split
          · exact .inl ⟨_, List.contains_iff_mem.1 ‹_›, rfl⟩
          · rename_i h2
            exact .inr ⟨b, hb, by simp [Block.hasFallthroughLabel, hd, h1, h2], rfl⟩
        · cases hr
      · obtain ⟨t, ht', rfl⟩ := List.mem_map.1 ht
        rcases ControlFlowEmitter.mem_targets ht' with hi | ht
        · exact .inl ⟨t, List.contains_iff_mem.1 hi, rfl⟩
        · exact .inl ⟨t, table_entryPoints ht, rfl⟩
    · cases hmem
  · unfold emitEnd at hi
    split at hi
    · simp at hi
    · rw [List.mem_singleton] at hi
      subst hi; simp [Item.gotos, Stmt.gotos] at hl

/-- **An emitted function is closed**: every jump has its one label. -/
theorem emit_closed (hnd : (instructions.map (·.address)).Nodup)
    (hdec : ∀ t ∈ (analysisResult cg fn instructions).entryPoints, t ∈ instructions.map (·.address)) :
    Closed Item.labelOf Item.gotos (emit cg fn instructions) := by
  intro i hi l hl
  rw [countP_labelOf, emit_labels]
  rcases emit_gotos hi hl with ⟨t, ht, rfl⟩ | ⟨b, hb, hfall, rfl⟩
  · rw [count_at _ ht, blocks_addresses]
    exact List.count_eq_one_of_mem hnd (hdec t ht)
  · exact count_fallthrough (blocks_nodup hnd) hb hfall

end FunctionEmitter

namespace Recompiler

variable {R : Recompiler} {f : Function}

/-- **The functions of a recompiler run are closed**, whatever targets the discovery of
additional entry points assigns to them. -/
theorem code_closed (hf : f ∈ R.functions) (hc : f.hasCode = true) : Closed Item.labelOf Item.gotos (R.code f) := by
  obtain ⟨is, hd⟩ := decoded_of_hasCode hf hc
  rw [code, hd, Option.getD_some]
  refine FunctionEmitter.emit_closed (decoded_nodup hd) fun t ht => ?_
  exact (Analyzer.isLocal_iff.1 (isLocal_of_entryPoint hf hd ht)).2.2

/-- A loop whose branch goes back to its own delay slot. -/
def delaySlotLoop : List Instruction :=
  [{ opcode := .addiu, rs := 4, rt := 4, simmediate := 1 },
    { opcode := .bne, rs := 4, rt := 5, simmediate := 0, isBranch := true, hasDelaySlot := true },
    { opcode := .addiu, rs := 2, rt := 2, simmediate := 1 },
    { opcode := .j, target := 0x42, isJump := true, hasDelaySlot := true },
    { opcode := .special }]

theorem delaySlotLoop_closed :
    Closed Item.labelOf Item.gotos ((single "loop" 0x100 delaySlotLoop).code
      { name := "loop", start := 0x100, endAddr := 0x114, isRecompiled := true }) :=
  code_closed (by decide) (by decide)

end Recompiler

end Ps2Recomp
