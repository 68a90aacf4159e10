import Ps2Recomp.Proof.Labels

/-!
# Declarations and jumps

A kick plan captures the value of a store in a variable that is declared at function scope,
`uint32_t gifDmaKickValue_.. = GPR_U32(ctx, ..);`. A jump from in front of the declaration to a
label behind it is an error in C++. The entry switch stands in front of everything.

* `Block.captures`: the blocks that declare a variable.
* `scoped_blocks`: where the jumps over the code of some blocks go.
* `emit_noBypass_iff`: an emitted function has no jump over a declaration exactly when no
  resume target and no jump from in front of a captured store lands behind it.
-/

namespace Ps2Recomp

open Goto

namespace FunctionEmitter

variable {cg : CodeGenerator} {fn : Function} {instructions : List Instruction}
  {ar : AnalysisResult} {b : Block}

/-! ## The declarations of a block -/

/-- A store of a plan, in no delay slot, whose value is not a constant. -/
def Block.captures (b : Block) : Bool :=
  !b.inst.hasDelaySlot && b.plan.suppresses b.index && !(emitGifDmaCapture b.plan (b.plan.slotFor b.index)).isEmpty

theorem labelFor_declares (a : Word) : ∀ i ∈ labelFor ar a, i.declares = false := by
  intro i hi
  unfold labelFor at hi
  split at hi
  · rw [List.mem_singleton.1 hi]
    rfl
  · cases hi

theorem Block.head_declares : ∀ i ∈ b.head cg ar, i.declares = false := by
  intro i hi
  unfold Block.head at hi
  rcases List.mem_append.1 hi with hi | hi
  · rcases List.mem_append.1 hi with hi | hi
    · exact labelFor_declares _ i hi
    · unfold hookBefore at hi
      split at hi
      · cases hi
      · simp only [List.mem_cons, List.not_mem_nil, or_false] at hi
        rcases hi with rfl | rfl | rfl <;> rfl
  · split at hi
    · exact labelFor_declares _ i hi
    · cases hi

variable {e : ControlFlowEmitter}

theorem emitDelaySlot_declares (ho : e.delaySlotOverride = []) : ∀ st ∈ e.emitDelaySlot, st.declares = false := by
  unfold ControlFlowEmitter.emitDelaySlot ControlFlowEmitter.delaySlotCode
  rw [ho]
  cases e.hasRealDelaySlot <;> simp [Stmt.declares]

theorem emitStaticJump_declares (ho : e.delaySlotOverride = [])
    (isCall : Bool) : ∀ st ∈ e.emitStaticJump isCall, st.declares = false := by
  unfold ControlFlowEmitter.emitStaticJump
  dsimp only
  rw [List.forall_mem_append, List.forall_mem_append]
  refine ⟨⟨?_, emitDelaySlot_declares ho⟩, ?_⟩
  · split <;> simp [Stmt.declares]
  · split
    · unfold ControlFlowEmitter.emitInternalTarget
      split <;> simp [Stmt.declares]
    · split
      · split <;> simp [Stmt.declares]
      · split <;> simp [Stmt.declares]

theorem emit_declares (ho : isReturnWithDelaySlot e.branchInst = false → e.delaySlotOverride = []) :
    ∀ i ∈ e.emit, i.declares = false := by
  have hjr : isReturnWithDelaySlot e.branchInst = true →
      e.branchInst.isStaticJump = false ∧ e.branchInst.isJr = true := by
    intro h
    unfold isReturnWithDelaySlot at h
    simp only [Bool.and_eq_true, beq_iff_eq] at h
    simp [Instruction.isStaticJump, Instruction.isJr, h.1.1.1, h.1.1.2]
  have htransfer : ∀ i ∈ e.emitTransfer, i.declares = false := by
    intro i hi
    unfold ControlFlowEmitter.emitTransfer at hi
    split at hi
    · rename_i hs
      have ho' := ho (Bool.eq_false_iff.2 fun h => by rw [(hjr h).1] at hs; cases hs)
      obtain ⟨st, hst, rfl⟩ := List.mem_map.1 hi
      exact emitStaticJump_declares ho' _ st hst
    · split at hi
      · rw [List.mem_singleton.1 hi]
        rfl
      · rename_i hs
        split at hi
        · rw [List.mem_singleton.1 hi]
          rfl
        · have ho' := ho (Bool.eq_false_iff.2 fun h => by rw [(hjr h).2] at hs; simp at hs)
          obtain ⟨st, hst, rfl⟩ := List.mem_map.1 hi
          rcases List.mem_cons.1 hst with rfl | hst
          · rfl
          · exact emitDelaySlot_declares ho' st hst
  unfold ControlFlowEmitter.emit
  simp only [List.forall_mem_append, List.forall_mem_singleton]
  refine ⟨⟨⟨⟨?_, rfl⟩, htransfer⟩, ?_⟩, rfl⟩
  · unfold ControlFlowEmitter.emitResumeFromDelaySlotEntry
    split
    · exact fun i hi => by cases hi
    · exact fun i hi => by rw [List.mem_singleton.1 hi]; rfl
  · unfold ControlFlowEmitter.emitFallthroughLabelIfNeeded
    split
    · exact fun i hi => by rw [List.mem_singleton.1 hi]; rfl
    · exact fun i hi => by cases hi

theorem Block.branch_declares (hb : b ∈ blocksFrom instructions ar 0 instructions {})
    (hd : b.inst.hasDelaySlot = true) : ∀ i ∈ b.core cg ar, i.declares = false := by
  unfold Block.core
  rw [if_pos hd]
  exact emit_declares fun hr => Block.override_nil _ _ hb hr

/-! ## The code of a block -/

/-- **A block is passed without error** unless it captures a value and is jumped over. -/
theorem Block.scoped_iff (hb : b ∈ blocksFrom instructions ar 0 instructions {}) {G L : List Label} :
    Scoped Item.labelOf Item.gotos Item.declares L G (b.code cg ar) ↔ (b.captures = true → ∀ l ∈ G, l ∉ L) := by
  unfold Block.code
  rw [scoped_append, Block.head_gotos, List.append_nil]
  have hhead : ∀ L', Scoped Item.labelOf Item.gotos Item.declares L' G (b.head cg ar) :=
    fun L' => scoped_of_quiet Block.head_declares
  rw [and_iff_right (hhead _)]
  cases hd : b.inst.hasDelaySlot with
  | true =>
    have hcap : b.captures = false := by simp [Block.captures, hd]
    rw [hcap]
    exact ⟨fun _ h => absurd h Bool.false_ne_true, fun _ => scoped_of_quiet (Block.branch_declares hb hd)⟩
  | false =>
    unfold Block.core emitPlain Block.captures
    rw [hd, if_neg (by simp)]
    cases hs : b.plan.suppresses b.index with
    | false =>
      -- no store of a plan: nothing is declared
      simp only [Bool.not_false, Bool.true_and, Bool.false_and, Bool.false_eq_true, if_false, false_imp_iff, iff_true]
      refine scoped_of_quiet fun i hi => ?_
      simp only [List.mem_append, List.mem_cons, List.not_mem_nil, or_false] at hi
      rcases hi with (rfl | rfl) | hi
      · rfl
      · rfl
      · unfold hookAfter at hi
        split at hi
        · cases hi
        · rw [List.mem_singleton.1 hi]
          rfl
    | true =>
      have hkick : ∀ G', Scoped Item.labelOf Item.gotos Item.declares L G'
          (if b.plan.completesAt b.index then
            [.stmt (.setPc b.inst.address), .stmt (gifDmaKickCall b.plan)] else []) := by
        intro G'
        refine scoped_of_quiet fun i hi => ?_
        split at hi
        · simp only [List.mem_cons, List.not_mem_nil, or_false] at hi
          rcases hi with rfl | rfl <;> rfl
        · cases hi
      have hlabels : (if b.plan.completesAt b.index then
          [Item.stmt (.setPc b.inst.address), .stmt (gifDmaKickCall b.plan)] else []).filterMap
            Item.labelOf = [] := by split <;> rfl
      rw [if_pos rfl, scoped_append, and_iff_left (hkick _), hlabels, List.nil_append]
      simp only [Bool.not_false, Bool.true_and, Bool.not_eq_true', List.isEmpty_eq_false_iff]
      have hcapture : emitGifDmaCapture b.plan (b.plan.slotFor b.index) = [] ∨
          ∃ a i reg, emitGifDmaCapture b.plan (b.plan.slotFor b.index) = [.capture a i reg] := by
        unfold emitGifDmaCapture
        split
        · exact .inl rfl
        · split
          · exact .inr ⟨_, _, _, rfl⟩
          · exact .inl rfl
      rcases hcapture with h | ⟨a, i, reg, h⟩
      · rw [h]
        exact ⟨fun _ hne => absurd rfl hne, fun _ => True.intro⟩
      · rw [h]
        exact ⟨fun hsc _ => by simpa using hsc.1 rfl, fun hG => ⟨fun _ => by simpa using hG, True.intro⟩⟩

/-! ## The code of a function -/

variable {bs : List Block}

theorem scoped_blocks (hbs : ∀ b ∈ bs, b ∈ blocksFrom instructions ar 0 instructions {}) {G L : List Label} :
    Scoped Item.labelOf Item.gotos Item.declares L G (bs.flatMap (Block.code cg ar)) ↔
      ∀ bs1 b bs2, bs = bs1 ++ b :: bs2 → b.captures = true →
        ∀ l ∈ G ++ (bs1.flatMap (Block.code cg ar)).flatMap Item.gotos,
          l ∉ (bs2.flatMap (Block.code cg ar)).filterMap Item.labelOf ++ L := by
  induction bs generalizing G with
  | nil =>
    refine ⟨fun _ bs1 b bs2 h => ?_, fun _ => True.intro⟩
    simp at h
  | cons b bs ih =>
    rw [List.flatMap_cons, scoped_append, Block.scoped_iff (hbs b List.mem_cons_self),
      ih fun c hc => hbs c (List.mem_cons_of_mem _ hc)]
    constructor
    · rintro ⟨hb, hrest⟩ bs1 c bs2 h hc
      cases bs1 with
      | nil =>
        cases h
        rw [List.flatMap_nil, List.flatMap_nil, List.append_nil]
        exact hb hc
      | cons b' bs1 =>
        rw [List.cons_append, List.cons.injEq] at h
        obtain ⟨rfl, h⟩ := h
        rw [List.flatMap_cons, List.flatMap_append, ← List.append_assoc]
        exact hrest bs1 c bs2 h hc
    · intro h
      refine ⟨fun hc l hl => h [] b bs rfl hc l (by simpa using hl), fun bs1 c bs2 hs hc => ?_⟩
      have := h (b :: bs1) c bs2 (by rw [hs, List.cons_append]) hc
      rwa [List.flatMap_cons, List.flatMap_append, ← List.append_assoc] at this

/-- The addresses a block jumps to: the targets of its branch, and the address after its delay
slot when a run that entered at the delay slot goes on there. -/
def Block.jumps (cg : CodeGenerator) (ar : AnalysisResult) (b : Block) : List Word :=
  if b.inst.hasDelaySlot then
    (if ar.entryPoints.contains (b.inst.address + 4) &&
        ar.entryPoints.contains (b.inst.address + 8) then [b.inst.address + 8] else []) ++
      (b.emitter cg ar).targets
  else []

theorem Block.at_mem_gotos {t : Word} : .at t ∈ (b.code cg ar).flatMap Item.gotos ↔ t ∈ b.jumps cg ar := by
  rw [Block.code_gotos]
  unfold Block.jumps
  cases b.inst.hasDelaySlot with
  | false => simp
  | true =>
    unfold ControlFlowEmitter.resumeLabels
    change (_ ∈ (if ar.entryPoints.contains (b.inst.address + 4) = true then
      [if ar.entryPoints.contains (b.inst.address + 8) = true then Label.at (b.inst.address + 8)
        else Label.fallthrough b.inst.address] else []) ++ _) ↔ _
    cases ar.entryPoints.contains (b.inst.address + 4) <;>
      cases ar.entryPoints.contains (b.inst.address + 8) <;> simp

theorem Block.fallthrough_mem_gotos {a : Word} :
    .fallthrough a ∈ (b.code cg ar).flatMap Item.gotos ↔ b.hasFallthroughLabel cg ar = true ∧ b.inst.address = a := by
  rw [Block.code_gotos]
  unfold Block.hasFallthroughLabel
  cases b.inst.hasDelaySlot with
  | false => simp
  | true =>
    unfold ControlFlowEmitter.resumeLabels
    change (_ ∈ (if ar.entryPoints.contains (b.inst.address + 4) = true then
      [if ar.entryPoints.contains (b.inst.address + 8) = true then Label.at (b.inst.address + 8)
        else Label.fallthrough b.inst.address] else []) ++ _) ↔
      (true && ar.entryPoints.contains (b.inst.address + 4) && !ar.entryPoints.contains (b.inst.address + 8)) = true ∧ _
    cases ar.entryPoints.contains (b.inst.address + 4) <;>
      cases ar.entryPoints.contains (b.inst.address + 8) <;> simp [eq_comm]

theorem Block.jumps_entryPoints {t : Word} (ht : t ∈ b.jumps cg (analysisResult cg fn instructions)) :
    t ∈ (analysisResult cg fn instructions).entryPoints := by
  unfold Block.jumps at ht
  split at ht
  · rcases List.mem_append.1 ht with ht | ht
    · split at ht
      · rename_i h
        rw [List.mem_singleton.1 ht]
        exact List.contains_iff_mem.1 (Bool.and_eq_true_iff.1 h).2
      · cases ht
    · rcases ControlFlowEmitter.mem_targets ht with h | h
      · exact List.contains_iff_mem.1 h
      · exact table_entryPoints h
  · cases ht

/-- A captured store is passed over: by the entry switch, by a branch in front of it, or by a
second copy of a branch. -/
def Overjumped (cg : CodeGenerator) (fn : Function) (instructions : List Instruction) (bs₁ bs₂ : List Block) : Prop :=
  (∃ t ∈ resumeTargets cg fn instructions ++
      bs₁.flatMap (Block.jumps cg (analysisResult cg fn instructions)),
    t ∈ bs₂.flatMap Block.addresses) ∨
  ∃ c ∈ bs₁, ∃ c' ∈ bs₂, c.inst.address = c'.inst.address ∧
    c.hasFallthroughLabel cg (analysisResult cg fn instructions) = true ∧
    c'.hasFallthroughLabel cg (analysisResult cg fn instructions) = true

theorem at_mem_labels {t : Word} (ht : t ∈ ar.entryPoints) :
    .at t ∈ (bs.flatMap (Block.code cg ar)).filterMap Item.labelOf ↔ t ∈ bs.flatMap Block.addresses := by
  rw [← List.count_pos_iff, count_at bs ht, List.count_pos_iff]

theorem fallthrough_mem_labels {a : Word} : .fallthrough a ∈ (bs.flatMap (Block.code cg ar)).filterMap Item.labelOf ↔
    ∃ c ∈ bs, c.hasFallthroughLabel cg ar = true ∧ c.inst.address = a := by
  rw [flatMap_code_labels, List.mem_flatMap]
  refine exists_congr fun c => and_congr_right fun _ => ?_
  cases c.hasFallthroughLabel cg ar <;> simp [eq_comm]

theorem overjumped_iff {bs1 bs2 : List Block} : Overjumped cg fn instructions bs1 bs2 ↔
    ∃ l ∈ (resumeTargets cg fn instructions).map .at ++
        (bs1.flatMap (Block.code cg (analysisResult cg fn instructions))).flatMap Item.gotos,
      l ∈ (bs2.flatMap (Block.code cg (analysisResult cg fn instructions))).filterMap
        Item.labelOf := by
  have hresume : ∀ t ∈ resumeTargets cg fn instructions, t ∈ (analysisResult cg fn instructions).entryPoints :=
    fun t ht => List.mem_append_right _ ht
  constructor
  · rintro (⟨t, ht, hmem⟩ | ⟨c, hc, c', hc', ha, hf, hf'⟩)
    · rcases List.mem_append.1 ht with ht | ht
      · exact ⟨.at t, List.mem_append_left _ (List.mem_map.2 ⟨t, ht, rfl⟩), (at_mem_labels (hresume t ht)).2 hmem⟩
      · obtain ⟨c, hc, hj⟩ := List.mem_flatMap.1 ht
        refine ⟨.at t, List.mem_append_right _ ?_, (at_mem_labels (Block.jumps_entryPoints hj)).2 hmem⟩
        rw [List.flatMap_assoc]
        exact List.mem_flatMap.2 ⟨c, hc, Block.at_mem_gotos.2 hj⟩
    · refine ⟨.fallthrough c.inst.address, List.mem_append_right _ ?_, fallthrough_mem_labels.2 ⟨c', hc', hf', ha.symm⟩⟩
      rw [List.flatMap_assoc]
      exact List.mem_flatMap.2 ⟨c, hc, Block.fallthrough_mem_gotos.2 ⟨hf, rfl⟩⟩
  · rintro ⟨l, hl, hlab⟩
    rw [List.flatMap_assoc] at hl
    rcases List.mem_append.1 hl with hl | hl
    · obtain ⟨t, ht, rfl⟩ := List.mem_map.1 hl
      exact .inl ⟨t, List.mem_append_left _ ht, (at_mem_labels (hresume t ht)).1 hlab⟩
    · obtain ⟨c, hc, hcl⟩ := List.mem_flatMap.1 hl
      cases l with
      | «at» t =>
        have hj := Block.at_mem_gotos.1 hcl
        exact .inl ⟨t, List.mem_append_right _ (List.mem_flatMap.2 ⟨c, hc, hj⟩),
          (at_mem_labels (Block.jumps_entryPoints hj)).1 hlab⟩
      | «fallthrough» a =>
        obtain ⟨hf, rfl⟩ := Block.fallthrough_mem_gotos.1 hcl
        obtain ⟨c', hc', hf', ha⟩ := fallthrough_mem_labels.1 hlab
        exact .inr ⟨c, hc, c', hc', ha.symm, hf, hf'⟩

theorem emitEntry_gotos : (emitEntry cg fn instructions).flatMap Item.gotos =
    (resumeTargets cg fn instructions).map .at := by
  unfold emitEntry
  by_cases h : resumeTargets cg fn instructions = []
  · rw [h]
    rfl
  · rw [if_pos h]
    simp [Item.gotos, Stmt.gotos]

theorem emitEntry_declares : ∀ i ∈ emitEntry cg fn instructions, i.declares = false := by
  intro i hi
  unfold emitEntry at hi
  rcases List.mem_append.1 hi with hi | hi
  · split at hi
    · rw [List.mem_singleton.1 hi]
      rfl
    · cases hi
  · rw [List.mem_singleton.1 hi]
    rfl

theorem emitEnd_declares : ∀ i ∈ emitEnd fn instructions, i.declares = false := by
  intro i hi
  unfold emitEnd at hi
  split at hi
  · cases hi
  · rw [List.mem_singleton.1 hi]
    rfl

/-- **No jump of an emitted function enters the scope of a variable** exactly when no captured
store is jumped over. -/
theorem emit_noBypass_iff :
    NoBypass Item.labelOf Item.gotos Item.declares (emit cg fn instructions) ↔
      ∀ bs₁ b bs₂, blocks cg fn instructions = bs₁ ++ b :: bs₂ → b.captures = true →
        ¬ Overjumped cg fn instructions bs₁ bs₂ := by
  -- the entry switch and the end declare nothing, so only the blocks matter
  rw [noBypass_iff_scoped, emit_eq, scoped_append, scoped_append,
    and_iff_right (scoped_of_quiet emitEntry_declares),
    and_iff_left (scoped_of_quiet emitEnd_declares), emitEnd_labels, List.nil_append,
    List.nil_append, emitEntry_gotos]
  refine (scoped_blocks fun b hb => hb).trans ?_
  refine forall_congr' fun bs₁ => forall_congr' fun b => forall_congr' fun bs₂ =>
    imp_congr_right fun _ => imp_congr_right fun _ => ?_
  rw [overjumped_iff, List.append_nil]
  exact ⟨fun h ⟨l, hl, hlab⟩ => h l hl hlab, fun h l hl hlab => h ⟨l, hl, hlab⟩⟩

/-- The four stores of a kick, then a call. -/
def kickThenCall : List Instruction :=
  [{ address := 0x100, opcode := .lui, rt := 8, immediate := 0x1001 },
    { address := 0x104, opcode := .sw, rs := 8, rt := 4, simmediate := 0xFFFFE020 },
    { address := 0x108, opcode := .sw, rs := 8, rt := 5, simmediate := 0xFFFFE010 },
    { address := 0x10C, opcode := .sw, rs := 8, rt := 6, simmediate := 0xFFFFA030 },
    { address := 0x110, opcode := .sw, rs := 8, rt := 7, simmediate := 0xFFFFA000 },
    { address := 0x114, opcode := .jal, target := 0x80, isJump := true,
      hasDelaySlot := true },
    { address := 0x118 },
    { address := 0x11C, opcode := .special, function := 8, rs := 31, isJump := true,
      hasDelaySlot := true },
    { address := 0x120 }]

/-- **The entry switch jumps over the captures**: the return address `0x11C` of the call is a
resume target, and the values of the four stores are declared in front of its label. -/
theorem kickThenCall_bypassed :
    ¬ NoBypass Item.labelOf Item.gotos Item.declares
      (emit { analyzer := ⟨[], []⟩ } { name := "kick", start := 0x100, endAddr := 0x124 }
        kickThenCall) := by
  generalize hcode : emit _ _ _ = code
  have hsplit : code = code.take 4 ++ .stmt (.capture 0x104 0 4) :: code.drop 5 := by
    rw [← hcode]
    rfl
  intro h
  refine h _ _ _ hsplit rfl (.at 0x11C) ?_ ?_
  · rw [← hcode]
    decide
  · rw [← hcode]
    decide

end FunctionEmitter

end Ps2Recomp
