import Ps2Recomp.Proof.PlanRun

/-!
# Mid-asm hooks

What the documentation of the hooks promises, block by block: a hook is called each time its
instruction is executed, right before or right after it, and what is executed from then on
uses the registers that the hook has left. The emitter drops the hooks of delay slots and the
hook after a store of a kick plan, keeps one of several hooks at a place, and resolves
addresses with constants from before a hook.

* `hooksAt`, `beforeCalls`, `afterCalls`: the calls that are promised.
* `Block.HooksHonoured`: a block makes them.
* `Block.HooksPlaced`: the hooks avoid what the emitter does not handle.
* `hooks_honoured`: then every block of every run makes the calls that are promised.
-/

namespace Ps2Recomp

open Goto

/-! ## The configured hooks -/

section Config

variable {cg : CodeGenerator} {hooks : List MidAsmHook} {a : Word}

/-- The names of the hooks on one side of an address, in the order of the configuration. -/
def hooksAt (hooks : List MidAsmHook) (a : Word) (after : Bool) : List String :=
  (hooks.filter fun h => (h.address == a) && ((h.after == after) && decide (h.name ≠ ""))).map (·.name)

theorem lookup_reverse (l : List MidAsmHook) (a : Word) :
    (l.reverse.map fun h => (h.address, h.name)).lookup a =
      ((l.filter fun h => h.address == a).map (·.name)).getLast? := by
  induction l with
  | nil => rfl
  | cons h l ih =>
    rw [List.reverse_cons, List.map_append, List.lookup_append, ih, List.filter_cons]
    by_cases ha : h.address = a
    · subst ha
      rw [if_pos (by simp), List.map_cons, List.map_cons, List.getLast?_cons]
      cases ((l.filter fun x => x.address == h.address).map (·.name)).getLast? with
      | none => simp
      | some name => rfl
    · rw [if_neg (by simpa using ha)]
      simp [List.lookup_cons, show (a == h.address) = false by simpa using Ne.symm ha]

/-- Of the hooks on one side of an address the last one is kept. -/
theorem setMidAsmHooks_before :
    (cg.setMidAsmHooks hooks).midAsmHooksBefore.lookup a = (hooksAt hooks a false).getLast? := by
  unfold CodeGenerator.setMidAsmHooks hooksAt
  dsimp only
  rw [List.filter_reverse, lookup_reverse, List.filter_filter, List.filter_filter]
  congr 3
  funext h
  cases h.after <;> simp

theorem setMidAsmHooks_after :
    (cg.setMidAsmHooks hooks).midAsmHooksAfter.lookup a = (hooksAt hooks a true).getLast? := by
  unfold CodeGenerator.setMidAsmHooks hooksAt
  dsimp only
  rw [List.filter_reverse, lookup_reverse, List.filter_filter, List.filter_filter]
  congr 3
  funext h
  cases h.after <;> simp

/-- The calls of the hooks before an instruction; one that moves `ctx->pc` leaves. -/
def beforeCalls (hooks : List MidAsmHook) (a : Word) : List Stmt :=
  (hooksAt hooks a false).flatMap fun name => [.setPc a, .hook name, .returnIfPcNe a]

/-- The calls of the hooks after an instruction. -/
def afterCalls (hooks : List MidAsmHook) (a : Word) : List Stmt := (hooksAt hooks a true).map .hook

theorem hookBefore_eq (h : (hooksAt hooks a false).length ≤ 1) :
    FunctionEmitter.hookBefore (cg.setMidAsmHooks hooks) a = (beforeCalls hooks a).map .stmt := by
  unfold FunctionEmitter.hookBefore beforeCalls
  rw [setMidAsmHooks_before]
  match hooksAt hooks a false, h with
  | [], _ => rfl
  | [name], _ => rfl

theorem hookAfter_eq (h : (hooksAt hooks a true).length ≤ 1) :
    FunctionEmitter.hookAfter (cg.setMidAsmHooks hooks) a = (afterCalls hooks a).map .stmt := by
  unfold FunctionEmitter.hookAfter afterCalls
  rw [setMidAsmHooks_after]
  match hooksAt hooks a true, h with
  | [], _ => rfl
  | [name], _ => rfl

end Config

namespace FunctionEmitter

variable {ρ : Type} {rt : Runtime ρ} {cg : CodeGenerator} {fn : Function}
  {instructions : List Instruction} {ar : AnalysisResult} {hooks : List MidAsmHook} {b : Block}

/-! ## What is promised -/

/-- A store of a plan is what the plan takes it for, where it stands: its address is the one of
the slot, and the argument of the kick is the word in its register. -/
def StoreRight (plan : GifDmaKickPlan) (slot : Fin 4) (inst : Instruction) (s : State ρ) : Prop :=
  baseAddress inst s.ctx = kTargets slot ∧
    (capture plan (some slot) s).kickArg (plan.values slot) = s.ctx.gprU32 inst.rt

/-- A plain instruction, entered in `s`: the hooks before it, the instruction with an address
from the registers they leave, the hooks after it. -/
structure Block.PlainHonoured (rt : Runtime ρ) (cg : CodeGenerator) (ar : AnalysisResult)
    (hooks : List MidAsmHook) (b : Block) (s : State ρ) : Prop where
  instr : b.plan.suppresses b.index = false → ∃ hint,
    Goto.seq (Item.exec rt) s (b.code cg ar) =
      Goto.seq (Stmt.exec rt) s (beforeCalls hooks b.inst.address ++
        [.setPc b.inst.address, .instr b.inst hint] ++ afterCalls hooks b.inst.address) ∧
    (afterCalls hooks b.inst.address ≠ [] → rt.leaves b.inst = false) ∧
    ∀ s₁, Goto.seq (Stmt.exec rt) s (beforeCalls hooks b.inst.address) = (s₁, .next) →
      ∀ a, hint = some a → a = baseAddress b.inst s₁.ctx
  /-- A store that is left to a kick is no statement of its own. -/
  store : b.plan.valid = true → ∀ slot, b.plan.storeIndices slot = b.index →
    Goto.seq (Item.exec rt) s (b.code cg ar) =
      Goto.seq (Stmt.exec rt) s (beforeCalls hooks b.inst.address ++
        emitGifDmaCapture b.plan (some slot) ++
        (if b.plan.completesAt b.index then [.setPc b.inst.address, gifDmaKickCall b.plan] else []) ++
        afterCalls hooks b.inst.address) ∧
    ∀ s₁, Goto.seq (Stmt.exec rt) s (beforeCalls hooks b.inst.address) = (s₁, .next) → StoreRight b.plan slot b.inst s₁

/-- The branch of a block with the calls of the hooks around its delay slot. -/
def Block.hookedEmitter (cg : CodeGenerator) (ar : AnalysisResult) (hooks : List MidAsmHook)
    (b : Block) (d : Instruction) : ControlFlowEmitter :=
  { b.emitter cg ar with
    delaySlotOverride := beforeCalls hooks d.address ++ (b.emitter cg ar).delaySlotCode ++ afterCalls hooks d.address }

/-- A branch, entered in `s`: the hooks of its delay slot are called around it, and a store
that a kick makes there is right. -/
structure Block.SlotHonoured (rt : Runtime ρ) (cg : CodeGenerator) (ar : AnalysisResult)
    (hooks : List MidAsmHook) (b : Block) (s : State ρ) : Prop where
  calls : ∀ d, b.delaySlot = some d → d.hasDelaySlot = false → ∀ s₁,
    Goto.seq (Item.exec rt) s₁ (b.core cg ar) = Goto.seq (Item.exec rt) s₁ (b.hookedEmitter cg ar hooks d).emit
  store : (b.emitter cg ar).delaySlotOverride ≠ [] → ∀ d, b.delaySlot = some d →
    ∀ s₁, Goto.seq (Item.exec rt) s (b.head cg ar) = (s₁, .next) → StoreRight b.plan 3 d s₁

/-- **The hooks of a block are honoured** when it is entered in `s`. -/
def Block.HooksHonoured (rt : Runtime ρ) (cg : CodeGenerator) (ar : AnalysisResult)
    (hooks : List MidAsmHook) (b : Block) (s : State ρ) : Prop :=
  if b.inst.hasDelaySlot then b.SlotHonoured rt cg ar hooks s else b.PlainHonoured rt cg ar hooks s

/-! ## Where hooks may stand -/

/-- The store in a slot of a plan is found with the constants `k` as well. -/
def StoreFresh (plan : GifDmaKickPlan) (slot : Fin 4) (inst : Instruction) (k : ConstantRegisterState) : Prop :=
  resolveMemoryAccessHint inst k = some (kTargets slot) ∧ ∀ v, plan.values slot = .literal v → k.read inst.rt = some v

/-- The hooks avoid what the emitter does not handle at a block: several hooks on one side of
an instruction, a hook after a store of a plan or after an instruction that leaves, a hook in a
delay slot, and constants from before a hook (or, in a plan, before a label). -/
structure Block.HooksPlaced (rt : Runtime ρ) (cg : CodeGenerator) (ar : AnalysisResult)
    (hooks : List MidAsmHook) (b : Block) (k : ConstantRegisterState) : Prop where
  single : b.inst.hasDelaySlot = false → ∀ after, (hooksAt hooks b.inst.address after).length ≤ 1
  after : b.inst.hasDelaySlot = false → hooksAt hooks b.inst.address true ≠ [] →
    b.plan.suppresses b.index = false ∧ rt.leaves b.inst = false
  slot : ∀ d, b.delaySlot = some d → d.hasDelaySlot = false → ∀ after, hooksAt hooks d.address after = []
  hint : b.HintFresh cg ar k
  store : b.inst.hasDelaySlot = false → b.plan.valid = true →
    ∀ slot, b.plan.storeIndices slot = b.index → StoreFresh b.plan slot b.inst (b.freshAt cg ar k)
  slotStore : (b.emitter cg ar).delaySlotOverride ≠ [] → ∀ d, b.delaySlot = some d →
    StoreFresh b.plan 3 d (b.freshAt cg ar k)

/-! ## Entering a block -/

/-- A run of the function comes to the block behind `bs`: at its label, or from the item in
front of its code. -/
def Enters (rt : Runtime ρ) (cg : CodeGenerator) (fn : Function) (instructions : List Instruction)
    (bs : List Block) (b : Block) (s₀ s : State ρ) : Prop :=
  let ar := analysisResult cg fn instructions
  let p := (emitEntry cg fn instructions ++ bs.flatMap (Block.code cg ar)).length
  (b.inst.address ∈ ar.entryPoints ∧ Reach (lang rt) (emit cg fn instructions) (0, s₀) (p, s)) ∨
    ∃ s₁ i, Reach (lang rt) (emit cg fn instructions) (0, s₀) (p - 1, s₁) ∧
      (emit cg fn instructions)[p - 1]? = some i ∧ i.exec rt s₁ = (s, .next)

/-- **What is known where a block is entered.** -/
theorem Enters.knows {bs1 bs2 : List Block} {s0 s : State ρ} (hf : ∀ inst ∈ instructions, FlagsCover rt.toMachine inst)
    (hb : blocks cg fn instructions = bs1 ++ b :: bs2) (he : Enters rt cg fn instructions bs1 b s0 s) :
    Knows (constantsAt (analysisResult cg fn instructions) b.inst
      (fresh cg (analysisResult cg fn instructions) .clear bs1)) s := by
  have hclear : b.inst.address ∈ (analysisResult cg fn instructions).entryPoints →
      Knows (constantsAt (analysisResult cg fn instructions) b.inst
        (fresh cg (analysisResult cg fn instructions) .clear bs1)) s := by
    intro hl
    unfold constantsAt
    rw [if_pos hl]
    exact knows_clear s
  rcases he with ⟨hl, -⟩ | ⟨s1, i, hr, hi, hexec⟩
  · exact hclear hl
  by_cases hl : b.inst.address ∈ (analysisResult cg fn instructions).entryPoints
  · exact hclear hl
  unfold constantsAt
  rw [if_neg hl]
  -- the outline up to the block, and the outline of the whole function
  have hplain : ∀ b ∈ blocks cg fn instructions, b.Plain rt := blocks_plain hf
  rw [hb] at hplain
  have hpre : Outline (lang rt) (fun _ => True)
      ((emitEntry cg fn instructions).map (fun i => (i, fun _ => True)) ++
        blocksOutline ρ cg (analysisResult cg fn instructions) .clear bs1)
      (Knows (fresh cg (analysisResult cg fn instructions) .clear bs1)) :=
    Outline.append ((Outline.trivial _).post fun s _ => knows_clear s)
      (blocks_outline (fun b hb => hplain b (List.mem_append_left _ hb)) .clear)
  have hfull : Outline (lang rt) (fun _ => True) (outline ρ cg fn instructions) fun _ => True :=
    outline_holds hf
  have hsplit : ∃ rest, outline ρ cg fn instructions =
      (emitEntry cg fn instructions).map (fun i => (i, fun _ => True)) ++
        blocksOutline ρ cg (analysisResult cg fn instructions) .clear bs1 ++ rest := by
    unfold outline
    rw [hb, blocksOutline_append, ← List.append_assoc, List.append_assoc]
    exact ⟨_, rfl⟩
  obtain ⟨rest, hsplit⟩ := hsplit
  have hlen : ((emitEntry cg fn instructions).map (fun i => (i, fun _ : State ρ => True)) ++
      blocksOutline ρ cg (analysisResult cg fn instructions) .clear bs1).length =
        (emitEntry cg fn instructions ++ bs1.flatMap (Block.code cg (analysisResult cg fn instructions))).length := by
    rw [← blocksOutline_fst (ρ := ρ) .clear]
    simp
  have hpos : 0 < (emitEntry cg fn instructions).length := by
    unfold emitEntry
    simp
  rw [← hlen] at hr hi
  generalize hpre' : (emitEntry cg fn instructions).map (fun i => (i, fun _ : State ρ => True)) ++
    blocksOutline ρ cg (analysisResult cg fn instructions) .clear bs1 = pre at hpre hsplit hr hi
  have hne : 0 < pre.length := by
    rw [← hpre', List.length_append, List.length_map]
    omega
  obtain ⟨x, hx⟩ : ∃ x, pre[pre.length - 1]? = some x := ⟨_, List.getElem?_eq_getElem (by omega)⟩
  have hx' : (outline ρ cg fn instructions)[pre.length - 1]? = some x := by
    rw [hsplit, List.getElem?_append_left (by omega)]
    exact hx
  rw [← outline_fst (ρ := ρ)] at hr hi
  have hass := hfull.reach (fun a ha => hfull.first ha True.intro) hr x hx'
  rw [List.getElem?_map, hx', Option.map_some, Option.some.injEq] at hi
  subst hi
  exact hpre.last hx hass hexec

/-! ## Blocks whose hooks are placed well -/

variable {k : ConstantRegisterState}

theorem beforeCalls_knows {s s1 : State ρ} (hk : Knows (constantsAt ar b.inst k) s)
    (h : Goto.seq (Stmt.exec rt) s (beforeCalls hooks b.inst.address) = (s1, .next)) :
    Knows (b.freshAt (cg.setMidAsmHooks hooks) ar k) s1 := by
  unfold Block.freshAt
  rw [setMidAsmHooks_before]
  unfold beforeCalls at h
  cases hl : hooksAt hooks b.inst.address false with
  | nil =>
    rw [hl] at h
    cases h
    exact hk
  | cons name names =>
    rw [List.getLast?_cons, Option.isSome_some, if_pos rfl]
    exact knows_clear s1

variable {s : State ρ}

theorem StoreFresh.right {plan : GifDmaKickPlan} {slot : Fin 4} {inst : Instruction}
    {k kj : ConstantRegisterState} (h : StoreFresh plan slot inst k)
    (hm : Matched instructions kj plan slot inst) (hk : Knows k s) : StoreRight plan slot inst s := by
  refine ⟨(resolveMemoryAccessHint_sound hk h.1).symm, Setting.kickArg_capture hm fun v hv => ?_⟩
  have hval := hm.value
  rw [hv] at hval
  exact hk _ _ (h.2 v hval)

theorem Block.plain_code (hd : b.inst.hasDelaySlot = false) (hs : b.delaySlot = none)
    (h : b.HooksPlaced rt (cg.setMidAsmHooks hooks) ar hooks k) (s : State ρ) :
    Goto.seq (Item.exec rt) s (b.code (cg.setMidAsmHooks hooks) ar) =
      Goto.seq (Stmt.exec rt) s (beforeCalls hooks b.inst.address ++
        (if b.plan.suppresses b.index then
          emitGifDmaCapture b.plan (b.plan.slotFor b.index) ++
            if b.plan.completesAt b.index then [.setPc b.inst.address, gifDmaKickCall b.plan] else []
        else [.setPc b.inst.address, .instr b.inst (resolveMemoryAccessHint b.inst b.constants)]) ++
        afterCalls hooks b.inst.address) := by
  unfold Block.code Block.head Block.core
  rw [hs, hd, if_neg (by simp), if_neg (by simp), List.append_nil, hookBefore_eq (h.single hd false),
    seq_append, seq_append, labelFor_run, andThen_next, Item.seq_map_stmt, List.append_assoc,
    seq_append]
  congr 1
  funext s
  unfold emitPlain
  rw [hookAfter_eq (h.single hd true)]
  cases hsup : b.plan.suppresses b.index with
  | true =>
    have hnil : afterCalls hooks b.inst.address = [] := by
      unfold afterCalls
      by_contra hne
      have hne' : hooksAt hooks b.inst.address true ≠ [] := fun h => hne (by rw [h]; rfl)
      have := (h.after hd hne').1
      rw [hsup] at this
      cases this
    rw [if_pos rfl, if_pos rfl, hnil, List.append_nil, ← Item.seq_map_stmt, List.map_append]
    split <;> rfl
  | false =>
    rw [if_neg (by simp), if_neg (by simp), ← Item.seq_map_stmt, List.map_append]
    rfl

theorem Block.plainHonoured (hb : b ∈ blocks (cg.setMidAsmHooks hooks) fn instructions)
    (hd : b.inst.hasDelaySlot = false) (hs : b.delaySlot = none)
    (h : b.HooksPlaced rt (cg.setMidAsmHooks hooks) (analysisResult (cg.setMidAsmHooks hooks) fn instructions) hooks k)
    (hk : Knows (constantsAt (analysisResult (cg.setMidAsmHooks hooks) fn instructions) b.inst k) s) :
    b.PlainHonoured rt (cg.setMidAsmHooks hooks)
      (analysisResult (cg.setMidAsmHooks hooks) fn instructions) hooks s := by
  constructor
  · intro hsup
    refine ⟨resolveMemoryAccessHint b.inst b.constants, ?_, fun hne => ?_, fun s1 hs1 a ha => ?_⟩
    · rw [b.plain_code hd hs h, hsup, if_neg (by simp)]
    · refine (h.after hd fun hnil => hne ?_).2
      unfold afterCalls
      rw [hnil]
      rfl
    · exact resolveMemoryAccessHint_sound (beforeCalls_knows hk hs1) (h.hint hd a ha)
  · intro hv slot hslot
    obtain ⟨startIndex, k0, hspec⟩ := blocksFrom_scanned instructions hb hv
    have hsup : b.plan.suppresses b.index = true := suppresses_iff.2 ⟨hv, slot, hslot⟩
    refine ⟨?_, fun s1 hs1 => ?_⟩
    · rw [b.plain_code hd hs h, hsup, if_pos rfl, ← hslot, hspec.slotFor]
      simp only [List.append_assoc]
    · obtain ⟨inst, hm⟩ := hspec.matched slot
      have hinst := (mem_blocksFrom instructions hb).inst
      have hidx := hm.index
      rw [Nat.sub_zero, ← hslot, hidx] at hinst
      cases hinst
      exact (h.store hd hv slot hslot).right hm (beforeCalls_knows hk hs1)

theorem emit_override_self (e : ControlFlowEmitter) :
    ({ e with delaySlotOverride := e.delaySlotCode } : ControlFlowEmitter).emit = e.emit := by
  have hslot : ({ e with delaySlotOverride := e.delaySlotCode } : ControlFlowEmitter).emitDelaySlot =
      e.emitDelaySlot := by
    unfold ControlFlowEmitter.emitDelaySlot ControlFlowEmitter.delaySlotCode ControlFlowEmitter.hasRealDelaySlot
    by_cases ho : e.delaySlotOverride = []
    · cases hn : isGuestNop e.delaySlot with
      | true => simp [ho]
      | false =>
        simp [ho]
        exact ⟨rfl, rfl⟩
    · have hlen : (e.delaySlotOverride.length != 0) = true := by simpa using ho
      simp only [hlen, Bool.true_or, Bool.not_true, Bool.false_eq_true, if_false, if_true]
  unfold ControlFlowEmitter.emit ControlFlowEmitter.emitResumeFromDelaySlotEntry
    ControlFlowEmitter.emitTransfer ControlFlowEmitter.emitStaticJump
    ControlFlowEmitter.emitRegisterJump ControlFlowEmitter.emitConditionalBranch
  rw [hslot]
  rfl

theorem Block.slotHonoured (hb : b ∈ blocks (cg.setMidAsmHooks hooks) fn instructions) (hd : b.inst.hasDelaySlot = true)
    (h : b.HooksPlaced rt (cg.setMidAsmHooks hooks) (analysisResult (cg.setMidAsmHooks hooks) fn instructions) hooks k)
    (hk : Knows (constantsAt (analysisResult (cg.setMidAsmHooks hooks) fn instructions) b.inst k) s) :
    b.SlotHonoured rt (cg.setMidAsmHooks hooks) (analysisResult (cg.setMidAsmHooks hooks) fn instructions) hooks s := by
  constructor
  · intro d hslot hbr s1
    have hnone := h.slot d hslot hbr
    unfold Block.core Block.hookedEmitter beforeCalls afterCalls
    rw [if_pos hd, hnone false, hnone true, List.flatMap_nil, List.map_nil, List.nil_append,
      List.append_nil, emit_override_self]
  · intro ho d hslot s1 hs1
    -- the plan makes its kick in this delay slot
    have hplan : b.plan.valid = true ∧ b.plan.completesInDelaySlot = true ∧ b.plan.branchIndex = some b.index := by
      unfold Block.emitter branchEmitter at ho
      dsimp only at ho
      split at ho
      · rename_i hp
        simp only [Bool.and_eq_true, beq_iff_eq] at hp
        exact ⟨hp.1.1.1, hp.1.1.2, hp.1.2⟩
      · exact absurd rfl ho
    obtain ⟨hv, hc, hbi⟩ := hplan
    obtain ⟨startIndex, k0, hspec⟩ := blocksFrom_scanned instructions hb hv
    obtain ⟨hidx, hend, -⟩ := hspec.branch hc
    obtain ⟨inst, hm⟩ := hspec.matched 3
    have hd' := ((mem_blocksFrom instructions hb).slot d hslot).2.1
    have hindex := hm.index
    rw [hidx, Option.some.injEq] at hbi
    rw [← hspec.endIndex, hend, hbi] at hindex
    rw [Nat.sub_zero, hindex] at hd'
    cases hd'
    refine (h.slotStore ho d hslot).right hm ?_
    unfold Block.freshAt
    cases hl : (cg.setMidAsmHooks hooks).midAsmHooksBefore.lookup b.inst.address with
    | some name => exact knows_clear s1
    | none =>
      unfold Block.head hookBefore at hs1
      rw [hl, List.append_nil, seq_append, labelFor_run, andThen_next] at hs1
      have heq : s = s1 := by
        split at hs1
        · rw [labelFor_run] at hs1
          cases hs1
          rfl
        · cases hs1
          rfl
      rw [← heq]
      exact hk

/-- **Hooks that are placed well are honoured** by every block of every run of the function. -/
theorem hooks_honoured (hf : ∀ inst ∈ instructions, FlagsCover rt.toMachine inst)
    (hplaced : ∀ bs₁ b bs₂, blocks (cg.setMidAsmHooks hooks) fn instructions = bs₁ ++ b :: bs₂ →
      b.HooksPlaced rt (cg.setMidAsmHooks hooks)
        (analysisResult (cg.setMidAsmHooks hooks) fn instructions) hooks
        (fresh (cg.setMidAsmHooks hooks) (analysisResult (cg.setMidAsmHooks hooks) fn instructions) .clear bs₁))
    {bs₁ bs₂ : List Block} (hb : blocks (cg.setMidAsmHooks hooks) fn instructions = bs₁ ++ b :: bs₂)
    {s₀ s : State ρ} (he : Enters rt (cg.setMidAsmHooks hooks) fn instructions bs₁ b s₀ s) :
    b.HooksHonoured rt (cg.setMidAsmHooks hooks)
      (analysisResult (cg.setMidAsmHooks hooks) fn instructions) hooks s := by
  have hmem : b ∈ blocks (cg.setMidAsmHooks hooks) fn instructions := by
    rw [hb]
    exact List.mem_append_right _ List.mem_cons_self
  have hk := he.knows hf hb
  unfold Block.HooksHonoured
  split
  · rename_i hd
    exact Block.slotHonoured hmem hd (hplaced bs₁ b bs₂ hb) hk
  · rename_i hd
    have hd' : b.inst.hasDelaySlot = false := by simpa using hd
    exact Block.plainHonoured hmem hd' ((blocks_plain hf b hmem).slot hd') (hplaced bs₁ b bs₂ hb) hk

/-- A generator with nothing configured but hooks. -/
def hookGenerator (hooks : List MidAsmHook) : CodeGenerator :=
  CodeGenerator.setMidAsmHooks { analyzer := ⟨[], []⟩ } hooks

/-- `lui $t0, 0x1000` and `sw $a0, 0x20($t0)`. -/
def hookedStore : List Instruction :=
  [{ address := 0x100, opcode := .lui, rt := 8, immediate := 0x1000 },
    { address := 0x104, opcode := .sw, rs := 8, rt := 4, simmediate := 0x20 }]

/-- The function at `0x100`. -/
def hookedFunction : Function :=
  { name := "hooked", start := 0x100, endAddr := 0x108, isRecompiled := true }

/-- A hook before `lui`: the base register is set again after it. -/
theorem hookedStore_honoured : ∃ (b : Block) (bs : List Block) (s : State Unit),
    Enters Runtime.idle (hookGenerator [⟨0x100, "fix", false⟩]) hookedFunction hookedStore [] b
      (.entered 0x100 0) s ∧
    blocks (hookGenerator [⟨0x100, "fix", false⟩]) hookedFunction hookedStore = b :: bs ∧
    b.HooksHonoured Runtime.idle (hookGenerator [⟨0x100, "fix", false⟩])
      (analysisResult (hookGenerator [⟨0x100, "fix", false⟩]) hookedFunction hookedStore)
      [⟨0x100, "fix", false⟩] s := by
  have hblocks : blocks (hookGenerator [⟨0x100, "fix", false⟩]) hookedFunction hookedStore =
      [⟨0, hookedStore[0], none, .clear, {}⟩,
        ⟨1, hookedStore[1], none, updateConstantRegisters hookedStore[0] .clear, {}⟩] := rfl
  have henters : ∃ s, Enters Runtime.idle (hookGenerator [⟨0x100, "fix", false⟩]) hookedFunction
      hookedStore [] ⟨0, hookedStore[0], none, .clear, {}⟩ (.entered 0x100 0) s :=
    ⟨_, .inr ⟨_, _, .refl, rfl, rfl⟩⟩
  obtain ⟨s, hs⟩ := henters
  refine ⟨_, _, s, hs, hblocks, @hooks_honoured Unit Runtime.idle { analyzer := ⟨[], []⟩ } _ _
    [⟨0x100, "fix", false⟩] _ ?_ ?_ [] _ hblocks _ _ hs⟩
  · intro inst hi
    simp only [hookedStore, List.mem_cons, List.not_mem_nil, or_false] at hi
    rcases hi with rfl | rfl
    · exact fun h => by cases h
    · exact fun _ _ _ _ _ _ => rfl
  · intro bs₁ b bs₂ h
    match bs₁, hblocks.symm.trans h with
    | [], h =>
      cases h
      refine ⟨fun _ after => ?_, fun _ h => absurd rfl h, fun d hd => ?_, fun _ a ha => ?_,
        fun _ hv => ?_, fun h => absurd rfl h⟩
      · cases after <;> decide
      · cases hd
      · cases ha
      · cases hv
    | [x], h =>
      cases h
      refine ⟨fun _ after => ?_, fun _ h => absurd rfl h, fun d hd => ?_, fun _ a ha => ha,
        fun _ hv => ?_, fun h => absurd rfl h⟩
      · cases after <;> decide
      · cases hd
      · cases hv
    | x :: y :: bs₁, h => simp at h

/-- `jr $ra` with `addiu $v0, $v0, 1` in its delay slot. -/
def hookedReturn : List Instruction :=
  [{ address := 0x100, opcode := .special, function := specialJr, rs := 31, isJump := true,
      hasDelaySlot := true },
    { address := 0x104, opcode := .addiu, rs := 2, rt := 2, simmediate := 1 }]

/-- **A hook in a delay slot is not called.** -/
theorem hookedReturn_not_honoured : ∃ (b : Block) (s : State Unit),
    blocks (hookGenerator [⟨0x104, "fix", false⟩]) hookedFunction hookedReturn = [b] ∧
    Enters Runtime.idle (hookGenerator [⟨0x104, "fix", false⟩]) hookedFunction hookedReturn [] b
      (.entered 0x100 0) s ∧
    ¬ b.HooksHonoured Runtime.idle (hookGenerator [⟨0x104, "fix", false⟩])
      (analysisResult (hookGenerator [⟨0x104, "fix", false⟩]) hookedFunction hookedReturn)
      [⟨0x104, "fix", false⟩] s := by
  refine ⟨⟨0, hookedReturn[0], some hookedReturn[1], .clear, {}⟩, _, rfl, .inr ⟨_, _, .refl, rfl, rfl⟩, fun h => ?_⟩
  have hlog := congrArg (fun r : Result Unit => r.1.log.length) (h.calls hookedReturn[1] rfl rfl (.entered 0x100 0))
  exact absurd hlog (by decide)

end FunctionEmitter

end Ps2Recomp
