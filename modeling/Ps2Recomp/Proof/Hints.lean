import Ps2Recomp.Proof.Targets

/-!
# Resolved addresses

A load or store with a resolved `MemoryAccessHint` accesses the hint instead of the address
that it computes. In every run of an emitted function without hooks the two are the same.

* `Item.exec_events`: an item runs the instructions it contains.
* `Block.outline`: the constants of the emission loop as a proof outline of the code.
* `emit_hints`: only plain instructions have hints.
* `hints_sound`: every access with a hint happens where its base register is known.
-/

namespace Ps2Recomp

open Goto

/-! ## Which instructions an item runs -/

section Events

variable {ρ : Type} {rt : Runtime ρ} {inst : Instruction} {hint : MemoryAccessHint} {c : Ctx ρ}

theorem Stmt.exec_events (st : Stmt) (s : State ρ) (h : Event.exec inst hint c ∈ (st.exec rt s).1.log) :
    Event.exec inst hint c ∈ s.log ∨ (st = .instr inst hint ∧ c = s.ctx) := by
  cases st
  case instr inst' hint' =>
    rcases List.mem_cons.1 h with h | h
    · cases h
      exact .inr ⟨rfl, rfl⟩
    · exact .inl h
  -- nothing is recorded, or something else is
  all_goals first
    | exact .inl h
    | exact (List.mem_cons.1 h).elim (fun h => by cases h) .inl

theorem seq_events {α : Type} {exec : α → State ρ → Result ρ} (stmts : α → List Stmt)
    (hexec : ∀ x s, Event.exec inst hint c ∈ (exec x s).1.log →
      Event.exec inst hint c ∈ s.log ∨ Stmt.instr inst hint ∈ stmts x) {l : List α} {s : State ρ}
    (h : Event.exec inst hint c ∈ (Goto.seq exec s l).1.log) :
    Event.exec inst hint c ∈ s.log ∨ Stmt.instr inst hint ∈ l.flatMap stmts := by
  induction l generalizing s with
  | nil => exact .inl h
  | cons x l ih =>
    rw [List.flatMap_cons, List.mem_append]
    have hx := hexec x s
    rw [seq_cons] at h
    generalize exec x s = r at h hx
    obtain ⟨s', _ | l' | e⟩ := r
    · rcases ih h with h | h
      · exact (hx h).imp_right .inl
      · exact .inr (.inr h)
    · exact (hx h).imp_right .inl
    · exact (hx h).imp_right .inl

theorem seq_stmt_events {l : List Stmt} {s : State ρ}
    (h : Event.exec inst hint c ∈ (Goto.seq (Stmt.exec rt) s l).1.log) :
    Event.exec inst hint c ∈ s.log ∨ Stmt.instr inst hint ∈ l := by
  have := seq_events (fun st => [st]) (fun st s h => (st.exec_events s h).imp_right fun h => by simp [h.1]) h
  simpa using this

theorem BlockItem.exec_events (b : BlockItem) (s : State ρ) (h : Event.exec inst hint c ∈ (b.exec rt s).1.log) :
    Event.exec inst hint c ∈ s.log ∨ Stmt.instr inst hint ∈ b.stmts := by
  cases b with
  | stmt st => exact (st.exec_events s h).imp_right fun h => by simp [BlockItem.stmts, h.1]
  | ifTaken body =>
    rw [BlockItem.exec_ifTaken] at h
    split at h
    · exact seq_stmt_events h
    · exact .inl h
  | switchTarget targets => exact .inl h

/-- **An item runs the instructions it contains.** -/
theorem Item.exec_events (i : Item) (s : State ρ) (h : Event.exec inst hint c ∈ (i.exec rt s).1.log) :
    Event.exec inst hint c ∈ s.log ∨ Stmt.instr inst hint ∈ i.stmts := by
  cases i with
  | label l => exact .inl h
  | stmt st => exact (st.exec_events s h).imp_right fun h => by simp [Item.stmts, h.1]
  | ifPcEq a body =>
    rw [Item.exec_ifPcEq] at h
    split at h
    · exact seq_stmt_events h
    · exact .inl h
  | switchPc targets => exact .inl h
  | block body => exact seq_events BlockItem.stmts (fun b s => b.exec_events s) h

end Events

/-! ## The constants of the emission loop -/

namespace FunctionEmitter

variable {ρ : Type} {rt : Runtime ρ} {cg : CodeGenerator} {fn : Function}
  {instructions : List Instruction} {ar : AnalysisResult} {b : Block}

/-- The constants `k` hold in a state. -/
def Knows (k : ConstantRegisterState) (s : State ρ) : Prop := Sound k s.ctx

theorem knows_clear (s : State ρ) : Knows .clear s := sound_clear s.ctx

/-- No hook is configured at an address. -/
def Unhooked (cg : CodeGenerator) (a : Word) : Prop :=
  cg.midAsmHooksBefore.lookup a = none ∧ cg.midAsmHooksAfter.lookup a = none

theorem hookBefore_nil {a : Word} (h : Unhooked cg a) : hookBefore cg a = [] := by
  unfold hookBefore
  rw [h.1]

theorem hookAfter_nil {a : Word} (h : Unhooked cg a) : hookAfter cg a = [] := by
  unfold hookAfter
  rw [h.2]

/-- The statements of a plain instruction that a plan suppresses leave the registers alone. -/
theorem suppressed_knows {k : ConstantRegisterState} {st : Stmt} {s s' : State ρ}
    (hst : (∃ a i r, st = .capture a i r) ∨ (∃ a, st = .setPc a) ∨ ∃ vs, st = .kick vs)
    (hk : Knows k s) (he : st.exec rt s = (s', .next)) : Knows k s' := by
  rcases hst with ⟨a, i, r, rfl⟩ | ⟨a, rfl⟩ | ⟨vs, rfl⟩
  · cases he
    exact hk
  · cases he
    exact hk.congr fun reg => rfl
  · cases he
    exact hk.congr fun reg => rfl

theorem mem_suppressed {i : ℕ} {a : Word} {plan : GifDmaKickPlan} {x : Item}
    (hx : x ∈ (emitGifDmaCapture plan (plan.slotFor i)).map .stmt ++
      if plan.completesAt i then [.stmt (.setPc a), .stmt (gifDmaKickCall plan)] else []) :
    ∃ st, x = .stmt st ∧ ((∃ a i r, st = .capture a i r) ∨ (∃ a, st = .setPc a) ∨ ∃ vs, st = .kick vs) := by
  rcases List.mem_append.1 hx with hx | hx
  · obtain ⟨st, hst, rfl⟩ := List.mem_map.1 hx
    refine ⟨st, rfl, .inl ?_⟩
    unfold emitGifDmaCapture at hst
    split at hst
    · cases hst
    · split at hst
      · exact ⟨_, _, _, List.mem_singleton.1 hst⟩
      · cases hst
  · split at hx
    · simp only [List.mem_cons, List.not_mem_nil, or_false] at hx
      rcases hx with rfl | rfl
      · exact ⟨_, rfl, .inr (.inl ⟨_, rfl⟩)⟩
      · exact ⟨_, rfl, .inr (.inr ⟨_, rfl⟩)⟩
    · cases hx

theorem knows_update_sw {inst : Instruction} (hop : inst.opcode = .sw) {k : ConstantRegisterState}
    {s : State ρ} (h : Knows k s) : Knows (updateConstantRegisters inst k) s := by
  unfold updateConstantRegisters
  rw [hop]
  dsimp only
  unfold clearIfModified
  split
  · exact sound_clear _
  · exact h

/-- The constants at the code of a block, if a hook forgets them as a label does. -/
def Block.freshAt (cg : CodeGenerator) (ar : AnalysisResult) (b : Block)
    (k : ConstantRegisterState) : ConstantRegisterState :=
  if (cg.midAsmHooksBefore.lookup b.inst.address).isSome then .clear else constantsAt ar b.inst k

/-- The constants after a block, if a hook forgets them. -/
def Block.freshAfter (cg : CodeGenerator) (ar : AnalysisResult) (k : ConstantRegisterState)
    (b : Block) : ConstantRegisterState :=
  if b.inst.hasDelaySlot || (!b.plan.suppresses b.index &&
      (cg.midAsmHooksAfter.lookup b.inst.address).isSome) then .clear
  else updateConstantRegisters b.inst (b.freshAt cg ar k)

/-- The constants after some blocks, if hooks forget them. -/
def fresh (cg : CodeGenerator) (ar : AnalysisResult) (k : ConstantRegisterState) (bs : List Block) :
    ConstantRegisterState := bs.foldl (Block.freshAfter cg ar) k

/-! ## An outline of the code -/

/-- The code of a plain instruction: the constants `k` hold up to the hook after it. -/
def plainOutline (ρ : Type) (cg : CodeGenerator) (i : ℕ) (inst : Instruction)
    (kh k : ConstantRegisterState) (plan : GifDmaKickPlan) : List (Item × (State ρ → Prop)) :=
  if plan.suppresses i then (emitPlain cg i inst kh plan).map fun x => (x, Knows k)
  else [(.stmt (.setPc inst.address), Knows k), (.stmt (.instr inst (resolveMemoryAccessHint inst kh)), Knows k)] ++
    (hookAfter cg inst.address).map fun x => (x, fun _ => True)

theorem plainOutline_fst (i : ℕ) (inst : Instruction) (kh k : ConstantRegisterState) (plan : GifDmaKickPlan) :
    (plainOutline ρ cg i inst kh k plan).map Prod.fst = emitPlain cg i inst kh plan := by
  unfold plainOutline
  split
  · rw [List.map_map]
    simp [Function.comp_def]
  · rename_i hs
    unfold emitPlain
    rw [if_neg hs, List.map_append, List.map_map]
    simp [Function.comp_def]

/-- **The code of a plain instruction**, with hints from any constants `kh`. -/
theorem emitPlain_outline {i : ℕ} {inst : Instruction} {plan : GifDmaKickPlan} (kh k : ConstantRegisterState)
    (hf : FlagsCover rt.toMachine inst) (hsw : plan.suppresses i = true → inst.opcode = .sw) :
    Outline (lang rt) (Knows k) (plainOutline ρ cg i inst kh k plan)
      (Knows (if !plan.suppresses i && (cg.midAsmHooksAfter.lookup inst.address).isSome then .clear
        else updateConstantRegisters inst k)) := by
  unfold plainOutline
  split
  · -- a suppressed store: its code leaves the registers alone
    rename_i hs
    rw [hs]
    refine Outline.post (Outline.of_keep ?_ ?_) fun s => knows_update_sw (hsw hs)
    · unfold emitPlain
      rw [if_pos hs]
      exact fun x hx => (mem_suppressed hx).elim fun st hst => hst.1 ▸ rfl
    · unfold emitPlain
      rw [if_pos hs]
      intro x hx s s' hs he
      obtain ⟨st, rfl, hst⟩ := mem_suppressed hx
      exact suppressed_knows hst hs he
  · rename_i hs
    have hlab : ∀ st l, (lang rt).label (.stmt st) ≠ some l := fun st l h => by cases h
    have hpair : Outline (lang rt) (Knows k) [(.stmt (.setPc inst.address), Knows k),
        (.stmt (.instr inst (resolveMemoryAccessHint inst kh)), Knows k)]
        (Knows (updateConstantRegisters inst k)) := by
      refine ⟨fun s h => h, fun l hl => absurd hl (hlab _ l), ?_, fun l hl => absurd hl (hlab _ l), ?_⟩
      · rintro s' ⟨s, hs, he⟩
        cases he
        exact hs.congr fun reg => rfl
      · rintro s' ⟨s, hs, he⟩
        have hexec : s'.ctx = rt.exec inst (resolveMemoryAccessHint inst kh) s.ctx := by
          have := congrArg (fun r : Result ρ => r.1.ctx) he
          exact this.symm
        unfold Knows
        rw [hexec]
        exact updateConstantRegisters_sound hs hf _
    simp only [Bool.not_eq_true] at hs
    rw [hs]
    unfold hookAfter
    cases cg.midAsmHooksAfter.lookup inst.address with
    | none =>
      rw [List.map_nil, List.append_nil]
      exact hpair
    | some name => exact hpair.append ((Outline.trivial _).post fun s _ => knows_clear s)

/-- The code of a block with what is known in front of each item: at a plain instruction the
constants that follow from `k`, and nothing at a label, at a hook or in a branch. -/
def Block.outline (ρ : Type) (cg : CodeGenerator) (ar : AnalysisResult) (k : ConstantRegisterState)
    (b : Block) : List (Item × (State ρ → Prop)) :=
  (b.head cg ar).map (fun i => (i, fun _ => True)) ++
    if b.inst.hasDelaySlot then (b.core cg ar).map fun i => (i, fun _ => True)
    else plainOutline ρ cg b.index b.inst b.constants (b.freshAt cg ar k) b.plan

variable (k : ConstantRegisterState)

theorem Block.outline_fst : (b.outline ρ cg ar k).map Prod.fst = b.code cg ar := by
  unfold Block.outline Block.code Block.core
  rw [List.map_append, List.map_map]
  split
  · rw [List.map_map]
    simp [Function.comp_def]
  · rw [plainOutline_fst]
    simp [Function.comp_def]

/-- The head of a plain block: its label and its hook forget the constants. -/
theorem Block.head_outline (hs : b.delaySlot = none) (k : ConstantRegisterState) :
    Outline (lang rt) (Knows k) ((b.head cg ar).map fun i => (i, fun _ => True)) (Knows (b.freshAt cg ar k)) := by
  have hclear : ∀ l : List Item, Outline (lang rt) (Knows k) (l.map fun i => (i, fun _ => True))
      (Knows .clear) := fun l => (Outline.trivial l).post fun s _ => knows_clear s
  unfold Block.freshAt
  split
  · exact hclear _
  · rename_i hh
    unfold constantsAt
    split
    · exact hclear _
    · rename_i hl
      have hnone : cg.midAsmHooksBefore.lookup b.inst.address = none :=
        Option.not_isSome_iff_eq_none.1 hh
      unfold Block.head labelFor hookBefore
      rw [hs, if_neg hl, hnone]
      exact fun s h => h

/-- What the outline needs of a block. -/
structure Block.Plain (rt : Runtime ρ) (b : Block) : Prop where
  flags : FlagsCover rt.toMachine b.inst
  store : b.plan.suppresses b.index = true → b.inst.opcode = .sw
  slot : b.inst.hasDelaySlot = false → b.delaySlot = none

theorem Block.outline_holds (h : b.Plain rt) (k : ConstantRegisterState) :
    Outline (lang rt) (Knows k) (b.outline ρ cg ar k) (Knows (b.freshAfter cg ar k)) := by
  unfold Block.outline Block.freshAfter
  cases hd : b.inst.hasDelaySlot with
  | true =>
    rw [if_pos rfl, ← List.map_append]
    exact (Outline.trivial _).post fun s _ => knows_clear s
  | false =>
    rw [if_neg (by simp), Bool.false_or]
    exact (Block.head_outline (h.slot hd) k).append (emitPlain_outline _ _ h.flags h.store)

/-- The outlines of some blocks. -/
def blocksOutline (ρ : Type) (cg : CodeGenerator) (ar : AnalysisResult) :
    ConstantRegisterState → List Block → List (Item × (State ρ → Prop))
  | _, [] => []
  | k, b :: bs => b.outline ρ cg ar k ++ blocksOutline ρ cg ar (b.freshAfter cg ar k) bs

theorem blocksOutline_fst (bs : List Block) :
    (blocksOutline ρ cg ar k bs).map Prod.fst = bs.flatMap (Block.code cg ar) := by
  induction bs generalizing k with
  | nil => rfl
  | cons b bs ih =>
    rw [blocksOutline, List.map_append, Block.outline_fst, ih, List.flatMap_cons]

/-- **The constants that forget at hooks are an outline of the code.** -/
theorem blocks_outline {bs : List Block} (h : ∀ b ∈ bs, b.Plain rt) (k : ConstantRegisterState) :
    Outline (lang rt) (Knows k) (blocksOutline ρ cg ar k bs) (Knows (fresh cg ar k bs)) := by
  induction bs generalizing k with
  | nil => exact fun s hs => hs
  | cons b bs ih =>
    exact (Block.outline_holds (h b List.mem_cons_self) k).append (ih (fun b hb => h b (List.mem_cons_of_mem _ hb)) _)

theorem blocksOutline_append (bs bs' : List Block) : blocksOutline ρ cg ar k (bs ++ bs') =
    blocksOutline ρ cg ar k bs ++ blocksOutline ρ cg ar (fresh cg ar k bs) bs' := by
  induction bs generalizing k with
  | nil => rfl
  | cons b bs ih =>
    rw [List.cons_append, blocksOutline, blocksOutline, ih, List.append_assoc]
    rfl

theorem blocksOutline_mem {k : ConstantRegisterState} {bs : List Block}
    {x : Item × (State ρ → Prop)} (hx : x ∈ blocksOutline ρ cg ar k bs) :
    ∃ bs1 b bs2, bs = bs1 ++ b :: bs2 ∧ x ∈ b.outline ρ cg ar (fresh cg ar k bs1) := by
  induction bs generalizing k with
  | nil => cases hx
  | cons b bs ih =>
    rcases List.mem_append.1 hx with hx | hx
    · exact ⟨[], b, bs, rfl, hx⟩
    · obtain ⟨bs1, b', bs2, rfl, hx'⟩ := ih hx
      exact ⟨b :: bs1, b', bs2, rfl, hx'⟩

theorem blocksFrom_fresh {i : ℕ} {rest : List Instruction} {st : EmitState}
    (hu : ∀ inst ∈ rest, Unhooked cg inst.address) {bs1 bs2 : List Block}
    (h : blocksFrom instructions ar i rest st = bs1 ++ b :: bs2) (hd : b.inst.hasDelaySlot = false) :
    b.freshAt cg ar (fresh cg ar st.constants bs1) = b.constants := by
  have hbranch : ∀ (x : Block) (k : ConstantRegisterState), x.inst.hasDelaySlot = true →
      x.freshAfter cg ar k = .clear := by
    intro x k hx
    unfold Block.freshAfter
    rw [hx, Bool.true_or, if_pos rfl]
  fun_induction blocksFrom instructions ar i rest st generalizing bs1 with
  | case1 => simp at h
  | case2 i inst st hds d rest' ha ih =>
    cases bs1 with
    | nil =>
      cases h
      exact absurd (hds.symm.trans hd) (by simp)
    | cons x bs1 =>
      rw [List.cons_append, List.cons.injEq] at h
      obtain ⟨rfl, h⟩ := h
      have := ih (fun inst hi => hu inst (List.mem_cons_of_mem _ (List.mem_cons_of_mem _ hi))) h
      unfold fresh at this ⊢
      rw [List.foldl_cons, hbranch _ _ hds]
      exact this
  | case3 i inst st hds d rest' ha ih =>
    cases bs1 with
    | nil =>
      cases h
      exact absurd (hds.symm.trans hd) (by simp)
    | cons x bs1 =>
      rw [List.cons_append, List.cons.injEq] at h
      obtain ⟨rfl, h⟩ := h
      have := ih (fun inst hi => hu inst (List.mem_cons_of_mem _ hi)) h
      unfold fresh at this ⊢
      rw [List.foldl_cons, hbranch _ _ hds]
      exact this
  | case4 i inst st hds =>
    cases bs1 with
    | nil =>
      cases h
      exact absurd (hds.symm.trans hd) (by simp)
    | cons x bs1 => simp at h
  | case5 i inst rest st hds k plan =>
    rename_i ih
    have hi := hu inst List.mem_cons_self
    have hat : ∀ x : Block, x.inst = inst → x.freshAt cg ar st.constants = k := by
      intro x hx
      unfold Block.freshAt
      rw [hx, hi.1]
      rfl
    cases bs1 with
    | nil =>
      cases h
      exact hat _ rfl
    | cons x bs1 =>
      rw [List.cons_append, List.cons.injEq] at h
      obtain ⟨rfl, h⟩ := h
      have := ih (fun inst hi => hu inst (List.mem_cons_of_mem _ hi)) h
      unfold fresh at this ⊢
      rw [List.foldl_cons]
      unfold Block.freshAfter at this ⊢
      rw [hat _ rfl, hi.2]
      simp only [hds, Option.isSome_none, Bool.and_false, Bool.or_self]
      exact this

/-! ## The hints of an emitted function -/

/-- An item has no instruction with a hint, or is one whose assertion gives the address. -/
def HintOk (x : Item × (State ρ → Prop)) : Prop :=
  ∀ inst a, Stmt.instr inst (some a) ∈ x.1.stmts →
    x.1 = .stmt (.instr inst (some a)) ∧ ∀ s, x.2 s → a = baseAddress inst s.ctx

theorem hintOk_of_stmts {i : Item} {P : State ρ → Prop}
    (h : ∀ st ∈ i.stmts, st.runsInSlot = true → ∀ inst a, st ≠ .instr inst (some a)) :
    HintOk (i, P) := fun inst a hm => absurd rfl (h _ hm rfl inst a)

/-- The hints of a plain instruction, where they follow from the constants `k` as well. -/
theorem plainOutline_hintOk {i : ℕ} {inst : Instruction} {kh k : ConstantRegisterState} {plan : GifDmaKickPlan}
    (h : ∀ a, resolveMemoryAccessHint inst kh = some a → resolveMemoryAccessHint inst k = some a) :
    ∀ x ∈ plainOutline ρ cg i inst kh k plan, HintOk x := by
  intro x hx
  unfold plainOutline at hx
  split at hx
  · rename_i hs
    obtain ⟨y, hy, rfl⟩ := List.mem_map.1 hx
    unfold emitPlain at hy
    rw [if_pos hs] at hy
    obtain ⟨st, rfl, hst⟩ := mem_suppressed hy
    refine hintOk_of_stmts fun st' hst' _ inst a h => ?_
    rw [List.mem_singleton.1 hst'] at h
    rcases hst with ⟨_, _, _, rfl⟩ | ⟨_, rfl⟩ | ⟨_, rfl⟩ <;> cases h
  · simp only [List.mem_append, List.mem_cons, List.not_mem_nil, or_false] at hx
    rcases hx with (rfl | rfl) | hx
    · exact hintOk_of_stmts fun st hst hr => by rw [List.mem_singleton.1 hst] at hr; cases hr
    · intro inst' a hm
      have heq := List.mem_singleton.1 hm
      rw [Stmt.instr.injEq] at heq
      obtain ⟨rfl, ha⟩ := heq
      exact ⟨by rw [ha], fun s hs => resolveMemoryAccessHint_sound hs (h a ha.symm)⟩
    · obtain ⟨y, hy, rfl⟩ := List.mem_map.1 hx
      unfold hookAfter at hy
      split at hy
      · cases hy
      · rw [List.mem_singleton.1 hy]
        exact hintOk_of_stmts fun st hst hr => by rw [List.mem_singleton.1 hst] at hr; cases hr

theorem Block.head_hintOk {P : State ρ → Prop} : ∀ x ∈ b.head cg ar, HintOk (x, P) := by
  have hlabel : ∀ a, ∀ x ∈ labelFor ar a, HintOk (x, P) := by
    intro a x hx
    unfold labelFor at hx
    split at hx
    · rw [List.mem_singleton.1 hx]
      exact hintOk_of_stmts fun st hst => nomatch hst
    · cases hx
  intro x hx
  unfold Block.head at hx
  rcases List.mem_append.1 hx with hx | hx
  · rcases List.mem_append.1 hx with hx | hx
    · exact hlabel _ x hx
    · unfold hookBefore at hx
      split at hx
      · cases hx
      · simp only [List.mem_cons, List.not_mem_nil, or_false] at hx
        rcases hx with rfl | rfl | rfl <;>
          exact hintOk_of_stmts fun st hst hr => by rw [List.mem_singleton.1 hst] at hr; cases hr
  · split at hx
    · exact hlabel _ x hx
    · cases hx

theorem Block.slot_hint {st : Stmt} (h : st ∈ (b.emitter cg ar).delaySlotCode) (inst : Instruction)
    (a : Word) : st ≠ .instr inst (some a) := by
  rintro rfl
  unfold ControlFlowEmitter.delaySlotCode at h
  split at h
  · cases h
  · split at h
    · unfold Block.emitter branchEmitter gifDmaDelaySlotOverride emitGifDmaCapture gifDmaKickCall at h
      dsimp only at h
      split at h
      · rcases List.mem_append.1 h with h | h
        · split at h
          · cases h
          · split at h
            · cases List.mem_singleton.1 h
            · cases h
        · cases List.mem_singleton.1 h
      · cases h
    · cases List.mem_singleton.1 h

/-- The hint of a block follows from the constants that forget at hooks. -/
def Block.HintFresh (cg : CodeGenerator) (ar : AnalysisResult) (b : Block) (k : ConstantRegisterState) : Prop :=
  b.inst.hasDelaySlot = false → ∀ a, resolveMemoryAccessHint b.inst b.constants = some a →
    resolveMemoryAccessHint b.inst (b.freshAt cg ar k) = some a

/-- **Only plain instructions have hints.** -/
theorem Block.outline_hintOk {k : ConstantRegisterState} (h : b.HintFresh cg ar k) :
    ∀ x ∈ b.outline ρ cg ar k, HintOk x := by
  intro x hx
  unfold Block.outline at hx
  rcases List.mem_append.1 hx with hx | hx
  · obtain ⟨i, hi, rfl⟩ := List.mem_map.1 hx
    exact Block.head_hintOk i hi
  · split at hx
    · rename_i hd
      obtain ⟨i, hi, rfl⟩ := List.mem_map.1 hx
      unfold Block.core at hi
      rw [if_pos hd] at hi
      refine hintOk_of_stmts fun st hst hr inst a => ?_
      rcases ControlFlowEmitter.emit_stmts st (List.mem_flatMap.2 ⟨i, hi, hst⟩) with h | h | rfl
      · rw [h] at hr
        cases hr
      · exact Block.slot_hint h inst a
      · simp
    · rename_i hd
      exact plainOutline_hintOk (h (by simpa using hd)) x hx

/-- The outline of a function. -/
def outline (ρ : Type) (cg : CodeGenerator) (fn : Function) (instructions : List Instruction) :
    List (Item × (State ρ → Prop)) :=
  (emitEntry cg fn instructions).map (fun i => (i, fun _ => True)) ++
    blocksOutline ρ cg (analysisResult cg fn instructions) .clear (blocks cg fn instructions) ++
    (emitEnd fn instructions).map fun i => (i, fun _ => True)

theorem outline_fst : (outline ρ cg fn instructions).map Prod.fst = emit cg fn instructions := by
  unfold outline
  rw [emit_eq, List.map_append, List.map_append, List.map_map, List.map_map, blocksOutline_fst]
  simp [Function.comp_def]

/-- The hints of a function follow from the constants that forget at hooks. -/
def HintsFresh (cg : CodeGenerator) (fn : Function) (instructions : List Instruction) : Prop :=
  ∀ bs₁ b bs₂, blocks cg fn instructions = bs₁ ++ b :: bs₂ →
    b.HintFresh cg (analysisResult cg fn instructions) (fresh cg (analysisResult cg fn instructions) .clear bs₁)

theorem outline_hintOk (h : HintsFresh cg fn instructions) : ∀ x ∈ outline ρ cg fn instructions, HintOk x := by
  intro x hx
  unfold outline at hx
  rcases List.mem_append.1 hx with hx | hx
  · rcases List.mem_append.1 hx with hx | hx
    · obtain ⟨i, hi, rfl⟩ := List.mem_map.1 hx
      unfold emitEntry at hi
      refine hintOk_of_stmts fun st hst hr => ?_
      rcases List.mem_append.1 hi with hi | hi
      · split at hi
        · rw [List.mem_singleton.1 hi] at hst
          cases hst
        · cases hi
      · rw [List.mem_singleton.1 hi] at hst
        rw [List.mem_singleton.1 hst] at hr
        cases hr
    · obtain ⟨bs1, b, bs2, hsplit, hx⟩ := blocksOutline_mem hx
      exact Block.outline_hintOk (h bs1 b bs2 hsplit) x hx
  · obtain ⟨i, hi, rfl⟩ := List.mem_map.1 hx
    unfold emitEnd at hi
    refine hintOk_of_stmts fun st hst hr => ?_
    split at hi
    · cases hi
    · rw [List.mem_singleton.1 hi] at hst
      rw [List.mem_singleton.1 hst] at hr
      cases hr

/-- Without hooks they do. -/
theorem hintsFresh_of_unhooked (hu : ∀ inst ∈ instructions, Unhooked cg inst.address) :
    HintsFresh cg fn instructions := by
  intro bs1 b bs2 hsplit hd a ha
  have hfresh := blocksFrom_fresh hu hsplit hd
  rw [show b.freshAt cg (analysisResult cg fn instructions)
    (fresh cg (analysisResult cg fn instructions) .clear bs1) = b.constants from hfresh]
  exact ha

section

variable (hf : ∀ inst ∈ instructions, FlagsCover rt.toMachine inst)

include hf

theorem blocks_plain : ∀ b ∈ blocks cg fn instructions, b.Plain rt := by
  intro b hb
  have hfrom := mem_blocks cg fn instructions hb
  refine ⟨hf _ hfrom.mem, fun hs => ?_, fun hd => ?_⟩
  · have hinst := hfrom.inst
    rw [Nat.sub_zero] at hinst
    exact (blocksFrom_scanned instructions hb).opcode hs hinst
  · cases hs : b.delaySlot with
    | none => rfl
    | some d =>
      have := (hfrom.slot d hs).1
      rw [hd] at this
      cases this

theorem outline_holds : Outline (lang rt) (fun _ => True) (outline ρ cg fn instructions) fun _ => True :=
  Outline.append (Outline.append ((Outline.trivial _).post fun s _ => knows_clear s)
    (blocks_outline (blocks_plain hf) .clear)) (Outline.trivial _)

end

/-- Every access with a hint that is recorded was at its address. -/
def LogOk (s : State ρ) : Prop :=
  ∀ inst a c, Event.exec inst (some a) c ∈ s.log → a = baseAddress inst c

theorem LogOk.exec {i : Item} {P : State ρ → Prop} {s : State ρ} (h : LogOk s)
    (hok : HintOk (i, P)) (hP : P s) : LogOk (i.exec rt s).1 := by
  intro inst a c he
  rcases Item.exec_events i s he with hin | hm
  · exact h inst a c hin
  · obtain ⟨heq, ha⟩ := hok inst a hm
    change i = _ at heq
    subst heq
    rcases Stmt.exec_events _ s he with hin | ⟨-, rfl⟩
    · exact h inst a c hin
    · exact ha s hP

/-- **Every access with a hint is at its address**, in a run of the code that starts at the
top or at a label, up to and including the item it has reached. -/
theorem logOk_of_reach (hh : HintsFresh cg fn instructions) (hf : ∀ inst ∈ instructions, FlagsCover rt.toMachine inst)
    {n : ℕ} {s : State ρ} (hlog : s.log = [])
    (hn : n = 0 ∨ ∃ i l, (emit cg fn instructions)[n]? = some i ∧ i.labelOf = some l) {p : ℕ × State ρ}
    (hr : Reach (lang rt) (emit cg fn instructions) (n, s) p) :
    LogOk p.2 ∧ ∀ i, (emit cg fn instructions)[p.1]? = some i → LogOk (i.exec rt p.2).1 := by
  have hout : Outline (lang rt) (fun _ => True) (outline ρ cg fn instructions) fun _ => True :=
    outline_holds hf
  rw [← outline_fst (ρ := ρ)] at hr hn ⊢
  have h0 : ∀ a, (outline ρ cg fn instructions)[n]? = some a → a.2 s := by
    intro a ha
    rcases hn with rfl | ⟨i, l, hi, hl⟩
    · exact hout.first ha True.intro
    · rw [List.getElem?_map, ha, Option.map_some, Option.some.injEq] at hi
      subst hi
      exact hout.label (List.mem_of_getElem? ha) hl s
  have hitem : ∀ q : ℕ × State ρ, Reach (lang rt) ((outline ρ cg fn instructions).map Prod.fst)
      (n, s) q → LogOk q.2 → ∀ i, ((outline ρ cg fn instructions).map Prod.fst)[q.1]? = some i →
      LogOk (i.exec rt q.2).1 := by
    intro q hq hok i hi
    rw [List.getElem?_map] at hi
    obtain ⟨x, hx, rfl⟩ := Option.map_eq_some_iff.1 hi
    exact hok.exec (outline_hintOk hh x (List.mem_of_getElem? hx)) (hout.reach h0 hq x hx)
  have hlogOk : LogOk p.2 := by
    induction hr with
    | refl =>
      intro inst a c he
      rw [hlog] at he
      cases he
    | tail hq hst ih =>
      have hstep := hitem _ hq ih
      cases hst with
      | next hi he =>
        have := hstep _ hi
        rwa [show Item.exec rt _ _ = _ from he] at this
      | goto hi he _ =>
        have := hstep _ hi
        rwa [show Item.exec rt _ _ = _ from he] at this
  exact ⟨hlogOk, hitem p hr hlogOk⟩

end FunctionEmitter

namespace Recompiler

variable {R : Recompiler} {f : Function} {ρ : Type} {rt : Runtime ρ}

/-- **Resolved addresses are right.** In every run of a recompiled function without hooks,
from its start or any label, a load or store with a hint executes where
`ADD32(GPR_U32(ctx, rs), simmediate)` is the hint. -/
theorem hints_sound
    (hu : ∀ inst ∈ (R.decoded f.start).getD [], FunctionEmitter.Unhooked R.generator inst.address)
    (hflags : ∀ inst ∈ (R.decoded f.start).getD [], FlagsCover rt.toMachine inst)
    {n n' : ℕ} {s s' : State ρ} (hlog : s.log = [])
    (hn : n = 0 ∨ ∃ i l, (R.code f)[n]? = some i ∧ i.labelOf = some l)
    (hr : Reach (lang rt) (R.code f) (n, s) (n', s')) {i : Item} (hi : (R.code f)[n']? = some i)
    {inst : Instruction} {a : Word} {c : Ctx ρ}
    (he : Event.exec inst (some a) c ∈ (i.exec rt s').1.log) : a = baseAddress inst c :=
  (FunctionEmitter.logOk_of_reach (FunctionEmitter.hintsFresh_of_unhooked hu) hflags hlog hn hr).2 i hi inst a c he

/-- `sw $a0, 0x20($t0)`. -/
def constantSw : Instruction :=
  { address := 0x104, opcode := .sw, rs := 8, rt := 4, simmediate := 0x20 }

/-- A store with a constant address. -/
def constantStore : Recompiler :=
  single "store" 0x100 [{ opcode := .lui, rt := 8, immediate := 0x1000 }, constantSw]

/-- The function of `constantStore`. -/
def constantStoreFunction : Function :=
  { name := "store", start := 0x100, endAddr := 0x108, isRecompiled := true }

theorem constantStore_hint : ∃ (s : State Unit) (c : Ctx Unit),
    Reach (lang Runtime.idle) (constantStore.code constantStoreFunction) (0, .entered 0x100 0) (4, s) ∧
      Event.exec constantSw (some 0x10000020) c ∈
        ((Item.stmt (.instr constantSw (some 0x10000020))).exec Runtime.idle s).1.log ∧
      0x10000020 = baseAddress constantSw c := by
  have hflags : ∀ inst ∈ (constantStore.decoded constantStoreFunction.start).getD [],
      FlagsCover Runtime.idle.toMachine inst := by
    intro inst hi
    have hi' : inst ∈ [({ address := 0x100, opcode := .lui, rt := 8, immediate := 0x1000 } : Instruction),
        constantSw] := hi
    simp only [List.mem_cons, List.not_mem_nil, or_false] at hi'
    rcases hi' with rfl | rfl
    · intro h
      cases h
    · intro _ _ _ hint c reg
      rfl
  have hreach : ∃ s, Reach (lang Runtime.idle) (constantStore.code constantStoreFunction)
      (0, .entered 0x100 0) (4, s) :=
    ⟨_, ((((Relation.ReflTransGen.refl).tail (.next rfl rfl)).tail (.next rfl rfl)).tail
      (.next rfl rfl)).tail (.next rfl rfl)⟩
  obtain ⟨s, hr⟩ := hreach
  refine ⟨s, s.ctx, hr, List.mem_cons_self, ?_⟩
  exact hints_sound (fun inst _ => ⟨rfl, rfl⟩) hflags rfl (.inl rfl) hr rfl List.mem_cons_self

end Recompiler

end Ps2Recomp
