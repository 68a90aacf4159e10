import Ps2Recomp.Proof.Table

/-!
# Returning for preemption

Emitted code returns when `shouldPreemptGuestExecution` says so, in front of a backward
jump, with `ctx->pc` at the target of the jump. The dispatcher then looks that address
up.

* `exec_preempted`: a single item that returns for preemption leaves `ctx->pc` at the
  target of a backward branch of its block.
* `preempted_pc`: so does every run of an emitted function. A `J` is spread over several
  items: the store of the target is the item before the check.
* `mem_resume_of_backward`: the analyzer makes such a target a resume point, unless it
  is the start of the function.
* `preempted_resumes`: hence the address is registered, and leads back to its own code.
-/

namespace Ps2Recomp

open Goto

/-- If a statement returned for preemption, `P` holds of `ctx->pc`. -/
def PreemptsAt {ρ : Type} (P : Word → Prop) (r : Result ρ) : Prop :=
  r.2 = .exit .preempted → P r.1.ctx.pc

variable {l : List Stmt} {i : Item} {α : Type}

section Rules

variable {ρ : Type} {P : Word → Prop} {rt : Runtime ρ}

theorem PreemptsAt.andThen {r : Result ρ} {f : State ρ → Result ρ} (hr : PreemptsAt P r)
    (hf : ∀ s, PreemptsAt P (f s)) : PreemptsAt P (Goto.andThen r f) := by
  obtain ⟨s, _ | l | e⟩ := r
  · exact hf s
  · exact fun h => by cases h
  · exact hr

section

variable {exec : α → State ρ → Result ρ}

theorem PreemptsAt.seq {l : List α}
    (h : ∀ x ∈ l, ∀ s, PreemptsAt P (exec x s)) (s : State ρ) : PreemptsAt P (Goto.seq exec s l) := by
  induction l generalizing s with
  | nil => exact fun h => by cases h
  | cons x l ih =>
    rw [seq_cons]
    exact (h x List.mem_cons_self s).andThen (ih fun y hy => h y (List.mem_cons_of_mem _ hy))

theorem PreemptsAt.append {l l' : List α} (h : ∀ s, PreemptsAt P (Goto.seq exec s l))
    (h' : ∀ s, PreemptsAt P (Goto.seq exec s l')) (s : State ρ) : PreemptsAt P (Goto.seq exec s (l ++ l')) := by
  rw [seq_append]
  exact (h s).andThen h'

end

theorem Stmt.preemptsAt_of_ne {st : Stmt} (h : st ≠ .preempt) (s : State ρ) : PreemptsAt P (st.exec rt s) := by
  intro he
  exfalso
  cases st
  case preempt => exact h rfl
  case instr => simp only [Stmt.exec] at he; split_ifs at he; cases he
  case returnIfPcNe => simp only [Stmt.exec] at he; split_ifs at he; cases he
  case dispatch => simp only [Stmt.exec] at he; split_ifs at he; cases he
  all_goals cases he

theorem preemptsAt_of_not_mem (h : Stmt.preempt ∉ l) (s : State ρ) : PreemptsAt P (Goto.seq (Stmt.exec rt) s l) :=
  PreemptsAt.seq (fun _ hx s => Stmt.preemptsAt_of_ne (fun he => h (he ▸ hx)) s) s

section

variable (h : ∀ s, PreemptsAt P (Goto.seq (Stmt.exec rt) s l))

include h

theorem preemptsAt_map_stmt (s : State ρ) : PreemptsAt P (Goto.seq (BlockItem.exec rt) s (l.map .stmt)) := by
  rw [BlockItem.seq_map_stmt]
  exact h s

theorem preemptsAt_ifTaken (s : State ρ) : PreemptsAt P (Goto.seq (BlockItem.exec rt) s [.ifTaken l]) := by
  rw [seq_cons]
  refine PreemptsAt.andThen ?_ fun s' hp => by cases hp
  rw [BlockItem.exec_ifTaken]
  split
  · exact h s
  · exact fun hp => by cases hp

end

theorem preemptsAt_stmt {st : Stmt} (h : st ≠ .preempt) (s : State ρ) :
    PreemptsAt P (Goto.seq (BlockItem.exec rt) s [.stmt st]) := by
  rw [seq_cons]
  exact (Stmt.preemptsAt_of_ne h s).andThen fun s' hp => by cases hp

theorem Item.preemptsAt_of_not_mem (h : Stmt.preempt ∉ i.stmts) (s : State ρ) : PreemptsAt P (i.exec rt s) := by
  cases i with
  | label l => exact fun hp => by cases hp
  | stmt st => exact Stmt.preemptsAt_of_ne (fun he => h (by simp [Item.stmts, he])) s
  | ifPcEq a body =>
    rw [Item.exec_ifPcEq]
    split
    · exact Ps2Recomp.preemptsAt_of_not_mem h s
    · exact fun hp => by cases hp
  | switchPc ts =>
    intro hp
    rw [Item.exec_switchPc] at hp
    dsimp only at hp
    split_ifs at hp
  | block body =>
    refine PreemptsAt.seq (fun x hx s => ?_) s
    have hx' : Stmt.preempt ∉ x.stmts := fun hm => h (List.mem_flatMap.2 ⟨x, hx, hm⟩)
    cases x with
    | stmt st => exact Stmt.preemptsAt_of_ne (fun he => hx' (by simp [BlockItem.stmts, he])) s
    | ifTaken l =>
      rw [BlockItem.exec_ifTaken]
      split
      · exact Ps2Recomp.preemptsAt_of_not_mem hx' s
      · exact fun hp => by cases hp
    | switchTarget ts =>
      intro hp
      rw [BlockItem.exec_switchTarget] at hp
      dsimp only at hp
      split_ifs at hp

end Rules

namespace ControlFlowEmitter

variable {e : ControlFlowEmitter} {ρ : Type} {rt : Runtime ρ}

/-- The targets a branch checks for preemption at. -/
structure ChecksAt (e : ControlFlowEmitter) (t : Word) : Prop where
  internal : e.isInternalTarget t = true
  backward : t ≤ e.branchPc
  target : Analyzer.staticTarget e.branchInst = some t

theorem preempt_not_mem_delaySlot (ho : Stmt.preempt ∉ e.delaySlotOverride) : Stmt.preempt ∉ e.emitDelaySlot := by
  unfold emitDelaySlot delaySlotCode
  split
  · simp
  · split <;> simp [ho]

theorem emitInternalTarget_preemptsAt {t source : Word} {P : Word → Prop} (h : t ≤ source → P t) (s : State ρ) :
    PreemptsAt P (Goto.seq (Stmt.exec rt) s (e.emitInternalTarget t source)) := by
  unfold emitInternalTarget
  split
  · rename_i hb
    intro he
    simp only [List.cons_append, List.nil_append, seq_cons, Stmt.exec, andThen_next] at he ⊢
    split
    · exact h hb.1
    · rename_i hp; rw [if_neg hp] at he; cases he
  · exact preemptsAt_of_not_mem (by simp) s

theorem emitTaken_preemptsAt (ht : Analyzer.staticTarget e.branchInst = some e.branchInst.branchTarget)
    (s : State ρ) : PreemptsAt e.ChecksAt (Goto.seq (Stmt.exec rt) s e.emitTaken) := by
  unfold emitTaken
  dsimp only
  split
  · rename_i hi
    exact emitInternalTarget_preemptsAt (fun hb => ⟨hi, hb, ht⟩) s
  · exact preemptsAt_of_not_mem (by simp) s

section

variable (ho : Stmt.preempt ∉ e.delaySlotOverride)

include ho

theorem emitConditionalBranch_preemptsAt (ht : Analyzer.staticTarget e.branchInst = some e.branchInst.branchTarget)
    (s : State ρ) : PreemptsAt e.ChecksAt (Goto.seq (BlockItem.exec rt) s e.emitConditionalBranch) := by
  have hslot : ∀ s, PreemptsAt e.ChecksAt (Goto.seq (Stmt.exec rt) s e.emitDelaySlot) :=
    preemptsAt_of_not_mem (preempt_not_mem_delaySlot ho)
  have hlink : ∀ s, PreemptsAt e.ChecksAt (Goto.seq (Stmt.exec rt) s
      (if e.linksIfTaken then [Stmt.setGprU32 31 e.fallthroughPc] else [])) := by
    intro s
    split
    · exact preemptsAt_of_not_mem (by simp) s
    · exact preemptsAt_of_not_mem (by simp) s
  unfold emitConditionalBranch
  dsimp only
  refine PreemptsAt.append (PreemptsAt.append (preemptsAt_stmt (by simp)) ?_) ?_ s
  · intro s
    split
    · exact preemptsAt_stmt (by simp) s
    · exact fun hp => by cases hp
  · intro s
    split
    · exact preemptsAt_ifTaken (PreemptsAt.append (PreemptsAt.append hlink hslot) (emitTaken_preemptsAt ht)) s
    · refine PreemptsAt.append (PreemptsAt.append ?_ (preemptsAt_map_stmt hslot))
        (preemptsAt_ifTaken (emitTaken_preemptsAt ht)) s
      intro s
      split
      · rename_i h
        exact preemptsAt_ifTaken (by simpa [h] using hlink) s
      · exact fun hp => by cases hp

theorem emitRegisterJump_preemptsAt {P : Word → Prop} (isCall : Bool) (s : State ρ) :
    PreemptsAt P (Goto.seq (BlockItem.exec rt) s (e.emitRegisterJump isCall)) := by
  rw [← Item.exec_block]
  refine Item.preemptsAt_of_not_mem ?_ s
  -- a register jump has no check
  have hslot : Stmt.preempt ∉ (e.emitDelaySlot.map BlockItem.stmt).flatMap BlockItem.stmts := by
    rw [List.flatMap_map]
    simpa [BlockItem.stmts] using preempt_not_mem_delaySlot ho
  unfold Item.stmts emitRegisterJump
  simp only [List.flatMap_append, List.mem_append, hslot]
  split_ifs <;> simp [BlockItem.stmts]

end

/-- Statements at function scope: a check comes right after the store of its target. -/
def Announced (P : Word → Prop) (l : List Item) : Prop :=
  ∀ m, l[m]? = some (.stmt .preempt) → ∃ m' t, m = m' + 1 ∧ l[m']? = some (.stmt (.setPc t)) ∧ P t

section

variable {P : Word → Prop}

theorem Announced.append {l l' : List Item} (h : Announced P l) (h' : Announced P l') : Announced P (l ++ l') := by
  intro m hm
  rcases Nat.lt_or_ge m l.length with hlt | hge
  · rw [List.getElem?_append_left hlt] at hm
    obtain ⟨m', t, rfl, hm', ht⟩ := h m hm
    exact ⟨m', t, rfl, by rw [List.getElem?_append_left (by omega)]; exact hm', ht⟩
  · rw [List.getElem?_append_right hge] at hm
    obtain ⟨m', t, he, hm', ht⟩ := h' _ hm
    refine ⟨l.length + m', t, by omega, ?_, ht⟩
    rw [List.getElem?_append_right (by omega), Nat.add_sub_cancel_left]; exact hm'

theorem announced_of_not_mem {l : List Item} (h : Item.stmt .preempt ∉ l) :
    Announced P l := fun _ hm => absurd (List.mem_of_getElem? hm) h

theorem Announced.flatMap {l : List α} {f : α → List Item}
    (h : ∀ x ∈ l, Announced P (f x)) : Announced P (l.flatMap f) := by
  induction l with
  | nil => exact announced_of_not_mem (by simp)
  | cons x l ih =>
    rw [List.flatMap_cons]
    exact (h x List.mem_cons_self).append (ih fun y hy => h y (List.mem_cons_of_mem _ hy))

theorem announced_map (h : Stmt.preempt ∉ l) : Announced P (l.map .stmt) := announced_of_not_mem (by simpa using h)

theorem emitInternalTarget_announced {t source : Word} (h : t ≤ source → P t) :
    Announced P ((e.emitInternalTarget t source).map .stmt) := by
  unfold emitInternalTarget
  split
  · rename_i hb
    intro m hm
    match m with
    | 0 => cases hm
    | 1 => exact ⟨0, t, rfl, rfl, h hb.1⟩
    | 2 => cases hm
    | m + 3 => cases hm
  · exact announced_map (by simp)

end

theorem emitStaticJump_announced (ho : Stmt.preempt ∉ e.delaySlotOverride)
    (ht : Analyzer.staticTarget e.branchInst = some e.branchInst.jumpTarget) (isCall : Bool) :
    Announced e.ChecksAt ((e.emitStaticJump isCall).map .stmt) := by
  unfold emitStaticJump
  simp only [List.map_append]
  refine Announced.append (Announced.append ?_ (announced_map (preempt_not_mem_delaySlot ho))) ?_
  · split <;> exact announced_of_not_mem (by simp)
  · split
    · rename_i hi
      exact emitInternalTarget_announced fun hb => ⟨hi, hb, ht⟩
    · refine announced_map ?_
      split
      · split <;> simp
      · split <;> simp

theorem staticTarget_of_staticJump (h : e.branchInst.isStaticJump = true) :
    Analyzer.staticTarget e.branchInst = some e.branchInst.jumpTarget := by
  have hc : Analyzer.isConditionalBranch e.branchInst = false := by
    unfold Instruction.isStaticJump at h
    unfold Analyzer.isConditionalBranch
    rcases Bool.or_eq_true_iff.1 h with h | h <;> simp_all
  simp [Analyzer.staticTarget, hc, h]

theorem staticTarget_of_branch (h : e.branchInst.isStaticJump = false) (hb : e.branchInst.isBranch = true) :
    Analyzer.staticTarget e.branchInst = some e.branchInst.branchTarget := by
  have hc : Analyzer.isConditionalBranch e.branchInst = true := by
    unfold Instruction.isStaticJump at h
    unfold Analyzer.isConditionalBranch
    simp_all
  simp [Analyzer.staticTarget, hc]

section

variable (ho : Stmt.preempt ∉ e.delaySlotOverride)

include ho

/-- The items of a branch: the checks of `J` at function scope, the others inside blocks. -/
theorem emit_announced : Announced e.ChecksAt e.emit := by
  unfold emit
  refine Announced.append (Announced.append (Announced.append (Announced.append ?_ ?_) ?_) ?_) ?_
  · unfold emitResumeFromDelaySlotEntry
    split <;> exact announced_of_not_mem (by simp)
  · exact announced_of_not_mem (by simp)
  · unfold emitTransfer
    split
    · exact emitStaticJump_announced ho (staticTarget_of_staticJump ‹_›) _
    · split
      · exact announced_of_not_mem (by simp)
      · split
        · exact announced_of_not_mem (by simp)
        · exact announced_map (by simp [preempt_not_mem_delaySlot ho])
  · unfold emitFallthroughLabelIfNeeded
    split <;> exact announced_of_not_mem (by simp)
  · exact announced_of_not_mem (by simp)

/-- **One item that returns for preemption** leaves `ctx->pc` at a checked target. -/
theorem exec_preempted (hi : i ∈ e.emit)
    (hne : i ≠ .stmt .preempt) (s : State ρ) : PreemptsAt e.ChecksAt (i.exec rt s) := by
  have hstmt : ∀ st, i = .stmt st → PreemptsAt e.ChecksAt (i.exec rt s) := by
    rintro st rfl
    exact Stmt.preemptsAt_of_ne (fun h => hne (h ▸ rfl)) s
  unfold emit at hi
  simp only [List.mem_append] at hi
  rcases hi with (((hi | hi) | hi) | hi) | hi
  · unfold emitResumeFromDelaySlotEntry at hi
    split at hi
    · simp at hi
    · rw [List.mem_singleton] at hi
      subst hi
      rw [Item.exec_ifPcEq]
      split
      · exact preemptsAt_of_not_mem (by simp [preempt_not_mem_delaySlot ho]) s
      · exact fun hp => by cases hp
  · exact hstmt _ (List.mem_singleton.1 hi)
  · unfold emitTransfer at hi
    split at hi
    · obtain ⟨st, -, rfl⟩ := List.mem_map.1 hi
      exact hstmt st rfl
    · split at hi
      · rw [List.mem_singleton] at hi
        subst hi
        exact emitRegisterJump_preemptsAt ho _ s
      · split at hi
        · rename_i hsj _ hbr
          rw [List.mem_singleton] at hi
          subst hi
          exact emitConditionalBranch_preemptsAt ho (staticTarget_of_branch (Bool.eq_false_iff.2 hsj) hbr) s
        · obtain ⟨st, -, rfl⟩ := List.mem_map.1 hi
          exact hstmt st rfl
  · unfold emitFallthroughLabelIfNeeded at hi
    split at hi
    · rw [List.mem_singleton] at hi
      subst hi
      exact fun hp => by cases hp
    · simp at hi
  · exact hstmt _ (List.mem_singleton.1 hi)

end

end ControlFlowEmitter

namespace FunctionEmitter

open ControlFlowEmitter

variable {cg : CodeGenerator} {fn : Function} {instructions : List Instruction} {b : Block} {ar : AnalysisResult}

theorem Block.preempt_not_mem_override : Stmt.preempt ∉ (b.emitter cg ar).delaySlotOverride := by
  unfold Block.emitter branchEmitter gifDmaDelaySlotOverride emitGifDmaCapture gifDmaKickCall
  dsimp only
  split
  · split
    · simp
    · split <;> simp
  · simp

/-- The targets that a function checks for preemption at. -/
def ChecksAt (cg : CodeGenerator) (fn : Function) (instructions : List Instruction) (t : Word) :
    Prop :=
  ∃ b ∈ blocks cg fn instructions, (b.emitter cg (analysisResult cg fn instructions)).ChecksAt t

theorem Block.head_preempt : Stmt.preempt ∉ (b.head cg ar).flatMap Item.stmts := by
  unfold Block.head hookBefore labelFor
  simp only [List.flatMap_append, List.mem_append]
  split_ifs <;> split <;> simp [Item.stmts]

theorem emitPlain_preempt (i : ℕ) (inst : Instruction) (k : ConstantRegisterState)
    (plan : GifDmaKickPlan) : Stmt.preempt ∉ (emitPlain cg i inst k plan).flatMap Item.stmts := by
  unfold emitPlain hookAfter emitGifDmaCapture gifDmaKickCall
  split
  · split
    · split_ifs <;> simp [Item.stmts]
    · split <;> split_ifs <;> simp [Item.stmts]
  · split <;> simp [Item.stmts]

theorem announced_of_stmts {P : Word → Prop} {l : List Item}
    (h : Stmt.preempt ∉ l.flatMap Item.stmts) : Announced P l :=
  announced_of_not_mem fun hm => h (List.mem_flatMap.2 ⟨_, hm, by simp [Item.stmts]⟩)

theorem Block.code_announced : Announced (b.emitter cg ar).ChecksAt (b.code cg ar) := by
  refine (announced_of_stmts Block.head_preempt).append ?_
  unfold Block.core
  split
  · exact emit_announced Block.preempt_not_mem_override
  · exact announced_of_stmts (emitPlain_preempt _ _ _ _)

theorem Announced.mono {P Q : Word → Prop} {l : List Item} (h : Announced P l)
    (hPQ : ∀ t, P t → Q t) : Announced Q l := by
  intro m hm
  obtain ⟨m', t, hm', hl, ht⟩ := h m hm
  exact ⟨m', t, hm', hl, hPQ t ht⟩

theorem emitEntry_preempt : Stmt.preempt ∉ (emitEntry cg fn instructions).flatMap Item.stmts := by
  unfold emitEntry
  split <;> simp [Item.stmts]

theorem emitEnd_preempt : Stmt.preempt ∉ (emitEnd fn instructions).flatMap Item.stmts := by
  unfold emitEnd
  split <;> simp [Item.stmts]

theorem emit_announced : Announced (ChecksAt cg fn instructions) (emit cg fn instructions) := by
  rw [emit_eq]
  refine ((announced_of_stmts emitEntry_preempt).append ?_).append (announced_of_stmts emitEnd_preempt)
  refine Announced.flatMap fun b hb => ?_
  exact Announced.mono Block.code_announced fun t ht => ⟨b, hb, ht⟩

section

variable {ρ : Type} {rt : Runtime ρ}

theorem exec_preempted (hi : i ∈ emit cg fn instructions) (hne : i ≠ .stmt .preempt) (s : State ρ) :
    PreemptsAt (ChecksAt cg fn instructions) (i.exec rt s) := by
  have hfree : ∀ l : List Item, Stmt.preempt ∉ l.flatMap Item.stmts → i ∈ l →
      PreemptsAt (ChecksAt cg fn instructions) (i.exec rt s) := fun l hl hil =>
    Item.preemptsAt_of_not_mem (fun hm => hl (List.mem_flatMap.2 ⟨i, hil, hm⟩)) s
  rw [emit_eq, List.append_assoc, List.mem_append, List.mem_append] at hi
  rcases hi with hi | hi | hi
  · exact hfree _ emitEntry_preempt hi
  · obtain ⟨b, hb, hi⟩ := List.mem_flatMap.1 hi
    rcases List.mem_append.1 hi with hi | hi
    · exact hfree _ Block.head_preempt hi
    · unfold Block.core at hi
      split at hi
      · exact fun hp =>
          ⟨b, hb, ControlFlowEmitter.exec_preempted Block.preempt_not_mem_override hi hne s hp⟩
      · exact hfree _ (emitPlain_preempt _ _ _ _) hi
  · exact hfree _ emitEnd_preempt hi

/-- **Every run that returns for preemption** leaves `ctx->pc` at a target it checks. -/
theorem preempted_pc {s0 s s' : State ρ} {n : ℕ} (hr : Reach (lang rt) (emit cg fn instructions) (0, s0) (n, s))
    (hi : (emit cg fn instructions)[n]? = some i) (he : i.exec rt s = (s', .exit .preempted)) :
    ChecksAt cg fn instructions s'.ctx.pc := by
  by_cases hne : i = .stmt .preempt
  · subst hne
    -- the item before stored the target
    obtain ⟨m, t, rfl, hm, ht⟩ := emit_announced n hi
    obtain ⟨s1, j, -, hj, hex⟩ := reach_prev hr hi rfl
    rw [hm] at hj
    cases hj
    simp only [lang, Item.exec_stmt, Stmt.exec, Prod.mk.injEq, and_true] at hex he
    rw [← he.1, ← hex]
    exact ht
  · have hat : PreemptsAt (ChecksAt cg fn instructions) (i.exec rt s) :=
      exec_preempted (List.mem_of_getElem? hi) hne s
    rw [he] at hat
    exact hat rfl

end

end FunctionEmitter

/-! ## Resuming after preemption -/

namespace Analyzer

variable {az : Analyzer} {fn : Function} {instructions : List Instruction}
  {fns : Option (List Function)} {inst : Instruction} {t : Word}

/-- **A backward target is a resume point**, unless it is the start of the function. -/
theorem mem_resume_of_backward (hi : inst ∈ instructions) (ht : staticTarget inst = some t)
    (hl : isLocal fn instructions t = true) (hb : t ≤ inst.address) (hs : t ≠ fn.start) :
    t ∈ (az.analyze fn instructions fns).resumeEntryPoints := by
  refine List.mem_append_left _ (List.mem_flatMap.2 ⟨inst, hi, List.mem_append_left _ ?_⟩)
  simp only [ht, hl, if_true]
  unfold queueLoopResumeEntryTarget
  rw [if_neg (by simp [hs, BitVec.not_lt.2 hb])]
  exact mem_queueResume.2 ⟨rfl, hl⟩

end Analyzer

namespace FunctionTableEmitter

/-- The table compiles: every name in it is that of a generated function. -/
def Links (R : Recompiler) (table : List (Word × Word)) : Prop :=
  ∀ e ∈ table, ∃ f ∈ R.functions, f.start = e.2

end FunctionTableEmitter

namespace Recompiler

open FunctionTableEmitter

variable {R : Recompiler} {f : Function} {byOwner : List (Word × List Word)}
  {table : List (Word × Word)}

/-- **A run that returns for preemption can be resumed**: `ctx->pc` is registered, and
dispatching it runs the guest code from that address on. -/
theorem preempted_resumes (hf : f ∈ R.functions) (hc : f.hasCode = true)
    (hname : isEntryFunctionName f.name = false)
    (hperm : byOwner.Perm R.resumeEntryTargetsByOwner)
    (ht : FunctionTableEmitter.emit R byOwner = some table) (hlinks : Links R table)
    {ρ : Type} {rt : Runtime ρ} {s₀ s s' : State ρ} {n : ℕ} {i : Item}
    (hr : Reach (lang rt) (R.code f) (0, s₀) (n, s)) (hi : (R.code f)[n]? = some i)
    (he : i.exec rt s = (s', .exit .preempted)) :
    ∃ o, table.lookup s'.ctx.pc = some o ∧ R.DispatchStartsAt o s'.ctx.pc := by
  obtain ⟨is, hd⟩ := decoded_of_hasCode hf hc
  have hown : ownsTargets f = true := by simp [ownsTargets, hc, hname]
  rw [code, hd, Option.getD_some] at hr hi
  obtain ⟨b, hb, hchk⟩ := FunctionEmitter.preempted_pc hr hi he
  generalize s'.ctx.pc = t at hchk
  have hl : Analyzer.isLocal f is t = true :=
    isLocal_of_entryPoint hf hd (List.contains_iff_mem.1 hchk.internal)
  have hreq : ∃ o, (t, o) ∈ requests R byOwner := by
    by_cases hs : t = f.start
    · subst hs; exact ⟨_, mem_requests_start hf hc⟩
    · refine ⟨f.start, mem_requests_owner hperm (mem_assignments_own hf hown hd ?_)⟩
      exact Analyzer.mem_resume_of_backward (FunctionEmitter.mem_blocks _ _ _ hb).mem hchk.target hl hchk.backward hs
  obtain ⟨o, ho⟩ := hreq
  obtain ⟨o', hlook, hreq'⟩ := lookup_of_request hperm ht ho
  obtain ⟨g, hg, hgs⟩ := hlinks _ (FunctionEmitter.mem_of_lookup hlook)
  exact ⟨o', hlook, dispatchStartsAt_of_mem hperm hreq' hg hgs⟩

/-- A loop over its second instruction. -/
def selfLoop : List Instruction :=
  [{ opcode := .addiu, rs := 4, rt := 4, simmediate := 1 },
    { opcode := .beq, simmediate := 0xFFFFFFFF, isBranch := true, hasDelaySlot := true },
    { opcode := .special }]

/-- A runtime that asks for preemption. -/
def preemptingRuntime : Runtime Unit := { Runtime.idle with preempt := fun r => (true, r) }

theorem selfLoop_resumes : ∃ o, [((0x100 : Word), (0x100 : Word)), (0x104, 0x100)].lookup 0x104 =
    some o ∧ (single "loop" 0x100 selfLoop).DispatchStartsAt o 0x104 := by
  have hlabel : findLabel Item.labelOf ((single "loop" 0x100 selfLoop).code
      { name := "loop", start := 0x100, endAddr := 0x10C, isRecompiled := true }) (.at 0x104) =
      some 4 := by decide
  have hreach : Reach (lang preemptingRuntime) ((single "loop" 0x100 selfLoop).code
      { name := "loop", start := 0x100, endAddr := 0x10C, isRecompiled := true })
      (0, .entered 0x104 0) (6, .entered 0x104 0) :=
    ((Relation.ReflTransGen.single (.goto rfl rfl hlabel)).tail (.next rfl rfl)).tail (.next rfl rfl)
  have hperm : [((0x100 : Word), [(0x104 : Word)])].Perm
      (single "loop" 0x100 selfLoop).resumeEntryTargetsByOwner := by decide
  have hlinks : FunctionTableEmitter.Links (single "loop" 0x100 selfLoop) [(0x100, 0x100), (0x104, 0x100)] := by
    intro e he
    simp only [List.mem_cons, List.not_mem_nil, or_false] at he
    rcases he with rfl | rfl <;> exact ⟨_, List.mem_cons_self, rfl⟩
  exact preempted_resumes
    (f := { name := "loop", start := 0x100, endAddr := 0x10C, isRecompiled := true })
    (by decide) (by decide) (by decide) hperm (by decide) hlinks hreach rfl rfl

end Recompiler

end Ps2Recomp
