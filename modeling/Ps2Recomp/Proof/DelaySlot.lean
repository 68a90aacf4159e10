import Ps2Recomp.Proof.Blocks
import Ps2Recomp.Spec.Guest

/-!
# Branches and the delay slot rule

The block that is emitted for a branch and its delay slot, against the delay slot rule of
the guest machine (`Instruction.branchStep`).

* `emitDelaySlot_run`: the delay slot code runs the delay slot once.
* `staticJump_agrees`, `registerJump_agrees`: jumps follow the rule.
* `conditional_agrees`: a conditional branch follows the rule with the condition and the
  likeliness that the emitter gives it (`emittedStep`).
* `resume_agrees`: entered at the delay slot, the block runs it and goes on at `branch + 8`.
-/

namespace Ps2Recomp

open Goto

/-! ## Contexts up to bookkeeping -/

section Guest

variable {ρ : Type}

theorem Ctx.guest_setGprS32 (c : Ctx ρ) (reg : Reg) (v : Word) :
    (c.setGprS32 reg v).guest = c.guest.setGprS32 reg v := by
  unfold Ctx.setGprS32 Ctx.setGprU64
  split <;> rfl

section

variable {c c' : Ctx ρ} (h : c.guest = c'.guest)

include h

theorem Ctx.gprU32_of_guest (reg : Reg) : c.gprU32 reg = c'.gprU32 reg := congrArg (·.gprU32 reg) h

theorem Cond.eval_of_guest (cond : Cond) : cond.eval c = cond.eval c' := by
  have hg : ∀ c : Ctx ρ, cond.eval c.guest = cond.eval c := by intro c; cases cond <;> rfl
  rw [← hg c, ← hg c', h]

end

/-- `s` is the state of the emitted code where the guest machine is in `g`: the contexts
agree up to bookkeeping, the same instructions ran, and control was not handed over. -/
structure Tracks (g s : State ρ) : Prop where
  ctx : s.ctx.guest = g.ctx.guest
  executed : s.executed = g.executed
  quiet : s.transfers = []

/-- Control has been handed over at `t`, where the guest machine was in `g`. -/
def HandedOver (t : Word) (g s : State ρ) : Prop :=
  ∃ c : Ctx ρ, s.transfers = [(t, c)] ∧ c.guest = g.ctx.guest ∧ s.executed = g.executed

variable {g s : State ρ} {t : Word}

theorem Tracks.mapCtx (h : Tracks g s) {f : Ctx ρ → Ctx ρ} (hf : ∀ c, (f c).guest = c.guest) :
    Tracks g (s.mapCtx f) := ⟨(hf s.ctx).trans h.ctx, h.executed, h.quiet⟩

theorem Tracks.link (h : Tracks g s) (reg : Reg) (v : Word) :
    Tracks (g.mapCtx (·.setGprS32 reg v)) (s.mapCtx (·.setGprS32 reg v)) := by
  refine ⟨?_, h.executed, h.quiet⟩
  change (s.ctx.setGprS32 reg v).guest = (g.ctx.setGprS32 reg v).guest
  rw [Ctx.guest_setGprS32, Ctx.guest_setGprS32, h.ctx]

theorem Tracks.handOver (h : Tracks g s) (t : Word) (f : Ctx ρ → Ctx ρ) :
    HandedOver t g ((s.record (.transfer t s.ctx)).mapCtx f) := by
  refine ⟨s.ctx, ?_, h.ctx, h.executed⟩
  have hq := h.quiet
  unfold State.transfers at hq ⊢
  simp [State.mapCtx, State.record, hq]

theorem HandedOver.mapCtx (h : HandedOver t g s) (f : Ctx ρ → Ctx ρ) : HandedOver t g (s.mapCtx f) := h

theorem HandedOver.agrees (h : HandedOver t g s) (f : Flow Label Exit) : Agrees (s, f) (t, g) := by
  obtain ⟨c, hc, hg, he⟩ := h
  unfold Agrees arrival
  rw [hc]
  exact ⟨rfl, hg, he⟩

section

variable (h : Tracks g s)

include h

theorem Tracks.agrees_goto (t : Word) : Agrees (s, .goto (.at t)) (t, g) := by
  unfold Agrees arrival
  rw [h.quiet]
  exact ⟨rfl, h.ctx, h.executed⟩

theorem Tracks.agrees_fallthrough (b : Word) : Agrees (s, .goto (.fallthrough b)) (b + 8, g) := by
  unfold Agrees arrival
  rw [h.quiet]
  exact ⟨rfl, h.ctx, h.executed⟩

theorem Tracks.agrees_next (hpc : s.ctx.pc = t) : Agrees (s, .next) (t, g) := by
  unfold Agrees arrival
  rw [h.quiet]
  exact ⟨hpc, h.ctx, h.executed⟩

theorem Tracks.agrees_exit (hpc : s.ctx.pc = t) (e : Exit) : Agrees (s, .exit e) (t, g) := by
  unfold Agrees arrival
  rw [h.quiet]
  exact ⟨hpc, h.ctx, h.executed⟩

end

/-- Two guest steps that one block agrees with. -/
theorem Agrees.unique {r : Result ρ} {x y : Word × State ρ} (hx : Agrees r x) (hy : Agrees r y) :
    x.1 = y.1 ∧ x.2.ctx.guest = y.2.ctx.guest ∧ x.2.executed = y.2.executed :=
  ⟨hx.1.symm.trans hy.1, hx.2.1.symm.trans hy.2.1, hx.2.2.symm.trans hy.2.2⟩

end Guest

/-! ## The delay slot -/

/-- The instruction that a statement translates. -/
def Stmt.translated : Stmt → Option Instruction
  | .instr inst _ => some inst
  | _ => none

/-- What slot statements do to a state beside its context. -/
theorem seq_runsInSlot {ρ : Type} {rt : Runtime ρ} {l : List Stmt} (hl : ∀ st ∈ l, st.runsInSlot = true)
    {s s' : State ρ} (h : Goto.seq (Stmt.exec rt) s l = (s', .next)) :
    s'.executed = (l.filterMap Stmt.translated).reverse ++ s.executed ∧
      s'.transfers = s.transfers ∧ s'.jumpTarget = s.jumpTarget ∧ s'.branchTaken = s.branchTaken := by
  induction l generalizing s with
  | nil => cases h; exact ⟨rfl, rfl, rfl, rfl⟩
  | cons st l ih =>
    have hst := hl st List.mem_cons_self
    have ih := fun s h => ih (fun x hx => hl x (List.mem_cons_of_mem _ hx)) (s := s) h
    rw [seq_cons] at h
    cases st with
    | instr inst hint =>
      simp only [Stmt.exec] at h
      split at h
      · cases h
      · obtain ⟨h1, h2, h3, h4⟩ := ih _ h
        refine ⟨?_, h2, h3, h4⟩
        rw [h1]
        simp [Stmt.translated, State.executed, State.mapCtx, State.record]
    | capture a i reg =>
      obtain ⟨h1, h2, h3, h4⟩ := ih _ h
      exact ⟨by rw [h1]; simp [Stmt.translated, State.executed, List.filterMap_cons], h2, h3, h4⟩
    | kick vs =>
      obtain ⟨h1, h2, h3, h4⟩ := ih _ h
      refine ⟨?_, h2, h3, h4⟩
      rw [h1]
      simp [Stmt.translated, State.executed, State.mapCtx, State.record, List.filterMap_cons]
    | _ => cases hst

namespace ControlFlowEmitter

variable {ρ : Type} (rt : Runtime ρ) (e : ControlFlowEmitter)

/-- What the emitted code runs for the delay slot: its translation, nothing for a nop, or
the kick that a plan puts in its place. -/
def slotRun (s : State ρ) : State ρ := (Goto.seq (Stmt.exec rt) s e.delaySlotCode).1

/-- The delay slot does not transfer control, and its effect does not depend on where the
emitted code is. -/
structure SlotOk : Prop where
  next : ∀ s, (Goto.seq (Stmt.exec rt) s e.delaySlotCode).2 = .next
  guest : ∀ s s' : State ρ, s.ctx.guest = s'.ctx.guest → s.kickValue = s'.kickValue →
    (e.slotRun rt s).ctx.guest = (e.slotRun rt s').ctx.guest

variable {rt e} {g s : State ρ}

theorem slotRun_ctx (ho : e.delaySlotOverride = []) (s : State ρ) :
    (e.slotRun rt s).ctx = rt.exec e.delaySlot none s.ctx := by
  unfold slotRun delaySlotCode hasRealDelaySlot
  rw [ho]
  cases hn : isGuestNop e.delaySlot with
  | true => simp [rt.exec_nop hn]
  | false =>
    simp only [List.length_nil, bne_self_eq_false, Bool.not_false, Bool.or_true, Bool.not_true,
      Bool.false_eq_true, if_false, seq_cons, seq_nil, Stmt.exec]
    split <;> rfl

theorem seq_delaySlotCode (hok : e.SlotOk rt) (s : State ρ) :
    Goto.seq (Stmt.exec rt) s e.delaySlotCode = (e.slotRun rt s, .next) :=
  Prod.ext rfl (hok.next s)

/-- **The delay slot code runs the delay slot once.** -/
theorem emitDelaySlot_run (hok : e.SlotOk rt) (ho : e.OverrideOk) (ht : Tracks g s) (hk : s.kickValue = g.kickValue) :
    ∃ s', Goto.seq (Stmt.exec rt) s e.emitDelaySlot = (s', .next) ∧ Tracks (e.slotRun rt g) s' ∧
      s'.jumpTarget = s.jumpTarget ∧ s'.branchTaken = s.branchTaken := by
  have hg := seq_runsInSlot (delaySlotCode_runsInSlot ho) (seq_delaySlotCode hok g)
  unfold emitDelaySlot
  split
  · rename_i hreal
    -- a nop is left out
    have hcode : e.delaySlotCode = [] := by unfold delaySlotCode; rw [if_pos hreal]
    have hrun : e.slotRun rt g = g := by unfold slotRun; rw [hcode]; rfl
    rw [hrun]
    exact ⟨s, rfl, ht, rfl, rfl⟩
  · rw [seq_append, seq_append]
    simp only [seq_cons, seq_nil, Stmt.exec, andThen_next]
    generalize hs1 : ((s.mapCtx (·.setPc e.delayPc)).mapCtx _).mapCtx _ = s1
    have ht1 : Tracks g s1 := by
      rw [← hs1]
      refine Tracks.mapCtx (Tracks.mapCtx (Tracks.mapCtx ht ?_) ?_) ?_ <;> exact fun c => rfl
    have hloc : s1.kickValue = s.kickValue ∧ s1.jumpTarget = s.jumpTarget ∧
        s1.branchTaken = s.branchTaken := by rw [← hs1]; exact ⟨rfl, rfl, rfl⟩
    obtain ⟨h1, h2, h3, h4⟩ := seq_runsInSlot (delaySlotCode_runsInSlot ho) (seq_delaySlotCode hok s1)
    rw [seq_delaySlotCode hok s1]
    refine ⟨_, rfl, ⟨?_, ?_, ?_⟩, h3.trans hloc.2.1, h4.trans hloc.2.2⟩
    · exact hok.guest _ _ ht1.ctx (hloc.1.trans hk)
    · exact h1.trans (by rw [ht1.executed, ← hg.1])
    · exact h2.trans ht1.quiet

/-! ## Jumps -/

variable (rt e) in
theorem emitInternalTarget_run (ht : Tracks g s) (t source : Word) : ∃ s' f,
    Goto.seq (Stmt.exec rt) s (e.emitInternalTarget t source) = (s', f) ∧ f ≠ .next ∧ Agrees (s', f) (t, g) := by
  have hpc := ht.mapCtx (f := (·.setPc t)) fun c => rfl
  unfold emitInternalTarget
  split
  · simp only [List.cons_append, List.nil_append, seq_cons, Stmt.exec, andThen_next]
    split
    · exact ⟨_, _, rfl, by simp, (hpc.handOver t _).agrees _⟩
    · exact ⟨_, _, rfl, by simp, (hpc.handOver t _).agrees _⟩
  · exact ⟨_, _, rfl, by simp, hpc.agrees_goto t⟩

variable (rt e) in
/-- What follows the transfer in a block. -/
def finish (s : State ρ) : Result ρ := (s.mapCtx (·.setPc e.fallthroughPc), .next)

/-- Entered at the branch, a block is its transfer followed by the fall through. -/
theorem emit_run (hpc : s.ctx.pc ≠ e.delayPc) : Goto.seq (Item.exec rt) s e.emit =
    Goto.andThen (Goto.seq (Item.exec rt) (s.mapCtx (·.setPc e.branchPc)) e.emitTransfer) (e.finish) := by
  have hres : Goto.seq (Item.exec rt) s e.emitResumeFromDelaySlotEntry = (s, .next) := by
    unfold emitResumeFromDelaySlotEntry
    split
    · rfl
    · simp [hpc]
  have hfall : ∀ s : State ρ, Goto.seq (Item.exec rt) s
      (e.emitFallthroughLabelIfNeeded ++ [.stmt (.setPc e.fallthroughPc)]) = e.finish s := by
    intro s
    unfold emitFallthroughLabelIfNeeded
    split <;> rfl
  unfold emit
  rw [List.append_assoc, List.append_assoc, List.append_assoc, seq_append, hres, andThen_next, seq_append]
  simp only [seq_cons, seq_nil, Item.exec_stmt, Stmt.exec, andThen_next]
  rw [seq_append]
  congr 1
  funext s
  exact hfall s

theorem finish_agrees {r : Result ρ} {t : Word} (hf : r.2 ≠ .next) (h : Agrees r (t, g)) :
    Agrees (Goto.andThen r e.finish) (t, g) := by
  obtain ⟨s, _ | l | x⟩ := r
  · exact absurd rfl hf
  · exact h
  · exact h

theorem HandedOver.finish {t : Word} (h : HandedOver t g s) (f : Flow Label Exit) :
    Agrees (Goto.andThen (s, f) e.finish) (t, g) := by
  cases f with
  | next => exact (h.mapCtx _).agrees _
  | goto l => exact h.agrees _
  | exit x => exact h.agrees _

section

variable (hok : e.SlotOk rt) (ho : e.OverrideOk) (isCall : Bool) (ht : Tracks g s)
  (hk : s.kickValue = g.kickValue)

include hok ho ht hk

/-- **`J` and `JAL`** follow the rule. -/
theorem staticJump_agrees :
    Agrees (Goto.andThen (Goto.seq (Stmt.exec rt) s (e.emitStaticJump isCall)) e.finish)
      (e.branchInst.jumpTarget, e.slotRun rt (if isCall then g.mapCtx (·.setGprS32 31 e.fallthroughPc) else g)) := by
  -- the link
  obtain ⟨s1, hs1, ht1, hk1⟩ : ∃ s1, Goto.seq (Stmt.exec rt) s
      (if isCall then [.setGprU32 31 e.fallthroughPc] else []) = (s1, .next) ∧
      Tracks (if isCall then g.mapCtx (·.setGprS32 31 e.fallthroughPc) else g) s1 ∧
      s1.kickValue = (if isCall then g.mapCtx (·.setGprS32 31 e.fallthroughPc) else g).kickValue := by
    cases isCall with
    | true => exact ⟨_, rfl, ht.link _ _, hk⟩
    | false => exact ⟨_, rfl, ht, hk⟩
  generalize (if isCall then g.mapCtx (·.setGprS32 31 e.fallthroughPc) else g) = g' at ht1 hk1 ⊢
  obtain ⟨s2, hs2, ht2, -, -⟩ := emitDelaySlot_run hok ho ht1 hk1
  unfold emitStaticJump
  dsimp only
  rw [seq_append, seq_append, hs1, andThen_next, hs2, andThen_next]
  split
  · obtain ⟨s3, f, hs3, hf, ha⟩ := emitInternalTarget_run rt e ht2
      (buildAbsoluteJumpTarget e.branchInst.address e.branchInst.target) e.branchPc
    rw [hs3]
    exact finish_agrees hf ha
  · have hpc := ht2.mapCtx
      (f := (·.setPc (buildAbsoluteJumpTarget e.branchInst.address e.branchInst.target)))
      fun c => rfl
    rw [seq_append]
    simp only [seq_cons, seq_nil, Stmt.exec, andThen_next, andThen_pure]
    split
    · split
      · -- a handler found by relocation stands for the callee
        simp only [seq_cons, seq_nil, Stmt.exec, andThen_next, andThen_pure]
        exact HandedOver.finish (hpc.handOver _ _) _
      · simp only [seq_cons, seq_nil, Stmt.exec, andThen_pure]
        exact HandedOver.finish (hpc.handOver _ _) _
    · split
      · exact HandedOver.finish (hpc.handOver _ _) _
      · simp only [seq_cons, seq_nil, Stmt.exec, andThen_pure]
        exact HandedOver.finish (hpc.handOver _ _) _

/-- **`JR` and `JALR`** follow the rule: the target is read first. -/
theorem registerJump_agrees :
    Agrees (Goto.andThen (Goto.seq (BlockItem.exec rt) s (e.emitRegisterJump isCall)) e.finish)
      (g.ctx.gprU32 e.branchInst.rs, e.slotRun rt
        (if isCall then g.mapCtx (·.setGprS32 e.branchInst.rd e.fallthroughPc) else g)) := by
  rw [← Ctx.gprU32_of_guest ht.ctx]
  generalize htgt : s.ctx.gprU32 e.branchInst.rs = t
  -- the link, which leaves register 0 alone
  obtain ⟨s1, hs1, ht1, hk1, hj1⟩ : ∃ s1, Goto.seq (BlockItem.exec rt)
      ({ s with jumpTarget := t } : State ρ)
      (if isCall && e.branchInst.rd != 0 then [.stmt (.setGprU32 e.branchInst.rd e.fallthroughPc)]
        else []) = (s1, .next) ∧
      Tracks (if isCall then g.mapCtx (·.setGprS32 e.branchInst.rd e.fallthroughPc) else g) s1 ∧
      s1.kickValue = (if isCall then g.mapCtx (·.setGprS32 e.branchInst.rd e.fallthroughPc)
        else g).kickValue ∧ s1.jumpTarget = t := by
    have ht' : Tracks g ({ s with jumpTarget := t } : State ρ) := ⟨ht.ctx, ht.executed, ht.quiet⟩
    cases isCall with
    | false => exact ⟨_, rfl, ht', hk, rfl⟩
    | true =>
      by_cases hrd : e.branchInst.rd = 0
      · refine ⟨{ s with jumpTarget := t }, by rw [hrd]; rfl, ?_, hk, rfl⟩
        rw [hrd]; exact ht'
      · have hne : (true && e.branchInst.rd != 0) = true := by simpa using hrd
        rw [if_pos hne]
        exact ⟨_, rfl, ht'.link _ _, hk, rfl⟩
  generalize (if isCall then g.mapCtx (·.setGprS32 e.branchInst.rd e.fallthroughPc) else g) = g' at ht1 hk1 ⊢
  obtain ⟨s2, hs2, ht2, hj2, -⟩ := emitDelaySlot_run hok ho ht1 hk1
  have hpc := ht2.mapCtx (f := (·.setPc t)) fun c => rfl
  have hjt : s2.jumpTarget = t := hj2.trans hj1
  unfold emitRegisterJump
  simp only [seq_append, seq_cons, seq_nil, BlockItem.exec_stmt, Stmt.exec, andThen_next, htgt]
  rw [hs1, andThen_next, BlockItem.seq_map_stmt, hs2, andThen_next]
  simp only [andThen_next, hjt]
  generalize hs3 : s2.mapCtx (·.setPc t) = s3 at hpc ⊢
  have hj3 : s3.jumpTarget = t := by rw [← hs3]; exact hjt
  -- a target of the table jumps to its label, any other goes on
  have hswitch : Goto.seq (BlockItem.exec rt) s3
      (if e.resolvedLocalIndirectTargets ≠ [] then [.switchTarget e.resolvedLocalIndirectTargets]
        else []) = (s3, if t ∈ e.resolvedLocalIndirectTargets then .goto (.at t) else .next) := by
    split
    · simp [hj3]
    · rename_i hnil
      rw [not_not] at hnil
      simp [hnil]
  rw [hswitch]
  split
  · exact hpc.agrees_goto t
  · rw [andThen_next]
    split
    · simp only [seq_cons, seq_nil, BlockItem.exec_stmt, Stmt.exec, andThen_pure, hj3]
      exact HandedOver.finish (hpc.handOver _ _) _
    · split
      · simp only [seq_cons, seq_nil, BlockItem.exec_stmt, Stmt.exec, andThen_next, andThen_exit]
        have hpc4 := hpc.mapCtx (f := (·.setPc s3.jumpTarget)) fun c => rfl
        exact hpc4.agrees_exit hj3 _
      · simp only [seq_cons, seq_nil, BlockItem.exec_stmt, Stmt.exec, andThen_pure, hj3]
        exact HandedOver.finish (hpc.handOver _ _) _

end

/-! ## Conditional branches -/

variable (rt e) in
theorem emitTaken_run (ht : Tracks g s) : ∃ s' f, Goto.seq (Stmt.exec rt) s e.emitTaken = (s', f) ∧ f ≠ .next ∧
    Agrees (s', f) (e.branchInst.branchTarget, g) := by
  unfold emitTaken
  dsimp only
  split
  · exact emitInternalTarget_run rt e ht _ _
  · have hpc := ht.mapCtx (f := (·.setPc e.branchInst.branchTarget)) fun c => rfl
    exact ⟨_, _, rfl, by simp, hpc.agrees_exit rfl _⟩

/-- A conditional branch is no jump. -/
theorem isConditional_jumps {inst : Instruction} (h : inst.isConditional = true) :
    inst.isStaticJump = false ∧ inst.isJr = false ∧ inst.isJalr = false ∧ inst.isBranch = true := by
  unfold Instruction.isConditional at h
  rw [Bool.and_eq_true] at h
  obtain ⟨hb, ho⟩ := h
  unfold Instruction.isStaticJump Instruction.isJr Instruction.isJalr
  cases hop : inst.opcode <;> rw [hop] at ho <;> first | (simp [hb]; done) | simp at ho

variable (e) in
/-- The guest machine writes the return address. -/
def linkTo (g : State ρ) : State ρ := g.mapCtx (·.setGprS32 31 e.fallthroughPc)

section

variable (hc : e.branchInst.isConditional = true)

include hc

theorem link_eq (τ : Bool) (g : State ρ) :
    e.branchInst.link τ g =
      if e.linksIfTaken && τ then e.linkTo (if e.linksAlways then e.linkTo g else g)
      else if e.linksAlways then e.linkTo g else g := by
  obtain ⟨hj, -, hjalr, -⟩ := isConditional_jumps hc
  have hjal : e.branchInst.opcode ≠ .jal := by
    intro h
    rw [Instruction.isStaticJump, h] at hj
    cases hj
  unfold Instruction.link Instruction.linkRegister linksIfTaken linksAlways linkTo fallthroughPc
  rw [if_neg hjal, if_neg (by simp [hjalr])]
  by_cases hr : e.branchInst.opcode = .regimm
  · by_cases h1 : e.branchInst.rt = regimmBltzal ∨ e.branchInst.rt = regimmBgezal
    · have h2 : ¬ (e.branchInst.rt = regimmBltzall ∨ e.branchInst.rt = regimmBgezall) := by
        rcases h1 with h1 | h1 <;> rw [h1] <;> decide
      simp [hr, h1, h2]
    · by_cases h2 : e.branchInst.rt = regimmBltzall ∨ e.branchInst.rt = regimmBgezall
      · cases τ <;> simp [hr, h1, h2]
      · simp [hr, h1, h2]
  · simp [hr]

theorem transferTarget_eq (c : Ctx ρ) : e.branchInst.transferTarget c = e.branchInst.branchTarget := by
  obtain ⟨hj, hjr, hjalr, -⟩ := isConditional_jumps hc
  unfold Instruction.transferTarget
  simp [hj, hjr, hjalr]

end

variable (rt e) in
/-- The delay slot rule with the condition and the likeliness of the emitter. -/
def emittedStep (g : State ρ) : Word × State ρ :=
  e.branchInst.outcome (e.slotRun rt) g (e.conditionalBranchExpression.eval g.ctx) e.isLikelyBranch

theorem finish_fallthrough (ht : Tracks g s) : Agrees (e.finish s) (e.fallthroughPc, g) := by
  have hpc := ht.mapCtx (f := (·.setPc e.fallthroughPc)) fun c => rfl
  exact hpc.agrees_next rfl

theorem taken_agrees (ht : Tracks g s) (hb : s.branchTaken = true) :
    Agrees (Goto.andThen (Goto.seq (BlockItem.exec rt) s [.ifTaken e.emitTaken]) e.finish)
      (e.branchInst.branchTarget, g) := by
  obtain ⟨s', f, hs', hf, ha⟩ := emitTaken_run rt e ht
  simp only [seq_cons, seq_nil, BlockItem.exec_ifTaken, hb, if_true, hs', andThen_pure]
  exact finish_agrees hf ha

/-- **A conditional branch** follows the rule with the emitter's condition. -/
theorem conditional_agrees (hok : e.SlotOk rt) (ho : e.OverrideOk)
    (hc : e.branchInst.isConditional = true) (ht : Tracks g s) (hk : s.kickValue = g.kickValue) :
    Agrees (Goto.andThen (Goto.seq (BlockItem.exec rt) s e.emitConditionalBranch) e.finish) (e.emittedStep rt g) := by
  unfold emittedStep Instruction.outcome
  rw [transferTarget_eq hc, link_eq hc, ← Cond.eval_of_guest ht.ctx]
  generalize hτ : e.conditionalBranchExpression.eval s.ctx = τ
  -- the unconditional link
  obtain ⟨s1, hs1, ht1, hk1, hb1⟩ : ∃ s1, Goto.seq (BlockItem.exec rt)
      ({ s with branchTaken := τ } : State ρ)
      (if e.linksAlways then [.stmt (.setGprU32 31 e.fallthroughPc)] else []) = (s1, .next) ∧
      Tracks (if e.linksAlways then e.linkTo g else g) s1 ∧
      s1.kickValue = (if e.linksAlways then e.linkTo g else g).kickValue ∧ s1.branchTaken = τ := by
    have ht' : Tracks g ({ s with branchTaken := τ } : State ρ) := ⟨ht.ctx, ht.executed, ht.quiet⟩
    split
    · exact ⟨_, rfl, ht'.link _ _, hk, rfl⟩
    · exact ⟨_, rfl, ht', hk, rfl⟩
  generalize (if e.linksAlways then e.linkTo g else g) = g1 at ht1 hk1 ⊢
  unfold emitConditionalBranch
  simp only [seq_append, seq_cons, seq_nil, BlockItem.exec_stmt, Stmt.exec, andThen_next, hτ]
  rw [hs1, andThen_next]
  split
  · -- likely: everything is in the body of the `if`
    rename_i hlikely
    cases τ with
    | false =>
      simp only [seq_cons, seq_nil, BlockItem.exec_ifTaken, hb1, hlikely, Bool.false_eq_true,
        if_false, andThen_next, Bool.and_false, Bool.not_true, Bool.or_self]
      exact finish_fallthrough ht1
    | true =>
      obtain ⟨s2, hs2, ht2, hk2⟩ : ∃ s2, Goto.seq (Stmt.exec rt) s1
          (if e.linksIfTaken then [.setGprU32 31 e.fallthroughPc] else []) = (s2, .next) ∧
          Tracks (if e.linksIfTaken then e.linkTo g1 else g1) s2 ∧
          s2.kickValue = (if e.linksIfTaken then e.linkTo g1 else g1).kickValue := by
        split
        · exact ⟨_, rfl, ht1.link _ _, hk1⟩
        · exact ⟨_, rfl, ht1, hk1⟩
      obtain ⟨s3, hs3, ht3, -, -⟩ := emitDelaySlot_run hok ho ht2 hk2
      obtain ⟨s4, f, hs4, hf, ha⟩ := emitTaken_run rt e ht3
      simp only [seq_cons, seq_nil, BlockItem.exec_ifTaken, hb1, if_true, andThen_pure, seq_append,
        hs2, hs3, hs4, andThen_next, Bool.and_true, Bool.true_or]
      exact finish_agrees hf ha
  · -- not likely: the delay slot stands between the link and the jump
    rename_i hlikely
    obtain ⟨s2, hs2, ht2, hk2, hb2⟩ : ∃ s2, Goto.seq (BlockItem.exec rt) s1
        (if e.linksIfTaken then [.ifTaken (if e.linksIfTaken then [.setGprU32 31 e.fallthroughPc]
          else [])] else []) = (s2, .next) ∧
        Tracks (if e.linksIfTaken && τ then e.linkTo g1 else g1) s2 ∧
        s2.kickValue = (if e.linksIfTaken && τ then e.linkTo g1 else g1).kickValue ∧
        s2.branchTaken = τ := by
      cases e.linksIfTaken with
      | false => exact ⟨_, rfl, ht1, hk1, hb1⟩
      | true =>
        simp only [if_true, seq_cons, seq_nil, BlockItem.exec_ifTaken, hb1, Bool.true_and]
        cases τ with
        | false => exact ⟨_, rfl, ht1, hk1, hb1⟩
        | true => exact ⟨_, rfl, ht1.link _ _, hk1, hb1⟩
    obtain ⟨s3, hs3, ht3, -, hb3⟩ := emitDelaySlot_run hok ho ht2 hk2
    rw [seq_append, seq_append, hs2, andThen_next, BlockItem.seq_map_stmt, hs3, andThen_next]
    have hrun : (τ || !e.isLikelyBranch) = true := by simp [hlikely]
    rw [if_pos hrun]
    cases τ with
    | true => exact taken_agrees ht3 (hb3.trans hb2)
    | false =>
      simp only [seq_cons, seq_nil, BlockItem.exec_ifTaken, hb3, hb2, Bool.false_eq_true, if_false, andThen_next]
      exact finish_fallthrough ht3

/-! ## Entering at the delay slot -/

/-- **Entered at the delay slot**, a block runs it and goes on at `branch + 8`. -/
theorem resume_agrees (hok : e.SlotOk rt) (ho : e.OverrideOk) (ht : Tracks g s) (hk : s.kickValue = g.kickValue)
    (hpc : s.ctx.pc = e.delayPc) (hint : e.isInternalTarget e.delayPc = true) :
    Agrees (Goto.seq (Item.exec rt) s e.emit) (e.fallthroughPc, e.slotRun rt g) := by
  obtain ⟨s1, hs1, ht1, -, -⟩ := emitDelaySlot_run hok ho ht hk
  have hpc1 := ht1.mapCtx (f := (·.setPc e.fallthroughPc)) fun c => rfl
  have hres : Goto.seq (Item.exec rt) s e.emitResumeFromDelaySlotEntry =
      (s1.mapCtx (·.setPc e.fallthroughPc), .goto (if e.isInternalTarget e.fallthroughPc
        then .at e.fallthroughPc else .fallthrough e.branchPc)) := by
    unfold emitResumeFromDelaySlotEntry
    simp only [hint, Bool.not_true, Bool.false_eq_true, if_false, seq_cons, seq_nil,
      Item.exec_ifPcEq, hpc, if_true, seq_append, hs1, andThen_next, Stmt.exec, andThen_pure]
  unfold emit
  rw [List.append_assoc, List.append_assoc, List.append_assoc, seq_append, hres, andThen_goto]
  split
  · exact hpc1.agrees_goto _
  · exact hpc1.agrees_fallthrough _

end ControlFlowEmitter

end Ps2Recomp
