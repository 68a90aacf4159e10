import Ps2Recomp.Proof.Targets
import Ps2Recomp.Spec.Guest

/-!
# Loops without a preemption check

The flow graph of an emitted function, over the guest addresses at which its blocks are
entered. An edge is checked when the code on the way asks `shouldPreemptGuestExecution` or
calls the dispatcher.

* `Block.core_covered`: the edges cover the runs of the code.
* `quiet_run_ascends`: a run that does not ask goes up, with the same exceptions.
* `emit_ends`: how the code of a branch ends without a check.
* `cycles_checked`: every loop has a checked edge, or a call or a jump table that goes back
  inside the function, or wraps around the address space.
-/

namespace Ps2Recomp

open Goto

/-! ## Ends and runs -/

section Covered

variable {ρ : Type} {rt : Runtime ρ}

/-- The runtime was asked. -/
def State.Asked (s : State ρ) : Prop := s.transfers ≠ []

theorem State.Asked.of_log {s s' : State ρ} (h : ∃ l, s'.log = l ++ s.log) (hs : s.Asked) : s'.Asked := by
  obtain ⟨l, hl⟩ := h
  unfold State.Asked State.transfers at hs ⊢
  rw [hl, List.filterMap_append]
  exact fun h => hs (List.append_eq_nil_iff.1 h).2

theorem State.asked_transfer (s : State ρ) (t : Word) (c : Ctx ρ) (f : Ctx ρ → Ctx ρ) :
    ((s.record (.transfer t c)).mapCtx f).Asked := by
  simp [State.Asked, State.transfers, State.record, State.mapCtx]

theorem Stmt.covered (st : Stmt) (s : State ρ) (m : Bool) (hm : m = true → s.Asked) :
    Covered State.Asked (st.exec rt s) (st.ends m) := by
  have hgo : ∀ s' : State ρ, (∃ l, s'.log = l ++ s.log) →
      Covered State.Asked (s', (.next : Flow Label Exit)) [(none, m)] :=
    fun s' hl => ⟨m, List.mem_singleton_self _, fun h => .of_log hl (hm h)⟩
  unfold Stmt.exec
  cases st
  case goto l => exact ⟨m, List.mem_singleton_self _, hm⟩
  case ret => trivial
  case callFunction t => trivial
  case preempt =>
    dsimp only
    split
    · trivial
    · exact ⟨true, List.mem_singleton_self _, fun _ => s.asked_transfer _ _ _⟩
  case dispatch kind target sourcePc returnPc =>
    dsimp only
    generalize (rt.dispatch _ _ _ _ _).1 = go
    cases go with
    | false => trivial
    | true => exact ⟨true, List.mem_singleton_self _, fun _ => s.asked_transfer _ _ _⟩
  case returnIfPcNe a =>
    dsimp only
    split
    · exact hgo _ ⟨[], rfl⟩
    · trivial
  case instr inst hint =>
    dsimp only
    split
    · trivial
    · exact hgo _ ⟨[_], rfl⟩
  case kick => exact hgo _ ⟨[_], rfl⟩
  case hook => exact hgo _ ⟨[_], rfl⟩
  case callHandler => exact hgo _ ⟨[_], rfl⟩
  all_goals exact hgo _ ⟨[], rfl⟩

theorem BlockItem.covered (b : BlockItem) (s : State ρ) (m : Bool) (hm : m = true → s.Asked) :
    Covered State.Asked (b.exec rt s) (b.ends m) := by
  cases b with
  | stmt st => exact st.covered s m hm
  | ifTaken body =>
    rw [BlockItem.exec_ifTaken]
    split
    · exact (seq_covered (fun st _ => st.covered) hm).mono fun x hx => List.mem_append_left _ hx
    · exact ⟨m, List.mem_append_right _ (List.mem_singleton_self _), hm⟩
  | switchTarget targets =>
    rw [BlockItem.exec_switchTarget]
    split
    · rename_i ht
      exact ⟨m, List.mem_append_left _ (List.mem_map.2 ⟨_, ht, rfl⟩), hm⟩
    · exact ⟨m, List.mem_append_right _ (List.mem_singleton_self _), hm⟩

/-- The items that look at `ctx->pc`. -/
def Item.testsPc : Item → Bool
  | .ifPcEq _ _ | .switchPc _ => true
  | _ => false

theorem Item.covered {i : Item} (hi : i.testsPc = false) (pc : Word) (s : State ρ) (m : Bool)
    (hm : m = true → s.Asked) : Covered State.Asked (i.exec rt s) (i.ends pc m) := by
  cases i with
  | label l => exact ⟨m, List.mem_singleton_self _, hm⟩
  | stmt st => exact st.covered s m hm
  | ifPcEq a body => cases hi
  | switchPc targets => cases hi
  | block body => exact seq_covered (fun b _ => b.covered) hm

end Covered

/-! ## How a branch ends -/

theorem Stmt.ends_runsInSlot {st : Stmt} (h : st.runsInSlot = true) (m : Bool) : st.ends m = [(none, m)] := by
  cases st <;> first | rfl | cases h

theorem ends_map_blockItem (l : List Stmt) (m : Bool) :
    Goto.ends BlockItem.ends (l.map .stmt) m = Goto.ends Stmt.ends l m := by
  induction l generalizing m with
  | nil => rfl
  | cons st l ih =>
    rw [List.map_cons, ends_cons, ends_cons]
    congr 1
    funext m
    exact ih m

theorem ends_map_item (pc : Word) (l : List Stmt) (m : Bool) :
    Goto.ends (Item.ends pc) (l.map .stmt) m = Goto.ends Stmt.ends l m := by
  induction l generalizing m with
  | nil => rfl
  | cons st l ih =>
    rw [List.map_cons, ends_cons, ends_cons]
    congr 1
    funext m
    exact ih m

namespace ControlFlowEmitter

variable {e : ControlFlowEmitter}

theorem emitDelaySlot_ends (ho : e.OverrideOk) (m : Bool) : Goto.ends Stmt.ends e.emitDelaySlot m = [(none, m)] := by
  refine ends_quiet ?_ m
  unfold emitDelaySlot
  split
  · simp
  · intro st hst m
    simp only [List.mem_append, List.mem_cons, List.not_mem_nil, or_false] at hst
    rcases hst with ((rfl | rfl | rfl) | h) | rfl
    · rfl
    · rfl
    · rfl
    · exact Stmt.ends_runsInSlot (delaySlotCode_runsInSlot ho st h) m
    · rfl

theorem emitInternalTarget_ends (t source : Word) : Goto.ends Stmt.ends (e.emitInternalTarget t source) false =
    [(some (.at t), decide (t ≤ source ∧ e.isCallLikeEdge = false))] := by
  unfold emitInternalTarget
  split
  · rename_i h
    simp [Stmt.ends, h]
  · rename_i h
    simp [Stmt.ends, h]

/-- The ways in which a branch goes on inside the function without a check. -/
inductive Unchecked (e : ControlFlowEmitter) : Option Label → Prop
  | next : Unchecked e none
  /-- A branch or a jump to a later address. -/
  | forward {t : Word} : e.branchPc < t → Unchecked e (some (.at t))
  /-- A call inside the function. -/
  | call : e.branchInst.opcode = .jal → Unchecked e (some (.at e.branchInst.jumpTarget))
  | table {t : Word} : t ∈ e.resolvedLocalIndirectTargets → Unchecked e (some (.at t))

variable {l : Option Label}

theorem emitInternalTarget_unchecked {t : Word}
    (hcall : e.isCallLikeEdge = true → t = e.branchInst.jumpTarget ∧ e.branchInst.opcode = .jal)
    (h : (l, false) ∈ Goto.ends Stmt.ends (e.emitInternalTarget t e.branchPc) false) : Unchecked e l := by
  rw [emitInternalTarget_ends, List.mem_singleton, Prod.mk.injEq] at h
  obtain ⟨rfl, hm⟩ := h
  cases hc : e.isCallLikeEdge with
  | true =>
    obtain ⟨rfl, hop⟩ := hcall hc
    exact .call hop
  | false =>
    refine .forward ?_
    simpa [hc] using hm

theorem emitStaticJump_unchecked (ho : e.OverrideOk) (hs : e.branchInst.isStaticJump = true)
    (h : (l, false) ∈ Goto.ends Stmt.ends (e.emitStaticJump (e.branchInst.opcode == .jal)) false) : Unchecked e l := by
  have hlink : ∀ m, Goto.ends Stmt.ends (if e.branchInst.opcode == .jal then
      [.setGprU32 31 e.fallthroughPc] else []) m = [(none, m)] := by
    intro m
    split <;> rfl
  have hcall : e.isCallLikeEdge = true → e.branchInst.opcode = .jal := by
    intro hc
    unfold Instruction.isStaticJump at hs
    unfold isCallLikeEdge Instruction.isJalr at hc
    simp only [Bool.or_eq_true, beq_iff_eq, Bool.and_eq_true] at hs hc
    rcases hc with hc | ⟨hc, -⟩
    · exact hc
    · rw [hc] at hs
      simp at hs
  unfold emitStaticJump at h
  dsimp only at h
  rw [ends_append, ends_append, hlink, endThen_none, emitDelaySlot_ends ho, endThen_none] at h
  split at h
  · exact emitInternalTarget_unchecked (fun hc => ⟨rfl, hcall hc⟩) h
  · have hnext : l = none := by
      revert h
      split
      · split <;> simp [Stmt.ends]
      · split <;> simp [Stmt.ends]
    rw [hnext]
    exact .next

theorem emitRegisterJump_unchecked (ho : e.OverrideOk) {isCall : Bool}
    (h : (l, false) ∈ Goto.ends BlockItem.ends (e.emitRegisterJump isCall) false) : Unchecked e l := by
  have hlink : ∀ m, Goto.ends BlockItem.ends (if isCall && e.branchInst.rd != 0 then
      [.stmt (.setGprU32 e.branchInst.rd e.fallthroughPc)] else []) m = [(none, m)] := by
    intro m
    split <;> rfl
  -- what follows the switch asks the dispatcher or returns
  have htail : ∀ l, (l, false) ∉ Goto.ends BlockItem.ends
      (if isCall then [.stmt (.dispatch .indirectCall .jumpTarget e.branchPc e.fallthroughPc)]
      else if e.branchInst.rs = 31 then [.stmt .setPcJumpTarget, .stmt .ret]
      else [.stmt (.dispatch .indirectJump .jumpTarget e.branchPc 0)]) false := by
    intro l
    split
    · simp [BlockItem.ends, Stmt.ends]
    · split <;> simp [BlockItem.ends, Stmt.ends]
  -- the switch goes to the table or on
  have hswitch : ∀ x ∈ Goto.ends BlockItem.ends (if e.resolvedLocalIndirectTargets ≠ [] then
      [.switchTarget e.resolvedLocalIndirectTargets] else []) false,
      x = (none, false) ∨ ∃ t ∈ e.resolvedLocalIndirectTargets, x = (some (.at t), false) := by
    intro x hx
    split at hx
    · rw [ends_cons, mem_endThen] at hx
      rcases hx with ⟨hx, hne⟩ | ⟨m, hm, hx⟩
      · rcases List.mem_append.1 hx with hx | hx
        · obtain ⟨t, ht, rfl⟩ := List.mem_map.1 hx
          exact .inr ⟨t, ht, rfl⟩
        · exact .inl (List.mem_singleton.1 hx)
      · rcases List.mem_append.1 hm with hm | hm
        · simp at hm
        · cases List.mem_singleton.1 hm
          exact .inl (List.mem_singleton.1 hx)
    · exact .inl (List.mem_singleton.1 hx)
  unfold emitRegisterJump at h
  simp only [ends_append, ends_cons, ends_nil, BlockItem.ends, Stmt.ends, endThen_none, hlink,
    ends_map_blockItem, emitDelaySlot_ends ho] at h
  rcases mem_endThen.1 h with ⟨h, hne⟩ | ⟨m, hm, h⟩
  · rcases hswitch _ h with h | ⟨t, ht, h⟩
    · cases h
      exact absurd rfl hne
    · cases h
      exact .table ht
  · rcases hswitch _ hm with hm | ⟨t, -, hm⟩
    · cases hm
      exact absurd h (htail l)
    · cases hm

theorem emitTaken_unchecked (hc : e.isCallLikeEdge = false)
    (h : (l, false) ∈ Goto.ends Stmt.ends e.emitTaken false) : Unchecked e l := by
  unfold emitTaken at h
  dsimp only at h
  split at h
  · exact emitInternalTarget_unchecked (fun hc' => by rw [hc] at hc'; cases hc') h
  · simp [Stmt.ends] at h

section

variable (ho : e.OverrideOk)

include ho

theorem emitConditionalBranch_unchecked (hc : e.isCallLikeEdge = false)
    (h : (l, false) ∈ Goto.ends BlockItem.ends e.emitConditionalBranch false) : Unchecked e l := by
  have hlink : ∀ m, Goto.ends BlockItem.ends (if e.linksAlways then
      [.stmt (.setGprU32 31 e.fallthroughPc)] else []) m = [(none, m)] := by
    intro m
    split <;> rfl
  have hcond : ∀ m, Goto.ends Stmt.ends (if e.linksIfTaken then
      [.setGprU32 31 e.fallthroughPc] else []) m = [(none, m)] := by
    intro m
    split <;> rfl
  -- the body of an `if` that jumps, or the next block
  have hif : ∀ body, (∀ l, (l, false) ∈ Goto.ends Stmt.ends body false → Unchecked e l) →
      (l, false) ∈ Goto.ends BlockItem.ends [.ifTaken body] false → Unchecked e l := by
    intro body hbody h
    rcases mem_endThen.1 h with ⟨h, hne⟩ | ⟨m, hm, h⟩
    · rcases List.mem_append.1 h with h | h
      · exact hbody l h
      · cases List.mem_singleton.1 h
        exact .next
    · cases List.mem_singleton.1 h
      exact .next
  unfold emitConditionalBranch at h
  simp only [ends_append, ends_cons, ends_nil, BlockItem.ends, Stmt.ends, endThen_none, hlink] at h
  split at h
  · refine hif _ (fun l hl => ?_) h
    rw [ends_append, ends_append, hcond, endThen_none, emitDelaySlot_ends ho, endThen_none] at hl
    exact emitTaken_unchecked hc hl
  · have hfirst : ∀ m, ∀ x ∈ Goto.ends BlockItem.ends (if e.linksIfTaken then
        [.ifTaken (if e.linksIfTaken then [.setGprU32 31 e.fallthroughPc] else [])] else []) m,
        x = (none, m) := by
      intro m x hx
      split at hx
      · simpa [BlockItem.ends, Stmt.ends, endThen] using hx
      · simpa using hx
    rw [ends_append, ends_append] at h
    rcases mem_endThen.1 h with ⟨h, hne⟩ | ⟨m, hm, h⟩
    · rcases mem_endThen.1 h with ⟨h, -⟩ | ⟨m, -, h⟩
      · cases hfirst _ _ h
        exact absurd rfl hne
      · rw [ends_map_blockItem, emitDelaySlot_ends ho, List.mem_singleton] at h
        cases h
        exact absurd rfl hne
    · rcases mem_endThen.1 hm with ⟨-, hne⟩ | ⟨m', hm', hm⟩
      · exact absurd rfl hne
      · cases hfirst _ _ hm'
        rw [ends_map_blockItem, emitDelaySlot_ends ho, List.mem_singleton] at hm
        cases hm
        exact hif _ (fun l hl => emitTaken_unchecked hc hl) h

/-- **Entered at the branch**, its code ends as `Unchecked` lists, or with a check. -/
theorem emit_ends {a : Word} (ha : a ≠ e.delayPc)
    (h : (l, false) ∈ Goto.ends (Item.ends a) e.emit false) : Unchecked e l := by
  have hres : Goto.ends (Item.ends a) e.emitResumeFromDelaySlotEntry false = [(none, false)] := by
    unfold emitResumeFromDelaySlotEntry
    split
    · rfl
    · simp [Item.ends, ha]
  have hfall : ∀ m, Goto.ends (Item.ends a)
      (e.emitFallthroughLabelIfNeeded ++ [.stmt (.setPc e.fallthroughPc)]) m = [(none, m)] := by
    intro m
    unfold emitFallthroughLabelIfNeeded
    split <;> rfl
  have htransfer : ∀ l, (l, false) ∈ Goto.ends (Item.ends a) e.emitTransfer false → Unchecked e l := by
    intro l hl
    unfold emitTransfer at hl
    split at hl
    · rename_i hs
      rw [ends_map_item] at hl
      exact emitStaticJump_unchecked ho hs hl
    · rename_i hs
      split at hl
      · rw [ends_cons, Item.ends] at hl
        rcases mem_endThen.1 hl with ⟨hl, -⟩ | ⟨m, -, hl⟩
        · exact emitRegisterJump_unchecked ho hl
        · cases List.mem_singleton.1 hl
          exact .next
      · rename_i hr
        split at hl
        · have hc : e.isCallLikeEdge = false := by
            unfold Instruction.isStaticJump at hs
            unfold isCallLikeEdge
            simp only [Bool.or_eq_true, not_or, Bool.not_eq_true] at hs hr
            simp [hs.2, hr.2]
          rw [ends_cons, Item.ends] at hl
          rcases mem_endThen.1 hl with ⟨hl, -⟩ | ⟨m, -, hl⟩
          · exact emitConditionalBranch_unchecked ho hc hl
          · cases List.mem_singleton.1 hl
            exact .next
        · rw [ends_map_item, ends_cons, Stmt.ends_runsInSlot rfl, endThen_none,
            emitDelaySlot_ends ho, List.mem_singleton] at hl
          cases hl
          exact .next
  unfold emit at h
  rw [List.append_assoc, ends_append, ends_append, ends_append, hres] at h
  simp only [endThen_none, ends_cons, ends_nil, Item.ends, Stmt.ends] at h
  rcases mem_endThen.1 h with ⟨h, -⟩ | ⟨m, hm, h⟩
  · exact htransfer l h
  · rw [hfall, List.mem_singleton] at h
    cases h
    exact .next

/-- **Entered at the delay slot**, the code goes on behind the branch. -/
theorem emit_ends_slot (hint : e.isInternalTarget e.delayPc = true)
    {m : Bool} (h : (l, m) ∈ Goto.ends (Item.ends e.delayPc) e.emit false) :
    l = some (.at e.fallthroughPc) ∨ l = some (.fallthrough e.branchPc) := by
  have hres : Goto.ends (Item.ends e.delayPc) e.emitResumeFromDelaySlotEntry false =
      [(some (if e.isInternalTarget e.fallthroughPc then .at e.fallthroughPc
        else .fallthrough e.branchPc), false)] := by
    unfold emitResumeFromDelaySlotEntry
    simp only [hint, Bool.not_true, Bool.false_eq_true, if_false, ends_cons, Item.ends, if_true, ends_append, emitDelaySlot_ends ho, endThen_none, Stmt.ends, endThen_some]
  unfold emit at h
  rw [List.append_assoc, List.append_assoc, List.append_assoc, ends_append, hres, endThen_some, List.mem_singleton] at h
  cases h
  split
  · exact .inl rfl
  · exact .inr rfl

end

end ControlFlowEmitter

/-! ## The flow graph of a function -/

namespace FunctionEmitter

variable {cg : CodeGenerator} {ar : AnalysisResult} {fn : Function}
  {instructions : List Instruction} {bs : List Block} {b : Block}

/-- The addresses at which the code of a block is entered: its first instruction, and a
delay slot with a label. -/
def Block.entries (ar : AnalysisResult) (b : Block) : List Word :=
  b.inst.address :: ((b.delaySlot.map (·.address)).toList.filter (· ∈ ar.entryPoints))

/-- An edge of the flow graph of the blocks `bs`: a jump, or the way to the next block. -/
inductive FlowEdge (cg : CodeGenerator) (ar : AnalysisResult) (bs : List Block) (checked : Bool) :
    Word → Word → Prop
  | goto {b : Block} {a t : Word} : b ∈ bs → a ∈ b.entries ar →
      (some (.at t), checked) ∈ Goto.ends (Item.ends a) (b.core cg ar) false →
      FlowEdge cg ar bs checked a t
  | next {front back : List Block} {b b' : Block} {a : Word} {l : Option Label} :
      bs = front ++ b :: b' :: back → a ∈ b.entries ar →
      (l, checked) ∈ Goto.ends (Item.ends a) (b.core cg ar) false →
      l = none ∨ l = some (.fallthrough b.inst.address) →
      FlowEdge cg ar bs checked a b'.inst.address

/-- A call (`JAL`) or a jump table at `a` goes to an address `t` of the function that is not
after it. -/
def JumpsBack (cg : CodeGenerator) (ar : AnalysisResult) (bs : List Block) (a t : Word) : Prop :=
  t ≤ a ∧ ∃ b ∈ bs, b.inst.address = a ∧
    ((b.inst.opcode = .jal ∧ t = b.inst.jumpTarget) ∨ t ∈ (b.emitter cg ar).resolvedLocalIndirectTargets)

/-- The code falls through around the end of the address space. -/
def Wraps (a a' : Word) : Prop := a' ≤ a ∧ (a' = a + 4 ∨ a' = a + 8)

theorem mem_entries {a : Word} (h : a ∈ b.entries ar) : a = b.inst.address ∨
    ∃ d, b.delaySlot = some d ∧ a = d.address ∧ a ∈ ar.entryPoints := by
  unfold Block.entries at h
  rcases List.mem_cons.1 h with h | h
  · exact .inl h
  · rw [List.mem_filter] at h
    obtain ⟨h, he⟩ := h
    cases hd : b.delaySlot with
    | none => simp [hd] at h
    | some d => exact .inr ⟨d, rfl, by simpa [hd] using h, by simpa using he⟩

theorem emitPlain_ends (a : Word) (i : ℕ) (inst : Instruction) (k : ConstantRegisterState) (plan : GifDmaKickPlan) :
    Goto.ends (Item.ends a) (emitPlain cg i inst k plan) false = [(none, false)] := by
  have hafter : ∀ m, Goto.ends (Item.ends a) (hookAfter cg inst.address) m = [(none, m)] := by
    intro m
    unfold hookAfter
    split <;> rfl
  unfold emitPlain
  split
  · rw [ends_append, ends_map_item,
      ends_quiet fun st hst => Stmt.ends_runsInSlot (emitGifDmaCapture_runsInSlot _ _ st hst),
      endThen_none]
    split <;> rfl
  · rw [ends_append]
    simp only [ends_cons, ends_nil, Item.ends, Stmt.ends, endThen_none, hafter]

/-- Past the test for the delay slot, the code of a branch does not look at `ctx->pc`. -/
theorem emitTransfer_testsPc {e : ControlFlowEmitter} : ∀ i ∈ [.stmt (.setPc e.branchPc)] ++
    (e.emitTransfer ++ (e.emitFallthroughLabelIfNeeded ++ [.stmt (.setPc e.fallthroughPc)])),
    i.testsPc = false := by
  have hmap : ∀ l : List Stmt, ∀ i ∈ l.map Item.stmt, i.testsPc = false := by
    intro l i hi
    obtain ⟨st, -, rfl⟩ := List.mem_map.1 hi
    rfl
  have hone : ∀ body, ∀ i ∈ [Item.block body], i.testsPc = false := by
    intro body i hi
    rw [List.mem_singleton.1 hi]
    rfl
  intro i hi
  simp only [List.mem_append, List.mem_singleton] at hi
  rcases hi with rfl | hi | hi | rfl
  · rfl
  · unfold ControlFlowEmitter.emitTransfer at hi
    split at hi
    · exact hmap _ i hi
    · split at hi
      · exact hone _ i hi
      · split at hi
        · exact hone _ i hi
        · exact hmap _ i hi
  · unfold ControlFlowEmitter.emitFallthroughLabelIfNeeded at hi
    split at hi
    · rw [List.mem_singleton.1 hi]
      rfl
    · cases hi
  · rfl

theorem emitPlain_testsPc (i : ℕ) (inst : Instruction) (k : ConstantRegisterState)
    (plan : GifDmaKickPlan) : ∀ x ∈ emitPlain cg i inst k plan, x.testsPc = false := by
  intro x hx
  unfold emitPlain hookAfter at hx
  split at hx
  · rcases List.mem_append.1 hx with hx | hx
    · obtain ⟨st, -, rfl⟩ := List.mem_map.1 hx
      rfl
    · split at hx
      · simp only [List.mem_cons, List.not_mem_nil, or_false] at hx
        rcases hx with rfl | rfl <;> rfl
      · cases hx
  · split at hx
    · simp only [List.mem_append, List.mem_cons, List.not_mem_nil, or_false] at hx
      rcases hx with rfl | rfl <;> rfl
    · simp only [List.mem_append, List.mem_cons, List.not_mem_nil, or_false] at hx
      rcases hx with (rfl | rfl) | rfl <;> rfl

/-- **The flow graph covers the runs**: entered at `a`, the code of a block ends as the
static ends say, and asks the runtime on the way where they are marked. -/
theorem Block.core_covered {ρ : Type} {rt : Runtime ρ} (b : Block) (a : Word) (s : State ρ)
    (hpc : s.ctx.pc = (b.emitter cg ar).delayPc ↔ a = (b.emitter cg ar).delayPc) :
    Covered State.Asked (Goto.seq (Item.exec rt) s (b.core cg ar)) (Goto.ends (Item.ends a) (b.core cg ar) false) := by
  unfold Block.core
  split
  · unfold ControlFlowEmitter.emit
    rw [List.append_assoc, List.append_assoc, List.append_assoc, seq_append, ends_append]
    refine Covered.andThen ?_ fun s m hm =>
      seq_covered (fun i hi => Item.covered (emitTransfer_testsPc i hi) a) hm
    unfold ControlFlowEmitter.emitResumeFromDelaySlotEntry
    split
    · exact ⟨false, List.mem_singleton_self _, by simp⟩
    · rw [ends_singleton, Item.ends]
      simp only [seq_cons, seq_nil, andThen_pure, Item.exec_ifPcEq]
      by_cases h : a = (b.emitter cg ar).delayPc
      · rw [if_pos h, if_pos (hpc.2 h)]
        exact seq_covered (fun st _ => st.covered) (by simp)
      · rw [if_neg h, if_neg fun h' => h (hpc.1 h')]
        exact ⟨false, List.mem_singleton_self _, by simp⟩
  · exact seq_covered (fun i hi => Item.covered (emitPlain_testsPc _ _ _ _ i hi) a) (by simp)

/-- A block that is entered at an address hands over to another, and the runtime was not asked up to there.
The labels and the hook in front of the next block may then do anything to the state. -/
inductive QuietStep {ρ : Type} (rt : Runtime ρ) (cg : CodeGenerator) (ar : AnalysisResult) (bs : List Block) :
    Word × State ρ → Word × State ρ → Prop
  | mk {front back : List Block} {b : Block} {a t : Word} {s s' s'' : State ρ} {r : Flow Label Exit} :
      bs = front ++ b :: back → a ∈ b.entries ar →
      (s.ctx.pc = (b.emitter cg ar).delayPc ↔ a = (b.emitter cg ar).delayPc) →
      Goto.seq (Item.exec rt) s (b.core cg ar) = (s', r) → ¬s'.Asked →
      r = .goto (.at t) ∨ (r = .next ∨ r = .goto (.fallthrough b.inst.address)) ∧ back.head?.map (·.inst.address) = some t →
      QuietStep rt cg ar bs (a, s) (t, s'')

theorem QuietStep.flowEdge {ρ : Type} {rt : Runtime ρ} {p q : Word × State ρ} (h : QuietStep rt cg ar bs p q) :
    FlowEdge cg ar bs false p.1 q.1 := by
  obtain @⟨front, back, b, a, t, s, s', -, r, hbs, ha, hpc, hrun, hasked, hr⟩ := h
  have h : Covered _ (Goto.seq (Item.exec rt) s (b.core cg ar)) _ := b.core_covered a s hpc
  rw [hrun] at h
  -- a mark would stand for a question
  rcases hr with rfl | ⟨rfl | rfl, hnext⟩ <;> obtain ⟨_ | _, hm, hmark⟩ := h
  any_goals exact absurd (hmark rfl) hasked
  · exact .goto (by simp [hbs]) ha hm
  all_goals
    obtain _ | ⟨b', back⟩ := back <;> cases hnext
  · exact .next hbs ha hm (.inl rfl)
  · exact .next hbs ha hm (.inr rfl)

section Chain

variable (hchain : (bs.flatMap Block.addresses).IsChain (fun a a' => a' = a + 4))

include hchain

theorem slot_address (hb : b ∈ bs) {d : Instruction} (hd : b.delaySlot = some d) : d.address = b.inst.address + 4 := by
  obtain ⟨front, back, rfl⟩ := List.append_of_mem hb
  rw [List.flatMap_append, List.flatMap_cons] at hchain
  have hb := (List.isChain_append.1 hchain).2.1
  simp only [Block.addresses, hd, Option.map_some, Option.toList_some, List.cons_append,
    List.nil_append, List.isChain_cons_cons] at hb
  exact hb.1

section

variable {front back : List Block} {b b' : Block} (hbs : bs = front ++ b :: b' :: back)

include hbs

/-- The next block starts where a block ends. -/
theorem next_address : b'.inst.address = b.inst.address + (if b.delaySlot.isSome then 8 else 4) := by
  rw [hbs, List.flatMap_append, List.flatMap_cons, List.flatMap_cons] at hchain
  have hb := (List.isChain_append.1 hchain).2.1
  cases hd : b.delaySlot with
  | none =>
    simp only [Block.addresses, hd, Option.map_none, Option.toList_none, List.cons_append,
      List.nil_append, List.isChain_cons_cons] at hb
    exact hb.1
  | some d =>
    simp only [Block.addresses, hd, Option.map_some, Option.toList_some, List.cons_append,
      List.nil_append, List.isChain_cons_cons] at hb
    rw [hb.2.1, hb.1, BitVec.add_assoc]
    rfl

/-- The way to the next block goes to one of the next two addresses. -/
theorem next_entry {a : Word} (ha : a ∈ b.entries ar) : b'.inst.address = a + 4 ∨ b'.inst.address = a + 8 := by
  have hn := next_address hchain hbs
  rcases mem_entries ha with rfl | ⟨d, hd, rfl, -⟩
  · split at hn
    · exact .inr hn
    · exact .inl hn
  · left
    rw [hn, hd, slot_address hchain (by rw [hbs]; simp) hd, BitVec.add_assoc]
    rfl

end

/-- **An unchecked edge goes up**, if it neither jumps back nor wraps. -/
theorem lt_of_unchecked {a a' : Word} (h : FlowEdge cg ar bs false a a')
    (hback : ¬ JumpsBack cg ar bs a a') (hw : ¬ Wraps a a') : a < a' := by
  rw [← BitVec.not_le]
  intro hle
  cases h with
  | next hbs ha hl hn => exact hw ⟨hle, next_entry hchain hbs ha⟩
  | @goto b _ _ hb ha hl =>
    unfold Block.core at hl
    split at hl
    · rcases mem_entries ha with rfl | ⟨d, hd, rfl, he⟩
      · -- entered at the branch
        have hne : b.inst.address ≠ (b.emitter cg ar).delayPc := by
          change b.inst.address ≠ b.inst.address + 4
          simp
        have hu := ControlFlowEmitter.emit_ends (b.overrideOk cg ar) hne hl
        cases hu with
        | forward hlt => exact absurd hle (BitVec.not_le.2 hlt)
        | call hop => exact hback ⟨hle, b, hb, rfl, .inl ⟨hop, rfl⟩⟩
        | table ht => exact hback ⟨hle, b, hb, rfl, .inr ht⟩
      · -- entered at the delay slot
        have hslot := slot_address hchain hb hd
        rw [hslot] at hl he hw hle
        have hint : (b.emitter cg ar).isInternalTarget (b.emitter cg ar).delayPc = true :=
          List.contains_iff_mem.2 he
        rcases ControlFlowEmitter.emit_ends_slot (b.overrideOk cg ar) hint hl with h | h
        · cases h
          refine hw ⟨hle, .inl ?_⟩
          change b.inst.address + 8 = b.inst.address + 4 + 4
          rw [BitVec.add_assoc]
          rfl
        · cases h
    · rw [emitPlain_ends, List.mem_singleton] at hl
      cases hl

/-- **Every loop is checked**, unless it jumps back by a call or a jump table, or wraps. -/
theorem blocks_cycles_checked (a : Word) :
    ¬ Relation.TransGen (fun x y => FlowEdge cg ar bs false x y ∧ ¬ JumpsBack cg ar bs x y ∧ ¬ Wraps x y) a a :=
  not_cycle_of_lt (f := BitVec.toNat) (fun _ _ h => BitVec.lt_def.1 (lt_of_unchecked hchain h.1 h.2.1 h.2.2)) a

end Chain

end FunctionEmitter

namespace Recompiler

variable {R : Recompiler} {f : Function}

/-- The flow graph of a function that has code. -/
def FlowEdge (R : Recompiler) (f : Function) (checked : Bool) : Word → Word → Prop :=
  let instructions := (R.decoded f.start).getD []
  FunctionEmitter.FlowEdge R.generator (FunctionEmitter.analysisResult R.generator f instructions)
    (FunctionEmitter.blocks R.generator f instructions) checked

/-- The calls and jump tables of a function that go back inside it. -/
def JumpsBack (R : Recompiler) (f : Function) : Word → Word → Prop :=
  let instructions := (R.decoded f.start).getD []
  FunctionEmitter.JumpsBack R.generator (FunctionEmitter.analysisResult R.generator f instructions)
    (FunctionEmitter.blocks R.generator f instructions)

/-- A step that asks nothing, and neither goes back by a call or a jump table nor wraps. -/
def QuietStep {ρ : Type} (R : Recompiler) (f : Function) (rt : Runtime ρ) (p q : Word × State ρ) : Prop :=
  let instructions := (R.decoded f.start).getD []
  FunctionEmitter.QuietStep rt R.generator (FunctionEmitter.analysisResult R.generator f instructions)
    (FunctionEmitter.blocks R.generator f instructions) p q ∧ ¬R.JumpsBack f p.1 q.1 ∧ ¬FunctionEmitter.Wraps p.1 q.1

/-- **A run that does not ask the runtime goes up**, and so comes to no address twice. -/
theorem quiet_run_ascends {ρ : Type} {rt : Runtime ρ} (hf : f ∈ R.functions) (hc : f.hasCode = true)
    {p q : Word × State ρ} (h : Relation.TransGen (R.QuietStep f rt) p q) : p.1 < q.1 := by
  obtain ⟨instructions, hd⟩ := decoded_of_hasCode hf hc
  have hstep : ∀ p q, R.QuietStep f rt p q → p.1 < q.1 := by
    rintro p q ⟨hq, hback, hw⟩
    refine FunctionEmitter.lt_of_unchecked ?_ hq.flowEdge hback hw
    rw [hd, FunctionEmitter.blocks, FunctionEmitter.blocksFrom_addresses]
    exact decoded_chain hd
  induction h with
  | single hpq => exact hstep _ _ hpq
  | tail _ hqr ih => exact BitVec.lt_trans ih (hstep _ _ hqr)

/-- **Every loop of a recompiled function is checked**, unless it jumps back by a call or a
jump table of the function, or wraps around the address space. -/
theorem cycles_checked (hf : f ∈ R.functions) (hc : f.hasCode = true) (a : Word) :
    ¬ Relation.TransGen (fun x y => R.FlowEdge f false x y ∧ ¬ R.JumpsBack f x y ∧
      ¬ FunctionEmitter.Wraps x y) a a := by
  obtain ⟨instructions, hd⟩ := decoded_of_hasCode hf hc
  unfold FlowEdge JumpsBack
  rw [hd, Option.getD_some]
  refine FunctionEmitter.blocks_cycles_checked ?_ a
  rw [FunctionEmitter.blocks, FunctionEmitter.blocksFrom_addresses]
  exact decoded_chain hd

/-- A loop that is closed by a call. -/
def callLoop : List Instruction :=
  [{ opcode := .addiu, rs := 4, rt := 4, simmediate := 1 },
    { opcode := .jal, target := 0x3040, isJump := true, hasDelaySlot := true },
    { opcode := .special }]

/-- The function of `callLoop`. -/
def callLoopFunction : Function :=
  { name := "loop", start := 0xC100, endAddr := 0xC10C, isRecompiled := true }

theorem callLoop_ascends : (0xC100 : Word) < 0xC104 := by
  have hbs : FunctionEmitter.blocks (single "loop" 0xC100 callLoop).generator callLoopFunction
      (((single "loop" 0xC100 callLoop).decoded callLoopFunction.start).getD []) = [] ++ _ :: _ := rfl
  have hstep : (single "loop" 0xC100 callLoop).QuietStep callLoopFunction Runtime.idle
      (0xC100, .entered 0xC100 0) (0xC104, .entered 0xC104 0) :=
    ⟨.mk hbs List.mem_cons_self (by decide) rfl (not_not.2 rfl) (.inr ⟨.inl rfl, rfl⟩),
      fun h => absurd h.1 (by decide), fun h => absurd h.1 (by decide)⟩
  exact quiet_run_ascends (by decide) (by decide) (.single hstep)

theorem callLoop_unchecked :
    callLoopFunction ∈ (single "loop" 0xC100 callLoop).functions ∧ callLoopFunction.hasCode = true ∧
      Relation.TransGen ((single "loop" 0xC100 callLoop).FlowEdge callLoopFunction false) 0xC100 0xC100 := by
  have hbs : FunctionEmitter.blocks (single "loop" 0xC100 callLoop).generator callLoopFunction
      (((single "loop" 0xC100 callLoop).decoded callLoopFunction.start).getD []) =
      [] ++ _ :: _ :: [] := rfl
  refine ⟨by decide, by decide, .tail (.single (b := 0xC104) ?_) ?_⟩
  · exact .next hbs List.mem_cons_self (by decide : (none, false) ∈ _) (.inl rfl)
  · exact .goto (List.Mem.tail _ (List.Mem.head _)) List.mem_cons_self (by decide)

theorem callLoop_checked_or_jumpsBack : ¬ Relation.TransGen
    (fun x y => (single "loop" 0xC100 callLoop).FlowEdge callLoopFunction false x y ∧
      ¬ (single "loop" 0xC100 callLoop).JumpsBack callLoopFunction x y ∧
      ¬ FunctionEmitter.Wraps x y) 0xC100 0xC100 :=
  cycles_checked (by decide) (by decide) 0xC100

end Recompiler

end Ps2Recomp
