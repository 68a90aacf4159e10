import Ps2Recomp.Proof.Blocks
import Ps2Recomp.Spec.Exceptions

/-!
# Exceptions are not precise

An exception is entered by a call inside the statement of an instruction, and no emitted
statement looks at it afterwards: control goes on to the next statement. `Stmt.scan` follows
where an exception may be pending; it settles at the next statement of a guest instruction.

* `emit_scan`: **in every emitted function a pending exception is run over** before the
  function jumps, leaves or ends.
* `precise_iff`: so the exceptions of a run are precise only if there are none.
-/

namespace Ps2Recomp

open Goto

variable {μ : Type}

/-! ## What an exception records -/

@[simp] theorem signal_r (c : Ctx (Excepting μ)) (e : PS2Exception) : (c.signal e).r = c.r := rfl

/-! ## The statements that leave raise nothing -/

theorem guarded_isNone (m : Machine (Excepting μ)) (inst : Instruction) (hint hint' : MemoryAccessHint)
    (h : (guarded m inst hint).isNone = true) : guarded m inst hint' = none := by
  unfold guarded at h ⊢
  cases ho : inst.opcode <;> rw [ho] at h <;> exact Option.isNone_iff_eq_none.1 h

section

variable (c : Ctx (Excepting μ)) (reg : Reg)

theorem setGprU64_sys (v : BitVec 64) : (c.setGprU64 reg v).sys = c.sys := by
  unfold Ctx.setGprU64
  split <;> rfl

theorem setGprS32_sys (v : Word) : (c.setGprS32 reg v).sys = c.sys := setGprU64_sys c reg _

end

/-- The functions of `SPECIAL` that are written out in `Machine.execSpecial` touch registers
only. -/
theorem execSpecial_cases (m : Machine (Excepting μ)) (inst : Instruction)
    (hint : MemoryAccessHint) (c : Ctx (Excepting μ)) :
    (m.execSpecial inst hint c).sys = c.sys ∨ m.execSpecial inst hint c = m.other inst hint c := by
  unfold Machine.execSpecial
  split
  · left
    split
    · rfl
    · exact setGprS32_sys _ _ _
  · split
    · exact .inl (setGprS32_sys _ _ _)
    · split
      · exact .inl (setGprU64_sys _ _ _)
      · split
        · exact .inl (setGprU64_sys _ _ _)
        · exact .inr rfl

theorem not_raised_of_leaves {bus : Bus μ} {inst : Instruction} (h : bus.machine.leaves inst = true)
    (hint : MemoryAccessHint) (c : Ctx (Excepting μ)) :
    (bus.machine.exec inst hint c).sys.rest.raised = c.sys.rest.raised := by
  have hleaves : mayLeave inst.opcode = true ∧ (guarded bus.accesses inst none).isNone = true := by
    simp only [Bus.machine, Bool.and_eq_true] at h
    exact h.1
  obtain ⟨hmay, hnone⟩ := hleaves
  have hother : (bus.machine.other inst hint c).sys.rest.raised = c.sys.rest.raised := by
    have hg : guarded bus.accesses inst hint = none := guarded_isNone _ _ none hint hnone
    simp only [Bus.machine, hg, Option.getD_none, Bus.quietly]
  unfold Machine.exec
  cases ho : inst.opcode
  case special =>
    rcases execSpecial_cases bus.machine inst hint c with h | h
    · dsimp only
      rw [h]
    · dsimp only
      rw [h]
      exact hother
  all_goals first
    | exact hother
    | (rw [ho] at hmay; cases hmay)

/-! ## Following a pending exception -/

/-- Whether an exception may be pending after a statement, if one may be before it. -/
def Stmt.scan (st : Stmt) (p : Bool) : Option Bool :=
  match st with
  | .instr _ _ => some true
  | .goto _ | .ret | .preempt | .returnIfPcNe _ => if p then none else some false
  | st => some (p && !st.isGuest)

def BlockItem.scan (b : BlockItem) (p : Bool) : Option Bool :=
  match b with
  | .stmt st => st.scan p
  | .ifTaken body => (Goto.scan Stmt.scan body p).map (· || p)
  | .switchTarget _ => if p then none else some false

def Item.scan (i : Item) (p : Bool) : Option Bool :=
  match i with
  | .label _ => some p
  | .stmt st => st.scan p
  | .ifPcEq _ body => (Goto.scan Stmt.scan body p).map (· || p)
  | .switchPc _ => if p then none else some false
  | .block body => Goto.scan BlockItem.scan body p

/-- A statement of a guest instruction settles what is pending. -/
def Passed.settles {ρ : Type} (x : Passed ρ) : Bool := x.1.isGuest

section Sound

variable {bus : Bus μ} {calls : Runtime (Excepting μ)}

theorem Stmt.scans (st : Stmt) :
    Scans (raises (bus.runtime calls)) Passed.settles Stmt.trail (Stmt.exec (bus.runtime calls)) Stmt.scan st := by
  intro s p q hq
  have hopened : opened (raises (bus.runtime calls)) Passed.settles p (st.trail s) =
      (raises (bus.runtime calls) (st, s) || (p && !st.isGuest)) := rfl
  rw [hopened]
  cases st with
  | instr inst hint =>
    cases hq
    by_cases hl : bus.machine.leaves inst = true
    · -- what leaves here has raised nothing
      have hflow : ((Stmt.instr inst hint).exec (bus.runtime calls) s).2 = .exit .ret := if_pos hl
      have hraised : raises (bus.runtime calls) (.instr inst hint, s) = false := by
        unfold raises
        exact bne_eq_false_iff_eq.2 (not_raised_of_leaves hl hint s.ctx)
      rw [hflow, hraised]
      exact Bool.and_false p
    · have hflow : ((Stmt.instr inst hint).exec (bus.runtime calls) s).2 = .next := if_neg hl
      rw [hflow]
      exact fun _ => rfl
  | goto l =>
    rcases p with _ | _
    · rfl
    · cases hq
  | ret =>
    rcases p with _ | _
    · rfl
    · cases hq
  | preempt =>
    rcases p with _ | _
    · dsimp only [Stmt.exec]
      split <;> simp [raises]
    · cases hq
  | returnIfPcNe a =>
    rcases p with _ | _
    · dsimp only [Stmt.exec]
      split <;> simp [raises]
    · cases hq
  | dispatch kind target source ret =>
    cases hq
    dsimp only [Stmt.exec]
    split <;> simp [raises, Stmt.isGuest]
  | callFunction t => simp [Stmt.exec, raises, Stmt.isGuest]
  | _ =>
    cases hq
    simp [Stmt.exec, raises, Stmt.isGuest]

/-- What is summarised for a body that may be passed by. -/
theorem accounts_branch {ι Λ σ ε τ : Type} {mark settles : τ → Bool} {trail : ι → σ → List τ}
    {exec : ι → σ → σ × Flow Λ ε} {f : ι → Bool → Option Bool} {body : List ι}
    (h : ∀ i ∈ body, Scans mark settles trail exec f i) (s : σ) (p : Bool) {taken : Prop} [Decidable taken] :
    Accounts (opened mark settles p (if taken then seqTrail trail exec s body else []))
      (if taken then seq exec s body else (s, .next)).2 ((Goto.scan f body p).map (· || p)) := by
  intro q hq
  obtain ⟨q', hq', rfl⟩ := Option.map_eq_some_iff.1 hq
  by_cases ht : taken
  · rw [if_pos ht, if_pos ht]
    have hacc := seq_scans h s (fun hp : p = true => hp) q' hq'
    generalize seq exec s body = res at hacc ⊢
    obtain ⟨s', _ | l | e⟩ := res
    · intro ho
      rw [hacc ho, Bool.true_or]
    · exact hacc
    · exact hacc
  · rw [if_neg ht, if_neg ht]
    intro ho
    rw [opened_nil] at ho
    rw [ho, Bool.or_true]

theorem accounts_switch {ρ : Type} {l : Label} {taken : Prop} [Decidable taken] (p : Bool) :
    Accounts (opened (raises (bus.runtime calls)) Passed.settles p [])
      (if taken then (.goto l : Flow Label ρ) else .next) (if p then none else some false) := by
  intro q hq
  rcases p with _ | _
  · cases hq
    by_cases ht : taken
    · rw [if_pos ht]
      exact opened_nil _
    · rw [if_neg ht]
      exact fun ho => ho
  · cases hq

theorem BlockItem.scans (b : BlockItem) :
    Scans (raises (bus.runtime calls)) Passed.settles (BlockItem.trail (bus.runtime calls))
      (BlockItem.exec (bus.runtime calls)) BlockItem.scan b := by
  intro s p
  cases b with
  | stmt st => exact st.scans s p
  | ifTaken body => exact accounts_branch (fun st _ => st.scans) s p
  | switchTarget targets => exact accounts_switch p

theorem Item.scans (i : Item) :
    Scans (raises (bus.runtime calls)) Passed.settles (Item.trail (bus.runtime calls))
      (Item.exec (bus.runtime calls)) Item.scan i := by
  intro s p
  cases i with
  | label l =>
    intro q hq
    cases hq
    exact fun ho => ho
  | stmt st => exact st.scans s p
  | ifPcEq a body => exact accounts_branch (fun st _ => st.scans) s p
  | switchPc targets => exact accounts_switch p
  | block body => exact seq_scans (fun b _ => b.scans) s fun hp => hp

end Sound

/-! ## Code that goes on, and code that settles -/

section Lists

variable {ι : Type} {f : ι → Bool → Option Bool} {l l' : List ι}

/-- The code neither jumps nor leaves with an exception pending. -/
def Passable (f : ι → Bool → Option Bool) (l : List ι) : Prop :=
  ∀ p, ∃ q, Goto.scan f l p = some q

/-- And none is pending behind it. -/
def Settling (f : ι → Bool → Option Bool) (l : List ι) : Prop :=
  ∀ p, Goto.scan f l p = some false

theorem Settling.passable (h : Settling f l) : Passable f l := fun p => ⟨false, h p⟩

theorem Passable.append (h : Passable f l) (h' : Passable f l') : Passable f (l ++ l') := by
  intro p
  obtain ⟨q, hq⟩ := h p
  obtain ⟨r, hr⟩ := h' q
  exact ⟨r, by rw [scan_append, hq, Option.bind_some, hr]⟩

theorem Passable.settling (h : Passable f l) (h' : Settling f l') : Settling f (l ++ l') := by
  intro p
  obtain ⟨q, hq⟩ := h p
  rw [scan_append, hq, Option.bind_some, h' q]

theorem Settling.append (h : Settling f l) (h' : Goto.scan f l' false = some false) : Settling f (l ++ l') := by
  intro p
  rw [scan_append, h p, Option.bind_some, h']

theorem passable_nil : Passable f [] := fun p => ⟨p, rfl⟩

theorem passable_if {c : Prop} [Decidable c] (h : Passable f l) : Passable f (if c then l else []) := by
  split
  · exact h
  · exact passable_nil

end Lists

section

variable (l : List Stmt) (p : Bool)

theorem scan_map_block : Goto.scan BlockItem.scan (l.map .stmt) p = Goto.scan Stmt.scan l p := by
  induction l generalizing p with
  | nil => rfl
  | cons st l ih =>
    rw [List.map_cons, scan_cons, scan_cons]
    congr 1
    funext q
    exact ih q

theorem scan_map_item : Goto.scan Item.scan (l.map .stmt) p = Goto.scan Stmt.scan l p := by
  induction l generalizing p with
  | nil => rfl
  | cons st l ih =>
    rw [List.map_cons, scan_cons, scan_cons]
    congr 1
    funext q
    exact ih q

end

/-- A statement that does not jump or leave. -/
def Stmt.goesOn : Stmt → Bool
  | .goto _ | .ret | .preempt | .returnIfPcNe _ => false
  | _ => true

theorem passable_of_goesOn {l : List Stmt} (h : ∀ st ∈ l, st.goesOn = true) : Passable Stmt.scan l := by
  induction l with
  | nil => exact passable_nil
  | cons st l ih =>
    have hst : Passable Stmt.scan [st] := by
      intro p
      have hgo := h st List.mem_cons_self
      rw [scan_cons]
      cases st <;> first
        | exact ⟨_, rfl⟩
        | cases hgo
    exact hst.append (ih fun st hst => h st (List.mem_cons_of_mem _ hst))

theorem passable_ifTaken {body : List Stmt} (h : Passable Stmt.scan body) :
    Passable BlockItem.scan [.ifTaken body] := by
  intro p
  obtain ⟨q, hq⟩ := h p
  refine ⟨q || p, ?_⟩
  rw [scan_cons, BlockItem.scan, hq]
  rfl

/-! ## The code of a branch -/

namespace ControlFlowEmitter

variable {e : ControlFlowEmitter}

theorem emitDelaySlot_passable (ho : e.OverrideOk) : Passable Stmt.scan e.emitDelaySlot := by
  apply passable_of_goesOn
  intro st hst
  unfold emitDelaySlot at hst
  split at hst
  · cases hst
  · simp only [List.mem_append, List.mem_cons, List.not_mem_nil, or_false] at hst
    rcases hst with ((rfl | rfl | rfl) | h) | rfl
    · rfl
    · rfl
    · rfl
    · have hslot := delaySlotCode_runsInSlot ho st h
      revert hslot
      cases st <;> simp [Stmt.runsInSlot, Stmt.goesOn]
    · rfl

theorem emitInternalTarget_settling (t source : Word) : Settling Stmt.scan (e.emitInternalTarget t source) := by
  intro p
  unfold emitInternalTarget
  split <;> simp [scan_cons, Stmt.scan, Stmt.isGuest]

theorem emitTaken_settling : Settling Stmt.scan e.emitTaken := by
  intro p
  unfold emitTaken
  dsimp only
  split
  · exact emitInternalTarget_settling _ _ p
  · simp [scan_cons, Stmt.scan, Stmt.isGuest]

section

variable (ho : e.OverrideOk)

include ho

theorem emitStaticJump_settling (isCall : Bool) : Settling Stmt.scan (e.emitStaticJump isCall) := by
  unfold emitStaticJump
  dsimp only
  have hlink : Passable Stmt.scan (if isCall = true then [.setGprU32 31 e.fallthroughPc] else []) :=
    passable_if (passable_of_goesOn (by simp [Stmt.goesOn]))
  refine (hlink.append (emitDelaySlot_passable ho)).settling ?_
  split
  · exact emitInternalTarget_settling _ _
  · intro p
    split
    · split <;> simp [scan_cons, Stmt.scan, Stmt.isGuest]
    · split <;> simp [scan_cons, Stmt.scan, Stmt.isGuest]

theorem emitRegisterJump_settling (isCall : Bool) : Settling BlockItem.scan (e.emitRegisterJump isCall) := by
  have hslot : Passable BlockItem.scan (e.emitDelaySlot.map .stmt) := by
    intro p
    rw [scan_map_block]
    exact emitDelaySlot_passable ho p
  have hdecl : Passable BlockItem.scan [.stmt (.declJumpTarget e.branchInst.rs)] :=
    fun p => ⟨p, by simp [scan_cons, BlockItem.scan, Stmt.scan, Stmt.isGuest]⟩
  have hlink : Passable BlockItem.scan
      (if (isCall && e.branchInst.rd != 0) = true then
        [.stmt (.setGprU32 e.branchInst.rd e.fallthroughPc)] else []) :=
    passable_if fun p => ⟨false, by simp [scan_cons, BlockItem.scan, Stmt.scan, Stmt.isGuest]⟩
  have hpc : Settling BlockItem.scan [.stmt .setPcJumpTarget] := by
    intro p
    simp [scan_cons, BlockItem.scan, Stmt.scan, Stmt.isGuest]
  unfold emitRegisterJump
  dsimp only
  -- the store of the target settles; what follows starts settled
  refine ((((hdecl.append hlink).append hslot).settling hpc).append ?_).append ?_
  · split <;> simp [scan_cons, BlockItem.scan]
  · split
    · simp [scan_cons, BlockItem.scan, Stmt.scan, Stmt.isGuest]
    · split <;> simp [scan_cons, BlockItem.scan, Stmt.scan, Stmt.isGuest]

theorem emitConditionalBranch_passable : Passable BlockItem.scan e.emitConditionalBranch := by
  have hlink : Passable Stmt.scan [.setGprU32 31 e.fallthroughPc] :=
    passable_of_goesOn (by simp [Stmt.goesOn])
  have hlinks : Passable Stmt.scan
      (if e.linksIfTaken = true then [.setGprU32 31 e.fallthroughPc] else []) := passable_if hlink
  have hslot := emitDelaySlot_passable ho
  have hdecl : Passable BlockItem.scan [.stmt (.declBranchTaken e.conditionalBranchExpression)] :=
    fun p => ⟨p, by simp [scan_cons, BlockItem.scan, Stmt.scan, Stmt.isGuest]⟩
  have halways : Passable BlockItem.scan
      (if e.linksAlways = true then [.stmt (.setGprU32 31 e.fallthroughPc)] else []) :=
    passable_if fun p => ⟨false, by simp [scan_cons, BlockItem.scan, Stmt.scan, Stmt.isGuest]⟩
  unfold emitConditionalBranch
  dsimp only
  refine (hdecl.append halways).append ?_
  split
  · exact passable_ifTaken ((hlinks.append hslot).append emitTaken_settling.passable)
  · refine ((passable_if (passable_ifTaken hlinks)).append ?_).append (passable_ifTaken emitTaken_settling.passable)
    intro p
    rw [scan_map_block]
    exact hslot p

theorem emitTransfer_passable : Passable Item.scan e.emitTransfer := by
  unfold emitTransfer
  intro p
  split
  · rw [scan_map_item]
    exact (emitStaticJump_settling ho _).passable p
  · split
    · obtain ⟨q, hq⟩ := (emitRegisterJump_settling ho e.branchInst.isJalr).passable p
      exact ⟨q, by rw [scan_cons, Item.scan, hq]; rfl⟩
    · split
      · obtain ⟨q, hq⟩ := emitConditionalBranch_passable ho p
        exact ⟨q, by rw [scan_cons, Item.scan, hq]; rfl⟩
      · rw [scan_map_item]
        obtain ⟨q, hq⟩ := emitDelaySlot_passable ho true
        exact ⟨q, by rw [scan_cons, Stmt.scan, Option.bind_some, hq]⟩

/-- **A branch is run over by its own fall through**, if it goes on at all. -/
theorem emit_settling : Settling Item.scan e.emit := by
  have hresume : Passable Item.scan e.emitResumeFromDelaySlotEntry := by
    unfold emitResumeFromDelaySlotEntry
    split
    · exact passable_nil
    · intro p
      have hafter : Settling Stmt.scan [.setPc e.fallthroughPc,
          .goto (if e.isInternalTarget e.fallthroughPc then .at e.fallthroughPc
            else .fallthrough e.branchPc)] :=
        fun p => by simp [scan_cons, Stmt.scan, Stmt.isGuest]
      have hbody := (emitDelaySlot_passable ho).settling hafter
      exact ⟨false || p, by rw [scan_cons, Item.scan, hbody p]; rfl⟩
  have hstore : ∀ a, Settling Item.scan [.stmt (.setPc a)] := by
    intro a p
    simp [scan_cons, Item.scan, Stmt.scan, Stmt.isGuest]
  have hlabel : Passable Item.scan e.emitFallthroughLabelIfNeeded :=
    passable_if fun p => ⟨p, rfl⟩
  unfold emit
  exact (((hresume.append (hstore _).passable).append (emitTransfer_passable ho)).append hlabel).settling (hstore _)

end

end ControlFlowEmitter

/-! ## The code of a function -/

namespace FunctionEmitter

variable (cg : CodeGenerator) (fn : Function) (instructions : List Instruction) (ar : AnalysisResult)

theorem labelFor_passable (a : Word) : Passable Item.scan (labelFor ar a) := passable_if fun p => ⟨p, rfl⟩

theorem hookBefore_passable (a : Word) : Passable Item.scan (hookBefore cg a) := by
  intro p
  unfold hookBefore
  split
  · exact ⟨p, rfl⟩
  · -- the store of `ctx->pc` comes before the hook and its check
    exact ⟨false, by simp [scan_cons, Item.scan, Stmt.scan, Stmt.isGuest]⟩

theorem head_passable (b : Block) : Passable Item.scan (b.head cg ar) :=
  ((labelFor_passable ar _).append (hookBefore_passable cg _)).append (passable_if (labelFor_passable ar _))

theorem emitPlain_passable (i : ℕ) (inst : Instruction) (k : ConstantRegisterState)
    (plan : GifDmaKickPlan) : Passable Item.scan (emitPlain cg i inst k plan) := by
  have hmap : ∀ l : List Stmt, (∀ st ∈ l, st.goesOn = true) → Passable Item.scan (l.map .stmt) := by
    intro l hl p
    rw [scan_map_item]
    exact passable_of_goesOn hl p
  have hhook : Passable Item.scan (hookAfter cg inst.address) := by
    unfold hookAfter
    split
    · exact passable_nil
    · exact fun p => ⟨p, by simp [scan_cons, Item.scan, Stmt.scan, Stmt.isGuest]⟩
  unfold emitPlain
  split
  · refine (hmap _ fun st hst => ?_).append (passable_if ?_)
    · have hslot := emitGifDmaCapture_runsInSlot plan _ st hst
      revert hslot
      cases st <;> simp [Stmt.runsInSlot, Stmt.goesOn]
    · exact hmap [_, _] (by simp [Stmt.goesOn, gifDmaKickCall])
  · exact (hmap [_, _] (by simp [Stmt.goesOn])).append hhook

section

variable {inst d : Instruction} (rest : List Instruction)

theorem emitEnd_slot (h : inst.hasDelaySlot = true ∧ d.address = inst.address + 4) :
    emitEnd fn (inst :: d :: rest) = emitEnd fn rest := by
  have hlast : endsInBranch (inst :: d :: rest) = endsInBranch rest := by
    cases rest <;> simp [endsInBranch, h]
  unfold emitEnd
  rw [hlast]

theorem emitEnd_next (h : ¬ (inst.hasDelaySlot = true ∧ d.address = inst.address + 4)) :
    emitEnd fn (inst :: d :: rest) = emitEnd fn (d :: rest) := by
  have hlast : endsInBranch (inst :: d :: rest) = endsInBranch (d :: rest) := by
    cases rest <;> simp only [endsInBranch, Bool.and_eq_true, decide_eq_true_eq, if_neg h]
  unfold emitEnd
  rw [hlast]

end

/-- What is pending behind the code of the remaining instructions: nothing, if there are
any. -/
theorem blocksFrom_scan (i : ℕ) (rest : List Instruction) (st : EmitState) (p : Bool) :
    Goto.scan Item.scan ((blocksFrom instructions ar i rest st).flatMap (Block.code cg ar) ++
      emitEnd fn rest) p = some (if rest = [] then p else false) := by
  have hbranch : ∀ b : Block, b.inst.hasDelaySlot = true → Settling Item.scan (b.code cg ar) := by
    intro b hb
    unfold Block.code Block.core
    rw [if_pos hb]
    exact (head_passable cg ar b).settling (ControlFlowEmitter.emit_settling (b.overrideOk cg ar))
  have hplain : ∀ b : Block, b.inst.hasDelaySlot = false → Passable Item.scan (b.code cg ar) := by
    intro b hb
    unfold Block.code Block.core
    rw [if_neg (by rw [hb]; exact Bool.false_ne_true)]
    exact (head_passable cg ar b).append (emitPlain_passable cg _ _ _ _)
  fun_induction blocksFrom instructions ar i rest st generalizing p with
  | case1 => rfl
  | case2 i inst st hd d rest' ha ih =>
    rw [List.flatMap_cons, List.append_assoc, scan_append, hbranch _ hd p, Option.bind_some,
      emitEnd_slot fn rest' ⟨hd, ha⟩, ih, ite_self, if_neg (List.cons_ne_nil _ _)]
  | case3 i inst st hd d rest' ha ih =>
    rw [List.flatMap_cons, List.append_assoc, scan_append, hbranch _ hd p, Option.bind_some,
      emitEnd_next fn rest' (fun h => ha h.2), ih, ite_self, if_neg (List.cons_ne_nil _ _)]
  | case4 i inst st hd =>
    have hend : emitEnd fn [inst] = [] := by
      unfold emitEnd endsInBranch
      rw [if_pos hd]
    rw [List.flatMap_cons, List.flatMap_nil, List.append_nil, hend, List.append_nil,
      hbranch _ hd p, if_neg (List.cons_ne_nil _ _)]
  | case5 i inst rest st hd k plan ih =>
    have hd' : inst.hasDelaySlot = false := Bool.eq_false_iff.2 hd
    obtain ⟨q, hq⟩ := hplain ⟨i, inst, none, k, plan⟩ hd' p
    rw [List.flatMap_cons, List.append_assoc, scan_append, hq, Option.bind_some, if_neg (List.cons_ne_nil _ _)]
    cases rest with
    | nil =>
      -- the last instruction is run over by the store of the end address
      have hend : emitEnd fn [inst] = [.stmt (.setPc fn.endAddr)] := by
        unfold emitEnd endsInBranch
        rw [if_neg hd]
      rw [hend]
      simp [blocksFrom, scan_cons, Item.scan, Stmt.scan, Stmt.isGuest]
    | cons next rest =>
      rw [emitEnd_next fn rest (fun h => hd h.1), ih, if_neg (List.cons_ne_nil _ _)]

/-- **No emitted function acts on a pending exception**: wherever it jumps, leaves or ends,
the statement of a later guest instruction has run over it. -/
theorem emit_scan : Goto.scan Item.scan (emit cg fn instructions) false = some false := by
  have hentry : Goto.scan Item.scan (emitEntry cg fn instructions) false = some false := by
    unfold emitEntry
    split <;> simp [scan_cons, Item.scan, Stmt.scan]
  have hblocks := blocksFrom_scan cg fn instructions (analysisResult cg fn instructions) 0 instructions {} false
  rw [ite_self] at hblocks
  rw [emit_eq, List.append_assoc, scan_append, hentry, Option.bind_some]
  exact hblocks

end FunctionEmitter

/-! ## Precise exceptions -/

/-- The branch whose delay slot is at an address, if one is: the emission loop takes the
instruction after a branch for its delay slot. -/
def slotBranch : List Instruction → Word → Option Word
  | inst :: next :: rest, a =>
    if inst.hasDelaySlot = true ∧ next.address = inst.address + 4 then
      if next.address = a then some inst.address else slotBranch rest a
    else slotBranch (next :: rest) a
  | _, _ => none

/-- The exception that `inst` raises in the context `c` is precise: `after` is what the
function goes through from there on. -/
structure Precise (rt : Runtime (Excepting μ)) (instructions : List Instruction)
    (inst : Instruction) (hint : MemoryAccessHint) (c : Ctx (Excepting μ))
    (after : List (Passed (Excepting μ))) : Prop where
  /-- The registers keep their values. -/
  kept : (rt.exec inst hint c).r = c.r ∧ (rt.exec inst hint c).sys.rest.f = c.sys.rest.f ∧
    (rt.exec inst hint c).sys.rest.vu0Vf = c.sys.rest.vu0Vf
  recorded : match slotBranch instructions inst.address with
    | none => (rt.exec inst hint c).sys.rest.cop0.epc = inst.address ∧
        (rt.exec inst hint c).sys.rest.cop0.cause &&& cop0CauseBd = 0
    | some branch => (rt.exec inst hint c).sys.rest.cop0.epc = branch ∧
        (rt.exec inst hint c).sys.rest.cop0.cause &&& cop0CauseBd ≠ 0
  entered : (rt.exec inst hint c).sys.rest.cop0.status &&& cop0StatusExl ≠ 0
  vector : (rt.exec inst hint c).pc = selectExceptionVector (rt.exec inst hint c).sys.rest.cop0 false
  /-- No later guest instruction has an effect, and `ctx->pc` is left to the dispatcher. -/
  quiet : ∀ y ∈ after, y.1.isGuest = false

/-- Every exception is precise in the run of an emitted function from the state `s`, after any
number of items. -/
def PreciseRun (rt : Runtime (Excepting μ)) (cg : CodeGenerator) (fn : Function)
    (instructions : List Instruction) (s : State (Excepting μ)) : Prop :=
  ∀ fuel a b inst hint t,
    runTrail rt (FunctionEmitter.emit cg fn instructions) fuel s =
      a ++ (.instr inst hint, t) :: b →
    raises rt (.instr inst hint, t) = true → Precise rt instructions inst hint t.ctx b

section Main

variable (bus : Bus μ) (calls : Runtime (Excepting μ)) (cg : CodeGenerator) (fn : Function)
  (instructions : List Instruction) (s : State (Excepting μ))

theorem not_preciseRun {fuel : ℕ} {x : Passed (Excepting μ)}
    (hx : x ∈ runTrail (bus.runtime calls) (FunctionEmitter.emit cg fn instructions) fuel s)
    (hr : raises (bus.runtime calls) x = true) : ¬ PreciseRun (bus.runtime calls) cg fn instructions s := by
  intro hprecise
  obtain ⟨fuel', a, b, hab, y, hy, hguest⟩ :=
    mark_settled (fun i _ => Item.scans i) (FunctionEmitter.emit_scan cg fn instructions) hx hr
  obtain ⟨inst, hint, t, rfl⟩ : ∃ inst hint t, x = (.instr inst hint, t) := by
    obtain ⟨st, t⟩ := x
    cases st with
    | instr inst hint => exact ⟨inst, hint, t, rfl⟩
    | _ => cases hr
  have hquiet := (hprecise fuel' a b inst hint t hab hr).quiet y hy
  have hsettles : y.1.isGuest = true := hguest
  rw [hquiet] at hsettles
  cases hsettles

/-- **The exceptions of a run are precise exactly when nothing raises one.** -/
theorem precise_iff : PreciseRun (bus.runtime calls) cg fn instructions s ↔
    ∀ fuel, ∀ x ∈ runTrail (bus.runtime calls) (FunctionEmitter.emit cg fn instructions) fuel s,
      raises (bus.runtime calls) x = false := by
  constructor
  · intro hprecise fuel x hx
    by_contra hr
    exact not_preciseRun bus calls cg fn instructions s hx (Bool.eq_true_of_not_eq_false hr) hprecise
  · intro hnone fuel a b inst hint t hab hr
    have hmem : (Stmt.instr inst hint, t) ∈
        runTrail (bus.runtime calls) (FunctionEmitter.emit cg fn instructions) fuel s := by
      rw [hab]
      exact List.mem_append_right _ List.mem_cons_self
    rw [hnone fuel _ hmem] at hr
    cases hr

end Main

/-! ## An overflow that is run over -/

/-- A memory that never throws. -/
def ramBus : Bus Unit where
  read _ _ _ m := (some 0, m)
  write _ _ _ _ m := (false, m)
  other _ _ c := c
  leaves _ := false

/-- Runtime calls that do nothing. -/
def stillCalls : Runtime (Excepting Unit) where
  toMachine := ramBus.machine
  hook _ c := c
  kick _ sys := sys
  preempt r := (false, r)
  dispatch _ _ _ _ c := (false, c)
  callFunction _ c := c
  callHandler _ c := c

/-- `add $v1, $v0, $v0`, alone in its function. -/
def addProgram : List Instruction :=
  [{ address := 0x100, opcode := .special, function := specialAdd, rs := 2, rt := 2, rd := 3 }]

/-- The function is entered with the largest word in every register. -/
def largestWords : State (Excepting Unit) where
  ctx := ⟨fun _ => 0x7FFFFFFF, ⟨0x100, false, 0, 0, 0, 0, 0, ⟨{}, 0, fun _ => 0, fun _ => 0, ()⟩⟩⟩
  jumpTarget := 0
  branchTaken := false
  kickValue _ _ := 0
  log := []

/-- The sum overflows, and `ctx->pc = 0x104` takes the place of the vector. -/
theorem add_overflow_run_over : ¬ PreciseRun (ramBus.runtime stillCalls) { analyzer := ⟨[], []⟩ }
    { name := "sum", start := 0x100, endAddr := 0x104 } addProgram largestWords := by
  have hraises : (runTrail (ramBus.runtime stillCalls)
      (FunctionEmitter.emit { analyzer := ⟨[], []⟩ }
        { name := "sum", start := 0x100, endAddr := 0x104 } addProgram) 4 largestWords).any
      (raises (ramBus.runtime stillCalls)) = true := by decide +kernel
  obtain ⟨x, hx, hr⟩ := List.any_eq_true.1 hraises
  exact not_preciseRun ramBus stillCalls _ _ addProgram largestWords hx hr

end Ps2Recomp
