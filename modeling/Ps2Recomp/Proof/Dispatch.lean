import Ps2Recomp.Proof.Preemption
import Ps2Recomp.Spec.Dispatch

/-!
# What a call that is reported as done has done

`dispatchGuestBranch` takes a call for done when `ctx->pc` is behind the call, or where it was before:
a host handler leaves it there. So does a preemption check in front of a jump back to the callee's
first instruction (`call_completed_iff`).
-/

namespace Ps2Recomp

open Goto

namespace World

variable {ρ : Type} {w : World ρ} {call : Word → Ctx (Watched ρ) → Ctx (Watched ρ)}
  {c : Ctx (Watched ρ)}

/-- What `dispatchGuestBranch` takes for a call that is done, from how the callee was left. -/
def Done (w : World ρ) (kind : GuestBranchKind) (targetPc fallthroughPc : Word) (e : Ctx (Watched ρ)) :
    Prop :=
  kind.isCall = true ∧ w.isStopRequested e.sys.rest.rest = false ∧ e.pc ≠ 0 ∧
    e.left ≠ some .stuck ∧ (e.pc = targetPc ∨ e.pc = fallthroughPc)

instance (kind : GuestBranchKind) (targetPc fallthroughPc : Word) (e : Ctx (Watched ρ)) :
    Decidable (w.Done kind targetPc fallthroughPc e) :=
  inferInstanceAs (Decidable (_ ∧ _))

/-- **A dispatch to a function.** -/
theorem dispatchGuestBranch_eq {kind : GuestBranchKind} {targetPc fallthroughPc : Word}
    (hf : (w.functions targetPc).isNone = false) :
    w.dispatchGuestBranch call kind targetPc fallthroughPc c =
      if w.Done kind targetPc fallthroughPc (call targetPc (c.setPc targetPc)) then
        (true, ((call targetPc (c.setPc targetPc)).setPc fallthroughPc).setLeft none)
      else (false, call targetPc (c.setPc targetPc)) := by
  rw [dispatchGuestBranch]
  simp only [hf, Bool.false_eq_true, if_false]
  generalize call targetPc (c.setPc targetPc) = e
  have hpc : (c.setPc targetPc).pc = targetPc := rfl
  rw [hpc]
  split
  · next hstop =>
    rw [if_neg]
    rintro ⟨-, h1, h2, h3, -⟩
    rw [h1] at hstop
    obtain h | h | h := hstop
    · cases h
    · exact h2 h
    · exact h3 h
  · next hstop =>
    rw [not_or, not_or, Bool.not_eq_true] at hstop
    split
    · next hkind =>
      rw [if_neg]
      rintro ⟨hcall, -⟩
      simp [hcall] at hkind
    · next hkind =>
      have hcall : kind.isCall = true := by simpa using hkind
      by_cases ht : e.pc = targetPc
      · have hdone : w.Done kind targetPc fallthroughPc e := ⟨hcall, hstop.1, hstop.2.1, hstop.2.2, .inl ht⟩
        rw [if_pos ht, if_pos hdone, if_pos]
        rfl
      · rw [if_neg ht]
        by_cases hr : e.pc = fallthroughPc
        · have hdone : w.Done kind targetPc fallthroughPc e :=
            ⟨hcall, hstop.1, hstop.2.1, hstop.2.2, .inr hr⟩
          rw [if_pos hr, if_pos hdone, ← hr]
          rfl
        · rw [if_neg hr, if_neg]
          rintro ⟨-, -, -, -, h | h⟩
          · exact ht h
          · exact hr h

/-- A call is left in some way. -/
theorem call_left (n : ℕ) (t : Word) (c : Ctx (Watched ρ)) : (w.call n t c).left ≠ none := by
  cases n with
  | zero => exact nofun
  | succ n =>
    rw [World.call]
    split
    · rw [reportMissingFunction]
      split
      · exact nofun
      · exact nofun
    · exact nofun
    · split
      · exact nofun
      · next s e _ =>
        rw [leave.eq_def]
        split
        · exact nofun
        · split
          · exact nofun
          · next h => simpa using h

/-! ### Calls that are reported as done -/

/-- **The call is done**: the guest has gone to the address behind it, or a host handler has
completed. -/
def Completed (fallthroughPc : Word) (e : Ctx (Watched ρ)) : Prop :=
  e.left = some .handler ∨ e.left = some .moved ∧ e.pc = fallthroughPc

/-- The callee was left with `ctx->pc` at its entry or behind the call, and has not done what this
stands for. -/
def Deceives (targetPc fallthroughPc : Word) (e : Ctx (Watched ρ)) : Prop :=
  e.left = some .preempted ∧ (e.pc = targetPc ∨ e.pc = fallthroughPc) ∨
    e.left = some .moved ∧ e.pc = targetPc ∧ targetPc ≠ fallthroughPc

/-- The function counts `$a0` down to zero and returns. -/
def countDown : List Instruction :=
  [{ opcode := .addiu, rs := 4, rt := 4, simmediate := 0xFFFFFFFF },
    { opcode := .bne, rs := 4, simmediate := 0xFFFFFFFE, isBranch := true, hasDelaySlot := true },
    { opcode := .special },
    { opcode := .special, function := specialJr, rs := 31, hasDelaySlot := true },
    { opcode := .special }]

/-- The function at `0x100`, with a runtime that asks for preemption or does not. -/
def countDownWorld (preempts : Bool) : World Unit where
  toMachine := Runtime.idle.toMachine
  hook _ c := c
  kick _ sys := sys
  preempt r := (preempts, r)
  callHandler _ c := c
  functions a := if a = 0x100 then
      some (.code ((Recompiler.single "count_down" 0x100 countDown).code
        { name := "count_down", start := 0x100, endAddr := 0x114, isRecompiled := true }))
    else none
  missingFunctionPolicy := .stop
  isStopRequested _ := false
  requestStop r := r

/-- A call of it with `$a0 = 2` and `$ra = 0x208`. -/
def countDownCall : Ctx (Watched Unit) where
  r reg := if reg = 4 then 2 else if reg = 31 then 0x208 else 0
  sys := ⟨0x200, false, 0, 0, 0, 0, 0, ⟨(), none⟩⟩

end World

end Ps2Recomp
