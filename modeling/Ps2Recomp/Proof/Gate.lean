import Ps2Recomp.Proof.RunQueue
import Ps2Recomp.Spec.Gate

/-!
# Whose gate it is

The gate of an OS thread is closed when the last of the fibers on it to touch `EIE` has cleared it
(`run_tls`). A fiber's own bit is what the fiber itself has done last. Where the fibers share the
executor thread the two may differ, and then the gate protects a fiber that has interrupts enabled, or
does not protect one that has them disabled (`gate_own_iff`).
-/

namespace Ps2Recomp.Gate

open Sched (Tid)
open Threads (Caller)
open Transition

variable {backend : Backend} {s s' s₀ : State} {t : Tid} {c : Caller} {th : OsThread} {tls : Tls}
  {fc : Option Sched.FiberContext} {d : Decision} {a : Act} {as : List Act}

/-! ### The two histories -/

/-- A step of the fiber's own bit: `EIE` is set in a new fiber. -/
def clears (t : Tid) (b : Bool) : Act → Bool
  | .disableIntr c => if c = .fiber t then true else b
  | .enableIntr c => if c = .fiber t then false else b
  | .scheduler (.createFiber u _) => if u = t then false else b
  | _ => b

/-- **The fiber has cleared its own `EIE`**, and not set it since. -/
def cleared (t : Tid) (as : List Act) : Bool := as.foldl (clears t) false

/-- A step of the thread's bit. -/
def switches (backend : Backend) (th : OsThread) (b : Bool) : Act → Bool
  | .disableIntr c => if osThread backend c = th then true else b
  | .enableIntr c => if osThread backend c = th then false else b
  | .scheduler (.createFiber u _) => if th = .fiber u then false else b
  | _ => b

/-- The last to touch `EIE` on the OS thread has cleared it. -/
def switchedOff (backend : Backend) (th : OsThread) (as : List Act) : Bool :=
  as.foldl (switches backend th) false

/-! ### The variables of a thread -/

/-- The safety valve keeps the count of samples below its bound. -/
def Tls.Bounded (tls : Tls) : Prop := tls.intrDisableSamples.toNat < 4096

theorem Tls.enter_disabled : tls.guestIntrDisableEnter.intrDisabled = true := by
  rw [Tls.guestIntrDisableEnter]
  split
  · next h => exact h
  · rfl

theorem Tls.leave_enabled : tls.guestIntrDisableLeave.intrDisabled = false := by
  rw [Tls.guestIntrDisableLeave]
  split
  · next h => simpa using h
  · rfl

section

variable (h : tls.Bounded)

include h

theorem Tls.Bounded.enter : tls.guestIntrDisableEnter.Bounded := by
  rw [Tls.guestIntrDisableEnter]
  split
  · exact h
  · exact Nat.zero_lt_succ _

theorem Tls.Bounded.leave : tls.guestIntrDisableLeave.Bounded := by
  rw [Tls.guestIntrDisableLeave]
  split
  · exact h
  · exact Nat.zero_lt_succ _

/-- A fiber keeps the slot if the gate is closed and the valve is not due. -/
theorem Tls.gate_keep : tls.gate.2 = .keep ↔ tls.intrDisabled = true ∧ tls.intrDisableSamples.toNat ≠ 4095 := by
  have hlt : tls.intrDisableSamples + 1 < kIntrDisableYieldEscape ↔ tls.intrDisableSamples.toNat ≠ 4095 := by
    have h1 : (1 : BitVec 32).toNat = 1 := rfl
    have h2 : kIntrDisableYieldEscape.toNat = 4096 := rfl
    rw [Tls.Bounded] at h
    rw [BitVec.lt_def, BitVec.toNat_add, h1, h2]
    omega
  rw [Tls.gate]
  cases hd : tls.intrDisabled with
  | false => simp
  | true =>
    simp only [if_true, true_and]
    rw [← hlt]
    split
    · next hs => exact ⟨fun _ => hs, fun _ => rfl⟩
    · next hs =>
      constructor
      · intro hk
        cases hk
      · intro hs'
        exact absurd hs' hs

end

theorem Tls.gate_open : tls.gate.2 = .surrender false ↔ tls.intrDisabled = false := by
  rw [Tls.gate]
  cases hd : tls.intrDisabled with
  | false => simp
  | true =>
    simp only [if_true]
    split
    · simp
    · simp

theorem Tls.Bounded.gate_keeps (h : tls.Bounded) : tls.gate.1.intrDisabled = tls.intrDisabled ∧ tls.gate.1.Bounded := by
  rw [Tls.gate]
  split
  · simp only
    split
    · next hs =>
      refine ⟨rfl, ?_⟩
      have hs' := BitVec.lt_def.1 hs
      exact hs'
    · exact ⟨rfl, Nat.zero_lt_succ _⟩
  · exact ⟨rfl, h⟩

/-- This back-edge is sampled, and nothing is asked of the fiber that comes before the gate. -/
def Tls.Reaches (tls : Tls) (fc : Sched.FiberContext) : Prop :=
  (tls.backedgeCounter + 1) &&& 127 = 0 ∧ fc.terminateRequested = false ∧ fc.suspendCount = 0

section

variable {fc : Sched.FiberContext}

theorem Tls.yieldPoint_reaches (h : tls.Reaches fc) : (tls.yieldPoint (some fc)).2 = tls.gate.2 := by
  obtain ⟨h1, h2, h3⟩ := h
  rw [Tls.yieldPoint]
  simp only [h1, h2, h3, ne_eq, not_true_eq_false, if_false, Bool.false_eq_true, Nat.lt_irrefl]
  rw [Tls.gate, Tls.gate]
  split
  · simp only
    split
    · rfl
    · rfl
  · rfl

theorem Tls.yieldPoint_unreached (h : ¬tls.Reaches fc) :
    (tls.yieldPoint (some fc)).2 ≠ .keep ∧ ∀ e, (tls.yieldPoint (some fc)).2 ≠ .surrender e := by
  rw [Tls.yieldPoint]
  simp only
  split
  · exact ⟨nofun, nofun⟩
  · next h1 =>
    split
    · exact ⟨nofun, nofun⟩
    · next h2 =>
      split
      · exact ⟨nofun, nofun⟩
      · next h3 => exact absurd ⟨not_not.1 h1, by simpa using h2, by omega⟩ h

end

theorem Tls.yieldPoint_keeps (h : tls.Bounded) :
    (tls.yieldPoint fc).1.intrDisabled = tls.intrDisabled ∧ (tls.yieldPoint fc).1.Bounded := by
  unfold Tls.yieldPoint
  simp only
  split
  · exact ⟨rfl, h⟩
  · split
    · exact ⟨rfl, h⟩
    · split
      · exact ⟨rfl, h⟩
      · split
        · exact ⟨rfl, h⟩
        · have hcount : Tls.Bounded { tls with backedgeCounter := tls.backedgeCounter + 1 } := h
          exact hcount.gate_keeps

/-! ### Steps -/

/-- The scheduler touches no thread's variables but those of a new thread. -/
theorem scheduler_tls {fuel : ℕ} {b : Sched.Act} (backend : Backend) (h : s.scheduler fuel b = some s') :
    (∃ u priority, b = .createFiber u priority ∧ s'.tls = Function.update s.tls (.fiber u) {}) ∨
      (∀ th v, switches backend th v (.scheduler b) = v) ∧ s'.tls = s.tls := by
  rw [State.scheduler, Option.bind_eq_some_iff] at h
  obtain ⟨sched, -, h⟩ := h
  split at h
  · cases h
  · next u priority =>
    cases h
    exact .inl ⟨u, priority, rfl, rfl⟩
  · split at h
    · cases h
    · split at h
      · cases h
        exact .inr ⟨fun _ _ => rfl, rfl⟩
      · cases h
        exact .inr ⟨fun _ _ => rfl, rfl⟩
  · split at h
    · cases h
      exact .inr ⟨fun _ _ => rfl, rfl⟩
    · cases h
  · next hcreate _ _ =>
    have hsw : ∀ th v, switches backend th v (.scheduler b) = v := by
      intro th v
      cases b with
      | createFiber u priority => exact absurd rfl (hcreate u priority)
      | _ => rfl
    split at h
    · split at h
      · cases h
        exact .inr ⟨hsw, rfl⟩
      · cases h
    · cases h
      exact .inr ⟨hsw, rfl⟩

theorem yieldPoint_tls {r : State × Decision} (h : s.yieldPoint backend c = some r) :
    r.1.tls = Function.update s.tls (osThread backend c)
        ((s.tls (osThread backend c)).yieldPoint (s.currentFiber c)).1 ∧
      r.2 = ((s.tls (osThread backend c)).yieldPoint (s.currentFiber c)).2 := by
  rw [State.yieldPoint] at h
  split at h
  · simp only at h
    split at h
    · rw [Option.map_eq_some_iff] at h
      obtain ⟨sched, -, rfl⟩ := h
      exact ⟨rfl, rfl⟩
    · cases h
      exact ⟨rfl, rfl⟩
    · cases h
      exact ⟨rfl, rfl⟩
  · cases h

/-- **What a step does to the variables of a thread.** -/
theorem step_tls (hs : Step backend s a s') (hb : (s.tls th).Bounded) :
    (s'.tls th).intrDisabled = switches backend th (s.tls th).intrDisabled a ∧ (s'.tls th).Bounded := by
  obtain ⟨fuel, hs⟩ := hs
  cases a with
  | scheduler b =>
    obtain ⟨u, priority, rfl, htls⟩ | ⟨hsw, htls⟩ := scheduler_tls backend hs
    · rw [htls]
      by_cases hth : th = .fiber u
      · subst hth
        rw [Function.update_self, switches, if_pos rfl]
        exact ⟨rfl, Nat.zero_lt_succ _⟩
      · rw [Function.update_of_ne hth, switches, if_neg hth]
        exact ⟨rfl, hb⟩
    · rw [htls, hsw]
      exact ⟨rfl, hb⟩
  | disableIntr c =>
    simp only [step, State.disableIntr] at hs
    split at hs
    · cases hs
      simp only [State.setTls, switches]
      by_cases hth : th = osThread backend c
      · rw [← hth, Function.update_self, if_pos rfl]
        exact ⟨Tls.enter_disabled, hb.enter⟩
      · rw [Function.update_of_ne hth, if_neg (Ne.symm hth)]
        exact ⟨rfl, hb⟩
    · cases hs
  | enableIntr c =>
    simp only [step, State.enableIntr] at hs
    split at hs
    · cases hs
      simp only [State.setTls, switches]
      by_cases hth : th = osThread backend c
      · rw [← hth, Function.update_self, if_pos rfl]
        exact ⟨Tls.leave_enabled, hb.leave⟩
      · rw [Function.update_of_ne hth, if_neg (Ne.symm hth)]
        exact ⟨rfl, hb⟩
    · cases hs
  | yieldPoint c d =>
    simp only [step, Option.bind_eq_some_iff] at hs
    obtain ⟨r, hr, hs⟩ := hs
    split at hs
    · cases hs
      rw [(yieldPoint_tls hr).1]
      simp only [switches]
      by_cases hth : th = osThread backend c
      · rw [← hth, Function.update_self]
        exact Tls.yieldPoint_keeps hb
      · rw [Function.update_of_ne hth]
        exact ⟨rfl, hb⟩
    · cases hs
  | yieldPointReturn t =>
    simp only [step, State.yieldPointReturn] at hs
    split at hs
    · cases hs
      exact ⟨rfl, hb⟩
    · cases hs

/-- **The gate of a thread is closed when the last to touch `EIE` on it has cleared it.** -/
theorem run_tls (h0 : s₀.Initial) (hrun : Run (Step backend) s₀ as s) (th : OsThread) :
    (s.tls th).intrDisabled = switchedOff backend th as ∧ (s.tls th).Bounded := by
  refine hrun.invariant (I := fun as s =>
    (s.tls th).intrDisabled = switchedOff backend th as ∧ (s.tls th).Bounded) ?_ ?_
  · rw [h0.tls]
    exact ⟨rfl, Nat.zero_lt_succ _⟩
  · rintro as s a s' ⟨hsw, hb⟩ hs
    obtain ⟨h1, h2⟩ := step_tls hs hb
    refine ⟨?_, h2⟩
    rw [h1, hsw, switchedOff, switchedOff, List.foldl_append]
    rfl

/-! ### The gate and its owner -/

/-- **The gate is the fiber's own**: it closes only on a fiber that has cleared its `EIE`, and is not
open for one that has. The safety valve may let a long section through. -/
def Own (cleared : Bool) (d : Decision) : Prop :=
  (d = .keep → cleared = true) ∧ (cleared = true → d ≠ .surrender false)

theorem yieldPoint_own_iff {fc : Sched.FiberContext} {b : Bool} (hb : tls.Bounded) :
    Own b (tls.yieldPoint (some fc)).2 ↔
      (tls.Reaches fc → tls.intrDisabled = b ∨ tls.intrDisabled = true ∧ tls.intrDisableSamples.toNat = 4095) := by
  by_cases hreach : tls.Reaches fc
  · rw [Tls.yieldPoint_reaches hreach, Own, Tls.gate_keep hb]
    simp only [ne_eq, Tls.gate_open, hreach, true_imp_iff]
    cases b with
    | false => cases tls.intrDisabled with
      | false => simp
      | true => simp
    | true => cases tls.intrDisabled with
      | false => simp
      | true => simp
  · obtain ⟨hk, ho⟩ := Tls.yieldPoint_unreached hreach
    constructor
    · intro _ h
      exact absurd h hreach
    · intro _
      exact ⟨fun h => absurd h hk, fun _ => ho false⟩

theorem step_decision (hstep : Step backend s (.yieldPoint (.fiber t) d) s') :
    d = ((s.tls (osThread backend (.fiber t))).yieldPoint (some (s.sched.fibers t))).2 := by
  obtain ⟨fuel, hstep⟩ := hstep
  simp only [step, Option.bind_eq_some_iff] at hstep
  obtain ⟨r, hr, hstep⟩ := hstep
  split at hstep
  · next hrd =>
    rw [← hrd, (yieldPoint_tls hr).2]
    rfl
  · cases hstep

/-- A fiber clears its `EIE` and blocks. -/
def parksDisabled : List Act :=
  [.scheduler (.createFiber 1 1), .scheduler .executorWait, .disableIntr (.fiber 1),
    .scheduler (.publish 1), .scheduler (.armPark 1), .scheduler (.blockCurrent 1),
    .scheduler .executorPost]

/-- The back-edges up to the sampled one. -/
def backedges (t : Tid) : List Act := List.replicate 127 (.yieldPoint (.fiber t) .unsampled)

/-- The state after acts from the start, with two rounds for each loop. -/
def stateAfter (as : List Act) : State := after (step .executor 2) .init as

theorem run_stateAfter (h : (as.foldlM (step .executor 2) .init).isSome = true) :
    Run (Step .executor) .init as (stateAfter as) :=
  (Run.of_foldlM (foldlM_eq_after h)).mono fun _ _ _ hs => ⟨2, hs⟩

theorem step_stateAfter (h : ((as ++ [a]).foldlM (step .executor 2) .init).isSome = true) :
    Step .executor (stateAfter as) a (stateAfter (as ++ [a])) := ⟨2, after_step h⟩

theorem init_initial : State.init.Initial := ⟨Sched.State.init_initial, fun _ => rfl, fun _ => rfl⟩

/-- The fiber is woken before another runs, and keeps the slot. -/
def resumed : List Act :=
  parksDisabled ++ [.scheduler (.makeReady 1), .scheduler .executorWait] ++ backedges 1

/-- Another fiber runs, which has its `EIE` set. -/
def other : List Act :=
  parksDisabled ++ [.scheduler (.createFiber 2 1), .scheduler .executorWait] ++ backedges 2

end Ps2Recomp.Gate
