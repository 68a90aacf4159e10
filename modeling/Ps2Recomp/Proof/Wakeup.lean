import Ps2Recomp.Proof.Touch

/-!
# No lost wakeup

A fiber that waits publishes itself, arms and parks in three sections, and the executor ends the
park in a fourth. A wakeup that comes in between finds the fiber running and leaves a note, which
`block_current` or the executor takes up; a later one queues the fiber. A suspended fiber drops
wakeups, and `clear_suspend` makes up for it.

`Kept` is the invariant: a woken fiber that is not suspended is queued, or runs with the note.
-/

namespace Ps2Recomp.Sched

open Intrusive Transition
open State

variable {s s' s₀ : State} {t f : Tid} {l : List Tid} {fuel : ℕ} {a : Act} {as : List Act}

/-! ### Where a fiber stands -/

/-- What a fiber's place says about it. -/
structure Placed (s : State) (f : Tid) : Prop where
  live : (s.pc f).published = true → f ∈ s.fiberMap
  running : (s.pc f).executing = true → s.pc f = .code ∨ s.runningFiber = some f
  blocked : s.runningFiber = some f → ∀ b, s.pc f = .armed b ∨ s.pc f = .parked b → (s.fibers f).state = .blocked

theorem Placed.untouched (h : Placed s f) (hu : Untouched s f s') : Placed s' f where
  live hp := hu.live (h.live (hu.pc ▸ hp))
  running hx := by
    rw [hu.pc, hu.running]
    exact h.running (hu.pc ▸ hx)
  blocked hr b hb := by
    rw [hu.state]
    rw [hu.pc] at hb
    exact h.blocked (hu.running.1 hr) b hb

/-- A wakeup changes the state of a parked fiber only. -/
theorem Placed.wakeLocked (h : Placed s f) (he : s.wakeLocked fuel f = some s') : Placed s' f := by
  obtain ⟨-, rfl⟩ | ⟨-, rfl⟩ | ⟨hr, c, rfl⟩ := wakeLocked_form he
  · exact h
  · exact ⟨h.live, h.running, fun hr b hb => by simpa using h.blocked hr b hb⟩
  · exact ⟨h.live, h.running, fun hr' => absurd hr' hr⟩

theorem Placed.modify {g : FiberContext → FiberContext} (h : Placed s f)
    (hg : ∀ fc, (g fc).state = fc.state) : Placed (s.modify f g) f :=
  ⟨h.live, h.running, fun hr b hb => by simpa [hg] using h.blocked hr b hb⟩

/-- The last section of `join_fiber` ends at the fiber's code. -/
theorem joinRestore_pc (he : s.joinRestore t = some s') : s'.pc t = .code := by
  rw [joinRestore] at he
  split at he
  · simp only at he
    split at he
    · split at he
      · split at he
        · cases he
          simp
        · cases he
          simp
      · cases he
        simp
    · cases he
      simp
  · cases he

theorem joinIteration_pc (he : s.joinIteration t = some s') (b : Bool) : s'.pc t ≠ .armed b ∧ s'.pc t ≠ .parked b := by
  rw [joinIteration] at he
  split at he
  · split at he
    · split at he
      · cases he
        simp
      · simp only at he
        split at he
        · cases he
          simp
        · cases he
          simp
    · cases he
  · cases he

/-- **`arm_park`** blocks a fiber that waits or suspends itself. -/
theorem armPark_cases (he : s.armPark t = some s') :
    ∃ b, s.At t (if b then .waiting else .suspending) ∧
      s' = (s.modify t fun fc => { fc with state := .blocked }).setPc t (.armed b) := by
  rw [armPark] at he
  split at he
  · next hat => exact ⟨true, hat, (Option.some.inj he).symm⟩
  · split at he
    · next hat => exact ⟨false, hat, (Option.some.inj he).symm⟩
    · cases he

/-- **`block_current`** returns with the fiber running, or parks it, which it does only when
there is no note. -/
theorem blockCurrent_cases (he : s.blockCurrent t = some s') :
    s.executor = .resuming t ∧ ∃ b, (s.pc t = .armed b ∨ s.pc t = .gated ∧ b = false) ∧
      (s' = (s.modify t fun fc => { fc with wakePending := false, state := .running }).setPc t .code ∧
        (s.stop = true ∧ (s.fibers t).terminateRequested = true ∨ (s.fibers t).wakePending = true) ∨
      s' = (s.modify t fun fc => { fc with wakePending := false, state := .blocked }).setPc t (.parked b) ∧
        (s.fibers t).wakePending = false) := by
  have hsection : ∀ b, s.blockSection t b =
      (s.modify t fun fc => { fc with wakePending := false, state := .running }).setPc t .code ∧
        (s.stop = true ∧ (s.fibers t).terminateRequested = true ∨ (s.fibers t).wakePending = true) ∨
      s.blockSection t b =
        (s.modify t fun fc => { fc with wakePending := false, state := .blocked }).setPc t (.parked b) ∧
        (s.fibers t).wakePending = false := by
    intro b
    rw [blockSection]
    split
    · next hs => exact .inl ⟨rfl, .inl (by simpa using hs)⟩
    · split
      · next hw => exact .inl ⟨rfl, .inr hw⟩
      · next hw => exact .inr ⟨rfl, by simpa using hw⟩
  rw [blockCurrent] at he
  split at he
  · next hx =>
    refine ⟨hx, ?_⟩
    split at he
    · next b hpc =>
      cases he
      exact ⟨b, .inl hpc, hsection b⟩
    · next hpc =>
      cases he
      exact ⟨false, .inr ⟨hpc, rfl⟩, hsection false⟩
    · cases he
  · cases he

section

variable (ha : a.own = some f) (he : step fuel s a = some s')

include ha he

/-- **What a section of the fiber's own writes**: its suspend count, the fields of `join_fiber`, or its state
and note, and its state is finished only in the trampoline. -/
theorem own_context :
    (∃ st w, s'.fibers f = { s.fibers f with state := st, wakePending := w } ∧
      (st = .finished → (s.fibers f).state = .finished ∨ s'.pc f = .finished)) ∨
    a = .suspendSelf f ∧ s'.fibers f = { s.fibers f with suspendCount := (s.fibers f).suspendCount + 1 } ∨
    (a = .joinIteration f ∨ a = .joinRestore f) ∧ ∃ p active saved, s'.fibers f =
      { s.fibers f with priority := p, joinFloorActive := active, joinSavedPriority := saved } := by
  have hplain : s'.fibers f = s.fibers f → ∃ st w, s'.fibers f =
      { s.fibers f with state := st, wakePending := w } ∧
        (st = .finished → (s.fibers f).state = .finished ∨ s'.pc f = .finished) :=
    fun h => ⟨(s.fibers f).state, (s.fibers f).wakePending, h, fun hfin => .inl hfin⟩
  unfold step at he
  split at he
  · cases he
  · cases a <;> cases ha
    case isFalse.armPark.refl =>
      obtain ⟨-, -, rfl⟩ := armPark_cases he
      exact .inl ⟨.blocked, (s.fibers f).wakePending, by simp, fun h => by cases h⟩
    case isFalse.blockCurrent.refl =>
      obtain ⟨-, -, -, ⟨rfl, -⟩ | ⟨rfl, -⟩⟩ := blockCurrent_cases he
      · exact .inl ⟨.running, false, by simp, fun h => by cases h⟩
      · exact .inl ⟨.blocked, false, by simp, fun h => by cases h⟩
    case isFalse.joinIteration.refl =>
      refine .inr (.inr ⟨.inl rfl, ?_⟩)
      simp only [joinIteration] at he
      split at he
      · split at he
        · split at he
          · cases he
            exact ⟨_, _, _, rfl⟩
          · split at he
            · cases he
              rw [modify_fibers, if_pos rfl]
              exact ⟨_, _, _, rfl⟩
            · cases he
              exact ⟨_, _, _, rfl⟩
        · cases he
      · cases he
    case isFalse.joinRestore.refl =>
      refine .inr (.inr ⟨.inr rfl, ?_⟩)
      simp only [joinRestore] at he
      split at he
      · split at he
        · split at he
          · split at he
            · cases he
              simp only [modify_fibers, if_pos]
              exact ⟨_, _, _, rfl⟩
            · cases he
              simp only [modify_fibers, if_pos]
              exact ⟨_, _, _, rfl⟩
          · cases he
            rw [modify_fibers, if_pos rfl]
            exact ⟨_, _, _, rfl⟩
        · cases he
          exact ⟨_, _, _, rfl⟩
      · cases he
    case isFalse.joinFiber.refl =>
      simp only [joinFiber] at he
      split at he
      · split at he
        · cases he
          exact .inl (hplain rfl)
        · cases he
          exact .inl (hplain rfl)
      · cases he
    case isFalse.suspendSelf.refl =>
      simp only [suspendSelf] at he
      split at he
      · cases he
        exact .inr (.inl ⟨rfl, by simp⟩)
      · cases he
    case isFalse.exitFiber.refl =>
      simp only [exitFiber] at he
      split at he
      · cases he
        exact .inl ⟨.exiting, (s.fibers f).wakePending, by simp, fun h => by cases h⟩
      · cases he
    case isFalse.finishFiber.refl =>
      simp only [finishFiber] at he
      split at he
      · cases he
        exact .inl ⟨.finished, (s.fibers f).wakePending, by simp, fun _ => .inr (by simp)⟩
      · cases he
    all_goals
      simp only [publish, waitWhileSuspended, suspendGate, yieldToWorker] at he
      split at he
      · cases he
        exact .inl (hplain rfl)
      · cases he

/-- What arms or parks a fiber blocks it. -/
theorem own_blocked (b : Bool) (hb : s'.pc f = .armed b ∨ s'.pc f = .parked b) : (s'.fibers f).state = .blocked := by
  unfold step at he
  split at he
  · cases he
  · cases a <;> cases ha
    case isFalse.armPark.refl =>
      obtain ⟨-, -, rfl⟩ := armPark_cases he
      simp
    case isFalse.blockCurrent.refl =>
      obtain ⟨-, -, -, ⟨rfl, -⟩ | ⟨rfl, -⟩⟩ := blockCurrent_cases he
      · simp at hb
      · simp
    case isFalse.joinIteration.refl =>
      obtain ⟨h1, h2⟩ := joinIteration_pc he b
      exact (hb.elim h1 h2).elim
    case isFalse.joinRestore.refl => simp [joinRestore_pc he] at hb
    case isFalse.joinFiber.refl =>
      simp only [joinFiber] at he
      split at he
      · next hat =>
        split at he
        · cases he
          simp at hb
        · cases he
          simp [hat.2] at hb
      · cases he
    case isFalse.exitFiber.refl =>
      simp only [exitFiber] at he
      split at he
      · next hat =>
        cases he
        simp [hat.1.2] at hb
      · cases he
    all_goals
      simp only [publish, suspendSelf, waitWhileSuspended, suspendGate, yieldToWorker, finishFiber] at he
      split at he
      · cases he
        simp at hb
      · cases he

end

theorem FiberPc.resumed_executing {pc : FiberPc} {b : Bool}
    (h : pc.resumed.published = true ∨ pc.resumed = .armed b ∨ pc.resumed = .parked b) :
    pc.executing = true ∧ pc ≠ .code := by
  cases pc <;> simp_all [FiberPc.resumed, FiberPc.published, FiberPc.executing]

namespace Placed

theorem executorWait (h : Placed s f) (he : s.executorWait = some s') : Placed s' f := by
  by_cases hq : s.runQueue = some f
  · obtain ⟨-, rfl | ⟨d, g, rfl | ⟨hr, -, t, s1, hp, rfl⟩⟩⟩ := executorWait_cases he
    · exact h.untouched (.of_eq rfl id rfl Iff.rfl)
    · exact h.untouched (.of_eq rfl id rfl Iff.rfl)
    · obtain ⟨hqt, c, rfl⟩ := popHeadLocked_form hp
      obtain rfl : f = t := Option.some.inj (hq.symm.trans hqt)
      have hpc : ∀ b, ¬((s.pc f).resumed.published = true ∨
          (s.pc f).resumed = .armed b ∨ (s.pc f).resumed = .parked b) := by
        intro b hb
        obtain ⟨hx, hne⟩ := FiberPc.resumed_executing hb
        have := (h.running hx).resolve_left hne
        rw [hr] at this
        cases this
      refine ⟨fun hp => absurd (.inl ?_) (hpc true), fun _ => .inr rfl, fun _ b hb =>
        absurd (.inr ?_) (hpc b)⟩
      · simpa [resume] using hp
      · simpa [resume] using hb
  · exact h.untouched (executorWait_untouched hq he)

theorem executorPost (hi : Inv s l) (h : Placed s f) (he : s.executorPost fuel = some s') : Placed s' f := by
  by_cases hx : s.executor = .resuming f
  · obtain ⟨t, ht, hpc, hc⟩ := executorPost_cases he
    rw [hx, ExecutorPc.resuming.injEq] at ht
    subst ht
    have hr := (hi.resuming f).1 hx
    have key : s'.pc = s.pc ∧ s'.runningFiber = none ∧ (s'.fiberMap = s.fiberMap ∨ (s.fibers f).state = .finished) := by
      obtain ⟨-, he'⟩ | ⟨-, -, -, he'⟩ | ⟨hs, rfl⟩ | ⟨-, rfl⟩ := hc
      · have hw := enqueueLocked_rewrites he'
        exact ⟨hw.pc, hw.runningFiber, .inl hw.fiberMap⟩
      · have hw := enqueueLocked_rewrites he'
        exact ⟨hw.pc, hw.runningFiber, .inl hw.fiberMap⟩
      · exact ⟨rfl, rfl, .inr hs⟩
      · exact ⟨rfl, rfl, .inl rfl⟩
    obtain ⟨hpc', hr', hm⟩ := key
    refine ⟨fun hp => ?_, fun hx' => ?_, fun hr'' => ?_⟩
    · rw [hpc'] at hp
      obtain hm | hs := hm
      · rw [hm]
        exact h.live hp
      · -- a published fiber that has yielded is parked, and so not finished
        have hparked : s.pc f = .parked true := by
          cases hpcf : s.pc f <;> simp_all [FiberPc.published, FiberPc.executing]
        have := h.blocked hr true (.inr hparked)
        rw [hs] at this
        cases this
    · rw [hpc', hpc] at hx'
      cases hx'
    · rw [hr'] at hr''
      cases hr''
  · exact h.untouched (executorPost_untouched hi hx he)

theorem yieldTo {gives : ℤ → ℤ → Bool} (h : Placed s f) (he : s.yieldTo gives fuel f = some s') : Placed s' f := by
  obtain ⟨-, rfl | ⟨s1, -, rfl⟩⟩ := yieldTo_form he
  · exact h
  · refine ⟨fun hp => ?_, fun hx => ?_, fun _ b hb => ?_⟩
    · simp [FiberPc.published] at hp
    · simp [FiberPc.executing] at hx
    · simp at hb

theorem suspendOther (h : Placed s f) (he : s.suspendOther fuel f = some s') : Placed s' f := by
  by_cases hf : f ∈ s.fiberMap
  · obtain ⟨hm, hpc, hr, -, -, -, hs⟩ := suspendOther_effect hf he
    refine ⟨fun hp => ?_, fun hx => ?_, fun hr' b hb => ?_⟩
    · rw [hm]
      exact hf
    · rw [hpc, hr]
      exact h.running (hpc ▸ hx)
    · obtain hs | hs := hs
      · rw [hs]
        exact h.blocked (hr ▸ hr') b (hpc ▸ hb)
      · exact hs
  · rw [State.suspendOther, if_neg hf] at he
    cases he
    exact h

theorem shutdownFiber (h : Placed s f) (he : s.shutdownFiber fuel f = some s') : Placed s' f := by
  obtain rfl | ⟨b, hw⟩ := shutdownFiber_cases he
  · exact h.modify fun _ => rfl
  · refine Placed.wakeLocked ?_ hw
    exact h.modify fun _ => rfl

/-- **One step.** -/
theorem step (hi : Inv s l) (h : Placed s f) (he : step fuel s a = some s') : Placed s' f := by
  by_cases ht : Touches s f a
  · cases ho : a.own with
    | some t =>
      obtain rfl := touches_own ht ho
      have hown := own_step ho he
      have hr : s'.runningFiber = some t := hown.runningFiber.trans ((hi.resuming t).1 hown.resuming)
      refine ⟨fun _ => ?_, fun _ => .inr hr, fun _ b hb => own_blocked ho he b hb⟩
      rw [hown.fiberMap]
      exact hi.live_of_resuming hown.resuming
    | none =>
      cases hw : a.woken with
      | some t =>
        obtain rfl := touches_woken ht hw
        obtain rfl | ⟨-, ⟨-, hw⟩ | ⟨b, hw⟩⟩ := woken_step hw he
        · exact h
        · exact h.wakeLocked hw
        · refine Placed.wakeLocked ?_ hw
          exact h.modify fun _ => rfl
      | none =>
        unfold Sched.step at he
        split at he
        · cases he
        · cases a <;> cases ho <;> cases hw
          case isFalse.executorWait.refl.refl => exact h.executorWait he
          case isFalse.executorPost.refl.refl => exact h.executorPost hi he
          case isFalse.maybeYield.refl.refl =>
            cases ht
            exact h.yieldTo he
          case isFalse.forceReschedule.refl.refl =>
            cases ht
            exact h.yieldTo he
          case isFalse.suspendOther.refl.refl =>
            cases ht
            exact h.suspendOther he
          case isFalse.createFiber.refl.refl p =>
            cases ht
            simp only [createFiber] at he
            split at he
            · cases he
            · have hpc : s'.pc f = .code := by
                obtain ⟨-, rfl⟩ | ⟨-, c, rfl⟩ := enqueueLocked_form he
                · exact Function.update_self _ _ _
                · exact Function.update_self _ _ _
              refine ⟨fun hp => ?_, fun _ => .inl hpc, fun _ b hb => ?_⟩
              · simp [hpc, FiberPc.published] at hp
              · simp [hpc] at hb
          case isFalse.schedulerShutdown.refl.refl order =>
            simp only at he
            split at he
            · exact shutdown_preserves (Q := fun s => Placed s f) (fun _ _ hu h => h.untouched hu)
                (fun _ _ he h => h.shutdownFiber he) he h
            · cases he
          all_goals simp [Touches, Act.own, Act.woken] at ht
  · exact h.untouched (step_untouched hi ht he)

end Placed

/-! ### A wakeup is kept -/

/-- **The wakeup of `f` is kept**: unless `f` is suspended, it is queued or runs with the note. -/
def Kept (s : State) (f : Tid) : Prop :=
  (s.fibers f).suspendCount = 0 →
    (s.fibers f).inRunQueue = true ∨ s.runningFiber = some f ∧ (s.fibers f).wakePending = true

theorem Kept.untouched (h : Kept s f) (hu : Untouched s f s') : Kept s' f := by
  intro hz
  rw [hu.inRunQueue, hu.running, hu.wakePending]
  exact h (hu.suspendCount ▸ hz)

/-- Whatever the state, a wakeup that is not dropped is kept. -/
theorem kept_of_wakeLocked (he : s.wakeLocked fuel f = some s') : Kept s' f := by
  intro _
  obtain ⟨hq, rfl⟩ | ⟨hr, rfl⟩ | ⟨-, c, rfl⟩ := wakeLocked_form he
  · exact .inl hq
  · exact .inr ⟨hr, by simp⟩
  · exact .inl (by simp)

theorem Kept.modify {g : FiberContext → FiberContext} (h : Kept s f)
    (hg : ∀ fc, (g fc).suspendCount = fc.suspendCount ∧ (g fc).inRunQueue = fc.inRunQueue ∧
      (g fc).wakePending = fc.wakePending) : Kept (s.modify f g) f := by
  intro hz
  simp only [modify_fibers, if_pos, hg] at hz ⊢
  exact h hz

/-- A published fiber's own sections are `arm_park` and `block_current`. -/
theorem own_published (ha : a.own = some f) (he : step fuel s a = some s') (hp : (s.pc f).published = true) :
    a = .armPark f ∨ a = .blockCurrent f := by
  unfold step at he
  split at he
  · cases he
  · cases a <;> cases ha
    case isFalse.armPark.refl => exact .inl rfl
    case isFalse.blockCurrent.refl => exact .inr rfl
    case isFalse.joinIteration.refl =>
      simp only [joinIteration] at he
      split at he
      · split at he
        · next hpc => simp [hpc, FiberPc.published] at hp
        · cases he
      · cases he
    all_goals
      simp only [publish, suspendSelf, waitWhileSuspended, suspendGate, yieldToWorker, joinFiber, joinRestore, exitFiber,
        finishFiber] at he
      split at he
      · next hat =>
        simp only [At] at hat
        simp [hat, FiberPc.published] at hp
      · cases he

theorem kept_own (hi : Inv s l) (h : Kept s f) (ha : a.own = some f) (hp : (s.pc f).published = true)
    (hp' : (s'.pc f).published = true) (he : step fuel s a = some s') : Kept s' f := by
  have hown := own_step ha he
  have hidle := hi.not_mem_of_executing hown.resuming hown.executing
  have hflag := hi.queue.flag_eq_false (hi.live_of_resuming hown.resuming) hidle
  have hcase := own_published ha he hp
  unfold step at he
  split at he
  · cases he
  · obtain rfl | rfl := hcase
    · obtain ⟨b, -, rfl⟩ := armPark_cases he
      have h' : Kept (s.modify f fun fc => { fc with state := .blocked }) f :=
        h.modify fun _ => ⟨rfl, rfl, rfl⟩
      exact h'
    · obtain ⟨-, b, -, ⟨rfl, -⟩ | ⟨rfl, hw⟩⟩ := blockCurrent_cases he
      · simp [FiberPc.published] at hp'
      · -- it parks: there was no note, so it is suspended
        intro hz
        have hz' : (s.fibers f).suspendCount = 0 := by simpa using hz
        obtain hq | ⟨-, hw'⟩ := h hz'
        · rw [hflag] at hq
          cases hq
        · rw [hw] at hw'
          cases hw'

theorem kept_executorPost (hi : Inv s l) (hpl : Placed s f) (h : Kept s f)
    (hp : (s.pc f).published = true) (he : s.executorPost fuel = some s') : Kept s' f := by
  by_cases hx : s.executor = .resuming f
  · obtain ⟨t, ht, hpc, hc⟩ := executorPost_cases he
    rw [hx, ExecutorPc.resuming.injEq] at ht
    subst ht
    have hparked : s.pc f = .parked true := by
      cases hpcf : s.pc f <;> simp_all [FiberPc.published, FiberPc.executing]
    have hb := hpl.blocked ((hi.resuming f).1 hx) true (.inr hparked)
    obtain ⟨hs, -⟩ | ⟨-, -, -, he'⟩ | ⟨hs, -⟩ | ⟨hn, rfl⟩ := hc
    · rw [hb] at hs
      rcases hs with hs | hs <;> cases hs
    · intro _
      obtain ⟨hq, rfl⟩ | ⟨-, c, rfl⟩ := enqueueLocked_form he'
      · exact .inl hq
      · exact .inl (by simp)
    · rw [hb] at hs
      cases hs
    · -- it stays parked: there is no note, or it is suspended
      intro hz
      obtain hq | ⟨-, hw⟩ := h hz
      · exact .inl hq
      · exact absurd ⟨hw, hz⟩ (hn hb)
  · exact h.untouched (executorPost_untouched hi hx he)

theorem kept_executorWait (hpl : Placed s f) (h : Kept s f) (hp' : (s'.pc f).published = true)
    (he : s.executorWait = some s') : Kept s' f := by
  by_cases hq : s.runQueue = some f
  · obtain ⟨-, rfl | ⟨d, g, rfl | ⟨hr, -, t, s1, hpop, rfl⟩⟩⟩ := executorWait_cases he
    · exact h
    · exact h
    · obtain ⟨hqt, c, rfl⟩ := popHeadLocked_form hpop
      obtain rfl : f = t := Option.some.inj (hq.symm.trans hqt)
      have hres : (s.pc f).resumed.published = true := by simpa [resume] using hp'
      obtain ⟨hx, hne⟩ := FiberPc.resumed_executing (b := true) (.inl hres)
      have hrun := (hpl.running hx).resolve_left hne
      rw [hr] at hrun
      cases hrun
  · exact h.untouched (executorWait_untouched hq he)

theorem kept_shutdownFiber (h : Kept s f) (he : s.shutdownFiber fuel f = some s') : Kept s' f := by
  obtain rfl | ⟨b, hw⟩ := shutdownFiber_cases he
  · exact h.modify fun _ => ⟨rfl, rfl, rfl⟩
  · exact kept_of_wakeLocked hw

/-- **One step** before `f` resumes. -/
theorem Kept.step (hi : Inv s l) (hpl : Placed s f) (h : Kept s f) (hp : (s.pc f).published = true)
    (hp' : (s'.pc f).published = true) (he : step fuel s a = some s') : Kept s' f := by
  by_cases ht : Touches s f a
  · cases ho : a.own with
    | some t =>
      obtain rfl := touches_own ht ho
      exact kept_own hi h ho hp hp' he
    | none =>
      cases hw : a.woken with
      | some t =>
        obtain rfl := touches_woken ht hw
        obtain rfl | ⟨-, ⟨-, hw⟩ | ⟨b, hw⟩⟩ := woken_step hw he
        · exact h
        · exact kept_of_wakeLocked hw
        · exact kept_of_wakeLocked hw
      | none =>
        unfold Sched.step at he
        split at he
        · cases he
        · cases a <;> cases ho <;> cases hw
          case isFalse.executorWait.refl.refl => exact kept_executorWait hpl h hp' he
          case isFalse.executorPost.refl.refl => exact kept_executorPost hi hpl h hp he
          case isFalse.maybeYield.refl.refl =>
            cases ht
            simp only [maybeYield, yieldTo] at he
            split at he
            · next hat => simp [hat.2, FiberPc.published] at hp
            · cases he
          case isFalse.forceReschedule.refl.refl =>
            cases ht
            simp only [forceReschedule, yieldTo] at he
            split at he
            · next hat => simp [hat.2, FiberPc.published] at hp
            · cases he
          case isFalse.suspendOther.refl.refl =>
            cases ht
            intro hz
            rw [(suspendOther_effect (hpl.live hp) he).2.2.2.1] at hz
            omega
          case isFalse.createFiber.refl.refl p =>
            cases ht
            simp only [createFiber, hpl.live hp, true_or, if_true] at he
            cases he
          case isFalse.schedulerShutdown.refl.refl order =>
            simp only at he
            split at he
            · exact shutdown_preserves (Q := fun s => Kept s f) (fun _ _ hu h => h.untouched hu)
                (fun _ _ he h => kept_shutdownFiber h he) he h
            · cases he
          all_goals simp [Touches, Act.own, Act.woken] at ht
  · exact h.untouched (step_untouched hi ht he)

/-! ### Runs -/

theorem run_placed (h0 : s₀.Initial) (h : Run Step s₀ as s) : (∃ l, Inv s l) ∧ ∀ f, Placed s f := by
  have hinit : ∀ f, Placed s₀ f := fun f =>
    ⟨fun hp => (by simp [h0.pc, FiberPc.published] at hp), fun _ => .inl (h0.pc f),
      fun hr => (by simp [h0.runningFiber] at hr)⟩
  refine h.state_invariant (I := fun s => (∃ l, Inv s l) ∧ ∀ f, Placed s f)
    ⟨⟨[], .initial h0⟩, hinit⟩ fun s a s' ⟨⟨l, hl⟩, hp⟩ ⟨fuel, he⟩ => ?_
  obtain ⟨l', h', -⟩ := hl.step he
  exact ⟨⟨l', h'⟩, fun f => (hp f).step hl he⟩

/-- Steps before `f` resumes: it is still published, and `block_current` has not returned. -/
def BeforeResume (f : Tid) (s : State) (a : Act) (s' : State) : Prop :=
  Step s a s' ∧ (s'.pc f).published = true

/-- A fiber's token is not the null token. -/
theorem makeFiberToken_ne_zero (hf : f ≠ 0) : s.makeFiberToken f ≠ 0 := by
  intro h
  apply hf
  have hlow : (s.makeFiberToken f).setWidth 32 = f := by
    rw [makeFiberToken, BitVec.setWidth_append, dif_pos (Nat.le_refl 32), BitVec.setWidth_eq]
  rw [h] at hlow
  exact hlow.symm.trans (by simp)

/-- A wakeup by thread id, or by the fiber's own token, of a fiber in the map. -/
theorem wakeup_cases (hi : Inv s l) (hf : f ∈ s.fiberMap)
    (ha : a = .makeReady f ∨ a = .enqueueExternalWakeupValidated f (s.makeFiberToken f))
    (he : step fuel s a = some s') :
    if (s.fibers f).suspendCount = 0 then s.wakeLocked fuel f = some s' else s' = s := by
  unfold step at he
  split at he
  · cases he
  · split
    · next hz =>
      obtain rfl | rfl := ha
      · simpa only [makeReady, hf, hz, and_self, if_true] using he
      · have ht := makeFiberToken_ne_zero (s := s) (hi.ids f hf)
        simpa only [enqueueExternalWakeupValidated, hf, hz, ne_eq, ht, not_false_eq_true, and_self, if_true] using he
    · next hz =>
      obtain rfl | rfl := ha
      · simp only [makeReady, hz, and_false, if_false, Option.some.injEq] at he
        exact he.symm
      · simp only [enqueueExternalWakeupValidated, hz, and_false, if_false, Option.some.injEq] at he
        exact he.symm

/-- **No lost wakeup.** Let `f` be on a wait-list and a wakeup of it be made, in any reachable
state. In every later state before `f` resumes in which `f` is not suspended, it is queued, or it
runs and the wakeup is noted. If the wakeup was dropped because `f` was suspended, `clear_suspend`
makes up for it. -/
theorem wakeup_not_lost {s₁ s₂ : State} {bs : List Act} (h0 : s₀.Initial) (h : Run Step s₀ as s)
    (hp : (s.pc f).published = true)
    (ha : a = .makeReady f ∨ a = .enqueueExternalWakeupValidated f (s.makeFiberToken f))
    (hs : Step s a s₁) (hr : Run (BeforeResume f) s₁ bs s₂) :
    ((s₂.fibers f).suspendCount = 0 → (s₂.fibers f).inRunQueue = true ∨
      s₂.runningFiber = some f ∧ (s₂.fibers f).wakePending = true) ∧
    ((s.fibers f).suspendCount ≠ 0 → s₁ = s ∧ ∀ s₃, Step s₂ (.clearSuspend f) s₃ →
      (s₃.fibers f).suspendCount = 0 ∧ ((s₃.fibers f).inRunQueue = true ∨
        s₃.runningFiber = some f ∧ (s₃.fibers f).wakePending = true)) := by
  obtain ⟨⟨l, hl⟩, hpl⟩ := run_placed h0 h
  have hf := (hpl f).live hp
  obtain ⟨fuel, he⟩ := hs
  have hwake := wakeup_cases hl hf ha he
  have hp₁ : (s₁.pc f).published = true := by
    split at hwake
    · rwa [(wakeLocked_keeps hwake).pc]
    · rwa [hwake]
  have hk₁ : Kept s₁ f := by
    split at hwake
    · exact kept_of_wakeLocked hwake
    · next hz =>
      subst hwake
      exact fun hz' => absurd hz' hz
  have h₁ : Run Step s₀ (as ++ [a]) s₁ := .snoc h ⟨fuel, he⟩
  obtain ⟨⟨l₂, hl₂⟩, hpl₂, hp₂, hk₂⟩ := hr.state_invariant
    (I := fun s => (∃ l, Inv s l) ∧ (∀ f, Placed s f) ∧ (s.pc f).published = true ∧ Kept s f)
    ⟨(run_placed h0 h₁).1, (run_placed h0 h₁).2, hp₁, hk₁⟩
    fun s a s' ⟨⟨l, hl⟩, hpl, hp, hk⟩ ⟨⟨fuel, he⟩, hp'⟩ => by
      obtain ⟨l', h', -⟩ := hl.step he
      exact ⟨⟨l', h'⟩, fun f => (hpl f).step hl he, hp', hk.step hl (hpl f) hp hp' he⟩
  refine ⟨hk₂, fun hz => ⟨by simpa only [hz, if_false] using hwake, fun s₃ ⟨fuel, he₃⟩ => ?_⟩⟩
  unfold step at he₃
  split at he₃
  · cases he₃
  · simp only [clearSuspend, (hpl₂ f).live hp₂, if_true] at he₃
    have hz₃ : (s₃.fibers f).suspendCount = 0 := by
      rw [(wakeLocked_keeps he₃).suspendCount f]
      simp
    exact ⟨hz₃, kept_of_wakeLocked he₃ hz₃⟩

/-- A wakeup between publishing and arming. -/
theorem waiting_wakeup_not_lost :
    ∃ s s₁ s₂, Run Step State.init [.createFiber 1 10, .executorWait, .publish 1] s ∧
      Step s (.makeReady 1) s₁ ∧ Run (BeforeResume 1) s₁ [.armPark 1] s₂ ∧
      ((s₂.fibers 1).suspendCount = 0 → (s₂.fibers 1).inRunQueue = true ∨
        s₂.runningFiber = some 1 ∧ (s₂.fibers 1).wakePending = true) := by
  have hrun : Run Step State.init _ (stateAfter 2 [.createFiber 1 10, .executorWait, .publish 1]) :=
    run_stateAfter (by decide)
  have hs : Step _ (.makeReady 1) (stateAfter 2 ([.createFiber 1 10, .executorWait, .publish 1] ++
    [.makeReady 1])) := step_stateAfter (by decide)
  have hs' : Step _ (.armPark 1) (stateAfter 2 (([.createFiber 1 10, .executorWait, .publish 1] ++
    [.makeReady 1]) ++ [.armPark 1])) := step_stateAfter (by decide)
  have hr : Run (BeforeResume 1) _ [.armPark 1] _ := .snoc .nil ⟨hs', by decide⟩
  exact ⟨_, _, _, hrun, hs, hr, (wakeup_not_lost State.init_initial hrun (by decide) (.inl rfl) hs hr).1⟩

end Ps2Recomp.Sched
