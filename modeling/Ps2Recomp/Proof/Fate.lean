import Ps2Recomp.Proof.Suspend

/-!
# What a section does to a live fiber

A section is the fiber's own, or the executor switches to it or back from it, or the section is
somebody else's and moves the fiber nowhere. `step_fate` says this once for every section.
-/

namespace Ps2Recomp.Sched

open Intrusive Transition
open State

variable {s s' s₀ : State} {t f : Tid} {l : List Tid} {fuel : ℕ} {a : Act} {as : List Act}

/-- The fiber stays where it is. A wakeup or a suspension may write its state, but not while it is
on the processor and finished. -/
structure Unmoved (s : State) (f : Tid) (s' : State) : Prop where
  live : f ∈ s'.fiberMap
  pc : s'.pc f = s.pc f
  running : s'.runningFiber = some f ↔ s.runningFiber = some f
  generation : (s'.fibers f).generation = (s.fibers f).generation
  state : (s'.fibers f).state = (s.fibers f).state ∨ (s'.fibers f).state ≠ .finished
  finished : s.runningFiber = some f → (s.fibers f).state = .finished → (s'.fibers f).state = .finished

/-- **What a section does to the live fiber `f`.** -/
inductive Fate (s : State) (f : Tid) (a : Act) (s' : State) : Prop
  /-- a section of the fiber itself -/
  | own (ha : a.own = some f) (ho : Own s f s')
  /-- `maybe_yield` or `force_reschedule` of the fiber -/
  | yields (hat : s.At f .code) (hlive : f ∈ s'.fiberMap) (hpc : s'.pc f = .code ∨ s'.pc f = .yielded)
      (hgen : (s'.fibers f).generation = (s.fibers f).generation)
      (hstate : (s'.fibers f).state = (s.fibers f).state ∨ (s'.fibers f).state = .ready)
  /-- the executor switches to it -/
  | resumed (hlive : f ∈ s'.fiberMap) (hpc : s'.pc f = (s.pc f).resumed)
      (hgen : (s'.fibers f).generation = (s.fibers f).generation)
      (hstate : (s'.fibers f).state = .running) (hidle : s.runningFiber = none)
      (hrun : s'.runningFiber = some f)
  /-- the executor is back from it -/
  | left (hx : s.executor = .resuming f) (hpc : s'.pc f = s.pc f)
      (hgen : (s'.fibers f).generation = (s.fibers f).generation)
      (hstate : (s.fibers f).state = .finished ∧ f ∉ s'.fiberMap ∨
        (s.fibers f).state ≠ .finished ∧ f ∈ s'.fiberMap ∧ (s'.fibers f).state ≠ .finished)
  /-- a section of others -/
  | unmoved (h : Unmoved s f s')

theorem Untouched.unmoved (h : Untouched s f s') (hf : f ∈ s.fiberMap) : Unmoved s f s' where
  live := h.live hf
  pc := h.pc
  running := h.running
  generation := h.generation
  state := .inl h.state
  finished _ hs := h.state.trans hs

theorem Unmoved.wakeLocked (hf : f ∈ s.fiberMap) (he : s.wakeLocked fuel f = some s') : Unmoved s f s' := by
  have hk := wakeLocked_keeps he
  refine ⟨hk.fiberMap ▸ hf, by rw [hk.pc], by rw [hk.runningFiber], hk.generation f, ?_, ?_⟩
  · obtain ⟨-, rfl⟩ | ⟨-, rfl⟩ | ⟨-, c, rfl⟩ := wakeLocked_form he
    · exact .inl rfl
    · exact .inl (by simp)
    · exact .inr (by simp)
  · intro hr hs
    obtain ⟨-, rfl⟩ | ⟨-, rfl⟩ | ⟨hr', -⟩ := wakeLocked_form he
    · exact hs
    · simpa using hs
    · exact absurd hr hr'

section

variable {g : FiberContext → FiberContext}

theorem Unmoved.modify (h : Unmoved (s.modify f g) f s')
    (hg : ∀ fc, (g fc).state = fc.state ∧ (g fc).generation = fc.generation) : Unmoved s f s' where
  live := h.live
  pc := h.pc
  running := h.running
  generation := by
    rw [h.generation, modify_fibers, if_pos rfl]
    exact (hg _).2
  state := by
    have hs := h.state
    rwa [modify_fibers, if_pos rfl, (hg _).1] at hs
  finished hr hs := by
    refine h.finished hr ?_
    rw [modify_fibers, if_pos rfl, (hg _).1]
    exact hs

theorem Unmoved.of_modify (hf : f ∈ s.fiberMap)
    (hg : ∀ fc, (g fc).state = fc.state ∧ (g fc).generation = fc.generation) : Unmoved s f (s.modify f g) :=
  Unmoved.modify (g := g) ⟨hf, rfl, Iff.rfl, rfl, .inl rfl, fun _ h => h⟩ hg

end

theorem Unmoved.trans {s'' : State} (h : Unmoved s f s') (h' : Unmoved s' f s'') : Unmoved s f s'' where
  live := h'.live
  pc := h'.pc.trans h.pc
  running := h'.running.trans h.running
  generation := h'.generation.trans h.generation
  state := by
    rcases h'.state with hs' | hs'
    · rw [hs']
      exact h.state
    · exact .inr hs'
  finished hr hs := h'.finished (h.running.2 hr) (h.finished hr hs)

section

variable (hf : f ∈ s.fiberMap)

include hf

theorem Unmoved.woken (ha : a.woken = some f) (he : step fuel s a = some s') : Unmoved s f s' := by
  obtain rfl | ⟨-, ⟨-, hw⟩ | ⟨b, hw⟩⟩ := woken_step ha he
  · exact (Untouched.refl _ f).unmoved hf
  · exact .wakeLocked hf hw
  · exact .modify (.wakeLocked (by exact hf) hw) fun _ => ⟨rfl, rfl⟩

theorem Unmoved.suspendOther (he : s.suspendOther fuel f = some s') : Unmoved s f s' := by
  rw [State.suspendOther, if_pos hf] at he
  simp only at he
  split at he
  · next hready =>
    have hready' : (s.fibers f).state = .ready := by simpa using hready
    obtain ⟨s1, he1, hs'⟩ := Option.bind_eq_some_iff.1 he
    cases hs'
    have hfin : s.runningFiber = some f → (s.fibers f).state = .finished → False := by
      intro _ hs
      rw [hready'] at hs
      cases hs
    obtain rfl | ⟨c, rfl⟩ := removeLocked_form he1
    · exact ⟨hf, rfl, Iff.rfl, by simp, .inr (by simp), fun hr hs => (hfin hr hs).elim⟩
    · exact ⟨hf, rfl, Iff.rfl, by simp, .inr (by simp), fun hr hs => (hfin hr hs).elim⟩
  · cases he
    exact .of_modify hf fun _ => ⟨rfl, rfl⟩

theorem Unmoved.shutdown {order : List Tid} (he : s.schedulerShutdown fuel order = some s') : Unmoved s f s' := by
  refine shutdown_preserves (f := f) (Q := fun s' => Unmoved s f s')
    (fun s1 s2 hu hq => hq.trans (hu.unmoved hq.live)) (fun s1 s2 hs hq => hq.trans ?_) he
    ((Untouched.refl s f).unmoved hf)
  obtain rfl | ⟨b, hw⟩ := shutdownFiber_cases hs
  · exact .of_modify hq.live fun _ => ⟨rfl, rfl⟩
  · exact .modify (.wakeLocked (by exact hq.live) hw) fun _ => ⟨rfl, rfl⟩

end

theorem Fate.yieldTo {gives : ℤ → ℤ → Bool} (hi : Inv s l) (he : s.yieldTo gives fuel f = some s') : Fate s f a s' := by
  obtain ⟨hat, hc⟩ := yieldTo_form he
  have hf := hi.live_of_resuming hat.1
  obtain rfl | ⟨s1, he1, rfl⟩ := hc
  · exact .yields hat hf (.inl hat.2) rfl (.inl rfl)
  · obtain ⟨-, rfl⟩ | ⟨-, c, rfl⟩ := enqueueLocked_form he1
    · exact .yields hat hf (.inr (by simp)) rfl (.inl rfl)
    · exact .yields hat hf (.inr (by simp)) (by simp) (.inr (by simp))

theorem Fate.executorPost (hf : f ∈ s.fiberMap) (hx : s.executor = .resuming f)
    (he : s.executorPost fuel = some s') : Fate s f a s' := by
  obtain ⟨w, hx', -, hc⟩ := executorPost_cases he
  obtain rfl : f = w := ExecutorPc.resuming.inj (hx.symm.trans hx')
  have hq : ∀ s1 : State, s1.enqueueLocked fuel f = some s' → f ∈ s1.fiberMap → s1.pc f = s.pc f →
      (s1.fibers f).generation = (s.fibers f).generation → (s1.fibers f).state = (s.fibers f).state →
      (s.fibers f).state ≠ .finished → Fate s f a s' := by
    intro s1 he hl hpc hg hs hne
    obtain ⟨-, rfl⟩ | ⟨-, c, rfl⟩ := enqueueLocked_form he
    · exact .left hx hpc hg (.inr ⟨hne, hl, hs ▸ hne⟩)
    · exact .left hx hpc (by simpa using hg) (.inr ⟨hne, hl, by simp⟩)
  obtain ⟨hs, he'⟩ | ⟨hs, -, -, he'⟩ | ⟨hs, rfl⟩ | ⟨-, rfl⟩ := hc
  · refine hq _ he' hf rfl rfl rfl ?_
    rcases hs with hs | hs
    · simp [hs]
    · simp [hs]
  · exact hq _ he' hf rfl (by simp) (by simp) (by simp [hs])
  · exact .left hx rfl rfl (.inl ⟨hs, by simp⟩)
  · by_cases hs : (s.fibers f).state = .finished
    · -- a finished fiber is taken out of the map
      rw [State.executorPost, hx] at he
      simp only at he
      split at he
      · cases he
      · rw [hs, Option.some.injEq] at he
        exact absurd (congrArg State.executor he) (by simp)
    · exact .left hx rfl rfl (.inr ⟨hs, hf, hs⟩)

theorem Fate.executorWait (hf : f ∈ s.fiberMap) (he : s.executorWait = some s') : Fate s f a s' := by
  obtain ⟨-, rfl | ⟨d, g, rfl | ⟨hr, -, w, s1, hp, rfl⟩⟩⟩ := executorWait_cases he
  · exact .unmoved ⟨hf, rfl, Iff.rfl, rfl, .inl rfl, fun _ h => h⟩
  · exact .unmoved ⟨hf, rfl, Iff.rfl, rfl, .inl rfl, fun _ h => h⟩
  · obtain ⟨-, c, rfl⟩ := popHeadLocked_form hp
    by_cases hfw : f = w
    · subst hfw
      exact .resumed hf (by simp [resume]) (by simp [resume]) (by simp [resume]) hr rfl
    · have hne : some w ≠ some f := fun h => hfw (Option.some.inj h).symm
      refine .unmoved ⟨hf, by simp [resume, hfw], ?_, by simp [resume, hfw], .inl (by simp [resume, hfw]), ?_⟩
      · simp [resume, hr, Ne.symm hfw]
      · intro h
        rw [hr] at h
        cases h

/-- **One section.** -/
theorem step_fate (hi : Inv s l) (hf : f ∈ s.fiberMap) (he : step fuel s a = some s') : Fate s f a s' := by
  by_cases ht : Touches s f a
  · cases ho : a.own with
    | some w =>
      obtain rfl := touches_own ht ho
      exact .own ho (own_step ho he)
    | none =>
      cases hw : a.woken with
      | some w =>
        obtain rfl := touches_woken ht hw
        exact .unmoved (.woken hf hw he)
      | none =>
        unfold step at he
        split at he
        · cases he
        · cases a <;> cases ho <;> cases hw
          case isFalse.executorWait.refl.refl => exact .executorWait hf he
          case isFalse.executorPost.refl.refl => exact .executorPost hf ht he
          case isFalse.maybeYield.refl.refl w =>
            obtain rfl : w = f := ht
            exact .yieldTo hi he
          case isFalse.forceReschedule.refl.refl w =>
            obtain rfl : w = f := ht
            exact .yieldTo hi he
          case isFalse.createFiber.refl.refl w p =>
            obtain rfl : w = f := ht
            simp [createFiber, hf] at he
          case isFalse.suspendOther.refl.refl w =>
            obtain rfl : w = f := ht
            exact .unmoved (.suspendOther hf he)
          case isFalse.schedulerShutdown.refl.refl order =>
            simp only at he
            split at he
            · exact .unmoved (.shutdown hf he)
            · cases he
          all_goals exact ht.elim (fun h => by cases h) (fun h => by cases h)
  · exact .unmoved ((step_untouched hi ht he).unmoved hf)

/-! ### The map of live fibers -/

theorem mem_fiberMap_step (hf : f ∈ s'.fiberMap) (he : step fuel s a = some s') :
    f ∈ s.fiberMap ∨ ∃ p, a = .createFiber f p := by
  cases ho : a.own with
  | some w => exact .inl ((own_step ho he).fiberMap ▸ hf)
  | none =>
    cases hw : a.woken with
    | some w =>
      obtain ⟨_, _, hw⟩ := woken_rewrites hw he
      exact .inl (hw.fiberMap ▸ hf)
    | none =>
      cases hq : a.quiet with
      | true => exact .inl ((quiet_step hq he).2.1 ▸ hf)
      | false =>
        unfold step at he
        split at he
        · cases he
        · cases a <;> cases ho <;> cases hw <;> cases hq
          · left
            obtain ⟨-, rfl | ⟨d, g, rfl | ⟨-, -, w, s1, hp, rfl⟩⟩⟩ := executorWait_cases he
            · exact hf
            · exact hf
            · exact (popHeadLocked_rewrites hp).fiberMap ▸ hf
          · left
            obtain ⟨w, -, hw | rfl⟩ := executorPost_rewrites he
            · exact hw.fiberMap ▸ hf
            · exact (List.mem_filter.1 hf).1
          · obtain ⟨-, rfl | ⟨s1, he1, rfl⟩⟩ := yieldTo_form he
            · exact .inl hf
            · exact .inl ((enqueueLocked_rewrites he1).fiberMap ▸ hf)
          · obtain ⟨-, rfl | ⟨s1, he1, rfl⟩⟩ := yieldTo_form he
            · exact .inl hf
            · exact .inl ((enqueueLocked_rewrites he1).fiberMap ▸ hf)
          · simp only [createFiber] at he
            split at he
            · cases he
            · rw [(enqueueLocked_rewrites he).fiberMap, List.mem_cons] at hf
              rcases hf with rfl | hf
              · exact .inr ⟨_, rfl⟩
              · exact .inl hf
          · obtain ⟨_, _, hw⟩ := updatePriority_rewrites he
            exact .inl (hw.fiberMap ▸ hf)
          · obtain ⟨_, hw⟩ := suspendOther_rewrites he
            exact .inl (hw.fiberMap ▸ hf)
          · left
            obtain rfl | ⟨c, rfl⟩ := rotateReadyQueue_form he
            · exact hf
            · exact hf
          · simp only at he
            split at he
            · have hmap : s'.fiberMap = s.fiberMap :=
                schedulerShutdown_induction (P := fun s' => s'.fiberMap = s.fiberMap)
                  (fun _ _ _ _ _ hw h => hw.fiberMap.trans h) he rfl
              exact .inl (hmap ▸ hf)
            · cases he

/-! ### Finished fibers -/

theorem own_finished (ha : a.own = some f) (he : step fuel s a = some s') (hfin : (s'.fibers f).state = .finished) :
    (s.fibers f).state = .finished ∨ s'.pc f = .finished := by
  obtain ⟨st, _, hc, hst⟩ | ⟨-, hc⟩ | ⟨-, _, _, _, hc⟩ := own_context ha he
  · rw [hc] at hfin
    exact hst hfin
  · rw [hc] at hfin
    exact .inl hfin
  · rw [hc] at hfin
    exact .inl hfin

/-- A finished fiber is still on the processor, in its last yield. -/
def Last (s : State) : Prop :=
  ∀ f ∈ s.fiberMap, (s.fibers f).state = .finished → s.runningFiber = some f ∧ s.pc f = .finished

theorem Last.step (hi : Inv s l) (h : Last s) (he : Sched.step fuel s a = some s') : Last s' := by
  intro f hf' hs'
  rcases mem_fiberMap_step hf' he with hf | ⟨p, rfl⟩
  · cases step_fate hi hf he with
    | own ha ho =>
      have hrun : s'.runningFiber = some f := ho.runningFiber.trans ((hi.resuming f).1 ho.resuming)
      rcases own_finished ha he hs' with hs | hpc
      · -- a finished fiber has no section left
        have hx := ho.executing
        rw [(h f hf hs).2] at hx
        cases hx
      · exact ⟨hrun, hpc⟩
    | yields hat hlive hpc hgen hstate =>
      rcases hstate with hstate | hstate
      · rw [hstate] at hs'
        have hx := (h f hf hs').2
        rw [hat.2] at hx
        cases hx
      · rw [hstate] at hs'
        cases hs'
    | resumed hlive hpc hgen hstate hidle hrun =>
      rw [hstate] at hs'
      cases hs'
    | left hx hpc hgen hstate =>
      rcases hstate with ⟨-, hgone⟩ | ⟨-, -, hne⟩
      · exact absurd hf' hgone
      · exact absurd hs' hne
    | unmoved hu =>
      rcases hu.state with hstate | hne
      · rw [hstate] at hs'
        obtain ⟨hrun, hpc⟩ := h f hf hs'
        exact ⟨hu.running.2 hrun, hu.pc.trans hpc⟩
      · exact absurd hs' hne
  · -- a new fiber is ready
    unfold Sched.step at he
    split at he
    · cases he
    simp only [createFiber] at he
    split at he
    · cases he
    obtain ⟨hflag, rfl⟩ | ⟨-, c, rfl⟩ := enqueueLocked_form he
    · simp at hflag
    · simp at hs'

theorem run_last (h0 : s₀.Initial) (h : Run Step s₀ as s) : Last s := by
  obtain ⟨l, -, hlast⟩ := h.state_invariant (I := fun s => ∃ l, Inv s l ∧ Last s)
    ⟨[], .initial h0, fun f hf => by simp [h0.fiberMap] at hf⟩ fun s a s' ⟨l, hi, hl⟩ ⟨fuel, he⟩ => by
      obtain ⟨l', hi', -⟩ := hi.step he
      exact ⟨l', hi', hl.step hi he⟩
  exact hlast

end Ps2Recomp.Sched
