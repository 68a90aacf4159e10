import Ps2Recomp.Proof.RunQueue

/-!
# Which steps touch a fiber

For a fiber `f`, most sections are about other fibers. `Touches s f a` lists the sections that
are about `f`, and `step_untouched` says that all others leave `f` as it is, except for its
links and its priority.
-/

namespace Ps2Recomp.Sched

open Intrusive
open State

variable {s s' s'' : State} {t f : Tid} {l : List Tid} {fuel : ℕ} {a : Act}

/-- **The fiber `f` is left as it is.** -/
structure Untouched (s : State) (f : Tid) (s' : State) : Prop where
  live : f ∈ s.fiberMap → f ∈ s'.fiberMap
  pc : s'.pc f = s.pc f
  running : s'.runningFiber = some f ↔ s.runningFiber = some f
  generation : (s'.fibers f).generation = (s.fibers f).generation
  state : (s'.fibers f).state = (s.fibers f).state
  inRunQueue : (s'.fibers f).inRunQueue = (s.fibers f).inRunQueue
  wakePending : (s'.fibers f).wakePending = (s.fibers f).wakePending
  suspendCount : (s'.fibers f).suspendCount = (s.fibers f).suspendCount
  terminateRequested : (s'.fibers f).terminateRequested = (s.fibers f).terminateRequested

namespace Untouched

theorem refl (s : State) (f : Tid) : Untouched s f s :=
  ⟨id, rfl, Iff.rfl, rfl, rfl, rfl, rfl, rfl, rfl⟩

theorem trans (h : Untouched s f s') (h' : Untouched s' f s'') : Untouched s f s'' where
  live hf := h'.live (h.live hf)
  pc := h'.pc.trans h.pc
  running := h'.running.trans h.running
  generation := h'.generation.trans h.generation
  state := h'.state.trans h.state
  inRunQueue := h'.inRunQueue.trans h.inRunQueue
  wakePending := h'.wakePending.trans h.wakePending
  suspendCount := h'.suspendCount.trans h.suspendCount
  terminateRequested := h'.terminateRequested.trans h.terminateRequested

theorem of_eq (hf : s'.fibers f = s.fibers f) (hl : f ∈ s.fiberMap → f ∈ s'.fiberMap) (hp : s'.pc f = s.pc f)
    (hr : s'.runningFiber = some f ↔ s.runningFiber = some f) : Untouched s f s' := by
  refine ⟨hl, hp, hr, ?_, ?_, ?_, ?_, ?_, ?_⟩
  all_goals rw [hf]

theorem setChain (s : State) (f : Tid) (c : Chain Tid) : Untouched s f (s.setChain c) :=
  ⟨id, rfl, Iff.rfl, rfl, rfl, rfl, rfl, rfl, rfl⟩

section

variable (hf : f ≠ t)

include hf

theorem modify {g : FiberContext → FiberContext} : Untouched s f (s.modify t g) :=
  of_eq (by rw [modify_fibers, if_neg hf]) id rfl Iff.rfl

theorem setPc {pc : FiberPc} : Untouched s f (s.setPc t pc) :=
  of_eq rfl id (by rw [setPc_pc, if_neg hf]) Iff.rfl

theorem rewrites {fc : FiberContext} (h : Rewrites s t fc s') : Untouched s f s' := by
  refine ⟨fun h' => h.fiberMap ▸ h', by rw [h.pc], by rw [h.runningFiber], ?_, ?_, ?_, ?_, ?_, ?_⟩
  all_goals rw [h.others f hf]

theorem resume (hr : s.runningFiber ≠ some f) : Untouched s f (s.resume t) := by
  refine of_eq ?_ id ?_ ?_
  · simp only [State.resume, setPc_fibers, modify_fibers, if_neg hf]
  · simp only [State.resume, setPc_pc, if_neg hf, modify_pc]
  · simp [State.resume, hr, hf.symm]

theorem own (h : Own s t s') : Untouched s f s' :=
  of_eq (h.others f hf) (fun h' => h.fiberMap ▸ h') (h.otherPcs f hf) (by rw [h.runningFiber])

theorem yieldTo {gives : ℤ → ℤ → Bool} (he : s.yieldTo gives fuel t = some s') : Untouched s f s' := by
  obtain ⟨-, rfl | ⟨s1, he1, rfl⟩⟩ := yieldTo_form he
  · exact refl _ f
  · exact (rewrites hf (enqueueLocked_rewrites he1)).trans (setPc hf)

theorem createFiber {p : ℤ} (he : s.createFiber fuel t p = some s') : Untouched s f s' := by
  rw [State.createFiber] at he
  split at he
  · cases he
  · refine trans ?_ (rewrites hf (enqueueLocked_rewrites he))
    refine of_eq ?_ (List.mem_cons_of_mem t) ?_ Iff.rfl
    · exact Function.update_of_ne hf _ _
    · exact Function.update_of_ne hf _ _

end

theorem updatePriority {p : ℤ} (h : Inv s l) (he : s.updatePriority fuel t p = some s') : Untouched s f s' := by
  by_cases hf : f = t
  · subst hf
    rw [State.updatePriority] at he
    split at he
    · cases he
      exact refl _ f
    · next hlive =>
      rw [not_not] at hlive
      split at he
      · cases he
        refine ⟨id, rfl, Iff.rfl, ?_, ?_, ?_, ?_, ?_, ?_⟩
        all_goals simp
      · split at he
        · cases he
          exact refl _ f
        · split at he
          · next hq =>
            obtain ⟨s1, he1, he2⟩ := Option.bind_eq_some_iff.1 he
            have hl := (h.queue.linked f hlive).1 hq
            have hready := (h.ready f hlive).2 hl
            obtain ⟨⟨c, rfl⟩, -⟩ := h.queue.remove hl he1
            obtain ⟨hq', -⟩ | ⟨-, c', rfl⟩ := enqueueLocked_form he2
            · simp at hq'
            · refine ⟨id, rfl, Iff.rfl, ?_, ?_, ?_, ?_, ?_, ?_⟩
              all_goals simp [hq, hready]
          · cases he
            refine ⟨id, rfl, Iff.rfl, ?_, ?_, ?_, ?_, ?_, ?_⟩
            all_goals simp
  · obtain ⟨_, _, hw⟩ := updatePriority_rewrites he
    exact rewrites hf hw

end Untouched

/-- The section `a` is about the fiber `f`. -/
def Touches (s : State) (f : Tid) : Act → Prop
  | .executorWait => s.runQueue = some f
  | .executorPost => s.executor = .resuming f
  | .maybeYield t | .forceReschedule t | .suspendOther t | .createFiber t _ => t = f
  | .schedulerShutdown _ => True
  | a => a.own = some f ∨ a.woken = some f

theorem quiet_untouched (ha : a.quiet = true) (he : step fuel s a = some s') : Untouched s f s' := by
  obtain ⟨hf, hm, -, hr, hpc, -, -⟩ := quiet_step ha he
  exact .of_eq (by rw [hf]) (fun h => hm ▸ h) (by rw [hpc]) (by rw [hr])

theorem woken_untouched (hf : f ≠ t) (ha : a.woken = some t) (he : step fuel s a = some s') : Untouched s f s' := by
  obtain ⟨_, _, hw⟩ := woken_rewrites ha he
  exact .rewrites hf hw

theorem executorWait_untouched (hf : s.runQueue ≠ some f) (he : s.executorWait = some s') : Untouched s f s' := by
  obtain ⟨hw, rfl | ⟨d, g, rfl | ⟨hr, -, t, s1, hp, rfl⟩⟩⟩ := executorWait_cases he
  · exact .of_eq rfl id rfl Iff.rfl
  · exact .of_eq rfl id rfl Iff.rfl
  · have hft : f ≠ t := fun h => hf (h ▸ (popHeadLocked_form hp).1)
    have h1 : Untouched s f { s with deferringToWaiters := d, grantsAtDefer := g } :=
      .of_eq rfl id rfl Iff.rfl
    have h2 := h1.trans (.rewrites hft (popHeadLocked_rewrites hp))
    have hr2 : ¬s1.runningFiber = some f := by
      rw [h2.running, hr]
      simp
    exact h2.trans (.resume hft hr2)

theorem executorPost_untouched (h : Inv s l) (hf : s.executor ≠ .resuming f)
    (he : s.executorPost fuel = some s') : Untouched s f s' := by
  obtain ⟨t, ht, hc⟩ := executorPost_rewrites he
  have hft : f ≠ t := fun h => hf (h ▸ ht)
  have hr : s.runningFiber ≠ some f := fun hr => hf ((h.resuming f).2 hr)
  obtain hw | rfl := hc
  · have hmain : Untouched s f { s with runningFiber := none, executor := .waiting } :=
      .of_eq rfl id rfl (by simp [hr])
    exact hmain.trans (.rewrites hft hw)
  · exact .of_eq rfl (fun h' => List.mem_filter.2 ⟨h', by simpa using hft⟩) rfl (by simp [hr])

/-- **Sections about other fibers leave `f` as it is.** -/
theorem step_untouched (h : Inv s l) (ht : ¬Touches s f a) (he : step fuel s a = some s') : Untouched s f s' := by
  cases ho : a.own with
  | some t =>
    refine .own (fun hft => ht ?_) (own_step ho he)
    cases a <;> simp_all [Act.own, Touches]
  | none =>
    cases hw : a.woken with
    | some t =>
      refine woken_untouched (fun hft => ht ?_) hw he
      cases a <;> simp_all [Act.woken, Touches]
    | none =>
      cases hq : a.quiet with
      | true => exact quiet_untouched hq he
      | false =>
        unfold step at he
        split at he
        · cases he
        · cases a <;> cases ho <;> cases hw <;> cases hq
          · exact executorWait_untouched ht he
          · exact executorPost_untouched h ht he
          · exact .yieldTo (fun h' => ht h'.symm) he
          · exact .yieldTo (fun h' => ht h'.symm) he
          · exact .createFiber (fun h' => ht h'.symm) he
          · exact .updatePriority h he
          · obtain ⟨_, hw⟩ := suspendOther_rewrites he
            exact .rewrites (fun h' => ht h'.symm) hw
          · obtain rfl | ⟨c, rfl⟩ := rotateReadyQueue_form he
            · exact .refl _ f
            · exact .setChain s f c
          · exact absurd trivial ht

theorem touches_own (h : Touches s f a) (ha : a.own = some t) : t = f := by
  cases a <;> simp_all [Act.own, Act.woken, Touches]

theorem touches_woken (h : Touches s f a) (ha : a.woken = some t) : t = f := by
  cases a <;> simp_all [Act.own, Act.woken, Touches]

/-- **`suspend_other`** raises the suspend count of its fiber, and blocks the fiber if it was
ready. -/
theorem suspendOther_effect (hf : f ∈ s.fiberMap) (he : s.suspendOther fuel f = some s') :
    s'.fiberMap = s.fiberMap ∧ s'.pc = s.pc ∧ s'.runningFiber = s.runningFiber ∧
      (s'.fibers f).suspendCount = (s.fibers f).suspendCount + 1 ∧
      (s'.fibers f).wakePending = (s.fibers f).wakePending ∧
      ((s'.fibers f).inRunQueue = true → (s.fibers f).inRunQueue = true) ∧
      ((s'.fibers f).state = (s.fibers f).state ∨ (s'.fibers f).state = .blocked) := by
  rw [suspendOther, if_pos hf] at he
  simp only at he
  split at he
  · obtain ⟨s1, he1, hs'⟩ := Option.bind_eq_some_iff.1 he
    cases hs'
    obtain rfl | ⟨c, rfl⟩ := removeLocked_form he1
    · simp
    · simp
  · cases he
    simp

theorem shutdown_preserves {Q : State → Prop} (hu : ∀ s s', Untouched s f s' → Q s → Q s')
    (hf : ∀ s s', s.shutdownFiber fuel f = some s' → Q s → Q s') {order : List Tid}
    (he : s.schedulerShutdown fuel order = some s') (h : Q s) : Q s' := by
  have hstop : Q { s with stop := true } := hu s _ (.of_eq rfl id rfl Iff.rfl) h
  rw [schedulerShutdown] at he
  generalize ({ s with stop := true } : State) = s1 at he hstop
  induction order generalizing s1 with
  | nil =>
    cases he
    exact hstop
  | cons t order ih =>
    rw [List.foldlM_cons] at he
    obtain ⟨s2, he1, he2⟩ := Option.bind_eq_some_iff.1 he
    refine ih s2 he2 ?_
    by_cases ht : f = t
    · subst ht
      exact hf _ _ he1 hstop
    · obtain ⟨_, _, hw⟩ := shutdownFiber_rewrites he1
      exact hu _ _ (.rewrites ht hw) hstop

end Ps2Recomp.Sched
