import Ps2Recomp.Proof.ThreadCalls

/-!
# A fiber in a wait

From the publication of a fiber to the code after its `block_current` the fiber waits. `Waits` says
where it can be then, and `Woken` that its wait is ending: it is back in its code, or its wakeup is
kept. Both hold on through all sections that are not the fiber's own.
-/

namespace Ps2Recomp.Sched

open State
open Threads.State (byFiber)

variable {s s' : State} {f : Tid} {l : List Tid} {fuel : ℕ} {b : Act}

/-- `f` runs and is at its code. -/
def Back (s : State) (f : Tid) : Prop := s.runningFiber = some f ∧ s.pc f = .code

/-- `f` is on its way into a park, parked, or back from it. -/
def Waits (s : State) (f : Tid) : Prop := (s.pc f).published = true ∨ Back s f

/-- The wait of `f` is ending. -/
def Woken (s : State) (f : Tid) : Prop := Back s f ∨ Kept s f

theorem Back.untouched (h : Back s f) (hu : Untouched s f s') : Back s' f :=
  ⟨hu.running.2 h.1, hu.pc.trans h.2⟩

theorem Waits.untouched (h : Waits s f) (hu : Untouched s f s') : Waits s' f := by
  obtain hp | hback := h
  · exact .inl (hu.pc ▸ hp)
  · exact .inr (hback.untouched hu)

theorem Woken.untouched (h : Woken s f) (hu : Untouched s f s') : Woken s' f := by
  obtain hback | hk := h
  · exact .inl (hback.untouched hu)
  · exact .inr (hk.untouched hu)

theorem publish_step (he : step fuel s (.publish f) = some s') : s.At f .code ∧ s' = s.setPc f .waiting := by
  unfold step at he
  split at he
  · cases he
  · simp only [publish] at he
    split at he
    · next hat =>
      cases he
      exact ⟨hat, rfl⟩
    · cases he

/-- A wakeup moves no fiber. -/
theorem woken_place {t : Tid} (ha : b.woken = some t) (he : step fuel s b = some s') :
    s'.pc = s.pc ∧ s'.runningFiber = s.runningFiber := by
  obtain ⟨_, _, hw⟩ := woken_rewrites ha he
  exact ⟨hw.pc, hw.runningFiber⟩

section

variable (hi : Inv s l)

include hi

theorem Back.step (h : Back s f) (hb : byFiber b ≠ some f)
    (hstop : ∀ order, b ≠ .schedulerShutdown order) (he : step fuel s b = some s') : Back s' f := by
  have hx := (hi.resuming f).2 h.1
  by_cases ht : Touches s f b
  · cases hw : b.woken with
    | some t =>
      obtain ⟨hpc, hr⟩ := woken_place hw he
      exact ⟨hr.trans h.1, by rw [hpc, h.2]⟩
    | none =>
      unfold Sched.step at he
      split at he
      · cases he
      · cases b <;> cases hw
        case isFalse.executorWait.refl =>
          obtain ⟨hw, -⟩ := executorWait_cases he
          simp [hx] at hw
        case isFalse.executorPost.refl =>
          obtain ⟨t, htx, hpc, -⟩ := executorPost_cases he
          obtain rfl : f = t := by simpa [hx] using htx
          simp [h.2, FiberPc.executing] at hpc
        case isFalse.createFiber.refl t p =>
          cases ht
          simp [createFiber, hi.live f h.1] at he
        case isFalse.suspendOther.refl t =>
          cases ht
          obtain ⟨-, hpc, hr, -⟩ := suspendOther_effect (hi.live f h.1) he
          exact ⟨hr.trans h.1, by rw [hpc, h.2]⟩
        case isFalse.schedulerShutdown.refl order => exact absurd rfl (hstop order)
        all_goals simp_all [Touches, Act.own, Act.woken, byFiber]
  · exact h.untouched (step_untouched hi ht he)

section

variable (hpl : Placed s f)

include hpl

/-- A wait goes on, or its fiber is back. -/
theorem published_step (hp : (s.pc f).published = true)
    (hstop : ∀ order, b ≠ .schedulerShutdown order) (he : step fuel s b = some s') : Waits s' f := by
  by_cases ht : Touches s f b
  · cases ho : b.own with
    | some t =>
      obtain rfl := touches_own ht ho
      have hown := own_step ho he
      have hr : s'.runningFiber = some t := hown.runningFiber.trans ((hi.resuming t).1 hown.resuming)
      have hcase := own_published ho he hp
      unfold Sched.step at he
      split at he
      · cases he
      · obtain rfl | rfl := hcase
        · obtain ⟨b, hat, rfl⟩ := armPark_cases he
          cases b with
          | true => exact .inl (by simp [FiberPc.published])
          | false => simp [hat.2, FiberPc.published] at hp
        · obtain ⟨-, b, hpc, ⟨rfl, -⟩ | ⟨rfl, -⟩⟩ := blockCurrent_cases he
          · exact .inr ⟨hr, by simp⟩
          · obtain hpc | ⟨hpc, -⟩ := hpc
            · refine .inl ?_
              simpa [hpc, FiberPc.published] using hp
            · simp [hpc, FiberPc.published] at hp
    | none =>
      have hlive := hpl.live hp
      have hsame : s'.pc = s.pc → Waits s' f := fun h => .inl (by rw [h, hp])
      cases hw : b.woken with
      | some t => exact hsame (woken_place hw he).1
      | none =>
        unfold Sched.step at he
        split at he
        · cases he
        · cases b <;> cases ho <;> cases hw
          case isFalse.executorWait.refl.refl =>
            obtain ⟨hw, rfl | ⟨d, g, rfl | ⟨hr, -, t, s1, hpop, rfl⟩⟩⟩ := executorWait_cases he
            · exact .inl hp
            · exact .inl hp
            · obtain ⟨hqt, c, rfl⟩ := popHeadLocked_form hpop
              obtain rfl : f = t := Option.some.inj (ht.symm.trans hqt)
              refine .inr ⟨rfl, ?_⟩
              -- a published fiber that does not run is parked
              have hparked : s.pc f = .parked true := by
                have hrun := hpl.running
                cases hpc : s.pc f <;> simp_all [FiberPc.published, FiberPc.executing]
              simp [resume, hparked, FiberPc.resumed]
          case isFalse.executorPost.refl.refl =>
            refine hsame ?_
            obtain ⟨t, -, -, ⟨-, he'⟩ | ⟨-, -, -, he'⟩ | ⟨-, rfl⟩ | ⟨-, rfl⟩⟩ := executorPost_cases he
            · obtain ⟨-, rfl⟩ | ⟨-, c, rfl⟩ := enqueueLocked_form he'
              · rfl
              · rfl
            · obtain ⟨-, rfl⟩ | ⟨-, c, rfl⟩ := enqueueLocked_form he'
              · rfl
              · rfl
            · rfl
            · rfl
          case isFalse.maybeYield.refl.refl =>
            cases ht
            simp only [maybeYield, yieldTo] at he
            split at he
            · next hat => simp [hat.2, FiberPc.published] at hp
            · cases he
          case isFalse.forceReschedule.refl.refl =>
            cases ht
            simp only [forceReschedule, yieldTo] at he
            split at he
            · next hat => simp [hat.2, FiberPc.published] at hp
            · cases he
          case isFalse.createFiber.refl.refl =>
            cases ht
            simp [createFiber, hlive] at he
          case isFalse.suspendOther.refl.refl =>
            cases ht
            exact hsame (suspendOther_effect hlive he).2.1
          case isFalse.schedulerShutdown.refl.refl order => exact absurd rfl (hstop order)
          all_goals simp_all [Touches, Act.own, Act.woken]
  · exact .inl (by rw [(step_untouched hi ht he).pc, hp])

/-- **One step** of a wait: of the fiber's own sections only those of the wait come, before it is
back. -/
theorem Waits.step (h : Waits s f) (hb : Back s f → byFiber b ≠ some f) (hstop : ∀ order, b ≠ .schedulerShutdown order)
    (he : step fuel s b = some s') : Waits s' f := by
  obtain hp | hback := h
  · exact published_step hi hpl hp hstop he
  · exact .inr (hback.step hi (hb hback) hstop he)

theorem Woken.step (hw : Waits s f) (h : Woken s f) (hb : Back s f → byFiber b ≠ some f)
    (hstop : ∀ order, b ≠ .schedulerShutdown order) (he : step fuel s b = some s') : Woken s' f := by
  obtain hback | hk := h
  · exact .inl (hback.step hi (hb hback) hstop he)
  · obtain hp | hback := hw
    · obtain hp' | hback := published_step hi hpl hp hstop he
      · exact .inr (hk.step hi hpl hp hp' he)
      · exact .inl hback
    · exact .inl (hback.step hi (hb hback) hstop he)

end

/-- **A wait that is ending ends**: where no fiber runs and none is queued, its fiber is
suspended. -/
theorem Woken.suspended (hf : f ∈ s.fiberMap) (h : Woken s f)
    (hr : s.runningFiber = none) (hq : s.runQueue = none) : 0 < (s.fibers f).suspendCount := by
  obtain ⟨hrun, -⟩ | hk := h
  · simp [hr] at hrun
  · by_contra hz
    obtain hin | ⟨hrun, -⟩ := hk (by omega)
    · have hl := (hi.queue.linked f hf).1 hin
      have hspells := hi.queue.spells
      rw [hq] at hspells
      cases l with
      | nil => cases hl
      | cons x l => cases hspells.1
    · simp [hr] at hrun

end

end Ps2Recomp.Sched
