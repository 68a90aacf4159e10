import Ps2Recomp.Proof.Suspend

/-!
# Suspending oneself

`suspend_self` parks once, where `waitWhileSuspended` looks at the guest's count again and parks
in a loop. Any wakeup that `suspend_self` finds in the note, or that comes before the scheduler's
count is raised, ends it. A fiber for which there is none stays parked until the guest's count
is 0 (`self_suspended_stays`): the scheduler's count drops all other wakeups.
-/

namespace Ps2Recomp.Threads

open Transition
open Sched (Tid FiberPc Inv Placed Untouched Touches)

variable {s s' s₀ : State} {f t : Tid} {c : Caller} {fuel : ℕ} {a : Act} {as : List Act}

/-- The wakeup `b` of `f` is not dropped. -/
def Wakes (s : Sched.State) (f : Tid) : Sched.Act → Prop
  | .makeReady t => t = f ∧ (s.fibers f).suspendCount = 0
  | .enqueueExternalWakeupValidated t token =>
    t = f ∧ token ≠ 0 ∧ s.makeFiberToken f = token ∧ (s.fibers f).suspendCount = 0
  | _ => False

/-- **No wakeup gets in the way of `f` suspending itself.** There is no note when it starts; none
comes before the scheduler's count is raised; and no `clear_suspend` of an earlier
`ResumeThread` comes while the guest's count is not 0. -/
def Calm (f : Tid) (s : State) : Act → Prop
  | .suspendThread c t => c = .fiber f → t = f → (s.sched.fibers f).wakePending = false
  | .scheduler b => s.call (.fiber f) = .suspending f → ¬Wakes s.sched f b
  | .makeReady c =>
    s.call c = .waking f → s.call (.fiber f) = .suspending f → s.fiberCount f ≠ 0
  | .resumeClear c =>
    s.call c = .clearing f → s.call (.fiber f) = .suspending f ∨ s.call (.fiber f) = .parking → s.guestCount f = 0
  | _ => True

/-! ### In a park -/

/-- No wakeup of `f` is noted, and `f` is not in the queue. -/
structure Resting (f : Tid) (σ : Sched.State) : Prop where
  live : f ∈ σ.fiberMap
  note : (σ.fibers f).wakePending = false
  idle : (σ.fibers f).inRunQueue = false

/-- The places on the way into a park: of a published fiber, or of `suspend_self`. -/
def InPark (published : Bool) (pc : FiberPc) : Prop :=
  pc = (if published then .waiting else .suspending) ∨ pc = .armed published ∨ pc = .parked published

/-- **`f` is on its way into the park, or parked**, with no wakeup on its way to it. -/
structure Parking (published : Bool) (f : Tid) (σ : Sched.State) : Prop extends Resting f σ where
  place : InPark published (σ.pc f)

section
variable {σ σ' : Sched.State} {b : Sched.Act} {p : Bool}

theorem Resting.untouched (h : Resting f σ) (hu : Untouched σ f σ') : Resting f σ' where
  live := hu.live h.live
  note := hu.wakePending.trans h.note
  idle := hu.inRunQueue.trans h.idle

theorem Resting.suspendOther (h : Resting f σ) (he : σ.suspendOther fuel f = some σ') : Resting f σ' := by
  obtain ⟨hm, -, -, -, hw, hq, -⟩ := Sched.suspendOther_effect h.live he
  refine ⟨?_, hw.trans h.note, ?_⟩
  · rw [hm]
    exact h.live
  · by_contra hn
    have := hq (by simpa using hn)
    simp [h.idle] at this

/-- **A wakeup that is dropped**, and a section that is not about `f`, leave `f` as it is. -/
theorem Resting.step_untouched (hsound : Sound σ) (h : Resting f σ) (hown : State.byFiber b ≠ some f)
    (hpost : b = .executorPost → σ.executor ≠ .resuming f) (hstop : ∀ order, b ≠ .schedulerShutdown order)
    (hother : b ≠ .suspendOther f) (hclear : b ≠ .clearSuspend f) (hterm : b ≠ .requestTerminate f)
    (hdrop : ¬Wakes σ f b) (he : Sched.step fuel σ b = some σ') : Untouched σ f σ' := by
  obtain ⟨l, hi⟩ := hsound.inv
  by_cases ht : Touches σ f b
  · unfold Sched.step at he
    split at he
    · cases he
    · cases b
      case isFalse.executorWait => exact absurd ht (hsound.not_head h.live h.idle)
      case isFalse.createFiber t p =>
        cases ht
        simp [Sched.State.createFiber, h.live] at he
      case isFalse.schedulerShutdown order => exact absurd rfl (hstop order)
      case isFalse.makeReady t =>
        obtain rfl : t = f := by simpa [Touches, Sched.Act.own, Sched.Act.woken] using ht
        have hz : ¬(σ.fibers t).suspendCount = 0 := fun hz => hdrop ⟨rfl, hz⟩
        simp only [Sched.State.makeReady, hz, and_false, if_false] at he
        cases he
        exact .refl _ t
      case isFalse.enqueueExternalWakeupValidated t token =>
        obtain rfl : t = f := by simpa [Touches, Sched.Act.own, Sched.Act.woken] using ht
        have hz : ¬(t ∈ σ.fiberMap ∧ token ≠ 0 ∧ σ.makeFiberToken t = token ∧
            (σ.fibers t).suspendCount = 0) := fun hz => hdrop ⟨rfl, hz.2⟩
        simp only [Sched.State.enqueueExternalWakeupValidated, if_neg hz] at he
        cases he
        exact .refl _ t
      all_goals simp_all [Touches, Sched.Act.own, Sched.Act.woken, State.byFiber]
  · exact Sched.step_untouched hi ht he

namespace Parking

theorem untouched (h : Parking p f σ) (hu : Untouched σ f σ') : Parking p f σ' where
  toResting := h.toResting.untouched hu
  place := by
    rw [hu.pc]
    exact h.place

theorem not_code (h : Parking p f σ) : σ.pc f ≠ .code := by
  intro hpc
  obtain hp | hp | hp := h.place
  · cases p <;> simp [hp] at hpc
  · simp [hp] at hpc
  · simp [hp] at hpc

/-- **The executor takes back a fiber that has parked** and does not queue it. -/
theorem executorPost (hsound : Sound σ) (h : Parking p f σ) (hx : σ.executor = .resuming f)
    (he : σ.executorPost fuel = some σ') : Parking p f σ' := by
  obtain ⟨l, hi⟩ := hsound.inv
  obtain ⟨t, ht, hpc, hc⟩ := Sched.executorPost_cases he
  rw [hx, Sched.ExecutorPc.resuming.injEq] at ht
  subst ht
  have hparked : σ.pc f = .parked p := by
    obtain hp | hp | hp := h.place
    · cases p <;> simp [hp, FiberPc.executing] at hpc
    · simp [hp, FiberPc.executing] at hpc
    · exact hp
  have hblocked := (hsound.placed f).blocked ((hi.resuming f).1 hx) p (.inr hparked)
  obtain ⟨hs | hs, -⟩ | ⟨-, hn, -⟩ | ⟨hs, -⟩ | ⟨-, rfl⟩ := hc
  · simp [hblocked] at hs
  · simp [hblocked] at hs
  · simp [h.note] at hn
  · simp [hblocked] at hs
  · exact ⟨⟨h.live, h.note, h.idle⟩, .inr (.inr hparked)⟩

theorem armPark (h : Parking p f σ) (he : σ.armPark f = some σ') : Parking p f σ' := by
  obtain ⟨b, hat, rfl⟩ := Sched.armPark_cases he
  obtain rfl : b = p := by
    have hpc := hat.2
    obtain hp | hp | hp := h.place
    · cases b <;> cases p <;> simp [hp] at hpc ⊢
    · cases b <;> simp [hp] at hpc
    · cases b <;> simp [hp] at hpc
  refine ⟨⟨?_, ?_, ?_⟩, .inr (.inl ?_)⟩
  · simpa using h.live
  · simpa using h.note
  · simpa using h.idle
  · simp

/-- Without a note `block_current` parks. -/
theorem blockCurrent (hsound : Sound σ) (h : Parking p f σ) (he : σ.blockCurrent f = some σ') : Parking p f σ' := by
  obtain ⟨-, b, hpc, hend⟩ := Sched.blockCurrent_cases he
  obtain rfl : b = p := by
    obtain hp | hp | hp := h.place
    · cases p <;> simp [hp] at hpc
    · simpa [hp, eq_comm] using hpc
    · simp [hp] at hpc
  obtain ⟨-, ⟨hs, -⟩ | hn⟩ | ⟨rfl, -⟩ := hend
  · simp [hsound.stop] at hs
  · simp [h.note] at hn
  · refine ⟨⟨?_, ?_, ?_⟩, .inr (.inr ?_)⟩
    · simpa using h.live
    · simp
    · simpa using h.idle
    · simp

/-- **One section of the scheduler**, if it is no wakeup of `f`. -/
theorem step (hsound : Sound σ) (h : Parking p f σ)
    (hown : State.byFiber b = some f → b = .armPark f ∨ b = .blockCurrent f)
    (hstop : ∀ order, b ≠ .schedulerShutdown order) (hclear : b ≠ .clearSuspend f) (hterm : b ≠ .requestTerminate f)
    (hdrop : ¬Wakes σ f b) (he : Sched.step fuel σ b = some σ') : Parking p f σ' := by
  have hrun := he
  unfold Sched.step at hrun
  split at hrun
  · cases hrun
  by_cases hf : State.byFiber b = some f
  · obtain rfl | rfl := hown hf
    · exact h.armPark hrun
    · exact h.blockCurrent hsound hrun
  by_cases hother : b = .suspendOther f
  · subst hother
    refine ⟨h.toResting.suspendOther hrun, ?_⟩
    rw [(Sched.suspendOther_effect h.live hrun).2.1]
    exact h.place
  by_cases hpost : b = .executorPost ∧ σ.executor = .resuming f
  · obtain ⟨rfl, hx⟩ := hpost
    exact h.executorPost hsound hx hrun
  · exact h.untouched (h.toResting.step_untouched hsound hf (fun hb hx => hpost ⟨hb, hx⟩) hstop hother hclear hterm hdrop he)

end Parking

end

/-! ### In the call -/

/-- `f` is in its `SuspendThread`, and no wakeup is on its way to it. -/
structure Held (f : Tid) (s : State) : Prop extends Resting f s.sched where
  place : s.call (.fiber f) = .suspending f ∧ s.sched.runningFiber = some f ∧ s.sched.pc f = .code ∨
    s.call (.fiber f) = .parking ∧ 0 < s.fiberCount f ∧ InPark false (s.sched.pc f)

namespace Held

section

variable (h : Held f s)

include h

theorem call : s.call (.fiber f) = .suspending f ∨ s.call (.fiber f) = .parking :=
  h.place.imp (fun h => h.1) fun h => h.1

theorem not_other : (s.call (.fiber f)).other = false := by
  obtain hc | hc := h.call
  · rw [hc]
    rfl
  · rw [hc]
    rfl

theorem not_idle : s.call (.fiber f) ≠ .idle := by
  intro hc
  have := h.not_other
  rw [hc] at this
  cases this

theorem untouched (hu : Untouched s.sched f s'.sched) (hc : s'.call (.fiber f) = s.call (.fiber f)) : Held f s' where
  toResting := h.toResting.untouched hu
  place := by
    rw [hc, hu.running, hu.pc, State.fiberCount, hu.suspendCount]
    exact h.place

theorem congr (hs : s'.sched = s.sched) (hc : s'.call (.fiber f) = s.call (.fiber f)) : Held f s' := by
  refine h.untouched ?_ hc
  rw [hs]
  exact .refl _ f

theorem parking (hcall : s.call (.fiber f) = .parking) : 0 < s.fiberCount f ∧ Parking false f s.sched := by
  obtain ⟨hc, -⟩ | ⟨-, hpos, hplace⟩ := h.place
  · simp [hcall] at hc
  · exact ⟨hpos, h.toResting, hplace⟩

theorem not_returned (hcall : s.call (.fiber f) = .parking) : ¬s.sched.At f .code :=
  fun hat => (h.parking hcall).2.not_code hat.2

theorem not_wakes {b : Sched.Act}
    (hcalm : s.call (.fiber f) = .suspending f → ¬Wakes s.sched f b) : ¬Wakes s.sched f b := by
  obtain ⟨hc, -⟩ | ⟨-, hpos, -⟩ := h.place
  · exact hcalm hc
  · rw [State.fiberCount] at hpos
    cases b with
    | makeReady t =>
      rintro ⟨-, hz⟩
      omega
    | enqueueExternalWakeupValidated t token =>
      rintro ⟨-, -, -, hz⟩
      omega
    | _ => exact id

end

section

variable (hsound : Sound s.sched)

include hsound

section

variable (h : Held f s)

include h

section

variable (hterm : (s.info f).terminated = false)

include hterm

/-- **One section of the scheduler outside the calls.** -/
theorem scheduler {b : Sched.Act} {sched : Sched.State} (hb : s.allows b = true)
    (hcalm : s.call (.fiber f) = .suspending f → ¬Wakes s.sched f b)
    (he : Sched.step fuel s.sched b = some sched) : Held f { s with sched } := by
  obtain ⟨l, hi⟩ := hsound.inv
  have hdrop := h.not_wakes hcalm
  have hstop : ∀ order, b ≠ .schedulerShutdown order := by
    rintro order rfl
    simp [State.allows] at hb
  have hother : b ≠ .suspendOther f := by
    rintro rfl
    simp [State.allows] at hb
  have hclear : b ≠ .clearSuspend f := by
    rintro rfl
    simp [State.allows] at hb
  have hreq : b ≠ .requestTerminate f := by
    rintro rfl
    simp [State.allows, hterm] at hb
  have hown : State.byFiber b = some f → s.call (.fiber f) = .parking ∧ (b = .armPark f ∨ b = .blockCurrent f) := by
    intro hf
    obtain hc | hc := h.call
    · cases b <;> simp_all [State.byFiber, State.allows]
    · cases b <;> simp_all [State.byFiber, State.allows]
  obtain ⟨hcall, hr, hcode⟩ | ⟨hcall, hpos, hplace⟩ := h.place
  · refine h.untouched (h.toResting.step_untouched hsound (fun hf => ?_) ?_ hstop hother hclear hreq hdrop he) rfl
    · simp [hcall] at hown
      exact hown hf
    · rintro rfl hx
      unfold Sched.step at he
      split at he
      · cases he
      · obtain ⟨t, ht, hpc, -⟩ := Sched.executorPost_cases he
        obtain rfl : f = t := by simpa [hx] using ht
        simp [hcode, FiberPc.executing] at hpc
  · have hpark := (h.parking hcall).2.step hsound (fun hf => (hown hf).2) hstop hclear hreq hdrop he
    refine ⟨hpark.toResting, .inr ⟨hcall, ?_, hpark.place⟩⟩
    have hcount : (sched.fibers f).suspendCount = (s.sched.fibers f).suspendCount := by
      refine Sched.step_suspendCount hi h.live ?_ he
      cases b <;> simp_all [Sched.Act.writesCount, State.allows, State.byFiber]
    rw [State.fiberCount, hcount]
    exact hpos

/-- The second section of a `SuspendThread`: of `f` itself, which enters `suspend_self`, of `f`
by another caller, or of another thread. -/
theorem suspendFiber (he : s.suspendFiber fuel c = some s') : Held f s' := by
  obtain ⟨l, hi⟩ := hsound.inv
  obtain ⟨t, hcall, hc⟩ := suspendFiber_cases he
  by_cases hcf : c = .fiber f
  · subst hcf
    obtain ⟨hc', hrun, hcode⟩ | ⟨hc', -⟩ := h.place
    · obtain rfl : f = t := by simpa [hcall, eq_comm] using hc'
      obtain ⟨-, ht, -⟩ | ⟨-, -, sched, hs, rfl⟩ | ⟨hne, -⟩ := hc
      · simp [hterm] at ht
      · unfold Sched.step at hs
        split at hs
        · cases hs
        · simp only [Sched.State.suspendSelf] at hs
          split at hs
          · cases hs
            refine ⟨⟨h.live, ?_, ?_⟩, .inr ⟨?_, ?_, .inl ?_⟩⟩
            · simpa using h.note
            · simpa using h.idle
            · simp
            · simp [State.fiberCount]
            · simp
          · cases hs
      · exact absurd rfl hne
    · simp [hcall] at hc'
  · have hcall' : ∀ k, (s.setCall c k).call (.fiber f) = s.call (.fiber f) := fun k => by
      simp [Ne.symm hcf]
    by_cases htf : t = f
    · subst htf
      obtain ⟨hc, -⟩ | ⟨hc, -⟩ | ⟨-, sched, hs, rfl⟩ := hc
      · exact absurd hc hcf
      · exact absurd hc hcf
      · unfold Sched.step at hs
        split at hs
        · cases hs
        · obtain ⟨-, hpc, hr, hcount, -⟩ := Sched.suspendOther_effect h.live hs
          refine ⟨h.toResting.suspendOther hs, ?_⟩
          have hidle : ({ s with sched }.setCall c .idle).call (.fiber t) = s.call (.fiber t) :=
            hcall' .idle
          simp only [setCall_sched, hidle, hr, hpc, State.fiberCount, hcount]
          exact h.place.imp id fun hp => ⟨hp.1, Nat.succ_pos _, hp.2.2⟩
    · obtain ⟨-, -, rfl⟩ | ⟨-, -, sched, hs, rfl⟩ | ⟨-, sched, hs, rfl⟩ := hc
      · exact h.congr rfl (hcall' .idle)
      · refine h.untouched (Sched.step_untouched hi ?_ hs) (hcall' .parking)
        simp [Touches, Sched.Act.own, Sched.Act.woken, htf]
      · refine h.untouched (Sched.step_untouched hi ?_ hs) (hcall' .idle)
        simp [Touches, htf]

end

theorem resumeClear (hpos : 0 < s.guestCount f)
    (hcalm : Calm f s (.resumeClear c)) (he : s.resumeClear fuel c = some s') : Held f s' := by
  obtain ⟨l, hi⟩ := hsound.inv
  obtain ⟨t, hcall, sched, hs, rfl⟩ := resumeClear_cases he
  have htf : t ≠ f := by
    rintro rfl
    have := hcalm hcall h.call
    omega
  have hcf : Caller.fiber f ≠ c := by
    rintro rfl
    obtain ⟨hc, -⟩ | ⟨hc, -⟩ := h.place
    · simp [hcall] at hc
    · simp [hcall] at hc
  refine h.untouched (Sched.step_untouched hi ?_ hs) ?_
  · simp [Touches, Sched.Act.own, Sched.Act.woken, htf]
  · simp [hcf]

/-- A step of one of the other calls. The only one on `f` is the wakeup of a `WakeupThread` or a
`ReleaseWaitThread`, and it is dropped. -/
theorem other (ha : a.other = true) (hcalm : Calm f s a) (ho : Other fuel s a s') : Held f s' := by
  obtain ⟨l, hi⟩ := hsound.inv
  have hcaller : a.caller ≠ some (.fiber f) := by
    intro hc
    have := (ho.caller _ hc).1
    rw [h.not_other] at this
    cases this
  have hcall := ho.call _ hcaller
  obtain hs | ⟨b, hb, hs⟩ := ho.sched
  · exact h.congr hs hcall
  · cases hb with
    | publish t =>
      have htf : t ≠ f := fun h => hcaller (by rw [h, Act.caller])
      refine h.untouched (Sched.step_untouched hi ?_ hs) hcall
      simp [Touches, Sched.Act.own, Sched.Act.woken, htf]
    | publishAgain t =>
      have htf : t ≠ f := fun h => hcaller (by rw [h, Act.caller])
      refine h.untouched (Sched.step_untouched hi ?_ hs) hcall
      simp [Touches, Sched.Act.own, Sched.Act.woken, htf]
    | wake c t hwake =>
      have hdrop : ¬Wakes s.sched f (.makeReady t) := h.not_wakes fun hc hw => hcalm (hw.1 ▸ hwake) hc hw.2
      refine h.untouched (h.toResting.step_untouched (b := .makeReady t) hsound ?_ ?_ ?_ ?_ ?_ ?_ hdrop hs) hcall
        <;> simp [State.byFiber]
    | _ => cases ha

/-- **One step.** -/
theorem step (hpos : 0 < s.guestCount f) (hterm : (s.info f).terminated = false) (hcalm : Calm f s a)
    (he : step fuel s a = some s') : Held f s' := by
  cases hoth : a.other with
  | true => exact h.other hsound hoth hcalm (other_step hoth he)
  | false =>
    have hcall : a.caller ≠ some (.fiber f) → s'.call (.fiber f) = s.call (.fiber f) :=
      fun hc => step_call hc he
    cases a with
    | scheduler b =>
      simp only [Threads.step] at he
      split at he
      · next hb =>
        obtain ⟨sched, hs, rfl⟩ := scheduler_cases he
        exact h.scheduler hsound hterm hb hcalm hs
      · cases he
    | suspendFiber c => exact h.suspendFiber hsound hterm he
    | resumeClear c => exact h.resumeClear hsound hpos hcalm he
    | suspendThread c t =>
      have hcf : c ≠ .fiber f := by
        rintro rfl
        exact h.not_idle (suspendThread_cases he).1
      refine h.congr ?_ (hcall (by simpa [Act.caller] using hcf))
      obtain ⟨-, -, rfl | rfl⟩ := suspendThread_cases he
      · rfl
      · rfl
    | suspendReturn t =>
      have htf : t ≠ f := by
        rintro rfl
        obtain ⟨hpark, hat, -⟩ := suspendReturn_cases he
        exact h.not_returned hpark hat
      refine h.congr ?_ (hcall (by simpa [Act.caller] using htf))
      obtain ⟨-, -, rfl | rfl⟩ := suspendReturn_cases he
      · rfl
      · rfl
    | resumeThread c t =>
      have hcf : c ≠ .fiber f := by
        rintro rfl
        exact h.not_idle (resumeThread_cases he).1
      refine h.congr ?_ (hcall (by simpa [Act.caller] using hcf))
      obtain ⟨-, rfl | ⟨-, rfl⟩⟩ := resumeThread_cases he
      · rfl
      · rfl
    | resumeRead c =>
      obtain ⟨t, hres, hc⟩ := resumeRead_cases he
      have hcf : c ≠ .fiber f := by
        rintro rfl
        obtain hc | hc := h.call
        · simp [hres] at hc
        · simp [hres] at hc
      refine h.congr ?_ (hcall (by simpa [Act.caller] using hcf))
      obtain ⟨-, rfl⟩ | ⟨-, rfl⟩ := hc
      · rfl
      · rfl
    | _ => cases hoth

end

end

end Held

/-- Steps while the guest's count of `f` is not 0 and `f` is not terminated. -/
def WhileSuspended (f : Tid) (s : State) (a : Act) (s' : State) : Prop :=
  Step s a s' ∧ Calm f s a ∧ 0 < s.guestCount f ∧ (s.info f).terminated = false

/-- **A thread that suspends itself stays suspended**, after any history of wakeups: if no wakeup
gets in its way, its `SuspendThread` does not return while the guest's count has not been brought
back to 0 and the thread is not terminated. -/
theorem self_suspended_stays {s₁ s₂ : State} {bs : List Act} (h0 : s₀.Initial)
    (h : Run Step s₀ as s) (hstart : Step s (.suspendThread (.fiber f) f) s₁)
    (hcalm : Calm f s (.suspendThread (.fiber f) f))
    (hcall : s₁.call (.fiber f) = .suspending f) (hr : Run (WhileSuspended f) s₁ bs s₂) :
    ¬∃ s₃, Step s₂ (.suspendReturn f) s₃ := by
  have hsound := run_sound h0 h
  obtain ⟨fuel, he⟩ := hstart
  have hsound₁ := hsound.step he
  have hheld : Held f s₁ := by
    obtain ⟨l, hi⟩ := hsound.inv
    obtain ⟨hidle, hat, rfl | rfl⟩ := suspendThread_cases he
    · simp [hidle] at hcall
    · have hrun := (hi.resuming f).1 hat.1
      have hlive := hi.live f hrun
      have hl := hi.executing f hrun (by rw [hat.2]; rfl)
      exact ⟨⟨hlive, hcalm rfl rfl, hi.queue.flag_eq_false hlive hl⟩, .inl ⟨hcall, hrun, hat.2⟩⟩
  obtain ⟨-, hheld₂⟩ := hr.state_invariant (I := fun s => Sound s.sched ∧ Held f s)
    ⟨hsound₁, hheld⟩ fun s a s' ⟨hs, hh⟩ ⟨⟨fuel, he⟩, hcalm, hpos, hterm⟩ =>
      ⟨hs.step he, hh.step hs hpos hterm hcalm he⟩
  rintro ⟨s₃, fuel, he⟩
  obtain ⟨hpark, hat, -⟩ := suspendReturn_cases he
  exact hheld₂.not_returned hpark hat

/-- Thread 1 suspends itself; a wakeup of it is dropped. -/
theorem oneThread_stays :
    ∃ s₁ s₂ bs, Step oneThread (.suspendThread (.fiber 1) 1) s₁ ∧
      Run (WhileSuspended 1) s₁ bs s₂ ∧ bs.length = 5 ∧ ¬∃ s₃, Step s₂ (.suspendReturn 1) s₃ := by
  have hs : Step oneThread _ (oneThreadAfter [.suspendThread (.fiber 1) 1]) :=
    step_oneThread [] _ (by decide)
  have h₁ : Run (WhileSuspended 1) (oneThreadAfter [.suspendThread (.fiber 1) 1]) [.suspendFiber (.fiber 1)] _ :=
    .snoc .nil ⟨step_oneThread _ _ (by decide), trivial, by decide, by decide⟩
  have h₂ := Run.snoc h₁ ⟨step_oneThread _ (.scheduler (.armPark 1)) (by decide),
    fun h => absurd h (by decide), by decide, by decide⟩
  have h₃ := Run.snoc h₂ ⟨step_oneThread _ (.scheduler (.makeReady 1)) (by decide),
    fun h => absurd h (by decide), by decide, by decide⟩
  have h₄ := Run.snoc h₃ ⟨step_oneThread _ (.scheduler (.blockCurrent 1)) (by decide),
    fun h => absurd h (by decide), by decide, by decide⟩
  have h₅ := Run.snoc h₄ ⟨step_oneThread _ (.scheduler .executorPost) (by decide),
    fun h => absurd h (by decide), by decide, by decide⟩
  exact ⟨_, _, _, hs, h₅, rfl, self_suspended_stays oneThread_initial .nil hs (fun _ _ => by decide) (by decide) h₅⟩

/-- **A wakeup ends the suspension.** A `make_ready` finds thread 1 running and leaves the note,
which the next `suspend_self` takes for its own wakeup: `SuspendThread` returns with the guest's
count 1. -/
theorem self_suspended_returns :
    ¬∀ (s₀ s s₁ s₂ s₃ : State) (as bs : List Act) (f : Tid), s₀.Initial → Run Step s₀ as s →
      Step s (.suspendThread (.fiber f) f) s₁ → s₁.call (.fiber f) = .suspending f →
      Run (fun s a s' => Step s a s' ∧ 0 < s.guestCount f ∧ (s.info f).terminated = false) s₁ bs s₂ →
      0 < s₂.guestCount f → (s₂.info f).terminated = false → ¬Step s₂ (.suspendReturn f) s₃ := by
  intro h
  have hrun : Run Step oneThread [.scheduler (.makeReady 1)] (oneThreadAfter [.scheduler (.makeReady 1)]) :=
    .snoc .nil (step_oneThread [] _ (by decide))
  have hs := step_oneThread [.scheduler (.makeReady 1)] (.suspendThread (.fiber 1) 1) (by decide)
  have h₁ : Run (fun s a s' => Step s a s' ∧ 0 < s.guestCount 1 ∧ (s.info 1).terminated = false)
      (oneThreadAfter [.scheduler (.makeReady 1), .suspendThread (.fiber 1) 1])
      [.suspendFiber (.fiber 1)] _ :=
    .snoc .nil ⟨step_oneThread _ _ (by decide), by decide, by decide⟩
  have h₂ := Run.snoc h₁ ⟨step_oneThread _ (.scheduler (.armPark 1)) (by decide), by decide, by decide⟩
  have h₃ := Run.snoc h₂ ⟨step_oneThread _ (.scheduler (.blockCurrent 1)) (by decide), by decide, by decide⟩
  exact h _ _ _ _ _ _ _ 1 oneThread_initial hrun hs (by decide) h₃ (by decide) (by decide)
    (step_oneThread _ _ (by decide))

end Ps2Recomp.Threads
