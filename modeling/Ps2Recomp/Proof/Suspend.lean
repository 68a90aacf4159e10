import Ps2Recomp.Proof.ThreadCalls

/-!
# The two suspend counts

`SuspendThread` raises the guest's count and then the scheduler's; `ResumeThread` lowers the
guest's and, once it is 0, clears the scheduler's. The sections come under two locks, so a
`clear_suspend` may come late: after the count that it answers to has been raised again, or
before the scheduler's count was raised at all. Apart from that the two counts agree whenever
no call is under way (`suspend_resume_balance`).
-/

namespace Ps2Recomp.Sched

open State

variable {s s' : State} {f : Tid} {l : List Tid} {fuel : ℕ} {a : Act}

/-! ### The scheduler's count -/

/-- What identifies the fiber, and its suspend count. -/
def FiberContext.mark (fc : FiberContext) : BitVec 32 × ℕ := (fc.generation, fc.suspendCount)

theorem State.Rewrites.mark {fc : FiberContext} {t : Tid} (h : Rewrites s t fc s')
    (hfc : fc.mark = (s.fibers t).mark) (u : Tid) : (s'.fibers u).mark = (s.fibers u).mark := by
  refine h.congr (fun x y hxy => ?_) hfc u
  simp only [FiberContext.kept, Prod.mk.injEq] at hxy
  simp only [FiberContext.mark, Prod.mk.injEq]
  exact ⟨hxy.1, hxy.2.1⟩

/-- The sections that write the count of `f`. -/
def Act.writesCount (f : Tid) : Act → Bool
  | .suspendSelf t | .suspendOther t | .clearSuspend t | .requestTerminate t => t = f
  | .schedulerShutdown _ => true
  | _ => false

theorem own_mark (ha : a.own = some f) (hw : a.writesCount f = false) (he : step fuel s a = some s') :
    (s'.fibers f).mark = (s.fibers f).mark := by
  obtain ⟨_, _, hc, -⟩ | ⟨rfl, -⟩ | ⟨-, _, _, _, hc⟩ := own_context ha he
  · rw [hc]
    rfl
  · simp [Act.writesCount] at hw
  · rw [hc]
    rfl

theorem executorWait_mark (he : s.executorWait = some s') : (s'.fibers f).mark = (s.fibers f).mark := by
  obtain ⟨-, rfl | ⟨d, g, rfl | ⟨-, -, t, s1, hp, rfl⟩⟩⟩ := executorWait_cases he
  · rfl
  · rfl
  · rw [State.resume, setPc_fibers, (Rewrites.write s1 t _).mark rfl f, (popHeadLocked_rewrites hp).mark rfl f]

theorem executorPost_mark (he : s.executorPost fuel = some s') : (s'.fibers f).mark = (s.fibers f).mark := by
  obtain ⟨t, -, hw | rfl⟩ := executorPost_rewrites he
  · exact hw.mark rfl f
  · rfl

theorem yieldTo_mark {gives : ℤ → ℤ → Bool} {t : Tid} (he : s.yieldTo gives fuel t = some s') :
    (s'.fibers f).mark = (s.fibers f).mark := by
  obtain ⟨-, rfl | ⟨s1, he1, rfl⟩⟩ := yieldTo_form he
  · rfl
  · exact (enqueueLocked_rewrites he1).mark rfl f

section

variable (hi : Inv s l) (hf : f ∈ s.fiberMap) (hw : a.writesCount f = false) (he : step fuel s a = some s')

include hi hf hw he

/-- **All other sections** leave them alone. -/
theorem step_mark : (s'.fibers f).mark = (s.fibers f).mark := by
  by_cases ht : Touches s f a
  · cases ho : a.own with
    | some t =>
      obtain rfl := touches_own ht ho
      exact own_mark ho hw he
    | none =>
      unfold step at he
      split at he
      · cases he
      · cases a <;> cases ho
        case isFalse.executorWait.refl => exact executorWait_mark he
        case isFalse.executorPost.refl => exact executorPost_mark he
        case isFalse.maybeYield.refl => exact yieldTo_mark he
        case isFalse.forceReschedule.refl => exact yieldTo_mark he
        case isFalse.createFiber.refl t p =>
          cases ht
          simp [createFiber, hf] at he
        case isFalse.makeReady.refl =>
          simp only [makeReady] at he
          split at he
          · exact (wakeLocked_rewrites he).mark rfl f
          · cases he
            rfl
        case isFalse.enqueueExternalWakeupValidated.refl =>
          simp only [enqueueExternalWakeupValidated] at he
          split at he
          · exact (wakeLocked_rewrites he).mark rfl f
          · cases he
            rfl
        all_goals simp_all [Touches, Act.own, Act.woken, Act.writesCount]
  · have hu := step_untouched hi ht he
    rw [FiberContext.mark, hu.generation, hu.suspendCount]
    rfl

theorem step_suspendCount : (s'.fibers f).suspendCount = (s.fibers f).suspendCount :=
  congrArg Prod.snd (step_mark hi hf hw he)

end

theorem step_generation (hi : Inv s l) (hf : f ∈ s.fiberMap) (hstop : ∀ order, a ≠ .schedulerShutdown order)
    (he : step fuel s a = some s') : (s'.fibers f).generation = (s.fibers f).generation := by
  cases hw : a.writesCount f with
  | false => exact congrArg Prod.fst (step_mark hi hf hw he)
  | true =>
    have hs := he
    unfold step at he
    split at he
    · cases he
    · cases a <;> simp only [Act.writesCount, decide_eq_true_eq, Bool.false_eq_true] at hw
      case isFalse.suspendSelf t =>
        subst hw
        simp only [suspendSelf] at he
        split at he
        · cases he
          simp
        · cases he
      case isFalse.requestTerminate t =>
        subst hw
        obtain ⟨_, _, hwrite⟩ := woken_rewrites rfl hs
        exact congrArg Prod.fst hwrite.kept
      case isFalse.suspendOther t =>
        subst hw
        obtain ⟨_, hwrite⟩ := suspendOther_rewrites he
        exact congrArg Prod.fst hwrite.kept
      case isFalse.clearSuspend t =>
        subst hw
        obtain ⟨_, _, hwrite⟩ := woken_rewrites rfl hs
        exact congrArg Prod.fst hwrite.kept
      case isFalse.schedulerShutdown order => exact absurd rfl (hstop order)

end Ps2Recomp.Sched

namespace Ps2Recomp.Threads

open Transition
open Sched (Tid)

variable {s s' s₀ : State} {t u : Tid} {c d : Caller} {fuel : ℕ} {a : Act} {as : List Act}

/-! ### The two counts of a thread -/

/-- The guest's count, `ThreadInfo::suspendCount`. -/
def State.guestCount (s : State) (t : Tid) : ℕ := (s.info t).suspendCount

/-- The scheduler's count, `FiberContext::suspendCount`. -/
def State.fiberCount (s : State) (t : Tid) : ℕ := (s.sched.fibers t).suspendCount

/-- The thread whose counts a call has still to write or to look at. -/
def Call.target : Call → Option Tid
  | .suspending t | .resuming t | .clearing t => some t
  | .idle | .parking | .sleeping | .waking _ => none

/-- A thread that has been started, has not left its code and is not terminated. -/
structure Started (s : State) (t : Tid) : Prop where
  live : t ∈ s.sched.fiberMap
  code : s.sched.inExitHook t = false
  terminated : (s.info t).terminated = false

/-- **What a step does to the counts of `t` and the calls on it.** -/
inductive Effect (s : State) (t : Tid) (a : Act) (s' : State) : Prop
  | still (hg : s'.guestCount t = s.guestCount t) (hf : s'.fiberCount t = s.fiberCount t)
      (hc : ∀ c, s'.call c = s.call c ∨ (s.call c).target ≠ some t ∧ (s'.call c).target ≠ some t) : Effect s t a s'
  | raiseGuest (c : Caller) (hcall : s.call c = .idle) (hg : s'.guestCount t = s.guestCount t + 1)
      (hc : s'.call = (s.setCall c (.suspending t)).call) : Effect s t a s'
  | raiseFiber (c : Caller) (hcall : s.call c = .suspending t)
      (hg : s'.guestCount t = s.guestCount t) (hf : s'.fiberCount t = s.fiberCount t + 1)
      (k : Call) (hc : s'.call = (s.setCall c k).call) : Effect s t a s'
  | lowerGuest (c : Caller) (hcall : s.call c = .idle) (hg : s.guestCount t = s'.guestCount t + 1)
      (hf : s'.fiberCount t = s.fiberCount t)
      (hc : s'.call = (s.setCall c (.resuming t)).call) : Effect s t a s'
  | read (c : Caller) (hcall : s.call c = .resuming t) (hg : s'.guestCount t = s.guestCount t)
      (hf : s'.fiberCount t = s.fiberCount t) (k : Call) (hc : s'.call = (s.setCall c k).call)
      (hk : s.guestCount t = 0 ∧ k = .clearing t ∨ s.guestCount t ≠ 0 ∧ k = .idle) :
      Effect s t a s'
  | clear (c : Caller) (ha : a = .resumeClear c) (hcall : s.call c = .clearing t)
      (hg : s'.guestCount t = s.guestCount t) (hf : s'.fiberCount t = 0)
      (hc : s'.call = (s.setCall c .idle).call) : Effect s t a s'

theorem guestCount_setInfo {g : ThreadInfo → ThreadInfo} (hg : ∀ info, (g info).suspendCount = info.suspendCount) :
    (s.setInfo u g).guestCount t = s.guestCount t := by
  by_cases hu : t = u
  · simp [State.guestCount, hu, hg]
  · simp [State.guestCount, hu]

theorem Effect.of_info (hs : s'.sched = s.sched) (hc : s'.call = s.call)
    (hg : s'.guestCount t = s.guestCount t) : Effect s t a s' := by
  refine .still hg ?_ fun c => .inl ?_
  · rw [State.fiberCount, State.fiberCount, hs]
  · rw [hc]

theorem Effect.of_setCall {k : Call} (hg : s'.guestCount t = s.guestCount t)
    (hf : s'.fiberCount t = s.fiberCount t) (hc : s'.call = (s.setCall c k).call)
    (h : (s.call c).target ≠ some t) (hk : k.target ≠ some t) : Effect s t a s' := by
  refine .still hg hf fun d => ?_
  rw [hc, setCall_call]
  by_cases hd : d = c
  · subst hd
    simp [h, hk]
  · simp [hd]

section

variable (hsound : Sound s.sched) (hst : Started s t)

include hsound hst

theorem suspendFiber_effect (he : s.suspendFiber fuel c = some s') : Effect s t a s' := by
  obtain ⟨l, hi⟩ := hsound.inv
  obtain ⟨u, hcall, hc⟩ := suspendFiber_cases he
  by_cases hu : u = t
  · subst hu
    obtain ⟨-, ht, -⟩ | ⟨rfl, -, sched, hs, rfl⟩ | ⟨-, sched, hs, rfl⟩ := hc
    · simp [hst.terminated] at ht
    · refine .raiseFiber _ hcall rfl ?_ .parking rfl
      unfold Sched.step at hs
      split at hs
      · cases hs
      · simp only [Sched.State.suspendSelf] at hs
        split at hs
        · cases hs
          simp [State.fiberCount]
        · cases hs
    · refine .raiseFiber _ hcall rfl ?_ .idle rfl
      unfold Sched.step at hs
      split at hs
      · cases hs
      · exact (Sched.suspendOther_effect hst.live hs).2.2.2.1
  · have hne : (s.call c).target ≠ some t := by simp [hcall, Call.target, hu]
    obtain ⟨-, -, rfl⟩ | ⟨-, -, sched, hs, rfl⟩ | ⟨-, sched, hs, rfl⟩ := hc
    · exact .of_setCall rfl rfl rfl hne (by simp [Call.target])
    · refine .of_setCall rfl ?_ rfl hne (by simp [Call.target])
      exact Sched.step_suspendCount hi hst.live (by simpa [Sched.Act.writesCount] using hu) hs
    · refine .of_setCall rfl ?_ rfl hne (by simp [Call.target])
      exact Sched.step_suspendCount hi hst.live (by simpa [Sched.Act.writesCount] using hu) hs

theorem resumeClear_effect (he : s.resumeClear fuel c = some s') : Effect s t (.resumeClear c) s' := by
  obtain ⟨l, hi⟩ := hsound.inv
  obtain ⟨u, hcall, sched, hs, rfl⟩ := resumeClear_cases he
  by_cases hu : u = t
  · subst hu
    refine .clear c rfl hcall rfl ?_ rfl
    unfold Sched.step at hs
    split at hs
    · cases hs
    · simp only [Sched.State.clearSuspend, hst.live, if_true] at hs
      have hz := (Sched.State.wakeLocked_keeps hs).suspendCount u
      simpa [State.fiberCount] using hz
  · refine .of_setCall rfl ?_ rfl ?_ (by simp [Call.target])
    · exact Sched.step_suspendCount hi hst.live (by simpa [Sched.Act.writesCount] using hu) hs
    · simp [hcall, Call.target, hu]

end

theorem Call.other_target {k : Call} (h : k.other = true) : k.target ≠ some t := by
  cases k <;> simp_all [Call.other, Call.target]

section

variable (hsound : Sound s.sched) (hst : Started s t)

include hsound hst

theorem other_effect (ha : a.other = true) (ho : Other fuel s a s') : Effect s t a s' := by
  obtain ⟨l, hi⟩ := hsound.inv
  refine .still (ho.suspendCount t) ?_ fun c => ?_
  · obtain hs | ⟨b, hb, hs⟩ := ho.sched
    · rw [State.fiberCount, State.fiberCount, hs]
    · refine Sched.step_suspendCount hi hst.live ?_ hs
      cases hb <;> cases ha <;> rfl
  · by_cases hc : a.caller = some c
    · obtain ⟨h, h'⟩ := ho.caller c hc
      exact .inr ⟨Call.other_target h, Call.other_target h'⟩
    · exact .inl (ho.call c hc)

theorem step_effect (he : step fuel s a = some s') : Effect s t a s' := by
  obtain ⟨l, hi⟩ := hsound.inv
  cases hoth : a.other with
  | true => exact other_effect hsound hst hoth (other_step hoth he)
  | false =>
    cases a with
    | scheduler b =>
      simp only [step] at he
      split at he
      · next hb =>
        obtain ⟨sched, hs, rfl⟩ := scheduler_cases he
        refine .still rfl (Sched.step_suspendCount hi hst.live ?_ hs) fun _ => .inl rfl
        cases b <;> simp_all [State.allows, Sched.Act.writesCount]
        rintro rfl
        simp [hst.terminated] at hb
      · cases he
    | suspendThread c u =>
      obtain ⟨hcall, -, rfl | rfl⟩ := suspendThread_cases he
      · exact .of_info rfl rfl rfl
      · by_cases hu : u = t
        · subst hu
          refine .raiseGuest c hcall ?_ rfl
          simp [State.guestCount, applySuspendStatusLocked]
        · refine .of_setCall ?_ rfl rfl (by simp [hcall, Call.target]) (by simpa [Call.target] using hu)
          simp [State.guestCount, Ne.symm hu]
    | suspendFiber c => exact suspendFiber_effect hsound hst he
    | suspendReturn u =>
      obtain ⟨hcall, -, rfl | rfl⟩ := suspendReturn_cases he
      · exact .of_setCall rfl rfl rfl (by simp [hcall, Call.target]) (by simp [Call.target])
      · have hg : (s.setInfo u fun info => { info with status := .run }).guestCount t =
            s.guestCount t := guestCount_setInfo fun _ => rfl
        exact .of_setCall hg rfl rfl (by simp [hcall, Call.target]) (by simp [Call.target])
    | resumeThread c u =>
      obtain ⟨hcall, rfl | ⟨hz, rfl⟩⟩ := resumeThread_cases he
      · exact .of_info rfl rfl rfl
      · by_cases hu : u = t
        · subst hu
          refine .lowerGuest c hcall ?_ rfl rfl
          simp only [State.guestCount, setCall_info, setInfo_info, if_true, resumed]
          omega
        · refine .of_setCall ?_ rfl rfl (by simp [hcall, Call.target]) (by simpa [Call.target] using hu)
          simp [State.guestCount, Ne.symm hu]
    | resumeRead c =>
      obtain ⟨u, hcall, hc⟩ := resumeRead_cases he
      by_cases hu : u = t
      · subst hu
        obtain ⟨hz, rfl⟩ | ⟨hz, rfl⟩ := hc
        · exact .read c hcall rfl rfl _ rfl (.inl ⟨hz, rfl⟩)
        · exact .read c hcall rfl rfl _ rfl (.inr ⟨hz, rfl⟩)
      · obtain ⟨-, rfl⟩ | ⟨-, rfl⟩ := hc
        · exact .of_setCall rfl rfl rfl (by simp [hcall, Call.target, hu]) (by simp [Call.target, hu])
        · exact .of_setCall rfl rfl rfl (by simp [hcall, Call.target, hu]) (by simp [Call.target])
    | resumeClear c => exact resumeClear_effect hsound hst he
    | _ => cases hoth

end

/-! ### Balance -/

/-- **The counts of `t` agree**, up to the calls that are under way. -/
structure Balance (s : State) (t : Tid) : Prop where
  positive : 0 < s.guestCount t → 0 < s.fiberCount t ∨ ∃ c, s.call c = .suspending t
  zero : s.guestCount t = 0 → (∃ c, s.call c = .resuming t ∨ s.call c = .clearing t) ∨
    s.fiberCount t = 0 ∧ ∀ c, s.call c ≠ .suspending t

/-- **A `clear_suspend` in time.** The guest's count is 0, as it was when the call looked, and no
`SuspendThread` has raised it without having raised the scheduler's. -/
def InTime (s : State) (t : Tid) (a : Act) : Prop :=
  ∀ c, a = .resumeClear c → s.call c = .clearing t → s.guestCount t = 0 ∧ ∀ d, s.call d ≠ .suspending t

theorem call_of_ne {k k' : Call} (hc : s'.call = (s.setCall c k).call) (hd : s.call d = k')
    (hne : s.call c ≠ k') : s'.call d = k' := by
  have hdc : d ≠ c := by
    rintro rfl
    exact hne hd
  rw [hc, setCall_call, if_neg hdc, hd]

theorem Balance.still (h : Balance s t) (hg : s'.guestCount t = s.guestCount t) (hf : s'.fiberCount t = s.fiberCount t)
    (hc : ∀ c, s'.call c = s.call c ∨ (s.call c).target ≠ some t ∧ (s'.call c).target ≠ some t) : Balance s' t := by
  have hkeep : ∀ c k, k.target = some t → (s'.call c = k ↔ s.call c = k) := by
    intro c k hk
    obtain hc | ⟨hc, hc'⟩ := hc c
    · rw [hc]
    · refine ⟨fun h' => absurd (h' ▸ hk) hc', fun h' => absurd (h' ▸ hk) hc⟩
  have hsus := fun c => hkeep c (.suspending t) rfl
  have hres := fun c => hkeep c (.resuming t) rfl
  have hclr := fun c => hkeep c (.clearing t) rfl
  refine ⟨fun hp => ?_, fun hz => ?_⟩
  · simp only [hf, hsus]
    exact h.positive (hg ▸ hp)
  · simp only [hf, hsus, hres, hclr, ne_eq]
    exact h.zero (hg ▸ hz)

/-- **One step.** -/
theorem Balance.step (hsound : Sound s.sched) (hst : Started s t) (h : Balance s t)
    (hin : InTime s t a) (he : step fuel s a = some s') : Balance s' t := by
  cases step_effect hsound hst he with
  | still hg hf hc => exact h.still hg hf hc
  | raiseGuest c hcall hg hc =>
    refine ⟨fun _ => .inr ⟨c, ?_⟩, fun hz => by omega⟩
    rw [hc, setCall_call, if_pos rfl]
  | raiseFiber c hcall hg hf k hc =>
    refine ⟨fun _ => .inl (by omega), fun hz => .inl ?_⟩
    -- the `SuspendThread` was under way, so the guest's count is 0 by a `ResumeThread` that is too
    obtain ⟨d, hd⟩ | ⟨-, hno⟩ := h.zero (hg ▸ hz)
    · refine ⟨d, hd.imp (fun hd => ?_) fun hd => ?_⟩
      · exact call_of_ne hc hd (by simp [hcall])
      · exact call_of_ne hc hd (by simp [hcall])
    · exact absurd hcall (hno c)
  | lowerGuest c hcall hg hf hc =>
    refine ⟨fun hp => ?_, fun _ => .inl ⟨c, .inl ?_⟩⟩
    · obtain hpos | ⟨d, hd⟩ := h.positive (by omega)
      · exact .inl (hf ▸ hpos)
      · exact .inr ⟨d, call_of_ne hc hd (by simp [hcall])⟩
    · rw [hc, setCall_call, if_pos rfl]
  | read c hcall hg hf k hc hk =>
    refine ⟨fun hp => ?_, fun hz => .inl ⟨c, .inr ?_⟩⟩
    · obtain hpos | ⟨d, hd⟩ := h.positive (hg ▸ hp)
      · exact .inl (hf ▸ hpos)
      · exact .inr ⟨d, call_of_ne hc hd (by simp [hcall])⟩
    · obtain ⟨-, rfl⟩ | ⟨hne, -⟩ := hk
      · rw [hc, setCall_call, if_pos rfl]
      · exact absurd (hg ▸ hz) hne
  | clear c ha hcall hg hf hc =>
    obtain ⟨hz, hno⟩ := hin c ha hcall
    refine ⟨fun hp => by omega, fun _ => .inr ⟨hf, fun d => ?_⟩⟩
    rw [hc, setCall_call]
    by_cases hd : d = c
    · simp [hd]
    · simpa [hd] using hno d

theorem Balance.initial (h0 : s.Initial) (hb : s.guestCount t = 0 ↔ s.fiberCount t = 0) : Balance s t := by
  refine ⟨fun hp => .inl ?_, fun hz => .inr ⟨hb.1 hz, fun c => ?_⟩⟩
  · have := hb.2
    omega
  · rw [h0.call c]
    simp

theorem Balance.settled (h : Balance s t) (hidle : ∀ c, (s.call c).target ≠ some t) :
    (s.guestCount t = 0 → s.fiberCount t = 0) ∧ (0 < s.guestCount t → 0 < s.fiberCount t) := by
  refine ⟨fun hz => ?_, fun hp => ?_⟩
  · obtain ⟨c, hc | hc⟩ | ⟨hf, -⟩ := h.zero hz
    · exact absurd (by simp [hc, Call.target]) (hidle c)
    · exact absurd (by simp [hc, Call.target]) (hidle c)
    · exact hf
  · obtain hf | ⟨c, hc⟩ := h.positive hp
    · exact hf
    · exact absurd (by simp [hc, Call.target]) (hidle c)

/-- Steps of which every `clear_suspend` of `t` comes in time. -/
def StepInTime (t : Tid) (s : State) (a : Act) (s' : State) : Prop :=
  Step s a s' ∧ Started s t ∧ InTime s t a

/-- **Suspend and resume are balanced** in every run of calls by fibers and host threads in which
each `clear_suspend` of the thread comes in time: whenever no call on it is under way, one count
is 0 exactly when the other is. -/
theorem suspend_resume_balance (h0 : s₀.Initial) (hb : s₀.guestCount t = 0 ↔ s₀.fiberCount t = 0)
    (h : Run (StepInTime t) s₀ as s) (hidle : ∀ c, (s.call c).target ≠ some t) :
    (s.guestCount t = 0 → s.fiberCount t = 0) ∧ (0 < s.guestCount t → 0 < s.fiberCount t) := by
  obtain ⟨-, hbal⟩ := h.state_invariant (I := fun s => Sound s.sched ∧ Balance s t)
    ⟨h0.sound, .initial h0 hb⟩ fun s a s' ⟨hs, hbal⟩ ⟨⟨fuel, he⟩, hst, hin⟩ =>
      ⟨hs.step he, hbal.step hs hst hin he⟩
  exact hbal.settled hidle

/-! ### Calls that are late -/

instance (s : State) (t : Tid) : Decidable (Started s t) :=
  decidable_of_iff (t ∈ s.sched.fiberMap ∧ s.sched.inExitHook t = false ∧
    (s.info t).terminated = false)
    ⟨fun ⟨h1, h2, h3⟩ => ⟨h1, h2, h3⟩, fun ⟨h1, h2, h3⟩ => ⟨h1, h2, h3⟩⟩

/-- Thread 1 runs, and no call is under way. -/
def oneThread : State where
  sched := Sched.stateAfter 2 [.createFiber 1 10, .executorWait]
  info _ := { status := .run }
  call _ := .idle
  tally _ := {}

theorem oneThread_initial : oneThread.Initial := by
  have hrun : Run Sched.Step Sched.State.init [.createFiber 1 10, .executorWait]
      (Sched.stateAfter 2 [.createFiber 1 10, .executorWait]) := Sched.run_stateAfter (by decide)
  exact ⟨⟨_, _, Sched.State.init_initial, hrun⟩, by decide, fun _ => rfl⟩

/-- The state after a computed sequence of steps of thread 1 and its callers. -/
def oneThreadAfter (as : List Act) : State := after (step 2) oneThread as

theorem step_oneThread (as : List Act) (a : Act) (h : ((as ++ [a]).foldlM (step 2) oneThread).isSome = true) :
    Step (oneThreadAfter as) a (oneThreadAfter (as ++ [a])) :=
  ⟨2, after_step h⟩

/-- A host thread suspends thread 1 and resumes it. -/
theorem oneThread_balance :
    ∃ s as, Run (StepInTime 1) oneThread as s ∧ as.length = 5 ∧
      (s.guestCount 1 = 0 → s.fiberCount 1 = 0) ∧ (0 < s.guestCount 1 → 0 < s.fiberCount 1) := by
  have h₁ : Run (StepInTime 1) oneThread [.suspendThread (.host 0) 1] (oneThreadAfter _) :=
    .snoc .nil ⟨step_oneThread [] _ (by decide), by decide, fun c h => by cases h⟩
  have h₂ := Run.snoc h₁ ⟨step_oneThread _ (.suspendFiber (.host 0)) (by decide), by decide, fun c h => by cases h⟩
  have h₃ := Run.snoc h₂ ⟨step_oneThread _ (.resumeThread (.host 0) 1) (by decide), by decide, fun c h => by cases h⟩
  have h₄ := Run.snoc h₃ ⟨step_oneThread _ (.resumeRead (.host 0)) (by decide), by decide, fun c h => by cases h⟩
  have hno : ∀ d, _ ≠ Call.suspending 1 := run_calls (P := (· ≠ .suspending 1))
    (h₄.mono fun _ _ _ hs => hs.1) (fun _ => by simp [oneThread]) (by decide)
  have h₅ := Run.snoc h₄ ⟨step_oneThread _ (.resumeClear (.host 0)) (by decide), by decide,
    fun _ _ _ => ⟨by decide, hno⟩⟩
  have hidle := run_calls (P := fun k => k.target ≠ some 1)
    (h₅.mono fun _ _ _ hs => hs.1) (fun _ => by simp [oneThread, Call.target]) (by decide)
  exact ⟨_, _, h₅, rfl, suspend_resume_balance oneThread_initial (by decide) h₅ hidle⟩

/-- Thread 1 suspends itself and is resumed by a host thread between the two increments. -/
def lateClear : List Act :=
  [.suspendThread (.fiber 1) 1, .resumeThread (.host 0) 1, .resumeRead (.host 0),
    .resumeClear (.host 0), .suspendFiber (.fiber 1), .scheduler (.armPark 1),
    .scheduler (.blockCurrent 1), .suspendReturn 1]

/-- A step of a run in which thread 1 stays started. -/
def startedStep (s : State) (a : Act) : Option State := if Started s 1 then step 2 s a else none

theorem run_started (as : List Act) (h : (as.foldlM startedStep oneThread).isSome = true) :
    Run (fun s a s' => Step s a s' ∧ Started s 1) oneThread as (after startedStep oneThread as) :=
  (Run.of_guarded (f := step 2) (P := fun s _ => Started s 1) (foldlM_eq_after h)).mono
    fun _ _ _ ⟨he, hst⟩ => ⟨⟨2, he⟩, hst⟩

/-- **A `clear_suspend` that comes late** (`lateClear`) clears a count that is not there yet.
`suspend_self` then raises it and returns at once, because of the note. Both calls have returned
and the guest's count is 0, but the scheduler's is 1. -/
theorem suspend_resume_unbalanced :
    ¬∀ (s₀ s : State) (as : List Act) (t : Tid), s₀.Initial →
      (s₀.guestCount t = 0 ↔ s₀.fiberCount t = 0) →
      Run (fun s a s' => Step s a s' ∧ Started s t) s₀ as s → Started s t →
      (∀ c, s.call c = .idle) →
      (s.guestCount t = 0 → s.fiberCount t = 0) ∧ (0 < s.guestCount t → 0 < s.fiberCount t) := by
  intro h
  have hrun := run_started lateClear (by decide)
  have hidle := run_calls (P := (· = .idle)) (hrun.mono fun _ _ _ hs => hs.1) (fun _ => rfl) (by decide)
  have hz := (h _ _ _ 1 oneThread_initial (by decide) hrun (by decide) hidle).1 (by decide)
  revert hz
  decide

end Ps2Recomp.Threads
