import Ps2Recomp.Proof.GuestToken
import Ps2Recomp.Proof.Wakeup
import Ps2Recomp.Spec.Threads

/-!
# The sections of the calls on threads

One lemma for each section of a call says what it does. `step_sched` and `step_call` say what a
step of any kind does to the scheduler and to the calls that are under way, and `Other` what the
calls that do not suspend or resume leave alone.
-/

namespace Ps2Recomp.Threads

open Transition
open Sched (Tid Inv Placed)

variable {s s' s₀ : State} {t u : Tid} {c d : Caller} {fuel : ℕ} {a : Act} {as : List Act}

/-! ### The sections of the two calls -/

section fields

variable (s : State) (g : ThreadInfo → ThreadInfo) (call : Call)

@[simp] theorem setInfo_sched : (s.setInfo t g).sched = s.sched := rfl

@[simp] theorem setInfo_call : (s.setInfo t g).call = s.call := rfl

@[simp] theorem setCall_sched : (s.setCall c call).sched = s.sched := rfl

@[simp] theorem setCall_info : (s.setCall c call).info = s.info := rfl

@[simp] theorem setInfo_info : (s.setInfo t g).info u = if u = t then g (s.info u) else s.info u := by
  by_cases h : u = t
  · subst h
    simp [State.setInfo]
  · simp [State.setInfo, h]

@[simp] theorem setInfo_tally : (s.setInfo t g).tally = s.tally := rfl

@[simp] theorem setCall_tally : (s.setCall c call).tally = s.tally := rfl

section

variable (h : Tally → Tally)

include h

@[simp] theorem setTally_sched : (s.setTally t h).sched = s.sched := rfl

@[simp] theorem setTally_info : (s.setTally t h).info = s.info := rfl

@[simp] theorem setTally_call : (s.setTally t h).call = s.call := rfl

@[simp] theorem setTally_tally : (s.setTally t h).tally u = if u = t then h (s.tally u) else s.tally u := by
  by_cases hu : u = t
  · subst hu
    simp [State.setTally]
  · simp [State.setTally, hu]

end

@[simp] theorem setCall_call : (s.setCall c call).call d = if d = c then call else s.call d :=
  Function.update_apply ..

end fields

variable {b : Sched.Act}

theorem scheduler_cases (he : s.scheduler fuel b = some s') :
    ∃ sched, Sched.step fuel s.sched b = some sched ∧ s' = { s with sched } := by
  obtain ⟨sched, hs, rfl⟩ := Option.map_eq_some_iff.1 he
  exact ⟨sched, hs, rfl⟩

theorem suspendThread_cases (he : s.suspendThread c t = some s') :
    s.call c = .idle ∧ s.CanCall c ∧ (s' = s ∨
      s' = (s.setInfo t fun info =>
        applySuspendStatusLocked { info with suspendCount := info.suspendCount + 1 }).setCall c
          (.suspending t)) := by
  rw [State.suspendThread] at he
  split at he
  · next hc =>
    refine ⟨hc.1, hc.2, ?_⟩
    split at he
    · exact .inl (Option.some.inj he).symm
    · exact .inr (Option.some.inj he).symm
  · cases he

theorem suspendFiber_cases (he : s.suspendFiber fuel c = some s') :
    ∃ t, s.call c = .suspending t ∧
      (c = .fiber t ∧ (s.info t).terminated = true ∧ s' = s.setCall c .idle ∨
      c = .fiber t ∧ (s.info t).terminated = false ∧ (∃ sched,
        Sched.step fuel s.sched (.suspendSelf t) = some sched ∧
        s' = { s with sched }.setCall c .parking) ∨
      c ≠ .fiber t ∧ ∃ sched, Sched.step fuel s.sched (.suspendOther t) = some sched ∧
        s' = { s with sched }.setCall c .idle) := by
  rw [State.suspendFiber] at he
  split at he
  · next t hcall =>
    refine ⟨t, hcall, ?_⟩
    split at he
    · next hc =>
      split at he
      · next ht => exact .inl ⟨hc, ht, (Option.some.inj he).symm⟩
      · next ht =>
        obtain ⟨s1, hb, he⟩ := Option.bind_eq_some_iff.1 he
        obtain ⟨sched, hs, rfl⟩ := scheduler_cases hb
        exact .inr (.inl ⟨hc, by simpa using ht, sched, hs, (Option.some.inj he).symm⟩)
    · next hc =>
      split at he
      · obtain ⟨s1, hb, he⟩ := Option.bind_eq_some_iff.1 he
        obtain ⟨sched, hs, rfl⟩ := scheduler_cases hb
        exact .inr (.inr ⟨hc, sched, hs, (Option.some.inj he).symm⟩)
      · cases he
  · cases he

theorem suspendReturn_cases (he : s.suspendReturn t = some s') :
    s.call (.fiber t) = .parking ∧ s.sched.At t .code ∧ (s' = s.setCall (.fiber t) .idle ∨
      s' = (s.setInfo t fun info => { info with status := .run }).setCall (.fiber t) .idle) := by
  rw [State.suspendReturn] at he
  split at he
  · next hc =>
    refine ⟨hc.1, hc.2, ?_⟩
    split at he
    · exact .inl (Option.some.inj he).symm
    · exact .inr (Option.some.inj he).symm
  · cases he

/-- What the first section of `ResumeThread` by `c` makes of the record of `t`. -/
def resumed (c : Caller) (t : Tid) (info : ThreadInfo) : ThreadInfo :=
  { info with
    suspendCount := info.suspendCount - 1
    status := if info.suspendCount - 1 = 0 then
        if info.waitType ≠ .none then .wait else if c = .fiber t then .run else .ready
      else info.status }

/-- **The first section of `ResumeThread`** lowers a count that is not 0. -/
theorem resumeThread_cases (he : s.resumeThread c t = some s') : s.call c = .idle ∧
    (s' = s ∨ (s.info t).suspendCount ≠ 0 ∧ s' = (s.setInfo t (resumed c t)).setCall c (.resuming t)) := by
  rw [State.resumeThread] at he
  split at he
  · next hc =>
    refine ⟨hc.1, ?_⟩
    split at he
    · exact .inl (Option.some.inj he).symm
    · next hn =>
      rw [not_or] at hn
      refine .inr ⟨hn.2, ?_⟩
      cases he
      by_cases hz : (s.info t).suspendCount - 1 = 0
      · simp [State.setInfo, State.setCall, resumed, hz]
      · simp [State.setInfo, State.setCall, resumed, hz]
  · cases he

theorem resumeRead_cases (he : s.resumeRead c = some s') :
    ∃ t, s.call c = .resuming t ∧
      ((s.info t).suspendCount = 0 ∧ s' = s.setCall c (.clearing t) ∨
      (s.info t).suspendCount ≠ 0 ∧ s' = s.setCall c .idle) := by
  rw [State.resumeRead] at he
  split at he
  · next t hcall =>
    refine ⟨t, hcall, ?_⟩
    split at he
    · split at he
      · next hz => exact .inl ⟨hz, (Option.some.inj he).symm⟩
      · next hz => exact .inr ⟨hz, (Option.some.inj he).symm⟩
    · cases he
  · cases he

theorem resumeClear_cases (he : s.resumeClear fuel c = some s') : ∃ t, s.call c = .clearing t ∧ ∃ sched,
    Sched.step fuel s.sched (.clearSuspend t) = some sched ∧ s' = { s with sched }.setCall c .idle := by
  rw [State.resumeClear] at he
  split at he
  · next t hcall =>
    refine ⟨t, hcall, ?_⟩
    split at he
    · obtain ⟨s1, hb, he⟩ := Option.bind_eq_some_iff.1 he
      obtain ⟨sched, hs, rfl⟩ := scheduler_cases hb
      exact ⟨sched, hs, (Option.some.inj he).symm⟩
    · cases he
  · cases he

theorem sleepThread_cases (he : s.sleepThread fuel t = some s') :
    s.call (.fiber t) = .idle ∧ s.sched.At t .code ∧
      (s' = s ∨
      0 < (s.info t).wakeupCount ∧ s' = (s.setInfo t fun info =>
        awake { info with wakeupCount := info.wakeupCount - 1 }).setTally t
          (fun tally => { tally with slept := tally.slept + 1 }) ∨
      ¬0 < (s.info t).wakeupCount ∧ ∃ sched, Sched.step fuel s.sched (.publish t) = some sched ∧
        s' = ({ s with sched }.setInfo t fun info =>
          asleep { info with forceRelease := false }).setCall (.fiber t) .sleeping) := by
  rw [State.sleepThread] at he
  split at he
  · next hc =>
    refine ⟨hc.1, hc.2, ?_⟩
    split at he
    · exact .inl (Option.some.inj he).symm
    · split at he
      · next hw => exact .inr (.inl ⟨hw, (Option.some.inj he).symm⟩)
      · next hw =>
        obtain ⟨s1, hb, he⟩ := Option.bind_eq_some_iff.1 he
        obtain ⟨sched, hs, rfl⟩ := scheduler_cases hb
        exact .inr (.inr ⟨hw, sched, hs, (Option.some.inj he).symm⟩)
  · cases he

theorem sleepCheck_cases (he : s.sleepCheck fuel t = some s') :
    s.call (.fiber t) = .sleeping ∧ s.sched.At t .code ∧
      ((s.info t).terminated = true ∧ s' = s.setCall (.fiber t) .idle ∨
      (s.info t).forceRelease = true ∧ s' = (s.setInfo t fun info =>
        awake { info with forceRelease := false }).setCall (.fiber t) .idle ∨
      0 < (s.info t).wakeupCount ∧ s' = ((s.setInfo t fun info =>
        awake { info with wakeupCount := info.wakeupCount - 1 }).setTally t
          fun tally => { tally with slept := tally.slept + 1 }).setCall (.fiber t) .idle ∨
      ¬0 < (s.info t).wakeupCount ∧ ∃ sched, Sched.step fuel s.sched (.publish t) = some sched ∧
        s' = { s with sched }.setInfo t asleep) := by
  rw [State.sleepCheck] at he
  split at he
  · next hc =>
    refine ⟨hc.1, hc.2, ?_⟩
    split at he
    · next ht => exact .inl ⟨ht, (Option.some.inj he).symm⟩
    · split at he
      · next hf => exact .inr (.inl ⟨hf, (Option.some.inj he).symm⟩)
      · split at he
        · next hw => exact .inr (.inr (.inl ⟨hw, (Option.some.inj he).symm⟩))
        · next hw =>
          obtain ⟨s1, hb, he⟩ := Option.bind_eq_some_iff.1 he
          obtain ⟨sched, hs, rfl⟩ := scheduler_cases hb
          exact .inr (.inr (.inr ⟨hw, sched, hs, (Option.some.inj he).symm⟩))
  · cases he

/-- **`WakeupThread`** that is accepted counts, and looks for a thread that is asleep. -/
theorem wakeupThread_cases (he : s.wakeupThread c t = some s') :
    s.call c = .idle ∧ (s' = s ∨ ∃ s1,
      s1 = (s.setInfo t fun info => { info with wakeupCount := info.wakeupCount + 1 }).setTally t
        (fun tally => { tally with accepted := tally.accepted + 1 }) ∧
      ((s.info t).status = .wait ∧ (s.info t).waitType = .sleep ∧
        s' = (s1.setInfo t endWait).setCall c (.waking t) ∨
      ¬((s.info t).status = .wait ∧ (s.info t).waitType = .sleep) ∧ s' = s1)) := by
  rw [State.wakeupThread] at he
  split at he
  · next hc =>
    refine ⟨hc.1, ?_⟩
    split at he
    · exact .inl (Option.some.inj he).symm
    · refine .inr ⟨_, rfl, ?_⟩
      simp only at he
      split at he
      · next hw => exact .inl ⟨hw.1, hw.2, (Option.some.inj he).symm⟩
      · next hw => exact .inr ⟨hw, (Option.some.inj he).symm⟩
  · cases he

theorem cancelWakeupThread_cases (he : s.cancelWakeupThread c t = some s') :
    s.call c = .idle ∧ s' = (s.setInfo t fun info => { info with wakeupCount := 0 }).setTally t
      fun tally => { tally with discarded := tally.discarded + (s.info t).wakeupCount } := by
  rw [State.cancelWakeupThread] at he
  split at he
  · next hc => exact ⟨hc.1, (Option.some.inj he).symm⟩
  · cases he

theorem releaseWaitThread_cases (he : s.releaseWaitThread c t = some s') :
    s.call c = .idle ∧ (s' = s ∨
      ((s.info t).status = .wait ∨ (s.info t).status = .waitSuspend) ∧
      s' = (s.setInfo t fun info => endWait { info with forceRelease := true }).setCall c
        (.waking t)) := by
  rw [State.releaseWaitThread] at he
  split at he
  · next hc =>
    refine ⟨hc.1, ?_⟩
    split at he
    · exact .inl (Option.some.inj he).symm
    · split at he
      · next hw => exact .inr ⟨hw, (Option.some.inj he).symm⟩
      · exact .inl (Option.some.inj he).symm
  · cases he

theorem makeReady_cases (he : s.makeReady fuel c = some s') : ∃ t, s.call c = .waking t ∧ ∃ sched,
    Sched.step fuel s.sched (.makeReady t) = some sched ∧ s' = { s with sched }.setCall c .idle := by
  rw [State.makeReady] at he
  split at he
  · next t hcall =>
    refine ⟨t, hcall, ?_⟩
    split at he
    · obtain ⟨s1, hb, he⟩ := Option.bind_eq_some_iff.1 he
      obtain ⟨sched, hs, rfl⟩ := scheduler_cases hb
      exact ⟨sched, hs, (Option.some.inj he).symm⟩
    · cases he
  · cases he

theorem ownRecord_cases {g : ThreadInfo → ThreadInfo} (he : s.ownRecord t g = some s') :
    s.call (.fiber t) = .idle ∧ s.sched.At t .code ∧ s' = s.setInfo t g := by
  rw [State.ownRecord] at he
  split at he
  · next hc => exact ⟨hc.1, hc.2, (Option.some.inj he).symm⟩
  · cases he

/-! ### All steps -/

/-- The caller whose call a step advances. -/
def Act.caller : Act → Option Caller
  | .suspendThread c _ | .suspendFiber c | .resumeThread c _ | .resumeRead c | .resumeClear c
  | .wakeupThread c _ | .cancelWakeupThread c _ | .releaseWaitThread c _ | .makeReady c => some c
  | .suspendReturn t | .sleepThread t | .sleepCheck t | .setThreadWaiting t _
  | .clearThreadWaiting t | .consumeForceRelease t | .runAgain t => some (.fiber t)
  | .scheduler _ | .terminateThread _ => none

/-- The section of the scheduler that a step runs. -/
inductive Section (s : State) : Act → Sched.Act → Prop
  | scheduler (b : Sched.Act) (hb : s.allows b = true) : Section s (.scheduler b) b
  | suspendSelf (t : Tid) (hcall : s.call (.fiber t) = .suspending t) :
      Section s (.suspendFiber (.fiber t)) (.suspendSelf t)
  | suspendOther (c : Caller) (t : Tid) (hcall : s.call c = .suspending t) (hc : c ≠ .fiber t) :
      Section s (.suspendFiber c) (.suspendOther t)
  | clear (c : Caller) (t : Tid) (hcall : s.call c = .clearing t) : Section s (.resumeClear c) (.clearSuspend t)
  | publish (t : Tid) (hcall : s.call (.fiber t) = .idle) : Section s (.sleepThread t) (.publish t)
  | publishAgain (t : Tid) : Section s (.sleepCheck t) (.publish t)
  | wake (c : Caller) (t : Tid) (hcall : s.call c = .waking t) : Section s (.makeReady c) (.makeReady t)

theorem Section.not_shutdown (h : Section s a b) (order : List Tid) : b ≠ .schedulerShutdown order := by
  cases h with
  | scheduler b hb =>
    rintro rfl
    simp [State.allows] at hb
  | _ => simp

/-- The calls that do not suspend or resume a thread. -/
def Act.other : Act → Bool
  | .scheduler _ | .suspendThread _ _ | .suspendFiber _ | .suspendReturn _ | .resumeThread _ _
  | .resumeRead _ | .resumeClear _ => false
  | _ => true

/-- A place of such a call, or between calls. -/
def Call.other : Call → Bool
  | .suspending _ | .parking | .resuming _ | .clearing _ => false
  | .idle | .sleeping | .waking _ => true

/-- **What these calls leave alone.** -/
structure Other (fuel : ℕ) (s : State) (a : Act) (s' : State) : Prop where
  sched : s'.sched = s.sched ∨ ∃ b, Section s a b ∧ Sched.step fuel s.sched b = some s'.sched
  caller : ∀ c, a.caller = some c → (s.call c).other = true ∧ (s'.call c).other = true
  call : ∀ c, a.caller ≠ some c → s'.call c = s.call c
  suspendCount : ∀ u, (s'.info u).suspendCount = (s.info u).suspendCount

theorem Other.of_record (hs : s'.sched = s.sched) (hc : s'.call = s.call)
    (hi : ∀ u, (s'.info u).suspendCount = (s.info u).suspendCount)
    (hcaller : ∀ c, a.caller = some c → s.call c = .idle) : Other fuel s a s' where
  sched := .inl hs
  caller c h := by
    rw [hc, hcaller c h]
    exact ⟨rfl, rfl⟩
  call c _ := by rw [hc]
  suspendCount := hi

theorem Other.of_call {k : Call}
    (hs : s'.sched = s.sched ∨ ∃ b, Section s a b ∧ Sched.step fuel s.sched b = some s'.sched)
    (hc : s'.call = (s.setCall c k).call)
    (hi : ∀ u, (s'.info u).suspendCount = (s.info u).suspendCount) (ha : a.caller = some c)
    (hcall : (s.call c).other = true) (hk : k.other = true) : Other fuel s a s' where
  sched := hs
  caller d hd := by
    obtain rfl : c = d := Option.some.inj (ha.symm.trans hd)
    rw [hc, setCall_call, if_pos rfl]
    exact ⟨hcall, hk⟩
  call d hd := by
    have hdc : d ≠ c := by
      rintro rfl
      exact hd ha
    rw [hc, setCall_call, if_neg hdc]
  suspendCount := hi

theorem Other.of_ownRecord {g : ThreadInfo → ThreadInfo} (ha : a.caller = some (.fiber t))
    (he : s.ownRecord t g = some s') (hg : ∀ info, (g info).suspendCount = info.suspendCount) : Other fuel s a s' := by
  obtain ⟨hcall, -, rfl⟩ := ownRecord_cases he
  refine .of_record rfl rfl (fun u => ?_) fun c hc => ?_
  · by_cases hu : u = t <;> simp [hu, hg]
  · obtain rfl : Caller.fiber t = c := Option.some.inj (ha.symm.trans hc)
    exact hcall

theorem other_step (ha : a.other = true) (he : step fuel s a = some s') : Other fuel s a s' := by
  have hidle : ∀ {c}, a.caller = some c → s.call c = .idle →
      ∀ d, a.caller = some d → s.call d = .idle := by
    intro c hc hidle d hd
    rwa [← Option.some.inj (hc.symm.trans hd)]
  cases a with
  | sleepThread t =>
    obtain ⟨hcall, hat, rfl | ⟨-, rfl⟩ | ⟨-, sched, hs, rfl⟩⟩ := sleepThread_cases he
    · exact .of_record rfl rfl (fun _ => rfl) (hidle rfl hcall)
    · refine .of_record rfl rfl (fun u => ?_) (hidle rfl hcall)
      by_cases hu : u = t <;> simp [hu, awake]
    · refine .of_call (.inr ⟨_, .publish t hcall, hs⟩) rfl (fun u => ?_) rfl (by rw [hcall]; rfl) rfl
      by_cases hu : u = t <;> simp [hu, asleep]
  | sleepCheck t =>
    have hother : (s.call (.fiber t)).other = true := by
      rw [(sleepCheck_cases he).1]
      rfl
    obtain ⟨hcall, hat, ⟨-, rfl⟩ | ⟨-, rfl⟩ | ⟨-, rfl⟩ | ⟨-, sched, hs, rfl⟩⟩ := sleepCheck_cases he
    · exact .of_call (.inl rfl) rfl (fun _ => rfl) rfl hother rfl
    · refine .of_call (.inl rfl) rfl (fun u => ?_) rfl hother rfl
      by_cases hu : u = t <;> simp [hu, awake]
    · refine .of_call (.inl rfl) rfl (fun u => ?_) rfl hother rfl
      by_cases hu : u = t <;> simp [hu, awake]
    · refine .of_call (k := .sleeping) (.inr ⟨_, .publishAgain t, hs⟩) ?_ (fun u => ?_) rfl hother rfl
      · funext c
        by_cases hc : c = .fiber t
        · simp [hc, hcall]
        · simp [hc]
      · by_cases hu : u = t <;> simp [hu, asleep]
  | wakeupThread c t =>
    obtain ⟨hcall, rfl | ⟨s1, rfl, ⟨-, -, rfl⟩ | ⟨-, rfl⟩⟩⟩ := wakeupThread_cases he
    · exact .of_record rfl rfl (fun _ => rfl) (hidle rfl hcall)
    · refine .of_call (.inl rfl) rfl (fun u => ?_) rfl (by rw [hcall]; rfl) rfl
      by_cases hu : u = t <;> simp [hu, endWait]
    · refine .of_record rfl rfl (fun u => ?_) (hidle rfl hcall)
      by_cases hu : u = t <;> simp [hu]
  | cancelWakeupThread c t =>
    obtain ⟨hcall, rfl⟩ := cancelWakeupThread_cases he
    refine .of_record rfl rfl (fun u => ?_) (hidle rfl hcall)
    by_cases hu : u = t <;> simp [hu]
  | releaseWaitThread c t =>
    obtain ⟨hcall, rfl | ⟨-, rfl⟩⟩ := releaseWaitThread_cases he
    · exact .of_record rfl rfl (fun _ => rfl) (hidle rfl hcall)
    · refine .of_call (.inl rfl) rfl (fun u => ?_) rfl (by rw [hcall]; rfl) rfl
      by_cases hu : u = t <;> simp [hu, endWait]
  | makeReady c =>
    obtain ⟨t, hcall, sched, hs, rfl⟩ := makeReady_cases he
    exact .of_call (.inr ⟨_, .wake c t hcall, hs⟩) rfl (fun _ => rfl) rfl (by rw [hcall]; rfl) rfl
  | terminateThread t =>
    simp only [step] at he
    split at he
    · cases he
      exact .of_record rfl rfl (fun _ => rfl) fun c hc => (by cases hc)
    · cases he
      refine .of_record rfl rfl (fun u => ?_) fun c hc => (by cases hc)
      by_cases hu : u = t <;> simp [hu]
  | setThreadWaiting t w => exact .of_ownRecord rfl he fun _ => rfl
  | clearThreadWaiting t => exact .of_ownRecord rfl he fun _ => rfl
  | consumeForceRelease t => exact .of_ownRecord rfl he fun _ => rfl
  | runAgain t => exact .of_ownRecord rfl he fun _ => rfl
  | _ => cases ha

theorem step_sched (he : step fuel s a = some s') :
    s'.sched = s.sched ∨ ∃ b, Section s a b ∧ Sched.step fuel s.sched b = some s'.sched := by
  cases hoth : a.other with
  | true => exact (other_step hoth he).sched
  | false =>
    cases a with
    | scheduler b =>
      simp only [step] at he
      split at he
      · next hb =>
        obtain ⟨sched, hs, rfl⟩ := scheduler_cases he
        exact .inr ⟨b, .scheduler b hb, hs⟩
      · cases he
    | suspendThread c t =>
      obtain ⟨-, -, rfl | rfl⟩ := suspendThread_cases he
      · exact .inl rfl
      · exact .inl rfl
    | suspendFiber c =>
      obtain ⟨t, hcall, ⟨-, -, rfl⟩ | ⟨rfl, -, sched, hs, rfl⟩ | ⟨hc, sched, hs, rfl⟩⟩ :=
        suspendFiber_cases he
      · exact .inl rfl
      · exact .inr ⟨_, .suspendSelf t hcall, hs⟩
      · exact .inr ⟨_, .suspendOther c t hcall hc, hs⟩
    | suspendReturn t =>
      obtain ⟨-, -, rfl | rfl⟩ := suspendReturn_cases he
      · exact .inl rfl
      · exact .inl rfl
    | resumeThread c t =>
      obtain ⟨-, rfl | ⟨-, rfl⟩⟩ := resumeThread_cases he
      · exact .inl rfl
      · exact .inl rfl
    | resumeRead c =>
      obtain ⟨t, -, ⟨-, rfl⟩ | ⟨-, rfl⟩⟩ := resumeRead_cases he
      · exact .inl rfl
      · exact .inl rfl
    | resumeClear c =>
      obtain ⟨t, hcall, sched, hs, rfl⟩ := resumeClear_cases he
      exact .inr ⟨_, .clear c t hcall, hs⟩
    | _ => cases hoth

theorem step_call (hc : a.caller ≠ some c) (he : step fuel s a = some s') : s'.call c = s.call c := by
  cases hoth : a.other with
  | true => exact (other_step hoth he).call c hc
  | false =>
    cases a with
    | scheduler b =>
      simp only [step] at he
      split at he
      · obtain ⟨sched, -, rfl⟩ := scheduler_cases he
        rfl
      · cases he
    | suspendThread d t =>
      have hcd : c ≠ d := fun h => hc (by rw [h, Act.caller])
      obtain ⟨-, -, rfl | rfl⟩ := suspendThread_cases he
      · rfl
      · simp [hcd]
    | suspendFiber d =>
      have hcd : c ≠ d := fun h => hc (by rw [h, Act.caller])
      obtain ⟨t, -, ⟨-, -, rfl⟩ | ⟨-, -, sched, -, rfl⟩ | ⟨-, sched, -, rfl⟩⟩ := suspendFiber_cases he
      all_goals simp [hcd]
    | suspendReturn t =>
      have hcd : c ≠ .fiber t := fun h => hc (by rw [h, Act.caller])
      obtain ⟨-, -, rfl | rfl⟩ := suspendReturn_cases he
      · simp [hcd]
      · simp [hcd]
    | resumeThread d t =>
      have hcd : c ≠ d := fun h => hc (by rw [h, Act.caller])
      obtain ⟨-, rfl | ⟨-, rfl⟩⟩ := resumeThread_cases he
      · rfl
      · simp [hcd]
    | resumeRead d =>
      have hcd : c ≠ d := fun h => hc (by rw [h, Act.caller])
      obtain ⟨t, -, ⟨-, rfl⟩ | ⟨-, rfl⟩⟩ := resumeRead_cases he
      · simp [hcd]
      · simp [hcd]
    | resumeClear d =>
      have hcd : c ≠ d := fun h => hc (by rw [h, Act.caller])
      obtain ⟨t, -, sched, -, rfl⟩ := resumeClear_cases he
      simp [hcd]
    | _ => cases hoth

/-! ### Runs -/

/-- **The scheduler in every run of the calls**: its invariants hold, and it does not stop. -/
structure Sound (s : Sched.State) : Prop where
  inv : ∃ l, Inv s l
  placed : ∀ f, Placed s f
  stop : s.stop = false

theorem Sound.sched {s s' : Sched.State} (h : Sound s) (hb : ∀ order, b ≠ .schedulerShutdown order)
    (he : Sched.step fuel s b = some s') : Sound s' := by
  obtain ⟨l, hl⟩ := h.inv
  obtain ⟨l', hl', -⟩ := hl.step he
  exact ⟨⟨l', hl'⟩, fun f => (h.placed f).step hl he, (Sched.step_stop hl hb he).trans h.stop⟩

theorem Sound.not_head {s : Sched.State} (h : Sound s) {f : Tid} (hlive : f ∈ s.fiberMap)
    (hidle : (s.fibers f).inRunQueue = false) : s.runQueue ≠ some f := by
  obtain ⟨l, hi⟩ := h.inv
  intro hq
  have hl : f ∈ l := by
    cases l with
    | nil =>
      have := hi.queue.spells
      simp_all [Intrusive.Chain.Spells]
    | cons x l =>
      have := hi.queue.spells
      simp_all [Intrusive.Chain.Spells]
  have := (hi.queue.linked f hlive).2 hl
  rw [hidle] at this
  cases this

theorem Sound.step (h : Sound s.sched) (he : step fuel s a = some s') : Sound s'.sched := by
  obtain hs | ⟨b, hb, hs⟩ := step_sched he
  · rw [hs]
    exact h
  · exact h.sched hb.not_shutdown hs

theorem State.Initial.sound (h : s.Initial) : Sound s.sched := by
  obtain ⟨s1, as, h1, hr⟩ := h.sched
  exact ⟨(Sched.run_placed h1 hr).1, (Sched.run_placed h1 hr).2, h.stop⟩

theorem run_sound (h0 : s₀.Initial) (h : Run Step s₀ as s) : Sound s.sched :=
  h.state_invariant (I := fun s => Sound s.sched) h0.sound fun _ _ _ hs ⟨_, he⟩ => hs.step he

theorem run_call (hc : ∀ a ∈ as, a.caller ≠ some c) (h : Run Step s₀ as s) : s.call c = s₀.call c := by
  have key := h.invariant (I := fun as s => (∀ a ∈ as, a.caller ≠ some c) → s.call c = s₀.call c)
    (fun _ => rfl) fun as s a s' ih ⟨fuel, he⟩ hc => by
      rw [step_call (hc a (by simp)) he]
      exact ih fun b hb => hc b (by simp [hb])
  exact key hc

/-- What holds of all calls at the start, and of those that a run advances at its end, holds of
all calls at its end. -/
theorem run_calls {P : Call → Prop} (h : Run Step s₀ as s) (h0 : ∀ c, P (s₀.call c))
    (hc : ∀ c ∈ as.filterMap Act.caller, P (s.call c)) (c : Caller) : P (s.call c) := by
  by_cases hm : c ∈ as.filterMap Act.caller
  · exact hc c hm
  · rw [run_call (fun a ha hac => hm (List.mem_filterMap.2 ⟨a, ha, hac⟩)) h]
    exact h0 c

end Ps2Recomp.Threads
