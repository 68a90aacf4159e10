import Ps2Recomp.Proof.Suspend
import Ps2Recomp.Proof.Waiting

/-!
# Sleeping and waking up

A thread in the loop of `SleepThread` waits on its own record. `WakeupThread` sends a wakeup only
if the record says that the thread is asleep; otherwise it relies on a wakeup that is on its way:
of an earlier `WakeupThread` or `ReleaseWaitThread`, which has changed the record, or of the
`ResumeThread` of a suspended thread. `Coming` says so, and `sleep_wakeup` what follows for every
run in which the two suspend counts agree.
-/

namespace Ps2Recomp.Threads

open Transition
open Sched (Tid Waits Woken Kept)

variable {s s' s₀ : State} {t u : Tid} {c d : Caller} {fuel : ℕ} {a : Act} {as : List Act}

/-! ### Permits -/

/-- **The count of wakeups** is what was accepted, less what was slept on or discarded. -/
structure Conserved (s : State) (t : Tid) : Prop where
  count : (s.info t).wakeupCount = (s.tally t).accepted - (s.tally t).slept - (s.tally t).discarded
  nonneg : 0 ≤ (s.info t).wakeupCount

theorem Conserved.congr (h : Conserved s t) (hi : (s'.info t).wakeupCount = (s.info t).wakeupCount)
    (ht : s'.tally t = s.tally t) : Conserved s' t := by
  refine ⟨?_, ?_⟩
  · rw [hi, ht]
    exact h.count
  · rw [hi]
    exact h.nonneg

variable {g : ThreadInfo → ThreadInfo}

section

variable (h : Conserved s t)

include h

theorem Conserved.setInfo (hg : ∀ info, (g info).wakeupCount = info.wakeupCount) : Conserved (s.setInfo u g) t := by
  refine h.congr ?_ rfl
  by_cases hu : t = u
  · simp [hu, hg]
  · simp [hu]

theorem Conserved.take (hu : 0 < (s.info u).wakeupCount) :
    Conserved ((s.setInfo u fun info => awake { info with wakeupCount := info.wakeupCount - 1 }).setTally
      u fun tally => { tally with slept := tally.slept + 1 }) t := by
  have hc := h.count
  by_cases htu : t = u
  · subst htu
    refine ⟨?_, ?_⟩
    · simp only [setTally_info, setInfo_info, setTally_tally, setInfo_tally, if_true, awake]
      omega
    · simp only [setTally_info, setInfo_info, if_true, awake]
      omega
  · exact h.congr (by simp [htu]) (by simp [htu])

theorem Conserved.accept :
    Conserved ((s.setInfo u fun info => { info with wakeupCount := info.wakeupCount + 1 }).setTally
      u fun tally => { tally with accepted := tally.accepted + 1 }) t := by
  have hc := h.count
  have hn := h.nonneg
  by_cases htu : t = u
  · subst htu
    refine ⟨?_, ?_⟩
    · simp only [setTally_info, setInfo_info, setTally_tally, setInfo_tally, if_true]
      omega
    · simp only [setTally_info, setInfo_info, if_true]
      omega
  · exact h.congr (by simp [htu]) (by simp [htu])

theorem Conserved.discard :
    Conserved ((s.setInfo u fun info => { info with wakeupCount := 0 }).setTally u
      fun tally => { tally with discarded := tally.discarded + (s.info u).wakeupCount }) t := by
  have hc := h.count
  by_cases htu : t = u
  · subst htu
    refine ⟨?_, ?_⟩
    · simp only [setTally_info, setInfo_info, setTally_tally, setInfo_tally, if_true]
      omega
    · simp only [setTally_info, setInfo_info, if_true]
      omega
  · exact h.congr (by simp [htu]) (by simp [htu])

theorem Conserved.step (he : step fuel s a = some s') : Conserved s' t := by
  cases a with
  | scheduler b =>
    simp only [Threads.step] at he
    split at he
    · obtain ⟨sched, -, rfl⟩ := scheduler_cases he
      exact h.congr rfl rfl
    · cases he
  | suspendThread c u =>
    obtain ⟨-, -, rfl | rfl⟩ := suspendThread_cases he
    · exact h
    · exact (h.setInfo (u := u) (g := fun info =>
        applySuspendStatusLocked { info with suspendCount := info.suspendCount + 1 })
        fun _ => rfl).congr rfl rfl
  | suspendFiber c =>
    obtain ⟨u, -, ⟨-, -, rfl⟩ | ⟨-, -, sched, -, rfl⟩ | ⟨-, sched, -, rfl⟩⟩ := suspendFiber_cases he
    all_goals exact h.congr rfl rfl
  | suspendReturn u =>
    obtain ⟨-, -, rfl | rfl⟩ := suspendReturn_cases he
    · exact h.congr rfl rfl
    · exact (h.setInfo (u := u) (g := fun info => { info with status := .run }) fun _ => rfl).congr rfl rfl
  | resumeThread c u =>
    obtain ⟨-, rfl | ⟨-, rfl⟩⟩ := resumeThread_cases he
    · exact h
    · exact (h.setInfo (u := u) (g := resumed c u) fun _ => rfl).congr rfl rfl
  | resumeRead c =>
    obtain ⟨u, -, ⟨-, rfl⟩ | ⟨-, rfl⟩⟩ := resumeRead_cases he
    · exact h.congr rfl rfl
    · exact h.congr rfl rfl
  | resumeClear c =>
    obtain ⟨u, -, sched, -, rfl⟩ := resumeClear_cases he
    exact h.congr rfl rfl
  | sleepThread u =>
    obtain ⟨-, -, rfl | ⟨hw, rfl⟩ | ⟨-, sched, -, rfl⟩⟩ := sleepThread_cases he
    · exact h
    · exact h.take hw
    · exact (h.setInfo (u := u) (g := fun info => asleep { info with forceRelease := false })
        fun _ => rfl).congr rfl rfl
  | sleepCheck u =>
    obtain ⟨-, -, ⟨-, rfl⟩ | ⟨-, rfl⟩ | ⟨hw, rfl⟩ | ⟨-, sched, -, rfl⟩⟩ := sleepCheck_cases he
    · exact h.congr rfl rfl
    · exact (h.setInfo (u := u) (g := fun info => awake { info with forceRelease := false }) fun _ => rfl).congr rfl rfl
    · exact (h.take hw).congr rfl rfl
    · exact (h.setInfo (u := u) (g := asleep) fun _ => rfl).congr rfl rfl
  | wakeupThread c u =>
    obtain ⟨-, rfl | ⟨s1, rfl, ⟨-, -, rfl⟩ | ⟨-, rfl⟩⟩⟩ := wakeupThread_cases he
    · exact h
    · exact (h.accept.setInfo (u := u) (g := endWait) fun _ => rfl).congr rfl rfl
    · exact h.accept
  | cancelWakeupThread c u =>
    obtain ⟨-, rfl⟩ := cancelWakeupThread_cases he
    exact h.discard
  | releaseWaitThread c u =>
    obtain ⟨-, rfl | ⟨-, rfl⟩⟩ := releaseWaitThread_cases he
    · exact h
    · exact (h.setInfo (u := u) (g := fun info => endWait { info with forceRelease := true })
        fun _ => rfl).congr rfl rfl
  | makeReady c =>
    obtain ⟨u, -, sched, -, rfl⟩ := makeReady_cases he
    exact h.congr rfl rfl
  | terminateThread u =>
    simp only [Threads.step] at he
    split at he
    · cases he
      exact h
    · cases he
      exact h.setInfo fun _ => rfl
  | setThreadWaiting u w =>
    obtain ⟨-, -, rfl⟩ := ownRecord_cases he
    exact h.setInfo fun _ => rfl
  | clearThreadWaiting u =>
    obtain ⟨-, -, rfl⟩ := ownRecord_cases he
    exact h.setInfo fun _ => rfl
  | consumeForceRelease u =>
    obtain ⟨-, -, rfl⟩ := ownRecord_cases he
    exact h.setInfo fun _ => rfl
  | runAgain u =>
    obtain ⟨-, -, rfl⟩ := ownRecord_cases he
    exact h.setInfo fun _ => rfl

end

/-! ### A sleeping thread -/

/-- A place of a call after which a wakeup of `t` comes. -/
def Call.wakes (t : Tid) : Call → Bool
  | .waking u | .resuming u | .clearing u => u = t
  | .idle | .suspending _ | .parking | .sleeping => false

/-- **A wakeup of `t` is on its way**, or it will be when `t` is resumed. -/
def Coming (s : State) (t : Tid) : Prop :=
  Woken s.sched t ∨ 0 < s.guestCount t ∨ ∃ c, (s.call c).wakes t = true

/-- What the record of a thread in the loop of `SleepThread` says. -/
inductive Asleep (s : State) (t : Tid) : Prop
  | asleep (hw : (s.info t).waitType = .sleep)
      (hs : (s.info t).status = .wait ∨ (s.info t).status = .waitSuspend ∧ 0 < s.guestCount t)
      (hc : 0 < (s.info t).wakeupCount → Coming s t) : Asleep s t
  | awakened (hw : (s.info t).waitType = .none) (hc : Coming s t) : Asleep s t

/-- **A thread in the loop of `SleepThread`.** -/
structure Sleeps (s : State) (t : Tid) : Prop where
  waits : Waits s.sched t
  record : Asleep s t

theorem Coming.of_call {k : Call} (hc : s'.call = (s.setCall c k).call) (hk : k.wakes t = true) : Coming s' t := by
  refine .inr (.inr ⟨c, ?_⟩)
  rw [hc, setCall_call, if_pos rfl]
  exact hk

section

variable (h : Coming s t) (hw : Woken s.sched t → Woken s'.sched t) (hg : s'.guestCount t = s.guestCount t)

include h hw hg

theorem Coming.of_setCall {k : Call} (hc : s'.call = (s.setCall c k).call)
    (hk : (s.call c).wakes t = false) : Coming s' t := by
  obtain h | h | ⟨d, h⟩ := h
  · exact .inl (hw h)
  · exact .inr (.inl (hg ▸ h))
  · have hdc : d ≠ c := by
      rintro rfl
      rw [hk] at h
      cases h
    refine .inr (.inr ⟨d, ?_⟩)
    rwa [hc, setCall_call, if_neg hdc]

theorem Coming.of_eq (hc : s'.call = s.call) : Coming s' t := by
  obtain h | h | ⟨d, h⟩ := h
  · exact .inl (hw h)
  · exact .inr (.inl (hg ▸ h))
  · exact .inr (.inr ⟨d, by rwa [hc]⟩)

end

theorem Asleep.keep (h : Asleep s t) (hi : s'.info t = s.info t) (hc : Coming s t → Coming s' t) : Asleep s' t := by
  cases h with
  | asleep hw hs hcoming =>
    refine .asleep (hi ▸ hw) ?_ fun hpos => hc (hcoming (hi ▸ hpos))
    rw [State.guestCount, hi]
    exact hs
  | awakened hw hcoming => exact .awakened (hi ▸ hw) (hc hcoming)

theorem waits_step (hsound : Sound s.sched) (hcall : s.call (.fiber t) = .sleeping)
    (h : Waits s.sched t) (ha : a ≠ .sleepCheck t) (he : step fuel s a = some s') :
    Waits s'.sched t ∧ (Woken s.sched t → Woken s'.sched t) := by
  obtain ⟨l, hi⟩ := hsound.inv
  have hpl := hsound.placed t
  obtain hs | ⟨b, hb, hs⟩ := step_sched he
  · rw [hs]
    exact ⟨h, id⟩
  · have hown : Sched.Back s.sched t → State.byFiber b ≠ some t := by
      intro hback hby
      cases hb with
      | scheduler b hb =>
        unfold Sched.step at hs
        split at hs
        · cases hs
        · -- only `arm_park` and `block_current` are allowed, and it is past them
          cases b <;> simp_all [State.byFiber, State.allows]
          · obtain ⟨b, hat, -⟩ := Sched.armPark_cases hs
            have := hat.2
            cases b <;> simp [hback.2] at this
          · obtain ⟨-, b, hpc, -⟩ := Sched.blockCurrent_cases hs
            simp [hback.2] at hpc
      | suspendSelf u hu =>
        obtain rfl : u = t := by simpa [State.byFiber] using hby
        simp [hcall] at hu
      | publish u hu =>
        obtain rfl : u = t := by simpa [State.byFiber] using hby
        simp [hcall] at hu
      | publishAgain u =>
        obtain rfl : u = t := by simpa [State.byFiber] using hby
        exact ha rfl
      | suspendOther c u => cases hby
      | clear c u => cases hby
      | wake c u => cases hby
    exact ⟨h.step hi hpl hown hb.not_shutdown hs, fun hw => hw.step hi hpl h hown hb.not_shutdown hs⟩

/-- **The start of a wait of `SleepThread`**: there is no permit, and the record says that the
thread is asleep. -/
theorem sleeps_of_caller (hc : a.caller = some (.fiber t))
    (hcall : s'.call (.fiber t) = .sleeping) (he : step fuel s a = some s') : Sleeps s' t := by
  have hpublish : ∀ {sched}, Sched.step fuel s.sched (.publish t) = some sched →
      Waits sched t := by
    intro sched hs
    obtain ⟨-, rfl⟩ := Sched.publish_step hs
    exact .inl (by simp [Sched.FiberPc.published])
  cases a with
  | sleepThread u =>
    obtain rfl : u = t := by simpa [Act.caller] using hc
    obtain ⟨hidle, -, rfl | ⟨-, rfl⟩ | ⟨hz, sched, hs, rfl⟩⟩ := sleepThread_cases he
    · simp [hidle] at hcall
    · simp [hidle] at hcall
    · refine ⟨hpublish hs, .asleep ?_ (.inl ?_) fun hpos => absurd ?_ hz⟩
      · simp [asleep]
      · simp [asleep]
      · simpa [asleep] using hpos
  | sleepCheck u =>
    obtain rfl : u = t := by simpa [Act.caller] using hc
    obtain ⟨-, -, ⟨-, rfl⟩ | ⟨-, rfl⟩ | ⟨-, rfl⟩ | ⟨hz, sched, hs, rfl⟩⟩ := sleepCheck_cases he
    · simp at hcall
    · simp at hcall
    · simp at hcall
    · refine ⟨hpublish hs, .asleep ?_ (.inl ?_) fun hpos => absurd ?_ hz⟩
      · simp [asleep]
      · simp [asleep]
      · simpa [asleep] using hpos
  | suspendThread c u =>
    obtain rfl : c = .fiber t := Option.some.inj hc
    obtain ⟨hidle, -, rfl | rfl⟩ := suspendThread_cases he
    · simp [hidle] at hcall
    · simp at hcall
  | suspendFiber c =>
    obtain rfl : c = .fiber t := Option.some.inj hc
    obtain ⟨u, -, ⟨-, -, rfl⟩ | ⟨-, -, sched, -, rfl⟩ | ⟨-, sched, -, rfl⟩⟩ := suspendFiber_cases he
    all_goals simp at hcall
  | suspendReturn u =>
    obtain rfl : u = t := by simpa [Act.caller] using hc
    obtain ⟨-, -, rfl | rfl⟩ := suspendReturn_cases he
    · simp at hcall
    · simp at hcall
  | resumeThread c u =>
    obtain rfl : c = .fiber t := Option.some.inj hc
    obtain ⟨hidle, rfl | ⟨-, rfl⟩⟩ := resumeThread_cases he
    · simp [hidle] at hcall
    · simp at hcall
  | resumeRead c =>
    obtain rfl : c = .fiber t := Option.some.inj hc
    obtain ⟨u, -, ⟨-, rfl⟩ | ⟨-, rfl⟩⟩ := resumeRead_cases he
    · simp at hcall
    · simp at hcall
  | resumeClear c =>
    obtain rfl : c = .fiber t := Option.some.inj hc
    obtain ⟨u, -, sched, -, rfl⟩ := resumeClear_cases he
    simp at hcall
  | wakeupThread c u =>
    obtain rfl : c = .fiber t := Option.some.inj hc
    obtain ⟨hidle, rfl | ⟨s1, rfl, ⟨-, -, rfl⟩ | ⟨-, rfl⟩⟩⟩ := wakeupThread_cases he
    · simp [hidle] at hcall
    · simp at hcall
    · simp [hidle] at hcall
  | cancelWakeupThread c u =>
    obtain rfl : c = .fiber t := Option.some.inj hc
    obtain ⟨hidle, rfl⟩ := cancelWakeupThread_cases he
    simp [hidle] at hcall
  | releaseWaitThread c u =>
    obtain rfl : c = .fiber t := Option.some.inj hc
    obtain ⟨hidle, rfl | ⟨-, rfl⟩⟩ := releaseWaitThread_cases he
    · simp [hidle] at hcall
    · simp at hcall
  | makeReady c =>
    obtain rfl : c = .fiber t := Option.some.inj hc
    obtain ⟨u, -, sched, -, rfl⟩ := makeReady_cases he
    simp at hcall
  | scheduler b => cases hc
  | terminateThread u => cases hc
  | setThreadWaiting u w =>
    obtain rfl : u = t := by simpa [Act.caller] using hc
    obtain ⟨hidle, -, rfl⟩ := ownRecord_cases he
    simp [hidle] at hcall
  | clearThreadWaiting u =>
    obtain rfl : u = t := by simpa [Act.caller] using hc
    obtain ⟨hidle, -, rfl⟩ := ownRecord_cases he
    simp [hidle] at hcall
  | consumeForceRelease u =>
    obtain rfl : u = t := by simpa [Act.caller] using hc
    obtain ⟨hidle, -, rfl⟩ := ownRecord_cases he
    simp [hidle] at hcall
  | runAgain u =>
    obtain rfl : u = t := by simpa [Act.caller] using hc
    obtain ⟨hidle, -, rfl⟩ := ownRecord_cases he
    simp [hidle] at hcall

/-- **The `make_ready` of a call** wakes its thread, unless the thread is suspended. -/
theorem woken_makeReady {sched : Sched.State} (hsound : Sound s.sched) (hst : Started s t)
    (hs : Sched.step fuel s.sched (.makeReady t) = some sched) : Woken sched t := by
  obtain ⟨l, hi⟩ := hsound.inv
  have hcase := Sched.wakeup_cases hi hst.live (.inl rfl) hs
  by_cases hz : (s.sched.fibers t).suspendCount = 0
  · rw [if_pos hz] at hcase
    exact .inr (Sched.kept_of_wakeLocked hcase)
  · rw [if_neg hz] at hcase
    subst hcase
    exact .inr fun h => absurd h hz

/-- **The `clear_suspend` of a call** always does. -/
theorem woken_clearSuspend {sched : Sched.State} (hst : Started s t)
    (hs : Sched.step fuel s.sched (.clearSuspend t) = some sched) : Woken sched t := by
  unfold Sched.step at hs
  split at hs
  · cases hs
  · simp only [Sched.State.clearSuspend, hst.live, if_true] at hs
    exact .inr (Sched.kept_of_wakeLocked hs)

section

variable (h : Asleep s t)

include h

/-- A `WakeupThread`. If it sends no wakeup, the record does not say that the thread is asleep, and
one is on its way; or the thread is suspended. -/
theorem Asleep.wakeupThread (he : s.wakeupThread c t = some s') : Asleep s' t := by
  obtain ⟨hidle, rfl | ⟨s1, rfl, ⟨-, -, rfl⟩ | ⟨hn, rfl⟩⟩⟩ := wakeupThread_cases he
  · exact h
  · refine .awakened (by simp [endWait]) (.of_call (c := c) (k := .waking t) rfl ?_)
    simp [Call.wakes]
  · have hkeep : ∀ {s1}, s1 = (s.setInfo t fun info =>
        { info with wakeupCount := info.wakeupCount + 1 }).setTally t
        (fun tally => { tally with accepted := tally.accepted + 1 }) → Coming s t → Coming s1 t := by
      rintro _ rfl hc
      refine hc.of_eq id ?_ rfl
      simp [State.guestCount]
    cases h with
    | asleep hw hs _ =>
      have hpos : 0 < s.guestCount t := by
        obtain hs | ⟨-, hpos⟩ := hs
        · exact absurd ⟨hs, hw⟩ hn
        · exact hpos
      have hc := hkeep rfl (.inr (.inl hpos))
      refine .asleep (by simpa using hw) (.inr ⟨?_, ?_⟩) fun _ => hc
      · obtain hs | ⟨hs, -⟩ := hs
        · exact absurd ⟨hs, hw⟩ hn
        · simpa using hs
      · simpa [State.guestCount] using hpos
    | awakened hw hc => exact .awakened (by simpa using hw) (hkeep rfl hc)

theorem Asleep.resumeThread (he : s.resumeThread c t = some s') : Asleep s' t := by
  obtain ⟨-, rfl | ⟨hz, rfl⟩⟩ := resumeThread_cases he
  · exact h
  · have hc : Coming ((s.setInfo t (resumed c t)).setCall c (.resuming t)) t :=
      .of_call (c := c) (k := .resuming t) rfl (by simp [Call.wakes])
    cases h with
    | asleep hw hs _ =>
      refine .asleep (by simpa [resumed] using hw) ?_ fun _ => hc
      -- at 0 the record says again that the thread waits
      by_cases hz' : (s.info t).suspendCount - 1 = 0
      · simp [resumed, hz', hw]
      · obtain hs | ⟨hs, -⟩ := hs
        · simp [resumed, hz', hs]
        · refine .inr ⟨by simp [resumed, hz', hs], ?_⟩
          simp only [State.guestCount, setCall_info, setInfo_info, if_true, resumed]
          omega
    | awakened hw _ => exact .awakened (by simpa [resumed] using hw) hc

theorem Asleep.suspendThread (he : s.suspendThread c t = some s') : Asleep s' t := by
  obtain ⟨-, -, rfl | rfl⟩ := suspendThread_cases he
  · exact h
  · have hpos : 0 < ((s.setInfo t fun info => applySuspendStatusLocked
        { info with suspendCount := info.suspendCount + 1 }).setCall c (.suspending t)).guestCount t := by
      simp [State.guestCount, applySuspendStatusLocked]
    cases h with
    | asleep hw _ _ =>
      refine .asleep ?_ (.inr ⟨?_, hpos⟩) fun _ => .inr (.inl hpos)
      · simpa [applySuspendStatusLocked] using hw
      · simp [applySuspendStatusLocked, hw]
    | awakened hw _ =>
      exact .awakened (by simpa [applySuspendStatusLocked] using hw) (.inr (.inl hpos))

theorem Asleep.setInfo (hg : ∀ info, (g info).waitType = info.waitType ∧ (g info).status = info.status ∧
      (g info).suspendCount = info.suspendCount)
    (hw : 0 < (g (s.info t)).wakeupCount → 0 < (s.info t).wakeupCount) :
    Asleep (s.setInfo t g) t := by
  have hc : Coming s t → Coming (s.setInfo t g) t := fun hc => by
    refine hc.of_eq id ?_ rfl
    simp [State.guestCount, hg]
  cases h with
  | asleep hwt hs hcoming =>
    refine .asleep (by simpa [hg] using hwt) ?_ fun hpos => hc (hcoming (hw (by simpa using hpos)))
    simpa [State.guestCount, hg] using hs
  | awakened hwt hcoming => exact .awakened (by simpa [hg] using hwt) (hc hcoming)

theorem Asleep.ownRecord (hu : some (Caller.fiber u) ≠ some (.fiber t)) (hw : Woken s.sched t → Woken s'.sched t)
    (he : s.ownRecord u g = some s') : Asleep s' t := by
  have hu : t ≠ u := fun h => hu (by rw [h])
  obtain ⟨-, -, rfl⟩ := ownRecord_cases he
  exact h.keep (by simp [hu]) fun hc => hc.of_eq hw (by simp [State.guestCount, hu]) rfl

end

section

variable (hsound : Sound s.sched) (hst : Started s t)

include hsound hst

/-- **One step of another caller.** -/
theorem Asleep.step (hcall : s.call (.fiber t) = .sleeping) (hcaller : a.caller ≠ some (.fiber t)) (h : Asleep s t)
    (hw : Woken s.sched t → Woken s'.sched t) (he : step fuel s a = some s') : Asleep s' t := by
  cases a with
  | scheduler b =>
    simp only [Threads.step] at he
    split at he
    · obtain ⟨sched, -, rfl⟩ := scheduler_cases he
      exact h.keep rfl fun hc => hc.of_eq hw rfl rfl
    · cases he
  | suspendThread c u =>
    by_cases hu : u = t
    · subst hu
      exact h.suspendThread he
    · obtain ⟨hidle, -, rfl | rfl⟩ := suspendThread_cases he
      · exact h
      · refine h.keep (by simp [Ne.symm hu]) fun hc => hc.of_setCall hw ?_ rfl ?_
        · simp [State.guestCount, Ne.symm hu]
        · simp [hidle, Call.wakes]
  | suspendFiber c =>
    obtain ⟨u, hsus, ⟨-, -, rfl⟩ | ⟨-, -, sched, -, rfl⟩ | ⟨-, sched, -, rfl⟩⟩ := suspendFiber_cases he
    all_goals
      refine h.keep rfl fun hc => hc.of_setCall hw rfl rfl ?_
      simp [hsus, Call.wakes]
  | suspendReturn u =>
    have hu : t ≠ u := fun hu => hcaller (by rw [hu, Act.caller])
    obtain ⟨hpark, -, rfl | rfl⟩ := suspendReturn_cases he
    · refine h.keep rfl fun hc => hc.of_setCall hw rfl rfl ?_
      simp [hpark, Call.wakes]
    · refine h.keep (by simp [hu]) fun hc => hc.of_setCall hw ?_ rfl ?_
      · simp [State.guestCount, hu]
      · simp [hpark, Call.wakes]
  | resumeThread c u =>
    by_cases hu : u = t
    · subst hu
      exact h.resumeThread he
    · obtain ⟨hidle, rfl | ⟨-, rfl⟩⟩ := resumeThread_cases he
      · exact h
      · refine h.keep (by simp [Ne.symm hu]) fun hc => hc.of_setCall hw ?_ rfl ?_
        · simp [State.guestCount, Ne.symm hu]
        · simp [hidle, Call.wakes]
  | resumeRead c =>
    obtain ⟨u, hres, hc⟩ := resumeRead_cases he
    by_cases hu : u = t
    · subst hu
      obtain ⟨-, rfl⟩ | ⟨hz, rfl⟩ := hc
      · refine h.keep rfl fun _ => .of_call (c := c) (k := .clearing u) rfl ?_
        simp [Call.wakes]
      · refine h.keep rfl fun _ => .inr (.inl ?_)
        exact Nat.pos_of_ne_zero hz
    · obtain ⟨-, rfl⟩ | ⟨-, rfl⟩ := hc
      all_goals
        refine h.keep rfl fun hc => hc.of_setCall hw rfl rfl ?_
        simp [hres, Call.wakes, hu]
  | resumeClear c =>
    obtain ⟨u, hclr, sched, hs, rfl⟩ := resumeClear_cases he
    by_cases hu : u = t
    · subst hu
      exact h.keep rfl fun _ => .inl (woken_clearSuspend hst hs)
    · refine h.keep rfl fun hc => hc.of_setCall hw rfl rfl ?_
      simp [hclr, Call.wakes, hu]
  | sleepThread u =>
    have hu : t ≠ u := fun hu => hcaller (by rw [hu, Act.caller])
    obtain ⟨hidle, -, rfl | ⟨-, rfl⟩ | ⟨-, sched, -, rfl⟩⟩ := sleepThread_cases he
    · exact h
    · exact h.keep (by simp [hu]) fun hc => hc.of_eq hw (by simp [State.guestCount, hu]) rfl
    · refine h.keep (by simp [hu]) fun hc => hc.of_setCall hw ?_ rfl ?_
      · simp [State.guestCount, hu]
      · simp [hidle, Call.wakes]
  | sleepCheck u =>
    have hu : t ≠ u := fun hu => hcaller (by rw [hu, Act.caller])
    obtain ⟨hsl, -, ⟨-, rfl⟩ | ⟨-, rfl⟩ | ⟨-, rfl⟩ | ⟨-, sched, -, rfl⟩⟩ := sleepCheck_cases he
    · exact h.keep rfl fun hc => hc.of_setCall hw rfl rfl (by simp [hsl, Call.wakes])
    · refine h.keep (by simp [hu]) fun hc => hc.of_setCall hw ?_ rfl ?_
      · simp [State.guestCount, hu]
      · simp [hsl, Call.wakes]
    · refine h.keep (by simp [hu]) fun hc => hc.of_setCall hw ?_ rfl ?_
      · simp [State.guestCount, hu]
      · simp [hsl, Call.wakes]
    · exact h.keep (by simp [hu]) fun hc => hc.of_eq hw (by simp [State.guestCount, hu]) rfl
  | wakeupThread c u =>
    by_cases hu : u = t
    · subst hu
      exact h.wakeupThread he
    · obtain ⟨hidle, rfl | ⟨s1, rfl, ⟨-, -, rfl⟩ | ⟨-, rfl⟩⟩⟩ := wakeupThread_cases he
      · exact h
      · refine h.keep (by simp [Ne.symm hu]) fun hc => hc.of_setCall (c := c) (k := .waking u) hw ?_ rfl ?_
        · simp [State.guestCount, Ne.symm hu]
        · simp [hidle, Call.wakes]
      · exact h.keep (by simp [Ne.symm hu]) fun hc =>
          hc.of_eq hw (by simp [State.guestCount, Ne.symm hu]) rfl
  | cancelWakeupThread c u =>
    obtain ⟨-, rfl⟩ := cancelWakeupThread_cases he
    by_cases hu : u = t
    · subst hu
      have h' : Asleep (s.setInfo u fun info => { info with wakeupCount := 0 }) u :=
        h.setInfo (fun _ => ⟨rfl, rfl, rfl⟩) fun hpos => by simp at hpos
      exact h'.keep rfl fun hc => hc.of_eq id rfl rfl
    · exact h.keep (by simp [Ne.symm hu]) fun hc =>
        hc.of_eq hw (by simp [State.guestCount, Ne.symm hu]) rfl
  | releaseWaitThread c u =>
    obtain ⟨hidle, rfl | ⟨-, rfl⟩⟩ := releaseWaitThread_cases he
    · exact h
    · by_cases hu : u = t
      · subst hu
        refine .awakened (by simp [endWait]) (.of_call (c := c) (k := .waking u) rfl ?_)
        simp [Call.wakes]
      · refine h.keep (by simp [Ne.symm hu]) fun hc => hc.of_setCall hw ?_ rfl ?_
        · simp [State.guestCount, Ne.symm hu]
        · simp [hidle, Call.wakes]
  | makeReady c =>
    obtain ⟨u, hwk, sched, hs, rfl⟩ := makeReady_cases he
    by_cases hu : u = t
    · subst hu
      exact h.keep rfl fun _ => .inl (woken_makeReady hsound hst hs)
    · refine h.keep rfl fun hc => hc.of_setCall hw rfl rfl ?_
      simp [hwk, Call.wakes, hu]
  | terminateThread u =>
    simp only [Threads.step] at he
    split at he
    · cases he
      exact h
    · cases he
      by_cases hu : u = t
      · subst hu
        exact h.setInfo (fun _ => ⟨rfl, rfl, rfl⟩) id
      · exact h.keep (by simp [Ne.symm hu]) fun hc =>
          hc.of_eq hw (by simp [State.guestCount, Ne.symm hu]) rfl
  | setThreadWaiting u w => exact h.ownRecord hcaller hw he
  | clearThreadWaiting u => exact h.ownRecord hcaller hw he
  | consumeForceRelease u => exact h.ownRecord hcaller hw he
  | runAgain u => exact h.ownRecord hcaller hw he

/-- **One step.** -/
theorem Sleeps.step (h : s.call (.fiber t) = .sleeping → Sleeps s t) (he : step fuel s a = some s')
    (hcall' : s'.call (.fiber t) = .sleeping) : Sleeps s' t := by
  by_cases hc : a.caller = some (.fiber t)
  · exact sleeps_of_caller hc hcall' he
  · have hcall : s.call (.fiber t) = .sleeping := (step_call hc he).symm.trans hcall'
    have ha : a ≠ .sleepCheck t := by
      rintro rfl
      exact hc rfl
    obtain ⟨hwaits, hwoken⟩ := waits_step hsound hcall (h hcall).waits ha he
    exact ⟨hwaits, (h hcall).record.step hsound hst hcall hc hwoken he⟩

end

/-! ### Runs -/

theorem run_conserved (h0 : Conserved s₀ t) (h : Run Step s₀ as s) : Conserved s t :=
  h.state_invariant (I := fun s => Conserved s t) h0 fun _ _ _ hc ⟨_, he⟩ => hc.step he

/-- **Wakeups are conserved and not missed**, in every run in which each `clear_suspend` of the
thread comes in time. Where no fiber runs, none is queued and no call on the thread is under way,
it does not sleep while it is not suspended and has a permit. -/
theorem sleep_wakeup (h0 : s₀.Initial) (hb : s₀.guestCount t = 0 ↔ s₀.fiberCount t = 0)
    (hz : (s₀.info t).wakeupCount = 0) (ht : s₀.tally t = {}) (h : Run (StepInTime t) s₀ as s) :
    (s.info t).wakeupCount = (s.tally t).accepted - (s.tally t).slept - (s.tally t).discarded ∧
    0 ≤ (s.info t).wakeupCount ∧
    (s.sched.runningFiber = none → s.sched.runQueue = none →
      (∀ c, (s.call c).target ≠ some t ∧ s.call c ≠ .waking t) →
      ¬(s.call (.fiber t) = .sleeping ∧ s.guestCount t = 0 ∧ 0 < (s.info t).wakeupCount)) := by
  have hinit : Conserved s₀ t := ⟨by rw [hz, ht]; rfl, by rw [hz]⟩
  have hcons := run_conserved hinit (h.mono fun _ _ _ hs => hs.1)
  refine ⟨hcons.count, hcons.nonneg, fun hr hq hidle ⟨hcall, hguest, hpos⟩ => ?_⟩
  obtain ⟨hsound, hbal, hsleeps⟩ := h.state_invariant
    (I := fun s => Sound s.sched ∧ Balance s t ∧ (s.call (.fiber t) = .sleeping → Sleeps s t))
    ⟨h0.sound, .initial h0 hb, fun hc => by simp [h0.call] at hc⟩
    fun s a s' ⟨hs, hbal, hsl⟩ ⟨⟨fuel, he⟩, hst, hin⟩ =>
      ⟨hs.step he, hbal.step hs hst hin he, Sleeps.step hs hst hsl he⟩
  obtain ⟨l, hi⟩ := hsound.inv
  have hfiber := (hbal.settled fun c => (hidle c).1).1 hguest
  have hcoming : Coming s t := by
    cases (hsleeps hcall).record with
    | asleep _ _ hc => exact hc hpos
    | awakened _ hc => exact hc
  obtain hwoken | hg | ⟨c, hc⟩ := hcoming
  · have hwaits := (hsleeps hcall).waits
    have hlive : t ∈ s.sched.fiberMap := by
      obtain hp | ⟨hrun, -⟩ := hwaits
      · exact (hsound.placed t).live hp
      · simp [hr] at hrun
    have := hwoken.suspended hi hlive hr hq
    rw [State.fiberCount] at hfiber
    omega
  · omega
  · have hne := hidle c
    cases hk : s.call c <;> simp_all [Call.wakes, Call.target]

/-- Thread 1 sleeps, parks, and is woken up. -/
theorem oneThread_sleep_wakeup :
    ∃ s as, Run (StepInTime 1) oneThread as s ∧ s.call (.fiber 1) = .sleeping ∧
      (s.info 1).wakeupCount = 1 ∧
      (s.info 1).wakeupCount = (s.tally 1).accepted - (s.tally 1).slept - (s.tally 1).discarded := by
  have h₁ : Run (StepInTime 1) oneThread [.sleepThread 1] (oneThreadAfter _) :=
    .snoc .nil ⟨step_oneThread [] _ (by decide), by decide, fun c h => by cases h⟩
  have h₂ := Run.snoc h₁ ⟨step_oneThread _ (.scheduler (.armPark 1)) (by decide), by decide, fun c h => by cases h⟩
  have h₃ := Run.snoc h₂ ⟨step_oneThread _ (.scheduler (.blockCurrent 1)) (by decide), by decide, fun c h => by cases h⟩
  have h₄ := Run.snoc h₃ ⟨step_oneThread _ (.scheduler .executorPost) (by decide), by decide, fun c h => by cases h⟩
  have h₅ := Run.snoc h₄ ⟨step_oneThread _ (.wakeupThread (.host 0) 1) (by decide), by decide, fun c h => by cases h⟩
  have h₆ := Run.snoc h₅ ⟨step_oneThread _ (.makeReady (.host 0)) (by decide), by decide, fun c h => by cases h⟩
  exact ⟨_, _, h₆, by decide, by decide, (sleep_wakeup oneThread_initial (by decide) rfl rfl h₆).1⟩

/-- **A wakeup that is missed.** After a `clear_suspend` that came late the scheduler's count of
thread 1 is 1 and the guest's is 0. Thread 1 goes to sleep, a host thread wakes it up, and the
scheduler drops the wakeup. -/
theorem sleep_wakeup_missed :
    ¬∀ (s₀ s : State) (as : List Act) (t : Tid), s₀.Initial →
      (s₀.guestCount t = 0 ↔ s₀.fiberCount t = 0) → (s₀.info t).wakeupCount = 0 →
      s₀.tally t = {} → Run (fun s a s' => Step s a s' ∧ Started s t) s₀ as s →
      s.sched.runningFiber = none → s.sched.runQueue = none →
      (∀ c, (s.call c).target ≠ some t ∧ s.call c ≠ .waking t) →
      ¬(s.call (.fiber t) = .sleeping ∧ s.guestCount t = 0 ∧ 0 < (s.info t).wakeupCount) := by
  intro h
  have hrun := run_started (lateClear ++ [.sleepThread 1, .scheduler (.armPark 1),
    .scheduler (.blockCurrent 1), .scheduler .executorPost, .wakeupThread (.host 0) 1,
    .makeReady (.host 0)]) (by decide)
  have hidle := run_calls (P := fun k => k.target ≠ some 1 ∧ k ≠ .waking 1)
    (hrun.mono fun _ _ _ hs => hs.1) (fun _ => by simp [oneThread, Call.target]) (by decide)
  exact h _ _ _ 1 oneThread_initial (by decide) rfl rfl hrun (by decide) (by decide) hidle (by decide)

end Ps2Recomp.Threads
