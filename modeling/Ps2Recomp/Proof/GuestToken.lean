import Ps2Recomp.Proof.RunQueue

/-!
# One guest at a time

A fiber runs, or a host worker has the guest token, never both. The executor looks at the token
before it switches to a fiber, and a worker looks at the running fiber before it takes the token,
each under the lock; all other sections leave the token alone and start no fiber.
-/

namespace Ps2Recomp.Sched

open Intrusive Transition
open State

variable {s s' s₀ : State} {t : Tid} {fuel : ℕ} {a : Act} {as : List Act} {l : List Tid}

/-- What the other sections do not write. -/
def State.host (s : State) : (Bool × (ℕ → Bool) × (ℕ → WorkerPc)) × Bool × Bool × Option Tid :=
  (s.token, s.fatal, s.stop, s.runningFiber)

theorem State.Rewrites.host {fc : FiberContext} (h : Rewrites s t fc s') : s'.host = s.host :=
  h.field _ fun _ _ _ => rfl

theorem yieldTo_host {gives : ℤ → ℤ → Bool} (he : s.yieldTo gives fuel t = some s') : s'.host = s.host := by
  obtain ⟨-, rfl | ⟨s1, he1, rfl⟩⟩ := yieldTo_form he
  · rfl
  · exact (enqueueLocked_rewrites he1).host

theorem createFiber_host {p : ℤ} (he : s.createFiber fuel t p = some s') : s'.host = s.host := by
  rw [createFiber] at he
  split at he
  · cases he
  · exact (enqueueLocked_rewrites he).host

theorem shutdown_host {order : List Tid} (he : s.schedulerShutdown fuel order = some s') :
    s'.host = State.host { s with stop := true } :=
  schedulerShutdown_induction (P := fun s' => s'.host = State.host { s with stop := true })
    (fun _ _ _ _ _ hw h => hw.host.trans h) he rfl

theorem executorPost_host (he : s.executorPost fuel = some s') :
    s'.token = s.token ∧ s'.fatal = s.fatal ∧ s'.stop = s.stop ∧ s'.runningFiber = none := by
  obtain ⟨t, -, hw | rfl⟩ := executorPost_rewrites he
  · have h := hw.host
    simp only [host, Prod.mk.injEq] at h
    exact h
  · exact ⟨rfl, rfl, rfl, rfl⟩

theorem executorWait_host (he : s.executorWait = some s') : s'.token = s.token ∧ s'.fatal = s.fatal ∧ s'.stop = s.stop ∧
    (s'.runningFiber = s.runningFiber ∨ s.guestTokenHeldByHost = false) := by
  obtain ⟨-, rfl | ⟨d, g, rfl | ⟨-, hh, t, s1, hp, rfl⟩⟩⟩ := executorWait_cases he
  · exact ⟨rfl, rfl, rfl, .inl rfl⟩
  · exact ⟨rfl, rfl, rfl, .inl rfl⟩
  · obtain ⟨-, c, rfl⟩ := popHeadLocked_form hp
    exact ⟨rfl, rfl, rfl, .inr hh⟩

/-- **The other sections** leave the token alone, start a fiber only if no worker has it, and,
except for `scheduler_shutdown`, do not stop the scheduler. -/
theorem step_host (hi : Inv s l) (ha : a.quiet = false) (he : step fuel s a = some s') :
    s'.token = s.token ∧ s'.fatal = false ∧ (s'.stop = s.stop ∨ ∃ order, a = .schedulerShutdown order) ∧
      (s'.runningFiber = s.runningFiber ∨ s'.runningFiber = none ∨ s.guestTokenHeldByHost = false) := by
  have hfatal : s.fatal = false := by
    unfold step at he
    split at he
    · cases he
    · next hf => simpa using hf
  have hhost : ∀ {s1 : State}, s1.host = s.host → s1.token = s.token ∧ s1.fatal = false ∧
      (s1.stop = s.stop ∨ ∃ order, a = .schedulerShutdown order) ∧
      (s1.runningFiber = s.runningFiber ∨ s1.runningFiber = none ∨ s.guestTokenHeldByHost = false) := by
    intro s1 h
    simp only [host, Prod.mk.injEq] at h
    exact ⟨h.1, h.2.1.trans hfatal, .inl h.2.2.1, .inl h.2.2.2⟩
  cases ho : a.own with
  | some t =>
    have hown := own_step ho he
    refine ⟨hown.token, ?_, .inl hown.stop, .inl hown.runningFiber⟩
    -- the fiber that executes is not queued, which `join_fiber` relies on
    have hidle := hi.not_mem_of_executing hown.resuming hown.executing
    have hflag := hi.queue.flag_eq_false (hi.live_of_resuming hown.resuming) hidle
    by_contra hf
    obtain hf | hf := hown.fatal (by simpa using hf)
    · simp [hfatal] at hf
    · simp [hflag] at hf
  | none =>
    cases hw : a.woken with
    | some t =>
      obtain ⟨_, _, hw⟩ := woken_rewrites hw he
      exact hhost hw.host
    | none =>
      unfold step at he
      split at he
      · cases he
      · cases a <;> cases ho <;> cases hw <;> cases ha
        · obtain ⟨h1, h2, h3, h4⟩ := executorWait_host he
          exact ⟨h1, h2.trans hfatal, .inl h3, h4.imp id .inr⟩
        · obtain ⟨h1, h2, h3, h4⟩ := executorPost_host he
          exact ⟨h1, h2.trans hfatal, .inl h3, .inr (.inl h4)⟩
        · exact hhost (yieldTo_host he)
        · exact hhost (yieldTo_host he)
        · exact hhost (createFiber_host he)
        · obtain ⟨_, _, hw⟩ := updatePriority_rewrites he
          exact hhost hw.host
        · obtain ⟨_, hw⟩ := suspendOther_rewrites he
          exact hhost hw.host
        · obtain rfl | ⟨c, rfl⟩ := rotateReadyQueue_form he
          · exact hhost rfl
          · exact hhost rfl
        · simp only at he
          split at he
          · have h := shutdown_host he
            simp only [host, Prod.mk.injEq] at h
            exact ⟨h.1, h.2.1.trans hfatal, .inr ⟨_, rfl⟩, .inl h.2.2.2⟩
          · cases he

/-- Only `scheduler_shutdown` stops the scheduler. -/
theorem step_stop (hi : Inv s l) (ha : ∀ order, a ≠ .schedulerShutdown order)
    (he : step fuel s a = some s') : s'.stop = s.stop := by
  cases hq : a.quiet with
  | true => exact (quiet_step hq he).2.2.2.2.2.1
  | false =>
    obtain h | ⟨order, h⟩ := (step_host hi hq he).2.2.1
    · exact h
    · exact absurd h (ha order)

/-- **The invariant of the guest token.** -/
structure TokenInv (s : State) : Prop where
  exclusive : s.guestTokenHeldByHost = true → s.runningFiber = none
  held : ∀ w, s.tlsHoldsGuestToken w = true → s.guestTokenHeldByHost = true
  unique : ∀ w w', s.tlsHoldsGuestToken w = true → s.tlsHoldsGuestToken w' = true → w = w'
  owned : s.guestTokenHeldByHost = true → ∃ w, s.tlsHoldsGuestToken w = true
  holding : ∀ w, s.worker w = .holding ↔ s.tlsHoldsGuestToken w = true
  fatal : s.fatal = false

namespace TokenInv

section

variable (h : TokenInv s)

include h

theorem congr (ht : s'.token = s.token) (hf : s'.fatal = false)
    (hr : s'.runningFiber = s.runningFiber ∨ s'.runningFiber = none ∨
      s.guestTokenHeldByHost = false) : TokenInv s' := by
  simp only [token, Prod.mk.injEq] at ht
  obtain ⟨ht1, ht2, ht3⟩ := ht
  refine ⟨fun hh => ?_, ?_, ?_, ?_, ?_, hf⟩
  · rw [ht1] at hh
    obtain hr | hr | hr := hr
    · rw [hr]
      exact h.exclusive hh
    · exact hr
    · rw [hr] at hh
      cases hh
  · rw [ht1, ht2]
    exact h.held
  · rw [ht2]
    exact h.unique
  · rw [ht1, ht2]
    exact h.owned
  · rw [ht2, ht3]
    exact h.holding

theorem asyncGuestBegin {w : ℕ} (he : s.asyncGuestBegin w = some s') : TokenInv s' := by
  rw [State.asyncGuestBegin] at he
  split at he
  · next hw =>
    cases he
    refine ⟨h.exclusive, h.held, h.unique, h.owned, fun v => ?_, h.fatal⟩
    rw [← h.holding v]
    by_cases hv : v = w
    · subst hv
      simp [hw]
    · simp [hv]
  · cases he

theorem asyncGuestGrant {w : ℕ} (he : s.asyncGuestGrant w = some s') : TokenInv s' := by
  rw [State.asyncGuestGrant] at he
  split at he
  · next hw =>
    obtain ⟨-, hr, hh⟩ := hw
    cases he
    -- nobody had the token
    have hnone : ∀ v, s.tlsHoldsGuestToken v = false := by
      intro v
      by_contra hv
      have := h.held v (by simpa using hv)
      rw [hh] at this
      cases this
    have hiff : ∀ v, Function.update s.tlsHoldsGuestToken w true v = true ↔ v = w := by
      intro v
      by_cases hv : v = w
      · simp [hv]
      · simp [hv, hnone v]
    refine ⟨fun _ => hr, fun _ _ => rfl, fun v v' hv hv' => ?_, fun _ => ⟨w, (hiff w).2 rfl⟩, fun v => ?_, h.fatal⟩
    · rw [(hiff v).1 hv, (hiff v').1 hv']
    · simp only [hiff v]
      by_cases hv : v = w
      · simp [hv]
      · have := h.holding v
        simp [hnone v] at this
        simp [hv, this]
  · cases he

theorem asyncGuestEnd {w : ℕ} (he : s.asyncGuestEnd w = some s') : TokenInv s' := by
  rw [State.asyncGuestEnd] at he
  split at he
  · next hw =>
    have htls := (h.holding w).1 hw
    rw [if_neg (by simp [htls, h.held w htls])] at he
    cases he
    have hfalse : ∀ v, Function.update s.tlsHoldsGuestToken w false v = false := by
      intro v
      by_cases hv : v = w
      · simp [hv]
      · rw [Function.update_of_ne hv]
        by_contra hvt
        exact hv (h.unique v w (by simpa using hvt) htls)
    refine ⟨fun hh => (by cases hh), fun v hv => ?_, fun v v' hv => ?_, fun hh => (by cases hh), fun v => ?_, h.fatal⟩
    · simp [hfalse v] at hv
    · simp [hfalse v] at hv
    · simp only [hfalse v]
      by_cases hv : v = w
      · simp [hv]
      · have hvw : s.worker v ≠ .holding := fun hvh => hv (h.unique v w ((h.holding v).1 hvh) htls)
        simp [hv, hvw]
  · cases he

end

/-- **One step.** -/
theorem step (hi : Inv s l) (h : TokenInv s) (he : step fuel s a = some s') : TokenInv s' := by
  cases hq : a.quiet with
  | false =>
    obtain ⟨ht, hf, -, hr⟩ := step_host hi hq he
    exact h.congr ht hf hr
  | true =>
    unfold Sched.step at he
    split at he
    · cases he
    · cases a <;> cases hq
      · simp only [executorFreed] at he
        split at he
        · cases he
          exact h.congr rfl h.fatal (.inl rfl)
        · cases he
      · exact h.asyncGuestBegin he
      · exact h.asyncGuestGrant he
      · exact h.asyncGuestEnd he

end TokenInv

theorem run_token (h0 : s₀.Initial) (h : Run Step s₀ as s) : TokenInv s := by
  have hinit : TokenInv s₀ :=
    ⟨fun _ => h0.runningFiber, fun w hw => (by simp [h0.tlsHoldsGuestToken] at hw),
      fun w _ hw => (by simp [h0.tlsHoldsGuestToken] at hw),
      fun hh => (by simp [h0.guestTokenHeldByHost] at hh),
      fun w => (by simp [h0.worker, h0.tlsHoldsGuestToken]), h0.fatal⟩
  have key := h.state_invariant (I := fun s => (∃ l, Inv s l) ∧ TokenInv s)
    ⟨⟨[], .initial h0⟩, hinit⟩ fun s a s' ⟨⟨l, hl⟩, ht⟩ ⟨fuel, he⟩ => by
      obtain ⟨l', h', -⟩ := hl.step he
      exact ⟨⟨l', h'⟩, ht.step hl he⟩
  exact key.2

/-- **Guest execution is mutually exclusive.** In every reachable state of the executor, the
fibers and any number of workers, a fiber does not run while a worker has the token, at most one
worker has it, one has it exactly when the flag is set, and no `SCHED_REQUIRE` has failed. -/
theorem guest_execution_exclusive (h0 : s₀.Initial) (h : Run Step s₀ as s) :
    ¬(s.runningFiber ≠ none ∧ s.guestTokenHeldByHost = true) ∧
    (∀ w w', s.tlsHoldsGuestToken w = true → s.tlsHoldsGuestToken w' = true → w = w') ∧
    ((∃ w, s.tlsHoldsGuestToken w = true) ↔ s.guestTokenHeldByHost = true) ∧
    s.fatal = false := by
  have ht := run_token h0 h
  exact ⟨fun ⟨hr, hh⟩ => hr (ht.exclusive hh), ht.unique, ⟨fun ⟨w, hw⟩ => ht.held w hw, ht.owned⟩, ht.fatal⟩

/-- Two workers and a fiber that yields to them. -/
theorem two_workers_exclusive :
    let as : List Act := [.createFiber 1 10, .executorWait, .asyncGuestBegin 0, .asyncGuestBegin 1,
      .yieldToWorker 1, .executorPost, .asyncGuestGrant 1, .executorWait, .asyncGuestEnd 1,
      .asyncGuestGrant 0]
    ∃ s, Run Step State.init as s ∧ s.tlsHoldsGuestToken 0 = true ∧
      ¬(s.runningFiber ≠ none ∧ s.guestTokenHeldByHost = true) := by
  intro as
  have hrun : Run Step State.init as (stateAfter 2 as) := run_stateAfter (by decide)
  exact ⟨_, hrun, by decide, (guest_execution_exclusive State.init_initial hrun).1⟩

end Ps2Recomp.Sched
