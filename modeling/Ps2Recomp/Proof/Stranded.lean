import Mathlib.Data.Finset.Card
import Ps2Recomp.Proof.Sema
import Ps2Recomp.Proof.Suspend
import Ps2Recomp.Proof.Waiting

/-!
# Permits that nobody takes

A signal wakes the thread that it takes off the wait-list, and no other. If that thread does not
come for the permit, because it is suspended, released or terminated, the permit stays and the
threads on the list sleep on. Apart from that no permit is stranded (`permit_not_stranded`).

`Inv` says that every fiber in a wait is on the wait-list, or woken, or its wakeup is still to be
made; `Covered`, that there are as many threads that are going to take a permit as there are
permits, if somebody is on the list.
-/

namespace Ps2Recomp.SemaSched

open Transition
open Sched (Tid Waits Woken Back Untouched)
open Threads (Caller Sound)
open Threads.State (byFiber)
open Sema (Token SemaInfo Counted Place)

variable {s s' s₀ : State} {t u : Tid} {c : Caller} {o : ℕ} {x : SemaInfo} {fuel : ℕ} {a : Act}
  {as : List Act} {b : Sched.Act} {sched' : Sched.State} {sema' : Sema.State} {released : Bool}

/-! ### Threads on the wait-list and off it -/

/-- The thread is on the wait-list. -/
def Listed (x : SemaInfo) (t : Tid) : Prop := t ∈ x.waitList.map Prod.fst

theorem listed_publish (x : SemaInfo) (t : Tid) (token : Token) :
    Listed (x.publish (.fiber t) token) u ↔ Listed x u ∨ u = t := by
  simp [Listed, SemaInfo.publish]

theorem listed_unpublish (x : SemaInfo) (hu : u ≠ t) : Listed (x.unpublish (.fiber t)) u ↔ Listed x u := by
  simp only [Listed, SemaInfo.unpublish, List.mem_map]
  constructor
  · rintro ⟨e, he, rfl⟩
    exact ⟨e, List.mem_of_mem_eraseP he, rfl⟩
  · rintro ⟨e, he, rfl⟩
    exact ⟨e, (List.mem_eraseP_of_neg (by simpa using hu)).2 he, rfl⟩

/-! ### The invariant -/

/-- **Every wait ends once it is signalled**, unless its fiber is suspended. -/
structure Inv (s : State) : Prop where
  sound : Sound s.sched
  sema : ∃ W, Counted s.sema W
  waits : ∀ t o, s.sema.place (.fiber t) = .blocked o → Waits s.sched t
  token : ∀ o < s.sema.created, ∀ e ∈ (s.sema.sema o).waitList, e.2 = s.sched.makeFiberToken e.1
  woken : ∀ t o, s.sema.place (.fiber t) = .blocked o →
    Listed (s.sema.sema o) t ∨ Woken s.sched t ∨ (t, s.sched.makeFiberToken t) ∈ s.wakeups

theorem live_of_waits {s : Sched.State} (h : Sound s) (hw : Waits s t) : t ∈ s.fiberMap := by
  obtain ⟨l, hl⟩ := h.inv
  obtain hp | hback := hw
  · exact (h.placed t).live hp
  · exact hl.live t hback.1

theorem step_makeFiberToken {s s' : Sched.State} (h : Sound s) (hw : Waits s t)
    (hb : ∀ order, b ≠ .schedulerShutdown order) (he : Sched.step fuel s b = some s') :
    s'.makeFiberToken t = s.makeFiberToken t := by
  obtain ⟨l, hl⟩ := h.inv
  rw [Sched.State.makeFiberToken, Sched.step_generation hl (live_of_waits h hw) hb he]
  rfl

variable {p : Place}

namespace Inv

theorem initial (h0 : s.Initial) : Inv s := by
  obtain ⟨s1, bs, h1, hr⟩ := h0.sched
  refine ⟨⟨(Sched.run_placed h1 hr).1, (Sched.run_placed h1 hr).2, h0.stop⟩, ⟨_, .initial h0.sema⟩,
    fun t o hp => ?_, fun o ho => ?_, fun t o hp => ?_⟩
  · simp [h0.sema.place] at hp
  · rw [h0.sema.created] at ho
    cases ho
  · simp [h0.sema.place] at hp

/-- **A section of the scheduler.** -/
theorem sched (h : Inv s) (hb : ∀ order, b ≠ .schedulerShutdown order)
    (hown : ∀ t o, s.sema.place (.fiber t) = .blocked o → Back s.sched t → byFiber b ≠ some t)
    (he : Sched.step fuel s.sched b = some sched') : Inv { s with sched := sched' } := by
  obtain ⟨l, hl⟩ := h.sound.inv
  obtain ⟨W, hW⟩ := h.sema
  refine ⟨h.sound.sched hb he, h.sema, fun t o hp => ?_, fun o ho e hmem => ?_, fun t o hp => ?_⟩
  · exact (h.waits t o hp).step hl (h.sound.placed t) (hown t o hp) hb he
  · have hw := h.waits e.1 o (hW.blocked ho hmem)
    exact (h.token o ho e hmem).trans (step_makeFiberToken h.sound hw hb he).symm
  · have hw := h.waits t o hp
    obtain hl' | hwk | hwk := h.woken t o hp
    · exact .inl hl'
    · exact .inr (.inl (hwk.step hl (h.sound.placed t) hw (hown t o hp) hb he))
    · refine .inr (.inr ?_)
      show (t, sched'.makeFiberToken t) ∈ s.wakeups
      rwa [step_makeFiberToken h.sound hw hb he]

section

variable (h : Inv s) (hc : ∃ W, Counted sema' W)

include h hc

theorem calm (hplace : sema'.place = s.sema.place)
    (hlist : ∀ o < s.sema.created, (sema'.sema o).waitList = (s.sema.sema o).waitList)
    (hnew : ∀ o < sema'.created, s.sema.created ≤ o → (sema'.sema o).waitList = []) : Inv { s with sema := sema' } := by
  obtain ⟨W, hW⟩ := h.sema
  refine ⟨h.sound, hc, fun t o hp => h.waits t o (hplace ▸ hp), fun o ho e hmem => ?_, fun t o hp => ?_⟩
  · have hmem' : e ∈ (sema'.sema o).waitList := hmem
    by_cases ho' : o < s.sema.created
    · exact h.token o ho' e (hlist o ho' ▸ hmem')
    · rw [hnew o ho (by omega)] at hmem'
      cases hmem'
  · have hp' : s.sema.place (.fiber t) = .blocked o := hplace ▸ hp
    obtain hl | hwk := h.woken t o hp'
    · refine .inl ?_
      show t ∈ (sema'.sema o).waitList.map Prod.fst
      rw [hlist o (hW.inv.created_of_blocked hp')]
      exact hl
    · exact .inr hwk

theorem moved (hsema : sema'.sema = Function.update s.sema.sema o x)
    (hplace : sema'.place = Function.update s.sema.place c p)
    (hcreated : sema'.created = s.sema.created)
    (hlist : ∀ u, Caller.fiber u ≠ c → (Listed x u ↔ Listed (s.sema.sema o) u))
    (htoken : ∀ e ∈ x.waitList, e ∈ (s.sema.sema o).waitList ∨ Caller.fiber e.1 = c ∧ e.2 = s.currentFiberToken c)
    (hsched : (sched' = s.sched ∧ ∀ t o, c = .fiber t → p ≠ .blocked o) ∨
      ∃ t, c = .fiber t ∧ p = .blocked o ∧ Listed x t ∧ Sched.Step s.sched (.publish t) sched') :
    Inv ⟨sched', sema', s.wakeups⟩ := by
  have hsound : Sound sched' := by
    obtain ⟨rfl, -⟩ | ⟨t, -, -, -, fuel, he⟩ := hsched
    · exact h.sound
    · exact h.sound.sched (by simp) he
  -- all fibers other than the caller are left alone
  have hother : ∀ u, Caller.fiber u ≠ c → Untouched s.sched u sched' := by
    intro u hu
    obtain ⟨rfl, -⟩ | ⟨t, rfl, -, -, fuel, he⟩ := hsched
    · exact .refl _ u
    · obtain ⟨l, hl⟩ := h.sound.inv
      refine Sched.step_untouched hl (fun ht => hu ?_) he
      have ht' : t = u := by simpa [Sched.Touches, Sched.Act.own, Sched.Act.woken] using ht
      rw [ht']
  have htok : ∀ u, sched'.makeFiberToken u = s.sched.makeFiberToken u := by
    intro u
    obtain ⟨rfl, -⟩ | ⟨t, -, -, -, fuel, he⟩ := hsched
    · rfl
    · obtain ⟨-, rfl⟩ := Sched.publish_step he
      rfl
  have hself : ∀ u o', Caller.fiber u = c → p = .blocked o' → o' = o ∧ Listed x u ∧ (sched'.pc u).published = true := by
    intro u o' hu hp
    obtain ⟨-, hno⟩ | ⟨t, rfl, hp', hl, fuel, he⟩ := hsched
    · exact absurd hp (hno u o' hu.symm)
    · cases hu
      rw [hp'] at hp
      cases hp
      obtain ⟨-, rfl⟩ := Sched.publish_step he
      exact ⟨rfl, hl, by simp [Sched.FiberPc.published]⟩
  refine ⟨hsound, hc, fun u o' hp => ?_, fun o' ho e hmem => ?_, fun u o' hp => ?_⟩
  · simp only [hplace] at hp
    by_cases hu : Caller.fiber u = c
    · rw [hu, Function.update_self] at hp
      exact .inl (hself u o' hu hp).2.2
    · rw [Function.update_of_ne hu] at hp
      exact (h.waits u o' hp).untouched (hother u hu)
  · show e.2 = sched'.makeFiberToken e.1
    rw [htok]
    simp only [hcreated] at ho
    simp only [hsema] at hmem
    by_cases ho' : o' = o
    · subst ho'
      rw [Function.update_self] at hmem
      obtain hmem | ⟨rfl, he⟩ := htoken e hmem
      · exact h.token o' ho e hmem
      · exact he
    · rw [Function.update_of_ne ho'] at hmem
      exact h.token o' ho e hmem
  · simp only [hplace] at hp
    show Listed (sema'.sema o') u ∨ Woken sched' u ∨ (u, sched'.makeFiberToken u) ∈ s.wakeups
    rw [hsema, htok]
    by_cases hu : Caller.fiber u = c
    · rw [hu, Function.update_self] at hp
      obtain ⟨rfl, hl, -⟩ := hself u o' hu hp
      rw [Function.update_self]
      exact .inl hl
    · rw [Function.update_of_ne hu] at hp
      obtain hl | hwk | hwk := h.woken u o' hp
      · refine .inl ?_
        by_cases ho' : o' = o
        · subst ho'
          rw [Function.update_self]
          exact (hlist u hu).2 hl
        · rwa [Function.update_of_ne ho']
      · exact .inr (.inl (hwk.untouched (hother u hu)))
      · exact .inr (.inr hwk)

end

end Inv

/-! ### The sections, case by case -/

theorem settle_cases (he : s.settle fuel c sema' = some s') :
    s' = ⟨s'.sched, sema', s.wakeups⟩ ∧
      ((s'.sched = s.sched ∧ ∀ t o, c = .fiber t → sema'.place c ≠ .blocked o) ∨
        ∃ t o, c = .fiber t ∧ sema'.place c = .blocked o ∧ Sched.step fuel s.sched (.publish t) = some s'.sched) := by
  unfold State.settle at he
  split at he
  · next t o hp =>
    obtain ⟨sched, hs, rfl⟩ := Option.map_eq_some_iff.1 he
    exact ⟨rfl, .inr ⟨t, o, rfl, hp, hs⟩⟩
  · next hno =>
    cases he
    refine ⟨rfl, .inl ⟨rfl, fun t o hc hp => ?_⟩⟩
    subst hc
    exact hno t o rfl hp

theorem waitSema_cases (he : s.waitSema fuel c o released = some s') :
    ∃ sema', s.sema.waitSema c o (s.currentFiberToken c) released = some sema' ∧ s.settle fuel c sema' = some s' := by
  rw [State.waitSema] at he
  split at he
  · exact Option.bind_eq_some_iff.1 he
  · cases he

theorem wake_cases (he : s.wake fuel c released = some s') :
    ∃ sema', s.sema.wake c (s.currentFiberToken c) released = some sema' ∧ s.settle fuel c sema' = some s' := by
  rw [State.wake] at he
  split at he
  · exact Option.bind_eq_some_iff.1 he
  · cases he

theorem onSema_cases {b : Sema.Act} (he : s.onSema b = some s') :
    ∃ sema', Sema.step s.sema b = some sema' ∧ s' = { s with sema := sema' } := by
  obtain ⟨sema', hs, rfl⟩ := Option.map_eq_some_iff.1 he
  exact ⟨sema', hs, rfl⟩

/-- **What a section of `WaitSema` does**: the caller moves on the semaphore `o`, which is `x` then.
It goes into the wait if the count is 0, and otherwise stays out of it. -/
structure Move (s : State) (c : Caller) (o : ℕ) (x : SemaInfo) (p : Place) (sema' : Sema.State) :
    Prop where
  sema : sema'.sema = Function.update s.sema.sema o x
  place : sema'.place = Function.update s.sema.place c p
  created : sema'.created = s.sema.created
  listed : ∀ u, Caller.fiber u ≠ c → (Listed x u ↔ Listed (s.sema.sema o) u)
  token : ∀ e ∈ x.waitList, e ∈ (s.sema.sema o).waitList ∨ Caller.fiber e.1 = c ∧ e.2 = s.currentFiberToken c
  target : p = .idle ∨ p = .blocked o ∧ ∀ t, c = .fiber t → Listed x t
  count : x.count ≤ (s.sema.sema o).count

theorem Inv.move (h : Inv s) (hm : Move s c o x p sema') (hc : ∃ W, Counted sema' W)
    (he : s.settle fuel c sema' = some s') : Inv s' := by
  obtain ⟨hs', hsched⟩ := settle_cases he
  have hp : sema'.place c = p := by rw [hm.place, Function.update_self]
  rw [hp] at hsched
  rw [hs']
  refine h.moved hc hm.sema hm.place hm.created hm.listed hm.token ?_
  obtain ⟨hs, hno⟩ | ⟨t, o', rfl, hp', hs⟩ := hsched
  · exact .inl ⟨hs, hno⟩
  · obtain rfl | ⟨rfl, hl⟩ := hm.target
    · cases hp'
    · exact .inr ⟨t, rfl, rfl, hl t rfl, fuel, hs⟩

/-! ### What a section of `WaitSema` does -/

/-- The head of the loop of `WaitSema`, on the semaphore `x`. -/
theorem Move.loopHead (sema1 : Sema.State) (released : Bool) (hsema : sema1.sema = Function.update s.sema.sema o x)
    (hplace : sema1.place = s.sema.place) (hcreated : sema1.created = s.sema.created)
    (hlisted : ∀ u, Caller.fiber u ≠ c → (Listed x u ↔ Listed (s.sema.sema o) u))
    (htoken : ∀ e ∈ x.waitList, e ∈ (s.sema.sema o).waitList) (hcount : x.count ≤ (s.sema.sema o).count) : ∃ x' p,
    x'.count = x.count ∧ Move s c o x' p (sema1.loopHead c o (s.currentFiberToken c) released) := by
  obtain he | he := Sema.loopHead_cases sema1 c o (s.currentFiberToken c) released
  · rw [he]
    refine ⟨x, .idle, rfl, ?_, ?_, ?_, hlisted, fun e he => .inl (htoken e he), .inl rfl, hcount⟩
    · simp [hsema]
    · simp [hplace]
    · simp [Sema.State.leave, Sema.State.setPlace, Sema.State.setExit, hcreated]
  · rw [he]
    have hx : sema1.sema o = x := by rw [hsema, Function.update_self]
    refine ⟨x.publish c (s.currentFiberToken c), .blocked o, ?_, ?_, ?_, hcreated, fun u hu => ?_,
      fun e he => ?_, .inr ⟨rfl, ?_⟩, ?_⟩
    · cases c <;> rfl
    · show Function.update sema1.sema o ((sema1.sema o).publish c _) = _
      rw [hx, hsema, Function.update_idem]
    · show Function.update sema1.place c (.blocked o) = _
      rw [hplace]
    · rw [← hlisted u hu]
      cases c with
      | host n => exact Iff.rfl
      | fiber t =>
        rw [listed_publish]
        have hut : u ≠ t := fun h => hu (by rw [h])
        simp [hut]
    · cases c with
      | host n => exact .inl (htoken e he)
      | fiber t =>
        simp only [SemaInfo.publish, List.mem_append, List.mem_singleton] at he
        obtain he | rfl := he
        · exact .inl (htoken e he)
        · exact .inr ⟨rfl, rfl⟩
    · rintro t rfl
      exact (listed_publish x t _).2 (.inr rfl)
    · cases c <;> exact hcount

theorem move_waitSema (he : s.sema.waitSema c o (s.currentFiberToken c) released = some sema') : s.sema.place c =
    .idle ∧ ∃ x p, Move s c o x p sema' ∧ (x.count ≤ 0 ∨ ∀ e ∈ x.waitList, e ∈ (s.sema.sema o).waitList) := by
  obtain ⟨hidle, -, rfl | ⟨x, hx, rfl⟩ | ⟨hx, rfl⟩⟩ := Sema.waitSema_cases he
  · refine ⟨hidle, s.sema.sema o, .idle, ⟨?_, ?_, rfl, fun _ _ => Iff.rfl, fun _ h => .inl h,
      .inl rfl, le_rfl⟩, .inr fun _ h => h⟩
    · exact (Function.update_eq_self o _).symm
    · rw [← hidle]
      exact (Function.update_eq_self c _).symm
  · obtain ⟨-, hx'⟩ | ⟨-, hx'⟩ := Sema.take_cases (x := s.sema.sema o)
    · rw [hx'] at hx
      cases hx
      refine ⟨hidle, _, .idle, ⟨Sema.grant_sema, Sema.grant_place, ?_, fun _ _ => Iff.rfl,
        fun _ h => .inl h, .inl rfl, ?_⟩, .inr fun _ h => h⟩
      · simp [Sema.State.grant, Sema.State.leave, Sema.State.setPlace, Sema.State.setExit,
          Sema.State.setSema, Sema.State.setLedger]
      · show (s.sema.sema o).count - 1 ≤ (s.sema.sema o).count
        omega
    · rw [hx'] at hx
      cases hx
  · have hzero : (s.sema.sema o).count ≤ 0 := by
      obtain ⟨-, hx'⟩ | ⟨hz, -⟩ := Sema.take_cases (x := s.sema.sema o)
      · rw [hx'] at hx
        cases hx
      · exact hz
    obtain ⟨x', p, hcount, hm⟩ := Move.loopHead (s := s) (c := c) (o := o) (x := s.sema.sema o)
      (s.sema.onRecord c (Threads.setThreadWaiting .sema)) released
      (by simp) (by simp) (by simp) (fun _ _ => Iff.rfl) (fun _ h => h) le_rfl
    exact ⟨hidle, x', p, hm, .inl (by omega)⟩

/-- The caller leaves the wait without a permit. -/
def Leaves (s : State) (c : Caller) (o : ℕ) : Prop :=
  (s.sema.sema o).deleted = true ∨ s.sema.flag c (·.forceRelease) = true ∨ s.sema.flag c (·.terminated) = true

theorem move_wake (he : s.sema.wake c (s.currentFiberToken c) released = some sema') :
    ∃ o, s.sema.place c = .blocked o ∧ ∃ x p, Move s c o x p sema' ∧
      (x.count ≤ 0 ∨ (∀ e ∈ x.waitList, e ∈ (s.sema.sema o).waitList) ∧
        (x.count + 1 ≤ (s.sema.sema o).count ∨ Leaves s c o)) := by
  obtain ⟨o, s1, hp, rfl, hcase⟩ := Sema.wake_cases he
  refine ⟨o, hp, ?_⟩
  have hlisted : ∀ u, Caller.fiber u ≠ c → (Listed ((s.sema.sema o).unpublish c) u ↔ Listed (s.sema.sema o) u) := by
    intro u hu
    cases c with
    | host n => exact Iff.rfl
    | fiber t => exact listed_unpublish _ fun h => hu (by rw [h])
  have hsub : ∀ e ∈ ((s.sema.sema o).unpublish c).waitList, e ∈ (s.sema.sema o).waitList := by
    intro e he
    cases c with
    | host n => exact he
    | fiber t => exact List.mem_of_mem_eraseP he
  have hcount : ((s.sema.sema o).unpublish c).count = (s.sema.sema o).count := by cases c <;> rfl
  -- leaving without a permit
  have hleave : ∀ sema', sema'.sema = Function.update s.sema.sema o ((s.sema.sema o).unpublish c) →
      sema'.place = Function.update s.sema.place c .idle → sema'.created = s.sema.created →
      Move s c o ((s.sema.sema o).unpublish c) .idle sema' := fun sema' h1 h2 h3 =>
    ⟨h1, h2, h3, hlisted, fun e he => .inl (hsub e he), .inl rfl, hcount.le⟩
  obtain ⟨hd, rfl⟩ | ⟨hf, rfl⟩ | ⟨ht, rfl⟩ | ⟨x, hx, rfl⟩ | ⟨hx, rfl⟩ := hcase
  · refine ⟨_, _, hleave _ ?_ ?_ ?_, .inr ⟨hsub, .inr (.inl hd)⟩⟩
    · simp [Sema.State.setSema]
    · simp [Sema.State.setSema]
    · simp [Sema.State.leave, Sema.State.setPlace, Sema.State.setExit, Sema.State.setSema]
  · refine ⟨_, _, hleave _ ?_ ?_ ?_, .inr ⟨hsub, .inr (.inr (.inl hf))⟩⟩
    · simp [Sema.State.setSema]
    · simp [Sema.State.setSema]
    · simp [Sema.State.leave, Sema.State.setPlace, Sema.State.setExit, Sema.State.setSema]
  · exact ⟨_, _, hleave _ rfl rfl rfl, .inr ⟨hsub, .inr (.inr (.inr ht))⟩⟩
  · obtain ⟨-, hx'⟩ | ⟨-, hx'⟩ := Sema.take_cases (x := (s.sema.sema o).unpublish c)
    · rw [hx'] at hx
      cases hx
      refine ⟨{ (s.sema.sema o).unpublish c with count := ((s.sema.sema o).unpublish c).count - 1 },
        .idle, ⟨?_, ?_, ?_, hlisted, fun e he => .inl (hsub e he), .inl rfl, ?_⟩, .inr ⟨hsub, .inl ?_⟩⟩
      · simp [Sema.State.setSema]
      · simp [Sema.State.setSema]
      · simp [Sema.State.grant, Sema.State.leave, Sema.State.setPlace, Sema.State.setExit,
          Sema.State.setSema, Sema.State.setLedger]
      · show ((s.sema.sema o).unpublish c).count - 1 ≤ (s.sema.sema o).count
        omega
      · show ((s.sema.sema o).unpublish c).count - 1 + 1 ≤ (s.sema.sema o).count
        omega
    · rw [hx'] at hx
      cases hx
  · have hzero : ((s.sema.sema o).unpublish c).count ≤ 0 := by
      obtain ⟨-, hx'⟩ | ⟨hz, -⟩ := Sema.take_cases (x := (s.sema.sema o).unpublish c)
      · rw [hx'] at hx
        cases hx
      · exact hz
    obtain ⟨x', p, hcount', hm⟩ := Move.loopHead (s := s) (c := c) (o := o)
      (x := (s.sema.sema o).unpublish c) (s.sema.setSema o ((s.sema.sema o).unpublish c)) released
      rfl rfl rfl hlisted hsub hcount.le
    exact ⟨x', p, hm, .inl (by omega)⟩

/-! ### Permits and the threads that come for them -/

/-- `t` was taken off the wait-list and is going to look for a permit. -/
structure Comes (s : State) (o : ℕ) (t : Tid) : Prop where
  place : s.sema.place (.fiber t) = .blocked o
  listed : ¬Listed (s.sema.sema o) t
  unsuspended : (s.sched.fibers t).suspendCount = 0

/-- At least `n` threads come for a permit. -/
def Enough (s : State) (o : ℕ) (n : ℤ) : Prop :=
  ∃ w : Finset Tid, (∀ u ∈ w, Comes s o u) ∧ n ≤ w.card

/-- At least `n` threads other than `t` come for a permit. -/
def EnoughOthers (s : State) (o : ℕ) (t : Tid) (n : ℤ) : Prop :=
  ∃ w : Finset Tid, t ∉ w ∧ (∀ u ∈ w, Comes s o u) ∧ n ≤ w.card

/-- **Every permit has a thread that comes for it**, if there is a thread on the wait-list. -/
def Covered (s : State) (o : ℕ) : Prop :=
  (s.sema.sema o).waitList = [] ∨ Enough s o (s.sema.sema o).count

/-- A thread that does not come any more is not missed. -/
def Spared (s : State) (o : ℕ) (t : Tid) : Prop :=
  (s.sema.sema o).waitList = [] ∨ EnoughOthers s o t (s.sema.sema o).count

/-- **The condition**: no step takes away a thread that somebody else sleeps on for. A signal does
not take a suspended thread off the list, and a thread that comes for a permit is not suspended and
does not leave without one, unless nobody is on the list or enough others come. -/
def PassesOn (s : State) : Act → Prop
  | .signalSema o => ∀ e l, (s.sema.sema o).waitList = e :: l → l = [] ∨
      (s.sema.sema o).maxCount ≤ (s.sema.sema o).count ∨ (s.sched.fibers e.1).suspendCount = 0 ∨
      Enough s o ((s.sema.sema o).count + 1)
  | .wake (.fiber t) _ => ∀ o, Comes s o t → Leaves s (.fiber t) o → Spared s o t
  | .scheduler (.suspendOther t) => ∀ o, Comes s o t → Spared s o t
  | _ => True

theorem covered_of {n : ℤ} (hl : (s.sema.sema o).waitList = [] → (s'.sema.sema o).waitList = [])
    (hn : (s'.sema.sema o).count ≤ n) (hcomes : ∀ u, Comes s o u → Comes s' o u)
    (h : (s.sema.sema o).waitList = [] ∨ Enough s o n) : Covered s' o := by
  obtain h | ⟨w, hw, hcard⟩ := h
  · exact .inl (hl h)
  · exact .inr ⟨w, fun u hu => hcomes u (hw u hu), hn.trans hcard⟩

theorem Comes.sched (h : Inv s) (hu : Comes s o u) (hb : ∀ order, b ≠ .schedulerShutdown order)
    (hallow : s.allows b = true) (hne : b ≠ .suspendOther u)
    (he : Sched.step fuel s.sched b = some sched') : Comes { s with sched := sched' } o u := by
  obtain ⟨l, hl⟩ := h.sound.inv
  have hlive := live_of_waits h.sound (h.waits u o hu.place)
  refine ⟨hu.place, hu.listed, ?_⟩
  show (sched'.fibers u).suspendCount = 0
  cases hw : b.writesCount u with
  | false => rw [Sched.step_suspendCount hl hlive hw he, hu.unsuspended]
  | true =>
    unfold Sched.step at he
    split at he
    · cases he
    · cases b <;> simp only [Sched.Act.writesCount, decide_eq_true_eq, Bool.false_eq_true] at hw
      case isFalse.suspendSelf t =>
        -- the fiber is in the wait
        subst hw
        simp [State.allows, byFiber, hu.place] at hallow
      case isFalse.requestTerminate t =>
        subst hw
        simp only [Sched.State.requestTerminate, if_pos hlive] at he
        rw [(Sched.State.wakeLocked_keeps he).suspendCount]
        simp
      case isFalse.suspendOther t =>
        subst hw
        exact absurd rfl hne
      case isFalse.clearSuspend t =>
        subst hw
        simp only [Sched.State.clearSuspend, if_pos hlive] at he
        rw [(Sched.State.wakeLocked_keeps he).suspendCount]
        simp
      case isFalse.schedulerShutdown order => exact absurd rfl (hb order)

theorem Covered.sched (h : Inv s) (hc : Covered s o) (hb : ∀ order, b ≠ .schedulerShutdown order)
    (hallow : s.allows b = true) (hpass : PassesOn s (.scheduler b))
    (he : Sched.step fuel s.sched b = some sched') : Covered { s with sched := sched' } o := by
  by_cases hsus : ∃ t, b = .suspendOther t ∧ Comes s o t
  · obtain ⟨t, rfl, ht⟩ := hsus
    obtain hnil | ⟨w, htw, hw, hcard⟩ := hpass o ht
    · exact .inl hnil
    · refine .inr ⟨w, fun u hu => (hw u hu).sched h hb hallow ?_ he, hcard⟩
      rintro ⟨⟩
      exact htw hu
  · refine covered_of (s := s) id le_rfl (fun u hu => hu.sched h hb hallow ?_ he) hc
    rintro rfl
    exact hsus ⟨u, rfl, hu⟩

theorem Covered.move {o' : ℕ} (hm : Move s c o x p sema') (hfrom : ∀ o', o' ≠ o → s.sema.place c ≠ .blocked o')
    (hx : x.count ≤ 0 ∨ (∀ e ∈ x.waitList, e ∈ (s.sema.sema o).waitList) ∧
      ((s.sema.sema o).waitList = [] ∨
        ∃ w : Finset Tid, (∀ u ∈ w, Caller.fiber u ≠ c ∧ Comes s o u) ∧ x.count ≤ w.card))
    (he : s.settle fuel c sema' = some s') (hc : Covered s o') : Covered s' o' := by
  obtain ⟨hs', hsched⟩ := settle_cases he
  have hcount : ∀ u, (s'.sched.fibers u).suspendCount = (s.sched.fibers u).suspendCount := by
    intro u
    obtain ⟨hs, -⟩ | ⟨t, o', -, -, hs⟩ := hsched
    · rw [hs]
    · rw [(Sched.publish_step hs).2]
      rfl
  have hcomes : ∀ u o', Caller.fiber u ≠ c → Comes s o' u → Comes s' o' u := by
    intro u o' hu h
    rw [hs']
    refine ⟨?_, ?_, (hcount u).trans h.unsuspended⟩
    · show sema'.place (.fiber u) = .blocked o'
      rw [hm.place, Function.update_of_ne hu]
      exact h.place
    · show ¬Listed (sema'.sema o') u
      rw [hm.sema]
      by_cases ho : o' = o
      · subst ho
        rw [Function.update_self, hm.listed u hu]
        exact h.listed
      · rw [Function.update_of_ne ho]
        exact h.listed
  by_cases ho : o' = o
  · subst ho
    have hsema : s'.sema.sema o' = x := by
      rw [hs']
      show sema'.sema o' = x
      rw [hm.sema, Function.update_self]
    rw [Covered, hsema]
    obtain hz | ⟨hsub, hnil | ⟨w, hw, hcard⟩⟩ := hx
    · exact .inr ⟨∅, by simp, by simpa using hz⟩
    · refine .inl (List.eq_nil_iff_forall_not_mem.2 fun e he => ?_)
      have hmem := hsub e he
      rw [hnil] at hmem
      cases hmem
    · exact .inr ⟨w, fun u hu => hcomes u o' (hw u hu).1 (hw u hu).2, hcard⟩
  · have hsema : s'.sema.sema o' = s.sema.sema o' := by
      rw [hs']
      show sema'.sema o' = _
      rw [hm.sema, Function.update_of_ne ho]
    refine covered_of (fun h => by rw [hsema, h]) (by rw [hsema]) (fun u hu => hcomes u o' ?_ hu) hc
    intro huc
    exact hfrom o' ho (huc ▸ hu.place)

/-! ### Steps -/

variable {d : Sema.Act}

theorem counted_sema (h : Inv s) (hd : ∀ t, d ≠ .shutdown t)
    (he : Sema.step s.sema d = some sema') : ∃ W, Counted sema' W := by
  obtain ⟨W, hW⟩ := h.sema
  exact hW.step hd he

theorem not_byFiber (hallow : s.allows b = true) (hp : s.sema.place (.fiber t) = .blocked o) (hback : Back s.sched t)
    (he : Sched.step fuel s.sched b = some sched') : byFiber b ≠ some t := by
  intro hby
  cases b with
  | armPark u =>
    cases hby
    unfold Sched.step at he
    split at he
    · cases he
    · obtain ⟨b, ⟨-, hpc⟩, -⟩ := Sched.armPark_cases he
      rw [hback.2] at hpc
      cases b <;> cases hpc
  | blockCurrent u =>
    cases hby
    unfold Sched.step at he
    split at he
    · cases he
    · obtain ⟨-, b, hpc | ⟨hpc, -⟩, -⟩ := Sched.blockCurrent_cases he
      · rw [hback.2] at hpc
        cases hpc
      · rw [hback.2] at hpc
        cases hpc
  | _ =>
    all_goals simp_all [State.allows, byFiber]

/-- Both invariants. -/
structure Safe (s : State) : Prop where
  inv : Inv s
  covered : ∀ o < s.sema.created, Covered s o

namespace Safe

section

variable (h : Safe s)

include h

theorem calm (hd : ∀ t, d ≠ .shutdown t) (hs : Sema.step s.sema d = some sema') (hplace : sema'.place = s.sema.place)
    (hlist : ∀ o < s.sema.created, (sema'.sema o).waitList = (s.sema.sema o).waitList ∧
      (sema'.sema o).count ≤ (s.sema.sema o).count)
    (hnew : ∀ o < sema'.created, s.sema.created ≤ o → (sema'.sema o).waitList = []) :
    Safe { s with sema := sema' } := by
  refine ⟨h.inv.calm (counted_sema h.inv hd hs) hplace (fun o ho => (hlist o ho).1) hnew, fun o ho => ?_⟩
  by_cases ho' : o < s.sema.created
  · obtain ⟨hl, hn⟩ := hlist o ho'
    refine covered_of (s := s) (fun h => hl.trans h) hn (fun u hu => ⟨?_, ?_, hu.unsuspended⟩) (h.covered o ho')
    · exact hplace ▸ hu.place
    · show u ∉ (sema'.sema o).waitList.map Prod.fst
      rw [hl]
      exact hu.listed
  · exact .inl (hnew o ho (by omega))

theorem createSema {param : List (BitVec 32)} (he : s.onSema (.createSema param) = some s') : Safe s' := by
  obtain ⟨sema', hs, rfl⟩ := onSema_cases he
  have hs' : sema' = s.sema.createSema param := (Option.some.inj hs).symm
  refine h.calm (by simp) hs ?_ (fun o ho => ?_) fun o ho hle => ?_
  all_goals
    rw [hs', Sema.State.createSema]
  · split
    · rfl
    · split <;> rfl
  · split
    · exact ⟨rfl, le_rfl⟩
    · split
      · exact ⟨rfl, le_rfl⟩
      · have hne : o ≠ s.sema.created := by omega
        simp [Function.update_of_ne hne]
  · rw [hs', Sema.State.createSema] at ho
    split at ho
    · omega
    · next hlen =>
      rw [if_neg hlen]
      split at ho
      · have ho' : o < s.sema.created := ho
        omega
      · have ho' : o < s.sema.created + 1 := ho
        obtain rfl : o = s.sema.created := by omega
        simp [SemaInfo.create]

theorem pollSema (he : s.onSema (.pollSema o) = some s') : Safe s' := by
  obtain ⟨sema', hs, rfl⟩ := onSema_cases he
  obtain ⟨-, rfl | ⟨x, hx, rfl⟩⟩ := Sema.pollSema_cases hs
  · exact h
  · refine h.calm (by simp) hs rfl (fun o' _ => ?_) fun o' ho' hle => ?_
    · by_cases ho : o' = o
      · subst ho
        obtain ⟨-, hx'⟩ | ⟨-, hx'⟩ := Sema.take_cases (x := s.sema.sema o')
        · rw [hx'] at hx
          cases hx
          simp [Sema.State.setSema, Sema.State.setLedger]
        · rw [hx'] at hx
          cases hx
      · simp [Sema.State.setSema, Sema.State.setLedger, ho]
    · have ho'' : o' < s.sema.created := ho'
      omega

theorem info (hd : ∀ t, d ≠ .shutdown t) (he : s.onSema d = some s') (hinfo : ∀ sema', Sema.step s.sema d = some sema' →
      sema' = s.sema ∨ ∃ t f, sema' = s.sema.setInfo t f) : Safe s' := by
  obtain ⟨sema', hs, rfl⟩ := onSema_cases he
  obtain rfl | ⟨t, f, rfl⟩ := hinfo sema' hs
  · exact h
  · refine h.calm hd hs rfl (fun _ _ => ⟨rfl, le_rfl⟩) fun o ho hle => ?_
    have ho' : o < s.sema.created := ho
    omega

theorem scheduler (hallow : s.allows b = true) (hpass : PassesOn s (.scheduler b))
    (he : Sched.step fuel s.sched b = some sched') : Safe { s with sched := sched' } := by
  have hb : ∀ order, b ≠ .schedulerShutdown order := by
    rintro order rfl
    cases hallow
  exact ⟨h.inv.sched hb (fun t o hp hback => not_byFiber hallow hp hback he) he,
    fun o ho => (h.covered o ho).sched h.inv hb hallow hpass he⟩

theorem wakeups_append (es : List (Tid × Token)) : Safe { s with wakeups := s.wakeups ++ es } := by
  refine ⟨⟨h.inv.sound, h.inv.sema, h.inv.waits, h.inv.token, fun t o hp => ?_⟩, fun o ho => ?_⟩
  · obtain hl | hwk | hwk := h.inv.woken t o hp
    · exact .inl hl
    · exact .inr (.inl hwk)
    · exact .inr (.inr (List.mem_append_left _ hwk))
  · exact covered_of (s := s) id le_rfl (fun u hu => ⟨hu.place, hu.listed, hu.unsuspended⟩) (h.covered o ho)

theorem popped {es : List (Tid × Token)} (hd : ∀ t, d ≠ .shutdown t)
    (hs : Sema.step s.sema d = some sema') (ho : o < s.sema.created)
    (hsema : sema'.sema = Function.update s.sema.sema o x) (hplace : sema'.place = s.sema.place)
    (hcreated : sema'.created = s.sema.created) (hlist : (s.sema.sema o).waitList = es ++ x.waitList)
    (hx : x.waitList = [] ∨ Enough ⟨s.sched, sema', s.wakeups ++ es⟩ o x.count) :
    Safe ⟨s.sched, sema', s.wakeups ++ es⟩ := by
  refine ⟨⟨h.inv.sound, counted_sema h.inv hd hs, fun t o' hp => h.inv.waits t o' (hplace ▸ hp),
    fun o' ho' e he => ?_, fun t o' hp => ?_⟩, fun o' ho' => ?_⟩
  · simp only [hcreated] at ho'
    simp only [hsema] at he
    by_cases hoo : o' = o
    · subst hoo
      rw [Function.update_self] at he
      exact h.inv.token o' ho' e (by rw [hlist]; exact List.mem_append_right _ he)
    · rw [Function.update_of_ne hoo] at he
      exact h.inv.token o' ho' e he
  · simp only [hplace] at hp
    simp only [hsema]
    obtain hl | hwk | hwk := h.inv.woken t o' hp
    · by_cases hoo : o' = o
      · subst hoo
        rw [Function.update_self]
        obtain ⟨e, he, rfl⟩ := List.mem_map.1 hl
        have htok := h.inv.token o' ho e he
        rw [hlist] at he
        obtain he | he := List.mem_append.1 he
        · -- the entry is one of those taken off
          refine .inr (.inr (List.mem_append_right _ ?_))
          rwa [← htok]
        · exact .inl (List.mem_map.2 ⟨e, he, rfl⟩)
      · rw [Function.update_of_ne hoo]
        exact .inl hl
    · exact .inr (.inl hwk)
    · exact .inr (.inr (List.mem_append_left _ hwk))
  · by_cases hoo : o' = o
    · subst hoo
      simpa only [Covered, hsema, Function.update_self] using hx
    · have hsame : sema'.sema o' = s.sema.sema o' := by rw [hsema, Function.update_of_ne hoo]
      refine covered_of (s := s) (fun h => by simpa only [hsame] using h) (by simp only [hsame]; rfl)
        (fun u hu => ⟨?_, ?_, hu.unsuspended⟩) (h.covered o' (hcreated ▸ ho'))
      · simpa only [hplace] using hu.place
      · simpa only [hsame] using hu.listed

theorem deleteSema {sid : ℤ} : Safe (s.deleteSema sid) := by
  have hs : Sema.step s.sema (.deleteSema sid) = some (s.sema.deleteSema sid) := rfl
  obtain ⟨W, hW⟩ := h.inv.sema
  rw [State.deleteSema]
  rw [Sema.State.deleteSema] at hs ⊢
  cases hl : s.sema.semas.lookup sid with
  | none => simpa only [List.append_nil] using h
  | some o =>
    simp only [hl] at hs ⊢
    have hmem : (sid, o) ∈ s.sema.semas := by
      obtain ⟨l1, l2, hl', -⟩ := List.lookup_eq_some_iff.1 hl
      rw [hl']
      simp
    have ho : o < s.sema.created := hW.inv.live _ hmem
    exact h.popped (by simp) hs ho rfl rfl rfl (by simp) (.inl rfl)

/-- **A signal.** The thread that it takes off the list comes for the permit, unless it is
suspended. -/
theorem signalSema (hpass : PassesOn s (.signalSema o)) (he : s.signalSema o = some s') : Safe s' := by
  obtain ⟨⟨woken, sema'⟩, hs, rfl⟩ := Option.map_eq_some_iff.1 he
  obtain ⟨W, hW⟩ := h.inv.sema
  have hstep : Sema.step s.sema (.signalSema o) = some sema' := by
    simp only [Sema.step, hs, Option.map_some]
  obtain ⟨ho, ⟨-, rfl, rfl⟩ | ⟨x, hx, rfl⟩⟩ := Sema.signalSema_cases hs
  · exact h.wakeups_append _
  · rw [SemaInfo.signal] at hx
    split at hx
    · cases hx
    · next hlt =>
      cases hx
      have hg := hW.inv.good o ho
      refine h.popped (by simp) hstep ho rfl rfl rfl ?_ ?_
      · cases (s.sema.sema o).waitList <;> rfl
      · cases hl : (s.sema.sema o).waitList with
        | nil => exact .inl rfl
        | cons e l =>
          have hnd : (e.1 :: l.map Prod.fst).Nodup := by
            have hnd := hg.nodup
            rwa [hl, List.map_cons] at hnd
          have hcov : Enough s o (s.sema.sema o).count := by
            refine (h.covered o ho).resolve_left ?_
            simp [hl]
          have hplace : s.sema.place (.fiber e.1) = .blocked o := hW.blocked ho (by simp [hl])
          -- those that came before the signal still come
          have hcomes : ∀ u, Comes s o u → Comes ⟨s.sched, (s.sema.setSema o { s.sema.sema o with
              count := (s.sema.sema o).count + 1, waitList := l }).setLedger o
                fun l => { l with signals := l.signals + 1 }, s.wakeups ++ [e]⟩ o u := by
            intro u hu
            refine ⟨hu.place, fun hl' => hu.listed ?_, hu.unsuspended⟩
            simp only [Listed, Sema.State.setSema, Sema.State.setLedger, Function.update_self] at hl'
            rw [Listed, hl]
            exact List.mem_cons_of_mem _ hl'
          obtain rfl | hmax | hz | ⟨w, hw, hcard⟩ := hpass e l hl
          · exact .inl rfl
          · exact absurd hmax hlt
          · obtain ⟨w, hw, hcard⟩ := hcov
            have hew : e.1 ∉ w := fun hmem => (hw _ hmem).listed (by simp [Listed, hl])
            refine .inr ⟨insert e.1 w, fun u hu => ?_, ?_⟩
            · obtain rfl | hu := Finset.mem_insert.1 hu
              · refine ⟨hplace, ?_, hz⟩
                simpa [Listed, Sema.State.setSema, Sema.State.setLedger, hl] using (List.nodup_cons.1 hnd).1
              · exact hcomes u (hw u hu)
            · rw [Finset.card_insert_of_notMem hew]
              push_cast
              exact Int.add_le_add_right hcard 1
          · exact .inr ⟨w, fun u hu => hcomes u (hw u hu), hcard⟩

/-- **A wakeup is made**: its thread is woken, unless it is suspended. -/
theorem wakeup {e : Tid × Token} (he : s.wakeup fuel e = some s') : Safe s' := by
  rw [State.wakeup] at he
  split at he
  · obtain ⟨sched', hs, rfl⟩ := Option.map_eq_some_iff.1 he
    have hpass : PassesOn s (.scheduler (.enqueueExternalWakeupValidated e.1 e.2)) := trivial
    have h' : Safe { s with sched := sched' } := h.scheduler rfl hpass hs
    obtain ⟨l, hl⟩ := h.inv.sound.inv
    refine ⟨⟨h'.inv.sound, h'.inv.sema, h'.inv.waits, h'.inv.token, fun t o hp => ?_⟩, fun o ho => ?_⟩
    · obtain hl' | hwk | hwk := h'.inv.woken t o hp
      · exact .inl hl'
      · exact .inr (.inl hwk)
      · by_cases het : (t, sched'.makeFiberToken t) = e
        · subst het
          have hw := h.inv.waits t o hp
          have hlive := live_of_waits h.inv.sound hw
          have htok : sched'.makeFiberToken t = s.sched.makeFiberToken t :=
            step_makeFiberToken h.inv.sound hw (by simp) hs
          simp only [htok] at hs
          have hwake := Sched.wakeup_cases hl hlive (.inr rfl) hs
          refine .inr (.inl (.inr ?_))
          split at hwake
          · exact Sched.kept_of_wakeLocked hwake
          · next hz =>
            subst hwake
            exact fun hz' => absurd hz' hz
        · exact .inr (.inr ((List.mem_erase_of_ne het).2 hwk))
    · exact covered_of (s := { s with sched := sched' }) id le_rfl
        (fun u hu => ⟨hu.place, hu.listed, hu.unsuspended⟩) (h'.covered o ho)
  · cases he

theorem waitSema (he : s.waitSema fuel c o released = some s') : Safe s' := by
  obtain ⟨sema', hs, hset⟩ := waitSema_cases he
  obtain ⟨hidle, x, p, hm, hx⟩ := move_waitSema hs
  have hinv := h.inv.move hm (counted_sema h.inv (d := .waitSema c o _ released) (by simp) hs) hset
  have hcreated : s'.sema.created = s.sema.created := by
    rw [(settle_cases hset).1]
    exact hm.created
  refine ⟨hinv, fun o' ho' => ?_⟩
  rw [hcreated] at ho'
  have ho : o < s.sema.created := (Sema.waitSema_cases hs).2.1
  refine (h.covered o' ho').move hm (by simp [hidle]) ?_ hset
  obtain hz | hsub := hx
  · exact .inl hz
  · refine .inr ⟨hsub, ?_⟩
    obtain hnil | ⟨w, hw, hcard⟩ := h.covered o ho
    · exact .inl hnil
    · refine .inr ⟨w, fun u hu => ⟨?_, hw u hu⟩, hm.count.trans hcard⟩
      rintro rfl
      rw [(hw u hu).place] at hidle
      cases hidle

/-- **A wait is over.** Who takes a permit takes one thread that comes with it. -/
theorem wake (hpass : PassesOn s (.wake c released)) (he : s.wake fuel c released = some s') : Safe s' := by
  obtain ⟨sema', hs, hset⟩ := wake_cases he
  obtain ⟨o, hp, x, p, hm, hx⟩ := move_wake hs
  obtain ⟨W, hW⟩ := h.inv.sema
  have hinv := h.inv.move hm (counted_sema h.inv (d := .wake c _ released) (by simp) hs) hset
  have hcreated : s'.sema.created = s.sema.created := by
    rw [(settle_cases hset).1]
    exact hm.created
  refine ⟨hinv, fun o' ho' => ?_⟩
  rw [hcreated] at ho'
  have ho : o < s.sema.created := hW.inv.created_of_blocked hp
  refine (h.covered o' ho').move hm (fun o1 ho1 hp1 => ?_) ?_ hset
  · rw [hp] at hp1
    exact ho1 (Place.blocked.inj hp1).symm
  obtain hz | ⟨hsub, hx⟩ := hx
  · exact .inl hz
  refine .inr ⟨hsub, ?_⟩
  obtain hnil | ⟨w, hw, hcard⟩ := h.covered o ho
  · exact .inl hnil
  cases c with
  | host n => exact .inr ⟨w, fun u hu => ⟨by simp, hw u hu⟩, hm.count.trans hcard⟩
  | fiber t =>
    by_cases htw : t ∈ w
    · obtain hlt | hleave := hx
      · refine .inr ⟨w.erase t, fun u hu => ⟨?_, hw u (Finset.mem_of_mem_erase hu)⟩, ?_⟩
        · simpa using Finset.ne_of_mem_erase hu
        · have hpos := Finset.card_pos.2 ⟨t, htw⟩
          rw [Finset.card_erase_of_mem htw]
          omega
      · obtain hnil | ⟨w', htw', hw', hcard'⟩ := hpass o (hw t htw) hleave
        · exact .inl hnil
        · refine .inr ⟨w', fun u hu => ⟨?_, hw' u hu⟩, hm.count.trans hcard'⟩
          rintro ⟨⟩
          exact htw' hu
    · refine .inr ⟨w, fun u hu => ⟨?_, hw u hu⟩, hm.count.trans hcard⟩
      rintro ⟨⟩
      exact htw hu

/-- **One step.** -/
theorem step (hpass : PassesOn s a) (he : step fuel s a = some s') : Safe s' := by
  cases a with
  | scheduler b =>
    simp only [SemaSched.step] at he
    split at he
    · next hallow =>
      obtain ⟨sched', hs, rfl⟩ := Option.map_eq_some_iff.1 he
      exact h.scheduler hallow hpass hs
    · cases he
  | createSema param => exact h.createSema he
  | deleteSema sid =>
    cases he
    exact h.deleteSema
  | signalSema o => exact h.signalSema hpass he
  | wakeup e => exact h.wakeup he
  | pollSema o => exact h.pollSema he
  | waitSema c o released => exact h.waitSema he
  | wake c released => exact h.wake hpass he
  | releaseWaitThread t =>
    refine h.info (by simp) he fun sema' hs => ?_
    cases hs
    rw [Sema.State.releaseWaitThread]
    split
    · exact .inr ⟨t, _, rfl⟩
    · exact .inl rfl
  | terminateThread t =>
    refine h.info (by simp) he fun sema' hs => ?_
    simp only [Sema.step] at hs
    split at hs
    · cases hs
      exact .inl rfl
    · cases hs
      exact .inr ⟨t, _, rfl⟩
  | record t info =>
    refine h.info (by simp) he fun sema' hs => ?_
    cases hs
    exact .inr ⟨t, _, rfl⟩

end

end Safe

theorem run_safe (h0 : s₀.Initial) (h : Run (fun s a s' => Step s a s' ∧ PassesOn s a) s₀ as s) : Safe s := by
  refine h.state_invariant (I := Safe) ⟨.initial h0, fun o ho => ?_⟩ fun s a s' hs ⟨⟨_, he⟩, hp⟩ =>
    hs.step hp he
  rw [h0.sema.created] at ho
  cases ho

/-- **No permit is stranded.** In every state that a run of such steps reaches, if no fiber runs,
none is queued and no wakeup is still to be made, then only suspended threads are in the wait of a
semaphore with a permit. -/
theorem permit_not_stranded (h0 : s₀.Initial)
    (h : Run (fun s a s' => Step s a s' ∧ PassesOn s a) s₀ as s)
    (hr : s.sched.runningFiber = none) (hq : s.sched.runQueue = none) (hw : s.wakeups = [])
    (hc : 0 < (s.sema.sema o).count) (hp : s.sema.place (.fiber t) = .blocked o) :
    0 < (s.sched.fibers t).suspendCount := by
  have hs := run_safe h0 h
  obtain ⟨W, hW⟩ := hs.inv.sema
  obtain ⟨l, hl⟩ := hs.inv.sound.inv
  -- whoever is off the list is suspended
  have hoff : ∀ u, s.sema.place (.fiber u) = .blocked o → ¬Listed (s.sema.sema o) u →
      0 < (s.sched.fibers u).suspendCount := by
    intro u hu hnl
    obtain hl' | hwk | hwk := hs.inv.woken u o hu
    · exact absurd hl' hnl
    · exact hwk.suspended hl (live_of_waits hs.inv.sound (hs.inv.waits u o hu)) hr hq
    · simp [hw] at hwk
  by_cases hlist : Listed (s.sema.sema o) t
  · obtain hnil | ⟨w, hw, hcard⟩ := hs.covered o (hW.inv.created_of_blocked hp)
    · simp [Listed, hnil] at hlist
    · have hpos : 0 < w.card := by omega
      obtain ⟨u, hu⟩ := Finset.card_pos.1 hpos
      have hsus := hoff u (hw u hu).place (hw u hu).listed
      rw [(hw u hu).unsuspended] at hsus
      omega
  · exact hoff t hp hlist

/-- The fiber `t` runs until it is parked in the wait of the semaphore 0. -/
def parks (t : Tid) : List Act :=
  [.scheduler .executorWait, .waitSema (.fiber t) 0 false, .scheduler (.armPark t),
    .scheduler (.blockCurrent t), .scheduler .executorPost]

/-- A thread waits. -/
def oneParked : List Act := [.createSema [0, 1, 0], .scheduler (.createFiber 1 1)] ++ parks 1

/-- Two threads wait, and a signal wakes the first. -/
def signalled : List Act :=
  [.createSema [0, 1, 0], .scheduler (.createFiber 1 1)] ++ parks 1 ++
    [.scheduler (.createFiber 2 1)] ++ parks 2 ++ [.signalSema 0, .wakeup (1, 0x100000001)]

/-- The first thread is back, leaves its wait and ends. -/
def leavesAndEnds : List Act :=
  [.scheduler .executorWait, .wake (.fiber 1) false, .scheduler (.exitFiber 1),
    .scheduler (.finishFiber 1), .scheduler .executorPost, .scheduler .executorFreed]

/-- The state after acts from the start, with two rounds for each loop. -/
def stateAfter (as : List Act) : State := after (step 2) .init as

theorem run_stateAfter (h : (as.foldlM (step 2) .init).isSome = true) : Run Step .init as (stateAfter as) :=
  (Run.of_foldlM (foldlM_eq_after h)).mono fun _ _ _ hs => ⟨2, hs⟩

theorem init_initial : State.init.Initial :=
  ⟨⟨_, _, Sched.State.init_initial, .nil⟩, rfl, ⟨rfl, rfl, fun _ => rfl⟩, rfl⟩

theorem step_stateAfter (h : ((as ++ [a]).foldlM (step 2) .init).isSome = true) :
    Step (stateAfter as) a (stateAfter (as ++ [a])) := ⟨2, after_step h⟩

/-- A suspended thread is signalled. -/
theorem suspended_not_stranded :
    0 < ((stateAfter (oneParked ++ [.scheduler (.suspendOther 1)] ++ [.signalSema 0] ++
      [.wakeup (1, 0x100000001)])).sched.fibers 1).suspendCount := by
  have hpre : Run (fun s a s' => Step s a s' ∧ PassesOn s a) .init oneParked (stateAfter oneParked) := by
    refine ((run_stateAfter (by decide)).of_labels (P := fun a => ∀ s, PassesOn s a) ?_).mono
      fun s a s' hs => ⟨hs.1, hs.2 s⟩
    simp [oneParked, parks, PassesOn]
  -- the thread is still on the list, so nobody counts on it
  have hsuspend : PassesOn (stateAfter oneParked) (.scheduler (.suspendOther 1)) := by
    intro o ho
    have h0 : (stateAfter oneParked).sema.place (.fiber 1) = .blocked 0 := by decide
    have hplace := ho.place
    rw [h0] at hplace
    cases hplace
    exact absurd (show Listed _ 1 by rw [Listed]; decide) ho.listed
  have hsignal : PassesOn (stateAfter (oneParked ++ [.scheduler (.suspendOther 1)])) (.signalSema 0) := by
    intro e l hl
    have h0 : ((stateAfter (oneParked ++ [.scheduler (.suspendOther 1)])).sema.sema 0).waitList =
        [(1, 0x100000001)] := by decide
    rw [h0] at hl
    exact .inl (List.cons.inj hl).2.symm
  have hwakeup : PassesOn (stateAfter (oneParked ++ [.scheduler (.suspendOther 1)] ++ [.signalSema 0]))
      (.wakeup (1, 0x100000001)) := trivial
  have hrun := ((hpre.snoc ⟨step_stateAfter (by decide), hsuspend⟩).snoc
    ⟨step_stateAfter (by decide), hsignal⟩).snoc ⟨step_stateAfter (by decide), hwakeup⟩
  exact permit_not_stranded (o := 0) init_initial hrun (by decide) (by decide) (by decide) (by decide) (by decide)

/-- The first thread is released before it runs: the permit stays, and the second sleeps on. -/
theorem permit_stranded : ¬∀ (s₀ : State) (as : List Act) (s : State) (o : ℕ) (t : Tid), s₀.Initial →
    Run Step s₀ as s → s.sched.runningFiber = none → s.sched.runQueue = none → s.wakeups = [] →
    0 < (s.sema.sema o).count → s.sema.place (.fiber t) = .blocked o →
    0 < (s.sched.fibers t).suspendCount := by
  intro h
  have hsus := h .init (signalled ++ [.releaseWaitThread 1, .scheduler (.makeReady 1)] ++ leavesAndEnds)
    (stateAfter (signalled ++ [.releaseWaitThread 1, .scheduler (.makeReady 1)] ++ leavesAndEnds)) 0 2
    init_initial (run_stateAfter (by decide)) (by decide) (by decide) (by decide) (by decide)
    (by decide)
  revert hsus
  decide

end Ps2Recomp.SemaSched
