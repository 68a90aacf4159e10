import Mathlib.Data.List.Perm.Basic
import Ps2Recomp.Spec.EventFlag

/-!
# Event flags in every run

`Good x w` says that the flag `x` counts the callers `w` in its wait, one at most unless it is
`EA_MULTI`; `Inv` says it of all flags. When a `WaitEventFlag` returns `KE_OK` it has done what
`PollEventFlag` would have done, unless `satisfied` was true for a flag in the caller's record
(`wait_agrees_poll`): a release that an earlier wait has left there is taken for the bits.
-/

namespace Ps2Recomp.EventFlag

open Transition
open Sched (Tid)
open Threads (Caller ThreadInfo)

variable {s s' s₀ : State} {W : ℕ → List Caller} {c d : Caller} {o : ℕ} {x x' : EventFlagInfo}
  {r : Request} {info : Option ThreadInfo} {released : Bool} {a : Act} {as : List Act} {t : Tid}

/-! ### The sections, case by case -/

variable (f : ThreadInfo → ThreadInfo)

@[simp] theorem onRecord_flag : (s.onRecord c f).flag = s.flag := by
  cases c <;> rfl

@[simp] theorem onRecord_created : (s.onRecord c f).created = s.created := by
  cases c <;> rfl

@[simp] theorem onRecord_eventFlags : (s.onRecord c f).eventFlags = s.eventFlags := by
  cases c <;> rfl

@[simp] theorem onRecord_place : (s.onRecord c f).place = s.place := by
  cases c <;> rfl

@[simp] theorem onRecord_outcome : (s.onRecord c f).outcome = s.outcome := by
  cases c <;> rfl

/-- What other calls write to a record meanwhile is a write to a record. -/
theorem meanwhile_eq (s : State) (c : Caller) (info : Option ThreadInfo) :
    ∃ f, s.meanwhile c info = s.onRecord c f := by
  cases info with
  | some info => exact ⟨_, rfl⟩
  | none =>
    refine ⟨id, ?_⟩
    cases c with
    | host n => rfl
    | fiber t =>
      show s = s.setInfo t id
      rw [State.setInfo, id, Function.update_eq_self]

/-- `WaitEventFlag` returns before it looks at the bits. -/
def Early (s : State) (c : Caller) (o : ℕ) (r : Request) : Prop :=
  r.check ≠ none ∨ (s.flag o).taken = true ∨ s.mark c (·.terminated) = true

variable {ret : Ret}

theorem check_ne_ok (h : r.check = some ret) : ret ≠ .ok := by
  rw [Request.check] at h
  split_ifs at h
  · cases h
    simp
  · cases h
    simp

theorem waitEventFlag_cases (he : s.waitEventFlag c o r info released = some s') :
    s.place c = .idle ∧ o < s.created ∧
      ((Early s c o r ∧ ∃ ret, ret ≠ .ok ∧ s' = s.returns c { ret }) ∨
        (¬Early s c o r ∧ ∃ s1, s1 = s.meanwhile c info ∧
          ((s.flag o).satisfied r (s1.marked c) = true ∧ s' = s1.leave c o r .ok ∨
            (s.flag o).satisfied r (s1.marked c) = false ∧
              s' = (s1.onRecord c (Threads.setThreadWaiting .event)).loopHead c o r released))) := by
  rw [State.waitEventFlag] at he
  split at he
  · next hc =>
    refine ⟨hc.1, hc.2, ?_⟩
    split at he
    · next ret hret =>
      cases he
      exact .inl ⟨.inl (by simp [hret]), ret, check_ne_ok hret, rfl⟩
    · next hnone =>
      split at he
      · next htaken =>
        cases he
        exact .inl ⟨.inr (.inl htaken), _, by simp, rfl⟩
      · next htaken =>
        split at he
        · next hterm =>
          cases he
          exact .inl ⟨.inr (.inr hterm), _, by simp, rfl⟩
        · next hterm =>
          have hflag : (s.meanwhile c info).flag = s.flag := by
            obtain ⟨f, hf⟩ := meanwhile_eq s c info
            rw [hf, onRecord_flag]
          refine .inr ⟨?_, _, rfl, ?_⟩
          · rintro (h | h | h)
            · exact h hnone
            · exact htaken h
            · exact hterm h
          · simp only [hflag] at he
            split at he
            · next hsat =>
              cases he
              exact .inl ⟨hsat, rfl⟩
            · next hsat =>
              cases he
              exact .inr ⟨by simpa using hsat, rfl⟩
  · cases he

/-- The wait of `WaitEventFlag` is over and ends without a look at the bits. -/
def Aborted (s : State) (c : Caller) (o : ℕ) : Prop :=
  (s.flag o).deleted = true ∨ s.mark c (·.forceRelease) = true ∨ s.mark c (·.terminated) = true

theorem wake_cases (he : s.wake c info released = some s') :
    ∃ o r s1, s.place c = .blocked o r ∧ s1 = s.setFlag o (s.flag o).less ∧
      ((Aborted s c o ∧ ((∃ f ret, ret ≠ .ok ∧ s' = (s1.onRecord c f).leave c o r ret) ∨
          s' = s1.returns c { ret := .threadExit })) ∨
        (¬Aborted s c o ∧ ∃ s2, s2 = s1.meanwhile c info ∧
          ((s.flag o).less.satisfied r (s2.marked c) = true ∧
              s' = (s2.onRecord c Threads.clearThreadWaiting).leave c o r .ok ∨
            (s.flag o).less.satisfied r (s2.marked c) = false ∧ s' = s2.loopHead c o r released))) := by
  rw [State.wake] at he
  split at he
  · cases he
  · cases he
  · next o r hc =>
    have hx : (s.setFlag o (s.flag o).less).flag o = (s.flag o).less := Function.update_self ..
    have hmark : ∀ f, (s.setFlag o (s.flag o).less).mark c f = s.mark c f := by
      intro f
      cases c <;> rfl
    refine ⟨o, r, _, hc, rfl, ?_⟩
    simp only [hx, hmark] at he
    split at he
    · next hd =>
      cases he
      exact .inl ⟨.inl hd, .inl ⟨_, _, by simp, rfl⟩⟩
    · next hd =>
      split at he
      · next hf =>
        cases he
        exact .inl ⟨.inr (.inl hf), .inl ⟨_, _, by simp, rfl⟩⟩
      · next hf =>
        split at he
        · next ht =>
          cases he
          exact .inl ⟨.inr (.inr ht), .inr rfl⟩
        · next ht =>
          have hflag : ((s.setFlag o (s.flag o).less).meanwhile c info).flag o = (s.flag o).less := by
            obtain ⟨f, hf⟩ := meanwhile_eq (s.setFlag o (s.flag o).less) c info
            rw [hf, onRecord_flag, hx]
          refine .inr ⟨?_, _, rfl, ?_⟩
          · rintro (h | h | h)
            · exact hd h
            · exact hf h
            · exact ht h
          · simp only [hflag] at he
            split at he
            · next hsat =>
              cases he
              exact .inl ⟨hsat, rfl⟩
            · next hsat =>
              cases he
              exact .inr ⟨by simpa using hsat, rfl⟩

/-! ### Agreement with `PollEventFlag` -/

/-- **A call that returns `out` has done right** to the flag `x`, which it leaves as `x'`: with
`KE_OK` the bits satisfied the wait, they are the result, and `PollEventFlag` would have done the
same; otherwise the bits are as before and there is no result. -/
structure Agrees (x : EventFlagInfo) (r : Request) (x' : EventFlagInfo) (out : Outcome) : Prop where
  holds : out.ret = .ok → x.holds r = true
  stored : out.ret = .ok → out.stored = if r.resBits then some x.bits else none
  poll : out.ret = .ok → x.poll r = (x', out)
  other : out.ret ≠ .ok → x'.bits = x.bits ∧ out.stored = none

variable {out : Outcome}

theorem agrees_of_ne_ok (hbits : x'.bits = x.bits) (hret : out.ret ≠ .ok)
    (hs : out.stored = none) : Agrees x r x' out :=
  ⟨fun h => absurd h hret, fun h => absurd h hret, fun h => absurd h hret, fun _ => ⟨hbits, hs⟩⟩

theorem agrees_waitEnd_ne_ok (h : ret ≠ .ok) : Agrees x r (x.waitEnd r ret).1 (x.waitEnd r ret).2 := by
  have he : x.waitEnd r ret = (x, { ret }) := by simp [EventFlagInfo.waitEnd, h]
  rw [he]
  exact agrees_of_ne_ok rfl h rfl

/-- The end of a `WaitEventFlag` whose `satisfied` was true: the call has done right if it was not
for the caller's record alone. -/
theorem agrees_waitEnd_ok {marked : Bool} (hcheck : r.check = none) (htaken : x.taken = false)
    (hsat : x.satisfied r marked = true) :
    Agrees x r (x.waitEnd r .ok).1 (x.waitEnd r .ok).2 ↔ (x.deleted = false → x.holds r = false → marked = false) := by
  cases hd : x.deleted with
  | true =>
    have he : x.waitEnd r .ok = (x, { ret := .waitDelete }) := by simp [EventFlagInfo.waitEnd, hd]
    rw [he]
    exact iff_of_true (agrees_of_ne_ok rfl (by simp) rfl) fun h => by cases h
  | false =>
    cases hh : x.holds r with
    | true =>
      refine iff_of_true ⟨fun _ => hh, fun _ => ?_, fun _ => ?_, fun h => ?_⟩ fun _ h => by cases h
      · simp [EventFlagInfo.waitEnd, hd]
      · simp [EventFlagInfo.waitEnd, EventFlagInfo.poll, hd, hcheck, htaken, hh]
      · simp [EventFlagInfo.waitEnd, hd] at h
    | false =>
      -- only the record can have been the reason, and the bits are what the call looked at
      have hm : marked = true := by simpa [EventFlagInfo.satisfied, hd, hh] using hsat
      refine iff_of_false (fun h => ?_) fun h => ?_
      · have hok : (x.waitEnd r .ok).2.ret = .ok := by simp [EventFlagInfo.waitEnd, hd]
        simpa [hh] using h.holds hok
      · simpa [hm] using h rfl rfl

/-! ### The waiters -/

/-- **The waiters of a flag** that counts the callers `w`. -/
structure Good (x : EventFlagInfo) (w : List Caller) : Prop where
  callers : w.Nodup
  waiters : x.waiters = w.length
  single : x.attr &&& eaMulti = 0 → w.length ≤ 1

namespace Good

variable {w : List Caller}

section

variable (h : Good x w)

include h

theorem congr (ha : x'.attr = x.attr) (hw : x'.waiters = x.waiters) : Good x' w :=
  ⟨h.callers, hw.trans h.waiters, fun hm => h.single (ha ▸ hm)⟩

theorem enter (ht : x.taken = false) (hc : c ∉ w) : Good x.enter (c :: w) := by
  refine ⟨List.nodup_cons.2 ⟨hc, h.callers⟩, ?_, fun hm => ?_⟩
  · show x.waiters + 1 = _
    rw [h.waiters, List.length_cons]
    push_cast
    rfl
  · have hz : ¬0 < x.waiters := by simpa [EventFlagInfo.taken, show x.attr &&& eaMulti = 0 from hm] using ht
    have hw := h.waiters
    rw [List.length_cons]
    omega

theorem less (hc : c ∈ w) : Good x.less (w.erase c) := by
  have hlen := List.length_erase_of_mem hc
  have hpos := List.length_pos_of_mem hc
  refine ⟨h.callers.erase _, ?_, fun hm => ?_⟩
  · show x.waiters - 1 = _
    have hw := h.waiters
    omega
  · have hs := h.single hm
    omega

/-- A flag that one may wait on is free when its waiter has come out of the wait. -/
theorem not_taken (hc : c ∈ w) : x.less.taken = false := by
  have hpos := List.length_pos_of_mem hc
  by_cases hm : x.attr &&& eaMulti = 0
  · have hs := h.single hm
    have hw := h.waiters
    have hz : ¬0 < x.waiters - 1 := by omega
    simpa [EventFlagInfo.taken, EventFlagInfo.less] using fun _ => hz
  · rw [EventFlagInfo.taken, Bool.and_eq_false_iff]
    exact .inl (decide_eq_false hm)

end

end Good

section

variable (x : EventFlagInfo) (r : Request)

theorem poll_keeps : (x.poll r).1.attr = x.attr ∧ (x.poll r).1.waiters = x.waiters := by
  rw [EventFlagInfo.poll]
  split
  · exact ⟨rfl, rfl⟩
  · split_ifs <;> exact ⟨rfl, rfl⟩

theorem waitEnd_keeps (ret : Ret) : (x.waitEnd r ret).1.attr = x.attr ∧ (x.waitEnd r ret).1.waiters = x.waiters := by
  simp only [EventFlagInfo.waitEnd]
  split_ifs <;> exact ⟨rfl, rfl⟩

end

/-- **The invariant**, with the callers that each flag counts. -/
structure Inv (s : State) (W : ℕ → List Caller) : Prop where
  good : ∀ o < s.created, Good (s.flag o) (W o)
  place : ∀ c o, (s.place c).flag = some o ↔ c ∈ W o
  empty : ∀ o, s.created ≤ o → W o = []
  live : ∀ e ∈ s.eventFlags, e.2 < s.created
  check : ∀ c o r, s.place c = .blocked o r → r.check = none

namespace Inv

section

variable (h : Inv s W)

include h

theorem mem_of_blocked (hc : s.place c = .blocked o r) : c ∈ W o := by
  rw [← h.place, hc]
  rfl

theorem created_of_mem (hc : c ∈ W o) : o < s.created := by
  by_contra ho
  rw [h.empty o (by omega)] at hc
  cases hc

theorem congr (hn : s'.created = s.created) (hp : s'.place = s.place) (hm : ∀ e ∈ s'.eventFlags, e ∈ s.eventFlags)
    (hx : ∀ o, (s'.flag o).attr = (s.flag o).attr ∧ (s'.flag o).waiters = (s.flag o).waiters) :
    Inv s' W where
  good o ho := (h.good o (hn ▸ ho)).congr (hx o).1 (hx o).2
  place c o := by rw [hp]; exact h.place c o
  empty o ho := h.empty o (hn ▸ ho)
  live e he := by rw [hn]; exact h.live e (hm e he)
  check c o r hc := h.check c o r (hp ▸ hc)

theorem setFlag (ha : x.attr = (s.flag o).attr) (hw : x.waiters = (s.flag o).waiters) : Inv (s.setFlag o x) W := by
  refine h.congr rfl rfl (fun _ he => he) fun o' => ?_
  by_cases ho : o' = o
  · subst ho
    simp [State.setFlag, ha, hw]
  · simp [State.setFlag, ho]

theorem onRecord (f : ThreadInfo → ThreadInfo) : Inv (s.onRecord c f) W :=
  h.congr (by simp) (by simp) (by simp) (by simp)

theorem enter (ho : o < s.created) (hc : s.place c = .idle) (ht : (s.flag o).taken = false) (hr : r.check = none) :
    Inv ((s.setFlag o (s.flag o).enter).setPlace c (.blocked o r)) (Function.update W o (c :: W o)) := by
  have hnot : ∀ o', c ∉ W o' := by
    intro o' hmem
    rw [← h.place, hc] at hmem
    cases hmem
  refine ⟨fun o' ho' => ?_, fun d o' => ?_, fun o' ho' => ?_, h.live, fun d o' r' hd => ?_⟩
  · by_cases heq : o' = o
    · subst heq
      simpa [State.setFlag, State.setPlace] using (h.good o' ho).enter ht (hnot o')
    · simpa [State.setFlag, State.setPlace, heq] using h.good o' ho'
  · by_cases hd : d = c
    · subst hd
      by_cases heq : o' = o
      · subst heq
        simp [State.setFlag, State.setPlace, Place.flag]
      · simp [State.setFlag, State.setPlace, Place.flag, heq, hnot o', Ne.symm heq]
    · by_cases heq : o' = o
      · subst heq
        simp [State.setFlag, State.setPlace, hd, h.place]
      · simp [State.setFlag, State.setPlace, heq, hd, h.place]
  · have heq : o' ≠ o := by
      rintro rfl
      exact absurd ho (Nat.not_lt.2 ho')
    rw [Function.update_of_ne heq]
    exact h.empty o' ho'
  · by_cases hdc : d = c
    · subst hdc
      simp only [State.setPlace, Function.update_self] at hd
      cases hd
      exact hr
    · simp only [State.setPlace, Function.update_of_ne hdc] at hd
      exact h.check d o' r' hd

theorem come (hc : s.place c = .blocked o r) :
    Inv ((s.setFlag o (s.flag o).less).setPlace c .idle) (Function.update W o ((W o).erase c)) := by
  have hmem := h.mem_of_blocked hc
  have ho := h.created_of_mem hmem
  refine ⟨fun o' ho' => ?_, fun d o' => ?_, fun o' ho' => ?_, h.live, fun d o' r' hd => ?_⟩
  · by_cases heq : o' = o
    · subst heq
      simpa [State.setFlag, State.setPlace] using (h.good o' ho).less hmem
    · simpa [State.setFlag, State.setPlace, heq] using h.good o' ho'
  · by_cases hd : d = c
    · subst hd
      by_cases heq : o' = o
      · subst heq
        simp [State.setFlag, State.setPlace, Place.flag, (h.good o' ho).callers.not_mem_erase]
      · have hnot : d ∉ W o' := by
          rw [← h.place, hc]
          simpa [Place.flag] using Ne.symm heq
        simp [State.setFlag, State.setPlace, Place.flag, heq, hnot]
    · by_cases heq : o' = o
      · subst heq
        simp [State.setFlag, State.setPlace, hd, h.place, List.mem_erase_of_ne hd]
      · simp [State.setFlag, State.setPlace, heq, hd, h.place]
  · have heq : o' ≠ o := by
      rintro rfl
      exact absurd ho (Nat.not_lt.2 ho')
    rw [Function.update_of_ne heq]
    exact h.empty o' ho'
  · by_cases hdc : d = c
    · subst hdc
      simp [State.setPlace] at hd
    · simp only [State.setPlace, Function.update_of_ne hdc] at hd
      exact h.check d o' r' hd

end

/-! ### Sections -/

section

variable (h : Inv (s.setPlace c .idle) W)

include h

theorem returns : Inv (s.returns c out) W :=
  h.congr rfl rfl (fun _ he => he) fun _ => ⟨rfl, rfl⟩

theorem leave : Inv (s.leave c o r ret) W := by
  have hk := waitEnd_keeps (s.flag o) r ret
  have h' := h.setFlag (o := o) (x := ((s.flag o).waitEnd r ret).1) hk.1 hk.2
  exact returns (h'.congr rfl rfl (fun _ he => he) fun _ => ⟨rfl, rfl⟩)

theorem idle_onRecord (f : ThreadInfo → ThreadInfo) : Inv ((s.onRecord c f).setPlace c .idle) W := by
  refine (h.onRecord (c := c) f).congr ?_ ?_ ?_ ?_
  all_goals cases c <;> simp [State.onRecord, State.setInfo, State.setPlace]

theorem loopHead (ho : o < s.created) (ht : (s.flag o).taken = false) (hr : r.check = none) :
    ∃ W', Inv (s.loopHead c o r released) W' := by
  rw [State.loopHead]
  split
  · exact ⟨W, leave (h.idle_onRecord _)⟩
  · have hc : (s.setPlace c .idle).place c = .idle := Function.update_self ..
    refine ⟨_, (h.enter ho hc ht hr).congr rfl ?_ (fun _ he => he) fun _ => ⟨rfl, rfl⟩⟩
    simp [State.setFlag, State.setPlace]

end

theorem waitEventFlag (h : Inv s W) (he : s.waitEventFlag c o r info released = some s') : ∃ W', Inv s' W' := by
  obtain ⟨hc, ho, hcase⟩ := waitEventFlag_cases he
  have hidle : Inv (s.setPlace c .idle) W := by
    refine h.congr rfl ?_ (fun _ he => he) fun _ => ⟨rfl, rfl⟩
    rw [← hc]
    exact Function.update_eq_self c s.place
  obtain ⟨-, ret, -, rfl⟩ | ⟨hearly, s1, rfl, hcase⟩ := hcase
  · exact ⟨W, hidle.returns⟩
  · obtain ⟨f, hf⟩ := meanwhile_eq s c info
    rw [hf] at hcase
    obtain ⟨-, rfl⟩ | ⟨-, rfl⟩ := hcase
    · exact ⟨W, leave (hidle.idle_onRecord f)⟩
    · refine loopHead ((hidle.idle_onRecord f).idle_onRecord _) (by simpa using ho) ?_ ?_
      · simpa [Early] using fun h => hearly (.inr (.inl h))
      · by_contra hne
        exact hearly (.inl hne)

theorem wake (h : Inv s W) (he : s.wake c info released = some s') : ∃ W', Inv s' W' := by
  obtain ⟨o, r, s1, hc, rfl, hcase⟩ := wake_cases he
  have hmem := h.mem_of_blocked hc
  have ho := h.created_of_mem hmem
  have h' := h.come hc
  obtain ⟨-, ⟨f, ret, -, rfl⟩ | rfl⟩ | ⟨-, s2, rfl, hcase⟩ := hcase
  · exact ⟨_, leave (h'.idle_onRecord f)⟩
  · exact ⟨_, h'.returns⟩
  · obtain ⟨f, hf⟩ := meanwhile_eq (s.setFlag o (s.flag o).less) c info
    rw [hf] at hcase
    obtain ⟨-, rfl⟩ | ⟨-, rfl⟩ := hcase
    · exact ⟨_, leave ((h'.idle_onRecord f).idle_onRecord _)⟩
    · refine loopHead (h'.idle_onRecord f) (by simpa [State.setFlag] using ho) ?_ (h.check c o r hc)
      simpa [State.setFlag] using (h.good o ho).not_taken hmem

/-- **One step.** -/
theorem step (h : Inv s W) (he : step s a = some s') : ∃ W', Inv s' W' := by
  cases a with
  | createEventFlag attr initBits =>
    cases he
    refine ⟨W, fun o ho => ?_, h.place, fun o ho => h.empty o ?_, fun e he => ?_, h.check⟩
    · by_cases heq : o = s.created
      · subst heq
        rw [h.empty s.created le_rfl]
        refine ⟨List.nodup_nil, ?_, fun _ => by simp⟩
        simp [State.createEventFlag]
      · have ho' : o < s.created + 1 := ho
        simpa [State.createEventFlag, heq] using h.good o (by omega)
    · have ho' : s.created + 1 ≤ o := ho
      omega
    · show e.2 < s.created + 1
      obtain rfl | he := List.mem_cons.1 he
      · exact Nat.lt_succ_self _
      · exact Nat.lt_succ_of_lt (h.live e (List.mem_of_mem_filter he))
  | deleteEventFlag eid =>
    cases he
    rw [State.deleteEventFlag]
    split
    · exact ⟨W, h⟩
    · next o ho =>
      have h' := h.setFlag (o := o) (x := { s.flag o with deleted := true }) rfl rfl
      exact ⟨W, h'.congr rfl rfl (fun e he => List.mem_of_mem_filter he) fun _ => ⟨rfl, rfl⟩⟩
  | setEventFlag o bits =>
    simp only [EventFlag.step, State.setEventFlag] at he
    split_ifs at he
    · cases he
      exact ⟨W, h⟩
    · cases he
      exact ⟨W, h.setFlag rfl rfl⟩
  | clearEventFlag o bits =>
    simp only [EventFlag.step, State.clearEventFlag] at he
    split_ifs at he
    cases he
    exact ⟨W, h.setFlag rfl rfl⟩
  | pollEventFlag o r =>
    simp only [EventFlag.step, State.pollEventFlag] at he
    split_ifs at he
    cases he
    exact ⟨W, h.setFlag (poll_keeps _ r).1 (poll_keeps _ r).2⟩
  | waitEventFlag c o r info released => exact h.waitEventFlag he
  | wake c info released => exact h.wake he
  | releaseWaitThread t =>
    cases he
    rw [State.releaseWaitThread]
    split
    · exact ⟨W, h.congr rfl rfl (fun _ he => he) fun _ => ⟨rfl, rfl⟩⟩
    · exact ⟨W, h⟩
  | shutdown t =>
    simp only [EventFlag.step, State.shutdown] at he
    split at he
    · cases he
    · cases he
    · next o r hc =>
      cases he
      refine ⟨W, h.good, fun d o' => ?_, h.empty, h.live, fun d o' r' hd => ?_⟩
      · by_cases hd : d = .fiber t
        · subst hd
          rw [← h.place, hc]
          simp [State.setPlace, Place.flag]
        · simpa [State.setPlace, State.returns, hd] using h.place d o'
      · by_cases hdt : d = .fiber t
        · subst hdt
          simp [State.setPlace] at hd
        · exact h.check d o' r' (by simpa [State.setPlace, State.returns, hdt] using hd)
  | record t info =>
    cases he
    exact ⟨W, h.congr rfl rfl (fun _ he => he) fun _ => ⟨rfl, rfl⟩⟩

end Inv

theorem run_inv (h0 : s₀.Initial) (h : Run Step s₀ as s) : ∃ W, Inv s W := by
  refine h.state_invariant (I := fun s => ∃ W, Inv s W) ⟨fun _ => [], fun o ho => ?_, fun c o => ?_,
    fun _ _ => rfl, fun e he => ?_, fun c o r hc => ?_⟩ fun s a s' ⟨W, hW⟩ he => hW.step he
  · rw [h0.created] at ho
    cases ho
  · simp [h0.place, Place.flag]
  · rw [h0.eventFlags] at he
    cases he
  · simp [h0.place] at hc

/-! ### Waits that return -/

@[simp] theorem leave_flag (ret : Ret) :
    (s.leave c o r ret).flag = Function.update s.flag o ((s.flag o).waitEnd r ret).1 := rfl

@[simp] theorem leave_outcome (ret : Ret) :
    (s.leave c o r ret).outcome c = some ((s.flag o).waitEnd r ret).2 := Function.update_self ..

/-- A wait that returns from the head of the loop was released. -/
theorem loopHead_agrees (hidle : (s.loopHead c o r released).place c = .idle)
    (hout : (s.loopHead c o r released).outcome c = some out) :
    Agrees (s.flag o) r ((s.loopHead c o r released).flag o) out := by
  rw [State.loopHead] at hidle hout ⊢
  split at hidle
  · next hf =>
    rw [if_pos hf] at hout ⊢
    simp only [leave_outcome, leave_flag, onRecord_flag, Option.some.injEq] at hout ⊢
    rw [Function.update_self, ← hout]
    exact agrees_waitEnd_ne_ok (by simp)
  · simp [State.setPlace] at hidle

/-- `satisfied` is not true for the caller's record alone. -/
def Clean (s : State) (c : Caller) (o : ℕ) (r : Request) (info : Option ThreadInfo) : Prop :=
  (s.flag o).deleted = false → (s.flag o).holds r = false → (s.meanwhile c info).marked c = false

theorem marked_setFlag (s : State) (c : Caller) (o : ℕ) (x : EventFlagInfo) (info : Option ThreadInfo) :
    ((s.setFlag o x).meanwhile c info).marked c = (s.meanwhile c info).marked c := by
  cases info <;> cases c <;> rfl

theorem clean_of_not_satisfied {marked : Bool} (h : x.satisfied r marked = false) : marked = false := by
  simp only [EventFlagInfo.satisfied, Bool.or_eq_false_iff] at h
  exact h.1.1

/-- **A `WaitEventFlag` that returns without a wait.** -/
theorem waitEventFlag_agrees (he : s.waitEventFlag c o r info released = some s') (hidle : s'.place c = .idle)
    (hout : s'.outcome c = some out) : Agrees (s.flag o) r (s'.flag o) out ↔ (¬Early s c o r → Clean s c o r info) := by
  obtain ⟨-, -, ⟨hearly, ret, hret, rfl⟩ | ⟨hearly, s1, rfl, hcase⟩⟩ := waitEventFlag_cases he
  · refine iff_of_true ?_ fun h => absurd hearly h
    have hout' : { ret } = out := by simpa [State.returns, State.setPlace] using hout
    subst hout'
    exact agrees_of_ne_ok rfl hret rfl
  · have hcheck : r.check = none := by
      by_contra hne
      exact hearly (.inl hne)
    have htaken : (s.flag o).taken = false := by simpa using fun h => hearly (.inr (.inl h))
    have hflag : (s.meanwhile c info).flag = s.flag := by
      obtain ⟨f, hf⟩ := meanwhile_eq s c info
      rw [hf, onRecord_flag]
    rw [forall_prop_of_true hearly]
    obtain ⟨hsat, rfl⟩ | ⟨hsat, rfl⟩ := hcase
    · simp only [leave_outcome, Option.some.injEq] at hout
      rw [leave_flag, ← hout, Function.update_self, hflag]
      exact agrees_waitEnd_ok hcheck htaken hsat
    · refine iff_of_true ?_ fun _ _ => clean_of_not_satisfied hsat
      have hagree := loopHead_agrees hidle hout
      rwa [onRecord_flag, hflag] at hagree

/-- **A `WaitEventFlag` that returns from its wait.** -/
theorem wake_agrees (h : Inv s W) (hp : s.place c = .blocked o r) (he : s.wake c info released = some s')
    (hidle : s'.place c = .idle) (hout : s'.outcome c = some out) :
    Agrees (s.flag o).less r (s'.flag o) out ↔ (¬Aborted s c o → Clean s c o r info) := by
  have hmem := h.mem_of_blocked hp
  have hcheck := h.check c o r hp
  have htaken := (h.good o (h.created_of_mem hmem)).not_taken hmem
  obtain ⟨o', r', s1, hp', rfl, hcase⟩ := wake_cases he
  rw [hp] at hp'
  cases hp'
  have hx : (s.setFlag o (s.flag o).less).flag o = (s.flag o).less := Function.update_self ..
  obtain ⟨hab, ⟨f, ret, hret, rfl⟩ | rfl⟩ | ⟨hab, s2, rfl, hcase⟩ := hcase
  · refine iff_of_true ?_ fun h => absurd hab h
    simp only [leave_outcome, Option.some.injEq, onRecord_flag, hx] at hout
    rw [leave_flag, ← hout, Function.update_self, onRecord_flag, hx]
    exact agrees_waitEnd_ne_ok hret
  · refine iff_of_true ?_ fun h => absurd hab h
    have hout' : { ret := .threadExit } = out := by simpa [State.returns, State.setPlace] using hout
    subst hout'
    refine agrees_of_ne_ok ?_ (by simp) rfl
    rw [show ((s.setFlag o (s.flag o).less).returns c { ret := .threadExit }).flag o = (s.flag o).less from hx]
  · have hflag : ((s.setFlag o (s.flag o).less).meanwhile c info).flag o = (s.flag o).less := by
      obtain ⟨f, hf⟩ := meanwhile_eq (s.setFlag o (s.flag o).less) c info
      rw [hf, onRecord_flag, hx]
    rw [forall_prop_of_true hab]
    rw [marked_setFlag] at hcase
    obtain ⟨hsat, rfl⟩ | ⟨hsat, rfl⟩ := hcase
    · simp only [leave_outcome, Option.some.injEq, onRecord_flag, hflag] at hout
      rw [leave_flag, ← hout, Function.update_self, onRecord_flag, hflag]
      exact agrees_waitEnd_ok hcheck htaken hsat
    · refine iff_of_true ?_ fun _ _ => clean_of_not_satisfied hsat
      have hagree := loopHead_agrees hidle hout
      rwa [hflag] at hagree

/-- The state after acts from the start. -/
def stateAfter (as : List Act) : State := after step .init as

theorem run_stateAfter (h : (as.foldlM step .init).isSome = true) : Run Step .init as (stateAfter as) :=
  .of_foldlM (foldlM_eq_after h)

/-- All of one bit. -/
def oneBit : Request := ⟨1, 0x10, true⟩

/-- A thread waits for a bit, and it is set. -/
def bitSet : List Act :=
  [.createEventFlag 0 0, .waitEventFlag (.fiber 1) 0 oneBit none false, .setEventFlag 0 1]

/-- A wait is released and its flag deleted before the thread runs. -/
def staleRelease : List Act :=
  [.createEventFlag 0 0, .createEventFlag 0 0, .waitEventFlag (.fiber 1) 0 oneBit none false,
    .releaseWaitThread 1, .deleteEventFlag 1, .wake (.fiber 1) none false]

end Ps2Recomp.EventFlag
