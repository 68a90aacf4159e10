import Mathlib.Data.List.Perm.Basic
import Ps2Recomp.Spec.Sema

/-!
# Semaphores in every run

`Good x l w` says that the counts of the semaphore `x` agree with its ledger `l` and with the callers
`w` in its wait. Each section keeps it, and `Inv` says it of all semaphores of a state.
-/

namespace Ps2Recomp.Sema

open Transition
open Sched (Tid)
open Threads (Caller ThreadInfo)

/-! ### One semaphore -/

/-- **The counts of a semaphore** whose wait the callers `w` are in. -/
structure Good (x : SemaInfo) (l : Ledger) (w : List Caller) : Prop where
  nonneg : 0 ≤ x.count
  le : x.count ≤ x.maxCount
  count : x.count = x.initCount + l.signals - l.permits
  callers : w.Nodup
  waiters : x.waiters = w.length
  nodup : (x.waitList.map Prod.fst).Nodup
  mem : ∀ e ∈ x.waitList, Caller.fiber e.1 ∈ w

namespace Good

variable {x x' : SemaInfo} {l : Ledger} {w : List Caller} {c : Caller} {token : Token}

theorem create (params : DecodedSemaParams) : Good (.create params) {} [] := by
  refine ⟨?_, ?_, ?_, List.nodup_nil, rfl, List.nodup_nil, fun e he => by cases he⟩
  · simp only [SemaInfo.create]
    split_ifs <;> omega
  · simp only [SemaInfo.create]
    split_ifs <;> omega
  · simp [SemaInfo.create]

section

variable (h : Good x l w)

include h

theorem take (ht : x.take = some x') : Good x' { l with permits := l.permits + 1 } w := by
  rw [SemaInfo.take] at ht
  split at ht
  · next hpos =>
    cases ht
    have hle := h.le
    have hc := h.count
    refine ⟨?_, ?_, ?_, h.callers, h.waiters, h.nodup, h.mem⟩
    · show 0 ≤ x.count - 1
      omega
    · show x.count - 1 ≤ x.maxCount
      omega
    · show x.count - 1 = x.initCount + l.signals - (l.permits + 1)
      omega
  · cases ht

theorem signal {woken : Option (Tid × Token)} (hs : x.signal = some (woken, x')) :
    Good x' { l with signals := l.signals + 1 } w := by
  rw [SemaInfo.signal] at hs
  split at hs
  · cases hs
  · next hlt =>
    cases hs
    have h0 := h.nonneg
    have hc := h.count
    refine ⟨?_, ?_, ?_, h.callers, h.waiters, ?_, fun e he => h.mem e (List.mem_of_mem_tail he)⟩
    · show 0 ≤ x.count + 1
      omega
    · show x.count + 1 ≤ x.maxCount
      omega
    · show x.count + 1 = x.initCount + (l.signals + 1) - l.permits
      omega
    · show (x.waitList.tail.map Prod.fst).Nodup
      exact h.nodup.sublist ((List.tail_sublist _).map _)

theorem publish (hc : c ∉ w) : Good (x.publish c token) l (c :: w) := by
  have hw : x.waiters + 1 = (c :: w).length := by
    rw [List.length_cons, h.waiters]
    push_cast
    rfl
  cases c with
  | host n =>
    exact ⟨h.nonneg, h.le, h.count, List.nodup_cons.2 ⟨hc, h.callers⟩, hw, h.nodup,
      fun e he => List.mem_cons_of_mem _ (h.mem e he)⟩
  | fiber t =>
    refine ⟨h.nonneg, h.le, h.count, List.nodup_cons.2 ⟨hc, h.callers⟩, hw, ?_, fun e he => ?_⟩
    · simp only [SemaInfo.publish, List.map_append, List.map_cons, List.map_nil]
      refine h.nodup.append (List.nodup_singleton t) fun u hu hut => hc ?_
      rw [List.mem_singleton] at hut
      subst hut
      obtain ⟨e, he, rfl⟩ := List.mem_map.1 hu
      exact h.mem e he
    · simp only [SemaInfo.publish, List.mem_append, List.mem_singleton] at he
      obtain he | rfl := he
      · exact List.mem_cons_of_mem _ (h.mem e he)
      · exact List.mem_cons_self

theorem unpublish (hc : c ∈ w) : Good (x.unpublish c) l (w.erase c) := by
  have hw : x.waiters - 1 = (w.erase c).length := by
    have hlen := List.length_erase_of_mem hc
    have hpos := List.length_pos_of_mem hc
    rw [h.waiters]
    omega
  cases c with
  | host n =>
    refine ⟨h.nonneg, h.le, h.count, h.callers.erase _, hw, h.nodup, fun e he => ?_⟩
    exact (List.mem_erase_of_ne (by simp)).2 (h.mem e he)
  | fiber t =>
    have hsub : (x.waitList.eraseP (·.1 = t)).Sublist x.waitList := List.eraseP_sublist
    refine ⟨h.nonneg, h.le, h.count, h.callers.erase _, hw, h.nodup.sublist (hsub.map _), fun e he => ?_⟩
    -- the first entry of the thread was its only one
    have hne : e.1 ≠ t := by
      rintro rfl
      have hmem : e ∈ x.waitList := hsub.subset he
      obtain ⟨e', l1, l2, hl1, he', hsplit, herase⟩ :=
        List.exists_of_eraseP (p := fun f : Tid × Token => decide (f.1 = e.1)) hmem (by simp)
      have he'' : e ∈ l1 ++ l2 := by
        rw [← herase]
        exact he
      have hnd := h.nodup
      rw [hsplit, List.map_append, List.map_cons] at hnd
      have he1 : e'.1 = e.1 := by simpa using he'
      have hdis := (List.nodup_middle.1 hnd)
      rw [List.nodup_cons, ← List.map_append] at hdis
      exact hdis.1 (List.mem_map.2 ⟨e, he'', he1.symm⟩)
    exact (List.mem_erase_of_ne (by simpa using hne)).2 (h.mem e (hsub.subset he))

theorem delete : Good { x with deleted := true, waitList := [] } l w :=
  ⟨h.nonneg, h.le, h.count, h.callers, h.waiters, List.nodup_nil, fun e he => by cases he⟩

end

end Good

/-! ### The sections, case by case -/

variable {s s' s₀ : State} {W : ℕ → List Caller} {c d : Caller} {o : ℕ} {x : SemaInfo}
  {token : Token} {released : Bool} {a : Act} {as : List Act} {t : Tid}

variable (f : ThreadInfo → ThreadInfo)

@[simp] theorem onRecord_sema : (s.onRecord c f).sema = s.sema := by
  cases c <;> rfl

@[simp] theorem onRecord_created : (s.onRecord c f).created = s.created := by
  cases c <;> rfl

@[simp] theorem onRecord_place : (s.onRecord c f).place = s.place := by
  cases c <;> rfl

@[simp] theorem leave_sema (e : Exit) : (s.leave c e).sema = s.sema := by
  simp [State.leave, State.setPlace, State.setExit]

@[simp] theorem leave_place (e : Exit) : (s.leave c e).place = Function.update s.place c .idle := by
  simp [State.leave, State.setPlace, State.setExit]

@[simp] theorem leave_exit (e : Exit) : (s.leave c e).exit c = some e := by
  simp [State.leave, State.setPlace, State.setExit]

@[simp] theorem grant_sema : (s.grant c o x).sema = Function.update s.sema o x := by
  simp [State.grant, State.setSema, State.setLedger]

@[simp] theorem grant_place : (s.grant c o x).place = Function.update s.place c .idle := by
  simp [State.grant, State.setSema, State.setLedger]

@[simp] theorem grant_exit : (s.grant c o x).exit c = some .permit := by
  simp [State.grant]

theorem take_cases : (0 < x.count ∧ x.take = some { x with count := x.count - 1 }) ∨
    (x.count ≤ 0 ∧ x.take = none) := by
  by_cases h : 0 < x.count
  · exact .inl ⟨h, if_pos h⟩
  · exact .inr ⟨by omega, if_neg h⟩

theorem loopHead_cases (s : State) (c : Caller) (o : ℕ) (token : Token) (released : Bool) :
    s.loopHead c o token released =
        (s.onRecord c fun info => { info with forceRelease := false }).leave c .releaseWait ∨
      s.loopHead c o token released = (s.setSema o ((s.sema o).publish c token)).setPlace c (.blocked o) := by
  rw [State.loopHead]
  split
  · exact .inl rfl
  · exact .inr rfl

theorem waitSema_cases (he : s.waitSema c o token released = some s') :
    s.place c = .idle ∧ o < s.created ∧
      (s' = s.setExit c .threadExit ∨
        (∃ x, (s.sema o).take = some x ∧ s' = s.grant c o x) ∨
        (s.sema o).take = none ∧ s' = (s.onRecord c (Threads.setThreadWaiting .sema)).loopHead c o token released) := by
  rw [State.waitSema] at he
  split at he
  · next hc =>
    refine ⟨hc.1, hc.2, ?_⟩
    split at he
    · cases he
      exact .inl rfl
    · split at he
      · next x hx =>
        cases he
        exact .inr (.inl ⟨x, hx, rfl⟩)
      · next hx =>
        cases he
        exact .inr (.inr ⟨hx, rfl⟩)
  · cases he

theorem wake_cases (he : s.wake c token released = some s') :
    ∃ o s1, s.place c = .blocked o ∧ s1 = s.setSema o ((s.sema o).unpublish c) ∧
      (((s.sema o).deleted = true ∧ s' = s1.leave c .waitDelete) ∨
        (s.flag c (·.forceRelease) = true ∧ s' =
          (s1.onRecord c fun info => { info with forceRelease := false }).leave c .releaseWait) ∨
        (s.flag c (·.terminated) = true ∧ s' = (s1.setExit c .threadExit).setPlace c .idle) ∨
        (∃ x, ((s.sema o).unpublish c).take = some x ∧ s' = s1.grant c o x) ∨
        ((s.sema o).unpublish c).take = none ∧ s' = s1.loopHead c o token released) := by
  rw [State.wake] at he
  split at he
  · cases he
  · cases he
  · next o hc =>
    have hx : (s.setSema o ((s.sema o).unpublish c)).sema o = (s.sema o).unpublish c :=
      Function.update_self ..
    have hflag : ∀ f, (s.setSema o ((s.sema o).unpublish c)).flag c f = s.flag c f := by
      intro f
      cases c <;> rfl
    simp only [hx, hflag] at he
    refine ⟨o, _, hc, rfl, ?_⟩
    split at he
    · next hd =>
      cases he
      exact .inl ⟨hd, rfl⟩
    · split at he
      · next hf =>
        cases he
        exact .inr (.inl ⟨hf, rfl⟩)
      · split at he
        · next ht =>
          cases he
          exact .inr (.inr (.inl ⟨ht, rfl⟩))
        · split at he
          · next x hx =>
            cases he
            exact .inr (.inr (.inr (.inl ⟨x, hx, rfl⟩)))
          · next hx =>
            cases he
            exact .inr (.inr (.inr (.inr ⟨hx, rfl⟩)))

theorem pollSema_cases (he : s.pollSema o = some s') :
    o < s.created ∧ (s' = s ∨ ∃ x, (s.sema o).take = some x ∧
      s' = (s.setSema o x).setLedger o fun l => { l with permits := l.permits + 1 }) := by
  rw [State.pollSema] at he
  split at he
  · next ho =>
    refine ⟨ho, ?_⟩
    split at he
    · next x hx =>
      cases he
      exact .inr ⟨x, hx, rfl⟩
    · cases he
      exact .inl rfl
  · cases he

theorem signalSema_cases {woken : Option (Tid × Token)} (he : s.signalSema o = some (woken, s')) :
    o < s.created ∧
      ((s.sema o).signal = none ∧ woken = none ∧ s' = s ∨
        ∃ x, (s.sema o).signal = some (woken, x) ∧
          s' = (s.setSema o x).setLedger o fun l => { l with signals := l.signals + 1 }) := by
  rw [State.signalSema] at he
  split at he
  · next ho =>
    refine ⟨ho, ?_⟩
    split at he
    · next woken x hx =>
      cases he
      exact .inr ⟨x, hx, rfl⟩
    · next hx =>
      cases he
      exact .inl ⟨hx, rfl, rfl⟩
  · cases he

theorem step_signalSema_cases (he : step s (.signalSema o) = some s') :
    o < s.created ∧
      ((s.sema o).signal = none ∧ s' = s ∨
        ∃ woken x, (s.sema o).signal = some (woken, x) ∧
          s' = (s.setSema o x).setLedger o fun l => { l with signals := l.signals + 1 }) := by
  obtain ⟨⟨woken, s1⟩, hs, hs1⟩ := Option.map_eq_some_iff.1 he
  cases hs1
  obtain ⟨ho, ⟨hx, -, he⟩ | ⟨x, hx, he⟩⟩ := signalSema_cases hs
  · exact ⟨ho, .inl ⟨hx, he⟩⟩
  · exact ⟨ho, .inr ⟨woken, x, hx, he⟩⟩

theorem shutdown_cases (he : s.shutdown t = some s') : ∃ o, s.place (.fiber t) = .blocked o ∧ s' =
    (s.setExit (.fiber t) .threadExit).setPlace (.fiber t) (.unwound o) := by
  rw [State.shutdown] at he
  split at he
  · cases he
  · cases he
  · next o hc =>
    cases he
    exact ⟨o, hc, rfl⟩

/-! ### All semaphores -/

/-- **The invariant**, with the callers that each semaphore counts. -/
structure Inv (s : State) (W : ℕ → List Caller) : Prop where
  good : ∀ o < s.created, Good (s.sema o) (s.ledger o) (W o)
  place : ∀ c o, (s.place c).sema = some o ↔ c ∈ W o
  empty : ∀ o, s.created ≤ o → W o = []
  live : ∀ e ∈ s.semas, e.2 < s.created

namespace Inv

section

variable (h : Inv s W)

include h

theorem mem_of_blocked (hc : s.place c = .blocked o) : c ∈ W o := by
  rw [← h.place, hc]
  rfl

theorem created_of_blocked (hc : s.place c = .blocked o) : o < s.created := by
  by_contra ho
  have hmem := h.mem_of_blocked hc
  rw [h.empty o (by omega)] at hmem
  cases hmem

theorem congr (hx : s'.sema = s.sema) (hn : s'.created = s.created)
    (hl : s'.ledger = s.ledger) (hm : s'.semas = s.semas) (hp : s'.place = s.place) : Inv s' W := by
  refine ⟨fun o ho => ?_, fun c o => ?_, fun o ho => h.empty o (hn ▸ ho), fun e he => ?_⟩
  · rw [hx, hl]
    exact h.good o (hn ▸ ho)
  · rw [hp]
    exact h.place c o
  · rw [hn]
    exact h.live e (hm ▸ he)

theorem setInfo (f : ThreadInfo → ThreadInfo) : Inv (s.setInfo t f) W :=
  h.congr rfl rfl rfl rfl rfl

theorem onRecord (f : ThreadInfo → ThreadInfo) : Inv (s.onRecord c f) W := by
  cases c with
  | fiber t => exact h.setInfo f
  | host n => exact h

theorem setExit (e : Exit) : Inv (s.setExit c e) W := h.congr rfl rfl rfl rfl rfl

theorem setSema {l : Ledger} (hx : Good x l (W o)) : Inv ((s.setSema o x).setLedger o fun _ => l) W := by
  refine ⟨fun o' ho' => ?_, h.place, h.empty, h.live⟩
  by_cases heq : o' = o
  · subst heq
    simpa [State.setSema, State.setLedger] using hx
  · simpa [State.setSema, State.setLedger, heq] using h.good o' ho'

theorem move {p : Place} {w : List Caller} (ho : o < s.created) (hx : Good x (s.ledger o) w)
    (hother : ∀ o', o' ≠ o → p.sema ≠ some o' ∧ c ∉ W o') (hc : c ∈ w ↔ p.sema = some o)
    (hw : ∀ d, d ≠ c → (d ∈ w ↔ d ∈ W o)) : Inv ((s.setSema o x).setPlace c p) (Function.update W o w) := by
  refine ⟨fun o' ho' => ?_, fun d o' => ?_, fun o' ho' => ?_, h.live⟩
  · by_cases heq : o' = o
    · subst heq
      simpa [State.setSema, State.setPlace] using hx
    · simpa [State.setSema, State.setPlace, heq] using h.good o' ho'
  · by_cases hd : d = c
    · subst hd
      by_cases heq : o' = o
      · subst heq
        simp [State.setSema, State.setPlace, hc]
      · simp [State.setSema, State.setPlace, heq, hother o' heq]
    · by_cases heq : o' = o
      · subst heq
        simp [State.setSema, State.setPlace, hd, hw d hd, h.place]
      · simp [State.setSema, State.setPlace, heq, hd, h.place]
  · have heq : o' ≠ o := by
      rintro rfl
      exact absurd ho' (by simpa [State.setSema, State.setPlace] using ho)
    rw [Function.update_of_ne heq]
    exact h.empty o' ho'

theorem enter (ho : o < s.created) (hc : s.place c = .idle) :
    Inv ((s.setSema o ((s.sema o).publish c token)).setPlace c (.blocked o)) (Function.update W o (c :: W o)) := by
  have hnot : ∀ o', c ∉ W o' := by
    intro o' hmem
    rw [← h.place, hc] at hmem
    cases hmem
  refine h.move ho ((h.good o ho).publish (hnot o)) (fun o' ho' => ⟨?_, hnot o'⟩) ?_ fun d hd => ?_
  · simpa [Place.sema] using Ne.symm ho'
  · simp [Place.sema]
  · simp [hd]

theorem come (hc : s.place c = .blocked o) :
    Inv ((s.setSema o ((s.sema o).unpublish c)).setPlace c .idle) (Function.update W o ((W o).erase c)) := by
  have ho := h.created_of_blocked hc
  have hmem := h.mem_of_blocked hc
  refine h.move ho ((h.good o ho).unpublish hmem) (fun o' ho' => ⟨by simp [Place.sema], fun hmem' => ?_⟩)
    ?_ fun d hd => List.mem_erase_of_ne hd
  · rw [← h.place, hc] at hmem'
    exact ho' (Option.some.inj hmem').symm
  · simp [(h.good o ho).callers.not_mem_erase, Place.sema]

end

/-! ### Sections -/

theorem leave {e : Exit} (h : Inv (s.setPlace c .idle) W) : Inv (s.leave c e) W := by
  have h' : Inv (((s.setPlace c .idle).onRecord c Threads.clearThreadWaiting).setExit c e) W :=
    (h.onRecord _).setExit e
  refine h'.congr ?_ ?_ ?_ ?_ ?_
  all_goals cases c <;> rfl

theorem grant (h : Inv (s.setPlace c .idle) W) (ho : o < s.created)
    (hx : (s.sema o).take = some x) : Inv (s.grant c o x) W := by
  have hgood : Good x { s.ledger o with permits := (s.ledger o).permits + 1 } (W o) :=
    (h.good o ho).take hx
  exact leave (h.setSema hgood)

theorem loopHead (h : Inv (s.setPlace c .idle) W) (ho : o < s.created) :
    ∃ W', Inv (s.loopHead c o token released) W' := by
  obtain he | he := loopHead_cases s c o token released
  · rw [he]
    refine ⟨W, leave ?_⟩
    have h' : Inv ((s.setPlace c .idle).onRecord c fun info => { info with forceRelease := false }) W :=
      h.onRecord _
    refine h'.congr ?_ ?_ ?_ ?_ ?_
    all_goals cases c <;> rfl
  · rw [he]
    have hc : (s.setPlace c .idle).place c = .idle := Function.update_self ..
    refine ⟨_, (h.enter ho hc).congr rfl rfl rfl rfl ?_⟩
    simp [State.setSema, State.setPlace]

section

variable (h : Inv s W)

include h

theorem waitSema (he : s.waitSema c o token released = some s') : ∃ W', Inv s' W' := by
  obtain ⟨hc, ho, hcase⟩ := waitSema_cases he
  have hidle : Inv (s.setPlace c .idle) W := by
    refine h.congr rfl rfl rfl rfl ?_
    rw [← hc]
    exact Function.update_eq_self c s.place
  obtain rfl | ⟨x, hx, rfl⟩ | ⟨-, rfl⟩ := hcase
  · exact ⟨W, h.setExit _⟩
  · exact ⟨W, hidle.grant ho hx⟩
  · have h' : Inv ((s.setPlace c .idle).onRecord c (Threads.setThreadWaiting .sema)) W :=
      hidle.onRecord _
    have h'' : Inv ((s.onRecord c (Threads.setThreadWaiting .sema)).setPlace c .idle) W := by
      refine h'.congr ?_ ?_ ?_ ?_ ?_
      all_goals cases c <;> rfl
    exact loopHead h'' (by simpa using ho)

theorem wake (he : s.wake c token released = some s') : ∃ W', Inv s' W' := by
  obtain ⟨o, s1, hc, rfl, hcase⟩ := wake_cases he
  have ho := h.created_of_blocked hc
  have h' := h.come hc
  obtain ⟨-, rfl⟩ | ⟨-, rfl⟩ | ⟨-, rfl⟩ | ⟨x, hx, rfl⟩ | ⟨-, rfl⟩ := hcase
  · exact ⟨_, leave h'⟩
  · have h'' := h'.onRecord (c := c) fun info => { info with forceRelease := false }
    refine ⟨Function.update W o ((W o).erase c), leave (h''.congr ?_ ?_ ?_ ?_ ?_)⟩
    all_goals cases c <;> rfl
  · exact ⟨_, h'.congr rfl rfl rfl rfl rfl⟩
  · refine ⟨_, h'.grant ho ?_⟩
    simpa [State.setSema] using hx
  · exact h'.loopHead ho

theorem shutdown (he : s.shutdown t = some s') : Inv s' W := by
  obtain ⟨o, hc, rfl⟩ := shutdown_cases he
  refine ⟨h.good, fun d o' => ?_, h.empty, h.live⟩
  -- the caller stays counted where it was
  by_cases hd : d = .fiber t
  · subst hd
    rw [← h.place, hc]
    simp [State.setPlace, Place.sema]
  · simpa [State.setPlace, State.setExit, hd] using h.place d o'

theorem createSema (param : List (BitVec 32)) : ∃ W', Inv (s.createSema param) W' := by
  rw [State.createSema]
  split
  · exact ⟨W, h⟩
  · split
    · exact ⟨W, h.congr rfl rfl rfl rfl rfl⟩
    · refine ⟨W, fun o ho => ?_, h.place, fun o ho => h.empty o ?_, fun e he => ?_⟩
      · by_cases heq : o = s.created
        · subst heq
          simp only [Function.update_self, h.empty s.created le_rfl]
          exact Good.create _
        · have ho' : o < s.created + 1 := ho
          simp only [Function.update_of_ne heq]
          exact h.good o (by omega)
      · have ho' : s.created + 1 ≤ o := ho
        omega
      · show e.2 < s.created + 1
        obtain rfl | he := List.mem_cons.1 he
        · exact Nat.lt_succ_self _
        · exact Nat.lt_succ_of_lt (h.live e he)

theorem deleteSema (sid : ℤ) : Inv (s.deleteSema sid) W := by
  rw [State.deleteSema]
  split
  · exact h
  · next o ho =>
    refine ⟨fun o' ho' => ?_, h.place, h.empty, fun e he => h.live e (List.mem_of_mem_filter he)⟩
    by_cases heq : o' = o
    · subst heq
      simpa using (h.good o' ho').delete
    · simpa [heq] using h.good o' ho'

/-- **One step.** -/
theorem step (he : step s a = some s') : ∃ W', Inv s' W' := by
  cases a with
  | createSema param =>
    cases he
    exact h.createSema param
  | deleteSema sid =>
    cases he
    exact ⟨W, h.deleteSema sid⟩
  | signalSema o =>
    obtain ⟨ho, ⟨-, rfl⟩ | ⟨woken, x, hx, rfl⟩⟩ := step_signalSema_cases he
    · exact ⟨W, h⟩
    · exact ⟨W, h.setSema ((h.good o ho).signal hx)⟩
  | pollSema o =>
    obtain ⟨ho, rfl | ⟨x, hx, rfl⟩⟩ := pollSema_cases he
    · exact ⟨W, h⟩
    · exact ⟨W, h.setSema ((h.good o ho).take hx)⟩
  | waitSema c o token released => exact h.waitSema he
  | wake c token released => exact h.wake he
  | releaseWaitThread t =>
    cases he
    rw [State.releaseWaitThread]
    split
    · exact ⟨W, h.setInfo _⟩
    · exact ⟨W, h⟩
  | terminateThread t =>
    simp only [Sema.step] at he
    split at he
    · cases he
      exact ⟨W, h⟩
    · cases he
      exact ⟨W, h.setInfo _⟩
  | shutdown t => exact ⟨W, h.shutdown he⟩
  | record t info =>
    cases he
    exact ⟨W, h.setInfo _⟩

end

end Inv

/-! ### Where the callers go -/

theorem loopHead_place (s : State) (c : Caller) (o : ℕ) (token : Token) (released : Bool) :
    ∃ p, (∀ o, p ≠ .unwound o) ∧ (s.loopHead c o token released).place = Function.update s.place c p := by
  obtain he | he := loopHead_cases s c o token released
  · rw [he]
    exact ⟨.idle, by simp, by simp⟩
  · rw [he]
    exact ⟨.blocked o, by simp, rfl⟩

theorem step_place (he : step s a = some s') (hs : ∀ t, a ≠ .shutdown t) :
    s'.place = s.place ∨ ∃ c p, (∀ o, p ≠ .unwound o) ∧ s'.place = Function.update s.place c p := by
  cases a with
  | createSema param =>
    cases he
    rw [State.createSema]
    refine .inl ?_
    split
    · rfl
    · split <;> rfl
  | deleteSema sid =>
    cases he
    rw [State.deleteSema]
    refine .inl ?_
    split <;> rfl
  | signalSema o =>
    obtain ⟨-, ⟨-, rfl⟩ | ⟨woken, x, -, rfl⟩⟩ := step_signalSema_cases he
    · exact .inl rfl
    · exact .inl rfl
  | pollSema o =>
    obtain ⟨-, rfl | ⟨x, -, rfl⟩⟩ := pollSema_cases he
    · exact .inl rfl
    · exact .inl rfl
  | waitSema c o token released =>
    obtain ⟨-, -, rfl | ⟨x, -, rfl⟩ | ⟨-, rfl⟩⟩ := waitSema_cases he
    · exact .inl rfl
    · exact .inr ⟨c, .idle, by simp, by simp⟩
    · obtain ⟨p, hp, hplace⟩ := loopHead_place (s.onRecord c (Threads.setThreadWaiting .sema)) c o token released
      exact .inr ⟨c, p, hp, by rw [hplace, onRecord_place]⟩
  | wake c token released =>
    obtain ⟨o, s1, -, rfl, ⟨-, rfl⟩ | ⟨-, rfl⟩ | ⟨-, rfl⟩ | ⟨x, -, rfl⟩ | ⟨-, rfl⟩⟩ := wake_cases he
    · exact .inr ⟨c, .idle, by simp, by simp [State.setSema]⟩
    · exact .inr ⟨c, .idle, by simp, by simp [State.setSema]⟩
    · exact .inr ⟨c, .idle, by simp, rfl⟩
    · exact .inr ⟨c, .idle, by simp, by simp [State.setSema]⟩
    · obtain ⟨p, hp, hplace⟩ := loopHead_place (s.setSema o ((s.sema o).unpublish c)) c o token released
      exact .inr ⟨c, p, hp, hplace⟩
  | releaseWaitThread t =>
    cases he
    rw [State.releaseWaitThread]
    refine .inl ?_
    split <;> rfl
  | terminateThread t =>
    simp only [step] at he
    split at he
    · cases he
      exact .inl rfl
    · cases he
      exact .inl rfl
  | shutdown t => exact absurd rfl (hs t)
  | record t info =>
    cases he
    exact .inl rfl

/-- **The invariant without a shutdown**: the callers that a semaphore counts are those in its
wait. -/
structure Counted (s : State) (W : ℕ → List Caller) : Prop where
  inv : Inv s W
  mem : ∀ c o, c ∈ W o ↔ s.place c = .blocked o

theorem Inv.counted (h : Inv s W) (hun : ∀ c o, s.place c ≠ .unwound o) : Counted s W := by
  refine ⟨h, fun c o => ?_⟩
  rw [← h.place]
  cases hc : s.place c with
  | idle => simp [Place.sema]
  | blocked o' => simp [Place.sema]
  | unwound o' => exact absurd hc (hun c o')

namespace Counted

theorem initial (h0 : s.Initial) : Counted s fun _ => [] := by
  refine ⟨⟨fun o ho => ?_, fun c o => ?_, fun _ _ => rfl, fun e he => ?_⟩, fun c o => ?_⟩
  · rw [h0.created] at ho
    cases ho
  · simp [h0.place, Place.sema]
  · rw [h0.semas] at he
    cases he
  · simp [h0.place]

section

variable (h : Counted s W)

include h

theorem not_unwound (c : Caller) (o : ℕ) : s.place c ≠ .unwound o := by
  intro hc
  have hmem : c ∈ W o := by
    rw [← h.inv.place, hc]
    rfl
  rw [h.mem, hc] at hmem
  cases hmem

theorem blocked (ho : o < s.created) {e : Tid × Token}
    (he : e ∈ (s.sema o).waitList) : s.place (.fiber e.1) = .blocked o :=
  (h.mem _ o).1 ((h.inv.good o ho).mem e he)

theorem step (ha : ∀ t, a ≠ .shutdown t) (he : step s a = some s') : ∃ W', Counted s' W' := by
  obtain ⟨W', hW'⟩ := h.inv.step he
  refine ⟨W', hW'.counted fun c o => ?_⟩
  obtain hp | ⟨d, p, hp, hplace⟩ := step_place he ha
  · rw [hp]
    exact h.not_unwound c o
  · rw [hplace]
    by_cases hc : c = d
    · subst hc
      simpa using hp o
    · simpa [hc] using h.not_unwound c o

end

end Counted

theorem run_counted (h0 : s₀.Initial) (h : Run Step s₀ as s) (hs : ∀ t, .shutdown t ∉ as) : ∃ W, Counted s W := by
  refine h.invariant (I := fun as s => (∀ t, .shutdown t ∉ as) → ∃ W, Counted s W)
    (fun _ => ⟨_, .initial h0⟩) (fun as s a s' ih he hs => ?_) hs
  obtain ⟨W, hW⟩ := ih fun t ht => hs t (List.mem_append_left _ ht)
  refine hW.step ?_ he
  rintro t rfl
  exact hs t (by simp)

/-- A thread waits, is signalled and takes its permit. -/
def servedRun : List Act :=
  [.createSema [0, 1, 0], .waitSema (.fiber 1) 0 1 false, .signalSema 0, .wake (.fiber 1) 2 false]

end Ps2Recomp.Sema
