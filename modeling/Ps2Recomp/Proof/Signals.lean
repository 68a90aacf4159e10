import Mathlib.Data.Finset.Card
import Ps2Recomp.Proof.Sema

/-!
# Signals and the threads they serve

A signal raises the count and takes the first entry off the wait-list; the thread of the entry
lowers the count when it runs. Until then the count stands for it, and `SignalSema` compares the
count with the maximum whether there are waiters or not. So of signals that come in a row before a
woken thread runs, as many are accepted as the maximum says (`signals_in_a_row`). Threads
that were all woken that way find a permit when they run (`Serve.wake`).
-/

namespace Ps2Recomp.Sema

open Transition
open Sched (Tid)
open Threads (Caller ThreadInfo)

variable {s s' s₀ s₁ s₂ : State} {W : ℕ → List Caller} {o : ℕ} {ws : List Tid} {a : Act}
  {as bs : List Act} {t : Tid} {token : Token} {released : Bool}

/-! ### Sections apart from a semaphore -/

/-- Neither released nor terminated. -/
def Unmarked (info : ThreadInfo) : Prop := info.forceRelease = false ∧ info.terminated = false

/-- A section that is no call on the semaphore `o`, and releases or terminates none of the threads
`ws`. -/
def Apart (o : ℕ) (ws : List Tid) (s : State) : Act → Prop
  | .createSema _ => True
  | .deleteSema sid => s.semas.lookup sid ≠ some o
  | .signalSema o' | .pollSema o' | .waitSema _ o' _ _ => o' ≠ o
  | .wake c _ _ => s.place c ≠ .blocked o
  | .releaseWaitThread t | .terminateThread t | .shutdown t => t ∉ ws
  | .record t info => t ∈ ws → Unmarked info

/-- What such a section leaves alone. -/
structure Alone (o : ℕ) (ws : List Tid) (s s' : State) : Prop where
  sema : s'.sema o = s.sema o
  ledger : s'.ledger o = s.ledger o
  created : o < s.created → o < s'.created
  place : ∀ t ∈ ws, s'.place (.fiber t) = .blocked o ↔ s.place (.fiber t) = .blocked o
  info : ∀ t ∈ ws, s.place (.fiber t) = .blocked o → Unmarked (s.info t) → Unmarked (s'.info t)

namespace Alone

theorem refl : Alone o ws s s := ⟨rfl, rfl, id, fun _ _ => Iff.rfl, fun _ _ _ h => h⟩

theorem trans (h : Alone o ws s s₁) (h' : Alone o ws s₁ s₂) : Alone o ws s s₂ where
  sema := h'.sema.trans h.sema
  ledger := h'.ledger.trans h.ledger
  created ho := h'.created (h.created ho)
  place t ht := (h'.place t ht).trans (h.place t ht)
  info t ht hp hu := h'.info t ht ((h.place t ht).2 hp) (h.info t ht hp hu)

theorem setInfo {f : ThreadInfo → ThreadInfo} (hf : t ∈ ws → Unmarked (s.info t) → Unmarked (f (s.info t))) :
    Alone o ws s (s.setInfo t f) := by
  refine ⟨rfl, rfl, id, fun _ _ => Iff.rfl, fun u hu _ h => ?_⟩
  by_cases hut : u = t
  · subst hut
    simpa [State.setInfo] using hf hu h
  · simpa [State.setInfo, hut] using h

variable {c : Caller}

theorem onRecord {f : ThreadInfo → ThreadInfo} (hc : s.place c ≠ .blocked o) : Alone o ws s (s.onRecord c f) := by
  cases c with
  | host n => exact refl
  | fiber u =>
    refine ⟨rfl, rfl, id, fun _ _ => Iff.rfl, fun v _ hp h => ?_⟩
    have hv : v ≠ u := by
      rintro rfl
      exact hc hp
    simpa [State.onRecord, State.setInfo, hv] using h

theorem setExit {e : Exit} : Alone o ws s (s.setExit c e) :=
  ⟨rfl, rfl, id, fun _ _ => Iff.rfl, fun _ _ _ h => h⟩

variable {o' : ℕ}

theorem setSema {x : SemaInfo} (ho : o' ≠ o) : Alone o ws s (s.setSema o' x) :=
  ⟨Function.update_of_ne ho.symm _ _, rfl, id, fun _ _ => Iff.rfl, fun _ _ _ h => h⟩

theorem setLedger {f : Ledger → Ledger} (ho : o' ≠ o) : Alone o ws s (s.setLedger o' f) :=
  ⟨rfl, Function.update_of_ne ho.symm _ _, id, fun _ _ => Iff.rfl, fun _ _ _ h => h⟩

theorem setPlace {p : Place} (hc : s.place c ≠ .blocked o) (hp : p ≠ .blocked o) : Alone o ws s (s.setPlace c p) := by
  refine ⟨rfl, rfl, id, fun u _ => ?_, fun _ _ _ h => h⟩
  by_cases hu : Caller.fiber u = c
  · subst hu
    simp [State.setPlace, hc, hp]
  · simp [State.setPlace, hu]

theorem leave {e : Exit} (hc : s.place c ≠ .blocked o) : Alone o ws s (s.leave c e) := by
  have h : Alone o ws s ((s.onRecord c Threads.clearThreadWaiting).setExit c e) :=
    (onRecord hc).trans setExit
  refine h.trans (setPlace ?_ (by simp))
  simpa [State.setExit] using hc

theorem grant {x : SemaInfo} (ho : o' ≠ o) (hc : s.place c ≠ .blocked o) : Alone o ws s (s.grant c o' x) := by
  have h : Alone o ws s ((s.setSema o' x).setLedger o' fun l => { l with permits := l.permits + 1 }) :=
    (setSema ho).trans (setLedger ho)
  exact h.trans (leave hc)

theorem loopHead (ho : o' ≠ o) (hc : s.place c ≠ .blocked o) : Alone o ws s (s.loopHead c o' token released) := by
  obtain he | he := loopHead_cases s c o' token released
  · rw [he]
    exact (onRecord hc).trans (leave (by simpa using hc))
  · rw [he]
    exact (setSema ho).trans (setPlace hc (by simpa using ho))

end Alone

/-- **One step** apart from the semaphore. -/
theorem Apart.step (h : Apart o ws s a) (ho : o < s.created) (he : step s a = some s') : Alone o ws s s' := by
  cases a with
  | createSema param =>
    cases he
    rw [State.createSema]
    split
    · exact .refl
    · split
      · exact ⟨rfl, rfl, id, fun _ _ => Iff.rfl, fun _ _ _ h => h⟩
      · have hne : o ≠ s.created := by omega
        refine ⟨Function.update_of_ne hne _ _, Function.update_of_ne hne _ _, fun h => ?_,
          fun _ _ => Iff.rfl, fun _ _ _ h => h⟩
        exact Nat.lt_succ_of_lt h
  | deleteSema sid =>
    cases he
    rw [State.deleteSema]
    split
    · exact .refl
    · next o' ho' =>
      have hne : o ≠ o' := by
        rintro rfl
        exact h ho'
      exact ⟨Function.update_of_ne hne _ _, rfl, id, fun _ _ => Iff.rfl, fun _ _ _ h => h⟩
  | signalSema o' =>
    obtain ⟨-, ⟨-, rfl⟩ | ⟨woken, x, -, rfl⟩⟩ := step_signalSema_cases he
    · exact .refl
    · exact (Alone.setSema h).trans (.setLedger h)
  | pollSema o' =>
    obtain ⟨-, rfl | ⟨x, -, rfl⟩⟩ := pollSema_cases he
    · exact .refl
    · exact (Alone.setSema h).trans (.setLedger h)
  | waitSema c o' token released =>
    obtain ⟨hc, -, rfl | ⟨x, -, rfl⟩ | ⟨-, rfl⟩⟩ := waitSema_cases he
    · exact .setExit
    · exact .grant h (by simp [hc])
    · exact (Alone.onRecord (by simp [hc])).trans (.loopHead h (by simp [hc]))
  | wake c token released =>
    obtain ⟨o', s₁, hc, rfl, hcase⟩ := wake_cases he
    have hne : o' ≠ o := by
      rintro rfl
      exact h hc
    have hs : Alone o ws s (s.setSema o' ((s.sema o').unpublish c)) := .setSema hne
    refine hs.trans ?_
    obtain ⟨-, rfl⟩ | ⟨-, rfl⟩ | ⟨-, rfl⟩ | ⟨x, -, rfl⟩ | ⟨-, rfl⟩ := hcase
    · exact .leave h
    · refine (Alone.onRecord (s := s.setSema o' _) h).trans (.leave ?_)
      rw [onRecord_place]
      exact h
    · exact Alone.setExit.trans (.setPlace h (by simp))
    · exact .grant hne h
    · exact .loopHead hne h
  | releaseWaitThread t =>
    cases he
    rw [State.releaseWaitThread]
    split
    · exact .setInfo fun ht => absurd ht h
    · exact .refl
  | terminateThread t =>
    simp only [Sema.step] at he
    split at he
    · cases he
      exact .refl
    · cases he
      exact .setInfo fun ht => absurd ht h
  | shutdown t =>
    obtain ⟨o', hc, rfl⟩ := shutdown_cases he
    refine ⟨rfl, rfl, id, fun u hu => ?_, fun _ _ _ h => h⟩
    have hut : u ≠ t := by
      rintro rfl
      exact h hu
    simp [State.setPlace, State.setExit, hut]
  | record t info =>
    cases he
    exact .setInfo fun ht _ => h ht

/-! ### Signals in a row -/

/-- A signal on `o`, or a section apart: no waiter of `o` runs. -/
def Signalling (o : ℕ) (ws : List Tid) (s : State) (a : Act) (s' : State) : Prop :=
  Step s a s' ∧ (a = .signalSema o ∨ Apart o ws s a)

/-- The semaphore after `n` signals that were accepted. -/
def SemaInfo.signalled (x : SemaInfo) (n : ℕ) : SemaInfo :=
  { x with count := x.count + n, waitList := x.waitList.drop n }

theorem signal_signalled (x : SemaInfo) (n : ℕ) (h : x.count + n < x.maxCount) :
    (x.signalled n).signal = some ((x.signalled n).waitList.head?, x.signalled (n + 1)) := by
  have hlt : ¬x.maxCount ≤ x.count + n := by omega
  simp only [SemaInfo.signal, SemaInfo.signalled, if_neg hlt, List.tail_drop]
  push_cast
  rw [add_assoc]

/-- How many of `n` signals are accepted where nobody takes a permit. -/
def SemaInfo.accepts (x : SemaInfo) (n : ℕ) : ℕ := min n (x.maxCount - x.count).toNat

/-- What signals in a row have done. -/
structure Row (o : ℕ) (ws : List Tid) (s : State) (n : ℕ) (s' : State) : Prop where
  sema : s'.sema o = (s.sema o).signalled ((s.sema o).accepts n)
  signals : (s'.ledger o).signals = (s.ledger o).signals + (s.sema o).accepts n
  permits : (s'.ledger o).permits = (s.ledger o).permits
  created : o < s'.created
  place : ∀ t ∈ ws, s'.place (.fiber t) = .blocked o ↔ s.place (.fiber t) = .blocked o
  info : ∀ t ∈ ws, s.place (.fiber t) = .blocked o → Unmarked (s.info t) → Unmarked (s'.info t)

theorem Row.apart {n : ℕ} (h : Row o ws s n s₁) (ha : Alone o ws s₁ s₂) : Row o ws s n s₂ where
  sema := ha.sema.trans h.sema
  signals := by rw [ha.ledger, h.signals]
  permits := by rw [ha.ledger, h.permits]
  created := ha.created h.created
  place t ht := (ha.place t ht).trans (h.place t ht)
  info t ht hp hu := ha.info t ht ((h.place t ht).2 hp) (h.info t ht hp hu)

/-- **One signal more.** -/
theorem Row.signal {n : ℕ} (h : Row o ws s n s₁) (hle : (s.sema o).count ≤ (s.sema o).maxCount)
    (he : step s₁ (.signalSema o) = some s₂) : Row o ws s (n + 1) s₂ := by
  obtain ⟨-, ⟨hx, rfl⟩ | ⟨woken, x, hx, rfl⟩⟩ := step_signalSema_cases he
  · -- the count is at the maximum
    have hacc : (s.sema o).accepts (n + 1) = (s.sema o).accepts n := by
      rw [h.sema, SemaInfo.signal] at hx
      split at hx
      · next hmax =>
        simp only [SemaInfo.signalled, SemaInfo.accepts] at hmax ⊢
        omega
      · cases hx
    refine ⟨?_, ?_, h.permits, h.created, h.place, h.info⟩
    · rw [hacc]
      exact h.sema
    · rw [hacc]
      exact h.signals
  · have hlt : (s.sema o).count + (s.sema o).accepts n < (s.sema o).maxCount := by
      rw [h.sema, SemaInfo.signal] at hx
      split at hx
      · cases hx
      · next hmax => simpa [SemaInfo.signalled] using hmax
    have hacc : (s.sema o).accepts (n + 1) = (s.sema o).accepts n + 1 := by
      simp only [SemaInfo.accepts] at hlt ⊢
      omega
    rw [h.sema, signal_signalled _ _ hlt] at hx
    cases hx
    refine ⟨?_, ?_, ?_, h.created, h.place, h.info⟩
    · rw [hacc]
      simp [State.setSema, State.setLedger]
    · rw [hacc]
      simp only [State.setSema, State.setLedger, Function.update_self, h.signals]
      omega
    · simp [State.setSema, State.setLedger, h.permits]

/-- **Signals in a row**: before a waiter runs, as many are accepted as the count has room for. -/
theorem signals_in_a_row (hi : Inv s W) (ho : o < s.created) (h : Run (Signalling o ws) s bs s₁) :
    Row o ws s (bs.count (.signalSema o)) s₁ := by
  have hle := (hi.good o ho).le
  refine h.invariant (I := fun bs s₁ => Row o ws s (bs.count (.signalSema o)) s₁) ?_ ?_
  · refine ⟨?_, ?_, rfl, ho, fun _ _ => Iff.rfl, fun _ _ _ h => h⟩
    · simp [SemaInfo.accepts, SemaInfo.signalled]
    · simp [SemaInfo.accepts]
  · rintro bs s₁ a s₂ hrow ⟨he, hcase⟩
    rw [List.count_append]
    by_cases ha : a = .signalSema o
    · subst ha
      rw [List.count_singleton_self]
      exact hrow.signal hle he
    · have hap := hcase.resolve_left ha
      have hzero : [a].count (.signalSema o) = 0 := List.count_eq_zero.2 (by simpa using Ne.symm ha)
      rw [hzero, Nat.add_zero]
      exact hrow.apart (hap.step hrow.created he)

/-! ### The threads run -/

/-- One of the threads `ws` comes out of its wait, a signal on `o` comes, or a section apart. -/
def Serving (o : ℕ) (ws : List Tid) (s : State) (a : Act) (s' : State) : Prop :=
  Step s a s' ∧ (a = .signalSema o ∨ Apart o ws s a ∨ ∃ t ∈ ws, ∃ token released, a = .wake (.fiber t) token released)

/-- The threads of `ws` that are still in the wait. -/
def inWait (place : Caller → Place) (o : ℕ) (ws : List Tid) : Finset Tid :=
  ws.toFinset.filter fun t => place (.fiber t) = .blocked o

/-- There is a permit for each thread that is still in the wait. -/
structure Serve (o : ℕ) (ws : List Tid) (s : State) (total : ℤ) : Prop where
  created : o < s.created
  waitList : (s.sema o).waitList = []
  deleted : (s.sema o).deleted = false
  room : (inWait s.place o ws).card ≤ (s.sema o).count
  permits : (s.ledger o).permits + (inWait s.place o ws).card = total
  info : ∀ t ∈ inWait s.place o ws, Unmarked (s.info t)

theorem inWait_alone (h : Alone o ws s s') : inWait s'.place o ws = inWait s.place o ws := by
  ext t
  simp only [inWait, Finset.mem_filter, List.mem_toFinset]
  exact and_congr_right fun ht => h.place t ht

theorem inWait_idle (place : Caller → Place) :
    inWait (Function.update place (.fiber t) .idle) o ws = (inWait place o ws).erase t := by
  ext u
  by_cases hu : u = t
  · simp [inWait, hu]
  · simp [inWait, hu]

namespace Serve

variable {total : ℤ}

section

variable (h : Serve o ws s total)

include h

theorem apart (ha : Alone o ws s s') : Serve o ws s' total := by
  have hw := inWait_alone ha
  refine ⟨ha.created h.created, ?_, ?_, ?_, ?_, fun t ht => ?_⟩
  · rw [ha.sema, h.waitList]
  · rw [ha.sema, h.deleted]
  · rw [ha.sema, hw]
    exact h.room
  · rw [ha.ledger, hw]
    exact h.permits
  · rw [hw] at ht
    have hmem := Finset.mem_filter.1 ht
    exact ha.info t (List.mem_toFinset.1 hmem.1) hmem.2 (h.info t ht)

theorem signal (he : step s (.signalSema o) = some s') : Serve o ws s' total := by
  obtain ⟨-, ⟨-, rfl⟩ | ⟨woken, x, hx, rfl⟩⟩ := step_signalSema_cases he
  · exact h
  · rw [SemaInfo.signal] at hx
    split at hx
    · cases hx
    · cases hx
      have hroom := h.room
      refine ⟨h.created, ?_, ?_, ?_, ?_, h.info⟩
      · simp [State.setSema, State.setLedger, h.waitList]
      · simp [State.setSema, State.setLedger, h.deleted]
      · simp only [State.setSema, State.setLedger, Function.update_self]
        omega
      · simpa [State.setSema, State.setLedger] using h.permits

/-- **One of the threads runs**: it takes a permit, and there is one for each of the others. -/
theorem wake (ht : t ∈ inWait s.place o ws) (he : step s (.wake (.fiber t) token released) = some s') :
    Serve o ws s' total ∧ s'.exit (.fiber t) = some .permit := by
  have hp : s.place (.fiber t) = .blocked o := (Finset.mem_filter.1 ht).2
  have hcard := Finset.card_erase_of_mem ht
  have hpos := Finset.card_pos.2 ⟨t, ht⟩
  have hroom := h.room
  have hperm := h.permits
  obtain ⟨hf, hterm⟩ := h.info t ht
  obtain ⟨o', s₁, hp', rfl, hcase⟩ := wake_cases he
  obtain rfl : o = o' := by simpa [hp] using hp'
  -- a permit is there, so all other ways out are closed
  have htake : ((s.sema o).unpublish (.fiber t)).take =
      some { (s.sema o).unpublish (.fiber t) with count := (s.sema o).count - 1 } :=
    if_pos (show 0 < (s.sema o).count by omega)
  obtain ⟨hd, -⟩ | ⟨hf', -⟩ | ⟨ht', -⟩ | ⟨x, hx, rfl⟩ | ⟨hx, -⟩ := hcase
  · simp [h.deleted] at hd
  · simp [State.flag, hf] at hf'
  · simp [State.flag, hterm] at ht'
  · rw [htake] at hx
    cases hx
    refine ⟨⟨h.created, ?_, ?_, ?_, ?_, fun u hu => ?_⟩, by simp⟩
    · simp [SemaInfo.unpublish, h.waitList]
    · simp [SemaInfo.unpublish, h.deleted]
    · simp only [grant_place, grant_sema, State.setSema, inWait_idle, Function.update_self, hcard]
      omega
    · simp only [State.grant, State.leave, State.setSema, State.setLedger, State.setPlace,
        State.setExit, State.onRecord, State.setInfo, inWait_idle, Function.update_self, hcard]
      omega
    · simp only [grant_place, State.setSema, inWait_idle, Finset.mem_erase] at hu
      have hinfo := h.info u hu.2
      simpa [State.grant, State.leave, State.setSema, State.setLedger, State.setPlace, State.setExit,
        State.onRecord, State.setInfo, hu.1] using hinfo
  · simp [htake] at hx

/-- **One step** while the threads run. -/
theorem step (he : Serving o ws s a s') : Serve o ws s' total := by
  obtain ⟨he, rfl | hap | ⟨t, ht, token, released, rfl⟩⟩ := he
  · exact h.signal he
  · exact h.apart (hap.step h.created he)
  · by_cases hp : s.place (.fiber t) = .blocked o
    · exact (h.wake (Finset.mem_filter.2 ⟨List.mem_toFinset.2 ht, hp⟩) he).1
    · have hap : Apart o ws s (.wake (.fiber t) token released) := hp
      exact h.apart (hap.step h.created he)

end

end Serve

theorem wake_isSome (hp : s.place (.fiber t) = .blocked o) (token : Token) (released : Bool) :
    ∃ s', step s (.wake (.fiber t) token released) = some s' := by
  simp only [step, State.wake, hp]
  split
  · exact ⟨_, rfl⟩
  · split
    · exact ⟨_, rfl⟩
    · split
      · exact ⟨_, rfl⟩
      · split
        · exact ⟨_, rfl⟩
        · exact ⟨_, rfl⟩

/-- **Signals serve the waiters up to the maximum.** A semaphore of a reachable state has the count
0 and threads `ws` on its wait-list. Of the signals that come before one of them runs, as many are
accepted as the maximum count says. If that is enough for as many signals as threads, they leave
nobody on the list, and when the threads then run, in any order and as long as nobody else takes
a permit, each of them obtains one. -/
theorem signals_serve_waiters (h0 : s₀.Initial) (h : Run Step s₀ as s) (hs : ∀ t, .shutdown t ∉ as)
    (ho : o < s.created) (hd : (s.sema o).deleted = false) (hc : (s.sema o).count = 0)
    (hws : (s.sema o).waitList.map Prod.fst = ws) (hu : ∀ t ∈ ws, Unmarked (s.info t))
    (hbs : Run (Signalling o ws) s bs s₁) :
    (s₁.ledger o).signals =
      (s.ledger o).signals + min (bs.count (.signalSema o) : ℤ) (s.sema o).maxCount ∧
    (bs.count (.signalSema o) = ws.length → (ws.length : ℤ) ≤ (s.sema o).maxCount →
      (s₁.sema o).waitList = [] ∧
      ∀ cs s₂, Run (Serving o ws) s₁ cs s₂ →
        (s₂.ledger o).permits + (inWait s₂.place o ws).card = (s.ledger o).permits + ws.length ∧
        ∀ t ∈ ws, s₂.place (.fiber t) = .blocked o → ∀ token released,
          ∃ s₃, step s₂ (.wake (.fiber t) token released) = some s₃ ∧ s₃.exit (.fiber t) = some .permit) := by
  obtain ⟨W, hW⟩ := run_counted h0 h hs
  have hg := hW.inv.good o ho
  have hmax := hg.le
  have hrow := signals_in_a_row hW.inv ho hbs
  have hacc : ((s.sema o).accepts (bs.count (.signalSema o)) : ℤ) =
      min (bs.count (.signalSema o) : ℤ) (s.sema o).maxCount := by
    rw [SemaInfo.accepts, hc]
    omega
  refine ⟨by rw [hrow.signals, hacc], fun hn hle => ?_⟩
  -- all signals are accepted, so the list is dropped as a whole
  have hall : (s.sema o).accepts (bs.count (.signalSema o)) = ws.length := by omega
  have hlist : (s₁.sema o).waitList = [] := by
    rw [hrow.sema, hall, ← hws, List.length_map]
    simp [SemaInfo.signalled]
  refine ⟨hlist, fun cs s₂ hcs => ?_⟩
  have hblocked : ∀ t ∈ ws, s.place (.fiber t) = .blocked o := by
    intro t ht
    rw [← hws] at ht
    obtain ⟨e, he, rfl⟩ := List.mem_map.1 ht
    exact hW.blocked ho he
  have hin : inWait s₁.place o ws = ws.toFinset := by
    refine Finset.filter_true_of_mem fun t ht => ?_
    rw [List.mem_toFinset] at ht
    exact (hrow.place t ht).2 (hblocked t ht)
  have hcard : (inWait s₁.place o ws).card = ws.length := by
    rw [hin]
    exact List.toFinset_card_of_nodup (hws ▸ hg.nodup)
  have hserve : Serve o ws s₁ ((s.ledger o).permits + ws.length) := by
    refine ⟨hrow.created, hlist, ?_, ?_, ?_, fun t ht => ?_⟩
    · rw [hrow.sema]
      exact hd
    · rw [hrow.sema, hcard, hall]
      show (ws.length : ℤ) ≤ (s.sema o).count + ws.length
      omega
    · rw [hrow.permits, hcard]
    · rw [hin, List.mem_toFinset] at ht
      exact hrow.info t ht (hblocked t ht) (hu t ht)
  have hend := hcs.state_invariant (I := fun s => Serve o ws s _) hserve fun _ _ _ hs he => hs.step he
  refine ⟨hend.permits, fun t ht hp token released => ?_⟩
  obtain ⟨s₃, he⟩ := wake_isSome hp token released
  exact ⟨s₃, he, (hend.wake (Finset.mem_filter.2 ⟨List.mem_toFinset.2 ht, hp⟩) he).2⟩

/-- Two threads wait on a semaphore with maximum `max`. -/
def twoWaiters (max : BitVec 32) : List Act :=
  [.createSema [0, max, 0], .waitSema (.fiber 1) 0 1 false, .waitSema (.fiber 2) 0 2 false]

/-- The state after acts from the start. -/
def stateAfter (as : List Act) : State := after step .init as

theorem run_stateAfter (h : (as.foldlM step .init).isSome = true) : Run Step .init as (stateAfter as) :=
  .of_foldlM (foldlM_eq_after h)

theorem twoWaiters_served :
    ((stateAfter (twoWaiters 2)).sema 0).waitList.map Prod.fst = [1, 2] ∧
    ∃ s₃, step (after step (stateAfter (twoWaiters 2)) [.signalSema 0, .signalSema 0])
        (.wake (.fiber 2) 0 false) = some s₃ ∧
      s₃.exit (.fiber 2) = some .permit := by
  have hbs : Run (Signalling 0 [1, 2]) (stateAfter (twoWaiters 2)) [.signalSema 0, .signalSema 0]
      (after step (stateAfter (twoWaiters 2)) [.signalSema 0, .signalSema 0]) := by
    refine ((Run.of_foldlM (foldlM_eq_after (by decide))).of_labels (P := fun a => a = .signalSema 0)
      (by simp)).mono fun s a s' hs => ⟨hs.1, .inl hs.2⟩
  have hu : ∀ t ∈ [1, 2], Unmarked ((stateAfter (twoWaiters 2)).info t) := by
    intro t ht
    obtain rfl | rfl : t = 1 ∨ t = 2 := by simpa using ht
    · exact ⟨by decide, by decide⟩
    · exact ⟨by decide, by decide⟩
  have hrun : Run Step .init (twoWaiters 2) (stateAfter (twoWaiters 2)) := run_stateAfter (by decide)
  have hws : ((stateAfter (twoWaiters 2)).sema 0).waitList.map Prod.fst = [1, 2] := by decide
  have h := (signals_serve_waiters ⟨rfl, rfl, fun _ => rfl⟩ hrun (by simp [twoWaiters]) (by decide)
    (by decide) (by decide) hws hu hbs).2 (by decide) (by decide)
  exact ⟨hws, (h.2 [] _ .nil).2 2 (by simp) (by decide) 0 false⟩

/-- With maximum 1 the second of two signals in a row overflows, and a thread is on the list. -/
theorem signal_overflows_before_waiter : ¬∀ (s₀ : State) (as : List Act) (s : State) (o : ℕ),
    s₀.Initial → Run Step s₀ as s → (∀ t, .shutdown t ∉ as) → o < s.created →
    (s.sema o).deleted = false → (s.sema o).waitList ≠ [] → (s.sema o).signal ≠ none := by
  intro h
  refine h .init (twoWaiters 1 ++ [.signalSema 0]) (stateAfter (twoWaiters 1 ++ [.signalSema 0])) 0
    ⟨rfl, rfl, fun _ => rfl⟩ (run_stateAfter (by decide)) ?_ ?_ ?_ ?_ ?_
  · simp [twoWaiters]
  · decide
  · decide
  · decide
  · decide

end Ps2Recomp.Sema
