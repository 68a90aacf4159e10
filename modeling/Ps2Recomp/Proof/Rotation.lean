import Ps2Recomp.Proof.Fate
import Ps2Recomp.Proof.Priority
import Ps2Recomp.Proof.Waiting

/-!
# Rotation does not give up the processor

`RotateThreadReadyQueue` moves the first ready fiber of the priority behind the others, but the
caller itself is not in the queue, and `maybe_yield` gives way to a strictly higher priority only.
So the other fibers of the caller's priority run before it goes on exactly when the queue's head
happens to have a higher priority: then the caller queues itself behind all of them.

* `stays_queued`: what takes a ready fiber out of the queue.
* `Behind.step`: a fiber that has yielded does not come before one that was queued first.
* `others_first_iff`: when a call lets the other fibers run first.
-/

namespace Ps2Recomp.Sched

open Intrusive Transition
open scoped List

open State

variable {s s' s₀ : State} {t u v : Tid} {l l' : List Tid} {fuel : ℕ} {a : Act} {as : List Act}

/-! ### A ready fiber stays queued -/

/-- A ready fiber leaves the queue only when it runs or is suspended. -/
theorem stays_queued (h : Inv s l) (hu : u ∈ l) (hidle : s.runningFiber ≠ some u) (ha : a ≠ .suspendOther u)
    (he : step fuel s a = some s') (hrun : s'.runningFiber ≠ some u) (h' : Inv s' l') : u ∈ l' := by
  have hlive := h.queue.live u hu
  have hflag := (h.queue.linked u hlive).2 hu
  have hready := (h.ready u hlive).2 hu
  have hres : s.executor ≠ .resuming u := fun hx => hidle ((h.resuming u).1 hx)
  -- it is enough to see it in the map with its flag set
  suffices hkeep : u ∈ s'.fiberMap ∧ (s'.fibers u).inRunQueue = true from
    (h'.queue.linked u hkeep.1).1 hkeep.2
  by_cases ht : Touches s u a
  · cases ho : a.own with
    | some w =>
      obtain rfl := touches_own ht ho
      exact absurd (own_step ho he).resuming hres
    | none =>
      cases hw : a.woken with
      | some w =>
        obtain rfl := touches_woken ht hw
        obtain rfl | ⟨-, ⟨-, hw⟩ | ⟨b, hw⟩⟩ := woken_step hw he
        · exact ⟨hlive, hflag⟩
        · rw [wakeLocked, if_pos hflag] at hw
          cases hw
          exact ⟨hlive, hflag⟩
        · rw [wakeLocked, if_pos (by simpa using hflag)] at hw
          cases hw
          exact ⟨hlive, by simpa using hflag⟩
      | none =>
        unfold step at he
        split at he
        · cases he
        · cases a <;> cases ho <;> cases hw
          case isFalse.executorWait.refl.refl =>
            obtain ⟨-, rfl | ⟨d, g, rfl | ⟨-, -, w, s1, hp, rfl⟩⟩⟩ := executorWait_cases he
            · exact ⟨hlive, hflag⟩
            · exact ⟨hlive, hflag⟩
            · have hhead : s.runQueue = some w := (popHeadLocked_form hp).1
              obtain rfl : w = u := Option.some.inj (hhead.symm.trans ht)
              exact absurd rfl hrun
          case isFalse.executorPost.refl.refl => exact absurd ht hres
          case isFalse.maybeYield.refl.refl w =>
            obtain rfl : w = u := ht
            simp only [maybeYield, yieldTo] at he
            split at he
            · next hat => exact absurd hat.1 hres
            · cases he
          case isFalse.forceReschedule.refl.refl w =>
            obtain rfl : w = u := ht
            simp only [forceReschedule, yieldTo] at he
            split at he
            · next hat => exact absurd hat.1 hres
            · cases he
          case isFalse.createFiber.refl.refl w p =>
            obtain rfl : w = u := ht
            simp [createFiber, hlive] at he
          case isFalse.suspendOther.refl.refl w =>
            obtain rfl : w = u := ht
            exact absurd rfl ha
          case isFalse.schedulerShutdown.refl.refl order =>
            simp only at he
            split at he
            · have hkeep := shutdown_preserves (f := u)
                (Q := fun s => u ∈ s.fiberMap ∧ (s.fibers u).inRunQueue = true ∧ (s.fibers u).state = .ready)
                (fun s s' hu' hq => ⟨hu'.live hq.1, hu'.inRunQueue ▸ hq.2.1, hu'.state ▸ hq.2.2⟩)
                (fun s s' hs hq => by
                  rw [shutdownFiber, hq.2.2] at hs
                  cases hs
                  simpa using hq) he ⟨hlive, hflag, hready⟩
              exact ⟨hkeep.1, hkeep.2.1⟩
            · cases he
          all_goals exact ht.elim (fun h => by cases h) (fun h => by cases h)
  · have hun := step_untouched h ht he
    exact ⟨hun.live hlive, hun.inRunQueue.trans hflag⟩

/-! ### A fiber that has yielded -/

/-- `t` is in its `ps2fiber_yield`. -/
structure Yielded (s : State) (t : Tid) : Prop where
  live : t ∈ s.fiberMap
  pc : s.pc t = .yielded
  unfinished : (s.fibers t).state ≠ .finished

theorem Yielded.step (h : Yielded s t) (hi : Inv s l) (he : step fuel s a = some s')
    (hrun : s.runningFiber = none → s'.runningFiber ≠ some t) : Yielded s' t := by
  cases step_fate hi h.live he with
  | own ha ho =>
    have hx := ho.executing
    rw [h.pc] at hx
    cases hx
  | yields hat => exact absurd (hat.2.symm.trans h.pc) (by decide)
  | resumed hlive hpc hgen hstate hidle hr => exact absurd hr (hrun hidle)
  | left hx hpc hgen hstate =>
    rcases hstate with ⟨hs, -⟩ | ⟨-, hlive, hs⟩
    · exact absurd hs h.unfinished
    · exact ⟨hlive, hpc.trans h.pc, hs⟩
  | unmoved hu =>
    refine ⟨hu.live, hu.pc.trans h.pc, ?_⟩
    rcases hu.state with hs | hs
    · exact hs ▸ h.unfinished
    · exact hs

/-! ### Behind the others -/

/-- A section while `u` waits to run and `t` waits behind it: neither gets another priority, `u` is
not rotated and not suspended, and does not run. -/
structure Awaits (u t : Tid) (s : State) (a : Act) (s' : State) : Prop where
  step : Step s a s'
  unmoved : ¬Moves s u a
  priority : ∀ p, a ≠ .updatePriority t p
  unsuspended : a ≠ .suspendOther u
  waiting : s'.runningFiber ≠ some u

/-- `u` is ready, with the priority of `t`. -/
structure Beside (s : State) (u t : Tid) (l : List Tid) : Prop where
  inv : Inv s l
  queued : u ∈ l
  idle : s.runningFiber ≠ some u
  priority : (s.fibers u).priority = (s.fibers t).priority
  live : t ∈ s.fiberMap

theorem Inv.writesKey_idle (h : Inv s l) (hu : u ∈ s.fiberMap) (hidle : s.runningFiber ≠ some u)
    (hp : ∀ p, a ≠ .updatePriority u p) (he : Sched.step fuel s a = some s') : a.writesKey u = false := by
  by_contra hw
  rw [Bool.not_eq_false] at hw
  have hres : s.executor ≠ .resuming u := fun hx => hidle ((h.resuming u).1 hx)
  cases a <;> simp only [Act.writesKey, decide_eq_true_eq, Bool.false_eq_true] at hw
  case createFiber w p =>
    subst hw
    unfold Sched.step at he
    split at he
    · cases he
    · simp [State.createFiber, hu] at he
  case updatePriority w p => exact hp p (hw ▸ rfl)
  case joinIteration w =>
    subst hw
    exact hres (own_step (t := w) rfl he).resuming
  case joinRestore w =>
    subst hw
    exact hres (own_step (t := w) rfl he).resuming

theorem Awaits.priority_eq (h : Awaits u t s a s') (hb : Beside s u t l) :
    (s'.fibers u).priority = (s.fibers u).priority := by
  obtain ⟨fuel, he⟩ := h.step
  refine step_priority (hb.inv.writesKey_idle (hb.inv.queue.live u hb.queued) hb.idle ?_ he) he
  intro p hp
  exact h.unmoved (hp ▸ rfl)

theorem Beside.step (hb : Beside s u t l) (h : Awaits u t s a s') (hinv : Inv s' l')
    (ht : (s'.fibers t).priority = (s.fibers t).priority) (hlive : t ∈ s'.fiberMap) : Beside s' u t l' := by
  have hpu := h.priority_eq hb
  obtain ⟨fuel, he⟩ := h.step
  exact { inv := hinv
          queued := stays_queued hb.inv hb.queued hb.idle h.unsuspended he h.waiting hinv
          idle := h.waiting
          priority := by rw [hpu, ht, hb.priority]
          live := hlive }

/-- `t` has yielded, and is not queued in front of `u`. -/
structure Behind (s : State) (u t : Tid) (l : List Tid) : Prop extends Beside s u t l where
  yielded : Yielded s t
  order : t ∈ l → [u, t] <+ l

theorem mem_front {x y : List Tid} (hnd : (x ++ t :: y).Nodup) (h : [u, t] <+ x ++ t :: y) : u ∈ x := by
  have hy : t ∉ y := (List.nodup_cons.1 (List.nodup_append.1 hnd).2.1).1
  obtain ⟨r1, r2, hr, h1, h2⟩ := List.sublist_append_iff.1 h
  cases r1 with
  | cons w r1 =>
    obtain ⟨rfl, -⟩ := List.cons.inj hr
    exact h1.subset List.mem_cons_self
  | nil =>
    obtain rfl : [u, t] = r2 := hr
    rcases List.sublist_cons_iff.1 h2 with h2 | ⟨r, hr, h2⟩
    · exact absurd (h2.subset (by simp)) hy
    · cases hr
      exact absurd (h2.subset (by simp)) hy

/-- A rotation moves the first fiber of its priority, so not one that has another in front. -/
theorem Behind.not_moved (h : Behind s u t l) (hp : ∀ p, a ≠ .updatePriority t p) : ¬Moves s t a := by
  intro hm
  cases a <;> simp only [Moves] at hm
  case updatePriority w p => exact hp p (hm ▸ rfl)
  case rotateReadyQueue p =>
    obtain ⟨x, y, hq, hpt, hx⟩ := hm
    obtain rfl := h.inv.queue.spells.unique hq.spells
    have hux := mem_front h.inv.queue.nodup (h.order (by simp))
    exact hx u hux (h.priority.trans hpt)

/-- **One section.** -/
theorem Behind.step (h : Behind s u t l) (hw : Awaits u t s a s') : ∃ l', Behind s' u t l' := by
  obtain ⟨fuel, he⟩ := hw.step
  obtain ⟨l', hinv, hc⟩ := h.inv.step he
  -- the executor switches to the head of the queue, which `t` is not
  have hpop : s.runningFiber = none → s'.runningFiber ≠ some t := by
    intro hidle hr
    cases hc with
    | grows hg hr' =>
      rcases hr' with hr' | hr'
      · exact absurd (hr.symm.trans hr') (by simp [hidle])
      · exact absurd (hr.symm.trans hr') (by simp)
    | drop w hr' => exact absurd (hr.symm.trans hr') (by simp [hidle])
    | move w hm hs hp hr' => exact absurd (hr.symm.trans hr') (by simp [hidle])
    | pop w hl hr' =>
      obtain rfl : t = w := Option.some.inj (hr.symm.trans hr')
      subst hl
      have hut := h.order List.mem_cons_self
      have hfront := mem_front (x := []) h.inv.queue.nodup hut
      cases hfront
  have hy := h.yielded.step h.inv he hpop
  have hkey : a.writesKey t = false := by
    by_contra hkey
    rw [Bool.not_eq_false] at hkey
    have hres : ∀ w, a.own = some w → w ≠ t := by
      rintro w ho rfl
      have hx := (own_step ho he).executing
      rw [h.yielded.pc] at hx
      cases hx
    cases a <;> simp only [Act.writesKey, decide_eq_true_eq, Bool.false_eq_true] at hkey
    case createFiber w p =>
      subst hkey
      unfold Sched.step at he
      split at he
      · cases he
      · simp [createFiber, h.live] at he
    case updatePriority w p => exact hw.priority p (hkey ▸ rfl)
    case joinIteration w => exact hres w rfl hkey
    case joinRestore w => exact hres w rfl hkey
  have hb := h.toBeside.step hw hinv (step_priority hkey he) hy.live
  refine ⟨l', { hb with yielded := hy, order := ?_ }⟩
  intro htl'
  by_cases htl : t ∈ l
  · exact hc.keeps_order h.inv.queue.nodup (h.order htl) hb.queued htl' hw.unmoved (h.not_moved hw.priority)
  · exact hc.comes_behind h.queued htl htl' hb.priority

/-- **A run.** `t` does not go on as long as `u` waits. -/
theorem Behind.run (h : Behind s u t l) (hrun : Run (Awaits u t) s as s') : s'.pc t = .yielded := by
  obtain ⟨l', h'⟩ := hrun.state_invariant (I := fun s => ∃ l, Behind s u t l) ⟨l, h⟩ fun s a s' ⟨l, hl⟩ hw => hl.step hw
  exact h'.yielded.pc

/-! ### The call -/

/-- `maybe_yield` goes on, or queues the fiber where the head of the queue has a higher priority. -/
theorem maybeYield_cases (he : step fuel s (.maybeYield t) = some s') :
    s.At t .code ∧
      ((∀ v, s.runQueue = some v → ¬(s.fibers v).priority < (s.fibers t).priority) ∧ s' = s ∨
      (∃ v, s.runQueue = some v ∧ (s.fibers v).priority < (s.fibers t).priority) ∧
        ∃ s1, s.enqueueLocked fuel t = some s1 ∧ s' = s1.setPc t .yielded) := by
  unfold step at he
  split at he
  · cases he
  simp only [maybeYield, yieldTo] at he
  split at he
  · next hat =>
    refine ⟨hat, ?_⟩
    split at he
    · next hq =>
      left
      refine ⟨fun v hv => ?_, (Option.some.inj he).symm⟩
      rw [hq] at hv
      cases hv
    · next head hq =>
      split at he
      · next hlt =>
        right
        obtain ⟨s1, he1, hs'⟩ := Option.bind_eq_some_iff.1 he
        exact ⟨⟨head, hq, by simpa using hlt⟩, s1, he1, (Option.some.inj hs').symm⟩
      · next hlt =>
        left
        refine ⟨fun v hv => ?_, (Option.some.inj he).symm⟩
        obtain rfl : head = v := Option.some.inj (hq.symm.trans hv)
        simpa using hlt
  · cases he

/-- `u` waits from the rotation until `maybe_yield` looks. -/
def AwaitsUntil (u t : Tid) (rotated looks : State) : Prop :=
  ∃ as, Run (fun s a s' => ByOther t s a s' ∧ Awaits u t s a s') rotated as looks

/-- Every fiber that is ready at the call with the caller's priority runs before the caller goes
on, however long it waits. -/
def OthersFirst (s : State) (t : Tid) (rotated looks s' : State) : Prop :=
  ∀ u, s.Queued u → (s.fibers u).priority = (s.fibers t).priority → AwaitsUntil u t rotated looks →
    ∀ as s'', Run (Awaits u t) s' as s'' → s''.pc t ≠ .code

theorem Back.byOther (hi : Inv s l) (h : Back s t) (ho : ByOther t s a s') : Back s' t := by
  obtain ⟨⟨fuel, he⟩, hb⟩ := ho
  by_cases hstop : ∃ order, a = .schedulerShutdown order
  · obtain ⟨order, rfl⟩ := hstop
    unfold Sched.step at he
    split at he
    · cases he
    simp only at he
    split at he
    · refine shutdown_preserves (f := t) (Q := fun s => Back s t) (fun s s' hu hq => hq.untouched hu)
        (fun s s' hs hq => ?_) he h
      obtain rfl | ⟨b, hw⟩ := shutdownFiber_cases hs
      · exact hq
      · have hk := wakeLocked_keeps hw
        exact ⟨hk.runningFiber.trans hq.1, by rw [hk.pc]; exact hq.2⟩
    · cases he
  · push Not at hstop
    exact h.step hi hb hstop he

/-- Another thread writes the key of a live fiber in `update_priority` only. -/
theorem ByOther.writesKey (ho : ByOther t s a s') (hlive : t ∈ s.fiberMap)
    (hp : ∀ p, a ≠ .updatePriority t p) : a.writesKey t = false := by
  by_contra hkey
  rw [Bool.not_eq_false] at hkey
  obtain ⟨⟨fuel, he⟩, hby⟩ := ho
  cases a <;> simp only [Act.writesKey, decide_eq_true_eq, Bool.false_eq_true] at hkey
  case createFiber w p =>
    subst hkey
    unfold step at he
    split at he
    · cases he
    · simp [createFiber, hlive] at he
  case updatePriority w p => exact hp p (hkey ▸ rfl)
  case joinIteration w => exact hby (hkey ▸ rfl)
  case joinRestore w => exact hby (hkey ▸ rfl)

/-- The two stay beside each other until `maybe_yield` looks. -/
theorem Beside.between {looks : State} (h : Beside s u t l) (hback : Back s t)
    (hrun : AwaitsUntil u t s looks) : ∃ l', Beside looks u t l' := by
  obtain ⟨as, hrun⟩ := hrun
  obtain ⟨l', h', -⟩ := hrun.state_invariant (I := fun s => ∃ l, Beside s u t l ∧ Back s t)
    ⟨l, h, hback⟩ fun s a s' ⟨l, hl, hb⟩ ⟨ho, haw⟩ => by
      obtain ⟨fuel, he⟩ := haw.step
      obtain ⟨l', hinv, -⟩ := hl.inv.step he
      have hb' := hb.byOther hl.inv ho
      have hkey := ho.writesKey hl.live haw.priority
      exact ⟨l', hl.step haw hinv (step_priority hkey he) (hinv.live t hb'.1), hb'⟩
  exact ⟨l', h'⟩

/-- The rotation itself leaves the ready fibers ready. -/
theorem Beside.rotated {p : ℤ} (h : Beside s u t l) (he : Sched.step fuel s (.rotateReadyQueue p) = some s') :
    ∃ l', Beside s' u t l' := by
  have hq : s.rotateReadyQueue fuel p = some s' := by
    unfold Sched.step at he
    split at he
    · cases he
    · exact he
  obtain ⟨l', hinv, -, hperm⟩ := h.inv.rotateReadyQueue hq
  have hkeys := fun f => step_priority (f := f) (a := .rotateReadyQueue p) rfl he
  refine ⟨l', hinv, hperm.mem_iff.2 h.queued, ?_, ?_, ?_⟩
  · obtain rfl | ⟨c, rfl⟩ := rotateReadyQueue_form hq
    · exact h.idle
    · exact h.idle
  · rw [hkeys, hkeys, h.priority]
  · obtain rfl | ⟨c, rfl⟩ := rotateReadyQueue_form hq
    · exact h.live
    · exact h.live

/-- **The others run first** exactly when the head of the queue that `maybe_yield` finds has a
strictly higher priority than the caller. -/
theorem others_first_iff {rotated looks : State} {arg currentPriority : ℤ} (h0 : s₀.Initial)
    (hrun : Run Step s₀ as s) (hcall : RotateCall s t arg currentPriority rotated looks s')
    (hother : ∃ u, s.Queued u ∧ (s.fibers u).priority = (s.fibers t).priority ∧ AwaitsUntil u t rotated looks) :
    OthersFirst s t rotated looks s' ↔
      ∃ v, looks.runQueue = some v ∧ (looks.fibers v).priority < (looks.fibers t).priority := by
  obtain ⟨l, hi⟩ := run_inv h0 hrun
  have hx := (hi.resuming t).1 hcall.runs.1
  have hlive := hi.live t hx
  obtain ⟨prio, -, fuel, hrot⟩ := hcall.rotate
  obtain ⟨fuel', hyield⟩ := hcall.yield
  obtain ⟨hat, hcases⟩ := maybeYield_cases hyield
  constructor
  · intro hfirst
    rcases hcases with ⟨-, rfl⟩ | ⟨hhead, -⟩
    · obtain ⟨u, hu, hpu, hw⟩ := hother
      exact absurd hat.2 (hfirst u hu hpu hw [] _ .nil)
    · exact hhead
  · intro hhead u hu hpu hw bs s'' hrun'' hcode
    have hul := hi.queued_iff.1 hu
    have hbeside : Beside s u t l :=
      { inv := hi
        queued := hul
        idle := by
          rw [hx]
          rintro h
          cases h
          exact hi.not_mem_of_executing hcall.runs.1 (by rw [hcall.runs.2]; rfl) hul
        priority := hpu
        live := hlive }
    obtain ⟨l₁, hb₁⟩ := hbeside.rotated hrot
    have hback : Back rotated t := by
      have hq : s.rotateReadyQueue fuel prio = some rotated := by
        unfold step at hrot
        split at hrot
        · cases hrot
        · exact hrot
      have hform := rotateReadyQueue_form hq
      have hr : rotated.runningFiber = s.runningFiber ∧ rotated.pc = s.pc := by
        rcases hform with h | ⟨c, h⟩
        · exact ⟨by rw [h], by rw [h]⟩
        · exact ⟨by rw [h]; rfl, by rw [h]; rfl⟩
      exact ⟨hr.1.trans hx, by rw [hr.2]; exact hcall.runs.2⟩
    obtain ⟨l₂, hb₂⟩ := hb₁.between hback hw
    rcases hcases with ⟨hno, -⟩ | ⟨-, s₁, he₁, rfl⟩
    · obtain ⟨v, hv, hlt⟩ := hhead
      exact hno v hv hlt
    -- the caller queues itself behind `u`
    obtain ⟨l₃, hinv₃, hc⟩ := hb₂.inv.step hyield
    have htl : t ∉ l₂ := hb₂.inv.not_mem_of_executing hat.1 (by rw [hat.2]; rfl)
    have hkeys := fun f => step_priority (f := f) (a := .maybeYield t) rfl hyield
    obtain ⟨hflag, rfl⟩ | ⟨-, c, rfl⟩ := enqueueLocked_form he₁
    · exact absurd ((hb₂.inv.queue.linked t hb₂.live).1 hflag) htl
    have hidle : ((((looks.modify t fun fc => { fc with inRunQueue := true, state := .ready }).setChain
        c).setPc t .yielded).runningFiber) ≠ some u := hb₂.idle
    have hu₃ := stays_queued hb₂.inv hb₂.queued hb₂.idle (by simp) hyield hidle hinv₃
    have hbehind : Behind _ u t l₃ :=
      { inv := hinv₃
        queued := hu₃
        idle := hidle
        priority := by rw [hkeys, hkeys, hb₂.priority]
        live := hb₂.live
        yielded := ⟨hb₂.live, by simp, by simp⟩
        order := fun htl₃ => hc.comes_behind hb₂.queued htl htl₃ (by rw [hkeys, hkeys, hb₂.priority]) }
    rw [hbehind.run hrun''] at hcode
    cases hcode

theorem queued_of_flag (h0 : s₀.Initial) (hrun : Run Step s₀ as s) (hu : u ∈ s.fiberMap)
    (hflag : (s.fibers u).inRunQueue = true) : s.Queued u := by
  obtain ⟨l, hi⟩ := run_inv h0 hrun
  exact hi.queued_iff.2 ((hi.queue.linked u hu).1 hflag)

/-- Fiber 1 runs, fiber 2 is ready with the same priority. -/
def twoEqual : List Act := [.createFiber 1 10, .createFiber 2 10, .executorWait]

/-- Fiber 3, of a higher priority, has become ready meanwhile. -/
def higherReady : List Act := twoEqual ++ [.createFiber 3 5]

/-- The states of a call that rotates priority 10 behind some steps. -/
def rotatedBehind (as : List Act) : State := stateAfter 5 (as ++ [.rotateReadyQueue 10])

def calledBehind (as : List Act) : State :=
  stateAfter 5 (as ++ [.rotateReadyQueue 10] ++ [.maybeYield 1])

theorem others_first_higher : OthersFirst (stateAfter 5 higherReady) 1 (rotatedBehind higherReady)
    (rotatedBehind higherReady) (calledBehind higherReady) := by
  have hrun : Run Step State.init higherReady (stateAfter 5 higherReady) := run_stateAfter (by decide)
  have hcall : RotateCall (stateAfter 5 higherReady) 1 0 10 (rotatedBehind higherReady)
      (rotatedBehind higherReady) (calledBehind higherReady) :=
    ⟨⟨by decide, by decide⟩, ⟨10, by decide, step_stateAfter (by decide)⟩, ⟨[], .nil⟩, step_stateAfter (by decide)⟩
  have hready := queued_of_flag (u := 2) State.init_initial hrun (by decide) (by decide)
  exact (others_first_iff State.init_initial hrun hcall ⟨2, hready, by decide, [], .nil⟩).2 ⟨3, by decide, by decide⟩

/-- **The caller goes on at once**, with the other fiber of its priority still waiting. -/
theorem rotation_keeps_running : ¬∀ (s₀ s rotated looks s' : State) (as : List Act) (t : Tid)
    (arg currentPriority : ℤ), s₀.Initial → Run Step s₀ as s →
    rotatedPriority arg currentPriority = some (s.fibers t).priority →
    RotateCall s t arg currentPriority rotated looks s' →
    (∃ u, s.Queued u ∧ (s.fibers u).priority = (s.fibers t).priority ∧ AwaitsUntil u t rotated looks) →
    OthersFirst s t rotated looks s' := by
  intro h
  have hrun : Run Step State.init twoEqual (stateAfter 5 twoEqual) := run_stateAfter (by decide)
  have hcall : RotateCall (stateAfter 5 twoEqual) 1 0 10 (rotatedBehind twoEqual)
      (rotatedBehind twoEqual) (calledBehind twoEqual) :=
    ⟨⟨by decide, by decide⟩, ⟨10, by decide, step_stateAfter (by decide)⟩, ⟨[], .nil⟩, step_stateAfter (by decide)⟩
  have hready := queued_of_flag (u := 2) State.init_initial hrun (by decide) (by decide)
  have hwaits : AwaitsUntil 2 1 (rotatedBehind twoEqual) (rotatedBehind twoEqual) := ⟨[], .nil⟩
  have hfirst := h _ _ _ _ _ _ _ _ _ State.init_initial hrun (by decide) hcall ⟨2, hready, by decide, hwaits⟩
  exact hfirst 2 hready (by decide) hwaits [] _ .nil (by decide)

end Ps2Recomp.Sched
