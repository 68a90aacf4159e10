import Ps2Recomp.Proof.QueueEdits

/-!
# The run queue in every run

A queued fiber's priority is written in one place only, `update_priority`, which takes it out
first. The other writes, the floor of `join_fiber` and its restore, are on the fiber that
executes, and this one is never queued (`Inv.executing`).
-/

namespace Ps2Recomp.Sched

open Intrusive Transition
open scoped List

open State

variable {s s' : State} {t u : Tid} {l l' : List Tid} {fuel : ℕ} {a : Act}

/-- **The invariant of the run queue.** -/
structure Inv (s : State) (l : List Tid) : Prop where
  queue : s.Queue l
  ready : ∀ t ∈ s.fiberMap, ((s.fibers t).state = .ready ↔ t ∈ l)
  live : ∀ t, s.runningFiber = some t → t ∈ s.fiberMap
  resuming : ∀ t, s.executor = .resuming t ↔ s.runningFiber = some t
  executing : ∀ t, s.runningFiber = some t → (s.pc t).executing = true → t ∉ l
  ids : ∀ t ∈ s.fiberMap, t ≠ 0

/-- `a` changes the place of the queued fiber `t`: `update_priority` of it, or a rotation of
which it is the first of its priority. -/
def Moves (s : State) (t : Tid) : Act → Prop
  | .updatePriority u _ => u = t
  | .rotateReadyQueue p => ∃ a b, s.Queue (a ++ t :: b) ∧ (s.fibers t).priority = p ∧ ∀ u ∈ a, (s.fibers u).priority ≠ p
  | _ => False

/-- Fibers have come in behind those of their priority. -/
def Grows (priority : Tid → ℤ) (l l' : List Tid) : Prop :=
  l <+ l' ∧ ∀ t ∈ l', t ∉ l → ∀ u ∈ l, priority u ≤ priority t → [u, t] <+ l'

/-- What a step does to the queue. -/
inductive Change (s : State) (a : Act) (s' : State) (l : List Tid) : List Tid → Prop
  | grows {l' : List Tid} (h : Grows (fun u => (s'.fibers u).priority) l l')
      (hr : s'.runningFiber = s.runningFiber ∨ s'.runningFiber = none) : Change s a s' l l'
  /-- pulled out by `suspend_other` -/
  | drop (t : Tid) (hr : s'.runningFiber = s.runningFiber) : Change s a s' l (l.erase t)
  | pop (t : Tid) {l' : List Tid} (h : l = t :: l') (hr : s'.runningFiber = some t) : Change s a s' l l'
  | move (t : Tid) {l' : List Tid} (hm : Moves s t a) (hs : l.erase t <+ l') (hp : l'.Perm l)
      (hr : s'.runningFiber = s.runningFiber) : Change s a s' l l'

theorem Grows.refl (k : Tid → ℤ) (l : List Tid) : Grows k l l :=
  ⟨List.Sublist.refl l, fun _ h hn => absurd h hn⟩

theorem Grows.trans {k : Tid → ℤ} {l'' : List Tid} (h : Grows k l l') (h' : Grows k l' l'') : Grows k l l'' := by
  refine ⟨h.1.trans h'.1, fun t ht hl u hu hp => ?_⟩
  by_cases hl' : t ∈ l'
  · exact (h.2 t hl' hl u hu hp).trans h'.1
  · exact h'.2 t ht hl' u (h.1.subset hu) hp

theorem Grows.insertBehind (h : s.Queue l) : Grows (fun u => (s.fibers u).priority) l (s.insertBehind t l) := by
  refine ⟨sublist_insertBehind s t l, fun v hv hl u hu hp => ?_⟩
  obtain rfl | hv := mem_insertBehind.1 hv
  · exact sublist_insertBehind_pair h.sorted hu hp
  · exact absurd hv hl

/-! ### The fiber that executes -/

/-- **A section of the fiber `t` that executes** writes no other fiber and no link. -/
structure Own (s : State) (t : Tid) (s' : State) : Prop where
  resuming : s.executor = .resuming t
  executing : (s.pc t).executing = true
  chain : s'.chain = s.chain
  fiberMap : s'.fiberMap = s.fiberMap
  runningFiber : s'.runningFiber = s.runningFiber
  executor : s'.executor = s.executor
  others : ∀ u, u ≠ t → s'.fibers u = s.fibers u
  otherPcs : ∀ u, u ≠ t → s'.pc u = s.pc u
  inRunQueue : (s'.fibers t).inRunQueue = (s.fibers t).inRunQueue
  state : (s'.fibers t).state = (s.fibers t).state ∨ (s'.fibers t).state ≠ .ready
  token : s'.token = s.token
  stop : s'.stop = s.stop
  fatal : s'.fatal = true → s.fatal = true ∨ (s.fibers t).inRunQueue = true

/-- The sections of this kind, with their fiber. -/
def Act.own : Act → Option Tid
  | .publish t | .suspendSelf t | .waitWhileSuspended t | .suspendGate t | .armPark t
  | .blockCurrent t | .yieldToWorker t | .joinFiber t _ | .joinIteration t | .joinRestore t
  | .exitFiber t | .finishFiber t => some t
  | _ => none

variable {f : FiberContext → FiberContext}

namespace Own

theorem refl (ht : s.executor = .resuming t) (hpc : (s.pc t).executing = true) : Own s t s :=
  ⟨ht, hpc, rfl, rfl, rfl, rfl, fun _ _ => rfl, fun _ _ => rfl, rfl, .inl rfl, rfl, rfl, .inl⟩

theorem setPc {pc : FiberPc} (h : Own s t s') : Own s t (s'.setPc t pc) where
  __ := h
  otherPcs u hu := by
    rw [setPc_pc, if_neg hu]
    exact h.otherPcs u hu

theorem modify (h : Own s t s') (hn : ∀ fc, (f fc).next = fc.next) (hq : ∀ fc, (f fc).inRunQueue = fc.inRunQueue)
    (hs : ∀ fc, (f fc).state = fc.state ∨ (f fc).state ≠ .ready) : Own s t (s'.modify t f) where
  __ := h
  chain := (chain_modify s' t hn).trans h.chain
  others u hu := by
    rw [modify_fibers, if_neg hu]
    exact h.others u hu
  inRunQueue := by
    rw [modify_fibers, if_pos rfl, hq]
    exact h.inRunQueue
  state := by
    rw [modify_fibers, if_pos rfl]
    obtain hs | hs := hs (s'.fibers t)
    · rw [hs]
      exact h.state
    · exact .inr hs

end Own

/-- A fiber found at a place where it executes. -/
theorem own_at {pc : FiberPc} (h : s.At t pc) (hpc : pc.executing = true) : Own s t s :=
  .refl h.1 (by rw [h.2, hpc])

theorem blockSection_own (h : Own s t s) (published : Bool) : Own s t (s.blockSection t published) := by
  rw [blockSection]
  split
  · exact .setPc (.modify h (fun _ => rfl) (fun _ => rfl) fun _ => .inr (by simp))
  · split
    · exact .setPc (.modify h (fun _ => rfl) (fun _ => rfl) fun _ => .inr (by simp))
    · exact .setPc (.modify h (fun _ => rfl) (fun _ => rfl) fun _ => .inr (by simp))

theorem publish_own (h : s.publish t = some s') : Own s t s' := by
  rw [publish] at h
  split at h
  · next hat =>
    cases h
    exact (own_at hat rfl).setPc
  · cases h

theorem suspendSelf_own (h : s.suspendSelf t = some s') : Own s t s' := by
  rw [suspendSelf] at h
  split at h
  · next hat =>
    cases h
    exact .setPc (.modify (own_at hat rfl) (fun _ => rfl) (fun _ => rfl) fun _ => .inl rfl)
  · cases h

theorem waitWhileSuspended_own (h : s.waitWhileSuspended t = some s') : Own s t s' := by
  rw [waitWhileSuspended] at h
  split at h
  · next hat =>
    cases h
    exact (own_at hat rfl).setPc
  · cases h

theorem suspendGate_own (h : s.suspendGate t = some s') : Own s t s' := by
  rw [suspendGate] at h
  split at h
  · next hat =>
    cases h
    exact (own_at hat.1 rfl).setPc
  · cases h

theorem armPark_own (h : s.armPark t = some s') : Own s t s' := by
  rw [armPark] at h
  split at h
  · next hat =>
    cases h
    exact .setPc (.modify (own_at hat rfl) (fun _ => rfl) (fun _ => rfl) fun _ => .inr (by simp))
  · split at h
    · next hat =>
      cases h
      exact .setPc (.modify (own_at hat rfl) (fun _ => rfl) (fun _ => rfl) fun _ => .inr (by simp))
    · cases h

theorem blockCurrent_own (h : s.blockCurrent t = some s') : Own s t s' := by
  rw [blockCurrent] at h
  split at h
  · next ht =>
    split at h
    · next published hpc =>
      cases h
      exact blockSection_own (.refl ht (by rw [hpc]; rfl)) published
    · next hpc =>
      cases h
      exact blockSection_own (.refl ht (by rw [hpc]; rfl)) false
    · cases h
  · cases h

theorem yieldToWorker_own (h : s.yieldToWorker t = some s') : Own s t s' := by
  rw [yieldToWorker] at h
  split at h
  · next hat =>
    cases h
    exact (own_at hat.1 rfl).setPc
  · cases h

theorem joinFiber_own {target : Tid} (h : s.joinFiber t target = some s') : Own s t s' := by
  rw [joinFiber] at h
  split at h
  · next hat =>
    split at h
    · cases h
      exact (own_at hat rfl).setPc
    · cases h
      exact own_at hat rfl
  · cases h

theorem joinIteration_own (h : s.joinIteration t = some s') : Own s t s' := by
  rw [joinIteration] at h
  split at h
  · next ht =>
    split at h
    · next hpc =>
      have ho : Own s t s := .refl ht (by rw [hpc]; rfl)
      split at h
      · cases h
        exact ho.setPc
      · simp only at h
        split at h
        · cases h
          exact .modify ho.setPc (fun _ => rfl) (fun _ => rfl) fun _ => .inl rfl
        · cases h
          exact ho.setPc
    · cases h
  · cases h

theorem joinRestore_own (h : s.joinRestore t = some s') : Own s t s' := by
  rw [joinRestore] at h
  split at h
  · next hat =>
    have ho : Own s t (s.setPc t .code) := (own_at hat rfl).setPc
    simp only at h
    split at h
    · have ho' := ho.modify (f := fun fc => { fc with joinFloorActive := false })
        (fun _ => rfl) (fun _ => rfl) fun _ => .inl rfl
      split at h
      · split at h
        · next hflag =>
          cases h
          exact { ho' with fatal := fun _ => .inr (by simpa using hflag) }
        · cases h
          exact .modify ho' (fun _ => rfl) (fun _ => rfl) fun _ => .inl rfl
      · cases h
        exact ho'
    · cases h
      exact ho
  · cases h

theorem exitFiber_own (h : s.exitFiber t = some s') : Own s t s' := by
  rw [exitFiber] at h
  split at h
  · next hat =>
    cases h
    have ho := (own_at hat.1 rfl).modify (f := fun fc => { fc with state := .exiting })
      (fun _ => rfl) (fun _ => rfl) fun _ => .inr (by simp)
    exact { ho with }
  · cases h

theorem finishFiber_own (h : s.finishFiber t = some s') : Own s t s' := by
  rw [finishFiber] at h
  split at h
  · next hat =>
    cases h
    exact .setPc (.modify (own_at hat.1 rfl) (fun _ => rfl) (fun _ => rfl) fun _ => .inr (by simp))
  · cases h

theorem own_step (ha : a.own = some t) (h : step fuel s a = some s') : Own s t s' := by
  unfold step at h
  split at h
  · cases h
  · cases a <;> cases ha
    · exact publish_own h
    · exact suspendSelf_own h
    · exact waitWhileSuspended_own h
    · exact suspendGate_own h
    · exact armPark_own h
    · exact blockCurrent_own h
    · exact yieldToWorker_own h
    · exact joinFiber_own h
    · exact joinIteration_own h
    · exact joinRestore_own h
    · exact exitFiber_own h
    · exact finishFiber_own h

/-! ### Wakeups -/

/-- The sections that only wake a fiber, with this fiber. -/
def Act.woken : Act → Option Tid
  | .makeReady t | .enqueueExternalWakeupValidated t _ | .requestTerminate t | .clearSuspend t => some t
  | _ => none

/-- **A wakeup** does nothing, or wakes a fiber whose suspend count is or becomes 0. -/
theorem woken_step (ha : a.woken = some t) (h : step fuel s a = some s') :
    s' = s ∨ t ∈ s.fiberMap ∧ ((s.fibers t).suspendCount = 0 ∧ s.wakeLocked fuel t = some s' ∨
      ∃ b, (s.modify t fun fc =>
        { fc with terminateRequested := b, suspendCount := 0 }).wakeLocked fuel t = some s') := by
  unfold step at h
  split at h
  · cases h
  · cases a <;> cases ha
    case isFalse.makeReady.refl =>
      simp only [makeReady] at h
      split at h
      · next hc => exact .inr ⟨hc.1, .inl ⟨hc.2, h⟩⟩
      · exact .inl (Option.some.inj h).symm
    case isFalse.enqueueExternalWakeupValidated.refl =>
      simp only [enqueueExternalWakeupValidated] at h
      split at h
      · next hc => exact .inr ⟨hc.1, .inl ⟨hc.2.2.2, h⟩⟩
      · exact .inl (Option.some.inj h).symm
    case isFalse.requestTerminate.refl =>
      simp only [requestTerminate] at h
      split at h
      · next hc => exact .inr ⟨hc, .inr ⟨true, h⟩⟩
      · exact .inl (Option.some.inj h).symm
    case isFalse.clearSuspend.refl =>
      simp only [clearSuspend] at h
      split at h
      · next hc => exact .inr ⟨hc, .inr ⟨(s.fibers t).terminateRequested, h⟩⟩
      · exact .inl (Option.some.inj h).symm

/-- What `scheduler_shutdown` does to a fiber is a wakeup or the terminate request alone. -/
theorem shutdownFiber_cases (h : s.shutdownFiber fuel t = some s') :
    s' = (s.modify t fun fc => { fc with terminateRequested := true }) ∨
      ∃ b, (s.modify t fun fc =>
        { fc with terminateRequested := b, suspendCount := 0 }).wakeLocked fuel t = some s' := by
  rw [shutdownFiber] at h
  split at h
  · exact .inr ⟨true, h⟩
  · exact .inr ⟨(s.fibers t).terminateRequested, h⟩
  · exact .inl (Option.some.inj h).symm

theorem woken_rewrites (ha : a.woken = some t) (h : step fuel s a = some s') :
    ∃ b n, Rewrites s t { s.fibers t with terminateRequested := b, suspendCount := n } s' := by
  obtain rfl | ⟨-, ⟨-, hw⟩ | ⟨b, hw⟩⟩ := woken_step ha h
  · exact ⟨_, _, .refl _ t⟩
  · exact ⟨_, _, wakeLocked_rewrites hw⟩
  · exact ⟨b, 0, (Rewrites.write s t _).trans (wakeLocked_rewrites hw)⟩

theorem shutdownFiber_rewrites (h : s.shutdownFiber fuel t = some s') :
    ∃ b n, Rewrites s t { s.fibers t with terminateRequested := b, suspendCount := n } s' := by
  obtain rfl | ⟨b, hw⟩ := shutdownFiber_cases h
  · exact ⟨true, _, .write s t fun fc => { fc with terminateRequested := true }⟩
  · exact ⟨b, 0, (Rewrites.write s t _).trans (wakeLocked_rewrites hw)⟩

variable {order : List Tid}

theorem schedulerShutdown_induction {P : State → Prop}
    (hP : ∀ s1 s2 t b n, Rewrites s1 t { s1.fibers t with terminateRequested := b, suspendCount := n } s2 →
      P s1 → P s2) (he : s.schedulerShutdown fuel order = some s') (h : P { s with stop := true }) : P s' := by
  rw [State.schedulerShutdown] at he
  generalize ({ s with stop := true } : State) = s1 at he h
  induction order generalizing s1 with
  | nil =>
    cases he
    exact h
  | cons t order ih =>
    rw [List.foldlM_cons] at he
    obtain ⟨s2, he1, he2⟩ := Option.bind_eq_some_iff.1 he
    obtain ⟨b, n, hw⟩ := shutdownFiber_rewrites he1
    exact ih s2 he2 (hP _ _ t b n hw h)

/-- The sections of the host workers, and the executor taking the lock again. -/
def Act.quiet : Act → Bool
  | .asyncGuestBegin _ | .asyncGuestGrant _ | .asyncGuestEnd _ | .executorFreed => true
  | _ => false

theorem quiet_step (ha : a.quiet = true) (h : step fuel s a = some s') :
    s'.fibers = s.fibers ∧ s'.fiberMap = s.fiberMap ∧ s'.runQueue = s.runQueue ∧
      s'.runningFiber = s.runningFiber ∧ s'.pc = s.pc ∧ s'.stop = s.stop ∧
      (s'.executor = s.executor ∨ s.executor = .freeing ∧ s'.executor = .waiting) := by
  unfold step at h
  split at h
  · cases h
  · cases a <;> cases ha
    case isFalse.executorFreed.refl =>
      simp only [executorFreed] at h
      split at h
      · next hx =>
        cases h
        exact ⟨rfl, rfl, rfl, rfl, rfl, rfl, .inr ⟨hx, rfl⟩⟩
      · cases h
    case isFalse.asyncGuestBegin.refl =>
      simp only [asyncGuestBegin] at h
      split at h
      · cases h
        exact ⟨rfl, rfl, rfl, rfl, rfl, rfl, .inl rfl⟩
      · cases h
    case isFalse.asyncGuestGrant.refl =>
      simp only [asyncGuestGrant] at h
      split at h
      · cases h
        exact ⟨rfl, rfl, rfl, rfl, rfl, rfl, .inl rfl⟩
      · cases h
    case isFalse.asyncGuestEnd.refl =>
      simp only [asyncGuestEnd] at h
      split at h
      · split at h
        · cases h
          exact ⟨rfl, rfl, rfl, rfl, rfl, rfl, .inl rfl⟩
        · cases h
          exact ⟨rfl, rfl, rfl, rfl, rfl, rfl, .inl rfl⟩
      · cases h

theorem enqueueLocked_setPc (s : State) (t u : Tid) (pc : FiberPc) :
    (s.setPc t pc).enqueueLocked fuel u = (s.enqueueLocked fuel u).map fun s => s.setPc t pc := by
  by_cases hf : (s.fibers u).inRunQueue = true
  · have hf' : ((s.setPc t pc).fibers u).inRunQueue = true := hf
    rw [enqueueLocked, enqueueLocked, if_pos hf, if_pos hf']
    rfl
  · have hf' : ¬((s.setPc t pc).fibers u).inRunQueue = true := hf
    rw [enqueueLocked, enqueueLocked, if_neg hf, if_neg hf']
    simp only [Option.bind_eq_bind, Option.map_bind]
    rfl

/-! ### Sections -/

namespace Inv

section

variable (h : Inv s l)

include h

section

variable (ht : s.executor = .resuming t)

include ht

theorem not_mem_of_executing (hpc : (s.pc t).executing = true) : t ∉ l :=
  h.executing t ((h.resuming t).1 ht) hpc

theorem live_of_resuming : t ∈ s.fiberMap :=
  h.live t ((h.resuming t).1 ht)

theorem state_ne_ready (hpc : (s.pc t).executing = true) : (s.fibers t).state ≠ .ready := by
  intro hs
  exact h.not_mem_of_executing ht hpc ((h.ready t (h.live_of_resuming ht)).1 hs)

end

theorem congr (hc : s'.chain = s.chain) (hm : s'.fiberMap = s.fiberMap)
    (hf : ∀ u, (s'.fibers u).inRunQueue = (s.fibers u).inRunQueue ∧
      (s'.fibers u).priority = (s.fibers u).priority ∧ (s'.fibers u).state = (s.fibers u).state)
    (hr : s'.runningFiber = s.runningFiber) (he : s'.executor = s.executor) (hpc : s'.pc = s.pc) :
    Inv s' l where
  queue := h.queue.congr hc hm (fun u _ => (hf u).1) fun u _ => (hf u).2.1
  ready t ht := by
    rw [(hf t).2.2]
    exact h.ready t (hm ▸ ht)
  live t ht := by
    rw [hm]
    exact h.live t (hr ▸ ht)
  resuming t := by
    rw [he, hr]
    exact h.resuming t
  executing t ht hpct := h.executing t (hr ▸ ht) (hpc ▸ hpct)
  ids := hm ▸ h.ids

theorem modify (hf : ∀ fc, (f fc).next = fc.next ∧ (f fc).inRunQueue = fc.inRunQueue ∧
      (f fc).priority = fc.priority ∧ (f fc).state = fc.state) : Inv (s.modify t f) l := by
  refine h.congr (chain_modify s t fun fc => (hf fc).1) rfl (fun u => ?_) rfl rfl rfl
  rw [modify_fibers]
  split
  · next hut =>
    rw [hut]
    exact (hf _).2
  · exact ⟨rfl, rfl, rfl⟩

/-- The fiber that executes is not queued, so it may write its own priority and state. -/
theorem own (ho : Own s t s') : Inv s' l := by
  have hrt := (h.resuming t).1 ho.resuming
  have htl := h.not_mem_of_executing ho.resuming ho.executing
  refine ⟨h.queue.congr ho.chain ho.fiberMap (fun u _ => ?_) (fun u hu => ?_), fun u hu => ?_,
    fun u hu => ?_, fun u => ?_, fun u hu _ => ?_, ho.fiberMap ▸ h.ids⟩
  · by_cases hut : u = t
    · rw [hut, ho.inRunQueue]
    · rw [ho.others u hut]
  · have hut : u ≠ t := fun hut => htl (hut ▸ hu)
    rw [ho.others u hut]
  · by_cases hut : u = t
    · subst hut
      refine ⟨fun h' => ?_, fun h' => absurd h' htl⟩
      obtain hs | hs := ho.state
      · exact absurd (hs ▸ h') (h.state_ne_ready ho.resuming ho.executing)
      · exact absurd h' hs
    · rw [ho.others u hut]
      exact h.ready u (ho.fiberMap ▸ hu)
  · rw [ho.fiberMap]
    exact h.live u (ho.runningFiber ▸ hu)
  · rw [ho.executor, ho.runningFiber]
    exact h.resuming u
  · rw [ho.runningFiber, hrt, Option.some.injEq] at hu
    exact hu ▸ htl

theorem enqueue (ht : t ∈ s.fiberMap) (hl : t ∉ l) (hx : s.runningFiber = some t → (s.pc t).executing = false)
    (he : s.enqueueLocked fuel t = some s') :
    Inv s' (s.insertBehind t l) ∧
      Grows (fun u => (s'.fibers u).priority) l (s.insertBehind t l) ∧
      s'.runningFiber = s.runningFiber := by
  obtain ⟨⟨c, rfl⟩, hq⟩ := h.queue.enqueue ht hl he
  have hp : (fun u => ((((s.modify t fun fc =>
      { fc with inRunQueue := true, state := .ready }).setChain c).fibers u).priority)) =
      fun u => (s.fibers u).priority := by
    funext u
    simp only [setChain_fibers, modify_fibers]
    split
    · next hut => rw [hut]
    · rfl
  refine ⟨⟨hq, fun u hu => ?_, h.live, h.resuming, fun u hu hpc => ?_, h.ids⟩, ?_, rfl⟩
  · simp only [setChain_fibers, modify_fibers, mem_insertBehind]
    split
    · next hut => simp [hut]
    · next hut => simpa [hut] using h.ready u hu
  · rw [mem_insertBehind]
    rintro (rfl | hul)
    · rw [setChain_pc, modify_pc, hx hu] at hpc
      cases hpc
    · exact h.executing u hu hpc hul
  · rw [hp]
    exact Grows.insertBehind h.queue

theorem wake (ht : t ∈ s.fiberMap) (he : s.wakeLocked fuel t = some s') :
    ∃ l', Inv s' l' ∧ Grows (fun u => (s'.fibers u).priority) l l' ∧ s'.runningFiber = s.runningFiber := by
  rw [wakeLocked] at he
  split at he
  · cases he
    exact ⟨l, h, Grows.refl _ l, rfl⟩
  · next hflag =>
    split at he
    · cases he
      exact ⟨l, h.modify fun _ => ⟨rfl, rfl, rfl, rfl⟩, Grows.refl _ l, rfl⟩
    · next hrun =>
      have hl : t ∉ l := fun hl => hflag ((h.queue.linked t ht).2 hl)
      exact ⟨_, h.enqueue ht hl (fun hr => absurd hr hrun) he⟩

end

/-! ### Steps -/

section

variable (h : Inv s' l) (hr : s'.runningFiber = s.runningFiber)

include h hr

theorem still : ∃ l', Inv s' l' ∧ Change s a s' l l' :=
  ⟨l, h, .grows (Grows.refl _ l) (.inl hr)⟩

theorem stillPerm : ∃ l', Inv s' l' ∧ Change s a s' l l' ∧ l'.Perm l :=
  ⟨l, h, .grows (Grows.refl _ l) (.inl hr), List.Perm.refl l⟩

end

theorem woken {s1 : State} (he : s1.wakeLocked fuel t = some s') (h : Inv s1 l) (hr : s1.runningFiber = s.runningFiber)
    (ht : t ∈ s1.fiberMap) : ∃ l', Inv s' l' ∧ Change s a s' l l' := by
  obtain ⟨l', h', hg, hr'⟩ := h.wake ht he
  exact ⟨l', h', .grows hg (.inl (hr'.trans hr))⟩

section

variable (h : Inv s l)

include h

theorem yieldTo {gives : ℤ → ℤ → Bool} (he : s.yieldTo gives fuel t = some s') :
    ∃ l', Inv s' l' ∧ Change s a s' l l' := by
  obtain ⟨hat, rfl | ⟨s1, he1, rfl⟩⟩ := yieldTo_form he
  · exact still h rfl
  · have ho := own_at hat rfl
    -- queueing does not look at the place: first leave it, then queue
    have hy : Inv (s.setPc t .yielded) l := h.own ho.setPc
    have he' : (s.setPc t .yielded).enqueueLocked fuel t = some (s1.setPc t .yielded) := by
      rw [enqueueLocked_setPc, he1]
      rfl
    obtain ⟨h', hg, hr⟩ := hy.enqueue (h.live_of_resuming hat.1)
      (h.not_mem_of_executing hat.1 ho.executing) (fun _ => by rw [setPc_pc, if_pos rfl]; rfl) he'
    exact ⟨_, h', .grows hg (.inl hr)⟩

/-- A new fiber is in the map and nowhere else. -/
theorem createFiber {p : ℤ} (he : s.createFiber fuel t p = some s') : ∃ l', Inv s' l' ∧ Change s a s' l l' := by
  rw [State.createFiber] at he
  split at he
  · cases he
  · next hnew =>
    rw [not_or] at hnew
    have hl : t ∉ l := fun hl => hnew.1 (h.queue.live t hl)
    have hr : s.runningFiber ≠ some t := fun hr => hnew.1 (h.live t hr)
    simp only at he
    set s1 : State := { s with
      fibers := Function.update s.fibers t { priority := p, generation := s.nextGeneration }
      fiberMap := t :: s.fiberMap
      nextGeneration := s.nextGeneration + 1
      pc := Function.update s.pc t .code
      inExitHook := Function.update s.inExitHook t false } with hs1
    have hne : ∀ u, u ≠ t → s1.fibers u = s.fibers u := fun u hu => Function.update_of_ne hu _ _
    have heq : s1.fibers t = { priority := p, generation := s.nextGeneration } :=
      Function.update_self _ _ _
    have hmem : ∀ u, u ≠ t → u ∈ s1.fiberMap → u ∈ s.fiberMap := fun u hu hm =>
      (List.mem_cons.1 hm).resolve_left hu
    have hlt : ∀ u ∈ l, u ≠ t := fun u hu hut => hl (hut ▸ hu)
    have h1 : Inv s1 l := by
      refine ⟨⟨h.queue.spells.congr fun u hu => ?_, h.queue.nodup, ?_, fun u hu =>
        List.mem_cons_of_mem t (h.queue.live u hu), fun u hu => ?_⟩, fun u hu => ?_, fun u hu =>
        List.mem_cons_of_mem t (h.live u hu), h.resuming, fun u hu hpc => ?_,
        List.forall_mem_cons.2 ⟨hnew.2, h.ids⟩⟩
      · exact congrArg FiberContext.next (hne u (hlt u hu))
      · refine h.queue.sorted.imp_of_mem fun ha hb hab => ?_
        rwa [hne _ (hlt _ ha), hne _ (hlt _ hb)]
      · by_cases hut : u = t
        · subst hut
          rw [heq]
          exact ⟨fun h' => (by cases h'), fun h' => absurd h' hl⟩
        · rw [hne u hut]
          exact h.queue.linked u (hmem u hut hu)
      · by_cases hut : u = t
        · subst hut
          rw [heq]
          exact ⟨fun h' => (by cases h'), fun h' => absurd h' hl⟩
        · rw [hne u hut]
          exact h.ready u (hmem u hut hu)
      · by_cases hut : u = t
        · exact hut ▸ hl
        · have hpcu : s1.pc u = s.pc u := Function.update_of_ne hut _ _
          exact h.executing u hu (hpcu ▸ hpc)
    obtain ⟨h', hg, hr'⟩ := h1.enqueue List.mem_cons_self hl (fun h' => absurd h' hr) he
    exact ⟨_, h', .grows hg (.inl hr')⟩

theorem permute (hq : s'.Queue l') (hp : l'.Perm l) (hm : s'.fiberMap = s.fiberMap)
    (hs : ∀ u, (s'.fibers u).state = (s.fibers u).state) (hr : s'.runningFiber = s.runningFiber)
    (he : s'.executor = s.executor) (hpc : s'.pc = s.pc) : Inv s' l' where
  queue := hq
  ready t ht := by
    rw [hs t, hp.mem_iff]
    exact h.ready t (hm ▸ ht)
  live t ht := by
    rw [hm]
    exact h.live t (hr ▸ ht)
  resuming t := by
    rw [he, hr]
    exact h.resuming t
  executing t ht hpct := by
    rw [hp.mem_iff]
    exact h.executing t (hr ▸ ht) (hpc ▸ hpct)
  ids := hm ▸ h.ids

theorem modify_idle (hl : t ∉ l) (hf : ∀ fc, (f fc).next = fc.next ∧ (f fc).inRunQueue = fc.inRunQueue ∧
      (f fc).state = fc.state) : Inv (s.modify t f) l := by
  have hs : ∀ u, ((s.modify t f).fibers u).inRunQueue = (s.fibers u).inRunQueue ∧
      ((s.modify t f).fibers u).state = (s.fibers u).state := by
    intro u
    rw [modify_fibers]
    split
    · next hut =>
      rw [hut]
      exact (hf _).2
    · exact ⟨rfl, rfl⟩
  refine h.permute (h.queue.congr (chain_modify s t fun fc => (hf fc).1) rfl (fun u _ => (hs u).1)
    fun u hu => ?_) (List.Perm.refl l) rfl (fun u => (hs u).2) rfl rfl rfl
  have hut : u ≠ t := fun hut => hl (hut ▸ hu)
  rw [modify_fibers, if_neg hut]

theorem updatePriority {p : ℤ} (he : s.updatePriority fuel t p = some s') :
    ∃ l', Inv s' l' ∧ Change s (.updatePriority t p) s' l l' ∧ l'.Perm l := by
  rw [State.updatePriority] at he
  split at he
  · cases he
    exact stillPerm h rfl
  · next ht =>
    rw [not_not] at ht
    split at he
    · cases he
      exact stillPerm (h.modify fun _ => ⟨rfl, rfl, rfl, rfl⟩) rfl
    · split at he
      · cases he
        exact stillPerm h rfl
      · split at he
        · next hflag =>
          have hl := (h.queue.linked t ht).1 hflag
          obtain ⟨s1, he1, he2⟩ := Option.bind_eq_some_iff.1 he
          obtain ⟨⟨c, rfl⟩, hq1⟩ := h.queue.remove hl he1
          have hte : t ∉ l.erase t := h.queue.nodup.not_mem_erase
          set s1 := (s.setChain c).modify t fun fc => { fc with inRunQueue := false }
          have hq2 : (s1.modify t fun fc => { fc with priority := p }).Queue (l.erase t) :=
            hq1.modify hte (fun _ => rfl) fun _ => rfl
          obtain ⟨⟨c', rfl⟩, hq'⟩ := hq2.enqueue ht hte he2
          have hperm := (insertBehind_perm (s1.modify t fun fc => { fc with priority := p }) t
            (l.erase t)).trans (List.perm_cons_erase hl).symm
          refine ⟨_, h.permute hq' hperm rfl (fun u => ?_) rfl rfl rfl,
            .move t rfl (sublist_insertBehind _ t _) hperm rfl, hperm⟩
          by_cases hut : u = t
          · subst hut
            simp [(h.ready u ht).2 hl]
          · simp [s1, hut]
        · next hflag =>
          cases he
          have hl : t ∉ l := fun hl => hflag ((h.queue.linked t ht).2 hl)
          exact stillPerm (h.modify_idle hl fun _ => ⟨rfl, rfl, rfl⟩) rfl

theorem suspendOther (he : s.suspendOther fuel t = some s') : ∃ l', Inv s' l' ∧ Change s a s' l l' := by
  rw [State.suspendOther] at he
  split at he
  · next ht =>
    have h1 : Inv (s.modify t fun fc => { fc with suspendCount := fc.suspendCount + 1 }) l :=
      h.modify fun _ => ⟨rfl, rfl, rfl, rfl⟩
    simp only at he
    set s1 := s.modify t fun fc => { fc with suspendCount := fc.suspendCount + 1 }
    split at he
    · next hready =>
      have hl := (h1.ready t ht).1 hready
      obtain ⟨s2, he2, hs'⟩ := Option.bind_eq_some_iff.1 he
      rw [Option.some.injEq] at hs'
      subst hs'
      obtain ⟨⟨c, rfl⟩, hq2⟩ := h1.queue.remove hl he2
      have hte : t ∉ l.erase t := h.queue.nodup.not_mem_erase
      set s2 := (s1.setChain c).modify t fun fc => { fc with inRunQueue := false }
      have hq : (s2.modify t fun fc => { fc with state := .blocked }).Queue (l.erase t) :=
        hq2.modify hte (fun _ => rfl) fun _ => rfl
      refine ⟨l.erase t, ⟨hq, fun u hu => ?_, h1.live, h1.resuming, fun u hu hpc hue => ?_, h1.ids⟩, .drop t rfl⟩
      · by_cases hut : u = t
        · subst hut
          rw [modify_fibers, if_pos rfl]
          exact ⟨fun h' => (by cases h'), fun h' => absurd h' hte⟩
        · rw [modify_fibers, if_neg hut, modify_fibers, if_neg hut, List.mem_erase_of_ne hut]
          exact h1.ready u hu
      · exact h1.executing u hu hpc (List.mem_of_mem_erase hue)
    · rw [Option.some.injEq] at he
      subst he
      exact still h1 rfl
  · cases he
    exact still h rfl

theorem rotateReadyQueue {p : ℤ} (he : s.rotateReadyQueue fuel p = some s') :
    ∃ l', Inv s' l' ∧ Change s (.rotateReadyQueue p) s' l l' ∧ l'.Perm l := by
  obtain rfl | ⟨⟨c, rfl⟩, x, v, b1, b2, rfl, hp, hx, hq⟩ := h.queue.rotate he
  · exact stillPerm h rfl
  · have hperm : (x ++ b1 ++ v :: b2).Perm (x ++ v :: (b1 ++ b2)) := by
      rw [List.append_assoc]
      exact List.Perm.append_left x List.perm_middle
    have hvx : v ∉ x := by
      intro hv
      exact (List.nodup_append.1 h.queue.nodup).2.2 v hv v List.mem_cons_self rfl
    have herase : (x ++ v :: (b1 ++ b2)).erase v = x ++ b1 ++ b2 := by
      rw [List.erase_append_right _ hvx, List.erase_cons_head, List.append_assoc]
    refine ⟨_, h.permute hq hperm rfl (fun _ => rfl) rfl rfl rfl,
      .move v ⟨x, b1 ++ b2, h.queue, hp, hx⟩ ?_ hperm rfl, hperm⟩
    rw [herase]
    exact (List.Sublist.refl _).append (List.sublist_cons_self v b2)

theorem shutdownFiber (ht : t ∈ s.fiberMap) (he : s.shutdownFiber fuel t = some s') :
    ∃ l', Inv s' l' ∧ Grows (fun u => (s'.fibers u).priority) l l' ∧
      s'.runningFiber = s.runningFiber ∧ s'.fiberMap = s.fiberMap ∧
      ∀ u, (s'.fibers u).priority = (s.fibers u).priority := by
  have hp : ∀ f : FiberContext → FiberContext, (∀ fc, (f fc).priority = fc.priority) →
      ∀ u, ((s.modify t f).fibers u).priority = (s.fibers u).priority := by
    intro f hf u
    rw [modify_fibers]
    split
    · next hut => rw [hut, hf]
    · rfl
  obtain rfl | ⟨b, hw⟩ := shutdownFiber_cases he
  · exact ⟨l, h.modify fun _ => ⟨rfl, rfl, rfl, rfl⟩, Grows.refl _ l, rfl, rfl, hp _ fun _ => rfl⟩
  · have hk := wakeLocked_keeps hw
    obtain ⟨l', h', hg, hr⟩ := (h.modify (t := t)
      (f := fun fc => { fc with terminateRequested := b, suspendCount := 0 })
      fun _ => ⟨rfl, rfl, rfl, rfl⟩).wake ht hw
    refine ⟨l', h', hg, hr, hk.fiberMap, fun u => ?_⟩
    rw [hk.priority u]
    exact hp (fun fc => { fc with terminateRequested := b, suspendCount := 0 }) (fun _ => rfl) u

theorem shutdown_fold (ho : ∀ t ∈ order, t ∈ s.fiberMap) (he : order.foldlM (State.shutdownFiber fuel) s = some s') :
    ∃ l', Inv s' l' ∧ Grows (fun u => (s'.fibers u).priority) l l' ∧
      s'.runningFiber = s.runningFiber ∧ ∀ u, (s'.fibers u).priority = (s.fibers u).priority := by
  induction order generalizing s l with
  | nil =>
    cases he
    exact ⟨l, h, Grows.refl _ l, rfl, fun _ => rfl⟩
  | cons t order ih =>
    rw [List.foldlM_cons] at he
    obtain ⟨s1, he1, he2⟩ := Option.bind_eq_some_iff.1 he
    obtain ⟨l1, h1, hg1, hr1, hm1, hp1⟩ := h.shutdownFiber (ho t List.mem_cons_self) he1
    have ho1 : ∀ u ∈ order, u ∈ s1.fiberMap := by
      intro u hu
      rw [hm1]
      exact ho u (List.mem_cons_of_mem t hu)
    obtain ⟨l2, h2, hg2, hr2, hp2⟩ := ih h1 ho1 he2
    refine ⟨l2, h2, Grows.trans ?_ hg2, hr2.trans hr1, fun u => (hp2 u).trans (hp1 u)⟩
    simpa only [hp2] using hg1

theorem schedulerShutdown (ho : order.Perm s.fiberMap) (he : s.schedulerShutdown fuel order = some s') :
    ∃ l', Inv s' l' ∧ Change s a s' l l' := by
  have h1 : Inv { s with stop := true } l :=
    h.congr rfl rfl (fun _ => ⟨rfl, rfl, rfl⟩) rfl rfl rfl
  obtain ⟨l', h', hg, hr, -⟩ := h1.shutdown_fold (fun t ht => ho.mem_iff.1 ht) he
  exact ⟨l', h', .grows hg (.inl hr)⟩

theorem resume (hp : s.popHeadLocked = some (t, s')) : ∃ l', l = t :: l' ∧ Inv (s'.resume t) l' := by
  obtain ⟨⟨c, rfl⟩, b, rfl, hq⟩ := h.queue.pop hp
  have hnd := List.nodup_cons.1 h.queue.nodup
  set s1 := (s.setChain c).modify t fun fc => { fc with inRunQueue := false }
  have hne : ∀ u, u ≠ t → ((s1.resume t).fibers u).priority = (s.fibers u).priority ∧
      ((s1.resume t).fibers u).inRunQueue = (s.fibers u).inRunQueue ∧
      ((s1.resume t).fibers u).state = (s.fibers u).state := by
    intro u hu
    have : (s1.resume t).fibers u = { s.fibers u with next := c.next u } := by
      simp [State.resume, s1, hu]
    rw [this]
    exact ⟨rfl, rfl, rfl⟩
  have heq : ((s1.resume t).fibers t).state = .running := by simp [State.resume]
  refine ⟨b, rfl, hq.congr (chain_modify s1 t (f := fun fc => { fc with state := .running })
    fun _ => rfl) rfl (fun u _ => ?_) (fun u hu => ?_),
    fun u hu => ?_, fun u hu => ?_, fun u => ?_, fun u hu _ => ?_, h.ids⟩
  · by_cases hut : u = t
    · subst hut
      simp [State.resume]
    · rw [(hne u hut).2.1]
      simp [s1, hut]
  · have hut : u ≠ t := fun hut => hnd.1 (hut ▸ hu)
    rw [(hne u hut).1]
    simp [s1, hut]
  · by_cases hut : u = t
    · subst hut
      rw [heq]
      exact ⟨fun h' => (by cases h'), fun h' => absurd h' hnd.1⟩
    · rw [(hne u hut).2.2, h.ready u hu, List.mem_cons]
      exact or_iff_right hut
  · have hut : t = u := Option.some.inj hu
    rw [← hut]
    exact h.queue.live t List.mem_cons_self
  · exact ⟨fun h' => by cases h'; rfl, fun h' => by cases h'; rfl⟩
  · have hut : t = u := Option.some.inj hu
    exact hut ▸ hnd.1

end

end Inv

/-- The predicate of the executor's wait writes the record of the deferral only, and holds only
when there is a queued fiber, no running one, and no worker with the token. -/
theorem canRun_cases {b : Bool} (h : s.canRun = (b, s')) :
    (∃ d g, s' = { s with deferringToWaiters := d, grantsAtDefer := g }) ∧
      (b = true → s.runQueue ≠ none ∧ s.runningFiber = none ∧ s.guestTokenHeldByHost = false) := by
  rw [canRun] at h
  split at h
  · cases h
    exact ⟨⟨_, _, rfl⟩, fun h => by cases h⟩
  · next hc =>
    have hc' : s.runQueue ≠ none ∧ s.runningFiber = none ∧ s.guestTokenHeldByHost = false := by
      simp only [Bool.or_eq_true, not_or, Bool.not_eq_true, Option.isSome_eq_false_iff, Option.isNone_iff_eq_none] at hc
      refine ⟨fun hq => ?_, hc.1.2, hc.2⟩
      simp [hq] at hc
    split at h
    · cases h
      exact ⟨⟨_, _, rfl⟩, fun _ => hc'⟩
    · split at h
      · cases h
        exact ⟨⟨_, _, rfl⟩, fun h => by cases h⟩
      · split at h
        · cases h
          exact ⟨⟨_, _, rfl⟩, fun _ => hc'⟩
        · cases h
          exact ⟨⟨_, _, rfl⟩, fun h => by cases h⟩

/-- **One evaluation of the executor's predicate**: it quits, goes on waiting, or switches to
the head of the queue, and this only while no fiber runs and no worker has the token. -/
theorem executorWait_cases (h : s.executorWait = some s') :
    s.executor = .waiting ∧ (s' = { s with executor := .quit } ∨
      ∃ d g, s' = { s with deferringToWaiters := d, grantsAtDefer := g } ∨
        s.runningFiber = none ∧ s.guestTokenHeldByHost = false ∧
        ∃ t s1, { s with deferringToWaiters := d, grantsAtDefer := g }.popHeadLocked = some (t, s1) ∧
          s' = s1.resume t) := by
  rw [executorWait] at h
  split at h
  · next hw =>
    refine ⟨hw, ?_⟩
    split at h
    · exact .inl (Option.some.inj h).symm
    · split at h
      · next s1 hc =>
        obtain ⟨⟨d, g, rfl⟩, -⟩ := canRun_cases hc
        exact .inr ⟨d, g, .inl (Option.some.inj h).symm⟩
      · next s1 hc =>
        obtain ⟨⟨d, g, rfl⟩, hrun⟩ := canRun_cases hc
        obtain ⟨hq, hr, hh⟩ := hrun rfl
        refine .inr ⟨d, g, .inr ⟨hr, hh, ?_⟩⟩
        split at h
        · next hp =>
          -- the predicate has seen a queued fiber
          cases hq' : s.runQueue with
          | none => exact absurd hq' hq
          | some t => simp [popHeadLocked, hq'] at hp
        · next t s2 hp => exact ⟨t, s2, hp, (Option.some.inj h).symm⟩
  · cases h

section

variable (h : s.executorPost fuel = some s')

include h

/-- **The section after a resume**, by the state the fiber left behind: it is queued again, stays
parked, or is freed. -/
theorem executorPost_cases :
    ∃ t, s.executor = .resuming t ∧ (s.pc t).executing = false ∧
      (((s.fibers t).state = .running ∨ (s.fibers t).state = .exiting) ∧
        { s with runningFiber := none, executor := .waiting }.enqueueLocked fuel t = some s' ∨
      (s.fibers t).state = .blocked ∧ (s.fibers t).wakePending = true ∧
        (s.fibers t).suspendCount = 0 ∧
        ({ s with runningFiber := none, executor := .waiting }.modify t fun fc =>
          { fc with wakePending := false }).enqueueLocked fuel t = some s' ∨
      (s.fibers t).state = .finished ∧ s' = { s with
        runningFiber := none, fiberMap := s.fiberMap.filter (· ≠ t), executor := .freeing } ∨
      ((s.fibers t).state = .blocked →
        ¬((s.fibers t).wakePending = true ∧ (s.fibers t).suspendCount = 0)) ∧
        s' = { s with runningFiber := none, executor := .waiting }) := by
  rw [executorPost] at h
  split at h
  · next t ht =>
    split at h
    · cases h
    · next hpc =>
      refine ⟨t, ht, by simpa using hpc, ?_⟩
      simp only at h
      split at h
      · next hs => exact .inl ⟨.inl hs, h⟩
      · next hs => exact .inl ⟨.inr hs, h⟩
      · next hs =>
        split at h
        · next hw => exact .inr (.inl ⟨hs, hw.1, hw.2, h⟩)
        · next hw => exact .inr (.inr (.inr ⟨fun _ => hw, (Option.some.inj h).symm⟩))
      · next hs => exact .inr (.inr (.inl ⟨hs, (Option.some.inj h).symm⟩))
      · next hs => exact .inr (.inr (.inr ⟨fun h' => by simp [hs] at h', (Option.some.inj h).symm⟩))
      · next hs => exact .inr (.inr (.inr ⟨fun h' => by simp [hs] at h', (Option.some.inj h).symm⟩))
  · cases h

theorem executorPost_rewrites :
    ∃ t, s.executor = .resuming t ∧
      (Rewrites { s with runningFiber := none, executor := .waiting } t (s.fibers t) s' ∨
        s' = { s with runningFiber := none, fiberMap := s.fiberMap.filter (· ≠ t), executor := .freeing }) := by
  obtain ⟨t, ht, -, ⟨-, he⟩ | ⟨-, -, -, he⟩ | ⟨-, rfl⟩ | ⟨-, rfl⟩⟩ := executorPost_cases h
  · exact ⟨t, ht, .inl (enqueueLocked_rewrites he)⟩
  · refine ⟨t, ht, .inl (Rewrites.trans ?_ (enqueueLocked_rewrites he))⟩
    exact .modify (.refl _ t) fun _ hx => hx
  · exact ⟨t, ht, .inr rfl⟩
  · exact ⟨t, ht, .inl (.refl _ t)⟩

end

namespace Inv

section

variable (h : Inv s l)

include h

theorem executorWait (he : s.executorWait = some s') : ∃ l', Inv s' l' ∧ Change s a s' l l' := by
  obtain ⟨hw, hc⟩ := executorWait_cases he
  have hnone : ∀ t, s.runningFiber ≠ some t := by
    intro t ht
    have hx := (h.resuming t).2 ht
    rw [hw] at hx
    cases hx
  have hdefer : ∀ d g, Inv { s with deferringToWaiters := d, grantsAtDefer := g } l := fun d g =>
    h.congr rfl rfl (fun _ => ⟨rfl, rfl, rfl⟩) rfl rfl rfl
  obtain rfl | ⟨d, g, rfl | ⟨-, -, t, s1, hp, rfl⟩⟩ := hc
  · refine still ⟨h.queue.congr rfl rfl (fun _ _ => rfl) fun _ _ => rfl, h.ready, h.live,
      fun t => ⟨fun h' => (by cases h'), fun h' => absurd h' (hnone t)⟩, h.executing, h.ids⟩ rfl
  · exact still (hdefer d g) rfl
  · obtain ⟨l', hl, h'⟩ := (hdefer d g).resume hp
    exact ⟨l', h', .pop t hl rfl⟩

theorem executorPost (he : s.executorPost fuel = some s') : ∃ l', Inv s' l' ∧ Change s a s' l l' := by
  obtain ⟨t, ht, hpc, hc⟩ := executorPost_cases he
  have hlive := h.live_of_resuming ht
  have h1 : Inv { s with runningFiber := none, executor := .waiting } l :=
    ⟨h.queue.congr rfl rfl (fun _ _ => rfl) fun _ _ => rfl, h.ready, fun _ h' => (by cases h'),
      fun _ => ⟨fun h' => (by cases h'), fun h' => (by cases h')⟩, fun _ h' => (by cases h'), h.ids⟩
  have hidle : (s.fibers t).state ≠ .ready → t ∉ l := fun hs hl => hs ((h.ready t hlive).2 hl)
  obtain ⟨hs, he'⟩ | ⟨hs, -, -, he'⟩ | ⟨hs, rfl⟩ | ⟨-, rfl⟩ := hc
  · have hl : t ∉ l := hidle (by rcases hs with hs | hs <;> simp [hs])
    obtain ⟨h', hg, hr⟩ := h1.enqueue hlive hl (fun h' => by cases h') he'
    exact ⟨_, h', .grows hg (.inr hr)⟩
  · have hl : t ∉ l := hidle (by simp [hs])
    obtain ⟨h', hg, hr⟩ := (h1.modify (t := t) (f := fun fc => { fc with wakePending := false })
      fun _ => ⟨rfl, rfl, rfl, rfl⟩).enqueue hlive hl (fun h' => by cases h') he'
    exact ⟨_, h', .grows hg (.inr hr)⟩
  · have hl : t ∉ l := hidle (by simp [hs])
    have hmem : ∀ u, u ∈ s.fiberMap.filter (· ≠ t) → u ∈ s.fiberMap := fun u hu =>
      (List.mem_filter.1 hu).1
    refine ⟨l, ⟨⟨h.queue.spells, h.queue.nodup, h.queue.sorted, fun u hu => ?_,
      fun u hu => h.queue.linked u (hmem u hu)⟩, fun u hu => h.ready u (hmem u hu),
      fun _ h' => (by cases h'), fun _ => ⟨fun h' => (by cases h'), fun h' => (by cases h')⟩,
      fun _ h' => (by cases h'), fun u hu => h.ids u (hmem u hu)⟩, .grows (Grows.refl _ l) (.inr rfl)⟩
    have hut : u ≠ t := fun hut => hl (hut ▸ hu)
    exact List.mem_filter.2 ⟨h.queue.live u hu, by simpa using hut⟩
  · exact ⟨l, h1, .grows (Grows.refl _ l) (.inr rfl)⟩

theorem quiet (ha : a.quiet = true) (he : step fuel s a = some s') : ∃ l', Inv s' l' ∧ Change s a s' l l' := by
  obtain ⟨hf, hm, hq, hr, hpc, -, hx⟩ := quiet_step ha he
  have hc : s'.chain = s.chain := by rw [chain, chain, hf, hq]
  refine still ⟨h.queue.congr hc hm (fun u _ => by rw [hf]) (fun u _ => by rw [hf]), fun u hu => ?_,
    fun u hu => ?_, fun u => ?_, fun u hu hpcu => ?_, hm ▸ h.ids⟩ hr
  · rw [hf]
    exact h.ready u (hm ▸ hu)
  · rw [hm]
    exact h.live u (hr ▸ hu)
  · rw [hr, ← h.resuming u]
    obtain hx | ⟨hx, hx'⟩ := hx
    · rw [hx]
    · simp [hx, hx']
  · exact h.executing u (hr ▸ hu) (hpc ▸ hpcu)

/-- **One step.** -/
theorem step (he : step fuel s a = some s') : ∃ l', Inv s' l' ∧ Change s a s' l l' := by
  cases ho : a.own with
  | some t =>
    have hown := own_step ho he
    exact still (h.own hown) hown.runningFiber
  | none =>
    cases hw : a.woken with
    | some t =>
      obtain rfl | ⟨ht, ⟨-, hw⟩ | ⟨b, hw⟩⟩ := woken_step hw he
      · exact still h rfl
      · exact woken hw h rfl ht
      · exact woken hw (h.modify fun _ => ⟨rfl, rfl, rfl, rfl⟩) rfl ht
    | none =>
      cases hq : a.quiet with
      | true => exact h.quiet hq he
      | false =>
        unfold Sched.step at he
        split at he
        · cases he
        · cases a <;> cases ho <;> cases hw <;> cases hq
          · exact h.executorWait he
          · exact h.executorPost he
          · exact h.yieldTo he
          · exact h.yieldTo he
          · exact h.createFiber he
          · obtain ⟨l', h', hc, -⟩ := h.updatePriority he
            exact ⟨l', h', hc⟩
          · exact h.suspendOther he
          · obtain ⟨l', h', hc, -⟩ := h.rotateReadyQueue he
            exact ⟨l', h', hc⟩
          · simp only at he
            split at he
            · next hperm => exact h.schedulerShutdown hperm he
            · cases he

end

end Inv

/-! ### Runs -/

variable {s₀ : State} {as : List Act}

theorem Inv.initial (h : s.Initial) : Inv s [] where
  queue :=
    { spells := h.runQueue
      nodup := List.nodup_nil
      sorted := List.Pairwise.nil
      live := fun _ ht => (by cases ht)
      linked := fun t ht => (by rw [h.fiberMap] at ht; cases ht) }
  ready t ht := by
    rw [h.fiberMap] at ht
    cases ht
  live t ht := by
    rw [h.runningFiber] at ht
    cases ht
  resuming t := by simp [h.executor, h.runningFiber]
  executing _ _ _ ht := by cases ht
  ids t ht := by
    rw [h.fiberMap] at ht
    cases ht

theorem run_inv (h0 : s₀.Initial) (h : Run Step s₀ as s) : ∃ l, Inv s l := by
  refine h.state_invariant (I := fun s => ∃ l, Inv s l) ⟨[], .initial h0⟩ fun s a s' ⟨l, hl⟩ ⟨fuel, he⟩ => ?_
  obtain ⟨l', h', -⟩ := hl.step he
  exact ⟨l', h'⟩

/-- `t` is a node of the run queue. -/
def State.Queued (s : State) (t : Tid) : Prop := ∃ l, s.Queue l ∧ t ∈ l

theorem Inv.queued_iff (h : Inv s l) : s.Queued t ↔ t ∈ l := by
  refine ⟨fun ⟨l', h', ht⟩ => ?_, fun ht => ⟨l, h.queue, ht⟩⟩
  rwa [h.queue.spells.unique h'.spells]

/-- Steps that leave `u` and `t` queued and move neither. -/
def StayQueued (u t : Tid) (s : State) (a : Act) (s' : State) : Prop :=
  Step s a s' ∧ s'.Queued u ∧ s'.Queued t ∧ ¬Moves s u a ∧ ¬Moves s t a

theorem pair_sublist_erase {w : Tid} (h : [u, t] <+ l) (hu : w ≠ u) (ht : w ≠ t) : [u, t] <+ l.erase w := by
  have h' := h.erase w
  rwa [List.erase_cons_tail (by simpa using hu.symm), List.erase_cons_tail (by simpa using ht.symm),
    List.erase_nil] at h'

theorem Change.keeps_order (hc : Change s a s' l l') (hnd : l.Nodup) (h : [u, t] <+ l)
    (hu : u ∈ l') (ht : t ∈ l') (hmu : ¬Moves s u a) (hmt : ¬Moves s t a) : [u, t] <+ l' := by
  cases hc with
  | grows hg _ => exact h.trans hg.1
  | drop w _ =>
    refine pair_sublist_erase h ?_ ?_
    · rintro rfl
      exact hnd.not_mem_erase hu
    · rintro rfl
      exact hnd.not_mem_erase ht
  | pop w hl _ =>
    subst hl
    have hw := (List.nodup_cons.1 hnd).1
    have h' := pair_sublist_erase (w := w) h (fun e => hw (e ▸ hu)) fun e => hw (e ▸ ht)
    rwa [List.erase_cons_head] at h'
  | move w hm hs _ _ =>
    refine (pair_sublist_erase h ?_ ?_).trans hs
    · rintro rfl
      exact hmu hm
    · rintro rfl
      exact hmt hm

theorem Change.comes_behind (hc : Change s a s' l l') (hu : u ∈ l) (ht : t ∉ l) (ht' : t ∈ l')
    (hp : (s'.fibers u).priority = (s'.fibers t).priority) : [u, t] <+ l' := by
  cases hc with
  | grows hg _ => exact hg.2 t ht' ht u hu hp.le
  | drop w _ => exact absurd (List.mem_of_mem_erase ht') ht
  | pop w hl _ =>
    subst hl
    exact absurd (List.mem_cons_of_mem w ht') ht
  | move w _ _ hperm _ => exact absurd (hperm.mem_iff.1 ht') ht

theorem Inv.not_popped (h : Inv s l) (hut : [u, t] <+ l) (he : Step s .executorWait s') : s'.runningFiber ≠ some t := by
  obtain ⟨fuel, he⟩ := he
  obtain ⟨l', -, hc⟩ := h.step he
  intro hr
  have ht : t ∈ l := hut.subset (by simp)
  have hidle : s.runningFiber = none := by
    unfold Sched.step at he
    split at he
    · cases he
    · obtain ⟨hw, -⟩ := executorWait_cases he
      cases hrun : s.runningFiber with
      | none => rfl
      | some v =>
        have := (h.resuming v).2 hrun
        rw [hw] at this
        cases this
  cases hc with
  | grows _ hr' =>
    rw [hidle, hr] at hr'
    rcases hr' with h' | h' <;> cases h'
  | drop w hr' =>
    rw [hidle, hr] at hr'
    cases hr'
  | pop w hl hr' =>
    rw [hr, Option.some.injEq] at hr'
    subst hl hr'
    have hnd := h.queue.nodup
    have hn := hnd.sublist hut
    obtain h' | ⟨r, hr, h'⟩ := List.sublist_cons_iff.1 hut
    · exact (List.nodup_cons.1 hnd).1 (h'.subset (by simp))
    · cases hr
      simp at hn
  | move w hm _ _ _ => exact hm

/-- **The run queue in every run.** It is a finite sorted list without duplicates, of ready fibers
in the map, and `in_run_queue` is set exactly for its nodes (`State.Queue`). `update_priority` and
`rotate_ready_queue` only permute it. A fiber `t` that comes in while `u`, of the same priority,
is queued does not leave for the executor before `u`, unless one of them was moved. -/
theorem run_queue_sorted_fifo (h0 : s₀.Initial) (h : Run Step s₀ as s) :
    (∃ l, s.Queue l ∧ (∀ t ∈ l, (s.fibers t).state = .ready) ∧
      ∀ t ∈ s.fiberMap, (s.fibers t).state = .blocked → t ∉ l) ∧
    (∀ t p a s' l l', a = .updatePriority t p ∨ a = .rotateReadyQueue p → Step s a s' →
      s.Queue l → s'.Queue l' → l'.Perm l) ∧
    ∀ u t a s₁ bs s₂ s₃, s.Queued u → ¬s.Queued t → Step s a s₁ → s₁.Queued t →
      (s₁.fibers u).priority = (s₁.fibers t).priority → Run (StayQueued u t) s₁ bs s₂ →
      Step s₂ .executorWait s₃ → s₃.runningFiber ≠ some t := by
  obtain ⟨l, hl⟩ := run_inv h0 h
  refine ⟨⟨l, hl.queue, fun t ht => (hl.ready t (hl.queue.live t ht)).2 ht, fun t ht hb htl => ?_⟩,
    fun t p a s' l₁ l₂ ha hs hq hq' => ?_, fun u t a s₁ bs s₂ s₃ hu ht hs ht₁ hp hrun hpop => ?_⟩
  · have hready := (hl.ready t ht).2 htl
    rw [hb] at hready
    cases hready
  · obtain ⟨fuel, he⟩ := hs
    obtain rfl := hl.queue.spells.unique hq.spells
    unfold Sched.step at he
    split at he
    · cases he
    · obtain rfl | rfl := ha
      · obtain ⟨l', h', -, hperm⟩ := hl.updatePriority he
        rwa [h'.queue.spells.unique hq'.spells] at hperm
      · obtain ⟨l', h', -, hperm⟩ := hl.rotateReadyQueue he
        rwa [h'.queue.spells.unique hq'.spells] at hperm
  · obtain ⟨fuel, he⟩ := hs
    obtain ⟨l₁, h₁, hc⟩ := hl.step he
    have hut := hc.comes_behind (hl.queued_iff.1 hu) (fun h' => ht (hl.queued_iff.2 h')) (h₁.queued_iff.1 ht₁) hp
    -- the order is kept as long as both stay
    obtain ⟨l₂, h₂, hut₂⟩ := hrun.state_invariant (I := fun s => ∃ l, Inv s l ∧ [u, t] <+ l)
      ⟨l₁, h₁, hut⟩ fun s a s' ⟨l, hl, hut⟩ ⟨⟨fuel, he⟩, hu', ht', hmu, hmt⟩ => by
        obtain ⟨l', h', hc⟩ := hl.step he
        exact ⟨l', h', hc.keeps_order hl.queue.nodup hut (h'.queued_iff.1 hu') (h'.queued_iff.1 ht') hmu hmt⟩
    exact h₂.not_popped hut₂ hpop

theorem State.init_initial : State.init.Initial :=
  ⟨rfl, rfl, rfl, rfl, rfl, fun _ => rfl, fun _ => rfl, fun _ => rfl, rfl⟩

/-- The state after a computed sequence of steps of the first epoch. -/
def stateAfter (fuel : ℕ) (as : List Act) : State := after (step fuel) State.init as

theorem run_stateAfter (h : (as.foldlM (step fuel) State.init).isSome = true) :
    Run Step State.init as (stateAfter fuel as) :=
  (Run.of_foldlM (foldlM_eq_after h)).mono fun _ _ _ he => ⟨fuel, he⟩

theorem step_stateAfter (h : ((as ++ [a]).foldlM (step fuel) State.init).isSome = true) :
    Step (stateAfter fuel as) a (stateAfter fuel (as ++ [a])) :=
  ⟨fuel, after_step h⟩

/-- Three fibers; the first runs, one is suspended and resumed, and the queue is reordered. -/
theorem three_fibers_run_queue :
    let as : List Act := [.createFiber 1 10, .createFiber 2 20, .createFiber 3 20, .executorWait,
      .updatePriority 2 30, .suspendOther 3, .clearSuspend 3, .createFiber 4 20,
      .rotateReadyQueue 20, .maybeYield 1, .forceReschedule 1]
    ∃ s, Run Step State.init as s ∧ ∃ l, s.Queue l ∧ (∀ t ∈ l, (s.fibers t).state = .ready) ∧
      ∀ t ∈ s.fiberMap, (s.fibers t).state = .blocked → t ∉ l := by
  intro as
  have hrun : Run Step State.init as (stateAfter 5 as) := run_stateAfter (by decide)
  exact ⟨_, hrun, (run_queue_sorted_fifo State.init_initial hrun).1⟩

end Ps2Recomp.Sched
