import Mathlib.Data.List.Nodup
import Mathlib.Data.List.Pairwise
import Mathlib.Data.List.Perm.Basic
import Ps2Recomp.Spec.Scheduler

/-!
# Edits of the run queue

`Queue s l` says that the links spell `l`, a sorted list without duplicates of fibers in the map,
and that `in_run_queue` is set exactly for its nodes. `enqueue`, `remove`, `pop` and `rotate`
say what the four edits do to `l`; the fields they leave alone are read off the form of the new
state.
-/

namespace Ps2Recomp.Sched

open Intrusive
open scoped List

/-- The fields that are not those of the run queue. -/
def FiberContext.kept (fc : FiberContext) : BitVec 32 × ℕ × Bool × ℤ × Bool × ℤ :=
  (fc.generation, fc.suspendCount, fc.terminateRequested, fc.priority, fc.joinFloorActive, fc.joinSavedPriority)

namespace State

variable {s s' : State} {t u : Tid} {l l' : List Tid} {fuel : ℕ}

/-! ### Fields -/

@[simp] theorem modify_fibers (s : State) (t u : Tid) (f : FiberContext → FiberContext) :
    (s.modify t f).fibers u = if u = t then f (s.fibers t) else s.fibers u :=
  Function.update_apply s.fibers t _ u

section

variable (s : State) (t : Tid) (f : FiberContext → FiberContext)

@[simp] theorem modify_fiberMap : (s.modify t f).fiberMap = s.fiberMap := rfl

@[simp] theorem modify_runQueue : (s.modify t f).runQueue = s.runQueue := rfl

@[simp] theorem modify_runningFiber : (s.modify t f).runningFiber = s.runningFiber := rfl

@[simp] theorem modify_executor : (s.modify t f).executor = s.executor := rfl

@[simp] theorem modify_pc : (s.modify t f).pc = s.pc := rfl

end

section

variable (s : State)

section

variable (t : Tid) (pc : FiberPc)

@[simp] theorem setPc_fibers : (s.setPc t pc).fibers = s.fibers := rfl

@[simp] theorem setPc_fiberMap : (s.setPc t pc).fiberMap = s.fiberMap := rfl

@[simp] theorem setPc_runningFiber : (s.setPc t pc).runningFiber = s.runningFiber := rfl

@[simp] theorem setPc_executor : (s.setPc t pc).executor = s.executor := rfl

end

@[simp] theorem setPc_pc (t u : Tid) (pc : FiberPc) : (s.setPc t pc).pc u = if u = t then pc else s.pc u :=
  Function.update_apply s.pc t pc u

section

variable (c : Chain Tid)

@[simp] theorem setChain_fibers (u : Tid) : (s.setChain c).fibers u = { s.fibers u with next := c.next u } := rfl

@[simp] theorem setChain_fiberMap : (s.setChain c).fiberMap = s.fiberMap := rfl

@[simp] theorem setChain_runningFiber : (s.setChain c).runningFiber = s.runningFiber := rfl

@[simp] theorem setChain_executor : (s.setChain c).executor = s.executor := rfl

@[simp] theorem setChain_pc : (s.setChain c).pc = s.pc := rfl

@[simp] theorem chain_setChain : (s.setChain c).chain = c := rfl

end

theorem chain_get_head : s.chain.get .head = s.runQueue := rfl

theorem chain_modify (t : Tid) {f : FiberContext → FiberContext}
    (hf : ∀ fc, (f fc).next = fc.next) : (s.modify t f).chain = s.chain := by
  ext u
  · rfl
  · simp only [chain, modify_fibers]
    split
    · next h => rw [hf, h]
    · rfl

end

/-! ### The form of an edit -/

theorem enqueueLocked_form (he : s.enqueueLocked fuel t = some s') :
    (s.fibers t).inRunQueue = true ∧ s' = s ∨ (s.fibers t).inRunQueue = false ∧ ∃ c,
      s' = (s.modify t fun fc => { fc with inRunQueue := true, state := .ready }).setChain c := by
  rw [enqueueLocked] at he
  split at he
  · next hf => exact .inl ⟨hf, (Option.some.inj he).symm⟩
  · next hf =>
    obtain ⟨pp, -, hs'⟩ := Option.bind_eq_some_iff.1 he
    exact .inr ⟨Bool.eq_false_iff.2 hf, _, (Option.some.inj hs').symm⟩

theorem removeLocked_form (he : s.removeLocked fuel t = some s') :
    s' = s ∨ ∃ c, s' = (s.setChain c).modify t fun fc => { fc with inRunQueue := false } := by
  rw [removeLocked] at he
  split at he
  · exact .inl (Option.some.inj he).symm
  · obtain ⟨pp, -, hs'⟩ := Option.bind_eq_some_iff.1 he
    split at hs'
    · exact .inr ⟨_, (Option.some.inj hs').symm⟩
    · exact .inl (Option.some.inj hs').symm

theorem popHeadLocked_form (he : s.popHeadLocked = some (t, s')) :
    s.runQueue = some t ∧ ∃ c, s' = (s.setChain c).modify t fun fc => { fc with inRunQueue := false } := by
  rw [popHeadLocked] at he
  split at he
  · cases he
  · next u hq =>
    rw [Option.some.injEq, Prod.mk.injEq] at he
    obtain ⟨rfl, rfl⟩ := he
    exact ⟨hq, _, rfl⟩

theorem rotateReadyQueue_form {p : ℤ} (he : s.rotateReadyQueue fuel p = some s') : s' = s ∨ ∃ c, s' = s.setChain c := by
  obtain ⟨pp, -, hs'⟩ := Option.bind_eq_some_iff.1 he
  split at hs'
  · exact .inl (Option.some.inj hs').symm
  · obtain ⟨ins, -, hs'⟩ := Option.bind_eq_some_iff.1 hs'
    exact .inr ⟨_, (Option.some.inj hs').symm⟩

/-- **A wakeup** of a fiber that is neither queued nor running queues it; the running fiber gets
a note. -/
theorem wakeLocked_form (he : s.wakeLocked fuel t = some s') :
    (s.fibers t).inRunQueue = true ∧ s' = s ∨
    s.runningFiber = some t ∧ s' = (s.modify t fun fc => { fc with wakePending := true }) ∨
    s.runningFiber ≠ some t ∧ ∃ c,
      s' = (s.modify t fun fc => { fc with inRunQueue := true, state := .ready }).setChain c := by
  rw [wakeLocked] at he
  split at he
  · next hf => exact .inl ⟨hf, (Option.some.inj he).symm⟩
  · next hf =>
    split at he
    · next hr => exact .inr (.inl ⟨hr, (Option.some.inj he).symm⟩)
    · next hr =>
      obtain ⟨hf', -⟩ | ⟨-, hc⟩ := enqueueLocked_form he
      · exact absurd hf' hf
      · exact .inr (.inr ⟨hr, hc⟩)

/-- The guest token and the host workers. -/
def token (s : State) : Bool × (ℕ → Bool) × (ℕ → WorkerPc) :=
  (s.guestTokenHeldByHost, s.tlsHoldsGuestToken, s.worker)

/-- What a wakeup leaves alone. -/
structure Keeps (s s' : State) : Prop where
  token : s'.token = s.token
  fatal : s'.fatal = s.fatal
  fiberMap : s'.fiberMap = s.fiberMap
  runningFiber : s'.runningFiber = s.runningFiber
  executor : s'.executor = s.executor
  pc : s'.pc = s.pc
  priority : ∀ u, (s'.fibers u).priority = (s.fibers u).priority
  suspendCount : ∀ u, (s'.fibers u).suspendCount = (s.fibers u).suspendCount
  generation : ∀ u, (s'.fibers u).generation = (s.fibers u).generation

/-- **Only the context of `t` and the links are written**, and but for the fields of the run queue `t` is left
with the context `fc`. -/
structure Rewrites (s : State) (t : Tid) (fc : FiberContext) (s' : State) : Prop where
  rest : { s' with runQueue := none, fibers := s.fibers } = { s with runQueue := none }
  others : ∀ u, u ≠ t → s'.fibers u = { s.fibers u with next := (s'.fibers u).next }
  kept : (s'.fibers t).kept = fc.kept

namespace Rewrites

variable {s₁ : State} {fc fc' : FiberContext}

theorem refl (s : State) (t : Tid) : Rewrites s t (s.fibers t) s := ⟨rfl, fun _ _ => rfl, rfl⟩

theorem write (s : State) (t : Tid) (g : FiberContext → FiberContext) :
    Rewrites s t (g (s.fibers t)) (s.modify t g) where
  rest := rfl
  others u hu := by
    rw [modify_fibers, if_neg hu]
  kept := by
    rw [modify_fibers, if_pos rfl]

theorem setChain (h : Rewrites s t fc s₁) (c : Chain Tid) : Rewrites s t fc (s₁.setChain c) where
  rest := h.rest
  others u hu := by
    rw [setChain_fibers, h.others u hu]
  kept := h.kept

theorem modify (h : Rewrites s t fc s₁) {g : FiberContext → FiberContext}
    (hg : ∀ x : FiberContext, x.kept = fc.kept → (g x).kept = fc'.kept) : Rewrites s t fc' (s₁.modify t g) where
  rest := h.rest
  others u hu := by
    rw [modify_fibers, if_neg hu]
    exact h.others u hu
  kept := by
    rw [modify_fibers, if_pos rfl]
    exact hg _ h.kept

theorem queued (s : State) (t : Tid) (c : Chain Tid) : Rewrites s t (s.fibers t)
    ((s.modify t fun fc => { fc with inRunQueue := true, state := .ready }).setChain c) := by
  have h := (write s t fun fc => { fc with inRunQueue := true, state := .ready }).setChain c
  exact ⟨h.rest, h.others, h.kept⟩

theorem trans (h : Rewrites s t fc s₁) (h' : Rewrites s₁ t (s₁.fibers t) s') : Rewrites s t fc s' where
  rest := (congrArg (fun x : State => { x with fibers := s.fibers }) h'.rest).trans h.rest
  others u hu := (h'.others u hu).trans (by rw [h.others u hu])
  kept := h'.kept.trans h.kept

section

variable (h : Rewrites s t fc s')

include h

theorem congr {β : Type} {k : FiberContext → β} (hk : ∀ x y : FiberContext, x.kept = y.kept → k x = k y)
    (hfc : k fc = k (s.fibers t)) (u : Tid) : k (s'.fibers u) = k (s.fibers u) := by
  by_cases hu : u = t
  · rw [hu, hk _ _ h.kept, hfc]
  · rw [h.others u hu]
    exact hk _ _ rfl

theorem field {β : Type} (f : State → β)
    (hf : ∀ (x : State) q fibers, f { x with runQueue := q, fibers } = f x) : f s' = f s := by
  rw [← hf s' none s.fibers, h.rest]
  exact hf s none s.fibers

theorem fiberMap : s'.fiberMap = s.fiberMap := h.field _ fun _ _ _ => rfl

theorem pc : s'.pc = s.pc := h.field _ fun _ _ _ => rfl

theorem runningFiber : s'.runningFiber = s.runningFiber := h.field _ fun _ _ _ => rfl

end

end Rewrites

theorem enqueueLocked_rewrites (he : s.enqueueLocked fuel t = some s') : Rewrites s t (s.fibers t) s' := by
  obtain ⟨-, rfl⟩ | ⟨-, c, rfl⟩ := enqueueLocked_form he
  · exact .refl _ t
  · exact .queued s t c

theorem removeLocked_rewrites (he : s.removeLocked fuel t = some s') : Rewrites s t (s.fibers t) s' := by
  obtain rfl | ⟨c, rfl⟩ := removeLocked_form he
  · exact .refl _ t
  · exact .modify (.setChain (.refl s t) c) fun _ h => h

theorem popHeadLocked_rewrites (he : s.popHeadLocked = some (t, s')) : Rewrites s t (s.fibers t) s' := by
  obtain ⟨-, c, rfl⟩ := popHeadLocked_form he
  exact .modify (.setChain (.refl s t) c) fun _ h => h

section

variable (he : s.wakeLocked fuel t = some s')

include he

theorem wakeLocked_rewrites : Rewrites s t (s.fibers t) s' := by
  obtain ⟨-, rfl⟩ | ⟨-, rfl⟩ | ⟨-, c, rfl⟩ := wakeLocked_form he
  · exact .refl _ t
  · exact .modify (.refl s t) fun _ h => h
  · exact .queued s t c

theorem wakeLocked_keeps : Keeps s s' := by
  have h := wakeLocked_rewrites he
  have hkept : ∀ u, (s'.fibers u).kept = (s.fibers u).kept := h.congr (fun _ _ => id) rfl
  simp only [FiberContext.kept, Prod.mk.injEq] at hkept
  exact ⟨h.field token fun _ _ _ => rfl, h.field State.fatal fun _ _ _ => rfl, h.fiberMap, h.runningFiber,
    h.field executor fun _ _ _ => rfl, h.pc, fun u => (hkept u).2.2.2.1, fun u => (hkept u).2.1, fun u => (hkept u).1⟩

end

/-- `maybe_yield` and `force_reschedule` queue their fiber, and nothing more. -/
theorem yieldTo_form {gives : ℤ → ℤ → Bool} (he : s.yieldTo gives fuel t = some s') :
    s.At t .code ∧ (s' = s ∨ ∃ s₁, s.enqueueLocked fuel t = some s₁ ∧ s' = s₁.setPc t .yielded) := by
  rw [State.yieldTo] at he
  split at he
  · next hat =>
    refine ⟨hat, ?_⟩
    split at he
    · exact .inl (Option.some.inj he).symm
    · split at he
      · obtain ⟨s₁, he1, hs'⟩ := Option.bind_eq_some_iff.1 he
        exact .inr ⟨s₁, he1, (Option.some.inj hs').symm⟩
      · exact .inl (Option.some.inj he).symm
  · cases he

theorem suspendOther_rewrites (he : s.suspendOther fuel t = some s') :
    ∃ n, Rewrites s t { s.fibers t with suspendCount := n } s' := by
  have hcount := Rewrites.write s t fun fc => { fc with suspendCount := fc.suspendCount + 1 }
  rw [State.suspendOther] at he
  split at he
  · simp only at he
    split at he
    · obtain ⟨s₁, he1, hs'⟩ := Option.bind_eq_some_iff.1 he
      cases hs'
      exact ⟨_, (hcount.trans (removeLocked_rewrites he1)).modify fun _ h => h⟩
    · cases he
      exact ⟨_, hcount⟩
  · cases he
    exact ⟨_, .refl _ t⟩

theorem updatePriority_rewrites {p : ℤ} (he : s.updatePriority fuel t p = some s') :
    ∃ q saved, Rewrites s t { s.fibers t with priority := q, joinSavedPriority := saved } s' := by
  have hpriority : ∀ s₁, Rewrites s t (s.fibers t) s₁ →
      Rewrites s t { s.fibers t with priority := p } (s₁.modify t fun fc => { fc with priority := p }) := by
    refine fun s₁ h => .modify h fun x hx => ?_
    simp only [FiberContext.kept, Prod.mk.injEq] at hx ⊢
    exact ⟨hx.1, hx.2.1, hx.2.2.1, trivial, hx.2.2.2.2⟩
  rw [State.updatePriority] at he
  split at he
  · cases he
    exact ⟨_, _, .refl _ t⟩
  · split at he
    · cases he
      exact ⟨_, _, .write s t fun fc => { fc with joinSavedPriority := p }⟩
    · split at he
      · cases he
        exact ⟨_, _, .refl _ t⟩
      · split at he
        · obtain ⟨s₁, he1, he2⟩ := Option.bind_eq_some_iff.1 he
          exact ⟨p, _, (hpriority s₁ (removeLocked_rewrites he1)).trans (enqueueLocked_rewrites he2)⟩
        · cases he
          exact ⟨p, _, hpriority s (.refl s t)⟩

/-! ### The list of the run queue -/

/-- **The run queue is `l`.** -/
structure Queue (s : State) (l : List Tid) : Prop where
  spells : s.chain.Spells s.runQueue l
  nodup : l.Nodup
  sorted : l.Pairwise fun t u => (s.fibers t).priority ≤ (s.fibers u).priority
  live : ∀ t ∈ l, t ∈ s.fiberMap
  linked : ∀ t ∈ s.fiberMap, ((s.fibers t).inRunQueue = true ↔ t ∈ l)

/-- `l` with `t` behind the nodes of its priority. -/
def insertBehind (s : State) (t : Tid) (l : List Tid) : List Tid :=
  l.takeWhile (fun u => (s.fibers u).priority ≤ (s.fibers t).priority) ++
    t :: l.dropWhile (fun u => (s.fibers u).priority ≤ (s.fibers t).priority)

theorem insertBehind_perm (s : State) (t : Tid) (l : List Tid) : (s.insertBehind t l).Perm (t :: l) := by
  have h : (s.insertBehind t l).Perm
      (t :: (l.takeWhile (fun u => (s.fibers u).priority ≤ (s.fibers t).priority) ++
        l.dropWhile fun u => (s.fibers u).priority ≤ (s.fibers t).priority)) := List.perm_middle
  rwa [List.takeWhile_append_dropWhile] at h

@[simp] theorem mem_insertBehind : u ∈ s.insertBehind t l ↔ u = t ∨ u ∈ l := by
  rw [(s.insertBehind_perm t l).mem_iff, List.mem_cons]

theorem sublist_insertBehind (s : State) (t : Tid) (l : List Tid) : l <+ s.insertBehind t l := by
  have h := (List.Sublist.refl (l.takeWhile fun u => (s.fibers u).priority ≤ (s.fibers t).priority)).append
    (List.sublist_cons_self t (l.dropWhile fun u => (s.fibers u).priority ≤ (s.fibers t).priority))
  rwa [List.takeWhile_append_dropWhile] at h

section

variable {k : Tid → ℤ} {x : ℤ}

theorem lt_of_mem_dropWhile (h : l.Pairwise fun t u => k t ≤ k u)
    (hu : u ∈ l.dropWhile fun u => k u ≤ x) : x < k u := by
  induction l with
  | nil => cases hu
  | cons t l ih =>
    rw [List.pairwise_cons] at h
    by_cases ht : k t ≤ x
    · rw [List.dropWhile_cons_of_pos (by simpa using ht)] at hu
      exact ih h.2 hu
    · rw [List.dropWhile_cons_of_neg (by simpa using ht), List.mem_cons] at hu
      obtain rfl | hu := hu
      · omega
      · have := h.1 u hu
        omega

theorem le_of_mem_takeWhile (hu : u ∈ l.takeWhile fun u => k u ≤ x) : k u ≤ x := by
  have h := List.mem_takeWhile_imp hu
  exact of_decide_eq_true h

end

section

variable (h : l.Pairwise fun t u => (s.fibers t).priority ≤ (s.fibers u).priority)

include h

theorem insertBehind_sorted :
    (s.insertBehind t l).Pairwise fun t u => (s.fibers t).priority ≤ (s.fibers u).priority := by
  have hl := h
  rw [← List.takeWhile_append_dropWhile (l := l)
    (p := fun u => (s.fibers u).priority ≤ (s.fibers t).priority), List.pairwise_append] at hl
  obtain ⟨h1, h2, h12⟩ := hl
  rw [insertBehind, List.pairwise_append, List.pairwise_cons]
  refine ⟨h1, ⟨fun u hu => (lt_of_mem_dropWhile h hu).le, h2⟩, fun a ha b hb => ?_⟩
  obtain rfl | hb := List.mem_cons.1 hb
  · exact le_of_mem_takeWhile ha
  · exact h12 a ha b hb

theorem sublist_insertBehind_pair (hu : u ∈ l)
    (hp : (s.fibers u).priority ≤ (s.fibers t).priority) : [u, t] <+ s.insertBehind t l := by
  have hm : u ∈ l.takeWhile fun u => (s.fibers u).priority ≤ (s.fibers t).priority := by
    rw [← List.takeWhile_append_dropWhile (l := l)
      (p := fun u => (s.fibers u).priority ≤ (s.fibers t).priority), List.mem_append] at hu
    refine hu.resolve_right fun hd => ?_
    have := lt_of_mem_dropWhile (k := fun u => (s.fibers u).priority) h hd
    omega
  have h1 := List.singleton_sublist.2 hm
  have h2 : [t] <+ t :: l.dropWhile fun u => (s.fibers u).priority ≤ (s.fibers t).priority :=
    List.singleton_sublist.2 List.mem_cons_self
  exact h1.append h2

end

namespace Queue

theorem congr (h : s.Queue l) (hc : s'.chain = s.chain) (hm : s'.fiberMap = s.fiberMap)
    (hq : ∀ u ∈ s.fiberMap, (s'.fibers u).inRunQueue = (s.fibers u).inRunQueue)
    (hp : ∀ u ∈ l, (s'.fibers u).priority = (s.fibers u).priority) : s'.Queue l where
  spells := by
    rw [← chain_get_head, hc]
    exact h.spells
  nodup := h.nodup
  sorted := by
    refine h.sorted.imp_of_mem fun ha hb hab => ?_
    rwa [hp _ ha, hp _ hb]
  live t ht := by
    rw [hm]
    exact h.live t ht
  linked t ht := by
    rw [hm] at ht
    rw [hq t ht]
    exact h.linked t ht

theorem modify {f : FiberContext → FiberContext} (h : s.Queue l) (hl : t ∉ l) (hn : ∀ fc, (f fc).next = fc.next)
    (hq : ∀ fc, (f fc).inRunQueue = fc.inRunQueue) : (s.modify t f).Queue l := by
  refine h.congr (chain_modify s t hn) rfl (fun u _ => ?_) fun u hu => ?_
  · rw [modify_fibers]
    split
    · next hut => rw [hut, hq]
    · rfl
  · have hut : u ≠ t := fun hut => hl (hut ▸ hu)
    rw [modify_fibers, if_neg hut]

section

variable (h : s.Queue l) (ht : t ∈ s.fiberMap) (hl : t ∉ l)

include h ht hl

theorem flag_eq_false : (s.fibers t).inRunQueue = false :=
  Bool.eq_false_iff.2 (mt (h.linked t ht).1 hl)

theorem enqueue (he : s.enqueueLocked fuel t = some s') :
    (∃ c, s' = (s.modify t fun fc =>
      { fc with inRunQueue := true, state := .ready }).setChain c) ∧
    s'.Queue (s.insertBehind t l) := by
  set s₁ := s.modify t fun fc => { fc with inRunQueue := true, state := .ready } with hs1
  have hchain : s₁.chain = s.chain := chain_modify s t fun _ => rfl
  have hprio : ∀ u, (s₁.fibers u).priority = (s.fibers u).priority := by
    intro u
    rw [hs1, modify_fibers]
    split
    · next h => rw [h]
    · rfl
  rw [enqueueLocked, if_neg (by simp [h.flag_eq_false ht hl])] at he
  obtain ⟨pp, hpp, hs'⟩ := Option.bind_eq_some_iff.1 he
  simp only [← hs1, hchain, hprio, Option.some.injEq] at hpp hs'
  subst hs'
  have hspells : s.chain.Spells (s.chain.get .head) l := h.spells
  obtain ⟨hpath, hrest⟩ := Chain.seek_spec hspells hpp
  have hsplit : (l.takeWhile fun u => decide ((s.fibers u).priority ≤ (s.fibers t).priority)) ++
      l.dropWhile (fun u => decide ((s.fibers u).priority ≤ (s.fibers t).priority)) = l :=
    List.takeWhile_append_dropWhile
  obtain ⟨hpath', hrest'⟩ := Chain.link_spells hpath hrest (by rw [hsplit]; exact h.nodup) (by rwa [hsplit])
  refine ⟨⟨_, rfl⟩, ⟨hpath'.spells hrest', ?_, ?_, ?_, ?_⟩⟩
  · rw [(s.insertBehind_perm t l).nodup_iff, List.nodup_cons]
    exact ⟨hl, h.nodup⟩
  · simp only [setChain_fibers, hprio]
    exact insertBehind_sorted h.sorted
  · intro u hu
    obtain rfl | hu := mem_insertBehind.1 hu
    · exact ht
    · exact h.live u hu
  · intro u hu
    rw [setChain_fibers, mem_insertBehind, hs1, modify_fibers]
    split
    · next hut => simp [hut]
    · next hut => simpa [hut] using h.linked u hu

end

theorem unlink {a b : List Tid} {pp : Slot Tid} (h : s.Queue (a ++ t :: b))
    (hpath : s.chain.Path .head a pp) (hrest : s.chain.Spells (s.chain.get pp) (t :: b)) :
    ((s.setChain (s.chain.unlink pp t)).modify t fun fc => { fc with inRunQueue := false }).Queue
      (a ++ b) := by
  obtain ⟨hpath', hrest'⟩ := Chain.unlink_spells hpath hrest h.nodup
  have hsub : a ++ b <+ a ++ t :: b := (List.Sublist.refl a).append (List.sublist_cons_self t b)
  have hnd := List.nodup_middle.1 h.nodup
  have hprio : ∀ u, (((s.setChain (s.chain.unlink pp t)).modify t fun fc =>
      { fc with inRunQueue := false }).fibers u).priority = (s.fibers u).priority := by
    intro u
    rw [modify_fibers]
    split
    · next h => rw [h]; rfl
    · rfl
  refine ⟨?_, (List.nodup_cons.1 hnd).2, ?_, fun u hu => h.live u (hsub.subset hu), fun u hu => ?_⟩
  · rw [chain_modify, chain_setChain]
    · exact hpath'.spells hrest'
    · intro _
      rfl
  · simp only [hprio]
    exact h.sorted.sublist hsub
  · rw [modify_fibers]
    split
    · next hut =>
      subst hut
      simpa using (List.nodup_cons.1 hnd).1
    · next hut =>
      rw [setChain_fibers, h.linked u hu]
      simp [hut]

theorem remove (h : s.Queue l) (hl : t ∈ l) (he : s.removeLocked fuel t = some s') :
    (∃ c, s' = (s.setChain c).modify t fun fc => { fc with inRunQueue := false }) ∧
    s'.Queue (l.erase t) := by
  have ht := h.live t hl
  rw [removeLocked, if_neg (by simp [(h.linked t ht).2 hl])] at he
  obtain ⟨pp, hpp, hs'⟩ := Option.bind_eq_some_iff.1 he
  have hspells : s.chain.Spells (s.chain.get .head) l := h.spells
  obtain ⟨hpath, hrest⟩ := Chain.seek_spec hspells hpp
  -- the walk stops at `t`
  obtain ⟨a, b, hta, rfl, herase⟩ := List.exists_erase_eq hl
  have hpos : ∀ u ∈ a, decide (u ≠ t) = true := by
    intro u hu
    exact decide_eq_true fun hut => hta (hut ▸ hu)
  rw [List.takeWhile_append_of_pos hpos, List.takeWhile_cons_of_neg (by simp), List.append_nil] at hpath
  rw [List.dropWhile_append_of_pos hpos, List.dropWhile_cons_of_neg (by simp)] at hrest
  rw [if_pos (by rw [hrest.1]; rfl), Option.some.injEq] at hs'
  subst hs'
  rw [herase]
  exact ⟨⟨_, rfl⟩, h.unlink hpath hrest⟩

theorem pop (h : s.Queue l) (he : s.popHeadLocked = some (t, s')) :
    (∃ c, s' = (s.setChain c).modify t fun fc => { fc with inRunQueue := false }) ∧
    ∃ b, l = t :: b ∧ s'.Queue b := by
  cases hq : s.runQueue with
  | none => simp [popHeadLocked, hq] at he
  | some u =>
    simp only [popHeadLocked, hq, Option.some.injEq, Prod.mk.injEq] at he
    obtain ⟨rfl, rfl⟩ := he
    have hspells := h.spells
    cases l with
    | nil =>
      rw [hq] at hspells
      cases hspells
    | cons v b =>
      obtain ⟨hv, hb⟩ := hspells
      obtain rfl : u = v := Option.some.inj (hq.symm.trans hv)
      exact ⟨⟨_, rfl⟩, b, rfl, h.unlink (a := []) rfl ⟨hv, hb⟩⟩

/-- `rotate_ready_queue` takes out the first node of the priority and links it behind the others
of this priority. -/
theorem rotate {p : ℤ} (h : s.Queue l) (he : s.rotateReadyQueue fuel p = some s') :
    s' = s ∨ (∃ c, s' = s.setChain c) ∧ ∃ a v b1 b2, l = a ++ v :: (b1 ++ b2) ∧
      (s.fibers v).priority = p ∧ (∀ u ∈ a, (s.fibers u).priority ≠ p) ∧
      s'.Queue (a ++ b1 ++ v :: b2) := by
  obtain ⟨pp, hpp, hs'⟩ := Option.bind_eq_some_iff.1 he
  have hspells : s.chain.Spells (s.chain.get .head) l := h.spells
  obtain ⟨hpath, hrest⟩ := Chain.seek_spec hspells hpp
  have hsplit := List.takeWhile_append_dropWhile (l := l)
    (p := fun u => decide ((s.fibers u).priority ≠ p))
  have ha : ∀ u ∈ l.takeWhile fun u => decide ((s.fibers u).priority ≠ p), (s.fibers u).priority ≠ p := by
    intro u hu
    have h := List.mem_takeWhile_imp hu
    exact of_decide_eq_true h
  have hv := List.head?_dropWhile_not (fun u => decide ((s.fibers u).priority ≠ p)) l
  generalize l.takeWhile (fun u => decide ((s.fibers u).priority ≠ p)) = a at *
  generalize l.dropWhile (fun u => decide ((s.fibers u).priority ≠ p)) = r at *
  cases r with
  | nil =>
    have hget : s.chain.get pp = none := hrest
    simp only [hget, Option.some.injEq] at hs'
    exact .inl hs'.symm
  | cons v b =>
    have hvp : (s.fibers v).priority = p := by simpa using hv
    simp only [hrest.1] at hs'
    obtain ⟨ins, hins, hs'⟩ := Option.bind_eq_some_iff.1 hs'
    rw [Option.some.injEq] at hs'
    subst hs'
    have hnd : (a ++ v :: b).Nodup := hsplit ▸ h.nodup
    obtain ⟨hpath1, hrest1⟩ := Chain.unlink_spells hpath hrest hnd
    obtain ⟨hpath2, hrest2⟩ := Chain.seek_spec hrest1 hins
    have hb := List.takeWhile_append_dropWhile (l := b)
      (p := fun u => decide ((s.fibers u).priority = p))
    have hb1 : ∀ u ∈ b.takeWhile fun u => decide ((s.fibers u).priority = p), (s.fibers u).priority = p := by
      intro u hu
      have h := List.mem_takeWhile_imp hu
      exact of_decide_eq_true h
    generalize b.takeWhile (fun u => decide ((s.fibers u).priority = p)) = b1 at *
    generalize b.dropWhile (fun u => decide ((s.fibers u).priority = p)) = b2 at *
    subst hb hsplit
    have hperm : (a ++ b1 ++ v :: b2).Perm (a ++ v :: (b1 ++ b2)) := by
      rw [List.append_assoc]
      exact List.Perm.append_left a List.perm_middle
    have hnd1 := List.nodup_cons.1 (List.nodup_middle.1 hnd)
    rw [← List.append_assoc] at hnd1
    obtain ⟨hpath3, hrest3⟩ := Chain.link_spells (hpath1.append hpath2) hrest2 hnd1.2 hnd1.1
    refine .inr ⟨⟨_, rfl⟩, a, v, b1, b2, rfl, hvp, ha, hpath3.spells hrest3, ?_, ?_, ?_, ?_⟩
    · exact hperm.nodup_iff.2 hnd
    · -- the nodes passed over have the priority of the node that moved
      have hsorted := h.sorted
      simp only [setChain_fibers]
      simp only [List.pairwise_append, List.pairwise_cons, List.mem_append, List.mem_cons] at hsorted ⊢
      obtain ⟨hsa, ⟨hsv, hs1, hs2, hs12⟩, hsab⟩ := hsorted
      refine ⟨⟨hsa, hs1, fun x hx y hy => hsab x hx y (.inr (.inl hy))⟩,
        ⟨fun y hy => hsv y (.inr hy), hs2⟩, fun x hx y hy => ?_⟩
      obtain hx | hx := hx
      · exact hsab x hx y (hy.imp id .inr)
      · obtain rfl | hy := hy
        · rw [hb1 x hx, hvp]
        · exact hs12 x hx y hy
    · intro u hu
      exact h.live u (hperm.mem_iff.1 hu)
    · intro u hu
      rw [setChain_fibers, hperm.mem_iff]
      exact h.linked u hu

end Queue

end State

end Ps2Recomp.Sched
