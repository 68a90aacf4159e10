import Ps2Recomp.Proof.Rotation

/-!
# Joining a fiber

`join_fiber` remembers its target by thread id and generation, yields until that fiber is finished
or gone, and runs with the target's priority meanwhile where its own is higher.

* `Joins.step`: a joiner stays in its loop through all sections but its restore.
* `Wanted.step`: whichever of its two records holds the joiner's priority, it is the last one asked for.
* `Gone.step`: what has been joined does not come back, unless its generation does.
* `join_ends_and_restores`: the two promises of a join.
* `recreated_joined_again`: a generation comes back after 2^32 creations.
-/

namespace Ps2Recomp.Sched

open Intrusive Transition
open State

variable {s s' s₀ : State} {t f target : Tid} {generation : BitVec 32} {l : List Tid} {fuel : ℕ}
  {a : Act} {as : List Act}

/-! ### The place of a joiner -/

/-- In `join_fiber` of a target that was found with a generation. -/
def Joins (target : Tid) (generation : BitVec 32) (pc : FiberPc) : Prop :=
  pc = .joining target generation ∨ pc = .joinYielded target generation ∨ pc = .joined

/-- A section while `t` is in its `join_fiber`. -/
def InJoin (t : Tid) (s : State) (a : Act) (s' : State) : Prop := Step s a s' ∧ a ≠ .joinRestore t

theorem joinIteration_cases (he : s.joinIteration t = some s') :
    ∃ target generation, s.executor = .resuming t ∧ s.pc t = .joining target generation ∧
      ((target ∉ s.fiberMap ∨ (s.fibers target).generation ≠ generation ∨
          (s.fibers target).state = .finished) ∧ s' = s.setPc t .joined ∨
        (target ∈ s.fiberMap ∧ (s.fibers target).generation = generation ∧
          (s.fibers target).state ≠ .finished) ∧
        ((s.fibers target).priority ≤ (s.fibers t).priority ∧
            s' = s.setPc t (.joinYielded target generation) ∨
          s' = (s.setPc t (.joinYielded target generation)).modify t fun fc =>
            { fc with
              joinFloorActive := true
              joinSavedPriority := if fc.joinFloorActive then fc.joinSavedPriority else fc.priority
              priority := (s.fibers target).priority })) := by
  rw [joinIteration] at he
  split at he
  · next hx =>
    split at he
    · next target generation hpc =>
      refine ⟨target, generation, hx, hpc, ?_⟩
      split at he
      · next hdone => exact .inl ⟨hdone, (Option.some.inj he).symm⟩
      · next hdone =>
        push Not at hdone
        right
        refine ⟨hdone, ?_⟩
        simp only at he
        split at he
        · exact .inr (Option.some.inj he).symm
        · next hle =>
          have hle' : ¬(s.fibers t).priority < (s.fibers target).priority := hle
          exact .inl ⟨by omega, (Option.some.inj he).symm⟩
    · cases he
  · cases he

theorem Joins.step (hi : Inv s l) (hf : f ∈ s.fiberMap) (h : Joins target generation (s.pc f))
    (he : step fuel s a = some s') (ha : a ≠ .joinRestore f) : Joins target generation (s'.pc f) := by
  cases step_fate hi hf he with
  | own hown ho =>
    unfold Sched.step at he
    split at he
    · cases he
    cases a <;> cases hown
    case joinIteration.refl =>
      obtain ⟨target', generation', -, hpc, ⟨-, rfl⟩ | ⟨-, ⟨-, rfl⟩ | rfl⟩⟩ := joinIteration_cases he
      · exact .inr (.inr (by simp))
      all_goals
        rcases h with h | h | h
        · rw [hpc, FiberPc.joining.injEq] at h
          obtain ⟨rfl, rfl⟩ := h
          exact .inr (.inl (by simp))
        · rw [hpc] at h
          cases h
        · rw [hpc] at h
          cases h
    case joinRestore.refl => exact absurd rfl ha
    case blockCurrent.refl =>
      obtain ⟨-, b, hpc, -⟩ := blockCurrent_cases he
      rcases h with h | h | h <;> rcases hpc with hpc | ⟨hpc, -⟩ <;> simp [hpc] at h
    case armPark.refl =>
      obtain ⟨b, hat, -⟩ := armPark_cases he
      have hpc := hat.2
      rcases h with h | h | h <;> cases b <;> simp [h] at hpc
    case joinFiber.refl =>
      simp only [joinFiber] at he
      split at he
      · next hat =>
        have hpc := hat.2
        rcases h with h | h | h <;> simp [h] at hpc
      · cases he
    case exitFiber.refl =>
      simp only [exitFiber] at he
      split at he
      · next hat =>
        have hpc := hat.1.2
        rcases h with h | h | h <;> simp [h] at hpc
      · cases he
    case finishFiber.refl =>
      simp only [finishFiber] at he
      split at he
      · next hat =>
        have hpc := hat.1.2
        rcases h with h | h | h <;> simp [h] at hpc
      · cases he
    case suspendGate.refl =>
      simp only [suspendGate] at he
      split at he
      · next hat =>
        have hpc := hat.1.2
        rcases h with h | h | h <;> simp [h] at hpc
      · cases he
    case yieldToWorker.refl =>
      simp only [yieldToWorker] at he
      split at he
      · next hat =>
        have hpc := hat.1.2
        rcases h with h | h | h <;> simp [h] at hpc
      · cases he
    all_goals
      simp only [publish, suspendSelf, waitWhileSuspended] at he
      split at he
      · next hat =>
        have hpc := hat.2
        rcases h with h | h | h <;> simp [h] at hpc
      · cases he
  | yields hat =>
    have hpc := hat.2
    rcases h with h | h | h <;> simp [h] at hpc
  | resumed hlive hpc =>
    rw [hpc]
    rcases h with h | h | h
    · rw [h]
      exact .inl rfl
    · rw [h]
      exact .inl rfl
    · rw [h]
      exact .inr (.inr rfl)
  | left hx hpc => rwa [hpc]
  | unmoved hu => rwa [hu.pc]

/-! ### The priority of a joiner -/

/-- The priority that the fiber has outside its join. -/
def FiberContext.wanted (fc : FiberContext) : ℤ :=
  if fc.joinFloorActive then fc.joinSavedPriority else fc.priority

/-- What a section asks for. -/
def requestedBy (f : Tid) (p : ℤ) : Act → ℤ
  | .updatePriority t q => if t = f then q else p
  | _ => p

/-- The last priority asked for, or the one before. -/
def requested (f : Tid) (p : ℤ) (as : List Act) : ℤ := as.foldl (requestedBy f) p

theorem wanted_of_key {fc fc' : FiberContext} (h : fc'.key = fc.key) : fc'.wanted = fc.wanted := by
  simp only [FiberContext.key, Prod.mk.injEq] at h
  obtain ⟨hp, hactive, hsaved⟩ := h
  rw [FiberContext.wanted, FiberContext.wanted, hp, hactive, hsaved]

theorem wanted_updatePriority {p : ℤ} (hf : f ∈ s.fiberMap) (he : s.updatePriority fuel f p = some s') :
    (s'.fibers f).wanted = p ∧ (s'.fibers f).joinFloorActive = (s.fibers f).joinFloorActive := by
  rw [State.updatePriority, if_neg (not_not.2 hf)] at he
  split at he
  · next hactive =>
    cases he
    simp [FiberContext.wanted, hactive]
  · next hactive =>
    have hinactive : (s.fibers f).joinFloorActive = false := by simpa using hactive
    split at he
    · next hp =>
      cases he
      simp [FiberContext.wanted, hinactive, hp]
    · split at he
      · obtain ⟨s1, he1, he2⟩ := Option.bind_eq_some_iff.1 he
        have hkey1 := (removeLocked_rewrites he1).key rfl f
        have hkey2 := (enqueueLocked_rewrites he2).key rfl f
        have hactive1 : (s1.fibers f).joinFloorActive = false := by
          have h := congrArg (fun k => k.2.1) hkey1
          exact h.trans hinactive
        have hactive2 : (s'.fibers f).joinFloorActive = false := by
          have h := congrArg (fun k => k.2.1) hkey2
          rw [modify_fibers, if_pos rfl] at h
          exact h.trans hactive1
        refine ⟨?_, hactive2.trans hinactive.symm⟩
        rw [wanted_of_key hkey2, modify_fibers, if_pos rfl]
        simp [FiberContext.wanted, hactive1]
      · cases he
        simp [FiberContext.wanted, hinactive]

/-- **The wanted priority** is the last one asked for, through all sections but the restore. -/
theorem Wanted.step (hf : f ∈ s.fiberMap) (he : step fuel s a = some s') (ha : a ≠ .joinRestore f) :
    (s'.fibers f).wanted = requestedBy f (s.fibers f).wanted a := by
  cases hw : a.writesKey f with
  | false =>
    rw [wanted_of_key (step_key hw he)]
    cases a with
    | updatePriority t p =>
      have htf : t ≠ f := by simpa [Act.writesKey] using hw
      exact (if_neg htf).symm
    | _ => rfl
  | true =>
    unfold Sched.step at he
    split at he
    · cases he
    cases a <;> simp only [Act.writesKey, decide_eq_true_eq, Bool.false_eq_true] at hw
    case createFiber t p =>
      subst hw
      simp [createFiber, hf] at he
    case updatePriority t p =>
      subst hw
      rw [(wanted_updatePriority hf he).1]
      exact (if_pos rfl).symm
    case joinRestore t => exact absurd (hw ▸ rfl) ha
    case joinIteration t =>
      subst hw
      obtain ⟨target, generation, -, -, ⟨-, rfl⟩ | ⟨-, ⟨-, rfl⟩ | rfl⟩⟩ := joinIteration_cases he
      · rfl
      · rfl
      · -- the floor comes with a record of the priority it replaces
        simp only [FiberContext.wanted, requestedBy, modify_fibers, if_pos, setPc_fibers]
        rfl

/-- Only a joiner has its priority recorded. -/
def Floors (s : State) : Prop :=
  ∀ f ∈ s.fiberMap, (s.fibers f).joinFloorActive = true → ∃ target generation, Joins target generation (s.pc f)

theorem joinRestore_cases (he : s.joinRestore t = some s') :
    s.At t .joined ∧ (s'.fibers t).joinFloorActive = false ∧ s'.pc t = .code ∧
      ((s.fibers t).inRunQueue = false → (s'.fibers t).priority = (s.fibers t).wanted ∧ s'.fatal = s.fatal) := by
  rw [joinRestore] at he
  split at he
  · next hat =>
    refine ⟨hat, ?_⟩
    simp only at he
    split at he
    · next hactive =>
      simp only [setPc_fibers] at hactive
      split at he
      · split at he
        · next hq =>
          cases he
          refine ⟨by simp, by simp, fun h => ?_⟩
          simp [h] at hq
        · cases he
          refine ⟨by simp, by simp, fun _ => ⟨?_, rfl⟩⟩
          simp [FiberContext.wanted, hactive]
      · next hp =>
        cases he
        simp only [modify_fibers, if_pos, setPc_fibers, ne_eq, not_not] at hp
        refine ⟨by simp, by simp, fun _ => ⟨?_, rfl⟩⟩
        simp [FiberContext.wanted, hactive, hp]
    · next hactive =>
      simp only [setPc_fibers] at hactive
      cases he
      refine ⟨by simpa using hactive, by simp, fun _ => ⟨?_, rfl⟩⟩
      simp [FiberContext.wanted, hactive]
  · cases he

theorem Floors.step (hi : Inv s l) (h : Floors s) (he : Sched.step fuel s a = some s') : Floors s' := by
  intro f hf' hactive'
  rcases mem_fiberMap_step hf' he with hf | ⟨p, rfl⟩
  · by_cases ha : a = .joinRestore f
    · subst ha
      unfold Sched.step at he
      split at he
      · cases he
      rw [(joinRestore_cases he).2.1] at hactive'
      cases hactive'
    by_cases ha' : a = .joinIteration f
    · subst ha'
      unfold Sched.step at he
      split at he
      · cases he
      obtain ⟨target, generation, -, -, ⟨-, rfl⟩ | ⟨-, ⟨-, rfl⟩ | rfl⟩⟩ := joinIteration_cases he
      · exact ⟨target, generation, .inr (.inr (by simp))⟩
      · exact ⟨target, generation, .inr (.inl (by simp))⟩
      · exact ⟨target, generation, .inr (.inl (by simp))⟩
    · -- the record was there before
      have hactive : (s.fibers f).joinFloorActive = true := by
        cases hw : a.writesKey f with
        | false =>
          have hkey := congrArg (fun k => k.2.1) (step_key hw he)
          exact hkey.symm.trans hactive'
        | true =>
          have he' := he
          unfold Sched.step at he'
          split at he'
          · cases he'
          cases a <;> simp only [Act.writesKey, decide_eq_true_eq, Bool.false_eq_true] at hw
          case createFiber t p =>
            subst hw
            simp [createFiber, hf] at he'
          case updatePriority t p =>
            subst hw
            exact (wanted_updatePriority hf he').2.symm.trans hactive'
          case joinRestore t => exact absurd (hw ▸ rfl) ha
          case joinIteration t => exact absurd (hw ▸ rfl) ha'
      obtain ⟨target, generation, hj⟩ := h f hf hactive
      exact ⟨target, generation, hj.step hi hf he ha⟩
  · unfold Sched.step at he
    split at he
    · cases he
    simp only [createFiber] at he
    split at he
    · cases he
    have hkey := (enqueueLocked_rewrites he).key rfl f
    have hfalse := congrArg (fun k => k.2.1) hkey
    simp [FiberContext.key] at hfalse
    rw [hfalse] at hactive'
    cases hactive'

theorem run_floors (h0 : s₀.Initial) (h : Run Step s₀ as s) : Floors s := by
  obtain ⟨l, -, hfloors⟩ := h.state_invariant (I := fun s => ∃ l, Inv s l ∧ Floors s)
    ⟨[], .initial h0, fun f hf => by simp [h0.fiberMap] at hf⟩ fun s a s' ⟨l, hi, hf⟩ ⟨fuel, he⟩ => by
      obtain ⟨l', hi', -⟩ := hi.step he
      exact ⟨l', hi', hf.step hi he⟩
  exact hfloors

/-! ### The joined fiber -/

/-- The fiber with the joined identity is there and not finished. -/
def Original (s : State) (target : Tid) (generation : BitVec 32) : Prop :=
  target ∈ s.fiberMap ∧ (s.fibers target).generation = generation ∧ (s.fibers target).state ≠ .finished

instance : Decidable (Original s target generation) :=
  inferInstanceAs (Decidable (_ ∧ _ ∧ _))

/-- The section creates a fiber with the joined identity. -/
def Recreates (target : Tid) (generation : BitVec 32) (s : State) (a : Act) : Prop :=
  (∃ p, a = .createFiber target p) ∧ s.nextGeneration = generation

/-- **What was joined does not come back** unless its identity is given out again. -/
theorem Gone.step (hi : Inv s l) (hlast : Last s) (h : ¬Original s target generation)
    (he : Sched.step fuel s a = some s') (hnew : ¬Recreates target generation s a) :
    ¬Original s' target generation := by
  rintro ⟨hm', hg', hs'⟩
  rcases mem_fiberMap_step hm' he with hm | ⟨p, rfl⟩
  · -- the same fiber, so only its end can have been the reason
    have hfinished : (s.fibers target).generation = generation → (s.fibers target).state = .finished := by
      intro hg
      by_contra hs
      exact h ⟨hm, hg, hs⟩
    cases step_fate hi hm he with
    | own ha ho =>
      have hgen := step_generation hi hm (fun order hshut => by simp [hshut, Act.own] at ha) he
      have hx := ho.executing
      rw [(hlast target hm (hfinished (hgen.symm.trans hg'))).2] at hx
      cases hx
    | yields hat hlive hpc hgen hstate =>
      have hx := (hlast target hm (hfinished (hgen.symm.trans hg'))).2
      rw [hat.2] at hx
      cases hx
    | resumed hlive hpc hgen hstate hidle hrun =>
      have hx := (hlast target hm (hfinished (hgen.symm.trans hg'))).1
      rw [hidle] at hx
      cases hx
    | left hx hpc hgen hstate =>
      rcases hstate with ⟨-, hgone⟩ | ⟨hs, -, -⟩
      · exact hgone hm'
      · exact hs (hfinished (hgen.symm.trans hg'))
    | unmoved hu =>
      have hs := hfinished (hu.generation.symm.trans hg')
      exact hs' (hu.finished (hlast target hm hs).1 hs)
  · -- a new fiber has the next generation
    refine hnew ⟨⟨p, rfl⟩, ?_⟩
    unfold Sched.step at he
    split at he
    · cases he
    simp only [createFiber] at he
    split at he
    · cases he
    have hmark := congrArg Prod.fst ((enqueueLocked_rewrites he).mark rfl target)
    simp only [Function.update_self] at hmark
    exact hmark.symm.trans hg'

/-! ### The joiner -/

/-- The fiber `t` in its join, with `p` the priority it is to have behind it. -/
structure Joiner (t target : Tid) (generation : BitVec 32) (p : ℤ) (s : State) : Prop where
  inv : ∃ l, Inv s l
  last : Last s
  live : t ∈ s.fiberMap
  pc : Joins target generation (s.pc t)
  wanted : (s.fibers t).wanted = p

section

variable {p : ℤ} (h : Joiner t target generation p s)

include h

theorem Joiner.step (ha : a ≠ .joinRestore t)
    (he : Sched.step fuel s a = some s') : Joiner t target generation (requestedBy t p a) s' := by
  obtain ⟨l, hi⟩ := h.inv
  obtain ⟨l', hi', -⟩ := hi.step he
  have hlive : t ∈ s'.fiberMap := by
    cases step_fate hi h.live he with
    | own _ ho => exact ho.fiberMap ▸ h.live
    | yields _ hlive => exact hlive
    | resumed hlive => exact hlive
    | left hx hpc hgen hstate =>
      rcases hstate with ⟨hs, -⟩ | ⟨-, hlive, -⟩
      · -- a joiner is not finished
        have hpc := (h.last t h.live hs).2
        rcases h.pc with hj | hj | hj <;> simp [hj] at hpc
      · exact hlive
    | unmoved hu => exact hu.live
  refine ⟨⟨l', hi'⟩, h.last.step hi he, hlive, h.pc.step hi h.live he ha, ?_⟩
  rw [Wanted.step h.live he ha, h.wanted]

theorem Joiner.run (hrun : Run (InJoin t) s as s') : Joiner t target generation (requested t p as) s' := by
  refine hrun.invariant (I := fun as s => Joiner t target generation (requested t p as) s) h ?_
  intro as s a s' h ⟨⟨fuel, he⟩, ha⟩
  rw [requested, List.foldl_append]
  exact h.step ha he

end

theorem Joiner.begin (h0 : s₀.Initial) (h : Run Step s₀ as s) (hlive : target ∈ s.fiberMap)
    (hjoin : Step s (.joinFiber t target) s') :
    Joiner t target (s.fibers target).generation (s.fibers t).priority s' := by
  obtain ⟨l, hi⟩ := run_inv h0 h
  obtain ⟨fuel, he⟩ := hjoin
  obtain ⟨l', hi', -⟩ := hi.step he
  have hlast' := (run_last h0 h).step hi he
  have hfloors := run_floors h0 h
  unfold Sched.step at he
  split at he
  · cases he
  simp only [joinFiber, if_pos hlive] at he
  split at he
  · next hat =>
    cases he
    have ht := hi.live t ((hi.resuming t).1 hat.1)
    have hinactive : (s.fibers t).joinFloorActive = false := by
      by_contra hactive
      obtain ⟨_, _, hj⟩ := hfloors t ht (by simpa using hactive)
      rcases hj with hj | hj | hj <;> simp [hat.2] at hj
    refine ⟨⟨l', hi'⟩, hlast', ht, .inl (by simp), ?_⟩
    simp [FiberContext.wanted, hinactive]
  · cases he

/-- **A join ends and restores.** In a join of the fiber that was found under the id `target`: an
iteration of the loop leaves it when that fiber has ended, unless its generation has come back under
the same id, and goes on when it has not; behind the loop the joiner has the priority that was last
asked for. -/
theorem join_ends_and_restores {s₁ s₂ : State} {bs : List Act} (h0 : s₀.Initial)
    (h : Run Step s₀ as s) (hlive : target ∈ s.fiberMap) (hjoin : Step s (.joinFiber t target) s₁)
    (hbs : Run (InJoin t) s₁ bs s₂) :
    (¬Original s₂ target (s.fibers target).generation → ∀ cs s₃ s₄,
      Run (fun s' a s'' => InJoin t s' a s'' ∧ ¬Recreates target (s.fibers target).generation s' a)
        s₂ cs s₃ →
      Step s₃ (.joinIteration t) s₄ → s₄.pc t = .joined) ∧
    (Original s₂ target (s.fibers target).generation → ∀ s₃, Step s₂ (.joinIteration t) s₃ →
      s₃.pc t = .joinYielded target (s.fibers target).generation) ∧
    ∀ s₃, Step s₂ (.joinRestore t) s₃ → s₃.fatal = false ∧ s₃.pc t = .code ∧
      (s₃.fibers t).priority = requested t (s.fibers t).priority bs := by
  have hj := (Joiner.begin h0 h hlive hjoin).run hbs
  refine ⟨fun hgone cs s₃ s₄ hcs ⟨fuel, he⟩ => ?_, fun horiginal s₃ ⟨fuel, he⟩ => ?_, fun s₃ ⟨fuel, he⟩ => ?_⟩
  · have hj₃ := hj.run (hcs.mono fun _ _ _ hs => hs.1)
    have hgone₃ : ¬Original s₃ target (s.fibers target).generation := by
      have hboth := hcs.state_invariant
        (I := fun s' => (∃ l, Inv s' l ∧ Last s') ∧ ¬Original s' target (s.fibers target).generation)
        ⟨⟨_, hj.inv.choose_spec, hj.last⟩, hgone⟩ ?_
      · exact hboth.2
      rintro s' a s'' ⟨⟨l, hi, hlast⟩, hg⟩ ⟨⟨⟨fuel, he⟩, -⟩, hnew⟩
      obtain ⟨l', hi', -⟩ := hi.step he
      exact ⟨⟨l', hi', hlast.step hi he⟩, Gone.step hi hlast hg he hnew⟩
    unfold Sched.step at he
    split at he
    · cases he
    obtain ⟨target', generation', -, hpc, ⟨-, rfl⟩ | ⟨hstays, -⟩⟩ := joinIteration_cases he
    · simp
    · -- the iteration looks at the joined identity
      rcases hj₃.pc with hp | hp | hp
      · rw [hpc, FiberPc.joining.injEq] at hp
        obtain ⟨rfl, rfl⟩ := hp
        exact absurd hstays hgone₃
      · rw [hpc] at hp
        cases hp
      · rw [hpc] at hp
        cases hp
  · unfold Sched.step at he
    split at he
    · cases he
    obtain ⟨target', generation', -, hpc, hcases⟩ := joinIteration_cases he
    rcases hj.pc with hp | hp | hp
    · rw [hpc, FiberPc.joining.injEq] at hp
      obtain ⟨rfl, rfl⟩ := hp
      rcases hcases with ⟨hdone, -⟩ | ⟨-, ⟨-, rfl⟩ | rfl⟩
      · obtain ⟨hm, hg, hs⟩ := horiginal
        rcases hdone with hdone | hdone | hdone
        · exact absurd hm hdone
        · exact absurd hg hdone
        · exact absurd hdone hs
      · simp
      · simp
    · rw [hpc] at hp
      cases hp
    · rw [hpc] at hp
      cases hp
  · unfold Sched.step at he
    split at he
    · cases he
    next hfatal =>
      obtain ⟨hat, -, hpc, hrestored⟩ := joinRestore_cases he
      obtain ⟨l, hi⟩ := hj.inv
      -- the joiner runs, so it is not queued
      have hnot := hi.not_mem_of_executing hat.1 (by rw [hat.2]; rfl)
      have hflag : (s₂.fibers t).inRunQueue = false := by
        by_contra hflag
        exact hnot ((hi.queue.linked t hj.live).1 (by simpa using hflag))
      obtain ⟨hp, hf⟩ := hrestored hflag
      exact ⟨hf.trans (by simpa using hfatal), hpc, hp.trans hj.wanted⟩

/-! ### Generations are counted in 32 bits -/

/-- Fiber 1 waits in the queue, in its join of fiber 2, and there is no other fiber. -/
structure Alone (s : State) : Prop where
  fatal : s.fatal = false
  stop : s.stop = false
  executor : s.executor = .waiting
  runningFiber : s.runningFiber = none
  host : s.guestTokenHeldByHost = false
  waiters : s.hostTokenWaiters = 0
  fiberMap : s.fiberMap = [1#32]
  runQueue : s.runQueue = some 1#32
  last : (s.fibers 1#32).next = none
  priority : (s.fibers 1#32).priority = 20
  pc : s.pc 1#32 = .joinYielded 2#32 2#32

/-- One life of fiber 3. -/
def life : List Act :=
  [.createFiber 3 5, .executorWait, .exitFiber 3, .finishFiber 3, .executorPost, .executorFreed]

theorem Alone.life (h : Alone s) :
    ∃ s', life.foldlM (step 5) s = some s' ∧ Alone s' ∧ s'.nextGeneration = s.nextGeneration + 1 := by
  simp [Sched.life, Sched.step, createFiber, enqueueLocked, State.modify, State.chain, Chain.seek,
    Chain.get, State.setChain, Chain.link, Chain.set, Chain.unlink, executorWait, canQuit, canRun,
    popHeadLocked, resume, State.setPc, exitFiber, finishFiber, At, executorPost, executorFreed,
    FiberPc.resumed, FiberPc.executing, h.fatal, h.stop, h.executor, h.runningFiber, h.host, h.waiters,
    h.fiberMap, h.runQueue, h.priority]
  constructor <;> simp [h.last, h.priority, h.pc]

/-- `n` lives, one after the other. -/
def lives (n : ℕ) : List Act := (List.replicate n life).flatten

theorem Alone.lives (h : Alone s) (n : ℕ) : ∃ s', (lives n).foldlM (step 5) s = some s' ∧ Alone s' ∧ s'.nextGeneration =
    s.nextGeneration + BitVec.ofNat 32 n := by
  induction n generalizing s with
  | zero => exact ⟨s, rfl, h, by simp⟩
  | succ n ih =>
    obtain ⟨s1, he1, h1, hn1⟩ := h.life
    obtain ⟨s2, he2, h2, hn2⟩ := ih h1
    refine ⟨s2, ?_, h2, ?_⟩
    · rw [Sched.lives, List.replicate_succ, List.flatten_cons, List.foldlM_append, he1]
      exact he2
    · rw [hn2, hn1, BitVec.add_assoc, BitVec.ofNat_add, BitVec.add_comm (BitVec.ofNat 32 n)]
      rfl

theorem not_mem_lives (h : a ∉ life) (n : ℕ) : a ∉ lives n := by
  intro ha
  obtain ⟨l, hl, ha⟩ := List.mem_flatten.1 ha
  rw [List.eq_of_mem_replicate hl] at ha
  exact h ha

/-- A fiber 2 comes back with the generation of the one that was joined. -/
theorem Alone.joins_again (h : Alone s) (hn : s.nextGeneration = 2) :
    ∃ s', [Act.createFiber 2 30, .executorWait].foldlM (step 5) s = some s' ∧
      ∃ s'', step 5 s' (.joinIteration 1) = some s'' ∧ s''.pc 1 = .joinYielded 2 2 := by
  simp [Sched.step, createFiber, enqueueLocked, State.modify, State.chain, Chain.seek,
    Chain.get, State.setChain, Chain.link, Chain.set, Chain.unlink, executorWait, canQuit, canRun,
    popHeadLocked, resume, State.setPc, joinIteration, FiberPc.resumed, h.fatal, h.stop, h.executor,
    h.runningFiber, h.host, h.waiters, h.fiberMap, h.runQueue, h.priority, h.last, h.pc, hn]

/-- Fiber 1 runs and fiber 2 is there. -/
def beforeJoin : List Act := [.createFiber 1 10, .createFiber 2 20, .executorWait]

/-- Fiber 1 waits for fiber 2, which comes to its end. -/
def joinedEnds : List Act :=
  [.joinIteration 1, .executorPost, .executorWait, .exitFiber 2, .finishFiber 2, .executorPost, .executorFreed]

theorem alone_joinedEnds : Alone (stateAfter 5 (beforeJoin ++ [.joinFiber 1 2] ++ joinedEnds)) := by
  constructor <;> decide

theorem run_inJoin (h : as.foldlM (step fuel) s = some s') (ha : Act.joinRestore t ∉ as) : Run (InJoin t) s as s' := by
  have hne : ∀ a ∈ as, a ≠ .joinRestore t := fun a hmem heq => ha (heq ▸ hmem)
  exact ((Run.of_foldlM h).of_labels hne).mono fun _ _ _ ⟨he, hn⟩ => ⟨⟨fuel, he⟩, hn⟩

theorem foldlM_stateAfter (fuel : ℕ) (as bs : List Act) (h : ((as ++ bs).foldlM (step fuel) State.init).isSome = true) :
    bs.foldlM (step fuel) (stateAfter fuel as) = some (stateAfter fuel (as ++ bs)) := by
  have hs := foldlM_eq_after h
  rw [List.foldlM_append, Option.bind_eq_bind, Option.bind_eq_some_iff] at hs
  obtain ⟨s, hs, hbs⟩ := hs
  rw [stateAfter, after, hs, Option.getD_some]
  exact hbs

/-- **The joiner waits on a new fiber**: 2^32 creations later the generation is given out again. -/
theorem recreated_joined_again : ¬∀ (s₀ s s₁ s₂ s₃ s₄ : State) (as bs cs : List Act) (t target : Tid),
    s₀.Initial → Run Step s₀ as s → target ∈ s.fiberMap → Step s (.joinFiber t target) s₁ →
    Run (InJoin t) s₁ bs s₂ → ¬Original s₂ target (s.fibers target).generation →
    Run (InJoin t) s₂ cs s₃ → .joinIteration t ∉ cs → Step s₃ (.joinIteration t) s₄ →
    s₄.pc t = .joined := by
  intro h
  obtain ⟨n, hn⟩ : ∃ n, BitVec.ofNat 32 n = -1 := ⟨2 ^ 32 - 1, by decide⟩
  obtain ⟨s₂, hlives, halone, hnext⟩ := alone_joinedEnds.lives n
  have hnext' : s₂.nextGeneration = 2 := by
    rw [hnext, hn]
    decide
  obtain ⟨s₃, hback, s₄, hiteration, hpc⟩ := halone.joins_again hnext'
  have hcs : (lives n ++ [Act.createFiber 2 30, .executorWait]).foldlM (step 5)
      (stateAfter 5 (beforeJoin ++ [.joinFiber 1 2] ++ joinedEnds)) = some s₃ := by
    rw [List.foldlM_append, hlives]
    exact hback
  have hnot : ∀ a, a ∉ life → a ∉ [Act.createFiber 2 30, .executorWait] →
      a ∉ lives n ++ [Act.createFiber 2 30, .executorWait] := fun a ha ha' hmem =>
    (List.mem_append.1 hmem).elim (not_mem_lives ha n) ha'
  have hrun : Run Step State.init beforeJoin (stateAfter 5 beforeJoin) := run_stateAfter (by decide)
  have hjoin : Step (stateAfter 5 beforeJoin) (.joinFiber 1 2)
      (stateAfter 5 (beforeJoin ++ [.joinFiber 1 2])) := step_stateAfter (by decide)
  have hends := run_inJoin (t := 1)
    (foldlM_stateAfter 5 (beforeJoin ++ [.joinFiber 1 2]) joinedEnds (by decide)) (by decide)
  have hcs' := run_inJoin hcs (hnot (.joinRestore 1) (by decide) (by decide))
  have hjoined := h _ _ _ _ _ _ _ _ _ 1 2 State.init_initial hrun (by decide) hjoin hends (by decide) hcs'
    (hnot _ (by decide) (by decide)) ⟨5, hiteration⟩
  rw [hpc] at hjoined
  cases hjoined

/-- Fiber 1 is asked for another priority while it waits for fiber 2, which ends. -/
def askedMeanwhile : List Act :=
  [.joinIteration 1, .executorPost, .executorWait, .updatePriority 1 15, .exitFiber 2, .finishFiber 2,
    .executorPost, .executorFreed, .executorWait, .joinIteration 1]

theorem join_restores_asked :
    ((stateAfter 5 (beforeJoin ++ [.joinFiber 1 2] ++ askedMeanwhile ++ [.joinRestore 1])).fibers 1).priority = 15 := by
  have hrun : Run Step State.init beforeJoin (stateAfter 5 beforeJoin) := run_stateAfter (by decide)
  have hjoin : Step (stateAfter 5 beforeJoin) (.joinFiber 1 2)
      (stateAfter 5 (beforeJoin ++ [.joinFiber 1 2])) := step_stateAfter (by decide)
  have hasked := run_inJoin (t := 1)
    (foldlM_stateAfter 5 (beforeJoin ++ [.joinFiber 1 2]) askedMeanwhile (by decide))
    (by decide)
  have hends := join_ends_and_restores State.init_initial hrun (by decide) hjoin hasked
  exact (hends.2.2 _ (step_stateAfter (by decide))).2.2

end Ps2Recomp.Sched
