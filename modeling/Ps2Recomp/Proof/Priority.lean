import Ps2Recomp.Proof.Wakeup

/-!
# Who writes a priority

The priority of a fiber and the record that `join_fiber` makes of it are written in four
sections: `update_priority`, an iteration of `join_fiber`, its restore, and the creation of
the fiber. All other sections leave them alone.
-/

namespace Ps2Recomp.Sched

open State

variable {s s' : State} {t u f : Tid} {fuel : ℕ} {a : Act}

/-- The priority, and what `join_fiber` keeps of it. -/
def FiberContext.key (fc : FiberContext) : ℤ × Bool × ℤ :=
  (fc.priority, fc.joinFloorActive, fc.joinSavedPriority)

/-- `s'` has the keys of `s`. -/
def SameKeys (s s' : State) : Prop := ∀ u, (s'.fibers u).key = (s.fibers u).key

theorem State.Rewrites.key {fc : FiberContext} (h : Rewrites s t fc s') (hfc : fc.key = (s.fibers t).key) :
    SameKeys s s' := by
  refine h.congr (fun x y hxy => ?_) hfc
  simp only [FiberContext.kept, Prod.mk.injEq] at hxy
  simp only [FiberContext.key, Prod.mk.injEq]
  exact hxy.2.2.2

namespace SameKeys

theorem refl (s : State) : SameKeys s s := fun _ => rfl

theorem trans {s'' : State} (h : SameKeys s s') (h' : SameKeys s' s'') : SameKeys s s'' :=
  fun u => (h' u).trans (h u)

theorem of_eq (h : s'.fibers = s.fibers) : SameKeys s s' := by
  intro u
  rw [h]

theorem yieldTo {gives : ℤ → ℤ → Bool} (he : s.yieldTo gives fuel t = some s') : SameKeys s s' := by
  obtain ⟨-, rfl | ⟨s1, he1, rfl⟩⟩ := yieldTo_form he
  · exact refl _
  · exact (enqueueLocked_rewrites he1).key rfl

theorem executorWait (he : s.executorWait = some s') : SameKeys s s' := by
  obtain ⟨-, rfl | ⟨d, g, rfl | ⟨-, -, t, s1, hp, rfl⟩⟩⟩ := executorWait_cases he
  · exact of_eq rfl
  · exact of_eq rfl
  · have hpop := (popHeadLocked_rewrites hp).key rfl
    exact hpop.trans ((Rewrites.write s1 t fun fc => { fc with state := .running }).key rfl)

theorem executorPost (he : s.executorPost fuel = some s') : SameKeys s s' := by
  obtain ⟨t, -, hw | rfl⟩ := executorPost_rewrites he
  · exact hw.key rfl
  · exact of_eq rfl

theorem shutdown {order : List Tid} (he : s.schedulerShutdown fuel order = some s') : SameKeys s s' :=
  schedulerShutdown_induction (P := SameKeys s) (fun _ _ _ _ _ hw h => h.trans (hw.key rfl)) he (of_eq rfl)

end SameKeys

/-- The sections that write the key of `f`. -/
def Act.writesKey (f : Tid) : Act → Bool
  | .updatePriority t _ | .joinIteration t | .joinRestore t | .createFiber t _ => t = f
  | _ => false

theorem State.Rewrites.key_others {fc : FiberContext} (h : Rewrites s t fc s') (hf : f ≠ t) :
    (s'.fibers f).key = (s.fibers f).key := by
  rw [h.others f hf]
  rfl

theorem createFiber_others {p : ℤ} (hf : f ≠ t) (he : s.createFiber fuel t p = some s') :
    (s'.fibers f).key = (s.fibers f).key := by
  rw [State.createFiber] at he
  split at he
  · cases he
  · rw [(enqueueLocked_rewrites he).key rfl f]
    change ((Function.update s.fibers t _) f).key = _
    rw [Function.update_of_ne hf]

theorem own_key (ha : a.own = some t) (hw : a.writesKey t = false) (he : step fuel s a = some s') : SameKeys s s' := by
  intro u
  by_cases hu : u = t
  · subst hu
    obtain ⟨_, _, hc, -⟩ | ⟨-, hc⟩ | ⟨rfl | rfl, -⟩ := own_context ha he
    · rw [hc]
      rfl
    · rw [hc]
      rfl
    · simp [Act.writesKey] at hw
    · simp [Act.writesKey] at hw
  · rw [(own_step ha he).others u hu]

section

variable (hw : a.writesKey f = false) (he : step fuel s a = some s')

include hw he

/-- **All other sections** leave the key of `f` alone. -/
theorem step_key : (s'.fibers f).key = (s.fibers f).key := by
  cases ho : a.own with
  | some t =>
    by_cases hft : f = t
    · subst hft
      exact own_key ho hw he f
    · rw [(own_step ho he).others f hft]
  | none =>
    cases hwk : a.woken with
    | some t =>
      obtain ⟨_, _, hw⟩ := woken_rewrites hwk he
      exact hw.key rfl f
    | none =>
      cases hq : a.quiet with
      | true => rw [(quiet_step hq he).1]
      | false =>
        unfold step at he
        split at he
        · cases he
        · cases a <;> cases ho <;> cases hwk <;> cases hq
          · exact SameKeys.executorWait he f
          · exact SameKeys.executorPost he f
          · exact SameKeys.yieldTo he f
          · exact SameKeys.yieldTo he f
          · exact createFiber_others (fun h => by simp [Act.writesKey, h] at hw) he
          · obtain ⟨_, _, hwrite⟩ := updatePriority_rewrites he
            exact hwrite.key_others fun h => by simp [Act.writesKey, h] at hw
          · obtain ⟨_, hwrite⟩ := suspendOther_rewrites he
            exact hwrite.key rfl f
          · obtain rfl | ⟨c, rfl⟩ := rotateReadyQueue_form he
            · rfl
            · rfl
          · simp only at he
            split at he
            · exact SameKeys.shutdown he f
            · cases he

theorem step_priority : (s'.fibers f).priority = (s.fibers f).priority :=
  congrArg Prod.fst (step_key hw he)

end

end Ps2Recomp.Sched
