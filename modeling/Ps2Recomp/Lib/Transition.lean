import Mathlib.Data.List.Induction
import Mathlib.Order.WellFounded

/-!
# Transition systems

States `σ`, labels `α` and a step relation. A run is recorded by the labels of its steps.

* `Run.invariant`: what every step keeps holds along every run, with the labels in view.
* `after`: the state after a sequence of steps that a function computes.
* `acc_of_measure`: runs from an invariant state end when every step lowers a measure.
-/

namespace Transition

variable {σ α : Type*} {step : σ → α → σ → Prop} {s₀ s s' : σ} {l : List α} {a : α}

/-- The runs from `s₀`, with the labels of their steps in order. -/
inductive Run (step : σ → α → σ → Prop) (s₀ : σ) : List α → σ → Prop
  | nil : Run step s₀ [] s₀
  | snoc {l : List α} {s : σ} {a : α} {s' : σ} : Run step s₀ l s → step s a s' → Run step s₀ (l ++ [a]) s'

namespace Run

/-- **Invariants.** A relation between the labels so far and the state that holds at the start
and is kept by every step holds along every run. -/
theorem invariant {I : List α → σ → Prop} (h0 : I [] s₀)
    (hstep : ∀ l s a s', I l s → step s a s' → I (l ++ [a]) s') (h : Run step s₀ l s) : I l s := by
  induction h with
  | nil => exact h0
  | snoc _ hs ih => exact hstep _ _ _ _ ih hs

theorem state_invariant {I : σ → Prop} (h0 : I s₀)
    (hstep : ∀ s a s', I s → step s a s' → I s') (h : Run step s₀ l s) : I s := by
  have h' := h.invariant (I := fun _ => I) h0 fun _ => hstep
  exact h'

theorem mono {step' : σ → α → σ → Prop} (hle : ∀ s a s', step s a s' → step' s a s')
    (h : Run step s₀ l s) : Run step' s₀ l s := by
  induction h with
  | nil => exact .nil
  | snoc _ hs ih => exact .snoc ih (hle _ _ _ hs)

/-- What all labels satisfy may be asked of each step. -/
theorem of_labels {P : α → Prop} (h : Run step s₀ l s) (hl : ∀ a ∈ l, P a) :
    Run (fun s a s' => step s a s' ∧ P a) s₀ l s := by
  induction h with
  | nil => exact .nil
  | snoc _ hs ih => exact .snoc (ih fun a ha => hl a (by simp [ha])) ⟨hs, hl _ (by simp)⟩

section

variable {f : σ → α → Option σ}

theorem of_foldlM (h : l.foldlM f s₀ = some s) : Run (fun s a s' => f s a = some s') s₀ l s := by
  induction l using List.reverseRecOn generalizing s with
  | nil =>
    cases h
    exact .nil
  | append_singleton l a ih =>
    rw [List.foldlM_append, Option.bind_eq_bind, Option.bind_eq_some_iff] at h
    obtain ⟨t, ht, hs⟩ := h
    rw [List.foldlM_cons, Option.bind_eq_bind, Option.bind_eq_some_iff] at hs
    obtain ⟨t', ht', hs⟩ := hs
    cases hs
    exact .snoc (ih ht) ht'

theorem of_guarded {P : σ → α → Prop} [∀ s a, Decidable (P s a)]
    (h : l.foldlM (fun s a => if P s a then f s a else none) s₀ = some s) :
    Run (fun s a s' => f s a = some s' ∧ P s a) s₀ l s := by
  refine (of_foldlM h).mono fun s a s' hs => ?_
  split at hs
  · next hp => exact ⟨hs, hp⟩
  · cases hs

end

end Run

/-! ### Computed runs -/

section after

variable {f : σ → α → Option σ}

/-- The state after a computed sequence of steps, or `s₀` if a step is not there. -/
def after (f : σ → α → Option σ) (s₀ : σ) (l : List α) : σ := (l.foldlM f s₀).getD s₀

theorem foldlM_eq_after (h : (l.foldlM f s₀).isSome = true) : l.foldlM f s₀ = some (after f s₀ l) := by
  obtain ⟨s, hs⟩ := Option.isSome_iff_exists.1 h
  rw [after, hs, Option.getD_some]

theorem after_step (h : ((l ++ [a]).foldlM f s₀).isSome = true) :
    f (after f s₀ l) a = some (after f s₀ (l ++ [a])) := by
  have hs := foldlM_eq_after h
  rw [List.foldlM_append, Option.bind_eq_bind, Option.bind_eq_some_iff] at hs
  obtain ⟨t, ht, hs⟩ := hs
  rw [List.foldlM_cons, Option.bind_eq_bind, Option.bind_eq_some_iff] at hs
  obtain ⟨t', ht', hs⟩ := hs
  rw [List.foldlM_nil] at hs
  cases hs
  have hst : after f s₀ l = t := by rw [after, ht, Option.getD_some]
  rw [hst, ht']

end after

/-- **Runs end.** From a state of the invariant `I`, every sequence of steps is finite if
steps keep `I` and lower a measure on it. -/
theorem acc_of_measure {r : σ → σ → Prop} {I : σ → Prop} {m : σ → ℕ}
    (hI : ∀ s s', I s → r s s' → I s') (hm : ∀ s s', I s → r s s' → m s' < m s) (hs : I s) :
    Acc (fun b a => r a b) s := by
  generalize hn : m s = n
  induction n using Nat.strong_induction_on generalizing s with
  | _ n ih =>
    refine Acc.intro s fun t ht => ?_
    exact ih (m t) (hn ▸ hm s t hs ht) (hI s t hs ht) rfl

end Transition
