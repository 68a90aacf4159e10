import Mathlib.Logic.Function.Basic
import Mathlib.Tactic.Common

/-!
# Who holds what

Some hold a thing, and no thing is held by two, apart from one that is no thing (`Distinct`). What is let go of does no
harm (`Distinct.drop`), and a thing can be taken just when nobody else has it (`Distinct.take_iff`).
-/

namespace Holders

variable {ι β : Type*} {blank b : β} {held : ι → Option β} {i : ι}

def Distinct (blank : β) (held : ι → Option β) : Prop :=
  ∀ i j b, b ≠ blank → held i = some b → held j = some b → i = j

variable [DecidableEq ι]

section

variable (h : Distinct blank held)

include h

theorem Distinct.drop : Distinct blank (Function.update held i none) := by
  intro j k b hb hj hk
  by_cases hji : j = i
  · rw [hji, Function.update_self] at hj
    exact absurd hj (Option.some_ne_none b).symm
  · by_cases hki : k = i
    · rw [hki, Function.update_self] at hk
      exact absurd hk (Option.some_ne_none b).symm
    · rw [Function.update_of_ne hji] at hj
      rw [Function.update_of_ne hki] at hk
      exact h j k b hb hj hk

theorem Distinct.take_iff (hb : b ≠ blank) :
    Distinct blank (Function.update held i (some b)) ↔ ∀ j, j ≠ i → held j ≠ some b := by
  constructor
  · intro hnew j hji hj
    refine hji (hnew j i b hb ?_ (Function.update_self i (some b) held))
    rw [Function.update_of_ne hji]
    exact hj
  · intro hfree j k c hc hj hk
    by_cases hji : j = i
    · by_cases hki : k = i
      · rw [hji, hki]
      · rw [hji, Function.update_self] at hj
        rw [Function.update_of_ne hki, ← hj] at hk
        exact absurd hk (hfree k hki)
    · rw [Function.update_of_ne hji] at hj
      by_cases hki : k = i
      · rw [hki, Function.update_self] at hk
        rw [← hk] at hj
        exact absurd hj (hfree j hji)
      · rw [Function.update_of_ne hki] at hk
        exact h j k c hc hj hk

theorem Distinct.take_blank : Distinct blank (Function.update held i (some blank)) := by
  intro j k c hc hj hk
  have hne : ∀ l, Function.update held i (some blank) l = some c → l ≠ i := by
    intro l hl hli
    rw [hli, Function.update_self] at hl
    exact hc (Option.some.inj hl).symm
  rw [Function.update_of_ne (hne j hj)] at hj
  rw [Function.update_of_ne (hne k hk)] at hk
  exact h j k c hc hj hk

end

end Holders
