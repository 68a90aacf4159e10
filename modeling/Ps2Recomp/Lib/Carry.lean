import Mathlib.Algebra.BigOperators.Group.List.Basic
import Mathlib.Tactic.Ring

/-!
# Division with a carried remainder

Amounts come one after the other and are divided by `D`. What is left of a division is added to the
next amount, and the sums are kept modulo `W`.

* `carry_conserves`: nothing is lost but multiples of `W`.
* `carry_eq_iff`: the quotients add up to that of the whole exactly if no sum reaches `W`.
-/

namespace Carry

variable {D W f : ℕ} {ds : List ℕ}

/-- The sum of the quotients, and the last remainder. -/
def carry (D W : ℕ) : ℕ → List ℕ → ℕ × ℕ
  | f, [] => (0, f)
  | f, d :: ds => ((d + f) % W / D + (carry D W ((d + f) % W % D) ds).1, (carry D W ((d + f) % W % D) ds).2)

/-- No sum of an amount and the remainder of those before it reaches `W`. -/
def Fits (D W f : ℕ) (ds : List ℕ) : Prop :=
  ∀ before d after, ds = before ++ d :: after → d + (f + before.sum) % D < W

theorem fits_nil : Fits D W f [] := by
  intro before d after h
  simp at h

theorem fits_cons {d : ℕ} (hf : f < D) : Fits D W f (d :: ds) ↔ d + f < W ∧ Fits D W ((d + f) % D) ds := by
  have hsum : ∀ before : List ℕ, (f + (d :: before).sum) % D = ((d + f) % D + before.sum) % D := by
    intro before
    rw [List.sum_cons, Nat.mod_add_mod]
    congr 1
    ring
  constructor
  · intro h
    constructor
    · have hfirst := h [] d ds rfl
      rwa [List.sum_nil, Nat.add_zero, Nat.mod_eq_of_lt hf] at hfirst
    · rintro before e after rfl
      have hnext := h (d :: before) e after rfl
      rwa [hsum] at hnext
  · rintro ⟨hfirst, hrest⟩ before e after hsplit
    cases before with
    | nil =>
      cases hsplit
      rwa [List.sum_nil, Nat.add_zero, Nat.mod_eq_of_lt hf]
    | cons b before =>
      cases hsplit
      rw [hsum]
      exact hrest before e after rfl

theorem carry_remainder_lt (hD : 0 < D) (hf : f < D) : (carry D W f ds).2 < D := by
  induction ds generalizing f with
  | nil => exact hf
  | cons d ds ih => exact ih (Nat.mod_lt _ hD)

/-- **Nothing is lost** but multiples of `W`, and nothing at all when every sum fits. -/
theorem carry_conserves (ds : List ℕ) (hD : 0 < D) (hW : 0 < W) (hf : f < D) : ∃ lost,
    (carry D W f ds).1 * D + (carry D W f ds).2 + lost * W = f + ds.sum ∧ (lost = 0 ↔ Fits D W f ds) := by
  induction ds generalizing f with
  | nil => exact ⟨0, by simp [carry], iff_of_true rfl fits_nil⟩
  | cons d ds ih =>
    obtain ⟨lost, hsum, hlost⟩ := ih (f := (d + f) % W % D) (Nat.mod_lt _ hD)
    have hwrap := Nat.div_add_mod' (d + f) W
    have hdiv := Nat.div_add_mod' ((d + f) % W) D
    refine ⟨lost + (d + f) / W, ?_, ?_⟩
    · rw [carry, List.sum_cons, Nat.add_mul, Nat.add_mul]
      omega
    · rw [fits_cons hf, Nat.add_eq_zero_iff, hlost, Nat.div_eq_zero_iff, or_iff_right hW.ne', and_comm]
      -- a first sum that fits is what is divided
      exact and_congr_right fun hlt => by rw [Nat.mod_eq_of_lt hlt]

/-- The quotients never exceed that of the whole. -/
theorem carry_le (hD : 0 < D) (hW : 0 < W) (hf : f < D) : (carry D W f ds).1 ≤ (f + ds.sum) / D := by
  obtain ⟨lost, hsum, -⟩ := carry_conserves ds hD hW hf
  rw [Nat.le_div_iff_mul_le hD]
  omega

/-- **The quotients add up** to that of the whole exactly if no sum reaches `W`. -/
theorem carry_eq_iff (hD : 0 < D) (hDW : D ≤ W) (hf : f < D) :
    (carry D W f ds).1 = (f + ds.sum) / D ↔ Fits D W f ds := by
  obtain ⟨lost, hsum, hlost⟩ := carry_conserves ds hD (hD.trans_le hDW) hf
  have hr : (carry D W f ds).2 < D := carry_remainder_lt hD hf
  rw [← hlost]
  constructor
  · intro h
    have hdiv := Nat.div_add_mod' (f + ds.sum) D
    have hmod := Nat.mod_lt (f + ds.sum) hD
    rw [h] at hsum
    -- one loss would be more than a remainder
    by_contra hne
    have hW : W ≤ lost * W := Nat.le_mul_of_pos_left W (Nat.pos_of_ne_zero hne)
    omega
  · rintro rfl
    rw [← hsum, Nat.zero_mul, Nat.add_zero, Nat.add_comm, Nat.add_mul_div_right _ _ hD, Nat.div_eq_of_lt hr,
      Nat.zero_add]

end Carry
