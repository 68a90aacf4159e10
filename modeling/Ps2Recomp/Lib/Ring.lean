import Mathlib.Data.Fin.Basic
import Mathlib.Data.Nat.ModEq
import Mathlib.Order.Lattice.Nat
import Mathlib.Tactic.Ring

/-!
# Rings

A ring of `n` slots is written at a running count modulo `n`. `Window` says that the newest `depth`
items of a sequence lie behind the count, as far as the ring reaches back.
-/

namespace Ring

variable {V W : Type} {n : ℕ} [NeZero n]

def store (slots : Fin n → V) (count : ℕ) (v : V) : Fin n → V :=
  Function.update slots (Fin.ofNat n count) v

theorem store_self (slots : Fin n → V) (count : ℕ) (v : V) : store slots count v (Fin.ofNat n count) = v :=
  Function.update_self ..

theorem store_of_ne (slots : Fin n → V) {count : ℕ} (v : V) {j : Fin n} (h : (j : ℕ) ≠ count % n) :
    store slots count v j = slots j := by
  refine Function.update_of_ne ?_ ..
  intro hj
  exact h (by rw [hj]; rfl)

theorem map_store (f : V → W) (slots : Fin n → V) (count : ℕ) (v : V) :
    f ∘ store slots count v = store (f ∘ slots) count (f v) :=
  Function.comp_update ..

/-- The item `d + 1` places before the next one, `i`, lies `d + 1` slots behind the count. -/
def Window (slots : Fin n → V) (count depth : ℕ) (v : ℕ → V) (i : ℕ) : Prop :=
  ∀ d < min n depth, slots (Fin.ofNat n (count - 1 - d)) = v (i - 1 - d)

theorem window_zero (slots : Fin n → V) (count : ℕ) (v : ℕ → V) (i : ℕ) : Window slots count 0 v i := by
  intro d hd
  simp at hd

variable {v : ℕ → V}

theorem Window.mono {slots : Fin n → V} {count depth less : ℕ} {i : ℕ}
    (h : Window slots count depth v i) (hl : less ≤ depth) : Window slots count less v i :=
  fun d hd => h d (by omega)

/-- Behind the count, slots less than a turn apart are different. -/
theorem behind_ne {count d : ℕ} (hd : d + 1 < n) (hc : d < count) : (Fin.ofNat n (count - 1 - d) : ℕ) ≠ count % n := by
  change (count - 1 - d) % n ≠ count % n
  intro he
  have hdvd : n ∣ count - (count - 1 - d) := (Nat.modEq_iff_dvd' (by omega)).1 he
  have hle : n ≤ count - (count - 1 - d) := Nat.le_of_dvd (by omega) hdvd
  omega

section

variable {slots : Fin n → V} {count depth : ℕ} {i : ℕ} (h : Window slots count depth v i)

include h

theorem Window.store (hw : depth ≤ count) : Window (store slots count (v i)) (count + 1) (depth + 1) v (i + 1) := by
  intro d hd
  rcases d with _ | d
  · exact store_self ..
  · have hcount : count + 1 - 1 - (d + 1) = count - 1 - d := by omega
    have hitem : i + 1 - 1 - (d + 1) = i - 1 - d := by omega
    rw [hcount, hitem, store_of_ne _ _ (behind_ne (by omega) (by omega))]
    exact h d (by omega)

theorem Window.slot {j : Fin n} (hj : (j : ℕ) < count)
    (hd : (count - 1 - j) % n < depth) : slots j = v (i - 1 - (count - 1 - j) % n) := by
  have hlt : (count - 1 - j) % n < n := Nat.mod_lt _ (NeZero.pos n)
  have hback : count - 1 - (count - 1 - j) % n = j + n * ((count - 1 - j) / n) := by
    have := Nat.div_add_mod (count - 1 - j) n
    omega
  have hslot := h _ (lt_min hlt hd)
  have hfin : Fin.ofNat n (count - 1 - (count - 1 - j) % n) = j := by
    apply Fin.ext
    change (count - 1 - (count - 1 - j) % n) % n = j
    rw [hback, Nat.add_mul_mod_self_left, Nat.mod_eq_of_lt j.isLt]
  rw [hfin] at hslot
  exact hslot

end

end Ring
