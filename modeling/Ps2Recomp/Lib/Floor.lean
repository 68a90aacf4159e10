import Mathlib.Data.List.Basic
import Mathlib.Order.Lattice

/-!
# The last entry that does not come behind a key

In a list sorted by a key, the entries up to a given key are a prefix, and the last of them
has the greatest key among them. Several entries may have one key.
-/

namespace Floor

variable {α κ : Type*} [LinearOrder κ] {key : α → κ}

/-- The last entry in front of the first one whose key is past `k`. -/
def floor? (key : α → κ) (l : List α) (k : κ) : Option α :=
  (l.takeWhile (fun x => decide (key x ≤ k))).getLast?

variable {l : List α}

section

variable (hl : l.Pairwise (fun x y => key x ≤ key y))

include hl

theorem mem_takeWhile {k : κ} {x : α} : x ∈ l.takeWhile (fun x => decide (key x ≤ k)) ↔ x ∈ l ∧ key x ≤ k := by
  induction l with
  | nil => simp
  | cons y l ih =>
    rw [List.pairwise_cons] at hl
    by_cases hy : key y ≤ k
    · rw [List.takeWhile_cons, if_pos (decide_eq_true hy), List.mem_cons, List.mem_cons, ih hl.2]
      constructor
      · rintro (rfl | ⟨hx, hk⟩)
        · exact ⟨.inl rfl, hy⟩
        · exact ⟨.inr hx, hk⟩
      · rintro ⟨rfl | hx, hk⟩
        · exact .inl rfl
        · exact .inr ⟨hx, hk⟩
    · rw [List.takeWhile_cons, if_neg (by simpa using hy), List.mem_cons]
      constructor
      · intro h
        cases h
      · -- everything behind `y` is past the key as well
        rintro ⟨rfl | hx, hk⟩
        · exact absurd hk hy
        · exact absurd (le_trans (hl.1 x hx) hk) hy

/-- The entry found has the greatest key among those up to `k`. -/
theorem floor?_eq_some {k : κ} {x : α}
    (h : floor? key l k = some x) : x ∈ l ∧ key x ≤ k ∧ ∀ y ∈ l, key y ≤ k → key y ≤ key x := by
  obtain ⟨front, hfront⟩ := List.getLast?_eq_some_iff.1 h
  have hx : x ∈ l.takeWhile (fun x => decide (key x ≤ k)) := by
    rw [hfront]
    exact List.mem_append_right _ (List.mem_singleton_self x)
  obtain ⟨hmem, hk⟩ := (mem_takeWhile hl).1 hx
  refine ⟨hmem, hk, ?_⟩
  intro y hy hyk
  have hy' := (mem_takeWhile hl).2 ⟨hy, hyk⟩
  rw [hfront, List.mem_append, List.mem_singleton] at hy'
  rcases hy' with hy' | rfl
  · have hsorted := hl.sublist (List.takeWhile_sublist (fun x => decide (key x ≤ k)))
    rw [hfront, List.pairwise_append] at hsorted
    exact hsorted.2.2 y hy' x (List.mem_singleton_self x)
  · exact le_rfl

/-- Nothing is found only where every key is past `k`. -/
theorem floor?_eq_none {k : κ} : floor? key l k = none ↔ ∀ y ∈ l, ¬key y ≤ k := by
  rw [floor?, List.getLast?_eq_none_iff, List.eq_nil_iff_forall_not_mem]
  constructor
  · intro h y hy hk
    exact h y ((mem_takeWhile hl).2 ⟨hy, hk⟩)
  · intro h y hy
    obtain ⟨hmem, hk⟩ := (mem_takeWhile hl).1 hy
    exact h y hmem hk

end

end Floor
