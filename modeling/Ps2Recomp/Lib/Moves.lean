import Mathlib.Data.List.Pairwise
import Mathlib.Logic.Function.Basic
import Mathlib.Tactic.Common

/-!
# Moving and copying

What is at the places `s i` is copied to the places `d i`, one after the other. The outcome is that of a move, where all
is read before anything is written (`Moved`), if nothing is read that was written before (`moved_copyEach`). If what is
written first is read later, the outcome is another one for some content (`exists_not_moved`).
-/

namespace Moves

variable {ι P V : Type*} {s d : ι → P} {l : List ι} {m : P → V} {p : P}

/-- All at once. -/
structure Moved (s d : ι → P) (l : List ι) (m m' : P → V) : Prop where
  copied : ∀ i ∈ l, m' (d i) = m (s i)
  kept : ∀ p, (∀ i ∈ l, p ≠ d i) → m' p = m p

/-- The order does not matter for a move. -/
theorem Moved.perm {l' : List ι} {m' : P → V} (h : Moved s d l m m') (hl : ∀ i, i ∈ l' ↔ i ∈ l) : Moved s d l' m m' :=
  ⟨fun i hi => h.copied i ((hl i).1 hi), fun p hp => h.kept p fun i hi => hp i ((hl i).2 hi)⟩

variable [DecidableEq P]

/-- One place after the other. -/
def copyEach (s d : ι → P) (l : List ι) (m : P → V) : P → V :=
  l.foldl (fun m i => Function.update m (d i) (m (s i))) m

theorem copyEach_kept (h : ∀ i ∈ l, p ≠ d i) : copyEach s d l m p = m p := by
  induction l generalizing m with
  | nil => rfl
  | cons i l ih =>
    rw [copyEach, List.foldl_cons, ← copyEach, ih fun j hj => h j (List.mem_cons_of_mem _ hj),
      Function.update_of_ne (h i List.mem_cons_self)]

theorem moved_copyEach (hd : l.Pairwise fun i j => d i ≠ d j) (hs : l.Pairwise fun i j => d i ≠ s j) :
    Moved s d l m (copyEach s d l m) := by
  refine ⟨?_, fun p hp => copyEach_kept hp⟩
  induction l generalizing m with
  | nil => exact fun i hi => absurd hi List.not_mem_nil
  | cons i l ih =>
    obtain ⟨hdi, hdl⟩ := List.pairwise_cons.1 hd
    obtain ⟨hsi, hsl⟩ := List.pairwise_cons.1 hs
    intro j hj
    rw [copyEach, List.foldl_cons, ← copyEach]
    rcases List.mem_cons.1 hj with rfl | hj
    · rw [copyEach_kept hdi, Function.update_self]
    · rw [ih hdl hsl j hj, Function.update_of_ne (hsi j hj).symm]

/-- What is written first is what a later copy reads. -/
theorem exists_not_moved [Nontrivial V] {i j : ι} (hd : (i :: l).Pairwise fun i j => d i ≠ d j) (hj : j ∈ l)
    (hread : d i = s j) (hne : s i ≠ s j) : ∃ m : P → V, ¬Moved s d (i :: l) m (copyEach s d (i :: l) m) := by
  obtain ⟨a, b, hab⟩ := exists_pair_ne V
  refine ⟨Function.update (fun _ => a) (s j) b, fun hmoved => hab ?_⟩
  obtain ⟨hdi, hdl⟩ := List.pairwise_cons.1 hd
  obtain ⟨l1, l2, rfl⟩ := List.append_of_mem hj
  obtain ⟨-, hdj, -⟩ := List.pairwise_append.1 hdl
  have hcopied := hmoved.copied j (List.mem_cons_of_mem _ hj)
  -- the place keeps what was written first until it is read
  have hfirst : copyEach s d l1 (Function.update (Function.update (fun _ => a) (s j) b) (d i)
      (Function.update (fun _ => a) (s j) b (s i))) (s j) = a := by
    rw [copyEach_kept fun k hk => ?_, ← hread, Function.update_self, Function.update_of_ne]
    · rw [hread]
      exact hne
    · rw [← hread]
      exact hdi k (List.mem_append_left _ hk)
  rw [copyEach, List.foldl_cons, List.foldl_append, List.foldl_cons, ← copyEach, ← copyEach,
    copyEach_kept (List.pairwise_cons.1 hdj).1, Function.update_self, hfirst, Function.update_self] at hcopied
  exact hcopied

end Moves
