import Mathlib.Data.Nat.Basic
import Mathlib.Data.List.Pairwise
import Mathlib.Tactic.Common

/-!
# Spans and first fit

A span is a stretch of numbers. `firstFit` looks for a place for so many numbers among spans that are sorted, from
a first candidate on. What it finds is apart from all of them (`firstFit_apart`), and nothing in front of it is
(`firstFit_le`).
-/

namespace Spans

structure Span where
  start : ℕ
  len : ℕ
  deriving DecidableEq, Repr

namespace Span

variable (s t : Span)

def stop : ℕ := s.start + s.len

def Apart : Prop := s.stop ≤ t.start ∨ t.stop ≤ s.start

variable {s t}

theorem Apart.symm (h : s.Apart t) : t.Apart s := Or.symm h

theorem Apart.not_both (h : s.Apart t) {n : ℕ} (hs : s.start ≤ n ∧ n < s.stop) (ht : t.start ≤ n ∧ n < t.stop) :
    False := by
  rcases h with h | h <;> omega

end Span

/-- Each begins behind the ones in front of it. -/
abbrev Sorted (l : List Span) : Prop := l.Pairwise fun s t => s.stop ≤ t.start

theorem Sorted.apart {l : List Span} (h : Sorted l) : l.Pairwise Span.Apart := h.imp fun h => .inl h

def firstFit (size : ℕ) : ℕ → List Span → ℕ
  | candidate, [] => candidate
  | candidate, s :: rest =>
    if candidate + size ≤ s.start then candidate else firstFit size (max candidate s.stop) rest

variable {size candidate : ℕ} {l : List Span}

theorem le_firstFit : candidate ≤ firstFit size candidate l := by
  induction l generalizing candidate with
  | nil => exact le_rfl
  | cons s rest ih =>
    rw [firstFit]
    split
    · exact le_rfl
    · exact le_trans (le_max_left _ _) ih

/-- What is found is behind every span that was passed, and ends in front of the next. -/
theorem firstFit_apart (h : Sorted l) : ∀ s ∈ l, Span.Apart ⟨firstFit size candidate l, size⟩ s := by
  induction l generalizing candidate with
  | nil => exact fun s hs => absurd hs List.not_mem_nil
  | cons t rest ih =>
    obtain ⟨hfirst, hrest⟩ := List.pairwise_cons.1 h
    intro s hs
    rw [firstFit]
    split
    next hfits =>
      rcases List.mem_cons.1 hs with rfl | hs
      · exact .inl hfits
      · have hbehind : t.stop ≤ s.start := hfirst s hs
        have hstop : t.start ≤ t.stop := Nat.le_add_right _ _
        exact .inl (le_trans hfits (le_trans hstop hbehind))
    · rcases List.mem_cons.1 hs with rfl | hs
      · exact .inr (le_trans (le_max_right _ _) le_firstFit)
      · exact ih hrest s hs

/-- Nothing in front of it is free. -/
theorem firstFit_le {c : ℕ} (hc : candidate ≤ c) (h : ∀ s ∈ l, Span.Apart ⟨c, size⟩ s) :
    firstFit size candidate l ≤ c := by
  induction l generalizing candidate with
  | nil => exact hc
  | cons s rest ih =>
    have hrest : ∀ t ∈ rest, Span.Apart ⟨c, size⟩ t := fun t ht => h t (List.mem_cons_of_mem _ ht)
    rw [firstFit]
    split
    · exact hc
    next hnot =>
      refine ih (max_le hc ?_) hrest
      rcases h s List.mem_cons_self with hs | hs
      · have hstop : c + size ≤ s.start := hs
        omega
      · exact hs

theorem dvd_firstFit {a : ℕ} (hc : a ∣ candidate) (h : ∀ s ∈ l, a ∣ s.stop) : a ∣ firstFit size candidate l := by
  induction l generalizing candidate with
  | nil => exact hc
  | cons s rest ih =>
    rw [firstFit]
    split
    · exact hc
    · refine ih ?_ fun t ht => h t (List.mem_cons_of_mem _ ht)
      rcases le_total candidate s.stop with hle | hle
      · rw [max_eq_right hle]
        exact h s List.mem_cons_self
      · rw [max_eq_left hle]
        exact hc

/-- The place that is found is no further than all ends. -/
theorem firstFit_le_of_stops {bound : ℕ} (hc : candidate ≤ bound) (h : ∀ s ∈ l, s.stop ≤ bound) :
    firstFit size candidate l ≤ bound := by
  induction l generalizing candidate with
  | nil => exact hc
  | cons s rest ih =>
    rw [firstFit]
    split
    · exact hc
    · exact ih (max_le hc (h s List.mem_cons_self)) fun t ht => h t (List.mem_cons_of_mem _ ht)

end Spans
