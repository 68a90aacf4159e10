import Mathlib.Algebra.GroupWithZero.Nat
import Mathlib.Data.List.GetD
import Mathlib.Tactic.Common

/-!
# Data read past its end

`window data p n` is what `n` places from `p` on hold, with zeros behind the end of `data`. Windows that follow each
other join (`window_append`).
-/

namespace Padded

variable {α : Type*} [Zero α] {data : List α} {p n m : ℕ}

def window (data : List α) (p n : ℕ) : List α := (List.range' p n).map fun i => data.getD i 0

@[simp] theorem length_window : (window data p n).length = n := by rw [window, List.length_map, List.length_range']

@[simp] theorem window_zero : window data p 0 = [] := rfl

theorem window_append : window data p n ++ window data (p + n) m = window data p (n + m) := by
  rw [window, window, window, ← List.map_append, List.range'_append_1]

/-- What is left of the data behind `p`, cut or filled up with zeros. -/
theorem rightpad_eq_window : ((data.drop p).take n).rightpad n 0 = window data p n := by
  refine List.ext_getElem? fun i => ?_
  rw [window, List.getElem?_map, List.rightpad, List.getElem?_append, List.length_take, List.length_drop]
  by_cases hi : i < n
  · have hrange : (List.range' p n)[i]? = some (p + i) := by
      rw [List.getElem?_range' hi, Nat.one_mul]
    rw [hrange, Option.map_some]
    by_cases hin : p + i < data.length
    · have hlt : i < min n (data.length - p) := by omega
      rw [if_pos hlt, List.getElem?_take_of_lt hi, List.getElem?_drop, List.getD_eq_getElem?_getD,
        List.getElem?_eq_getElem hin, Option.getD_some]
    · have hge : ¬i < min n (data.length - p) := by omega
      have hpad : i - min n (data.length - p) < n - min n (data.length - p) := by omega
      rw [if_neg hge, List.getElem?_replicate_of_lt hpad, List.getD_eq_default _ _ (Nat.not_lt.1 hin)]
  · have hge : ¬i < min n (data.length - p) := by omega
    have hnone : (List.range' p n)[i]? = none := List.getElem?_eq_none (by rw [List.length_range']; exact Nat.not_lt.1 hi)
    have hpad : (List.replicate (n - min n (data.length - p)) (0 : α))[i - min n (data.length - p)]? = none :=
      List.getElem?_eq_none (by rw [List.length_replicate]; omega)
    rw [if_neg hge, hpad, hnone, Option.map_none]

end Padded

/-!
# Serving data in order

A reader stands at a place of `total` units of `size` places each. A request for `n` units is answered with as many
as there are left, up to `n`, and the reader moves behind them. What is served is in order and complete
(`data_serve`), ends with the last unit (`served_le`), and behind it nothing is served (`served_eq_zero`).
-/

namespace Serve

open Padded

/-- How many units are served. -/
def served {α : Type*} (answers : List (ℕ × List α)) : ℕ := (answers.map (·.1)).sum

theorem served_cons {α : Type*} {a : ℕ × List α} {answers : List (ℕ × List α)} :
    served (a :: answers) = a.1 + served answers := by
  rw [served, served, List.map_cons, List.sum_cons]

variable {α : Type*} [Zero α] (size : ℕ) (data : List α) (total : ℕ)

/-- The answer to a request for `n` units at `p`: how many, and what they hold. -/
def answer (p n : ℕ) : ℕ × List α :=
  let m := min n (total - p)
  (m, window data (p * size) (m * size))

def serve : ℕ → List ℕ → List (ℕ × List α)
  | _, [] => []
  | p, n :: rest => answer size data total p n :: serve (p + min n (total - p)) rest

variable {size data total} {p : ℕ} {requests : List ℕ}

/-- **The answers, one behind the other, are the data from where the reader stood.** -/
theorem data_serve : (serve size data total p requests).flatMap (·.2) =
    window data (p * size) (served (serve size data total p requests) * size) := by
  induction requests generalizing p with
  | nil =>
    rw [serve, served, List.map_nil, List.sum_nil, Nat.zero_mul, window_zero]
    rfl
  | cons n rest ih =>
    rw [serve, List.flatMap_cons, ih, served_cons, answer]
    dsimp only
    rw [Nat.add_mul, window_append, Nat.add_mul]

theorem served_le (hp : p ≤ total) : p + served (serve size data total p requests) ≤ total := by
  induction requests generalizing p with
  | nil => exact hp
  | cons n rest ih =>
    have hnext : p + min n (total - p) ≤ total := by omega
    have hrest := ih hnext
    rw [serve, served_cons, answer]
    dsimp only
    omega

theorem length_answer {a : ℕ × List α} (ha : a ∈ serve size data total p requests) : a.2.length = a.1 * size := by
  induction requests generalizing p with
  | nil => exact absurd ha List.not_mem_nil
  | cons n rest ih =>
    rw [serve] at ha
    rcases List.mem_cons.1 ha with rfl | ha
    · rw [answer, length_window]
    · exact ih ha

/-- Behind the last unit nothing is served. -/
theorem served_eq_zero {before after : List (ℕ × List α)} (h : serve size data total p requests = before ++ after)
    (hend : p + served before = total) : ∀ a ∈ after, a.1 = 0 := by
  induction before generalizing p requests with
  | nil =>
    have hp : p = total := hend
    rw [List.nil_append] at h
    rw [← h, hp]
    intro a ha
    -- a reader at the end stays there
    have hstay : ∀ requests : List ℕ, ∀ a ∈ serve size data total total requests, a.1 = 0 := by
      intro requests
      induction requests with
      | nil => exact fun a ha => absurd ha List.not_mem_nil
      | cons n rest ih =>
        intro a ha
        rw [serve, Nat.sub_self, Nat.min_zero, Nat.add_zero] at ha
        rcases List.mem_cons.1 ha with rfl | ha
        · rw [answer, Nat.sub_self, Nat.min_zero]
        · exact ih a ha
    exact hstay requests a ha
  | cons b before ih =>
    cases requests with
    | nil => exact absurd h (List.cons_ne_nil _ _).symm
    | cons n rest =>
      rw [serve, List.cons_append] at h
      obtain ⟨hb, hrest⟩ := List.cons.inj h
      refine ih hrest ?_
      rw [served_cons, ← hb, answer] at hend
      dsimp only at hend
      omega

end Serve
