import Mathlib.Data.List.Basic

/-!
# Loops over a stream

A loop takes from the front of its data what a step takes, until too little is left or a step ends it.

* `run_step`, `run_stop`: the loop by its first step.
* `Through`: data that the loop goes through whatever comes behind it. What comes behind is then done from
  where the loop has come to (`Through.run_append`).
-/

namespace Stream

variable {β S : Type*}

/-- A step: what is left of the data, unless the loop ends. -/
abbrev Step (β S : Type*) := List β → S → S × Option (List β)

/-- The loop, for so many steps. -/
def loop (least : ℕ) (step : Step β S) : ℕ → List β → S → S
  | 0, _, s => s
  | n + 1, data, s =>
    if data.length < least then s
    else
      match step data s with
      | (s, none) => s
      | (s, some rest) => loop least step n rest s

/-- The loop over all of the data. -/
def run (least : ℕ) (step : Step β S) (data : List β) (s : S) : S := loop least step data.length data s

/-- Steps are for data that there is, and take something of it. -/
structure Takes (least : ℕ) (step : Step β S) : Prop where
  least_pos : 0 < least
  shorter : ∀ data s s' rest, least ≤ data.length → step data s = (s', some rest) → rest.length < data.length

variable {least : ℕ} {step : Step β S} {data rest a : List β} {s s' t : S} {m n : ℕ}

theorem loop_short (h : data.length < least) : loop least step n data s = s := by
  cases n with
  | zero => rfl
  | succ n => rw [loop, if_pos h]

theorem loop_eq (h : Takes least step) (hm : data.length ≤ m) (hn : data.length ≤ n) :
    loop least step m data s = loop least step n data s := by
  have hpos := h.least_pos
  induction m generalizing data s n with
  | zero => rw [loop, loop_short (by omega)]
  | succ m ih =>
    cases n with
    | zero => rw [loop_short (by omega), loop]
    | succ n =>
      rw [loop, loop]
      split
      · rfl
      next hlong =>
      cases hstep : step data s with
      | mk s' left =>
        cases left with
        | none => rfl
        | some rest =>
          have hlt := h.shorter data s s' rest (Nat.not_lt.1 hlong) hstep
          exact ih (by omega) (by omega)

theorem run_nil : run least step [] s = s := rfl

theorem run_short (h : data.length < least) : run least step data s = s := loop_short h

section

variable (h : Takes least step) (hlen : least ≤ data.length)

include h hlen

theorem run_stop (hstep : step data s = (s', none)) : run least step data s = s' := by
  have hpos := h.least_pos
  obtain ⟨n, hn⟩ : ∃ n, data.length = n + 1 := ⟨data.length - 1, by omega⟩
  rw [run, hn, loop, if_neg (by omega), hstep]

theorem run_step (hstep : step data s = (s', some rest)) : run least step data s = run least step rest s' := by
  have hpos := h.least_pos
  have hlt := h.shorter data s s' rest hlen hstep
  obtain ⟨n, hn⟩ : ∃ n, data.length = n + 1 := ⟨data.length - 1, by omega⟩
  rw [run, hn, loop, if_neg (by omega), hstep]
  exact loop_eq h (by omega) (Nat.le_refl _)

end

theorem run_induction {p : S → Prop} (h : Takes least step)
    (hstep : ∀ data s, least ≤ data.length → p s → p (step data s).1) (hs : p s) : p (run least step data s) := by
  induction hk : data.length using Nat.strongRecOn generalizing data s with
  | ind k ih =>
    by_cases hshort : data.length < least
    · rwa [run_short hshort]
    have hlong := Nat.not_lt.1 hshort
    have hnext := hstep data s hlong hs
    cases hst : step data s with
    | mk s' left =>
      rw [hst] at hnext
      cases left with
      | none => rwa [run_stop h hlong hst]
      | some rest =>
        rw [run_step h hlong hst]
        exact ih rest.length (hk ▸ h.shorter data s s' rest hlong hst) hnext rfl

/-- **Data that the loop goes through**, whatever comes behind it. -/
inductive Through (least : ℕ) (step : Step β S) : List β → S → S → Prop
  | done (s : S) : Through least step [] s s
  | next {data rest : List β} {s s' t : S} (hlen : least ≤ data.length)
      (hstep : ∀ behind, step (data ++ behind) s = (s', some (rest ++ behind))) (hrest : Through least step rest s' t) :
      Through least step data s t

section

variable (h : Takes least step) (hthrough : Through least step a s t)

include h hthrough

/-- **What comes behind** is done from where the loop has come to. -/
theorem Through.run_append (behind : List β) : run least step (a ++ behind) s = run least step behind t := by
  induction hthrough with
  | done s => rfl
  | next hlen hstep _ ih =>
    have hlong := Nat.le_trans hlen (List.length_append ▸ Nat.le_add_right _ behind.length)
    rw [run_step h hlong (hstep behind), ih]

theorem Through.run : run least step a s = t := by
  have hall := hthrough.run_append h []
  rwa [List.append_nil, run_nil] at hall

end

end Stream
