import Ps2Recomp.Spec.McStubs

/-!
# Patterns of file names

`wildcardMatch` compares characters before it looks for a star, so a star of the pattern that meets one of
the value is taken for itself. It decides the instances of `StarForStar` (`wildcardMatch_eq_true`), which are all of them
as long as the value has no star.
-/

namespace Ps2Recomp.McStubs

open GuestPaths

variable {p v w : Str} {c ch : Char}

/-! ### Instances -/

theorem StarForStar.glob (h : StarForStar p v) : Glob p v := by
  induction h with
  | nil => exact .nil
  | star w hhead h ih => exact .star w ih
  | literal h ih => exact .star ['*'] ih
  | question c h ih => exact .question c ih
  | char hstar hquestion h ih => exact .char hstar hquestion ih

theorem Glob.starForStar (h : Glob p v) (hv : '*' ∉ v) : StarForStar p v := by
  induction h with
  | nil => exact .nil
  | star w h ih =>
    refine .star w (fun hhead => hv ?_) (ih fun hin => hv (List.mem_append_right w hin))
    exact List.mem_of_mem_head? hhead
  | question c h ih => exact .question c (ih fun hin => hv (List.mem_cons_of_mem c hin))
  | char hstar hquestion h ih => exact .char hstar hquestion (ih fun hin => hv (List.mem_cons_of_mem _ hin))

/-- What is left of the pattern has an instance at the end of what is left of the value. -/
def Later (p v : Str) : Prop := ∃ w, w <:+ v ∧ StarForStar p w

theorem Later.mono (h : Later p w) (hw : w <:+ v) : Later p v := by
  obtain ⟨u, hu, h⟩ := h
  exact ⟨u, hu.trans hw, h⟩

theorem later_iff : Later p v ↔ StarForStar p v ∨ Later p v.tail := by
  constructor
  · rintro ⟨w, hw, h⟩
    cases v with
    | nil =>
      rw [List.suffix_nil.1 hw] at h
      exact .inl h
    | cons c v =>
      obtain rfl | hw := List.suffix_cons_iff.1 hw
      · exact .inl h
      · exact .inr ⟨w, hw, h⟩
  · rintro (h | h)
    · exact ⟨_, List.suffix_rfl, h⟩
    · exact h.mono (List.tail_suffix v)

theorem later_nil : Later p [] ↔ StarForStar p [] := ⟨fun ⟨_, hw, h⟩ => List.suffix_nil.1 hw ▸ h, fun h => ⟨[], List.suffix_rfl, h⟩⟩

/-- The characters that are compared. -/
theorem starForStar_literal (h : ch = '?' ∨ ch = c) : StarForStar (ch :: p) (c :: v) ↔ StarForStar p v := by
  constructor
  · intro hs
    generalize hv : c :: v = value at hs
    cases hs with
    | star w hhead hs =>
      obtain h | rfl := h
      · cases h
      · rw [← hv] at hhead
        exact absurd rfl hhead
    | literal hs => exact (List.cons.inj hv).2 ▸ hs
    | question c' hs => exact (List.cons.inj hv).2 ▸ hs
    | char hstar hquestion hs => exact (List.cons.inj hv).2 ▸ hs
  · intro hs
    by_cases hq : ch = '?'
    · subst hq
      exact .question c hs
    · obtain rfl := h.resolve_left hq
      by_cases hstar : ch = '*'
      · subst hstar
        exact .literal hs
      · exact .char hstar hq hs

theorem not_starForStar (h : ¬(ch = '?' ∨ ch = c)) (hstar : ch ≠ '*') : ¬StarForStar (ch :: p) (c :: v) := by
  intro hs
  generalize hv : c :: v = value at hs
  cases hs with
  | star w hhead hs => exact hstar rfl
  | literal hs => exact hstar rfl
  | question c hs => exact h (.inl rfl)
  | char hstar hquestion hs => exact h (.inr (List.cons.inj hv).1.symm)

/-- A star has taken something. -/
theorem StarForStar.later (h : StarForStar ('*' :: p) v) : Later p v := by
  cases h with
  | star w hhead h => exact ⟨_, List.suffix_append w _, h⟩
  | literal h => exact ⟨_, List.suffix_cons _ _, h⟩
  | char hstar hquestion h => exact absurd rfl hstar

theorem starForStar_star (h : c ≠ '*') : StarForStar ('*' :: p) (c :: v) ↔ Later p (c :: v) := by
  refine ⟨StarForStar.later, ?_⟩
  rintro ⟨w, ⟨u, hu⟩, hs⟩
  rw [← hu]
  refine .star u ?_ hs
  rw [hu]
  exact fun hhead => h (Option.some.inj hhead)

/-- An instance of the rest at a later place is one behind the character that is compared. -/
theorem later_literal (h : ch = '?' ∨ ch = c) (hl : Later (ch :: p) (c :: v)) : Later p v := by
  obtain hs | ⟨w, hw, hs⟩ := later_iff.1 hl
  · exact ⟨v, List.suffix_rfl, (starForStar_literal h).1 hs⟩
  · refine Later.mono ?_ hw
    cases hs with
    | star u hhead hs => exact ⟨_, List.suffix_append u _, hs⟩
    | literal hs => exact ⟨_, List.suffix_cons _ _, hs⟩
    | question c hs => exact ⟨_, List.suffix_cons _ _, hs⟩
    | char hstar hquestion hs => exact ⟨_, List.suffix_cons _ _, hs⟩

theorem starForStar_nil : StarForStar p [] ↔ (p.dropWhile (· = '*')).isEmpty = true := by
  induction p with
  | nil => exact iff_of_true .nil rfl
  | cons ch p ih =>
    by_cases hch : ch = '*'
    · subst hch
      rw [List.dropWhile_cons_of_pos (by decide), ← ih]
      refine ⟨fun h => later_nil.1 h.later, fun h => ?_⟩
      exact .star [] nofun h
    · rw [List.dropWhile_cons_of_neg (by simpa using hch)]
      refine iff_of_false (fun h => ?_) nofun
      generalize hv : ([] : Str) = value at h
      cases h with
      | star w hhead h => exact hch rfl
      | literal h => exact hch rfl
      | question c h => cases hv
      | char hstar hquestion h => cases hv

/-! ### The loop -/

namespace Positions

variable {s s' : Positions} {result : Bool}

/-- Where an instance can still be found: here, or with more for the last star. -/
def Open (s : Positions) : Prop :=
  StarForStar s.pattern s.value ∨ ∃ p m, s.star = some (p, m) ∧ Later p m.tail

/-- **More for the last star is no loss**: what it gives up is behind the positions, too. -/
def Inv (s : Positions) : Prop := ∀ p m, s.star = some (p, m) → Later p m.tail → Later s.pattern s.value

/-- A star that has just been tried. -/
theorem tried_spec (h : s.star = some (s.pattern, s.value)) : s.Inv ∧ (s.Open ↔ Later s.pattern s.value) := by
  refine ⟨fun p m hs hl => ?_, ?_⟩
  · cases h.symm.trans hs
    exact hl.mono (List.tail_suffix _)
  · rw [later_iff, Open]
    refine or_congr_right ⟨fun ⟨p, m, hs, hl⟩ => ?_, fun hl => ⟨_, _, h, hl⟩⟩
    cases h.symm.trans hs
    exact hl

/-- Where the characters differ, the last star takes one more. -/
theorem retry_spec (hhere : ¬StarForStar s.pattern s.value) :
    (∀ result, s.retry = .error result → (result = true ↔ s.Open)) ∧
      ∀ s', s.retry = .ok s' → s'.Inv ∧ (s'.Open ↔ s.Open) := by
  unfold retry
  split
  · next p m hs =>
    refine ⟨fun _ h => (by cases h), fun s' h => ?_⟩
    cases h
    refine ⟨(tried_spec rfl).1, (tried_spec rfl).2.trans ?_⟩
    rw [Open, or_iff_right hhere]
    refine ⟨fun hl => ⟨_, _, hs, hl⟩, ?_⟩
    rintro ⟨p', m', hs', hl⟩
    cases hs.symm.trans hs'
    exact hl
  · next hs =>
    refine ⟨fun result h => ?_, fun _ h => by cases h⟩
    cases h
    refine iff_of_false (fun h => by cases h) fun h => h.elim hhere ?_
    rintro ⟨p, m, hs', -⟩
    cases hs.symm.trans hs'

/-- **One turn.** -/
theorem next_spec (hi : s.Inv) : (∀ result, s.next = .error result → (result = true ↔ s.Open)) ∧ ∀ s', s.next = .ok s' →
    s'.Inv ∧ (s'.Open ↔ s.Open) := by
  unfold next
  split
  · next hv =>
    refine ⟨fun result h => ?_, fun _ h => by cases h⟩
    cases h
    rw [← starForStar_nil, Open, hv]
    refine ⟨.inl, fun h => h.elim id ?_⟩
    rintro ⟨p, m, hs, h⟩
    have hl := hi p m hs h
    rwa [hv, later_nil] at hl
  next c value hv =>
  split
  · next hp =>
    refine retry_spec fun h => ?_
    rw [hp, hv] at h
    cases h
  next ch pattern hp =>
  split
  · next hch =>
    refine ⟨fun _ h => (by cases h), fun s' h => ?_⟩
    cases h
    refine ⟨fun p m hs h => ?_, ?_⟩
    · have hl := hi p m hs h
      rw [hp, hv] at hl
      exact later_literal hch hl
    · simp only [Open]
      rw [hp, hv, starForStar_literal hch]
  next hch =>
  split
  · next hstar =>
    subst hstar
    refine ⟨fun _ h => (by cases h), fun s' h => ?_⟩
    cases h
    refine ⟨(tried_spec rfl).1, (tried_spec rfl).2.trans ?_⟩
    rw [Open, hp, hv, starForStar_star fun hc => hch (.inr hc.symm)]
    refine ⟨.inl, fun h => h.elim id ?_⟩
    rintro ⟨p, m, hs, hl⟩
    obtain ⟨w, hw, hs⟩ := hi p m hs hl
    rw [hp] at hs
    rw [hv] at hw
    exact hs.later.mono hw
  · next hstar =>
    refine retry_spec ?_
    rw [hp, hv]
    exact not_starForStar hch hstar

end Positions

/-- **The whole loop.** -/
theorem wildcardLoop_eq_true {s : Positions} (hi : s.Inv) : wildcardLoop s = true ↔ s.Open := by
  induction s using wildcardLoop.induct with
  | case1 s result h =>
    rw [wildcardLoop, h]
    exact (Positions.next_spec hi).1 result h
  | case2 s s' h ih =>
    obtain ⟨hi', hopen⟩ := (Positions.next_spec hi).2 s' h
    rw [wildcardLoop, h]
    exact (ih hi').trans hopen

theorem wildcardMatch_eq_true : wildcardMatch p v = true ↔ StarForStar p v := by
  have hi : Positions.Inv ⟨p, v, none, fun _ _ h => by cases h⟩ := fun _ _ h => by cases h
  rw [wildcardMatch, wildcardLoop_eq_true hi]
  refine or_iff_left ?_
  rintro ⟨_, _, h, _⟩
  cases h

/-- **`wildcardMatch` decides the instances** exactly where one that there is needs no star of the pattern for more than a
star of the value; so for every value without one. -/
theorem wildcardMatch_decides_iff (pattern value : Str) :
    ((wildcardMatch pattern value = true ↔ Glob pattern value) ↔ (Glob pattern value → StarForStar pattern value)) ∧
      ('*' ∉ value → (wildcardMatch pattern value = true ↔ Glob pattern value)) := by
  rw [wildcardMatch_eq_true]
  exact ⟨⟨fun h => h.2, fun h => ⟨StarForStar.glob, h⟩⟩, fun hv => ⟨StarForStar.glob, fun h => h.starForStar hv⟩⟩

/-- `*` does not match `*a`. -/
theorem wildcardMatch_star_misses :
    ¬∀ pattern value : Str, wildcardMatch pattern value = true ↔ Glob pattern value := by
  intro h
  have hglob : Glob ['*'] ['*', 'a'] := .star ['*', 'a'] .nil
  have hs : StarForStar ['*'] ['*', 'a'] := wildcardMatch_eq_true.1 ((h _ _).2 hglob)
  have hrest : StarForStar [] ['a'] := (starForStar_literal (.inr rfl)).1 hs
  cases hrest

end Ps2Recomp.McStubs
