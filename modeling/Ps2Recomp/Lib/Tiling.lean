import Mathlib.Data.List.Chain

/-!
# Tilings of an interval

A list of blocks, each with a start and a length, that fill an interval in order and without gaps,
and the merging of neighbours. Nothing here depends on what blocks are.

* `Tiles`: the list fills `[a, b)`. `tiles_append` cuts it.
* `coalesce`: one pass that merges each block into the one before it where the two may be merged.
  It keeps a tiling (`Tiles.coalesce`), leaves nothing to merge (`coalesce_isChain`) and keeps the
  blocks that are never merged (`filter_coalesce`).
-/

namespace Tiling

universe u

variable {β : Type u} {start len : β → ℕ} {a b : ℕ} {l l' : List β} {x y : β}

/-- The blocks fill `[a, b)`, in order and without gaps. None of them is empty. -/
def Tiles (start len : β → ℕ) : ℕ → ℕ → List β → Prop
  | a, b, [] => a = b
  | a, b, x :: l => start x = a ∧ 0 < len x ∧ Tiles start len (a + len x) b l

theorem tiles_append : Tiles start len a b (l ++ l') ↔ ∃ m, Tiles start len a m l ∧ Tiles start len m b l' := by
  induction l generalizing a with
  | nil => simp [Tiles]
  | cons x l ih =>
    simp only [List.cons_append, Tiles, ih]
    constructor
    · rintro ⟨hs, hl, m, h, h'⟩
      exact ⟨m, ⟨hs, hl, h⟩, h'⟩
    · rintro ⟨m, ⟨hs, hl, h⟩, h'⟩
      exact ⟨hs, hl, m, h, h'⟩

section

variable (h : Tiles start len a b l)

include h

theorem Tiles.le : a ≤ b := by
  induction l generalizing a with
  | nil => exact h.le
  | cons x l ih =>
    have := ih h.2.2
    omega

theorem Tiles.mem (hx : x ∈ l) : a ≤ start x ∧ 0 < len x ∧ start x + len x ≤ b := by
  obtain ⟨l1, l2, rfl⟩ := List.append_of_mem hx
  obtain ⟨m, h1, hs, hl, h2⟩ := tiles_append.1 h
  have := h1.le
  have := h2.le
  exact ⟨by omega, hl, by omega⟩

theorem Tiles.inj (hx : x ∈ l) (hy : y ∈ l) (heq : start x = start y) : x = y := by
  induction l generalizing a with
  | nil => cases hx
  | cons z l ih =>
    have hlow : ∀ w ∈ l, start z < start w := by
      intro w hw
      have := (h.2.2.mem hw).1
      have := h.2.1
      have := h.1
      omega
    rcases List.mem_cons.1 hx with hxz | hx
    · rcases List.mem_cons.1 hy with hyz | hy
      · rw [hxz, hyz]
      · have := hlow y hy
        rw [hxz] at heq
        omega
    · rcases List.mem_cons.1 hy with hyz | hy
      · have := hlow x hx
        rw [hyz] at heq
        omega
      · exact ih h.2.2 hx hy

/-- Two different blocks do not overlap. -/
theorem Tiles.apart (hx : x ∈ l) (hy : y ∈ l) (hne : x ≠ y) :
    start x + len x ≤ start y ∨ start y + len y ≤ start x := by
  obtain ⟨l1, l2, rfl⟩ := List.append_of_mem hx
  obtain ⟨m, h1, hs, hl, h2⟩ := tiles_append.1 h
  rcases List.mem_append.1 hy with hy | hy
  · have := (h1.mem hy).2.2
    exact .inr (by omega)
  · rcases List.mem_cons.1 hy with rfl | hy
    · exact absurd rfl hne
    · have := (h2.mem hy).1
      exact .inl (by omega)

theorem Tiles.isChain {R S : β → β → Prop} (hR : l.IsChain R)
    (himp : ∀ x y, R x y → start x + len x = start y → S x y) : l.IsChain S := by
  induction l generalizing a with
  | nil => exact .nil
  | cons x l ih =>
    rw [List.isChain_cons] at hR ⊢
    refine ⟨fun y hy => himp x y (hR.1 y hy) ?_, ih h.2.2 hR.2⟩
    obtain ⟨l', rfl⟩ : ∃ l', l = y :: l' := List.head?_eq_some_iff.1 hy
    rw [h.1]
    exact h.2.2.1.symm

end

/-! ### Merging neighbours -/

section Coalesce

variable (mergeable : β → β → Bool) (merge : β → β → β)

/-- The rest of a pass, with the block before it. -/
def coalesceFrom : β → List β → List β
  | prev, [] => [prev]
  | prev, curr :: l =>
    if mergeable prev curr then coalesceFrom (merge prev curr) l else prev :: coalesceFrom curr l

/-- One pass over the blocks. -/
def coalesce : List β → List β
  | [] => []
  | x :: l => coalesceFrom mergeable merge x l

variable {mergeable merge}

theorem Tiles.coalesceFrom (hm : ∀ x y, mergeable x y = true → start x + len x + len y ≤ b →
      start (merge x y) = start x ∧ len (merge x y) = len x + len y)
    (h : Tiles start len a b (x :: l)) : Tiles start len a b (coalesceFrom mergeable merge x l) := by
  induction l generalizing a x with
  | nil => exact h
  | cons y l ih =>
    obtain ⟨hx, hxl, hy, hyl, hrest⟩ := h
    rw [Tiling.coalesceFrom]
    split
    · next hxy =>
      have hle := hrest.le
      obtain ⟨hs, hlen⟩ := hm x y hxy (by omega)
      refine ih ⟨hs.trans hx, by omega, ?_⟩
      rw [hlen, ← Nat.add_assoc]
      exact hrest
    · exact ⟨hx, hxl, ih ⟨hy, hyl, hrest⟩⟩

/-- **A pass keeps a tiling.** -/
theorem Tiles.coalesce (hm : ∀ x y, mergeable x y = true → start x + len x + len y ≤ b →
      start (merge x y) = start x ∧ len (merge x y) = len x + len y)
    (h : Tiles start len a b l) : Tiles start len a b (coalesce mergeable merge l) := by
  cases l with
  | nil => exact h
  | cons x l => exact h.coalesceFrom hm

section

variable (hm : ∀ x y z, mergeable x y = true → mergeable z (merge x y) = mergeable z x)

include hm

/-- The rest of a pass leaves nothing to merge, and may stand behind what `x` may stand behind. -/
theorem coalesceFrom_isChain (x : β) (l : List β) :
    ((coalesceFrom mergeable merge x l).IsChain fun x y => mergeable x y = false) ∧
      ∀ z, mergeable z x = false → ∀ w ∈ (coalesceFrom mergeable merge x l).head?, mergeable z w = false := by
  induction l generalizing x with
  | nil =>
    refine ⟨.singleton _, fun z hz w hw => ?_⟩
    cases hw
    exact hz
  | cons y l ih =>
    rw [coalesceFrom]
    split
    · next hxy =>
      obtain ⟨h1, h2⟩ := ih (merge x y)
      exact ⟨h1, fun z hz => h2 z ((hm x y z hxy).trans hz)⟩
    · next hxy =>
      obtain ⟨h1, h2⟩ := ih y
      refine ⟨List.isChain_cons.2 ⟨h2 x (by simpa using hxy), h1⟩, fun z hz w hw => ?_⟩
      cases hw
      exact hz

/-- **A pass leaves nothing to merge.** -/
theorem coalesce_isChain (l : List β) : (coalesce mergeable merge l).IsChain fun x y => mergeable x y = false := by
  cases l with
  | nil => exact .nil
  | cons x l => exact (coalesceFrom_isChain hm x l).1

end

section

variable {p : β → Bool} (hp : ∀ x y, mergeable x y = true → p x = false ∧ p y = false ∧ p (merge x y) = false)

include hp

theorem filter_coalesceFrom (x : β) (l : List β) : (coalesceFrom mergeable merge x l).filter p = (x :: l).filter p := by
  induction l generalizing x with
  | nil => rfl
  | cons y l ih =>
    rw [coalesceFrom]
    split
    · next hxy =>
      obtain ⟨h1, h2, h3⟩ := hp x y hxy
      rw [ih]
      simp [h1, h2, h3]
    · rw [List.filter_cons, ih]
      exact List.filter_cons.symm

/-- **A pass keeps the blocks that are never merged.** -/
theorem filter_coalesce (l : List β) : (coalesce mergeable merge l).filter p = l.filter p := by
  cases l with
  | nil => rfl
  | cons x l => exact filter_coalesceFrom hp x l

end

end Coalesce

end Tiling
