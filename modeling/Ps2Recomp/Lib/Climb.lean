import Mathlib.Data.List.Infix
import Mathlib.Tactic.Common

/-!
# Walks with a step up

A walk goes down by names and up by `up`. Where it leads is a `Place`: so many steps up from where it began, and
the names below that, the deepest first. Walks compose (`walk_append`), and a walk from a place leads below it if
and only if the names it climbs over are the first that it goes down again (`below_iff`).
-/

namespace Climb

variable {α : Type} [DecidableEq α]

structure Place (α : Type) where
  ups : ℕ
  names : List α
  deriving DecidableEq, Repr

/-- One component: a step up takes back the last name, if there is one. -/
def step (up : α) (p : Place α) (c : α) : Place α :=
  if c = up then
    match p.names with
    | [] => { p with ups := p.ups + 1 }
    | _ :: names => { p with names }
  else { p with names := c :: p.names }

def walk (up : α) (l : List α) : Place α := l.foldl (step up) ⟨0, []⟩

namespace Place

variable (p q : Place α)

/-- Where `q` leads from `p`. -/
def andThen : Place α :=
  if q.ups ≤ p.names.length then ⟨p.ups, q.names ++ p.names.drop q.ups⟩
  else ⟨p.ups + (q.ups - p.names.length), q.names⟩

/-- The components of a place. Nothing is above the root, so an absolute one has no steps up. -/
def toList (up : α) (absolute : Bool) : List α :=
  (if absolute then [] else List.replicate p.ups up) ++ p.names.reverse

end Place

variable {up : α} {p q : Place α} {l l' : List α}

theorem step_andThen (c : α) : step up (p.andThen q) c = p.andThen (step up q c) := by
  rcases q with ⟨k, t⟩
  by_cases hc : c = up
  · rcases t with _ | ⟨b, t⟩
    · -- one more name of `p` is taken back, if there is one left
      by_cases hlt : k < p.names.length
      · have hdrop : p.names.drop k = p.names[k] :: p.names.drop (k + 1) := List.drop_eq_getElem_cons hlt
        simp only [step, Place.andThen, hc, if_true, List.nil_append, if_pos hlt.le, if_pos (Nat.succ_le_of_lt hlt),
          hdrop]
      · by_cases heq : k = p.names.length
        · have hdrop : p.names.drop k = [] := List.drop_of_length_le heq.ge
          have hnot : ¬k + 1 ≤ p.names.length := by omega
          simp only [step, Place.andThen, hc, if_true, List.nil_append, if_pos heq.le, if_neg hnot, hdrop,
            Place.mk.injEq, and_true]
          omega
        · have hnot : ¬k ≤ p.names.length := by omega
          have hnot' : ¬k + 1 ≤ p.names.length := by omega
          simp only [step, Place.andThen, hc, if_true, if_neg hnot, if_neg hnot', Place.mk.injEq, and_true]
          omega
    · by_cases hle : k ≤ p.names.length
      · simp only [step, Place.andThen, hc, if_true, if_pos hle, List.cons_append]
      · simp only [step, Place.andThen, hc, if_true, if_neg hle]
  · by_cases hle : k ≤ p.names.length
    · simp only [step, Place.andThen, if_neg hc, if_pos hle, List.cons_append]
    · simp only [step, Place.andThen, if_neg hc, if_neg hle]

theorem foldl_step (p : Place α) (l : List α) : l.foldl (step up) p = p.andThen (walk up l) := by
  induction l using List.reverseRecOn with
  | nil => simp [walk, Place.andThen]
  | append_singleton l c ih =>
    have hwalk : walk up (l ++ [c]) = step up (walk up l) c := by
      rw [walk, List.foldl_append]
      rfl
    rw [List.foldl_append, ih, List.foldl_cons, List.foldl_nil, hwalk, step_andThen]

theorem walk_append : walk up (l ++ l') = (walk up l).andThen (walk up l') := by
  rw [walk, List.foldl_append, foldl_step]
  rfl

theorem names_ne {c : α} (h : c ∈ (walk up l).names) : c ≠ up := by
  have key : ∀ (p : Place α), (∀ c ∈ p.names, c ≠ up) → ∀ c ∈ (l.foldl (step up) p).names, c ≠ up := by
    clear h
    induction l with
    | nil => exact fun p hp => hp
    | cons b l ih =>
      intro p hp
      refine ih _ fun c hc => ?_
      rw [step] at hc
      split at hc
      · split at hc
        next hnil => exact hp c hc
        next b' names hcons =>
          refine hp c ?_
          rw [hcons]
          exact List.mem_cons_of_mem _ hc
      next hb =>
        rcases List.mem_cons.1 hc with rfl | hc
        · exact hb
        · exact hp c hc
  exact key ⟨0, []⟩ (fun c hc => absurd hc List.not_mem_nil) c h

/-- Without a step up a walk goes straight down. -/
theorem walk_of_ne (h : ∀ c ∈ l, c ≠ up) : walk up l = ⟨0, l.reverse⟩ := by
  induction l using List.reverseRecOn with
  | nil => rfl
  | append_singleton l c ih =>
    have hc : c ≠ up := h c (List.mem_append_right _ List.mem_cons_self)
    have hl := ih fun b hb => h b (List.mem_append_left _ hb)
    rw [walk] at hl ⊢
    rw [List.foldl_append, hl, List.foldl_cons, List.foldl_nil, step, if_neg hc, List.reverse_append]
    rfl

omit [DecidableEq α] in
/-- **Below a place** leads what takes back no more names than it goes down again, or than there are below the
root. -/
theorem below_iff (hp : ∀ c ∈ p.names, c ≠ up) (hq : ∀ c ∈ q.names, c ≠ up) (absolute : Bool) :
    (∃ rest, (p.andThen q).toList up absolute = p.toList up absolute ++ rest ∧ up ∉ rest) ↔
      (q.ups ≤ p.names.length ∨ absolute = true) ∧ p.names.take q.ups <:+ q.names := by
  have hup : ∀ rest, (q.names.reverse = rest) → up ∉ rest := by
    rintro rest rfl hmem
    exact hq up (List.mem_reverse.1 hmem) rfl
  by_cases hle : q.ups ≤ p.names.length
  · -- the names that stay are common to both
    have hthen : (p.andThen q).toList up absolute =
        (if absolute then [] else List.replicate p.ups up) ++ ((p.names.drop q.ups).reverse ++ q.names.reverse) := by
      rw [Place.andThen, if_pos hle, Place.toList, List.reverse_append]
    have hself : p.toList up absolute = (if absolute then [] else List.replicate p.ups up) ++
        ((p.names.drop q.ups).reverse ++ (p.names.take q.ups).reverse) := by
      rw [Place.toList, ← List.reverse_append, List.take_append_drop]
    constructor
    · rintro ⟨rest, heq, -⟩
      rw [hthen, hself, List.append_assoc, List.append_cancel_left_eq, List.append_assoc,
        List.append_cancel_left_eq] at heq
      refine ⟨.inl hle, ⟨rest.reverse, ?_⟩⟩
      have hrev := congrArg List.reverse heq
      rw [List.reverse_reverse, List.reverse_append, List.reverse_reverse] at hrev
      exact hrev.symm
    · rintro ⟨-, rest, heq⟩
      refine ⟨rest.reverse, ?_, fun hmem => ?_⟩
      · rw [hthen, hself, ← heq, List.reverse_append]
        simp only [List.append_assoc]
      · exact hq up (heq ▸ List.mem_append_left _ (List.mem_reverse.1 hmem)) rfl
  · have htake : p.names.take q.ups = p.names := List.take_of_length_le (by omega)
    rw [htake]
    cases absolute with
    | true =>
      have hthen : (p.andThen q).toList up true = q.names.reverse := by
        rw [Place.andThen, if_neg hle]
        rfl
      have hself : p.toList up true = p.names.reverse := rfl
      constructor
      · rintro ⟨rest, heq, -⟩
        rw [hthen, hself] at heq
        refine ⟨.inr rfl, ⟨rest.reverse, ?_⟩⟩
        have hrev := congrArg List.reverse heq
        rw [List.reverse_reverse, List.reverse_append, List.reverse_reverse] at hrev
        exact hrev.symm
      · rintro ⟨-, rest, heq⟩
        refine ⟨rest.reverse, ?_, fun hmem => ?_⟩
        · rw [hthen, hself, ← heq, List.reverse_append]
        · exact hq up (heq ▸ List.mem_append_left _ (List.mem_reverse.1 hmem)) rfl
    | false =>
      constructor
      · rintro ⟨rest, heq, hrest⟩
        -- the steps up that are left over would be names of `p`, or of the rest
        exfalso
        obtain ⟨k, hk⟩ : ∃ k, q.ups - p.names.length = k + 1 := ⟨q.ups - p.names.length - 1, by omega⟩
        have hthen : (p.andThen q).toList up false =
            List.replicate p.ups up ++ (up :: (List.replicate k up ++ q.names.reverse)) := by
          rw [Place.andThen, if_neg hle, hk, Place.toList, if_neg (by decide), List.replicate_add,
            List.append_assoc, List.replicate_succ, List.cons_append]
        have hself : p.toList up false = List.replicate p.ups up ++ p.names.reverse := rfl
        rw [hthen, hself, List.append_assoc, List.append_cancel_left_eq] at heq
        rcases hr : p.names.reverse with _ | ⟨b, r⟩
        · rw [hr, List.nil_append] at heq
          exact hrest (heq ▸ List.mem_cons_self)
        · rw [hr, List.cons_append] at heq
          obtain ⟨hb, -⟩ := List.cons.inj heq
          have hmem : b ∈ p.names := List.mem_reverse.1 (by rw [hr]; exact List.mem_cons_self)
          exact hp b hmem hb.symm
      · rintro ⟨habs | habs, -⟩
        · exact absurd habs hle
        · cases habs

end Climb
