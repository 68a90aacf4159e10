import Mathlib.Data.List.Basic

/-!
# Stable sorting

What a stable sort is promised to do: with a comparison that is a strict weak ordering on the elements
of a list, it returns them in order, and keeps the order of those that tie. There is such a sort
(`sorts_sort`).
-/

namespace Ps2Recomp.Stable

variable {α : Type*}

/-- Neither comes before the other. -/
def Ties (lt : α → α → Bool) (a b : α) : Prop := lt a b = false ∧ lt b a = false

instance (lt : α → α → Bool) (a b : α) : Decidable (Ties lt a b) := inferInstanceAs (Decidable (_ ∧ _))

/-- **A strict weak ordering** on the elements of a list. -/
structure WeakOrder (lt : α → α → Bool) (l : List α) : Prop where
  irrefl : ∀ a ∈ l, lt a a = false
  trans : ∀ a ∈ l, ∀ b ∈ l, ∀ c ∈ l, lt a b = true → lt b c = true → lt a c = true
  ties_trans : ∀ a ∈ l, ∀ b ∈ l, ∀ c ∈ l, Ties lt a b → Ties lt b c → Ties lt a c

/-- **What a stable sort returns.** -/
structure Sorts (lt : α → α → Bool) (l l' : List α) : Prop where
  perm : l'.Perm l
  ordered : l'.Pairwise fun a b => lt b a = false
  stable : ∀ a ∈ l, l'.filter (fun b => decide (Ties lt a b)) = l.filter fun b => decide (Ties lt a b)

variable {lt : α → α → Bool} {l : List α}

theorem WeakOrder.asymm (h : WeakOrder lt l) {a b : α} (ha : a ∈ l) (hb : b ∈ l) (hab : lt a b = true) :
    lt b a = false := by
  rw [← Bool.not_eq_true]
  intro hba
  have := h.trans a ha b hb a ha hab hba
  rw [h.irrefl a ha] at this
  cases this

theorem WeakOrder.le_trans (h : WeakOrder lt l) {a b c : α} (ha : a ∈ l) (hb : b ∈ l) (hc : c ∈ l)
    (hab : lt b a = false) (hbc : lt c b = false) : lt c a = false := by
  rw [← Bool.not_eq_true]
  intro hca
  by_cases hab' : lt a b = true
  · have := h.trans c hc a ha b hb hca hab'
    rw [hbc] at this
    cases this
  · by_cases hbc' : lt b c = true
    · have := h.trans b hb c hc a ha hbc' hca
      rw [hab] at this
      cases this
    · have hties := h.ties_trans a ha b hb c hc ⟨Bool.eq_false_iff.2 hab', hab⟩ ⟨Bool.eq_false_iff.2 hbc', hbc⟩
      rw [hties.2] at hca
      cases hca

/-- A stable sort: by merging, with the comparison on the elements of the list. -/
def sort (lt : α → α → Bool) (l : List α) : List α :=
  (l.attach.mergeSort fun a b => !lt b.1 a.1).map Subtype.val

/-- Elements that tie with one are in order. -/
theorem ties_pairwise (h : WeakOrder lt l) {a : α} (ha : a ∈ l) :
    (l.attach.filter fun b => decide (Ties lt a b.1)).Pairwise fun b c => (!lt c.1 b.1) = true := by
  refine List.pairwise_of_forall_mem_list fun b hb c hc => ?_
  rw [List.mem_filter, decide_eq_true_eq] at hb hc
  rw [h.le_trans b.2 ha c.2 hb.2.1 hc.2.2]
  rfl

/-- **It sorts.** -/
theorem sorts_sort (h : WeakOrder lt l) : Sorts lt l (sort lt l) := by
  have htrans : ∀ a b c : { x // x ∈ l }, (!lt b.1 a.1) = true → (!lt c.1 b.1) = true →
      (!lt c.1 a.1) = true := by
    intro a b c hab hbc
    rw [Bool.not_eq_true'] at hab hbc ⊢
    exact h.le_trans a.2 b.2 c.2 hab hbc
  have htotal : ∀ a b : { x // x ∈ l }, (!lt b.1 a.1 || !lt a.1 b.1) = true := by
    intro a b
    cases hab : lt a.1 b.1 with
    | false => simp
    | true => simp [h.asymm a.2 b.2 hab]
  constructor
  case perm =>
    have := (List.mergeSort_perm l.attach fun a b => !lt b.1 a.1).map Subtype.val
    rwa [List.attach_map_subtype_val] at this
  case ordered =>
    rw [sort, List.pairwise_map]
    refine (List.pairwise_mergeSort htrans htotal l.attach).imp fun hab => ?_
    rwa [Bool.not_eq_true'] at hab
  case stable =>
    intro a ha
    -- the ones that tie are a sublist of the result, and as many as in the result
    have hsub := List.sublist_mergeSort htrans htotal (ties_pairwise h ha) List.filter_sublist
    have hperm := (List.mergeSort_perm l.attach fun a b => !lt b.1 a.1).filter fun b => decide (Ties lt a b.1)
    have heq := (hsub.filter fun b => decide (Ties lt a b.1)).eq_of_length_le (by
      rw [hperm.length_eq, List.filter_filter]
      simp)
    have hval := congrArg (List.map Subtype.val) heq
    rw [List.filter_filter] at hval
    simp only [Bool.and_self] at hval
    rw [sort, List.filter_map]
    refine hval.symm.trans ?_
    have hmap := List.filter_map (f := Subtype.val) (p := fun b => decide (Ties lt a b)) (l := l.attach)
    rw [List.attach_map_subtype_val] at hmap
    exact hmap.symm

end Ps2Recomp.Stable
