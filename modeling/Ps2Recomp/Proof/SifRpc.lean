import Ps2Recomp.Spec.SifRpc

/-!
# Fields of records

Reads of a field behind assignments to fields, where the records of a `Layout` do not overlap:
`field_setWord`, `field_setWords`.
-/

namespace Ps2Recomp.SifRpc

open Memory VSync

variable {m : GuestMemory} {p q : HostPtr} {i j : ℕ} {v : Word}

theorem word_setWord_self : word (setWord m p i v) p i = v := by
  rw [word, setWord, GuestMemory.area_setArea, if_pos rfl, Bytes.load_store_self, Nat.mod_eq_of_lt v.isLt,
    BitVec.ofNat_toNat, BitVec.setWidth_eq]

theorem word_setWord_off (h : q.scratch = p.scratch →
    q.offset + 4 * j + 4 ≤ p.offset + 4 * i ∨ p.offset + 4 * i + 4 ≤ q.offset + 4 * j) :
    word (setWord m p i v) q j = word m q j := by
  rw [word, setWord, GuestMemory.area_setArea]
  by_cases hs : q.scratch = p.scratch
  · rw [if_pos hs, word, hs]
    refine congrArg _ (Bytes.load_congr fun r hr hr' => Bytes.store_off ?_)
    have := h hs
    omega
  · rw [if_neg hs, word]

section Layout

variable {κ : Type} {words : κ → ℕ} {spr : Bool} (L : Layout words spr) {a b : Word} {k k' : κ}

section

variable (ha : L.kind a = some k)

include ha

theorem Layout.field_eq (m : GuestMemory) (i : ℕ) : field spr m a i = word m (L.ptr a) i := by
  rw [field, L.resolves ha]

/-- Records of two kinds are two records. -/
theorem Layout.ne_of_kind (hb : L.kind b = some k') (h : k ≠ k') : a ≠ b := by
  rintro rfl
  exact h (Option.some_inj.1 (ha.symm.trans hb))

section

variable (hi : i < words k) (hb : L.kind b = some k') (hj : j < words k')

include hi hb hj

/-- **An assignment** to a field of a record changes that field only. -/
theorem Layout.field_setWord :
    field spr (setWord m (L.ptr a) i v) b j = if b = a ∧ j = i then v else field spr m b j := by
  rw [L.field_eq hb, L.field_eq hb]
  by_cases hba : b = a
  · subst hba
    by_cases hji : j = i
    · subst hji
      rw [if_pos ⟨rfl, rfl⟩, word_setWord_self]
    · rw [if_neg fun h => hji h.2]
      exact word_setWord_off fun _ => by omega
  · rw [if_neg fun h => hba h.1]
    refine word_setWord_off fun hs => ?_
    have := L.apart hb ha hba hs
    omega

theorem Layout.field_setWord_ne (hne : b = a → j ≠ i) : field spr (setWord m (L.ptr a) i v) b j = field spr m b j := by
  rw [L.field_setWord ha hi hb hj, if_neg fun h => hne h.1 h.2]

end

section

variable {l : List (ℕ × Word)} (hl : ∀ e ∈ l, e.1 < words k)

include hl

/-- Assignments to a record leave the others alone. -/
theorem Layout.field_setWords_ne (hb : L.kind b = some k') (hj : j < words k') (hne : b ≠ a) :
    field spr (setWords m (L.ptr a) l) b j = field spr m b j := by
  induction l generalizing m with
  | nil => rfl
  | cons e l ih =>
    rw [setWords, List.foldl_cons, ← setWords, ih fun e he => hl e (List.mem_cons_of_mem _ he)]
    exact L.field_setWord_ne ha (hl e List.mem_cons_self) hb hj fun h => absurd h hne

theorem Layout.field_setWords_self (hj : j < words k) :
    field spr (setWords m (L.ptr a) l) a j = (l.reverse.lookup j).getD (field spr m a j) := by
  induction l using List.reverseRecOn with
  | nil => rfl
  | append_singleton l e ih =>
    have hl' : ∀ e ∈ l, e.1 < words k := fun e he => hl e (List.mem_append_left _ he)
    have he : e.1 < words k := hl e (List.mem_append_right _ List.mem_cons_self)
    rw [setWords, List.foldl_append, List.foldl_cons, List.foldl_nil, ← setWords, L.field_setWord ha he ha hj,
      ih hl', List.reverse_append, List.reverse_singleton, List.singleton_append, List.lookup_cons]
    by_cases hje : j = e.1
    · rw [if_pos ⟨rfl, hje⟩, hje, BEq.rfl]
      rfl
    · rw [if_neg fun h => hje h.2, beq_eq_false_iff_ne.2 hje]

end

end

end Layout

end Ps2Recomp.SifRpc
