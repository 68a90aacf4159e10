import Mathlib.Data.List.TakeWhile
import Mathlib.Logic.Function.Basic

/-!
# Intrusive singly linked lists

A list whose links are a field of its nodes: a head pointer and, for every node, a pointer to
the next one. Code walks such a list with a pointer to the link it looks at, and edits it
through that link. `Slot` is such a pointer.

`Chain.Spells c v l` says that following the links from the value `v` gives the nodes `l`, and
`Chain.Path c pp l pp'` that walking from the link `pp` over the nodes `l` ends at `pp'`.

* `seek_spec`: a walk passes over exactly the nodes that satisfy its test.
* `link_spells`, `unlink_spells`: what linking and unlinking a node at the walk's end does to
  the list of nodes.
-/

namespace Intrusive

variable {ν : Type*}

/-- A head pointer and the link field of every node. A null pointer is `none`. -/
@[ext] structure Chain (ν : Type*) where
  head : Option ν
  next : ν → Option ν

/-- Where a link is stored: in the head pointer or in a node. -/
inductive Slot (ν : Type*)
  | head
  | next (n : ν)
  deriving DecidableEq

namespace Chain

/-- `*pp` -/
def get (c : Chain ν) : Slot ν → Option ν
  | .head => c.head
  | .next n => c.next n

/-- Following the links from `v` gives the nodes `l`, then null. -/
def Spells (c : Chain ν) : Option ν → List ν → Prop
  | v, [] => v = none
  | v, n :: l => v = some n ∧ c.Spells (c.next n) l

/-- Walking from the link `pp` over the nodes `l` ends at the link `pp'`. -/
def Path (c : Chain ν) : Slot ν → List ν → Slot ν → Prop
  | pp, [], pp' => pp = pp'
  | pp, n :: l, pp' => c.get pp = some n ∧ c.Path (.next n) l pp'

/-- `while (*pp && p(*pp)) pp = &(*pp)->next;` with at most `fuel` evaluations of the test. -/
def seek (c : Chain ν) (p : ν → Bool) : ℕ → Slot ν → Option (Slot ν)
  | 0, _ => none
  | fuel + 1, pp =>
    match c.get pp with
    | none => some pp
    | some n => if p n then c.seek p fuel (.next n) else some pp

variable {c c' : Chain ν} {v : Option ν} {n : ν} {pp pp' : Slot ν} {l l' : List ν}
  {p : ν → Bool} {fuel : ℕ}

theorem Spells.congr (h : c.Spells v l) (hn : ∀ m ∈ l, c'.next m = c.next m) : c'.Spells v l := by
  induction l generalizing v with
  | nil => exact h
  | cons m l ih =>
    obtain ⟨hv, hl⟩ := h
    refine ⟨hv, ?_⟩
    rw [hn m List.mem_cons_self]
    exact ih hl fun k hk => hn k (List.mem_cons_of_mem m hk)

theorem Spells.unique (h : c.Spells v l) (h' : c.Spells v l') : l = l' := by
  induction l generalizing v l' with
  | nil =>
    cases l' with
    | nil => rfl
    | cons m l' =>
      have hv := h.symm.trans h'.1
      cases hv
  | cons n l ih =>
    cases l' with
    | nil =>
      have hv := h.1.symm.trans h'
      cases hv
    | cons m l' =>
      have hv := h.1.symm.trans h'.1
      cases hv
      rw [ih h.2 h'.2]

section

variable (h : c.Path pp l pp')

include h

theorem Path.spells (h' : c.Spells (c.get pp') l') : c.Spells (c.get pp) (l ++ l') := by
  induction l generalizing pp with
  | nil =>
    cases h
    exact h'
  | cons n l ih => exact ⟨h.1, ih h.2⟩

theorem Path.append {pp'' : Slot ν} (h' : c.Path pp' l' pp'') : c.Path pp (l ++ l') pp'' := by
  induction l generalizing pp with
  | nil =>
    cases h
    exact h'
  | cons n l ih => exact ⟨h.1, ih h.2⟩

/-- A walk over at least one node ends at the link of one of these nodes. -/
theorem Path.end_eq : pp' = pp ∨ ∃ m ∈ l, pp' = .next m := by
  induction l generalizing pp with
  | nil => exact .inl h.symm
  | cons n l ih =>
    refine .inr ?_
    obtain rfl | ⟨m, hm, rfl⟩ := ih h.2
    · exact ⟨n, List.mem_cons_self, rfl⟩
    · exact ⟨m, List.mem_cons_of_mem n hm, rfl⟩

/-- Edits at the end of a walk, and outside its nodes, leave the walk as it is. -/
theorem Path.congr (hnd : l.Nodup) (hpp : ∀ m ∈ l, pp ≠ .next m)
    (hc : ∀ q, q ≠ pp' → (q = pp ∨ ∃ m ∈ l, q = .next m) → c'.get q = c.get q) : c'.Path pp l pp' := by
  induction l generalizing pp with
  | nil => exact h
  | cons n l ih =>
    obtain ⟨hget, hpath⟩ := h
    rw [List.nodup_cons] at hnd
    have hend : pp ≠ pp' := by
      -- the end is the link of one of the nodes, and `pp` is none of these
      obtain rfl | ⟨m, hm, rfl⟩ := hpath.end_eq
      · exact hpp n List.mem_cons_self
      · exact hpp m (List.mem_cons_of_mem n hm)
    refine ⟨by rw [hc pp hend (.inl rfl), hget], ih hpath hnd.2 ?_ ?_⟩
    · intro m hm heq
      cases heq
      exact hnd.1 hm
    · intro q hq hql
      refine hc q hq (.inr ?_)
      obtain rfl | ⟨m, hm, rfl⟩ := hql
      · exact ⟨n, List.mem_cons_self, rfl⟩
      · exact ⟨m, List.mem_cons_of_mem n hm, rfl⟩

end

/-- **A walk** passes over the nodes that satisfy the test and stops at the first that does not. -/
theorem seek_spec (h : c.Spells (c.get pp) l) (hs : c.seek p fuel pp = some pp') :
    c.Path pp (l.takeWhile p) pp' ∧ c.Spells (c.get pp') (l.dropWhile p) := by
  induction fuel generalizing pp l with
  | zero => cases hs
  | succ fuel ih =>
    cases l with
    | nil =>
      have hv : c.get pp = none := h
      simp only [seek, hv, Option.some.injEq] at hs
      subst hs
      exact ⟨rfl, hv⟩
    | cons n l =>
      obtain ⟨hv, hl⟩ := h
      simp only [seek, hv] at hs
      by_cases hp : p n = true
      · rw [if_pos hp] at hs
        have hl' : c.Spells (c.get (.next n)) l := hl
        obtain ⟨h1, h2⟩ := ih hl' hs
        rw [List.takeWhile_cons_of_pos hp, List.dropWhile_cons_of_pos hp]
        exact ⟨⟨hv, h1⟩, h2⟩
      · rw [if_neg hp, Option.some.injEq] at hs
        subst hs
        rw [List.takeWhile_cons_of_neg hp, List.dropWhile_cons_of_neg hp]
        exact ⟨rfl, hv, hl⟩

theorem next_eq_get (c : Chain ν) (n : ν) : c.next n = c.get (.next n) := rfl

/-- A walk from the head never looks at the link of a node outside it. -/
theorem Path.next_ne (h : c.Path .head l pp) (hn : n ∉ l) : Slot.next n ≠ pp := by
  intro heq
  subst heq
  obtain heq | ⟨m, hm, heq⟩ := h.end_eq
  · cases heq
  · cases heq
    exact hn hm

theorem Path.keep (h : c.Path .head l pp) (hnd : l.Nodup) (hn : n ∉ l)
    (hc : ∀ q, q ≠ pp → q ≠ .next n → c'.get q = c.get q) : c'.Path .head l pp := by
  refine h.congr hnd (by simp) fun q hq hql => hc q hq ?_
  rintro rfl
  obtain heq | ⟨m, hm, heq⟩ := hql
  · cases heq
  · cases heq
    exact hn hm

theorem Spells.keep (h : c.Spells v l) (hpp : ∀ m ∈ l, Slot.next m ≠ pp) (hn : n ∉ l)
    (hc : ∀ q, q ≠ pp → q ≠ .next n → c'.get q = c.get q) : c'.Spells v l := by
  refine h.congr fun m hm => hc (.next m) (hpp m hm) ?_
  intro heq
  cases heq
  exact hn hm

/-- The link behind the last of the nodes `l`. -/
def lastSlot (l : List ν) : Slot ν :=
  match l.getLast? with
  | none => .head
  | some m => .next m

theorem lastSlot_cons (n : ν) (l : List ν) : lastSlot (n :: l) = .next (l.getLast?.getD n) := by
  rw [lastSlot, List.getLast?_cons]

theorem path_lastSlot {l' : List ν} (h : c.Spells v (l ++ l')) (hpp : c.get pp = v) :
    ∃ pp', c.Path pp l pp' ∧ c.Spells (c.get pp') l' ∧ pp' = l.getLast?.elim pp .next := by
  induction l generalizing v pp with
  | nil => exact ⟨pp, rfl, hpp ▸ h, rfl⟩
  | cons n l ih =>
    obtain ⟨hv, hl⟩ := h
    obtain ⟨pp', hpath, hspells, heq⟩ := ih hl (next_eq_get c n).symm
    refine ⟨pp', ⟨hpp.trans hv, hpath⟩, hspells, heq.trans ?_⟩
    rw [List.getLast?_cons]
    cases l.getLast? <;> rfl

theorem Spells.split {l' : List ν} (h : c.Spells c.head (l ++ l')) :
    c.Path .head l (lastSlot l) ∧ c.Spells (c.get (lastSlot l)) l' := by
  have hhead : c.get .head = c.head := rfl
  obtain ⟨pp', hpath, hspells, heq⟩ := path_lastSlot h hhead
  have hlast : pp' = lastSlot l := by
    rw [heq, lastSlot]
    cases l.getLast? <;> rfl
  exact hlast ▸ ⟨hpath, hspells⟩

theorem Spells.next_last (h : c.Spells v l) (hn : l.getLast? = some n) : c.next n = none := by
  obtain ⟨a, rfl⟩ := List.getLast?_eq_some_iff.1 hn
  clear hn
  induction a generalizing v with
  | nil => exact h.2
  | cons m a ih => exact ih h.2

/-- **Appending** a new node: only the last link changes. -/
theorem Spells.append (h : c.Spells c.head l) (hnd : l.Nodup) (hn : c'.next n = none)
    (hlast : c'.get (lastSlot l) = some n)
    (hget : ∀ r, r ≠ lastSlot l → (∀ m, r = .next m → m ∈ l) → c'.get r = c.get r) : c'.Spells c'.head (l ++ [n]) := by
  rw [← List.append_nil l] at h
  obtain ⟨hpath, -⟩ := h.split
  have hpath' : c'.Path .head l (lastSlot l) := by
    refine hpath.congr hnd (by simp) fun r hr hrl => hget r hr ?_
    rintro m rfl
    obtain hm | ⟨k, hk, hm⟩ := hrl
    · cases hm
    · cases hm
      exact hk
  exact hpath'.spells ⟨hlast, hn⟩

variable {a b : List ν}

/-- **Taking out** a node: only the link to it changes. -/
theorem Spells.erase (h : c.Spells c.head (a ++ n :: b)) (hnd : (a ++ n :: b).Nodup)
    (hlast : c'.get (lastSlot a) = c.next n)
    (hget : ∀ r, r ≠ lastSlot a → (∀ m, r = .next m → m ∈ a ++ b) → c'.get r = c.get r) :
    c'.Spells c'.head (a ++ b) := by
  obtain ⟨hpath, hspells⟩ := h.split
  obtain ⟨hnda, -, hab⟩ := List.nodup_append.1 hnd
  have hpath' : c'.Path .head a (lastSlot a) := by
    refine hpath.congr hnda (by simp) fun r hr hrl => hget r hr ?_
    rintro m rfl
    obtain hm | ⟨k, hk, hm⟩ := hrl
    · cases hm
    · cases hm
      exact List.mem_append_left _ hk
  refine hpath'.spells ?_
  rw [hlast]
  refine hspells.2.congr fun m hm => hget (.next m) (fun heq => ?_) (fun k hk => ?_)
  · -- the link to the node lies before it
    obtain heq' | ⟨k, hk, heq'⟩ := hpath.end_eq
    · rw [heq'] at heq
      cases heq
    · rw [heq'] at heq
      cases heq
      exact hab _ hk _ (List.mem_cons_of_mem _ hm) rfl
  · cases hk
    exact List.mem_append_right _ hm

variable [DecidableEq ν]

/-- `*pp = v;` -/
def set (c : Chain ν) : Slot ν → Option ν → Chain ν
  | .head, v => { c with head := v }
  | .next n, v => { c with next := Function.update c.next n v }

/-- `n->next = *pp; *pp = n;` -/
def link (c : Chain ν) (pp : Slot ν) (n : ν) : Chain ν := (c.set (.next n) (c.get pp)).set pp (some n)

/-- `*pp = n->next; n->next = nullptr;` -/
def unlink (c : Chain ν) (pp : Slot ν) (n : ν) : Chain ν := (c.set pp (c.next n)).set (.next n) none

section

variable (c : Chain ν) (pp q : Slot ν)

theorem get_set (v : Option ν) : (c.set pp v).get q = if q = pp then v else c.get q := by
  cases pp with
  | head => cases q <;> simp [set, get]
  | next n =>
    cases q with
    | head => simp [set, get]
    | next m => simp [set, get, Function.update_apply]

theorem get_link (n : ν) :
    (c.link pp n).get q = if q = pp then some n else if q = .next n then c.get pp else c.get q := by
  simp only [link, get_set]

theorem get_unlink (n : ν) :
    (c.unlink pp n).get q = if q = .next n then none else if q = pp then c.next n else c.get q := by
  simp only [unlink, get_set]

end

/-- **Linking** a new node at the end of a walk puts it behind the nodes walked over. -/
theorem link_spells (ha : c.Path .head a pp) (hb : c.Spells (c.get pp) b) (hnd : (a ++ b).Nodup) (hn : n ∉ a ++ b) :
    (c.link pp n).Path .head a pp ∧ (c.link pp n).Spells ((c.link pp n).get pp) (n :: b) := by
  rw [List.mem_append, not_or] at hn
  obtain ⟨hnda, -, hab⟩ := List.nodup_append.1 hnd
  have hpp : Slot.next n ≠ pp := ha.next_ne hn.1
  have hkeep : ∀ q, q ≠ pp → q ≠ .next n → (c.link pp n).get q = c.get q := by
    intro q hq hqn
    rw [get_link, if_neg hq, if_neg hqn]
  refine ⟨ha.keep hnda hn.1 hkeep, by rw [get_link, if_pos rfl], ?_⟩
  rw [next_eq_get, get_link, if_neg hpp, if_pos rfl]
  exact hb.keep (fun m hm => ha.next_ne fun h => hab m h m hm rfl) hn.2 hkeep

/-- **Unlinking** the node at the end of a walk takes it out of the list. -/
theorem unlink_spells (ha : c.Path .head a pp) (hb : c.Spells (c.get pp) (n :: b)) (hnd : (a ++ n :: b).Nodup) :
    (c.unlink pp n).Path .head a pp ∧ (c.unlink pp n).Spells ((c.unlink pp n).get pp) b := by
  obtain ⟨-, hb⟩ := hb
  obtain ⟨hnda, hndb, hab⟩ := List.nodup_append.1 hnd
  have hna : n ∉ a := fun h => hab n h n List.mem_cons_self rfl
  have hnb : n ∉ b := (List.nodup_cons.1 hndb).1
  have hpp : Slot.next n ≠ pp := ha.next_ne hna
  have hkeep : ∀ q, q ≠ pp → q ≠ .next n → (c.unlink pp n).get q = c.get q := by
    intro q hq hqn
    rw [get_unlink, if_neg hqn, if_neg hq]
  refine ⟨ha.keep hnda hna hkeep, ?_⟩
  rw [get_unlink, if_neg hpp.symm, if_pos rfl]
  exact hb.keep (fun m hm => ha.next_ne fun h => hab m h m (List.mem_cons_of_mem n hm) rfl) hnb hkeep

end Chain

end Intrusive
