import Mathlib.Data.List.Chain
import Mathlib.Data.List.Count
import Mathlib.Logic.Relation

/-!
# Goto programs

A goto program is a list of items run from the top: an item goes on to the next
one, jumps to the item that defines a label, or leaves. Nothing here depends on
what items and states are.

* `seq`: a straight run through a list of items.
* `Step`, `Reach`: the executions, over positions in the list.
* `Outline`: Floyd's method, with an assertion in front of every item.
* `Closed`: every label that is jumped to is defined exactly once.
* `ends`, `seq_covered`: how code may end, and that its runs end so.
* `NoBypass`: no jump goes forward over a declaration.
-/

namespace Goto

universe u v w x

/-- How an item ends. -/
inductive Flow (Λ : Type v) (ε : Type x)
  | next
  | goto (l : Λ)
  | exit (e : ε)
  deriving DecidableEq, Repr

/-- A language of items. -/
structure Lang (ι : Type u) (Λ : Type v) (σ : Type w) (ε : Type x) where
  /-- The label an item defines. -/
  label : ι → Option Λ
  /-- One execution of an item. -/
  exec : ι → σ → σ × Flow Λ ε

variable {ι : Type u} {Λ : Type v} {σ : Type w} {ε : Type x}

/-! ## Sequences -/

/-- Go on with `f` after a `next`, and pass on everything else. -/
def andThen (r : σ × Flow Λ ε) (f : σ → σ × Flow Λ ε) : σ × Flow Λ ε :=
  match r with
  | (s, .next) => f s
  | r => r

@[simp] theorem andThen_next (s : σ) (f : σ → σ × Flow Λ ε) : andThen (s, .next) f = f s := rfl

@[simp] theorem andThen_goto (s : σ) (l : Λ) (f : σ → σ × Flow Λ ε) : andThen (s, .goto l) f = (s, .goto l) := rfl

@[simp] theorem andThen_exit (s : σ) (e : ε) (f : σ → σ × Flow Λ ε) : andThen (s, .exit e) f = (s, .exit e) := rfl

@[simp] theorem andThen_pure (r : σ × Flow Λ ε) : andThen r (fun s => (s, .next)) = r := by
  rcases r with ⟨s, _ | _ | _⟩ <;> rfl

theorem andThen_assoc (r : σ × Flow Λ ε) (f g : σ → σ × Flow Λ ε) :
    andThen (andThen r f) g = andThen r (fun s => andThen (f s) g) := by
  rcases r with ⟨s, _ | _ | _⟩ <;> rfl

/-- The items of a list one after the other, up to the first that does not go on. -/
def seq (exec : ι → σ → σ × Flow Λ ε) (s : σ) : List ι → σ × Flow Λ ε
  | [] => (s, .next)
  | i :: rest => andThen (exec i s) (fun s' => seq exec s' rest)

section

variable (exec : ι → σ → σ × Flow Λ ε) (s : σ)

@[simp] theorem seq_nil : seq exec s [] = (s, .next) := rfl

@[simp] theorem seq_cons (i : ι) (l : List ι) :
    seq exec s (i :: l) = andThen (exec i s) (fun s' => seq exec s' l) := rfl

@[simp] theorem seq_append (l l' : List ι) :
    seq exec s (l ++ l') = andThen (seq exec s l) (fun s' => seq exec s' l') := by
  induction l generalizing s with
  | nil => rfl
  | cons i l ih => simp only [List.cons_append, seq_cons, ih, andThen_assoc]

end

theorem andThen_eq_next {r : σ × Flow Λ ε} {f : σ → σ × Flow Λ ε} {s' : σ}
    (h : andThen r f = (s', .next)) : ∃ s, r = (s, .next) ∧ f s = (s', .next) := by
  obtain ⟨s, _ | l | e⟩ := r
  · exact ⟨s, rfl, h⟩
  · cases h
  · cases h

/-! ## How code may end

A static summary of straight code: the ways in which it may end (`none` for going on to
what follows), each with a mark for whether something of interest was passed on the way. -/

/-- Go on with `f` where `r` goes on. -/
def endThen (r : List (Option Λ × Bool)) (f : Bool → List (Option Λ × Bool)) : List (Option Λ × Bool) :=
  r.flatMap fun x => match x.1 with
    | none => f x.2
    | some _ => [x]

/-- The ends of a list of items, from those of an item. -/
def ends (f : ι → Bool → List (Option Λ × Bool)) : List ι → Bool → List (Option Λ × Bool)
  | [], m => [(none, m)]
  | i :: l, m => endThen (f i m) (ends f l)

variable {f : ι → Bool → List (Option Λ × Bool)}

@[simp] theorem endThen_nil (g : Bool → List (Option Λ × Bool)) : endThen [] g = [] := rfl

@[simp] theorem endThen_none (m : Bool) (g : Bool → List (Option Λ × Bool)) : endThen [(none, m)] g = g m := by
  simp [endThen]

@[simp] theorem endThen_some (l : Λ) (m : Bool) (g : Bool → List (Option Λ × Bool)) :
    endThen [(some l, m)] g = [(some l, m)] := by
  simp [endThen]

theorem mem_endThen {r : List (Option Λ × Bool)} {g : Bool → List (Option Λ × Bool)} {x : Option Λ × Bool} :
    x ∈ endThen r g ↔ (x ∈ r ∧ x.1 ≠ none) ∨ ∃ m, (none, m) ∈ r ∧ x ∈ g m := by
  unfold endThen
  rw [List.mem_flatMap]
  constructor
  · rintro ⟨⟨_ | l, m⟩, hy, hx⟩
    · exact .inr ⟨m, hy, hx⟩
    · rw [List.mem_singleton] at hx
      subst hx
      exact .inl ⟨hy, by simp⟩
  · rintro (⟨hx, hne⟩ | ⟨m, hm, hx⟩)
    · obtain ⟨_ | l, m⟩ := x
      · exact absurd rfl hne
      · exact ⟨_, hx, List.mem_singleton_self _⟩
    · exact ⟨_, hm, hx⟩

theorem endThen_append (r r' : List (Option Λ × Bool)) (g : Bool → List (Option Λ × Bool)) :
    endThen (r ++ r') g = endThen r g ++ endThen r' g := by
  simp [endThen]

theorem endThen_assoc (r : List (Option Λ × Bool)) (g h : Bool → List (Option Λ × Bool)) :
    endThen (endThen r g) h = endThen r fun m => endThen (g m) h := by
  induction r with
  | nil => rfl
  | cons x r ih =>
    have hx := endThen_append [x] r
    rw [List.singleton_append] at hx
    rw [hx, hx, endThen_append, ih]
    obtain ⟨_ | l, m⟩ := x <;> simp

@[simp] theorem ends_nil (m : Bool) : ends f [] m = [(none, m)] := rfl

@[simp] theorem ends_cons (i : ι) (l : List ι) (m : Bool) : ends f (i :: l) m = endThen (f i m) (ends f l) := rfl

theorem ends_singleton (i : ι) (m : Bool) : ends f [i] m = f i m := by
  rw [ends_cons]
  generalize f i m = r
  induction r with
  | nil => rfl
  | cons x r ih =>
    rw [← List.singleton_append, endThen_append, ih]
    obtain ⟨_ | l, m⟩ := x <;> simp

theorem ends_append (l l' : List ι) (m : Bool) : ends f (l ++ l') m = endThen (ends f l m) (ends f l') := by
  induction l generalizing m with
  | nil => simp
  | cons i l ih =>
    rw [List.cons_append, ends_cons, ends_cons, endThen_assoc]
    congr 1
    funext m
    exact ih m

theorem ends_quiet {l : List ι} (h : ∀ i ∈ l, ∀ m, f i m = [(none, m)]) (m : Bool) : ends f l m = [(none, m)] := by
  induction l generalizing m with
  | nil => rfl
  | cons i l ih =>
    rw [ends_cons, h i List.mem_cons_self, endThen_none]
    exact ih (fun j hj => h j (List.mem_cons_of_mem _ hj)) m

/-- The result `r` is among the ends `E`, and a mark stands for `P`. -/
def Covered (P : σ → Prop) (r : σ × Flow Λ ε) (E : List (Option Λ × Bool)) : Prop :=
  match r.2 with
  | .next => ∃ m, (none, m) ∈ E ∧ (m = true → P r.1)
  | .goto l => ∃ m, (some l, m) ∈ E ∧ (m = true → P r.1)
  | .exit _ => True

theorem Covered.mono {P : σ → Prop} {r : σ × Flow Λ ε} {E E' : List (Option Λ × Bool)}
    (h : Covered P r E) (hE : ∀ x ∈ E, x ∈ E') : Covered P r E' := by
  obtain ⟨s, _ | l | e⟩ := r
  · obtain ⟨m, hm, hP⟩ := h
    exact ⟨m, hE _ hm, hP⟩
  · obtain ⟨m, hm, hP⟩ := h
    exact ⟨m, hE _ hm, hP⟩
  · trivial

theorem Covered.andThen {P : σ → Prop} {r : σ × Flow Λ ε} {E : List (Option Λ × Bool)} (h : Covered P r E)
    {g : σ → σ × Flow Λ ε} {G : Bool → List (Option Λ × Bool)} (hg : ∀ s m, (m = true → P s) → Covered P (g s) (G m)) :
    Covered P (andThen r g) (endThen E G) := by
  obtain ⟨s, _ | l | e⟩ := r
  · obtain ⟨m, hm, hP⟩ := h
    exact (hg s m hP).mono fun x hx => List.mem_flatMap.2 ⟨_, hm, hx⟩
  · obtain ⟨m, hm, hP⟩ := h
    exact ⟨m, List.mem_flatMap.2 ⟨_, hm, List.mem_singleton_self _⟩, hP⟩
  · trivial

/-- **The ends of a list cover its runs** if those of its items do. -/
theorem seq_covered {P : σ → Prop} {exec : ι → σ → σ × Flow Λ ε} {l : List ι}
    (h : ∀ i ∈ l, ∀ s m, (m = true → P s) → Covered P (exec i s) (f i m)) {s : σ} {m : Bool}
    (hm : m = true → P s) : Covered P (seq exec s l) (ends f l m) := by
  induction l generalizing s m with
  | nil => exact ⟨m, List.mem_singleton_self _, hm⟩
  | cons i l ih =>
    exact (h i List.mem_cons_self s m hm).andThen fun s m hm =>
      ih (fun j hj => h j (List.mem_cons_of_mem _ hj)) hm

/-! ## Cycles -/

theorem not_cycle_of_lt {α : Type*} {r : α → α → Prop} {f : α → ℕ} (h : ∀ a b, r a b → f a < f b)
    (a : α) : ¬ Relation.TransGen r a a := by
  intro hc
  have hlt : ∀ b, Relation.TransGen r a b → f a < f b := by
    intro b hb
    induction hb with
    | single hab => exact h _ _ hab
    | tail _ hbc ih => exact ih.trans (h _ _ hbc)
  exact lt_irrefl _ (hlt a hc)

/-! ## Proof outlines

Floyd's method: put an assertion in front of every item. In an outline each assertion
carries over to the next one, and an assertion at a label holds of every state, since a
jump may come from anywhere. -/

/-- `A` is an outline between `P` and `Q`. -/
def Outline (L : Lang ι Λ σ ε) : (σ → Prop) → List (ι × (σ → Prop)) → (σ → Prop) → Prop
  | P, [], Q => ∀ s, P s → Q s
  | P, a :: A, Q => (∀ s, P s → a.2 s) ∧ (∀ l, L.label a.1 = some l → ∀ s, a.2 s) ∧
      Outline L (fun s' => ∃ s, a.2 s ∧ L.exec a.1 s = (s', .next)) A Q

section Outline

variable {L : Lang ι Λ σ ε} {P P' Q R : σ → Prop} {A B : List (ι × (σ → Prop))}

section

variable (h : Outline L P A Q)

include h

theorem Outline.weaken (hp : ∀ s, P' s → P s) : Outline L P' A Q := by
  cases A with
  | nil => exact fun s hs => h s (hp s hs)
  | cons a A => exact ⟨fun s hs => h.1 s (hp s hs), h.2⟩

theorem Outline.append (h' : Outline L Q B R) : Outline L P (A ++ B) R := by
  induction A generalizing P with
  | nil => exact h'.weaken h
  | cons a A ih => exact ⟨h.1, h.2.1, ih h.2.2⟩

theorem Outline.post (hq : ∀ s, Q s → R s) : Outline L P A R := by
  have h' := h.append (B := []) hq
  rwa [List.append_nil] at h'

end

theorem Outline.of_keep {l : List ι} (hl : ∀ i ∈ l, L.label i = none)
    (h : ∀ i ∈ l, ∀ s s', P s → L.exec i s = (s', .next) → P s') :
    Outline L P (l.map fun i => (i, P)) P := by
  induction l with
  | nil => exact fun s hs => hs
  | cons i l ih =>
    refine ⟨fun s hs => hs, fun x hx => ?_, ?_⟩
    · rw [hl i List.mem_cons_self] at hx
      cases hx
    · refine (ih (fun j hj => hl j (List.mem_cons_of_mem _ hj)) fun j hj => h j (List.mem_cons_of_mem _ hj)).weaken ?_
      rintro s' ⟨s, hs, he⟩
      exact h i List.mem_cons_self s s' hs he

theorem Outline.trivial (l : List ι) : Outline L P (l.map fun i => (i, fun _ => True)) fun _ => True := by
  induction l generalizing P with
  | nil => exact fun s _ => True.intro
  | cons i l ih => exact ⟨fun s _ => True.intro, fun l _ s => True.intro, ih⟩

section

variable (h : Outline L P A Q)

include h

theorem Outline.next {n : ℕ} {a b : ι × (σ → Prop)} (ha : A[n]? = some a)
    (hb : A[n + 1]? = some b) {s s' : σ} (hs : a.2 s) (he : L.exec a.1 s = (s', .next)) : b.2 s' := by
  induction n generalizing A P with
  | zero =>
    obtain ⟨x, A, rfl⟩ : ∃ x A', A = x :: A' := List.exists_cons_of_ne_nil fun h => by simp [h] at ha
    rw [List.getElem?_cons_zero] at ha
    cases ha
    have h2 := h.2.2
    cases A with
    | nil => simp at hb
    | cons y A =>
      simp only [Nat.zero_add, List.getElem?_cons_succ, List.getElem?_cons_zero, Option.some.injEq] at hb
      subst hb
      exact h2.1 s' ⟨s, hs, he⟩
  | succ n ih =>
    obtain ⟨x, A, rfl⟩ : ∃ x A', A = x :: A' := List.exists_cons_of_ne_nil fun h => by simp [h] at ha
    rw [List.getElem?_cons_succ] at ha hb
    exact ih h.2.2 ha hb

theorem Outline.run {s s' : σ} (hs : P s) (he : seq L.exec s (A.map Prod.fst) = (s', .next)) : Q s' := by
  induction A generalizing P s with
  | nil =>
    cases he
    exact h _ hs
  | cons a A ih =>
    rw [List.map_cons, seq_cons] at he
    obtain ⟨t, ht, he⟩ := andThen_eq_next he
    exact ih h.2.2 ⟨s, h.1 s hs, ht⟩ he

section

variable {a : ι × (σ → Prop)}

theorem Outline.last (ha : A[A.length - 1]? = some a)
    {s s' : σ} (hs : a.2 s) (he : L.exec a.1 s = (s', .next)) : Q s' := by
  induction A generalizing P with
  | nil => simp at ha
  | cons x A ih =>
    cases A with
    | nil =>
      cases ha
      exact h.2.2 s' ⟨s, hs, he⟩
    | cons y A => exact ih h.2.2 ha

theorem Outline.first (ha : A[0]? = some a) {s : σ} (hs : P s) : a.2 s := by
  cases A with
  | nil => cases ha
  | cons x A =>
    cases ha
    exact h.1 s hs

theorem Outline.label (ha : a ∈ A) {l : Λ} (hl : L.label a.1 = some l) (s : σ) : a.2 s := by
  induction A generalizing P with
  | nil => cases ha
  | cons x A ih =>
    rcases List.mem_cons.1 ha with rfl | ha
    · exact h.2.1 l hl s
    · exact ih h.2.2 ha

end

end

end Outline

/-! ## Declarations

A declaration must not be jumped over: in C++ a jump from in front of an initialised variable
to a label in its scope is an error. -/

section Scope

variable {label : ι → Option Λ} {gotos : ι → List Λ} {declares : ι → Bool} {G L : List Λ}

/-- No jump goes forward over a declaration. -/
def NoBypass (label : ι → Option Λ) (gotos : ι → List Λ) (declares : ι → Bool) (prog : List ι) : Prop :=
  ∀ A x B, prog = A ++ x :: B → declares x = true → ∀ l ∈ A.flatMap gotos, l ∉ B.filterMap label

/-- The same of a part of a program, with the jumps `G` in front of it and the labels `L`
behind it. -/
def Scoped (label : ι → Option Λ) (gotos : ι → List Λ) (declares : ι → Bool) (L : List Λ) : List Λ → List ι → Prop
  | _, [] => True
  | G, i :: prog => (declares i = true → ∀ l ∈ G, l ∉ prog.filterMap label ++ L) ∧
      Scoped label gotos declares L (G ++ gotos i) prog

theorem scoped_iff {prog : List ι} : Scoped label gotos declares L G prog ↔
    ∀ A x B, prog = A ++ x :: B → declares x = true → ∀ l ∈ G ++ A.flatMap gotos, l ∉ B.filterMap label ++ L := by
  induction prog generalizing G with
  | nil =>
    refine ⟨fun _ A x B h => ?_, fun _ => True.intro⟩
    simp at h
  | cons i prog ih =>
    unfold Scoped
    rw [ih]
    constructor
    · rintro ⟨h1, h2⟩ A x B h hx
      cases A with
      | nil =>
        cases h
        rw [List.flatMap_nil, List.append_nil]
        exact h1 hx
      | cons a A =>
        rw [List.cons_append, List.cons.injEq] at h
        obtain ⟨rfl, h⟩ := h
        rw [List.flatMap_cons, ← List.append_assoc]
        exact h2 A x B h hx
    · intro h
      refine ⟨fun hi l hl => h [] i prog rfl hi l (by simpa using hl), fun A x B hp hx => ?_⟩
      have := h (i :: A) x B (by rw [hp, List.cons_append]) hx
      rwa [List.flatMap_cons, ← List.append_assoc] at this

theorem noBypass_iff_scoped {prog : List ι} :
    NoBypass label gotos declares prog ↔ Scoped label gotos declares [] [] prog := by
  rw [scoped_iff]
  simp only [List.nil_append, List.append_nil]
  rfl

theorem scoped_append {P Q : List ι} : Scoped label gotos declares L G (P ++ Q) ↔
    Scoped label gotos declares (Q.filterMap label ++ L) G P ∧
      Scoped label gotos declares L (G ++ P.flatMap gotos) Q := by
  induction P generalizing G with
  | nil => simp [Scoped]
  | cons i P ih =>
    simp only [List.cons_append, Scoped, ih, List.filterMap_append, List.append_assoc, List.flatMap_cons, and_assoc]

theorem scoped_of_quiet {P : List ι} (h : ∀ i ∈ P, declares i = false) : Scoped label gotos declares L G P := by
  induction P generalizing G with
  | nil => exact True.intro
  | cons i P ih =>
    refine ⟨fun hi => ?_, ih fun j hj => h j (List.mem_cons_of_mem _ hj)⟩
    rw [h i List.mem_cons_self] at hi
    cases hi

end Scope

/-! ## Labels and positions -/

variable [DecidableEq Λ]

/-- The position of the first item that defines `l`. -/
def findLabel (label : ι → Option Λ) (prog : List ι) (l : Λ) : Option ℕ :=
  prog.findIdx? (fun i => label i = some l)

section

variable {label : ι → Option Λ} {prog : List ι} {l : Λ}

theorem findLabel_some {n : ℕ} (h : findLabel label prog l = some n) : ∃ i, prog[n]? = some i ∧ label i = some l := by
  obtain ⟨hn, hl, -⟩ := List.findIdx?_eq_some_iff_getElem.1 h
  exact ⟨prog[n], List.getElem?_eq_getElem hn, by simpa using hl⟩

theorem findLabel_isSome (h : 0 < prog.countP (fun i => label i = some l)) : ∃ n, findLabel label prog l = some n := by
  obtain ⟨i, hi, hl⟩ := List.countP_pos_iff.1 h
  refine Option.isSome_iff_exists.1 ?_
  rw [findLabel, List.findIdx?_isSome]
  exact List.any_eq_true.2 ⟨i, hi, hl⟩

end

/-! ## Executions -/

/-- One step of a program, from a position and a state. -/
inductive Step (L : Lang ι Λ σ ε) (prog : List ι) : ℕ × σ → ℕ × σ → Prop
  | next {n : ℕ} {i : ι} {s s' : σ} : prog[n]? = some i → L.exec i s = (s', .next) → Step L prog (n, s) (n + 1, s')
  | goto {n n' : ℕ} {i : ι} {l : Λ} {s s' : σ} : prog[n]? = some i → L.exec i s = (s', .goto l) →
      findLabel L.label prog l = some n' → Step L prog (n, s) (n', s')

/-- Some number of steps. -/
def Reach (L : Lang ι Λ σ ε) (prog : List ι) : ℕ × σ → ℕ × σ → Prop :=
  Relation.ReflTransGen (Step L prog)

/-- A run from a position on, with so many steps at most. It ends with an exit, or off the end
of the program. -/
def run (L : Lang ι Λ σ ε) (prog : List ι) : ℕ → ℕ → σ → Option (σ × Option ε)
  | 0, _, _ => none
  | fuel + 1, n, s =>
    match prog[n]? with
    | none => some (s, none)
    | some i =>
      match L.exec i s with
      | (s', .next) => run L prog fuel (n + 1) s'
      | (s', .goto l) =>
        match findLabel L.label prog l with
        | none => none
        | some n' => run L prog fuel n' s'
      | (s', .exit e) => some (s', some e)

theorem reach_prev {L : Lang ι Λ σ ε} {prog : List ι} {n : ℕ} {i : ι} {s0 s : σ}
    (hr : Reach L prog (0, s0) (n + 1, s)) (hi : prog[n + 1]? = some i) (hl : L.label i = none) :
    ∃ s1 j, Reach L prog (0, s0) (n, s1) ∧ prog[n]? = some j ∧ L.exec j s1 = (s, .next) := by
  rcases Relation.ReflTransGen.cases_tail hr with h | ⟨⟨m, s1⟩, hm, hst⟩
  · cases h
  · cases hst with
    | next hj he => exact ⟨s1, _, hm, hj, he⟩
    | goto hj he hf =>
      obtain ⟨j', hj', hl'⟩ := findLabel_some hf
      rw [hi] at hj'
      cases hj'
      rw [hl] at hl'
      cases hl'

/-- **Floyd's method**: every position of a run has its assertion. -/
theorem Outline.reach {L : Lang ι Λ σ ε} {P Q : σ → Prop} {A : List (ι × (σ → Prop))} (h : Outline L P A Q) {n n' : ℕ}
    {s s' : σ} (h0 : ∀ a, A[n]? = some a → a.2 s) (hr : Reach L (A.map Prod.fst) (n, s) (n', s')) :
    ∀ a, A[n']? = some a → a.2 s' := by
  have key : ∀ c, Reach L (A.map Prod.fst) (n, s) c → ∀ a, A[c.1]? = some a → a.2 c.2 := by
    intro c hc
    induction hc with
    | refl => exact h0
    | tail _ hst ih =>
      intro b hb
      cases hst with
      | @next m i t t' hi he =>
        rw [List.getElem?_map] at hi
        obtain ⟨a, ha, rfl⟩ := Option.map_eq_some_iff.1 hi
        exact h.next ha hb (ih a ha) he
      | @goto m m' i l t t' hi he hl =>
        obtain ⟨j, hj, hjl⟩ := findLabel_some hl
        rw [List.getElem?_map, hb, Option.map_some, Option.some.injEq] at hj
        subst hj
        exact h.label (List.mem_of_getElem? hb) hjl _
  exact key (n', s') hr

/-! ## Labels -/

/-- Every label in `uses` of an item is defined exactly once. -/
def Closed (label : ι → Option Λ) (uses : ι → List Λ) (prog : List ι) : Prop :=
  ∀ i ∈ prog, ∀ l ∈ uses i, prog.countP (fun j => label j = some l) = 1

end Goto

/-!
# What a run of a goto program passes

The trail of a run lists what the run goes past; some entries are marks, and some settle
what is marked before them. `scan` is a static summary of code: whether a mark may still be
unsettled where the code goes on, and `none` where it may jump or leave with one.

* `seqTrail`, `runTrail`: the trails of straight runs and of executions.
* `Scans`, `seq_scans`: a summary that is right for the items of a list is right for the list.
* `mark_settled`: where a program is summarised as settled, every mark of every run is
  settled later in that run.
-/

namespace Goto

universe u v w x y

variable {ι : Type u} {Λ : Type v} {σ : Type w} {ε : Type x} {τ : Type y}

/-! ## Trails -/

/-- The trail of a straight run. -/
def seqTrail (trail : ι → σ → List τ) (exec : ι → σ → σ × Flow Λ ε) (s : σ) : List ι → List τ
  | [] => []
  | i :: l => trail i s ++ match exec i s with
    | (s', .next) => seqTrail trail exec s' l
    | _ => []

/-- The trail of the first `fuel` items that a run from a position executes. -/
def runTrail [DecidableEq Λ] (L : Lang ι Λ σ ε) (trail : ι → σ → List τ) (prog : List ι) : ℕ → ℕ → σ → List τ
  | 0, _, _ => []
  | fuel + 1, n, s =>
    match prog[n]? with
    | none => []
    | some i => trail i s ++ match L.exec i s with
      | (s', .next) => runTrail L trail prog fuel (n + 1) s'
      | (s', .goto l) =>
        match findLabel L.label prog l with
        | none => []
        | some n' => runTrail L trail prog fuel n' s'
      | (_, .exit _) => []

/-! ## Open marks -/

section Open

variable (mark settles : τ → Bool)

/-- Whether a mark is unsettled after a trail, and `p` before it. -/
def opened (p : Bool) (l : List τ) : Bool := l.foldl (fun p x => mark x || (p && !settles x)) p

variable {mark settles}

@[simp] theorem opened_nil (p : Bool) : opened mark settles p [] = p := rfl

theorem opened_append (p : Bool) (l l' : List τ) :
    opened mark settles p (l ++ l') = opened mark settles (opened mark settles p l) l' :=
  List.foldl_append

theorem opened_mono {p q : Bool} (h : p = true → q = true) {l : List τ}
    (hp : opened mark settles p l = true) : opened mark settles q l = true := by
  induction l generalizing p q with
  | nil => exact h hp
  | cons x l ih =>
    refine ih (fun hx => ?_) hp
    rw [Bool.or_eq_true, Bool.and_eq_true] at hx ⊢
    exact hx.imp_right fun hx => ⟨h hx.1, hx.2⟩

/-- What nothing settles stays open. -/
theorem opened_of_not_settled {l : List τ} (h : ∀ x ∈ l, settles x = false) : opened mark settles true l = true := by
  induction l with
  | nil => rfl
  | cons x l ih =>
    have hx : (mark x || (true && !settles x)) = true := by
      rw [h x List.mem_cons_self, Bool.not_false, Bool.and_true, Bool.or_true]
    unfold opened at ih ⊢
    rw [List.foldl_cons, hx]
    exact ih fun y hy => h y (List.mem_cons_of_mem _ hy)

theorem opened_of_mark {a b : List τ} {x : τ} (hx : mark x = true) (h : ∀ y ∈ b, settles y = false) (p : Bool) :
    opened mark settles p (a ++ x :: b) = true := by
  rw [opened_append]
  have hopen : opened mark settles (opened mark settles p a) (x :: b) = opened mark settles true b := by
    unfold opened
    rw [List.foldl_cons, hx, Bool.true_or]
  rw [hopen]
  exact opened_of_not_settled h

end Open

/-! ## Summaries -/

/-- The summary of a list, from those of its items. -/
def scan (f : ι → Bool → Option Bool) : List ι → Bool → Option Bool
  | [], p => some p
  | i :: l, p => (f i p).bind (scan f l)

section Scan

variable {f : ι → Bool → Option Bool}

@[simp] theorem scan_nil (p : Bool) : scan f [] p = some p := rfl

theorem scan_cons (i : ι) (l : List ι) (p : Bool) : scan f (i :: l) p = (f i p).bind (scan f l) := rfl

theorem scan_append (l l' : List ι) (p : Bool) : scan f (l ++ l') p = (scan f l p).bind (scan f l') := by
  induction l generalizing p with
  | nil => rfl
  | cons i l ih =>
    rw [List.cons_append, scan_cons, scan_cons, Option.bind_assoc]
    congr 1
    funext q
    exact ih q

end Scan

/-- The summary `o` covers an execution that ends so: what is open where it goes on, the
summary knows of, and nothing is open where it jumps or leaves. -/
def Accounts (opn : Bool) (fl : Flow Λ ε) (o : Option Bool) : Prop :=
  ∀ q, o = some q → match fl with
    | .next => opn = true → q = true
    | _ => opn = false

/-- The summary of an item is right. -/
def Scans (mark settles : τ → Bool) (trail : ι → σ → List τ) (exec : ι → σ → σ × Flow Λ ε)
    (f : ι → Bool → Option Bool) (i : ι) : Prop :=
  ∀ s p, Accounts (opened mark settles p (trail i s)) (exec i s).2 (f i p)

section Sound

variable {mark settles : τ → Bool} {trail : ι → σ → List τ} {exec : ι → σ → σ × Flow Λ ε}
  {f : ι → Bool → Option Bool}

/-- **Summaries compose**: right for every item, right for the list. -/
theorem seq_scans {l : List ι} (h : ∀ i ∈ l, Scans mark settles trail exec f i) (s : σ)
    {p q : Bool} (hpq : p = true → q = true) :
    Accounts (opened mark settles p (seqTrail trail exec s l)) (seq exec s l).2 (scan f l q) := by
  induction l generalizing s p q with
  | nil =>
    intro r hr
    cases hr
    exact hpq
  | cons i l ih =>
    intro r hr
    rw [scan_cons, Option.bind_eq_some_iff] at hr
    obtain ⟨q', hq', hr⟩ := hr
    have hi := h i List.mem_cons_self s q q' hq'
    have hle : opened mark settles p (trail i s) = true → opened mark settles q (trail i s) = true :=
      opened_mono hpq
    rw [seqTrail, seq_cons, opened_append]
    generalize exec i s = res at hi ⊢
    obtain ⟨s', _ | l' | e⟩ := res
    · have hq : opened mark settles p (trail i s) = true → q' = true := fun ho => hi (hle ho)
      exact ih (fun j hj => h j (List.mem_cons_of_mem _ hj)) s' hq r hr
    · exact Bool.eq_false_iff.2 fun ho => Bool.eq_false_iff.1 hi (hle ho)
    · exact Bool.eq_false_iff.2 fun ho => Bool.eq_false_iff.1 hi (hle ho)

end Sound

section Runs

variable [DecidableEq Λ] {L : Lang ι Λ σ ε} {mark settles : τ → Bool} {trail : ι → σ → List τ}
  {f : ι → Bool → Option Bool} {prog : List ι}

theorem runTrail_next {n fuel : ℕ} {i : ι} {s s' : σ} (hi : prog[n]? = some i) (he : L.exec i s = (s', .next)) :
    runTrail L trail prog (fuel + 1) n s = trail i s ++ runTrail L trail prog fuel (n + 1) s' := by
  simp only [runTrail, hi, he]

theorem mem_runTrail_one {n : ℕ} {i : ι} {s : σ} (hi : prog[n]? = some i) :
    ∀ x ∈ trail i s, x ∈ runTrail L trail prog 1 n s := by
  intro x hx
  simp only [runTrail, hi]
  exact List.mem_append_left _ hx

section

variable (h : ∀ i ∈ prog, Scans mark settles trail L.exec f i)

include h

/-- A run that starts with a mark open comes to settle it. -/
theorem exists_settled {l : List ι} {n : ℕ} (hl : prog.drop n = l) (hs : scan f l true = some false) (s : σ) :
    ∃ fuel, ∃ y ∈ runTrail L trail prog fuel n s, settles y = true := by
  induction l generalizing n s with
  | nil => cases hs
  | cons i l ih =>
    have hi : prog[n]? = some i := by
      rw [← List.head?_drop, hl, List.head?_cons]
    by_cases hy : ∃ y ∈ trail i s, settles y = true
    · obtain ⟨y, hy, hset⟩ := hy
      exact ⟨1, y, mem_runTrail_one hi y hy, hset⟩
    · -- nothing settles it here, so the summary lets the item go on only
      push Not at hy
      have hopen : opened mark settles true (trail i s) = true :=
        opened_of_not_settled fun y hm => Bool.eq_false_iff.2 (hy y hm)
      rw [scan_cons, Option.bind_eq_some_iff] at hs
      obtain ⟨q, hq, hs⟩ := hs
      have hacc := h i (List.mem_of_getElem? hi) s true q hq
      rw [hopen] at hacc
      rcases hex : L.exec i s with ⟨s', _ | l' | e⟩
      · rw [hex] at hacc
        rw [hacc rfl] at hs
        have hdrop : prog.drop (n + 1) = l := by
          rw [← List.tail_drop, hl, List.tail_cons]
        obtain ⟨fuel, y, hy, hset⟩ := ih hdrop hs s'
        refine ⟨fuel + 1, y, ?_, hset⟩
        rw [runTrail_next hi hex]
        exact List.mem_append_right _ hy
      · rw [hex] at hacc
        cases hacc
      · rw [hex] at hacc
        cases hacc

/-- **Every mark is settled later in its run**, where the program is summarised so. -/
theorem mark_settled (hs : scan f prog false = some false) {fuel n : ℕ} {s : σ} {x : τ}
    (hx : x ∈ runTrail L trail prog fuel n s) (hm : mark x = true) :
    ∃ fuel' a b, runTrail L trail prog fuel' n s = a ++ x :: b ∧ ∃ y ∈ b, settles y = true := by
  induction fuel generalizing n s with
  | zero => cases hx
  | succ fuel ih =>
    rw [runTrail] at hx
    rcases hi : prog[n]? with _ | i
    · rw [hi] at hx
      cases hx
    rw [hi] at hx
    rcases List.mem_append.1 hx with hx | hx
    · -- the mark is among what this item passes
      obtain ⟨a, b, hab⟩ := List.append_of_mem hx
      by_cases hb : ∃ y ∈ b, settles y = true
      · obtain ⟨y, hy, hset⟩ := hb
        refine ⟨1, a, ?_⟩
        rw [runTrail, hi]
        dsimp only
        rw [hab, List.append_assoc, List.cons_append]
        exact ⟨_, rfl, y, List.mem_append_left _ hy, hset⟩
      · push Not at hb
        have hopen : ∀ p, opened mark settles p (trail i s) = true := by
          intro p
          rw [hab]
          exact opened_of_mark hm (fun y hy => Bool.eq_false_iff.2 (hb y hy)) p
        have hsplit : prog = prog.take n ++ i :: prog.drop (n + 1) := by
          obtain ⟨hn, hget⟩ := List.getElem?_eq_some_iff.1 hi
          rw [← hget, List.getElem_cons_drop, List.take_append_drop]
        rw [hsplit, scan_append, Option.bind_eq_some_iff] at hs
        obtain ⟨p, -, hs⟩ := hs
        rw [scan_cons, Option.bind_eq_some_iff] at hs
        obtain ⟨q, hq, hs⟩ := hs
        have hacc := h i (List.mem_of_getElem? hi) s p q hq
        rw [hopen p] at hacc
        rcases hex : L.exec i s with ⟨s', _ | l' | e⟩
        · rw [hex] at hacc
          rw [hacc rfl] at hs
          obtain ⟨fuel', y, hy, hset⟩ := exists_settled h rfl hs s'
          refine ⟨fuel' + 1, a, b ++ runTrail L trail prog fuel' (n + 1) s', ?_, y, List.mem_append_right _ hy, hset⟩
          rw [runTrail_next hi hex, hab, List.append_assoc, List.cons_append]
        · rw [hex] at hacc
          cases hacc
        · rw [hex] at hacc
          cases hacc
    · -- it is passed later, so the run from there has it
      rcases hex : L.exec i s with ⟨s', _ | l' | e⟩
      · rw [hex] at hx
        obtain ⟨fuel', a, b, hab, hb⟩ := ih hx
        refine ⟨fuel' + 1, trail i s ++ a, b, ?_, hb⟩
        rw [runTrail_next hi hex, hab, List.append_assoc]
      · rw [hex] at hx
        dsimp only at hx
        rcases hl : findLabel L.label prog l' with _ | n'
        · rw [hl] at hx
          cases hx
        · rw [hl] at hx
          obtain ⟨fuel', a, b, hab, hb⟩ := ih hx
          refine ⟨fuel' + 1, trail i s ++ a, b, ?_, hb⟩
          simp only [runTrail, hi, hex, hl, hab, List.append_assoc]
      · rw [hex] at hx
        cases hx

end

end Runs

end Goto
