import Mathlib.Data.List.Basic
import Mathlib.Logic.Function.Basic

/-!
# A word that many threads update

Threads update one shared word, some by a single atomic operation and some by a loop of
`compare_exchange_weak`: the word is loaded, the new value is computed from what was loaded, and it is
stored if the word still is what was loaded. The exchange may also fail for no reason.

* `run_word`: in any interleaving the word is what the updates leave when they are applied one after the
  other, each where its atomic operation or its exchange takes place.
* `foldl_observe`: a part of the word that each update either gives or keeps is what the last update that
  gives it gives.
-/

namespace Cas

section Interleavings

variable {ι L R σ : Type} [DecidableEq ι] [DecidableEq σ]

/-- The word, and the loops that threads are in, with what they have loaded. -/
structure Shared (ι L σ : Type) where
  word : σ
  held : ι → Option (L × σ)

/-- The atomic steps of thread `i`: it enters a loop, its exchange fails, its exchange succeeds, or it does
an update in one operation. -/
inductive Step (ι L R : Type)
  | load (i : ι) (op : L)
  | fail (i : ι) (op : L)
  | commit (i : ι) (op : L)
  | rmw (op : R)
  deriving DecidableEq

/-- The update that takes place in a step. -/
def Step.landed : Step ι L R → Option (L ⊕ R)
  | .load _ _ | .fail _ _ => none
  | .commit _ op => some (.inl op)
  | .rmw op => some (.inr op)

variable (applyLoop : L → σ → σ) (applyRmw : R → σ → σ) [DecidableEq L]

/-- An update of either kind. -/
def apply : L ⊕ R → σ → σ
  | .inl op => applyLoop op
  | .inr op => applyRmw op

/-- A step, where it is possible. -/
def step (s : Shared ι L σ) : Step ι L R → Option (Shared ι L σ)
  | .load i op =>
    match s.held i with
    | none => some { s with held := Function.update s.held i (some (op, s.word)) }
    | some _ => none
  | .fail i op =>
    match s.held i with
    | some (op', _) => if op' = op then some { s with held := Function.update s.held i (some (op, s.word)) } else none
    | none => none
  | .commit i op =>
    match s.held i with
    | some (op', expected) =>
      if op' = op ∧ s.word = expected then
        some { word := applyLoop op expected, held := Function.update s.held i none }
      else none
    | none => none
  | .rmw op => some { s with word := applyRmw op s.word }

/-- Steps one after the other. -/
def run (s : Shared ι L σ) : List (Step ι L R) → Option (Shared ι L σ)
  | [] => some s
  | e :: es => (step applyLoop applyRmw s e).bind fun s' => run s' es

variable {applyLoop applyRmw} {s s' : Shared ι L σ} {e : Step ι L R} {es es' : List (Step ι L R)}

/-- The updates that take place in a run, in their order. -/
def landings (es : List (Step ι L R)) : List (L ⊕ R) := es.filterMap Step.landed

/-- **A step** applies the update that takes place in it to the word. -/
theorem step_word (h : step applyLoop applyRmw s e = some s') :
    s'.word = (e.landed.map fun op => apply applyLoop applyRmw op s.word).getD s.word := by
  cases e with
  | load i op =>
    rw [step] at h
    split at h <;> cases h
    rfl
  | fail i op =>
    rw [step] at h
    split at h
    · split at h <;> cases h
      rfl
    · cases h
  | commit i op =>
    rw [step] at h
    split at h
    · split at h
      · next hcond =>
        cases h
        -- The exchange succeeds only where the word is what was loaded.
        exact congrArg (applyLoop op) hcond.2.symm
      · cases h
    · cases h
  | rmw op =>
    cases h
    rfl

/-- **Any interleaving** is a sequence of updates. -/
theorem run_word (h : run applyLoop applyRmw s es = some s') :
    s'.word = (landings es).foldl (fun w op => apply applyLoop applyRmw op w) s.word := by
  induction es generalizing s with
  | nil =>
    cases h
    rfl
  | cons e es ih =>
    obtain ⟨s1, hstep, hrest⟩ := Option.bind_eq_some_iff.1 h
    have hword := step_word hstep
    rw [ih hrest, hword, landings, landings, List.filterMap_cons]
    cases e.landed <;> rfl

end Interleavings

/-! ### Parts of the word -/

section Observe

variable {α β σ : Type} {update : β → σ → σ} {observe : σ → α} {gives : β → Option α}

/-- What the last of the updates gives that gives anything. -/
def lastGiven (gives : β → Option α) (ops : List β) : Option α := (ops.filterMap gives).getLast?

/-- **A part that each update gives or keeps** is what the last one gives. -/
theorem foldl_observe (hgives : ∀ op w, observe (update op w) = (gives op).getD (observe w)) (ops : List β) (w : σ) :
    observe (ops.foldl (fun w op => update op w) w) = (lastGiven gives ops).getD (observe w) := by
  induction ops generalizing w with
  | nil => rfl
  | cons op ops ih =>
    rw [List.foldl_cons, ih, hgives, lastGiven, lastGiven, List.filterMap_cons]
    cases gives op with
    | none => rfl
    | some a =>
      rw [List.getLast?_cons]
      cases (ops.filterMap gives).getLast? <;> rfl

theorem lastGiven_append (ops ops' : List β) :
    lastGiven gives (ops ++ ops') = (lastGiven gives ops').or (lastGiven gives ops) := by
  rw [lastGiven, lastGiven, lastGiven, List.filterMap_append, List.getLast?_append]

end Observe

end Cas
