import Mathlib.Tactic.FinCases
import Mathlib.Tactic.IntervalCases
import Ps2Recomp.Spec.Csr

/-!
# What the writers of CSR leave to each other

Each writer does one atomic update (`Cas.run_word`), so none is lost. A bit of `SIGNAL` or `FINISH` is set
by a packet and cleared by a store that writes it as one (`status_apply`). FIELD is what the last tick or
the last store of the low half made it (`field_apply`): a store replaces the bits that are no status bits.
-/

namespace Ps2Recomp.Csr

open Memory

/-- `SIGNAL` and `FINISH`. -/
abbrev StatusBit := Fin 2

def status (b : StatusBit) (csr : Dword) : Bool := csr.getLsbD b

def field (csr : Dword) : Bool := csr.getLsbD 13

/-- The low half that a store writes. -/
def GuestWrite.lowBit (k : ℕ) : GuestWrite → Option Bool
  | .low value => some (value.getLsbD k)
  | .high _ => none
  | .full value => some (value.getLsbD k)

/-- What an update gives FIELD. -/
def fieldGiven : GuestWrite ⊕ Rmw → Option Bool
  | .inl w => w.lowBit 13
  | .inr (.vsync tickValue) => some (tickValue.getLsbD 0)
  | .inr _ => none

/-- What it gives a status bit: a store that writes it as one clears it. -/
def statusGiven (b : StatusBit) : GuestWrite ⊕ Rmw → Option Bool
  | .inl w => if w.lowBit b = some true then some false else none
  | .inr .signal => if b = 0 then some true else none
  | .inr .finish => if b = 1 then some true else none
  | .inr (.vsync _) => none

/-! ### Bits of an update -/

section Bits

variable {k : ℕ} (hk : k < 32) (csr : Dword)

include hk

theorem getLsbD_writeCsrHalf_low (value : Word) :
    (writeCsrHalf csr 0 value).getLsbD k = if k < 2 then csr.getLsbD k && !value.getLsbD k else value.getLsbD k := by
  have hlow : (0x3 : Word).getLsbD k = decide (k < 2) := by
    interval_cases k <;> rfl
  have hhigh : (0xFFFFFFFF00000000 : Dword).getLsbD k = false := by
    interval_cases k <;> rfl
  rw [writeCsrHalf, if_pos rfl]
  simp only [BitVec.getLsbD_and, BitVec.getLsbD_or, BitVec.getLsbD_not, BitVec.getLsbD_setWidth, hlow, hhigh,
    decide_eq_true hk, decide_eq_true (by omega : k < 64)]
  by_cases h2 : k < 2 <;> simp [h2]

theorem getLsbD_writeCsrHalf_high (value : Word) : (writeCsrHalf csr 4 value).getLsbD k = csr.getLsbD k := by
  have hmask : ((0xFFFFFFFF : Dword) <<< (4 * 8)).getLsbD k = false := by
    interval_cases k <;> rfl
  rw [writeCsrHalf, if_neg (by decide)]
  change (csr &&& ~~~((0xFFFFFFFF : Dword) <<< 32) ||| value.setWidth 64 <<< 32).getLsbD k = _
  simp only [BitVec.getLsbD_or, BitVec.getLsbD_and, BitVec.getLsbD_not, BitVec.getLsbD_shiftLeft, decide_eq_true hk,
    decide_eq_true (by omega : k < 64)]
  simp

theorem getLsbD_writeCsrFull (value : Dword) :
    (writeCsrFull csr value).getLsbD k = if k < 2 then csr.getLsbD k && !value.getLsbD k else value.getLsbD k := by
  have hlow : (0x3 : Dword).getLsbD k = decide (k < 2) := by
    interval_cases k <;> rfl
  rw [writeCsrFull]
  simp only [BitVec.getLsbD_and, BitVec.getLsbD_or, BitVec.getLsbD_not, hlow, decide_eq_true (by omega : k < 64)]
  by_cases h2 : k < 2 <;> simp [h2]

/-- **A bit of the low half behind a store.** -/
theorem getLsbD_applyWrite (w : GuestWrite) :
    (applyWrite w csr).getLsbD k =
      match w.lowBit k with
      | some x => if k < 2 then csr.getLsbD k && !x else x
      | none => csr.getLsbD k := by
  cases w with
  | low value => exact getLsbD_writeCsrHalf_low hk csr value
  | high value => exact getLsbD_writeCsrHalf_high hk csr value
  | full value => exact getLsbD_writeCsrFull hk csr value

end Bits

theorem getLsbD_vsync (tickValue csr : Dword) {k : ℕ} (hk : k < 64) :
    (updateGsCsrFieldForVSync tickValue csr).getLsbD k = if k = 13 then tickValue.getLsbD 0 else csr.getLsbD k := by
  have hmask : kGsCsrFieldMask.getLsbD k = decide (k = 13) := by
    interval_cases k <;> rfl
  have hodd : tickValue &&& 1 ≠ 0 ↔ tickValue.getLsbD 0 = true := by
    change tickValue &&& 1#64 ≠ 0 ↔ _
    rw [BitVec.and_one_eq_setWidth_ofBool_getLsbD]
    cases tickValue.getLsbD 0 <;> decide
  rw [updateGsCsrFieldForVSync]
  by_cases ht : tickValue.getLsbD 0 = true
  · rw [if_pos (hodd.2 ht), BitVec.getLsbD_or, hmask, ht]
    by_cases h13 : k = 13 <;> simp [h13]
  · rw [if_neg (mt hodd.1 ht), BitVec.getLsbD_and, BitVec.getLsbD_not, hmask, Bool.eq_false_of_not_eq_true ht,
      decide_eq_true hk]
    by_cases h13 : k = 13 <;> simp [h13]

/-- **FIELD behind an update.** -/
theorem field_apply (op : GuestWrite ⊕ Rmw) (csr : Dword) :
    field (Cas.apply applyWrite applyRmw op csr) = (fieldGiven op).getD (field csr) := by
  cases op with
  | inl w =>
    rw [Cas.apply, field, getLsbD_applyWrite (by omega), fieldGiven]
    cases w.lowBit 13 <;> rfl
  | inr op =>
    cases op with
    | vsync tickValue => exact getLsbD_vsync tickValue csr (by omega)
    | signal =>
      rw [Cas.apply, field, applyRmw, BitVec.getLsbD_or]
      exact Bool.or_false _
    | finish =>
      rw [Cas.apply, field, applyRmw, BitVec.getLsbD_or]
      exact Bool.or_false _

/-- **A status bit behind an update.** -/
theorem status_apply (b : StatusBit) (op : GuestWrite ⊕ Rmw) (csr : Dword) :
    status b (Cas.apply applyWrite applyRmw op csr) = (statusGiven b op).getD (status b csr) := by
  have hb := b.isLt
  cases op with
  | inl w =>
    rw [Cas.apply, status, getLsbD_applyWrite (by omega), statusGiven]
    cases hbit : w.lowBit b with
    | none => rfl
    | some x =>
      cases x with
      | false => simp [hb, status]
      | true => simp [hb]
  | inr op =>
    cases op with
    | vsync tickValue =>
      rw [Cas.apply, status, applyRmw, getLsbD_vsync _ _ (by omega), if_neg (by omega)]
      rfl
    | signal =>
      rw [Cas.apply, status, applyRmw, BitVec.getLsbD_or]
      fin_cases b <;> simp [statusGiven, status]
    | finish =>
      rw [Cas.apply, status, applyRmw, BitVec.getLsbD_or]
      fin_cases b <;> simp [statusGiven, status]

/-! ### Interleavings -/

section Interleavings

variable {ι : Type} [DecidableEq ι] {s s' : State ι} {es : List (Step ι)}

/-- A packet sets the status bit in this step. -/
def Sets (b : StatusBit) (e : Step ι) : Prop := e.landed.bind (statusGiven b) = some true

/-- A store that writes it as one takes effect in this step. -/
def Clears (b : StatusBit) (e : Step ι) : Prop := e.landed.bind (statusGiven b) = some false

/-- The bits of `SIGNAL` and `FINISH` that a store writes as one. -/
def GuestWrite.writesOne (w : GuestWrite) (b : StatusBit) : Bool := (w.lowBit b).getD false

theorem run_field (h : run s es = some s') :
    field s'.word = (Cas.lastGiven fieldGiven (Cas.landings es)).getD (field s.word) := by
  rw [Cas.run_word h]
  exact Cas.foldl_observe field_apply _ _

theorem run_status (b : StatusBit) (h : run s es = some s') :
    status b s'.word = (Cas.lastGiven (statusGiven b) (Cas.landings es)).getD (status b s.word) := by
  rw [Cas.run_word h]
  exact Cas.foldl_observe (status_apply b) _ _

/-- **A set bit stays visible** until a store writes it as one. -/
theorem set_visible (b : StatusBit) {done rest : List (Step ι)} {e : Step ι} (h : run s (done ++ e :: rest) = some s')
    (hset : Sets b e) (hclear : ∀ e' ∈ rest, ¬Clears b e') : status b s'.word = true := by
  obtain ⟨op, hop, hgiven⟩ := Option.bind_eq_some_iff.1 hset
  have hlandings : Cas.landings (done ++ e :: rest) = Cas.landings done ++ op :: Cas.landings rest := by
    rw [Cas.landings, List.filterMap_append, List.filterMap_cons, hop]
    rfl
  rw [run_status b h, hlandings, Cas.lastGiven_append, Cas.lastGiven, List.filterMap_cons, hgiven, List.getLast?_cons]
  -- Whatever gives the bit after that sets it again.
  have hlast : ((Cas.landings rest).filterMap (statusGiven b)).getLast?.getD true = true := by
    cases hgiven' : ((Cas.landings rest).filterMap (statusGiven b)).getLast? with
    | none => rfl
    | some x =>
      obtain ⟨op', hop', hx⟩ := List.mem_filterMap.1 (List.mem_of_getLast? hgiven')
      obtain ⟨e', he', hlanded⟩ := List.mem_filterMap.1 hop'
      have hclears : Clears b e' ↔ x = false := by
        rw [Clears, hlanded, Option.bind_some, hx, Option.some.injEq]
      exact Bool.eq_true_of_not_eq_false (mt hclears.2 (hclear e' he'))
  rw [hlast]
  rfl

/-- **A store clears exactly the bits that it writes as one**, and sets none. -/
theorem commit_status {i : ι} {w : GuestWrite} (h : Cas.step applyWrite applyRmw s (.commit i w) = some s') (b : StatusBit) :
    status b s'.word = (status b s.word && !w.writesOne b) := by
  have hword : s'.word = Cas.apply applyWrite applyRmw (.inl w) s.word := Cas.step_word h
  rw [hword, status_apply, statusGiven, GuestWrite.writesOne]
  cases w.lowBit b with
  | none => simp
  | some x => cases x <;> simp

/-- **No writer of CSR loses what another wrote.** In any interleaving FIELD is what the last tick or store of
the low half made it, a status bit that a packet sets stays visible until a store writes it as one, and a store
clears exactly the status bits that it writes as one. -/
theorem csr_interleavings (s s' : State ι) (es : List (Step ι)) (h : run s es = some s') :
    field s'.word = (Cas.lastGiven fieldGiven (Cas.landings es)).getD (field s.word) ∧
    (∀ b done e rest, es = done ++ e :: rest → Sets b e → (∀ e' ∈ rest, ¬Clears b e') → status b s'.word = true) ∧
    ∀ i w done rest s₁ s₂, es = done ++ .commit i w :: rest → run s done = some s₁ →
      Cas.step applyWrite applyRmw s₁ (.commit i w) = some s₂ →
        ∀ b, status b s₂.word = (status b s₁.word && !w.writesOne b) := by
  refine ⟨run_field h, ?_, ?_⟩
  · rintro b done e rest rfl hset hclear
    exact set_visible b h hset hclear
  · intro i w done rest s₁ s₂ _ _ hcommit b
    exact commit_status hcommit b

/-- A tick, `SIGNAL`, and a store of zero that loaded the word in between. -/
def raced : List (Step Unit) := [.rmw (.vsync 1), .load () (.full 0), .rmw .signal, .fail () (.full 0), .commit () (.full 0)]

theorem raced_run : ∃ s' : State Unit, run ⟨0, fun _ => none⟩ raced = some s' ∧ field s'.word = false :=
  ⟨_, rfl, (csr_interleavings ⟨0, fun _ => none⟩ _ raced rfl).1⟩

/-- **FIELD is not always that of the last tick.** -/
theorem store_replaces_field : ¬∀ (s s' : State Unit) (es : List (Step Unit)) (tickValue : Dword), run s es = some s' →
    (es.filterMap fun e => match e with | .rmw (.vsync t) => some t | _ => none).getLast? = some tickValue →
      field s'.word = tickValue.getLsbD 0 := by
  intro h
  have hfield := h ⟨0, fun _ => none⟩ _ raced 1 rfl rfl
  exact absurd hfield (by decide)

end Interleavings

end Ps2Recomp.Csr
