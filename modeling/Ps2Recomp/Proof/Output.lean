import Ps2Recomp.Spec.Output
import Mathlib.Tactic.Linarith
import Mathlib.Algebra.BigOperators.Group.List.Basic
import Mathlib.Data.List.Nodup

/-!
# The combined output is the serial output

Every index that was handed out and not yet written is in exactly one place: a queue, a worker,
or the map of completed functions. So the writer finds each text once and in order, and it does
not wait for ever: while it sleeps, some worker has work or a notification to make.

The check at the end of a round looks at the counter and at the completed functions, but not at
the results that came in since the round began. It throws when these are the last ones.

* `Inv`: the invariant of the runs in which this does not happen.
* `Inv.step`: every step keeps it.
* `Inv.progress`, `measure_lt`: some thread has a step, and every step lowers a measure.
* `combined_settled`: the result.
-/

namespace Ps2Recomp

namespace CombinedOutput

open Transition

/-! ## Workers -/

namespace WorkerPc

def isWorking : WorkerPc → Bool
  | .working _ => true
  | _ => false

/-- The steps a worker may make before it takes work again or sleeps. -/
def rank : WorkerPc → ℕ
  | .test => 1
  | .notifyResult => 4
  | _ => 0

end WorkerPc

section Lists

variable {β : Type*} {l : List β} {i : ℕ} {a b : β}

section

variable (h : l[i]? = some a)

include h

theorem set_split : ∃ l1 l2, l = l1 ++ a :: l2 ∧ l.set i b = l1 ++ b :: l2 := by
  obtain ⟨hi, ha⟩ := List.getElem?_eq_some_iff.1 h
  refine ⟨l.take i, l.drop (i + 1), ?_, ?_⟩
  · rw [← ha, List.getElem_cons_drop, List.take_append_drop]
  · rw [List.set_eq_take_append_cons_drop, if_pos hi]

theorem countP_set_add (p : β → Bool) :
    (l.set i b).countP p + (if p a then 1 else 0) = l.countP p + (if p b then 1 else 0) := by
  obtain ⟨l1, l2, hl, hs⟩ := set_split (b := b) h
  rw [hs, hl]
  simp only [List.countP_append, List.countP_cons]
  omega

theorem sum_set_add (f : β → ℕ) : ((l.set i b).map f).sum + f a = (l.map f).sum + f b := by
  obtain ⟨l1, l2, hl, hs⟩ := set_split (b := b) h
  rw [hs, hl]
  simp only [List.map_append, List.map_cons, List.sum_append, List.sum_cons]
  omega

theorem mem_set_of_ne {c : β} (hc : c ≠ b) (hm : c ∈ l.set i b) : c ∈ l := by
  obtain ⟨l1, l2, hl, hs⟩ := set_split (b := b) h
  rw [hs] at hm
  rw [hl]
  simp only [List.mem_append, List.mem_cons, hc, false_or] at hm ⊢
  rcases hm with hm | hm
  · exact .inl hm
  · exact .inr (.inr hm)

theorem mem_set_of_mem {c : β} (hc : c ≠ a) (hm : c ∈ l) : c ∈ l.set i b := by
  obtain ⟨l1, l2, hl, hs⟩ := set_split (b := b) h
  rw [hl] at hm
  rw [hs]
  simp only [List.mem_append, List.mem_cons, hc, false_or] at hm ⊢
  rcases hm with hm | hm
  · exact .inl hm
  · exact .inr (.inr hm)

end

end Lists

/-! ## The invariant -/

variable {α ε : Type} {outputFunctions : List α} {generateFunctionCode : α → Except ε String}
  {preamble : String} {s s' : State ε}

/-- The function of a finished text. -/
def IsTextOf (outputFunctions : List α) (generateFunctionCode : α → Except ε String) (c : ℕ × String) : Prop :=
  ∃ f, outputFunctions[c.1]? = some f ∧ generateFunctionCode f = .ok c.2

/-- Where the indices are. -/
structure Holds (s : State ε) : Prop where
  /-- **No index is lost or duplicated**: one that was handed out and is not written is in
  exactly one place. -/
  indices : ∀ j, s.pendingWork.count j + s.workers.count (.working j) +
    (s.readyCode.map Prod.fst).count j + (s.completedCode.map Prod.fst).count j =
      if s.nextOutputIndex ≤ j ∧ j < s.nextFunction then 1 else 0
  outstanding : s.outstandingWork = s.pendingWork.length + s.workers.countP WorkerPc.isWorking
  total : s.outstandingWork + s.readyCode.length + s.completedCode.length + s.nextOutputIndex = s.nextFunction

/-- The next text is not there. -/
def Flushed (s : State ε) : Prop := s.nextOutputIndex ∉ s.completedCode.map Prod.fst

/-- The buffer is full, or there is nothing left to schedule. -/
def Scheduled (outputFunctions : List α) (s : State ε) : Prop :=
  s.nextFunction = outputFunctions.length ∨
    maxBufferedOutput s.workers.length ≤ s.outstandingWork + s.readyCode.length + s.completedCode.length

/-- What holds at each place of the writer. -/
def WriterInv (outputFunctions : List α) (s : State ε) : Prop :=
  match s.writer with
  | .start => s.completedCode = []
  | .startNotify | .loop | .notify | .check => Flushed s ∧ Scheduled outputFunctions s
  | .test | .finalCheck =>
    Flushed s ∧ Scheduled outputFunctions s ∧ s.nextOutputIndex < outputFunctions.length
  | .asleep =>
    Flushed s ∧ Scheduled outputFunctions s ∧ s.nextOutputIndex < outputFunctions.length ∧
      -- a result that came in while the writer slept is announced
      (s.readyCode ≠ [] ∨ s.outstandingWork = 0 ∧ outputFunctions.length ≤ s.nextFunction → .notifyResult ∈ s.workers)
  | .flush => True
  | .schedule => Flushed s
  | .stop f | .stopNotify f | .join f => f = none ∧ outputFunctions.length ≤ s.nextOutputIndex
  | .done => outputFunctions.length ≤ s.nextOutputIndex
  | .threw _ => False

/-- `workAvailable.notify_all` is the writer's next step. -/
def State.notifies (s : State ε) : Prop :=
  match s.writer with
  | .startNotify | .notify | .stopNotify _ => True
  | _ => False

/-- The workers were told to stop. -/
def State.stopping (s : State ε) : Prop :=
  match s.writer with
  | .stopNotify _ | .join _ | .done => True
  | _ => False

/-- **The invariant** of a run in which no generation throws. -/
structure Inv (outputFunctions : List α) (generateFunctionCode : α → Except ε String)
    (preamble : String) (s : State ε) : Prop extends Holds s where
  nextFunction_le : s.nextFunction ≤ outputFunctions.length
  texts : ∀ c ∈ s.readyCode ++ s.completedCode, IsTextOf outputFunctions generateFunctionCode c
  output : serialOutput (outputFunctions.take s.nextOutputIndex) generateFunctionCode preamble = .ok s.combinedOutput
  noException : s.workerException = none
  noFailure : ∀ pc ∈ s.workers, pc ≠ .notifyFailure ∧ pc ≠ .notifyStop
  workers : s.workers ≠ []
  stop : s.stopWorkers = true ↔ s.stopping
  exited : .exited ∈ s.workers → s.stopWorkers = true
  /-- Nobody sleeps over work or over the end. -/
  asleep : .asleep ∈ s.workers → (s.pendingWork ≠ [] ∨ s.stopWorkers = true) → s.notifies
  writer : WriterInv outputFunctions s

/-! ## Steps of a worker -/

theorem Holds.setWorker (h : Holds s) {i : ℕ} {pc pc' : WorkerPc} (hpc : s.workers[i]? = some pc)
    (hw : pc.isWorking = false) (hw' : pc'.isWorking = false) : Holds (s.setWorker i pc') := by
  have hne : ∀ {q : WorkerPc} (j : ℕ), q.isWorking = false → (q == .working j) = false := by
    intro q j hq
    refine beq_eq_false_iff_ne.2 ?_
    rintro rfl
    cases hq
  have hcount : ∀ p : WorkerPc → Bool, p pc = false → p pc' = false →
      (s.workers.set i pc').countP p = s.workers.countP p := by
    intro p hp hp'
    have := countP_set_add (b := pc') hpc p
    simpa [hp, hp'] using this
  refine ⟨fun j => ?_, ?_, h.total⟩
  · refine Eq.trans ?_ (h.indices j)
    dsimp only [State.setWorker, List.count]
    rw [hcount (· == .working j) (hne j hw) (hne j hw')]
  · refine h.outstanding.trans ?_
    dsimp only [State.setWorker]
    rw [hcount _ hw hw']

theorem Holds.take (h : Holds s) {i j : ℕ} {rest : List ℕ} (hpc : s.workers[i]? = some .test)
    (hp : s.pendingWork = j :: rest) : Holds { s.setWorker i (.working j) with pendingWork := rest } := by
  have hwork := countP_set_add (b := .working j) hpc WorkerPc.isWorking
  refine ⟨fun k => ?_, ?_, h.total⟩
  · have hset := countP_set_add (b := .working j) hpc (· == .working k)
    refine Eq.trans ?_ (h.indices k)
    rw [hp, List.count_cons]
    dsimp only [State.setWorker, List.count]
    simp only [show (WorkerPc.test == .working k) = false from rfl] at hset
    by_cases hjk : j = k
    · subst hjk
      simp only [beq_self_eq_true, if_true, Bool.false_eq_true, if_false] at hset ⊢
      omega
    · have hne : (WorkerPc.working j == .working k) = false := by simpa using hjk
      have hne' : (j == k) = false := by simpa using hjk
      simp only [hne, hne', Bool.false_eq_true, if_false] at hset ⊢
      omega
  · have ho := h.outstanding
    rw [hp, List.length_cons] at ho
    simp only [WorkerPc.isWorking, Bool.false_eq_true, if_false, if_true] at hwork
    dsimp only [State.setWorker]
    omega

variable {code : String}

theorem Holds.finish (h : Holds s) {i j : ℕ} (hpc : s.workers[i]? = some (.working j)) :
    Holds { s.setWorker i .notifyResult with
      readyCode := s.readyCode ++ [(j, code)], outstandingWork := s.outstandingWork - 1 } := by
  have hwork := countP_set_add (b := .notifyResult) hpc WorkerPc.isWorking
  simp only [WorkerPc.isWorking, Bool.false_eq_true, if_false, if_true] at hwork
  have ho := h.outstanding
  refine ⟨fun k => ?_, ?_, ?_⟩
  · have hset := countP_set_add (b := .notifyResult) hpc (· == .working k)
    refine Eq.trans ?_ (h.indices k)
    dsimp only [State.setWorker, List.count]
    rw [List.map_append, List.countP_append, List.map_singleton, List.countP_singleton]
    simp only [show (WorkerPc.notifyResult == .working k) = false from rfl] at hset
    by_cases hjk : j = k
    · subst hjk
      simp only [beq_self_eq_true, if_true, Bool.false_eq_true, if_false] at hset ⊢
      omega
    · have hne : (WorkerPc.working j == .working k) = false := by simpa using hjk
      have hne' : (j == k) = false := by simpa using hjk
      simp only [hne, hne', Bool.false_eq_true, if_false] at hset ⊢
      omega
  · dsimp only [State.setWorker]
    omega
  · have ht := h.total
    dsimp only [State.setWorker]
    rw [List.length_append, List.length_singleton]
    omega

theorem WriterInv.of_worker (h : WriterInv outputFunctions s) (hw : s'.writer = s.writer)
    (hc : s'.completedCode = s.completedCode) (hn : s'.nextOutputIndex = s.nextOutputIndex)
    (hf : s'.nextFunction = s.nextFunction) (hl : s'.workers.length = s.workers.length)
    (ho : s'.outstandingWork + s'.readyCode.length = s.outstandingWork + s.readyCode.length)
    (hr : s.writer = .asleep →
      s'.readyCode ≠ [] ∨ s'.outstandingWork = 0 ∧ outputFunctions.length ≤ s'.nextFunction →
        .notifyResult ∈ s'.workers) : WriterInv outputFunctions s' := by
  have hfl : Flushed s → Flushed s' := by
    unfold Flushed
    rw [hc, hn]
    exact id
  have hsc : Scheduled outputFunctions s → Scheduled outputFunctions s' := by
    unfold Scheduled
    rw [hf, hl, ho, hc]
    exact id
  unfold WriterInv at h ⊢
  rw [hw]
  cases hpc : s.writer with
  | start => rw [hpc] at h; rw [hc]; exact h
  | startNotify | loop | notify | check => rw [hpc] at h; exact ⟨hfl h.1, hsc h.2⟩
  | test | finalCheck => rw [hpc] at h; exact ⟨hfl h.1, hsc h.2.1, hn ▸ h.2.2⟩
  | asleep => rw [hpc] at h; exact ⟨hfl h.1, hsc h.2.1, hn ▸ h.2.2.1, hr hpc⟩
  | flush => exact True.intro
  | schedule => rw [hpc] at h; exact hfl h
  | stop | stopNotify | join => rw [hpc] at h; exact ⟨h.1, hn ▸ h.2⟩
  | done => rw [hpc] at h; exact hn ▸ h
  | threw => rw [hpc] at h; exact h

theorem WriterInv.announced (h : WriterInv outputFunctions s) (hw : s.writer = .asleep)
    (hr : s.readyCode ≠ [] ∨ s.outstandingWork = 0 ∧ outputFunctions.length ≤ s.nextFunction) :
    .notifyResult ∈ s.workers := by
  unfold WriterInv at h
  rw [hw] at h
  exact h.2.2.2 hr

theorem Inv.working_lt (h : Inv outputFunctions generateFunctionCode preamble s) {j : ℕ}
    (hj : .working j ∈ s.workers) : j < outputFunctions.length := by
  have hpos := List.count_pos_iff.2 hj
  have hone := h.indices j
  split at hone
  · have := h.nextFunction_le
    omega
  · omega

theorem workerStep_cases (hgen : ∀ f ∈ outputFunctions, ∃ code, generateFunctionCode f = .ok code)
    (h : Inv outputFunctions generateFunctionCode preamble s) {i : ℕ}
    (hs : workerStep outputFunctions generateFunctionCode s i = some s') :
    (s.workers[i]? = some .test ∧ s.stopWorkers = true ∧ s' = s.setWorker i .exited) ∨
    (s.workers[i]? = some .test ∧ s.stopWorkers = false ∧ s.pendingWork = [] ∧
      s' = s.setWorker i .asleep) ∨
    (∃ j rest, s.workers[i]? = some .test ∧ s.stopWorkers = false ∧ s.pendingWork = j :: rest ∧
      s' = { s.setWorker i (.working j) with pendingWork := rest }) ∨
    (∃ j code, s.workers[i]? = some (.working j) ∧
      IsTextOf outputFunctions generateFunctionCode (j, code) ∧
      s' = { s.setWorker i .notifyResult with
        readyCode := s.readyCode ++ [(j, code)], outstandingWork := s.outstandingWork - 1 }) ∨
    (s.workers[i]? = some .notifyResult ∧ s' = (s.setWorker i .test).notifyResult) := by
  unfold workerStep at hs
  cases hpc : s.workers[i]? with
  | none => rw [hpc] at hs; cases hs
  | some pc =>
    rw [hpc] at hs
    have hmem := List.mem_of_getElem? hpc
    cases pc with
    | test =>
      dsimp only at hs
      cases hstop : s.stopWorkers with
      | true =>
        rw [hstop] at hs
        cases hs
        exact .inl ⟨rfl, rfl, rfl⟩
      | false =>
        rw [hstop, if_neg Bool.false_ne_true] at hs
        cases hp : s.pendingWork with
        | nil =>
          rw [hp] at hs
          cases hs
          exact .inr (.inl ⟨rfl, rfl, rfl, rfl⟩)
        | cons j rest =>
          rw [hp] at hs
          cases hs
          exact .inr (.inr (.inl ⟨j, rest, rfl, rfl, rfl, rfl⟩))
    | working j =>
      have hj := h.working_lt hmem
      obtain ⟨code, hcode⟩ := hgen _ (List.getElem_mem hj)
      dsimp only at hs
      rw [List.getElem?_eq_getElem hj, Option.map_some, hcode] at hs
      cases hs
      exact .inr (.inr (.inr (.inl ⟨j, code, rfl, ⟨_, List.getElem?_eq_getElem hj, hcode⟩, rfl⟩)))
    | notifyResult =>
      cases hs
      exact .inr (.inr (.inr (.inr ⟨rfl, rfl⟩)))
    | notifyFailure => exact absurd rfl (h.noFailure _ hmem).1
    | notifyStop => exact absurd rfl (h.noFailure _ hmem).2
    | asleep | exited => cases hs

theorem setWorker_ne_nil (h : s.workers ≠ []) (i : ℕ) (pc : WorkerPc) : (s.setWorker i pc).workers ≠ [] := by
  dsimp only [State.setWorker]
  simpa using h

theorem setWorker_noFailure (h : ∀ pc ∈ s.workers, pc ≠ .notifyFailure ∧ pc ≠ .notifyStop)
    (i : ℕ) {pc : WorkerPc} (hpc : pc ≠ .notifyFailure ∧ pc ≠ .notifyStop) :
    ∀ q ∈ (s.setWorker i pc).workers, q ≠ .notifyFailure ∧ q ≠ .notifyStop := by
  intro q hq
  rcases List.mem_or_eq_of_mem_set hq with hq | rfl
  · exact h q hq
  · exact hpc

section

variable (h : Inv outputFunctions generateFunctionCode preamble s)

include h

theorem Inv.exit {i : ℕ} (hpc : s.workers[i]? = some .test) (hstop : s.stopWorkers = true) :
    Inv outputFunctions generateFunctionCode preamble (s.setWorker i .exited) where
  toHolds := h.toHolds.setWorker hpc rfl rfl
  nextFunction_le := h.nextFunction_le
  texts := h.texts
  output := h.output
  noException := h.noException
  noFailure := setWorker_noFailure h.noFailure i (by simp)
  workers := setWorker_ne_nil h.workers _ _
  stop := h.stop
  exited := fun _ => hstop
  asleep := fun hm => h.asleep (mem_set_of_ne hpc (by simp) hm)
  writer := by
    refine h.writer.of_worker rfl rfl rfl rfl (List.length_set ..) rfl fun hw => ?_
    -- the writer does not sleep when it stops the workers
    have := h.stop.1 hstop
    unfold State.stopping at this
    rw [hw] at this
    exact this.elim

theorem Inv.sleep {i : ℕ} (hpc : s.workers[i]? = some .test) (hstop : s.stopWorkers = false) (hp : s.pendingWork = []) :
    Inv outputFunctions generateFunctionCode preamble (s.setWorker i .asleep) where
  toHolds := h.toHolds.setWorker hpc rfl rfl
  nextFunction_le := h.nextFunction_le
  texts := h.texts
  output := h.output
  noException := h.noException
  noFailure := setWorker_noFailure h.noFailure i (by simp)
  workers := setWorker_ne_nil h.workers _ _
  stop := h.stop
  exited := fun hm => h.exited (mem_set_of_ne hpc (by simp) hm)
  asleep := by
    rintro - (hne | ht)
    · exact absurd hp hne
    · rw [show (s.setWorker i .asleep).stopWorkers = s.stopWorkers from rfl, hstop] at ht
      cases ht
  writer := by
    exact h.writer.of_worker rfl rfl rfl rfl (List.length_set ..) rfl fun hw hr =>
      mem_set_of_mem hpc (by simp) (h.writer.announced hw hr)

theorem Inv.take {i j : ℕ} {rest : List ℕ} (hpc : s.workers[i]? = some .test) (hp : s.pendingWork = j :: rest) :
    Inv outputFunctions generateFunctionCode preamble
      { s.setWorker i (.working j) with pendingWork := rest } where
  toHolds := h.toHolds.take hpc hp
  nextFunction_le := h.nextFunction_le
  texts := h.texts
  output := h.output
  noException := h.noException
  noFailure := setWorker_noFailure h.noFailure i (by simp)
  workers := setWorker_ne_nil h.workers _ _
  stop := h.stop
  exited := fun hm => h.exited (mem_set_of_ne hpc (by simp) hm)
  asleep := fun hm _ => h.asleep (mem_set_of_ne hpc (by simp) hm) (.inl (by rw [hp]; simp))
  writer := h.writer.of_worker rfl rfl rfl rfl (List.length_set ..) rfl fun hw hr =>
    mem_set_of_mem hpc (by simp) (h.writer.announced hw hr)

theorem Inv.finish {i j : ℕ} (hpc : s.workers[i]? = some (.working j))
    (hcode : IsTextOf outputFunctions generateFunctionCode (j, code)) :
    Inv outputFunctions generateFunctionCode preamble
      { s.setWorker i .notifyResult with
        readyCode := s.readyCode ++ [(j, code)], outstandingWork := s.outstandingWork - 1 } where
  toHolds := h.toHolds.finish hpc
  nextFunction_le := h.nextFunction_le
  texts := by
    intro c hc
    simp only [List.mem_append, List.mem_singleton] at hc
    rcases hc with (hc | rfl) | hc
    · exact h.texts c (List.mem_append_left _ hc)
    · exact hcode
    · exact h.texts c (List.mem_append_right _ hc)
  output := h.output
  noException := h.noException
  noFailure := setWorker_noFailure h.noFailure i (by simp)
  workers := setWorker_ne_nil h.workers _ _
  stop := h.stop
  exited := fun hm => h.exited (mem_set_of_ne hpc (by simp) hm)
  asleep := fun hm => h.asleep (mem_set_of_ne hpc (by simp) hm)
  writer := by
    refine h.writer.of_worker rfl rfl rfl rfl (List.length_set ..) ?_ fun _ _ => ?_
    · -- the worker was counted as outstanding
      have hpos : 0 < s.workers.countP WorkerPc.isWorking :=
        List.countP_pos_iff.2 ⟨_, List.mem_of_getElem? hpc, rfl⟩
      have ho := h.outstanding
      dsimp only [State.setWorker]
      rw [List.length_append, List.length_singleton]
      omega
    · exact List.mem_of_getElem? (List.getElem?_set_self (List.getElem?_eq_some_iff.1 hpc).1)

theorem Inv.notifyResult {i : ℕ} (hpc : s.workers[i]? = some .notifyResult) :
    Inv outputFunctions generateFunctionCode preamble (s.setWorker i .test).notifyResult := by
  by_cases hw : s.writer = .asleep
  · have hs : (s.setWorker i .test).notifyResult = { s.setWorker i .test with writer := .test } := by
      dsimp only [State.notifyResult, State.setWorker]
      rw [hw]
    have hstop : s.stopWorkers = false := by
      refine Bool.eq_false_iff.2 fun ht => ?_
      have := h.stop.1 ht
      unfold State.stopping at this
      rw [hw] at this
      exact this
    have hinv := h.writer
    unfold WriterInv at hinv
    rw [hw] at hinv
    rw [hs]
    have hnot : ¬ s.notifies := by
      unfold State.notifies
      rw [hw]
      exact id
    have hheld : Holds (s.setWorker i .test) := h.toHolds.setWorker hpc rfl rfl
    exact
      { indices := hheld.indices
        outstanding := hheld.outstanding
        total := hheld.total
        nextFunction_le := h.nextFunction_le
        texts := h.texts
        output := h.output
        noException := h.noException
        noFailure := setWorker_noFailure h.noFailure i (by simp)
        workers := setWorker_ne_nil h.workers _ _
        stop := by
          dsimp only [State.setWorker]
          rw [hstop]
          exact ⟨fun ht => absurd ht Bool.false_ne_true, fun ht => ht.elim⟩
        exited := fun hm => h.exited (mem_set_of_ne hpc (by simp) hm)
        asleep := fun hm hp => absurd (h.asleep (mem_set_of_ne hpc (by simp) hm) hp) hnot
        writer := ⟨hinv.1, by
          have := hinv.2.1
          unfold Scheduled at this ⊢
          dsimp only [State.setWorker]
          rw [List.length_set]
          exact this, hinv.2.2.1⟩ }
  · have hs : (s.setWorker i .test).notifyResult = s.setWorker i .test := by
      dsimp only [State.notifyResult, State.setWorker]
      congr 1
      split
      · exact absurd ‹_› hw
      · rfl
    rw [hs]
    exact
      { toHolds := h.toHolds.setWorker hpc rfl rfl
        nextFunction_le := h.nextFunction_le
        texts := h.texts
        output := h.output
        noException := h.noException
        noFailure := setWorker_noFailure h.noFailure i (by simp)
        workers := setWorker_ne_nil h.workers _ _
        stop := h.stop
        exited := fun hm => h.exited (mem_set_of_ne hpc (by simp) hm)
        asleep := fun hm => h.asleep (mem_set_of_ne hpc (by simp) hm)
        writer := h.writer.of_worker rfl rfl rfl rfl (List.length_set ..) rfl fun hw' _ => absurd hw' hw }

end

theorem Inv.worker (hgen : ∀ f ∈ outputFunctions, ∃ code, generateFunctionCode f = .ok code)
    (h : Inv outputFunctions generateFunctionCode preamble s) {i : ℕ}
    (hs : workerStep outputFunctions generateFunctionCode s i = some s') :
    Inv outputFunctions generateFunctionCode preamble s' := by
  rcases workerStep_cases hgen h hs with ⟨hpc, hstop, rfl⟩ | ⟨hpc, hstop, hp, rfl⟩ |
    ⟨j, rest, hpc, -, hp, rfl⟩ | ⟨j, code, hpc, hcode, rfl⟩ | ⟨hpc, rfl⟩
  · exact h.exit hpc hstop
  · exact h.sleep hpc hstop hp
  · exact h.take hpc hp
  · exact h.finish hpc hcode
  · exact h.notifyResult hpc

/-! ## The loops of the writer -/

/-- `scheduleAvailableWork` hands out the next `k` indices, until the buffer is full. -/
theorem scheduleLoop_eq (fuel : ℕ) (s : State ε) : ∃ k ≤ fuel,
    s.scheduleLoop fuel =
      { s with
        pendingWork := s.pendingWork ++ List.range' s.nextFunction k
        nextFunction := s.nextFunction + k
        outstandingWork := s.outstandingWork + k } ∧
    (k = fuel ∨ s.stopWorkers = true ∨ maxBufferedOutput s.workers.length ≤
      s.outstandingWork + k + s.completedCode.length) := by
  induction fuel generalizing s with
  | zero => exact ⟨0, le_rfl, by simp [State.scheduleLoop], .inl rfl⟩
  | succ fuel ih =>
    unfold State.scheduleLoop
    split
    · obtain ⟨k, hk, heq, hend⟩ := ih
        { s with
          pendingWork := s.pendingWork ++ [s.nextFunction]
          nextFunction := s.nextFunction + 1
          outstandingWork := s.outstandingWork + 1 }
      refine ⟨k + 1, by omega, ?_, ?_⟩
      · rw [heq]
        dsimp only
        rw [List.append_assoc, List.singleton_append, List.range'_succ,
          Nat.add_assoc s.nextFunction, Nat.add_comm 1 k, Nat.add_assoc s.outstandingWork,
          Nat.add_comm 1 k]
      · rcases hend with h | h | h
        · exact .inl (by omega)
        · exact .inr (.inl h)
        · refine .inr (.inr ?_)
          dsimp only at h
          omega
    · rename_i hc
      refine ⟨0, Nat.zero_le _, by simp, ?_⟩
      cases hstop : s.stopWorkers with
      | true => exact .inr (.inl rfl)
      | false =>
        rw [hstop] at hc
        simp only [Bool.not_false, Bool.and_true, decide_eq_true_eq] at hc
        exact .inr (.inr (by omega))

theorem Holds.schedule (h : Holds s) (k : ℕ) :
    Holds { s with
      pendingWork := s.pendingWork ++ List.range' s.nextFunction k
      nextFunction := s.nextFunction + k
      outstandingWork := s.outstandingWork + k } := by
  have ht := h.total
  refine ⟨fun j => ?_, ?_, ?_⟩
  · have hj := h.indices j
    have hcount : (List.range' s.nextFunction k).count j =
        if s.nextFunction ≤ j ∧ j < s.nextFunction + k then 1 else 0 := by
      split
      · rename_i hr
        exact List.count_eq_one_of_mem List.nodup_range' (List.mem_range'_1.2 hr)
      · rename_i hr
        exact List.count_eq_zero.2 fun hm => hr (List.mem_range'_1.1 hm)
    dsimp only
    rw [List.count_append, hcount]
    split at hj <;> split <;> split <;> omega
  · have ho := h.outstanding
    dsimp only
    rw [List.length_append, List.length_range']
    omega
  · dsimp only
    omega

theorem foldl_emplace {r m : List (ℕ × String)} (h : ∀ j, (r.map Prod.fst).count j + (m.map Prod.fst).count j ≤ 1) :
    r.foldl State.emplace m = r.reverse ++ m := by
  induction r generalizing m with
  | nil => rfl
  | cons c r ih =>
    have hc : m.lookup c.1 = none := by
      have := h c.1
      rw [List.map_cons, List.count_cons_self] at this
      have hzero : (m.map Prod.fst).count c.1 = 0 := by omega
      rw [List.lookup_eq_none_iff]
      intro p hp
      refine bne_iff_ne.2 fun he => List.count_eq_zero.1 hzero ?_
      exact List.mem_map.2 ⟨p, hp, he.symm⟩
    rw [List.foldl_cons, State.emplace, if_pos hc, ih, List.reverse_cons, List.append_assoc, List.singleton_append]
    intro j
    have := h j
    rw [List.map_cons, List.count_cons] at this ⊢
    omega

theorem Holds.drain (h : Holds s) : Holds s.drain ∧ s.drain =
    { s with readyCode := [], completedCode := s.readyCode.reverse ++ s.completedCode } := by
  have hle : ∀ j, (s.readyCode.map Prod.fst).count j + (s.completedCode.map Prod.fst).count j ≤ 1 := by
    intro j
    have := h.indices j
    split at this <;> omega
  have heq : s.drain = { s with
      readyCode := [], completedCode := s.readyCode.reverse ++ s.completedCode } := by
    unfold State.drain
    rw [foldl_emplace hle]
  refine ⟨?_, heq⟩
  rw [heq]
  refine ⟨fun j => ?_, h.outstanding, ?_⟩
  · refine Eq.trans ?_ (h.indices j)
    dsimp only
    rw [List.map_append, List.count_append, List.map_reverse, List.count_reverse]
    simp only [List.map_nil, List.count_nil]
    omega
  · have := h.total
    dsimp only
    rw [List.length_append, List.length_reverse, List.length_nil]
    omega

theorem serialOutput_take {n : ℕ} {output code : String}
    (h : serialOutput (outputFunctions.take n) generateFunctionCode preamble = .ok output)
    (hcode : IsTextOf outputFunctions generateFunctionCode (n, code)) :
    serialOutput (outputFunctions.take (n + 1)) generateFunctionCode preamble = .ok (output ++ code ++ "\n\n") := by
  obtain ⟨f, hf, hg⟩ := hcode
  rw [List.take_add_one, hf]
  unfold serialOutput at h ⊢
  rw [Option.toList_some, List.foldlM_append, h]
  rw [show (Except.ok output >>= fun init => List.foldlM (fun output function => do
      let code ← generateFunctionCode function
      pure (output ++ code ++ "\n\n")) init [f]) = List.foldlM (fun output function => do
      let code ← generateFunctionCode function
      pure (output ++ code ++ "\n\n")) output [f] from rfl, List.foldlM_cons, hg]
  rfl

theorem Holds.write (h : Holds s) (hl : s.completedCode.lookup s.nextOutputIndex = some code) :
    Holds { s with
      combinedOutput := s.combinedOutput ++ code ++ "\n\n"
      completedCode := s.completedCode.filter (·.1 != s.nextOutputIndex)
      nextOutputIndex := s.nextOutputIndex + 1 } ∧
    (s.completedCode.filter (·.1 != s.nextOutputIndex)).length + 1 = s.completedCode.length := by
  have hmem : s.nextOutputIndex ∈ s.completedCode.map Prod.fst := by
    obtain ⟨l1, l2, hl', -⟩ := List.lookup_eq_some_iff.1 hl
    rw [hl']
    simp
  have hpos := List.count_pos_iff.2 hmem
  have hnext := h.indices s.nextOutputIndex
  have hone : (s.completedCode.map Prod.fst).count s.nextOutputIndex = 1 := by
    split at hnext <;> omega
  have hcount : ∀ j, ((s.completedCode.filter (·.1 != s.nextOutputIndex)).map Prod.fst).count j =
      if j = s.nextOutputIndex then 0 else (s.completedCode.map Prod.fst).count j := by
    intro j
    rw [List.count_eq_countP, List.countP_map, List.countP_filter, List.count_eq_countP, List.countP_map]
    split
    · rename_i hj
      refine List.countP_eq_zero.2 fun c _ hc => ?_
      simp only [Function.comp_apply, Bool.and_eq_true, beq_iff_eq, bne_iff_ne, hj] at hc
      exact hc.2 hc.1
    · rename_i hj
      refine List.countP_congr fun c _ => ?_
      simp only [Function.comp_apply, Bool.and_eq_true, beq_iff_eq, bne_iff_ne, and_iff_left_iff_imp]
      exact fun hc he => hj (hc ▸ he)
  have hlen : (s.completedCode.filter (·.1 != s.nextOutputIndex)).length + 1 =
      s.completedCode.length := by
    have hsplit := List.length_eq_countP_add_countP (fun c : ℕ × String => c.1 == s.nextOutputIndex)
      (l := s.completedCode)
    rw [List.count_eq_countP, List.countP_map] at hone
    rw [← List.countP_eq_length_filter]
    have heq : (fun c : ℕ × String => c.1 != s.nextOutputIndex) = fun c => !(c.1 == s.nextOutputIndex) := rfl
    have hone' : s.completedCode.countP (fun c => c.1 == s.nextOutputIndex) = 1 := hone
    rw [heq]
    simp only [Bool.not_eq_true, Bool.decide_eq_false] at hsplit
    omega
  refine ⟨⟨fun j => ?_, h.outstanding, ?_⟩, hlen⟩
  · have hj := h.indices j
    dsimp only
    rw [hcount j]
    by_cases hjn : j = s.nextOutputIndex
    · subst hjn
      rw [if_pos rfl]
      split at hj <;> split <;> omega
    · rw [if_neg hjn]
      split at hj <;> split <;> omega
  · have := h.total
    dsimp only
    omega

/-- What the loop of `flushCompletedOutput` reads and writes. -/
structure FlushInv (outputFunctions : List α) (generateFunctionCode : α → Except ε String)
    (preamble : String) (s : State ε) : Prop extends Holds s where
  texts : ∀ c ∈ s.completedCode, IsTextOf outputFunctions generateFunctionCode c
  output : serialOutput (outputFunctions.take s.nextOutputIndex) generateFunctionCode preamble = .ok s.combinedOutput

theorem flushLoop_eq (fuel : ℕ) (s : State ε) : ∃ c n o,
    s.flushLoop fuel = { s with completedCode := c, nextOutputIndex := n, combinedOutput := o } := by
  induction fuel generalizing s with
  | zero => exact ⟨_, _, _, rfl⟩
  | succ fuel ih =>
    unfold State.flushLoop
    split
    · exact ⟨_, _, _, rfl⟩
    · obtain ⟨c, n, o, h⟩ := ih
        { s with
          combinedOutput := s.combinedOutput ++ ‹String› ++ "\n\n"
          completedCode := s.completedCode.filter (·.1 != s.nextOutputIndex)
          nextOutputIndex := s.nextOutputIndex + 1 }
      exact ⟨c, n, o, h⟩

theorem not_mem_of_lookup {m : List (ℕ × String)} {n : ℕ} (h : m.lookup n = none) : n ∉ m.map Prod.fst := by
  intro hm
  obtain ⟨p, hp, rfl⟩ := List.mem_map.1 hm
  have := List.lookup_eq_none_iff.1 h p hp
  simp at this

theorem FlushInv.flushLoop {fuel : ℕ} (h : FlushInv outputFunctions generateFunctionCode preamble s)
    (hf : s.completedCode.length ≤ fuel) :
    FlushInv outputFunctions generateFunctionCode preamble (s.flushLoop fuel) ∧ Flushed (s.flushLoop fuel) := by
  induction fuel generalizing s with
  | zero =>
    refine ⟨h, ?_⟩
    unfold State.flushLoop Flushed
    rw [List.length_eq_zero_iff.1 (Nat.le_zero.1 hf)]
    simp
  | succ fuel ih =>
    unfold State.flushLoop
    split
    · rename_i hl
      exact ⟨h, not_mem_of_lookup hl⟩
    · rename_i code hl
      obtain ⟨hheld, hlen⟩ := h.toHolds.write hl
      have htext : IsTextOf outputFunctions generateFunctionCode (s.nextOutputIndex, code) := by
        obtain ⟨l1, l2, hl', -⟩ := List.lookup_eq_some_iff.1 hl
        exact h.texts _ (by rw [hl']; simp)
      refine ih ⟨hheld, fun c hc => h.texts c (List.mem_of_mem_filter hc), serialOutput_take h.output htext⟩ ?_
      dsimp only
      omega

/-! ## Steps of the writer -/

/-- The final check is not made while the last results are on their way: the counter is zero,
all functions are scheduled, none is completed, but some are ready. -/
def Checks (outputFunctions : List α) (s : State ε) : Prop :=
  match s.writer with
  | .finalCheck => s.outstandingWork = 0 → outputFunctions.length ≤ s.nextFunction →
      s.completedCode = [] → s.readyCode = []
  | _ => True

theorem Holds.notifyWork (h : Holds s) : Holds s.notifyWork := by
  have hcount : ∀ p : WorkerPc → Bool, p .asleep = p .test → (s.workers.map .woken).countP p = s.workers.countP p := by
    intro p hp
    rw [List.countP_map]
    refine List.countP_congr fun pc _ => ?_
    cases pc <;> simp [WorkerPc.woken, hp]
  refine ⟨fun j => ?_, ?_, h.total⟩
  · refine Eq.trans ?_ (h.indices j)
    dsimp only [State.notifyWork, List.count]
    rw [hcount (· == .working j) rfl]
  · refine h.outstanding.trans ?_
    dsimp only [State.notifyWork]
    rw [hcount _ rfl]

theorem asleep_not_mem_notifyWork : .asleep ∉ s.notifyWork.workers := by
  intro h
  obtain ⟨pc, -, hpc⟩ := List.mem_map.1 h
  cases pc <;> cases hpc

theorem mem_notifyWork {pc : WorkerPc} (h : pc ∈ s.notifyWork.workers) (hpc : pc ≠ .test) : pc ∈ s.workers := by
  obtain ⟨q, hq, rfl⟩ := List.mem_map.1 h
  cases q with
  | asleep => exact absurd rfl hpc
  | _ => exact hq

variable {pc : WriterPc ε}

section

variable (h : Inv outputFunctions generateFunctionCode preamble s)

include h

theorem Inv.notifyWork (hstop : State.stopping { s.notifyWork with writer := pc } ↔ s.stopping)
    (hw : WriterInv outputFunctions { s.notifyWork with writer := pc }) :
    Inv outputFunctions generateFunctionCode preamble { s.notifyWork with writer := pc } where
  indices := h.toHolds.notifyWork.indices
  outstanding := h.toHolds.notifyWork.outstanding
  total := h.toHolds.notifyWork.total
  nextFunction_le := h.nextFunction_le
  texts := h.texts
  output := h.output
  noException := h.noException
  noFailure := by
    intro q hq
    by_cases ht : q = .test
    · rw [ht]
      simp
    · exact h.noFailure q (mem_notifyWork hq ht)
  workers := by
    dsimp only [State.notifyWork]
    simpa using h.workers
  stop := h.stop.trans hstop.symm
  exited := fun hm => h.exited (mem_notifyWork hm (by simp))
  asleep := fun hm => absurd hm asleep_not_mem_notifyWork
  writer := hw

theorem Inv.goto (hstop : State.stopping { s with writer := pc } ↔ s.stopping) (hn : ¬ s.notifies)
    (hw : WriterInv outputFunctions { s with writer := pc }) :
    Inv outputFunctions generateFunctionCode preamble { s with writer := pc } where
  indices := h.indices
  outstanding := h.outstanding
  total := h.total
  nextFunction_le := h.nextFunction_le
  texts := h.texts
  output := h.output
  noException := h.noException
  noFailure := h.noFailure
  workers := h.workers
  stop := h.stop.trans hstop.symm
  exited := h.exited
  asleep := fun hm hp => absurd (h.asleep hm hp) hn
  writer := hw

/-- `scheduleAvailableWork`, from a place where it goes on to `quiet` if there was nothing to
schedule and to `told` if there was. -/
theorem Inv.schedule {quiet told : WriterPc ε} (hfl : Flushed s) (hstop : ¬ s.stopping) (hn : ¬ s.notifies)
    (hq : ∀ t : State ε, t.writer = quiet → Flushed t → Scheduled outputFunctions t →
      WriterInv outputFunctions t ∧ ¬ t.stopping)
    (ht : ∀ t : State ε, t.writer = told → Flushed t → Scheduled outputFunctions t →
      WriterInv outputFunctions t ∧ ¬ t.stopping ∧ t.notifies) :
    Inv outputFunctions generateFunctionCode preamble
      { s.scheduleAvailableWork outputFunctions with
        writer := if (s.scheduleAvailableWork outputFunctions).nextFunction = s.nextFunction
          then quiet else told } := by
  obtain ⟨k, hk, heq, hend⟩ := scheduleLoop_eq (outputFunctions.length - s.nextFunction) s
  have hsf : s.stopWorkers = false := Bool.eq_false_iff.2 fun hs => hstop (h.stop.1 hs)
  have hle := h.nextFunction_le
  unfold State.scheduleAvailableWork
  rw [heq]
  dsimp only
  -- the state after the loop, at either place
  have hinv : ∀ pc : WriterPc ε, ∀ t : State ε, t =
      { s with
        pendingWork := s.pendingWork ++ List.range' s.nextFunction k
        nextFunction := s.nextFunction + k
        outstandingWork := s.outstandingWork + k
        writer := pc } →
      Flushed t ∧ Scheduled outputFunctions t ∧
      (WriterInv outputFunctions t → ¬ t.stopping → (k = 0 ∨ t.notifies) →
        Inv outputFunctions generateFunctionCode preamble t) := by
    rintro pc t rfl
    have hheld := h.toHolds.schedule k
    refine ⟨hfl, ?_, fun hw hs hp => ?_⟩
    · rcases hend with hd | hd | hd
      · exact .inl (by dsimp only; omega)
      · rw [hsf] at hd
        cases hd
      · exact .inr (by dsimp only; omega)
    · exact
        { indices := hheld.indices
          outstanding := hheld.outstanding
          total := hheld.total
          nextFunction_le := by dsimp only; omega
          texts := h.texts
          output := h.output
          noException := h.noException
          noFailure := h.noFailure
          workers := h.workers
          stop := ⟨fun hs' => absurd (h.stop.1 hs') hstop, fun hs' => absurd hs' hs⟩
          exited := h.exited
          asleep := by
            intro hm hor
            rcases hp with hp | hp
            · subst hp
              rw [List.range'_zero, List.append_nil] at hor
              exact absurd (h.asleep hm hor) hn
            · exact hp
          writer := hw }
  split
  · rename_i hz
    obtain ⟨hf', hs', hi⟩ := hinv quiet _ rfl
    obtain ⟨hw, hst⟩ := hq _ rfl hf' hs'
    exact hi hw hst (.inl (by omega))
  · obtain ⟨hf', hs', hi⟩ := hinv told _ rfl
    obtain ⟨hw, hst, hno⟩ := ht _ rfl hf' hs'
    exact hi hw hst (.inr hno)

section

variable (hstop : ¬ s.stopping) (hn : ¬ s.notifies)

include hstop hn

theorem Inv.drain : Inv outputFunctions generateFunctionCode preamble { s.drain with writer := .flush } := by
  obtain ⟨hheld, heq⟩ := h.toHolds.drain
  rw [heq] at hheld ⊢
  exact
    { indices := hheld.indices
      outstanding := hheld.outstanding
      total := hheld.total
      nextFunction_le := h.nextFunction_le
      texts := by
        intro c hc
        refine h.texts c ?_
        simpa using hc
      output := h.output
      noException := h.noException
      noFailure := h.noFailure
      workers := h.workers
      stop := ⟨fun hs => absurd (h.stop.1 hs) hstop, fun hs => hs.elim⟩
      exited := h.exited
      asleep := fun hm hp => absurd (h.asleep hm hp) hn
      writer := True.intro }

theorem Inv.flush :
    Inv outputFunctions generateFunctionCode preamble { s.flushCompletedOutput with writer := .schedule } := by
  have hpre : FlushInv outputFunctions generateFunctionCode preamble s :=
    ⟨h.toHolds, fun c hc => h.texts c (List.mem_append_right _ hc), h.output⟩
  obtain ⟨hpost, hfl⟩ := hpre.flushLoop le_rfl
  obtain ⟨c, n, o, heq⟩ := flushLoop_eq s.completedCode.length s
  unfold State.flushCompletedOutput
  rw [heq] at hpost hfl ⊢
  exact
    { indices := hpost.indices
      outstanding := hpost.outstanding
      total := hpost.total
      nextFunction_le := h.nextFunction_le
      texts := by
        intro c hc
        rcases List.mem_append.1 hc with hc | hc
        · exact h.texts c (List.mem_append_left _ hc)
        · exact hpost.texts c hc
      output := hpost.output
      noException := h.noException
      noFailure := h.noFailure
      workers := h.workers
      stop := ⟨fun hs => absurd (h.stop.1 hs) hstop, fun hs => hs.elim⟩
      exited := h.exited
      asleep := fun hm hp => absurd (h.asleep hm hp) hn
      writer := hfl }

end

/-- The check throws only when a result is on its way: otherwise all is written. -/
theorem Inv.finalCheck (hc : s.nextOutputIndex < outputFunctions.length)
    (hready : s.outstandingWork = 0 → outputFunctions.length ≤ s.nextFunction → s.completedCode = [] → s.readyCode = [])
    :
    ¬ (s.outstandingWork = 0 ∧ outputFunctions.length ≤ s.nextFunction ∧ s.completedCode = []) := by
  rintro ⟨ho, hf, hcc⟩
  have ht := h.total
  rw [ho, hready ho hf hcc, hcc] at ht
  simp only [List.length_nil] at ht
  omega

theorem Inv.writerStep (hc : Checks outputFunctions s) (hs : writerStep outputFunctions s = some s') :
    Inv outputFunctions generateFunctionCode preamble s' := by
  have hinv := h.writer
  have hstop := h.stop
  unfold CombinedOutput.writerStep at hs
  unfold WriterInv at hinv
  cases hpc : s.writer with
  | start =>
    rw [hpc] at hs hinv
    cases hs
    refine h.schedule ?_ (by simp [State.stopping, hpc]) (by simp [State.notifies, hpc]) ?_ ?_
    · unfold Flushed
      rw [hinv]
      simp
    · intro t ht hf hsc
      simp only [WriterInv, State.stopping, ht]
      exact ⟨⟨hf, hsc⟩, id⟩
    · intro t ht hf hsc
      simp only [WriterInv, State.stopping, State.notifies, ht]
      exact ⟨⟨hf, hsc⟩, id, True.intro⟩
  | startNotify | notify =>
    rw [hpc] at hs hinv
    cases hs
    refine h.notifyWork (by simp [State.stopping, hpc]) ⟨hinv.1, ?_⟩
    have := hinv.2
    unfold Scheduled at this ⊢
    dsimp only [State.notifyWork]
    rw [List.length_map]
    exact this
  | loop =>
    rw [hpc] at hs hinv
    cases hs
    split
    · rename_i hlt
      exact h.goto (by simp [State.stopping, hpc]) (by simp [State.notifies, hpc]) ⟨hinv.1, hinv.2, hlt⟩
    · rename_i hlt
      exact h.goto (by simp [State.stopping, hpc]) (by simp [State.notifies, hpc]) ⟨rfl, Nat.le_of_not_lt hlt⟩
  | test =>
    rw [hpc] at hs hinv
    dsimp only at hs
    split at hs
    · rename_i e he
      rw [h.noException] at he
      cases he
    · split at hs
      · cases hs
        exact h.drain (by simp [State.stopping, hpc]) (by simp [State.notifies, hpc])
      · rename_i hw
        cases hs
        exact h.goto (by simp [State.stopping, hpc]) (by simp [State.notifies, hpc])
          ⟨hinv.1, hinv.2.1, hinv.2.2, fun hr => absurd hr hw⟩
  | asleep => rw [hpc] at hs; cases hs
  | flush =>
    rw [hpc] at hs
    cases hs
    exact h.flush (by simp [State.stopping, hpc]) (by simp [State.notifies, hpc])
  | schedule =>
    rw [hpc] at hs hinv
    cases hs
    refine h.schedule hinv (by simp [State.stopping, hpc]) (by simp [State.notifies, hpc]) ?_ ?_
    · intro t ht hf hsc
      simp only [WriterInv, State.stopping, ht]
      exact ⟨⟨hf, hsc⟩, id⟩
    · intro t ht hf hsc
      simp only [WriterInv, State.stopping, State.notifies, ht]
      exact ⟨⟨hf, hsc⟩, id, True.intro⟩
  | check =>
    rw [hpc] at hs hinv
    cases hs
    split
    · rename_i hle
      exact h.goto (by simp [State.stopping, hpc]) (by simp [State.notifies, hpc]) ⟨rfl, hle⟩
    · rename_i hle
      exact h.goto (by simp [State.stopping, hpc]) (by simp [State.notifies, hpc])
        ⟨hinv.1, hinv.2, Nat.lt_of_not_le hle⟩
  | finalCheck =>
    unfold Checks at hc
    rw [hpc] at hs hinv hc
    cases hs
    rw [if_neg (h.finalCheck hinv.2.2 hc)]
    exact h.goto (by simp [State.stopping, hpc]) (by simp [State.notifies, hpc]) ⟨hinv.1, hinv.2.1⟩
  | stop failure =>
    rw [hpc] at hs hinv
    cases hs
    exact
      { indices := h.indices
        outstanding := h.outstanding
        total := h.total
        nextFunction_le := h.nextFunction_le
        texts := h.texts
        output := h.output
        noException := h.noException
        noFailure := h.noFailure
        workers := h.workers
        stop := ⟨fun _ => True.intro, fun _ => rfl⟩
        exited := fun _ => rfl
        asleep := fun _ _ => True.intro
        writer := hinv }
  | stopNotify failure =>
    rw [hpc] at hs hinv
    cases hs
    exact h.notifyWork (by simp [State.stopping, hpc]) hinv
  | join failure =>
    rw [hpc] at hs hinv
    obtain ⟨rfl, hle⟩ := hinv
    dsimp only at hs
    split at hs
    · cases hs
      exact h.goto (by simp [State.stopping, hpc]) (by simp [State.notifies, hpc]) hle
    · cases hs
  | done => rw [hpc] at hs; cases hs
  | threw => rw [hpc] at hinv; exact hinv.elim

end

/-! ## Runs -/

/-- The steps that meet the condition of the final check. -/
def CheckedStep (outputFunctions : List α) (generateFunctionCode : α → Except ε String)
    (s : State ε) (a : Act) (s' : State ε) : Prop :=
  step outputFunctions generateFunctionCode s a = some s' ∧ (a = .writer → Checks outputFunctions s)

/-- **Every step keeps the invariant.** -/
theorem Inv.step (hgen : ∀ f ∈ outputFunctions, ∃ code, generateFunctionCode f = .ok code)
    {a : Act} (h : Inv outputFunctions generateFunctionCode preamble s)
    (hs : CheckedStep outputFunctions generateFunctionCode s a s') :
    Inv outputFunctions generateFunctionCode preamble s' := by
  obtain ⟨hs, hc⟩ := hs
  cases a with
  | worker i => exact h.worker hgen hs
  | writer => exact h.writerStep (hc rfl) hs
  | spurious i =>
    unfold CombinedOutput.step at hs
    dsimp only at hs
    split at hs
    · rename_i hpc
      cases hs
      exact
        { toHolds := h.toHolds.setWorker hpc rfl rfl
          nextFunction_le := h.nextFunction_le
          texts := h.texts
          output := h.output
          noException := h.noException
          noFailure := setWorker_noFailure h.noFailure i (by simp)
          workers := setWorker_ne_nil h.workers _ _
          stop := h.stop
          exited := fun hm => h.exited (mem_set_of_ne hpc (by simp) hm)
          asleep := fun hm => h.asleep (mem_set_of_ne hpc (by simp) hm)
          writer := h.writer.of_worker rfl rfl rfl rfl (List.length_set ..) rfl fun hw hr =>
            mem_set_of_mem hpc (by simp) (h.writer.announced hw hr) }
    · cases hs
  | spuriousWriter =>
    have hinv := h.writer
    unfold CombinedOutput.step at hs
    unfold WriterInv at hinv
    dsimp only at hs
    split at hs
    · rename_i hpc
      rw [hpc] at hinv
      obtain ⟨hfl, hsc, hlt, -⟩ := hinv
      cases hs
      have hw : WriterInv outputFunctions { s with writer := .test } := ⟨hfl, hsc, hlt⟩
      exact h.goto (by simp [State.stopping, hpc]) (by simp [State.notifies, hpc]) hw
    · cases hs

theorem inv_initial {outputWorkerCount : ℕ} (hw : 1 < outputWorkerCount) :
    Inv outputFunctions generateFunctionCode preamble (initial preamble outputWorkerCount) where
  indices := by
    intro j
    simp [initial, List.count_replicate]
  outstanding := by simp [initial, List.countP_replicate, WorkerPc.isWorking]
  total := rfl
  nextFunction_le := Nat.zero_le _
  texts := fun c hc => by cases hc
  output := rfl
  noException := rfl
  noFailure := by
    intro pc hpc
    rw [List.eq_of_mem_replicate hpc]
    simp
  workers := by
    dsimp only [initial]
    intro h
    have := congrArg List.length h
    simp at this
    omega
  stop := ⟨fun h => absurd h Bool.false_ne_true, fun h => h.elim⟩
  exited := fun h => by cases List.eq_of_mem_replicate h
  asleep := fun h => by cases List.eq_of_mem_replicate h
  writer := rfl

/-! ## Progress -/

/-- Wake ups without notification are left out. -/
def Act.genuine : Act → Bool
  | .worker _ | .writer => true
  | .spurious _ | .spuriousWriter => false

theorem Inv.worker_enabled (hgen : ∀ f ∈ outputFunctions, ∃ code, generateFunctionCode f = .ok code)
    (h : Inv outputFunctions generateFunctionCode preamble s) {pc : WorkerPc} (hm : pc ∈ s.workers) (ha : pc ≠ .asleep)
    (he : pc ≠ .exited) : ∃ i s', workerStep outputFunctions generateFunctionCode s i = some s' := by
  obtain ⟨i, hi, hpc⟩ := List.getElem_of_mem hm
  refine ⟨i, ?_⟩
  unfold workerStep
  rw [List.getElem?_eq_getElem hi, hpc]
  cases pc with
  | test =>
    dsimp only
    split
    · exact ⟨_, rfl⟩
    · split
      · exact ⟨_, rfl⟩
      · exact ⟨_, rfl⟩
  | working j =>
    have hj := h.working_lt hm
    obtain ⟨code, hcode⟩ := hgen _ (List.getElem_mem hj)
    dsimp only
    rw [List.getElem?_eq_getElem hj, Option.map_some, hcode]
    exact ⟨_, rfl⟩
  | notifyResult => exact ⟨_, rfl⟩
  | notifyFailure => exact absurd rfl (h.noFailure _ hm).1
  | notifyStop => exact absurd rfl (h.noFailure _ hm).2
  | asleep => exact absurd rfl ha
  | exited => exact absurd rfl he

theorem Holds.next_pending (h : Holds s) (hfl : Flushed s) (hlt : s.nextOutputIndex < s.nextFunction) :
    s.outstandingWork ≠ 0 ∨ s.readyCode ≠ [] := by
  by_contra hcon
  rw [not_or, not_not, not_not] at hcon
  have hnext := h.indices s.nextOutputIndex
  have ho := h.outstanding
  rw [hcon.1] at ho
  have hp : s.pendingWork = [] := List.length_eq_zero_iff.1 (by omega)
  have hw : s.workers.count (.working s.nextOutputIndex) = 0 := by
    have hz : s.workers.countP WorkerPc.isWorking = 0 := by omega
    refine List.count_eq_zero.2 fun hm => ?_
    exact List.countP_eq_zero.1 hz _ hm rfl
  rw [if_pos ⟨le_rfl, hlt⟩, hp, hw, hcon.2, List.count_eq_zero.2 hfl] at hnext
  simp at hnext

/-- **No deadlock**: until the writer is done, some thread has a step. -/
theorem Inv.progress (hgen : ∀ f ∈ outputFunctions, ∃ code, generateFunctionCode f = .ok code)
    (h : Inv outputFunctions generateFunctionCode preamble s) :
    s.writer = .done ∨ ∃ a s', a.genuine = true ∧
      CombinedOutput.step outputFunctions generateFunctionCode s a = some s' := by
  have hworker : (∃ pc ∈ s.workers, pc ≠ .asleep ∧ pc ≠ .exited) →
      ∃ a s', a.genuine = true ∧ CombinedOutput.step outputFunctions generateFunctionCode s a = some s' := by
    rintro ⟨pc, hm, ha, he⟩
    obtain ⟨i, s', hs⟩ := h.worker_enabled hgen hm ha he
    exact ⟨.worker i, s', rfl, hs⟩
  have hwriter : (∃ s', CombinedOutput.writerStep outputFunctions s = some s') →
      ∃ a s', a.genuine = true ∧ CombinedOutput.step outputFunctions generateFunctionCode s a = some s' :=
    fun ⟨s', hs⟩ => ⟨.writer, s', rfl, hs⟩
  have hinv := h.writer
  unfold WriterInv at hinv
  unfold CombinedOutput.writerStep at hwriter
  cases hpc : s.writer with
  | done => exact .inl rfl
  | threw => rw [hpc] at hinv; exact hinv.elim
  | asleep =>
    rw [hpc] at hinv
    right
    apply hworker
    by_contra hcon
    push Not at hcon
    have hns : s.stopWorkers = false := by
      refine Bool.eq_false_iff.2 fun hs => ?_
      have := h.stop.1 hs
      unfold State.stopping at this
      rw [hpc] at this
      exact this
    have hall : ∀ pc ∈ s.workers, pc = .asleep := by
      intro pc hm
      by_contra hne
      have := h.exited (hcon pc hm hne ▸ hm)
      rw [hns] at this
      cases this
    -- so nothing is pending, nobody works and no result came in
    obtain ⟨pc, hm⟩ := List.exists_mem_of_ne_nil _ h.workers
    have hsleep : .asleep ∈ s.workers := hall pc hm ▸ hm
    have hp : s.pendingWork = [] := by
      by_contra hne
      have := h.asleep hsleep (.inl hne)
      unfold State.notifies at this
      rw [hpc] at this
      exact this
    have hwork : s.workers.countP WorkerPc.isWorking = 0 :=
      List.countP_eq_zero.2 fun pc hm => by rw [hall pc hm]; simp [WorkerPc.isWorking]
    have ho := h.outstanding
    rw [hp, hwork] at ho
    have hnr : ¬ (s.readyCode ≠ [] ∨ s.outstandingWork = 0 ∧ outputFunctions.length ≤ s.nextFunction) :=
      fun hr => by cases hall _ (hinv.2.2.2 hr)
    rw [not_or, not_not, not_and, not_le] at hnr
    have hlt := hnr.2 ho
    -- the buffer is full of completed functions, so the next one is among them
    have hsc := hinv.2.1
    have ht := h.total
    unfold Scheduled maxBufferedOutput at hsc
    rw [ho, hnr.1] at hsc ht
    simp only [List.length_nil] at hsc ht
    have hnext : s.nextOutputIndex < s.nextFunction := by
      rcases hsc with hsc | hsc
      · omega
      · omega
    rcases h.toHolds.next_pending hinv.1 hnext with hne | hne
    · exact hne ho
    · exact hne hnr.1
  | join failure =>
    right
    by_cases hall : s.workers.all (· == .exited) = true
    · apply hwriter
      rw [hpc]
      dsimp only
      rw [if_pos hall]
      exact ⟨_, rfl⟩
    · apply hworker
      rw [List.all_eq_true] at hall
      push Not at hall
      obtain ⟨pc, hm, hne⟩ := hall
      refine ⟨pc, hm, ?_, by simpa using hne⟩
      rintro rfl
      have hstop := h.stop.2 (by simp [State.stopping, hpc])
      have := h.asleep hm (.inr hstop)
      unfold State.notifies at this
      rw [hpc] at this
      exact this
  | test =>
    right
    apply hwriter
    rw [hpc]
    dsimp only
    split
    · exact ⟨_, rfl⟩
    · split
      · exact ⟨_, rfl⟩
      · exact ⟨_, rfl⟩
  | start | startNotify | loop | flush | schedule | notify | check | finalCheck | stop
  | stopNotify =>
    right
    apply hwriter
    rw [hpc]
    exact ⟨_, rfl⟩

/-! ## The end -/

/-- The steps the writer may make before it takes results over again, with `w` workers to wake
up. -/
def WriterPc.rank (w : ℕ) : WriterPc ε → ℕ
  | .flush => w + 10
  | .schedule => w + 9
  | .notify => 2 * w + 9
  | .check => w + 8
  | .finalCheck => w + 7
  | .start => w + 7
  | .startNotify => 2 * w + 7
  | .loop => w + 6
  | .test => w + 5
  | .asleep => w + 4
  | .stop _ => w + 3
  | .stopNotify _ => w + 2
  | .join _ => 1
  | .done | .threw _ => 0

/-- What is left to do. -/
def work (outputFunctions : List α) (s : State ε) : ℕ :=
  (s.workers.length + 12) * (outputFunctions.length - s.nextFunction) +
    11 * s.pendingWork.length + 11 * s.workers.countP WorkerPc.isWorking +
    6 * s.readyCode.length + s.writer.rank s.workers.length + (s.workers.map WorkerPc.rank).sum

theorem work_worker (hgen : ∀ f ∈ outputFunctions, ∃ code, generateFunctionCode f = .ok code)
    (h : Inv outputFunctions generateFunctionCode preamble s) {i : ℕ}
    (hs : workerStep outputFunctions generateFunctionCode s i = some s') :
    work outputFunctions s' < work outputFunctions s := by
  rcases workerStep_cases hgen h hs with ⟨hpc, -, rfl⟩ | ⟨hpc, -, -, rfl⟩ |
    ⟨j, rest, hpc, -, hp, rfl⟩ | ⟨j, code, hpc, -, rfl⟩ | ⟨hpc, rfl⟩
  · have h1 := countP_set_add (b := .exited) hpc WorkerPc.isWorking
    have h2 := sum_set_add (b := .exited) hpc WorkerPc.rank
    simp only [WorkerPc.isWorking, WorkerPc.rank, Bool.false_eq_true, if_false] at h1 h2
    simp only [work, State.setWorker, List.length_set]
    omega
  · have h1 := countP_set_add (b := .asleep) hpc WorkerPc.isWorking
    have h2 := sum_set_add (b := .asleep) hpc WorkerPc.rank
    simp only [WorkerPc.isWorking, WorkerPc.rank, Bool.false_eq_true, if_false] at h1 h2
    simp only [work, State.setWorker, List.length_set]
    omega
  · have h1 := countP_set_add (b := .working j) hpc WorkerPc.isWorking
    have h2 := sum_set_add (b := .working j) hpc WorkerPc.rank
    simp only [WorkerPc.isWorking, WorkerPc.rank, Bool.false_eq_true, if_false, if_true] at h1 h2
    simp only [work, State.setWorker, List.length_set, hp, List.length_cons]
    omega
  · have h1 := countP_set_add (b := .notifyResult) hpc WorkerPc.isWorking
    have h2 := sum_set_add (b := .notifyResult) hpc WorkerPc.rank
    simp only [WorkerPc.isWorking, WorkerPc.rank, Bool.false_eq_true, if_false, if_true] at h1 h2
    simp only [work, State.setWorker, List.length_set, List.length_append, List.length_singleton]
    omega
  · have h1 := countP_set_add (b := .test) hpc WorkerPc.isWorking
    have h2 := sum_set_add (b := .test) hpc WorkerPc.rank
    simp only [WorkerPc.isWorking, WorkerPc.rank, Bool.false_eq_true, if_false] at h1 h2
    have hrank : (s.setWorker i .test).notifyResult.writer.rank s.workers.length ≤
        s.writer.rank s.workers.length + 1 := by
      cases hw : s.writer <;> simp [State.notifyResult, State.setWorker, hw, WriterPc.rank]
    simp only [work, State.notifyResult, State.setWorker, List.length_set] at hrank ⊢
    omega

/-- Each worker that is woken up tests its predicate once more. -/
theorem sum_woken (l : List WorkerPc) :
    ((l.map .woken).map WorkerPc.rank).sum ≤ (l.map WorkerPc.rank).sum + l.length := by
  induction l with
  | nil => simp
  | cons pc l ih =>
    simp only [List.map_cons, List.sum_cons, List.length_cons]
    cases pc <;> simp only [WorkerPc.woken, WorkerPc.rank] <;> omega

/-- The work that is left after `scheduleAvailableWork` pays for waking the workers up. -/
theorem work_schedule (h : Inv outputFunctions generateFunctionCode preamble s) {quiet told : WriterPc ε} {w r : ℕ}
    (hw : s.workers.length = w) (hr : s.writer.rank w = r) (hq : quiet.rank w < r) (ht : told.rank w ≤ r + w) :
    work outputFunctions
      { s.scheduleAvailableWork outputFunctions with
        writer := if (s.scheduleAvailableWork outputFunctions).nextFunction = s.nextFunction
          then quiet else told } < work outputFunctions s := by
  obtain ⟨k, hk, heq, -⟩ := scheduleLoop_eq (outputFunctions.length - s.nextFunction) s
  have hle := h.nextFunction_le
  unfold State.scheduleAvailableWork
  rw [heq]
  simp only [work, List.length_append, List.length_range', hw, hr]
  have hd : outputFunctions.length - s.nextFunction = outputFunctions.length - (s.nextFunction + k) + k := by omega
  have hexp : (w + 12) * (outputFunctions.length - s.nextFunction) =
      (w + 12) * (outputFunctions.length - (s.nextFunction + k)) + (w * k + 12 * k) := by
    rw [← Nat.add_mul, ← Nat.mul_add, ← hd]
  by_cases hz : k = 0
  · subst hz
    rw [if_pos (Nat.add_zero _)]
    simp only [Nat.add_zero] at hexp ⊢
    omega
  · rw [if_neg (by omega)]
    have hk1 : w ≤ w * k := Nat.le_mul_of_pos_right w (by omega)
    omega

theorem work_notifyWork {w : ℕ} (hw : s.workers.length = w) (hr : pc.rank w + w < s.writer.rank w) :
    work outputFunctions { s.notifyWork with writer := pc } < work outputFunctions s := by
  have hsum := sum_woken s.workers
  have hcount : (s.workers.map .woken).countP WorkerPc.isWorking = s.workers.countP WorkerPc.isWorking := by
    rw [List.countP_map]
    refine List.countP_congr fun pc _ => ?_
    cases pc <;> simp [WorkerPc.woken, WorkerPc.isWorking]
  simp only [work, State.notifyWork, List.length_map, hcount, hw]
  omega

theorem work_goto (hr : pc.rank s.workers.length < s.writer.rank s.workers.length) :
    work outputFunctions { s with writer := pc } < work outputFunctions s := by
  simp only [work]
  omega

theorem work_writer (h : Inv outputFunctions generateFunctionCode preamble s)
    (hs : writerStep outputFunctions s = some s') : work outputFunctions s' < work outputFunctions s := by
  have hinv := h.writer
  unfold CombinedOutput.writerStep at hs
  unfold WriterInv at hinv
  cases hpc : s.writer with
  | start | schedule =>
    rw [hpc] at hs
    cases hs
    refine work_schedule h rfl rfl ?_ ?_ <;> rw [hpc] <;> simp only [WriterPc.rank] <;> omega
  | startNotify | notify | stopNotify =>
    rw [hpc] at hs
    cases hs
    refine work_notifyWork rfl ?_
    rw [hpc]
    simp only [WriterPc.rank]
    omega
  | loop | check | finalCheck =>
    rw [hpc] at hs
    cases hs
    split <;> refine work_goto ?_ <;> rw [hpc] <;> simp only [WriterPc.rank] <;> omega
  | test =>
    rw [hpc] at hs hinv
    dsimp only at hs
    split at hs
    · rename_i e he
      rw [h.noException] at he
      cases he
    · split at hs
      · rename_i hc
        cases hs
        -- a round starts only with a result
        have hne : s.readyCode ≠ [] := by
          rcases hc with hc | ⟨ho, hf⟩
          · exact hc
          · exact (h.toHolds.next_pending hinv.1 (by omega)).resolve_left fun hn => hn ho
        have hpos := List.length_pos_iff.2 hne
        simp only [work, State.drain, hpc, WriterPc.rank, List.length_nil]
        omega
      · cases hs
        refine work_goto ?_
        rw [hpc]
        simp only [WriterPc.rank]
        omega
  | flush =>
    rw [hpc] at hs
    cases hs
    obtain ⟨c, n, o, heq⟩ := flushLoop_eq s.completedCode.length s
    unfold State.flushCompletedOutput
    rw [heq]
    simp only [work, hpc, WriterPc.rank]
    omega
  | stop failure =>
    rw [hpc] at hs
    cases hs
    simp only [work, hpc, WriterPc.rank]
    omega
  | join failure =>
    rw [hpc] at hs
    dsimp only at hs
    split at hs
    · cases hs
      refine work_goto ?_
      rw [hpc]
      cases failure <;> simp [WriterPc.rank]
    · cases hs
  | asleep | done | threw => rw [hpc] at hs; cases hs

/-- What a state of the parallel output path must satisfy. -/
structure Settled (outputFunctions : List α) (generateFunctionCode : α → Except ε String)
    (preamble : String) (s : State ε) : Prop extends Holds s where
  /-- What is written is the output of the first functions. -/
  written : serialOutput (outputFunctions.take s.nextOutputIndex) generateFunctionCode preamble = .ok s.combinedOutput
  /-- Nothing is thrown. -/
  noFailure : ∀ f, s.writer ≠ .stop (some f) ∧ s.writer ≠ .stopNotify (some f) ∧
    s.writer ≠ .join (some f) ∧ s.writer ≠ .threw f
  /-- The end result. -/
  done : s.writer = .done → serialOutput outputFunctions generateFunctionCode preamble = .ok s.combinedOutput
  /-- A run that cannot go on is at its end. -/
  progress : s.writer = .done ∨ ∃ a s', a.genuine = true ∧ step outputFunctions generateFunctionCode s a = some s'
  /-- No run goes on for ever, unless threads wake up for no reason for ever. -/
  ends : Acc (fun s' s => ∃ a, a.genuine = true ∧
    CheckedStep outputFunctions generateFunctionCode s a s') s

theorem Inv.settled (hgen : ∀ f ∈ outputFunctions, ∃ code, generateFunctionCode f = .ok code)
    (h : Inv outputFunctions generateFunctionCode preamble s) :
    Settled outputFunctions generateFunctionCode preamble s where
  toHolds := h.toHolds
  written := h.output
  noFailure := by
    intro f
    have hinv := h.writer
    unfold WriterInv at hinv
    refine ⟨?_, ?_, ?_, ?_⟩ <;> intro hpc <;> rw [hpc] at hinv
    · cases hinv.1
    · cases hinv.1
    · cases hinv.1
    · exact hinv
  done := by
    intro hpc
    have hinv := h.writer
    unfold WriterInv at hinv
    rw [hpc] at hinv
    rw [← h.output, List.take_of_length_le hinv]
  progress := h.progress hgen
  ends := by
    refine acc_of_measure (I := Inv outputFunctions generateFunctionCode preamble)
      (m := work outputFunctions) (fun t t' ht ⟨a, _, hs⟩ => ht.step hgen hs) ?_ h
    rintro t t' ht ⟨a, ha, hs, -⟩
    cases a with
    | worker i => exact work_worker hgen ht hs
    | writer => exact work_writer ht hs
    | spurious | spuriousWriter => cases ha

/-- **The combined output is the serial output**, in every run whose final checks do not
overlook the last results. -/
theorem combined_settled {outputWorkerCount : ℕ} (hw : 1 < outputWorkerCount)
    (hgen : ∀ f ∈ outputFunctions, ∃ code, generateFunctionCode f = .ok code) {l : List Act}
    (hr : Run (CheckedStep outputFunctions generateFunctionCode) (initial preamble outputWorkerCount) l s) :
    Settled outputFunctions generateFunctionCode preamble s :=
  (hr.state_invariant (inv_initial hw) fun _ _ _ h hs => h.step hgen hs).settled hgen

/-- Two workers finish together. -/
def together : List Act :=
  [.writer, .writer, .writer, .worker 0, .worker 1, .worker 1, .worker 0, .worker 1, .worker 0,
    .writer, .writer, .writer, .writer, .writer, .writer, .worker 0, .worker 1, .writer]

theorem together_settled : ∃ s : State Empty,
    Run (CheckedStep ["f", "g"] .ok) (initial "" 2) together s ∧ s.writer = .done ∧ Settled ["f", "g"] .ok "" s := by
  obtain ⟨s, hs, hpc⟩ : ∃ s : State Empty,
      together.foldlM (fun s a => match a, s.writer with
        | .writer, .finalCheck => none
        | a, _ => step ["f", "g"] .ok s a) (initial "" 2) = some s ∧ s.writer = .done :=
    ⟨_, rfl, rfl⟩
  have hrun : Run (CheckedStep ["f", "g"] .ok) (initial "" 2) together s := by
    refine (Run.of_foldlM hs).mono fun t a t' ht => ?_
    split at ht
    · cases ht
    · rename_i hne
      refine ⟨ht, fun ha => ?_⟩
      unfold Checks
      split
      · rename_i hpc'
        exact (hne ha hpc').elim
      · exact True.intro
  exact ⟨s, hrun, hpc, combined_settled (by decide) (fun f _ => ⟨f, rfl⟩) hrun⟩

/-- The second worker finishes after the writer took over the result of the first, and before
its final check. -/
def overlooked : List Act :=
  [.writer, .writer, .writer, .worker 0, .worker 1, .worker 0, .worker 0, .writer, .writer,
    .writer, .writer, .worker 1, .writer, .writer, .writer, .worker 0, .worker 1, .worker 1,
    .writer]

/-- **The writer reports a missing index** although every generation succeeds. -/
theorem overlooked_throws : ∃ s : State Empty,
    Run (fun s a s' => step ["f", "g"] .ok s a = some s') (initial "" 2) overlooked s ∧
      s.writer = .threw (.runtimeError (missingIndex 1)) := by
  obtain ⟨s, hs, hpc⟩ : ∃ s : State Empty,
      overlooked.foldlM (step ["f", "g"] .ok) (initial "" 2) = some s ∧
        s.writer = .threw (.runtimeError (missingIndex 1)) := ⟨_, rfl, rfl⟩
  exact ⟨s, Run.of_foldlM hs, hpc⟩

end CombinedOutput

end Ps2Recomp
