import Ps2Recomp.Lib.Transition

/-!
# The combined output file

The single file path of `generateOutput` (`ps2_recompiler.cpp`): with one worker the functions
are generated and written in order; with more, worker threads generate them out of order and the
calling thread writes them in order.

The threads share their queues under `outputMutex`, so a step of the model is one critical
section, one call of `notify_one` or `notify_all` outside of it, or the work of a thread between
two of these. A thread in `condition_variable::wait` sleeps until it is notified, and then tests
its predicate again; it may also wake up for no reason (`Act.spurious`). The stream of the output
file does not fail, and the second `stopAndJoinWorkers` of the exception handler, which finds no
thread left to join, is left out.
-/

namespace Ps2Recomp

namespace CombinedOutput

/-- Where a worker is. -/
inductive WorkerPc
  /-- In front of the predicate of `workAvailable.wait`, with the lock. -/
  | test
  | asleep
  | working (outputIndex : ℕ)
  /-- In front of `resultAvailable.notify_one`. -/
  | notifyResult
  /-- The same after an exception; `workAvailable.notify_all` comes next. -/
  | notifyFailure
  | notifyStop
  | exited
  deriving DecidableEq, Repr

/-- A notification ends the sleep of a worker. -/
def WorkerPc.woken : WorkerPc → WorkerPc
  | .asleep => .test
  | pc => pc

/-- What `generateOutput` throws. -/
inductive Failure (ε : Type)
  | generation (e : ε)
  | runtimeError (message : String)
  deriving DecidableEq, Repr

/-- Where the writer is. `start` and `startNotify` are the first call of
`scheduleAvailableWork`, `schedule` and `notify` the one in the loop. -/
inductive WriterPc (ε : Type)
  | start
  | startNotify
  | loop
  /-- In front of the predicate of `resultAvailable.wait`, with the lock. -/
  | test
  | asleep
  | flush
  | schedule
  | notify
  | check
  | finalCheck
  /-- `stopAndJoinWorkers`, and what is thrown after it. -/
  | stop (failure : Option (Failure ε))
  | stopNotify (failure : Option (Failure ε))
  | join (failure : Option (Failure ε))
  | done
  | threw (failure : Failure ε)
  deriving DecidableEq, Repr

/-- The shared variables and the two kinds of threads. -/
structure State (ε : Type) where
  pendingWork : List ℕ := []
  readyCode : List (ℕ × String) := []
  completedCode : List (ℕ × String) := []
  workerException : Option ε := none
  stopWorkers : Bool := false
  outstandingWork : ℕ := 0
  nextFunction : ℕ := 0
  nextOutputIndex : ℕ := 0
  combinedOutput : String
  workers : List WorkerPc
  writer : WriterPc ε := .start
  deriving DecidableEq, Repr

variable {α ε : Type} (outputFunctions : List α) (generateFunctionCode : α → Except ε String)

/-- `maxBufferedOutput`, with `outputWorkerCount` workers. -/
def maxBufferedOutput (outputWorkerCount : ℕ) : ℕ :=
  max (outputWorkerCount * 2) (outputWorkerCount + 1)

namespace State

variable (s : State ε)

def setWorker (i : ℕ) (pc : WorkerPc) : State ε := { s with workers := s.workers.set i pc }

/-- `resultAvailable.notify_one`: only the writer waits for results. -/
def notifyResult : State ε :=
  { s with writer := match s.writer with | .asleep => .test | pc => pc }

/-- `workAvailable.notify_all`. -/
def notifyWork : State ε := { s with workers := s.workers.map .woken }

/-- The loop of `scheduleAvailableWork`, with the functions that are left as fuel. -/
def scheduleLoop : ℕ → State ε → State ε
  | 0, s => s
  | fuel + 1, s =>
    if s.outstandingWork + s.completedCode.length < maxBufferedOutput s.workers.length && !s.stopWorkers then
      scheduleLoop fuel
        { s with
          pendingWork := s.pendingWork ++ [s.nextFunction]
          nextFunction := s.nextFunction + 1
          outstandingWork := s.outstandingWork + 1 }
    else s

/-- `scheduleAvailableWork` up to its notification. -/
def scheduleAvailableWork : State ε := s.scheduleLoop (outputFunctions.length - s.nextFunction)

/-- `completedCode.emplace`. -/
def emplace (m : List (ℕ × String)) (c : ℕ × String) : List (ℕ × String) :=
  if m.lookup c.1 = none then c :: m else m

/-- The loop that empties `readyCode`. -/
def drain : State ε :=
  { s with readyCode := [], completedCode := s.readyCode.foldl emplace s.completedCode }

/-- The loop of `flushCompletedOutput`; every round erases an entry of `completedCode`. -/
def flushLoop : ℕ → State ε → State ε
  | 0, s => s
  | fuel + 1, s =>
    match s.completedCode.lookup s.nextOutputIndex with
    | none => s
    | some code =>
      flushLoop fuel
        { s with
          combinedOutput := s.combinedOutput ++ code ++ "\n\n"
          completedCode := s.completedCode.filter (·.1 != s.nextOutputIndex)
          nextOutputIndex := s.nextOutputIndex + 1 }

def flushCompletedOutput : State ε := s.flushLoop s.completedCode.length

end State

/-- A step of the worker `i`. -/
def workerStep (s : State ε) (i : ℕ) : Option (State ε) :=
  match s.workers[i]? with
  | some .test =>
    if s.stopWorkers then some (s.setWorker i .exited)
    else match s.pendingWork with
      | [] => some (s.setWorker i .asleep)
      | outputIndex :: rest =>
        some { s.setWorker i (.working outputIndex) with pendingWork := rest }
  | some (.working outputIndex) =>
    match (outputFunctions[outputIndex]?).map generateFunctionCode with
    | some (.ok code) =>
      some { s.setWorker i .notifyResult with
        readyCode := s.readyCode ++ [(outputIndex, code)]
        outstandingWork := s.outstandingWork - 1 }
    | some (.error e) =>
      some { s.setWorker i .notifyFailure with
        workerException := s.workerException.or (some e)
        outstandingWork := s.outstandingWork - 1
        stopWorkers := true }
    | none => none
  | some .notifyResult => some (s.setWorker i .test).notifyResult
  | some .notifyFailure => some (s.setWorker i .notifyStop).notifyResult
  | some .notifyStop => some (s.setWorker i .exited).notifyWork
  | some .asleep | some .exited | none => none

/-- The text of the internal error. -/
def missingIndex (i : ℕ) : String :=
  "Internal error: combined output completion queue is missing index " ++ toString i

/-- A step of the writer. -/
def writerStep (s : State ε) : Option (State ε) :=
  match s.writer with
  | .start =>
    let s' := s.scheduleAvailableWork outputFunctions
    some { s' with writer := if s'.nextFunction = s.nextFunction then .loop else .startNotify }
  | .startNotify => some { s.notifyWork with writer := .loop }
  | .loop =>
    some { s with
      writer := if s.nextOutputIndex < outputFunctions.length then .test else .stop none }
  | .test =>
    match s.workerException with
    | some e => some { s with writer := .stop (some (.generation e)) }
    | none =>
      if s.readyCode ≠ [] ∨ s.outstandingWork = 0 ∧ outputFunctions.length ≤ s.nextFunction then
        some { s.drain with writer := .flush }
      else some { s with writer := .asleep }
  | .flush => some { s.flushCompletedOutput with writer := .schedule }
  | .schedule =>
    let s' := s.scheduleAvailableWork outputFunctions
    some { s' with writer := if s'.nextFunction = s.nextFunction then .check else .notify }
  | .notify => some { s.notifyWork with writer := .check }
  | .check =>
    some { s with
      writer := if outputFunctions.length ≤ s.nextOutputIndex then .stop none else .finalCheck }
  | .finalCheck =>
    some { s with
      writer :=
        if s.outstandingWork = 0 ∧ outputFunctions.length ≤ s.nextFunction ∧ s.completedCode = [] then
          .stop (some (.runtimeError (missingIndex s.nextOutputIndex)))
        else .loop }
  | .stop failure => some { s with stopWorkers := true, writer := .stopNotify failure }
  | .stopNotify failure => some { s.notifyWork with writer := .join failure }
  | .join failure =>
    if s.workers.all (· == .exited) then
      some { s with
        writer := match failure with | none => .done | some f => .threw f }
    else none
  | .asleep | .done | .threw _ => none

/-- The steps of the threads. -/
inductive Act
  | worker (i : ℕ)
  | writer
  /-- A wake up without notification. -/
  | spurious (i : ℕ)
  | spuriousWriter
  deriving DecidableEq, Repr

/-- The steps of the threads, in any interleaving. -/
def step (s : State ε) : Act → Option (State ε)
  | .worker i => workerStep outputFunctions generateFunctionCode s i
  | .writer => writerStep outputFunctions s
  | .spurious i => if s.workers[i]? = some .asleep then some (s.setWorker i .test) else none
  | .spuriousWriter =>
    match s.writer with
    | .asleep => some { s with writer := .test }
    | _ => none

/-- The state after the threads were started. -/
def initial (preamble : String) (outputWorkerCount : ℕ) : State ε :=
  { combinedOutput := preamble, workers := List.replicate outputWorkerCount .test }

/-- The serial path: what `generateOutput` writes with one worker. -/
def serialOutput (preamble : String) : Except ε String :=
  outputFunctions.foldlM
    (fun output function => do
      let code ← generateFunctionCode function
      pure (output ++ code ++ "\n\n"))
    preamble

end CombinedOutput

end Ps2Recomp
