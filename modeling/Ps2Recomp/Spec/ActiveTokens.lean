import Ps2Recomp.Spec.Scheduler

/-!
# Active-thread tokens

`g_activeThreads` counts the tokens of started threads: `mintActiveToken` adds one and marks the thread's
record, and whoever exchanges the mark takes the one off again. The marks are numbered here, so that a token
has an identity. Calls of `StartThread`, fibers and calls of `notifyRuntimeStop` on host threads take their
atomic operations and locked sections in any order.

What a fiber does in guest code is left out, apart from `ExitDeleteThread`, and so are the fields of a record
that no token depends on.
-/

namespace Ps2Recomp.ActiveTokens

open Sched (Tid)

/-- `ThreadInfo`: `dormant` says that its status is `THS_DORMANT`, `activeCounted` is the token it holds. -/
structure ThreadInfo where
  started : Bool
  dormant : Bool
  activeCounted : Option ℕ
  deriving DecidableEq, Repr

/-- `g_threads`, the records by number, `g_activeThreads`, and the tokens that were minted and consumed. -/
structure Shared where
  threads : List (Tid × ℕ)
  infos : ℕ → ThreadInfo
  nextInfo : ℕ
  activeThreads : ℤ
  minted : ℕ
  consumed : List ℕ

namespace Shared

variable (sh : Shared)

def token (x : ℕ) : Option ℕ := (sh.infos x).activeCounted

def modify (x : ℕ) (f : ThreadInfo → ThreadInfo) : Shared :=
  { sh with infos := Function.update sh.infos x (f (sh.infos x)) }

def lookupThreadInfo (tid : Tid) : Option ℕ := sh.threads.lookup tid

/-- `ensureCurrentThreadInfo` -/
def ensureCurrentThreadInfo (tid : Tid) : Shared × ℕ :=
  match sh.lookupThreadInfo tid with
  | some x => (sh, x)
  | none =>
    ({ sh with
      threads := sh.threads ++ [(tid, sh.nextInfo)]
      infos := Function.update sh.infos sh.nextInfo ⟨true, false, none⟩
      nextInfo := sh.nextInfo + 1 }, sh.nextInfo)

def erase (tid : Tid) : Shared := { sh with threads := sh.threads.filter fun e => e.1 ≠ tid }

/-- The locked section of `StartThread`. -/
def mark (x : ℕ) : Shared := sh.modify x fun info => { info with started := true, dormant := false }

/-- The locked section of `on_fiber_exit`, and the one behind a failed `create_fiber`. -/
def rest (x : ℕ) : Shared := sh.modify x fun info => { info with started := false, dormant := true }

/-- The store of `mintActiveToken`. -/
def publish (x : ℕ) : Shared :=
  { sh.modify x fun info => { info with activeCounted := some sh.minted } with minted := sh.minted + 1 }

end Shared

/-! ### Threads of control -/

/-- Where `consumeActiveToken` stands. -/
inductive Consume
  | exchange (info : Option ℕ)
  | sub
  | done
  deriving DecidableEq, Repr

def Consume.next (sh : Shared) : Consume → Shared × Consume
  | exchange none => (sh, done)
  | exchange (some x) =>
    match sh.token x with
    | none => (sh, done)
    | some token =>
      ({ sh.modify x fun info => { info with activeCounted := none } with consumed := token :: sh.consumed }, sub)
  | sub => ({ sh with activeThreads := sh.activeThreads - 1 }, done)
  | done => (sh, done)

/-- Where `StartThread` stands. -/
inductive StartPc
  | called
  | found (x : ℕ)
  | checked (x : ℕ)
  | marked (x : ℕ)
  | added (x : ℕ)
  | minted (x : ℕ)
  | created
  | refused (x : ℕ) (c : Consume)
  | returning
  | returned
  deriving DecidableEq, Repr

/-- Where `ExitDeleteThread` stands, if its fiber is in it. -/
inductive Delete
  | idle
  | found (x : ℕ)
  | consuming (c : Consume)
  deriving DecidableEq, Repr

/-- Where a fiber stands: in its guest code, in `on_fiber_exit` before the reset and behind it. -/
inductive FiberPc
  | running (d : Delete)
  | exiting (info : Option ℕ) (d : Delete)
  | consuming (c : Consume)
  | finished
  deriving DecidableEq, Repr

inductive Actor
  | start (tid : Tid) (pc : StartPc)
  | fiber (tid : Tid) (pc : FiberPc)
  | stop (c : Consume) (todo : List ℕ)
  deriving DecidableEq, Repr

/-- A step of `StartThread`, with the fiber it creates. `ok` is the outcome of the checks that do not depend
on a record, and of `create_fiber`. -/
def StartPc.next (sh : Shared) (tid : Tid) (ok : Bool) : StartPc → Shared × StartPc × List Actor
  | called =>
    if tid = 0 then (sh, returning, [])
    else match sh.lookupThreadInfo tid with
      | none => (sh, returning, [])
      | some x => (sh, found x, [])
  | found x => (sh, if ok then checked x else returning, [])
  | checked x =>
    if (sh.infos x).started ∨ ¬(sh.infos x).dormant then (sh, returning, [])
    else (sh.mark x, marked x, [])
  | marked x => ({ sh with activeThreads := sh.activeThreads + 1 }, added x, [])
  | added x => (sh.publish x, minted x, [])
  | minted x =>
    if ok then (sh, created, [.fiber tid (.running .idle)]) else (sh, refused x (.exchange (some x)), [])
  | created => (sh, returning, [])
  | refused x .done => (sh.rest x, returning, [])
  | refused x c =>
    let (sh, c) := c.next sh
    (sh, refused x c, [])
  | returning => (sh, returned, [])
  | returned => (sh, returned, [])

def Delete.next (sh : Shared) (tid : Tid) : Delete → Shared × Delete
  | idle => (sh, idle)
  | found x => (sh.erase tid, consuming (.exchange (some x)))
  | consuming .done => (sh, idle)
  | consuming c =>
    let (sh, c) := c.next sh
    (sh, consuming c)

/-- A step of a fiber, which leaves its guest code where it is not in `ExitDeleteThread`. -/
def FiberPc.next (sh : Shared) (tid : Tid) : FiberPc → Shared × FiberPc
  | running .idle => (sh, exiting (sh.lookupThreadInfo tid) .idle)
  | exiting info .idle => (info.elim sh sh.rest, consuming (.exchange info))
  | running d =>
    let (sh, d) := d.next sh tid
    (sh, running d)
  | exiting info d =>
    let (sh, d) := d.next sh tid
    (sh, exiting info d)
  | consuming .done => (sh, finished)
  | consuming c =>
    let (sh, c) := c.next sh
    (sh, consuming c)
  | finished => (sh, finished)

def Actor.next (sh : Shared) (ok : Bool) : Actor → Shared × Actor × List Actor
  | start tid pc =>
    let (sh, pc, new) := pc.next sh tid ok
    (sh, start tid pc, new)
  | fiber tid pc =>
    let (sh, pc) := pc.next sh tid
    (sh, fiber tid pc, [])
  | stop .done (x :: todo) => (sh, stop (.exchange (some x)) todo, [])
  | stop c todo =>
    let (sh, c) := c.next sh
    (sh, stop c todo, [])

/-- A fiber's guest code, or one of its exit handlers, calls `ExitDeleteThread`. -/
def Actor.delete (sh : Shared) : Actor → Option (Shared × Actor)
  | fiber tid (.running .idle) =>
    let (sh, x) := sh.ensureCurrentThreadInfo tid
    some (sh, fiber tid (.running (.found x)))
  | fiber tid (.exiting info .idle) =>
    let (sh, x) := sh.ensureCurrentThreadInfo tid
    some (sh, fiber tid (.exiting info (.found x)))
  | _ => none

/-! ### Runs -/

structure State where
  shared : Shared
  actors : List Actor

inductive Act
  | call (tid : Tid)
  | stop
  | run (i : ℕ) (ok : Bool)
  | delete (i : ℕ)

/-- `stop` is the locked section of `notifyRuntimeStop`, which clears the map. -/
def State.step (s : State) : Act → Option State
  | .call tid => some { s with actors := s.actors ++ [.start tid .called] }
  | .stop =>
    some ⟨{ s.shared with threads := [] }, s.actors ++ [.stop .done (s.shared.threads.map Prod.snd)]⟩
  | .run i ok =>
    s.actors[i]?.map fun a =>
      let (sh, a, new) := a.next s.shared ok
      ⟨sh, s.actors.set i a ++ new⟩
  | .delete i =>
    s.actors[i]?.bind fun a => (a.delete s.shared).map fun (sh, a) => ⟨sh, s.actors.set i a⟩

/-- Before the first `StartThread`: the fibers that are there run without a token. -/
structure Init (s : State) : Prop where
  active : s.shared.activeThreads = 0
  minted : s.shared.minted = 0
  consumed : s.shared.consumed = []
  token : ∀ x, s.shared.token x = none
  known : ∀ e ∈ s.shared.threads, e.2 < s.shared.nextInfo
  actors : ∀ a ∈ s.actors, ∃ tid, a = .fiber tid (.running .idle)

/-- The states of the runs whose steps all satisfy `P`. -/
inductive Reach (P : State → Act → Prop) : State → Prop
  | init {s : State} (h : Init s) : Reach P s
  | step {s s' : State} {a : Act} (h : Reach P s) (ha : P s a) (hs : s.step a = some s') : Reach P s'

/-- A `StartThread` in progress, or a fiber that is not finished. -/
def Actor.busy : Actor → Bool
  | start _ pc => pc ≠ .returned
  | fiber _ pc => pc ≠ .finished
  | stop _ _ => false

def State.Quiet (s : State) : Prop := ∀ a ∈ s.actors, a.busy = false

structure Balanced (s : State) : Prop where
  nonneg : 0 ≤ s.shared.activeThreads
  once : s.shared.consumed.Nodup
  quiet : s.Quiet → s.shared.activeThreads = 0

/-! ### Tokens on their way -/

/-- A thread of control is on its way to exchange the mark of the record `x`. -/
def Consume.awaits (c : Consume) (x : ℕ) : Prop := c = .exchange (some x)

def Delete.awaits (x : ℕ) : Delete → Prop
  | idle => False
  | found y => x = y
  | consuming c => c.awaits x

def FiberPc.awaits (sh : Shared) (tid : Tid) (x : ℕ) : FiberPc → Prop
  | running .idle => sh.lookupThreadInfo tid = some x
  | running d => d.awaits x
  | exiting info d => info = some x ∨ d.awaits x
  | consuming c => c.awaits x
  | finished => False

def Actor.awaits (sh : Shared) (x : ℕ) : Actor → Prop
  | start _ (.minted y) => x = y
  | start _ (.refused _ c) => c.awaits x
  | start _ _ => False
  | fiber tid pc => pc.awaits sh tid x
  | stop c todo => c.awaits x ∨ x ∈ todo

def State.Awaited (s : State) (x : ℕ) : Prop := ∃ a ∈ s.actors, a.awaits s.shared x

/-- A stop has a token to consume, or one to take off. -/
def Actor.Pending (sh : Shared) : Actor → Prop
  | stop c todo => c = .sub ∨ ∃ x, (c.awaits x ∨ x ∈ todo) ∧ sh.token x ≠ none
  | _ => False

/-- The last step of a `StartThread` or of a fiber. -/
def Actor.ends : Actor → Bool
  | start _ .returning => true
  | fiber _ (.consuming .done) => true
  | _ => false

/-- What a step of the `i`-th thread of control must find: a record without a token where it publishes one,
somebody else on the way to a token that it leaves to its fiber, or whose record it erases, and no stop with
tokens to consume where it is the last to end. -/
structure CarefulAt (s : State) (i : ℕ) (ok : Bool) (a : Actor) : Prop where
  publish : ∀ tid x, a = .start tid (.added x) → s.shared.token x = none
  create : ∀ tid x, a = .start tid (.minted x) → ok = true →
    s.shared.token x = none ∨ s.shared.lookupThreadInfo tid = some x ∨ State.Awaited ⟨s.shared, s.actors.eraseIdx i⟩ x
  erase : ∀ tid x y pc, a = .fiber tid pc →
    (pc = .running (.found y) ∨ ∃ info, pc = .exiting info (.found y)) → s.shared.lookupThreadInfo tid = some x →
      s.shared.token x = none ∨ State.Awaited ⟨s.shared.erase tid, s.actors⟩ x
  ends : a.ends = true →
    (∃ b ∈ s.actors.eraseIdx i, b.busy = true) ∨ ∀ b ∈ s.actors, ¬b.Pending s.shared

def Careful (s : State) : Act → Prop
  | .run i ok => ∀ a, s.actors[i]? = some a → CarefulAt s i ok a
  | _ => True

end Ps2Recomp.ActiveTokens
