import Mathlib.Algebra.Order.BigOperators.Group.List
import Mathlib.Data.Finset.Card
import Mathlib.Data.List.Perm.Basic
import Ps2Recomp.Spec.ActiveTokens

/-!
# Balance of the active-thread tokens

A step publishes a token, takes one, or leaves the tokens alone (`Effect`). From that: the count is what is
published and not consumed, and the additions and subtractions on their way (`Inv`); and where no step is
careless, somebody is on the way to each token (`Held`).
-/

namespace Ps2Recomp.ActiveTokens

open Sched (Tid)

variable {sh sh' : Shared} {tid : Tid} {ok : Bool} {a a' : Actor} {new : List Actor} {x y : ℕ}

/-! ### Steps -/

def Consume.owed : Consume → ℤ
  | sub => 1
  | _ => 0

def Delete.owed : Delete → ℤ
  | consuming c => c.owed
  | _ => 0

def FiberPc.owed : FiberPc → ℤ
  | running d => d.owed
  | exiting _ d => d.owed
  | consuming c => c.owed
  | finished => 0

def StartPc.owed : StartPc → ℤ
  | added _ => 1
  | refused _ c => c.owed
  | _ => 0

/-- What the count holds for this thread of control beyond the published tokens: one between the addition of
`mintActiveToken` and its store, and between the two operations of `consumeActiveToken`. -/
def Actor.owed : Actor → ℤ
  | start _ pc => pc.owed
  | fiber _ pc => pc.owed
  | stop c _ => c.owed

/-- The record that a `StartThread` works on, up to the store of `mintActiveToken`. -/
def Actor.record : Actor → Option ℕ
  | start _ (.found x) => some x
  | start _ (.checked x) => some x
  | start _ (.marked x) => some x
  | start _ (.added x) => some x
  | _ => none

/-- The locked section of `ExitDeleteThread` comes next. -/
def Actor.Erases (tid : Tid) (a : Actor) : Prop :=
  ∃ pc y, a = .fiber tid pc ∧ (pc = .running (.found y) ∨ ∃ info, pc = .exiting info (.found y))

/-- What runs `consumeActiveToken`. -/
inductive Site
  | refused (tid : Tid) (x : ℕ)
  | running (tid : Tid)
  | exiting (tid : Tid) (info : Option ℕ)
  | leaving (tid : Tid)
  | stop (todo : List ℕ)

def Site.fill (c : Consume) : Site → Actor
  | refused tid x => .start tid (.refused x c)
  | running tid => .fiber tid (.running (.consuming c))
  | exiting tid info => .fiber tid (.exiting info (.consuming c))
  | leaving tid => .fiber tid (.consuming c)
  | stop todo => .stop c todo

variable {c : Consume}

theorem Site.owed (p : Site) : (p.fill c).owed = c.owed := by
  cases p with
  | _ => rfl

theorem Site.awaits (p : Site) (h : c.awaits x) : (p.fill c).awaits sh x := by
  cases p with
  | exiting | stop => first | exact .inl h | exact .inr h
  | _ => exact h

/-- A step that leaves what is shared alone, and creates no fiber. -/
structure Actor.Passes (sh : Shared) (a a' : Actor) : Prop where
  owed : a'.owed = a.owed
  record : ∀ x, a'.record = some x → a.record = some x ∨ ∃ tid, sh.lookupThreadInfo tid = some x
  awaits : ∀ x, a.awaits sh x → a'.awaits sh x
  busy : a.busy = true → a.ends = false → a'.busy = true

/-- **A step of a thread of control**: what is shared behind it, where it stands, and the fiber that it creates. -/
inductive Actor.Steps (sh : Shared) (ok : Bool) : Actor → Shared × Actor × List Actor → Prop
  | consume (p : Site) {c : Consume} (hc : c ≠ .done) : Steps sh ok (p.fill c) ((c.next sh).1, p.fill (c.next sh).2, [])
  | pass {a a' : Actor} (h : a.Passes sh a') : Steps sh ok a (sh, a', [])
  | create (tid : Tid) (x : ℕ) (hok : ok = true) :
    Steps sh ok (.start tid (.minted x)) (sh, .start tid .created, [.fiber tid (.running .idle)])
  | mark (tid : Tid) (x : ℕ) : Steps sh ok (.start tid (.checked x)) (sh.mark x, .start tid (.marked x), [])
  | add (tid : Tid) (x : ℕ) : Steps sh ok (.start tid (.marked x))
    ({ sh with activeThreads := sh.activeThreads + 1 }, .start tid (.added x), [])
  | publish (tid : Tid) (x : ℕ) : Steps sh ok (.start tid (.added x)) (sh.publish x, .start tid (.minted x), [])
  | refused (tid : Tid) (x : ℕ) : Steps sh ok (.start tid (.refused x .done)) (sh.rest x, .start tid .returning, [])
  | reset (tid : Tid) (x : ℕ) : Steps sh ok (.fiber tid (.exiting (some x) .idle))
    (sh.rest x, .fiber tid (.consuming (.exchange (some x))), [])
  | eraseRunning (tid : Tid) (x : ℕ) : Steps sh ok (.fiber tid (.running (.found x)))
    (sh.erase tid, .fiber tid (.running (.consuming (.exchange (some x)))), [])
  | eraseExiting (tid : Tid) (info : Option ℕ) (x : ℕ) : Steps sh ok (.fiber tid (.exiting info (.found x)))
    (sh.erase tid, .fiber tid (.exiting info (.consuming (.exchange (some x)))), [])

theorem Actor.Passes.refl (a : Actor) : a.Passes sh a := ⟨rfl, fun _ => .inl, fun _ => id, fun h _ => h⟩

theorem Actor.Passes.returning {pc : StartPc} (howed : pc.owed = 0) (h : ∀ x, ¬(Actor.start tid pc).awaits sh x) :
    (Actor.start tid pc).Passes sh (.start tid .returning) :=
  ⟨howed.symm, nofun, fun x hx => absurd hx (h x), fun _ _ => rfl⟩

theorem Actor.next_steps (sh : Shared) (ok : Bool) (a : Actor) : a.Steps sh ok (a.next sh ok) := by
  cases a with
  | start tid pc =>
    cases pc with
    | called =>
      simp only [Actor.next, StartPc.next]
      split
      · exact .pass (.returning rfl fun _ => id)
      · split
        · exact .pass (.returning rfl fun _ => id)
        · next y hy => exact .pass ⟨rfl, fun x hx => .inr ⟨tid, hy.trans hx⟩, fun _ => False.elim, fun _ _ => rfl⟩
    | found x =>
      cases ok with
      | true => exact .pass ⟨rfl, fun _ => .inl, fun _ => id, fun _ _ => rfl⟩
      | false => exact .pass (.returning rfl fun _ => id)
    | checked x =>
      simp only [Actor.next, StartPc.next]
      split
      · exact .pass (.returning rfl fun _ => id)
      · exact .mark tid x
    | marked x => exact .add tid x
    | added x => exact .publish tid x
    | minted x =>
      cases ok with
      | true => exact .create tid x rfl
      | false => exact .pass ⟨rfl, nofun, fun y hy => congrArg _ (congrArg some hy.symm), fun _ _ => rfl⟩
    | created => exact .pass (.returning rfl fun _ => id)
    | refused x c =>
      cases c with
      | done => exact .refused tid x
      | exchange info => exact .consume (.refused tid x) Consume.noConfusion
      | sub => exact .consume (.refused tid x) Consume.noConfusion
    | returning => exact .pass ⟨rfl, nofun, fun _ => id, fun _ hends => absurd hends (by simp [Actor.ends])⟩
    | returned => exact .pass (.refl _)
  | fiber tid pc =>
    cases pc with
    | running d =>
      cases d with
      | idle => exact .pass ⟨rfl, nofun, fun _ => .inl, fun _ _ => rfl⟩
      | found x => exact .eraseRunning tid x
      | consuming c =>
        cases c with
        | done => exact .pass ⟨rfl, nofun, nofun, fun _ _ => rfl⟩
        | exchange info => exact .consume (.running tid) Consume.noConfusion
        | sub => exact .consume (.running tid) Consume.noConfusion
    | exiting info d =>
      cases d with
      | idle =>
        cases info with
        | none => exact .pass ⟨rfl, nofun, nofun, fun _ _ => rfl⟩
        | some x => exact .reset tid x
      | found x => exact .eraseExiting tid info x
      | consuming c =>
        cases c with
        | done => exact .pass ⟨rfl, nofun, fun _ h => .inl (h.resolve_right Consume.noConfusion), fun _ _ => rfl⟩
        | exchange i => exact .consume (.exiting tid info) Consume.noConfusion
        | sub => exact .consume (.exiting tid info) Consume.noConfusion
    | consuming c =>
      cases c with
      | done => exact .pass ⟨rfl, nofun, nofun, fun _ hends => absurd hends (by simp [Actor.ends])⟩
      | exchange info => exact .consume (.leaving tid) Consume.noConfusion
      | sub => exact .consume (.leaving tid) Consume.noConfusion
    | finished => exact .pass (.refl _)
  | stop c todo =>
    cases c with
    | done =>
      cases todo with
      | nil => exact .pass (.refl _)
      | cons x todo =>
        refine .pass ⟨rfl, nofun, fun y hy => ?_, nofun⟩
        obtain rfl | hy := List.mem_cons.1 (hy.resolve_left Consume.noConfusion)
        · exact .inl rfl
        · exact .inr hy
    | exchange info => exact .consume (.stop todo) Consume.noConfusion
    | sub => exact .consume (.stop todo) Consume.noConfusion

/-! ### Effects of a step on the tokens -/

/-- What a step of the thread of control `a` does to the tokens. -/
inductive Effect (sh : Shared) (a : Actor) (sh' : Shared) : Prop
  | silent (htoken : ∀ x, sh'.token x = sh.token x) (hminted : sh'.minted = sh.minted)
      (hconsumed : sh'.consumed = sh.consumed)
  | publish (tid : Tid) (x : ℕ) (ha : a = .start tid (.added x)) (h : sh' = sh.publish x)
  | take (x k : ℕ) (ha : a.awaits sh x) (hk : sh.token x = some k)
      (htoken : ∀ y, sh'.token y = if y = x then none else sh.token y) (hminted : sh'.minted = sh.minted)
      (hconsumed : sh'.consumed = k :: sh.consumed)

section

variable {v : ThreadInfo} (h : sh'.infos = Function.update sh.infos x v)

include h

theorem token_update : sh'.token y = if y = x then v.activeCounted else sh.token y := by
  rw [Shared.token, h, Function.update_apply]
  split
  · rfl
  · rfl

theorem token_same (hv : v.activeCounted = sh.token x) : sh'.token y = sh.token y := by
  rw [token_update h]
  split
  next heq => rw [hv, heq]
  next => rfl

end

theorem token_mark : (sh.mark x).token y = sh.token y := token_same rfl rfl

theorem token_rest : (sh.rest x).token y = sh.token y := token_same rfl rfl

theorem token_publish : (sh.publish x).token y = if y = x then some sh.minted else sh.token y :=
  token_update (v := { sh.infos x with activeCounted := some sh.minted }) rfl

/-- Only an exchange of `consumeActiveToken` changes a token, the one that it is on its way to. -/
theorem Consume.next_cases (sh : Shared) (c : Consume) :
    ((∀ x, (c.next sh).1.token x = sh.token x) ∧ (c.next sh).1.minted = sh.minted ∧
        (c.next sh).1.consumed = sh.consumed) ∨
      ∃ x k, c.awaits x ∧ sh.token x = some k ∧ (∀ y, (c.next sh).1.token y = if y = x then none else sh.token y) ∧
        (c.next sh).1.minted = sh.minted ∧ (c.next sh).1.consumed = k :: sh.consumed := by
  cases c with
  | exchange info =>
    cases info with
    | none => exact .inl ⟨fun _ => rfl, rfl, rfl⟩
    | some x =>
      cases hk : sh.token x with
      | none =>
        rw [Consume.next, hk]
        exact .inl ⟨fun _ => rfl, rfl, rfl⟩
      | some k =>
        rw [Consume.next, hk]
        exact .inr ⟨x, k, rfl, hk, fun y =>
        token_update (v := { sh.infos x with activeCounted := none }) rfl, rfl, rfl⟩
  | sub => exact .inl ⟨fun _ => rfl, rfl, rfl⟩
  | done => exact .inl ⟨fun _ => rfl, rfl, rfl⟩

theorem Effect.of_consume (ha : ∀ x, c.awaits x → a.awaits sh x) : Effect sh a (c.next sh).1 := by
  obtain ⟨htoken, hminted, hconsumed⟩ | ⟨x, k, hc, hk, htoken, hminted, hconsumed⟩ := c.next_cases sh
  · exact .silent htoken hminted hconsumed
  · exact .take x k (ha x hc) hk htoken hminted hconsumed

theorem Effect.same : Effect sh a sh := .silent (fun _ => Eq.refl _) rfl rfl

theorem Actor.effect (sh : Shared) (ok : Bool) (a : Actor) : Effect sh a (a.next sh ok).1 := by
  have h := Actor.next_steps sh ok a
  generalize a.next sh ok = r at h
  cases h with
  | consume p => exact .of_consume fun _ hc => p.awaits hc
  | pass _ => exact .same
  | create => exact .same
  | mark => exact .silent (fun _ => token_mark) rfl rfl
  | add => exact .silent (fun _ => Eq.refl _) rfl rfl
  | publish tid x => exact .publish tid x rfl rfl
  | refused => exact .silent (fun _ => token_rest) rfl rfl
  | reset => exact .silent (fun _ => token_rest) rfl rfl
  | eraseRunning => exact .silent (fun _ => Eq.refl _) rfl rfl
  | eraseExiting => exact .silent (fun _ => Eq.refl _) rfl rfl

/-! ### Additions and subtractions on their way -/

/-- What the count is beyond the tokens that are published and not consumed. -/
def Shared.surplus (sh : Shared) : ℤ := sh.activeThreads + sh.consumed.length - sh.minted

theorem Consume.next_surplus (sh : Shared) (c : Consume) : (c.next sh).1.surplus + c.owed = sh.surplus + (c.next sh).2.owed := by
  cases c with
  | exchange info =>
    cases info with
    | none => rfl
    | some x =>
      cases hk : sh.token x with
      | none =>
        rw [Consume.next, hk]
        rfl
      | some k =>
        rw [Consume.next, hk]
        show sh.activeThreads + ((k :: sh.consumed).length : ℤ) - sh.minted + 0 = sh.surplus + 1
        rw [List.length_cons, Shared.surplus]
        omega
  | sub =>
    show sh.activeThreads - 1 + sh.consumed.length - sh.minted + 1 = sh.surplus + 0
    rw [Shared.surplus]
    omega
  | done => rfl

theorem Actor.next_surplus (sh : Shared) (ok : Bool) (a : Actor) : (a.next sh ok).1.surplus + a.owed =
    sh.surplus + (a.next sh ok).2.1.owed + ((a.next sh ok).2.2.map Actor.owed).sum := by
  have h := Actor.next_steps sh ok a
  generalize a.next sh ok = r at h
  have hquiet : ∀ {sh' : Shared} {a' : Actor}, sh'.surplus = sh.surplus → a'.owed = a.owed →
      sh'.surplus + a.owed = sh.surplus + a'.owed + (([] : List Actor).map Actor.owed).sum := by
    intro sh' a' hsh ha
    rw [hsh, ha, List.map_nil, List.sum_nil, add_zero]
  cases h with
  | consume p =>
    rw [p.owed, p.owed, List.map_nil, List.sum_nil, add_zero]
    exact Consume.next_surplus sh _
  | pass h => exact hquiet rfl h.owed
  | create =>
    show sh.surplus + 0 = sh.surplus + 0 + (0 + 0)
    omega
  | mark => exact hquiet rfl rfl
  | add =>
    show sh.activeThreads + 1 + sh.consumed.length - sh.minted + 0 = sh.surplus + 1 + 0
    rw [Shared.surplus]
    omega
  | publish tid x =>
    show sh.activeThreads + sh.consumed.length - ((sh.minted + 1 : ℕ) : ℤ) + 1 = sh.surplus + 0 + 0
    rw [Shared.surplus]
    omega
  | refused => exact hquiet rfl rfl
  | reset => exact hquiet rfl rfl
  | eraseRunning => exact hquiet rfl rfl
  | eraseExiting => exact hquiet rfl rfl

/-! ### Records -/

/-- No record that was never made is in the map, is worked on or has a token. -/
structure Known (s : State) : Prop where
  token : ∀ x, s.shared.token x ≠ none → x < s.shared.nextInfo
  threads : ∀ e ∈ s.shared.threads, e.2 < s.shared.nextInfo
  record : ∀ a ∈ s.actors, ∀ x, a.record = some x → x < s.shared.nextInfo

theorem lookup_mem (h : sh.lookupThreadInfo tid = some x) : (tid, x) ∈ sh.threads := by
  obtain ⟨l1, l2, hl, -⟩ := List.lookup_eq_some_iff.1 h
  rw [hl]
  exact List.mem_append_right _ List.mem_cons_self

theorem lookup_congr (h : sh'.threads = sh.threads) : sh'.lookupThreadInfo tid = sh.lookupThreadInfo tid := by
  rw [Shared.lookupThreadInfo, h, Shared.lookupThreadInfo]

theorem lookup_erase {t : Tid} (h : sh.lookupThreadInfo t = some x) (hne : t ≠ tid) :
    (sh.erase tid).lookupThreadInfo t = some x := by
  obtain ⟨l1, l2, hl, hl1⟩ := List.lookup_eq_some_iff.1 h
  have hthreads : (sh.erase tid).threads =
      (l1.filter fun e => e.1 ≠ tid) ++ (t, x) :: l2.filter fun e => e.1 ≠ tid := by
    show sh.threads.filter _ = _
    rw [hl, List.filter_append, List.filter_cons_of_pos (by simpa using hne)]
  exact List.lookup_eq_some_iff.2 ⟨_, _, hthreads, fun e he => hl1 e (List.mem_of_mem_filter he)⟩

/-- Of the map and the supply of records, a step only erases an entry. -/
structure Frame (sh : Shared) (a : Actor) (sh' : Shared) : Prop where
  nextInfo : sh'.nextInfo = sh.nextInfo
  threads : sh'.threads = sh.threads ∨ ∃ tid, a.Erases tid ∧ sh'.threads = (sh.erase tid).threads

theorem Frame.same (hnext : sh'.nextInfo = sh.nextInfo) (hthreads : sh'.threads = sh.threads) : Frame sh a sh' :=
  ⟨hnext, .inl hthreads⟩

theorem Consume.next_frame (c : Consume) : Frame sh a (c.next sh).1 := by
  cases c with
  | exchange info =>
    cases info with
    | none => exact .same rfl rfl
    | some x =>
      cases hk : sh.token x with
      | none =>
        rw [Consume.next, hk]
        exact .same rfl rfl
      | some k =>
        rw [Consume.next, hk]
        exact .same rfl rfl
  | sub => exact .same rfl rfl
  | done => exact .same rfl rfl

theorem Actor.next_frame (sh : Shared) (ok : Bool) (a : Actor) : Frame sh a (a.next sh ok).1 := by
  have h := Actor.next_steps sh ok a
  generalize a.next sh ok = r at h
  cases h with
  | consume => exact Consume.next_frame _
  | eraseRunning tid y => exact ⟨rfl, .inr ⟨tid, ⟨_, y, rfl, .inl rfl⟩, rfl⟩⟩
  | eraseExiting tid info y => exact ⟨rfl, .inr ⟨tid, ⟨_, y, rfl, .inr ⟨info, rfl⟩⟩, rfl⟩⟩
  | _ => exact .same rfl rfl

/-- A `StartThread` works on the record that it has looked up. -/
theorem Actor.next_record (h : (a.next sh ok).2.1.record = some x) :
    a.record = some x ∨ ∃ tid, sh.lookupThreadInfo tid = some x := by
  have hstep := Actor.next_steps sh ok a
  generalize a.next sh ok = r at h hstep
  cases hstep with
  | consume p => exact absurd h (by cases p <;> simp [Site.fill, Actor.record])
  | pass hp => exact hp.record x h
  | mark => exact .inl h
  | add => exact .inl h
  | _ => exact absurd h (by simp [Actor.record])

variable {b : Actor}

theorem Actor.next_new (h : b ∈ (a.next sh ok).2.2) :
    ∃ tid x, a = .start tid (.minted x) ∧ ok = true ∧ b = .fiber tid (.running .idle) := by
  have hstep := Actor.next_steps sh ok a
  generalize a.next sh ok = r at h hstep
  cases hstep with
  | create tid x hok => exact ⟨tid, x, rfl, hok, List.mem_singleton.1 h⟩
  | _ => exact absurd h List.not_mem_nil

/-! ### Every run -/

/-- Each token is in one place: in one record, or consumed once. -/
structure Tokens (sh : Shared) : Prop where
  token_lt : ∀ x k, sh.token x = some k → k < sh.minted ∧ k ∉ sh.consumed
  token_inj : ∀ x y k, sh.token x = some k → sh.token y = some k → x = y
  consumed_lt : ∀ k ∈ sh.consumed, k < sh.minted
  nodup : sh.consumed.Nodup

section

variable (h : Tokens sh)

include h

theorem Tokens.congr (htoken : ∀ x, sh'.token x = sh.token x) (hminted : sh'.minted = sh.minted)
    (hconsumed : sh'.consumed = sh.consumed) : Tokens sh' where
  token_lt x k hk := by
    rw [htoken] at hk
    rw [hminted, hconsumed]
    exact h.token_lt x k hk
  token_inj x y k hx hy := by
    rw [htoken] at hx hy
    exact h.token_inj x y k hx hy
  consumed_lt k hk := by
    rw [hconsumed] at hk
    rw [hminted]
    exact h.consumed_lt k hk
  nodup := by
    rw [hconsumed]
    exact h.nodup

theorem Tokens.publish : Tokens (sh.publish x) where
  token_lt y k hk := by
    show k < sh.minted + 1 ∧ k ∉ sh.consumed
    rw [token_publish] at hk
    split at hk
    · -- the new token is not consumed yet
      have hnew : sh.minted = k := Option.some.inj hk
      refine ⟨by omega, fun hmem => ?_⟩
      have := h.consumed_lt k hmem
      omega
    · exact ⟨Nat.lt_succ_of_lt (h.token_lt y k hk).1, (h.token_lt y k hk).2⟩
  token_inj y z k hy hz := by
    rw [token_publish] at hy hz
    split at hy
    next hyx =>
      split at hz
      next hzx => rw [hyx, hzx]
      next =>
        have := (h.token_lt z k hz).1
        exact absurd (Option.some.inj hy) (by omega)
    next =>
      split at hz
      next =>
        have := (h.token_lt y k hy).1
        exact absurd (Option.some.inj hz) (by omega)
      next => exact h.token_inj y z k hy hz
  consumed_lt k hk := Nat.lt_succ_of_lt (h.consumed_lt k hk)
  nodup := h.nodup

theorem Tokens.step (he : Effect sh a sh') : Tokens sh' := by
  cases he with
  | silent htoken hminted hconsumed => exact h.congr htoken hminted hconsumed
  | publish tid x ha hsh =>
    rw [hsh]
    exact h.publish
  | take x k ha hk htoken hminted hconsumed =>
    have hrest : ∀ y j, sh'.token y = some j → y ≠ x ∧ sh.token y = some j := by
      intro y j hj
      rw [htoken] at hj
      split at hj
      · exact absurd hj (by simp)
      next hne => exact ⟨hne, hj⟩
    refine ⟨fun y j hj => ?_, fun y z j hy hz => ?_, fun j hj => ?_, ?_⟩
    · obtain ⟨hne, hj⟩ := hrest y j hj
      rw [hminted, hconsumed, List.mem_cons, not_or]
      refine ⟨(h.token_lt y j hj).1, fun hjk => ?_, (h.token_lt y j hj).2⟩
      rw [hjk] at hj
      exact hne (h.token_inj y x k hj hk)
    · exact h.token_inj y z j (hrest y j hy).2 (hrest z j hz).2
    · rw [hconsumed] at hj
      rw [hminted]
      obtain rfl | hj := List.mem_cons.1 hj
      · exact (h.token_lt x j hk).1
      · exact h.consumed_lt j hj
    · rw [hconsumed]
      exact List.nodup_cons.2 ⟨(h.token_lt x k hk).2, h.nodup⟩

theorem Tokens.length_le : sh.consumed.length ≤ sh.minted := by
  have hsub : sh.consumed.toFinset ⊆ Finset.range sh.minted := by
    intro k hk
    exact Finset.mem_range.2 (h.consumed_lt k (List.mem_toFinset.1 hk))
  have hcard := Finset.card_le_card hsub
  rwa [List.toFinset_card_of_nodup h.nodup, Finset.card_range] at hcard

end

structure Inv (s : State) : Prop where
  tokens : Tokens s.shared
  known : Known s
  surplus : s.shared.surplus = (s.actors.map Actor.owed).sum

theorem Consume.owed_nonneg (c : Consume) : 0 ≤ c.owed := by
  cases c with
  | sub => exact Int.one_nonneg
  | _ => exact Int.le_refl 0

theorem Delete.owed_nonneg (d : Delete) : 0 ≤ d.owed := by
  cases d with
  | consuming c => exact c.owed_nonneg
  | _ => exact Int.le_refl 0

theorem Actor.owed_nonneg (a : Actor) : 0 ≤ a.owed := by
  cases a with
  | start tid pc =>
    cases pc with
    | added x => exact Int.one_nonneg
    | refused x c => exact c.owed_nonneg
    | _ => exact Int.le_refl 0
  | fiber tid pc =>
    cases pc with
    | running d => exact d.owed_nonneg
    | exiting info d => exact d.owed_nonneg
    | consuming c => exact c.owed_nonneg
    | finished => exact Int.le_refl 0
  | stop c todo => exact c.owed_nonneg

theorem Inv.nonneg {s : State} (h : Inv s) : 0 ≤ s.shared.activeThreads := by
  have howed : 0 ≤ (s.actors.map Actor.owed).sum :=
    List.sum_nonneg fun n hn => by
      obtain ⟨a, -, rfl⟩ := List.mem_map.1 hn
      exact a.owed_nonneg
  have hlength := h.tokens.length_le
  have hsurplus := h.surplus
  rw [Shared.surplus] at hsurplus
  omega

/-! ### One thread of control at a time -/

variable {s s' : State} {i : ℕ}

theorem perm_eraseIdx (hi : s.actors[i]? = some a) : s.actors.Perm (a :: s.actors.eraseIdx i) := by
  obtain ⟨hlt, ha⟩ := List.getElem?_eq_some_iff.1 hi
  have hperm := List.set_perm_cons_eraseIdx hlt a
  rwa [← ha, List.set_getElem_self, ha] at hperm

theorem perm_set (hi : s.actors[i]? = some a) : (s.actors.set i a').Perm (a' :: s.actors.eraseIdx i) :=
  List.set_perm_cons_eraseIdx (List.getElem?_eq_some_iff.1 hi).1 a'

/-- The thread of control `a` becomes `a'` and `new` ones are there; the `rest` stays. -/
structure Moves (s : State) (a a' : Actor) (rest new : List Actor) (s' : State) : Prop where
  before : s.actors.Perm (a :: rest)
  after : s'.actors.Perm (a' :: (rest ++ new))

section

variable {rest : List Actor} (h : Moves s a a' rest new s')

include h

theorem Moves.mem : b ∈ s'.actors ↔ b = a' ∨ b ∈ rest ∨ b ∈ new := by
  rw [h.after.mem_iff, List.mem_cons, List.mem_append]

theorem Moves.mem_before : b ∈ s.actors ↔ b = a ∨ b ∈ rest := by
  rw [h.before.mem_iff, List.mem_cons]

end

theorem step_run (hs : s.step (.run i ok) = some s') : ∃ a, s.actors[i]? = some a ∧ s'.shared = (a.next s.shared ok).1 ∧
    Moves s a (a.next s.shared ok).2.1 (s.actors.eraseIdx i) (a.next s.shared ok).2.2 s' := by
  rw [State.step] at hs
  obtain ⟨a, ha, rfl⟩ := Option.map_eq_some_iff.1 hs
  exact ⟨a, ha, rfl, perm_eraseIdx ha, (perm_set ha).append_right _⟩

theorem step_delete (hs : s.step (.delete i) = some s') : ∃ a a', s.actors[i]? = some a ∧ a.delete s.shared =
    some (s'.shared, a') ∧ Moves s a a' (s.actors.eraseIdx i) [] s' := by
  rw [State.step] at hs
  obtain ⟨a, ha, hs⟩ := Option.bind_eq_some_iff.1 hs
  obtain ⟨⟨sh, a'⟩, hdelete, rfl⟩ := Option.map_eq_some_iff.1 hs
  refine ⟨a, a', ha, hdelete, perm_eraseIdx ha, ?_⟩
  rw [List.append_nil]
  exact perm_set ha

/-- `ExitDeleteThread` begins on the record that the map has for its fiber, or on a new one. -/
theorem Actor.delete_cases (h : a.delete sh = some (sh', a')) :
    ∃ tid, sh' = (sh.ensureCurrentThreadInfo tid).1 ∧
      ((a = .fiber tid (.running .idle) ∧ a' = .fiber tid (.running (.found (sh.ensureCurrentThreadInfo tid).2))) ∨
        ∃ info, a = .fiber tid (.exiting info .idle) ∧
          a' = .fiber tid (.exiting info (.found (sh.ensureCurrentThreadInfo tid).2))) := by
  unfold Actor.delete at h
  split at h
  next tid =>
    obtain ⟨rfl, rfl⟩ := Prod.mk.inj (Option.some.inj h)
    exact ⟨tid, rfl, .inl ⟨rfl, rfl⟩⟩
  next tid info =>
    obtain ⟨rfl, rfl⟩ := Prod.mk.inj (Option.some.inj h)
    exact ⟨tid, rfl, .inr ⟨info, rfl, rfl⟩⟩
  next => exact absurd h (by simp)

/-! ### New records -/

section Ensure

variable (sh : Shared) (tid : Tid)

theorem ensure_token (hnew : sh.token sh.nextInfo = none) (x : ℕ) :
    (sh.ensureCurrentThreadInfo tid).1.token x = sh.token x := by
  rw [Shared.ensureCurrentThreadInfo]
  split
  · rfl
  · exact token_same (v := ⟨true, false, none⟩) rfl hnew.symm

theorem ensure_frame : (sh.ensureCurrentThreadInfo tid).1.minted = sh.minted ∧
    (sh.ensureCurrentThreadInfo tid).1.consumed = sh.consumed ∧
      (sh.ensureCurrentThreadInfo tid).1.activeThreads = sh.activeThreads ∧
        sh.nextInfo ≤ (sh.ensureCurrentThreadInfo tid).1.nextInfo := by
  rw [Shared.ensureCurrentThreadInfo]
  split
  · exact ⟨rfl, rfl, rfl, Nat.le_refl _⟩
  · exact ⟨rfl, rfl, rfl, Nat.le_succ _⟩

theorem ensure_threads (h : ∀ e ∈ sh.threads, e.2 < sh.nextInfo) :
    ∀ e ∈ (sh.ensureCurrentThreadInfo tid).1.threads, e.2 < (sh.ensureCurrentThreadInfo tid).1.nextInfo := by
  rw [Shared.ensureCurrentThreadInfo]
  split
  · exact h
  · intro e he
    obtain he | he := List.mem_append.1 he
    · exact Nat.lt_succ_of_lt (h e he)
    · rw [List.mem_singleton.1 he]
      exact Nat.lt_succ_self _

theorem ensure_lookup {t : Tid} {x : ℕ} (h : sh.lookupThreadInfo t = some x) :
    (sh.ensureCurrentThreadInfo tid).1.lookupThreadInfo t = some x := by
  rw [Shared.ensureCurrentThreadInfo]
  split
  · exact h
  · show (sh.threads ++ [(tid, sh.nextInfo)]).lookup t = some x
    rw [List.lookup_append]
    have hold : sh.threads.lookup t = some x := h
    rw [hold]
    rfl

theorem ensure_snd {x : ℕ} (h : sh.lookupThreadInfo tid = some x) : (sh.ensureCurrentThreadInfo tid).2 = x := by
  rw [Shared.ensureCurrentThreadInfo, h]

end Ensure

/-! ### The invariant of every run -/

theorem Known.token_nextInfo (h : Known s) : s.shared.token s.shared.nextInfo = none := by
  by_contra hne
  exact absurd (h.token _ hne) (Nat.lt_irrefl _)

theorem Inv.init (h : Init s) : Inv s where
  tokens := by
    refine ⟨fun x k hk => ?_, fun x y k hx _ => ?_, fun k hk => ?_, ?_⟩
    · rw [h.token] at hk
      exact absurd hk (by simp)
    · rw [h.token] at hx
      exact absurd hx (by simp)
    · rw [h.consumed] at hk
      exact absurd hk List.not_mem_nil
    · rw [h.consumed]
      exact List.nodup_nil
  known := by
    refine ⟨fun x hx => absurd (h.token x) hx, h.known, fun a ha x hx => ?_⟩
    obtain ⟨tid, rfl⟩ := h.actors a ha
    exact absurd hx (by simp [Actor.record])
  surplus := by
    have howed : ∀ n ∈ s.actors.map Actor.owed, n = 0 := by
      intro n hn
      obtain ⟨a, ha, rfl⟩ := List.mem_map.1 hn
      obtain ⟨tid, rfl⟩ := h.actors a ha
      rfl
    rw [List.sum_eq_zero howed, Shared.surplus, h.active, h.consumed, h.minted]
    rfl

section

variable (h : Inv s)

include h

theorem Inv.run (hs : s.step (.run i ok) = some s') : Inv s' := by
  obtain ⟨a, ha, hshared, hmoves⟩ := step_run hs
  have hmem := List.mem_of_getElem? ha
  have heffect := a.effect s.shared ok
  have hframe := a.next_frame s.shared ok
  have hsurplus := a.next_surplus s.shared ok
  rw [← hshared] at heffect hframe hsurplus
  refine ⟨h.tokens.step heffect, ⟨fun x hx => ?_, fun e he => ?_, fun b hb x hx => ?_⟩, ?_⟩
  · rw [hframe.nextInfo]
    cases heffect with
    | silent htoken _ _ => exact h.known.token x (by rwa [← htoken])
    | publish tid y hay hsh =>
      rw [hsh, token_publish] at hx
      split at hx
      next heq =>
        rw [heq]
        exact h.known.record a hmem y (by rw [hay]; rfl)
      next => exact h.known.token x hx
    | take y k _ _ htoken _ _ =>
      rw [htoken] at hx
      split at hx
      · exact absurd rfl hx
      · exact h.known.token x hx
  · rw [hframe.nextInfo]
    obtain hthreads | ⟨tid, -, hthreads⟩ := hframe.threads
    · rw [hthreads] at he
      exact h.known.threads e he
    · rw [hthreads] at he
      exact h.known.threads e (List.mem_of_mem_filter he)
  · rw [hframe.nextInfo]
    obtain rfl | hb | hb := hmoves.mem.1 hb
    · obtain hx | ⟨tid, hx⟩ := Actor.next_record hx
      · exact h.known.record a hmem x hx
      · exact h.known.threads _ (lookup_mem hx)
    · exact h.known.record b (List.mem_of_mem_eraseIdx hb) x hx
    · obtain ⟨tid, y, -, -, rfl⟩ := Actor.next_new hb
      exact absurd hx (by simp [Actor.record])
  · have hbefore := (hmoves.before.map Actor.owed).sum_eq
    have hafter := (hmoves.after.map Actor.owed).sum_eq
    rw [List.map_cons, List.sum_cons] at hbefore hafter
    rw [List.map_append, List.sum_append] at hafter
    have hold := h.surplus
    omega

theorem Inv.delete (hs : s.step (.delete i) = some s') : Inv s' := by
  obtain ⟨a, a', ha, hdelete, hmoves⟩ := step_delete hs
  obtain ⟨tid, hshared, hcases⟩ := Actor.delete_cases hdelete
  obtain ⟨hminted, hconsumed, hactive, hnext⟩ := ensure_frame s.shared tid
  have htoken := ensure_token s.shared tid h.known.token_nextInfo
  have hthreads := ensure_threads s.shared tid h.known.threads
  rw [← hshared] at hminted hconsumed hactive hnext htoken hthreads
  have howed : a.owed = 0 ∧ a'.owed = 0 ∧ a'.record = none := by
    obtain ⟨rfl, rfl⟩ | ⟨info, rfl, rfl⟩ := hcases
    · exact ⟨rfl, rfl, rfl⟩
    · exact ⟨rfl, rfl, rfl⟩
  refine ⟨h.tokens.congr htoken hminted hconsumed, ⟨fun x hx => ?_, hthreads, fun b hb x hx => ?_⟩, ?_⟩
  · rw [htoken] at hx
    exact (h.known.token x hx).trans_le hnext
  · obtain rfl | hb | hb := hmoves.mem.1 hb
    · rw [howed.2.2] at hx
      exact absurd hx (by simp)
    · exact (h.known.record b (List.mem_of_mem_eraseIdx hb) x hx).trans_le hnext
    · exact absurd hb List.not_mem_nil
  · have hbefore := (hmoves.before.map Actor.owed).sum_eq
    have hafter := (hmoves.after.map Actor.owed).sum_eq
    rw [List.map_cons, List.sum_cons] at hbefore hafter
    rw [List.append_nil] at hafter
    have hold := h.surplus
    rw [Shared.surplus] at hold ⊢
    rw [hminted, hconsumed, hactive]
    omega

theorem Inv.join {threads : List (Tid × ℕ)} (hthreads : ∀ e ∈ threads, e ∈ s.shared.threads) (howed : a.owed = 0)
    (hrecord : a.record = none) : Inv ⟨{ s.shared with threads }, s.actors ++ [a]⟩ := by
  refine ⟨h.tokens.congr (fun _ => rfl) rfl rfl, ⟨h.known.token, fun e he => h.known.threads e (hthreads e he),
    fun b hb x hx => ?_⟩, ?_⟩
  · obtain hb | hb := List.mem_append.1 hb
    · exact h.known.record b hb x hx
    · rw [List.mem_singleton.1 hb, hrecord] at hx
      exact absurd hx (by simp)
  · rw [List.map_append, List.sum_append, List.map_singleton, List.sum_singleton, howed, add_zero]
    exact h.surplus

theorem Inv.step {act : Act} (hs : s.step act = some s') : Inv s' := by
  cases act with
  | call tid =>
    rw [← Option.some.inj hs]
    exact h.join (fun _ he => he) rfl rfl
  | stop =>
    rw [← Option.some.inj hs]
    exact h.join (fun _ he => absurd he List.not_mem_nil) rfl rfl
  | run i ok => exact h.run hs
  | delete i => exact h.delete hs

end

theorem Inv.of_reach {P : State → Act → Prop} (h : Reach P s) : Inv s := by
  induction h with
  | init h => exact .init h
  | step _ _ hs ih => exact ih.step hs

/-! ### On the way to a token -/

section

variable (h : a.awaits sh x)

include h

/-- Who depends on the map is a fiber in its guest code, through the entry of its thread. -/
theorem awaits_cases :
    (∀ sh', a.awaits sh' x) ∨ ∃ tid, a = .fiber tid (.running .idle) ∧ sh.lookupThreadInfo tid = some x := by
  cases a with
  | start tid pc =>
    cases pc with
    | minted y => exact .inl fun _ => h
    | refused y c => exact .inl fun _ => h
    | _ => exact h.elim
  | fiber tid pc =>
    cases pc with
    | running d =>
      cases d with
      | idle => exact .inr ⟨tid, rfl, h⟩
      | found y => exact .inl fun _ => h
      | consuming c => exact .inl fun _ => h
    | exiting info d => exact .inl fun _ => h
    | consuming c => exact .inl fun _ => h
    | finished => exact h.elim
  | stop c todo => exact .inl fun _ => h

theorem awaits_of_lookup
    (hlookup : ∀ t, sh.lookupThreadInfo t = some x → sh'.lookupThreadInfo t = some x) : a.awaits sh' x := by
  obtain hall | ⟨tid, rfl, hx⟩ := awaits_cases h
  · exact hall sh'
  · exact hlookup tid hx

/-- When the map is cleared, who loses its way to a record leaves it to the stop. -/
theorem awaits_or_mem : a.awaits sh' x ∨ x ∈ sh.threads.map Prod.snd := by
  obtain hall | ⟨tid, rfl, hx⟩ := awaits_cases h
  · exact .inl (hall sh')
  · exact .inr (List.mem_map.2 ⟨_, lookup_mem hx, rfl⟩)

end

theorem Consume.token_next (h : c.awaits x) : (c.next sh).1.token x = none := by
  have hc : c = .exchange (some x) := h
  subst hc
  cases hk : sh.token x with
  | none =>
    rw [Consume.next, hk]
    exact hk
  | some k =>
    rw [Consume.next, hk]
    have htoken : Shared.token
        { sh.modify x fun info => { info with activeCounted := none } with consumed := k :: sh.consumed } x =
          if x = x then none else sh.token x :=
      token_update (v := { sh.infos x with activeCounted := none }) rfl
    rwa [if_pos rfl] at htoken

/-- Who is on the way stays so until the token is taken, but a `StartThread` whose fiber is created. -/
theorem Actor.next_awaits (h : a.awaits (a.next sh ok).1 x) (htoken : (a.next sh ok).1.token x ≠ none) :
    (a.next sh ok).2.1.awaits (a.next sh ok).1 x ∨ ∃ tid, a = .start tid (.minted x) ∧ ok = true := by
  have hstep := Actor.next_steps sh ok a
  generalize a.next sh ok = r at h htoken hstep
  cases hstep with
  | @consume p c hc =>
    by_cases hx : c.awaits x
    · exact absurd (Consume.token_next hx) htoken
    · -- somebody's record or a record to do
      cases p with
      | exiting tid info => exact .inl (.inl (h.resolve_right hx))
      | stop todo => exact .inl (.inr (h.resolve_left hx))
      | _ => exact absurd h hx
  | pass hp => exact .inl (hp.awaits x h)
  | create tid y hok =>
    have hxy : x = y := h
    exact .inr ⟨tid, by rw [hxy], hok⟩
  | refused tid y => exact Consume.noConfusion h
  | reset tid y =>
    have hxy : some y = some x := h.resolve_right id
    exact .inl (congrArg Consume.exchange hxy)
  | eraseRunning tid y =>
    have hxy : x = y := h
    exact .inl (congrArg Consume.exchange (congrArg some hxy.symm))
  | eraseExiting tid info y =>
    obtain hinfo | hxy : info = some x ∨ x = y := h
    · exact .inl (.inl hinfo)
    · exact .inl (.inr (congrArg Consume.exchange (congrArg some hxy.symm)))
  | _ => exact h.elim

/-! ### Stops and last steps -/

/-- A stop without a token to consume gets none. -/
theorem Actor.next_pending (hbusy : a.busy = false) (h : ¬a.Pending sh) :
    ¬(a.next sh ok).2.1.Pending (a.next sh ok).1 := by
  cases a with
  | start tid pc => exact fun h => h
  | fiber tid pc => exact fun h => h
  | stop c todo =>
    cases c with
    | done =>
      cases todo with
      | nil => exact h
      | cons y todo =>
        rintro (hc | ⟨x, hx, htoken⟩)
        · exact Consume.noConfusion hc
        · refine h (.inr ⟨x, .inr ?_, htoken⟩)
          obtain hx | hx := hx
          · have hxy : some y = some x := Consume.exchange.inj hx
            rw [Option.some.inj hxy]
            exact List.mem_cons_self
          · exact List.mem_cons_of_mem _ hx
    | exchange info =>
      cases info with
      | none => exact fun hp => h (hp.elim (fun hc => Consume.noConfusion hc)
          fun ⟨x, hx, htoken⟩ => .inr ⟨x, hx.elim (fun hc => Consume.noConfusion hc) .inr, htoken⟩)
      | some y =>
        have hy : sh.token y = none := by
          by_contra hne
          exact h (.inr ⟨y, .inl rfl, hne⟩)
        have hnext : Actor.next sh ok (.stop (.exchange (some y)) todo) = (sh, .stop .done todo, []) := by
          simp only [Actor.next, Consume.next, hy]
        rw [hnext]
        rintro (hc | ⟨x, hx, htoken⟩)
        · exact Consume.noConfusion hc
        · exact h (.inr ⟨x, hx.elim (fun hc => Consume.noConfusion hc) .inr, htoken⟩)
    | sub => exact absurd (.inl rfl) h

theorem Actor.next_ends (sh : Shared) (ok : Bool) (h : a.ends = true) :
    (a.next sh ok).1 = sh ∧ (a.next sh ok).2.2 = [] ∧ ¬(a.next sh ok).2.1.Pending sh := by
  cases a with
  | start tid pc =>
    cases pc with
    | returning => exact ⟨rfl, rfl, fun h => h⟩
    | _ => exact absurd h (by simp [Actor.ends])
  | fiber tid pc =>
    cases pc with
    | consuming c =>
      cases c with
      | done => exact ⟨rfl, rfl, fun h => h⟩
      | _ => exact absurd h (by simp [Actor.ends])
    | _ => exact absurd h (by simp [Actor.ends])
  | stop c todo => exact absurd h (by simp [Actor.ends])

theorem Actor.busy_next (hbusy : a.busy = true) (hends : a.ends = false) : (a.next sh ok).2.1.busy = true := by
  have hstep := Actor.next_steps sh ok a
  generalize a.next sh ok = r at hstep
  cases hstep with
  | consume p =>
    cases p with
    | stop todo => exact absurd hbusy (by simp [Site.fill, Actor.busy])
    | _ => rfl
  | pass hp => exact hp.busy hbusy hends
  | _ => rfl

/-! ### Careful runs -/

/-- No token is lost: it is consumed, or in a record that somebody is on the way to; at rest no stop has any. -/
structure Held (s : State) : Prop where
  held : ∀ k < s.shared.minted, k ∈ s.shared.consumed ∨ ∃ x, s.shared.token x = some k
  awaited : ∀ x, s.shared.token x ≠ none → s.Awaited x
  quiet : s.Quiet → ∀ b ∈ s.actors, ¬b.Pending s.shared

theorem Held.token_none (h : Held s) (hq : s.Quiet) (x : ℕ) : s.shared.token x = none := by
  by_contra hne
  obtain ⟨b, hb, hx⟩ := h.awaited x hne
  have hbusy := hq b hb
  cases b with
  | start tid pc =>
    have hpc : pc = .returned := by simpa [Actor.busy] using hbusy
    subst hpc
    exact hx.elim
  | fiber tid pc =>
    have hpc : pc = .finished := by simpa [Actor.busy] using hbusy
    subst hpc
    exact hx.elim
  | stop c todo => exact h.quiet hq _ hb (.inr ⟨x, hx, hne⟩)

theorem Held.init (h : Init s) : Held s where
  held k hk := by
    rw [h.minted] at hk
    exact absurd hk (Nat.not_lt_zero k)
  awaited x hx := absurd (h.token x) hx
  quiet _ b hb := by
    obtain ⟨tid, rfl⟩ := h.actors b hb
    exact fun h => h

section

variable (h : Held s)

include h

theorem Held.run (hs : s.step (.run i ok) = some s')
    (hc : ∀ a, s.actors[i]? = some a → CarefulAt s i ok a) : Held s' := by
  obtain ⟨a, ha, hshared, hmoves⟩ := step_run hs
  have hcareful := hc a ha
  have hmem := List.mem_of_getElem? ha
  have heffect := a.effect s.shared ok
  have hframe := a.next_frame s.shared ok
  rw [← hshared] at heffect hframe
  refine ⟨fun k hk => ?_, fun x hx => ?_, fun hq => ?_⟩
  · cases heffect with
    | silent htoken hminted hconsumed =>
      rw [hminted] at hk
      simp only [hconsumed, htoken]
      exact h.held k hk
    | publish tid y hay hsh =>
      -- the record that gets the token had none
      have hy := hcareful.publish tid y hay
      rw [hsh] at hk ⊢
      simp only [token_publish]
      obtain hk | rfl : k < s.shared.minted ∨ k = s.shared.minted := by
        have hlt : k < s.shared.minted + 1 := hk
        omega
      · obtain hk | ⟨z, hz⟩ := h.held k hk
        · exact .inl hk
        · refine .inr ⟨z, ?_⟩
          rw [if_neg, hz]
          rintro rfl
          rw [hz] at hy
          exact absurd hy (by simp)
      · exact .inr ⟨y, if_pos rfl⟩
    | take y j _ hj htoken hminted hconsumed =>
      rw [hminted] at hk
      simp only [hconsumed, htoken, List.mem_cons]
      obtain hk | ⟨z, hz⟩ := h.held k hk
      · exact .inl (.inr hk)
      · by_cases hzy : z = y
        · rw [hzy, hj] at hz
          exact .inl (.inl (Option.some.inj hz).symm)
        · exact .inr ⟨z, by rw [if_neg hzy, hz]⟩
  · have hold : s.shared.token x ≠ none ∨ ∃ tid, a = .start tid (.added x) := by
      cases heffect with
      | silent htoken _ _ => exact .inl (by rwa [← htoken])
      | publish tid y hay hsh =>
        rw [hsh, token_publish] at hx
        split at hx
        next heq => exact .inr ⟨tid, by rw [hay, heq]⟩
        next => exact .inl hx
      | take y j _ _ htoken _ _ =>
        rw [htoken] at hx
        split at hx
        · exact absurd rfl hx
        · exact .inl hx
    obtain hold | ⟨tid, rfl⟩ := hold
    · -- somebody is on the way in the new map
      have hway : ∃ b ∈ s.actors, b.awaits s'.shared x := by
        obtain ⟨b, hb, hbx⟩ := h.awaited x hold
        obtain hthreads | ⟨tid, ⟨pc, y, hay, hpc⟩, hthreads⟩ := hframe.threads
        · exact ⟨b, hb, awaits_of_lookup hbx fun t ht => by rwa [lookup_congr hthreads]⟩
        · by_cases hlookup : s.shared.lookupThreadInfo tid = some x
          · obtain hnone | ⟨b, hb, hbx⟩ := hcareful.erase tid x y pc hay hpc hlookup
            · exact absurd hnone hold
            · exact ⟨b, hb, awaits_of_lookup hbx fun t ht => by rwa [lookup_congr hthreads]⟩
          · refine ⟨b, hb, awaits_of_lookup hbx fun t ht => ?_⟩
            rw [lookup_congr hthreads]
            refine lookup_erase ht ?_
            rintro rfl
            exact hlookup ht
      obtain ⟨b, hb, hbx⟩ := hway
      obtain rfl | hb := hmoves.mem_before.1 hb
      · rw [hshared] at hbx hx
        obtain hnext | ⟨tid, rfl, rfl⟩ := Actor.next_awaits hbx hx
        · exact ⟨_, hmoves.mem.2 (.inl rfl), by rwa [hshared]⟩
        · -- the fiber of this `StartThread` is created
          have hsame : s'.shared = s.shared := hshared
          obtain hnone | hlookup | ⟨b, hb, hbx⟩ := hcareful.create tid x rfl rfl
          · exact absurd hnone hold
          · refine ⟨.fiber tid (.running .idle), hmoves.mem.2 (.inr (.inr (List.mem_singleton.2 rfl))), ?_⟩
            rw [hsame]
            exact hlookup
          · refine ⟨b, hmoves.mem.2 (.inr (.inl hb)), ?_⟩
            rw [hsame]
            exact hbx
      · exact ⟨b, hmoves.mem.2 (.inr (.inl hb)), hbx⟩
    · exact ⟨_, hmoves.mem.2 (.inl rfl), rfl⟩
  · -- at rest
    have hrest : ∀ b ∈ s.actors.eraseIdx i, b.busy = false := fun b hb => hq b (hmoves.mem.2 (.inr (.inl hb)))
    have hnext : (a.next s.shared ok).2.1.busy = false := hq _ (hmoves.mem.2 (.inl rfl))
    cases hends : a.ends with
    | true =>
      obtain ⟨hsame, hnew, hpending⟩ := Actor.next_ends s.shared ok hends
      obtain ⟨b, hb, hbusy⟩ | hnone := hcareful.ends hends
      · rw [hrest b hb] at hbusy
        exact absurd hbusy (by decide)
      · intro b hb
        rw [hshared, hsame]
        obtain rfl | hb | hb := hmoves.mem.1 hb
        · exact hpending
        · exact hnone b (List.mem_of_mem_eraseIdx hb)
        · rw [hnew] at hb
          exact absurd hb List.not_mem_nil
    | false =>
      have hbusy : a.busy = false := by
        by_contra hne
        rw [Actor.busy_next (by simpa using hne) hends] at hnext
        exact absurd hnext (by decide)
      have hquiet : s.Quiet := by
        intro b hb
        obtain rfl | hb := hmoves.mem_before.1 hb
        · exact hbusy
        · exact hrest b hb
      have hnone := h.token_none hquiet
      have hnone' : ∀ x, s'.shared.token x = none := by
        intro x
        cases heffect with
        | silent htoken _ _ => rw [htoken, hnone]
        | publish tid y hay _ =>
          rw [hay] at hbusy
          exact absurd hbusy (by simp [Actor.busy])
        | take y j _ hj _ _ _ =>
          rw [hnone] at hj
          exact absurd hj (by simp)
      have hpending := h.quiet hquiet
      intro b hb
      obtain rfl | hb | hb := hmoves.mem.1 hb
      · rw [hshared]
        exact Actor.next_pending hbusy (hpending a hmem)
      · have hb' := hpending b (List.mem_of_mem_eraseIdx hb)
        cases b with
        | start tid pc => exact hb'
        | fiber tid pc => exact hb'
        | stop c todo =>
          rintro (hc | ⟨x, -, hx⟩)
          · exact hb' (.inl hc)
          · exact hx (hnone' x)
      · obtain ⟨tid, y, rfl, -, -⟩ := Actor.next_new hb
        exact absurd hbusy (by simp [Actor.busy])

theorem Held.delete (hknown : Known s) (hs : s.step (.delete i) = some s') : Held s' := by
  obtain ⟨a, a', ha, hdelete, hmoves⟩ := step_delete hs
  obtain ⟨tid, hshared, hcases⟩ := Actor.delete_cases hdelete
  obtain ⟨hminted, hconsumed, -, -⟩ := ensure_frame s.shared tid
  have htoken := ensure_token s.shared tid hknown.token_nextInfo
  rw [← hshared] at hminted hconsumed htoken
  refine ⟨fun k hk => ?_, fun x hx => ?_, fun hq => ?_⟩
  · rw [hminted] at hk
    simp only [hconsumed, htoken]
    exact h.held k hk
  · rw [htoken] at hx
    obtain ⟨b, hb, hbx⟩ := h.awaited x hx
    have hlookup : ∀ t, s.shared.lookupThreadInfo t = some x → s'.shared.lookupThreadInfo t = some x := by
      intro t ht
      rw [hshared]
      exact ensure_lookup s.shared tid ht
    obtain rfl | hb := hmoves.mem_before.1 hb
    · refine ⟨a', hmoves.mem.2 (.inl rfl), ?_⟩
      obtain ⟨rfl, rfl⟩ | ⟨info, rfl, rfl⟩ := hcases
      · exact (ensure_snd s.shared tid hbx).symm
      · obtain hinfo | hidle : info = some x ∨ Delete.idle.awaits x := hbx
        · exact .inl hinfo
        · exact hidle.elim
    · exact ⟨b, hmoves.mem.2 (.inr (.inl hb)), awaits_of_lookup hbx hlookup⟩
  · -- its fiber is not finished
    have hbusy := hq a' (hmoves.mem.2 (.inl rfl))
    obtain ⟨-, rfl⟩ | ⟨info, -, rfl⟩ := hcases
    · exact absurd hbusy (by simp [Actor.busy])
    · exact absurd hbusy (by simp [Actor.busy])

theorem Held.call : Held ⟨s.shared, s.actors ++ [.start tid .called]⟩ := by
  refine ⟨h.held, fun x hx => ?_, fun hq => ?_⟩
  · obtain ⟨b, hb, hbx⟩ := h.awaited x hx
    exact ⟨b, List.mem_append_left _ hb, hbx⟩
  · have hbusy := hq (.start tid .called) (List.mem_append_right _ List.mem_cons_self)
    exact absurd hbusy (by simp [Actor.busy])

theorem Held.stop :
    Held ⟨{ s.shared with threads := [] }, s.actors ++ [.stop .done (s.shared.threads.map Prod.snd)]⟩ := by
  refine ⟨h.held, fun x hx => ?_, fun hq => ?_⟩
  · obtain ⟨b, hb, hbx⟩ := h.awaited x hx
    obtain hbx | hmem := awaits_or_mem hbx
    · exact ⟨b, List.mem_append_left _ hb, hbx⟩
    · exact ⟨_, List.mem_append_right _ List.mem_cons_self, .inr hmem⟩
  · have hquiet : s.Quiet := fun b hb => hq b (List.mem_append_left _ hb)
    intro b hb
    obtain hb | hb := List.mem_append.1 hb
    · have hb' := h.quiet hquiet b hb
      cases b <;> exact hb'
    · rw [List.mem_singleton.1 hb]
      rintro (hc | ⟨x, -, hx⟩)
      · exact Consume.noConfusion hc
      · exact hx (h.token_none hquiet x)

end

theorem Held.of_reach (h : Reach Careful s) : Held s := by
  induction h with
  | init h => exact .init h
  | @step s s' act hreach hcareful hs ih =>
    cases act with
    | call tid =>
      rw [← Option.some.inj hs]
      exact ih.call
    | stop =>
      rw [← Option.some.inj hs]
      exact ih.stop
    | run i ok => exact ih.run hs hcareful
    | delete i => exact ih.delete (Inv.of_reach hreach).known hs

/-- At rest nobody is between two operations, but a stop. -/
theorem owed_of_quiet (hbusy : a.busy = false) (h : ¬a.Pending sh) : a.owed = 0 := by
  cases a with
  | start tid pc =>
    have hpc : pc = .returned := by simpa [Actor.busy] using hbusy
    rw [hpc]
    rfl
  | fiber tid pc =>
    have hpc : pc = .finished := by simpa [Actor.busy] using hbusy
    rw [hpc]
    rfl
  | stop c todo =>
    cases c with
    | sub => exact absurd (.inl rfl) h
    | _ => rfl

theorem balanced_of_careful (h : Reach Careful s) : Balanced s := by
  have hinv := Inv.of_reach h
  have hheld := Held.of_reach h
  refine ⟨hinv.nonneg, hinv.tokens.nodup, fun hq => ?_⟩
  have howed : ∀ n ∈ s.actors.map Actor.owed, n = 0 := by
    intro n hn
    obtain ⟨a, ha, rfl⟩ := List.mem_map.1 hn
    exact owed_of_quiet (hq a ha) (hheld.quiet hq a ha)
  -- every token is consumed
  have hsub : Finset.range s.shared.minted ⊆ s.shared.consumed.toFinset := by
    intro k hk
    obtain hk | ⟨x, hx⟩ := hheld.held k (Finset.mem_range.1 hk)
    · exact List.mem_toFinset.2 hk
    · rw [hheld.token_none hq] at hx
      exact absurd hx (by simp)
  have hcard := Finset.card_le_card hsub
  rw [List.toFinset_card_of_nodup hinv.tokens.nodup, Finset.card_range] at hcard
  have hlength := hinv.tokens.length_le
  have hsurplus := hinv.surplus
  rw [List.sum_eq_zero howed, Shared.surplus] at hsurplus
  omega

/-! ### One thread and its record -/

/-- Reasons for which a step is careful that look at few things. -/
def State.carefulStep (s : State) (i : ℕ) (ok : Bool) : Actor → Bool
  | .start _ (.added x) => s.shared.token x = none
  | .start tid (.minted x) => !ok || s.shared.lookupThreadInfo tid = some x
  | .start _ .returning => (s.actors.eraseIdx i).any Actor.busy
  | .fiber _ (.running (.found _)) => false
  | .fiber _ (.exiting _ (.found _)) => false
  | .fiber _ (.consuming .done) => s.actors.all fun b => !(b matches .stop _ _)
  | _ => true

theorem CarefulAt.of_check (h : s.carefulStep i ok a = true) : CarefulAt s i ok a where
  publish tid x ha := by
    subst ha
    simpa [State.carefulStep] using h
  create tid x ha hok := by
    subst ha hok
    exact .inr (.inl (by simpa [State.carefulStep] using h))
  erase tid x y pc ha hpc _ := by
    subst ha
    obtain rfl | ⟨info, rfl⟩ := hpc
    · exact absurd h (by simp [State.carefulStep])
    · exact absurd h (by simp [State.carefulStep])
  ends hends := by
    cases a with
    | start tid pc =>
      cases pc with
      | returning => exact .inl (List.any_eq_true.1 h)
      | _ => exact absurd hends (by simp [Actor.ends])
    | fiber tid pc =>
      cases pc with
      | consuming c =>
        cases c with
        | done =>
          refine .inr fun b hb => ?_
          have hstop := List.all_eq_true.1 h b hb
          cases b with
          | stop c todo => exact absurd hstop (by simp)
          | _ => exact fun h => h
        | _ => exact absurd hends (by simp [Actor.ends])
      | _ => exact absurd hends (by simp [Actor.ends])
    | stop c todo => exact absurd hends (by simp [Actor.ends])

def State.carefulAct (s : State) : Act → Bool
  | .run i ok => s.actors[i]?.all (s.carefulStep i ok)
  | _ => true

theorem Careful.of_check {act : Act} (h : s.carefulAct act = true) : Careful s act := by
  cases act with
  | run i ok =>
    intro a ha
    refine .of_check ?_
    have h' : s.actors[i]?.all (s.carefulStep i ok) = true := h
    rwa [ha] at h'
  | _ => trivial

/-- A run of given steps, each of which passes a check. -/
def State.runs (check : State → Act → Bool) (s : State) (l : List Act) : Option State :=
  l.foldlM (fun s act => if check s act then s.step act else none) s

theorem Reach.runs {P : State → Act → Prop} {check : State → Act → Bool} {l : List Act} (h : Reach P s)
    (hP : ∀ s act, check s act = true → P s act) (hs : s.runs check l = some s') : Reach P s' := by
  induction l generalizing s with
  | nil =>
    cases Option.some.inj hs
    exact h
  | cons act l ih =>
    obtain ⟨s1, hs1, hs⟩ := Option.bind_eq_some_iff.1 hs
    simp only at hs1
    split at hs1
    next hcheck => exact ih (.step h (hP s act hcheck) hs1) hs
    next => exact absurd hs1 (by simp)

/-- Thread 2 is dormant. -/
def dormantThread : State :=
  ⟨{ threads := [(2, 0)], infos := fun _ => ⟨false, true, none⟩, nextInfo := 1, activeThreads := 0, minted := 0,
     consumed := [] }, []⟩

theorem dormantThread_init : Init dormantThread where
  active := rfl
  minted := rfl
  consumed := rfl
  token _ := rfl
  known := by decide
  actors := by decide

/-- `StartThread`, and the fiber to its end. -/
def startAndExit : List Act :=
  .call 2 :: (List.replicate 9 (.run 0 true) ++ List.replicate 5 (.run 1 true))

theorem balanced_of_careful_startAndExit :
    Balanced ((dormantThread.runs State.carefulAct startAndExit).get (by decide)) :=
  balanced_of_careful
    ((Reach.init dormantThread_init).runs (fun _ _ h => Careful.of_check h) (Option.some_get (by decide)).symm)

/-- A stop clears the map and finds no token after `StartThread` has looked its record up; then the token is
minted, and the fiber finds no record to consume it from. -/
def stopInStart : List Act :=
  .call 2 :: (List.replicate 2 (.run 0 true) ++ .stop :: List.replicate 3 (.run 1 true) ++
    List.replicate 7 (.run 0 true) ++ List.replicate 5 (.run 2 true))

/-- The token of the thread that the stop missed is never consumed. -/
theorem stopInStart_leaks : ¬ ∀ s : State, Reach (fun _ _ => True) s → Balanced s := by
  intro h
  have hreach : Reach (fun _ _ => True) ((dormantThread.runs (fun _ _ => true) stopInStart).get (by decide)) :=
    (Reach.init dormantThread_init).runs (fun _ _ _ => trivial) (Option.some_get (by decide)).symm
  have hquiet := (h _ hreach).quiet
  revert hquiet
  unfold State.Quiet
  decide

end Ps2Recomp.ActiveTokens
