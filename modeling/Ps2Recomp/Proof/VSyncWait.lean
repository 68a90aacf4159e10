import Ps2Recomp.Proof.SelfSuspend
import Ps2Recomp.Spec.VSyncWait

/-!
# A wait ends behind the tick

`WaitForNextVSyncTick` parks once and returns on any wakeup. While the counter is what the fiber read and no
wakeup reaches it, it stays in its park (`Threads.Parking`), so a call that returns has seen a tick. The list
has at most one entry of a fiber, and the end of the call takes it out (`Listed`).
-/

namespace Ps2Recomp.VSyncWait

open Transition
open Sched (Tid FiberPc Touches)
open Threads (Parking)

variable {s s' s₀ : State} {f t : Tid} {fuel : ℕ} {a : Act} {as : List Act} {b : Sched.Act}

theorem not_rouses {σ : Sched.State} (h : ¬Rouses σ f b) :
    b ≠ .clearSuspend f ∧ b ≠ .requestTerminate f ∧ ¬Threads.Wakes σ f b := by
  refine ⟨?_, ?_, fun hw => h ?_⟩
  · rintro rfl
    exact h rfl
  · rintro rfl
    exact h rfl
  · cases b with
    | makeReady t => exact hw
    | enqueueExternalWakeupValidated t token => exact hw
    | _ => exact hw.elim

/-! ### Sections -/

theorem setCall_call (call : Call) : (s.setCall t call).call f = if f = t then call else s.call f :=
  Function.update_apply ..

theorem enter_cases (he : s.enter t = some s') : s.call t = .idle ∧ s' = s.setCall t (.entered s.tickCounter) := by
  rw [State.enter] at he
  split at he
  · next h => exact ⟨h.1, (Option.some.inj he).symm⟩
  · cases he

theorem publish_cases (he : s.publish fuel t = some s') :
    ∃ entryTick sched, s.call t = .entered entryTick ∧ Sched.step fuel s.sched (.publish t) = some sched ∧
      s' = { s with sched, waitList := s.waitList ++ [(t, s.sched.makeFiberToken t)] }.setCall t
        (.waiting entryTick (s.sched.makeFiberToken t) false) := by
  rw [State.publish] at he
  split at he
  next entryTick h =>
    obtain ⟨sched, hs, he⟩ := Option.bind_eq_some_iff.1 he
    exact ⟨entryTick, sched, h, hs, (Option.some.inj he).symm⟩
  next => cases he

theorem finish_cases (he : s.finish t = some s') :
    ∃ entryTick token parked, s.call t = .waiting entryTick token parked ∧ s.sched.At t .code ∧
      (s' = (s.unlist token).setCall t .idle ∧ parked = true ∧ s.terminated t = true ∨
        s' = { (s.unlist token).setCall t .idle with returned := Function.update s.returned t s.tickCounter } ∧
          ¬(parked = true ∧ s.terminated t = true)) := by
  rw [State.finish] at he
  split at he
  next entryTick token parked h =>
    split at he
    · next hat =>
      refine ⟨entryTick, token, parked, h, hat, ?_⟩
      simp only at he
      split at he
      · next hterm => exact .inl ⟨(Option.some.inj he).symm, hterm⟩
      · next hterm => exact .inr ⟨(Option.some.inj he).symm, hterm⟩
    · cases he
  next => cases he

theorem wake_cases (he : s.wake fuel = some s') :
    ∃ t token waiters sched, s.worker = .waking ((t, token) :: waiters) ∧
      Sched.step fuel s.sched (.enqueueExternalWakeupValidated t token) = some sched ∧
        s' = { s with sched, worker := .waking waiters } := by
  rw [State.wake] at he
  split at he
  next t token waiters h =>
    obtain ⟨sched, hs, he⟩ := Option.bind_eq_some_iff.1 he
    exact ⟨t, token, waiters, sched, h, hs, (Option.some.inj he).symm⟩
  next => cases he

theorem scheduler_cases (he : s.scheduler fuel b = some s') :
    s.allows b = true ∧ ∃ sched, Sched.step fuel s.sched b = some sched ∧
      (s' = { s with sched } ∨ ∃ t entryTick token parked parked', b = .blockCurrent t ∧
        s.call t = .waiting entryTick token parked ∧
          s' = { s with sched }.setCall t (.waiting entryTick token parked')) := by
  rw [State.scheduler] at he
  split at he
  · next hallows =>
    obtain ⟨sched, hs, he⟩ := Option.bind_eq_some_iff.1 he
    refine ⟨hallows, sched, hs, ?_⟩
    cases b with
    | blockCurrent t =>
      simp only at he
      split at he
      next entryTick token parked hcall =>
        exact .inr ⟨t, entryTick, token, parked, _, rfl, hcall, (Option.some.inj he).symm⟩
      next => exact .inl (Option.some.inj he).symm
    | _ => exact .inl (Option.some.inj he).symm
  · cases he

theorem State.allows_not_shutdown (h : s.allows b = true) (order : List Tid) : b ≠ .schedulerShutdown order := by
  rintro rfl
  cases h

theorem State.allows_own {entryTick token : BitVec 64} {parked : Bool} (h : s.allows b = true)
    (hcall : s.call f = .waiting entryTick token parked) (hb : Threads.State.byFiber b = some f) :
    b = .armPark f ∨ b = .blockCurrent f := by
  cases b
  case armPark t =>
    cases hb
    exact .inl rfl
  case blockCurrent t =>
    cases hb
    exact .inr rfl
  all_goals simp_all [State.allows, Threads.State.byFiber]

/-! ### The list -/

/-- Each entry is of a fiber that waits, with its token, and there is one at most. A token tells its fiber. -/
structure Listed (s : State) : Prop where
  nodup : (s.waitList.map Prod.fst).Nodup
  entry : ∀ e ∈ s.waitList, ∃ entryTick parked, s.call e.1 = .waiting entryTick e.2 parked
  token : ∀ t entryTick token parked, s.call t = .waiting entryTick token parked → token.setWidth 32 = t

theorem makeFiberToken_setWidth (σ : Sched.State) (t : Tid) : (σ.makeFiberToken t).setWidth 32 = t := by
  rw [Sched.State.makeFiberToken]
  refine BitVec.eq_of_getLsbD_eq fun i hi => ?_
  rw [BitVec.getLsbD_setWidth, BitVec.getLsbD_append]
  simp [hi]

section

variable (h : Listed s)

include h

theorem Listed.congr (hlist : s'.waitList = s.waitList)
    (hcall : ∀ t, (∃ entryTick token parked parked', s.call t = .waiting entryTick token parked ∧
      s'.call t = .waiting entryTick token parked') ∨
        (∀ entryTick token parked, s.call t ≠ .waiting entryTick token parked) ∧
          ∀ entryTick token parked, s'.call t ≠ .waiting entryTick token parked) : Listed s' where
  nodup := by
    rw [hlist]
    exact h.nodup
  entry e he := by
    rw [hlist] at he
    obtain ⟨entryTick, parked, hold⟩ := h.entry e he
    obtain ⟨entryTick', token, parked', parked'', hc, hc'⟩ | ⟨hno, -⟩ := hcall e.1
    · rw [hc] at hold
      cases hold
      exact ⟨_, _, hc'⟩
    · exact absurd hold (hno _ _ _)
  token t entryTick token parked hnew := by
    obtain ⟨entryTick', token', parked', parked'', hc, hc'⟩ | ⟨-, hno⟩ := hcall t
    · rw [hc'] at hnew
      cases hnew
      exact h.token t _ _ _ hc
    · exact absurd hnew (hno _ _ _)

theorem Listed.enter (hidle : s.call t = .idle) {entryTick : BitVec 64} :
    Listed (s.setCall t (.entered entryTick)) := by
  refine h.congr rfl fun u => ?_
  rw [setCall_call]
  by_cases hut : u = t
  · rw [hut, if_pos rfl, hidle]
    exact .inr ⟨nofun, nofun⟩
  · rw [if_neg hut]
    cases hu : s.call u with
    | idle => exact .inr ⟨nofun, nofun⟩
    | entered entryTick => exact .inr ⟨nofun, nofun⟩
    | waiting entryTick token parked => exact .inl ⟨_, _, _, _, rfl, rfl⟩

theorem Listed.publish {entryTick : BitVec 64} {sched : Sched.State} (hcall : s.call t = .entered entryTick) :
    Listed ({ s with sched, waitList := s.waitList ++ [(t, s.sched.makeFiberToken t)] }.setCall t
      (.waiting entryTick (s.sched.makeFiberToken t) false)) := by
  have hother : ∀ e ∈ s.waitList, e.1 ≠ t := by
    rintro e he rfl
    obtain ⟨entryTick', parked, hold⟩ := h.entry e he
    rw [hcall] at hold
    cases hold
  refine ⟨?_, fun e he => ?_, fun u entryTick' token parked hu => ?_⟩
  · show ((s.waitList ++ [(t, s.sched.makeFiberToken t)]).map Prod.fst).Nodup
    rw [List.map_append, List.map_singleton]
    refine List.nodup_append.2 ⟨h.nodup, List.nodup_singleton t, fun u hu v hv => ?_⟩
    obtain ⟨e, he, rfl⟩ := List.mem_map.1 hu
    rw [List.mem_singleton.1 hv]
    exact hother e he
  · rw [setCall_call]
    obtain he | he := List.mem_append.1 he
    · rw [if_neg (hother e he)]
      exact h.entry e he
    · rw [List.mem_singleton.1 he, if_pos rfl]
      exact ⟨_, _, rfl⟩
  · rw [setCall_call] at hu
    split at hu
    next heq =>
      cases hu
      rw [heq]
      exact makeFiberToken_setWidth s.sched t
    next => exact h.token u _ _ _ hu

theorem Listed.unlist {entryTick token : BitVec 64} {parked : Bool}
    (hcall : s.call t = .waiting entryTick token parked) :
    (∀ e ∈ (s.unlist token).waitList, e.1 ≠ t) ∧ Listed ((s.unlist token).setCall t .idle) := by
  have hsub : (s.unlist token).waitList.Sublist s.waitList := List.eraseP_sublist
  have hother : ∀ e ∈ (s.unlist token).waitList, e.1 ≠ t := by
    rintro e he rfl
    obtain ⟨entryTick', parked', hold⟩ := h.entry e (hsub.subset he)
    rw [hcall] at hold
    cases hold
    -- the erased entry is another one of the same fiber
    obtain ⟨e0, l1, l2, -, he0, hl, herase⟩ :=
      List.exists_of_eraseP (p := fun e' => e'.2 = e.2) (hsub.subset he) (by simp)
    have hsnd : e0.2 = e.2 := by simpa using he0
    have hmem : e ∈ l1 ++ l2 := by
      have heq : (s.unlist e.2).waitList = l1 ++ l2 := herase
      rwa [heq] at he
    have hfst : e0.1 = e.1 := by
      obtain ⟨entryTick₀, parked0, hcall0⟩ := h.entry e0 (by rw [hl]; simp)
      have htoken := h.token _ _ _ _ hcall0
      rw [hsnd, h.token _ _ _ _ hcall] at htoken
      exact htoken.symm
    have hnodup := h.nodup
    rw [hl, List.map_append, List.map_cons, List.nodup_middle, List.nodup_cons, ← List.map_append] at hnodup
    exact hnodup.1 (List.mem_map.2 ⟨e, hmem, hfst.symm⟩)
  refine ⟨hother, h.nodup.sublist (hsub.map _), fun e he => ?_, fun u entryTick' token' parked' hu => ?_⟩
  · rw [setCall_call, if_neg (hother e he)]
    exact h.entry e (hsub.subset he)
  · rw [setCall_call] at hu
    split at hu
    next => cases hu
    next => exact h.token u _ _ _ hu

end

theorem call_same (s : State) (t : Tid) :
    (∃ entryTick token parked parked', s.call t = .waiting entryTick token parked ∧
      s.call t = .waiting entryTick token parked') ∨
        (∀ entryTick token parked, s.call t ≠ .waiting entryTick token parked) ∧
          ∀ entryTick token parked, s.call t ≠ .waiting entryTick token parked := by
  cases s.call t with
  | idle => exact .inr ⟨nofun, nofun⟩
  | entered entryTick => exact .inr ⟨nofun, nofun⟩
  | waiting entryTick token parked => exact .inl ⟨_, _, _, _, rfl, rfl⟩

theorem Listed.step (h : Listed s) (he : step fuel s a = some s') : Listed s' := by
  cases a with
  | enter t =>
    obtain ⟨hidle, rfl⟩ := enter_cases he
    exact h.enter hidle
  | publish t =>
    obtain ⟨entryTick, sched, hcall, -, rfl⟩ := publish_cases he
    exact h.publish hcall
  | finish t =>
    obtain ⟨entryTick, token, parked, hcall, -, ⟨rfl, -⟩ | ⟨rfl, -⟩⟩ := finish_cases he
    · exact (h.unlist hcall).2
    · exact (h.unlist hcall).2.congr rfl (call_same ((s.unlist token).setCall t .idle))
  | tick =>
    simp only [VSyncWait.step, State.tick] at he
    split at he
    · cases he
      exact h.congr rfl (call_same s)
    · cases he
  | takeList =>
    simp only [VSyncWait.step, State.takeList] at he
    split at he
    · cases he
      exact ⟨List.nodup_nil, fun e he => absurd he List.not_mem_nil, h.token⟩
    · cases he
  | wake =>
    obtain ⟨t, token, waiters, sched, -, -, rfl⟩ := wake_cases he
    exact h.congr rfl (call_same s)
  | scheduler b =>
    obtain ⟨-, sched, -, rfl | ⟨t, entryTick, token, parked, parked', -, hcall, rfl⟩⟩ := scheduler_cases he
    · exact h.congr rfl (call_same s)
    · refine h.congr rfl fun u => ?_
      rw [setCall_call]
      by_cases hut : u = t
      · rw [hut, if_pos rfl]
        exact .inl ⟨_, _, _, _, hcall, rfl⟩
      · rw [if_neg hut]
        exact call_same s u
  | setTerminated t terminated =>
    cases he
    exact h.congr rfl (call_same s)

/-! ### Runs -/

def Call.entryTick : Call → Option (BitVec 64)
  | idle => none
  | entered entryTick => some entryTick
  | waiting entryTick _ _ => some entryTick

structure Inv (f : Tid) (s : State) : Prop where
  sound : Threads.Sound s.sched
  listed : Listed s
  le : ∀ entryTick, (s.call f).entryTick = some entryTick → entryTick.toNat ≤ s.tickCounter.toNat
  held : s.Early f → Parking true f s.sched

theorem State.Initial.inv (h : s.Initial) : Inv f s where
  sound := by
    obtain ⟨s1, as, h1, hr⟩ := h.sched
    exact ⟨(Sched.run_placed h1 hr).1, (Sched.run_placed h1 hr).2, h.stop⟩
  listed := by
    refine ⟨?_, fun e he => ?_, fun t entryTick token parked ht => ?_⟩
    · rw [h.waitList]
      exact List.nodup_nil
    · rw [h.waitList] at he
      exact absurd he List.not_mem_nil
    · rw [h.call] at ht
      cases ht
  le entryTick he := by
    rw [h.call] at he
    cases he
  held := by
    rintro ⟨token, parked, hf⟩
    rw [h.call] at hf
    cases hf

theorem sound_step (h : Threads.Sound s.sched) (he : step fuel s a = some s') : Threads.Sound s'.sched := by
  cases a with
  | enter t =>
    obtain ⟨-, rfl⟩ := enter_cases he
    exact h
  | publish t =>
    obtain ⟨entryTick, sched, -, hs, rfl⟩ := publish_cases he
    exact h.sched (b := .publish t) nofun hs
  | finish t =>
    obtain ⟨entryTick, token, parked, -, -, ⟨rfl, -⟩ | ⟨rfl, -⟩⟩ := finish_cases he
    · exact h
    · exact h
  | tick =>
    simp only [VSyncWait.step, State.tick] at he
    split at he
    · cases he
      exact h
    · cases he
  | takeList =>
    simp only [VSyncWait.step, State.takeList] at he
    split at he
    · cases he
      exact h
    · cases he
  | wake =>
    obtain ⟨t, token, waiters, sched, -, hs, rfl⟩ := wake_cases he
    exact h.sched (b := .enqueueExternalWakeupValidated t token) nofun hs
  | scheduler b =>
    obtain ⟨hallows, sched, hs, rfl | ⟨t, entryTick, token, parked, parked', -, -, rfl⟩⟩ := scheduler_cases he
    · exact h.sched (State.allows_not_shutdown hallows) hs
    · exact h.sched (State.allows_not_shutdown hallows) hs
  | setTerminated t terminated =>
    cases he
    exact h

theorem Inv.congr (h : Inv f s) (hsound : Threads.Sound s'.sched) (hlisted : Listed s')
    (hcall : (s'.call f).entryTick = (s.call f).entryTick) (hearly : s'.Early f → s.Early f)
    (htick : s'.tickCounter = s.tickCounter) (hheld : s.Early f → Parking true f s.sched → Parking true f s'.sched) : Inv f s' where
  sound := hsound
  listed := hlisted
  le entryTick he := by
    rw [hcall] at he
    rw [htick]
    exact h.le entryTick he
  held he := hheld (hearly he) (h.held (hearly he))

theorem early_congr (hcall : s'.call f = s.call f) (htick : s'.tickCounter = s.tickCounter) :
    s'.Early f → s.Early f := by
  rintro ⟨token, parked, he⟩
  exact ⟨token, parked, by rw [← hcall, he, htick]⟩

theorem held_publish {σ σ' : Sched.State} (hsound : Threads.Sound σ) (hnote : (σ.fibers f).wakePending = false)
    (he : Sched.step fuel σ (.publish f) = some σ') : Parking true f σ' := by
  obtain ⟨l, hi⟩ := hsound.inv
  unfold Sched.step at he
  split at he
  · cases he
  · simp only [Sched.State.publish] at he
    split at he
    · next hat =>
      cases he
      have hrun := (hi.resuming f).1 hat.1
      have hlive := hi.live f hrun
      have hidle := hi.executing f hrun (by rw [hat.2]; rfl)
      refine ⟨⟨?_, ?_, ?_⟩, .inl ?_⟩
      · simpa using hlive
      · simpa using hnote
      · simpa using hi.queue.flag_eq_false hlive hidle
      · simp
    · cases he

theorem Inv.step (h : Inv f s) (hcalm : Calm f s a) (he : step fuel s a = some s') : Inv f s' := by
  have hsound := sound_step h.sound he
  have hlisted := h.listed.step he
  obtain ⟨l, hi⟩ := h.sound.inv
  cases a with
  | enter t =>
    obtain ⟨hidle, rfl⟩ := enter_cases he
    by_cases hft : f = t
    · subst hft
      refine ⟨hsound, hlisted, fun entryTick hentry => ?_, ?_⟩
      · rw [setCall_call, if_pos rfl] at hentry
        cases hentry
        exact Nat.le_refl _
      · rintro ⟨token, parked, hf⟩
        rw [setCall_call, if_pos rfl] at hf
        cases hf
    · have hcall : (s.setCall t (.entered s.tickCounter)).call f = s.call f := by rw [setCall_call, if_neg hft]
      exact h.congr hsound hlisted (by rw [hcall]) (early_congr hcall rfl) rfl fun _ hh => hh
  | publish t =>
    obtain ⟨entryTick, sched, hentered, hs, rfl⟩ := publish_cases he
    by_cases hft : f = t
    · subst hft
      refine ⟨hsound, hlisted, fun entryTick' hentry => ?_, ?_⟩
      · rw [setCall_call, if_pos rfl] at hentry
        refine h.le entryTick' ?_
        rw [hentered]
        exact hentry
      · rintro ⟨token, parked, hf⟩
        rw [setCall_call, if_pos rfl] at hf
        -- no tick since the call was entered
        obtain ⟨htick, -⟩ := Call.waiting.inj hf
        have htick : entryTick = s.tickCounter := htick
        exact held_publish h.sound (hcalm rfl (by rw [hentered, htick])) hs
    · obtain ⟨s1, hs1⟩ : ∃ s1, s1 = { s with sched, waitList := s.waitList ++ [(t, s.sched.makeFiberToken t)] }.setCall t
          (.waiting entryTick (s.sched.makeFiberToken t) false) := ⟨_, rfl⟩
      have hcall : s1.call f = s.call f := by rw [hs1, setCall_call, if_neg hft]
      rw [← hs1] at hsound hlisted ⊢
      refine h.congr hsound hlisted (by rw [hcall]) (early_congr hcall (by rw [hs1]; rfl)) (by rw [hs1]; rfl)
        fun _ hh => ?_
      rw [hs1]
      refine hh.untouched (Sched.step_untouched hi ?_ hs)
      simp [Touches, Sched.Act.own, Sched.Act.woken, Ne.symm hft]
  | finish t =>
    obtain ⟨entryTick, token, parked, -, -, hs'⟩ := finish_cases he
    have hcall : s'.call f = if f = t then .idle else s.call f := by
      obtain ⟨rfl, -⟩ | ⟨rfl, -⟩ := hs'
      · exact setCall_call .idle
      · exact setCall_call (s := s.unlist token) .idle
    have hsame : s'.tickCounter = s.tickCounter ∧ s'.sched = s.sched := by
      obtain ⟨rfl, -⟩ | ⟨rfl, -⟩ := hs'
      · exact ⟨rfl, rfl⟩
      · exact ⟨rfl, rfl⟩
    by_cases hft : f = t
    · rw [if_pos hft] at hcall
      refine ⟨hsound, hlisted, fun entryTick' hentry => ?_, ?_⟩
      · rw [hcall] at hentry
        cases hentry
      · rintro ⟨token, parked, hf⟩
        rw [hcall] at hf
        cases hf
    · rw [if_neg hft] at hcall
      refine h.congr hsound hlisted (by rw [hcall]) (early_congr hcall hsame.1) hsame.1 fun _ hh => ?_
      rw [hsame.2]
      exact hh
  | tick =>
    simp only [VSyncWait.step, State.tick] at he
    split at he
    · cases he
      have hnext : (s.tickCounter + 1).toNat = s.tickCounter.toNat + 1 := by
        have hne : s.tickCounter.toNat ≠ 2 ^ 64 - 1 := fun heq =>
          hcalm (BitVec.eq_of_toNat_eq (by rw [heq, BitVec.toNat_allOnes]))
        have hlt := s.tickCounter.isLt
        rw [BitVec.toNat_add, Nat.mod_eq_of_lt (show s.tickCounter.toNat + (1 : BitVec 64).toNat < 2 ^ 64 by
          show s.tickCounter.toNat + 1 < 2 ^ 64
          omega)]
        rfl
      refine ⟨hsound, hlisted, fun entryTick hentry => ?_, ?_⟩
      · have := h.le entryTick hentry
        show entryTick.toNat ≤ (s.tickCounter + 1).toNat
        omega
      · rintro ⟨token, parked, hf⟩
        have hf : s.call f = .waiting (s.tickCounter + 1) token parked := hf
        have := h.le (s.tickCounter + 1) (by rw [hf]; rfl)
        omega
    · cases he
  | takeList =>
    simp only [VSyncWait.step, State.takeList] at he
    split at he
    · cases he
      exact h.congr hsound hlisted rfl (early_congr rfl rfl) rfl fun _ hh => hh
    · cases he
  | wake =>
    obtain ⟨t, token, waiters, sched, hworker, hs, rfl⟩ := wake_cases he
    refine h.congr hsound hlisted rfl (early_congr rfl rfl) rfl fun hearly hh => ?_
    refine hh.step (b := .enqueueExternalWakeupValidated t token) h.sound ?_ ?_ ?_ ?_
      (hcalm hearly t token waiters hworker) hs <;> simp [Threads.State.byFiber]
  | scheduler b =>
    obtain ⟨hallows, sched, hs, hs'⟩ := scheduler_cases he
    have hheld : s.Early f → Parking true f s.sched → Parking true f sched := fun hearly hh => by
      obtain ⟨token, parked, hcall⟩ := hearly
      obtain ⟨hclear, hterm, hdrop⟩ := not_rouses (hcalm ⟨token, parked, hcall⟩)
      exact hh.step h.sound (State.allows_own hallows hcall) (State.allows_not_shutdown hallows) hclear hterm hdrop hs
    obtain rfl | ⟨t, entryTick, token, parked, parked', -, hcall, rfl⟩ := hs'
    · exact h.congr hsound hlisted rfl (early_congr rfl rfl) rfl hheld
    · refine h.congr hsound hlisted ?_ ?_ rfl hheld
      · rw [setCall_call]
        by_cases hft : f = t
        · rw [if_pos hft, hft, hcall]
          rfl
        · rw [if_neg hft]
      · rintro ⟨token', parked'', hf⟩
        rw [setCall_call] at hf
        split at hf
        next hft =>
          have htick : entryTick = s.tickCounter := (Call.waiting.inj hf).1
          exact ⟨token, parked, by rw [hft, hcall, htick]⟩
        next => exact ⟨_, _, hf⟩
  | setTerminated t terminated =>
    cases he
    exact h.congr hsound hlisted rfl (early_congr rfl rfl) rfl fun _ hh => hh

/-- **A call that returns has seen a tick**, and has left the list. -/
theorem returns_behind_tick {entryTick token : BitVec 64} {parked : Bool} (h0 : s₀.Initial)
    (h : Run (fun s a s' => Step s a s' ∧ Calm f s a) s₀ as s) (hcall : s.call f = .waiting entryTick token parked)
    (hterm : ¬(parked = true ∧ s.terminated f = true)) (hfinish : Step s (.finish f) s') :
    entryTick < s'.returned f ∧ ∀ e ∈ s'.waitList, e.1 ≠ f := by
  have hinv := h.state_invariant (I := Inv f) h0.inv fun s a s' hs ⟨⟨fuel, he⟩, hcalm⟩ => hs.step hcalm he
  obtain ⟨fuel, he⟩ := hfinish
  obtain ⟨entryTick', token', parked', hcall', hat, ⟨-, hterm'⟩ | ⟨rfl, -⟩⟩ := finish_cases he
  · rw [hcall] at hcall'
    cases hcall'
    exact absurd hterm' hterm
  · rw [hcall] at hcall'
    cases hcall'
    refine ⟨?_, (hinv.listed.unlist hcall).1⟩
    have hle := hinv.le entryTick (by rw [hcall]; rfl)
    have hne : entryTick ≠ s.tickCounter := by
      rintro rfl
      exact (hinv.held ⟨token, parked, hcall⟩).not_code hat.2
    have hreturned : Function.update s.returned f s.tickCounter f = s.tickCounter := Function.update_self ..
    show entryTick < Function.update s.returned f s.tickCounter f
    rw [hreturned]
    bv_omega

/-- Thread 1 runs, and the worker is between two ticks. -/
def betweenTicks : State where
  sched := Threads.oneThread.sched
  tickCounter := 0
  waitList := []
  worker := .waking []
  call _ := .idle
  terminated _ := false
  returned _ := 0

theorem betweenTicks_initial : betweenTicks.Initial :=
  ⟨Threads.oneThread_initial.sched, Threads.oneThread_initial.stop, fun _ => rfl, rfl⟩

theorem step_after (as : List Act) (a : Act) (h : ((as ++ [a]).foldlM (step 2) betweenTicks).isSome = true) :
    Step (after (step 2) betweenTicks as) a (after (step 2) betweenTicks (as ++ [a])) :=
  ⟨2, after_step h⟩

/-- Thread 1 parks before the tick, and returns behind it. -/
theorem returns_behind_tick_parked :
    ∃ s as s', Run (fun s a s' => Step s a s' ∧ Calm 1 s a) betweenTicks as s ∧ Step s (.finish 1) s' ∧
      0 < s'.returned 1 := by
  have h₁ : Run (fun s a s' => Step s a s' ∧ Calm 1 s a) betweenTicks [.enter 1] _ :=
    .snoc .nil ⟨step_after [] _ (by decide +kernel), trivial⟩
  have h₂ := Run.snoc h₁ ⟨step_after _ (.publish 1) (by decide +kernel), fun _ _ => by decide +kernel⟩
  have h₃ := Run.snoc h₂ ⟨step_after _ (.scheduler (.armPark 1)) (by decide +kernel), fun _ h => h⟩
  have h₄ := Run.snoc h₃ ⟨step_after _ (.scheduler (.blockCurrent 1)) (by decide +kernel), fun _ h => h⟩
  have h₅ := Run.snoc h₄ ⟨step_after _ (.scheduler .executorPost) (by decide +kernel), fun _ h => h⟩
  have h₆ := Run.snoc h₅ ⟨step_after _ .tick (by decide +kernel), by unfold Calm; decide +kernel⟩
  have h₇ := Run.snoc h₆ ⟨step_after _ .takeList (by decide +kernel), trivial⟩
  have h₈ := Run.snoc h₇ ⟨step_after _ .wake (by decide +kernel), fun ⟨token, parked, hcall⟩ => by
    have hentry : Call.entryTick _ = some (State.tickCounter _) := congrArg Call.entryTick hcall
    exact absurd hentry (by decide +kernel)⟩
  have h₉ := Run.snoc h₈ ⟨step_after _ (.scheduler .executorWait) (by decide +kernel), fun _ h => h⟩
  have hfinish := step_after [.enter 1, .publish 1, .scheduler (.armPark 1), .scheduler (.blockCurrent 1),
    .scheduler .executorPost, .tick, .takeList, .wake, .scheduler .executorWait] (.finish 1) (by decide +kernel)
  have hcall : (after (step 2) betweenTicks ([.enter 1, .publish 1, .scheduler (.armPark 1),
      .scheduler (.blockCurrent 1), .scheduler .executorPost, .tick, .takeList, .wake, .scheduler .executorWait] :
        List Act)).call 1 = .waiting 0 0x100000001 true := by decide +kernel
  exact ⟨_, _, _, h₉, hfinish, (returns_behind_tick betweenTicks_initial h₉ hcall (by decide +kernel) hfinish).1⟩

/-- The worker counts, and takes the list later: the entry of a call that begins in between is woken for the tick
that the call has already read. -/
theorem woken_for_entry_tick :
    ¬∀ (s₀ s s' : State) (as : List Act) (f : Tid) (entryTick token : BitVec 64) (parked : Bool), s₀.Initial →
      Run Step s₀ as s → s.call f = .waiting entryTick token parked → ¬(parked = true ∧ s.terminated f = true) →
        Step s (.finish f) s' → entryTick < s'.returned f ∧ ∀ e ∈ s'.waitList, e.1 ≠ f := by
  intro h
  have hrun : Run Step betweenTicks
      [.tick, .enter 1, .publish 1, .takeList, .wake, .scheduler (.armPark 1), .scheduler (.blockCurrent 1)]
      (after (step 2) betweenTicks _) :=
    (Run.of_foldlM (foldlM_eq_after (by decide +kernel))).mono fun _ _ _ hs => ⟨2, hs⟩
  have hfinish := step_after
    [.tick, .enter 1, .publish 1, .takeList, .wake, .scheduler (.armPark 1), .scheduler (.blockCurrent 1)] (.finish 1)
    (by decide +kernel)
  have hreturns := (h _ _ _ _ 1 1 0x100000001 false betweenTicks_initial hrun (by decide +kernel) (by decide +kernel)
    hfinish).1
  revert hreturns
  decide +kernel

end Ps2Recomp.VSyncWait
