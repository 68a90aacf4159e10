import Mathlib.Data.List.Nodup
import Ps2Recomp.Spec.Stacks

/-!
# Stacks are given back once

`Inv` says which record owns which stack, and that what is not owned any more was given back once.
`Kept` says that who owns a stack is in `g_threads` or in the hands of `on_fiber_exit`. Every call
keeps it but `ExitDeleteThread`, which takes the record out of the map before `on_fiber_exit` looks
for it there (`auto_stack_freed_once`).
-/

namespace Ps2Recomp.Stacks

open Transition

variable {s s' s₀ : State} {t u : ℤ} {i j k : ℕ} {a : Act} {as : List Act}

/-- The record `i` owns its stack. -/
structure Owns (s : State) (i : ℕ) : Prop where
  created : i < s.created
  owns : (s.info i).ownsStack = true
  stack : (s.info i).stack ≠ 0

/-- **The books of the stacks.** -/
structure Inv (s : State) : Prop where
  keys : (s.threads.map Prod.fst).Nodup
  live : ∀ e ∈ s.threads, e.2 < s.created
  /-- a record is under one id at most -/
  records : (s.threads.map Prod.snd).Nodup
  owned : ∀ i, Owns s i → ∃ k < s.stackCount, s.stackOf i = some k ∧
    (s.autoStacks k).info = i ∧ (s.autoStacks k).address = (s.info i).stack ∧
    (s.autoStacks k).frees = 0
  frees : ∀ k < s.stackCount, (s.autoStacks k).frees ≤ 1 ∧
    ((s.autoStacks k).frees = 0 → Owns s (s.autoStacks k).info ∧ s.stackOf (s.autoStacks k).info = some k)
  runs : ∀ t i, (t, i) ∈ s.threads → Owns s i → s.phase t ≠ .none → s.runs t = some i
  hook : ∀ t i, s.phase t = .hook (some i) → i < s.created ∧ (Owns s i → s.runs t = some i) ∧
    ∀ u, (u, i) ∈ s.threads → u = t

/-- **Who owns a stack is in `g_threads` or in the hands of `on_fiber_exit`.** -/
def Kept (s : State) : Prop :=
  ∀ i, Owns s i → (∃ t, (t, i) ∈ s.threads) ∨ ∃ t, s.phase t = .hook (some i)

theorem lookup_mem (h : s.lookupThreadInfo t = some i) : (t, i) ∈ s.threads := by
  obtain ⟨l1, l2, hl, -⟩ := List.lookup_eq_some_iff.1 h
  rw [hl]
  simp

theorem lookup_of_mem (hi : Inv s) (h : (t, i) ∈ s.threads) : s.lookupThreadInfo t = some i := by
  obtain ⟨l1, l2, hl⟩ := List.append_of_mem h
  refine List.lookup_eq_some_iff.2 ⟨l1, l2, hl, fun p hp => ?_⟩
  have hnd := hi.keys
  rw [hl, List.map_append, List.map_cons, List.nodup_middle, List.nodup_cons] at hnd
  have hne : t ≠ p.1 := by
    rintro rfl
    exact hnd.1 (List.mem_append_left _ (List.mem_map.2 ⟨p, hp, rfl⟩))
  simpa using hne

theorem lookup_none : s.lookupThreadInfo t = none ↔ ∀ i, (t, i) ∉ s.threads := by
  rw [State.lookupThreadInfo, List.lookup_eq_none_iff]
  constructor
  · intro h i hmem
    simpa using h (t, i) hmem
  · intro h p hp
    by_contra heq
    have heq : t = p.1 := by simpa using heq
    exact h p.2 (by rw [heq]; exact hp)

theorem Inv.key_unique (h : Inv s) (ht : (t, i) ∈ s.threads) (hu : (u, i) ∈ s.threads) : t = u :=
  congrArg Prod.fst (List.inj_on_of_nodup_map h.records ht hu rfl)

/-! ### Writes to a record -/

variable {f : ThreadInfo → ThreadInfo}

theorem owns_setInfo (hs : ∀ x, (f x).stack = x.stack)
    (ho : ∀ x, (f x).ownsStack = x.ownsStack) : Owns (s.setInfo i f) j ↔ Owns s j := by
  by_cases hj : j = i
  · subst hj
    constructor
    · rintro ⟨h1, h2, h3⟩
      exact ⟨h1, by simpa [State.setInfo, ho] using h2, by simpa [State.setInfo, hs] using h3⟩
    · rintro ⟨h1, h2, h3⟩
      exact ⟨h1, by simpa [State.setInfo, ho] using h2, by simpa [State.setInfo, hs] using h3⟩
  · constructor
    · rintro ⟨h1, h2, h3⟩
      exact ⟨h1, by simpa [State.setInfo, hj] using h2, by simpa [State.setInfo, hj] using h3⟩
    · rintro ⟨h1, h2, h3⟩
      exact ⟨h1, by simpa [State.setInfo, hj] using h2, by simpa [State.setInfo, hj] using h3⟩

theorem Inv.setInfo (h : Inv s) (hs : ∀ x, (f x).stack = x.stack)
    (ho : ∀ x, (f x).ownsStack = x.ownsStack) : Inv (s.setInfo i f) := by
  have how : ∀ j, Owns (s.setInfo i f) j ↔ Owns s j := fun j => owns_setInfo hs ho
  have hst : ∀ j, ((s.setInfo i f).info j).stack = (s.info j).stack := by
    intro j
    by_cases hj : j = i
    · subst hj
      simp [State.setInfo, hs]
    · simp [State.setInfo, hj]
  refine ⟨h.keys, h.live, h.records, fun j hj => ?_, fun k hk => ?_, fun t j hmem hj => ?_, fun t j hp => ?_⟩
  · rw [hst]
    exact h.owned j ((how j).1 hj)
  · exact ⟨(h.frees k hk).1, fun hz => ⟨(how _).2 ((h.frees k hk).2 hz).1, ((h.frees k hk).2 hz).2⟩⟩
  · exact h.runs t j hmem ((how j).1 hj)
  · obtain ⟨h1, h2, h3⟩ := h.hook t j hp
    exact ⟨h1, fun hj => h2 ((how j).1 hj), h3⟩

theorem Kept.setInfo (h : Kept s) (hs : ∀ x, (f x).stack = x.stack)
    (ho : ∀ x, (f x).ownsStack = x.ownsStack) : Kept (s.setInfo i f) :=
  fun j hj => h j ((owns_setInfo hs ho).1 hj)

/-! ### New records -/

variable {info : ThreadInfo}

theorem owns_make (hinfo : info.ownsStack = false) : Owns (s.make t info) j ↔ Owns s j := by
  constructor
  · rintro ⟨h1, h2, h3⟩
    have hj : j ≠ s.created := by
      rintro rfl
      simp [State.make, hinfo] at h2
    have hlt : j < s.created + 1 := h1
    exact ⟨by omega, by simpa [State.make, hj] using h2, by simpa [State.make, hj] using h3⟩
  · rintro ⟨h1, h2, h3⟩
    have hj : j ≠ s.created := by omega
    exact ⟨Nat.lt_succ_of_lt h1, by simpa [State.make, hj] using h2, by simpa [State.make, hj] using h3⟩

theorem Inv.make (h : Inv s) (hinfo : info.ownsStack = false) (ht : ∀ i, (t, i) ∉ s.threads) : Inv (s.make t info) := by
  have how : ∀ j, Owns (s.make t info) j ↔ Owns s j := fun j => owns_make hinfo
  have hst : ∀ j, Owns s j → ((s.make t info).info j).stack = (s.info j).stack := by
    intro j hj
    have hne : j ≠ s.created := Nat.ne_of_lt hj.created
    simp [State.make, hne]
  refine ⟨?_, ?_, ?_, fun j hj => ?_, fun k hk => ?_, fun u j hmem hj => ?_, fun u j hp => ?_⟩
  · refine List.nodup_cons.2 ⟨fun hmem => ?_, h.keys⟩
    obtain ⟨e, he, rfl⟩ := List.mem_map.1 hmem
    exact ht e.2 he
  · intro e he
    obtain rfl | he := List.mem_cons.1 he
    · exact Nat.lt_succ_self _
    · exact Nat.lt_succ_of_lt (h.live e he)
  · refine List.nodup_cons.2 ⟨fun hmem => ?_, h.records⟩
    obtain ⟨e, he, heq⟩ := List.mem_map.1 hmem
    have hlt := h.live e he
    have heq' : e.2 = s.created := heq
    omega
  · rw [hst j ((how j).1 hj)]
    exact h.owned j ((how j).1 hj)
  · exact ⟨(h.frees k hk).1, fun hz => ⟨(how _).2 ((h.frees k hk).2 hz).1, ((h.frees k hk).2 hz).2⟩⟩
  · obtain heq | hmem := List.mem_cons.1 hmem
    · cases heq
      exact absurd ((how _).1 hj).created (Nat.lt_irrefl _)
    · exact h.runs u j hmem ((how j).1 hj)
  · obtain ⟨h1, h2, h3⟩ := h.hook u j hp
    refine ⟨Nat.lt_succ_of_lt h1, fun hj => h2 ((how j).1 hj), fun v hv => ?_⟩
    obtain heq | hv := List.mem_cons.1 hv
    · cases heq
      exact absurd h1 (Nat.lt_irrefl _)
    · exact h3 v hv

theorem Kept.make (h : Kept s) (hinfo : info.ownsStack = false) : Kept (s.make t info) := by
  intro j hj
  obtain ⟨u, hmem⟩ | hp := h j ((owns_make hinfo).1 hj)
  · exact .inl ⟨u, List.mem_cons_of_mem _ hmem⟩
  · exact .inr hp

/-! ### Records leave the map -/

theorem mem_erase : (u, i) ∈ (s.erase t).threads ↔ (u, i) ∈ s.threads ∧ u ≠ t := by
  simp [State.erase]

theorem owns_erase : Owns (s.erase t) j ↔ Owns s j := ⟨fun ⟨h1, h2, h3⟩ => ⟨h1, h2, h3⟩,
  fun ⟨h1, h2, h3⟩ => ⟨h1, h2, h3⟩⟩

theorem Inv.erase (h : Inv s) : Inv (s.erase t) := by
  have hsub : (s.erase t).threads.Sublist s.threads := List.filter_sublist
  refine ⟨h.keys.sublist (hsub.map _), fun e he => h.live e (hsub.subset he),
    h.records.sublist (hsub.map _), fun j hj => h.owned j (owns_erase.1 hj), fun k hk => ?_,
    fun u j hmem hj => h.runs u j (hsub.subset hmem) (owns_erase.1 hj), fun u j hp => ?_⟩
  · exact ⟨(h.frees k hk).1, fun hz => ⟨owns_erase.2 ((h.frees k hk).2 hz).1, ((h.frees k hk).2 hz).2⟩⟩
  · obtain ⟨h1, h2, h3⟩ := h.hook u j hp
    exact ⟨h1, fun hj => h2 (owns_erase.1 hj), fun v hv => h3 v (hsub.subset hv)⟩

theorem Kept.erase (h : Kept s)
    (ht : ∀ i, (t, i) ∈ s.threads → Owns s i → ∃ u, s.phase u = .hook (some i)) : Kept (s.erase t) := by
  intro i hi
  obtain ⟨u, hmem⟩ | hp := h i (owns_erase.1 hi)
  · by_cases hut : u = t
    · subst hut
      exact .inr (ht i hmem (owns_erase.1 hi))
    · exact .inl ⟨u, mem_erase.2 ⟨hmem, hut⟩⟩
  · exact .inr hp

/-! ### Stacks are obtained and given back -/

theorem Inv.guestMalloc {address : BitVec 32} (h : Inv s) (hi : i < s.created) (hno : ¬Owns s i) (haddr : address ≠ 0)
    (hphase : ∀ t, (t, i) ∈ s.threads → s.phase t = .none) (hhook : ∀ t, s.phase t ≠ .hook (some i)) :
    Inv ((s.guestMalloc i address).setInfo i fun info =>
      { info with stack := address, ownsStack := true }) := by
  set s' := (s.guestMalloc i address).setInfo i fun info =>
    { info with stack := address, ownsStack := true } with hs'
  have hown : Owns s' i := ⟨hi, by simp [hs', State.setInfo], by simpa [hs', State.setInfo] using haddr⟩
  have how : ∀ j, j ≠ i → (Owns s' j ↔ Owns s j) := by
    intro j hj
    constructor
    · rintro ⟨h1, h2, h3⟩
      exact ⟨h1, by simpa [hs', State.setInfo, State.guestMalloc, hj] using h2,
        by simpa [hs', State.setInfo, State.guestMalloc, hj] using h3⟩
    · rintro ⟨h1, h2, h3⟩
      exact ⟨h1, by simpa [hs', State.setInfo, State.guestMalloc, hj] using h2,
        by simpa [hs', State.setInfo, State.guestMalloc, hj] using h3⟩
  refine ⟨h.keys, h.live, h.records, fun j hj => ?_, fun k hk => ?_, fun t j hmem hj hp => ?_,
    fun t j hp => ⟨(h.hook t j hp).1, fun hj => ?_, (h.hook t j hp).2.2⟩⟩
  · by_cases hji : j = i
    · subst hji
      exact ⟨s.stackCount, Nat.lt_succ_self _, by simp [hs', State.setInfo, State.guestMalloc],
        by simp [hs', State.setInfo, State.guestMalloc], by simp [hs', State.setInfo, State.guestMalloc],
        by simp [hs', State.setInfo, State.guestMalloc]⟩
    · obtain ⟨k, hk, h1, h2, h3, h4⟩ := h.owned j ((how j hji).1 hj)
      have hkne : k ≠ s.stackCount := Nat.ne_of_lt hk
      refine ⟨k, Nat.lt_succ_of_lt hk, ?_, ?_, ?_, ?_⟩
      · simpa [hs', State.setInfo, State.guestMalloc, hji] using h1
      · simpa [hs', State.setInfo, State.guestMalloc, hkne] using h2
      · simpa [hs', State.setInfo, State.guestMalloc, hkne, hji] using h3
      · simpa [hs', State.setInfo, State.guestMalloc, hkne] using h4
  · by_cases hkc : k = s.stackCount
    · subst hkc
      refine ⟨by simp [hs', State.setInfo, State.guestMalloc], fun _ => ⟨?_, ?_⟩⟩
      · simpa [hs', State.setInfo, State.guestMalloc] using hown
      · simp [hs', State.setInfo, State.guestMalloc]
    · have hk' : k < s.stackCount := by
        have : k < s.stackCount + 1 := hk
        omega
      have hst : s'.autoStacks k = s.autoStacks k := by
        simp [hs', State.setInfo, State.guestMalloc, hkc]
      rw [hst]
      refine ⟨(h.frees k hk').1, fun hz => ?_⟩
      obtain ⟨h1, h2⟩ := (h.frees k hk').2 hz
      have hne : (s.autoStacks k).info ≠ i := by
        intro heq
        rw [heq] at h1
        exact hno h1
      exact ⟨(how _ hne).2 h1, by simpa [hs', State.setInfo, State.guestMalloc, hne] using h2⟩
  · by_cases hji : j = i
    · subst hji
      exact absurd (hphase t hmem) hp
    · exact h.runs t j hmem ((how j hji).1 hj) hp
  · by_cases hji : j = i
    · subst hji
      exact absurd hp (hhook t)
    · exact (h.hook t j hp).2.1 ((how j hji).1 hj)

theorem giveBack_of_not_owns (hi : i < s.created) (hno : ¬Owns s i) : s.giveBack i = s := by
  rw [State.giveBack, if_neg]
  rintro ⟨h1, h2⟩
  exact hno ⟨hi, h1, h2⟩

theorem giveBack_of_owns (h : Inv s) (ho : Owns s i) :
    ∃ k < s.stackCount, s.stackOf i = some k ∧ (s.autoStacks k).info = i ∧
      (s.autoStacks k).frees = 0 ∧
      s.giveBack i = { s with
        autoStacks := Function.update s.autoStacks k { s.autoStacks k with frees := 1 }
        info := Function.update s.info i
          { s.info i with stack := 0, stackSize := 0, ownsStack := false } } := by
  obtain ⟨k, hk, h1, h2, h3, h4⟩ := h.owned i ho
  refine ⟨k, hk, h1, h2, h4, ?_⟩
  rw [State.giveBack, if_pos ⟨ho.owns, ho.stack⟩, State.guestFree]
  simp only [h1, h3, if_true, State.setInfo, h4]

/-- **A record gives its stack back**, once. -/
structure GivenBack (s : State) (i : ℕ) (s' : State) : Prop where
  inv : Inv s'
  free : ¬Owns s' i
  others : ∀ j, Owns s' j → Owns s j
  threads : s'.threads = s.threads
  phase : s'.phase = s.phase
  created : s'.created = s.created

theorem Inv.giveBack (h : Inv s) (hi : i < s.created) : GivenBack s i (s.giveBack i) := by
  by_cases ho : Owns s i
  · obtain ⟨k, hk, hof, hik, hz, heq⟩ := giveBack_of_owns h ho
    rw [heq]
    set s' : State := { s with
      autoStacks := Function.update s.autoStacks k { s.autoStacks k with frees := 1 }
      info := Function.update s.info i
        { s.info i with stack := 0, stackSize := 0, ownsStack := false } } with hs'
    have hfree : ¬Owns s' i := fun h => by simpa [hs'] using h.owns
    have how : ∀ j, j ≠ i → (Owns s' j ↔ Owns s j) := by
      intro j hj
      constructor
      · rintro ⟨h1, h2, h3⟩
        exact ⟨h1, by simpa [hs', hj] using h2, by simpa [hs', hj] using h3⟩
      · rintro ⟨h1, h2, h3⟩
        exact ⟨h1, by simpa [hs', hj] using h2, by simpa [hs', hj] using h3⟩
    have hothers : ∀ j, Owns s' j → j ≠ i ∧ Owns s j := by
      intro j hj
      have hji : j ≠ i := by
        rintro rfl
        exact hfree hj
      exact ⟨hji, (how j hji).1 hj⟩
    refine ⟨⟨h.keys, h.live, h.records, fun j hj => ?_, fun k' hk' => ?_, fun t j hmem hj => ?_,
      fun t j hp => ⟨(h.hook t j hp).1, fun hj => ?_, (h.hook t j hp).2.2⟩⟩, hfree, fun j hj => (hothers j hj).2, rfl, rfl, rfl⟩
    · obtain ⟨hji, hj⟩ := hothers j hj
      obtain ⟨k', hk', h1, h2, h3, h4⟩ := h.owned j hj
      -- the stacks of two records are two stacks
      have hne : k' ≠ k := by
        rintro rfl
        exact hji (h2.symm.trans hik)
      exact ⟨k', hk', h1, by simpa [hs', hne] using h2, by simpa [hs', hne, hji] using h3, by simpa [hs', hne] using h4⟩
    · by_cases hkk : k' = k
      · subst hkk
        simp [hs']
      · have hst : s'.autoStacks k' = s.autoStacks k' := by simp [hs', hkk]
        rw [hst]
        refine ⟨(h.frees k' hk').1, fun hz' => ?_⟩
        obtain ⟨h1, h2⟩ := (h.frees k' hk').2 hz'
        have hne : (s.autoStacks k').info ≠ i := by
          intro heq'
          rw [heq', hof] at h2
          exact hkk (Option.some.inj h2).symm
        exact ⟨(how _ hne).2 h1, h2⟩
    · exact h.runs t j hmem (hothers j hj).2
    · exact (h.hook t j hp).2.1 (hothers j hj).2
  · rw [giveBack_of_not_owns hi ho]
    exact ⟨h, ho, fun _ hj => hj, rfl, rfl, rfl⟩

/-! ### Fibers -/

theorem owns_congr (hi : s'.info = s.info) (hc : s'.created = s.created) : Owns s' j ↔ Owns s j := by
  constructor
  · rintro ⟨h1, h2, h3⟩
    exact ⟨hc ▸ h1, hi ▸ h2, hi ▸ h3⟩
  · rintro ⟨h1, h2, h3⟩
    exact ⟨hc.symm ▸ h1, hi.symm ▸ h2, hi.symm ▸ h3⟩

theorem Inv.fiber {p : Phase} {r : Option ℕ} (h : Inv s)
    (hr : ∀ i, (t, i) ∈ s.threads → Owns s i → p ≠ .none → r = some i)
    (hh : ∀ i, p = .hook (some i) → i < s.created ∧ (Owns s i → r = some i) ∧ ∀ u, (u, i) ∈ s.threads → u = t) :
    Inv { s.setPhase t p with runs := Function.update s.runs t r } := by
  have how : ∀ j, Owns { s.setPhase t p with runs := Function.update s.runs t r } j ↔ Owns s j :=
    fun j => owns_congr rfl rfl
  refine ⟨h.keys, h.live, h.records, fun j hj => h.owned j ((how j).1 hj), fun k hk => ?_,
    fun u j hmem hj hp => ?_, fun u j hp => ?_⟩
  · exact ⟨(h.frees k hk).1, fun hz => ⟨(how _).2 ((h.frees k hk).2 hz).1, ((h.frees k hk).2 hz).2⟩⟩
  · by_cases hu : u = t
    · subst hu
      simp only [State.setPhase, Function.update_self] at hp ⊢
      exact hr j hmem ((how j).1 hj) hp
    · simp only [State.setPhase, Function.update_of_ne hu] at hp ⊢
      exact h.runs u j hmem ((how j).1 hj) hp
  · by_cases hu : u = t
    · subst hu
      simp only [State.setPhase, Function.update_self] at hp ⊢
      obtain ⟨h1, h2, h3⟩ := hh j hp
      exact ⟨h1, fun hj => h2 ((how j).1 hj), h3⟩
    · simp only [State.setPhase, Function.update_of_ne hu] at hp ⊢
      obtain ⟨h1, h2, h3⟩ := h.hook u j hp
      exact ⟨h1, fun hj => h2 ((how j).1 hj), h3⟩

variable {handler : Bool}

theorem Inv.unwind (h : Inv s) : Inv (s.unwind t handler) := by
  rw [State.unwind]
  split
  · next hp =>
    have hne : s.phase t ≠ .none := by simp [hp.1]
    have h' := h.fiber (t := t) (p := .hook (s.lookupThreadInfo t)) (r := s.runs t)
      (fun i hmem ho _ => h.runs t i hmem ho hne) fun i hi => by
        have hmem := lookup_mem (Phase.hook.inj hi)
        exact ⟨h.live _ hmem, fun ho => h.runs t i hmem ho hne, fun u hu => h.key_unique hu hmem⟩
    rw [Function.update_eq_self] at h'
    exact h'
  · exact h

theorem Kept.unwind (h : Kept s) : Kept (s.unwind t handler) := by
  rw [State.unwind]
  split
  · next hp =>
    intro i hi
    have ho : Owns s i := ⟨hi.created, hi.owns, hi.stack⟩
    obtain hmem | ⟨u, hu⟩ := h i ho
    · exact .inl hmem
    · have hut : u ≠ t := by
        rintro rfl
        simp [hp.1] at hu
      exact .inr ⟨u, by simpa [State.setPhase, hut] using hu⟩
  · exact h

/-! ### The calls -/

/-- **The condition**: `ExitDeleteThread` is not called by a thread that owns its stack, except from
an exit handler that `on_fiber_exit` runs for it; and when `on_fiber_exit` is through with a thread
that owns its stack, its id is not that of another thread. -/
def Proper (s : State) : Act → Prop
  | .exitDeleteThread t _ _ =>
    ∀ i, s.lookupThreadInfo t = some i → Owns s i → s.phase t = .hook (some i)
  | .onFiberExit t => ∀ i, s.phase t = .hook (some i) → Owns s i →
      s.lookupThreadInfo t = none ∨ s.lookupThreadInfo t = some i
  | _ => True

/-- The invariants of a state, and of the step to it. -/
structure Keeps (s s' : State) (proper : Prop) : Prop where
  inv : Inv s'
  kept : proper → Kept s → Kept s'

theorem findThreadId_fresh {used : List ℤ} : ∀ {n next id next'},
    findThreadId used n next = (some id, next') → id ∉ used := by
  intro n
  induction n with
  | zero =>
    intro next id next' h
    cases h
  | succ n ih =>
    intro next id next' h
    rw [findThreadId] at h
    by_cases hc : (if next < 2 ∨ 0xFF < next then 2 else next) ∈ used
    · rw [if_pos hc] at h
      exact ih h
    · rw [if_neg hc] at h
      cases h
      exact hc

theorem Inv.nextThreadId {next : ℤ} (h : Inv s) : Inv { s with nextThreadId := next } := by
  have how : ∀ j, Owns { s with nextThreadId := next } j ↔ Owns s j := fun j => owns_congr rfl rfl
  refine ⟨h.keys, h.live, h.records, fun j hj => h.owned j ((how j).1 hj), fun k hk => ?_,
    fun u j hmem hj => h.runs u j hmem ((how j).1 hj), fun u j hp => ?_⟩
  · exact ⟨(h.frees k hk).1, fun hz => ⟨(how _).2 ((h.frees k hk).2 hz).1, ((h.frees k hk).2 hz).2⟩⟩
  · obtain ⟨h1, h2, h3⟩ := h.hook u j hp
    exact ⟨h1, fun hj => h2 ((how j).1 hj), h3⟩

theorem Kept.nextThreadId {next : ℤ} (h : Kept s) : Kept { s with nextThreadId := next } := by
  intro i hi
  exact h i ⟨hi.created, hi.owns, hi.stack⟩

section

variable (h : Inv s)

include h

theorem createThread_keeps {stack stackSize : BitVec 32} : Keeps s (s.createThread stack stackSize) True := by
  rw [State.createThread]
  split
  · exact ⟨h.nextThreadId, fun _ hk => hk.nextThreadId⟩
  · next id next hid =>
    have hnot : ∀ i, (id, i) ∉ s.threads := by
      intro i hmem
      exact findThreadId_fresh hid (List.mem_map.2 ⟨_, hmem, rfl⟩)
    have h' : Inv (s.make id { stack, stackSize }) := h.make rfl hnot
    refine ⟨h'.nextThreadId, fun _ hk => ?_⟩
    have hk' : Kept (s.make id { stack, stackSize }) := hk.make rfl
    exact hk'.nextThreadId

theorem giveBack_keeps (hi : i < s.created) : Keeps s (s.giveBack i) True := by
  have hg := h.giveBack hi
  refine ⟨hg.inv, fun _ hk j hj => ?_⟩
  obtain ⟨u, hu⟩ | ⟨u, hu⟩ := hk j (hg.others j hj)
  · exact .inl ⟨u, by rw [hg.threads]; exact hu⟩
  · exact .inr ⟨u, by rw [hg.phase]; exact hu⟩

theorem deleteThread_keeps : Keeps s (s.deleteThread t) True := by
  rw [State.deleteThread]
  split
  · exact ⟨h, fun _ hk => hk⟩
  · next i hi =>
    have hmem := lookup_mem hi
    split
    · exact ⟨h, fun _ hk => hk⟩
    · have hg := h.giveBack (h.live _ hmem)
      refine ⟨hg.inv.erase, fun _ hk => ?_⟩
      have hk' : Kept (s.giveBack i) := (giveBack_keeps h (h.live _ hmem)).kept trivial hk
      refine hk'.erase fun j hj ho => absurd ho ?_
      -- the record under the id is the one that has given its stack back
      rw [hg.threads] at hj
      have hji : j = i := by
        have := lookup_of_mem h hj
        rw [hi] at this
        exact (Option.some.inj this).symm
      rw [hji]
      exact hg.free

theorem ensure_keeps (sp : BitVec 32) :
    Keeps s (s.ensureCurrentThreadInfo t sp).1 True ∧
      (s.ensureCurrentThreadInfo t sp).1.phase = s.phase ∧
      (t, (s.ensureCurrentThreadInfo t sp).2) ∈ (s.ensureCurrentThreadInfo t sp).1.threads ∧
      (Owns (s.ensureCurrentThreadInfo t sp).1 (s.ensureCurrentThreadInfo t sp).2 →
        s.lookupThreadInfo t = some (s.ensureCurrentThreadInfo t sp).2 ∧
          Owns s (s.ensureCurrentThreadInfo t sp).2) := by
  rw [State.ensureCurrentThreadInfo]
  split
  · next i hi => exact ⟨⟨h, fun _ hk => hk⟩, rfl, lookup_mem hi, fun ho => ⟨hi, ho⟩⟩
  · next hi =>
    refine ⟨⟨h.make rfl (lookup_none.1 hi), fun _ hk => hk.make rfl⟩, rfl, List.mem_cons_self, fun ho => ?_⟩
    have ho' : Owns s s.created := (owns_make rfl).1 ho
    exact absurd ho'.created (Nat.lt_irrefl _)

theorem exitThread_keeps {sp : BitVec 32} (he : s.exitThread t sp handler = some s') : Keeps s s' True := by
  rw [State.exitThread] at he
  split at he
  · cases he
  · cases he
    obtain ⟨hk, -⟩ := ensure_keeps (t := t) h sp
    have h' := hk.inv.setInfo (i := (s.ensureCurrentThreadInfo t sp).2)
      (f := fun info => { info with terminated := true }) (fun _ => rfl) fun _ => rfl
    refine ⟨h'.unwind, fun _ hkept => Kept.unwind ?_⟩
    exact (hk.kept trivial hkept).setInfo (fun _ => rfl) fun _ => rfl

theorem exitDeleteThread_keeps {sp : BitVec 32} (he : s.exitDeleteThread t sp handler = some s') :
    Keeps s s' (Proper s (.exitDeleteThread t sp handler)) := by
  rw [State.exitDeleteThread] at he
  split at he
  · cases he
  · cases he
    obtain ⟨hk, hphase, hmem, hown⟩ := ensure_keeps (t := t) h sp
    set s1 := (s.ensureCurrentThreadInfo t sp).1
    set i := (s.ensureCurrentThreadInfo t sp).2
    have h' : Inv (s1.markSelfExiting i) := hk.inv.setInfo (fun _ => rfl) fun _ => rfl
    refine ⟨h'.erase.unwind, fun hproper hkept => Kept.unwind ?_⟩
    have hkept' : Kept (s1.markSelfExiting i) :=
      (hk.kept trivial hkept).setInfo (fun _ => rfl) fun _ => rfl
    refine hkept'.erase fun j hj ho => ⟨t, ?_⟩
    -- the record under the id is the caller's own
    obtain rfl : i = j := by
      have heq := lookup_of_mem hk.inv hj
      rw [lookup_of_mem hk.inv hmem] at heq
      exact Option.some.inj heq
    have how : Owns (s1.markSelfExiting i) i ↔ Owns s1 i := owns_setInfo (fun _ => rfl) fun _ => rfl
    have ho1 : Owns s1 i := how.1 ho
    obtain ⟨hl, ho0⟩ := hown ho1
    have hp := hproper i hl ho0
    rw [← hphase] at hp
    exact hp

theorem endCode_keeps (he : s.endCode t = some s') : Keeps s s' True := by
  rw [State.endCode] at he
  split at he
  · cases he
    exact ⟨h.unwind, fun _ hk => hk.unwind⟩
  · cases he

theorem terminateThread_keeps : Keeps s (s.terminateThread t) True := by
  rw [State.terminateThread]
  split
  · exact ⟨h, fun _ hk => hk⟩
  · split
    · exact ⟨h, fun _ hk => hk⟩
    · exact ⟨h.setInfo (fun _ => rfl) fun _ => rfl, fun _ hk => hk.setInfo (fun _ => rfl) fun _ => rfl⟩

theorem guestMalloc_keeps {address : BitVec 32} (hmem : (t, i) ∈ s.threads)
    (hphase : s.phase t = .none) (hst : (s.info i).stack = 0) (haddr : address ≠ 0) :
    Keeps s ((s.guestMalloc i address).setInfo i fun info =>
      { info with stack := address, ownsStack := true }) True := by
  have hno : ¬Owns s i := fun ho => ho.stack hst
  constructor
  · refine h.guestMalloc (h.live _ hmem) hno haddr (fun u hu => ?_) fun u hu => ?_
    · rw [h.key_unique hu hmem]
      exact hphase
    · have heq := (h.hook u i hu).2.2 t hmem
      subst heq
      rw [hphase] at hu
      cases hu
  · intro _ hk j hj
    by_cases hji : j = i
    · subst hji
      exact .inl ⟨t, hmem⟩
    · refine hk j ⟨hj.created, ?_, ?_⟩
      · simpa [State.setInfo, State.guestMalloc, hji] using hj.owns
      · simpa [State.setInfo, State.guestMalloc, hji] using hj.stack

end

theorem Keeps.trans {p : Prop} {s1 : State} (h1 : Keeps s s1 p) (h2 : Keeps s1 s' p) : Keeps s s' p :=
  ⟨h2.inv, fun hp hk => h2.kept hp (h1.kept hp hk)⟩

theorem Keeps.mono {p : Prop} (h : Keeps s s' True) : Keeps s s' p :=
  ⟨h.inv, fun _ hk => h.kept trivial hk⟩

section

variable (h : Inv s)

include h

theorem setInfo_keeps (hs : ∀ x, (f x).stack = x.stack)
    (ho : ∀ x, (f x).ownsStack = x.ownsStack) : Keeps s (s.setInfo i f) True :=
  ⟨h.setInfo hs ho, fun _ hk => hk.setInfo hs ho⟩

theorem run_keeps (hmem : (t, i) ∈ s.threads) (hphase : s.phase t = .none) :
    Keeps s { s.setPhase t .code with runs := Function.update s.runs t (some i) } True := by
  constructor
  · refine h.fiber (fun j hj _ _ => ?_) fun j hj => by cases hj
    have heq := lookup_of_mem h hj
    rw [lookup_of_mem h hmem] at heq
    exact heq
  · intro _ hk j hj
    have ho : Owns s j := ⟨hj.created, hj.owns, hj.stack⟩
    obtain hreg | ⟨u, hu⟩ := hk j ho
    · exact .inl hreg
    · have hut : u ≠ t := by
        rintro rfl
        rw [hphase] at hu
        cases hu
      exact .inr ⟨u, by simpa [State.setPhase, hut] using hu⟩

theorem startThread_keeps {callable fiber : Bool} {autoStack : BitVec 32}
    (he : s.startThread t callable autoStack fiber = some s') : Keeps s s' True := by
  rw [State.startThread] at he
  split at he
  · cases he
    exact ⟨h, fun _ hk => hk⟩
  · next i hi =>
    have hmem := lookup_mem hi
    split at he
    · cases he
      exact ⟨h, fun _ hk => hk⟩
    split at he
    · cases he
    next hphase =>
    have hphase : s.phase t = .none := not_not.1 hphase
    simp only at he
    set s1 := s.setInfo i fun info => { info with started := true, status := .ready, terminated := false } with hs1
    set s2 := if (s1.info i).stack = 0 ∧ (s1.info i).stackSize ≠ 0 ∧ autoStack ≠ 0 then
        (s1.guestMalloc i autoStack).setInfo i fun info =>
          { info with stack := autoStack, ownsStack := true }
      else s1 with hs2
    set s3 := if (s2.info i).stack ≠ 0 ∧ (s2.info i).stackSize = 0 then
        s2.setInfo i fun info => { info with stackSize := 0x800 }
      else s2 with hs3
    have k1 : Keeps s s1 True := setInfo_keeps h (fun _ => rfl) fun _ => rfl
    have k2 : Keeps s1 s2 True ∧ s2.threads = s.threads ∧ s2.phase = s.phase := by
      rw [hs2]
      split
      · next hc => exact ⟨guestMalloc_keeps k1.inv hmem hphase hc.1 hc.2.2, rfl, rfl⟩
      · exact ⟨⟨k1.inv, fun _ hk => hk⟩, rfl, rfl⟩
    have k3 : Keeps s2 s3 True ∧ s3.threads = s.threads ∧ s3.phase = s.phase := by
      rw [hs3]
      split
      · exact ⟨setInfo_keeps k2.1.inv (fun _ => rfl) fun _ => rfl, k2.2⟩
      · exact ⟨⟨k2.1.inv, fun _ hk => hk⟩, k2.2⟩
    have k : Keeps s s3 True := (k1.trans k2.1).trans k3.1
    split at he
    · cases he
      refine k.trans (run_keeps k.inv ?_ ?_)
      · rw [k3.2.1]
        exact hmem
      · rw [k3.2.2]
        exact hphase
    · cases he
      exact k.trans (setInfo_keeps k.inv (fun _ => rfl) fun _ => rfl)

theorem finish_keeps :
    Keeps s { s.setPhase t .none with runs := Function.update s.runs t none }
      (∀ i, s.phase t = .hook (some i) → Owns s i → (t, i) ∈ s.threads) := by
  constructor
  · exact h.fiber (fun _ _ _ hne => absurd rfl hne) fun i hi => by cases hi
  · intro ht hk j hj
    have ho : Owns s j := ⟨hj.created, hj.owns, hj.stack⟩
    obtain hreg | ⟨u, hu⟩ := hk j ho
    · exact .inl hreg
    · by_cases hut : u = t
      · subst hut
        exact .inl ⟨u, ht j hu ho⟩
      · exact .inr ⟨u, by simpa [State.setPhase, hut] using hu⟩

theorem onFiberExit_keeps (he : s.onFiberExit t = some s') : Keeps s s' (Proper s (.onFiberExit t)) := by
  rw [State.onFiberExit] at he
  split at he
  · next info hp =>
    cases he
    cases info with
    | none =>
      obtain ⟨h1, h2⟩ := finish_keeps (t := t) h
      refine ⟨h1, fun _ => h2 fun i hi => ?_⟩
      rw [hp] at hi
      cases hi
    | some i =>
      set s1 := s.setInfo i fun info => { info with started := false, status := .dormant, terminated := false } with hs1
      have k1 : Keeps s s1 True := setInfo_keeps h (fun _ => rfl) fun _ => rfl
      have how : ∀ j, Owns s1 j ↔ Owns s j := fun j => owns_setInfo (fun _ => rfl) fun _ => rfl
      have hi : i < s1.created := (h.hook t i hp).1
      simp only
      split
      · have hg := k1.inv.giveBack hi
        have k2 := k1.trans (giveBack_keeps k1.inv hi)
        obtain ⟨h1, h2⟩ := finish_keeps (t := t) k2.inv
        refine ⟨h1, fun _ hk => h2 (fun j hj ho => ?_) (k2.kept trivial hk)⟩
        rw [hg.phase] at hj
        obtain rfl : i = j := Option.some.inj (Phase.hook.inj (hp.symm.trans hj))
        exact absurd ho hg.free
      · next hreg =>
        obtain ⟨h1, h2⟩ := finish_keeps (t := t) k1.inv
        refine ⟨h1, fun hproper hk => h2 (fun j hj ho => ?_) (k1.kept trivial hk)⟩
        obtain rfl : i = j := Option.some.inj (Phase.hook.inj (hp.symm.trans hj))
        -- some record is under the id, so it is the thread's own
        obtain hnone | hsome := hproper i hp ((how i).1 ho)
        · have hnone' : s1.lookupThreadInfo t = none := hnone
          rw [hnone'] at hreg
          exact absurd rfl hreg
        · exact lookup_mem hsome
  · cases he

end

/-! ### Runs -/

theorem step_keeps (h : Inv s) (hs : Step s a s') : Keeps s s' (Proper s a) := by
  cases a with
  | createThread stack stackSize =>
    cases hs
    exact (createThread_keeps h).mono
  | deleteThread t =>
    cases hs
    exact (deleteThread_keeps h).mono
  | startThread t callable autoStack fiber => exact (startThread_keeps h hs).mono
  | exitThread t sp handler => exact (exitThread_keeps h hs).mono
  | exitDeleteThread t sp handler => exact exitDeleteThread_keeps h hs
  | terminateThread t =>
    cases hs
    exact (terminateThread_keeps h).mono
  | endCode t => exact (endCode_keeps h hs).mono
  | onFiberExit t => exact onFiberExit_keeps h hs
  | ensureCurrentThreadInfo t sp =>
    simp only [Step, Stacks.step] at hs
    split at hs
    · cases hs
    · cases hs
      exact (ensure_keeps h sp).1.mono

theorem State.Initial.inv (h : s.Initial) : Inv s := by
  have hno : ∀ i, ¬Owns s i := by
    intro i ho
    have := ho.created
    rw [h.created] at this
    omega
  refine ⟨by simp [h.threads], by simp [h.threads], by simp [h.threads], fun i ho => absurd ho (hno i),
    fun k hk => ?_, fun t i hmem => ?_, fun t i hp => ?_⟩
  · rw [h.stackCount] at hk
    omega
  · simp [h.threads] at hmem
  · obtain hn | hc := h.phase t
    · rw [hn] at hp
      cases hp
    · rw [hc] at hp
      cases hp

theorem run_kept (h0 : s₀.Initial) (hrun : Run (fun s a s' => Step s a s' ∧ Proper s a) s₀ as s) : Inv s ∧ Kept s := by
  refine hrun.state_invariant (I := fun s => Inv s ∧ Kept s) ⟨h0.inv, fun i ho => ?_⟩ ?_
  · have := ho.created
    rw [h0.created] at this
    omega
  · rintro s a s' ⟨hi, hk⟩ ⟨hs, hp⟩
    have hkeeps := step_keeps hi hs
    exact ⟨hkeeps.inv, hkeeps.kept hp hk⟩

/-- **Every stack that `StartThread` obtained is given back once**: never twice, and once by the
time the thread's record is out of `g_threads` and its fiber is finished. -/
def FreedOnce (s : State) : Prop :=
  ∀ k < s.stackCount, (s.autoStacks k).frees ≤ 1 ∧
    ((∀ t, (t, (s.autoStacks k).info) ∉ s.threads) →
      (∀ t, s.runs t ≠ some (s.autoStacks k).info) → (s.autoStacks k).frees = 1)

/-- **In a run in which no thread with a stack of its own deletes itself** (but from the exit handlers
of `on_fiber_exit`), and none takes the id of one that `on_fiber_exit` is busy with, **stacks are
given back once**. -/
theorem auto_stack_freed_once (h₀ : s₀.Initial)
    (hrun : Run (fun s a s' => Step s a s' ∧ Proper s a) s₀ as s) : FreedOnce s := by
  obtain ⟨hi, hk⟩ := run_kept h₀ hrun
  intro k hlt
  obtain ⟨hle, hzero⟩ := hi.frees k hlt
  refine ⟨hle, fun hreg hruns => ?_⟩
  by_contra hne
  obtain ⟨ho, -⟩ := hzero (by omega)
  -- the owner is somewhere, and both places are excluded
  obtain ⟨t, hmem⟩ | ⟨t, hp⟩ := hk _ ho
  · exact hreg t hmem
  · exact hruns t ((hi.hook t _ hp).2.1 ho)

/-! ### Two threads with stacks of their own -/

/-- A thread with a stack of its own has started. -/
def started : List Act :=
  [.createThread 0 0x800, .startThread 2 true 0x100000 true]

/-- The state after acts from the start. -/
def stateAfter (as : List Act) : State := after step .init as

theorem run_stateAfter (h : (as.foldlM step .init).isSome = true) : Run Step .init as (stateAfter as) :=
  .of_foldlM (foldlM_eq_after h)

theorem init_initial : State.init.Initial := by
  refine ⟨rfl, rfl, fun t => ?_, fun _ => rfl, rfl, fun _ => rfl⟩
  by_cases ht : t = 1
  · exact .inr (if_pos ht)
  · exact .inl (if_neg ht)

theorem step_stateAfter (h : ((as ++ [a]).foldlM step .init).isSome = true) :
    Step (stateAfter as) a (stateAfter (as ++ [a])) := after_step h

/-- The thread exits. -/
def exits : List Act := started ++ [.exitThread 2 0 false]

/-- Another deletes it. -/
theorem deleted_freed_once : 0 < (stateAfter (exits ++ [.onFiberExit 2] ++ [.deleteThread 2])).stackCount ∧
    ((stateAfter (exits ++ [.onFiberExit 2] ++ [.deleteThread 2])).autoStacks 0).frees = 1 := by
  have hpre : Run (fun s a s' => Step s a s' ∧ Proper s a) .init exits (stateAfter exits) := by
    refine ((run_stateAfter (by decide)).of_labels (P := fun a => ∀ s, Proper s a) ?_).mono
      fun s a s' hs => ⟨hs.1, hs.2 s⟩
    simp [exits, started, Proper]
  have hexit : Proper (stateAfter exits) (.onFiberExit 2) := by
    intro i hp _
    have hphase : (stateAfter exits).phase 2 = .hook (some 0) := by decide
    obtain rfl : 0 = i := Option.some.inj (Phase.hook.inj (hphase.symm.trans hp))
    exact .inr (by decide)
  have hdelete : Proper (stateAfter (exits ++ [.onFiberExit 2])) (.deleteThread 2) := trivial
  have hrun := (hpre.snoc ⟨step_stateAfter (by decide), hexit⟩).snoc ⟨step_stateAfter (by decide), hdelete⟩
  refine ⟨by decide, (auto_stack_freed_once init_initial hrun 0 (by decide)).2 (fun t => ?_) fun t => ?_⟩
  · have hnil : (stateAfter (exits ++ [.onFiberExit 2] ++ [.deleteThread 2])).threads = [] := by decide
    rw [hnil]
    exact List.not_mem_nil
  · have hruns : (stateAfter (exits ++ [.onFiberExit 2] ++ [.deleteThread 2])).runs = Function.update (Function.update (fun _ => none) 2 (some 0)) 2 none := rfl
    rw [hruns]
    by_cases ht : t = 2
    · simp [ht]
    · simp [ht]

/-- The thread deletes itself: `on_fiber_exit` does not find its record. -/
def deletesItself : List Act := started ++ [.exitDeleteThread 2 0 false, .onFiberExit 2]

/-- Its stack is lost. -/
theorem exitDeleteThread_leaks : ¬∀ (s₀ : State) (as : List Act) (s : State), s₀.Initial →
    Run Step s₀ as s → FreedOnce s := by
  intro h
  have hruns : (stateAfter deletesItself).runs =
      Function.update (Function.update (fun _ => none) 2 (some 0)) 2 none := rfl
  have hnil : (stateAfter deletesItself).threads = [] := by decide
  have hfree := (h .init deletesItself _ init_initial (run_stateAfter (by decide)) 0 (by decide)).2
    (fun t => by rw [hnil]; exact List.not_mem_nil) fun t => by
      rw [hruns]
      by_cases ht : t = 2
      · simp [ht]
      · simp [ht]
  revert hfree
  decide

end Ps2Recomp.Stacks
