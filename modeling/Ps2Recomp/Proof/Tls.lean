import Ps2Recomp.Lib.Holders
import Ps2Recomp.Spec.Tls

/-!
# Threads and their TLS blocks

Seen from the blocks, a call lets go of one, takes one, or does nothing (`holds_*`). Blocks are handed out in turn, and
nothing says which are free: a block is taken safely just when no living thread holds it (`safe_iff`).
-/

namespace Ps2Recomp.Tls

open Holders

variable {s : State} {tid : ℤ}

/-! ### What the living threads hold -/

/-- The TLS base of a thread that is alive, 0 if it has none. -/
def holds (s : State) (tid : ℤ) : Option Word :=
  (s.threads.lookup tid).bind fun info => if info.started then some info.tlsBase else none

variable {info : ThreadInfo}

theorem holds_some (h : s.threads.lookup tid = some info) :
    holds s tid = if info.started then some info.tlsBase else none := by
  rw [holds, h, Option.bind_some]

theorem holds_none (h : s.threads.lookup tid = none) : holds s tid = none := by
  rw [holds, h, Option.bind_none]

theorem holds_insert {s' : State} (h : s'.threads = s.threads.insert tid info) :
    holds s' = Function.update (holds s) tid (if info.started then some info.tlsBase else none) := by
  funext u
  by_cases hu : u = tid
  · rw [hu, Function.update_self, holds, h, AList.lookup_insert, Option.bind_some]
  · rw [Function.update_of_ne hu, holds, h, AList.lookup_insert_ne hu, holds]

theorem holds_erase {s' : State} (h : s'.threads = s.threads.erase tid) :
    holds s' = Function.update (holds s) tid none := by
  funext u
  by_cases hu : u = tid
  · rw [hu, Function.update_self, holds, h, AList.lookup_erase, Option.bind_none]
  · rw [Function.update_of_ne hu, holds, h, AList.lookup_erase_ne hu, holds]

theorem update_none (h : holds s tid = none) : Function.update (holds s) tid none = holds s := by
  rw [← h, Function.update_eq_self]

/-! ### The condition -/

/-- The thread that calls runs. -/
def Possible (s : State) : Act → Prop
  | .exit tid | .exitDelete tid | .getTls tid => ∀ info, s.threads.lookup tid = some info → info.started = true
  | _ => True

/-- A block that is handed out is held by no living thread, and neither is one that a thread brings along when it is
started again. -/
def Meets (s : State) : Act → Prop
  | .getTls tid => (∀ info, s.threads.lookup tid = some info → info.tlsBase = 0) →
    ∀ u, holds s u ≠ some (blockAddr s.tlsIndex)
  | .start tid runnable created => ∀ info, s.threads.lookup tid = some info → tid ≠ 0 → runnable = true →
    created = true → info.started = false → info.dormant = true → info.tlsBase ≠ 0 → ∀ u, holds s u ≠ some info.tlsBase
  | _ => True

/-- The blocks of living threads are distinct after the call; a thread that stays alive keeps its block, and the block
what is in it. -/
structure Safe (s : State) (a : Act) : Prop where
  distinct : Distinct 0 (holds (step s a))
  kept : ∀ t base, base ≠ 0 → holds s t = some base → holds (step s a) t = some base ∨ holds (step s a) t = none
  content : ∀ t base, base ≠ 0 → holds s t = some base → ∀ p, base.toNat ≤ p → p < base.toNat + kTlsBlockSize.toNat →
    (step s a).rdram p = s.rdram p

/-! ### Blocks -/

theorem toNat_blockAddr (index : Word) : (blockAddr index).toNat = 0x01F20000 + index.toNat % 256 * 256 := by
  have hbase : kTlsPoolBase.toNat = 0x01F20000 := rfl
  have hsize : kTlsBlockSize.toNat = 256 := rfl
  rw [blockAddr, BitVec.toNat_add, BitVec.toNat_mul, BitVec.toNat_umod, hbase, hsize]
  omega

theorem blockAddr_ne_zero (index : Word) : blockAddr index ≠ 0 := by
  intro h
  have htoNat := toNat_blockAddr index
  rw [h] at htoNat
  have hzero : (0 : Word).toNat = 0 := rfl
  omega

/-- Different blocks have no byte in common. -/
theorem blocks_apart {i j : Word} (h : blockAddr i ≠ blockAddr j) :
    (blockAddr i).toNat + 256 ≤ (blockAddr j).toNat ∨ (blockAddr j).toNat + 256 ≤ (blockAddr i).toNat := by
  have hi := toNat_blockAddr i
  have hj := toNat_blockAddr j
  have hne : (blockAddr i).toNat ≠ (blockAddr j).toNat := fun heq => h (BitVec.eq_of_toNat_eq heq)
  omega

/-! ### Calls that take nothing -/

theorem findThreadId_free {threads : AList fun _ : ℤ => ThreadInfo} {attempts : ℕ} {next next' id : ℤ}
    (h : findThreadId threads attempts next = (some id, next')) : id ∉ threads := by
  induction attempts generalizing next with
  | zero => exact absurd (congrArg Prod.fst h) (Option.some_ne_none id).symm
  | succ attempts ih =>
    rw [findThreadId] at h
    generalize (if next < 2 ∨ 0xFF < next then 2 else next) = candidate at h
    generalize (if 0xFF ≤ candidate then 2 else candidate + 1) = behind at h
    split at h
    · exact ih h
    next hfree =>
      have hid := Option.some.inj (congrArg Prod.fst h)
      rw [← hid]
      exact hfree

theorem holds_createThread : holds (createThread s).2 = holds s := by
  rw [createThread]
  split
  · rfl
  next id next' hid =>
    rw [holds_insert (s := s) rfl, if_neg Bool.false_ne_true]
    exact update_none (holds_none (AList.lookup_eq_none.2 (findThreadId_free hid)))

theorem holds_onFiberExit : holds (onFiberExit s tid) = Function.update (holds s) tid none := by
  rw [onFiberExit]
  split
  next info hinfo => rw [holds_insert (s := s) rfl, if_neg Bool.false_ne_true]
  next hnone => rw [update_none (holds_none hnone)]

theorem holds_ensure (s : State) (tid : ℤ) : holds (ensureCurrentThreadInfo s tid).2 = holds s ∨
    holds (ensureCurrentThreadInfo s tid).2 = Function.update (holds s) tid (some 0) := by
  rw [ensureCurrentThreadInfo]
  split
  · exact .inl rfl
  next hnone =>
    have hinsert : holds { s with threads := s.threads.insert tid ⟨true, false, 0⟩ } =
        Function.update (holds s) tid
          (if (ThreadInfo.mk true false 0).started then some (ThreadInfo.mk true false 0).tlsBase else none) :=
      holds_insert rfl
    exact .inr hinsert

theorem holds_exitThread : holds (exitThread s tid) = Function.update (holds s) tid none := by
  rw [exitThread, holds_onFiberExit]
  rcases holds_ensure s tid with h | h
  · rw [h]
  · rw [h, Function.update_idem]

theorem holds_exitDeleteThread : holds (exitDeleteThread s tid) = Function.update (holds s) tid none := by
  rw [exitDeleteThread, holds_onFiberExit, holds_erase (s := (ensureCurrentThreadInfo s tid).2) rfl, Function.update_idem]
  rcases holds_ensure s tid with h | h
  · rw [h]
  · rw [h, Function.update_idem]

theorem holds_terminateThread : holds (terminateThread s tid).2 = holds s ∨
    holds (terminateThread s tid).2 = Function.update (holds s) tid none := by
  rw [terminateThread]
  split
  · exact .inl rfl
  · split
    · exact .inl rfl
    · exact .inr holds_onFiberExit

theorem holds_deleteThread : holds (deleteThread s tid).2 = holds s := by
  rw [deleteThread]
  split
  · rfl
  split
  · rfl
  next info hinfo =>
    split
    · rfl
    next hdormant =>
      have hstarted : info.started ≠ true := fun h => hdormant (.inl h)
      rw [holds_erase (s := s) rfl]
      refine update_none ?_
      rw [holds_some hinfo, if_neg hstarted]

/-! ### Calls that take a block -/

theorem startThread_cases (s : State) (tid : ℤ) (runnable created : Bool) : (startThread s tid runnable created).2 = s ∨
    ∃ info, s.threads.lookup tid = some info ∧ tid ≠ 0 ∧ runnable = true ∧ created = true ∧ info.started = false ∧
      info.dormant = true ∧ (startThread s tid runnable created).2 =
        { s with threads := s.threads.insert tid { info with started := true, dormant := false } } := by
  rw [startThread]
  split
  · exact .inl rfl
  next hid =>
    split
    · exact .inl rfl
    next info hinfo =>
      split
      · exact .inl rfl
      next hrunnable =>
        split
        · exact .inl rfl
        next hdormant =>
          split
          · exact .inl rfl
          next hcreated =>
            obtain ⟨hstarted, hdormant⟩ := not_or.1 hdormant
            exact .inr ⟨info, hinfo, hid, of_not_not hrunnable, of_not_not hcreated, eq_false_of_ne_true hstarted,
              of_not_not hdormant, rfl⟩

theorem getThreadTLS_cases (hp : Possible s (.getTls tid)) :
    ((getThreadTLS s tid).2 = s ∧ ∃ info, s.threads.lookup tid = some info ∧ info.tlsBase ≠ 0) ∨
      ((∀ info, s.threads.lookup tid = some info → info.tlsBase = 0) ∧
        (∃ info : ThreadInfo, info.started = true ∧ info.tlsBase = blockAddr s.tlsIndex ∧
          (getThreadTLS s tid).2.threads.lookup tid = some info) ∧
        (∀ u, u ≠ tid → (getThreadTLS s tid).2.threads.lookup u = s.threads.lookup u) ∧
        (getThreadTLS s tid).2.rdram =
          Bytes.copy s.rdram (blockAddr s.tlsIndex).toNat (List.replicate kTlsBlockSize.toNat 0)) := by
  rw [getThreadTLS, ensureCurrentThreadInfo]
  cases hinfo : s.threads.lookup tid with
  | some info =>
    dsimp only
    split
    next hzero =>
      refine .inr ⟨fun info' h => ?_, ⟨{ info with tlsBase := blockAddr s.tlsIndex }, hp info hinfo, rfl,
        AList.lookup_insert _⟩, fun u hu => AList.lookup_insert_ne hu, rfl⟩
      rw [← Option.some.inj h]
      exact hzero
    next hbase => exact .inl ⟨rfl, info, rfl, hbase⟩
  | none =>
    refine .inr ⟨fun info h => absurd h (Option.some_ne_none info).symm, ⟨⟨true, false, blockAddr s.tlsIndex⟩, rfl, rfl,
      AList.lookup_insert _⟩, fun u hu => ?_, rfl⟩
    exact (AList.lookup_insert_ne hu).trans (AList.lookup_insert_ne hu)

/-! ### Records -/

/-- Every record, of a living thread or not, has a block of the pool or none. -/
def Blocks (threads : AList fun _ : ℤ => ThreadInfo) : Prop :=
  ∀ tid info, threads.lookup tid = some info → info.tlsBase = 0 ∨ ∃ index, info.tlsBase = blockAddr index

namespace Blocks

variable {threads : AList fun _ : ℤ => ThreadInfo}

theorem insert (h : Blocks threads)
    (hinfo : info.tlsBase = 0 ∨ ∃ index, info.tlsBase = blockAddr index) : Blocks (threads.insert tid info) := by
  intro t i hi
  by_cases ht : t = tid
  · rw [ht, AList.lookup_insert] at hi
    rw [← Option.some.inj hi]
    exact hinfo
  · rw [AList.lookup_insert_ne ht] at hi
    exact h t i hi

theorem erase (h : Blocks threads) : Blocks (threads.erase tid) := by
  intro t i hi
  by_cases ht : t = tid
  · rw [ht, AList.lookup_erase] at hi
    exact absurd hi (Option.some_ne_none i).symm
  · rw [AList.lookup_erase_ne ht] at hi
    exact h t i hi

section

variable (h : Blocks s.threads)

include h

theorem ensure : Blocks (ensureCurrentThreadInfo s tid).2.threads := by
  rw [ensureCurrentThreadInfo]
  split
  · exact h
  · exact h.insert (.inl rfl)

theorem onFiberExit : Blocks (onFiberExit s tid).threads := by
  rw [Tls.onFiberExit]
  split
  next info hinfo => exact h.insert (h tid info hinfo)
  · exact h

theorem step (a : Act) (hp : Possible s a) : Blocks (step s a).threads := by
  cases a with
  | create =>
    rw [Tls.step, createThread]
    split
    · exact h
    · exact h.insert (.inl rfl)
  | start tid runnable created =>
    rw [Tls.step]
    rcases startThread_cases s tid runnable created with heq | ⟨info, hinfo, -, -, -, -, -, heq⟩
    · rw [heq]
      exact h
    · rw [heq]
      exact h.insert (h tid info hinfo)
  | exit tid => exact h.ensure.onFiberExit
  | exitDelete tid => exact Blocks.onFiberExit (s := { (ensureCurrentThreadInfo s tid).2 with
      threads := (ensureCurrentThreadInfo s tid).2.threads.erase tid }) h.ensure.erase
  | terminate tid =>
    rw [Tls.step, terminateThread]
    split
    · exact h
    · split
      · exact h
      · exact h.onFiberExit
  | delete tid =>
    rw [Tls.step, deleteThread]
    split
    · exact h
    · split
      · exact h
      · split
        · exact h
        · exact h.erase
  | getTls tid =>
    rw [Tls.step]
    rcases getThreadTLS_cases hp with ⟨heq, -⟩ | ⟨-, ⟨info, -, hbase, hinfo⟩, hother, -⟩
    · rw [heq]
      exact h
    · intro t i hi
      by_cases ht : t = tid
      · rw [ht, hinfo] at hi
        rw [← Option.some.inj hi]
        exact .inr ⟨_, hbase⟩
      · rw [hother t ht] at hi
        exact h t i hi

end

end Blocks

/-! ### Runs -/

structure Inv (s : State) : Prop where
  blocks : Blocks s.threads
  distinct : Distinct 0 (holds s)

theorem Inv.initial (rdram : Bytes.Memory) : Inv (State.initial rdram) := by
  have hnone : ∀ tid, (State.initial rdram).threads.lookup tid = none := fun tid => AList.lookup_empty tid
  refine ⟨fun tid info h => ?_, fun i j b _ hi _ => ?_⟩
  · rw [hnone] at h
    exact absurd h (Option.some_ne_none info).symm
  · rw [holds_none (hnone i)] at hi
    exact absurd hi (Option.some_ne_none b).symm

theorem Inv.block_of_holds (h : Inv s) {t : ℤ} {base : Word} (hbase : base ≠ 0) (ht : holds s t = some base) :
    ∃ index, base = blockAddr index := by
  rw [holds, Option.bind_eq_some_iff] at ht
  obtain ⟨info, hinfo, hstarted⟩ := ht
  rw [Option.ite_none_right_eq_some] at hstarted
  have heq : info.tlsBase = base := Option.some.inj hstarted.2
  rcases h.blocks t info hinfo with hzero | hindex
  · exact absurd (heq ▸ hzero) hbase
  · exact heq ▸ hindex

theorem Safe.of_drop {a : Act} (tid : ℤ) (hi : Inv s) (hmem : (step s a).rdram = s.rdram)
    (h : holds (step s a) = holds s ∨ holds (step s a) = Function.update (holds s) tid none) : Safe s a := by
  refine ⟨?_, fun t base _ ht => ?_, fun t base _ _ p _ _ => by rw [hmem]⟩
  · rcases h with h | h
    · rw [h]
      exact hi.distinct
    · rw [h]
      exact hi.distinct.drop
  · rcases h with h | h
    · exact .inl (by rw [h, ht])
    · by_cases htid : t = tid
      · exact .inr (by rw [h, htid, Function.update_self])
      · exact .inl (by rw [h, Function.update_of_ne htid, ht])

theorem safe_take_iff {a : Act} {block : Word} (hi : Inv s) (hblock : block ≠ 0)
    (h : holds (step s a) = Function.update (holds s) tid (some block))
    (hbefore : ∀ base, base ≠ 0 → holds s tid ≠ some base)
    (hcontent : (∀ u, holds s u ≠ some block) → ∀ t base, base ≠ 0 → holds s t = some base →
      ∀ p, base.toNat ≤ p → p < base.toNat + kTlsBlockSize.toNat → (step s a).rdram p = s.rdram p) :
    Safe s a ↔ ∀ u, holds s u ≠ some block := by
  constructor
  · intro hsafe u hu
    have hdistinct := hsafe.distinct
    rw [h, hi.distinct.take_iff hblock] at hdistinct
    refine hdistinct u (fun hut => ?_) hu
    exact hbefore block hblock (hut ▸ hu)
  · intro hfree
    refine ⟨?_, fun t base hbase ht => .inl ?_, hcontent hfree⟩
    · rw [h, hi.distinct.take_iff hblock]
      exact fun u _ => hfree u
    · have htid : t ≠ tid := fun heq => hbefore base hbase (heq ▸ ht)
      rw [h, Function.update_of_ne htid, ht]

theorem rdram_ensure : (ensureCurrentThreadInfo s tid).2.rdram = s.rdram := by
  rw [ensureCurrentThreadInfo]
  split
  · rfl
  · rfl

theorem rdram_onFiberExit : (onFiberExit s tid).rdram = s.rdram := by
  rw [onFiberExit]
  split
  · rfl
  · rfl

theorem safe_start_iff (hi : Inv s) (runnable created : Bool) :
    Safe s (.start tid runnable created) ↔ Meets s (.start tid runnable created) := by
  rcases startThread_cases s tid runnable created with
    heq | ⟨info, hinfo, hid, hrunnable, hcreated, hstarted, hdormant, heq⟩
  · -- nothing happens: there is no thread that can be started
    have hsafe : Safe s (.start tid runnable created) :=
      .of_drop tid hi (by rw [step, heq]) (.inl (by rw [step, heq]))
    refine ⟨fun _ info hinfo hid hrunnable hcreated hstarted hdormant _ => ?_, fun _ => hsafe⟩
    have hdone : startThread s tid runnable created =
        (KE_OK, { s with threads := s.threads.insert tid { info with started := true, dormant := false } }) := by
      have hnot : ¬(info.started = true ∨ ¬info.dormant = true) := by
        rw [hstarted, hdormant]
        decide
      rw [startThread, if_neg hid, hinfo]
      dsimp only
      rw [if_neg (not_not.2 hrunnable), if_neg hnot, if_neg (not_not.2 hcreated)]
    have hlookup : s.threads.lookup tid = some { info with started := true, dormant := false } := by
      rw [hdone] at heq
      have hthreads := congrArg State.threads heq
      dsimp only at hthreads
      rw [← hthreads, AList.lookup_insert]
    rw [hinfo] at hlookup
    have hsame := congrArg ThreadInfo.started (Option.some.inj hlookup)
    rw [hstarted] at hsame
    exact absurd hsame Bool.false_ne_true
  · have hnone : holds s tid = none := by
      rw [holds_some hinfo, hstarted, if_neg Bool.false_ne_true]
    have hholds : holds (step s (.start tid runnable created)) = Function.update (holds s) tid (some info.tlsBase) := by
      rw [step, heq, holds_insert (s := s) rfl, if_pos rfl]
    have hmem : (step s (.start tid runnable created)).rdram = s.rdram := by rw [step, heq]
    by_cases hbase : info.tlsBase = 0
    · -- a thread that brings nothing along
      rw [hbase] at hholds
      refine ⟨fun _ info' hinfo' _ _ _ _ _ hbase' => ?_, fun _ => ⟨?_, fun t base _ ht => .inl ?_,
        fun t base _ _ p _ _ => by rw [hmem]⟩⟩
      · rw [hinfo] at hinfo'
        exact absurd (Option.some.inj hinfo' ▸ hbase) hbase'
      · rw [hholds]
        exact hi.distinct.take_blank
      · have htid : t ≠ tid := by
          intro heq
          rw [heq, hnone] at ht
          exact absurd ht (Option.some_ne_none base).symm
        rw [hholds, Function.update_of_ne htid, ht]
    · rw [safe_take_iff hi hbase hholds (fun base _ => by rw [hnone]; exact (Option.some_ne_none base).symm)
        fun _ t base _ _ p _ _ => by rw [hmem]]
      constructor
      · intro hfree info' hinfo' _ _ _ _ _ _
        rw [hinfo] at hinfo'
        rw [← Option.some.inj hinfo']
        exact hfree
      · intro hmeets
        exact hmeets info hinfo hid hrunnable hcreated hstarted hdormant hbase

theorem safe_getTls_iff (hi : Inv s) (hp : Possible s (.getTls tid)) :
    Safe s (.getTls tid) ↔ Meets s (.getTls tid) := by
  rcases getThreadTLS_cases hp with ⟨heq, info, hinfo, hbase⟩ | ⟨hzero, ⟨info, hstarted, hblock, hinfo⟩, hother, hmem⟩
  · have hsafe : Safe s (.getTls tid) := .of_drop tid hi (by rw [step, heq]) (.inl (by rw [step, heq]))
    exact ⟨fun _ hzero => absurd (hzero info hinfo) hbase, fun _ => hsafe⟩
  · have hholds : holds (step s (.getTls tid)) = Function.update (holds s) tid (some (blockAddr s.tlsIndex)) := by
      funext u
      by_cases hu : u = tid
      · rw [hu, Function.update_self, step, holds_some hinfo, hstarted, if_pos rfl, hblock]
      · rw [Function.update_of_ne hu, step, holds, hother u hu, holds]
    have hbefore : ∀ base, base ≠ 0 → holds s tid ≠ some base := by
      intro base hbase hheld
      rw [holds, Option.bind_eq_some_iff] at hheld
      obtain ⟨info, hinfo, hheld⟩ := hheld
      rw [Option.ite_none_right_eq_some] at hheld
      exact hbase ((Option.some.inj hheld.2).symm.trans (hzero info hinfo))
    rw [safe_take_iff hi (blockAddr_ne_zero s.tlsIndex) hholds hbefore]
    · exact ⟨fun hfree _ => hfree, fun hmeets => hmeets hzero⟩
    · -- the block that is cleared is another one
      intro hfree t base hbase ht p hge hlt
      obtain ⟨index, hindex⟩ := hi.block_of_holds hbase ht
      have hne : blockAddr index ≠ blockAddr s.tlsIndex := by
        intro heq
        rw [hindex, heq] at ht
        exact hfree t ht
      have hsize : kTlsBlockSize.toNat = 256 := rfl
      have hapart := blocks_apart hne
      rw [hindex] at hge hlt
      have hout : ¬((blockAddr s.tlsIndex).toNat ≤ p ∧
          p < (blockAddr s.tlsIndex).toNat + (List.replicate kTlsBlockSize.toNat (0 : BitVec 8)).length) := by
        rw [List.length_replicate]
        omega
      rw [step, hmem, Bytes.copy, if_neg hout]

/-- **A call is safe just when no living thread holds the block that it gives.** -/
theorem safe_iff (hi : Inv s) (a : Act) (hp : Possible s a) : Safe s a ↔ Meets s a := by
  cases a with
  | create =>
    refine ⟨fun _ => trivial, fun _ => .of_drop 0 hi ?_ (.inl holds_createThread)⟩
    rw [step, createThread]
    split
    · rfl
    · rfl
  | start tid runnable created => exact safe_start_iff hi runnable created
  | exit tid =>
    refine ⟨fun _ => trivial, fun _ => .of_drop tid hi ?_ (.inr holds_exitThread)⟩
    rw [step, exitThread, rdram_onFiberExit, rdram_ensure]
  | exitDelete tid =>
    refine ⟨fun _ => trivial, fun _ => .of_drop tid hi ?_ (.inr holds_exitDeleteThread)⟩
    rw [step, exitDeleteThread, rdram_onFiberExit]
    exact rdram_ensure
  | terminate tid =>
    refine ⟨fun _ => trivial, fun _ => .of_drop tid hi ?_ holds_terminateThread⟩
    rw [step, terminateThread]
    split
    · rfl
    · split
      · rfl
      · exact rdram_onFiberExit
  | delete tid =>
    refine ⟨fun _ => trivial, fun _ => .of_drop tid hi ?_ (.inl holds_deleteThread)⟩
    rw [step, deleteThread]
    split
    · rfl
    · split
      · rfl
      · split
        · rfl
        · rfl
  | getTls tid => exact safe_getTls_iff hi hp

/-- The states that calls of threads that run lead to, when each call meets the condition. -/
inductive Reach : State → Prop
  | initial (rdram : Bytes.Memory) : Reach (.initial rdram)
  | step {s : State} (a : Act) (h : Reach s) (hp : Possible s a) (hmeets : Meets s a) : Reach (step s a)

theorem inv_of_reach (h : Reach s) : Inv s := by
  induction h with
  | initial rdram => exact Inv.initial rdram
  | step a _ hp hmeets ih => exact ⟨ih.blocks.step a hp, ((safe_iff ih a hp).2 hmeets).distinct⟩

/-- **Threads own their blocks** as long as no block is given that a living thread holds. -/
theorem own_blocks (h : Reach s) : Distinct 0 (holds s) ∧ ∀ a, Possible s a → (Safe s a ↔ Meets s a) :=
  ⟨(inv_of_reach h).distinct, fun a hp => safe_iff (inv_of_reach h) a hp⟩

/-! ### Instances -/

theorem own_blocks_one :
    Distinct 0 (holds (step (.initial fun _ => 0) (.getTls 1))) ∧ ∀ a, Possible (step (.initial fun _ => 0) (.getTls 1)) a →
      (Safe (step (.initial fun _ => 0) (.getTls 1)) a ↔ Meets (step (.initial fun _ => 0) (.getTls 1)) a) := by
  have hnone : ∀ tid, (State.initial fun _ => 0).threads.lookup tid = none := fun tid => AList.lookup_empty tid
  refine own_blocks (.step (.getTls 1) (.initial _) ?_ ?_)
  · intro info hinfo
    rw [hnone] at hinfo
    exact absurd hinfo (Option.some_ne_none info).symm
  · intro _ u
    rw [holds_none (hnone u)]
    exact (Option.some_ne_none _).symm

/-- The number behind `tid`. -/
def nextId (tid : ℤ) : ℤ := if 0xFF ≤ tid then 2 else tid + 1

theorem iterate_nextId {n : ℕ} (hn : n ≤ 0xFD) : nextId^[n] 2 = 2 + n := by
  induction n with
  | zero => rfl
  | succ n ih =>
    have hsum : ((n + 1 : ℕ) : ℤ) = n + 1 := Nat.cast_succ n
    rw [Function.iterate_succ_apply', ih (by omega), nextId, if_neg (by omega), hsum]
    omega

/-- So many threads that take a block, one after the other. -/
def visitors : ℕ → ℤ → List Act
  | 0, _ => []
  | n + 1, tid =>
    [.create, .start tid true true, .getTls tid, .exitDelete tid] ++ visitors n (nextId tid)

/-- Only the main thread is there, with the first block. -/
structure Alone (tid : ℤ) (index : Word) (s : State) : Prop where
  main : s.threads.lookup 1 = some ⟨true, false, kTlsPoolBase⟩
  others : ∀ u, u ≠ 1 → s.threads.lookup u = none
  next : s.nextThreadId = tid
  index : s.tlsIndex = index

namespace Alone

variable {index : Word}

section

variable (h : Alone tid index s)

include h

section

variable (hlow : 2 ≤ tid) (hhigh : tid ≤ 0xFF)

include hlow hhigh

theorem create :
    createThread s = (tid, { s with threads := s.threads.insert tid ⟨false, true, 0⟩, nextThreadId := nextId tid }) := by
  have hid : ¬(tid < 2 ∨ 0xFF < tid) := by omega
  have hfree : tid ∉ s.threads := AList.lookup_eq_none.1 (h.others tid (by omega))
  rw [createThread, findThreadId, h.next, if_neg hid, if_neg hfree]
  rfl

theorem start :
    step (step s .create) (.start tid true true) =
      { s with threads := (s.threads.insert tid ⟨false, true, 0⟩).insert tid ⟨true, false, 0⟩,
               nextThreadId := nextId tid } := by
  have hid : tid ≠ 0 := by omega
  rw [step, step, h.create hlow hhigh, startThread, if_neg hid, AList.lookup_insert]
  rfl

theorem getTls :
    ∃ threads : AList fun _ : ℤ => ThreadInfo,
      threads.lookup tid = some ⟨true, false, blockAddr index⟩ ∧ (∀ u, u ≠ tid → threads.lookup u = s.threads.lookup u) ∧
        (step (step (step s .create) (.start tid true true)) (.getTls tid)).threads = threads ∧
        (step (step (step s .create) (.start tid true true)) (.getTls tid)).nextThreadId = nextId tid ∧
        (step (step (step s .create) (.start tid true true)) (.getTls tid)).tlsIndex = index + 1 := by
  rw [h.start hlow hhigh, step, getThreadTLS, ensureCurrentThreadInfo, AList.lookup_insert]
  dsimp only
  rw [if_pos rfl]
  refine ⟨_, ?_, fun u hu => ?_, rfl, rfl, ?_⟩
  · rw [AList.lookup_insert, ← h.index]
    rfl
  · exact (AList.lookup_insert_ne hu).trans ((AList.lookup_insert_ne hu).trans (AList.lookup_insert_ne hu))
  · rw [← h.index]
    rfl

theorem visit :
    Alone (nextId tid) (index + 1)
      (step (step (step (step s .create) (.start tid true true)) (.getTls tid)) (.exitDelete tid)) := by
  obtain ⟨threads, hself, hother, hthreads, hnext, hindex⟩ := h.getTls hlow hhigh
  generalize step (step (step s .create) (.start tid true true)) (.getTls tid) = s' at hthreads hnext hindex
  have hgone : step s' (.exitDelete tid) = { s' with threads := s'.threads.erase tid } := by
    rw [step, exitDeleteThread, ensureCurrentThreadInfo, hthreads, hself]
    dsimp only
    rw [onFiberExit, hthreads, AList.lookup_erase]
  have hmain : (1 : ℤ) ≠ tid := by omega
  rw [hgone, hthreads]
  refine ⟨?_, fun u hu => ?_, hnext, hindex⟩
  · dsimp only
    rw [AList.lookup_erase_ne hmain, hother 1 hmain, h.main]
  · dsimp only
    by_cases htid : u = tid
    · rw [htid, AList.lookup_erase]
    · rw [AList.lookup_erase_ne htid, hother u htid, h.others u hu]

end

end

theorem nextId_range (hlow : 2 ≤ tid) (hhigh : tid ≤ 0xFF) : 2 ≤ nextId tid ∧ nextId tid ≤ 0xFF := by
  rw [nextId]
  split
  · omega
  · omega

theorem visits (h : Alone tid index s) (hlow : 2 ≤ tid) (hhigh : tid ≤ 0xFF) (n : ℕ) :
    Alone (nextId^[n] tid) (index + BitVec.ofNat 32 n) ((visitors n tid).foldl step s) := by
  induction n generalizing tid index s with
  | zero =>
    have hzero : index + BitVec.ofNat 32 0 = index := BitVec.add_zero index
    rw [hzero]
    exact h
  | succ n ih =>
    obtain ⟨hlow', hhigh'⟩ := nextId_range hlow hhigh
    have hsucc : index + BitVec.ofNat 32 (n + 1) = index + 1 + BitVec.ofNat 32 n := by
      rw [BitVec.add_assoc, Nat.add_comm n 1, BitVec.ofNat_add]
      rfl
    rw [hsucc]
    exact ih (h.visit hlow hhigh) hlow' hhigh'

/-- The 257th block is the first one again. -/
theorem shared (h : Alone 3 256 s) :
    ¬Distinct 0 (holds (step (step (step s .create) (.start 3 true true)) (.getTls 3))) := by
  intro hdistinct
  obtain ⟨threads, hself, hother, hthreads, -, -⟩ := h.getTls (by decide) (by decide)
  generalize step (step (step s .create) (.start 3 true true)) (.getTls 3) = s' at hdistinct hthreads
  have hmain : s'.threads.lookup 1 = some ⟨true, false, kTlsPoolBase⟩ := by
    rw [hthreads, hother 1 (by decide), h.main]
  have hthree : s'.threads.lookup 3 = some ⟨true, false, kTlsPoolBase⟩ := by
    rw [hthreads, hself]
    rfl
  exact absurd (hdistinct 1 3 kTlsPoolBase (by decide) (holds_some hmain) (holds_some hthree)) (by decide)

end Alone

/-- The main thread takes a block, then `n` threads do one after the other, and then one more. -/
def poolRun (n : ℕ) : List Act := .getTls 1 :: (visitors n 2 ++ [.create, .start 3 true true, .getTls 3])

theorem Alone.poolRun {n : ℕ} (hnext : nextId^[n] 2 = 3) (hindex : (1 : Word) + BitVec.ofNat 32 n = 256) :
    ¬Distinct 0 (holds ((poolRun n).foldl Tls.step (.initial fun _ => 0))) := by
  have halone : Alone 2 1 (Tls.step (.initial fun _ => 0) (.getTls 1)) := by
    refine ⟨by decide, fun u hu => ?_, by decide, by decide⟩
    exact (AList.lookup_insert_ne hu).trans ((AList.lookup_insert_ne hu).trans (AList.lookup_empty u))
  have hlast := halone.visits (by decide) (by decide) n
  rw [hnext, hindex] at hlast
  rw [Tls.poolRun, List.foldl_cons, List.foldl_append]
  exact hlast.shared

/-- The last thread is given the block of the main thread, although there were never more than two threads. -/
theorem pool_wraps : ¬Distinct 0 (holds ((poolRun 255).foldl step (.initial fun _ => 0))) := by
  refine Alone.poolRun ?_ (by decide)
  have hend : nextId^[253 + 1 + 1] 2 = 3 := by
    rw [Function.iterate_succ_apply', Function.iterate_succ_apply', iterate_nextId (le_refl 253)]
    decide
  exact hend

end Ps2Recomp.Tls
