import Ps2Recomp.Spec.IopCpu

/-!
# The budget of a run of the IOP

`IopCpu::doBranch` executes the delay slot by a call of `execOne`, which takes a branch there by
another one. The calls come to an end since behind the RAM there are zeros, which are no branches
(`execOne_isSome`), but they all belong to one round of the loop of `run`, which tests the budget
once. A run keeps the budget if and only if no taken branch has a taken branch in its delay slot
(`keepsBudget_iff`), where the count of 32 bits does not wrap.
-/

namespace Ps2Recomp.IopRun

open IopCpu
open Dma (iopRamSize iopRamOffset)

variable {σ : Type}

/-- Neither a trap handler nor I/O hooks. -/
def noHooks : IopHooks σ where
  ioRead _ t := (none, t)
  ioWrite _ _ t := t
  trap := none

section

variable {h : IopHooks σ} {s slot t : IopCpu σ} {target : Word} {d : ℕ}

theorem execOne_taken (ht : takenAt h s = some (target, slot)) :
    execOne h (d + 1) s = (execOne h d slot).map fun t => zeroed { t with pc := target } := by
  unfold takenAt at ht
  dsimp only at ht
  rw [execOne]
  dsimp only
  split at ht
  · split at ht
    · rename_i htaken
      cases ht
      rw [if_pos htaken]
    · cases ht
  · cases ht

theorem execOne_plain (ht : takenAt h s = none) : ∃ t, execOne h (d + 1) s = some t := by
  unfold takenAt at ht
  dsimp only at ht
  rw [execOne]
  dsimp only
  split at ht
  · split at ht
    · cases ht
    · rename_i htaken
      rw [if_neg htaken]
      exact ⟨_, rfl⟩
  · exact ⟨_, rfl⟩

theorem counted_taken (ht : takenAt h s = some (target, slot)) : counted h (d + 1) s = counted h d slot + 1 := by
  rw [counted, ht]

theorem counted_plain (ht : takenAt h s = none) : counted h (d + 1) s = 1 := by
  rw [counted, ht]

theorem one_le_counted : 1 ≤ counted h (d + 1) s := by
  cases ht : takenAt h s with
  | none => rw [counted_plain ht]
  | some p => exact (counted_taken ht).symm ▸ Nat.le_add_left 1 _

end

/-! ### The end of the calls -/

section

variable {s slot : IopCpu σ} {target : Word}

theorem jump_zero (pc : Word) : jump 0 pc s = none := by
  rfl

theorem busRead_beyond (hs : iopRamSize ≤ s.pc &&& 0x1FFFFFFF) : (busRead noHooks 4 s.pc s).1 = 0 := by
  unfold busRead
  rw [if_neg (by simpa using hs)]
  rfl

theorem W_pc (r : Reg) (v : Word) : (s.W r v).pc = s.pc := by
  unfold IopCpu.W
  split
  · rfl
  · rfl

theorem takenAt_pc (ht : takenAt noHooks s = some (target, slot)) :
    s.pc &&& 0x1FFFFFFF < iopRamSize ∧ slot.pc = s.pc + 4 := by
  unfold takenAt at ht
  dsimp only at ht
  split at ht
  · rename_i j hj
    constructor
    · by_contra hs
      rw [busRead_beyond (by simpa using hs), jump_zero] at hj
      cases hj
    · split at ht
      · cases ht
        split
        · exact W_pc _ _
        · rfl
      · cases ht
  · cases ht

/-- The addresses up to the end of the RAM get fewer from each branch to its delay slot. -/
theorem below_next {pc : Word} (hpc : pc &&& 0x1FFFFFFF < iopRamSize) :
    iopRamSize.toNat - ((pc + 4) &&& 0x1FFFFFFF).toNat < iopRamSize.toNat - (pc &&& 0x1FFFFFFF).toNat := by
  have hmask : ∀ x : Word, (x &&& 0x1FFFFFFF).toNat = x.toNat % 2 ^ 29 := by
    intro x
    rw [BitVec.toNat_and]
    exact Nat.and_two_pow_sub_one_eq_mod _ 29
  have hsize : iopRamSize.toNat = 0x200000 := rfl
  rw [BitVec.lt_def, hmask, hsize] at hpc
  have hnext : (pc + 4).toNat = (pc.toNat + 4) % 2 ^ 32 := BitVec.toNat_add pc 4
  rw [hmask, hmask, hsize, hnext]
  omega

theorem execOne_isSome_of_lt : ∀ (depth : ℕ) (s : IopCpu σ),
    iopRamSize.toNat - (s.pc &&& 0x1FFFFFFF).toNat < depth → ∃ t, execOne noHooks depth s = some t := by
  intro depth
  induction depth with
  | zero =>
    intro s hs
    exact absurd hs (Nat.not_lt_zero _)
  | succ depth ih =>
    intro s hs
    cases ht : takenAt noHooks s with
    | none => exact execOne_plain ht
    | some p =>
      obtain ⟨hpc, hslot⟩ := takenAt_pc ht
      have hbelow := below_next hpc
      rw [← hslot] at hbelow
      obtain ⟨t, hexec⟩ := ih p.2 (by omega)
      exact ⟨_, by rw [execOne_taken ht, hexec]; rfl⟩

/-- **An instruction ends**, whatever the delay slots behind it hold. -/
theorem execOne_isSome (s : IopCpu σ) : ∃ t, execOne noHooks slotDepth s = some t :=
  execOne_isSome_of_lt slotDepth s (Nat.lt_succ_of_le (Nat.sub_le _ _))

end

/-! ### The budget -/

variable (haltPc : Option Word) (maxInstr : Word) (s₀ : IopCpu σ)

/-- The loop executes an instruction at the state `s`. -/
def GoesOn (s : IopCpu σ) (retired : ℕ) : Prop :=
  BitVec.ofNat 32 retired < maxInstr ∧ haltPc ≠ some s.pc

/-- The states that the loop comes to, with the number of instructions retired. -/
inductive Comes : IopCpu σ → ℕ → Prop
  | start : Comes { s₀ with halted := false } 0
  | next {s t : IopCpu σ} {c : ℕ} : Comes s c → GoesOn haltPc maxInstr s c →
      execOne noHooks slotDepth s = some t → t.halted = false → Comes t (c + counted noHooks slotDepth s)

/-- What is asked of a run. -/
structure KeepsBudget : Prop where
  ends : ∃ fuel t c, run noHooks haltPc maxInstr fuel s₀ = some (t, c) ∧ c ≤ maxInstr.toNat + 1
  slots : ∀ s c, Comes haltPc maxInstr s₀ s c → GoesOn haltPc maxInstr s c →
    ∀ target slot, takenAt noHooks s = some (target, slot) →
      counted noHooks slotDepth s = 2 ∧ ∀ t, execOne noHooks slotDepth s = some t → t.pc = target

/-- No taken branch that the loop executes has a taken branch in its delay slot. -/
def PlainSlots : Prop :=
  ∀ s c, Comes haltPc maxInstr s₀ s c → GoesOn haltPc maxInstr s c →
    ∀ target slot, takenAt noHooks s = some (target, slot) → takenAt noHooks slot = none

variable {haltPc : Option Word} {maxInstr : Word} {s₀ : IopCpu σ}

theorem counted_slot {s slot : IopCpu σ} {target : Word} (ht : takenAt noHooks s = some (target, slot)) :
    counted noHooks slotDepth s = 2 ↔ takenAt noHooks slot = none := by
  rw [slotDepth, counted_taken ht]
  have hsize : iopRamSize.toNat = 0x1FFFFE + 1 + 1 := rfl
  rw [hsize]
  cases hslot : takenAt noHooks slot with
  | none =>
    rw [counted_plain hslot]
    exact ⟨fun _ => rfl, fun _ => rfl⟩
  | some p =>
    rw [counted_taken hslot]
    have h1 := one_le_counted (h := noHooks) (s := p.2) (d := 0x1FFFFE)
    constructor
    · intro h2
      omega
    · intro h2
      cases h2

theorem target_reached {s slot t : IopCpu σ} {target : Word} (ht : takenAt noHooks s = some (target, slot))
    (hexec : execOne noHooks slotDepth s = some t) : t.pc = target := by
  rw [slotDepth, execOne_taken ht, Option.map_eq_some_iff] at hexec
  obtain ⟨u, -, rfl⟩ := hexec
  rfl

variable {c : ℕ}

theorem counted_le {s : IopCpu σ} (hp : PlainSlots haltPc maxInstr s₀) (hs : Comes haltPc maxInstr s₀ s c)
    (hg : GoesOn haltPc maxInstr s c) : counted noHooks slotDepth s ≤ 2 := by
  cases ht : takenAt noHooks s with
  | none =>
    rw [slotDepth, counted_plain ht]
    exact Nat.le_succ 1
  | some p => exact ((counted_slot ht).2 (hp s c hs hg p.1 p.2 ht)).le

/-- While the count does not wrap, the loop starts an instruction within the budget only. -/
theorem lt_of_goesOn {s : IopCpu σ} (hg : GoesOn haltPc maxInstr s c) (hc : c < 2 ^ 32) : c < maxInstr.toNat := by
  have hlt := BitVec.lt_def.1 hg.1
  rwa [BitVec.toNat_ofNat, Nat.mod_eq_of_lt hc] at hlt

section

variable (hwrap : maxInstr = 0xFFFFFFFF →
  ∀ s c, Comes haltPc maxInstr s₀ s c → GoesOn haltPc maxInstr s c → c ≠ 2 ^ 32)

include hwrap

theorem lt_of_comes {s : IopCpu σ} (hs : Comes haltPc maxInstr s₀ s c)
    (hg : GoesOn haltPc maxInstr s c) (hle : c ≤ maxInstr.toNat + 1) : c < maxInstr.toNat := by
  have hmax := maxInstr.isLt
  rcases Nat.lt_or_ge c (2 ^ 32) with hc | hc
  · exact lt_of_goesOn hg hc
  · have heq : maxInstr = 0xFFFFFFFF := BitVec.eq_of_toNat_eq (show maxInstr.toNat = 2 ^ 32 - 1 by omega)
    exact absurd (show c = 2 ^ 32 by omega) (hwrap heq s c hs hg)

variable (hp : PlainSlots haltPc maxInstr s₀)

include hp

theorem comes_le {s : IopCpu σ} (hs : Comes haltPc maxInstr s₀ s c) : c ≤ maxInstr.toNat + 1 := by
  induction hs with
  | start => exact Nat.zero_le _
  | @next s t c hs hg _ _ ih =>
    have hlt := lt_of_comes hwrap hs hg ih
    have hle := counted_le hp hs hg
    omega

/-- Each round retires an instruction at least. -/
theorem runLoop_ends : ∀ (fuel : ℕ) (s : IopCpu σ) (c : ℕ), Comes haltPc maxInstr s₀ s c →
    maxInstr.toNat + 1 < fuel + c →
    ∃ t c', runLoop noHooks haltPc maxInstr fuel s c = some (t, c') ∧ c' ≤ maxInstr.toNat + 1 := by
  intro fuel
  induction fuel with
  | zero =>
    intro s c hs hfuel
    have hle := comes_le hwrap hp hs
    omega
  | succ fuel ih =>
    intro s c hs hfuel
    have hle := comes_le hwrap hp hs
    unfold runLoop
    split
    · rename_i hlt
      split
      · exact ⟨_, c, rfl, hle⟩
      · rename_i hpc
        obtain ⟨t, hexec⟩ := execOne_isSome s
        rw [hexec]
        dsimp only
        cases ht : t.halted with
        | true =>
          have hc := lt_of_comes hwrap hs ⟨hlt, hpc⟩ hle
          have hcounted := counted_le hp hs ⟨hlt, hpc⟩
          exact ⟨t, _, rfl, by omega⟩
        | false =>
          have hcounted := one_le_counted (h := noHooks) (s := s) (d := iopRamSize.toNat)
          exact ih t _ (.next hs ⟨hlt, hpc⟩ hexec ht) (by rw [slotDepth]; omega)
    · exact ⟨s, c, rfl, hle⟩

end

/-- A run that ends has retired what it comes to. -/
theorem comes_ends {fuel : ℕ} {r : IopCpu σ × ℕ} (hend : run noHooks haltPc maxInstr fuel s₀ = some r) {s : IopCpu σ}
    (hs : Comes haltPc maxInstr s₀ s c) : ∃ fuel, runLoop noHooks haltPc maxInstr fuel s c = some r := by
  induction hs with
  | start => exact ⟨fuel, hend⟩
  | @next s t c _ hg hexec ht ih =>
    obtain ⟨fuel, hloop⟩ := ih
    cases fuel with
    | zero => cases hloop
    | succ fuel =>
      unfold runLoop at hloop
      rw [if_pos hg.1, if_neg hg.2, hexec] at hloop
      dsimp only at hloop
      rw [ht] at hloop
      exact ⟨fuel, hloop⟩

theorem le_of_runLoop : ∀ {fuel : ℕ} {s t : IopCpu σ} {c c' : ℕ},
    runLoop noHooks haltPc maxInstr fuel s c = some (t, c') → c ≤ c' := by
  intro fuel
  induction fuel with
  | zero =>
    intro s t c c' hloop
    cases hloop
  | succ fuel ih =>
    intro s t c c' hloop
    unfold runLoop at hloop
    split at hloop
    · split at hloop
      · cases hloop
        exact le_refl c
      · split at hloop
        · split at hloop
          · cases hloop
            exact Nat.le_add_right c _
          · exact (Nat.le_add_right c _).trans (ih hloop)
        · cases hloop
    · cases hloop
      exact le_refl c

theorem lt_of_runLoop {fuel : ℕ} {s t : IopCpu σ} {c c' : ℕ} (hg : GoesOn haltPc maxInstr s c)
    (hloop : runLoop noHooks haltPc maxInstr fuel s c = some (t, c')) : c < c' := by
  have hcounted := one_le_counted (h := noHooks) (s := s) (d := iopRamSize.toNat)
  rw [← slotDepth] at hcounted
  cases fuel with
  | zero => cases hloop
  | succ fuel =>
    unfold runLoop at hloop
    rw [if_pos hg.1, if_neg hg.2] at hloop
    split at hloop
    · split at hloop
      · cases hloop
        omega
      · have hle := le_of_runLoop hloop
        omega
    · cases hloop

/-- **A run keeps its budget if and only if no taken branch has a taken branch in its delay slot**, and with
the largest budget no instruction starts when the count has wrapped. -/
theorem keepsBudget_iff (haltPc : Option Word) (maxInstr : Word) (s₀ : IopCpu σ) :
    KeepsBudget haltPc maxInstr s₀ ↔ PlainSlots haltPc maxInstr s₀ ∧
      (maxInstr = 0xFFFFFFFF → ∀ s c, Comes haltPc maxInstr s₀ s c → GoesOn haltPc maxInstr s c → c ≠ 2 ^ 32) := by
  constructor
  · rintro ⟨⟨fuel, t, c', hend, hc'⟩, hslots⟩
    constructor
    · intro s c hs hg target slot ht
      exact (counted_slot ht).1 (hslots s c hs hg target slot ht).1
    · intro hmax s c hs hg hc
      obtain ⟨fuel, hloop⟩ := comes_ends hend hs
      have hlt := lt_of_runLoop hg hloop
      have hnat : maxInstr.toNat = 2 ^ 32 - 1 := congrArg BitVec.toNat hmax
      omega
  · rintro ⟨hp, hwrap⟩
    constructor
    · obtain ⟨t, c, hend, hc⟩ := runLoop_ends hwrap hp (maxInstr.toNat + 2) _ 0 .start (by omega)
      exact ⟨_, t, c, hend, hc⟩
    · intro s c hs hg target slot ht
      exact ⟨(counted_slot ht).2 (hp s c hs hg target slot ht), fun t hexec => target_reached ht hexec⟩

/-- `beq $0, $0` at 0 and at 4. -/
def twoBranches : IopCpu Unit where
  gpr _ := 0
  hi := 0
  lo := 0
  pc := 0
  cop0 _ := 0
  halted := false
  ram i := if i = 3 ∨ i = 7 then 0x10 else 0
  hooked := ()

/-- The run retires three instructions with a budget of one. -/
theorem twoBranches_exceeds :
    ¬KeepsBudget none 1 twoBranches ∧ ∃ t, run noHooks none 1 2 twoBranches = some (t, 3) := by
  have h0 : takenAt noHooks twoBranches = some (4, { twoBranches with pc := 4 }) := rfl
  have h4 : takenAt noHooks { twoBranches with pc := 4 } = some (8, { twoBranches with pc := 8 }) := rfl
  have h8 : takenAt noHooks { twoBranches with pc := 8 } = none := rfl
  constructor
  · intro h
    have hslot := (counted_slot h0).1 (h.slots twoBranches 0 .start ⟨by decide, nofun⟩ _ _ h0).1
    rw [h4] at hslot
    cases hslot
  · obtain ⟨t, ht⟩ := execOne_plain (d := 0x1FFFFE) h8
    have hexec : execOne noHooks slotDepth twoBranches = some (zeroed { zeroed { t with pc := 8 } with pc := 4 }) := by
      rw [slotDepth, execOne_taken h0, show iopRamSize.toNat = 0x1FFFFE + 1 + 1 from rfl, execOne_taken h4, ht]
      rfl
    have hcounted : counted noHooks slotDepth twoBranches = 3 := by
      rw [slotDepth, counted_taken h0, show iopRamSize.toNat = 0x1FFFFE + 1 + 1 from rfl, counted_taken h4,
        counted_plain h8]
    have hstart : { twoBranches with halted := false } = twoBranches := rfl
    rw [run, hstart, runLoop, if_pos (by decide), if_neg nofun, hexec, hcounted]
    dsimp only
    split
    · exact ⟨_, rfl⟩
    · exact ⟨_, rfl⟩

end Ps2Recomp.IopRun
