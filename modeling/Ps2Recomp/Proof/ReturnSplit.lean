import Ps2Recomp.Spec.Core
import Ps2Recomp.Spec.FunctionScan

/-!
# Splitting after returns

The last pass of `ScanJalTargetsFallback` adds a start after a `jr $ra` when no branch of
the program targets the instruction after the delay slot. Where that instruction is
padding, the pass moves the start past the nops and asks again about the address it ends
on; the nops it moved over are never asked about.

* `mem_branchTargets`: the set the pass consults is exactly the set of branch targets.
* `mem_added`: what a run of the pass adds, by the state each word was read in.
* `added_avoid_targets_iff`: no branch targets an address from the boundary to the added
  start exactly when no boundary that the pass splits has a branch into its padding.
-/

namespace Ps2Recomp.FunctionScan

variable {sections : List Section} {entry : Word}

/-! ## Branch targets -/

/-- The word is a branch or jump to `t`, by the instruction set. -/
def BranchesTo (w : ScannedWord) (t : Word) : Prop :=
  let op := Opcode.ofBits (w.raw.extractLsb' 26 6)
  (op ∈ [.j, .jal] ∧ t = absoluteTarget w.pc w.raw) ∨
  (op ∈ [.regimm, .beq, .bne, .blez, .bgtz, .beql, .bnel, .blezl, .bgtzl] ∧
    t = relativeTarget w.pc w.raw) ∨
  (op ∈ [.cop0, .cop1, .cop2, .cop3] ∧ regField w.raw 21 = copBc ∧ t = relativeTarget w.pc w.raw)

/-- Some word of the code sections branches to `t`. -/
def Targeted (sections : List Section) (t : Word) : Prop :=
  ∃ w ∈ codeWords sections, BranchesTo w t

theorem opcodeOf_eq (raw : Word) : opcodeOf raw = (raw.extractLsb' 26 6).setWidth 32 := by
  have hmask : (0x3F : Word).toNat = 2 ^ 6 - 1 := rfl
  apply BitVec.eq_of_toNat_eq
  rw [opcodeOf, BitVec.toNat_and, hmask, Nat.and_two_pow_sub_one_eq_mod, BitVec.toNat_setWidth,
    BitVec.extractLsb'_toNat, BitVec.toNat_ushiftRight]
  omega

theorem formatField_iff (raw : Word) : (raw >>> 21) &&& 0x1F = 8 ↔ regField raw 21 = copBc := by
  have hmask : (0x1F : Word).toNat = 2 ^ 5 - 1 := rfl
  have hfield : ((raw >>> 21) &&& 0x1F).toNat = (regField raw 21).val := by
    rw [BitVec.toNat_and, hmask, Nat.and_two_pow_sub_one_eq_mod, BitVec.toNat_ushiftRight, regField]
    exact (BitVec.extractLsb'_toNat ..).symm
  constructor
  · intro h
    apply Fin.ext
    rw [← hfield, h]
    rfl
  · intro h
    apply BitVec.eq_of_toNat_eq
    rw [hfield, h]
    rfl

theorem absolute_iff : ∀ op : BitVec 6, (op.setWidth 32 = (2 : Word) ∨ op.setWidth 32 = (3 : Word)) ↔
    Opcode.ofBits op ∈ [.j, .jal] := by decide +kernel

theorem relative_iff : ∀ op : BitVec 6,
    (op.setWidth 32 = (1 : Word) ∨ ((4 : Word) ≤ op.setWidth 32 ∧ op.setWidth 32 ≤ (7 : Word)) ∨
      ((0x14 : Word) ≤ op.setWidth 32 ∧ op.setWidth 32 ≤ (0x17 : Word))) ↔
    Opcode.ofBits op ∈ [.regimm, .beq, .bne, .blez, .bgtz, .beql, .bnel, .blezl, .bgtzl] := by
  decide +kernel

theorem coprocessor_iff : ∀ op : BitVec 6, (op.setWidth 32 = (0x10 : Word) ∨ op.setWidth 32 = (0x11 : Word) ∨
      op.setWidth 32 = (0x12 : Word) ∨ op.setWidth 32 = (0x13 : Word)) ↔
    Opcode.ofBits op ∈ [.cop0, .cop1, .cop2, .cop3] := by decide +kernel

variable {w : ScannedWord}

theorem branchTargetOf_eq_some {t : Word} : branchTargetOf w = some t ↔ BranchesTo w t := by
  unfold branchTargetOf BranchesTo
  simp only [opcodeOf_eq, absolute_iff, relative_iff, coprocessor_iff, formatField_iff]
  generalize Opcode.ofBits (w.raw.extractLsb' 26 6) = op
  -- the three groups of opcodes are disjoint, so the order of the tests does not matter
  have hdisjoint : ∀ op : Opcode, op ∈ [Opcode.j, .jal] →
      op ∉ [Opcode.regimm, .beq, .bne, .blez, .bgtz, .beql, .bnel, .blezl, .bgtzl] ∧
        op ∉ [Opcode.cop0, .cop1, .cop2, .cop3] := by
    intro op hop
    simp only [List.mem_cons, List.not_mem_nil, or_false] at hop
    rcases hop with rfl | rfl <;> decide
  have hdisjoint' : ∀ op : Opcode,
      op ∈ [Opcode.regimm, .beq, .bne, .blez, .bgtz, .beql, .bnel, .blezl, .bgtzl] →
        op ∉ [Opcode.cop0, .cop1, .cop2, .cop3] := by
    intro op hop
    simp only [List.mem_cons, List.not_mem_nil, or_false] at hop
    rcases hop with rfl | rfl | rfl | rfl | rfl | rfl | rfl | rfl | rfl <;> decide
  by_cases habs : op ∈ [Opcode.j, .jal]
  · obtain ⟨hrel, hcop⟩ := hdisjoint op habs
    rw [if_pos habs, Option.some.injEq]
    simp only [habs, hrel, hcop, true_and, false_and, or_false]
    exact eq_comm
  rw [if_neg habs]
  by_cases hrel : op ∈ [Opcode.regimm, .beq, .bne, .blez, .bgtz, .beql, .bnel, .blezl, .bgtzl]
  · have hcop := hdisjoint' op hrel
    rw [if_pos hrel, Option.some.injEq]
    simp only [habs, hrel, hcop, true_and, false_and, or_false, false_or]
    exact eq_comm
  rw [if_neg hrel]
  simp only [habs, hrel, false_and, false_or]
  split
  · rename_i hcop
    rw [Option.some.injEq]
    exact ⟨fun h => ⟨hcop.1, hcop.2, h.symm⟩, fun h => h.2.2.symm⟩
  · rename_i hcop
    exact ⟨fun h => (nomatch h), fun h => absurd ⟨h.1, h.2.1⟩ hcop⟩

theorem mem_branchTargets {t : Word} : t ∈ branchTargets sections ↔ Targeted sections t := by
  rw [branchTargets, List.mem_filterMap]
  exact exists_congr fun w => and_congr_right fun _ => branchTargetOf_eq_some

/-! ## One word, and a run -/

/-- Neither a start nor the target of a branch. -/
def Unclaimed (sections : List Section) (starts : List Word) (a : Word) : Prop :=
  a ∉ starts ∧ ¬Targeted sections a

/-- The pass splits after the word: it is a `jr $ra` whose next instruction is unclaimed, and
so is the first instruction after the padding. -/
structure SplitsAt (sections : List Section) (starts : List Word) (w : ScannedWord) (s : Word) :
    Prop where
  isReturn : w.raw = jrRa
  aligned : (w.pc + 8) &&& 3 = 0
  boundary : Unclaimed sections starts (w.pc + 8)
  padding : paddingEnd sections (w.pc + 8) = some s
  start : Unclaimed sections starts s

theorem splitAt_eq_some {starts : List Word} {s : Word} :
    splitAt sections starts w = some s ↔ SplitsAt sections starts w s := by
  unfold splitAt
  dsimp only
  constructor
  · intro h
    split at h
    · cases h
    rename_i hraw
    split at h
    · cases h
    rename_i hclaimed
    split at h
    · cases h
    rename_i s' hpad
    split at h
    · cases h
    rename_i hend
    cases h
    push Not at hraw hclaimed hend
    exact { isReturn := hraw, aligned := hclaimed.1
            boundary := ⟨hclaimed.2.1, mt mem_branchTargets.2 hclaimed.2.2⟩
            padding := hpad
            start := ⟨hend.1, mt mem_branchTargets.2 hend.2⟩ }
  · intro h
    have hclaimed : ¬((w.pc + 8) &&& 3 ≠ 0 ∨ w.pc + 8 ∈ starts ∨ w.pc + 8 ∈ branchTargets sections) := by
      rw [mem_branchTargets]
      exact fun hc => hc.elim (fun hal => hal h.aligned) (fun hc => hc.elim h.boundary.1 h.boundary.2)
    have hend : ¬(s ∈ starts ∨ s ∈ branchTargets sections) := by
      rw [mem_branchTargets]
      exact fun hc => hc.elim h.start.1 h.start.2
    rw [if_neg (not_not.2 h.isReturn), if_neg hclaimed, h.padding]
    exact if_neg hend

theorem mem_step_added {pass : Pass} {p : Word × Word} :
    p ∈ (pass.step sections w).added ↔ p ∈ pass.added ∨ (p.1 = w.pc ∧ SplitsAt sections pass.starts w p.2) := by
  unfold Pass.step
  cases h : splitAt sections pass.starts w with
  | none =>
    have hno : ¬SplitsAt sections pass.starts w p.2 := by
      intro hs
      rw [splitAt_eq_some.2 hs] at h
      cases h
    exact ⟨Or.inl, fun hp => hp.elim id (fun hs => absurd hs.2 hno)⟩
  | some s =>
    have hs := splitAt_eq_some.1 h
    have hlast : p = (w.pc, s) ↔ p.1 = w.pc ∧ SplitsAt sections pass.starts w p.2 := by
      constructor
      · rintro rfl
        exact ⟨rfl, hs⟩
      · rintro ⟨hpc, hp⟩
        have heq : p.2 = s := Option.some.inj (hp.padding.symm.trans hs.padding)
        exact Prod.ext hpc heq
    change p ∈ pass.added ++ [(w.pc, s)] ↔ _
    rw [List.mem_append, List.mem_singleton, hlast]

theorem returnPass_snoc (words : List ScannedWord) (w : ScannedWord) :
    returnPass sections entry (words ++ [w]) = (returnPass sections entry words).step sections w := by
  simp only [returnPass, List.foldl_append, List.foldl_cons, List.foldl_nil]

/-- What a run adds: each start is split at a word, in the state that the words before it left. -/
theorem mem_added {words : List ScannedWord} {p : Word × Word} :
    p ∈ (returnPass sections entry words).added ↔
      ∃ before w after, words = before ++ w :: after ∧ p.1 = w.pc ∧
        SplitsAt sections (returnPass sections entry before).starts w p.2 := by
  induction words using List.reverseRecOn with
  | nil =>
    constructor
    · intro h
      cases h
    · rintro ⟨before, w, after, h, -⟩
      simp at h
  | append_singleton words v ih =>
    rw [returnPass_snoc, mem_step_added, ih]
    constructor
    · rintro (⟨before, w, after, rfl, hp⟩ | hp)
      · exact ⟨before, w, after ++ [v], by simp, hp⟩
      · exact ⟨words, v, [], rfl, hp⟩
    · rintro ⟨before, w, after, h, hp⟩
      -- the split is at the last word or before it
      rcases List.eq_nil_or_concat after with rfl | ⟨after, u, rfl⟩
      · obtain ⟨rfl, hw⟩ := List.append_inj' h rfl
        cases hw
        exact .inr hp
      · have h' : words ++ [v] = (before ++ w :: after) ++ [u] := by simpa using h
        exact .inl ⟨before, w, after, (List.append_inj' h' rfl).1, hp⟩

/-! ## The pass as a whole -/

/-- **Return boundaries cut at no branch target** exactly when no split boundary has a branch into
its padding. -/
theorem added_avoid_targets_iff (sections : List Section) (entry : Word) :
    (∀ p ∈ (returnPass sections entry (codeWords sections)).added, ∀ t, p.1 + 8 ≤ t → t ≤ p.2 → ¬Targeted sections t) ↔
    ∀ before w after s, codeWords sections = before ++ w :: after →
      SplitsAt sections (returnPass sections entry before).starts w s →
      ∀ t, w.pc + 8 < t → t < s → ¬Targeted sections t := by
  constructor
  · intro h before w after s hwords hs t hlo hhi
    have hadded : (w.pc, s) ∈ (returnPass sections entry (codeWords sections)).added :=
      mem_added.2 ⟨before, w, after, hwords, rfl, hs⟩
    exact h (w.pc, s) hadded t (BitVec.le_of_lt hlo) (BitVec.le_of_lt hhi)
  · intro h p hp t hlo hhi
    obtain ⟨before, w, after, hwords, hpc, hs⟩ := mem_added.1 hp
    rw [hpc] at hlo
    -- the pass itself asks about the two ends
    by_cases hfirst : t = w.pc + 8
    · rw [hfirst]
      exact hs.boundary.2
    by_cases hlast : t = p.2
    · rw [hlast]
      exact hs.start.2
    refine h before w after p.2 hwords hs t ?_ ?_
    · exact BitVec.lt_of_le_ne hlo (Ne.symm hfirst)
    · exact BitVec.lt_of_le_ne hhi hlast

/-- `beqz $a0, 0x1014` over a return and its padding; the nop it branches to is the last of
the padding before the function's tail. -/
def earlyReturn : List Word :=
  [0x10800004, 0, 0x03E00008, 0, 0, 0, 0x24020001, 0x03E00008, 0]

/-- A code section at `0x1000` with the given words. -/
def codeAt1000 (words : List Word) : Section where
  address := 0x1000
  size := BitVec.ofNat 32 (4 * words.length)
  isCode := true
  data := some (fun offset =>
    ((words.getD (offset.toNat / 4) 0) >>> (8 * (offset.toNat % 4))).setWidth 8)

/-- The tail becomes a function of its own, and the branch to the nop before it stays behind. -/
theorem branch_into_padding :
    ¬∀ (sections : List Section) (entry : Word),
      ∀ p ∈ (returnPass sections entry (codeWords sections)).added,
        ∀ t, p.1 + 8 ≤ t → t ≤ p.2 → ¬Targeted sections t := by
  intro h
  have hadded : (0x1008, 0x1018) ∈ (returnPass [codeAt1000 earlyReturn] 0x1000
      (codeWords [codeAt1000 earlyReturn])).added := by decide +kernel
  have htarget : (0x1014 : Word) ∈ branchTargets [codeAt1000 earlyReturn] := by decide +kernel
  exact h _ _ _ hadded 0x1014 (by decide) (by decide) (mem_branchTargets.1 htarget)

end Ps2Recomp.FunctionScan
