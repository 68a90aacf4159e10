import Ps2Recomp.Proof.Blocks

/-!
# Targets are decoded

The entry points of a function come from two passes: its own analysis, and the targets
that `discoverAdditionalEntryPoints` assigns to it as an owner. Both only name addresses
in its range that were decoded.

* `isLocal_entryPoints`: the analysis only promotes local addresses.
* `mem_assignments_local`: an assigned target is local to its owner.
* `isLocal_of_entryPoint`: so every entry point of an emitted function is local.
* `decoded_nodup`: a function is decoded at distinct addresses.
-/

namespace Ps2Recomp

/-! ## The analysis of one function -/

namespace Analyzer

variable {az : Analyzer} {fn : Function} {instructions : List Instruction}
  {fns fns' : Option (List Function)} {a : Word}

theorem isLocal_iff : isLocal fn instructions a = true ↔
    fn.start ≤ a ∧ a < fn.endAddr ∧ a ∈ instructions.map (·.address) := by
  simp [isLocal, and_assoc]

theorem mem_queueResume : a ∈ queueResumeEntryTarget fn instructions t ↔ a = t ∧ isLocal fn instructions t = true := by
  unfold queueResumeEntryTarget
  split <;> simp_all

theorem isLocal_queueLoop {t source : Word} (h : a ∈ queueLoopResumeEntryTarget fn instructions t source) :
    isLocal fn instructions a = true := by
  unfold queueLoopResumeEntryTarget at h
  split at h
  · simp at h
  · obtain ⟨rfl, hl⟩ := mem_queueResume.1 h
    exact hl

theorem isLocal_branchResume {inst : Instruction} (h : a ∈ branchResume fn instructions inst) :
    isLocal fn instructions a = true := by
  unfold branchResume at h
  rcases List.mem_append.1 h with h | h
  · split at h
    · split at h
      · exact isLocal_queueLoop h
      · simp at h
    · simp at h
  · split at h
    · obtain ⟨rfl, hl⟩ := mem_queueResume.1 h
      exact hl
    · simp at h

theorem isLocal_jalrResume {inst : Instruction} (h : a ∈ jalrResume fn instructions inst) :
    isLocal fn instructions a = true := by
  unfold jalrResume at h
  split at h
  · obtain ⟨rfl, hl⟩ := mem_queueResume.1 h
    exact hl
  · simp at h

theorem isLocal_tableTargets {jr : Instruction} (h : a ∈ az.tableTargets fn instructions jr) :
    isLocal fn instructions a = true := by
  unfold tableTargets at h
  split at h
  · simp at h
  · dsimp only at h
    split at h
    · rw [mem_sortUnique, List.mem_filter] at h
      exact h.2
    · split at h
      · simp only [List.mem_dedup, List.mem_filter] at h
        exact h.2
      · simp at h

theorem isLocal_resumeEntryPoints (h : a ∈ (az.analyze fn instructions fns).resumeEntryPoints) :
    isLocal fn instructions a = true := by
  simp only [analyze, List.mem_append, List.mem_flatMap] at h
  rcases h with ⟨i, -, h⟩ | ⟨i, -, h⟩
  · exact isLocal_branchResume h
  · exact isLocal_jalrResume h

theorem isLocal_fallbackEntries (h : a ∈ az.fallbackEntries fn instructions) : isLocal fn instructions a = true := by
  unfold fallbackEntries at h
  split at h
  · exact (List.mem_filter.1 h).2
  · simp at h

/-- **The analysis only promotes local addresses.** -/
theorem isLocal_entryPoints (h : a ∈ (az.analyze fn instructions fns).entryPoints) :
    isLocal fn instructions a = true := by
  simp only [analyze, List.mem_append, List.mem_flatMap] at h
  rcases h with ((⟨i, -, h⟩ | (⟨i, -, h⟩ | ⟨i, -, h⟩)) | ⟨i, -, h⟩) | h
  · unfold branchEntry at h
    split at h
    · split at h
      · rw [List.mem_singleton] at h
        subst h; assumption
      · simp at h
    · simp at h
  · exact isLocal_branchResume h
  · exact isLocal_jalrResume h
  · exact isLocal_tableTargets h
  · exact isLocal_fallbackEntries h

theorem mem_entryPoints_of_table {p : Word × List Word} (hp : p ∈ (az.analyze fn instructions fns).jumpTableTargets)
    (ha : a ∈ p.2) : a ∈ (az.analyze fn instructions fns).entryPoints := by
  simp only [analyze, List.mem_reverse, List.mem_filter, List.mem_map] at hp
  obtain ⟨⟨jr, hjr, rfl⟩, -⟩ := hp
  simp only [analyze, List.mem_append, List.mem_flatMap]
  exact .inl (.inr ⟨jr, hjr, ha⟩)

end Analyzer

namespace FunctionEmitter

variable {cg : CodeGenerator} {fn : Function} {instructions : List Instruction} {a : Word}

theorem mem_of_lookup {α β : Type} [BEq α] [LawfulBEq α] {l : List (α × β)} {k : α} {v : β}
    (h : l.lookup k = some v) : (k, v) ∈ l := by
  obtain ⟨l1, l2, rfl, -⟩ := List.lookup_eq_some_iff.1 h
  simp

theorem table_entryPoints {b : Block}
    (h : a ∈ (b.emitter cg (analysisResult cg fn instructions)).resolvedLocalIndirectTargets) :
    a ∈ (analysisResult cg fn instructions).entryPoints := by
  unfold ControlFlowEmitter.resolvedLocalIndirectTargets at h
  split at h
  · split at h
    · simp at h
    · rename_i ts hts
      rw [mem_sortUnique] at h
      exact List.mem_append_left _ (Analyzer.mem_entryPoints_of_table (mem_of_lookup hts) h)
  · simp at h

end FunctionEmitter

/-! ## Decoded functions -/

namespace Recompiler

variable {R : Recompiler} {f g : Function} {instructions : List Instruction}

theorem recompileFunction_start (f : Function) : (R.recompileFunction f).1.start = f.start := by
  unfold recompileFunction
  split
  · rfl
  · split
    · rfl
    · split
      · rfl
      · rename_i f' is h
        unfold decodeFunction at h
        dsimp only at h
        split at h
        · cases h
        · cases h; dsimp only; split <;> rfl

theorem functions_starts : R.functions.map (·.start) = R.extracted.map (·.start) := by
  rw [functions, List.map_map]
  exact List.map_congr_left fun f _ => recompileFunction_start f

/-- A function is known by its start. -/
theorem functions_inj (hf : f ∈ R.functions) (hg : g ∈ R.functions) (h : f.start = g.start) : f = g := by
  have hnd : (R.functions.map (·.start)).Nodup := functions_starts (R := R) ▸ R.starts_nodup
  exact List.inj_on_of_nodup_map hnd hf hg h

theorem lookup_of_nodup {α β : Type} [DecidableEq α] {l : List (α × β)} {k : α} {v : β}
    (hnd : (l.map (·.1)).Nodup) (h : (k, v) ∈ l) : l.lookup k = some v := by
  induction l with
  | nil => simp at h
  | cons p l ih =>
    rw [List.map_cons, List.nodup_cons] at hnd
    rcases List.mem_cons.1 h with rfl | h
    · exact List.lookup_cons_self
    · have hne : k ≠ p.1 := fun he => hnd.1 (he ▸ List.mem_map.2 ⟨(k, v), h, rfl⟩)
      rw [List.lookup_cons, beq_false_of_ne hne]
      exact ih hnd.2 h

theorem decodedFunctions_nodup : (R.decodedFunctions.map (·.1)).Nodup := by
  refine List.Nodup.sublist ?_ R.starts_nodup
  unfold decodedFunctions
  induction R.extracted with
  | nil => exact List.Sublist.slnil
  | cons f fs ih =>
    rw [List.filterMap_cons]
    cases (R.recompileFunction f).2 with
    | none => exact ih.trans (List.sublist_cons_self _ _)
    | some is => exact ih.cons_cons _

/-- **A function that has code was decoded.** -/
theorem decoded_of_hasCode (hf : f ∈ R.functions) (hc : f.hasCode = true) :
    ∃ instructions, R.decoded f.start = some instructions := by
  obtain ⟨f0, hf0, rfl⟩ := List.mem_map.1 hf
  have hsome : ∃ is, (R.recompileFunction f0).2 = some is := by
    unfold recompileFunction at hc ⊢
    split
    · rename_i h; simp [h, Function.hasCode] at hc
    · rename_i h
      split
      · rename_i h'; simp [h, h', Function.hasCode] at hc
      · rename_i h'
        split
        · rename_i hd; simp [h, h', hd, Function.hasCode] at hc
        · exact ⟨_, rfl⟩
  obtain ⟨is, his⟩ := hsome
  refine ⟨is, lookup_of_nodup decodedFunctions_nodup (List.mem_filterMap.2 ⟨f0, hf0, ?_⟩)⟩
  rw [his, recompileFunction_start]; rfl

variable {start : Word}

theorem mem_of_decoded (h : R.decoded start = some instructions) :
    ∃ f ∈ R.extracted, f.start = start ∧ (R.recompileFunction f).2 = some instructions := by
  obtain ⟨f, hf, h⟩ := List.mem_filterMap.1 (FunctionEmitter.mem_of_lookup h)
  obtain ⟨is, his, heq⟩ := Option.map_eq_some_iff.1 h
  cases heq
  exact ⟨f, hf, rfl, his⟩

theorem decodeFrom_addresses (endAddr : Word) (fuel : ℕ) (a : Word) :
    ∃ n ≤ fuel, (R.decodeFrom endAddr fuel a).1.map (·.address) =
      (List.range n).map fun i => a + 4 * BitVec.ofNat 32 i := by
  induction fuel generalizing a with
  | zero => exact ⟨0, le_rfl, rfl⟩
  | succ fuel ih =>
    unfold decodeFrom
    split
    · split
      · exact ⟨0, by omega, rfl⟩
      · obtain ⟨n, hn, h⟩ := ih (a + 4)
        refine ⟨n + 1, by omega, ?_⟩
        rw [List.map_cons, h, List.range_succ_eq_map, List.map_cons, List.map_map]
        congr 1
        · simp
        · refine List.map_congr_left fun i _ => ?_
          simp only [Function.comp_apply, Nat.succ_eq_add_one, BitVec.ofNat_add]
          rw [BitVec.mul_add, BitVec.add_assoc, BitVec.add_comm 4]
          rfl
    · exact ⟨0, by omega, rfl⟩

theorem recompileFunction_some {f : Function} (h : (R.recompileFunction f).2 = some instructions) :
    instructions = (R.decodeFrom f.endAddr (2 ^ 30) f.start).1 ∧ instructions ≠ [] := by
  unfold recompileFunction at h
  split at h
  · cases h
  · split at h
    · cases h
    · split at h
      · cases h
      · rename_i f' is hd
        cases h
        unfold decodeFunction at hd
        dsimp only at hd
        split at hd
        · cases hd
        · rename_i last hl
          cases hd
          exact ⟨rfl, fun hnil => by rw [hnil] at hl; cases hl⟩

section

variable (h : R.decoded start = some instructions)

include h

theorem decoded_addresses :
    ∃ n ≤ 2 ^ 30, 0 < n ∧ instructions.map (·.address) = (List.range n).map fun i => start + 4 * BitVec.ofNat 32 i := by
  obtain ⟨f, -, rfl, hrec⟩ := mem_of_decoded h
  obtain ⟨hfrom, hne⟩ := recompileFunction_some hrec
  obtain ⟨n, hn, haddr⟩ := R.decodeFrom_addresses f.endAddr (2 ^ 30) f.start
  rw [← hfrom] at haddr
  refine ⟨n, hn, Nat.pos_of_ne_zero fun h0 => hne ?_, haddr⟩
  subst h0
  simpa using haddr

theorem decoded_chain : (instructions.map (·.address)).IsChain (fun a a' => a' = a + 4) := by
  obtain ⟨n, -, -, haddr⟩ := decoded_addresses h
  rw [haddr, List.isChain_iff_getElem]
  intro i hi
  simp only [List.getElem_map, List.getElem_range, BitVec.ofNat_add]
  rw [BitVec.mul_add, ← BitVec.add_assoc]
  rfl

theorem decoded_head : ∃ inst rest, instructions = inst :: rest ∧ inst.address = start := by
  obtain ⟨n, -, hpos, haddr⟩ := decoded_addresses h
  obtain ⟨m, rfl⟩ := Nat.exists_eq_succ_of_ne_zero hpos.ne'
  rw [List.range_succ_eq_map, List.map_cons] at haddr
  obtain ⟨inst, rest, rfl, ha, -⟩ := List.map_eq_cons_iff.1 haddr
  exact ⟨inst, rest, rfl, by simpa using ha⟩

/-- **A function is decoded at distinct addresses**: the loop ends before it could come
back to one. -/
theorem decoded_nodup : (instructions.map (·.address)).Nodup := by
  obtain ⟨n, hn, -, haddr⟩ := decoded_addresses h
  rw [haddr]
  refine List.Nodup.map_on (fun i hi j hj hij => ?_) List.nodup_range
  rw [List.mem_range] at hi hj
  have h4 := congrArg BitVec.toNat (add_left_cancel hij)
  simp only [BitVec.toNat_mul, BitVec.toNat_ofNat, show (4 : Word).toNat = 4 from rfl] at h4
  omega

end

/-! ## Owners -/

theorem mem_of_betterOwner {fs : List Function} {o : Option Function}
    (h : fs.foldl betterOwner o = some f) : f ∈ fs ∨ o = some f := by
  induction fs generalizing o with
  | nil => exact .inr h
  | cons g fs ih =>
    rcases ih h with h | h
    · exact .inl (List.mem_cons_of_mem _ h)
    · unfold betterOwner at h
      split at h
      · cases h; exact .inl List.mem_cons_self
      · split at h
        · cases h; exact .inl List.mem_cons_self
        · exact .inr h

/-- `t` is a target that the owner at `o` can resume at. -/
def LocalTo (R : Recompiler) (o t : Word) : Prop :=
  ∃ f ∈ R.functions, ownsTargets f = true ∧ f.start = o ∧
    ∃ instructions, R.decoded o = some instructions ∧ Analyzer.isLocal f instructions t = true

theorem findContainingFunction_some {t : Word} (h : R.findContainingFunction t = some f) : R.LocalTo f.start t := by
  rcases mem_of_betterOwner h with h | h
  · simp only [List.mem_filter, Bool.and_eq_true, decide_eq_true_eq, List.any_eq_true, beq_iff_eq] at h
    obtain ⟨hf, ⟨⟨ho, h1⟩, h2⟩, inst, hi, ha⟩ := h
    cases hd : R.decoded f.start with
    | none => rw [hd] at hi; simp at hi
    | some is =>
      rw [hd] at hi
      exact ⟨f, hf, ho, rfl, is, hd, Analyzer.isLocal_iff.2 ⟨h1, h2, List.mem_map.2 ⟨inst, hi, ha⟩⟩⟩
  · cases h

theorem mem_assignExternal {o t target : Word} (h : (o, t) ∈ R.assignExternal target) : R.LocalTo o t := by
  unfold assignExternal at h
  split at h
  · simp at h
  · rename_i owner ho
    split at h
    · simp at h
    · rw [List.mem_singleton] at h
      cases h
      exact findContainingFunction_some ho

/-- **An assigned target is local to its owner.** -/
theorem mem_assignments_local {o t : Word} (h : (o, t) ∈ R.assignments) : R.LocalTo o t := by
  simp only [assignments, List.mem_append, List.mem_flatMap, List.mem_filter] at h
  rcases h with (⟨f, ⟨hf, hown⟩, h⟩ | ⟨_, -, h⟩) | ⟨_, -, h⟩
  · unfold assignFunction at h
    split at h
    · simp at h
    · rename_i is hd
      simp only [List.mem_append, List.mem_map, List.mem_flatMap] at h
      rcases h with ⟨t', ht, heq⟩ | ⟨_, -, h⟩
      · cases heq
        refine ⟨f, hf, hown, rfl, is, hd, ?_⟩
        rcases ht with ht | ht
        · exact Analyzer.isLocal_resumeEntryPoints ht
        · exact Analyzer.isLocal_fallbackEntries ht
      · exact mem_assignExternal h
  · exact mem_assignExternal h
  · exact mem_assignExternal h

theorem mem_resumeEntryTargetsByOwner {o : Word} {ts : List Word}
    (h : (o, ts) ∈ R.resumeEntryTargetsByOwner) (t : Word) : t ∈ ts ↔ (o, t) ∈ R.assignments := by
  obtain ⟨o', -, heq⟩ := List.mem_map.1 h
  cases heq
  simp

theorem resumeEntryTargetsByOwner_nodup : (R.resumeEntryTargetsByOwner.map (·.1)).Nodup := by
  rw [resumeEntryTargetsByOwner, List.map_map]
  exact (List.nodup_dedup _).map fun _ _ h => h

theorem mem_lookup_owner {o t : Word} :
    t ∈ (R.resumeEntryTargetsByOwner.lookup o).getD [] ↔ (o, t) ∈ R.assignments := by
  constructor
  · intro h
    cases hl : R.resumeEntryTargetsByOwner.lookup o with
    | none => rw [hl] at h; simp at h
    | some ts =>
      rw [hl] at h
      exact (mem_resumeEntryTargetsByOwner (FunctionEmitter.mem_of_lookup hl) t).1 h
  · intro h
    have hmem : (o, sortUnique ((R.assignments.filter (·.1 = o)).map (·.2))) ∈
        R.resumeEntryTargetsByOwner :=
      List.mem_map.2 ⟨o, List.mem_dedup.2 (List.mem_map.2 ⟨_, h, rfl⟩), rfl⟩
    rw [lookup_of_nodup resumeEntryTargetsByOwner_nodup hmem]
    exact (mem_resumeEntryTargetsByOwner hmem t).2 h

/-- The entry switch of a function: its own resume points and the assigned targets. -/
theorem mem_resumeTargets {t : Word} : t ∈ FunctionEmitter.resumeTargets R.generator f instructions ↔
    t ∈ (R.codeGenerator.analyzer.analyze f instructions none).resumeEntryPoints ∨ (f.start, t) ∈ R.assignments := by
  unfold FunctionEmitter.resumeTargets
  rw [mem_sortUnique, List.mem_append]
  exact or_congr Iff.rfl mem_lookup_owner

/-- **Every entry point of an emitted function is local.** -/
theorem isLocal_of_entryPoint (hf : f ∈ R.functions) (hd : R.decoded f.start = some instructions) {t : Word}
    (ht : t ∈ (FunctionEmitter.analysisResult R.generator f instructions).entryPoints) :
    Analyzer.isLocal f instructions t = true := by
  rcases List.mem_append.1 ht with ht | ht
  · exact Analyzer.isLocal_entryPoints ht
  · rcases mem_resumeTargets.1 ht with ht | ht
    · exact Analyzer.isLocal_resumeEntryPoints ht
    · obtain ⟨g, hg, -, hs, is, hd', hl⟩ := mem_assignments_local ht
      rw [hd] at hd'
      cases hd'
      cases functions_inj hf hg hs.symm
      exact hl

end Recompiler

end Ps2Recomp
