import Ps2Recomp.Proof.Table

/-!
# Return addresses

Which addresses the dispatcher can resume at, in terms of the input program, and what
that means for the return addresses that emitted code stores.

* `mem_own_iff`: the resume points a function asks for itself.
* `resumes_iff`: an address is registered and leads to its own code exactly when it is
  `Resumable`.
* `links_iff`: the branches that store a return address.
* `return_resumes_iff`: a return address can be resumed at exactly when it is `Resumable`.
  The calls `JAL` and `JALR` make it so; the linking branches do not.
-/

namespace Ps2Recomp

/-! ## What the analysis asks for -/

namespace Analyzer

variable {az : Analyzer} {fn : Function} {instructions : List Instruction}
  {fns : Option (List Function)} {t : Word}

/-- The instruction `i` makes the local address `t` a resume point: `t` is where a call
returns to, the target of a backward branch, or any address when `i` is a register jump
without a table. -/
inductive AsksFor (az : Analyzer) (fn : Function) (instructions : List Instruction)
    (i : Instruction) (t : Word) : Prop
  | call : i.opcode = .jal ∨ i.isJalr = true → t = i.address + 8 → AsksFor az fn instructions i t
  | loop : staticTarget i = some t → t ≤ i.address → t ≠ fn.start → AsksFor az fn instructions i t
  | unresolved : i.isIndirectJump = true → az.tableTargets fn instructions i = [] → AsksFor az fn instructions i t

/-- The instruction `i` names the address `t` of another function. -/
inductive NamesOutside (az : Analyzer) (fn : Function) (instructions : List Instruction)
    (i : Instruction) (t : Word) : Prop
  | branch : staticTarget i = some t → isLocal fn instructions t = false → NamesOutside az fn instructions i t
  | table : i.isIndirectJump = true → t ∈ az.tableExternals fn instructions i → NamesOutside az fn instructions i t

theorem mem_queueLoop {target source : Word} : t ∈ queueLoopResumeEntryTarget fn instructions target source ↔ t =
    target ∧ isLocal fn instructions target = true ∧ target ≤ source ∧ target ≠ fn.start := by
  unfold queueLoopResumeEntryTarget
  split
  · rename_i h
    simp only [List.not_mem_nil, false_iff]
    rintro ⟨-, -, hle, hs⟩
    rcases h with h | h
    · exact absurd hle (BitVec.not_le.2 h)
    · exact hs h
  · rename_i h
    rw [not_or] at h
    rw [mem_queueResume]
    exact ⟨fun ⟨h1, h2⟩ => ⟨h1, h2, BitVec.not_lt.1 h.1, h.2⟩, fun ⟨h1, h2, _⟩ => ⟨h1, h2⟩⟩

variable {i : Instruction}

theorem mem_branchResume : t ∈ branchResume fn instructions i ↔ isLocal fn instructions t = true ∧
    ((i.opcode = .jal ∧ t = i.address + 8) ∨ (staticTarget i = some t ∧ t ≤ i.address ∧ t ≠ fn.start)) := by
  unfold branchResume
  rw [List.mem_append, and_or_left, or_comm]
  refine or_congr ?_ ?_
  · split
    · rename_i hj
      rw [mem_queueResume]
      constructor
      · rintro ⟨rfl, hl⟩; exact ⟨hl, hj, rfl⟩
      · rintro ⟨hl, -, rfl⟩; exact ⟨rfl, hl⟩
    · rename_i hj; simp [hj]
  · split
    · rename_i t' ht'
      split
      · rw [mem_queueLoop]
        constructor
        · rintro ⟨rfl, hl, h⟩; exact ⟨hl, ht', h⟩
        · rintro ⟨hl, he, h⟩; rw [ht'] at he; cases he; exact ⟨rfl, hl, h⟩
      · rename_i hl
        simp only [List.not_mem_nil, false_iff]
        rintro ⟨hl', he, -⟩
        rw [ht'] at he
        cases he
        exact hl hl'
    · rename_i ht'
      simp [ht']

theorem mem_jalrResume (hi : i.isIndirectJump = true) :
    t ∈ jalrResume fn instructions i ↔ isLocal fn instructions t = true ∧ i.isJalr = true ∧ t = i.address + 8 := by
  have hjalr : i.isJalr = true ↔ i.function = specialJalr := by
    have hs : i.opcode = .special := by
      simp only [Instruction.isIndirectJump, Bool.and_eq_true, beq_iff_eq] at hi
      exact hi.1
    simp [Instruction.isJalr, hs]
  unfold jalrResume
  split
  · rename_i hf
    rw [mem_queueResume]
    constructor
    · rintro ⟨rfl, hl⟩; exact ⟨hl, hjalr.2 hf, rfl⟩
    · rintro ⟨hl, -, rfl⟩; exact ⟨rfl, hl⟩
  · rename_i hf
    simp [hjalr, hf]

theorem isIndirectJump_of_isJalr (h : i.isJalr = true) : i.isIndirectJump = true := by
  unfold Instruction.isJalr at h
  unfold Instruction.isIndirectJump
  simp_all

theorem mem_fallbackEntries : t ∈ az.fallbackEntries fn instructions ↔ isLocal fn instructions t = true ∧
    ∃ i ∈ instructions, i.isIndirectJump = true ∧ az.tableTargets fn instructions i = [] := by
  have hneeds : az.needsIndirectFallback fn instructions = true ↔
      ∃ i ∈ instructions, i.isIndirectJump = true ∧ az.tableTargets fn instructions i = [] := by
    simp [needsIndirectFallback, indirectJumps]
  unfold fallbackEntries
  split
  · rename_i h
    rw [List.mem_filter]
    exact ⟨fun hm => ⟨hm.2, hneeds.1 h⟩, fun hm => ⟨(isLocal_iff.1 hm.1).2.2, hm.1⟩⟩
  · rename_i h
    simp only [List.not_mem_nil, false_iff]
    exact fun hm => h (hneeds.2 hm.2)

/-- **The resume points a function asks for itself.** -/
theorem mem_own_iff :
    t ∈ (az.analyze fn instructions fns).resumeEntryPoints ++
        (az.analyze fn instructions fns).indirectFallbackEntryPoints ↔
      isLocal fn instructions t = true ∧ ∃ i ∈ instructions, AsksFor az fn instructions i t := by
  simp only [analyze, List.mem_append, List.mem_flatMap, mem_fallbackEntries]
  constructor
  · rintro ((⟨i, hi, h⟩ | ⟨i, hi, h⟩) | ⟨hl, i, hi, hj, ht⟩)
    · obtain ⟨hl, ⟨hj, rfl⟩ | ⟨h1, h2, h3⟩⟩ := mem_branchResume.1 h
      · exact ⟨hl, i, hi, .call (.inl hj) rfl⟩
      · exact ⟨hl, i, hi, .loop h1 h2 h3⟩
    · rw [indirectJumps, List.mem_filter] at hi
      obtain ⟨hl, hj, rfl⟩ := (mem_jalrResume hi.2).1 h
      exact ⟨hl, i, hi.1, .call (.inr hj) rfl⟩
    · exact ⟨hl, i, hi, .unresolved hj ht⟩
  · rintro ⟨hl, i, hi, h⟩
    cases h with
    | call hj ht =>
      rcases hj with hj | hj
      · exact .inl (.inl ⟨i, hi, mem_branchResume.2 ⟨hl, .inl ⟨hj, ht⟩⟩⟩)
      · have hind := isIndirectJump_of_isJalr hj
        exact .inl (.inr ⟨i, List.mem_filter.2 ⟨hi, hind⟩, (mem_jalrResume hind).2 ⟨hl, hj, ht⟩⟩)
    | loop h1 h2 h3 => exact .inl (.inl ⟨i, hi, mem_branchResume.2 ⟨hl, .inr ⟨h1, h2, h3⟩⟩⟩)
    | unresolved hj ht => exact .inr ⟨hl, i, hi, hj, ht⟩

theorem mem_queueExternal {target : Word} (h : t ∈ az.queueExternalEntryTarget fn fns target) : t = target := by
  unfold queueExternalEntryTarget at h
  split at h
  · simp at h
  · split at h
    · simp at h
    · exact List.mem_singleton.1 h

theorem mem_branchExternal : t ∈ az.branchExternal fn instructions fns i ↔
    t ∈ az.queueExternalEntryTarget fn fns t ∧ staticTarget i = some t ∧ isLocal fn instructions t = false := by
  unfold branchExternal
  split
  · rename_i t' ht'
    split
    · rename_i hl
      simp only [List.not_mem_nil, ht', Option.some.injEq, false_iff, not_and]
      rintro - rfl; simp [hl]
    · rename_i hl
      constructor
      · intro h
        cases mem_queueExternal h
        exact ⟨h, ht', Bool.eq_false_iff.2 hl⟩
      · rintro ⟨h, he, -⟩
        rw [ht'] at he
        cases he
        exact h
  · rename_i ht'
    simp [ht']

/-- **The targets outside the function** that its analysis reports. -/
theorem mem_external_iff : t ∈ (az.analyze fn instructions fns).externalEntryPoints ↔
    t ∈ az.queueExternalEntryTarget fn fns t ∧ ∃ i ∈ instructions, NamesOutside az fn instructions i t := by
  simp only [analyze, List.mem_append, List.mem_flatMap, indirectJumps, List.mem_filter]
  constructor
  · rintro (⟨i, hi, h⟩ | ⟨t', ⟨i, ⟨hi, hj⟩, ht'⟩, h⟩)
    · obtain ⟨hq, hs, hl⟩ := mem_branchExternal.1 h
      exact ⟨hq, i, hi, .branch hs hl⟩
    · cases mem_queueExternal h
      exact ⟨h, i, hi, .table hj ht'⟩
  · rintro ⟨hq, i, hi, h⟩
    cases h with
    | branch hs hl => exact .inl ⟨i, hi, mem_branchExternal.2 ⟨hq, hs, hl⟩⟩
    | table hj ht => exact .inr ⟨t, ⟨i, ⟨hi, hj⟩, ht⟩, hq⟩

end Analyzer

/-! ## Addresses that can be resumed at -/

namespace Recompiler

open FunctionTableEmitter

variable {R : Recompiler} {byOwner : List (Word × List Word)} {table : List (Word × Word)} {t : Word}

/-- The address is registered, and the emitted function registered there continues at it. -/
def Resumes (R : Recompiler) (table : List (Word × Word)) (t : Word) : Prop :=
  ∃ o, table.lookup t = some o ∧ ∃ g ∈ R.functions, g.start = o ∧ g.hasCode = true ∧
    FunctionEmitter.StartsAt R.generator g ((R.decoded g.start).getD []) t

/-- Some instruction of the program makes `t` a resume point of the function it is in. -/
def AskedFor (R : Recompiler) (t : Word) : Prop :=
  ∃ g ∈ R.functions, ownsTargets g = true ∧ ∃ is, R.decoded g.start = some is ∧
    Analyzer.isLocal g is t = true ∧ ∃ i ∈ is, Analyzer.AsksFor R.codeGenerator.analyzer g is i t

/-- `t` is named from outside: by another function, by a manifest of external call targets,
or as the entry of a thread. -/
def NamedOutside (R : Recompiler) (t : Word) : Prop :=
  (∃ g ∈ R.functions, ownsTargets g = true ∧ ∃ is, R.decoded g.start = some is ∧
    t ∈ R.codeGenerator.analyzer.queueExternalEntryTarget g (some R.functions) t ∧
      ∃ i ∈ is, Analyzer.NamesOutside R.codeGenerator.analyzer g is i t) ∨
    t ∈ R.ingestedExternalCallTargets ∨ t ∈ R.threadEntries

/-- **The addresses that can be resumed at**: the starts of functions that have code, and
apart from the bootstrap entry the addresses that their own function asks for, or that
are named from outside and lie in a function. -/
def Resumable (R : Recompiler) (t : Word) : Prop :=
  (∃ g ∈ R.functions, g.hasCode = true ∧ g.start = t) ∨
    R.bootstrapEntry ≠ some t ∧ (R.AskedFor t ∨ R.NamedOutside t ∧ ∃ o, R.LocalTo o t)

theorem betterOwner_isSome {fs : List Function} {o : Option Function} (h : o.isSome ∨ fs ≠ []) :
    (fs.foldl betterOwner o).isSome := by
  induction fs generalizing o with
  | nil => simpa using h
  | cons f fs ih =>
    refine ih (.inl ?_)
    unfold betterOwner
    split
    · rfl
    · split <;> rfl

/-- A target inside a function that owns targets is inside a containing function. -/
theorem findContainingFunction_of_local {o : Word} (h : R.LocalTo o t) : ∃ f, R.findContainingFunction t = some f := by
  obtain ⟨f, hf, hown, rfl, is, hd, hl⟩ := h
  obtain ⟨h1, h2, h3⟩ := Analyzer.isLocal_iff.1 hl
  obtain ⟨inst, hi, ha⟩ := List.mem_map.1 h3
  refine Option.isSome_iff_exists.1 (betterOwner_isSome (.inr (List.ne_nil_of_mem (a := f) ?_)))
  refine List.mem_filter.2 ⟨hf, ?_⟩
  rw [hd]
  simp only [hown, h1, h2, decide_true, Bool.true_and, Option.getD_some, List.any_eq_true, beq_iff_eq]
  exact ⟨inst, hi, ha⟩

theorem mem_assignExternal_iff {o target : Word} : (o, t) ∈ R.assignExternal target ↔
    t = target ∧ o ≠ t ∧ ∃ f, R.findContainingFunction t = some f ∧ f.start = o := by
  unfold assignExternal
  split
  · rename_i h
    simp only [List.not_mem_nil, false_iff]
    rintro ⟨rfl, -, f, hf, -⟩
    rw [h] at hf; cases hf
  · rename_i f hf
    split
    · rename_i hs
      simp only [List.not_mem_nil, false_iff]
      rintro ⟨rfl, hne, f', hf', rfl⟩
      rw [hf] at hf'; cases hf'
      exact hne hs
    · rename_i hs
      rw [List.mem_singleton, Prod.mk.injEq]
      constructor
      · rintro ⟨rfl, rfl⟩; exact ⟨rfl, hs, f, hf, rfl⟩
      · rintro ⟨rfl, -, f', hf', rfl⟩
        rw [hf] at hf'; cases hf'
        exact ⟨rfl, rfl⟩

/-- **The assigned targets**, in terms of the input. -/
theorem mem_assignments_iff : (∃ o, (o, t) ∈ R.assignments) ↔
    R.AskedFor t ∨ R.NamedOutside t ∧ ∃ f, R.findContainingFunction t = some f ∧ f.start ≠ t := by
  have hext : ∀ {o target : Word}, (o, t) ∈ R.assignExternal target → t = target ∧
      ∃ f, R.findContainingFunction t = some f ∧ f.start ≠ t := by
    intro o target h
    obtain ⟨rfl, hne, f, hf, rfl⟩ := mem_assignExternal_iff.1 h
    exact ⟨rfl, f, hf, hne⟩
  constructor
  · rintro ⟨o, h⟩
    simp only [assignments, List.mem_append, List.mem_flatMap, List.mem_filter] at h
    rcases h with (⟨g, ⟨hg, hown⟩, h⟩ | ⟨x, hx, h⟩) | ⟨x, hx, h⟩
    · unfold assignFunction at h
      split at h
      · simp at h
      · rename_i is hd
        simp only [List.mem_append, List.mem_map, List.mem_flatMap, Prod.mk.injEq] at h
        rcases h with ⟨t', ht', -, rfl⟩ | ⟨x, hx, h⟩
        · obtain ⟨hl, hi⟩ := Analyzer.mem_own_iff.1 (List.mem_append.2 ht')
          exact .inl ⟨g, hg, hown, is, hd, hl, hi⟩
        · obtain ⟨rfl, hf⟩ := hext h
          exact .inr ⟨.inl ⟨g, hg, hown, is, hd, Analyzer.mem_external_iff.1 hx⟩, hf⟩
    · obtain ⟨rfl, hf⟩ := hext h
      exact .inr ⟨.inr (.inl hx), hf⟩
    · obtain ⟨rfl, hf⟩ := hext h
      exact .inr ⟨.inr (.inr hx), hf⟩
  · simp only [assignments, List.mem_append, List.mem_flatMap, List.mem_filter]
    rintro (⟨g, hg, hown, is, hd, hl, hi⟩ | ⟨hnamed, f, hf, hne⟩)
    · refine ⟨g.start, .inl (.inl ⟨g, ⟨hg, hown⟩, ?_⟩)⟩
      unfold assignFunction
      rw [hd]
      exact List.mem_append_left _ (List.mem_map.2 ⟨t, Analyzer.mem_own_iff.2 ⟨hl, hi⟩, rfl⟩)
    · have hassign : (f.start, t) ∈ R.assignExternal t :=
        mem_assignExternal_iff.2 ⟨rfl, hne, f, hf, rfl⟩
      refine ⟨f.start, ?_⟩
      rcases hnamed with ⟨g, hg, hown, is, hd, hx⟩ | hx | hx
      · refine .inl (.inl ⟨g, ⟨hg, hown⟩, ?_⟩)
        unfold assignFunction
        rw [hd]
        exact List.mem_append_right _ (List.mem_flatMap.2 ⟨t, Analyzer.mem_external_iff.2 hx, hassign⟩)
      · exact .inl (.inr ⟨t, hx, hassign⟩)
      · exact .inr ⟨t, hx, hassign⟩

/-! ## The table and the resumable addresses -/

theorem lookup_functionEntries {p : Function → Bool} {o : Word} (h : (functionEntries R p).lookup t = some o) :
    o = t ∧ ∃ f ∈ R.functions, shouldGenerateCodeForFunction f = true ∧ p f = true ∧ f.start = t := by
  obtain ⟨rfl, hf⟩ := mem_functionEntries.1 (FunctionEmitter.mem_of_lookup h)
  exact ⟨rfl, hf⟩

theorem lookup_requests_start {g : Function} (hg : g ∈ R.functions) (hc : g.hasCode = true) :
    (requests R byOwner).lookup g.start = some g.start := by
  have hnormal : (g.start, g.start) ∈ functionEntries R (fun f => !f.isSkipped && !f.isStub) := by
    have hc' := hc
    simp only [Function.hasCode, Bool.and_eq_true, Bool.not_eq_true'] at hc'
    exact mem_functionEntries.2 ⟨rfl, g, hg, generates_of_hasCode hc, by simp [hc'.1.2, hc'.2], rfl⟩
  have hlook : (functionEntries R (fun f => !f.isSkipped && !f.isStub)).lookup g.start =
      some g.start := by
    cases hl : (functionEntries R (fun f => !f.isSkipped && !f.isStub)).lookup g.start with
    | none => rw [List.lookup_eq_none_iff] at hl; simpa using hl _ hnormal
    | some o => rw [(lookup_functionEntries hl).1]
  unfold requests
  simp only [List.append_assoc]
  rw [List.lookup_append, List.lookup_append, hlook]
  cases hb : R.bootstrapEntry with
  | none => rfl
  | some a => by_cases ha : g.start = a <;> simp [ha]

theorem hasCode_of_normal {f : Function} (hg : shouldGenerateCodeForFunction f = true)
    (hp : (!f.isSkipped && !f.isStub) = true) : f.hasCode = true := by
  simp only [Bool.and_eq_true, Bool.not_eq_true'] at hp
  simpa [shouldGenerateCodeForFunction, Function.hasCode, hp.1, hp.2] using hg

section

variable (hperm : byOwner.Perm R.resumeEntryTargetsByOwner)
  (ht : FunctionTableEmitter.emit R byOwner = some table)

include hperm ht

/-- **Registered and resumed at**, in terms of the assignments. -/
theorem resumes_iff_assigned : R.Resumes table t ↔ (∃ g ∈ R.functions, g.hasCode = true ∧ g.start = t) ∨
    R.bootstrapEntry ≠ some t ∧ ∃ o, (o, t) ∈ R.assignments := by
  unfold Resumes
  rw [lookup_table hperm ht]
  constructor
  · rintro ⟨o, hl, g, hg, rfl, hc, -⟩
    rcases requests_cases hperm (FunctionEmitter.mem_of_lookup hl) with h | h
    · exact .inl ⟨g, hg, hc, h.symm⟩
    · by_cases hb : R.bootstrapEntry = some t
      · -- the bootstrap entry is registered first, under its own name
        left
        refine ⟨g, hg, hc, ?_⟩
        unfold requests at hl
        rw [hb] at hl
        simpa [List.lookup_cons, eq_comm] using hl
      · exact .inr ⟨hb, _, h⟩
  · rintro (⟨g, hg, hc, rfl⟩ | ⟨hb, o, ho⟩)
    · exact ⟨g.start, lookup_requests_start hg hc, g, hg, rfl, hc,
        startsAt_of_hasCode hg hc (.inl rfl)⟩
    · by_cases hs : ∃ g ∈ R.functions, g.hasCode = true ∧ g.start = t
      · obtain ⟨g, hg, hc, rfl⟩ := hs
        exact ⟨g.start, lookup_requests_start hg hc, g, hg, rfl, hc,
          startsAt_of_hasCode hg hc (.inl rfl)⟩
      · -- neither the bootstrap entry nor a function takes the slot before the owners do
        have hboot : (R.bootstrapEntry.toList.map fun a => (a, a)).lookup t = none := by
          rw [List.lookup_eq_none_iff]
          simp only [List.mem_map, Option.mem_toList]
          rintro p ⟨a, ha, rfl⟩
          have : t ≠ a := fun h => hb (h ▸ ha)
          simpa using this
        have hnormal : (functionEntries R (fun f => !f.isSkipped && !f.isStub)).lookup t = none := by
          cases hl : (functionEntries R (fun f => !f.isSkipped && !f.isStub)).lookup t with
          | none => rfl
          | some o =>
            obtain ⟨-, f, hf, hgen, hp, hfs⟩ := lookup_functionEntries hl
            exact absurd ⟨f, hf, hasCode_of_normal hgen hp, hfs⟩ hs
        have howner : ∃ o', (byOwner.flatMap (fun p => p.2.map fun t => (t, p.1))).lookup t =
            some o' := by
          cases hl : (byOwner.flatMap (fun p => p.2.map fun t => (t, p.1))).lookup t with
          | none =>
            rw [List.lookup_eq_none_iff] at hl
            simpa using hl _ ((mem_owners hperm).2 ho)
          | some o' => exact ⟨o', rfl⟩
        obtain ⟨o', hl⟩ := howner
        have ho' := (mem_owners hperm).1 (FunctionEmitter.mem_of_lookup hl)
        obtain ⟨g, hg, hown, rfl, -⟩ := mem_assignments_local ho'
        have hc := hasCode_of_owns hown
        refine ⟨g.start, ?_, g, hg, rfl, hc, startsAt_of_hasCode hg hc (.inr ho')⟩
        unfold requests
        simp only [List.append_assoc]
        rw [List.lookup_append, hboot, List.lookup_append, hnormal, List.lookup_append, hl]
        rfl

/-- **An address can be resumed at exactly when it is resumable.** -/
theorem resumes_iff : R.Resumes table t ↔ R.Resumable t := by
  rw [resumes_iff_assigned hperm ht, mem_assignments_iff]
  unfold Resumable
  constructor
  · rintro (h | ⟨hb, h | ⟨hn, f, hf, -⟩⟩)
    · exact .inl h
    · exact .inr ⟨hb, .inl h⟩
    · exact .inr ⟨hb, .inr ⟨hn, _, findContainingFunction_some hf⟩⟩
  · rintro (h | ⟨hb, h | ⟨hn, o, ho⟩⟩)
    · exact .inl h
    · exact .inr ⟨hb, .inl h⟩
    · obtain ⟨f, hf⟩ := findContainingFunction_of_local ho
      by_cases hs : f.start = t
      · obtain ⟨g, hg, hown, hgs, -⟩ := findContainingFunction_some hf
        exact .inl ⟨g, hg, hasCode_of_owns hown, hgs.trans hs⟩
      · exact .inr ⟨hb, .inr ⟨hn, f, hf, hs⟩⟩

end

end Recompiler

/-! ## The return addresses of emitted code -/

/-- The register and the value of a store of a return address. -/
def Stmt.link : Stmt → Option (Reg × Word)
  | .setGprU32 reg v => some (reg, v)
  | _ => none

/-- The return addresses that a piece of code stores. -/
def linksOf (l : List Item) : List (Reg × Word) := (l.flatMap Item.stmts).filterMap Stmt.link

@[simp] theorem linksOf_append (l l' : List Item) : linksOf (l ++ l') = linksOf l ++ linksOf l' := by
  simp [linksOf]

theorem linksOf_map_stmt (l : List Stmt) : linksOf (l.map .stmt) = l.filterMap Stmt.link := by
  unfold linksOf
  rw [List.flatMap_map]
  simp [Item.stmts]

theorem linksOf_block (l : List BlockItem) : linksOf [.block l] = (l.flatMap BlockItem.stmts).filterMap Stmt.link := by
  simp [linksOf, Item.stmts]

namespace ControlFlowEmitter

variable {e : ControlFlowEmitter}

theorem emitDelaySlot_links (ho : e.delaySlotOverride.filterMap Stmt.link = []) :
    e.emitDelaySlot.filterMap Stmt.link = [] := by
  unfold emitDelaySlot delaySlotCode
  split
  · rfl
  · rw [List.filterMap_append, List.filterMap_append]
    split
    · rw [ho]; rfl
    · rfl

theorem emitInternalTarget_links (t source : Word) : (e.emitInternalTarget t source).filterMap Stmt.link = [] := by
  unfold emitInternalTarget
  split <;> rfl

theorem emitTaken_links : e.emitTaken.filterMap Stmt.link = [] := by
  unfold emitTaken
  dsimp only
  split
  · exact emitInternalTarget_links _ _
  · rfl

section

variable (ho : e.delaySlotOverride.filterMap Stmt.link = [])

include ho

theorem emitStaticJump_links (isCall : Bool) :
    (e.emitStaticJump isCall).filterMap Stmt.link =
      if isCall then [(31, e.fallthroughPc)] else [] := by
  unfold emitStaticJump
  simp only [List.filterMap_append, emitDelaySlot_links ho, List.append_nil]
  split
  · -- a call
    split
    · rw [emitInternalTarget_links]; rfl
    · split <;> rfl
  · split
    · rw [emitInternalTarget_links]; rfl
    · split <;> rfl

theorem emitRegisterJump_links (isCall : Bool) :
    ((e.emitRegisterJump isCall).flatMap BlockItem.stmts).filterMap Stmt.link =
      if isCall && e.branchInst.rd != 0 then [(e.branchInst.rd, e.fallthroughPc)] else [] := by
  have hslot : ((e.emitDelaySlot.map BlockItem.stmt).flatMap BlockItem.stmts).filterMap Stmt.link = [] := by
    rw [List.flatMap_map]
    simpa [BlockItem.stmts] using emitDelaySlot_links ho
  unfold emitRegisterJump
  simp only [List.flatMap_append, List.filterMap_append, hslot]
  split_ifs <;> simp [BlockItem.stmts, Stmt.link, List.filterMap_cons]

theorem emitConditionalBranch_links :
    (e.emitConditionalBranch.flatMap BlockItem.stmts).filterMap Stmt.link =
      (if e.linksAlways then [(31, e.fallthroughPc)] else []) ++
        if e.linksIfTaken then [(31, e.fallthroughPc)] else [] := by
  have hslot : ((e.emitDelaySlot.map BlockItem.stmt).flatMap BlockItem.stmts).filterMap Stmt.link = [] := by
    rw [List.flatMap_map]
    simpa [BlockItem.stmts] using emitDelaySlot_links ho
  unfold emitConditionalBranch
  simp only [List.flatMap_append, List.filterMap_append]
  split_ifs <;>
    simp [BlockItem.stmts, Stmt.link, List.filterMap_cons, hslot, emitDelaySlot_links ho, emitTaken_links]

/-- **The return addresses of a branch.** -/
theorem emit_linksOf : linksOf e.emit =
    if e.branchInst.isStaticJump then
      if e.branchInst.opcode == .jal then [(31, e.fallthroughPc)] else []
    else if e.branchInst.isJr || e.branchInst.isJalr then
      if e.branchInst.isJalr && e.branchInst.rd != 0 then [(e.branchInst.rd, e.fallthroughPc)] else []
    else if e.branchInst.isBranch then
      (if e.linksAlways then [(31, e.fallthroughPc)] else []) ++
        if e.linksIfTaken then [(31, e.fallthroughPc)] else []
    else [] := by
  have hresume : linksOf e.emitResumeFromDelaySlotEntry = [] := by
    unfold emitResumeFromDelaySlotEntry
    split
    · rfl
    · simp [linksOf, Item.stmts, Stmt.link, List.filterMap_cons, emitDelaySlot_links ho]
  have hfall : linksOf e.emitFallthroughLabelIfNeeded = [] := by
    unfold emitFallthroughLabelIfNeeded
    split <;> rfl
  have hset : ∀ a, linksOf [.stmt (.setPc a)] = [] := fun _ => rfl
  unfold emit emitTransfer
  simp only [linksOf_append, hresume, hfall, hset, List.nil_append, List.append_nil]
  split
  · rw [linksOf_map_stmt, emitStaticJump_links ho]
  · split
    · rw [linksOf_block, emitRegisterJump_links ho]
    · split
      · rw [linksOf_block, emitConditionalBranch_links ho]
      · rw [linksOf_map_stmt, List.filterMap_cons, emitDelaySlot_links ho]; rfl

end

end ControlFlowEmitter

/-- The branches that link: `JAL`, `JALR` with a register for the return address, and the
linking branches on a register. -/
def linksReturn (inst : Instruction) : Bool :=
  inst.hasDelaySlot && (inst.opcode == .jal || (inst.isJalr && inst.rd != 0) ||
    (inst.opcode == .regimm && inst.isBranch && (inst.rt == regimmBltzal || inst.rt == regimmBgezal ||
      inst.rt == regimmBltzall || inst.rt == regimmBgezall)))

namespace FunctionEmitter

variable {cg : CodeGenerator} {ar : AnalysisResult} {b : Block}

theorem Block.override_links : (b.emitter cg ar).delaySlotOverride.filterMap Stmt.link = [] := by
  unfold Block.emitter branchEmitter gifDmaDelaySlotOverride emitGifDmaCapture gifDmaKickCall
  dsimp only
  split
  · split
    · rfl
    · split <;> rfl
  · rfl

theorem Block.head_linksOf : linksOf (b.head cg ar) = [] := by
  unfold Block.head hookBefore labelFor
  split_ifs <;> split <;> rfl

theorem emitPlain_linksOf (i : ℕ) (inst : Instruction) (k : ConstantRegisterState)
    (plan : GifDmaKickPlan) : linksOf (emitPlain cg i inst k plan) = [] := by
  unfold emitPlain hookAfter emitGifDmaCapture gifDmaKickCall
  split
  · split
    · split_ifs <;> rfl
    · split <;> split_ifs <;> rfl
  · split <;> rfl

variable (cg ar b) in
/-- **A block stores a return address exactly when its branch links.** -/
theorem Block.links_iff : (∃ reg, (reg, b.inst.address + 8) ∈ linksOf (b.code cg ar)) ↔ linksReturn b.inst = true := by
  unfold Block.code Block.core linksReturn
  rw [linksOf_append, Block.head_linksOf, List.nil_append]
  cases hd : b.inst.hasDelaySlot with
  | false => simp [emitPlain_linksOf]
  | true =>
    rw [if_pos rfl, ControlFlowEmitter.emit_linksOf Block.override_links]
    change (∃ reg, (reg, b.inst.address + 8) ∈ if b.inst.isStaticJump then
      if b.inst.opcode == .jal then [(31, b.inst.address + 8)] else []
      else if b.inst.isJr || b.inst.isJalr then
        if b.inst.isJalr && b.inst.rd != 0 then [(b.inst.rd, b.inst.address + 8)] else []
      else if b.inst.isBranch then
        (if b.inst.opcode == .regimm && (b.inst.rt == regimmBltzal || b.inst.rt == regimmBgezal)
          then [(31, b.inst.address + 8)] else []) ++
          if b.inst.opcode == .regimm && (b.inst.rt == regimmBltzall || b.inst.rt == regimmBgezall)
            then [(31, b.inst.address + 8)] else []
      else []) ↔ _
    unfold Instruction.isStaticJump Instruction.isJr Instruction.isJalr
    by_cases h1 : b.inst.opcode = .jal
    · simp [h1]
    by_cases h2 : b.inst.opcode = .j
    · simp [h2]
    by_cases h3 : b.inst.opcode = .special
    · by_cases h4 : b.inst.function = specialJalr
      · by_cases h5 : b.inst.rd = 0 <;> simp [h3, h4, h5]
      · by_cases h6 : b.inst.function = specialJr
        · simp [h3, h6, show specialJr ≠ specialJalr by decide]
        · simp [h3, h4, h6]
    · by_cases h7 : b.inst.isBranch = true
      · by_cases h8 : b.inst.opcode = .regimm
        · simp only [h8, h7]
          by_cases h9 : b.inst.rt = regimmBltzal <;> by_cases h10 : b.inst.rt = regimmBgezal <;>
            by_cases h11 : b.inst.rt = regimmBltzall <;>
            by_cases h12 : b.inst.rt = regimmBgezall <;> simp [h9, h10, h11, h12]
        · simp [h1, h2, h3, h7, h8]
      · simp [h1, h2, h3, h7]

end FunctionEmitter

/-! ## Returning to a stored address -/

namespace Recompiler

variable {R : Recompiler} {byOwner : List (Word × List Word)} {table : List (Word × Word)}

/-- **A return address that a block stores can be resumed at exactly when it is
resumable**: for every block of every function, and every order of the owners. -/
theorem return_resumes_iff (hperm : byOwner.Perm R.resumeEntryTargetsByOwner)
    (ht : FunctionTableEmitter.emit R byOwner = some table) (f : Function)
    (is : List Instruction) (b : FunctionEmitter.Block) :
    (∀ reg, (reg, b.inst.address + 8) ∈
        linksOf (b.code R.generator (FunctionEmitter.analysisResult R.generator f is)) →
      b.inst.address + 8 ∈ is.map (·.address) → R.Resumes table (b.inst.address + 8)) ↔
    (linksReturn b.inst = true → b.inst.address + 8 ∈ is.map (·.address) → R.Resumable (b.inst.address + 8)) := by
  rw [resumes_iff hperm ht, ← FunctionEmitter.Block.links_iff R.generator
    (FunctionEmitter.analysisResult R.generator f is) b]
  exact ⟨fun h ⟨reg, hreg⟩ => h reg hreg, fun h reg hreg => h ⟨reg, hreg⟩⟩

/-- A call, whose return address is asked for. -/
def jalProgram : List Instruction :=
  [{ address := 0x100, opcode := .jal, target := 0x80, isJump := true, hasDelaySlot := true },
    { address := 0x104, opcode := .special },
    { address := 0x108, opcode := .special, function := specialJr, rs := 31, isJump := true,
      hasDelaySlot := true },
    { address := 0x10C, opcode := .special }]

theorem jal_return_resumes : (single "caller" 0x100 jalProgram).Resumes [(0x100, 0x100), (0x108, 0x100)] 0x108 := by
  have hperm : [((0x100 : Word), [(0x108 : Word)])].Perm
      (single "caller" 0x100 jalProgram).resumeEntryTargetsByOwner := by decide
  refine (return_resumes_iff hperm (by decide)
    { name := "caller", start := 0x100, endAddr := 0x110, isRecompiled := true } jalProgram
    ⟨0, jalProgram[0], some jalProgram[1], .clear, {}⟩).2 (fun _ _ => ?_) 31 (by decide) (by decide)
  exact .inr ⟨by decide, .inl ⟨_, List.mem_cons_self, by decide, jalProgram, by decide, by decide,
    jalProgram[0], by decide, .call (.inl rfl) rfl⟩⟩

/-- The same function with a `BGEZAL` in place of the call. -/
def bgezalProgram : List Instruction :=
  { address := 0x100, opcode := .regimm, rs := 4, rt := regimmBgezal, simmediate := 0x3F,
    isBranch := true, hasDelaySlot := true } :: jalProgram.tail

/-- **A linking branch stores an address that is not registered.** -/
theorem bgezal_return_not_resumed :
    ∃ f ∈ (single "caller" 0x100 bgezalProgram).functions, f.hasCode = true ∧
      (single "caller" 0x100 bgezalProgram).decoded f.start = some bgezalProgram ∧
      ((31 : Reg), (0x108 : Word)) ∈ linksOf ((single "caller" 0x100 bgezalProgram).code f) ∧
      0x108 ∈ bgezalProgram.map (·.address) ∧
      FunctionTableEmitter.emit (single "caller" 0x100 bgezalProgram)
        (single "caller" 0x100 bgezalProgram).resumeEntryTargetsByOwner = some [(0x100, 0x100)] ∧
      ¬ (single "caller" 0x100 bgezalProgram).Resumes [(0x100, 0x100)] 0x108 := by
  refine ⟨_, List.mem_cons_self, by decide, by decide, by decide, by decide, by decide, ?_⟩
  rintro ⟨o, ho, -⟩
  cases ho

end Recompiler

end Ps2Recomp
