import Ps2Recomp.Proof.Labels

/-!
# The function table

What `FunctionTableEmitter` registers, and where a function starts that is entered
through the table.

* `lookup_table`: the first request for an address wins.
* `requests_cases`: an address is registered under its own name, or as a target that
  was assigned to an owner.
* `startsAt_resume`, `startsAt_start`: entered with `ctx->pc` at a case of the entry
  switch or at its start, an emitted function starts at the instruction there.
-/

namespace Ps2Recomp

open Goto

/-! ## Entering a function -/

namespace FunctionEmitter

/-- Position `n` of the emitted function is where the code of the instruction at `a`
begins: its label, or the end of the entry code of a function that starts at `a`. -/
def BeginsAt (cg : CodeGenerator) (fn : Function) (instructions : List Instruction) (a : Word) (n : ℕ) : Prop :=
  (emit cg fn instructions)[n]? = some (.label (.at a)) ∨
    n = (emitEntry cg fn instructions).length ∧ (instructions.head?.map (·.address)) = some a

/-- Entered with `ctx->pc = a`, the function starts at the instruction at `a`, in the
state it was entered with. -/
def StartsAt (cg : CodeGenerator) (fn : Function) (instructions : List Instruction) (a : Word) :
    Prop :=
  ∀ (ρ : Type) (rt : Runtime ρ) (s : State ρ), s.ctx.pc = a →
    ∃ n, Reach (lang rt) (emit cg fn instructions) (0, s) (n, s) ∧ BeginsAt cg fn instructions a n

variable {cg : CodeGenerator} {fn : Function} {instructions : List Instruction} {a : Word}

theorem mapCtx_setPc {ρ : Type} (s : State ρ) : s.mapCtx (·.setPc s.ctx.pc) = s := rfl

theorem emit_getElem?_entry {n : ℕ} (hn : n < (emitEntry cg fn instructions).length) :
    (emit cg fn instructions)[n]? = (emitEntry cg fn instructions)[n]? := by
  rw [emit_eq, List.append_assoc, List.getElem?_append_left hn]

section

variable (hclosed : Closed Item.labelOf Item.gotos (emit cg fn instructions))

include hclosed

/-- **A case of the entry switch** leads to its label. -/
theorem startsAt_resume (ha : a ∈ resumeTargets cg fn instructions) : StartsAt cg fn instructions a := by
  intro ρ rt s hs
  have hentry : emitEntry cg fn instructions =
      [.switchPc (resumeTargets cg fn instructions), .stmt (.setPc fn.start)] := by
    unfold emitEntry
    rw [if_pos (List.ne_nil_of_mem ha)]; rfl
  have h0 : (emit cg fn instructions)[0]? =
      some (.switchPc (resumeTargets cg fn instructions)) := by
    rw [emit_getElem?_entry (by simp [hentry]), hentry]; rfl
  have hone := hclosed _ (List.mem_of_getElem? h0) (.at a) (List.mem_map.2 ⟨a, ha, rfl⟩)
  obtain ⟨n, hn⟩ := findLabel_isSome (Nat.lt_of_lt_of_eq Nat.zero_lt_one hone.symm)
  obtain ⟨i, hi, hl⟩ := findLabel_some hn
  have hil : i = .label (.at a) := by cases i <;> simp_all [Item.labelOf]
  subst hil
  refine ⟨n, Relation.ReflTransGen.single (.goto h0 ?_ hn), .inl hi⟩
  simp [lang, Item.exec, hs, ha]

/-- **The start of a function**, when it is no case of the entry switch. -/
theorem startsAt_start (hfirst : instructions.head?.map (·.address) = some fn.start) :
    StartsAt cg fn instructions fn.start := by
  by_cases ha : fn.start ∈ resumeTargets cg fn instructions
  · exact startsAt_resume hclosed ha
  intro ρ rt s hs
  refine ⟨(emitEntry cg fn instructions).length, ?_, .inr ⟨rfl, hfirst⟩⟩
  have hset : (Item.stmt (.setPc fn.start)).exec rt s = (s, .next) := by
    rw [← hs]; exact congrArg (·, Flow.next) (mapCtx_setPc s)
  by_cases hr : resumeTargets cg fn instructions = []
  · have hentry : emitEntry cg fn instructions = [.stmt (.setPc fn.start)] := by
      unfold emitEntry; rw [if_neg (not_not.2 hr)]; rfl
    have h0 : (emit cg fn instructions)[0]? = some (.stmt (.setPc fn.start)) := by
      rw [emit_getElem?_entry (by simp [hentry]), hentry]; rfl
    rw [hentry]
    exact Relation.ReflTransGen.single (.next h0 hset)
  · have hentry : emitEntry cg fn instructions =
        [.switchPc (resumeTargets cg fn instructions), .stmt (.setPc fn.start)] := by
      unfold emitEntry; rw [if_pos hr]; rfl
    have h0 : (emit cg fn instructions)[0]? =
        some (.switchPc (resumeTargets cg fn instructions)) := by
      rw [emit_getElem?_entry (by simp [hentry]), hentry]; rfl
    have h1 : (emit cg fn instructions)[1]? = some (.stmt (.setPc fn.start)) := by
      rw [emit_getElem?_entry (by simp [hentry]), hentry]; rfl
    have hsw : (Item.switchPc (resumeTargets cg fn instructions)).exec rt s = (s, .next) := by
      simp [Item.exec, hs, ha]
    rw [hentry]
    exact (Relation.ReflTransGen.single (.next h0 hsw)).tail (.next h1 hset)

end

end FunctionEmitter

/-! ## Registration -/

namespace FunctionTableEmitter

variable {R : Recompiler} {byOwner : List (Word × List Word)} {table : List (Word × Word)}

theorem addEntry_lookup {entries entries' : List (Word × Word)} {e : Word × Word}
    (hname : R.generator.getFunctionName e.2 ≠ "") (h : addEntry R entries e = some entries')
    (a : Word) : entries'.lookup a = (entries ++ [e]).lookup a := by
  unfold addEntry at h
  rw [if_neg hname] at h
  split at h
  · cases h
  · split at h
    · rename_i hmem
      cases h
      -- the address is taken: the new entry is never looked at
      rw [List.lookup_append]
      cases hl : entries.lookup a with
      | some o => rfl
      | none =>
        have hne : a ≠ e.1 := by
          rintro rfl
          obtain ⟨p, hp, hpe⟩ := List.mem_map.1 hmem
          rw [List.lookup_eq_none_iff] at hl
          simpa [hpe] using hl p hp
        obtain ⟨x, o⟩ := e
        have hb : (a == x) = false := beq_false_of_ne hne
        simp [List.lookup_cons, hb]
    · cases h; rfl

/-- **The first request for an address wins.** -/
theorem foldlM_addEntry_lookup {reqs entries : List (Word × Word)}
    (hname : ∀ e ∈ reqs, R.generator.getFunctionName e.2 ≠ "") (h : reqs.foldlM (addEntry R) entries = some table)
    (a : Word) : table.lookup a = (entries ++ reqs).lookup a := by
  induction reqs generalizing entries with
  | nil => simp only [List.foldlM_nil, Option.pure_def, Option.some.injEq] at h; simp [h]
  | cons e reqs ih =>
    rw [List.foldlM_cons] at h
    obtain ⟨entries', he, h⟩ := Option.bind_eq_some_iff.1 h
    rw [ih (fun e' h' => hname e' (List.mem_cons_of_mem _ h')) h, List.lookup_append,
      addEntry_lookup (hname e List.mem_cons_self) he, ← List.lookup_append, List.append_assoc]
    rfl

section

variable {f : Function}

theorem getFunctionName_ne_empty (hf : f ∈ R.functions) (hg : Recompiler.shouldGenerateCodeForFunction f = true) :
    R.generator.getFunctionName f.start ≠ "" := by
  have hmem : (f.start, makeName f) ∈ R.functionRenames :=
    List.mem_map.2 ⟨f, List.mem_filter.2 ⟨hf, hg⟩, rfl⟩
  unfold CodeGenerator.getFunctionName
  cases hl : R.generator.renamedFunctions.lookup f.start with
  | none =>
    rw [List.lookup_eq_none_iff] at hl
    simpa using hl _ hmem
  | some name =>
    obtain ⟨g, -, heq⟩ := List.mem_map.1 (FunctionEmitter.mem_of_lookup hl)
    obtain ⟨-, rfl⟩ := Prod.mk.injEq .. ▸ heq
    exact makeName_ne_empty g

theorem generates_of_hasCode (h : f.hasCode = true) : Recompiler.shouldGenerateCodeForFunction f = true := by
  simp only [Function.hasCode, Bool.and_eq_true] at h
  simp [Recompiler.shouldGenerateCodeForFunction, h.1.1]

theorem hasCode_of_owns (h : Recompiler.ownsTargets f = true) : f.hasCode = true :=
  (Bool.and_eq_true_iff.1 h).1

end

theorem mem_functionEntries {p : Function → Bool} {a o : Word} : (a, o) ∈ functionEntries R p ↔ a = o ∧
    ∃ f ∈ R.functions, Recompiler.shouldGenerateCodeForFunction f = true ∧ p f = true ∧ f.start = a := by
  simp only [functionEntries, List.mem_map, List.mem_filter, Prod.mk.injEq]
  constructor
  · rintro ⟨f, ⟨⟨hf, hg⟩, hp⟩, rfl, rfl⟩
    exact ⟨rfl, f, hf, hg, hp, rfl⟩
  · rintro ⟨rfl, f, hf, hg, hp, rfl⟩
    exact ⟨f, ⟨⟨hf, hg⟩, hp⟩, rfl, rfl⟩

section Perm

variable (hperm : byOwner.Perm R.resumeEntryTargetsByOwner)
include hperm

theorem mem_owners {a o : Word} :
    (a, o) ∈ byOwner.flatMap (fun p => p.2.map fun t => (t, p.1)) ↔ (o, a) ∈ R.assignments := by
  simp only [List.mem_flatMap, List.mem_map, Prod.mk.injEq]
  constructor
  · rintro ⟨⟨o', ts⟩, hp, t, ht, rfl, rfl⟩
    exact (Recompiler.mem_resumeEntryTargetsByOwner (hperm.mem_iff.1 hp) t).1 ht
  · intro h
    have hmem := Recompiler.mem_lookup_owner.2 h
    cases hl : R.resumeEntryTargetsByOwner.lookup o with
    | none => rw [hl] at hmem; simp at hmem
    | some ts =>
      rw [hl] at hmem
      exact ⟨(o, ts), hperm.mem_iff.2 (FunctionEmitter.mem_of_lookup hl), a, hmem, rfl, rfl⟩

/-- **What is registered**: a name at its own address, or a target of an owner. -/
theorem requests_cases {a o : Word} (h : (a, o) ∈ requests R byOwner) : a = o ∨ (o, a) ∈ R.assignments := by
  simp only [requests, List.mem_append, mem_owners hperm, mem_functionEntries, List.mem_map, Prod.mk.injEq] at h
  rcases h with ((((⟨x, -, rfl, rfl⟩ | ⟨rfl, -⟩) | h) | ⟨rfl, -⟩) | ⟨rfl, -⟩) | ⟨rfl, -⟩
  all_goals first | exact .inl rfl | exact .inr h

theorem requests_named (hboot : ∀ a, R.bootstrapEntry = some a → R.generator.getFunctionName a ≠ "")
    {e : Word × Word} (h : e ∈ requests R byOwner) : R.generator.getFunctionName e.2 ≠ "" := by
  obtain ⟨a, o⟩ := e
  have hentries : ∀ p, (a, o) ∈ functionEntries R p → R.generator.getFunctionName o ≠ "" := by
    intro p hp
    obtain ⟨rfl, f, hf, hg, -, rfl⟩ := mem_functionEntries.1 hp
    exact getFunctionName_ne_empty hf hg
  simp only [requests, List.mem_append, mem_owners hperm, List.mem_map, Prod.mk.injEq, Option.mem_toList] at h
  rcases h with ((((⟨x, hx, rfl, rfl⟩ | h) | h) | h) | h) | h
  · exact hboot x hx
  · exact hentries _ h
  · obtain ⟨f, hf, hown, rfl, -⟩ := Recompiler.mem_assignments_local h
    exact getFunctionName_ne_empty hf (generates_of_hasCode (hasCode_of_owns hown))
  · exact hentries _ h
  · exact hentries _ h
  · exact hentries _ h

/-- **The table is read by the first request.** -/
theorem lookup_table (ht : emit R byOwner = some table) (a : Word) :
    table.lookup a = (requests R byOwner).lookup a := by
  unfold emit at ht
  split at ht
  · cases ht
  · rename_i hb
    have hboot : ∀ a, R.bootstrapEntry = some a → R.generator.getFunctionName a ≠ "" := by
      intro a ha hn
      exact hb (by rw [ha]; simp [hn])
    have h := foldlM_addEntry_lookup (fun e he => requests_named hperm hboot he) ht a
    rwa [List.nil_append] at h

end Perm

end FunctionTableEmitter

/-! ## Where a registered address leads -/

namespace Recompiler

variable {R : Recompiler} {f g : Function} {a : Word}

theorem closed_of_hasCode {instructions : List Instruction} (hf : f ∈ R.functions)
    (hd : R.decoded f.start = some instructions) :
    Closed Item.labelOf Item.gotos (FunctionEmitter.emit R.generator f instructions) :=
  FunctionEmitter.emit_closed (decoded_nodup hd) fun _ ht =>
    (Analyzer.isLocal_iff.1 (isLocal_of_entryPoint hf hd ht)).2.2

section Requests

open FunctionTableEmitter

variable {byOwner : List (Word × List Word)} {table : List (Word × Word)}

theorem lookup_of_request {a o : Word} (hperm : byOwner.Perm R.resumeEntryTargetsByOwner)
    (ht : FunctionTableEmitter.emit R byOwner = some table) (h : (a, o) ∈ requests R byOwner) :
    ∃ o', table.lookup a = some o' ∧ (a, o') ∈ requests R byOwner := by
  rw [lookup_table hperm ht]
  cases hl : (requests R byOwner).lookup a with
  | none =>
    rw [List.lookup_eq_none_iff] at hl
    simpa using hl _ h
  | some o' => exact ⟨o', rfl, FunctionEmitter.mem_of_lookup hl⟩

theorem mem_assignments_own {instructions : List Instruction} {t : Word} (hf : f ∈ R.functions)
    (hown : ownsTargets f = true) (hd : R.decoded f.start = some instructions)
    (ht : t ∈ (R.codeGenerator.analyzer.analyze f instructions none).resumeEntryPoints) :
    (f.start, t) ∈ R.assignments := by
  refine List.mem_append_left _ (List.mem_append_left _ (List.mem_flatMap.2 ⟨f, List.mem_filter.2 ⟨hf, hown⟩, ?_⟩))
  unfold assignFunction
  rw [hd]
  exact List.mem_append_left _ (List.mem_map.2 ⟨t, List.mem_append_left _ ht, rfl⟩)

theorem mem_requests_start (hf : f ∈ R.functions) (hc : f.hasCode = true) :
    (f.start, f.start) ∈ requests R byOwner := by
  have hc' := hc
  simp only [Function.hasCode, Bool.and_eq_true, Bool.not_eq_true'] at hc'
  have hmem : (f.start, f.start) ∈ functionEntries R (fun f => !f.isSkipped && !f.isStub) :=
    mem_functionEntries.2 ⟨rfl, f, hf, generates_of_hasCode hc, by simp [hc'.1.2, hc'.2], rfl⟩
  unfold requests
  simp only [List.mem_append]
  exact .inl (.inl (.inl (.inl (.inr hmem))))

theorem mem_requests_owner {a o : Word} (hperm : byOwner.Perm R.resumeEntryTargetsByOwner)
    (h : (o, a) ∈ R.assignments) : (a, o) ∈ requests R byOwner := by
  unfold requests
  simp only [List.mem_append]
  exact .inl (.inl (.inl (.inr ((mem_owners hperm).2 h))))

end Requests

/-- The generated function at `o`, dispatched with `ctx->pc = a`, runs the guest code from
`a` on. A stub stands for the guest code at its start. -/
def DispatchStartsAt (R : Recompiler) (o a : Word) : Prop :=
  ∃ f ∈ R.functions, f.start = o ∧
    if f.hasCode then FunctionEmitter.StartsAt R.generator f ((R.decoded f.start).getD []) a
    else f.start = a

theorem startsAt_of_hasCode (hf : f ∈ R.functions) (hc : f.hasCode = true)
    (h : a = f.start ∨ (f.start, a) ∈ R.assignments) :
    FunctionEmitter.StartsAt R.generator f ((R.decoded f.start).getD []) a := by
  obtain ⟨is, hd⟩ := decoded_of_hasCode hf hc
  rw [hd, Option.getD_some]
  have hclosed := closed_of_hasCode hf hd
  rcases h with rfl | h
  · obtain ⟨inst, rest, rfl, ha⟩ := decoded_head hd
    exact FunctionEmitter.startsAt_start hclosed (by simp [ha])
  · exact FunctionEmitter.startsAt_resume hclosed (mem_resumeTargets.2 (.inr h))

/-- **A registered address leads to its own code.** -/
theorem dispatchStartsAt_of_mem {byOwner : List (Word × List Word)} {o : Word}
    (hperm : byOwner.Perm R.resumeEntryTargetsByOwner)
    (h : (a, o) ∈ FunctionTableEmitter.requests R byOwner) (hf : f ∈ R.functions)
    (ho : f.start = o) : R.DispatchStartsAt o a := by
  subst ho
  refine ⟨f, hf, rfl, ?_⟩
  have hcases := FunctionTableEmitter.requests_cases hperm h
  split
  · exact startsAt_of_hasCode hf ‹_› hcases
  · rename_i hc
    rcases hcases with h | h
    · exact h.symm
    · -- an owner of assigned targets has code
      obtain ⟨g, hg, hown, hs, -⟩ := mem_assignments_local h
      cases functions_inj hf hg hs.symm
      exact absurd (FunctionTableEmitter.hasCode_of_owns hown) hc

end Recompiler

end Ps2Recomp
