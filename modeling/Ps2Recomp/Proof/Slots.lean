import Ps2Recomp.Proof.Table

/-!
# The slots of the function table

The table is an array that starts at the lowest registered address, with one slot for each
word. Requests come in a fixed order of kinds: the bootstrap entry, functions with code, resume
targets of their owners, stubs, system calls, skipped functions. So a resume target takes the
slot of a stub that starts there.

* `slotValue_entry`: a slot holds the entry of its address, if the array is long enough.
* `table_binds_iff`: when every function and every resume target has its slot.
-/

namespace Ps2Recomp

/-! ## Aligned addresses -/

theorem and_not_eq_self {w : ℕ} {a b : BitVec w} (h : a &&& b = 0) : a &&& ~~~b = a := by
  ext i hi
  have hbit := congrArg (fun v : BitVec w => v[i]) h
  simp only [BitVec.getElem_and, BitVec.ofNat_eq_ofNat, BitVec.getElem_zero] at hbit
  simp only [BitVec.getElem_and, BitVec.getElem_not]
  cases ha : a[i] with
  | false => rfl
  | true =>
    rw [ha, Bool.true_and] at hbit
    rw [hbit]
    rfl

theorem and_three_toNat (a : Word) : (a &&& 3).toNat = a.toNat % 4 := by
  rw [BitVec.toNat_and]
  exact Nat.and_two_pow_sub_one_eq_mod a.toNat 2

theorem aligned_iff {a : Word} : a &&& 3 = 0 ↔ a.toNat % 4 = 0 := by
  rw [← and_three_toNat]
  exact ⟨fun h => by rw [h]; rfl, fun h => BitVec.eq_of_toNat_eq h⟩

/-- Rounding up an aligned address plus three gives it back. -/
theorem add_three_and_not {a : Word} (h : a &&& 3 = 0) : (a + 3) &&& ~~~3 = a := by
  rw [BitVec.add_eq_or_of_and_eq_zero a 3 h]
  ext i hi
  have hbit := congrArg (fun v : Word => v[i]) h
  simp only [BitVec.getElem_and, BitVec.ofNat_eq_ofNat, BitVec.getElem_zero] at hbit
  simp only [BitVec.getElem_and, BitVec.getElem_or, BitVec.getElem_not]
  cases ha : a[i] <;> cases hb : (3 : Word)[i] <;> simp_all

namespace FunctionTableEmitter

variable {R : Recompiler} {entries table : List (Word × Word)} {a o : Word}
  {byOwner : List (Word × List Word)}

/-! ## Slots -/

theorem sorted_perm : (sorted entries).Perm entries := List.perm_insertionSort _ _

theorem sorted_pairwise : (sorted entries).Pairwise fun a b => a.1 ≤ b.1 := by
  have htotal : Std.Total fun a b : Word × Word => a.1 ≤ b.1 := ⟨fun a b => BitVec.le_total a.1 b.1⟩
  have htrans : IsTrans (Word × Word) fun a b => a.1 ≤ b.1 := ⟨fun _ _ _ => BitVec.le_trans⟩
  exact List.pairwise_insertionSort _ _

theorem tableBase_tableEnd (hal : ∀ e ∈ entries, e.1 &&& 3 = 0) (hne : entries ≠ []) : ∃ lo ∈ entries, ∃ hi ∈ entries,
    tableBase entries = lo.1 ∧ tableEnd entries = hi.1 + 4 ∧ ∀ e ∈ entries, lo.1 ≤ e.1 ∧ e.1 ≤ hi.1 := by
  have hs : (sorted entries).Pairwise fun a b => a.1 ≤ b.1 := sorted_pairwise
  have hmem : ∀ e, e ∈ sorted entries ↔ e ∈ entries := fun e => sorted_perm.mem_iff
  have hsne : sorted entries ≠ [] := fun h => hne ((h ▸ sorted_perm).nil_eq).symm
  unfold tableBase tableEnd
  obtain ⟨front, hi, hfront⟩ : ∃ front hi, sorted entries = front ++ [hi] :=
    ⟨_, _, (List.dropLast_append_getLast hsne).symm⟩
  obtain ⟨lo, back, hback⟩ := List.exists_cons_of_ne_nil hsne
  have hlo : lo ∈ entries := (hmem lo).1 (hback ▸ List.mem_cons_self)
  have hhi : hi ∈ entries := (hmem hi).1 (hfront ▸ List.mem_append_right _ (List.mem_singleton_self _))
  have halign : (hi.1 + 4) &&& 3 = 0 := by
    have := aligned_iff.1 (hal hi hhi)
    rw [aligned_iff, BitVec.toNat_add]
    simp only [BitVec.ofNat_eq_ofNat, BitVec.toNat_ofNat]
    omega
  refine ⟨lo, hlo, hi, hhi, ?_, ?_, fun e he => ⟨?_, ?_⟩⟩
  · rw [hback, List.head?_cons, Option.map_some, Option.getD_some, and_not_eq_self (hal lo hlo)]
  · rw [hfront, List.getLast?_concat, Option.map_some, Option.getD_some, add_three_and_not halign]
  · rw [hback] at hs
    rcases List.mem_cons.1 (hback ▸ (hmem e).2 he) with rfl | he
    · exact BitVec.le_refl _
    · exact List.rel_of_pairwise_cons hs he
  · rw [hfront] at hs
    rcases List.mem_append.1 (hfront ▸ (hmem e).2 he) with he | he
    · exact (List.pairwise_append.1 hs).2.2 e he hi (List.mem_singleton_self _)
    · rw [List.mem_singleton.1 he]
      exact BitVec.le_refl _

variable {e : Word × Word}

section

variable (hal : ∀ e ∈ entries, e.1 &&& 3 = 0)

include hal

theorem slot_toNat {lo : Word × Word} (hlo : lo ∈ entries) (hbase : tableBase entries = lo.1)
    (hmin : ∀ e ∈ entries, lo.1 ≤ e.1) (he : e ∈ entries) : 4 * (slot entries e.1).toNat + lo.1.toNat = e.1.toNat := by
  have hle := BitVec.le_def.1 (hmin e he)
  have h1 := aligned_iff.1 (hal e he)
  have h2 := aligned_iff.1 (hal lo hlo)
  unfold slot
  rw [hbase, BitVec.toNat_ushiftRight, BitVec.toNat_sub_of_le (hmin e he), Nat.shiftRight_eq_div_pow]
  omega

/-- The array has a slot for every registered address, unless these go around the whole address
space, where its length comes out as zero. -/
theorem slot_lt_iff (he : e ∈ entries) : (slot entries e.1).toNat < tableLength entries ↔
    (0 ∈ entries.map (·.1) → 0xFFFFFFFC ∈ entries.map (·.1) → e.1 = 0) := by
  obtain ⟨lo, hlo, hi, hhi, hbase, hend, hall⟩ :=
    tableBase_tableEnd hal (List.ne_nil_of_mem he)
  have hslot := slot_toNat hal hlo hbase (fun e he => (hall e he).1) he
  have hle := BitVec.le_def.1 (hall e he).2
  have hlohi := BitVec.le_def.1 (hall hi hhi).1
  have h1 := aligned_iff.1 (hal hi hhi)
  have h2 := aligned_iff.1 (hal lo hlo)
  have hlt := hi.1.isLt
  have hcount : (slotCount entries).toNat = (hi.1.toNat + 4 - lo.1.toNat) % 2 ^ 32 / 4 := by
    unfold slotCount
    rw [hbase, hend, BitVec.toNat_ushiftRight, Nat.shiftRight_eq_div_pow, BitVec.toNat_sub, BitVec.toNat_add]
    simp only [BitVec.ofNat_eq_ofNat, BitVec.toNat_ofNat]
    omega
  -- the whole address space is the case of the lowest and the highest word
  have hwhole : (0 ∈ entries.map (·.1) ∧ 0xFFFFFFFC ∈ entries.map (·.1)) ↔
      lo.1.toNat = 0 ∧ hi.1.toNat = 0xFFFFFFFC := by
    constructor
    · rintro ⟨h0, hf⟩
      obtain ⟨z, hz, hz0⟩ := List.mem_map.1 h0
      obtain ⟨t, ht, htf⟩ := List.mem_map.1 hf
      have hz' := BitVec.le_def.1 (hall z hz).1
      have ht' := BitVec.le_def.1 (hall t ht).2
      rw [hz0] at hz'
      rw [htf] at ht'
      simp only [BitVec.ofNat_eq_ofNat, BitVec.toNat_ofNat] at hz' ht'
      omega
    · rintro ⟨hl, hh⟩
      refine ⟨List.mem_map.2 ⟨lo, hlo, BitVec.eq_of_toNat_eq ?_⟩, List.mem_map.2 ⟨hi, hhi, BitVec.eq_of_toNat_eq ?_⟩⟩
      · simpa using hl
      · simpa using hh
  have hzero : e.1 = 0 ↔ e.1.toNat = 0 :=
    ⟨fun h => by rw [h]; rfl, fun h => BitVec.eq_of_toNat_eq (by simpa using h)⟩
  have hcz : slotCount entries = 0 ↔ (slotCount entries).toNat = 0 :=
    ⟨fun h => by rw [h]; rfl, fun h => BitVec.eq_of_toNat_eq (by simpa using h)⟩
  rw [← and_imp, hwhole, hzero]
  unfold tableLength
  by_cases hc : slotCount entries = 0
  · rw [if_pos hc]
    rw [hcz, hcount] at hc
    constructor
    · intro hs _
      omega
    · intro hs
      have := hs (by omega)
      omega
  · rw [if_neg hc, hcount]
    rw [hcz, hcount] at hc
    constructor
    · intro _ hw
      omega
    · intro _
      omega

end

/-- **A slot holds the entry of its address.** -/
theorem slotValue_entry (hnd : (entries.map (·.1)).Nodup) (hal : ∀ e ∈ entries, e.1 &&& 3 = 0) (he : (a, o) ∈ entries)
    (hroom : 0 ∈ entries.map (·.1) → 0xFFFFFFFC ∈ entries.map (·.1) → a = 0) :
    slotValue entries (slot entries a) = some o := by
  obtain ⟨lo, hlo, hi, -, hbase, -, hall⟩ := tableBase_tableEnd hal (List.ne_nil_of_mem he)
  unfold slotValue
  rw [if_pos ((slot_lt_iff hal he).2 hroom)]
  refine Recompiler.lookup_of_nodup ?_ ?_
  · rw [List.map_reverse, List.nodup_reverse, List.map_map]
    have hsnd : ((sorted entries).map (·.1)).Nodup := (sorted_perm.map _).nodup_iff.2 hnd
    refine (List.nodup_map_iff_inj_on (List.Nodup.of_map _ hsnd)).2 fun e he e' he' h => ?_
    have hm := sorted_perm.mem_iff.1 he
    have hm' := sorted_perm.mem_iff.1 he'
    have h1 := slot_toNat hal hlo hbase (fun e he => (hall e he).1) hm
    have h2 := slot_toNat hal hlo hbase (fun e he => (hall e he).1) hm'
    simp only [Function.comp_apply] at h
    rw [h] at h1
    exact List.inj_on_of_nodup_map hsnd he he' (BitVec.eq_of_toNat_eq (by omega))
  · rw [List.mem_reverse]
    exact List.mem_map.2 ⟨(a, o), sorted_perm.mem_iff.2 he, rfl⟩

/-! ## The entries of the table -/

theorem addEntry_spec {entries' : List (Word × Word)} (h : addEntry R entries e = some entries')
    (hnd : (entries.map (·.1)).Nodup) (hal : ∀ x ∈ entries, x.1 &&& 3 = 0) :
    (entries'.map (·.1)).Nodup ∧ ∀ x ∈ entries', x.1 &&& 3 = 0 := by
  unfold addEntry at h
  split at h
  · cases h
    exact ⟨hnd, hal⟩
  · split at h
    · cases h
    · rename_i ha
      split at h
      · cases h
        exact ⟨hnd, hal⟩
      · rename_i hmem
        cases h
        refine ⟨?_, fun x hx => ?_⟩
        · rw [List.map_append, List.map_singleton, ← List.concat_eq_append]
          exact List.Nodup.concat hmem hnd
        · rcases List.mem_append.1 hx with hx | hx
          · exact hal x hx
          · rw [List.mem_singleton.1 hx]
            exact not_not.1 ha

theorem table_spec (ht : emit R byOwner = some table) : (table.map (·.1)).Nodup ∧ ∀ e ∈ table, e.1 &&& 3 = 0 := by
  have hfold : ∀ (reqs : List (Word × Word)) {entries : List (Word × Word)},
      (entries.map (·.1)).Nodup → (∀ x ∈ entries, x.1 &&& 3 = 0) →
      reqs.foldlM (addEntry R) entries = some table →
      (table.map (·.1)).Nodup ∧ ∀ e ∈ table, e.1 &&& 3 = 0 := by
    intro reqs
    induction reqs with
    | nil =>
      intro entries hnd hal h
      cases h
      exact ⟨hnd, hal⟩
    | cons e reqs ih =>
      intro entries hnd hal h
      rw [List.foldlM_cons] at h
      obtain ⟨entries', he, h⟩ := Option.bind_eq_some_iff.1 h
      obtain ⟨hnd', hal'⟩ := addEntry_spec he hnd hal
      exact ih hnd' hal' h
  unfold emit at ht
  split at ht
  · cases ht
  · refine hfold _ ?_ (fun x hx => ?_) ht
    · exact List.nodup_nil
    · cases hx

/-- Something asks for the address. -/
def Registered (R : Recompiler) (a : Word) : Prop :=
  R.bootstrapEntry = some a ∨
    (∃ f ∈ R.functions, Recompiler.shouldGenerateCodeForFunction f = true ∧ f.start = a) ∨
    ∃ o, (o, a) ∈ R.assignments

/-- There is room for the address: the table does not go around the whole address space. -/
def Room (R : Recompiler) (a : Word) : Prop := Registered R 0 → Registered R 0xFFFFFFFC → a = 0

section Perm

variable (hperm : byOwner.Perm R.resumeEntryTargetsByOwner)
include hperm

theorem registered_iff : Registered R a ↔ ∃ o, (a, o) ∈ requests R byOwner := by
  constructor
  · rintro (h | ⟨f, hf, hg, rfl⟩ | ⟨o, h⟩)
    · refine ⟨a, ?_⟩
      unfold requests
      simp only [List.mem_append, List.mem_map, Option.mem_toList]
      exact .inl (.inl (.inl (.inl (.inl ⟨a, h, rfl⟩))))
    · refine ⟨f.start, ?_⟩
      have hmem : ∀ p : Function → Bool, p f = true → (f.start, f.start) ∈ functionEntries R p :=
        fun p hp => mem_functionEntries.2 ⟨rfl, f, hf, hg, hp, rfl⟩
      unfold requests
      simp only [List.mem_append]
      -- the kinds of functions
      cases hs : f.isSkipped with
      | true => exact .inr (hmem _ hs)
      | false =>
        cases hst : f.isStub with
        | false => exact .inl (.inl (.inl (.inl (.inr (hmem _ (by simp [hs, hst]))))))
        | true =>
          cases hsys : R.isSyscallTarget f.name with
          | false => exact .inl (.inl (.inr (hmem _ (by simp [hs, hst, hsys]))))
          | true => exact .inl (.inr (hmem _ (by simp [hs, hst, hsys])))
    · exact ⟨o, Recompiler.mem_requests_owner hperm h⟩
  · rintro ⟨o, h⟩
    simp only [requests, List.mem_append, mem_owners hperm, mem_functionEntries, List.mem_map,
      Prod.mk.injEq, Option.mem_toList] at h
    rcases h with ((((⟨x, hx, rfl, rfl⟩ | ⟨rfl, f, hf, hg, -, rfl⟩) | h) |
      ⟨rfl, f, hf, hg, -, rfl⟩) | ⟨rfl, f, hf, hg, -, rfl⟩) | ⟨rfl, f, hf, hg, -, rfl⟩
    · exact .inl hx
    · exact .inr (.inl ⟨f, hf, hg, rfl⟩)
    · exact .inr (.inr ⟨o, h⟩)
    · exact .inr (.inl ⟨f, hf, hg, rfl⟩)
    · exact .inr (.inl ⟨f, hf, hg, rfl⟩)
    · exact .inr (.inl ⟨f, hf, hg, rfl⟩)

section

variable (ht : emit R byOwner = some table)

include ht

theorem mem_table_iff : a ∈ table.map (·.1) ↔ Registered R a := by
  rw [registered_iff hperm]
  have hlook := lookup_table hperm ht a
  constructor
  · intro h
    obtain ⟨e, he, rfl⟩ := List.mem_map.1 h
    rw [Recompiler.lookup_of_nodup (table_spec ht).1 he] at hlook
    exact ⟨e.2, FunctionEmitter.mem_of_lookup hlook.symm⟩
  · rintro ⟨o, h⟩
    obtain ⟨o', ho', -⟩ := Recompiler.lookup_of_request hperm ht h
    exact List.mem_map.2 ⟨_, FunctionEmitter.mem_of_lookup ho', rfl⟩

theorem room_iff (he : e ∈ table) : (slot table e.1).toNat < tableLength table ↔ Room R e.1 := by
  rw [slot_lt_iff (table_spec ht).2 he, mem_table_iff hperm ht, mem_table_iff hperm ht]
  rfl

/-- **What a slot holds**: the first request for its address. -/
theorem slotValue_eq_some_iff (ha : Registered R a) :
    slotValue table (slot table a) = some o ↔ Room R a ∧ (requests R byOwner).lookup a = some o := by
  obtain ⟨hnd, hal⟩ := table_spec ht
  obtain ⟨e, he, rfl⟩ := List.mem_map.1 ((mem_table_iff hperm ht).2 ha)
  have hlook := Recompiler.lookup_of_nodup hnd he
  rw [← lookup_table hperm ht, hlook, ← room_iff hperm ht he]
  constructor
  · intro h
    have hlt : (slot table e.1).toNat < tableLength table := by
      unfold slotValue at h
      split at h
      · assumption
      · cases h
    rw [slotValue_entry hnd hal he ((slot_lt_iff hal he).1 hlt)] at h
    exact ⟨hlt, h⟩
  · rintro ⟨hlt, h⟩
    rw [slotValue_entry hnd hal he ((slot_lt_iff hal he).1 hlt)]
    exact h

end

/-! ## Who wins an address -/

omit hperm in
theorem hasCode_iff {f : Function} : f.hasCode = true ↔
    Recompiler.shouldGenerateCodeForFunction f = true ∧ (!f.isSkipped && !f.isStub) = true := by
  unfold Function.hasCode Recompiler.shouldGenerateCodeForFunction
  cases f.isRecompiled <;> cases f.isStub <;> cases f.isSkipped <;> decide

omit hperm in
theorem mem_first : (a, o) ∈ R.bootstrapEntry.toList.map (fun a => (a, a)) ++
      functionEntries R (fun f => !f.isSkipped && !f.isStub) ↔
    o = a ∧ (R.bootstrapEntry = some a ∨ ∃ f ∈ R.functions, f.hasCode = true ∧ f.start = a) := by
  rw [List.mem_append, mem_functionEntries, List.mem_map]
  constructor
  · rintro (⟨x, hx, he⟩ | ⟨rfl, f, hf, hg, hp, rfl⟩)
    · cases he
      exact ⟨rfl, .inl (Option.mem_toList.1 hx)⟩
    · exact ⟨rfl, .inr ⟨f, hf, hasCode_iff.2 ⟨hg, hp⟩, rfl⟩⟩
  · rintro ⟨rfl, h | ⟨f, hf, hc, rfl⟩⟩
    · exact .inl ⟨o, Option.mem_toList.2 h, rfl⟩
    · exact .inr ⟨rfl, f, hf, (hasCode_iff.1 hc).1, (hasCode_iff.1 hc).2, rfl⟩

omit hperm in
theorem lookup_isSome_of_mem {l : List (Word × Word)} (h : (a, o) ∈ l) : ∃ o', l.lookup a = some o' := by
  cases hl : l.lookup a with
  | none =>
    rw [List.lookup_eq_none_iff] at hl
    simpa using hl _ h
  | some o' => exact ⟨o', rfl⟩

omit hperm in
theorem lookup_first (h : R.bootstrapEntry = some a ∨ ∃ f ∈ R.functions, f.hasCode = true ∧ f.start = a) :
    (requests R byOwner).lookup a = some a := by
  obtain ⟨o, ho⟩ := lookup_isSome_of_mem (mem_first.2 ⟨rfl, h⟩)
  obtain ⟨rfl, -⟩ := mem_first.1 (FunctionEmitter.mem_of_lookup ho)
  unfold requests
  simp only [List.lookup_append, Option.or_assoc] at ho ⊢
  rw [← Option.or_assoc, ho]
  rfl

theorem lookup_owner (hboot : R.bootstrapEntry ≠ some a) (hcode : ∀ f ∈ R.functions, f.hasCode = true → f.start ≠ a)
    (ho : (o, a) ∈ R.assignments) : ∃ o', (requests R byOwner).lookup a = some o' ∧ (o', a) ∈ R.assignments := by
  obtain ⟨o', ho'⟩ := lookup_isSome_of_mem ((mem_owners hperm).2 ho)
  refine ⟨o', ?_, (mem_owners hperm).1 (FunctionEmitter.mem_of_lookup ho')⟩
  have hfirst : (R.bootstrapEntry.toList.map (fun a => (a, a)) ++
      functionEntries R (fun f => !f.isSkipped && !f.isStub)).lookup a = none := by
    cases hl : (R.bootstrapEntry.toList.map (fun a => (a, a)) ++
        functionEntries R (fun f => !f.isSkipped && !f.isStub)).lookup a with
    | none => rfl
    | some x =>
      obtain ⟨-, h | ⟨f, hf, hc, hs⟩⟩ := mem_first.1 (FunctionEmitter.mem_of_lookup hl)
      · exact absurd h hboot
      · exact absurd hs (hcode f hf hc)
  unfold requests
  simp only [List.append_assoc] at hfirst ⊢
  rw [← List.append_assoc, List.lookup_append, hfirst, Option.none_or, List.lookup_append, ho']
  rfl

end Perm

/-! ## The table as a whole -/

/-- Every function has its own slot, and every resume address leads to a function with a case
for it, or that starts there. -/
structure Binds (R : Recompiler) (table : List (Word × Word)) : Prop where
  starts : ∀ f ∈ R.functions, Recompiler.shouldGenerateCodeForFunction f = true →
    slotValue table (slot table f.start) = some f.start
  resumes : ∀ o a, (o, a) ∈ R.assignments → ∃ g ∈ R.functions,
    slotValue table (slot table a) = some g.start ∧
      Recompiler.shouldGenerateCodeForFunction g = true ∧
      (g.hasCode = true ∧ a ∈ FunctionEmitter.resumeTargets R.generator g
          ((R.decoded g.start).getD []) ∨
        g.start = a)

/-- The addresses do not get in the way of each other. -/
structure Free (R : Recompiler) : Prop where
  /-- No stub and no skipped function starts at a resume address, the bootstrap entry apart. -/
  stubs : ∀ f ∈ R.functions, f.isStub = true ∨ f.isSkipped = true →
    R.bootstrapEntry ≠ some f.start → ∀ o, (o, f.start) ∉ R.assignments
  /-- A bootstrap entry that is a resume address is the start of a function. -/
  bootstrap : ∀ o a, R.bootstrapEntry = some a → (o, a) ∈ R.assignments →
    ∃ f ∈ R.functions, Recompiler.shouldGenerateCodeForFunction f = true ∧ f.start = a
  /-- The addresses do not go around the whole address space. -/
  room : ∀ a, (∃ f ∈ R.functions, Recompiler.shouldGenerateCodeForFunction f = true ∧
      f.start = a) ∨ (∃ o, (o, a) ∈ R.assignments) → Room R a

/-- **The table binds what it should** exactly when no stub is hidden by a resume address. -/
theorem table_binds_iff (hperm : byOwner.Perm R.resumeEntryTargetsByOwner)
    (ht : emit R byOwner = some table) : Binds R table ↔ Free R := by
  constructor
  · intro h
    refine ⟨fun f hf hs hboot o ho => ?_, fun o a hb ho => ?_, ?_⟩
    · -- the owner wins, and it has code while the function has none
      have hg : Recompiler.shouldGenerateCodeForFunction f = true := by
        unfold Recompiler.shouldGenerateCodeForFunction
        rcases hs with hs | hs <;> simp [hs]
      have hnc : f.hasCode = false := by
        unfold Function.hasCode
        rcases hs with hs | hs <;> simp [hs]
      have hcode : ∀ g ∈ R.functions, g.hasCode = true → g.start ≠ f.start := by
        intro g hgm hgc hgs
        rw [Recompiler.functions_inj hgm hf hgs, hnc] at hgc
        cases hgc
      obtain ⟨o', ho', hassign⟩ := lookup_owner hperm hboot hcode ho
      have hreg : Registered R f.start := .inr (.inr ⟨o, ho⟩)
      have hslot := ((slotValue_eq_some_iff hperm ht hreg).1 (h.starts f hf hg)).2
      rw [ho'] at hslot
      cases hslot
      obtain ⟨g, hgm, hown, hgs, -⟩ := Recompiler.mem_assignments_local hassign
      exact hcode g hgm (hasCode_of_owns hown) hgs
    · obtain ⟨g, hgm, hslot, hgen, -⟩ := h.resumes o a ho
      have hreg : Registered R a := .inl hb
      have hlook := ((slotValue_eq_some_iff hperm ht hreg).1 hslot).2
      rw [lookup_first (.inl hb)] at hlook
      exact ⟨g, hgm, hgen, (Option.some.inj hlook).symm⟩
    · rintro a (⟨f, hf, hg, rfl⟩ | ⟨o, ho⟩)
      · exact ((slotValue_eq_some_iff hperm ht (.inr (.inl ⟨f, hf, hg, rfl⟩))).1 (h.starts f hf hg)).1
      · obtain ⟨g, -, hslot, -⟩ := h.resumes o a ho
        exact ((slotValue_eq_some_iff hperm ht (.inr (.inr ⟨o, ho⟩))).1 hslot).1
  · intro h
    constructor
    · intro f hf hg
      refine (slotValue_eq_some_iff hperm ht (.inr (.inl ⟨f, hf, hg, rfl⟩))).2 ⟨h.room _ (.inl ⟨f, hf, hg, rfl⟩), ?_⟩
      by_cases hfirst : R.bootstrapEntry = some f.start ∨ ∃ g ∈ R.functions, g.hasCode = true ∧ g.start = f.start
      · exact lookup_first hfirst
      · rw [not_or] at hfirst
        have hs : f.isStub = true ∨ f.isSkipped = true := by
          by_contra hcon
          rw [not_or, Bool.not_eq_true, Bool.not_eq_true] at hcon
          exact hfirst.2 ⟨f, hf, hasCode_iff.2 ⟨hg, by simp [hcon.1, hcon.2]⟩, rfl⟩
        obtain ⟨o, ho⟩ := (registered_iff hperm).1 (.inr (.inl ⟨f, hf, hg, rfl⟩))
        obtain ⟨o', ho'⟩ := lookup_isSome_of_mem ho
        rcases requests_cases hperm (FunctionEmitter.mem_of_lookup ho') with he | he
        · rw [ho', ← he]
        · exact absurd he (h.stubs f hf hs hfirst.1 o')
    · intro o a ho
      have hroom := h.room a (.inr ⟨o, ho⟩)
      have hslot : ∀ x, (requests R byOwner).lookup a = some x → slotValue table (slot table a) = some x := fun x hx =>
        (slotValue_eq_some_iff hperm ht (.inr (.inr ⟨o, ho⟩))).2 ⟨hroom, hx⟩
      by_cases hfirst : R.bootstrapEntry = some a ∨ ∃ g ∈ R.functions, g.hasCode = true ∧ g.start = a
      · have hsome := hslot a (lookup_first hfirst)
        obtain ⟨g, hgm, hgen, rfl⟩ : ∃ g ∈ R.functions,
            Recompiler.shouldGenerateCodeForFunction g = true ∧ g.start = a := by
          rcases hfirst with hb | ⟨g, hgm, hgc, hgs⟩
          · exact h.bootstrap o a hb ho
          · exact ⟨g, hgm, generates_of_hasCode hgc, hgs⟩
        exact ⟨g, hgm, hsome, hgen, .inr rfl⟩
      · rw [not_or] at hfirst
        obtain ⟨o', ho', hassign⟩ := lookup_owner hperm hfirst.1 (fun g hgm hgc hgs => hfirst.2 ⟨g, hgm, hgc, hgs⟩) ho
        obtain ⟨g, hgm, hown, hgs, -⟩ := Recompiler.mem_assignments_local hassign
        subst hgs
        have hgc := hasCode_of_owns hown
        refine ⟨g, hgm, hslot _ ho', generates_of_hasCode hgc, .inl ⟨hgc, ?_⟩⟩
        exact Recompiler.mem_resumeTargets.2 (.inr hassign)

/-- A call and the return to it. -/
def callAndReturn : List Instruction :=
  [{ opcode := .jal, target := 0x80, isJump := true, hasDelaySlot := true }, {},
    { opcode := .special, function := specialJr, rs := 31, isJump := true, hasDelaySlot := true },
    {}]

theorem callAndReturn_binds : Binds (.single "caller" 0x100 callAndReturn) [(0x100, 0x100), (0x108, 0x100)] := by
  have hassign : (Recompiler.single "caller" 0x100 callAndReturn).assignments = [(0x100, 0x108)] := by decide
  have hperm : [((0x100 : Word), [(0x108 : Word)])].Perm
      (Recompiler.single "caller" 0x100 callAndReturn).resumeEntryTargetsByOwner := by decide
  refine (table_binds_iff hperm (by decide)).2 ⟨?_, ?_, ?_⟩
  · rintro f hf (h | h)
    · rw [List.mem_singleton.1 hf] at h
      cases h
    · rw [List.mem_singleton.1 hf] at h
      cases h
  · intro o a h
    cases h
  · rintro a - (h | ⟨f, hf, -, h⟩ | ⟨o, h⟩)
    · cases h
    · rw [List.mem_singleton.1 hf] at h
      exact absurd h (by decide)
    · rw [hassign, List.mem_singleton] at h
      have h0 : (0 : Word) = 0x108 := congrArg Prod.snd h
      exact absurd h0 (by decide)

/-- The same with a stub at the return address. -/
def hiddenStub : Recompiler where
  codeGenerator := { analyzer := { sections := [], configJumpTables := [] } }
  extracted := [{ name := "caller", start := 0x100, endAddr := 0x110 },
    { name := "memcpy", start := 0x108, endAddr := 0x110 }]
  starts_nodup := by decide
  isStubFunction := fun f => f.start == 0x108
  shouldSkipFunction := fun _ => false
  decodeAt := fun a => callAndReturn[(a - 0x100).toNat / 4]?

/-- **The stub has no slot**: its address is registered to the caller. -/
theorem hiddenStub_not_bound :
    FunctionTableEmitter.emit hiddenStub hiddenStub.resumeEntryTargetsByOwner =
        some [(0x100, 0x100), (0x108, 0x100)] ∧
      ¬ Binds hiddenStub [(0x100, 0x100), (0x108, 0x100)] := by
  refine ⟨by decide, fun h => ?_⟩
  have hslot := h.starts { name := "memcpy", start := 0x108, endAddr := 0x110, isStub := true } (by decide) rfl
  exact absurd hslot (by decide)

end FunctionTableEmitter

end Ps2Recomp
