import Ps2Recomp.Spec.FunctionScan

/-!
# Extracted functions and authoritative ranges

What `extractFunctions` returns for any symbol table and any list of debug and map functions.

* `sorted_starts`, `start_lt_end`: starts increase strictly, and no function is empty.
* `mem_extract`: a function comes back for every start that some admitted candidate has, under
  a proper name if one of them had one.
* `separated_iff`: no function without a proper name or a range of its own lies inside an
  authoritative range, exactly when the one range that `isInsideAuthoritativeRange` asks decides
  for every start without a range, and every start with a range inside another one has a name.
-/

namespace Ps2Recomp.FunctionExtraction.ElfParser

open FunctionScan

variable {p : ElfParser}

/-! ## Sections and ranges -/

variable {a : Word}

theorem sectionOf_bounds {sec : Section} (h : p.sectionOf a = some sec) :
    sec.address ≤ a ∧ a < sec.address + sec.size := by
  unfold sectionOf findFunctionSectionByAddress at h
  split at h
  · rename_i found hfound
    cases h
    have hin := List.find?_some hfound
    simp only [Bool.and_eq_true, decide_eq_true_eq] at hin
    exact ⟨hin.1.2, hin.2⟩
  · split at h
    · cases h
    · have hin := List.find?_some h
      simp only [Bool.and_eq_true, decide_eq_true_eq] at hin
      exact hin

theorem clampedRange_lt {start requestedEnd : Word} {r : Word × Word}
    (h : p.clampedRange start requestedEnd = some r) : r.1 < r.2 := by
  unfold clampedRange at h
  split at h
  · cases h
  dsimp only at h
  split at h
  · cases h
  rename_i hlt
  cases h
  exact BitVec.not_le.1 hlt

theorem givenRanges_lt {r : Word × Word} (h : r ∈ p.givenRanges) : r.1 < r.2 := by
  rw [givenRanges, List.mem_append, List.mem_filterMap, List.mem_filterMap] at h
  rcases h with ⟨s, -, hs⟩ | ⟨f, -, hf⟩
  · unfold symbolRange at hs
    split at hs
    · cases hs
    split at hs
    · cases hs
    exact clampedRange_lt hs
  · unfold extraRange at hf
    split at hf
    · cases hf
    exact clampedRange_lt hf

theorem lookup_put {ends : Ends} {start stop a b : Word} (h : (ends.put start stop).lookup a = some b) :
    ends.lookup a = some b ∨ (a = start ∧ b = stop) := by
  have hinsert : (ends.insert start stop).lookup a = some b → ends.lookup a = some b ∨ (a = start ∧ b = stop) := by
    intro h
    by_cases ha : a = start
    · rw [ha, AList.lookup_insert] at h
      exact .inr ⟨ha, (Option.some.inj h).symm⟩
    · rw [AList.lookup_insert_ne ha] at h
      exact .inl h
  unfold Ends.put at h
  split at h
  · exact hinsert h
  · split at h
    · exact hinsert h
    · exact .inl h

theorem end_lt {a b : Word} (h : p.authoritativeEndByStart.lookup a = some b) : a < b := by
  have hrun : ∀ (rs : List (Word × Word)) (ends : Ends), (∀ r ∈ rs, r.1 < r.2) →
      (∀ a b, ends.lookup a = some b → a < b) →
      ∀ a b, (rs.foldl (fun ends r => ends.put r.1 r.2) ends).lookup a = some b → a < b := by
    intro rs
    induction rs with
    | nil => exact fun ends _ hends => hends
    | cons r rs ih =>
      intro ends hrs hends
      apply ih (ends.put r.1 r.2) (fun q hq => hrs q (List.mem_cons_of_mem _ hq))
      intro a b hab
      rcases lookup_put hab with h | ⟨rfl, rfl⟩
      · exact hends a b h
      · exact hrs r List.mem_cons_self
  refine hrun p.givenRanges ∅ (fun r hr => givenRanges_lt hr) ?_ a b h
  intro a b hab
  rw [AList.lookup_empty] at hab
  cases hab

theorem mem_authoritativeRanges {a b : Word} :
    (a, b) ∈ p.authoritativeRanges ↔ p.authoritativeEndByStart.lookup a = some b := by
  rw [authoritativeRanges, List.mem_insertionSort, List.mem_map, ← Option.mem_def, AList.mem_lookup_iff]
  constructor
  · rintro ⟨⟨a', b'⟩, he, h⟩
    cases h
    exact he
  · intro h
    exact ⟨⟨a, b⟩, h, rfl⟩

theorem authoritativeRanges_sorted : p.authoritativeRanges.Pairwise (fun a b => a.1.toNat ≤ b.1.toNat) := by
  have : Std.Total (fun a b : Word × Word => a.1.toNat ≤ b.1.toNat) := ⟨fun a b => le_total _ _⟩
  have : IsTrans (Word × Word) (fun a b => a.1.toNat ≤ b.1.toNat) := ⟨fun a b c => le_trans⟩
  exact List.pairwise_insertionSort _ _

theorem hasOwn_iff : p.hasOwnAuthoritativeRange a = true ↔ ∃ b, (a, b) ∈ p.authoritativeRanges := by
  rw [hasOwnAuthoritativeRange, Option.isSome_iff_exists]
  exact exists_congr fun b => mem_authoritativeRanges.symm

/-- The address lies strictly inside an authoritative range. -/
def Inside (p : ElfParser) (a : Word) : Prop :=
  ∃ r ∈ p.authoritativeRanges, r.1 < a ∧ a < r.2

/-- Of the ranges that start up to the address, the last one holds it strictly inside. -/
def InsideLast (p : ElfParser) (a : Word) : Prop :=
  ∃ r ∈ p.authoritativeRanges, r.1 < a ∧ a < r.2 ∧ ∀ q ∈ p.authoritativeRanges, q.1 ≤ a → q.1 ≤ r.1

/-- The single `upper_bound` step asks the last range that starts up to the address. -/
theorem isInside_iff : p.isInsideAuthoritativeRange a = true ↔ p.InsideLast a := by
  unfold isInsideAuthoritativeRange
  constructor
  · intro h
    split at h
    · cases h
    · rename_i r hr
      obtain ⟨hmem, -, hmax⟩ := Floor.floor?_eq_some authoritativeRanges_sorted hr
      simp only [Bool.and_eq_true, decide_eq_true_eq] at h
      exact ⟨r, hmem, h.1, h.2, hmax⟩
  · rintro ⟨r, hmem, hlo, hhi, hmax⟩
    split
    · rename_i hnone
      have hno := (Floor.floor?_eq_none authoritativeRanges_sorted).1 hnone r hmem
      exact absurd (BitVec.le_of_lt hlo) hno
    · rename_i q hq
      obtain ⟨hqmem, hqa, hqmax⟩ := Floor.floor?_eq_some authoritativeRanges_sorted hq
      -- both are the last, and a start has one range
      have hstart : q.1 = r.1 :=
        BitVec.eq_of_toNat_eq (le_antisymm (hmax q hqmem hqa) (hqmax r hmem (BitVec.le_of_lt hlo)))
      have hr : p.authoritativeEndByStart.lookup r.1 = some r.2 := mem_authoritativeRanges.1 hmem
      have hq : p.authoritativeEndByStart.lookup q.1 = some q.2 := mem_authoritativeRanges.1 hqmem
      rw [hstart, hr] at hq
      simp only [Bool.and_eq_true, decide_eq_true_eq]
      rw [hstart, ← Option.some.inj hq]
      exact ⟨hlo, hhi⟩

/-- The last range up to a start with a range is that range, so nothing is inside there. -/
theorem not_insideLast_of_own (h : p.hasOwnAuthoritativeRange a = true) : ¬p.InsideLast a := by
  rintro ⟨r, -, hlo, -, hmax⟩
  obtain ⟨b, hb⟩ := hasOwn_iff.1 h
  exact BitVec.not_lt.2 (hmax (a, b) hb (BitVec.le_refl a)) hlo

variable {f : Function}

/-- What `addOrMerge` takes. The test of the name never decides: where it is reached with a range
of its own, the range in front of the bound is that one. -/
theorem admits_iff : p.admits f = true ↔ f.start ≠ 0 ∧ (p.sectionOf f.start).isSome = true ∧ ¬p.InsideLast f.start := by
  rw [← isInside_iff]
  unfold admits
  simp only [Bool.and_eq_true, bne_iff_ne, ne_eq, Bool.not_eq_true', Bool.not_eq_true, and_assoc]
  refine and_congr_right fun _ => and_congr_right fun _ => ?_
  cases hinside : p.isInsideAuthoritativeRange f.start with
  | false => simp
  | true =>
    have hown : p.hasOwnAuthoritativeRange f.start = false := by
      by_contra hown
      exact not_insideLast_of_own (Bool.not_eq_false _ ▸ hown) (isInside_iff.1 hinside)
    simp [hown]

/-! ## Merging -/

theorem hasAutoName_mergedInto {g f : Function} :
    hasAutoName (p.mergedInto g f).name = true ↔ hasAutoName g.name = true ∧ hasAutoName f.name = true := by
  have hempty : isAutoGeneratedName "" = false := by decide
  unfold mergedInto hasAutoName
  dsimp only
  simp only [Bool.or_eq_true, beq_iff_eq, Bool.not_eq_true']
  by_cases hf : f.name = ""
  · simp [hf]
  by_cases hg : g.name = ""
  · simp [hf, hg, hempty]
  cases hga : isAutoGeneratedName g.name <;> cases hfa : isAutoGeneratedName f.name <;>
    simp [hf, hg, hga, hfa]

/-- What holds of the functions merged from the candidates seen so far. -/
structure Merged (p : ElfParser) (seen functions : List Function) : Prop where
  nodup : (functions.map (·.start)).Nodup
  given : ∀ g ∈ functions, ∃ c ∈ seen, p.admits c = true ∧ c.start = g.start
  kept : ∀ c ∈ seen, p.admits c = true → ∃ g ∈ functions, g.start = c.start
  named : ∀ g ∈ functions, hasAutoName g.name = true ↔
    ∀ c ∈ seen, p.admits c = true → c.start = g.start → hasAutoName c.name = true

theorem start_merge (f : Function) (g : Function) :
    (if g.start = f.start then p.mergedInto g f else g).start = g.start := by
  split
  · rfl
  · rfl

variable {seen functions : List Function}

section

variable (h : Merged p seen functions)

include h

theorem Merged.skip (hf : p.admits f = false) : Merged p (seen ++ [f]) functions where
  nodup := h.nodup
  given := by
    intro g hg
    obtain ⟨c, hc, hrest⟩ := h.given g hg
    exact ⟨c, List.mem_append_left _ hc, hrest⟩
  kept := by
    intro c hc hadmit
    rw [List.mem_append, List.mem_singleton] at hc
    rcases hc with hc | rfl
    · exact h.kept c hc hadmit
    · rw [hf] at hadmit
      cases hadmit
  named := by
    intro g hg
    rw [h.named g hg]
    constructor
    · intro hall c hc hadmit
      rw [List.mem_append, List.mem_singleton] at hc
      rcases hc with hc | rfl
      · exact hall c hc hadmit
      · rw [hf] at hadmit
        cases hadmit
    · intro hall c hc
      exact hall c (List.mem_append_left _ hc)

theorem Merged.merge (hf : p.admits f = true) (hknown : ∃ g ∈ functions, g.start = f.start) :
    Merged p (seen ++ [f]) (functions.map (fun g => if g.start = f.start then p.mergedInto g f else g)) where
  nodup := by
    have hstarts : (functions.map (fun g => if g.start = f.start then p.mergedInto g f else g)).map
        (·.start) = functions.map (·.start) := by
      rw [List.map_map]
      apply List.map_congr_left
      intro g _
      exact start_merge f g
    rw [hstarts]
    exact h.nodup
  given := by
    intro g hg
    obtain ⟨g0, hg0, rfl⟩ := List.mem_map.1 hg
    obtain ⟨c, hc, hadmit, hstart⟩ := h.given g0 hg0
    exact ⟨c, List.mem_append_left _ hc, hadmit, hstart.trans (start_merge f g0).symm⟩
  kept := by
    have hmap : ∀ g ∈ functions, ∃ g' ∈ functions.map (fun g => if g.start = f.start then
        p.mergedInto g f else g), g'.start = g.start := by
      intro g hg
      exact ⟨_, List.mem_map_of_mem hg, start_merge f g⟩
    intro c hc hadmit
    rw [List.mem_append, List.mem_singleton] at hc
    have hold : ∃ g ∈ functions, g.start = c.start := by
      rcases hc with hc | rfl
      · exact h.kept c hc hadmit
      · exact hknown
    obtain ⟨g, hg, hstart⟩ := hold
    obtain ⟨g', hg', hstart'⟩ := hmap g hg
    exact ⟨g', hg', hstart'.trans hstart⟩
  named := by
    intro g hg
    obtain ⟨g0, hg0, rfl⟩ := List.mem_map.1 hg
    rw [start_merge]
    have hsplit : (∀ c ∈ seen ++ [f], p.admits c = true → c.start = g0.start → hasAutoName c.name = true) ↔
        hasAutoName g0.name = true ∧ (f.start = g0.start → hasAutoName f.name = true) := by
      rw [h.named g0 hg0]
      constructor
      · intro hall
        exact ⟨fun c hc => hall c (List.mem_append_left _ hc),
          hall f (List.mem_append_right _ (List.mem_singleton_self f)) hf⟩
      · rintro ⟨hold, hnew⟩ c hc hadmit hstart
        rw [List.mem_append, List.mem_singleton] at hc
        rcases hc with hc | rfl
        · exact hold c hc hadmit hstart
        · exact hnew hstart
    rw [hsplit]
    by_cases heq : g0.start = f.start
    · rw [if_pos heq, hasAutoName_mergedInto]
      exact and_congr_right fun _ => ⟨fun hname _ => hname, fun hname => hname heq.symm⟩
    · rw [if_neg heq]
      exact ⟨fun hname => ⟨hname, fun hsame => absurd hsame.symm heq⟩, fun hname => hname.1⟩

theorem Merged.insert (hf : p.admits f = true) (hnew : ∀ g ∈ functions, g.start ≠ f.start) :
    Merged p (seen ++ [f]) (functions ++ [p.inserted f]) where
  nodup := by
    rw [List.map_append, List.nodup_append]
    refine ⟨h.nodup, List.nodup_singleton _, ?_⟩
    intro a ha b hb hab
    obtain ⟨g, hg, rfl⟩ := List.mem_map.1 ha
    rw [List.map_singleton, List.mem_singleton] at hb
    exact hnew g hg (hab.trans hb)
  given := by
    intro g hg
    rw [List.mem_append, List.mem_singleton] at hg
    rcases hg with hg | rfl
    · obtain ⟨c, hc, hrest⟩ := h.given g hg
      exact ⟨c, List.mem_append_left _ hc, hrest⟩
    · exact ⟨f, List.mem_append_right _ (List.mem_singleton_self f), hf, rfl⟩
  kept := by
    intro c hc hadmit
    rw [List.mem_append, List.mem_singleton] at hc
    rcases hc with hc | rfl
    · obtain ⟨g, hg, hstart⟩ := h.kept c hc hadmit
      exact ⟨g, List.mem_append_left _ hg, hstart⟩
    · exact ⟨_, List.mem_append_right _ (List.mem_singleton_self _), rfl⟩
  named := by
    intro g hg
    rw [List.mem_append, List.mem_singleton] at hg
    rcases hg with hg | rfl
    · rw [h.named g hg]
      constructor
      · intro hall c hc hadmit hstart
        rw [List.mem_append, List.mem_singleton] at hc
        rcases hc with hc | rfl
        · exact hall c hc hadmit hstart
        · exact absurd hstart.symm (hnew g hg)
      · intro hall c hc
        exact hall c (List.mem_append_left _ hc)
    · -- no candidate before it had its start
      constructor
      · intro hname c hc hadmit hstart
        rw [List.mem_append, List.mem_singleton] at hc
        rcases hc with hc | rfl
        · obtain ⟨g, hg, hg'⟩ := h.kept c hc hadmit
          exact absurd (hg'.trans hstart) (hnew g hg)
        · exact hname
      · intro hall
        exact hall f (List.mem_append_right _ (List.mem_singleton_self f)) hf rfl

theorem Merged.step (f : Function) : Merged p (seen ++ [f]) (p.addOrMerge functions f) := by
  unfold addOrMerge
  cases hf : p.admits f with
  | false => exact h.skip hf
  | true =>
    rw [if_neg (by decide)]
    split
    · rename_i hany
      obtain ⟨g, hg, hstart⟩ := List.any_eq_true.1 hany
      exact h.merge hf ⟨g, hg, beq_iff_eq.1 hstart⟩
    · rename_i hany
      refine h.insert hf ?_
      intro g hg hstart
      exact hany (List.any_eq_true.2 ⟨g, hg, beq_iff_eq.2 hstart⟩)

end

theorem merged_run (cs : List Function) : Merged p cs (cs.foldl p.addOrMerge []) := by
  induction cs using List.reverseRecOn with
  | nil =>
    exact ⟨List.nodup_nil, fun g hg => absurd hg List.not_mem_nil,
      fun c hc => absurd hc List.not_mem_nil, fun g hg => absurd hg List.not_mem_nil⟩
  | append_singleton cs f ih =>
    rw [List.foldl_append]
    exact ih.step f

/-! ## Ends and order -/

/-- Whatever follows, a function in a section gets an end behind its start. -/
theorem start_lt_finalEnd (hsec : (p.sectionOf f.start).isSome = true)
    (next : Option Function) : f.start < p.finalEnd f next := by
  unfold finalEnd
  split
  · rename_i stop hown
    exact end_lt hown
  split
  · assumption
  obtain ⟨sec, hsec⟩ := Option.isSome_iff_exists.1 hsec
  have hinside := (sectionOf_bounds hsec).2
  unfold inferredEnd
  rw [hsec]
  dsimp only
  -- the next start is taken only behind this one, and the section does not end before it
  have hnext : ∀ a : Word, f.start < a → f.start < if f.start < a then a else f.start + 4 := by
    intro a ha
    rw [if_pos ha]
    exact ha
  apply hnext
  split
  · split
    · rename_i hbehind
      exact hbehind.1
    · exact hinside
  · exact hinside

theorem mem_inferEnds {l : List Function} (h : f ∈ p.inferEnds l) :
    ∃ g ∈ l, ∃ next, f = { g with endAddr := p.finalEnd g next } := by
  induction l with
  | nil => cases h
  | cons g l ih =>
    rw [inferEnds, List.mem_cons] at h
    rcases h with rfl | h
    · exact ⟨g, List.mem_cons_self, l.head?, rfl⟩
    · obtain ⟨g', hg', hrest⟩ := ih h
      exact ⟨g', List.mem_cons_of_mem _ hg', hrest⟩

theorem map_inferEnds (l : List Function) :
    (p.inferEnds l).map (fun f => (f.start, f.name)) = l.map (fun f => (f.start, f.name)) := by
  induction l with
  | nil => rfl
  | cons g l ih => rw [inferEnds, List.map_cons, List.map_cons, ih]

/-- The functions before they get their ends. -/
def merged (p : ElfParser) : List Function := p.candidates.foldl p.addOrMerge []

theorem mem_extract {n : String} :
    (∃ f ∈ p.extractFunctions, f.start = a ∧ f.name = n) ↔ ∃ g ∈ p.merged, g.start = a ∧ g.name = n := by
  have hpair : ∀ l : List Function, (∃ f ∈ l, f.start = a ∧ f.name = n) ↔
      (a, n) ∈ l.map (fun f => (f.start, f.name)) := by
    intro l
    rw [List.mem_map]
    exact exists_congr fun f => and_congr_right fun _ => Prod.mk.injEq .. ▸ Iff.rfl
  rw [hpair, hpair, extractFunctions, map_inferEnds]
  exact (List.Perm.map _ (List.perm_insertionSort _ _)).mem_iff

theorem sorted_starts (p : ElfParser) : p.extractFunctions.Pairwise (fun f g => f.start < g.start) := by
  have hle : Std.Total (fun a b : Function => a.start.toNat ≤ b.start.toNat) := ⟨fun a b => le_total _ _⟩
  have htrans : IsTrans Function (fun a b => a.start.toNat ≤ b.start.toNat) := ⟨fun a b c => le_trans⟩
  set sorted := p.merged.insertionSort (fun a b => a.start.toNat ≤ b.start.toNat) with hsorted
  have hperm : sorted.Perm p.merged := List.perm_insertionSort _ _
  have hle := List.pairwise_insertionSort (fun a b : Function => a.start.toNat ≤ b.start.toNat) p.merged
  have hne : sorted.Pairwise (fun f g => f.start ≠ g.start) := by
    have hnodup := (hperm.map (·.start)).nodup_iff.2 (merged_run p.candidates).nodup
    exact List.pairwise_map.1 hnodup
  have hlt : sorted.Pairwise (fun f g => f.start < g.start) := by
    refine hle.imp₂ ?_ hne
    intro f g hfg hfg'
    exact BitVec.lt_of_le_ne hfg hfg'
  have hpairs : ∀ l : List Function, l.Pairwise (fun f g => f.start < g.start) ↔
      (l.map (fun f => (f.start, f.name))).Pairwise (fun a b => a.1 < b.1) := by
    intro l
    rw [List.pairwise_map]
  rw [hpairs, extractFunctions, map_inferEnds, ← hpairs]
  exact hlt

theorem start_lt_end (h : f ∈ p.extractFunctions) : f.start < f.endAddr := by
  obtain ⟨g, hg, next, rfl⟩ := mem_inferEnds h
  rw [List.mem_insertionSort] at hg
  obtain ⟨c, -, hadmit, hstart⟩ := (merged_run p.candidates).given g hg
  have hsec := (admits_iff.1 hadmit).2.1
  rw [hstart] at hsec
  exact start_lt_finalEnd hsec next

/-! ## Separation -/

/-- No function without a proper name or without a range of its own starts strictly inside an
authoritative range. -/
structure Separated (p : ElfParser) : Prop where
  sorted : p.extractFunctions.Pairwise (fun f g => f.start < g.start)
  nonempty : ∀ f ∈ p.extractFunctions, f.start < f.endAddr
  outside : ∀ f ∈ p.extractFunctions,
    hasAutoName f.name = true ∨ p.hasOwnAuthoritativeRange f.start = false → ¬p.Inside f.start

/-- What is returned, in terms of the candidates: a start with an automatic name. -/
theorem extract_auto_iff :
    (∃ f ∈ p.extractFunctions, f.start = a ∧ hasAutoName f.name = true) ↔
      (∃ c ∈ p.candidates, p.admits c = true ∧ c.start = a) ∧
      ∀ c ∈ p.candidates, p.admits c = true → c.start = a → hasAutoName c.name = true := by
  have hrun := merged_run p.candidates (p := p)
  constructor
  · rintro ⟨f, hf, rfl, hname⟩
    obtain ⟨g, hg, hstart, hsame⟩ := mem_extract.1 ⟨f, hf, rfl, rfl⟩
    obtain ⟨c, hc, hadmit, hcstart⟩ := hrun.given g hg
    rw [← hsame, hrun.named g hg, hstart] at hname
    exact ⟨⟨c, hc, hadmit, hcstart.trans hstart⟩, hname⟩
  · rintro ⟨⟨c, hc, hadmit, rfl⟩, hall⟩
    obtain ⟨g, hg, hstart⟩ := hrun.kept c hc hadmit
    have hname := (hrun.named g hg).2 (hstart ▸ hall)
    obtain ⟨f, hf, hfstart, hfname⟩ := mem_extract.2 ⟨g, hg, rfl, rfl⟩
    exact ⟨f, hf, hfstart.trans hstart, hfname ▸ hname⟩

theorem extract_start_iff :
    (∃ f ∈ p.extractFunctions, f.start = a) ↔ ∃ c ∈ p.candidates, p.admits c = true ∧ c.start = a := by
  have hrun := merged_run p.candidates (p := p)
  constructor
  · rintro ⟨f, hf, rfl⟩
    obtain ⟨g, hg, hstart, -⟩ := mem_extract.1 ⟨f, hf, rfl, rfl⟩
    obtain ⟨c, hc, hadmit, hcstart⟩ := hrun.given g hg
    exact ⟨c, hc, hadmit, hcstart.trans hstart⟩
  · rintro ⟨c, hc, hadmit, rfl⟩
    obtain ⟨g, hg, hstart⟩ := hrun.kept c hc hadmit
    obtain ⟨f, hf, hfstart, -⟩ := mem_extract.2 ⟨g, hg, rfl, rfl⟩
    exact ⟨f, hf, hfstart.trans hstart⟩

/-- **The functions lie outside the authoritative ranges** exactly when, for every start inside one,
either the start has a range of its own and a proper name, or it has none and the last range that
starts before it holds it. -/
theorem separated_iff (p : ElfParser) :
    p.Separated ↔ ∀ c ∈ p.candidates, c.start ≠ 0 → (p.sectionOf c.start).isSome = true →
      p.Inside c.start →
      (p.hasOwnAuthoritativeRange c.start = true ∧
        ∃ c' ∈ p.candidates, c'.start = c.start ∧ hasAutoName c'.name = false) ∨
      p.InsideLast c.start := by
  constructor
  · intro h c hc hzero hsec hinside
    by_cases hlast : p.InsideLast c.start
    · exact .inr hlast
    left
    have hadmit : p.admits c = true := admits_iff.2 ⟨hzero, hsec, hlast⟩
    constructor
    · by_contra hown
      obtain ⟨f, hf, hstart⟩ := extract_start_iff.2 ⟨c, hc, hadmit, rfl⟩
      rw [Bool.not_eq_true, ← hstart] at hown
      exact h.outside f hf (.inr hown) (hstart ▸ hinside)
    · by_contra hauto
      push Not at hauto
      have hall : ∀ c' ∈ p.candidates, p.admits c' = true → c'.start = c.start →
          hasAutoName c'.name = true := fun c' hc' _ hstart => by
        simpa using hauto c' hc' hstart
      obtain ⟨f, hf, hstart, hname⟩ := extract_auto_iff.2 ⟨⟨c, hc, hadmit, rfl⟩, hall⟩
      exact h.outside f hf (.inl hname) (hstart ▸ hinside)
  · intro h
    refine ⟨sorted_starts p, fun f hf => start_lt_end hf, ?_⟩
    intro f hf hcase hinside
    obtain ⟨c, hc, hadmit, hstart⟩ := extract_start_iff.1 ⟨f, hf, rfl⟩
    obtain ⟨hzero, hsec, hlast⟩ := admits_iff.1 hadmit
    rcases h c hc hzero hsec (hstart ▸ hinside) with ⟨hown, c', hc', hstart', hname⟩ | hlast'
    · rcases hcase with hauto | hnone
      · -- the proper name of `c'` would have been kept
        have hadmit' : p.admits c' = true := by
          rw [admits_iff, hstart']
          exact ⟨hzero, hsec, hlast⟩
        have hall := (extract_auto_iff.1 ⟨f, hf, rfl, hauto⟩).2 c' hc' hadmit' (hstart'.trans hstart)
        rw [hname] at hall
        cases hall
      · rw [hstart, hnone] at hown
        cases hown
    · exact hlast hlast'

/-- A sized function with a sized one in it, and a label without a size behind the inner one. -/
def nestedSymbols : ElfParser where
  sections := [⟨0x1000, 0x1000, true, none⟩]
  symbols :=
    [⟨"outer", 0x1000, 0x800, true, false⟩, ⟨"inner", 0x1100, 0x100, true, false⟩,
      ⟨"FUN_00001300", 0x1300, 0, true, false⟩]
  extraFunctions := []
  hasLoadedGhidraMap := false
  ghidraMapStarts := []

/-- The label is asked about the inner range only, which ends before it. -/
theorem label_behind_inner : ¬∀ p : ElfParser, p.Separated := by
  intro h
  have hreturned : ∃ f ∈ nestedSymbols.extractFunctions,
      f.start = 0x1300 ∧ nestedSymbols.hasOwnAuthoritativeRange f.start = false := by decide +kernel
  obtain ⟨f, hf, hstart, hown⟩ := hreturned
  have houter : (0x1000, 0x1800) ∈ nestedSymbols.authoritativeRanges := by decide +kernel
  refine (h nestedSymbols).outside f hf (.inr hown) ⟨_, houter, ?_⟩
  rw [hstart]
  decide

end Ps2Recomp.FunctionExtraction.ElfParser
