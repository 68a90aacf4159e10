import Ps2Recomp.Proof.Memory
import Ps2Recomp.Spec.CodeRegions

/-!
# The tracking of code is exact, in steps of four

A range whose part in a region ends in the word that the loop comes to last has the bits of the words
that it touches (`bits_of_fits`). Along runs of such ranges, whose writes to code are of 32 bits or more,
a word counts as modified if a write touched it and no later clearing did (`tracking_exact`).
-/

namespace Ps2Recomp.CodeRegions

open Memory

variable {r : CodeRegion} {regions : List CodeRegion} {address size s e : Word} {i n : ℕ}

/-- The loop comes to the last word of the range, and does not go around. -/
def CodeRegion.Fits (r : CodeRegion) (address size : Word) : Prop :=
  ∀ se ∈ r.overlap address size,
    (se.1.toNat - r.start.toNat) % 4 + (se.2.toNat - se.1.toNat - 1) % 4 < 4 ∧
      se.1.toNat + 4 * ((se.2.toNat - se.1.toNat + 3) / 4) < 2 ^ 32

-- The pairs are finitely many, and a search over them all is not what decides this.
instance (r : CodeRegion) (address size : Word) : Decidable (r.Fits address size) :=
  Option.decidableForallMem (r.overlap address size)

/-! ### Loops -/

theorem steps_eq (hn : e.toNat ≤ s.toNat + 4 * n) (hround : s.toNat + 4 * ((e.toNat - s.toNat + 3) / 4) < 2 ^ 32) : ∃ l,
    steps (n + 1) s e = some l ∧ ∀ a : Word, a ∈ l ↔ ∃ k, a.toNat = s.toNat + 4 * k ∧ s.toNat + 4 * k < e.toNat := by
  induction n generalizing s with
  | zero =>
    have hle : ¬s < e := by
      rw [BitVec.lt_def]
      omega
    refine ⟨[], by rw [steps, if_neg hle], fun a => iff_of_false List.not_mem_nil ?_⟩
    rintro ⟨k, -, hk⟩
    omega
  | succ n ih =>
    have hfour : (4 : Word).toNat = 4 := rfl
    rw [steps]
    by_cases hlt : s < e
    · rw [if_pos hlt]
      rw [BitVec.lt_def] at hlt
      have hnext : (s + 4).toNat = s.toNat + 4 := BitVec.toNat_add_of_lt (by omega)
      obtain ⟨l, hl, hmem⟩ := ih (s := s + 4) (by omega) (by omega)
      refine ⟨s :: l, by rw [hl]; rfl, fun a => ?_⟩
      rw [List.mem_cons, hmem, hnext]
      constructor
      · rintro (rfl | ⟨k, hk, hlt'⟩)
        · exact ⟨0, by omega, by omega⟩
        · exact ⟨k + 1, by omega, by omega⟩
      · rintro ⟨k, hk, hlt'⟩
        cases k with
        | zero => exact .inl (BitVec.eq_of_toNat_eq (by omega))
        | succ k => exact .inr ⟨k, by omega, by omega⟩
    · rw [if_neg hlt]
      rw [BitVec.lt_def] at hlt
      refine ⟨[], rfl, fun a => iff_of_false List.not_mem_nil ?_⟩
      rintro ⟨k, -, hk⟩
      omega

theorem search_eq (p : Word → Bool) {l : List Word} (h : steps n s e = some l) : search p n s e = some (l.any p) := by
  induction n generalizing s l with
  | zero => cases h
  | succ n ih =>
    rw [steps] at h
    rw [search]
    by_cases hlt : s < e
    · rw [if_pos hlt] at h ⊢
      rw [Option.map_eq_some_iff] at h
      obtain ⟨l', hl', rfl⟩ := h
      rw [ih hl', List.any_cons]
      cases p s with
      | true => rfl
      | false => rfl
    · rw [if_neg hlt] at h ⊢
      cases h
      rfl

/-! ### Ranges -/

theorem bitIndex_eq {a : Word} (h : r.start.toNat ≤ a.toNat) : r.bitIndex a = (a.toNat - r.start.toNat) / 4 := by
  have hfour : (4 : Word).toNat = 4 := rfl
  rw [CodeRegion.bitIndex, BitVec.toNat_udiv, hfour, BitVec.toNat_sub_of_le (BitVec.le_def.2 h)]

/-- A word that is touched has a bit. -/
theorem CodeRegion.Touches.lt (h : r.Touches i address size) : i < r.modified.length := by
  obtain ⟨b, -, -, hlo, -, hstop⟩ := h
  rw [r.size]
  omega

theorem overlap_some (h : r.overlap address size = some (s, e)) : s.toNat = max address.toNat r.start.toNat ∧ e.toNat =
    min (address.toNat + size.toNat) r.stop.toNat ∧ s.toNat ≤ e.toNat := by
  have hstart := r.start.isLt
  have hstop := r.stop.isLt
  have hnonempty := BitVec.lt_def.1 r.nonempty
  have ha := address.isLt
  rw [CodeRegion.overlap] at h
  split at h
  · cases h
  · next hmeet =>
    cases h
    rw [BitVec.toNat_ofNat, BitVec.toNat_ofNat, Nat.mod_eq_of_lt (by omega), Nat.mod_eq_of_lt (by omega)]
    exact ⟨rfl, rfl, by omega⟩

theorem not_touches (h : r.overlap address size = none) : ¬r.Touches i address size := by
  rintro ⟨b, hlo, hhi, hrlo, -, hstop⟩
  rw [CodeRegion.overlap] at h
  split at h
  · next hapart => omega
  · cases h

/-- **The bits of a range** are those of the words that it touches. -/
theorem bits_of_fits (h : r.Fits address size) :
    ∃ l, r.bits address size = some l ∧ ∀ i, i ∈ l ↔ r.Touches i address size := by
  rw [CodeRegion.bits]
  cases ho : r.overlap address size with
  | none => exact ⟨[], rfl, fun i => iff_of_false List.not_mem_nil (not_touches ho)⟩
  | some se =>
    obtain ⟨s, e⟩ := se
    obtain ⟨hlast, hround⟩ := h (s, e) ho
    dsimp only at hlast hround
    obtain ⟨hs, he, hse⟩ := overlap_some ho
    have hlt := e.isLt
    obtain ⟨l, hl, hmem⟩ := steps_eq (n := 2 ^ 30) (by omega) hround
    have hsteps : steps allSteps s e = some l := hl
    refine ⟨l.map r.bitIndex, by simp only [hsteps, Option.map_some], fun i => ?_⟩
    rw [List.mem_map]
    constructor
    · rintro ⟨a, ha, rfl⟩
      obtain ⟨k, hk, hklt⟩ := (hmem a).1 ha
      rw [bitIndex_eq (by omega)]
      exact ⟨a.toNat, by omega, by omega, by omega, by omega, by omega⟩
    · rintro ⟨b, hlo, hhi, hrlo, hrhi, hstop⟩
      -- The words of the part follow those before it, and the last one is not left out.
      have hk : s.toNat + 4 * (i - (s.toNat - r.start.toNat) / 4) < e.toNat := by omega
      have hto : (BitVec.ofNat 32 (s.toNat + 4 * (i - (s.toNat - r.start.toNat) / 4))).toNat =
          s.toNat + 4 * (i - (s.toNat - r.start.toNat) / 4) := by
        rw [BitVec.toNat_ofNat, Nat.mod_eq_of_lt (by omega)]
      refine ⟨.ofNat 32 (s.toNat + 4 * (i - (s.toNat - r.start.toNat) / 4)), ?_, ?_⟩
      · rw [hmem]
        exact ⟨_, hto, hk⟩
      · rw [bitIndex_eq (by omega), hto]
        omega

/-! ### Bitmaps -/

theorem getD_setAll {value : Bool} {bits : List ℕ} {modified : List Bool} {j : ℕ} :
    (setAll value bits modified).getD j false =
      if j ∈ bits ∧ j < modified.length then value else modified.getD j false := by
  induction bits generalizing modified with
  | nil => rw [setAll, List.foldl_nil, if_neg fun h => List.not_mem_nil h.1]
  | cons k bits ih =>
    have hfold : setAll value (k :: bits) modified = setAll value bits (modified.set k value) := rfl
    rw [hfold, ih, List.length_set]
    by_cases hj : j ∈ bits ∧ j < modified.length
    · rw [if_pos hj, if_pos ⟨List.mem_cons_of_mem k hj.1, hj.2⟩]
    · rw [if_neg hj, List.getD_eq_getElem?_getD, List.getElem?_set, List.getD_eq_getElem?_getD]
      by_cases hk : k = j
      · subst hk
        rw [if_pos rfl]
        by_cases hlt : k < modified.length
        · rw [if_pos hlt, if_pos ⟨List.mem_cons_self, hlt⟩]
          rfl
        · rw [if_neg hlt, if_neg fun h => hlt h.2, List.getElem?_eq_none (not_lt.1 hlt)]
      · rw [if_neg hk, if_neg]
        rintro ⟨hmem, hlt⟩
        rw [List.mem_cons] at hmem
        exact hj ⟨hmem.resolve_left (Ne.symm hk), hlt⟩

/-- A region behind a marking or a clearing. -/
structure CodeRegion.After (r : CodeRegion) (value : Bool) (address size : Word) (r' : CodeRegion) : Prop where
  start : r'.start = r.start
  stop : r'.stop = r.stop
  set : ∀ i, r.Touches i address size → r'.modified.getD i false = value
  kept : ∀ i, ¬r.Touches i address size → r'.modified.getD i false = r.modified.getD i false

theorem mapM_some {α β : Type} {f : α → Option β} {g : α → β} {l : List α} (h : ∀ x ∈ l, f x = some (g x)) :
    l.mapM f = some (l.map g) := by
  induction l with
  | nil => rfl
  | cons x l ih =>
    rw [List.mapM_cons, h x List.mem_cons_self, ih fun y hy => h y (List.mem_cons_of_mem x hy)]
    rfl

/-- **Marking and clearing** change the bits of what is touched. -/
theorem setModified_after (value : Bool) (h : ∀ r ∈ regions, r.Fits address size) :
    ∃ regions', setModified value regions address size = some regions' ∧
      List.Forall₂ (fun r r' => r.After value address size r') regions regions' := by
  rw [setModified]
  by_cases hsize : size = 0
  · have hnone : ∀ (r : CodeRegion) i, ¬r.Touches i address size := by
      rintro r i ⟨b, hlo, hhi, -⟩
      rw [hsize, show (0 : Word).toNat = 0 from rfl] at hhi
      omega
    rw [if_pos hsize]
    refine ⟨regions, rfl, List.forall₂_same.2 fun r _ => ⟨rfl, rfl, fun i hi => absurd hi (hnone r i), fun _ _ => rfl⟩⟩
  · rw [if_neg hsize]
    refine ⟨regions.map fun r => r.setBits value ((r.bits address size).getD []), mapM_some fun r hr => ?_, ?_⟩
    · obtain ⟨l, hl, -⟩ := bits_of_fits (h r hr)
      rw [hl]
      rfl
    · rw [List.forall₂_map_right_iff, List.forall₂_same]
      intro r hr
      obtain ⟨l, hl, hmem⟩ := bits_of_fits (h r hr)
      rw [hl]
      refine ⟨rfl, rfl, fun i hi => ?_, fun i hi => ?_⟩
      · exact getD_setAll.trans (if_pos ⟨(hmem i).2 hi, hi.lt⟩)
      · exact getD_setAll.trans (if_neg fun hin => hi ((hmem i).1 hin.1))

/-! ### What was modified -/

section

variable {events : List Event}

theorem modified_append {event : Event} :
    Modified r i (events ++ [event]) ↔ (∃ a n, event = .wrote a n ∧ r.Touches i a n) ∨
      (Modified r i events ∧ ∀ a n, event = .cleared a n → ¬r.Touches i a n) := by
  constructor
  · rintro ⟨before, a, n, after, heq, htouch, hclear⟩
    rcases List.eq_nil_or_concat after with rfl | ⟨after, last, rfl⟩
    · obtain ⟨-, hlast⟩ := List.append_inj' heq rfl
      exact .inl ⟨a, n, List.singleton_inj.1 hlast, htouch⟩
    · rw [List.concat_eq_append] at heq hclear
      rw [← List.cons_append, ← List.append_assoc] at heq
      obtain ⟨hinit, hlast⟩ := List.append_inj' heq rfl
      obtain rfl := List.singleton_inj.1 hlast
      refine .inr ⟨⟨before, a, n, after, hinit, htouch, fun a' n' hin => ?_⟩, fun a' n' hevent => ?_⟩
      · exact hclear a' n' (List.mem_append_left _ hin)
      · subst hevent
        exact hclear a' n' (List.mem_append_right _ List.mem_cons_self)
  · rintro (⟨a, n, rfl, htouch⟩ | ⟨⟨before, a, n, after, rfl, htouch, hclear⟩, hevent⟩)
    · exact ⟨events, a, n, [], rfl, htouch, fun _ _ hin => absurd hin List.not_mem_nil⟩
    · refine ⟨before, a, n, after ++ [event], by rw [List.append_assoc, List.cons_append], htouch, ?_⟩
      intro a' n' hin
      rw [List.mem_append, List.mem_singleton] at hin
      rcases hin with hin | hin
      · exact hclear a' n' hin
      · exact hevent a' n' hin.symm

theorem modified_wrote :
    Modified r i (events ++ [.wrote address size]) ↔ r.Touches i address size ∨ Modified r i events := by
  rw [modified_append]
  constructor
  · rintro (⟨a, n, heq, htouch⟩ | ⟨hmod, -⟩)
    · cases heq
      exact .inl htouch
    · exact .inr hmod
  · rintro (htouch | hmod)
    · exact .inl ⟨address, size, rfl, htouch⟩
    · exact .inr ⟨hmod, fun a n heq => nomatch heq⟩

theorem modified_cleared :
    Modified r i (events ++ [.cleared address size]) ↔ ¬r.Touches i address size ∧ Modified r i events := by
  rw [modified_append]
  constructor
  · rintro (⟨a, n, heq, -⟩ | ⟨hmod, hnot⟩)
    · cases heq
    · exact ⟨hnot address size rfl, hmod⟩
  · rintro ⟨hnot, hmod⟩
    refine .inr ⟨hmod, fun a n heq => ?_⟩
    cases heq
    exact hnot

end

/-- The bits say what was modified. -/
def Exact (regions : List CodeRegion) (events : List Event) : Prop :=
  ∀ r ∈ regions, ∀ i, r.modified.getD i false = true ↔ Modified r i events

section

variable {r r' : CodeRegion} (hstart : r'.start = r.start) (hstop : r'.stop = r.stop)

include hstart hstop

theorem touches_congr : r'.Touches i address size ↔ r.Touches i address size := by
  rw [CodeRegion.Touches, CodeRegion.Touches, hstart, hstop]

theorem modified_congr {events : List Event} : Modified r' i events ↔ Modified r i events := by
  simp only [Modified, touches_congr hstart hstop]

end

variable {regions' : List CodeRegion}

theorem exists_before {value : Bool} {r' : CodeRegion}
    (h : List.Forall₂ (fun r r' => r.After value address size r') regions regions') (hr' : r' ∈ regions') :
    ∃ r ∈ regions, r.After value address size r' := by
  induction h with
  | nil => exact absurd hr' List.not_mem_nil
  | cons hra _ ih =>
    rw [List.mem_cons] at hr'
    rcases hr' with rfl | hr'
    · exact ⟨_, List.mem_cons_self, hra⟩
    · obtain ⟨r, hr, hra⟩ := ih hr'
      exact ⟨r, List.mem_cons_of_mem _ hr, hra⟩

section

variable {events : List Event}

section

variable (h : Exact regions events)

include h

theorem exact_wrote (hafter : List.Forall₂ (fun r r' => r.After true address size r') regions regions') :
    Exact regions' (events ++ [.wrote address size]) := by
  intro r' hr' i
  obtain ⟨r, hr, hra⟩ := exists_before hafter hr'
  rw [modified_congr hra.start hra.stop, modified_wrote, ← h r hr i]
  by_cases htouch : r.Touches i address size
  · exact iff_of_true (hra.set i htouch) (.inl htouch)
  · rw [hra.kept i htouch]
    exact ⟨.inr, fun hor => hor.resolve_left htouch⟩

theorem exact_cleared (hafter : List.Forall₂ (fun r r' => r.After false address size r') regions regions') :
    Exact regions' (events ++ [.cleared address size]) := by
  intro r' hr' i
  obtain ⟨r, hr, hra⟩ := exists_before hafter hr'
  rw [modified_congr hra.start hra.stop, modified_cleared, ← h r hr i]
  by_cases htouch : r.Touches i address size
  · rw [hra.set i htouch]
    exact iff_of_false Bool.false_ne_true fun hand => hand.1 htouch
  · rw [hra.kept i htouch]
    exact ⟨fun hset => ⟨htouch, hset⟩, And.right⟩

theorem exact_untracked (hnot : ∀ r ∈ regions, ∀ i, ¬r.Touches i address size) :
    Exact regions (events ++ [.wrote address size]) := by
  intro r hr i
  rw [modified_wrote, h r hr i]
  exact ⟨.inr, fun hor => hor.resolve_left (hnot r hr i)⟩

end

theorem isModified_exact (h : ∀ i, r.modified.getD i false = true ↔ Modified r i events) (hfits : r.Fits address size) :
    ∃ b, r.isModified address size = some b ∧ (b = true ↔ ∃ i, r.Touches i address size ∧ Modified r i events) := by
  obtain ⟨l, hl, hmem⟩ := bits_of_fits hfits
  rw [CodeRegion.bits] at hl
  rw [CodeRegion.isModified]
  cases ho : r.overlap address size with
  | none => exact ⟨false, rfl, iff_of_false Bool.false_ne_true fun ⟨i, hi, _⟩ => not_touches ho hi⟩
  | some se =>
    simp only [ho, Option.map_eq_some_iff] at hl
    obtain ⟨addrs, haddrs, rfl⟩ := hl
    refine ⟨_, search_eq _ haddrs, ?_⟩
    rw [List.any_eq_true]
    constructor
    · rintro ⟨a, ha, hset⟩
      exact ⟨r.bitIndex a, (hmem _).1 (List.mem_map_of_mem ha), (h _).1 hset⟩
    · rintro ⟨i, htouch, hmod⟩
      obtain ⟨a, ha, rfl⟩ := List.mem_map.1 ((hmem i).2 htouch)
      exact ⟨a, ha, (h _).2 hmod⟩

/-- **A query** finds a word that it touches and that was modified. -/
theorem isCodeModified_exact (h : Exact regions events) (hfits : ∀ r ∈ regions, r.Fits address size) :
    ∃ b, isCodeModified regions address size = some b ∧
      (b = true ↔ ∃ r ∈ regions, ∃ i, r.Touches i address size ∧ Modified r i events) := by
  rw [isCodeModified]
  by_cases hsize : size = 0
  · rw [if_pos hsize]
    refine ⟨false, rfl, iff_of_false Bool.false_ne_true ?_⟩
    rintro ⟨r, -, i, ⟨b, hlo, hhi, -⟩, -⟩
    rw [hsize, show (0 : Word).toNat = 0 from rfl] at hhi
    omega
  · rw [if_neg hsize]
    induction regions with
    | nil => exact ⟨false, rfl, iff_of_false Bool.false_ne_true fun ⟨r, hr, _⟩ => absurd hr List.not_mem_nil⟩
    | cons r regions ih =>
      obtain ⟨b, hb, hbiff⟩ := ih (fun r hr => h r (List.mem_cons_of_mem _ hr))
        fun r hr => hfits r (List.mem_cons_of_mem _ hr)
      obtain ⟨found, hfound, hfoundiff⟩ := isModified_exact (h r List.mem_cons_self) (hfits r List.mem_cons_self)
      rw [List.foldr_cons, hb, hfound]
      cases found with
      | true =>
        obtain ⟨i, hi⟩ := hfoundiff.1 rfl
        exact ⟨true, rfl, iff_of_true rfl ⟨r, List.mem_cons_self, i, hi⟩⟩
      | false =>
        refine ⟨b, rfl, hbiff.trans ⟨fun ⟨r, hr, hi⟩ => ⟨r, List.mem_cons_of_mem _ hr, hi⟩, ?_⟩⟩
        rintro ⟨r', hr', i, hi⟩
        rw [List.mem_cons] at hr'
        rcases hr' with rfl | hr'
        · exact absurd (hfoundiff.2 ⟨i, hi⟩) Bool.false_ne_true
        · exact ⟨r', hr', i, hi⟩

end

/-! ### Writes -/

section

variable {D : Type} {d : Devices D} {m m' : Ps2Memory D} {α β : Type} {w : Width} {events : List Event}
variable {fault : Fault}

theorem bind_error {x : MemM D α} {f : α → MemM D β} (h : x m = .error fault m') : (x >>= f) m = .error fault m' := by
  have hbind : (x >>= f) m = EStateM.bind x f m := rfl
  rw [hbind, EStateM.bind, h]

theorem checkAligned_error {lowBits : Word} {k : ℕ} {op : String} (hk : lowBits.toNat = 2 ^ k - 1)
    (h : ¬2 ^ k ∣ address.toNat) : checkAligned lowBits op address m = .error (.unaligned op address) m := by
  have hne : address &&& lowBits ≠ 0 := by
    intro hzero
    have hmod := and_low hk address
    rw [hzero] at hmod
    exact h (Nat.dvd_of_mod_eq_zero hmod.symm)
  rw [checkAligned, if_pos hne]
  rfl

theorem write_unaligned (h : ¬w.bytes ∣ address.toNat) (value : BitVec (8 * w.bytes)) :
    ∃ fault m', d.write w address value m = .error fault m' := by
  cases w with
  | w8 => exact absurd (Nat.one_dvd _) h
  | w16 => exact ⟨_, _, bind_error (checkAligned_error (k := 1) rfl h)⟩
  | w32 => exact ⟨_, _, bind_error (checkAligned_error (k := 2) rfl h)⟩
  | w64 => exact ⟨_, _, bind_error (checkAligned_error (k := 3) rfl h)⟩
  | w128 => exact ⟨_, _, bind_error (checkAligned_error (k := 4) rfl h)⟩

theorem located_error {n : Word} (h : locate m.tlbEntries address n = .error fault) :
    located address n m = .error fault m := by
  rw [located]
  refine (bind_ok rfl).trans ?_
  rw [h]
  rfl

theorem storeAt_error {k : ℕ} {op : String} {value : BitVec (8 * k)} {writeIo : Word → MemM D Unit}
    (h : locate m.tlbEntries address (.ofNat 32 k) = .error fault) :
    Devices.storeAt k op address value writeIo m = .error fault m := by
  rw [Devices.storeAt]
  exact bind_error (located_error h)

theorem write_unmapped (h : target m.tlbEntries w address = .error fault) (hal : w.bytes ∣ address.toNat)
    (value : BitVec (8 * w.bytes)) : ∃ fault m', d.write w address value m = .error fault m' := by
  rw [target] at h
  split at h
  · cases h
  next hgs =>
  cases hl : locate m.tlbEntries address (.ofNat 32 w.bytes) with
  | ok place =>
    rw [hl] at h
    cases h
  | error fault' =>
    refine ⟨fault', m, ?_⟩
    cases w with
    | w8 => exact bind_error (located_error hl)
    | w16 => exact (bind_ok (checkAligned_ok (k := 1) rfl hal)).trans (storeAt_error hl)
    | w32 =>
      refine (bind_ok (checkAligned_ok (k := 2) rfl hal)).trans ?_
      rw [if_neg fun h => hgs ⟨.inl rfl, h⟩]
      exact storeAt_error hl
    | w64 =>
      refine (bind_ok (checkAligned_ok (k := 3) rfl hal)).trans ?_
      rw [if_neg fun h => hgs ⟨.inr rfl, h⟩]
      exact storeAt_error hl
    | w128 => exact (bind_ok (checkAligned_ok (k := 4) rfl hal)).trans (storeAt_error hl)

theorem write_tracked (h : tracks m.tlbEntries w address = true) (value : BitVec (8 * w.bytes)) :
    ∃ m', d.write w address value m = .ok () m' := by
  have hparts : w.bytes ∣ address.toNat ∧ ∃ off, target m.tlbEntries w address = .ok (.memory .rdram off) := by
    unfold tracks at h
    split at h
    · cases h
    · cases h
    all_goals
      rw [Bool.and_eq_true, decide_eq_true_eq] at h
      refine ⟨h.1, ?_⟩
      have hmatch := h.2
      split at hmatch
      · next off ht => exact ⟨off, ht⟩
      · cases hmatch
  obtain ⟨hal, off, ht⟩ := hparts
  obtain ⟨-, -, heq⟩ | ⟨hgs, ⟨region, off', hl, heq⟩ | ⟨p, -, heq⟩⟩ := target_cases ht
  · cases heq
  · cases heq
    exact ⟨_, write_ok hl hgs hal value⟩
  · split at heq
    · cases heq
    · cases heq

/-! ### Runs -/

/-- **What a step needs.** The loop comes to all words of each part that it marks or clears, and a write
that gets through without being tracked touches no code. -/
def OpOk (t : Tracked D) : Op → Prop
  | .write w address _ =>
    (tracks t.mem.tlbEntries w address = true → ∀ r ∈ t.codeRegions, r.Fits address (.ofNat 32 w.bytes)) ∧
      (tracks t.mem.tlbEntries w address = false → w.bytes ∣ address.toNat →
        (target t.mem.tlbEntries w address).isOk = true →
          ∀ r ∈ t.codeRegions, ∀ i, ¬r.Touches i address (.ofNat 32 w.bytes))
  | .clear address size => ∀ r ∈ t.codeRegions, r.Fits address size

/-- All steps of a run. -/
def AllOk (d : Devices D) : Tracked D → List Op → Prop
  | _, [] => True
  | t, op :: ops => OpOk t op ∧ ∀ t' events, op.run d t = some (t', events) → AllOk d t' ops

/-- **One step** keeps the bits exact. -/
theorem step_exact {t : Tracked D} {op : Op} (hop : OpOk t op) (h : Exact t.codeRegions events) :
    ∃ t' later, op.run d t = some (t', later) ∧ Exact t'.codeRegions (events ++ later) := by
  cases op with
  | write w address value =>
    obtain ⟨hfits, hnot⟩ := hop
    cases htr : tracks t.mem.tlbEntries w address with
    | true =>
      obtain ⟨regions', hmark, hafter⟩ := setModified_after true (hfits htr)
      obtain ⟨m', hwrite⟩ := write_tracked (d := d) htr value
      refine ⟨⟨m', regions'⟩, [.wrote address (.ofNat 32 w.bytes)], ?_, exact_wrote h hafter⟩
      simp only [Op.run, htr, if_true, markModified, hmark, hwrite, Option.bind_eq_bind, Option.bind_some]
      rfl
    | false =>
      cases hwrite : d.write w address value t.mem with
      | ok u m' =>
        refine ⟨⟨m', t.codeRegions⟩, [.wrote address (.ofNat 32 w.bytes)], ?_, exact_untracked h ?_⟩
        · simp only [Op.run, htr, hwrite, Option.bind_eq_bind]
          rfl
        · have hal : w.bytes ∣ address.toNat := by
            by_contra hnal
            obtain ⟨fault, m'', hthrow⟩ := write_unaligned (d := d) (m := t.mem) hnal value
            rw [hwrite] at hthrow
            cases hthrow
          refine hnot htr hal ?_
          cases ht : target t.mem.tlbEntries w address with
          | ok tg => rfl
          | error fault =>
            obtain ⟨fault, m'', hthrow⟩ := write_unmapped (d := d) ht hal value
            rw [hwrite] at hthrow
            cases hthrow
      | error fault m' =>
        refine ⟨⟨m', t.codeRegions⟩, [], ?_, by rwa [List.append_nil]⟩
        simp only [Op.run, htr, hwrite, Option.bind_eq_bind]
        rfl
  | clear address size =>
    obtain ⟨regions', hclear, hafter⟩ := setModified_after false hop
    refine ⟨{ t with codeRegions := regions' }, [.cleared address size], ?_, exact_cleared h hafter⟩
    simp only [Op.run, clearModifiedFlag, hclear, Option.bind_eq_bind, Option.bind_some]
    rfl

/-- **A run** keeps them exact. -/
theorem run_exact {t : Tracked D} {ops : List Op} (hops : AllOk d t ops) (h : Exact t.codeRegions events) :
    ∃ t' later, runOps d t ops = some (t', later) ∧ Exact t'.codeRegions (events ++ later) := by
  induction ops generalizing t events with
  | nil => exact ⟨t, [], rfl, by rwa [List.append_nil]⟩
  | cons op ops ih =>
    obtain ⟨hop, hrest⟩ := hops
    obtain ⟨t1, first, hrun, h1⟩ := step_exact hop h
    obtain ⟨t2, later, hlater, h2⟩ := ih (hrest t1 first hrun) h1
    refine ⟨t2, first ++ later, ?_, by rwa [← List.append_assoc]⟩
    simp only [runOps, hrun, hlater, Option.bind_eq_bind, Option.bind_some]
    rfl

end

section

variable (h : ∀ r ∈ regions, ∀ i, r.modified.getD i false = false)

include h

theorem registerCodeRegion_clear {start stop : Word} :
    ∀ r ∈ registerCodeRegion regions start stop, ∀ i, r.modified.getD i false = false := by
  intro r hr i
  unfold registerCodeRegion at hr
  split at hr
  · exact h r hr i
  split at hr
  · exact h r hr i
  split at hr
  · exact h r hr i
  rw [List.mem_append, List.mem_singleton] at hr
  rcases hr with hr | rfl
  · exact h r hr i
  · rw [List.getD_eq_getElem?_getD]
    exact List.getElem?_getD_replicate_default_eq _ _ i

theorem foldl_clear {bounds : List (Word × Word)} :
    ∀ r ∈ bounds.foldl (fun regions b => registerCodeRegion regions b.1 b.2) regions,
      ∀ i, r.modified.getD i false = false := by
  induction bounds generalizing regions with
  | nil => exact h
  | cons b bounds ih => exact ih (registerCodeRegion_clear h)

end

theorem exact_registered (bounds : List (Word × Word)) : Exact (registerAll bounds) [] := by
  intro r hr i
  have hclear := foldl_clear (fun r hr => absurd hr List.not_mem_nil) r hr i
  rw [hclear]
  refine iff_of_false Bool.false_ne_true ?_
  rintro ⟨before, a, n, after, heq, -⟩
  exact absurd heq.symm (List.append_ne_nil_of_right_ne_nil before (List.cons_ne_nil _ _))

/-- **The tracking is exact** in runs whose writes to code are tracked and whose ranges fit: a query answers
whether it touches a word that a write touched and no later clearing did. -/
theorem tracking_exact {D : Type} (d : Devices D) (m : Ps2Memory D) (bounds : List (Word × Word)) (ops : List Op)
    (h : AllOk d ⟨m, registerAll bounds⟩ ops) :
    ∃ t events, runOps d ⟨m, registerAll bounds⟩ ops = some (t, events) ∧
      ∀ address size, (∀ r ∈ t.codeRegions, r.Fits address size) →
        ∃ b, isCodeModified t.codeRegions address size = some b ∧
          (b = true ↔ ∃ r ∈ t.codeRegions, ∃ i, r.Touches i address size ∧ Modified r i events) := by
  obtain ⟨t, events, hrun, hexact⟩ := run_exact h (exact_registered bounds)
  exact ⟨t, events, hrun, fun address size hfits => isCodeModified_exact hexact hfits⟩

/-- A region of 256 bytes. -/
def someCode : List (Word × Word) := [(0x2000, 0x2100)]

theorem store_tracked : ∃ t events,
    runOps quiet ⟨cleared, registerAll someCode⟩ [.write .w32 0x2004 7] = some (t, events) ∧
      ∀ address size, (∀ r ∈ t.codeRegions, r.Fits address size) →
        ∃ b, isCodeModified t.codeRegions address size = some b ∧
          (b = true ↔ ∃ r ∈ t.codeRegions, ∃ i, r.Touches i address size ∧ Modified r i events) := by
  have htracked : tracks cleared.tlbEntries .w32 0x2004 = true := by decide +kernel
  have hfits : ∀ r ∈ registerAll someCode, r.Fits 0x2004 4 := by decide +kernel
  exact tracking_exact quiet cleared someCode [.write .w32 0x2004 7]
    ⟨⟨fun _ => hfits, fun huntracked => Bool.noConfusion (htracked.symm.trans huntracked)⟩, fun _ _ _ => trivial⟩

/-- **A byte is stored into code, and no query finds it.** -/
theorem byte_untracked : ¬∀ (d : Devices Unit) (m : Ps2Memory Unit) (bounds : List (Word × Word)) (ops : List Op),
    ∃ t events, runOps d ⟨m, registerAll bounds⟩ ops = some (t, events) ∧
      ∀ address size, ∃ b, isCodeModified t.codeRegions address size = some b ∧
        (b = true ↔ ∃ r ∈ t.codeRegions, ∃ i, r.Touches i address size ∧ Modified r i events) := by
  intro h
  obtain ⟨t, events, hrun, hquery⟩ := h quiet cleared someCode [.write .w8 0x2000 7]
  have ht : target cleared.tlbEntries .w8 0x2000 = .ok (.memory .rdram 0x2000) := by decide
  obtain ⟨m', hwrite⟩ : ∃ m', quiet.write .w8 0x2000 7 cleared = .ok () m' := by
    obtain ⟨-, -, heq⟩ | ⟨hgs, ⟨region, off, hl, heq⟩ | ⟨p, -, heq⟩⟩ := target_cases ht
    · cases heq
    · cases heq
      exact ⟨_, write_ok hl hgs (by decide) 7⟩
    · exact absurd heq (by split <;> exact (nomatch ·))
  simp only [runOps, Op.run, tracks, hwrite] at hrun
  cases hrun
  obtain ⟨b, hb, hbiff⟩ := hquery 0x2000 4
  have hfalse : isCodeModified (registerAll someCode) 0x2000 4 = some false := by decide +kernel
  rw [hfalse] at hb
  cases hb
  have hbounds : (registerAll someCode).map (fun r => (r.start, r.stop)) = someCode := by decide
  obtain ⟨r, hr, hrb⟩ := List.mem_map.1 (hbounds ▸ List.mem_cons_self : (0x2000, 0x2100) ∈
    (registerAll someCode).map fun r => (r.start, r.stop))
  obtain ⟨hstart, hstop⟩ := Prod.mk.inj hrb
  have htouch : ∀ size : Word, 0 < size.toNat → r.Touches 0 0x2000 size := by
    intro size hsize
    rw [CodeRegion.Touches, hstart, hstop]
    exact ⟨0x2000, le_rfl, Nat.lt_add_of_pos_right hsize, le_rfl, by decide, by decide⟩
  refine absurd (hbiff.2 ⟨r, hr, 0, htouch 4 (by decide), [], 0x2000, 1, [], rfl, htouch 1 (by decide), ?_⟩)
    Bool.false_ne_true
  exact fun _ _ hin => absurd hin List.not_mem_nil

end Ps2Recomp.CodeRegions
