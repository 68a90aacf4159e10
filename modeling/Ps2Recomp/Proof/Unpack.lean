import Ps2Recomp.Spec.Vif

/-!
# UNPACK of both VIFs

The two loops of UNPACK go to the same quadwords and take the same vectors of the data (`states_write0`,
`states_write1`), and both leave the stream behind the same bytes. What they write differs: VIF0 knows only
components of 32 bits, and neither a single component for all lanes nor masks, modes or fills.
`unpack_agrees_iff` says for which commands and registers no data shows the difference.
-/

namespace Ps2Recomp.Vif

open Bytes Gif

namespace Unpack

variable {u : Unpack} {payload : List Byte} {m m' : Memory} {j k n size : ℕ} {r : Filter} {row : Quad}

/-! ### Vectors -/

theorem cycle_cases (k : ℕ) {w : ℕ} (hw : 0 < w) : (k % w + 1 = w ∧ (k + 1) / w = k / w + 1 ∧ (k + 1) % w = 0) ∨
    (k % w + 1 < w ∧ (k + 1) / w = k / w ∧ (k + 1) % w = k % w + 1) := by
  have hmod := Nat.mod_lt k hw
  have hdiv := Nat.div_add_mod k w
  rcases Nat.lt_or_eq_of_le (Nat.succ_le_of_lt hmod) with hlt | hlast
  · have hk : k + 1 = w * (k / w) + (k % w + 1) := by omega
    refine .inr ⟨hlt, ?_, ?_⟩
    · rw [hk, Nat.mul_add_div hw, Nat.div_eq_of_lt (a := k % w + 1) hlt, Nat.add_zero]
    · rw [hk, Nat.mul_add_mod, Nat.mod_eq_of_lt hlt]
  · have hk : k + 1 = w * (k / w + 1) := by
      rw [Nat.mul_add, Nat.mul_one]
      omega
    exact .inl ⟨hlast, by rw [hk, Nat.mul_div_cancel_left _ hw], by rw [hk, Nat.mul_mod_right]⟩

/-- How many vectors are taken before a write. -/
def index (u : Unpack) (writeIndex : ℕ) : ℕ :=
  if u.cl < u.wl then writeIndex / u.wl * u.cl + min (writeIndex % u.wl) u.cl else writeIndex

theorem sourceVectorCount_eq : u.sourceVectorCount = u.index u.writeVectorCount := rfl

theorem index_succ (k : ℕ) : u.index (k + 1) = u.index k + if u.sourceAvailable k = true then 1 else 0 := by
  have hwl := u.wl_pos
  rw [index, index, sourceAvailable, cyclePos]
  by_cases hlt : u.cl < u.wl
  · rw [if_pos hlt, if_pos hlt, decide_eq_false (not_le.2 hlt), Bool.false_or]
    simp only [decide_eq_true_eq]
    rcases cycle_cases k hwl with ⟨hlast, hq, hr⟩ | ⟨hnext, hq, hr⟩
    · -- The last write of a cycle takes nothing.
      rw [hq, hr, Nat.add_mul, if_neg (by omega)]
      omega
    · rw [hq, hr]
      split
      · omega
      · omega
  · rw [if_neg hlt, if_neg hlt, decide_eq_true (not_lt.1 hlt), Bool.true_or, if_pos rfl]

theorem index_mono (h : j ≤ k) : u.index j ≤ u.index k := by
  induction h with
  | refl => exact le_rfl
  | step _ ih =>
    rw [index_succ]
    exact ih.trans (Nat.le_add_right _ _)

theorem index_succ_of_taken (h : u.sourceAvailable k = true) : u.index (k + 1) = u.index k + 1 := by
  rw [index_succ, if_pos h]

section

variable (hk : k < u.writeVectorCount)

include hk

theorem index_lt (h : u.sourceAvailable k = true) : u.index k < u.sourceVectorCount := by
  rw [sourceVectorCount_eq, ← Nat.succ_le_iff, Nat.succ_eq_add_one, ← index_succ_of_taken h]
  exact index_mono hk

theorem nextIndex_index : u.nextIndex (u.index k) k = u.index (k + 1) := by
  rw [nextIndex, index_succ]
  cases h : u.sourceAvailable k with
  | true => rw [Bool.true_and, decide_eq_true (index_lt hk h), if_pos rfl, if_pos rfl]
  | false => rw [Bool.false_and, if_neg Bool.false_ne_true, if_neg Bool.false_ne_true, Nat.add_zero]

theorem taken_of_available (h : u.sourceAvailable k = true) :
    u.taken payload (u.index k) k = some (u.srcVec payload (u.index k)) := by
  rw [taken, h, Bool.true_and, decide_eq_true (index_lt hk h), if_pos rfl]

end

theorem taken_of_not_available (h : u.sourceAvailable k = false) (i : ℕ) : u.taken payload i k = none := by
  rw [taken, h, Bool.false_and, if_neg Bool.false_ne_true]

/-! ### Destinations -/

/-- Where a write would go without the end of the memory. -/
def position (u : Unpack) (writeIndex : ℕ) : ℕ :=
  if u.wl ≤ u.cl then u.vuAddr + writeIndex / u.wl * u.cl + u.cyclePos writeIndex else u.vuAddr + writeIndex

theorem destVec_eq (k : ℕ) : u.destVec k = u.position k % 1024 := by
  rw [destVec, position]
  split
  · rfl
  · rfl

theorem position_succ (k : ℕ) : u.position k < u.position (k + 1) ∧ u.position (k + 1) ≤ u.position k + 255 := by
  have hwl := u.wl_pos
  have hcl := u.cl_lt
  rw [position, position, cyclePos, cyclePos]
  by_cases hle : u.wl ≤ u.cl
  · rw [if_pos hle, if_pos hle]
    rcases cycle_cases k hwl with ⟨hlast, hq, hr⟩ | ⟨hnext, hq, hr⟩
    · rw [hq, hr, Nat.add_mul]
      omega
    · rw [hq, hr]
      omega
  · rw [if_neg hle, if_neg hle]
    omega

/-- All writes go into the data memory of VU0. -/
def Fits (u : Unpack) : Prop := ∀ k < u.writeVectorCount, u.destVec k < 256

theorem destVec_eq_position (h : u.Fits) (hk : k < u.writeVectorCount) :
    u.destVec k = u.position k ∧ u.position k < 256 := by
  have hfit := h k hk
  rw [destVec_eq] at hfit ⊢
  induction k with
  | zero =>
    have hzero : u.position 0 = u.vuAddr := by
      rw [position, cyclePos, Nat.zero_div, Nat.zero_mul, Nat.zero_mod, Nat.add_zero, ite_self]
    have haddr := u.addr_lt
    omega
  | succ k ih =>
    obtain ⟨-, hlt⟩ := ih (by omega) (by
      have hprev := h k (by omega)
      rwa [destVec_eq] at hprev)
    have hstep := position_succ (u := u) k
    omega

theorem position_lt (h : j < k) : u.position j < u.position k := by
  induction h with
  | refl => exact (position_succ j).1
  | step _ ih => exact ih.trans (position_succ _).1

/-- The bytes of a write. -/
def places (u : Unpack) (writeIndex : ℕ) : Set ℕ := {q | u.destOff writeIndex ≤ q ∧ q < u.destOff writeIndex + 16}

theorem places_apart (h : u.Fits) (hk : k < u.writeVectorCount) (hj : j < k) : ∀ q ∈ u.places k, q ∉ u.places j := by
  rintro q ⟨hlo, hhi⟩ ⟨hlo', hhi'⟩
  have hlt := position_lt (u := u) hj
  rw [destOff, (destVec_eq_position h hk).1] at hlo hhi
  rw [destOff, (destVec_eq_position h (hj.trans hk)).1] at hlo' hhi'
  omega

theorem destOff_le (h : u.Fits) (hk : k < u.writeVectorCount) : u.destOff k + 16 ≤ 4096 := by
  have hfit := h k hk
  rw [destOff]
  omega

/-! ### The loops -/

theorem quad_eq (h : ∀ q ∈ u.places k, m q = m' q) : quad m (u.destOff k) = quad m' (u.destOff k) :=
  quad_congr fun q hlo hhi => h q ⟨hlo, hhi⟩

variable {q : ℕ}

theorem apply_off (c : Change) (hq : q ∉ u.places k) : c.apply m (u.destOff k) q = m q := by
  cases c with
  | kept => rfl
  | lanes lanes => exact setQuad_off hq
  | bytes bytes hlen => exact if_neg fun hin => hq ⟨hin.1, hin.2.trans_le (Nat.add_le_add_left hlen _)⟩

theorem apply_on (c : Change) (h : m q = m' q) : c.apply m (u.destOff k) q = c.apply m' (u.destOff k) q := by
  cases c with
  | kept => exact h
  | lanes lanes => rw [Change.apply, Change.apply, setQuad, setQuad, h]
  | bytes bytes hlen => rw [Change.apply, Change.apply, copy, copy, h]

theorem local_write0 : Local (u.write0 size payload) u.places where
  off _ _ _ _ hq := apply_off _ hq
  state _ _ _ _ _ := rfl
  on k i m m' h q hq := by
    rw [write0, write0, quad_eq h]
    exact apply_on _ (h q hq)

theorem local_write1 : Local (u.write1 size r payload) u.places where
  off _ _ _ _ hq := apply_off _ hq
  state k s m m' h := by
    rw [write1, write1, quad_eq h]
  on k s m m' h q hq := by
    rw [write1, write1, quad_eq h]
    exact apply_on _ (h q hq)

theorem index_zero : u.index 0 = 0 := by
  rw [index, Nat.zero_div, Nat.zero_mul, Nat.zero_mod, Nat.zero_min, Nat.add_zero, ite_self]

theorem states_write0 (hn : n ≤ u.writeVectorCount) : states (u.write0 size payload) 0 m n = u.index n := by
  induction n with
  | zero => exact index_zero.symm
  | succ n ih =>
    rw [states, ih (by omega)]
    exact nextIndex_index hn

/-- The row before a write of VIF1. -/
def rows (u : Unpack) (size : ℕ) (r : Filter) (payload : List Byte) (row : Quad) (m : Memory) : ℕ → Quad
  | 0 => row
  | k + 1 =>
    (u.change1 size r payload (u.index k) k (rows u size r payload row m k) (quad m (u.destOff k))).1

theorem states_write1 (hn : n ≤ u.writeVectorCount) :
    states (u.write1 size r payload) (0, row) m n = (u.index n, u.rows size r payload row m n) := by
  induction n with
  | zero => exact congrArg (·, row) index_zero.symm
  | succ n ih =>
    rw [states, ih (by omega), rows, ← nextIndex_index hn]
    rfl

/-- **What VIF0 writes**, write by write. -/
theorem loop0_on (h : u.Fits) (hk : k < u.writeVectorCount) (hq : q ∈ u.places k) :
    ((List.range u.writeVectorCount).foldl (fun x k => u.write0 size payload k x.1 x.2) (0, m)).2 q =
      (u.change0 size payload (u.index k) k (quad m (u.destOff k))).apply m (u.destOff k) q := by
  rw [foldl_range, local_write0.run_on (fun k hk j hj => places_apart h hk hj) hk q hq, states_write0 hk.le]
  rfl

theorem loop0_off (hq : ∀ k < u.writeVectorCount, q ∉ u.places k) :
    ((List.range u.writeVectorCount).foldl (fun x k => u.write0 size payload k x.1 x.2) (0, m)).2 q = m q := by
  rw [foldl_range, local_write0.run_off hq]

/-- **What VIF1 writes**, write by write. -/
theorem loop1_on (h : u.Fits) (hk : k < u.writeVectorCount) (hq : q ∈ u.places k) :
    ((List.range u.writeVectorCount).foldl (fun x k => u.write1 size r payload k x.1 x.2) ((0, row), m)).2 q =
      (u.change1 size r payload (u.index k) k (u.rows size r payload row m k) (quad m (u.destOff k))).2.apply m
        (u.destOff k) q := by
  rw [foldl_range, local_write1.run_on (fun k hk j hj => places_apart h hk hj) hk q hq, states_write1 hk.le]
  rfl

theorem loop1_off (hq : ∀ k < u.writeVectorCount, q ∉ u.places k) :
    ((List.range u.writeVectorCount).foldl (fun x k => u.write1 size r payload k x.1 x.2) ((0, row), m)).2 q = m q := by
  rw [foldl_range, local_write1.run_off hq]

/-! ### Lanes -/

section

variable {lanes : Quad} {f : Fin 4}

/-- What VIF0 makes of a quadword. -/
def lanes0 (u : Unpack) (payload : List Byte) (writeIndex : ℕ) (lanes : Quad) : Quad := fun f =>
  if u.sourceAvailable writeIndex = true ∧ f.val < u.components then
    wordAt (u.srcVec payload (u.index writeIndex)) (4 * f)
  else lanes f

theorem quad_change0 (h : u.Fits) (hk : k < u.writeVectorCount) :
    quad ((u.change0 4096 payload (u.index k) k (quad m (u.destOff k))).apply m (u.destOff k)) (u.destOff k) =
      u.lanes0 payload k (quad m (u.destOff k)) := by
  have hle := destOff_le h hk
  rw [change0, if_neg (by omega)]
  funext f
  rw [lanes0]
  cases ha : u.sourceAvailable k with
  | true =>
    rw [taken_of_available hk ha]
    simp only [Change.apply, quad_setQuad, true_and]
  | false =>
    rw [taken_of_not_available ha]
    simp only [Change.apply, Bool.false_eq_true, false_and, if_false]

/-- The data of a write of VIF1, if it takes some in a format that is known. -/
def decoded (u : Unpack) (payload : List Byte) (writeIndex : ℕ) (lanes : Quad) : Option Quad :=
  if u.sourceAvailable writeIndex = true then u.decompress (u.srcVec payload (u.index writeIndex)) lanes else none

/-- Formats that are not known. -/
def Unknown (u : Unpack) : Prop := u.vl = 3 ∧ u.vn ≠ 3

/-- A write that copies bytes as they are. -/
def Raw (u : Unpack) (r : Filter) (writeIndex : ℕ) : Prop :=
  u.sourceAvailable writeIndex = true ∧ u.Unknown ∧ u.rawCopy r = true

theorem decompress_unknown (h : u.Unknown) (srcVec : List Byte) : u.decompress srcVec lanes = none := by
  rw [decompress, if_pos h.1, if_neg h.2]

theorem decompress_some (h : ¬u.Unknown) (srcVec : List Byte) (lanes : Quad) : ∃ v, u.decompress srcVec lanes = some v := by
  rw [decompress]
  split
  · next hvl =>
    rw [if_pos (not_not.1 fun hvn => h ⟨hvl, hvn⟩)]
    exact ⟨_, rfl⟩
  · exact ⟨_, rfl⟩

section

variable (h : u.Fits) (hk : k < u.writeVectorCount) (hsize : 4096 ≤ size)

include h hk hsize

theorem change1_eq (hraw : ¬u.Raw r k) :
    u.change1 size r payload (u.index k) k row lanes =
      (fun f => (u.writeFields r k (u.sourceAvailable k) (u.decoded payload k lanes) lanes row f).2,
        .lanes fun f => (u.writeFields r k (u.sourceAvailable k) (u.decoded payload k lanes) lanes row f).1) := by
  have hle := destOff_le h hk
  rw [change1, if_neg (by omega), decoded]
  cases ha : u.sourceAvailable k with
  | false => rw [taken_of_not_available ha, if_neg Bool.false_ne_true]
  | true =>
    rw [taken_of_available hk ha, if_pos rfl]
    by_cases hun : u.Unknown
    · have hcopy : u.rawCopy r = false := by
        rw [← Bool.not_eq_true]
        exact fun hc => hraw ⟨ha, hun, hc⟩
      simp only [decompress_unknown hun, hcopy, Bool.false_eq_true, if_false]
    · obtain ⟨v, hv⟩ := decompress_some hun (u.srcVec payload (u.index k)) lanes
      simp only [hv]

theorem change1_raw (hraw : u.Raw r k) : u.change1 size r payload (u.index k) k row lanes =
    (row, .bytes ((u.srcVec payload (u.index k)).take (min u.bytesPerVector 16)) (u.length_raw _)) := by
  have hle := destOff_le h hk
  obtain ⟨ha, hun, hcopy⟩ := hraw
  rw [change1, if_neg (by omega), taken_of_available hk ha]
  simp only [decompress_unknown hun, hcopy, if_true]

end

/-- What the mask says of a field of a write. -/
def spec (u : Unpack) (r : Filter) (writeIndex : ℕ) (f : Fin 4) : ℕ :=
  u.maskSpec r.mask writeIndex (u.sourceAvailable writeIndex) f

theorem available_of_spec (h : u.spec r k f = 0) : u.sourceAvailable k = true := by
  rw [spec, maskSpec] at h
  cases ha : u.sourceAvailable k with
  | true => rfl
  | false =>
    rw [ha, Bool.not_false, Bool.true_and] at h
    split at h
    · cases h
    · next hne => exact absurd (decide_eq_true h) hne

theorem spec_of_rawCopy (h : u.rawCopy r = true) (ha : u.sourceAvailable k = true) : u.spec r k f = 0 := by
  rw [rawCopy, Bool.and_eq_true, Bool.not_eq_true'] at h
  rw [spec, maskSpec, maskField, ha, h.1]
  rfl

theorem maskField_le (mask : Word) (k : ℕ) (f : Fin 4) : u.maskField mask k f ≤ 3 := by
  rw [maskField]
  split
  · refine Nat.le_of_lt_succ ?_
    rw [BitVec.toNat_and]
    exact and_lt _ (k := 2)
  · exact Nat.zero_le 3

theorem spec_le (k : ℕ) (f : Fin 4) : u.spec r k f ≤ 3 := by
  rw [spec, maskSpec]
  split
  · exact Nat.le_add_left 1 2
  · exact maskField_le _ _ _

theorem writeFields_eq (payload : List Byte) :
    u.writeFields r k (u.sourceAvailable k) (u.decoded payload k lanes) lanes row f =
      u.writeField (r.mode &&& 3).toNat (u.spec r k f) ((u.decoded payload k lanes).map (· f))
        (r.col (.ofNat 4 (min (u.cyclePos k) 3))) (lanes f) (row f) := rfl

theorem writeFields_row (h : u.spec r k f = 1) :
    u.writeFields r k (u.sourceAvailable k) (u.decoded payload k lanes) lanes row f = (row f, row f) := by
  rw [writeFields_eq, h]
  rfl

theorem writeFields_col (h : u.spec r k f = 2) :
    u.writeFields r k (u.sourceAvailable k) (u.decoded payload k lanes) lanes row f =
      (r.col (.ofNat 4 (min (u.cyclePos k) 3)), row f) := by
  rw [writeFields_eq, h]
  rfl

theorem writeFields_protected (h : u.spec r k f = 3) :
    u.writeFields r k (u.sourceAvailable k) (u.decoded payload k lanes) lanes row f = (lanes f, row f) := by
  rw [writeFields_eq, h]
  rfl

theorem writeFields_unknown (h : u.spec r k f = 0) (hun : u.Unknown) :
    u.writeFields r k (u.sourceAvailable k) (u.decoded payload k lanes) lanes row f = (lanes f, row f) := by
  rw [writeFields_eq, h, decoded, if_pos (available_of_spec h), decompress_unknown hun]
  rfl

theorem writeFields_packed (h : u.spec r k f = 0) (hvl : u.vl = 3) (hvn : u.vn = 3) :
    u.writeFields r k (u.sourceAvailable k) (u.decoded payload k lanes) lanes row f =
      (packed (u.srcVec payload (u.index k)) f, row f) := by
  have hadd : u.canAdd = false := by
    rw [canAdd, hvl, hvn]
    rfl
  rw [writeFields_eq, h, decoded, if_pos (available_of_spec h), decompress, if_pos hvl, if_pos hvn]
  simp only [writeField, Option.map_some, hadd, Bool.false_and, Bool.false_eq_true, if_false]

/-- A field of the data. -/
def value (u : Unpack) (payload : List Byte) (writeIndex : ℕ) (lanes : Quad) (f : Fin 4) : Word :=
  let srcVec := u.srcVec payload (u.index writeIndex)
  if u.components = 1 then u.component srcVec 0
  else if f.val < u.components then u.component srcVec f
  else lanes f

/-- The modes in which the row is added. -/
def Filter.Adds (r : Filter) : Prop := (r.mode &&& 3).toNat = 1 ∨ (r.mode &&& 3).toNat = 2

instance (r : Filter) : Decidable r.Adds := inferInstanceAs (Decidable (_ ∨ _))

theorem value_component (h : f.val < u.components) :
    u.value payload k lanes f = u.component (u.srcVec payload (u.index k)) f := by
  rw [value]
  split
  · next hone =>
    have hzero : f.val = 0 := by omega
    rw [hzero]
  · rfl

theorem value_lane (h : ¬f.val < u.components) (hone : u.components ≠ 1) : u.value payload k lanes f = lanes f := by
  rw [value, if_neg hone, if_neg h]

theorem component_word (h : u.vl = 0) (srcVec : List Byte) (c : ℕ) : u.component srcVec c = wordAt srcVec (4 * c) := by
  rw [component, h]
  rfl

theorem decoded_map (h : u.sourceAvailable k = true) (hvl : u.vl ≠ 3) :
    (u.decoded payload k lanes).map (· f) = some (u.value payload k lanes f) := by
  rw [decoded, if_pos h, decompress, if_neg hvl]
  rfl

theorem writeFields_value (h : u.spec r k f = 0) (hvl : u.vl ≠ 3) :
    u.writeFields r k (u.sourceAvailable k) (u.decoded payload k lanes) lanes row f =
      (u.value payload k lanes f + (if r.Adds then row f else 0),
        if (r.mode &&& 3).toNat = 2 then u.value payload k lanes f + row f else row f) := by
  have hadd : u.canAdd = true := by
    rw [canAdd, bne_iff_ne.2 hvl, Bool.true_or]
  rw [writeFields_eq, h, decoded_map (available_of_spec h) hvl]
  simp only [writeField, hadd, Bool.true_and, Bool.or_eq_true, decide_eq_true_eq]
  by_cases hadds : r.Adds
  · have hmode : (r.mode &&& 3).toNat = 1 ∨ (r.mode &&& 3).toNat = 2 := hadds
    rw [if_pos hadds, if_pos hmode]
  · have hmode : ¬((r.mode &&& 3).toNat = 1 ∨ (r.mode &&& 3).toNat = 2) := hadds
    rw [if_neg hadds, if_neg hmode, if_neg fun h2 => hmode (.inr h2)]
    exact congrArg (·, row f) (BitVec.add_zero _).symm

/-- A quadword behind a write of VIF1. -/
def lanes1 (u : Unpack) (size : ℕ) (r : Filter) (payload : List Byte) (row : Quad) (m : Memory) (writeIndex : ℕ) :
    Quad :=
  quad ((u.change1 size r payload (u.index writeIndex) writeIndex (u.rows size r payload row m writeIndex)
    (quad m (u.destOff writeIndex))).2.apply m (u.destOff writeIndex)) (u.destOff writeIndex)

section

variable (h : u.Fits) (hk : k < u.writeVectorCount) (hsize : 4096 ≤ size)

include h hk hsize

theorem lanes1_eq (hraw : ¬u.Raw r k) :
    u.lanes1 size r payload row m k f =
      (u.writeFields r k (u.sourceAvailable k) (u.decoded payload k (quad m (u.destOff k)))
        (quad m (u.destOff k)) (u.rows size r payload row m k) f).1 := by
  rw [lanes1, change1_eq h hk hsize hraw, Change.apply, quad_setQuad]

/-- **The row** changes in mode 2 only, and only where raw data is written. -/
theorem rows_succ :
    u.rows size r payload row m (k + 1) f =
      if (r.mode &&& 3).toNat = 2 ∧ u.spec r k f = 0 ∧ u.vl ≠ 3 then
        u.value payload k (quad m (u.destOff k)) f + u.rows size r payload row m k f
      else u.rows size r payload row m k f := by
  rw [rows]
  by_cases hraw : u.Raw r k
  · rw [change1_raw h hk hsize hraw, if_neg fun hc => hc.2.2 hraw.2.1.1]
  · rw [change1_eq h hk hsize hraw]
    dsimp only
    have hle := spec_le (u := u) (r := r) k f
    by_cases hzero : u.spec r k f = 0
    · by_cases hvl : u.vl = 3
      · rw [if_neg fun hc => hc.2.2 hvl]
        by_cases hvn : u.vn = 3
        · rw [writeFields_packed hzero hvl hvn]
        · rw [writeFields_unknown hzero ⟨hvl, hvn⟩]
      · rw [writeFields_value hzero hvl]
        dsimp only
        by_cases hmode : (r.mode &&& 3).toNat = 2
        · rw [if_pos hmode, if_pos ⟨hmode, hzero, hvl⟩]
        · rw [if_neg hmode, if_neg fun hc => hmode hc.1]
    · rw [if_neg fun hc => hzero hc.2.1]
      obtain hs | hs | hs : u.spec r k f = 1 ∨ u.spec r k f = 2 ∨ u.spec r k f = 3 := by omega
      · rw [writeFields_row hs]
      · rw [writeFields_col hs]
      · rw [writeFields_protected hs]

end

theorem rows_const (h : u.Fits) (hsize : 4096 ≤ size) (hjk : j ≤ k) (hk : k ≤ u.writeVectorCount)
    (hzero : ∀ i, j ≤ i → i < k → (r.mode &&& 3).toNat = 2 → u.spec r i f = 0 → u.vl ≠ 3 →
      u.value payload i (quad m (u.destOff i)) f = 0) :
    u.rows size r payload row m k f = u.rows size r payload row m j f := by
  induction hjk with
  | refl => rfl
  | step hjk ih =>
    next k =>
    rw [rows_succ h hk hsize, ih (Nat.le_of_succ_le hk) fun i hi hik => hzero i hi (by omega)]
    split
    · next hc =>
      rw [hzero k hjk (Nat.lt_succ_self k) hc.1 hc.2.1 hc.2.2]
      exact BitVec.zero_add _
    · rfl

/-! ### Where both agree -/

/-- Nothing is added to a field: no mode that adds, or a row of zeros to which nothing was added. -/
def NoAdd (u : Unpack) (r : Filter) (row : Quad) (writeIndex : ℕ) (f : Fin 4) : Prop :=
  (r.Adds → row f = 0) ∧ ((r.mode &&& 3).toNat = 2 → ∀ j < writeIndex, u.spec r j f ≠ 0)

/-- **Fields in which both VIFs agree.** A protected field, if VIF0 has no data for it; a field of raw data
if nothing is added to it, and it is one of the components in a format of 32 bits, or one that no component
goes to; and raw data in a format that is not known, unless it is copied. -/
def HarmlessAt (u : Unpack) (r : Filter) (row : Quad) (writeIndex : ℕ) (f : Fin 4) : Prop :=
  if u.spec r writeIndex f = 3 then
    ¬(u.vl = 0 ∧ u.sourceAvailable writeIndex = true ∧ f.val < u.components)
  else
    u.spec r writeIndex f = 0 ∧
      if u.vl = 3 then u.vn ≠ 3 ∧ u.rawCopy r = false
      else u.NoAdd r row writeIndex f ∧ if f.val < u.components then u.vl = 0 else u.components ≠ 1

def Harmless (u : Unpack) (r : Filter) (row : Quad) : Prop :=
  ∀ k < u.writeVectorCount, ∀ f, u.HarmlessAt r row k f

instance (u : Unpack) (r : Filter) (row : Quad) (writeIndex : ℕ) (f : Fin 4) : Decidable (u.NoAdd r row writeIndex f) :=
  inferInstanceAs (Decidable (_ ∧ _))

instance (u : Unpack) (r : Filter) (row : Quad) (writeIndex : ℕ) (f : Fin 4) :
    Decidable (u.HarmlessAt r row writeIndex f) :=
  inferInstanceAs (Decidable (ite _ _ _))

instance (u : Unpack) (r : Filter) (row : Quad) : Decidable (u.Harmless r row) :=
  inferInstanceAs (Decidable (∀ k < _, ∀ _, _))

instance (u : Unpack) : Decidable u.Fits := inferInstanceAs (Decidable (∀ k < _, _))

/-- What VIF0 leaves of a quadword. -/
def left0 (u : Unpack) (payload : List Byte) (writeIndex : ℕ) (lanes : Quad) : Quad :=
  if u.vl = 0 then u.lanes0 payload writeIndex lanes else lanes

theorem lanes1_of_harmless (h : u.Fits) (hk : k < u.writeVectorCount) (hsize : 4096 ≤ size)
    (hharm : ∀ f, u.HarmlessAt r row k f) :
    u.lanes1 size r payload row m k = u.left0 payload k (quad m (u.destOff k)) := by
  have hraw : ¬u.Raw r k := by
    rintro ⟨ha, hun, hcopy⟩
    have hzero := spec_of_rawCopy (f := 0) hcopy ha
    have hat := hharm 0
    rw [HarmlessAt, if_neg (by omega), if_pos hun.1] at hat
    rw [hat.2.2] at hcopy
    cases hcopy
  funext f
  have hat := hharm f
  rw [HarmlessAt] at hat
  rw [lanes1_eq h hk hsize hraw, left0]
  split at hat
  · next hprot =>
    rw [writeFields_protected hprot]
    split
    · next hvl => rw [lanes0, if_neg fun hc => hat ⟨hvl, hc⟩]
    · rfl
  · obtain ⟨hzero, hat⟩ := hat
    split at hat
    · next hvl =>
      rw [writeFields_unknown hzero ⟨hvl, hat.1⟩, if_neg (by omega)]
    · next hvl =>
      obtain ⟨⟨hrow, hfirst⟩, hform⟩ := hat
      have hadd : (if r.Adds then u.rows size r payload row m k f else 0) = 0 := by
        split
        · next hadds =>
          rw [← hrow hadds]
          exact rows_const (j := 0) h hsize (Nat.zero_le k) hk.le
            fun i _ hik hmode hspec _ => absurd hspec (hfirst hmode i hik)
        · rfl
      rw [writeFields_value hzero hvl, hadd]
      refine (BitVec.add_zero _).trans ?_
      split at hform
      · next hf =>
        rw [value_component hf, component_word hform, if_pos hform, lanes0, if_pos ⟨available_of_spec hzero, hf⟩]
      · next hf =>
        rw [value_lane hf hform]
        split
        · rw [lanes0, if_neg fun hc => hf hc.2]
        · rfl

/-! ### Data that shows the difference -/

/-- Data whose vectors are each one byte over and over. -/
def vectors (u : Unpack) (val : ℕ → Byte) : List Byte :=
  (List.range u.totalBytes).map fun p => val (p / u.bytesPerVector)

theorem length_vectors (val : ℕ → Byte) : (u.vectors val).length = u.totalBytes := by
  rw [vectors, List.length_map, List.length_range]

variable {val : ℕ → Byte}

theorem byteAt_vectors {i b : ℕ} (hi : i < u.sourceVectorCount) (hb : b < u.bytesPerVector) :
    byteAt (u.srcVec (u.vectors val) i) b = val i := by
  have hle : (i + 1) * u.bytesPerVector ≤ u.sourceVectorCount * u.bytesPerVector := Nat.mul_le_mul_right _ hi
  have hlt : i * u.bytesPerVector + b < u.totalBytes := by
    rw [Nat.add_mul] at hle
    rw [totalBytes]
    omega
  have hdiv : (i * u.bytesPerVector + b) / u.bytesPerVector = i := by
    rw [Nat.mul_comm, Nat.mul_add_div (by omega), Nat.div_eq_of_lt hb, Nat.add_zero]
  rw [byteAt, srcVec, List.getD_eq_getElem?_getD, List.getElem?_drop, vectors, List.getElem?_map,
    List.getElem?_range hlt, Option.map_some, Option.getD_some, hdiv]

theorem bytesPerVector_eq (hvl : u.vl ≠ 3) (h : u.bitsPerComponent = 8 * n) : u.bytesPerVector = u.components * n := by
  rw [bytesPerVector, bitsPerVector, if_neg fun hc => hvl hc.1, h]
  have hmul : u.components * (8 * n) = 8 * (u.components * n) := Nat.mul_left_comm _ _ _
  omega

theorem component_congr {srcVec srcVec' : List Byte} {c : ℕ} (hvl : u.vl ≠ 3) (hc : c < u.components)
    (h : ∀ b < u.bytesPerVector, byteAt srcVec b = byteAt srcVec' b) : u.component srcVec c = u.component srcVec' c := by
  have hlt := u.vl_lt
  obtain hs | hs | hs : u.vl = 0 ∨ u.vl = 1 ∨ u.vl = 2 := by omega
  · have hbytes := bytesPerVector_eq (n := 4) hvl (by simp only [bitsPerComponent, hs])
    have hword : wordAt srcVec (4 * c) = wordAt srcVec' (4 * c) := by
      rw [wordAt, wordAt, load_congr fun q _ hq => h q (by omega)]
    rw [component_word hs, component_word hs, hword]
  · have hbytes := bytesPerVector_eq (n := 2) hvl (by simp only [bitsPerComponent, hs])
    have hhalf : halfAt srcVec (2 * c) = halfAt srcVec' (2 * c) := by
      rw [halfAt, halfAt, load_congr fun q _ hq => h q (by omega)]
    simp only [component, hs, hhalf]
  · have hbytes := bytesPerVector_eq (n := 1) hvl (by simp only [bitsPerComponent, hs])
    simp only [component, hs, h c (by omega)]

theorem component_zero {i c : ℕ} (hvl : u.vl ≠ 3) (hc : c < u.components)
    (hi : i < u.sourceVectorCount) (hval : val i = 0) : u.component (u.srcVec (u.vectors val) i) c = 0 := by
  have hzero : ∀ c, u.component [] c = 0 := by
    intro c
    rw [component]
    split
    · rfl
    · rw [extend16]
      split
      · rfl
      · rfl
    · rw [extend8]
      split
      · rfl
      · rfl
  rw [← hzero c]
  refine component_congr hvl hc fun b hb => ?_
  rw [byteAt_vectors hi hb, hval]
  rfl

theorem wordAt_ones {i c : ℕ} (hvl : u.vl = 0) (hc : c < u.components) (hi : i < u.sourceVectorCount)
    (hval : val i = 0xFF) : wordAt (u.srcVec (u.vectors val) i) (4 * c) = 0xFFFFFFFF := by
  have hne : u.vl ≠ 3 := by omega
  have hbytes := bytesPerVector_eq (n := 4) hne (by simp only [bitsPerComponent, hvl])
  have hones : ∀ b < 4, (0xFF : Byte) = ((0xFFFFFFFF : Word) >>> (8 * b)).setWidth 8 := by decide
  have hload : load (byteAt (u.srcVec (u.vectors val) i)) (4 * c) 4 = (0xFFFFFFFF : Word).toNat := by
    refine load_four _ fun b hb => ?_
    rw [byteAt_vectors hi (by omega), hval, hones b hb]
  rw [wordAt, hload]
  rfl

theorem bytesPerVector_pos : 0 < u.bytesPerVector := by
  have hbits : 4 ≤ u.bitsPerComponent := by
    rw [bitsPerComponent]
    split
    · decide
    · decide
    · decide
    · split
      · decide
      · decide
  have hcomp : 1 ≤ u.components := Nat.le_add_left 1 _
  have hmul := Nat.mul_le_mul hcomp hbits
  rw [bytesPerVector, bitsPerVector]
  split
  · decide
  · omega

theorem length_srcVec (val : ℕ → Byte) {i : ℕ} (hi : i < u.sourceVectorCount) :
    u.bytesPerVector ≤ (u.srcVec (u.vectors val) i).length := by
  have hle : (i + 1) * u.bytesPerVector ≤ u.sourceVectorCount * u.bytesPerVector := Nat.mul_le_mul_right _ hi
  rw [Nat.add_mul] at hle
  rw [srcVec, List.length_drop, length_vectors, totalBytes]
  omega

/-- A memory of zeros but for one lane. -/
def single (p : ℕ) (f : Fin 4) (y : Word) : Memory := setQuad (fun _ => 0) p fun g => if g = f then y else 0

theorem quad_single (p : ℕ) (y : Word) : quad (single p f y) p f = y := by
  rw [single, quad_setQuad, if_pos rfl]

theorem quad_single_of_ne (h : u.Fits) (hj : j < u.writeVectorCount) (hk : k < u.writeVectorCount) (hne : j ≠ k)
    (y : Word) (g : Fin 4) : quad (single (u.destOff j) f y) (u.destOff k) g = 0 := by
  have hpos : u.destVec j ≠ u.destVec k := by
    rw [(destVec_eq_position h hj).1, (destVec_eq_position h hk).1]
    rcases Nat.lt_or_gt_of_ne hne with hlt | hlt
    · exact (position_lt hlt).ne
    · exact (position_lt hlt).ne'
  have hoff : u.destOff j + 16 ≤ u.destOff k ∨ u.destOff k + 16 ≤ u.destOff j := by
    rw [destOff, destOff]
    omega
  rw [single, quad_setQuad_of_apart hoff]
  rfl

/-- Both VIFs agree on all data. -/
def Agree (u : Unpack) (size : ℕ) (r : Filter) (row : Quad) : Prop :=
  ∀ payload, payload.length = u.totalBytes → ∀ (m : Memory), ∀ k < u.writeVectorCount,
    u.lanes1 size r payload row m k = u.left0 payload k (quad m (u.destOff k))

theorem succ_ne (c : Word) : c + 1 ≠ c := by
  intro hc
  have hnat := congrArg BitVec.toNat hc
  rw [BitVec.toNat_add, show (1 : Word).toNat = 1 from rfl] at hnat
  omega

/-- Data of zeros, but for one vector. -/
def ones (j : ℕ) : ℕ → Byte := fun i => if i = j then 0xFF else 0

theorem index_lt_index (h : j < k) (ha : u.sourceAvailable j = true) : u.index j < u.index k := by
  rw [← Nat.succ_le_iff, Nat.succ_eq_add_one, ← index_succ_of_taken ha]
  exact index_mono h

theorem value_zero (hk : k < u.writeVectorCount) (hvl : u.vl ≠ 3) (ha : u.sourceAvailable k = true)
    (hval : val (u.index k) = 0) (hlane : ¬f.val < u.components → lanes f = 0) :
    u.value (u.vectors val) k lanes f = 0 := by
  have hi := index_lt hk ha
  by_cases hf : f.val < u.components
  · rw [value_component hf, component_zero hvl hf hi hval]
  · by_cases hone : u.components = 1
    · rw [value, if_pos hone, component_zero hvl (by omega) hi hval]
    · rw [value_lane hf hone, hlane hf]

theorem left0_zero (hk : k < u.writeVectorCount) (ha : u.sourceAvailable k = true)
    (hval : val (u.index k) = 0) (hlane : lanes f = 0) : u.left0 (u.vectors val) k lanes f = 0 := by
  rw [left0]
  split
  · next hvl =>
    have hne : u.vl ≠ 3 := by omega
    rw [lanes0]
    split
    · next hc => rw [← component_word hvl, component_zero hne hc.2 (index_lt hk ha) hval]
    · exact hlane
  · exact hlane

theorem rows_zero (h : u.Fits) (hsize : 4096 ≤ size) (hk : k < u.writeVectorCount)
    (hval : ∀ i < k, u.sourceAvailable i = true → val (u.index i) = 0) (hm : ∀ i < k, quad m (u.destOff i) f = 0) :
    u.rows size r (u.vectors val) row m k f = row f :=
  rows_const (j := 0) h hsize (Nat.zero_le k) hk.le fun i _ hik _ hspec hvl =>
    have ha := available_of_spec hspec
    value_zero (by omega) hvl ha (hval i hik ha) fun _ => hm i hik

variable (h : u.Fits) (hsize : 4096 ≤ size) (hagree : u.Agree size r row)

include h hsize hagree

theorem agree_field (val : ℕ → Byte) (hk : k < u.writeVectorCount) (hraw : ¬u.Raw r k) (m : Memory) :
    (u.writeFields r k (u.sourceAvailable k) (u.decoded (u.vectors val) k (quad m (u.destOff k)))
      (quad m (u.destOff k)) (u.rows size r (u.vectors val) row m k) f).1 =
      u.left0 (u.vectors val) k (quad m (u.destOff k)) f := by
  rw [← lanes1_eq h hk hsize hraw, hagree _ (length_vectors val) m k hk]

section

variable (hk : k < u.writeVectorCount)

include hk

theorem not_raw : ¬u.Raw r k := by
  intro hraw
  obtain ⟨ha, hun, -⟩ := id hraw
  have hvl : u.vl ≠ 0 := by rw [hun.1]; decide
  have hquad := hagree (u.vectors fun _ => 0) (length_vectors _) (single (u.destOff k) 0 1) k hk
  rw [lanes1, change1_raw h hk hsize hraw, left0, if_neg hvl, Change.apply] at hquad
  have hbyte := eqOn_iff_quad.2 hquad (u.destOff k) le_rfl (by omega)
  have hone : single (u.destOff k) 0 1 (u.destOff k) = 1 := by
    rw [single, setQuad, if_pos ⟨le_rfl, by omega⟩, Nat.sub_self]
    rfl
  have hpos := bytesPerVector_pos (u := u)
  have hfirst : byteAt (u.srcVec (u.vectors fun _ => 0) (u.index k)) 0 = 0 := byteAt_vectors (index_lt hk ha) hpos
  have hzero : copy (single (u.destOff k) 0 1) (u.destOff k)
      ((u.srcVec (u.vectors fun _ => 0) (u.index k)).take (min u.bytesPerVector 16)) (u.destOff k) = 0 := by
    have hlen := length_srcVec (fun _ => 0) (index_lt hk ha)
    rw [copy, if_pos ⟨le_rfl, by rw [List.length_take]; omega⟩, Nat.sub_self, List.getD_eq_getElem?_getD,
      List.getElem?_take_of_lt (by omega), ← List.getD_eq_getElem?_getD]
    exact hfirst
  rw [hzero, hone] at hbyte
  exact absurd hbyte (by decide)

theorem not_filled {c : Word} (hfill : ∀ payload m, u.rows size r payload row m k f = row f →
      (u.writeFields r k (u.sourceAvailable k) (u.decoded payload k (quad m (u.destOff k)))
        (quad m (u.destOff k)) (u.rows size r payload row m k) f).1 = c) : False := by
  have hraw := not_raw h hsize hagree hk
  by_cases hdata : u.vl = 0 ∧ u.sourceAvailable k = true ∧ f.val < u.components
  · obtain ⟨hvl, ha, hf⟩ := hdata
    have hi := index_lt hk ha
    have hne : u.vl ≠ 3 := by omega
    -- Neither zeros nor ones in its own vector change the row.
    have hgo : ∀ val : ℕ → Byte, (∀ i < k, u.sourceAvailable i = true → val (u.index i) = 0) →
        wordAt (u.srcVec (u.vectors val) (u.index k)) (4 * f) = c := by
      intro val hval
      have hrow : u.rows size r (u.vectors val) row (fun _ => 0) k f = row f :=
        rows_zero h hsize hk hval fun _ _ => rfl
      have hfield := agree_field (f := f) h hsize hagree val hk hraw fun _ => 0
      rw [hfill _ _ hrow, left0, if_pos hvl, lanes0, if_pos ⟨ha, hf⟩] at hfield
      exact hfield.symm
    have hzeros := hgo (fun _ => 0) fun _ _ _ => rfl
    rw [← component_word hvl, component_zero hne hf hi rfl] at hzeros
    have hones := hgo (ones (u.index k)) fun i hik ha' => if_neg (index_lt_index hik ha').ne
    rw [wordAt_ones hvl hf hi (if_pos rfl), ← hzeros] at hones
    exact absurd hones (by decide)
  · have hrow : u.rows size r (u.vectors fun _ => 0) row (single (u.destOff k) f (c + 1)) k f = row f :=
      rows_zero h hsize hk (fun _ _ _ => rfl) fun i hik => quad_single_of_ne h hk (by omega) (by omega) _ f
    have hfield := agree_field (f := f) h hsize hagree (fun _ => 0) hk hraw (single (u.destOff k) f (c + 1))
    have hleft : u.left0 (u.vectors fun _ => 0) k (quad (single (u.destOff k) f (c + 1)) (u.destOff k)) f = c + 1 := by
      rw [left0]
      split
      · next hvl => rw [lanes0, if_neg fun hc => hdata ⟨hvl, hc⟩, quad_single]
      · exact quad_single _ _
    rw [hfill _ _ hrow, hleft] at hfield
    exact succ_ne c hfield.symm

theorem not_packed (hspec : u.spec r k f = 0) (hvl : u.vl = 3) : u.vn ≠ 3 := by
  intro hvn
  have hraw := not_raw h hsize hagree hk
  have ha := available_of_spec hspec
  have hi := index_lt hk ha
  have hfield := agree_field (f := f) h hsize hagree (fun _ => 0) hk hraw (single (u.destOff k) f 1)
  have hbytes : 2 ≤ u.bytesPerVector := by
    rw [bytesPerVector, bitsPerVector, if_pos ⟨hvl, hvn⟩]
  have hhalf : halfAt (u.srcVec (u.vectors fun _ => 0) (u.index k)) 0 = 0 := by
    have hzero : halfAt [] 0 = 0 := rfl
    rw [← hzero, halfAt, halfAt, load_congr fun q _ hq => byteAt_vectors hi (by omega)]
    rfl
  have hpacked : packed (u.srcVec (u.vectors fun _ => 0) (u.index k)) f = 0 := by
    have hall : ∀ g : Fin 4, (![0, 0, 0, 0] : Quad) g = 0 := by decide
    rw [packed, hhalf]
    exact hall f
  have hne : (0 : Word) ≠ 1 := by decide
  rw [writeFields_packed hspec hvl hvn, hpacked, left0, if_neg (by omega), quad_single] at hfield
  exact hne hfield

theorem form_of_agree (hspec : u.spec r k f = 0) (hvl : u.vl ≠ 3) :
    if f.val < u.components then u.vl = 0 else u.components ≠ 1 := by
  have hraw := not_raw h hsize hagree hk
  have ha := available_of_spec hspec
  have hi := index_lt hk ha
  -- Where a component is zero, and VIF0 leaves the lane, the lane would be the sum.
  have hsum : (∀ lanes, u.value (u.vectors fun _ => 0) k lanes f = 0) → (u.vl = 0 → ¬f.val < u.components) → False := by
    intro hval hlane
    have hrow : ∀ y, u.rows size r (u.vectors fun _ => 0) row (single (u.destOff k) f y) k f = row f := fun y =>
      rows_zero h hsize hk (fun _ _ _ => rfl) fun i hik => quad_single_of_ne h hk (by omega) (by omega) _ f
    have hfield := agree_field (f := f) h hsize hagree (fun _ => 0) hk hraw
      (single (u.destOff k) f ((0 + if r.Adds then row f else 0) + 1))
    have hleft : ∀ y, u.left0 (u.vectors fun _ => 0) k (quad (single (u.destOff k) f y) (u.destOff k)) f = y := by
      intro y
      rw [left0]
      split
      · next hvl' => rw [lanes0, if_neg fun hc => hlane hvl' hc.2, quad_single]
      · exact quad_single _ _
    rw [writeFields_value hspec hvl, hval, hrow, hleft] at hfield
    exact succ_ne _ hfield.symm
  split
  · next hf =>
    by_contra hzero
    refine hsum (fun lanes => ?_) fun hvl' => absurd hvl' hzero
    rw [value_component hf, component_zero hvl hf hi rfl]
  · next hf =>
    intro hone
    refine hsum (fun lanes => ?_) fun _ => hf
    rw [value, if_pos hone, component_zero hvl (by omega) hi rfl]

theorem not_added_again {m : Memory} {y : Word} (hj : j < k)
    (hspec : u.spec r k f = 0) (hspecj : u.spec r j f = 0) (hvl : u.vl ≠ 3) (hmode : (r.mode &&& 3).toNat = 2)
    (hrow : row f = 0) (hval : ∀ i, i ≠ j → i < u.writeVectorCount → u.sourceAvailable i = true → val (u.index i) = 0)
    (hm : ∀ i, i ≠ j → i < u.writeVectorCount → quad m (u.destOff i) f = 0)
    (hy : u.value (u.vectors val) j (quad m (u.destOff j)) f = y) : y = 0 := by
  have hraw := not_raw h hsize hagree hk
  have ha := available_of_spec hspec
  have hfirst : u.rows size r (u.vectors val) row m j f = row f :=
    rows_zero h hsize (hj.trans hk) (fun i hij => hval i (by omega) (by omega)) fun i hij => hm i (by omega) (by omega)
  have hadded : u.rows size r (u.vectors val) row m (j + 1) f = y := by
    rw [rows_succ h (hj.trans hk) hsize, if_pos ⟨hmode, hspecj, hvl⟩, hy, hfirst, hrow]
    exact BitVec.add_zero y
  have hrest : u.rows size r (u.vectors val) row m k f = y := by
    rw [← hadded]
    refine rows_const h hsize hj hk.le fun i hji hik _ hspeci _ => ?_
    exact value_zero (by omega) hvl (available_of_spec hspeci)
      (hval i (by omega) (by omega) (available_of_spec hspeci)) fun _ => hm i (by omega) (by omega)
  have hfield := agree_field (f := f) h hsize hagree val hk hraw m
  have hadds : r.Adds := .inr hmode
  rw [writeFields_value hspec hvl, if_pos hadds, hrest, value_zero hk hvl ha (hval k (by omega) hk ha) fun _ =>
    hm k (by omega) hk, left0_zero hk ha (hval k (by omega) hk ha) (hm k (by omega) hk)] at hfield
  exact (BitVec.zero_add y).symm.trans hfield

/-- Nothing is added, as the first sum and the later ones would show. -/
theorem noAdd_of_agree (hspec : u.spec r k f = 0) (hvl : u.vl ≠ 3)
    (hform : if f.val < u.components then u.vl = 0 else u.components ≠ 1) : u.NoAdd r row k f := by
  have hraw := not_raw h hsize hagree hk
  have ha := available_of_spec hspec
  have hrow : r.Adds → row f = 0 := by
    intro hadds
    have hstart : u.rows size r (u.vectors fun _ => 0) row (fun _ => 0) k f = row f :=
      rows_zero h hsize hk (fun _ _ _ => rfl) fun _ _ => rfl
    have hfield := agree_field (f := f) h hsize hagree (fun _ => 0) hk hraw fun _ => 0
    rw [writeFields_value hspec hvl, if_pos hadds, hstart, value_zero hk hvl ha rfl fun _ => rfl,
      left0_zero hk ha rfl rfl] at hfield
    exact (BitVec.zero_add _).symm.trans hfield
  refine ⟨hrow, fun hmode j hj hspecj => ?_⟩
  have haj := available_of_spec hspecj
  have hij := index_lt (hj.trans hk) haj
  split at hform
  · next hf =>
    have hval : ∀ i, i ≠ j → i < u.writeVectorCount → u.sourceAvailable i = true → ones (u.index j) (u.index i) = 0 := by
      intro i hne _ hai
      refine if_neg ?_
      rcases Nat.lt_or_gt_of_ne hne with hlt | hlt
      · exact (index_lt_index hlt hai).ne
      · exact (index_lt_index hlt haj).ne'
    have hy : u.value (u.vectors (ones (u.index j))) j (quad (fun _ => 0) (u.destOff j)) f = 0xFFFFFFFF := by
      rw [value_component hf, component_word hform, wordAt_ones hform hf hij (if_pos rfl)]
    have hzero := not_added_again h hsize hagree hk hj hspec hspecj hvl hmode (hrow (.inr hmode)) hval
      (fun _ _ _ => rfl) hy
    exact absurd hzero (by decide)
  · next hf =>
    have hy : u.value (u.vectors fun _ => 0) j (quad (single (u.destOff j) f 1) (u.destOff j)) f = 1 := by
      rw [value_lane hf hform, quad_single]
    have hzero := not_added_again h hsize hagree hk hj hspec hspecj hvl hmode (hrow (.inr hmode))
      (fun _ _ _ _ => rfl) (fun i hne hi => quad_single_of_ne h (hj.trans hk) hi (Ne.symm hne) 1 f) hy
    exact absurd hzero (by decide)

end

/-- **Where both agree on all data** each field is one of those in which they do. -/
theorem harmless_of_agree : u.Harmless r row := by
  intro k hk f
  have hraw := not_raw h hsize hagree hk
  rw [HarmlessAt]
  by_cases hprot : u.spec r k f = 3
  · rw [if_pos hprot]
    rintro ⟨hvl, ha, hf⟩
    have hne : u.vl ≠ 3 := by omega
    have hfield := agree_field (f := f) h hsize hagree (fun _ => 0) hk hraw (single (u.destOff k) f 1)
    rw [writeFields_protected hprot, quad_single, left0, if_pos hvl, lanes0, if_pos ⟨ha, hf⟩, ← component_word hvl,
      component_zero hne hf (index_lt hk ha) rfl] at hfield
    have hone : (1 : Word) ≠ 0 := by decide
    exact hone hfield
  · rw [if_neg hprot]
    have hle := spec_le (u := u) (r := r) k f
    obtain hspec | hspec | hspec : u.spec r k f = 0 ∨ u.spec r k f = 1 ∨ u.spec r k f = 2 := by omega
    · refine ⟨hspec, ?_⟩
      have ha := available_of_spec hspec
      by_cases hvl : u.vl = 3
      · rw [if_pos hvl]
        have hvn := not_packed h hsize hagree hk hspec hvl
        refine ⟨hvn, ?_⟩
        rw [← Bool.not_eq_true]
        exact fun hcopy => hraw ⟨ha, ⟨hvl, hvn⟩, hcopy⟩
      · rw [if_neg hvl]
        have hform := form_of_agree h hsize hagree hk hspec hvl
        exact ⟨noAdd_of_agree h hsize hagree hk hspec hvl hform, hform⟩
    · exact (not_filled (f := f) h hsize hagree hk fun payload m hrow => by rw [writeFields_row hspec, hrow]).elim
    · exact (not_filled (f := f) h hsize hagree hk fun payload m _ => by rw [writeFields_col hspec]).elim

end

/-! ### Both loops -/

theorem sourceVectorCount_pos : 0 < u.sourceVectorCount := by
  have ha : u.sourceAvailable 0 = true := by
    rw [sourceAvailable, cyclePos, Nat.zero_mod, decide_eq_true u.cl_pos, Bool.or_true]
  exact Nat.zero_lt_of_lt (index_lt u.count_pos ha)

theorem totalBytes_pos : 0 < u.totalBytes := by
  have hmul := Nat.mul_le_mul (sourceVectorCount_pos (u := u)) (bytesPerVector_pos (u := u))
  rw [totalBytes]
  omega

theorem below_of_places (h : u.Fits) (hk : k < u.writeVectorCount) (hq : q ∈ u.places k) : q < 4096 := by
  have hle := destOff_le h hk
  exact hq.2.trans_le hle

theorem quad_below (h : u.Fits) (hk : k < u.writeVectorCount) (hm : ∀ q < 4096, m q = m' q) :
    quad m (u.destOff k) = quad m' (u.destOff k) :=
  quad_eq fun q hq => hm q (below_of_places h hk hq)

/-- The data memory of VU0 behind a UNPACK. -/
def result0 (u : Unpack) (payload : List Byte) (m : Memory) : Memory :=
  if u.vl = 0 then
    ((List.range u.writeVectorCount).foldl (fun x k => u.write0 4096 payload k x.1 x.2) (0, m)).2
  else m

/-- The data memory of VU1 behind a UNPACK. -/
def result1 (u : Unpack) (size : ℕ) (r : Filter) (payload : List Byte) (row : Quad) (m : Memory) : Memory :=
  ((List.range u.writeVectorCount).foldl (fun x k => u.write1 size r payload k x.1 x.2) ((0, row), m)).2

theorem quad_result0 (h : u.Fits) (hk : k < u.writeVectorCount) :
    quad (u.result0 payload m) (u.destOff k) = u.left0 payload k (quad m (u.destOff k)) := by
  rw [result0, left0]
  split
  · rw [quad_eq fun q hq => loop0_on h hk hq, quad_change0 h hk]
  · rfl

theorem quad_result1 (h : u.Fits) (hk : k < u.writeVectorCount) :
    quad (u.result1 size r payload row m) (u.destOff k) = u.lanes1 size r payload row m k := by
  rw [result1, quad_eq fun q hq => loop1_on h hk hq, lanes1]

/-- **Both memories are the same** if and only if the quadwords are that are written. -/
theorem results_iff (h : u.Fits) (hm : ∀ q < 4096, m q = m' q) :
    (∀ q < 4096, u.result0 payload m q = u.result1 size r payload row m' q) ↔
      ∀ k < u.writeVectorCount, u.lanes1 size r payload row m' k = u.left0 payload k (quad m' (u.destOff k)) := by
  constructor
  · intro heq k hk
    rw [← quad_result1 h hk, ← quad_below h hk hm, ← quad_result0 h hk]
    exact (quad_below h hk heq).symm
  · intro hlanes q hq
    by_cases hin : ∃ k < u.writeVectorCount, q ∈ u.places k
    · obtain ⟨k, hk, hplace⟩ := hin
      have hquad : quad (u.result0 payload m) (u.destOff k) = quad (u.result1 size r payload row m') (u.destOff k) := by
        rw [quad_result0 h hk, quad_result1 h hk, hlanes k hk, quad_below h hk hm]
      exact eqOn_iff_quad.2 hquad q hplace.1 hplace.2
    · have hoff : ∀ k < u.writeVectorCount, q ∉ u.places k := fun k hk hplace => hin ⟨k, hk, hplace⟩
      rw [result1, loop1_off hoff, result0]
      split
      · rw [loop0_off hoff, hm q hq]
      · exact hm q hq

/-- What both make of all data is the same if and only if no field does harm. -/
theorem results_agree_iff (h : u.Fits) (hsize : 4096 ≤ size) : u.Agree size r row ↔ u.Harmless r row := by
  constructor
  · exact fun hagree => harmless_of_agree h hsize hagree
  · exact fun hharm payload _ m k hk => lanes1_of_harmless h hk hsize (hharm k hk)

end Unpack

/-! ### Both interpreters -/

variable {G : Type} {cmd : Word} {data : List Byte}

/-- The registers that UNPACK reads are the same. -/
structure SameUnpackState (r₀ r₁ : VifRegisters) : Prop where
  cycle : r₀.cycle = r₁.cycle
  mask : r₀.mask = r₁.mask
  mode : r₀.mode = r₁.mode
  row : r₀.row = r₁.row
  col : r₀.col = r₁.col

/-- The registers of VIF1 that a UNPACK reads. -/
def VifRegisters.filter (r : VifRegisters) : Unpack.Filter := ⟨r.mask, r.mode, r.col⟩

theorem unpackOf_eq {r0 r1 : VifRegisters} (hcycle : r0.cycle = r1.cycle) (htops : (imm cmd).getLsbD 15 = false) :
    unpackOf cmd r0 = unpackOf cmd r1 := by
  have haddr : vuAddr cmd r0.tops = vuAddr cmd r1.tops := by
    rw [vuAddr, vuAddr, htops]
    rfl
  simp only [unpackOf, hcycle, haddr]

theorem ofOpcode_unpack (h : isUnpack (opcode cmd) = true) : VifCmd.ofOpcode (opcode cmd) = none := by
  have hlt : opcode cmd < 128 := by
    rw [opcode, BitVec.toNat_and]
    exact and_lt _ (k := 7)
  have hall : ∀ o < 128, isUnpack o = true → VifCmd.ofOpcode o = none := by decide
  exact hall _ hlt h

theorem behind_drop {n : ℕ} (h : n ≤ data.length) : behind n data = some (data.drop n) := by
  rw [behind, if_neg (by omega)]

theorem step0_unpack (s : Vif0) (m : Memory) (hunpack : isUnpack (opcode cmd) = true) (hcmd : wordAt data 0 = cmd)
    (hlen : 4 + (unpackOf cmd s.regs).totalBytes ≤ data.length) :
    (Vif0.step data { s with vu0Data := m }).1.vu0Data = (unpackOf cmd s.regs).result0 ((data.drop 4).take (unpackOf cmd s.regs).totalBytes) m ∧
      (Vif0.step data { s with vu0Data := m }).2 =
        some ((data.drop 4).drop (unpackOf cmd s.regs).totalBytes) := by
  have hfits : (unpackOf cmd s.regs).totalBytes ≤ (data.drop 4).length := by
    rw [List.length_drop]
    omega
  rw [Vif0.step, hcmd]
  simp only [Vif0.command, ofOpcode_unpack hunpack, hunpack, if_true]
  refine ⟨?_, behind_drop hfits⟩
  rw [Vif0.unpack, Unpack.result0]
  by_cases hvl : (unpackOf cmd s.regs).vl = 0
  · have hall : (unpackOf cmd s.regs).totalBytes ≤ (data.drop 4).length ∧ (unpackOf cmd s.regs).vl = 0 := ⟨hfits, hvl⟩
    rw [if_pos hvl]
    exact congrArg Vif0.vu0Data (if_pos hall)
  · rw [if_neg hvl]
    exact congrArg Vif0.vu0Data (if_neg fun hc => hvl hc.2)

theorem step1_unpack (v : Vu1 G) (s : Vif1 G) (m : Memory) (hpending : s.pendingPath2ImageQwc = 0)
    (hunpack : isUnpack (opcode cmd) = true) (hcmd : wordAt data 0 = cmd)
    (hlen : 4 + (unpackOf cmd s.regs).totalBytes ≤ data.length) :
    (Vif1.step v data { s with vu1Data := m }).1.vu1Data =
        (unpackOf cmd s.regs).result1 vu1DataSize s.regs.filter
          ((data.drop 4).take (unpackOf cmd s.regs).totalBytes) s.regs.row m ∧
      (Vif1.step v data { s with vu1Data := m }).2 =
        some ((data.drop 4).drop (unpackOf cmd s.regs).totalBytes) := by
  have hfits : (unpackOf cmd s.regs).totalBytes ≤ (data.drop 4).length := by
    rw [List.length_drop]
    omega
  rw [Vif1.step, if_neg (not_not.2 hpending), hcmd]
  simp only [Vif1.command, ofOpcode_unpack hunpack, hunpack, if_true]
  refine ⟨?_, behind_drop hfits⟩
  rw [Vif1.unpack]
  have hall : 0 < (unpackOf cmd s.regs).totalBytes ∧ (unpackOf cmd s.regs).totalBytes ≤ (data.drop 4).length :=
    ⟨Unpack.totalBytes_pos, hfits⟩
  exact congrArg Vif1.vu1Data (if_pos hall)

/-- **Both VIFs do the same at a UNPACK**: from data memories that are the same as far as VU0 has any, with any
data behind the command, they write the same and leave the same of the data. -/
def UnpackSame (v : Vu1 G) (cmd : Word) (s₀ : Vif0) (s₁ : Vif1 G) : Prop :=
  ∀ data m₀ m₁, wordAt data 0 = cmd → 4 + (unpackOf cmd s₁.regs).totalBytes ≤ data.length →
    (∀ q < vu0DataSize, m₀ q = m₁ q) →
      (∀ q < vu0DataSize, (Vif0.step data { s₀ with vu0Data := m₀ }).1.vu0Data q =
        (Vif1.step v data { s₁ with vu1Data := m₁ }).1.vu1Data q) ∧
      (Vif0.step data { s₀ with vu0Data := m₀ }).2 = (Vif1.step v data { s₁ with vu1Data := m₁ }).2

/-- The bytes of a command. -/
def bytesOf (cmd : Word) : List Byte := (List.range 4).map fun b => (cmd >>> (8 * b)).setWidth 8

theorem wordAt_bytesOf (cmd : Word) (data : List Byte) : wordAt (bytesOf cmd ++ data) 0 = cmd := by
  have hload : load (byteAt (bytesOf cmd ++ data)) 0 4 = cmd.toNat := by
    refine load_four cmd fun b hb => ?_
    have hlen : 0 + b < (bytesOf cmd).length := by
      rw [bytesOf, List.length_map, List.length_range]
      omega
    rw [byteAt, List.getD_append _ _ _ _ hlen, bytesOf, List.getD_eq_getElem?_getD, List.getElem?_map,
      List.getElem?_range (by omega), Nat.zero_add]
    rfl
  rw [wordAt, hload, BitVec.ofNat_toNat, BitVec.setWidth_eq]

/-- **VIF0 agrees with VIF1** on a UNPACK whose destination fits in the data memory of VU0, whatever its data,
if and only if no field of it does harm. -/
theorem unpack_same_iff (v : Vu1 G) (cmd : Word) (s₀ : Vif0) (s₁ : Vif1 G) (hunpack : isUnpack (opcode cmd) = true)
    (htops : (imm cmd).getLsbD 15 = false) (hpending : s₁.pendingPath2ImageQwc = 0)
    (hregs : SameUnpackState s₀.regs s₁.regs) (hfit : (unpackOf cmd s₁.regs).Fits) :
    UnpackSame v cmd s₀ s₁ ↔ (unpackOf cmd s₁.regs).Harmless s₁.regs.filter s₁.regs.row := by
  have hu : unpackOf cmd s₀.regs = unpackOf cmd s₁.regs := unpackOf_eq hregs.cycle htops
  have hsize : 4096 ≤ vu1DataSize := by decide
  rw [← Unpack.results_agree_iff hfit hsize]
  constructor
  · intro h payload hlen m k hk
    have hdata : (bytesOf cmd ++ payload).drop 4 = payload := List.drop_left' (by
      rw [bytesOf, List.length_map, List.length_range])
    have hall : 4 + (unpackOf cmd s₁.regs).totalBytes ≤ (bytesOf cmd ++ payload).length := by
      rw [List.length_append, hlen, bytesOf, List.length_map, List.length_range]
    obtain ⟨hmem, -⟩ := h _ m m (wordAt_bytesOf cmd payload) hall fun _ _ => rfl
    rw [(step0_unpack s₀ m hunpack (wordAt_bytesOf cmd payload) (hu ▸ hall)).1,
      (step1_unpack v s₁ m hpending hunpack (wordAt_bytesOf cmd payload) hall).1, hdata, hu,
      List.take_of_length_le hlen.le] at hmem
    exact (Unpack.results_iff hfit fun _ _ => rfl).1 hmem k hk
  · intro hagree data m₀ m₁ hcmd hall hm
    obtain ⟨hres₀, hrest₀⟩ := step0_unpack s₀ m₀ hunpack hcmd (hu ▸ hall)
    obtain ⟨hres₁, hrest₁⟩ := step1_unpack v s₁ m₁ hpending hunpack hcmd hall
    rw [hres₀, hres₁, hrest₀, hrest₁, hu]
    refine ⟨(Unpack.results_iff hfit hm).2 fun k hk => ?_, rfl⟩
    exact Unpack.lanes1_of_harmless hfit hk hsize ((Unpack.results_agree_iff hfit hsize).1 hagree k hk)

def clearedVif0 : Vif0 := ⟨clearedRegs, fun _ => 0, fun _ => 0⟩

def clearedVif1 : Vif1 Unit := ⟨clearedRegs, fun _ => 0, fun _ => 0, 0, 0, false, ⟨false, [], ()⟩, []⟩

/-- No microprogram does anything, and nothing takes the packets. -/
def idle : Vu1 Unit := ⟨⟨none, none⟩, fun _ _ _ _ x => x, fun _ _ _ x => x⟩

/-- Two vectors of V4-32. -/
theorem words_same : UnpackSame idle 0x6C020005 clearedVif0 clearedVif1 :=
  (unpack_same_iff idle 0x6C020005 clearedVif0 clearedVif1 (by decide) (by decide) rfl ⟨rfl, rfl, rfl, rfl, rfl⟩
    (by decide)).2 (by decide)

/-- **A single component goes to one lane in VIF0**, and to all lanes in VIF1. -/
theorem single_differs : ¬∀ (v : Vu1 Unit) (cmd : Word) (s₀ : Vif0) (s₁ : Vif1 Unit), isUnpack (opcode cmd) = true →
    (imm cmd).getLsbD 15 = false → s₁.pendingPath2ImageQwc = 0 → SameUnpackState s₀.regs s₁.regs →
      (unpackOf cmd s₁.regs).Fits → UnpackSame v cmd s₀ s₁ := by
  intro h
  obtain ⟨hmem, -⟩ := h idle 0x60010000 clearedVif0 clearedVif1 (by decide) (by decide) rfl ⟨rfl, rfl, rfl, rfl, rfl⟩
    (by decide) [0, 0, 1, 0x60, 7, 0, 0, 0] (fun _ => 0) (fun _ => 0) (by decide) (by decide) fun _ _ => rfl
  exact absurd (hmem 4 (by decide)) (by decide)

end Ps2Recomp.Vif
