import Mathlib.Data.List.Basic
import Ps2Recomp.Spec.VertexQueue

/-!
# The primitives of a vertex sequence

`expected` is what the GS draws from the vertices that follow a write of PRIM: each kicked vertex
completes the primitive that its place in the sequence gives it. The queue of the source keeps to it as
long as, of the vertices that could complete a primitive, those left unkicked come in sixes: it turns over
six slots, but draws from the first ones and moves the older vertices down only where it draws.
-/

namespace Ps2Recomp.Vertices

/-- The vertices of the primitive that vertex `i` completes. -/
def PrimType.group : PrimType → ℕ → Option (List ℕ)
  | .point, i => some [i]
  | .lineStrip, i => if 1 ≤ i then some [i - 1, i] else none
  | .triStrip, i => if 2 ≤ i then some [i - 2, i - 1, i] else none
  | .triFan, i => if 2 ≤ i then some [0, i - 1, i] else none
  | .line, i | .sprite, i => if i % 2 = 1 then some [i - 1, i] else none
  | .triangle, i => if i % 3 = 2 then some [i - 2, i - 1, i] else none

/-- The primitives of a sequence of vertices, each given with whether it is kicked. -/
def expected {V : Type} (prim : Option PrimType) (vs : List (V × Bool)) : List (List V) :=
  (List.range vs.length).filterMap fun i =>
    match prim, vs[i]? with
    | some p, some (_, true) => (p.group i).map (·.filterMap fun j => vs[j]?.map Prod.fst)
    | _, _ => none

/-- The vertices that the next primitive still lacks once one is drawn, its last one left out. -/
def PrimType.missing : PrimType → ℕ
  | .point => 0
  | .line | .sprite => 1
  | .triangle => 2
  | .lineStrip | .triStrip | .triFan => 0

/-- While a primitive lacks no vertex but its last, the vertices left unkicked come in sixes; for a fan
there are none. `missing` vertices are lacked, and `skipped` were left unkicked since. -/
def SkipsInSixes (p : PrimType) : ℕ → ℕ → List Bool → Prop
  | _, _, [] => True
  | missing + 1, skipped, _ :: kicks => SkipsInSixes p missing skipped kicks
  | 0, skipped, false :: kicks => SkipsInSixes p 0 (skipped + 1) kicks
  | 0, skipped, true :: kicks =>
    (kMaxVerts ∣ skipped ∧ (p = .triFan → skipped = 0)) ∧ SkipsInSixes p p.missing 0 kicks

/-! ### The queue on numbered vertices -/

variable {V W : Type}

namespace VertexQueue

/-- What a sequence of vertices draws. -/
def drawnBy (prim : Option PrimType) : List (V × Bool) → VertexQueue V → List (List V)
  | [], _ => []
  | (v, kicked) :: vs, m =>
    (m.putVertex prim v kicked).2.toList ++ drawnBy prim vs (m.putVertex prim v kicked).1

/-- A vertex behind the others. -/
def store (v : V) (m : VertexQueue V) : VertexQueue V where
  vtxQueue := Ring.store m.vtxQueue m.vtxCount v
  vtxCount := m.vtxCount + 1

section

variable {v : V} {m : VertexQueue V}

theorem putVertex_quiet {prim : Option PrimType} {kicked : Bool}
    (h : kicked = false ∨ ∀ p, prim = some p → m.vtxCount + 1 < p.needed) :
    m.putVertex prim v kicked = (m.store v, none) := by
  unfold putVertex vertexKick
  rcases h with rfl | h
  · rfl
  · cases kicked
    · rfl
    · cases prim with
      | none => rfl
      | some p => simp only [Bool.not_true, Bool.false_eq_true, if_false, if_pos (h p rfl)]; rfl

theorem putVertex_draws {p : PrimType} (h : p.needed ≤ m.vtxCount + 1) :
    m.putVertex (some p) v true = (shift (m.store v).vtxQueue p, some (read (m.store v).vtxQueue p)) := by
  unfold putVertex vertexKick
  simp only [Bool.not_true, Bool.false_eq_true, if_false, if_neg (Nat.not_lt.2 h)]
  rfl

end

end VertexQueue

/-- Vertices numbered from `i`. -/
def numbered (v : ℕ → V) : ℕ → List Bool → List (V × Bool)
  | _, [] => []
  | i, kicked :: kicks => (v i, kicked) :: numbered v (i + 1) kicks

/-- What they are expected to draw. -/
def expectedFrom (p : PrimType) (v : ℕ → V) : ℕ → List Bool → List (List V)
  | _, [] => []
  | i, kicked :: kicks =>
    (if kicked then (p.group i).map (·.map v) else none).toList ++ expectedFrom p v (i + 1) kicks

section

variable (v : ℕ → V) (i : ℕ) (kicks : List Bool)

theorem length_numbered : (numbered v i kicks).length = kicks.length := by
  induction kicks generalizing i with
  | nil => rfl
  | cons kicked kicks ih => simp [numbered, ih]

theorem numbered_getElem (j : ℕ) : (numbered v i kicks)[j]? = kicks[j]?.map fun kicked => (v (i + j), kicked) := by
  induction kicks generalizing i j with
  | nil => simp [numbered]
  | cons kicked kicks ih =>
    cases j with
    | zero => simp [numbered]
    | succ j => simp [numbered, ih, Nat.add_assoc, Nat.add_comm 1 j]

end

theorem PrimType.le_of_mem_group {p : PrimType} {i j : ℕ} {js : List ℕ} (h : p.group i = some js)
    (hj : j ∈ js) : j ≤ i := by
  cases p <;> simp only [PrimType.group, Option.ite_none_right_eq_some, Option.some.injEq] at h <;> grind

section

variable (p : PrimType) (v : ℕ → V)

theorem expectedFrom_eq (i : ℕ) (kicks : List Bool) :
    expectedFrom p v i kicks = (List.range kicks.length).filterMap fun j =>
      if kicks[j]? = some true then (p.group (i + j)).map (·.map v) else none := by
  induction kicks generalizing i with
  | nil => rfl
  | cons kicked kicks ih =>
    rw [expectedFrom, ih, List.length_cons, List.range_succ_eq_map, List.filterMap_cons, List.filterMap_map]
    have htail : ((fun j => if (kicked :: kicks)[j]? = some true then (p.group (i + j)).map (·.map v)
          else none) ∘ Nat.succ) = fun j => if kicks[j]? = some true then (p.group (i + 1 + j)).map (·.map v)
          else none := by
      funext j
      simp only [Function.comp_apply, Nat.succ_eq_add_one, List.getElem?_cons_succ]
      rw [show i + (j + 1) = i + 1 + j by omega]
    rw [htail]
    cases kicked <;> simp
    cases p.group i <;> simp

theorem expected_numbered (kicks : List Bool) : expected (some p) (numbered v 0 kicks) = expectedFrom p v 0 kicks := by
  rw [expectedFrom_eq, expected, length_numbered]
  apply List.filterMap_congr
  intro i hi
  have hlt : i < kicks.length := List.mem_range.1 hi
  simp only [numbered_getElem, Nat.zero_add]
  rw [List.getElem?_eq_getElem hlt]
  cases hk : kicks[i] with
  | false => simp
  | true =>
    simp only [Option.map_some, if_true]
    cases hg : p.group i with
    | none => rfl
    | some js =>
      simp only [Option.map_some, Option.some.injEq]
      rw [← List.filterMap_eq_map]
      apply List.filterMap_congr
      intro j hj
      have hjlt : j < kicks.length := lt_of_le_of_lt (PrimType.le_of_mem_group hg hj) hlt
      simp [List.getElem?_eq_getElem hjlt]

end

/-! ### What the queue holds -/

def PrimType.isList : PrimType → Bool
  | .point | .line | .sprite | .triangle => true
  | .lineStrip | .triStrip | .triFan => false

/-- How many of the newest vertices the queue holds behind its count. A fan moves only one of them down. -/
def PrimType.depth (p : PrimType) (count : ℕ) : ℕ := if p = .triFan then count - 1 else count

/-- The queue before vertex `i`, when all primitives so far were drawn as expected. -/
structure Lined (p : PrimType) (v : ℕ → V) (i : ℕ) (m : VertexQueue V) : Prop where
  count_le : m.vtxCount ≤ i
  window : Ring.Window m.vtxQueue m.vtxCount (p.depth m.vtxCount) v i
  first : p = .triFan → 0 < m.vtxCount → m.vtxCount ≤ kMaxVerts → m.vtxQueue 0 = v 0
  place : if p.isList then i % p.needed = m.vtxCount % p.needed else m.vtxCount + 1 < p.needed → m.vtxCount = i

section

variable (p : PrimType)

theorem PrimType.needed_pos : 0 < p.needed := by
  cases p <;> decide

theorem PrimType.needed_le : p.needed ≤ 3 := by
  cases p <;> decide

theorem PrimType.depth_le (count : ℕ) : p.depth count ≤ count := by
  unfold PrimType.depth
  split <;> omega

theorem Lined.start (v : ℕ → V) (queue : Fin kMaxVerts → V) : Lined p v 0 ⟨queue, 0⟩ where
  count_le := le_rfl
  window := (Ring.window_zero queue 0 v 0).mono (p.depth_le 0)
  first := fun _ h => absurd h (lt_irrefl 0)
  place := by
    split
    · rfl
    · intro _
      rfl

end

namespace Lined

variable {p : PrimType} {v : ℕ → V} {i : ℕ} {m : VertexQueue V}

section

variable (h : Lined p v i m)

include h

theorem store : Lined p v (i + 1) (m.store (v i)) where
  count_le := Nat.succ_le_succ h.count_le
  window := by
    apply (h.window.store (p.depth_le _)).mono
    change p.depth (m.vtxCount + 1) ≤ p.depth m.vtxCount + 1
    unfold PrimType.depth
    split <;> omega
  first := by
    intro hp _ hle
    have hle : m.vtxCount + 1 ≤ kMaxVerts := hle
    rcases Nat.eq_zero_or_pos m.vtxCount with h0 | hpos
    · have hi : m.vtxCount = i := by
        have hplace := h.place
        rw [hp] at hplace
        exact hplace (by rw [h0]; decide)
      have hstored := Ring.store_self m.vtxQueue m.vtxCount (v i)
      rw [← hi, h0] at hstored
      change Ring.store m.vtxQueue m.vtxCount (v i) 0 = v 0
      rw [← hi, h0]
      exact hstored
    · change Ring.store m.vtxQueue m.vtxCount (v i) 0 = v 0
      rw [Ring.store_of_ne _ _ ?_]
      · exact h.first hp hpos (by omega)
      · rw [Nat.mod_eq_of_lt (by omega)]
        exact (Nat.ne_of_gt hpos).symm
  place := by
    have hplace := h.place
    change if p.isList then (i + 1) % p.needed = (m.vtxCount + 1) % p.needed
      else m.vtxCount + 1 + 1 < p.needed → m.vtxCount + 1 = i + 1
    split at hplace
    · rw [if_pos ‹_›, Nat.add_mod, hplace, ← Nat.add_mod]
    · rw [if_neg ‹_›]
      intro hlt
      rw [hplace (by omega)]

theorem group_none (hlt : m.vtxCount + 1 < p.needed) : p.group i = none := by
  have hplace := h.place
  cases p <;> simp only [PrimType.isList, PrimType.needed, if_true, if_false, Bool.false_eq_true,
    PrimType.group] at hplace hlt ⊢ <;> (try split) <;> first | rfl | omega

theorem slot {j : Fin kMaxVerts} (hj : (j : ℕ) ≤ m.vtxCount)
    (hd : (m.vtxCount - j) % kMaxVerts < p.depth (m.vtxCount + 1)) :
    (m.store (v i)).vtxQueue j = v (i - (m.vtxCount - j) % kMaxVerts) :=
  h.store.window.slot (Nat.lt_succ_of_le hj) hd

section

variable (hn : p.needed ≤ m.vtxCount + 1) (hc : m.vtxCount % kMaxVerts = p.needed - 1)

include hn hc

/-- Where a primitive is drawn in its place, the newest slots hold its vertices. -/
theorem newest {j : Fin kMaxVerts} (hj : (j : ℕ) + 1 ≤ p.needed)
    (hfan : p = .triFan → 1 ≤ (j : ℕ)) : (m.store (v i)).vtxQueue j = v (i - (p.needed - 1 - j)) := by
  have hneed := p.needed_le
  have hback : (m.vtxCount - j) % kMaxVerts = p.needed - 1 - j := by
    unfold kMaxVerts at hc ⊢
    omega
  have hdepth : p.needed - 1 - j < p.depth (m.vtxCount + 1) := by
    unfold PrimType.depth
    split
    · have := hfan ‹_›
      have := p.needed_pos
      omega
    · omega
  rw [h.slot (by omega) (by rw [hback]; exact hdepth), hback]

section

variable (hfan : p = .triFan → m.vtxCount = 2)

include hfan

theorem read_eq : (p.group i).map (·.map v) = some (VertexQueue.read (m.store (v i)).vtxQueue p) := by
  have hle := h.count_le
  have hplace := h.place
  have hslot : ∀ j : Fin kMaxVerts, (j : ℕ) + 1 ≤ p.needed → (p = .triFan → 1 ≤ (j : ℕ)) →
      (m.store (v i)).vtxQueue j = v (i - (p.needed - 1 - j)) :=
    fun j hj hf => h.newest hn hc hj hf
  unfold kMaxVerts at hc
  cases p with
  | point => rw [VertexQueue.read, hslot 0 (by decide) (by decide)]; rfl
  | line | sprite =>
    have hodd : i % 2 = 1 := by
      change i % 2 = m.vtxCount % 2 at hplace
      change m.vtxCount % 6 = 1 at hc
      omega
    rw [VertexQueue.read, hslot 0 (by decide) (by decide), hslot 1 (by decide) (by decide), PrimType.group, if_pos hodd]
    rfl
  | triangle =>
    have hthird : i % 3 = 2 := by
      change i % 3 = m.vtxCount % 3 at hplace
      change m.vtxCount % 6 = 2 at hc
      omega
    rw [VertexQueue.read, hslot 0 (by decide) (by decide), hslot 1 (by decide) (by decide),
      hslot 2 (by decide) (by decide), PrimType.group, if_pos hthird]
    rfl
  | lineStrip =>
    have hone : 1 ≤ i := le_trans (Nat.le_of_succ_le_succ hn) hle
    rw [VertexQueue.read, hslot 0 (by decide) (by decide), hslot 1 (by decide) (by decide), PrimType.group, if_pos hone]
    rfl
  | triStrip =>
    have htwo : 2 ≤ i := le_trans (Nat.le_of_succ_le_succ hn) hle
    rw [VertexQueue.read, hslot 0 (by decide) (by decide), hslot 1 (by decide) (by decide),
      hslot 2 (by decide) (by decide), PrimType.group, if_pos htwo]
    rfl
  | triFan =>
    have htwo : 2 ≤ i := le_trans (Nat.le_of_succ_le_succ hn) hle
    have hcount : m.vtxCount = 2 := hfan rfl
    have hzero : (m.store (v i)).vtxQueue 0 = v 0 := by
      apply h.store.first rfl (Nat.succ_pos _)
      change m.vtxCount + 1 ≤ kMaxVerts
      rw [hcount]
      decide
    rw [VertexQueue.read, hzero, hslot 1 (by decide) (by decide), hslot 2 (by decide) (by decide),
      PrimType.group, if_pos htwo]
    rfl

theorem shift : Lined p v (i + 1) (VertexQueue.shift (m.store (v i)).vtxQueue p) := by
  have hle := h.count_le
  have hplace := h.place
  have hslot : ∀ j : Fin kMaxVerts, (j : ℕ) + 1 ≤ p.needed → (p = .triFan → 1 ≤ (j : ℕ)) →
      (m.store (v i)).vtxQueue j = v (i - (p.needed - 1 - j)) :=
    fun j hj hf => h.newest hn hc hj hf
  unfold kMaxVerts at hc
  cases p with
  | point | line | sprite | triangle =>
    refine ⟨Nat.zero_le _, (Ring.window_zero _ 0 v _).mono (PrimType.depth_le _ 0), (fun hp => by cases hp), ?_⟩
    simp only [PrimType.isList, PrimType.needed, if_true, VertexQueue.shift] at hplace hc ⊢
    omega
  | lineStrip =>
    refine ⟨Nat.succ_le_succ (Nat.zero_le _), ?_, (fun hp => by cases hp), fun hlt => absurd hlt (lt_irrefl _)⟩
    intro d hd
    have hd : d = 0 := by
      change d < min 6 1 at hd
      omega
    subst hd
    exact hslot 1 (by decide) (by decide)
  | triStrip =>
    have htwo : 2 ≤ i := le_trans (Nat.le_of_succ_le_succ hn) hle
    refine ⟨Nat.le_succ_of_le htwo, ?_, (fun hp => by cases hp), fun hlt => absurd hlt (lt_irrefl _)⟩
    intro d hd
    change d < min 6 2 at hd
    rcases d with _ | _ | d
    · exact hslot 2 (by decide) (by decide)
    · have hone := hslot 1 (by decide) (by decide)
      rw [show i + 1 - 1 - 1 = i - 1 by omega]
      exact hone
    · omega
  | triFan =>
    have htwo : 2 ≤ i := le_trans (Nat.le_of_succ_le_succ hn) hle
    have hcount : m.vtxCount = 2 := hfan rfl
    refine ⟨Nat.le_succ_of_le htwo, ?_, fun _ _ _ => ?_, fun hlt => absurd hlt (lt_irrefl _)⟩
    · intro d hd
      have hd : d = 0 := by
        change d < min 6 1 at hd
        omega
      subst hd
      exact hslot 2 (by decide) (by decide)
    · apply h.store.first rfl (Nat.succ_pos _)
      change m.vtxCount + 1 ≤ kMaxVerts
      rw [hcount]
      decide

end

end

end

theorem last_older {m : VertexQueue ℕ} (h : Lined p id i m) (hn : p.needed ≤ m.vtxCount + 1)
    (hc : m.vtxCount % kMaxVerts ≠ p.needed - 1) :
    ∃ j < i, (VertexQueue.read (m.store i).vtxQueue p).getLast? = some j := by
  have hle := h.count_le
  have hlast : ∀ j : Fin kMaxVerts, (j : ℕ) + 1 = p.needed → (m.store i).vtxQueue j < i := by
    intro j hj
    have hturn : 0 < (m.vtxCount - j) % kMaxVerts := by
      unfold kMaxVerts at hc ⊢
      have := p.needed_le
      omega
    have hback : (m.vtxCount - j) % kMaxVerts ≤ m.vtxCount - j := Nat.mod_le _ _
    have hdepth : (m.vtxCount - j) % kMaxVerts < p.depth (m.vtxCount + 1) := by
      unfold PrimType.depth
      split
      · have hneed : p.needed = 3 := by rw [‹p = .triFan›]; rfl
        omega
      · omega
    have hslot : (m.store i).vtxQueue j = i - (m.vtxCount - j) % kMaxVerts := h.slot (by omega) hdepth
    omega
  cases p with
  | point => exact ⟨_, hlast 0 rfl, rfl⟩
  | line | sprite | lineStrip => exact ⟨_, hlast 1 rfl, rfl⟩
  | triangle | triStrip | triFan => exact ⟨_, hlast 2 rfl, rfl⟩

theorem fan_lost {m : VertexQueue ℕ} (h : Lined .triFan id i m) (hn : 3 ≤ m.vtxCount + 1)
    (hc : m.vtxCount % kMaxVerts = 2) (hne : m.vtxCount ≠ 2) :
    ∃ j, 0 < j ∧ (VertexQueue.read (m.store i).vtxQueue .triFan).head? = some j := by
  have hle := h.count_le
  have hfar : 8 ≤ m.vtxCount := by
    unfold kMaxVerts at hc
    omega
  have hback : (m.vtxCount - ((0 : Fin kMaxVerts) : ℕ)) % kMaxVerts = 2 := hc
  have hdepth : (m.vtxCount - ((0 : Fin kMaxVerts) : ℕ)) % kMaxVerts < PrimType.depth .triFan (m.vtxCount + 1) := by
    rw [hback]
    exact lt_of_lt_of_le (by decide) hfar
  have hslot : (m.store i).vtxQueue 0 = i - (m.vtxCount - ((0 : Fin kMaxVerts) : ℕ)) % kMaxVerts :=
    h.slot (Nat.zero_le _) hdepth
  rw [hback] at hslot
  exact ⟨_, by omega, rfl⟩

end Lined

variable {kicks : List Bool}

section

variable {i : ℕ} {l : List ℕ}

theorem last_of_expected {p : PrimType} (h : l ∈ expectedFrom p id i kicks) : ∃ j, i ≤ j ∧ l.getLast? = some j := by
  induction kicks generalizing i with
  | nil => cases h
  | cons kicked kicks ih =>
    rcases List.mem_append.1 h with h | h
    · refine ⟨i, le_rfl, ?_⟩
      cases kicked
      · cases h
      · simp only [if_true, List.map_id_fun, id_eq, Option.map_id_fun', Option.mem_toList] at h
        cases p <;> simp only [PrimType.group, Option.ite_none_right_eq_some, Option.some.injEq] at h <;> grind
    · obtain ⟨j, hj, hl⟩ := ih h
      exact ⟨j, by omega, hl⟩

theorem head_of_expected (h : l ∈ expectedFrom .triFan id i kicks) : l.head? = some 0 := by
  induction kicks generalizing i with
  | nil => cases h
  | cons kicked kicks ih =>
    rcases List.mem_append.1 h with h | h
    · cases kicked
      · cases h
      · simp only [if_true, List.map_id_fun, id_eq, Option.map_id_fun', Option.mem_toList, PrimType.group,
          Option.ite_none_right_eq_some, Option.some.injEq] at h
        rw [← h.2]
        rfl
    · exact ih h

end

/-! ### Runs -/

/-- The condition on the kicks to come, with `count` vertices on the queue. -/
def SkipsFrom (p : PrimType) (count : ℕ) (kicks : List Bool) : Prop :=
  SkipsInSixes p (p.needed - 1 - count) (count - (p.needed - 1)) kicks

section

variable {p : PrimType} {count : ℕ}

theorem skipsFrom_quiet {kicked : Bool} (h : kicked = false ∨ count + 1 < p.needed) :
    SkipsFrom p count (kicked :: kicks) ↔ SkipsFrom p (count + 1) kicks := by
  unfold SkipsFrom
  rcases Nat.lt_or_ge (count + 1) p.needed with hlt | hge
  · rw [show p.needed - 1 - count = p.needed - 1 - (count + 1) + 1 by omega,
      show count - (p.needed - 1) = count + 1 - (p.needed - 1) by omega]
    rfl
  · have hk : kicked = false := h.resolve_right (by omega)
    rw [show p.needed - 1 - count = 0 by omega, show p.needed - 1 - (count + 1) = 0 by omega,
      show count + 1 - (p.needed - 1) = count - (p.needed - 1) + 1 by omega, hk]
    rfl

theorem skipsFrom_kick (h : p.needed ≤ count + 1) (queue : Fin kMaxVerts → V) :
    SkipsFrom p count (true :: kicks) ↔
      (count % kMaxVerts = p.needed - 1 ∧ (p = .triFan → count = 2)) ∧
        SkipsFrom p (VertexQueue.shift queue p).vtxCount kicks := by
  have hrest : SkipsInSixes p p.missing 0 kicks = SkipsFrom p (VertexQueue.shift queue p).vtxCount kicks := by
    cases p <;> rfl
  rw [← hrest]
  unfold SkipsFrom
  rw [show p.needed - 1 - count = 0 by omega]
  apply and_congr_left'
  have hneed := p.needed_le
  refine and_congr ?_ (forall_congr' fun hp => ?_)
  · unfold kMaxVerts
    omega
  · rw [hp] at h ⊢
    change 3 ≤ count + 1 at h
    change count - 2 = 0 ↔ count = 2
    omega

end

open VertexQueue in
/-- The queue draws what is expected where the vertices left unkicked come in sixes. -/
theorem drawnBy_of_skips {p : PrimType} {v : ℕ → V} {i : ℕ} {m : VertexQueue V} (h : Lined p v i m)
    (hskips : SkipsFrom p m.vtxCount kicks) : drawnBy (some p) (numbered v i kicks) m = expectedFrom p v i kicks := by
  induction kicks generalizing i m with
  | nil => rfl
  | cons kicked kicks ih =>
    rw [numbered, drawnBy, expectedFrom]
    by_cases hquiet : kicked = false ∨ m.vtxCount + 1 < p.needed
    · have hnone : (if kicked then (p.group i).map (·.map v) else none) = none := by
        rcases hquiet with hk | hlt
        · rw [hk]; rfl
        · rw [h.group_none hlt]; exact ite_self _
      rw [putVertex_quiet (hquiet.imp id fun hlt q hq => by cases hq; exact hlt), hnone,
        ih h.store ((skipsFrom_quiet hquiet).1 hskips)]
    · push Not at hquiet
      obtain ⟨hk, hn⟩ := hquiet
      have hk : kicked = true := by simpa using hk
      subst hk
      obtain ⟨⟨hc, hfan⟩, hrest⟩ := (skipsFrom_kick hn (m.store (v i)).vtxQueue).1 hskips
      rw [putVertex_draws hn, if_pos rfl, h.read_eq hn hc hfan, ih (h.shift hn hc hfan) hrest]

open VertexQueue in
/-- On vertices that are all different it draws so nowhere else. -/
theorem skips_of_drawnBy {p : PrimType} {i : ℕ} {m : VertexQueue ℕ} (h : Lined p id i m)
    (heq : drawnBy (some p) (numbered id i kicks) m = expectedFrom p id i kicks) : SkipsFrom p m.vtxCount kicks := by
  induction kicks generalizing i m with
  | nil =>
    unfold SkipsFrom SkipsInSixes
    trivial
  | cons kicked kicks ih =>
    by_cases hquiet : kicked = false ∨ m.vtxCount + 1 < p.needed
    · have hnone : (if kicked then (p.group i).map (·.map id) else none) = none := by
        rcases hquiet with hk | hlt
        · rw [hk]; rfl
        · rw [h.group_none hlt]; exact ite_self _
      rw [numbered, drawnBy, expectedFrom,
        putVertex_quiet (hquiet.imp id fun hlt q hq => by cases hq; exact hlt), hnone] at heq
      exact (skipsFrom_quiet hquiet).2 (ih h.store heq)
    · push Not at hquiet
      obtain ⟨hk, hn⟩ := hquiet
      have hk : kicked = true := by simpa using hk
      subst hk
      -- the primitive read is one of those expected from here on
      have hmem : read (m.store i).vtxQueue p ∈ expectedFrom p id i (true :: kicks) := by
        rw [← heq, numbered, drawnBy]
        change _ ∈ (m.putVertex (some p) i true).2.toList ++ _
        rw [putVertex_draws hn]
        exact List.mem_cons_self
      have hc : m.vtxCount % kMaxVerts = p.needed - 1 := by
        by_contra hc
        obtain ⟨j, hj, hlast⟩ := h.last_older hn hc
        obtain ⟨k, hk, hlast'⟩ := last_of_expected hmem
        rw [hlast] at hlast'
        have := Option.some.inj hlast'
        omega
      have hfan : p = .triFan → m.vtxCount = 2 := by
        intro hp
        subst hp
        by_contra hne
        obtain ⟨j, hj, hhead⟩ := h.fan_lost hn hc hne
        rw [head_of_expected hmem] at hhead
        have := Option.some.inj hhead
        omega
      rw [numbered, drawnBy, expectedFrom, putVertex_draws hn, if_pos rfl, h.read_eq hn hc hfan] at heq
      have htail := List.append_cancel_left heq
      exact (skipsFrom_kick hn (m.store i).vtxQueue).2 ⟨⟨hc, hfan⟩, ih (h.shift hn hc hfan) htail⟩

/-! ### Renaming vertices -/

namespace VertexQueue

def map (f : V → W) (m : VertexQueue V) : VertexQueue W := ⟨f ∘ m.vtxQueue, m.vtxCount⟩

theorem map_store (f : V → W) (m : VertexQueue V) (v : V) : (m.store v).map f = (m.map f).store (f v) := by
  unfold map store
  rw [Ring.map_store]

section

variable (f : V → W) (queue : Fin kMaxVerts → V) (p : PrimType)

theorem map_shift : (shift queue p).map f = shift (f ∘ queue) p := by
  cases p <;> simp only [shift, map, Function.comp_update, Function.comp_apply]

theorem map_read : (read queue p).map f = read (f ∘ queue) p := by
  cases p <;> rfl

end

section

variable (f : V → W) (prim : Option PrimType)

theorem map_putVertex (v : V) (kicked : Bool) (m : VertexQueue V) : (m.map f).putVertex prim (f v) kicked =
    ((m.putVertex prim v kicked).1.map f, (m.putVertex prim v kicked).2.map (·.map f)) := by
  by_cases hquiet : kicked = false ∨ ∀ p, prim = some p → m.vtxCount + 1 < p.needed
  · rw [putVertex_quiet hquiet, putVertex_quiet (m := m.map f) hquiet, map_store]
    rfl
  · push Not at hquiet
    obtain ⟨hk, p, rfl, hn⟩ := hquiet
    have hk : kicked = true := by simpa using hk
    subst hk
    rw [putVertex_draws hn, putVertex_draws (m := m.map f) hn, map_shift, ← map_store, Option.map_some, map_read]
    rfl

theorem map_drawnBy (vs : List (V × Bool)) (m : VertexQueue V) :
    drawnBy prim (vs.map (Prod.map f id)) (m.map f) = (drawnBy prim vs m).map (·.map f) := by
  induction vs generalizing m with
  | nil => rfl
  | cons v vs ih =>
    obtain ⟨v, kicked⟩ := v
    rw [List.map_cons, Prod.map_apply, id_eq, drawnBy, drawnBy, map_putVertex, ih, List.map_append]
    cases (m.putVertex prim v kicked).2 <;> rfl

end

end VertexQueue

theorem numbered_map (f : V → W) (v : ℕ → V) (i : ℕ) (kicks : List Bool) :
    (numbered v i kicks).map (Prod.map f id) = numbered (f ∘ v) i kicks := by
  induction kicks generalizing i with
  | nil => rfl
  | cons kicked kicks ih => simp [numbered, ih]

theorem expectedFrom_map (f : V → W) (p : PrimType) (v : ℕ → V) (i : ℕ) (kicks : List Bool) :
    (expectedFrom p v i kicks).map (·.map f) = expectedFrom p (f ∘ v) i kicks := by
  induction kicks generalizing i with
  | nil => rfl
  | cons kicked kicks ih =>
    rw [expectedFrom, expectedFrom, List.map_append, ih]
    cases kicked
    · rfl
    · cases p.group i <;> simp

theorem eq_of_maps {ι : Type} [Inhabited ι] {f : ι → V → W} (hf : ∀ a b, (∀ k, f k a = f k b) → a = b) :
    ∀ {l l' : List V}, (∀ k, l.map (f k) = l'.map (f k)) → l = l'
  | [], [], _ => rfl
  | [], _ :: _, h => by simpa using h default
  | _ :: _, [], h => by simpa using h default
  | a :: l, a' :: l', h => by
    have hhead : a = a' := hf a a' fun k => (List.cons.inj (h k)).1
    have htail : l = l' := eq_of_maps hf fun k => (List.cons.inj (h k)).2
    rw [hhead, htail]

/-! ### Writes -/

variable {regs next : VertexRegs}

section

variable {regAddr : Byte} {value : BitVec 64}

theorem writeRegister_prim (h : writeRegister regAddr value regs = .prim next) : regAddr = 0x00 := by
  unfold writeRegister at h
  split at h
  · exact BitVec.eq_of_toNat_eq ‹_›
  all_goals cases h

theorem writeRegister_regs (h : writeRegister regAddr value regs = .regs next) : next.prim = regs.prim := by
  unfold writeRegister at h
  split at h <;> cases h <;> rfl

end

variable {w : Write}

theorem Write.effect_ne_prim (hw : w.primData = none) (regs next : VertexRegs) : w.effect regs ≠ .prim next := by
  intro h
  cases w with
  | register regAddr value =>
    have haddr := writeRegister_prim h
    simp [Write.primData, haddr] at hw
  | packed regDesc lo hi =>
    change writeRegisterPacked regDesc lo hi regs = .prim next at h
    have hdesc : regDesc ≠ 0x00 := by
      intro h0
      rw [Write.primData, if_pos h0] at hw
      cases hw
    have had : ¬ (regDesc = 0x0E ∧ field hi 0 8 = 0x00) := by
      intro h0
      rw [Write.primData, if_neg hdesc, if_pos h0] at hw
      cases hw
    unfold writeRegisterPacked at h
    split at h <;> first | cases h; done | skip
    · exact hdesc (BitVec.eq_of_toNat_eq ‹_›)
    · exact had ⟨BitVec.eq_of_toNat_eq ‹_›, writeRegister_prim h⟩
    · exact hdesc (writeRegister_prim h)

theorem Write.effect_regs (hw : w.primData = none) (h : w.effect regs = .regs next) : next.prim = regs.prim := by
  cases w with
  | register regAddr value => exact writeRegister_regs h
  | packed regDesc lo hi =>
    change writeRegisterPacked regDesc lo hi regs = .regs next at h
    unfold writeRegisterPacked at h
    split at h <;> first | exact writeRegister_regs h | cases h <;> rfl

theorem drawn_eq {ws : List Write} (hws : ∀ w ∈ ws, w.primData = none) (gs : Gs) :
    drawn ws gs = gs.queue.drawnBy (primType gs.regs.prim) (vertices ws gs.regs) := by
  induction ws generalizing gs with
  | nil => rfl
  | cons w ws ih =>
    have hw : w.primData = none := hws w List.mem_cons_self
    have hrest : ∀ w ∈ ws, w.primData = none := fun w h => hws w (List.mem_cons_of_mem _ h)
    rw [drawn, vertices]
    cases he : w.effect gs.regs with
    | prim next => exact absurd he (Write.effect_ne_prim hw _ _)
    | regs next =>
      have hprim : next.prim = gs.regs.prim := Write.effect_regs hw he
      rw [← hprim]
      exact ih hrest { gs with regs := next }
    | vertex v kicked =>
      change _ ++ drawn ws { gs with queue := (gs.queue.putVertex (primType gs.regs.prim) v kicked).1 } = _
      rw [ih hrest]
      rfl

theorem Write.effect_prim {data : BitVec 64} (hw : w.primData = some data) (regs : VertexRegs) :
    w.effect regs = .prim { regs with prim := data } := by
  cases w with
  | register regAddr value =>
    rw [Write.primData, Option.ite_none_right_eq_some] at hw
    obtain ⟨rfl, hv⟩ := hw
    cases hv
    rfl
  | packed regDesc lo hi =>
    rw [Write.primData] at hw
    split at hw
    · subst regDesc
      cases hw
      rfl
    · rw [Option.ite_none_right_eq_some] at hw
      obtain ⟨⟨rfl, haddr⟩, hv⟩ := hw
      cases hv
      change writeRegister (field hi 0 8) _ regs = _
      rw [haddr]
      rfl

/-- Vertices that differ in a mark, one for each kick. -/
def markWrites (mark : ℕ → Bool) : ℕ → List Bool → List Write
  | _, [] => []
  | i, kicked :: kicks =>
    .register (if kicked then 0x05 else 0x0D) (if mark i then 1 else 0) :: markWrites mark (i + 1) kicks

def markVertex (regs : VertexRegs) (marked : Bool) : GSVertex :=
  regs.vertex (if marked then 1 else 0) 0 0 (field regs.fog 56 8)

theorem markVertex_injective (regs : VertexRegs) : Function.Injective (markVertex regs) := by
  intro a b h
  have hx : (if a then 1 else 0 : BitVec 16) = if b then 1 else 0 := congrArg GSVertex.x h
  revert hx
  cases a <;> cases b <;> decide

section

variable (mark : ℕ → Bool) (i : ℕ) (kicks : List Bool)

theorem markWrites_primData : ∀ w ∈ markWrites mark i kicks, w.primData = none := by
  induction kicks generalizing i with
  | nil => simp [markWrites]
  | cons kicked kicks ih =>
    intro w hw
    rcases List.mem_cons.1 hw with rfl | hw
    · cases kicked <;> rfl
    · exact ih (i + 1) w hw

theorem vertices_markWrites (regs : VertexRegs) :
    vertices (markWrites mark i kicks) regs = numbered (markVertex regs ∘ mark) i kicks := by
  induction kicks generalizing i with
  | nil => rfl
  | cons kicked kicks ih =>
    have heffect : (Write.register (if kicked then 0x05 else 0x0D) (if mark i then 1 else 0)).effect regs =
        .vertex (markVertex regs (mark i)) kicked := by
      cases kicked <;> cases mark i <;> rfl
    rw [markWrites, vertices, heffect, numbered, ← ih]
    rfl

end

theorem skips_of_marked {p : PrimType} (regs : VertexRegs)
    (h : ∀ mark : ℕ → Bool, VertexQueue.drawnBy (some p) (numbered (markVertex regs ∘ mark) 0 kicks)
      ⟨fun _ => markVertex regs (mark 0), 0⟩ = expectedFrom p (markVertex regs ∘ mark) 0 kicks) :
    SkipsInSixes p (p.needed - 1) 0 kicks := by
  have hskips : SkipsFrom p 0 kicks := by
    apply skips_of_drawnBy (m := ⟨fun _ => 0, 0⟩) (Lined.start p id _)
    have htell : ∀ a b : ℕ, (∀ k, markVertex regs (a == k) = markVertex regs (b == k)) → a = b := by
      intro a b hab
      have := markVertex_injective regs (hab b)
      simpa using this
    apply eq_of_maps (f := fun k => List.map fun a => markVertex regs (a == k)) fun a b => eq_of_maps htell
    intro k
    let f : ℕ → GSVertex := markVertex regs ∘ (· == k)
    calc (VertexQueue.drawnBy (some p) (numbered id 0 kicks) ⟨fun _ => 0, 0⟩).map (·.map f)
        = VertexQueue.drawnBy (some p) ((numbered id 0 kicks).map (Prod.map f id))
            (VertexQueue.map f ⟨fun _ => 0, 0⟩) := (VertexQueue.map_drawnBy f _ _ _).symm
      _ = VertexQueue.drawnBy (some p) (numbered f 0 kicks) ⟨fun _ => f 0, 0⟩ := by rw [numbered_map]; rfl
      _ = expectedFrom p f 0 kicks := h (· == k)
      _ = (expectedFrom p id 0 kicks).map (·.map f) := (expectedFrom_map f p id 0 kicks).symm
  simpa [SkipsFrom] using hskips

theorem exists_numbered [Inhabited V] (vs : List (V × Bool)) : ∃ v : ℕ → V, vs = numbered v 0 (vs.map Prod.snd) := by
  refine ⟨fun j => (vs[j]?.map Prod.fst).getD default, ?_⟩
  apply List.ext_getElem?
  intro j
  rw [numbered_getElem, List.getElem?_map, Nat.zero_add]
  cases vs[j]? <;> rfl

theorem kicks_numbered (v : ℕ → V) (i : ℕ) (kicks : List Bool) : (numbered v i kicks).map Prod.snd = kicks := by
  induction kicks generalizing i with
  | nil => rfl
  | cons kicked kicks ih => rw [numbered, List.map_cons, ih]

theorem drawnBy_none (vs : List (V × Bool)) (m : VertexQueue V) : m.drawnBy none vs = [] := by
  induction vs generalizing m with
  | nil => rfl
  | cons v vs ih =>
    obtain ⟨v, kicked⟩ := v
    rw [VertexQueue.drawnBy, VertexQueue.putVertex_quiet (Or.inr fun p hp => by cases hp), ih]
    rfl

theorem expected_none (vs : List (V × Bool)) : expected none vs = [] :=
  List.filterMap_eq_nil_iff.2 fun _ _ => rfl

/-- **The vertex queue.** After a write of PRIM, vertices of any data with these kicks draw the primitives
of their sequence exactly where those left unkicked come in sixes. -/
theorem vertices_drawn_iff (data : BitVec 64) (kicks : List Bool) :
    (∀ (gs : Gs) (first : Write) (ws : List Write), first.primData = some data →
      (∀ w ∈ ws, w.primData = none) → (vertices ws { gs.regs with prim := data }).map Prod.snd = kicks →
      drawn (first :: ws) gs = expected (primType data) (vertices ws { gs.regs with prim := data })) ↔
    ∀ p, primType data = some p → SkipsInSixes p (p.needed - 1) 0 kicks := by
  have hafter : ∀ (gs : Gs) (first : Write) (ws : List Write), first.primData = some data →
      (∀ w ∈ ws, w.primData = none) → drawn (first :: ws) gs =
        VertexQueue.drawnBy (primType data) (vertices ws { gs.regs with prim := data })
          ⟨gs.queue.vtxQueue, 0⟩ := by
    intro gs first ws hfirst hws
    rw [drawn, Write.effect_prim hfirst]
    exact drawn_eq hws ⟨{ gs.regs with prim := data }, ⟨gs.queue.vtxQueue, 0⟩⟩
  constructor
  · intro h p hp
    let regs : VertexRegs := ⟨data, 0, 0, 0, 0⟩
    apply skips_of_marked regs
    intro mark
    have hws := markWrites_primData mark 0 kicks
    have hdrawn := h ⟨regs, ⟨fun _ => markVertex regs (mark 0), 0⟩⟩ (.register 0x00 data) (markWrites mark 0 kicks)
      rfl hws (by rw [vertices_markWrites, kicks_numbered])
    rw [hafter _ _ _ rfl hws, hp, vertices_markWrites, expected_numbered] at hdrawn
    exact hdrawn
  · intro h gs first ws hfirst hws hkicks
    rw [hafter gs first ws hfirst hws]
    cases hp : primType data with
    | none => rw [drawnBy_none, expected_none]
    | some p =>
      have : Inhabited GSVertex := ⟨gs.queue.vtxQueue 0⟩
      obtain ⟨v, hv⟩ := exists_numbered (vertices ws { gs.regs with prim := data })
      rw [hkicks] at hv
      rw [hv, expected_numbered]
      apply drawnBy_of_skips (Lined.start p v _)
      have hskips := h p hp
      simpa [SkipsFrom] using hskips

/-- A triangle strip that is restarted by two vertices without a kick goes on from its old ones. -/
theorem restarted_strip : ∃ (gs : Gs) (ws : List Write), (∀ w ∈ ws, w.primData = none) ∧
    drawn (.register 0x00 4 :: ws) gs ≠ expected (primType 4) (vertices ws { gs.regs with prim := 4 }) := by
  refine ⟨⟨⟨0, 0, 0, 0, 0⟩, ⟨fun _ => markVertex ⟨0, 0, 0, 0, 0⟩ false, 0⟩⟩,
    [.register 0x05 0, .register 0x05 1, .register 0x05 2, .register 0x0D 3, .register 0x0D 4,
      .register 0x05 5], by decide, ?_⟩
  decide

end Ps2Recomp.Vertices
