import Mathlib.Data.Nat.Bitwise
import Mathlib.Data.Set.Basic
import Mathlib.Tactic.Ring
import Mathlib.Data.Fin.VecNotation
import Ps2Recomp.Lib.Indices

/-!
# Byte memories

A memory of bytes, its little endian words and its bits. A word is read and written bit by bit:

* `testBit_load`: the bits of a loaded word are the bits of the memory at its place.
* `bit_store`: a store sets the bits of its place and leaves all others.
* `Writes`: the places an operation writes, with what it writes there; `Writes.comp` and
  `Writes.foldl` put operations that agree on what they write together.
-/

namespace Bytes

abbrev Memory := ℕ → BitVec 8

/-- The little endian word of `n` bytes at `p`. -/
def load (m : Memory) (p : ℕ) : ℕ → ℕ
  | 0 => 0
  | n + 1 => (m p).toNat + 256 * load m (p + 1) n

/-- The low `n` bytes of `v`, written at `p`. -/
def store (m : Memory) (p v n : ℕ) : Memory := fun q =>
  if p ≤ q ∧ q < p + n then BitVec.ofNat 8 (v / 256 ^ (q - p)) else m q

/-- Bytes, written at `p`. -/
def copy (m : Memory) (p : ℕ) (bytes : List (BitVec 8)) : Memory := fun q =>
  if p ≤ q ∧ q < p + bytes.length then bytes.getD (q - p) 0 else m q

/-- The bits of the memory, in the order of the addresses. -/
def bit (m : Memory) (k : ℕ) : Bool := (m (k / 8)).getLsbD (k % 8)

variable {m : Memory} {p n v : ℕ}

theorem testBit_load (i : ℕ) : (load m p n).testBit i = (decide (i < 8 * n) && bit m (8 * p + i)) := by
  induction n generalizing p i with
  | zero => simp [load]
  | succ n ih =>
    have hlow : (m p).toNat < 2 ^ 8 := (m p).isLt
    have hsum : load m p (n + 1) = 2 ^ 8 * load m (p + 1) n + (m p).toNat := by
      rw [load]
      ring
    rw [hsum, Nat.testBit_two_pow_mul_add _ hlow]
    by_cases hi : i < 8
    · have hq : (8 * p + i) / 8 = p := by omega
      have hr : (8 * p + i) % 8 = i := by omega
      have hn : i < 8 * (n + 1) := by omega
      simp [hi, hn, bit, hq, hr, BitVec.testBit_toNat]
    · have hp : 8 * (p + 1) + (i - 8) = 8 * p + i := by omega
      rw [if_neg hi, ih, hp]
      congr 1
      exact decide_eq_decide.mpr (by omega)

theorem load_lt : load m p n < 2 ^ (8 * n) := by
  refine Nat.lt_pow_two_of_testBit _ fun i hi => ?_
  rw [testBit_load, decide_eq_false (by omega), Bool.false_and]

theorem load_eq_of_bytes (hv : v < 2 ^ (8 * n))
    (h : ∀ b < n, m (p + b) = BitVec.ofNat 8 (v >>> (8 * b))) : load m p n = v := by
  refine Nat.eq_of_testBit_eq fun i => ?_
  rw [testBit_load]
  by_cases hi : i < 8 * n
  · have hq : (8 * p + i) / 8 = p + i / 8 := by omega
    have hr : (8 * p + i) % 8 = i % 8 := by omega
    rw [decide_eq_true hi, Bool.true_and, bit, hq, hr, h (i / 8) (by omega), BitVec.getLsbD_ofNat,
      decide_eq_true (by omega), Bool.true_and, Nat.testBit_shiftRight, Nat.div_add_mod]
  · rw [decide_eq_false hi, Bool.false_and]
    exact (Nat.testBit_lt_two_pow (hv.trans_le (Nat.pow_le_pow_right (by omega) (by omega)))).symm

theorem bit_store (k : ℕ) :
    bit (store m p v n) k = if 8 * p ≤ k ∧ k < 8 * (p + n) then v.testBit (k - 8 * p) else bit m k := by
  unfold bit store
  by_cases hk : 8 * p ≤ k ∧ k < 8 * (p + n)
  · have hq : p ≤ k / 8 ∧ k / 8 < p + n := by omega
    have hpow : (256 : ℕ) ^ (k / 8 - p) = 2 ^ (8 * (k / 8 - p)) := by
      rw [pow_mul]
      rfl
    have hsum : k % 8 + 8 * (k / 8 - p) = k - 8 * p := by omega
    rw [if_pos hk, if_pos hq, BitVec.getLsbD_ofNat, hpow, Nat.testBit_div_two_pow, hsum,
      decide_eq_true (by omega), Bool.true_and]
  · have hq : ¬ (p ≤ k / 8 ∧ k / 8 < p + n) := by omega
    rw [if_neg hk, if_neg hq]

theorem load_moved {m' : Memory} {q : ℕ} (h : ∀ i < n, m (p + i) = m' (q + i)) : load m p n = load m' q n := by
  induction n generalizing p q with
  | zero => rfl
  | succ n ih =>
    have hfirst : m p = m' q := h 0 (Nat.succ_pos n)
    have hrest : load m (p + 1) n = load m' (q + 1) n := by
      apply ih
      intro i hi
      rw [Nat.add_assoc, Nat.add_assoc, Nat.add_comm 1 i]
      exact h (i + 1) (Nat.succ_lt_succ hi)
    rw [load, load, hfirst, hrest]

theorem load_congr {m' : Memory} (h : ∀ r, p ≤ r → r < p + n → m r = m' r) : load m p n = load m' p n := by
  apply load_moved
  intro i hi
  exact h (p + i) (by omega) (by omega)

theorem load_store_self : load (store m p v n) p n = v % 2 ^ (8 * n) := by
  refine Nat.eq_of_testBit_eq fun i => ?_
  rw [testBit_load, bit_store, Nat.testBit_mod_two_pow]
  by_cases hi : i < 8 * n
  · rw [if_pos (by omega), Nat.add_sub_cancel_left]
  · rw [decide_eq_false hi, Bool.false_and, Bool.false_and]

theorem store_off {q : ℕ} (h : q < p ∨ p + n ≤ q) : store m p v n q = m q := by
  rw [store, if_neg (by omega)]

theorem eq_of_bit {m m' : Memory} (h : ∀ k, bit m k = bit m' k) : m = m' := by
  funext q
  refine BitVec.eq_of_getLsbD_eq fun i hi => ?_
  have hb := h (8 * q + i)
  rwa [bit, bit, show (8 * q + i) / 8 = q by omega, show (8 * q + i) % 8 = i by omega] at hb

theorem store_load : store m p (load m p n) n = m := by
  refine eq_of_bit fun k => ?_
  rw [bit_store]
  by_cases hk : 8 * p ≤ k ∧ k < 8 * (p + n)
  · rw [if_pos hk, testBit_load, decide_eq_true (by omega), Bool.true_and, Nat.add_sub_cancel' hk.1]
  · rw [if_neg hk]

/-! ### Written places -/

/-- `f` writes the bytes of `v` at the places of `S`, and no others. -/
structure Writes (f : Memory → Memory) (S : Set ℕ) (v : Memory) : Prop where
  on : ∀ m, ∀ q ∈ S, f m q = v q
  off : ∀ m, ∀ q ∉ S, f m q = m q

namespace Writes

variable {f g : Memory → Memory} {S T : Set ℕ} {v : Memory}

theorem id : Writes (fun m => m) ∅ v :=
  ⟨fun _ _ h => h.elim, fun _ _ _ => rfl⟩

theorem comp (hf : Writes f S v) (hg : Writes g T v) : Writes (fun m => g (f m)) (S ∪ T) v := by
  constructor
  · intro m q hq
    by_cases hT : q ∈ T
    · exact hg.on _ q hT
    · rw [hg.off _ q hT]
      exact hf.on _ q (hq.resolve_right hT)
  · intro m q hq
    rw [hg.off _ q fun h => hq (.inr h), hf.off _ q fun h => hq (.inl h)]

theorem foldl {α : Type*} {l : List α} {f : Memory → α → Memory} {S : α → Set ℕ}
    (h : ∀ a ∈ l, Writes (f · a) (S a) v) : Writes (l.foldl f ·) {q | ∃ a ∈ l, q ∈ S a} v := by
  induction l with
  | nil =>
    have hempty : {q | ∃ a ∈ ([] : List α), q ∈ S a} = ∅ := by simp
    rw [hempty]
    exact Writes.id
  | cons a l ih =>
    have hrest := ih fun b hb => h b (List.mem_cons_of_mem a hb)
    have hsplit : {q | ∃ b ∈ a :: l, q ∈ S b} = S a ∪ {q | ∃ b ∈ l, q ∈ S b} := by
      ext q
      simp
    rw [hsplit]
    exact (h a List.mem_cons_self).comp hrest

end Writes

end Bytes

/-!
# Loops that keep to their places

A loop over a memory, with a state besides it, whose passes each read and write places of their own. What
a pass does is then what it does to the memory that the loop began with (`run_on`), and all other places
stay (`run_off`).
-/

namespace Bytes

variable {S : Type*}

/-- A pass of a loop, by its number. -/
abbrev Pass (S : Type*) := ℕ → S → Memory → S × Memory

/-- Each pass reads and writes its own places. -/
structure Local (pass : Pass S) (places : ℕ → Set ℕ) : Prop where
  off : ∀ k s m, ∀ q ∉ places k, (pass k s m).2 q = m q
  state : ∀ k s m m', (∀ q ∈ places k, m q = m' q) → (pass k s m).1 = (pass k s m').1
  on : ∀ k s m m', (∀ q ∈ places k, m q = m' q) → ∀ q ∈ places k, (pass k s m).2 q = (pass k s m').2 q

/-- The first `n` passes. -/
def run (pass : Pass S) (s : S) (m : Memory) : ℕ → S × Memory
  | 0 => (s, m)
  | n + 1 => pass n (run pass s m n).1 (run pass s m n).2

/-- The states of a loop that leaves the memory as it is. -/
def states (pass : Pass S) (s : S) (m : Memory) : ℕ → S
  | 0 => s
  | n + 1 => (pass n (states pass s m n) m).1

theorem foldl_range (pass : Pass S) (s : S) (m : Memory) (n : ℕ) :
    (List.range n).foldl (fun x k => pass k x.1 x.2) (s, m) = run pass s m n := by
  induction n with
  | zero => rfl
  | succ n ih => rw [List.range_succ, List.foldl_append, ih, List.foldl_cons, List.foldl_nil, run]

namespace Local

variable {pass : Pass S} {places : ℕ → Set ℕ} {s : S} {m : Memory} {n k q : ℕ}

section

variable (h : Local pass places)

include h

theorem run_off (hq : ∀ k < n, q ∉ places k) : (run pass s m n).2 q = m q := by
  induction n with
  | zero => rfl
  | succ n ih =>
    rw [run, h.off _ _ _ q (hq n (Nat.lt_succ_self n))]
    exact ih fun k hk => hq k (by omega)

theorem run_ahead (hapart : ∀ j < k, ∀ q ∈ places k, q ∉ places j) (hn : n ≤ k) :
    ∀ q ∈ places k, (run pass s m n).2 q = m q :=
  fun q hq => h.run_off fun j hj => hapart j (by omega) q hq

section

variable (hapart : ∀ k < n, ∀ j < k, ∀ q ∈ places k, q ∉ places j)

include hapart

theorem run_state : (run pass s m n).1 = states pass s m n := by
  induction n with
  | zero => rfl
  | succ n ih =>
    have hahead := h.run_ahead (s := s) (m := m) (hapart n (Nat.lt_succ_self n)) le_rfl
    rw [run, states, h.state n _ _ m hahead, ih fun k hk => hapart k (by omega)]

/-- **What a pass writes** is what it writes to the first memory. -/
theorem run_on (hk : k < n) : ∀ q ∈ places k, (run pass s m n).2 q = (pass k (states pass s m k) m).2 q := by
  intro q hq
  induction n with
  | zero => exact absurd hk (Nat.not_lt_zero k)
  | succ n ih =>
    rw [run]
    rcases Nat.lt_succ_iff_lt_or_eq.1 hk with hlt | rfl
    · have hout : q ∉ places n := fun hin => hapart n (Nat.lt_succ_self n) k hlt q hin hq
      rw [h.off _ _ _ q hout, ih (fun k hk => hapart k (by omega)) hlt]
    · have hahead := h.run_ahead (s := s) (m := m) (hapart k (Nat.lt_succ_self k)) le_rfl
      rw [h.on k _ _ m hahead q hq, h.run_state fun j hj => hapart j (by omega)]

end

end

end Local

end Bytes

/-!
# Quadwords

Quadwords of a byte memory as four lanes of 32 bits, in little endian order.

* `quad_setQuad`, `quad_setQuad_of_apart`: a quadword that is written is read back, and the others stay.
* `eqOn_iff_quad`: memories with the same lanes have the same bytes.
-/

namespace Bytes

/-- A quadword. -/
abbrev Quad := Fin 4 → BitVec 32

def quad (m : Memory) (p : ℕ) : Quad := fun f => .ofNat 32 (load m (p + 4 * f) 4)

def setQuad (m : Memory) (p : ℕ) (lanes : Quad) : Memory := fun q =>
  if p ≤ q ∧ q < p + 16 then (lanes (.ofNat 4 ((q - p) / 4)) >>> (8 * ((q - p) % 4))).setWidth 8 else m q

variable {m m' : Memory} {p q : ℕ} {lanes lanes' : Quad}

theorem load_four (v : BitVec 32) (h : ∀ b < 4, m (p + b) = (v >>> (8 * b)).setWidth 8) : load m p 4 = v.toNat := by
  refine load_eq_of_bytes v.isLt fun b hb => ?_
  rw [h b hb]
  apply BitVec.eq_of_toNat_eq
  rw [BitVec.toNat_setWidth, BitVec.toNat_ushiftRight, BitVec.toNat_ofNat]

theorem quad_setQuad : quad (setQuad m p lanes) p = lanes := by
  funext f
  have hf := f.isLt
  rw [quad, load_four (lanes f), BitVec.ofNat_toNat, BitVec.setWidth_eq]
  intro b hb
  have hlane : (p + 4 * f + b - p) / 4 = f := by omega
  have hbyte : (p + 4 * f + b - p) % 4 = b := by omega
  have hfin : Fin.ofNat 4 f.val = f := Fin.ext (Nat.mod_eq_of_lt hf)
  rw [setQuad, if_pos (by omega), hlane, hbyte, hfin]

theorem setQuad_off (h : ¬(p ≤ q ∧ q < p + 16)) : setQuad m p lanes q = m q := if_neg h

theorem quad_congr (h : ∀ r, p ≤ r → r < p + 16 → m r = m' r) : quad m p = quad m' p := by
  funext f
  have hf := f.isLt
  rw [quad, quad, load_congr fun r hlo hhi => h r (by omega) (by omega)]

theorem quad_setQuad_of_apart (h : p + 16 ≤ q ∨ q + 16 ≤ p) : quad (setQuad m p lanes) q = quad m q :=
  quad_congr fun r hlo hhi => setQuad_off (by omega)

theorem eqOn_of_load {n : ℕ} (h : load m p n = load m' p n) : ∀ r, p ≤ r → r < p + n → m r = m' r := by
  induction n generalizing p with
  | zero =>
    intro r hlo hhi
    omega
  | succ n ih =>
    intro r hlo hhi
    have hm := (m p).isLt
    have hm' := (m' p).isLt
    rw [load, load] at h
    rcases Nat.eq_or_lt_of_le hlo with rfl | hlt
    · exact BitVec.eq_of_toNat_eq (by omega)
    · have hrest : load m (p + 1) n = load m' (p + 1) n := by omega
      exact ih hrest r hlt (by omega)

/-- **Quadwords with the same lanes** have the same bytes. -/
theorem eqOn_iff_quad : (∀ r, p ≤ r → r < p + 16 → m r = m' r) ↔ quad m p = quad m' p := by
  refine ⟨quad_congr, fun h r hlo hhi => ?_⟩
  have hlane := congrFun h (.ofNat 4 ((r - p) / 4))
  have hval : (Fin.ofNat 4 ((r - p) / 4)).val = (r - p) / 4 := Nat.mod_eq_of_lt (by omega)
  have hload : load m (p + 4 * ((r - p) / 4)) 4 = load m' (p + 4 * ((r - p) / 4)) 4 := by
    have hnat := congrArg BitVec.toNat hlane
    rwa [quad, quad, hval, BitVec.toNat_ofNat, BitVec.toNat_ofNat, Nat.mod_eq_of_lt load_lt,
      Nat.mod_eq_of_lt load_lt] at hnat
  exact eqOn_of_load hload r (by omega) (by omega)

theorem setQuad_eq_self_iff : setQuad m p lanes = m ↔ lanes = quad m p := by
  constructor
  · intro h
    rw [← @quad_setQuad m p lanes, h]
  · intro h
    have hinside : ∀ r, p ≤ r → r < p + 16 → setQuad m p lanes r = m r := eqOn_iff_quad.2 (quad_setQuad.trans h)
    funext r
    by_cases hr : p ≤ r ∧ r < p + 16
    · exact hinside r hr.1 hr.2
    · exact setQuad_off hr

end Bytes
