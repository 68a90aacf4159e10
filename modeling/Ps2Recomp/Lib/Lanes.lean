import Mathlib.Data.Fin.VecNotation
import Ps2Recomp.Lib.Bytes

/-!
# Registers of sixteen lanes

The 128 bit registers as sixteen lanes of one byte. Operations that only move lanes are defined
for lanes of every type and commute with maps (`map_unpackloEpi64` and the rest): what such code
does to bytes is what it does to their numbers.
-/

namespace Lanes

/-- A register. -/
abbrev Reg (α : Type*) := Fin 16 → α

variable {α β : Type*}

/-! ### Moving lanes -/

/-- `_mm_unpacklo_epi64`: the low halves. -/
def unpackloEpi64 (a b : Reg α) : Reg α := fun i => if i < 8 then a i else b (i - 8)

/-- `_mm_unpackhi_epi64`: the high halves. -/
def unpackhiEpi64 (a b : Reg α) : Reg α := fun i => if i < 8 then a (i + 8) else b i

/-- `_mm_unpacklo_epi32`: the words 0 and 1 of both, interleaved. -/
def unpackloEpi32 (a b : Reg α) : Reg α := fun i =>
  let lane := Fin.ofNat 16 (i / 8 * 4 + i % 4)
  if i.val / 4 % 2 = 0 then a lane else b lane

/-- `_mm_unpackhi_epi32`: the words 2 and 3 of both, interleaved. -/
def unpackhiEpi32 (a b : Reg α) : Reg α := fun i =>
  let lane := Fin.ofNat 16 (8 + (i / 8 * 4 + i % 4))
  if i.val / 4 % 2 = 0 then a lane else b lane

/-- `_mm_shuffle_epi8`, with a mask that clears no lane. -/
def shuffleEpi8 (a : Reg α) (mask : Reg (Fin 16)) : Reg α := fun i => a (mask i)

section Map

variable (f : α → β) (a b : Reg α)

@[simp] theorem map_unpackloEpi64 : unpackloEpi64 (f ∘ a) (f ∘ b) = f ∘ unpackloEpi64 a b := by
  funext i
  exact (apply_ite f _ _ _).symm

@[simp] theorem map_unpackhiEpi64 : unpackhiEpi64 (f ∘ a) (f ∘ b) = f ∘ unpackhiEpi64 a b := by
  funext i
  exact (apply_ite f _ _ _).symm

@[simp] theorem map_unpackloEpi32 : unpackloEpi32 (f ∘ a) (f ∘ b) = f ∘ unpackloEpi32 a b := by
  funext i
  exact (apply_ite f _ _ _).symm

@[simp] theorem map_unpackhiEpi32 : unpackhiEpi32 (f ∘ a) (f ∘ b) = f ∘ unpackhiEpi32 a b := by
  funext i
  exact (apply_ite f _ _ _).symm

@[simp] theorem map_shuffleEpi8 (mask : Reg (Fin 16)) : shuffleEpi8 (f ∘ a) mask = f ∘ shuffleEpi8 a mask := rfl

end Map

/-! ### Bytes -/

open Bytes

/-- `_mm_loadu_si128`. -/
def loaduSi128 (m : Memory) (p : ℕ) : Reg (BitVec 8) := fun i => m (p + i)

/-- `_mm_storeu_si128`. -/
def storeuSi128 (m : Memory) (p : ℕ) (a : Reg (BitVec 8)) : Memory := fun q =>
  if p ≤ q ∧ q < p + 16 then a (Fin.ofNat 16 (q - p)) else m q

/-- `_mm_and_si128`. -/
def andSi128 (a b : Reg (BitVec 8)) : Reg (BitVec 8) := fun i => a i &&& b i

/-- `_mm_set1_epi8`. -/
def set1Epi8 (b : BitVec 8) : Reg (BitVec 8) := fun _ => b

/-- `_mm_srli_epi16`: the halfwords, shifted to the right. -/
def srliEpi16 (a : Reg (BitVec 8)) (n : ℕ) : Reg (BitVec 8) := fun i =>
  let low := a (Fin.ofNat 16 (i / 2 * 2))
  let high := a (Fin.ofNat 16 (i / 2 * 2 + 1))
  let half := (high ++ low) >>> n
  if i.val % 2 = 0 then half.extractLsb' 0 8 else half.extractLsb' 8 8

theorem andSi128_srliEpi16 (a : Reg (BitVec 8)) (i : Fin 16) :
    andSi128 (srliEpi16 a 4) (set1Epi8 0xF) i = a i >>> 4 := by
  have hnibble : ∀ j < 8, BitVec.getLsbD (0xF : BitVec 8) j = decide (j < 4) := by decide
  unfold andSi128 srliEpi16 set1Epi8
  refine BitVec.eq_of_getLsbD_eq fun j hj => ?_
  rw [BitVec.getLsbD_and, hnibble j hj, BitVec.getLsbD_ushiftRight]
  by_cases h4 : j < 4
  · rw [decide_eq_true h4, Bool.and_true]
    split_ifs with heven
    · have hi : Fin.ofNat 16 (i.val / 2 * 2) = i := Fin.ext (by simp; omega)
      simp only [BitVec.getLsbD_extractLsb', BitVec.getLsbD_ushiftRight, BitVec.getLsbD_append, hi]
      simp [hj, show 4 + j < 8 by omega]
    · have hi : Fin.ofNat 16 (i.val / 2 * 2 + 1) = i := Fin.ext (by simp; omega)
      simp only [BitVec.getLsbD_extractLsb', BitVec.getLsbD_ushiftRight, BitVec.getLsbD_append, hi]
      simp [hj, show ¬ 4 + (8 + j) < 8 by omega, show 4 + (8 + j) - 8 = 4 + j by omega]
  · rw [decide_eq_false h4, Bool.and_false, BitVec.getLsbD_of_ge _ _ (by omega)]

theorem storeuSi128_writes {a : Reg (BitVec 8)} {p : ℕ} {v : Memory} (h : ∀ i : Fin 16, a i = v (p + i)) :
    Writes (storeuSi128 · p a) {q | p ≤ q ∧ q < p + 16} v := by
  constructor
  · intro m q hq
    rw [Set.mem_ofPred_eq] at hq
    have hlane : (Fin.ofNat 16 (q - p)).val = q - p := Nat.mod_eq_of_lt (by omega)
    rw [storeuSi128, if_pos hq, h, hlane, Nat.add_sub_cancel' hq.1]
  · intro m q hq
    exact if_neg hq

end Lanes
