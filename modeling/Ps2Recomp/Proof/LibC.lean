import Mathlib.Order.Bounds.Basic
import Ps2Recomp.Proof.FileReads
import Ps2Recomp.Spec.LibC

/-!
# String searches and address aliases

`hostPtrToPs2Addr` knows one address of each byte of main memory and none of the scratchpad, so what it returns
lies in the caller's string only where that was named by the plain address (`searches_iff`).
-/

namespace Ps2Recomp.LibC

open Memory VSync HostFiles
open SifRpc (HostPtr)

variable {g : Guest} {s : Word} {p : HostPtr} {l : List ℕ}

/-- A search returns `s` and the index of the match that `S` picks, or zero where there is none. -/
def Answers (S : Set ℕ → ℕ → Prop) (s : Word) (places : Set ℕ) (result : Word) : Prop :=
  (places = ∅ → result = 0) ∧ ∀ i, S places i → result = s + BitVec.ofNat 32 i

/-- The string ends inside of its array. -/
def Terminated (m : GuestMemory) (p : HostPtr) : Prop :=
  ∃ n, p.offset + n < arraySize p.scratch ∧ m.area p.scratch (p.offset + n) = 0

section

variable {i : ℕ} (hl : l.Pairwise (· < ·))

include hl

theorem isLeast_of_head? (hi : l.head? = some i) : IsLeast {j | j ∈ l} i := by
  obtain ⟨rest, rfl⟩ := List.head?_eq_some_iff.1 hi
  refine ⟨List.mem_cons_self, fun j hj => ?_⟩
  rcases List.mem_cons.1 hj with rfl | hj
  · exact le_refl _
  · exact ((List.pairwise_cons.1 hl).1 j hj).le

theorem isGreatest_of_getLast? (hi : l.getLast? = some i) : IsGreatest {j | j ∈ l} i := by
  obtain ⟨rest, rfl⟩ := List.getLast?_eq_some_iff.1 hi
  refine ⟨List.mem_append_right _ (List.mem_singleton_self i), fun j hj => ?_⟩
  rcases List.mem_append.1 hj with hj | hj
  · exact ((List.pairwise_append.1 hl).2.2 j hj i (List.mem_singleton_self i)).le
  · exact (List.mem_singleton.1 hj).le

end

/-- The terminator is in the array, and everything in front of it. -/
theorem length_hostString {m : GuestMemory} (hp : Terminated m p) :
    p.offset + (hostString m p).length < arraySize p.scratch := by
  obtain ⟨n, hn, hzero⟩ := hp
  have hle : (hostString m p).length ≤ n := by
    unfold hostString
    by_contra hlong
    have hchar := List.mem_takeWhile_imp (List.getElem_mem (Nat.lt_of_not_le hlong))
    rw [(List.takeWhile_prefix _).getElem, List.getElem_map, List.getElem_range, hzero] at hchar
    exact absurd hchar (by decide)
  omega

section

variable (hp : g.ptr s = some p)

include hp

/-- An address is that of its place in main memory if and only if it is not an alias. -/
theorem plain_iff : p.scratch = false ∧ p.offset = s.toNat ↔ s < ramSize := by
  have hlt := FileReads.ptr_lt hp
  have hsize : ramSize.toNat = 2 ^ 25 := rfl
  rw [BitVec.lt_def]
  constructor
  · rintro ⟨hscratch, hs⟩
    rwa [hscratch, hs] at hlt
  · intro hs
    have hram : isScratchpad s = false := by
      rw [Bool.eq_false_iff, ne_eq, isScratchpad_iff]
      omega
    have hlow : s < 0x20000000 := BitVec.lt_def.2 (show s.toNat < 2 ^ 29 by omega)
    have hnot : ¬ramSize ≤ s := fun h => Nat.not_le.2 hs (BitVec.le_def.1 h)
    have hplain : ps2ResolveGuestPointer s = (false, s) := by
      rw [ps2ResolveGuestPointer, hram, if_neg Bool.false_ne_true, if_pos hlow]
      exact congrArg (Prod.mk false) (if_neg hnot)
    rw [Guest.ptr, SifRpc.getMemPtr, hplain] at hp
    obtain rfl := Option.some.inj hp
    exact ⟨rfl, rfl⟩

theorem scratch_addr (hscratch : p.scratch = true) : isScratchpad s = true := by
  rw [Guest.ptr, SifRpc.getMemPtr, ps2ResolveGuestPointer] at hp
  by_contra hs
  rw [if_neg hs] at hp
  obtain rfl := Option.some.inj hp
  cases hscratch

/-- What is found in the string has the address behind `s` that the guest means only where `s` is no alias. -/
theorem foundAddr_iff {i : ℕ} (hi : p.offset + i < arraySize p.scratch) :
    foundAddr p (some i) = s + BitVec.ofNat 32 i ↔ s < ramSize := by
  rw [← plain_iff hp, ← BitVec.toNat_inj, BitVec.toNat_add, BitVec.toNat_ofNat]
  have hs := s.isLt
  cases hscratch : p.scratch with
  | true =>
    have hfound : foundAddr p (some i) = 0 := if_neg fun h => Bool.noConfusion (hscratch.symm.trans h.1)
    have haddr := isScratchpad_iff.1 (scratch_addr hp hscratch)
    rw [hscratch] at hi
    have hsize : arraySize true = 0x4000 := rfl
    rw [hfound, show (0 : Word).toNat = 0 from rfl]
    constructor
    · intro h
      omega
    · rintro ⟨h, -⟩
      cases h
  | false =>
    rw [hscratch] at hi
    have hsize : arraySize false = 2 ^ 25 := rfl
    have hfound : foundAddr p (some i) = BitVec.ofNat 32 (p.offset + i) := if_pos ⟨hscratch, hi⟩
    rw [hfound, BitVec.toNat_ofNat]
    constructor
    · intro h
      exact ⟨rfl, by omega⟩
    · rintro ⟨-, h⟩
      omega

/-- The common end of the searches. -/
theorem answers_iff {S : Set ℕ → ℕ → Prop} {found : Option ℕ} (hin : ∀ i ∈ l, p.offset + i < arraySize p.scratch)
    (hnone : found = none ↔ l = []) (hsome : ∀ i, found = some i → S {j | j ∈ l} i)
    (hmem : ∀ i, S {j | j ∈ l} i → i ∈ l) (huniq : ∀ i j, S {j | j ∈ l} i → S {j | j ∈ l} j → i = j) :
    Answers S s {j | j ∈ l} (foundAddr p found) ↔ l = [] ∨ s < ramSize := by
  cases hfound : found with
  | none =>
    have hempty := hnone.1 hfound
    subst hempty
    exact iff_of_true ⟨fun _ => rfl, fun i hi => absurd (hmem i hi) List.not_mem_nil⟩ (.inl rfl)
  | some i =>
    have hi := hsome i hfound
    have hplain := foundAddr_iff hp (hin i (hmem i hi))
    have hl : l ≠ [] := List.ne_nil_of_mem (hmem i hi)
    rw [or_iff_right hl, ← hplain]
    constructor
    · exact fun h => h.2 i hi
    · intro h
      refine ⟨fun hempty => ?_, fun j hj => huniq i j hi hj ▸ h⟩
      have hnot : i ∈ (∅ : Set ℕ) := hempty ▸ hmem i hi
      exact hnot.elim

end

theorem places_in (hs : Terminated g.memory p) (P : ℕ → Bool) :
    ∀ i ∈ (List.range ((hostString g.memory p).length + 1)).filter P, p.offset + i < arraySize p.scratch := by
  intro i hi
  have hlt := List.mem_range.1 (List.mem_filter.1 hi).1
  have hlen := length_hostString hs
  omega

/-- **The searches return places in the caller's string exactly where the address is no alias**, or
nothing matches. -/
theorem searches_iff {needle c : Word} {q : HostPtr} (hp : g.ptr s = some p) (hs : Terminated g.memory p)
    (hq : g.ptr needle = some q) :
    let str := hostString g.memory p
    let chars := charsAt str (c.setWidth 8)
    let strings := stringsAt str (hostString g.memory q)
    (Answers IsLeast s {i | i ∈ chars} (strchr g s c) ↔ chars = [] ∨ s < ramSize) ∧
      (Answers IsGreatest s {i | i ∈ chars} (strrchr g s c) ↔ chars = [] ∨ s < ramSize) ∧
      (Answers IsLeast s {i | i ∈ strings} (strstr g s needle) ↔ strings = [] ∨ s < ramSize) := by
  intro str chars strings
  have hsorted : ∀ P : ℕ → Bool, ((List.range (str.length + 1)).filter P).Pairwise (· < ·) := fun P =>
    List.pairwise_lt_range.filter P
  rw [strchr, strrchr, strstr, hp, hq]
  refine ⟨answers_iff hp (places_in hs _) List.head?_eq_none_iff ?_ (fun _ h => h.1) ?_,
    answers_iff hp (places_in hs _) List.getLast?_eq_none_iff ?_ (fun _ h => h.1) ?_,
    answers_iff hp (places_in hs _) List.head?_eq_none_iff ?_ (fun _ h => h.1) ?_⟩
  · exact fun i => isLeast_of_head? (hsorted _)
  · exact fun i j => IsLeast.unique
  · exact fun i => isGreatest_of_getLast? (hsorted _)
  · exact fun i j => IsGreatest.unique
  · exact fun i => isLeast_of_head? (hsorted _)
  · exact fun i j => IsLeast.unique

/-- `A` in front of the last byte of main memory, which is zero. -/
def lastString : Guest where
  memory := { rdram := fun i => if i = 0x1FFFFFE then 0x41 else 0, scratchpad := fun _ => 0 }
  scratchpadMapped := true
  stores := []

def lastPtr : HostPtr := ⟨false, 0x1FFFFFE⟩

theorem searches_plain :
    Answers IsLeast 0x1FFFFFE {i | i ∈ charsAt (hostString lastString.memory lastPtr) ((0x41 : Word).setWidth 8)}
      (strchr lastString 0x1FFFFFE 0x41) := by
  have hp : lastString.ptr 0x1FFFFFE = some lastPtr := by decide
  exact (searches_iff hp ⟨1, by decide, by decide⟩ hp).1.2 (.inr (by decide))

/-- Through KSEG0 the answer is in another segment. -/
theorem strchr_loses_segment :
    lastString.ptr 0x81FFFFFE = some lastPtr ∧ Terminated lastString.memory lastPtr ∧
      strchr lastString 0x81FFFFFE 0x41 = 0x1FFFFFE ∧
      ¬Answers IsLeast 0x81FFFFFE {i | i ∈ charsAt (hostString lastString.memory lastPtr) 0x41}
        (strchr lastString 0x81FFFFFE 0x41) := by
  have hplaces : charsAt (hostString lastString.memory lastPtr) 0x41 = [0] := by decide +kernel
  have hfound : strchr lastString 0x81FFFFFE 0x41 = 0x1FFFFFE := by decide +kernel
  refine ⟨by decide, ⟨1, by decide, by decide⟩, hfound, ?_⟩
  intro h
  rw [hplaces, hfound] at h
  exact absurd (h.2 0 (isLeast_of_head? (List.pairwise_singleton _ _) rfl)) (by decide)

end Ps2Recomp.LibC
