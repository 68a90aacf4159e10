import Ps2Recomp.Proof.SifDma
import Ps2Recomp.Proof.SifRpc
import Ps2Recomp.Spec.SyscallMirror

/-!
# The guest's table against the overrides

Distinct indices have distinct slots, so one call sets one slot of the table (`entry_mirror`). The two
words of the probe are slots as well: what they hold depends on which call came last (`seeded`).
-/

namespace Ps2Recomp.SyscallMirror

open VSync SifRpc SifDma Transition

variable {p : Bool} {s : State} {m : GuestMemory} {i j a b x v : Word} {calls : List Call}

/-! ### Slots -/

/-- The slot of an index in the table. -/
abbrev Slot (i a : Word) : Prop := tryResolveGuestSyscallMirrorAddr i = some a

def entry (m : GuestMemory) (a : Word) : Word := word m ⟨false, a.toNat⟩ 0

theorem slot_iff : Slot i a ↔ (a.toNat : ℤ) = 0x11F80 + 4 * i.toInt ∧ a.toNat + 4 ≤ 0x80000 := by
  have hbase : (kGuestSyscallTablePhysBase.toNat : ℤ) = 0x11F80 := rfl
  have hlimit : (kGuestSyscallMirrorLimit.toNat : ℤ) = 0x80000 := rfl
  rw [Slot, tryResolveGuestSyscallMirrorAddr, hbase, hlimit]
  split
  · simp only [reduceCtorEq, false_iff]
    omega
  · rw [Option.some_inj, ← BitVec.toNat_inj, BitVec.toNat_ofInt]
    omega

theorem index_unique (hi : Slot i a) (hj : Slot j a) : i = j := by
  rw [slot_iff] at hi hj
  rw [← BitVec.toInt_inj]
  omega

theorem getMemPtr_eq (ha : a.toNat < 0x80000) (hx : x.toNat % 0x80000000 = a.toNat) :
    getMemPtr p x = some ⟨false, a.toNat⟩ := by
  have hin : ¬InScratch x := by
    rw [InScratch]
    omega
  have hplace := place_ram (copyable_iff.2 (by omega)) hin
  simp only [place, HostPtr.mk.injEq] at hplace
  simp only [getMemPtr, hplace, Bool.false_and, Bool.false_eq_true, if_false]
  congr 2
  omega

theorem entry_write (ha : Slot i a) (hb : Slot j b) :
    entry (writeGuestKernelWord p m a v) b = if b = a then v else entry m b := by
  rw [slot_iff] at ha hb
  simp only [writeGuestKernelWord, getMemPtr_eq (p := p) (by omega : a.toNat < _) (Nat.mod_eq_of_lt (by omega)), entry]
  split
  · next h => rw [h, word_setWord_self]
  · next h =>
    have := BitVec.toNat_inj.not.2 h
    exact word_setWord_off fun _ => by dsimp only; omega

theorem getEntryAddress_eq (h : Slot i a) : GetEntryAddress p s i = entry s.memory a := by
  rw [slot_iff, BitVec.toInt_eq_toNat_cond] at h
  rw [GetEntryAddress, kGuestSyscallTableGuestBase, getMemPtr_eq (a := a) (by omega) (by split at h <;> bv_omega)]
  rfl

/-! ### One entry -/

theorem overrides_mirror : (mirrorGuestSyscallEntryLocked p s i v).overrides = s.overrides := by
  unfold mirrorGuestSyscallEntryLocked
  split <;> rfl

theorem slot_eq (hi : Slot i a) : Slot i b ↔ b = a := by
  rw [Slot, hi, Option.some_inj, eq_comm]

theorem mem_mirror : b ∈ (mirrorGuestSyscallEntryLocked p s i v).mirrorAddrs ↔
    if Slot i b then v ≠ 0 else b ∈ s.mirrorAddrs := by
  rw [mirrorGuestSyscallEntryLocked]
  split
  · next hi => rw [if_neg fun h => by cases hi.symm.trans h]
  · next hi =>
    have := slot_eq (b := b) hi
    grind

theorem entry_mirror (hj : Slot j b) : entry (mirrorGuestSyscallEntryLocked p s i v).memory b =
    if Slot i b then v else entry s.memory b := by
  rw [mirrorGuestSyscallEntryLocked]
  split
  · next hi => rw [if_neg fun h => by cases hi.symm.trans h]
  · next hi => simp only [entry_write hi hj, slot_eq hi]

/-- The addresses of the set are slots, those whose words are not zero. -/
structure Tracked (s : State) : Prop where
  slots : ∀ b ∈ s.mirrorAddrs, ∃ j, Slot j b
  nonzero : ∀ {j b}, Slot j b → (b ∈ s.mirrorAddrs ↔ entry s.memory b ≠ 0)

theorem Tracked.mirror (h : Tracked s) : Tracked (mirrorGuestSyscallEntryLocked p s i v) where
  slots b hb := by
    rw [mem_mirror] at hb
    split at hb
    · next hi => exact ⟨i, hi⟩
    · exact h.slots b hb
  nonzero hj := by
    rw [mem_mirror, entry_mirror hj]
    split
    · rfl
    · exact h.nonzero hj

/-! ### Passes -/

theorem entry_cleared {l : List Word} (hl : ∀ a ∈ l, ∃ i, Slot i a) (hj : Slot j b) :
    entry (l.foldl (fun m a => writeGuestKernelWord p m a 0) m) b = if b ∈ l then 0 else entry m b := by
  induction l generalizing m with
  | nil => rfl
  | cons a l ih =>
    obtain ⟨i, hi⟩ := hl a List.mem_cons_self
    rw [List.foldl_cons, ih fun a ha => hl a (List.mem_cons_of_mem _ ha), entry_write hi hj]
    by_cases hb : b ∈ l <;> simp [hb]

/-- The pass over the overrides, in any order. -/
theorem mirror_entries {l : List (Word × Word)} (hl : ∀ e ∈ l, s.overrides e.1 = some e.2) (h : Tracked s) :
    let t := l.foldl (fun s entry => mirrorGuestSyscallEntryLocked p s entry.1 entry.2) s
    t.overrides = s.overrides ∧ Tracked t ∧ ∀ {j b}, Slot j b →
      entry t.memory b = if j ∈ l.map Prod.fst then (s.overrides j).getD 0 else entry s.memory b := by
  induction l using List.reverseRecOn with
  | nil => exact ⟨rfl, h, fun _ => rfl⟩
  | append_singleton l e ih =>
    obtain ⟨hover, htracked, hentry⟩ := ih fun e he => hl e (List.mem_append_left _ he)
    rw [List.foldl_append]
    refine ⟨overrides_mirror.trans hover, htracked.mirror, fun {j b} hj => (entry_mirror hj).trans ?_⟩
    rw [hentry hj]
    by_cases he : Slot e.1 b
    · cases index_unique he hj
      simp [he, hl e]
    · have hne : j ≠ e.1 := fun heq => he (heq ▸ hj)
      simp [he, hne]

/-! ### Runs -/

/-- What `seedGuestSyscallTableProbeLocked` leaves in a cleared slot. -/
def probeHalf (a : Word) : Word := if a = 0x2F8 then 0x1F80 else if a = 0x2F0 then 0x8001 else 0

/-- The last call that sets the slot is the initialisation. -/
def seeded (a : Word) (calls : List Call) : Bool :=
  calls.foldl (fun b call => match call with
    | .init => true
    | .setSyscall i _ => if Slot i a then false else b) false

structure Inv (calls : List Call) (s : State) : Prop extends Tracked s where
  entries : ∀ {j b}, Slot j b → entry s.memory b = (s.overrides j).getD (if seeded b calls then probeHalf b else 0)

theorem seed_probe (hzero : ∀ {j b}, Slot j b → entry m b = 0) :
    let u := seedGuestSyscallTableProbeLocked p { s with memory := m, mirrorAddrs := ∅ }
    u.overrides = s.overrides ∧ Tracked u ∧ ∀ {j b}, Slot j b → entry u.memory b = probeHalf b := by
  -- the probe is seeded like two entries of the table
  have hseed (s : State) : seedGuestSyscallTableProbeLocked p s = mirrorGuestSyscallEntryLocked p
      (mirrorGuestSyscallEntryLocked p s 0xFFFFB8DC 0x8001) 0xFFFFB8DE 0x1F80 := rfl
  have hcleared : Tracked { s with memory := m, mirrorAddrs := ∅ } :=
    ⟨by simp, fun hj => iff_of_false (by simp) (not_not.2 (hzero hj))⟩
  rw [hseed]
  refine ⟨overrides_mirror.trans overrides_mirror, hcleared.mirror.mirror, fun hj => ?_⟩
  have h8 : Slot 0xFFFFB8DE 0x2F8 := by decide
  have h0 : Slot 0xFFFFB8DC 0x2F0 := by decide
  simp only [entry_mirror hj, hzero hj, slot_eq h8, slot_eq h0, probeHalf]

theorem Inv.step {c : Call} {t : State} (h : Inv calls s) (hs : Step p s c t) : Inv (calls ++ [c]) t := by
  cases hs with
  | setSyscall i v =>
    refine ⟨Tracked.mirror ⟨h.slots, h.nonzero⟩, fun {j b} hj => (entry_mirror hj).trans ?_⟩
    simp only [SetSyscall, overrides_mirror, seeded, List.foldl_append, List.foldl_cons, List.foldl_nil]
    by_cases hi : Slot i b
    · cases index_unique hi hj
      grind
    · have hne : j ≠ i := fun he => hi (he ▸ hj)
      simp [hi, hne, h.entries hj, seeded]
  | @init addrs l ha he =>
    have hzero {j b} (hj : Slot j b) : entry (addrs.foldl (fun m a => writeGuestKernelWord p m a 0) s.memory) b = 0 := by
      rw [entry_cleared (fun a hmem => h.slots a ((ha a).1 hmem)) hj]
      have := h.nonzero hj
      grind
    obtain ⟨hover, htracked, hseed⟩ := seed_probe (p := p) (s := s) hzero
    obtain ⟨hover', ht, hentry⟩ := mirror_entries (p := p) (l := l)
      (fun e hmem => (congrFun hover e.1).trans ((he e).1 hmem)) htracked
    refine ⟨ht, fun {j b} hj => (hentry hj).trans ?_⟩
    rw [hseed hj, initializeGuestKernelState, hover', hover, seeded, List.foldl_append]
    change _ = (s.overrides j).getD (probeHalf b)
    cases hov : s.overrides j with
    | none =>
      have hout : j ∉ l.map Prod.fst := by grind
      rw [if_neg hout, Option.getD_none]
    | some v => rw [if_pos (List.mem_map.2 ⟨(j, v), (he _).2 hov, rfl⟩), Option.getD_some, Option.getD_some]

theorem inv_of_run (h : Run (Step p) start calls s) : Inv calls s := by
  have hzero (b : Word) : entry start.memory b = 0 := by
    simp [start, entry, word, GuestMemory.area, Bytes.load]
  refine h.invariant (I := Inv) ⟨⟨by simp [start], fun _ => ?_⟩, fun _ => ?_⟩ fun _ _ _ _ h hs => h.step hs
  · rw [hzero]
    simp [start]
  · rw [hzero]
    rfl

/-- **The table follows the overrides**, but for the two slots of the probe, which without one hold its
halves from an initialisation to the next call that names them. -/
theorem mirror_exact (h : Run (Step p) start calls s) :
    (∀ i a, Slot i a → GetEntryAddress p s i = entry s.memory a ∧
      entry s.memory a = (s.overrides i).getD (if seeded a calls then probeHalf a else 0)) ∧
    ∀ a, a ∈ s.mirrorAddrs ↔ ∃ i, Slot i a ∧ entry s.memory a ≠ 0 := by
  have hinv := inv_of_run h
  refine ⟨fun i a hi => ⟨getEntryAddress_eq hi, hinv.entries hi⟩, fun a => ⟨fun ha => ?_, ?_⟩⟩
  · obtain ⟨i, hi⟩ := hinv.slots a ha
    exact ⟨i, hi, (hinv.nonzero hi).1 ha⟩
  · rintro ⟨i, hi, hne⟩
    exact (hinv.nonzero hi).2 hne

theorem started : Run (Step false) start [.init] (initializeGuestKernelState false start [] []) :=
  .snoc .nil (.init start (by simp [start]) (by simp [start]))

theorem mirror_exact_started : GetEntryAddress false (initializeGuestKernelState false start [] []) 0x5A = 0 := by
  obtain ⟨hread, hword⟩ := (mirror_exact started).1 0x5A 0x120E8 (by decide)
  exact hread.trans (hword.trans rfl)

/-- A probe word in a slot without an override, and an override in the slot of a probe word. -/
theorem probe_not_mirrored :
    (¬∀ calls s, Run (Step false) start calls s → ∀ i a, Slot i a →
      GetEntryAddress false s i = (s.overrides i).getD 0) ∧
    ¬∀ calls s, Run (Step false) start calls s → .init ∈ calls → entry s.memory 0x2F0 = 0x8001 := by
  refine ⟨fun h => absurd (h _ _ started 0xFFFFB8DC 0x2F0 (by decide)) (by decide), fun h => ?_⟩
  exact absurd (h _ _ (started.snoc (.setSyscall _ 0xFFFFB8DC 5)) (by simp)) (by decide)

end Ps2Recomp.SyscallMirror
