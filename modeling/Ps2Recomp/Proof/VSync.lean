import Ps2Recomp.Proof.Memory
import Ps2Recomp.Spec.VSync

/-!
# When a registration of the vertical blank is seen

The words of a registration are cleared behind its publication, outside of the mutex, so that a tick may
take it before they are. `registration_seen`: the guest reads what the tick wrote as long as no call of
`SetVSyncFlag` clears a word behind the tick, and the two words are apart.

The proof follows the tick: it has taken the registration (`seen_of_taken`), it has written the flag
(`seen_of_flagWritten`), it is done and later ticks have nothing to write (`seen_of_idle`).
-/

namespace Ps2Recomp.VSync

open Memory

/-! ### Words of the guest -/

/-- The places of `n` bytes at one address and of `k` bytes at another have a byte in common. -/
def Overlaps (a : Word) (n : ℕ) (b : Word) (k : ℕ) : Prop :=
  (ps2ResolveGuestPointer a).1 = (ps2ResolveGuestPointer b).1 ∧
    (ps2ResolveGuestPointer a).2.toNat < (ps2ResolveGuestPointer b).2.toNat + k ∧
      (ps2ResolveGuestPointer b).2.toNat < (ps2ResolveGuestPointer a).2.toNat + n

instance (a : Word) (n : ℕ) (b : Word) (k : ℕ) : Decidable (Overlaps a n b k) := inferInstanceAs (Decidable (_ ∧ _ ∧ _))

namespace GuestMemory

variable {m : GuestMemory} {a b : Word} {n k v : ℕ}

/-- **A word that is written** is read back. -/
theorem read_write (ha : a ≠ 0) (hv : v < 2 ^ (8 * n)) : (m.writeGuestNoThrow n a v).read a n = v := by
  have hstore := load_store (m.area (ps2ResolveGuestPointer a).1) (ps2ResolveGuestPointer a).2.toNat n (.ofNat _ v)
  have hnat := congrArg BitVec.toNat hstore
  rw [BitVec.toNat_ofNat, Nat.mod_eq_of_lt Bytes.load_lt, BitVec.toNat_ofNat, Nat.mod_eq_of_lt hv] at hnat
  rw [writeGuestNoThrow, if_neg ha, read, area_setArea, if_pos rfl]
  exact hnat

/-- **A word apart** stays. -/
theorem read_write_apart (h : a = 0 ∨ ¬Overlaps a k b n) : (m.writeGuestNoThrow k a v).read b n = m.read b n := by
  rw [writeGuestNoThrow]
  by_cases ha : a = 0
  · rw [if_pos ha]
  · rw [if_neg ha, read, read, area_setArea]
    by_cases harea : (ps2ResolveGuestPointer b).1 = (ps2ResolveGuestPointer a).1
    · rw [if_pos harea, ← harea]
      have hover := h.resolve_left ha
      refine Bytes.load_congr fun q hp hq => ?_
      rw [Bytes.store, if_neg]
      intro hin
      exact hover ⟨harea.symm, by omega, by omega⟩
    · rw [if_neg harea]

end GuestMemory

/-! ### Steps -/

section Steps

variable {ι : Type}

/-- The word that a step of `SetVSyncFlag` clears. -/
def Step.clears : Step ι → Option (ℕ × Word)
  | .clearFlag _ flagAddr => some (4, flagAddr)
  | .clearTick _ tickAddr => some (8, tickAddr)
  | _ => none

/-- The step clears a byte of the `n` bytes at `b`. -/
def Step.Disturbs (b : Word) (n : ℕ) (e : Step ι) : Prop := ∃ k a, e.clears = some (k, a) ∧ a ≠ 0 ∧ Overlaps a k b n

/-- A call of `SetVSyncFlag` starts. -/
def Step.Publishes : Step ι → Prop
  | .publish _ _ => True
  | _ => False

/-- The steps behind the first `e`. -/
def after [DecidableEq ι] (e : Step ι) : List (Step ι) → List (Step ι)
  | [] => []
  | x :: xs => if x = e then xs else after e xs

variable [DecidableEq ι] {s s' : State ι} {e : Step ι} {es : List (Step ι)} {b : Word} {n k v : ℕ} {a : Word}

theorem after_self : after e (e :: es) = es := if_pos rfl

theorem after_of_ne {x : Step ι} (h : x ≠ e) : after e (x :: es) = after e es := if_neg h

section

variable (h : step s e = some s') (hc : e.clears = some (k, a))

include h hc

theorem step_clear :
    s'.memory = s.memory.writeGuestNoThrow k a 0 ∧ s'.worker = s.worker ∧ s'.registration = s.registration := by
  cases e with
  | clearFlag i flagAddr =>
    rw [step] at h
    split at h
    · split at h <;> cases h
      cases hc
      exact ⟨rfl, rfl, rfl⟩
    · cases h
  | clearTick i tickAddr =>
    rw [step] at h
    split at h
    · split at h <;> cases h
      cases hc
      exact ⟨rfl, rfl, rfl⟩
    · cases h
  | _ => cases hc

theorem read_clear (hd : ¬e.Disturbs b n) : s'.memory.read b n = s.memory.read b n := by
  rw [(step_clear h hc).1]
  refine GuestMemory.read_write_apart ?_
  by_cases ha : a = 0
  · exact .inl ha
  · exact .inr fun hover => hd ⟨k, a, hc, ha, hover⟩

end

/-- The worker has no address to write to. -/
def Worker.Idle (w : Worker) : Prop := w = .outside ∨ (∃ t, w = .taken ⟨0, 0⟩ t) ∨ ∃ t, w = .flagWritten ⟨0, 0⟩ t

/-- **A later tick** finds no registration, and writes nothing. -/
theorem step_idle (h : step s e = some s') (hpub : ¬e.Publishes) (hidle : s.worker.Idle) (hreg : s.registration = ⟨0, 0⟩)
    (hd : ¬e.Disturbs b n) :
    s'.worker.Idle ∧ s'.registration = ⟨0, 0⟩ ∧ s'.memory.read b n = s.memory.read b n := by
  cases e with
  | publish i reg => exact absurd trivial hpub
  | clearFlag i flagAddr =>
    obtain ⟨-, hworker, hregistration⟩ := step_clear h rfl
    exact ⟨hworker ▸ hidle, hregistration.trans hreg, read_clear h rfl hd⟩
  | clearTick i tickAddr =>
    obtain ⟨-, hworker, hregistration⟩ := step_clear h rfl
    exact ⟨hworker ▸ hidle, hregistration.trans hreg, read_clear h rfl hd⟩
  | take =>
    rw [step] at h
    split at h <;> cases h
    exact ⟨.inr (.inl ⟨_, by rw [hreg]⟩), rfl, rfl⟩
  | writeFlag =>
    rcases hidle with hw | ⟨t, hw⟩ | ⟨t, hw⟩ <;> rw [step, hw] at h <;> cases h
    exact ⟨.inr (.inr ⟨t, rfl⟩), hreg, rfl⟩
  | writeTick =>
    rcases hidle with hw | ⟨t, hw⟩ | ⟨t, hw⟩ <;> rw [step, hw] at h <;> cases h
    exact ⟨.inl rfl, hreg, rfl⟩

/-! ### Behind a tick -/

variable {reg : VSyncFlagRegistration} {t : BitVec 64}

/-- **When the tick is done** its words stay, until they are cleared again. -/
theorem seen_of_idle (hrun : run s es = some s') (hpub : ∀ e ∈ es, ¬e.Publishes) (hidle : s.worker.Idle)
    (hreg : s.registration = ⟨0, 0⟩) (hd : ∀ e ∈ es, ¬e.Disturbs b n) : s'.memory.read b n = s.memory.read b n := by
  induction es generalizing s with
  | nil =>
    cases hrun
    rfl
  | cons e es ih =>
    obtain ⟨s1, hstep, hrest⟩ := Option.bind_eq_some_iff.1 hrun
    obtain ⟨hidle1, hreg1, hread⟩ :=
      step_idle hstep (hpub e (List.mem_cons_self ..)) hidle hreg (hd e (List.mem_cons_self ..))
    have hseen := ih hrest (fun e' he' => hpub e' (List.mem_cons_of_mem _ he')) hidle1 hreg1
      fun e' he' => hd e' (List.mem_cons_of_mem _ he')
    exact hseen.trans hread

/-- The words of a registration are apart. -/
def VSyncFlagRegistration.Apart (reg : VSyncFlagRegistration) : Prop :=
  reg.flagAddr ≠ 0 → reg.tickAddr ≠ 0 → ¬Overlaps reg.tickAddr 8 reg.flagAddr 4

/-- What the guest reads where a tick has taken its registration. -/
structure Seen (m : GuestMemory) (reg : VSyncFlagRegistration) (t : BitVec 64) : Prop where
  flag : reg.flagAddr ≠ 0 → m.read reg.flagAddr 4 = 1
  tick : reg.tickAddr ≠ 0 → m.read reg.tickAddr 8 = t.toNat

section

variable (hrun : run s es = some s')

include hrun

section

variable (hpub : ∀ e ∈ es, ¬e.Publishes)

include hpub

/-- **When the tick has written the flag.** -/
theorem seen_of_flagWritten (hworker : s.worker = .flagWritten reg t)
    (hreg : s.registration = ⟨0, 0⟩) (hend : s'.worker = .outside) (hapart : reg.Apart)
    (hflag : ∀ e ∈ es, ¬e.Disturbs reg.flagAddr 4) (htick : ∀ e ∈ after .writeTick es, ¬e.Disturbs reg.tickAddr 8)
    (hseen : reg.flagAddr ≠ 0 → s.memory.read reg.flagAddr 4 = 1) : Seen s'.memory reg t := by
  induction es generalizing s with
  | nil =>
    cases hrun
    rw [hworker] at hend
    cases hend
  | cons e es ih =>
    obtain ⟨s1, hstep, hrest⟩ := Option.bind_eq_some_iff.1 hrun
    have hpub' : ∀ e' ∈ es, ¬e'.Publishes := fun e' he' => hpub e' (List.mem_cons_of_mem _ he')
    have hflag' : ∀ e' ∈ es, ¬e'.Disturbs reg.flagAddr 4 := fun e' he' => hflag e' (List.mem_cons_of_mem _ he')
    have hclear {k : ℕ} {a : Word} (hc : e.clears = some (k, a)) (hne : e ≠ .writeTick) : Seen s'.memory reg t := by
      obtain ⟨-, hworker1, hreg1⟩ := step_clear hstep hc
      refine ih hrest hpub' (hworker1.trans hworker) (hreg1.trans hreg) hflag' ?_ fun h => ?_
      · rwa [after_of_ne hne] at htick
      · rw [read_clear hstep hc (hflag e (List.mem_cons_self ..)), hseen h]
    cases e with
    | publish i reg' => exact absurd trivial (hpub _ (List.mem_cons_self ..))
    | clearFlag i flagAddr => exact hclear rfl nofun
    | clearTick i tickAddr => exact hclear rfl nofun
    | take =>
      rw [step, hworker] at hstep
      cases hstep
    | writeFlag =>
      rw [step, hworker] at hstep
      cases hstep
    | writeTick =>
      rw [after_self] at htick
      rw [step, hworker] at hstep
      cases hstep
      have hkeep {b : Word} {n : ℕ} (hd : ∀ e ∈ es, ¬e.Disturbs b n) := seen_of_idle hrest hpub' (.inl rfl) hreg hd
      refine ⟨fun h => ?_, fun h => ?_⟩
      · rw [hkeep hflag']
        by_cases ht : reg.tickAddr ≠ 0
        · change (if reg.tickAddr ≠ 0 then _ else _ : GuestMemory).read _ _ = _
          rw [if_pos ht, GuestMemory.writeGuestU64NoThrow, GuestMemory.read_write_apart (.inr (hapart h ht)), hseen h]
        · change (if reg.tickAddr ≠ 0 then _ else _ : GuestMemory).read _ _ = _
          rw [if_neg ht, hseen h]
      · rw [hkeep htick]
        change (if reg.tickAddr ≠ 0 then _ else _ : GuestMemory).read _ _ = _
        rw [if_pos h, GuestMemory.writeGuestU64NoThrow, GuestMemory.read_write h t.isLt]

/-- **When the tick has taken the registration.** -/
theorem seen_of_taken (hworker : s.worker = .taken reg t)
    (hreg : s.registration = ⟨0, 0⟩) (hend : s'.worker = .outside) (hapart : reg.Apart)
    (hflag : ∀ e ∈ after .writeFlag es, ¬e.Disturbs reg.flagAddr 4)
    (htick : ∀ e ∈ after .writeTick es, ¬e.Disturbs reg.tickAddr 8) : Seen s'.memory reg t := by
  induction es generalizing s with
  | nil =>
    cases hrun
    rw [hworker] at hend
    cases hend
  | cons e es ih =>
    obtain ⟨s1, hstep, hrest⟩ := Option.bind_eq_some_iff.1 hrun
    have hpub' : ∀ e' ∈ es, ¬e'.Publishes := fun e' he' => hpub e' (List.mem_cons_of_mem _ he')
    have hclear {k : ℕ} {a : Word} (hc : e.clears = some (k, a)) (hne : e ≠ .writeTick) (hne' : e ≠ .writeFlag) :
        Seen s'.memory reg t := by
      obtain ⟨-, hworker1, hreg1⟩ := step_clear hstep hc
      rw [after_of_ne hne] at htick
      rw [after_of_ne hne'] at hflag
      exact ih hrest hpub' (hworker1.trans hworker) (hreg1.trans hreg) hflag htick
    cases e with
    | publish i reg' => exact absurd trivial (hpub _ (List.mem_cons_self ..))
    | clearFlag i flagAddr => exact hclear rfl nofun nofun
    | clearTick i tickAddr => exact hclear rfl nofun nofun
    | take =>
      rw [step, hworker] at hstep
      cases hstep
    | writeTick =>
      rw [step, hworker] at hstep
      cases hstep
    | writeFlag =>
      rw [after_self] at hflag
      have hne : (.writeFlag : Step ι) ≠ .writeTick := nofun
      rw [after_of_ne hne] at htick
      rw [step, hworker] at hstep
      cases hstep
      refine seen_of_flagWritten hrest hpub' rfl hreg hend hapart hflag htick fun h => ?_
      change (if reg.flagAddr ≠ 0 then _ else _ : GuestMemory).read _ _ = _
      rw [if_pos h, GuestMemory.writeGuestU32NoThrow, GuestMemory.read_write h (1 : Word).isLt]
      rfl

/-- **A registration that was taken** is gone until the next call of `SetVSyncFlag`. -/
theorem registration_gone (hreg : s.registration = ⟨0, 0⟩) : s'.registration = ⟨0, 0⟩ := by
  induction es generalizing s with
  | nil =>
    cases hrun
    exact hreg
  | cons e es ih =>
    obtain ⟨s1, hstep, hrest⟩ := Option.bind_eq_some_iff.1 hrun
    refine ih hrest (fun e' he' => hpub e' (List.mem_cons_of_mem _ he')) ?_
    have he := hpub e (List.mem_cons_self ..)
    cases e with
    | publish i reg' => exact absurd trivial he
    | clearFlag i flagAddr => exact (step_clear hstep rfl).2.2.trans hreg
    | clearTick i tickAddr => exact (step_clear hstep rfl).2.2.trans hreg
    | take =>
      rw [step] at hstep
      split at hstep <;> cases hstep
      rfl
    | writeFlag =>
      rw [step] at hstep
      split at hstep <;> cases hstep
      exact hreg
    | writeTick =>
      rw [step] at hstep
      split at hstep <;> cases hstep
      exact hreg

end

end

/-- **A registration is seen by the guest and taken once.** A tick takes the registration in the state `s`, and
no later call of `SetVSyncFlag` starts. Then no later tick finds it. When the worker is done, the guest reads
one and the tick, provided that the two words are apart and no call of `SetVSyncFlag` clears a word behind the
tick. -/
theorem registration_seen (s s' : State ι) (rest : List (Step ι)) (hrun : run s (.take :: rest) = some s')
    (hpub : ∀ e ∈ rest, ¬e.Publishes) :
    (s'.worker = .outside → s.registration.Apart →
      (∀ e ∈ after .writeFlag rest, ¬e.Disturbs s.registration.flagAddr 4) →
      (∀ e ∈ after .writeTick rest, ¬e.Disturbs s.registration.tickAddr 8) →
        Seen s'.memory s.registration (s.tickCounter + 1)) ∧
    ∀ mid later s₂, rest = mid ++ .take :: later → run s (.take :: mid) = some s₂ → s₂.registration = ⟨0, 0⟩ := by
  have htake : ∀ s₁, step s .take = some s₁ →
      s₁.worker = .taken s.registration (s.tickCounter + 1) ∧ s₁.registration = ⟨0, 0⟩ := by
    intro s₁ hstep
    rw [step] at hstep
    split at hstep <;> cases hstep
    exact ⟨rfl, rfl⟩
  constructor
  · intro hend hapart hflag htick
    obtain ⟨s₁, hstep, hrest⟩ := Option.bind_eq_some_iff.1 hrun
    obtain ⟨hworker, hreg⟩ := htake s₁ hstep
    exact seen_of_taken hrest hpub hworker hreg hend hapart hflag htick
  · rintro mid later s₂ rfl hmid
    obtain ⟨s₁, hstep, hrest⟩ := Option.bind_eq_some_iff.1 hmid
    exact registration_gone hrest (fun e he => hpub e (List.mem_append_left _ he)) (htake s₁ hstep).2

end Steps

/-! ### Two orders -/

/-- No call is under way, and all memory is zero. -/
def quietState (reg : VSyncFlagRegistration) : State Unit where
  memory := ⟨fun _ => 0, fun _ => 0⟩
  registration := reg
  tickCounter := 0
  setters _ := .outside
  worker := .outside

theorem tick_behind : ∃ s', run (quietState ⟨0x1000, 0x1010⟩) [.take, .writeFlag, .writeTick] = some s' ∧
    Seen s'.memory ⟨0x1000, 0x1010⟩ 1 :=
  ⟨_, rfl, (registration_seen (quietState ⟨0x1000, 0x1010⟩) _ [.writeFlag, .writeTick] rfl (by simp [Step.Publishes])).1 rfl
    (fun _ _ => by decide) nofun nofun⟩

/-- **The tick comes between the publication and the clearing**: the guest never sees it. -/
theorem tick_between : ¬∀ (s s₁ s' : State Unit) (i : Unit) (reg : VSyncFlagRegistration) (rest : List (Step Unit)),
    step s (.publish i reg) = some s₁ → run s₁ (.take :: rest) = some s' → (∀ e ∈ rest, ¬e.Publishes) →
      s'.worker = .outside → s'.setters i = .outside → Seen s'.memory reg (s₁.tickCounter + 1) := by
  intro h
  have hseen := h (quietState ⟨0, 0⟩) _ _ () ⟨0x1000, 0x1010⟩
    [.writeFlag, .writeTick, .clearFlag () 0x1000, .clearTick () 0x1010] rfl rfl (by simp [Step.Publishes]) rfl rfl
  exact absurd (hseen.flag (by decide)) (by decide)

end Ps2Recomp.VSync
