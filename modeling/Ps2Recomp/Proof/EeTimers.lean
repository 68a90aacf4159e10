import Ps2Recomp.Lib.Carry
import Ps2Recomp.Spec.EeTimers

/-!
# Polls of a timer

Until its count or its mode is written, a timer that counts is only brought up to date. Each time adds
the ticks of the time since the one before, with the fraction that was left.

* `step_others`: the other accesses leave the timer alone.
* `step_poll`: what one poll adds and what it keeps.
* `addedTicks_eq_carry`: the polls divide with a carried remainder.
* `polls_add_floor_iff`: together they add the ticks of the whole time, if no gap is too long.
-/

namespace Ps2Recomp.EeTimers

open Memory Timers

variable {s : Timers} {i : Fin 4} {as : List Access} {a : Access} {nowNs : Ns}

/-! ### Polls -/

/-- The access starts the timer anew: it writes its count or its mode. -/
def Access.restarts (i : Fin 4) : Access → Prop
  | .read _ _ => False
  | .write address _ _ _ => address = kEeTimerBase i ∨ address = kEeTimerBase i + kEeTimerModeOffset

instance (i : Fin 4) : (a : Access) → Decidable (a.restarts i)
  | .read _ _ => inferInstanceAs (Decidable False)
  | .write _ _ _ _ => inferInstanceAs (Decidable (_ ∨ _))

/-- When the access brings the timer up to date, and from when on it counts again. -/
def Access.poll (i : Fin 4) : Access → Option (Ns × Ns)
  | .read address nowNs => if address = kEeTimerBase i then some (nowNs, nowNs) else none
  | .write address _ nowNs nowNs' =>
    if eeTimerIndexForAddress address = some i then some (nowNs, nowNs') else none

def polls (i : Fin 4) (as : List Access) : List (Ns × Ns) := as.filterMap (Access.poll i)

/-- The ticks that an update of the timer adds. -/
def newTicks (s : Timers) (i : Fin 4) (nowNs : Ns) : ℕ :=
  if s.timerLastHostNs i = 0 ∨ ¬s.enabled i ∨ nowNs - s.timerLastHostNs i = 0 then 0
  else (((nowNs - s.timerLastHostNs i) * kEeTimerTicksPerSecond + s.timerFractionNs i) / kNanosecondsPerSecond).toNat

/-- The ticks that all polls of the timer add. -/
def addedTicks (i : Fin 4) : Timers → List Access → ℕ
  | _, [] => 0
  | s, a :: as => ((a.poll i).elim 0 fun p => newTicks s i p.1) + addedTicks i (step s a) as

def run (s : Timers) (as : List Access) : Timers := as.foldl step s

/-! ### The registers -/

variable {address : Word}

theorem eeTimerIndex_cases (h : eeTimerIndexForAddress address = some i) :
    address = kEeTimerBase i ∨ address = kEeTimerBase i + kEeTimerModeOffset ∨
      address = kEeTimerBase i + kEeTimerCompareOffset ∨ address = kEeTimerBase i + kEeTimerHoldOffset := by
  have hfound := List.find?_some h
  simpa only [decide_eq_true_eq] using hfound

theorem eeTimerIndex_base (i : Fin 4) : eeTimerIndexForAddress (kEeTimerBase i) = some i := by
  revert i
  decide

theorem toNat_base (i : Fin 4) : (kEeTimerBase i).toNat = 0x10000000 + 0x800 * i := by
  revert i
  decide

theorem mode_ne_base (i : Fin 4) : kEeTimerBase i + kEeTimerModeOffset ≠ kEeTimerBase i := by
  revert i
  decide

variable {j : Fin 4}

theorem of_base_add {o o' : Word} (ho : o.toNat < 0x800) (ho' : o'.toNat < 0x800)
    (h : kEeTimerBase j + o = kEeTimerBase i + o') : i = j := by
  have hi := toNat_base i
  have hj := toNat_base j
  have hnat := congrArg BitVec.toNat h
  rw [BitVec.toNat_add_of_lt (by omega), BitVec.toNat_add_of_lt (by omega)] at hnat
  omega

theorem registers_apart (h : eeTimerIndexForAddress address = some j) (hij : i ≠ j) :
    address ≠ kEeTimerBase i ∧ address ≠ kEeTimerBase i + kEeTimerModeOffset := by
  obtain ⟨o, ho, rfl⟩ : ∃ o : Word, o.toNat < 0x800 ∧ address = kEeTimerBase j + o := by
    rcases eeTimerIndex_cases h with rfl | rfl | rfl | rfl
    · exact ⟨0, by decide, (BitVec.add_zero _).symm⟩
    · exact ⟨_, by decide, rfl⟩
    · exact ⟨_, by decide, rfl⟩
    · exact ⟨_, by decide, rfl⟩
  constructor
  · intro heq
    have hzero : kEeTimerBase i = kEeTimerBase i + 0 := (BitVec.add_zero _).symm
    rw [hzero] at heq
    exact hij (of_base_add ho (by decide) heq)
  · intro heq
    exact hij (of_base_add ho (by decide) heq)

theorem reg_setReg_self (s : Timers) (address value : Word) : (s.setReg address value).reg address = value := by
  simp [reg, setReg]

theorem reg_setReg_of_ne {address b : Word} (h : b ≠ address) (s : Timers) (value : Word) :
    (s.setReg address value).reg b = s.reg b := by
  simp [reg, setReg, Function.update_of_ne h]

/-- What a timer consists of. -/
structure Same (i : Fin 4) (s s' : Timers) : Prop where
  last : s'.timerLastHostNs i = s.timerLastHostNs i
  fraction : s'.timerFractionNs i = s.timerFractionNs i
  count : s'.count i = s.count i
  mode : s'.reg (kEeTimerBase i + kEeTimerModeOffset) = s.reg (kEeTimerBase i + kEeTimerModeOffset)

namespace Same

theorem refl (i : Fin 4) (s : Timers) : Same i s s := ⟨rfl, rfl, rfl, rfl⟩

theorem trans {s1 s2 s3 : Timers} (h : Same i s1 s2) (h' : Same i s2 s3) : Same i s1 s3 :=
  ⟨h'.last.trans h.last, h'.fraction.trans h.fraction, h'.count.trans h.count, h'.mode.trans h.mode⟩

theorem setLast (hij : i ≠ j) (s : Timers) (nowNs : Ns) : Same i s (s.setLast j nowNs) :=
  ⟨Function.update_of_ne hij .., rfl, rfl, rfl⟩

theorem setFraction (hij : i ≠ j) (s : Timers) (fraction : BitVec 64) : Same i s (s.setFraction j fraction) :=
  ⟨rfl, Function.update_of_ne hij .., rfl, rfl⟩

theorem setReg (hcount : address ≠ kEeTimerBase i) (hmode : address ≠ kEeTimerBase i + kEeTimerModeOffset) (s : Timers)
    (value : Word) : Same i s (s.setReg address value) :=
  ⟨rfl, rfl, reg_setReg_of_ne hcount.symm s value, reg_setReg_of_ne hmode.symm s value⟩

theorem update (hij : i ≠ j) (s : Timers) (nowNs : Ns) : Same i s (s.updateEeTimerCounter j nowNs) := by
  have hapart := registers_apart (eeTimerIndex_base j) hij
  have hmoved := fun fraction => (setLast hij s nowNs).trans (setFraction hij _ fraction)
  simp only [updateEeTimerCounter]
  split
  · exact setLast hij s nowNs
  · split
    · exact hmoved _
    · split
      · exact setLast hij s nowNs
      · split
        · exact (hmoved _).trans (setReg hapart.1 hapart.2 _ _)
        · exact hmoved _

end Same

/-- **An access to other registers** leaves the timer alone. -/
theorem step_others (hp : a.poll i = none) : Same i s (step s a) := by
  cases a with
  | read address nowNs =>
    have hne : address ≠ kEeTimerBase i := by
      intro h
      simp [Access.poll, h] at hp
    simp only [step, readIORegister]
    split
    · next j hj =>
      split
      · next hbase =>
        refine Same.update (fun hij => ?_) s nowNs
        exact hne (hij ▸ hbase)
      · exact .refl i s
    · exact .refl i s
  | write address value nowNs nowNs' =>
    simp only [step, writeIORegister]
    split
    · next j hj =>
      have hij : i ≠ j := by
        rintro rfl
        simp [Access.poll, hj] at hp
      obtain ⟨hcount, hmode⟩ := registers_apart hj hij
      have hupdated := ((Same.update hij s nowNs).trans (.setReg hcount hmode _ value)).trans (.setLast hij _ nowNs')
      split
      · exact ((Same.setReg hcount hmode s value).trans (.setLast hij _ nowNs)).trans (.setFraction hij _ 0)
      · split
        · exact hupdated.trans (.setFraction hij _ 0)
        · exact hupdated
    · exact .refl i s

/-! ### One poll -/

/-- The timer counts since `last`, with the fraction `f`. -/
structure Counts (i : Fin 4) (since : Ns) (f : ℕ) (s : Timers) : Prop where
  last : s.timerLastHostNs i = since
  started : since ≠ 0
  enabled : s.enabled i
  fraction : (s.timerFractionNs i).toNat = f
  small : f < 1000000000

variable {f : ℕ}

theorem Counts.same {last : Ns} {s' : Timers} (h : Counts i last f s) (hs : Same i s s') : Counts i last f s' where
  last := hs.last.trans h.last
  started := h.started
  enabled := by
    rw [Timers.enabled, hs.mode]
    exact h.enabled
  fraction := by rw [hs.fraction, h.fraction]
  small := h.small

theorem toNat_scaled {last f : BitVec 64} (h : last ≤ nowNs) :
    ((nowNs - last) * kEeTimerTicksPerSecond + f).toNat = ((nowNs.toNat - last.toNat) * 15720 + f.toNat) % 2 ^ 64 := by
  have hrate : kEeTimerTicksPerSecond.toNat = 15720 := rfl
  rw [BitVec.toNat_add, BitVec.toNat_mul, BitVec.toNat_sub_of_le h, hrate, Nat.mod_add_mod]

variable {since : Ns}

/-- **An update** adds the whole ticks and keeps the rest. -/
theorem update_poll (h : Counts i since f s) (hle : since ≤ nowNs) :
    let x := ((nowNs.toNat - since.toNat) * 15720 + f) % 2 ^ 64
    newTicks s i nowNs = x / 1000000000 ∧
      Counts i nowNs (x % 1000000000) (s.updateEeTimerCounter i nowNs) ∧
      (s.updateEeTimerCounter i nowNs).count i = s.count i + BitVec.ofNat 32 (x / 1000000000) := by
  intro x
  have hsmall := h.small
  have hpos : nowNs ≠ 0 := by
    rintro rfl
    exact h.started (BitVec.le_zero_iff.1 hle)
  have hdiv : kNanosecondsPerSecond.toNat = 1000000000 := rfl
  rw [newTicks, updateEeTimerCounter, h.last, if_neg h.started, if_neg (not_not.2 h.enabled)]
  by_cases helapsed : nowNs - since = 0
  · -- no time has passed
    have heq : nowNs = since := by
      have hsub := congrArg BitVec.toNat helapsed
      rw [BitVec.toNat_sub_of_le hle] at hsub
      have hle' : since.toNat ≤ nowNs.toNat := hle
      have hzero : (0 : Ns).toNat = 0 := rfl
      apply BitVec.eq_of_toNat_eq
      omega
    have hxf : x = f := by
      simp only [x, heq, Nat.sub_self, Nat.zero_mul, Nat.zero_add]
      exact Nat.mod_eq_of_lt (hsmall.trans (by decide))
    rw [hxf, Nat.div_eq_of_lt hsmall, Nat.mod_eq_of_lt hsmall, if_pos (.inr (.inr helapsed))]
    simp only [helapsed, if_true]
    exact ⟨trivial, ⟨Function.update_self .., hpos, h.enabled, h.fraction, hsmall⟩, (BitVec.add_zero _).symm⟩
  · have hx : ((nowNs - since) * kEeTimerTicksPerSecond + s.timerFractionNs i).toNat = x := by
      rw [toNat_scaled hle, h.fraction]
    have hticks : (((nowNs - since) * kEeTimerTicksPerSecond + s.timerFractionNs i) /
        kNanosecondsPerSecond).toNat = x / 1000000000 := by
      rw [BitVec.toNat_udiv, hx, hdiv]
    have hrest : (((nowNs - since) * kEeTimerTicksPerSecond + s.timerFractionNs i) %
        kNanosecondsPerSecond).toNat = x % 1000000000 := by
      rw [BitVec.toNat_umod, hx, hdiv]
    have hnone : ¬(since = 0 ∨ ¬s.enabled i ∨ nowNs - since = 0) := by
      rintro (hz | hoff | hz)
      · exact h.started hz
      · exact hoff h.enabled
      · exact helapsed hz
    rw [if_neg hnone, hticks]
    simp only [if_neg helapsed]
    split
    · refine ⟨trivial, ⟨Function.update_self .., hpos, ?_, ?_, Nat.mod_lt _ (by decide)⟩, ?_⟩
      · rw [Timers.enabled, reg_setReg_of_ne (mode_ne_base i)]
        exact h.enabled
      · rw [← hrest]
        exact congrArg BitVec.toNat (Function.update_self i _ s.timerFractionNs)
      · rw [Timers.count, reg_setReg_self, ← hticks]
        rfl
    · next hzero =>
      have hzero : x / 1000000000 = 0 := by
        rw [← hticks, not_not.1 hzero]
        rfl
      rw [hzero]
      refine ⟨trivial, ⟨Function.update_self .., hpos, h.enabled, ?_, Nat.mod_lt _ (by decide)⟩, ?_⟩
      · rw [← hrest]
        exact congrArg BitVec.toNat (Function.update_self i _ s.timerFractionNs)
      · exact (BitVec.add_zero _).symm

/-- **One poll.** A write of another register counts on from a later time. -/
theorem step_poll {p : Ns × Ns} (h : Counts i since f s) (hle : since ≤ p.1)
    (hle' : p.1 ≤ p.2) (hr : ¬a.restarts i) (hp : a.poll i = some p) :
    let x := ((p.1.toNat - since.toNat) * 15720 + f) % 2 ^ 64
    newTicks s i p.1 = x / 1000000000 ∧ Counts i p.2 (x % 1000000000) (step s a) ∧
      (step s a).count i = s.count i + BitVec.ofNat 32 (x / 1000000000) := by
  obtain ⟨hnew, hcounts, hcount⟩ := update_poll h hle
  cases a with
  | read address now =>
    simp only [Access.poll] at hp
    split at hp
    · next hbase =>
      cases hp
      simp only [step, readIORegister, hbase, eeTimerIndex_base, if_true]
      exact ⟨hnew, hcounts, hcount⟩
    · cases hp
  | write address value now now' =>
    simp only [Access.poll] at hp
    split at hp
    · next hindex =>
      cases hp
      have hbase : address ≠ kEeTimerBase i := fun h => hr (.inl h)
      have hmode : address ≠ kEeTimerBase i + kEeTimerModeOffset := fun h => hr (.inr h)
      have hpos : now' ≠ 0 := by
        rintro rfl
        have hzero : now = 0 := BitVec.le_zero_iff.1 hle'
        exact hcounts.started hzero
      simp only [step, writeIORegister, hindex, if_neg hbase, if_neg hmode]
      refine ⟨hnew, ⟨Function.update_self .., hpos, ?_, hcounts.fraction, hcounts.small⟩, ?_⟩
      · have hreg := reg_setReg_of_ne hmode.symm (s.updateEeTimerCounter i now) value
        have henabled := hcounts.enabled
        rw [Timers.enabled, ← hreg] at henabled
        exact henabled
      · have hreg := reg_setReg_of_ne hbase.symm (s.updateEeTimerCounter i now) value
        exact hreg.trans hcount
    · cases hp

/-! ### All polls -/

/-- The times for which the timer counts. -/
def gaps : ℕ → List (Ns × Ns) → List ℕ
  | _, [] => []
  | t, p :: ps => (p.1.toNat - t) :: gaps p.2.toNat ps

/-- The time between the two readings of the clock in the writes. -/
def uncounted (ps : List (Ns × Ns)) : ℕ := (ps.map fun p => p.2.toNat - p.1.toNat).sum

/-- The clock does not go back. -/
def Chronological : ℕ → List (Ns × Ns) → Prop
  | _, [] => True
  | t, p :: ps => t ≤ p.1.toNat ∧ p.1 ≤ p.2 ∧ Chronological p.2.toNat ps

/-- When the last poll is over. -/
def finish : ℕ → List (Ns × Ns) → ℕ
  | t, [] => t
  | _, p :: ps => finish p.2.toNat ps

theorem sum_gaps {t : ℕ} {ps : List (Ns × Ns)} (h : Chronological t ps) :
    t + (gaps t ps).sum + uncounted ps = finish t ps := by
  induction ps generalizing t with
  | nil => rfl
  | cons p ps ih =>
    obtain ⟨hle, hle', hrest⟩ := h
    have hsum := ih hrest
    have hle'' : p.1.toNat ≤ p.2.toNat := hle'
    rw [finish, ← hsum, gaps, List.sum_cons, uncounted, List.map_cons, List.sum_cons, uncounted]
    omega

/-- **The polls** divide the times between them with a carried remainder. -/
theorem addedTicks_eq_carry (h : Counts i since f s)
    (hr : ∀ a ∈ as, ¬a.restarts i) (hmono : Chronological since.toNat (polls i as)) :
    addedTicks i s as = (Carry.carry 1000000000 (2 ^ 64) f
        ((gaps since.toNat (polls i as)).map (· * 15720))).1 ∧
      (run s as).count i = s.count i + BitVec.ofNat 32 (addedTicks i s as) := by
  induction as generalizing s since f with
  | nil => exact ⟨rfl, (BitVec.add_zero _).symm⟩
  | cons a as ih =>
    have hr' : ∀ b ∈ as, ¬b.restarts i := fun b hb => hr b (List.mem_cons_of_mem a hb)
    have hrun : run s (a :: as) = run (step s a) as := rfl
    cases hp : a.poll i with
    | none =>
      have hsame : Same i s (step s a) := step_others hp
      have hpolls : polls i (a :: as) = polls i as := List.filterMap_cons_none hp
      rw [hpolls] at hmono ⊢
      obtain ⟨hticks, hcount⟩ := ih (h.same hsame) hr' hmono
      rw [addedTicks, hp, Option.elim_none, Nat.zero_add, hrun, ← hsame.count]
      exact ⟨hticks, hcount⟩
    | some p =>
      have hpolls : polls i (a :: as) = p :: polls i as := List.filterMap_cons_some hp
      rw [hpolls] at hmono ⊢
      obtain ⟨hle, hle', hrest⟩ := hmono
      obtain ⟨hnew, hcounts, hone⟩ := step_poll h hle hle' (hr a List.mem_cons_self) hp
      obtain ⟨hticks, hcount⟩ := ih hcounts hr' hrest
      rw [gaps, List.map_cons, Carry.carry, addedTicks, hp, Option.elim_some, hnew, hticks]
      refine ⟨rfl, ?_⟩
      rw [hrun, hcount, hone, BitVec.add_assoc, ← BitVec.ofNat_add, hticks]

/-! ### The whole time -/

/-- After `initialize`. -/
def initial : Timers := ⟨fun _ => none, fun _ => 0, fun _ => 0⟩

/-- The fractions are less than a tick. -/
def Small (s : Timers) : Prop := ∀ i, (s.timerFractionNs i).toNat < 1000000000

theorem Small.setFraction (h : Small s) (i : Fin 4) {v : BitVec 64} (hv : v.toNat < 1000000000) :
    Small (s.setFraction i v) := by
  intro j
  by_cases hj : j = i
  · rw [hj]
    exact (congrArg BitVec.toNat (Function.update_self i v s.timerFractionNs)).trans_lt hv
  · exact (congrArg BitVec.toNat (Function.update_of_ne hj v s.timerFractionNs)).trans_lt (h j)

theorem Small.update (h : Small s) (i : Fin 4) (nowNs : Ns) : Small (s.updateEeTimerCounter i nowNs) := by
  have hzero : (0 : BitVec 64).toNat < 1000000000 := by decide
  have hmod : ∀ x : BitVec 64, (x % kNanosecondsPerSecond).toNat < 1000000000 := by
    intro x
    rw [BitVec.toNat_umod]
    exact Nat.mod_lt _ (by decide)
  have hlast : Small (s.setLast i nowNs) := h
  simp only [updateEeTimerCounter]
  split
  · exact hlast
  · split
    · exact hlast.setFraction i hzero
    · split
      · exact hlast
      · split
        · exact hlast.setFraction i (hmod _)
        · exact hlast.setFraction i (hmod _)

theorem Small.step (h : Small s) (a : Access) : Small (step s a) := by
  have hzero : (0 : BitVec 64).toNat < 1000000000 := by decide
  cases a with
  | read address nowNs =>
    simp only [EeTimers.step, readIORegister]
    split
    · split
      · exact h.update _ nowNs
      · exact h
    · exact h
  | write address value nowNs nowNs' =>
    simp only [EeTimers.step, writeIORegister]
    split
    · next i _ =>
      have hcount : Small ((s.setReg address value).setLast i nowNs) := h
      have hother : Small (((s.updateEeTimerCounter i nowNs).setReg address value).setLast i nowNs') :=
        h.update i nowNs
      split
      · exact hcount.setFraction i hzero
      · split
        · exact hother.setFraction i hzero
        · exact hother
    · exact h

theorem run_small (hist : List Access) : Small (run initial hist) := by
  have hall : ∀ s, Small s → Small (run s hist) := by
    induction hist with
    | nil => exact fun s h => h
    | cons a hist ih => exact fun s h => ih _ (h.step a)
  have hinitial : Small initial := fun _ => Nat.zero_lt_succ _
  exact hall initial hinitial

theorem sum_map_mul (l : List ℕ) (c : ℕ) : (l.map (· * c)).sum = l.sum * c := by
  induction l with
  | nil => exact (Nat.zero_mul c).symm
  | cons x l ih => rw [List.map_cons, List.sum_cons, List.sum_cons, ih, Nat.add_mul]

/-- **Polls of a timer that counts** add the ticks of the whole time if and only if no gap overflows,
and no tick falls into the time that is not counted. What they add is what the count grows by. -/
theorem polls_add_floor_iff (hist as : List Access) (i : Fin 4)
    (hstarted : (run initial hist).timerLastHostNs i ≠ 0) (henabled : (run initial hist).enabled i)
    (hr : ∀ a ∈ as, ¬a.restarts i)
    (hmono : Chronological ((run initial hist).timerLastHostNs i).toNat (polls i as)) :
    let s := run initial hist
    let start := (s.timerLastHostNs i).toNat
    let fraction := (s.timerFractionNs i).toNat
    let elapsed := finish start (polls i as) - start
    (addedTicks i s as = (fraction + elapsed * 15720) / 1000000000 ↔
      Carry.Fits 1000000000 (2 ^ 64) fraction ((gaps start (polls i as)).map (· * 15720)) ∧
        (fraction + (elapsed - uncounted (polls i as)) * 15720) / 1000000000 =
          (fraction + elapsed * 15720) / 1000000000) ∧
      (run s as).count i = s.count i + BitVec.ofNat 32 (addedTicks i s as) := by
  intro s start fraction elapsed
  have hsmall : fraction < 1000000000 := run_small hist i
  have hcounts : Counts i (s.timerLastHostNs i) fraction s := ⟨rfl, hstarted, henabled, rfl, hsmall⟩
  obtain ⟨hticks, hcount⟩ := addedTicks_eq_carry hcounts hr hmono
  refine ⟨?_, hcount⟩
  have hsum : start + (gaps start (polls i as)).sum + uncounted (polls i as) = finish start (polls i as) :=
    sum_gaps hmono
  have hgaps : elapsed - uncounted (polls i as) = (gaps start (polls i as)).sum := by omega
  have hle : (fraction + (gaps start (polls i as)).sum * 15720) / 1000000000 ≤
      (fraction + elapsed * 15720) / 1000000000 := Nat.div_le_div_right (by omega)
  have hW : 0 < 2 ^ 64 := by decide
  have hiff : (Carry.carry 1000000000 (2 ^ 64) fraction ((gaps start (polls i as)).map (· * 15720))).1 = _ ↔ _ :=
    Carry.carry_eq_iff (by decide) (by decide) hsmall
  have hquotient : (Carry.carry 1000000000 (2 ^ 64) fraction ((gaps start (polls i as)).map (· * 15720))).1 ≤ _ :=
    Carry.carry_le (by decide) hW hsmall
  rw [sum_map_mul] at hiff hquotient
  rw [hgaps, hticks, ← hiff]
  have hboth : ∀ {x y z : ℕ}, x ≤ y → y ≤ z → (x = z ↔ x = y ∧ y = z) := by omega
  exact hboth hquotient hle

/-- Timer 0 is enabled when the clock reads one second. -/
def enabledAtOne : List Access := [.write 0x10000010 0x80 1000000000 1000000000]

theorem polled_twice : addedTicks 0 (run initial enabledAtOne)
    [.read 0x10000000 1300000000, .read 0x10000000 2000000000] = 15720 := by
  have hmono : Chronological ((run initial enabledAtOne).timerLastHostNs 0).toNat
      (polls 0 [.read 0x10000000 1300000000, .read 0x10000000 2000000000]) :=
    ⟨by decide, by decide, by decide, by decide, trivial⟩
  have h := polls_add_floor_iff enabledAtOne _ 0 (by decide) (by decide) (by decide) hmono
  refine (h.1.2 ⟨?_, by decide⟩).trans (by decide)
  exact (Carry.fits_cons (by decide)).2 ⟨by decide, (Carry.fits_cons (by decide)).2 ⟨by decide, Carry.fits_nil⟩⟩

/-- **A poll after 14 days** adds too little: the product with the rate is more than 64 bits. -/
theorem fourteen_days : ¬∀ (hist as : List Access) (i : Fin 4),
    (run initial hist).timerLastHostNs i ≠ 0 → (run initial hist).enabled i →
    (∀ a ∈ as, ¬a.restarts i) →
    Chronological ((run initial hist).timerLastHostNs i).toNat (polls i as) →
    addedTicks i (run initial hist) as = (((run initial hist).timerFractionNs i).toNat +
      (finish ((run initial hist).timerLastHostNs i).toNat (polls i as) -
        ((run initial hist).timerLastHostNs i).toNat) * 15720) / 1000000000 := by
  intro h
  have hmono : Chronological ((run initial enabledAtOne).timerLastHostNs 0).toNat
      (polls 0 [.read 0x10000000 1209601000000000]) := ⟨by decide, by decide, trivial⟩
  have hticks := h enabledAtOne _ 0 (by decide) (by decide) (by decide) hmono
  revert hticks
  decide

end Ps2Recomp.EeTimers
