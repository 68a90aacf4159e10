import Ps2Recomp.Proof.GifPaths
import Ps2Recomp.Proof.ImageTransfer

/-!
# Packets in two pieces

Image data that stops on a pixel (`StopsOnPixel`) can be taken in two parts (`processImageData_split`),
and only then does nothing behind it count (`processImageData_congr`). From this a packet may be cut
between two tags, or within image data, wherever the first piece stops on a pixel and no piece takes the
shortcut for uploads (`processGIFPacket_split`).
-/

variable {n : ℕ}

namespace Ps2Recomp.GSMem

open Bytes PixelStorageMode

/-! ### Parts of an image -/

theorem write_congr {psm : PixelStorageMode} {m : Memory} {a v v' : ℕ}
    (h : v % 2 ^ psm.bitsPerPixel = v' % 2 ^ psm.bitsPerPixel) : psm.write m a v = psm.write m a v' := by
  refine eq_of_bit fun k => ?_
  rw [bit_write, bit_write]
  split
  · have hbit := congrArg (Nat.testBit · (k - psm.place a)) h
    simp only [Nat.testBit_mod_two_pow] at hbit
    rw [decide_eq_true (by omega), Bool.true_and, Bool.true_and] at hbit
    exact hbit
  · rfl

namespace ImageGs

variable {psm : PixelStorageMode} {m m' : Memory} {o o' : ℕ} {gs : ImageGs}

section

variable (h : ∀ i < psm.stepBytes, m (o + i) = m' (o' + i))

include h

theorem writePixels_congr : gs.writePixels psm m o = gs.writePixels psm m' o' := by
  rcases writePixels_cases psm with ⟨-, hbits, hbytes, hwrite⟩ | ⟨-, -, hbytes, -, hwrite⟩
  · rw [hwrite, hwrite, writePixelFuncs_eq, writePixelFuncs_eq, writePixelAddress, writePixelAddress]
    apply write_congr
    rw [hbits, Nat.mod_mod_of_dvd _ (pow_dvd_pow 2 (Nat.mul_le_mul_left 8 hbytes)),
      Nat.mod_mod_of_dvd _ (pow_dvd_pow 2 (Nat.mul_le_mul_left 8 hbytes)), load_mod hbytes, load_mod hbytes,
      load_moved h]
  · rw [hbytes] at h
    rw [hwrite, hwrite, load_moved h]

theorem uploadStep_congr : gs.uploadStep psm m o = gs.uploadStep psm m' o' := by
  unfold uploadStep
  rw [writePixels_congr h]

end

/-- The turns that the transfer has left, one at least. -/
def turnsLeft (gs : ImageGs) (psm : PixelStorageMode) : ℕ :=
  max 1 ((gs.transferState.totalPixels - gs.transferState.copiedPixels + psm.stepPixels - 1) / psm.stepPixels)

/-- Bytes in number `n` hold whole turns, or all that the transfer has left. -/
def WholeTurns (gs : ImageGs) (psm : PixelStorageMode) (n : ℕ) : Prop :=
  psm.stepBytes ∣ n ∨ psm.stepBytes * gs.turnsLeft psm ≤ n

theorem WholeTurns.le (h : gs.WholeTurns psm n) (hn : 0 < n) : psm.stepBytes ≤ n := by
  rcases h with h | h
  · exact Nat.le_of_dvd hn h
  · exact le_trans (Nat.le_mul_of_pos_right _ (lt_of_lt_of_le Nat.one_pos (le_max_left _ _))) h

/-- Unless it was the last, a turn leaves whole turns. -/
theorem WholeTurns.step (h : gs.WholeTurns psm n)
    (hmore : ¬ (gs.uploadStep psm m o).transferState.copiedPixels ≥ (gs.uploadStep psm m o).transferState.totalPixels) :
    (gs.uploadStep psm m o).WholeTurns psm (n - psm.stepBytes) := by
  have hcopied : (gs.uploadStep psm m o).transferState.copiedPixels =
      gs.transferState.copiedPixels + psm.stepPixels := by
    unfold uploadStep
    simp only
    split <;> rfl
  have htotal : (gs.uploadStep psm m o).transferState.totalPixels = gs.transferState.totalPixels := by
    unfold uploadStep
    simp only
    split <;> rfl
  rw [hcopied, htotal] at hmore
  rcases h with h | h
  · exact .inl (Nat.dvd_sub h (dvd_refl _))
  · right
    have hpos := psm.stepPixels_pos
    have hleft : (gs.uploadStep psm m o).turnsLeft psm + 1 = gs.turnsLeft psm := by
      unfold turnsLeft
      rw [hcopied, htotal]
      generalize gs.transferState.totalPixels = total at *
      generalize gs.transferState.copiedPixels = copied at *
      have hsum : total - copied + psm.stepPixels - 1 =
          (total - (copied + psm.stepPixels) + psm.stepPixels - 1) + psm.stepPixels := by omega
      rw [hsum, Nat.add_div_right _ hpos]
      have hone : 1 ≤ (total - (copied + psm.stepPixels) + psm.stepPixels - 1) / psm.stepPixels :=
        (Nat.one_le_div_iff hpos).2 (by omega)
      omega
    rw [← hleft, Nat.mul_add, Nat.mul_one] at h
    omega

theorem uploadLoop_fuel {stop fuel fuel' : ℕ} (h : stop - o ≤ fuel) (h' : stop - o ≤ fuel') :
    gs.uploadLoop psm m stop fuel o = gs.uploadLoop psm m stop fuel' o := by
  have hpos := psm.stepBytes_pos
  induction fuel generalizing fuel' o gs with
  | zero =>
    have hdone : ¬ o < stop := by omega
    cases fuel' with
    | zero => rfl
    | succ fuel' => rw [uploadLoop, uploadLoop, if_neg hdone]
  | succ fuel ih =>
    cases fuel' with
    | zero =>
      have hdone : ¬ o < stop := by omega
      rw [uploadLoop, uploadLoop, if_neg hdone]
    | succ fuel' =>
      have hrest : (gs.uploadStep psm m o).uploadLoop psm m stop fuel (o + psm.stepBytes) =
          (gs.uploadStep psm m o).uploadLoop psm m stop fuel' (o + psm.stepBytes) := ih (by omega) (by omega)
      rw [uploadLoop, uploadLoop]
      simp only [hrest]

theorem uploadLoop_congr {n fuel : ℕ}
    (h : (gs.WholeTurns psm n ∧ ∀ i < n, m (o + i) = m' (o' + i)) ∨ ∀ i < n + 3, m (o + i) = m' (o' + i)) :
    gs.uploadLoop psm m (o + n) fuel o = gs.uploadLoop psm m' (o' + n) fuel o' := by
  have hpos := psm.stepBytes_pos
  have hfour : psm.stepBytes ≤ 4 := by cases psm <;> decide
  induction fuel generalizing n o o' gs with
  | zero => rfl
  | succ fuel ih =>
    rw [uploadLoop, uploadLoop]
    by_cases hn : 0 < n
    · have hbytes : ∀ i < psm.stepBytes, m (o + i) = m' (o' + i) := by
        rcases h with ⟨hwhole, h⟩ | h
        · intro i hi
          exact h i (lt_of_lt_of_le hi (hwhole.le hn))
        · intro i hi
          exact h i (by omega)
      rw [if_pos (show o < o + n by omega), if_pos (show o' < o' + n by omega), ← uploadStep_congr hbytes]
      simp only
      split
      · rfl
      · rename_i hmore
        have hnext : ∀ c : ℕ, psm.stepBytes ≤ n →
            c + n = c + psm.stepBytes + (n - psm.stepBytes) := fun c hc => by omega
        by_cases hroom : psm.stepBytes ≤ n
        · rw [hnext o hroom, hnext o' hroom]
          apply ih
          rcases h with ⟨hwhole, h⟩ | h
          · refine .inl ⟨hwhole.step hmore, fun i hi => ?_⟩
            rw [Nat.add_assoc, Nat.add_assoc]
            exact h _ (by omega)
          · refine .inr fun i hi => ?_
            rw [Nat.add_assoc, Nat.add_assoc]
            exact h _ (by omega)
        · -- the last turn went over the end
          cases fuel with
          | zero => rfl
          | succ fuel => rw [uploadLoop, uploadLoop, if_neg (by omega), if_neg (by omega)]
    · rw [if_neg (by omega), if_neg (by omega)]

/-- Image data of size `n` stop on a pixel, if they are taken at all. -/
def StopsOnPixel (gs : ImageGs) (n : ℕ) : Prop :=
  gs.xdir = 0 → gs.rrw ≠ 0 → gs.rrh ≠ 0 → ∀ psm, psmOf gs.dpsm = some psm → gs.WholeTurns psm n

theorem processImageData_congr
    (h : (gs.StopsOnPixel n ∧ ∀ i < n, m (o + i) = m' (o' + i)) ∨ ∀ i < n + 3, m (o + i) = m' (o' + i)) :
    gs.processImageData m o n = gs.processImageData m' o' n := by
  unfold processImageData
  by_cases hxdir : gs.xdir ≠ 0
  · rw [if_pos hxdir, if_pos hxdir]
  · rw [if_neg hxdir, if_neg hxdir]
    by_cases hempty : gs.rrw = 0 ∨ gs.rrh = 0
    · rw [if_pos hempty, if_pos hempty]
    · rw [if_neg hempty, if_neg hempty]
      cases hpsm : psmOf gs.dpsm with
      | none => rfl
      | some psm =>
        push Not at hxdir hempty
        exact uploadLoop_congr (h.imp_left fun h => ⟨h.1 hxdir hempty.1 hempty.2 psm hpsm, h.2⟩)

theorem processImageData_zero (gs : ImageGs) (m : Memory) (o : ℕ) : gs.processImageData m o 0 = gs := by
  unfold processImageData
  split
  · rfl
  · split
    · rfl
    · cases psmOf gs.dpsm <;> rfl

theorem uploadStep_regs (gs : ImageGs) (psm : PixelStorageMode) (m : Memory) (o : ℕ) :
    (gs.uploadStep psm m o).xdir = gs.xdir ∧ (gs.uploadStep psm m o).rrw = gs.rrw ∧
      (gs.uploadStep psm m o).rrh = gs.rrh ∧ (gs.uploadStep psm m o).dpsm = gs.dpsm := by
  refine ⟨rfl, rfl, rfl, rfl⟩

theorem uploadLoop_split {k l fuel fuel' : ℕ} (hwhole : gs.WholeTurns psm k) (hxdir : gs.xdir = 0) (hrrw : gs.rrw ≠ 0)
    (hrrh : gs.rrh ≠ 0) (hpsm : psmOf gs.dpsm = some psm) (hfuel : k + l ≤ fuel) (hfuel' : k ≤ fuel') :
    gs.uploadLoop psm m (o + (k + l)) fuel o = (gs.uploadLoop psm m (o + k) fuel' o).processImageData m (o + k) l := by
  have hpos := psm.stepBytes_pos
  induction fuel' generalizing k fuel o gs with
  | zero =>
    have hk : k = 0 := by omega
    subst hk
    rw [uploadLoop]
    unfold processImageData
    rw [if_neg (by rw [hxdir]; decide), if_neg (by push Not; exact ⟨hrrw, hrrh⟩), hpsm, Nat.zero_add, Nat.add_zero]
    exact uploadLoop_fuel (by omega) (by omega)
  | succ fuel' ih =>
    by_cases hk : k = 0
    · subst hk
      rw [uploadLoop, if_neg (by omega)]
      unfold processImageData
      rw [if_neg (by rw [hxdir]; decide), if_neg (by push Not; exact ⟨hrrw, hrrh⟩), hpsm, Nat.zero_add, Nat.add_zero]
      exact uploadLoop_fuel (by omega) (by omega)
    · obtain ⟨fuel, rfl⟩ : ∃ f, fuel = f + 1 := ⟨fuel - 1, by omega⟩
      have hle := hwhole.le (Nat.pos_of_ne_zero hk)
      rw [uploadLoop, uploadLoop, if_pos (show o < o + (k + l) by omega), if_pos (show o < o + k by omega)]
      simp only
      split
      · exact (processImageData_endTransfer ..).symm
      · rename_i hmore
        obtain ⟨hx, hw, hh, hp⟩ := uploadStep_regs gs psm m o
        have hstep : (gs.uploadStep psm m o).uploadLoop psm m
            (o + psm.stepBytes + (k - psm.stepBytes + l)) fuel (o + psm.stepBytes) =
            ((gs.uploadStep psm m o).uploadLoop psm m (o + psm.stepBytes + (k - psm.stepBytes)) fuel'
              (o + psm.stepBytes)).processImageData m (o + psm.stepBytes + (k - psm.stepBytes)) l :=
          ih (hwhole.step hmore) (by rw [hx, hxdir]) (by rw [hw]; exact hrrw) (by rw [hh]; exact hrrh)
            (by rw [hp]; exact hpsm) (by omega) (by omega)
        have hall : o + psm.stepBytes + (k - psm.stepBytes + l) = o + (k + l) := by omega
        have hpart : o + psm.stepBytes + (k - psm.stepBytes) = o + k := by omega
        rw [hall, hpart] at hstep
        exact hstep

/-- **Image data in two parts**, of which the first stops on a pixel. -/
theorem processImageData_split {k l : ℕ} (h : gs.StopsOnPixel k) :
    gs.processImageData m o (k + l) = (gs.processImageData m o k).processImageData m (o + k) l := by
  by_cases hxdir : gs.xdir ≠ 0
  · have hskip : ∀ o n, gs.processImageData m o n = gs := by
      intro o n
      unfold processImageData
      rw [if_pos hxdir]
    rw [hskip, hskip, hskip]
  · by_cases hempty : gs.rrw = 0 ∨ gs.rrh = 0
    · have hskip : ∀ o n, gs.processImageData m o n = gs := by
        intro o n
        unfold processImageData
        rw [if_neg hxdir, if_pos hempty]
      rw [hskip, hskip, hskip]
    · have htaken : ∀ n, gs.processImageData m o n =
          (psmOf gs.dpsm).elim gs fun psm => gs.uploadLoop psm m (o + n) n o := by
        intro n
        unfold processImageData
        refine ((if_neg hxdir).trans (if_neg hempty)).trans ?_
        cases psmOf gs.dpsm <;> rfl
      rw [htaken, htaken]
      push Not at hxdir hempty
      cases hpsm : psmOf gs.dpsm with
      | none =>
        simp only [Option.elim_none]
        unfold processImageData
        rw [if_neg (by push Not; exact hxdir), if_neg (by push Not; exact hempty), hpsm]
      | some psm =>
        exact uploadLoop_split (h hxdir hempty.1 hempty.2 psm hpsm) hxdir hempty.1 hempty.2 hpsm le_rfl le_rfl

end ImageGs

end Ps2Recomp.GSMem

namespace Ps2Recomp.Gif

open Bytes GSMem

/-! ### Packets in other memories -/

variable {data : Memory} {size : ℕ}

section Shift

variable {G : Type} {c : GsCalls G} {W B : Memory} {a b : ℕ}

/-- An offset in `B` as one in `W`. -/
def shifted (a : ℕ) (r : GifState G × Option ℕ) : GifState G × Option ℕ := (r.1, r.2.map (a + ·))

section

variable (h : ∀ i < b, W (a + i) = B i)

include h

theorem loadLE64_shift {o : ℕ} (ho : o + 8 ≤ b) : loadLE64 W (a + o) = loadLE64 B o := by
  have hload : load W (a + o) 8 = load B o 8 := by
    apply load_moved
    intro i hi
    rw [Nat.add_assoc]
    exact h _ (by omega)
  rw [loadLE64, loadLE64, hload]

theorem loadTag_shift {o : ℕ} (ho : o + 16 ≤ b) : loadTag W (a + o) = loadTag B o := by
  unfold loadTag
  rw [loadLE64_shift h (by omega), Nat.add_assoc, loadLE64_shift h (by omega)]

theorem packedLoop_shift (descs : List Byte) (o : ℕ) (s : GifState G) :
    packedLoop c W (a + b) descs (a + o) s = shifted a (packedLoop c B b descs o s) := by
  induction descs generalizing o s with
  | nil => rfl
  | cons desc descs ih =>
    unfold packedLoop
    by_cases hend : o + 16 > b
    · rw [if_pos (by omega), if_pos hend]
      rfl
    · rw [if_neg (by omega), if_neg hend, loadLE64_shift h (by omega), Nat.add_assoc a o 8,
        loadLE64_shift h (by omega), Nat.add_assoc a o 16]
      exact ih _ _

theorem reglistLoop_shift (addrs : List Byte) (o : ℕ) (s : GifState G) :
    reglistLoop c W (a + b) addrs (a + o) s = shifted a (reglistLoop c B b addrs o s) := by
  induction addrs generalizing o s with
  | nil => rfl
  | cons addr addrs ih =>
    unfold reglistLoop
    by_cases hend : o + 8 > b
    · rw [if_pos (by omega), if_pos hend]
      rfl
    · rw [if_neg (by omega), if_neg hend, loadLE64_shift h (by omega), Nat.add_assoc a o 8]
      exact ih _ _

theorem processPayload_shift (tag : GifTag) {o : ℕ} (ho : o ≤ b) (s : GifState G)
    (himage : tag.flg = .image → c.processImageData W (a + o) (min (tag.nloop * 16) (b - o)) s.gs =
      c.processImageData B o (min (tag.nloop * 16) (b - o)) s.gs) :
    processPayload c W (a + b) tag (a + o) s = shifted a (processPayload c B b tag o s) := by
  unfold processPayload
  cases hflg : tag.flg with
  | packed => exact packedLoop_shift h _ _ _
  | reglist =>
    simp only [reglistLoop_shift h]
    rcases reglistLoop c B b tag.descriptors o s with ⟨s', _ | next⟩
    · rfl
    · simp only [shifted, Option.map_some]
      split <;> rfl
  | image =>
    have hsize : a + b - (a + o) = b - o := by omega
    simp only [hsize, GifState.processImageData, himage hflg]
    split <;> split <;> simp [shifted, Nat.add_assoc]
  | disabled => rfl

end

variable {next : ℕ}

section

variable (data : Memory) (size : ℕ)

theorem packedLoop_next (descs : List Byte) (o : ℕ) (s : GifState G)
    (h : (packedLoop c data size descs o s).2 = some next) : next = o + 16 * descs.length := by
  induction descs generalizing o s with
  | nil => exact (Option.some.inj h).symm
  | cons desc descs ih =>
    unfold packedLoop at h
    split at h
    · cases h
    · rw [ih _ _ h, List.length_cons]
      ring

theorem reglistLoop_next (addrs : List Byte) (o : ℕ) (s : GifState G)
    (h : (reglistLoop c data size addrs o s).2 = some next) : next = o + 8 * addrs.length := by
  induction addrs generalizing o s with
  | nil => exact (Option.some.inj h).symm
  | cons addr addrs ih =>
    unfold reglistLoop at h
    split at h
    · cases h
    · rw [ih _ _ h, List.length_cons]
      ring

theorem processPayload_next (tag : GifTag) (o : ℕ) (s : GifState G)
    (h : (processPayload c data size tag o s).2 = some next) : o ≤ next := by
  unfold processPayload at h
  split at h
  · have := packedLoop_next data size _ o s h
    omega
  · simp only [Option.map_eq_some_iff] at h
    obtain ⟨mid, hmid, hnext⟩ := h
    have := reglistLoop_next data size _ o s hmid
    split at hnext <;> omega
  · simp only [Option.ite_none_left_eq_some] at h
    have := Option.some.inj h.2
    omega
  · exact le_of_eq (Option.some.inj h)

theorem tagLoop_fuel {fuel fuel' o : ℕ} (s : GifState G) (h : size - o ≤ fuel)
    (h' : size - o ≤ fuel') : tagLoop c data size fuel o s = tagLoop c data size fuel' o s := by
  induction fuel generalizing fuel' o s with
  | zero =>
    have hdone : ¬ o + 16 ≤ size := by omega
    cases fuel' with
    | zero => rfl
    | succ fuel' => rw [tagLoop, tagLoop, if_neg hdone]
  | succ fuel ih =>
    cases fuel' with
    | zero =>
      have hdone : ¬ o + 16 ≤ size := by omega
      rw [tagLoop, tagLoop, if_neg hdone]
    | succ fuel' =>
      rw [tagLoop, tagLoop]
      split
      · cases htag : processTag c data size o s with
        | mk s' next =>
          cases next with
          | none => rfl
          | some next =>
            have hle : o + 16 ≤ next := by
              apply processPayload_next (c := c) data size (loadTag data o) (o + 16) (beginTag c (loadTag data o) s)
              exact congrArg Prod.snd htag
            exact ih s' (by omega) (by omega)
      · rfl

end

theorem tagLoop_done {size fuel o : ℕ} (s : GifState G) (h : size < o + 16) : tagLoop c data size fuel o s = s := by
  cases fuel with
  | zero => rfl
  | succ fuel => rw [tagLoop, if_neg (Nat.not_le.2 h)]

/-! ### Whole tags -/

section

variable {o : ℕ} (data : Memory)

theorem packedLoop_whole (descs : List Byte) (s : GifState G) (h : o + 16 * descs.length ≤ size) :
    (packedLoop c data size descs o s).2 = some (o + 16 * descs.length) ∧
      (s.pendingImageBytes = 0 → (packedLoop c data size descs o s).1.pendingImageBytes = 0) ∧
      ∀ more, packedLoop c data (size + more) descs o s = packedLoop c data size descs o s := by
  induction descs generalizing o s with
  | nil => exact ⟨rfl, id, fun _ => rfl⟩
  | cons desc descs ih =>
    rw [List.length_cons] at h
    obtain ⟨hnext, howed, hmore⟩ := ih (o := o + 16)
      (s.writeRegisterPacked c desc (loadLE64 data o) (loadLE64 data (o + 8))) (by omega)
    unfold packedLoop
    rw [if_neg (by omega), hnext, List.length_cons]
    refine ⟨by rw [Nat.mul_add, Nat.mul_one]; congr 1; omega, fun h0 => howed ?_, fun more => ?_⟩
    · unfold GifState.writeRegisterPacked
      simp only [h0, ite_self]
    · rw [if_neg (by omega)]
      exact hmore more

theorem reglistLoop_whole (addrs : List Byte) (s : GifState G) (h : o + 8 * addrs.length ≤ size) :
    (reglistLoop c data size addrs o s).2 = some (o + 8 * addrs.length) ∧
      (s.pendingImageBytes = 0 → (reglistLoop c data size addrs o s).1.pendingImageBytes = 0) ∧
      ∀ more, reglistLoop c data (size + more) addrs o s = reglistLoop c data size addrs o s := by
  induction addrs generalizing o s with
  | nil => exact ⟨rfl, id, fun _ => rfl⟩
  | cons addr addrs ih =>
    rw [List.length_cons] at h
    obtain ⟨hnext, howed, hmore⟩ := ih (o := o + 8) (s.writeRegister c addr (loadLE64 data o)) (by omega)
    unfold reglistLoop
    rw [if_neg (by omega), hnext, List.length_cons]
    refine ⟨by rw [Nat.mul_add, Nat.mul_one]; congr 1; omega, fun h0 => howed ?_, fun more => ?_⟩
    · unfold GifState.writeRegister
      simp only [h0, ite_self]
    · rw [if_neg (by omega)]
      exact hmore more

end

theorem GifTag.length_descriptors (tag : GifTag) : tag.descriptors.length = tag.nloop * tag.nreg := by
  simp [GifTag.descriptors, GifTag.regs]

theorem processPayload_whole (data : Memory) (tag : GifTag) {o : ℕ} (s : GifState G) (h : o + tag.payloadBytes ≤ size) :
    (processPayload c data size tag o s).2 = some (o + tag.payloadBytes) ∧
      (s.pendingImageBytes = 0 → (processPayload c data size tag o s).1.pendingImageBytes = 0) ∧
      ∀ more, processPayload c data (size + more) tag o s = processPayload c data size tag o s := by
  unfold GifTag.payloadBytes at h ⊢
  unfold processPayload
  cases hflg : tag.flg with
  | packed =>
    simp only [hflg] at h ⊢
    have hlen : 16 * tag.descriptors.length = tag.nloop * tag.nreg * 16 := by
      rw [tag.length_descriptors, Nat.mul_comm]
    obtain ⟨hnext, howed, hmore⟩ : (packedLoop c data size tag.descriptors o s).2 =
          some (o + 16 * tag.descriptors.length) ∧
        (s.pendingImageBytes = 0 → (packedLoop c data size tag.descriptors o s).1.pendingImageBytes = 0) ∧
        ∀ more, packedLoop c data (size + more) tag.descriptors o s =
          packedLoop c data size tag.descriptors o s := packedLoop_whole data _ s (by omega)
    exact ⟨by rw [hnext, hlen], howed, hmore⟩
  | reglist =>
    simp only [hflg] at h ⊢
    have hlen := tag.length_descriptors
    obtain ⟨hnext, howed, hmore⟩ : (reglistLoop c data size tag.descriptors o s).2 =
          some (o + 8 * tag.descriptors.length) ∧
        (s.pendingImageBytes = 0 → (reglistLoop c data size tag.descriptors o s).1.pendingImageBytes = 0) ∧
        ∀ more, reglistLoop c data (size + more) tag.descriptors o s =
          reglistLoop c data size tag.descriptors o s := reglistLoop_whole data _ s (by rw [hlen]; omega)
    refine ⟨?_, howed, fun more => by rw [hmore]⟩
    rw [hnext, hlen, Option.map_some]
    congr 1
    split <;> omega
  | image =>
    simp only [hflg] at h ⊢
    have hall : ∀ more, min (tag.nloop * 16) (size + more - o) = tag.nloop * 16 := by
      intro more
      omega
    have hall0 := hall 0
    rw [Nat.add_zero] at hall0
    simp only [hall, hall0, Nat.sub_self]
    refine ⟨?_, fun _ => ?_, fun _ => trivial⟩
    · split <;> rfl
    · split <;> rfl
  | disabled => exact ⟨rfl, id, fun _ => rfl⟩

theorem beginTag_pending (tag : GifTag) {s : GifState G} (h : s.pendingImageBytes = 0) :
    (beginTag c tag s).pendingImageBytes = 0 := by
  unfold beginTag
  simp only
  split
  · unfold GifState.writeRegister
    simp only [h, ite_self]
  · exact h

end Shift

section Split

variable {R : Type} {rest : GsRest R} {W A B : Memory} {a b : ℕ}

section

variable (h : ∀ i < b + 3, W (a + i) = B i)

include h

theorem image_shift {o n : ℕ} (ho : o + n ≤ b) (gs : ImageGs × R) :
    rest.calls.processImageData W (a + o) n gs = rest.calls.processImageData B o n gs := by
  have himage : gs.1.processImageData W (a + o) n = gs.1.processImageData B o n := by
    apply ImageGs.processImageData_congr
    right
    intro i hi
    rw [Nat.add_assoc]
    exact h _ (by omega)
  exact congrArg (·, gs.2) himage

theorem tagLoop_shift {fuel o : ℕ} (s : GifState (ImageGs × R)) :
    tagLoop rest.calls W (a + b) fuel (a + o) s = tagLoop rest.calls B b fuel o s := by
  have hbytes : ∀ i < b, W (a + i) = B i := fun i hi => h i (by omega)
  induction fuel generalizing o s with
  | zero => rfl
  | succ fuel ih =>
    rw [tagLoop, tagLoop]
    by_cases hroom : o + 16 ≤ b
    · rw [if_pos (by omega), if_pos hroom]
      have htag : processTag rest.calls W (a + b) (a + o) s = shifted a (processTag rest.calls B b o s) := by
        unfold processTag
        simp only
        rw [loadTag_shift hbytes hroom, Nat.add_assoc]
        apply processPayload_shift hbytes _ hroom
        intro _
        exact image_shift h (by omega) _
      rw [htag]
      rcases processTag rest.calls B b o s with ⟨s', _ | next⟩
      · rfl
      · exact ih s'
    · rw [if_neg (by omega), if_neg hroom]

end

/-! ### The cut -/

/-- From the tag at `o` on, the cut lies between two tags or within the data of an image. -/
inductive CutAt (data : Memory) (cut : ℕ) : ℕ → Prop
  | here : CutAt data cut cut
  | next {o : ℕ} : CutAt data cut (o + 16 + (loadTag data o).payloadBytes) → CutAt data cut o
  | inside {o : ℕ} : (loadTag data o).flg = .image → o + 16 ≤ cut → cut ≤ o + 16 + (loadTag data o).nloop * 16 →
      CutAt data cut o

theorem CutAt.le {cut o : ℕ} (h : CutAt data cut o) : o ≤ cut := by
  induction h with
  | here => exact le_rfl
  | next _ ih => omega
  | inside _ hle _ => omega

/-- The calls of a packet where `owed` bytes are owed. -/
def callsOf (data : Memory) (size owed : ℕ) : List GsCall :=
  (processGIFPacket recorded data size ⟨[], owed⟩).gs

/-- Where calls end in image data, these stop on a pixel. -/
def StopsOnPixel (rest : GsRest R) (gs : ImageGs × R) (calls : List GsCall) : Prop :=
  ∀ before data o n, calls = before ++ [.processImageData data o n] → (replay rest.calls gs before).1.StopsOnPixel n

theorem StopsOnPixel.after {gs : ImageGs × R} {before calls : List GsCall}
    (h : StopsOnPixel rest gs (before ++ calls)) : StopsOnPixel rest (replay rest.calls gs before) calls := by
  intro earlier data o n hcalls
  have hstops := h (before ++ earlier) data o n (by rw [hcalls, List.append_assoc])
  rw [replay, List.foldl_append] at hstops
  exact hstops

/-- The calls of the tags from `o` on. -/
def tagCalls (data : Memory) (size o : ℕ) : List GsCall := (tagLoop recorded data size (size - o) o ⟨[], 0⟩).gs

theorem drain_split (rest : GsRest R) (h : ∀ i < b + 3, W (a + i) = B i) (hA : ∀ i < a, A i = W i) {o k owed fuel : ℕ}
    (hk : o + k = a) (howed : k ≤ owed) (hfuel : b ≤ fuel) (gs : ImageGs × R)
    (hstops : gs.1.StopsOnPixel k) (hshort : owed = k → imageUpload? B b = none) :
    (let taken := min owed (a + b - o)
      let s : GifState (ImageGs × R) := ⟨rest.calls.processImageData W o taken gs, owed - taken⟩
      if owed - taken ≠ 0 then s else tagLoop rest.calls W (a + b) fuel (o + taken) s) =
    processGIFPacket rest.calls B b ⟨rest.calls.processImageData A o k gs, owed - k⟩ := by
  have hsame : rest.calls.processImageData A o k gs = rest.calls.processImageData W o k gs := by
    have himage : gs.1.processImageData A o k = gs.1.processImageData W o k := by
      apply ImageGs.processImageData_congr
      exact .inl ⟨hstops, fun i hi => hA _ (by omega)⟩
    exact congrArg (·, gs.2) himage
  have hparts : ∀ j, j ≤ b → rest.calls.processImageData W o (k + j) gs =
      rest.calls.processImageData B 0 j (rest.calls.processImageData A o k gs) := by
    intro j hj
    have hsplit : gs.1.processImageData W o (k + j) =
        (gs.1.processImageData W o k).processImageData W (o + k) j := ImageGs.processImageData_split hstops
    have hshift : rest.calls.processImageData W (a + 0) j (rest.calls.processImageData W o k gs) =
        rest.calls.processImageData B 0 j (rest.calls.processImageData W o k gs) := image_shift h (by omega) _
    rw [hsame, ← hshift, Nat.add_zero, ← hk]
    exact congrArg (·, gs.2) hsplit
  obtain ⟨j, hj⟩ : ∃ j, min owed (a + b - o) = k + j := ⟨min owed (a + b - o) - k, by omega⟩
  have hjb : j ≤ b := by omega
  simp only [hj, hparts j hjb]
  unfold processGIFPacket
  by_cases hb : b = 0
  · have hj0 : j = 0 := by omega
    subst hb hj0
    rw [if_pos rfl]
    simp only [Nat.add_zero]
    have hzero : ∀ gs, rest.calls.processImageData B 0 0 gs = gs := fun gs =>
      congrArg (·, gs.2) (ImageGs.processImageData_zero ..)
    rw [hzero]
    split
    · rfl
    · have hdone : ∀ s : GifState (ImageGs × R), tagLoop rest.calls W (a + 0) fuel (o + k) s =
          tagLoop rest.calls W (a + 0) 0 (o + k) s := fun s =>
        tagLoop_fuel W (a + 0) s (by omega) (by omega)
      rw [Nat.add_zero] at hdone
      exact hdone _
  · rw [if_neg hb]
    simp only
    have htags : ∀ j ≤ b, ∀ s : GifState (ImageGs × R), tagLoop rest.calls W (a + b) fuel (o + (k + j)) s =
        tagLoop rest.calls B b b j s := by
      intro j hj s
      rw [← Nat.add_assoc, hk, tagLoop_shift h]
      exact tagLoop_fuel B b s (by omega) (by omega)
    by_cases hleft : owed - k = 0
    · have hj0 : j = 0 := by omega
      subst hj0
      have hzero : ∀ gs, rest.calls.processImageData B 0 0 gs = gs := fun gs =>
        congrArg (·, gs.2) (ImageGs.processImageData_zero ..)
      have hdone : ¬ owed - (k + 0) ≠ 0 := by omega
      have hnone : ¬ owed - k ≠ 0 := by omega
      have hupload : (if 0 = 0 ∧ 16 ≤ b then imageUpload? B b else none) = none := by
        rw [hshort (by omega), ite_self]
      rw [if_neg hdone, if_neg hnone, htags 0 (Nat.zero_le b), hzero]
      unfold processTags
      rw [hupload]
      rfl
    · have htake : min (owed - k) b = j := by omega
      have hsub : owed - (k + j) = owed - k - j := by omega
      have hoffset : ¬ (j = 0 ∧ 16 ≤ b) := by omega
      rw [if_pos hleft, htake, htags j hjb, hsub]
      unfold processTags
      rw [if_neg hoffset]
      simp only [GifState.processImageData]
      by_cases hall : j ≥ b
      · rw [if_pos hall]
        split
        · rfl
        · exact tagLoop_done _ (by omega)
      · rw [if_neg hall, if_neg (by omega)]

theorem stopsOnPixel_zero (gs : ImageGs) : gs.StopsOnPixel 0 :=
  fun _ _ _ psm _ => .inl (dvd_zero psm.stepBytes)

theorem calls_image_zero (data : Memory) (o : ℕ) (gs : ImageGs × R) :
    rest.calls.processImageData data o 0 gs = gs := congrArg (·, gs.2) (ImageGs.processImageData_zero ..)

variable {s : GifState (ImageGs × R)}

theorem processTag_replay {c : GsCalls (ImageGs × R)} (data : Memory) (size o : ℕ) (hs : s.pendingImageBytes = 0) :
    processTag c data size o s =
      ((processTag recorded data size o ⟨[], 0⟩).1.map (replay c s.gs),
        (processTag recorded data size o ⟨[], 0⟩).2) := by
  have hmap := (replay_hom c s.gs).map_processTag data size o ⟨[], 0⟩
  rw [← hmap, ← hs]
  rfl

theorem tagCalls_next {size o next : ℕ} (hroom : o + 16 ≤ size)
    (hnext : (processTag recorded data size o ⟨[], 0⟩).2 = some next)
    (howed : (processTag recorded data size o ⟨[], 0⟩).1.pendingImageBytes = 0) (hle : o < next) :
    tagCalls data size o = (processTag recorded data size o ⟨[], 0⟩).1.gs ++ tagCalls data size next := by
  obtain ⟨fuel, hfuel⟩ : ∃ fuel, size - o = fuel + 1 := ⟨size - o - 1, by omega⟩
  unfold tagCalls
  rw [hfuel, tagLoop, if_pos hroom]
  revert hnext howed
  rcases processTag recorded data size o ⟨[], 0⟩ with ⟨⟨before, owed⟩, _ | n⟩
  · intro hnext
    cases hnext
  · intro hnext howed
    cases hnext
    have howed : owed = 0 := howed
    subst howed
    have hmap := (append_hom before).map_tagLoop data size fuel next ⟨[], 0⟩
    have hstart : GifState.map (before ++ ·) ⟨[], 0⟩ = (⟨before, 0⟩ : GifState (List GsCall)) := by
      simp [GifState.map]
    rw [hstart] at hmap
    simp only [hmap]
    rw [tagLoop_fuel data size _ (by omega : size - next ≤ fuel) (le_refl (size - next))]
    rfl

theorem tagCalls_image {size o : ℕ} (hroom : o + 16 ≤ size) (hflg : (loadTag data o).flg = .image)
    (hend : size ≤ o + 16 + (loadTag data o).nloop * 16) (hsome : o + 16 < size) :
    tagCalls data size o = (beginTag recorded (loadTag data o) ⟨[], 0⟩).gs ++
      [.processImageData data (o + 16) (size - (o + 16))] := by
  obtain ⟨fuel, hfuel⟩ : ∃ fuel, size - o = fuel + 1 := ⟨size - o - 1, by omega⟩
  have hmin : min ((loadTag data o).nloop * 16) (size - (o + 16)) = size - (o + 16) := by omega
  have hpos : size - (o + 16) ≠ 0 := by omega
  unfold tagCalls
  rw [hfuel, tagLoop, if_pos hroom]
  unfold processTag processPayload
  simp only [hflg, hmin, if_pos hpos]
  split
  · rename_i heq
    split at heq <;> cases heq
    rfl
  · rename_i heq
    split at heq <;> cases heq
    rw [tagLoop_done _ (by omega)]
    rfl

theorem beginTag_replay {c : GsCalls (ImageGs × R)} (tag : GifTag) (hs : s.pendingImageBytes = 0) :
    (beginTag c tag s).gs = replay c s.gs (beginTag recorded tag ⟨[], 0⟩).gs := by
  have hmap := (replay_hom c s.gs).map_beginTag tag ⟨[], 0⟩
  have hstart : GifState.map (replay c s.gs) ⟨[], 0⟩ = s := by
    rw [← hs]
    rfl
  rw [hstart] at hmap
  rw [← hmap]
  rfl

theorem loadTag_first (hA : ∀ i < a, A i = W i) {o : ℕ} (ho : o + 16 ≤ a) : loadTag A o = loadTag W o := by
  have hshift : loadTag W (0 + o) = loadTag A o := by
    apply loadTag_shift (b := a) _ ho
    intro i hi
    rw [Nat.zero_add, hA i hi]
  rw [← hshift, Nat.zero_add]

/-- A whole payload in the first piece, where image data that end it stop on a pixel. -/
theorem processPayload_first (rest : GsRest R) (hA : ∀ i < a, A i = W i) (tag : GifTag) {o : ℕ}
    (hwhole : o + tag.payloadBytes ≤ a) (s : GifState (ImageGs × R))
    (hstops : tag.flg = .image → a < o + tag.payloadBytes + 3 → s.gs.1.StopsOnPixel (tag.nloop * 16)) :
    processPayload rest.calls W a tag o s = processPayload rest.calls A a tag o s := by
  have hbytes : ∀ i < a, W (0 + i) = A i := by
    intro i hi
    rw [Nat.zero_add, hA i hi]
  have hshift : processPayload rest.calls W (0 + a) tag (0 + o) s =
      shifted 0 (processPayload rest.calls A a tag o s) := by
    apply processPayload_shift hbytes tag (by omega)
    intro hflg
    have hbytesImage : tag.payloadBytes = tag.nloop * 16 := by
      unfold GifTag.payloadBytes
      rw [hflg]
    have hmin : min (tag.nloop * 16) (a - o) = tag.nloop * 16 := by omega
    have himage : s.gs.1.processImageData W (0 + o) (tag.nloop * 16) =
        s.gs.1.processImageData A o (tag.nloop * 16) := by
      apply ImageGs.processImageData_congr
      by_cases hlast : a < o + tag.payloadBytes + 3
      · left
        refine ⟨hstops hflg hlast, fun i hi => ?_⟩
        rw [Nat.zero_add, hA _ (by omega)]
      · right
        intro i hi
        rw [Nat.zero_add, hA _ (by omega)]
    rw [hmin]
    exact congrArg (·, s.gs.2) himage
  rw [Nat.zero_add, Nat.zero_add] at hshift
  rw [hshift]
  rcases processPayload rest.calls A a tag o s with ⟨s', _ | next⟩
  · rfl
  · simp [shifted]

theorem processPayload_image (data : Memory) (size : ℕ) {tag : GifTag} (hflg : tag.flg = .image) (o : ℕ)
    (s : GifState (ImageGs × R)) :
    processPayload rest.calls data size tag o s =
      (⟨rest.calls.processImageData data o (min (tag.nloop * 16) (size - o)) s.gs,
          tag.nloop * 16 - min (tag.nloop * 16) (size - o)⟩,
        if tag.nloop * 16 - min (tag.nloop * 16) (size - o) ≠ 0 then none
        else some (o + min (tag.nloop * 16) (size - o))) := by
  unfold processPayload
  simp only [hflg]
  by_cases hzero : min (tag.nloop * 16) (size - o) ≠ 0
  · rw [if_pos hzero]
    rfl
  · have h0 : min (tag.nloop * 16) (size - o) = 0 := not_not.1 hzero
    rw [if_neg hzero, h0, calls_image_zero]

theorem CutAt.lt_or {cut o : ℕ} (h : CutAt data cut o) : o = cut ∨ o + 16 ≤ cut := by
  cases h with
  | here => exact .inl rfl
  | next h =>
    have := h.le
    right
    omega
  | inside _ hle _ => exact .inr hle

/-- **The tags of a packet in two pieces.** -/
theorem tagLoop_split (h : ∀ i < b + 3, W (a + i) = B i) (hA : ∀ i < a, A i = W i) {o fuel : ℕ} (hcut : CutAt W a o)
    (hfuel : a + b - o ≤ fuel) (hs : s.pendingImageBytes = 0) (hstops : StopsOnPixel rest s.gs (tagCalls A a o))
    (hshort : (tagLoop rest.calls A a (a - o) o s).pendingImageBytes = 0 → imageUpload? B b = none) :
    tagLoop rest.calls W (a + b) fuel o s = processGIFPacket rest.calls B b (tagLoop rest.calls A a (a - o) o s) := by
  induction hcut generalizing fuel s with
  | here =>
    have hempty : tagLoop rest.calls A a (a - a) a s = s := tagLoop_done s (by omega)
    rw [hempty] at hshort ⊢
    have hdrain := drain_split rest h hA (o := a) (k := 0) rfl (Nat.zero_le 0) (by omega : b ≤ fuel) s.gs
      (stopsOnPixel_zero _) (fun _ => hshort hs)
    simp only [Nat.zero_min, Nat.add_zero, Nat.sub_self, calls_image_zero, ne_eq, not_true_eq_false, if_false] at hdrain
    rw [← hs] at hdrain
    exact hdrain
  | @next o hcut ih =>
    have hle := hcut.le
    have hroom : o + 16 ≤ a := by omega
    have htag := loadTag_first hA hroom
    obtain ⟨f, rfl⟩ : ∃ f, fuel = f + 1 := ⟨fuel - 1, by omega⟩
    obtain ⟨g, hg⟩ : ∃ g, a - o = g + 1 := ⟨a - o - 1, by omega⟩
    have hpixel : (loadTag W o).flg = .image → a < o + 16 + (loadTag W o).payloadBytes + 3 →
        (beginTag rest.calls (loadTag W o) s).gs.1.StopsOnPixel ((loadTag W o).nloop * 16) := by
      intro hflg hlast
      have hbytes : (loadTag W o).payloadBytes = (loadTag W o).nloop * 16 := by
        unfold GifTag.payloadBytes
        rw [hflg]
      have hend : o + 16 + (loadTag W o).payloadBytes = a := by
        rcases hcut.lt_or with hend | hmore
        · exact hend
        · omega
      by_cases hsome : o + 16 < a
      · have hcalls := tagCalls_image hroom (by rw [htag]; exact hflg) (by rw [htag, ← hbytes]; omega) hsome
        have hstop := hstops _ _ _ _ hcalls
        rw [htag, ← beginTag_replay _ hs, show a - (o + 16) = (loadTag W o).nloop * 16 by omega] at hstop
        exact hstop
      · rw [show (loadTag W o).nloop * 16 = 0 by omega]
        exact stopsOnPixel_zero _
    obtain ⟨hnext, howed, hmore⟩ : _ ∧ _ ∧ _ :=
      processPayload_whole (c := rest.calls) W (loadTag W o) (beginTag rest.calls (loadTag W o) s) hle
    have hfirst := processPayload_first rest hA (loadTag W o) hle (beginTag rest.calls (loadTag W o) s) hpixel
    have hA' : processTag rest.calls A a o s =
        processPayload rest.calls W a (loadTag W o) (o + 16) (beginTag rest.calls (loadTag W o) s) := by
      rw [hfirst, ← htag]
      rfl
    have hW' : processTag rest.calls W (a + b) o s =
        processPayload rest.calls W a (loadTag W o) (o + 16) (beginTag rest.calls (loadTag W o) s) := hmore b
    have howed := howed (beginTag_pending _ hs)
    generalize processPayload rest.calls W a (loadTag W o) (o + 16)
      (beginTag rest.calls (loadTag W o) s) = r at hA' hW' hnext howed
    obtain ⟨s', next⟩ := r
    have hnext : next = some (o + 16 + (loadTag W o).payloadBytes) := hnext
    subst hnext
    -- the calls of the other tags are the last ones
    have hreplay := (processTag_replay A a o hs).symm.trans hA'
    have hgs : replay rest.calls s.gs (processTag recorded A a o ⟨[], 0⟩).1.gs = s'.gs :=
      congrArg (·.1.gs) hreplay
    have hcalls := tagCalls_next hroom (congrArg Prod.snd hreplay)
      ((congrArg (·.1.pendingImageBytes) hreplay).trans howed) (by omega)
    rw [hcalls] at hstops
    have hrest := hstops.after
    rw [hgs] at hrest
    have hpiece : tagLoop rest.calls A a (a - o) o s =
        tagLoop rest.calls A a (a - (o + 16 + (loadTag W o).payloadBytes))
          (o + 16 + (loadTag W o).payloadBytes) s' := by
      rw [hg, tagLoop, if_pos hroom, hA']
      exact tagLoop_fuel A a s' (by omega) (by omega)
    rw [hpiece] at hshort ⊢
    rw [tagLoop, if_pos (by omega), hW']
    exact ih (by omega) howed hrest hshort
  | @inside o hflg hfrom hto =>
    have htag := loadTag_first hA hfrom
    obtain ⟨f, rfl⟩ : ∃ f, fuel = f + 1 := ⟨fuel - 1, by omega⟩
    obtain ⟨g, hg⟩ : ∃ g, a - o = g + 1 := ⟨a - o - 1, by omega⟩
    have hmin : min ((loadTag W o).nloop * 16) (a - (o + 16)) = a - (o + 16) := by omega
    have hpiece : tagLoop rest.calls A a (g + 1) o s =
        ⟨rest.calls.processImageData A (o + 16) (a - (o + 16)) (beginTag rest.calls (loadTag W o) s).gs,
          (loadTag W o).nloop * 16 - (a - (o + 16))⟩ := by
      rw [tagLoop, if_pos hfrom]
      unfold processTag
      simp only
      rw [htag, processPayload_image A a hflg, hmin]
      by_cases howed : (loadTag W o).nloop * 16 - (a - (o + 16)) ≠ 0
      · rw [if_pos howed]
      · rw [if_neg howed]
        exact tagLoop_done _ (by omega)
    have hpixel : (beginTag rest.calls (loadTag W o) s).gs.1.StopsOnPixel (a - (o + 16)) := by
      by_cases hsome : o + 16 < a
      · have hcalls := tagCalls_image hfrom (by rw [htag]; exact hflg) (by rw [htag]; exact hto) hsome
        have hstop := hstops _ _ _ _ hcalls
        rw [htag, ← beginTag_replay _ hs] at hstop
        exact hstop
      · rw [show a - (o + 16) = 0 by omega]
        exact stopsOnPixel_zero _
    rw [hg, hpiece] at hshort ⊢
    have hdrain := drain_split rest h hA (o := o + 16) (k := a - (o + 16)) (by omega)
      (by omega : a - (o + 16) ≤ (loadTag W o).nloop * 16) (by omega : b ≤ f)
      (beginTag rest.calls (loadTag W o) s).gs hpixel (fun hall => hshort (Nat.sub_eq_zero_of_le (le_of_eq hall)))
    rw [← hdrain, tagLoop, if_pos (by omega)]
    unfold processTag
    simp only
    rw [processPayload_image W (a + b) hflg]
    by_cases howed : (loadTag W o).nloop * 16 - min ((loadTag W o).nloop * 16) (a + b - (o + 16)) ≠ 0
    · rw [if_pos howed, if_pos howed]
    · rw [if_neg howed, if_neg howed]

/-! ### Packets -/

section

variable {G : Type} {s : GifState G} (c : GsCalls G) (data : Memory)

theorem processGIFPacket_tags (size : ℕ) (howed : s.pendingImageBytes = 0) (hshort : imageUpload? data size = none) :
    processGIFPacket c data size s = tagLoop c data size (size - 0) 0 s := by
  unfold processGIFPacket
  split
  · exact (tagLoop_done s (by omega)).symm
  · have hupload : (if 0 = 0 ∧ 16 ≤ size then imageUpload? data size else none) = none := by
      rw [hshort, ite_self]
    rw [if_neg (not_not.2 howed)]
    unfold processTags
    rw [hupload]
    rfl

theorem processGIFPacket_owed (hsize : 0 < size) (howed : s.pendingImageBytes ≠ 0) :
    processGIFPacket c data size s =
      (let taken := min s.pendingImageBytes size
        let s' : GifState G := ⟨c.processImageData data 0 taken s.gs, s.pendingImageBytes - taken⟩
        if s.pendingImageBytes - taken ≠ 0 then s' else tagLoop c data size size taken s') := by
  unfold processGIFPacket
  rw [if_neg (by omega), if_pos howed]
  simp only [GifState.processImageData]
  have htaken : ¬ (min s.pendingImageBytes size = 0 ∧ 16 ≤ size) := by omega
  unfold processTags
  rw [if_neg htaken]
  split
  · split
    · rfl
    · exact (tagLoop_done _ (by omega)).symm
  · rw [if_neg (by omega)]

end

/-- **A packet in two pieces.** The cut lies within the data owed, between two tags or within the data of
an image; the first piece stops on a pixel, and neither the packet nor a piece takes the shortcut. -/
theorem processGIFPacket_split (rest : GsRest R) {W A B : Memory} {a b : ℕ} (s : GifState (ImageGs × R))
    (hA : ∀ i < a, A i = W i) (hB : ∀ i < b + 3, B i = W (a + i))
    (hcut : a ≤ s.pendingImageBytes ∨ CutAt W a s.pendingImageBytes)
    (hpixel : StopsOnPixel rest s.gs (callsOf A a s.pendingImageBytes))
    (hwhole : s.pendingImageBytes = 0 → imageUpload? W (a + b) = none)
    (hfirst : s.pendingImageBytes = 0 → imageUpload? A a = none)
    (hsecond : (processGIFPacket rest.calls A a s).pendingImageBytes = 0 → imageUpload? B b = none) :
    processGIFPacket rest.calls B b (processGIFPacket rest.calls A a s) = processGIFPacket rest.calls W (a + b) s := by
  have hW : ∀ i < b + 3, W (a + i) = B i := fun i hi => (hB i hi).symm
  by_cases howed : s.pendingImageBytes = 0
  · have hcut : CutAt W a 0 := by
      rw [howed] at hcut
      rcases hcut with hzero | hcut
      · obtain rfl : a = 0 := by omega
        exact .here
      · exact hcut
    have hcalls : callsOf A a s.pendingImageBytes = tagCalls A a 0 := by
      unfold callsOf tagCalls
      rw [howed, processGIFPacket_tags recorded A a rfl (hfirst howed)]
    have hpiece := processGIFPacket_tags rest.calls A a howed (hfirst howed)
    rw [hcalls] at hpixel
    rw [processGIFPacket_tags rest.calls W (a + b) howed (hwhole howed)]
    rw [hpiece] at hsecond ⊢
    exact (tagLoop_split hW hA hcut (by omega) howed hpixel hsecond).symm
  · by_cases hinside : a ≤ s.pendingImageBytes
    · -- the first piece is data owed
      have hpiece : processGIFPacket rest.calls A a s =
          ⟨rest.calls.processImageData A 0 a s.gs, s.pendingImageBytes - a⟩ := by
        rcases Nat.eq_zero_or_pos a with rfl | ha
        · rw [calls_image_zero]
          rfl
        · rw [processGIFPacket_owed rest.calls A ha howed]
          simp only [Nat.min_eq_right hinside]
          split
          · rfl
          · exact tagLoop_done _ (by omega)
      have hstops : s.gs.1.StopsOnPixel a := by
        rcases Nat.eq_zero_or_pos a with rfl | ha
        · exact stopsOnPixel_zero _
        · apply hpixel [] A 0 a
          unfold callsOf
          rw [processGIFPacket_owed recorded A ha howed]
          simp only [Nat.min_eq_right hinside]
          split
          · rfl
          · rw [tagLoop_done _ (by omega)]
            rfl
      have hdrain := drain_split rest hW hA (o := 0) (k := a) (Nat.zero_add a) hinside
        (Nat.le_add_left b a) s.gs hstops (fun hall => hsecond (by rw [hpiece]; exact Nat.sub_eq_zero_of_le (le_of_eq hall)))
      rw [hpiece, ← hdrain]
      rcases Nat.eq_zero_or_pos (a + b) with hnone | hsome
      · simp only [hnone, Nat.sub_zero, Nat.min_zero, calls_image_zero]
        rw [if_pos howed]
        rfl
      · simp only [Nat.sub_zero, Nat.zero_add]
        exact (processGIFPacket_owed rest.calls W hsome howed).symm
    · have hcut : CutAt W a s.pendingImageBytes := hcut.resolve_left hinside
      have hroom : s.pendingImageBytes + 16 ≤ a := by
        rcases hcut.lt_or with h | h
        · omega
        · exact h
      have hminA : min s.pendingImageBytes a = s.pendingImageBytes := by omega
      have hminW : min s.pendingImageBytes (a + b) = s.pendingImageBytes := by omega
      have himage : rest.calls.processImageData W 0 s.pendingImageBytes s.gs =
          rest.calls.processImageData A 0 s.pendingImageBytes s.gs := by
        have hdata : s.gs.1.processImageData W 0 s.pendingImageBytes =
            s.gs.1.processImageData A 0 s.pendingImageBytes := by
          apply ImageGs.processImageData_congr
          right
          intro i hi
          exact (hA _ (by omega)).symm
        exact congrArg (·, s.gs.2) hdata
      have hpiece : processGIFPacket rest.calls A a s = tagLoop rest.calls A a (a - s.pendingImageBytes)
          s.pendingImageBytes ⟨rest.calls.processImageData A 0 s.pendingImageBytes s.gs, 0⟩ := by
        have hsize : 0 < a := by omega
        rw [processGIFPacket_owed rest.calls A hsize howed]
        simp only [hminA, Nat.sub_self, ne_eq, not_true_eq_false, if_false]
        exact tagLoop_fuel A a _ (by omega) le_rfl
      have hcalls : callsOf A a s.pendingImageBytes =
          [.processImageData A 0 s.pendingImageBytes] ++ tagCalls A a s.pendingImageBytes := by
        have hmap := (append_hom [.processImageData A 0 s.pendingImageBytes]).map_tagLoop A a
          (a - s.pendingImageBytes) s.pendingImageBytes ⟨[], 0⟩
        have hfuel : tagLoop recorded A a a s.pendingImageBytes ⟨[.processImageData A 0 s.pendingImageBytes], 0⟩ =
            tagLoop recorded A a (a - s.pendingImageBytes) s.pendingImageBytes
              ⟨[.processImageData A 0 s.pendingImageBytes], 0⟩ :=
          tagLoop_fuel A a _ (Nat.sub_le _ _) le_rfl
        have howed' : (GifState.mk ([] : List GsCall) s.pendingImageBytes).pendingImageBytes ≠ 0 := howed
        have hsize : 0 < a := by omega
        unfold callsOf
        rw [processGIFPacket_owed recorded A hsize howed']
        simp only [hminA, Nat.sub_self, ne_eq, not_true_eq_false, if_false]
        exact congrArg GifState.gs (hfuel.trans hmap)
      rw [hcalls] at hpixel
      rw [hpiece] at hsecond ⊢
      have hsizeW : 0 < a + b := by omega
      rw [processGIFPacket_owed rest.calls W hsizeW howed]
      simp only [hminW, Nat.sub_self, ne_eq, not_true_eq_false, if_false, himage]
      have hrest : StopsOnPixel rest (replay rest.calls s.gs [.processImageData A 0 s.pendingImageBytes])
          (tagCalls A a s.pendingImageBytes) := hpixel.after
      have hreplay : replay rest.calls s.gs [.processImageData A 0 s.pendingImageBytes] =
          rest.calls.processImageData A 0 s.pendingImageBytes s.gs := rfl
      rw [hreplay] at hrest
      have hfuel : a + b - s.pendingImageBytes ≤ a + b := Nat.sub_le _ _
      symm
      exact tagLoop_split hW hA hcut hfuel rfl hrest hsecond

/-- Twelve bytes are whole pixels in every mode. -/
theorem stopsOnPixel_of_dvd (gs : ImageGs) (h : 12 ∣ n) : gs.StopsOnPixel n := by
  intro _ _ _ psm _
  left
  have hturn : psm.stepBytes ∣ 12 := by cases psm <;> decide
  exact hturn.trans h

def GsCall.imageSize : GsCall → ℕ
  | .processImageData _ _ size => size
  | _ => 0

end Split

/-! ### Two packets -/

/-- A GS without other registers. -/
def plainRest : GsRest Unit where
  resetQ r := r
  writeRegister _ _ r := r
  writeRegisterPacked _ _ _ r := r
  performLocalToLocalTransfer gs := gs
  behindHwreg _ := 0

/-- Twelve pixels in a row, of the mode `psm`, that an upload starts with. -/
def rowUpload (psm : BitVec 64) : GifState (ImageGs × Unit) :=
  ⟨(⟨fun _ => 0, psm <<< 56, 0, 0x000000010000000C, 0, ⟨0, 0, 12, 0⟩, [], 0⟩, ()), 0⟩

/-- A tag for four quadwords of image data, cut after the third. -/
theorem split_after_three :
    let W := memoryOf (tagBytes 4 2 ++ List.replicate 64 0xAA)
    processGIFPacket plainRest.calls (fun i => W (64 + i)) 16 (processGIFPacket plainRest.calls W 64 (rowUpload 1)) =
      processGIFPacket plainRest.calls W (64 + 16) (rowUpload 1) := by
  intro W
  have hcut : CutAt W 64 0 := .inside (by decide) (by decide) (by decide)
  apply processGIFPacket_split plainRest (rowUpload 1) (fun _ _ => rfl) (fun _ _ => rfl) (.inr hcut)
  · intro before data o n hcalls
    have hsize : (callsOf W 64 0).getLast?.map GsCall.imageSize = some 48 := by decide
    have hlast := congrArg (fun calls => calls.getLast?.map GsCall.imageSize) hcalls
    simp only [List.getLast?_append, List.getLast?_singleton, Option.some_or, Option.map_some] at hlast
    have hn : some 48 = some n := hsize.symm.trans hlast
    obtain rfl := Option.some.inj hn
    exact stopsOnPixel_of_dvd _ (by decide)
  · intro _
    decide
  · intro _
    decide
  · intro _
    decide

/-- Two quadwords of image data with 24 bits a pixel, cut between them: the pixel on the cut is counted
twice. -/
theorem split_on_pixel :
    let W := memoryOf (tagBytes 2 2 ++ List.replicate 32 0xAA)
    GifStream (slice W 0 48) ∧ CutAt W 32 0 ∧
      processGIFPacket plainRest.calls (fun i => W (32 + i)) 16 (processGIFPacket plainRest.calls W 32 (rowUpload 1)) ≠
        processGIFPacket plainRest.calls W 48 (rowUpload 1) := by
  intro W
  refine ⟨.tag (tagBytes 2 2) (List.replicate 32 0xAA) [] rfl (by decide) .nil,
    .inside (by decide) (by decide) (by decide), fun h => ?_⟩
  have hcount := congrArg (fun s => s.gs.1.transferState.copiedPixels) h
  revert hcount
  decide

end Ps2Recomp.Gif
