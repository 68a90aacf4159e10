import Ps2Recomp.Proof.PacketSplit
import Ps2Recomp.Spec.Xgkick

/-!
# XGKICK and GIF packets

XGKICK and the GS compute the sizes of tags apart. `pktSize_eq` says that they agree; so the bytes that
XGKICK submits are the tags up to the first with EOP, and the GS goes through the same tags and to the end of
them (`doXgkick_framed`).
-/

namespace Ps2Recomp.Vu

open Bytes Gif

/-- `PS2_VU1_DATA_SIZE` -/
def vu1DataSize : Word := 0x4000

/-! ### The tags of a stream -/

section Tags

variable (S : Memory)

/-- Where a tag begins, each behind the data of the one before it. -/
def tagOffset : ℕ → ℕ
  | 0 => 0
  | n + 1 => tagOffset n + 16 + (loadTag S (tagOffset n)).payloadBytes

def tagAt (n : ℕ) : GifTag := loadTag S (tagOffset S n)

/-- The last of a packet. -/
def eop (tag : GifTag) : Bool := (tag.lo >>> 15) &&& 1 != 0

variable {S}

section

variable (tag : GifTag)

theorem nloop_lt : tag.nloop < 2 ^ 15 := by
  rw [GifTag.nloop, BitVec.toNat_and]
  exact Nat.lt_of_le_of_lt Nat.and_le_right (by decide)

theorem nreg_le : tag.nreg ≤ 16 := by
  have hfield : ((tag.lo >>> 60) &&& 0xF).toNat ≤ 15 := by
    rw [BitVec.toNat_and]
    exact Nat.and_le_right
  unfold GifTag.nreg
  simp only
  split <;> omega

theorem descriptors_le : tag.nloop * tag.nreg ≤ 32767 * 16 :=
  Nat.mul_le_mul (Nat.le_of_lt_succ (nloop_lt tag)) (nreg_le tag)

theorem payloadBytes_le : tag.payloadBytes ≤ 8388352 := by
  have hregs := descriptors_le tag
  have hloop := nloop_lt tag
  unfold GifTag.payloadBytes
  split <;> omega

end

theorem tagOffset_le (n : ℕ) : tagOffset S n ≤ n * 8388368 := by
  induction n with
  | zero => exact Nat.le_refl 0
  | succ n ih =>
    have hdata := payloadBytes_le (tagAt S n)
    rw [tagAt] at hdata
    rw [tagOffset]
    omega

theorem tagOffset_next (n : ℕ) : tagOffset S n + 16 ≤ tagOffset S (n + 1) := Nat.le_add_right _ _

theorem tagOffset_mono {m n : ℕ} (h : m ≤ n) : tagOffset S m ≤ tagOffset S n := by
  induction h with
  | refl => exact Nat.le_refl _
  | step _ ih => exact ih.trans ((Nat.le_add_right _ 16).trans (tagOffset_next _))

/-- **Both compute the same size**, and XGKICK without overflow. -/
theorem pktSize_eq (tag : GifTag) : (pktSize tag.lo).toNat = 16 + tag.payloadBytes := by
  have hloop := nloop_lt tag
  have hregs := descriptors_le tag
  have hnloop : ((tag.lo &&& 0x7FFF).setWidth 32).toNat = tag.nloop := by
    rw [BitVec.toNat_setWidth]
    exact Nat.mod_eq_of_lt (Nat.lt_trans hloop (by decide))
  have hfield : ((tag.lo >>> 60) &&& 0xF).toNat < 16 := by
    rw [BitVec.toNat_and]
    exact Nat.lt_succ_of_le Nat.and_le_right
  have hnreg : (if (((tag.lo >>> 60) &&& 0xF).setWidth 32 : Word) = 0 then 16
      else ((tag.lo >>> 60) &&& 0xF).setWidth 32 : Word).toNat = tag.nreg := by
    unfold GifTag.nreg
    generalize (tag.lo >>> 60) &&& 0xF = field at hfield ⊢
    have hword : (field.setWidth 32 : Word).toNat = field.toNat := by
      rw [BitVec.toNat_setWidth]
      exact Nat.mod_eq_of_lt (Nat.lt_trans hfield (by decide))
    have hzero : (field.setWidth 32 : Word) = 0 ↔ field.toNat = 0 := by
      rw [BitVec.toNat_eq, hword]
      rfl
    by_cases h0 : field.toNat = 0
    · rw [if_pos (hzero.2 h0), if_pos h0]
      rfl
    · rw [if_neg (mt hzero.1 h0), if_neg h0, hword]
  unfold pktSize GifTag.payloadBytes GifTag.flg
  simp only
  generalize (if (((tag.lo >>> 60) &&& 0xF).setWidth 32 : Word) = 0 then 16
      else ((tag.lo >>> 60) &&& 0xF).setWidth 32 : Word) = nreg at hnreg ⊢
  generalize ((tag.lo &&& 0x7FFF).setWidth 32 : Word) = nloop at hnloop ⊢
  have hmul : (nloop * nreg).toNat = tag.nloop * tag.nreg := by
    rw [BitVec.toNat_mul, hnloop, hnreg]
    exact Nat.mod_eq_of_lt (by omega)
  generalize nloop * nreg = regs at hmul ⊢
  generalize tag.nloop * tag.nreg = n at hregs hmul ⊢
  generalize ((tag.lo >>> 58) &&& 0x3).toNat = flg
  obtain _ | _ | _ | flg := flg
  · simp only [BitVec.toNat_add, BitVec.toNat_mul, hmul]
    change (16 + n * 16 % 2 ^ 32) % 2 ^ 32 = _
    omega
  · have hodd : regs &&& 1 ≠ 0 ↔ n % 2 = 1 := by
      rw [ne_eq, BitVec.toNat_eq, BitVec.toNat_and, hmul]
      change ¬n &&& 1 = 0 ↔ _
      rw [Nat.and_one_is_mod]
      omega
    by_cases h1 : n % 2 = 1
    · rw [if_pos (hodd.2 h1)]
      simp only [BitVec.toNat_add, BitVec.toNat_mul, hmul]
      change ((16 + n * 8 % 2 ^ 32) % 2 ^ 32 + 8) % 2 ^ 32 = _
      omega
    · rw [if_neg (mt hodd.1 h1)]
      simp only [BitVec.toNat_add, BitVec.toNat_mul, hmul]
      change (16 + n * 8 % 2 ^ 32) % 2 ^ 32 = _
      omega
  · simp only [BitVec.toNat_add, BitVec.toNat_mul, hnloop]
    change (16 + tag.nloop * 16 % 2 ^ 32) % 2 ^ 32 = _
    omega
  · rfl

end Tags

/-! ### The walk of XGKICK -/

section Walk

variable (vuData : Memory) (vi : Word)

/-- What is read from the start address on. -/
def stream : Memory := fun i => vuData (((kickAddr vu1DataSize vi).toNat + i) % 0x4000)

/-- The first state of the loop. -/
def kickStart : Kick := ⟨kickAddr vu1DataSize vi, 0, false⟩

/-- The loop stands in front of a tag. -/
structure Kick.At (k : Kick) (n : ℕ) : Prop where
  off : k.pktOff.toNat = ((kickAddr vu1DataSize vi).toNat + tagOffset (stream vuData vi) n) % 0x4000
  total : k.totalBytes.toNat = tagOffset (stream vuData vi) n

/-- The sums and products of a turn of the loop fit into 32 bits. -/
structure Kick.Fits (k : Kick) : Prop where
  read : k.pktOff.toNat + 7 < 2 ^ 32
  size : ∀ tag : GifTag, tag.lo = read64Wrap vuData vu1DataSize k.pktOff → 16 + tag.nloop * tag.nreg * 16 + 8 < 2 ^ 32
  total : k.totalBytes.toNat + (pktSize (read64Wrap vuData vu1DataSize k.pktOff)).toNat < 2 ^ 32
  next : k.pktOff.toNat + (pktSize (read64Wrap vuData vu1DataSize k.pktOff)).toNat < 2 ^ 32

/-- The tags that the loop goes over, if it may go over `bound`: it stops behind the first with EOP. -/
structure Taken (S : Memory) (bound m : ℕ) : Prop where
  le : m ≤ bound
  before : ∀ j, j + 1 < m → eop (tagAt S j) = false
  last : m < bound → ∃ j, m = j + 1 ∧ eop (tagAt S j) = true

variable {vuData vi} {k : Kick} {n m : ℕ}

theorem toNat_wrapOffset (off : Word) : (wrapOffset vu1DataSize off).toNat = off.toNat % 0x4000 := rfl

theorem kickAddr_lt (vi : Word) : (kickAddr vu1DataSize vi).toNat < 0x4000 := Nat.mod_lt _ (by decide)

section

variable (h : k.At vuData vi n)

include h

theorem Kick.At.read : read64Wrap vuData vu1DataSize k.pktOff = (tagAt (stream vuData vi) n).lo := by
  have hload : load (fun i => wrappedByte vuData vu1DataSize (k.pktOff + .ofNat 32 i)) 0 8 =
      load (stream vuData vi) (tagOffset (stream vuData vi) n) 8 := by
    apply load_moved
    intro i hi
    have hoff := h.off
    rw [wrappedByte, toNat_wrapOffset, BitVec.toNat_add, BitVec.toNat_ofNat, stream]
    congr 1
    omega
  rw [read64Wrap, loadLE64, hload]
  rfl

theorem Kick.At.size :
    (pktSize (read64Wrap vuData vu1DataSize k.pktOff)).toNat = 16 + (tagAt (stream vuData vi) n).payloadBytes := by
  rw [h.read, pktSize_eq]

theorem Kick.At.fits (hn : n < 256) : k.Fits vuData := by
  have hbytes := payloadBytes_le (tagAt (stream vuData vi) n)
  have hle := tagOffset_le (S := stream vuData vi) n
  have hoff := h.off
  refine ⟨by omega, fun tag _ => ?_, ?_, ?_⟩
  · have := descriptors_le tag
    omega
  · rw [h.total, h.size]
    omega
  · rw [h.size]
    omega

theorem kickLoop_turn (hn : n < 256) (hgo : k.done = false) (safety : ℕ) :
    ∃ k' : Kick, k'.At vuData vi (n + 1) ∧ k'.done = eop (tagAt (stream vuData vi) n) ∧
      kickLoop vuData vu1DataSize (safety + 1) k = kickLoop vuData vu1DataSize safety k' := by
  have hfits := h.fits hn
  have hsize := h.size
  have hpos : pktSize (read64Wrap vuData vu1DataSize k.pktOff) ≠ 0 := by
    intro h0
    rw [h0] at hsize
    change 0 = _ at hsize
    omega
  refine ⟨⟨wrapOffset vu1DataSize (k.pktOff + pktSize (read64Wrap vuData vu1DataSize k.pktOff)),
    k.totalBytes + pktSize (read64Wrap vuData vu1DataSize k.pktOff), eop (tagAt (stream vuData vi) n)⟩, ⟨?_, ?_⟩, rfl, ?_⟩
  · have hnext := hfits.next
    have hoff := h.off
    rw [toNat_wrapOffset, BitVec.toNat_add, Nat.mod_eq_of_lt hnext, hsize]
    change _ = (_ + (tagOffset (stream vuData vi) n + 16 + (tagAt (stream vuData vi) n).payloadBytes)) % _
    omega
  · have htotal := hfits.total
    change (k.totalBytes + _).toNat = tagOffset (stream vuData vi) n + 16 + (tagAt (stream vuData vi) n).payloadBytes
    rw [BitVec.toNat_add, Nat.mod_eq_of_lt htotal, hsize, h.total]
    omega
  · rw [h.read] at hpos
    rw [kickLoop, hgo]
    simp only [Bool.false_eq_true, if_false, if_neg hpos, h.read, eop]

end

/-- **The loop goes over the tags up to the first with EOP.** -/
theorem kickLoop_taken (safety : ℕ) : ∀ {k : Kick} {n : ℕ}, k.At vuData vi n → n + safety ≤ 256 → k.done = false →
    (∀ j < n, eop (tagAt (stream vuData vi) j) = false) →
      ∃ m, Taken (stream vuData vi) (n + safety) m ∧ (kickLoop vuData vu1DataSize safety k).At vuData vi m := by
  induction safety with
  | zero =>
    intro k n h _ _ hbefore
    exact ⟨n, ⟨Nat.le_refl n, fun j hj => hbefore j (by omega), fun hno => absurd hno (Nat.lt_irrefl n)⟩, h⟩
  | succ safety ih =>
    intro k n h hbound hgo hbefore
    obtain ⟨k', hat, hdone, hturn⟩ := kickLoop_turn h (by omega) hgo safety
    rw [hturn]
    cases heop : eop (tagAt (stream vuData vi) n) with
    | true =>
      have hstop : kickLoop vuData vu1DataSize safety k' = k' := by
        cases safety with
        | zero => rfl
        | succ safety => rw [kickLoop, hdone, heop, if_pos rfl]
      rw [hstop]
      exact ⟨n + 1, ⟨by omega, fun j hj => hbefore j (by omega), fun _ => ⟨n, rfl, heop⟩⟩, hat⟩
    | false =>
      rw [heop] at hdone
      obtain ⟨m, htaken, hm⟩ := ih hat (by omega) hdone fun j hj => by
        rcases Nat.lt_or_eq_of_le (Nat.le_of_lt_succ hj) with hlt | rfl
        · exact hbefore j hlt
        · exact heop
      rw [Nat.succ_add_eq_add_succ] at htaken
      exact ⟨m, htaken, hm⟩

theorem kickLoop_at (hn : n ≤ 256) : ∃ m, Taken (stream vuData vi) n m ∧
    (kickLoop vuData vu1DataSize n (kickStart vi)).At vuData vi m := by
  have hstart : (kickStart vi).At vuData vi 0 := ⟨(Nat.mod_eq_of_lt (kickAddr_lt vi)).symm, rfl⟩
  obtain ⟨m, htaken, hm⟩ := kickLoop_taken n hstart (by omega) rfl fun j hj => absurd hj (Nat.not_lt_zero j)
  rw [Nat.zero_add] at htaken
  exact ⟨m, htaken, hm⟩

/-- **What is submitted** are the tags that the loop has gone over. -/
theorem submitted_eq (h : Taken (stream vuData vi) 256 m) (hat : (kick vuData vu1DataSize vi).At vuData vi m) :
    submitted vuData vu1DataSize vi = some ((List.range (tagOffset (stream vuData vi) m)).map (stream vuData vi)) := by
  have hle := tagOffset_le (S := stream vuData vi) m
  have hm := h.le
  have haddr := kickAddr_lt vi
  have hpos : 0 < m := by
    by_contra h0
    obtain ⟨j, hj, -⟩ := h.last (by omega)
    omega
  have htotal := hat.total
  have hnz : (kick vuData vu1DataSize vi).totalBytes ≠ 0 := by
    intro h0
    have hnext : tagOffset (stream vuData vi) (0 + 1) ≤ tagOffset (stream vuData vi) m := tagOffset_mono hpos
    have hfirst := tagOffset_next (S := stream vuData vi) 0
    rw [h0] at htotal
    change 0 = _ at htotal
    omega
  have hsum : (kickAddr vu1DataSize vi + (kick vuData vu1DataSize vi).totalBytes).toNat =
      (kickAddr vu1DataSize vi).toNat + tagOffset (stream vuData vi) m := by
    rw [BitVec.toNat_add, htotal]
    exact Nat.mod_eq_of_lt (by omega)
  unfold submitted
  rw [if_neg (by decide)]
  simp only [if_neg hnz, htotal]
  split
  · next hdirect =>
    rw [BitVec.le_def, hsum] at hdirect
    change _ ≤ 0x4000 at hdirect
    refine congrArg some (List.map_congr_left fun i hi => ?_)
    rw [List.mem_range] at hi
    rw [stream, Nat.mod_eq_of_lt (by omega)]
  · refine congrArg some (List.map_congr_left fun i hi => ?_)
    rw [List.mem_range] at hi
    rw [wrappedByte, toNat_wrapOffset, BitVec.toNat_add, BitVec.toNat_ofNat, stream]
    congr 1
    omega

end Walk

/-! ### The walk of the GS -/

section Packet

variable {G : Type} {c : GsCalls G} {S data : Memory} {k : ℕ}

/-- The GS stands at the offsets of a list one after the other and takes each tag whole, from one state to
another. -/
inductive Walks (c : GsCalls G) (data : Memory) (size : ℕ) : List ℕ → GifState G → GifState G → Prop
  | stop {o : ℕ} {s : GifState G} : size < o + 16 → Walks c data size [o] s s
  | tag {o next : ℕ} {os : List ℕ} {s s' s'' : GifState G} :
    o + 16 ≤ size → processTag c data size o s = (s', some next) → Walks c data size (next :: os) s' s'' →
      Walks c data size (o :: next :: os) s s''

theorem Walks.tagLoop_eq {size o : ℕ} {os : List ℕ} {s s'' : GifState G} (h : Walks c data size (o :: os) s s'') :
    tagLoop c data size (size - o) o s = s'' := by
  generalize hl : o :: os = l at h
  induction h generalizing o os with
  | stop hsize =>
    obtain ⟨rfl, -⟩ := List.cons.inj hl
    exact tagLoop_done _ hsize
  | @tag o' next os' s s' s'' hsize htag _ ih =>
    obtain ⟨rfl, -⟩ := List.cons.inj hl
    have hnext : o + 16 ≤ next :=
      processPayload_next (c := c) data size (loadTag data o) (o + 16) (beginTag c (loadTag data o) s)
        (congrArg Prod.snd htag)
    obtain ⟨fuel, hfuel⟩ : ∃ fuel, size - o = fuel + 1 := ⟨size - o - 1, by omega⟩
    rw [hfuel, tagLoop, if_pos hsize, htag, ← ih rfl]
    exact tagLoop_fuel data size s' (by omega) (Nat.le_refl _)

variable (hdata : ∀ i < tagOffset S (k + 1), data i = S i)

include hdata

theorem loadTag_data {i : ℕ} (hi : i ≤ k) : loadTag data (tagOffset S i) = tagAt S i := by
  have hnext := tagOffset_next (S := S) i
  have hlast : tagOffset S (i + 1) ≤ tagOffset S (k + 1) := tagOffset_mono (Nat.succ_le_succ hi)
  exact loadTag_first hdata (hnext.trans hlast)

theorem walks_from (n : ℕ) : ∀ {i : ℕ} {s : GifState G}, i + n = k + 1 → s.pendingImageBytes = 0 → ∃ s',
    Walks c data (tagOffset S (k + 1)) ((List.range' i (n + 1)).map (tagOffset S)) s s' ∧ s'.pendingImageBytes = 0 := by
  induction n with
  | zero =>
    intro i s hi howed
    obtain rfl : i = k + 1 := by omega
    exact ⟨s, .stop (by omega), howed⟩
  | succ n ih =>
    intro i s hi howed
    have hnext := tagOffset_next (S := S) i
    have hlast : tagOffset S (i + 1) ≤ tagOffset S (k + 1) := tagOffset_mono (by omega)
    have htag := loadTag_data hdata (show i ≤ k by omega)
    obtain ⟨hoff, hnone, -⟩ := processPayload_whole (c := c) data (tagAt S i) (beginTag c (tagAt S i) s) (show
      tagOffset S i + 16 + (tagAt S i).payloadBytes ≤ tagOffset S (k + 1) from hlast)
    have hprocess : processTag c data (tagOffset S (k + 1)) (tagOffset S i) s =
        ((processTag c data (tagOffset S (k + 1)) (tagOffset S i) s).1, some (tagOffset S (i + 1))) := by
      refine Prod.ext rfl ?_
      rw [processTag, htag]
      exact hoff
    obtain ⟨s', hwalks, howed'⟩ := ih (i := i + 1) (s := (processTag c data (tagOffset S (k + 1)) (tagOffset S i) s).1)
      (by omega) (by
        rw [processTag, htag]
        exact hnone (beginTag_pending _ howed))
    rw [List.range'_succ, List.range'_succ, List.map_cons, List.map_cons]
    rw [List.range'_succ, List.map_cons] at hwalks
    exact ⟨s', .tag (by omega) hprocess hwalks, howed'⟩

/-- The shortcut takes packets of two tags. -/
theorem upload_offsets {upload : ImageUpload} (h : imageUpload? data (tagOffset S (k + 1)) = some upload) :
    (List.range (k + 2)).map (tagOffset S) = [0, 80, tagOffset S (k + 1)] ∧
      96 + upload.imageBytes = tagOffset S (k + 1) := by
  have hfirst : (loadTag data 0).payloadBytes = 64 ∧ (loadTag data 80).payloadBytes = upload.imageBytes ∧
      96 ≤ tagOffset S (k + 1) ∧ 96 + upload.imageBytes = tagOffset S (k + 1) := by
    unfold imageUpload? at h
    simp only [Option.ite_none_left_eq_some, Option.some.injEq] at h
    obtain ⟨hsize, hsetup, -, -, himage, hend, rfl⟩ := h
    push Not at hsetup himage
    refine ⟨?_, ?_, by omega, not_not.1 hend⟩
    · rw [GifTag.payloadBytes, hsetup.2.1, hsetup.1, hsetup.2.2.1]
    · rw [GifTag.payloadBytes, himage.1]
  obtain ⟨hsetup, himage, hsize, hend⟩ := hfirst
  have hone : tagOffset S 1 = 80 := by
    have htag := loadTag_data hdata (Nat.zero_le k)
    rw [show tagOffset S 0 = 0 from rfl] at htag
    change 0 + 16 + (tagAt S 0).payloadBytes = 80
    rw [← htag, hsetup]
  have hk : 1 ≤ k := by
    by_contra h0
    obtain rfl : k = 0 := by omega
    rw [Nat.zero_add, hone] at hsize
    omega
  have htwo : tagOffset S 2 = tagOffset S (k + 1) := by
    have htag := loadTag_data hdata hk
    rw [hone] at htag
    change tagOffset S 1 + 16 + (tagAt S 1).payloadBytes = _
    rw [← htag, himage, hone]
    omega
  obtain rfl : k = 1 := by
    by_contra hne
    have hnext := tagOffset_next (S := S) 2
    have hlast : tagOffset S (2 + 1) ≤ tagOffset S (k + 1) := tagOffset_mono (by omega)
    omega
  refine ⟨?_, hend⟩
  change [tagOffset S 0, tagOffset S 1, tagOffset S 2] = _
  rw [hone]
  rfl

omit hdata in
theorem processGIFPacket_upload (c : GsCalls G) (gs : G) {size : ℕ} {upload : ImageUpload}
    (h : imageUpload? data size = some upload) (hsize : 16 ≤ size) :
    processGIFPacket c data size ⟨gs, 0⟩ = uploadImageNative c upload data 96 ⟨gs, 0⟩ := by
  have hupload : (if 0 = 0 ∧ 16 ≤ size then imageUpload? data size else none) = some upload := by
    rw [if_pos ⟨rfl, hsize⟩, h]
  unfold processGIFPacket processTags
  rw [if_neg (by omega), if_neg (by simp), hupload]

omit hdata in
theorem uploadImageNative_pending (c : GsCalls G) (upload : ImageUpload) (s : GifState G) :
    (uploadImageNative c upload data 96 s).pendingImageBytes = 0 := by
  unfold uploadImageNative GifState.processImageData
  simp only
  rw [GifState.writeRegister, if_pos rfl]

end Packet

/-- **XGKICK submits a packet that the GS takes tag by tag.** For every memory the walk ends behind the first tag
with EOP, or after 256 tags, and nothing overflows. If a tag has EOP, the bytes are those of the tags up to
it, from the start address on and around the end of memory. A GS that is owed no data goes through the same
tags, the last up to the end of the packet; where it takes the shortcut, these are two. -/
theorem doXgkick_framed (instr : Word) (x : Machine) :
    let vi := x.state.vi (visOf instr)
    let S := stream x.vuData vi
    (∀ n < 256, (kickLoop x.vuData vu1DataSize n (kickStart vi)).Fits x.vuData) ∧
      (∃ m, Taken S 256 m ∧ (kickAddr vu1DataSize vi).toNat + tagOffset S m < 2 ^ 32 ∧
        doXgkick vu1DataSize instr x = some ((List.range (tagOffset S m)).map S)) ∧
      ∀ k < 256, eop (tagAt S k) = true → (∀ j < k, eop (tagAt S j) = false) →
        doXgkick vu1DataSize instr x = some ((List.range (tagOffset S (k + 1))).map S) ∧
          ∀ {G : Type} (c : GsCalls G) (gs : G) (data : Memory), (∀ i < tagOffset S (k + 1), data i = S i) →
            (processGIFPacket c data (tagOffset S (k + 1)) ⟨gs, 0⟩).pendingImageBytes = 0 ∧
              match imageUpload? data (tagOffset S (k + 1)) with
              | none => Walks c data (tagOffset S (k + 1)) ((List.range (k + 2)).map (tagOffset S)) ⟨gs, 0⟩
                  (processGIFPacket c data (tagOffset S (k + 1)) ⟨gs, 0⟩)
              | some upload => (List.range (k + 2)).map (tagOffset S) = [0, 80, tagOffset S (k + 1)] ∧
                  96 + upload.imageBytes = tagOffset S (k + 1) ∧
                  processGIFPacket c data (tagOffset S (k + 1)) ⟨gs, 0⟩ =
                    uploadImageNative c upload data 96 ⟨gs, 0⟩ := by
  intro vi S
  obtain ⟨m, htaken, hat⟩ : ∃ m, Taken S 256 m ∧ (kick x.vuData vu1DataSize vi).At x.vuData vi m :=
    kickLoop_at (Nat.le_refl 256)
  have hsubmitted : doXgkick vu1DataSize instr x = some ((List.range (tagOffset S m)).map S) := submitted_eq htaken hat
  refine ⟨fun n hn => ?_, ⟨m, htaken, ?_, hsubmitted⟩, fun k hk heop hbefore => ?_⟩
  · obtain ⟨m', htaken', hat'⟩ : ∃ m, Taken S n m ∧ (kickLoop x.vuData vu1DataSize n (kickStart vi)).At x.vuData vi m :=
      kickLoop_at (Nat.le_of_lt hn)
    exact hat'.fits (Nat.lt_of_le_of_lt htaken'.le hn)
  · have hle := tagOffset_le (S := S) m
    have hm := htaken.le
    have haddr := kickAddr_lt vi
    omega
  · obtain rfl : m = k + 1 := by
      have hnot : ¬k + 1 < m := fun hlt => by
        rw [htaken.before k hlt] at heop
        cases heop
      by_contra hne
      obtain ⟨j, hj, hlast⟩ := htaken.last (by omega)
      rw [hbefore j (by omega)] at hlast
      cases hlast
    refine ⟨hsubmitted, fun c gs data hdata => ?_⟩
    cases hupload : imageUpload? data (tagOffset S (k + 1)) with
    | none =>
      obtain ⟨s', hwalks, howed⟩ := walks_from (c := c) hdata (k + 1) (i := 0) (s := ⟨gs, 0⟩) (by omega) rfl
      have hresult : processGIFPacket c data (tagOffset S (k + 1)) ⟨gs, 0⟩ = s' := by
        rw [processGIFPacket_tags c data _ rfl hupload]
        rw [List.range'_succ, List.map_cons] at hwalks
        exact hwalks.tagLoop_eq
      rw [hresult, List.range_eq_range']
      exact ⟨howed, hwalks⟩
    | some upload =>
      obtain ⟨hoffsets, hend⟩ := upload_offsets hdata hupload
      have hresult := processGIFPacket_upload c gs hupload (by omega)
      refine ⟨?_, hoffsets, hend, hresult⟩
      rw [hresult]
      exact uploadImageNative_pending c upload _

end Ps2Recomp.Vu
