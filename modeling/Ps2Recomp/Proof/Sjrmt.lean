import Ps2Recomp.Lib.Ring
import Ps2Recomp.Proof.SifRpc
import Ps2Recomp.Spec.Sjrmt

/-!
# The ring of a stream joint

The two positions and the two counts are read as four running counts of bytes: returned as room, taken as
data, put as data and handed out as room, each at most the next and the last at most a turn before the
first. `Inv` says so, and where the chunks and the bytes of data lie.
-/

namespace Ps2Recomp.Sjrmt

open VSync SifRpc
open GuestHeap (stdMin stdMin_toNat)

/-! ### Places -/

/-- The chunk `c` begins at the running count `a` and does not go beyond the end of the ring. -/
def At (wkAddr : Word) (cap : ℕ) (c : Chunk) (a : ℕ) : Prop :=
  c.ptr = wkAddr + BitVec.ofNat 32 (a % cap) ∧ a % cap + c.len.toNat ≤ cap

/-- Chunks that follow one another from the running count `a` on. -/
def Laid (wkAddr : Word) (cap : ℕ) : ℕ → List Chunk → Prop
  | _, [] => True
  | a, c :: l => At wkAddr cap c a ∧ Laid wkAddr cap (a + c.len.toNat) l

variable {wk : Word} {cap a b : ℕ} {c c' : Chunk} {l l' : List Chunk}

@[simp] theorem size_nil : size [] = 0 := rfl

@[simp] theorem size_cons : size (c :: l) = c.len.toNat + size l := rfl

@[simp] theorem size_append : size (l ++ l') = size l + size l' := by
  rw [size, List.map_append, List.sum_append]
  rfl

theorem laid_append : Laid wk cap a (l ++ l') ↔ Laid wk cap a l ∧ Laid wk cap (a + size l) l' := by
  induction l generalizing a with
  | nil => simp [Laid]
  | cons c l ih => simp only [List.cons_append, Laid, ih, size_cons, and_assoc, Nat.add_assoc]

theorem laid_concat : Laid wk cap a (l ++ [c]) ↔ Laid wk cap a l ∧ At wk cap c (a + size l) := by
  rw [laid_append]
  simp [Laid]

theorem Laid.mem (h : Laid wk cap a l) (hc : c ∈ l) : ∃ b, At wk cap c b ∧ a ≤ b ∧ b + c.len.toNat ≤ a + size l := by
  obtain ⟨l1, l2, rfl⟩ := List.append_of_mem hc
  obtain ⟨-, hat, -⟩ := laid_append.1 h
  refine ⟨a + size l1, hat, by omega, ?_⟩
  rw [size_append, size_cons]
  omega

section

variable {i : ℕ} (h : At wk cap c a) (hi : i < c.len.toNat)

include h hi

theorem At.mod : a % cap + i = (a + i) % cap := by
  have hlt : a % cap + i < cap := by
    have := h.2
    omega
  rw [← Nat.mod_eq_of_lt hlt, Nat.mod_add_mod]

theorem At.addr : c.ptr + BitVec.ofNat 32 i = wk + BitVec.ofNat 32 ((a + i) % cap) := by
  rw [h.1, ← h.mod hi, BitVec.ofNat_add, BitVec.add_assoc]

end

theorem mod_ne (h : a < b) (h' : b < a + cap) : a % cap ≠ b % cap := by
  intro heq
  have hdvd : cap ∣ b - a := (Nat.modEq_iff_dvd' h.le).1 heq
  have := Nat.le_of_dvd (by omega) hdvd
  omega

theorem addr_inj {i j : ℕ} (hcap : cap ≤ 2 ^ 24) (hi : i < cap) (hj : j < cap)
    (h : wk + BitVec.ofNat 32 i = wk + BitVec.ofNat 32 j) : i = j := by
  have h' : (BitVec.ofNat 32 i).toNat = (BitVec.ofNat 32 j).toNat := by
    bv_omega
  rwa [BitVec.toNat_ofNat, BitVec.toNat_ofNat, Nat.mod_eq_of_lt (by omega), Nat.mod_eq_of_lt (by omega)] at h'

theorem At.apart (hcap : cap ≤ 2 ^ 24) (h : At wk cap c a) (h' : At wk cap c' b)
    (hab : a + c.len.toNat ≤ b) (hturn : b + c'.len.toNat ≤ a + cap) : c.Apart c' := by
  intro i hi j hj heq
  rw [h.addr hi, h'.addr hj] at heq
  have hpos : 0 < cap := by
    have := h.2
    omega
  have hmod := addr_inj hcap (Nat.mod_lt _ hpos) (Nat.mod_lt _ hpos) heq
  exact mod_ne (by omega) (by omega) hmod

theorem Chunk.Apart.symm (h : c.Apart c') : c'.Apart c := fun i hi j hj heq => h j hj i hi heq.symm

theorem Laid.pairwise (hcap : cap ≤ 2 ^ 24) (h : Laid wk cap a l) (hturn : size l ≤ cap) : l.Pairwise Chunk.Apart := by
  induction l generalizing a with
  | nil => exact .nil
  | cons c l ih =>
    rw [size_cons] at hturn
    refine List.pairwise_cons.2 ⟨fun c' hc' => ?_, ih h.2 (by omega)⟩
    obtain ⟨b, hb, hab, hend⟩ := h.2.mem hc'
    exact h.1.apart hcap hb hab (by omega)

/-! ### Invariant -/

/-- The count of bytes returned as room. -/
def Ledger.freed (l : Ledger) : ℕ := l.taken.length - size l.datas

/-- The count of bytes handed out as room. -/
def Ledger.handed (l : Ledger) : ℕ := l.put.length + size l.rooms

structure Inv (spr : Bool) (s : State) : Prop where
  cap_pos : 0 < s.sj.wkSize.toNat
  cap_le : s.sj.wkSize.toNat ≤ 2 ^ 24
  mapped : Mapped spr s.sj.wkAddr s.sj.wkSize
  datas_le : size s.ledger.datas ≤ s.ledger.taken.length
  turn : s.ledger.handed ≤ s.ledger.freed + s.sj.wkSize.toNat
  writePos : s.sj.writePos.toNat = s.ledger.handed % s.sj.wkSize.toNat
  readPos : s.sj.readPos.toNat = s.ledger.taken.length % s.sj.wkSize.toNat
  room : s.sj.roomBytes.toNat + s.ledger.handed = s.ledger.freed + s.sj.wkSize.toNat
  data : s.sj.dataBytes.toNat + s.ledger.taken.length = s.ledger.put.length
  rooms : Laid s.sj.wkAddr s.sj.wkSize.toNat s.ledger.put.length s.ledger.rooms
  datas : Laid s.sj.wkAddr s.sj.wkSize.toNat s.ledger.freed s.ledger.datas
  content : ∀ i, s.ledger.freed ≤ i → i < s.ledger.put.length →
    s.ledger.put[i]? = some (byteAt spr s.memory (s.sj.wkAddr + BitVec.ofNat 32 (i % s.sj.wkSize.toNat)))
  inOrder : s.ledger.taken <+: s.ledger.put

variable {spr : Bool} {s : State}

theorem Inv.conserved (h : Inv spr s) : Conserved s := by
  have hroom := h.room
  have hdata := h.data
  have hturn := h.turn
  have hle := h.datas_le
  have hfreed : s.ledger.freed = s.ledger.taken.length - size s.ledger.datas := rfl
  have hhanded : s.ledger.handed = s.ledger.put.length + size s.ledger.rooms := rfl
  refine ⟨by omega, fun c hc => ?_, ?_, h.inOrder⟩
  · obtain ⟨b, hb⟩ : ∃ b, At s.sj.wkAddr s.sj.wkSize.toNat c b := by
      obtain hc | hc := List.mem_append.1 hc
      · obtain ⟨b, hb, -⟩ := h.rooms.mem hc
        exact ⟨b, hb⟩
      · obtain ⟨b, hb, -⟩ := h.datas.mem hc
        exact ⟨b, hb⟩
    have hmod : b % s.sj.wkSize.toNat < s.sj.wkSize.toNat := Nat.mod_lt _ h.cap_pos
    have hoffset : (c.ptr - s.sj.wkAddr).toNat = b % s.sj.wkSize.toNat := by
      have hcancel : c.ptr - s.sj.wkAddr = BitVec.ofNat 32 (b % s.sj.wkSize.toNat) := by
        rw [hb.1, BitVec.add_comm, BitVec.add_sub_cancel]
      have hcap := h.cap_le
      rw [hcancel, BitVec.toNat_ofNat, Nat.mod_eq_of_lt (by omega)]
    rw [hoffset]
    exact hb.2
  · refine List.pairwise_append.2 ⟨h.rooms.pairwise h.cap_le (by omega), h.datas.pairwise h.cap_le (by omega),
      fun c hc c' hc' => ?_⟩
    obtain ⟨b, hb, hput, hend⟩ := h.rooms.mem hc
    obtain ⟨b', hb', hfree, hend'⟩ := h.datas.mem hc'
    exact (hb'.apart h.cap_le hb (by omega) (by omega)).symm

/-! ### Commands -/

theorem DtxSjrmtState.cap_eq {s : DtxSjrmtState} (h : 0 < s.wkSize.toNat) : s.cap = s.wkSize := by
  rw [DtxSjrmtState.cap, if_neg]
  intro h0
  rw [h0] at h
  exact absurd h (by decide)

theorem normalize_pos (v : Word) : 0 < (dtxNormalizeSjrmtCapacity v).toNat := by
  rw [dtxNormalizeSjrmtCapacity]
  split
  · decide
  · bv_omega

theorem normalize_le (v : Word) : (dtxNormalizeSjrmtCapacity v).toNat ≤ 2 ^ 24 := by
  rw [dtxNormalizeSjrmtCapacity]
  split
  · decide
  · bv_omega

theorem add_toNat {x y : Word} (hx : x.toNat ≤ 2 ^ 25) (hy : y.toNat ≤ 2 ^ 25) : (x + y).toNat = x.toNat + y.toNat := by
  rw [BitVec.toNat_add, Nat.mod_eq_of_lt (by omega)]

theorem add_umod {x y z : Word} (hx : x.toNat ≤ 2 ^ 25) (hy : y.toNat ≤ 2 ^ 25) :
    ((x + y) % z).toNat = (x.toNat + y.toNat) % z.toNat := by
  rw [BitVec.toNat_umod, add_toNat hx hy]

theorem umod_eq {x z : Word} {n : ℕ} (hz : z.toNat ≤ 2 ^ 24) (hpos : 0 < z.toNat) (hx : x.toNat = n % z.toNat) :
    x % z = BitVec.ofNat 32 (n % z.toNat) := by
  have hlt : n % z.toNat < z.toNat := Nat.mod_lt _ hpos
  refine BitVec.eq_of_toNat_eq ?_
  rw [BitVec.toNat_umod, hx, Nat.mod_mod, BitVec.toNat_ofNat, Nat.mod_eq_of_lt (hlt.trans_le (by omega))]

variable {m : GuestMemory}

theorem Inv.fresh {sj : DtxSjrmtState} (hpos : 0 < sj.wkSize.toNat) (hle : sj.wkSize.toNat ≤ 2 ^ 24)
    (hmapped : Mapped spr sj.wkAddr sj.wkSize) (hw : sj.writePos = 0) (hr : sj.readPos = 0)
    (hroom : sj.roomBytes = sj.wkSize) (hdata : sj.dataBytes = 0) : Inv spr ⟨m, sj, .empty⟩ where
  cap_pos := hpos
  cap_le := hle
  mapped := hmapped
  datas_le := Nat.le_refl 0
  turn := Nat.zero_le _
  writePos := by rw [hw]; exact (Nat.zero_mod _).symm
  readPos := by rw [hr]; exact (Nat.zero_mod _).symm
  room := by rw [hroom]; exact Nat.add_comm ..
  data := by rw [hdata]; rfl
  rooms := trivial
  datas := trivial
  content := fun _ _ h => absurd h (Nat.not_lt_zero _)
  inOrder := List.nil_prefix

theorem Inv.create {urpcCommand arg0 arg1 arg2 : Word}
    (h : Mapped spr (Sjrmt.create urpcCommand arg0 arg1 arg2).wkAddr (Sjrmt.create urpcCommand arg0 arg1 arg2).wkSize) :
    Inv spr ⟨m, Sjrmt.create urpcCommand arg0 arg1 arg2, .empty⟩ :=
  .fresh (normalize_pos _) (normalize_le _) h rfl rfl rfl rfl

section

variable (h : Inv spr s)

include h

theorem Inv.reset : Inv spr ⟨s.memory, s.sj.reset, .empty⟩ :=
  .fresh h.cap_pos h.cap_le h.mapped rfl rfl (DtxSjrmtState.cap_eq h.cap_pos) rfl

theorem Inv.getRoom {nbyte : Word}
    (hfits : s.sj.writePos.toNat + min nbyte.toNat s.sj.roomBytes.toNat ≤ s.sj.wkSize.toNat) :
    Inv spr ((Cmd.getChunk 0 nbyte).run spr s) := by
  have hcap := DtxSjrmtState.cap_eq h.cap_pos
  have hle := h.cap_le
  have hroom := h.room
  have hwrite := h.writePos
  have hlen := stdMin_toNat nbyte s.sj.roomBytes
  set len := stdMin nbyte s.sj.roomBytes with hlendef
  have hlt : s.ledger.handed % s.sj.wkSize.toNat < s.sj.wkSize.toNat := Nat.mod_lt _ h.cap_pos
  have hptr : s.sj.writePos % s.sj.cap = BitVec.ofNat 32 (s.ledger.handed % s.sj.wkSize.toNat) := by
    rw [hcap]
    exact umod_eq hle h.cap_pos hwrite
  have hpos : ((s.sj.writePos + len) % s.sj.cap).toNat = (s.ledger.handed + len.toNat) % s.sj.wkSize.toNat := by
    rw [hcap, add_umod (by omega) (by omega), hwrite, Nat.mod_add_mod]
  have hsub : (s.sj.roomBytes - len).toNat = s.sj.roomBytes.toNat - len.toNat :=
    BitVec.toNat_sub_of_le (by rw [BitVec.le_def]; omega)
  obtain ⟨rooms, hrooms⟩ : ∃ l, l = s.ledger.rooms ++ [⟨s.sj.wkAddr + s.sj.writePos % s.sj.cap, len⟩] := ⟨_, rfl⟩
  have hsize : size rooms = size s.ledger.rooms + len.toNat := by
    rw [hrooms, size_append, size_cons, size_nil, Nat.add_zero]
  have hrun : (Cmd.getChunk 0 nbyte).run spr s =
      ⟨s.memory, { s.sj with writePos := (s.sj.writePos + len) % s.sj.cap, roomBytes := s.sj.roomBytes - len },
        { s.ledger with rooms }⟩ := by
    rw [hrooms]
    rfl
  have hhanded : s.ledger.handed = s.ledger.put.length + size s.ledger.rooms := rfl
  have hturn := h.turn
  rw [hrun]
  refine ⟨h.cap_pos, h.cap_le, h.mapped, h.datas_le, ?_, ?_, h.readPos, ?_, h.data, ?_, h.datas, h.content, h.inOrder⟩
  · show s.ledger.put.length + size rooms ≤ s.ledger.freed + s.sj.wkSize.toNat
    omega
  · show ((s.sj.writePos + len) % s.sj.cap).toNat = (s.ledger.put.length + size rooms) % s.sj.wkSize.toNat
    rw [hpos, hsize, hhanded, Nat.add_assoc]
  · show (s.sj.roomBytes - len).toNat + (s.ledger.put.length + size rooms) = s.ledger.freed + s.sj.wkSize.toNat
    omega
  · rw [hrooms]
    refine laid_concat.2 ⟨h.rooms, ?_, ?_⟩
    · rw [hptr]
      rfl
    · show (s.ledger.put.length + size s.ledger.rooms) % s.sj.wkSize.toNat + len.toNat ≤ s.sj.wkSize.toNat
      rw [← hhanded]
      omega

/-- The bytes of a chunk of data are those put at its count. -/
theorem Inv.bytes (hat : At s.sj.wkAddr s.sj.wkSize.toNat c a) (hfreed : s.ledger.freed ≤ a)
    (hput : a + c.len.toNat ≤ s.ledger.put.length) : c.bytes spr s.memory = (s.ledger.put.drop a).take c.len.toNat := by
  refine List.ext_getElem? fun i => ?_
  by_cases hi : i < c.len.toNat
  · rw [List.getElem?_take_of_lt hi, List.getElem?_drop, h.content (a + i) (by omega) (by omega), ← hat.addr hi,
      Chunk.bytes, List.getElem?_map, List.getElem?_range hi]
    rfl
  · rw [List.getElem?_eq_none (by simpa [Chunk.bytes] using hi),
      List.getElem?_eq_none ((List.length_take_le ..).trans (by omega))]

theorem Inv.getData {nbyte : Word}
    (hfits : s.sj.readPos.toNat + min nbyte.toNat s.sj.dataBytes.toNat ≤ s.sj.wkSize.toNat) :
    Inv spr ((Cmd.getChunk 1 nbyte).run spr s) := by
  have hcap := DtxSjrmtState.cap_eq h.cap_pos
  have hle := h.cap_le
  have hdata := h.data
  have hread := h.readPos
  have hdatas := h.datas_le
  have hlen := stdMin_toNat nbyte s.sj.dataBytes
  set len := stdMin nbyte s.sj.dataBytes with hlendef
  have hptr : s.sj.readPos % s.sj.cap = BitVec.ofNat 32 (s.ledger.taken.length % s.sj.wkSize.toNat) := by
    rw [hcap]
    exact umod_eq hle h.cap_pos hread
  have hpos : ((s.sj.readPos + len) % s.sj.cap).toNat = (s.ledger.taken.length + len.toNat) % s.sj.wkSize.toNat := by
    rw [hcap, add_umod (by omega) (by omega), hread, Nat.mod_add_mod]
  have hsub : (s.sj.dataBytes - len).toNat = s.sj.dataBytes.toNat - len.toNat :=
    BitVec.toNat_sub_of_le (by rw [BitVec.le_def]; omega)
  obtain ⟨c, hc⟩ : ∃ c : Chunk, c = ⟨s.sj.wkAddr + s.sj.readPos % s.sj.cap, len⟩ := ⟨_, rfl⟩
  have hclen : c.len = len := by rw [hc]
  have hat : At s.sj.wkAddr s.sj.wkSize.toNat c s.ledger.taken.length := by
    rw [At, hclen, ← hread, hread, hc, ← hptr]
    exact ⟨rfl, by omega⟩
  have hfreed : s.ledger.freed = s.ledger.taken.length - size s.ledger.datas := rfl
  have hbytes := h.bytes hat (by omega) (by rw [hclen]; omega)
  obtain ⟨l, hl⟩ : ∃ l : Ledger, l = { s.ledger with
      datas := s.ledger.datas ++ [c]
      taken := s.ledger.taken ++ c.bytes spr s.memory } := ⟨_, rfl⟩
  have htaken : l.taken.length = s.ledger.taken.length + len.toNat := by
    rw [hl, List.length_append, Chunk.bytes, List.length_map, List.length_range, hclen]
  have hsize : size l.datas = size s.ledger.datas + len.toNat := by
    rw [hl]
    simp only [size_append, size_cons, size_nil, hclen, Nat.add_zero]
  have hsame : l.rooms = s.ledger.rooms ∧ l.put = s.ledger.put := by
    rw [hl]
    exact ⟨rfl, rfl⟩
  have hfreed' : l.freed = s.ledger.freed := by
    rw [Ledger.freed, htaken, hsize, hfreed]
    omega
  have hhanded : l.handed = s.ledger.handed := by
    rw [Ledger.handed, hsame.1, hsame.2, Ledger.handed]
  have hrun : (Cmd.getChunk 1 nbyte).run spr s =
      ⟨s.memory, { s.sj with readPos := (s.sj.readPos + len) % s.sj.cap, dataBytes := s.sj.dataBytes - len }, l⟩ := by
    rw [hl, hc]
    rfl
  rw [hrun]
  refine ⟨h.cap_pos, h.cap_le, h.mapped, ?_, ?_, ?_, ?_, ?_, ?_, ?_, ?_, ?_, ?_⟩
  · show size l.datas ≤ l.taken.length
    omega
  · simpa only [hhanded, hfreed'] using h.turn
  · simpa only [hhanded] using h.writePos
  · simpa only [htaken] using hpos
  · simpa only [hhanded, hfreed'] using h.room
  · show (s.sj.dataBytes - len).toNat + l.taken.length = l.put.length
    rw [htaken, hsame.2]
    omega
  · simpa only [hsame] using h.rooms
  · show Laid s.sj.wkAddr s.sj.wkSize.toNat l.freed l.datas
    rw [hfreed', hl]
    refine laid_concat.2 ⟨h.datas, ?_⟩
    rwa [hfreed, Nat.sub_add_cancel hdatas]
  · simpa only [hfreed', hsame] using h.content
  · show l.taken <+: l.put
    rw [hsame.2, hl]
    obtain ⟨rest, hrest⟩ := h.inOrder
    have hdrop : s.ledger.put.drop s.ledger.taken.length = rest := by
      rw [← hrest, List.drop_left]
    simp only [hbytes, hdrop]
    refine ⟨rest.drop c.len.toNat, ?_⟩
    rw [List.append_assoc, List.take_append_drop, hrest]

end

theorem sub_umod {x z n : Word} {w : ℕ} (hz : z.toNat ≤ 2 ^ 24) (hpos : 0 < z.toNat) (hx : x.toNat = (w + n.toNat) % z.toNat) :
    ((x + z - n % z) % z).toNat = w % z.toNat := by
  have hlt : (w + n.toNat) % z.toNat < z.toNat := Nat.mod_lt _ hpos
  have hdelta : n.toNat % z.toNat < z.toNat := Nat.mod_lt _ hpos
  have hsum : (x + z).toNat = x.toNat + z.toNat := add_toNat (by omega) (by omega)
  have hsub : (x + z - n % z).toNat = x.toNat + z.toNat - n.toNat % z.toNat := by
    rw [BitVec.toNat_sub_of_le, hsum, BitVec.toNat_umod]
    rw [BitVec.le_def, hsum, BitVec.toNat_umod]
    omega
  rw [BitVec.toNat_umod, hsub, hx]
  -- both sides agree after the length is added again
  refine Nat.ModEq.add_right_cancel' (n.toNat % z.toNat) ?_
  rw [Nat.sub_add_cancel (by omega)]
  refine (Nat.add_modEq_right).trans ?_
  exact (Nat.mod_modEq _ _).trans ((Nat.mod_modEq n.toNat z.toNat).symm.add_left w)

theorem clamp_toNat {x y z : Word} (h : x.toNat + y.toNat ≤ z.toNat) (hz : z.toNat ≤ 2 ^ 24) :
    (stdMin z (x + y)).toNat = x.toNat + y.toNat := by
  rw [stdMin_toNat, add_toNat (by omega) (by omega)]
  omega

section

variable (h : Inv spr s)

include h

theorem Inv.ungetRoom (hc : s.ledger.rooms.getLast? = some c) : Inv spr ((Cmd.ungetRoom c).run spr s) := by
  obtain ⟨rooms, hrooms⟩ := List.getLast?_eq_some_iff.1 hc
  have hcap := DtxSjrmtState.cap_eq h.cap_pos
  have hsize : size s.ledger.rooms = size rooms + c.len.toNat := by
    rw [hrooms, size_append, size_cons, size_nil, Nat.add_zero]
  have hhanded : s.ledger.handed = s.ledger.put.length + size s.ledger.rooms := rfl
  have hroom := h.room
  have hturn := h.turn
  have hle := h.cap_le
  have hfreed : s.ledger.freed ≤ s.ledger.put.length := by
    have := h.data
    rw [Ledger.freed]
    omega
  have hclamp : (stdMin s.sj.wkSize (s.sj.roomBytes + c.len)).toNat = s.sj.roomBytes.toNat + c.len.toNat :=
    clamp_toNat (by omega) hle
  have hpos := sub_umod (x := s.sj.writePos) (n := c.len) (w := s.ledger.put.length + size rooms) hle h.cap_pos
    (by rw [h.writePos, hhanded, hsize, Nat.add_assoc])
  have hlaid := h.rooms
  rw [hrooms] at hlaid
  have hrun : (Cmd.ungetRoom c).run spr s = ⟨s.memory, { s.sj with
      writePos := (s.sj.writePos + s.sj.wkSize - c.len % s.sj.wkSize) % s.sj.wkSize
      roomBytes := stdMin s.sj.wkSize (s.sj.roomBytes + c.len) }, { s.ledger with rooms }⟩ := by
    have hinit : s.ledger.rooms.dropLast = rooms := by rw [hrooms, List.dropLast_concat]
    rw [Cmd.run, hinit, DtxSjrmtState.ungetChunk, hcap, if_pos rfl]
  rw [hrun]
  refine ⟨h.cap_pos, h.cap_le, h.mapped, h.datas_le, ?_, hpos, h.readPos, ?_, h.data, (laid_concat.1 hlaid).1, h.datas,
    h.content, h.inOrder⟩
  · show s.ledger.put.length + size rooms ≤ s.ledger.freed + s.sj.wkSize.toNat
    omega
  · show (stdMin s.sj.wkSize (s.sj.roomBytes + c.len)).toNat + (s.ledger.put.length + size rooms) =
      s.ledger.freed + s.sj.wkSize.toNat
    omega

theorem Inv.ungetData (hc : s.ledger.datas.getLast? = some c) : Inv spr ((Cmd.ungetData c).run spr s) := by
  obtain ⟨datas, hdatas⟩ := List.getLast?_eq_some_iff.1 hc
  have hcap := DtxSjrmtState.cap_eq h.cap_pos
  have hsize : size s.ledger.datas = size datas + c.len.toNat := by
    rw [hdatas, size_append, size_cons, size_nil, Nat.add_zero]
  have hdata := h.data
  have hroom := h.room
  have hturn := h.turn
  have hle := h.cap_le
  have hdle := h.datas_le
  have hfreed : s.ledger.freed = s.ledger.taken.length - size s.ledger.datas := rfl
  have hhanded : s.ledger.handed = s.ledger.put.length + size s.ledger.rooms := rfl
  obtain ⟨l, hl⟩ : ∃ l : Ledger, l = { s.ledger with
      datas
      taken := s.ledger.taken.take (s.ledger.taken.length - c.len.toNat) } := ⟨_, rfl⟩
  have htaken : l.taken.length + c.len.toNat = s.ledger.taken.length := by
    rw [hl, List.length_take]
    omega
  have hfreed' : l.freed = s.ledger.freed := by
    have hsize' : size l.datas = size datas := by rw [hl]
    rw [Ledger.freed, hsize', hfreed]
    omega
  have hsame : l.rooms = s.ledger.rooms ∧ l.put = s.ledger.put := by
    rw [hl]
    exact ⟨rfl, rfl⟩
  have hhanded' : l.handed = s.ledger.handed := by
    rw [Ledger.handed, hsame.1, hsame.2, hhanded]
  have hclamp : (stdMin s.sj.wkSize (s.sj.dataBytes + c.len)).toNat = s.sj.dataBytes.toNat + c.len.toNat :=
    clamp_toNat (by omega) hle
  have hpos := sub_umod (x := s.sj.readPos) (n := c.len) (w := l.taken.length) hle h.cap_pos (by rw [h.readPos, htaken])
  have hrun : (Cmd.ungetData c).run spr s = ⟨s.memory, { s.sj with
      readPos := (s.sj.readPos + s.sj.wkSize - c.len % s.sj.wkSize) % s.sj.wkSize
      dataBytes := stdMin s.sj.wkSize (s.sj.dataBytes + c.len) }, l⟩ := by
    have hinit : s.ledger.datas.dropLast = datas := by rw [hdatas, List.dropLast_concat]
    rw [Cmd.run, hinit, DtxSjrmtState.ungetChunk, hcap, if_neg (by decide), if_pos rfl, hl]
  rw [hrun]
  refine ⟨h.cap_pos, h.cap_le, h.mapped, ?_, ?_, ?_, hpos, ?_, ?_, ?_, ?_, ?_, ?_⟩
  · have hsize' : size l.datas = size datas := by rw [hl]
    show size l.datas ≤ l.taken.length
    omega
  · simpa only [hhanded', hfreed'] using h.turn
  · simpa only [hhanded'] using h.writePos
  · simpa only [hhanded', hfreed'] using h.room
  · show (stdMin s.sj.wkSize (s.sj.dataBytes + c.len)).toNat + l.taken.length = l.put.length
    rw [hsame.2]
    omega
  · simpa only [hsame] using h.rooms
  · have hlaid := h.datas
    rw [hdatas] at hlaid
    simp only [hfreed']
    rw [hl]
    exact (laid_concat.1 hlaid).1
  · simpa only [hfreed', hsame] using h.content
  · show l.taken <+: l.put
    rw [hsame.2, hl]
    exact (List.take_prefix ..).trans h.inOrder

theorem Inv.putData (hc : s.ledger.rooms.head? = some c) : Inv spr ((Cmd.putData c).run spr s) := by
  obtain ⟨rooms, hrooms⟩ := List.head?_eq_some_iff.1 hc
  have hcap := DtxSjrmtState.cap_eq h.cap_pos
  have hsize : size s.ledger.rooms = c.len.toNat + size rooms := by
    rw [hrooms, size_cons]
  have hdata := h.data
  have hroom := h.room
  have hturn := h.turn
  have hle := h.cap_le
  have hfreed : s.ledger.freed = s.ledger.taken.length - size s.ledger.datas := rfl
  have hhanded : s.ledger.handed = s.ledger.put.length + size s.ledger.rooms := rfl
  have hlaid := h.rooms
  rw [hrooms] at hlaid
  obtain ⟨hat, hlaid⟩ := hlaid
  obtain ⟨bytes, hbytes⟩ : ∃ bytes, bytes = c.bytes spr s.memory := ⟨_, rfl⟩
  have hlength : bytes.length = c.len.toNat := by
    rw [hbytes, Chunk.bytes, List.length_map, List.length_range]
  obtain ⟨l, hl⟩ : ∃ l : Ledger, l = { s.ledger with rooms, put := s.ledger.put ++ bytes } := ⟨_, rfl⟩
  have hput : l.put.length = s.ledger.put.length + c.len.toNat := by
    rw [hl, List.length_append, hlength]
  have hsame : l.taken = s.ledger.taken ∧ l.datas = s.ledger.datas := by
    rw [hl]
    exact ⟨rfl, rfl⟩
  have hfreed' : l.freed = s.ledger.freed := by
    rw [Ledger.freed, hsame.1, hsame.2, hfreed]
  have hhanded' : l.handed = s.ledger.handed := by
    have hsize' : size l.rooms = size rooms := by rw [hl]
    rw [Ledger.handed, hput, hsize', hhanded]
    omega
  have hclamp : (stdMin s.sj.wkSize (s.sj.dataBytes + c.len)).toNat = s.sj.dataBytes.toNat + c.len.toNat :=
    clamp_toNat (by omega) hle
  have hrun : (Cmd.putData c).run spr s =
      ⟨s.memory, { s.sj with dataBytes := stdMin s.sj.wkSize (s.sj.dataBytes + c.len) }, l⟩ := by
    have htail : s.ledger.rooms.tail = rooms := by rw [hrooms, List.tail_cons]
    rw [Cmd.run, htail, DtxSjrmtState.putChunk, hcap, if_neg (by decide), if_pos rfl, hl, hbytes]
  rw [hrun]
  refine ⟨h.cap_pos, h.cap_le, h.mapped, ?_, ?_, ?_, ?_, ?_, ?_, ?_, ?_, ?_, ?_⟩
  · simpa only [hsame] using h.datas_le
  · simpa only [hhanded', hfreed'] using h.turn
  · simpa only [hhanded'] using h.writePos
  · simpa only [hsame] using h.readPos
  · simpa only [hhanded', hfreed'] using h.room
  · show (stdMin s.sj.wkSize (s.sj.dataBytes + c.len)).toNat + l.taken.length = l.put.length
    rw [hsame.1, hput]
    omega
  · simp only [hput]
    rw [hl]
    exact hlaid
  · simpa only [hfreed', hsame] using h.datas
  · intro i hi (hlt : i < l.put.length)
    rw [hfreed'] at hi
    have happ : l.put[i]? = (s.ledger.put ++ bytes)[i]? := by rw [hl]
    rw [happ]
    by_cases hold : i < s.ledger.put.length
    · rw [List.getElem?_append_left hold]
      exact h.content i hi hold
    · -- the byte is in the chunk
      have hi' : i - s.ledger.put.length < c.len.toNat := by omega
      have hplace : s.ledger.put.length + (i - s.ledger.put.length) = i := by omega
      rw [List.getElem?_append_right (by omega), hbytes, Chunk.bytes, List.getElem?_map, List.getElem?_range hi',
        Option.map_some, hat.addr hi', hplace]
  · show l.taken <+: l.put
    rw [hsame.1, hl]
    exact h.inOrder.trans (List.prefix_append ..)

theorem Inv.putRoom (hc : s.ledger.datas.head? = some c) : Inv spr ((Cmd.putRoom c).run spr s) := by
  obtain ⟨datas, hdatas⟩ := List.head?_eq_some_iff.1 hc
  have hcap := DtxSjrmtState.cap_eq h.cap_pos
  have hsize : size s.ledger.datas = c.len.toNat + size datas := by
    rw [hdatas, size_cons]
  have hdata := h.data
  have hroom := h.room
  have hturn := h.turn
  have hle := h.cap_le
  have hdle := h.datas_le
  have hfreed : s.ledger.freed = s.ledger.taken.length - size s.ledger.datas := rfl
  have hhanded : s.ledger.handed = s.ledger.put.length + size s.ledger.rooms := rfl
  obtain ⟨l, hl⟩ : ∃ l : Ledger, l = { s.ledger with datas } := ⟨_, rfl⟩
  have hsame : l.taken = s.ledger.taken ∧ l.put = s.ledger.put ∧ l.rooms = s.ledger.rooms ∧ l.datas = datas := by
    rw [hl]
    exact ⟨rfl, rfl, rfl, rfl⟩
  obtain ⟨htaken, hput, hrooms, hdatas'⟩ := hsame
  have hfreed' : l.freed = s.ledger.freed + c.len.toNat := by
    rw [Ledger.freed, htaken, hdatas', hfreed]
    omega
  have hhanded' : l.handed = s.ledger.handed := by
    rw [Ledger.handed, hput, hrooms, hhanded]
  have hclamp : (stdMin s.sj.wkSize (s.sj.roomBytes + c.len)).toNat = s.sj.roomBytes.toNat + c.len.toNat :=
    -- what is returned was taken, and what was taken was put
    have htaken : s.ledger.taken.length ≤ s.ledger.put.length := by omega
    clamp_toNat (by omega) hle
  have hlaid := h.datas
  rw [hdatas] at hlaid
  have hrun : (Cmd.putRoom c).run spr s =
      ⟨s.memory, { s.sj with roomBytes := stdMin s.sj.wkSize (s.sj.roomBytes + c.len) }, l⟩ := by
    have htail : s.ledger.datas.tail = datas := by rw [hdatas, List.tail_cons]
    rw [Cmd.run, htail, DtxSjrmtState.putChunk, hcap, if_pos rfl, hl]
  rw [hrun]
  refine ⟨h.cap_pos, h.cap_le, h.mapped, ?_, ?_, ?_, ?_, ?_, ?_, ?_, ?_, ?_, ?_⟩
  · show size l.datas ≤ l.taken.length
    rw [hdatas', htaken]
    omega
  · show l.handed ≤ l.freed + s.sj.wkSize.toNat
    omega
  · simpa only [hhanded'] using h.writePos
  · simpa only [htaken] using h.readPos
  · show (stdMin s.sj.wkSize (s.sj.roomBytes + c.len)).toNat + l.handed = l.freed + s.sj.wkSize.toNat
    omega
  · simpa only [htaken, hput] using h.data
  · simpa only [hput, hrooms] using h.rooms
  · show Laid s.sj.wkAddr s.sj.wkSize.toNat l.freed l.datas
    rw [hfreed', hdatas']
    exact hlaid.2
  · intro i hi hlt
    rw [hfreed'] at hi
    rw [hput] at hlt ⊢
    exact h.content i (by omega) hlt
  · simpa only [htaken, hput] using h.inOrder

theorem Inv.consume (hrooms : s.ledger.rooms = []) (hdatas : s.ledger.datas = []) :
    Inv spr (Cmd.consume.run spr s) := by
  have hcap := DtxSjrmtState.cap_eq h.cap_pos
  have hdata := h.data
  have hroom := h.room
  have hturn := h.turn
  have hle := h.cap_le
  have hpos := h.cap_pos
  have hsizes : size s.ledger.rooms = 0 ∧ size s.ledger.datas = 0 := by
    rw [hrooms, hdatas]
    exact ⟨rfl, rfl⟩
  have hfreed : s.ledger.freed = s.ledger.taken.length - size s.ledger.datas := rfl
  have hhanded : s.ledger.handed = s.ledger.put.length + size s.ledger.rooms := rfl
  have hconsumed : (stdMin s.sj.wkSize s.sj.dataBytes).toNat = s.sj.dataBytes.toNat := by
    rw [stdMin_toNat]
    omega
  have hclamp : (stdMin s.sj.wkSize (s.sj.roomBytes + s.sj.dataBytes)).toNat =
      s.sj.roomBytes.toNat + s.sj.dataBytes.toNat := clamp_toNat (by omega) hle
  have hread : ((s.sj.readPos + s.sj.dataBytes) % s.sj.wkSize).toNat = s.ledger.put.length % s.sj.wkSize.toNat := by
    have hlt : s.ledger.taken.length % s.sj.wkSize.toNat < s.sj.wkSize.toNat := Nat.mod_lt _ hpos
    rw [add_umod (by rw [h.readPos]; omega) (by omega), h.readPos, Nat.mod_add_mod, Nat.add_comm, hdata]
  have hmin : stdMin s.sj.wkSize s.sj.dataBytes = s.sj.dataBytes := BitVec.eq_of_toNat_eq hconsumed
  have hsj : s.sj.consume = { s.sj with
      readPos := (s.sj.readPos + s.sj.dataBytes) % s.sj.wkSize
      dataBytes := 0
      roomBytes := stdMin s.sj.wkSize (s.sj.roomBytes + s.sj.dataBytes) } := by
    have hcap0 : s.sj.wkSize ≠ 0 := by
      rintro h0
      rw [h0] at hpos
      exact absurd hpos (by decide)
    by_cases h0 : s.sj.dataBytes = 0
    · have hread0 : (s.sj.readPos + s.sj.dataBytes) % s.sj.wkSize = s.sj.readPos := by
        refine BitVec.eq_of_toNat_eq ?_
        have hzero : s.sj.readPos + 0 = s.sj.readPos := BitVec.add_zero _
        rw [h0, hzero, BitVec.toNat_umod, h.readPos, Nat.mod_mod]
      have hroom0 : stdMin s.sj.wkSize (s.sj.roomBytes + s.sj.dataBytes) = s.sj.roomBytes := by
        refine BitVec.eq_of_toNat_eq ?_
        rw [hclamp, h0]
        exact Nat.add_zero _
      rw [DtxSjrmtState.consume, if_pos (.inr h0), hread0, hroom0, ← h0]
    · rw [DtxSjrmtState.consume, hcap, if_neg (not_or.2 ⟨hcap0, h0⟩)]
      simp only [hmin, BitVec.sub_self]
      rfl
  have hrun : Cmd.consume.run spr s = ⟨s.memory, s.sj.consume, { s.ledger with taken := s.ledger.put }⟩ := rfl
  rw [hrun, hsj]
  have hfreed' : ({ s.ledger with taken := s.ledger.put } : Ledger).freed = s.ledger.put.length := by
    rw [Ledger.freed, hsizes.2, Nat.sub_zero]
  have hhanded' : ({ s.ledger with taken := s.ledger.put } : Ledger).handed = s.ledger.handed := rfl
  refine ⟨h.cap_pos, h.cap_le, h.mapped, ?_, ?_, h.writePos, hread, ?_, ?_, h.rooms, ?_, ?_, List.prefix_rfl⟩
  · show size s.ledger.datas ≤ s.ledger.put.length
    rw [hsizes.2]
    exact Nat.zero_le _
  · simp only [hfreed', hhanded']
    omega
  · simp only [hfreed', hhanded', hclamp]
    omega
  · exact Nat.zero_add _
  · rw [hdatas]
    trivial
  · intro i hi (hlt : i < s.ledger.put.length)
    rw [hfreed'] at hi
    exact absurd hlt (by omega)

theorem Inv.write (hm : (Cmd.write m).InOrder spr s) : Inv spr ((Cmd.write m).run spr s) := by
  refine ⟨h.cap_pos, h.cap_le, h.mapped, h.datas_le, h.turn, h.writePos, h.readPos, h.room, h.data, h.rooms, h.datas,
    fun i hi hlt => ?_, h.inOrder⟩
  have hcap := DtxSjrmtState.cap_eq h.cap_pos
  exact (h.content i hi hlt).trans (congrArg some (hm _ ⟨i, hi, hlt, by rw [hcap]⟩).symm)

end

/-! ### Appends -/

theorem copy_spec {m m' : GuestMemory} {src : Word} {j : ℕ} (hpos : 0 < cap)
    (hmapped : Mapped spr wk (BitVec.ofNat 32 cap)) (hcap : cap ≤ 2 ^ 24)
    (h : dtxCopyByte spr m (wk + BitVec.ofNat 32 (a % cap)) src = some m') :
    byteAt spr m' (wk + BitVec.ofNat 32 (a % cap)) = byteAt spr m src ∧
      (j % cap ≠ a % cap → byteAt spr m' (wk + BitVec.ofNat 32 (j % cap)) =
        byteAt spr m (wk + BitVec.ofNat 32 (j % cap))) := by
  have hsize : (BitVec.ofNat 32 cap).toNat = cap := by
    rw [BitVec.toNat_ofNat, Nat.mod_eq_of_lt (by omega)]
  have ha : a % cap < (BitVec.ofNat 32 cap).toNat := by
    rw [hsize]
    exact Nat.mod_lt _ hpos
  have hj : j % cap < (BitVec.ofNat 32 cap).toNat := by
    rw [hsize]
    exact Nat.mod_lt _ hpos
  obtain ⟨p, hp⟩ := Option.isSome_iff_exists.1 (hmapped.1 _ ha)
  obtain ⟨q, hq⟩ := Option.isSome_iff_exists.1 (hmapped.1 _ hj)
  have hm : m' = m.setArea p.scratch (Function.update (m.area p.scratch) p.offset (byteAt spr m src)) := by
    rw [dtxCopyByte, hp] at h
    cases hsrc : getMemPtr spr src with
    | none =>
      rw [hsrc] at h
      exact absurd h (by simp)
    | some _ =>
      rw [hsrc] at h
      exact (Option.some.inj h).symm
  constructor
  · rw [byteAt, hp, hm]
    simp
  · intro hne
    have hpq : q.scratch = p.scratch → q.offset ≠ p.offset := by
      intro hscratch hoffset
      have heq : q = p := by
        cases p
        cases q
        simp_all
      exact hne (hmapped.2 _ hj _ ha (by rw [hp, hq, heq]))
    rw [byteAt, hq, hm]
    by_cases hscratch : q.scratch = p.scratch
    · simp [byteAt, hq, hscratch, hpq hscratch]
    · simp [byteAt, hq, hscratch]

theorem appendLoop_spec {sj : DtxSjrmtState} (src : Word) (hpos : 0 < sj.wkSize.toNat) (hle : sj.wkSize.toNat ≤ 2 ^ 24)
    (hmapped : Mapped spr sj.wkAddr sj.wkSize) (hwrite : sj.writePos.toNat = a % sj.wkSize.toNat) (n : ℕ) (i : Word)
    (m : GuestMemory) (hi : i.toNat + n ≤ sj.wkSize.toNat) :
    (appendLoop spr sj src n i m).2.length ≤ n ∧
      (∀ k < (appendLoop spr sj src n i m).2.length, (appendLoop spr sj src n i m).2[k]? =
        some (byteAt spr (appendLoop spr sj src n i m).1
          (sj.wkAddr + BitVec.ofNat 32 ((a + i.toNat + k) % sj.wkSize.toNat)))) ∧
      ∀ j, (∀ k < n, j % sj.wkSize.toNat ≠ (a + i.toNat + k) % sj.wkSize.toNat) →
        byteAt spr (appendLoop spr sj src n i m).1 (sj.wkAddr + BitVec.ofNat 32 (j % sj.wkSize.toNat)) =
          byteAt spr m (sj.wkAddr + BitVec.ofNat 32 (j % sj.wkSize.toNat)) := by
  have hwlt : a % sj.wkSize.toNat < sj.wkSize.toNat := Nat.mod_lt _ hpos
  have hofNat : BitVec.ofNat 32 sj.wkSize.toNat = sj.wkSize := by
    rw [BitVec.ofNat_toNat, BitVec.setWidth_eq]
  -- by induction on the number of bytes still to copy
  induction n generalizing i m with
  | zero => exact ⟨Nat.le_refl 0, fun k hk => absurd hk (Nat.not_lt_zero k), fun _ _ => rfl⟩
  | succ n ih =>
    have hplace : (sj.writePos + i) % sj.cap = BitVec.ofNat 32 ((a + i.toNat) % sj.wkSize.toNat) := by
      have hsum := add_toNat (x := sj.writePos) (y := i) (by omega) (by omega)
      rw [DtxSjrmtState.cap_eq hpos]
      refine BitVec.eq_of_toNat_eq ?_
      have hlt : (a + i.toNat) % sj.wkSize.toNat < sj.wkSize.toNat := Nat.mod_lt _ hpos
      rw [BitVec.toNat_umod, hsum, hwrite, Nat.mod_add_mod, BitVec.toNat_ofNat,
        Nat.mod_eq_of_lt (hlt.trans_le (by omega))]
    rw [appendLoop, hplace]
    cases hcopy : dtxCopyByte spr m (sj.wkAddr + BitVec.ofNat 32 ((a + i.toNat) % sj.wkSize.toNat)) (src + i) with
    | none => exact ⟨Nat.zero_le _, fun k hk => absurd hk (Nat.not_lt_zero k), fun _ _ => rfl⟩
    | some m' =>
      have hnext : (i + 1).toNat = i.toNat + 1 := by
        rw [add_toNat (by omega) (by decide)]
        rfl
      obtain ⟨hlength, hbytes, hrest⟩ := ih (i + 1) m' (by omega)
      simp only [hnext] at hbytes hrest
      refine ⟨Nat.succ_le_succ hlength, fun k hk => ?_, fun j hj => ?_⟩
      · cases k with
        | zero =>
          -- the bytes behind this one lie elsewhere
          have hkeep := hrest (a + i.toNat) fun k hk =>
            mod_ne (show a + i.toNat < a + (i.toNat + 1) + k by omega)
              (show a + (i.toNat + 1) + k < a + i.toNat + sj.wkSize.toNat by omega)
          have hself := (copy_spec (j := 0) hpos (by rwa [hofNat]) hle hcopy).1
          rw [List.getElem?_cons_zero, Nat.add_zero, hkeep, hself]
        | succ k =>
          have hcount : a + i.toNat + (k + 1) = a + (i.toNat + 1) + k := by omega
          rw [List.getElem?_cons_succ, hcount]
          exact hbytes k (Nat.lt_of_succ_lt_succ hk)
      · have hkeep := hrest j fun k hk => by
          have hcount : a + (i.toNat + 1) + k = a + i.toNat + (k + 1) := by omega
          rw [hcount]
          exact hj (k + 1) (by omega)
        have hother := (copy_spec (j := j) hpos (by rwa [hofNat]) hle hcopy).2 (hj 0 (by omega))
        exact hkeep.trans hother

theorem Inv.append {src len : Word} (h : Inv spr s) (hrooms : s.ledger.rooms = []) (hdatas : s.ledger.datas = []) :
    Inv spr ((Cmd.append src len).run spr s) := by
  have hcap := DtxSjrmtState.cap_eq h.cap_pos
  have hpos := h.cap_pos
  have hle := h.cap_le
  have hdata := h.data
  have hroom := h.room
  have hturn := h.turn
  have hsizes : size s.ledger.rooms = 0 ∧ size s.ledger.datas = 0 := by
    rw [hrooms, hdatas]
    exact ⟨rfl, rfl⟩
  have hfreed : s.ledger.freed = s.ledger.taken.length - size s.ledger.datas := rfl
  have hhanded : s.ledger.handed = s.ledger.put.length + size s.ledger.rooms := rfl
  have hwrite : s.sj.writePos.toNat = s.ledger.put.length % s.sj.wkSize.toNat := by
    rw [h.writePos, hhanded, hsizes.1, Nat.add_zero]
  by_cases hnone : s.sj.cap = 0 ∨ s.sj.wkAddr = 0 ∨ s.sj.roomBytes = 0 ∨ len = 0
  · have hrun : (Cmd.append src len).run spr s = s := by
      rw [Cmd.run, dtxAppendToSjrmtData, if_pos hnone]
      simp only [List.append_nil]
    rwa [hrun]
  have hn := stdMin_toNat len s.sj.roomBytes
  obtain ⟨hlength, hbytes, hkeep⟩ := appendLoop_spec src hpos hle h.mapped hwrite
    (stdMin len s.sj.roomBytes).toNat 0 s.memory (show 0 + _ ≤ _ by omega)
  obtain ⟨m, bytes, hloop⟩ : ∃ m bytes,
      appendLoop spr s.sj src (stdMin len s.sj.roomBytes).toNat 0 s.memory = (m, bytes) := ⟨_, _, rfl⟩
  rw [hloop] at hlength hbytes hkeep
  have hzero : ∀ k, s.ledger.put.length + (0 : Word).toNat + k = s.ledger.put.length + k := fun _ => rfl
  simp only [hzero] at hlength hbytes hkeep
  have hcopied : (BitVec.ofNat 32 bytes.length : Word).toNat = bytes.length := by
    rw [BitVec.toNat_ofNat, Nat.mod_eq_of_lt (by omega)]
  have hpos' : ((s.sj.writePos + BitVec.ofNat 32 bytes.length) % s.sj.wkSize).toNat =
      (s.ledger.put.length + bytes.length) % s.sj.wkSize.toNat := by
    have hlt := Nat.mod_lt s.ledger.put.length hpos
    rw [add_umod (by omega) (by omega), hwrite, hcopied, Nat.mod_add_mod]
  have hsub : (s.sj.roomBytes - BitVec.ofNat 32 bytes.length).toNat = s.sj.roomBytes.toNat - bytes.length := by
    rw [BitVec.toNat_sub_of_le (by rw [BitVec.le_def]; omega), hcopied]
  have hclamp : (stdMin s.sj.wkSize (s.sj.dataBytes + BitVec.ofNat 32 bytes.length)).toNat =
      s.sj.dataBytes.toNat + bytes.length := by
    rw [clamp_toNat (by omega) hle, hcopied]
  obtain ⟨l, hl⟩ : ∃ l : Ledger, l = { s.ledger with put := s.ledger.put ++ bytes } := ⟨_, rfl⟩
  have hput : l.put.length = s.ledger.put.length + bytes.length := by
    rw [hl, List.length_append]
  have hsame : l.taken = s.ledger.taken ∧ l.datas = s.ledger.datas ∧ l.rooms = [] := by
    rw [hl]
    exact ⟨rfl, rfl, hrooms⟩
  obtain ⟨htaken, hdatas', hrooms'⟩ := hsame
  have hfreed' : l.freed = s.ledger.freed := by
    rw [Ledger.freed, htaken, hdatas', hfreed]
  have hhanded' : l.handed = s.ledger.put.length + bytes.length := by
    rw [Ledger.handed, hput, hrooms', size_nil, Nat.add_zero]
  have hrun : (Cmd.append src len).run spr s = ⟨m, { s.sj with
      writePos := (s.sj.writePos + BitVec.ofNat 32 bytes.length) % s.sj.wkSize
      roomBytes := s.sj.roomBytes - BitVec.ofNat 32 bytes.length
      dataBytes := stdMin s.sj.wkSize (s.sj.dataBytes + BitVec.ofNat 32 bytes.length) }, l⟩ := by
    rw [Cmd.run, dtxAppendToSjrmtData, if_neg hnone, hloop, hl, hcap]
  rw [hrun]
  refine ⟨h.cap_pos, h.cap_le, h.mapped, ?_, ?_, ?_, ?_, ?_, ?_, ?_, ?_, ?_, ?_⟩
  · simpa only [htaken, hdatas'] using h.datas_le
  · show l.handed ≤ l.freed + s.sj.wkSize.toNat
    omega
  · simpa only [hhanded'] using hpos'
  · simpa only [htaken] using h.readPos
  · show (s.sj.roomBytes - BitVec.ofNat 32 bytes.length).toNat + l.handed = l.freed + s.sj.wkSize.toNat
    omega
  · show (stdMin s.sj.wkSize (s.sj.dataBytes + BitVec.ofNat 32 bytes.length)).toNat + l.taken.length = l.put.length
    rw [htaken, hput]
    omega
  · simp only [hrooms']
    trivial
  · simpa only [hfreed', hdatas'] using h.datas
  · intro i hi (hlt : i < l.put.length)
    rw [hfreed'] at hi
    have happ : l.put[i]? = (s.ledger.put ++ bytes)[i]? := by rw [hl]
    rw [happ]
    by_cases hold : i < s.ledger.put.length
    · -- what was there is not overwritten
      have hsame := hkeep i fun k hk =>
        mod_ne (show i < s.ledger.put.length + k by omega) (show _ < i + s.sj.wkSize.toNat by omega)
      rw [List.getElem?_append_left hold, h.content i hi hold]
      exact congrArg some hsame.symm
    · have hcount : s.ledger.put.length + (i - s.ledger.put.length) = i := by omega
      rw [List.getElem?_append_right (by omega), hbytes _ (by omega), hcount]
  · show l.taken <+: l.put
    rw [htaken, hl]
    exact h.inOrder.trans (List.prefix_append ..)

/-! ### Runs -/

theorem Inv.run {c : Cmd} (h : Inv spr s) (horder : c.InOrder spr s) (hfits : c.Fits s) : Inv spr (c.run spr s) := by
  cases c with
  | create urpcCommand arg0 arg1 arg2 => exact .create horder
  | reset => exact h.reset
  | getChunk streamId nbyte =>
    by_cases h0 : streamId = 0
    · subst h0
      exact h.getRoom (hfits.1 rfl)
    by_cases h1 : streamId = 1
    · subst h1
      exact h.getData (hfits.2 rfl)
    · -- there is no such stream
      have hrun : (Cmd.getChunk streamId nbyte).run spr s = s := by
        simp only [Cmd.run, DtxSjrmtState.getChunk, if_neg h0, if_neg h1]
      rwa [hrun]
  | ungetRoom c => exact h.ungetRoom horder
  | ungetData c => exact h.ungetData horder
  | putData c => exact h.putData horder
  | putRoom c => exact h.putRoom horder
  | append srcDataAddr requestedLen => exact h.append horder.1 horder.2
  | consume => exact h.consume horder.1 horder.2
  | write m => exact h.write horder

theorem Inv.of_reach (h : Reach spr (fun s c => c.InOrder spr s ∧ c.Fits s) s) : Inv spr s := by
  induction h with
  | create s urpcCommand arg0 arg1 arg2 h => exact .create h.1
  | cmd c _ hc ih => exact ih.run hc.1 hc.2

theorem conserved_of_fits (h : Reach spr (fun s c => c.InOrder spr s ∧ c.Fits s) s) : Conserved s :=
  (Inv.of_reach h).conserved

/-- A ring of four bytes, three of which are filled and put. -/
def filledRing : State :=
  let s : State := (Cmd.create 34 0 0x00100000 4).run false ⟨⟨fun _ => 0, fun _ => 0⟩, create 34 0 0 0, .empty⟩
  let s := (Cmd.getChunk 0 3).run false s
  (Cmd.putData ⟨0x00100000, 3⟩).run false s

theorem filledRing_reach {P : State → Cmd → Prop} (hP : ∀ s c, c.InOrder false s ∧ c.Fits s → P s c) :
    Reach false P filledRing := by
  have hmapped : Mapped false (create 34 0 0x00100000 4).wkAddr (create 34 0 0x00100000 4).wkSize := by
    unfold Mapped
    decide
  refine .cmd (.putData ⟨0x00100000, 3⟩) (.cmd (.getChunk 0 3) (.create _ 34 0 0x00100000 4 ?_) ?_) ?_
  · exact hP _ _ ⟨hmapped, trivial⟩
  · exact hP _ _ ⟨trivial, by unfold Cmd.Fits; decide⟩
  · exact hP _ _ ⟨by unfold Cmd.InOrder; decide +kernel, trivial⟩

/-- The three bytes that were put come out. -/
theorem conserved_of_fits_filledRing : Conserved ((Cmd.getChunk 1 3).run false filledRing) :=
  conserved_of_fits
    (.cmd (.getChunk 1 3) (filledRing_reach fun _ _ h => h) ⟨trivial, by unfold Cmd.Fits; decide +kernel⟩)

/-- A chunk of room at the last byte of the ring has three bytes. -/
theorem chunk_beyond_ring : ¬ ∀ (spr : Bool) (s : State), Reach spr (fun s c => c.InOrder spr s) s → Conserved s := by
  intro h
  have hreach : Reach false (fun s c => c.InOrder false s)
      ((Cmd.getChunk 0 3).run false
        ((Cmd.putRoom ⟨0x00100000, 3⟩).run false ((Cmd.getChunk 1 3).run false filledRing))) :=
    .cmd _ (.cmd _ (.cmd _ (filledRing_reach fun _ _ h => h.1) trivial) (by unfold Cmd.InOrder; decide +kernel)) trivial
  have hinside := (h false _ hreach).inside ⟨0x00100003, 3⟩
  revert hinside
  decide +kernel

end Ps2Recomp.Sjrmt
