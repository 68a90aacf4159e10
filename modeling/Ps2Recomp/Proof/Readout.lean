import Ps2Recomp.Proof.Pixels

/-!
# Readouts agree with pixel reads

What the moves of lanes in a column do to bytes is what they do to the numbers of the bytes
(`columnRows_eq`), and those are the entries of the column tables (`numberRows_check`). So each
store of a readout writes the bytes expected at its place, and all stores together write the page.

* `Pitch.readPage_writes`: what a readout writes, and where.
* `readPage_eq_readPixel`: readouts agree with pixel reads.
-/

namespace Ps2Recomp.GSMem

open Bytes Lanes PixelStorageMode

/-- The modes with a readout of their own. -/
def readOutModes : List PixelStorageMode := [c32, c16, c16s, z32, z16, z16s, p8, p4]

/-! ### Columns -/

/-- The rows of a column of a mode. -/
def columnRows : PixelStorageMode → ℕ → Reg (BitVec 8) → Reg (BitVec 8) → Reg (BitVec 8) →
    Reg (BitVec 8) → List (List (Reg (BitVec 8)))
  | c16 | c16s | z16 | z16s => fun _ => column16
  | p8 => fun column => column8 (column % 2 = 0)
  | p4 => fun column => column4 lowNibbles highNibbles (column % 2 = 0)
  | _ => fun _ => column32

/-- The numbers of the bytes of a register in the block. -/
def numbers (column part : ℕ) : Reg ℕ := fun i => 64 * column + 16 * part + i

/-- The numbers of what the lanes of `columnRows` hold: of bytes, or of nibbles for `P4`. -/
def numberRows (psm : PixelStorageMode) (column : ℕ) : List (List (Reg ℕ)) :=
  let w0123 := numbers column 0
  let w4567 := numbers column 1
  let w89AB := numbers column 2
  let wCDEF := numbers column 3
  match psm with
  | c16 | c16s | z16 | z16s => column16 w0123 w4567 w89AB wCDEF
  | p8 => column8 (column % 2 = 0) w0123 w4567 w89AB wCDEF
  | p4 => column4 (fun r i => 2 * r i) (fun r i => 2 * r i + 1) (column % 2 = 0) w0123 w4567 w89AB wCDEF
  | _ => column32 w0123 w4567 w89AB wCDEF

/-- The byte or nibble with a number, in the block at `base`. -/
def element (psm : PixelStorageMode) (data : Memory) (base n : ℕ) : BitVec 8 :=
  match psm with
  | p4 => (data (base + n / 2) >>> (4 * (n % 2))) &&& 0xF
  | _ => data (base + n)

theorem loaduSi128_eq (data : Memory) (base column part : ℕ) :
    loaduSi128 data (base + 64 * column + 16 * part) = (fun n => data (base + n)) ∘ numbers column part := by
  funext i
  simp only [loaduSi128, numbers, Function.comp_apply, Nat.add_assoc]

section

variable (data : Memory) (base : ℕ) (r : Reg ℕ)

theorem lowNibbles_comp : lowNibbles ((fun n => data (base + n)) ∘ r) = element p4 data base ∘ fun i => 2 * r i := by
  funext i
  simp [lowNibbles, andSi128, set1Epi8, element]

theorem highNibbles_comp :
    highNibbles ((fun n => data (base + n)) ∘ r) = element p4 data base ∘ fun i => 2 * r i + 1 := by
  have hnibble : ∀ b : BitVec 8, (b >>> 4) &&& 0xF = b >>> 4 := by decide
  funext i
  have hbyte : (2 * r i + 1) / 2 = r i := by omega
  have hhigh : (2 * r i + 1) % 2 = 1 := by omega
  rw [highNibbles, andSi128_srliEpi16, Function.comp_apply, Function.comp_apply, element, hbyte, hhigh]
  exact (hnibble _).symm

end

theorem columnRows_eq (psm : PixelStorageMode) (data : Memory) (base column : ℕ) :
    columnRows psm column (loaduSi128 data (base + 64 * column + 16 * 0))
        (loaduSi128 data (base + 64 * column + 16 * 1)) (loaduSi128 data (base + 64 * column + 16 * 2))
        (loaduSi128 data (base + 64 * column + 16 * 3)) =
      (numberRows psm column).map (List.map (element psm data base ∘ ·)) := by
  simp only [loaduSi128_eq]
  cases psm
  case p8 =>
    simp only [columnRows, numberRows, column8, map_unpackloEpi64, map_unpackhiEpi64, map_shuffleEpi8,
      map_unpackloEpi32, map_unpackhiEpi32]
    split <;> rfl
  case p4 =>
    simp only [columnRows, numberRows, column4, map_unpackloEpi64, map_unpackhiEpi64, map_shuffleEpi8,
      map_unpackloEpi32, map_unpackhiEpi32, lowNibbles_comp, highNibbles_comp]
    split <;> rfl
  case c16 | c16s | z16 | z16s =>
    simp only [columnRows, numberRows, column16, map_unpackloEpi64, map_unpackhiEpi64, map_shuffleEpi8]
    rfl
  all_goals
    simp only [columnRows, numberRows, column32, map_unpackloEpi64, map_unpackhiEpi64]
    rfl

/-- The bytes of a pixel in the output of a readout. -/
def rowNumber (psm : PixelStorageMode) (c y : ℕ) : ℕ :=
  psm.columnTable.entry (c / psm.packedSize) y * psm.packedSize + c % psm.packedSize

/-- **The lanes end up where the column tables say.** -/
theorem numberRows_check {psm : PixelStorageMode} (hpsm : psm ∈ readOutModes) :
    ∀ column < 4, ∀ row ∈ (numberRows psm column).zipIdx, ∀ part ∈ row.1.zipIdx, ∀ i : Fin 16,
      part.1 i = rowNumber psm (16 * part.2 + i) (psm.columnExtent.y / 4 * column + row.2) := by
  revert psm
  decide +kernel

/-- The rows of a column, of 16 byte parts. -/
structure Rows {γ : Type*} (psm : PixelStorageMode) (rows : List (List γ)) : Prop where
  length : rows.length = psm.columnExtent.y / 4
  parts : ∀ row ∈ rows, row.length = psm.columnExtent.x * psm.packedSize / 16

theorem numberRows_rows {psm : PixelStorageMode} (hpsm : psm ∈ readOutModes) {column : ℕ}
    (hcolumn : column < 4) : Rows psm (numberRows psm column) := by
  have hlength : ∀ psm ∈ readOutModes, ∀ column < 4, (numberRows psm column).length = psm.columnExtent.y / 4 := by
    decide +kernel
  have hparts : ∀ psm ∈ readOutModes, ∀ column < 4, ∀ row ∈ (numberRows psm column).zipIdx,
      row.1.length = psm.columnExtent.x * psm.packedSize / 16 := by
    decide +kernel
  refine ⟨hlength psm hpsm column hcolumn, fun row hrow => ?_⟩
  obtain ⟨i, hi, rfl⟩ := List.getElem_of_mem hrow
  exact hparts psm hpsm column hcolumn (_, i) (List.mem_zipIdx_iff_getElem?.mpr (List.getElem?_eq_getElem hi))

/-! ### Pixels -/

variable {psm : PixelStorageMode} {data : Memory} {bp bw x y b : ℕ}

section

variable (hpsm : psm ∈ readOutModes)

include hpsm

theorem tableMode_of_readOut : psm.tableMode = psm := by
  revert psm
  decide

/-- All but `P4` have whole bytes. -/
theorem bytes_of_readOut (hp4 : psm ≠ p4) :
    psm.unpackedBitWidth = 8 * psm.packedSize ∧ psm.bitsPerPixel = 8 * psm.packedSize ∧ psm.bitOffset = 0 := by
  revert psm
  decide

theorem element_eq_readPixel (hx : x < psm.pageExtent.x) (hy : y < psm.pageExtent.y) (hb : b < psm.packedSize) :
    element psm data (256 * ((bp + psm.blockId psm.blockTable x y) % 2 ^ 14))
        (psm.columnId psm.columnTable x y * psm.packedSize + b) =
      BitVec.ofNat 8 (readPixelFuncs psm data bp bw x y >>> (8 * b)) := by
  have hplace := psm.place_firstPage bp bw hx hy
  rw [tableMode_of_readOut hpsm] at hplace
  refine BitVec.eq_of_getLsbD_eq fun j hj => ?_
  rw [BitVec.getLsbD_ofNat, decide_eq_true hj, Bool.true_and, Nat.testBit_shiftRight, readPixelFuncs_eq,
    testBit_read, hplace]
  generalize psm.columnId psm.columnTable x y = c
  generalize (bp + psm.blockId psm.blockTable x y) % 2 ^ 14 = block
  by_cases hp4 : psm = p4
  · subst hp4
    have hb0 : b = 0 := Nat.lt_one_iff.mp hb
    have hnibble : ∀ j < 8, BitVec.getLsbD (0xF : BitVec 8) j = decide (j < 4) := by decide
    subst hb0
    simp only [element, packedSize, bitsPerPixel, unpackedBitWidth, bitOffset, bit, Nat.mul_one,
      Nat.mul_zero, Nat.add_zero, Nat.zero_add]
    rw [BitVec.getLsbD_and, BitVec.getLsbD_ushiftRight, hnibble j hj, Bool.and_comm]
    by_cases h4 : j < 4
    · have hbyte : (2048 * block + c * 4 + j) / 8 = 256 * block + c / 2 := by omega
      have hbit : (2048 * block + c * 4 + j) % 8 = 4 * (c % 2) + j := by omega
      rw [hbyte, hbit]
    · simp [h4]
  · obtain ⟨hwidth, hbits, hoffset⟩ := bytes_of_readOut hpsm hp4
    have helement : ∀ n, element psm data (256 * block) n = data (256 * block + n) := by
      intro n
      cases psm <;> first | rfl | exact absurd rfl hp4
    have hplace8 : 2048 * block + c * (8 * psm.packedSize) + 0 + (8 * b + j) =
        8 * (256 * block + (c * psm.packedSize + b)) + j := by ring
    rw [helement, hwidth, hbits, hoffset, hplace8, bit, decide_eq_true (by omega), Bool.true_and]
    congr 1
    · congr 1
      omega
    · omega

end

/-! ### Blocks -/

/-- The byte of the output of a readout at `q`, read pixel by pixel. -/
def expected (psm : PixelStorageMode) (data : Memory) (bp bw pitch : ℕ) : Memory := fun q =>
  BitVec.ofNat 8 (readPixelFuncs psm data bp bw (q % pitch / psm.packedSize) (q / pitch) >>>
    (8 * (q % pitch % psm.packedSize)))

theorem storeRows_writes {rows : List (List (Reg (BitVec 8)))} (hrows : Rows psm rows) {dst : ℕ}
    {offset : ℕ → ℕ → ℕ} {v : Memory}
    (h : ∀ row ∈ rows.zipIdx, ∀ part ∈ row.1.zipIdx, ∀ i : Fin 16, part.1 i = v (dst + offset row.2 part.2 + i)) :
    Writes (storeRows dst offset rows) {q | ∃ r < psm.columnExtent.y / 4,
      ∃ p < psm.columnExtent.x * psm.packedSize / 16, dst + offset r p ≤ q ∧ q < dst + offset r p + 16} v := by
  have hset : {q | ∃ r < psm.columnExtent.y / 4, ∃ p < psm.columnExtent.x * psm.packedSize / 16,
        dst + offset r p ≤ q ∧ q < dst + offset r p + 16} =
      {q | ∃ row ∈ rows.zipIdx, q ∈ {q | ∃ part ∈ row.1.zipIdx,
        q ∈ {q | dst + offset row.2 part.2 ≤ q ∧ q < dst + offset row.2 part.2 + 16}}} := by
    ext q
    constructor
    · rintro ⟨r, hr, p, hp, hq⟩
      rw [← hrows.length] at hr
      have hpart := hrows.parts _ (List.getElem_mem hr)
      rw [← hpart] at hp
      exact ⟨(rows[r], r), List.mem_zipIdx_iff_getElem?.mpr (List.getElem?_eq_getElem hr),
        (rows[r][p], p), List.mem_zipIdx_iff_getElem?.mpr (List.getElem?_eq_getElem hp), hq⟩
    · rintro ⟨row, hrow, part, hpart, hq⟩
      obtain ⟨hr, hr'⟩ := List.getElem?_eq_some_iff.mp (List.mem_zipIdx_iff_getElem?.mp hrow)
      obtain ⟨hp, -⟩ := List.getElem?_eq_some_iff.mp (List.mem_zipIdx_iff_getElem?.mp hpart)
      rw [← hr', hrows.parts _ (List.getElem_mem hr)] at hp
      rw [hrows.length] at hr
      exact ⟨row.2, hr, part.2, hp, hq⟩
  rw [hset]
  refine Writes.foldl fun row hrow => ?_
  refine Writes.foldl fun part hpart => ?_
  exact storeuSi128_writes (h row hrow part hpart)

/-- The offsets of the stores of a mode. -/
def rowOffset : PixelStorageMode → ℕ → ℕ → ℕ → ℕ → ℕ
  | p8 | p4 => offset4
  | _ => offset2

/-- The pitch holds a row of the page, and the offsets of its blocks fit into 32 bits. -/
structure Pitch (psm : PixelStorageMode) (pitch : ℕ) : Prop where
  row : psm.pageExtent.x * psm.packedSize ≤ pitch
  offsets : (psm.pageExtent.y - psm.columnExtent.y) * pitch +
    (psm.pageExtent.x - psm.columnExtent.x) * psm.packedSize < 2 ^ 32

variable {pitch column row part : ℕ}

theorem extents_of_readOut (hpsm : psm ∈ readOutModes) :
    psm.columnExtent.y / 4 * 4 = psm.columnExtent.y ∧
      psm.columnExtent.x * psm.packedSize / 16 * 16 = psm.columnExtent.x * psm.packedSize ∧
      psm.columnExtent.y ≤ psm.pageExtent.y - psm.columnExtent.y ∧
      psm.pageExtent.x = psm.blockExtent.x * psm.columnExtent.x ∧
      psm.pageExtent.y = psm.blockExtent.y * psm.columnExtent.y ∧
      0 < psm.columnExtent.x ∧ 0 < psm.columnExtent.y ∧ 0 < psm.packedSize ∧ 0 < psm.blockExtent.x := by
  revert psm
  decide

theorem offset2_eq (h : (2 * column + row) * pitch + 16 * part < 2 ^ 32) :
    offset2 pitch column row part = (2 * column + row) * pitch + 16 * part := by
  rw [offset2, Nat.mod_eq_of_lt (Nat.lt_of_le_of_lt (Nat.le_add_right _ _) h), Nat.mod_eq_of_lt h]

theorem offset4_eq (h : (4 * column + row) * pitch + 16 * part < 2 ^ 32) :
    offset4 pitch column row part = (4 * column + row) * pitch + 16 * part := by
  rw [Nat.add_mul] at h ⊢
  rw [offset4, Nat.mod_eq_of_lt (by omega : 4 * column * pitch < 2 ^ 32),
    Nat.mod_eq_of_lt (by omega : row * pitch < 2 ^ 32), Nat.mod_eq_of_lt (by omega), Nat.add_assoc]

theorem line_lt (hpsm : psm ∈ readOutModes) (hcolumn : column < 4) (hrow : row < psm.columnExtent.y / 4) :
    psm.columnExtent.y / 4 * column + row < psm.columnExtent.y := by
  have hlt := digits_lt hcolumn hrow
  rw [Nat.mul_comm column, Nat.mul_comm 4, (extents_of_readOut hpsm).1] at hlt
  exact hlt

theorem Pitch.rowOffset_eq (h : Pitch psm pitch) (hpsm : psm ∈ readOutModes) (hcolumn : column < 4)
    (hrow : row < psm.columnExtent.y / 4) (hpart : part < psm.columnExtent.x * psm.packedSize / 16) :
    rowOffset psm pitch column row part = (psm.columnExtent.y / 4 * column + row) * pitch + 16 * part := by
  obtain ⟨hrows, hparts, hpage, hx, -, hpos, -, -, hblock⟩ := extents_of_readOut hpsm
  have hwidth : psm.columnExtent.x * psm.packedSize ≤ pitch := by
    refine le_trans (Nat.mul_le_mul_right _ ?_) h.row
    rw [hx]
    exact Nat.le_mul_of_pos_left _ hblock
  have hline : psm.columnExtent.y / 4 * column + row < psm.columnExtent.y :=
    line_lt hpsm hcolumn hrow
  have hsmall : (psm.columnExtent.y / 4 * column + row) * pitch + 16 * part < 2 ^ 32 := by
    calc _ < (psm.columnExtent.y / 4 * column + row) * pitch + pitch := by omega
      _ = (psm.columnExtent.y / 4 * column + row + 1) * pitch := by ring
      _ ≤ psm.columnExtent.y * pitch := Nat.mul_le_mul_right _ hline
      _ ≤ (psm.pageExtent.y - psm.columnExtent.y) * pitch := Nat.mul_le_mul_right _ hpage
      _ ≤ 2 ^ 32 := by have := h.offsets; omega
  simp only [readOutModes, List.mem_cons, List.not_mem_nil, or_false] at hpsm
  rcases hpsm with rfl | rfl | rfl | rfl | rfl | rfl | rfl | rfl
  case inr.inr.inr.inr.inr.inr.inl | inr.inr.inr.inr.inr.inr.inr => exact offset4_eq hsmall
  all_goals exact offset2_eq hsmall

theorem columnRows_load (psm : PixelStorageMode) (data : Memory) (blockAddr column : ℕ) :
    columnRows psm column (loaduSi128 data (4 * ((blockAddr &&& 0x3FFF) * 64 + 16 * column) + 0))
        (loaduSi128 data (4 * ((blockAddr &&& 0x3FFF) * 64 + 16 * column) + 16))
        (loaduSi128 data (4 * ((blockAddr &&& 0x3FFF) * 64 + 16 * column) + 32))
        (loaduSi128 data (4 * ((blockAddr &&& 0x3FFF) * 64 + 16 * column) + 48)) =
      (numberRows psm column).map (List.map (element psm data (256 * (blockAddr % 2 ^ 14)) ∘ ·)) := by
  have hmask : blockAddr &&& 0x3FFF = blockAddr % 2 ^ 14 := Nat.and_two_pow_sub_one_eq_mod blockAddr 14
  have hsrc : 4 * ((blockAddr % 2 ^ 14) * 64 + 16 * column) = 256 * (blockAddr % 2 ^ 14) + 64 * column := by
    ring
  rw [hmask, hsrc]
  exact columnRows_eq psm data (256 * (blockAddr % 2 ^ 14)) column

theorem Pitch.expected_eq (h : Pitch psm pitch) (hpsm : psm ∈ readOutModes) {blockRow blockCol r c : ℕ}
    (hrow : blockRow < psm.blockExtent.y) (hcol : blockCol < psm.blockExtent.x)
    (hr : r < psm.columnExtent.y) (hc : c < psm.columnExtent.x * psm.packedSize) :
    expected psm data bp bw pitch (blockRow * psm.columnExtent.y * pitch +
        blockCol * psm.columnExtent.x * psm.packedSize + r * pitch + c) =
      element psm data (256 * ((bp + psm.blockTable.entry blockCol blockRow) % 2 ^ 14)) (rowNumber psm c r) := by
  obtain ⟨-, -, -, hx, hy, hW, hH, hs, -⟩ := extents_of_readOut hpsm
  have hcs : c / psm.packedSize < psm.columnExtent.x := by
    rwa [Nat.div_lt_iff_lt_mul hs]
  -- The pixel and its byte, in the page.
  have hpixelX : blockCol * psm.columnExtent.x + c / psm.packedSize < psm.pageExtent.x :=
    hx ▸ digits_lt hcol hcs
  have hpixelY : blockRow * psm.columnExtent.y + r < psm.pageExtent.y := hy ▸ digits_lt hrow hr
  have hbyte : blockCol * psm.columnExtent.x * psm.packedSize + c < pitch := by
    refine Nat.lt_of_lt_of_le ?_ h.row
    rw [hx, Nat.mul_assoc, Nat.mul_assoc]
    exact digits_lt hcol hc
  have hq : blockRow * psm.columnExtent.y * pitch + blockCol * psm.columnExtent.x * psm.packedSize +
      r * pitch + c = (blockCol * psm.columnExtent.x * psm.packedSize + c) +
        pitch * (blockRow * psm.columnExtent.y + r) := by ring
  have hqrow : (blockCol * psm.columnExtent.x * psm.packedSize + c +
      pitch * (blockRow * psm.columnExtent.y + r)) / pitch = blockRow * psm.columnExtent.y + r := by
    rw [Nat.add_mul_div_left _ _ (by omega), Nat.div_eq_of_lt hbyte, Nat.zero_add]
  have hqcol : (blockCol * psm.columnExtent.x * psm.packedSize + c +
      pitch * (blockRow * psm.columnExtent.y + r)) % pitch =
      c + blockCol * psm.columnExtent.x * psm.packedSize := by
    rw [Nat.add_mul_mod_self_left, Nat.mod_eq_of_lt hbyte, Nat.add_comm]
  rw [expected, hq, hqrow, hqcol, Nat.add_mul_div_right _ _ hs, Nat.add_mul_mod_self_right,
    Nat.add_comm (c / psm.packedSize), ← element_eq_readPixel hpsm hpixelX hpixelY (Nat.mod_lt _ hs)]
  -- The tables are looked up at the block and at the place in the block.
  have hblockX : (blockCol * psm.columnExtent.x + c / psm.packedSize) / psm.columnExtent.x = blockCol := by
    rw [Nat.add_comm, Nat.add_mul_div_right _ _ hW, Nat.div_eq_of_lt hcs, Nat.zero_add]
  have hblockY : (blockRow * psm.columnExtent.y + r) / psm.columnExtent.y = blockRow := by
    rw [Nat.add_comm, Nat.add_mul_div_right _ _ hH, Nat.div_eq_of_lt hr, Nat.zero_add]
  rw [blockId, columnId, hblockX, hblockY, Nat.mod_eq_of_lt hcol, Nat.mod_eq_of_lt hrow,
    Nat.mul_add_mod_self_right, Nat.mul_add_mod_self_right, Nat.mod_eq_of_lt hcs, Nat.mod_eq_of_lt hr,
    rowNumber]

theorem Pitch.readBlock_writes (h : Pitch psm pitch) (hpsm : psm ∈ readOutModes) {blockRow blockCol dst : ℕ}
    (hrow : blockRow < psm.blockExtent.y) (hcol : blockCol < psm.blockExtent.x)
    (hdst : dst = blockRow * psm.columnExtent.y * pitch + blockCol * psm.columnExtent.x * psm.packedSize) :
    Writes (readBlock (columnRows psm) (rowOffset psm pitch) · dst data
        ((bp + psm.blockTable.entry blockCol blockRow) % 2 ^ 32))
      {q | ∃ r < psm.columnExtent.y, ∃ c < psm.columnExtent.x * psm.packedSize, q = dst + r * pitch + c}
      (expected psm data bp bw pitch) := by
  obtain ⟨hrows, hparts, -⟩ := extents_of_readOut hpsm
  have hset : {q | ∃ r < psm.columnExtent.y, ∃ c < psm.columnExtent.x * psm.packedSize, q = dst + r * pitch + c} =
      {q | ∃ column ∈ List.range 4, q ∈ {q | ∃ r < psm.columnExtent.y / 4,
        ∃ p < psm.columnExtent.x * psm.packedSize / 16,
          dst + rowOffset psm pitch column r p ≤ q ∧ q < dst + rowOffset psm pitch column r p + 16}} := by
    ext q
    constructor
    · rintro ⟨r, hr, c, hc, rfl⟩
      have hpos : 0 < psm.columnExtent.y / 4 := by omega
      have hcolumn : r / (psm.columnExtent.y / 4) < 4 := by
        rw [Nat.div_lt_iff_lt_mul hpos]
        omega
      have hline : r % (psm.columnExtent.y / 4) < psm.columnExtent.y / 4 := Nat.mod_lt _ hpos
      have hpart : c / 16 < psm.columnExtent.x * psm.packedSize / 16 := by omega
      refine ⟨_, List.mem_range.mpr hcolumn, _, hline, _, hpart, ?_⟩
      rw [h.rowOffset_eq hpsm hcolumn hline hpart, Nat.div_add_mod]
      omega
    · rintro ⟨column, hcolumn, r, hr, p, hp, hle, hlt⟩
      rw [List.mem_range] at hcolumn
      rw [h.rowOffset_eq hpsm hcolumn hr hp] at hle hlt
      refine ⟨psm.columnExtent.y / 4 * column + r, ?_, q - (dst + (psm.columnExtent.y / 4 * column + r) * pitch),
        by omega, by omega⟩
      exact line_lt hpsm hcolumn hr
  rw [hset]
  refine Writes.foldl fun column hcolumn => ?_
  rw [List.mem_range] at hcolumn
  simp only [columnRows_load]
  have hnum := numberRows_rows hpsm hcolumn
  have hshape : Rows psm ((numberRows psm column).map (List.map (element psm data
      (256 * ((bp + psm.blockTable.entry blockCol blockRow) % 2 ^ 32 % 2 ^ 14)) ∘ ·))) := by
    refine ⟨by rw [List.length_map, hnum.length], fun row hrow => ?_⟩
    obtain ⟨row', hrow', rfl⟩ := List.mem_map.mp hrow
    rw [List.length_map, hnum.parts row' hrow']
  refine storeRows_writes hshape fun row hrow' part hpart i => ?_
  rw [List.zipIdx_map] at hrow'
  obtain ⟨numRow, hnumRow, rfl⟩ := List.mem_map.mp hrow'
  simp only [Prod.map_fst, Prod.map_snd, id, List.zipIdx_map] at hpart ⊢
  obtain ⟨numPart, hnumPart, rfl⟩ := List.mem_map.mp hpart
  simp only [Prod.map_fst, Prod.map_snd, id, Function.comp_apply]
  have hr : numRow.2 < psm.columnExtent.y / 4 := by
    rw [← hnum.length]
    exact List.snd_lt_of_mem_zipIdx hnumRow
  have hp : numPart.2 < psm.columnExtent.x * psm.packedSize / 16 := by
    rw [← hnum.parts _ (List.fst_mem_of_mem_zipIdx hnumRow)]
    exact List.snd_lt_of_mem_zipIdx hnumPart
  have hline := line_lt hpsm hcolumn hr
  have hbyte : 16 * numPart.2 + i < psm.columnExtent.x * psm.packedSize := by omega
  have hplace : dst + rowOffset psm pitch column numRow.2 numPart.2 + i =
      dst + (psm.columnExtent.y / 4 * column + numRow.2) * pitch + (16 * numPart.2 + i) := by
    rw [h.rowOffset_eq hpsm hcolumn hr hp]
    omega
  rw [hplace, hdst, h.expected_eq hpsm hrow hcol hline hbyte,
    numberRows_check hpsm column hcolumn numRow hnumRow numPart hnumPart i,
    Nat.mod_mod_of_dvd _ (pow_dvd_pow 2 (by omega))]

/-! ### Pages -/

theorem readPageFuncs_eq (psm : PixelStorageMode) (hpsm : psm ∈ readOutModes) :
    readPageFuncs psm = readPage psm psm.blockTable (fun output dst pitch data blockAddr =>
      readBlock (columnRows psm) (rowOffset psm pitch) output dst data blockAddr) psm.packedSize := by
  simp only [readOutModes, List.mem_cons, List.not_mem_nil, or_false] at hpsm
  rcases hpsm with rfl | rfl | rfl | rfl | rfl | rfl | rfl | rfl <;> rfl

section

variable (h : Pitch psm pitch) (hpsm : psm ∈ readOutModes)

include h hpsm

theorem Pitch.block_lt {blockRow blockCol : ℕ}
    (hrow : blockRow < psm.blockExtent.y) (hcol : blockCol < psm.blockExtent.x) :
    blockRow * psm.columnExtent.y * pitch + blockCol * psm.columnExtent.x * psm.packedSize < 2 ^ 32 := by
  obtain ⟨-, -, -, hx, hy, -⟩ := extents_of_readOut hpsm
  have hrows : blockRow * psm.columnExtent.y ≤ psm.pageExtent.y - psm.columnExtent.y := by
    rw [hy, ← Nat.sub_one_mul]
    exact Nat.mul_le_mul_right _ (by omega)
  have hcols : blockCol * psm.columnExtent.x ≤ psm.pageExtent.x - psm.columnExtent.x := by
    rw [hx, ← Nat.sub_one_mul]
    exact Nat.mul_le_mul_right _ (by omega)
  calc _ ≤ (psm.pageExtent.y - psm.columnExtent.y) * pitch + (psm.pageExtent.x - psm.columnExtent.x) * psm.packedSize :=
        Nat.add_le_add (Nat.mul_le_mul_right _ hrows) (Nat.mul_le_mul_right _ hcols)
    _ < 2 ^ 32 := h.offsets

/-- **A readout** writes the rows of the page, with the bytes of the pixels. -/
theorem Pitch.readPage_writes (data : Memory) (bp bw : ℕ) :
    Writes (readPageFuncs psm · pitch data bp)
      {q | ∃ y < psm.pageExtent.y, ∃ c < psm.pageExtent.x * psm.packedSize, q = y * pitch + c}
      (expected psm data bp bw pitch) := by
  obtain ⟨-, -, -, hx, hy, hW, hH, hs, -⟩ := extents_of_readOut hpsm
  have hset : {q | ∃ y < psm.pageExtent.y, ∃ c < psm.pageExtent.x * psm.packedSize, q = y * pitch + c} =
      {q | ∃ blockRow ∈ List.range psm.blockExtent.y, q ∈ {q | ∃ blockCol ∈ List.range psm.blockExtent.x,
        q ∈ {q | ∃ r < psm.columnExtent.y, ∃ c < psm.columnExtent.x * psm.packedSize,
          q = blockRow * psm.columnExtent.y * pitch + blockCol * psm.columnExtent.x * psm.packedSize +
            r * pitch + c}}} := by
    ext q
    constructor
    · rintro ⟨y, hypage, c, hcpage, rfl⟩
      have hwidth : 0 < psm.columnExtent.x * psm.packedSize := Nat.mul_pos hW hs
      rw [hx, Nat.mul_assoc] at hcpage
      rw [hy] at hypage
      refine ⟨y / psm.columnExtent.y, List.mem_range.mpr (Nat.div_lt_of_lt_mul (Nat.mul_comm _ _ ▸ hypage)),
        c / (psm.columnExtent.x * psm.packedSize),
        List.mem_range.mpr (Nat.div_lt_of_lt_mul (Nat.mul_comm _ _ ▸ hcpage)),
        y % psm.columnExtent.y, Nat.mod_lt _ hH, c % (psm.columnExtent.x * psm.packedSize),
        Nat.mod_lt _ hwidth, ?_⟩
      have hc := Nat.div_add_mod c (psm.columnExtent.x * psm.packedSize)
      have hyr := Nat.div_add_mod y psm.columnExtent.y
      nth_rewrite 1 [← hyr, ← hc]
      ring
    · rintro ⟨blockRow, hrow, blockCol, hcol, r, hr, c, hc, rfl⟩
      rw [List.mem_range] at hrow hcol
      refine ⟨blockRow * psm.columnExtent.y + r, hy ▸ digits_lt hrow hr,
        blockCol * (psm.columnExtent.x * psm.packedSize) + c, ?_, by ring⟩
      rw [hx, Nat.mul_assoc]
      exact digits_lt hcol hc
  rw [readPageFuncs_eq psm hpsm, hset]
  refine Writes.foldl fun blockRow hrow => ?_
  refine Writes.foldl fun blockCol hcol => ?_
  rw [List.mem_range] at hrow hcol
  simp only [Nat.mod_eq_of_lt (h.block_lt hpsm hrow hcol)]
  exact h.readBlock_writes hpsm hrow hcol rfl

end

/-- **Readouts agree with pixel reads.** For every mode with a readout, every memory, every base
block and every pitch that holds a row of the page, with the offsets of the blocks in 32 bits: the
output at each pixel of the page is what reading the pixel gives, and nothing else is written. -/
theorem readPage_eq_readPixel (hpsm : psm ∈ readOutModes) (h : Pitch psm pitch) (output data : Memory)
    (bp bw : ℕ) :
    (∀ x < psm.pageExtent.x, ∀ y < psm.pageExtent.y,
      load (readPageFuncs psm output pitch data bp) (y * pitch + x * psm.packedSize) psm.packedSize =
        readPixelFuncs psm data bp bw x y) ∧
      ∀ q, (∀ y < psm.pageExtent.y, ¬ (y * pitch ≤ q ∧ q < y * pitch + psm.pageExtent.x * psm.packedSize)) →
        readPageFuncs psm output pitch data bp q = output q := by
  have hwrites := h.readPage_writes hpsm data bp bw
  obtain ⟨-, -, -, -, -, -, -, hs, -⟩ := extents_of_readOut hpsm
  constructor
  · intro x hx y hy
    refine load_eq_of_bytes ?_ fun b hb => ?_
    · rw [readPixelFuncs_eq]
      exact read_lt.trans_le (Nat.pow_le_pow_right (by omega) psm.bitsPerPixel_le)
    · have hc : x * psm.packedSize + b < psm.pageExtent.x * psm.packedSize := digits_lt hx hb
      have hplace : y * pitch + x * psm.packedSize + b = (x * psm.packedSize + b) + pitch * y := by ring
      have hpitch : x * psm.packedSize + b < pitch := hc.trans_le h.row
      rw [hwrites.on output _ ⟨y, hy, _, hc, by rw [hplace]; ring⟩, expected, hplace,
        Nat.add_mul_mod_self_left, Nat.mod_eq_of_lt hpitch, Nat.add_mul_div_left _ _ (by omega),
        Nat.div_eq_of_lt hpitch, Nat.zero_add, Nat.mul_add_mod_self_right, Nat.mod_eq_of_lt hb,
        Nat.add_comm, Nat.add_mul_div_right _ _ hs, Nat.div_eq_of_lt hb, Nat.zero_add]
  · intro q hq
    refine hwrites.off output q ?_
    rintro ⟨y, hy, c, hc, rfl⟩
    exact hq y hy ⟨by omega, by omega⟩

/-- The page of nibbles at the last block of memory, which wraps around its end. -/
theorem p4_wrap_readPage :
    p4 ∈ readOutModes ∧ Pitch p4 128 ∧
      load (readPageFuncs p4 (fun _ => 0) 128 (fun p => BitVec.ofNat 8 p) 16383) (5 * 128 + 9 * 1) 1 =
        readPixelFuncs p4 (fun p => BitVec.ofNat 8 p) 16383 2 9 5 := by
  have hpsm : p4 ∈ readOutModes := by decide
  have h : Pitch p4 128 := ⟨by decide, by decide⟩
  exact ⟨hpsm, h, (readPage_eq_readPixel hpsm h (fun _ => 0) (fun p => BitVec.ofNat 8 p) 16383 2).1 9
    (by decide) 5 (by decide)⟩

/-- With a pitch of 2^31 the offset of the third row wraps around to the first: the row is not
written where the pitch puts it. -/
theorem readPage_offset_wraps :
    c32.pageExtent.x * c32.packedSize ≤ 2 ^ 31 ∧
      load (readPageFuncs c32 (fun _ => 0) (2 ^ 31) (fun _ => 1) 0) (2 * 2 ^ 31 + 0 * c32.packedSize)
        c32.packedSize ≠ readPixelFuncs c32 (fun _ => 1) 0 1 0 2 := by
  decide +kernel

end Ps2Recomp.GSMem
