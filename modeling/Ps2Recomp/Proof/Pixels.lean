import Ps2Recomp.Spec.GsMemory
import Mathlib.Data.List.Nodup
import Mathlib.Data.List.Perm.Subperm
import Mathlib.Data.Nat.ModEq
import Mathlib.Algebra.Group.Even

/-!
# Pixels of GS memory

A mode keeps each pixel in a field of bits of its own, which `read` reads and `write` writes and
which is found from the tables.

* `testBit_read`, `bit_write`: the accesses of every mode in terms of its field.
* `blockTable_numbers`, `columnTable_numbers`: the tables give each cell a number of its own.
* `place_lookup`: the field of a pixel, from its page, block and column.
* `readPixel_writePixel`: pixels are independent.
-/

namespace Ps2Recomp.GSMem

open Bytes PixelStorageMode

namespace PixelStorageMode

/-! ### The field of a pixel -/

/-- The first bit of the field of the pixel at `address`, in the 2^25 bits of memory. -/
def place (psm : PixelStorageMode) (address : ℕ) : ℕ :=
  (address * psm.unpackedBitWidth + psm.bitOffset) % 2 ^ 25

variable {psm : PixelStorageMode} {data : Memory} {a v i k : ℕ}

/-- Masking a multiple of the size of an access wraps it around the memory. -/
theorem and_mask {x s : ℕ} (hs : s ≤ 22) (hx : 2 ^ s ∣ x) : x &&& (2 ^ 22 - 2 ^ s) = x % 2 ^ 22 := by
  obtain ⟨c, rfl⟩ := hx
  have hmask : 2 ^ 22 - 2 ^ s = (2 ^ (22 - s) - 1) <<< s := by
    rw [Nat.shiftLeft_eq, Nat.sub_mul, ← pow_add, Nat.sub_add_cancel hs, Nat.one_mul]
  have hsplit : 2 ^ 22 = 2 ^ s * 2 ^ (22 - s) := by rw [← pow_add, Nat.add_sub_cancel' hs]
  rw [hmask, Nat.mul_comm, ← Nat.shiftLeft_eq, ← Nat.shiftLeft_and_distrib,
    Nat.and_two_pow_sub_one_eq_mod, Nat.shiftLeft_eq, Nat.shiftLeft_eq, Nat.mul_comm,
    Nat.mul_comm c, hsplit, Nat.mul_mod_mul_left]

theorem exists_packedSize (psm : PixelStorageMode) : ∃ s ≤ 2, psm.packedSize = 2 ^ s := by
  cases psm
  case c32 | c24 | z32 | z24 => exact ⟨2, by omega, rfl⟩
  case c16 | c16s | z16 | z16s => exact ⟨1, by omega, rfl⟩
  case p8 | p4 | p8h | p4hl | p4hh => exact ⟨0, by omega, rfl⟩

theorem packedSize_dvd : psm.packedSize ∣ psm.bits a / 8 := by
  cases psm <;> simp only [bits, packedSize, unpackedBitWidth, bitOffset] <;> omega

theorem byteAddr_eq : psm.byteAddr a = psm.bits a / 8 % 2 ^ 22 := by
  obtain ⟨s, hs, hsize⟩ := psm.exists_packedSize
  have hd : psm.packedSize ∣ psm.bits a / 8 := packedSize_dvd
  rw [hsize] at hd
  rw [byteAddr, hsize, memorySize]
  exact and_mask (by omega) hd

theorem place_eq_byteAddr : psm.place a = 8 * psm.byteAddr a + psm.bits a % 8 := by
  rw [byteAddr_eq, place, bits]
  omega

theorem testBit_0x0F (i : ℕ) : Nat.testBit 0x0F i = decide (i < 4) := Nat.testBit_two_pow_sub_one 4 i

theorem testBit_0xFF (i : ℕ) : Nat.testBit 0xFF i = decide (i < 8) := Nat.testBit_two_pow_sub_one 8 i

theorem testBit_0xFFFFFF (i : ℕ) : Nat.testBit 0x00FFFFFF i = decide (i < 24) :=
  Nat.testBit_two_pow_sub_one 24 i

theorem place_of_byte (h : 8 ≤ psm.bitsPerPixel) : psm.place a = 8 * psm.byteAddr a := by
  have h8 : psm.bits a % 8 = 0 := by
    cases psm <;> simp only [bitsPerPixel, bits, unpackedBitWidth, bitOffset] at * <;> omega
  rw [place_eq_byteAddr, h8, Nat.add_zero]

theorem shift_le : psm.bits a % 8 ≤ 4 := by
  cases psm <;> simp only [bits, unpackedBitWidth, bitOffset] <;> omega

/-- **Reading a pixel** reads its field. -/
theorem testBit_read : (psm.read data a).testBit i = (decide (i < psm.bitsPerPixel) && bit data (psm.place a + i)) := by
  have hplace : psm.place a = 8 * psm.byteAddr a + psm.bits a % 8 := place_eq_byteAddr
  have hshift : psm.bits a % 8 ≤ 4 := shift_le
  cases psm
  case c32 | z32 | c16 | c16s | z16 | z16s | p8 | p8h =>
    rw [place_of_byte (by decide)]
    exact testBit_load i
  case c24 | z24 =>
    rw [place_of_byte (by decide)]
    simp only [read]
    rw [Nat.testBit_and, testBit_load, testBit_0xFFFFFF, packedSize, bitsPerPixel]
    by_cases hi : i < 24
    · simp [hi, show i < 8 * 4 by omega]
    · simp [hi]
  case p4 | p4hl | p4hh =>
    simp only [read]
    rw [Nat.testBit_and, Nat.testBit_shiftRight, testBit_load, testBit_0x0F, packedSize,
      bitsPerPixel, hplace, Nat.add_assoc]
    by_cases hi : i < 4
    · simp only [hi, decide_true, Bool.and_true, Bool.true_and]
      rw [decide_eq_true (by omega), Bool.true_and]
    · simp [hi]

theorem testBit_nibble {old s : ℕ} (hi : i < 8) :
    ((old &&& (0xFF ^^^ (0x0F <<< s))) ||| ((v &&& 0x0F) <<< s)).testBit i =
      if s ≤ i ∧ i < s + 4 then v.testBit (i - s) else old.testBit i := by
  rw [Nat.testBit_or, Nat.testBit_and, Nat.testBit_xor, Nat.testBit_shiftLeft, Nat.testBit_shiftLeft,
    Nat.testBit_and, testBit_0xFF, testBit_0x0F, decide_eq_true hi]
  by_cases h1 : s ≤ i
  · by_cases h2 : i < s + 4
    · simp [h1, h2, show i - s < 4 by omega]
    · simp [h1, h2, show ¬ i - s < 4 by omega]
  · simp [h1]

theorem testBit_word24 {old : ℕ} (hi : i < 32) :
    ((old &&& 0xFF000000) ||| (v &&& 0x00FFFFFF)).testBit i =
      if i < 24 then v.testBit i else old.testBit i := by
  have hhigh : Nat.testBit 0xFF000000 i = decide (24 ≤ i) := by
    rw [show 0xFF000000 = 0xFF <<< 24 from rfl, Nat.testBit_shiftLeft, testBit_0xFF,
      decide_eq_true (show i - 24 < 8 by omega), Bool.and_true]
  rw [Nat.testBit_or, Nat.testBit_and, Nat.testBit_and, hhigh, testBit_0xFFFFFF]
  by_cases h : i < 24
  · simp [h, show ¬ 24 ≤ i by omega]
  · simp [h, show 24 ≤ i by omega]

/-- **Writing a pixel** sets its field and leaves all other bits. -/
theorem bit_write :
    bit (psm.write data a v) k =
      if psm.place a ≤ k ∧ k < psm.place a + psm.bitsPerPixel then v.testBit (k - psm.place a)
      else bit data k := by
  have hplace : psm.place a = 8 * psm.byteAddr a + psm.bits a % 8 := place_eq_byteAddr
  have hshift : psm.bits a % 8 ≤ 4 := shift_le
  cases psm
  case c32 | z32 | c16 | c16s | z16 | z16s | p8 | p8h =>
    rw [place_of_byte (by decide)]
    exact bit_store k
  -- The bits of the access that are not in the field are written back as they were read.
  case c24 | z24 =>
    rw [place_of_byte (by decide)]
    simp only [write]
    rw [bit_store, packedSize, bitsPerPixel]
    split_ifs with h1 h2 h2
    · rw [testBit_word24 (by omega), if_pos (by omega)]
    · rw [testBit_word24 (by omega), if_neg (by omega), testBit_load, decide_eq_true (by omega),
        Bool.true_and, Nat.add_sub_cancel' h1.1]
    · omega
    · rfl
  case p4 | p4hl | p4hh =>
    simp only [write]
    rw [bit_store, packedSize, bitsPerPixel, hplace]
    split_ifs with h1 h2 h2
    · rw [testBit_nibble (by omega), if_pos (by omega), Nat.sub_sub]
    · rw [testBit_nibble (by omega), if_neg (by omega), testBit_load, decide_eq_true (by omega),
        Bool.true_and, Nat.add_sub_cancel' h1.1]
    · omega
    · rfl

theorem bitsPerPixel_le (psm : PixelStorageMode) : psm.bitsPerPixel ≤ 8 * psm.packedSize := by
  cases psm <;> decide

theorem read_lt : psm.read data a < 2 ^ psm.bitsPerPixel := by
  refine Nat.lt_pow_two_of_testBit _ fun i hi => ?_
  rw [testBit_read, decide_eq_false (by omega), Bool.false_and]

theorem read_write_self : psm.read (psm.write data a v) a = v % 2 ^ psm.bitsPerPixel := by
  refine Nat.eq_of_testBit_eq fun i => ?_
  rw [testBit_read, bit_write, Nat.testBit_mod_two_pow]
  by_cases hi : i < psm.bitsPerPixel
  · rw [if_pos (by omega), Nat.add_sub_cancel_left]
  · simp [hi]

theorem read_write_of_disjoint {a' : ℕ}
    (h : psm.place a + psm.bitsPerPixel ≤ psm.place a' ∨ psm.place a' + psm.bitsPerPixel ≤ psm.place a) :
    psm.read (psm.write data a v) a' = psm.read data a' := by
  refine Nat.eq_of_testBit_eq fun i => ?_
  rw [testBit_read, testBit_read, bit_write]
  by_cases hi : i < psm.bitsPerPixel
  · rw [if_neg (by omega)]
  · simp [hi]

end PixelStorageMode

/-! ### Tables -/

theorem digits_lt {n b c k : ℕ} (hb : b < k) (hc : c < n) : b * n + c < k * n := by
  calc b * n + c < b * n + n := Nat.add_lt_add_left hc _
    _ = (b + 1) * n := by ring
    _ ≤ k * n := Nat.mul_le_mul_right _ hb

/-- The digits of a number to the base `n`. -/
theorem digits_inj {n b c b' c' : ℕ} (hc : c < n) (hc' : c' < n) (h : b * n + c = b' * n + c') : b = b' ∧ c = c' := by
  have hpos : 0 < n := by omega
  have hdiv : ∀ b c : ℕ, c < n → (b * n + c) / n = b := by
    intro b c hc
    rw [Nat.add_comm, Nat.add_mul_div_right _ _ hpos, Nat.div_eq_of_lt hc, Nat.zero_add]
  have hb : b = b' := by rw [← hdiv b c hc, h, hdiv b' c' hc']
  subst hb
  exact ⟨rfl, Nat.add_left_cancel h⟩

/-- A table that numbers the cells of an extent, each with a number of its own. -/
structure LookupTable.Numbers (table : LookupTable) (extent : Extent2D) : Prop where
  lt : ∀ x < extent.x, ∀ y < extent.y, table.entry x y < extent.x * extent.y
  inj : ∀ x < extent.x, ∀ y < extent.y, ∀ x' < extent.x, ∀ y' < extent.y,
    table.entry x y = table.entry x' y' → x = x' ∧ y = y'

/-- The entries of a table, row by row. -/
def LookupTable.cells (table : LookupTable) (extent : Extent2D) : List ℕ :=
  (List.range (extent.x * extent.y)).map fun i => table.entry (i % extent.x) (i / extent.x)

/-- The set of the entries of a table, as a bit mask. -/
def LookupTable.mask (table : LookupTable) (extent : Extent2D) : ℕ :=
  (table.cells extent).foldl (fun m c => m ||| 1 <<< c) 0

theorem testBit_foldl_mask (l : List ℕ) (m i : ℕ) :
    (l.foldl (fun m c => m ||| 1 <<< c) m).testBit i = (m.testBit i || decide (i ∈ l)) := by
  induction l generalizing m with
  | nil => simp
  | cons c l ih =>
    rw [List.foldl_cons, ih, Nat.testBit_or, Nat.one_shiftLeft, Nat.testBit_two_pow, Bool.or_assoc]
    simp [eq_comm]

section

variable {table : LookupTable} {extent : Extent2D} (h : table.mask extent = 2 ^ (extent.x * extent.y) - 1)

include h

theorem LookupTable.cells_perm : (List.range (extent.x * extent.y)).Perm (table.cells extent) := by
  have hsub : List.range (extent.x * extent.y) ⊆ table.cells extent := by
    intro c hc
    have hbit := testBit_foldl_mask (table.cells extent) 0 c
    rw [← LookupTable.mask, h, Nat.testBit_two_pow_sub_one, Nat.zero_testBit, Bool.false_or,
      decide_eq_true (List.mem_range.mp hc)] at hbit
    exact of_decide_eq_true hbit.symm
  refine (List.subperm_of_subset List.nodup_range hsub).perm_of_length_le ?_
  simp [LookupTable.cells]

theorem LookupTable.Numbers.of_mask : table.Numbers extent := by
  have hperm := LookupTable.cells_perm h
  have hnodup : (table.cells extent).Nodup := hperm.nodup_iff.mp List.nodup_range
  have hcell : ∀ x < extent.x, ∀ y < extent.y, (x + extent.x * y) ∈ List.range (extent.x * extent.y) ∧
      (x + extent.x * y) % extent.x = x ∧ (x + extent.x * y) / extent.x = y := by
    intro x hx y hy
    have hpos : 0 < extent.x := by omega
    refine ⟨List.mem_range.mpr ?_, ?_, ?_⟩
    · calc x + extent.x * y < extent.x + extent.x * y := by omega
        _ = extent.x * (y + 1) := by ring
        _ ≤ extent.x * extent.y := Nat.mul_le_mul_left _ hy
    · rw [Nat.add_mul_mod_self_left, Nat.mod_eq_of_lt hx]
    · rw [Nat.add_mul_div_left _ _ hpos, Nat.div_eq_of_lt hx, Nat.zero_add]
  constructor
  · intro x hx y hy
    obtain ⟨hmem, hmod, hdiv⟩ := hcell x hx y hy
    refine List.mem_range.mp (hperm.mem_iff.mpr (List.mem_map.mpr ⟨_, hmem, ?_⟩))
    rw [hmod, hdiv]
  · intro x hx y hy x' hx' y' hy' he
    obtain ⟨hmem, hmod, hdiv⟩ := hcell x hx y hy
    obtain ⟨hmem', hmod', hdiv'⟩ := hcell x' hx' y' hy'
    have hi := List.inj_on_of_nodup_map hnodup hmem hmem' (by rw [hmod, hdiv, hmod', hdiv', he])
    rw [hi] at hmod hdiv
    exact ⟨hmod.symm.trans hmod', hdiv.symm.trans hdiv'⟩

end

/-- The modes with tables of their own. -/
def PixelStorageMode.tableMode : PixelStorageMode → PixelStorageMode
  | c24 | p8h | p4hl | p4hh => c32
  | z24 => z32
  | psm => psm

def PixelStorageMode.blockTable : PixelStorageMode → LookupTable
  | c32 | c24 | p8h | p4hl | p4hh => blockTableC32
  | z32 | z24 => blockTableZ32
  | c16 => blockTableC16
  | c16s => blockTableC16S
  | z16 => blockTableZ16
  | z16s => blockTableZ16S
  | p8 => blockTableP8
  | p4 => blockTableP4

def PixelStorageMode.columnTable : PixelStorageMode → LookupTable
  | c32 | c24 | p8h | p4hl | p4hh | z32 | z24 => columnTable32
  | c16 | c16s | z16 | z16s => columnTable16
  | p8 => columnTable8
  | p4 => columnTable4

section

variable (psm : PixelStorageMode)

theorem blockTable_numbers : psm.blockTable.Numbers psm.tableMode.blockExtent := by
  apply LookupTable.Numbers.of_mask
  cases psm <;> decide +kernel

theorem columnTable_numbers : psm.columnTable.Numbers psm.tableMode.columnExtent := by
  apply LookupTable.Numbers.of_mask
  cases psm <;> decide +kernel

end

/-! ### Pixels of a buffer -/

namespace PixelStorageMode

variable {psm : PixelStorageMode} {data : Memory} {bp bw x y x' y' : ℕ}

/-- The number of a pixel in its page. -/
def inPage (psm : PixelStorageMode) (x y : ℕ) : ℕ :=
  psm.tableMode.blockId psm.blockTable x y * psm.tableMode.pixelsPerBlock + psm.tableMode.columnId psm.columnTable x y

/-- The number of a pixel in its buffer. -/
def inBuffer (psm : PixelStorageMode) (bw x y : ℕ) : ℕ :=
  psm.pageId 0 bw x y * psm.pixelsPerPage + psm.inPage x y

section

variable (psm : PixelStorageMode)

theorem pageExtent_x : psm.pageExtent.x = psm.tableMode.blockExtent.x * psm.tableMode.columnExtent.x := by
  cases psm <;> rfl

theorem pageExtent_y : psm.pageExtent.y = psm.tableMode.blockExtent.y * psm.tableMode.columnExtent.y := by
  cases psm <;> rfl

theorem pixelsPerPage_eq : psm.pixelsPerPage = 32 * psm.tableMode.pixelsPerBlock := by
  cases psm <;> rfl

theorem pixelsPerBlock_mul : psm.tableMode.pixelsPerBlock * psm.unpackedBitWidth = 2048 := by
  cases psm <;> rfl

theorem pixelAddressFuncs_eq : pixelAddressFuncs psm =
    psm.tableMode.address (psm.tableMode.initPageLookupTable psm.blockTable psm.columnTable) := by
  cases psm <;> rfl

theorem columnId_lt (x y : ℕ) : psm.tableMode.columnId psm.columnTable x y < psm.tableMode.pixelsPerBlock := by
  have hpos : 0 < psm.tableMode.columnExtent.x ∧ 0 < psm.tableMode.columnExtent.y := by
    cases psm <;> decide
  exact (columnTable_numbers psm).lt _ (Nat.mod_lt _ hpos.1) _ (Nat.mod_lt _ hpos.2)

theorem blockId_lt (x y : ℕ) : psm.tableMode.blockId psm.blockTable x y < 32 := by
  have hpos : 0 < psm.tableMode.blockExtent.x ∧ 0 < psm.tableMode.blockExtent.y ∧
      psm.tableMode.blockExtent.x * psm.tableMode.blockExtent.y = 32 := by
    cases psm <;> decide
  rw [← hpos.2.2]
  exact (blockTable_numbers psm).lt _ (Nat.mod_lt _ hpos.1) _ (Nat.mod_lt _ hpos.2.1)

theorem inPage_lt (x y : ℕ) : psm.inPage x y < psm.pixelsPerPage := by
  rw [pixelsPerPage_eq]
  exact digits_lt (psm.blockId_lt x y) (psm.columnId_lt x y)

end

/-- The pixels of a page have different numbers. -/
theorem inPage_inj (h : psm.inPage x y = psm.inPage x' y') :
    x % psm.pageExtent.x = x' % psm.pageExtent.x ∧ y % psm.pageExtent.y = y' % psm.pageExtent.y := by
  have hpos : 0 < psm.tableMode.columnExtent.x ∧ 0 < psm.tableMode.columnExtent.y ∧
      0 < psm.tableMode.blockExtent.x ∧ 0 < psm.tableMode.blockExtent.y := by
    cases psm <;> decide
  obtain ⟨hcx, hcy, hbx, hby⟩ := hpos
  have hc := psm.columnId_lt x y
  have hc' := psm.columnId_lt x' y'
  obtain ⟨hblock, hcolumn⟩ := digits_inj hc hc' h
  obtain ⟨h1, h2⟩ := (blockTable_numbers psm).inj _ (Nat.mod_lt _ hbx) _ (Nat.mod_lt _ hby) _
    (Nat.mod_lt _ hbx) _ (Nat.mod_lt _ hby) hblock
  obtain ⟨h3, h4⟩ := (columnTable_numbers psm).inj _ (Nat.mod_lt _ hcx) _ (Nat.mod_lt _ hcy) _
    (Nat.mod_lt _ hcx) _ (Nat.mod_lt _ hcy) hcolumn
  rw [pageExtent_x, pageExtent_y, Nat.mul_comm _ (columnExtent _).x, Nat.mul_comm _ (columnExtent _).y,
    Nat.mod_mul, Nat.mod_mul, Nat.mod_mul, Nat.mod_mul, h1, h2, h3, h4]
  exact ⟨rfl, rfl⟩

section

variable (psm : PixelStorageMode)

theorem columnId_mod (x y : ℕ) : psm.tableMode.columnId psm.columnTable (x % psm.pageExtent.x) (y % psm.pageExtent.y) =
    psm.tableMode.columnId psm.columnTable x y := by
  rw [columnId, columnId, pageExtent_x, pageExtent_y, Nat.mod_mul_left_mod, Nat.mod_mul_left_mod]

theorem blockId_mod (x y : ℕ) : psm.tableMode.blockId psm.blockTable (x % psm.pageExtent.x) (y % psm.pageExtent.y) =
    psm.tableMode.blockId psm.blockTable x y := by
  rw [blockId, blockId, pageExtent_x, pageExtent_y, Nat.mod_mul_left_div_self,
    Nat.mod_mul_left_div_self, Nat.mod_mod, Nat.mod_mod]

theorem initPageLookupTable_eq {block : ℕ} (hblock : block < 32) (x y : ℕ) :
    psm.tableMode.initPageLookupTable psm.blockTable psm.columnTable block
        (y % psm.pageExtent.y) (x % psm.pageExtent.x) =
      block * psm.tableMode.pixelsPerBlock + psm.inPage x y := by
  have hsize : psm.pixelsPerPage ≤ 2 ^ 14 := by cases psm <;> decide
  have hpage := psm.inPage_lt x y
  have hstart : block * psm.tableMode.pixelsPerBlock ≤ psm.pixelsPerPage := by
    rw [pixelsPerPage_eq]
    exact Nat.mul_le_mul_right _ hblock.le
  rw [initPageLookupTable, columnId_mod, blockId_mod, Nat.add_mul, Nat.add_assoc, ← inPage, Nat.mod_eq_of_lt (by omega)]

/-- **The field of a pixel**: its buffer starts at the block `bp` of 2048 bits. -/
theorem place_lookup (bp bw x y : ℕ) : psm.place (pixelAddressFuncs psm bp bw x y) =
    (2048 * bp + psm.inBuffer bw x y * psm.unpackedBitWidth + psm.bitOffset) % 2 ^ 25 := by
  have hmod : ∀ n : ℕ, n % 2 ^ 32 ≡ n [MOD 2 ^ 25] := fun n =>
    (Nat.mod_modEq n (2 ^ 32)).of_dvd (pow_dvd_pow 2 (by omega))
  have hpage : psm.tableMode.pageId bp bw x y = bp / 32 + psm.pageId 0 bw x y := by
    cases psm <;> simp only [pageId, tableMode, blocksPerPage, blockExtent, pageExtent] <;> omega
  have hblocks : psm.tableMode.blocksPerPage = 32 := by cases psm <;> rfl
  have hextent : psm.tableMode.pageExtent = psm.pageExtent := by cases psm <;> rfl
  have hpixels : psm.tableMode.pixelsPerPage = psm.pixelsPerPage := by cases psm <;> rfl
  have hbits : psm.pixelsPerPage * psm.unpackedBitWidth = 65536 := by
    rw [pixelsPerPage_eq, Nat.mul_assoc, pixelsPerBlock_mul]
  -- The reductions to 32 bits keep the address in the 2^25 bits of memory.
  have haddr : pixelAddressFuncs psm bp bw x y ≡ (bp / 32 + psm.pageId 0 bw x y) * psm.pixelsPerPage +
      (bp % 32 * psm.tableMode.pixelsPerBlock + psm.inPage x y) [MOD 2 ^ 25] := by
    rw [pixelAddressFuncs_eq, address, hpage, hblocks, hextent, hpixels,
      initPageLookupTable_eq _ (Nat.mod_lt _ (by omega))]
    exact (hmod _).trans (((hmod _).mul_right _).add_right _)
  have hsum : ((bp / 32 + psm.pageId 0 bw x y) * psm.pixelsPerPage +
      (bp % 32 * psm.tableMode.pixelsPerBlock + psm.inPage x y)) * psm.unpackedBitWidth =
      2048 * bp + psm.inBuffer bw x y * psm.unpackedBitWidth := by
    have hblock := psm.pixelsPerBlock_mul
    have hbp := Nat.div_add_mod bp 32
    rw [inBuffer]
    generalize psm.pageId 0 bw x y = r at *
    calc _ = bp / 32 * (psm.pixelsPerPage * psm.unpackedBitWidth) +
          bp % 32 * (psm.tableMode.pixelsPerBlock * psm.unpackedBitWidth) +
          (r * psm.pixelsPerPage + psm.inPage x y) * psm.unpackedBitWidth := by ring
      _ = _ := by
        rw [hbits, hblock]
        omega
  rw [place, ← hsum]
  exact (haddr.mul_right _).add_right _

theorem place_firstPage (bp bw : ℕ) (hx : x < psm.pageExtent.x) (hy : y < psm.pageExtent.y) :
    psm.place (pixelAddressFuncs psm bp bw x y) =
      2048 * ((bp + psm.tableMode.blockId psm.blockTable x y) % 2 ^ 14) +
        psm.tableMode.columnId psm.columnTable x y * psm.unpackedBitWidth + psm.bitOffset := by
  have hpage : psm.pageId 0 bw x y = 0 := by
    rw [pageId, Nat.div_eq_of_lt hx, Nat.div_eq_of_lt hy]
    simp
  have hblock := psm.pixelsPerBlock_mul
  have hoffset : psm.bitOffset < psm.unpackedBitWidth := by cases psm <;> decide
  have hcolumn : psm.tableMode.columnId psm.columnTable x y * psm.unpackedBitWidth + psm.unpackedBitWidth ≤ 2048 := by
    calc _ = (psm.tableMode.columnId psm.columnTable x y + 1) * psm.unpackedBitWidth := by ring
      _ ≤ psm.tableMode.pixelsPerBlock * psm.unpackedBitWidth :=
        Nat.mul_le_mul_right _ (psm.columnId_lt x y)
      _ = 2048 := hblock
  have hsum : psm.inBuffer bw x y * psm.unpackedBitWidth =
      2048 * psm.tableMode.blockId psm.blockTable x y +
        psm.tableMode.columnId psm.columnTable x y * psm.unpackedBitWidth := by
    rw [inBuffer, hpage, inPage, ← hblock]
    ring
  rw [place_lookup, hsum]
  omega

end

/-- The pixel is in the rows of a buffer of `bw` times 64 pixels, and the rows of pages down to it
have at most the 512 pages of memory. -/
structure Fits (psm : PixelStorageMode) (bw x y : ℕ) : Prop where
  column : x < 64 * bw
  pages : (y / psm.pageExtent.y + 1) * (64 * bw / psm.pageExtent.x) ≤ 512

/-- The rows of the buffer are whole pages: those of 8 and 4 bit pixels are 128 pixels wide. -/
def WholePages (psm : PixelStorageMode) (bw : ℕ) : Prop := psm = p8 ∨ psm = p4 → Even bw

theorem WholePages.dvd (h : psm.WholePages bw) : psm.pageExtent.x ∣ 64 * bw := by
  cases psm
  case p8 =>
    obtain ⟨c, hc⟩ := h (.inl rfl)
    exact ⟨c, by simp only [pageExtent]; omega⟩
  case p4 =>
    obtain ⟨c, hc⟩ := h (.inr rfl)
    exact ⟨c, by simp only [pageExtent]; omega⟩
  all_goals exact ⟨bw, rfl⟩

section

variable (h : psm.Fits bw x y)

include h

theorem Fits.pageId_eq :
    psm.pageId 0 bw x y = y / psm.pageExtent.y * (64 * bw / psm.pageExtent.x) + x / psm.pageExtent.x := by
  have hwidth : psm.pageExtent.x ≤ 128 ∧ 0 < psm.pageExtent.x := by cases psm <;> decide
  have hpages := h.pages
  rw [Nat.add_mul, Nat.one_mul] at hpages
  have hrow : 64 * bw < 513 * psm.pageExtent.x := by
    rw [← Nat.div_lt_iff_lt_mul hwidth.2]
    omega
  have hrows := Nat.le_of_add_right_le hpages
  rw [pageId, Nat.zero_div, Nat.zero_add, Nat.mul_comm bw, Nat.mod_eq_of_lt (by omega : 64 * bw < 2 ^ 32),
    Nat.mod_eq_of_lt (by omega)]

theorem Fits.column_lt (hbw : psm.WholePages bw) : x / psm.pageExtent.x < 64 * bw / psm.pageExtent.x :=
  Nat.div_lt_div_of_lt_of_dvd hbw.dvd h.column

theorem Fits.inBuffer_lt (hbw : psm.WholePages bw) : psm.inBuffer bw x y < 512 * psm.pixelsPerPage := by
  have hpage : psm.pageId 0 bw x y < 512 := by
    have hcol := h.column_lt hbw
    have hpages := h.pages
    rw [Nat.add_mul, Nat.one_mul] at hpages
    rw [h.pageId_eq]
    omega
  exact digits_lt hpage (psm.inPage_lt x y)

/-- **The pixels of a buffer have different numbers.** -/
theorem Fits.inBuffer_inj (h' : psm.Fits bw x' y') (hbw : psm.WholePages bw)
    (he : psm.inBuffer bw x y = psm.inBuffer bw x' y') : x = x' ∧ y = y' := by
  obtain ⟨hpage, hin⟩ := digits_inj (psm.inPage_lt x y) (psm.inPage_lt x' y') he
  rw [h.pageId_eq, h'.pageId_eq] at hpage
  obtain ⟨hrow, hcol⟩ := digits_inj (h.column_lt hbw) (h'.column_lt hbw) hpage
  obtain ⟨hx, hy⟩ := inPage_inj hin
  constructor
  · rw [← Nat.div_add_mod x psm.pageExtent.x, hcol, hx, Nat.div_add_mod]
  · rw [← Nat.div_add_mod y psm.pageExtent.y, hrow, hy, Nat.div_add_mod]

end

section

variable (psm : PixelStorageMode)

theorem place_slot (bp bw x y : ℕ) :
    psm.place (pixelAddressFuncs psm bp bw x y) =
      psm.unpackedBitWidth * ((psm.tableMode.pixelsPerBlock * bp + psm.inBuffer bw x y) %
        (512 * psm.pixelsPerPage)) + psm.bitOffset := by
  have hblock := psm.pixelsPerBlock_mul
  have hsize : psm.unpackedBitWidth * (512 * psm.pixelsPerPage) = 2 ^ 25 := by
    rw [pixelsPerPage_eq]
    calc _ = 512 * 32 * (psm.tableMode.pixelsPerBlock * psm.unpackedBitWidth) := by ring
      _ = 2 ^ 25 := by
        rw [hblock]
        norm_num
  have hoffset : psm.bitOffset < psm.unpackedBitWidth := by cases psm <;> decide
  have hsum : 2048 * bp + psm.inBuffer bw x y * psm.unpackedBitWidth + psm.bitOffset =
      psm.bitOffset + psm.unpackedBitWidth * (psm.tableMode.pixelsPerBlock * bp + psm.inBuffer bw x y) := by
    rw [← hblock]
    ring
  rw [place_lookup, hsum, ← hsize, Nat.mod_mul, Nat.add_mul_mod_self_left, Nat.mod_eq_of_lt hoffset,
    Nat.add_mul_div_left _ _ (by omega), Nat.div_eq_of_lt hoffset, Nat.zero_add, Nat.add_comm]

theorem place_apart (bp bw : ℕ)
    (hslot : (psm.tableMode.pixelsPerBlock * bp + psm.inBuffer bw x y) % (512 * psm.pixelsPerPage) ≠
      (psm.tableMode.pixelsPerBlock * bp + psm.inBuffer bw x' y') % (512 * psm.pixelsPerPage)) :
    psm.place (pixelAddressFuncs psm bp bw x y) + psm.bitsPerPixel ≤
        psm.place (pixelAddressFuncs psm bp bw x' y') ∨
      psm.place (pixelAddressFuncs psm bp bw x' y') + psm.bitsPerPixel ≤
        psm.place (pixelAddressFuncs psm bp bw x y) := by
  have hfield : psm.bitOffset + psm.bitsPerPixel ≤ psm.unpackedBitWidth := by cases psm <;> decide
  rw [place_slot, place_slot]
  generalize (psm.tableMode.pixelsPerBlock * bp + psm.inBuffer bw x y) % (512 * psm.pixelsPerPage) = s at *
  generalize (psm.tableMode.pixelsPerBlock * bp + psm.inBuffer bw x' y') % (512 * psm.pixelsPerPage) = s' at *
  have hstep : ∀ s s' : ℕ, s < s' → psm.unpackedBitWidth * s + psm.unpackedBitWidth ≤ psm.unpackedBitWidth * s' := by
    intro s s' hs
    calc _ = psm.unpackedBitWidth * (s + 1) := by ring
      _ ≤ _ := Nat.mul_le_mul_left _ hs
  rcases Nat.lt_or_gt_of_ne hslot with hs | hs
  · have := hstep s s' hs
    left
    omega
  · have := hstep s' s hs
    right
    omega

end

theorem Fits.place_disjoint (h : psm.Fits bw x y) (h' : psm.Fits bw x' y') (hbw : psm.WholePages bw)
    (hne : (x', y') ≠ (x, y)) :
    psm.place (pixelAddressFuncs psm bp bw x y) + psm.bitsPerPixel ≤
        psm.place (pixelAddressFuncs psm bp bw x' y') ∨
      psm.place (pixelAddressFuncs psm bp bw x' y') + psm.bitsPerPixel ≤
        psm.place (pixelAddressFuncs psm bp bw x y) := by
  apply place_apart
  -- The slots are different, also where the buffer wraps around the end of memory.
  intro he
  have hnum : psm.inBuffer bw x y ≡ psm.inBuffer bw x' y' [MOD 512 * psm.pixelsPerPage] :=
    Nat.ModEq.add_left_cancel' _ he
  have heq := hnum.eq_of_lt_of_lt (h.inBuffer_lt hbw) (h'.inBuffer_lt hbw)
  obtain ⟨rfl, rfl⟩ := h.inBuffer_inj h' hbw heq
  exact hne rfl

end PixelStorageMode

/-! ### Reading and writing pixels -/

section RoundTrip

variable {bw x y : ℕ}

section

variable (psm : PixelStorageMode) (data : Memory)

theorem readPixelFuncs_eq (bp bw x y : ℕ) :
    readPixelFuncs psm data bp bw x y = psm.read data (pixelAddressFuncs psm bp bw x y) := by
  cases psm <;> rfl

theorem writePixelFuncs_eq (bp bw x y value : ℕ) :
    writePixelFuncs psm data bp bw x y value = writePixelAddress psm data (pixelAddressFuncs psm bp bw x y) value := by
  cases psm <;> rfl

end

/-- **Pixels are independent.** In every buffer that fits into memory, from any base block on and
also where it wraps around the end of memory, a pixel reads back as the low bits of what was
written to it, and every other pixel reads as before. -/
theorem readPixel_writePixel (psm : PixelStorageMode) (data : Memory) (bp value : ℕ)
    (hbw : psm.WholePages bw) (h : psm.Fits bw x y) :
    readPixelFuncs psm (writePixelFuncs psm data bp bw x y value) bp bw x y =
        value % 2 ^ psm.bitsPerPixel ∧
      ∀ x' y', psm.Fits bw x' y' → (x', y') ≠ (x, y) →
        readPixelFuncs psm (writePixelFuncs psm data bp bw x y value) bp bw x' y' =
          readPixelFuncs psm data bp bw x' y' := by
  rw [writePixelFuncs_eq, writePixelAddress]
  constructor
  · rw [readPixelFuncs_eq, read_write_self, Nat.mod_mod_of_dvd _ (pow_dvd_pow 2 psm.bitsPerPixel_le)]
  · intro x' y' h' hne
    rw [readPixelFuncs_eq, readPixelFuncs_eq]
    exact read_write_of_disjoint (h.place_disjoint h' hbw hne)

/-- Two nibbles of one byte, in a buffer that starts at the last block of memory. -/
theorem p4_wrap_readPixel_writePixel :
    p4.WholePages 2 ∧ p4.Fits 2 5 70 ∧ p4.Fits 2 1 68 ∧
      readPixelFuncs p4 (writePixelFuncs p4 (fun _ => 0x5A) 16383 2 5 70 0x13) 16383 2 5 70 = 0x3 ∧
      readPixelFuncs p4 (writePixelFuncs p4 (fun _ => 0x5A) 16383 2 5 70 0x13) 16383 2 1 68 =
        readPixelFuncs p4 (fun _ => 0x5A) 16383 2 1 68 := by
  have hbw : p4.WholePages 2 := fun _ => ⟨1, rfl⟩
  have h : p4.Fits 2 5 70 := ⟨by decide, by decide⟩
  have h' : p4.Fits 2 1 68 := ⟨by decide, by decide⟩
  have hrw := readPixel_writePixel p4 (fun _ => 0x5A) 16383 0x13 hbw h
  exact ⟨hbw, h, h', hrw.1, hrw.2 1 68 h' (by decide)⟩

end RoundTrip

end Ps2Recomp.GSMem
