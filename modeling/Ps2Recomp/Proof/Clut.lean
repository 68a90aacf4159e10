import Ps2Recomp.Proof.Pixels
import Ps2Recomp.Spec.Texture

/-!
# Palettes

A load copies the entries of a palette into the buffer one after another (`loadEntries_some`), and a
lookup reads the entry of its number. The load masks its offsets and stops at the end of the buffer; the
lookup does neither. The second storage mode takes its offset, which is in units of 16 pixels, 256 times.

* `lookups_inside_iff`: when every lookup of a texture is inside of the buffer.
* `csm1_entries`, `csm2_entries_iff`: what the lookups find.
* `clut_iff`: when loads and lookups agree.
-/

namespace Ps2Recomp.GSMem

open Bytes PixelStorageMode
open Vertices (field)

/-! ### The buffer -/

theorem readClutCache_congr {clutCache clutCache' : Memory} (h : ∀ q < clutCacheSize, clutCache q = clutCache' q)
    (psm index csa : ℕ) : readClutCache clutCache psm index csa = readClutCache clutCache' psm index csa := by
  have hload : ∀ offset n, loadClut clutCache offset n = loadClut clutCache' offset n := by
    intro offset n
    unfold loadClut
    by_cases hin : offset + n ≤ clutCacheSize
    · rw [if_pos hin, if_pos hin, load_congr fun r _ hr => h r (by omega)]
    · rw [if_neg hin, if_neg hin]
  unfold readClutCache
  rw [hload, hload]

/-- **The entries are copied** one after another. -/
theorem loadEntries_some (base : ℕ) {n : ℕ} (value : ℕ → ℕ) (clutCache : Memory) (hn : 0 < n) {count : ℕ}
    (hfit : ∀ i < count, base + i * n + n ≤ clutCacheSize) :
    ∃ clutCache', loadEntries (fun i => base + i * n) value n count clutCache = some clutCache' ∧
      ∀ i < count, load clutCache' (base + i * n) n = value i % 2 ^ (8 * n) := by
  induction count with
  | zero => exact ⟨clutCache, rfl, fun i hi => absurd hi (Nat.not_lt_zero i)⟩
  | succ count ih =>
    obtain ⟨before, hbefore, hentries⟩ := ih fun i hi => hfit i (Nat.lt_succ_of_lt hi)
    have hlast := hfit count (Nat.lt_succ_self count)
    have hmask : (base + count * n) &&& 0x3FF = base + count * n := by
      rw [show (0x3FF : ℕ) = 2 ^ 10 - 1 from rfl, Nat.and_two_pow_sub_one_eq_mod, Nat.mod_eq_of_lt]
      rw [clutCacheSize] at hlast
      omega
    refine ⟨store before (base + count * n) (value count) n, ?_, ?_⟩
    · rw [loadEntries, hbefore, Option.bind_eq_bind, Option.bind_some, hmask, storeClut, if_pos hlast]
    · intro i hi
      rcases Nat.lt_succ_iff_lt_or_eq.mp hi with hi | rfl
      · have hapart : base + i * n + n ≤ base + count * n := by
          have hstep : i * n + n ≤ count * n := by
            rw [← Nat.succ_mul]
            exact Nat.mul_le_mul_right n hi
          omega
        rw [← hentries i hi]
        apply load_congr
        intro r _ hr
        exact store_off (.inl (by omega))
      · exact load_store_self

/-! ### Formats -/

/-- The numbers of the modes with a palette. -/
def IsIndexed (psm : ℕ) : Prop := psm ∈ [19, 20, 27, 36, 44]

/-- The numbers of the modes that a palette has. -/
def IsPalette (cpsm : ℕ) : Prop := cpsm ∈ [0, 2, 10]

instance (psm : ℕ) : Decidable (IsIndexed psm) := inferInstanceAs (Decidable (psm ∈ _))

instance (cpsm : ℕ) : Decidable (IsPalette cpsm) := inferInstanceAs (Decidable (cpsm ∈ _))

/-- The bytes of an entry. -/
def entryBytes (cpsm : ℕ) : ℕ := ImageGs.bitsPerPixelOf cpsm / 8

theorem IsIndexed.bits {psm : ℕ} (h : IsIndexed psm) :
    ImageGs.bitsPerPixelOf psm = 4 ∨ ImageGs.bitsPerPixelOf psm = 8 := by
  simp only [IsIndexed, List.mem_cons, List.not_mem_nil, or_false] at h
  rcases h with rfl | rfl | rfl | rfl | rfl
  all_goals decide

section

variable {cpsm : ℕ} (h : IsPalette cpsm)

include h

theorem IsPalette.cases : cpsm = 0 ∧ entryBytes cpsm = 4 ∨ cpsm ≠ 0 ∧ entryBytes cpsm = 2 := by
  simp only [IsPalette, List.mem_cons, List.not_mem_nil, or_false] at h
  rcases h with rfl | rfl | rfl
  all_goals decide

theorem IsPalette.half (hne : cpsm ≠ 0) : entryBytes cpsm = 2 := by
  rcases h.cases with ⟨hzero, -⟩ | ⟨-, hbytes⟩
  · exact absurd hzero hne
  · exact hbytes

theorem IsPalette.readClutCache_eq (clutCache : Memory) (index csa : ℕ) : readClutCache clutCache cpsm index csa =
    loadClut clutCache (csa * 16 * entryBytes cpsm + index * entryBytes cpsm) (entryBytes cpsm) := by
  simp only [IsPalette, List.mem_cons, List.not_mem_nil, or_false] at h
  rcases h with rfl | rfl | rfl
  all_goals rfl

end

theorem readVram_lt {psm : ℕ} (h : IsPalette psm) (vram : Memory) (base bw x y : ℕ) :
    readVram vram psm base bw x y < 2 ^ (8 * entryBytes psm) := by
  have hlt : ∀ psm : PixelStorageMode, readPixelFuncs psm vram base bw x y < 2 ^ psm.bitsPerPixel := by
    intro psm
    rw [readPixelFuncs_eq]
    exact read_lt
  simp only [IsPalette, List.mem_cons, List.not_mem_nil, or_false] at h
  rcases h with rfl | rfl | rfl
  · exact hlt c32
  · exact hlt c16
  · exact hlt c16s

theorem IsPalette.isSome_iff {cpsm : ℕ} (h : IsPalette cpsm) (clutCache : Memory) (index csa : ℕ) :
    (readClutCache clutCache cpsm index csa).isSome ↔ (csa * 16 + index + 1) * entryBytes cpsm ≤ clutCacheSize := by
  have hsum : csa * 16 * entryBytes cpsm + index * entryBytes cpsm + entryBytes cpsm =
      (csa * 16 + index + 1) * entryBytes cpsm := by ring
  rw [h.readClutCache_eq, loadClut, hsum]
  split
  · simp_all
  · simp_all

/-! ### The first storage mode -/

/-- The number of an entry in a palette of 16 rows: its third and its fourth bit change places. -/
def swizzled (i : ℕ) : ℕ := i % 8 + 8 * (i / 16 % 2) + 16 * (i / 8 % 2) + 32 * (i / 32)

/-- The pixel of an entry: a palette of 16 entries has rows of 8, one of 256 rows of 16. -/
def csm1Pixel (tbpp i : ℕ) : ℕ × ℕ :=
  if tbpp = 4 then (i % 8, i / 8) else (swizzled i % 16, swizzled i / 16)

theorem csm1Pixel_four : ∀ i < 16, (i &&& 7, (i / 8) &&& 1) = csm1Pixel 4 i := by decide

theorem csm1Pixel_eight : ∀ i < 256, ((i &&& 7) + (if i &&& 0x10 ≠ 0 then 8 else 0),
      (i &&& 0xE0) / 16 + if i &&& 0x8 ≠ 0 then 1 else 0) = csm1Pixel 8 i := by
  decide +kernel

section Loads

variable {psm cpsm : ℕ} (vram clutCache : Memory) (cbp csa : ℕ)

theorem entries_found (h : IsPalette cpsm) {count : ℕ} (value expected : ℕ → ℕ)
    (hvalue : ∀ i < count, value i = expected i) (hlt : ∀ i, expected i < 2 ^ (8 * entryBytes cpsm)) :
    ∃ clutCache',
      loadEntries (fun i => csa * 16 * entryBytes cpsm + i * entryBytes cpsm) value (entryBytes cpsm)
          (min count (if csa * 16 < 1024 / entryBytes cpsm then 1024 / entryBytes cpsm - csa * 16 else 0))
          clutCache = some clutCache' ∧
        ∀ i < count, (csa * 16 + i + 1) * entryBytes cpsm ≤ clutCacheSize →
          readClutCache clutCache' cpsm i csa = some (expected i) := by
  have hbytes : entryBytes cpsm = 4 ∨ entryBytes cpsm = 2 := by
    rcases h.cases with ⟨-, h4⟩ | ⟨-, h2⟩
    · exact .inl h4
    · exact .inr h2
  have hcount : ∀ i, i < min count
      (if csa * 16 < 1024 / entryBytes cpsm then 1024 / entryBytes cpsm - csa * 16 else 0) ↔
      i < count ∧ (csa * 16 + i + 1) * entryBytes cpsm ≤ clutCacheSize := by
    intro i
    rw [clutCacheSize]
    rcases hbytes with hb | hb
    · rw [hb]
      split
      · omega
      · omega
    · rw [hb]
      split
      · omega
      · omega
  have hsum : ∀ i, csa * 16 * entryBytes cpsm + i * entryBytes cpsm + entryBytes cpsm =
      (csa * 16 + i + 1) * entryBytes cpsm := by
    intro i
    ring
  have hpos : 0 < entryBytes cpsm := by omega
  obtain ⟨clutCache', hload, hentries⟩ :=
    loadEntries_some (csa * 16 * entryBytes cpsm) value clutCache hpos fun i hi => by
      rw [hsum]
      exact ((hcount i).mp hi).2
  refine ⟨clutCache', hload, ?_⟩
  intro i hi hin
  have hentry := hentries i ((hcount i).mpr ⟨hi, hin⟩)
  rw [hvalue i hi, Nat.mod_eq_of_lt (hlt i)] at hentry
  have hroom := hin
  rw [← hsum] at hroom
  rw [h.readClutCache_eq, loadClut, if_pos hroom, hentry]

/-- **Entries of the first storage mode**: each lookup in the buffer finds the pixel of its entry. -/
theorem csm1_entries (hpsm : IsIndexed psm) (h : IsPalette cpsm) :
    ∃ clutCache', reloadClutCacheCSM1 vram clutCache psm cpsm cbp csa = some clutCache' ∧
      ∀ i < 2 ^ ImageGs.bitsPerPixelOf psm, (csa * 16 + i + 1) * entryBytes cpsm ≤ clutCacheSize →
        readClutCache clutCache' cpsm i csa =
          some (readVram vram cpsm cbp 1 (csm1Pixel (ImageGs.bitsPerPixelOf psm) i).1
            (csm1Pixel (ImageGs.bitsPerPixelOf psm) i).2) := by
  unfold reloadClutCacheCSM1
  rcases hpsm.bits with h4 | h8
  · rw [h4]
    apply entries_found clutCache csa h
    · intro i hi
      rw [← csm1Pixel_four i hi]
    · intro i
      exact readVram_lt h ..
  · rw [h8]
    apply entries_found clutCache csa h
    · intro i hi
      rw [← csm1Pixel_eight i hi]
    · intro i
      exact readVram_lt h ..

theorem csm2_entries (hpsm : IsIndexed psm) (texclut : BitVec 64) :
    ∃ clutCache', reloadClutCacheCSM2 vram clutCache texclut psm cbp = some clutCache' ∧
      ∀ i < 2 ^ ImageGs.bitsPerPixelOf psm, load clutCache' (i * 2) 2 =
        readVram vram 2 cbp (Texclut.cbw texclut) (Texclut.cou texclut * 256 + i) (Texclut.cov texclut) := by
  have hlt : ∀ x y, readVram vram 2 cbp (Texclut.cbw texclut) x y < 2 ^ (8 * 2) := fun x y =>
    readVram_lt (List.mem_cons_of_mem 0 List.mem_cons_self) ..
  have hcount : (1 <<< ImageGs.bitsPerPixelOf psm) % 2 ^ 32 = 2 ^ ImageGs.bitsPerPixelOf psm ∧
      2 ^ ImageGs.bitsPerPixelOf psm ≤ 256 := by
    rcases hpsm.bits with hb | hb
    · rw [hb]
      decide
    · rw [hb]
      decide
  have hfit : ∀ i < 2 ^ ImageGs.bitsPerPixelOf psm, 0 + i * 2 + 2 ≤ clutCacheSize := by
    intro i hi
    rw [clutCacheSize]
    omega
  obtain ⟨clutCache', hload, hentries⟩ := loadEntries_some 0
    (fun i => readVram vram 2 cbp (Texclut.cbw texclut) (Texclut.cou texclut * 16 * 16 + i) (Texclut.cov texclut))
    clutCache Nat.two_pos hfit
  simp only [Nat.zero_add] at hload hentries
  refine ⟨clutCache', ?_, ?_⟩
  · rw [reloadClutCacheCSM2, hcount.1]
    exact hload
  · intro i hi
    rw [hentries i hi, Nat.mod_eq_of_lt (hlt ..), Nat.mul_assoc]

end Loads

/-! ### The second storage mode -/

/-- Memory of one byte everywhere. -/
def filled (byte : BitVec 8) : Memory := fun _ => byte

section

variable (psm : PixelStorageMode) (a : ℕ)

theorem read_zeros : psm.read (filled 0) a = 0 := by
  refine Nat.eq_of_testBit_eq fun i => ?_
  have hbit : bit (filled 0) (psm.place a + i) = false := BitVec.getLsbD_zero
  rw [testBit_read, hbit, Bool.and_false, Nat.zero_testBit]

theorem read_ones : psm.read (filled 0xFF) a = 2 ^ psm.bitsPerPixel - 1 := by
  refine Nat.eq_of_testBit_eq fun i => ?_
  have hbit : ∀ k, bit (filled 0xFF) k = true := by
    intro k
    have hk : k % 8 < 8 := Nat.mod_lt _ (by omega)
    rw [bit, filled, show (0xFF : BitVec 8) = BitVec.allOnes 8 from rfl, BitVec.getLsbD_allOnes, decide_eq_true hk]
  rw [testBit_read, Nat.testBit_two_pow_sub_one, hbit, Bool.and_true]

end

theorem row_apart (bp bw y : ℕ) {x x' : ℕ} (h : x / 64 < x' / 64) (hx : x' < 2 ^ 15) :
    c16.place (pixelAddressFuncs c16 bp bw x y) + c16.bitsPerPixel ≤
        c16.place (pixelAddressFuncs c16 bp bw x' y) ∨
      c16.place (pixelAddressFuncs c16 bp bw x' y) + c16.bitsPerPixel ≤
        c16.place (pixelAddressFuncs c16 bp bw x y) := by
  apply place_apart
  have hpage : ∀ x, c16.pageId 0 bw x y = c16.pageId 0 bw 0 y + x / 64 := fun x => rfl
  have hlt : ∀ x, c16.inPage x y < 4096 := fun x => c16.inPage_lt x y
  have hpixels : c16.pixelsPerPage = 4096 := rfl
  have hin := hlt x
  have hin' := hlt x'
  rw [inBuffer, inBuffer, hpixels, hpage x, hpage x']
  generalize c16.pageId 0 bw 0 y = row
  generalize c16.tableMode.pixelsPerBlock * bp = block
  generalize c16.inPage x y = i at *
  generalize c16.inPage x' y = i' at *
  omega

/-- **A load with an offset** takes its entries from elsewhere: there is a memory where the first entries
of the row 256 times the offset on, and of the row 16 times the offset on, are different. -/
theorem offset_differs (cbp cbw cou cov : ℕ) (hcou : cou ≠ 0) (hlt : cou < 64) :
    ∃ vram, readVram vram 2 cbp cbw (cou * 256) cov ≠ readVram vram 2 cbp cbw (cou * 16) cov := by
  refine ⟨writePixelFuncs c16 (filled 0) cbp cbw (cou * 16) cov 1, ?_⟩
  have hapart := row_apart cbp cbw cov (show cou * 16 / 64 < cou * 256 / 64 by omega) (by omega)
  have hself : readPixelFuncs c16 (writePixelFuncs c16 (filled 0) cbp cbw (cou * 16) cov 1) cbp cbw (cou * 16) cov =
      1 := by
    rw [readPixelFuncs_eq, writePixelFuncs_eq]
    exact read_write_self
  have hother : readPixelFuncs c16 (writePixelFuncs c16 (filled 0) cbp cbw (cou * 16) cov 1) cbp cbw (cou * 256)
      cov = 0 := by
    rw [readPixelFuncs_eq, writePixelFuncs_eq, ← read_zeros c16 (pixelAddressFuncs c16 cbp cbw (cou * 256) cov)]
    exact read_write_of_disjoint hapart
  change readPixelFuncs c16 _ cbp cbw (cou * 256) cov ≠ readPixelFuncs c16 _ cbp cbw (cou * 16) cov
  rw [hself, hother]
  exact Nat.zero_ne_one

/-- In every memory, the lookup of the first entry, of `n` bytes, finds the entry behind a load of the
second storage mode. -/
def FirstEntry (n cbp cbw cou cov : ℕ) : Prop :=
  ∀ vram, ∃ clutCache, loadClut clutCache 0 n = some (readVram vram 2 cbp cbw (cou * 16) cov) ∧
    ∀ i < 2, load clutCache (i * 2) 2 = readVram vram 2 cbp cbw (cou * 256 + i) cov

variable {cbp cbw cou cov : ℕ}

theorem FirstEntry.offset (h : FirstEntry 2 cbp cbw cou cov) (hlt : cou < 64) : cou = 0 := by
  by_contra hcou
  obtain ⟨vram, hdiffers⟩ := offset_differs cbp cbw cou cov hcou hlt
  obtain ⟨clutCache, hlookup, hload⟩ := h vram
  have hfirst := hload 0 (by omega)
  rw [Nat.zero_mul, Nat.add_zero] at hfirst
  exact hdiffers (hfirst.symm.trans (Option.some.inj hlookup))

theorem not_firstEntry_word : ¬ FirstEntry 4 cbp cbw cou cov := by
  intro h
  obtain ⟨clutCache, hlookup, hload⟩ := h (filled 0xFF)
  have hones : ∀ x y, readVram (filled 0xFF) 2 cbp cbw x y = 2 ^ 16 - 1 := by
    intro x y
    exact (readPixelFuncs_eq c16 ..).trans (read_ones c16 _)
  have hlow := hload 0 (by omega)
  have hhigh := hload 1 (by omega)
  have hword := Option.some.inj hlookup
  rw [hones] at hlow hhigh hword
  simp only [load, Nat.zero_mul, Nat.one_mul, Nat.zero_add, Nat.reduceAdd] at hlow hhigh hword
  omega

/-! ### Writes that load a palette -/

/-- A value of TEX0 or TEX2 that loads a palette. -/
structure Loads (gs : TextureGs) (value : BitVec 64) : Prop where
  indexed : IsIndexed (Tex0.psm value)
  palette : IsPalette (Tex0.cpsm value)
  csa : Tex0.csm value = 1 → Tex0.csa value = 0
  cld : Tex0.cld value ∈ [1, 2, 3] ∨ Tex0.cld value = 4 ∧ Tex0.cbp value ≠ gs.cbp0 ∨
    Tex0.cld value = 5 ∧ Tex0.cbp value ≠ gs.cbp1

/-- The number of entries of the palette. -/
def entryCount (value : BitVec 64) : ℕ := 2 ^ ImageGs.bitsPerPixelOf (Tex0.psm value)

/-- The entry of a palette in GS memory. -/
def paletteEntry (vram : Memory) (texclut value : BitVec 64) (i : ℕ) : ℕ :=
  if Tex0.csm value = 0 then
    let pixel := csm1Pixel (ImageGs.bitsPerPixelOf (Tex0.psm value)) i
    readVram vram (Tex0.cpsm value) (Tex0.cbp value) 1 pixel.1 pixel.2
  else
    readVram vram 2 (Tex0.cbp value) (Texclut.cbw texclut) (Texclut.cou texclut * 16 + i) (Texclut.cov texclut)

/-- The lookups behind a load are inside of the buffer, find the entries of the palette, and depend on
nothing behind the buffer. -/
structure ClutRight (vram clutCache : Memory) (texclut value : BitVec 64) : Prop where
  inside : ∀ i < entryCount value, (readClutCache clutCache (Tex0.cpsm value) i (Tex0.csa value)).isSome
  entries : ∀ i < entryCount value,
    (Tex0.csa value * 16 + i + 1) * entryBytes (Tex0.cpsm value) ≤ clutCacheSize →
      readClutCache clutCache (Tex0.cpsm value) i (Tex0.csa value) = some (paletteEntry vram texclut value i)
  rest : ∀ clutCache', (∀ q < clutCacheSize, clutCache q = clutCache' q) → ∀ psm index csa,
    readClutCache clutCache psm index csa = readClutCache clutCache' psm index csa

theorem field_merged (tex0 value : BitVec 64) {offset n : ℕ}
    (h : (0x0000001FFC0FFFFF : BitVec 64).extractLsb' offset n = 0) (hn : offset + n ≤ 64) :
    field ((tex0 &&& 0x0000001FFC0FFFFF) ||| (value &&& ~~~0x0000001FFC0FFFFF)) offset n = field value offset n := by
  apply BitVec.eq_of_getLsbD_eq
  intro i hi
  have hmask := congrArg (BitVec.getLsbD · i) h
  simp only [BitVec.getLsbD_extractLsb', hi, decide_true, Bool.true_and] at hmask
  rw [show (0 : BitVec n).getLsbD i = false from BitVec.getLsbD_zero] at hmask
  simp only [field, BitVec.getLsbD_extractLsb', hi, decide_true, Bool.true_and, BitVec.getLsbD_or,
    BitVec.getLsbD_and, BitVec.getLsbD_not, hmask]
  simp [show offset + i < 64 by omega]

theorem writeRegister_load (gs : TextureGs) {regAddr : ℕ} (hreg : regAddr ∈ [0x06, 0x07, 0x16, 0x17])
    (value : BitVec 64) : ∃ tex0 tex2, gs.writeRegister regAddr value =
      TextureGs.reloadFor value { gs with tex0, tex2 } := by
  have hmerged : ∀ (tex0 : BitVec 64) (gs : TextureGs),
      TextureGs.reloadFor ((tex0 &&& 0x0000001FFC0FFFFF) ||| (value &&& ~~~0x0000001FFC0FFFFF)) gs =
        TextureGs.reloadFor value gs := by
    intro tex0 gs
    unfold TextureGs.reloadFor Tex0.psm Tex0.cpsm Tex0.cbp Tex0.csm Tex0.csa Tex0.cld
    rw [field_merged _ _ (by decide) (by omega), field_merged _ _ (by decide) (by omega),
      field_merged _ _ (by decide) (by omega), field_merged _ _ (by decide) (by omega),
      field_merged _ _ (by decide) (by omega), field_merged _ _ (by decide) (by omega)]
  simp only [List.mem_cons, List.not_mem_nil, or_false] at hreg
  rcases hreg with rfl | rfl | rfl | rfl
  · exact ⟨_, _, rfl⟩
  · exact ⟨_, _, rfl⟩
  · exact ⟨_, _, hmerged _ _⟩
  · exact ⟨_, _, hmerged _ _⟩

variable {gs : TextureGs} {value : BitVec 64} {regAddr : ℕ}

theorem csm_cases (value : BitVec 64) : Tex0.csm value = 0 ∨ Tex0.csm value = 1 := by
  have hlt : Tex0.csm value < 2 := (field value 55 1).isLt
  omega

section

variable (h : Loads gs value)

include h

theorem Loads.cldLoad : ∃ cbp0 cbp1, gs.cldLoad (Tex0.cbp value) (Tex0.cld value) = (true, { gs with cbp0, cbp1 }) := by
  have hcld := h.cld
  simp only [List.mem_cons, List.not_mem_nil, or_false] at hcld
  unfold TextureGs.cldLoad
  rcases hcld with (hc | hc | hc) | ⟨hc, hcbp⟩ | ⟨hc, hcbp⟩
  · rw [hc]
    exact ⟨_, _, rfl⟩
  · rw [hc]
    exact ⟨_, _, rfl⟩
  · rw [hc]
    exact ⟨_, _, rfl⟩
  · rw [hc]
    exact ⟨_, _, if_pos hcbp⟩
  · rw [hc]
    exact ⟨_, _, if_pos hcbp⟩

theorem Loads.reload {clutCache : Memory} (hload : (if Tex0.csm value = 0 then
        reloadClutCacheCSM1 gs.vram gs.clutCache (Tex0.psm value) (Tex0.cpsm value) (Tex0.cbp value) (Tex0.csa value)
      else reloadClutCacheCSM2 gs.vram gs.clutCache gs.texclut (Tex0.psm value) (Tex0.cbp value)) =
        some clutCache) :
    ∃ gs', gs.reloadFor value = some gs' ∧ gs'.clutCache = clutCache := by
  obtain ⟨cbp0, cbp1, hcld⟩ := h.cldLoad
  rw [TextureGs.reloadFor, TextureGs.reloadClutCache, hcld]
  rcases csm_cases value with hcsm | hcsm
  · rw [if_pos hcsm] at hload
    rw [hcsm]
    exact ⟨{ gs with cbp0, cbp1, clutCache }, congrArg (Option.bind · _) hload, rfl⟩
  · rw [if_neg (by omega)] at hload
    rw [hcsm]
    exact ⟨{ gs with cbp0, cbp1, clutCache }, congrArg (Option.bind · _) hload, rfl⟩

/-- **What a write loads**: in the first storage mode the entries of the palette, in the second those from
256 times the offset on. -/
theorem Loads.write (hreg : regAddr ∈ [0x06, 0x07, 0x16, 0x17]) :
    ∃ gs', gs.writeRegister regAddr value = some gs' ∧
      (Tex0.csm value = 0 → ∀ i < entryCount value,
        (Tex0.csa value * 16 + i + 1) * entryBytes (Tex0.cpsm value) ≤ clutCacheSize →
          readClutCache gs'.clutCache (Tex0.cpsm value) i (Tex0.csa value) =
            some (paletteEntry gs.vram gs.texclut value i)) ∧
      (Tex0.csm value = 1 → ∀ i < entryCount value, load gs'.clutCache (i * 2) 2 =
        readVram gs.vram 2 (Tex0.cbp value) (Texclut.cbw gs.texclut) (Texclut.cou gs.texclut * 256 + i)
          (Texclut.cov gs.texclut)) := by
  obtain ⟨tex0, tex2, hwrite⟩ := writeRegister_load gs hreg value
  have hloads : Loads { gs with tex0, tex2 } value := ⟨h.indexed, h.palette, h.csa, h.cld⟩
  rcases csm_cases value with hcsm | hcsm
  · obtain ⟨clutCache', hload, hentries⟩ := csm1_entries gs.vram gs.clutCache (Tex0.cbp value) (Tex0.csa value)
      h.indexed h.palette
    obtain ⟨gs', hgs', rfl⟩ := hloads.reload (by rw [if_pos hcsm]; exact hload)
    refine ⟨gs', hwrite.trans hgs', ?_, ?_⟩
    · intro _ i hi hin
      rw [hentries i hi hin, paletteEntry, if_pos hcsm]
    · intro hone
      omega
  · obtain ⟨clutCache', hload, hentries⟩ := csm2_entries gs.vram gs.clutCache (Tex0.cbp value) h.indexed gs.texclut
    obtain ⟨gs', hgs', rfl⟩ := hloads.reload (by rw [if_neg (by omega)]; exact hload)
    refine ⟨gs', hwrite.trans hgs', ?_, ?_⟩
    · intro hzero
      omega
    · intro _ i hi
      exact hentries i hi

end

theorem lookups_inside_iff (h : IsPalette (Tex0.cpsm value)) (clutCache : Memory) :
    (∀ i < entryCount value, (readClutCache clutCache (Tex0.cpsm value) i (Tex0.csa value)).isSome) ↔
      (Tex0.csa value * 16 + entryCount value) * entryBytes (Tex0.cpsm value) ≤ clutCacheSize := by
  have hpos : 0 < entryCount value := Nat.two_pow_pos _
  simp only [h.isSome_iff]
  constructor
  · intro hall
    have hlast := hall (entryCount value - 1) (by omega)
    rwa [Nat.add_assoc, Nat.sub_add_cancel hpos] at hlast
  · intro hlast i hi
    exact (Nat.mul_le_mul_right _ (by omega)).trans hlast

/-- The registers with which loads and lookups agree: the last entry is in the buffer, and a palette of
the second storage mode has entries of 16 bits and no offset. -/
structure ClutKept (texclut value : BitVec 64) : Prop where
  inside : (Tex0.csa value * 16 + entryCount value) * entryBytes (Tex0.cpsm value) ≤ clutCacheSize
  offset : Tex0.csm value = 1 → Texclut.cou texclut = 0
  format : Tex0.csm value = 1 → Tex0.cpsm value ≠ 0

/-- **When palettes are right.** For every write to TEX0 or TEX2 of either context that loads a palette
for a texture with indices, from any state of the registers: the load stays inside of the buffer, and
the lookups are inside of the buffer and find the entries of the palette, whatever GS memory and
the buffer hold, exactly with the registers of `ClutKept`. -/
theorem clut_iff (gs : TextureGs) (hreg : regAddr ∈ [0x06, 0x07, 0x16, 0x17]) (h : Loads gs value) :
    (∀ vram clutCache, ∃ gs', { gs with vram, clutCache }.writeRegister regAddr value = some gs' ∧
      ClutRight vram gs'.clutCache gs.texclut value) ↔ ClutKept gs.texclut value := by
  have hloads : ∀ vram clutCache, Loads { gs with vram, clutCache } value := fun _ _ =>
    ⟨h.indexed, h.palette, h.csa, h.cld⟩
  have hpos : 1 < entryCount value := by
    rcases h.indexed.bits with hb | hb
    · rw [entryCount, hb]
      decide
    · rw [entryCount, hb]
      decide
  constructor
  · intro hall
    have hinside : (Tex0.csa value * 16 + entryCount value) * entryBytes (Tex0.cpsm value) ≤ clutCacheSize := by
      obtain ⟨gs', -, hright⟩ := hall (filled 0) (filled 0)
      exact (lookups_inside_iff h.palette gs'.clutCache).mp hright.inside
    have hlookups : Tex0.csm value = 1 →
        FirstEntry (entryBytes (Tex0.cpsm value)) (Tex0.cbp value) (Texclut.cbw gs.texclut)
          (Texclut.cou gs.texclut) (Texclut.cov gs.texclut) := by
      intro hcsm vram
      obtain ⟨gs', hgs', hright⟩ := hall vram (filled 0)
      obtain ⟨gs'', hgs'', -, hload⟩ := (hloads vram (filled 0)).write hreg
      obtain rfl : gs' = gs'' := Option.some.inj (hgs'.symm.trans hgs'')
      have hroom : (Tex0.csa value * 16 + 0 + 1) * entryBytes (Tex0.cpsm value) ≤ clutCacheSize :=
        (Nat.mul_le_mul_right _ (by omega)).trans hinside
      have hlookup := hright.entries 0 (by omega) hroom
      rw [h.palette.readClutCache_eq, h.csa hcsm, paletteEntry, if_neg (by omega)] at hlookup
      simp only [Nat.zero_mul, Nat.add_zero] at hlookup
      exact ⟨gs'.clutCache, hlookup, fun i hi => hload hcsm i (by omega)⟩
    have hformat : Tex0.csm value = 1 → Tex0.cpsm value ≠ 0 := by
      intro hcsm hzero
      have hfirst := hlookups hcsm
      rw [hzero] at hfirst
      exact not_firstEntry_word hfirst
    have hoffset : Tex0.csm value = 1 → Texclut.cou gs.texclut = 0 := by
      intro hcsm
      have hfirst := hlookups hcsm
      rw [h.palette.half (hformat hcsm)] at hfirst
      exact hfirst.offset (field gs.texclut 6 6).isLt
    exact ⟨hinside, hoffset, hformat⟩
  · intro hkept vram clutCache
    obtain ⟨gs', hgs', hone, htwo⟩ := (hloads vram clutCache).write hreg
    refine ⟨gs', hgs', (lookups_inside_iff h.palette _).mpr hkept.inside, ?_, fun _ => readClutCache_congr⟩
    rcases csm_cases value with hcsm | hcsm
    · exact hone hcsm
    · intro i hi hin
      have hbytes := h.palette.half (hkept.format hcsm)
      have hload : load gs'.clutCache (i * 2) 2 = readVram vram 2 (Tex0.cbp value) (Texclut.cbw gs.texclut)
          (Texclut.cou gs.texclut * 256 + i) (Texclut.cov gs.texclut) := htwo hcsm i hi
      rw [h.csa hcsm, hbytes] at hin
      have hroom : 0 * 16 * 2 + i * 2 + 2 ≤ clutCacheSize := by omega
      rw [h.palette.readClutCache_eq, h.csa hcsm, hbytes, loadClut, if_pos hroom, paletteEntry,
        if_neg (by omega), Nat.zero_mul, Nat.zero_add, hload, hkept.offset hcsm, Nat.zero_mul]

/-- A palette of 256 entries of 32 bits at the start of the buffer. -/
theorem t8_palette_right :
    let value : BitVec 64 := 0x2000000001300000
    Loads (.initial (filled 0)) value ∧
      ∀ vram clutCache, ∃ gs', { TextureGs.initial (filled 0) with vram, clutCache }.writeRegister 0x06 value =
        some gs' ∧ ClutRight vram gs'.clutCache 0 value := by
  have h : Loads (.initial (filled 0)) 0x2000000001300000 :=
    ⟨by decide, by decide, by decide, .inl (by decide)⟩
  exact ⟨h, (clut_iff (.initial (filled 0)) (by decide) h).mpr ⟨by decide, by decide, by decide⟩⟩

/-- A palette of 16 entries of 16 bits, in the second storage mode, from the pixel 16 of a row on: where
the pixels 16 and 256 differ, its first entry is wrong. -/
theorem csm2_offset_wrong :
    ¬ ∀ (gs : TextureGs) (regAddr : ℕ) (value : BitVec 64), regAddr ∈ [0x06, 0x07, 0x16, 0x17] → Loads gs value →
      ∃ gs', gs.writeRegister regAddr value = some gs' ∧ ClutRight gs.vram gs'.clutCache gs.texclut value := by
  intro hall
  have hfirst : FirstEntry 2 0 0 1 0 := by
    intro vram
    have h : Loads { TextureGs.initial vram with texclut := 0x40 } 0x2090000001400000 :=
      ⟨by decide, by decide, by decide, .inl (by decide)⟩
    have hreg : 0x06 ∈ [0x06, 0x07, 0x16, 0x17] := by decide
    obtain ⟨gs', hgs', hright⟩ := hall _ _ _ hreg h
    obtain ⟨gs'', hgs'', -, hload⟩ := h.write hreg
    obtain rfl : gs' = gs'' := Option.some.inj (hgs'.symm.trans hgs'')
    have hlookup := hright.entries 0 (Nat.two_pow_pos _) (by decide)
    have hentry : paletteEntry vram 0x40 0x2090000001400000 0 = readVram vram 2 0 0 16 0 := by
      rw [paletteEntry, if_neg (by decide)]
      rfl
    refine ⟨gs'.clutCache, hlookup.trans (congrArg some hentry), fun i hi => ?_⟩
    have hcount : entryCount 0x2090000001400000 = 16 := by decide
    have hplace : Tex0.cbp 0x2090000001400000 = 0 ∧ Texclut.cbw 0x40 = 0 ∧ Texclut.cou 0x40 = 1 ∧ Texclut.cov 0x40 = 0 :=
      by decide
    have hentries := hload (by decide) i (by omega)
    simp only [hplace] at hentries
    exact hentries
  exact absurd (hfirst.offset (by omega)) one_ne_zero

end Ps2Recomp.GSMem
