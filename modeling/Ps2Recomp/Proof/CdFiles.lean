import Ps2Recomp.Lib.Serve
import Ps2Recomp.Spec.CdFiles

/-!
# Files of the disc and sectors of the image

The registered files tile the sectors from `kCdPseudoLbnStart` up to the next free one (`Inv`), as long as the last
one that is given out is below 2^32. A sector of a file then is found in that file alone, and what is read is that
file's. A sector of the image is found in no file as long as the image ends where the files begin, or no file was
looked for.
-/

namespace Ps2Recomp.CdFiles

open Padded
open GuestPaths (Str)

variable {F : Type} {d : Disc F} {c : CdState F} {lbn : Word}

/-! ### The sectors of the files -/

namespace CdFileEntry

variable (entry : CdFileEntry F)

def base : ℕ := entry.baseLbn.toNat

/-- The end of the file's sectors. -/
def stop : ℕ := entry.baseLbn.toNat + entry.sectors.toNat

end CdFileEntry

/-- The first number behind all files, and the sector that is kept free behind each. -/
def CdState.used (c : CdState F) : ℕ :=
  kCdPseudoLbnStart.toNat + (c.files.map fun e => e.2.sectors.toNat + 1).sum

/-- A file that the call registers ends below 2^32. -/
def Fits (d : Disc F) (c : CdState F) (ps2Path : Str) : Prop :=
  c.files.lookup (cdPathKey ps2Path) = none → ∀ path sizeBytes, findHostFile d ps2Path = some path →
    d.fileSize path = some sizeBytes → c.used + (sectorsForBytes sizeBytes).toNat < 2 ^ 32

/-- The files fill the numbers from the first up to the next, with one free sector behind each. -/
structure Inv (c : CdState F) : Prop where
  tiles : Tiling.Tiles (fun e : Str × CdFileEntry F => e.2.base) (fun e => e.2.sectors.toNat + 1)
    kCdPseudoLbnStart.toNat c.used c.files
  used_le : c.used ≤ 2 ^ 32
  next : c.nextPseudoLbn = BitVec.ofNat 32 c.used

variable {e : Str × CdFileEntry F}

namespace Inv

theorem initial : Inv (CdState.initial : CdState F) := by
  have hused : (CdState.initial : CdState F).used = kCdPseudoLbnStart.toNat := rfl
  exact ⟨rfl, hused ▸ by decide, rfl⟩

section

variable (h : Inv c)

include h

/-- Only the files and the next free sector matter. -/
theorem congr {c' : CdState F} (hfiles : c'.files = c.files) (hnext : c'.nextPseudoLbn = c.nextPseudoLbn) : Inv c' := by
  have hused : c'.used = c.used := by rw [CdState.used, CdState.used, hfiles]
  refine ⟨?_, hused ▸ h.used_le, ?_⟩
  · rw [hused, hfiles]
    exact h.tiles
  · rw [hnext, hused]
    exact h.next

theorem append {key : Str} {path : F} {sizeBytes : BitVec 64} {error : ℤ}
    (hfits : c.used + (sectorsForBytes sizeBytes).toNat < 2 ^ 32) :
    Inv { c with
      files := c.files ++ [(key, newEntry c path sizeBytes)]
      nextPseudoLbn := c.nextPseudoLbn + ((newEntry c path sizeBytes).sectors + 1)
      lastCdError := error } := by
  have hsectors : (newEntry c path sizeBytes).sectors = sectorsForBytes sizeBytes := rfl
  have hused : CdState.used { c with
      files := c.files ++ [(key, newEntry c path sizeBytes)]
      nextPseudoLbn := c.nextPseudoLbn + ((newEntry c path sizeBytes).sectors + 1)
      lastCdError := error } = c.used + ((sectorsForBytes sizeBytes).toNat + 1) := by
    rw [CdState.used, CdState.used, List.map_append, List.sum_append, List.map_singleton, List.sum_singleton, hsectors,
      Nat.add_assoc]
  have hbase : (newEntry c path sizeBytes).base = c.used := by
    rw [CdFileEntry.base, newEntry, h.next, BitVec.toNat_ofNat]
    exact Nat.mod_eq_of_lt (by omega)
  refine ⟨?_, ?_, ?_⟩
  · rw [hused]
    exact Tiling.tiles_append.2 ⟨_, h.tiles, hbase, Nat.succ_pos _, rfl⟩
  · rw [hused]
    exact hfits
  · rw [hused, hsectors]
    dsimp only
    rw [h.next]
    refine BitVec.eq_of_toNat_eq ?_
    have hone : (1 : Word).toNat = 1 := rfl
    simp only [BitVec.toNat_add, BitVec.toNat_ofNat, hone]
    omega

theorem stop_lt (he : e ∈ c.files) : e.2.stop < c.used := by
  have := (h.tiles.mem he).2.2
  exact this

theorem base_ge (he : e ∈ c.files) : kCdPseudoLbnStart.toNat ≤ e.2.base :=
  (h.tiles.mem he).1

/-- What the code compares is what is meant, since the end of a file does not wrap. -/
theorem holds_iff (he : e ∈ c.files) : e.2.Holds lbn ↔ e.2.base ≤ lbn.toNat ∧ lbn.toNat < e.2.stop := by
  have hstop : e.2.stop < 2 ^ 32 := lt_of_lt_of_le (h.stop_lt he) h.used_le
  have hadd : (e.2.baseLbn + e.2.sectors).toNat = e.2.stop := by
    rw [BitVec.toNat_add]
    exact Nat.mod_eq_of_lt hstop
  rw [CdFileEntry.Holds, BitVec.le_def, BitVec.lt_def, hadd]
  rfl

theorem eq_of_holds {e e' : Str × CdFileEntry F} (he : e ∈ c.files) (he' : e' ∈ c.files)
    (hlbn : e.2.Holds lbn) (hlbn' : e'.2.Holds lbn) : e = e' := by
  by_contra hne
  have hin := (h.holds_iff he).1 hlbn
  have hin' := (h.holds_iff he').1 hlbn'
  rw [CdFileEntry.stop] at hin hin'
  rcases h.tiles.apart he he' hne with hlt | hlt
  · have hlt : e.2.baseLbn.toNat + (e.2.sectors.toNat + 1) ≤ e'.2.baseLbn.toNat := hlt
    rw [CdFileEntry.base] at hin'
    omega
  · have hlt : e'.2.baseLbn.toNat + (e'.2.sectors.toNat + 1) ≤ e.2.baseLbn.toNat := hlt
    rw [CdFileEntry.base] at hin
    omega

theorem register (ps2Path : Str) (hfits : Fits d c ps2Path) : Inv (registerCdFile d c ps2Path).2 := by
  rw [registerCdFile]
  split
  · exact h.congr rfl rfl
  split
  · exact h.congr rfl rfl
  next hnew =>
    split
    · exact h.congr rfl rfl
    next path hpath =>
      split
      · exact h.congr rfl rfl
      next sizeBytes hsize => exact h.append (hfits hnew path sizeBytes hpath hsize)

end

end Inv

/-! ### Lookups -/

/-- In whichever order the files are gone through, the file of a sector is found. -/
theorem findRegistered_eq (h : Inv c) (he : e ∈ c.files) (hlbn : e.2.Holds lbn) :
    findRegisteredCdFileForLbn d c lbn = some e.2 := by
  have hmem : e ∈ d.iterate c.files := (d.iterate_perm c.files).mem_iff.2 he
  have hsome : ((d.iterate c.files).find? fun e => decide (e.2.Holds lbn)).isSome :=
    List.find?_isSome.2 ⟨e, hmem, decide_eq_true hlbn⟩
  obtain ⟨e', hfind⟩ := Option.isSome_iff_exists.1 hsome
  have hholds := List.find?_some hfind
  have hlbn' : e'.2.Holds lbn := of_decide_eq_true hholds
  have he' : e' ∈ c.files := (d.iterate_perm c.files).mem_iff.1 (List.mem_of_find?_eq_some hfind)
  rw [findRegisteredCdFileForLbn, hfind, h.eq_of_holds he he' hlbn hlbn']
  rfl

theorem findRegistered_eq_none (h : Inv c) (hlbn : ∀ e ∈ c.files, lbn.toNat < e.2.base) :
    findRegisteredCdFileForLbn d c lbn = none := by
  have hnone : ((d.iterate c.files).find? fun e => decide (e.2.Holds lbn)) = none := by
    refine List.find?_eq_none.2 fun e he htrue => ?_
    have he : e ∈ c.files := (d.iterate_perm c.files).mem_iff.1 he
    have hin := (h.holds_iff he).1 (of_decide_eq_true htrue)
    exact absurd (hlbn e he) (not_lt.2 hin.1)
  rw [findRegisteredCdFileForLbn, hnone]
  rfl

variable {data : List Byte}

theorem readHostRange_eq {path : F} (hdata : d.content path = some data) (p n : ℕ) :
    readHostRange d path p n = ⟨true, window data p n⟩ := by
  rw [readHostRange, hdata]
  by_cases hn : n = 0
  · rw [if_pos hn, hn, window_zero]
  · rw [if_neg hn]
    dsimp only
    rw [rightpad_eq_window]

/-- **A sector of a file is read from that file.** -/
theorem readCdSectors_file (h : Inv c) (he : e ∈ c.files) (hlbn : e.2.Holds lbn)
    (hdata : d.content e.2.hostPath = some data) (sectors : Word) (byteCount : ℕ) :
    readCdSectors d c lbn sectors byteCount =
      ⟨true, window data ((lbn.toNat - e.2.base) * kCdSectorSize) byteCount⟩ := by
  have hsub : (lbn - e.2.baseLbn).toNat = lbn.toNat - e.2.base := by
    have hle : e.2.baseLbn.toNat ≤ lbn.toNat := BitVec.le_def.1 hlbn.1
    rw [CdFileEntry.base, BitVec.toNat_sub_of_le hlbn.1]
  rw [readCdSectors, findRegistered_eq h he hlbn]
  dsimp only
  rw [readHostRange_eq hdata, hsub]

theorem readCdSectors_image (hnone : findRegisteredCdFileForLbn d c lbn = none) {cdImage : F}
    {total : ℕ} (himage : d.cdImagePath = some cdImage) (hdata : d.content cdImage = some data)
    (htotal : cdImageTotalSectors d = some total) {sectors : Word} (hlbn : lbn.toNat < total)
    (hle : lbn.toNat + sectors.toNat ≤ total) (byteCount : ℕ) :
    readCdSectors d c lbn sectors byteCount = ⟨true, window data (lbn.toNat * kCdSectorSize) byteCount⟩ := by
  have hin : ¬(total ≤ lbn.toNat ∨ total < lbn.toNat + sectors.toNat) := by omega
  rw [readCdSectors, hnone, himage, htotal]
  dsimp only
  rw [if_neg hin, readHostRange_eq hdata]

/-! ### Runs -/

/-- What registrations lead to, when no file that is registered ends at 2^32 or behind. -/
inductive Reach (d : Disc F) : CdState F → Prop
  | initial : Reach d .initial
  | register {c : CdState F} (ps2Path : Str) (h : Reach d c) (hfits : Fits d c ps2Path) :
      Reach d (registerCdFile d c ps2Path).2

theorem inv_of_reach (h : Reach d c) : Inv c := by
  induction h with
  | initial => exact Inv.initial
  | register ps2Path _ hfits ih => exact ih.register ps2Path hfits

/-- Sectors mean one thing. -/
structure Sound (d : Disc F) (c : CdState F) : Prop where
  disjoint : ∀ e ∈ c.files, ∀ e' ∈ c.files, e ≠ e' → e.2.stop ≤ e'.2.base ∨ e'.2.stop ≤ e.2.base
  file : ∀ e ∈ c.files, ∀ (lbn sectors : Word) (data : List Byte), d.content e.2.hostPath = some data →
    e.2.base ≤ lbn.toNat → lbn.toNat < e.2.stop → lbn.toNat + sectors.toNat ≤ e.2.stop → ∀ byteCount,
      readCdSectors d c lbn sectors byteCount = ⟨true, window data ((lbn.toNat - e.2.base) * kCdSectorSize) byteCount⟩
  image : ∀ (cdImage : F) (data : List Byte) (total : ℕ), d.cdImagePath = some cdImage → d.content cdImage = some data →
    cdImageTotalSectors d = some total → (total ≤ kCdPseudoLbnStart.toNat ∨ c.files = []) → ∀ lbn sectors : Word,
      lbn.toNat < total → lbn.toNat + sectors.toNat ≤ total → ∀ byteCount,
        readCdSectors d c lbn sectors byteCount = ⟨true, window data (lbn.toNat * kCdSectorSize) byteCount⟩

/-- **As long as the sectors of the files end below 2^32, they do not collide**; and neither do they with those of an
image that ends where they begin. -/
theorem ranges_sound (h : Reach d c) : Sound d c := by
  have hi := inv_of_reach h
  refine ⟨fun e he e' he' hne => ?_, fun e he lbn sectors data hdata hge hlt _ byteCount => ?_,
    fun cdImage data total himage hdata htotal hfree lbn sectors hlt hle byteCount => ?_⟩
  · rw [CdFileEntry.stop, CdFileEntry.stop]
    rcases hi.tiles.apart he he' hne with hap | hap
    · exact .inl (le_trans (Nat.le_succ _) hap)
    · exact .inr (le_trans (Nat.le_succ _) hap)
  · exact readCdSectors_file hi he ((hi.holds_iff he).2 ⟨hge, hlt⟩) hdata sectors byteCount
  · refine readCdSectors_image (findRegistered_eq_none hi fun e he => ?_) himage hdata htotal hlt hle byteCount
    rcases hfree with hfree | hfree
    · exact lt_of_lt_of_le hlt (le_trans hfree (hi.base_ge he))
    · rw [hfree] at he
      exact absurd he List.not_mem_nil

/-! ### Instances -/

/-- A host with one file, of one byte, and an image of so many sectors that are all sevens. -/
def discOf (sectors : ℕ) : Disc Bool where
  cdHostPath := fun _ => some true
  resolveCaseInsensitivePath := fun _ => none
  cdLeafIndex := fun _ => none
  cdLoosePathIndex := fun _ => none
  cdImagePath := some false
  fileSize := fun path => some (if path then 1 else BitVec.ofNat 64 (sectors * kCdSectorSize))
  content := fun path => some (if path then [1] else List.replicate (sectors * kCdSectorSize) 7)
  iterate := id
  iterate_perm := fun _ => List.Perm.refl _

theorem fits_discOf (sectors : ℕ) : Fits (discOf sectors) .initial ['a'] := by
  intro _ path sizeBytes hpath hsize
  have hpath : true = path := Option.some.inj hpath
  subst hpath
  have hsize : 1 = sizeBytes := Option.some.inj hsize
  subst hsize
  have hused : (CdState.initial : CdState Bool).used = kCdPseudoLbnStart.toNat := rfl
  rw [hused]
  decide

theorem ranges_sound_small : Sound (discOf 16) (registerCdFile (discOf 16) .initial ['a']).2 :=
  ranges_sound (.register ['a'] .initial (fits_discOf 16))

/-- An image with one sector more than there are in front of the files has one that is never read. -/
theorem image_sector_hidden :
    ∃ c, Reach (discOf 0x100001) c ∧ cdImageTotalSectors (discOf 0x100001) = some 0x100001 ∧
      readCdSectors (discOf 0x100001) c 0x100000 1 1 = ⟨true, [1]⟩ ∧
        window (List.replicate (0x100001 * kCdSectorSize) (7 : Byte)) (0x100000 * kCdSectorSize) 1 = [7] := by
  have hreach : Reach (discOf 0x100001) (registerCdFile (discOf 0x100001) .initial ['a']).2 :=
    .register ['a'] .initial (fits_discOf 0x100001)
  have he : (['a'], newEntry .initial true 1) ∈ (registerCdFile (discOf 0x100001) .initial ['a']).2.files :=
    List.mem_singleton_self _
  refine ⟨_, hreach, by decide +kernel, ?_, ?_⟩
  · rw [readCdSectors_file (inv_of_reach hreach) he (by decide) rfl]
    rfl
  · rw [window, List.range'_one, List.map_singleton, List.getD_replicate _ (by decide)]

end Ps2Recomp.CdFiles
