import Ps2Recomp.Proof.CdFiles
import Ps2Recomp.Spec.CdStream

/-!
# A stream from the disc

`sceCdStRead` serves the file of the stream in order (`Serve`), as long as the place and the end of the stream are
its own: the other calls move them too. The condition `Meets` says that a call leaves them where they are, and that a
buffer has room for what is read.
-/

namespace Ps2Recomp.CdStream

open CdFiles Memory Padded
open HostFiles (Guest u32Bytes)
open GuestPaths (Str)
open McStubs (readPs2CStringBounded)
open SifRpc (HostPtr)

variable {F : Type} {d : Disc F} {w : CdWorld F}

/-! ### Runs -/

/-- What happens between the start of a stream and the next: calls, and the program, which leaves its memory in any
state. -/
inductive Call
  | stRead (requestedSectors buf errAddr : Word)
  | read (a0 a1 a2 : Word)
  | readChain (chainAddr : Word)
  | searchFile (fileAddr pathAddr : Word)
  | program (guest : Guest)

def step (d : Disc F) (w : CdWorld F) : Call → Word × CdWorld F
  | .stRead requestedSectors buf errAddr => sceCdStRead d w requestedSectors buf errAddr
  | .read a0 a1 a2 => sceCdRead d w a0 a1 a2
  | .readChain chainAddr => sceCdReadChain d w chainAddr
  | .searchFile fileAddr pathAddr => sceCdSearchFile d w fileAddr pathAddr
  | .program guest => (0, { w with guest })

/-- What a call of `sceCdStRead` returns, and so many sectors in its buffer. -/
def answers (d : Disc F) (w : CdWorld F) : Call → List (ℕ × List Byte)
  | .stRead requestedSectors buf errAddr =>
    let r := sceCdStRead d w requestedSectors buf errAddr
    [(r.1.toNat, r.2.guest.bytes ⟨false, ramOffset buf⟩ (r.1.toNat * kCdSectorSize))]
  | _ => []

def allAnswers (d : Disc F) : CdWorld F → List Call → List (ℕ × List Byte)
  | _, [] => []
  | w, call :: rest => answers d w call ++ allAnswers d (step d w call).2 rest

def requests : List Call → List ℕ
  | [] => []
  | .stRead requestedSectors _ _ :: rest => requestedSectors.toNat :: requests rest
  | _ :: rest => requests rest

/-! ### The condition -/

/-- The entries of a chain that are read. -/
def chainReads (d : Disc F) : ℕ → Word → CdWorld F → List CdReadArgs
  | 0, _, _ => []
  | n + 1, addr, w =>
    match w.guest.ptr addr with
    | none => []
    | some entry =>
      let lbn := SifRpc.word w.guest.memory entry 0
      let sectors := SifRpc.word w.guest.memory entry 1
      let buf := SifRpc.word w.guest.memory entry 2
      if lbn = 0xFFFFFFFF ∨ sectors = 0 then []
      else
        let (ok, w) := w.readInto d lbn sectors (ramOffset buf) (clampReadBytes sectors (ramOffset buf))
        if ok then ⟨lbn, sectors, buf⟩ :: chainReads d n (addr + 16) (w.setStreamingLbn (lbn + sectors)) else []

/-- What so many sectors fill of a buffer is RAM, and the error is not put into it. -/
def RoomFor (guest : Guest) (sectors buf errAddr : Word) : Prop :=
  ramOffset buf + sectors.toNat * kCdSectorSize ≤ ramSize.toNat ∧
    ∀ p, guest.ptr errAddr = some p → p.scratch = false →
      p.offset + 4 ≤ ramOffset buf ∨ ramOffset buf + sectors.toNat * kCdSectorSize ≤ p.offset

/-- A read has room in its buffer. Another call reads nothing, or what it reads ends at the place of the stream; a
search finds nothing, or the file of the stream while its first sector is the next. -/
def Meets (d : Disc F) (w : CdWorld F) : Call → Prop
  | .stRead requestedSectors buf errAddr => RoomFor w.guest (streamSectors w.cd requestedSectors) buf errAddr
  | .read a0 a1 a2 => ∀ args, (selectRead d w a0 a1 a2).1 = some args → args.lbn + args.sectors = w.cd.streamingLbn
  | .readChain chainAddr => ∀ args, (chainReads d 64 chainAddr w).getLast? = some args →
    args.lbn + args.sectors = w.cd.streamingLbn
  | .searchFile fileAddr pathAddr =>
    let path := readPs2CStringBounded w.guest pathAddr 260
    Fits d w.cd path ∧ ∀ entry, normalizeCdPathNoPrefix path ≠ [] → (registerCdFile d w.cd path).1 = some entry →
      w.guest.ptr fileAddr ≠ none →
        entry.baseLbn = w.cd.streamingLbn ∧ entry.baseLbn + entry.sectors = w.cd.streamingEndLbn
  | .program _ => True

def MeetsAll (d : Disc F) : CdWorld F → List Call → Prop
  | _, [] => True
  | w, call :: rest => Meets d w call ∧ MeetsAll d (step d w call).2 rest

/-! ### Guest memory -/

section Guest

variable {g : Guest} {p q : HostPtr} {l : List Byte} {n : ℕ}

theorem bytes_copyTo_self : (g.copyTo p l).bytes p l.length = l := by
  refine List.ext_getElem? fun i => ?_
  rw [Guest.bytes, List.getElem?_map]
  by_cases hi : i < l.length
  · have hin : p.offset ≤ p.offset + i ∧ p.offset + i < p.offset + l.length := by omega
    rw [List.getElem?_range hi, Option.map_some, Guest.copyTo]
    dsimp only
    rw [VSync.GuestMemory.area_setArea, if_pos rfl, Bytes.copy, if_pos hin, Nat.add_sub_cancel_left,
      List.getD_eq_getElem?_getD, List.getElem?_eq_getElem hi, Option.getD_some]
  · rw [List.getElem?_eq_none (by rw [List.length_range]; exact not_lt.1 hi),
      List.getElem?_eq_none (not_lt.1 hi), Option.map_none]

theorem bytes_copyTo_apart (h : p.scratch = q.scratch → q.offset + n ≤ p.offset ∨ p.offset + l.length ≤ q.offset) :
    (g.copyTo p l).bytes q n = g.bytes q n := by
  refine List.map_congr_left fun i hi => ?_
  have hi : i < n := List.mem_range.1 hi
  rw [Guest.copyTo]
  dsimp only
  rw [VSync.GuestMemory.area_setArea]
  split
  next heq =>
    have hout : ¬(p.offset ≤ q.offset + i ∧ q.offset + i < p.offset + l.length) := by
      have := h heq.symm
      omega
    rw [Bytes.copy, if_neg hout, heq]
  · rfl

theorem bytes_copyAt_apart {addr : Word}
    (h : ∀ p, g.ptr addr = some p → p.scratch = q.scratch → q.offset + n ≤ p.offset ∨ p.offset + l.length ≤ q.offset) :
    (g.copyAt addr l).bytes q n = g.bytes q n := by
  rw [Guest.copyAt]
  split
  next p hp => exact bytes_copyTo_apart (h p hp)
  · rfl

end Guest

/-! ### What the calls leave -/

/-- The same files, and the stream at the same place. -/
structure SameStream (cd cd' : CdState F) : Prop where
  files : cd'.files = cd.files
  next : cd'.nextPseudoLbn = cd.nextPseudoLbn
  place : cd'.streamingLbn = cd.streamingLbn
  stop : cd'.streamingEndLbn = cd.streamingEndLbn

namespace SameStream

variable {cd cd' cd'' : CdState F}

theorem refl : SameStream cd cd := ⟨rfl, rfl, rfl, rfl⟩

theorem trans (h : SameStream cd cd') (h' : SameStream cd' cd'') : SameStream cd cd'' :=
  ⟨h'.files.trans h.files, h'.next.trans h.next, h'.place.trans h.place, h'.stop.trans h.stop⟩

end SameStream

theorem tryRead_same {args : CdReadArgs} : SameStream w.cd (tryRead d w args).2.cd := by
  rw [tryRead]
  split
  · exact .refl
  · exact ⟨rfl, rfl, rfl, rfl⟩

theorem tryAlternatives_same {l : List CdReadArgs} : SameStream w.cd (tryAlternatives d l w).2.cd := by
  induction l generalizing w with
  | nil => exact .refl
  | cons args rest ih =>
    rw [tryAlternatives]
    split
    · exact ih
    · dsimp only
      split
      · exact tryRead_same
      · exact tryRead_same.trans ih

theorem selectRead_same {a0 a1 a2 : Word} : SameStream w.cd (selectRead d w a0 a1 a2).2.cd := by
  rw [selectRead]
  split
  next ok w' htry =>
    have hsame : SameStream w.cd w'.cd := by
      have hread : SameStream w.cd (tryRead d w ⟨a0, a1, a2⟩).2.cd := tryRead_same
      rw [htry] at hread
      exact hread
    split
    · exact hsame
    · split
      · exact hsame
      · exact hsame.trans tryAlternatives_same

/-- A read that selects what ends at the place of the stream leaves it there. -/
theorem sceCdRead_same {a0 a1 a2 : Word} (h : Meets d w (.read a0 a1 a2)) :
    SameStream w.cd (sceCdRead d w a0 a1 a2).2.cd := by
  have hsame : SameStream w.cd (selectRead d w a0 a1 a2).2.cd := selectRead_same
  rw [sceCdRead]
  split
  next selected w' hselect =>
    have hplace := h selected (by rw [hselect])
    rw [hselect] at hsame
    exact ⟨hsame.files, hsame.next, hplace, hsame.stop⟩
  next w' hselect =>
    rw [hselect] at hsame
    exact hsame

theorem readChainLoop_same {n : ℕ} {addr place : Word} (hplace : chainReads d n addr w = [] → w.cd.streamingLbn = place)
    (hlast : ∀ args, (chainReads d n addr w).getLast? = some args → args.lbn + args.sectors = place) :
    SameStream { w.cd with streamingLbn := place } (readChainLoop d n addr w).2.cd := by
  induction n generalizing addr w with
  | zero => exact ⟨rfl, rfl, hplace rfl, rfl⟩
  | succ n ih =>
    rw [chainReads] at hplace hlast
    rw [readChainLoop]
    split
    next hptr =>
      rw [hptr] at hplace
      exact ⟨rfl, rfl, hplace rfl, rfl⟩
    next entry hptr =>
      rw [hptr] at hplace hlast
      dsimp only at hplace hlast ⊢
      split
      next hstop =>
        rw [if_pos hstop] at hplace
        exact ⟨rfl, rfl, hplace rfl, rfl⟩
      next hgo =>
        rw [if_neg hgo] at hplace hlast
        split
        next hok =>
          rw [if_pos hok] at hlast
          -- the rest of the chain decides, or this entry is the last
          refine SameStream.trans ?_ (ih ?_ ?_)
          · exact ⟨rfl, rfl, rfl, rfl⟩
          · intro hnil
            rw [hnil] at hlast
            exact hlast _ rfl
          · intro args hargs
            refine hlast args ?_
            rw [List.getLast?_cons, hargs]
            rfl
        next hfail =>
          rw [if_neg hfail] at hplace
          exact ⟨rfl, rfl, hplace rfl, rfl⟩

theorem sceCdReadChain_same {chainAddr : Word} (h : Meets d w (.readChain chainAddr)) :
    SameStream w.cd (sceCdReadChain d w chainAddr).2.cd :=
  readChainLoop_same (fun _ => rfl) h

/-! ### The stream of a file -/

/-- The stream stands `p` sectors behind the first of a file. -/
structure At (e : Str × CdFileEntry F) (p : ℕ) (cd : CdState F) : Prop where
  inv : Inv cd
  mem : e ∈ cd.files
  place : cd.streamingLbn.toNat = e.2.base + p
  stop : cd.streamingEndLbn = e.2.baseLbn + e.2.sectors
  le : p ≤ e.2.sectors.toNat

namespace At

variable {e : Str × CdFileEntry F} {p : ℕ} {cd cd' : CdState F}

section

variable (h : At e p cd)

include h

theorem congr (hsame : SameStream cd cd') : At e p cd' where
  inv := h.inv.congr hsame.files hsame.next
  mem := hsame.files ▸ h.mem
  place := by rw [hsame.place, h.place]
  stop := by rw [hsame.stop, h.stop]
  le := h.le

theorem toNat_stop : cd.streamingEndLbn.toNat = e.2.stop := by
  rw [h.stop, BitVec.toNat_add]
  exact Nat.mod_eq_of_lt (lt_of_lt_of_le (h.inv.stop_lt h.mem) h.inv.used_le)

theorem toNat_streamSectors (hend : e.2.stop ≠ 2 ^ 32 - 1) (n : Word) :
    (streamSectors cd n).toNat = min n.toNat (e.2.sectors.toNat - p) := by
  have hstop := h.toNat_stop
  have hplace := h.place
  have hle := h.le
  have hsectors : e.2.stop = e.2.base + e.2.sectors.toNat := rfl
  have hne : cd.streamingEndLbn ≠ 0xFFFFFFFF := by
    intro heq
    rw [heq] at hstop
    exact hend hstop.symm
  rw [streamSectors, if_pos hne]
  by_cases hdone : cd.streamingEndLbn ≤ cd.streamingLbn
  · have hge := BitVec.le_def.1 hdone
    have hzero : (0 : Word).toNat = 0 := rfl
    rw [if_pos hdone, hzero]
    omega
  · have hlt : cd.streamingLbn.toNat < cd.streamingEndLbn.toNat := not_le.1 fun hge => hdone (BitVec.le_def.2 hge)
    have hsub : (cd.streamingEndLbn - cd.streamingLbn).toNat = e.2.sectors.toNat - p := by
      rw [BitVec.toNat_sub_of_le (BitVec.le_def.2 (le_of_lt hlt))]
      omega
    rw [if_neg hdone]
    dsimp only
    split
    next hmore =>
      have hmore := BitVec.lt_def.1 hmore
      rw [hsub] at hmore ⊢
      omega
    next hfew =>
      have hfew : n.toNat ≤ (cd.streamingEndLbn - cd.streamingLbn).toNat := not_lt.1 fun hlt => hfew (BitVec.lt_def.2 hlt)
      rw [hsub] at hfew
      omega

theorem register {ps2Path : Str} (hfits : Fits d cd ps2Path) : At e p (registerCdFile d cd ps2Path).2 := by
  have hkeeps : e ∈ (registerCdFile d cd ps2Path).2.files ∧
      (registerCdFile d cd ps2Path).2.streamingLbn = cd.streamingLbn ∧
      (registerCdFile d cd ps2Path).2.streamingEndLbn = cd.streamingEndLbn := by
    rw [registerCdFile]
    split
    · exact ⟨h.mem, rfl, rfl⟩
    · split
      · exact ⟨h.mem, rfl, rfl⟩
      · split
        · exact ⟨h.mem, rfl, rfl⟩
        · split
          · exact ⟨h.mem, rfl, rfl⟩
          · exact ⟨List.mem_append_left _ h.mem, rfl, rfl⟩
  obtain ⟨hmem, hplace, hstop⟩ := hkeeps
  exact ⟨h.inv.register ps2Path hfits, hmem, by rw [hplace, h.place], by rw [hstop, h.stop], h.le⟩

end

theorem search (h : At e p w.cd) {fileAddr pathAddr : Word} (hmeets : Meets d w (.searchFile fileAddr pathAddr)) :
    At e p (sceCdSearchFile d w fileAddr pathAddr).2.cd := by
  obtain ⟨hfits, hfound⟩ := hmeets
  have hreg := h.register hfits
  rw [sceCdSearchFile]
  dsimp only
  split
  · exact h.congr ⟨rfl, rfl, rfl, rfl⟩
  next hpath =>
    have hnormal : normalizeCdPathNoPrefix (readPs2CStringBounded w.guest pathAddr 260) ≠ [] := fun hnil =>
      hpath (.inr hnil)
    split
    next cd hcd =>
      rw [hcd] at hreg
      exact hreg
    next entry cd hcd =>
      rw [hcd] at hreg
      split
      · exact hreg.congr ⟨rfl, rfl, rfl, rfl⟩
      next p hp =>
        obtain ⟨hplace, hstop⟩ := hfound entry hnormal (by rw [hcd]) (by rw [hp]; exact Option.some_ne_none _)
        exact ⟨hreg.inv.congr rfl rfl, hreg.mem, hplace ▸ h.place, hstop ▸ h.stop, h.le⟩

variable {data : List Byte}

section

variable (h : At e p w.cd) (hend : e.2.stop ≠ 2 ^ 32 - 1) (hdata : d.content e.2.hostPath = some data)

include h hend hdata

theorem stRead {n buf errAddr : Word} (hmeets : Meets d w (.stRead n buf errAddr)) :
    answers d w (.stRead n buf errAddr) = [Serve.answer kCdSectorSize data e.2.sectors.toNat p n.toNat] ∧
      At e (p + min n.toNat (e.2.sectors.toNat - p)) (sceCdStRead d w n buf errAddr).2.cd := by
  have hm := h.toNat_streamSectors hend n
  have hle := h.le
  obtain ⟨hroom, hapart⟩ := hmeets
  rw [answers, Serve.answer, ← hm]
  rw [sceCdStRead]
  dsimp only
  by_cases hzero : (streamSectors w.cd n).toNat = 0
  · -- nothing is left, or nothing was asked for
    have hnot : ¬0 < streamSectors w.cd n := fun hpos => absurd (BitVec.lt_def.1 hpos) (by rw [hzero]; exact lt_irrefl 0)
    have hnone : (0 : Word).toNat = 0 := rfl
    rw [if_neg hnot, hzero, Nat.zero_mul, window_zero, Nat.add_zero]
    refine ⟨?_, h.congr ⟨rfl, rfl, rfl, rfl⟩⟩
    rw [if_neg Bool.false_ne_true, hnone, Nat.zero_mul]
    rfl
  · have hpos : 0 < streamSectors w.cd n := BitVec.lt_def.2 (Nat.pos_of_ne_zero hzero)
    have hplace := h.place
    have hclamp : clampReadBytes (streamSectors w.cd n) (ramOffset buf) =
        (streamSectors w.cd n).toNat * kCdSectorSize := by
      rw [clampReadBytes]
      exact min_eq_left (by omega)
    have hholds : e.2.Holds w.cd.streamingLbn := by
      refine (h.inv.holds_iff h.mem).2 ?_
      have hstop : e.2.stop = e.2.base + e.2.sectors.toNat := rfl
      omega
    have hsub : w.cd.streamingLbn.toNat - e.2.base = p := by omega
    have hread : readCdSectors d w.cd w.cd.streamingLbn (streamSectors w.cd n)
        (clampReadBytes (streamSectors w.cd n) (ramOffset buf)) =
        ⟨true, window data (p * kCdSectorSize) ((streamSectors w.cd n).toNat * kCdSectorSize)⟩ := by
      rw [readCdSectors_file h.inv h.mem hholds hdata, hsub, hclamp]
    rw [if_pos hpos, CdWorld.readInto, hread, hclamp]
    dsimp only
    rw [if_pos rfl]
    -- the error is put next to the data
    have hkeep : ∀ g : Guest, g.ptr errAddr = w.guest.ptr errAddr →
        (g.copyAt errAddr (u32Bytes (BitVec.ofInt 32 0))).bytes ⟨false, ramOffset buf⟩
            ((streamSectors w.cd n).toNat * kCdSectorSize) =
          g.bytes ⟨false, ramOffset buf⟩ ((streamSectors w.cd n).toNat * kCdSectorSize) := by
      intro g hptr
      exact bytes_copyAt_apart fun q hq hscratch => (hapart q (hptr ▸ hq) hscratch).symm
    refine ⟨?_, ?_⟩
    · rw [putError, CdWorld.put, CdWorld.setStreamingLbn, CdWorld.put]
      dsimp only
      rw [hkeep, bytes_copyTo_apart fun _ => .inl le_rfl]
      · have hself := bytes_copyTo_self (g := w.guest) (p := ⟨false, ramOffset buf⟩)
          (l := window data (p * kCdSectorSize) ((streamSectors w.cd n).toNat * kCdSectorSize))
        rw [length_window] at hself
        rw [hself]
      · rfl
    · refine ⟨h.inv.congr rfl rfl, h.mem, ?_, h.stop, by omega⟩
      have hlt := h.inv.stop_lt h.mem
      have hused := h.inv.used_le
      have hstop : e.2.stop = e.2.base + e.2.sectors.toNat := rfl
      have hadd : (w.cd.streamingLbn + streamSectors w.cd n).toNat =
          w.cd.streamingLbn.toNat + (streamSectors w.cd n).toNat := by
        rw [BitVec.toNat_add]
        exact Nat.mod_eq_of_lt (by omega)
      have hend : (w.cd.streamingLbn + streamSectors w.cd n).toNat = e.2.base + (p + (streamSectors w.cd n).toNat) := by
        omega
      exact hend

theorem step {call : Call} (hmeets : Meets d w call) :
    ∃ q, answers d w call = Serve.serve kCdSectorSize data e.2.sectors.toNat p (requests [call]) ∧
      q = p + Serve.served (answers d w call) ∧ At e q (step d w call).2.cd := by
  cases call with
  | stRead n buf errAddr =>
    obtain ⟨hanswers, hat⟩ := h.stRead hend hdata hmeets
    refine ⟨_, hanswers, ?_, hat⟩
    rw [hanswers]
    rfl
  | read a0 a1 a2 => exact ⟨p, rfl, rfl, h.congr (sceCdRead_same hmeets)⟩
  | readChain chainAddr => exact ⟨p, rfl, rfl, h.congr (sceCdReadChain_same hmeets)⟩
  | searchFile fileAddr pathAddr => exact ⟨p, rfl, rfl, h.search hmeets⟩
  | program guest => exact ⟨p, rfl, rfl, h⟩

theorem run {calls : List Call} (hmeets : MeetsAll d w calls) :
    allAnswers d w calls = Serve.serve kCdSectorSize data e.2.sectors.toNat p (requests calls) := by
  induction calls generalizing w p with
  | nil => rfl
  | cons call rest ih =>
    obtain ⟨q, hanswers, hq, hat⟩ := h.step hend hdata hmeets.1
    rw [allAnswers, ih hat hmeets.2, hq, hanswers]
    cases call with
    | stRead n buf errAddr => rfl
    | read a0 a1 a2 => rfl
    | readChain chainAddr => rfl
    | searchFile fileAddr pathAddr => rfl
    | program guest => rfl

end

end At

/-! ### Streams -/

/-- What registrations lead to, whatever else calls have changed. -/
def Registered (d : Disc F) (cd : CdState F) : Prop :=
  ∃ c, CdFiles.Reach d c ∧ cd.files = c.files ∧ cd.nextPseudoLbn = c.nextPseudoLbn

/-- The answers are the sectors of a file from the `p`-th on: in order, as many as asked for while there are some,
and none behind the last. -/
structure InOrder (data : List Byte) (total p : ℕ) (requests : List ℕ) (answers : List (ℕ × List Byte)) : Prop where
  served : answers = Serve.serve kCdSectorSize data total p requests
  data : answers.flatMap (·.2) = window data (p * kCdSectorSize) (Serve.served answers * kCdSectorSize)
  within : p + Serve.served answers ≤ total
  counted : ∀ a ∈ answers, a.2.length = a.1 * kCdSectorSize
  ended : ∀ before after, answers = before ++ after → p + Serve.served before = total → ∀ a ∈ after, a.1 = 0

/-- **A stream is in order**, as long as no other call moves it. -/
theorem stream_in_order {e : Str × CdFileEntry F} {lbn : Word} {data : List Byte} {calls : List Call}
    (hreg : Registered d w.cd) (he : e ∈ w.cd.files) (hlbn : e.2.Holds lbn) (hend : e.2.stop ≠ 2 ^ 32 - 1)
    (hdata : d.content e.2.hostPath = some data) (hmeets : MeetsAll d (sceCdStStart d w lbn) calls) :
    InOrder data e.2.sectors.toNat (lbn.toNat - e.2.base) (requests calls)
      (allAnswers d (sceCdStStart d w lbn) calls) := by
  obtain ⟨c, hc, hfiles, hnext⟩ := hreg
  have hinv : Inv w.cd := (inv_of_reach hc).congr hfiles hnext
  have hin := (hinv.holds_iff he).1 hlbn
  have hstop : e.2.stop = e.2.base + e.2.sectors.toNat := rfl
  have hat : At e (lbn.toNat - e.2.base) (sceCdStStart d w lbn).cd := by
    refine ⟨hinv.congr rfl rfl, he, ?_, ?_, by omega⟩
    · have hplace : lbn.toNat = e.2.base + (lbn.toNat - e.2.base) := by omega
      exact hplace
    · rw [sceCdStStart, cdStreamingEndLbnForStart, findRegistered_eq hinv he hlbn]
  have hserve := hat.run hend hdata hmeets
  rw [hserve]
  exact ⟨rfl, Serve.data_serve, Serve.served_le hat.le, fun a ha => Serve.length_answer ha,
    fun before after heq hend => Serve.served_eq_zero heq hend⟩

/-! ### Instances -/

/-- A program without memory of its own, and the one file of `discOf`. -/
def worldOf (sectors : ℕ) : CdWorld Bool :=
  ⟨⟨⟨fun _ => 0, fun _ => 0⟩, false, []⟩, (registerCdFile (discOf sectors) .initial ['a']).2⟩

theorem registered_worldOf (sectors : ℕ) : Registered (discOf sectors) (worldOf sectors).cd :=
  ⟨_, .register ['a'] .initial (fits_discOf sectors), rfl, rfl⟩

theorem mem_worldOf (sectors : ℕ) : (['a'], newEntry .initial true 1) ∈ (worldOf sectors).cd.files :=
  List.mem_singleton_self _

theorem stream_in_order_one :
    InOrder [1] (newEntry (CdState.initial : CdState Bool) true 1).sectors.toNat
      ((0x100000 : Word).toNat - (newEntry (CdState.initial : CdState Bool) true 1).base) (requests [.stRead 1 0x100000 0])
      (allAnswers (discOf 16) (sceCdStStart (discOf 16) (worldOf 16) 0x100000) [.stRead 1 0x100000 0]) := by
  have hsectors : (streamSectors (sceCdStStart (discOf 16) (worldOf 16) 0x100000).cd 1).toNat = 1 := by decide +kernel
  refine stream_in_order (registered_worldOf 16) (mem_worldOf 16) (by decide) (by decide) rfl ⟨⟨?_, ?_⟩, trivial⟩
  · rw [hsectors]
    decide
  · intro p hp _
    have hp : ⟨false, 0⟩ = p := Option.some.inj hp
    subst hp
    exact .inl (by decide)

/-- A read of the image between the start of a stream and the first read of it: the stream serves the image. -/
theorem read_moves_stream :
    ¬InOrder [1] 1 0 [1] (allAnswers (discOf 16) (sceCdStStart (discOf 16) (worldOf 16) 0x100000)
      [.read 0 1 0x200000, .stRead 1 0x100000 0]) := by
  intro h
  have hserved := congrArg (fun l => l.head?.bind fun a => a.2.head?) h.served
  have hseven : ((allAnswers (discOf 16) (sceCdStStart (discOf 16) (worldOf 16) 0x100000)
      [.read 0 1 0x200000, .stRead 1 0x100000 0]).head?.bind fun a => a.2.head?) = some 7 := by decide +kernel
  have hone : ((Serve.serve kCdSectorSize ([1] : List Byte) 1 0 [1]).head?.bind fun a => a.2.head?) = some 1 := by
    decide +kernel
  rw [hseven, hone] at hserved
  exact absurd hserved (by decide)

end Ps2Recomp.CdStream
