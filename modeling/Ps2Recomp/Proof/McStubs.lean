import Ps2Recomp.Proof.FileReads
import Ps2Recomp.Spec.McStubs

/-!
# Two front ends do the same

The bodies that both share do the same wherever the guest's memory has the same arguments (`Same`). What is left are
the arguments that the two read differently; where they are plain, each step agrees (`Step.agree`), and so do runs.
-/

namespace Ps2Recomp.McStubs

open Memory VSync GuestPaths HostFiles McServ
open SifRpc (HostPtr)
open FileReads (copied stores_writeResultI32 copied_congr)

variable {σ F : Type} {e : Env σ F} {g g' : Guest} {mc : McState F} {h : σ} {s : Step} {c c' : Card σ F}
variable {r r' : Word × McWorld σ F} {fd port slot : Word}

/-! ### The shared bodies -/

/-- From two memories both come to the same, with the same copies. -/
structure Same (g g' : Guest) (r r' : Word × McWorld σ F) : Prop where
  result : r.1 = r'.1
  mc : r.2.mc = r'.2.mc
  host : r.2.host = r'.2.host
  stores : ∃ l, r.2.guest.stores = g.stores ++ l ∧ r'.2.guest.stores = g'.stores ++ l
  ptr : ∀ a, r.2.guest.ptr a = g.ptr a
  ptr' : ∀ a, r'.2.guest.ptr a = g'.ptr a

theorem Same.quiet (result : Word) (mc : McState F) (h : σ) : Same g g' (result, ⟨g, mc, h⟩) (result, ⟨g', mc, h⟩) where
  result := rfl
  mc := rfl
  host := rfl
  stores := ⟨[], (List.append_nil _).symm, (List.append_nil _).symm⟩
  ptr _ := rfl
  ptr' _ := rfl

theorem Same.copy (result : Word) (mc : McState F) (h : σ) (p : HostPtr) (bytes : List Byte) :
    Same g g' (result, ⟨g.copyTo p bytes, mc, h⟩) (result, ⟨g'.copyTo p bytes, mc, h⟩) where
  result := rfl
  mc := rfl
  host := rfl
  stores := ⟨[⟨p, bytes⟩], rfl, rfl⟩
  ptr _ := rfl
  ptr' _ := rfl

theorem same_open (path : Str) (flags : Word) :
    Same g g' (openBody e ⟨g, mc, h⟩ port slot path flags) (openBody e ⟨g', mc, h⟩ port slot path flags) := by
  simp only [openBody]
  split_ifs
  all_goals try exact Same.quiet _ _ _
  all_goals
    rcases openMcHostFile e h _ flags with ⟨_ | file, h'⟩
    · exact Same.quiet _ _ _
    · exact Same.quiet _ _ _

theorem same_close : Same g g' (closeBody e ⟨g, mc, h⟩ fd) (closeBody e ⟨g', mc, h⟩ fd) := by
  simp only [closeBody]
  rcases mc.files.lookup fd with _ | openFile
  · exact Same.quiet _ _ _
  · exact Same.quiet _ _ _

theorem same_read (size : ℕ) (dst : Option HostPtr) :
    Same g g' (readBody e ⟨g, mc, h⟩ fd size dst) (readBody e ⟨g', mc, h⟩ fd size dst) := by
  simp only [readBody.eq_def]
  split_ifs
  · exact Same.quiet _ _ _
  rcases mc.file fd with _ | file
  · exact Same.quiet _ _ _
  rcases dst with _ | p
  · exact Same.quiet _ _ _
  dsimp only
  split_ifs
  · exact Same.copy _ _ _ _ _
  · exact Same.copy _ _ _ _ _

theorem same_write (size : ℕ) {src src' : Option HostPtr}
    (hbytes : src.map (g.bytes · size) = src'.map (g'.bytes · size)) :
    Same g g' (writeBody e ⟨g, mc, h⟩ fd size src) (writeBody e ⟨g', mc, h⟩ fd size src') := by
  simp only [writeBody.eq_def]
  split_ifs
  · exact Same.quiet _ _ _
  rcases mc.file fd with _ | file
  · exact Same.quiet _ _ _
  rcases src with _ | p <;> rcases src' with _ | p'
  · exact Same.quiet _ _ _
  · cases hbytes
  · cases hbytes
  have hsame : g.bytes p size = g'.bytes p' size := Option.some.inj hbytes
  dsimp only
  rw [hsame]
  split_ifs
  · exact Same.quiet _ _ _
  · exact Same.quiet _ _ _

theorem toNat_inj {a b : Char} (hlt : ¬a.toNat < b.toNat) (hgt : ¬b.toNat < a.toNat) : a = b :=
  Char.ext (UInt32.toNat_inj.1 (le_antisymm (not_lt.1 hgt) (not_lt.1 hlt)))

theorem strLess_cons {a b : Char} {s t : Str} :
    strLess (a :: s) (b :: t) = true ↔ a.toNat < b.toNat ∨ a = b ∧ strLess s t = true := by
  rw [strLess, Bool.or_eq_true, Bool.and_eq_true, decide_eq_true_iff, decide_eq_true_iff]

theorem strLess_asymm {s t : Str} (h : strLess s t = true) : strLess t s = false := by
  induction s generalizing t with
  | nil => cases t <;> rfl
  | cons a s ih =>
    rcases t with _ | ⟨b, t⟩
    · cases h
    · rw [← Bool.not_eq_true, strLess_cons]
      rintro (hlt | ⟨rfl, hlt⟩)
      · rcases strLess_cons.1 h with hgt | ⟨rfl, -⟩ <;> omega
      · rcases strLess_cons.1 h with hgt | ⟨-, hgt⟩
        · omega
        · rw [ih hgt] at hlt
          cases hlt

theorem strLess_trans {s t u : Str} (hst : strLess s t = true) (htu : strLess t u = true) : strLess s u = true := by
  induction s generalizing t u with
  | nil =>
    rcases u with _ | ⟨c, u⟩
    · cases t <;> cases htu
    · rfl
  | cons a s ih =>
    rcases t with _ | ⟨b, t⟩
    · cases hst
    rcases u with _ | ⟨c, u⟩
    · cases htu
    rw [strLess_cons] at hst htu ⊢
    rcases hst with hab | ⟨rfl, hst⟩ <;> rcases htu with hbc | ⟨rfl, htu⟩
    · exact .inl (hab.trans hbc)
    · exact .inl hab
    · exact .inl hbc
    · exact .inr ⟨rfl, ih hst htu⟩

theorem eq_of_not_strLess {s t : Str} (hst : strLess s t = false) (hts : strLess t s = false) : s = t := by
  induction s generalizing t with
  | nil =>
    rcases t with _ | ⟨b, t⟩
    · rfl
    · cases hst
  | cons a s ih =>
    rcases t with _ | ⟨b, t⟩
    · cases hts
    rw [← Bool.not_eq_true, strLess_cons, not_or] at hst hts
    obtain rfl : a = b := toNat_inj hst.1 hts.1
    rw [ih (Bool.eq_false_iff.2 fun h => hst.2 ⟨rfl, h⟩) (Bool.eq_false_iff.2 fun h => hts.2 ⟨rfl, h⟩)]

theorem sort_eq (l : List DirectoryEntry) (hl : CaseBlind l) :
    e.host.sort (·.filename) l = e.host.sort (fun entry => toLowerAscii entry.filename) l := by
  have hmem : ∀ key a, a ∈ e.host.sort key l → a ∈ l := fun key a ha => (e.host.sort_perm key l).mem_iff.1 ha
  have hlower : (e.host.sort (fun entry => toLowerAscii entry.filename) l).Pairwise
      fun a b => strLess b.filename a.filename = false := by
    refine (e.host.sort_pairwise (fun entry => toLowerAscii entry.filename) l).imp_of_mem fun ha hb hnot => ?_
    rw [← Bool.not_eq_true] at hnot ⊢
    exact fun hlt => hnot (hl.2 _ (hmem _ _ hb) _ (hmem _ _ ha) hlt)
  refine List.Perm.eq_of_pairwise (fun a b ha hb hab hba => ?_) (e.host.sort_pairwise _ l) hlower
    ((e.host.sort_perm _ l).trans (e.host.sort_perm _ l).symm)
  exact hl.1 a (hmem _ _ ha) b (hmem _ _ hb) (eq_of_not_strLess hba hab)

theorem same_getDir {key key' : DirectoryEntry → Str} {table table' : Word} {path : Str} (maxEntries : ℕ)
    (hentries : dirEntries e key (e.host.createDirectories h (e.root port.toInt)) mc.ports port path =
      dirEntries e key' (e.host.createDirectories h (e.root port.toInt)) mc.ports port path)
    (hzero : table = 0 ↔ table' = 0) (hptr : g.ptr table = g'.ptr table') :
    Same g g' (getDirBody e ⟨g, mc, h⟩ key port slot path maxEntries table)
      (getDirBody e ⟨g', mc, h⟩ key' port slot path maxEntries table') := by
  simp only [getDirBody, hentries, hzero, hptr]
  split_ifs
  · rcases dirEntries e key' _ mc.ports port path with _ | entries
    · exact Same.quiet _ _ _
    dsimp only
    split_ifs
    · exact Same.quiet _ _ _
    rcases g'.ptr table' with _ | p
    · exact Same.quiet _ _ _
    · exact Same.copy _ _ _ _ _
  · exact Same.quiet _ _ _
  · exact Same.quiet _ _ _

/-! ### One step -/

/-- What `writeResultI32` copies. -/
def written (g : Guest) (addr result : Word) : List Store := if addr ≠ 0 then copied g addr (u32Bytes result) else []

variable {addr result : Word} {w : McWorld σ F}

theorem stores_write : (w.writeResultI32 addr result).guest.stores = w.guest.stores ++ written w.guest addr result :=
  stores_writeResultI32

theorem ptr_write (a : Word) : (w.writeResultI32 addr result).guest.ptr a = w.guest.ptr a := by
  rw [McWorld.writeResultI32, Guest.writeResultI32]
  split
  · rfl
  · exact FileReads.ptr_copyAt a

theorem written_congr {addr addr' result : Word} (hzero : addr = 0 ↔ addr' = 0) (hptr : g.ptr addr = g'.ptr addr') :
    written g addr result = written g' addr' result := by
  rw [written, written, copied, copied, hptr]
  exact if_congr (not_congr hzero) rfl rfl

theorem ptr_of_mem_written {store : Store} (h : store ∈ written g addr result) : g.ptr addr = some store.ptr := by
  rw [written] at h
  split at h
  · obtain ⟨p, hp, rfl⟩ := List.mem_map.1 h
    exact Option.mem_toList.1 hp
  · exact absurd h List.not_mem_nil

theorem mem_written {p : HostPtr} (hne : addr ≠ 0) (hp : g.ptr addr = some p) :
    ⟨p, u32Bytes result⟩ ∈ written g addr result := by
  rw [written, if_pos hne, copied, hp]
  exact List.mem_cons_self

theorem mem_sync {cmdPtr resultPtr : Word} (hptr : resultPtr ≠ 0) {p : HostPtr} (hp : w.guest.ptr resultPtr = some p) :
    ⟨p, u32Bytes w.mc.lastResult⟩ ∈ (sceMcSync w cmdPtr resultPtr).guest.stores := by
  have hfirst : (w.writeResultI32 cmdPtr w.mc.lastCmd).guest.ptr resultPtr = some p := (ptr_write resultPtr).trans hp
  have hstores : (sceMcSync w cmdPtr resultPtr).guest.stores =
      (w.writeResultI32 cmdPtr w.mc.lastCmd).guest.stores ++ [⟨p, u32Bytes w.mc.lastResult⟩] := by
    refine stores_write.trans ?_
    rw [written, if_pos hptr, copied, hfirst]
    rfl
  rw [hstores]
  exact List.mem_append_right _ List.mem_cons_self

theorem Same.agree (cmd : Word) {rpc stub : McWorld σ F} (hsame : Same s.rpcGuest s.stubGuest r r')
    (hrpc : rpc = if s.request.replies s.recvSize then
      (McWorld.finish cmd r).2.writeResultI32 s.recvBufAddr r.1 else (McWorld.finish cmd r).2)
    (hstub : stub = (McWorld.finish cmd r').2) : Agree s rpc stub := by
  obtain ⟨l, hl, hl'⟩ := hsame.stores
  have hcard : McWorld.card rpc = McWorld.card (McWorld.finish cmd r).2 := by
    rw [hrpc]
    split <;> rfl
  have hresult : rpc.mc.lastResult = r.1 := congrArg (fun c => c.mc.lastResult) hcard
  have hsub : stub.mc.lastResult = r.1 := by
    rw [hstub]
    exact hsame.result.symm
  subst hstub
  refine ⟨?_, ⟨[], l, if s.request.replies s.recvSize then written s.rpcGuest s.recvBufAddr r.1 else [], ?_, hl', ?_,
    ?_⟩, ?_⟩
  · rw [hcard, McWorld.card, McWorld.card, McWorld.finish, McWorld.finish]
    dsimp only [McWorld.setMcCommandResultLocked]
    rw [hsame.mc, hsame.host, hsame.result]
  · rw [hrpc, List.nil_append]
    by_cases hreplies : s.request.replies s.recvSize = true
    · rw [if_pos hreplies, if_pos hreplies]
      refine stores_write.trans ?_
      have hguest : (McWorld.finish cmd r).2.guest = r.2.guest := rfl
      rw [hguest, hl, written_congr Iff.rfl (hsame.ptr _), List.append_assoc]
    · rw [if_neg hreplies, if_neg hreplies, List.append_nil]
      exact hl
  · intro store hstore
    rw [List.nil_append] at hstore
    split at hstore
    · exact ptr_of_mem_written hstore
    · exact absurd hstore List.not_mem_nil
  · intro hreplies hrecv p hp
    rw [List.nil_append, if_pos hreplies, hresult]
    exact mem_written hrecv hp
  · intro hptr p hp
    rw [hresult, ← hsub]
    exact mem_sync hptr ((hsame.ptr' _).trans hp)

theorem ptr_mapped (hmapped : g'.scratchpadMapped = g.scratchpadMapped) (a : Word) : g'.ptr a = g.ptr a := by
  rw [Guest.ptr, Guest.ptr, hmapped]

/-- The copies of the three fields of the information. -/
def fields (g : Guest) (p q r : Word) (info : CardInfo) : List Store :=
  written g p info.cardType ++ written g q info.freeBlocks ++ written g r info.format

theorem stores_fields (p q r : Word) (info : CardInfo) :
    (((w.writeResultI32 p info.cardType).writeResultI32 q info.freeBlocks).writeResultI32 r info.format).guest.stores =
      w.guest.stores ++ fields w.guest p q r info := by
  have hsecond : ∀ a v, written (w.writeResultI32 p info.cardType).guest a v = written w.guest a v := fun a v =>
    written_congr Iff.rfl (ptr_write a)
  have hthird : ∀ a v, written ((w.writeResultI32 p info.cardType).writeResultI32 q info.freeBlocks).guest a v =
      written w.guest a v := fun a v => written_congr Iff.rfl ((ptr_write a).trans (ptr_write a))
  rw [stores_write, stores_write, stores_write, hsecond, hthird, fields]
  simp only [List.append_assoc]

/-- The same fields, behind one another. -/
def triple (info : CardInfo) : List Byte := u32Bytes info.cardType ++ u32Bytes info.freeBlocks ++ u32Bytes info.format

theorem infoReply (w : McWorld σ F) (recvBufAddr recvSize result : Word) :
    ∃ reply w', (if 4 ≤ recvSize then w.writeResultI32 recvBufAddr result else w) = w' ∧ w'.mc = w.mc ∧
      w'.host = w.host ∧ (∀ a, w'.guest.ptr a = w.guest.ptr a) ∧ w'.guest.stores = w.guest.stores ++ reply ∧
      (∀ store ∈ reply, w.guest.ptr recvBufAddr = some store.ptr) ∧
      (4 ≤ recvSize → recvBufAddr ≠ 0 → ∀ p, w.guest.ptr recvBufAddr = some p → ⟨p, u32Bytes result⟩ ∈ reply) := by
  by_cases hsize : 4 ≤ recvSize
  · exact ⟨written w.guest recvBufAddr result, _, if_pos hsize, rfl, rfl, ptr_write, stores_write,
      fun store h => ptr_of_mem_written h, fun _ hne p hp => mem_written hne hp⟩
  · exact ⟨[], _, if_neg hsize, rfl, rfl, fun _ => rfl, (List.append_nil _).symm,
      fun store h => absurd h List.not_mem_nil, fun h => absurd h hsize⟩

/-- The information goes to the same three places; the server's reply is in front of it, and without a block also
what it puts behind the result. -/
theorem agree_getInfo {block : Word} (hs : s.request = .getInfo port slot block) (hargs : s.SameArguments)
    (hplain : Unsegmented s.rpcGuest block [0x00, 0x04, 0x90]) : Agree s (s.rpc e c) (s.stub e c) := by
  obtain ⟨hpacked, hloaded, hmapped⟩ := hargs
  rw [hs] at hpacked hloaded
  obtain ⟨hport, hslot, hblock⟩ := hpacked
  obtain ⟨hport', hslot', htype, hfree, hformat⟩ := hloaded
  have hptr : ∀ a, s.stubGuest.ptr a = s.rpcGuest.ptr a := ptr_mapped hmapped
  obtain ⟨hzero, hplace⟩ := hplain 0x00 List.mem_cons_self
  obtain ⟨hzero4, hplace4⟩ := hplain 0x04 (List.mem_cons_of_mem _ List.mem_cons_self)
  obtain ⟨hzero9, hplace9⟩ := hplain 0x90 (List.mem_cons_of_mem _ (List.mem_cons_of_mem _ List.mem_cons_self))
  have hadd : ∀ x : Word, x + 0x00 = x := fun x => BitVec.add_zero x
  rw [hadd, hadd] at hzero hplace
  obtain ⟨info, hinfo⟩ : ∃ info, infoBody c.mc port slot = info := ⟨_, rfl⟩
  obtain ⟨reply, w', hw', hmc, hhost, hptr', hstores, hreplyPtr, hreply⟩ := infoReply
    ((s.rpcWorld c).setMcCommandResultLocked 0x01 info.result) s.recvBufAddr s.recvSize info.result
  have hrpc : s.rpc e c =
      if block &&& 0x1FFFFFFF ≠ 0 then
        ((w'.writeResultI32 (block &&& 0x1FFFFFFF) info.cardType).writeResultI32 ((block &&& 0x1FFFFFFF) + 0x04)
          info.freeBlocks).writeResultI32 ((block &&& 0x1FFFFFFF) + 0x90) info.format
      else if 12 ≤ s.recvSize then { w' with guest := w'.guest.copyAt s.recvBufAddr (triple info) } else w' := by
    rw [Step.rpc, hs, ← hw', ← hinfo, ← hport, ← hslot, ← hblock]
    rfl
  have hstub : s.stub e c =
      ((((s.stubWorld c).setMcCommandResultLocked 0x01 info.result).writeResultI32 s.args.a2 info.cardType).writeResultI32
        s.args.a3 info.freeBlocks).writeResultI32 (readStackU32 s.stubGuest s.args 16) info.format := by
    rw [Step.stub, hs, ← hinfo, ← hport', ← hslot']
    rfl
  have hstubStores : (s.stub e c).guest.stores = s.stubGuest.stores ++
      fields s.stubGuest s.args.a2 s.args.a3 (readStackU32 s.stubGuest s.args 16) info := by
    rw [hstub, stores_fields]
    rfl
  have hstubPtr : ∀ a, (s.stub e c).guest.ptr a = s.stubGuest.ptr a := fun a => by
    rw [hstub]
    exact (ptr_write a).trans ((ptr_write a).trans (ptr_write a))
  have hstubMc : (s.stub e c).mc = w'.mc := by
    rw [hstub, hmc]
    rfl
  have hstubHost : (s.stub e c).host = w'.host := by
    rw [hstub, hhost]
    rfl
  have hresult : w'.mc.lastResult = info.result := by
    rw [hmc]
    rfl
  have hsync : s.resultPtr ≠ 0 → ∀ p, s.stubGuest.ptr s.resultPtr = some p →
      ⟨p, u32Bytes w'.mc.lastResult⟩ ∈ (sceMcSync (s.stub e c) s.cmdPtr s.resultPtr).guest.stores := by
    intro hne p hp
    rw [← hstubMc]
    exact mem_sync hne ((hstubPtr _).trans hp)
  have hreplies : s.request.replies s.recvSize = decide (4 ≤ s.recvSize) := by
    rw [hs]
    rfl
  by_cases hnone : block = 0
  · -- no block: nothing for the direct call to write
    rw [if_neg (not_not.2 (hzero.2 hnone))] at hrpc
    have hdata : fields s.stubGuest s.args.a2 s.args.a3 (readStackU32 s.stubGuest s.args 16) info = [] := by
      rw [htype, hfree, hformat, hnone, if_pos rfl, if_pos rfl]
      rfl
    rw [hdata] at hstubStores
    obtain ⟨behind, hbehind, hbehindPtr⟩ : ∃ behind, (s.rpc e c).guest.stores = w'.guest.stores ++ behind ∧
        ∀ store ∈ behind, s.rpcGuest.ptr s.recvBufAddr = some store.ptr := by
      by_cases hsize : 12 ≤ s.recvSize
      · refine ⟨copied w'.guest s.recvBufAddr (triple info), ?_, fun store hstore => ?_⟩
        · rw [hrpc, if_pos hsize]
          exact FileReads.stores_copyAt
        · obtain ⟨p, hp, rfl⟩ := List.mem_map.1 hstore
          exact (hptr' _).symm.trans (Option.mem_toList.1 hp)
      · refine ⟨[], ?_, fun store hstore => absurd hstore List.not_mem_nil⟩
        rw [hrpc, if_neg hsize, List.append_nil]
    have hcard : McWorld.card (s.rpc e c) = ⟨w'.mc, w'.host⟩ := by
      rw [hrpc]
      split <;> rfl
    have hlast : (s.rpc e c).mc.lastResult = w'.mc.lastResult := congrArg (fun c => c.mc.lastResult) hcard
    refine ⟨?_, ⟨reply, [], behind, ?_, hstubStores, ?_, ?_⟩, ?_⟩
    · rw [hcard, McWorld.card, hstubMc, hstubHost]
    · rw [hbehind, hstores, List.append_nil, ← List.append_assoc]
      rfl
    · intro store hstore
      rcases List.mem_append.1 hstore with hstore | hstore
      · exact hreplyPtr store hstore
      · exact hbehindPtr store hstore
    · intro hr hne p hp
      rw [hlast, hresult]
      exact List.mem_append_left _ (hreply (of_decide_eq_true (hreplies ▸ hr)) hne p hp)
    · rw [hlast]
      exact hsync
  · rw [if_pos (mt hzero.1 hnone)] at hrpc
    have hdata : fields s.stubGuest s.args.a2 s.args.a3 (readStackU32 s.stubGuest s.args 16) info =
        fields w'.guest (block &&& 0x1FFFFFFF) ((block &&& 0x1FFFFFFF) + 0x04) ((block &&& 0x1FFFFFFF) + 0x90) info := by
      have hstrip : ∀ a, w'.guest.ptr a = s.rpcGuest.ptr a := hptr'
      rw [htype, hfree, hformat, if_neg hnone, if_neg hnone, fields, fields,
        written_congr hzero.symm (((hptr _).trans hplace.symm).trans (hstrip _).symm),
        written_congr hzero4.symm (((hptr _).trans hplace4.symm).trans (hstrip _).symm),
        written_congr hzero9.symm (((hptr _).trans hplace9.symm).trans (hstrip _).symm)]
    have hcard : McWorld.card (s.rpc e c) = ⟨w'.mc, w'.host⟩ := by
      rw [hrpc]
      rfl
    have hlast : (s.rpc e c).mc.lastResult = w'.mc.lastResult := congrArg (fun c => c.mc.lastResult) hcard
    refine ⟨?_, ⟨reply, _, [], ?_, hstubStores, ?_, ?_⟩, ?_⟩
    · rw [hcard, McWorld.card, hstubMc, hstubHost]
    · rw [hrpc, stores_fields, hstores, hdata, List.append_nil, ← List.append_assoc]
      rfl
    · rw [List.append_nil]
      exact hreplyPtr
    · intro hr hne p hp
      rw [hlast, hresult, List.append_nil]
      exact hreply (of_decide_eq_true (hreplies ▸ hr)) hne p hp
    · rw [hlast]
      exact hsync

theorem positive_eq {n : Word} (hn : 0 ≤ n.toInt) : positive n = n.toNat := by
  rw [positive]
  split
  · rfl
  next hnot =>
    have hzero : n.toInt = 0 := by omega
    obtain rfl : n = 0 := BitVec.eq_of_toInt_eq hzero
    rfl

theorem dirEntries_eq {path : Str} (hcase : CaseBlind (e.host.directoryIterator h (dirQuery e h mc.ports port path).1)) :
    dirEntries e (·.filename) h mc.ports port path =
      dirEntries e (fun entry => toLowerAscii entry.filename) h mc.ports port path := by
  simp only [dirEntries, sort_eq _ hcase]

/-- **One step agrees**, if both get the same arguments and these are plain. -/
theorem agree_step (hargs : s.SameArguments) (hplain : Plain e s c) : Agree s (s.rpc e c) (s.stub e c) := by
  obtain ⟨hpacked, hloaded, hmapped⟩ := hargs
  have hptr : ∀ a, s.stubGuest.ptr a = s.rpcGuest.ptr a := ptr_mapped hmapped
  rcases hs : s.request with ⟨port, slot, path, flags⟩ | fd | ⟨fd, dst, size⟩ | ⟨fd, size, bytes⟩ | ⟨port, slot, block⟩ |
    ⟨port, slot, path, maxEntries, table⟩
  · rw [hs] at hpacked hloaded
    obtain ⟨hport, hslot, hpath, hflags⟩ := hpacked
    obtain ⟨hport', hslot', hpath', hflags'⟩ := hloaded
    have hsame : Same s.rpcGuest s.stubGuest (openBody e (s.rpcWorld c) port slot path flags)
        (openBody e (s.stubWorld c) port slot path flags) := same_open path flags
    refine hsame.agree 0x02 ?_ ?_
    · rw [Step.rpc, hs, ← hport, ← hslot, ← hpath, ← hflags]
      rfl
    · rw [Step.stub, hs, ← hport', ← hslot', ← hpath', ← hflags']
      rfl
  · rw [hs] at hpacked hloaded
    have hsame : Same s.rpcGuest s.stubGuest (closeBody e (s.rpcWorld c) fd) (closeBody e (s.stubWorld c) fd) :=
      same_close
    refine hsame.agree 0x03 ?_ ?_
    · rw [Step.rpc, hs, ← show _ = fd from hpacked]
      rfl
    · rw [Step.stub, hs, ← show _ = fd from hloaded]
      rfl
  · rw [hs] at hpacked hloaded
    obtain ⟨hfd, hdst, hsize⟩ := hpacked
    obtain ⟨hfd', hdst', hsize'⟩ := hloaded
    have hpositive : positive size = size.toNat := positive_eq (by simpa only [Plain, hs] using hplain)
    have hsame : Same s.rpcGuest s.stubGuest (readBody e (s.rpcWorld c) fd size.toNat (s.rpcGuest.ptr dst))
        (readBody e (s.stubWorld c) fd size.toNat (s.rpcGuest.ptr dst)) := same_read _ _
    refine hsame.agree 0x05 ?_ ?_
    · rw [Step.rpc, hs, ← hfd, ← hdst, ← hsize]
      rfl
    · rw [← hpositive, ← hptr, Step.stub, hs, ← hfd', ← hdst', ← hsize']
      rfl
  · rw [hs] at hpacked hloaded
    obtain ⟨hfd, hsize, hbytes⟩ := hpacked
    obtain ⟨hfd', hsize', hbytes'⟩ := hloaded
    have hpositive : positive size = size.toNat := positive_eq (by simpa only [Plain, hs] using hplain)
    have hsame : Same s.rpcGuest s.stubGuest
        (writeBody e (s.rpcWorld c) fd size.toNat (s.rpcGuest.ptr (s.sendBufAddr + 0x08)))
        (writeBody e (s.stubWorld c) fd size.toNat (s.stubGuest.ptr s.args.a1)) :=
      same_write _ (hbytes.trans hbytes'.symm)
    refine hsame.agree 0x06 ?_ ?_
    · rw [Step.rpc, hs, ← hfd, ← hsize]
      rfl
    · rw [← hpositive, Step.stub, hs, ← hfd', ← hsize']
      rfl
  · exact agree_getInfo hs ⟨hs ▸ hpacked, hs ▸ hloaded, hmapped⟩ (by simpa only [Plain, hs] using hplain)
  · rw [hs] at hpacked hloaded
    obtain ⟨hport, hslot, hpath, hmax, htable⟩ := hpacked
    obtain ⟨hport', hslot', hpath', hmax', htable'⟩ := hloaded
    simp only [Plain, hs] at hplain
    obtain ⟨hcount, hsegment, hcase⟩ := hplain
    obtain ⟨hzero, hplace⟩ := hsegment 0x00 List.mem_cons_self
    have hadd : ∀ x : Word, x + 0x00 = x := fun x => BitVec.add_zero x
    rw [hadd, hadd] at hzero hplace
    have hpositive : positive maxEntries = maxEntries.toNat := positive_eq hcount
    have hsame : Same s.rpcGuest s.stubGuest
        (getDirBody e (s.rpcWorld c) (·.filename) port slot path maxEntries.toNat (table &&& 0x1FFFFFFF))
        (getDirBody e (s.stubWorld c) (fun entry => toLowerAscii entry.filename) port slot path maxEntries.toNat table) :=
      same_getDir _ (dirEntries_eq hcase) hzero (hplace.trans (hptr table).symm)
    refine hsame.agree 0x0D ?_ ?_
    · have hreplies : s.request.replies s.recvSize = decide (4 ≤ s.recvSize) := by
        rw [hs]
        rfl
      rw [Step.rpc, hreplies, hs, ← hport, ← hslot, ← hpath, ← hmax, ← htable]
      exact if_congr decide_eq_true_iff.symm rfl rfl
    · rw [← hpositive, Step.stub, hs, ← hport', ← hslot', ← hpath', ← hmax', ← htable']
      rfl

/-- **The two front ends do the same in every run** whose steps get the same arguments and are plain. -/
theorem agreeAll_of_meets (e : Env σ F) (steps : List Step) (c : Card σ F) (h : Meets e steps c) :
    AgreeAll e steps c c := by
  induction steps generalizing c with
  | nil => rfl
  | cons s rest ih =>
    obtain ⟨hargs, hplain, hrest⟩ := h
    have hstep : Agree s (s.rpc e c) (s.stub e c) := agree_step hargs hplain
    refine ⟨hstep, ?_⟩
    rw [hstep.card]
    exact ih _ hrest

/-! ### A count of `2 ^ 31` -/

def notBehind (key : DirectoryEntry → Str) (a b : DirectoryEntry) : Bool := !strLess (key b) (key a)

/-- A host with one file, which always has one more byte. -/
def oneByteHost : Host Unit Unit where
  pathExists _ _ := false
  isDirectory _ _ := false
  createDirectories s _ := s
  directoryIterator _ _ := []
  fopen s _ _ := (none, s)
  fclose s _ := (true, s)
  fread s _ n := (List.replicate (min n 1) 7, s)
  fwrite s _ bytes := (bytes.length, s)
  fflush s _ := s
  ferror _ _ := false
  clearerr s _ := s
  now _ := 0
  localtime _ := none
  sort key l := l.mergeSort (notBehind key)
  length_fread _ _ n := by
    rw [List.length_replicate]
    exact Nat.min_le_left n 1
  sort_perm key l := List.mergeSort_perm l _
  sort_pairwise key l := by
    have htrans : ∀ a b c, notBehind key a b = true → notBehind key b c = true → notBehind key a c = true := by
      intro a b c hab hbc
      rw [notBehind, Bool.not_eq_true'] at hab hbc ⊢
      by_contra hnot
      rw [Bool.not_eq_false] at hnot
      by_cases hcb : strLess (key b) (key c) = true
      · rw [strLess_trans hcb hnot] at hab
        cases hab
      · rw [eq_of_not_strLess (Bool.eq_false_iff.2 hcb) hbc, hnot] at hab
        cases hab
    have htotal : ∀ a b, (notBehind key a b || notBehind key b a) = true := by
      intro a b
      rw [Bool.or_eq_true, notBehind, notBehind, Bool.not_eq_true', Bool.not_eq_true']
      by_cases hab : strLess (key a) (key b) = true
      · exact .inl (strLess_asymm hab)
      · exact .inr (Bool.eq_false_iff.2 hab)
    refine (List.pairwise_mergeSort htrans htotal l).imp fun hab => ?_
    rw [notBehind, Bool.not_eq_true'] at hab
    exact hab

def oneByteEnv : Env Unit Unit := ⟨oneByteHost, .posix, fun _ => ⟨[], true, []⟩, false⟩

/-- Descriptor 1 is open. -/
def oneByteCard : Card Unit Unit :=
  ⟨⟨2, 0, 0, [(1, ⟨some (), 0, ⟨[], true, []⟩⟩)], fun _ => ⟨['/'], true⟩⟩, ()⟩

/-- A read of descriptor 1, of a size with two bytes that are not zero. -/
def readStep (low high : Byte) : Step where
  request := .readFile 1 0x200 (BitVec.ofNat 32 (low.toNat + high.toNat * 2 ^ 24))
  rpcGuest := ⟨⟨fun p => if p = 0x100 then 1 else if p = 0x104 then low else if p = 0x107 then high else 0, fun _ => 0⟩,
    true, []⟩
  sendBufAddr := 0x100
  recvBufAddr := 0x200
  recvSize := 4
  stubGuest := ⟨⟨fun _ => 0, fun _ => 0⟩, true, []⟩
  args := ⟨1, 0x200, BitVec.ofNat 32 (low.toNat + high.toNat * 2 ^ 24), 0, 0⟩
  cmdPtr := 0
  resultPtr := 0

theorem agreeAll_of_meets_read : AgreeAll oneByteEnv [readStep 1 0] oneByteCard oneByteCard :=
  agreeAll_of_meets _ _ _ ⟨⟨⟨by decide, rfl, by decide⟩, ⟨rfl, rfl, rfl⟩, rfl⟩, show (0 : ℤ) ≤ BitVec.toInt 1 by decide, trivial⟩

theorem huge_read_disagrees :
    ¬∀ (steps : List Step) (c : Card Unit Unit), (∀ s ∈ steps, s.SameArguments) → AgreeAll oneByteEnv steps c c := by
  intro h
  have hargs : ∀ s ∈ [readStep 0 0x80], s.SameArguments := by
    intro s hs
    obtain rfl := List.mem_singleton.1 hs
    exact ⟨⟨by decide, rfl, by decide⟩, ⟨rfl, rfl, rfl⟩, rfl⟩
  have hcard := (h [readStep 0 0x80] oneByteCard hargs).1.card
  have hrpc : ((readStep 0 0x80).rpc oneByteEnv oneByteCard).mc.lastResult = 1 := by decide
  have hstub : ((readStep 0 0x80).stub oneByteEnv oneByteCard).mc.lastResult = 0 := by decide
  have hlast : ((readStep 0 0x80).rpc oneByteEnv oneByteCard).mc.lastResult =
      ((readStep 0 0x80).stub oneByteEnv oneByteCard).mc.lastResult := congrArg (fun c => c.mc.lastResult) hcard
  rw [hrpc, hstub] at hlast
  exact absurd hlast (by decide)

end Ps2Recomp.McStubs
