import Ps2Recomp.Proof.Memory
import Ps2Recomp.Spec.McServ

/-!
# Transfers stay inside where they have room

Each call copies to a few guest addresses, so its copies are a few lists of at most one copy (`copied`), and they
are inside if and only if there is room at each address (`copied_inside_iff`).
-/

namespace Ps2Recomp.FileReads

open Memory VSync HostFiles McServ
open SifRpc (HostPtr)

variable {σ F : Type} {fs : Files σ F} {e : Env σ F} {w : McWorld σ F} {g : Guest} {p : HostPtr} {addr : Word}
variable {bytes : List Byte} {n : ℕ}

/-! ### Copies -/

theorem resolve_lt (a : Word) : (ps2ResolveGuestPointer a).2.toNat < arraySize (ps2ResolveGuestPointer a).1 := by
  cases hs : isScratchpad a with
  | true =>
    rw [ps2ResolveGuestPointer, if_pos hs]
    exact scratchpadOffset_lt hs
  | false =>
    have hsize : ramSize.toNat = 2 ^ 25 := rfl
    have hram : ∀ phys : Word, (if ramSize ≤ phys then phys &&& ramMask else phys).toNat < ramSize.toNat := by
      intro phys
      split
      · rw [and_ramMask, hsize]
        exact Nat.mod_lt _ (by norm_num)
      next hnot => exact BitVec.lt_def.1 (BitVec.not_le.1 hnot)
    rw [ps2ResolveGuestPointer, hs, if_neg Bool.false_ne_true]
    exact hram _

theorem ptr_lt (h : g.ptr addr = some p) : p.offset < arraySize p.scratch := by
  rw [Guest.ptr, SifRpc.getMemPtr] at h
  dsimp only at h
  split at h
  · cases h
  · obtain rfl := Option.some.inj h
    exact resolve_lt addr

theorem room_zero : Room g addr 0 := fun _ h => (ptr_lt h).le

/-- The copy to a guest address, if there is one. -/
def copied (g : Guest) (addr : Word) (bytes : List Byte) : List Store := (g.ptr addr).toList.map fun p => ⟨p, bytes⟩

theorem copied_inside_iff : (∀ store ∈ copied g addr bytes, store.Inside) ↔ Room g addr bytes.length := by
  simp only [copied, List.mem_map, Option.mem_toList]
  constructor
  · exact fun h p hp => h _ ⟨p, hp, rfl⟩
  · rintro h store ⟨p, hp, rfl⟩
    exact h p hp

theorem stores_copyAt : (g.copyAt addr bytes).stores = g.stores ++ copied g addr bytes := by
  rw [Guest.copyAt, copied]
  cases hptr : g.ptr addr with
  | none => exact (List.append_nil _).symm
  | some p => rfl

@[simp] theorem ptr_copyAt (a : Word) : (g.copyAt addr bytes).ptr a = g.ptr a := by
  rw [Guest.copyAt]
  split <;> rfl

theorem length_toBytes (entry : SceMcTblGetDir) : entry.toBytes.length = 64 := by
  simp [SceMcTblGetDir.toBytes, SceMcStDateTime.toBytes, u32Bytes]

theorem length_flatMap_toBytes (l : List SceMcTblGetDir) : (l.flatMap (·.toBytes)).length = 64 * l.length := by
  induction l with
  | nil => rfl
  | cons entry l ih =>
    rw [List.flatMap_cons, List.length_append, ih, length_toBytes, List.length_cons]
    omega

theorem drop_copyTo : (g.copyTo p bytes).stores.drop g.stores.length = [⟨p, bytes⟩] := List.drop_left

theorem arraySize_le (scratch : Bool) : arraySize scratch ≤ 2 ^ 25 := by cases scratch <;> decide

theorem length_le_of_inside (h : (⟨p, bytes⟩ : Store).Inside) : bytes.length ≤ 2 ^ 25 :=
  le_trans (Nat.le_add_left _ _) (le_trans h (arraySize_le _))

theorem ofNat_count (h : n ≤ 2 ^ 25) : (BitVec.ofNat 32 n).toNat = n ∧ 0 ≤ (BitVec.ofNat 32 n).toInt := by
  have hnat : (BitVec.ofNat 32 n).toNat = n := by
    rw [BitVec.toNat_ofNat, Nat.mod_eq_of_lt (by omega)]
  refine ⟨hnat, ?_⟩
  rw [BitVec.toInt_eq_toNat_cond, hnat]
  split <;> omega

section

variable {report : Option Report}

/-- **One transfer**: it is inside if and only if it has room, and then the report of its length is true. -/
theorem transfer_iff (hptr : g.ptr addr = some p)
    (hreport : bytes.length ≤ 2 ^ 25 → ∀ r, report = some r → r = ⟨addr, bytes.length⟩) :
    ((∀ store ∈ [(⟨p, bytes⟩ : Store)], store.Inside) ∧ ∀ r, report = some r → r.Holds g [⟨p, bytes⟩]) ↔
      Room g addr bytes.length := by
  constructor
  · rintro ⟨hin, -⟩ q hq
    obtain rfl := Option.some.inj (hptr.symm.trans hq)
    exact hin _ List.mem_cons_self
  · intro hroom
    have hin : (⟨p, bytes⟩ : Store).Inside := hroom p hptr
    refine ⟨fun store hstore => ?_, fun r hr => ?_⟩
    · obtain rfl := List.mem_singleton.1 hstore
      exact hin
    · rw [hreport (length_le_of_inside hin) r hr]
      exact .inr ⟨_, List.mem_cons_self, hptr, rfl⟩

/-- No transfer, and nothing reported. -/
theorem nothing_iff {P : Prop} (hreport : ∀ r, report = some r → r.count = 0) (hP : P) :
    ((∀ store ∈ ([] : List Store), store.Inside) ∧ ∀ r, report = some r → r.Holds g []) ↔ P :=
  iff_of_true ⟨fun _ h => absurd h List.not_mem_nil, fun r hr => .inl (hreport r hr)⟩ hP

end

theorem signed_count (h : n ≤ 2 ^ 25) {r : Report} (hr : signed addr (BitVec.ofNat 32 n) 1 = some r) :
    r = ⟨addr, n⟩ := by
  obtain ⟨hnat, hint⟩ := ofNat_count h
  rw [signed, if_pos hint, hnat, one_mul] at hr
  exact (Option.some.inj hr).symm

/-! ### The calls -/

theorem fioRead_iff (ps2Fd bufAddr size : Word) :
    ReadCall.Exact fs w (.fioRead ps2Fd bufAddr size) ↔ ReadCall.Fits fs w (.fioRead ps2Fd bufAddr size) := by
  simp only [ReadCall.Exact, ReadCall.Fits, ReadCall.run, fioRead, storesSince]
  rcases hptr : w.guest.ptr bufAddr with _ | p
  · have hroom : ∀ n, Room w.guest bufAddr n := fun n p hp => by rw [hptr] at hp; cases hp
    simp only [List.drop_length]
    exact nothing_iff (by rintro r ⟨⟩) fun fp _ _ => hroom _
  rcases hfile : fs.ps2Files ps2Fd with _ | fp
  · simp only [List.drop_length]
    exact nothing_iff (by rintro r ⟨⟩) (by rintro fp ⟨⟩)
  by_cases hsize : size = 0
  · simp only [if_pos hsize, List.drop_length]
    refine nothing_iff (fun r hr => ?_) fun fp _ hne => absurd hsize hne
    obtain rfl := signed_count (Nat.zero_le _) hr
    rfl
  have hfits : (∀ fp', some fp = some fp' → size ≠ 0 →
      Room w.guest bufAddr (fs.env.host.fread w.host fp' size.toNat).1.length) ↔
      Room w.guest bufAddr (fs.env.host.fread w.host fp size.toNat).1.length := by
    refine ⟨fun h => h fp rfl hsize, fun h fp' hfp' _ => ?_⟩
    obtain rfl := Option.some.inj hfp'
    exact h
  rw [hfits]
  simp only [if_neg hsize]
  split
  · rw [drop_copyTo]
    exact transfer_iff hptr (by rintro - r ⟨⟩)
  · rw [drop_copyTo]
    exact transfer_iff hptr fun hle r hr => signed_count hle hr

/-- The read of the server. -/
theorem readBody_spec (fd : Word) (size : ℕ) (dst : Option HostPtr) :
    (∃ file p, w.mc.file fd = some file ∧ size ≠ 0 ∧ dst = some p ∧
      (readBody e w fd size dst).2.guest = w.guest.copyTo p (e.host.fread w.host file size).1 ∧
      ((readBody e w fd size dst).1 = kMcResultDeniedPermit ∨
        (readBody e w fd size dst).1 = BitVec.ofNat 32 (e.host.fread w.host file size).1.length)) ∨
    (size = 0 ∨ w.mc.file fd = none ∨ dst = none) ∧ (readBody e w fd size dst).2.guest = w.guest ∧
      ((readBody e w fd size dst).1 = 0 ∨ (readBody e w fd size dst).1.toInt < 0) := by
  have hnoEntry : kMcResultNoEntry.toInt < 0 := by decide
  have hdenied : kMcResultDeniedPermit.toInt < 0 := by decide
  rw [readBody.eq_def]
  by_cases hsize : size = 0
  · rw [if_pos hsize]
    exact .inr ⟨.inl hsize, rfl, .inl rfl⟩
  rw [if_neg hsize]
  rcases hfile : w.mc.file fd with _ | file
  · exact .inr ⟨.inr (.inl rfl), rfl, .inr hnoEntry⟩
  rcases dst with _ | p
  · exact .inr ⟨.inr (.inr rfl), rfl, .inr hdenied⟩
  refine .inl ⟨file, p, rfl, hsize, rfl, ?_⟩
  dsimp only
  by_cases herror : e.host.ferror (e.host.fread w.host file size).2 file = true
  · rw [if_pos herror]
    exact ⟨rfl, .inl rfl⟩
  · rw [if_neg herror]
    exact ⟨rfl, .inr rfl⟩

theorem mcRead_iff (sendBufAddr recvBufAddr : Word) :
    ReadCall.Exact fs w (.mcRead sendBufAddr recvBufAddr) ↔ ReadCall.Fits fs w (.mcRead sendBufAddr recvBufAddr) := by
  simp only [ReadCall.Exact, ReadCall.Fits, ReadCall.run, storesSince]
  generalize hfd : w.guest.readGuestU32 sendBufAddr = fd
  generalize hsize : w.guest.readGuestU32 (sendBufAddr + 0x04) = size
  have hguest : (rpcRead fs.env w sendBufAddr recvBufAddr).guest =
      (readBody fs.env w fd size.toNat (w.guest.ptr recvBufAddr)).2.guest := by
    rw [← hfd, ← hsize]
    rfl
  have hresult : (rpcRead fs.env w sendBufAddr recvBufAddr).mc.lastResult =
      (readBody fs.env w fd size.toNat (w.guest.ptr recvBufAddr)).1 := by
    rw [← hfd, ← hsize]
    rfl
  rw [hguest, hresult]
  rcases readBody_spec (e := fs.env) fd size.toNat (w.guest.ptr recvBufAddr) with
    ⟨file, p, hfile, hne, hptr, hafter, hres⟩ | ⟨hnone, hafter, hres⟩
  · have hne' : size ≠ 0 := fun h => hne (by rw [h]; rfl)
    have hfits : (∀ file', w.mc.file fd = some file' → size ≠ 0 →
        Room w.guest recvBufAddr (fs.env.host.fread w.host file' size.toNat).1.length) ↔
        Room w.guest recvBufAddr (fs.env.host.fread w.host file size.toNat).1.length := by
      refine ⟨fun h => h file hfile hne', fun h file' hfile' _ => ?_⟩
      obtain rfl := Option.some.inj (hfile.symm.trans hfile')
      exact h
    rw [hfits, hafter, drop_copyTo]
    refine transfer_iff hptr fun hle r hr => ?_
    rcases hres with hres | hres
    · rw [hres] at hr
      cases hr
    · rw [hres] at hr
      exact signed_count hle hr
  · rw [hafter, List.drop_length]
    refine nothing_iff (fun r hr => ?_) fun file hfile hne => ?_
    · rcases hres with hres | hres
      · rw [hres] at hr
        obtain rfl := signed_count (Nat.zero_le _) hr
        rfl
      · rw [signed, if_neg (by omega)] at hr
        cases hr
    · rcases hnone with hnone | hnone | hnone
      · exact absurd (BitVec.eq_of_toNat_eq hnone) hne
      · rw [hnone] at hfile
        cases hfile
      · intro p hp
        rw [hnone] at hp
        cases hp

theorem length_u32Bytes (value : Word) : (u32Bytes value).length = 4 := rfl

theorem forall_mem_ite {c : Prop} [Decidable c] {l : List Store} :
    (∀ store ∈ (if c then l else []), store.Inside) ↔ (c → ∀ store ∈ l, store.Inside) := by
  by_cases hc : c
  · rw [if_pos hc]
    exact ⟨fun h _ => h, fun h => h hc⟩
  · rw [if_neg hc]
    exact ⟨fun _ h => absurd h hc, fun _ store hstore => absurd hstore List.not_mem_nil⟩

theorem mcDefault_iff (rpcNum recvBufAddr recvSize : Word) :
    ReadCall.Exact fs w (.mcDefault rpcNum recvBufAddr recvSize) ↔
      ReadCall.Fits fs w (.mcDefault rpcNum recvBufAddr recvSize) := by
  have hstores : storesSince w (rpcDefault fs.env w rpcNum recvBufAddr recvSize) =
      if recvBufAddr ≠ 0 ∧ 0 < recvSize then
        copied w.guest recvBufAddr
          (if fs.env.bypass && 12 ≤ recvSize then initReply else List.replicate recvSize.toNat 0)
      else [] := by
    rw [storesSince, rpcDefault]
    by_cases hrecv : recvBufAddr = 0
    · rw [if_neg (by simp [hrecv]), if_neg (fun h => h.1 hrecv), if_neg (fun h => h.1 hrecv)]
      exact List.drop_length
    have hcond : (fs.env.bypass && decide (recvBufAddr ≠ 0) && decide (12 ≤ recvSize)) =
        (fs.env.bypass && decide (12 ≤ recvSize)) := by
      rw [decide_eq_true hrecv, Bool.and_true]
    rw [hcond]
    by_cases hbypass : fs.env.bypass && 12 ≤ recvSize
    · have hle : (12 : Word) ≤ recvSize := by
        rw [Bool.and_eq_true, decide_eq_true_iff] at hbypass
        exact hbypass.2
      have hpos : 0 < recvSize := by
        have hle' : 12 ≤ recvSize.toNat := BitVec.le_def.1 hle
        rw [BitVec.lt_def]
        exact lt_of_lt_of_le (by decide) hle'
      rw [if_pos hbypass, if_pos ⟨hrecv, hpos⟩, if_pos hbypass]
      exact (congrArg (List.drop _) stores_copyAt).trans List.drop_left
    · rw [if_neg hbypass, if_neg hbypass]
      by_cases hpos : recvBufAddr ≠ 0 ∧ 0 < recvSize
      · rw [if_pos hpos, if_pos hpos]
        exact (congrArg (List.drop _) stores_copyAt).trans List.drop_left
      · rw [if_neg hpos, if_neg hpos]
        exact List.drop_length
  have hlength : (if fs.env.bypass && 12 ≤ recvSize then initReply else List.replicate recvSize.toNat 0).length =
      if fs.env.bypass && 12 ≤ recvSize then 12 else recvSize.toNat := by
    split
    · rfl
    · exact List.length_replicate
  simp only [ReadCall.Exact, ReadCall.Fits, ReadCall.run]
  rw [hstores, forall_mem_ite, copied_inside_iff, hlength]
  constructor
  · rintro ⟨hin, -⟩ hrecv
    by_cases hpos : 0 < recvSize
    · exact hin ⟨hrecv, hpos⟩
    · obtain rfl : recvSize = 0 := BitVec.not_lt.1 hpos |> BitVec.le_zero_iff.1
      rw [if_neg (by simp)]
      exact room_zero
  · exact fun hroom => ⟨fun h => hroom h.1, by rintro r ⟨⟩⟩

theorem stores_writeU32 {value : Word} :
    (g.writeGuestU32 addr value).stores = g.stores ++ copied g addr (u32Bytes value) := stores_copyAt

theorem stores_writeResultI32 {result : Word} : (g.writeResultI32 addr result).stores =
    g.stores ++ if addr ≠ 0 then copied g addr (u32Bytes result) else [] := by
  rw [Guest.writeResultI32]
  by_cases haddr : addr = 0
  · rw [if_pos haddr, if_neg (not_not.2 haddr), List.append_nil]
  · rw [if_neg haddr, if_pos haddr, stores_writeU32]

section

variable (fs : Files σ F) (w : McWorld σ F)

theorem rpcTable_spec (sendBufAddr : Word) :
    let g := w.guest
    let r := getDirBody fs.env w (·.filename) (g.readGuestU32 sendBufAddr) (g.readGuestU32 (sendBufAddr + 0x04))
      (readGuestPath g (sendBufAddr + 0x14)) (g.readGuestU32 (sendBufAddr + 0x0C)).toNat (tableAddr g sendBufAddr)
    (∃ p bytes, tableAddr g sendBufAddr ≠ 0 ∧ g.ptr (tableAddr g sendBufAddr) = some p ∧
      bytes.length = 64 * entryCount fs w sendBufAddr ∧ r.2.guest = g.copyTo p bytes ∧
      r.1 = BitVec.ofNat 32 (entryCount fs w sendBufAddr)) ∨
    r.2.guest = g ∧ (tableAddr g sendBufAddr = 0 ∨ (r.1 = 0 ∨ r.1.toInt < 0) ∧
      (g.ptr (tableAddr g sendBufAddr) = none ∨ entryCount fs w sendBufAddr = 0)) := by
  have hnoEntry : kMcResultNoEntry.toInt < 0 := by decide
  have hdenied : kMcResultDeniedPermit.toInt < 0 := by decide
  have hnoFormat : kMcResultNoFormat.toInt < 0 := by decide
  dsimp only
  rw [getDirBody, entryCount]
  generalize w.guest.readGuestU32 sendBufAddr = port
  generalize w.guest.readGuestU32 (sendBufAddr + 0x04) = slot
  generalize readGuestPath w.guest (sendBufAddr + 0x14) = path
  generalize (w.guest.readGuestU32 (sendBufAddr + 0x0C)).toNat = maxEntries
  generalize tableAddr w.guest sendBufAddr = table
  by_cases hvalid : GuestPaths.isValidMcPortSlot port.toInt slot.toInt
  swap
  · rw [if_neg hvalid, if_neg (by simp [hvalid])]
    exact .inr ⟨rfl, .inr ⟨.inr hnoEntry, .inr rfl⟩⟩
  by_cases hformatted : (w.mc.ports port.toInt).formatted
  swap
  · rw [if_pos hvalid, if_neg hformatted, if_neg (by simp [hformatted])]
    exact .inr ⟨rfl, .inr ⟨.inr hnoFormat, .inr rfl⟩⟩
  rw [if_pos hvalid, if_pos hformatted, if_pos (by simp [hvalid, hformatted])]
  dsimp only
  rcases dirEntries fs.env (·.filename) (fs.env.host.createDirectories w.host (fs.env.root port.toInt)) w.mc.ports port
    path with _ | entries
  · exact .inr ⟨rfl, .inr ⟨.inr hnoEntry, .inr rfl⟩⟩
  dsimp only
  by_cases hnone : min entries.length maxEntries = 0 ∨ table = 0
  · rw [if_pos hnone]
    refine .inr ⟨rfl, hnone.symm.imp_right fun hzero => ?_⟩
    rw [hzero]
    exact ⟨.inl rfl, .inr rfl⟩
  rw [if_neg hnone]
  rw [not_or] at hnone
  rcases hptr : w.guest.ptr table with _ | p
  · exact .inr ⟨rfl, .inr ⟨.inr hdenied, .inl rfl⟩⟩
  · refine .inl ⟨p, _, hnone.2, rfl, ?_, rfl, rfl⟩
    rw [length_flatMap_toBytes, List.length_take, Nat.min_eq_left (Nat.min_le_left _ _)]

theorem rpcGetDir_stores (sendBufAddr recvBufAddr recvSize : Word) :
    let g := w.guest
    let r := getDirBody fs.env w (·.filename) (g.readGuestU32 sendBufAddr) (g.readGuestU32 (sendBufAddr + 0x04))
      (readGuestPath g (sendBufAddr + 0x14)) (g.readGuestU32 (sendBufAddr + 0x0C)).toNat (tableAddr g sendBufAddr)
    (rpcGetDir fs.env w sendBufAddr recvBufAddr recvSize).guest.stores = r.2.guest.stores ++
      (if recvBufAddr ≠ 0 ∧ 4 ≤ recvSize then copied r.2.guest recvBufAddr (u32Bytes r.1) else []) ∧
    (rpcGetDir fs.env w sendBufAddr recvBufAddr recvSize).mc.lastResult = r.1 := by
  dsimp only
  rw [rpcGetDir]
  dsimp only
  by_cases hsize : 4 ≤ recvSize
  · rw [if_pos hsize]
    refine ⟨stores_writeResultI32.trans ?_, rfl⟩
    congr 1
    exact if_congr (and_iff_left hsize).symm rfl rfl
  · rw [if_neg hsize, if_neg fun h => hsize h.2, List.append_nil]
    exact ⟨rfl, rfl⟩

end

theorem mcGetDir_iff (sendBufAddr recvBufAddr recvSize : Word) :
    ReadCall.Exact fs w (.mcGetDir sendBufAddr recvBufAddr recvSize) ↔
      ReadCall.Fits fs w (.mcGetDir sendBufAddr recvBufAddr recvSize) := by
  simp only [ReadCall.Exact, ReadCall.Fits, ReadCall.run, storesSince]
  obtain ⟨hstores, hresult⟩ := rpcGetDir_stores fs w sendBufAddr recvBufAddr recvSize
  rw [hstores, hresult]
  have hspec := rpcTable_spec fs w sendBufAddr
  revert hspec
  dsimp only
  generalize getDirBody fs.env w _ _ _ _ _ _ = r
  generalize entryCount fs w sendBufAddr = n
  generalize tableAddr w.guest sendBufAddr = table
  have hreply : (∀ store ∈ (if recvBufAddr ≠ 0 ∧ 4 ≤ recvSize then copied w.guest recvBufAddr (u32Bytes r.1) else []),
      store.Inside) ↔ (recvBufAddr ≠ 0 → 4 ≤ recvSize → Room w.guest recvBufAddr 4) := by
    rw [forall_mem_ite, copied_inside_iff, length_u32Bytes, and_imp]
  rintro (⟨p, bytes, htable, hptr, hlength, hguest, hres⟩ | ⟨hguest, hnone⟩)
  · have hdrop : ∀ l, ((w.guest.copyTo p bytes).stores ++ l).drop w.guest.stores.length = ⟨p, bytes⟩ :: l := by
      intro l
      rw [Guest.copyTo, List.append_assoc]
      exact List.drop_left
    have hcopied : ∀ bytes', copied (w.guest.copyTo p bytes) recvBufAddr bytes' = copied w.guest recvBufAddr bytes' :=
      fun _ => rfl
    rw [hguest, hdrop, hcopied, List.forall_mem_cons, hreply, if_neg htable, hres]
    constructor
    · rintro ⟨⟨hin, hrecv⟩, -⟩
      refine ⟨fun _ q hq => ?_, hrecv⟩
      obtain rfl := Option.some.inj (hptr.symm.trans hq)
      rw [← hlength]
      exact hin
    · rintro ⟨hroom, hrecv⟩
      have hin : (⟨p, bytes⟩ : Store).Inside := by
        rw [Store.Inside, hlength]
        exact hroom htable p hptr
      have hle := length_le_of_inside hin
      refine ⟨⟨hin, hrecv⟩, fun rep hrep => ?_⟩
      obtain ⟨hnat, hint⟩ := ofNat_count (n := n) (by omega)
      rw [signed, if_pos hint, hnat] at hrep
      obtain rfl := Option.some.inj hrep
      exact .inr ⟨_, List.mem_cons_self, hptr, hlength⟩
  · rw [hguest, List.drop_left, hreply]
    constructor
    · rintro ⟨hrecv, -⟩
      refine ⟨fun htable => ?_, hrecv⟩
      rcases hnone with hnone | ⟨-, hnone | rfl⟩
      · exact absurd hnone htable
      · intro q hq
        rw [hnone] at hq
        cases hq
      · exact room_zero
    · rintro ⟨-, hrecv⟩
      refine ⟨hrecv, fun rep hrep => ?_⟩
      rcases hnone with hnone | ⟨hres, -⟩
      · rw [if_pos hnone] at hrep
        cases hrep
      · split at hrep
        · cases hrep
        · rcases hres with hres | hres
          · rw [hres] at hrep
            obtain rfl := Option.some.inj hrep
            exact .inl rfl
          · rw [signed, if_neg (by omega)] at hrep
            cases hrep

theorem stores_clearReply (recvBufAddr recvSize : Word) : (clearReply g recvBufAddr recvSize).stores = g.stores ++
    if recvBufAddr ≠ 0 ∧ 0 < recvSize then
      copied g recvBufAddr (List.replicate (min recvSize.toNat 0x40) 0) else [] := by
  rw [clearReply]
  by_cases hrecv : recvBufAddr ≠ 0 ∧ 0 < recvSize
  · rw [if_pos hrecv, if_pos hrecv, stores_copyAt]
  · rw [if_neg hrecv, if_neg hrecv, List.append_nil]

@[simp] theorem ptr_clearReply (recvBufAddr recvSize a : Word) :
    (clearReply g recvBufAddr recvSize).ptr a = g.ptr a := by
  rw [clearReply]
  split
  · exact ptr_copyAt a
  · rfl

theorem copied_congr {g' : Guest} (h : ∀ a, g'.ptr a = g.ptr a) : copied g' addr bytes = copied g addr bytes := by
  rw [copied, copied, h]

theorem stores_writeResult (recvBufAddr recvSize status value : Word) :
    (writeResult g recvBufAddr recvSize status value).stores = g.stores ++
      ((if recvBufAddr ≠ 0 ∧ 4 ≤ recvSize then copied g recvBufAddr (u32Bytes status) else []) ++
        if recvBufAddr ≠ 0 ∧ 8 ≤ recvSize then copied g (recvBufAddr + 4) (u32Bytes value) else []) := by
  have hfirst : ∀ g' : Guest, (∀ a, g'.ptr a = g.ptr a) → (if recvBufAddr ≠ 0 ∧ 8 ≤ recvSize then
      g'.writeGuestU32 (recvBufAddr + 4) value else g').stores = g'.stores ++
      if recvBufAddr ≠ 0 ∧ 8 ≤ recvSize then copied g (recvBufAddr + 4) (u32Bytes value) else [] := by
    intro g' hptr
    by_cases hrecv : recvBufAddr ≠ 0 ∧ 8 ≤ recvSize
    · rw [if_pos hrecv, if_pos hrecv, stores_writeU32, copied_congr hptr]
    · rw [if_neg hrecv, if_neg hrecv, List.append_nil]
  rw [writeResult]
  by_cases hrecv : recvBufAddr ≠ 0 ∧ 4 ≤ recvSize
  · have hptr : ∀ a, (g.writeGuestU32 recvBufAddr status).ptr a = g.ptr a := fun a => ptr_copyAt a
    rw [if_pos hrecv, if_pos hrecv, hfirst _ hptr, stores_writeU32, List.append_assoc]
  · rw [if_neg hrecv, if_neg hrecv, hfirst _ fun a => rfl, List.nil_append]

theorem clRead_spec (fs : Files σ F) (g : Guest) (h : σ) (sendBufAddr : Word) :
    let size := min (g.readGuestU32 (sendBufAddr + 4)).toNat kClFileBufferBytes
    let r := clRead fs g h sendBufAddr
    (∃ file p, fs.clFiles (g.readGuestU32 sendBufAddr) = some file ∧
      g.ptr (g.readGuestU32 (sendBufAddr + 8)) = some p ∧
      r.2.1 = g.copyTo p (fs.env.host.fread h file size).1 ∧
      (r.1.1 = -1 ∨ r.1.2 = BitVec.ofNat 32 (fs.env.host.fread h file size).1.length)) ∨
    (fs.clFiles (g.readGuestU32 sendBufAddr) = none ∨ g.ptr (g.readGuestU32 (sendBufAddr + 8)) = none) ∧
      r.2.1 = g ∧ r.1.1 = -1 := by
  dsimp only
  rw [clRead.eq_def]
  rcases hfile : fs.clFiles (g.readGuestU32 sendBufAddr) with _ | file
  · exact .inr ⟨.inl rfl, rfl, rfl⟩
  rcases hptr : g.ptr (g.readGuestU32 (sendBufAddr + 8)) with _ | p
  · exact .inr ⟨.inr rfl, rfl, rfl⟩
  refine .inl ⟨file, p, rfl, rfl, ?_⟩
  dsimp only
  split
  · exact ⟨rfl, .inl rfl⟩
  · exact ⟨rfl, .inr rfl⟩

theorem clRead_iff (sendBufAddr recvBufAddr recvSize : Word) :
    ReadCall.Exact fs w (.clRead sendBufAddr recvBufAddr recvSize) ↔
      ReadCall.Fits fs w (.clRead sendBufAddr recvBufAddr recvSize) := by
  obtain ⟨g, hg⟩ : ∃ g, clearReply w.guest recvBufAddr recvSize = g := ⟨_, rfl⟩
  have hptrs : ∀ a, g.ptr a = w.guest.ptr a := fun a => hg ▸ ptr_clearReply recvBufAddr recvSize a
  have hcleared := stores_clearReply (g := w.guest) recvBufAddr recvSize
  obtain ⟨r, hr⟩ : ∃ r, clRead fs g w.host sendBufAddr = r := ⟨_, rfl⟩
  have hrun : ReadCall.run fs w (.clRead sendBufAddr recvBufAddr recvSize) =
      (if r.1.1 = 0 then some ⟨g.readGuestU32 (sendBufAddr + 8), r.1.2.toNat⟩ else none,
        { w with guest := writeResult r.2.1 recvBufAddr recvSize r.1.1 r.1.2, host := r.2.2 }) := by
    rw [← hr, ← hg]
    rfl
  have hspec := clRead_spec fs g w.host sendBufAddr
  simp only [ReadCall.Exact, ReadCall.Fits, storesSince, hrun, hg]
  revert hspec
  dsimp only
  rw [hg] at hcleared
  rw [hr]
  generalize g.readGuestU32 (sendBufAddr + 8) = dst
  generalize min (g.readGuestU32 (sendBufAddr + 4)).toNat kClFileBufferBytes = size
  have hroom : ∀ a n, Room g a n ↔ Room w.guest a n := fun a n => by simp only [Room, hptrs]
  -- what is copied before the transfer, and the reply behind it
  have hpre : (∀ store ∈ (if recvBufAddr ≠ 0 ∧ 0 < recvSize then
      copied w.guest recvBufAddr (List.replicate (min recvSize.toNat 0x40) 0) else []), store.Inside) ↔
      (recvBufAddr ≠ 0 → Room w.guest recvBufAddr (min recvSize.toNat 0x40)) := by
    rw [forall_mem_ite, copied_inside_iff, List.length_replicate, and_imp]
    refine forall_congr' fun _ => ⟨fun h => ?_, fun h _ => h⟩
    by_cases hpos : 0 < recvSize
    · exact h hpos
    · obtain rfl : recvSize = 0 := BitVec.le_zero_iff.1 (BitVec.not_lt.1 hpos)
      exact room_zero
  have hpost : ∀ g' : Guest, (∀ a, g'.ptr a = w.guest.ptr a) →
      (recvBufAddr ≠ 0 → Room w.guest recvBufAddr (min recvSize.toNat 0x40)) →
      ((∀ store ∈ (if recvBufAddr ≠ 0 ∧ 4 ≤ recvSize then copied g' recvBufAddr (u32Bytes r.1.1) else []) ++
        (if recvBufAddr ≠ 0 ∧ 8 ≤ recvSize then copied g' (recvBufAddr + 4) (u32Bytes r.1.2) else []), store.Inside) ↔
        (recvBufAddr ≠ 0 → 8 ≤ recvSize → Room w.guest (recvBufAddr + 4) 4)) := by
    intro g' hg' hfirst
    rw [List.forall_mem_append, forall_mem_ite, forall_mem_ite, copied_congr hg', copied_congr hg', copied_inside_iff,
      copied_inside_iff, length_u32Bytes, length_u32Bytes, and_imp (b := 8 ≤ recvSize)]
    refine and_iff_right fun ⟨hne, hsize⟩ p hp => ?_
    have hle : 4 ≤ recvSize.toNat := BitVec.le_def.1 hsize
    have := hfirst hne p hp
    omega
  rintro (⟨file, p, hfile, hptr, hguest, hres⟩ | ⟨hnone, hguest, hres⟩)
  · have hptr' : w.guest.ptr dst = some p := (hptrs dst).symm.trans hptr
    have hfits : (∀ file', fs.clFiles (g.readGuestU32 sendBufAddr) = some file' →
        Room w.guest dst (fs.env.host.fread w.host file' size).1.length) ↔
        Room w.guest dst (fs.env.host.fread w.host file size).1.length := by
      refine ⟨fun h => h file hfile, fun h file' hfile' => ?_⟩
      obtain rfl := Option.some.inj (hfile.symm.trans hfile')
      exact h
    generalize (fs.env.host.fread w.host file size).1 = bytes at hguest hres hfits
    rw [hfits, stores_writeResult, hguest, Guest.copyTo]
    dsimp only
    rw [hcleared, List.append_assoc, List.append_assoc, List.drop_left, List.forall_mem_append, List.forall_mem_append,
      hpre]
    constructor
    · rintro ⟨⟨hfirst, htransfer, hlast⟩, -⟩
      refine ⟨fun q hq => ?_, hfirst, (hpost _ hptrs hfirst).1 hlast⟩
      obtain rfl := Option.some.inj (hptr'.symm.trans hq)
      exact htransfer _ List.mem_cons_self
    · rintro ⟨hdst, hfirst, hlast⟩
      have hin : (⟨p, bytes⟩ : Store).Inside := hdst p hptr'
      refine ⟨⟨hfirst, fun store hstore => ?_, (hpost _ hptrs hfirst).2 hlast⟩, fun rep hrep => ?_⟩
      · obtain rfl := List.mem_singleton.1 hstore
        exact hin
      · split at hrep
        next hzero =>
          obtain rfl := Option.some.inj hrep
          refine .inr ⟨⟨p, bytes⟩, ?_, hptr', ?_⟩
          · exact List.mem_append_right _ (List.mem_append_left _ List.mem_cons_self)
          · rcases hres with hres | hres
            · rw [hzero] at hres
              exact absurd hres (by decide)
            · exact (ofNat_count (length_le_of_inside hin)).1.symm.trans (congrArg BitVec.toNat hres.symm)
        · cases hrep
  · have hdst : ∀ file, fs.clFiles (g.readGuestU32 sendBufAddr) = some file →
        Room w.guest dst (fs.env.host.fread w.host file size).1.length := by
      intro file hfile q hq
      rcases hnone with hnone | hnone
      · rw [hnone] at hfile
        cases hfile
      · rw [← hptrs, hnone] at hq
        cases hq
    rw [stores_writeResult, hguest, hcleared, List.append_assoc, List.drop_left, List.forall_mem_append, hpre]
    constructor
    · rintro ⟨⟨hfirst, hlast⟩, -⟩
      exact ⟨hdst, hfirst, (hpost _ hptrs hfirst).1 hlast⟩
    · rintro ⟨-, hfirst, hlast⟩
      refine ⟨⟨hfirst, (hpost _ hptrs hfirst).2 hlast⟩, fun rep hrep => ?_⟩
      have hne : ¬r.1.1 = 0 := by
        rw [hres]
        decide
      rw [if_neg hne] at hrep
      cases hrep

theorem copy_iff (dest src size : Word) :
    ReadCall.Exact fs w (.copy dest src size) ↔ ReadCall.Fits fs w (.copy dest src size) := by
  simp only [ReadCall.Exact, ReadCall.Fits, ReadCall.run, storesSince, copy]
  by_cases hsize : 0 < size
  swap
  · obtain rfl : size = 0 := BitVec.le_zero_iff.1 (BitVec.not_lt.1 hsize)
    rw [if_neg hsize, List.drop_length]
    exact nothing_iff (by rintro r ⟨⟩) fun _ => room_zero
  rw [if_pos hsize]
  rcases hdest : w.guest.ptr dest with _ | p
  · have hroom : Room w.guest dest size.toNat := fun p hp => by rw [hdest] at hp; cases hp
    rw [List.drop_length]
    exact nothing_iff (by rintro r ⟨⟩) fun _ => hroom
  rcases hsrc : w.guest.ptr src with _ | q
  · rw [List.drop_length]
    exact nothing_iff (by rintro r ⟨⟩) fun hne => absurd rfl hne
  have hlength : (w.guest.bytes q size.toNat).length = size.toNat := by
    rw [Guest.bytes, List.length_map, List.length_range]
  rw [drop_copyTo, transfer_iff hdest (by rintro - r ⟨⟩), hlength]
  exact ⟨fun h _ => h, fun h => h (Option.some_ne_none q)⟩

/-- **Guest-sized transfers stay inside guest memory** if and only if they have room. -/
theorem exact_iff_fits (fs : Files σ F) (w : McWorld σ F) (call : ReadCall) : call.Exact fs w ↔ call.Fits fs w := by
  cases call with
  | fioRead ps2Fd bufAddr size => exact fioRead_iff ps2Fd bufAddr size
  | mcRead sendBufAddr recvBufAddr => exact mcRead_iff sendBufAddr recvBufAddr
  | mcGetDir sendBufAddr recvBufAddr recvSize => exact mcGetDir_iff sendBufAddr recvBufAddr recvSize
  | mcDefault rpcNum recvBufAddr recvSize => exact mcDefault_iff rpcNum recvBufAddr recvSize
  | clRead sendBufAddr recvBufAddr recvSize => exact clRead_iff sendBufAddr recvBufAddr recvSize
  | copy dest src size => exact copy_iff dest src size

/-- The second byte is behind main memory. -/
theorem copy_leaves_memory :
    ¬∀ (g : Guest) (dest src size : Word), g.stores = [] → ∀ store ∈ (copy g dest src size).stores, store.Inside := by
  intro h
  have hin := h ⟨⟨fun _ => 0, fun _ => 0⟩, true, []⟩ 0x01FFFFFF 0 2 rfl ⟨⟨false, 0x01FFFFFF⟩, [0, 0]⟩
    (List.mem_singleton.2 rfl)
  have hlt : arraySize false < 0x01FFFFFF + 2 := by decide
  exact absurd hin (not_le.2 hlt)

end Ps2Recomp.FileReads
