import Ps2Recomp.Proof.Memory
import Ps2Recomp.Proof.SifRpc
import Ps2Recomp.Spec.RpcClients

/-!
# The packets and servers of clients

`Layout.Modifies m m' X` says that two memories differ in no field of a record outside `X`. Each step of a
run modifies few fields; `Tied` is what holds of clients, packets and servers between the steps.
-/

namespace Ps2Recomp.SifRpc

open Memory VSync

section Modifies

variable {κ : Type} {words : κ → ℕ} {spr : Bool} (L : Layout words spr) {m m' m'' : GuestMemory}
  {X Y : Word → ℕ → Prop} {a p v : Word} {k : κ} {i j : ℕ}

/-- The fields of records that are not in `X` are the same. -/
def Layout.Modifies (m m' : GuestMemory) (X : Word → ℕ → Prop) : Prop :=
  ∀ p k j, L.kind p = some k → j < words k → ¬ X p j → field spr m' p j = field spr m p j

variable {L}

theorem Layout.Modifies.refl : L.Modifies m m X := fun _ _ _ _ _ _ => rfl

theorem Layout.Modifies.trans (h : L.Modifies m m' X) (h' : L.Modifies m' m'' Y) :
    L.Modifies m m'' fun p j => X p j ∨ Y p j := by
  intro p k j hp hj hn
  rw [not_or] at hn
  exact (h' p k j hp hj hn.2).trans (h p k j hp hj hn.1)

theorem Layout.Modifies.mono (h : L.Modifies m m' X) (hXY : ∀ p j, X p j → Y p j) : L.Modifies m m' Y :=
  fun p k j hp hj hn => h p k j hp hj fun hx => hn (hXY p j hx)

section

variable (ha : L.kind a = some k)

include ha

theorem modifies_setWord (hi : i < words k) : L.Modifies m (setWord m (L.ptr a) i v) fun p j => p = a ∧ j = i := by
  intro p k' j hp hj hn
  rw [L.field_setWord ha hi hp hj, if_neg hn]

theorem modifies_setWords {l : List (ℕ × Word)} (hl : ∀ e ∈ l, e.1 < words k) :
    L.Modifies m (setWords m (L.ptr a) l) fun p j => p = a ∧ j ∈ l.map Prod.fst := by
  induction l generalizing m with
  | nil => exact .refl
  | cons e l ih =>
    rw [setWords, List.foldl_cons, ← setWords]
    refine ((modifies_setWord ha (hl e List.mem_cons_self)).trans
      (ih fun e he => hl e (List.mem_cons_of_mem _ he))).mono fun p j h => ?_
    obtain ⟨rfl, rfl⟩ | ⟨rfl, hj⟩ := h
    · exact ⟨rfl, List.mem_cons_self⟩
    · exact ⟨rfl, List.mem_cons_of_mem _ hj⟩

theorem modifies_storeByte {b : ℕ} {v : ℕ} (hb : b < 4 * words k) :
    L.Modifies m (m.setArea (L.ptr a).scratch
      (Bytes.store (m.area (L.ptr a).scratch) ((L.ptr a).offset + b) v 1)) fun p _ => p = a := by
  intro p k' j hp hj hn
  rw [L.field_eq hp, L.field_eq hp, word, word, GuestMemory.area_setArea]
  by_cases hs : (L.ptr p).scratch = (L.ptr a).scratch
  · rw [if_pos hs, hs]
    refine congrArg _ (Bytes.load_congr fun r hr hr' => Bytes.store_off ?_)
    have := L.apart hp ha hn hs
    omega
  · rw [if_neg hs]

end

end Modifies

/-! ### Pools -/

variable {spr : Bool} {L : Layout RpcKind.words spr} {m m' : GuestMemory} {s : RpcState} {t t' : Ties}
  {a c id v : Word} {X : Word → ℕ → Prop}

theorem getMemPtr_pool (h : 0x01F00000 ≤ a.toNat) (h' : a.toNat < 0x01F20000) :
    getMemPtr spr a = some ⟨false, a.toNat⟩ := by
  have hscratch : isScratchpad a = false := by
    rw [Bool.eq_false_iff, ne_eq, isScratchpad_iff]
    omega
  have hlow : a < 0x20000000 := by bv_omega
  have hram : ¬ ramSize ≤ a := by
    rw [ramSize]
    bv_omega
  simp only [getMemPtr, ps2ResolveGuestPointer, hscratch, if_pos hlow, if_neg hram]
  rfl

theorem packetAt_toNat (index : Word) : (packetAt index).toNat = 0x01F00000 + index.toNat % 1024 * 64 := by
  have : index.toNat % 1024 < 1024 := Nat.mod_lt _ (by decide)
  rw [packetAt, kRpcPacketPoolBase, kRpcPacketPoolCount, kRpcPacketSize, BitVec.toNat_add, BitVec.toNat_mul,
    BitVec.toNat_umod]
  simp
  omega

theorem slotAt_toNat (index : Word) : (slotAt index).toNat = 0x01F10000 + index.toNat % 512 * 128 := by
  have : index.toNat % 512 < 512 := Nat.mod_lt _ (by decide)
  rw [slotAt, kRpcServerPoolBase, kRpcServerPoolCount, kRpcServerStride, BitVec.toNat_add, BitVec.toNat_mul,
    BitVec.toNat_umod]
  simp
  omega

theorem modifies_zero {k : RpcKind} {i n : ℕ} (ha : L.kind a = some k) (hlow : 0x01F00000 ≤ a.toNat)
    (hhigh : a.toNat + 4 * k.words ≤ 0x01F20000) (hn : i + n ≤ 4 * k.words) :
    L.Modifies m (rpcZeroRdram spr (a + BitVec.ofNat 32 i) n m) fun p _ => p = a := by
  induction n generalizing i m with
  | zero => exact .refl
  | succ n ih =>
    have hbyte : (a + BitVec.ofNat 32 i).toNat = a.toNat + i := by
      rw [BitVec.toNat_add, BitVec.toNat_ofNat]
      omega
    have hres : getMemPtr spr (a + BitVec.ofNat 32 i) = some ⟨false, a.toNat + i⟩ := by
      rw [getMemPtr_pool (by omega) (by omega), hbyte]
    have hptr : L.ptr a = ⟨false, a.toNat⟩ := by
      have h := L.resolves ha
      rw [getMemPtr_pool hlow (by omega)] at h
      exact (Option.some_inj.1 h).symm
    have hfirst := modifies_storeByte (m := m) (b := i) (v := 0) ha (by omega)
    have hnext : a + BitVec.ofNat 32 i + 1 = a + BitVec.ofNat 32 (i + 1) := by
      rw [BitVec.ofNat_add, BitVec.add_assoc]
      rfl
    rw [hptr] at hfirst
    simp only [rpcZeroRdram, hres, hnext]
    exact (hfirst.trans (ih (by omega))).mono fun p j h => h.elim id id

theorem modifies_zeroPacket (hp : L.HasPools) (index : Word) :
    L.Modifies m (rpcZeroRdram spr (packetAt index) 64 m) fun p _ => p = packetAt index := by
  have hlt : index.toNat % 1024 < 1024 := Nat.mod_lt _ (by decide)
  have hnat := packetAt_toNat index
  have h := modifies_zero (m := m) (i := 0) (n := 64) (hp.1 index) (by omega) (by rw [RpcKind.words]; omega) (by decide)
  have hzero : packetAt index + BitVec.ofNat 32 0 = packetAt index := BitVec.add_zero _
  rwa [hzero] at h

theorem modifies_zeroSlot (hp : L.HasPools) (index : Word) :
    L.Modifies m (rpcZeroRdram spr (slotAt index) 128 m) fun p _ => p = slotAt index := by
  have hlt : index.toNat % 512 < 512 := Nat.mod_lt _ (by decide)
  have hnat := slotAt_toNat index
  have h := modifies_zero (m := m) (i := 0) (n := 128) (hp.2 index) (by omega) (by rw [RpcKind.words]; omega) (by decide)
  have hzero : slotAt index + BitVec.ofNat 32 0 = slotAt index := BitVec.add_zero _
  rwa [hzero] at h

/-! ### Ties -/

/-- The packet of the client `c` is ready, has its id and belongs to it. -/
structure HasPacket (spr : Bool) (m : GuestMemory) (c : Word) : Prop where
  pool : ∃ index, field spr m c Client.pktAddr = packetAt index
  ready : field spr m (field spr m c Client.pktAddr) Packet.ready = 1
  rpcId : field spr m (field spr m c Client.pktAddr) Packet.rpcId = field spr m c Client.rpcId
  owner : field spr m (field spr m c Client.pktAddr) Packet.owner = c

/-- The client `c` has a server of the service `id`. -/
structure HasServer (L : Layout RpcKind.words spr) (m : GuestMemory) (c id : Word) : Prop where
  isServer : L.IsServer (field spr m c Client.server)
  sid : field spr m (field spr m c Client.server) Server.sid = id

theorem Layout.IsServer.kind (h : L.IsServer a) : ∃ k, L.kind a = some k ∧ 17 ≤ k.words ∧ k ≠ .client ∧ k ≠ .packet := by
  obtain h | h := h
  · exact ⟨_, h, by decide, by decide, by decide⟩
  · exact ⟨_, h, by decide, by decide, by decide⟩

theorem HasPacket.modifies (h : HasPacket spr m c) (hpools : L.HasPools) (hc : L.kind c = some .client)
    (hm : L.Modifies m m' X) (hpkt : ¬ X c Client.pktAddr) (hid : ¬ X c Client.rpcId)
    (hown : ∀ i ∈ [Packet.ready, Packet.rpcId, Packet.owner], ¬ X (field spr m c Client.pktAddr) i) :
    HasPacket spr m' c := by
  obtain ⟨index, hindex⟩ := h.pool
  have hkind : L.kind (field spr m c Client.pktAddr) = some .packet := hindex ▸ hpools.1 index
  have hpkt' : field spr m' c Client.pktAddr = field spr m c Client.pktAddr := hm c _ _ hc (by decide) hpkt
  have hid' : field spr m' c Client.rpcId = field spr m c Client.rpcId := hm c _ _ hc (by decide) hid
  refine ⟨⟨index, hpkt'.trans hindex⟩, ?_, ?_, ?_⟩
  · rw [hpkt', hm _ _ Packet.ready hkind (by decide) (hown _ (by simp)), h.ready]
  · rw [hpkt', hm _ _ Packet.rpcId hkind (by decide) (hown _ (by simp)), h.rpcId, hid']
  · rw [hpkt', hm _ _ Packet.owner hkind (by decide) (hown _ (by simp)), h.owner]

theorem HasServer.modifies (h : HasServer L m c id) (hc : L.kind c = some .client) (hm : L.Modifies m m' X)
    (hserver : ¬ X c Client.server) (hsid : ¬ X (field spr m c Client.server) Server.sid) : HasServer L m' c id := by
  have hserver' : field spr m' c Client.server = field spr m c Client.server := hm c _ _ hc (by decide) hserver
  obtain ⟨k, hk, hwords, -⟩ := h.isServer.kind
  refine ⟨hserver'.symm ▸ h.isServer, ?_⟩
  rw [hserver', hm _ k Server.sid hk (by rw [Server.sid]; omega) hsid, h.sid]

/-- Of the ties: their clients are records, complete binds and calls left a packet, and bound clients have a
server. -/
structure Tied (L : Layout RpcKind.words spr) (m : GuestMemory) (t : Ties) : Prop where
  settled_kind : ∀ c, t.settled c = true → L.kind c = some .client
  bound_kind : ∀ c id, t.bound c = some id → L.kind c = some .client
  pending_kind : ∀ c ∈ t.pending, L.kind c = some .client
  packet : ∀ c, t.settled c = true → HasPacket spr m c
  server : ∀ c id, t.bound c = some id → HasServer L m c id

namespace Tied

/-- Less is tied, and some fields are modified that no tie needs. -/
theorem modifies (h : Tied L m t) (hpools : L.HasPools) (hm : L.Modifies m m' X)
    (hsettled : ∀ c, t'.settled c = true → t.settled c = true) (hbound : ∀ c id, t'.bound c = some id → t.bound c = some id)
    (hpending : ∀ c ∈ t'.pending, L.kind c = some .client)
    (hp : ∀ c, t'.settled c = true → ¬ X c Client.pktAddr ∧ ¬ X c Client.rpcId ∧
      ∀ i ∈ [Packet.ready, Packet.rpcId, Packet.owner], ¬ X (field spr m c Client.pktAddr) i)
    (hs : ∀ c id, t'.bound c = some id →
      ¬ X c Client.server ∧ ¬ X (field spr m c Client.server) Server.sid) : Tied L m' t' where
  settled_kind := fun c hc => h.settled_kind c (hsettled c hc)
  bound_kind := fun c id hc => h.bound_kind c id (hbound c id hc)
  pending_kind := hpending
  packet := by
    intro c hc
    obtain ⟨hpkt, hid, hown⟩ := hp c hc
    exact (h.packet c (hsettled c hc)).modifies hpools (h.settled_kind c (hsettled c hc)) hm hpkt hid hown
  server := by
    intro c id hc
    obtain ⟨hserver, hsid⟩ := hs c id hc
    exact (h.server c id (hbound c id hc)).modifies (h.bound_kind c id (hbound c id hc)) hm hserver hsid

section

variable {B : Word → Option Word} {S : Word → Bool} {P : List Word}

theorem settle
    (h : Tied L m ⟨B, Function.update S c false, P⟩) (hc : L.kind c = some .client) (hp : HasPacket spr m c) :
    Tied L m ⟨B, Function.update S c true, P⟩ where
  settled_kind := by
    intro c' hc'
    by_cases hcc : c' = c
    · exact hcc ▸ hc
    · exact h.settled_kind c' (by simpa [hcc] using hc')
  bound_kind := h.bound_kind
  pending_kind := h.pending_kind
  packet := by
    intro c' hc'
    by_cases hcc : c' = c
    · exact hcc ▸ hp
    · exact h.packet c' (by simpa [hcc] using hc')
  server := h.server

theorem bind (h : Tied L m ⟨Function.update B c none, S, P⟩) (hc : L.kind c = some .client) (hs : HasServer L m c id) :
    Tied L m ⟨Function.update B c (some id), S, P⟩ where
  settled_kind := h.settled_kind
  bound_kind := by
    intro c' id' hc'
    by_cases hcc : c' = c
    · exact hcc ▸ hc
    · exact h.bound_kind c' id' (by simpa [hcc] using hc')
  pending_kind := h.pending_kind
  packet := h.packet
  server := by
    intro c' id' hc'
    by_cases hcc : c' = c
    · subst hcc
      have hid : id = id' := by simpa using hc'
      exact hid ▸ hs
    · exact h.server c' id' (by simpa [hcc] using hc')

end

theorem packet_kind (h : Tied L m t) (hpools : L.HasPools) (hc : t.settled c = true) :
    L.kind (field spr m c Client.pktAddr) = some .packet := by
  obtain ⟨index, hindex⟩ := (h.packet c hc).pool
  exact hindex ▸ hpools.1 index

end Tied

section Update

variable {S : Word → Bool} {B : Word → Option Word} {c' : Word}

theorem of_update_false (h : Function.update S c false c' = true) : c' ≠ c ∧ S c' = true := by
  by_cases hcc : c' = c
  · simp [hcc] at h
  · exact ⟨hcc, by simpa [hcc] using h⟩

theorem of_update_none (h : Function.update B c none c' = some id) : c' ≠ c ∧ B c' = some id := by
  by_cases hcc : c' = c
  · simp [hcc] at h
  · exact ⟨hcc, by simpa [hcc] using h⟩

end Update

/-! ### Replies -/

theorem reply_spec (hpools : L.HasPools) (hspr : s.scratchpadMapped = spr) (hc : L.kind c = some .client) :
    ∃ m', s.reply c (L.ptr c) = { s with packetIndex := s.packetIndex + 1, memory := m' } ∧
      L.Modifies s.memory m' (fun p j => p = packetAt s.packetIndex ∨ p = c ∧ j = Client.pktAddr) ∧
      field spr m' c Client.pktAddr = packetAt s.packetIndex ∧ HasPacket spr m' c := by
  have hpk := hpools.1 s.packetIndex
  have hne : c ≠ packetAt s.packetIndex := L.ne_of_kind hc hpk (by decide)
  set m0 := rpcZeroRdram spr (packetAt s.packetIndex) 64 s.memory with hm0
  have hzero : L.Modifies s.memory m0 fun p _ => p = packetAt s.packetIndex := modifies_zeroPacket hpools _
  set l : List (ℕ × Word) :=
    [(Packet.ready, 1), (Packet.rpcId, word m0 (L.ptr c) Client.rpcId), (Packet.owner, c)] with hl
  have hlw : ∀ e ∈ l, e.1 < RpcKind.packet.words := by
    rw [hl]
    simp [RpcKind.words, Packet.ready, Packet.rpcId, Packet.owner]
  set m1 := setWords m0 (L.ptr (packetAt s.packetIndex)) l with hm1
  have hstamp : L.Modifies m0 m1 fun p j => p = packetAt s.packetIndex ∧ j ∈ l.map Prod.fst :=
    modifies_setWords hpk hlw
  set m2 := setWord m1 (L.ptr c) Client.pktAddr (packetAt s.packetIndex) with hm2
  have hlast : L.Modifies m1 m2 fun p j => p = c ∧ j = Client.pktAddr := modifies_setWord hc (by decide)
  have hmod : L.Modifies s.memory m2 fun p j => p = packetAt s.packetIndex ∨ p = c ∧ j = Client.pktAddr := by
    refine ((hzero.trans hstamp).trans hlast).mono fun p j h => ?_
    obtain (h | h) | h := h
    · exact .inl h
    · exact .inl h.1
    · exact .inr h
  have hpkt : field spr m2 c Client.pktAddr = packetAt s.packetIndex := by
    rw [hm2, L.field_setWord hc (by decide) hc (by decide), if_pos ⟨rfl, rfl⟩]
  have hid : field spr m2 c Client.rpcId = field spr m0 c Client.rpcId := by
    rw [hlast c _ _ hc (by decide) (by rintro ⟨-, h⟩; cases h), hstamp c _ _ hc (by decide) fun h => hne h.1]
  have hown : ∀ j < RpcKind.packet.words, field spr m2 (packetAt s.packetIndex) j =
      (l.reverse.lookup j).getD (field spr m0 (packetAt s.packetIndex) j) := by
    intro j hj
    rw [hlast _ _ _ hpk hj fun h => hne h.1.symm]
    exact L.field_setWords_self hpk hlw hj
  refine ⟨m2, ?_, hmod, hpkt, ⟨s.packetIndex, hpkt⟩, ?_, ?_, ?_⟩
  · have hpkt0 : packetAt s.packetIndex ≠ 0 := L.ne_zero hpk
    have hsize : kRpcPacketSize.toNat = 64 := rfl
    simp only [RpcState.reply, RpcState.rpcAllocPacketAddr, if_neg hpkt0, RpcState.ptr, hspr, L.resolves hpk, hsize]
    rfl
  · rw [hpkt, hown _ (by decide)]
    rfl
  · rw [hpkt, hown _ (by decide), hid, L.field_eq hc]
    rfl
  · rw [hpkt, hown _ (by decide)]
    rfl

/-! ### Calls -/

/-- The server that a call of the client `c` goes to. -/
def callee (spr : Bool) (s : RpcState) (c : Word) : Word :=
  let sid := ((s.findClient c).getD {}).sid
  let mapped := if sid ≠ 0 then (s.servers sid).getD 0 else 0
  if mapped ≠ 0 then mapped else field spr s.memory c Client.server

/-- What a call writes before it is handled: words of the client other than those of the reply, and words of
the server other than its service and its link. -/
def BeginWrites (c callee : Word) (p : Word) (j : ℕ) : Prop :=
  p = c ∧ j ≠ Client.pktAddr ∧ j ≠ Client.rpcId ∨ p = callee ∧ j ≠ Server.sid ∧ j ≠ Server.link

theorem resolved_server {sv : Word} {p : HostPtr} {l : List (ℕ × Word)} (h : sv ≠ 0 → s.ptr sv = some p) :
    (if sv = 0 then m else
      match s.ptr sv with
      | none => m
      | some sd => setWords m sd l) = if sv = 0 then m else setWords m p l := by
  refine if_ctx_congr Iff.rfl (fun _ => rfl) fun hsv0 => ?_
  rw [h hsv0]

theorem beginCall_spec (args : CallArgs) (hspr : s.scratchpadMapped = spr) (hc : L.kind args.clientPtr = some .client)
    (hcallee : callee spr s args.clientPtr = 0 ∨ L.IsServer (callee spr s args.clientPtr)) :
    ∃ m' e, beginCall s args = some (({ s with memory := m' } : RpcState).putClient args.clientPtr e) ∧
      e.sid = ((s.findClient args.clientPtr).getD {}).sid ∧
      L.Modifies s.memory m' (BeginWrites args.clientPtr (callee spr s args.clientPtr)) ∧
      field spr m' args.clientPtr Client.server = callee spr s args.clientPtr := by
  have hptr : s.ptr args.clientPtr = some (L.ptr args.clientPtr) := by
    rw [RpcState.ptr, hspr, L.resolves hc]
  set c := args.clientPtr with hcdef
  set sv := callee spr s c with hsv
  set l : List (ℕ × Word) :=
    [(Client.command, args.rpcNum), (Client.endFunction, args.endFunc), (Client.endParam, args.endParam),
      (Client.mode, args.mode)] with hl
  set m1 := setWords s.memory (L.ptr c) l with hm1
  have hlw : ∀ e ∈ l, e.1 < RpcKind.client.words := by
    rw [hl]
    simp [RpcKind.words, Client.command, Client.endFunction, Client.endParam, Client.mode]
  have h1 : L.Modifies s.memory m1 fun p j => p = c ∧ j ∈ l.map Prod.fst := modifies_setWords hc hlw
  have hserver1 : field spr m1 c Client.server = field spr s.memory c Client.server :=
    h1 c _ _ hc (by decide) fun h => by simp [hl] at h
  set sid := ((s.findClient c).getD {}).sid with hsid
  set mapped := if sid ≠ 0 then (s.servers sid).getD 0 else 0 with hmapped
  have hsv' : sv = if mapped ≠ 0 then mapped else field spr s.memory c Client.server := rfl
  set m2 := if mapped ≠ 0 ∧ word m1 (L.ptr c) Client.server ≠ mapped then setWord m1 (L.ptr c) Client.server mapped
    else m1 with hm2
  have h2 : L.Modifies m1 m2 fun p j => p = c ∧ j = Client.server := by
    rw [hm2]
    split
    · exact modifies_setWord hc (by decide)
    · exact .refl
  have hserver2 : field spr m2 c Client.server = sv := by
    rw [hm2, hsv', ← L.field_eq hc]
    by_cases hmap : mapped ≠ 0
    · rw [if_pos hmap]
      by_cases hsame : field spr m1 c Client.server = mapped
      · rw [if_neg fun h => h.2 hsame, hsame]
      · rw [if_pos ⟨hmap, hsame⟩, L.field_setWord hc (by decide) hc (by decide), if_pos ⟨rfl, rfl⟩]
    · rw [if_neg hmap, if_neg fun h => hmap h.1, hserver1]
  set l' : List (ℕ × Word) :=
    [(Server.client, c), (Server.pktAddr, word m2 (L.ptr c) Client.pktAddr), (Server.rpcNumber, args.rpcNum),
      (Server.size, args.sendSize), (Server.recvbuf, args.recvBuf), (Server.rsize, args.recvSize),
      (Server.rmode, if (args.mode &&& kSifRpcModeNowait) ≠ 0 ∧ args.endFunc = 0 then 0 else 1), (Server.rid, 0)]
    with hl'
  set m3 := if sv = 0 then m2 else setWords m2 (L.ptr sv) l' with hm3
  have h3 : L.Modifies m2 m3 fun p j => p = sv ∧ j ∈ l'.map Prod.fst := by
    rw [hm3]
    split
    · exact .refl
    · rename_i hsv0
      obtain ⟨k, hk, hwords, -⟩ := (hcallee.resolve_left hsv0).kind
      have hpositions : ∀ j ∈ [7, 8, 9, 3, 10, 11, 12, 13], j < 17 := by decide
      exact modifies_setWords hk fun e he =>
        lt_of_lt_of_le (hpositions e.1 (List.mem_map_of_mem (f := Prod.fst) he)) hwords
  refine ⟨m3, { (s.findClient c).getD {} with busy := true, lastRpc := args.rpcNum }, ?_, rfl, ?_, ?_⟩
  · have hresolve := resolved_server (m := m2) (p := L.ptr sv) (l := l') fun hsv0 => by
      obtain ⟨k, hk, -⟩ := (hcallee.resolve_left hsv0).kind
      rw [RpcState.ptr, hspr, L.resolves hk]
    have hword : word m2 (L.ptr c) Client.server = sv := by
      rw [← L.field_eq hc, hserver2]
    rw [hm3, ← hresolve, ← hword]
    simp only [beginCall, ← hcdef, hptr]
    rfl
  · refine ((h1.trans h2).trans h3).mono fun p j h => ?_
    obtain (⟨hp, hj⟩ | ⟨hp, hj⟩) | ⟨hp, hj⟩ := h
    · refine .inl ⟨hp, ?_, ?_⟩ <;> rintro rfl <;> simp [hl] at hj
    · exact .inl ⟨hp, hj ▸ by decide, hj ▸ by decide⟩
    · refine .inr ⟨hp, ?_, ?_⟩ <;> rintro rfl <;> simp [hl'] at hj
  · by_cases hsv0 : sv = 0
    · rw [hm3, if_pos hsv0, hserver2]
    · obtain ⟨k, hk, -, hkc, -⟩ := (hcallee.resolve_left hsv0).kind
      have hne : c ≠ sv := L.ne_of_kind hc hk hkc.symm
      rw [h3 c _ _ hc (by decide) fun h => hne h.1, hserver2]

/-! ### Binds -/

/-- The slot of a dummy server gets the service, and the service the slot. -/
theorem dummyServer_spec (id : Word) (hpools : L.HasPools) (hspr : s.scratchpadMapped = spr) :
    ∃ m', dummyServer s id = ({ s with
        serverIndex := s.serverIndex + 1
        memory := m'
        servers := Function.update s.servers id (some (slotAt s.serverIndex)) }, slotAt s.serverIndex) ∧
      (L.Modifies s.memory m' fun p _ => p = slotAt s.serverIndex) ∧
      field spr m' (slotAt s.serverIndex) Server.sid = id := by
  have hslot := hpools.2 s.serverIndex
  set m0 := rpcZeroRdram spr (slotAt s.serverIndex) 128 s.memory with hm0
  have hzero : L.Modifies s.memory m0 fun p _ => p = slotAt s.serverIndex := modifies_zeroSlot hpools _
  set l : List (ℕ × Word) := (List.range 17).map (·, 0) ++ [(Server.sid, id)] with hl
  have hlw : ∀ e ∈ l, e.1 < RpcKind.slot.words := by
    have hpositions : ∀ j ∈ List.range 17 ++ [0], j < 32 := by decide
    intro e he
    refine hpositions e.1 ?_
    rw [hl] at he
    obtain he | he := List.mem_append.1 he
    · obtain ⟨j, hj, rfl⟩ := List.mem_map.1 he
      exact List.mem_append_left _ hj
    · rw [List.mem_singleton.1 he]
      exact List.mem_append_right _ List.mem_cons_self
  refine ⟨setWords m0 (L.ptr (slotAt s.serverIndex)) l, ?_, ?_, ?_⟩
  · have hslot0 : slotAt s.serverIndex ≠ 0 := L.ne_zero hslot
    have hsize : kRpcServerStride.toNat = 128 := rfl
    simp only [dummyServer, RpcState.rpcAllocServerAddr, if_neg hslot0, RpcState.ptr, hspr, L.resolves hslot, hsize]
    rfl
  · exact (hzero.trans (modifies_setWords hslot hlw)).mono fun p j h => h.elim (fun h => h) And.left
  · rw [L.field_setWords_self hslot hlw (by decide), hl, List.reverse_append, List.reverse_singleton,
      List.singleton_append, List.lookup_cons_self, Option.getD_some]

theorem linkClient_spec {v w : Word} (hc : L.kind c = some .client) :
    (L.Modifies m (setWord (setWord (setWord m (L.ptr c) Client.server a) (L.ptr c) Client.buf v) (L.ptr c)
      Client.cbuf w) fun p _ => p = c) ∧
    field spr (setWord (setWord (setWord m (L.ptr c) Client.server a) (L.ptr c) Client.buf v) (L.ptr c)
      Client.cbuf w) c Client.server = a := by
  refine ⟨?_, ?_⟩
  · refine (((modifies_setWord hc (by decide)).trans (modifies_setWord hc (by decide))).trans
      (modifies_setWord hc (by decide))).mono fun p j h => ?_
    exact h.elim (fun h => h.elim And.left And.left) And.left
  · rw [L.field_setWord_ne hc (by decide) hc (by decide) fun _ => by decide,
      L.field_setWord_ne hc (by decide) hc (by decide) fun _ => by decide,
      L.field_setWord hc (by decide) hc (by decide), if_pos ⟨rfl, rfl⟩]

/-- What a bind writes: the client, its packet, and the slot of a dummy server. -/
def BindWrites (s : RpcState) (c id : Word) (p : Word) : Prop :=
  p = c ∨ p = packetAt s.packetIndex ∨ s.servers id = none ∧ p = slotAt s.serverIndex

/-- The services behind a bind. -/
def serversBound (s : RpcState) (id : Word) : Word → Option Word :=
  match s.servers id with
  | none => Function.update s.servers id (some (slotAt s.serverIndex))
  | some _ => s.servers

theorem isServer_serversBound {id' sd : Word} (hpools : L.HasPools)
    (h : ∀ id sd, s.servers id = some sd → L.IsServer sd) (hsd : serversBound s id id' = some sd) : L.IsServer sd := by
  cases hs : s.servers id with
  | some _ =>
    rw [serversBound, hs] at hsd
    exact h id' sd hsd
  | none =>
    rw [serversBound, hs] at hsd
    by_cases hid : id' = id
    · rw [hid] at hsd
      simp only [Function.update_self, Option.some.injEq] at hsd
      exact .inr (hsd ▸ hpools.2 _)
    · simp only [Function.update_of_ne hid] at hsd
      exact h id' sd hsd

theorem bind_spec (id mode : Word) (hpools : L.HasPools) (hspr : s.scratchpadMapped = spr)
    (hc : L.kind c = some .client)
    (hsd : ∀ sd, s.servers id = some sd → L.IsServer sd ∧ field spr s.memory sd Server.sid = id) :
    (sifBindRpc s c id mode).1.scratchpadMapped = spr ∧
      (sifBindRpc s c id mode).1.clients = (s.putClient c { sid := id }).clients ∧
      (sifBindRpc s c id mode).1.servers = serversBound s id ∧
      (L.Modifies s.memory (sifBindRpc s c id mode).1.memory fun p _ => BindWrites s c id p) ∧
      HasPacket spr (sifBindRpc s c id mode).1.memory c ∧
      HasServer L (sifBindRpc s c id mode).1.memory c id ∧
      (sifBindRpc s c id mode).1.packetIndex = s.packetIndex + 1 ∧
      field spr (sifBindRpc s c id mode).1.memory c Client.pktAddr = packetAt s.packetIndex := by
  have hptr : s.ptr c = some (L.ptr c) := by
    rw [RpcState.ptr, hspr, L.resolves hc]
  set l : List (ℕ × Word) :=
    [(Client.command, 0), (Client.buf, 0), (Client.cbuf, 0), (Client.endFunction, 0), (Client.endParam, 0),
      (Client.server, 0), (Client.pktAddr, 0), (Client.semaId, -1), (Client.mode, mode), (Client.rpcId, s.nextId)]
    with hl
  have hlw : ∀ e ∈ l, e.1 < RpcKind.client.words := by
    have hpositions : ∀ j ∈ [4, 5, 6, 7, 8, 9, 0, 2, 3, 1], j < 10 := by decide
    exact fun e he => hpositions e.1 (List.mem_map_of_mem (f := Prod.fst) he)
  set s1 : RpcState :=
    { s with memory := setWords s.memory (L.ptr c) l, nextId := s.nextId + 1 }.putClient c { sid := id } with hs1
  have hmod1 : L.Modifies s.memory s1.memory fun p _ => p = c :=
    (modifies_setWords hc hlw).mono fun p j h => h.1
  -- the server that is found or made
  obtain ⟨s2, sp, hfound, hspr2, hclients2, hservers2, hpacket2, hmod2, hsp, hsid⟩ : ∃ s2 sp,
      (if (s1.servers id).getD 0 = 0 then dummyServer s1 id else (s1, (s1.servers id).getD 0)) = (s2, sp) ∧
        s2.scratchpadMapped = spr ∧ s2.clients = (s.putClient c { sid := id }).clients ∧
        s2.servers = serversBound s id ∧ s2.packetIndex = s.packetIndex ∧
        (L.Modifies s1.memory s2.memory fun p _ => s.servers id = none ∧ p = slotAt s.serverIndex) ∧
        L.IsServer sp ∧ field spr s2.memory sp Server.sid = id := by
    have hservers1 : s1.servers = s.servers := rfl
    rw [hservers1]
    cases hs : s.servers id with
    | none =>
      obtain ⟨m', hdummy, hmod, hsid⟩ := dummyServer_spec (s := s1) id hpools hspr
      refine ⟨_, _, if_pos rfl |>.trans hdummy, hspr, rfl, ?_, rfl, hmod.mono fun p j h => ⟨rfl, h⟩,
        .inr (hpools.2 _), hsid⟩
      rw [serversBound, hs]
      rfl
    | some sd =>
      obtain ⟨hserver, hsid⟩ := hsd sd hs
      obtain ⟨k, hk, hwords, hkc, -⟩ := hserver.kind
      refine ⟨s1, sd, if_neg (L.ne_zero hk), hspr, rfl, ?_, rfl, .refl, hserver, ?_⟩
      · rw [serversBound, hs]
        rfl
      · rw [hmod1 sd k _ hk (by rw [Server.sid]; omega) (L.ne_of_kind hk hc hkc), hsid]
  obtain ⟨k, hk, hwords, hkc, hkp⟩ := hsp.kind
  have hne : sp ≠ c := L.ne_of_kind hk hc hkc
  have hsp0 : sp ≠ 0 := L.ne_zero hk
  obtain ⟨hmod3, hserver3⟩ := linkClient_spec (m := s2.memory) (a := sp)
    (v := word (setWord s2.memory (L.ptr c) Client.server sp) (L.ptr sp) Server.buf)
    (w := word (setWord (setWord s2.memory (L.ptr c) Client.server sp) (L.ptr c) Client.buf
      (word (setWord s2.memory (L.ptr c) Client.server sp) (L.ptr sp) Server.buf)) (L.ptr sp) Server.cbuf) hc
  set m3 := setWord (setWord (setWord s2.memory (L.ptr c) Client.server sp) (L.ptr c) Client.buf _) (L.ptr c)
    Client.cbuf _ with hm3
  obtain ⟨m4, hreply, hmod4, hpkt4, hpacket4⟩ := reply_spec (s := { s2 with memory := m3 }) hpools hspr2 hc
  have hrun : (sifBindRpc s c id mode).1 = { s2 with packetIndex := s2.packetIndex + 1, memory := m4 } := by
    have hptr2 : s2.ptr sp = some (L.ptr sp) := by
      rw [RpcState.ptr, hspr2, L.resolves hk]
    simp only [sifBindRpc, hptr]
    rw [← hl, ← hs1, hfound]
    simp only [if_pos hsp0, hptr2]
    rw [← hm3, hreply]
  rw [hrun]
  refine ⟨hspr2, hclients2, hservers2, ?_, hpacket4, ?_, congrArg (· + 1) hpacket2,
    hpkt4.trans (congrArg packetAt hpacket2)⟩
  · refine (((hmod1.trans hmod2).trans hmod3).trans hmod4).mono fun p j h => ?_
    obtain ((h | h) | h) | h | ⟨h, -⟩ := h
    · exact .inl h
    · exact .inr (.inr h)
    · exact .inl h
    · exact .inr (.inl (h.trans (congrArg packetAt hpacket2)))
    · exact .inl h
  · have hpk := hpools.1 s2.packetIndex
    have hserver4 : field spr m4 c Client.server = sp := by
      rw [hmod4 c _ _ hc (by decide) ?_, hserver3]
      rintro (h | ⟨-, h⟩)
      · exact L.ne_of_kind hc hpk (by decide) h
      · cases h
    refine ⟨hserver4.symm ▸ hsp, ?_⟩
    rw [hserver4, hmod4 sp k _ hk (by rw [Server.sid]; omega) ?_, hmod3 sp k _ hk (by rw [Server.sid]; omega) hne, hsid]
    rintro (h | ⟨h, -⟩)
    · exact L.ne_of_kind hk hpk hkp h
    · exact hne h

/-! ### Steps -/

theorem Layout.Linked.modifies (h : L.Linked m) (hm : L.Modifies m m' X)
    (hq : ∀ q, L.kind q = some .queue → ¬ X q Queue.link) (hs : ∀ p, L.kind p = some .server → ¬ X p Server.link) :
    L.Linked m' := by
  refine ⟨fun q hqk => ?_, fun p hpk => ?_⟩
  · rw [hm q _ _ hqk (by decide) (hq q hqk)]
    exact h.1 q hqk
  · rw [hm p _ _ hpk (by decide) (hs p hpk)]
    exact h.2 p hpk

/-- The links of queues and servers. -/
def Layout.LinkWrites (L : Layout RpcKind.words spr) (p : Word) (j : ℕ) : Prop :=
  L.kind p = some .queue ∧ j = Queue.link ∨ L.kind p = some .server ∧ j = Server.link

section

variable (h : L.Linked m)

include h

theorem Layout.Linked.setQueue (ha : L.kind a = some .queue) (hv : L.kind v = some .server) :
    L.Linked (setWord m (L.ptr a) Queue.link v) := by
  refine ⟨fun q hq => ?_, fun p hp => ?_⟩
  · rw [L.field_setWord ha (by decide) hq (by decide)]
    split
    · exact .inr hv
    · exact h.1 q hq
  · rw [L.field_setWord_ne ha (by decide) hp (by decide) fun heq => absurd heq (L.ne_of_kind hp ha (by decide))]
    exact h.2 p hp

theorem Layout.Linked.setServer (ha : L.kind a = some .server) (hv : L.kind v = some .server) :
    L.Linked (setWord m (L.ptr a) Server.link v) := by
  refine ⟨fun q hq => ?_, fun p hp => ?_⟩
  · rw [L.field_setWord_ne ha (by decide) hq (by decide) fun heq => absurd heq (L.ne_of_kind hq ha (by decide))]
    exact h.1 q hq
  · rw [L.field_setWord ha (by decide) hp (by decide)]
    split
    · exact .inr hv
    · exact h.2 p hp

/-- The walk to the end of a list of servers stays among the servers. -/
theorem appendServer_linked {sd cur : Word} {guard : ℕ} (hsd : L.kind sd = some .server)
    (hcur : cur = 0 ∨ L.kind cur = some .server) :
    L.Linked (appendServer spr sd guard cur m) ∧ L.Modifies m (appendServer spr sd guard cur m) L.LinkWrites := by
  induction guard generalizing cur with
  | zero => exact ⟨h, .refl⟩
  | succ guard ih =>
    by_cases hcur0 : cur = 0
    · rw [appendServer, if_pos hcur0]
      exact ⟨h, .refl⟩
    have hck := hcur.resolve_left hcur0
    have hnext := h.2 cur hck
    rw [L.field_eq hck] at hnext
    simp only [appendServer, if_neg hcur0, L.resolves hck]
    split
    · exact ⟨h.setServer hck hsd, (modifies_setWord hck (by decide)).mono fun p j hp => .inr ⟨hp.1 ▸ hck, hp.2⟩⟩
    · split
      · exact ⟨h, .refl⟩
      · exact ih hnext

theorem enlist_linked {args : RegisterArgs} (hsd : L.kind args.sdPtr = some .server)
    (hqd : args.qd = 0 ∨ L.kind args.qd = some .queue) :
    L.Linked (enlist spr args m) ∧ L.Modifies m (enlist spr args m) L.LinkWrites := by
  by_cases hqd0 : args.qd = 0
  · rw [enlist, if_pos hqd0]
    exact ⟨h, .refl⟩
  have hqk := hqd.resolve_left hqd0
  have hhead := h.1 args.qd hqk
  rw [L.field_eq hqk] at hhead
  simp only [enlist, if_neg hqd0, L.resolves hqk]
  split
  · exact ⟨h.setQueue hqk hsd, (modifies_setWord hqk (by decide)).mono fun p j hp => .inl ⟨hp.1 ▸ hqk, hp.2⟩⟩
  · exact appendServer_linked h hsd hhead

end

section

variable (sd : HostPtr) (args : RegisterArgs)

theorem rebindClient_spec (hc : L.kind c = some .client) :
    let m1 := setWord m (L.ptr c) Client.server args.sdPtr
    let m2 := setWord m1 (L.ptr c) Client.buf (word m1 sd Server.buf)
    let m3 := setWord m2 (L.ptr c) Client.cbuf (word m2 sd Server.cbuf)
    (L.Modifies m m3 fun p j => p = c ∧ j ≠ Client.pktAddr ∧ j ≠ Client.rpcId) ∧
      field spr m3 c Client.server = args.sdPtr := by
  refine ⟨(((modifies_setWord hc (by decide)).trans (modifies_setWord hc (by decide))).trans
    (modifies_setWord hc (by decide))).mono fun p j h => ?_, (linkClient_spec hc).2⟩
  obtain (⟨rfl, rfl⟩ | ⟨rfl, rfl⟩) | ⟨rfl, rfl⟩ := h <;> exact ⟨rfl, by decide, by decide⟩

theorem rebindClients_spec {clients : List (Word × RpcClientState)} (hk : ∀ e ∈ clients, L.kind e.1 = some .client) :
    (L.Modifies m (rebindClients spr args sd clients m) fun p j =>
        (∃ e ∈ clients, e.1 = p ∧ e.2.sid = args.sid) ∧ j ≠ Client.pktAddr ∧ j ≠ Client.rpcId) ∧
      ∀ c, L.kind c = some .client →
        (field spr m c Client.server = args.sdPtr ∨ ∃ e ∈ clients, e.1 = c ∧ e.2.sid = args.sid) →
        field spr (rebindClients spr args sd clients m) c Client.server = args.sdPtr := by
  induction clients generalizing m with
  | nil => exact ⟨.refl, fun c _ h => h.resolve_right fun ⟨_, he, _⟩ => nomatch he⟩
  | cons e clients ih =>
    have hek := hk e List.mem_cons_self
    have ih := fun m => @ih m fun e he => hk e (List.mem_cons_of_mem _ he)
    have hmem : ∀ p, (∃ e ∈ clients, e.1 = p ∧ e.2.sid = args.sid) → ∃ e' ∈ e :: clients, e'.1 = p ∧ e'.2.sid = args.sid :=
      fun p ⟨e', he', h⟩ => ⟨e', List.mem_cons_of_mem _ he', h⟩
    by_cases hsid : e.2.sid = args.sid
    · obtain ⟨hmod, hserver⟩ := rebindClient_spec (m := m) sd args hek
      set m3 := setWord _ (L.ptr e.1) Client.cbuf _ with hm3
      have hstep : rebindClients spr args sd (e :: clients) m = rebindClients spr args sd clients m3 := by
        rw [rebindClients, List.foldl_cons, ← rebindClients, if_pos hsid, L.resolves hek]
      obtain ⟨hmod', hserver'⟩ := ih m3
      rw [hstep]
      refine ⟨(hmod.trans hmod').mono fun p j h => ?_, fun c hc h => hserver' c hc ?_⟩
      · obtain ⟨rfl, h⟩ | ⟨h, h'⟩ := h
        · exact ⟨⟨e, List.mem_cons_self, rfl, hsid⟩, h⟩
        · exact ⟨hmem p h, h'⟩
      · by_cases hce : c = e.1
        · exact .inl (hce ▸ hserver)
        · obtain h | ⟨e', he', rfl, hsid'⟩ := h
          · exact .inl ((hmod c _ _ hc (by decide) fun h => hce h.1).trans h)
          · obtain rfl | he' := List.mem_cons.1 he'
            · exact absurd rfl hce
            · exact .inr ⟨e', he', rfl, hsid'⟩
    · have hstep : rebindClients spr args sd (e :: clients) m = rebindClients spr args sd clients m := by
        rw [rebindClients, List.foldl_cons, ← rebindClients, if_neg hsid]
      obtain ⟨hmod', hserver'⟩ := ih m
      rw [hstep]
      refine ⟨hmod'.mono fun p j h => ⟨hmem p h.1, h.2⟩, fun c hc h => hserver' c hc (h.imp_right ?_)⟩
      rintro ⟨e', he', rfl, hsid'⟩
      obtain rfl | he' := List.mem_cons.1 he'
      · exact absurd hsid' hsid
      · exact ⟨e', he', rfl, hsid'⟩

end

/-- What holds between the steps of a run. -/
structure Sound (L : Layout RpcKind.words spr) (s : RpcState) (t : Ties) : Prop where
  tied : Tied L s.memory t
  spr : s.scratchpadMapped = spr
  linked : L.Linked s.memory
  clients_kind : ∀ e ∈ s.clients, L.kind e.1 = some .client
  clients_bound : ∀ e ∈ s.clients, e.2.sid ≠ 0 → t.bound e.1 = some e.2.sid
  servers_kind : ∀ id sd, s.servers id = some sd → L.IsServer sd

theorem mem_of_findClient {e : RpcClientState} (h : s.findClient c = some e) : (c, e) ∈ s.clients := by
  obtain ⟨l1, l2, hl, -⟩ := List.lookup_eq_some_iff.1 h
  rw [hl]
  exact List.mem_append_right l1 List.mem_cons_self

theorem mem_putClient {e : Word × RpcClientState} {v : RpcClientState} (h : e ∈ (s.putClient c v).clients) :
    e = (c, v) ∨ e.1 ≠ c ∧ e ∈ s.clients := by
  obtain h | h := List.mem_cons.1 h
  · exact .inl h
  · obtain ⟨h, hne⟩ := List.mem_filter.1 h
    exact .inr ⟨of_decide_eq_true hne, h⟩

namespace Sound

section

variable (h : Sound L s t)

include h

theorem findClient_bound (hne : ((s.findClient c).getD {}).sid ≠ 0) :
    t.bound c = some ((s.findClient c).getD {}).sid := by
  cases he : s.findClient c with
  | none =>
    rw [he] at hne
    exact absurd rfl hne
  | some e =>
    rw [he] at hne
    exact h.clients_bound _ (mem_of_findClient he) hne

theorem init : Sound L (sifInitRpc s) t := by
  rw [sifInitRpc]
  split
  · exact h
  · exact ⟨h.tied, h.spr, h.linked, (fun _ he => nomatch he), (fun _ he => nomatch he), fun _ _ hs => nomatch hs⟩

section

variable (hpools : L.HasPools)

include hpools

theorem write (hm : L.KeepsTies s.memory m) (hl : L.Linked m) : Sound L { s with memory := m } t := by
  refine ⟨⟨h.tied.settled_kind, h.tied.bound_kind, h.tied.pending_kind, fun c hc => ?_, fun c id hc => ?_⟩, h.spr, hl,
    h.clients_kind, h.clients_bound, h.servers_kind⟩
  · have hck := h.tied.settled_kind c hc
    have hpk := h.tied.packet_kind hpools hc
    obtain ⟨hpool, hready, hid, hown⟩ := h.tied.packet c hc
    have hpkt := hm.1 c hck Client.pktAddr (by simp)
    refine ⟨hpkt ▸ hpool, ?_, ?_, ?_⟩
    · rw [hpkt, hm.2.1 _ hpk _ (by simp), hready]
    · rw [hpkt, hm.2.1 _ hpk _ (by simp), hid, hm.1 c hck Client.rpcId (by simp)]
    · rw [hpkt, hm.2.1 _ hpk _ (by simp), hown]
  · obtain ⟨hserver, hsid⟩ := h.tied.server c id hc
    have hserver' := hm.1 c (h.tied.bound_kind c id hc) Client.server (by simp)
    refine ⟨hserver' ▸ hserver, ?_⟩
    rw [hserver', hm.2.2 _ hserver, hsid]

theorem allocHandle (hfree : SlotFree spr s t fun _ => True) : Sound L s.rpcAllocServerAddr.1 t := by
  have hslot := hpools.2 s.serverIndex
  have hmod : L.Modifies s.memory s.rpcAllocServerAddr.1.memory fun p _ => p = slotAt s.serverIndex := by
    have hsize : kRpcServerStride.toNat = 128 := rfl
    simp only [RpcState.rpcAllocServerAddr, h.spr, hsize]
    exact modifies_zeroSlot hpools _
  have hne : ∀ p k, L.kind p = some k → k ≠ .slot → p ≠ slotAt s.serverIndex :=
    fun _ _ hp => L.ne_of_kind hp hslot
  refine ⟨h.tied.modifies hpools hmod (fun _ => id) (fun _ _ => id) h.tied.pending_kind (fun c hc => ?_)
    (fun c id hc => ?_), h.spr, ?_, h.clients_kind, h.clients_bound, h.servers_kind⟩
  · have hck := hne c _ (h.tied.settled_kind c hc) (by decide)
    exact ⟨hck, hck, fun _ _ => hne _ _ (h.tied.packet_kind hpools hc) (by decide)⟩
  · exact ⟨hne c _ (h.tied.bound_kind c id hc) (by decide), hfree c trivial (hc ▸ nofun)⟩
  · exact h.linked.modifies hmod (fun q hq => hne q _ hq (by decide)) fun p hp => hne p _ hp (by decide)

theorem endCall (hc : c ∈ t.pending) (hfree : PacketFree spr s t c) :
    Sound L (SifRpc.endCall s c) ((ClientStep.endCall c).note t) := by
  have hck := h.tied.pending_kind c hc
  have hptr : s.ptr c = some (L.ptr c) := by
    rw [RpcState.ptr, h.spr, L.resolves hck]
  obtain ⟨m', hreply, hmod, hpkt, hpacket⟩ := reply_spec hpools h.spr hck
  have hpk := hpools.1 s.packetIndex
  have hne : ∀ p k, L.kind p = some k → k ≠ .packet → p ≠ packetAt s.packetIndex :=
    fun _ _ hp => L.ne_of_kind hp hpk
  have hkeep : ∀ p k, L.kind p = some k → k ≠ .packet → ∀ j, (p = c → j ≠ Client.pktAddr) →
      ¬ (p = packetAt s.packetIndex ∨ p = c ∧ j = Client.pktAddr) := by
    rintro p k hp hk j hj (h | ⟨h, h'⟩)
    · exact hne p k hp hk h
    · exact hj h h'
  have hrest : Tied L m' { t with settled := Function.update t.settled c false, pending := t.pending.erase c } := by
    refine h.tied.modifies hpools hmod (fun _ hc' => (of_update_false hc').2) (fun _ _ => id)
      (fun c' hc' => h.tied.pending_kind c' (List.mem_of_mem_erase hc')) (fun c' hc' => ?_) fun c' id hc' => ?_
    · obtain ⟨hcc, hc'⟩ := of_update_false hc'
      have hck' := h.tied.settled_kind c' hc'
      refine ⟨hkeep c' _ hck' (by decide) _ fun h => absurd h hcc, hkeep c' _ hck' (by decide) _ fun h => absurd h hcc,
        fun i _ => ?_⟩
      rintro (h' | ⟨h', -⟩)
      · exact hfree c' hcc hc' h'
      · exact L.ne_of_kind (h.tied.packet_kind hpools hc') hck (by decide) h'
    · refine ⟨hkeep c' _ (h.tied.bound_kind c' id hc') (by decide) _ fun _ => by decide, ?_⟩
      obtain ⟨k, hk, -, hk', hk''⟩ := (h.tied.server c' id hc').isServer.kind
      exact hkeep _ k hk hk'' _ fun heq => absurd heq (L.ne_of_kind hk hck hk')
  have htied : Tied L m' ((ClientStep.endCall c).note t) := hrest.settle hck hpacket
  have hsid : ∀ e : RpcClientState, { e with busy := false }.sid = e.sid := fun _ => rfl
  simp only [SifRpc.endCall, hptr, hreply]
  refine ⟨htied, h.spr, ?_, fun e he => ?_, fun e he hne => ?_, h.servers_kind⟩
  · refine h.linked.modifies hmod (fun q hq => hkeep q _ hq (by decide) _ fun _ => by decide)
      fun p hp => hkeep p _ hp (by decide) _ fun _ => by decide
  · obtain rfl | ⟨-, he⟩ := mem_putClient he
    · exact hck
    · exact h.clients_kind e he
  · obtain rfl | ⟨-, he⟩ := mem_putClient he
    · exact h.findClient_bound hne
    · exact h.clients_bound e he hne

theorem beginCall {args : CallArgs} (hc : L.kind args.clientPtr = some .client)
    (hbound : t.bound args.clientPtr ≠ none ∨ field spr s.memory args.clientPtr Client.server = 0)
    (hkeep : (ClientStep.beginCall args).Keeps spr s t) :
    Sound L ((ClientStep.beginCall args).run s) ((ClientStep.beginCall args).note t) := by
  set c := args.clientPtr with hcdef
  -- the server that is called is one of the client's service, or there is none
  have hcallee : (callee spr s c = 0 ∧ t.bound c = none) ∨ ∃ id, t.bound c = some id ∧
      L.IsServer (callee spr s c) ∧ field spr s.memory (callee spr s c) Server.sid = id := by
    set sid := ((s.findClient c).getD {}).sid with hsid
    have hdef : callee spr s c = if (if sid ≠ 0 then (s.servers sid).getD 0 else 0) ≠ 0 then
      (if sid ≠ 0 then (s.servers sid).getD 0 else 0) else field spr s.memory c Client.server := rfl
    by_cases hmap : (if sid ≠ 0 then (s.servers sid).getD 0 else 0) ≠ 0
    · rw [if_pos hmap] at hdef
      have hsid0 : sid ≠ 0 := by
        intro h0
        rw [if_neg (not_not_intro h0)] at hmap
        exact hmap rfl
      rw [if_pos hsid0] at hdef hmap
      obtain ⟨sd, hsd⟩ : ∃ sd, s.servers sid = some sd := by
        cases hs : s.servers sid with
        | none =>
          rw [hs] at hmap
          exact absurd rfl hmap
        | some sd => exact ⟨sd, rfl⟩
      have hentry : (s.findClient c).map RpcClientState.sid = some sid := by
        cases he : s.findClient c with
        | none =>
          rw [hsid, he] at hsid0
          exact absurd rfl hsid0
        | some e =>
          rw [hsid, he]
          rfl
      rw [hsd, Option.getD_some] at hdef
      exact .inr ⟨sid, h.findClient_bound hsid0, hdef ▸ h.servers_kind sid sd hsd, hdef ▸ hkeep sid sd hentry hsid0 hsd⟩
    · rw [if_neg hmap] at hdef
      cases hb : t.bound c with
      | none => exact .inl ⟨hdef.trans (hbound.resolve_left fun hne => hne hb), rfl⟩
      | some id =>
        obtain ⟨hserver, hsid⟩ := h.tied.server c id hb
        exact .inr ⟨id, rfl, hdef ▸ hserver, hdef ▸ hsid⟩
  obtain ⟨m', e, hrun, hesid, hmod, hserver⟩ := beginCall_spec args h.spr hc
    (hcallee.imp And.left fun ⟨_, _, h, _⟩ => h)
  rw [← hcdef] at hrun hesid hmod hserver
  have hne : ∀ p k, L.kind p = some k → k ≠ .client → k ≠ .server → k ≠ .slot → ∀ j,
      ¬ BeginWrites c (callee spr s c) p j := by
    rintro p k hp hkc hks hkl j (⟨rfl, -⟩ | ⟨rfl, -⟩)
    · exact hkc (Option.some_inj.1 (hp.symm.trans hc))
    · obtain ⟨h0, -⟩ | ⟨id, -, hserver, -⟩ := hcallee
      · exact L.ne_zero hp h0
      · obtain hs | hs := hserver
        · exact hks (Option.some_inj.1 (hp.symm.trans hs))
        · exact hkl (Option.some_inj.1 (hp.symm.trans hs))
  have hclient : ∀ c' j, L.kind c' = some .client → (c' = c → j = Client.pktAddr ∨ j = Client.rpcId) →
      ¬ BeginWrites c (callee spr s c) c' j := by
    rintro c' j hc' hj (⟨rfl, h1, h2⟩ | ⟨rfl, -⟩)
    · exact (hj rfl).elim h1 h2
    · obtain ⟨h0, -⟩ | ⟨id, -, hserver, -⟩ := hcallee
      · exact L.ne_zero hc' h0
      · obtain ⟨k, hk, -, hk', -⟩ := hserver.kind
        exact hk' (Option.some_inj.1 (hk.symm.trans hc'))
  have hsidkeep : ∀ p, L.IsServer p → ¬ BeginWrites c (callee spr s c) p Server.sid := by
    rintro p hp (⟨rfl, -⟩ | ⟨-, h1, -⟩)
    · obtain ⟨k, hk, -, hk', -⟩ := hp.kind
      exact hk' (Option.some_inj.1 (hk.symm.trans hc))
    · exact h1 rfl
  have hrest : Tied L m' ⟨Function.update t.bound c none, Function.update t.settled c false, c :: t.pending⟩ := by
    refine h.tied.modifies hpools hmod (fun _ hc' => (of_update_false hc').2) (fun _ _ hc' => (of_update_none hc').2)
      (fun c' hc' => ?_) (fun c' hc' => ?_) fun c' id hc' => ?_
    · obtain rfl | hc' := List.mem_cons.1 hc'
      · exact hc
      · exact h.tied.pending_kind c' hc'
    · obtain ⟨hcc, hc'⟩ := of_update_false hc'
      have hck' := h.tied.settled_kind c' hc'
      have hnone : ∀ j, ¬ BeginWrites c (callee spr s c) c' j := fun j =>
        hclient c' j hck' fun heq => absurd heq hcc
      exact ⟨hnone _, hnone _, fun i _ => hne _ _ (h.tied.packet_kind hpools hc') (by decide) (by decide) (by decide) i⟩
    · obtain ⟨hcc, hc'⟩ := of_update_none hc'
      exact ⟨hclient c' _ (h.tied.bound_kind c' id hc') fun heq => absurd heq hcc,
        hsidkeep _ (h.tied.server c' id hc').isServer⟩
  have htied : Tied L m' ((ClientStep.beginCall args).note t) := by
    obtain ⟨-, hnone⟩ | ⟨id, hid, hcal, hcsid⟩ := hcallee
    · rw [← hnone, Function.update_eq_self] at hrest
      exact hrest
    · have hfinal : Tied L m' ⟨Function.update t.bound c (some id), _, _⟩ := hrest.bind hc ⟨hserver.symm ▸ hcal, ?_⟩
      · rw [← hid, Function.update_eq_self] at hfinal
        exact hfinal
      · obtain ⟨k, hk, hwords, -⟩ := hcal.kind
        rw [hserver, hmod _ k Server.sid hk (by rw [Server.sid]; omega) (hsidkeep _ hcal), hcsid]
  have hlinked : L.Linked m' := by
    refine h.linked.modifies hmod (fun q hq => hne q _ hq (by decide) (by decide) (by decide) _) fun p hp => ?_
    rintro (⟨rfl, -⟩ | ⟨-, -, h2⟩)
    · exact absurd (hp.symm.trans hc) (by decide)
    · exact h2 rfl
  simp only [ClientStep.run, hrun, Option.getD_some]
  refine ⟨htied, h.spr, hlinked, fun e' he => ?_, fun e' he hne' => ?_, h.servers_kind⟩
  · obtain rfl | ⟨-, he⟩ := mem_putClient he
    · exact hc
    · exact h.clients_kind e' he
  · obtain rfl | ⟨-, he⟩ := mem_putClient he
    · simp only [hesid] at hne' ⊢
      exact h.findClient_bound hne'
    · exact h.clients_bound e' he hne'

theorem bind {mode : Word} (hc : L.kind c = some .client) (hkeep : (ClientStep.bind c id mode).Keeps spr s t) :
    Sound L ((ClientStep.bind c id mode).run s) ((ClientStep.bind c id mode).note t) := by
  obtain ⟨hfree, hserver⟩ := hkeep
  have hsd : ∀ sd, s.servers id = some sd → L.IsServer sd ∧ field spr s.memory sd Server.sid = id := by
    intro sd hs
    rw [hs] at hserver
    exact ⟨h.servers_kind id sd hs, hserver.2⟩
  have hslot : s.servers id = none → SlotFree spr s t (· ≠ c) := by
    intro hs
    rw [hs] at hserver
    exact hserver
  obtain ⟨hspr, hclients, hservers, hmod, hpacket, hhas, -, -⟩ := bind_spec id mode hpools h.spr hc hsd
  have hpk := hpools.1 s.packetIndex
  have hsk := hpools.2 s.serverIndex
  have hne : ∀ p k, L.kind p = some k → k ≠ .client → k ≠ .packet → k ≠ .slot → ¬ BindWrites s c id p := by
    rintro p k hp hkc hkp hks (rfl | rfl | ⟨-, rfl⟩)
    · exact hkc (Option.some_inj.1 (hp.symm.trans hc))
    · exact hkp (Option.some_inj.1 (hp.symm.trans hpk))
    · exact hks (Option.some_inj.1 (hp.symm.trans hsk))
  have hclient : ∀ c', L.kind c' = some .client → c' ≠ c → ¬ BindWrites s c id c' := by
    rintro c' hc' hcc (rfl | rfl | ⟨-, rfl⟩)
    · exact hcc rfl
    · exact absurd (hc'.symm.trans hpk) (by decide)
    · exact absurd (hc'.symm.trans hsk) (by decide)
  have hrest : Tied L (sifBindRpc s c id mode).1.memory
      ⟨Function.update t.bound c none, Function.update t.settled c false, t.pending⟩ := by
    refine h.tied.modifies hpools hmod (fun _ hc' => (of_update_false hc').2) (fun _ _ hc' => (of_update_none hc').2)
      h.tied.pending_kind (fun c' hc' => ?_) fun c' id' hc' => ?_
    · obtain ⟨hcc, hc'⟩ := of_update_false hc'
      have hck' := hclient c' (h.tied.settled_kind c' hc') hcc
      have hpk' := h.tied.packet_kind hpools hc'
      refine ⟨hck', hck', fun i _ => ?_⟩
      rintro (heq | heq | ⟨-, heq⟩)
      · exact absurd (hc.symm.trans (heq ▸ hpk')) (by decide)
      · exact hfree c' hcc hc' heq
      · exact absurd (hsk.symm.trans (heq ▸ hpk')) (by decide)
    · obtain ⟨hcc, hc'⟩ := of_update_none hc'
      refine ⟨hclient c' (h.tied.bound_kind c' id' hc') hcc, ?_⟩
      obtain ⟨k, hk, -, hkc, hkp⟩ := (h.tied.server c' id' hc').isServer.kind
      rintro (heq | heq | ⟨hs, heq⟩)
      · exact hkc (Option.some_inj.1 ((heq ▸ hk).symm.trans hc))
      · exact hkp (Option.some_inj.1 ((heq ▸ hk).symm.trans hpk))
      · exact hslot hs c' hcc (hc' ▸ nofun) heq
  have htied : Tied L (sifBindRpc s c id mode).1.memory ((ClientStep.bind c id mode).note t) :=
    (hrest.settle hc hpacket).bind hc hhas
  refine ⟨htied, hspr, ?_, fun e he => ?_, fun e he hne' => ?_, fun id' sd hsd' => ?_⟩
  · exact h.linked.modifies hmod (fun q hq => hne q _ hq (by decide) (by decide) (by decide))
      fun p hp => hne p _ hp (by decide) (by decide) (by decide)
  · rw [ClientStep.run, hclients] at he
    obtain rfl | ⟨-, he⟩ := mem_putClient he
    · exact hc
    · exact h.clients_kind e he
  · rw [ClientStep.run, hclients] at he
    obtain rfl | ⟨hcc, he⟩ := mem_putClient he
    · exact Function.update_self ..
    · exact (Function.update_of_ne hcc ..).trans (h.clients_bound e he hne')
  · rw [ClientStep.run, hservers] at hsd'
    exact isServer_serversBound hpools h.servers_kind hsd'

end

end

theorem register (args : RegisterArgs) (h : Sound L s t) (hpools : L.HasPools)
    (hsd : L.kind args.sdPtr = some .server) (hqd : args.qd = 0 ∨ L.kind args.qd = some .queue)
    (hkeep : ∀ c id, t.bound c = some id →
      (field spr s.memory c Client.server = args.sdPtr ∨ ∃ e ∈ s.clients, e.1 = c ∧ e.2.sid = args.sid) →
      id = args.sid) : Sound L (registerRpc s args).1 t := by
  have hptr : s.ptr args.sdPtr = some (L.ptr args.sdPtr) := by
    rw [RpcState.ptr, h.spr, L.resolves hsd]
  have hwords : ∀ e ∈ args.fields, e.1 < RpcKind.server.words := by
    have hpositions : ∀ j ∈ [0, 1, 2, 3, 4, 5, 6, 7, 8, 9, 10, 11, 12, 13, 16, 14, 15], j < 17 := by decide
    exact fun e he => hpositions e.1 (List.mem_map_of_mem (f := Prod.fst) he)
  set m1 := setWords s.memory (L.ptr args.sdPtr) args.fields with hm1
  have hmod1 : L.Modifies s.memory m1 fun p _ => p = args.sdPtr :=
    (modifies_setWords hsd hwords).mono fun p j h => h.1
  have hsid1 : field spr m1 args.sdPtr Server.sid = args.sid := by
    rw [hm1, L.field_setWords_self hsd hwords (by decide)]
    rfl
  have hlinked1 : L.Linked m1 := by
    refine ⟨fun q hq => ?_, fun p hp => ?_⟩
    · rw [hmod1 q _ _ hq (by decide) fun heq => absurd ((heq ▸ hq).symm.trans hsd) (by decide)]
      exact h.linked.1 q hq
    · by_cases hps : p = args.sdPtr
      · rw [hps, hm1, L.field_setWords_self hsd hwords (by decide)]
        exact .inl rfl
      · rw [hmod1 p _ _ hp (by decide) hps]
        exact h.linked.2 p hp
  obtain ⟨hlinked2, hmod2⟩ := enlist_linked hlinked1 hsd hqd
  set m2 := enlist spr args m1 with hm2
  obtain ⟨hmod3, hserver3⟩ := rebindClients_spec (m := m2) (L.ptr args.sdPtr) args h.clients_kind
  set m3 := rebindClients spr args (L.ptr args.sdPtr) s.clients m2 with hm3
  have hrun : (registerRpc s args).1 =
      { s with memory := m3, servers := Function.update s.servers args.sid (some args.sdPtr) } := by
    simp only [registerRpc, hptr, h.spr]
    rfl
  have hmod := (hmod1.trans hmod2).trans hmod3
  -- which fields stay: those of packets, and of clients but their servers and buffers
  have hpacket : ∀ p, L.kind p = some .packet → ∀ i, ¬ ((p = args.sdPtr ∨ L.LinkWrites p i) ∨
      (∃ e ∈ s.clients, e.1 = p ∧ e.2.sid = args.sid) ∧ i ≠ Client.pktAddr ∧ i ≠ Client.rpcId) := by
    rintro p hp i ((rfl | ⟨hk, -⟩ | ⟨hk, -⟩) | ⟨⟨e, he, rfl, -⟩, -⟩)
    · exact absurd (hp.symm.trans hsd) (by decide)
    · exact absurd (hp.symm.trans hk) (by decide)
    · exact absurd (hp.symm.trans hk) (by decide)
    · exact absurd (hp.symm.trans (h.clients_kind e he)) (by decide)
  have hclient : ∀ c, L.kind c = some .client → ∀ i, (∀ e ∈ s.clients, e.1 = c → e.2.sid = args.sid →
      i = Client.pktAddr ∨ i = Client.rpcId) → ¬ ((c = args.sdPtr ∨ L.LinkWrites c i) ∨
        (∃ e ∈ s.clients, e.1 = c ∧ e.2.sid = args.sid) ∧ i ≠ Client.pktAddr ∧ i ≠ Client.rpcId) := by
    rintro c hc i hi ((rfl | ⟨hk, -⟩ | ⟨hk, -⟩) | ⟨⟨e, he, rfl, hsid⟩, h1, h2⟩)
    · exact absurd (hc.symm.trans hsd) (by decide)
    · exact absurd (hc.symm.trans hk) (by decide)
    · exact absurd (hc.symm.trans hk) (by decide)
    · exact (hi e he rfl hsid).elim h1 h2
  have hsid : ∀ p, L.IsServer p → p ≠ args.sdPtr → field spr m3 p Server.sid = field spr s.memory p Server.sid := by
    intro p hp hne
    obtain ⟨k, hk, hkw, hkc, -⟩ := hp.kind
    refine hmod p k _ hk (by rw [Server.sid]; omega) ?_
    rintro ((heq | ⟨-, hj⟩ | ⟨-, hj⟩) | ⟨⟨e, he, rfl, -⟩, -⟩)
    · exact hne heq
    · cases hj
    · cases hj
    · exact hkc (Option.some_inj.1 (hk.symm.trans (h.clients_kind e he)))
  have hsd3 : field spr m3 args.sdPtr Server.sid = args.sid := by
    refine Eq.trans ?_ hsid1
    refine (hmod2.trans hmod3) _ _ _ hsd (by decide) ?_
    rintro ((⟨-, hj⟩ | ⟨-, hj⟩) | ⟨⟨e, he, heq, -⟩, -⟩)
    · cases hj
    · cases hj
    · exact absurd ((heq ▸ hsd).symm.trans (h.clients_kind e he)) (by decide)
  have htied : Tied L m3 t := by
    refine ⟨h.tied.settled_kind, h.tied.bound_kind, h.tied.pending_kind, fun c hc => ?_, fun c id hc => ?_⟩
    · have hck := h.tied.settled_kind c hc
      exact (h.tied.packet c hc).modifies hpools hck hmod (hclient c hck _ fun _ _ _ _ => .inl rfl)
        (hclient c hck _ fun _ _ _ _ => .inr rfl) fun i _ => hpacket _ (h.tied.packet_kind hpools hc) i
    · have hck := h.tied.bound_kind c id hc
      obtain ⟨hserver, hsidc⟩ := h.tied.server c id hc
      by_cases hgets : field spr s.memory c Client.server = args.sdPtr ∨ ∃ e ∈ s.clients, e.1 = c ∧ e.2.sid = args.sid
      · -- the client has the registered server, of its own service
        have hnew : field spr m3 c Client.server = args.sdPtr := by
          refine hserver3 c hck (hgets.imp_left fun heq => ?_)
          refine Eq.trans ?_ heq
          refine (hmod1.trans hmod2) c _ _ hck (by decide) ?_
          rintro (rfl | ⟨hk, -⟩ | ⟨hk, -⟩)
          · exact absurd (hck.symm.trans hsd) (by decide)
          · exact absurd (hck.symm.trans hk) (by decide)
          · exact absurd (hck.symm.trans hk) (by decide)
        exact ⟨hnew ▸ .inl hsd, by rw [hnew, hsd3, hkeep c id hc hgets]⟩
      · rw [not_or] at hgets
        have hold : field spr m3 c Client.server = field spr s.memory c Client.server :=
          hmod c _ _ hck (by decide) (hclient c hck _ fun e he h1 h2 => absurd ⟨e, he, h1, h2⟩ hgets.2)
        exact ⟨hold ▸ hserver, by rw [hold, hsid _ hserver hgets.1, hsidc]⟩
  have hlinked : L.Linked m3 := by
    refine hlinked2.modifies hmod3 (fun q hq => ?_) fun p hp => ?_
    · rintro ⟨⟨e, he, rfl, -⟩, -⟩
      exact absurd (hq.symm.trans (h.clients_kind e he)) (by decide)
    · rintro ⟨⟨e, he, rfl, -⟩, -⟩
      exact absurd (hp.symm.trans (h.clients_kind e he)) (by decide)
  rw [hrun]
  refine ⟨htied, h.spr, hlinked, h.clients_kind, h.clients_bound, fun id sd hs => ?_⟩
  by_cases hid : id = args.sid
  · rw [hid] at hs
    simp only [Function.update_self, Option.some.injEq] at hs
    exact hs ▸ .inl hsd
  · simp only [Function.update_of_ne hid] at hs
    exact h.servers_kind id sd hs

end Sound

/-! ### Runs -/

theorem Sound.start (hspr : s.scratchpadMapped = spr) (hs : ∀ id, s.servers id = none) (hc : s.clients = [])
    (hm : L.Linked s.memory) : Sound L s .empty where
  tied := ⟨nofun, nofun, nofun, nofun, nofun⟩
  spr := hspr
  linked := hm
  clients_kind := by simp [hc]
  clients_bound := by simp [hc]
  servers_kind := fun id sd h => nomatch (hs id).symm.trans h

/-- **A step** that `ClientStep.Keeps` allows. -/
theorem Sound.step {c : ClientStep} (h : Sound L s t) (hpools : L.HasPools) (hc : c.OnRecords L s t)
    (hk : c.Keeps spr s t) : Sound L (c.run s) (c.note t) := by
  cases c with
  | init => exact h.init
  | bind clientPtr rpcId mode => exact h.bind hpools hc hk
  | register sdPtr sid func buf sp =>
    exact h.register (s.registerArgs sdPtr sid func buf sp) hpools hc.1 hc.2 hk
  | beginCall args => exact h.beginCall hpools hc.1 hc.2 hk
  | endCall clientPtr => exact h.endCall hpools hc hk
  | allocHandle => exact h.allocHandle hpools hk
  | write m => exact h.write hpools hc.1 hc.2

/-- **The clients of a run** whose steps `ClientStep.Keeps` allows have valid packets and servers. -/
theorem clientsValid_of_keeps (hpools : L.HasPools)
    (h : ClientReach L (fun s t c => c.OnRecords L s t ∧ c.Keeps spr s t) s t) : ClientsValid spr s t := by
  have hsound : Sound L s t := by
    induction h with
    | start s hspr hs hc hm => exact .start hspr hs hc hm
    | step c _ hc ih => exact ih.step hpools hc.1 hc.2
  intro c hc
  obtain ⟨hpool, hready, hid, hown⟩ := hsound.tied.packet c hc
  refine ⟨hpool, hready, hid, hown, fun id hb => ?_⟩
  obtain ⟨hserver, hsid⟩ := hsound.tied.server c id hb
  obtain ⟨k, hk, -⟩ := hserver.kind
  exact ⟨L.ne_zero hk, hsid⟩

/-! ### More binds than packets -/

namespace Pool

def client : Word := 0x1000

def other : Word := 0x2000

def layout : Layout RpcKind.words false where
  kind p :=
    if p = client ∨ p = other then some .client
    else if 0x01F00000 ≤ p.toNat ∧ p.toNat < 0x01F10000 ∧ p.toNat % 64 = 0 then some .packet
    else if 0x01F10000 ≤ p.toNat ∧ p.toNat < 0x01F20000 ∧ p.toNat % 128 = 0 then some .slot
    else none
  ptr p := ⟨false, p.toNat⟩
  ne_zero := by
    intro p k h
    rintro rfl
    cases h
  resolves := by
    intro p k h
    split at h
    · rename_i hp
      obtain rfl | rfl := hp <;> rfl
    · split at h
      · exact getMemPtr_pool (by omega) (by omega)
      · split at h
        · exact getMemPtr_pool (by omega) (by omega)
        · cases h
  apart := by
    intro p q k k' hp hq hne _
    have hne' : p.toNat ≠ q.toNat := fun h => hne (BitVec.eq_of_toNat_eq h)
    have hclient : client.toNat = 0x1000 := rfl
    have hother : other.toNat = 0x2000 := rfl
    have hsmall : ∀ a : Word, a = client ∨ a = other → a.toNat = 0x1000 ∨ a.toNat = 0x2000 := by
      rintro a (rfl | rfl)
      · exact .inl hclient
      · exact .inr hother
    split at hp <;> split at hq <;> grind [RpcKind.words]

theorem ne_of_pool {a : Word} (h : 0x01F00000 ≤ a.toNat) : ¬ (a = client ∨ a = other) := by
  rintro (rfl | rfl)
  · exact absurd h (by decide)
  · exact absurd h (by decide)

theorem hasPools : layout.HasPools := by
  refine ⟨fun index => ?_, fun index => ?_⟩
  · have hlt : index.toNat % 1024 < 1024 := Nat.mod_lt _ (by decide)
    have hnat := packetAt_toNat index
    exact (if_neg (ne_of_pool (by omega))).trans (if_pos ⟨by omega, by omega, by omega⟩)
  · have hlt : index.toNat % 512 < 512 := Nat.mod_lt _ (by decide)
    have hnat := slotAt_toNat index
    exact (if_neg (ne_of_pool (by omega))).trans ((if_neg fun h => by omega).trans
      (if_pos ⟨by omega, by omega, by omega⟩))

theorem linked (m : GuestMemory) : layout.Linked m := by
  have hkind : ∀ p k, layout.kind p = some k → k ≠ .queue ∧ k ≠ .server := by
    intro p k h
    simp only [layout] at h
    split at h
    · cases h
      decide
    · split at h
      · cases h
        decide
      · split at h
        · cases h
          decide
        · cases h
  exact ⟨fun q hq => absurd rfl (hkind q _ hq).1, fun p hp => absurd rfl (hkind p _ hp).2⟩

def start : RpcState where
  memory := ⟨fun _ => 0, fun _ => 0⟩
  scratchpadMapped := false
  initialized := true
  servers := fun _ => none
  clients := []
  nextId := 1
  packetIndex := 0
  serverIndex := 0
  activeQueue := 0

def first : ClientStep := .bind client 5 0

def again : ClientStep := .bind other 5 0

theorem keeps_first : first.Keeps false start .empty :=
  ⟨(fun _ _ h => nomatch h), fun _ _ h => absurd rfl h⟩

/-- Behind the first bind and `n` binds of the other client. -/
def after : ℕ → RpcState × Ties
  | 0 => (first.run start, first.note .empty)
  | n + 1 => (again.run (after n).1, again.note (after n).2)

/-- The first client has the first packet, and each bind of the other one takes the next. -/
structure Bound (n : ℕ) : Prop where
  reach : ClientReach layout (fun s t c => c.OnRecords layout s t) (after n).1 (after n).2
  spr : (after n).1.scratchpadMapped = false
  service : (after n).1.servers 5 = some (slotAt 0)
  sid : field false (after n).1.memory (slotAt 0) Server.sid = 5
  pktAddr : field false (after n).1.memory client Client.pktAddr = packetAt 0
  packetIndex : (after n).1.packetIndex = BitVec.ofNat 32 (n + 1)
  settled : (after n).2.settled client = true

theorem kind_client : layout.kind client = some .client := rfl

theorem kind_other : layout.kind other = some .client := rfl

theorem bound_zero : Bound 0 where
  reach := by
    have hstart : ClientReach layout (fun s t c => c.OnRecords layout s t) start .empty :=
      .start _ rfl (fun _ => rfl) rfl (linked _)
    exact hstart.step first kind_client
  spr := by decide +kernel
  service := by decide +kernel
  sid := by decide +kernel
  pktAddr := by decide +kernel
  packetIndex := by decide +kernel
  settled := by decide +kernel

/-- What a bind of the other client does. -/
theorem again_spec {n : ℕ} (h : Bound n) : Bound (n + 1) ∧ HasPacket false (after (n + 1)).1.memory other ∧
    field false (after (n + 1)).1.memory other Client.pktAddr = packetAt (after n).1.packetIndex := by
  have hslot : layout.kind (slotAt 0) = some .slot := hasPools.2 0
  obtain ⟨hspr, -, hservers, hmod, hpacket, -, hindex, hpkt⟩ :=
    bind_spec (L := layout) (s := (after n).1) (c := other) 5 0 hasPools h.spr kind_other fun sd hs => by
      rw [h.service] at hs
      cases hs
      exact ⟨.inr hslot, h.sid⟩
  have hpk := hasPools.1 (after n).1.packetIndex
  have hkeep : ∀ p k, layout.kind p = some k → p ≠ other → k ≠ .packet → ¬ BindWrites (after n).1 other 5 p := by
    rintro p k hp hne hk (rfl | rfl | ⟨hs, -⟩)
    · exact hne rfl
    · exact hk (Option.some_inj.1 (hp.symm.trans hpk))
    · rw [h.service] at hs
      cases hs
  refine ⟨⟨.step again h.reach kind_other, hspr, ?_, ?_, ?_, ?_, ?_⟩, hpacket, hpkt⟩
  · refine (congrFun hservers 5).trans ?_
    rw [serversBound, h.service]
    exact h.service
  · refine (hmod _ _ Server.sid hslot (by decide) (hkeep _ _ hslot (by decide) (by decide))).trans h.sid
  · refine (hmod _ _ Client.pktAddr kind_client (by decide) (hkeep _ _ kind_client (by decide) (by decide))).trans
      h.pktAddr
  · refine hindex.trans ?_
    rw [h.packetIndex]
    exact (BitVec.ofNat_add (n + 1) 1).symm
  · have hne : client ≠ other := by decide
    have hsettled : (after (n + 1)).2.settled = Function.update (after n).2.settled other true := rfl
    rw [hsettled, Function.update_of_ne hne]
    exact h.settled

theorem bound (n : ℕ) : Bound n := by
  induction n with
  | zero => exact bound_zero
  | succ n ih => exact (again_spec ih).1

end Pool

theorem clientsValid_of_keeps_first : ClientsValid false (Pool.first.run Pool.start) (Pool.first.note .empty) :=
  clientsValid_of_keeps Pool.hasPools
    (.step _ (.start _ rfl (fun _ => rfl) rfl (Pool.linked _)) ⟨Pool.kind_client, Pool.keeps_first⟩)

/-- **A client's packet** goes to another one with the 1024th bind behind its own. -/
theorem packet_reused : ¬ ∀ (spr : Bool) (L : Layout RpcKind.words spr), L.HasPools → ∀ (s : RpcState) (t : Ties),
    ClientReach L (fun s t c => c.OnRecords L s t) s t → ClientsValid spr s t := by
  intro h
  have hbefore := Pool.bound 1023
  obtain ⟨hafter, hother, hpkt⟩ := Pool.again_spec hbefore
  obtain ⟨-, -, -, hown, -⟩ := h false Pool.layout Pool.hasPools _ _ hafter.reach Pool.client hafter.settled
  have hsame : packetAt (Pool.after 1023).1.packetIndex = packetAt 0 := by
    rw [hbefore.packetIndex]
    decide
  have hown' := hother.owner
  rw [hpkt, hsame] at hown'
  rw [hafter.pktAddr, hown'] at hown
  exact absurd hown (by decide)

end Ps2Recomp.SifRpc
