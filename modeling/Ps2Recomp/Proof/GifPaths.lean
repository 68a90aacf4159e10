import Ps2Recomp.Spec.GifPacket

/-!
# The three paths and the bytes owed

What a packet means is the list of calls it makes (`interpret`), which any GS then carries out
(`processGIFPacket_replay`). It depends on nothing of the GS but the bytes of IMAGE data owed, and these
are counted once for all paths. So the packets of a path mean what they mean alone exactly where no packet
comes in while another path is owed bytes (`paths_apart_iff`).
-/

namespace Ps2Recomp.Gif

open Bytes

variable {G H : Type}

/-! ### One packet on two models of the GS -/

/-- A map between two models of the GS that goes with their calls. -/
structure GsCalls.Hom (c : GsCalls G) (c' : GsCalls H) (f : G → H) : Prop where
  resetQ : ∀ g, f (c.resetQ g) = c'.resetQ (f g)
  writeRegister : ∀ addr value g, f (c.writeRegister addr value g) = c'.writeRegister addr value (f g)
  writeRegisterPacked : ∀ desc lo hi g, f (c.writeRegisterPacked desc lo hi g) = c'.writeRegisterPacked desc lo hi (f g)
  processImageData : ∀ data offset size g,
    f (c.processImageData data offset size g) = c'.processImageData data offset size (f g)

def GifState.map (f : G → H) (s : GifState G) : GifState H := ⟨f s.gs, s.pendingImageBytes⟩

namespace GsCalls.Hom

variable {c : GsCalls G} {c' : GsCalls H} {f : G → H}

section

variable (h : c.Hom c' f)

include h

theorem map_writeRegister (addr : Byte) (value : BitVec 64) (s : GifState G) :
    (s.writeRegister c addr value).map f = (s.map f).writeRegister c' addr value := by
  unfold GifState.writeRegister GifState.map
  rw [h.writeRegister]

theorem map_writeRegisterPacked (desc : Byte) (lo hi : BitVec 64) (s : GifState G) :
    (s.writeRegisterPacked c desc lo hi).map f = (s.map f).writeRegisterPacked c' desc lo hi := by
  unfold GifState.writeRegisterPacked GifState.map
  rw [h.writeRegisterPacked]

theorem map_processImageData (data : Memory) (offset size : ℕ) (s : GifState G) :
    (s.processImageData c data offset size).map f = (s.map f).processImageData c' data offset size := by
  unfold GifState.processImageData GifState.map
  rw [h.processImageData]

section

variable (data : Memory) (sizeBytes : ℕ)

theorem map_packedLoop (descs : List Byte) (offset : ℕ)
    (s : GifState G) : packedLoop c' data sizeBytes descs offset (s.map f) =
      ((packedLoop c data sizeBytes descs offset s).1.map f, (packedLoop c data sizeBytes descs offset s).2) := by
  induction descs generalizing offset s with
  | nil => rfl
  | cons desc descs ih =>
    unfold packedLoop
    split
    · rfl
    · rw [← h.map_writeRegisterPacked, ih]

theorem map_reglistLoop (addrs : List Byte) (offset : ℕ)
    (s : GifState G) : reglistLoop c' data sizeBytes addrs offset (s.map f) =
      ((reglistLoop c data sizeBytes addrs offset s).1.map f, (reglistLoop c data sizeBytes addrs offset s).2) := by
  induction addrs generalizing offset s with
  | nil => rfl
  | cons addr addrs ih =>
    unfold reglistLoop
    split
    · rfl
    · rw [← h.map_writeRegister, ih]

end

theorem map_beginTag (tag : GifTag) (s : GifState G) : (beginTag c tag s).map f = beginTag c' tag (s.map f) := by
  have hq : GifState.map f { s with gs := c.resetQ s.gs } = { s.map f with gs := c'.resetQ (s.map f).gs } := by
    unfold GifState.map
    rw [h.resetQ]
  unfold beginTag
  simp only [← hq, ← h.map_writeRegister]
  exact apply_ite (GifState.map f) ..

section

variable (data : Memory)

theorem map_processPayload (sizeBytes : ℕ) (tag : GifTag) (offset : ℕ)
    (s : GifState G) : processPayload c' data sizeBytes tag offset (s.map f) =
      ((processPayload c data sizeBytes tag offset s).1.map f, (processPayload c data sizeBytes tag offset s).2) := by
  unfold processPayload
  cases tag.flg with
  | packed => exact h.map_packedLoop ..
  | reglist => simp only [h.map_reglistLoop]
  | image =>
    have howed : ∀ owed, (GifState.mk (s.map f).gs owed) = GifState.map f ⟨s.gs, owed⟩ := fun _ => rfl
    simp only [howed, ← h.map_processImageData]
    split <;> rfl
  | disabled => rfl

theorem map_processTag (sizeBytes offset : ℕ) (s : GifState G) : processTag c' data sizeBytes offset (s.map f) =
    ((processTag c data sizeBytes offset s).1.map f, (processTag c data sizeBytes offset s).2) := by
  unfold processTag
  simp only [← h.map_beginTag, h.map_processPayload]

theorem map_tagLoop (sizeBytes fuel offset : ℕ) (s : GifState G) :
    tagLoop c' data sizeBytes fuel offset (s.map f) = (tagLoop c data sizeBytes fuel offset s).map f := by
  induction fuel generalizing offset s with
  | zero => rfl
  | succ fuel ih =>
    unfold tagLoop
    split
    · rw [h.map_processTag]
      rcases processTag c data sizeBytes offset s with ⟨s', _ | next⟩
      · rfl
      · exact ih next s'
    · rfl

theorem map_processTags (sizeBytes offset : ℕ) (s : GifState G) :
    processTags c' data sizeBytes offset (s.map f) = (processTags c data sizeBytes offset s).map f := by
  unfold processTags
  cases (if offset = 0 ∧ 16 ≤ sizeBytes then imageUpload? data sizeBytes else none) with
  | none => exact h.map_tagLoop ..
  | some upload =>
    simp only [uploadImageNative, ← h.map_writeRegister, ← h.map_processImageData]

/-- A packet makes the same calls on both models. -/
theorem map_processGIFPacket (sizeBytes : ℕ) (s : GifState G) :
    processGIFPacket c' data sizeBytes (s.map f) = (processGIFPacket c data sizeBytes s).map f := by
  unfold processGIFPacket
  split
  · rfl
  · change (if s.pendingImageBytes ≠ 0 then _ else _) = _
    split
    · have hdrain : (GifState.mk (s.map f).gs ((s.map f).pendingImageBytes -
            min (s.map f).pendingImageBytes sizeBytes)) =
          GifState.map f ⟨s.gs, s.pendingImageBytes - min s.pendingImageBytes sizeBytes⟩ := rfl
      simp only [hdrain, ← h.map_processImageData]
      change (if min s.pendingImageBytes sizeBytes ≥ sizeBytes then _ else _) = _
      split
      · rfl
      · exact h.map_processTags ..
    · exact h.map_processTags ..

end

end

end GsCalls.Hom

/-! ### What a packet means -/

/-- A call to the GS. -/
inductive GsCall
  | resetQ
  | writeRegister (addr : Byte) (value : BitVec 64)
  | writeRegisterPacked (desc : Byte) (lo hi : BitVec 64)
  | processImageData (data : Memory) (offset size : ℕ)

/-- The GS that keeps the calls. -/
def recorded : GsCalls (List GsCall) where
  resetQ calls := calls ++ [.resetQ]
  writeRegister addr value calls := calls ++ [.writeRegister addr value]
  writeRegisterPacked desc lo hi calls := calls ++ [.writeRegisterPacked desc lo hi]
  processImageData data offset size calls := calls ++ [.processImageData data offset size]

def GsCall.apply (c : GsCalls G) : GsCall → G → G
  | .resetQ => c.resetQ
  | .writeRegister addr value => c.writeRegister addr value
  | .writeRegisterPacked desc lo hi => c.writeRegisterPacked desc lo hi
  | .processImageData data offset size => c.processImageData data offset size

/-- Carrying out calls. -/
def replay (c : GsCalls G) (g : G) (calls : List GsCall) : G := calls.foldl (fun g call => call.apply c g) g

theorem replay_hom (c : GsCalls G) (g : G) : recorded.Hom c (replay c g) where
  resetQ calls := by simp [recorded, replay, GsCall.apply]
  writeRegister addr value calls := by simp [recorded, replay, GsCall.apply]
  writeRegisterPacked desc lo hi calls := by simp [recorded, replay, GsCall.apply]
  processImageData data offset size calls := by simp [recorded, replay, GsCall.apply]

theorem append_hom (before : List GsCall) : recorded.Hom recorded (before ++ ·) where
  resetQ _ := (List.append_assoc ..).symm
  writeRegister _ _ _ := (List.append_assoc ..).symm
  writeRegisterPacked _ _ _ _ := (List.append_assoc ..).symm
  processImageData _ _ _ _ := (List.append_assoc ..).symm

/-- A packet in memory. -/
def memoryOf (data : List Byte) : Memory := fun i => data.getD i 0

/-- The calls that a packet makes where `owed` bytes are owed, and the bytes owed after it. -/
def interpret (owed : ℕ) (pkt : GifArbiterPacket) : List GsCall × ℕ :=
  let s := processGIFPacket recorded (memoryOf pkt.data) pkt.data.length ⟨[], owed⟩
  (s.gs, s.pendingImageBytes)

/-- Whether the first call takes image data. -/
def startsWithImage : List GsCall → Bool
  | .processImageData _ _ _ :: _ => true
  | _ => false

theorem startsWithImage_append {before : List GsCall} (h : before ≠ []) (calls : List GsCall) :
    startsWithImage (before ++ calls) = startsWithImage before := by
  cases before with
  | nil => exact absurd rfl h
  | cons call before => cases call <;> rfl

variable {owed : ℕ}

theorem interpret_owed (h : owed ≠ 0) (pkt : GifArbiterPacket) : startsWithImage (interpret owed pkt).1 = true := by
  have hsize : pkt.data.length ≠ 0 := by
    have := pkt.size
    omega
  have hfirst : (GifState.mk ([] : List GsCall) owed).pendingImageBytes ≠ 0 := h
  unfold interpret processGIFPacket
  rw [if_neg hsize, if_pos hfirst]
  simp only
  split
  · rfl
  · have hmap := (append_hom [.processImageData (memoryOf pkt.data) 0 (min owed pkt.data.length)]).map_processTags
      (memoryOf pkt.data) pkt.data.length (min owed pkt.data.length)
      ⟨[], owed - min owed pkt.data.length⟩
    have hgs := congrArg GifState.gs hmap
    refine Eq.trans (congrArg startsWithImage hgs) ?_
    exact startsWithImage_append (by simp) _

theorem interpret_zero (pkt : GifArbiterPacket) : startsWithImage (interpret 0 pkt).1 = false := by
  have hsize := pkt.size
  have hne : pkt.data.length ≠ 0 := by omega
  unfold interpret processGIFPacket
  rw [if_neg hne]
  change startsWithImage (processTags recorded (memoryOf pkt.data) pkt.data.length 0 ⟨[], 0⟩).gs = false
  unfold processTags
  cases (if 0 = 0 ∧ 16 ≤ pkt.data.length then imageUpload? (memoryOf pkt.data) pkt.data.length else none) with
  | some upload => rfl
  | none =>
    obtain ⟨fuel, hfuel⟩ : ∃ fuel, pkt.data.length = fuel + 1 := ⟨pkt.data.length - 1, by omega⟩
    have hbegin : ∀ tag : GifTag, ∃ s : GifState (List GsCall),
        beginTag recorded tag ⟨[], 0⟩ = s.map ([.resetQ] ++ ·) := by
      intro tag
      refine ⟨if tag.pre then GifState.writeRegister recorded regPrim tag.prim ⟨[], 0⟩ else ⟨[], 0⟩, ?_⟩
      unfold beginTag
      cases tag.pre <;> rfl
    obtain ⟨s, hs⟩ := hbegin (loadTag (memoryOf pkt.data) 0)
    have hom := append_hom [.resetQ]
    suffices h : ∃ s : GifState (List GsCall), tagLoop recorded (memoryOf pkt.data) pkt.data.length
        (fuel + 1) 0 ⟨[], 0⟩ = s.map ([.resetQ] ++ ·) by
      obtain ⟨s', hs'⟩ := h
      change startsWithImage (tagLoop recorded (memoryOf pkt.data) pkt.data.length pkt.data.length 0 ⟨[], 0⟩).gs = false
      rw [← hfuel] at hs'
      rw [hs']
      rfl
    have hfits : 0 + 16 ≤ pkt.data.length := by omega
    unfold tagLoop processTag
    simp only [if_pos hfits, hs, hom.map_processPayload]
    rcases processPayload recorded (memoryOf pkt.data) pkt.data.length (loadTag (memoryOf pkt.data) 0)
      (0 + 16) s with ⟨s', _ | next⟩
    · exact ⟨s', rfl⟩
    · exact ⟨_, hom.map_tagLoop ..⟩

/-! ### Packets of three paths -/

/-- What packets mean one after the other, each with its path. -/
def interpretAll : ℕ → List GifArbiterPacket → List (GifPathId × List GsCall)
  | _, [] => []
  | owed, pkt :: pkts => (pkt.pathId, (interpret owed pkt).1) :: interpretAll (interpret owed pkt).2 pkts

/-- The bytes still owed after packets. -/
def owedAfter (pkts : List GifArbiterPacket) : ℕ := pkts.foldl (fun owed pkt => (interpret owed pkt).2) 0

/-- The packets of a path. -/
def onPath (p : GifPathId) (pkts : List GifArbiterPacket) : List GifArbiterPacket :=
  pkts.filter (·.pathId = p)

/-- Every packet means what it means among those of its path alone. -/
def PathsApart (pkts : List GifArbiterPacket) : Prop :=
  ∀ p, (interpretAll 0 pkts).filter (·.1 = p) = interpretAll 0 (onPath p pkts)

/-- Where `own` is owed to each path alone, no packet comes in while another path is owed bytes. -/
def Exclusive : (GifPathId → ℕ) → List GifArbiterPacket → Prop
  | _, [] => True
  | own, pkt :: pkts =>
    (∀ q, q ≠ pkt.pathId → own q = 0) ∧
      Exclusive (Function.update own pkt.pathId (interpret (own pkt.pathId) pkt).2) pkts

/-- The bytes owed are those of at most one path. -/
def OwedOnce (own : GifPathId → ℕ) (owed : ℕ) : Prop := ∃ p, own p = owed ∧ ∀ q, q ≠ p → own q = 0

theorem onPath_cons_self (pkt : GifArbiterPacket) (pkts : List GifArbiterPacket) :
    onPath pkt.pathId (pkt :: pkts) = pkt :: onPath pkt.pathId pkts :=
  List.filter_cons_of_pos (by simp)

theorem onPath_cons_of_ne {p : GifPathId} {pkt : GifArbiterPacket} (h : p ≠ pkt.pathId)
    (pkts : List GifArbiterPacket) : onPath p (pkt :: pkts) = onPath p pkts :=
  List.filter_cons_of_neg (by simpa using h.symm)

section

variable {own : GifPathId → ℕ} (h : OwedOnce own owed)

include h

theorem OwedOnce.step {pkt : GifArbiterPacket} (halone : ∀ q, q ≠ pkt.pathId → own q = 0) : own pkt.pathId = owed ∧
    OwedOnce (Function.update own pkt.pathId (interpret owed pkt).2) (interpret owed pkt).2 := by
  obtain ⟨p, hp, hothers⟩ := h
  have howed : own pkt.pathId = owed := by
    by_cases hpath : p = pkt.pathId
    · rw [← hpath, hp]
    · rw [hothers _ (Ne.symm hpath), ← hp, halone p hpath]
  refine ⟨howed, pkt.pathId, Function.update_self .., fun q hq => ?_⟩
  rw [Function.update_of_ne hq, halone q hq]

/-- Packets that come in apart mean what they mean alone, and only they do. -/
theorem interpretAll_iff (pkts : List GifArbiterPacket) :
    (∀ p, (interpretAll owed pkts).filter (·.1 = p) = interpretAll (own p) (onPath p pkts)) ↔ Exclusive own pkts := by
  induction pkts generalizing own owed with
  | nil => exact ⟨fun _ => trivial, fun _ _ => rfl⟩
  | cons pkt pkts ih =>
    by_cases halone : ∀ q, q ≠ pkt.pathId → own q = 0
    · obtain ⟨howed, hnext⟩ := h.step halone
      have hrest := ih hnext
      rw [Exclusive, howed]
      refine Iff.trans ?_ (hrest.trans (and_iff_right halone).symm)
      refine forall_congr' fun p => ?_
      by_cases hp : p = pkt.pathId
      · subst hp
        rw [onPath_cons_self, interpretAll, interpretAll, howed, Function.update_self,
          List.filter_cons_of_pos (by simp)]
        exact List.cons_inj_right _
      · rw [onPath_cons_of_ne hp, interpretAll, Function.update_of_ne hp,
          List.filter_cons_of_neg (by simpa using Ne.symm hp)]
    · refine ⟨fun hmeans => ?_, fun hexclusive => absurd hexclusive.1 halone⟩
      -- the packet is read as the data that the other path is owed
      exfalso
      push Not at halone
      obtain ⟨q, hq, howes⟩ := halone
      obtain ⟨p, hp, hothers⟩ := h
      have hqp : q = p := by
        by_contra hne
        exact howes (hothers q hne)
      subst hqp
      have hown : own pkt.pathId = 0 := hothers _ (Ne.symm hq)
      have hfirst := hmeans pkt.pathId
      rw [onPath_cons_self, interpretAll, interpretAll, List.filter_cons_of_pos (by simp), hown] at hfirst
      have hcalls : (interpret owed pkt).1 = (interpret 0 pkt).1 :=
        congrArg Prod.snd (List.cons.inj hfirst).1
      have himage := interpret_owed (hp ▸ howes) pkt
      rw [hcalls, interpret_zero] at himage
      cases himage

end

theorem owedAfter_append (pkts : List GifArbiterPacket) (pkt : GifArbiterPacket) :
    owedAfter (pkts ++ [pkt]) = (interpret (owedAfter pkts) pkt).2 := by
  unfold owedAfter
  rw [List.foldl_append]
  rfl

/-- What is owed to each path after packets, had its own come alone. -/
def ownAfter (pkts : List GifArbiterPacket) (p : GifPathId) : ℕ := owedAfter (onPath p pkts)

theorem ownAfter_append (pkts : List GifArbiterPacket) (pkt : GifArbiterPacket) : ownAfter (pkts ++ [pkt]) =
    Function.update (ownAfter pkts) pkt.pathId (interpret (ownAfter pkts pkt.pathId) pkt).2 := by
  funext p
  unfold ownAfter onPath
  rw [List.filter_append]
  by_cases hp : p = pkt.pathId
  · subst hp
    rw [Function.update_self, List.filter_cons_of_pos (by simp), List.filter_nil, owedAfter_append]
  · rw [Function.update_of_ne hp, List.filter_cons_of_neg (by simpa using Ne.symm hp), List.filter_nil, List.append_nil]

theorem exclusive_iff (before pkts : List GifArbiterPacket) : Exclusive (ownAfter before) pkts ↔ ∀ earlier pkt later,
    pkts = earlier ++ pkt :: later → ∀ q, q ≠ pkt.pathId → ownAfter (before ++ earlier) q = 0 := by
  induction pkts generalizing before with
  | nil =>
    refine ⟨fun _ earlier pkt later h => ?_, fun _ => trivial⟩
    cases earlier <;> cases h
  | cons first pkts ih =>
    rw [Exclusive, ← ownAfter_append, ih]
    constructor
    · rintro ⟨halone, hrest⟩ earlier pkt later h
      rcases earlier with _ | ⟨_, earlier⟩
      · obtain ⟨rfl, -⟩ := List.cons.inj h
        rw [List.append_nil]
        exact halone
      · obtain ⟨rfl, hpkts⟩ := List.cons.inj h
        have hlater := hrest earlier pkt later hpkts
        rw [List.append_assoc] at hlater
        exact hlater
    · intro h
      refine ⟨?_, fun earlier pkt later hpkts => ?_⟩
      · have hfirst := h [] first pkts rfl
        rw [List.append_nil] at hfirst
        exact hfirst
      · rw [List.append_assoc]
        exact h (first :: earlier) pkt later (by rw [hpkts]; rfl)

/-- **The paths.** The packets of every path mean what they mean alone exactly where, whenever a packet
comes in, the packets of each other path so far have left no image data owed. -/
theorem paths_apart_iff (pkts : List GifArbiterPacket) :
    PathsApart pkts ↔ ∀ earlier pkt later, pkts = earlier ++ pkt :: later →
      ∀ q, q ≠ pkt.pathId → owedAfter (onPath q earlier) = 0 := by
  have hstart : OwedOnce (ownAfter []) 0 := ⟨.path1, rfl, fun _ _ => rfl⟩
  exact (interpretAll_iff hstart pkts).trans (exclusive_iff [] pkts)

/-! ### Streams -/

/-- The bytes of the payload that a tag announces, for the formats with one. -/
def GifTag.payloadBytes (tag : GifTag) : ℕ :=
  match tag.flg with
  | .packed => tag.nloop * tag.nreg * 16
  | .reglist => (tag.nloop * tag.nreg + 1) / 2 * 16
  | .image => tag.nloop * 16
  | .disabled => 0

/-- Tags with their payloads. -/
inductive GifStream : List Byte → Prop
  | nil : GifStream []
  | tag (head payload rest : List Byte) :
    head.length = 16 → payload.length = (loadTag (memoryOf head) 0).payloadBytes → GifStream rest →
      GifStream (head ++ payload ++ rest)

/-- The first eight bytes of a tag without registers. -/
def tagBytes (nloop flg : Byte) : List Byte := [nloop, 0, 0, 0, 0, 0, 0, flg <<< 2, 0, 0, 0, 0, 0, 0, 0, 0]

theorem eq_of_false {p q : GifPathId} (h : false = true) : p = q := by cases h

/-- A tag for two quadwords of IMAGE data on path 3, with the first of them. -/
def imageStart : GifArbiterPacket where
  pathId := .path3
  path2DirectHl := false
  path3Image := true
  data := tagBytes 2 2 ++ List.replicate 16 0xAA
  directHl_path := eq_of_false
  image_path := by decide
  size := by decide

/-- An empty tag on path 1. -/
def emptyTag : GifArbiterPacket where
  pathId := .path1
  path2DirectHl := false
  path3Image := false
  data := tagBytes 0 0
  directHl_path := eq_of_false
  image_path := eq_of_false
  size := by decide

/-- The second quadword. -/
def imageEnd : GifArbiterPacket where
  pathId := .path3
  path2DirectHl := false
  path3Image := false
  data := List.replicate 16 0xBB
  directHl_path := eq_of_false
  image_path := eq_of_false
  size := by decide

/-- A kick on path 1 between the two halves of an image on path 3 is taken for image data. -/
theorem kick_within_image :
    (∀ p, GifStream ((onPath p [imageStart, emptyTag, imageEnd]).flatMap (·.data))) ∧
      ¬ PathsApart [imageStart, emptyTag, imageEnd] := by
  constructor
  · intro p
    cases p with
    | path1 => exact .tag (tagBytes 0 0) [] [] rfl (by decide) .nil
    | path2 => exact .nil
    | path3 =>
      exact .tag (tagBytes 2 2) (List.replicate 16 0xAA ++ List.replicate 16 0xBB) [] rfl (by decide) .nil
  · intro h
    have howed : (interpret 0 imageStart).2 = 16 := by decide
    have hkick := h .path1
    have hcalls : (interpret (interpret 0 imageStart).2 emptyTag).1 = (interpret 0 emptyTag).1 :=
      congrArg Prod.snd (List.cons.inj hkick).1
    have himage := interpret_owed (howed ▸ by decide : (interpret 0 imageStart).2 ≠ 0) emptyTag
    rw [hcalls, interpret_zero] at himage
    cases himage

end Ps2Recomp.Gif
