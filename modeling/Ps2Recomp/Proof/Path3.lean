import Ps2Recomp.Proof.Completion

/-!
# Path 3 behind its mask

What was handed to the arbiter on path 3, and what is held back, is what was submitted, in order; nothing
is held back while path 3 is not masked, and nothing is handed on while it is (`path3_in_order`). The
mask is that of MSKPATH3: a write to GIF_MODE is kept, and masks nothing.
-/

namespace Ps2Recomp.Dma

open Memory Gif

variable {A : Type} (a : ArbiterFns A)

/-- What an arbiter was handed. -/
abbrev Log := List (GifPathId × List Byte)

/-- An arbiter with a record of what it is handed. -/
def logged : Sink (A × Log) where
  gifArbiter := some
    { submit := fun pathId data hl g => (a.submit pathId data hl g.1, g.2 ++ [(pathId, data)])
      drain := fun g => (a.drain g.1, g.2) }
  gifPacketCallback := none

def loggedEngines : Engines (A × Log) where
  sink := logged a
  processVIF0Data _ m := m
  processVIF1Data _ m := m
  vif0_kept _ m := .refl m
  vif1_kept _ m := .refl m

def gifMode : Word := 0x10003010

/-- What can happen to path 3. -/
inductive Path3Op
  | submit (pathId : GifPathId) (data : List Byte) (drainImmediately path2DirectHl : Bool)
  | mskPath3 (imm : BitVec 16)
  | flush (drainImmediately : Bool)
  | gifMode (value : Word)
  | drain
  deriving DecidableEq, Repr

namespace Path3Op

def run (m : Mem (A × Log)) : Path3Op → Mem (A × Log)
  | .submit pathId data drainImmediately path2DirectHl =>
    submitGifPacket (loggedEngines a) pathId data drainImmediately path2DirectHl m
  | .mskPath3 imm => { m with devices.gif := m.devices.gif.mskPath3 (logged a) imm }
  | .flush drainImmediately =>
    { m with devices.gif := m.devices.gif.flushMaskedPath3Packets (logged a) drainImmediately }
  | .gifMode value =>
    match writeIORegister (loggedEngines a) Dma.gifMode value m with
    | .ok _ m => m
    | .error _ m => m
  | .drain => { m with devices.gif.behind := GifPort.drainArbiter (logged a) m.devices.gif.behind }

/-- A packet on path 3. Less than a quadword is none. -/
def packet : Path3Op → List (List Byte)
  | .submit .path3 data _ _ => if data.length < 16 then [] else [data]
  | _ => []

end Path3Op

/-- The packets of path 3 that were handed on. -/
def delivered (m : Mem (A × Log)) : List (List Byte) :=
  (m.devices.gif.behind.2.filter fun p => p.1 = .path3).map Prod.snd

/-- Nothing handed on, nothing masked. -/
def unmasked (m : Mem (A × Log)) (g : A) : Mem (A × Log) := { m with devices.gif := ⟨false, [], (g, [])⟩ }

/-- What holds between operations: what was handed on and what is held back are what was submitted, and
only a masked path 3 holds anything back. -/
structure InStep (submitted : List (List Byte)) (p : GifPort (A × Log)) : Prop where
  order : (p.behind.2.filter fun p => p.1 = .path3).map Prod.snd ++ p.path3MaskedFifo = submitted
  masked : p.path3Masked = false → p.path3MaskedFifo = []
  sizes : ∀ d ∈ p.path3MaskedFifo, 16 ≤ d.length

variable {a} {submitted : List (List Byte)} {p : GifPort (A × Log)}

theorem InStep.drainIf (h : InStep submitted p) (d : Bool) : InStep submitted (p.drainIf (logged a) d) := by
  cases d with
  | false => exact h
  | true => exact ⟨h.order, h.masked, h.sizes⟩

theorem emit_all (fifo : List (List Byte)) (hsizes : ∀ d ∈ fifo, 16 ≤ d.length) (g : A × Log) :
    (fifo.foldl (fun g packet => if 16 ≤ packet.length then GifPort.emit (logged a) .path3 packet false g
      else g) g).2 = g.2 ++ fifo.map fun d => (.path3, d) := by
  induction fifo generalizing g with
  | nil => simp
  | cons d fifo ih =>
    obtain ⟨hd, hrest⟩ := List.forall_mem_cons.1 hsizes
    rw [List.foldl_cons, if_pos hd, ih hrest]
    simp [GifPort.emit, logged]

theorem flush_open (horder : (p.behind.2.filter fun p => p.1 = .path3).map Prod.snd ++ p.path3MaskedFifo = submitted)
    (hsizes : ∀ d ∈ p.path3MaskedFifo, 16 ≤ d.length) (hopen : p.path3Masked = false) (d : Bool) :
    InStep submitted (p.flushMaskedPath3Packets (logged a) d) := by
  rw [GifPort.flushMaskedPath3Packets]
  by_cases hempty : p.path3MaskedFifo = []
  · rw [if_pos (by simp [hempty])]
    exact ⟨horder, fun _ => hempty, hsizes⟩
  · rw [if_neg (by simp [hempty, hopen])]
    refine .drainIf ⟨?_, fun _ => rfl, fun d hd => absurd hd List.not_mem_nil⟩ d
    simp only [emit_all _ hsizes, List.append_nil]
    rw [List.filter_append, List.map_append, ← horder]
    congr 1
    simp [List.filter_map, List.map_map, Function.comp_def]

theorem flush_masked (d : Bool) : (p.flushMaskedPath3Packets (logged a) d).path3Masked = p.path3Masked ∧
    (p.path3Masked = true → p.flushMaskedPath3Packets (logged a) d = p) := by
  rw [GifPort.flushMaskedPath3Packets]
  split
  · exact ⟨rfl, fun _ => rfl⟩
  · next hkeep =>
    rw [Bool.or_eq_true, not_or] at hkeep
    refine ⟨?_, fun hm => absurd hm hkeep.1⟩
    cases d with
    | false => rfl
    | true => rfl

theorem InStep.flush (h : InStep submitted p) (d : Bool) :
    InStep submitted (p.flushMaskedPath3Packets (logged a) d) := by
  cases hm : p.path3Masked with
  | false => exact flush_open h.order h.sizes hm d
  | true =>
    rw [(flush_masked d).2 hm]
    exact h

/-- What was handed on by a port. -/
def handedOn (p : GifPort (A × Log)) : List (List Byte) :=
  (p.behind.2.filter fun p => p.1 = .path3).map Prod.snd

theorem handedOn_emit (pathId : GifPathId) (data : List Byte) (hl d : Bool) :
    handedOn (GifPort.drainIf (logged a) d { p with behind := GifPort.emit (logged a) pathId data hl p.behind }) =
      handedOn p ++ if pathId = .path3 then [data] else [] := by
  have hlog : (GifPort.emit (logged a) pathId data hl p.behind).2 = p.behind.2 ++ [(pathId, data)] := rfl
  have hdrop : ∀ q : GifPort (A × Log), handedOn (GifPort.drainIf (logged a) d q) = handedOn q := by
    intro q
    cases d with
    | false => rfl
    | true => rfl
  rw [hdrop, handedOn]
  simp only [hlog, List.filter_append, List.map_append]
  rw [handedOn]
  congr 1
  by_cases hpath : pathId = .path3
  · simp [hpath]
  · simp [hpath]

section

variable (h : InStep submitted p)

include h

theorem InStep.mskPath3 (imm : BitVec 16) : InStep submitted (p.mskPath3 (logged a) imm) ∧
    ((p.mskPath3 (logged a) imm).path3Masked = true → handedOn (p.mskPath3 (logged a) imm) = handedOn p) := by
  rw [GifPort.mskPath3]
  by_cases hopen : (p.path3Masked && !imm.getLsbD 15) = true
  · -- the mask is taken away, and what is held back handed on
    rw [if_pos hopen]
    rw [Bool.and_eq_true, Bool.not_eq_true'] at hopen
    refine ⟨flush_open (p := { p with path3Masked := imm.getLsbD 15 }) h.order h.sizes hopen.2 true, fun hm => ?_⟩
    rw [(flush_masked true).1] at hm
    simp only [hopen.2, Bool.false_eq_true] at hm
  · rw [if_neg hopen]
    refine ⟨⟨h.order, fun hm => h.masked ?_, h.sizes⟩, fun _ => rfl⟩
    simp only at hm
    rw [hm, Bool.not_false, Bool.and_true, Bool.not_eq_true] at hopen
    exact hopen

section

variable (pathId : GifPathId) (data : List Byte) (d hl : Bool)

include hl

theorem InStep.emit (hnone : pathId = .path3 → p.path3MaskedFifo = []) :
    InStep (submitted ++ if pathId = .path3 then [data] else [])
      (GifPort.drainIf (logged a) d { p with behind := GifPort.emit (logged a) pathId data hl p.behind }) := by
  have hon := handedOn_emit (a := a) (p := p) pathId data hl d
  refine InStep.drainIf (p := { p with behind := GifPort.emit (logged a) pathId data hl p.behind })
    ⟨?_, h.masked, h.sizes⟩ d
  have hlog : (GifPort.emit (logged a) pathId data hl p.behind).2 = p.behind.2 ++ [(pathId, data)] := rfl
  simp only [hlog, List.filter_append, List.map_append]
  rw [← h.order]
  by_cases hpath : pathId = .path3
  · simp [hpath, hnone hpath]
  · simp [hpath]

theorem InStep.submit :
    InStep (submitted ++ (Path3Op.submit pathId data d hl).packet) (p.submitGifPacket (logged a) pathId data d hl) ∧
      ((p.submitGifPacket (logged a) pathId data d hl).path3Masked = true →
        handedOn (p.submitGifPacket (logged a) pathId data d hl) = handedOn p) := by
  have hpacket : (Path3Op.submit pathId data d hl).packet =
      if data.length < 16 then [] else if pathId = .path3 then [data] else [] := by
    cases pathId with
    | path1 => simp [Path3Op.packet]
    | path2 => simp [Path3Op.packet]
    | path3 => simp [Path3Op.packet]
  have hmasked : ∀ q : GifPort (A × Log), (GifPort.drainIf (logged a) d q).path3Masked = q.path3Masked := by
    intro q
    cases d with
    | false => rfl
    | true => rfl
  rw [hpacket]
  by_cases hsize : data.length < 16
  · rw [GifPort.submitGifPacket, if_pos hsize, if_pos hsize, List.append_nil]
    exact ⟨h, fun _ => rfl⟩
  · rw [if_neg hsize]
    by_cases hpath : pathId = .path3
    · rw [if_pos hpath]
      cases hm : p.path3Masked with
      | true =>
        have hheld : p.submitGifPacket (logged a) pathId data d hl =
            { p with path3MaskedFifo := p.path3MaskedFifo ++ [data] } := by
          rw [GifPort.submitGifPacket, if_neg hsize, if_pos ⟨hpath, hm⟩]
        rw [hheld]
        refine ⟨⟨?_, fun hf => ?_, ?_⟩, fun _ => rfl⟩
        · rw [← h.order, List.append_assoc]
        · simp only [hm, Bool.true_eq_false] at hf
        · intro c hc
          rcases List.mem_append.1 hc with hc | hc
          · exact h.sizes c hc
          · obtain rfl := List.mem_singleton.1 hc
            omega
      | false =>
        have hflush := h.flush (a := a) false
        have hopen : (p.flushMaskedPath3Packets (logged a) false).path3Masked = false := by
          rw [(flush_masked false).1, hm]
        have hsent : p.submitGifPacket (logged a) pathId data d hl =
            GifPort.drainIf (logged a) d { p.flushMaskedPath3Packets (logged a) false with
              behind := GifPort.emit (logged a) pathId data hl (p.flushMaskedPath3Packets (logged a) false).behind } := by
          rw [GifPort.submitGifPacket, if_neg hsize, if_neg (by simp [hm])]
          simp only [if_pos hpath]
        have hstep := hflush.emit (a := a) pathId data d hl fun _ => hflush.masked hopen
        rw [if_pos hpath] at hstep
        rw [hsent]
        refine ⟨hstep, fun hmask => ?_⟩
        rw [hmasked] at hmask
        simp only [hopen, Bool.false_eq_true] at hmask
    · have hsent : p.submitGifPacket (logged a) pathId data d hl = GifPort.drainIf (logged a) d
          { p with behind := GifPort.emit (logged a) pathId data hl p.behind } := by
        rw [GifPort.submitGifPacket, if_neg hsize, if_neg fun hc => hpath hc.1]
        simp only [if_neg hpath]
      rw [hsent, if_neg hpath]
      have hstep := h.emit (a := a) pathId data d hl fun hc => absurd hc hpath
      rw [if_neg hpath] at hstep
      refine ⟨hstep, fun _ => ?_⟩
      rw [handedOn_emit, if_neg hpath, List.append_nil]

end

end

/-! ### Runs -/

variable {m : Mem (A × Log)}

theorem run_gifMode (value : Word) : Path3Op.run a m (.gifMode value) = setReg m gifMode value := by
  have hnone : (AnyChannel.all.find? fun c => value.getLsbD 8 && gifMode == c.base) = none := by
    cases value.getLsbD 8 with
    | false => decide
    | true => decide
  rw [Path3Op.run, writeIORegister, if_neg (by decide)]
  simp only
  rw [hnone]

/-- **A step.** -/
theorem InStep.run (h : InStep submitted m.devices.gif) (op : Path3Op) :
    InStep (submitted ++ op.packet) (op.run a m).devices.gif ∧
      ((op.run a m).devices.gif.path3Masked = true → delivered (op.run a m) = delivered m) := by
  cases op with
  | submit pathId data d hl => exact h.submit pathId data d hl
  | mskPath3 imm =>
    rw [Path3Op.packet, List.append_nil]
    · exact h.mskPath3 imm
    · intro _ _ _ hc
      cases hc
  | flush d =>
    rw [Path3Op.packet, List.append_nil]
    · refine ⟨h.flush d, fun hm => ?_⟩
      have hmask : m.devices.gif.path3Masked = true := (flush_masked d).1.symm.trans hm
      exact congrArg handedOn ((flush_masked d).2 hmask)
    · intro _ _ _ hc
      cases hc
  | gifMode value =>
    rw [run_gifMode, Path3Op.packet, List.append_nil]
    · exact ⟨h, fun _ => rfl⟩
    · intro _ _ _ hc
      cases hc
  | drain =>
    rw [Path3Op.packet, List.append_nil]
    · exact ⟨⟨h.order, h.masked, h.sizes⟩, fun _ => rfl⟩
    · intro _ _ _ hc
      cases hc

def runOps (a : ArbiterFns A) (ops : List Path3Op) (m : Mem (A × Log)) : Mem (A × Log) :=
  ops.foldl (Path3Op.run a) m

theorem InStep.runOps (h : InStep submitted m.devices.gif) (ops : List Path3Op) :
    InStep (submitted ++ ops.flatMap Path3Op.packet) (runOps a ops m).devices.gif := by
  induction ops generalizing m submitted with
  | nil =>
    rw [List.flatMap_nil, List.append_nil]
    exact h
  | cons op ops ih =>
    rw [List.flatMap_cons, ← List.append_assoc]
    exact ih (h.run op).1

/-- **Path 3 keeps its order.** From a state that holds nothing back, after any operations: what was
delivered and what is held back are the packets that were submitted, in order; if path 3 is not masked,
nothing is held back; and an operation that leaves it masked delivers nothing. -/
theorem path3_in_order (a : ArbiterFns A) (m : Mem (A × Log)) (g : A) (ops : List Path3Op) :
    let m' := runOps a ops (unmasked m g)
    delivered m' ++ m'.devices.gif.path3MaskedFifo = ops.flatMap Path3Op.packet ∧
      (m'.devices.gif.path3Masked = false → m'.devices.gif.path3MaskedFifo = []) ∧
      ∀ op : Path3Op, (op.run a m').devices.gif.path3Masked = true → delivered (op.run a m') = delivered m' := by
  intro m'
  have hstart : InStep [] (unmasked m g).devices.gif := ⟨rfl, fun _ => rfl, fun d hd => absurd hd List.not_mem_nil⟩
  have h : InStep (ops.flatMap Path3Op.packet) m'.devices.gif := hstart.runOps ops
  exact ⟨h.order, h.masked, fun op => (h.run op).2⟩

/-- **GIF_MODE masks nothing.** With its mask bit set, a packet on path 3 is handed on at once. -/
theorem gifMode_does_not_mask : ¬∀ (a : ArbiterFns Unit) (m : Mem (Unit × Log)) (g : Unit) (ops : List Path3Op),
    let m' := runOps a ops (unmasked m g)
    ∀ op : Path3Op, (op.run a m').devices.gif.path3Masked = true ∨ (reg (op.run a m') gifMode).getLsbD 0 = true →
      delivered (op.run a m') = delivered m' := by
  intro h
  let start : Mem (Unit × Log) := { oneTag with
    devices := ⟨fun _ => [], [], true, fun _ => 0, ⟨false, [], ((), [])⟩⟩ }
  have hsame := h ⟨fun _ _ _ g => g, fun g => g⟩ start () [.gifMode 1]
    (.submit .path3 (List.replicate 16 0) true false) (.inr (by decide +kernel))
  have hone : delivered (Path3Op.run ⟨fun _ _ _ g => g, fun g => g⟩
      (runOps ⟨fun _ _ _ g => g, fun g => g⟩ [.gifMode 1] (unmasked start ()))
      (.submit .path3 (List.replicate 16 0) true false)) = [List.replicate 16 0] := by decide +kernel
  have hnone : delivered (runOps ⟨fun _ _ _ g => g, fun g => g⟩ [.gifMode 1] (unmasked start ())) = [] := by
    decide +kernel
  rw [hone, hnone] at hsame
  cases hsame

end Ps2Recomp.Dma
