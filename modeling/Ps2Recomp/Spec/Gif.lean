import Ps2Recomp.Lib.Indices
import Ps2Recomp.Lib.Stable

/-!
# Packets to the GS

The arbiter of the three paths to the GS (`ps2_gif_arbiter.cpp`) and the masking of path 3 in front of it
(`flushMaskedPath3Packets` and `submitGifPacket` of `ps2_memory.cpp`). Packets go to an arbiter if there
is one, and to a callback otherwise; what either does is a parameter (`Sink`), and the arbiter of the
source is one (`GifArbiter.sink`). Data is not null.
-/

namespace Ps2Recomp.Gif

abbrev Byte := BitVec 8

inductive GifPathId
  | path1 | path2 | path3
  deriving DecidableEq, Repr

/-! ### The arbiter -/

def pathPriority : GifPathId → ℕ
  | .path1 => 1
  | .path2 => 2
  | .path3 => 3

/-- The first eight bytes of a packet as a number. -/
def tagLo (data : List Byte) : BitVec 64 :=
  (data.take 8).foldr (fun b n => (n <<< 8) ||| b.setWidth 64) 0

def isImagePacket (data : List Byte) : Bool :=
  16 ≤ data.length && (tagLo data >>> 58) &&& 0x3 == 2

/-- A packet on the queue. Only path 2 has DIRECTHL and only path 3 is asked for images; a packet is
not empty. -/
structure GifArbiterPacket where
  pathId : GifPathId
  path2DirectHl : Bool
  path3Image : Bool
  data : List Byte
  directHl_path : path2DirectHl = true → pathId = .path2
  image_path : path3Image = true → pathId = .path3
  size : 16 ≤ data.length
  deriving DecidableEq

/-- The comparison of the queue. DIRECTHL cannot preempt the images of path 3. -/
def comesBefore (a b : GifArbiterPacket) : Bool :=
  if a.path2DirectHl != b.path2DirectHl || a.path3Image != b.path3Image then
    if a.path3Image && b.path2DirectHl then true
    else if a.path2DirectHl && b.path3Image then false
    else pathPriority a.pathId < pathPriority b.pathId
  else pathPriority a.pathId < pathPriority b.pathId

/-- The queue, with the state `S` of what takes the packets. -/
structure GifArbiter (S : Type) where
  queue : List GifArbiterPacket
  state : S

namespace GifArbiter

variable {S : Type}

def submit (pathId : GifPathId) (data : List Byte) (path2DirectHl : Bool) (g : GifArbiter S) : GifArbiter S :=
  if h : data.length < 16 then g
  else
    let pkt : GifArbiterPacket :=
      { pathId
        path2DirectHl := pathId = .path2 && path2DirectHl
        path3Image := pathId = .path3 && isImagePacket data
        data
        directHl_path := fun h => of_decide_eq_true (Bool.and_eq_true_iff.1 h).1
        image_path := fun h => of_decide_eq_true (Bool.and_eq_true_iff.1 h).1
        size := Nat.not_lt.1 h }
    { g with queue := g.queue ++ [pkt] }

/-- `drain`. What the sort of the standard library does is a parameter. -/
def drain (stableSort : (GifArbiterPacket → GifArbiterPacket → Bool) → List GifArbiterPacket →
    List GifArbiterPacket) (processFn : List Byte → S → S) (g : GifArbiter S) : GifArbiter S where
  queue := []
  state := (stableSort comesBefore g.queue).foldl (fun s pkt => processFn pkt.data s) g.state

end GifArbiter

/-! ### Masking -/

/-- An arbiter with a state `G`. -/
structure ArbiterFns (G : Type) where
  submit : GifPathId → List Byte → Bool → G → G
  drain : G → G

/-- What packets are handed to. -/
structure Sink (G : Type) where
  gifArbiter : Option (ArbiterFns G)
  gifPacketCallback : Option (List Byte → G → G)

/-- The arbiter of the source, as what packets are handed to. -/
def GifArbiter.sink {S : Type} (stableSort : (GifArbiterPacket → GifArbiterPacket → Bool) →
    List GifArbiterPacket → List GifArbiterPacket) (processFn : List Byte → S → S) : Sink (GifArbiter S) where
  gifArbiter := some ⟨submit, drain stableSort processFn⟩
  gifPacketCallback := none

/-- The part of `PS2Memory` that masks path 3, and the state behind it. -/
structure GifPort (G : Type) where
  path3Masked : Bool
  path3MaskedFifo : List (List Byte)
  behind : G

namespace GifPort

variable {G : Type} (s : Sink G)

def emit (pathId : GifPathId) (data : List Byte) (path2DirectHl : Bool) (g : G) : G :=
  match s.gifArbiter with
  | some arbiter => arbiter.submit pathId data path2DirectHl g
  | none =>
    match s.gifPacketCallback with
    | some callback => callback data g
    | none => g

def drainArbiter (g : G) : G :=
  match s.gifArbiter with
  | some arbiter => arbiter.drain g
  | none => g

def drainIf (drainImmediately : Bool) (m : GifPort G) : GifPort G :=
  if drainImmediately then { m with behind := drainArbiter s m.behind } else m

def flushMaskedPath3Packets (drainImmediately : Bool) (m : GifPort G) : GifPort G :=
  if m.path3Masked || m.path3MaskedFifo.isEmpty then m
  else
    drainIf s drainImmediately
      { m with
        behind := m.path3MaskedFifo.foldl
          (fun g packet => if 16 ≤ packet.length then emit s .path3 packet false g else g) m.behind
        path3MaskedFifo := [] }

def submitGifPacket (pathId : GifPathId) (data : List Byte) (drainImmediately path2DirectHl : Bool)
    (m : GifPort G) : GifPort G :=
  if data.length < 16 then m
  else if pathId = .path3 ∧ m.path3Masked = true then
    { m with path3MaskedFifo := m.path3MaskedFifo ++ [data] }
  else
    let m := if pathId = .path3 then flushMaskedPath3Packets s false m else m
    drainIf s drainImmediately { m with behind := emit s pathId data path2DirectHl m.behind }

/-- The command MSKPATH3 of VIF1. -/
def mskPath3 (imm : BitVec 16) (m : GifPort G) : GifPort G :=
  let wasMasked := m.path3Masked
  let m := { m with path3Masked := imm.getLsbD 15 }
  if wasMasked && !m.path3Masked then flushMaskedPath3Packets s true m else m

end GifPort

end Ps2Recomp.Gif
