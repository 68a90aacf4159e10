import Ps2Recomp.Lib.Indices
import Mathlib.Data.Nat.Size
import Ps2Recomp.Lib.Ring

/-!
# The vertex queue of the GS

The register writes of `ps2_gs_gpu.cpp` that build vertices, `vertexKick`, and what `drawPrimitive` reads
of the queue. Of the registers only those that a vertex is built from are kept; a write of another one
leaves them and the queue alone. Coordinates keep their four fractional bits, and floats their bits. The
count of the queue does not wrap.
-/

namespace Ps2Recomp.Vertices

abbrev Byte := BitVec 8

inductive PrimType
  | point | line | lineStrip | triangle | triStrip | triFan | sprite
  deriving DecidableEq, Repr

def kMaxVerts : ℕ := 6

/-! ### The queue -/

/-- `m_vtxQueue` and `m_vtxCount`. -/
structure VertexQueue (V : Type) where
  vtxQueue : Fin kMaxVerts → V
  vtxCount : ℕ

instance : NeZero kMaxVerts := ⟨by decide⟩

/-- The vertices that complete a primitive for `vertexKick`. -/
def PrimType.needed : PrimType → ℕ
  | .point => 1
  | .line => 2
  | .lineStrip => 2
  | .triangle => 3
  | .triStrip => 3
  | .triFan => 3
  | .sprite => 2

namespace VertexQueue

variable {V : Type}

/-- What `drawPrimitive` reads. -/
def read (queue : Fin kMaxVerts → V) : PrimType → List V
  | .sprite => [queue 0, queue 1]
  | .triangle | .triStrip | .triFan => [queue 0, queue 1, queue 2]
  | .line | .lineStrip => [queue 0, queue 1]
  | .point => [queue 0]

/-- The end of `vertexKick`. -/
def shift (queue : Fin kMaxVerts → V) : PrimType → VertexQueue V
  | .line | .triangle | .sprite | .point => ⟨queue, 0⟩
  | .lineStrip => ⟨Function.update queue 0 (queue 1), 1⟩
  | .triStrip => ⟨Function.update (Function.update queue 0 (queue 1)) 1 (queue 2), 2⟩
  | .triFan => ⟨Function.update queue 1 (queue 2), 2⟩

/-- The next queue, and the vertices drawn if any are. -/
def vertexKick (prim : Option PrimType) (drawing : Bool) (m : VertexQueue V) : VertexQueue V × Option (List V) :=
  let m := { m with vtxCount := m.vtxCount + 1 }
  if !drawing then (m, none)
  else
    match prim with
    | none => (m, none)
    | some prim =>
      if m.vtxCount < prim.needed then (m, none)
      else (shift m.vtxQueue prim, some (read m.vtxQueue prim))

/-- A vertex is written behind the others and kicked. -/
def putVertex (prim : Option PrimType) (v : V) (drawing : Bool) (m : VertexQueue V) : VertexQueue V × Option (List V) :=
  vertexKick prim drawing { m with vtxQueue := Ring.store m.vtxQueue m.vtxCount v }

end VertexQueue

/-! ### Registers -/

/-- Reading a bit field of a register. -/
def field (data : BitVec 64) (offset count : ℕ) : BitVec count := data.extractLsb' offset count

/-- Storing one. -/
def storeField {count : ℕ} (data : BitVec 64) (offset : ℕ) (v : BitVec count) : BitVec 64 :=
  let valueMask := (BitVec.allOnes count).setWidth 64 <<< offset
  (data &&& ~~~valueMask) ||| ((v.setWidth 64 <<< offset) &&& valueMask)

/-- The registers a vertex is built from. -/
structure VertexRegs where
  prim : BitVec 64
  rgbaq : BitVec 64
  st : BitVec 64
  uv : BitVec 64
  fog : BitVec 64
  deriving DecidableEq

/-- The type that PRIM selects, unless it is the reserved one. -/
def primType (prim : BitVec 64) : Option PrimType :=
  match (field prim 0 3).toNat with
  | 0 => some .point
  | 1 => some .line
  | 2 => some .lineStrip
  | 3 => some .triangle
  | 4 => some .triStrip
  | 5 => some .triFan
  | 6 => some .sprite
  | _ => none

/-- The bits of 1.0. -/
def floatOne : BitVec 32 := 0x3F800000

/-- Comparison with 0.0, of either sign. -/
def isFloatZero (bits : BitVec 32) : Bool := bits &&& 0x7FFFFFFF == 0

/-- The Q that is zero becomes one. -/
def nonzeroQ (rgbaq : BitVec 64) : BitVec 64 :=
  if isFloatZero (field rgbaq 32 32) then storeField rgbaq 32 floatOne else rgbaq

/-- The conversion of an integer to a float of 24 bits, to the nearest and the even one of two. -/
def toFloat (n : ℕ) : ℕ :=
  let drop := n.size - 24
  let kept := n >>> drop
  let rest := n % 2 ^ drop
  if 2 ^ drop < 2 * rest ∨ (2 ^ drop = 2 * rest ∧ kept % 2 = 1) then (kept + 1) <<< drop
  else kept <<< drop

/-- A vertex; X and Y in sixteenths. -/
structure GSVertex where
  x : BitVec 16
  y : BitVec 16
  z : ℕ
  r : Byte
  g : Byte
  b : Byte
  a : Byte
  q : BitVec 32
  s : BitVec 32
  t : BitVec 32
  u : BitVec 16
  v : BitVec 16
  fog : Byte
  deriving DecidableEq

/-- The fields of a vertex that are read from the registers. -/
def VertexRegs.vertex (regs : VertexRegs) (x y : BitVec 16) (z : ℕ) (fog : Byte) : GSVertex where
  x
  y
  z
  r := field regs.rgbaq 0 8
  g := field regs.rgbaq 8 8
  b := field regs.rgbaq 16 8
  a := field regs.rgbaq 24 8
  q := field regs.rgbaq 32 32
  s := field regs.st 0 32
  t := field regs.st 32 32
  u := (field regs.uv 0 14).setWidth 16
  v := (field regs.uv 16 14).setWidth 16
  fog

/-! ### Writes -/

/-- What a write does. -/
inductive Effect
  /-- A write of PRIM, which empties the queue. -/
  | prim (regs : VertexRegs)
  | regs (regs : VertexRegs)
  /-- A vertex goes to the queue, and `vertexKick` follows. -/
  | vertex (v : GSVertex) (drawing : Bool)
  deriving DecidableEq

def writeRegister (regAddr : Byte) (value : BitVec 64) (regs : VertexRegs) : Effect :=
  match regAddr.toNat with
  | 0x00 => .prim { regs with prim := value }
  | 0x01 => .regs { regs with rgbaq := nonzeroQ value }
  | 0x02 => .regs { regs with st := value }
  | 0x03 => .regs { regs with uv := value }
  | 0x04 | 0x0C =>
    .vertex (regs.vertex (field value 0 16) (field value 16 16) (field value 32 24).toNat (field value 56 8))
      (regAddr == 0x04)
  | 0x05 | 0x0D =>
    .vertex
      (regs.vertex (field value 0 16) (field value 16 16) (field value 32 32).toNat (field regs.fog 56 8))
      (regAddr == 0x05)
  | 0x0A => .regs { regs with fog := value }
  | _ => .regs regs

def writeRegisterPacked (regDesc : Byte) (lo hi : BitVec 64) (regs : VertexRegs) : Effect :=
  match regDesc.toNat with
  | 0x00 => writeRegister 0x00 (lo &&& 0x7FF) regs
  | 0x01 =>
    let rgbaq := storeField regs.rgbaq 0 (field lo 0 8)
    let rgbaq := storeField rgbaq 8 (field lo 32 8)
    let rgbaq := storeField rgbaq 16 (field hi 0 8)
    let rgbaq := storeField rgbaq 24 (field hi 32 8)
    .regs { regs with rgbaq }
  | 0x02 =>
    let st := storeField regs.st 0 (field lo 0 32)
    let st := storeField st 32 (field lo 32 32)
    let rgbaq := storeField regs.rgbaq 32 (field hi 0 32)
    .regs { regs with st, rgbaq := nonzeroQ rgbaq }
  | 0x03 =>
    let uv := storeField regs.uv 0 ((field lo 0 16).setWidth 14)
    let uv := storeField uv 16 ((field lo 32 16).setWidth 14)
    .regs { regs with uv }
  | 0x04 =>
    let adk := hi.getLsbD 47
    .vertex (regs.vertex (field lo 0 16) (field lo 32 16) (toFloat (field hi 4 24).toNat) (field hi 36 8)) (!adk)
  | 0x05 =>
    let adk := hi.getLsbD 47
    .vertex
      (regs.vertex (field lo 0 16) (field lo 32 16) (toFloat (field hi 0 32).toNat) (field regs.fog 56 8))
      (!adk)
  | 0x0A => .regs { regs with fog := storeField regs.fog 56 (field hi 36 8) }
  | 0x0C =>
    .vertex (regs.vertex (field lo 0 16) (field lo 32 16) (toFloat (field hi 4 24).toNat) (field hi 36 8)) false
  | 0x0D =>
    .vertex
      (regs.vertex (field lo 0 16) (field lo 32 16) (toFloat (field hi 0 32).toNat) (field regs.fog 56 8))
      false
  | 0x0E => writeRegister (field hi 0 8) lo regs
  | 0x0F => .regs regs
  | _ => writeRegister regDesc lo regs

/-- A write from a packet. -/
inductive Write
  | register (regAddr : Byte) (value : BitVec 64)
  | packed (regDesc : Byte) (lo hi : BitVec 64)
  deriving DecidableEq

def Write.effect : Write → VertexRegs → Effect
  | .register regAddr value => writeRegister regAddr value
  | .packed regDesc lo hi => writeRegisterPacked regDesc lo hi

/-- What a write of PRIM stores. -/
def Write.primData : Write → Option (BitVec 64)
  | .register regAddr value => if regAddr = 0x00 then some value else none
  | .packed regDesc lo hi =>
    if regDesc = 0x00 then some (lo &&& 0x7FF)
    else if regDesc = 0x0E ∧ field hi 0 8 = 0x00 then some lo
    else none

structure Gs where
  regs : VertexRegs
  queue : VertexQueue GSVertex

/-- The next state, and the primitive drawn if one is. -/
def Effect.perform : Effect → Gs → Gs × Option (List GSVertex)
  | .prim next, gs => ({ regs := next, queue := { gs.queue with vtxCount := 0 } }, none)
  | .regs next, gs => ({ gs with regs := next }, none)
  | .vertex v drawing, gs =>
    let (queue, drawn) := gs.queue.putVertex (primType gs.regs.prim) v drawing
    ({ gs with queue }, drawn)

/-- The primitives that a list of writes draws, each as the vertices read of the queue. -/
def drawn : List Write → Gs → List (List GSVertex)
  | [], _ => []
  | w :: ws, gs =>
    let (gs, primitive) := (w.effect gs.regs).perform gs
    primitive.toList ++ drawn ws gs

/-- The vertices that a list of writes builds, each with whether it is kicked. -/
def vertices : List Write → VertexRegs → List (GSVertex × Bool)
  | [], _ => []
  | w :: ws, regs =>
    match w.effect regs with
    | .prim next => vertices ws next
    | .regs next => vertices ws next
    | .vertex v drawing => (v, drawing) :: vertices ws regs

end Ps2Recomp.Vertices
