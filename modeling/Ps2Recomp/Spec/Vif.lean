import Ps2Recomp.Lib.Bytes
import Ps2Recomp.Lib.Stream
import Ps2Recomp.Spec.Gif
import Ps2Recomp.Spec.Instruction

/-!
# The VIFs

`processVIF0Data` and `processVIF1Data` of `ps2_vif1_interpreter.cpp`. A loop takes a command and its
data from the front of what is left, until less than a word is left or a command's data is not there. What
is counted in the source from the start of the data is counted here from what is left; the memories of the
VUs are there. No caller hands over so much that a position would go around 32 bits.
-/

namespace Ps2Recomp.Vif

open Bytes Gif

structure VifRegisters where
  stat : Word
  mark : Word
  cycle : Word
  mode : Word
  num : Word
  mask : Word
  code : Word
  itops : Word
  base : Word
  ofst : Word
  tops : Word
  itop : Word
  top : Word
  row : Quad
  col : Quad
  deriving DecidableEq

/-- The registers behind `initialize`. -/
def clearedRegs : VifRegisters := ⟨0, 0, 0, 0, 0, 0, 0, 0, 0, 0, 0, 0, 0, fun _ => 0, fun _ => 0⟩

inductive VifCmd
  | nop | stcycl | offset | base | itop | stmod | mskpath3 | mark | flushe | flush | flusha | mscal | mscalf
  | mscnt | stmask | strow | stcol | mpg | direct | directhl
  deriving DecidableEq, Repr

def VifCmd.ofOpcode : ℕ → Option VifCmd
  | 0x00 => some .nop
  | 0x01 => some .stcycl
  | 0x02 => some .offset
  | 0x03 => some .base
  | 0x04 => some .itop
  | 0x05 => some .stmod
  | 0x06 => some .mskpath3
  | 0x07 => some .mark
  | 0x10 => some .flushe
  | 0x11 => some .flush
  | 0x13 => some .flusha
  | 0x14 => some .mscal
  | 0x15 => some .mscalf
  | 0x17 => some .mscnt
  | 0x20 => some .stmask
  | 0x30 => some .strow
  | 0x31 => some .stcol
  | 0x4A => some .mpg
  | 0x50 => some .direct
  | 0x51 => some .directhl
  | _ => none

/-! ### Commands -/

def opcode (cmd : Word) : ℕ := ((cmd >>> 24) &&& 0x7F).toNat

def imm (cmd : Word) : BitVec 16 := cmd.setWidth 16

def num (cmd : Word) : Word := (cmd >>> 16) &&& 0xFF

def irq (cmd : Word) : Bool := cmd.getLsbD 31

/-- Whether an opcode is one of UNPACK. -/
def isUnpack (opcode : ℕ) : Bool := opcode &&& 0x60 == 0x60

def byteAt (data : List Byte) (p : ℕ) : Byte := data.getD p 0

def halfAt (data : List Byte) (p : ℕ) : BitVec 16 := .ofNat 16 (load (byteAt data) p 2)

def wordAt (data : List Byte) (p : ℕ) : Word := .ofNat 32 (load (byteAt data) p 4)

/-- `VIFn_CODE`, `VIFn_NUM` and the interrupt bit. -/
def VifRegisters.track (cmd : Word) (r : VifRegisters) : VifRegisters :=
  { r with
    code := cmd
    num := Vif.num cmd
    stat := if irq cmd then r.stat ||| ((1 : Word) <<< 11) else r.stat }

/-- What is left behind the data of a command, if it is there. -/
def behind (n : ℕ) (data : List Byte) : Option (List Byte) :=
  if data.length < n then none else some (data.drop n)

def mpgBytes (cmd : Word) : ℕ := (if num cmd = 0 then 256 else (num cmd).toNat) * 8

/-- How much of a microprogram fits in a code memory of a size. -/
def mpgCopied (size destAddr : ℕ) (cmd : Word) : ℕ :=
  if size < destAddr + mpgBytes cmd then size - destAddr else mpgBytes cmd

/-! ### UNPACK -/

/-- A UNPACK command, with the cycle it is done in. -/
structure Unpack where
  vn : ℕ
  vl : ℕ
  maskEnable : Bool
  zeroExtend : Bool
  writeVectorCount : ℕ
  cl : ℕ
  wl : ℕ
  vuAddr : ℕ
  vn_lt : vn < 4
  vl_lt : vl < 4
  count_pos : 0 < writeVectorCount
  count_le : writeVectorCount ≤ 256
  cl_pos : 0 < cl
  cl_lt : cl < 256
  wl_pos : 0 < wl
  addr_lt : vuAddr < 1024

theorem and_lt (a : ℕ) {k : ℕ} : a &&& (2 ^ k - 1) < 2 ^ k := by
  rw [Nat.and_two_pow_sub_one_eq_mod]
  exact Nat.mod_lt _ (Nat.two_pow_pos k)

theorem num_lt (cmd : Word) : (num cmd).toNat < 256 := by
  rw [num, BitVec.toNat_and]
  exact and_lt _ (k := 8)

/-- A field of CYCLE, of which 0 counts as 1. -/
def cycleField (v : Word) : ℕ := if (v &&& 0xFF) = 0 then 1 else (v &&& 0xFF).toNat

theorem cycleField_bounds (v : Word) : 0 < cycleField v ∧ cycleField v < 256 := by
  have hlt : (v &&& 0xFF).toNat < 256 := by
    rw [BitVec.toNat_and]
    exact and_lt _ (k := 8)
  rw [cycleField]
  split
  · exact ⟨Nat.one_pos, by omega⟩
  · next hne =>
    refine ⟨Nat.pos_of_ne_zero fun h => hne (BitVec.eq_of_toNat_eq ?_), hlt⟩
    rw [h]
    rfl

/-- Where a UNPACK begins to write. With bit 15 of the immediate it counts from TOPS. -/
def vuAddr (cmd tops : Word) : Word :=
  let addr := cmd &&& 0x3FF
  if (imm cmd).getLsbD 15 then (addr + (tops &&& 0x3FF)) &&& 0x3FF else addr

theorem vuAddr_lt (cmd tops : Word) : (vuAddr cmd tops).toNat < 1024 := by
  rw [vuAddr]
  split
  · rw [BitVec.toNat_and]
    exact and_lt _ (k := 10)
  · rw [BitVec.toNat_and]
    exact and_lt _ (k := 10)

def unpackOf (cmd : Word) (r : VifRegisters) : Unpack where
  vn := opcode cmd / 4 % 4
  vl := opcode cmd % 4
  maskEnable := opcode cmd &&& 0x10 != 0
  zeroExtend := (imm cmd).getLsbD 14
  writeVectorCount := if num cmd = 0 then 256 else (num cmd).toNat
  cl := cycleField r.cycle
  wl := cycleField (r.cycle >>> 8)
  vuAddr := (vuAddr cmd r.tops).toNat
  vn_lt := Nat.mod_lt _ (by decide)
  vl_lt := Nat.mod_lt _ (by decide)
  count_pos := by
    split
    · decide
    · next h =>
      exact Nat.pos_of_ne_zero fun hz => h (BitVec.eq_of_toNat_eq hz)
  count_le := by
    split
    · exact le_rfl
    · exact (num_lt cmd).le
  cl_pos := (cycleField_bounds _).1
  cl_lt := (cycleField_bounds _).2
  wl_pos := (cycleField_bounds _).1
  addr_lt := vuAddr_lt _ _

namespace Unpack

variable (u : Unpack)

def components : ℕ := u.vn + 1

def bitsPerComponent : ℕ :=
  match u.vl with
  | 0 => 32
  | 1 => 16
  | 2 => 8
  | _ => if u.vn = 3 then 4 else 16

def bitsPerVector : ℕ := if u.vl = 3 ∧ u.vn = 3 then 16 else u.components * u.bitsPerComponent

def bytesPerVector : ℕ := (u.bitsPerVector + 7) / 8

def sourceVectorCount : ℕ :=
  if u.cl < u.wl then
    u.writeVectorCount / u.wl * u.cl + min (u.writeVectorCount % u.wl) u.cl
  else u.writeVectorCount

/-- The bytes of the data, in whole words. -/
def totalBytes : ℕ := (u.sourceVectorCount * u.bytesPerVector + 3) / 4 * 4

def cyclePos (writeIndex : ℕ) : ℕ := writeIndex % u.wl

/-- Whether a write takes a vector of the data. -/
def sourceAvailable (writeIndex : ℕ) : Bool := u.wl ≤ u.cl || u.cyclePos writeIndex < u.cl

def destVec (writeIndex : ℕ) : ℕ :=
  if u.wl ≤ u.cl then (u.vuAddr + writeIndex / u.wl * u.cl + u.cyclePos writeIndex) % 1024
  else (u.vuAddr + writeIndex) % 1024

def destOff (writeIndex : ℕ) : ℕ := u.destVec writeIndex * 16

def srcVec (payload : List Byte) (srcIndex : ℕ) : List Byte := payload.drop (srcIndex * u.bytesPerVector)

/-- The vector that a write takes, if it takes one. -/
def taken (payload : List Byte) (srcIndex writeIndex : ℕ) : Option (List Byte) :=
  if u.sourceAvailable writeIndex && decide (srcIndex < u.sourceVectorCount) then some (u.srcVec payload srcIndex)
  else none

/-- The index of the vector behind a write. -/
def nextIndex (srcIndex writeIndex : ℕ) : ℕ :=
  if u.sourceAvailable writeIndex && decide (srcIndex < u.sourceVectorCount) then srcIndex + 1 else srcIndex

/-- What a write does to a quadword of the memory. -/
inductive Change
  | kept
  | lanes (lanes : Quad)
  | bytes (bytes : List Byte) (length_le : bytes.length ≤ 16)

def Change.apply (m : Memory) (p : ℕ) : Change → Memory
  | .kept => m
  | .lanes l => setQuad m p l
  | .bytes l _ => copy m p l

/-! ### VIF0 -/

/-- A quadword in VIF0, which knows only components of 32 bits. -/
def change0 (size : ℕ) (payload : List Byte) (srcIndex writeIndex : ℕ) (lanes : Quad) : Change :=
  if size < u.destOff writeIndex + 16 then .kept
  else
    match u.taken payload srcIndex writeIndex with
    | none => .kept
    | some srcVec => .lanes fun c => if c.val < u.components then wordAt srcVec (4 * c) else lanes c

/-- A write of VIF0. -/
def write0 (size : ℕ) (payload : List Byte) : Pass ℕ := fun writeIndex srcIndex m =>
  let destOff := u.destOff writeIndex
  (u.nextIndex srcIndex writeIndex, (u.change0 size payload srcIndex writeIndex (quad m destOff)).apply m destOff)

/-! ### VIF1 -/

def extend16 (raw : BitVec 16) : Word := if u.zeroExtend then raw.setWidth 32 else raw.signExtend 32

def extend8 (raw : BitVec 8) : Word := if u.zeroExtend then raw.setWidth 32 else raw.signExtend 32

/-- A component of a vector, of 32, 16 or 8 bits. -/
def component (srcVec : List Byte) (c : ℕ) : Word :=
  match u.vl with
  | 0 => wordAt srcVec (4 * c)
  | 1 => u.extend16 (halfAt srcVec (2 * c))
  | _ => u.extend8 (byteAt srcVec c)

/-- V4-5: a color in 16 bits. -/
def packed (srcVec : List Byte) : Quad :=
  let packed : Word := (halfAt srcVec 0).setWidth 32
  ![packed &&& 0x1F, (packed >>> 5) &&& 0x1F, (packed >>> 10) &&& 0x1F, (packed >>> 15) &&& 0x01]

/-- The lanes of a vector, unless its format is not known. A single component goes to all lanes. -/
def decompress (srcVec : List Byte) (lanes : Quad) : Option Quad :=
  if u.vl = 3 then
    if u.vn = 3 then some (packed srcVec) else none
  else
    some fun c =>
      if u.components = 1 then u.component srcVec 0
      else if c.val < u.components then u.component srcVec c
      else lanes c

/-- What the mask says of a field. -/
def maskField (mask : Word) (writeIndex : ℕ) (field : Fin 4) : ℕ :=
  let maskCycle := min (u.cyclePos writeIndex) 3
  if u.maskEnable then ((mask >>> ((maskCycle * 4 + field) * 2)) &&& 0x3).toNat else 0

/-- What a field becomes. Where no vector is taken the row stands for it. -/
def maskSpec (mask : Word) (writeIndex : ℕ) (decoded : Bool) (field : Fin 4) : ℕ :=
  if !decoded && u.maskField mask writeIndex field = 0 then 1 else u.maskField mask writeIndex field

def canAdd : Bool := u.vl != 3 || u.vn != 3

/-- A field of a write: the lane and the row. The row is added in the modes 1 and 2, and keeps the sum in
mode 2. -/
def writeField (mode spec : ℕ) (decompressed : Option Word) (col : Word) (lane row : Word) : Word × Word :=
  match spec with
  | 0 =>
    match decompressed with
    | none => (lane, row)
    | some v =>
      if u.canAdd && (mode = 1 || mode = 2) then (v + row, if mode = 2 then v + row else row) else (v, row)
  | 1 => (row, row)
  | 2 => (col, row)
  | _ => (lane, row)

/-- The registers that a UNPACK reads. -/
structure Filter where
  mask : Word
  mode : Word
  col : Quad

/-- The fields of a write. -/
def writeFields (r : Filter) (writeIndex : ℕ) (decoded : Bool) (decompressed : Option Quad) (lanes row : Quad)
    (field : Fin 4) : Word × Word :=
  u.writeField (r.mode &&& 3).toNat (u.maskSpec r.mask writeIndex decoded field) (decompressed.map (· field))
    (r.col (.ofNat 4 (min (u.cyclePos writeIndex) 3))) (lanes field) (row field)

/-- The fields of a format that is not known are copied as they are, if nothing is masked or added. -/
def rawCopy (r : Filter) : Bool := !u.maskEnable && (r.mode = 0 || r.mode = 3)

theorem length_raw (srcVec : List Byte) : (srcVec.take (min u.bytesPerVector 16)).length ≤ 16 :=
  (List.length_take_le _ _).trans (Nat.min_le_right _ _)

/-- A quadword in VIF1, and the row behind it. -/
def change1 (size : ℕ) (r : Filter) (payload : List Byte) (srcIndex writeIndex : ℕ) (row lanes : Quad) :
    Quad × Change :=
  let fields (decoded : Bool) (decompressed : Option Quad) : Quad × Change :=
    let written := u.writeFields r writeIndex decoded decompressed lanes row
    (fun f => (written f).2, .lanes fun f => (written f).1)
  if size < u.destOff writeIndex + 16 then (row, .kept)
  else
    match u.taken payload srcIndex writeIndex with
    | none => fields false none
    | some srcVec =>
      match u.decompress srcVec lanes with
      | none =>
        if u.rawCopy r then (row, .bytes (srcVec.take (min u.bytesPerVector 16)) (u.length_raw srcVec))
        else fields true none
      | some v => fields true (some v)

/-- A write of VIF1. -/
def write1 (size : ℕ) (r : Filter) (payload : List Byte) : Pass (ℕ × Quad) := fun writeIndex s m =>
  let destOff := u.destOff writeIndex
  let change := u.change1 size r payload s.1 writeIndex s.2 (quad m destOff)
  ((u.nextIndex s.1 writeIndex, change.1), change.2.apply m destOff)

end Unpack

/-! ### `processVIF0Data` -/

def vu0CodeSize : ℕ := 4096

def vu0DataSize : ℕ := 4096

def vu1CodeSize : ℕ := 16384

def vu1DataSize : ℕ := 16384

structure Vif0 where
  regs : VifRegisters
  vu0Data : Memory
  vu0Code : Memory

namespace Vif0

/-- `MPG` of VIF0. -/
def mpg (cmd : Word) (data : List Byte) (s : Vif0) : Vif0 :=
  let destAddr := (imm cmd &&& 0x1FF).toNat * 8
  let copyBytes := mpgCopied vu0CodeSize destAddr cmd
  if destAddr < vu0CodeSize ∧ copyBytes ≤ data.length then
    { s with vu0Code := copy s.vu0Code destAddr (data.take copyBytes) }
  else s

/-- `UNPACK` of VIF0. -/
def unpack (cmd : Word) (data : List Byte) (s : Vif0) : Vif0 :=
  let u := unpackOf cmd s.regs
  if u.totalBytes ≤ data.length ∧ u.vl = 0 then
    { s with
      vu0Data := ((List.range u.writeVectorCount).foldl
        (fun x k => u.write0 vu0DataSize (data.take u.totalBytes) k x.1 x.2) (0, s.vu0Data)).2 }
  else s

/-- A command, and what is left behind it. The loop ends if nothing is. -/
def command (cmd : Word) (data : List Byte) (s : Vif0) : Vif0 × Option (List Byte) :=
  match VifCmd.ofOpcode (opcode cmd) with
  | some .nop | some .flushe | some .flush | some .flusha => (s, some data)
  | some .stcycl => ({ s with regs := { s.regs with cycle := (imm cmd).setWidth 32 } }, some data)
  | some .itop => ({ s with regs := { s.regs with itops := (imm cmd &&& 0x3FF).setWidth 32 } }, some data)
  | some .stmod => ({ s with regs := { s.regs with mode := (imm cmd &&& 3).setWidth 32 } }, some data)
  | some .mark =>
    ({ s with regs := { s.regs with mark := (imm cmd).setWidth 32, stat := s.regs.stat ||| ((1 : Word) <<< 6) } }, some data)
  | some .stmask =>
    if data.length < 4 then (s, none)
    else ({ s with regs := { s.regs with mask := wordAt data 0 } }, some (data.drop 4))
  | some .strow =>
    if data.length < 16 then (s, none)
    else ({ s with regs := { s.regs with row := quad (byteAt data) 0 } }, some (data.drop 16))
  | some .stcol =>
    if data.length < 16 then (s, none)
    else ({ s with regs := { s.regs with col := quad (byteAt data) 0 } }, some (data.drop 16))
  | some .mpg => (s.mpg cmd data, behind (mpgBytes cmd) data)
  | _ =>
    if isUnpack (opcode cmd) then (s.unpack cmd data, behind (unpackOf cmd s.regs).totalBytes data) else (s, none)

def step (data : List Byte) (s : Vif0) : Vif0 × Option (List Byte) :=
  let cmd := wordAt data 0
  command cmd (data.drop 4) { s with regs := s.regs.track cmd }

end Vif0

def processVIF0Data (data : List Byte) (s : Vif0) : Vif0 := Stream.run 4 Vif0.step data s

/-! ### `processVIF1Data` -/

/-- The state of VIF1 and what it works on, with a record of the packets that it submitted on path 2. -/
structure Vif1 (G : Type) where
  regs : VifRegisters
  vu1Data : Memory
  vu1Code : Memory
  vu1CodeGeneration : ℕ
  pendingPath2ImageQwc : ℕ
  pendingPath2DirectHl : Bool
  gif : GifPort G
  path2 : List (List Byte)

/-- What VIF1 hands its work to. A microprogram reads the code memory, and works on the data memory and what
is behind the GIF. -/
structure Vu1 (G : Type) where
  sink : Sink G
  mscal : Word → Word → Word → Memory → Memory × GifPort G → Memory × GifPort G
  mscnt : Word → Word → Memory → Memory × GifPort G → Memory × GifPort G

/-- How much of an image a tag asks for. -/
def gifImageQwcFromTag (data : List Byte) : ℕ :=
  if data.length < 16 then 0
  else if (tagLo data >>> 58) &&& 0x3 = 2 then (tagLo data &&& 0x7FFF).toNat
  else 0

/-- The tag that VIF1 puts in front of a part of an image. -/
def imageTag (chunkQw : ℕ) (last : Bool) : List Byte :=
  let tag : BitVec 64 := (.ofNat 64 chunkQw &&& 0x7FFF) ||| (if last then (1 : BitVec 64) <<< 15 else 0) ||| ((2 : BitVec 64) <<< 58)
  (List.range 8).map (fun i => (tag >>> (8 * i)).setWidth 8) ++ List.replicate 8 0

namespace Vif1

variable {G : Type} (v : Vu1 G)

def submitPath2 (packet : List Byte) (directHl : Bool) (s : Vif1 G) : Vif1 G :=
  { s with
    gif := GifPort.submitGifPacket v.sink .path2 packet true directHl s.gif
    path2 := s.path2 ++ [packet] }

/-- The image of an earlier DIRECT goes on. -/
def image (data : List Byte) (s : Vif1 G) : Vif1 G × Option (List Byte) :=
  let availableQw := data.length / 16
  if availableQw = 0 then (s, none)
  else
    let chunkQw := min s.pendingPath2ImageQwc availableQw
    let packet := imageTag chunkQw (s.pendingPath2ImageQwc == chunkQw) ++ data.take (chunkQw * 16)
    let s := submitPath2 v packet s.pendingPath2DirectHl s
    let left := s.pendingPath2ImageQwc - chunkQw
    ({ s with
      pendingPath2ImageQwc := left
      pendingPath2DirectHl := if left = 0 then false else s.pendingPath2DirectHl },
      some (data.drop (chunkQw * 16)))

/-- The buffers of VIF1 are changed over when a microprogram starts. -/
def swapBuffers (r : VifRegisters) : VifRegisters :=
  { r with
    top := r.tops &&& 0x3FF
    itop := r.itops &&& 0x3FF
    tops := if r.stat.getLsbD 7 then r.base &&& 0x3FF else (r.base + r.ofst) &&& 0x3FF
    stat := r.stat ^^^ ((1 : Word) <<< 7) }

/-- A microprogram is run behind a change of the buffers. -/
def start (microprogram : Word → Word → Memory → Memory × GifPort G → Memory × GifPort G) (s : Vif1 G) : Vif1 G :=
  let regs := swapBuffers s.regs
  let ran := microprogram regs.top regs.itop s.vu1Code (s.vu1Data, s.gif)
  { s with regs, vu1Data := ran.1, gif := ran.2 }

/-- `MPG` of VIF1. -/
def mpg (cmd : Word) (data : List Byte) (s : Vif1 G) : Vif1 G :=
  let destAddr := (imm cmd).toNat * 8
  let copyBytes := mpgCopied vu1CodeSize destAddr cmd
  if destAddr < vu1CodeSize ∧ copyBytes ≤ data.length then
    { s with
      vu1Code := copy s.vu1Code destAddr (data.take copyBytes)
      vu1CodeGeneration := s.vu1CodeGeneration + 1 }
  else s

/-- How many quadwords a DIRECT asks for. -/
def directQwc (cmd : Word) : ℕ := if imm cmd = 0 then 65536 else (imm cmd).toNat

/-- The packet of a DIRECT, and the part of its image that is to come. -/
def submitDirect (qwCount : ℕ) (directHl : Bool) (data : List Byte) (s : Vif1 G) : Vif1 G :=
  let packet := data.take (qwCount * 16)
  let s := submitPath2 v packet directHl s
  let imageQw := gifImageQwcFromTag packet
  if qwCount - 1 < imageQw then
    { s with pendingPath2ImageQwc := imageQw - (qwCount - 1), pendingPath2DirectHl := directHl }
  else s

/-- `DIRECT` and `DIRECTHL`. What is there is submitted, and the loop ends if that is not all. -/
def direct (cmd : Word) (directHl : Bool) (data : List Byte) (s : Vif1 G) : Vif1 G × Option (List Byte) :=
  let availableQw := data.length / 16
  let qwCount := min (directQwc cmd) availableQw
  let s := if 0 < qwCount then submitDirect v qwCount directHl data s else s
  if availableQw < directQwc cmd then (s, none) else (s, some (data.drop (qwCount * 16)))

/-- `UNPACK` of VIF1. -/
def unpack (cmd : Word) (data : List Byte) (s : Vif1 G) : Vif1 G :=
  let u := unpackOf cmd s.regs
  if 0 < u.totalBytes ∧ u.totalBytes ≤ data.length then
    let done := (List.range u.writeVectorCount).foldl
      (fun x k => u.write1 vu1DataSize ⟨s.regs.mask, s.regs.mode, s.regs.col⟩ (data.take u.totalBytes) k x.1 x.2)
      ((0, s.regs.row), s.vu1Data)
    { s with regs := { s.regs with row := done.1.2 }, vu1Data := done.2 }
  else s

/-- A command, and what is left behind it. The loop ends if nothing is. -/
def command (cmd : Word) (data : List Byte) (s : Vif1 G) : Vif1 G × Option (List Byte) :=
  match VifCmd.ofOpcode (opcode cmd) with
  | some .nop | some .flushe | some .flush | some .flusha => (s, some data)
  | some .stcycl => ({ s with regs := { s.regs with cycle := (imm cmd).setWidth 32 } }, some data)
  | some .offset =>
    ({ s with
      regs := { s.regs with
        ofst := (imm cmd &&& 0x3FF).setWidth 32
        tops := s.regs.base &&& 0x3FF
        stat := s.regs.stat &&& ~~~((1 : Word) <<< 7) } }, some data)
  | some .base => ({ s with regs := { s.regs with base := (imm cmd &&& 0x3FF).setWidth 32 } }, some data)
  | some .itop => ({ s with regs := { s.regs with itops := (imm cmd &&& 0x3FF).setWidth 32 } }, some data)
  | some .stmod => ({ s with regs := { s.regs with mode := (imm cmd &&& 3).setWidth 32 } }, some data)
  | some .mskpath3 => ({ s with gif := GifPort.mskPath3 v.sink (imm cmd) s.gif }, some data)
  | some .mark =>
    ({ s with regs := { s.regs with mark := (imm cmd).setWidth 32, stat := s.regs.stat ||| ((1 : Word) <<< 6) } }, some data)
  | some .mscal | some .mscalf => (start (v.mscal ((imm cmd).setWidth 32 * 8)) s, some data)
  | some .mscnt => (start v.mscnt s, some data)
  | some .stmask =>
    if data.length < 4 then (s, none)
    else ({ s with regs := { s.regs with mask := wordAt data 0 } }, some (data.drop 4))
  | some .strow =>
    if data.length < 16 then (s, none)
    else ({ s with regs := { s.regs with row := quad (byteAt data) 0 } }, some (data.drop 16))
  | some .stcol =>
    if data.length < 16 then (s, none)
    else ({ s with regs := { s.regs with col := quad (byteAt data) 0 } }, some (data.drop 16))
  | some .mpg => (mpg cmd data s, behind (mpgBytes cmd) data)
  | some .direct => direct v cmd false data s
  | some .directhl => direct v cmd true data s
  | none =>
    if isUnpack (opcode cmd) then (unpack cmd data s, behind (unpackOf cmd s.regs).totalBytes data)
    else (s, some data)

def step (data : List Byte) (s : Vif1 G) : Vif1 G × Option (List Byte) :=
  if s.pendingPath2ImageQwc ≠ 0 then image v data s
  else
    let cmd := wordAt data 0
    command v cmd (data.drop 4) { s with regs := s.regs.track cmd }

end Vif1

def processVIF1Data {G : Type} (v : Vu1 G) (data : List Byte) (s : Vif1 G) : Vif1 G :=
  Stream.run 4 (Vif1.step v) data s

end Ps2Recomp.Vif
