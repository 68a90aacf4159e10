import Ps2Recomp.Spec.HostFiles

/-!
# The memory card server

`handleMcServRpc` (`ps2_iop_mcman.cpp`) and what it shares with the calls of `MemoryCard.cpp`: the globals `g_mc*`
and the helpers of `MemoryCard_Internal.h`. Bodies that both have, line by line, are written once (`openBody`,
`closeBody`, `readBody`, `writeBody`, `infoBody`, `getDirBody`), with what differs as a parameter.

Trace output is left out.
-/

namespace Ps2Recomp.McServ

open Memory VSync GuestPaths HostFiles
open SifRpc (HostPtr)

abbrev kMcResultSucceed : Word := 0

abbrev kMcResultNoFormat : Word := -2

abbrev kMcResultNoEntry : Word := -4

abbrev kMcResultDeniedPermit : Word := -5

abbrev kMcResultUpLimitHandle : Word := -7

def kMcMaxPathLen : ℕ := 1024

def kMcMaxOpenFiles : ℕ := 32

/-! ### State -/

structure McOpenFile (F : Type) where
  file : Option F
  port : Word
  hostPath : Path

/-- The globals `g_mc*`. -/
structure McState (F : Type) where
  nextFd : Word
  lastCmd : Word
  lastResult : Word
  files : List (Word × McOpenFile F)
  ports : McPorts

/-- What no call changes: the host, its rules for paths, `getMcRootPath` and `isMcInitBypassEnabled`. -/
structure Env (σ F : Type) where
  host : Host σ F
  rules : Rules
  root : ℤ → Path
  bypass : Bool

structure McWorld (σ F : Type) where
  guest : Guest
  mc : McState F
  host : σ

variable {σ F : Type} (e : Env σ F) (w : McWorld σ F)

def McState.setMcCommandResultLocked (mc : McState F) (cmd result : Word) : McState F :=
  { mc with lastCmd := cmd, lastResult := result }

def McWorld.setMcCommandResultLocked (cmd result : Word) : McWorld σ F :=
  { w with mc := w.mc.setMcCommandResultLocked cmd result }

/-- The file of a descriptor, if it has one. -/
def McState.file (mc : McState F) (fd : Word) : Option F := (mc.files.lookup fd).bind (·.file)

/-! ### Files -/

/-- The loop of `allocateMcFdLocked`, with so many attempts left. -/
def allocateLoop (openFile : McOpenFile F) : ℕ → McState F → Word × McState F
  | 0, mc => (kMcResultUpLimitHandle, mc)
  | attempt + 1, mc =>
    let fd := if mc.nextFd.toInt ≤ 0 then 1 else mc.nextFd
    let mc := { mc with nextFd := fd + 1 }
    if (mc.files.lookup fd).isSome then allocateLoop openFile attempt mc
    else (fd, { mc with files := (fd, openFile) :: mc.files })

def allocateMcFdLocked (mc : McState F) (file : F) (port : Word) (hostPath : Path) : Word × McState F :=
  if kMcMaxOpenFiles ≤ mc.files.length then (kMcResultUpLimitHandle, mc)
  else allocateLoop ⟨some file, port, hostPath⟩ 0x10000 mc

/-- The mode that `openMcHostFile` picks. -/
def openMode (flags : Word) (pathExists : Bool) : Mode :=
  let access := flags &&& 0x0003
  let read : Bool := access = 0x0001 || access = 0x0003
  let write : Bool := access = 0x0002 || access = 0x0003
  let append : Bool := flags &&& 0x0100 ≠ 0
  let create : Bool := flags &&& 0x0200 ≠ 0
  let truncate : Bool := flags &&& 0x0400 ≠ 0
  if read && write then
    if append then (if pathExists then .aPlus else .wPlus)
    else if truncate || (create && !pathExists) then .wPlus
    else .rPlus
  else if write then
    if append then (if pathExists then .ab else .wb)
    else if truncate || (create && !pathExists) then .wb
    else .rPlus
  else .rb

def openMcHostFile (h : σ) (hostPath : Path) (flags : Word) : Option F × σ :=
  e.host.fopen h hostPath (openMode flags (e.host.pathExists h hostPath))

def parentPath (p : Path) : Path := { p with comps := p.comps.dropLast }

def openBody (port slot : Word) (path : Str) (flags : Word) : Word × McWorld σ F :=
  if isValidMcPortSlot port.toInt slot.toInt then
    if (w.mc.ports port.toInt).formatted then
      let normalized := normalizeGuestMcPathLocked w.mc.ports port.toInt path
      let hostPath := guestMcPathToHostPath e.rules (e.root port.toInt) normalized
      let create : Bool := flags &&& 0x0200 ≠ 0
      let there := e.host.pathExists w.host hostPath
      if normalized = ['/'] then (kMcResultDeniedPermit, w)
      else if there && e.host.isDirectory w.host hostPath then (kMcResultDeniedPermit, w)
      else if !there && !create then (kMcResultNoEntry, w)
      else if !e.host.pathExists w.host (parentPath hostPath) then (kMcResultNoEntry, w)
      else
        match openMcHostFile e w.host hostPath flags with
        | (none, h) => (if there then kMcResultDeniedPermit else kMcResultNoEntry, { w with host := h })
        | (some file, h) =>
          let (result, mc) := allocateMcFdLocked w.mc file port hostPath
          (result, { w with mc, host := if result.toInt < 0 then (e.host.fclose h file).2 else h })
    else (kMcResultNoFormat, w)
  else (kMcResultNoEntry, w)

def closeBody (fd : Word) : Word × McWorld σ F :=
  match w.mc.files.lookup fd with
  | none => (kMcResultNoEntry, w)
  | some openFile =>
    let (closed, h) :=
      match openFile.file with
      | none => (true, w.host)
      | some file => e.host.fclose w.host file
    (if closed then kMcResultSucceed else kMcResultNoEntry,
      { w with mc.files := w.mc.files.filter (·.1 ≠ fd), host := h })

def readBody (fd : Word) (size : ℕ) (dst : Option HostPtr) : Word × McWorld σ F :=
  if size = 0 then (0, w)
  else
    match w.mc.file fd, dst with
    | none, _ => (kMcResultNoEntry, w)
    | some _, none => (kMcResultDeniedPermit, w)
    | some file, some dst =>
      let (bytes, h) := e.host.fread w.host file size
      let w := { w with guest := w.guest.copyTo dst bytes }
      if e.host.ferror h file then (kMcResultDeniedPermit, { w with host := e.host.clearerr h file })
      else (BitVec.ofNat 32 bytes.length, { w with host := h })

def writeBody (fd : Word) (size : ℕ) (src : Option HostPtr) : Word × McWorld σ F :=
  if size = 0 then (0, w)
  else
    match w.mc.file fd, src with
    | none, _ => (kMcResultNoEntry, w)
    | some _, none => (kMcResultDeniedPermit, w)
    | some file, some src =>
      let (bytesWritten, h) := e.host.fwrite w.host file (w.guest.bytes src size)
      if e.host.ferror h file then (kMcResultDeniedPermit, { w with host := e.host.clearerr h file })
      else (BitVec.ofNat 32 bytesWritten, { w with host := e.host.fflush h file })

/-! ### Information -/

structure CardInfo where
  cardType : Word := 0
  freeBlocks : Word := 0
  format : Word := 0
  result : Word := kMcResultNoEntry

def infoBody (mc : McState F) (port slot : Word) : CardInfo :=
  if isValidMcPortSlot port.toInt slot.toInt then
    let formatted := (mc.ports port.toInt).formatted
    { cardType := 2
      freeBlocks := if formatted then 0x2000 else 0
      format := if formatted then 1 else 0
      result := if formatted then kMcResultSucceed else kMcResultNoFormat }
  else {}

/-! ### Directories -/

structure SceMcStDateTime where
  sec : Byte
  min : Byte
  hour : Byte
  day : Byte
  month : Byte
  year : BitVec 16

structure SceMcTblGetDir where
  create : SceMcStDateTime
  modify : SceMcStDateTime
  fileSizeByte : Word
  attrFile : BitVec 16
  entryName : List Byte

def writeMcDateTime : Option Tm → SceMcStDateTime
  | none => ⟨0, 0, 0, 0, 0, 0⟩
  | some tm =>
    { sec := BitVec.ofInt 8 tm.sec
      min := BitVec.ofInt 8 tm.min
      hour := BitVec.ofInt 8 tm.hour
      day := BitVec.ofInt 8 tm.mday
      month := BitVec.ofInt 8 (tm.mon + 1)
      year := BitVec.ofInt 16 (tm.year + 1900) }

def fillMcDirTableEntry (name : Str) (isDirectory : Bool) (sizeBytes : Word) (modifiedTime : ℤ) : SceMcTblGetDir :=
  { create := writeMcDateTime (e.host.localtime modifiedTime)
    modify := writeMcDateTime (e.host.localtime modifiedTime)
    fileSizeByte := if isDirectory then 0 else sizeBytes
    attrFile := 0x0001 ||| 0x0002 ||| (if isDirectory then 0x0020 else 0x0010) ||| 0x0080 ||| 0x8000
    entryName := (name.take 31).map fun c => BitVec.ofNat 8 c.toNat }

/-- The loop of `wildcardMatch`: what is left of the pattern and of the value, what was left of the value at the place
that `matchPos` names, and the pattern behind the last star. -/
def wildcardLoop (pattern value back : Str) (star : Option Str) (h : value.length ≤ back.length) : Bool :=
  match value, pattern, star, back with
  | [], pattern, _, _ => pattern.dropWhile (· = '*') = []
  | c :: value, p :: pattern, star, back =>
    if p = '?' ∨ p = c then
      wildcardLoop pattern value back star (Nat.le_of_succ_le h)
    else if p = '*' then wildcardLoop pattern (c :: value) (c :: value) (some pattern) (Nat.le_refl _)
    else
      match star, back with
      | some star, _ :: back => wildcardLoop star back back (some star) (Nat.le_refl _)
      | _, _ => false
  | _ :: _, [], some star, _ :: back => wildcardLoop star back back (some star) (Nat.le_refl _)
  | _ :: _, [], _, _ => false
termination_by (back.length, value.length, pattern.length)
decreasing_by
  · exact Prod.Lex.right _ (Prod.Lex.left _ _ (Nat.lt_succ_self _))
  · rcases Nat.lt_or_eq_of_le h with h | h
    · exact Prod.Lex.left _ _ h
    · rw [h]
      exact Prod.Lex.right _ (Prod.Lex.right _ (Nat.lt_succ_self _))
  · exact Prod.Lex.left _ _ (Nat.lt_succ_self _)
  · exact Prod.Lex.left _ _ (Nat.lt_succ_self _)

def wildcardMatch (pattern value : Str) : Bool := wildcardLoop pattern value value none (Nat.le_refl _)

/-- The host directory that a query is for, and the pattern for names in it. -/
def dirQuery (h : σ) (ports : McPorts) (port : Word) (rawPath : Str) : Path × Str :=
  let guestQuery := normalizeGuestMcPathLocked ports port.toInt (if rawPath = [] then dot else rawPath)
  let hasWildcard : Bool := '*' ∈ guestQuery || '?' ∈ guestQuery
  let queryRel : Path := if 1 < guestQuery.length then .parse e.rules (guestQuery.drop 1) else ⟨[], false, []⟩
  let wholeDirectory : Bool := !hasWildcard &&
    (let queryHostPath := guestMcPathToHostPath e.rules (e.root port.toInt) guestQuery
    e.host.pathExists h queryHostPath && e.host.isDirectory h queryHostPath)
  let parentRel := if wholeDirectory then queryRel else parentPath queryRel
  let pattern := if wholeDirectory then ['*'] else queryRel.comps.getLast?.getD []
  let hostDir := if parentRel = ⟨[], false, []⟩ then e.root port.toInt else (e.root port.toInt).join parentRel
  (hostDir.lexicallyNormal, if pattern = [] then ['*'] else pattern)

/-- The entries that `sceMcGetDir` and its sibling list, sorted by a key of theirs; nothing where there is no such
directory. -/
def dirEntries (key : DirectoryEntry → Str) (h : σ) (ports : McPorts) (port : Word) (rawPath : Str) :
    Option (List SceMcTblGetDir) :=
  let (hostDir, pattern) := dirQuery e h ports port rawPath
  if e.host.pathExists h hostDir && e.host.isDirectory h hostDir then
    let now := e.host.now h
    let special := ([dot, dotdot].filter (wildcardMatch pattern)).map fun name => fillMcDirTableEntry e name true 0 now
    let found := (e.host.sort key (e.host.directoryIterator h hostDir)).filter fun entry =>
      wildcardMatch pattern entry.filename
    some (special ++ found.map fun entry =>
      fillMcDirTableEntry e entry.filename entry.isDirectory entry.fileSize (entry.modified.getD now))
  else none

/-- The 64 bytes of an entry. -/
def SceMcStDateTime.toBytes (t : SceMcStDateTime) : List Byte :=
  [0, t.sec, t.min, t.hour, t.day, t.month, t.year.setWidth 8, (t.year >>> 8).setWidth 8]

def SceMcTblGetDir.toBytes (entry : SceMcTblGetDir) : List Byte :=
  entry.create.toBytes ++ entry.modify.toBytes ++ u32Bytes entry.fileSizeByte ++
    [entry.attrFile.setWidth 8, (entry.attrFile >>> 8).setWidth 8] ++ List.replicate 10 0 ++
    (entry.entryName ++ List.replicate 32 0).take 32

def getDirBody (key : DirectoryEntry → Str) (port slot : Word) (rawPath : Str) (maxEntries : ℕ) (tableAddr : Word) :
    Word × McWorld σ F :=
  if isValidMcPortSlot port.toInt slot.toInt then
    if (w.mc.ports port.toInt).formatted then
      let w := { w with host := e.host.createDirectories w.host (e.root port.toInt) }
      match dirEntries e key w.host w.mc.ports port rawPath with
      | none => (kMcResultNoEntry, w)
      | some entries =>
        let entryCount := min entries.length maxEntries
        if entryCount = 0 ∨ tableAddr = 0 then (BitVec.ofNat 32 entryCount, w)
        else
          match w.guest.ptr tableAddr with
          | none => (kMcResultDeniedPermit, w)
          | some dst =>
            (BitVec.ofNat 32 entryCount,
              { w with guest := w.guest.copyTo dst ((entries.take entryCount).flatMap (·.toBytes)) })
    else (kMcResultNoFormat, w)
  else (kMcResultNoEntry, w)

/-! ### The server -/

/-- `readGuestPath` -/
def readGuestPath (g : Guest) (addr : Word) : Str :=
  if addr = 0 then []
  else
    match g.ptr addr with
    | none => []
    | some p => toStr (g.bytes p kMcMaxPathLen)

/-- The reply of `kRpcInit`. -/
def initReply : List Byte := u32Bytes kMcResultSucceed ++ u32Bytes 0x20A ++ u32Bytes 0x20E

/-- What a command leaves behind, with its result. -/
def McWorld.finish (cmd : Word) (r : Word × McWorld σ F) : Word × McWorld σ F := (r.1, r.2.setMcCommandResultLocked cmd r.1)

def McWorld.writeResultI32 (addr result : Word) : McWorld σ F :=
  { w with guest := w.guest.writeResultI32 addr result }

def rpcOpen (sendBufAddr recvBufAddr : Word) : McWorld σ F :=
  let g := w.guest
  let (result, w) := McWorld.finish 0x02
    (openBody e w (g.readGuestU32 sendBufAddr) (g.readGuestU32 (sendBufAddr + 0x04))
      (readGuestPath g (sendBufAddr + 0x0C)) (g.readGuestU32 (sendBufAddr + 0x08)))
  w.writeResultI32 recvBufAddr result

def rpcClose (sendBufAddr recvBufAddr : Word) : McWorld σ F :=
  let (result, w) := McWorld.finish 0x03 (closeBody e w (w.guest.readGuestU32 sendBufAddr))
  w.writeResultI32 recvBufAddr result

/-- The receive buffer is the destination, and the result is not written anywhere. -/
def rpcRead (sendBufAddr recvBufAddr : Word) : McWorld σ F :=
  let g := w.guest
  (McWorld.finish 0x05
    (readBody e w (g.readGuestU32 sendBufAddr) (g.readGuestU32 (sendBufAddr + 0x04)).toNat (g.ptr recvBufAddr))).2

def rpcWrite (sendBufAddr recvBufAddr : Word) : McWorld σ F :=
  let g := w.guest
  let (result, w) := McWorld.finish 0x06
    (writeBody e w (g.readGuestU32 sendBufAddr) (g.readGuestU32 (sendBufAddr + 0x04)).toNat
      (g.ptr (sendBufAddr + 0x08)))
  w.writeResultI32 recvBufAddr result

/-- The information goes to the block that the command names, or else behind the receive buffer. -/
def rpcGetInfo (sendBufAddr recvBufAddr recvSize : Word) : McWorld σ F :=
  let g := w.guest
  let infoBlockAddr := g.readGuestU32 (sendBufAddr + 0x1C) &&& 0x1FFFFFFF
  let info := infoBody w.mc (g.readGuestU32 (sendBufAddr + 0x04)) (g.readGuestU32 (sendBufAddr + 0x08))
  let w := w.setMcCommandResultLocked 0x01 info.result
  let w := if 4 ≤ recvSize then w.writeResultI32 recvBufAddr info.result else w
  if infoBlockAddr ≠ 0 then
    let w := w.writeResultI32 infoBlockAddr info.cardType
    let w := w.writeResultI32 (infoBlockAddr + 0x04) info.freeBlocks
    w.writeResultI32 (infoBlockAddr + 0x90) info.format
  else if 12 ≤ recvSize then
    let triple := u32Bytes info.cardType ++ u32Bytes info.freeBlocks ++ u32Bytes info.format
    { w with guest := w.guest.copyAt recvBufAddr triple }
  else w

def rpcGetDir (sendBufAddr recvBufAddr recvSize : Word) : McWorld σ F :=
  let g := w.guest
  let tableAddr := g.readGuestU32 (sendBufAddr + 0x10) &&& 0x1FFFFFFF
  let (result, w) := McWorld.finish 0x0D
    (getDirBody e w (·.filename) (g.readGuestU32 sendBufAddr) (g.readGuestU32 (sendBufAddr + 0x04))
      (readGuestPath g (sendBufAddr + 0x14)) (g.readGuestU32 (sendBufAddr + 0x0C)).toNat tableAddr)
  if 4 ≤ recvSize then w.writeResultI32 recvBufAddr result else w

/-- The default reply: zeros, or that of `kRpcInit` where the check is bypassed. -/
def rpcDefault (rpcNum recvBufAddr recvSize : Word) : McWorld σ F :=
  if e.bypass && recvBufAddr ≠ 0 && 12 ≤ recvSize then
    McWorld.setMcCommandResultLocked { w with guest := w.guest.copyAt recvBufAddr initReply } rpcNum kMcResultSucceed
  else
    let guest :=
      if recvBufAddr ≠ 0 ∧ 0 < recvSize then w.guest.copyAt recvBufAddr (List.replicate recvSize.toNat 0) else w.guest
    McWorld.setMcCommandResultLocked { w with guest } rpcNum kMcResultNoEntry

def rpcInit (recvBufAddr : Word) : McWorld σ F :=
  McWorld.setMcCommandResultLocked { w with guest := w.guest.copyAt recvBufAddr initReply } 0xFE kMcResultSucceed

/-- `handleMcServRpc`; what it does not claim is nothing. The result pointer is the receive buffer. -/
def handleMcServRpc (sid rpcNum sendBufAddr recvBufAddr recvSize : Word) : Option (McWorld σ F) :=
  if sid ≠ 0x80000400 ∧ sid ≠ 0x80000080 then none
  else if rpcNum = 0xFE then some (rpcInit w recvBufAddr)
  else if rpcNum = 0x02 then some (rpcOpen e w sendBufAddr recvBufAddr)
  else if rpcNum = 0x03 then some (rpcClose e w sendBufAddr recvBufAddr)
  else if rpcNum = 0x05 then some (rpcRead e w sendBufAddr recvBufAddr)
  else if rpcNum = 0x06 then some (rpcWrite e w sendBufAddr recvBufAddr)
  else if rpcNum = 0x01 then some (rpcGetInfo w sendBufAddr recvBufAddr recvSize)
  else if rpcNum = 0x0D then some (rpcGetDir e w sendBufAddr recvBufAddr recvSize)
  else some (rpcDefault e w rpcNum recvBufAddr recvSize)

end Ps2Recomp.McServ

/-!
# Transfers into guest memory

The calls that put a file's bytes, or as many bytes as the guest says, where a guest address leads: `fioRead`
(`FileIO.cpp`), `Copy` (`System.cpp`), the read of `handleClFileRpc` (`ps2_iop_cl.cpp`) and those of the memory card
server. Each resolves the first byte only.

What `fioRead` keeps of the bytes it has read (`g_vagAccum`) is left out.
-/

namespace Ps2Recomp.FileReads

open Memory VSync HostFiles McServ
open SifRpc (HostPtr)
open GuestPaths (isValidMcPortSlot)

variable {σ F : Type}

/-- The host, the memory card server's environment, and the files behind `getHostFile` and `g_clFileHandles`. -/
structure Files (σ F : Type) where
  env : Env σ F
  ps2Files : Word → Option F
  clFiles : Word → Option F

variable (fs : Files σ F) (w : McWorld σ F)

/-! ### The calls -/

/-- With what is put in `$v0`. -/
def fioRead (ps2Fd bufAddr size : Word) : Word × McWorld σ F :=
  match w.guest.ptr bufAddr, fs.ps2Files ps2Fd with
  | none, _ => (-1, w)
  | some _, none => (-1, w)
  | some hostBuf, some fp =>
    if size = 0 then (0, w)
    else
      let (bytes, h) := fs.env.host.fread w.host fp size.toNat
      let w := { w with guest := w.guest.copyTo hostBuf bytes, host := h }
      if bytes.length < size.toNat && fs.env.host.ferror h fp then
        (-1, { w with host := fs.env.host.clearerr h fp })
      else (BitVec.ofNat 32 bytes.length, w)

def copy (g : Guest) (dest src size : Word) : Guest :=
  if 0 < size then
    match g.ptr dest, g.ptr src with
    | some destPtr, some srcPtr => g.copyTo destPtr (g.bytes srcPtr size.toNat)
    | _, _ => g
  else g

/-- What `handleClFileRpc` begins with. -/
def clearReply (g : Guest) (recvBufAddr recvSize : Word) : Guest :=
  if recvBufAddr ≠ 0 ∧ 0 < recvSize then g.copyAt recvBufAddr (List.replicate (min recvSize.toNat 0x40) 0) else g

/-- `writeResult` -/
def writeResult (g : Guest) (recvBufAddr recvSize status value : Word) : Guest :=
  let g := if recvBufAddr ≠ 0 ∧ 4 ≤ recvSize then g.writeGuestU32 recvBufAddr status else g
  if recvBufAddr ≠ 0 ∧ 8 ≤ recvSize then g.writeGuestU32 (recvBufAddr + 4) value else g

def kClFileBufferBytes : ℕ := 0x2000

/-- Command `0x0A` of `handleClFileRpc` before its reply, with the status and the value of that. -/
def clRead (g : Guest) (h : σ) (sendBufAddr : Word) : (Word × Word) × Guest × σ :=
  let requested := g.readGuestU32 (sendBufAddr + 4)
  match fs.clFiles (g.readGuestU32 sendBufAddr), g.ptr (g.readGuestU32 (sendBufAddr + 8)) with
  | some file, some dst =>
    let bytesToRead := min requested.toNat kClFileBufferBytes
    let (bytes, h) := fs.env.host.fread h file bytesToRead
    let g := g.copyTo dst bytes
    if bytes.length < bytesToRead && fs.env.host.ferror h file then ((-1, 0), g, fs.env.host.clearerr h file)
    else ((0, BitVec.ofNat 32 bytes.length), g, h)
  | _, _ => ((-1, 0), g, h)

def handleClRead (sendBufAddr recvBufAddr recvSize : Word) : (Word × Word) × McWorld σ F :=
  let (reply, g, h) := clRead fs (clearReply w.guest recvBufAddr recvSize) w.host sendBufAddr
  (reply, { w with guest := writeResult g recvBufAddr recvSize reply.1 reply.2, host := h })

/-! ### Inside, and what is reported -/

inductive ReadCall
  | fioRead (ps2Fd bufAddr size : Word)
  | mcRead (sendBufAddr recvBufAddr : Word)
  | mcGetDir (sendBufAddr recvBufAddr recvSize : Word)
  | mcDefault (rpcNum recvBufAddr recvSize : Word)
  | clRead (sendBufAddr recvBufAddr recvSize : Word)
  | copy (dest src size : Word)
  deriving DecidableEq, Repr

/-- The number of bytes that a call reports, if it does not report an error, and the guest address that it says they
are at. `mcGetDir` reports entries; without a table it only counts. -/
structure Report where
  addr : Word
  count : ℕ

def signed (addr result : Word) (size : ℕ) : Option Report :=
  if 0 ≤ result.toInt then some ⟨addr, size * result.toNat⟩ else none

/-- The address of the table of `kRpcGetDir`. -/
def tableAddr (g : Guest) (sendBufAddr : Word) : Word := g.readGuestU32 (sendBufAddr + 0x10) &&& 0x1FFFFFFF

def ReadCall.run : ReadCall → Option Report × McWorld σ F
  | .fioRead ps2Fd bufAddr size =>
    let (result, w) := FileReads.fioRead fs w ps2Fd bufAddr size
    (signed bufAddr result 1, w)
  | .mcRead sendBufAddr recvBufAddr =>
    let w := rpcRead fs.env w sendBufAddr recvBufAddr
    (signed recvBufAddr w.mc.lastResult 1, w)
  | .mcGetDir sendBufAddr recvBufAddr recvSize =>
    let table := tableAddr w.guest sendBufAddr
    let w := rpcGetDir fs.env w sendBufAddr recvBufAddr recvSize
    (if table = 0 then none else signed table w.mc.lastResult 64, w)
  | .mcDefault rpcNum recvBufAddr recvSize => (none, rpcDefault fs.env w rpcNum recvBufAddr recvSize)
  | .clRead sendBufAddr recvBufAddr recvSize =>
    let dst := (clearReply w.guest recvBufAddr recvSize).readGuestU32 (sendBufAddr + 8)
    let (reply, w) := handleClRead fs w sendBufAddr recvBufAddr recvSize
    (if reply.1 = 0 then some ⟨dst, reply.2.toNat⟩ else none, w)
  | .copy dest src size => (none, { w with guest := FileReads.copy w.guest dest src size })

/-- The copies that are noted behind those of `w`. -/
def storesSince (w w' : McWorld σ F) : List Store := w'.guest.stores.drop w.guest.stores.length

/-- So many bytes have been copied to where the address leads. -/
def Report.Holds (g : Guest) (stores : List Store) (r : Report) : Prop :=
  r.count = 0 ∨ ∃ store ∈ stores, g.ptr r.addr = some store.ptr ∧ store.bytes.length = r.count

/-- **The call stays inside** the arrays that its copies begin in, and what it reports is true. -/
def ReadCall.Exact (call : ReadCall) : Prop :=
  (∀ store ∈ storesSince w (call.run fs w).2, store.Inside) ∧
    ∀ r, (call.run fs w).1 = some r → r.Holds w.guest (storesSince w (call.run fs w).2)

/-! ### The condition -/

/-- Where the address leads somewhere, so many bytes are left up to the end of the array. -/
def Room (g : Guest) (addr : Word) (n : ℕ) : Prop := ∀ p, g.ptr addr = some p → p.offset + n ≤ arraySize p.scratch

/-- The number of entries that a `kRpcGetDir` finds and has been asked for. -/
def entryCount (sendBufAddr : Word) : ℕ :=
  let g := w.guest
  let port := g.readGuestU32 sendBufAddr
  if isValidMcPortSlot port.toInt (g.readGuestU32 (sendBufAddr + 0x04)).toInt && (w.mc.ports port.toInt).formatted then
    match dirEntries fs.env (·.filename) (fs.env.host.createDirectories w.host (fs.env.root port.toInt)) w.mc.ports port
      (readGuestPath g (sendBufAddr + 0x14)) with
    | none => 0
    | some entries => min entries.length (g.readGuestU32 (sendBufAddr + 0x0C)).toNat
  else 0

/-- **Each transfer has room** behind the byte that its address leads to: the bytes that the file has, the entries
that are found, or as many as the guest says, and the reply. -/
def ReadCall.Fits : ReadCall → Prop
  | .fioRead ps2Fd bufAddr size =>
    ∀ fp, fs.ps2Files ps2Fd = some fp → size ≠ 0 →
      Room w.guest bufAddr (fs.env.host.fread w.host fp size.toNat).1.length
  | .mcRead sendBufAddr recvBufAddr =>
    let size := w.guest.readGuestU32 (sendBufAddr + 0x04)
    ∀ file, w.mc.file (w.guest.readGuestU32 sendBufAddr) = some file → size ≠ 0 →
      Room w.guest recvBufAddr (fs.env.host.fread w.host file size.toNat).1.length
  | .mcGetDir sendBufAddr recvBufAddr recvSize =>
    let table := tableAddr w.guest sendBufAddr
    (table ≠ 0 → Room w.guest table (64 * entryCount fs w sendBufAddr)) ∧
      (recvBufAddr ≠ 0 → 4 ≤ recvSize → Room w.guest recvBufAddr 4)
  | .mcDefault _ recvBufAddr recvSize =>
    recvBufAddr ≠ 0 → Room w.guest recvBufAddr (if fs.env.bypass && 12 ≤ recvSize then 12 else recvSize.toNat)
  | .clRead sendBufAddr recvBufAddr recvSize =>
    let g := clearReply w.guest recvBufAddr recvSize
    (∀ file, fs.clFiles (g.readGuestU32 sendBufAddr) = some file →
      Room w.guest (g.readGuestU32 (sendBufAddr + 8)) (fs.env.host.fread w.host file
        (min (g.readGuestU32 (sendBufAddr + 4)).toNat kClFileBufferBytes)).1.length) ∧
    (recvBufAddr ≠ 0 → Room w.guest recvBufAddr (min recvSize.toNat 0x40)) ∧
    (recvBufAddr ≠ 0 → 8 ≤ recvSize → Room w.guest (recvBufAddr + 4) 4)
  | .copy dest src size => w.guest.ptr src ≠ none → Room w.guest dest size.toNat

end Ps2Recomp.FileReads
