import Ps2Recomp.Spec.McServ

/-!
# Two front ends of the memory card

The direct calls of `MemoryCard.cpp` take their arguments from registers and from the stack, and leave their result
for `sceMcSync`. A `Step` is a request that is given once to the server, packed into a send buffer, and once to a
direct call; `AgreeAll` says that a run of them does the same through both.
-/

namespace Ps2Recomp.McStubs

open Memory VSync GuestPaths HostFiles McServ
open SifRpc (HostPtr)

variable {σ F : Type} (e : Env σ F) (w : McWorld σ F)

/-! ### Direct calls -/

/-- The argument registers `$a0` to `$a3`, and `$sp`. -/
structure Args where
  a0 : Word
  a1 : Word
  a2 : Word
  a3 : Word
  sp : Word
  deriving DecidableEq, Repr

/-- `readPs2CStringBounded` from the guest address `addr` on, with so many bytes left to read. -/
def readStringLoop (g : Guest) (addr : ℕ) : ℕ → Str
  | 0 => []
  | n + 1 =>
    if 2 ^ 32 ≤ addr then []
    else
      match g.ptr (BitVec.ofNat 32 addr) with
      | none => []
      | some p =>
        let ch := g.memory.area p.scratch p.offset
        if ch = 0 then [] else Char.ofNat ch.toNat :: readStringLoop g (addr + 1) n

def readPs2CStringBounded (g : Guest) (addr : Word) (maxLen : ℕ) : Str :=
  if addr = 0 then [] else readStringLoop g addr.toNat maxLen

def readStackU32 (g : Guest) (a : Args) (offset : Word) : Word := g.readGuestU32 (a.sp + offset)

/-- A count that is read as `int32_t`; one that is not positive is none. -/
def positive (n : Word) : ℕ := if 0 < n.toInt then n.toNat else 0

def sceMcOpen (a : Args) : McWorld σ F :=
  (McWorld.finish 0x02 (openBody e w a.a0 a.a1 (readPs2CStringBounded w.guest a.a2 kMcMaxPathLen) a.a3)).2

def sceMcClose (a : Args) : McWorld σ F := (McWorld.finish 0x03 (closeBody e w a.a0)).2

def sceMcRead (a : Args) : McWorld σ F := (McWorld.finish 0x05 (readBody e w a.a0 (positive a.a2) (w.guest.ptr a.a1))).2

def sceMcWrite (a : Args) : McWorld σ F := (McWorld.finish 0x06 (writeBody e w a.a0 (positive a.a2) (w.guest.ptr a.a1))).2

def sceMcGetInfo (a : Args) : McWorld σ F :=
  let formatPtr := readStackU32 w.guest a 16
  let info := infoBody w.mc a.a0 a.a1
  let w := w.setMcCommandResultLocked 0x01 info.result
  let w := w.writeResultI32 a.a2 info.cardType
  let w := w.writeResultI32 a.a3 info.freeBlocks
  w.writeResultI32 formatPtr info.format

def sceMcGetDir (a : Args) : McWorld σ F :=
  let g := w.guest
  (McWorld.finish 0x0D
    (getDirBody e w (fun entry => toLowerAscii entry.filename) a.a0 a.a1
      (readPs2CStringBounded g a.a2 kMcMaxPathLen) (positive (readStackU32 g a 16)) (readStackU32 g a 20))).2

def sceMcSync (cmdPtr resultPtr : Word) : McWorld σ F :=
  (w.writeResultI32 cmdPtr w.mc.lastCmd).writeResultI32 resultPtr w.mc.lastResult

/-! ### Requests -/

/-- A request with its arguments; of the source of a write, what is there, if it leads somewhere. -/
inductive Request
  | openFile (port slot : Word) (path : Str) (flags : Word)
  | closeFile (fd : Word)
  | readFile (fd dst size : Word)
  | writeFile (fd size : Word) (bytes : Option (List Byte))
  | getInfo (port slot block : Word)
  | getDir (port slot : Word) (path : Str) (maxEntries table : Word)
  deriving DecidableEq, Repr

namespace Request

def rpcNum : Request → Word
  | openFile .. => 0x02
  | closeFile .. => 0x03
  | readFile .. => 0x05
  | writeFile .. => 0x06
  | getInfo .. => 0x01
  | getDir .. => 0x0D

/-- The send buffer, and for a read the receive buffer, has the arguments. -/
def Packed (g : Guest) (sendBufAddr recvBufAddr : Word) : Request → Prop
  | openFile port slot path flags =>
    g.readGuestU32 sendBufAddr = port ∧ g.readGuestU32 (sendBufAddr + 0x04) = slot ∧
      readGuestPath g (sendBufAddr + 0x0C) = path ∧ g.readGuestU32 (sendBufAddr + 0x08) = flags
  | closeFile fd => g.readGuestU32 sendBufAddr = fd
  | readFile fd dst size =>
    g.readGuestU32 sendBufAddr = fd ∧ recvBufAddr = dst ∧ g.readGuestU32 (sendBufAddr + 0x04) = size
  | writeFile fd size bytes =>
    g.readGuestU32 sendBufAddr = fd ∧ g.readGuestU32 (sendBufAddr + 0x04) = size ∧
      (g.ptr (sendBufAddr + 0x08)).map (g.bytes · size.toNat) = bytes
  | getInfo port slot block =>
    g.readGuestU32 (sendBufAddr + 0x04) = port ∧ g.readGuestU32 (sendBufAddr + 0x08) = slot ∧
      g.readGuestU32 (sendBufAddr + 0x1C) = block
  | getDir port slot path maxEntries table =>
    g.readGuestU32 sendBufAddr = port ∧ g.readGuestU32 (sendBufAddr + 0x04) = slot ∧
      readGuestPath g (sendBufAddr + 0x14) = path ∧ g.readGuestU32 (sendBufAddr + 0x0C) = maxEntries ∧
      g.readGuestU32 (sendBufAddr + 0x10) = table

/-- The registers and the stack have the arguments. The three pointers of `sceMcGetInfo` are to the fields of the
information block; without a block there are none. -/
def Loaded (g : Guest) (a : Args) : Request → Prop
  | openFile port slot path flags =>
    a.a0 = port ∧ a.a1 = slot ∧ readPs2CStringBounded g a.a2 kMcMaxPathLen = path ∧ a.a3 = flags
  | closeFile fd => a.a0 = fd
  | readFile fd dst size => a.a0 = fd ∧ a.a1 = dst ∧ a.a2 = size
  | writeFile fd size bytes => a.a0 = fd ∧ a.a2 = size ∧ (g.ptr a.a1).map (g.bytes · size.toNat) = bytes
  | getInfo port slot block =>
    a.a0 = port ∧ a.a1 = slot ∧ a.a2 = block ∧ a.a3 = (if block = 0 then 0 else block + 0x04) ∧
      readStackU32 g a 16 = if block = 0 then 0 else block + 0x90
  | getDir port slot path maxEntries table =>
    a.a0 = port ∧ a.a1 = slot ∧ readPs2CStringBounded g a.a2 kMcMaxPathLen = path ∧
      readStackU32 g a 16 = maxEntries ∧ readStackU32 g a 20 = table

def call (a : Args) : Request → McWorld σ F
  | openFile .. => sceMcOpen e w a
  | closeFile .. => sceMcClose e w a
  | readFile .. => sceMcRead e w a
  | writeFile .. => sceMcWrite e w a
  | getInfo .. => sceMcGetInfo w a
  | getDir .. => sceMcGetDir e w a

/-- Whether the server writes the result to the receive buffer. -/
def replies (recvSize : Word) : Request → Bool
  | readFile .. => false
  | getInfo .. => 4 ≤ recvSize
  | getDir .. => 4 ≤ recvSize
  | _ => true

end Request

/-! ### Runs -/

/-- What the calls leave behind for the next one. -/
structure Card (σ F : Type) where
  mc : McState F
  host : σ

/-- A request, given to both: the guest's memory at each, and the further arguments. -/
structure Step where
  request : Request
  rpcGuest : Guest
  sendBufAddr : Word
  recvBufAddr : Word
  recvSize : Word
  stubGuest : Guest
  args : Args
  cmdPtr : Word
  resultPtr : Word

namespace Step

variable (s : Step) (c : Card σ F)

/-- Both get the same arguments on the same machine. -/
structure SameArguments : Prop where
  packed : s.request.Packed s.rpcGuest s.sendBufAddr s.recvBufAddr
  loaded : s.request.Loaded s.stubGuest s.args
  mapped : s.stubGuest.scratchpadMapped = s.rpcGuest.scratchpadMapped

def rpcWorld : McWorld σ F := ⟨s.rpcGuest, c.mc, c.host⟩

def stubWorld : McWorld σ F := ⟨s.stubGuest, c.mc, c.host⟩

/-- Through `handleMcServRpc`. -/
def rpc : McWorld σ F :=
  (handleMcServRpc e (s.rpcWorld c) 0x80000400 s.request.rpcNum s.sendBufAddr s.recvBufAddr s.recvSize).getD
    (s.rpcWorld c)

/-- Through the direct call, before `sceMcSync`. -/
def stub : McWorld σ F := s.request.call e (s.stubWorld c) s.args

end Step

def McWorld.card (w : McWorld σ F) : Card σ F := ⟨w.mc, w.host⟩

/-- **Both did the same**: results, files and open files are the same, what the server copies is what the direct
call copies, but for its reply to the receive buffer, and the result is there and where `sceMcSync` puts it. -/
structure Agree (s : Step) (rpc stub : McWorld σ F) : Prop where
  card : McWorld.card rpc = McWorld.card stub
  data : ∃ before data behind, rpc.guest.stores = s.rpcGuest.stores ++ (before ++ data ++ behind) ∧
    stub.guest.stores = s.stubGuest.stores ++ data ∧
    (∀ store ∈ before ++ behind, s.rpcGuest.ptr s.recvBufAddr = some store.ptr) ∧
    (s.request.replies s.recvSize → s.recvBufAddr ≠ 0 → ∀ p, s.rpcGuest.ptr s.recvBufAddr = some p →
      ⟨p, u32Bytes rpc.mc.lastResult⟩ ∈ before ++ behind)
  sync : s.resultPtr ≠ 0 → ∀ p, s.stubGuest.ptr s.resultPtr = some p →
    ⟨p, u32Bytes rpc.mc.lastResult⟩ ∈ (sceMcSync stub s.cmdPtr s.resultPtr).guest.stores

/-- **The two runs do the same**, each from the state that its own calls have led to. -/
def AgreeAll : List Step → Card σ F → Card σ F → Prop
  | [], c, c' => c = c'
  | s :: rest, c, c' =>
    Agree s (s.rpc e c) (s.stub e c') ∧ AgreeAll rest (McWorld.card (s.rpc e c)) (McWorld.card (s.stub e c'))

/-! ### The condition -/

/-- The address is the same without its segment, as a pointer to so many places behind it. -/
def Unsegmented (g : Guest) (addr : Word) (offsets : List Word) : Prop :=
  ∀ k ∈ offsets, ((addr &&& 0x1FFFFFFF) + k = 0 ↔ addr + k = 0) ∧ g.ptr ((addr &&& 0x1FFFFFFF) + k) = g.ptr (addr + k)

/-- The names are in the same order as they are without regard to case, and all different. -/
def CaseBlind (l : List DirectoryEntry) : Prop :=
  (∀ a ∈ l, ∀ b ∈ l, a.filename = b.filename → a = b) ∧
    ∀ a ∈ l, ∀ b ∈ l, strLess a.filename b.filename → strLess (toLowerAscii a.filename) (toLowerAscii b.filename)

/-- Counts are below `2 ^ 31`, addresses that the server takes out of the send buffer name the same place without
their segment, and a directory that is listed has its names in the order of their lower case. -/
def Plain (s : Step) (c : Card σ F) : Prop :=
  match s.request with
  | .readFile _ _ size => 0 ≤ size.toInt
  | .writeFile _ size _ => 0 ≤ size.toInt
  | .getInfo _ _ block => Unsegmented s.rpcGuest block [0x00, 0x04, 0x90]
  | .getDir port _ path maxEntries table =>
    0 ≤ maxEntries.toInt ∧ Unsegmented s.rpcGuest table [0x00] ∧
      CaseBlind (e.host.directoryIterator (e.host.createDirectories c.host (e.root port.toInt))
        (dirQuery e (e.host.createDirectories c.host (e.root port.toInt)) c.mc.ports port path).1)
  | _ => True

/-- Every step of the run gets the same arguments and is plain in the state that the direct calls have led to. -/
def Meets : List Step → Card σ F → Prop
  | [], _ => True
  | s :: rest, c => s.SameArguments ∧ Plain e s c ∧ Meets rest (McWorld.card (s.stub e c))

/-! ### Patterns -/

/-- The positions of `wildcardMatch`, each as what is left of its string from there. `star` has what is left of the
pattern behind the last star and of the value from `matchPos` on. -/
structure Positions where
  pattern : Str
  value : Str
  star : Option (Str × Str)
  le : ∀ p m, star = some (p, m) → value.length ≤ m.length

namespace Positions

/-- The last star takes one character more. -/
def retry (s : Positions) : Except Bool Positions :=
  match s.star with
  | some (pattern, matched) =>
    .ok ⟨pattern, matched.tail, some (pattern, matched.tail), fun _ _ h => by cases h; exact le_rfl⟩
  | none => .error false

/-- One turn of the loop: it goes on, or the function returns. -/
def next (s : Positions) : Except Bool Positions :=
  match hv : s.value with
  | [] => .error (s.pattern.dropWhile (· = '*')).isEmpty
  | c :: value =>
    match s.pattern with
    | [] => s.retry
    | ch :: pattern =>
      if ch = '?' ∨ ch = c then
        .ok ⟨pattern, value, s.star, fun p m h => Nat.le_of_succ_le ((congrArg List.length hv).ge.trans (s.le p m h))⟩
      else if ch = '*' then
        .ok ⟨pattern, c :: value, some (pattern, c :: value), fun _ _ h => by cases h; exact le_rfl⟩
      else s.retry

/-- The characters that the last star may still take. -/
def tries (s : Positions) : ℕ :=
  match s.star with
  | some (_, m) => m.length
  | none => s.value.length + 1

theorem next_lt {s s' : Positions} (h : s.next = .ok s') : s'.tries < s.tries ∨ s'.tries ≤ s.tries ∧
    s'.value.length + s'.pattern.length < s.value.length + s.pattern.length := by
  have hretry {c : Char} {v : Str} (hv : s.value = c :: v) (h : s.retry = .ok s') : s'.tries < s.tries := by
    unfold retry at h
    split at h
    · next p m hs =>
      cases h
      have hle := s.le p m hs
      rw [hv, List.length_cons] at hle
      simp only [tries, hs, List.length_tail]
      omega
    · cases h
  unfold next at h
  split at h
  · cases h
  next c value hv =>
  split at h
  · exact .inl (hretry hv h)
  next ch pattern hp =>
  split at h
  · cases h
    refine .inr ⟨?_, ?_⟩
    · simp only [tries, hv, List.length_cons]
      split <;> omega
    · simp only [hv, hp, List.length_cons]
      omega
  split at h
  · cases h
    cases hs : s.star with
    | none =>
      refine .inl ?_
      simp only [tries, hs, hv, List.length_cons]
      omega
    | some pm =>
      have hle := s.le pm.1 pm.2 hs
      rw [hv] at hle
      refine .inr ⟨?_, ?_⟩
      · simp only [tries, hs]
        exact hle
      · simp only [hv, hp, List.length_cons]
        omega
  · exact .inl (hretry hv h)

end Positions

def wildcardLoop (s : Positions) : Bool :=
  match h : s.next with
  | .error result => result
  | .ok s' => wildcardLoop s'
termination_by (s.tries, s.value.length + s.pattern.length)
decreasing_by
  obtain hlt | ⟨hle, hlt⟩ := Positions.next_lt h
  · exact .left _ _ hlt
  · exact .right' _ hle hlt

def wildcardMatch (pattern value : Str) : Bool := wildcardLoop ⟨pattern, value, none, nofun⟩

/-- **The value is an instance of the pattern.** -/
inductive Glob : Str → Str → Prop
  | nil : Glob [] []
  | star {p v : Str} (w : Str) : Glob p v → Glob ('*' :: p) (w ++ v)
  | question {p v : Str} (c : Char) : Glob p v → Glob ('?' :: p) (c :: v)
  | char {p v : Str} {c : Char} (hstar : c ≠ '*') (hquestion : c ≠ '?') : Glob p v → Glob (c :: p) (c :: v)

/-- **An instance in which a star of the pattern stands for a star of the value**, and for no more, where what is left of
the value begins with one. -/
inductive StarForStar : Str → Str → Prop
  | nil : StarForStar [] []
  | star {p v : Str} (w : Str) (hhead : (w ++ v).head? ≠ some '*') : StarForStar p v → StarForStar ('*' :: p) (w ++ v)
  | literal {p v : Str} : StarForStar p v → StarForStar ('*' :: p) ('*' :: v)
  | question {p v : Str} (c : Char) : StarForStar p v → StarForStar ('?' :: p) (c :: v)
  | char {p v : Str} {c : Char} (hstar : c ≠ '*') (hquestion : c ≠ '?') : StarForStar p v → StarForStar (c :: p) (c :: v)

end Ps2Recomp.McStubs
