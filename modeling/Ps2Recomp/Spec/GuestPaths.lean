import Mathlib.Data.Int.Basic
import Ps2Recomp.Lib.Climb

/-!
# Guest paths on the host

The paths of the memory card calls (`MemoryCard.cpp`) and `translatePs2Path` (`Runtime.h`, `Path.h`). A guest
path is rewritten as a string and then joined to a configured root by `std::filesystem::path`, whose rules are
those of POSIX or of Windows.

Strings are lists of characters. Of a host path a trailing separator is left out, and a string that begins with
two separators is not read as the name of a server: none is joined here.
-/

namespace Ps2Recomp.GuestPaths

abbrev Str : Type := List Char

abbrev dot : Str := ['.']

abbrev dotdot : Str := ['.', '.']

/-! ### Host paths -/

inductive Rules
  | posix
  | windows
  deriving DecidableEq, Repr

def Rules.isSeparator : Rules → Char → Bool
  | posix, c => c = '/'
  | windows, c => c = '/' || c = '\\'

/-- `std::filesystem::path`; an empty `rootName` is none. -/
structure Path where
  rootName : Str
  rootDir : Bool
  comps : List Str
  deriving DecidableEq, Repr

/-- The components between separators; `current` has the characters read since the last one. -/
def splitLoop (sep : Char → Bool) : Str → Str → List Str
  | [], current => if current = [] then [] else [current]
  | c :: value, current =>
    if sep c then
      if current = [] then splitLoop sep value [] else current :: splitLoop sep value []
    else splitLoop sep value (current ++ [c])

/-- The drive that a string begins with, and what is behind it. -/
def splitDrive : Rules → Str → Str × Str
  | .windows, c :: ':' :: s => if c.isAlpha then ([c, ':'], s) else ([], c :: ':' :: s)
  | _, s => ([], s)

namespace Path

def parse (rules : Rules) (s : Str) : Path :=
  let (rootName, s) := splitDrive rules s
  { rootName, rootDir := s.head?.any rules.isSeparator, comps := splitLoop rules.isSeparator s [] }

variable (p q : Path)

/-- `operator/=`: a path with a drive replaces one on another drive, and, if it is absolute, any. -/
def join : Path :=
  if q.rootName ≠ [] ∧ (q.rootDir ∨ q.rootName ≠ p.rootName) then q
  else if q.rootDir then { q with rootName := p.rootName }
  else { p with comps := p.comps ++ q.comps }

/-- Where the components lead. -/
def place : Climb.Place Str := Climb.walk dotdot (p.comps.filter (· ≠ dot))

def lexicallyNormal : Path := { p with comps := p.place.toList dotdot p.rootDir }

/-- The path `q` is `p` or names something below it. -/
def Below : Prop :=
  q.rootName = p.rootName ∧ q.rootDir = p.rootDir ∧ ∃ rest, q.comps = p.comps ++ rest ∧ dotdot ∉ rest

end Path

/-! ### Memory cards -/

def splitMcPathComponents (value : Str) : List Str := splitLoop (fun c => c = '/' || c = '\\') value []

def joinMcPathComponents : List Str → Str
  | [] => ['/']
  | parts => parts.flatMap fun part => '/' :: part

def toLowerAscii (value : Str) : Str := value.map Char.toLower

/-- `lower.rfind(text, 0) == 0` -/
def hasPrefix (path : Str) (text : String) : Bool := text.toList.isPrefixOf (toLowerAscii path)

def replaceBackslashes (path : Str) : Str := path.map fun c => if c = '\\' then '/' else c

structure McPortState where
  currentDir : Str
  formatted : Bool
  deriving DecidableEq, Repr

/-- `g_mcPorts`, of which 0 and 1 are there. -/
abbrev McPorts : Type := ℤ → McPortState

def isPort (port : ℤ) : Bool := 0 ≤ port ∧ port < 2

def isValidMcPortSlot (port slot : ℤ) : Bool := isPort port && slot = 0

/-- The loop of `normalizeGuestMcPathLocked`. -/
def resolveParts (parts : List Str) (part : Str) : List Str :=
  if part = [] ∨ part = dot then parts
  else if part = dotdot then parts.dropLast
  else parts ++ [part]

def normalizeGuestMcPathLocked (ports : McPorts) (port : ℤ) (path : Str) : Str :=
  let path := replaceBackslashes path
  let path := if hasPrefix path "mc0:" || hasPrefix path "mc1:" then path.drop 4 else path
  let absolute : Bool := path.head? = some '/'
  let parts := if !absolute && isPort port then splitMcPathComponents (ports port).currentDir else []
  joinMcPathComponents ((splitMcPathComponents path).foldl resolveParts parts)

/-- `guestMcPathToHostPath`, below the root of the port. -/
def guestMcPathToHostPath (rules : Rules) (root : Path) (guestPath : Str) : Path :=
  let resolved := if 1 < guestPath.length then root.join (.parse rules (guestPath.drop 1)) else root
  resolved.lexicallyNormal

/-- `sceMcChdir`; `isDirectory` is the host's answer. -/
def sceMcChdir (rules : Rules) (root : ℤ → Path) (isDirectory : Path → Bool) (ports : McPorts) (port slot : ℤ)
    (requestedDir : Str) : McPorts :=
  if isValidMcPortSlot port slot && (ports port).formatted then
    let resolvedDir :=
      if requestedDir = [] then (ports port).currentDir else normalizeGuestMcPathLocked ports port requestedDir
    if isDirectory (guestMcPathToHostPath rules (root port) resolvedDir) then
      Function.update ports port { ports port with currentDir := resolvedDir }
    else ports
  else ports

/-- The current directories that calls of `sceMcChdir` lead to, and those that reset a port. -/
inductive Reach (rules : Rules) (root : ℤ → Path) : McPorts → Prop
  | init (ports : McPorts) (h : ∀ port, (ports port).currentDir = ['/']) : Reach rules root ports
  | chdir {ports : McPorts} (isDirectory : Path → Bool) (port slot : ℤ) (requestedDir : Str)
      (h : Reach rules root ports) : Reach rules root (sceMcChdir rules root isDirectory ports port slot requestedDir)
  | reset {ports : McPorts} (port : ℤ) (formatted : Bool) (h : Reach rules root ports) :
      Reach rules root (Function.update ports port ⟨['/'], formatted⟩)

/-! ### translatePs2Path -/

inductive Device
  | host
  | cd
  | mc
  deriving DecidableEq, Repr

def stripIsoVersionSuffix (value : Str) : Str :=
  let suffix := (value.dropWhile (· ≠ ';')).drop 1
  if suffix ≠ [] ∧ suffix.all Char.isDigit then value.takeWhile (· ≠ ';') else value

def normalizePs2PathSuffix (suffix : Str) : Str :=
  (stripIsoVersionSuffix (replaceBackslashes suffix)).dropWhile fun c => c = '/' || c = '\\'

/-- `resolveWithBase` -/
def resolveWithBase (rules : Rules) (base : Path) (suffix : Str) : Path :=
  let normalizedSuffix := normalizePs2PathSuffix suffix
  let resolved := if normalizedSuffix ≠ [] then base.join (.parse rules normalizedSuffix) else base
  resolved.lexicallyNormal

/-- `translatePs2Path`, below the configured roots. -/
def translatePs2Path (rules : Rules) (root : Device → Path) (path : Str) : Path :=
  if path = [] then ⟨[], false, []⟩
  else if hasPrefix path "host0:" || hasPrefix path "host:" then
    resolveWithBase rules (root .host) (path.drop (if hasPrefix path "host0:" then 6 else 5))
  else if hasPrefix path "cdrom0:" || hasPrefix path "cdrom:" then
    resolveWithBase rules (root .cd) (path.drop (if hasPrefix path "cdrom0:" then 7 else 6))
  else if hasPrefix path "mc0:" then resolveWithBase rules (root .mc) (path.drop 4)
  else if path.head? = some '/' ∨ path.head? = some '\\' then resolveWithBase rules (root .cd) path
  else if path[1]? = some ':' then .parse rules path
  else resolveWithBase rules (root .cd) path

/-! ### Staying inside -/

/-- What a path names on its card, the root first: its components behind those of the current directory, unless it
begins at the root. -/
def cardNames (ports : McPorts) (port : ℤ) (path : Str) : List Str :=
  let path := replaceBackslashes path
  let path := if hasPrefix path "mc0:" || hasPrefix path "mc1:" then path.drop 4 else path
  let start := if path.head? ≠ some '/' ∧ isPort port then splitMcPathComponents (ports port).currentDir else []
  (Climb.walk dotdot ((start ++ splitMcPathComponents path).filter (· ≠ dot))).names.reverse

/-- What the path `q`, joined to `root`, must be to stay below it. Where it replaces `root`, it has to name
something below `root` itself. Otherwise it may climb over the names of `root`, if it goes down the same ones
again. -/
def Path.Stays (root q : Path) : Prop :=
  if q.rootName ≠ [] ∧ (q.rootDir ∨ q.rootName ≠ root.rootName) then root.lexicallyNormal.Below q.lexicallyNormal
  else
    (q.place.ups ≤ root.place.names.length ∨ root.rootDir = true) ∧ root.place.names.take q.place.ups <:+ q.place.names

end Ps2Recomp.GuestPaths
