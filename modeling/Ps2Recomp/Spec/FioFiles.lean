import Ps2Recomp.Lib.Stdio
import Ps2Recomp.Spec.HostFiles

/-!
# Files of the guest

`fioOpen`, `fioLseek`, `fioRead` and `fioWrite` (`FileIO.cpp`): the flags of `fioOpen` become a mode of
`fopen`, and the calls on the descriptor go to the stream. Guest buffers are the bytes they hold, and
descriptors do not run out. `openUsual` is what the flags are for.
-/

namespace Ps2Recomp.Fio

open Stdio (Mode Stream Whence)
open HostFiles (Byte)

abbrev Path : Type := List Char

def PS2_FIO_O_RDONLY : Word := 0x0001
def PS2_FIO_O_WRONLY : Word := 0x0002
def PS2_FIO_O_RDWR : Word := 0x0003
def PS2_FIO_O_APPEND : Word := 0x0100
def PS2_FIO_O_CREAT : Word := 0x0200
def PS2_FIO_O_TRUNC : Word := 0x0400

def translateFioMode (ps2Flags : Word) : Mode :=
  let read := ps2Flags &&& PS2_FIO_O_RDONLY ≠ 0 ∨ ps2Flags &&& PS2_FIO_O_RDWR ≠ 0
  let write := ps2Flags &&& PS2_FIO_O_WRONLY ≠ 0 ∨ ps2Flags &&& PS2_FIO_O_RDWR ≠ 0
  let append := ps2Flags &&& PS2_FIO_O_APPEND ≠ 0
  let create := ps2Flags &&& PS2_FIO_O_CREAT ≠ 0
  let truncate := ps2Flags &&& PS2_FIO_O_TRUNC ≠ 0
  if read ∧ write then
    if create ∧ truncate then .wPlusB
    else if create then .aPlusB
    else .rPlusB
  else if write then
    if append then .ab
    else if create ∧ truncate then .wb
    else if create then .wx
    else .rPlusB
  else .rb

/-- The files of the host, `g_nextFd`, and `g_fileDescriptors` with the path of each file. -/
structure World where
  files : Path → Option (List Byte)
  nextFd : ℕ
  descriptors : ℤ → Option (Path × Stream)

namespace World

/-- What the file of a stream holds. -/
def content (w : World) (path : Path) : List Byte := (w.files path).getD []

def setFile (w : World) (path : Path) (content : List Byte) : World :=
  { w with files := Function.update w.files path (some content) }

/-- The stream of a descriptor has moved. -/
def setStream (w : World) (fd : ℤ) (path : Path) (s : Stream) : World :=
  { w with descriptors := Function.update w.descriptors fd (some (path, s)) }

def allocatePs2Fd (w : World) (path : Path) (s : Stream) : ℤ × World :=
  (w.nextFd, { w.setStream w.nextFd path s with nextFd := w.nextFd + 1 })

end World

/-- What is put in `$v0`. `ps2Path` is the string that `$a0` leads to. -/
def fioOpen (translatePs2Path : Path → Path) (ps2Path : Option Path) (flags : Word) (w : World) : ℤ × World :=
  match ps2Path with
  | none => (-1, w)
  | some ps2Path =>
    let hostPath := translatePs2Path ps2Path
    if hostPath.isEmpty then (-1, w)
    else
      match Stdio.fopen (translateFioMode flags) (w.files hostPath) with
      | none => (-1, w)
      | some (content, fp) => (w.setFile hostPath content).allocatePs2Fd hostPath fp

variable (w : World) (fd : ℤ)

/-- With the bytes that are put in the buffer. -/
def fioRead (size : Word) : ℤ × List Byte × World :=
  match w.descriptors fd with
  | none => (-1, [], w)
  | some (path, fp) =>
    if size = 0 then (0, [], w)
    else
      let (bytes, fp, failed) := Stdio.fread fp (w.content path) size.toNat
      let w := w.setStream fd path fp
      if bytes.length < size.toNat ∧ failed then (-1, bytes, w) else (bytes.length, bytes, w)

/-- `buf` holds the bytes that are written. -/
def fioWrite (buf : List Byte) : ℤ × World :=
  match w.descriptors fd with
  | none => (-1, w)
  | some (path, fp) =>
    if buf.length = 0 then (0, w)
    else
      let (bytesWritten, content, fp, failed) := Stdio.fwrite fp (w.content path) buf
      let w := (w.setFile path content).setStream fd path fp
      if bytesWritten < buf.length ∧ failed then (-1, w) else (bytesWritten, w)

def hostWhence (whence : Word) : Option Whence :=
  if whence = 0 then some .seekSet
  else if whence = 1 then some .seekCur
  else if whence = 2 then some .seekEnd
  else none

def fioLseek (offset whence : Word) : ℤ × World :=
  match w.descriptors fd with
  | none => (-1, w)
  | some (path, fp) =>
    match hostWhence whence with
    | none => (-1, w)
    | some hostWhence =>
      match Stdio.fseek fp (w.content path) offset.toInt hostWhence with
      | none => (-1, w)
      | some fp =>
        let w := w.setStream fd path fp
        if 0xFFFFFFFF < fp.pos then (-1, w) else ((BitVec.ofNat 32 fp.pos).toInt, w)

/-! ### Calls on one descriptor -/

inductive Call where
  | lseek (offset whence : Word)
  | read (size : Word)
  | write (buf : List Byte)

/-- The bytes that a call reads, and the world afterwards. -/
def call : Call → List Byte × World
  | .lseek offset whence => ([], (fioLseek w fd offset whence).2)
  | .read size => (fioRead w fd size).2
  | .write buf => ([], (fioWrite w fd buf).2)

/-- The bytes that each call reads, and the files afterwards. -/
def calls (w : World) (fd : ℤ) : List Call → List (List Byte) × (Path → Option (List Byte))
  | [] => ([], w.files)
  | c :: cs =>
    let (bytes, w) := call w fd c
    let (reads, files) := calls w fd cs
    (bytes :: reads, files)

/-- What comes of `fioOpen` and the calls after it. -/
def session (translatePs2Path : Path → Path) (ps2Path : Option Path) (flags : Word) (w : World)
    (cs : List Call) : List (List Byte) × (Path → Option (List Byte)) :=
  let (fd, w) := fioOpen translatePs2Path ps2Path flags w
  if fd < 0 then ([], w.files) else calls w fd cs

/-! ### What the flags are for -/

inductive Access where
  | rdonly
  | wronly
  | rdwr
deriving DecidableEq

namespace Access

def readable : Access → Bool
  | rdonly | rdwr => true
  | wronly => false

def writable : Access → Bool
  | wronly | rdwr => true
  | rdonly => false

def word : Access → Word
  | rdonly => PS2_FIO_O_RDONLY
  | wronly => PS2_FIO_O_WRONLY
  | rdwr => PS2_FIO_O_RDWR

end Access

structure Flags where
  access : Access
  creat : Bool
  trunc : Bool
  append : Bool

/-- `$a1` -/
def Flags.word (f : Flags) : Word :=
  f.access.word ||| (if f.creat then PS2_FIO_O_CREAT else 0) ||| (if f.trunc then PS2_FIO_O_TRUNC else 0) |||
    (if f.append then PS2_FIO_O_APPEND else 0)

/-- The file of an open descriptor, and the position of the next read or write. -/
structure Usual where
  flags : Flags
  content : List Byte
  pos : ℕ

namespace Usual

/-- `creat` creates the file if it is absent, and `trunc` empties it. -/
def opened (f : Flags) : Option (List Byte) → Option Usual
  | none => if f.creat then some ⟨f, [], 0⟩ else none
  | some content => some ⟨f, if f.trunc then [] else content, 0⟩

variable (u : Usual)

def read (size : ℕ) : List Byte × Usual :=
  if u.flags.access.readable then
    let bytes := (u.content.drop u.pos).take size
    (bytes, { u with pos := u.pos + bytes.length })
  else ([], u)

/-- A write goes to the position, or with `append` to the end. -/
def write (buf : List Byte) : Usual :=
  if u.flags.access.writable && !buf.isEmpty then
    let pos := if u.flags.append then u.content.length else u.pos
    { u with content := Stdio.overwrite u.content pos buf, pos := pos + buf.length }
  else u

def place (target : ℤ) : Usual := if target < 0 then u else { u with pos := target.toNat }

/-- From the start, from the position or from the end, but not to a place before the start. -/
def lseek (offset : ℤ) (whence : Word) : Usual :=
  if whence = 0 then u.place offset
  else if whence = 1 then u.place (u.pos + offset)
  else if whence = 2 then u.place (u.content.length + offset)
  else u

def call : Call → List Byte × Usual
  | .lseek offset whence => ([], u.lseek offset.toInt whence)
  | .read size => u.read size.toNat
  | .write buf => ([], u.write buf)

def calls (u : Usual) : List Call → List (List Byte) × List Byte
  | [] => ([], u.content)
  | c :: cs =>
    let (bytes, u) := u.call c
    let (reads, content) := calls u cs
    (bytes :: reads, content)

end Usual

/-- The file that a path names, if any. -/
def named (translatePs2Path : Path → Path) (ps2Path : Option Path) : Option Path :=
  (ps2Path.map translatePs2Path).filter (· ≠ [])

/-- What comes of the calls on a descriptor that is opened as the flags say. -/
def usualSession (translatePs2Path : Path → Path) (ps2Path : Option Path) (f : Flags)
    (files : Path → Option (List Byte)) (cs : List Call) : List (List Byte) × (Path → Option (List Byte)) :=
  match named translatePs2Path ps2Path with
  | none => ([], files)
  | some path =>
    match Usual.opened f (files path) with
    | none => ([], files)
    | some u => ((u.calls cs).1, Function.update files path (some (u.calls cs).2))

end Ps2Recomp.Fio
