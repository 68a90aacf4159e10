import Mathlib.Data.List.Basic
import Mathlib.Data.Int.Basic
import Mathlib.Tactic.Common

/-!
# Streams

The modes of `fopen`, and what is read and written through a stream. A stream has one position for reads
and writes, at the start of the file when it is opened, and reads and writes may follow each other. What
is written beyond the end is preceded by zeros.
-/

namespace Stdio

inductive Mode where
  | rb
  | rPlusB
  | wb
  | wPlusB
  | wx
  | ab
  | aPlusB
deriving DecidableEq

namespace Mode

def reads : Mode → Bool
  | rb | rPlusB | wPlusB | aPlusB => true
  | wb | wx | ab => false

def writes : Mode → Bool
  | rb => false
  | rPlusB | wb | wPlusB | wx | ab | aPlusB => true

/-- Every write goes to the end. -/
def appends : Mode → Bool
  | ab | aPlusB => true
  | rb | rPlusB | wb | wPlusB | wx => false

/-- A file that does not exist is created. -/
def creates : Mode → Bool
  | rb | rPlusB => false
  | wb | wPlusB | wx | ab | aPlusB => true

def truncates : Mode → Bool
  | wb | wPlusB => true
  | rb | rPlusB | wx | ab | aPlusB => false

/-- A file that exists is not opened. -/
def exclusive : Mode → Bool
  | wx => true
  | rb | rPlusB | wb | wPlusB | ab | aPlusB => false

end Mode

structure Stream where
  mode : Mode
  pos : ℕ

inductive Whence where
  | seekSet
  | seekCur
  | seekEnd

section Files

variable {α : Type} [Zero α]

/-- `data` takes the place of what the file holds from `pos` on. -/
def overwrite (file : List α) (pos : ℕ) (data : List α) : List α :=
  (file ++ List.replicate (pos - file.length) 0).take pos ++ data ++ file.drop (pos + data.length)

theorem length_overwrite (file : List α) (pos : ℕ) (data : List α) :
    (overwrite file pos data).length = max file.length (pos + data.length) := by
  simp only [overwrite, List.length_append, List.length_take, List.length_replicate, List.length_drop]
  omega

variable (s : Stream) (file : List α)

/-- The file that is opened, if any, and its stream. -/
def fopen (mode : Mode) : Option (List α) → Option (List α × Stream)
  | none => if mode.creates then some ([], ⟨mode, 0⟩) else none
  | some file => if mode.exclusive then none else some (if mode.truncates then [] else file, ⟨mode, 0⟩)

/-- The elements that are read, the stream afterwards, and whether there was an error. -/
def fread (size : ℕ) : List α × Stream × Bool :=
  if s.mode.reads then
    let bytes := (file.drop s.pos).take size
    (bytes, { s with pos := s.pos + bytes.length }, false)
  else ([], s, true)

/-- How many elements are written, the file and the stream afterwards, and whether there was an error. -/
def fwrite (data : List α) : ℕ × List α × Stream × Bool :=
  if s.mode.writes then
    let pos := if s.mode.appends then file.length else s.pos
    (data.length, overwrite file pos data, { s with pos := pos + data.length }, false)
  else (0, file, s, true)

/-- No stream is placed before the start of its file. -/
def Stream.place (target : ℤ) : Option Stream := if target < 0 then none else some { s with pos := target.toNat }

def fseek (offset : ℤ) : Whence → Option Stream
  | .seekSet => s.place offset
  | .seekCur => s.place (s.pos + offset)
  | .seekEnd => s.place (file.length + offset)

end Files

end Stdio
