import Ps2Recomp.Spec.FioFiles

/-!
# What the flags of `fioOpen` do

`session_eq`: whatever the flags, the calls on the descriptor go as if it had been opened for reads and
writes, emptied only where `CREAT` goes with `TRUNC`, and for appending where `CREAT` goes without it.
`fioOpen_agrees_iff` compares this with what the flags say.
-/

namespace Ps2Recomp.Fio

open Stdio (Mode Stream Whence)
open HostFiles (Byte)

variable {t : Path → Path} {ps2Path : Option Path} {f : Flags} {w : World} {fd : ℤ} {path : Path}
  {files : Path → Option (List Byte)}

/-! ### The mode -/

/-- Both reads and writes are asked for, as `PS2_FIO_O_RDWR` shares its bits with the others. -/
theorem translateFioMode_word (f : Flags) :
    translateFioMode f.word = if f.creat then (if f.trunc then .wPlusB else .aPlusB) else .rPlusB := by
  rcases f with ⟨access, creat, trunc, append⟩
  cases access <;> cases creat <;> cases trunc <;> cases append <;> decide

/-- The flags that `fioOpen` acts on. -/
def Flags.granted (f : Flags) : Flags where
  access := .rdwr
  creat := f.creat
  trunc := f.creat && f.trunc
  append := f.creat && !f.trunc

/-! ### The calls follow the granted flags -/

/-- The stream of the descriptor stands for `u`, on the file of `path`. -/
structure Follows (files : Path → Option (List Byte)) (path : Path) (fd : ℤ) (mode : Mode) (w : World)
    (u : Usual) : Prop where
  descriptor : w.descriptors fd = some (path, ⟨mode, u.pos⟩)
  files : w.files = Function.update files path (some u.content)
  reads : mode.reads = u.flags.access.readable
  writes : mode.writes = u.flags.access.writable
  appends : mode.appends = u.flags.append

namespace Follows

variable {mode : Mode} {u : Usual}

section

variable (h : Follows files path fd mode w u)

include h

theorem content : w.content path = u.content := by
  rw [World.content, h.files, Function.update_self]
  rfl

theorem moved (pos : ℕ) : Follows files path fd mode (w.setStream fd path ⟨mode, pos⟩) { u with pos := pos } :=
  ⟨Function.update_self .., h.files, h.reads, h.writes, h.appends⟩

theorem changed (content : List Byte) :
    Follows files path fd mode (w.setFile path content) { u with content := content } := by
  refine ⟨h.descriptor, ?_, h.reads, h.writes, h.appends⟩
  change Function.update w.files path _ = _
  rw [h.files, Function.update_idem]

theorem read (size : Word) : (fioRead w fd size).2.1 = (u.read size.toNat).1 ∧
    Follows files path fd mode (fioRead w fd size).2.2 (u.read size.toNat).2 := by
  unfold fioRead Usual.read Stdio.fread
  rw [h.descriptor]
  by_cases hsize : size = 0
  · subst hsize
    by_cases hr : u.flags.access.readable = true
    · simpa [hr] using h
    · simpa [hr] using h
  · have hsize : ¬size = 0#32 := hsize
    have hpos : 0 < size.toNat := Nat.pos_of_ne_zero fun h0 => hsize (BitVec.eq_of_toNat_eq h0)
    by_cases hr : u.flags.access.readable = true
    · have hmoved := h.moved (u.pos + ((u.content.drop u.pos).take size.toNat).length)
      simpa [hsize, h.reads, hr, h.content] using hmoved
    · have hmoved := h.moved u.pos
      simpa [hsize, hpos, h.reads, hr] using hmoved

theorem write (buf : List Byte) : Follows files path fd mode (fioWrite w fd buf).2 (u.write buf) := by
  unfold fioWrite Usual.write Stdio.fwrite
  rw [h.descriptor]
  by_cases hbuf : buf = []
  · subst hbuf
    simpa using h
  · have hlen : 0 < buf.length := List.length_pos_iff.2 hbuf
    by_cases hw : u.flags.access.writable = true
    · have hchanged := (h.changed (Stdio.overwrite u.content
        (if u.flags.append then u.content.length else u.pos) buf)).moved
        ((if u.flags.append then u.content.length else u.pos) + buf.length)
      simpa [hbuf, h.writes, h.appends, hw, h.content] using hchanged
    · have hchanged := (h.changed u.content).moved u.pos
      simpa [hbuf, hlen, h.writes, hw, h.content] using hchanged

theorem placed (target : ℤ) :
    Follows files path fd mode
      (match (Stream.mk mode u.pos).place target with
      | none => ((-1 : ℤ), w)
      | some fp =>
        let w := w.setStream fd path fp
        if 0xFFFFFFFF < fp.pos then (-1, w) else ((BitVec.ofNat 32 fp.pos).toInt, w)).2
      (u.place target) := by
  unfold Stream.place Usual.place
  by_cases hneg : target < 0
  · simpa only [if_pos hneg] using h
  · simp only [if_neg hneg]
    have hmoved := h.moved target.toNat
    by_cases hlarge : 0xFFFFFFFF < target.toNat
    · simpa only [if_pos hlarge] using hmoved
    · simpa only [if_neg hlarge] using hmoved

theorem lseek (offset whence : Word) :
    Follows files path fd mode (fioLseek w fd offset whence).2 (u.lseek offset.toInt whence) := by
  unfold fioLseek Usual.lseek hostWhence
  rw [h.descriptor]
  simp only [h.content]
  by_cases h0 : whence = 0
  · simp only [if_pos h0]
    exact h.placed offset.toInt
  · by_cases h1 : whence = 1
    · simp only [if_neg h0, if_pos h1]
      exact h.placed (u.pos + offset.toInt)
    · by_cases h2 : whence = 2
      · simp only [if_neg h0, if_neg h1, if_pos h2]
        exact h.placed (u.content.length + offset.toInt)
      · simpa only [if_neg h0, if_neg h1, if_neg h2] using h

theorem call (c : Call) :
    (call w fd c).1 = (u.call c).1 ∧ Follows files path fd mode (Fio.call w fd c).2 (u.call c).2 := by
  cases c with
  | lseek offset whence => exact ⟨rfl, h.lseek offset whence⟩
  | read size => exact h.read size
  | write buf => exact ⟨rfl, h.write buf⟩

end

theorem calls (cs : List Call) : ∀ {w : World} {u : Usual}, Follows files path fd mode w u →
    Fio.calls w fd cs = ((u.calls cs).1, Function.update files path (some (u.calls cs).2)) := by
  induction cs with
  | nil => exact fun h => Prod.ext rfl h.files
  | cons c cs ih =>
    intro w u h
    obtain ⟨hbytes, hnext⟩ := h.call c
    simp only [Fio.calls, Usual.calls, ih hnext, hbytes]

end Follows

/-! ### What `fioOpen` opens -/

theorem fopen_granted (f : Flags) (file : Option (List Byte)) :
    Stdio.fopen (translateFioMode f.word) file =
      (Usual.opened f.granted file).map fun u => (u.content, ⟨translateFioMode f.word, u.pos⟩) := by
  rw [translateFioMode_word]
  rcases f with ⟨access, creat, trunc, append⟩
  cases file <;> cases creat <;> cases trunc <;> rfl

theorem opened_flags {file : Option (List Byte)} {u : Usual} (h : Usual.opened f file = some u) : u.flags = f := by
  cases file with
  | none =>
    simp only [Usual.opened] at h
    split at h
    · cases h
      rfl
    · cases h
  | some content =>
    cases h
    rfl

/-- The new descriptor stands for a file that is opened with the granted flags. -/
theorem follows_opened {u : Usual} (h : Usual.opened f.granted (w.files path) = some u) :
    Follows w.files path w.nextFd (translateFioMode f.word)
      ((w.setFile path u.content).allocatePs2Fd path ⟨translateFioMode f.word, u.pos⟩).2 u := by
  have hflags := opened_flags h
  refine ⟨Function.update_self .., rfl, ?_, ?_, ?_⟩ <;> rw [hflags, translateFioMode_word] <;>
    rcases f with ⟨access, creat, trunc, append⟩ <;> cases creat <;> cases trunc <;> rfl

/-- **The calls go as if the file had been opened with the granted flags.** -/
theorem session_eq (t : Path → Path) (ps2Path : Option Path) (f : Flags) (w : World) (cs : List Call) :
    session t ps2Path f.word w cs = usualSession t ps2Path f.granted w.files cs := by
  unfold session usualSession named fioOpen
  cases ps2Path with
  | none => rfl
  | some ps2Path =>
    by_cases hempty : t ps2Path = []
    · simp [hempty, Option.filter]
    · have hnamed : (some ps2Path |>.map t).filter (· ≠ []) = some (t ps2Path) := by simp [hempty]
      have hfull : (t ps2Path).isEmpty = false := by simpa using hempty
      simp only [hnamed, hfull, fopen_granted]
      cases hopen : Usual.opened f.granted (w.files (t ps2Path)) with
      | none => rfl
      | some u =>
        have hfd : ¬(w.nextFd : ℤ) < 0 := by omega
        exact (if_neg hfd).trans ((follows_opened hopen).calls cs)

/-! ### Comparing flags -/

/-- A call that the access allows. -/
def Call.Allowed (a : Access) : Call → Prop
  | .lseek _ _ => True
  | .read _ => a.readable
  | .write _ => a.writable

namespace Usual

variable {u : Usual} {g : Flags}

/-- The call does not tell the flags `f` and `g` apart. -/
def Alike (f g : Flags) : Call → Prop
  | .lseek _ _ => True
  | .read _ => f.access.readable = g.access.readable
  | .write _ => f.access.writable = g.access.writable ∧ f.append = g.append

theorem call_flags (c : Call) : (u.call c).2.flags = u.flags := by
  cases c with
  | lseek offset whence =>
    simp only [call, lseek, place]
    split_ifs <;> rfl
  | read size =>
    simp only [call, read]
    split <;> rfl
  | write buf =>
    simp only [call, write]
    split <;> rfl

theorem call_alike {c : Call} (h : Alike u.flags g c) :
    ({ u with flags := g } : Usual).call c = ((u.call c).1, { (u.call c).2 with flags := g }) := by
  cases c with
  | lseek offset whence =>
    simp only [call, lseek, place]
    split_ifs <;> rfl
  | read size =>
    simp only [call, read]
    rw [show u.flags.access.readable = g.access.readable from h]
    split <;> rfl
  | write buf =>
    simp only [call, write]
    rw [show u.flags.access.writable = g.access.writable from h.1, show u.flags.append = g.append from h.2]
    split <;> rfl

theorem calls_alike (cs : List Call) : ∀ {u : Usual}, (∀ c ∈ cs, Alike u.flags g c) →
    ({ u with flags := g } : Usual).calls cs = u.calls cs := by
  induction cs with
  | nil => exact fun _ => rfl
  | cons c cs ih =>
    intro u h
    have hrest : ∀ c' ∈ cs, Alike (u.call c).2.flags g c' := by
      intro c' hmem
      rw [call_flags]
      exact h c' (List.mem_cons_of_mem _ hmem)
    simp only [calls, call_alike (h c List.mem_cons_self), ih hrest]

end Usual

/-! ### When the granted flags are as good as the flags -/

/-- There is no file, and none is created. -/
def Absent (f : Flags) (file : Option (List Byte)) : Prop := file = none ∧ f.creat = false

/-- `TRUNC` has nothing to empty unless it goes with `CREAT`. -/
def Emptied (f : Flags) (file : Option (List Byte)) : Prop :=
  f.trunc = true → f.creat = true ∨ file.getD [] = []

/-- `APPEND` goes with `CREAT` and without `TRUNC`, and `CREAT` without either does not occur. -/
def Placed (f : Flags) : Prop := f.append = (f.creat && !f.trunc)

/-- What the flags leave of the file. -/
def left (f : Flags) (file : Option (List Byte)) : List Byte := if f.trunc then [] else file.getD []

variable {file : Option (List Byte)}

theorem opened_of_absent (h : Absent f file) : Usual.opened f file = none := by
  obtain ⟨rfl, hcreat⟩ := h
  simp [Usual.opened, hcreat]

theorem opened_of_not_absent (h : ¬Absent f file) : Usual.opened f file = some ⟨f, left f file, 0⟩ := by
  cases file with
  | none =>
    have hcreat : f.creat = true := by simpa [Absent] using h
    simp [Usual.opened, left, hcreat]
  | some content => rfl

theorem left_granted_iff : left f.granted file = left f file ↔ Emptied f file := by
  unfold left Emptied Flags.granted
  cases f.creat <;> cases f.trunc <;> simp

/-! The calls that tell flags apart: nothing, a write at the end, a write that is read back, and a write that
goes to the start of the file or to its end. -/

def atEnd : List Call := [.lseek 0 2, .write [0]]

def readBack : List Call := [.write [0], .lseek 0 0, .read 1]

def rewrite : List Call := [.write [0], .lseek 0 0, .write [0]]

section Telling

variable (content : List Byte)

theorem atEnd_length :
    (Usual.calls ⟨f, content, 0⟩ atEnd).2.length = content.length + if f.access.writable then 1 else 0 := by
  have hend : Usual.lseek ⟨f, content, 0⟩ (0 : Word).toInt 2 = ⟨f, content, content.length⟩ := by
    simp [Usual.lseek, Usual.place]
  simp only [atEnd, Usual.calls, Usual.call, hend, Usual.write]
  cases f.access.writable with
  | false => simp
  | true => cases f.append <;> simp [Stdio.length_overwrite]

section

variable (hw : f.access.writable = true)

include hw

theorem written (pos : ℕ) :
    ((Usual.mk f content pos).write [0]).lseek (0 : Word).toInt 0 =
      ⟨f, Stdio.overwrite content (if f.append then content.length else pos) [0], 0⟩ := by
  simp [Usual.lseek, Usual.place, Usual.write, hw]

theorem readBack_reads :
    (Usual.calls ⟨f, content, 0⟩ readBack).1.flatten.length = if f.access.readable then 1 else 0 := by
  have hpos : 1 ≤ (Stdio.overwrite content (if f.append then content.length else 0) [0]).length := by
    rw [Stdio.length_overwrite, List.length_singleton]
    omega
  simp only [readBack, Usual.calls, Usual.call, written _ hw, Usual.read]
  cases f.access.readable with
  | false => simp
  | true => simpa using hpos

theorem rewrite_length :
    (Usual.calls ⟨f, content, 0⟩ rewrite).2.length =
      if f.append then content.length + 2 else max content.length 1 := by
  simp only [rewrite, Usual.calls, Usual.call, written _ hw]
  simp only [Usual.write, hw]
  cases f.append <;> simp [Stdio.length_overwrite]

end

end Telling

/-! ### The comparison -/

section

variable (hpath : named t ps2Path = some path)

include hpath

theorem usualSession_named (h : ¬Absent f (files path)) (cs : List Call) :
    usualSession t ps2Path f files cs =
      ((Usual.calls ⟨f, left f (files path), 0⟩ cs).1,
        Function.update files path (some (Usual.calls ⟨f, left f (files path), 0⟩ cs).2)) := by
  unfold usualSession
  rw [hpath]
  simp only [opened_of_not_absent h]

theorem usualSession_absent (h : Absent f (files path)) (cs : List Call) :
    usualSession t ps2Path f files cs = ([], files) := by
  unfold usualSession
  rw [hpath]
  simp only [opened_of_absent h]

theorem usualSession_eq_iff {g : Flags} (hf : ¬Absent f (files path)) (hg : ¬Absent g (files path)) (cs : List Call) :
    usualSession t ps2Path g files cs = usualSession t ps2Path f files cs ↔
      Usual.calls ⟨g, left g (files path), 0⟩ cs = Usual.calls ⟨f, left f (files path), 0⟩ cs := by
  rw [usualSession_named hpath hf, usualSession_named hpath hg]
  constructor
  · intro h
    obtain ⟨hreads, hfiles⟩ := Prod.ext_iff.1 h
    have hcontent := congrFun hfiles path
    simp only [Function.update_self] at hcontent
    exact Prod.ext hreads (Option.some.inj hcontent)
  · intro h
    rw [h]

end

/-- Without calls, the files are what the flags leave. -/
theorem emptied_of_agrees
    (h : Usual.calls ⟨f.granted, left f.granted file, 0⟩ [] = Usual.calls ⟨f, left f file, 0⟩ []) : Emptied f file :=
  left_granted_iff.1 (congrArg Prod.snd h)

/-- The write that goes to the start of the file or to its end tells where writes are placed. -/
theorem placed_of_agrees (hw : f.access.writable = true) (hleft : left f.granted file = left f file)
    (h : Usual.calls ⟨f.granted, left f.granted file, 0⟩ rewrite = Usual.calls ⟨f, left f file, 0⟩ rewrite) :
    Placed f := by
  have hlen := congrArg (fun r => r.2.length) h
  simp only [hleft, rewrite_length _ hw, rewrite_length (f := f.granted) _ rfl] at hlen
  unfold Placed
  change f.append = f.granted.append
  cases ha : f.append <;> cases hg : f.granted.append <;> simp only [ha, hg] at hlen ⊢
  · simp at hlen
    omega
  · simp at hlen
    omega

theorem alike_of_placed (h : f.access = .rdonly ∨ Placed f) {c : Call} (hc : c.Allowed f.access) :
    Usual.Alike f f.granted c := by
  cases c with
  | lseek offset whence => trivial
  | read size => exact hc
  | write buf =>
    refine ⟨hc, h.resolve_left ?_⟩
    intro hro
    rw [Call.Allowed, hro] at hc
    cases hc

theorem calls_granted {cs : List Call} (hemptied : Emptied f file) (h : ∀ c ∈ cs, Usual.Alike f f.granted c) :
    Usual.calls ⟨f.granted, left f.granted file, 0⟩ cs = Usual.calls ⟨f, left f file, 0⟩ cs := by
  rw [left_granted_iff.2 hemptied]
  exact Usual.calls_alike (u := ⟨f, left f file, 0⟩) cs h

/-- **When the calls go as the flags of `fioOpen` say**: all calls, and those that the access allows. -/
theorem fioOpen_agrees_iff (t : Path → Path) (ps2Path : Option Path) (f : Flags) (w : World) :
    ((∀ cs, session t ps2Path f.word w cs = usualSession t ps2Path f w.files cs) ↔
      ∀ path, named t ps2Path = some path →
        Absent f (w.files path) ∨ f.access = .rdwr ∧ Emptied f (w.files path) ∧ Placed f) ∧
    ((∀ cs, (∀ c ∈ cs, c.Allowed f.access) →
      session t ps2Path f.word w cs = usualSession t ps2Path f w.files cs) ↔
      ∀ path, named t ps2Path = some path →
        Absent f (w.files path) ∨ Emptied f (w.files path) ∧ (f.access = .rdonly ∨ Placed f)) := by
  simp only [session_eq]
  cases hnamed : named t ps2Path with
  | none =>
    have hboth : ∀ (g : Flags) cs, usualSession t ps2Path g w.files cs = ([], w.files) := by
      intro g cs
      unfold usualSession
      rw [hnamed]
    simp [hboth]
  | some path =>
    by_cases habsent : Absent f (w.files path)
    · have hboth : ∀ cs, usualSession t ps2Path f.granted w.files cs = usualSession t ps2Path f w.files cs := by
        intro cs
        rw [usualSession_absent hnamed habsent, usualSession_absent hnamed (f := f.granted) habsent]
      simp [hboth, habsent]
    · have hiff := usualSession_eq_iff (g := f.granted) hnamed habsent habsent
      simp only [hiff, Option.some.injEq, forall_eq', habsent, false_or]
      constructor
      · constructor
        · intro h
          have hemptied := emptied_of_agrees (h [])
          have hleft := left_granted_iff.2 hemptied
          have haccess : f.access = .rdwr := by
            cases ha : f.access with
            | rdonly =>
              have hlen := congrArg (fun r => r.2.length) (h atEnd)
              simp only [atEnd_length, hleft, ha] at hlen
              exact absurd hlen (by simp [Flags.granted, Access.writable])
            | wronly =>
              have hreads := congrArg (fun r => r.1.flatten.length) (h readBack)
              simp only [readBack_reads _ (show f.access.writable = true by rw [ha]; rfl),
                readBack_reads (f := f.granted) _ rfl, ha] at hreads
              cases hreads
            | rdwr => rfl
          exact ⟨haccess, hemptied, placed_of_agrees (by rw [haccess]; rfl) hleft (h rewrite)⟩
        · rintro ⟨haccess, hemptied, hplaced⟩ cs
          refine calls_granted hemptied fun c _ => alike_of_placed (.inr hplaced) ?_
          rw [haccess]
          cases c <;> trivial
      · constructor
        · intro h
          have hemptied := emptied_of_agrees (h [] (by simp))
          refine ⟨hemptied, or_iff_not_imp_left.2 fun hro => ?_⟩
          have hw : f.access.writable = true := by
            cases ha : f.access with
            | rdonly => exact absurd ha hro
            | wronly => rfl
            | rdwr => rfl
          refine placed_of_agrees hw (left_granted_iff.2 hemptied) (h rewrite ?_)
          simp [rewrite, Call.Allowed, hw]
        · rintro ⟨hemptied, hplaced⟩ cs hallowed
          exact calls_granted hemptied fun c hc => alike_of_placed hplaced (hallowed c hc)

/-! ### A file that is created for writing -/

/-- One empty directory. -/
def noFiles : World := ⟨fun _ => none, 3, fun _ => none⟩

/-- **A file that `RDWR|CREAT` opens takes every write at its end.** -/
theorem created_appends :
    ¬∀ (t : Path → Path) (ps2Path : Option Path) (f : Flags) (w : World) (cs : List Call),
      session t ps2Path f.word w cs = usualSession t ps2Path f w.files cs := by
  intro h
  have hsession := h id (some ['a']) ⟨.rdwr, true, false, false⟩ noFiles rewrite
  have hfile := congrFun (congrArg Prod.snd hsession) ['a']
  revert hfile
  decide

end Ps2Recomp.Fio
