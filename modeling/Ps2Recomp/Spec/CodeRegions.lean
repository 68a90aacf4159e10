import Ps2Recomp.Spec.Memory

/-!
# Modified code

The tracking of writes to code (`registerCodeRegion`, `markModified`, `isCodeModified` and
`clearModifiedFlag` of `ps2_memory.cpp`). A region has a bit for each four of its bytes, from its start
on, and the three functions go over the part of a range that lies in it in steps of four. The loop
counts in 32 bits: one that went around all addresses never ends, and there is no result then.
-/

namespace Ps2Recomp.CodeRegions

open Memory

/-- The bitmap has a bit for each four bytes of the region. -/
structure CodeRegion where
  start : Word
  stop : Word
  modified : List Bool
  nonempty : start < stop
  size : modified.length = (stop.toNat - start.toNat + 3) / 4
  deriving DecidableEq

namespace CodeRegion

variable (r : CodeRegion)

/-- The part of a range that lies in the region. -/
def overlap (address size : Word) : Option (Word × Word) :=
  let writeEnd := address.toNat + size.toNat
  if writeEnd ≤ r.start.toNat ∨ r.stop.toNat ≤ address.toNat then none
  else some (.ofNat 32 (max address.toNat r.start.toNat), .ofNat 32 (min writeEnd r.stop.toNat))

def bitIndex (addr : Word) : ℕ := ((addr - r.start) / 4).toNat

end CodeRegion

/-- The addresses that a loop from `addr` to `stop` goes through. -/
def steps : ℕ → Word → Word → Option (List Word)
  | 0, _, _ => none
  | n + 1, addr, stop =>
    if addr < stop then (steps n (addr + 4) stop).map (addr :: ·) else some []

/-- As many steps as there are addresses, and one. -/
def allSteps : ℕ := 2 ^ 30 + 1

/-- The bits that a range stands for. -/
def CodeRegion.bits (r : CodeRegion) (address size : Word) : Option (List ℕ) :=
  match r.overlap address size with
  | none => some []
  | some (overlapStart, overlapEnd) => (steps allSteps overlapStart overlapEnd).map (·.map r.bitIndex)

/-- Bits are set, if the bitmap has them. -/
def setAll (value : Bool) (bits : List ℕ) (modified : List Bool) : List Bool :=
  bits.foldl (fun l i => l.set i value) modified

theorem length_setAll (value : Bool) (bits : List ℕ) (modified : List Bool) :
    (setAll value bits modified).length = modified.length := by
  induction bits generalizing modified with
  | nil => rfl
  | cons i bits ih =>
    rw [setAll, List.foldl_cons]
    exact (ih _).trans List.length_set

def CodeRegion.setBits (r : CodeRegion) (value : Bool) (bits : List ℕ) : CodeRegion :=
  { r with
    modified := setAll value bits r.modified
    size := (length_setAll value bits r.modified).trans r.size }

/-- `markModified` sets the bits of a range, and `clearModifiedFlag` clears them. -/
def setModified (value : Bool) (regions : List CodeRegion) (address size : Word) : Option (List CodeRegion) :=
  if size = 0 then some regions
  else regions.mapM fun r => (r.bits address size).map (r.setBits value)

def markModified : List CodeRegion → Word → Word → Option (List CodeRegion) := setModified true

def clearModifiedFlag : List CodeRegion → Word → Word → Option (List CodeRegion) := setModified false

/-- A loop that ends at the first address with a property. -/
def search (p : Word → Bool) : ℕ → Word → Word → Option Bool
  | 0, _, _ => none
  | n + 1, addr, stop =>
    if addr < stop then if p addr then some true else search p n (addr + 4) stop else some false

/-- Whether a bit of a range is set in a region. -/
def CodeRegion.isModified (r : CodeRegion) (address size : Word) : Option Bool :=
  match r.overlap address size with
  | none => some false
  | some (overlapStart, overlapEnd) =>
    search (fun addr => r.modified.getD (r.bitIndex addr) false) allSteps overlapStart overlapEnd

def isCodeModified (regions : List CodeRegion) (address size : Word) : Option Bool :=
  if size = 0 then some false
  else
    regions.foldr (fun r rest => (r.isModified address size).bind fun found => if found then some true else rest)
      (some false)

def registerCodeRegion (regions : List CodeRegion) (start stop : Word) : List CodeRegion :=
  if h : stop ≤ start then regions
  else if ramSize < stop - start then regions
  else if regions.any fun existing => existing.start == start && existing.stop == stop then regions
  else
    regions ++ [{
      start
      stop
      modified := List.replicate ((stop.toNat - start.toNat + 3) / 4) false
      nonempty := BitVec.not_le.1 h
      size := List.length_replicate }]

/-! ### Writes -/

/-- Memory with its code regions. -/
structure Tracked (D : Type) where
  mem : Ps2Memory D
  codeRegions : List CodeRegion

/-- Whether a write of a width tracks what it writes: those of 32, 64 and 128 bits do, in main memory. -/
def tracks (tlbEntries : List TlbEntry) (w : Width) (address : Word) : Bool :=
  match w with
  | .w8 | .w16 => false
  | .w32 | .w64 | .w128 =>
    decide (w.bytes ∣ address.toNat) &&
      match target tlbEntries w address with
      | .ok (.memory .rdram _) => true
      | _ => false

/-- What happens to tracked memory. -/
inductive Op
  | write (w : Width) (address : Word) (value : BitVec (8 * w.bytes))
  | clear (address size : Word)
  deriving DecidableEq

/-- A write that did not throw, or a clearing. -/
inductive Event
  | wrote (address size : Word)
  | cleared (address size : Word)
  deriving DecidableEq, Repr

section

variable {D : Type} (d : Devices D)

/-- The state behind an operation, with what it was, unless it never ends. -/
def Op.run (t : Tracked D) : Op → Option (Tracked D × List Event)
  | .write w address value => do
    let codeRegions ←
      if tracks t.mem.tlbEntries w address then markModified t.codeRegions address (.ofNat 32 w.bytes)
      else some t.codeRegions
    match d.write w address value t.mem with
    | .ok _ mem => return (⟨mem, codeRegions⟩, [.wrote address (.ofNat 32 w.bytes)])
    | .error _ mem => return (⟨mem, codeRegions⟩, [])
  | .clear address size => do
    let codeRegions ← clearModifiedFlag t.codeRegions address size
    return ({ t with codeRegions }, [.cleared address size])

def runOps : Tracked D → List Op → Option (Tracked D × List Event)
  | t, [] => some (t, [])
  | t, op :: ops => do
    let (t, events) ← op.run d t
    let (t, later) ← runOps t ops
    return (t, events ++ later)

end

def registerAll (bounds : List (Word × Word)) : List CodeRegion :=
  bounds.foldl (fun regions b => registerCodeRegion regions b.1 b.2) []

/-! ### What is tracked -/

/-- **A range touches a word of a region**: some byte of it does. -/
def CodeRegion.Touches (r : CodeRegion) (i : ℕ) (address size : Word) : Prop :=
  ∃ b, address.toNat ≤ b ∧ b < address.toNat + size.toNat ∧ r.start.toNat + 4 * i ≤ b ∧
    b < r.start.toNat + 4 * i + 4 ∧ b < r.stop.toNat

/-- **A word was modified**: a write touched it, and no later clearing did. -/
def Modified (r : CodeRegion) (i : ℕ) (events : List Event) : Prop :=
  ∃ before address size after, events = before ++ .wrote address size :: after ∧
    r.Touches i address size ∧ ∀ a n, .cleared a n ∈ after → ¬r.Touches i a n

end Ps2Recomp.CodeRegions
