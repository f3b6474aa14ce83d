import LittleTypes.Report.Stop

/-!
# Tallies in memory

The failures in a tally are a slice of an array, namely its first cells; there may be room for more
in the array.  Failures that are added are written to the same array as long as there is room, and
otherwise all of them are copied to a larger array.  The failures that a tally begins with are not
copied: the tally keeps the slice in which they are given to it.
-/

namespace LittleTypes

/-- An array of failures. -/
structure Backing where
  /-- The cells that have been written so far. -/
  cells : List Stop
  /-- How many cells there can be. -/
  capacity : Nat
  /-- No cells are written that are not there. -/
  fits : cells.length ≤ capacity

/-- Writes to the cells from an index on, whatever is in them. -/
def Backing.write (b : Backing) (i : Nat) (new : List Stop) : Backing :=
  if h : i + new.length ≤ b.capacity then
    ⟨b.cells.take i ++ new ++ b.cells.drop (i + new.length), b.capacity, by
      have := b.fits
      simp only [List.length_append, List.length_take, List.length_drop]
      omega⟩
  else b

/-- The array in which failures are listed, with room to spare. -/
def Backing.ofList (stops : List Stop) (spare : Nat) : Backing :=
  ⟨stops, stops.length + spare, Nat.le_add_right ..⟩

/-- The first cells of an array. -/
structure Slice where
  /-- The array, by its number. -/
  array : Nat
  /-- How many cells there are in the slice. -/
  length : Nat

/-- How large an array is made when there is no room in another one. -/
structure Growth where
  /-- The capacity of the new array, by that of the old one and the number of cells needed. -/
  next : Nat → Nat → Nat
  /-- There are as many cells as are needed. -/
  le_next : ∀ capacity need, need ≤ next capacity need

/-- Arrays, tallies, and the names of tallies.  A name may mean no tally, and several names may mean
the same one. -/
structure Ledger where
  /-- All arrays that have been made. -/
  arrays : List Backing := []
  /-- The failures in each tally. -/
  tallies : List Slice := []
  /-- The tallies that the names mean, the latest first. -/
  names : List (String × Nat) := []

namespace Ledger

/-- The failures in a slice. -/
def read (l : Ledger) (s : Slice) : List Stop :=
  match l.arrays[s.array]? with
  | some b => b.cells.take s.length
  | none => []

/-- The tally that a name means. -/
def tally? (l : Ledger) (x : String) : Option Nat := l.names.lookup x

/-- The failures in a tally. -/
def stopsAt (l : Ledger) (i : Nat) : List Stop :=
  match l.tallies[i]? with
  | some s => l.read s
  | none => []

/-- The failures seen under a name. -/
def stops (l : Ledger) (x : String) : List Stop :=
  match l.tally? x with
  | some i => l.stopsAt i
  | none => []

/-- The room in the array of a slice. -/
def room (l : Ledger) (s : Slice) : Nat :=
  match l.arrays[s.array]? with
  | some b => b.capacity - s.length
  | none => 0

theorem length_read_le (l : Ledger) (s : Slice) : (l.read s).length ≤ s.length := by
  unfold read
  split
  · exact List.length_take_le ..
  · exact Nat.zero_le _

/-- One more array. -/
def make (l : Ledger) (b : Backing) : Ledger := { l with arrays := l.arrays ++ [b] }

variable (g : Growth)

/-- Adds failures to a slice: in place if there is room, and otherwise in a new array. -/
def append (l : Ledger) (s : Slice) (new : List Stop) : Ledger × Slice :=
  if new.length ≤ l.room s then
    ({ l with arrays := l.arrays.modify s.array (·.write s.length new) },
      ⟨s.array, s.length + new.length⟩)
  else
    (l.make ⟨l.read s ++ new, g.next (s.length + l.room s) (s.length + new.length), by
        refine Nat.le_trans ?_ (g.le_next _ _)
        simpa using l.length_read_le s⟩,
      ⟨l.arrays.length, s.length + new.length⟩)

/-- Adds failures to a tally. -/
def extend (l : Ledger) (i : Nat) (new : List Stop) : Ledger :=
  match l.tallies[i]? with
  | some s =>
    let (l', s') := l.append g s new
    { l' with tallies := l'.tallies.set i s' }
  | none => l

/-- A new tally for a name, which keeps a slice as it is. -/
def keep (l : Ledger) (x : String) (s : Slice) : Ledger :=
  { l with tallies := l.tallies ++ [s], names := (x, l.tallies.length) :: l.names }

/-- Gives a name the failures in a slice.  A name with a tally copies them, and a name without a
tally keeps the slice. -/
def give (l : Ledger) (x : String) (s : Slice) : Ledger :=
  match l.tally? x with
  | some i => l.extend g i (l.read s)
  | none => l.keep x s

/-- Adds failures under a name.  They are listed in an array of their own, with room to spare, and
the name is given this slice. -/
def record (l : Ledger) (x : String) (new : List Stop) (spare : Nat) : Ledger :=
  (l.make (.ofList new spare)).give g x ⟨l.arrays.length, new.length⟩

/-- Adds the failures of one name to those of another.  A name without a tally shares the tally of
the other one. -/
def merge (l : Ledger) (x y : String) : Ledger :=
  match l.tally? x with
  | some i => l.extend g i (l.stops y)
  | none =>
    match l.tally? y with
    | some j => { l with names := (x, j) :: l.names }
    | none => l

end Ledger

end LittleTypes
