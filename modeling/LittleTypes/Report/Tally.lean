import LittleTypes.Report.Stop

/-!
# Tallies of failures

Independent declarations may fail one by one, and their failures are collected in tallies.  A
tally that has never been written to holds nothing and is its owner's alone to fill; when such a
tally takes over another one, the two names mean the same tally from then on.
-/

namespace LittleTypes

/-- One tally: the names that share it, and the failures in it, in order. -/
structure Tally where
  /-- The names that mean this tally. -/
  owners : List String
  /-- The failures so far. -/
  stops : List Stop

/-- Named tallies.  Names without a tally have recorded nothing. -/
abbrev Tallies := List Tally

namespace Tallies

/-- The tally that a name means. -/
def find? (ts : Tallies) (x : String) : Option Tally := List.find? (fun t ↦ t.owners.contains x) ts

/-- The failures recorded under a name. -/
def stops (ts : Tallies) (x : String) : List Stop := ((ts.find? x).map Tally.stops).getD []

/-- Changes the tally that a name means. -/
def update (ts : Tallies) (x : String) (f : Tally → Tally) : Tallies :=
  ts.map fun t ↦ if t.owners.contains x then f t else t

/-- Adds failures under a name, which gets a tally of its own if it has none. -/
def record (ts : Tallies) (x : String) (stops : List Stop) : Tallies :=
  match ts.find? x with
  | some _ => ts.update x fun t ↦ { t with stops := t.stops ++ stops }
  | none => ⟨[x], stops⟩ :: ts

/-- Adds the failures of one name to those of another.  A name without a tally joins the other
one's. -/
def merge (ts : Tallies) (x y : String) : Tallies :=
  match ts.find? x with
  | some _ => ts.record x (ts.stops y)
  | none => ts.update y fun t ↦ { t with owners := x :: t.owners }

end Tallies

/-- How failures are listed in a log: numbered from zero, each with its message. -/
def Stop.summary (stops : List Stop) : List String :=
  stops.zipIdx.map fun (s, i) ↦ "e" ++ toString i ++ "=[msg=" ++ s.render ++ "]"

end LittleTypes
