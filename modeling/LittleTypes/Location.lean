/-!
# Locations

A location is where a piece of program text starts and where it ends.  Terms carry locations only
so that failures can say where they happened; nothing is ever computed from one.
-/

namespace LittleTypes

/-- A stretch of program text, from its first position to the position just after it. -/
@[ext]
structure Location where
  /-- The position of the first character. -/
  start : Int := 0
  /-- The position just after the last character. -/
  finish : Int := 0
deriving DecidableEq

namespace Location

/-- A location is written as its two positions around a hyphen, or as one position when they
agree. -/
def render (l : Location) : String :=
  if l.start = l.finish then toString l.start else s!"{l.start}-{l.finish}"

/-- The stretch from the start of one location to the end of another. -/
def between (l k : Location) : Location := ⟨l.start, k.finish⟩

end Location

end LittleTypes
