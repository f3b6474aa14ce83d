import LittleTypes.Form
import LittleTypes.Location

/-!
# Source terms

What a reader of program text hands to the checker.  Every node knows its location.  Functions
take their arguments together and binders come in groups here; elaboration makes them one at a
time.
-/

namespace LittleTypes

/-- The place where a name is bound. -/
structure Site where
  /-- Where the name stands. -/
  loc : Location := {}
  /-- The name that is bound. -/
  name : String
deriving DecidableEq

/-- An expression as it was written. -/
inductive Source
  /-- A place where an expression should stand and none does. -/
  | missing
  | var (loc : Location) (x : String)
  /-- An expression still to be written. -/
  | hole (loc : Location)
  /-- An expression with its type. -/
  | the (loc : Location) (type e : Source)
  | app (loc : Location) (f : Source) (args : List Source)
  | numeral (loc : Location) (n : Nat)
  | quote (loc : Location) (s : String)
  | lam (loc : Location) (params : List Site) (body : Source)
  | pi (loc : Location) (binders : List (Site × Source)) (body : Source)
  | sigma (loc : Location) (binders : List (Site × Source)) (body : Source)
  /-- Function types without dependency; the last type is the result. -/
  | arrow (loc : Location) (types : List Source)
  /-- A pair type without dependency. -/
  | pair (loc : Location) (fst snd : Source)
  | const (loc : Location) (k : Const)
  | unary (loc : Location) (k : Unary) (a : Source)
  | binary (loc : Location) (k : Binary) (a b : Source)
  | equal (loc : Location) (type lhs rhs : Source)
  | project (loc : Location) (k : Projection) (target : Source)
  | recursor (loc : Location) (k : Recursor) (target base step : Source)
  | induct (loc : Location) (k : Induction) (target motive base step : Source)
  | transport (loc : Location) (k : Transport) (target motive base : Source)
  | indAbsurd (loc : Location) (target motive : Source)
  | trans (loc : Location) (left right : Source)
  | cong (loc : Location) (target f : Source)
  | indVec (loc : Location) (len target motive base step : Source)

/-- Where an expression stands.  What is missing stands at the beginning. -/
def Source.loc : Source → Location
  | missing => {}
  | var l .. | hole l | the l .. | app l .. | numeral l .. | quote l .. | lam l .. | pi l ..
  | sigma l .. | arrow l .. | pair l .. | const l .. | unary l .. | binary l .. | equal l ..
  | project l .. | recursor l .. | induct l .. | transport l .. | indAbsurd l .. | trans l ..
  | cong l .. | indVec l .. => l

end LittleTypes
