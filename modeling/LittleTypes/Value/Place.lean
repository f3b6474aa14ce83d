/-!
# Places

Most values are made to answer one question and are forgotten with it.  Those of a declaration are
kept, and what is delayed in them is looked at by many questions.  If evaluation breaks off, every
kept value that somebody was looking at is left empty: a later question does not meet the fault
again, but finds nothing there.

So a kept value must be known again.  Addresses are made from where in the evaluation of its
declaration a value is made, and need no supply of fresh names: evaluating the same declaration
once more gives the same addresses.
-/

namespace LittleTypes

/-- Which kept value is meant: the number of its declaration, and the turns that evaluation took
from there, last turn first. -/
abbrev Address := List Nat

/-- Where evaluation takes place. -/
structure Place where
  /-- Where the values are kept that are made here, if they are kept. -/
  address : Option Address := none
  /-- The kept values that have been left empty. -/
  empty : List Address := []

namespace Place

/-- Where values are made that are not kept. -/
def passing : Place := {}

/-- The place of one of the parts of an evaluation. -/
def part (p : Place) (i : Nat) : Place :=
  match p.address with
  | some a => { p with address := some (i :: a) }
  | none => p

/-- Whether the value that was made here has been left empty. -/
def isEmpty (p : Place) : Bool :=
  match p.address with
  | some a => p.empty.contains a
  | none => false

/-- The parts of an evaluation whose values are not kept are not kept either. -/
@[simp] theorem part_passing (i : Nat) : passing.part i = passing := rfl

/-- What is not kept is never found empty. -/
@[simp] theorem isEmpty_passing : passing.isEmpty = false := rfl

end Place

end LittleTypes
