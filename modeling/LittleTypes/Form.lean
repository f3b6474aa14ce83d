/-!
# Forms

The language has few shapes of expressions and many words for each of them.  Words that are used
alike are gathered here by shape: what takes no argument, what takes one, what takes a target with
a base and a step, and so on.  Source terms, elaborated terms and values share these words.
-/

namespace LittleTypes

/-- Constants: types and values that take no argument. -/
inductive Const
  | univ | nat | zero | atom | trivial | sole | nil | absurd | vecnil
deriving DecidableEq

/-- Constructors, of types and of values, that take one argument. -/
inductive Unary
  | add1 | list | same | left | right
deriving DecidableEq

/-- Constructors, of types and of values, that take two arguments. -/
inductive Binary
  | cons | listCons | vec | vecCons | either
deriving DecidableEq

/-- Eliminators that take nothing but their target. -/
inductive Projection
  | car | cdr | symm | head | tail
deriving DecidableEq

/-- Eliminators whose result type is the type of their base. -/
inductive Recursor
  | whichNat | iterNat | recNat | recList
deriving DecidableEq

/-- Eliminators with a motive over their target and one case for each of its two constructors. -/
inductive Induction
  | indNat | indList | indEither
deriving DecidableEq

/-- Eliminators of equality with a motive and a base. -/
inductive Transport
  | replace | indEqual
deriving DecidableEq

/-- How a constant is written. -/
def Const.keyword : Const → String
  | univ => "U"
  | nat => "Nat"
  | zero => "zero"
  | atom => "Atom"
  | trivial => "Trivial"
  | sole => "sole"
  | nil => "nil"
  | absurd => "Absurd"
  | vecnil => "vecnil"

/-- How a one-place constructor is written. -/
def Unary.keyword : Unary → String
  | add1 => "add1"
  | list => "List"
  | same => "same"
  | left => "left"
  | right => "right"

/-- How a two-place constructor is written. -/
def Binary.keyword : Binary → String
  | cons => "cons"
  | listCons => "::"
  | vec => "Vec"
  | vecCons => "vec::"
  | either => "Either"

/-- How an eliminator that takes only its target is written. -/
def Projection.keyword : Projection → String
  | car => "car"
  | cdr => "cdr"
  | symm => "symm"
  | head => "head"
  | tail => "tail"

/-- How a recursor is written. -/
def Recursor.keyword : Recursor → String
  | whichNat => "which-Nat"
  | iterNat => "iter-Nat"
  | recNat => "rec-Nat"
  | recList => "rec-List"

/-- How an induction is written. -/
def Induction.keyword : Induction → String
  | indNat => "ind-Nat"
  | indList => "ind-List"
  | indEither => "ind-Either"

/-- How an eliminator of equality is written. -/
def Transport.keyword : Transport → String
  | replace => "replace"
  | indEqual => "ind-="

end LittleTypes
