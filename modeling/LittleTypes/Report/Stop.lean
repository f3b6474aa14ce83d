import LittleTypes.Term.Print

/-!
# Failures of programs

A mistake in a program is reported as a code, a location and a message.  The message is kept in
parts, so that the terms in it are still terms and can be shown in another way.
-/

namespace LittleTypes

/-- The kinds of mistakes. -/
inductive Code
  | none
  /-- A variable is not in scope. -/
  | scope
  /-- An expression has another type than it should. -/
  | typeMismatch
  /-- Two expressions that should be the same are not. -/
  | notSame
  /-- The type of an expression cannot be found out. -/
  | cannotSynth
  /-- A type or an expression has not the shape that is needed. -/
  | wrongShape
  /-- A word cannot be used as the name it is used as. -/
  | badName
  /-- A name is declared twice, or defined before it is claimed. -/
  | declaration
  /-- Any other number. -/
  | other (n : Int)
deriving DecidableEq

namespace Code

/-- The number of a kind of mistake. -/
def number : Code → Int
  | none => 0
  | scope => 1
  | typeMismatch => 2
  | notSame => 3
  | cannotSynth => 4
  | wrongShape => 5
  | badName => 6
  | declaration => 7
  | other n => n

/-- The kind of mistake with a number. -/
def ofNumber : Int → Code
  | 0 => none
  | 1 => scope
  | 2 => typeMismatch
  | 3 => notSame
  | 4 => cannotSynth
  | 5 => wrongShape
  | 6 => badName
  | 7 => declaration
  | n => other n

/-- A number with zeros in front of its digits, so that with its sign it fills three places. -/
def padded (n : Int) : String :=
  let digits := toString n.natAbs
  let sign := if n < 0 then "-" else ""
  sign ++ String.ofList (List.replicate (3 - sign.length - digits.length) '0') ++ digits

end Code

/-- A part of a message. -/
inductive Part
  | text (s : String)
  | term (t : Term)
  | number (n : Int)
  | flag (b : Bool)
  | absent
deriving DecidableEq

/-- How a part of a message is written. -/
def Part.render : Part → String
  | text s => s
  | term t => t.render
  | number n => toString n
  | flag b => if b then "true" else "false"
  | absent => "<nil>"

/-- The term in a part of a message. -/
def Part.term? : Part → Option Term
  | term t => some t
  | _ => none

instance : Coe String Part := ⟨.text⟩

instance : Coe Term Part := ⟨.term⟩

/-- A mistake in a program, and where it is. -/
structure Stop where
  /-- What kind of mistake it is. -/
  code : Code
  /-- Where it is. -/
  loc : Location := {}
  /-- What there is to say about it. -/
  message : List Part
deriving DecidableEq

namespace Stop

/-- The message alone. -/
def text (s : Stop) : String := " ".intercalate (s.message.map Part.render)

/-- The message with its location. -/
def located (s : Stop) : String := "at " ++ s.loc.render ++ ": " ++ s.text

/-- The message with its code and its location. -/
def render (s : Stop) : String := "(E" ++ Code.padded s.code.number ++ ") " ++ s.located

/-- The terms in the message. -/
def terms (s : Stop) : List Term := s.message.filterMap Part.term?

end Stop

end LittleTypes
