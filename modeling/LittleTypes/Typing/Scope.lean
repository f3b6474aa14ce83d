import LittleTypes.Source
import LittleTypes.Term.Alpha
import LittleTypes.Typing.Checked
import LittleTypes.Typing.Renaming

/-!
# Scopes

Where a term is checked: the context, and the names that were chosen for the bound variables of
the source. This module has what all checking rules are made of, namely evaluation in a scope, the
test for the shape of a type, and the comparison of values and types by their normal forms.
-/

namespace LittleTypes

/-- Where a term is checked. -/
structure Scope where
  /-- What is known about the names in scope. -/
  context : Context := []
  /-- The names chosen for the bound variables of the source. -/
  names : Renaming := {}

/-- An elaborated term and its type. -/
structure Judgment where
  /-- The type of the term. -/
  type : Term
  /-- The term. -/
  term : Term
deriving DecidableEq

/-- A judgment as one term. -/
def Judgment.toTerm (j : Judgment) : Term := .the j.type j.term

namespace Value

/-- The name, the argument type and the result type of a function type. -/
def pi? : Value → Option (String × Value × Closure)
  | pi x dom cod => some (x, dom, cod)
  | _ => none

/-- The two component types of a pair type. -/
def sigma? : Value → Option (Value × Closure)
  | sigma _ fst snd => some (fst, snd)
  | _ => none

/-- The element type of a list type. -/
def list? : Value → Option Value
  | unary .list elem => some elem
  | _ => none

/-- The type and the two sides of an equality type. -/
def equal? : Value → Option (Value × Value × Value)
  | equal t lhs rhs => some (t, lhs, rhs)
  | _ => none

/-- The element type and the length of a vector type. -/
def vec? : Value → Option (Value × Value)
  | binary .vec elem len => some (elem, len)
  | _ => none

/-- The two alternatives of a sum type. -/
def either? : Value → Option (Value × Value)
  | binary .either l r => some (l, r)
  | _ => none

/-- The predecessor of a number of the form `add1`. -/
def add1? : Value → Option Value
  | unary .add1 n => some n
  | _ => none

end Value

namespace Scope

variable (fuel : Nat) (s : Scope)

/-- The value of a term. -/
def eval (t : Term) : Checked Value := .ofEval (s.context.eval fuel t)

/-- The normal form of a value at its type. -/
def readBack (type v : Value) : Checked Term := .ofRead (s.context.readBack fuel type v)

/-- The normal form of a type. -/
def readBackType (v : Value) : Checked Term := .ofRead (s.context.readBackType fuel v)

/-- A value with its outermost constructor in sight. -/
def force (v : Value) : Checked Value := .ofEval v.force

/-- A function at an argument. -/
def apply (f a : Value) : Checked Value := .ofEval ((machine fuel).apply .passing f a)

/-- A closure at its argument. -/
def enter (c : Closure) (a : Value) : Checked Value := .ofEval ((machine fuel).enter .passing c a)

/-- The scope under a binder: the source name `x` is called `y` there. -/
def bind (x y : String) (type : Value) : Checked Scope :=
  .ofRead do pure ⟨← s.context.bindFree y type, s.names.extend x y⟩

/-- The judgment that a term has a type that is given as a value. -/
def judge (type : Value) (t : Term) : Checked Judgment := do pure ⟨← s.readBackType fuel type, t⟩

/-- What a type consists of, if it has the shape that is asked for. -/
def expect {α : Type} (loc : Location) (type : Value) (what : String) (view : Value → Option α) :
    Checked α := do
  match view (← force type) with
  | some a => pure a
  | none => .stop .wrongShape loc ["Expected", what, "but the type is", ← s.readBackType fuel type]

/-- What a function type consists of. -/
def expectPi (loc : Location) (type : Value) : Checked (String × Value × Closure) :=
  s.expect fuel loc type "a function type" Value.pi?

/-- What a pair type consists of. -/
def expectSigma (loc : Location) (type : Value) : Checked (Value × Closure) :=
  s.expect fuel loc type "a Σ type" Value.sigma?

/-- What a list type consists of. -/
def expectList (loc : Location) (type : Value) : Checked Value :=
  s.expect fuel loc type "a List type" Value.list?

/-- What an equality type consists of. -/
def expectEqual (loc : Location) (type : Value) : Checked (Value × Value × Value) :=
  s.expect fuel loc type "an = type" Value.equal?

/-- What a vector type consists of. -/
def expectVec (loc : Location) (type : Value) : Checked (Value × Value) :=
  s.expect fuel loc type "a Vec type" Value.vec?

/-- What a sum type consists of. -/
def expectEither (loc : Location) (type : Value) : Checked (Value × Value) :=
  s.expect fuel loc type "an Either type" Value.either?

/-- The predecessor of a length that has one.  The message says what the length is needed for. -/
def expectAdd1 (loc : Location) (len : Value) (message : String) : Checked Value := do
  match (← force len).add1? with
  | some k => pure k
  | none => .stop .wrongShape loc [message, ← s.readBack fuel (.const .nat) len]

/-- Succeeds if two values of a type are the same, which means that their normal forms are
α-equivalent. -/
def convert (loc : Location) (type v w : Value) : Checked Unit := do
  let t ← s.readBack fuel type v
  let u ← s.readBack fuel type w
  if t.alphaEquiv u then pure ()
  else
    .stop .notSame loc
      ["The expressions", t, "and", u, "are not the same", ← s.readBackType fuel type]

/-- Succeeds if two types are the same. -/
def sameType (loc : Location) (given expected : Value) : Checked Unit := do
  let g ← s.readBackType fuel given
  let x ← s.readBackType fuel expected
  if g.alphaEquiv x then pure () else .stop .typeMismatch loc ["Expected", x, "but given", g]

/-- Succeeds if a name may be bound. -/
def checkName (site : Site) : Checked Unit :=
  if isVariableName site.name then pure ()
  else .stop .badName site.loc ["Expected a variable name but found \"" ++ site.name ++ "\""]

end Scope

end LittleTypes
