import LittleTypes.Form
import LittleTypes.Value.Place

/-!
# Faults

What goes wrong when a term is evaluated or a value is read back that does not make sense.
Checked programs should have no faults; a fault is never reported to the author of a program as a
mistake in it.

Evaluation has faults of its own, because a value that nobody has looked at yet may turn out to be
one of them.
-/

namespace LittleTypes

/-- The outermost constructor of a value. -/
inductive Shape
  | const (k : Const)
  | quote
  | unary (k : Unary)
  | binary (k : Binary)
  | equal
  | pi
  | sigma
  | lam
  | neu
  | delayed
  | absent
deriving DecidableEq

/-- How a shape is named in messages. -/
def Shape.label : Shape → String
  | const .univ => "*nbe.Universe"
  | const .nat => "*nbe.Nat"
  | const .zero => "*nbe.Zero"
  | const .atom => "*nbe.Atom"
  | const .trivial => "*nbe.Trivial"
  | const .sole => "*nbe.Sole"
  | const .nil => "*nbe.Nil"
  | const .absurd => "*nbe.Absurd"
  | const .vecnil => "*nbe.VecNil"
  | quote => "*nbe.Quote"
  | unary .add1 => "*nbe.Add1"
  | unary .list => "*nbe.List"
  | unary .same => "*nbe.Same"
  | unary .left => "*nbe.Left"
  | unary .right => "*nbe.Right"
  | binary .cons => "*nbe.Cons"
  | binary .listCons => "*nbe.ListCons"
  | binary .vec => "*nbe.Vec"
  | binary .vecCons => "*nbe.VecCons"
  | binary .either => "*nbe.Either"
  | equal => "*nbe.Equal"
  | pi => "*nbe.Pi"
  | sigma => "*nbe.Sigma"
  | lam => "*nbe.Lam"
  | neu => "*nbe.Neu"
  | delayed => "*nbe.Delay"
  | absent => "<nil>"

/-- What can meet a value of the wrong shape: an eliminator, or the step that finds out what a
neutral list, equality or vector consists of. -/
inductive Operation
  | application
  | project (k : Projection)
  | recursor (k : Recursor)
  | induct (k : Induction)
  | transport (k : Transport)
  | indAbsurd
  | trans
  | cong
  | indVec
  | ofList
  | ofEquality
  | ofVector
deriving DecidableEq

/-- How an operation is named in messages. -/
def Operation.label : Operation → String
  | application => "application"
  | project k => k.keyword
  | recursor k => k.keyword
  | induct k => k.keyword
  | transport k => k.keyword
  | indAbsurd => "ind-Absurd"
  | trans => "trans"
  | cong => "cong"
  | indVec => "ind-Vec"
  | ofList => "list eliminator"
  | ofEquality => "equality eliminator"
  | ofVector => "vector eliminator"

/-- Why evaluation did not finish. -/
inductive Cause
  /-- An operation met a value that it has no rule for. -/
  | stuck (op : Operation) (shape : Shape)
  /-- A variable has no value. -/
  | unbound (x : String)
  /-- There is no term to evaluate. -/
  | noTerm
  /-- The computation was not finished when its fuel was used up. -/
  | outOfFuel
deriving DecidableEq

/-- An evaluation that broke off. -/
structure EvalFault where
  /-- Why it did not finish. -/
  cause : Cause
  /-- The kept values that somebody was looking at, outermost first. -/
  trail : List Address := []
deriving DecidableEq

/-- A fault that leaves a kept value empty, if the evaluation was for one. -/
def EvalFault.within (p : Place) (f : EvalFault) : EvalFault :=
  { f with trail := p.address.toList ++ f.trail }

/-- A fault leaves nothing empty that is not kept. -/
@[simp] theorem EvalFault.within_passing (f : EvalFault) : f.within .passing = f := rfl

/-- Why evaluation or reading back did not finish. -/
inductive Fault
  /-- Evaluation did not finish. -/
  | eval (f : EvalFault)
  /-- A value of this shape does not belong to a type of that shape. -/
  | unreadable (value type : Shape)
  /-- A value of this shape is not a type. -/
  | notType (shape : Shape)
  /-- A name would be bound twice. -/
  | duplicate (x : String)
deriving DecidableEq

/-- How it is told why evaluation did not finish. -/
def Cause.message : Cause → String
  | stuck op shape => op.label ++ ": unexpected value " ++ shape.label
  | unbound x => "unbound variable " ++ x ++ " during evaluation"
  | noTerm => "cannot evaluate <nil>"
  | outOfFuel => "out of fuel"

/-- How a fault is told. -/
def Fault.message : Fault → String
  | eval f => f.cause.message
  | unreadable value type => "cannot read back " ++ value.label ++ " at type " ++ type.label
  | notType shape => shape.label ++ " is not a type"
  | duplicate x => "name '" ++ x ++ "' is already bound in this context"

/-- A fault of evaluation is a fault of whatever it is a step of. -/
instance : MonadLift (Except EvalFault) (Except Fault) := ⟨Except.mapError Fault.eval⟩

end LittleTypes
