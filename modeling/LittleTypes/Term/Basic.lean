import LittleTypes.Form
import LittleTypes.Location
import LittleTypes.Name.Basic

/-!
# Terms

The elaborated language, in which functions take one argument, binders bind one name, and every
eliminator carries the types that evaluation needs.  Variables are names.

Besides the type itself this module has the three folds over it that everything else is built on:
the immediate sub-terms, the names, and whether a term is legal.
-/

namespace LittleTypes

/-- An elaborated expression. -/
inductive Term
  /-- A place where a term should stand and none does. -/
  | missing
  | var (x : String)
  /-- An unfinished expression: where it stands and the type it was to have. -/
  | hole (loc : Location) (type : Term)
  /-- A term with its type. -/
  | the (type e : Term)
  | app (f a : Term)
  | numeral (n : Nat)
  | quote (s : String)
  | lam (x : String) (body : Term)
  | pi (x : String) (dom cod : Term)
  | sigma (x : String) (fst snd : Term)
  | const (k : Const)
  | unary (k : Unary) (a : Term)
  | binary (k : Binary) (a b : Term)
  | equal (type lhs rhs : Term)
  | project (k : Projection) (target : Term)
  /-- The base comes with its type, which is also the type of the whole. -/
  | recursor (k : Recursor) (target baseType base step : Term)
  | induct (k : Induction) (target motive base step : Term)
  | transport (k : Transport) (target motive base : Term)
  | indAbsurd (target motive : Term)
  | trans (left right : Term)
  | cong (target cod f : Term)
  | indVec (len target motive base step : Term)
deriving DecidableEq

namespace Term

/-- The immediate sub-terms from left to right.  The base of a recursor is one sub-term together
with its type. -/
def children : Term → List Term
  | missing | var _ | numeral _ | quote _ | const _ => []
  | hole _ t => [t]
  | the t e => [t, e]
  | app f a => [f, a]
  | lam _ b => [b]
  | pi _ a b | sigma _ a b => [a, b]
  | unary _ a => [a]
  | binary _ a b => [a, b]
  | equal t l r => [t, l, r]
  | project _ t => [t]
  | recursor _ t baseType base s => [t, the baseType base, s]
  | induct _ t m b s => [t, m, b, s]
  | transport _ t m b => [t, m, b]
  | indAbsurd t m => [t, m]
  | trans l r => [l, r]
  | cong t c f => [t, c, f]
  | indVec n t m b s => [n, t, m, b, s]

/-- Every name in a term, whether it is bound, free or only a binder. -/
def names : Term → List String
  | missing | numeral _ | quote _ | const _ => []
  | var x => [x]
  | hole _ t => t.names
  | the t e => t.names ++ e.names
  | app f a => f.names ++ a.names
  | lam x b => x :: b.names
  | pi x a b | sigma x a b => x :: (a.names ++ b.names)
  | unary _ a => a.names
  | binary _ a b => a.names ++ b.names
  | equal t l r => t.names ++ l.names ++ r.names
  | project _ t => t.names
  | recursor _ t baseType base s => t.names ++ baseType.names ++ base.names ++ s.names
  | induct _ t m b s => t.names ++ m.names ++ b.names ++ s.names
  | transport _ t m b => t.names ++ m.names ++ b.names
  | indAbsurd t m => t.names ++ m.names
  | trans l r => l.names ++ r.names
  | cong t c f => t.names ++ c.names ++ f.names
  | indVec n t m b s => n.names ++ t.names ++ m.names ++ b.names ++ s.names

/-- A term is legal when nothing is missing from it, its variables and binders are variable names,
and its quoted atoms are atom symbols. -/
def isLegal : Term → Bool
  | missing => false
  | numeral _ | const _ => true
  | var x => isVariableName x
  | quote s => isAtomSymbol s
  | hole _ t => t.isLegal
  | the t e => t.isLegal && e.isLegal
  | app f a => f.isLegal && a.isLegal
  | lam x b => isVariableName x && b.isLegal
  | pi x a b | sigma x a b => isVariableName x && a.isLegal && b.isLegal
  | unary _ a => a.isLegal
  | binary _ a b => a.isLegal && b.isLegal
  | equal t l r => t.isLegal && l.isLegal && r.isLegal
  | project _ t => t.isLegal
  | recursor _ t baseType base s => t.isLegal && baseType.isLegal && base.isLegal && s.isLegal
  | induct _ t m b s => t.isLegal && m.isLegal && b.isLegal && s.isLegal
  | transport _ t m b => t.isLegal && m.isLegal && b.isLegal
  | indAbsurd t m => t.isLegal && m.isLegal
  | trans l r => l.isLegal && r.isLegal
  | cong t c f => t.isLegal && c.isLegal && f.isLegal
  | indVec n t m b s => n.isLegal && t.isLegal && m.isLegal && b.isLegal && s.isLegal

/-- The unfinished expressions in a term, each with its location and type, an outer one before
those in its type and otherwise from left to right. -/
def holes : Term → List (Location × Term)
  | missing | var _ | numeral _ | quote _ | const _ => []
  | hole l t => (l, t) :: t.holes
  | the t e => t.holes ++ e.holes
  | app f a => f.holes ++ a.holes
  | lam _ b => b.holes
  | pi _ a b | sigma _ a b => a.holes ++ b.holes
  | unary _ a => a.holes
  | binary _ a b => a.holes ++ b.holes
  | equal t l r => t.holes ++ l.holes ++ r.holes
  | project _ t => t.holes
  | recursor _ t baseType base s => t.holes ++ baseType.holes ++ base.holes ++ s.holes
  | induct _ t m b s => t.holes ++ m.holes ++ b.holes ++ s.holes
  | transport _ t m b => t.holes ++ m.holes ++ b.holes
  | indAbsurd t m => t.holes ++ m.holes
  | trans l r => l.holes ++ r.holes
  | cong t c f => t.holes ++ c.holes ++ f.holes
  | indVec n t m b s => n.holes ++ t.holes ++ m.holes ++ b.holes ++ s.holes

/-- The type without elements, written as itself. -/
def isAbsurd : Term → Bool
  | const .absurd => true
  | _ => false

end Term

end LittleTypes
