import LittleTypes.Term.Basic
import LittleTypes.Value.Fault

/-!
# Values

What terms mean.  A value is known down to its outermost constructor; what stands below it is
delayed, so that nothing is evaluated before somebody looks at it, and nothing is evaluated twice.
A function body is kept as a closure, and an elimination whose target is not known yet is kept as
a neutral.

Closures are data: a term with its environment, or one of the few type families that the
eliminators need.  So relations between values can be defined by how the values are built.
-/

namespace LittleTypes

mutual

/-- The meaning of a term. -/
inductive Value
  | const (k : Const)
  | quote (s : String)
  | unary (k : Unary) (a : Value)
  | binary (k : Binary) (a b : Value)
  | equal (type lhs rhs : Value)
  | pi (x : String) (dom : Value) (cod : Closure)
  | sigma (x : String) (fst : Value) (snd : Closure)
  | lam (x : String) (body : Closure)
  /-- An elimination that cannot go on, with its type. -/
  | neu (type : Value) (n : Neutral)
  /-- A value that nobody has looked at yet.  There may turn out to be none. -/
  | delayed (v : Thunk Outcome)
  /-- What is found in place of a value whose evaluation has broken off before. -/
  | absent

/-- What somebody sees who looks at a delayed value. -/
inductive Outcome
  | value (v : Value)
  | fault (f : EvalFault)

/-- A value that waits for its argument.  All but the first are the type families in the types of
motives, steps and cases. -/
inductive Closure
  /-- A term with one more name than its environment. -/
  | body (ρ : Env) (x : String) (t : Term)
  /-- The same value whatever the argument. -/
  | constant (v : Value)
  /-- From `n-1` to `(→ (motive n-1) (motive (add1 n-1)))`. -/
  | natStep (motive : Value)
  /-- From `e` to `(Π ((es (List E))) (→ (motive es) (motive (:: e es))))`. -/
  | listStep (elem motive : Value)
  /-- From `es` to `(→ (motive es) (motive (:: e es)))`. -/
  | listStepTail (motive e : Value)
  /-- From `to` to `(→ (= A from to) U)`. -/
  | equalMotive (type lhs : Value)
  /-- From `k` to `(→ (Vec E k) U)`. -/
  | vecMotive (elem : Value)
  /-- From `k` to `(Π ((h E) (t (Vec E k))) (→ (motive k t) (motive (add1 k) (vec:: h t))))`. -/
  | vecStep (elem motive : Value)
  /-- From `h` to `(Π ((t (Vec E k))) (→ (motive k t) (motive (add1 k) (vec:: h t))))`. -/
  | vecStepHead (elem motive k : Value)
  /-- From `t` to `(→ (motive k t) (motive (add1 k) (vec:: h t)))`. -/
  | vecStepTail (motive k h : Value)
  /-- From `x` to `(motive (left x))` or `(motive (right x))`. -/
  | eitherCase (side : Unary) (motive : Value)

/-- A variable or an unfinished expression, and the eliminations that wait for it. -/
inductive Neutral
  | var (x : String)
  | hole (loc : Location) (type : Value)
  | app (f : Neutral) (a : Typed)
  | project (k : Projection) (target : Neutral)
  | recursor (k : Recursor) (target : Neutral) (base step : Typed)
  | induct (k : Induction) (target : Neutral) (motive base step : Typed)
  | transport (k : Transport) (target : Neutral) (motive base : Typed)
  | indAbsurd (target : Neutral) (motive : Typed)
  /-- Only the left equality is unknown. -/
  | transLeft (left : Neutral) (right : Typed)
  /-- Only the right equality is unknown. -/
  | transRight (left : Typed) (right : Neutral)
  /-- Both equalities are unknown. -/
  | transBoth (left right : Neutral)
  | cong (target : Neutral) (cod : Value) (f : Typed)
  /-- The vector is unknown and its length is not. -/
  | indVec (len : Typed) (target : Neutral) (motive base step : Typed)
  /-- The vector and its length are both unknown. -/
  | indVecBoth (len target : Neutral) (motive base step : Typed)

/-- A value with its type. -/
inductive Typed
  | mk (type value : Value)

/-- The values of the variables in scope, most recent first. -/
inductive Env
  | nil
  | cons (x : String) (v : Value) (ρ : Env)

end

/-- The value of a variable is that of its most recent binding. -/
def Env.lookup (x : String) : Env → Option Value
  | nil => none
  | cons y v ρ => if y = x then some v else ρ.lookup x

/-- The names of an environment, most recent first. -/
def Env.names : Env → List String
  | nil => []
  | cons x _ ρ => x :: ρ.names

namespace Outcome

/-- The value or the fault. -/
def toExcept : Outcome → Except EvalFault Value
  | value v => .ok v
  | fault f => .error f

/-- What there is to see of a value or a fault. -/
def ofExcept : Except EvalFault Value → Outcome
  | .ok v => value v
  | .error f => fault f

@[simp] theorem toExcept_ofExcept (x : Except EvalFault Value) : (ofExcept x).toExcept = x := by
  cases x <;> rfl

end Outcome

namespace Value

/-- A function type whose result type does not depend on the argument. -/
def arrow (x : String) (dom cod : Value) : Value := pi x dom (.constant cod)

/-- A variable as a value of its type. -/
def ofVar (x : String) (type : Value) : Value := neu type (.var x)

/-- A number is as many `add1` around `zero`. -/
def numeral (n : Nat) : Value := Nat.repeat (unary .add1) n (const .zero)

/-- A value with its outermost constructor in sight. -/
def force : Value → Except EvalFault Value
  | delayed v => v.get.toExcept
  | v => pure v

/-- A computation that is put off until somebody looks at its result. -/
def delay (p : Place) (x : Unit → Except EvalFault Value) : Value :=
  delayed (Thunk.mk fun u ↦
    if p.isEmpty then .value absent else .ofExcept ((x u >>= force).mapError (·.within p)))

/-- To look at a computation that was put off is to run it and to look at its result. -/
@[simp] theorem force_delay (x : Unit → Except EvalFault Value) :
    (delay .passing x).force = x () >>= force := by
  simp only [force, delay, Thunk.get, Place.isEmpty_passing, Bool.false_eq_true, if_false,
    Outcome.toExcept_ofExcept]
  cases x () >>= force <;> rfl

/-- The outermost constructor of a value as it is. -/
def shape : Value → Shape
  | const k => .const k
  | quote _ => .quote
  | unary k _ => .unary k
  | binary k _ _ => .binary k
  | equal _ _ _ => .equal
  | pi _ _ _ => .pi
  | sigma _ _ _ => .sigma
  | lam _ _ => .lam
  | neu _ _ => .neu
  | delayed _ => .delayed
  | absent => .absent

end Value

/-! ## The types of motives, steps and cases -/

namespace Value

/-- The type `(→ Nat B)`. -/
def whichNatStep (baseType : Value) : Value := arrow "n-1" (const .nat) baseType

/-- The type `(→ B B)`. -/
def iterNatStep (baseType : Value) : Value := arrow "ih" baseType baseType

/-- The type `(→ Nat B B)`. -/
def recNatStep (baseType : Value) : Value := arrow "n-1" (const .nat) (arrow "ih" baseType baseType)

/-- The type `(→ E (List E) B B)`. -/
def recListStep (elem baseType : Value) : Value :=
  arrow "e" elem (arrow "es" (unary .list elem) (arrow "ih" baseType baseType))

/-- The type `(→ Nat U)`. -/
def indNatMotive : Value := arrow "n" (const .nat) (const .univ)

/-- The type `(Π ((n-1 Nat)) (→ (motive n-1) (motive (add1 n-1))))`. -/
def indNatStep (motive : Value) : Value := pi "n-1" (const .nat) (.natStep motive)

/-- The type `(→ (List E) U)`. -/
def indListMotive (elem : Value) : Value := arrow "xs" (unary .list elem) (const .univ)

/-- The type `(Π ((e E) (es (List E))) (→ (motive es) (motive (:: e es))))`. -/
def indListStep (elem motive : Value) : Value := pi "e" elem (.listStep elem motive)

/-- The type `(→ (Either L R) U)`. -/
def indEitherMotive (left right : Value) : Value :=
  arrow "x" (binary .either left right) (const .univ)

/-- The type `(Π ((x A)) (motive (left x)))`, or the same with `right`. -/
def indEitherCase (side : Unary) (type motive : Value) : Value :=
  pi "x" type (.eitherCase side motive)

/-- The type `(→ A U)`. -/
def replaceMotive (type : Value) : Value := arrow "x" type (const .univ)

/-- The type `(Π ((to A)) (→ (= A from to) U))`. -/
def indEqualMotive (type lhs : Value) : Value := pi "to" type (.equalMotive type lhs)

/-- The type `(Π ((k Nat)) (→ (Vec E k) U))`. -/
def indVecMotive (elem : Value) : Value := pi "k" (const .nat) (.vecMotive elem)

/-- The type `(Π ((k Nat) (h E) (t (Vec E k))) (→ (motive k t) (motive (add1 k) (vec:: h t))))`.
-/
def indVecStep (elem motive : Value) : Value := pi "k" (const .nat) (.vecStep elem motive)

end Value

end LittleTypes
