import LittleTypes.Term.Basic

/-!
# Idealized values

Values as they would be if nothing ever ran out of fuel.  They differ from the values of evaluation
in two ways only.  What is delayed is kept as the demand that is to be answered, not as the answer
of a machine with so much fuel left, so an ideal value does not depend on fuel.  And an unknown
value is known by its level, that is by how many unknown values there were before it, and not by
a name.
-/

namespace LittleTypes.Idealized

mutual

/-- The meaning of a term. -/
inductive Value
  | const (k : Const)
  | quote (s : String)
  | unary (k : Unary) (a : Value)
  | binary (k : Binary) (a b : Value)
  | equal (type lhs rhs : Value)
  | pi (x : String) (dom : Value) (cod : Closure)
  | sigma (x : String) (fst : Value) (snd : Closure)
  | lam (x : String) (body : Closure)
  /-- An elimination that cannot go on, with its type. -/
  | neu (type : Value) (n : Neutral)
  /-- The answer to a demand that nobody has made yet. -/
  | later (d : Demand)

/-- A value that waits for its argument. -/
inductive Closure
  | body (ρ : Env) (x : String) (t : Term)
  | constant (v : Value)
  | natStep (motive : Value)
  | listStep (elem motive : Value)
  | listStepTail (motive e : Value)
  | equalMotive (type lhs : Value)
  | vecMotive (elem : Value)
  | vecStep (elem motive : Value)
  | vecStepHead (elem motive k : Value)
  | vecStepTail (motive k h : Value)
  | eitherCase (side : Unary) (motive : Value)

/-- An unknown value or an unfinished expression, and the eliminations that wait for it. -/
inductive Neutral
  | var (i : Nat)
  | hole (loc : Location) (type : Value)
  | app (f : Neutral) (a : Typed)
  | project (k : Projection) (target : Neutral)
  | recursor (k : Recursor) (target : Neutral) (base step : Typed)
  | induct (k : Induction) (target : Neutral) (motive base step : Typed)
  | transport (k : Transport) (target : Neutral) (motive base : Typed)
  | indAbsurd (target : Neutral) (motive : Typed)
  | transLeft (left : Neutral) (right : Typed)
  | transRight (left : Typed) (right : Neutral)
  | transBoth (left right : Neutral)
  | cong (target : Neutral) (cod : Value) (f : Typed)
  | indVec (len : Typed) (target : Neutral) (motive base step : Typed)
  | indVecBoth (len target : Neutral) (motive base step : Typed)

/-- A value with its type. -/
inductive Typed
  | mk (type value : Value)

/-- The values of the variables in scope, most recent first. -/
inductive Env
  | nil
  | cons (x : String) (v : Value) (ρ : Env)

/-- What evaluation can be asked for.  To look at a value is a demand of its own. -/
inductive Demand
  | look (v : Value)
  | eval (ρ : Env) (t : Term)
  | apply (f a : Value)
  | recursor (k : Recursor) (target baseType base step : Value)
  | induct (k : Induction) (target motive base step : Value)
  | indVec (len target motive base step : Value)

end

/-- The value of a variable is that of its most recent binding. -/
def Env.lookup (x : String) : Env → Option Value
  | nil => none
  | cons y v ρ => if y = x then some v else ρ.lookup x

@[simp] theorem Env.lookup_cons_self (x : String) (v : Value) (ρ : Env) :
    (Env.cons x v ρ).lookup x = some v := by
  simp [lookup]

theorem Env.lookup_cons_of_ne {x y : String} (h : y ≠ x) (v : Value) (ρ : Env) :
    (Env.cons y v ρ).lookup x = ρ.lookup x := by
  simp [lookup, h]

namespace Value

/-- A function type whose result type does not depend on the argument. -/
def arrow (x : String) (dom cod : Value) : Value := pi x dom (.constant cod)

/-- A number is as many `add1` around `zero`. -/
def numeral (n : Nat) : Value := Nat.repeat (unary .add1) n (const .zero)

/-! ## The types of motives, steps and cases -/

def whichNatStep (baseType : Value) : Value := arrow "n-1" (const .nat) baseType

def iterNatStep (baseType : Value) : Value := arrow "ih" baseType baseType

def recNatStep (baseType : Value) : Value := arrow "n-1" (const .nat) (arrow "ih" baseType baseType)

def recListStep (elem baseType : Value) : Value :=
  arrow "e" elem (arrow "es" (unary .list elem) (arrow "ih" baseType baseType))

def indNatMotive : Value := arrow "n" (const .nat) (const .univ)

def indNatStep (motive : Value) : Value := pi "n-1" (const .nat) (.natStep motive)

def indListMotive (elem : Value) : Value := arrow "xs" (unary .list elem) (const .univ)

def indListStep (elem motive : Value) : Value := pi "e" elem (.listStep elem motive)

def indEitherMotive (left right : Value) : Value :=
  arrow "x" (binary .either left right) (const .univ)

def indEitherCase (side : Unary) (type motive : Value) : Value :=
  pi "x" type (.eitherCase side motive)

def replaceMotive (type : Value) : Value := arrow "x" type (const .univ)

def indEqualMotive (type lhs : Value) : Value := pi "to" type (.equalMotive type lhs)

def indVecMotive (elem : Value) : Value := pi "k" (const .nat) (.vecMotive elem)

def indVecStep (elem motive : Value) : Value := pi "k" (const .nat) (.vecStep elem motive)

end Value

end LittleTypes.Idealized
