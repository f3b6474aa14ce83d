import LittleTypes.Name.Fresh
import LittleTypes.Value.Basic

/-!
# Contexts

What is known about the names in scope, most recent first.  A name is claimed before it is
defined, and it is free when it stands for an unknown value, as under a binder.
-/

namespace LittleTypes

/-- What is known about a name. -/
inductive Binding
  /-- A value of this type, otherwise unknown. -/
  | free (type : Value)
  /-- A name that is to be defined with this type. -/
  | claim (type : Value)
  /-- A name for this value of this type. -/
  | defn (type value : Value)

/-- The type of a name. -/
def Binding.type : Binding → Value
  | free t => t
  | claim t => t
  | defn t _ => t

/-- The names in scope, most recent first. -/
abbrev Context := List (String × Binding)

namespace Context

/-- The most recent binding of a name, of whatever kind. -/
def binding? (Γ : Context) (x : String) : Option Binding := List.lookup x Γ

/-- The newest name does not change what the others are bound to. -/
theorem binding?_cons_of_ne {Γ : Context} {x y : String} (h : y ≠ x) (b : Binding) :
    binding? ((x, b) :: Γ) y = Γ.binding? y := by
  simp [binding?, List.lookup_cons, beq_false_of_ne h]

/-- Whether a name is bound at all. -/
def binds (Γ : Context) (x : String) : Bool := (Γ.binding? x).isSome

/-- The names that are bound, most recent first. -/
def names (Γ : Context) : List String := Γ.map Prod.fst

/-- Adds a name for an unknown value.  A name that is bound already cannot stand for a second
thing. -/
def bindFree (Γ : Context) (x : String) (type : Value) : Except Fault Context :=
  if Γ.binds x then throw (.duplicate x) else pure ((x, .free type) :: Γ)

/-- The type of a name in use.  A name that is only claimed cannot be used. -/
def typeOf? (x : String) : Context → Option Value
  | [] => none
  | (_, .claim _) :: Γ => typeOf? x Γ
  | (y, .free t) :: Γ => if y = x then some t else typeOf? x Γ
  | (y, .defn t _) :: Γ => if y = x then some t else typeOf? x Γ

/-- The values of the names in scope: a defined name has its value, a free name stands for itself,
and a name that is only claimed has none. -/
def env : Context → Env
  | [] => .nil
  | (_, .claim _) :: Γ => env Γ
  | (x, .free t) :: Γ => .cons x (.ofVar x t) (env Γ)
  | (x, .defn _ v) :: Γ => .cons x v (env Γ)

/-- A name that is not bound, made from a hint. -/
def fresh (Γ : Context) (hint : String) : String := freshName Γ.names hint

/-- A name that is not bound and does not occur in a term either, so that it can be bound around
the term without capturing anything in it. -/
def freshBinder (Γ : Context) (t : Term) (hint : String) : String :=
  freshName (Γ.names ++ t.names) hint

end Context

end LittleTypes
