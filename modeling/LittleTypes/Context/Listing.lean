import LittleTypes.Context.ReadBack
import LittleTypes.Term.Alpha
import LittleTypes.Term.Print

/-!
# Contexts in terms of terms

A context holds values.  This module goes both ways between values and terms: it builds contexts
from terms, normalizes terms in a context, and lists a context with every type and value as a
normal form.
-/

namespace LittleTypes

/-- One more name for a context, given by expressions of some kind. -/
inductive Declaration (α : Type)
  | free (x : String) (type : α)
  | claim (x : String) (type : α)
  | defn (x : String) (type e : α)

/-- What a binding is. -/
inductive Binding.Kind
  | free | claim | defn
deriving DecidableEq

/-- What a binding is. -/
def Binding.kind : Binding → Kind
  | free _ => .free
  | claim _ => .claim
  | defn _ _ => .defn

/-- A binding as it is shown: its type, and its value if it has one, as normal forms. -/
structure Listed where
  name : String
  kind : Binding.Kind
  type : Term
  value : Option Term
deriving DecidableEq

/-- The text of the value.  The variable whose name is empty has none. -/
def Listed.valueText? (l : Listed) : Option String :=
  (l.value.map Term.render).filter fun text ↦ !text.isEmpty

namespace Context

variable (fuel : Nat)

/-- Adds a name whose type, and value if it has one, are evaluated in the context so far and kept
at a place. -/
def declareAt (Γ : Context) (p : Place) : Declaration Term → Except Fault Context
  | .free x type => do Γ.bindFree x (← Γ.evalAt fuel (p.part 0) type)
  | .claim x type => do pure ((x, .claim (← Γ.evalAt fuel (p.part 0) type)) :: Γ)
  | .defn x type e => do
    let t ← Γ.evalAt fuel (p.part 0) type
    let v ← Γ.evalAt fuel (p.part 1) e
    pure ((x, .defn t v) :: Γ)

/-- Adds several names in order. -/
def declareAll (Γ : Context) (ds : List (Declaration Term)) : Except Fault Context :=
  ds.foldlM (fun Γ d ↦ Γ.declareAt fuel .passing d) Γ

/-- The normal form of a term at a type, or of a term that is a type. -/
def normalize (Γ : Context) (type? : Option Term) (t : Term) : Except Fault Term :=
  match type? with
  | some type => do
    let tv ← Γ.eval fuel type
    let v ← Γ.eval fuel t
    Γ.readBack fuel tv v
  | none => do Γ.readBackType fuel (← Γ.eval fuel t)

/-- Whether a term is its own normal form, up to the names of bound variables. -/
def isNormal (Γ : Context) (type? : Option Term) (t : Term) : Except Fault Bool := do
  pure ((← Γ.normalize fuel type? t).alphaEquiv t)

/-- The bindings as they are shown, most recent first.  Each is read back in the context it was
added to. -/
def listing : Context → Except Fault (List Listed)
  | [] => pure []
  | (x, b) :: Γ => do
    let type ← readBackType fuel Γ b.type
    let value ← match b with
      | .defn t v => some <$> readBack fuel Γ t v
      | _ => pure none
    pure (⟨x, b.kind, type, value⟩ :: (← listing Γ))

end Context

end LittleTypes
