import LittleTypes.Context.Listing
import LittleTypes.Typing.Elaborate

/-!
# Questions about programs

What can be asked of an expression in a context: its normal form, whether it has a type, whether
two expressions are the same, whether a name can stand for what it is said to stand for.
-/

namespace LittleTypes

namespace Context

variable (fuel : Nat) (Γ : Context)

/-- The scope of a declaration, in which nothing is renamed yet. -/
def scope : Scope := { context := Γ }

/-- The normal form of an expression, with the normal form of its type. -/
def rep (e : Source) : Checked Term := do
  let j ← e.synth fuel Γ.scope
  let tv ← Γ.scope.eval fuel j.type
  let v ← Γ.scope.eval fuel j.term
  let type ← Γ.scope.readBackType fuel tv
  pure (.the type (← Γ.scope.readBack fuel tv v))

/-- The normal form of a type. -/
def normType (e : Source) : Checked Term := do
  let t ← e.isType fuel Γ.scope
  Γ.scope.readBackType fuel (← Γ.scope.eval fuel t)

/-- The normal form of an expression, or of a type that has no type itself.  What is said about an
expression that is neither is why it is not an expression. -/
def norm (e : Source) : Checked Term :=
  (Γ.rep fuel e).onStop fun s ↦ (Γ.normType fuel e).onStop fun _ ↦ .fail (.stop s)

/-- Elaborates an expression against a type that is itself written in the source. -/
def checkAt (type e : Source) : Checked Term := do
  let t ← type.isType fuel Γ.scope
  e.check fuel Γ.scope (← Γ.scope.eval fuel t)

/-- Succeeds if two expressions are the same element of a type. -/
def checkSame (loc : Location) (type a b : Source) : Checked Unit := do
  let t ← type.isType fuel Γ.scope
  let tv ← Γ.scope.eval fuel t
  let a' ← a.check fuel Γ.scope tv
  let b' ← b.check fuel Γ.scope tv
  let av ← Γ.scope.eval fuel a'
  let bv ← Γ.scope.eval fuel b'
  Γ.scope.convert fuel loc tv av bv

/-- Succeeds if two types are the same. -/
def checkSameType (loc : Location) (given expected : Source) : Checked Unit := do
  let g ← given.isType fuel Γ.scope
  let x ← expected.isType fuel Γ.scope
  let gv ← Γ.scope.eval fuel g
  let xv ← Γ.scope.eval fuel x
  Γ.scope.sameType fuel loc gv xv

/-- The type of a name in use. -/
def varType (loc : Location) (x : String) : Checked Term :=
  match Γ.typeOf? x with
  | some type => Γ.scope.readBackType fuel type
  | none => .fail (.stop { code := .scope, loc, message := ["Unknown variable", x] })

/-- Checks what a name is said to stand for. -/
def elaborate : Declaration Source → Checked (Declaration Term)
  | .free x type => do pure (.free x (← type.isType fuel Γ.scope))
  | .claim x type => do pure (.claim x (← type.isType fuel Γ.scope))
  | .defn x type e => do
    let t ← type.isType fuel Γ.scope
    let e' ← e.check fuel Γ.scope (← Γ.scope.eval fuel t)
    pure (.defn x t e')

end Context

end LittleTypes
