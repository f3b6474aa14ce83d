import LittleTypes.Context.Basic
import LittleTypes.Value.Machine

/-!
# Normal forms

Reading a value back gives the normal form of the terms that have this value.  It goes by the
type: at a function type the result is a `λ`, at a pair type it is a `cons`, at the unit type it
is `sole`, whatever the value looks like, so that values that behave alike are read back alike.

As for evaluation, one step is described relative to a machine and a reader, and the fuel says how
many steps there are.
-/

namespace LittleTypes

/-- What can be read back. -/
inductive Reading
  /-- A value at its type. -/
  | value (type v : Value)
  /-- A value that is a type. -/
  | type (v : Value)
  /-- An elimination that cannot go on. -/
  | neutral (n : Neutral)

/-- Something that reads back in a context. -/
abbrev Reader := Context → Reading → Except Fault Term

namespace Reader

variable (m : Machine) (read : Reader) (Γ : Context)

/-- The normal form of a value at its type. -/
def typed : Typed → Except Fault Term
  | .mk type v => read Γ (.value type v)

/-- The type of a typed value as a normal form. -/
def typeOfTyped : Typed → Except Fault Term
  | .mk type _ => read Γ (.type type)

/-- The normal form of a typed value that is itself a type. -/
def typedType : Typed → Except Fault Term
  | .mk _ v => read Γ (.type v)

/-- The normal form of an elimination is the elimination of normal forms. -/
def neutralStep : Neutral → Except Fault Term
  | .var x => pure (.var x)
  | .hole l type => do pure (.hole l (← read Γ (.type type)))
  | .app f a => do
    let f' ← read Γ (.neutral f)
    pure (.app f' (← read.typed Γ a))
  | .project k t => do pure (.project k (← read Γ (.neutral t)))
  | .recursor k t base step => do
    let t' ← read Γ (.neutral t)
    let baseType ← read.typeOfTyped Γ base
    let base' ← read.typed Γ base
    pure (.recursor k t' baseType base' (← read.typed Γ step))
  | .induct k t motive base step => do
    let t' ← read Γ (.neutral t)
    let motive' ← read.typed Γ motive
    let base' ← read.typed Γ base
    pure (.induct k t' motive' base' (← read.typed Γ step))
  | .transport k t motive base => do
    let t' ← read Γ (.neutral t)
    let motive' ← read.typed Γ motive
    pure (.transport k t' motive' (← read.typed Γ base))
  | .indAbsurd t motive => do
    let t' ← read Γ (.neutral t)
    pure (.indAbsurd (.the (.const .absurd) t') (← read.typedType Γ motive))
  | .transLeft l r => do
    let l' ← read Γ (.neutral l)
    pure (.trans l' (← read.typed Γ r))
  | .transRight l r => do
    let l' ← read.typed Γ l
    pure (.trans l' (← read Γ (.neutral r)))
  | .transBoth l r => do
    let l' ← read Γ (.neutral l)
    pure (.trans l' (← read Γ (.neutral r)))
  | .cong t cod f => do
    let t' ← read Γ (.neutral t)
    let cod' ← read Γ (.type cod)
    pure (.cong t' cod' (← read.typed Γ f))
  | .indVec len t motive base step => do
    let len' ← read.typed Γ len
    let t' ← read Γ (.neutral t)
    let motive' ← read.typed Γ motive
    let base' ← read.typed Γ base
    pure (.indVec len' t' motive' base' (← read.typed Γ step))
  | .indVecBoth len t motive base step => do
    let len' ← read Γ (.neutral len)
    let t' ← read Γ (.neutral t)
    let motive' ← read.typed Γ motive
    let base' ← read.typed Γ base
    pure (.indVec len' t' motive' base' (← read.typed Γ step))

/-- The normal form of a type. -/
def typeStep (v : Value) : Except Fault Term := do
  match ← v.force with
  | .const .univ => pure (.const .univ)
  | .const .nat => pure (.const .nat)
  | .const .atom => pure (.const .atom)
  | .const .trivial => pure (.const .trivial)
  | .const .absurd => pure (.const .absurd)
  | .pi x dom cod => do
    let y := Γ.fresh x
    let dom' ← read Γ (.type dom)
    let Δ ← Γ.bindFree y dom
    pure (.pi y dom' (← read Δ (.type (← m.enter .passing cod (.ofVar y dom)))))
  | .sigma x fst snd => do
    let y := Γ.fresh x
    let fst' ← read Γ (.type fst)
    let Δ ← Γ.bindFree y fst
    pure (.sigma y fst' (← read Δ (.type (← m.enter .passing snd (.ofVar y fst)))))
  | .equal t l r => do
    let t' ← read Γ (.type t)
    let l' ← read Γ (.value t l)
    pure (.equal t' l' (← read Γ (.value t r)))
  | .unary .list elem => do pure (.unary .list (← read Γ (.type elem)))
  | .binary .vec elem len => do
    let elem' ← read Γ (.type elem)
    pure (.binary .vec elem' (← read Γ (.value (.const .nat) len)))
  | .binary .either l r => do
    let l' ← read Γ (.type l)
    pure (.binary .either l' (← read Γ (.type r)))
  | .neu _ n => read Γ (.neutral n)
  | w => throw (.notType w.shape)

/-- The normal form of a value at a type that says nothing about its values, as all types do for a
neutral. -/
def neutralAt (type v : Value) : Except Fault Term :=
  match v with
  | .neu _ n => read Γ (.neutral n)
  | v => throw (.unreadable v.shape type.shape)

/-- The normal form of a value at its type. -/
def valueStep (type v : Value) : Except Fault Term := do
  let type ← type.force
  let v ← v.force
  match type, v with
  | .const .univ, v => read Γ (.type v)
  | .const .nat, .const .zero => pure (.const .zero)
  | .const .nat, .unary .add1 n => do pure (.unary .add1 (← read Γ (.value (.const .nat) n)))
  | .const .atom, .quote s => pure (.quote s)
  | .const .trivial, _ => pure (.const .sole)
  | .const .absurd, .neu _ n => do pure (.the (.const .absurd) (← read Γ (.neutral n)))
  | .pi x dom cod, v => do
    let y := Γ.fresh (match v with | .lam z _ => z | _ => x)
    let Δ ← Γ.bindFree y dom
    let cod' ← m.enter .passing cod (.ofVar y dom)
    let body ← m.apply .passing v (.ofVar y dom)
    pure (.lam y (← read Δ (.value cod' body)))
  | .sigma _ fst snd, v => do
    let a ← m.doProject .passing .car v
    let a' ← read Γ (.value fst a)
    let snd' ← m.enter .passing snd a
    let d ← m.doProject .passing .cdr v
    pure (.binary .cons a' (← read Γ (.value snd' d)))
  | .equal t _ _, .unary .same a => do pure (.unary .same (← read Γ (.value t a)))
  | .unary .list _, .const .nil => pure (.const .nil)
  | .unary .list elem, .binary .listCons e es => do
    let e' ← read Γ (.value elem e)
    pure (.binary .listCons e' (← read Γ (.value (.unary .list elem) es)))
  | .binary .vec _ _, .const .vecnil => pure (.const .vecnil)
  | .binary .vec elem len, .binary .vecCons h t => do
    match ← len.force with
    | .unary .add1 k => do
      let h' ← read Γ (.value elem h)
      pure (.binary .vecCons h' (← read Γ (.value (.binary .vec elem k) t)))
    | _ => throw (.unreadable v.shape type.shape)
  | .binary .either l _, .unary .left a => do pure (.unary .left (← read Γ (.value l a)))
  | .binary .either _ r, .unary .right a => do pure (.unary .right (← read Γ (.value r a)))
  | type, v => read.neutralAt Γ type v

/-- Reads back by a machine and a reader for what stands below. -/
def step : Reading → Except Fault Term
  | .value type v => read.valueStep m Γ type v
  | .type v => read.typeStep m Γ v
  | .neutral n => read.neutralStep Γ n

end Reader

/-- The reader with a given amount of fuel. -/
def reader : (fuel : Nat) → Reader
  | 0 => fun _ _ ↦ throw (.eval ⟨.outOfFuel, []⟩)
  | fuel + 1 => fun Γ ↦ (reader fuel).step (machine fuel) Γ

@[simp] theorem reader_zero (Γ : Context) (r : Reading) :
    reader 0 Γ r = throw (.eval ⟨.outOfFuel, []⟩) := rfl

@[simp] theorem reader_succ (fuel : Nat) (Γ : Context) (r : Reading) :
    reader (fuel + 1) Γ r = (reader fuel).step (machine fuel) Γ r := rfl

namespace Context

variable (fuel : Nat) (Γ : Context)

/-- The value of a term in a context, made at a place. -/
def evalAt (p : Place) (t : Term) : Except EvalFault Value := (machine fuel).eval p Γ.env t

/-- The value of a term in a context. -/
def eval (t : Term) : Except EvalFault Value := Γ.evalAt fuel .passing t

/-- The normal form of a value at its type. -/
def readBack (type v : Value) : Except Fault Term := reader fuel Γ (.value type v)

/-- The normal form of a value that is a type. -/
def readBackType (v : Value) : Except Fault Term := reader fuel Γ (.type v)

/-- The normal form of an elimination that cannot go on. -/
def readBackNeutral (n : Neutral) : Except Fault Term := reader fuel Γ (.neutral n)

end Context

end LittleTypes
