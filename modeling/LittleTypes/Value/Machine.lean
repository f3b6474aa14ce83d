import LittleTypes.Value.Basic

/-!
# Evaluation

Evaluation need not end, so it is given by the fuel it may use.  One step of it is described
first, relative to a machine that answers the demands that the step makes; the machine with fuel
`n + 1` is one step over the machine with fuel `n`.  The rules of the eliminators are therefore
ordinary definitions without recursion.

The order of the demands is fixed: of several faults in a term, the one that evaluation meets
first is the one that is reported.

Every demand is made at a place.  The demands and the delayed values of one step have places of
their own, so that no two kept values have the same address.
-/

namespace LittleTypes

/-! ## Values by themselves -/

namespace Value

/-- The fault of an operation at a value. -/
def stuck {α : Type} (op : Operation) (v : Value) : Except EvalFault α :=
  throw ⟨.stuck op v.shape, []⟩

/-- The element type of a list type. -/
def listElement (type : Value) : Except EvalFault Value := do
  match ← type.force with
  | .unary .list elem => pure elem
  | _ => stuck .ofList type

/-- The type and the two sides of an equality type. -/
def equalParts (type : Value) : Except EvalFault (Value × Value × Value) := do
  match ← type.force with
  | .equal t lhs rhs => pure (t, lhs, rhs)
  | _ => stuck .ofEquality type

/-- The element type and the length of a vector type. -/
def vecParts (type : Value) : Except EvalFault (Value × Value) := do
  match ← type.force with
  | .binary .vec elem len => pure (elem, len)
  | _ => stuck .ofVector type

/-- From an element of the empty type, anything. -/
def indAbsurd (target motive : Value) : Except EvalFault Value := do
  match ← target.force with
  | .neu _ n => pure (.neu motive (.indAbsurd n (.mk (.const .univ) motive)))
  | _ => stuck .indAbsurd target

/-- Transitivity of equality. -/
def trans (left right : Value) : Except EvalFault Value := do
  let l ← left.force
  let r ← right.force
  match l, r with
  | .unary .same a, .unary .same _ => pure (.unary .same a)
  | .unary .same a, .neu type n => do
    let (t, _, rhs) ← type.equalParts
    pure (.neu (.equal t a rhs) (.transRight (.mk (.equal t a a) (.unary .same a)) n))
  | .neu type n, r => do
    let (t, lhs, _) ← type.equalParts
    match r with
    | .unary .same b =>
      pure (.neu (.equal t lhs b) (.transLeft n (.mk (.equal t b b) (.unary .same b))))
    | .neu type' n' => do
      let (_, _, rhs) ← type'.equalParts
      pure (.neu (.equal t lhs rhs) (.transBoth n n'))
    | _ => stuck .trans l
  | l, _ => stuck .trans l

end Value

/-! ## Machines -/

/-- What evaluation can be asked for. -/
inductive Demand
  /-- The value of a term in an environment. -/
  | eval (ρ : Env) (t : Term)
  /-- The value of a function at an argument. -/
  | apply (f a : Value)
  /-- The value of an eliminator at a target, for the eliminators that call themselves. -/
  | recursor (k : Recursor) (target baseType base step : Value)
  | induct (k : Induction) (target motive base step : Value)
  | indVec (len target motive base step : Value)

/-- Something that answers demands. -/
abbrev Machine := Place → Demand → Except EvalFault Value

namespace Machine

variable (m : Machine) (p : Place)

/-- The value of a term in an environment. -/
def eval (ρ : Env) (t : Term) : Except EvalFault Value := m p (.eval ρ t)

/-- The value of a function at an argument. -/
def apply (f a : Value) : Except EvalFault Value := m p (.apply f a)

/-- The value of a function at two arguments. -/
def apply₂ (f a b : Value) : Except EvalFault Value := do
  m.apply (p.part 1) (← m.apply (p.part 0) f a) b

/-- What answers a demand once somebody looks at it. -/
def later (d : Demand) : Value := .delay p fun _ ↦ m p d

/-- The value of a closure at its argument. -/
def enter (c : Closure) (a : Value) : Except EvalFault Value :=
  match c with
  | .body ρ x t => m.eval p (.cons x a ρ) t
  | .constant v => pure v
  | .natStep motive => do
    let ih ← m.apply (p.part 0) motive a
    let goal ← m.apply (p.part 1) motive (.unary .add1 a)
    pure (.arrow "ih" ih goal)
  | .listStep elem motive => pure (.pi "es" (.unary .list elem) (.listStepTail motive a))
  | .listStepTail motive e => do
    let ih ← m.apply (p.part 0) motive a
    let goal ← m.apply (p.part 1) motive (.binary .listCons e a)
    pure (.arrow "ih" ih goal)
  | .equalMotive type lhs => pure (.arrow "p" (.equal type lhs a) (.const .univ))
  | .vecMotive elem => pure (.arrow "es" (.binary .vec elem a) (.const .univ))
  | .vecStep elem motive => pure (.pi "h" elem (.vecStepHead elem motive a))
  | .vecStepHead elem motive k => pure (.pi "t" (.binary .vec elem k) (.vecStepTail motive k a))
  | .vecStepTail motive k h => do
    let ih ← m.apply₂ (p.part 0) motive k a
    let goal ← m.apply₂ (p.part 1) motive (.unary .add1 k) (.binary .vecCons h a)
    pure (.arrow "ih" ih goal)
  | .eitherCase side motive => m.apply p motive (.unary side a)

/-! ## Eliminators -/

/-- A function at an argument. -/
def doApply (f a : Value) : Except EvalFault Value := do
  match ← f.force with
  | .lam _ body => m.enter p body a
  | .neu type n =>
    match ← type.force with
    | .pi _ dom cod => do pure (.neu (← m.enter p cod a) (.app n (.mk dom a)))
    | _ => Value.stuck .application type
  | v => Value.stuck .application v

/-- The eliminators that take only their target. -/
def doProject (k : Projection) (target : Value) : Except EvalFault Value := do
  match k, ← target.force with
  | .car, .binary .cons a _ => a.force
  | .car, .neu type n =>
    match ← type.force with
    | .sigma _ fst _ => pure (.neu fst (.project .car n))
    | _ => Value.stuck (.project .car) type
  | .cdr, .binary .cons _ d => d.force
  | .cdr, .neu type n =>
    match ← type.force with
    | .sigma _ fst snd => do
      pure (.neu (← m.enter p snd (.neu fst (.project .car n))) (.project .cdr n))
    | _ => Value.stuck (.project .cdr) type
  | .symm, .unary .same a => pure (.unary .same a)
  | .symm, .neu type n => do
    let (t, lhs, rhs) ← type.equalParts
    pure (.neu (.equal t rhs lhs) (.project .symm n))
  | .head, .binary .vecCons h _ => h.force
  | .head, .neu type n => do
    let (elem, _) ← type.vecParts
    pure (.neu elem (.project .head n))
  | .tail, .binary .vecCons _ t => t.force
  | .tail, .neu type n => do
    let (elem, len) ← type.vecParts
    match ← len.force with
    | .unary .add1 k => pure (.neu (.binary .vec elem k) (.project .tail n))
    | _ => Value.stuck (.project .tail) len
  | k, v => Value.stuck (.project k) v

/-- The eliminators whose result type is the type of their base. -/
def doRecursor (k : Recursor) (target baseType base step : Value) : Except EvalFault Value := do
  let waiting (n : Neutral) (stepType : Value) : Value :=
    .neu baseType (.recursor k n (.mk baseType base) (.mk stepType step))
  let again (target : Value) : Value :=
    m.later (p.part 0) (.recursor k target baseType base step)
  match k, ← target.force with
  | .whichNat, .const .zero | .iterNat, .const .zero | .recNat, .const .zero
  | .recList, .const .nil => base.force
  | .whichNat, .unary .add1 n => m.apply p step n
  | .iterNat, .unary .add1 n => m.apply (p.part 1) step (again n)
  | .recNat, .unary .add1 n => m.apply₂ (p.part 1) step n (again n)
  | .recList, .binary .listCons e es => do
    m.apply (p.part 2) (← m.apply₂ (p.part 1) step e es) (again es)
  | .whichNat, .neu _ n => pure (waiting n (.whichNatStep baseType))
  | .iterNat, .neu _ n => pure (waiting n (.iterNatStep baseType))
  | .recNat, .neu _ n => pure (waiting n (.recNatStep baseType))
  | .recList, .neu type n => do
    let elem ← type.listElement
    pure (waiting n (.recListStep elem baseType))
  | k, v => Value.stuck (.recursor k) v

/-- The eliminators with a motive over their target and two cases. -/
def doInduct (k : Induction) (target motive base step : Value) : Except EvalFault Value := do
  let again (target : Value) : Value := m.later (p.part 0) (.induct k target motive base step)
  match k, ← target.force with
  | .indNat, .const .zero | .indList, .const .nil => base.force
  | .indNat, .unary .add1 n => m.apply₂ (p.part 1) step n (again n)
  | .indList, .binary .listCons e es => do
    m.apply (p.part 2) (← m.apply₂ (p.part 1) step e es) (again es)
  | .indEither, .unary .left a => m.apply p base a
  | .indEither, .unary .right a => m.apply p step a
  | .indNat, .neu type n => do
    let result ← m.apply (p.part 0) motive (.neu type n)
    let baseType ← m.apply (p.part 1) motive (.const .zero)
    pure (.neu result (.induct .indNat n (.mk .indNatMotive motive) (.mk baseType base)
      (.mk (.indNatStep motive) step)))
  | .indList, .neu type n => do
    let elem ← type.listElement
    let result ← m.apply (p.part 0) motive (.neu type n)
    let baseType ← m.apply (p.part 1) motive (.const .nil)
    pure (.neu result (.induct .indList n (.mk (.indListMotive elem) motive) (.mk baseType base)
      (.mk (.indListStep elem motive) step)))
  | .indEither, .neu type n =>
    match ← type.force with
    | .binary .either left right => do
      let result ← m.apply p motive (.neu type n)
      pure (.neu result (.induct .indEither n (.mk (.indEitherMotive left right) motive)
        (.mk (.indEitherCase .left left motive) base)
        (.mk (.indEitherCase .right right motive) step)))
    | _ => Value.stuck (.induct .indEither) type
  | k, v => Value.stuck (.induct k) v

/-- The eliminators of equality with a motive and a base. -/
def doTransport (k : Transport) (target motive base : Value) : Except EvalFault Value := do
  match k, ← target.force with
  | _, .unary .same _ => base.force
  | .replace, .neu type n => do
    let (t, lhs, rhs) ← type.equalParts
    let result ← m.apply (p.part 0) motive rhs
    let baseType ← m.apply (p.part 1) motive lhs
    pure (.neu result (.transport .replace n (.mk (.replaceMotive t) motive) (.mk baseType base)))
  | .indEqual, .neu type n => do
    let (t, lhs, rhs) ← type.equalParts
    let result ← m.apply₂ (p.part 0) motive rhs (.neu type n)
    let baseType ← m.apply₂ (p.part 1) motive lhs (.unary .same lhs)
    pure (.neu result (.transport .indEqual n (.mk (.indEqualMotive t lhs) motive)
      (.mk baseType base)))
  | k, v => Value.stuck (.transport k) v

/-- Functions take equals to equals. -/
def doCong (target cod f : Value) : Except EvalFault Value := do
  match ← target.force with
  | .unary .same a => do pure (.unary .same (← m.apply p f a))
  | .neu type n => do
    let (t, lhs, rhs) ← type.equalParts
    let lhs' ← m.apply (p.part 0) f lhs
    let rhs' ← m.apply (p.part 1) f rhs
    pure (.neu (.equal cod lhs' rhs') (.cong n cod (.mk (.arrow "x" t cod) f)))
  | v => Value.stuck .cong v

/-- Induction on a vector and its length. -/
def doIndVec (len target motive base step : Value) : Except EvalFault Value := do
  let l ← len.force
  match ← target.force with
  | .const .vecnil => base.force
  | .binary .vecCons h t =>
    match l with
    | .unary .add1 k => do
      m.apply₂ (p.part 2) (← m.apply₂ (p.part 1) step k h) t
        (m.later (p.part 0) (.indVec k t motive base step))
    | l => Value.stuck .indVec l
  | .neu type n => do
    let (elem, _) ← type.vecParts
    let baseType ← m.apply₂ (p.part 0) motive (.const .zero) (.const .vecnil)
    let result ← m.apply₂ (p.part 1) motive l (.neu type n)
    let motive' := Typed.mk (.indVecMotive elem) motive
    let base' := Typed.mk baseType base
    let step' := Typed.mk (.indVecStep elem motive) step
    match l with
    | .neu _ k => pure (.neu result (.indVecBoth k n motive' base' step'))
    | l => pure (.neu result (.indVec (.mk (.const .nat) l) n motive' base' step'))
  | v => Value.stuck .indVec v

/-! ## One step -/

/-- The value of a term, one constructor deep. -/
def evalStep (ρ : Env) (t : Term) : Except EvalFault Value :=
  let now (i : Nat) (t : Term) : Except EvalFault Value := m.eval (p.part i) ρ t
  let later (i : Nat) (t : Term) : Value := m.later (p.part i) (.eval ρ t)
  match t with
  | .missing => throw ⟨.noTerm, []⟩
  | .var x =>
    match ρ.lookup x with
    | some v => pure v
    | none => throw ⟨.unbound x, []⟩
  | .hole l t =>
    let type := later 0 t
    pure (.neu type (.hole l type))
  | .the _ e => now 0 e
  | .app f a => do m.apply (p.part 2) (← now 0 f) (later 1 a)
  | .numeral n => pure (.numeral n)
  | .quote s => pure (.quote s)
  | .lam x b => pure (.lam x (.body ρ x b))
  | .pi x a b => pure (.pi x (later 0 a) (.body ρ x b))
  | .sigma x a b => pure (.sigma x (later 0 a) (.body ρ x b))
  | .const k => pure (.const k)
  | .unary k a => pure (.unary k (later 0 a))
  | .binary k a b => pure (.binary k (later 0 a) (later 1 b))
  | .equal t l r => pure (.equal (later 0 t) (later 1 l) (later 2 r))
  | .project k t => do m.doProject (p.part 1) k (← now 0 t)
  | .recursor k t baseType b s => do
    m.doRecursor (p.part 4) k (← now 0 t) (later 1 baseType) (later 2 b) (later 3 s)
  | .induct k t mot b s => do
    m.doInduct (p.part 4) k (← now 0 t) (later 1 mot) (later 2 b) (later 3 s)
  | .transport k t mot b => do m.doTransport (p.part 3) k (← now 0 t) (later 1 mot) (later 2 b)
  | .indAbsurd t mot => do (← now 0 t).indAbsurd (later 1 mot)
  | .trans l r => do (← now 0 l).trans (← now 1 r)
  | .cong t c f => do m.doCong (p.part 3) (← now 0 t) (later 1 c) (later 2 f)
  | .indVec n t mot b s => do
    m.doIndVec (p.part 5) (← now 0 n) (← now 1 t) (later 2 mot) (later 3 b) (later 4 s)

/-- Answers a demand by demands to the machine. -/
def step : Machine
  | p, .eval ρ t => m.evalStep p ρ t
  | p, .apply f a => m.doApply p f a
  | p, .recursor k t baseType b s => m.doRecursor p k t baseType b s
  | p, .induct k t mot b s => m.doInduct p k t mot b s
  | p, .indVec n t mot b s => m.doIndVec p n t mot b s

end Machine

/-- The machine with a given amount of fuel. -/
def machine : (fuel : Nat) → Machine
  | 0 => fun _ _ ↦ throw ⟨.outOfFuel, []⟩
  | fuel + 1 => (machine fuel).step

/-- Fuel that outlasts any program of a reasonable size: it bounds how deeply steps are nested,
not how many there are. -/
def defaultFuel : Nat := 1000000000

@[simp] theorem machine_zero (p : Place) (d : Demand) :
    machine 0 p d = throw ⟨.outOfFuel, []⟩ := rfl

@[simp] theorem machine_succ (fuel : Nat) (p : Place) (d : Demand) :
    machine (fuel + 1) p d = (machine fuel).step p d := rfl

end LittleTypes
