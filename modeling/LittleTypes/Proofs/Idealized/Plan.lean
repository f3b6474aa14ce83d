import LittleTypes.Proofs.Idealized.Value

/-!
# Idealized evaluation

What evaluation does to answer a demand is a plan: it ends with an answer, or it asks for something
and goes on with what it gets, or it is stuck.  The plan of a demand makes the same demands in the
same order as one step of a machine.  A plan runs to an answer when everything it asks for has an
answer, however long that takes; so there is no fuel here, and what a plan runs to is unique.

Only plans that run to an answer matter in what follows, so it is not said why one is stuck.
-/

namespace LittleTypes.Idealized

/-- How to get at an answer. -/
inductive Plan (α : Type)
  | done (a : α)
  | ask (d : Demand) (next : Value → Plan α)
  | stuck

namespace Plan

variable {α β : Type}

/-- Goes on with the answer. -/
def bind : Plan α → (α → Plan β) → Plan β
  | done a, f => f a
  | ask d next, f => ask d fun v ↦ (next v).bind f
  | stuck, _ => stuck

instance : Monad Plan where
  pure := done
  bind := bind

@[simp] theorem pure_eq (a : α) : (pure a : Plan α) = done a := rfl

@[simp] theorem done_bind (a : α) (f : α → Plan β) : (done a >>= f) = f a := rfl

@[simp] theorem ask_bind (d : Demand) (next : Value → Plan α) (f : α → Plan β) :
    (ask d next >>= f) = ask d fun v ↦ next v >>= f := rfl

@[simp] theorem stuck_bind (f : α → Plan β) : ((stuck : Plan α) >>= f) = stuck := rfl

end Plan

/-! ## Asking -/

/-- A value with its outermost constructor in sight. -/
def look (v : Value) : Plan Value := .ask (.look v) .done

/-- The value of a term in an environment. -/
def eval (ρ : Env) (t : Term) : Plan Value := .ask (.eval ρ t) .done

/-- The value of a function at an argument. -/
def apply (f a : Value) : Plan Value := .ask (.apply f a) .done

/-- The value of a function at two arguments. -/
def apply₂ (f a b : Value) : Plan Value := do apply (← apply f a) b

/-- The value of a closure at its argument. -/
def enter (c : Closure) (a : Value) : Plan Value :=
  match c with
  | .body ρ x t => eval (.cons x a ρ) t
  | .constant v => pure v
  | .natStep motive => do
    let ih ← apply motive a
    let goal ← apply motive (.unary .add1 a)
    pure (.arrow "ih" ih goal)
  | .listStep elem motive => pure (.pi "es" (.unary .list elem) (.listStepTail motive a))
  | .listStepTail motive e => do
    let ih ← apply motive a
    let goal ← apply motive (.binary .listCons e a)
    pure (.arrow "ih" ih goal)
  | .equalMotive type lhs => pure (.arrow "p" (.equal type lhs a) (.const .univ))
  | .vecMotive elem => pure (.arrow "es" (.binary .vec elem a) (.const .univ))
  | .vecStep elem motive => pure (.pi "h" elem (.vecStepHead elem motive a))
  | .vecStepHead elem motive k => pure (.pi "t" (.binary .vec elem k) (.vecStepTail motive k a))
  | .vecStepTail motive k h => do
    let ih ← apply₂ motive k a
    let goal ← apply₂ motive (.unary .add1 k) (.binary .vecCons h a)
    pure (.arrow "ih" ih goal)
  | .eitherCase side motive => apply motive (.unary side a)

/-- The element type of a list type. -/
def listElement (type : Value) : Plan Value := do
  match ← look type with
  | .unary .list elem => pure elem
  | _ => .stuck

/-- The type and the two sides of an equality type. -/
def equalParts (type : Value) : Plan (Value × Value × Value) := do
  match ← look type with
  | .equal t lhs rhs => pure (t, lhs, rhs)
  | _ => .stuck

/-- The element type and the length of a vector type. -/
def vecParts (type : Value) : Plan (Value × Value) := do
  match ← look type with
  | .binary .vec elem len => pure (elem, len)
  | _ => .stuck

/-! ## Eliminators -/

/-- A function at an argument. -/
def doApply (f a : Value) : Plan Value := do
  match ← look f with
  | .lam _ body => enter body a
  | .neu type n =>
    match ← look type with
    | .pi _ dom cod => do pure (.neu (← enter cod a) (.app n (.mk dom a)))
    | _ => .stuck
  | _ => .stuck

/-- The first component of a pair. -/
def doCar (target : Value) : Plan Value := do
  match ← look target with
  | .binary .cons a _ => look a
  | .neu type n =>
    match ← look type with
    | .sigma _ fst _ => pure (.neu fst (.project .car n))
    | _ => .stuck
  | _ => .stuck

/-- The second component of a pair. -/
def doCdr (target : Value) : Plan Value := do
  match ← look target with
  | .binary .cons _ d => look d
  | .neu type n =>
    match ← look type with
    | .sigma _ fst snd => do
      pure (.neu (← enter snd (.neu fst (.project .car n))) (.project .cdr n))
    | _ => .stuck
  | _ => .stuck

/-- Symmetry of equality. -/
def doSymm (target : Value) : Plan Value := do
  match ← look target with
  | .unary .same a => pure (.unary .same a)
  | .neu type n => do
    let (t, lhs, rhs) ← equalParts type
    pure (.neu (.equal t rhs lhs) (.project .symm n))
  | _ => .stuck

/-- The first element of a vector. -/
def doHead (target : Value) : Plan Value := do
  match ← look target with
  | .binary .vecCons h _ => look h
  | .neu type n => do
    let (elem, _) ← vecParts type
    pure (.neu elem (.project .head n))
  | _ => .stuck

/-- What follows the first element of a vector. -/
def doTail (target : Value) : Plan Value := do
  match ← look target with
  | .binary .vecCons _ t => look t
  | .neu type n => do
    let (elem, len) ← vecParts type
    match ← look len with
    | .unary .add1 k => pure (.neu (.binary .vec elem k) (.project .tail n))
    | _ => .stuck
  | _ => .stuck

/-- The eliminators that take only their target. -/
def doProject : Projection → Value → Plan Value
  | .car => doCar
  | .cdr => doCdr
  | .symm => doSymm
  | .head => doHead
  | .tail => doTail

/-- Recursion on numbers: what is made of a predecessor, and the type of the step. -/
def doNatRecursor (k : Recursor) (target baseType base step : Value) (succ : Value → Plan Value)
    (stepType : Value) : Plan Value := do
  match ← look target with
  | .const .zero => look base
  | .unary .add1 n => succ n
  | .neu _ n => pure (.neu baseType (.recursor k n (.mk baseType base) (.mk stepType step)))
  | _ => .stuck

/-- Recursion on lists. -/
def doRecList (target baseType base step : Value) : Plan Value := do
  match ← look target with
  | .const .nil => look base
  | .binary .listCons e es => do
    apply (← apply₂ step e es) (.later (.recursor .recList es baseType base step))
  | .neu type n => do
    let elem ← listElement type
    pure (.neu baseType
      (.recursor .recList n (.mk baseType base) (.mk (.recListStep elem baseType) step)))
  | _ => .stuck

/-- The eliminators whose result type is the type of their base. -/
def doRecursor (k : Recursor) (target baseType base step : Value) : Plan Value :=
  match k with
  | .whichNat =>
    doNatRecursor .whichNat target baseType base step (fun n ↦ apply step n)
      (.whichNatStep baseType)
  | .iterNat =>
    doNatRecursor .iterNat target baseType base step
      (fun n ↦ apply step (.later (.recursor .iterNat n baseType base step)))
      (.iterNatStep baseType)
  | .recNat =>
    doNatRecursor .recNat target baseType base step
      (fun n ↦ apply₂ step n (.later (.recursor .recNat n baseType base step)))
      (.recNatStep baseType)
  | .recList => doRecList target baseType base step

/-- Induction on numbers. -/
def doIndNat (target motive base step : Value) : Plan Value := do
  match ← look target with
  | .const .zero => look base
  | .unary .add1 n => apply₂ step n (.later (.induct .indNat n motive base step))
  | .neu type n => do
    let result ← apply motive (.neu type n)
    let baseType ← apply motive (.const .zero)
    pure (.neu result (.induct .indNat n (.mk .indNatMotive motive) (.mk baseType base)
      (.mk (.indNatStep motive) step)))
  | _ => .stuck

/-- Induction on lists. -/
def doIndList (target motive base step : Value) : Plan Value := do
  match ← look target with
  | .const .nil => look base
  | .binary .listCons e es => do
    apply (← apply₂ step e es) (.later (.induct .indList es motive base step))
  | .neu type n => do
    let elem ← listElement type
    let result ← apply motive (.neu type n)
    let baseType ← apply motive (.const .nil)
    pure (.neu result (.induct .indList n (.mk (.indListMotive elem) motive) (.mk baseType base)
      (.mk (.indListStep elem motive) step)))
  | _ => .stuck

/-- Case distinction on a sum. -/
def doIndEither (target motive base step : Value) : Plan Value := do
  match ← look target with
  | .unary .left a => apply base a
  | .unary .right a => apply step a
  | .neu type n =>
    match ← look type with
    | .binary .either left right => do
      let result ← apply motive (.neu type n)
      pure (.neu result (.induct .indEither n (.mk (.indEitherMotive left right) motive)
        (.mk (.indEitherCase .left left motive) base)
        (.mk (.indEitherCase .right right motive) step)))
    | _ => .stuck
  | _ => .stuck

/-- The eliminators with a motive over their target and two cases. -/
def doInduct : Induction → Value → Value → Value → Value → Plan Value
  | .indNat => doIndNat
  | .indList => doIndList
  | .indEither => doIndEither

/-- Equals may be replaced by equals. -/
def doReplace (target motive base : Value) : Plan Value := do
  match ← look target with
  | .unary .same _ => look base
  | .neu type n => do
    let (t, lhs, rhs) ← equalParts type
    let result ← apply motive rhs
    let baseType ← apply motive lhs
    pure (.neu result (.transport .replace n (.mk (.replaceMotive t) motive) (.mk baseType base)))
  | _ => .stuck

/-- Induction on an equality. -/
def doIndEqual (target motive base : Value) : Plan Value := do
  match ← look target with
  | .unary .same _ => look base
  | .neu type n => do
    let (t, lhs, rhs) ← equalParts type
    let result ← apply₂ motive rhs (.neu type n)
    let baseType ← apply₂ motive lhs (.unary .same lhs)
    pure (.neu result (.transport .indEqual n (.mk (.indEqualMotive t lhs) motive)
      (.mk baseType base)))
  | _ => .stuck

/-- The eliminators of equality with a motive and a base. -/
def doTransport : Transport → Value → Value → Value → Plan Value
  | .replace => doReplace
  | .indEqual => doIndEqual

/-- From an element of the empty type, anything. -/
def doIndAbsurd (target motive : Value) : Plan Value := do
  match ← look target with
  | .neu _ n => pure (.neu motive (.indAbsurd n (.mk (.const .univ) motive)))
  | _ => .stuck

/-- Transitivity of equality. -/
def doTrans (left right : Value) : Plan Value := do
  let l ← look left
  let r ← look right
  match l, r with
  | .unary .same a, .unary .same _ => pure (.unary .same a)
  | .unary .same a, .neu type n => do
    let (t, _, rhs) ← equalParts type
    pure (.neu (.equal t a rhs) (.transRight (.mk (.equal t a a) (.unary .same a)) n))
  | .neu type n, .unary .same b => do
    let (t, lhs, _) ← equalParts type
    pure (.neu (.equal t lhs b) (.transLeft n (.mk (.equal t b b) (.unary .same b))))
  | .neu type n, .neu type' n' => do
    let (t, lhs, _) ← equalParts type
    let (_, _, rhs) ← equalParts type'
    pure (.neu (.equal t lhs rhs) (.transBoth n n'))
  | _, _ => .stuck

/-- Functions take equals to equals. -/
def doCong (target cod f : Value) : Plan Value := do
  match ← look target with
  | .unary .same a => do pure (.unary .same (← apply f a))
  | .neu type n => do
    let (t, lhs, rhs) ← equalParts type
    let lhs' ← apply f lhs
    let rhs' ← apply f rhs
    pure (.neu (.equal cod lhs' rhs') (.cong n cod (.mk (.arrow "x" t cod) f)))
  | _ => .stuck

/-- The elimination of an unknown vector, whose length is known or not. -/
def waitingVec (l result : Value) (n : Neutral) (motive base step : Typed) : Value :=
  match l with
  | .neu _ k => .neu result (.indVecBoth k n motive base step)
  | l => .neu result (.indVec (.mk (.const .nat) l) n motive base step)

/-- Induction on a vector and its length. -/
def doIndVec (len target motive base step : Value) : Plan Value := do
  let l ← look len
  match ← look target with
  | .const .vecnil => look base
  | .binary .vecCons h t =>
    match l with
    | .unary .add1 k => do
      apply₂ (← apply₂ step k h) t (.later (.indVec k t motive base step))
    | _ => .stuck
  | .neu type n => do
    let (elem, _) ← vecParts type
    let baseType ← apply₂ motive (.const .zero) (.const .vecnil)
    let result ← apply₂ motive l (.neu type n)
    pure (waitingVec l result n (.mk (.indVecMotive elem) motive) (.mk baseType base)
      (.mk (.indVecStep elem motive) step))
  | _ => .stuck

/-! ## Demands -/

/-- The value of a term, one constructor deep. -/
def evalPlan (ρ : Env) (t : Term) : Plan Value :=
  let later (t : Term) : Value := .later (.eval ρ t)
  match t with
  | .missing => .stuck
  | .var x =>
    match ρ.lookup x with
    | some v => pure v
    | none => .stuck
  | .hole l t => pure (.neu (later t) (.hole l (later t)))
  | .the _ e => eval ρ e
  | .app f a => do apply (← eval ρ f) (later a)
  | .numeral n => pure (.numeral n)
  | .quote s => pure (.quote s)
  | .lam x b => pure (.lam x (.body ρ x b))
  | .pi x a b => pure (.pi x (later a) (.body ρ x b))
  | .sigma x a b => pure (.sigma x (later a) (.body ρ x b))
  | .const k => pure (.const k)
  | .unary k a => pure (.unary k (later a))
  | .binary k a b => pure (.binary k (later a) (later b))
  | .equal t l r => pure (.equal (later t) (later l) (later r))
  | .project k t => do doProject k (← eval ρ t)
  | .recursor k t baseType b s => do doRecursor k (← eval ρ t) (later baseType) (later b) (later s)
  | .induct k t mot b s => do doInduct k (← eval ρ t) (later mot) (later b) (later s)
  | .transport k t mot b => do doTransport k (← eval ρ t) (later mot) (later b)
  | .indAbsurd t mot => do doIndAbsurd (← eval ρ t) (later mot)
  | .trans l r => do doTrans (← eval ρ l) (← eval ρ r)
  | .cong t c f => do doCong (← eval ρ t) (later c) (later f)
  | .indVec n t mot b s => do
    doIndVec (← eval ρ n) (← eval ρ t) (later mot) (later b) (later s)

/-- What is done to answer a demand. -/
def plan : Demand → Plan Value
  | .look (.later d) => .ask d look
  | .look v => pure v
  | .eval ρ t => evalPlan ρ t
  | .apply f a => doApply f a
  | .recursor k t baseType b s => doRecursor k t baseType b s
  | .induct k t mot b s => doInduct k t mot b s
  | .indVec n t mot b s => doIndVec n t mot b s

/-! ## Running plans -/

/-- A plan runs to an answer when what it asks for has answers. -/
inductive Runs : {α : Type} → Plan α → α → Prop
  | done {α : Type} (a : α) : Runs (.done a) a
  | ask {α : Type} {d : Demand} {next : Value → Plan α} {v : Value} {a : α} :
    Runs (plan d) v → Runs (next v) a → Runs (.ask d next) a

namespace Runs

variable {α β : Type}

/-- A plan runs to one answer at most. -/
theorem unique {p : Plan α} {a a' : α} (h : Runs p a) (h' : Runs p a') : a = a' := by
  induction h with
  | done a => cases h'; rfl
  | ask _ _ ih ihNext =>
    cases h' with
    | ask hd hNext =>
      cases ih hd
      exact ihNext hNext

theorem bind {p : Plan α} {f : α → Plan β} {a : α} {b : β} (h : Runs p a) (h' : Runs (f a) b) :
    Runs (p >>= f) b := by
  induction h with
  | done a => exact h'
  | ask hd _ _ ihNext => exact .ask hd (ihNext h')

/-- Two plans in a row run to an answer exactly if the first has an answer from which the second
gets there. -/
theorem bind_iff {p : Plan α} {f : α → Plan β} {b : β} :
    Runs (p >>= f) b ↔ ∃ a, Runs p a ∧ Runs (f a) b := by
  constructor
  · intro h
    induction p with
    | done a => exact ⟨a, .done a, h⟩
    | ask d next ih =>
      cases h with
      | ask hd hNext =>
        obtain ⟨a, ha, hb⟩ := ih _ hNext
        exact ⟨a, .ask hd ha, hb⟩
    | stuck => cases h
  · rintro ⟨a, ha, hb⟩
    exact ha.bind hb

@[simp] theorem done_iff {a b : α} : Runs (.done a) b ↔ a = b := by
  constructor
  · intro h
    cases h
    rfl
  · rintro rfl
    exact .done a

@[simp] theorem not_stuck {a : α} : ¬Runs .stuck a := by
  intro h
  cases h

theorem ask_done_iff {d : Demand} {v : Value} : Runs (.ask d .done) v ↔ Runs (plan d) v := by
  constructor
  · intro h
    cases h with
    | ask hd hNext =>
      cases hNext
      exact hd
  · intro h
    exact .ask h (.done v)

theorem eval_iff {ρ : Env} {t : Term} {v : Value} : Runs (eval ρ t) v ↔ Runs (evalPlan ρ t) v :=
  ask_done_iff

theorem apply_iff {f a v : Value} : Runs (apply f a) v ↔ Runs (doApply f a) v := ask_done_iff

end Runs

open Classical in
/-- What a plan runs to, if it runs to anything. -/
noncomputable def Plan.result (p : Plan Value) : Value :=
  if h : ∃ v, Runs p v then h.choose else .const .univ

theorem Runs.result_eq {p : Plan Value} {v : Value} (h : Runs p v) : p.result = v := by
  have hp : ∃ v, Runs p v := ⟨v, h⟩
  simp only [Plan.result, hp, dite_true]
  exact hp.choose_spec.unique h

end LittleTypes.Idealized
