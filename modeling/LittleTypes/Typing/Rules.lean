import LittleTypes.Typing.Scope

/-!
# Checking rules

An elaborator is what can be done with a source term in any scope: find its type, check it against
a type, or check that it is a type.  Each rule makes the elaborator of a form from the elaborators
of its parts, so the rules do not depend on each other, and whatever they keep is kept by all of
elaboration.

Three kinds of forms are told apart.  Introductions are checked against a type; the type of
eliminations, and of some introductions, is found; and type formers are types, which belong to the
universe if their parts do.
-/

namespace LittleTypes

/-- What can be done with a source term. -/
structure Elaborator where
  /-- Where the term stands. -/
  loc : Location
  /-- Finds the type of the term. -/
  synth : Scope → Checked Judgment
  /-- Checks the term against a type. -/
  check : Scope → Value → Checked Term
  /-- Checks that the term is a type. -/
  isType : Scope → Checked Term

namespace Elaborator

variable (fuel : Nat)

/-- A term without a type of its own. -/
def cannotSynth {α : Type} (loc : Location) : Checked α :=
  .stop .cannotSynth loc
    ["Can't determine a type for this expression; try adding a type annotation with the"]

/-- To check a term whose type can be found is to compare the types. -/
def checkSynth (loc : Location) (synth : Scope → Checked Judgment) (s : Scope) (type : Value) :
    Checked Term := do
  let j ← synth s
  s.sameType fuel loc (← s.eval fuel j.type) type
  pure j.term

/-- The elaborator of a form that can only be checked.  As a type it is checked against the
universe. -/
def ofCheck (loc : Location) (check : Scope → Value → Checked Term) : Elaborator where
  loc := loc
  synth _ := cannotSynth loc
  check := check
  isType s := check s (.const .univ)

/-- The elaborator of a form whose type can be found. -/
def ofSynth (loc : Location) (synth : Scope → Checked Judgment) : Elaborator where
  loc := loc
  synth := synth
  check := checkSynth fuel loc synth
  isType s := checkSynth fuel loc synth s (.const .univ)

/-- The elaborator of a type former.  It is told whether the type has to belong to the universe.
-/
def ofFormer (loc : Location) (former : (inU : Bool) → Scope → Checked Term) : Elaborator :=
  let synth s := do pure ⟨.const .univ, ← former true s⟩
  { loc := loc
    synth := synth
    check := checkSynth fuel loc synth
    isType := former false }

/-- The elaborator of a term that is not there. -/
def missing : Elaborator := ofSynth fuel {} fun _ ↦ cannotSynth {}

/-- A component of a type, which has to belong to the universe if the type has to. -/
def component (e : Elaborator) (inU : Bool) (s : Scope) : Checked Term :=
  if inU then e.check s (.const .univ) else e.isType s

end Elaborator

namespace Rule

open Elaborator

variable (fuel : Nat)

/-! ## Variables, annotations and unfinished expressions -/

/-- A variable has the type that the context gives to the name chosen for it. -/
def var (loc : Location) (x : String) : Elaborator :=
  ofSynth fuel loc fun s ↦
    if s.names.captures x then .stop .scope loc ["Unknown variable", x]
    else do
      let y := s.names.rename x
      match s.context.typeOf? y with
      | some type => s.judge fuel type (.var y)
      | none =>
        let stop : Stop := { code := .scope, loc, message := ["Unknown variable", y] }
        .note .debug "checking stopped" [("at", loc.render), ("error", stop.located)]
        .fail (.stop stop)

/-- An annotated expression has the type it is annotated with. -/
def the (loc : Location) (type e : Elaborator) : Elaborator :=
  ofSynth fuel loc fun s ↦ do
    let t ← s.eval fuel (← type.isType s)
    let e' ← e.check s t
    s.judge fuel t e'

/-- An unfinished expression has whatever type it is checked against. -/
def hole (loc : Location) : Elaborator :=
  ofCheck loc fun s type ↦ do
    let t ← s.readBackType fuel type
    .note .info "unfinished expression" [("at", loc.render), ("type", t)]
    pure (.hole loc t)

/-! ## Functions -/

/-- The binders of a function, one function type each. -/
def lambdaFrom (body : Elaborator) : List Site → Scope → Value → Checked Term
  | [], s, type => body.check s type
  | site :: params, s, type => do
    Scope.checkName site
    let (_, dom, cod) ← s.expectPi fuel site.loc type
    let x := s.context.fresh site.name
    let s' ← s.bind site.name x dom
    let type' ← Scope.enter fuel cod (.ofVar x dom)
    pure (.lam x (← lambdaFrom body params s' type'))

/-- A function of at least one parameter. -/
def lambda (loc : Location) (params : List Site) (body : Elaborator) : Elaborator :=
  ofCheck loc fun s type ↦
    match params with
    | [] => .stop .wrongShape loc ["A λ must bind at least one variable"]
    | _ => lambdaFrom fuel body params s type

/-- A function with its arguments one after the other. -/
def appFrom (s : Scope) : List Elaborator → Judgment → Checked Judgment
  | [], f => pure f
  | arg :: args, f => do
    let (_, dom, cod) ← s.expectPi fuel arg.loc (← s.eval fuel f.type)
    let a ← arg.check s dom
    let type ← s.readBackType fuel (← Scope.enter fuel cod (← s.eval fuel a))
    appFrom s args ⟨type, .app f.term a⟩

/-- A function applied to at least one argument. -/
def app (loc : Location) (f : Elaborator) (args : List Elaborator) : Elaborator :=
  ofSynth fuel loc fun s ↦
    match args with
    | [] => .stop .wrongShape loc ["An application needs at least one argument"]
    | _ => do appFrom fuel s args (← f.synth s)

/-- The types of a function type without dependency.  What follows is elaborated first, so that
the name of the argument can be chosen not to occur in it. -/
def arrowFrom (inU : Bool) (s : Scope) (dom : Elaborator) : List Elaborator → Checked Term
  | [] => dom.component inU s
  | cod :: types => do
    let a ← dom.component inU s
    let b ← arrowFrom inU s cod types
    pure (.pi (s.context.freshBinder b "x") a b)

/-- A function type without dependency, of at least one argument. -/
def arrow (loc : Location) (types : List Elaborator) : Elaborator :=
  ofFormer fuel loc fun inU s ↦
    match types with
    | dom :: cod :: rest => arrowFrom inU s dom (cod :: rest)
    | _ => .stop .wrongShape loc ["→ needs an argument type and a result type"]

/-- The binders of a type, one at a time. -/
def bindersFrom (inU : Bool) (build : String → Term → Term → Term) (body : Elaborator) :
    List (Site × Elaborator) → Scope → Checked Term
  | [], s => body.component inU s
  | (site, type) :: binders, s => do
    Scope.checkName site
    let a ← type.component inU s
    let x := s.context.fresh site.name
    let s' ← s.bind site.name x (← s.eval fuel a)
    pure (build x a (← bindersFrom inU build body binders s'))

/-- A function type that binds at least one variable. -/
def pi (loc : Location) (binders : List (Site × Elaborator)) (body : Elaborator) : Elaborator :=
  ofFormer fuel loc fun inU s ↦
    match binders with
    | [] => .stop .wrongShape loc ["Π must bind at least one variable"]
    | _ => bindersFrom fuel inU .pi body binders s

/-! ## Pairs -/

/-- A pair type that binds at least one variable. -/
def sigma (loc : Location) (binders : List (Site × Elaborator)) (body : Elaborator) : Elaborator :=
  ofFormer fuel loc fun inU s ↦
    match binders with
    | [] => .stop .wrongShape loc ["Σ must bind at least one variable"]
    | _ => bindersFrom fuel inU .sigma body binders s

/-- A pair type without dependency. -/
def pair (loc : Location) (fst snd : Elaborator) : Elaborator :=
  ofFormer fuel loc fun inU s ↦ do
    let a ← fst.component inU s
    let d ← snd.component inU s
    pure (.sigma (s.context.freshBinder d "x") a d)

/-- A pair. -/
def cons (loc : Location) (a d : Elaborator) : Elaborator :=
  ofCheck loc fun s type ↦ do
    let (fst, snd) ← s.expectSigma fuel loc type
    let a' ← a.check s fst
    let d' ← d.check s (← Scope.enter fuel snd (← s.eval fuel a'))
    pure (.binary .cons a' d')

/-- The first component of a pair. -/
def car (loc : Location) (target : Elaborator) : Elaborator :=
  ofSynth fuel loc fun s ↦ do
    let p ← target.synth s
    let (fst, _) ← s.expectSigma fuel loc (← s.eval fuel p.type)
    s.judge fuel fst (.project .car p.term)

/-- The second component of a pair, whose type depends on the first. -/
def cdr (loc : Location) (target : Elaborator) : Elaborator :=
  ofSynth fuel loc fun s ↦ do
    let p ← target.synth s
    let (_, snd) ← s.expectSigma fuel loc (← s.eval fuel p.type)
    let a ← .ofEval ((machine fuel).doProject .passing .car (← s.eval fuel p.term))
    s.judge fuel (← Scope.enter fuel snd a) (.project .cdr p.term)

/-! ## Constants -/

/-- The universe is a type that belongs to no universe. -/
def univ (loc : Location) : Elaborator :=
  ofFormer fuel loc fun inU _ ↦
    if inU then .stop .cannotSynth loc ["U is a type, but it does not have a type"]
    else pure (.const .univ)

/-- A type without parts. -/
def plainType (loc : Location) (k : Const) : Elaborator :=
  ofFormer fuel loc fun _ _ ↦ pure (.const k)

/-- A value without parts whose type has no parts either. -/
def plainValue (loc : Location) (type : Const) (t : Term) : Elaborator :=
  ofSynth fuel loc fun _ ↦ pure ⟨.const type, t⟩

/-- The empty list. -/
def nil (loc : Location) : Elaborator :=
  ofCheck loc fun s type ↦ do
    let _ ← s.expectList fuel loc type
    pure (.const .nil)

/-- The empty vector. -/
def vecnil (loc : Location) : Elaborator :=
  ofCheck loc fun s type ↦ do
    let (_, len) ← s.expectVec fuel loc type
    match ← Scope.force len with
    | .const .zero => pure (.const .vecnil)
    | _ =>
      .stop .wrongShape loc
        ["vecnil requires length zero, but the length is", ← s.readBack fuel (.const .nat) len]

/-- Constants by themselves. -/
def const (loc : Location) : Const → Elaborator
  | .univ => univ fuel loc
  | .nat => plainType fuel loc .nat
  | .atom => plainType fuel loc .atom
  | .trivial => plainType fuel loc .trivial
  | .absurd => plainType fuel loc .absurd
  | .zero => plainValue fuel loc .nat (.const .zero)
  | .sole => plainValue fuel loc .trivial (.const .sole)
  | .nil => nil fuel loc
  | .vecnil => vecnil fuel loc

/-- A quoted atom. -/
def quote (loc : Location) (sym : String) : Elaborator :=
  ofSynth fuel loc fun _ ↦
    if isAtomSymbol sym then pure ⟨.const .atom, .quote sym⟩
    else .stop .badName loc ["Atoms may contain only letters and hyphens, but found", sym]

/-! ## Constructors -/

/-- The successor of a number. -/
def add1 (loc : Location) (n : Elaborator) : Elaborator :=
  ofSynth fuel loc fun s ↦ do
    let n' ← n.check s (.const .nat)
    pure ⟨.const .nat, .unary .add1 n'⟩

/-- The type of lists. -/
def list (loc : Location) (elem : Elaborator) : Elaborator :=
  ofFormer fuel loc fun inU s ↦ do pure (.unary .list (← elem.component inU s))

/-- Reflexivity: both sides of the equality have to be the given value. -/
def same (loc : Location) (e : Elaborator) : Elaborator :=
  ofCheck loc fun s type ↦ do
    let (t, lhs, rhs) ← s.expectEqual fuel loc type
    let e' ← e.check s t
    let v ← s.eval fuel e'
    s.convert fuel loc t lhs v
    s.convert fuel loc t rhs v
    pure (.unary .same e')

/-- The left alternative of a sum. -/
def left (loc : Location) (e : Elaborator) : Elaborator :=
  ofCheck loc fun s type ↦ do
    let (l, _) ← s.expectEither fuel loc type
    pure (.unary .left (← e.check s l))

/-- The right alternative of a sum. -/
def right (loc : Location) (e : Elaborator) : Elaborator :=
  ofCheck loc fun s type ↦ do
    let (_, r) ← s.expectEither fuel loc type
    pure (.unary .right (← e.check s r))

/-- Constructors of one argument. -/
def unary (loc : Location) : Unary → Elaborator → Elaborator
  | .add1 => add1 fuel loc
  | .list => list fuel loc
  | .same => same fuel loc
  | .left => left fuel loc
  | .right => right fuel loc

/-- A list with a head, whose type is that of all elements. -/
def listCons (loc : Location) (e es : Elaborator) : Elaborator :=
  ofSynth fuel loc fun s ↦ do
    let h ← e.synth s
    let type := Value.unary .list (← s.eval fuel h.type)
    let t ← es.check s type
    s.judge fuel type (.binary .listCons h.term t)

/-- The type of vectors. -/
def vec (loc : Location) (elem len : Elaborator) : Elaborator :=
  ofFormer fuel loc fun inU s ↦ do
    let t ← elem.component inU s
    let n ← len.check s (.const .nat)
    pure (.binary .vec t n)

/-- A vector with a head. -/
def vecCons (loc : Location) (h t : Elaborator) : Elaborator :=
  ofCheck loc fun s type ↦ do
    let (elem, len) ← s.expectVec fuel loc type
    let k ← s.expectAdd1 fuel loc len
      "vec:: requires a length of the form (add1 n), but the length is"
    let h' ← h.check s elem
    let t' ← t.check s (.binary .vec elem k)
    pure (.binary .vecCons h' t')

/-- The type of sums. -/
def either (loc : Location) (l r : Elaborator) : Elaborator :=
  ofFormer fuel loc fun inU s ↦ do
    let l' ← l.component inU s
    let r' ← r.component inU s
    pure (.binary .either l' r')

/-- Constructors of two arguments. -/
def binary (loc : Location) : Binary → Elaborator → Elaborator → Elaborator
  | .cons => cons fuel loc
  | .listCons => listCons fuel loc
  | .vec => vec fuel loc
  | .vecCons => vecCons fuel loc
  | .either => either fuel loc

/-- The type of equalities. -/
def equal (loc : Location) (type lhs rhs : Elaborator) : Elaborator :=
  ofFormer fuel loc fun inU s ↦ do
    let t ← type.component inU s
    let tv ← s.eval fuel t
    let l ← lhs.check s tv
    let r ← rhs.check s tv
    pure (.equal t l r)

/-! ## Numbers and lists -/

/-- Recursion on numbers.  The type of the base is the type of the result. -/
def natRecursor (loc : Location) (k : Recursor) (stepType : Value → Value)
    (target base step : Elaborator) : Elaborator :=
  ofSynth fuel loc fun s ↦ do
    let t ← target.check s (.const .nat)
    let b ← base.synth s
    let st ← step.check s (stepType (← s.eval fuel b.type))
    pure ⟨b.type, .recursor k t b.type b.term st⟩

/-- Recursion on lists. -/
def recList (loc : Location) (target base step : Elaborator) : Elaborator :=
  ofSynth fuel loc fun s ↦ do
    let t ← target.synth s
    let elem ← s.expectList fuel target.loc (← s.eval fuel t.type)
    let b ← base.synth s
    let st ← step.check s (.recListStep elem (← s.eval fuel b.type))
    pure ⟨b.type, .recursor .recList t.term b.type b.term st⟩

/-- Recursion without a motive. -/
def recursor (loc : Location) : Recursor → Elaborator → Elaborator → Elaborator → Elaborator
  | .whichNat => natRecursor fuel loc .whichNat .whichNatStep
  | .iterNat => natRecursor fuel loc .iterNat .iterNatStep
  | .recNat => natRecursor fuel loc .recNat .recNatStep
  | .recList => recList fuel loc

/-- Induction on numbers. -/
def indNat (loc : Location) (target motive base step : Elaborator) : Elaborator :=
  ofSynth fuel loc fun s ↦ do
    let t ← target.check s (.const .nat)
    let mot ← motive.check s .indNatMotive
    let mv ← s.eval fuel mot
    let b ← base.check s (← Scope.apply fuel mv (.const .zero))
    let st ← step.check s (.indNatStep mv)
    s.judge fuel (← Scope.apply fuel mv (← s.eval fuel t)) (.induct .indNat t mot b st)

/-- Induction on lists. -/
def indList (loc : Location) (target motive base step : Elaborator) : Elaborator :=
  ofSynth fuel loc fun s ↦ do
    let t ← target.synth s
    let elem ← s.expectList fuel target.loc (← s.eval fuel t.type)
    let mot ← motive.check s (.indListMotive elem)
    let mv ← s.eval fuel mot
    let b ← base.check s (← Scope.apply fuel mv (.const .nil))
    let st ← step.check s (.indListStep elem mv)
    s.judge fuel (← Scope.apply fuel mv (← s.eval fuel t.term)) (.induct .indList t.term mot b st)

/-! ## Sums and the empty type -/

/-- Case distinction on a sum. -/
def indEither (loc : Location) (target motive left right : Elaborator) : Elaborator :=
  ofSynth fuel loc fun s ↦ do
    let t ← target.synth s
    let (lt, rt) ← s.expectEither fuel target.loc (← s.eval fuel t.type)
    let mot ← motive.check s (.indEitherMotive lt rt)
    let mv ← s.eval fuel mot
    let l ← left.check s (.indEitherCase .left lt mv)
    let r ← right.check s (.indEitherCase .right rt mv)
    s.judge fuel (← Scope.apply fuel mv (← s.eval fuel t.term)) (.induct .indEither t.term mot l r)

/-- Elimination with a motive over the target and two cases. -/
def induct (loc : Location) :
    Induction → Elaborator → Elaborator → Elaborator → Elaborator → Elaborator
  | .indNat => indNat fuel loc
  | .indList => indList fuel loc
  | .indEither => indEither fuel loc

/-- From an element of the empty type, an element of any type. -/
def indAbsurd (loc : Location) (target motive : Elaborator) : Elaborator :=
  ofSynth fuel loc fun s ↦ do
    let t ← target.check s (.const .absurd)
    let mot ← motive.isType s
    pure ⟨mot, .indAbsurd t mot⟩

/-! ## Equalities -/

/-- An expression whose type is an equality, and what the equality consists of. -/
def synthEqual (e : Elaborator) (s : Scope) : Checked (Term × Value × Value × Value) := do
  let j ← e.synth s
  let parts ← s.expectEqual fuel e.loc (← s.eval fuel j.type)
  pure (j.term, parts)

/-- Equals may be replaced by equals. -/
def replace (loc : Location) (target motive base : Elaborator) : Elaborator :=
  ofSynth fuel loc fun s ↦ do
    let (t, type, lhs, rhs) ← synthEqual fuel target s
    let mot ← motive.check s (.replaceMotive type)
    let mv ← s.eval fuel mot
    let b ← base.check s (← Scope.apply fuel mv lhs)
    s.judge fuel (← Scope.apply fuel mv rhs) (.transport .replace t mot b)

/-- Induction on an equality. -/
def indEqual (loc : Location) (target motive base : Elaborator) : Elaborator :=
  ofSynth fuel loc fun s ↦ do
    let (t, type, lhs, rhs) ← synthEqual fuel target s
    let mot ← motive.check s (.indEqualMotive type lhs)
    let mv ← s.eval fuel mot
    let b ← base.check s (← Scope.apply fuel (← Scope.apply fuel mv lhs) (.unary .same lhs))
    let result ← Scope.apply fuel mv rhs
    s.judge fuel (← Scope.apply fuel result (← s.eval fuel t)) (.transport .indEqual t mot b)

/-- Elimination of an equality with a motive and a base. -/
def transport (loc : Location) : Transport → Elaborator → Elaborator → Elaborator → Elaborator
  | .replace => replace fuel loc
  | .indEqual => indEqual fuel loc

/-- Transitivity: the two equalities have to meet. -/
def trans (loc : Location) (left right : Elaborator) : Elaborator :=
  ofSynth fuel loc fun s ↦ do
    let (l, type, lhs, middle) ← synthEqual fuel left s
    let (r, type', middle', rhs) ← synthEqual fuel right s
    s.sameType fuel loc type' type
    s.convert fuel loc type middle middle'
    s.judge fuel (.equal type lhs rhs) (.trans l r)

/-- Congruence: a function that is not dependent takes equals to equals. -/
def cong (loc : Location) (target f : Elaborator) : Elaborator :=
  ofSynth fuel loc fun s ↦ do
    let (t, type, lhs, rhs) ← synthEqual fuel target s
    let j ← f.synth s
    let (name, dom, cod) ← s.expectPi fuel f.loc (← s.eval fuel j.type)
    s.sameType fuel loc type dom
    let x := s.context.fresh name
    let Γ ← .ofRead (s.context.bindFree x dom)
    let c ← .ofRead (Γ.readBackType fuel (← Scope.enter fuel cod (.ofVar x dom)))
    if c.names.contains x then
      .stop .wrongShape f.loc ["cong requires a non-dependent function, but its type is", j.type]
    else do
      let fv ← s.eval fuel j.term
      let cv ← s.eval fuel c
      let lhs' ← Scope.apply fuel fv lhs
      let rhs' ← Scope.apply fuel fv rhs
      s.judge fuel (.equal cv lhs' rhs') (.cong t c j.term)

/-- Symmetry. -/
def symm (loc : Location) (target : Elaborator) : Elaborator :=
  ofSynth fuel loc fun s ↦ do
    let (t, type, lhs, rhs) ← synthEqual fuel target s
    s.judge fuel (.equal type rhs lhs) (.project .symm t)

/-! ## Vectors -/

/-- A vector that is known not to be empty, its element type, and the length of its tail. -/
def synthNonEmpty (e : Elaborator) (s : Scope) : Checked (Term × Value × Value) := do
  let j ← e.synth s
  let (elem, len) ← s.expectVec fuel e.loc (← s.eval fuel j.type)
  let k ← s.expectAdd1 fuel e.loc len
    "Expected a Vec with a length of the form (add1 n), but the length is"
  pure (j.term, elem, k)

/-- The first element of a vector. -/
def head (loc : Location) (target : Elaborator) : Elaborator :=
  ofSynth fuel loc fun s ↦ do
    let (t, elem, _) ← synthNonEmpty fuel target s
    s.judge fuel elem (.project .head t)

/-- What follows the first element of a vector. -/
def tail (loc : Location) (target : Elaborator) : Elaborator :=
  ofSynth fuel loc fun s ↦ do
    let (t, elem, k) ← synthNonEmpty fuel target s
    s.judge fuel (.binary .vec elem k) (.project .tail t)

/-- Induction on a vector of the given length. -/
def indVec (loc : Location) (len target motive base step : Elaborator) : Elaborator :=
  ofSynth fuel loc fun s ↦ do
    let n ← len.check s (.const .nat)
    let t ← target.synth s
    let (elem, len') ← s.expectVec fuel target.loc (← s.eval fuel t.type)
    let nv ← s.eval fuel n
    s.convert fuel len.loc (.const .nat) nv len'
    let mot ← motive.check s (.indVecMotive elem)
    let mv ← s.eval fuel mot
    let b ← base.check s
      (← Scope.apply fuel (← Scope.apply fuel mv (.const .zero)) (.const .vecnil))
    let st ← step.check s (.indVecStep elem mv)
    let result ← Scope.apply fuel mv nv
    s.judge fuel (← Scope.apply fuel result (← s.eval fuel t.term)) (.indVec n t.term mot b st)

/-- Elimination that takes only its target. -/
def project (loc : Location) : Projection → Elaborator → Elaborator
  | .car => car fuel loc
  | .cdr => cdr fuel loc
  | .symm => symm fuel loc
  | .head => head fuel loc
  | .tail => tail fuel loc

end Rule

end LittleTypes
