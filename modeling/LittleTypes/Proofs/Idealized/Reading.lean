import LittleTypes.Proofs.Idealized.Plan
import LittleTypes.Proofs.Term.Nameless

/-!
# Idealized normal forms

Reading an ideal value back gives a nameless form.  It is read at a level, the number of unknown
values so far, and a value under a binder is applied to the next unknown value.

As for evaluation there is a plan for everything that can be read, which asks evaluation for values
and reading for what stands below.
-/

namespace LittleTypes.Idealized

/-- What can be read back. -/
inductive Reading
  /-- A value at its type. -/
  | value (type v : Value)
  /-- A value that is a type. -/
  | type (v : Value)
  /-- An elimination that cannot go on. -/
  | neutral (n : Neutral)

/-- How to get at a normal form. -/
inductive ReadPlan
  | done (N : Nameless)
  | ask (d : Demand) (next : Value → ReadPlan)
  | read (k : Nat) (r : Reading) (next : Nameless → ReadPlan)
  | stuck

/-- Goes on with the answer of evaluation. -/
def Plan.thenRead {α : Type} : Plan α → (α → ReadPlan) → ReadPlan
  | done a, f => f a
  | ask d next, f => .ask d fun v ↦ (next v).thenRead f
  | stuck, _ => .stuck

/-- An unknown value. -/
def Value.ofLevel (k : Nat) (type : Value) : Value := .neu type (.var k)

variable (k : Nat)

/-- The type of a typed value. -/
def Typed.type : Typed → Value
  | .mk type _ => type

/-- The value of a typed value. -/
def Typed.value : Typed → Value
  | .mk _ value => value

/-- Reads a typed value at its type. -/
def readTyped (a : Typed) (next : Nameless → ReadPlan) : ReadPlan :=
  .read k (.value a.type a.value) next

/-- Reads an elimination. -/
def readNeutral (n : Neutral) (next : Nameless → ReadPlan) : ReadPlan := .read k (.neutral n) next

/-- The normal form of an elimination is the elimination of normal forms. -/
def neutralPlan : Neutral → ReadPlan
  | .var i => .done (.var i)
  | .hole l type => .read k (.type type) fun type ↦ .done (.hole l type)
  | .app f a => readNeutral k f fun f ↦ readTyped k a fun a ↦ .done (.app f a)
  | .project c t => readNeutral k t fun t ↦ .done (.project c t)
  | .recursor c t base step =>
    readNeutral k t fun t ↦ .read k (.type base.type) fun baseType ↦
      readTyped k base fun base ↦ readTyped k step fun step ↦
        .done (.recursor c t baseType base step)
  | .induct c t motive base step =>
    readNeutral k t fun t ↦ readTyped k motive fun motive ↦
      readTyped k base fun base ↦ readTyped k step fun step ↦ .done (.induct c t motive base step)
  | .transport c t motive base =>
    readNeutral k t fun t ↦ readTyped k motive fun motive ↦
      readTyped k base fun base ↦ .done (.transport c t motive base)
  | .indAbsurd t motive =>
    readNeutral k t fun t ↦ .read k (.type motive.value) fun motive ↦
      .done (.indAbsurd (.the (.const .absurd) t) motive)
  | .transLeft l r => readNeutral k l fun l ↦ readTyped k r fun r ↦ .done (.trans l r)
  | .transRight l r => readTyped k l fun l ↦ readNeutral k r fun r ↦ .done (.trans l r)
  | .transBoth l r => readNeutral k l fun l ↦ readNeutral k r fun r ↦ .done (.trans l r)
  | .cong t cod f =>
    readNeutral k t fun t ↦ .read k (.type cod) fun cod ↦ readTyped k f fun f ↦
      .done (.cong t cod f)
  | .indVec len t motive base step =>
    readTyped k len fun len ↦ readNeutral k t fun t ↦ readTyped k motive fun motive ↦
      readTyped k base fun base ↦ readTyped k step fun step ↦
        .done (.indVec len t motive base step)
  | .indVecBoth len t motive base step =>
    readNeutral k len fun len ↦ readNeutral k t fun t ↦ readTyped k motive fun motive ↦
      readTyped k base fun base ↦ readTyped k step fun step ↦
        .done (.indVec len t motive base step)

/-- The normal form of a type whose outermost constructor is in sight. -/
def typeShapePlan : Value → ReadPlan
  | .const .univ => .done (.const .univ)
  | .const .nat => .done (.const .nat)
  | .const .atom => .done (.const .atom)
  | .const .trivial => .done (.const .trivial)
  | .const .absurd => .done (.const .absurd)
  | .pi _ dom cod =>
    .read k (.type dom) fun dom' ↦ (enter cod (.ofLevel k dom)).thenRead fun cod ↦
      .read (k + 1) (.type cod) fun cod ↦ .done (.pi dom' cod)
  | .sigma _ fst snd =>
    .read k (.type fst) fun fst' ↦ (enter snd (.ofLevel k fst)).thenRead fun snd ↦
      .read (k + 1) (.type snd) fun snd ↦ .done (.sigma fst' snd)
  | .equal t l r =>
    .read k (.type t) fun t' ↦ .read k (.value t l) fun l ↦ .read k (.value t r) fun r ↦
      .done (.equal t' l r)
  | .unary .list elem => .read k (.type elem) fun elem ↦ .done (.unary .list elem)
  | .binary .vec elem len =>
    .read k (.type elem) fun elem ↦ .read k (.value (.const .nat) len) fun len ↦
      .done (.binary .vec elem len)
  | .binary .either l r =>
    .read k (.type l) fun l ↦ .read k (.type r) fun r ↦ .done (.binary .either l r)
  | .neu _ n => readNeutral k n .done
  | _ => .stuck

/-- The normal form of a value that can only be an elimination. -/
def neutralShapePlan : Value → ReadPlan
  | .neu _ n => readNeutral k n .done
  | _ => .stuck

/-- The normal form of a number. -/
def natShapePlan : Value → ReadPlan
  | .const .zero => .done (.const .zero)
  | .unary .add1 n => .read k (.value (.const .nat) n) fun n ↦ .done (.unary .add1 n)
  | v => neutralShapePlan k v

/-- The normal form of an atom. -/
def atomShapePlan : Value → ReadPlan
  | .quote s => .done (.quote s)
  | v => neutralShapePlan k v

/-- The normal form of an element of the empty type. -/
def absurdShapePlan : Value → ReadPlan
  | .neu _ n => readNeutral k n fun n ↦ .done (.the (.const .absurd) n)
  | _ => .stuck

/-- The normal form of a function. -/
def functionPlan (dom : Value) (cod : Closure) (v : Value) : ReadPlan :=
  (enter cod (.ofLevel k dom)).thenRead fun cod ↦ (apply v (.ofLevel k dom)).thenRead fun body ↦
    .read (k + 1) (.value cod body) fun body ↦ .done (.lam body)

/-- The normal form of a pair. -/
def pairPlan (fst : Value) (snd : Closure) (v : Value) : ReadPlan :=
  (doCar v).thenRead fun a ↦ .read k (.value fst a) fun a' ↦
    (enter snd a).thenRead fun snd ↦ (doCdr v).thenRead fun d ↦
      .read k (.value snd d) fun d ↦ .done (.binary .cons a' d)

/-- The normal form of an equality. -/
def equalShapePlan (type : Value) : Value → ReadPlan
  | .unary .same a => .read k (.value type a) fun a ↦ .done (.unary .same a)
  | v => neutralShapePlan k v

/-- The normal form of a list. -/
def listShapePlan (elem : Value) : Value → ReadPlan
  | .const .nil => .done (.const .nil)
  | .binary .listCons e es =>
    .read k (.value elem e) fun e ↦ .read k (.value (.unary .list elem) es) fun es ↦
      .done (.binary .listCons e es)
  | v => neutralShapePlan k v

/-- The normal form of a vector. -/
def vecShapePlan (elem len : Value) : Value → ReadPlan
  | .const .vecnil => .done (.const .vecnil)
  | .binary .vecCons h t =>
    (look len).thenRead fun
      | .unary .add1 n =>
        .read k (.value elem h) fun h ↦ .read k (.value (.binary .vec elem n) t) fun t ↦
          .done (.binary .vecCons h t)
      | _ => .stuck
  | v => neutralShapePlan k v

/-- The normal form of an element of a sum. -/
def eitherShapePlan (left right : Value) : Value → ReadPlan
  | .unary .left a => .read k (.value left a) fun a ↦ .done (.unary .left a)
  | .unary .right a => .read k (.value right a) fun a ↦ .done (.unary .right a)
  | v => neutralShapePlan k v

/-- The normal form of a value at a type, when the outermost constructors of both are in sight. -/
def valueShapePlan (type v : Value) : ReadPlan :=
  match type with
  | .const .univ => .read k (.type v) .done
  | .const .nat => natShapePlan k v
  | .const .atom => atomShapePlan k v
  | .const .trivial => .done (.const .sole)
  | .const .absurd => absurdShapePlan k v
  | .pi _ dom cod => functionPlan k dom cod v
  | .sigma _ fst snd => pairPlan k fst snd v
  | .equal t _ _ => equalShapePlan k t v
  | .unary .list elem => listShapePlan k elem v
  | .binary .vec elem len => vecShapePlan k elem len v
  | .binary .either l r => eitherShapePlan k l r v
  | _ => neutralShapePlan k v

/-- What is done to read something back at a level. -/
def readPlan : Reading → ReadPlan
  | .value type v =>
    (look type).thenRead fun type ↦ (look v).thenRead fun v ↦ valueShapePlan k type v
  | .type v => (look v).thenRead fun v ↦ typeShapePlan k v
  | .neutral n => neutralPlan k n

/-! ## Running -/

/-- A plan runs to a normal form when what it asks for has answers. -/
inductive ReadRuns : ReadPlan → Nameless → Prop
  | done (N : Nameless) : ReadRuns (.done N) N
  | ask {d : Demand} {next : Value → ReadPlan} {v : Value} {N : Nameless} :
    Runs (plan d) v → ReadRuns (next v) N → ReadRuns (.ask d next) N
  | read {k : Nat} {r : Reading} {next : Nameless → ReadPlan} {M N : Nameless} :
    ReadRuns (readPlan k r) M → ReadRuns (next M) N → ReadRuns (.read k r next) N

/-- What something is read back as at a level. -/
def Reads (k : Nat) (r : Reading) (N : Nameless) : Prop := ReadRuns (readPlan k r) N

/-- A plan runs to one normal form at most. -/
theorem ReadRuns.unique {p : ReadPlan} {N N' : Nameless} (h : ReadRuns p N)
    (h' : ReadRuns p N') : N = N' := by
  induction h generalizing N' with
  | done N => cases h'; rfl
  | ask hd _ ih =>
    cases h' with
    | ask hd' hNext =>
      cases hd.unique hd'
      exact ih hNext
  | read _ _ ih ihNext =>
    cases h' with
    | read hr hNext =>
      cases ih hr
      exact ihNext hNext

/-- What is read back at a level is unique. -/
theorem Reads.unique {k : Nat} {r : Reading} {N N' : Nameless} (h : Reads k r N)
    (h' : Reads k r N') : N = N' := ReadRuns.unique h h'

/-- Reading goes on with what evaluation answers. -/
theorem ReadRuns.thenRead {α : Type} {p : Plan α} {f : α → ReadPlan} {a : α} {N : Nameless}
    (h : Runs p a) (h' : ReadRuns (f a) N) : ReadRuns (p.thenRead f) N := by
  induction h with
  | done a => exact h'
  | ask hd _ _ ihNext => exact .ask hd (ihNext h')

/-- Reading after evaluating gets to a normal form exactly if it does from some answer. -/
theorem ReadRuns.thenRead_iff {α : Type} {p : Plan α} {f : α → ReadPlan} {N : Nameless} :
    ReadRuns (p.thenRead f) N ↔ ∃ a, Runs p a ∧ ReadRuns (f a) N := by
  constructor
  · intro h
    induction p with
    | done a => exact ⟨a, .done a, h⟩
    | ask d next ih =>
      cases h with
      | ask hd hNext =>
        obtain ⟨a, ha, hN⟩ := ih _ hNext
        exact ⟨a, .ask hd ha, hN⟩
    | stuck => cases h
  · rintro ⟨a, ha, hN⟩
    exact .thenRead ha hN

end LittleTypes.Idealized
