import LittleTypes.Typing.Rules

/-!
# Elaboration

Source terms are checked and turned into terms by the rule of their outermost form, applied to the
elaborators of their parts.
-/

namespace LittleTypes

namespace Source

mutual

/-- What can be done with a source term. -/
def elaborator (fuel : Nat) : Source → Elaborator
  | missing => .missing fuel
  | var l x => Rule.var fuel l x
  | hole l => Rule.hole fuel l
  | the l t e => Rule.the fuel l (t.elaborator fuel) (e.elaborator fuel)
  | app l f args => Rule.app fuel l (f.elaborator fuel) (elaborators fuel args)
  | numeral l n => Rule.plainValue fuel l .nat (.numeral n)
  | quote l s => Rule.quote fuel l s
  | lam l params b => Rule.lambda fuel l params (b.elaborator fuel)
  | pi l binders b => Rule.pi fuel l (binderElaborators fuel binders) (b.elaborator fuel)
  | sigma l binders b => Rule.sigma fuel l (binderElaborators fuel binders) (b.elaborator fuel)
  | arrow l types => Rule.arrow fuel l (elaborators fuel types)
  | pair l a d => Rule.pair fuel l (a.elaborator fuel) (d.elaborator fuel)
  | const l k => Rule.const fuel l k
  | unary l k a => Rule.unary fuel l k (a.elaborator fuel)
  | binary l k a b => Rule.binary fuel l k (a.elaborator fuel) (b.elaborator fuel)
  | equal l t a b => Rule.equal fuel l (t.elaborator fuel) (a.elaborator fuel) (b.elaborator fuel)
  | project l k t => Rule.project fuel l k (t.elaborator fuel)
  | recursor l k t b s =>
    Rule.recursor fuel l k (t.elaborator fuel) (b.elaborator fuel) (s.elaborator fuel)
  | induct l k t m b s =>
    Rule.induct fuel l k (t.elaborator fuel) (m.elaborator fuel) (b.elaborator fuel)
      (s.elaborator fuel)
  | transport l k t m b =>
    Rule.transport fuel l k (t.elaborator fuel) (m.elaborator fuel) (b.elaborator fuel)
  | indAbsurd l t m => Rule.indAbsurd fuel l (t.elaborator fuel) (m.elaborator fuel)
  | trans l a b => Rule.trans fuel l (a.elaborator fuel) (b.elaborator fuel)
  | cong l t f => Rule.cong fuel l (t.elaborator fuel) (f.elaborator fuel)
  | indVec l n t m b s =>
    Rule.indVec fuel l (n.elaborator fuel) (t.elaborator fuel) (m.elaborator fuel)
      (b.elaborator fuel) (s.elaborator fuel)

/-- What can be done with each of several source terms. -/
def elaborators (fuel : Nat) : List Source → List Elaborator
  | [] => []
  | e :: es => e.elaborator fuel :: elaborators fuel es

/-- What can be done with the types of several binders. -/
def binderElaborators (fuel : Nat) : List (Site × Source) → List (Site × Elaborator)
  | [] => []
  | (site, t) :: binders => (site, t.elaborator fuel) :: binderElaborators fuel binders

end

theorem elaborators_eq_map (fuel : Nat) (es : List Source) :
    elaborators fuel es = es.map (elaborator fuel) := by
  induction es with
  | nil => rfl
  | cons e es ih => simp [elaborators, ih]

theorem binderElaborators_eq_map (fuel : Nat) (bs : List (Site × Source)) :
    binderElaborators fuel bs = bs.map fun b ↦ (b.1, b.2.elaborator fuel) := by
  induction bs with
  | nil => rfl
  | cons b bs ih => simp [binderElaborators, ih]

variable (fuel : Nat) (s : Scope)

/-- Finds the type of a source term and elaborates it. -/
def synth (e : Source) : Checked Judgment := (e.elaborator fuel).synth s

/-- Elaborates a source term that should have a given type. -/
def check (e : Source) (type : Value) : Checked Term := (e.elaborator fuel).check s type

/-- Elaborates a source term that should be a type. -/
def isType (e : Source) : Checked Term := (e.elaborator fuel).isType s

end Source

end LittleTypes
