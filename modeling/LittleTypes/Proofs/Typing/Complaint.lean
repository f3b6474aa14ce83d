import LittleTypes.Typing.Elaborate

/-!
# What is said of dependent functions

The rule of congruence looks for the argument of a function in the normal form of its result type,
and refuses the function if the argument is there.  What it then says does not tell where the
argument is.  Here elaboration is given what is to be said of such a function; nothing else depends
on it.
-/

namespace LittleTypes

/-- What is said of a function that is dependent, by the name for its argument, the normal form of
its result type, and its type. -/
abbrev Complaint := String → Term → Term → List Part

namespace Complaint

/-- What the rule says. -/
def plain : Complaint := fun _ _ type ↦
  ["cong requires a non-dependent function, but its type is", type]

/-- Shows the result type, as a function of the argument. -/
def detailed : Complaint := fun x c type ↦
  ["cong requires a non-dependent function, but its result type is", Term.lam x c, "in its type",
    type]

/-- The mistake of which something is said. -/
def stop (say : Complaint) (loc : Location) (x : String) (c type : Term) : Stop :=
  ⟨.wrongShape, loc, say x c type⟩

end Complaint

/-- Congruence, with something to say of a function that is dependent. -/
def Rule.congSaying (say : Complaint) (fuel : Nat) (loc : Location) (target f : Elaborator) :
    Elaborator :=
  .ofSynth fuel loc fun s ↦ do
    let (t, type, lhs, rhs) ← synthEqual fuel target s
    let j ← f.synth s
    let (name, dom, cod) ← s.expectPi fuel f.loc (← s.eval fuel j.type)
    s.sameType fuel loc type dom
    let x := s.context.fresh name
    let Γ ← .ofRead (s.context.bindFree x dom)
    let c ← .ofRead (Γ.readBackType fuel (← Scope.enter fuel cod (.ofVar x dom)))
    if c.names.contains x then
      .stop .wrongShape f.loc (say x c j.type)
    else do
      let fv ← s.eval fuel j.term
      let cv ← s.eval fuel c
      let lhs' ← Scope.apply fuel fv lhs
      let rhs' ← Scope.apply fuel fv rhs
      s.judge fuel (.equal cv lhs' rhs') (.cong t c j.term)

theorem Rule.congSaying_plain (fuel : Nat) : congSaying .plain fuel = cong fuel := rfl

namespace Source

mutual

/-- What can be done with a source term, with something to say of functions that are dependent. -/
def elaboratorSaying (say : Complaint) (fuel : Nat) : Source → Elaborator
  | missing => .missing fuel
  | var l x => Rule.var fuel l x
  | hole l => Rule.hole fuel l
  | the l t e => Rule.the fuel l (t.elaboratorSaying say fuel) (e.elaboratorSaying say fuel)
  | app l f args => Rule.app fuel l (f.elaboratorSaying say fuel) (elaboratorsSaying say fuel args)
  | numeral l n => Rule.plainValue fuel l .nat (.numeral n)
  | quote l s => Rule.quote fuel l s
  | lam l params b => Rule.lambda fuel l params (b.elaboratorSaying say fuel)
  | pi l binders b =>
    Rule.pi fuel l (binderElaboratorsSaying say fuel binders) (b.elaboratorSaying say fuel)
  | sigma l binders b =>
    Rule.sigma fuel l (binderElaboratorsSaying say fuel binders) (b.elaboratorSaying say fuel)
  | arrow l types => Rule.arrow fuel l (elaboratorsSaying say fuel types)
  | pair l a d => Rule.pair fuel l (a.elaboratorSaying say fuel) (d.elaboratorSaying say fuel)
  | const l k => Rule.const fuel l k
  | unary l k a => Rule.unary fuel l k (a.elaboratorSaying say fuel)
  | binary l k a b =>
    Rule.binary fuel l k (a.elaboratorSaying say fuel) (b.elaboratorSaying say fuel)
  | equal l t a b =>
    Rule.equal fuel l (t.elaboratorSaying say fuel) (a.elaboratorSaying say fuel)
      (b.elaboratorSaying say fuel)
  | project l k t => Rule.project fuel l k (t.elaboratorSaying say fuel)
  | recursor l k t b s =>
    Rule.recursor fuel l k (t.elaboratorSaying say fuel) (b.elaboratorSaying say fuel)
      (s.elaboratorSaying say fuel)
  | induct l k t m b s =>
    Rule.induct fuel l k (t.elaboratorSaying say fuel) (m.elaboratorSaying say fuel)
      (b.elaboratorSaying say fuel) (s.elaboratorSaying say fuel)
  | transport l k t m b =>
    Rule.transport fuel l k (t.elaboratorSaying say fuel) (m.elaboratorSaying say fuel)
      (b.elaboratorSaying say fuel)
  | indAbsurd l t m =>
    Rule.indAbsurd fuel l (t.elaboratorSaying say fuel) (m.elaboratorSaying say fuel)
  | trans l a b => Rule.trans fuel l (a.elaboratorSaying say fuel) (b.elaboratorSaying say fuel)
  | cong l t f =>
    Rule.congSaying say fuel l (t.elaboratorSaying say fuel) (f.elaboratorSaying say fuel)
  | indVec l n t m b s =>
    Rule.indVec fuel l (n.elaboratorSaying say fuel) (t.elaboratorSaying say fuel)
      (m.elaboratorSaying say fuel) (b.elaboratorSaying say fuel) (s.elaboratorSaying say fuel)

/-- What can be done with each of several source terms. -/
def elaboratorsSaying (say : Complaint) (fuel : Nat) : List Source → List Elaborator
  | [] => []
  | e :: es => e.elaboratorSaying say fuel :: elaboratorsSaying say fuel es

/-- What can be done with the types of several binders. -/
def binderElaboratorsSaying (say : Complaint) (fuel : Nat) :
    List (Site × Source) → List (Site × Elaborator)
  | [] => []
  | (site, t) :: binders =>
    (site, t.elaboratorSaying say fuel) :: binderElaboratorsSaying say fuel binders

end

/-- Elaborates a source term that should have a given type, with something to say of functions that
are dependent. -/
def checkSaying (say : Complaint) (fuel : Nat) (s : Scope) (e : Source) (type : Value) :
    Checked Term := (e.elaboratorSaying say fuel).check s type

variable (fuel : Nat)

mutual

/-- Elaboration is elaboration that says what the rule says. -/
theorem elaboratorSaying_plain (e : Source) :
    e.elaboratorSaying .plain fuel = e.elaborator fuel := by
  cases e <;> simp only [elaboratorSaying, elaborator, Rule.congSaying_plain,
    elaboratorSaying_plain, elaboratorsSaying_plain, binderElaboratorsSaying_plain]

theorem elaboratorsSaying_plain (es : List Source) :
    elaboratorsSaying .plain fuel es = elaborators fuel es := by
  cases es <;> simp only [elaboratorsSaying, elaborators, elaboratorSaying_plain,
    elaboratorsSaying_plain]

theorem binderElaboratorsSaying_plain (bs : List (Site × Source)) :
    binderElaboratorsSaying .plain fuel bs = binderElaborators fuel bs := by
  match bs with
  | [] => rfl
  | (_, t) :: bs =>
    simp only [binderElaboratorsSaying, binderElaborators, elaboratorSaying_plain t,
      binderElaboratorsSaying_plain bs]

end

variable (say : Complaint)

theorem elaboratorsSaying_eq_map (es : List Source) :
    elaboratorsSaying say fuel es = es.map (elaboratorSaying say fuel) := by
  induction es with
  | nil => rfl
  | cons e es ih => simp [elaboratorsSaying, ih]

theorem binderElaboratorsSaying_eq_map (bs : List (Site × Source)) :
    binderElaboratorsSaying say fuel bs = bs.map fun b ↦ (b.1, b.2.elaboratorSaying say fuel) := by
  induction bs with
  | nil => rfl
  | cons b bs ih => simp [binderElaboratorsSaying, ih]

end Source

end LittleTypes
