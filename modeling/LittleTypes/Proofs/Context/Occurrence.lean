import LittleTypes.Proofs.Context.Built
import LittleTypes.Proofs.Legal.Rules
import LittleTypes.Proofs.Likeness.Same

/-!
# Only the names that occur matter

What is made of a term depends only on what the names in it stand for.  Two environments that agree
on these names are both captured by the closures that the term makes, so the values are never the
same; but they resemble each other, and strictly so.

A name that is chosen not to occur in a term can therefore be bound around it.  This is how function
and pair types without dependency are made.
-/

namespace LittleTypes

open Checked

/-- The normal form of a term is the same where its free names stand for the same. -/
theorem Context.normalizeIn_congr {t : Term} {ρ σ : Env}
    (h : ∀ x ∈ t.free, ρ.lookup x = σ.lookup x) (fuel : Nat) (Γ : Context) (type? : Option Value) :
    Γ.normalizeIn fuel ρ type? t = Γ.normalizeIn fuel σ type? t := by
  have hv := ρ.selfResembling.eval (n := fuel) (fun _ ↦ rfl) fun x hx ↦ (h x hx).symm
  exact (normalizeIn_akin (fun _ ↦ rfl) Γ (fun type _ ↦ type.resembles_self) hv).eq trivial

namespace Term

/-- Whatever the name stands for, if it stands for anything, nothing else comes of the term, be it a
normal form or a fault. -/
def Ignores (t : Term) (x : String) : Prop :=
  ∀ fuel Γ ρ v type?, Context.normalizeIn fuel Γ (.cons x v ρ) type? t =
    Γ.normalizeIn fuel ρ type? t

theorem ignores_of_not_mem_free {t : Term} {x : String} (h : x ∉ t.free) : t.Ignores x := by
  intro fuel Γ ρ v type?
  refine Context.normalizeIn_congr (fun y hy ↦ Env.lookup_cons_of_ne ?_ v ρ) fuel Γ type?
  exact fun e ↦ h (e ▸ hy)

/-- A name that was chosen not to occur does not matter. -/
theorem ignores_freshBinder (Γ : Context) (t : Term) (hint : String) :
    t.Ignores (Γ.freshBinder t hint) :=
  ignores_of_not_mem_free fun h ↦ (Γ.freshBinder_not_mem t hint).2 (mem_names_of_mem_free h)

/-- A function type of so many arguments on which nothing depends. -/
def IsArrow : Nat → Term → Prop
  | 0, _ => True
  | n + 1, pi x _ b => b.Ignores x ∧ b.IsArrow n
  | _ + 1, _ => False

/-- A pair type in which nothing depends on the first component. -/
def IsProduct : Term → Prop
  | sigma x _ d => d.Ignores x
  | _ => False

end Term

/-- What a source term is elaborated to, in whichever way it is asked for. -/
inductive Source.Elaborates (fuel : Nat) (s : Scope) (e : Source) : Term → Prop
  | synth {j : Judgment} : (e.synth fuel s).outcome = .ok j → Elaborates fuel s e j.term
  | check {type : Value} {t : Term} :
    (e.check fuel s type).outcome = .ok t → Elaborates fuel s e t
  | isType {t : Term} : (e.isType fuel s).outcome = .ok t → Elaborates fuel s e t

namespace Rule

variable {fuel : Nat} {s : Scope}

/-- In each way a type former makes the same of its parts. -/
theorem elaborates_ofFormer {P : Term → Prop} {e : Source} {loc : Location}
    {former : Bool → Scope → Checked Term} (he : e.elaborator fuel = .ofFormer fuel loc former)
    (h : ∀ inU, Yields P (former inU s)) {t : Term} (ht : e.Elaborates fuel s t) : P t := by
  have hsynth : Yields (fun j ↦ P j.term) ((Elaborator.ofFormer fuel loc former).synth s) :=
    (h true).bind fun _ ht ↦ .pure ht
  have hcheck (v : Value) : Yields P ((Elaborator.ofFormer fuel loc former).check s v) :=
    hsynth.bind fun _ hj ↦ .after fun _ ↦ .after fun _ ↦ .pure hj
  cases ht with
  | synth h => exact hsynth _ (by rwa [Source.synth, he] at h)
  | check h => exact hcheck _ _ (by rwa [Source.check, he] at h)
  | isType h' => exact h false _ (by rwa [Source.isType, he] at h')

theorem yields_arrowFrom (inU : Bool) (dom : Elaborator) (types : List Elaborator) :
    Yields (Term.IsArrow types.length) (arrowFrom inU s dom types) := by
  induction types generalizing dom with
  | nil => exact fun _ _ ↦ trivial
  | cons cod types ih =>
    refine .after fun a ↦ (ih cod).bind fun b hb ↦ .pure ?_
    exact ⟨Term.ignores_freshBinder s.context b "x", hb⟩

theorem isArrow_of_elaborates {loc : Location} {types : List Source} {t : Term}
    (h : (Source.arrow loc types).Elaborates fuel s t) : t.IsArrow (types.length - 1) := by
  have he : (Source.arrow loc types).elaborator fuel =
      arrow fuel loc (Source.elaborators fuel types) := rfl
  refine elaborates_ofFormer he (fun inU ↦ ?_) h
  rw [Source.elaborators_eq_map]
  match types with
  | [] | [_] => exact .stop _ _ _
  | dom :: cod :: types =>
    simpa using yields_arrowFrom inU (dom.elaborator fuel) ((cod :: types).map (·.elaborator fuel))

theorem isProduct_of_elaborates {loc : Location} {fst snd : Source} {t : Term}
    (h : (Source.pair loc fst snd).Elaborates fuel s t) : t.IsProduct := by
  have he : (Source.pair loc fst snd).elaborator fuel =
      pair fuel loc (fst.elaborator fuel) (snd.elaborator fuel) := rfl
  refine elaborates_ofFormer he (fun inU ↦ ?_) h
  exact .after fun a ↦ .after fun d ↦ .pure (Term.ignores_freshBinder s.context d "x")

end Rule

namespace Context

/-- **Evaluation depends only on the names that occur.**  If two environments have the same value
for every name in a term, or both have none, then what is read back of the term in any context and
at any type is the same, and if nothing is, the fault is the same.  A name that is chosen not to
occur in a term may stand for anything; so nothing depends on the arguments of an arrow and on the
first component of a pair type, in whatever scope and in whichever way they are elaborated. -/
theorem normalizeIn_depends_on_names :
    (∀ (t : Term) (ρ σ : Env), (∀ x ∈ t.names, ρ.lookup x = σ.lookup x) →
      ∀ fuel Γ type?, normalizeIn fuel Γ ρ type? t = Γ.normalizeIn fuel σ type? t) ∧
    (∀ (Γ : Context) (t : Term) (hint : String), t.Ignores (Γ.freshBinder t hint)) ∧
    (∀ fuel s loc types t, (Source.arrow loc types).Elaborates fuel s t →
      t.IsArrow (types.length - 1)) ∧
    ∀ fuel s loc fst snd t, (Source.pair loc fst snd).Elaborates fuel s t → t.IsProduct := by
  refine ⟨fun t ρ σ h fuel Γ type? ↦ ?_, Term.ignores_freshBinder,
    fun _ _ _ _ _ ↦ Rule.isArrow_of_elaborates, fun _ _ _ _ _ _ ↦ Rule.isProduct_of_elaborates⟩
  exact normalizeIn_congr (fun x hx ↦ h x (Term.mem_names_of_mem_free hx)) fuel Γ type?

/-- The second environment has a name that the term does not mention, and nothing to see for it. -/
theorem normalizeIn_depends_on_names_successor :
    normalizeIn 5 [] (.cons "n" (.const .zero) .nil) (some (.const .nat))
      (.unary .add1 (.var "n")) = .ok (.unary .add1 (.const .zero)) ∧
    normalizeIn 5 [] (.cons "m" .absent (.cons "n" (.const .zero) .nil)) (some (.const .nat))
      (.unary .add1 (.var "n")) = .ok (.unary .add1 (.const .zero)) ∧
    ∃ t, (Source.natToNat.isType 5 {}).outcome = .ok t ∧ t.IsArrow 1 := by
  refine ⟨rfl, ?_, _, rfl, ?_⟩
  · exact normalizeIn_depends_on_names.1 (.unary .add1 (.var "n"))
      (.cons "m" .absent (.cons "n" (.const .zero) .nil)) (.cons "n" (.const .zero) .nil)
      (by simp [Term.names, Env.lookup]) 5 [] (some (.const .nat))
  · exact normalizeIn_depends_on_names.2.2.1 5 {} {} [.const {} .nat, .const {} .nat] _
      (.isType rfl)

end Context

end LittleTypes
