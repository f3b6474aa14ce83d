import LittleTypes.Proofs.Relabel.Reader
import LittleTypes.Typing.Rules
import Mathlib.Data.List.Forall2

/-!
# Checking rules with other locations

A mistake is reported at a location of the source, and its message says nothing about locations.
Each rule makes elaborators that do not look at locations from elaborators that do not.
-/

namespace LittleTypes

/-- The part of a message with other locations. -/
def Part.relabel (ρ : Relabelling) : Part → Part
  | term t => term (t.relabel ρ)
  | p => p

/-- The mistake at another location. -/
def Stop.relabel (ρ : Relabelling) (s : Stop) : Stop :=
  ⟨s.code, ρ.map s.loc, s.message.map (Part.relabel ρ)⟩

/-- What is said about a mistake does not depend on locations. -/
theorem Stop.text_relabel (ρ : Relabelling) (s : Stop) : (s.relabel ρ).text = s.text := by
  have hr : Part.render ∘ Part.relabel ρ = Part.render := by
    funext p
    cases p with
    | term t => exact Term.render_relabel ρ t
    | _ => rfl
  rw [text, text, relabel, List.map_map, hr]

/-- The failure at another location.  A fault has none. -/
def Failure.relabel (ρ : Relabelling) : Failure → Failure
  | stop s => stop (s.relabel ρ)
  | fault f => fault f

/-- The scope with other locations. -/
def Scope.relabel (ρ : Relabelling) (s : Scope) : Scope := ⟨s.context.relabel ρ, s.names⟩

/-- The judgment with other locations. -/
def Judgment.relabel (ρ : Relabelling) (j : Judgment) : Judgment :=
  ⟨j.type.relabel ρ, j.term.relabel ρ⟩

namespace Checked

variable {ρ : Relabelling} {α α' β β' : Type} {f : α → α'} {g : β → β'}

/-- The second check ends like the first one, up to locations. -/
def Mirrors (ρ : Relabelling) (f : α → α') (x : Checked α) (y : Checked α') : Prop :=
  LittleTypes.Carries (Failure.relabel ρ) f x.outcome y.outcome

namespace Mirrors

theorem pure (a : α) : Mirrors ρ f (Pure.pure a) (Pure.pure (f a)) := rfl

theorem term (t : Term) :
    Mirrors ρ (Term.relabel ρ) (Pure.pure t) (Pure.pure (t.relabel ρ)) := rfl

theorem judgment (j : Judgment) :
    Mirrors ρ (Judgment.relabel ρ) (Pure.pure j) (Pure.pure (j.relabel ρ)) := rfl

theorem bind {x : Checked α} {y : Checked α'} {k : α → Checked β} {k' : α' → Checked β'}
    (h : Mirrors ρ f x y) (hk : ∀ a, Mirrors ρ g (k a) (k' (f a))) :
    Mirrors ρ g (x >>= k) (y >>= k') := by
  unfold Mirrors at h ⊢
  rw [outcome_bind, outcome_bind]
  exact LittleTypes.Carries.bind h hk

/-- Whatever is logged. -/
theorem note (level : Level) (message : String) (as as' : List Attribute) :
    Mirrors ρ id (Checked.note level message as) (Checked.note level message as') := rfl

/-- A mistake at a location, reported with other locations. -/
theorem stop (code : Code) (loc : Location) (ps : List Part) :
    Mirrors ρ f (Checked.stop code loc ps)
      (Checked.stop code (ρ.map loc) (ps.map (Part.relabel ρ))) := rfl

theorem ofRead {x : Except Fault α} {y : Except Fault α'} (h : LittleTypes.Carries id f x y) :
    Mirrors ρ f (Checked.ofRead x) (Checked.ofRead y) := by
  cases h
  cases x <;> rfl

theorem ofEval {x : Except EvalFault α} {y : Except EvalFault α'}
    (h : LittleTypes.Carries id f x y) : Mirrors ρ f (Checked.ofEval x) (Checked.ofEval y) :=
  ofRead h.lift

end Mirrors

end Checked

open Checked (Mirrors)

/-! ## Scopes -/

namespace Scope

variable (ρ : Relabelling) {fuel : Nat} (s : Scope)

theorem eval_relabel (t : Term) :
    Mirrors ρ (Value.relabel ρ) (s.eval fuel t) ((s.relabel ρ).eval fuel (t.relabel ρ)) := by
  refine .ofEval ?_
  change CarriesValue ρ _ ((machine fuel).eval _ (Context.relabel ρ s.context).env _)
  rw [Context.env_relabel]
  exact (machine_relabels ρ fuel).eval _ _ t

theorem readBack_relabel (t v : Value) :
    Mirrors ρ (Term.relabel ρ) (s.readBack fuel t v)
      ((s.relabel ρ).readBack fuel (t.relabel ρ) (v.relabel ρ)) :=
  .ofRead ((reader_relabels ρ fuel).value _ t v)

theorem readBackType_relabel (v : Value) :
    Mirrors ρ (Term.relabel ρ) (s.readBackType fuel v)
      ((s.relabel ρ).readBackType fuel (v.relabel ρ)) :=
  .ofRead ((reader_relabels ρ fuel).type _ v)

theorem force_relabel (v : Value) :
    Mirrors ρ (Value.relabel ρ) (force v) (force (v.relabel ρ)) := .ofEval (CarriesValue.force ρ v)

theorem apply_relabel (f a : Value) :
    Mirrors ρ (Value.relabel ρ) (apply fuel f a) (apply fuel (f.relabel ρ) (a.relabel ρ)) :=
  .ofEval ((machine_relabels ρ fuel).apply _ f a)

theorem enter_relabel (c : Closure) (a : Value) :
    Mirrors ρ (Value.relabel ρ) (enter fuel c a) (enter fuel (c.relabel ρ) (a.relabel ρ)) :=
  .ofEval ((machine_relabels ρ fuel).enter _ c a)

theorem bind_relabel (x y : String) (t : Value) :
    Mirrors ρ (Scope.relabel ρ) (s.bind x y t) ((s.relabel ρ).bind x y (t.relabel ρ)) :=
  .ofRead ((s.context.bindFree_relabel ρ y t).bind fun _ ↦ rfl)

theorem judge_relabel (t : Value) (e : Term) :
    Mirrors ρ (Judgment.relabel ρ) (s.judge fuel t e)
      ((s.relabel ρ).judge fuel (t.relabel ρ) (e.relabel ρ)) :=
  (s.readBackType_relabel ρ t).bind fun _ ↦ .judgment _

theorem expect_relabel {α : Type} {f : α → α} (loc : Location) (t : Value) (what : String)
    {view : Value → Option α} (hview : ∀ v, view (v.relabel ρ) = (view v).map f) :
    Mirrors ρ f (s.expect fuel loc t what view)
      ((s.relabel ρ).expect fuel (ρ.map loc) (t.relabel ρ) what view) := by
  refine (force_relabel ρ t).bind fun v ↦ ?_
  rw [hview]
  cases view v with
  | some a => exact .pure a
  | none => exact (s.readBackType_relabel ρ t).bind fun _ ↦ .stop ..

theorem expectPi_relabel (loc : Location) (t : Value) :
    Mirrors ρ (fun p ↦ (p.1, p.2.1.relabel ρ, p.2.2.relabel ρ)) (s.expectPi fuel loc t)
      ((s.relabel ρ).expectPi fuel (ρ.map loc) (t.relabel ρ)) :=
  s.expect_relabel ρ loc t _ fun v ↦ by cases v <;> rfl

theorem expectSigma_relabel (loc : Location) (t : Value) :
    Mirrors ρ (fun p ↦ (p.1.relabel ρ, p.2.relabel ρ)) (s.expectSigma fuel loc t)
      ((s.relabel ρ).expectSigma fuel (ρ.map loc) (t.relabel ρ)) :=
  s.expect_relabel ρ loc t _ fun v ↦ by cases v <;> rfl

theorem expectList_relabel (loc : Location) (t : Value) :
    Mirrors ρ (Value.relabel ρ) (s.expectList fuel loc t)
      ((s.relabel ρ).expectList fuel (ρ.map loc) (t.relabel ρ)) := by
  refine s.expect_relabel ρ loc t _ fun v ↦ ?_
  cases v with
  | unary k a => cases k <;> rfl
  | _ => rfl

theorem expectEqual_relabel (loc : Location) (t : Value) :
    Mirrors ρ (fun p ↦ (p.1.relabel ρ, p.2.1.relabel ρ, p.2.2.relabel ρ))
      (s.expectEqual fuel loc t) ((s.relabel ρ).expectEqual fuel (ρ.map loc) (t.relabel ρ)) :=
  s.expect_relabel ρ loc t _ fun v ↦ by cases v <;> rfl

theorem expectVec_relabel (loc : Location) (t : Value) :
    Mirrors ρ (fun p ↦ (p.1.relabel ρ, p.2.relabel ρ)) (s.expectVec fuel loc t)
      ((s.relabel ρ).expectVec fuel (ρ.map loc) (t.relabel ρ)) := by
  refine s.expect_relabel ρ loc t _ fun v ↦ ?_
  cases v with
  | binary k a b => cases k <;> rfl
  | _ => rfl

theorem expectEither_relabel (loc : Location) (t : Value) :
    Mirrors ρ (fun p ↦ (p.1.relabel ρ, p.2.relabel ρ)) (s.expectEither fuel loc t)
      ((s.relabel ρ).expectEither fuel (ρ.map loc) (t.relabel ρ)) := by
  refine s.expect_relabel ρ loc t _ fun v ↦ ?_
  cases v with
  | binary k a b => cases k <;> rfl
  | _ => rfl

/-- A mistake in a length. -/
theorem stopAtLength_relabel (fuel : Nat) {α β : Type} {f : α → β} (loc : Location) (v : Value)
    (message : String) :
    Mirrors ρ f
      (s.readBack fuel (.const .nat) v >>= fun t ↦ .stop .wrongShape loc [message, t])
      ((s.relabel ρ).readBack fuel (.const .nat) (v.relabel ρ) >>= fun t ↦
        .stop .wrongShape (ρ.map loc) [message, t]) :=
  (s.readBack_relabel ρ (.const .nat) v).bind fun _ ↦ .stop ..

theorem expectAdd1_relabel (loc : Location) (v : Value) (message : String) :
    Mirrors ρ (Value.relabel ρ) (s.expectAdd1 fuel loc v message)
      ((s.relabel ρ).expectAdd1 fuel (ρ.map loc) (v.relabel ρ) message) := by
  refine (force_relabel ρ v).bind fun w ↦ ?_
  have hn := s.stopAtLength_relabel ρ fuel (f := Value.relabel ρ) loc v message
  cases w with
  | unary k a => cases k <;> first | exact hn | exact .pure a
  | _ => exact hn

theorem convert_relabel (loc : Location) (t v w : Value) :
    Mirrors ρ id (s.convert fuel loc t v w)
      ((s.relabel ρ).convert fuel (ρ.map loc) (t.relabel ρ) (v.relabel ρ) (w.relabel ρ)) := by
  refine (s.readBack_relabel ρ t v).bind fun a ↦ (s.readBack_relabel ρ t w).bind fun b ↦ ?_
  rw [Term.alphaEquiv_relabel]
  split
  · exact .pure ()
  · exact (s.readBackType_relabel ρ t).bind fun _ ↦ .stop ..

theorem sameType_relabel (loc : Location) (v w : Value) :
    Mirrors ρ id (s.sameType fuel loc v w)
      ((s.relabel ρ).sameType fuel (ρ.map loc) (v.relabel ρ) (w.relabel ρ)) := by
  refine (s.readBackType_relabel ρ v).bind fun a ↦ (s.readBackType_relabel ρ w).bind fun b ↦ ?_
  rw [Term.alphaEquiv_relabel]
  split
  · exact .pure ()
  · exact .stop ..

end Scope

/-- The binding site at another location. -/
def Site.relabel (ρ : Relabelling) (site : Site) : Site := ⟨ρ.map site.loc, site.name⟩

theorem Site.checkName_relabel (ρ : Relabelling) (site : Site) :
    Mirrors ρ id (Scope.checkName site) (Scope.checkName (site.relabel ρ)) := by
  rw [Scope.checkName, Scope.checkName]
  change Mirrors ρ id _ (if isVariableName site.name then _ else _)
  split
  · exact .pure ()
  · exact .stop ..

/-! ## Rules -/

/-- The second elaborator does what the first one does, with other locations. -/
structure Elaborator.Relabels (ρ : Relabelling) (E E' : Elaborator) : Prop where
  loc : E'.loc = ρ.map E.loc
  synth : ∀ s, Mirrors ρ (Judgment.relabel ρ) (E.synth s) (E'.synth (s.relabel ρ))
  check : ∀ s t, Mirrors ρ (Term.relabel ρ) (E.check s t) (E'.check (s.relabel ρ) (t.relabel ρ))
  isType : ∀ s, Mirrors ρ (Term.relabel ρ) (E.isType s) (E'.isType (s.relabel ρ))

namespace Elaborator.Relabels

variable {ρ : Relabelling} {fuel : Nat} {loc : Location}

theorem ofCheck {check check' : Scope → Value → Checked Term}
    (h : ∀ s t, Mirrors ρ (Term.relabel ρ) (check s t) (check' (s.relabel ρ) (t.relabel ρ))) :
    Relabels ρ (.ofCheck loc check) (.ofCheck (ρ.map loc) check') where
  loc := rfl
  synth _ := .stop ..
  check := h
  isType s := h s (.const .univ)

theorem checkSynth {synth synth' : Scope → Checked Judgment} {s : Scope}
    (h : Mirrors ρ (Judgment.relabel ρ) (synth s) (synth' (s.relabel ρ))) (t : Value) :
    Mirrors ρ (Term.relabel ρ) (Elaborator.checkSynth fuel loc synth s t)
      (Elaborator.checkSynth fuel (ρ.map loc) synth' (s.relabel ρ) (t.relabel ρ)) :=
  h.bind fun j ↦ (s.eval_relabel ρ j.type).bind fun v ↦
    (s.sameType_relabel ρ loc v t).bind fun _ ↦ .pure j.term

theorem ofSynth {synth synth' : Scope → Checked Judgment}
    (h : ∀ s, Mirrors ρ (Judgment.relabel ρ) (synth s) (synth' (s.relabel ρ))) :
    Relabels ρ (.ofSynth fuel loc synth) (.ofSynth fuel (ρ.map loc) synth') where
  loc := rfl
  synth := h
  check s t := checkSynth (h s) t
  isType s := checkSynth (h s) (.const .univ)

theorem ofFormer {former former' : Bool → Scope → Checked Term}
    (h : ∀ inU s, Mirrors ρ (Term.relabel ρ) (former inU s) (former' inU (s.relabel ρ))) :
    Relabels ρ (.ofFormer fuel loc former) (.ofFormer fuel (ρ.map loc) former') where
  loc := rfl
  synth s := (h true s).bind fun _ ↦ .judgment _
  check s t := checkSynth ((h true s).bind fun _ ↦ .judgment _) t
  isType := h false

theorem component {E E' : Elaborator} (h : E.Relabels ρ E') (inU : Bool) (s : Scope) :
    Mirrors ρ (Term.relabel ρ) (E.component inU s) (E'.component inU (s.relabel ρ)) := by
  cases inU with
  | true => exact h.check s (.const .univ)
  | false => exact h.isType s

end Elaborator.Relabels

namespace Rule

open Elaborator.Relabels

variable {ρ : Relabelling} {fuel : Nat} (loc : Location)
  {A A' B B' C C' D D' E E' : Elaborator}

theorem relabels_missing : (Elaborator.missing fuel).Relabels ρ (.missing fuel) := by
  have h : (Elaborator.missing fuel).Relabels ρ
      (.ofSynth fuel (ρ.map {}) fun _ ↦ Elaborator.cannotSynth (ρ.map {})) :=
    ofSynth fun _ ↦ .stop ..
  rwa [ρ.origin] at h

/-! ### Variables, annotations and unfinished expressions -/

theorem relabels_var (x : String) : (var fuel loc x).Relabels ρ (var fuel (ρ.map loc) x) := by
  refine ofSynth fun s ↦ ?_
  by_cases hc : s.names.captures x
  · simp only [Scope.relabel, hc, if_true]
    exact .stop ..
  · simp only [Scope.relabel, hc, Bool.false_eq_true, if_false, Context.typeOf?_relabel]
    cases s.context.typeOf? (s.names.rename x) with
    | some t => exact s.judge_relabel ρ t (.var (s.names.rename x))
    | none => rfl

theorem relabels_the (hA : A.Relabels ρ A') (hE : E.Relabels ρ E') :
    (the fuel loc A E).Relabels ρ (the fuel (ρ.map loc) A' E') :=
  ofSynth fun s ↦ (hA.isType s).bind fun t ↦ (s.eval_relabel ρ t).bind fun v ↦
    (hE.check s v).bind fun e ↦ s.judge_relabel ρ v e

theorem relabels_hole : (hole fuel loc).Relabels ρ (hole fuel (ρ.map loc)) :=
  ofCheck fun s t ↦ (s.readBackType_relabel ρ t).bind fun _ ↦
    (Mirrors.note ..).bind fun _ ↦ .term _

/-! ### Functions -/

theorem lambdaFrom_relabel (hE : E.Relabels ρ E') (xs : List Site) (s : Scope) (t : Value) :
    Mirrors ρ (Term.relabel ρ) (lambdaFrom fuel E xs s t)
      (lambdaFrom fuel E' (xs.map (Site.relabel ρ)) (s.relabel ρ) (t.relabel ρ)) := by
  induction xs generalizing s t with
  | nil => exact hE.check s t
  | cons site xs ih =>
    refine (site.checkName_relabel ρ).bind fun _ ↦ (s.expectPi_relabel ρ site.loc t).bind fun p ↦ ?_
    have hx : (s.relabel ρ).context.fresh site.name = s.context.fresh site.name :=
      Context.fresh_relabel ρ _ _
    simp only [Site.relabel, hx]
    refine (s.bind_relabel ρ site.name _ p.2.1).bind fun s' ↦ ?_
    refine (Scope.enter_relabel ρ p.2.2 (.ofVar _ p.2.1)).bind fun T ↦ ?_
    exact (ih s' T).bind fun _ ↦ .term _

theorem relabels_lambda (xs : List Site) (hE : E.Relabels ρ E') :
    (lambda fuel loc xs E).Relabels ρ (lambda fuel (ρ.map loc) (xs.map (Site.relabel ρ)) E') := by
  refine ofCheck fun s t ↦ ?_
  cases xs with
  | nil => exact .stop ..
  | cons x xs => exact lambdaFrom_relabel hE (x :: xs) s t

theorem appFrom_relabel {Es Es' : List Elaborator}
    (h : List.Forall₂ (Elaborator.Relabels ρ) Es Es') (s : Scope) (j : Judgment) :
    Mirrors ρ (Judgment.relabel ρ) (appFrom fuel s Es j)
      (appFrom fuel (s.relabel ρ) Es' (j.relabel ρ)) := by
  induction h generalizing j with
  | nil => exact .pure j
  | cons hE _ ih =>
    rw [appFrom, appFrom, hE.loc]
    refine (s.eval_relabel ρ j.type).bind fun T ↦ (s.expectPi_relabel ρ _ T).bind fun p ↦ ?_
    refine (hE.check s p.2.1).bind fun a ↦ (s.eval_relabel ρ a).bind fun v ↦ ?_
    refine (Scope.enter_relabel ρ p.2.2 v).bind fun R ↦ (s.readBackType_relabel ρ R).bind fun t ↦ ?_
    exact ih ⟨t, .app j.term a⟩

theorem relabels_app (hE : E.Relabels ρ E') {Es Es' : List Elaborator}
    (h : List.Forall₂ (Elaborator.Relabels ρ) Es Es') :
    (app fuel loc E Es).Relabels ρ (app fuel (ρ.map loc) E' Es') := by
  refine ofSynth fun s ↦ ?_
  cases h with
  | nil => exact .stop ..
  | cons hA h => exact (hE.synth s).bind fun j ↦ appFrom_relabel (.cons hA h) s j

theorem arrowFrom_relabel (inU : Bool) (s : Scope) (hA : A.Relabels ρ A') {Es Es' : List Elaborator}
    (h : List.Forall₂ (Elaborator.Relabels ρ) Es Es') :
    Mirrors ρ (Term.relabel ρ) (arrowFrom inU s A Es) (arrowFrom inU (s.relabel ρ) A' Es') := by
  induction h generalizing A A' with
  | nil => exact hA.component inU s
  | cons hB _ ih =>
    refine (hA.component inU s).bind fun a ↦ (ih hB).bind fun b ↦ ?_
    have hx : (s.relabel ρ).context.freshBinder (b.relabel ρ) "x" = s.context.freshBinder b "x" :=
      Context.freshBinder_relabel ρ _ _ _
    rw [hx]
    exact .term _

theorem relabels_arrow {Es Es' : List Elaborator}
    (h : List.Forall₂ (Elaborator.Relabels ρ) Es Es') :
    (arrow fuel loc Es).Relabels ρ (arrow fuel (ρ.map loc) Es') := by
  refine ofFormer fun inU s ↦ ?_
  cases h with
  | nil => exact .stop ..
  | cons hA h =>
    cases h with
    | nil => exact .stop ..
    | cons hB h => exact arrowFrom_relabel inU s hA (.cons hB h)

/-- Binders with other locations. -/
def RelabelBinders (ρ : Relabelling) (bs bs' : List (Site × Elaborator)) : Prop :=
  List.Forall₂ (fun b b' ↦ b'.1 = b.1.relabel ρ ∧ b.2.Relabels ρ b'.2) bs bs'

section Binders

variable {bs bs' : List (Site × Elaborator)} (h : RelabelBinders ρ bs bs')
  (hE : E.Relabels ρ E')

include h hE

variable (fuel) in
theorem bindersFrom_relabel (inU : Bool) (build : String → Term → Term → Term)
    (hbuild : ∀ x a b, (build x a b).relabel ρ = build x (a.relabel ρ) (b.relabel ρ)) (s : Scope) :
    Mirrors ρ (Term.relabel ρ) (bindersFrom fuel inU build E bs s)
      (bindersFrom fuel inU build E' bs' (s.relabel ρ)) := by
  induction h generalizing s with
  | nil => exact hE.component inU s
  | @cons b b' _ _ hb _ ih =>
    obtain ⟨site, A⟩ := b
    obtain ⟨site', A'⟩ := b'
    obtain ⟨rfl, hA⟩ : site' = site.relabel ρ ∧ A.Relabels ρ A' := hb
    refine (site.checkName_relabel ρ).bind fun _ ↦ (hA.component inU s).bind fun a ↦ ?_
    refine (s.eval_relabel ρ a).bind fun v ↦ ?_
    have hx : (s.relabel ρ).context.fresh site.name = s.context.fresh site.name :=
      Context.fresh_relabel ρ _ _
    simp only [Site.relabel, hx]
    refine (s.bind_relabel ρ site.name _ v).bind fun s' ↦ (ih s').bind fun b ↦ ?_
    rw [← hbuild]
    exact .term _

theorem relabels_pi : (pi fuel loc bs E).Relabels ρ (pi fuel (ρ.map loc) bs' E') := by
  refine ofFormer fun inU s ↦ ?_
  have := bindersFrom_relabel fuel h hE inU .pi (fun _ _ _ ↦ rfl) s
  cases h with
  | nil => exact .stop ..
  | cons => exact this

theorem relabels_sigma : (sigma fuel loc bs E).Relabels ρ (sigma fuel (ρ.map loc) bs' E') := by
  refine ofFormer fun inU s ↦ ?_
  have := bindersFrom_relabel fuel h hE inU .sigma (fun _ _ _ ↦ rfl) s
  cases h with
  | nil => exact .stop ..
  | cons => exact this

end Binders

/-! ### Pairs -/

theorem relabels_pair (hA : A.Relabels ρ A') (hB : B.Relabels ρ B') :
    (pair fuel loc A B).Relabels ρ (pair fuel (ρ.map loc) A' B') := by
  refine ofFormer fun inU s ↦ (hA.component inU s).bind fun a ↦ (hB.component inU s).bind fun d ↦ ?_
  have hx : (s.relabel ρ).context.freshBinder (d.relabel ρ) "x" = s.context.freshBinder d "x" :=
    Context.freshBinder_relabel ρ _ _ _
  rw [hx]
  exact .term _

theorem relabels_cons (hA : A.Relabels ρ A') (hB : B.Relabels ρ B') :
    (cons fuel loc A B).Relabels ρ (cons fuel (ρ.map loc) A' B') := by
  refine ofCheck fun s t ↦ (s.expectSigma_relabel ρ loc t).bind fun p ↦ ?_
  refine (hA.check s p.1).bind fun a ↦ (s.eval_relabel ρ a).bind fun v ↦ ?_
  refine (Scope.enter_relabel ρ p.2 v).bind fun T ↦ (hB.check s T).bind fun _ ↦ ?_
  exact .term _

theorem relabels_car (hE : E.Relabels ρ E') :
    (car fuel loc E).Relabels ρ (car fuel (ρ.map loc) E') :=
  ofSynth fun s ↦ (hE.synth s).bind fun j ↦ (s.eval_relabel ρ j.type).bind fun T ↦
    (s.expectSigma_relabel ρ loc T).bind fun p ↦ s.judge_relabel ρ p.1 _

theorem relabels_cdr (hE : E.Relabels ρ E') :
    (cdr fuel loc E).Relabels ρ (cdr fuel (ρ.map loc) E') := by
  refine ofSynth fun s ↦ (hE.synth s).bind fun j ↦ (s.eval_relabel ρ j.type).bind fun T ↦ ?_
  refine (s.expectSigma_relabel ρ loc T).bind fun p ↦ (s.eval_relabel ρ j.term).bind fun v ↦ ?_
  refine (Mirrors.ofEval ((machine_relabels ρ fuel).doProject _ .car v)).bind fun a ↦ ?_
  exact (Scope.enter_relabel ρ p.2 a).bind fun R ↦ s.judge_relabel ρ R _

/-! ### Constants -/

theorem relabels_vecnil : (vecnil fuel loc).Relabels ρ (vecnil fuel (ρ.map loc)) := by
  refine ofCheck fun s t ↦ (s.expectVec_relabel ρ loc t).bind fun p ↦ ?_
  refine (Scope.force_relabel ρ p.2).bind fun v ↦ ?_
  have hn := s.stopAtLength_relabel ρ fuel (f := Term.relabel ρ) loc p.2
    "vecnil requires length zero, but the length is"
  cases v with
  | const k => cases k <;> first | exact hn | exact .term _
  | _ => exact hn

theorem relabels_univ : (univ fuel loc).Relabels ρ (univ fuel (ρ.map loc)) := by
  refine ofFormer fun inU s ↦ ?_
  cases inU with
  | true => exact .stop ..
  | false => exact .term _

theorem relabels_plainType (k : Const) :
    (plainType fuel loc k).Relabels ρ (plainType fuel (ρ.map loc) k) :=
  ofFormer fun _ _ ↦ .term _

theorem relabels_plainValue (k : Const) {t : Term} (ht : t.relabel ρ = t) :
    (plainValue fuel loc k t).Relabels ρ (plainValue fuel (ρ.map loc) k t) :=
  ofSynth fun _ ↦ congrArg (fun t ↦ Except.ok (Judgment.mk (.const k) t)) ht.symm

theorem relabels_nil : (nil fuel loc).Relabels ρ (nil fuel (ρ.map loc)) :=
  ofCheck fun s t ↦ (s.expectList_relabel ρ loc t).bind fun _ ↦ .term _

theorem relabels_const (k : Const) : (const fuel loc k).Relabels ρ (const fuel (ρ.map loc) k) := by
  cases k with
  | univ => exact relabels_univ loc
  | nil => exact relabels_nil loc
  | vecnil => exact relabels_vecnil loc
  | nat | atom | trivial | absurd => exact relabels_plainType loc _
  | zero | sole => exact relabels_plainValue loc _ rfl

theorem relabels_quote (sym : String) :
    (quote fuel loc sym).Relabels ρ (quote fuel (ρ.map loc) sym) := by
  refine ofSynth fun _ ↦ ?_
  split
  · exact .judgment _
  · exact .stop ..

/-! ### Constructors -/

theorem relabels_list (hE : E.Relabels ρ E') :
    (list fuel loc E).Relabels ρ (list fuel (ρ.map loc) E') :=
  ofFormer fun inU s ↦ (hE.component inU s).bind fun _ ↦ .term _

theorem relabels_same (hE : E.Relabels ρ E') :
    (same fuel loc E).Relabels ρ (same fuel (ρ.map loc) E') := by
  refine ofCheck fun s t ↦ (s.expectEqual_relabel ρ loc t).bind fun p ↦ ?_
  refine (hE.check s p.1).bind fun e ↦ (s.eval_relabel ρ e).bind fun v ↦ ?_
  refine (s.convert_relabel ρ loc p.1 p.2.1 v).bind fun _ ↦ ?_
  exact (s.convert_relabel ρ loc p.1 p.2.2 v).bind fun _ ↦ .term _

theorem relabels_unary (k : Unary) (hE : E.Relabels ρ E') :
    (unary fuel loc k E).Relabels ρ (unary fuel (ρ.map loc) k E') := by
  cases k with
  | add1 =>
    exact ofSynth fun s ↦ (hE.check s (.const .nat)).bind fun _ ↦
      .judgment _
  | list => exact relabels_list loc hE
  | same => exact relabels_same loc hE
  | left =>
    exact ofCheck fun s t ↦ (s.expectEither_relabel ρ loc t).bind fun p ↦
      (hE.check s p.1).bind fun _ ↦ .term _
  | right =>
    exact ofCheck fun s t ↦ (s.expectEither_relabel ρ loc t).bind fun p ↦
      (hE.check s p.2).bind fun _ ↦ .term _

theorem relabels_listCons (hA : A.Relabels ρ A') (hB : B.Relabels ρ B') :
    (listCons fuel loc A B).Relabels ρ (listCons fuel (ρ.map loc) A' B') :=
  ofSynth fun s ↦ (hA.synth s).bind fun j ↦ (s.eval_relabel ρ j.type).bind fun T ↦
    (hB.check s (.unary .list T)).bind fun _ ↦ s.judge_relabel ρ (.unary .list T) _

theorem relabels_vec (hA : A.Relabels ρ A') (hB : B.Relabels ρ B') :
    (vec fuel loc A B).Relabels ρ (vec fuel (ρ.map loc) A' B') :=
  ofFormer fun inU s ↦ (hA.component inU s).bind fun _ ↦
    (hB.check s (.const .nat)).bind fun _ ↦ .term _

theorem relabels_vecCons (hA : A.Relabels ρ A') (hB : B.Relabels ρ B') :
    (vecCons fuel loc A B).Relabels ρ (vecCons fuel (ρ.map loc) A' B') := by
  refine ofCheck fun s t ↦ (s.expectVec_relabel ρ loc t).bind fun p ↦ ?_
  refine (s.expectAdd1_relabel ρ loc p.2 _).bind fun k ↦ (hA.check s p.1).bind fun _ ↦ ?_
  exact (hB.check s (.binary .vec p.1 k)).bind fun _ ↦ .term _

theorem relabels_either (hA : A.Relabels ρ A') (hB : B.Relabels ρ B') :
    (either fuel loc A B).Relabels ρ (either fuel (ρ.map loc) A' B') :=
  ofFormer fun inU s ↦ (hA.component inU s).bind fun _ ↦
    (hB.component inU s).bind fun _ ↦ .term _

theorem relabels_binary (k : Binary) (hA : A.Relabels ρ A') (hB : B.Relabels ρ B') :
    (binary fuel loc k A B).Relabels ρ (binary fuel (ρ.map loc) k A' B') := by
  cases k with
  | cons => exact relabels_cons loc hA hB
  | listCons => exact relabels_listCons loc hA hB
  | vec => exact relabels_vec loc hA hB
  | vecCons => exact relabels_vecCons loc hA hB
  | either => exact relabels_either loc hA hB

theorem relabels_equal (hA : A.Relabels ρ A') (hB : B.Relabels ρ B') (hC : C.Relabels ρ C') :
    (equal fuel loc A B C).Relabels ρ (equal fuel (ρ.map loc) A' B' C') :=
  ofFormer fun inU s ↦ (hA.component inU s).bind fun t ↦ (s.eval_relabel ρ t).bind fun T ↦
    (hB.check s T).bind fun _ ↦ (hC.check s T).bind fun _ ↦ .term _

/-! ### Numbers and lists -/

theorem relabels_natRecursor (k : Recursor) {stepType : Value → Value}
    (hstep : ∀ T : Value, (stepType T).relabel ρ = stepType (T.relabel ρ))
    (hA : A.Relabels ρ A') (hB : B.Relabels ρ B') (hC : C.Relabels ρ C') :
    (natRecursor fuel loc k stepType A B C).Relabels ρ
      (natRecursor fuel (ρ.map loc) k stepType A' B' C') := by
  refine ofSynth fun s ↦ (hA.check s (.const .nat)).bind fun t ↦ (hB.synth s).bind fun b ↦ ?_
  refine (s.eval_relabel ρ b.type).bind fun T ↦ ?_
  rw [← hstep]
  exact (hC.check s (stepType T)).bind fun _ ↦ .judgment _

theorem relabels_recList (hA : A.Relabels ρ A') (hB : B.Relabels ρ B') (hC : C.Relabels ρ C') :
    (recList fuel loc A B C).Relabels ρ (recList fuel (ρ.map loc) A' B' C') := by
  refine ofSynth fun s ↦ (hA.synth s).bind fun t ↦ (s.eval_relabel ρ t.type).bind fun T ↦ ?_
  rw [hA.loc]
  refine (s.expectList_relabel ρ _ T).bind fun e ↦ (hB.synth s).bind fun b ↦ ?_
  refine (s.eval_relabel ρ b.type).bind fun R ↦ (hC.check s (.recListStep e R)).bind fun _ ↦ ?_
  exact .judgment _

theorem relabels_recursor (k : Recursor) (hA : A.Relabels ρ A') (hB : B.Relabels ρ B')
    (hC : C.Relabels ρ C') :
    (recursor fuel loc k A B C).Relabels ρ (recursor fuel (ρ.map loc) k A' B' C') := by
  cases k with
  | whichNat | iterNat | recNat => exact relabels_natRecursor loc _ (fun _ ↦ rfl) hA hB hC
  | recList => exact relabels_recList loc hA hB hC

theorem relabels_indNat (hA : A.Relabels ρ A') (hB : B.Relabels ρ B') (hC : C.Relabels ρ C')
    (hD : D.Relabels ρ D') :
    (indNat fuel loc A B C D).Relabels ρ (indNat fuel (ρ.map loc) A' B' C' D') := by
  refine ofSynth fun s ↦ (hA.check s (.const .nat)).bind fun t ↦ ?_
  refine (hB.check s .indNatMotive).bind fun mot ↦ (s.eval_relabel ρ mot).bind fun M ↦ ?_
  refine (Scope.apply_relabel ρ M (.const .zero)).bind fun T ↦ (hC.check s T).bind fun b ↦ ?_
  refine (hD.check s (.indNatStep M)).bind fun st ↦ (s.eval_relabel ρ t).bind fun v ↦ ?_
  exact (Scope.apply_relabel ρ M v).bind fun R ↦ s.judge_relabel ρ R _

theorem relabels_indList (hA : A.Relabels ρ A') (hB : B.Relabels ρ B') (hC : C.Relabels ρ C')
    (hD : D.Relabels ρ D') :
    (indList fuel loc A B C D).Relabels ρ (indList fuel (ρ.map loc) A' B' C' D') := by
  refine ofSynth fun s ↦ (hA.synth s).bind fun t ↦ (s.eval_relabel ρ t.type).bind fun T ↦ ?_
  rw [hA.loc]
  refine (s.expectList_relabel ρ _ T).bind fun e ↦ (hB.check s (.indListMotive e)).bind fun mot ↦ ?_
  refine (s.eval_relabel ρ mot).bind fun M ↦ ?_
  refine (Scope.apply_relabel ρ M (.const .nil)).bind fun T ↦ (hC.check s T).bind fun b ↦ ?_
  refine (hD.check s (.indListStep e M)).bind fun st ↦ (s.eval_relabel ρ t.term).bind fun v ↦ ?_
  exact (Scope.apply_relabel ρ M v).bind fun R ↦ s.judge_relabel ρ R _

/-! ### Sums and the empty type -/

theorem relabels_indEither (hA : A.Relabels ρ A') (hB : B.Relabels ρ B') (hC : C.Relabels ρ C')
    (hD : D.Relabels ρ D') :
    (indEither fuel loc A B C D).Relabels ρ (indEither fuel (ρ.map loc) A' B' C' D') := by
  refine ofSynth fun s ↦ (hA.synth s).bind fun t ↦ (s.eval_relabel ρ t.type).bind fun T ↦ ?_
  rw [hA.loc]
  refine (s.expectEither_relabel ρ _ T).bind fun p ↦ ?_
  refine (hB.check s (.indEitherMotive p.1 p.2)).bind fun mot ↦ ?_
  refine (s.eval_relabel ρ mot).bind fun M ↦ ?_
  refine (hC.check s (.indEitherCase .left p.1 M)).bind fun l ↦ ?_
  refine (hD.check s (.indEitherCase .right p.2 M)).bind fun r ↦ ?_
  refine (s.eval_relabel ρ t.term).bind fun v ↦ ?_
  exact (Scope.apply_relabel ρ M v).bind fun R ↦ s.judge_relabel ρ R _

theorem relabels_induct (k : Induction) (hA : A.Relabels ρ A') (hB : B.Relabels ρ B')
    (hC : C.Relabels ρ C') (hD : D.Relabels ρ D') :
    (induct fuel loc k A B C D).Relabels ρ (induct fuel (ρ.map loc) k A' B' C' D') := by
  cases k with
  | indNat => exact relabels_indNat loc hA hB hC hD
  | indList => exact relabels_indList loc hA hB hC hD
  | indEither => exact relabels_indEither loc hA hB hC hD

theorem relabels_indAbsurd (hA : A.Relabels ρ A') (hB : B.Relabels ρ B') :
    (indAbsurd fuel loc A B).Relabels ρ (indAbsurd fuel (ρ.map loc) A' B') :=
  ofSynth fun s ↦ (hA.check s (.const .absurd)).bind fun _ ↦ (hB.isType s).bind fun _ ↦
    .judgment _

/-! ### Equalities -/

theorem synthEqual_relabel (hE : E.Relabels ρ E') (s : Scope) :
    Mirrors ρ (fun p ↦ (p.1.relabel ρ, p.2.1.relabel ρ, p.2.2.1.relabel ρ, p.2.2.2.relabel ρ))
      (synthEqual fuel E s) (synthEqual fuel E' (s.relabel ρ)) := by
  rw [synthEqual, synthEqual, hE.loc]
  exact (hE.synth s).bind fun j ↦ (s.eval_relabel ρ j.type).bind fun T ↦
    (s.expectEqual_relabel ρ _ T).bind fun p ↦ .pure (j.term, p)

theorem relabels_replace (hA : A.Relabels ρ A') (hB : B.Relabels ρ B') (hC : C.Relabels ρ C') :
    (replace fuel loc A B C).Relabels ρ (replace fuel (ρ.map loc) A' B' C') := by
  refine ofSynth fun s ↦ (synthEqual_relabel hA s).bind ?_
  rintro ⟨t, T, l, r⟩
  refine (hB.check s (.replaceMotive T)).bind fun mot ↦ (s.eval_relabel ρ mot).bind fun M ↦ ?_
  refine (Scope.apply_relabel ρ M l).bind fun R ↦ (hC.check s R).bind fun b ↦ ?_
  exact (Scope.apply_relabel ρ M r).bind fun R ↦ s.judge_relabel ρ R _

theorem relabels_indEqual (hA : A.Relabels ρ A') (hB : B.Relabels ρ B') (hC : C.Relabels ρ C') :
    (indEqual fuel loc A B C).Relabels ρ (indEqual fuel (ρ.map loc) A' B' C') := by
  refine ofSynth fun s ↦ (synthEqual_relabel hA s).bind ?_
  rintro ⟨t, T, l, r⟩
  refine (hB.check s (.indEqualMotive T l)).bind fun mot ↦ (s.eval_relabel ρ mot).bind fun M ↦ ?_
  refine (Scope.apply_relabel ρ M l).bind fun F ↦ ?_
  refine (Scope.apply_relabel ρ F (.unary .same l)).bind fun R ↦ (hC.check s R).bind fun b ↦ ?_
  refine (Scope.apply_relabel ρ M r).bind fun F ↦ (s.eval_relabel ρ t).bind fun v ↦ ?_
  exact (Scope.apply_relabel ρ F v).bind fun R ↦ s.judge_relabel ρ R _

theorem relabels_transport (k : Transport) (hA : A.Relabels ρ A') (hB : B.Relabels ρ B')
    (hC : C.Relabels ρ C') :
    (transport fuel loc k A B C).Relabels ρ (transport fuel (ρ.map loc) k A' B' C') := by
  cases k with
  | replace => exact relabels_replace loc hA hB hC
  | indEqual => exact relabels_indEqual loc hA hB hC

theorem relabels_trans (hA : A.Relabels ρ A') (hB : B.Relabels ρ B') :
    (trans fuel loc A B).Relabels ρ (trans fuel (ρ.map loc) A' B') := by
  refine ofSynth fun s ↦ (synthEqual_relabel hA s).bind ?_
  rintro ⟨l, T, a, b⟩
  refine (synthEqual_relabel hB s).bind ?_
  rintro ⟨r, T', b', c⟩
  refine (s.sameType_relabel ρ loc T' T).bind fun _ ↦ ?_
  exact (s.convert_relabel ρ loc T b b').bind fun _ ↦ s.judge_relabel ρ (.equal T a c) _

theorem relabels_cong (hA : A.Relabels ρ A') (hB : B.Relabels ρ B') :
    (cong fuel loc A B).Relabels ρ (cong fuel (ρ.map loc) A' B') := by
  refine ofSynth fun s ↦ (synthEqual_relabel hA s).bind ?_
  rintro ⟨t, T, l, r⟩
  refine (hB.synth s).bind fun j ↦ (s.eval_relabel ρ j.type).bind fun F ↦ ?_
  rw [hB.loc]
  refine (s.expectPi_relabel ρ _ F).bind ?_
  rintro ⟨x, d, c⟩
  have hx : (s.relabel ρ).context.fresh x = s.context.fresh x := Context.fresh_relabel ρ _ _
  simp only [hx]
  refine (s.sameType_relabel ρ loc T d).bind fun _ ↦ ?_
  refine (Mirrors.ofRead (s.context.bindFree_relabel ρ _ d)).bind fun Γ ↦ ?_
  refine (Scope.enter_relabel ρ c (.ofVar _ d)).bind fun R ↦ ?_
  refine (Mirrors.ofRead ((reader_relabels ρ fuel).type Γ R)).bind fun C ↦ ?_
  rw [Term.names_relabel]
  split
  · exact .stop ..
  · refine (s.eval_relabel ρ j.term).bind fun f ↦ (s.eval_relabel ρ C).bind fun cv ↦ ?_
    refine (Scope.apply_relabel ρ f l).bind fun l' ↦ (Scope.apply_relabel ρ f r).bind fun r' ↦ ?_
    exact s.judge_relabel ρ (.equal cv l' r') _

/-! ### Vectors -/

theorem synthNonEmpty_relabel (hE : E.Relabels ρ E') (s : Scope) :
    Mirrors ρ (fun p ↦ (p.1.relabel ρ, p.2.1.relabel ρ, p.2.2.relabel ρ))
      (synthNonEmpty fuel E s) (synthNonEmpty fuel E' (s.relabel ρ)) := by
  rw [synthNonEmpty, synthNonEmpty, hE.loc]
  exact (hE.synth s).bind fun j ↦ (s.eval_relabel ρ j.type).bind fun T ↦
    (s.expectVec_relabel ρ _ T).bind fun p ↦ (s.expectAdd1_relabel ρ _ p.2 _).bind fun k ↦
      .pure (j.term, p.1, k)

theorem relabels_project (k : Projection) (hE : E.Relabels ρ E') :
    (project fuel loc k E).Relabels ρ (project fuel (ρ.map loc) k E') := by
  cases k with
  | car => exact relabels_car loc hE
  | cdr => exact relabels_cdr loc hE
  | symm =>
    exact ofSynth fun s ↦ (synthEqual_relabel hE s).bind fun p ↦
      s.judge_relabel ρ (.equal p.2.1 p.2.2.2 p.2.2.1) _
  | head =>
    exact ofSynth fun s ↦ (synthNonEmpty_relabel hE s).bind fun p ↦ s.judge_relabel ρ p.2.1 _
  | tail =>
    exact ofSynth fun s ↦ (synthNonEmpty_relabel hE s).bind fun p ↦
      s.judge_relabel ρ (.binary .vec p.2.1 p.2.2) _

theorem relabels_indVec (hA : A.Relabels ρ A') (hB : B.Relabels ρ B') (hC : C.Relabels ρ C')
    (hD : D.Relabels ρ D') (hE : E.Relabels ρ E') :
    (indVec fuel loc A B C D E).Relabels ρ (indVec fuel (ρ.map loc) A' B' C' D' E') := by
  refine ofSynth fun s ↦ (hA.check s (.const .nat)).bind fun n ↦ (hB.synth s).bind fun t ↦ ?_
  rw [hA.loc, hB.loc]
  refine (s.eval_relabel ρ t.type).bind fun T ↦ (s.expectVec_relabel ρ _ T).bind fun p ↦ ?_
  refine (s.eval_relabel ρ n).bind fun nv ↦ ?_
  refine (s.convert_relabel ρ _ (.const .nat) nv p.2).bind fun _ ↦ ?_
  refine (hC.check s (.indVecMotive p.1)).bind fun mot ↦ (s.eval_relabel ρ mot).bind fun M ↦ ?_
  refine (Scope.apply_relabel ρ M (.const .zero)).bind fun F ↦ ?_
  refine (Scope.apply_relabel ρ F (.const .vecnil)).bind fun R ↦ (hD.check s R).bind fun b ↦ ?_
  refine (hE.check s (.indVecStep p.1 M)).bind fun st ↦ (Scope.apply_relabel ρ M nv).bind fun F ↦ ?_
  refine (s.eval_relabel ρ t.term).bind fun v ↦ ?_
  exact (Scope.apply_relabel ρ F v).bind fun R ↦ s.judge_relabel ρ R _

end Rule

end LittleTypes
