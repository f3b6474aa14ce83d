import LittleTypes.Proofs.Name.Rebinding
import LittleTypes.Typing.Elaborate

/-!
# Mistakes in expressions

What elaboration can complain about.  It knows nothing of declarations, and the only names it finds
fault with are those of binders and of atoms; so its mistakes can be told from the refusals of a
session.  Faults of evaluation are passed on, but elaboration adds none of its own: every name it
binds is made up in the context it is bound in, so no name is bound twice.
-/

namespace LittleTypes

/-- A mistake that an expression can have. -/
def Stop.InExpression (s : Stop) : Prop :=
  s.code ≠ .declaration ∧ (s.code = .badName →
    (∃ x, s.message = [.text ("Expected a variable name but found \"" ++ x ++ "\"")]) ∨
      ∃ x, s.message = [.text "Atoms may contain only letters and hyphens, but found", .text x])

/-- For most kinds of mistakes the message does not matter. -/
theorem Stop.inExpression_of_code {s : Stop} (h : s.code ≠ .declaration) (h' : s.code ≠ .badName) :
    s.InExpression := ⟨h, fun e ↦ absurd e h'⟩

/-- A failure that elaboration can end in: a mistake in an expression, or a fault, but not that a
name would be bound twice. -/
def Failure.InExpression : Failure → Prop
  | .stop s => s.InExpression
  | .fault f => f.BindsOnce

namespace Checked

variable {α β : Type}

/-- All failures of a check are failures that elaboration can end in. -/
def InExpression (x : Checked α) : Prop := ∀ e, x.outcome = .error e → e.InExpression

@[simp] theorem inExpression_pure (a : α) : (pure a : Checked α).InExpression := nofun

@[simp] theorem inExpression_tell (r : Record) : (tell r).InExpression := nofun

@[simp] theorem inExpression_note (level : Level) (message : String) (attributes : List Attribute) :
    (note level message attributes).InExpression := nofun

theorem inExpression_ofRead {x : Except Fault α} (h : BindsOnce x) : (ofRead x).InExpression := by
  cases x with
  | ok a => exact nofun
  | error f =>
    rintro _ ⟨⟩
    exact h f rfl

@[simp] theorem inExpression_ofEval (x : Except EvalFault α) : (ofEval x).InExpression :=
  inExpression_ofRead (.lift x)

@[simp] theorem inExpression_fail (s : Stop) :
    (fail (.stop s) : Checked α).InExpression ↔ s.InExpression := by
  simp [InExpression, Failure.InExpression, fail]

@[simp] theorem inExpression_bind (x : Checked α) (f : α → Checked β) :
    (x >>= f).InExpression ↔
      x.InExpression ∧ ∀ a, x.outcome = .ok a → (f a).InExpression := by
  simp only [InExpression, outcome_bind]
  cases x.outcome <;> simp [Except.bind]

@[simp] theorem inExpression_map (f : α → β) (x : Checked α) :
    (f <$> x).InExpression ↔ x.InExpression := by
  rw [map_eq_pure_bind, inExpression_bind]
  exact and_iff_left fun _ _ ↦ inExpression_pure _

@[simp] theorem inExpression_stop (code : Code) (loc : Location) (message : List Part) :
    (stop code loc message : Checked α).InExpression ↔ Stop.InExpression ⟨code, loc, message⟩ := by
  simp [stop, InExpression, Failure.InExpression, fail, note, tell, Except.bind]

/-- A mistake whose message does not matter. -/
theorem inExpression_of_code {code : Code} (h : code ≠ .declaration) (h' : code ≠ .badName)
    (loc : Location) (message : List Part) :
    (stop code loc message : Checked α).InExpression :=
  (inExpression_stop code loc message).2 (Stop.inExpression_of_code h h')

end Checked

open Checked

/-! ## Scopes -/

namespace Scope

variable (fuel : Nat) (s : Scope) (loc : Location) (type v w : Value)

@[simp] theorem inExpression_eval (t : Term) : (s.eval fuel t).InExpression :=
  inExpression_ofEval _

@[simp] theorem inExpression_readBack : (s.readBack fuel type v).InExpression :=
  inExpression_ofRead (reader_careful fuel _ _)

@[simp] theorem inExpression_readBackType : (s.readBackType fuel v).InExpression :=
  inExpression_ofRead (reader_careful fuel _ _)

@[simp] theorem inExpression_force : (force v).InExpression := inExpression_ofEval _

@[simp] theorem inExpression_apply : (apply fuel v w).InExpression := inExpression_ofEval _

@[simp] theorem inExpression_enter (c : Closure) : (enter fuel c v).InExpression :=
  inExpression_ofEval _

/-- A name that was made up in a scope can be bound there. -/
@[simp] theorem inExpression_bind_fresh (x y : String) :
    (s.bind x (s.context.fresh y) type).InExpression :=
  inExpression_ofRead ((BindsOnce.bindFree_fresh s.context y type).bind fun _ ↦ .pure _)

@[simp] theorem inExpression_judge (t : Term) : (s.judge fuel type t).InExpression := by
  simp [judge]

@[simp] theorem inExpression_expect {α : Type} (what : String) (view : Value → Option α) :
    (s.expect fuel loc type what view).InExpression := by
  refine (inExpression_bind _ _).2 ⟨inExpression_force _, fun u _ ↦ ?_⟩
  split
  · exact inExpression_pure _
  · simp [Stop.InExpression]

@[simp] theorem inExpression_expectAdd1 (message : String) :
    (s.expectAdd1 fuel loc v message).InExpression := by
  refine (inExpression_bind _ _).2 ⟨inExpression_force _, fun u _ ↦ ?_⟩
  split
  · exact inExpression_pure _
  · simp [Stop.InExpression]

@[simp] theorem inExpression_convert : (s.convert fuel loc type v w).InExpression := by
  simp only [convert, inExpression_bind, inExpression_readBack, true_and]
  intro t _ u _
  split
  · exact inExpression_pure _
  · simp [Stop.InExpression]

@[simp] theorem inExpression_sameType : (s.sameType fuel loc v w).InExpression := by
  simp only [sameType, inExpression_bind, inExpression_readBackType, true_and]
  intro t _ u _
  split
  · exact inExpression_pure _
  · simp [Stop.InExpression]

@[simp] theorem inExpression_checkName (site : Site) : (checkName site).InExpression := by
  unfold checkName
  split
  · exact inExpression_pure _
  · exact (inExpression_stop _ _ _).2 ⟨nofun, fun _ ↦ .inl ⟨_, rfl⟩⟩

end Scope

/-! ## Rules -/

/-- All failures of an elaborator are failures that elaboration can end in. -/
structure Elaborator.InExpression (e : Elaborator) : Prop where
  synth : ∀ s, (e.synth s).InExpression
  check : ∀ s type, (e.check s type).InExpression
  isType : ∀ s, (e.isType s).InExpression

namespace Elaborator.InExpression

variable {fuel : Nat} {loc : Location}

theorem checkSynth {synth : Scope → Checked Judgment} (h : ∀ s, (synth s).InExpression) (s : Scope)
    (type : Value) : (Elaborator.checkSynth fuel loc synth s type).InExpression := by
  simp [Elaborator.checkSynth, h]

theorem ofCheck {check : Scope → Value → Checked Term} (h : ∀ s type, (check s type).InExpression) :
    (Elaborator.ofCheck loc check).InExpression where
  synth _ := inExpression_of_code (by decide) (by decide) _ _
  check := h
  isType s := h s _

theorem ofSynth {synth : Scope → Checked Judgment} (h : ∀ s, (synth s).InExpression) :
    (Elaborator.ofSynth fuel loc synth).InExpression where
  synth := h
  check := checkSynth h
  isType s := checkSynth h s _

theorem ofFormer {former : Bool → Scope → Checked Term}
    (h : ∀ inU s, (former inU s).InExpression) :
    (Elaborator.ofFormer fuel loc former).InExpression where
  synth s := by simp [Elaborator.ofFormer, h]
  check := checkSynth fun s ↦ by simp [h]
  isType := h false

theorem component {e : Elaborator} (h : e.InExpression) (inU : Bool) (s : Scope) :
    (e.component inU s).InExpression := by
  cases inU with
  | true => exact h.check s _
  | false => exact h.isType s

end Elaborator.InExpression

namespace Rule

open Elaborator.InExpression Scope

variable {fuel : Nat} {loc : Location} {a b c d e : Elaborator}

theorem inExpression_var (x : String) : (var fuel loc x).InExpression := by
  refine ofSynth fun s ↦ ?_
  split
  · exact inExpression_of_code (by decide) (by decide) _ _
  · dsimp only
    split
    · exact inExpression_judge fuel s _ _
    · simp [Stop.InExpression]

theorem inExpression_hole : (hole fuel loc).InExpression := ofCheck fun s type ↦ by simp

theorem inExpression_const (k : Const) : (const fuel loc k).InExpression := by
  cases k with
  | univ =>
    show (univ fuel loc).InExpression
    refine ofFormer fun inU s ↦ ?_
    split
    · exact inExpression_of_code (by decide) (by decide) _ _
    · exact inExpression_pure _
  | nat | atom | trivial | absurd => exact ofFormer fun _ _ ↦ inExpression_pure _
  | zero | sole => exact ofSynth fun _ ↦ inExpression_pure _
  | nil => exact ofCheck fun s type ↦ by simp [expectList]
  | vecnil =>
    refine ofCheck fun s type ↦ ?_
    simp only [inExpression_bind, expectVec, inExpression_expect, inExpression_force, true_and]
    rintro ⟨elem, len⟩ - v -
    split
    · exact inExpression_pure _
    · simp [Stop.InExpression]

theorem inExpression_quote (x : String) : (quote fuel loc x).InExpression := by
  refine ofSynth fun s ↦ ?_
  split
  · exact inExpression_pure _
  · exact (inExpression_stop _ _ _).2 ⟨nofun, fun _ ↦ .inr ⟨_, rfl⟩⟩

section

variable (ha : a.InExpression) (hb : b.InExpression) (hc : c.InExpression) (hd : d.InExpression)
  (he : e.InExpression)

include ha

theorem inExpression_lambdaFrom (params : List Site) (s : Scope) (type : Value) :
    (lambdaFrom fuel a params s type).InExpression := by
  induction params generalizing s type with
  | nil => exact ha.check s type
  | cons site params ih => simp [lambdaFrom, expectPi, ih]

theorem inExpression_lambda (params : List Site) : (lambda fuel loc params a).InExpression := by
  refine ofCheck fun s type ↦ ?_
  split
  · exact inExpression_of_code (by decide) (by decide) _ _
  · exact inExpression_lambdaFrom ha _ s type

theorem inExpression_unary (k : Unary) : (unary fuel loc k a).InExpression := by
  cases k with
  | add1 => exact ofSynth fun s ↦ by simp [ha.check]
  | list =>
    show (list fuel loc a).InExpression
    exact ofFormer fun inU s ↦ by simp [ha.component]
  | same => exact ofCheck fun s type ↦ by simp [expectEqual, ha.check]
  | left | right => exact ofCheck fun s type ↦ by simp [expectEither, ha.check]

theorem inExpression_synthNonEmpty (s : Scope) : (synthNonEmpty fuel a s).InExpression := by
  simp [synthNonEmpty, expectVec, ha.synth]

theorem inExpression_synthEqual (s : Scope) : (synthEqual fuel a s).InExpression := by
  simp [synthEqual, expectEqual, ha.synth]

theorem inExpression_project (k : Projection) : (project fuel loc k a).InExpression := by
  cases k with
  | car | cdr => exact ofSynth fun s ↦ by simp [expectSigma, ha.synth]
  | symm => exact ofSynth fun s ↦ by simp [inExpression_synthEqual ha]
  | head | tail => exact ofSynth fun s ↦ by simp [inExpression_synthNonEmpty ha]

include hb

theorem inExpression_the : (the fuel loc a b).InExpression :=
  ofSynth fun s ↦ by simp [ha.isType, hb.check]

theorem inExpression_pair : (pair fuel loc a b).InExpression :=
  ofFormer fun inU s ↦ by simp [ha.component, hb.component]

theorem inExpression_binary (k : Binary) : (binary fuel loc k a b).InExpression := by
  cases k with
  | cons => exact ofCheck fun s type ↦ by simp [expectSigma, ha.check, hb.check]
  | listCons => exact ofSynth fun s ↦ by simp [ha.synth, hb.check]
  | vec =>
    show (vec fuel loc a b).InExpression
    exact ofFormer fun inU s ↦ by simp [ha.component, hb.check]
  | vecCons => exact ofCheck fun s type ↦ by simp [expectVec, ha.check, hb.check]
  | either =>
    show (either fuel loc a b).InExpression
    exact ofFormer fun inU s ↦ by simp [ha.component, hb.component]

theorem inExpression_indAbsurd : (indAbsurd fuel loc a b).InExpression :=
  ofSynth fun s ↦ by simp [ha.check, hb.isType]

theorem inExpression_trans : (trans fuel loc a b).InExpression :=
  ofSynth fun s ↦ by simp [inExpression_synthEqual ha, inExpression_synthEqual hb]

theorem inExpression_cong : (cong fuel loc a b).InExpression := by
  refine ofSynth fun s ↦ ?_
  have hbind (x : String) (v : Value) := BindsOnce.bindFree_fresh s.context x v
  simp only [inExpression_bind, inExpression_synthEqual ha, expectPi, hb.synth, inExpression_expect,
    inExpression_eval, inExpression_sameType, inExpression_ofRead (hbind _ _), inExpression_enter,
    true_and]
  rintro ⟨t, type, lhs, rhs⟩ - j - v - ⟨x, dom, cod⟩ - - - Γ - w -
  refine ⟨inExpression_ofRead (reader_careful fuel Γ _), fun c _ ↦ ?_⟩
  split
  · exact inExpression_of_code (by decide) (by decide) _ _
  · simp

include hc

theorem inExpression_equal : (equal fuel loc a b c).InExpression :=
  ofFormer fun inU s ↦ by simp [ha.component, hb.check, hc.check]

theorem inExpression_recursor (k : Recursor) : (recursor fuel loc k a b c).InExpression := by
  cases k with
  | whichNat | iterNat | recNat => exact ofSynth fun s ↦ by simp [ha.check, hb.synth, hc.check]
  | recList => exact ofSynth fun s ↦ by simp [expectList, ha.synth, hb.synth, hc.check]

theorem inExpression_transport (k : Transport) : (transport fuel loc k a b c).InExpression := by
  cases k <;> exact ofSynth fun s ↦ by simp [inExpression_synthEqual ha, hb.check, hc.check]

include hd

theorem inExpression_induct (k : Induction) : (induct fuel loc k a b c d).InExpression := by
  cases k with
  | indNat => exact ofSynth fun s ↦ by simp [ha.check, hb.check, hc.check, hd.check]
  | indList => exact ofSynth fun s ↦ by simp [expectList, ha.synth, hb.check, hc.check, hd.check]
  | indEither =>
    exact ofSynth fun s ↦ by simp [expectEither, ha.synth, hb.check, hc.check, hd.check]

include he

theorem inExpression_indVec : (indVec fuel loc a b c d e).InExpression :=
  ofSynth fun s ↦ by simp [expectVec, ha.check, hb.synth, hc.check, hd.check, he.check]

end

theorem inExpression_appFrom {args : List Elaborator} (h : ∀ a ∈ args, a.InExpression) (s : Scope)
    (f : Judgment) : (appFrom fuel s args f).InExpression := by
  induction args generalizing f with
  | nil => exact inExpression_pure _
  | cons a args ih =>
    have ha := h a List.mem_cons_self
    have ih := ih fun b hb ↦ h b (List.mem_cons_of_mem _ hb)
    simp [appFrom, expectPi, ha.check, ih]

theorem inExpression_app (ha : a.InExpression) {args : List Elaborator}
    (h : ∀ a ∈ args, a.InExpression) : (app fuel loc a args).InExpression := by
  refine ofSynth fun s ↦ ?_
  split
  · exact inExpression_of_code (by decide) (by decide) _ _
  · simp [ha.synth, inExpression_appFrom h]

theorem inExpression_arrowFrom (inU : Bool) (s : Scope) (ha : a.InExpression)
    {types : List Elaborator} (h : ∀ a ∈ types, a.InExpression) :
    (arrowFrom inU s a types).InExpression := by
  induction types generalizing a with
  | nil => exact ha.component inU s
  | cons b types ih =>
    have ih := ih (h b List.mem_cons_self) fun c hc ↦ h c (List.mem_cons_of_mem _ hc)
    simp [arrowFrom, ha.component, ih]

theorem inExpression_arrow {types : List Elaborator} (h : ∀ a ∈ types, a.InExpression) :
    (arrow fuel loc types).InExpression := by
  refine ofFormer fun inU s ↦ ?_
  split
  · exact inExpression_arrowFrom inU s (h _ List.mem_cons_self)
      fun c hc ↦ h c (List.mem_cons_of_mem _ hc)
  · exact inExpression_of_code (by decide) (by decide) _ _

theorem inExpression_bindersFrom (inU : Bool) (build : String → Term → Term → Term)
    (ha : a.InExpression) {binders : List (Site × Elaborator)}
    (h : ∀ b ∈ binders, b.2.InExpression) (s : Scope) :
    (bindersFrom fuel inU build a binders s).InExpression := by
  induction binders generalizing s with
  | nil => exact ha.component inU s
  | cons b binders ih =>
    have hb := h b List.mem_cons_self
    have ih := ih fun c hc ↦ h c (List.mem_cons_of_mem _ hc)
    simp [bindersFrom, hb.component, ih]

theorem inExpression_pi (ha : a.InExpression) {binders : List (Site × Elaborator)}
    (h : ∀ b ∈ binders, b.2.InExpression) : (pi fuel loc binders a).InExpression := by
  refine ofFormer fun inU s ↦ ?_
  split
  · exact inExpression_of_code (by decide) (by decide) _ _
  · exact inExpression_bindersFrom inU _ ha h s

theorem inExpression_sigma (ha : a.InExpression) {binders : List (Site × Elaborator)}
    (h : ∀ b ∈ binders, b.2.InExpression) : (sigma fuel loc binders a).InExpression := by
  refine ofFormer fun inU s ↦ ?_
  split
  · exact inExpression_of_code (by decide) (by decide) _ _
  · exact inExpression_bindersFrom inU _ ha h s

end Rule

/-! ## Elaboration -/

namespace Source

open Rule Elaborator.InExpression

mutual

theorem elaborator_inExpression (fuel : Nat) (e : Source) : (e.elaborator fuel).InExpression := by
  match e with
  | missing => exact ofSynth fun _ ↦ inExpression_of_code (by decide) (by decide) _ _
  | var l x => exact inExpression_var x
  | hole l => exact inExpression_hole
  | the l t e =>
    exact inExpression_the (elaborator_inExpression fuel t) (elaborator_inExpression fuel e)
  | app l f args =>
    exact inExpression_app (elaborator_inExpression fuel f) (elaborators_inExpression fuel args)
  | numeral l n => exact ofSynth fun _ ↦ inExpression_pure _
  | quote l s => exact inExpression_quote s
  | lam l params b => exact inExpression_lambda (elaborator_inExpression fuel b) params
  | pi l binders b =>
    exact inExpression_pi (elaborator_inExpression fuel b)
      (binderElaborators_inExpression fuel binders)
  | sigma l binders b =>
    exact inExpression_sigma (elaborator_inExpression fuel b)
      (binderElaborators_inExpression fuel binders)
  | arrow l types => exact inExpression_arrow (elaborators_inExpression fuel types)
  | pair l a d =>
    exact inExpression_pair (elaborator_inExpression fuel a) (elaborator_inExpression fuel d)
  | const l k => exact inExpression_const k
  | unary l k a => exact inExpression_unary (elaborator_inExpression fuel a) k
  | binary l k a b =>
    exact inExpression_binary (elaborator_inExpression fuel a) (elaborator_inExpression fuel b) k
  | equal l t a b =>
    exact inExpression_equal (elaborator_inExpression fuel t) (elaborator_inExpression fuel a)
      (elaborator_inExpression fuel b)
  | project l k t => exact inExpression_project (elaborator_inExpression fuel t) k
  | recursor l k t b s =>
    exact inExpression_recursor (elaborator_inExpression fuel t) (elaborator_inExpression fuel b)
      (elaborator_inExpression fuel s) k
  | induct l k t m b s =>
    exact inExpression_induct (elaborator_inExpression fuel t) (elaborator_inExpression fuel m)
      (elaborator_inExpression fuel b) (elaborator_inExpression fuel s) k
  | transport l k t m b =>
    exact inExpression_transport (elaborator_inExpression fuel t) (elaborator_inExpression fuel m)
      (elaborator_inExpression fuel b) k
  | indAbsurd l t m =>
    exact inExpression_indAbsurd (elaborator_inExpression fuel t) (elaborator_inExpression fuel m)
  | trans l a b =>
    exact inExpression_trans (elaborator_inExpression fuel a) (elaborator_inExpression fuel b)
  | cong l t f =>
    exact inExpression_cong (elaborator_inExpression fuel t) (elaborator_inExpression fuel f)
  | indVec l n t m b s =>
    exact inExpression_indVec (elaborator_inExpression fuel n) (elaborator_inExpression fuel t)
      (elaborator_inExpression fuel m) (elaborator_inExpression fuel b)
      (elaborator_inExpression fuel s)

theorem elaborators_inExpression (fuel : Nat) (es : List Source) :
    ∀ a ∈ elaborators fuel es, a.InExpression := by
  match es with
  | [] => exact nofun
  | e :: es =>
    rintro a (_ | ⟨_, ha⟩)
    · exact elaborator_inExpression fuel e
    · exact elaborators_inExpression fuel es a ha

theorem binderElaborators_inExpression (fuel : Nat) (binders : List (Site × Source)) :
    ∀ b ∈ binderElaborators fuel binders, b.2.InExpression := by
  match binders with
  | [] => exact nofun
  | (site, t) :: binders =>
    rintro b (_ | ⟨_, hb⟩)
    · exact elaborator_inExpression fuel t
    · exact binderElaborators_inExpression fuel binders b hb

end

end Source

end LittleTypes
