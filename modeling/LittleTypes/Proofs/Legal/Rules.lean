import LittleTypes.Proofs.Legal.Reader
import LittleTypes.Typing.Elaborate

/-!
# Elaboration makes legal terms

Names of the source are checked before they are bound, and atoms before they are quoted; a variable
is known only if it is bound.  All other names come from types.
-/

namespace LittleTypes

/-! ## Contexts and scopes -/

/-- The binder of a type that does not use it. -/
theorem Context.isVariableName_freshBinder (Γ : Context) (t : Term) :
    isVariableName (Γ.freshBinder t "x") := isVariableName_freshName (by decide) _

/-- What is known of a name is legal. -/
def Binding.Legal : Binding → Prop
  | free t => t.Legal
  | claim t => t.Legal
  | defn t v => t.Legal ∧ v.Legal

/-- All names are variable names, and what is known of them is legal. -/
def Context.Legal (Γ : Context) : Prop := ∀ b ∈ Γ, isVariableName b.1 ∧ b.2.Legal

namespace Context.Legal

variable {Γ : Context} {x : String} {b : Binding} {t : Value}

theorem nil : Context.Legal [] := nofun

theorem cons (hx : isVariableName x) (hb : b.Legal) (hΓ : Γ.Legal) :
    Context.Legal ((x, b) :: Γ) := by
  rintro c (_ | ⟨_, hc⟩)
  · exact ⟨hx, hb⟩
  · exact hΓ c hc

theorem head (h : Context.Legal ((x, b) :: Γ)) : isVariableName x ∧ b.Legal :=
  h _ List.mem_cons_self

theorem tail (h : Context.Legal ((x, b) :: Γ)) : Γ.Legal :=
  fun c hc ↦ h c (List.mem_cons_of_mem _ hc)

theorem env (h : Γ.Legal) : Γ.env.Legal := by
  induction Γ with
  | nil => exact trivial
  | cons c Γ ih =>
    obtain ⟨x, b⟩ := c
    cases b with
    | free t => exact ⟨⟨h.head.2, h.head.1⟩, ih h.tail⟩
    | claim t => exact ih h.tail
    | defn t v => exact ⟨h.head.2.2, ih h.tail⟩

/-- A name with a type is a variable name, and its type is legal. -/
theorem typeOf? (h : Γ.Legal) (ht : Γ.typeOf? x = some t) : isVariableName x ∧ t.Legal := by
  induction Γ with
  | nil => cases ht
  | cons c Γ ih =>
    obtain ⟨y, b⟩ := c
    cases b with
    | claim u => exact ih h.tail ht
    | free u =>
      rw [Context.typeOf?] at ht
      split at ht
      · rename_i e
        cases ht
        exact e ▸ h.head
      · exact ih h.tail ht
    | defn u v =>
      rw [Context.typeOf?] at ht
      split at ht
      · rename_i e
        cases ht
        exact e ▸ ⟨h.head.1, h.head.2.1⟩
      · exact ih h.tail ht

end Context.Legal

/-- The names of the source do not matter, only those that are chosen for them. -/
def Scope.Legal (s : Scope) : Prop := s.context.Legal

/-- Both the type and the term are legal. -/
def Judgment.Legal (j : Judgment) : Prop := j.type.Legal ∧ j.term.Legal

namespace Checked

variable {α β : Type}

/-- What a check answers, if it answers, has a property. -/
def Yields (P : α → Prop) (x : Checked α) : Prop := Answers P x.outcome

namespace Yields

variable {P : α → Prop} {Q : β → Prop}

theorem pure {a : α} (h : P a) : Yields P (Pure.pure a : Checked α) := Answers.pure h

theorem stop (code : Code) (loc : Location) (message : List Part) :
    Yields P (Checked.stop code loc message : Checked α) := nofun

theorem bind {x : Checked α} {f : α → Checked β} (hx : Yields P x)
    (h : ∀ a, P a → Yields Q (f a)) : Yields Q (x >>= f) := by
  rw [Yields, outcome_bind]
  exact Answers.bind hx h

/-- Whatever is answered first. -/
theorem after {x : Checked α} {f : α → Checked β} (h : ∀ a, Yields Q (f a)) :
    Yields Q (x >>= f) := bind (P := fun _ ↦ True) (fun _ _ ↦ trivial) fun a _ ↦ h a

theorem ofRead {x : Except Fault α} (h : Answers P x) : Yields P (Checked.ofRead x) := by
  cases x with
  | ok a => exact .pure (h a rfl)
  | error e => exact nofun

theorem ofEval {x : Except EvalFault α} (h : Answers P x) : Yields P (Checked.ofEval x) :=
  ofRead h.lift

end Yields

end Checked

open Checked

namespace Scope.Legal

variable {s : Scope} (hs : s.Legal) (fuel : Nat) {v w : Value}

theorem force (hv : v.Legal) : Yields Value.Legal (Scope.force v) := .ofEval hv.force

theorem apply (hv : v.Legal) (hw : w.Legal) : Yields Value.Legal (Scope.apply fuel v w) :=
  .ofEval ((machine_legal fuel).apply _ hv hw)

theorem enter {c : Closure} (hc : c.Legal) (hv : v.Legal) :
    Yields Value.Legal (Scope.enter fuel c v) := .ofEval ((machine_legal fuel).enter _ hc hv)

theorem checkName (site : Site) :
    Yields (fun _ ↦ isVariableName site.name) (Scope.checkName site) := by
  unfold Scope.checkName
  split
  · exact .pure ‹_›
  · exact .stop _ _ _

theorem readBackType (s : Scope) (hv : v.Legal) : Yields Term.Legal (s.readBackType fuel v) :=
  .ofRead (reader_legal fuel _ _ hv)

theorem judge (s : Scope) (hv : v.Legal) {t : Term} (ht : t.Legal) :
    Yields Judgment.Legal (s.judge fuel v t) :=
  (readBackType fuel s hv).bind fun _ hu ↦ .pure ⟨hu, ht⟩

theorem readBack (s : Scope) (hv : v.Legal) (hw : w.Legal) :
    Yields Term.Legal (s.readBack fuel v w) := .ofRead (reader_legal fuel _ _ ⟨hv, hw⟩)

/-- What a legal type consists of. -/
theorem expect {α : Type} {P : α → Prop} {view : Value → Option α}
    (hview : ∀ {v a}, v.Legal → view v = some a → P a) (s : Scope) (loc : Location) (what : String)
    (hv : v.Legal) : Yields P (s.expect fuel loc v what view) := by
  refine (force hv).bind fun u hu ↦ ?_
  split
  · exact .pure (hview hu ‹_›)
  · exact .after fun _ ↦ .stop _ _ _

theorem expectPi (s : Scope) (loc : Location) (hv : v.Legal) :
    Yields (fun p ↦ isVariableName p.1 ∧ p.2.1.Legal ∧ p.2.2.Legal) (s.expectPi fuel loc v) := by
  refine expect fuel (fun {v a} hv h ↦ ?_) s loc _ hv
  unfold Value.pi? at h
  split at h <;> cases h
  exact hv

theorem expectSigma (s : Scope) (loc : Location) (hv : v.Legal) :
    Yields (fun p ↦ p.1.Legal ∧ p.2.Legal) (s.expectSigma fuel loc v) := by
  refine expect fuel (fun {v a} hv h ↦ ?_) s loc _ hv
  unfold Value.sigma? at h
  split at h <;> cases h
  exact hv.2

theorem expectList (s : Scope) (loc : Location) (hv : v.Legal) :
    Yields Value.Legal (s.expectList fuel loc v) := by
  refine expect fuel (fun {v a} hv h ↦ ?_) s loc _ hv
  unfold Value.list? at h
  split at h <;> cases h
  exact hv

theorem expectEqual (s : Scope) (loc : Location) (hv : v.Legal) :
    Yields (fun p ↦ p.1.Legal ∧ p.2.1.Legal ∧ p.2.2.Legal) (s.expectEqual fuel loc v) := by
  refine expect fuel (fun {v a} hv h ↦ ?_) s loc _ hv
  unfold Value.equal? at h
  split at h <;> cases h
  exact hv

theorem expectVec (s : Scope) (loc : Location) (hv : v.Legal) :
    Yields (fun p ↦ p.1.Legal ∧ p.2.Legal) (s.expectVec fuel loc v) := by
  refine expect fuel (fun {v a} hv h ↦ ?_) s loc _ hv
  unfold Value.vec? at h
  split at h <;> cases h
  exact hv

theorem expectEither (s : Scope) (loc : Location) (hv : v.Legal) :
    Yields (fun p ↦ p.1.Legal ∧ p.2.Legal) (s.expectEither fuel loc v) := by
  refine expect fuel (fun {v a} hv h ↦ ?_) s loc _ hv
  unfold Value.either? at h
  split at h <;> cases h
  exact hv

theorem expectAdd1 (s : Scope) (loc : Location) (message : String) (hv : v.Legal) :
    Yields Value.Legal (s.expectAdd1 fuel loc v message) := by
  refine (force hv).bind fun u hu ↦ ?_
  unfold Value.add1?
  split
  · rename_i h
    split at h <;> cases h
    exact .pure hu
  · exact .after fun _ ↦ .stop _ _ _

include hs

theorem eval {t : Term} (ht : t.Legal) : Yields Value.Legal (s.eval fuel t) :=
  .ofEval ((machine_legal fuel).eval _ hs.env ht)

theorem bind {x y : String} (hy : isVariableName y) (hv : v.Legal) :
    Yields Scope.Legal (s.bind x y v) := by
  refine .ofRead (Answers.bind (P := Context.Legal) ?_ fun Γ hΓ ↦ .pure hΓ)
  unfold Context.bindFree
  split
  · exact .error _
  · exact .pure (hs.cons hy hv)

end Scope.Legal

/-! ## Rules -/

/-- An elaborator that makes legal terms. -/
structure Elaborator.Legal (e : Elaborator) : Prop where
  synth : ∀ {s : Scope}, s.Legal → Yields Judgment.Legal (e.synth s)
  check : ∀ {s : Scope} {t : Value}, s.Legal → t.Legal → Yields Term.Legal (e.check s t)
  isType : ∀ {s : Scope}, s.Legal → Yields Term.Legal (e.isType s)

namespace Elaborator.Legal

variable {fuel : Nat} {loc : Location}

theorem ofCheck {check : Scope → Value → Checked Term}
    (h : ∀ {s : Scope} {t : Value}, s.Legal → t.Legal → Yields Term.Legal (check s t)) :
    (Elaborator.ofCheck loc check).Legal where
  synth _ := .stop _ _ _
  check := h
  isType hs := h hs trivial

theorem checkSynth {synth : Scope → Checked Judgment} {s : Scope}
    (h : Yields Judgment.Legal (synth s)) (t : Value) :
    Yields Term.Legal (Elaborator.checkSynth fuel loc synth s t) :=
  h.bind fun _ hj ↦ .after fun _ ↦ .after fun _ ↦ .pure hj.2

theorem ofSynth {synth : Scope → Checked Judgment}
    (h : ∀ {s : Scope}, s.Legal → Yields Judgment.Legal (synth s)) :
    (Elaborator.ofSynth fuel loc synth).Legal where
  synth := h
  check hs _ := checkSynth (h hs) _
  isType hs := checkSynth (h hs) _

theorem ofFormer {former : Bool → Scope → Checked Term}
    (h : ∀ inU {s : Scope}, s.Legal → Yields Term.Legal (former inU s)) :
    (Elaborator.ofFormer fuel loc former).Legal where
  synth hs := (h true hs).bind fun _ ht ↦ .pure ⟨rfl, ht⟩
  check hs _ := checkSynth ((h true hs).bind fun _ ht ↦ .pure ⟨rfl, ht⟩) _
  isType hs := h false hs

theorem component {e : Elaborator} (h : e.Legal) (inU : Bool) {s : Scope} (hs : s.Legal) :
    Yields Term.Legal (e.component inU s) := by
  cases inU with
  | true => exact h.check hs trivial
  | false => exact h.isType hs

end Elaborator.Legal

namespace Rule

open Elaborator.Legal Scope.Legal

variable {fuel : Nat} {loc : Location} {a b c d e : Elaborator}

theorem legal_var (x : String) : (var fuel loc x).Legal := by
  refine ofSynth fun {s} hs ↦ ?_
  split
  · exact .stop _ _ _
  · dsimp only
    split
    · rename_i t ht
      obtain ⟨hx, ht⟩ := Context.Legal.typeOf? hs ht
      exact judge fuel s ht hx
    · exact .after fun _ ↦ nofun

theorem legal_hole : (hole fuel loc).Legal :=
  ofCheck fun {s _} _ ht ↦ (readBackType fuel s ht).bind fun _ hu ↦ .after fun _ ↦ .pure hu

theorem legal_const (k : Const) : (const fuel loc k).Legal := by
  cases k with
  | univ =>
    show (univ fuel loc).Legal
    refine ofFormer fun inU s _ ↦ ?_
    split
    · exact .stop _ _ _
    · exact .pure rfl
  | nat | atom | trivial | absurd => exact ofFormer fun _ _ _ ↦ .pure rfl
  | zero | sole => exact ofSynth fun _ ↦ .pure ⟨rfl, rfl⟩
  | nil => exact ofCheck fun _ _ ↦ .after fun _ ↦ .pure rfl
  | vecnil =>
    refine ofCheck fun _ _ ↦ .after fun p ↦ .after fun v ↦ ?_
    split
    · exact .pure rfl
    · exact .after fun _ ↦ .stop _ _ _

theorem legal_numeral (n : Nat) : (plainValue fuel loc .nat (.numeral n)).Legal :=
  ofSynth fun _ ↦ .pure ⟨rfl, rfl⟩

theorem legal_quote (x : String) : (quote fuel loc x).Legal := by
  refine ofSynth fun _ ↦ ?_
  split
  · rename_i hx
    exact .pure ⟨rfl, hx⟩
  · exact .stop _ _ _

section

variable (ha : a.Legal) (hb : b.Legal) (hc : c.Legal) (hd : d.Legal) (he : e.Legal)

include ha

theorem legal_lambdaFrom (params : List Site) {s : Scope} (hs : s.Legal) {t : Value}
    (ht : t.Legal) :
    Yields Term.Legal (lambdaFrom fuel a params s t) := by
  induction params generalizing s t with
  | nil => exact ha.check hs ht
  | cons site params ih =>
    refine (checkName site).bind fun _ hx ↦ (expectPi fuel s _ ht).bind fun p hp ↦ ?_
    have hy := isVariableName_freshName hx s.context.names
    refine (hs.bind hy hp.2.1).bind fun s' hs' ↦ ?_
    refine (enter fuel (v := .ofVar _ _) hp.2.2 ⟨hp.2.1, hy⟩).bind fun t' ht' ↦ ?_
    exact (ih hs' ht').bind fun u hu ↦ .pure (Bool.and_eq_true_iff.2 ⟨hy, hu⟩)

theorem legal_lambda (params : List Site) : (lambda fuel loc params a).Legal := by
  refine ofCheck fun hs ht ↦ ?_
  split
  · exact .stop _ _ _
  · exact legal_lambdaFrom ha _ hs ht

theorem legal_unary (k : Unary) : (unary fuel loc k a).Legal := by
  cases k with
  | add1 =>
    exact ofSynth fun hs ↦ (ha.check hs (t := .const .nat) trivial).bind fun _ ht ↦ .pure ⟨rfl, ht⟩
  | list =>
    show (list fuel loc a).Legal
    exact ofFormer fun inU _ hs ↦ (ha.component inU hs).bind fun _ ht ↦ .pure ht
  | same =>
    refine ofCheck fun {s t} hs ht ↦ (expectEqual fuel s loc ht).bind fun p hp ↦ ?_
    refine (ha.check hs hp.1).bind fun u hu ↦ ?_
    exact .after fun _ ↦ .after fun _ ↦ .after fun _ ↦ .pure hu
  | left =>
    refine ofCheck fun {s t} hs ht ↦ (expectEither fuel s loc ht).bind fun p hp ↦ ?_
    exact (ha.check hs hp.1).bind fun u hu ↦ .pure hu
  | right =>
    refine ofCheck fun {s t} hs ht ↦ (expectEither fuel s loc ht).bind fun p hp ↦ ?_
    exact (ha.check hs hp.2).bind fun u hu ↦ .pure hu

/-- An elaborated equality and what it is an equality of. -/
theorem legal_synthEqual {s : Scope} (hs : s.Legal) :
    Yields (fun p ↦ p.1.Legal ∧ p.2.1.Legal ∧ p.2.2.1.Legal ∧ p.2.2.2.Legal)
      (synthEqual fuel a s) := by
  refine (ha.synth hs).bind fun j hj ↦ (hs.eval fuel hj.1).bind fun v hv ↦ ?_
  exact (expectEqual fuel s _ hv).bind fun p hp ↦ .pure ⟨hj.2, hp⟩

theorem legal_synthNonEmpty {s : Scope} (hs : s.Legal) :
    Yields (fun p ↦ p.1.Legal ∧ p.2.1.Legal ∧ p.2.2.Legal) (synthNonEmpty fuel a s) := by
  refine (ha.synth hs).bind fun j hj ↦ (hs.eval fuel hj.1).bind fun v hv ↦ ?_
  refine (expectVec fuel s _ hv).bind fun p hp ↦ (expectAdd1 fuel s _ _ hp.2).bind fun k hk ↦ ?_
  exact .pure ⟨hj.2, hp.1, hk⟩

theorem legal_project (k : Projection) : (project fuel loc k a).Legal := by
  cases k with
  | car =>
    refine ofSynth fun {s} hs ↦ (ha.synth hs).bind fun j hj ↦ (hs.eval fuel hj.1).bind fun v hv ↦ ?_
    exact (expectSigma fuel s loc hv).bind fun p hp ↦ judge fuel s hp.1 hj.2
  | cdr =>
    refine ofSynth fun {s} hs ↦ (ha.synth hs).bind fun j hj ↦ (hs.eval fuel hj.1).bind fun v hv ↦ ?_
    refine (expectSigma fuel s loc hv).bind fun p hp ↦ (hs.eval fuel hj.2).bind fun w hw ↦ ?_
    refine (Yields.ofEval ((machine_legal fuel).doProject _ .car hw)).bind fun u hu ↦ ?_
    exact (enter fuel hp.2 hu).bind fun t ht ↦ judge fuel s ht hj.2
  | symm =>
    refine ofSynth fun {s} hs ↦ (legal_synthEqual ha hs).bind fun p hp ↦ ?_
    exact judge fuel s (v := .equal _ _ _) ⟨hp.2.1, hp.2.2.2, hp.2.2.1⟩ hp.1
  | head =>
    exact ofSynth fun {s} hs ↦ (legal_synthNonEmpty ha hs).bind fun p hp ↦
      judge fuel s hp.2.1 hp.1
  | tail =>
    exact ofSynth fun {s} hs ↦ (legal_synthNonEmpty ha hs).bind fun p hp ↦
      judge fuel s (v := .binary .vec _ _) hp.2 hp.1

include hb

theorem legal_the : (the fuel loc a b).Legal := by
  refine ofSynth fun {s} hs ↦ (ha.isType hs).bind fun t ht ↦ (hs.eval fuel ht).bind fun v hv ↦ ?_
  exact (hb.check hs hv).bind fun u hu ↦ judge fuel s hv hu

theorem legal_pair : (pair fuel loc a b).Legal := by
  refine ofFormer fun inU s hs ↦ (ha.component inU hs).bind fun t ht ↦ ?_
  refine (hb.component inU hs).bind fun u hu ↦ .pure ?_
  simp [Term.Legal, Term.isLegal, Context.isVariableName_freshBinder, *]

theorem legal_binary (k : Binary) : (binary fuel loc k a b).Legal := by
  cases k with
  | cons =>
    refine ofCheck fun {s t} hs ht ↦ (expectSigma fuel s loc ht).bind fun p hp ↦ ?_
    refine (ha.check hs hp.1).bind fun u hu ↦ (hs.eval fuel hu).bind fun v hv ↦ ?_
    refine (enter fuel hp.2 hv).bind fun t' ht' ↦ (hb.check hs ht').bind fun w hw ↦ ?_
    exact .pure (Bool.and_eq_true_iff.2 ⟨hu, hw⟩)
  | listCons =>
    refine ofSynth fun {s} hs ↦ (ha.synth hs).bind fun j hj ↦ (hs.eval fuel hj.1).bind fun v hv ↦ ?_
    refine (hb.check hs (t := .unary .list v) hv).bind fun w hw ↦ ?_
    exact judge fuel s (v := .unary .list v) hv (Bool.and_eq_true_iff.2 ⟨hj.2, hw⟩)
  | vec =>
    show (vec fuel loc a b).Legal
    refine ofFormer fun inU s hs ↦ (ha.component inU hs).bind fun t ht ↦ ?_
    refine (hb.check hs (t := .const .nat) trivial).bind fun u hu ↦ ?_
    exact .pure (Bool.and_eq_true_iff.2 ⟨ht, hu⟩)
  | vecCons =>
    refine ofCheck fun {s t} hs ht ↦ (expectVec fuel s loc ht).bind fun p hp ↦ ?_
    refine (expectAdd1 fuel s loc _ hp.2).bind fun k hk ↦ (ha.check hs hp.1).bind fun u hu ↦ ?_
    refine (hb.check hs (t := .binary .vec _ _) ⟨hp.1, hk⟩).bind fun w hw ↦ ?_
    exact .pure (Bool.and_eq_true_iff.2 ⟨hu, hw⟩)
  | either =>
    show (either fuel loc a b).Legal
    refine ofFormer fun inU s hs ↦ (ha.component inU hs).bind fun t ht ↦ ?_
    refine (hb.component inU hs).bind fun u hu ↦ ?_
    exact .pure (Bool.and_eq_true_iff.2 ⟨ht, hu⟩)

theorem legal_indAbsurd : (indAbsurd fuel loc a b).Legal := by
  refine ofSynth fun hs ↦ (ha.check hs (t := .const .absurd) trivial).bind fun t ht ↦ ?_
  refine (hb.isType hs).bind fun u hu ↦ ?_
  exact .pure ⟨hu, Bool.and_eq_true_iff.2 ⟨ht, hu⟩⟩

theorem legal_trans : (trans fuel loc a b).Legal := by
  refine ofSynth fun {s} hs ↦ (legal_synthEqual ha hs).bind fun p hp ↦ ?_
  refine (legal_synthEqual hb hs).bind fun q hq ↦ .after fun _ ↦ .after fun _ ↦ ?_
  exact judge fuel s (v := .equal _ _ _) ⟨hp.2.1, hp.2.2.1, hq.2.2.2⟩
    (Bool.and_eq_true_iff.2 ⟨hp.1, hq.1⟩)

theorem legal_cong : (cong fuel loc a b).Legal := by
  refine ofSynth fun {s} hs ↦ (legal_synthEqual ha hs).bind fun p hp ↦ ?_
  refine (hb.synth hs).bind fun j hj ↦ (hs.eval fuel hj.1).bind fun v hv ↦ ?_
  refine (expectPi fuel s _ hv).bind fun q hq ↦ .after fun _ ↦ .after fun Γ ↦ ?_
  have hy := isVariableName_freshName hq.1 s.context.names
  refine (enter fuel (v := .ofVar _ _) hq.2.2 ⟨hq.2.1, hy⟩).bind fun u hu ↦ ?_
  refine (Yields.ofRead (reader_legal fuel Γ (.type u) hu)).bind fun c hc ↦ ?_
  split
  · exact .stop _ _ _
  · refine (hs.eval fuel hj.2).bind fun f hf ↦ (hs.eval fuel hc).bind fun w hw ↦ ?_
    refine (apply fuel hf hp.2.2.1).bind fun l hl ↦ (apply fuel hf hp.2.2.2).bind fun r hr ↦ ?_
    refine judge fuel s (v := .equal _ _ _) ⟨hw, hl, hr⟩ ?_
    simp only [Term.Legal, Term.isLegal, Bool.and_eq_true]
    exact ⟨⟨hp.1, hc⟩, hj.2⟩

include hc

theorem legal_equal : (equal fuel loc a b c).Legal := by
  refine ofFormer fun inU s hs ↦ (ha.component inU hs).bind fun t ht ↦ ?_
  refine (hs.eval fuel ht).bind fun v hv ↦ (hb.check hs hv).bind fun l hl ↦ ?_
  refine (hc.check hs hv).bind fun r hr ↦ .pure ?_
  simp [Term.Legal, Term.isLegal, *]

theorem legal_natRecursor (k : Recursor) {stepType : Value → Value}
    (hstep : ∀ {v}, Value.Legal v → (stepType v).Legal) :
    (natRecursor fuel loc k stepType a b c).Legal := by
  refine ofSynth fun {s} hs ↦ (ha.check hs (t := .const .nat) trivial).bind fun t ht ↦ ?_
  refine (hb.synth hs).bind fun j hj ↦ (hs.eval fuel hj.1).bind fun v hv ↦ ?_
  refine (hc.check hs (hstep hv)).bind fun u hu ↦ .pure ⟨hj.1, ?_⟩
  simp only [Term.Legal, Term.isLegal, Bool.and_eq_true]
  exact ⟨⟨⟨ht, hj.1⟩, hj.2⟩, hu⟩

theorem legal_recursor (k : Recursor) : (recursor fuel loc k a b c).Legal := by
  cases k with
  | whichNat => exact legal_natRecursor ha hb hc _ .whichNatStep
  | iterNat => exact legal_natRecursor ha hb hc _ .iterNatStep
  | recNat => exact legal_natRecursor ha hb hc _ .recNatStep
  | recList =>
    refine ofSynth fun {s} hs ↦ (ha.synth hs).bind fun i hi ↦ (hs.eval fuel hi.1).bind fun w hw ↦ ?_
    refine (expectList fuel s _ hw).bind fun E hE ↦ ?_
    refine (hb.synth hs).bind fun j hj ↦ (hs.eval fuel hj.1).bind fun v hv ↦ ?_
    refine (hc.check hs (.recListStep hE hv)).bind fun u hu ↦ .pure ⟨hj.1, ?_⟩
    simp only [Term.Legal, Term.isLegal, Bool.and_eq_true]
    exact ⟨⟨⟨hi.2, hj.1⟩, hj.2⟩, hu⟩

theorem legal_transport (k : Transport) : (transport fuel loc k a b c).Legal := by
  cases k with
  | replace =>
    refine ofSynth fun {s} hs ↦ (legal_synthEqual ha hs).bind fun p hp ↦ ?_
    refine (hb.check hs (.replaceMotive hp.2.1)).bind fun m hm ↦ ?_
    refine (hs.eval fuel hm).bind fun v hv ↦ ?_
    refine (apply fuel hv hp.2.2.1).bind fun w hw ↦ (hc.check hs hw).bind fun u hu ↦ ?_
    refine (apply fuel hv hp.2.2.2).bind fun r hr ↦ judge fuel s hr ?_
    simp only [Term.Legal, Term.isLegal, Bool.and_eq_true]
    exact ⟨⟨hp.1, hm⟩, hu⟩
  | indEqual =>
    refine ofSynth fun {s} hs ↦ (legal_synthEqual ha hs).bind fun p hp ↦ ?_
    refine (hb.check hs (.indEqualMotive hp.2.1 hp.2.2.1)).bind fun m hm ↦ ?_
    refine (hs.eval fuel hm).bind fun v hv ↦ (apply fuel hv hp.2.2.1).bind fun f hf ↦ ?_
    refine (apply fuel hf (w := .unary .same _) hp.2.2.1).bind fun w hw ↦ ?_
    refine (hc.check hs hw).bind fun u hu ↦ (apply fuel hv hp.2.2.2).bind fun g hg ↦ ?_
    refine (hs.eval fuel hp.1).bind fun t ht ↦ (apply fuel hg ht).bind fun r hr ↦ ?_
    refine judge fuel s hr ?_
    simp only [Term.Legal, Term.isLegal, Bool.and_eq_true]
    exact ⟨⟨hp.1, hm⟩, hu⟩

include hd

theorem legal_induct (k : Induction) : (induct fuel loc k a b c d).Legal := by
  cases k with
  | indNat =>
    refine ofSynth fun {s} hs ↦ (ha.check hs (t := .const .nat) trivial).bind fun t ht ↦ ?_
    refine (hb.check hs .indNatMotive).bind fun m hm ↦ (hs.eval fuel hm).bind fun v hv ↦ ?_
    refine (apply fuel hv (w := .const .zero) trivial).bind fun w hw ↦ ?_
    refine (hc.check hs hw).bind fun b' hb' ↦ (hd.check hs (.indNatStep hv)).bind fun u hu ↦ ?_
    refine (hs.eval fuel ht).bind fun n hn ↦ (apply fuel hv hn).bind fun r hr ↦ judge fuel s hr ?_
    simp [Term.Legal, Term.isLegal, *]
  | indList =>
    refine ofSynth fun {s} hs ↦ (ha.synth hs).bind fun i hi ↦ (hs.eval fuel hi.1).bind fun w hw ↦ ?_
    refine (expectList fuel s _ hw).bind fun E hE ↦ (hb.check hs (.indListMotive hE)).bind
      fun m hm ↦ (hs.eval fuel hm).bind fun v hv ↦ ?_
    refine (apply fuel hv (w := .const .nil) trivial).bind fun w hw ↦ ?_
    refine (hc.check hs hw).bind fun b' hb' ↦ (hd.check hs (.indListStep hE hv)).bind fun u hu ↦ ?_
    refine (hs.eval fuel hi.2).bind fun n hn ↦ (apply fuel hv hn).bind fun r hr ↦ judge fuel s hr ?_
    simp only [Term.Legal, Term.isLegal, Bool.and_eq_true]
    exact ⟨⟨⟨hi.2, hm⟩, hb'⟩, hu⟩
  | indEither =>
    refine ofSynth fun {s} hs ↦ (ha.synth hs).bind fun i hi ↦ (hs.eval fuel hi.1).bind fun w hw ↦ ?_
    refine (expectEither fuel s _ hw).bind fun p hp ↦ ?_
    refine (hb.check hs (.indEitherMotive hp.1 hp.2)).bind fun m hm ↦ ?_
    refine (hs.eval fuel hm).bind fun v hv ↦ (hc.check hs (.indEitherCase _ hp.1 hv)).bind
      fun l hl ↦ (hd.check hs (.indEitherCase _ hp.2 hv)).bind fun r hr ↦ ?_
    refine (hs.eval fuel hi.2).bind fun n hn ↦ (apply fuel hv hn).bind fun t ht ↦ judge fuel s ht ?_
    simp only [Term.Legal, Term.isLegal, Bool.and_eq_true]
    exact ⟨⟨⟨hi.2, hm⟩, hl⟩, hr⟩

include he

theorem legal_indVec : (indVec fuel loc a b c d e).Legal := by
  refine ofSynth fun {s} hs ↦ (ha.check hs (t := .const .nat) trivial).bind fun n hn ↦ ?_
  refine (hb.synth hs).bind fun i hi ↦ (hs.eval fuel hi.1).bind fun w hw ↦ ?_
  refine (expectVec fuel s _ hw).bind fun p hp ↦ (hs.eval fuel hn).bind fun l hl ↦ ?_
  refine .after fun _ ↦ (hc.check hs (.indVecMotive hp.1)).bind fun m hm ↦ ?_
  refine (hs.eval fuel hm).bind fun v hv ↦ (apply fuel hv (w := .const .zero) trivial).bind
    fun f hf ↦ (apply fuel hf (w := .const .vecnil) trivial).bind fun t ht ↦ ?_
  refine (hd.check hs ht).bind fun b' hb' ↦ (he.check hs (.indVecStep hp.1 hv)).bind fun u hu ↦ ?_
  refine (apply fuel hv hl).bind fun g hg ↦ (hs.eval fuel hi.2).bind fun x hx ↦ ?_
  refine (apply fuel hg hx).bind fun r hr ↦ judge fuel s hr ?_
  simp only [Term.Legal, Term.isLegal, Bool.and_eq_true]
  exact ⟨⟨⟨⟨hn, hi.2⟩, hm⟩, hb'⟩, hu⟩

end

theorem legal_appFrom {args : List Elaborator} (h : ∀ a ∈ args, a.Legal) {s : Scope} (hs : s.Legal)
    {f : Judgment} (hf : f.Legal) : Yields Judgment.Legal (appFrom fuel s args f) := by
  induction args generalizing f with
  | nil => exact .pure hf
  | cons a args ih =>
    refine (hs.eval fuel hf.1).bind fun v hv ↦ (expectPi fuel s _ hv).bind fun p hp ↦ ?_
    refine ((h a List.mem_cons_self).check hs hp.2.1).bind fun t ht ↦ ?_
    refine (hs.eval fuel ht).bind fun w hw ↦ (enter fuel hp.2.2 hw).bind fun u hu ↦ ?_
    refine (readBackType fuel s hu).bind fun r hr ↦ ?_
    exact ih (fun b hb ↦ h b (List.mem_cons_of_mem _ hb)) ⟨hr, Bool.and_eq_true_iff.2 ⟨hf.2, ht⟩⟩

theorem legal_app (ha : a.Legal) {args : List Elaborator} (h : ∀ a ∈ args, a.Legal) :
    (app fuel loc a args).Legal := by
  refine ofSynth fun hs ↦ ?_
  split
  · exact .stop _ _ _
  · exact (ha.synth hs).bind fun f hf ↦ legal_appFrom h hs hf

theorem legal_arrowFrom (inU : Bool) {s : Scope} (hs : s.Legal) (ha : a.Legal)
    {types : List Elaborator} (h : ∀ a ∈ types, a.Legal) :
    Yields Term.Legal (arrowFrom inU s a types) := by
  induction types generalizing a with
  | nil => exact ha.component inU hs
  | cons b types ih =>
    refine (ha.component inU hs).bind fun t ht ↦ ?_
    refine (ih (h b List.mem_cons_self) fun c hc ↦ h c (List.mem_cons_of_mem _ hc)).bind
      fun u hu ↦ .pure ?_
    simp [Term.Legal, Term.isLegal, Context.isVariableName_freshBinder, *]

theorem legal_arrow {types : List Elaborator} (h : ∀ a ∈ types, a.Legal) :
    (arrow fuel loc types).Legal := by
  refine ofFormer fun inU s hs ↦ ?_
  split
  · exact legal_arrowFrom inU hs (h _ List.mem_cons_self)
      fun c hc ↦ h c (List.mem_cons_of_mem _ hc)
  · exact .stop _ _ _

theorem legal_bindersFrom (inU : Bool) {build : String → Term → Term → Term}
    (hbuild : ∀ {y a b}, isVariableName y → Term.Legal a → Term.Legal b → (build y a b).Legal)
    (ha : a.Legal) {binders : List (Site × Elaborator)} (h : ∀ b ∈ binders, b.2.Legal) {s : Scope}
    (hs : s.Legal) : Yields Term.Legal (bindersFrom fuel inU build a binders s) := by
  induction binders generalizing s with
  | nil => exact ha.component inU hs
  | cons b binders ih =>
    refine (checkName b.1).bind fun _ hx ↦ ?_
    refine ((h b List.mem_cons_self).component inU hs).bind fun t ht ↦ ?_
    have hy := isVariableName_freshName hx s.context.names
    refine (hs.eval fuel ht).bind fun v hv ↦ (hs.bind hy hv).bind fun s' hs' ↦ ?_
    refine (ih (fun c hc ↦ h c (List.mem_cons_of_mem _ hc)) hs').bind fun u hu ↦ ?_
    exact .pure (hbuild hy ht hu)

theorem legal_pi (ha : a.Legal) {binders : List (Site × Elaborator)}
    (h : ∀ b ∈ binders, b.2.Legal) : (pi fuel loc binders a).Legal := by
  refine ofFormer fun inU s hs ↦ ?_
  split
  · exact .stop _ _ _
  · exact legal_bindersFrom inU (fun hy ht hu ↦ by simp [Term.Legal, Term.isLegal, *]) ha h hs

theorem legal_sigma (ha : a.Legal) {binders : List (Site × Elaborator)}
    (h : ∀ b ∈ binders, b.2.Legal) : (sigma fuel loc binders a).Legal := by
  refine ofFormer fun inU s hs ↦ ?_
  split
  · exact .stop _ _ _
  · exact legal_bindersFrom inU (fun hy ht hu ↦ by simp [Term.Legal, Term.isLegal, *]) ha h hs

end Rule

/-! ## Elaboration -/

namespace Source

open Rule Elaborator.Legal

mutual

theorem elaborator_legal (fuel : Nat) (e : Source) : (e.elaborator fuel).Legal := by
  match e with
  | missing => exact ofSynth fun _ ↦ .stop _ _ _
  | var l x => exact legal_var x
  | hole l => exact legal_hole
  | the l t e => exact legal_the (elaborator_legal fuel t) (elaborator_legal fuel e)
  | app l f args => exact legal_app (elaborator_legal fuel f) (elaborators_legal fuel args)
  | numeral l n => exact legal_numeral n
  | quote l s => exact legal_quote s
  | lam l params b => exact legal_lambda (elaborator_legal fuel b) params
  | pi l binders b =>
    exact legal_pi (elaborator_legal fuel b) (binderElaborators_legal fuel binders)
  | sigma l binders b =>
    exact legal_sigma (elaborator_legal fuel b) (binderElaborators_legal fuel binders)
  | arrow l types => exact legal_arrow (elaborators_legal fuel types)
  | pair l a d => exact legal_pair (elaborator_legal fuel a) (elaborator_legal fuel d)
  | const l k => exact legal_const k
  | unary l k a => exact legal_unary (elaborator_legal fuel a) k
  | binary l k a b => exact legal_binary (elaborator_legal fuel a) (elaborator_legal fuel b) k
  | equal l t a b =>
    exact legal_equal (elaborator_legal fuel t) (elaborator_legal fuel a) (elaborator_legal fuel b)
  | project l k t => exact legal_project (elaborator_legal fuel t) k
  | recursor l k t b s =>
    exact legal_recursor (elaborator_legal fuel t) (elaborator_legal fuel b)
      (elaborator_legal fuel s) k
  | induct l k t m b s =>
    exact legal_induct (elaborator_legal fuel t) (elaborator_legal fuel m) (elaborator_legal fuel b)
      (elaborator_legal fuel s) k
  | transport l k t m b =>
    exact legal_transport (elaborator_legal fuel t) (elaborator_legal fuel m)
      (elaborator_legal fuel b) k
  | indAbsurd l t m => exact legal_indAbsurd (elaborator_legal fuel t) (elaborator_legal fuel m)
  | trans l a b => exact legal_trans (elaborator_legal fuel a) (elaborator_legal fuel b)
  | cong l t f => exact legal_cong (elaborator_legal fuel t) (elaborator_legal fuel f)
  | indVec l n t m b s =>
    exact legal_indVec (elaborator_legal fuel n) (elaborator_legal fuel t) (elaborator_legal fuel m)
      (elaborator_legal fuel b) (elaborator_legal fuel s)

theorem elaborators_legal (fuel : Nat) (es : List Source) : ∀ a ∈ elaborators fuel es, a.Legal := by
  match es with
  | [] => exact nofun
  | e :: es =>
    rintro a (_ | ⟨_, ha⟩)
    · exact elaborator_legal fuel e
    · exact elaborators_legal fuel es a ha

theorem binderElaborators_legal (fuel : Nat) (binders : List (Site × Source)) :
    ∀ b ∈ binderElaborators fuel binders, b.2.Legal := by
  match binders with
  | [] => exact nofun
  | (site, t) :: binders =>
    rintro b (_ | ⟨_, hb⟩)
    · exact elaborator_legal fuel t
    · exact binderElaborators_legal fuel binders b hb

end

end Source

end LittleTypes
