import LittleTypes.Proofs.Match.Scope
import LittleTypes.Proofs.Typing.Complaint

/-!
# Rules keep what matches

Elaborators match when they end alike in scopes that match.  Every rule makes elaborators that match
from elaborators that match.
-/

namespace LittleTypes

/-- Elaborators that end alike in all scopes that match. -/
structure Elaborator.Matches (P : Pairing) (E E' : Elaborator) : Prop where
  loc : E.loc = E'.loc
  synth : ∀ {N M s s'}, Scope.Matches P N M s s' →
    Checked.Agree (Judgment.Matches M) (E.synth s) (E'.synth s')
  check : ∀ {N M s s' t t'}, Scope.Matches P N M s s' → Value.Matches N t t' →
    Checked.Agree (Term.Matches M) (E.check s t) (E'.check s' t')
  isType : ∀ {N M s s'}, Scope.Matches P N M s s' →
    Checked.Agree (Term.Matches M) (E.isType s) (E'.isType s')

/-- Parameters that correspond one by one, around elaborators that match. -/
inductive MatchParams : Pairing → List Site → Elaborator → List Site → Elaborator → Prop
  | nil {P : Pairing} {E E' : Elaborator} : E.Matches P E' → MatchParams P [] E [] E'
  | cons {P : Pairing} {site site' : Site} {xs xs' : List Site} {E E' : Elaborator} :
    site.Matches site' → MatchParams (P.bind site.name site'.name) xs E xs' E' →
      MatchParams P (site :: xs) E (site' :: xs') E'

/-- Binders that correspond one by one, around elaborators that match. -/
inductive MatchBinders : Pairing → List (Site × Elaborator) → Elaborator →
    List (Site × Elaborator) → Elaborator → Prop
  | nil {P : Pairing} {E E' : Elaborator} : E.Matches P E' → MatchBinders P [] E [] E'
  | cons {P : Pairing} {site site' : Site} {A A' : Elaborator} {bs bs' : List (Site × Elaborator)}
    {E E' : Elaborator} :
    site.Matches site' → A.Matches P A' → MatchBinders (P.bind site.name site'.name) bs E bs' E' →
      MatchBinders P ((site, A) :: bs) E ((site', A') :: bs') E'

namespace Elaborator.Matches

variable {fuel : Nat} {P : Pairing} {loc : Location}

theorem ofCheck {check check' : Scope → Value → Checked Term}
    (h : ∀ {N M s s' t t'}, Scope.Matches P N M s s' → Value.Matches N t t' →
      Checked.Agree (Term.Matches M) (check s t) (check' s' t')) :
    (Elaborator.ofCheck loc check).Matches P (Elaborator.ofCheck loc check') where
  loc := rfl
  synth _ := .stop ..
  check := h
  isType hs := h hs (.const _)

theorem checkSynth {synth synth' : Scope → Checked Judgment} {N M : Pairing} {s s' : Scope}
    (hs : Scope.Matches P N M s s')
    (h : Checked.Agree (Judgment.Matches M) (synth s) (synth' s')) {t t' : Value}
    (ht : t.Matches N t') :
    Checked.Agree (Term.Matches M) (Elaborator.checkSynth fuel loc synth s t)
      (Elaborator.checkSynth fuel loc synth' s' t') :=
  h.bind fun _ _ hj ↦ (hs.eval hj.type).bind fun _ _ hv ↦
    (hs.sameType loc hv ht).bind fun _ _ _ ↦ .pure hj.term

theorem ofSynth {synth synth' : Scope → Checked Judgment}
    (h : ∀ {N M s s'}, Scope.Matches P N M s s' →
      Checked.Agree (Judgment.Matches M) (synth s) (synth' s')) :
    (Elaborator.ofSynth fuel loc synth).Matches P (Elaborator.ofSynth fuel loc synth') where
  loc := rfl
  synth := h
  check hs ht := checkSynth hs (h hs) ht
  isType hs := checkSynth hs (h hs) (.const _)

theorem ofFormer {former former' : Bool → Scope → Checked Term}
    (h : ∀ inU {N M s s'}, Scope.Matches P N M s s' →
      Checked.Agree (Term.Matches M) (former inU s) (former' inU s')) :
    (Elaborator.ofFormer fuel loc former).Matches P (Elaborator.ofFormer fuel loc former') where
  loc := rfl
  synth hs := (h true hs).bind fun _ _ ht ↦ .pure ⟨.const _, ht⟩
  check hs ht := checkSynth hs ((h true hs).bind fun _ _ ht ↦ .pure ⟨.const _, ht⟩) ht
  isType hs := h false hs

theorem missing : (Elaborator.missing fuel).Matches P (Elaborator.missing fuel) :=
  ofSynth fun _ ↦ .stop ..

theorem component {E E' : Elaborator} (h : E.Matches P E') (inU : Bool) {N M : Pairing}
    {s s' : Scope} (hs : Scope.Matches P N M s s') :
    Checked.Agree (Term.Matches M) (E.component inU s) (E'.component inU s') := by
  cases inU with
  | true => exact h.check hs (.const _)
  | false => exact h.isType hs

end Elaborator.Matches

namespace Rule

open Elaborator.Matches

variable {fuel : Nat} {P : Pairing} (loc : Location) {A A' B B' C C' D D' E E' : Elaborator}

/-! ## Variables, annotations and unfinished expressions -/

variable (fuel) in
/-- What is said of a name that is not in scope. -/
theorem var_synth_of_resolve_eq_none {s : Scope} {x : String} (h : s.resolve x = none) :
    ∃ ps, ((var fuel loc x).synth s).outcome = .error (.stop ⟨.scope, loc, ps⟩) := by
  simp only [var, Elaborator.ofSynth]
  split
  · exact ⟨_, rfl⟩
  · rename_i hc
    rw [Scope.resolve, if_neg hc] at h
    cases ht : s.context.typeOf? (s.names.rename x) with
    | some t => simp [ht] at h
    | none => exact ⟨_, rfl⟩

/-- A name in scope is what it stands for. -/
theorem var_synth_of_resolve_eq_some {s : Scope} {x y : String} {t : Value}
    (h : s.resolve x = some y) (ht : s.context.typeOf? y = some t) :
    (var fuel loc x).synth s = s.judge fuel t (.var y) := by
  rw [Scope.resolve] at h
  split at h
  · cases h
  · rename_i hc
    split at h
    · cases h
      simp only [var, Elaborator.ofSynth, if_neg hc, ht]
    · cases h

theorem matches_var {x y : String} (h : P x y) : (var fuel loc x).Matches P (var fuel loc y) := by
  refine ofSynth fun {N M s s'} hs ↦ ?_
  change Checked.Agree _ ((var fuel loc x).synth s) ((var fuel loc y).synth s')
  have hr := hs.resolve x y h
  generalize hx : s.resolve x = o at hr
  generalize hy : s'.resolve y = o' at hr
  cases hr with
  | some hM =>
    obtain ⟨t, t', ht, ht', htt'⟩ := hs.context.type _ _ hM
    rw [var_synth_of_resolve_eq_some loc hx ht, var_synth_of_resolve_eq_some loc hy ht']
    exact hs.judge htt' (.var hM)
  | none =>
    obtain ⟨_, hs⟩ := var_synth_of_resolve_eq_none fuel loc hx
    obtain ⟨_, hs'⟩ := var_synth_of_resolve_eq_none fuel loc hy
    rw [Checked.Agree, hs, hs']
    exact .stop rfl rfl

theorem matches_the (hA : A.Matches P A') (hE : E.Matches P E') :
    (the fuel loc A E).Matches P (the fuel loc A' E') :=
  ofSynth fun hs ↦ (hA.isType hs).bind fun _ _ ht ↦ (hs.eval ht).bind fun _ _ hv ↦
    (hE.check hs hv).bind fun _ _ he ↦ hs.judge hv he

theorem matches_hole : (hole fuel loc).Matches P (hole fuel loc) :=
  ofCheck fun hs ht ↦ (hs.readBackType ht).bind fun _ _ ht ↦
    (Checked.Agree.note ..).bind fun _ _ _ ↦ .pure (.hole (hs.toTerm ht))

/-! ## Functions -/

theorem lambdaFrom_agree {xs xs' : List Site} (h : MatchParams P xs E xs' E') {N M : Pairing}
    {s s' : Scope} (hs : Scope.Matches P N M s s') {t t' : Value} (ht : t.Matches N t') :
    Checked.Agree (Term.Matches M) (lambdaFrom fuel E xs s t) (lambdaFrom fuel E' xs' s' t') := by
  induction h generalizing N M s s' t t' with
  | nil hE => exact hE.check hs ht
  | @cons _ site site' _ _ _ _ hsite hrest ih =>
    refine hsite.checkName.bind fun _ _ _ ↦ ?_
    rw [hsite.loc]
    refine (hs.expectPi _ ht).bind ?_
    rintro ⟨_, d, c⟩ ⟨_, d', c'⟩ ⟨hd, hc⟩
    have hx := s.context.fresh_not_mem site.name
    have hx' := s'.context.fresh_not_mem site'.name
    have hle := hs.context.unknownWithin.le_bind hx hx'
    refine (hs.bind hx hx' hd).bind fun _ _ hb ↦ ?_
    refine (Scope.Matches.enter (hc.mono hle) (.ofVar (hd.mono hle))).bind fun _ _ hv ↦ ?_
    exact (ih hb hv).bind fun _ _ hb ↦ .pure (.lam hb)

theorem matches_lambda {xs xs' : List Site} (h : MatchParams P xs E xs' E') :
    (lambda fuel loc xs E).Matches P (lambda fuel loc xs' E') := by
  refine ofCheck fun hs ht ↦ ?_
  cases h with
  | nil => exact .stop ..
  | cons hsite hrest => exact lambdaFrom_agree (.cons hsite hrest) hs ht

theorem appFrom_agree {args args' : List Elaborator}
    (h : List.Forall₂ (Elaborator.Matches P) args args') {N M : Pairing} {s s' : Scope}
    (hs : Scope.Matches P N M s s') {j j' : Judgment} (hj : j.Matches M j') :
    Checked.Agree (Judgment.Matches M) (appFrom fuel s args j) (appFrom fuel s' args' j') := by
  induction h generalizing j j' with
  | nil => exact .pure hj
  | cons hE _ ih =>
    rw [appFrom, appFrom, hE.loc]
    refine (hs.eval hj.type).bind fun _ _ ht ↦ (hs.expectPi _ ht).bind ?_
    rintro ⟨_, d, c⟩ ⟨_, d', c'⟩ ⟨hd, hc⟩
    refine (hE.check hs hd).bind fun _ _ ha ↦ (hs.eval ha).bind fun _ _ hv ↦ ?_
    refine (Scope.Matches.enter hc hv).bind fun _ _ hT ↦ (hs.readBackType hT).bind fun _ _ hT ↦ ?_
    exact ih ⟨hs.toTerm hT, .app hj.term ha⟩

theorem matches_app (hE : E.Matches P E') {args args' : List Elaborator}
    (h : List.Forall₂ (Elaborator.Matches P) args args') :
    (app fuel loc E args).Matches P (app fuel loc E' args') := by
  refine ofSynth fun hs ↦ ?_
  cases h with
  | nil => exact .stop ..
  | cons hA h => exact (hE.synth hs).bind fun _ _ hj ↦ appFrom_agree (.cons hA h) hs hj

/-- A name that does not occur in a term can be bound around it. -/
theorem matches_freshBinder {M : Pairing} {Γ Γ' : Context} {b b' : Term} (hb : b.Matches M b')
    (hint : String) :
    b.Matches (M.bind (Γ.freshBinder b hint) (Γ'.freshBinder b' hint)) b' := by
  refine hb.mono fun a ha a' ha' h ↦ .inr ⟨?_, ?_, h⟩
  · rintro rfl
    exact (Γ.freshBinder_not_mem b hint).2 ha
  · rintro rfl
    exact (Γ'.freshBinder_not_mem b' hint).2 ha'

theorem arrowFrom_agree (inU : Bool) {As As' : List Elaborator} (hA : A.Matches P A')
    (h : List.Forall₂ (Elaborator.Matches P) As As') {N M : Pairing} {s s' : Scope}
    (hs : Scope.Matches P N M s s') :
    Checked.Agree (Term.Matches M) (arrowFrom inU s A As) (arrowFrom inU s' A' As') := by
  induction h generalizing A A' with
  | nil => exact hA.component inU hs
  | cons hB _ ih =>
    exact (hA.component inU hs).bind fun _ _ ha ↦ (ih hB).bind fun _ _ hb ↦
      .pure (.pi ha (matches_freshBinder hb _))

theorem matches_arrow {As As' : List Elaborator}
    (h : List.Forall₂ (Elaborator.Matches P) As As') :
    (arrow fuel loc As).Matches P (arrow fuel loc As') := by
  refine ofFormer fun inU {_ _ _ _} hs ↦ ?_
  cases h with
  | nil => exact .stop ..
  | cons hA h =>
    cases h with
    | nil => exact .stop ..
    | cons hB h => exact arrowFrom_agree inU hA (.cons hB h) hs

section Binders

variable {bs bs' : List (Site × Elaborator)} (h : MatchBinders P bs E bs' E')

include h

variable (fuel) in
theorem bindersFrom_agree (inU : Bool) {build : String → Term → Term → Term}
    (hbuild : ∀ {M x y a a' b b'}, Term.Matches M a a' → Term.Matches (M.bind x y) b b' →
      Term.Matches M (build x a b) (build y a' b'))
    {N M : Pairing} {s s' : Scope} (hs : Scope.Matches P N M s s') :
    Checked.Agree (Term.Matches M) (bindersFrom fuel inU build E bs s)
      (bindersFrom fuel inU build E' bs' s') := by
  induction h generalizing N M s s' with
  | nil hE => exact hE.component inU hs
  | cons hsite hA _ ih =>
    refine hsite.checkName.bind fun _ _ _ ↦ (hA.component inU hs).bind fun _ _ ha ↦ ?_
    refine (hs.eval ha).bind fun _ _ hv ↦ ?_
    refine (hs.bind (s.context.fresh_not_mem _) (s'.context.fresh_not_mem _) hv).bind
      fun _ _ hb ↦ ?_
    exact (ih hb).bind fun _ _ hb ↦ .pure (hbuild ha hb)

theorem matches_pi : (pi fuel loc bs E).Matches P (pi fuel loc bs' E') := by
  refine ofFormer fun inU {_ _ _ _} hs ↦ ?_
  have := bindersFrom_agree fuel h inU Term.Matches.pi hs
  cases h with
  | nil => exact .stop ..
  | cons => exact this

theorem matches_sigma : (sigma fuel loc bs E).Matches P (sigma fuel loc bs' E') := by
  refine ofFormer fun inU {_ _ _ _} hs ↦ ?_
  have := bindersFrom_agree fuel h inU Term.Matches.sigma hs
  cases h with
  | nil => exact .stop ..
  | cons => exact this

end Binders

/-! ## Pairs -/

theorem matches_pair (hA : A.Matches P A') (hB : B.Matches P B') :
    (pair fuel loc A B).Matches P (pair fuel loc A' B') :=
  ofFormer fun inU {_ _ _ _} hs ↦ (hA.component inU hs).bind fun _ _ ha ↦
    (hB.component inU hs).bind fun _ _ hb ↦ .pure (.sigma ha (matches_freshBinder hb _))

theorem matches_cons (hA : A.Matches P A') (hB : B.Matches P B') :
    (cons fuel loc A B).Matches P (cons fuel loc A' B') := by
  refine ofCheck fun hs ht ↦ (hs.expectSigma _ ht).bind ?_
  rintro ⟨d, c⟩ ⟨d', c'⟩ ⟨hd, hc⟩
  refine (hA.check hs hd).bind fun _ _ ha ↦ (hs.eval ha).bind fun _ _ hv ↦ ?_
  exact (Scope.Matches.enter hc hv).bind fun _ _ hT ↦ (hB.check hs hT).bind fun _ _ hb ↦
    .pure (.binary ha hb)

theorem matches_car (hE : E.Matches P E') : (car fuel loc E).Matches P (car fuel loc E') := by
  refine ofSynth fun hs ↦ (hE.synth hs).bind fun _ _ hj ↦ (hs.eval hj.type).bind fun _ _ hT ↦ ?_
  exact (hs.expectSigma _ hT).bind fun _ _ h ↦ hs.judge h.1 (.project hj.term)

theorem matches_cdr (hE : E.Matches P E') : (cdr fuel loc E).Matches P (cdr fuel loc E') := by
  refine ofSynth fun hs ↦ (hE.synth hs).bind fun _ _ hj ↦ (hs.eval hj.type).bind fun _ _ hT ↦ ?_
  refine (hs.expectSigma _ hT).bind fun _ _ h ↦ (hs.eval hj.term).bind fun _ _ hv ↦ ?_
  refine (Checked.Agree.ofEval ((machine_matched fuel).doProject _ .car hv)).bind fun _ _ ha ↦ ?_
  exact (Scope.Matches.enter h.2 ha).bind fun _ _ hr ↦ hs.judge hr (.project hj.term)

/-! ## Constants -/

theorem matches_univ : (univ fuel loc).Matches P (univ fuel loc) := by
  refine ofFormer fun inU {_ _ _ _} _ ↦ ?_
  cases inU with
  | true => exact .stop ..
  | false => exact .pure (.const _)

theorem matches_nil : (nil fuel loc).Matches P (nil fuel loc) :=
  ofCheck fun hs ht ↦ (hs.expectList _ ht).bind fun _ _ _ ↦ .pure (.const _)

theorem matches_vecnil : (vecnil fuel loc).Matches P (vecnil fuel loc) := by
  refine ofCheck fun hs ht ↦ (hs.expectVec _ ht).bind ?_
  rintro ⟨_, l⟩ ⟨_, l'⟩ ⟨-, hl⟩
  refine (Scope.Matches.force hl).bind fun _ _ hv ↦ ?_
  cases hv with
  | const k => cases k <;> first | exact hs.stopAtLength loc hl _ | exact .pure (.const _)
  | _ => exact hs.stopAtLength loc hl _

theorem matches_const (k : Const) : (const fuel loc k).Matches P (const fuel loc k) := by
  cases k with
  | univ => exact matches_univ loc
  | nil => exact matches_nil loc
  | vecnil => exact matches_vecnil loc
  | nat | atom | trivial | absurd => exact ofFormer fun _ {_ _ _ _} _ ↦ .pure (.const _)
  | zero | sole => exact ofSynth fun _ ↦ .pure ⟨.const _, .const _⟩

theorem matches_numeral (n : Nat) :
    (plainValue fuel loc .nat (.numeral n)).Matches P (plainValue fuel loc .nat (.numeral n)) :=
  ofSynth fun _ ↦ .pure ⟨.const _, .numeral n⟩

theorem matches_quote (sym : String) : (quote fuel loc sym).Matches P (quote fuel loc sym) := by
  refine ofSynth fun _ ↦ ?_
  split
  · exact .pure ⟨.const _, .quote sym⟩
  · exact .stop ..

/-! ## Constructors -/

theorem matches_same (hE : E.Matches P E') : (same fuel loc E).Matches P (same fuel loc E') := by
  refine ofCheck fun hs ht ↦ (hs.expectEqual _ ht).bind fun _ _ h ↦ ?_
  refine (hE.check hs h.1).bind fun _ _ he ↦ (hs.eval he).bind fun _ _ hv ↦ ?_
  refine (hs.convert _ h.1 h.2.1 hv).bind fun _ _ _ ↦ ?_
  exact (hs.convert _ h.1 h.2.2 hv).bind fun _ _ _ ↦ .pure (.unary he)

theorem matches_unary (k : Unary) (hE : E.Matches P E') :
    (unary fuel loc k E).Matches P (unary fuel loc k E') := by
  cases k with
  | add1 => exact ofSynth fun hs ↦ (hE.check hs (.const _)).bind fun _ _ h ↦ .pure ⟨.const _, .unary h⟩
  | list => exact ofFormer fun inU {_ _ _ _} hs ↦ (hE.component inU hs).bind fun _ _ h ↦ .pure (.unary h)
  | same => exact matches_same loc hE
  | left =>
    exact ofCheck fun hs ht ↦ (hs.expectEither _ ht).bind fun _ _ h ↦
      (hE.check hs h.1).bind fun _ _ he ↦ .pure (.unary he)
  | right =>
    exact ofCheck fun hs ht ↦ (hs.expectEither _ ht).bind fun _ _ h ↦
      (hE.check hs h.2).bind fun _ _ he ↦ .pure (.unary he)

theorem matches_listCons (hA : A.Matches P A') (hB : B.Matches P B') :
    (listCons fuel loc A B).Matches P (listCons fuel loc A' B') :=
  ofSynth fun hs ↦ (hA.synth hs).bind fun _ _ hj ↦ (hs.eval hj.type).bind fun _ _ hT ↦
    (hB.check hs (.unary hT)).bind fun _ _ hb ↦ hs.judge (.unary hT) (.binary hj.term hb)

theorem matches_vecCons (hA : A.Matches P A') (hB : B.Matches P B') :
    (vecCons fuel loc A B).Matches P (vecCons fuel loc A' B') := by
  refine ofCheck fun hs ht ↦ (hs.expectVec _ ht).bind fun _ _ h ↦ ?_
  refine (hs.expectAdd1 _ h.2 _).bind fun _ _ hk ↦ (hA.check hs h.1).bind fun _ _ ha ↦ ?_
  exact (hB.check hs (.binary h.1 hk)).bind fun _ _ hb ↦ .pure (.binary ha hb)

theorem matches_binary (k : Binary) (hA : A.Matches P A') (hB : B.Matches P B') :
    (binary fuel loc k A B).Matches P (binary fuel loc k A' B') := by
  cases k with
  | cons => exact matches_cons loc hA hB
  | listCons => exact matches_listCons loc hA hB
  | vec =>
    exact ofFormer fun inU {_ _ _ _} hs ↦ (hA.component inU hs).bind fun _ _ ha ↦
      (hB.check hs (.const _)).bind fun _ _ hb ↦ .pure (.binary ha hb)
  | vecCons => exact matches_vecCons loc hA hB
  | either =>
    exact ofFormer fun inU {_ _ _ _} hs ↦ (hA.component inU hs).bind fun _ _ ha ↦
      (hB.component inU hs).bind fun _ _ hb ↦ .pure (.binary ha hb)

theorem matches_equal (hA : A.Matches P A') (hB : B.Matches P B') (hC : C.Matches P C') :
    (equal fuel loc A B C).Matches P (equal fuel loc A' B' C') :=
  ofFormer fun inU {_ _ _ _} hs ↦ (hA.component inU hs).bind fun _ _ ht ↦
    (hs.eval ht).bind fun _ _ hT ↦ (hB.check hs hT).bind fun _ _ hl ↦
      (hC.check hs hT).bind fun _ _ hr ↦ .pure (.equal ht hl hr)

/-! ## Numbers and lists -/

theorem matches_natRecursor (k : Recursor) {stepType : Value → Value}
    (hstep : ∀ {N B B'}, Value.Matches N B B' → (stepType B).Matches N (stepType B'))
    (hA : A.Matches P A') (hB : B.Matches P B') (hC : C.Matches P C') :
    (natRecursor fuel loc k stepType A B C).Matches P
      (natRecursor fuel loc k stepType A' B' C') :=
  ofSynth fun hs ↦ (hA.check hs (.const _)).bind fun _ _ ht ↦ (hB.synth hs).bind fun _ _ hb ↦
    (hs.eval hb.type).bind fun _ _ hT ↦ (hC.check hs (hstep hT)).bind fun _ _ hst ↦
      .pure ⟨hb.type, .recursor ht hb.type hb.term hst⟩

theorem matches_recList (hA : A.Matches P A') (hB : B.Matches P B') (hC : C.Matches P C') :
    (recList fuel loc A B C).Matches P (recList fuel loc A' B' C') := by
  refine ofSynth fun hs ↦ (hA.synth hs).bind fun _ _ ht ↦ (hs.eval ht.type).bind fun _ _ hT ↦ ?_
  rw [hA.loc]
  refine (hs.expectList _ hT).bind fun _ _ he ↦ (hB.synth hs).bind fun _ _ hb ↦ ?_
  refine (hs.eval hb.type).bind fun _ _ hT ↦ ?_
  exact (hC.check hs (he.arrow (he.unary.arrow (hT.arrow hT)))).bind fun _ _ hst ↦
    .pure ⟨hb.type, .recursor ht.term hb.type hb.term hst⟩

theorem matches_recursor (k : Recursor) (hA : A.Matches P A') (hB : B.Matches P B')
    (hC : C.Matches P C') : (recursor fuel loc k A B C).Matches P (recursor fuel loc k A' B' C') := by
  cases k with
  | whichNat => exact matches_natRecursor loc _ (fun h ↦ .arrow (.const _) h) hA hB hC
  | iterNat => exact matches_natRecursor loc _ (fun h ↦ .arrow h h) hA hB hC
  | recNat => exact matches_natRecursor loc _ (fun h ↦ .arrow (.const _) (.arrow h h)) hA hB hC
  | recList => exact matches_recList loc hA hB hC

theorem matches_indNat (hA : A.Matches P A') (hB : B.Matches P B') (hC : C.Matches P C')
    (hD : D.Matches P D') : (indNat fuel loc A B C D).Matches P (indNat fuel loc A' B' C' D') := by
  refine ofSynth fun hs ↦ (hA.check hs (.const _)).bind fun _ _ ht ↦ ?_
  refine (hB.check hs (.arrow (.const _) (.const _))).bind fun _ _ hm ↦ ?_
  refine (hs.eval hm).bind fun _ _ hM ↦ ?_
  refine (Scope.Matches.apply hM (.const _)).bind fun _ _ hT ↦ (hC.check hs hT).bind fun _ _ hb ↦ ?_
  refine (hD.check hs (.pi (.const _) (.natStep hM))).bind fun _ _ hst ↦ ?_
  exact (hs.eval ht).bind fun _ _ hv ↦ (Scope.Matches.apply hM hv).bind fun _ _ hr ↦
    hs.judge hr (.induct ht hm hb hst)

theorem matches_indList (hA : A.Matches P A') (hB : B.Matches P B') (hC : C.Matches P C')
    (hD : D.Matches P D') :
    (indList fuel loc A B C D).Matches P (indList fuel loc A' B' C' D') := by
  refine ofSynth fun hs ↦ (hA.synth hs).bind fun _ _ ht ↦ (hs.eval ht.type).bind fun _ _ hT ↦ ?_
  rw [hA.loc]
  refine (hs.expectList _ hT).bind fun _ _ he ↦ ?_
  refine (hB.check hs (.arrow he.unary (.const _))).bind fun _ _ hm ↦ ?_
  refine (hs.eval hm).bind fun _ _ hM ↦ ?_
  refine (Scope.Matches.apply hM (.const _)).bind fun _ _ hT ↦ (hC.check hs hT).bind fun _ _ hb ↦ ?_
  refine (hD.check hs (.pi he (.listStep he hM))).bind fun _ _ hst ↦ ?_
  exact (hs.eval ht.term).bind fun _ _ hv ↦ (Scope.Matches.apply hM hv).bind fun _ _ hr ↦
    hs.judge hr (.induct ht.term hm hb hst)

/-! ## Sums and the empty type -/

theorem matches_indEither (hA : A.Matches P A') (hB : B.Matches P B') (hC : C.Matches P C')
    (hD : D.Matches P D') :
    (indEither fuel loc A B C D).Matches P (indEither fuel loc A' B' C' D') := by
  refine ofSynth fun hs ↦ (hA.synth hs).bind fun _ _ ht ↦ (hs.eval ht.type).bind fun _ _ hT ↦ ?_
  rw [hA.loc]
  refine (hs.expectEither _ hT).bind fun _ _ h ↦ ?_
  refine (hB.check hs (.arrow (.binary h.1 h.2) (.const _))).bind fun _ _ hm ↦ ?_
  refine (hs.eval hm).bind fun _ _ hM ↦ ?_
  refine (hC.check hs (.pi h.1 (.eitherCase hM))).bind fun _ _ hl ↦ ?_
  refine (hD.check hs (.pi h.2 (.eitherCase hM))).bind fun _ _ hr ↦ ?_
  exact (hs.eval ht.term).bind fun _ _ hv ↦ (Scope.Matches.apply hM hv).bind fun _ _ hT ↦
    hs.judge hT (.induct ht.term hm hl hr)

theorem matches_induct (k : Induction) (hA : A.Matches P A') (hB : B.Matches P B')
    (hC : C.Matches P C') (hD : D.Matches P D') :
    (induct fuel loc k A B C D).Matches P (induct fuel loc k A' B' C' D') := by
  cases k with
  | indNat => exact matches_indNat loc hA hB hC hD
  | indList => exact matches_indList loc hA hB hC hD
  | indEither => exact matches_indEither loc hA hB hC hD

theorem matches_indAbsurd (hA : A.Matches P A') (hB : B.Matches P B') :
    (indAbsurd fuel loc A B).Matches P (indAbsurd fuel loc A' B') :=
  ofSynth fun hs ↦ (hA.check hs (.const _)).bind fun _ _ ht ↦ (hB.isType hs).bind fun _ _ hm ↦
    .pure ⟨hm, .indAbsurd ht hm⟩

/-! ## Equalities -/

theorem synthEqual_agree (hE : E.Matches P E') {N M : Pairing} {s s' : Scope}
    (hs : Scope.Matches P N M s s') :
    Checked.Agree (fun p p' ↦ p.1.Matches M p'.1 ∧ p.2.1.Matches N p'.2.1 ∧
      p.2.2.1.Matches N p'.2.2.1 ∧ p.2.2.2.Matches N p'.2.2.2)
      (synthEqual fuel E s) (synthEqual fuel E' s') := by
  rw [synthEqual, synthEqual, hE.loc]
  exact (hE.synth hs).bind fun _ _ hj ↦ (hs.eval hj.type).bind fun _ _ hT ↦
    (hs.expectEqual _ hT).bind fun _ _ h ↦ .pure ⟨hj.term, h⟩

theorem matches_replace (hA : A.Matches P A') (hB : B.Matches P B') (hC : C.Matches P C') :
    (replace fuel loc A B C).Matches P (replace fuel loc A' B' C') := by
  refine ofSynth fun hs ↦ (synthEqual_agree hA hs).bind ?_
  rintro ⟨_, _, _, _⟩ ⟨_, _, _, _⟩ ⟨ht, hT, hl, hr⟩
  refine (hB.check hs (.arrow hT (.const _))).bind fun _ _ hm ↦ (hs.eval hm).bind fun _ _ hM ↦ ?_
  refine (Scope.Matches.apply hM hl).bind fun _ _ hT ↦ (hC.check hs hT).bind fun _ _ hb ↦ ?_
  exact (Scope.Matches.apply hM hr).bind fun _ _ hR ↦ hs.judge hR (.transport ht hm hb)

theorem matches_indEqual (hA : A.Matches P A') (hB : B.Matches P B') (hC : C.Matches P C') :
    (indEqual fuel loc A B C).Matches P (indEqual fuel loc A' B' C') := by
  refine ofSynth fun hs ↦ (synthEqual_agree hA hs).bind ?_
  rintro ⟨_, _, _, _⟩ ⟨_, _, _, _⟩ ⟨ht, hT, hl, hr⟩
  refine (hB.check hs (.pi hT (.equalMotive hT hl))).bind fun _ _ hm ↦ ?_
  refine (hs.eval hm).bind fun _ _ hM ↦ (Scope.Matches.apply hM hl).bind fun _ _ hf ↦ ?_
  refine (Scope.Matches.apply hf hl.unary).bind fun _ _ hT ↦ (hC.check hs hT).bind fun _ _ hb ↦ ?_
  refine (Scope.Matches.apply hM hr).bind fun _ _ hf ↦ (hs.eval ht).bind fun _ _ hv ↦ ?_
  exact (Scope.Matches.apply hf hv).bind fun _ _ hR ↦ hs.judge hR (.transport ht hm hb)

theorem matches_transport (k : Transport) (hA : A.Matches P A') (hB : B.Matches P B')
    (hC : C.Matches P C') :
    (transport fuel loc k A B C).Matches P (transport fuel loc k A' B' C') := by
  cases k with
  | replace => exact matches_replace loc hA hB hC
  | indEqual => exact matches_indEqual loc hA hB hC

theorem matches_trans (hA : A.Matches P A') (hB : B.Matches P B') :
    (trans fuel loc A B).Matches P (trans fuel loc A' B') := by
  refine ofSynth fun hs ↦ (synthEqual_agree hA hs).bind ?_
  rintro ⟨_, _, _, _⟩ ⟨_, _, _, _⟩ ⟨ht, hT, hl, hm⟩
  refine (synthEqual_agree hB hs).bind ?_
  rintro ⟨_, _, _, _⟩ ⟨_, _, _, _⟩ ⟨ht', hT', hm', hr⟩
  refine (hs.sameType _ hT' hT).bind fun _ _ _ ↦ (hs.convert _ hT hm hm').bind fun _ _ _ ↦ ?_
  exact hs.judge (.equal hT hl hr) (.trans ht ht')

/-- A name outside of a term that is apart from it occurs in it only as a free name. -/
theorem mem_free_of_apart {Γ : Context} {x : String} {t : Value} {c : Term}
    (h : c.Apart ((x, .free t) :: Γ)) (hx : x ∈ c.names) : x ∈ c.free :=
  (Term.mem_free_or_mem_binders hx).resolve_right fun hb ↦ h x hb List.mem_cons_self

/-- Whether a normal form depends on the name under which it is read back. -/
theorem contains_eq {N : Pairing} {Γ Γ' : Context} {x y : String} {t t' : Value} {c c' : Term}
    (hN : N.OneToOne) (hc : c.Matches (N.bind x y) c') (h : c.Apart ((x, .free t) :: Γ))
    (h' : c'.Apart ((y, .free t') :: Γ')) : c.names.contains x = c'.names.contains y := by
  rw [Bool.eq_iff_iff, List.contains_iff_mem, List.contains_iff_mem]
  constructor
  · intro hx
    obtain ⟨b, hb, hxb⟩ := hc.exists_of_mem_free (mem_free_of_apart h hx)
    obtain rfl : y = b := (hN.bind Pairing.bind_self hxb).1 rfl
    exact Term.mem_names_of_mem_free hb
  · intro hy
    obtain ⟨b, hb, hby⟩ := hc.flip.exists_of_mem_free (mem_free_of_apart h' hy)
    obtain rfl : x = b := (hN.bind Pairing.bind_self hby).2 rfl
    exact Term.mem_names_of_mem_free hb

/-- The result type of a function, read back under a new name. -/
theorem readCodomain_agree {N M : Pairing} {s s' : Scope} (hs : Scope.Matches P N M s s')
    {x y : String} {d d' : Value} {c c' : Closure} (hx : x ∉ s.context.names)
    (hy : y ∉ s'.context.names) (hd : d.Matches N d') (hc : c.Matches N c') {α : Type}
    {R : α → α → Prop} {f g : Term → Checked α}
    (h : ∀ b b', b.Matches (N.bind x y) b' → b.names.contains x = b'.names.contains y →
      Checked.Agree R (f b) (g b')) :
    Checked.Agree R
      (Checked.ofRead (s.context.bindFree x d) >>= fun Γ ↦
        Scope.enter fuel c (.ofVar x d) >>= fun v ↦ Checked.ofRead (Γ.readBackType fuel v) >>= f)
      (Checked.ofRead (s'.context.bindFree y d') >>= fun Γ ↦
        Scope.enter fuel c' (.ofVar y d') >>= fun v ↦
          Checked.ofRead (Γ.readBackType fuel v) >>= g) := by
  rw [Context.bindFree_eq_ok hx, Context.bindFree_eq_ok hy]
  have hle := hs.context.unknownWithin.le_bind hx hy
  have hΓ := hs.context.free hx hy hd
  refine (Checked.Agree.pure (R := fun Γ Γ' ↦ Γ = _ ∧ Γ' = _) ⟨rfl, rfl⟩).bind ?_
  rintro _ _ ⟨rfl, rfl⟩
  refine (Scope.Matches.enter (hc.mono hle) (.ofVar (hd.mono hle))).bind fun v v' hv ↦ ?_
  have hread := (hΓ.readBackType hv).and (reader_apart fuel _ _) (reader_apart fuel _ _)
  refine (Checked.Agree.ofRead hread).bind ?_
  rintro b b' ⟨hb, hl, hr⟩
  exact h b b' hb (contains_eq hs.context.unknownOneToOne hb hl hr)

/-- Whatever is said of functions that are dependent. -/
theorem matches_congSaying {say say' : Complaint} (hA : A.Matches P A') (hB : B.Matches P B') :
    (congSaying say fuel loc A B).Matches P (congSaying say' fuel loc A' B') := by
  refine ofSynth fun {N M s s'} hs ↦ (synthEqual_agree hA hs).bind ?_
  rintro ⟨_, _, _, _⟩ ⟨_, _, _, _⟩ ⟨ht, hT, hl, hr⟩
  refine (hB.synth hs).bind fun _ _ hj ↦ (hs.eval hj.type).bind fun _ _ hF ↦ ?_
  rw [hB.loc]
  refine (hs.expectPi _ hF).bind ?_
  rintro ⟨x, d, c⟩ ⟨x', d', c'⟩ ⟨hd, hc⟩
  refine (hs.sameType _ hT hd).bind fun _ _ _ ↦ ?_
  refine readCodomain_agree hs (s.context.fresh_not_mem x) (s'.context.fresh_not_mem x') hd hc
    fun b b' hb hdep ↦ ?_
  rw [← hdep]
  split
  · exact .stop ..
  · rename_i hx
    have hb' : b.Matches N b' := hb.mono fun a ha _ _ h ↦
      Pairing.of_bind h fun e ↦ hx (List.contains_iff_mem.2 (e ▸ ha))
    refine (hs.eval hj.term).bind fun _ _ hf ↦ (hs.eval (hs.toTerm hb')).bind fun _ _ hC ↦ ?_
    refine (Scope.Matches.apply hf hl).bind fun _ _ hl' ↦ ?_
    refine (Scope.Matches.apply hf hr).bind fun _ _ hr' ↦ ?_
    exact hs.judge (.equal hC hl' hr') (.cong ht (hs.toTerm hb') hj.term)

theorem matches_symm (hE : E.Matches P E') : (symm fuel loc E).Matches P (symm fuel loc E') :=
  ofSynth fun hs ↦ (synthEqual_agree hE hs).bind fun _ _ h ↦
    hs.judge (.equal h.2.1 h.2.2.2 h.2.2.1) (.project h.1)

/-! ## Vectors -/

theorem synthNonEmpty_agree (hE : E.Matches P E') {N M : Pairing} {s s' : Scope}
    (hs : Scope.Matches P N M s s') :
    Checked.Agree (fun p p' ↦ p.1.Matches M p'.1 ∧ p.2.1.Matches N p'.2.1 ∧
      p.2.2.Matches N p'.2.2) (synthNonEmpty fuel E s) (synthNonEmpty fuel E' s') := by
  rw [synthNonEmpty, synthNonEmpty, hE.loc]
  exact (hE.synth hs).bind fun _ _ hj ↦ (hs.eval hj.type).bind fun _ _ hT ↦
    (hs.expectVec _ hT).bind fun _ _ h ↦ (hs.expectAdd1 _ h.2 _).bind fun _ _ hk ↦
      .pure ⟨hj.term, h.1, hk⟩

theorem matches_project (k : Projection) (hE : E.Matches P E') :
    (project fuel loc k E).Matches P (project fuel loc k E') := by
  cases k with
  | car => exact matches_car loc hE
  | cdr => exact matches_cdr loc hE
  | symm => exact matches_symm loc hE
  | head =>
    exact ofSynth fun hs ↦ (synthNonEmpty_agree hE hs).bind fun _ _ h ↦
      hs.judge h.2.1 (.project h.1)
  | tail =>
    exact ofSynth fun hs ↦ (synthNonEmpty_agree hE hs).bind fun _ _ h ↦
      hs.judge (.binary h.2.1 h.2.2) (.project h.1)

theorem matches_indVec (hA : A.Matches P A') (hB : B.Matches P B') (hC : C.Matches P C')
    (hD : D.Matches P D') (hE : E.Matches P E') :
    (indVec fuel loc A B C D E).Matches P (indVec fuel loc A' B' C' D' E') := by
  refine ofSynth fun hs ↦ (hA.check hs (.const _)).bind fun _ _ hn ↦ (hB.synth hs).bind fun _ _ ht ↦ ?_
  rw [hA.loc, hB.loc]
  refine (hs.eval ht.type).bind fun _ _ hT ↦ (hs.expectVec _ hT).bind fun _ _ h ↦ ?_
  refine (hs.eval hn).bind fun _ _ hN ↦ (hs.convert _ (.const _) hN h.2).bind fun _ _ _ ↦ ?_
  refine (hC.check hs (.pi (.const _) (.vecMotive h.1))).bind fun _ _ hm ↦ ?_
  refine (hs.eval hm).bind fun _ _ hM ↦ (Scope.Matches.apply hM (.const _)).bind fun _ _ hf ↦ ?_
  refine (Scope.Matches.apply hf (.const _)).bind fun _ _ hT ↦ (hD.check hs hT).bind fun _ _ hb ↦ ?_
  refine (hE.check hs (.pi (.const _) (.vecStep h.1 hM))).bind fun _ _ hst ↦ ?_
  refine (Scope.Matches.apply hM hN).bind fun _ _ hf ↦ (hs.eval ht.term).bind fun _ _ hv ↦ ?_
  exact (Scope.Matches.apply hf hv).bind fun _ _ hr ↦ hs.judge hr (.indVec hn ht.term hm hb hst)

end Rule

end LittleTypes
