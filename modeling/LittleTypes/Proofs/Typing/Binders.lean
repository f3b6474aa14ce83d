import LittleTypes.Proofs.Legal.Rules
import LittleTypes.Proofs.Typing.Mistakes
import LittleTypes.Session.Query

/-!
# The binders of elaborated terms

Elaboration and reading back give every binder a name that is not in use where it stands: the
context does not have it, and no binder around it has it.  Most binders are named when their bodies
are still to be elaborated, in a context that then has the name.  The binders of types without
dependency are named last, by a name that does not occur in the body.
-/

namespace LittleTypes

open Checked

/-- Both the type and the term bind new names only. -/
def Judgment.BindsNew (used : List String) (j : Judgment) : Prop :=
  j.type.BindsNew used ∧ j.term.BindsNew used

/-- The binder of a type that does not use it is new, and is new for what the type binds. -/
theorem Context.bindsNew_freshBinder {Γ : Context} {t : Term} (ht : t.BindsNew Γ.names)
    (hint : String) :
    Γ.freshBinder t hint ∉ Γ.names ∧ t.BindsNew (Γ.freshBinder t hint :: Γ.names) := by
  obtain ⟨hΓ, hnames⟩ := Γ.freshBinder_not_mem t hint
  exact ⟨hΓ, ht.cons fun h ↦ hnames (Term.mem_names_of_mem_binders h)⟩

/-- The context under a binder has one more name in use. -/
theorem Context.answers_bindFree_fresh (Γ : Context) (hint : String) (t : Value) :
    Answers (fun Δ ↦ Δ.names = Γ.fresh hint :: Γ.names) (Γ.bindFree (Γ.fresh hint) t) := by
  rw [bindFree_eq_ok (Γ.fresh_not_mem hint)]
  exact .pure rfl

namespace Scope

variable (fuel : Nat) (s : Scope) (v : Value)

theorem yields_readBackType :
    Yields (Term.BindsNew s.context.names) (s.readBackType fuel v) :=
  .ofRead (reader_bindsNew fuel _ _)

theorem yields_judge {t : Term} (ht : t.BindsNew s.context.names) :
    Yields (Judgment.BindsNew s.context.names) (s.judge fuel v t) :=
  (s.yields_readBackType fuel v).bind fun _ hu ↦ .pure ⟨hu, ht⟩

theorem yields_bind_fresh (x : String) :
    Yields (fun s' ↦ s'.context.names = s.context.fresh x :: s.context.names)
      (s.bind x (s.context.fresh x) v) :=
  .ofRead ((s.context.answers_bindFree_fresh x v).bind fun _ hΓ ↦ .pure hΓ)

end Scope

/-- An elaborator that binds new names only. -/
structure Elaborator.BindsNew (e : Elaborator) : Prop where
  synth : ∀ s, Yields (Judgment.BindsNew s.context.names) (e.synth s)
  check : ∀ s v, Yields (Term.BindsNew s.context.names) (e.check s v)
  isType : ∀ s, Yields (Term.BindsNew s.context.names) (e.isType s)

namespace Elaborator.BindsNew

variable {fuel : Nat} {loc : Location}

theorem ofCheck {check : Scope → Value → Checked Term}
    (h : ∀ s v, Yields (Term.BindsNew s.context.names) (check s v)) :
    (Elaborator.ofCheck loc check).BindsNew where
  synth _ := .stop _ _ _
  check := h
  isType s := h s _

theorem checkSynth {synth : Scope → Checked Judgment}
    (h : ∀ s, Yields (Judgment.BindsNew s.context.names) (synth s)) (s : Scope) (v : Value) :
    Yields (Term.BindsNew s.context.names) (Elaborator.checkSynth fuel loc synth s v) :=
  (h s).bind fun _ hj ↦ .after fun _ ↦ .after fun _ ↦ .pure hj.2

theorem ofSynth {synth : Scope → Checked Judgment}
    (h : ∀ s, Yields (Judgment.BindsNew s.context.names) (synth s)) :
    (Elaborator.ofSynth fuel loc synth).BindsNew where
  synth := h
  check := checkSynth h
  isType s := checkSynth h s _

theorem ofFormer {former : Bool → Scope → Checked Term}
    (h : ∀ inU s, Yields (Term.BindsNew s.context.names) (former inU s)) :
    (Elaborator.ofFormer fuel loc former).BindsNew where
  synth s := (h true s).bind fun _ ht ↦ .pure ⟨trivial, ht⟩
  check := checkSynth fun s ↦ (h true s).bind fun _ ht ↦ .pure ⟨trivial, ht⟩
  isType s := h false s

theorem component {e : Elaborator} (h : e.BindsNew) (inU : Bool) (s : Scope) :
    Yields (Term.BindsNew s.context.names) (e.component inU s) := by
  cases inU with
  | true => exact h.check s _
  | false => exact h.isType s

end Elaborator.BindsNew

namespace Rule

open Elaborator.BindsNew

variable {fuel : Nat} {loc : Location} {a b c d e : Elaborator}

/-! ## Forms without parts -/

theorem bindsNew_var (x : String) : (var fuel loc x).BindsNew := by
  refine ofSynth fun s ↦ ?_
  split
  · exact .stop _ _ _
  · dsimp only
    split
    · exact s.yields_judge fuel _ trivial
    · exact .after fun _ ↦ nofun

theorem bindsNew_hole : (hole fuel loc).BindsNew :=
  ofCheck fun s v ↦ (s.yields_readBackType fuel v).bind fun _ ht ↦ .after fun _ ↦ .pure ht

theorem bindsNew_univ : (univ fuel loc).BindsNew := by
  refine ofFormer fun inU s ↦ ?_
  split
  · exact .stop _ _ _
  · exact .pure trivial

theorem bindsNew_plainType (k : Const) : (plainType fuel loc k).BindsNew :=
  ofFormer fun _ _ ↦ .pure trivial

theorem bindsNew_const (k : Const) : (const fuel loc k).BindsNew := by
  cases k with
  | univ => exact bindsNew_univ
  | nat | atom | trivial | absurd => exact bindsNew_plainType _
  | zero | sole => exact ofSynth fun _ ↦ .pure ⟨trivial, trivial⟩
  | nil => exact ofCheck fun _ _ ↦ .after fun _ ↦ .pure trivial
  | vecnil =>
    refine ofCheck fun _ _ ↦ .after fun p ↦ .after fun v ↦ ?_
    split
    · exact .pure trivial
    · exact .after fun _ ↦ .stop _ _ _

theorem bindsNew_numeral (n : Nat) : (plainValue fuel loc .nat (.numeral n)).BindsNew :=
  ofSynth fun _ ↦ .pure ⟨trivial, trivial⟩

theorem bindsNew_quote (x : String) : (quote fuel loc x).BindsNew := by
  refine ofSynth fun _ ↦ ?_
  split
  · exact .pure ⟨trivial, trivial⟩
  · exact .stop _ _ _

/-! ## Forms with binders -/

/-- The body is elaborated where the name of its binder is in use. -/
theorem bindsNew_lambdaFrom (ha : a.BindsNew) (params : List Site) (s : Scope) (v : Value) :
    Yields (Term.BindsNew s.context.names) (lambdaFrom fuel a params s v) := by
  induction params generalizing s v with
  | nil => exact ha.check s v
  | cons site params ih =>
    refine .after fun _ ↦ .after fun p ↦ (s.yields_bind_fresh p.2.1 site.name).bind fun s' hs' ↦ ?_
    refine .after fun w ↦ (ih s' w).bind fun t ht ↦ .pure ?_
    exact ⟨s.context.fresh_not_mem _, hs' ▸ ht⟩

theorem bindsNew_lambda (ha : a.BindsNew) (params : List Site) :
    (lambda fuel loc params a).BindsNew := by
  refine ofCheck fun s v ↦ ?_
  split
  · exact .stop _ _ _
  · exact bindsNew_lambdaFrom ha _ s v

theorem bindsNew_bindersFrom (inU : Bool) (build : String → Term → Term → Term)
    (hbuild : ∀ {used x t u}, x ∉ used → Term.BindsNew used t → Term.BindsNew (x :: used) u →
      (build x t u).BindsNew used)
    (ha : a.BindsNew) {binders : List (Site × Elaborator)} (h : ∀ b ∈ binders, b.2.BindsNew)
    (s : Scope) :
    Yields (Term.BindsNew s.context.names) (bindersFrom fuel inU build a binders s) := by
  induction binders generalizing s with
  | nil => exact ha.component inU s
  | cons b binders ih =>
    obtain ⟨hb, h⟩ := List.forall_mem_cons.1 h
    refine .after fun _ ↦ (hb.component inU s).bind fun t ht ↦ ?_
    refine .after fun v ↦ (s.yields_bind_fresh v b.1.name).bind fun s' hs' ↦ ?_
    refine (ih h s').bind fun u hu ↦ .pure ?_
    exact hbuild (s.context.fresh_not_mem _) ht (hs' ▸ hu)

theorem bindsNew_pi (ha : a.BindsNew) {binders : List (Site × Elaborator)}
    (h : ∀ b ∈ binders, b.2.BindsNew) : (pi fuel loc binders a).BindsNew := by
  refine ofFormer fun inU s ↦ ?_
  split
  · exact .stop _ _ _
  · exact bindsNew_bindersFrom inU .pi (fun hx ht hu ↦ ⟨hx, ht, hu⟩) ha h s

theorem bindsNew_sigma (ha : a.BindsNew) {binders : List (Site × Elaborator)}
    (h : ∀ b ∈ binders, b.2.BindsNew) : (sigma fuel loc binders a).BindsNew := by
  refine ofFormer fun inU s ↦ ?_
  split
  · exact .stop _ _ _
  · exact bindsNew_bindersFrom inU .sigma (fun hx ht hu ↦ ⟨hx, ht, hu⟩) ha h s

/-- The names of arguments that are not used are chosen from the inside to the outside. -/
theorem bindsNew_arrowFrom (inU : Bool) (s : Scope) (ha : a.BindsNew) {types : List Elaborator}
    (h : ∀ a ∈ types, a.BindsNew) :
    Yields (Term.BindsNew s.context.names) (arrowFrom inU s a types) := by
  induction types generalizing a with
  | nil => exact ha.component inU s
  | cons b types ih =>
    obtain ⟨hb, h⟩ := List.forall_mem_cons.1 h
    refine (ha.component inU s).bind fun t ht ↦ (ih hb h).bind fun u hu ↦ .pure ?_
    obtain ⟨hx, hu⟩ := Context.bindsNew_freshBinder hu "x"
    exact ⟨hx, ht, hu⟩

theorem bindsNew_arrow {types : List Elaborator} (h : ∀ a ∈ types, a.BindsNew) :
    (arrow fuel loc types).BindsNew := by
  refine ofFormer fun inU s ↦ ?_
  split
  · obtain ⟨ha, h⟩ := List.forall_mem_cons.1 h
    exact bindsNew_arrowFrom inU s ha h
  · exact .stop _ _ _

theorem bindsNew_pair (ha : a.BindsNew) (hb : b.BindsNew) : (pair fuel loc a b).BindsNew := by
  refine ofFormer fun inU s ↦ (ha.component inU s).bind fun t ht ↦ ?_
  refine (hb.component inU s).bind fun u hu ↦ .pure ?_
  obtain ⟨hx, hu⟩ := Context.bindsNew_freshBinder hu "x"
  exact ⟨hx, ht, hu⟩

/-! ## Forms without binders

Their parts are elaborated where they stand themselves. -/

theorem bindsNew_the (hb : b.BindsNew) : (the fuel loc a b).BindsNew :=
  ofSynth fun s ↦ .after fun _ ↦ .after fun v ↦ (hb.check s v).bind fun _ ht ↦
    s.yields_judge fuel v ht

theorem bindsNew_appFrom {args : List Elaborator} (h : ∀ a ∈ args, a.BindsNew) {s : Scope}
    {f : Judgment} (hf : f.BindsNew s.context.names) :
    Yields (Judgment.BindsNew s.context.names) (appFrom fuel s args f) := by
  induction args generalizing f with
  | nil => exact .pure hf
  | cons a args ih =>
    obtain ⟨ha, h⟩ := List.forall_mem_cons.1 h
    refine .after fun v ↦ .after fun p ↦ (ha.check s p.2.1).bind fun t ht ↦ ?_
    refine .after fun w ↦ .after fun u ↦ (s.yields_readBackType fuel u).bind fun r hr ↦ ?_
    exact ih h ⟨hr, hf.2, ht⟩

theorem bindsNew_app (ha : a.BindsNew) {args : List Elaborator} (h : ∀ a ∈ args, a.BindsNew) :
    (app fuel loc a args).BindsNew := by
  refine ofSynth fun s ↦ ?_
  split
  · exact .stop _ _ _
  · exact (ha.synth s).bind fun f hf ↦ bindsNew_appFrom h hf

section

variable (ha : a.BindsNew) (hb : b.BindsNew) (hc : c.BindsNew) (hd : d.BindsNew) (he : e.BindsNew)

include ha

theorem bindsNew_list : (list fuel loc a).BindsNew :=
  ofFormer fun inU s ↦ (ha.component inU s).bind fun _ ht ↦ .pure ht

theorem bindsNew_unary (k : Unary) : (unary fuel loc k a).BindsNew := by
  cases k with
  | add1 => exact ofSynth fun s ↦ (ha.check s _).bind fun _ ht ↦ .pure ⟨trivial, ht⟩
  | list => exact bindsNew_list ha
  | same =>
    refine ofCheck fun s v ↦ .after fun p ↦ (ha.check s p.1).bind fun t ht ↦ ?_
    exact .after fun _ ↦ .after fun _ ↦ .after fun _ ↦ .pure ht
  | left => exact ofCheck fun s v ↦ .after fun p ↦ (ha.check s p.1).bind fun _ ht ↦ .pure ht
  | right => exact ofCheck fun s v ↦ .after fun p ↦ (ha.check s p.2).bind fun _ ht ↦ .pure ht

theorem bindsNew_synthEqual (s : Scope) :
    Yields (fun p ↦ p.1.BindsNew s.context.names) (synthEqual fuel a s) :=
  (ha.synth s).bind fun _ hj ↦ .after fun _ ↦ .after fun _ ↦ .pure hj.2

theorem bindsNew_synthNonEmpty (s : Scope) :
    Yields (fun p ↦ p.1.BindsNew s.context.names) (synthNonEmpty fuel a s) :=
  (ha.synth s).bind fun _ hj ↦ .after fun _ ↦ .after fun _ ↦ .after fun _ ↦ .pure hj.2

theorem bindsNew_project (k : Projection) : (project fuel loc k a).BindsNew := by
  cases k with
  | car =>
    exact ofSynth fun s ↦ (ha.synth s).bind fun j hj ↦ .after fun v ↦ .after fun p ↦
      s.yields_judge fuel _ hj.2
  | cdr =>
    exact ofSynth fun s ↦ (ha.synth s).bind fun j hj ↦ .after fun _ ↦ .after fun _ ↦
      .after fun _ ↦ .after fun _ ↦ .after fun _ ↦ s.yields_judge fuel _ hj.2
  | symm =>
    exact ofSynth fun s ↦ (bindsNew_synthEqual ha s).bind fun _ hp ↦ s.yields_judge fuel _ hp
  | head | tail =>
    exact ofSynth fun s ↦ (bindsNew_synthNonEmpty ha s).bind fun _ hp ↦ s.yields_judge fuel _ hp

include hb

theorem bindsNew_vec : (vec fuel loc a b).BindsNew := by
  refine ofFormer fun inU s ↦ (ha.component inU s).bind fun t ht ↦ ?_
  exact (hb.check s _).bind fun _ hn ↦ .pure ⟨ht, hn⟩

theorem bindsNew_either : (either fuel loc a b).BindsNew := by
  refine ofFormer fun inU s ↦ (ha.component inU s).bind fun t ht ↦ ?_
  exact (hb.component inU s).bind fun _ hu ↦ .pure ⟨ht, hu⟩

theorem bindsNew_binary (k : Binary) : (binary fuel loc k a b).BindsNew := by
  cases k with
  | cons =>
    refine ofCheck fun s v ↦ .after fun p ↦ (ha.check s p.1).bind fun t ht ↦ .after fun w ↦ ?_
    exact .after fun u ↦ (hb.check s u).bind fun _ hd ↦ .pure ⟨ht, hd⟩
  | listCons =>
    refine ofSynth fun s ↦ (ha.synth s).bind fun j hj ↦ .after fun v ↦ ?_
    exact (hb.check s _).bind fun _ ht ↦ s.yields_judge fuel _ ⟨hj.2, ht⟩
  | vec => exact bindsNew_vec ha hb
  | vecCons =>
    refine ofCheck fun s v ↦ .after fun p ↦ .after fun k ↦ (ha.check s p.1).bind fun t ht ↦ ?_
    exact (hb.check s _).bind fun _ hu ↦ .pure ⟨ht, hu⟩
  | either => exact bindsNew_either ha hb

theorem bindsNew_indAbsurd : (indAbsurd fuel loc a b).BindsNew :=
  ofSynth fun s ↦ (ha.check s _).bind fun _ ht ↦ (hb.isType s).bind fun _ hm ↦
    .pure ⟨hm, ht, hm⟩

theorem bindsNew_trans : (trans fuel loc a b).BindsNew :=
  ofSynth fun s ↦ (bindsNew_synthEqual ha s).bind fun _ hl ↦
    (bindsNew_synthEqual hb s).bind fun _ hr ↦ .after fun _ ↦ .after fun _ ↦
      s.yields_judge fuel _ ⟨hl, hr⟩

/-- The result type of the function is read back under a name that is not in use where it is put. -/
theorem bindsNew_cong : (cong fuel loc a b).BindsNew := by
  refine ofSynth fun s ↦ (bindsNew_synthEqual ha s).bind fun p hp ↦ (hb.synth s).bind fun j hj ↦ ?_
  refine .after fun _ ↦ .after fun q ↦ .after fun _ ↦ ?_
  refine (Yields.ofRead (s.context.answers_bindFree_fresh q.1 q.2.1)).bind fun Γ hΓ ↦ ?_
  refine .after fun v ↦ (Yields.ofRead (reader_bindsNew fuel Γ (.type v))).bind fun t ht ↦ ?_
  have ht : t.BindsNew s.context.names := ht.mono (hΓ ▸ List.subset_cons_self _ _)
  split
  · exact .stop _ _ _
  · exact .after fun _ ↦ .after fun _ ↦ .after fun _ ↦ .after fun _ ↦
      s.yields_judge fuel _ ⟨hp, ht, hj.2⟩

include hc

theorem bindsNew_equal : (equal fuel loc a b c).BindsNew := by
  refine ofFormer fun inU s ↦ (ha.component inU s).bind fun t ht ↦ .after fun v ↦ ?_
  exact (hb.check s v).bind fun l hl ↦ (hc.check s v).bind fun r hr ↦ .pure ⟨ht, hl, hr⟩

theorem bindsNew_natRecursor (k : Recursor) (stepType : Value → Value) :
    (natRecursor fuel loc k stepType a b c).BindsNew := by
  refine ofSynth fun s ↦ (ha.check s _).bind fun t ht ↦ (hb.synth s).bind fun j hj ↦ ?_
  exact .after fun v ↦ (hc.check s _).bind fun u hu ↦ .pure ⟨hj.1, ht, hj.1, hj.2, hu⟩

theorem bindsNew_recursor (k : Recursor) : (recursor fuel loc k a b c).BindsNew := by
  cases k with
  | whichNat | iterNat | recNat => exact bindsNew_natRecursor ha hb hc _ _
  | recList =>
    refine ofSynth fun s ↦ (ha.synth s).bind fun i hi ↦ .after fun _ ↦ .after fun _ ↦ ?_
    refine (hb.synth s).bind fun j hj ↦ .after fun _ ↦ (hc.check s _).bind fun u hu ↦ ?_
    exact .pure ⟨hj.1, hi.2, hj.1, hj.2, hu⟩

theorem bindsNew_transport (k : Transport) : (transport fuel loc k a b c).BindsNew := by
  cases k with
  | replace =>
    refine ofSynth fun s ↦ (bindsNew_synthEqual ha s).bind fun p hp ↦ ?_
    refine (hb.check s _).bind fun m hm ↦ .after fun _ ↦ .after fun v ↦ ?_
    exact (hc.check s v).bind fun u hu ↦ .after fun _ ↦ s.yields_judge fuel _ ⟨hp, hm, hu⟩
  | indEqual =>
    refine ofSynth fun s ↦ (bindsNew_synthEqual ha s).bind fun p hp ↦ ?_
    refine (hb.check s _).bind fun m hm ↦ .after fun _ ↦ .after fun _ ↦ .after fun v ↦ ?_
    exact (hc.check s v).bind fun u hu ↦ .after fun _ ↦ .after fun _ ↦ .after fun _ ↦
      s.yields_judge fuel _ ⟨hp, hm, hu⟩

include hd

theorem bindsNew_induct (k : Induction) : (induct fuel loc k a b c d).BindsNew := by
  cases k with
  | indNat =>
    refine ofSynth fun s ↦ (ha.check s _).bind fun t ht ↦ (hb.check s _).bind fun m hm ↦ ?_
    refine .after fun _ ↦ .after fun v ↦ (hc.check s v).bind fun b' hb' ↦ ?_
    exact (hd.check s _).bind fun u hu ↦ .after fun _ ↦ .after fun _ ↦
      s.yields_judge fuel _ ⟨ht, hm, hb', hu⟩
  | indList =>
    refine ofSynth fun s ↦ (ha.synth s).bind fun j hj ↦ .after fun _ ↦ .after fun _ ↦ ?_
    refine (hb.check s _).bind fun m hm ↦ .after fun _ ↦ .after fun v ↦ ?_
    exact (hc.check s v).bind fun b' hb' ↦ (hd.check s _).bind fun u hu ↦ .after fun _ ↦
      .after fun _ ↦ s.yields_judge fuel _ ⟨hj.2, hm, hb', hu⟩
  | indEither =>
    refine ofSynth fun s ↦ (ha.synth s).bind fun j hj ↦ .after fun _ ↦ .after fun _ ↦ ?_
    refine (hb.check s _).bind fun m hm ↦ .after fun _ ↦ (hc.check s _).bind fun l hl ↦ ?_
    exact (hd.check s _).bind fun r hr ↦ .after fun _ ↦ .after fun _ ↦
      s.yields_judge fuel _ ⟨hj.2, hm, hl, hr⟩

include he

theorem bindsNew_indVec : (indVec fuel loc a b c d e).BindsNew := by
  refine ofSynth fun s ↦ (ha.check s _).bind fun n hn ↦ (hb.synth s).bind fun j hj ↦ ?_
  refine .after fun _ ↦ .after fun _ ↦ .after fun _ ↦ .after fun _ ↦ ?_
  refine (hc.check s _).bind fun m hm ↦ .after fun _ ↦ .after fun _ ↦ .after fun v ↦ ?_
  refine (hd.check s v).bind fun b' hb' ↦ (he.check s _).bind fun u hu ↦ ?_
  exact .after fun _ ↦ .after fun _ ↦ .after fun _ ↦
    s.yields_judge fuel _ ⟨hn, hj.2, hm, hb', hu⟩

end

end Rule

/-! ## Elaboration -/

namespace Source

open Rule Elaborator.BindsNew

mutual

theorem elaborator_bindsNew (fuel : Nat) (e : Source) : (e.elaborator fuel).BindsNew := by
  match e with
  | missing => exact ofSynth fun _ ↦ .stop _ _ _
  | var l x => exact bindsNew_var x
  | hole l => exact bindsNew_hole
  | the l t e => exact bindsNew_the (elaborator_bindsNew fuel e)
  | app l f args => exact bindsNew_app (elaborator_bindsNew fuel f) (elaborators_bindsNew fuel args)
  | numeral l n => exact bindsNew_numeral n
  | quote l s => exact bindsNew_quote s
  | lam l params b => exact bindsNew_lambda (elaborator_bindsNew fuel b) params
  | pi l binders b =>
    exact bindsNew_pi (elaborator_bindsNew fuel b) (binderElaborators_bindsNew fuel binders)
  | sigma l binders b =>
    exact bindsNew_sigma (elaborator_bindsNew fuel b) (binderElaborators_bindsNew fuel binders)
  | arrow l types => exact bindsNew_arrow (elaborators_bindsNew fuel types)
  | pair l a d => exact bindsNew_pair (elaborator_bindsNew fuel a) (elaborator_bindsNew fuel d)
  | const l k => exact bindsNew_const k
  | unary l k a => exact bindsNew_unary (elaborator_bindsNew fuel a) k
  | binary l k a b =>
    exact bindsNew_binary (elaborator_bindsNew fuel a) (elaborator_bindsNew fuel b) k
  | equal l t a b =>
    exact bindsNew_equal (elaborator_bindsNew fuel t) (elaborator_bindsNew fuel a)
      (elaborator_bindsNew fuel b)
  | project l k t => exact bindsNew_project (elaborator_bindsNew fuel t) k
  | recursor l k t b s =>
    exact bindsNew_recursor (elaborator_bindsNew fuel t) (elaborator_bindsNew fuel b)
      (elaborator_bindsNew fuel s) k
  | induct l k t m b s =>
    exact bindsNew_induct (elaborator_bindsNew fuel t) (elaborator_bindsNew fuel m)
      (elaborator_bindsNew fuel b) (elaborator_bindsNew fuel s) k
  | transport l k t m b =>
    exact bindsNew_transport (elaborator_bindsNew fuel t) (elaborator_bindsNew fuel m)
      (elaborator_bindsNew fuel b) k
  | indAbsurd l t m =>
    exact bindsNew_indAbsurd (elaborator_bindsNew fuel t) (elaborator_bindsNew fuel m)
  | trans l a b => exact bindsNew_trans (elaborator_bindsNew fuel a) (elaborator_bindsNew fuel b)
  | cong l t f => exact bindsNew_cong (elaborator_bindsNew fuel t) (elaborator_bindsNew fuel f)
  | indVec l n t m b s =>
    exact bindsNew_indVec (elaborator_bindsNew fuel n) (elaborator_bindsNew fuel t)
      (elaborator_bindsNew fuel m) (elaborator_bindsNew fuel b) (elaborator_bindsNew fuel s)

theorem elaborators_bindsNew (fuel : Nat) (es : List Source) :
    ∀ a ∈ elaborators fuel es, a.BindsNew := by
  match es with
  | [] => exact nofun
  | e :: es =>
    rintro a (_ | ⟨_, ha⟩)
    · exact elaborator_bindsNew fuel e
    · exact elaborators_bindsNew fuel es a ha

theorem binderElaborators_bindsNew (fuel : Nat) (binders : List (Site × Source)) :
    ∀ b ∈ binderElaborators fuel binders, b.2.BindsNew := by
  match binders with
  | [] => exact nofun
  | (site, t) :: binders =>
    rintro b (_ | ⟨_, hb⟩)
    · exact elaborator_bindsNew fuel t
    · exact binderElaborators_bindsNew fuel binders b hb

end

end Source

/-! ## Terms that are renamed apart -/

/-- The binders of a term are renamed apart from a context and from each other: none binds a name
that the context has, of whatever kind, and none has a second binder of its name in its body. -/
def Term.RenamedApart (Γ : Context) (t : Term) : Prop := t.Apart Γ ∧ t.Unshadowed

/-- **Bound variables are renamed apart.**  Whatever is elaborated in a scope or read back in its
context, in whichever way, has binders that are renamed apart from the context and from each
other. -/
theorem Scope.answers_renamedApart (fuel : Nat) (s : Scope) (e : Source) (type v : Value)
    (n : Neutral) :
    Answers (fun j ↦ j.toTerm.RenamedApart s.context) (e.synth fuel s).outcome ∧
      Answers (Term.RenamedApart s.context) (e.check fuel s type).outcome ∧
      Answers (Term.RenamedApart s.context) (e.isType fuel s).outcome ∧
      Answers (Term.RenamedApart s.context) (s.context.readBack fuel type v) ∧
      Answers (Term.RenamedApart s.context) (s.context.readBackType fuel v) ∧
      Answers (Term.RenamedApart s.context) (s.context.readBackNeutral fuel n) := by
  have he := e.elaborator_bindsNew fuel
  have hr := reader_bindsNew fuel s.context
  exact ⟨fun j hj ↦ Term.bindsNew_iff.1 (he.synth s j hj),
    fun t ht ↦ Term.bindsNew_iff.1 (he.check s type t ht),
    fun t ht ↦ Term.bindsNew_iff.1 (he.isType s t ht),
    fun t ht ↦ Term.bindsNew_iff.1 (hr (.value type v) t ht),
    fun t ht ↦ Term.bindsNew_iff.1 (hr (.type v) t ht),
    fun t ht ↦ Term.bindsNew_iff.1 (hr (.neutral n) t ht)⟩

/-- Two binders of one name in a context that claims the name. -/
example : ((Source.pi {} [(⟨{}, "x"⟩, .const {} .nat), (⟨{}, "x"⟩, .const {} .nat)]
    (.equal {} (.const {} .nat) (.var {} "x") (.var {} "x"))).isType 5
      (Context.scope [("x", .claim (.const .nat))])).outcome =
    .ok (.pi "x₁" (.const .nat) (.pi "x₂" (.const .nat)
      (.equal (.const .nat) (.var "x₂") (.var "x₂")))) := by
  rfl

/-! ## Names that are bound once -/

/-- The check does not fail because a name would be bound twice. -/
def Checked.BindsOnce {α : Type} (x : Checked α) : Prop :=
  ∀ f, x.outcome = .error (.fault f) → f.BindsOnce

theorem Checked.InExpression.bindsOnce {α : Type} {x : Checked α} (h : x.InExpression) :
    x.BindsOnce := fun f ↦ h (.fault f)

theorem Checked.inExpression_onStop {α : Type} {x : Checked α} {f : Stop → Checked α}
    (hx : x.InExpression) (hf : ∀ s : Stop, s.InExpression → (f s).InExpression) :
    (x.onStop f).InExpression := by
  obtain ⟨log, outcome⟩ := x
  match outcome, hx with
  | .ok a, _ => exact nofun
  | .error (.stop s), hx => exact hf s (hx (.stop s) rfl)
  | .error (.fault e), hx => exact hx

namespace Context

variable (fuel : Nat) (Γ : Context) (e : Source)

theorem rep_inExpression : (Γ.rep fuel e).InExpression := by
  have he := (e.elaborator_inExpression fuel).synth
  simp [rep, Source.synth, he]

theorem normType_inExpression : (Γ.normType fuel e).InExpression := by
  have he := (e.elaborator_inExpression fuel).isType
  simp [normType, Source.isType, he]

theorem norm_inExpression : (Γ.norm fuel e).InExpression :=
  inExpression_onStop (Γ.rep_inExpression fuel e) fun s hs ↦
    inExpression_onStop (Γ.normType_inExpression fuel e) fun _ _ ↦ (inExpression_fail s).2 hs

theorem checkSame_inExpression (loc : Location) (type a b : Source) :
    (Γ.checkSame fuel loc type a b).InExpression := by
  have htype := (type.elaborator_inExpression fuel).isType
  have ha := (a.elaborator_inExpression fuel).check
  have hb := (b.elaborator_inExpression fuel).check
  simp [checkSame, Source.isType, Source.check, htype, ha, hb]

end Context

/-- **No name is bound twice.**  In every scope, with any names in the context and any renaming,
elaboration, comparison, evaluation, reading back, listing the context and the questions made of
these may fail, but never because a name would be bound that is bound already. -/
theorem Scope.names_bound_once (fuel : Nat) (s : Scope) (loc : Location) (e type a b : Source)
    (t : Term) (T v w : Value) (n : Neutral) :
    (e.synth fuel s).BindsOnce ∧ (e.check fuel s T).BindsOnce ∧ (e.isType fuel s).BindsOnce ∧
      (s.convert fuel loc T v w).BindsOnce ∧ (s.sameType fuel loc v w).BindsOnce ∧
      BindsOnce (liftM (s.context.eval fuel t)) ∧
      BindsOnce (s.context.readBack fuel T v) ∧
      BindsOnce (s.context.readBackType fuel v) ∧
      BindsOnce (s.context.readBackNeutral fuel n) ∧
      BindsOnce (s.context.listing fuel) ∧
      (s.context.rep fuel e).BindsOnce ∧ (s.context.norm fuel e).BindsOnce ∧
      (s.context.normType fuel e).BindsOnce ∧
      (s.context.checkSame fuel loc type a b).BindsOnce := by
  have he := e.elaborator_inExpression fuel
  have hread := reader_careful fuel s.context
  refine ⟨(he.synth s).bindsOnce, (he.check s T).bindsOnce, (he.isType s).bindsOnce, ?_⟩
  refine ⟨(s.inExpression_convert fuel loc T v w).bindsOnce,
    (s.inExpression_sameType fuel loc v w).bindsOnce, .lift _, ?_⟩
  refine ⟨hread (.value T v), hread (.type v), hread (.neutral n), s.context.listing_bindsOnce fuel,
    ?_⟩
  exact ⟨(s.context.rep_inExpression fuel e).bindsOnce,
    (s.context.norm_inExpression fuel e).bindsOnce, (s.context.normType_inExpression fuel e).bindsOnce,
    (s.context.checkSame_inExpression fuel loc type a b).bindsOnce⟩

/-- A declaration does fail for this reason. -/
example : Context.declareAt 2 [("x", .claim (.const .nat))] .passing (.free "x" (.const .nat)) =
    .error (.duplicate "x") := by
  rfl

end LittleTypes
