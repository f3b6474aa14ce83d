import LittleTypes.Proofs.Context.Built
import LittleTypes.Proofs.Legal.Rules

/-!
# The elements of the universe

The universe has the small types as its elements, those from which the universe itself is not
reached through the component types of type formers.  A type former is elaborated in two ways, as a
type and as an element of the universe; both agree, but for the types that are not small.
-/

namespace LittleTypes

/-- A type is small when the universe is neither the type itself nor reached from it through the
component types of type formers. -/
def Term.isSmall : Term → Bool
  | const k => k ≠ .univ
  | pi _ a b | sigma _ a b | binary .either a b => a.isSmall && b.isSmall
  | unary .list a | binary .vec a _ | equal a _ _ => a.isSmall
  | _ => true

/-- The term is small. -/
abbrev Term.Small (t : Term) : Prop := t.isSmall

open Checked

namespace Checked

variable {α : Type}

/-- A check that is made of a type and of an element of the universe: as an element of the universe
it is answered if the type is small, and in the same way. -/
def Stratified (x : Bool → Checked Term) : Prop :=
  ∀ t, (x true).outcome = .ok t ↔ (x false).outcome = .ok t ∧ t.Small

namespace Stratified

theorem pure {t : Term} (ht : t.Small) : Stratified fun _ ↦ Pure.pure t := by
  refine fun u ↦ ⟨fun hu ↦ ⟨hu, ?_⟩, And.left⟩
  cases hu
  exact ht

theorem stop (code : Code) (loc : Location) (message : List Part) :
    Stratified fun _ ↦ Checked.stop code loc message := fun _ ↦ ⟨nofun, nofun⟩

/-- A component type, which the rest of the check makes a part of its answer. -/
theorem bind {x : Bool → Checked Term} {f : Bool → Term → Checked Term} (hx : Stratified x)
    (hf : ∀ t, t.Small → Stratified fun inU ↦ f inU t)
    (hs : ∀ t, Yields (fun u ↦ u.Small → t.Small) (f false t)) :
    Stratified fun inU ↦ x inU >>= f inU := by
  intro u
  constructor
  · intro hu
    obtain ⟨t, ht, hu⟩ := outcome_bind_eq_ok_iff.1 hu
    obtain ⟨ht, hts⟩ := (hx t).1 ht
    obtain ⟨hu, hus⟩ := (hf t hts u).1 hu
    exact ⟨outcome_bind_eq_ok_iff.2 ⟨t, ht, hu⟩, hus⟩
  · rintro ⟨hu, hus⟩
    obtain ⟨t, ht, hu⟩ := outcome_bind_eq_ok_iff.1 hu
    have hts := hs t u hu hus
    exact outcome_bind_eq_ok_iff.2 ⟨t, (hx t).2 ⟨ht, hts⟩, (hf t hts u).2 ⟨hu, hus⟩⟩

/-- A step that is the same for types and for elements of the universe. -/
theorem after {x : Checked α} {f : Bool → α → Checked Term}
    (hf : ∀ a, Stratified fun inU ↦ f inU a) : Stratified fun inU ↦ x >>= f inU := by
  intro u
  constructor
  · intro hu
    obtain ⟨a, ha, hu⟩ := outcome_bind_eq_ok_iff.1 hu
    obtain ⟨hu, hus⟩ := (hf a u).1 hu
    exact ⟨outcome_bind_eq_ok_iff.2 ⟨a, ha, hu⟩, hus⟩
  · rintro ⟨hu, hus⟩
    obtain ⟨a, ha, hu⟩ := outcome_bind_eq_ok_iff.1 hu
    exact outcome_bind_eq_ok_iff.2 ⟨a, ha, (hf a u).2 ⟨hu, hus⟩⟩

end Stratified

end Checked

/-- Only a type that is not asked to have a type may fail to be small, and of the types exactly the
small ones are elements of the universe. -/
structure Elaborator.Stratified (e : Elaborator) : Prop where
  synth : ∀ s, Yields (fun j ↦ j.term.Small) (e.synth s)
  check : ∀ s v, Yields Term.Small (e.check s v)
  component : ∀ s, Checked.Stratified fun inU ↦ e.component inU s

namespace Elaborator.Stratified

variable {fuel : Nat} {loc : Location}

/-- What is checked as a type like an element of the universe is small. -/
theorem alike {e : Elaborator} {s : Scope} (h : Yields Term.Small (e.check s (.const .univ)))
    (he : e.isType s = e.check s (.const .univ)) :
    Checked.Stratified fun inU ↦ e.component inU s := by
  intro t
  change (e.check s (.const .univ)).outcome = .ok t ↔ (e.isType s).outcome = .ok t ∧ t.Small
  rw [he]
  exact ⟨fun ht ↦ ⟨ht, h t ht⟩, And.left⟩

theorem ofCheck {check : Scope → Value → Checked Term}
    (h : ∀ s v, Yields Term.Small (check s v)) : (Elaborator.ofCheck loc check).Stratified where
  synth _ := .stop _ _ _
  check := h
  component s := alike (h s _) rfl

theorem checkSynth {synth : Scope → Checked Judgment}
    (h : ∀ s, Yields (fun j ↦ j.term.Small) (synth s)) (s : Scope) (v : Value) :
    Yields Term.Small (Elaborator.checkSynth fuel loc synth s v) :=
  (h s).bind fun _ hj ↦ .after fun _ ↦ .after fun _ ↦ .pure hj

theorem ofSynth {synth : Scope → Checked Judgment}
    (h : ∀ s, Yields (fun j ↦ j.term.Small) (synth s)) :
    (Elaborator.ofSynth fuel loc synth).Stratified where
  synth := h
  check := checkSynth h
  component s := alike (checkSynth h s _) rfl

theorem ofFormer {former : Bool → Scope → Checked Term}
    (h : ∀ s, Checked.Stratified fun inU ↦ former inU s) :
    (Elaborator.ofFormer (fuel + 1) loc former).Stratified := by
  have hs (s : Scope) : Yields (fun j ↦ j.term.Small)
      (do pure (⟨.const .univ, ← former true s⟩ : Judgment)) :=
    Yields.bind (P := Term.Small) (fun t ht ↦ ((h s t).1 ht).2) fun _ ht ↦ .pure ht
  refine ⟨hs, checkSynth hs, fun s t ↦ Iff.trans ?_ (h s t)⟩
  -- the type that is found is the universe, so the comparison with the universe succeeds
  constructor
  · intro ht
    obtain ⟨_, hj, ht⟩ := outcome_bind_eq_ok_iff.1 ht
    obtain ⟨u, hu, hj⟩ := outcome_bind_eq_ok_iff.1 hj
    cases hj
    cases ht
    exact hu
  · intro ht
    exact outcome_bind_eq_ok_iff.2 ⟨⟨.const .univ, t⟩, outcome_bind_eq_ok_iff.2 ⟨t, ht, rfl⟩, rfl⟩

end Elaborator.Stratified

namespace Rule

open Elaborator.Stratified

variable {fuel : Nat} {loc : Location} {a b c d e : Elaborator}

/-! ## Forms that are not type formers

Whatever such a form is elaborated from, the result is small for its outermost constructor. -/

theorem stratified_var (x : String) : (var fuel loc x).Stratified := by
  refine ofSynth fun s ↦ ?_
  split
  · exact .stop _ _ _
  · dsimp only
    split
    · exact .after fun _ ↦ .pure rfl
    · exact .after fun _ ↦ nofun

theorem stratified_hole : (hole fuel loc).Stratified :=
  ofCheck fun _ _ ↦ .after fun _ ↦ .after fun _ ↦ .pure rfl

theorem stratified_numeral (n : Nat) : (plainValue fuel loc .nat (.numeral n)).Stratified :=
  ofSynth fun _ ↦ .pure rfl

theorem stratified_quote (x : String) : (quote fuel loc x).Stratified := by
  refine ofSynth fun _ ↦ ?_
  split
  · exact .pure rfl
  · exact .stop _ _ _

theorem stratified_lambda (params : List Site) : (lambda fuel loc params a).Stratified := by
  refine ofCheck fun s v ↦ ?_
  cases params with
  | nil => exact .stop _ _ _
  | cons site params =>
    exact .after fun _ ↦ .after fun _ ↦ .after fun _ ↦ .after fun _ ↦ .after fun _ ↦ .pure rfl

theorem stratified_project (k : Projection) : (project fuel loc k a).Stratified := by
  cases k <;> refine ofSynth fun _ ↦ ?_ <;> (repeat refine .after fun _ ↦ ?_) <;> exact .pure rfl

theorem stratified_recursor (k : Recursor) : (recursor fuel loc k a b c).Stratified := by
  cases k <;> refine ofSynth fun _ ↦ ?_ <;> (repeat refine .after fun _ ↦ ?_) <;> exact .pure rfl

theorem stratified_induct (k : Induction) : (induct fuel loc k a b c d).Stratified := by
  cases k <;> refine ofSynth fun _ ↦ ?_ <;> (repeat refine .after fun _ ↦ ?_) <;> exact .pure rfl

theorem stratified_transport (k : Transport) : (transport fuel loc k a b c).Stratified := by
  cases k <;> refine ofSynth fun _ ↦ ?_ <;> (repeat refine .after fun _ ↦ ?_) <;> exact .pure rfl

theorem stratified_indAbsurd : (indAbsurd fuel loc a b).Stratified :=
  ofSynth fun _ ↦ .after fun _ ↦ .after fun _ ↦ .pure rfl

theorem stratified_trans : (trans fuel loc a b).Stratified :=
  ofSynth fun _ ↦ .after fun _ ↦ .after fun _ ↦ .after fun _ ↦ .after fun _ ↦ .after fun _ ↦
    .pure rfl

theorem stratified_indVec : (indVec fuel loc a b c d e).Stratified := by
  refine ofSynth fun _ ↦ ?_
  repeat refine .after fun _ ↦ ?_
  exact .pure rfl

theorem stratified_cong : (cong fuel loc a b).Stratified := by
  refine ofSynth fun s ↦ ?_
  iterate 8 refine .after fun _ ↦ ?_
  split
  · exact .stop _ _ _
  · repeat refine .after fun _ ↦ ?_
    exact .pure rfl

/-! ## Forms that pass on a term -/

/-- What an annotated expression is elaborated to was checked against a type. -/
theorem stratified_the (hb : b.Stratified) : (the fuel loc a b).Stratified :=
  ofSynth fun s ↦ .after fun _ ↦ .after fun v ↦ (hb.check s v).bind fun _ ht ↦
    .after fun _ ↦ .pure ht

theorem small_appFrom {s : Scope} {args : List Elaborator} {f : Judgment} (hf : f.term.Small) :
    Yields (fun j ↦ j.term.Small) (appFrom fuel s args f) := by
  induction args generalizing f with
  | nil => exact .pure hf
  | cons a args ih =>
    exact .after fun _ ↦ .after fun _ ↦ .after fun _ ↦ .after fun _ ↦ .after fun _ ↦ .after fun _ ↦
      ih rfl

theorem stratified_app (ha : a.Stratified) (args : List Elaborator) :
    (app fuel loc a args).Stratified := by
  refine ofSynth fun s ↦ ?_
  split
  · exact .stop _ _ _
  · exact (ha.synth s).bind fun _ hf ↦ small_appFrom hf

/-! ## Type formers -/

theorem stratified_univ : (univ (fuel + 1) loc).Stratified := by
  refine ofFormer fun s t ↦ ⟨nofun, ?_⟩
  rintro ⟨⟨⟩, ⟨⟩⟩

theorem stratified_plainType {k : Const} (hk : k ≠ .univ) :
    (plainType (fuel + 1) loc k).Stratified := ofFormer fun _ ↦ .pure (decide_eq_true hk)

theorem stratified_const (k : Const) : (const (fuel + 1) loc k).Stratified := by
  cases k with
  | univ => exact stratified_univ
  | nat | atom | trivial | absurd => exact stratified_plainType nofun
  | zero | sole => exact ofSynth fun _ ↦ .pure rfl
  | nil => exact ofCheck fun _ _ ↦ .after fun _ ↦ .pure rfl
  | vecnil =>
    refine ofCheck fun _ _ ↦ .after fun p ↦ .after fun v ↦ ?_
    split
    · exact .pure rfl
    · exact .after fun _ ↦ .stop _ _ _

/-- A type former with two component types. -/
theorem stratified_two {x y : Bool → Checked Term} {build : Term → Term → Term}
    (hx : Checked.Stratified x) (hy : Checked.Stratified y)
    (hbuild : ∀ t u, (build t u).Small ↔ t.Small ∧ u.Small) :
    Checked.Stratified fun inU ↦ (do
      let t ← x inU
      let u ← y inU
      pure (build t u)) := by
  refine hx.bind (fun t ht ↦ hy.bind (fun u hu ↦ ?_) fun u ↦ ?_) fun t ↦ .after fun u ↦ ?_
  · exact .pure ((hbuild t u).2 ⟨ht, hu⟩)
  · exact .pure fun h ↦ ((hbuild t u).1 h).2
  · exact .pure fun h ↦ ((hbuild t u).1 h).1

theorem stratified_arrowFrom {s : Scope} {types : List Elaborator} (ha : a.Stratified)
    (h : ∀ a ∈ types, a.Stratified) :
    Checked.Stratified fun inU ↦ arrowFrom inU s a types := by
  induction types generalizing a with
  | nil => exact ha.component s
  | cons b types ih =>
    obtain ⟨hb, h⟩ := List.forall_mem_cons.1 h
    exact stratified_two (ha.component s) (ih hb h) fun _ _ ↦ Bool.and_eq_true_iff

theorem stratified_arrow {types : List Elaborator} (h : ∀ a ∈ types, a.Stratified) :
    (arrow (fuel + 1) loc types).Stratified := by
  refine ofFormer fun s ↦ ?_
  match types, h with
  | [], _ | [_], _ => exact .stop _ _ _
  | a :: b :: types, h =>
    obtain ⟨ha, h⟩ := List.forall_mem_cons.1 h
    exact stratified_arrowFrom ha h

theorem stratified_bindersFrom (build : String → Term → Term → Term)
    (hbuild : ∀ x t u, (build x t u).Small ↔ t.Small ∧ u.Small) {binders : List (Site × Elaborator)}
    (ha : a.Stratified) (h : ∀ b ∈ binders, b.2.Stratified) (s : Scope) :
    Checked.Stratified fun inU ↦ bindersFrom fuel inU build a binders s := by
  induction binders generalizing s with
  | nil => exact ha.component s
  | cons b binders ih =>
    obtain ⟨hb, h⟩ := List.forall_mem_cons.1 h
    have hb := hb.component s
    refine .after fun _ ↦ hb.bind (fun t ht ↦ .after fun v ↦ .after fun s' ↦ ?_) fun t ↦ ?_
    · refine (ih h s').bind (fun u hu ↦ .pure ((hbuild _ t u).2 ⟨ht, hu⟩)) fun u ↦ ?_
      exact .pure fun h ↦ ((hbuild _ t u).1 h).2
    · exact .after fun _ ↦ .after fun _ ↦ .after fun u ↦ .pure fun h ↦ ((hbuild _ t u).1 h).1

theorem stratified_pi {binders : List (Site × Elaborator)} (ha : a.Stratified)
    (h : ∀ b ∈ binders, b.2.Stratified) : (pi (fuel + 1) loc binders a).Stratified := by
  refine ofFormer fun s ↦ ?_
  cases binders with
  | nil => exact .stop _ _ _
  | cons => exact stratified_bindersFrom .pi (fun _ _ _ ↦ Bool.and_eq_true_iff) ha h s

theorem stratified_sigma {binders : List (Site × Elaborator)} (ha : a.Stratified)
    (h : ∀ b ∈ binders, b.2.Stratified) : (sigma (fuel + 1) loc binders a).Stratified := by
  refine ofFormer fun s ↦ ?_
  cases binders with
  | nil => exact .stop _ _ _
  | cons => exact stratified_bindersFrom .sigma (fun _ _ _ ↦ Bool.and_eq_true_iff) ha h s

section

variable (ha : a.Stratified) (hb : b.Stratified)

include ha

theorem stratified_list : (list (fuel + 1) loc a).Stratified :=
  ofFormer fun s ↦ (ha.component s).bind (fun _ ht ↦ .pure ht) fun _ ↦ .pure id

theorem stratified_unary (k : Unary) : (unary (fuel + 1) loc k a).Stratified := by
  cases k with
  | add1 => exact ofSynth fun _ ↦ .after fun _ ↦ .pure rfl
  | list => exact stratified_list ha
  | same =>
    exact ofCheck fun _ _ ↦ .after fun _ ↦ .after fun _ ↦ .after fun _ ↦ .after fun _ ↦
      .after fun _ ↦ .pure rfl
  | left | right => exact ofCheck fun _ _ ↦ .after fun _ ↦ .after fun _ ↦ .pure rfl

/-- The length of a vector is no component type. -/
theorem stratified_vec : (vec (fuel + 1) loc a b).Stratified :=
  ofFormer fun s ↦ (ha.component s).bind (fun _ ht ↦ .after fun _ ↦ .pure ht)
    fun _ ↦ .after fun _ ↦ .pure id

/-- Nor are the two sides of an equality. -/
theorem stratified_equal : (equal (fuel + 1) loc a b c).Stratified :=
  ofFormer fun s ↦ (ha.component s).bind
    (fun _ ht ↦ .after fun _ ↦ .after fun _ ↦ .after fun _ ↦ .pure ht)
    fun _ ↦ .after fun _ ↦ .after fun _ ↦ .after fun _ ↦ .pure id

include hb

theorem stratified_pair : (pair (fuel + 1) loc a b).Stratified :=
  ofFormer fun s ↦ stratified_two (ha.component s) (hb.component s) fun _ _ ↦ Bool.and_eq_true_iff

theorem stratified_either : (either (fuel + 1) loc a b).Stratified :=
  ofFormer fun s ↦ stratified_two (ha.component s) (hb.component s) fun _ _ ↦ Bool.and_eq_true_iff

theorem stratified_binary (k : Binary) : (binary (fuel + 1) loc k a b).Stratified := by
  cases k with
  | vec => exact stratified_vec ha
  | either => exact stratified_either ha hb
  | listCons =>
    exact ofSynth fun _ ↦ .after fun _ ↦ .after fun _ ↦ .after fun _ ↦ .after fun _ ↦ .pure rfl
  | cons =>
    exact ofCheck fun _ _ ↦ .after fun _ ↦ .after fun _ ↦ .after fun _ ↦ .after fun _ ↦
      .after fun _ ↦ .pure rfl
  | vecCons =>
    exact ofCheck fun _ _ ↦ .after fun _ ↦ .after fun _ ↦ .after fun _ ↦ .after fun _ ↦ .pure rfl

end

end Rule

/-! ## Elaboration -/

namespace Source

open Rule Elaborator.Stratified

mutual

theorem elaborator_stratified (fuel : Nat) (e : Source) :
    (e.elaborator (fuel + 1)).Stratified := by
  match e with
  | missing => exact ofSynth fun _ ↦ .stop _ _ _
  | var l x => exact stratified_var x
  | hole l => exact stratified_hole
  | the l t e => exact stratified_the (elaborator_stratified fuel e)
  | app l f args => exact stratified_app (elaborator_stratified fuel f) _
  | numeral l n => exact stratified_numeral n
  | quote l s => exact stratified_quote s
  | lam l params b => exact stratified_lambda params
  | pi l binders b =>
    exact stratified_pi (elaborator_stratified fuel b) (binderElaborators_stratified fuel binders)
  | sigma l binders b =>
    exact stratified_sigma (elaborator_stratified fuel b)
      (binderElaborators_stratified fuel binders)
  | arrow l types => exact stratified_arrow (elaborators_stratified fuel types)
  | pair l a d =>
    exact stratified_pair (elaborator_stratified fuel a) (elaborator_stratified fuel d)
  | const l k => exact stratified_const k
  | unary l k a => exact stratified_unary (elaborator_stratified fuel a) k
  | binary l k a b =>
    exact stratified_binary (elaborator_stratified fuel a) (elaborator_stratified fuel b) k
  | equal l t a b => exact stratified_equal (elaborator_stratified fuel t)
  | project l k t => exact stratified_project k
  | recursor l k t b s => exact stratified_recursor k
  | induct l k t m b s => exact stratified_induct k
  | transport l k t m b => exact stratified_transport k
  | indAbsurd l t m => exact stratified_indAbsurd
  | trans l a b => exact stratified_trans
  | cong l t f => exact stratified_cong
  | indVec l n t m b s => exact stratified_indVec

theorem elaborators_stratified (fuel : Nat) (es : List Source) :
    ∀ a ∈ elaborators (fuel + 1) es, a.Stratified := by
  match es with
  | [] => exact nofun
  | e :: es =>
    rintro a (_ | ⟨_, ha⟩)
    · exact elaborator_stratified fuel e
    · exact elaborators_stratified fuel es a ha

theorem binderElaborators_stratified (fuel : Nat) (binders : List (Site × Source)) :
    ∀ b ∈ binderElaborators (fuel + 1) binders, b.2.Stratified := by
  match binders with
  | [] => exact nofun
  | (site, t) :: binders =>
    rintro b (_ | ⟨_, hb⟩)
    · exact elaborator_stratified fuel t
    · exact binderElaborators_stratified fuel binders b hb

end

/-- **The elements of the universe are the small types.**  In any scope, with any fuel at all, an
expression checks against the universe exactly if it is a type and small, and it is elaborated to
the same term. -/
theorem check_univ_iff (fuel : Nat) (s : Scope) (e : Source) (t : Term) :
    (e.check (fuel + 1) s (.const .univ)).outcome = .ok t ↔
      (e.isType (fuel + 1) s).outcome = .ok t ∧ t.isSmall :=
  (e.elaborator_stratified fuel).component s t

/-- Functions between small types are an element of the universe. -/
example : (Source.natToNat.check 1 {} (.const .univ)).outcome =
    .ok (.pi "x" (.const .nat) (.const .nat)) := by rfl

/-- Functions from the universe are a type and no element of the universe. -/
example : ((Source.arrow {} [.const {} .univ, .const {} .nat]).isType 1 {}).outcome =
    .ok (.pi "x" (.const .univ) (.const .nat)) ∧
      (Term.pi "x" (.const .univ) (.const .nat)).isSmall = false := ⟨rfl, rfl⟩

end Source

end LittleTypes
