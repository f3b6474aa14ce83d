import LittleTypes.Proofs.Typing.Hidden

/-!
# Types that are looked at as expressions

A type may fail to have a type, but never for the reason that it mentions a name that is not known:
its names were all met when it was found to be a type.  This is said of all forms at once by
comparing what it takes to be a type and what it takes to belong to the universe.
-/

namespace LittleTypes

namespace Checked

variable {α β : Type}

/-- The check does not fail for a name that is not known. -/
def Knows (x : Checked α) : Prop := ∀ f, x.outcome = .error f → ¬ f.IsScope

/-- The check gives a certain answer, or it fails, but not for a name that is not known. -/
def Steady (a : α) (x : Checked α) : Prop := x.Knows ∧ ∀ b, x.outcome = .ok b → b = a

namespace Knows

theorem pure (a : α) : Knows (Pure.pure a : Checked α) := nofun

theorem stop {code : Code} (h : code ≠ .scope) (loc : Location) (message : List Part) :
    Knows (Checked.stop code loc message : Checked α) := by
  rintro f ⟨⟩
  exact h

theorem bind {x : Checked α} {f : α → Checked β} (hx : x.Knows)
    (h : ∀ a, x.outcome = .ok a → (f a).Knows) : (x >>= f).Knows := by
  intro e he
  rw [outcome_bind] at he
  cases ho : x.outcome with
  | ok a =>
    rw [ho] at he
    exact h a ho e he
  | error e' =>
    rw [ho] at he
    cases he
    exact hx e ho

/-- Faults are no mistakes. -/
theorem ofRead (x : Except Fault α) : (Checked.ofRead x).Knows := by
  cases x with
  | ok a => exact nofun
  | error e =>
    rintro f ⟨⟩
    exact id

theorem ofEval (x : Except EvalFault α) : (Checked.ofEval x).Knows := ofRead _

end Knows

namespace Steady

theorem pure (a : α) : Steady a (Pure.pure a : Checked α) := by
  refine ⟨.pure a, ?_⟩
  rintro b ⟨⟩
  rfl

/-- What has an answer gives this answer. -/
theorem of_ok {x : Checked α} {a : α} (h : x.outcome = .ok a) : Steady a x := by
  refine ⟨fun f hf ↦ ?_, fun b hb ↦ ?_⟩
  · cases h.symm.trans hf
  · cases h.symm.trans hb
    rfl

theorem stop {code : Code} (h : code ≠ .scope) (loc : Location) (message : List Part) (a : α) :
    Steady a (Checked.stop code loc message : Checked α) := ⟨.stop h loc message, nofun⟩

theorem bind {x : Checked α} {f : α → Checked β} {a : α} {b : β} (hx : Steady a x)
    (h : Steady b (f a)) : Steady b (x >>= f) := by
  refine ⟨hx.1.bind fun a' ha' ↦ hx.2 a' ha' ▸ h.1, fun b' hb' ↦ ?_⟩
  obtain ⟨a', ha', hb'⟩ := outcome_bind_eq_ok_iff.1 hb'
  obtain rfl := hx.2 a' ha'
  exact h.2 b' hb'

/-- Whatever comes first does not fail for a name that is not known. -/
theorem after {x : Checked α} {f : α → Checked β} {b : β} (hx : x.Knows)
    (h : ∀ a, Steady b (f a)) : Steady b (x >>= f) := by
  refine ⟨hx.bind fun a _ ↦ (h a).1, fun b' hb' ↦ ?_⟩
  obtain ⟨a, -, hb'⟩ := outcome_bind_eq_ok_iff.1 hb'
  exact (h a).2 b' hb'

end Steady

end Checked

open Checked

theorem Scope.knows_sameType (fuel : Nat) (s : Scope) (loc : Location) (v w : Value) :
    (s.sameType fuel loc v w).Knows := by
  refine .bind (.ofRead _) fun t _ ↦ .bind (.ofRead _) fun u _ ↦ ?_
  split
  · exact .pure _
  · exact .stop (by decide) _ _

/-- What is a type has itself as its elaboration, also as an element of the universe, and no attempt
to find its type fails for a name that is not known. -/
structure Elaborator.Steady (e : Elaborator) : Prop where
  check : ∀ {s : Scope} {t : Term}, (e.isType s).outcome = .ok t →
    Checked.Steady t (e.check s (.const .univ))
  synth : ∀ {s : Scope} {t : Term}, (e.isType s).outcome = .ok t → (e.synth s).Knows

namespace Elaborator.Steady

variable {fuel : Nat} {loc : Location}

theorem ofCheck {check : Scope → Value → Checked Term} : (Elaborator.ofCheck loc check).Steady where
  check h := .of_ok h
  synth _ := .stop (by decide) _ _

theorem ofSynth {synth : Scope → Checked Judgment} :
    (Elaborator.ofSynth fuel loc synth).Steady where
  check h := .of_ok h
  synth h := by
    obtain ⟨j, hj, -⟩ := outcome_bind_eq_ok_iff.1 h
    exact (Steady.of_ok hj).1

theorem ofFormer {former : Bool → Scope → Checked Term}
    (h : ∀ {s : Scope} {t : Term}, (former false s).outcome = .ok t →
      Checked.Steady t (former true s)) :
    (Elaborator.ofFormer fuel loc former).Steady where
  check ht := by
    refine Steady.bind (a := ⟨.const .univ, _⟩) ((h ht).bind (.pure _)) ?_
    exact .after (.ofEval _) fun _ ↦ .after (Scope.knows_sameType _ _ _ _ _) fun _ ↦ .pure _
  synth ht := (h ht).1.bind fun _ _ ↦ .pure _

theorem component {e : Elaborator} (h : e.Steady) {s : Scope} {t : Term}
    (ht : (e.component false s).outcome = .ok t) : Checked.Steady t (e.component true s) :=
  h.check ht

end Elaborator.Steady

namespace Rule

open Elaborator.Steady

variable {fuel : Nat} {loc : Location} {a b c : Elaborator} (ha : a.Steady) (hb : b.Steady)

theorem steady_univ : (univ fuel loc).Steady := ofFormer fun _ ↦ .stop (by decide) _ _ _

theorem steady_plainType (k : Const) : (plainType fuel loc k).Steady := ofFormer fun h ↦ .of_ok h

theorem steady_const (k : Const) : (const fuel loc k).Steady := by
  cases k with
  | univ => exact steady_univ
  | nat | atom | trivial | absurd => exact steady_plainType _
  | zero | sole => exact ofSynth
  | nil | vecnil => exact ofCheck

include ha

theorem steady_arrowFrom {types : List Elaborator} (htypes : ∀ a ∈ types, a.Steady) {s : Scope}
    {t : Term} (ht : (arrowFrom false s a types).outcome = .ok t) :
    Checked.Steady t (arrowFrom true s a types) := by
  induction types generalizing a t with
  | nil => exact ha.component ht
  | cons b types ih =>
    obtain ⟨u, hu, ht⟩ := outcome_bind_eq_ok_iff.1 ht
    obtain ⟨v, hv, ht⟩ := outcome_bind_eq_ok_iff.1 ht
    refine (ha.component hu).bind ((ih (htypes b List.mem_cons_self) ?_ hv).bind (.of_ok ht))
    exact fun c hc ↦ htypes c (List.mem_cons_of_mem _ hc)

omit ha in
theorem steady_arrow {types : List Elaborator} (htypes : ∀ a ∈ types, a.Steady) :
    (arrow fuel loc types).Steady := by
  refine ofFormer fun {s t} ht ↦ ?_
  match types, htypes, ht with
  | [], _, ht | [_], _, ht => exact .of_ok ht
  | a :: b :: types, htypes, ht =>
    exact steady_arrowFrom (htypes a List.mem_cons_self)
      (fun c hc ↦ htypes c (List.mem_cons_of_mem _ hc)) ht

theorem steady_bindersFrom {binders : List (Site × Elaborator)}
    (hbinders : ∀ b ∈ binders, b.2.Steady) (build : String → Term → Term → Term) {s : Scope}
    {t : Term} (ht : (bindersFrom fuel false build a binders s).outcome = .ok t) :
    Checked.Steady t (bindersFrom fuel true build a binders s) := by
  induction binders generalizing s t with
  | nil => exact ha.component ht
  | cons b binders ih =>
    obtain ⟨_, hn, ht⟩ := outcome_bind_eq_ok_iff.1 ht
    obtain ⟨u, hu, ht⟩ := outcome_bind_eq_ok_iff.1 ht
    obtain ⟨v, hv, ht⟩ := outcome_bind_eq_ok_iff.1 ht
    obtain ⟨s', hs', ht⟩ := outcome_bind_eq_ok_iff.1 ht
    obtain ⟨w, hw, ht⟩ := outcome_bind_eq_ok_iff.1 ht
    -- the scope under the binder is the same, as the type of the bound name is
    refine (Steady.of_ok hn).bind <| ((hbinders b List.mem_cons_self).component hu).bind ?_
    refine (Steady.of_ok hv).bind <| (Steady.of_ok hs').bind ?_
    exact (ih (fun c hc ↦ hbinders c (List.mem_cons_of_mem _ hc)) hw).bind (.of_ok ht)

theorem steady_pi {binders : List (Site × Elaborator)} (hbinders : ∀ b ∈ binders, b.2.Steady) :
    (pi fuel loc binders a).Steady := by
  refine ofFormer fun ht ↦ ?_
  cases binders with
  | nil => exact .of_ok ht
  | cons => exact steady_bindersFrom ha hbinders _ ht

theorem steady_sigma {binders : List (Site × Elaborator)} (hbinders : ∀ b ∈ binders, b.2.Steady) :
    (sigma fuel loc binders a).Steady := by
  refine ofFormer fun ht ↦ ?_
  cases binders with
  | nil => exact .of_ok ht
  | cons => exact steady_bindersFrom ha hbinders _ ht

theorem steady_list : (list fuel loc a).Steady := by
  refine ofFormer fun ht ↦ ?_
  obtain ⟨u, hu, ht⟩ := outcome_bind_eq_ok_iff.1 ht
  exact (ha.component hu).bind (.of_ok ht)

theorem steady_unary (k : Unary) : (unary fuel loc k a).Steady := by
  cases k with
  | list => exact steady_list ha
  | add1 => exact ofSynth
  | same | left | right => exact ofCheck

theorem steady_vec : (vec fuel loc a b).Steady := by
  refine ofFormer fun ht ↦ ?_
  obtain ⟨u, hu, ht⟩ := outcome_bind_eq_ok_iff.1 ht
  exact (ha.component hu).bind (.of_ok ht)

theorem steady_equal : (equal fuel loc a b c).Steady := by
  refine ofFormer fun ht ↦ ?_
  obtain ⟨u, hu, ht⟩ := outcome_bind_eq_ok_iff.1 ht
  exact (ha.component hu).bind (.of_ok ht)

include hb

theorem steady_pair : (pair fuel loc a b).Steady := by
  refine ofFormer fun ht ↦ ?_
  obtain ⟨u, hu, ht⟩ := outcome_bind_eq_ok_iff.1 ht
  obtain ⟨v, hv, ht⟩ := outcome_bind_eq_ok_iff.1 ht
  exact (ha.component hu).bind ((hb.component hv).bind (.of_ok ht))

theorem steady_either : (either fuel loc a b).Steady := by
  refine ofFormer fun ht ↦ ?_
  obtain ⟨u, hu, ht⟩ := outcome_bind_eq_ok_iff.1 ht
  obtain ⟨v, hv, ht⟩ := outcome_bind_eq_ok_iff.1 ht
  exact (ha.component hu).bind ((hb.component hv).bind (.of_ok ht))

theorem steady_binary (k : Binary) : (binary fuel loc k a b).Steady := by
  cases k with
  | vec => exact steady_vec ha
  | either => exact steady_either ha hb
  | listCons => exact ofSynth
  | cons | vecCons => exact ofCheck

end Rule

namespace Source

open Rule Elaborator.Steady

mutual

theorem elaborator_steady (fuel : Nat) (e : Source) : (e.elaborator fuel).Steady := by
  match e with
  | pi l binders b =>
    exact steady_pi (elaborator_steady fuel b) (binderElaborators_steady fuel binders)
  | sigma l binders b =>
    exact steady_sigma (elaborator_steady fuel b) (binderElaborators_steady fuel binders)
  | arrow l types => exact steady_arrow (elaborators_steady fuel types)
  | pair l a d => exact steady_pair (elaborator_steady fuel a) (elaborator_steady fuel d)
  | const l k => exact steady_const k
  | unary l k a => exact steady_unary (elaborator_steady fuel a) k
  | binary l k a b => exact steady_binary (elaborator_steady fuel a) (elaborator_steady fuel b) k
  | equal l t a b => exact steady_equal (elaborator_steady fuel t)
  | hole .. | lam .. => exact ofCheck
  | project _ k _ | recursor _ k _ _ _ | induct _ k _ _ _ _ | transport _ k _ _ _ =>
    cases k <;> exact ofSynth
  | missing | var .. | the .. | app .. | numeral .. | quote .. | indAbsurd .. | trans .. | cong ..
  | indVec .. => exact ofSynth

theorem elaborators_steady (fuel : Nat) (es : List Source) :
    ∀ a ∈ elaborators fuel es, a.Steady := by
  match es with
  | [] => exact nofun
  | e :: es =>
    rintro a (_ | ⟨_, ha⟩)
    · exact elaborator_steady fuel e
    · exact elaborators_steady fuel es a ha

theorem binderElaborators_steady (fuel : Nat) (binders : List (Site × Source)) :
    ∀ b ∈ binderElaborators fuel binders, b.2.Steady := by
  match binders with
  | [] => exact nofun
  | (site, t) :: binders =>
    rintro b (_ | ⟨_, hb⟩)
    · exact elaborator_steady fuel t
    · exact binderElaborators_steady fuel binders b hb

end

end Source

end LittleTypes
