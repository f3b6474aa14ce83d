import LittleTypes.Typing.Elaborate

/-!
# Names that are hidden from the source

A scope refuses the names of the source that have been chosen for other variables.  If fewer names
are hidden in this way, then elaboration goes on as before until a name is met that is no longer
hidden.  So whatever elaboration ends with, it still ends with, unless it was a name it did not
know.
-/

namespace LittleTypes

/-- The failure is that a name is not known. -/
def Failure.IsScope : Failure → Prop
  | .stop s => s.code = .scope
  | .fault _ => False

namespace Checked

variable {α β : Type}

/-- The second check ends like the first, unless that one has met a name it does not know. -/
def Reveals (x y : Checked α) : Prop :=
  (∃ f : Failure, x.outcome = .error f ∧ f.IsScope) ∨ x.outcome = y.outcome

namespace Reveals

theorem refl (x : Checked α) : Reveals x x := .inr rfl

/-- A name that is not known is refused. -/
theorem unknown {f : Failure} {x y : Checked α} (hx : x.outcome = .error f) (hf : f.IsScope) :
    Reveals x y := .inl ⟨f, hx, hf⟩

theorem bind {x y : Checked α} {f g : α → Checked β} (h : Reveals x y)
    (hNext : ∀ a, Reveals (f a) (g a)) : Reveals (x >>= f) (y >>= g) := by
  rcases h with ⟨e, hx, he⟩ | h
  · refine .inl ⟨e, ?_, he⟩
    rw [outcome_bind, hx]
    rfl
  · unfold Reveals
    rw [outcome_bind, outcome_bind, ← h]
    match x.outcome with
    | .ok a => exact hNext a
    | .error e => exact .inr rfl

/-- What comes first does not depend on what is hidden. -/
theorem after {x : Checked α} {f g : α → Checked β} (h : ∀ a, Reveals (f a) (g a)) :
    Reveals (x >>= f) (x >>= g) := (refl x).bind h

/-- An answer is not given up. -/
theorem eq_ok {x y : Checked α} {a : α} (h : Reveals x y) (hx : x.outcome = .ok a) :
    y.outcome = .ok a := by
  rcases h with ⟨e, he, -⟩ | h
  · cases he.symm.trans hx
  · exact h.symm.trans hx

/-- A mistake of another kind is still made. -/
theorem eq_stop {x y : Checked α} {s : Stop} (h : Reveals x y) (hx : x.outcome = .error (.stop s))
    (hs : s.code ≠ .scope) : y.outcome = .error (.stop s) := by
  rcases h with ⟨e, he, hf⟩ | h
  · cases Except.error.inj (he.symm.trans hx)
    exact absurd hf hs
  · exact h.symm.trans hx

end Reveals

end Checked

/-- The renamings agree, and what the second hides is hidden by the first. -/
structure Renaming.Hides (r r' : Renaming) : Prop where
  entries : r.entries = r'.entries
  targets : r'.targets ⊆ r.targets

namespace Renaming.Hides

variable {r r' : Renaming} (h : r.Hides r')

include h

theorem extend (x y : String) : (r.extend x y).Hides (r'.extend x y) where
  entries := by rw [Renaming.extend, Renaming.extend, h.entries]
  targets := List.cons_subset_cons y h.targets

theorem rename (x : String) : r.rename x = r'.rename x := by
  rw [Renaming.rename, Renaming.rename, h.entries]

theorem captures {x : String} (hx : r'.captures x) : r.captures x := by
  simp only [Renaming.captures, h.entries, Bool.and_eq_true, List.contains_iff_mem] at hx ⊢
  exact ⟨hx.1, h.targets hx.2⟩

end Renaming.Hides

open Checked

/-- Elaboration ends alike wherever fewer names are hidden, unless it has met one of them. -/
structure Elaborator.Reveals (e : Elaborator) : Prop where
  synth : ∀ {Γ : Context} {r r' : Renaming}, r.Hides r' →
    Checked.Reveals (e.synth ⟨Γ, r⟩) (e.synth ⟨Γ, r'⟩)
  check : ∀ {Γ : Context} {r r' : Renaming}, r.Hides r' → ∀ type : Value,
    Checked.Reveals (e.check ⟨Γ, r⟩ type) (e.check ⟨Γ, r'⟩ type)
  isType : ∀ {Γ : Context} {r r' : Renaming}, r.Hides r' →
    Checked.Reveals (e.isType ⟨Γ, r⟩) (e.isType ⟨Γ, r'⟩)

namespace Elaborator.Reveals

variable {fuel : Nat} {loc : Location}

/-- Comparing types does not depend on what is hidden. -/
theorem checkSynth {synth : Scope → Checked Judgment} {Γ : Context} {r r' : Renaming}
    (h : Checked.Reveals (synth ⟨Γ, r⟩) (synth ⟨Γ, r'⟩)) (type : Value) :
    Checked.Reveals (Elaborator.checkSynth fuel loc synth ⟨Γ, r⟩ type)
      (Elaborator.checkSynth fuel loc synth ⟨Γ, r'⟩ type) :=
  h.bind fun _ ↦ .refl _

theorem ofCheck {check : Scope → Value → Checked Term}
    (h : ∀ {Γ : Context} {r r' : Renaming}, r.Hides r' → ∀ type : Value,
      Checked.Reveals (check ⟨Γ, r⟩ type) (check ⟨Γ, r'⟩ type)) :
    (Elaborator.ofCheck loc check).Reveals where
  synth _ := .refl _
  check := h
  isType hr := h hr _

theorem ofSynth {synth : Scope → Checked Judgment}
    (h : ∀ {Γ : Context} {r r' : Renaming}, r.Hides r' →
      Checked.Reveals (synth ⟨Γ, r⟩) (synth ⟨Γ, r'⟩)) :
    (Elaborator.ofSynth fuel loc synth).Reveals where
  synth := h
  check hr type := checkSynth (h hr) type
  isType hr := checkSynth (h hr) _

theorem ofFormer {former : Bool → Scope → Checked Term}
    (h : ∀ (inU : Bool) {Γ : Context} {r r' : Renaming}, r.Hides r' →
      Checked.Reveals (former inU ⟨Γ, r⟩) (former inU ⟨Γ, r'⟩)) :
    (Elaborator.ofFormer fuel loc former).Reveals where
  synth hr := (h true hr).bind fun _ ↦ .refl _
  check hr type := checkSynth ((h true hr).bind fun _ ↦ .refl _) type
  isType hr := h false hr

theorem missing : (Elaborator.missing fuel).Reveals := ofSynth fun _ ↦ .refl _

theorem component {e : Elaborator} (h : e.Reveals) (inU : Bool) {Γ : Context} {r r' : Renaming}
    (hr : r.Hides r') :
    Checked.Reveals (e.component inU ⟨Γ, r⟩) (e.component inU ⟨Γ, r'⟩) := by
  cases inU with
  | true => exact h.check hr _
  | false => exact h.isType hr

end Elaborator.Reveals

/-- Under a binder the same names are hidden, and the new one. -/
theorem Renaming.Hides.bind {α : Type} {Γ : Context} {r r' : Renaming} (h : r.Hides r')
    {x y : String} {type : Value} {f g : Scope → Checked α}
    (hNext : ∀ {Δ : Context} {q q' : Renaming}, q.Hides q' → Checked.Reveals (f ⟨Δ, q⟩) (g ⟨Δ, q'⟩)) :
    Checked.Reveals (Scope.bind ⟨Γ, r⟩ x y type >>= f) (Scope.bind ⟨Γ, r'⟩ x y type >>= g) := by
  unfold Scope.bind
  match Γ.bindFree y type with
  | .error e => exact .refl _
  | .ok Δ => exact hNext (h.extend x y)

namespace Rule

open Elaborator.Reveals

variable {fuel : Nat} {loc : Location} {a b c d e : Elaborator} (ha : a.Reveals) (hb : b.Reveals)
  (hc : c.Reveals) (hd : d.Reveals) (he : e.Reveals)

/-! ## Variables, annotations and unfinished expressions -/

theorem reveals_var (x : String) : (var fuel loc x).Reveals := by
  refine ofSynth fun {Γ r r'} h ↦ ?_
  by_cases hr : r.captures x
  · refine .unknown (f := .stop { code := .scope, loc, message := ["Unknown variable", x] }) ?_ rfl
    simp only [hr, if_true]
    rfl
  · have hr' : ¬ r'.captures x := fun hx ↦ hr (h.captures hx)
    simp only [hr, hr', h.rename]
    exact .refl _

theorem reveals_hole : (hole fuel loc).Reveals := ofCheck fun _ _ ↦ .refl _

include ha

include hb in
theorem reveals_the : (the fuel loc a b).Reveals :=
  ofSynth fun h ↦ (ha.isType h).bind fun _ ↦ .after fun t ↦ (hb.check h t).bind fun _ ↦ .refl _

/-! ## Functions -/

theorem reveals_lambdaFrom (params : List Site) {Γ : Context} {r r' : Renaming} (h : r.Hides r')
    (type : Value) :
    Checked.Reveals (lambdaFrom fuel a params ⟨Γ, r⟩ type)
      (lambdaFrom fuel a params ⟨Γ, r'⟩ type) := by
  induction params generalizing Γ r r' type with
  | nil => exact ha.check h type
  | cons site params ih =>
    refine .after fun _ ↦ .after fun ⟨_, dom, cod⟩ ↦ h.bind fun h ↦ .after fun type' ↦ ?_
    exact (ih h type').bind fun _ ↦ .refl _

theorem reveals_lambda (params : List Site) : (lambda fuel loc params a).Reveals := by
  refine ofCheck fun h type ↦ ?_
  cases params with
  | nil => exact .refl _
  | cons => exact reveals_lambdaFrom ha _ h type

omit ha in
theorem reveals_appFrom {args : List Elaborator} (hargs : ∀ a ∈ args, a.Reveals) {Γ : Context}
    {r r' : Renaming} (h : r.Hides r') (f : Judgment) :
    Checked.Reveals (appFrom fuel ⟨Γ, r⟩ args f) (appFrom fuel ⟨Γ, r'⟩ args f) := by
  induction args generalizing f with
  | nil => exact .refl _
  | cons a args ih =>
    refine .after fun _ ↦ .after fun ⟨_, dom, cod⟩ ↦ ?_
    refine (hargs a List.mem_cons_self |>.check h dom).bind fun _ ↦ ?_
    refine .after fun _ ↦ .after fun _ ↦ .after fun _ ↦ ?_
    exact ih (fun b hb ↦ hargs b (List.mem_cons_of_mem _ hb)) _

theorem reveals_app {args : List Elaborator} (hargs : ∀ a ∈ args, a.Reveals) :
    (app fuel loc a args).Reveals := by
  refine ofSynth fun h ↦ ?_
  cases args with
  | nil => exact .refl _
  | cons => exact (ha.synth h).bind fun f ↦ reveals_appFrom hargs h f

theorem reveals_arrowFrom {types : List Elaborator} (htypes : ∀ a ∈ types, a.Reveals) (inU : Bool)
    {Γ : Context} {r r' : Renaming} (h : r.Hides r') :
    Checked.Reveals (arrowFrom inU ⟨Γ, r⟩ a types) (arrowFrom inU ⟨Γ, r'⟩ a types) := by
  induction types generalizing a with
  | nil => exact ha.component inU h
  | cons b types ih =>
    refine (ha.component inU h).bind fun _ ↦ ?_
    have hb := htypes b List.mem_cons_self
    exact (ih hb fun c hc ↦ htypes c (List.mem_cons_of_mem _ hc)).bind fun _ ↦ .refl _

omit ha in
theorem reveals_arrow {types : List Elaborator} (htypes : ∀ a ∈ types, a.Reveals) :
    (arrow fuel loc types).Reveals := by
  refine ofFormer fun inU _ _ _ h ↦ ?_
  match types, htypes with
  | [], _ | [_], _ => exact .refl _
  | a :: b :: types, htypes =>
    exact reveals_arrowFrom (htypes a List.mem_cons_self)
      (fun c hc ↦ htypes c (List.mem_cons_of_mem _ hc)) inU h

theorem reveals_bindersFrom {binders : List (Site × Elaborator)}
    (hbinders : ∀ b ∈ binders, b.2.Reveals) (inU : Bool) (build : String → Term → Term → Term)
    {Γ : Context} {r r' : Renaming} (h : r.Hides r') :
    Checked.Reveals (bindersFrom fuel inU build a binders ⟨Γ, r⟩)
      (bindersFrom fuel inU build a binders ⟨Γ, r'⟩) := by
  induction binders generalizing Γ r r' with
  | nil => exact ha.component inU h
  | cons b binders ih =>
    refine .after fun _ ↦ ((hbinders b List.mem_cons_self).component inU h).bind fun _ ↦ ?_
    refine .after fun _ ↦ h.bind fun h ↦ ?_
    exact (ih (fun c hc ↦ hbinders c (List.mem_cons_of_mem _ hc)) h).bind fun _ ↦ .refl _

theorem reveals_pi {binders : List (Site × Elaborator)} (hbinders : ∀ b ∈ binders, b.2.Reveals) :
    (pi fuel loc binders a).Reveals := by
  refine ofFormer fun inU _ _ _ h ↦ ?_
  cases binders with
  | nil => exact .refl _
  | cons => exact reveals_bindersFrom ha hbinders inU _ h

/-! ## Pairs -/

theorem reveals_sigma {binders : List (Site × Elaborator)}
    (hbinders : ∀ b ∈ binders, b.2.Reveals) : (sigma fuel loc binders a).Reveals := by
  refine ofFormer fun inU _ _ _ h ↦ ?_
  cases binders with
  | nil => exact .refl _
  | cons => exact reveals_bindersFrom ha hbinders inU _ h

include hb in
theorem reveals_pair : (pair fuel loc a b).Reveals :=
  ofFormer fun inU _ _ _ h ↦
    (ha.component inU h).bind fun _ ↦ (hb.component inU h).bind fun _ ↦ .refl _

include hb in
theorem reveals_cons : (cons fuel loc a b).Reveals :=
  ofCheck fun h _ ↦ .after fun ⟨_, _⟩ ↦ (ha.check h _).bind fun _ ↦ .after fun _ ↦ .after fun t ↦
    (hb.check h t).bind fun _ ↦ .refl _

/-! ## Constructors and constants -/

omit ha in
theorem reveals_univ : (univ fuel loc).Reveals := ofFormer fun _ _ _ _ _ ↦ .refl _

omit ha in
theorem reveals_plainType (k : Const) : (plainType fuel loc k).Reveals :=
  ofFormer fun _ _ _ _ _ ↦ .refl _

omit ha in
theorem reveals_const (k : Const) : (const fuel loc k).Reveals := by
  cases k with
  | univ => exact reveals_univ
  | nat | atom | trivial | absurd => exact reveals_plainType _
  | zero | sole => exact ofSynth fun _ ↦ .refl _
  | nil | vecnil => exact ofCheck fun _ _ ↦ .refl _

omit ha in
theorem reveals_numeral (n : Nat) : (plainValue fuel loc .nat (.numeral n)).Reveals :=
  ofSynth fun _ ↦ .refl _

omit ha in
theorem reveals_quote (sym : String) : (quote fuel loc sym).Reveals := ofSynth fun _ ↦ .refl _

theorem reveals_list : (list fuel loc a).Reveals :=
  ofFormer fun inU _ _ _ h ↦ (ha.component inU h).bind fun _ ↦ .refl _

theorem reveals_unary (k : Unary) : (unary fuel loc k a).Reveals := by
  cases k with
  | add1 => exact ofSynth fun h ↦ (ha.check h _).bind fun _ ↦ .refl _
  | list => exact reveals_list ha
  | same => exact ofCheck fun h _ ↦ .after fun ⟨t, _, _⟩ ↦ (ha.check h t).bind fun _ ↦ .refl _
  | left => exact ofCheck fun h _ ↦ .after fun ⟨l, _⟩ ↦ (ha.check h l).bind fun _ ↦ .refl _
  | right => exact ofCheck fun h _ ↦ .after fun ⟨_, r⟩ ↦ (ha.check h r).bind fun _ ↦ .refl _

include hb in
theorem reveals_vec : (vec fuel loc a b).Reveals :=
  ofFormer fun inU _ _ _ h ↦
    (ha.component inU h).bind fun _ ↦ (hb.check h _).bind fun _ ↦ .refl _

include hb in
theorem reveals_either : (either fuel loc a b).Reveals :=
  ofFormer fun inU _ _ _ h ↦
    (ha.component inU h).bind fun _ ↦ (hb.component inU h).bind fun _ ↦ .refl _

include hb in
theorem reveals_binary (k : Binary) : (binary fuel loc k a b).Reveals := by
  cases k with
  | cons => exact reveals_cons ha hb
  | listCons =>
    exact ofSynth fun h ↦ (ha.synth h).bind fun _ ↦ .after fun _ ↦
      (hb.check h _).bind fun _ ↦ .refl _
  | vec => exact reveals_vec ha hb
  | vecCons =>
    exact ofCheck fun h _ ↦ .after fun ⟨_, _⟩ ↦ .after fun _ ↦ (ha.check h _).bind fun _ ↦
      (hb.check h _).bind fun _ ↦ .refl _
  | either => exact reveals_either ha hb

include hb hc in
theorem reveals_equal : (equal fuel loc a b c).Reveals :=
  ofFormer fun inU _ _ _ h ↦ (ha.component inU h).bind fun _ ↦ .after fun _ ↦
    (hb.check h _).bind fun _ ↦ (hc.check h _).bind fun _ ↦ .refl _

/-! ## Eliminations -/

include hb hc in
theorem reveals_natRecursor (k : Recursor) (stepType : Value → Value) :
    (natRecursor fuel loc k stepType a b c).Reveals :=
  ofSynth fun h ↦ (ha.check h _).bind fun _ ↦ (hb.synth h).bind fun _ ↦ .after fun _ ↦
    (hc.check h _).bind fun _ ↦ .refl _

include hb hc in
theorem reveals_recursor (k : Recursor) : (recursor fuel loc k a b c).Reveals := by
  cases k with
  | whichNat | iterNat | recNat => exact reveals_natRecursor ha hb hc _ _
  | recList =>
    exact ofSynth fun h ↦ (ha.synth h).bind fun _ ↦ .after fun _ ↦ .after fun _ ↦
      (hb.synth h).bind fun _ ↦ .after fun _ ↦ (hc.check h _).bind fun _ ↦ .refl _

include hb hc hd in
theorem reveals_induct (k : Induction) : (induct fuel loc k a b c d).Reveals := by
  cases k with
  | indNat =>
    exact ofSynth fun h ↦ (ha.check h _).bind fun _ ↦ (hb.check h _).bind fun _ ↦ .after fun _ ↦
      .after fun _ ↦ (hc.check h _).bind fun _ ↦ (hd.check h _).bind fun _ ↦ .refl _
  | indList =>
    exact ofSynth fun h ↦ (ha.synth h).bind fun _ ↦ .after fun _ ↦ .after fun _ ↦
      (hb.check h _).bind fun _ ↦ .after fun _ ↦ .after fun _ ↦ (hc.check h _).bind fun _ ↦
        (hd.check h _).bind fun _ ↦ .refl _
  | indEither =>
    exact ofSynth fun h ↦ (ha.synth h).bind fun _ ↦ .after fun _ ↦ .after fun ⟨_, _⟩ ↦
      (hb.check h _).bind fun _ ↦ .after fun _ ↦ (hc.check h _).bind fun _ ↦
        (hd.check h _).bind fun _ ↦ .refl _

include hb in
theorem reveals_indAbsurd : (indAbsurd fuel loc a b).Reveals :=
  ofSynth fun h ↦ (ha.check h _).bind fun _ ↦ (hb.isType h).bind fun _ ↦ .refl _

theorem reveals_synthEqual {Γ : Context} {r r' : Renaming} (h : r.Hides r') :
    Checked.Reveals (synthEqual fuel a ⟨Γ, r⟩) (synthEqual fuel a ⟨Γ, r'⟩) :=
  (ha.synth h).bind fun _ ↦ .refl _

include hb hc in
theorem reveals_transport (k : Transport) : (transport fuel loc k a b c).Reveals := by
  cases k with
  | replace =>
    exact ofSynth fun h ↦ (reveals_synthEqual ha h).bind fun ⟨_, _, _, _⟩ ↦
      (hb.check h _).bind fun _ ↦ .after fun _ ↦ .after fun _ ↦ (hc.check h _).bind fun _ ↦ .refl _
  | indEqual =>
    exact ofSynth fun h ↦ (reveals_synthEqual ha h).bind fun ⟨_, _, _, _⟩ ↦
      (hb.check h _).bind fun _ ↦ .after fun _ ↦ .after fun _ ↦ .after fun _ ↦
        (hc.check h _).bind fun _ ↦ .refl _

include hb in
theorem reveals_trans : (trans fuel loc a b).Reveals :=
  ofSynth fun h ↦ (reveals_synthEqual ha h).bind fun ⟨_, _, _, _⟩ ↦
    (reveals_synthEqual hb h).bind fun ⟨_, _, _, _⟩ ↦ .refl _

include hb in
theorem reveals_cong : (cong fuel loc a b).Reveals :=
  ofSynth fun h ↦ (reveals_synthEqual ha h).bind fun ⟨_, _, _, _⟩ ↦
    (hb.synth h).bind fun _ ↦ .refl _

theorem reveals_synthNonEmpty {Γ : Context} {r r' : Renaming} (h : r.Hides r') :
    Checked.Reveals (synthNonEmpty fuel a ⟨Γ, r⟩) (synthNonEmpty fuel a ⟨Γ, r'⟩) :=
  (ha.synth h).bind fun _ ↦ .refl _

theorem reveals_project (k : Projection) : (project fuel loc k a).Reveals := by
  cases k with
  | car | cdr => exact ofSynth fun h ↦ (ha.synth h).bind fun _ ↦ .refl _
  | symm => exact ofSynth fun h ↦ (reveals_synthEqual ha h).bind fun ⟨_, _, _, _⟩ ↦ .refl _
  | head | tail => exact ofSynth fun h ↦ (reveals_synthNonEmpty ha h).bind fun ⟨_, _, _⟩ ↦ .refl _

include hb hc hd he in
theorem reveals_indVec : (indVec fuel loc a b c d e).Reveals :=
  ofSynth fun h ↦ (ha.check h _).bind fun _ ↦ (hb.synth h).bind fun _ ↦ .after fun _ ↦
    .after fun ⟨_, _⟩ ↦ .after fun _ ↦ .after fun _ ↦ (hc.check h _).bind fun _ ↦ .after fun _ ↦
      .after fun _ ↦ .after fun _ ↦ (hd.check h _).bind fun _ ↦ (he.check h _).bind fun _ ↦ .refl _

end Rule

namespace Source

open Rule

mutual

/-- Elaboration ends alike wherever fewer names are hidden, unless it has met one of them. -/
theorem elaborator_reveals (fuel : Nat) (e : Source) : (e.elaborator fuel).Reveals := by
  match e with
  | missing => exact .missing
  | var l x => exact reveals_var x
  | hole l => exact reveals_hole
  | the l t e => exact reveals_the (elaborator_reveals fuel t) (elaborator_reveals fuel e)
  | app l f args => exact reveals_app (elaborator_reveals fuel f) (elaborators_reveal fuel args)
  | numeral l n => exact reveals_numeral n
  | quote l s => exact reveals_quote s
  | lam l params b => exact reveals_lambda (elaborator_reveals fuel b) params
  | pi l binders b =>
    exact reveals_pi (elaborator_reveals fuel b) (binderElaborators_reveal fuel binders)
  | sigma l binders b =>
    exact reveals_sigma (elaborator_reveals fuel b) (binderElaborators_reveal fuel binders)
  | arrow l types => exact reveals_arrow (elaborators_reveal fuel types)
  | pair l a d => exact reveals_pair (elaborator_reveals fuel a) (elaborator_reveals fuel d)
  | const l k => exact reveals_const k
  | unary l k a => exact reveals_unary (elaborator_reveals fuel a) k
  | binary l k a b =>
    exact reveals_binary (elaborator_reveals fuel a) (elaborator_reveals fuel b) k
  | equal l t a b =>
    exact reveals_equal (elaborator_reveals fuel t) (elaborator_reveals fuel a)
      (elaborator_reveals fuel b)
  | project l k t => exact reveals_project (elaborator_reveals fuel t) k
  | recursor l k t b s =>
    exact reveals_recursor (elaborator_reveals fuel t) (elaborator_reveals fuel b)
      (elaborator_reveals fuel s) k
  | induct l k t m b s =>
    exact reveals_induct (elaborator_reveals fuel t) (elaborator_reveals fuel m)
      (elaborator_reveals fuel b) (elaborator_reveals fuel s) k
  | transport l k t m b =>
    exact reveals_transport (elaborator_reveals fuel t) (elaborator_reveals fuel m)
      (elaborator_reveals fuel b) k
  | indAbsurd l t m =>
    exact reveals_indAbsurd (elaborator_reveals fuel t) (elaborator_reveals fuel m)
  | trans l a b => exact reveals_trans (elaborator_reveals fuel a) (elaborator_reveals fuel b)
  | cong l t f => exact reveals_cong (elaborator_reveals fuel t) (elaborator_reveals fuel f)
  | indVec l n t m b s =>
    exact reveals_indVec (elaborator_reveals fuel n) (elaborator_reveals fuel t)
      (elaborator_reveals fuel m) (elaborator_reveals fuel b) (elaborator_reveals fuel s)

theorem elaborators_reveal (fuel : Nat) (es : List Source) :
    ∀ a ∈ elaborators fuel es, a.Reveals := by
  match es with
  | [] => exact nofun
  | e :: es =>
    rintro a (_ | ⟨_, ha⟩)
    · exact elaborator_reveals fuel e
    · exact elaborators_reveal fuel es a ha

theorem binderElaborators_reveal (fuel : Nat) (binders : List (Site × Source)) :
    ∀ b ∈ binderElaborators fuel binders, b.2.Reveals := by
  match binders with
  | [] => exact nofun
  | (site, t) :: binders =>
    rintro b (_ | ⟨_, hb⟩)
    · exact elaborator_reveals fuel t
    · exact binderElaborators_reveal fuel binders b hb

end

end Source

end LittleTypes
