import LittleTypes.Proofs.Sense.Expect

/-!
# Rules keep what typing guarantees

An elaborator is sound if in every situation all runs have answers that belong together, or all of
them find a mistake; and if what it answers is a type, or an element of the type it is checked
against, in every setting.  Each rule makes sound elaborators from sound elaborators.  The types
that are found are read back from values, so they are normal forms, unless a rule passes a type on.
-/

namespace LittleTypes

open Idealized (Size)

variable {R : Regime} {J : Type} {o χ : Prop} {E : R.Excuse J} {φ : R.Index → Nat}

/-- What an elaborator answers means what it should, in situations that are unfinished if need be.
-/
structure Elaborator.Sound (R : Regime) (J : Type) (E : R.Excuse J) (o : Prop)
    (e : R.Index → Elaborator) : Prop where
  loc : ∃ l, ∀ n, (e n).loc = l
  synth : ∀ {S : Situation R J}, S.Coherent → (o → S.unfinished) → ∀ ν,
    R.Meets E R.steady (fun j n ↦ (e n).synth (S.scope ν j n)) S.SharedJudgment
  check : ∀ {S : Situation R J}, S.Coherent → (o → S.unfinished) → ∀ ν {F v},
    S.IsType .large F → S.Means v F →
      R.Meets E R.steady (fun j n ↦ (e n).check (S.scope ν j n) (v j n)) (S.SharedTerm F)
  isType : ∀ {S : Situation R J}, S.Coherent → (o → S.unfinished) → ∀ ν,
    R.Meets E R.steady (fun j n ↦ (e n).isType (S.scope ν j n)) (S.SharedType .large)

/-- A sound elaborator that finds types as normal forms, under a condition. -/
structure Elaborator.Settled (R : Regime) (J : Type) (E : R.Excuse J) (o χ : Prop)
    (e : R.Index → Elaborator) : Prop extends Elaborator.Sound R J E o e where
  settled : ∀ {S : Situation R J}, S.Coherent → (o → S.unfinished) → ∀ ν,
    R.Meets E R.steady (fun j n ↦ (e n).synth (S.scope ν j n)) (S.SettledJudgment χ)

namespace Situation

variable {S : Situation R J} {s : Size} {F : Sense J} {t : J → Term}

theorem SharedType.large (h : S.SharedType s t) : S.SharedType .large t :=
  ⟨h.type.large, h.shared⟩

/-- The elements of the universe are the small types. -/
theorem SharedTerm.ofUniv (h : S.SharedTerm (fun _ ↦ .const .univ) t) : S.SharedType .small t :=
  ⟨hasType_univ_iff.1 h.elem, h.shared⟩

theorem SharedType.inUniv (h : S.SharedType .small t) : S.SharedTerm (fun _ ↦ .const .univ) t :=
  ⟨hasType_univ_iff.2 h.type, h.shared⟩

theorem SharedType.pi {x : String} {a b : J → Term} {dv : J → R.Index → Value} (hS : S.Coherent)
    (ha : S.SharedType s a) (hb : (S.bind x (.ofTerm a) dv).SharedType s b) :
    S.SharedType s fun j ↦ .pi x (a j) (b j) :=
  ⟨ha.type.piFamily hS hb.type.family, ha.shared.pi hb.shared x⟩

theorem SharedType.sigma {x : String} {a b : J → Term} {dv : J → R.Index → Value}
    (hS : S.Coherent) (ha : S.SharedType s a) (hb : (S.bind x (.ofTerm a) dv).SharedType s b) :
    S.SharedType s fun j ↦ .sigma x (a j) (b j) :=
  ⟨ha.type.sigmaFamily hS hb.type.family, ha.shared.sigma hb.shared x⟩

theorem means_const (k : Const) : S.Means (fun _ _ ↦ .const k) fun _ ↦ .const k :=
  fun _ ↦ .const k

/-- The newest unknown value. -/
theorem isElem_top {x : String} {d : Sense J} {dv : J → R.Index → Value} :
    (S.bind x d dv).IsElem (fun σ ↦ d σ.tail) Setting.top := by
  rintro L hL ω _ ⟨σ, a, hσ, ha, rfl⟩
  exact ha

theorem IsFamily.tail {x : String} {d e : Sense J} {dv : J → R.Index → Value}
    {C : Setting J → Idealized.Closure} (hC : S.IsFamily s e C) :
    (S.bind x d dv).IsFamily s (fun σ ↦ e σ.tail) fun σ ↦ C σ.tail := by
  rintro L hL ω _ ⟨σ, a, hσ, ha, rfl⟩
  exact hC hL hσ

theorem isType_univ : S.IsType .large fun _ ↦ .const .univ := fun _ hL _ _ _ ↦ hL.sound.univ

theorem isType_nat : S.IsType .large fun _ ↦ .const .nat := fun _ hL _ _ _ ↦ hL.sound.nat

/-- A type without parts is its own normal form. -/
theorem IsType.spelled_const (hS : S.Coherent) {k : Const} (h : S.IsType s fun _ ↦ .const k) :
    S.Spelled (S.readType fun _ ↦ .const k) fun _ ↦ .const k := by
  intro j
  obtain ⟨N, hN⟩ := h.reads hS j
  refine ⟨N, hN, ?_⟩
  have hk := hN.of_type (.of_inSight trivial)
  cases k <;> cases hk <;> exact ⟨rfl, trivial⟩

theorem SharedTerm.plain (hS : S.Coherent) {k : Const} (h : S.SharedTerm (fun _ ↦ .const k) t) :
    S.SettledJudgment χ fun j ↦ ⟨.const k, t j⟩ := h.judgment hS (h.elem.isType.spelled_const hS)

end Situation

namespace Elaborator.Sound

open Situation

/-- A component of a type. -/
theorem component {e : R.Index → Elaborator} (h : Sound R J E o e) (inU : Bool)
    {S : Situation R J} (hS : S.Coherent) (ho : o → S.unfinished) (ν : Renaming) :
    R.Meets E R.steady (fun j n ↦ (e n).component inU (S.scope ν j n))
      (S.SharedType (if inU then .small else .large)) := by
  cases inU with
  | true => exact (h.check hS ho ν isType_univ (means_const .univ)).imp fun _ ht ↦ ht.ofUniv
  | false => exact h.isType hS ho ν

/-- To check a term whose type can be found is to compare the types. -/
theorem checkSynth (hφ : R.Lasts φ) {loc : Location} {f : R.Index → Scope → Checked Judgment}
    {S : Situation R J} (hS : S.Coherent) {ν : Renaming}
    (h : R.Meets E R.steady (fun j n ↦ f n (S.scope ν j n)) S.SharedJudgment)
    {F : Sense J} {v : J → R.Index → Value} (hF : S.IsType .large F) (hv : S.Means v F) :
    R.Meets E R.steady (fun j n ↦ Elaborator.checkSynth (φ n) loc (f n) (S.scope ν j n) (v j n))
      (S.SharedTerm F) := by
  refine h.andThen fun k hk ↦ (hS.evalType hφ hk.type.type).bind fun w hw ↦ ?_
  refine (hS.sameType hφ hk.type.type.isType hF hw hv).bind fun _ hs ↦ ?_
  exact .answer ⟨hk.term.elem.conv hS hF hs, hk.term.shared⟩

end Elaborator.Sound

namespace Elaborator.Settled

open Situation

/-! ## Kinds of forms -/

theorem ofCheck {loc : Location} {f : R.Index → Scope → Value → Checked Term}
    (h : ∀ {S : Situation R J}, S.Coherent → (o → S.unfinished) → ∀ ν {F v},
      S.IsType .large F → S.Means v F →
        R.Meets E R.steady (fun j n ↦ f n (S.scope ν j n) (v j n)) (S.SharedTerm F)) :
    Settled R J E o χ fun n ↦ .ofCheck loc (f n) where
  loc := ⟨loc, fun _ ↦ rfl⟩
  synth _ _ _ := .stop
  settled _ _ _ := .stop
  check := h
  isType hS ho ν :=
    (h hS ho ν isType_univ (means_const .univ)).imp fun _ ht ↦ ht.ofUniv.large

theorem ofSynth (hφ : R.Lasts φ) {loc : Location} {f : R.Index → Scope → Checked Judgment}
    (h : ∀ {S : Situation R J}, S.Coherent → (o → S.unfinished) → ∀ ν,
      R.Meets E R.steady (fun j n ↦ f n (S.scope ν j n)) (S.SettledJudgment χ)) :
    Settled R J E o χ fun n ↦ .ofSynth (φ n) loc (f n) := by
  have hs : ∀ {S : Situation R J}, S.Coherent → (o → S.unfinished) → ∀ ν,
      R.Meets E R.steady (fun j n ↦ f n (S.scope ν j n)) S.SharedJudgment := fun hS ho ν ↦
    (h hS ho ν).imp fun _ hk ↦ hk.toSharedJudgment
  exact
    { loc := ⟨loc, fun _ ↦ rfl⟩
      synth := hs
      check := fun hS ho ν _ _ hF hv ↦ Sound.checkSynth hφ hS (hs hS ho ν) hF hv
      isType := fun hS ho ν ↦
        (Sound.checkSynth hφ hS (hs hS ho ν) isType_univ (means_const .univ)).imp
          fun _ ht ↦ ht.ofUniv.large
      settled := h }

theorem ofFormer (hφ : R.Lasts φ) {loc : Location}
    {f : R.Index → Bool → Scope → Checked Term}
    (h : ∀ {S : Situation R J}, S.Coherent → (o → S.unfinished) → ∀ ν inU,
      R.Meets E R.steady (fun j n ↦ f n inU (S.scope ν j n))
        (S.SharedType (if inU then .small else .large))) :
    Settled R J E o χ fun n ↦ .ofFormer (φ n) loc (f n) := by
  have hs : Settled R J E o χ fun n ↦ .ofSynth (φ n) loc fun s ↦ (do
      pure ⟨.const .univ, ← f n true s⟩) := by
    exact ofSynth hφ fun hS ho ν ↦ (h hS ho ν true).andThen fun t ht ↦ .answer (ht.inUniv.plain hS)
  -- only as a type is it elaborated in another way
  exact { hs with isType := fun hS ho ν ↦ h hS ho ν false }

theorem missing (hφ : R.Lasts φ) : Settled R J E o χ fun n ↦ .missing (φ n) :=
  ofSynth hφ fun _ _ _ ↦ .stop

/-! ## Variables, annotations and unfinished expressions -/

theorem var (hφ : R.Lasts φ) (loc : Location) (x : String) :
    Settled R J E o χ fun n ↦ Rule.var (φ n) loc x := by
  refine ofSynth hφ fun {S} hS ho ν ↦ ?_
  simp only [scope]
  by_cases hx : ν.captures x
  · simp only [hx, if_true]
    exact .stop
  · simp only [hx]
    cases hy : S.typeOf (ν.rename x) with
    | none =>
      simp only [hS.unknown hy]
      exact Regime.Meets.note.bind fun _ _ ↦ .stop
    | some T =>
      obtain ⟨v, hv, hT⟩ := hS.known hy
      simp only [hT]
      exact hS.judge hφ hv ⟨.var hS hy, .var _⟩

theorem the (hφ : R.Lasts φ) (loc : Location) {type e : R.Index → Elaborator}
    (ht : Sound R J E o type) (he : Sound R J E o e) :
    Settled R J E o χ fun n ↦ Rule.the (φ n) loc (type n) (e n) := by
  refine ofSynth hφ fun hS ho ν ↦ (ht.isType hS ho ν).andThen fun t ht ↦ ?_
  refine (hS.evalType hφ ht.type).bind fun v hv ↦ ?_
  exact (he.check hS ho ν ht.type.isType hv).andThen fun u hu ↦ hS.judge hφ hv hu

theorem hole (hφ : R.Lasts φ) (h : o) (loc : Location) :
    Settled R J E o χ fun n ↦ Rule.hole (φ n) loc := by
  refine ofCheck fun {S} hS ho ν F v hF hv ↦ (hS.readBackType hφ hF hv).andThen fun t ht ↦ ?_
  refine Regime.Meets.note.bind fun _ _ ↦ .answer ?_
  have hT := hF.sharedType hS ht
  exact ⟨.hole hS loc (ho h) hF hT.type (hF.sameTerm hS ht), hT.shared.hole loc⟩

/-! ## Functions -/

section Functions

variable (hφ : R.Lasts φ) {S : Situation R J} {ν : Renaming}

include hφ

/-- The result type of a function, under the name for its argument. -/
theorem enterBody {s : Size} {x : String} {d : Sense J} {C : Setting J → Idealized.Closure}
    {dv : J → R.Index → Value} {c : J → R.Index → Closure} (hS : S.Coherent) (hx : x ∉ S.names)
    (hd : S.IsType .large d) (hC : S.IsFamily s d C) (hdv : S.Means dv d)
    (hc : S.MeansClosure c C) :
    R.Meets E R.each (fun j n ↦ Scope.enter (φ n) (c j n) (.ofVar x (dv j n))) fun v ↦
      (S.bind x d dv).Means v (.body C) := by
  have hS' := coherent_bind hS hx hd hdv
  exact hS'.enter hφ hC.tail isElem_top (fun j ↦ (hc j).mono (hS.le_bind hx)) fun j ↦
    .ofVar ((hdv j).mono (hS.le_bind hx))

theorem lambdaFrom {body : R.Index → Elaborator} (hb : Sound R J E o body) (params : List Site) :
    ∀ {S : Situation R J}, S.Coherent → (o → S.unfinished) → ∀ ν {F v}, S.IsType .large F →
      S.Means v F → R.Meets E R.steady
        (fun j n ↦ Rule.lambdaFrom (φ n) (body n) params (S.scope ν j n) (v j n))
        (S.SharedTerm F) := by
  induction params with
  | nil => exact hb.check
  | cons site params ih =>
    intro S hS ho ν F v hF hv
    refine (meets_checkName site).bind fun _ _ ↦ ?_
    refine (hS.expectPi hφ hF hv).bind fun ⟨_, dv, c⟩ ⟨y, d, C, hs, hdv, hc⟩ ↦ ?_
    have hpi := hF.sees hS hs
    obtain ⟨hd, hC⟩ := hpi.of_pi
    have hx := freshName_not_mem S.names site.name
    simp only [hS.fresh, hS.scope_bind _ hx d dv, pure_bind]
    refine (enterBody hφ hS hx hd hC hdv hc).bind fun w hw ↦ ?_
    refine (ih (coherent_bind hS hx hd hdv) ho _ (hC.body _ dv) hw).andThen fun b hb ↦ .answer ?_
    exact ⟨(HasType.lam hS hpi hb.elem).ofSees hS hs hF, hb.shared.lam _⟩

theorem lambda (loc : Location) (params : List Site) {body : R.Index → Elaborator}
    (hb : Sound R J E o body) :
    Settled R J E o χ fun n ↦ Rule.lambda (φ n) loc params (body n) := by
  refine ofCheck fun hS ho ν F v hF hv ↦ ?_
  cases params with
  | nil => exact .stop
  | cons site params => exact lambdaFrom hφ hb _ hS ho ν hF hv

theorem appFrom (hS : S.Coherent) (ho : o → S.unfinished) (ν : Renaming)
    (args : List (R.Index → Elaborator)) : (∀ e ∈ args, Sound R J E o e) → ∀ {k},
      S.SharedJudgment k → (args = [] → S.SettledJudgment χ k) → R.Meets E R.steady
        (fun j n ↦ Rule.appFrom (φ n) (S.scope ν j n) (args.map (· n)) (k j))
        (S.SettledJudgment χ) := by
  induction args with
  | nil => exact fun _ _ _ hk ↦ .answer (hk rfl)
  | cons e args ih =>
    intro he k hk _
    refine (hS.evalType hφ hk.type.type).bind fun v hv ↦ ?_
    have hT := hk.type.type.isType
    obtain ⟨l, hl⟩ := (he e List.mem_cons_self).loc
    simp only [hl]
    refine (hS.expectPi hφ hT hv).bind fun ⟨_, dv, c⟩ ⟨y, d, C, hs, hdv, hc⟩ ↦ ?_
    obtain ⟨hd, hC⟩ := (hT.sees hS hs).of_pi
    refine ((he e List.mem_cons_self).check hS ho ν hd hdv).andThen fun a ha ↦ ?_
    refine (hS.eval hφ ha.elem).bind fun av hav ↦ ?_
    refine (hS.enter hφ hC ha.elem.isElem hc hav).bind fun w hw ↦ ?_
    have hf := (hk.term.elem.sees hS hs).app hS ha.elem
    refine (hS.readBackType hφ hf.isType hw).andThen fun u hu ↦ ?_
    have hr : S.SettledJudgment χ _ :=
      SharedTerm.judgment hS ⟨hf, hk.term.shared.app ha.shared⟩ hu
    exact ih (fun e he' ↦ he e (List.mem_cons_of_mem _ he')) hr.toSharedJudgment fun _ ↦ hr

theorem app (loc : Location) {f : R.Index → Elaborator} {args : List (R.Index → Elaborator)}
    (hf : Sound R J E o f) (ha : ∀ e ∈ args, Sound R J E o e) :
    Settled R J E o χ fun n ↦ Rule.app (φ n) loc (f n) (args.map (· n)) := by
  refine ofSynth hφ fun hS ho ν ↦ ?_
  cases args with
  | nil => exact .stop
  | cons e args =>
    exact (hf.synth hS ho ν).andThen fun k hk ↦ appFrom hφ hS ho ν (e :: args) ha hk nofun

omit hφ in
theorem arrowFrom (hS : S.Coherent) (ho : o → S.unfinished) (ν : Renaming) (inU : Bool)
    (types : List (R.Index → Elaborator)) : ∀ {dom}, Sound R J E o dom →
      (∀ e ∈ types, Sound R J E o e) → R.Meets E R.steady
        (fun j n ↦ Rule.arrowFrom inU (S.scope ν j n) (dom n) (types.map (· n)))
        (S.SharedType (if inU then .small else .large)) := by
  induction types with
  | nil => exact fun hd _ ↦ hd.component inU hS ho ν
  | cons cod types ih =>
    intro dom hd ht
    refine (hd.component inU hS ho ν).andThen fun a ha ↦ ?_
    refine (ih (ht cod List.mem_cons_self) fun e he ↦ ht e (List.mem_cons_of_mem _ he)).andThen
      fun b hb ↦ ?_
    simp only [hS.freshBinder]
    have hx : ∀ j, freshName (S.names ++ (b j).names) "x" ∉ S.names ++ (b j).names := fun j ↦
      freshName_not_mem _ _
    exact .answer ⟨ha.type.piFamily hS (hb.type.constantFamily fun j h ↦
      hx j (List.mem_append_left _ h)), ha.shared.arrow hb.shared fun j h ↦
        hx j (List.mem_append_right _ h)⟩

theorem arrow (loc : Location) {types : List (R.Index → Elaborator)}
    (ht : ∀ e ∈ types, Sound R J E o e) :
    Settled R J E o χ fun n ↦ Rule.arrow (φ n) loc (types.map (· n)) := by
  refine ofFormer hφ fun hS ho ν inU ↦ ?_
  match types, ht with
  | [], _ => exact .stop
  | [_], _ => exact .stop
  | dom :: cod :: rest, ht =>
    exact arrowFrom hS ho ν inU (cod :: rest) (ht dom List.mem_cons_self) fun e he ↦
      ht e (List.mem_cons_of_mem _ he)

/-- The binders of a type, for a way to build types that has a typing rule. -/
theorem bindersFrom (inU : Bool) (build : String → Term → Term → Term)
    (hbuild : ∀ {S : Situation R J} {s x a b} {dv : J → R.Index → Value}, S.Coherent →
      S.SharedType s a → (S.bind x (.ofTerm a) dv).SharedType s b →
        S.SharedType s fun j ↦ build x (a j) (b j))
    {body : R.Index → Elaborator} (hb : Sound R J E o body)
    (binders : List (Site × (R.Index → Elaborator))) : (∀ b ∈ binders, Sound R J E o b.2) →
      ∀ {S : Situation R J}, S.Coherent → (o → S.unfinished) → ∀ ν, R.Meets E R.steady
        (fun j n ↦ Rule.bindersFrom (φ n) inU build (body n)
          (binders.map fun b ↦ (b.1, b.2 n)) (S.scope ν j n))
        (S.SharedType (if inU then .small else .large)) := by
  induction binders with
  | nil => exact fun _ _ hS ho ν ↦ hb.component inU hS ho ν
  | cons binder binders ih =>
    intro hbs S hS ho ν
    refine (meets_checkName binder.1).bind fun _ _ ↦ ?_
    refine ((hbs binder List.mem_cons_self).component inU hS ho ν).andThen fun a ha ↦ ?_
    have hx := freshName_not_mem S.names binder.1.name
    refine (hS.evalType hφ ha.type).bind fun v hv ↦ ?_
    simp only [hS.fresh, hS.scope_bind _ hx (.ofTerm a) v, pure_bind]
    refine (ih (fun b hb ↦ hbs b (List.mem_cons_of_mem _ hb))
      (coherent_bind hS hx ha.large.type.isType hv) ho _).andThen fun b hb ↦ ?_
    exact .answer (hbuild hS ha hb)

theorem pi (loc : Location) {binders : List (Site × (R.Index → Elaborator))}
    {body : R.Index → Elaborator} (hbs : ∀ b ∈ binders, Sound R J E o b.2)
    (hb : Sound R J E o body) :
    Settled R J E o χ fun n ↦ Rule.pi (φ n) loc (binders.map fun b ↦ (b.1, b.2 n)) (body n) := by
  refine ofFormer hφ fun hS ho ν inU ↦ ?_
  cases binders with
  | nil => exact .stop
  | cons b bs =>
    exact bindersFrom hφ inU .pi SharedType.pi hb (b :: bs) hbs hS ho ν

/-! ## Pairs -/

theorem sigma (loc : Location) {binders : List (Site × (R.Index → Elaborator))}
    {body : R.Index → Elaborator} (hbs : ∀ b ∈ binders, Sound R J E o b.2)
    (hb : Sound R J E o body) :
    Settled R J E o χ fun n ↦ Rule.sigma (φ n) loc (binders.map fun b ↦ (b.1, b.2 n)) (body n) := by
  refine ofFormer hφ fun hS ho ν inU ↦ ?_
  cases binders with
  | nil => exact .stop
  | cons b bs =>
    exact bindersFrom hφ inU .sigma SharedType.sigma hb (b :: bs) hbs hS ho ν

theorem pair (loc : Location) {a d : R.Index → Elaborator} (ha : Sound R J E o a)
    (hd : Sound R J E o d) : Settled R J E o χ fun n ↦ Rule.pair (φ n) loc (a n) (d n) := by
  refine ofFormer hφ fun {S} hS ho ν inU ↦ (ha.component inU hS ho ν).andThen fun a ha ↦ ?_
  refine (hd.component inU hS ho ν).andThen fun b hb ↦ ?_
  simp only [hS.freshBinder]
  have hx : ∀ j, freshName (S.names ++ (b j).names) "x" ∉ S.names ++ (b j).names := fun j ↦
    freshName_not_mem _ _
  exact .answer ⟨ha.type.sigmaFamily hS (hb.type.constantFamily fun j h ↦
    hx j (List.mem_append_left _ h)), ha.shared.pair hb.shared fun j h ↦
      hx j (List.mem_append_right _ h)⟩

theorem cons (loc : Location) {a d : R.Index → Elaborator} (ha : Sound R J E o a)
    (hd : Sound R J E o d) : Settled R J E o χ fun n ↦ Rule.cons (φ n) loc (a n) (d n) := by
  refine ofCheck fun hS ho ν F v hF hv ↦ ?_
  refine (hS.expectSigma hφ hF hv).bind fun ⟨dv, c⟩ ⟨y, d, C, hs, hdv, hc⟩ ↦ ?_
  have hX := hF.sees hS hs
  obtain ⟨hd', hC⟩ := hX.of_sigma
  refine (ha.check hS ho ν hd' hdv).andThen fun a ha ↦ (hS.eval hφ ha.elem).bind fun w hw ↦ ?_
  refine (hS.enter hφ hC ha.elem.isElem hc hw).bind fun u hu ↦ ?_
  refine (hd.check hS ho ν (hC.enter ha.elem.isElem) hu).andThen fun b hb ↦ ?_
  exact .answer ⟨(HasType.cons hS hX ha.elem hb.elem).ofSees hS hs hF,
    ha.shared.binary hb.shared .cons⟩

/-- A pair, found with its type. -/
theorem car (loc : Location) {p : R.Index → Elaborator} (hp : Sound R J E o p) :
    Settled R J E o χ fun n ↦ Rule.car (φ n) loc (p n) := by
  refine ofSynth hφ fun hS ho ν ↦ (hp.synth hS ho ν).andThen fun k hk ↦ ?_
  refine (hS.evalType hφ hk.type.type).bind fun v hv ↦ ?_
  refine (hS.expectSigma hφ hk.type.type.isType hv).bind fun ⟨dv, c⟩ ⟨y, d, C, hs, hdv, hc⟩ ↦ ?_
  exact hS.judge hφ hdv ⟨(hk.term.elem.sees hS hs).car, hk.term.shared.project .car⟩

theorem cdr (loc : Location) {p : R.Index → Elaborator} (hp : Sound R J E o p) :
    Settled R J E o χ fun n ↦ Rule.cdr (φ n) loc (p n) := by
  refine ofSynth hφ fun hS ho ν ↦ (hp.synth hS ho ν).andThen fun k hk ↦ ?_
  refine (hS.evalType hφ hk.type.type).bind fun v hv ↦ ?_
  refine (hS.expectSigma hφ hk.type.type.isType hv).bind fun ⟨dv, c⟩ ⟨y, d, C, hs, hdv, hc⟩ ↦ ?_
  have ht := hk.term.elem.sees hS hs
  refine (hS.eval hφ hk.term.elem).bind fun w hw ↦ (hS.car hφ ht.isElem hw).bind fun a ha ↦ ?_
  refine (hS.enter hφ ht.isType.of_sigma.2 ht.isElem.car hc ha).bind fun u hu ↦ ?_
  exact hS.judge hφ hu ⟨ht.cdr hS, hk.term.shared.project .cdr⟩

end Functions

end Elaborator.Settled

end LittleTypes
