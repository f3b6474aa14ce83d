import LittleTypes.Proofs.Sense.Bindings

/-!
# What terms mean

For each form of terms, what can be said of a term in all settings if it can be said of its parts.
There is one lemma for each form of types, constructors and eliminators, as there is one rule to
check it by.
-/

namespace LittleTypes

open Idealized (Logic Tower Runs Size SameType TypeAt Same)

/-- Plans that run to the same have the same result. -/
theorem Idealized.Plan.result_congr {p q : Idealized.Plan Idealized.Value}
    (h : ∀ v, Runs p v ↔ Runs q v) :
    p.result = q.result := by
  by_cases hp : ∃ v, Runs p v
  · obtain ⟨v, hv⟩ := hp
    rw [hv.result_eq, ((h v).1 hv).result_eq]
  · have hq : ¬∃ v, Runs q v := fun ⟨v, hv⟩ ↦ hp ⟨v, (h v).2 hv⟩
    simp only [Idealized.Plan.result, hp, hq, dite_false]

/-- A function at two arguments, one after the other. -/
theorem Idealized.apply_apply_result {f a b v : Idealized.Value} (h : Runs (Idealized.apply f a) v) :
    (Idealized.apply (Idealized.apply f a).result b).result = (Idealized.apply₂ f a b).result := by
  refine Plan.result_congr fun w ↦ ?_
  rw [h.result_eq, Idealized.apply₂, Runs.bind_iff]
  constructor
  · exact fun hw ↦ ⟨v, h, hw⟩
  · rintro ⟨v', hv', hw⟩
    rwa [h.unique hv']

namespace Setting

variable {J : Type}

/-- The value of the newest name. -/
def top : Setting J → Idealized.Value
  | ⟨_, .cons _ v _⟩ => v
  | _ => .const .univ

@[simp] theorem top_cons (σ : Setting J) (x : String) (v : Idealized.Value) :
    (σ.cons x v).top = v := rfl

end Setting

namespace Sense

variable {J : Type}

/-- A function at an argument. -/
noncomputable def apply (f a : Sense J) : Sense J := fun σ ↦ (Idealized.apply (f σ) (a σ)).result

/-- A closure at its argument. -/
noncomputable def enter (c : Setting J → Idealized.Closure) (a : Sense J) : Sense J :=
  fun σ ↦ (Idealized.enter (c σ) (a σ)).result

/-- The first component of a pair. -/
noncomputable def car (p : Sense J) : Sense J := fun σ ↦ (Idealized.doCar (p σ)).result

/-- The second component of a pair. -/
noncomputable def cdr (p : Sense J) : Sense J := fun σ ↦ (Idealized.doCdr (p σ)).result

/-- A closure under the binder it was made for. -/
noncomputable def body (c : Setting J → Idealized.Closure) : Sense J :=
  fun σ ↦ (Idealized.enter (c σ.tail) σ.top).result

end Sense

namespace Situation

variable {R : Regime} {J : Type} {S : Situation R J} {s : Size}

/-! ## Families -/

variable (S) in
/-- Closures that give a type for every element of a type. -/
def IsFamily (s : Size) (d : Sense J) (c : Setting J → Idealized.Closure) : Prop :=
  ∀ ⦃L : Logic⦄, Tower L → ∀ ⦃ω σ⦄, S.Holds L ω σ →
    L.Family s ω (fun i ↦ d (σ i)) fun i ↦ c (σ i)

section Families

variable {d : Sense J} {c : Setting J → Idealized.Closure} {y : Setting J → String}

theorem IsType.of_pi (h : S.IsType s fun σ ↦ .pi (y σ) (d σ) (c σ)) :
    S.IsType s d ∧ S.IsFamily s d c :=
  ⟨fun _ hL _ _ hσ ↦ (hL.sound.of_pi (h hL hσ)).1, fun _ hL _ _ hσ ↦
    (hL.sound.of_pi (h hL hσ)).2⟩

theorem IsType.of_sigma (h : S.IsType s fun σ ↦ .sigma (y σ) (d σ) (c σ)) :
    S.IsType s d ∧ S.IsFamily s d c :=
  ⟨fun _ hL _ _ hσ ↦ (hL.sound.of_sigma (h hL hσ)).1, fun _ hL _ _ hσ ↦
    (hL.sound.of_sigma (h hL hσ)).2⟩

namespace IsFamily

variable (h : S.IsFamily s d c)

include h

theorem runs {L : Logic} (hL : Tower L) {ω : L.World} {σ : L.Index → Setting J}
    (hσ : S.Holds L ω σ) {a : L.Index → Idealized.Value} (ha : L.elem ω (fun i ↦ d (σ i)) a)
    (i : L.Index) :
    Runs (Idealized.enter (c (σ i)) (a i)) (Idealized.enter (c (σ i)) (a i)).result := by
  obtain ⟨Y, hY, -⟩ := h hL hσ ω (hL.sound.le_refl ω) a ha
  exact .of_exists ⟨_, hY i⟩

theorem type {L : Logic} (hL : Tower L) {ω : L.World} {σ : L.Index → Setting J}
    (hσ : S.Holds L ω σ) {a : L.Index → Idealized.Value} (ha : L.elem ω (fun i ↦ d (σ i)) a) :
    L.type s ω fun i ↦ (Idealized.enter (c (σ i)) (a i)).result := by
  obtain ⟨Y, hY, hT⟩ := h hL hσ ω (hL.sound.le_refl ω) a ha
  rwa [show (fun i ↦ (Idealized.enter (c (σ i)) (a i)).result) = Y from
    funext fun i ↦ (hY i).result_eq]

/-- At elements that are the same there are types that are the same. -/
theorem same {o : Prop} {σ : Setting J} (hσ : S.Has o σ) {a b : Idealized.Value}
    (hab : Same o (d σ) a b) :
    SameType o (Idealized.enter (c σ) a).result (Idealized.enter (c σ) b).result :=
  TypeAt.sameType (h.type (.sameness o) hσ (a := Logic.pair a b) ⟨hab.type, hab⟩)

theorem enter {a : Sense J} (ha : S.IsElem d a) : S.IsType s (.enter c a) :=
  fun _ hL _ _ hσ ↦ h.type hL hσ (ha hL hσ)

/-- Under a binder. -/
theorem body (x : String) (dv : J → R.Index → Value) :
    (S.bind x d dv).IsType s (.body c) := by
  rintro L hL ω _ ⟨σ, a, hσ, ha, rfl⟩
  exact h.type hL hσ ha

end IsFamily

end Families

/-! ## Terms at work -/

section Like

variable {F : Sense J} {t : J → Term} {L : Logic} {ω : L.World} {σ : L.Index → Setting J}
  {τ : L.Index → Idealized.Env}

/-- Terms whose values are to be computed later. -/
abbrev late (t : J → Term) (σ : L.Index → Setting J) (τ : L.Index → Idealized.Env) :
    L.Index → Idealized.Value :=
  fun i ↦ .later (.eval (τ i) (t (σ i).run))

variable (hS : S.Coherent) (hL : Tower L) (hσ : S.Holds L ω σ) (hτ : S.Reaches σ τ)

include hS hL hσ hτ

theorem TypeTerm.runLike (h : S.TypeTerm s t) :
    ∃ Y, (∀ i, Runs (Idealized.eval (τ i) (t (σ i).run)) (Y i)) ∧
      L.LikeType s ω (fun i ↦ Sense.ofTerm t (σ i)) Y := by
  obtain ⟨Y, hY, hT⟩ := h hL hσ hτ
  exact ⟨Y, hY, hT, fun i ↦ h.sameRun hS hL hσ hτ (hY i)⟩

theorem HasType.runLike (h : S.HasType F t) :
    L.RunLike ω (fun i ↦ F (σ i)) (fun i ↦ Sense.ofTerm t (σ i))
      fun i ↦ Idealized.eval (τ i) (t (σ i).run) := by
  obtain ⟨v, hv, he⟩ := h hL hσ hτ
  exact ⟨v, hv, he, fun i ↦ h.sameRun hS hL hσ hτ (hv i)⟩

/-- A delayed type. -/
theorem TypeTerm.like (h : S.TypeTerm s t) :
    L.LikeType s ω (fun i ↦ Sense.ofTerm t (σ i)) (late t σ τ) := by
  obtain ⟨Y, hY, hl⟩ := h.runLike hS hL hσ hτ
  have hs : ∀ i, Idealized.SeenAs (late t σ τ i) (Y i) := fun i ↦ .later (Runs.eval_iff.1 (hY i))
  exact ⟨hL.sound.type_seen hl.type hs, fun i ↦ (hl.same i).seen (hs i)⟩

/-- A delayed element. -/
theorem HasType.like (h : S.HasType F t) :
    L.Like ω (fun i ↦ F (σ i)) (fun i ↦ Sense.ofTerm t (σ i)) (late t σ τ) := by
  obtain ⟨v, hv, hl⟩ := h.runLike hS hL hσ hτ
  have hs : ∀ i, Idealized.SeenAs (late t σ τ i) (v i) := fun i ↦ .later (Runs.eval_iff.1 (hv i))
  exact ⟨hL.sound.elem_seen hl.elem hs, fun i ↦ (hl.same i).seen (hs i)⟩

end Like

/-! ## Variables and unfinished expressions -/

variable (hS : S.Coherent)

include hS

theorem HasType.var {x : String} {T : Sense J} (hx : S.typeOf x = some T) :
    S.HasType T fun _ ↦ .var x := by
  intro L hL ω σ τ hσ hτ
  obtain ⟨a, ha, he⟩ := hS.var hL hσ hx
  refine ⟨a, fun i ↦ Runs.eval_iff.2 ?_, he⟩
  simp only [Idealized.evalPlan, hτ i x (hS.named hx), ha i]
  exact .done _

theorem HasType.hole {F : Sense J} {t : J → Term} (l : Location) (ho : S.unfinished)
    (hF : S.IsType .large F) (ht : S.TypeTerm .large t) (htF : S.SameTypes (.ofTerm t) F) :
    S.HasType F fun j ↦ .hole l (t j) := by
  intro L hL ω σ τ hσ hτ
  have hl := ht.like hS hL hσ hτ
  exact ⟨_, fun i ↦ Runs.eval_iff.2 (.done _), hL.sound.conv
    (hL.sound.hole l (hS.model hσ ho) hl.type) (hF hL hσ) fun i ↦
      (hl.same i).trans (htF.at hS hL hσ i)⟩

/-! ## Functions -/

section Functions

variable {a b : J → Term} {d : Sense J} {c : Setting J → Idealized.Closure} {y : Setting J → String}
  {x : J → String}

omit hS in
variable (S) in
/-- A term is a type for every value of a name. -/
def FamilyTerm (s : Size) (x : J → String) (d : Sense J) (b : J → Term) : Prop :=
  ∀ ⦃L : Logic⦄, Tower L → ∀ ⦃ω σ τ⦄, S.Holds L ω σ → S.Reaches σ τ →
    ∀ a, L.elem ω (fun i ↦ d (σ i)) a →
      ∃ Y, (∀ i, Runs (Idealized.eval (.cons (x (σ i).run) (a i) (τ i)) (b (σ i).run)) (Y i)) ∧
        L.type s ω Y

omit hS in
theorem TypeTerm.family {x : String} {dv : J → R.Index → Value}
    (hb : (S.bind x d dv).TypeTerm s b) : S.FamilyTerm s (fun _ ↦ x) d b := by
  intro L hL ω σ τ hσ hτ a ha
  have h := hb hL (holds_bind hσ ha) (hτ.bind a)
  exact h

omit hS in
/-- A name that is not used. -/
theorem TypeTerm.constantFamily (hx : ∀ j, x j ∉ S.names) (hb : S.TypeTerm s b) :
    S.FamilyTerm s x d b := by
  intro L hL ω σ τ hσ hτ a _
  refine hb hL hσ fun i y hy ↦ ?_
  rw [Idealized.Env.lookup_cons_of_ne (by rintro rfl; exact hx _ hy)]
  exact hτ i y hy

/-- The family of types that a closure of the term gives. -/
theorem FamilyTerm.at (ha : S.TypeTerm s a) (hb : S.FamilyTerm s x (.ofTerm a) b) {L : Logic}
    (hL : Tower L) {ω : L.World} {σ : L.Index → Setting J} {τ : L.Index → Idealized.Env}
    (hσ : S.Holds L ω σ) (hτ : S.Reaches σ τ) : L.Family s ω (late a σ τ) fun i ↦
      .body (τ i) (x (σ i).run) (b (σ i).run) := by
  intro ω' hω v hv
  have hσ' := hS.mono hL hσ hω
  refine hb hL hσ' hτ v (hL.sound.conv hv (hL.sound.type_large (ha.isType hL hσ')) fun i ↦ ?_)
  exact (ha.like hS hL hσ hτ).same i

/-- What is known of the types of functions and pairs in all towers is known beforehand. -/
theorem Coherent.preType {t : J → Term} {L : Logic} {I : Type}
    {P : I → Idealized.Face L.Index L.World} (hr : L.Rests P) (hP : ∀ k, Tower (P k).logic)
    (ih : ∀ k ⦃ω σ τ⦄, S.Holds (P k).logic ω σ → S.Reaches σ τ →
      ∃ Y, (∀ i, Runs (Idealized.eval (τ i) (t (σ i).run)) (Y i)) ∧ (P k).logic.type s ω Y)
    {ω : L.World} {σ : L.Index → Setting J} {τ : L.Index → Idealized.Env} (hσ : S.Holds L ω σ)
    (hτ : S.Reaches σ τ) {X : L.Index → Idealized.Value}
    (hX : ∀ i, Runs (Idealized.eval (τ i) (t (σ i).run)) (X i)) : L.preType s ω X := by
  obtain ⟨j, hj⟩ | hflex := hS.uniform hσ
  · refine hr.preType_iff.2 fun k ↦ ?_
    obtain ⟨Y, hY, hT⟩ := ih k (hS.face hr hP hσ hj k) fun i ↦ hτ _
    rwa [show Y = (P k).restrict X from funext fun i ↦ (hY i).unique (hX _)] at hT
  · exact hflex.preType s ω X

theorem TypeTerm.piFamily (ha : S.TypeTerm s a) (hb : S.FamilyTerm s x (.ofTerm a) b) :
    S.TypeTerm s fun j ↦ .pi (x j) (a j) (b j) := by
  intro L hL
  induction hL with
  | @mk L I P hr hP ih =>
    intro ω σ τ hσ hτ
    have hL : Tower L := .mk hr hP
    have hX : ∀ i, Runs (Idealized.eval (τ i) (.pi (x (σ i).run) (a (σ i).run) (b (σ i).run)))
        (.pi (x (σ i).run) (late a σ τ i) (.body (τ i) (x (σ i).run) (b (σ i).run))) :=
      fun i ↦ Runs.eval_iff.2 (.done _)
    exact ⟨_, hX, hr.base.pi (ha.like hS hL hσ hτ).type (hb.at hS ha hL hσ hτ)
      (hS.preType (t := fun j ↦ .pi (x j) (a j) (b j)) hr hP ih hσ hτ hX)⟩

theorem TypeTerm.sigmaFamily (ha : S.TypeTerm s a) (hb : S.FamilyTerm s x (.ofTerm a) b) :
    S.TypeTerm s fun j ↦ .sigma (x j) (a j) (b j) := by
  intro L hL
  induction hL with
  | @mk L I P hr hP ih =>
    intro ω σ τ hσ hτ
    have hL : Tower L := .mk hr hP
    have hX : ∀ i, Runs (Idealized.eval (τ i) (.sigma (x (σ i).run) (a (σ i).run) (b (σ i).run)))
        (.sigma (x (σ i).run) (late a σ τ i) (.body (τ i) (x (σ i).run) (b (σ i).run))) :=
      fun i ↦ Runs.eval_iff.2 (.done _)
    exact ⟨_, hX, hr.base.sigma (ha.like hS hL hσ hτ).type (hb.at hS ha hL hσ hτ)
      (hS.preType (t := fun j ↦ .sigma (x j) (a j) (b j)) hr hP ih hσ hτ hX)⟩

theorem HasType.lam {x : String} {dv : J → R.Index → Value}
    (hpi : S.IsType .large fun σ ↦ .pi (y σ) (d σ) (c σ))
    (hb : (S.bind x d dv).HasType (.body c) b) :
    S.HasType (fun σ ↦ .pi (y σ) (d σ) (c σ)) fun j ↦ .lam x (b j) := by
  intro L hL
  induction hL with
  | @mk L I P hr hP ih =>
    intro ω σ τ hσ hτ
    have hL : Tower L := .mk hr hP
    refine ⟨_, fun i ↦ Runs.eval_iff.2 (.done _), hr.base.lam (hpi hL hσ) ?_ fun ω' hω v hv ↦ ?_⟩
    · obtain ⟨j, hj⟩ | hflex := hS.uniform hσ
      · refine hr.preElem_iff.2 fun k ↦ ?_
        obtain ⟨w, hw, he⟩ := ih k (hS.face hr hP hσ hj k) (τ := (P k).restrict τ) fun i ↦ hτ _
        rwa [show w = _ from funext fun i ↦ (hw i).unique (Runs.eval_iff.2 (.done _))] at he
      · exact hflex.preElem _ _ _
    · have hσ' := hS.mono hL hσ hω
      exact ⟨_, hpi.of_pi.2.runs hL hσ' hv, hb hL (holds_bind hσ' hv) (hτ.bind v)⟩

omit hS in
theorem IsElem.apply {f a : Sense J} (hf : S.IsElem (fun σ ↦ .pi (y σ) (d σ) (c σ)) f)
    (ha : S.IsElem d a) : S.IsElem (.enter c a) (.apply f a) := fun _ hL _ _ hσ ↦
  (hL.sound.apply (hf hL hσ) (ha hL hσ)
    (hf.isType.of_pi.2.runs hL hσ (ha hL hσ))).result

theorem HasType.app {f a : J → Term} (hf : S.HasType (fun σ ↦ .pi (y σ) (d σ) (c σ)) f)
    (ha : S.HasType d a) : S.HasType (.enter c (.ofTerm a)) fun j ↦ .app (f j) (a j) := by
  intro L hL ω σ τ hσ hτ
  obtain ⟨g, hg, he⟩ := hf hL hσ hτ
  have hc := hf.isType.of_pi.2
  have hl := ha.like hS hL hσ hτ
  obtain ⟨v, hv, hvE⟩ := hL.sound.convRun (hL.sound.apply he hl.elem (hc.runs hL hσ hl.elem))
    (hc.enter ha.isElem hL hσ) fun i ↦ hc.same (hS.side hL hσ i) (hl.same i)
  exact ⟨v, fun i ↦ Runs.eval_iff.2 (.bind (hg i) (hv i)), hvE⟩

/-! ## Pairs -/

theorem HasType.cons (hX : S.IsType .large fun σ ↦ .sigma (y σ) (d σ) (c σ))
    (ha : S.HasType d a) (hb : S.HasType (.enter c (.ofTerm a)) b) :
    S.HasType (fun σ ↦ .sigma (y σ) (d σ) (c σ)) fun j ↦ .binary .cons (a j) (b j) := by
  intro L hL ω σ τ hσ hτ
  have hc := hX.of_sigma.2
  have hl := ha.like hS hL hσ hτ
  refine ⟨_, fun i ↦ Runs.eval_iff.2 (.done _), hL.sound.cons (hX hL hσ) hl.elem
    (hc.runs hL hσ hl.elem) ?_⟩
  exact hL.sound.conv (hb.like hS hL hσ hτ).elem (hc.type hL hσ hl.elem) fun i ↦
    (hc.same (hS.side hL hσ i) (hl.same i)).symm

omit hS in
theorem IsElem.car {p : Sense J} (hp : S.IsElem (fun σ ↦ .sigma (y σ) (d σ) (c σ)) p) :
    S.IsElem d (.car p) := fun _ hL _ _ hσ ↦ (hL.sound.car (hp hL hσ)).result

omit hS in
theorem IsElem.cdr {p : Sense J} (hp : S.IsElem (fun σ ↦ .sigma (y σ) (d σ) (c σ)) p) :
    S.IsElem (.enter c (.car p)) (.cdr p) := by
  intro L hL ω σ hσ
  have hcar := hL.sound.car (hp hL hσ)
  exact (hL.sound.cdr (hp hL hσ) hcar.runs
    (hp.isType.of_sigma.2.runs hL hσ hcar.result)).result

omit hS in
theorem HasType.car {p : J → Term} (hp : S.HasType (fun σ ↦ .sigma (y σ) (d σ) (c σ)) p) :
    S.HasType d fun j ↦ .project .car (p j) := by
  intro L hL ω σ τ hσ hτ
  obtain ⟨q, hq, he⟩ := hp hL hσ hτ
  obtain ⟨v, hv, hvE⟩ := hL.sound.car he
  exact ⟨v, fun i ↦ Runs.eval_iff.2 (.bind (hq i) (hv i)), hvE⟩

theorem HasType.cdr {p : J → Term} (hp : S.HasType (fun σ ↦ .sigma (y σ) (d σ) (c σ)) p) :
    S.HasType (.enter c (.car (.ofTerm p))) fun j ↦ .project .cdr (p j) := by
  intro L hL ω σ τ hσ hτ
  obtain ⟨q, hq, hl⟩ := hp.runLike hS hL hσ hτ
  have hc := hp.isType.of_sigma.2
  have hcar := hL.sound.car hl.elem
  obtain ⟨v, hv, hvE⟩ := hL.sound.convRun
    (hL.sound.cdr hl.elem hcar.runs (hc.runs hL hσ hcar.result))
    (hc.enter hp.isElem.car hL hσ) fun i ↦ hc.same (hS.side hL hσ i)
      ((hl.same i).car (.of_inSight .intro)).result
  exact ⟨v, fun i ↦ Runs.eval_iff.2 (.bind (hq i) (hv i)), hvE⟩

end Functions

end Situation

end LittleTypes
