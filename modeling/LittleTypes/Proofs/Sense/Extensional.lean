import LittleTypes.Proofs.Sense.Rules

/-!
# Comparing functions and pairs

Elements of a type are compared by their normal forms.  The comparison succeeds in all runs if the
elements are the same in every setting, and otherwise it stops in all of them.

With one more name a situation has a setting for every value of this name.  So functions are the
same in every setting if their values at a new name are.  Pairs are the same if their components
are, and all elements of the trivial type and of the empty type are the same.
-/

namespace LittleTypes

/-! ## Comparisons of what elements are made of -/

namespace Scope

section

variable (fuel : Nat) (s : Scope) (loc : Location)

/-- Compares two functions at a name for their argument, which has to be new. -/
def convertAt (z : String) (dom : Value) (cod : Closure) (f g : Value) : Checked Unit := do
  let s' ← s.bind z z dom
  let type ← enter fuel cod (.ofVar z dom)
  let v ← apply fuel f (.ofVar z dom)
  let w ← apply fuel g (.ofVar z dom)
  s'.convert fuel loc type v w

/-- Compares the first components of two pairs, and then the second components, at the type that the
first component of the first pair gives. -/
def convertParts (fst : Value) (snd : Closure) (p q : Value) : Checked Unit := do
  let a ← .ofEval ((machine fuel).doProject .passing .car p)
  let b ← .ofEval ((machine fuel).doProject .passing .car q)
  s.convert fuel loc fst a b
  let type ← enter fuel snd a
  let v ← .ofEval ((machine fuel).doProject .passing .cdr p)
  let w ← .ofEval ((machine fuel).doProject .passing .cdr q)
  s.convert fuel loc type v w

end

variable {fuel : Nat} {s : Scope} {loc : Location} {tv dom : Value} {x : String} {cod : Closure}

theorem expectPi_of_force (h : tv.force = .ok (.pi x dom cod)) :
    (s.expectPi fuel loc tv).outcome = .ok (x, dom, cod) := by
  rw [expectPi, expect, force, h]
  rfl

theorem expectSigma_of_force (h : tv.force = .ok (.sigma x dom cod)) :
    (s.expectSigma fuel loc tv).outcome = .ok (dom, cod) := by
  rw [expectSigma, expect, force, h]
  rfl

end Scope

/-! ## Checks that decide -/

namespace Regime

variable {J α : Type} {R : Regime} {P Q : Prop} {x : J → R.Index → Checked Unit}

variable (R) in
/-- A check succeeds in all runs if something holds, and otherwise it stops in all of them. -/
def Decides (x : J → R.Index → Checked Unit) (P : Prop) : Prop :=
  P ∧ R.Gives x (fun _ _ ↦ ()) ∨ ¬P ∧ R.Stops x

/-- After something that has answers. -/
theorem Gives.decides {y : J → R.Index → Checked α} {f : J → R.Index → α → Checked Unit}
    {a : J → R.Index → α} (h : R.Gives y a) (hf : R.Decides (fun j n ↦ f j n (a j n)) P) :
    R.Decides (fun j n ↦ y j n >>= f j n) P :=
  hf.imp (.imp_right h.bind) (.imp_right h.bindStops)

namespace Decides

theorem congr (h : R.Decides x P) (hPQ : P ↔ Q) : R.Decides x Q := propext hPQ ▸ h

/-- Two checks in a row, where the second one may count on the first. -/
theorem and {f : J → R.Index → Unit → Checked Unit} (h : R.Decides x P)
    (hf : P → R.Decides (fun j n ↦ f j n ()) Q) :
    R.Decides (fun j n ↦ x j n >>= f j n) (P ∧ Q) := by
  obtain ⟨hP, hx⟩ | ⟨hP, hx⟩ := h
  · obtain ⟨hQ, hf⟩ | ⟨hQ, hf⟩ := hf hP
    · exact .inl ⟨⟨hP, hQ⟩, hx.bind hf⟩
    · exact .inr ⟨fun h ↦ hQ h.2, hx.bindStops hf⟩
  · exact .inr ⟨fun h ↦ hP h.1, hx.bind f⟩

/-- It ends, unless it may use up its fuel. -/
theorem ends (h : R.Decides x P) (j : J) : ∀ᶠ n in R.filter, (x j n).Ends ∨ R.mayEnd n := by
  obtain ⟨-, hx⟩ | ⟨-, hx⟩ := h
  · filter_upwards [hx j] with n hn
    exact hn.imp (fun h e ↦ nomatch h.symm.trans e) And.left
  · obtain ⟨s, hx⟩ := hx j
    filter_upwards [hx] with n hn
    exact hn.imp (fun h e ↦ nomatch h.symm.trans e) And.left

/-- If it ends, its verdict is right. -/
theorem ok_iff (h : R.Decides x P) (j : J) :
    ∀ᶠ n in R.filter, (x j n).Ends → ((x j n).outcome = .ok () ↔ P) := by
  obtain ⟨hP, hx⟩ | ⟨hP, hx⟩ := h
  · filter_upwards [hx j] with n hn hends
    exact iff_of_true (hn.resolve_right fun h ↦ hends h.2) hP
  · filter_upwards [hx.ne_ok j] with n hn _
    exact iff_of_false (hn ()) hP

end Decides

variable (R) in
/-- The second check ends, unless it may use up its fuel, and it succeeds exactly if the first one
does. -/
structure SameAnswer (n : R.Index) (x y : Checked Unit) : Prop where
  ends : y.Ends ∨ R.mayEnd n
  ok_iff : x.Ends → y.Ends → (x.outcome = .ok () ↔ y.outcome = .ok ())

theorem Decides.sameAnswer {y : J → R.Index → Checked Unit} (hx : R.Decides x P)
    (hy : R.Decides y P) (j : J) : ∀ᶠ n in R.filter, R.SameAnswer n (x j n) (y j n) := by
  filter_upwards [hy.ends j, hx.ok_iff j, hy.ok_iff j] with n he hx hy
  exact ⟨he, fun ex ey ↦ (hx ex).trans (hy ey).symm⟩

end Regime

/-! ## Types without parts -/

open Idealized (Runs Looks Same SameType TypeAt Size)

theorem TypeFormer.const (k : Const) : TypeFormer fun _ : Unit ↦ .const k where
  inSight _ := .intro
  injective _ _ _ := rfl
  same h hX := ⟨(), TypeAt.of_const h hX⟩
  term hX hN ht ρ := by
    have hk := hN.of_type hX
    have hr : Runs (Idealized.eval ρ (.const k)) (.const k) := Runs.eval_iff.2 (.done _)
    cases k <;> cases hk <;> exact ⟨(), Spells.of_const (c := false) ht ▸ hr⟩

/-- Values that look like a constant stand for one. -/
theorem Stands.eq_const {R : Regime} {θ : Levels} {w : R.Index → Value} {W : Idealized.Value}
    (h : Stands R θ .value w W) {n : R.Index} {k : Const} (hn : w n = .const k) : W = .const k := by
  cases h with
  | const k' => cases hn; rfl
  | _ => cases hn

namespace Situation

variable {R : Regime} {J : Type} {S : Situation R J} {s : Size} {F d f g p q : Sense J}
  {C : Setting J → Idealized.Closure} {y : Setting J → String}

/-! ## Elements that are the same -/

theorem IsElem.tail {x : String} {dv : J → R.Index → Value} (h : S.IsElem F f) :
    (S.bind x d dv).IsElem (fun σ ↦ F σ.tail) fun σ ↦ f σ.tail := by
  rintro L hL ω _ ⟨σ, a, hσ, -, rfl⟩
  exact h hL hσ

/-- All elements of the trivial type and of the empty type are the same. -/
theorem IsElem.sameElems_const {k : Const} (hk : k = .trivial ∨ k = .absurd)
    (hs : S.Sees F fun _ ↦ .const k) (hf : S.IsElem F f) (hg : S.IsElem F g) :
    S.SameElems F f g := by
  intro o σ hσ
  have hf := hf.self hσ
  have hg := hg.self hσ
  obtain rfl | rfl := hk
  · rw [Same.trivial_iff (hs hσ)] at hf hg ⊢
    exact ⟨hf.1, hg.1⟩
  · rw [Same.absurd_iff (hs hσ)] at hf hg ⊢
    exact ⟨hf.1, hg.1⟩

/-- Pairs are the same if their components are. -/
theorem sameElems_sigma_iff (hs : S.Sees F fun σ ↦ .sigma (y σ) (d σ) (C σ)) (hp : S.IsElem F p)
    (hq : S.IsElem F q) : S.SameElems F p q ↔
      S.SameElems d (.car p) (.car q) ∧ S.SameElems (.enter C (.car p)) (.cdr p) (.cdr q) := by
  have hiff {o σ} (hσ : S.Has o σ) : Same o (F σ) (p σ) (q σ) ↔
      Same o (d σ) (Sense.car p σ) (Sense.car q σ) ∧
        Same o (Sense.enter C (.car p) σ) (Sense.cdr p σ) (Sense.cdr q σ) := by
    have hp := hp.self hσ
    have hq := hq.self hσ
    have hF := hp.type
    rw [Same.sigma_iff hF (hs hσ)] at hp hq ⊢
    obtain ⟨hpl, -, a, -, e, -, Y, ha, -, -, he, -, hY, -⟩ := hp
    obtain ⟨hql, -, b, -, k, -, -, hb, -, -, hk, -, -, -⟩ := hq
    simp only [Sense.car, Sense.cdr, Sense.enter, ha.result_eq, hb.result_eq, he.result_eq,
      hk.result_eq, hY.result_eq]
    constructor
    · rintro ⟨-, -, a', b', e', k', Y', ha', hb', hab, he', hk', hY', hek⟩
      cases ha.unique ha'
      cases hb.unique hb'
      cases he.unique he'
      cases hk.unique hk'
      cases hY.unique hY'
      exact ⟨hab, hek⟩
    · exact fun ⟨hab, hek⟩ ↦ ⟨hpl, hql, a, b, e, k, Y, ha, hb, hab, he, hk, hY, hek⟩
  constructor
  · exact fun h ↦ ⟨fun o σ hσ ↦ ((hiff hσ).1 (h hσ)).1, fun o σ hσ ↦ ((hiff hσ).1 (h hσ)).2⟩
  · exact fun h o σ hσ ↦ (hiff hσ).2 ⟨h.1 hσ, h.2 hσ⟩

section

variable (hS : S.Coherent)

include hS

theorem IsElem.sees {V : Sense J} (h : S.IsElem F f) (hV : S.Sees F V) : S.IsElem V f :=
  h.conv hS (h.isType.sees hS hV) (hV.sameTypes h.isType)

/-- Functions are the same if their values at a new name are. -/
theorem sameElems_pi_iff {z : String} {dv : J → R.Index → Value}
    (hs : S.Sees F fun σ ↦ .pi (y σ) (d σ) (C σ)) (hf : S.IsElem F f) (hg : S.IsElem F g) :
    S.SameElems F f g ↔ (S.bind z d dv).SameElems (.body C) (.apply (fun σ ↦ f σ.tail) Setting.top)
      (.apply (fun σ ↦ g σ.tail) Setting.top) := by
  obtain ⟨-, hC⟩ := (hf.isType.sees hS hs).of_pi
  constructor
  · rintro h o σ' ⟨σ, a, hσ, ⟨-, ha⟩, e⟩
    obtain rfl := congrFun e false
    have hσ := hS.side (.sameness o) hσ false
    have hY := hC.runs (.sameness o) hσ (a := fun _ ↦ a false) ⟨ha.type, ha.left⟩ false
    exact ((h hσ).apply (hs hσ) ha.left hY).result
  · intro h o σ hσ
    have hpi := fun {v w} ↦ Same.pi_iff (v := v) (w := w) (hf.isType.self hσ).sameType (hs hσ)
    refine hpi.2 ⟨(hpi.1 (hf.self hσ)).1, (hpi.1 (hg.self hσ)).1, fun a b hab ↦ ?_⟩
    have hY := hC.runs (.sameness o) hσ (a := fun _ ↦ a) ⟨hab.type, hab.left⟩ false
    obtain ⟨v, -, hv, -⟩ := (hf.self hσ).apply (hs hσ) hab.left hY
    obtain ⟨u, w, hu, hw, huw⟩ := (hg.self hσ).apply (hs hσ) hab hY
    -- the new name may have the first of the two arguments as its value
    have hvu := h (holds_bind (x := z) (d := dv) hσ (a := fun _ ↦ a) ⟨hab.type, hab.left⟩)
    refine ⟨v, w, _, hv, hw, hY, Same.trans ?_ huw⟩
    rw [← hv.result_eq, ← hu.result_eq]
    exact hvu

end

/-! ## What comparisons decide -/

section Comparisons

variable {v w dv : J → R.Index → Value} {c : J → R.Index → Closure} {φ : R.Index → Nat}
  (hφ : R.Lasts φ) (hS : S.Coherent) [Nonempty J] (ν : Renaming) (loc : Location)

include hφ hS

/-- Whether elements are the same is decided by their normal forms. -/
theorem Coherent.decides_convert {u : J → R.Index → Value} (hf : S.IsElem F f) (hg : S.IsElem F g)
    (hu : S.Means u F) (hv : S.Means v f) (hw : S.Means w g) :
    R.Decides (fun j n ↦ (S.scope ν j n).convert (φ n) loc (u j n) (v j n) (w j n))
      (S.SameElems F f g) := by
  obtain ⟨t, r, ht, hr, ⟨h, hx⟩ | ⟨h, hx⟩⟩ :=
    hS.convert_iff hφ ν (fun _ ↦ loc) hf hg hu hv hw
  · exact .inl ⟨hf.sameElems hS hg ht hr h, hx⟩
  · refine .inr ⟨fun hfg ↦ h (Classical.arbitrary J) ?_, hx⟩
    exact hfg.alphaEquiv hS (fun _ _ hσ ↦ (hf.isType.self hσ).sameType) ht hr _

/-- Whether functions are the same is decided at any new name. -/
theorem Coherent.decides_convertAt {z : String} (hz : z ∉ S.names)
    (hs : S.Sees F fun σ ↦ .pi (y σ) (d σ) (C σ)) (hdv : S.Means dv d) (hc : S.MeansClosure c C)
    (hf : S.IsElem F f) (hg : S.IsElem F g) (hv : S.Means v f) (hw : S.Means w g) :
    R.Decides (fun j n ↦
      (S.scope ν j n).convertAt (φ n) loc z (dv j n) (c j n) (v j n) (w j n))
      (S.SameElems F f g) := by
  have hf' := hf.sees hS hs
  have hg' := hg.sees hS hs
  obtain ⟨hd, hC⟩ := hf'.isType.of_pi
  have hS' := coherent_bind hS hz hd hdv
  have htop : (S.bind z d dv).Means (fun j n ↦ .ofVar z (dv j n)) Setting.top := fun j ↦
    .ofVar ((hdv j).mono (hS.le_bind hz))
  obtain ⟨tv, htv, htn⟩ := hS'.exists_enter hφ hC.tail isElem_top
    (fun j ↦ (hc j).mono (hS.le_bind hz)) htop
  obtain ⟨fv, hfv, hfn⟩ := hS'.exists_apply hφ hf'.tail isElem_top (hS.means_bind hz hv) htop
  obtain ⟨gv, hgv, hgn⟩ := hS'.exists_apply hφ hg'.tail isElem_top (hS.means_bind hz hw) htop
  simp only [Scope.convertAt, hS.scope_bind z hz d dv, pure_bind]
  refine htn.decides (hfn.decides (hgn.decides ?_))
  exact (hS'.decides_convert hφ _ loc (hf'.tail.apply isElem_top) (hg'.tail.apply isElem_top)
    htv hfv hgv).congr (sameElems_pi_iff hS hs hf hg).symm

/-- Whether pairs are the same is decided by their components. -/
theorem Coherent.decides_convertParts (hs : S.Sees F fun σ ↦ .sigma (y σ) (d σ) (C σ))
    (hdv : S.Means dv d) (hc : S.MeansClosure c C) (hp : S.IsElem F p) (hq : S.IsElem F q)
    (hv : S.Means v p) (hw : S.Means w q) :
    R.Decides (fun j n ↦
      (S.scope ν j n).convertParts (φ n) loc (dv j n) (c j n) (v j n) (w j n))
      (S.SameElems F p q) := by
  have hp' := hp.sees hS hs
  have hq' := hq.sees hS hs
  have hC := hp'.isType.of_sigma.2
  obtain ⟨a, ha, han⟩ := hS.exists_car hφ hp' hv
  obtain ⟨b, hb, hbn⟩ := hS.exists_car hφ hq' hw
  refine han.decides (hbn.decides (.congr ?_ (sameElems_sigma_iff hs hp hq).symm))
  refine (hS.decides_convert hφ ν loc hp'.car hq'.car hdv ha hb).and fun hab ↦ ?_
  obtain ⟨tv, htv, htn⟩ := hS.exists_enter hφ hC hp'.car hc ha
  obtain ⟨e, he, hen⟩ := hS.exists_cdr hφ hp' hv
  obtain ⟨k, hk, hkn⟩ := hS.exists_cdr hφ hq' hw
  refine htn.decides (hen.decides (hkn.decides ?_))
  -- the first components are the same, so they give the same type
  have hcdr : S.IsElem (.enter C (.car p)) (.cdr q) :=
    hq'.cdr.conv hS (hC.enter hp'.car) fun _ _ hσ ↦ (hC.same hσ (hab hσ)).symm
  exact hS.decides_convert hφ ν loc hp'.cdr hcdr htv he hk

/-! ### The shape of the type -/

section Shapes

variable {u : J → R.Index → Value} (hu : S.Means u F) (hf : S.IsElem F f) (hg : S.IsElem F g)
  (hv : S.Means v f) (hw : S.Means w g) (j : J)

include hu hf hg hv hw

/-- Functions are compared at a new name. -/
theorem Coherent.convert_pi [Subsingleton J] {z : String} (hz : z ∉ S.names) :
    ∀ᶠ n in R.filter, ∀ x dom cod, (u j n).force = .ok (.pi x dom cod) →
      R.SameAnswer n ((S.scope ν j n).convert (φ n) loc (u j n) (v j n) (w j n))
        ((S.scope ν j n).convertAt (φ n) loc z dom cod (v j n) (w j n)) := by
  have hconv := hS.decides_convert hφ ν loc hf hg hu hv hw
  have hshape : R.Meets R.allExcused _ (fun j n ↦ (S.scope ν j n).expectPi (φ n) loc (u j n)) _ :=
    hS.expectPi hφ hf.isType hu
  have hparts := hshape.answers j (T := fun n p ↦
    R.SameAnswer n ((S.scope ν j n).convert (φ n) loc (u j n) (v j n) (w j n))
      ((S.scope ν j n).convertAt (φ n) loc z p.2.1 p.2.2 (v j n) (w j n)))
  refine (hparts ?_).mono fun n hn x dom cod e ↦
    hn (x, dom, cod) (Scope.expectPi_of_force e)
  rintro ⟨_, dv, c⟩ ⟨y, d, C, hs, hdv, hc⟩
  exact hconv.sameAnswer (hS.decides_convertAt hφ ν loc hz hs hdv hc hf hg hv hw) j

/-- Pairs are compared by their components. -/
theorem Coherent.convert_sigma [Subsingleton J] :
    ∀ᶠ n in R.filter, ∀ x fst snd, (u j n).force = .ok (.sigma x fst snd) →
      R.SameAnswer n ((S.scope ν j n).convert (φ n) loc (u j n) (v j n) (w j n))
        ((S.scope ν j n).convertParts (φ n) loc fst snd (v j n) (w j n)) := by
  have hconv := hS.decides_convert hφ ν loc hf hg hu hv hw
  have hshape : R.Meets R.allExcused _
      (fun j n ↦ (S.scope ν j n).expectSigma (φ n) loc (u j n)) _ :=
    hS.expectSigma hφ hf.isType hu
  have hparts := hshape.answers j (T := fun n p ↦
    R.SameAnswer n ((S.scope ν j n).convert (φ n) loc (u j n) (v j n) (w j n))
      ((S.scope ν j n).convertParts (φ n) loc p.1 p.2 (v j n) (w j n)))
  refine (hparts ?_).mono fun n hn x fst snd e ↦
    hn (fst, snd) (Scope.expectSigma_of_force e)
  rintro ⟨dv, c⟩ ⟨y, d, C, hs, hdv, hc⟩
  exact hconv.sameAnswer (hS.decides_convertParts hφ ν loc hs hdv hc hf hg hv hw) j

/-- Elements of the trivial type and of the empty type are always the same. -/
theorem Coherent.convert_const {k : Const} (hk : k = .trivial ∨ k = .absurd) :
    ∀ᶠ n in R.filter, (u j n).force = .ok (.const k) →
      ((S.scope ν j n).convert (φ n) loc (u j n) (v j n) (w j n)).Ends →
        ((S.scope ν j n).convert (φ n) loc (u j n) (v j n) (w j n)).outcome = .ok () := by
  obtain hall | hnone := hf.isType.former_or_not hS (.const k)
  · obtain ⟨t, ht, -⟩ := hS.exists_readBackType hφ ν hf.isType hu
    obtain ⟨-, hs⟩ := hf.isType.sees_former hS (.const k) ht hall
    filter_upwards [(hS.decides_convert hφ ν loc hf hg hu hv hw).ok_iff j] with n hn _ hends
    exact (hn hends).2 (hf.sameElems_const hk hs hg)
  · obtain ⟨W, hW⟩ := (hf.isType.self (hS.hasHere j)).looks
    obtain ⟨r, hr, hy⟩ := ((hu j).force).yields hW
    filter_upwards [hy] with n hn e
    obtain hn | ⟨-, hn⟩ := hn
    · exact absurd (hr.eq_const (Except.ok.inj (hn.symm.trans e)) ▸ hW) (hnone j ())
    · cases hn.symm.trans e

end Shapes

end Comparisons

end Situation

end LittleTypes
