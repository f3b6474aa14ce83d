import LittleTypes.Proofs.Sense.Context

/-!
# Comparing expressions

Two expressions of a type are compared by the normal forms that they have at the value of the type.
The normal form of an annotated expression is read at the value of the normal form of the type.
Both ways lead to the same verdict.
-/

namespace LittleTypes

open Filter

/-- The normal form of an annotated expression, step by step. -/
theorem Context.rep_the (fuel : Nat) (Γ : Context) (loc : Location) (type e : Source) :
    Γ.rep fuel (.the loc type e) = (do
      let t ← type.isType fuel Γ.scope
      let tv ← Γ.scope.eval fuel t
      let e' ← e.check fuel Γ.scope tv
      let u ← Γ.scope.readBackType fuel tv
      let uv ← Γ.scope.eval fuel u
      let v ← Γ.scope.eval fuel e'
      let type ← Γ.scope.readBackType fuel uv
      pure (.the type (← Γ.scope.readBack fuel uv v))) := by
  simp only [rep, Source.synth, Source.elaborator, Rule.the, Elaborator.ofSynth, Scope.judge,
    bind_assoc, Source.isType, Source.check]
  rfl

/-- Two expressions have normal forms, annotated with the type, and these are α-equivalent. -/
def Context.SameNormalForms (fuel : Nat) (Γ : Context) (l₁ l₂ : Location) (type a b : Source) : Prop :=
  ∃ T v T' w, (Γ.rep fuel (.the l₁ type a)).outcome = .ok (.the T v) ∧
    (Γ.rep fuel (.the l₂ type b)).outcome = .ok (.the T' w) ∧ v.alphaEquiv w

namespace Situation

variable {R : Regime} {J : Type} {S : Situation R J} {φ : R.Index → Nat} {F : Sense J}

section Runs

variable (hφ : R.Lasts φ) (hS : S.Coherent)

include hφ hS

/-- The normal form of an expression at the normal form of its type. -/
theorem SharedTerm.exists_rep {e : J → Term} (he : S.SharedTerm F e) {tv : J → R.Index → Value}
    (htv : S.Means tv F) : ∃ T v : J → Term, (∀ j, (v j).Whole) ∧
      (∀ t, S.Spelled (S.readElem F (.ofTerm e)) t → ∀ j, (t j).alphaEquiv (v j)) ∧
      R.Gives (fun j n ↦ do
        let u ← (S.context j n).scope.readBackType (φ n) (tv j n)
        let uv ← (S.context j n).scope.eval (φ n) u
        let v ← (S.context j n).scope.eval (φ n) (e j)
        let type ← (S.context j n).scope.readBackType (φ n) uv
        pure (Term.the type (← (S.context j n).scope.readBack (φ n) uv v)))
        (R.steady fun j ↦ .the (T j) (v j)) := by
  obtain ⟨u, hu, hun⟩ := hS.exists_readBackType hφ {} he.elem.isType htv
  obtain ⟨T, v, -, hv, hn⟩ := (he.judgment (χ := True) hS hu).toSharedJudgment.exists_normal hφ hS
  refine ⟨T, v, hv.whole, fun t ht j ↦ ?_, hun.bind hn⟩
  have hself : S.SameElems F (.ofTerm e) (.ofTerm e) := fun _ _ hσ ↦ he.elem.isElem.self hσ
  exact hself.alphaEquiv hS (fun _ _ hσ ↦ (he.elem.isType.sameTerm hS hu hσ).symm) ht hv j

/-- To compare two expressions, and to compare their normal forms. -/
theorem Coherent.comparison [Subsingleton J] (ho : S.unfinished) (loc l₁ l₂ : Location)
    (type a b : Source) :
    (∃ T v T' w : J → Term,
      R.Gives (fun j n ↦ (S.context j n).rep (φ n) (.the l₁ type a))
        (R.steady fun j ↦ .the (T j) (v j)) ∧
      R.Gives (fun j n ↦ (S.context j n).rep (φ n) (.the l₂ type b))
        (R.steady fun j ↦ .the (T' j) (w j)) ∧
      ((∀ j, (v j).alphaEquiv (w j)) ∧
          R.Gives (fun j n ↦ (S.context j n).checkSame (φ n) loc type a b) (fun _ _ ↦ ()) ∨
        (∀ j, ¬(v j).alphaEquiv (w j)) ∧
          R.Stops fun j n ↦ (S.context j n).checkSame (φ n) loc type a b)) ∨
    (R.Stops fun j n ↦ (S.context j n).checkSame (φ n) loc type a b) ∧
      ((R.Stops fun j n ↦ (S.context j n).rep (φ n) (.the l₁ type a)) ∨
        R.Stops fun j n ↦ (S.context j n).rep (φ n) (.the l₂ type b)) := by
  simp only [Context.rep_the]
  obtain ⟨t, ht, htn⟩ | htn := ((type.sound hφ fun _ ↦ ho).isType hS id {}).single
  · obtain ⟨tv, htv, htvn⟩ := hS.exists_evalType hφ {} ht.type
    obtain ⟨a', ha, han⟩ | han :=
      ((a.sound hφ fun _ ↦ ho).check hS id {} ht.type.isType htv).single
    · obtain ⟨b', hb, hbn⟩ | hbn :=
        ((b.sound hφ fun _ ↦ ho).check hS id {} ht.type.isType htv).single
      · left
        obtain ⟨T, v, hvw, hv, hvn⟩ := ha.exists_rep hφ hS htv
        obtain ⟨T', w, -, hw, hwn⟩ := hb.exists_rep hφ hS htv
        refine ⟨T, v, T', w, htn.bind (htvn.bind (han.bind hvn)),
          htn.bind (htvn.bind (hbn.bind hwn)), ?_⟩
        obtain ⟨av, hav, havn⟩ := hS.exists_eval hφ {} ha.elem
        obtain ⟨bv, hbv, hbvn⟩ := hS.exists_eval hφ {} hb.elem
        obtain ⟨r, s, hr, hs, hrs⟩ := hS.convert_iff hφ {} (fun _ ↦ loc)
          ha.elem.isElem hb.elem.isElem htv hav hbv
        have hiff : ∀ j, (v j).alphaEquiv (w j) ↔ (r j).alphaEquiv (s j) := by
          intro j
          rw [hS.alphaEquiv_iff (hvw j), hS.alphaEquiv_iff (hr.whole j),
            (hS.alphaEquiv_iff (hr.whole j)).1 (hv r hr j),
            (hS.alphaEquiv_iff (hs.whole j)).1 (hw s hs j)]
        simp only [hiff]
        refine hrs.imp (.imp_right fun h ↦ ?_) (.imp_right fun h ↦ ?_)
        · exact htn.bind (htvn.bind (han.bind (hbn.bind (havn.bind (hbvn.bind h)))))
        · exact htn.bindStops (htvn.bindStops (han.bindStops (hbn.bindStops
            (havn.bindStops (hbvn.bindStops h)))))
      · exact .inr ⟨htn.bindStops (htvn.bindStops (han.bindStops (hbn.bind _))),
          .inr (htn.bindStops (htvn.bindStops (hbn.bind _)))⟩
    · exact .inr ⟨htn.bindStops (htvn.bindStops (han.bind _)),
        .inl (htn.bindStops (htvn.bindStops (han.bind _)))⟩
  · exact .inr ⟨htn.bind _, .inl (htn.bind _)⟩

/-- If the fuel is enough, two expressions are the same exactly if their normal forms are. -/
theorem Coherent.checkSame_iff [Subsingleton J] (ho : S.unfinished) (loc l₁ l₂ : Location)
    (type a b : Source) (j : J) :
    ∀ᶠ n in R.filter, ((S.context j n).checkSame (φ n) loc type a b).Ends ∧
      ((S.context j n).rep (φ n) (.the l₁ type a)).Ends ∧
      ((S.context j n).rep (φ n) (.the l₂ type b)).Ends →
        (((S.context j n).checkSame (φ n) loc type a b).outcome = .ok () ↔
          (S.context j n).SameNormalForms (φ n) l₁ l₂ type a b) := by
  obtain ⟨T, v, T', w, hv, hw, ⟨h, hs⟩ | ⟨h, hs⟩⟩ | ⟨hs, hv | hw⟩ :=
    hS.comparison hφ ho loc l₁ l₂ type a b
  · filter_upwards [hv j, hw j, hs j] with n hv hw hs ⟨hx, hy, hz⟩
    have hv := hv.resolve_right fun e ↦ hy e.2
    have hw := hw.resolve_right fun e ↦ hz e.2
    exact iff_of_true (hs.resolve_right fun e ↦ hx e.2) ⟨_, _, _, _, hv, hw, h j⟩
  · filter_upwards [hv j, hw j, hs.ne_ok j] with n hv hw hs ⟨hx, hy, hz⟩
    have hv := hv.resolve_right fun e ↦ hy e.2
    have hw := hw.resolve_right fun e ↦ hz e.2
    refine iff_of_false (hs ()) ?_
    rintro ⟨_, _, _, _, hv', hw', e⟩
    cases hv.symm.trans hv'
    cases hw.symm.trans hw'
    exact h j e
  · filter_upwards [hv.ne_ok j, hs.ne_ok j] with n hv hs _
    refine iff_of_false (hs ()) ?_
    rintro ⟨_, _, _, _, hv', -, -⟩
    exact hv _ hv'
  · filter_upwards [hw.ne_ok j, hs.ne_ok j] with n hw hs _
    refine iff_of_false (hs ()) ?_
    rintro ⟨_, _, _, _, -, hw', -⟩
    exact hw _ hw'

end Runs

end Situation

namespace Context

variable {fuel : Nat} {es : List Context.Entry} {Γ : Context}

/-- **Comparing expressions is comparing normal forms.**  In a context that is built by
declarations, two expressions are the same element of a type exactly if their normal forms are
α-equivalent, if the fuel is enough, and there is enough of it. -/
theorem checkSame_iff_rep (h : Built fuel es Γ) (loc l₁ l₂ : Location) (type a b : Source) :
    ((Γ.checkSame fuel loc type a b).Ends ∧ (Γ.rep fuel (.the l₁ type a)).Ends ∧
        (Γ.rep fuel (.the l₂ type b)).Ends →
      ((Γ.checkSame fuel loc type a b).outcome = .ok () ↔
        SameNormalForms fuel Γ l₁ l₂ type a b)) ∧
    Eventually es fun n Δ ↦
      ((Δ.checkSame n loc type a b).Ends ∧ (Δ.rep n (.the l₁ type a)).Ends ∧
        (Δ.rep n (.the l₂ type b)).Ends) ∧
      ((Δ.checkSame n loc type a b).outcome = .ok () ↔
        SameNormalForms n Δ l₁ l₂ type a b) := by
  obtain ⟨S, hS⟩ := h.exists_situation Unit
  have hφ := Regime.lasts_since fuel
  have hx : ∀ᶠ n in (Regime.since fuel).filter,
      ((S.context () n).checkSame n loc type a b).Ends ∨ (Regime.since fuel).mayEnd n :=
    (hS.coherent.checkSame hφ (fun _ ↦ hS.unfinished) (fun _ ↦ hS.unfinished)
      fun _ ↦ hS.unfinished).ends ()
  have hy := (hS.coherent.rep hφ (e := .the l₁ type a) fun _ ↦ hS.unfinished).ends ()
  have hz := (hS.coherent.rep hφ (e := .the l₂ type b) fun _ ↦ hS.unfinished).ends ()
  have hiff := hS.coherent.checkSame_iff hφ hS.unfinished loc l₁ l₂ type a b ()
  refine hS.settle_ends (E := fun n Δ ↦ (Δ.checkSame n loc type a b).Ends ∧
    (Δ.rep n (.the l₁ type a)).Ends ∧ (Δ.rep n (.the l₂ type b)).Ends)
    (P := fun n Δ ↦ (Δ.checkSame n loc type a b).outcome = .ok () ↔
      SameNormalForms n Δ l₁ l₂ type a b) ?_ ?_
  · filter_upwards [hx, hy, hz] with n hx hy hz Δ hΔ
    rw [hΔ] at hx hy hz
    exact and_or_right.2 ⟨hx, and_or_right.2 ⟨hy, hz⟩⟩
  · filter_upwards [hiff] with n hiff Δ hΔ
    rwa [hΔ] at hiff

/-- An unknown function and the same function written out. -/
theorem checkSame_iff_rep_expanded :
    ∃ Γ, Built 9 [.declare (.free "f" .natToNat)] Γ ∧
      (Γ.checkSame 9 {} .natToNat (.var {} "f") (.expanded "f" "a")).outcome = .ok () ∧
      Γ.SameNormalForms 9 {} {} .natToNat (.var {} "f") (.expanded "f" "a") := by
  have hΓ : Built 9 [.declare (.free "f" .natToNat)] _ := Built.nil.free rfl rfl rfl
  have h := (checkSame_iff_rep hΓ {} {} {} .natToNat (.var {} "f") (.expanded "f" "a")).1
    ⟨nofun, nofun, nofun⟩
  exact ⟨_, hΓ, rfl, h.1 rfl⟩

end Context

end LittleTypes
