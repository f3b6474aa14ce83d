import LittleTypes.Proofs.Sense.Context

/-!
# The types of neutral values

Evaluation gives a type to every elimination that waits for an unknown value, and the checker finds
a type for every expression.  They agree: a neutral value has the type that was found for its
expression.
-/

namespace LittleTypes

open Filter

namespace Idealized

/-- An element that waits for an unknown value says which type it is an element of. -/
theorem Same.typeOfNeutral {o : Prop} {X v w T : Value} {m : Neutral} (h : Same o X v w)
    (hv : Looks v (.neu T m)) : SameType o T X := by
  obtain ⟨S, hS, hX, hvw⟩ := h
  suffices hT : S.code T from ⟨S, hS.mono fun _ ↦ id, hT, hX⟩
  have waiting : ∀ {code : Value → Prop}, Waiting o code v w → code T := by
    rintro code ⟨-, T', m', U, n, hv', -, hT, -⟩
    cases hv.unique hv'
    exact hT
  cases hS with
  | base hS =>
    cases hS
    obtain ⟨S', hS', hv', -⟩ := hvw
    obtain ⟨V, hV, hb⟩ := hS'.built nofun hv'
    cases hv.unique hV
    cases hb with
    | unknown _ hU => exact hU
  | nat =>
    cases hvw with
    | zero hv' | add1 hv' => cases hv.unique hv'
    | waiting h => exact waiting h
  | atom =>
    obtain ⟨s, hv', -⟩ | h := hvw
    · cases hv.unique hv'
    · exact waiting h
  | trivial =>
    obtain ⟨hv' | ⟨-, T', m', hv', hT⟩, -⟩ := hvw
    · cases hv.unique hv'
    · cases hv.unique hv'
      exact hT
  | absurd =>
    obtain ⟨⟨-, T', m', hv', hT, -⟩, -⟩ := hvw
    cases hv.unique hv'
    exact hT
  | unknown => exact waiting hvw
  | list =>
    cases hvw with
    | nil hv' | cons hv' => cases hv.unique hv'
    | waiting h => exact waiting h
  | vec =>
    cases hvw with
    | nil _ hv' => cases hv.unique hv'
    | cons _ hv' => cases hv.unique hv'
    | waiting h => exact waiting h
  | equal =>
    obtain ⟨x, y, hv', -⟩ | h := hvw
    · cases hv.unique hv'
    · exact waiting h
  | either =>
    obtain ⟨x, y, hv', -⟩ | ⟨x, y, hv', -⟩ | h := hvw
    · cases hv.unique hv'
    · cases hv.unique hv'
    · exact waiting h
  | pi =>
    obtain ⟨x, c, hv'⟩ | ⟨-, T', m', hv', hT⟩ := hvw.1
    · cases hv.unique hv'
    · cases hv.unique hv'
      exact hT
  | sigma =>
    obtain ⟨x, c, hv'⟩ | ⟨-, T', m', hv', hT⟩ := hvw.1
    · cases hv.unique hv'
    · cases hv.unique hv'
      exact hT

end Idealized

open Idealized (SameType Looks)

variable {R : Regime} {θ : Levels}

/-- Whether values stand for a neutral value can be seen, and so can its type. -/
theorem Stands.neutral_or_not {w : R.Index → Value} {W : Idealized.Value}
    (h : Stands R θ .value w W) :
    (∃ (t : R.Index → Value) (T : Idealized.Value) (m : R.Index → Neutral) (M : Idealized.Neutral),
      W = .neu T M ∧ Stands R θ .value t T ∧ ∀ n, w n = .neu (t n) (m n)) ∨
    ∀ n t m, w n ≠ .neu t m := by
  cases h with
  | neu ht hm => exact .inl ⟨_, _, _, _, rfl, ht, fun _ ↦ rfl⟩
  | _ => exact .inr nofun

namespace Situation

variable {J : Type} {S : Situation R J} {φ : R.Index → Nat} (hφ : R.Lasts φ) (hS : S.Coherent)

include hφ hS

/-- Types that are the same in the contexts are found to be the same there. -/
theorem Coherent.yields_sameType (j : J) (ν : Renaming) {v w : R.Index → Value}
    {V W : Idealized.Value} (hv : Stands R S.levels .value v V) (hw : Stands R S.levels .value w W)
    (h : SameType True V W) (loc : Location) : R.Yields .outOfFuel
      (fun n ↦ ((S.scope ν j n).sameType (φ n) loc (v n) (w n)).outcome) fun _ ↦ () := by
  obtain ⟨M, N, hM, hN, e⟩ := h.readAlike S.size
  obtain ⟨t, ⟨M', hM', ht⟩, hy⟩ := (hS.surveyed j).reads hφ (.type hv) ⟨M, hM⟩
  obtain ⟨u, ⟨N', hN', hu⟩, hz⟩ := (hS.surveyed j).reads hφ (.type hw) ⟨N, hN⟩
  have htu : t.alphaEquiv u := by
    rw [hS.alphaEquiv_iff ht.whole, ht.nameless, hu.nameless, hM'.unique hM, hN'.unique hN, e]
  simp only [Scope.sameType, Checked.outcome_bind]
  refine hy.ofRead.bind (hz.ofRead.bind ?_)
  simp only [htu, if_true]
  exact .pure _

variable {k : J → Judgment}

/-- An expression that has been checked has a value, and if this is neutral then its type and that
of the expression are found to be the same. -/
theorem SharedJudgment.neutral (hk : S.SharedJudgment k) (j : J) (loc : Location) :
    ∃ v w tv : R.Index → Value,
      R.Yields .outOfFuel (fun n ↦ (S.context j n).eval (φ n) (k j).term) v ∧
      R.Yields .outOfFuel (fun n ↦ (v n).force) w ∧
      R.Yields .outOfFuel (fun n ↦ (S.context j n).eval (φ n) (k j).type) tv ∧
      ∀ᶠ n in R.filter, ∀ T m, w n = .neu T m →
        ((S.context j n).scope.sameType (φ n) loc T (tv n)).outcome = .ok () ∨ R.mayEnd n ∧
          ((S.context j n).scope.sameType (φ n) loc T (tv n)).outcome = .error .outOfFuel := by
  have hhere := hS.hasHere j
  have hc := hk.term.elem.isElem.self hhere
  obtain ⟨W, hW⟩ := hc.looks
  obtain ⟨v, hv, hvn⟩ :=
    (follows_eval hφ (k j).term (hS.env j)).yields (hk.term.elem.runs hhere)
  obtain ⟨tv, htv, htvn⟩ :=
    (follows_eval hφ (k j).type (hS.env j)).yields (hk.type.type.runs hhere)
  obtain ⟨w, hw, hwn⟩ := hv.force.yields hW
  refine ⟨v, w, tv, hvn, hwn, htvn, ?_⟩
  obtain ⟨t, T, m, M, rfl, ht, hwt⟩ | hne := hw.neutral_or_not
  · filter_upwards [hS.yields_sameType hφ j {} ht htv (hc.typeOfNeutral hW) loc] with n hn T' m' e
    cases (hwt n).symm.trans e
    exact hn
  · exact .of_forall fun n T m e ↦ absurd e (hne n T m)

end Situation

namespace Context

open Situation

variable {fuel : Nat} {es : List Context.Entry} {Γ : Context}

/-- **The types of neutral values.**  In a context that is built, if a type has been found for an
expression and the value of the expression is neutral, then the type that evaluation gave to this
value is the same type as the one that was found, or the fuel is used up on the way, and with enough
fuel it is not. -/
theorem neutral_types_agree (h : Built fuel es Γ) {e : Source} {j : Judgment}
    (hj : (e.synth fuel Γ.scope).outcome = .ok j) (loc : Location) :
    (∀ v tv T m, Γ.eval fuel j.term = .ok v → v.force = .ok (.neu T m) →
      Γ.eval fuel j.type = .ok tv → (Γ.scope.sameType fuel loc T tv).outcome = .ok () ∨
        (Γ.scope.sameType fuel loc T tv).outcome = .error .outOfFuel) ∧
    Eventually es fun n Δ ↦ (e.synth n Δ.scope).outcome = .ok j ∧
      ∃ v w tv, Δ.eval n j.term = .ok v ∧ v.force = .ok w ∧ Δ.eval n j.type = .ok tv ∧
        ∀ T m, w = .neu T m → (Δ.scope.sameType n loc T tv).outcome = .ok () := by
  obtain ⟨S, hS⟩ := h.exists_situation Unit
  have hφ := Regime.lasts_since fuel
  obtain ⟨k, hk, hfuel, hkn⟩ := hS.of_ok (f := fun n Δ ↦ e.synth n Δ.scope)
    ((e.sound hφ fun _ ↦ hS.unfinished).synth hS.coherent id {}) hj
  obtain ⟨v, w, tv, hv, hw, htv, hs⟩ := hk.neutral hφ hS.coherent () loc
  obtain rfl : k () = j := hfuel ()
  have hkn : ∀ᶠ n in (Regime.since fuel).filter, ∀ Δ, (∀ j, S.context j n = Δ) →
      (e.synth n Δ.scope).outcome = .ok (k ()) :=
    hkn.mono fun n hn Δ hΔ ↦ hn Δ hΔ ()
  refine (hS.settle (P := fun n Δ ↦ (e.synth n Δ.scope).outcome = .ok (k ()) ∧ ∃ v w tv,
    Δ.eval n (k ()).term = .ok v ∧ v.force = .ok w ∧ Δ.eval n (k ()).type = .ok tv ∧
      ∀ T m, w = .neu T m → (Δ.scope.sameType n loc T tv).outcome = .ok ())
    (Q := fun n Δ ↦ ∀ v tv T m, Δ.eval n (k ()).term = .ok v →
      v.force = .ok (.neu T m) → Δ.eval n (k ()).type = .ok tv →
        (Δ.scope.sameType n loc T tv).outcome = .ok () ∨
          (Δ.scope.sameType n loc T tv).outcome = .error .outOfFuel) ?_).imp_left ?_
  · filter_upwards [hkn, hv, hw, htv, hs] with n hkn hv hw htv hs Δ hΔ
    rw [hΔ ()] at hv htv hs
    obtain hv | ⟨hend, hv⟩ := hv
    · obtain hw | ⟨hend, hw⟩ := hw
      · obtain htv | ⟨hend, htv⟩ := htv
        · by_cases hall : ∀ T m, w n = .neu T m →
              (Δ.scope.sameType n loc T (tv n)).outcome = .ok ()
          · exact .inl ⟨hkn Δ hΔ, v n, w n, tv n, hv, hw, htv, hall⟩
          · push Not at hall
            obtain ⟨T, m, e, hne⟩ := hall
            refine .inr ⟨((hs T m e).resolve_left hne).1, fun v' tv' T' m' hv' hw' htv' ↦ ?_⟩
            cases hv.symm.trans hv'
            cases htv.symm.trans htv'
            exact (hs T' m' (Except.ok.inj (hw.symm.trans hw'))).imp_right And.right
        · exact .inr ⟨hend, fun _ _ _ _ _ _ h ↦ by cases htv.symm.trans h⟩
      · exact .inr ⟨hend, fun _ _ _ _ h h' _ ↦ by cases hv.symm.trans h; cases hw.symm.trans h'⟩
    · exact .inr ⟨hend, fun _ _ _ _ h _ _ ↦ by cases hv.symm.trans h⟩
  · rintro (⟨-, v, w, tv, hv, hw, htv, hs⟩ | hQ)
    · intro v' tv' T m hv' hw' htv'
      cases hv.symm.trans hv'
      cases htv.symm.trans htv'
      exact .inl (hs T m (Except.ok.inj (hw.symm.trans hw')))
    · exact hQ

/-- An unknown function at an argument is a neutral value, and its type is the result type. -/
theorem neutral_types_agree_application :
    ∃ Γ j v tv T m, Built 9 [.declare (.free "f" .natToNat)] Γ ∧
      (Source.synth 9 Γ.scope (.app {} (.var {} "f") [.const {} .zero])).outcome = .ok j ∧
      Γ.eval 9 j.term = .ok v ∧ v.force = .ok (.neu T m) ∧ Γ.eval 9 j.type = .ok tv ∧
      (Γ.scope.sameType 9 {} T tv).outcome = .ok () := by
  have hΓ : Built 9 [.declare (.free "f" .natToNat)] _ := Built.nil.free rfl rfl rfl
  have h := (neutral_types_agree hΓ (e := .app {} (.var {} "f") [.const {} .zero]) rfl {}).1
  exact ⟨_, _, _, _, _, _, hΓ, rfl, rfl, rfl, rfl, (h _ _ _ _ rfl rfl rfl).resolve_right nofun⟩

end Context

end LittleTypes
