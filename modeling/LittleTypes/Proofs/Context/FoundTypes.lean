import LittleTypes.Proofs.Context.Idempotence

/-!
# The types that are found

The type that is found for an expression is a normal form: it was read back from a value.  There is
one exception.  What is made of an element of the empty type has its motive for a type, as the
motive was elaborated, and recursion passes such a type on from the base to the result.
-/

namespace LittleTypes

open Filter Situation Checked

/-! ## Types that are passed on -/

namespace Rule

variable {fuel : Nat} {loc : Location} {a b c : Elaborator} {s : Scope} {j : Judgment}

/-- The type of a recursion is the type of its base. -/
theorem exists_base_of_recursor {k : Recursor}
    (h : ((recursor fuel loc k a b c).synth s).outcome = .ok j) :
    ∃ q, (b.synth s).outcome = .ok q ∧ q.type = j.type := by
  cases k with
  | whichNat | iterNat | recNat =>
    obtain ⟨t, -, h⟩ := outcome_bind_eq_ok_iff.1 h
    obtain ⟨q, hq, h⟩ := outcome_bind_eq_ok_iff.1 h
    obtain ⟨v, -, h⟩ := outcome_bind_eq_ok_iff.1 h
    obtain ⟨u, -, h⟩ := outcome_bind_eq_ok_iff.1 h
    cases h
    exact ⟨q, hq, rfl⟩
  | recList =>
    obtain ⟨p, -, h⟩ := outcome_bind_eq_ok_iff.1 h
    obtain ⟨v, -, h⟩ := outcome_bind_eq_ok_iff.1 h
    obtain ⟨elem, -, h⟩ := outcome_bind_eq_ok_iff.1 h
    obtain ⟨q, hq, h⟩ := outcome_bind_eq_ok_iff.1 h
    obtain ⟨w, -, h⟩ := outcome_bind_eq_ok_iff.1 h
    obtain ⟨u, -, h⟩ := outcome_bind_eq_ok_iff.1 h
    cases h
    exact ⟨q, hq, rfl⟩

end Rule

/-- A motive that is passed on is the type that is found, as it was elaborated. -/
theorem Source.isType_of_lent? {fuel : Nat} {s : Scope} {e m : Source} {j : Judgment}
    (hm : e.lent? = some m) (hj : (e.synth fuel s).outcome = .ok j) :
    (m.isType fuel s).outcome = .ok j.type := by
  fun_induction lent? e generalizing j with
  | case1 l t m' =>
    cases hm
    obtain ⟨t', -, hj⟩ := outcome_bind_eq_ok_iff.1 hj
    obtain ⟨T, hT, hj⟩ := outcome_bind_eq_ok_iff.1 hj
    cases hj
    exact hT
  | case2 l k t b step ih =>
    obtain ⟨q, hq, e⟩ := Rule.exists_base_of_recursor hj
    exact e ▸ ih hm hq
  | case3 => cases hm

namespace Context

variable {fuel : Nat} {es : List Context.Entry} {Γ : Context}

/-- **The types that are found.**  In a context that is built, the type that is found for an
expression has a normal form, or the fuel is used up on the way, and with enough fuel it is not.
The type is its own normal form, up to the names of bound variables, unless a motive is passed on as
the type of the expression; and then the type is this motive as it was elaborated. -/
theorem synth_type_normal (h : Built fuel es Γ) {e : Source} {j : Judgment}
    (hj : (e.synth fuel Γ.scope).outcome = .ok j) :
    ∃ t, (Γ.normalize fuel none j.type = .ok t ∨
        Γ.normalize fuel none j.type = .error .outOfFuel) ∧
      (Eventually es fun n Δ ↦ (e.synth n Δ.scope).outcome = .ok j ∧
        Δ.normalize n none j.type = .ok t) ∧
      (e.lent? = none → t.alphaEquiv j.type) ∧
      ∀ m, e.lent? = some m → (m.isType fuel Γ.scope).outcome = .ok j.type := by
  obtain ⟨S, hS⟩ := h.exists_situation Unit
  have hφ := Regime.lasts_since fuel
  obtain ⟨k, hk, hfuel, hkn⟩ := hS.of_ok (f := fun n Δ ↦ e.synth n Δ.scope)
    ((e.settled hφ fun _ ↦ hS.unfinished).settled hS.coherent id {}) hj
  obtain rfl : k () = j := hfuel ()
  obtain ⟨t, ht, htn⟩ := hk.type.type.normalize hφ hS.coherent
  have htn := yields_context (f := fun n Δ ↦ Δ.normalize n none (k ()).type) fun _ ↦ htn ()
  refine ⟨t (), (hS.settle htn).1, (hS.settle (Q := fun _ _ ↦ True) ?_).2, fun he ↦ ?_,
    fun m hm ↦ Source.isType_of_lent? hm hj⟩
  · filter_upwards [hkn, htn] with n h₁ h₂ Δ hΔ
    exact (h₂ Δ hΔ).imp (fun h₂ ↦ ⟨h₁ Δ hΔ (), h₂⟩) fun h₂ ↦ ⟨h₂.1, trivial⟩
  · -- the type was read back from a value, so its value is read back in the same way
    obtain ⟨F, hF, hT⟩ := hk.normal he
    exact (hF.sameTerm hS.coherent hT).alphaEquiv hS.coherent ht hT ()

end Context

/-! ## A motive that is not normal -/

/-- The type of numbers, as the first of a pair of types. -/
def Source.firstOfTypes : Source :=
  .project {} .car (.the {} (.pair {} (.const {} .univ) (.const {} .univ))
    (.binary {} .cons (.const {} .nat) (.const {} .nat)))

namespace Context

/-- The type of a variable is a normal form, though the type it was declared with is not. -/
theorem synth_type_normal_variable :
    ∃ Γ, Built 9 [.declare (.free "n" .firstOfTypes)] Γ ∧
      ((Source.var {} "n").synth 9 Γ.scope).outcome = .ok ⟨.const .nat, .var "n"⟩ ∧
      ∃ t, Γ.normalize 9 none (.const .nat) = .ok t ∧ t.alphaEquiv (.const .nat) := by
  have hΓ : Built 9 [.declare (.free "n" .firstOfTypes)] _ := Built.nil.free rfl rfl rfl
  obtain ⟨t, ht, -, hn, -⟩ := synth_type_normal hΓ (e := .var {} "n") rfl
  exact ⟨_, hΓ, rfl, t, ht.resolve_right nofun, hn rfl⟩

/-- The type that is found for an element made of one of the empty type is not always normal. -/
theorem synth_type_not_normal :
    ∃ Γ j t, Built 9 [.declare (.free "y" (.const {} .absurd))] Γ ∧
      ((Source.indAbsurd {} (.var {} "y") .firstOfTypes).synth 9 Γ.scope).outcome = .ok j ∧
      Γ.normalize 9 none j.type = .ok t ∧ ¬t.alphaEquiv j.type := by
  have hΓ : Built 9 [.declare (.free "y" (.const {} .absurd))] _ := Built.nil.free rfl rfl rfl
  exact ⟨_, _, _, hΓ, rfl, rfl, by decide⟩

end Context

end LittleTypes
