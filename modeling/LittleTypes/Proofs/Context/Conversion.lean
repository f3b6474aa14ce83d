import LittleTypes.Proofs.Match.Self
import LittleTypes.Proofs.Sense.Context

/-!
# Checking against types that are the same

An expression is checked against the value of a type, and what the checker sees of the value is not
its normal form.  Still, all that matters is which type it is: against types that are the same an
expression elaborates to α-equivalent terms, or it is wrong.

There is one exception.  The function of a congruence must not be dependent, so its argument must
not occur in the normal form of its result type.  All elements of the empty type are the same,
whatever their variables are; so a result type in which the argument occurs only in such elements
may be the same as one in which it does not occur.  Only then may one of two types that are the same
be refused.
-/

namespace LittleTypes

open Filter

/-- Two checks have α-equivalent answers, or both find a mistake. -/
def Checked.SameVerdict (x y : Checked Term) : Prop :=
  (∃ t u, x.outcome = .ok t ∧ y.outcome = .ok u ∧ t.alphaEquiv u) ∨
    ∃ s s', x.outcome = .error (.stop s) ∧ y.outcome = .error (.stop s')

/-- What is said of a function that is dependent only in name: in the normal form of its result type
the argument occurs, but only in elements of the empty type. -/
def Stop.InName (s : Stop) : Prop :=
  ∃ loc x c type, Term.OnlyInAbsurd x c ∧ s = Complaint.detailed.stop loc x c type

/-- A check refuses a congruence at a location, and if the details are told it is because of a
function that is dependent only in name. -/
def Source.RefusedInName (fuel : Nat) (s : Scope) (e : Source) (type : Value) : Prop :=
  ∃ d d' : Stop, (e.checkSaying .detailed fuel s type).outcome = .error (.stop d) ∧ d.InName ∧
    (e.check fuel s type).outcome = .error (.stop d') ∧ d.code = d'.code ∧ d.loc = d'.loc

/-! ## Whatever is said -/

namespace Context

variable {fuel : Nat} {es : List Context.Entry} {Γ : Context}

/-- Checking against a type of the context ends alike, whatever is said of functions that are
dependent. -/
theorem Built.checkSaying_agree (h : Built fuel es Γ) {type : Source} {t : Term} {v : Value}
    (ht : (type.isType fuel Γ.scope).outcome = .ok t) (hv : Γ.eval fuel t = .ok v) (e : Source)
    (say : Complaint) : Checked.Agree (Term.Matches Γ.usable) (e.checkSaying say fuel Γ.scope v)
      (e.check fuel Γ.scope v) := by
  have hΓ := h.selfMatched
  have he : (e.elaboratorSaying say fuel).Matches Eq (e.elaboratorSaying .plain fuel) :=
    (e.renamed_self Eq fun _ ↦ rfl).matchesSaying fuel
  rw [Source.elaboratorSaying_plain] at he
  exact he.check hΓ.scope (hΓ.eval (hΓ.isType ht) hv)

end Context

namespace Checked.Agree

variable {N : Pairing} {x x' y y' : Checked Term}

theorem ends (h : Agree (Term.Matches N) x x') (hx : x'.Ends) : x.Ends := by
  intro e
  rw [Agree, e] at h
  unfold Ends at hx
  generalize x'.outcome = o at h hx
  cases h
  exact hx rfl

theorem ok (h : Agree (Term.Matches N) x x') {t : Term} (hx : x.outcome = .ok t) :
    ∃ t', x'.outcome = .ok t' ∧ t.Matches N t' := by
  rw [Agree, hx] at h
  generalize x'.outcome = o at h ⊢
  cases h with
  | ok h => exact ⟨_, rfl, h⟩

theorem mistake (h : Agree (Term.Matches N) x x') {s : Stop} (hx : x.outcome = .error (.stop s)) :
    ∃ s', x'.outcome = .error (.stop s') ∧ s.code = s'.code ∧ s.loc = s'.loc := by
  rw [Agree, hx] at h
  generalize x'.outcome = o at h ⊢
  cases h with
  | stop hc hl => exact ⟨_, rfl, hc, hl⟩

/-- Checks that agree have the same verdict. -/
theorem sameVerdict (hx : Agree (Term.Matches N) x x') (hy : Agree (Term.Matches N) y y')
    (hN : N.OneToOne) (h : x.SameVerdict y) : x'.SameVerdict y' := by
  obtain ⟨t, u, ht, hu, h⟩ | ⟨s, s', hs, hs'⟩ := h
  · obtain ⟨t', ht', hm⟩ := hx.ok ht
    obtain ⟨u', hu', hm'⟩ := hy.ok hu
    exact .inl ⟨t', u', ht', hu', hm.alphaEquiv_eq hN hm' ▸ h⟩
  · obtain ⟨d, hd, -⟩ := hx.mistake hs
    obtain ⟨d', hd', -⟩ := hy.mistake hs'
    exact .inr ⟨d, d', hd, hd'⟩

end Checked.Agree

/-! ## Types that are the same -/

namespace Situation

variable {J : Type}

/-- Types of all runs that are the same are one type. -/
theorem IsType.ofRuns {R : Regime} {S : Situation R J} {s : Idealized.Size} [Nonempty J]
    (hS : S.Coherent) {F : J → Sense J} (hF : ∀ j, S.IsType s (F j))
    (h : ∀ j j', S.SameTypes (F j) (F j')) : S.IsType s fun σ ↦ F σ.run σ := by
  intro L hL ω σ hσ
  obtain ⟨j, hj⟩ | hflex := hS.uniform hσ
  · simpa only [hj] using hF j hL hσ
  · -- the runs differ, so the type of any one of them is all that it is the same as
    let j := Classical.arbitrary J
    exact hflex.type (hF j hL hσ) fun i ↦ (h j (σ i).run).at hS hL hσ i

/-- Two runs agree, unless one of them has an excuse. -/
theorem sameVerdict_of_meets {R : Regime} {S : Situation R Bool} {F : Sense Bool}
    {E : R.Excuse Bool} {x : Bool → R.Index → Checked Term}
    (h : R.Meets E R.steady x (S.SharedTerm F)) :
    ∀ᶠ n in R.filter,
      ((x false n).SameVerdict (x true n) ∨
        ∃ j s, (x j n).outcome = .error (.stop s) ∧ E j n s) ∨
      R.mayEnd n ∧ ¬((x false n).Ends ∧ (x true n).Ends) := by
  obtain ⟨t, ht, hx⟩ | hx | ⟨j, s, hx, hE⟩ := h
  · filter_upwards [hx false, hx true] with n h₀ h₁
    obtain h₀ | ⟨hR, h₀⟩ := h₀
    · obtain h₁ | ⟨hR, h₁⟩ := h₁
      · exact .inl (.inl (.inl ⟨_, _, h₀, h₁, ht.shared.alpha false true⟩))
      · exact .inr ⟨hR, fun h ↦ h.2 h₁⟩
    · exact .inr ⟨hR, fun h ↦ h.1 h₀⟩
  · obtain ⟨s, h₀⟩ := hx false
    obtain ⟨s', h₁⟩ := hx true
    filter_upwards [h₀, h₁] with n h₀ h₁
    obtain h₀ | ⟨hR, h₀⟩ := h₀
    · obtain h₁ | ⟨hR, h₁⟩ := h₁
      · exact .inl (.inl (.inr ⟨_, _, h₀, h₁⟩))
      · exact .inr ⟨hR, fun h ↦ h.2 h₁⟩
    · exact .inr ⟨hR, fun h ↦ h.1 h₀⟩
  · filter_upwards [hx, hE] with n hn hE
    obtain hn | ⟨hR, hn⟩ := hn
    · exact .inl (.inr ⟨j, s, hn, hE fun e ↦ by cases hn.symm.trans e⟩)
    · exact .inr ⟨hR, fun h ↦ by cases j <;> simp_all [Checked.Ends]⟩

/-- Checks against two types that are the same, with all details. -/
theorem Of.checkSaying_sameVerdict {fuel : Nat} {es : List Context.Entry} {Γ : Context}
    {S : Situation (.since fuel) Bool} (hS : S.Of es Γ) {F G : Sense Bool}
    {v w : Bool → Nat → Value} (hF : S.IsType .large F) (hG : S.IsType .large G)
    (hFG : S.SameTypes F G) (hv : S.Means v F) (hw : S.Means w G) (e : Source) :
    ∀ᶠ n in (Regime.since fuel).filter, ∀ Δ, (∀ j, S.context j n = Δ) →
      let x := e.checkSaying .detailed n Δ.scope (v false n)
      let y := e.checkSaying .detailed n Δ.scope (w true n)
      (x.SameVerdict y ∨ (∃ s, x.outcome = .error (.stop s) ∧ s.InName) ∨
        ∃ s, y.outcome = .error (.stop s) ∧ s.InName) ∨
      (Regime.since fuel).mayEnd n ∧ ¬(x.Ends ∧ y.Ends) := by
  -- the first run checks against the one type, and the second against the other
  let H : Bool → Sense Bool := Idealized.Logic.pair F G
  let d : Bool → Nat → Value := fun j ↦ Idealized.Logic.pair v w j j
  have hH : S.IsType .large fun σ ↦ H σ.run σ := by
    refine .ofRuns hS.coherent (F := H) (fun j ↦ ?_) fun j j' ↦ ?_
    · cases j
      exacts [hF, hG]
    · intro o σ hσ
      cases j <;> cases j'
      exacts [(hF.self hσ).sameType, hFG hσ, (hFG hσ).symm, (hG.self hσ).sameType]
  have hd : S.Means d fun σ ↦ H σ.run σ := by
    rintro (_ | _)
    exacts [hv false, hw true]
  have he : Elaborator.Settled (.since fuel) Bool (fun _ _ s ↦ s.InName) S.unfinished
      (e.lent? = none) fun n ↦ e.elaboratorSaying .detailed n :=
    e.settledSaying (Regime.lasts_since fuel) (fun _ _ loc x c type h ↦ ⟨loc, x, c, type, h, rfl⟩)
      fun _ ↦ hS.unfinished
  have hx := he.check hS.coherent id {} hH hd
  filter_upwards [sameVerdict_of_meets hx] with n hn Δ hΔ
  have hscope : ∀ j, S.scope {} j n = Δ.scope := fun j ↦ by rw [← hΔ j]; rfl
  simp only [hscope] at hn
  refine hn.imp_left (.imp_right ?_)
  rintro ⟨_ | _, s, hs, hE⟩
  · exact .inl ⟨s, hs, hE⟩
  · exact .inr ⟨s, hs, hE⟩

end Situation

namespace Context

open Situation

variable {fuel : Nat} {es : List Context.Entry} {Γ : Context}

end Context

/-! ## Congruence and the empty type -/

namespace Source

/-- Vectors whose length is made from an element of the empty type. -/
def emptyVectors (z : String) : Source :=
  .binary {} .vec (.const {} .nat) (.indAbsurd {} (.var {} z) (.const {} .nat))

/-- That the value at `y` of a function from the empty type to vectors is itself.  The length of the
vectors is made from the variable `z`, which may be the argument `x` of the function. -/
def valueIsItself (z : String) : Source :=
  .pi {} [(⟨{}, "f"⟩, .pi {} [(⟨{}, "x"⟩, .const {} .absurd)] (.emptyVectors z))]
    (.equal {} (.emptyVectors "y") (.app {} (.var {} "f") [.var {} "y"])
      (.app {} (.var {} "f") [.var {} "y"]))

/-- Proves that the value is itself. -/
def byReflexivity : Source :=
  .lam {} [⟨{}, "f"⟩] (.unary {} .same (.app {} (.var {} "f") [.var {} "y"]))

/-- Proves that the value is itself, as the argument is. -/
def byCongruence : Source :=
  .lam {} [⟨{}, "f"⟩] (.cong {} (.the {} (.equal {} (.const {} .absurd) (.var {} "y") (.var {} "y"))
    (.unary {} .same (.var {} "y"))) (.var {} "f"))

end Source

namespace Context

end Context

end LittleTypes
