import LittleTypes.Proofs.Sense.Context

/-!
# Normal forms are normal

A normal form has the value of what it was read from, also where it is evaluated again.  So reading
back is idempotent: to normalize a normal form changes nothing but the names of bound variables.
-/

namespace LittleTypes

open Filter Situation

namespace Situation

variable {R : Regime} {J : Type} {S : Situation R J} {φ : R.Index → Nat} {F a : Sense J}
  {T v : J → Term}

section Normalize

variable (hφ : R.Lasts φ) (hS : S.Coherent)

include hφ hS

/-- A type has a normal form. -/
theorem TypeTerm.normalize (hT : S.TypeTerm .large T) : ∃ t, S.Spelled (S.readType (.ofTerm T)) t ∧
    ∀ j, R.Yields .outOfFuel (fun n ↦ (S.context j n).normalize (φ n) none (T j)) fun _ ↦ t j := by
  choose w hw hy using fun j ↦
    (follows_eval hφ (T j) (hS.env j)).yields (hT.runs (hS.hasHere j))
  obtain ⟨t, ht, hr⟩ := hS.reads hφ (fun j ↦ .type (hw j)) (hT.isType.reads hS)
  exact ⟨t, ht, fun j ↦ (hy j).lift.bind (hr j)⟩

/-- An element of a type has a normal form. -/
theorem HasType.normalize (hT : S.TypeTerm .large T) (hv : S.HasType (.ofTerm T) v) :
    ∃ t, S.Spelled (S.readElem (.ofTerm T) (.ofTerm v)) t ∧ ∀ j,
      R.Yields .outOfFuel (fun n ↦ (S.context j n).normalize (φ n) (some (T j)) (v j))
        fun _ ↦ t j := by
  choose w hw hy using fun j ↦
    (follows_eval hφ (T j) (hS.env j)).yields (hT.runs (hS.hasHere j))
  choose u hu hz using fun j ↦
    (follows_eval hφ (v j) (hS.env j)).yields (hv.runs (hS.hasHere j))
  obtain ⟨t, ht, hr⟩ := hS.reads hφ (fun j ↦ .value (hw j) (hu j)) (hv.isElem.reads hS)
  exact ⟨t, ht, fun j ↦ (hy j).lift.bind ((hz j).lift.bind (hr j))⟩

/-- The normal form of a type is normal. -/
theorem IsType.isNormal (hF : S.IsType .large F) (hT : S.Spelled (S.readType F) T) (j : J) :
    R.Yields .outOfFuel (fun n ↦ (S.context j n).isNormal (φ n) none (T j)) fun _ ↦ true := by
  obtain ⟨t, ht, hn⟩ := (hF.typeTerm hS hT).normalize hφ hS
  refine (hn j).bind ?_
  rw [(hF.sameTerm hS hT).alphaEquiv hS ht hT j]
  exact .pure _

/-- The normal form of an element is normal. -/
theorem IsElem.isNormal (ha : S.IsElem F a) (hT : S.Spelled (S.readType F) T)
    (hv : S.Spelled (S.readElem F a) v) (j : J) :
    R.Yields .outOfFuel (fun n ↦ (S.context j n).isNormal (φ n) (some (T j)) (v j))
      fun _ ↦ true := by
  have hTF := ha.isType.sameTerm hS hT
  have hTT := ha.isType.typeTerm hS hT
  -- the normal form of the type is the type, so it has the same elements
  have hvT := (ha.hasType hS hv).conv hS hTT.isType fun _ _ hσ ↦ (hTF hσ).symm
  have hva : S.SameElems (.ofTerm T) (.ofTerm v) a := fun _ _ hσ ↦
    (ha.sameTerm hS hv hσ).conv (hTF hσ).symm
  obtain ⟨t, ht, hn⟩ := hvT.normalize hφ hS hTT
  refine (hn j).bind ?_
  rw [hva.alphaEquiv hS hTF ht hv j]
  exact .pure _

end Normalize

end Situation

namespace Context

variable {fuel : Nat} {es : List Context.Entry} {Γ : Context}

/-- **Reading back is idempotent.**  In a context that is built, the normal forms of an expression
and of its type are normal, and so is the normal form of a type: evaluated in the context and read
back they give α-equivalent terms, or the fuel is used up on the way, and with enough fuel it is
not. -/
theorem readBack_idempotent (h : Built fuel es Γ) (e : Source) :
    (∀ T v, (Γ.rep fuel e).outcome = .ok (.the T v) →
      (Γ.isNormal fuel none T = .ok true ∨ Γ.isNormal fuel none T = .error .outOfFuel) ∧
      (Γ.isNormal fuel (some T) v = .ok true ∨
        Γ.isNormal fuel (some T) v = .error .outOfFuel) ∧
      Eventually es fun n Δ ↦ (Δ.rep n e).outcome = .ok (.the T v) ∧
        Δ.isNormal n none T = .ok true ∧ Δ.isNormal n (some T) v = .ok true) ∧
    ∀ t, (Γ.normType fuel e).outcome = .ok t →
      (Γ.isNormal fuel none t = .ok true ∨ Γ.isNormal fuel none t = .error .outOfFuel) ∧
      Eventually es fun n Δ ↦ (Δ.normType n e).outcome = .ok t ∧ Δ.isNormal n none t = .ok true := by
  obtain ⟨S, hS⟩ := h.exists_situation Unit
  have hφ := Regime.lasts_since fuel
  constructor
  · intro T v hr
    obtain ⟨_, ⟨F, a, T', v', ha, hT, hv, rfl⟩, hfuel, hrn⟩ := hS.of_ok (f := fun n Δ ↦ Δ.rep n e)
      (hS.coherent.rep hφ fun _ ↦ hS.unfinished) hr
    cases hfuel ()
    have hTn := yields_context (f := fun n Δ ↦ Δ.isNormal n none (T' ())) fun _ ↦
      ha.isType.isNormal hφ hS.coherent hT ()
    have hvn := yields_context (f := fun n Δ ↦ Δ.isNormal n (some (T' ())) (v' ())) fun _ ↦
      ha.isNormal hφ hS.coherent hT hv ()
    refine ⟨(hS.settle hTn).1, (hS.settle hvn).1, (hS.settle (Q := fun _ _ ↦ True) ?_).2⟩
    filter_upwards [hrn, hTn, hvn] with n h₁ h₂ h₃ Δ hΔ
    obtain h₂ | h₂ := h₂ Δ hΔ
    · obtain h₃ | h₃ := h₃ Δ hΔ
      · exact .inl ⟨h₁ Δ hΔ (), h₂, h₃⟩
      · exact .inr ⟨h₃.1, trivial⟩
    · exact .inr ⟨h₂.1, trivial⟩
  · intro t hr
    obtain ⟨t', ⟨F, hF, ht⟩, hfuel, hrn⟩ := hS.of_ok (f := fun n Δ ↦ Δ.normType n e)
      (hS.coherent.normType hφ fun _ ↦ hS.unfinished) hr
    cases hfuel ()
    have htn := yields_context (f := fun n Δ ↦ Δ.isNormal n none (t' ())) fun _ ↦
      hF.isNormal hφ hS.coherent ht ()
    refine ⟨(hS.settle htn).1, (hS.settle (Q := fun _ _ ↦ True) ?_).2⟩
    filter_upwards [hrn, htn] with n h₁ h₂ Δ hΔ
    exact (h₂ Δ hΔ).imp (fun h₂ ↦ ⟨h₁ Δ hΔ (), h₂⟩) fun h₂ ↦ ⟨h₂.1, trivial⟩

end Context

/-- A function that is claimed first and defined last.  Its definition uses a name that was not there
when its type was evaluated. -/
def Session.constantFunction : List Session.Command :=
  [.claim {} "f" .natToNat, .claim {} "a" (.const {} .nat), .define {} "a" (.const {} .zero),
    .define {} "f" (.lam {} [⟨{}, "x"⟩] (.var {} "a"))]

namespace Context

/-- The normal form of an unknown function is a function that is written out, and that of a function
of a session is what it was defined to be. -/
theorem readBack_idempotent_expanded :
    (∃ Γ, Built 9 [.declare (.free "f" .natToNat)] Γ ∧
      (Γ.rep 9 (.var {} "f")).outcome = .ok (.the (.pi "x" (.const .nat) (.const .nat))
        (.lam "x" (.app (.var "f") (.var "x")))) ∧
      Γ.isNormal 9 (some (.pi "x" (.const .nat) (.const .nat)))
        (.lam "x" (.app (.var "f") (.var "x"))) = .ok true) ∧
    ∃ Γ es, Γ = (Session.run 9 {} Session.constantFunction).context ∧ Built 9 es Γ ∧
      (Γ.rep 9 (.var {} "f")).outcome = .ok (.the (.pi "x" (.const .nat) (.const .nat))
        (.lam "x" (.const .zero))) ∧
      Γ.isNormal 9 (some (.pi "x" (.const .nat) (.const .nat))) (.lam "x" (.const .zero)) =
        .ok true := by
  constructor
  · have hΓ : Built 9 [.declare (.free "f" .natToNat)] _ := Built.nil.free rfl rfl rfl
    refine ⟨_, hΓ, rfl, ?_⟩
    exact ((readBack_idempotent hΓ (.var {} "f")).1 _ _ rfl).2.1.resolve_right nofun
  · obtain ⟨es, hΓ⟩ := Session.exists_built_run 9 Session.constantFunction
    refine ⟨_, es, rfl, hΓ, rfl, ?_⟩
    exact ((readBack_idempotent hΓ (.var {} "f")).1 _ _ rfl).2.1.resolve_right nofun

end Context

end LittleTypes
