import LittleTypes.Proofs.Name.Scoping
import LittleTypes.Proofs.Sense.Context

/-!
# The names of bound variables do not matter

Renamings of an expression are elaborated alike, fault for fault.  In a context that is built there
is no fault but that the fuel is used up, and with enough fuel there is none at all.  So both
elaborations have answers, which are α-equivalent, or both find a mistake, of the same kind and at
the same location.
-/

namespace LittleTypes

namespace Checked

variable {α : Type} {R : α → α → Prop} {x y : Checked α}

/-- Both checks have answers, which are related, or both find a mistake, of the same kind and at the
same location. -/
def EndAlike (R : α → α → Prop) (x y : Checked α) : Prop :=
  (∃ a b, x.outcome = .ok a ∧ y.outcome = .ok b ∧ R a b) ∨
    ∃ s s', x.outcome = .error (.stop s) ∧ y.outcome = .error (.stop s') ∧ s.code = s'.code ∧
      s.loc = s'.loc

/-- Checks that agree end alike, or they have the same fault. -/
theorem Agree.endAlike_or_fault (h : Agree R x y) : EndAlike R x y ∨
    ∃ f, x.outcome = .error (.fault f) ∧ y.outcome = .error (.fault f) := by
  unfold Agree at h
  unfold EndAlike
  generalize x.outcome = o at h ⊢
  generalize y.outcome = o' at h ⊢
  cases h with
  | ok hab => exact .inl (.inl ⟨_, _, rfl, rfl, hab⟩)
  | stop hcode hloc => exact .inl (.inr ⟨_, _, rfl, rfl, hcode, hloc⟩)
  | fault f => exact .inr ⟨f, rfl, rfl⟩

/-- Two checks that begin with the same one agree if they do after each of its answers. -/
theorem Agree.after {γ : Type} {z : Checked γ} {f g : γ → Checked α}
    (h : ∀ c, z.outcome = .ok c → Agree R (f c) (g c)) : Agree R (z >>= f) (z >>= g) := by
  unfold Agree
  rw [outcome_bind, outcome_bind]
  cases hz : z.outcome with
  | ok c => exact h c hz
  | error e =>
    cases e with
    | stop s => exact .stop rfl rfl
    | fault f => exact .fault f

end Checked

/-- Two questions about what the declarations build end alike, unless both use up the fuel that is
given; and with enough fuel they end alike. -/
def Context.EndAlike (fuel : Nat) (es : List Context.Entry) (Γ : Context) {α : Type}
    (R : α → α → Prop) (f g : Nat → Context → Checked α) : Prop :=
  ((f fuel Γ).EndAlike R (g fuel Γ) ∨
      (f fuel Γ).outcome = .error .outOfFuel ∧ (g fuel Γ).outcome = .error .outOfFuel) ∧
    Eventually es fun n Δ ↦ (f n Δ).EndAlike R (g n Δ)

/-- Questions that agree, fault for fault, end alike if one of them has no faults. -/
theorem Situation.Of.endAlike {fuel : Nat} {es : List Context.Entry} {Γ : Context}
    {S : Situation (.since fuel) Unit} (hS : S.Of es Γ) {α γ : Type} {R : α → α → Prop}
    {f g : Nat → Context → Checked α} {out : γ → Unit → Nat → α} {P : γ → Prop}
    {E : (Regime.since fuel).Excuse Unit}
    (hf : (Regime.since fuel).Meets E out (fun j n ↦ f n (S.context j n)) P)
    (h : ∀ n Δ, Context.Built n es Δ → Checked.Agree R (f n Δ) (g n Δ)) :
    Γ.EndAlike fuel es R f g := by
  refine hS.settle (P := fun n Δ ↦ (f n Δ).EndAlike R (g n Δ))
    (Q := fun n Δ ↦ (f n Δ).outcome = .error .outOfFuel ∧ (g n Δ).outcome = .error .outOfFuel) ?_
  filter_upwards [hS.built, hf.safe ()] with n ⟨Δ', hΔ', hc⟩ hsafe Δ hΔ
  obtain rfl : Δ' = Δ := (hc ()).symm.trans (hΔ ())
  refine (h n Δ' hΔ').endAlike_or_fault.imp_right ?_
  rintro ⟨e, hfe, hge⟩
  rw [hΔ] at hsafe
  obtain ⟨hR, rfl⟩ := hsafe e hfe
  exact ⟨hR, hfe, hge⟩

namespace Context

variable {fuel : Nat} {es : List Context.Entry} {Γ : Context} {e e' : Source}

/-- Renamings of an expression are checked alike against any type of the source. -/
theorem Built.checkAt_renamed (hΓ : Built fuel es Γ) (he : e.Renamed Eq e') (type : Source) :
    Checked.Agree (fun t t' ↦ t.alphaEquiv t') (Γ.checkAt fuel type e) (Γ.checkAt fuel type e') :=
  .after fun t ht ↦ .after fun v hv ↦
    (verdict_renamed hΓ he).2.2 type t v ht (Checked.ofEval_eq_ok.1 hv)

/-- **Bound names do not matter.**  Renamings of an expression are elaborated alike in a context
that is built, whether their type is found, they have to be types, or they are checked against a
type of the context: both have α-equivalent answers, or both fail with the same code at the same
location.  The fuel may be used up on the way, for both of them, and with enough fuel it is not. -/
theorem elaboration_renamed (hΓ : Built fuel es Γ) (he : e.Renamed Eq e') :
    Γ.EndAlike fuel es (fun j j' ↦ j.type.alphaEquiv j'.type ∧ j.term.alphaEquiv j'.term)
      (fun n Δ ↦ e.synth n Δ.scope) (fun n Δ ↦ e'.synth n Δ.scope) ∧
    Γ.EndAlike fuel es (fun t t' ↦ t.alphaEquiv t')
      (fun n Δ ↦ e.isType n Δ.scope) (fun n Δ ↦ e'.isType n Δ.scope) ∧
    ∀ type : Source, Γ.EndAlike fuel es (fun t t' ↦ t.alphaEquiv t')
      (fun n Δ ↦ Δ.checkAt n type e) (fun n Δ ↦ Δ.checkAt n type e') := by
  obtain ⟨S, hS⟩ := hΓ.exists_situation Unit
  have hφ := Regime.lasts_since fuel
  refine ⟨?synth, ?isType, fun type ↦ ?check⟩
  case synth =>
    exact hS.endAlike ((e.sound hφ fun _ ↦ hS.unfinished).synth hS.coherent id {})
      fun n Δ hΔ ↦ (verdict_renamed hΔ he).1
  case isType =>
    exact hS.endAlike ((e.sound hφ fun _ ↦ hS.unfinished).isType hS.coherent id {})
      fun n Δ hΔ ↦ (verdict_renamed hΔ he).2.1
  case check =>
    exact hS.endAlike (hS.coherent.checkAt hφ (fun _ ↦ hS.unfinished) fun _ ↦ hS.unfinished)
      fun n Δ hΔ ↦ hΔ.checkAt_renamed he type

/-- A function written out with one name or another for its argument, where the second name is also
that of something else in the context.  It is checked against its type, and no type is found for
it. -/
theorem elaboration_renamed_expanded :
    ∃ Γ, Built 9 [.declare (.free "b" (.const {} .nat)), .declare (.free "f" .natToNat)] Γ ∧
      (Source.expanded "f" "a").Renamed Eq (.expanded "f" "b") ∧
      (∃ t t', (Γ.checkAt 9 .natToNat (.expanded "f" "a")).outcome = .ok t ∧
        (Γ.checkAt 9 .natToNat (.expanded "f" "b")).outcome = .ok t' ∧ t ≠ t' ∧ t.alphaEquiv t') ∧
      ∃ s s', ((Source.expanded "f" "a").synth 9 Γ.scope).outcome = .error (.stop s) ∧
        ((Source.expanded "f" "b").synth 9 Γ.scope).outcome = .error (.stop s') ∧
        s.code = s'.code ∧ s.loc = s'.loc := by
  have hf : Built 9 [.declare (.free "f" .natToNat)] _ := Built.nil.free rfl rfl rfl
  have hΓ : Built 9 [.declare (.free "b" (.const {} .nat)), .declare (.free "f" .natToNat)] _ :=
    hf.free rfl rfl rfl
  have he : (Source.expanded "f" "a").Renamed Eq (.expanded "f" "b") := by
    refine .lam (.cons ⟨rfl, by decide⟩ (.nil (.app (.var ?_) (.cons (.var ?_) .nil))))
    · exact .inr ⟨by decide, by decide, rfl⟩
    · exact Pairing.bind_self
  obtain ⟨⟨hsynth, -⟩, -, hcheck⟩ := elaboration_renamed hΓ he
  refine ⟨_, hΓ, he, ?_, ?_⟩
  · obtain (⟨t, t', ht, ht', hα⟩ | ⟨_, _, ht, -⟩) | ⟨ht, -⟩ := (hcheck .natToNat).1
    · refine ⟨t, t', ht, ht', ?_, hα⟩
      cases ht
      cases ht'
      decide
    · cases ht
    · cases ht
  · obtain (⟨_, _, hj, -⟩ | hs) | ⟨hj, -⟩ := hsynth
    · cases hj
    · exact hs
    · cases hj

end Context

end LittleTypes
