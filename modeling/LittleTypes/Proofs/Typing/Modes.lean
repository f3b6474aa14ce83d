import LittleTypes.Proofs.Context.Built
import LittleTypes.Proofs.Term.Indices
import LittleTypes.Proofs.Typing.Grouping

/-!
# What a type is found for is checked against it

There are two ways to give a type to an expression.  No form has rules for both: a form that has a
rule of its own for checking has no type that could be found, and all others are checked by finding
their types and comparing.  A type that is found is compared with itself, and that succeeds as soon
as it can be read back.
-/

namespace LittleTypes

open Checked

namespace Elaborator

/-- To find a type and to compare it with itself succeeds if the type can be read back. -/
theorem checkSynth_self {fuel : Nat} {loc : Location} {synth : Scope → Checked Judgment} {s : Scope}
    {j : Judgment} {v : Value} {t : Term} (hj : (synth s).outcome = .ok j)
    (hv : s.context.eval fuel j.type = .ok v) (ht : s.context.readBackType fuel v = .ok t) :
    (checkSynth fuel loc synth s v).outcome = .ok j.term := by
  refine outcome_bind_eq_ok_iff.2 ⟨j, hj, outcome_bind_eq_ok_iff.2 ⟨v, ofEval_eq_ok.2 hv, ?_⟩⟩
  refine outcome_bind_eq_ok_iff.2 ⟨(), ?_, rfl⟩
  exact (s.sameType_eq_ok_iff fuel loc).2 ⟨t, ht, t, ht, rfl⟩

end Elaborator

namespace Source

/-- An expression has no type that could be found, or to check it is to find its type and to
compare. -/
theorem synth_fails_or_check_eq (fuel : Nat) (e : Source) :
    (∀ s, (e.synth fuel s).Fails) ∨ (e.elaborator fuel).check =
      Elaborator.checkSynth fuel (e.elaborator fuel).loc (e.elaborator fuel).synth := by
  have hfails (loc : Location) : Fails (Elaborator.cannotSynth loc : Checked Judgment) :=
    .stop _ _ _
  cases e with
  | hole l => exact .inl fun _ ↦ hfails l
  | lam l => exact .inl fun _ ↦ hfails l
  | const l k => cases k <;> first | exact .inr rfl | exact .inl fun _ ↦ hfails l
  | unary l k => cases k <;> first | exact .inr rfl | exact .inl fun _ ↦ hfails l
  | binary l k => cases k <;> first | exact .inr rfl | exact .inl fun _ ↦ hfails l
  | project l k => cases k <;> exact .inr rfl
  | recursor l k => cases k <;> exact .inr rfl
  | induct l k => cases k <;> exact .inr rfl
  | transport l k => cases k <;> exact .inr rfl
  | _ => exact .inr rfl

/-- **What a type is found for is checked against it.**  In every scope, if a type is found for an
expression and its value can be read back, then the expression is accepted at this value and
elaborated to the same term. -/
theorem check_of_synth {fuel : Nat} {s : Scope} {e : Source} {j : Judgment} {v : Value} {t : Term}
    (hj : (e.synth fuel s).outcome = .ok j) (hv : s.context.eval fuel j.type = .ok v)
    (ht : s.context.readBackType fuel v = .ok t) : (e.check fuel s v).outcome = .ok j.term := by
  obtain hfails | hcheck := e.synth_fails_or_check_eq fuel
  · exact (hfails s j hj).elim
  · rw [check, hcheck]
    exact Elaborator.checkSynth_self hj hv ht

/-- An unknown function is checked against the type that is found for it. -/
theorem check_of_synth_function :
    ∃ Γ v t, Context.Built 9 [.declare (.free "f" natToNat)] Γ ∧
      ((var {} "f").synth 9 Γ.scope).outcome = .ok ⟨t, .var "f"⟩ ∧ Γ.eval 9 t = .ok v ∧
      ((var {} "f").check 9 Γ.scope v).outcome = .ok (.var "f") := by
  have hΓ : Context.Built 9 [.declare (.free "f" natToNat)] _ := .free .nil rfl rfl rfl
  refine ⟨_, _, .pi "x" (.const .nat) (.const .nat), hΓ, rfl, rfl, ?_⟩
  exact check_of_synth (j := ⟨.pi "x" (.const .nat) (.const .nat), .var "f"⟩) rfl rfl rfl

end Source

end LittleTypes
