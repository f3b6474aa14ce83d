import LittleTypes.Proofs.Sense.Session

/-!
# Type safety

Evaluation and reading back have no rule for values of the wrong shape, for names without a value
and for what is not a type.  They never meet any of these in a session, because they are only used
on terms that have been checked: whatever a session is asked, the answer is a result or a mistake in
the program.
-/

namespace LittleTypes

open Filter Situation

namespace Situation.Closed

variable {R : Regime} {φ : R.Index → Nat} {S : Situation R Unit}

/-- Answers whose terms do not depend on the fuel. -/
def answering (b : (Unit → R.Index → Context) × Option Term) : Unit → R.Index → Session.Answer :=
  fun j n ↦ ⟨b.1 j n, b.2⟩

/-- Every command has an answer or finds a mistake. -/
theorem meets_execute (hS : S.Closed True) (hφ : R.Lasts φ) (c : Session.Command) :
    R.Meets R.allExcused answering (fun j n ↦ Session.execute (φ n) (S.context j n) c)
      fun _ ↦ True := by
  have ho : S.unfinished := hS.declared.unfinished_iff.2 trivial
  cases c with
  | claim loc x type =>
    exact (hS.meets_claim hφ loc fun _ ↦ trivial).bind fun Γ _ ↦ .pure (b := (Γ, none)) trivial
  | define loc x e =>
    exact (hS.meets_define hφ loc fun _ ↦ trivial).bind fun Γ _ ↦ .pure (b := (Γ, none)) trivial
  | checkSame loc type a b =>
    exact (hS.coherent.checkSame hφ (fun _ ↦ ho) (fun _ ↦ ho) fun _ ↦ ho).bind
      fun _ _ ↦ .pure (b := (S.context, none)) trivial
  | norm e =>
    exact (hS.coherent.norm hφ fun _ ↦ ho).andThen
      fun t _ ↦ .pure (b := (S.context, some (t ()))) trivial

end Situation.Closed

namespace Session

/-- A fault of a command is a fault of what it does. -/
theorem perform_eq_fault_iff {fuel : Nat} {s : Session} {c : Command} {f : Fault} :
    (perform fuel s c).2.outcome = .error (.fault f) ↔
      (execute fuel s.context c).outcome = .error (.fault f) := by
  unfold perform
  match h : (execute fuel s.context c).outcome with
  | .ok a => simp [h]
  | .error (.stop e) => simp [h]
  | .error (.fault g) => simp [h]

variable {R : Regime} {φ : R.Index → Nat} (hφ : R.Lasts φ) (hR : R.Unanimous) (cs : List Command)

include hφ hR

theorem perform_safe (c : Command) : ∀ᶠ n in R.filter, ∀ f,
    (perform (φ n) (run (φ n) {} cs) c).2.outcome = .error (.fault f) →
      R.mayEnd n ∧ f = .outOfFuel := by
  obtain ⟨S, hS, hs⟩ := exists_closed hφ hR cs (o := True) fun _ _ _ ↦ trivial
  filter_upwards [hs, (hS.meets_execute hφ c).safe ()] with n hn hx f hf
  rw [perform_eq_fault_iff, hn] at hf
  exact hx f hf

theorem listing_safe : ∀ᶠ n in R.filter, (∃ l, (run (φ n) {} cs).context.listing (φ n) = .ok l) ∨
    R.mayEnd n ∧ (run (φ n) {} cs).context.listing (φ n) = .error .outOfFuel := by
  obtain ⟨S, hS, hs⟩ := exists_closed hφ hR cs (o := True) fun _ _ _ ↦ trivial
  obtain ⟨l, hl⟩ := hS.declared.listing hφ ()
  filter_upwards [hs, hl] with n hn hx
  rw [hn]
  exact hx.imp_left fun hx ↦ ⟨_, hx⟩

omit hφ hR

/-- **Type safety.**  After any commands, a further command and the listing of the context have no
fault but that the fuel is used up; and with enough fuel they have none at all, so that the command
ends with an answer or with a mistake in the program. -/
theorem type_safety (cs : List Command) (c : Command) :
    (∀ fuel f, (perform fuel (run fuel {} cs) c).2.outcome = .error (.fault f) →
      f = .outOfFuel) ∧
    (∀ fuel f, (run fuel {} cs).context.listing fuel = .error f → f = .outOfFuel) ∧
    ∃ enough, ∀ fuel ≥ enough,
      (∀ f, (perform fuel (run fuel {} cs) c).2.outcome ≠ .error (.fault f)) ∧
      ∃ l, (run fuel {} cs).context.listing fuel = .ok l := by
  refine ⟨fun fuel f hf ↦ ?_, fun fuel f hf ↦ ?_, ?_⟩
  · have hsafe := perform_safe (Regime.lasts_only fuel) (Regime.unanimous_only fuel) cs c
    exact (eventually_pure.1 hsafe f hf).2
  · obtain ⟨l, hl⟩ | ⟨-, hl⟩ := eventually_pure.1
      (listing_safe (Regime.lasts_only fuel) (Regime.unanimous_only fuel) cs)
    · cases hf.symm.trans hl
    · exact Except.error.inj (hf.symm.trans hl)
  · refine eventually_atTop.1 ?_
    filter_upwards [perform_safe Regime.lasts_growing Regime.unanimous_growing cs c,
      listing_safe Regime.lasts_growing Regime.unanimous_growing cs] with fuel hc hl
    exact ⟨fun f hf ↦ (hc f hf).1, hl.resolve_right fun h ↦ h.1⟩

end Session

end LittleTypes
