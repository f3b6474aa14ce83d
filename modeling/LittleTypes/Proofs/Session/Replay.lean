import LittleTypes.Proofs.Context.Built

/-!
# Failures leave no trace

A command that fails is recorded and changes nothing else.  So a session that takes only the
commands that succeed, in the same order, gets the same answers to them and ends with the same
context.
-/

namespace LittleTypes

namespace Session

/-- What each of several commands answers, taken in order. -/
def answers (fuel : Nat) (s : Session) : List Command → List (Checked (Option Term))
  | [] => []
  | c :: cs => (perform fuel s c).2 :: answers fuel (perform fuel s c).1 cs

/-- The commands that succeed, of several that are taken in order. -/
def succeeding (fuel : Nat) (s : Session) : List Command → List Command
  | [] => []
  | c :: cs =>
    if (perform fuel s c).2.outcome.isOk then c :: succeeding fuel (perform fuel s c).1 cs
    else succeeding fuel (perform fuel s c).1 cs

/-- The context after a command that succeeds: a claim and a definition add one name. -/
def Command.Extends (Γ Δ : Context) : Command → Prop
  | claim _ x _ => ∃ t, Δ = (x, .claim t) :: Γ
  | define _ x _ => ∃ t v, Δ = (x, .defn t v) :: Γ
  | checkSame .. | norm _ => Δ = Γ

/-- How a session goes on after a command, by how the command ends: the context changes only if it
succeeds, and the errors only if it fails by a mistake. -/
def GoesOn (s : Session) (c : Command) (s' : Session) : Except Failure (Option Term) → Prop
  | .ok _ => c.Extends s.context s'.context ∧ s'.errors = s.errors
  | .error (.stop e) => s'.context = s.context ∧ s'.errors = s.errors ++ [e]
  | .error (.fault _) => s' = s

variable {fuel : Nat}

theorem extends_of_execute {Γ : Context} {c : Command} {a : Answer}
    (h : (execute fuel Γ c).outcome = .ok a) : c.Extends Γ a.context := by
  cases c with
  | claim loc x type =>
    obtain ⟨Δ, hΔ, h⟩ := Checked.outcome_bind_eq_ok_iff.1 h
    obtain ⟨-, -, t, v, -, -, rfl⟩ := claim_eq_ok hΔ
    cases h
    exact ⟨v, rfl⟩
  | define loc x e =>
    obtain ⟨Δ, hΔ, h⟩ := Checked.outcome_bind_eq_ok_iff.1 h
    obtain ⟨t, e', v, -, -, -, rfl⟩ := define_eq_ok hΔ
    cases h
    exact ⟨t, v, rfl⟩
  | checkSame | norm =>
    obtain ⟨_, -, h⟩ := Checked.outcome_bind_eq_ok_iff.1 h
    cases h
    rfl

variable (fuel) in
theorem goesOn_perform (s : Session) (c : Command) :
    GoesOn s c (perform fuel s c).1 (perform fuel s c).2.outcome := by
  unfold perform
  match h : (execute fuel s.context c).outcome with
  | .ok a =>
    simp only [h]
    exact ⟨extends_of_execute h, rfl⟩
  | .error (.stop e) =>
    simp only [h]
    exact ⟨rfl, rfl⟩
  | .error (.fault f) =>
    simp only [h]
    rfl

/-- A command that does not succeed leaves the context as it is. -/
theorem context_perform_of_not_ok {s : Session} {c : Command}
    (h : ¬(perform fuel s c).2.outcome.isOk) : (perform fuel s c).1.context = s.context := by
  have hg := goesOn_perform fuel s c
  match ho : (perform fuel s c).2.outcome with
  | .ok t => exact absurd (ho ▸ rfl) h
  | .error (.stop e) =>
    rw [ho] at hg
    exact hg.1
  | .error (.fault f) =>
    rw [ho] at hg
    exact congrArg Session.context hg

/-- A command that succeeds does the same in every session with the same context, whatever has
failed there before. -/
theorem perform_eq_of_ok {s s₀ : Session} {c : Command} (hs : s₀.context = s.context)
    (h : (perform fuel s c).2.outcome.isOk) :
    perform fuel s₀ c = (⟨(perform fuel s c).1.context, s₀.errors⟩, (perform fuel s c).2) := by
  unfold perform at h ⊢
  rw [hs]
  match ho : (execute fuel s.context c).outcome with
  | .ok a => simp only [ho]
  | .error (.stop e) => simp [ho, Except.isOk, Except.toBool] at h
  | .error (.fault f) => simp [ho, Except.isOk, Except.toBool] at h

/-- The commands that succeed do the same without those that fail. -/
theorem run_succeeding (fuel : Nat) (cs : List Command) (s s₀ : Session) (hs : s₀.context = s.context) :
    run fuel s₀ (succeeding fuel s cs) = ⟨(run fuel s cs).context, s₀.errors⟩ ∧
      answers fuel s₀ (succeeding fuel s cs) =
        (answers fuel s cs).filter fun a ↦ a.outcome.isOk := by
  induction cs generalizing s s₀ with
  | nil => exact ⟨congrArg (Session.mk · s₀.errors) hs, rfl⟩
  | cons c cs ih =>
    rw [succeeding, answers]
    by_cases h : (perform fuel s c).2.outcome.isOk
    · rw [if_pos h, List.filter_cons, if_pos h]
      have hp := perform_eq_of_ok hs h
      have ih := ih (perform fuel s c).1 (perform fuel s₀ c).1 (by rw [hp])
      refine ⟨?_, ?_⟩
      · exact ih.1.trans (by rw [hp]; rfl)
      · rw [answers, ih.2, hp]
    · rw [if_neg h, List.filter_cons, if_neg h]
      exact ih _ s₀ (hs.trans (context_perform_of_not_ok h).symm)

/-- **Failures leave no trace.**  After any commands, a further command that fails leaves the
context as it is and adds the mistake it answers with to the errors, and one that succeeds leaves
the errors as they are and adds one name to the context if it is a claim or a definition.  The
commands that succeed alone get the same answers, end with the same context, and leave no errors. -/
theorem failures_leave_no_trace (fuel : Nat) (cs : List Command) :
    (∀ c, GoesOn (run fuel {} cs) c (perform fuel (run fuel {} cs) c).1
      (perform fuel (run fuel {} cs) c).2.outcome) ∧
    answers fuel {} (succeeding fuel {} cs) =
      (answers fuel {} cs).filter (fun a ↦ a.outcome.isOk) ∧
    (run fuel {} (succeeding fuel {} cs)).context = (run fuel {} cs).context ∧
    (run fuel {} (succeeding fuel {} cs)).errors = [] := by
  obtain ⟨hrun, hanswers⟩ := run_succeeding fuel cs {} {} rfl
  exact ⟨goesOn_perform fuel _, hanswers, by rw [hrun], by rw [hrun]⟩

end Session

end LittleTypes
