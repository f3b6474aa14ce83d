import LittleTypes.Proofs.Name.Fresh
import LittleTypes.Proofs.Term.Free
import LittleTypes.Context.ReadBack

/-!
# The binders of normal forms

Reading back binds only names that are not bound in the context yet, and none inside of a binder of
the same name.
-/

namespace LittleTypes

/-- What is answered, if anything is, has a property. -/
def Answers {ε α : Type} (P : α → Prop) (x : Except ε α) : Prop := ∀ a, x = .ok a → P a

namespace Answers

variable {ε α β : Type} {P : α → Prop} {Q : β → Prop}

theorem pure {a : α} (h : P a) : Answers (ε := ε) P (Pure.pure a) := by
  rintro b ⟨⟩
  exact h

theorem error (e : ε) : Answers P (throw e : Except ε α) := nofun

theorem bind {x : Except ε α} {f : α → Except ε β} (hx : Answers P x)
    (h : ∀ a, P a → Answers Q (f a)) : Answers Q (x >>= f) := by
  cases x with
  | error e => exact error e
  | ok a => exact h a (hx a rfl)

/-- Whatever is answered first. -/
theorem after {x : Except ε α} {f : α → Except ε β} (h : ∀ a, Answers Q (f a)) :
    Answers Q (x >>= f) := bind (P := fun _ ↦ True) (fun _ _ ↦ trivial) fun a _ ↦ h a

/-- What evaluation answers, as a part of something else. -/
theorem lift {x : Except EvalFault α} (h : Answers P x) :
    Answers P (liftM x : Except Fault α) := by
  cases x with
  | ok a => exact .pure (h a rfl)
  | error e => exact .error (Fault.eval e)

end Answers

/-- No name that is bound in a context is bound again in a term. -/
def Term.Apart (Γ : Context) (t : Term) : Prop := ∀ x ∈ t.binders, x ∉ Γ.names

/-- What is read back binds no name that is in use. -/
def Reader.BindsNew (read : Reader) : Prop := ∀ Γ r, Answers (Term.BindsNew Γ.names) (read Γ r)

namespace Reader.BindsNew

variable {read : Reader} (h : read.BindsNew) (m : Machine) (Γ : Context)

include h

theorem typed (a : Typed) : Answers (Term.BindsNew Γ.names) (read.typed Γ a) := by
  cases a
  exact h Γ _

theorem typeOfTyped (a : Typed) : Answers (Term.BindsNew Γ.names) (read.typeOfTyped Γ a) := by
  cases a
  exact h Γ _

theorem typedType (a : Typed) : Answers (Term.BindsNew Γ.names) (read.typedType Γ a) := by
  cases a
  exact h Γ _

theorem neutralStep (n : Neutral) : Answers (Term.BindsNew Γ.names) (read.neutralStep Γ n) := by
  -- parts are read back one after the other, and no form of elimination binds a name
  have hr := h Γ
  have next {x : Except Fault Term} {f : Term → Except Fault Term} :=
    Answers.bind (x := x) (f := f) (P := Term.BindsNew Γ.names) (Q := Term.BindsNew Γ.names)
  cases n <;> rw [Reader.neutralStep] <;>
    repeat' with_reducible first
      | exact hr _ | exact h.typed Γ _ | exact h.typeOfTyped Γ _ | exact h.typedType Γ _
      | refine next ?_ fun _ _ ↦ ?_
      | exact Answers.pure (by simp only [Term.BindsNew, and_self, *])

omit h in
/-- A part is read back under a new name. -/
theorem underFresh {hint : String} {t : Value} {f : Context → Except Fault Term}
    (hf : Answers (Term.BindsNew Γ.names) (f ((Γ.fresh hint, .free t) :: Γ))) :
    Answers (Term.BindsNew Γ.names) (Γ.bindFree (Γ.fresh hint) t >>= f) := by
  rw [Context.bindFree_eq_ok (Γ.fresh_not_mem hint)]
  exact hf

/-- What is read back under a name binds neither this name nor one outside. -/
theorem inside {x : String} {b : Binding} {r : Reading} {f : Term → Except Fault Term}
    (hf : ∀ t, t.BindsNew (x :: Γ.names) → Answers (Term.BindsNew Γ.names) (f t)) :
    Answers (Term.BindsNew Γ.names) (read ((x, b) :: Γ) r >>= f) :=
  (h _ r).bind hf

theorem typeStep (v : Value) : Answers (Term.BindsNew Γ.names) (read.typeStep m Γ v) := by
  have hr := h Γ
  have hnew := Γ.fresh_not_mem
  have next {x : Except Fault Term} {f : Term → Except Fault Term} :=
    Answers.bind (x := x) (f := f) (P := Term.BindsNew Γ.names) (Q := Term.BindsNew Γ.names)
  refine Answers.after fun v ↦ ?_
  dsimp only
  split
  all_goals
    repeat' with_reducible first
      | exact hr _ | exact .error _
      | refine next (hr _) fun _ _ ↦ ?_
      | refine underFresh Γ ?_
      | refine h.inside Γ fun _ _ ↦ ?_
      | refine Answers.after fun _ ↦ ?_
      | exact Answers.pure (by simp only [Term.BindsNew, not_false_eq_true, and_self, *])

theorem neutralAt (t v : Value) : Answers (Term.BindsNew Γ.names) (read.neutralAt Γ t v) := by
  cases v with
  | neu _ n => exact h Γ _
  | _ => exact .error _

theorem valueStep (t v : Value) : Answers (Term.BindsNew Γ.names) (read.valueStep m Γ t v) := by
  have hr := h Γ
  have hnew := Γ.fresh_not_mem
  have next {x : Except Fault Term} {f : Term → Except Fault Term} :=
    Answers.bind (x := x) (f := f) (P := Term.BindsNew Γ.names) (Q := Term.BindsNew Γ.names)
  refine Answers.after fun t ↦ Answers.after fun v ↦ ?_
  dsimp only
  split
  all_goals
    repeat' with_reducible first
      | exact hr _ | exact .error _ | exact h.neutralAt Γ _ _
      | refine next (hr _) fun _ _ ↦ ?_
      | refine underFresh Γ ?_
      | refine h.inside Γ fun _ _ ↦ ?_
      | refine Answers.after fun _ ↦ ?_
      | exact Answers.pure (by simp only [Term.BindsNew, not_false_eq_true, and_self, *])
      | split

theorem step : Reader.BindsNew fun Γ ↦ read.step m Γ := by
  intro Γ r
  cases r with
  | value t v => exact h.valueStep m Γ t v
  | type v => exact h.typeStep m Γ v
  | neutral n => exact h.neutralStep Γ n

end Reader.BindsNew

/-- With any amount of fuel, what is read back binds only names that are not in use. -/
theorem reader_bindsNew (fuel : Nat) : (reader fuel).BindsNew := by
  induction fuel with
  | zero => exact fun _ _ ↦ .error _
  | succ fuel ih => exact ih.step (machine fuel)

/-- What is read back binds no name that is bound already. -/
def Reader.Apart (read : Reader) : Prop := ∀ Γ r, Answers (Term.Apart Γ) (read Γ r)

theorem reader_apart (fuel : Nat) : (reader fuel).Apart :=
  fun Γ r t ht ↦ (Term.bindsNew_iff.1 (reader_bindsNew fuel Γ r t ht)).1

end LittleTypes
