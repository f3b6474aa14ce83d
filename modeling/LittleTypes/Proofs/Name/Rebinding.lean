import LittleTypes.Proofs.Name.Fresh
import LittleTypes.Context.Listing

/-!
# Names are not bound again

To bind a name a second time is a fault.  Reading back binds only names that it makes up, each in
the very context it was made up for; so this fault never comes from it, in whatever context, and
whatever is read back.
-/

namespace LittleTypes

/-- The fault is not that a name would be bound twice. -/
def Fault.BindsOnce : Fault → Prop
  | .duplicate _ => False
  | _ => True

/-- If anything goes wrong, it is not that a name would be bound twice. -/
def BindsOnce {α : Type} (x : Except Fault α) : Prop := ∀ f, x = .error f → f.BindsOnce

namespace BindsOnce

variable {α β : Type}

theorem pure (a : α) : BindsOnce (Pure.pure a) := nofun

theorem error {f : Fault} (h : f.BindsOnce) : BindsOnce (throw f : Except Fault α) := by
  rintro _ ⟨⟩
  exact h

theorem bind {x : Except Fault α} {f : α → Except Fault β} (hx : BindsOnce x)
    (h : ∀ a, BindsOnce (f a)) : BindsOnce (x >>= f) := by
  cases x with
  | ok a => exact h a
  | error e => exact error (hx e rfl)

theorem map {x : Except Fault α} (hx : BindsOnce x) (f : α → β) : BindsOnce (f <$> x) := by
  cases x with
  | ok a => exact .pure (f a)
  | error e => exact error (hx e rfl)

theorem notType (s : Shape) : BindsOnce (throw (.notType s) : Except Fault α) := error trivial

theorem unreadable (s s' : Shape) : BindsOnce (throw (.unreadable s s') : Except Fault α) :=
  error trivial

/-- Evaluation binds no names. -/
theorem lift (x : Except EvalFault α) : BindsOnce (liftM x : Except Fault α) := by
  cases x with
  | ok a => exact .pure a
  | error e => exact error (f := .eval e) trivial

/-- A name that was made up in a context can be bound there. -/
theorem bindFree_fresh (Γ : Context) (hint : String) (type : Value) :
    BindsOnce (Γ.bindFree (Γ.fresh hint) type) := by
  rw [Context.bindFree_eq_ok (Γ.fresh_not_mem hint)]
  exact .pure _

end BindsOnce

/-- A reader that never binds a name twice. -/
def Reader.Careful (read : Reader) : Prop := ∀ Γ r, BindsOnce (read Γ r)

namespace Reader.Careful

open BindsOnce

variable {read : Reader} (h : read.Careful) (m : Machine) (Γ : Context)

include h

theorem typed (a : Typed) : BindsOnce (read.typed Γ a) := by
  cases a
  exact h Γ _

theorem typeOfTyped (a : Typed) : BindsOnce (read.typeOfTyped Γ a) := by
  cases a
  exact h Γ _

theorem typedType (a : Typed) : BindsOnce (read.typedType Γ a) := by
  cases a
  exact h Γ _

theorem neutralStep (n : Neutral) : BindsOnce (read.neutralStep Γ n) := by
  -- parts are read back one after the other, all in the same context
  have hr : ∀ r, BindsOnce (read Γ r) := h Γ
  cases n <;> rw [Reader.neutralStep] <;>
    repeat' with_reducible first
      | exact pure _ | exact hr _ | exact h.typed Γ _ | exact h.typeOfTyped Γ _
      | exact h.typedType Γ _ | refine bind ?_ fun _ ↦ ?_

theorem neutralAt (t v : Value) : BindsOnce (read.neutralAt Γ t v) := by
  cases v with
  | neu _ n => exact h Γ _
  | _ => exact unreadable _ _

theorem typeStep (v : Value) : BindsOnce (read.typeStep m Γ v) := by
  have hr : ∀ Γ r, BindsOnce (read Γ r) := h
  refine (lift _).bind fun w ↦ ?_
  dsimp only
  split
  all_goals
    repeat' with_reducible first
      | exact pure _ | exact notType _ | exact hr _ _ | exact lift _
      | exact bindFree_fresh Γ _ _ | refine bind ?_ fun _ ↦ ?_

theorem valueStep (t v : Value) : BindsOnce (read.valueStep m Γ t v) := by
  have hr : ∀ Γ r, BindsOnce (read Γ r) := h
  refine (lift _).bind fun t ↦ (lift _).bind fun v ↦ ?_
  dsimp only
  split
  all_goals
    repeat' with_reducible first
      | exact pure _ | exact unreadable _ _ | exact hr _ _ | exact lift _
      | exact h.neutralAt Γ _ _ | exact bindFree_fresh Γ _ _ | refine bind ?_ fun _ ↦ ?_ | split

theorem step : Reader.Careful fun Γ ↦ read.step m Γ := by
  intro Γ r
  cases r with
  | value t v => exact h.valueStep m Γ t v
  | type v => exact h.typeStep m Γ v
  | neutral n => exact h.neutralStep Γ n

end Reader.Careful

/-- With any amount of fuel, reading back binds no name twice. -/
theorem reader_careful (fuel : Nat) : (reader fuel).Careful := by
  induction fuel with
  | zero => exact fun _ _ ↦ .error trivial
  | succ fuel ih => exact ih.step (machine fuel)

/-- Nor does reading back all that a context holds, each thing in the context it was added to. -/
theorem Context.listing_bindsOnce (fuel : Nat) (Γ : Context) : BindsOnce (listing fuel Γ) := by
  have hread := reader_careful fuel
  induction Γ with
  | nil => exact .pure _
  | cons b Γ ih =>
    obtain ⟨x, b⟩ := b
    refine (hread Γ (.type b.type)).bind fun _ ↦ ?_
    cases b with
    | defn t v => exact ((hread Γ (.value t v)).map _).bind fun _ ↦ ih.bind fun _ ↦ .pure _
    | free | claim => exact ih.bind fun _ ↦ .pure _

end LittleTypes
