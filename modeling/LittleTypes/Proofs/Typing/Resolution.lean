import LittleTypes.Proofs.Match.Rules
import LittleTypes.Session.Query

/-!
# What a name stands for

Under binders, a name of the source stands for the innermost binder of that name.  A name that none
of them binds stands for what it stood for outside, and never for one of the names that were chosen
for the binders.
-/

namespace LittleTypes

/-! ## Names of a context -/

/-- What a name stands for in a context: the most recent binding that is not a mere claim. -/
def Context.visible? (Γ : Context) (x : String) : Option Binding :=
  (Γ.find? fun b ↦ b.1 = x ∧ b.2.kind ≠ .claim).map Prod.snd

namespace Context

variable {Γ : Context} {x : String}

theorem typeOf?_eq_map_visible? (Γ : Context) (x : String) :
    Γ.typeOf? x = (Γ.visible? x).map Binding.type := by
  induction Γ with
  | nil => rfl
  | cons b Γ ih =>
    obtain ⟨y, b⟩ := b
    by_cases h : y = x <;> cases b <;>
      simp_all [typeOf?, visible?, Binding.kind, Binding.type]

theorem mem_names_of_visible?_eq_some {b : Binding} (h : Γ.visible? x = some b) : x ∈ Γ.names := by
  by_contra hx
  simpa [Context.typeOf?_eq_none hx, h] using Γ.typeOf?_eq_map_visible? x

/-- Outside of all binders a name stands for itself, if it stands for anything. -/
theorem resolve_scope_eq_map_visible? (Γ : Context) (x : String) :
    Γ.scope.resolve x = (Γ.visible? x).map fun _ ↦ x := by
  have h : Γ.scope.resolve x = if (Γ.typeOf? x).isSome then some x else none := rfl
  rw [h, typeOf?_eq_map_visible?]
  cases Γ.visible? x <;> rfl

/-- Outside of all binders nothing is renamed. -/
theorem proper_scope (Γ : Context) : Γ.scope.Proper := nofun

end Context

/-! ## Scopes under binders -/

namespace Scope

/-- The scope under binders of given types, the outermost first.  The name that is chosen for each
is made from its name in the source. -/
def under (s : Scope) : List (String × Value) → Scope
  | [] => s
  | (x, type) :: binders => (s.extend x (s.context.fresh x) type).under binders

variable (s : Scope) (x : String) (type : Value) (binders : List (String × Value))

/-- A name that is made to be new can be bound. -/
theorem bind_fresh :
    s.bind x (s.context.fresh x) type = pure (s.extend x (s.context.fresh x) type) := by
  rw [bind, Context.bindFree_eq_ok (s.context.fresh_not_mem x)]
  rfl

/-- To go under binders one after the other never fails. -/
theorem foldlM_bind_fresh :
    binders.foldlM (fun s b ↦ s.bind b.1 (s.context.fresh b.1) b.2) s = pure (s.under binders) := by
  induction binders generalizing s with
  | nil => rfl
  | cons b binders ih =>
    rw [List.foldlM_cons, bind_fresh, pure_bind, ih]
    rfl

theorem under_append (inner : List (String × Value)) :
    s.under (binders ++ inner) = (s.under binders).under inner := by
  induction binders generalizing s with
  | nil => rfl
  | cons b binders ih => exact ih _

variable {s x type binders}

theorem Proper.under (hs : s.Proper) : (s.under binders).Proper := by
  induction binders generalizing s with
  | nil => exact hs
  | cons b binders ih => exact ih hs.extend

theorem names_subset_under : s.context.names ⊆ (s.under binders).context.names := by
  induction binders generalizing s with
  | nil => exact List.Subset.refl _
  | cons b binders ih =>
    have ih := ih (s := s.extend b.1 (s.context.fresh b.1) b.2)
    exact fun y hy ↦ ih (List.mem_cons_of_mem _ hy)

/-- Binders of other names do not change what a name stands for. -/
theorem resolve_under_of_ne (hs : s.Proper) {z : String} (h : ∀ b ∈ binders, b.1 ≠ z) :
    (s.under binders).resolve z = s.resolve z := by
  induction binders generalizing s with
  | nil => rfl
  | cons b binders ih =>
    obtain ⟨hb, h⟩ := List.forall_mem_cons.1 h
    rw [under, ih hs.extend h, resolve_extend_of_ne hs (s.context.fresh_not_mem _) (Ne.symm hb)]

/-- Nothing that is bound already changes its type. -/
theorem typeOf?_under {y : String} (hy : y ∈ s.context.names) :
    (s.under binders).context.typeOf? y = s.context.typeOf? y := by
  induction binders generalizing s with
  | nil => rfl
  | cons b binders ih =>
    have hne : s.context.fresh b.1 ≠ y := fun e ↦ s.context.fresh_not_mem b.1 (e ▸ hy)
    have ih := ih (s := s.extend b.1 (s.context.fresh b.1) b.2) (List.mem_cons_of_mem _ hy)
    rw [under, ih]
    simp [extend, Context.typeOf?, hne]

/-- A judgment is about the term it is made of. -/
theorem term_of_judge {fuel : Nat} {t : Term} {j : Judgment}
    (h : (s.judge fuel type t).outcome = .ok j) : j.term = t := by
  obtain ⟨T, -, h⟩ := Checked.outcome_bind_eq_ok_iff.1 h
  cases h
  rfl

end Scope

/-! ## Variables under binders -/

namespace Rule

variable {fuel : Nat} {loc : Location} {s : Scope} {x : String} {type : Value}
  {inner : List (String × Value)}

/-- A variable under its own binder and under others of other names. -/
theorem var_synth_under_extend (hs : s.Proper) (h : ∀ b ∈ inner, b.1 ≠ x) :
    (var fuel loc x).synth ((s.extend x (s.context.fresh x) type).under inner) =
      ((s.extend x (s.context.fresh x) type).under inner).judge fuel type
        (.var (s.context.fresh x)) := by
  apply var_synth_of_resolve_eq_some
  · rw [Scope.resolve_under_of_ne hs.extend h, Scope.resolve_extend_self]
  · rw [Scope.typeOf?_under List.mem_cons_self]
    simp [Scope.extend, Context.typeOf?]

variable {Γ : Context} {binders : List (String × Value)}

variable (fuel) in
/-- A variable that is bound outside only. -/
theorem var_synth_under_of_visible? (hx : ∀ b ∈ binders, b.1 ≠ x) {b : Binding}
    (h : Γ.visible? x = some b) :
    (var fuel loc x).synth (Γ.scope.under binders) =
      (Γ.scope.under binders).judge fuel b.type (.var x) := by
  apply var_synth_of_resolve_eq_some
  · rw [Scope.resolve_under_of_ne Γ.proper_scope hx, Γ.resolve_scope_eq_map_visible?, h]
    rfl
  · rw [Scope.typeOf?_under (Γ.mem_names_of_visible?_eq_some h)]
    change Γ.typeOf? x = _
    rw [Γ.typeOf?_eq_map_visible?, h]
    rfl

variable (fuel) in
/-- A variable that is not bound at all. -/
theorem var_synth_under_of_not_visible? (hx : ∀ b ∈ binders, b.1 ≠ x)
    (h : Γ.visible? x = none) :
    ∃ message, ((var fuel loc x).synth (Γ.scope.under binders)).outcome =
      .error (.stop ⟨.scope, loc, message⟩) := by
  apply var_synth_of_resolve_eq_none
  rw [Scope.resolve_under_of_ne Γ.proper_scope hx, Γ.resolve_scope_eq_map_visible?, h]
  rfl

/-- A name that none of the binders has does not stand for any of them: what it stands for is bound
outside, where the names chosen for the binders are not. -/
theorem term_ne_fresh_of_var_synth_under {outer : List (String × Value)} {y : String}
    (hx : ∀ b ∈ outer ++ (y, type) :: inner, b.1 ≠ x) {j : Judgment}
    (hj : ((var fuel loc x).synth (Γ.scope.under (outer ++ (y, type) :: inner))).outcome = .ok j) :
    j.term ≠ .var ((Γ.scope.under outer).context.fresh y) := by
  intro e
  cases h : Γ.visible? x with
  | none =>
    obtain ⟨message, hstop⟩ := var_synth_under_of_not_visible? fuel hx h
    cases hj.symm.trans hstop
  | some b =>
    rw [var_synth_under_of_visible? fuel hx h] at hj
    have hchosen : x = (Γ.scope.under outer).context.fresh y := by
      simpa using (Scope.term_of_judge hj).symm.trans e
    refine (Γ.scope.under outer).context.fresh_not_mem y (hchosen ▸ ?_)
    exact Scope.names_subset_under (Context.mem_names_of_visible?_eq_some h)

end Rule

/-- Names are resolved lexically.  Under any binders in any context, a name stands for the innermost
binder of that name, with its type.  If there is none, it stands for the most recent binding of the
name outside that is not a claim, with the type it has there, and if there is none either, it is
unknown.  The names chosen for the binders are out of reach for all other names. -/
theorem Source.synth_var_under (fuel : Nat) (Γ : Context) (binders : List (String × Value)) :
    binders.foldlM (fun s b ↦ s.bind b.1 (s.context.fresh b.1) b.2) Γ.scope =
        pure (Γ.scope.under binders) ∧
      ∀ (loc : Location) (x : String),
        let s := Γ.scope.under binders
        let found := (Source.var loc x).synth fuel s
        (∀ outer type inner, binders = outer ++ (x, type) :: inner → (∀ b ∈ inner, b.1 ≠ x) →
          found = s.judge fuel type (.var ((Γ.scope.under outer).context.fresh x))) ∧
        ((∀ b ∈ binders, b.1 ≠ x) →
          (∀ b, Γ.visible? x = some b → found = s.judge fuel b.type (.var x)) ∧
          (Γ.visible? x = none →
            ∃ message, found.outcome = .error (.stop ⟨.scope, loc, message⟩)) ∧
          ∀ outer y type inner, binders = outer ++ (y, type) :: inner →
            ∀ j, found.outcome = .ok j →
              j.term ≠ .var ((Γ.scope.under outer).context.fresh y)) := by
  refine ⟨Γ.scope.foldlM_bind_fresh binders, fun loc x ↦ ⟨?bound, fun hx ↦ ?unbound⟩⟩
  case bound =>
    rintro outer type inner rfl hinner
    rw [Scope.under_append]
    exact Rule.var_synth_under_extend Γ.proper_scope.under hinner
  case unbound =>
    refine ⟨fun b hb ↦ Rule.var_synth_under_of_visible? fuel hx hb,
      fun h ↦ Rule.var_synth_under_of_not_visible? fuel hx h, ?_⟩
    rintro outer y type inner rfl j hj
    exact Rule.term_ne_fresh_of_var_synth_under hx hj

/-- The inner of two binders of one name is the one that is meant. -/
example : ((Source.var {} "x").synth 2 (Context.scope [("x", .claim (.const .atom))] |>.under
    [("x", .const .nat), ("x", .const .atom)])).outcome =
      .ok ⟨.const .atom, .var "x₂"⟩ := by
  rfl

/-- A binder that was given the name `x₁` is not reached by writing that name. -/
example : ((Source.var {} "x₁").synth 2 (Context.scope [("x", .claim (.const .atom))] |>.under
    [("x", .const .nat)])).outcome =
      .error (.stop ⟨.scope, {}, ["Unknown variable", "x₁"]⟩) := by
  rfl

end LittleTypes
