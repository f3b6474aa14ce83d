import LittleTypes.Proofs.Context.Built
import LittleTypes.Proofs.Legal.Rules

/-!
# Results are legal

Where all names are variable names and everything that is known of them was elaborated, all that
elaboration and normalization answer with is legal, and so is the listing of the context.
-/

namespace LittleTypes

/-- A declaration whose terms are legal. -/
def Declaration.Legal : Declaration Term → Prop
  | free x t => isVariableName x ∧ t.Legal
  | claim x t => isVariableName x ∧ t.Legal
  | defn x t e => isVariableName x ∧ t.Legal ∧ e.Legal

namespace Checked.Yields

variable {α : Type} {P : α → Prop}

/-- After a mistake there may be another answer. -/
theorem onStop {x : Checked α} {f : Stop → Checked α} (hx : Yields P x) (hf : ∀ s, Yields P (f s)) :
    Yields P (x.onStop f) := by
  unfold Checked.onStop
  split
  · rename_i s _
    exact hf s
  · exact hx

end Checked.Yields

open Checked

namespace Context

variable {fuel : Nat} {Γ Δ : Context}

namespace Legal

variable (hΓ : Γ.Legal) (fuel)

include hΓ

omit fuel in
/-- What a name is bound to is legal, and the name is a variable name. -/
theorem binding {x : String} {b : Binding} (h : Γ.binding? x = some b) :
    isVariableName x ∧ b.Legal := by
  obtain ⟨l₁, l₂, rfl, -⟩ := List.lookup_eq_some_iff.1 h
  exact hΓ (x, b) (by simp)

theorem evalAt (p : Place) {t : Term} (ht : t.Legal) : Answers Value.Legal (Γ.evalAt fuel p t) :=
  (machine_legal fuel).eval p hΓ.env ht

/-- What a name is said to stand for is elaborated to legal terms. -/
theorem elaborate {d : Declaration Source} (hd : isVariableName d.name) :
    Yields Declaration.Legal (Γ.elaborate fuel d) := by
  have hs : Γ.scope.Legal := hΓ
  cases d with
  | free x type =>
    exact ((type.elaborator_legal fuel).isType hs).bind fun t ht ↦ .pure ⟨hd, ht⟩
  | claim x type =>
    exact ((type.elaborator_legal fuel).isType hs).bind fun t ht ↦ .pure ⟨hd, ht⟩
  | defn x type e =>
    refine ((type.elaborator_legal fuel).isType hs).bind fun t ht ↦ ?_
    refine (hs.eval fuel ht).bind fun v hv ↦ ?_
    exact ((e.elaborator_legal fuel).check hs hv).bind fun u hu ↦ .pure ⟨hd, ht, hu⟩

/-- A legal declaration keeps a context legal. -/
theorem declareAt (p : Place) {d : Declaration Term} (hd : d.Legal) :
    Answers Context.Legal (Γ.declareAt fuel p d) := by
  cases d with
  | free x t =>
    refine (hΓ.evalAt fuel _ hd.2).lift.bind fun v hv ↦ ?_
    unfold bindFree
    split
    · exact .error _
    · exact .pure (hΓ.cons hd.1 hv)
  | claim x t => exact (hΓ.evalAt fuel _ hd.2).lift.bind fun v hv ↦ .pure (hΓ.cons hd.1 hv)
  | defn x t e =>
    refine (hΓ.evalAt fuel _ hd.2.1).lift.bind fun v hv ↦ ?_
    exact (hΓ.evalAt fuel _ hd.2.2).lift.bind fun w hw ↦ .pure (hΓ.cons hd.1 ⟨hv, hw⟩)

theorem rep (e : Source) : Yields Term.Legal (Γ.rep fuel e) := by
  have hs : Γ.scope.Legal := hΓ
  refine ((e.elaborator_legal fuel).synth hs).bind fun j hj ↦ ?_
  refine (hs.eval fuel hj.1).bind fun t ht ↦ (hs.eval fuel hj.2).bind fun v hv ↦ ?_
  refine (Scope.Legal.readBackType fuel _ ht).bind fun _ h₁ ↦ ?_
  refine (Scope.Legal.readBack fuel _ ht hv).bind fun _ h₂ ↦ .pure ?_
  exact Bool.and_eq_true_iff.2 ⟨h₁, h₂⟩

theorem normType (e : Source) : Yields Term.Legal (Γ.normType fuel e) := by
  have hs : Γ.scope.Legal := hΓ
  refine ((e.elaborator_legal fuel).isType hs).bind fun t ht ↦ ?_
  exact (hs.eval fuel ht).bind fun v hv ↦ Scope.Legal.readBackType fuel _ hv

theorem norm (e : Source) : Yields Term.Legal (Γ.norm fuel e) :=
  (hΓ.rep fuel e).onStop fun _ ↦ (hΓ.normType fuel e).onStop fun _ ↦ nofun

theorem checkAt (type e : Source) : Yields Term.Legal (Γ.checkAt fuel type e) := by
  have hs : Γ.scope.Legal := hΓ
  refine ((type.elaborator_legal fuel).isType hs).bind fun t ht ↦ ?_
  exact (hs.eval fuel ht).bind fun v hv ↦ (e.elaborator_legal fuel).check hs hv

/-- The terms in a listing are legal. -/
theorem listing :
    Answers (fun l ↦ ∀ b ∈ l, b.type.Legal ∧ ∀ v ∈ b.value, Term.Legal v) (Γ.listing fuel) := by
  induction Γ with
  | nil => exact .pure nofun
  | cons c Γ ih =>
    obtain ⟨x, b⟩ := c
    have more {t : Term} {v : Option Term} (k : Binding.Kind) (ht : t.Legal)
        (hv : ∀ u ∈ v, Term.Legal u) :
        Answers (fun l ↦ ∀ b ∈ l, b.type.Legal ∧ ∀ v ∈ b.value, Term.Legal v)
          (do pure (⟨x, k, t, v⟩ :: (← Context.listing fuel Γ)) : Except Fault (List Listed)) := by
      refine (ih hΓ.tail).bind fun l hl ↦ .pure ?_
      rintro c (_ | ⟨_, hc⟩)
      · exact ⟨ht, hv⟩
      · exact hl c hc
    have hread := reader_legal fuel Γ
    cases b with
    | free t => exact (hread (.type t) hΓ.head.2).bind fun u hu ↦ more .free hu nofun
    | claim t => exact (hread (.type t) hΓ.head.2).bind fun u hu ↦ more .claim hu nofun
    | defn t v =>
      refine (hread (.type t) hΓ.head.2.1).bind fun u hu ↦ ?_
      refine Answers.bind ?_ fun w hw ↦ more .defn hu hw
      refine (hread (.value t v) hΓ.head.2).map some ?_
      rintro a ha u ⟨⟩
      exact ha

end Legal

/-- One more variable name keeps a context legal. -/
theorem Legal.adds {p : Place} {e : Entry} (hΓ : Γ.Legal) (hx : isVariableName e.name)
    (h : Γ.Adds fuel p e Δ) : Δ.Legal := by
  cases h with
  | declare hel hdecl => exact hΓ.declareAt _ _ (hΓ.elaborate _ hx _ hel) _ hdecl
  | @define x e type v t hb ht hv =>
    have hs : Γ.scope.Legal := hΓ
    have htype : type.Legal := (hΓ.binding hb).2
    have ht := (e.elaborator_legal fuel).check hs htype t ht
    exact hΓ.cons hx ⟨htype, hΓ.evalAt _ _ ht v hv⟩

theorem Stated.legal (h : Γ.Stated) : Γ.Legal := by
  obtain ⟨es, h⟩ := h
  induction h with
  | nil => exact .nil
  | cons _ hs ih =>
    obtain ⟨hx, fuel, p, hs⟩ := hs
    exact ih.adds hx hs

/-- **Results are legal.**  In a context of variable names, each of which was checked when it was
added, the terms and types that elaboration finds, the normal forms, and all types and values in the
listing of the context are legal. -/
theorem results_legal (h : Γ.Stated) (fuel : Nat) (e type : Source) :
    (∀ j, (e.synth fuel Γ.scope).outcome = .ok j → j.toTerm.isLegal) ∧
    (∀ t, (e.isType fuel Γ.scope).outcome = .ok t → t.isLegal) ∧
    (∀ t, (Γ.checkAt fuel type e).outcome = .ok t → t.isLegal) ∧
    (∀ t, (Γ.rep fuel e).outcome = .ok t → t.isLegal) ∧
    (∀ t, (Γ.norm fuel e).outcome = .ok t → t.isLegal) ∧
    (∀ t, (Γ.normType fuel e).outcome = .ok t → t.isLegal) ∧
    ∀ l, Γ.listing fuel = .ok l →
      ∀ b ∈ l, b.type.isLegal ∧ ∀ v, b.value = some v → v.isLegal := by
  have hΓ := h.legal
  have he := e.elaborator_legal fuel
  refine ⟨fun j hj ↦ ?_, he.isType hΓ, hΓ.checkAt fuel type e, hΓ.rep fuel e, hΓ.norm fuel e,
    hΓ.normType fuel e, hΓ.listing fuel⟩
  exact Bool.and_eq_true_iff.2 (he.synth (s := Γ.scope) hΓ j hj)

/-- The normal form of an unknown function binds a name that comes from its type. -/
theorem results_legal_expanded :
    ∃ Γ, Stated Γ ∧
      (Γ.rep 9 (.var {} "f")).outcome = .ok (.the (.pi "x" (.const .nat) (.const .nat))
        (.lam "x" (.app (.var "f") (.var "x")))) ∧
      (Term.the (.pi "x" (.const .nat) (.const .nat))
        (.lam "x" (.app (.var "f") (.var "x")))).isLegal := by
  have hd : (elaborate 9 [] (.free "f" .natToNat)).outcome = .ok _ := rfl
  have hΓ : Stated _ := ⟨_, .cons .nil ⟨by decide, 9, .passing, .declare hd rfl⟩⟩
  exact ⟨_, hΓ, rfl, (results_legal hΓ 9 (.var {} "f") .natToNat).2.2.2.1 _ rfl⟩

end Context

end LittleTypes
