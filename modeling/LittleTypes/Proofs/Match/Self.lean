import LittleTypes.Proofs.Context.Built
import LittleTypes.Proofs.Match.Elaborate

/-!
# Contexts match themselves

In a context that is built step by step every type and value matches itself when the names of
unknown values are paired with themselves.  So whatever is elaborated there
matches itself, which is to say that it mentions only names that have a value, and normal forms
mention only names of unknown values.
-/

namespace LittleTypes

namespace Context

/-- The names of unknown values, each paired with itself. -/
def unknown (Γ : Context) : Pairing := fun a b ↦ a = b ∧ ∃ t, (a, .free t) ∈ Γ

/-- The names that have a value, each paired with itself. -/
def usable (Γ : Context) : Pairing := fun a b ↦ a = b ∧ (Γ.env.lookup a).isSome

/-- Every type and value matches itself. -/
structure SelfMatched (Γ : Context) : Prop where
  self : Context.Matches Γ.unknown Γ.usable Γ Γ
  claims : ∀ x t, (x, .claim t) ∈ Γ → t.Matches Γ.unknown t

variable {Γ : Context} {x : String} {t v : Value}

theorem unknown_free (h : x ∉ Γ.names) :
    unknown ((x, .free t) :: Γ) = Γ.unknown.bind x x := by
  funext a b
  have hx : ∀ t, (x, Binding.free t) ∉ Γ := fun t ht ↦ h (List.mem_map_of_mem ht)
  simp only [unknown, Pairing.bind, List.mem_cons, Prod.mk.injEq, eq_iff_iff]
  grind

theorem unknown_claim : unknown ((x, .claim t) :: Γ) = Γ.unknown := by
  funext a b
  simp [unknown]

theorem unknown_defn : unknown ((x, .defn t v) :: Γ) = Γ.unknown := by
  funext a b
  simp [unknown]

theorem usable_free : usable ((x, .free t) :: Γ) = Γ.usable.bind x x := by
  funext a b
  simp only [usable, Pairing.bind, env, Env.lookup]
  grind

theorem usable_defn : usable ((x, .defn t v) :: Γ) = Γ.usable.bind x x := by
  funext a b
  simp only [usable, Pairing.bind, env, Env.lookup]
  grind

namespace SelfMatched

theorem nil : SelfMatched [] where
  self := by
    have hno : ∀ a b, ¬ usable [] a b := fun a b h ↦ by simp [usable, env, Env.lookup] at h
    refine ⟨fun a b _ _ h ↦ (hno a b h).elim, fun a b h ↦ (hno a b h).elim, ?_,
      fun a b h ↦ (hno a b h).elim, fun a b h ↦ (hno a b h).elim⟩
    rintro a b ⟨-, t, ht⟩
    cases ht
  claims := nofun

variable (h : Γ.SelfMatched)

include h

theorem free (hx : x ∉ Γ.names) (ht : t.Matches Γ.unknown t) :
    SelfMatched ((x, .free t) :: Γ) where
  self := by
    rw [unknown_free hx, usable_free]
    exact h.self.free hx hx ht
  claims y u hu := by
    rw [unknown_free hx]
    refine (h.claims y u ?_).mono (h.self.unknownWithin.le_bind hx hx)
    simpa using hu

theorem claim (ht : t.Matches Γ.unknown t) : SelfMatched ((x, .claim t) :: Γ) where
  self := by
    rw [unknown_claim]
    refine ⟨h.self.oneToOne, fun a b hab ↦ ?_, h.self.le, h.self.env, h.self.type⟩
    exact ⟨List.mem_cons_of_mem _ (h.self.within a b hab).1,
      List.mem_cons_of_mem _ (h.self.within a b hab).2⟩
  claims y u hu := by
    rw [unknown_claim]
    rcases List.mem_cons.1 hu with e | hu
    · cases e
      exact ht
    · exact h.claims y u hu

theorem defn (ht : t.Matches Γ.unknown t) (hv : v.Matches Γ.unknown v) :
    SelfMatched ((x, .defn t v) :: Γ) where
  self := by
    rw [unknown_defn, usable_defn]
    refine ⟨h.self.oneToOne.bind, h.self.within.cons _ _, ?_, h.self.env.cons x x hv, ?_⟩
    · rintro a b hab
      obtain rfl : a = b := hab.1
      by_cases e : a = x
      · exact .inl ⟨e, e⟩
      · exact .inr ⟨e, e, h.self.le a a hab⟩
    · rintro a b (⟨rfl, rfl⟩ | ⟨ha, hb, hab⟩)
      · exact ⟨t, t, by simp [typeOf?], by simp [typeOf?], ht⟩
      · obtain ⟨u, u', hu, hu', huu'⟩ := h.self.type a b hab
        exact ⟨u, u', by simp [typeOf?, Ne.symm ha, hu], by simp [typeOf?, Ne.symm hb, hu'], huu'⟩
  claims y u hu := by
    rw [unknown_defn]
    refine h.claims y u ?_
    simpa using hu

/-! ## What is elaborated matches itself -/

variable {fuel : Nat}

omit h in
theorem isSome_lookup_env (Γ : Context) (x : String) :
    (Γ.env.lookup x).isSome = (Γ.typeOf? x).isSome := by
  induction Γ with
  | nil => rfl
  | cons b Γ ih =>
    obtain ⟨y, b⟩ := b
    cases b with
    | claim t => exact ih
    | free t | defn t v =>
      by_cases e : y = x
      · simp [env, typeOf?, Env.lookup, e]
      · simpa [env, typeOf?, Env.lookup, e] using ih

/-- In the scope of a declaration every name stands for itself. -/
theorem scope : Scope.Matches Eq Γ.unknown Γ.usable Γ.scope Γ.scope where
  context := h.self
  left := nofun
  right := nofun
  resolve := by
    rintro a _ rfl
    have hr : Γ.scope.resolve a = if (Γ.typeOf? a).isSome then some a else none := rfl
    rw [hr, ← isSome_lookup_env Γ a]
    split
    · exact .some ⟨rfl, ‹_›⟩
    · exact .none

theorem isType {e : Source} {t : Term} (ht : (e.isType fuel Γ.scope).outcome = .ok t) :
    t.Matches Γ.usable t :=
  (((e.renamed_self Eq fun _ ↦ rfl).matches fuel).isType h.scope).of_ok ht ht

theorem check {e : Source} {v : Value} {t : Term} (hv : v.Matches Γ.unknown v)
    (ht : (e.check fuel Γ.scope v).outcome = .ok t) : t.Matches Γ.usable t :=
  (((e.renamed_self Eq fun _ ↦ rfl).matches fuel).check h.scope hv).of_ok ht ht

theorem synth {e : Source} {j : Judgment} (hj : (e.synth fuel Γ.scope).outcome = .ok j) :
    j.Matches Γ.usable j :=
  (((e.renamed_self Eq fun _ ↦ rfl).matches fuel).synth h.scope).of_ok hj hj

theorem eval {t : Term} {v : Value} (ht : t.Matches Γ.usable t) (hv : Γ.eval fuel t = .ok v) :
    v.Matches Γ.unknown v :=
  (h.self.eval ht).of_ok hv hv

end SelfMatched

/-- The type of a claim matches itself. -/
theorem SelfMatched.claimType (h : Γ.SelfMatched) (hx : Γ.binding? x = some (.claim t)) :
    t.Matches Γ.unknown t := by
  obtain ⟨l₁, l₂, rfl, -⟩ := List.lookup_eq_some_iff.1 hx
  exact h.claims x t (by simp)

/-- A context that is built matches itself. -/
theorem Built.selfMatched {fuel : Nat} {es : List Entry} {Γ : Context} (h : Built fuel es Γ) :
    Γ.SelfMatched := by
  refine Built.induction (P := fun _ Γ ↦ Γ.SelfMatched) .nil ?_ ?_ ?_ ?_ h
  · intro _ Γ x type t v ih hx ht hv
    exact ih.free (binds_eq_false_iff.1 hx) (ih.eval (ih.isType ht) hv)
  · intro _ Γ x type t v ih ht hv
    exact ih.claim (ih.eval (ih.isType ht) hv)
  · intro _ Γ x type e t tv e' v ih _ ht htv he hv
    have htv := ih.eval (ih.isType ht) htv
    exact ih.defn htv (ih.eval (ih.check htv he) hv)
  · intro _ Γ x e tv e' v ih _ hx he hv
    have htv := ih.claimType hx
    exact ih.defn htv (ih.eval (ih.check htv he) hv)

end Context

namespace Session

/-- What is true of the context of a session: it matches itself, nothing in it is unknown, and a
name that is only claimed has no value. -/
structure Settled (Γ : Context) : Prop where
  selfMatched : Γ.SelfMatched
  known : ∀ x t, (x, .free t) ∉ Γ
  claimed : ∀ x t, Γ.binding? x = some (.claim t) → Γ.env.lookup x = none

/-- A name that is only claimed has no value. -/
theorem lookup_claimed_run (fuel : Nat) (cs : List Command) : ∀ x t,
    (run fuel {} cs).context.binding? x = some (.claim t) →
      (run fuel {} cs).context.env.lookup x = none := by
  refine run_induction (P := fun Γ ↦ ∀ x t, Γ.binding? x = some (.claim t) →
    Γ.env.lookup x = none) nofun ?_ ?_ cs
  · intro Γ Δ loc x type ih h y u hy
    obtain ⟨-, hx, t, v, -, -, rfl⟩ := claim_eq_ok h
    change Γ.env.lookup y = none
    by_cases e : y = x
    · rw [e, ← Option.isNone_iff_eq_none, ← Option.isSome_eq_false_iff,
        Context.SelfMatched.isSome_lookup_env,
        Context.typeOf?_eq_none (Context.binds_eq_false_iff.1 hx)]
      rfl
    · exact ih y u (Context.binding?_cons_of_ne e _ ▸ hy)
  · intro Γ Δ loc x e ih h y u hy
    obtain ⟨type, t, v, -, -, -, rfl⟩ := define_eq_ok h
    by_cases e : y = x
    · simp [Context.binding?, e] at hy
    · rw [Context.env, Env.lookup, if_neg (Ne.symm e)]
      exact ih y u (Context.binding?_cons_of_ne e _ ▸ hy)

theorem settled_run (fuel : Nat) (cs : List Command) : Settled (run fuel {} cs).context := by
  obtain ⟨es, hes⟩ := exists_built_run fuel cs
  exact ⟨hes.selfMatched, (proper_run fuel cs).known, lookup_claimed_run fuel cs⟩

end Session

end LittleTypes
