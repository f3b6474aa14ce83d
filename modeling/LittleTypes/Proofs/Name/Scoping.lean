import LittleTypes.Proofs.Match.Self

/-!
# Names in scope

What elaboration answers mentions only names that have a value, and normal forms mention only names
of unknown values.  What elaboration answers does not depend on the names that were chosen for bound
variables.
-/

namespace LittleTypes

namespace Context

variable {fuel : Nat} {Γ : Context} {t : Term}

/-- What matches itself at the names that have a value mentions no other names. -/
theorem isSome_of_mem_free (h : t.Matches Γ.usable t) {x : String} (hx : x ∈ t.free) :
    (Γ.env.lookup x).isSome := by
  obtain ⟨_, -, hxy⟩ := h.exists_of_mem_free hx
  exact hxy.2

/-- What matches itself at the names of unknown values mentions no other names. -/
theorem exists_free_of_mem_free (h : t.Matches Γ.unknown t) {x : String} (hx : x ∈ t.free) :
    ∃ type, (x, .free type) ∈ Γ := by
  obtain ⟨_, -, hxy⟩ := h.exists_of_mem_free hx
  exact hxy.2

/-- A name that has a value is unknown or defined. -/
theorem mem_of_isSome_lookup {Γ : Context} {x : String} (h : (Γ.env.lookup x).isSome) :
    (∃ type, (x, .free type) ∈ Γ) ∨ ∃ type v, (x, .defn type v) ∈ Γ := by
  induction Γ with
  | nil => cases h
  | cons b Γ ih =>
    obtain ⟨y, b⟩ := b
    by_cases e : y = x
    · subst e
      cases b with
      | free t => exact .inl ⟨t, List.mem_cons_self⟩
      | defn t v => exact .inr ⟨t, v, List.mem_cons_self⟩
      | claim t => grind [env]
    · have hΓ : ((env Γ).lookup x).isSome := by
        cases b <;> simpa [env, Env.lookup, e] using h
      grind

/-! ## Normal forms -/

namespace SelfMatched

variable (h : Γ.SelfMatched)

include h

theorem readBackType {v : Value} (hv : v.Matches Γ.unknown v)
    (ht : (Γ.scope.readBackType fuel v).outcome = .ok t) : t.Matches Γ.unknown t :=
  (h.scope.readBackType hv).of_ok ht ht

theorem scopeEval {v : Value} (ht : t.Matches Γ.usable t)
    (hv : (Γ.scope.eval fuel t).outcome = .ok v) : v.Matches Γ.unknown v :=
  (h.scope.eval ht).of_ok hv hv

theorem rep {e : Source} (ht : (Γ.rep fuel e).outcome = .ok t) : t.Matches Γ.unknown t := by
  obtain ⟨j, hj, ht⟩ := Checked.outcome_bind_eq_ok_iff.1 ht
  obtain ⟨T, hT, ht⟩ := Checked.outcome_bind_eq_ok_iff.1 ht
  obtain ⟨v, hv, ht⟩ := Checked.outcome_bind_eq_ok_iff.1 ht
  obtain ⟨T', hT', ht⟩ := Checked.outcome_bind_eq_ok_iff.1 ht
  obtain ⟨v', hv', ht⟩ := Checked.outcome_bind_eq_ok_iff.1 ht
  cases ht
  have hj := h.synth hj
  have hT := h.scopeEval hj.type hT
  have hv := h.scopeEval hj.term hv
  exact .the (h.readBackType hT hT') ((h.scope.readBack hT hv).of_ok hv' hv')

theorem normType {e : Source} (ht : (Γ.normType fuel e).outcome = .ok t) :
    t.Matches Γ.unknown t := by
  obtain ⟨T, hT, ht⟩ := Checked.outcome_bind_eq_ok_iff.1 ht
  obtain ⟨v, hv, ht⟩ := Checked.outcome_bind_eq_ok_iff.1 ht
  exact h.readBackType (h.scopeEval (h.isType hT) hv) ht

omit h in
theorem onStop_eq_ok {α : Type} {x : Checked α} {f : Stop → Checked α} {a : α}
    (h : (x.onStop f).outcome = .ok a) : x.outcome = .ok a ∨ ∃ s, (f s).outcome = .ok a := by
  unfold Checked.onStop at h
  split at h
  · exact .inr ⟨_, h⟩
  · exact .inl h

theorem norm {e : Source} (ht : (Γ.norm fuel e).outcome = .ok t) : t.Matches Γ.unknown t := by
  rcases onStop_eq_ok ht with ht | ⟨s, ht⟩
  · exact h.rep ht
  · rcases onStop_eq_ok ht with ht | ⟨_, ht⟩
    · exact h.normType ht
    · cases ht

end SelfMatched

end Context

/-! ## Sessions -/

namespace Session

variable {fuel : Nat} {Γ : Context}

/-- The normal forms of a session are closed. -/
theorem Settled.free_norm (h : Settled Γ) {e : Source} {t : Term}
    (ht : (Γ.norm fuel e).outcome = .ok t) : t.free = [] := by
  refine List.eq_nil_iff_forall_not_mem.2 fun x hx ↦ ?_
  obtain ⟨type, hx⟩ := Context.exists_free_of_mem_free (h.selfMatched.norm ht) hx
  exact h.known x type hx

/-- A definition mentions only what is defined before, and not itself. -/
theorem Settled.free_define (h : Settled Γ) {x : String} {type : Value} {e : Source} {t : Term}
    (hx : Γ.binding? x = some (.claim type)) (ht : (e.check fuel Γ.scope type).outcome = .ok t) :
    x ∉ t.free ∧ ∀ y ∈ t.free, ∃ type v, (y, .defn type v) ∈ Γ := by
  have hm := h.selfMatched.check (h.selfMatched.claimType hx) ht
  have hfree : ∀ y ∈ t.free, (Γ.env.lookup y).isSome := fun y hy ↦
    Context.isSome_of_mem_free hm hy
  refine ⟨fun hmem ↦ ?_, fun y hy ↦ ?_⟩
  · have hs := hfree x hmem
    rw [h.claimed x type hx] at hs
    cases hs
  · rcases Context.mem_of_isSome_lookup (hfree y hy) with ⟨type, hy⟩ | hy
    · exact absurd hy (h.known y type)
    · exact hy

end Session

/-- A function on numbers that is defined, after an attempt to define it by itself, and another that
is claimed. -/
def Session.twoFunctions : List Session.Command :=
  [.claim {} "g" .natToNat, .define {} "g" (.expanded "g" "a"),
    .define {} "g" (.lam {} [⟨{}, "a"⟩] (.var {} "a")), .claim {} "h" .natToNat]

/-- **Scope safety.**  What is elaborated in a context that is built mentions only names that have a
value there, and its normal form only names that stand for unknown values.  The context of a session
is built, and nothing in it is unknown.  So the normal forms of a session are closed, and each of its
definitions mentions only what is defined before. -/
theorem scope_safety (fuel : Nat) :
    (∀ es Γ, Context.Built fuel es Γ → ∀ e : Source,
      (∀ j, (e.synth fuel Γ.scope).outcome = .ok j →
        ∀ x ∈ j.toTerm.free, (Γ.env.lookup x).isSome) ∧
      (∀ (type : Source) t v e', (type.isType fuel Γ.scope).outcome = .ok t →
        Γ.eval fuel t = .ok v → (e.check fuel Γ.scope v).outcome = .ok e' →
          ∀ x ∈ e'.free, (Γ.env.lookup x).isSome) ∧
      (∀ t, (e.isType fuel Γ.scope).outcome = .ok t → ∀ x ∈ t.free, (Γ.env.lookup x).isSome) ∧
      ∀ t, (Γ.rep fuel e).outcome = .ok t ∨ (Γ.norm fuel e).outcome = .ok t ∨
        (Γ.normType fuel e).outcome = .ok t → ∀ x ∈ t.free, ∃ type, (x, .free type) ∈ Γ) ∧
    ∀ cs, let Γ := (Session.run fuel {} cs).context
      (∃ es, Context.Built fuel es Γ) ∧
      (∀ e t, (Γ.norm fuel e).outcome = .ok t → t.free = []) ∧
      ∀ loc x e Δ, (Session.define fuel Γ loc x e).outcome = .ok Δ →
        ∃ type t v, Γ.binding? x = some (.claim type) ∧
          (e.check fuel Γ.scope type).outcome = .ok t ∧ Γ.eval fuel t = .ok v ∧
          Δ = (x, .defn type v) :: Γ ∧ x ∉ t.free ∧
          ∀ y ∈ t.free, ∃ type v, (y, .defn type v) ∈ Γ := by
  refine ⟨fun es Γ hΓ e ↦ ?_, fun cs ↦ ?_⟩
  · have h := hΓ.selfMatched
    refine ⟨fun j hj x hx ↦ ?_, fun type t v e' ht hv he x hx ↦ ?_, fun t ht x hx ↦ ?_,
      fun t ht x hx ↦ ?_⟩
    · have hj := h.synth hj
      exact Context.isSome_of_mem_free (.the hj.type hj.term) hx
    · exact Context.isSome_of_mem_free (h.check (h.eval (h.isType ht) hv) he) hx
    · exact Context.isSome_of_mem_free (h.isType ht) hx
    · rcases ht with ht | ht | ht
      · exact Context.exists_free_of_mem_free (h.rep ht) hx
      · exact Context.exists_free_of_mem_free (h.norm ht) hx
      · exact Context.exists_free_of_mem_free (h.normType ht) hx
  · have h := Session.settled_run fuel cs
    refine ⟨Session.exists_built_run fuel cs, fun e t ht ↦ h.free_norm ht,
      fun loc x e Δ hΔ ↦ ?_⟩
    obtain ⟨type, t, v, hx, ht, hv, rfl⟩ := Session.define_eq_ok hΔ
    exact ⟨type, t, v, hx, ht, hv, rfl, h.free_define hx ht⟩

/-- A function on numbers written out where it is unknown, and one that is claimed and defined. -/
theorem scope_safety_expanded :
    (∃ Γ, Context.Built 9 [.declare (.free "f" .natToNat)] Γ ∧
      (∃ j, (Source.synth 9 Γ.scope (.the {} .natToNat (.expanded "f" "a"))).outcome = .ok j ∧
        ∀ x ∈ j.toTerm.free, (Γ.env.lookup x).isSome) ∧
      (∃ t v e, (Source.natToNat.isType 9 Γ.scope).outcome = .ok t ∧ Γ.eval 9 t = .ok v ∧
        ((Source.expanded "f" "a").check 9 Γ.scope v).outcome = .ok e ∧
          ∀ x ∈ e.free, (Γ.env.lookup x).isSome) ∧
      ∃ t, (Γ.rep 9 (.var {} "f")).outcome = .ok t ∧ ∀ x ∈ t.free, ∃ type, (x, .free type) ∈ Γ) ∧
    ∃ Γ, Γ = (Session.run 9 {} Session.twoFunctions).context ∧
      (∃ j, (Source.synth 9 Γ.scope (.var {} "g")).outcome = .ok j ∧
        ∀ x ∈ j.toTerm.free, (Γ.env.lookup x).isSome) ∧
      (∃ t, (Γ.norm 9 (.var {} "g")).outcome = .ok t ∧ t.free = []) ∧
      ∃ Δ, (Session.define 9 Γ {} "h" (.expanded "g" "a")).outcome = .ok Δ ∧
        ∃ type t v, Γ.binding? "h" = some (.claim type) ∧
          ((Source.expanded "g" "a").check 9 Γ.scope type).outcome = .ok t ∧
          Γ.eval 9 t = .ok v ∧ Δ = ("h", .defn type v) :: Γ ∧ "h" ∉ t.free ∧
          ∀ y ∈ t.free, ∃ type v, (y, .defn type v) ∈ Γ := by
  have hΓ : Context.Built 9 [.declare (.free "f" .natToNat)] _ :=
    Context.Built.nil.free rfl rfl rfl
  have hsynth := ((scope_safety 9).1 _ _ hΓ (.the {} .natToNat (.expanded "f" "a"))).1
  have hcheck := ((scope_safety 9).1 _ _ hΓ (.expanded "f" "a")).2.1 .natToNat
  have hrep := ((scope_safety 9).1 _ _ hΓ (.var {} "f")).2.2.2
  obtain ⟨⟨es, hes⟩, hnorm, hdefine⟩ := (scope_safety 9).2 Session.twoFunctions
  exact ⟨⟨_, hΓ, ⟨_, rfl, hsynth _ rfl⟩, ⟨_, _, _, rfl, rfl, rfl, hcheck _ _ _ rfl rfl rfl⟩,
    ⟨_, rfl, hrep _ (.inl rfl)⟩⟩, _, rfl,
    ⟨_, rfl, ((scope_safety 9).1 _ _ hes (.var {} "g")).1 _ rfl⟩,
    ⟨_, rfl, hnorm (.var {} "g") _ rfl⟩,
    ⟨_, rfl, hdefine {} _ _ _ rfl⟩⟩

/-- Renamings of a source term, elaborated in a context that is built, both succeed with α-equivalent
answers, both fail with the same code at the same location, or both do not finish, for the same
reason. -/
theorem verdict_renamed {fuel : Nat} {es : List Context.Entry} {Γ : Context}
    (hΓ : Context.Built fuel es Γ) {e e' : Source} (he : e.Renamed Eq e') :
    Verdict (fun j j' ↦ j.type.alphaEquiv j'.type ∧ j.term.alphaEquiv j'.term)
      (e.synth fuel Γ.scope).outcome (e'.synth fuel Γ.scope).outcome ∧
    Verdict (fun t t' ↦ t.alphaEquiv t')
      (e.isType fuel Γ.scope).outcome (e'.isType fuel Γ.scope).outcome ∧
    ∀ (type : Source) t v, (type.isType fuel Γ.scope).outcome = .ok t → Γ.eval fuel t = .ok v →
      Verdict (fun t t' ↦ t.alphaEquiv t')
        (e.check fuel Γ.scope v).outcome (e'.check fuel Γ.scope v).outcome := by
  have h := hΓ.selfMatched
  have hE := he.matches fuel
  have alpha {t t' : Term} (ht : t.Matches Γ.usable t') : t.alphaEquiv t' :=
    ht.alphaEquiv fun hab ↦ hab.1
  refine ⟨(hE.synth h.scope).mono fun j j' hj ↦ ⟨alpha hj.type, alpha hj.term⟩,
    (hE.isType h.scope).mono fun t t' ht ↦ alpha ht, fun type t v ht hv ↦ ?_⟩
  exact (hE.check h.scope (h.eval (h.isType ht) hv)).mono fun t t' ht ↦ alpha ht

end LittleTypes
