import LittleTypes.Proofs.Likeness.Reader
import LittleTypes.Proofs.Match.Self

/-!
# Closures implement substitution

A function that is applied does not copy its argument into its body: the body is evaluated where the
bound name stands for the argument.  In a context that is built this gives the same normal forms as
the term in which the argument is put for the name, without capture.

The two evaluations resemble each other.  On one side the argument stays in the environment of every
closure that is made on the way, and on the other side it is in the terms, under binders that may
have been renamed.  Nothing is assumed about the types of the terms.
-/

namespace LittleTypes

namespace Term

/-- A name to bind in place of `x` around a body for whose other free names terms are put.  It is
`x` itself, unless one of these terms mentions it. -/
def rebound (σ : String → Term) (x : String) (b : Term) : String :=
  freshName ((b.free.filter (· ≠ x)).flatMap fun z ↦ (σ z).free) x

/-- Puts a term for every free name.  Names are bound anew where they would capture something. -/
def substAll (σ : String → Term) : Term → Term
  | missing => missing
  | var x => σ x
  | hole l t => hole l (t.substAll σ)
  | the t e => the (t.substAll σ) (e.substAll σ)
  | app f a => app (f.substAll σ) (a.substAll σ)
  | numeral n => numeral n
  | quote s => quote s
  | lam x b =>
    let y := rebound σ x b
    lam y (b.substAll (Function.update σ x (var y)))
  | pi x a b =>
    let y := rebound σ x b
    pi y (a.substAll σ) (b.substAll (Function.update σ x (var y)))
  | sigma x a b =>
    let y := rebound σ x b
    sigma y (a.substAll σ) (b.substAll (Function.update σ x (var y)))
  | const k => const k
  | unary k a => unary k (a.substAll σ)
  | binary k a b => binary k (a.substAll σ) (b.substAll σ)
  | equal t l r => equal (t.substAll σ) (l.substAll σ) (r.substAll σ)
  | project k t => project k (t.substAll σ)
  | recursor k t c b s => recursor k (t.substAll σ) (c.substAll σ) (b.substAll σ) (s.substAll σ)
  | induct k t m b s => induct k (t.substAll σ) (m.substAll σ) (b.substAll σ) (s.substAll σ)
  | transport k t m b => transport k (t.substAll σ) (m.substAll σ) (b.substAll σ)
  | indAbsurd t m => indAbsurd (t.substAll σ) (m.substAll σ)
  | trans l r => trans (l.substAll σ) (r.substAll σ)
  | cong t c f => cong (t.substAll σ) (c.substAll σ) (f.substAll σ)
  | indVec n t m b s =>
    indVec (n.substAll σ) (t.substAll σ) (m.substAll σ) (b.substAll σ) (s.substAll σ)

/-- Puts a term for one name, without capture. -/
def subst (t : Term) (x : String) (a : Term) : Term := t.substAll (Function.update var x a)

example : (lam "y" (app (var "x") (var "y"))).subst "x" (var "y") =
    lam "y₁" (app (var "y") (var "y₁")) := by decide

example : (lam "x" (app (var "x") (var "y"))).subst "x" (var "y") =
    lam "x" (app (var "x") (var "y")) := by decide

variable {S : Filling} {σ : String → Term}

/-- Under a binder the terms that are put for names still fit, since they do not mention the name
that is bound there. -/
theorem bind_rebound {x : String} {b : Term} (h : ∀ z ∈ b.free, z ≠ x → S z (σ z)) {z : String}
    (hz : z ∈ b.free) :
    S.bind x (rebound σ x b) z (Function.update σ x (var (rebound σ x b)) z) := by
  by_cases e : z = x
  · exact .inl ⟨e, by rw [e, Function.update_self]⟩
  · rw [Function.update_of_ne e]
    refine .inr ⟨e, fun hy ↦ ?_, h z hz e⟩
    refine freshName_not_mem ((b.free.filter (· ≠ x)).flatMap fun z ↦ (σ z).free) x ?_
    exact List.mem_flatMap.2 ⟨z, by simp [hz, e], hy⟩

/-- Substitution fills in a term. -/
theorem filled_substAll {H : Pairing} (hH : ∀ x y, H x y) (t : Term)
    (h : ∀ z ∈ t.free, S z (σ z)) : t.Filled H True S (t.substAll σ) := by
  induction t generalizing S σ with
  | missing => exact .missing trivial
  | var x => exact .var (h x (by simp [free]))
  | lam x b ih =>
    exact .lam (hH _ _) (ih fun z ↦ bind_rebound fun z hz e ↦ h z (by simp [free, hz, e]))
  | pi x a b iha ihb =>
    exact .pi (hH _ _) (iha fun z hz ↦ h z (by simp [free, hz]))
      (ihb fun z ↦ bind_rebound fun z hz e ↦ h z (by simp [free, hz, e]))
  | sigma x a b iha ihb =>
    exact .sigma (hH _ _) (iha fun z hz ↦ h z (by simp [free, hz]))
      (ihb fun z ↦ bind_rebound fun z hz e ↦ h z (by simp [free, hz, e]))
  | _ => constructor <;> apply_assumption <;> exact fun z hz ↦ h z (by simp [free, hz])

end Term

/-- Only answers are compared, and the names that are bound do not matter. -/
def Likeness.loose : Likeness := ⟨False, fun _ _ ↦ True, fun _ ↦ trivial⟩

/-! ## Evaluation -/

/-- To put a term for a name is the same as to let the name stand for its value. -/
theorem Env.SelfResembling.cons_later {L : Likeness} {N : Pairing} {ρ : Env}
    (h : ρ.SelfResembling L N) (hL : ¬L.strict) (n : Nat) (x : String) (a : Term) :
    Env.Resembles L N (fun z u ↦ u = Function.update Term.var x a z)
      (.cons x ((machine n).later .passing (.eval ρ a)) ρ) ρ := by
  rintro z _ rfl τ hτ fuel
  by_cases e : z = x
  · subst e
    rw [Function.update_self] at hτ ⊢
    rw [fetch_cons_self]
    refine ⟨fun v w hv hw ↦ ?_, fun s ↦ (hL s).elim⟩
    cases hv
    refine .ofForce (fun s ↦ (hL s).elim) ?_
    -- the delayed value is that of the argument, seen through
    rw [Machine.later, Value.force_delay]
    have hn (s : L.strict) : n = fuel + 1 := (hL s).elim
    have ha := (h.eval hn hτ).bind fun _ _ ↦ Facet.Resembles.force
    rwa [hw] at ha
  · rw [Function.update_of_ne e] at hτ ⊢
    rw [Machine.eval_var, fetch_congr (lookup_cons_of_ne (Ne.symm e) _ ρ)]
    exact h.fetch (hτ z (by simp [Term.free]))

namespace Context

variable {fuel : Nat} {es : List Context.Entry} {Γ : Context}

theorem unknown_within (Γ : Context) : Γ.unknown.Within Γ Γ := by
  rintro a _ ⟨rfl, t, ht⟩
  exact ⟨List.mem_map_of_mem ht, List.mem_map_of_mem ht⟩

/-- In a context that is built every value resembles itself. -/
theorem Built.selfResembling (L : Likeness) (h : Built fuel es Γ) :
    Γ.env.SelfResembling L Γ.unknown := by
  refine Built.induction (P := fun _ Γ ↦ Γ.env.SelfResembling L Γ.unknown) nofun ?_ ?_ ?_ ?_ h
  · intro _ Γ x type t v ih hx _ hv
    have hx := binds_eq_false_iff.1 hx
    have hle := Γ.unknown_within.le_bind hx hx
    rw [unknown_free hx]
    exact (ih.mono hle).cons x
      (.ofSeen (.neu ((ih.eval_self hv).mono hle) (.var Pairing.bind_self)))
  · intro _ Γ x type t v ih _ _
    rw [unknown_claim]
    exact ih
  · intro _ Γ x type e t tv e' v ih _ _ _ _ hv
    rw [unknown_defn]
    exact ih.cons x (ih.eval_self hv)
  · intro _ Γ x e tv e' v ih _ _ _ hv
    rw [unknown_defn]
    exact ih.cons x (ih.eval_self hv)

/-- An applied function and its body with the argument put for the name have values that resemble
each other. -/
theorem eval_app_lam (h : Γ.env.SelfResembling .loose Γ.unknown) (n n' : Nat) (x : String)
    (a b : Term) : Likeness.loose.AkinValue Γ.unknown (Γ.eval n (.app (.lam x b) a))
      (Γ.eval n' (b.subst x a)) := by
  match n with
  | 0 | 1 => exact ⟨nofun, nofun⟩
  | n + 2 =>
    have hb := Term.filled_substAll (H := Likeness.loose.hints) (fun _ _ ↦ trivial) b
      (S := fun z u ↦ u = Function.update Term.var x a z) fun _ _ ↦ rfl
    have hm : Likeness.loose.Concur (machine n) (machine n') := machine_concur nofun
    exact hm.eval (h.cons_later nofun (n + 1) x a) hb

/-- **Closures implement substitution.**  In a context that is built, a function that is applied to an
argument has the same normal form, up to the names of bound variables, as its body in which the
argument is put for the name, whatever the terms are and at whatever type they are read back,
provided that both are read back at all. -/
theorem normalize_app_lam_alphaEquiv (h : Built fuel es Γ) (n n' : Nat) (x : String)
    (type? : Option Term) (a b : Term) {t t' : Term}
    (ht : Γ.normalize n type? (.app (.lam x b) a) = .ok t)
    (ht' : Γ.normalize n' type? (b.subst x a) = .ok t') : t.alphaEquiv t' := by
  have hΓ := h.selfResembling .loose
  have hfits : Likeness.loose.Fits Γ.unknown Γ Γ := .within (fun _ _ ↦ trivial) Γ.unknown_within
  have hread : Likeness.loose.Reads (reader n) (reader n') := reader_reads nofun
  have hv := eval_app_lam hΓ n n' x a b
  have hakin : Likeness.loose.AkinTerm Γ.unknown (Γ.normalize n type? (.app (.lam x b) a))
      (Γ.normalize n' type? (b.subst x a)) := by
    cases type? with
    | none => exact hv.lift.bind fun _ _ hv ↦ hread.type hfits hv
    | some type =>
      refine (hΓ.eval nofun fun _ _ ↦ rfl).lift.bind fun _ _ hT ↦ ?_
      exact hv.lift.bind fun _ _ hv ↦ hread.value hfits hT hv
  exact (hakin.answer t t' ht ht').toMatches.alphaEquiv And.left

/-- The inner function binds the name of the argument, which it must not capture. -/
theorem normalize_app_lam_alphaEquiv_capture :
    ∃ Γ t t', Built 9 [.declare (.free "y" (.const {} .nat))] Γ ∧
      Γ.normalize 9 (some (.pi "z" (.const .nat) (.const .nat)))
        (.app (.lam "x" (.lam "y" (.var "x"))) (.var "y")) = .ok t ∧
      Γ.normalize 7 (some (.pi "z" (.const .nat) (.const .nat)))
        ((Term.lam "y" (.var "x")).subst "x" (.var "y")) = .ok t' ∧
      t = .lam "y₁" (.var "y") ∧ t.alphaEquiv t' := by
  have hΓ : Built 9 [.declare (.free "y" (.const {} .nat))] _ := Built.nil.free rfl rfl rfl
  refine ⟨_, .lam "y₁" (.var "y"), .lam "y₁" (.var "y"), hΓ, rfl, rfl, rfl, ?_⟩
  exact normalize_app_lam_alphaEquiv hΓ 9 7 "x" (some (.pi "z" (.const .nat) (.const .nat)))
    (.var "y") (.lam "y" (.var "x")) rfl rfl

end Context

end LittleTypes
