import LittleTypes.Proofs.Sense.Normal

/-!
# What types look like

The shape of a type in the contexts of a situation can be told from its normal form, so a type has
the same shape in every setting.  The same holds of numbers.
-/

namespace LittleTypes

open Idealized (Runs Reads ReadRuns Looks SameType SameNat TypeAt Size)

instance : Nonempty Idealized.Value := ⟨.const .nat⟩

instance : Nonempty Idealized.Closure := ⟨.constant (.const .nat)⟩

/-- A shape of types: whether a type has it can be told from any type that is the same, and from
its normal form. -/
structure TypeFormer {β : Type} (f : β → Idealized.Value) : Prop where
  inSight : ∀ b, (f b).InSight
  injective : Function.Injective f
  same : ∀ {o X Y b}, SameType o X Y → Looks X (f b) → ∃ b', Looks Y (f b')
  term : ∀ {k θ X N t b}, Looks X (f b) → Reads k (.type X) N → t.nameless θ k = N →
    ∀ ρ, ∃ b', Runs (Idealized.eval ρ t) (f b')

namespace TypeFormer

theorem pi : TypeFormer fun p : String × Idealized.Value × Idealized.Closure ↦
    .pi p.1 p.2.1 p.2.2 where
  inSight _ := .intro
  injective := by rintro ⟨x, d, c⟩ ⟨x', d', c'⟩ ⟨⟩; rfl
  same h hX := by
    obtain ⟨x, d, c, hY, -⟩ := TypeAt.of_pi h hX
    exact ⟨(x, d, c), hY⟩
  term hX hN ht ρ := by
    cases hN.of_type hX with
    | read _ hNext =>
      obtain ⟨Y, -, hY⟩ := ReadRuns.thenRead_iff.1 hNext
      cases hY with
      | read _ hd =>
        cases hd
        obtain ⟨x, a, b, rfl, -⟩ := Spells.of_pi (c := false) ht
        exact ⟨(x, _, _), Runs.eval_iff.2 (.done _)⟩

theorem sigma :
    TypeFormer fun p : String × Idealized.Value × Idealized.Closure ↦ .sigma p.1 p.2.1 p.2.2 where
  inSight _ := .intro
  injective := by rintro ⟨x, d, c⟩ ⟨x', d', c'⟩ ⟨⟩; rfl
  same h hX := by
    obtain ⟨x, d, c, hY, -⟩ := TypeAt.of_sigma h hX
    exact ⟨(x, d, c), hY⟩
  term hX hN ht ρ := by
    cases hN.of_type hX with
    | read _ hNext =>
      obtain ⟨Y, -, hY⟩ := ReadRuns.thenRead_iff.1 hNext
      cases hY with
      | read _ hd =>
        cases hd
        obtain ⟨x, a, b, rfl, -⟩ := Spells.of_sigma (c := false) ht
        exact ⟨(x, _, _), Runs.eval_iff.2 (.done _)⟩

theorem list : TypeFormer (Idealized.Value.unary .list) where
  inSight _ := .intro
  injective := by rintro e e' ⟨⟩; rfl
  same h hX := by
    obtain ⟨e, hY, -⟩ := TypeAt.of_list h hX
    exact ⟨e, hY⟩
  term hX hN ht ρ := by
    cases hN.of_type hX with
    | read _ hd =>
      cases hd
      obtain ⟨a, rfl, -⟩ := Spells.of_unary (c := false) ht
      exact ⟨_, Runs.eval_iff.2 (.done _)⟩

theorem vec : TypeFormer fun p : Idealized.Value × Idealized.Value ↦ .binary .vec p.1 p.2 where
  inSight _ := .intro
  injective := by rintro ⟨a, b⟩ ⟨a', b'⟩ ⟨⟩; rfl
  same h hX := by
    obtain ⟨e, l, hY, -⟩ := TypeAt.of_vec h hX
    exact ⟨(e, l), hY⟩
  term hX hN ht ρ := by
    cases hN.of_type hX with
    | read _ hNext =>
      cases hNext with
      | read _ hd =>
        cases hd
        obtain ⟨a, b, rfl, -⟩ := Spells.of_binary (c := false) ht
        exact ⟨(_, _), Runs.eval_iff.2 (.done _)⟩

theorem either : TypeFormer fun p : Idealized.Value × Idealized.Value ↦
    .binary .either p.1 p.2 where
  inSight _ := .intro
  injective := by rintro ⟨a, b⟩ ⟨a', b'⟩ ⟨⟩; rfl
  same h hX := by
    obtain ⟨l, r, hY, -⟩ := TypeAt.of_either h hX
    exact ⟨(l, r), hY⟩
  term hX hN ht ρ := by
    cases hN.of_type hX with
    | read _ hNext =>
      cases hNext with
      | read _ hd =>
        cases hd
        obtain ⟨a, b, rfl, -⟩ := Spells.of_binary (c := false) ht
        exact ⟨(_, _), Runs.eval_iff.2 (.done _)⟩

theorem equal : TypeFormer fun p : Idealized.Value × Idealized.Value × Idealized.Value ↦
    .equal p.1 p.2.1 p.2.2 where
  inSight _ := .intro
  injective := by rintro ⟨t, a, b⟩ ⟨t', a', b'⟩ ⟨⟩; rfl
  same h hX := by
    obtain ⟨t, a, b, hY, -⟩ := TypeAt.of_equal h hX
    exact ⟨(t, a, b), hY⟩
  term hX hN ht ρ := by
    cases hN.of_type hX with
    | read _ hNext =>
      cases hNext with
      | read _ hNext =>
        cases hNext with
        | read _ hd =>
          cases hd
          obtain ⟨u, a, b, rfl, -⟩ := Spells.of_equal (c := false) ht
          exact ⟨(_, _, _), Runs.eval_iff.2 (.done _)⟩

end TypeFormer

namespace Situation

variable {R : Regime} {J : Type} {S : Situation R J} {s : Size} {F v : Sense J} {t : J → Term}

/-- What is seen in each setting, chosen once for all. -/
theorem sees_of_exists {β : Type} [Nonempty β] {f : β → Idealized.Value}
    (h : ∀ {o σ}, S.Has o σ → ∃ b, Looks (F σ) (f b)) :
    ∃ g : Setting J → β, S.Sees F fun σ ↦ f (g σ) :=
  ⟨fun σ ↦ Classical.epsilon fun b ↦ Looks (F σ) (f b), fun _ _ hσ ↦
    Classical.epsilon_spec (h hσ)⟩

variable (hS : S.Coherent)

include hS

/-- A type has the same shape in every setting. -/
theorem IsType.sees_former {β : Type} [Nonempty β] {f : β → Idealized.Value} (hf : TypeFormer f)
    (h : S.IsType s F) (ht : S.Spelled (S.readType F) t)
    (hF : ∀ j, ∃ b, Looks (F (S.here j)) (f b)) :
    ∃ g : Setting J → β, S.Sees F fun σ ↦ f (g σ) := by
  refine sees_of_exists fun {o σ} hσ ↦ ?_
  obtain ⟨b, hb⟩ := hF σ.run
  obtain ⟨N, hN, hn⟩ := ht σ.run
  obtain ⟨b', hb'⟩ := hf.term hb hN hn.nameless σ.env
  refine hf.same (h.sameTerm hS ht hσ) (b := b') ?_
  rw [show Sense.ofTerm t σ = f b' from hb'.result_eq]
  exact .of_inSight (hf.inSight b')

/-- A type has a shape in all contexts or in none. -/
theorem IsType.former_or_not {β : Type} {f : β → Idealized.Value} (hf : TypeFormer f)
    (h : S.IsType s F) :
    (∀ j, ∃ b, Looks (F (S.here j)) (f b)) ∨ ∀ j b, ¬Looks (F (S.here j)) (f b) := by
  by_cases hF : ∃ j b, Looks (F (S.here j)) (f b)
  · obtain ⟨j, b, hb⟩ := hF
    exact .inl fun j' ↦ hf.same (TypeAt.sameType (h (.sameness True) (hS.here j j'))) hb
  · exact .inr fun j b hb ↦ hF ⟨j, b, hb⟩

/-! ## Numbers -/

section Numbers

variable (h : S.IsElem (fun _ ↦ .const .nat) v)

include h

/-- Whether a number is zero is the same in all contexts. -/
theorem IsElem.zero_or_not : (∀ j, Looks (v (S.here j)) (.const .zero)) ∨
    ∀ j, ¬Looks (v (S.here j)) (.const .zero) := by
  by_cases hv : ∃ j, Looks (v (S.here j)) (.const .zero)
  · obtain ⟨j, hj⟩ := hv
    exact .inl fun j' ↦ (h (.sameness True) (hS.here j j')).2.sameNat.of_zero hj
  · exact .inr fun j hj ↦ hv ⟨j, hj⟩

/-- Whether a number is a successor is the same in all contexts. -/
theorem IsElem.add1_or_not : (∀ j, ∃ n, Looks (v (S.here j)) (.unary .add1 n)) ∨
    ∀ j n, ¬Looks (v (S.here j)) (.unary .add1 n) := by
  by_cases hv : ∃ j n, Looks (v (S.here j)) (.unary .add1 n)
  · obtain ⟨j, n, hj⟩ := hv
    refine .inl fun j' ↦ ?_
    obtain ⟨n', hn', -⟩ := (h (.sameness True) (hS.here j j')).2.sameNat.of_add1 hj
    exact ⟨n', hn'⟩
  · exact .inr fun j n hj ↦ hv ⟨j, n, hj⟩

variable (ht : S.Spelled (S.readElem (fun _ ↦ .const .nat) v) t)

include ht

/-- A number that is zero in the contexts is zero in every setting. -/
theorem IsElem.sees_zero (hv : ∀ j, Looks (v (S.here j)) (.const .zero)) :
    S.Sees v fun _ ↦ .const .zero := by
  intro o σ hσ
  obtain ⟨N, hN, hn⟩ := ht σ.run
  cases hN.of_value (.of_inSight .intro) (hv σ.run)
  have hr : Runs (Idealized.eval σ.env (t σ.run)) (.const .zero) := by
    rw [Spells.of_const (c := false) hn.nameless]
    exact Runs.eval_iff.2 (.done _)
  have hs := (h.sameTerm hS ht hσ).sameNat
  rw [show Sense.ofTerm t σ = .const .zero from hr.result_eq] at hs
  exact hs.of_zero (.of_inSight .intro)

/-- A number that is a successor in the contexts is one in every setting. -/
theorem IsElem.sees_add1 (hv : ∀ j, ∃ n, Looks (v (S.here j)) (.unary .add1 n)) :
    ∃ n : Sense J, S.Sees v fun σ ↦ .unary .add1 (n σ) := by
  refine sees_of_exists fun {o σ} hσ ↦ ?_
  obtain ⟨N, hN, hn⟩ := ht σ.run
  obtain ⟨n, hvn⟩ := hv σ.run
  obtain ⟨M, rfl⟩ : ∃ M, N = .unary .add1 M := by
    cases hN.of_value (.of_inSight .intro) hvn with
    | read _ hd =>
      cases hd
      exact ⟨_, rfl⟩
  obtain ⟨u, hu, -⟩ := Spells.of_unary (c := false) hn.nameless
  have hr : Runs (Idealized.eval σ.env (t σ.run)) (.unary .add1 (.later (.eval σ.env u))) := by
    rw [hu]
    exact Runs.eval_iff.2 (.done _)
  have hs := (h.sameTerm hS ht hσ).sameNat
  rw [show Sense.ofTerm t σ = _ from hr.result_eq] at hs
  obtain ⟨m, hm, -⟩ := hs.of_add1 (.of_inSight .intro)
  exact ⟨m, hm⟩

end Numbers

end Situation

end LittleTypes
