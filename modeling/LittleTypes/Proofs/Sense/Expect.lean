import LittleTypes.Proofs.Sense.Data
import LittleTypes.Proofs.Sense.Scope

/-!
# Expected shapes

A rule that asks for the shape of a type finds it in all runs or in none.  If it is found, the type
has this shape in every setting, and the parts that are found mean the parts that it has there.
-/

namespace LittleTypes

open Idealized (Runs Looks Size)

variable {R : Regime} {J : Type}

/-- What is asked of values tells whether what they stand for has a shape, and what it is made of.
-/
def Views (R : Regime) {α β : Type} (view : Value → Option α) (f : β → Idealized.Value)
    (Q : Levels → (R.Index → α) → β → Prop) : Prop :=
  ∀ ⦃θ : Levels⦄ ⦃w : R.Index → Value⦄ ⦃W : Idealized.Value⦄, Stands R θ .value w W →
    (∃ a b, W = f b ∧ Q θ a b ∧ ∀ n, view (w n) = some (a n)) ∨
      (∀ b, W ≠ f b) ∧ ∀ n, view (w n) = none

namespace Views

theorem pi : Views R Value.pi?
    (fun p : String × Idealized.Value × Idealized.Closure ↦ .pi p.1 p.2.1 p.2.2) fun θ a b ↦
      ∃ d c, (a = fun n ↦ (b.1, d n, c n)) ∧ Stands R θ .value d b.2.1 ∧
        Stands R θ .closure c b.2.2 := by
  intro θ w W h
  cases h with
  | pi x hd hc => exact .inl ⟨_, (x, _, _), rfl, ⟨_, _, rfl, hd, hc⟩, fun _ ↦ rfl⟩
  | _ => exact .inr ⟨nofun, fun _ ↦ rfl⟩

theorem sigma : Views R Value.sigma?
    (fun p : String × Idealized.Value × Idealized.Closure ↦ .sigma p.1 p.2.1 p.2.2) fun θ a b ↦
      ∃ d c, (a = fun n ↦ (d n, c n)) ∧ Stands R θ .value d b.2.1 ∧
        Stands R θ .closure c b.2.2 := by
  intro θ w W h
  cases h with
  | sigma x hd hc => exact .inl ⟨_, (x, _, _), rfl, ⟨_, _, rfl, hd, hc⟩, fun _ ↦ rfl⟩
  | _ => exact .inr ⟨nofun, fun _ ↦ rfl⟩

theorem list : Views R Value.list? (.unary .list) fun θ a b ↦ Stands R θ .value a b := by
  intro θ w W h
  cases h with
  | unary k he =>
    cases k with
    | list => exact .inl ⟨_, _, rfl, he, fun _ ↦ rfl⟩
    | _ => exact .inr ⟨nofun, fun _ ↦ rfl⟩
  | _ => exact .inr ⟨nofun, fun _ ↦ rfl⟩

theorem vec : Views R Value.vec?
    (fun p : Idealized.Value × Idealized.Value ↦ .binary .vec p.1 p.2) fun θ a b ↦
    ∃ e l, (a = fun n ↦ (e n, l n)) ∧ Stands R θ .value e b.1 ∧ Stands R θ .value l b.2 := by
  intro θ w W h
  cases h with
  | binary k he hl =>
    cases k with
    | vec => exact .inl ⟨_, (_, _), rfl, ⟨_, _, rfl, he, hl⟩, fun _ ↦ rfl⟩
    | _ => exact .inr ⟨nofun, fun _ ↦ rfl⟩
  | _ => exact .inr ⟨nofun, fun _ ↦ rfl⟩

theorem either : Views R Value.either?
    (fun p : Idealized.Value × Idealized.Value ↦ .binary .either p.1 p.2) fun θ a b ↦
    ∃ l r, (a = fun n ↦ (l n, r n)) ∧ Stands R θ .value l b.1 ∧ Stands R θ .value r b.2 := by
  intro θ w W h
  cases h with
  | binary k hl hr =>
    cases k with
    | either => exact .inl ⟨_, (_, _), rfl, ⟨_, _, rfl, hl, hr⟩, fun _ ↦ rfl⟩
    | _ => exact .inr ⟨nofun, fun _ ↦ rfl⟩
  | _ => exact .inr ⟨nofun, fun _ ↦ rfl⟩

theorem equal : Views R Value.equal?
    (fun p : Idealized.Value × Idealized.Value × Idealized.Value ↦ .equal p.1 p.2.1 p.2.2)
    fun θ a b ↦ ∃ t l r, (a = fun n ↦ (t n, l n, r n)) ∧ Stands R θ .value t b.1 ∧
      Stands R θ .value l b.2.1 ∧ Stands R θ .value r b.2.2 := by
  intro θ w W h
  cases h with
  | equal ht hl hr => exact .inl ⟨_, (_, _, _), rfl, ⟨_, _, _, rfl, ht, hl, hr⟩, fun _ ↦ rfl⟩
  | _ => exact .inr ⟨nofun, fun _ ↦ rfl⟩

theorem add1 : Views R Value.add1? (.unary .add1) fun θ a b ↦ Stands R θ .value a b := by
  intro θ w W h
  cases h with
  | unary k he =>
    cases k with
    | add1 => exact .inl ⟨_, _, rfl, he, fun _ ↦ rfl⟩
    | _ => exact .inr ⟨nofun, fun _ ↦ rfl⟩
  | _ => exact .inr ⟨nofun, fun _ ↦ rfl⟩

end Views

/-- Whether values stand for zero can be seen. -/
theorem Stands.zero_or_not {θ : Levels} {w : R.Index → Value} {W : Idealized.Value}
    (h : Stands R θ .value w W) :
    (W = .const .zero ∧ ∀ n, w n = .const .zero) ∨ W ≠ .const .zero ∧ ∀ n, w n ≠ .const .zero := by
  cases h with
  | const k =>
    by_cases hk : k = .zero
    · exact .inl ⟨congrArg _ hk, fun _ ↦ congrArg _ hk⟩
    · exact .inr ⟨fun e ↦ hk (by cases e; rfl), fun _ e ↦ hk (by cases e; rfl)⟩
  | _ => exact .inr ⟨nofun, nofun⟩

namespace Situation

variable {S : Situation R J} {s : Size} {F : Sense J} {v : J → R.Index → Value}
  {φ : R.Index → Nat} {ν : Renaming} {E : R.Excuse J}

/-- A value is looked at. -/
theorem Means.force (hv : S.Means v F) {W : J → Idealized.Value}
    (hW : ∀ j, Looks (F (S.here j)) (W j)) :
    R.Meets E R.each (fun j n ↦ Scope.force (v j n)) fun w ↦
      ∀ j, Stands R S.levels .value (w j) (W j) := by
  choose w hw hy using fun j ↦ ((hv j).force).yields (hW j)
  exact .ofEval hw hy

variable (hφ : R.Lasts φ) (hS : S.Coherent)

include hφ hS

/-- A shape is found in all runs or in none. -/
theorem Coherent.expect {α β : Type} [Nonempty β] {view : Value → Option α}
    {f : β → Idealized.Value} {Q : Levels → (R.Index → α) → β → Prop} (hf : TypeFormer f)
    (hview : Views R view f Q)
    {loc : J → Location} (what : String) (hF : S.IsType s F) (hv : S.Means v F) :
    R.Meets E R.each
      (fun j n ↦ (S.scope ν j n).expect (φ n) (loc j) (v j n) what view) fun a ↦
        ∃ g : Setting J → β, S.Sees F (fun σ ↦ f (g σ)) ∧ ∀ j, Q S.levels (a j) (g (S.here j)) := by
  obtain hall | hnone := hF.former_or_not hS hf
  · obtain ⟨t, ht, -⟩ := hS.exists_readBackType hφ ν hF hv
    obtain ⟨g, hg⟩ := hF.sees_former hS hf ht hall
    refine (hv.force fun j ↦ hg (hS.hasHere j)).bind fun w hw ↦ ?_
    have hj : ∀ j, ∃ a, Q S.levels a (g (S.here j)) ∧ ∀ n, view (w j n) = some (a n) := by
      intro j
      obtain ⟨a, b, hb, hQ, ha⟩ | ⟨hne, -⟩ := hview (hw j)
      · exact ⟨a, hf.injective hb ▸ hQ, ha⟩
      · exact absurd rfl (hne _)
    choose a hQ ha using hj
    simp only [ha]
    exact .pure ⟨g, hg, hQ⟩
  · choose W hW using fun j ↦ (hF.self (hS.hasHere j)).looks
    refine (hv.force hW).bind fun w hw ↦ ?_
    have hj : ∀ j n, view (w j n) = none := by
      intro j
      obtain ⟨a, b, hb, -⟩ | ⟨-, hn⟩ := hview (hw j)
      · exact absurd (hb ▸ hW j) (hnone j b)
      · exact hn
    simp only [hj]
    exact (hS.readBackType hφ hF hv).andThen fun _ _ ↦ .stop

/-! ## Each shape -/

section Shapes

variable {loc : J → Location} (hF : S.IsType s F) (hv : S.Means v F)

include hF hv

theorem Coherent.expectPi :
    R.Meets E (fun (p : (J → String) × (J → R.Index → Value) × (J → R.Index → Closure)) j n ↦
        (p.1 j, p.2.1 j n, p.2.2 j n))
      (fun j n ↦ (S.scope ν j n).expectPi (φ n) (loc j) (v j n)) fun p ↦
        ∃ (y : Setting J → String) (d : Sense J) (C : Setting J → Idealized.Closure),
          (S.Sees F fun σ ↦ .pi (y σ) (d σ) (C σ)) ∧ S.Means p.2.1 d ∧
            S.MeansClosure p.2.2 C := by
  refine (hS.expect hφ .pi .pi "a function type" hF hv).map fun a ↦ ?_
  rintro ⟨g, hg, ha⟩
  choose d c e hd hc using ha
  exact ⟨(_, d, c), ⟨_, _, _, hg, hd, hc⟩, fun j n ↦ (congrFun (e j) n).symm⟩

theorem Coherent.expectSigma :
    R.Meets E (fun (p : (J → R.Index → Value) × (J → R.Index → Closure)) j n ↦ (p.1 j n, p.2 j n))
      (fun j n ↦ (S.scope ν j n).expectSigma (φ n) (loc j) (v j n)) fun p ↦
        ∃ (y : Setting J → String) (d : Sense J) (C : Setting J → Idealized.Closure),
          (S.Sees F fun σ ↦ .sigma (y σ) (d σ) (C σ)) ∧ S.Means p.1 d ∧
            S.MeansClosure p.2 C := by
  refine (hS.expect hφ .sigma .sigma "a Σ type" hF hv).map fun a ↦ ?_
  rintro ⟨g, hg, ha⟩
  choose d c e hd hc using ha
  exact ⟨(d, c), ⟨_, _, _, hg, hd, hc⟩, fun j n ↦ (congrFun (e j) n).symm⟩

theorem Coherent.expectList :
    R.Meets E R.each (fun j n ↦ (S.scope ν j n).expectList (φ n) (loc j) (v j n)) fun w ↦
      ∃ e : Sense J, (S.Sees F fun σ ↦ .unary .list (e σ)) ∧ S.Means w e :=
  hS.expect hφ .list .list "a List type" hF hv

theorem Coherent.expectVec :
    R.Meets E (fun (p : (J → R.Index → Value) × (J → R.Index → Value)) j n ↦ (p.1 j n, p.2 j n))
      (fun j n ↦ (S.scope ν j n).expectVec (φ n) (loc j) (v j n)) fun p ↦
        ∃ e l : Sense J, (S.Sees F fun σ ↦ .binary .vec (e σ) (l σ)) ∧ S.Means p.1 e ∧
          S.Means p.2 l := by
  refine (hS.expect hφ .vec .vec "a Vec type" hF hv).map fun a ↦ ?_
  rintro ⟨g, hg, ha⟩
  choose d c e hd hc using ha
  exact ⟨(d, c), ⟨_, _, hg, hd, hc⟩, fun j n ↦ (congrFun (e j) n).symm⟩

theorem Coherent.expectEither :
    R.Meets E (fun (p : (J → R.Index → Value) × (J → R.Index → Value)) j n ↦ (p.1 j n, p.2 j n))
      (fun j n ↦ (S.scope ν j n).expectEither (φ n) (loc j) (v j n)) fun p ↦
        ∃ l r : Sense J, (S.Sees F fun σ ↦ .binary .either (l σ) (r σ)) ∧ S.Means p.1 l ∧
          S.Means p.2 r := by
  refine (hS.expect hφ .either .either "an Either type" hF hv).map fun a ↦ ?_
  rintro ⟨g, hg, ha⟩
  choose d c e hd hc using ha
  exact ⟨(d, c), ⟨_, _, hg, hd, hc⟩, fun j n ↦ (congrFun (e j) n).symm⟩

theorem Coherent.expectEqual :
    R.Meets E (fun (p : (J → R.Index → Value) × (J → R.Index → Value) × (J → R.Index → Value)) j n ↦
        (p.1 j n, p.2.1 j n, p.2.2 j n))
      (fun j n ↦ (S.scope ν j n).expectEqual (φ n) (loc j) (v j n)) fun p ↦
        ∃ d x y : Sense J, (S.Sees F fun σ ↦ .equal (d σ) (x σ) (y σ)) ∧ S.Means p.1 d ∧
          S.Means p.2.1 x ∧ S.Means p.2.2 y := by
  refine (hS.expect hφ .equal .equal "an = type" hF hv).map fun a ↦ ?_
  rintro ⟨g, hg, ha⟩
  choose t l r e ht hl hr using ha
  exact ⟨(t, l, r), ⟨_, _, _, hg, ht, hl, hr⟩, fun j n ↦ (congrFun (e j) n).symm⟩

end Shapes

/-! ## Lengths -/

section Lengths

variable {loc : J → Location} {l : Sense J} (hl : S.IsElem (fun _ ↦ .const .nat) l)
  (hv : S.Means v l)

include hl hv

theorem Coherent.expectAdd1 {message : String} :
    R.Meets E R.each (fun j n ↦ (S.scope ν j n).expectAdd1 (φ n) (loc j) (v j n) message) fun w ↦
      ∃ k : Sense J, (S.Sees l fun σ ↦ .unary .add1 (k σ)) ∧ S.Means w k := by
  have hnat : S.Means (fun _ _ ↦ .const .nat) fun _ ↦ .const .nat := fun _ ↦ .const .nat
  obtain hall | hnone := hl.add1_or_not hS
  · obtain ⟨t, ht, -⟩ := hS.exists_readBack hφ ν hl hnat hv
    obtain ⟨k, hk⟩ := hl.sees_add1 hS ht hall
    refine (hv.force fun j ↦ hk (hS.hasHere j)).bind fun w hw ↦ ?_
    have hj : ∀ j, ∃ a, Stands R S.levels .value a (k (S.here j)) ∧
        ∀ n, (w j n).add1? = some (a n) := by
      intro j
      obtain ⟨a, b, hb, ha, h⟩ | ⟨hne, -⟩ := Views.add1 (hw j)
      · cases hb
        exact ⟨a, ha, h⟩
      · exact absurd rfl (hne _)
    choose a hQ ha using hj
    simp only [ha]
    exact .pure ⟨k, hk, hQ⟩
  · choose W hW using fun j ↦ (hl.self (hS.hasHere j)).looks
    refine (hv.force hW).bind fun w hw ↦ ?_
    have hj : ∀ j n, (w j n).add1? = none := by
      intro j
      obtain ⟨a, b, hb, -⟩ | ⟨-, hn⟩ := Views.add1 (hw j)
      · exact absurd (hb ▸ hW j) (hnone j b)
      · exact hn
    simp only [hj]
    exact (hS.readBack hφ hl hnat hv).andThen fun _ _ ↦ .stop

end Lengths

end Situation

end LittleTypes
