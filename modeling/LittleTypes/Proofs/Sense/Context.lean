import LittleTypes.Proofs.Context.Built
import LittleTypes.Proofs.Sense.Declared
import LittleTypes.Proofs.Sense.Query
import Mathlib.Order.Filter.Finite

/-!
# The situation of a context

A context that is built belongs to a situation.  In this situation the same entries also build a
context with every amount of fuel that is large enough.
-/

namespace LittleTypes

open Filter

namespace Regime

variable {fuel : Nat}

theorem eventually_since {p : Nat → Prop} :
    (∀ᶠ n in (since fuel).filter, p n) ↔ p fuel ∧ ∀ᶠ n in atTop, p n :=
  eventually_sup.trans (and_congr_left' eventually_pure)

/-- A check that has answers with the given fuel has answers with enough fuel. -/
theorem Meets.of_ok {J α γ : Type} [Nonempty J] {x : J → Nat → Checked α} {out : γ → J → Nat → α}
    {E : (since fuel).Excuse J} {P : γ → Prop} (h : (since fuel).Meets E out x P) {a : α}
    (ha : ∀ j, (x j fuel).outcome = .ok a) :
    ∃ b, P b ∧ (∀ j, out b j fuel = a) ∧
      ∀ j, ∀ᶠ n in (since fuel).filter, (x j n).outcome = .ok (out b j n) := by
  obtain ⟨b, hb, hx⟩ | hx | ⟨j, s, hx, -⟩ := h
  · have hok : ∀ j, ∀ᶠ n in (since fuel).filter, (x j n).outcome = .ok (out b j n) := fun j ↦ by
      filter_upwards [hx j] with n hn
      obtain hn | ⟨hR, hn⟩ := hn
      · exact hn
      · rw [show n = fuel from hR] at hn
        cases (ha j).symm.trans hn
    exact ⟨b, hb, fun j ↦ Except.ok.inj ((eventually_since.1 (hok j)).1.symm.trans (ha j)), hok⟩
  · obtain ⟨j⟩ := ‹Nonempty J›
    exact absurd (ha j) ((eventually_since.1 (hx.ne_ok j)).1 a)
  · exact absurd (ha j) ((eventually_since.1 hx.ne_ok).1 a)

end Regime

/-- Something holds of the contexts that the entries build, with every amount of fuel that is large
enough. -/
def Context.Eventually (es : List Context.Entry) (P : Nat → Context → Prop) : Prop :=
  ∃ enough, ∀ n ≥ enough, ∃ Δ, Built n es Δ ∧ P n Δ

namespace Situation

variable {fuel : Nat} {J : Type} {es : List Context.Entry} {Γ : Context}

/-- Evaluation and reading back in contexts that are the same in all runs. -/
theorem yields_context [Nonempty J] {S : Situation (.since fuel) J} {α : Type}
    {f : Nat → Context → Except Fault α} {a : α}
    (h : ∀ j, (Regime.since fuel).Yields .outOfFuel (fun n ↦ f n (S.context j n)) fun _ ↦ a) :
    ∀ᶠ n in (Regime.since fuel).filter, ∀ Δ, (∀ j, S.context j n = Δ) →
      f n Δ = .ok a ∨ (Regime.since fuel).mayEnd n ∧ f n Δ = .error .outOfFuel := by
  filter_upwards [h (Classical.arbitrary J)] with n hn Δ hΔ
  rwa [hΔ] at hn

/-- The situation has a context, the same in all runs, and its entries build the contexts that it
has with enough fuel. -/
structure Of (es : List Context.Entry) (Γ : Context) (S : Situation (.since fuel) J) :
    Prop where
  declared : S.Declared True
  context : ∀ j, S.context j fuel = Γ
  built : ∀ᶠ n in (Regime.since fuel).filter, ∃ Δ, Context.Built n es Δ ∧ ∀ j, S.context j n = Δ

namespace Of

variable {S : Situation (.since fuel) J} (hS : S.Of es Γ)

include hS

theorem coherent : S.Coherent := hS.declared.coherent

theorem unfinished : S.unfinished := hS.declared.unfinished_iff.2 trivial

/-- What holds in the contexts of the situation, unless the given fuel is used up. -/
theorem settle {P Q : Nat → Context → Prop} (h : ∀ᶠ n in (Regime.since fuel).filter, ∀ Δ,
    (∀ j, S.context j n = Δ) → P n Δ ∨ (Regime.since fuel).mayEnd n ∧ Q n Δ) :
    (P fuel Γ ∨ Q fuel Γ) ∧ Context.Eventually es P := by
  obtain ⟨hfuel, hlarge⟩ := Regime.eventually_since.1 h
  refine ⟨(hfuel Γ hS.context).imp_right And.right, eventually_atTop.1 ?_⟩
  filter_upwards [hlarge, (Regime.eventually_since.1 hS.built).2, eventually_gt_atTop fuel]
    with n hn ⟨Δ, hΔ, hc⟩ hgt
  exact ⟨Δ, hΔ, (hn Δ hc).resolve_right fun h ↦ absurd h.1 (Nat.ne_of_gt hgt)⟩

/-- What holds in the contexts of the situation where the fuel is enough. -/
theorem settle_ends {E P : Nat → Context → Prop}
    (hE : ∀ᶠ n in (Regime.since fuel).filter, ∀ Δ, (∀ j, S.context j n = Δ) →
      E n Δ ∨ (Regime.since fuel).mayEnd n)
    (h : ∀ᶠ n in (Regime.since fuel).filter, ∀ Δ, (∀ j, S.context j n = Δ) → E n Δ → P n Δ) :
    (E fuel Γ → P fuel Γ) ∧ Context.Eventually es fun n Δ ↦ E n Δ ∧ P n Δ := by
  refine (hS.settle (P := fun n Δ ↦ E n Δ ∧ P n Δ) (Q := fun n Δ ↦ E n Δ → P n Δ) ?_).imp_left
    fun h hE ↦ h.elim And.right fun h ↦ h hE
  filter_upwards [hE, h] with n hE h Δ hΔ
  exact (hE Δ hΔ).imp (fun hE ↦ ⟨hE, h Δ hΔ hE⟩) fun hR ↦ ⟨hR, h Δ hΔ⟩

variable [Finite J] [Nonempty J]

/-- What is answered in the context with the given fuel is answered in the contexts of the situation
with enough fuel. -/
theorem of_ok {α γ : Type} {f : Nat → Context → Checked α} {out : γ → J → Nat → α}
    {P : γ → Prop}
    (h : (Regime.since fuel).Meets (Regime.allExcused _) out (fun j n ↦ f n (S.context j n)) P)
    {a : α} (ha : (f fuel Γ).outcome = .ok a) :
    ∃ b, P b ∧ (∀ j, out b j fuel = a) ∧ ∀ᶠ n in (Regime.since fuel).filter, ∀ Δ,
      (∀ j, S.context j n = Δ) → ∀ j, (f n Δ).outcome = .ok (out b j n) := by
  obtain ⟨b, hb, hfuel, hx⟩ := h.of_ok (a := a) fun j ↦ by rw [hS.context]; exact ha
  refine ⟨b, hb, hfuel, ?_⟩
  filter_upwards [eventually_all.2 hx] with n hn Δ hΔ j
  rw [← hΔ j]
  exact hn j

/-- A type that has been checked. -/
theorem isType {type : Source} {t : Term} {v : Value}
    (ht : (type.isType fuel Γ.scope).outcome = .ok t) (hv : Γ.eval fuel t = .ok v) :
    ∃ d : J → Nat → Value, (S.TypeTerm .large fun _ ↦ t) ∧ S.Means d (.ofTerm fun _ ↦ t) ∧
      (∀ j, d j fuel = v) ∧ ∀ᶠ n in (Regime.since fuel).filter, ∀ Δ, (∀ j, S.context j n = Δ) →
        (type.isType n Δ.scope).outcome = .ok t ∧ ∀ j, Δ.eval n t = .ok (d j n) := by
  have hφ := Regime.lasts_since fuel
  obtain ⟨u, hu, hut, hun⟩ := hS.of_ok (f := fun n Δ ↦ type.isType n Δ.scope)
    ((type.sound hφ fun _ ↦ hS.unfinished).isType hS.coherent id {}) ht
  obtain rfl : u = fun _ ↦ t := funext hut
  obtain ⟨d, hd, hdv, hdn⟩ := hS.of_ok (f := fun n Δ ↦ Δ.scope.eval n t)
    (hS.coherent.evalType hφ hu.type) (Checked.ofEval_eq_ok.2 hv)
  refine ⟨d, hu.type, hd, hdv, ?_⟩
  filter_upwards [hun, hdn] with n h₁ h₂ Δ hΔ
  exact ⟨h₁ Δ hΔ (Classical.arbitrary J), fun j ↦ Checked.ofEval_eq_ok.1 (h₂ Δ hΔ j)⟩

/-- An element of a type that has been checked. -/
theorem check {e : Source} {t : Term} {tv v : Value} {F : Sense J} {d : J → Nat → Value}
    (hF : S.IsType .large F) (hd : S.Means d F) (hdv : ∀ j, d j fuel = tv)
    (ht : (e.check fuel Γ.scope tv).outcome = .ok t) (hv : Γ.eval fuel t = .ok v) :
    ∃ w : J → Nat → Value, S.HasType F (fun _ ↦ t) ∧ S.Means w (.ofTerm fun _ ↦ t) ∧
      (∀ j, w j fuel = v) ∧ ∀ᶠ n in (Regime.since fuel).filter, ∀ Δ, (∀ j, S.context j n = Δ) →
        ∀ j, (e.check n Δ.scope (d j n)).outcome = .ok t ∧ Δ.eval n t = .ok (w j n) := by
  have hφ := Regime.lasts_since fuel
  obtain ⟨u, hu, hut, hun⟩ := ((e.sound hφ fun _ ↦ hS.unfinished).check hS.coherent id {} hF
    hd).of_ok (a := t) fun j ↦ by
      change (e.check fuel (S.context j fuel).scope (d j fuel)).outcome = _
      rw [hS.context, hdv, ht]
  obtain rfl : u = fun _ ↦ t := funext hut
  obtain ⟨w, hw, hwv, hwn⟩ := hS.of_ok (f := fun n Δ ↦ Δ.scope.eval n t)
    (hS.coherent.eval hφ hu.elem) (Checked.ofEval_eq_ok.2 hv)
  refine ⟨w, hu.elem, hw, hwv, ?_⟩
  filter_upwards [eventually_all.2 hun, hwn] with n h₁ h₂ Δ hΔ j
  refine ⟨?_, Checked.ofEval_eq_ok.1 (h₂ Δ hΔ j)⟩
  rw [← hΔ j]
  exact h₁ j

/-! ## One more name -/

variable {x : String} {type e : Source} {t e' : Term} {tv v : Value}

theorem free (hx : Γ.binds x = false) (ht : (type.isType fuel Γ.scope).outcome = .ok t)
    (hv : Γ.eval fuel t = .ok v) :
    ∃ S : Situation (.since fuel) J, S.Of (.declare (.free x type) :: es) ((x, .free v) :: Γ) := by
  obtain ⟨d, htT, hd, hdv, hdn⟩ := hS.isType ht hv
  have hx' : x ∉ S.names := by
    rw [← hS.coherent.names (Classical.arbitrary J) fuel, hS.context]
    exact Context.binds_eq_false_iff.1 hx
  refine ⟨S.bind x (.ofTerm fun _ ↦ t) d, hS.declared.bind hx' htT.isType hd, fun j ↦ ?_, ?_⟩
  · exact congrArg₂ (fun v Γ ↦ (x, Binding.free v) :: Γ) (hdv j) (hS.context j)
  · filter_upwards [hS.built, hdn] with n ⟨Δ, hΔ, hc⟩ hn
    obtain ⟨htn, hvn⟩ := hn Δ hc
    have hxn : Δ.binds x = false := by
      rw [Context.binds_eq_false_iff, ← hc (Classical.arbitrary J), hS.coherent.names]
      exact hx'
    refine ⟨_, hΔ.free hxn htn (hvn (Classical.arbitrary J)), fun j ↦ ?_⟩
    exact congrArg₂ (fun v Γ ↦ (x, Binding.free v) :: Γ)
      (Except.ok.inj ((hvn j).symm.trans (hvn _))) (hc j)

theorem claim (ht : (type.isType fuel Γ.scope).outcome = .ok t) (hv : Γ.eval fuel t = .ok v) :
    ∃ S : Situation (.since fuel) J,
      S.Of (.declare (.claim x type) :: es) ((x, .claim v) :: Γ) := by
  obtain ⟨d, htT, hd, hdv, hdn⟩ := hS.isType ht hv
  refine ⟨S.claim x d, hS.declared.claim x htT.isType hd, fun j ↦ ?_, ?_⟩
  · exact congrArg₂ (fun v Γ ↦ (x, Binding.claim v) :: Γ) (hdv j) (hS.context j)
  · filter_upwards [hS.built, hdn] with n ⟨Δ, hΔ, hc⟩ hn
    obtain ⟨htn, hvn⟩ := hn Δ hc
    refine ⟨_, hΔ.claim htn (hvn (Classical.arbitrary J)), fun j ↦ ?_⟩
    exact congrArg₂ (fun v Γ ↦ (x, Binding.claim v) :: Γ)
      (Except.ok.inj ((hvn j).symm.trans (hvn _))) (hc j)

omit [Finite J] in
/-- A name that does not stand for an unknown value has no level. -/
theorem levels_eq_none (hx : ∀ t, (x, .free t) ∉ Γ) : S.levels x = none := by
  refine Option.eq_none_iff_forall_ne_some.2 fun i hi ↦ ?_
  obtain ⟨t, ht⟩ := hS.coherent.free hi (Classical.arbitrary J) fuel
  exact hx t (hS.context _ ▸ ht)

omit [Finite J] in
/-- A name that has no level does not stand for an unknown value. -/
theorem not_free_mem {n : Nat} {Δ : Context} (hΔ : ∀ j, S.context j n = Δ)
    (hl : S.levels x = none) : ∀ t, (x, .free t) ∉ Δ := by
  intro t ht
  obtain ⟨i, hi⟩ := hS.declared.level_of_free (hΔ (Classical.arbitrary J) ▸ ht)
  cases hl.symm.trans hi

theorem defn (hx : ∀ t, (x, .free t) ∉ Γ) (ht : (type.isType fuel Γ.scope).outcome = .ok t)
    (htv : Γ.eval fuel t = .ok tv) (he : (e.check fuel Γ.scope tv).outcome = .ok e')
    (hv : Γ.eval fuel e' = .ok v) :
    ∃ S : Situation (.since fuel) J,
      S.Of (.declare (.defn x type e) :: es) ((x, .defn tv v) :: Γ) := by
  obtain ⟨d, htT, hd, hdv, hdn⟩ := hS.isType ht htv
  obtain ⟨w, heT, hw, hwv, hwn⟩ := hS.check htT.isType hd hdv he hv
  have hl := hS.levels_eq_none hx
  refine ⟨S.define x (.ofTerm fun _ ↦ t) (.ofTerm fun _ ↦ e') d w,
    hS.declared.define hl heT.isElem hd hw, fun j ↦ ?_, ?_⟩
  · simp only [Situation.define, hdv, hwv, hS.context]
  · filter_upwards [hS.built, hdn, hwn] with n ⟨Δ, hΔ, hc⟩ hn hn'
    obtain ⟨htn, hvn⟩ := hn Δ hc
    obtain ⟨hen, hwn⟩ := hn' Δ hc (Classical.arbitrary J)
    refine ⟨_, hΔ.defn (hS.not_free_mem hc hl) htn (hvn (Classical.arbitrary J)) hen hwn,
      fun j ↦ ?_⟩
    have hd : d j n = d (Classical.arbitrary J) n := Except.ok.inj ((hvn j).symm.trans (hvn _))
    have hw : w j n = w (Classical.arbitrary J) n :=
      Except.ok.inj ((hn' Δ hc j).2.symm.trans hwn)
    simp only [Situation.define, hd, hw, hc]

omit [Finite J] in
/-- The type of a claimed name is a type, with whatever fuel the context is built. -/
theorem claimed (hb : Γ.binding? x = some (.claim tv)) :
    ∃ (T : Sense J) (d : J → Nat → Value), S.IsType .large T ∧ S.Means d T ∧
      (∀ j, d j fuel = tv) ∧ ∀ n Δ, (∀ j, S.context j n = Δ) →
        ∀ j, Δ.binding? x = some (.claim (d j n)) := by
  have hb : ∀ j, (S.context j fuel).binding? x = some (.claim tv) := fun j ↦ by rw [hS.context, hb]
  obtain hx | ⟨T, d, hT, hd, hx⟩ | ⟨b, hc, hx⟩ := hS.declared.binding x
  · cases (hx (Classical.arbitrary J) fuel).symm.trans (hb _)
  · refine ⟨T, d, hT, hd, fun j ↦ ?_, fun n Δ hΔ j ↦ hΔ j ▸ hx j n⟩
    cases (hx j fuel).symm.trans (hb j)
    rfl
  · exact absurd (Option.some.inj ((hx _ _).symm.trans (hb (Classical.arbitrary J)))) (hc _ _ _)

theorem define (hx : ∀ t, (x, .free t) ∉ Γ) (hb : Γ.binding? x = some (.claim tv))
    (he : (e.check fuel Γ.scope tv).outcome = .ok e') (hv : Γ.eval fuel e' = .ok v) :
    ∃ S : Situation (.since fuel) J, S.Of (.define x e :: es) ((x, .defn tv v) :: Γ) := by
  obtain ⟨T, d, hT, hd, hdv, hdn⟩ := hS.claimed hb
  obtain ⟨w, heT, hw, hwv, hwn⟩ := hS.check hT hd hdv he hv
  have hl := hS.levels_eq_none hx
  refine ⟨S.define x T (.ofTerm fun _ ↦ e') d w, hS.declared.define hl heT.isElem hd hw,
    fun j ↦ ?_, ?_⟩
  · simp only [Situation.define, hdv, hwv, hS.context]
  · filter_upwards [hS.built, hwn] with n ⟨Δ, hΔ, hc⟩ hn
    have hbn := hdn n Δ hc
    obtain ⟨hen, hwn⟩ := hn Δ hc (Classical.arbitrary J)
    refine ⟨_, hΔ.define (hS.not_free_mem hc hl) (hbn (Classical.arbitrary J)) hen hwn,
      fun j ↦ ?_⟩
    have hd : d j n = d (Classical.arbitrary J) n :=
      Binding.claim.inj (Option.some.inj ((hbn j).symm.trans (hbn _)))
    have hw : w j n = w (Classical.arbitrary J) n :=
      Except.ok.inj ((hn Δ hc j).2.symm.trans hwn)
    simp only [Situation.define, hd, hw, hc]

end Of

end Situation

/-- A context that is built belongs to a situation. -/
theorem Context.Built.exists_situation {fuel : Nat} {es : List Context.Entry} {Γ : Context}
    (h : Built fuel es Γ) (J : Type) [Finite J] [Nonempty J] :
    ∃ S : Situation (.since fuel) J, S.Of es Γ :=
  Built.induction (P := fun es Γ ↦ ∃ S : Situation (.since fuel) J, S.Of es Γ)
    ⟨.empty _ J True, .empty, fun _ ↦ rfl, .of_forall fun _ ↦ ⟨[], .nil, fun _ ↦ rfl⟩⟩
    (fun ⟨_, hS⟩ hx ht hv ↦ hS.free hx ht hv) (fun ⟨_, hS⟩ ht hv ↦ hS.claim ht hv)
    (fun ⟨_, hS⟩ hx ht htv he hv ↦ hS.defn hx ht htv he hv)
    (fun ⟨_, hS⟩ hx hb he hv ↦ hS.define hx hb he hv) h

end LittleTypes
