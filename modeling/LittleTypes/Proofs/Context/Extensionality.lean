import LittleTypes.Proofs.Match.Self
import LittleTypes.Proofs.Sense.Context
import LittleTypes.Proofs.Sense.Extensional

/-!
# Comparison is extensional

Functions, pairs, and elements of the trivial type and of the empty type are compared by what can be
done with them.  Functions are the same if they are at a new name for the argument, whichever name
it is, and pairs are the same if their components are; elements of the other two types always are.
This does not follow from how normal forms are found: the two normal forms have names of their own
for the argument, and the second components of two pairs are read at types of their own.
-/

namespace LittleTypes

open Filter

/-! ## Which new name does not matter -/

namespace Checked.Agree

variable {x y : Checked Unit} {P : Unit → Unit → Prop} (h : Agree P x y)

include h

theorem ok_iff : x.outcome = .ok () ↔ y.outcome = .ok () := by
  unfold Agree at h
  generalize x.outcome = o at h ⊢
  generalize y.outcome = o' at h ⊢
  cases h with
  | ok => exact iff_of_true rfl rfl
  | stop | fault => exact iff_of_false nofun nofun

theorem ends_iff : x.Ends ↔ y.Ends := by
  unfold Agree at h
  unfold Ends
  generalize x.outcome = o at h ⊢
  generalize y.outcome = o' at h ⊢
  cases h with
  | ok | stop => exact iff_of_true nofun nofun
  | fault => exact Iff.rfl

end Checked.Agree

/-- A check may be replaced by one that agrees with it. -/
theorem Regime.SameAnswer.agree {R : Regime} {n : R.Index} {x y y' : Checked Unit}
    {P : Unit → Unit → Prop} (h : R.SameAnswer n x y) (hy : Checked.Agree P y y') :
    R.SameAnswer n x y' :=
  ⟨h.ends.imp_left hy.ends_iff.1, fun ex ey ↦ (h.ok_iff ex (hy.ends_iff.2 ey)).trans hy.ok_iff⟩

namespace Context

variable {fuel : Nat} {es : List Context.Entry} {Γ : Context}

/-- The fuel is enough to compare two elements of a type, and to compare what they are made of. -/
structure Comparable (fuel : Nat) (Γ : Context) (loc : Location) (tv v w : Value) : Prop where
  whole : (Γ.scope.convert fuel loc tv v w).Ends
  pi : ∀ {x dom cod}, tv.force = .ok (.pi x dom cod) → ∀ z, Γ.binds z = false →
    (Γ.scope.convertAt fuel loc z dom cod v w).Ends
  sigma : ∀ {x fst snd}, tv.force = .ok (.sigma x fst snd) →
    (Γ.scope.convertParts fuel loc fst snd v w).Ends

/-- Two elements of a type are the same if what can be done with them is. -/
structure Extensional (fuel : Nat) (Γ : Context) (loc : Location) (tv v w : Value) : Prop where
  pi : ∀ {x dom cod}, tv.force = .ok (.pi x dom cod) →
    ((Γ.scope.convert fuel loc tv v w).outcome = .ok () ↔ ∀ z, Γ.binds z = false →
      (Γ.scope.convertAt fuel loc z dom cod v w).outcome = .ok ())
  sigma : ∀ {x fst snd}, tv.force = .ok (.sigma x fst snd) →
    ((Γ.scope.convert fuel loc tv v w).outcome = .ok () ↔
      (Γ.scope.convertParts fuel loc fst snd v w).outcome = .ok ())
  trivial : tv.force = .ok (.const .trivial) →
    (Γ.scope.convert fuel loc tv v w).outcome = .ok ()
  absurd : tv.force = .ok (.const .absurd) → (Γ.scope.convert fuel loc tv v w).outcome = .ok ()

/-- Two expressions are elements of a type, and these are the terms and the values. -/
structure Elements (fuel : Nat) (Γ : Context) (A a b : Source) (T t u : Term) (tv v w : Value) :
    Prop where
  type : (A.isType fuel Γ.scope).outcome = .ok T
  typeValue : Γ.eval fuel T = .ok tv
  left : (a.check fuel Γ.scope tv).outcome = .ok t
  leftValue : Γ.eval fuel t = .ok v
  right : (b.check fuel Γ.scope tv).outcome = .ok u
  rightValue : Γ.eval fuel u = .ok w

variable {A a b : Source} {T t u : Term} {tv v w : Value}

/-- Functions are compared alike at any two new names. -/
theorem Elements.convertAt (h : Γ.Elements fuel A a b T t u tv v w) (hΓ : Built fuel es Γ)
    {x z z' : String} {dom : Value} {cod : Closure} (htype : tv.force = .ok (.pi x dom cod))
    (loc : Location) (hz : Γ.binds z = false) (hz' : Γ.binds z' = false) :
    Checked.Agree (fun _ _ ↦ True) (Γ.scope.convertAt fuel loc z dom cod v w)
      (Γ.scope.convertAt fuel loc z' dom cod v w) := by
  have hm := hΓ.selfMatched
  have htv := hm.eval (hm.isType h.type) h.typeValue
  have hv := hm.eval (hm.check htv h.left) h.leftValue
  have hw := hm.eval (hm.check htv h.right) h.rightValue
  obtain ⟨hdom, hcod⟩ : dom.Matches Γ.unknown dom ∧ cod.Matches Γ.unknown cod := by
    cases htv.force.of_ok htype htype with
    | pi hdom hcod => exact ⟨hdom, hcod⟩
  -- the two names are paired, and nothing else changes
  have hz := binds_eq_false_iff.1 hz
  have hz' := binds_eq_false_iff.1 hz'
  have hle := hm.self.unknownWithin.le_bind hz hz'
  have hvar : (Value.ofVar z dom).Matches (Γ.unknown.bind z z') (.ofVar z' dom) :=
    .ofVar (hdom.mono hle)
  refine (hm.scope.bind hz hz' hdom).bind fun s s' hs ↦ ?_
  refine (Scope.Matches.enter (hcod.mono hle) hvar).bind fun _ _ htype ↦ ?_
  refine (Scope.Matches.apply (hv.mono hle) hvar).bind fun _ _ hv ↦ ?_
  exact (Scope.Matches.apply (hw.mono hle) hvar).bind fun _ _ hw ↦ hs.convert loc htype hv hw

/-- If the fuel is enough to compare functions at one new name, it is enough at all of them. -/
theorem Built.comparable (hΓ : Built fuel es Γ) (h : Γ.Elements fuel A a b T t u tv v w)
    (loc : Location) {x z : String} {dom : Value} {cod : Closure}
    (htype : tv.force = .ok (.pi x dom cod)) (hz : Γ.binds z = false)
    (hwhole : (Γ.scope.convert fuel loc tv v w).Ends)
    (hat : (Γ.scope.convertAt fuel loc z dom cod v w).Ends) : Γ.Comparable fuel loc tv v w := by
  refine ⟨hwhole, fun e z' hz' ↦ ?_, fun e ↦ nomatch htype.symm.trans e⟩
  cases htype.symm.trans e
  exact (h.convertAt hΓ htype loc hz hz').ends_iff.1 hat

end Context

/-- Elements of a type, and how they are compared in the contexts of a situation. -/
theorem Situation.Of.comparison {fuel : Nat} {es : List Context.Entry} {Γ : Context}
    {S : Situation (.since fuel) Unit} (hS : S.Of es Γ) {A a b : Source} {T t u : Term}
    {tv v w : Value} (h : Γ.Elements fuel A a b T t u tv v w) (loc : Location) :
    ∃ d f g : Nat → Value, (d fuel = tv ∧ f fuel = v ∧ g fuel = w) ∧
      ∀ᶠ n in (Regime.since fuel).filter, ∀ Δ, (∀ j, S.context j n = Δ) →
        Δ.Elements n A a b T t u (d n) (f n) (g n) ∧
        (Δ.Comparable n loc (d n) (f n) (g n) ∨ (Regime.since fuel).mayEnd n) ∧
        (Δ.Comparable n loc (d n) (f n) (g n) → Δ.Extensional n loc (d n) (f n) (g n)) := by
  have hφ := Regime.lasts_since fuel
  obtain ⟨d, hT, hd, hdv, hdn⟩ := hS.isType h.type h.typeValue
  obtain ⟨f, hf, hfm, hfv, hfn⟩ := hS.check hT.isType hd hdv h.left h.leftValue
  obtain ⟨g, hg, hgm, hgv, hgn⟩ := hS.check hT.isType hd hdv h.right h.rightValue
  refine ⟨d (), f (), g (), ⟨hdv (), hfv (), hgv ()⟩, ?_⟩
  have hz : freshName S.names "" ∉ S.names := freshName_not_mem _ _
  filter_upwards [hS.built, hdn, hfn, hgn,
    (hS.coherent.decides_convert hφ {} loc hf.isElem hg.isElem hd hfm hgm).ends (),
    hS.coherent.convert_pi hφ {} loc hd hf.isElem hg.isElem hfm hgm () hz,
    hS.coherent.convert_sigma hφ {} loc hd hf.isElem hg.isElem hfm hgm (),
    hS.coherent.convert_const hφ {} loc hd hf.isElem hg.isElem hfm hgm () (.inl rfl),
    hS.coherent.convert_const hφ {} loc hd hf.isElem hg.isElem hfm hgm () (.inr rfl)]
    with n ⟨Δ', hΔ', hc⟩ hdn hfn hgn hends hpi hsigma htrivial habsurd Δ hΔ
  obtain rfl : Δ' = Δ := (hc ()).symm.trans (hΔ ())
  have hscope : S.scope {} () n = Δ'.scope := by rw [← hΔ ()]; rfl
  rw [hscope] at hends hpi hsigma htrivial habsurd
  have hel : Δ'.Elements n A a b T t u (d () n) (f () n) (g () n) :=
    ⟨(hdn Δ' hΔ).1, (hdn Δ' hΔ).2 (), (hfn Δ' hΔ ()).1, (hfn Δ' hΔ ()).2, (hgn Δ' hΔ ()).1,
      (hgn Δ' hΔ ()).2⟩
  have hz : Δ'.binds (freshName S.names "") = false := by
    rw [Context.binds_eq_false_iff, ← hΔ (), hS.coherent.names]
    exact hz
  -- what holds at one new name holds at every new name
  have hat {x dom cod} (e : (d () n).force = .ok (.pi x dom cod)) (z) (hz' : Δ'.binds z = false) :=
    (hpi x dom cod e).agree (hel.convertAt hΔ' e loc hz hz')
  refine ⟨hel, or_iff_not_imp_right.2 fun hR ↦ ⟨hends.resolve_right hR, ?_, ?_⟩, fun hE ↦ ?_⟩
  · exact fun e z hz ↦ (hat e z hz).ends.resolve_right hR
  · exact fun e ↦ (hsigma _ _ _ e).ends.resolve_right hR
  · refine ⟨fun e ↦ ⟨fun hok z hz ↦ ?_, fun hall ↦ ?_⟩, fun e ↦ ?_, fun e ↦ ?_, fun e ↦ ?_⟩
    · exact ((hat e z hz).ok_iff hE.whole (hE.pi e z hz)).1 hok
    · exact ((hat e _ hz).ok_iff hE.whole (hE.pi e _ hz)).2 (hall _ hz)
    · exact (hsigma _ _ _ e).ok_iff hE.whole (hE.sigma e)
    · exact htrivial e hE.whole
    · exact habsurd e hE.whole

namespace Context

variable {fuel : Nat} {es : List Context.Entry} {Γ : Context} {A a b : Source}
  {T t u : Term} {tv v w : Value}

/-- **Comparison is extensional.**  In a context that is built, two functions are the same exactly if
their values at every new name are, and two pairs exactly if their components are, the second ones
at the type that the first component of the first pair gives.  Elements of the trivial type and of
the empty type are always the same.  This is so if the fuel is enough, and there is enough of it. -/
theorem convert_extensional (h : Built fuel es Γ) (hab : Γ.Elements fuel A a b T t u tv v w)
    (loc : Location) :
    (Γ.Comparable fuel loc tv v w → Γ.Extensional fuel loc tv v w) ∧
    Eventually es fun n Δ ↦ ∃ tv v w, Δ.Elements n A a b T t u tv v w ∧
      Δ.Comparable n loc tv v w ∧ Δ.Extensional n loc tv v w := by
  obtain ⟨S, hS⟩ := h.exists_situation Unit
  obtain ⟨d, f, g, ⟨rfl, rfl, rfl⟩, hn⟩ := hS.comparison hab loc
  refine (hS.settle_ends (E := fun n Δ ↦ Δ.Comparable n loc (d n) (f n) (g n))
    (P := fun n Δ ↦ Δ.Elements n A a b T t u (d n) (f n) (g n) ∧
      Δ.Extensional n loc (d n) (f n) (g n)) ?_ ?_).imp (fun h hE ↦ (h hE).2) ?_
  · exact hn.mono fun n hn Δ hΔ ↦ (hn Δ hΔ).2.1
  · exact hn.mono fun n hn Δ hΔ hE ↦ ⟨(hn Δ hΔ).1, (hn Δ hΔ).2.2 hE⟩
  · rintro ⟨enough, hlarge⟩
    refine ⟨enough, fun n hn ↦ ?_⟩
    obtain ⟨Δ, hΔ, hE, hel, hext⟩ := hlarge n hn
    exact ⟨Δ, hΔ, _, _, _, hel, hE, hext⟩

/-- An unknown function and the same function written out, at every name for the argument. -/
theorem convert_extensional_expanded :
    ∃ Γ T t u tv v w x dom cod, Built 9 [.declare (.free "f" .natToNat)] Γ ∧
      Γ.Elements 9 .natToNat (.var {} "f") (.expanded "f" "a") T t u tv v w ∧ t ≠ u ∧
      Γ.Comparable 9 {} tv v w ∧ tv.force = .ok (.pi x dom cod) ∧
      ∀ z, Γ.binds z = false → (Γ.scope.convertAt 9 {} z dom cod v w).outcome = .ok () := by
  have hΓ : Built 9 [.declare (.free "f" .natToNat)] _ := Built.nil.free rfl rfl rfl
  have hE := hΓ.comparable (A := .natToNat) (a := .var {} "f") (b := .expanded "f" "a")
    ⟨rfl, rfl, rfl, rfl, rfl, rfl⟩ {} (z := "z") rfl rfl nofun nofun
  have h := convert_extensional hΓ (A := .natToNat) (a := .var {} "f") (b := .expanded "f" "a")
    ⟨rfl, rfl, rfl, rfl, rfl, rfl⟩ {}
  exact ⟨_, _, _, _, _, _, _, _, _, _, hΓ, ⟨rfl, rfl, rfl, rfl, rfl, rfl⟩, by decide, hE, rfl,
    ((h.1 hE).pi rfl).1 rfl⟩

end Context

end LittleTypes
