import LittleTypes.Proofs.Name.Binders
import LittleTypes.Proofs.Sense.DataRules
import LittleTypes.Proofs.Term.Mentions
import LittleTypes.Proofs.Typing.Complaint

/-!
# Congruence keeps what typing guarantees

A congruence is for functions whose result type does not depend on the argument.  The rule reads the
result type back under a name for the argument, and looks for this name in the normal form.  If it
does not occur, then the normal form is the result type for every argument.

The runs may choose different names, and that the name occurs in the normal form of one run does not
mean that it occurs in that of another.  But then it occurs there only in elements of the empty
type, as these are all that normal forms of one type may differ in.
-/

namespace LittleTypes

open Idealized (Logic Tower Runs Reads Size SameType TypeAt Fits)

variable {R : Regime} {J : Type}

namespace Situation

variable {S : Situation R J} {s : Size} {d : Sense J} {C : Setting J → Idealized.Closure}
  {x : J → String} {t : J → Term} {E : R.Excuse J}

variable (S) in
/-- The result type in the context of a run, for an unknown argument. -/
noncomputable def resultHere (d : Sense J) (C : Setting J → Idealized.Closure) (j : J) :
    Idealized.Value :=
  (Idealized.enter (C (S.here j)) (.ofLevel S.size (d (S.here j)))).result

variable (S) in
/-- The normal form of the result type in each run, under a name for the argument. -/
def SpelledResult (d : Sense J) (C : Setting J → Idealized.Closure) (x : J → String)
    (t : J → Term) : Prop :=
  ∀ j, ∃ N, Reads (S.size + 1) (.type (S.resultHere d C j)) N ∧
    (t j).Names (S.levels.bind (x j) S.size) (S.size + 1) N

section Results

variable {dv : J → R.Index → Value} {c : J → R.Index → Closure} {φ : R.Index → Nat}
  (hφ : R.Lasts φ) (hS : S.Coherent) (hd : S.IsType .large d) (hC : S.IsFamily s d C)
  (hdv : S.Means dv d) (hc : S.MeansClosure c C)

include hS hd hdv

/-- The situation with some name for the argument. -/
theorem Coherent.someBind : (S.bind (freshName S.names "") d dv).Coherent :=
  coherent_bind hS (freshName_not_mem _ _) hd hdv

include hC

/-- In any two runs the result types are the same. -/
theorem IsFamily.sameHere (j j' : J) :
    SameType True (S.resultHere d C j) (S.resultHere d C j') :=
  TypeAt.sameType (hC.body _ dv (.sameness True) ((hS.someBind hd hdv).here j j'))

include hφ hc

/-- The result type is found in all runs. -/
theorem Coherent.enterResult (hx : ∀ j, x j ∉ S.names) :
    R.Meets E R.each (fun j n ↦ Scope.enter (φ n) (c j n) (.ofVar (x j) (dv j n))) fun v ↦
      ∀ j, Stands R (S.levels.bind (x j) S.size) .value (v j) (S.resultHere d C j) := by
  have hrun : ∀ j, Runs (Idealized.enter (C (S.here j)) (.ofLevel S.size (d (S.here j))))
      (S.resultHere d C j) := fun j ↦
    hC.tail.runs (.sameness True) ((hS.someBind hd hdv).hasHere j)
      (isElem_top (.sameness True) ((hS.someBind hd hdv).hasHere j)) false
  choose v hv hy using fun j ↦ (follows_enter hφ ((hc j).mono (hS.le_bind (hx j)))
    (.ofVar ((hdv j).mono (hS.le_bind (hx j))))).yields (hrun j)
  exact .ofEval hv hy

omit hc in
/-- The result type is read back in all runs. -/
theorem Coherent.readResult {v : J → R.Index → Value}
    (hv : ∀ j, Stands R (S.levels.bind (x j) S.size) .value (v j) (S.resultHere d C j)) :
    R.Meets E R.steady (fun j n ↦ .ofRead (Context.readBackType (φ n)
      ((x j, .free (dv j n)) :: S.context j n) (v j n))) (S.SpelledResult d C x) := by
  have hr : ∀ j, ∃ N, Reads (S.size + 1) (.type (S.resultHere d C j)) N := by
    intro j
    obtain ⟨N, -, hN, -⟩ := (hC.sameHere hS hd hdv j j).readAlike (S.size + 1)
    exact ⟨N, hN⟩
  choose t ht hy using fun j ↦
    ((hS.surveyed j).bind (x j) S.size (dv j)).reads hφ (.type (hv j)) (hr j)
  exact .ofRead ht hy

end Results

/-! ## Normal forms with and without the name -/

/-- If the name does not occur in one run, then in another run it occurs only in elements of the
empty type. -/
theorem SpelledResult.not_mem_names_blur {dv : J → R.Index → Value} (hS : S.Coherent)
    (hd : S.IsType .large d) (hC : S.IsFamily s d C) (hdv : S.Means dv d)
    (ht : S.SpelledResult d C x t) {j j' : J} (hj : x j ∉ (t j).binders)
    (hj' : x j' ∉ (t j').names) : x j ∉ (t j).blur.names := by
  obtain ⟨N, hN, hn⟩ := ht j
  obtain ⟨N', hN', hn'⟩ := ht j'
  obtain ⟨M, M', hM, hM', e⟩ := (hC.sameHere hS hd hdv j j').readAlike (S.size + 1)
  refine Term.not_mem_names_blur (θ := S.levels) (i := S.size) (k := S.size + 1)
    (fun z hz ↦ Nat.lt_irrefl _ (hS.below z _ hz)) (Nat.lt_succ_self _) ?_ hj' hj
  rw [hn.nameless, hn'.nameless, hN.unique hM, hN'.unique hM', e]

section Independent

variable {dv : J → R.Index → Value} (hS : S.Coherent) (hd : S.IsType .large d)
  (hC : S.IsFamily s d C) (hdv : S.Means dv d) (ht : S.SpelledResult d C x t)
  (hx : ∀ j, x j ∉ (t j).names)

include ht hx

/-- If the name does not occur it need not have a level. -/
theorem SpelledResult.independent (j : J) :
    ∃ N, Reads (S.size + 1) (.type (S.resultHere d C j)) N ∧
      (t j).Names S.levels (S.size + 1) N := by
  obtain ⟨N, hN, hn⟩ := ht j
  exact ⟨N, hN, (Term.nameless_bind_of_not_mem (hx j) _ _ _).symm.trans hn.nameless, hn.whole⟩

include hS hd hC hdv

theorem SpelledResult.shared : Shared t := by
  refine ⟨fun j ↦ (ht j).elim fun _ hN ↦ hN.2.whole, fun j j' ↦ ?_⟩
  obtain ⟨N, hN, hj⟩ := ht.independent hx j
  obtain ⟨N', hN', hj'⟩ := ht.independent hx j'
  obtain ⟨M, M', hM, hM', e⟩ := (hC.sameHere hS hd hdv j j').readAlike (S.size + 1)
  rw [Term.alphaEquiv_iff (fun y i hy ↦ Nat.lt_succ_of_lt (hS.below y i hy)) hS.injective hj.whole,
    hj.nameless, hj'.nameless, hN.unique hM, hN'.unique hM', e]

/-- The normal form is the result type for every argument. -/
theorem SpelledResult.like {L : Logic} (hL : Tower L) {ω : L.World} {σ : L.Index → Setting J}
    {τ : L.Index → Idealized.Env} {j : J} (hσ : S.Holds L ω σ) (hj : ∀ i, (σ i).run = j)
    (hτ : S.Reaches σ τ) {a : L.Index → Idealized.Value} (ha : L.elem ω (fun i ↦ d (σ i)) a) :
    ∃ Y, (∀ i, Runs (Idealized.eval (τ i) (t j)) (Y i)) ∧
      L.LikeType s ω (fun i ↦ (Idealized.enter (C (σ i)) (a i)).result) Y := by
  obtain ⟨N, hN, hn⟩ := ht.independent hx j
  obtain ⟨as, hl, hf, hden⟩ := (hC.body _ dv).denotes (hS.someBind hd hdv) false hL
    (holds_bind hσ ha) hj hN
  -- the names of the situation have the same values without the new name
  have hfits : Fits S.levels as τ := by
    intro y k hy
    have hne : freshName S.names "" ≠ y := by
      rintro rfl
      exact freshName_not_mem _ _ (hS.bound _ _ hy)
    obtain ⟨b, hb, he⟩ := hf y k (hS.le_bind (freshName_not_mem _ _) y k hy)
    refine ⟨b, hb, fun i ↦ (hτ i y (hS.bound y k hy)).trans ?_⟩
    exact (Idealized.Env.lookup_cons_of_ne hne _ _).symm.trans (he i)
  exact hden S.levels τ (t j) hfits (by
    rw [Idealized.GlueWorld.size, hl]
    exact hn.nameless)

/-- So it is the result type for a given argument. -/
theorem SpelledResult.renders {a : Sense J} (ha : S.IsElem d a) : S.Renders s (.enter C a) t :=
  fun _ hL _ _ _ _ hσ hj hτ ↦ ht.like hS hd hC hdv hx hL hσ hj hτ (ha hL hσ)

/-- A function into such a type is not dependent. -/
theorem SpelledResult.sameTypes {e : Sense J} (hed : S.SameTypes e d) (y : Setting J → String) :
    S.SameTypes (fun σ ↦ .pi (y σ) (d σ) (C σ))
      fun σ ↦ .arrow (y σ) (e σ) (Sense.ofTerm t σ) := by
  intro o σ hσ
  refine TypeAt.pi (hed hσ).symm fun a b hab ↦ ?_
  obtain ⟨Y, hY, hl⟩ := ht.like hS hd hC hdv hx (.sameness o) hσ (j := σ.run) (fun _ ↦ rfl)
    (.refl _) (a := Logic.pair a b) ⟨hab.type, hab⟩
  have ha := hC.runs (.sameness o) hσ (a := Logic.pair a b) ⟨hab.type, hab⟩ false
  rw [show Sense.ofTerm t σ = Y false from (hY false).result_eq]
  exact ⟨_, _, ha, .done _, (hl.same false).symm⟩

end Independent

end Situation

/-! ## The rule -/

open Situation

namespace Elaborator.Settled

variable {o χ : Prop} {E : R.Excuse J} {φ : R.Index → Nat} (hφ : R.Lasts φ) (loc : Location)

include hφ

/-- A function that is refused in one run and not in another is dependent only in elements of the
empty type. -/
theorem congSaying {say : Complaint} {p f : R.Index → Elaborator}
    (hE : ∀ j n loc x c type, Term.OnlyInAbsurd x c → E j n (say.stop loc x c type))
    (hp : Sound R J E o p) (hf : Sound R J E o f) :
    Settled R J E o χ fun n ↦ Rule.congSaying say (φ n) loc (p n) (f n) := by
  refine ofSynth hφ fun {S} hS ho ν ↦ (synthEqual hφ hp hS ho ν).bind
    fun ⟨u, ev, lv, rv⟩ ⟨e, l, r, hu, hev, hlv, hrv⟩ ↦ ?_
  refine (hf.synth hS ho ν).andThen fun k hk ↦ (hS.evalType hφ hk.type.type).bind fun v hv ↦ ?_
  obtain ⟨a, ha⟩ := hf.loc
  simp only [ha]
  refine (hS.expectPi hφ hk.type.type.isType hv).bind
    fun ⟨y, dv, c⟩ ⟨y', d, C, hs, hdv, hc⟩ ↦ ?_
  have hfE := hk.term.elem.sees hS hs
  obtain ⟨hd, hC⟩ := hfE.isType.of_pi
  obtain ⟨he, hl, hr⟩ := hu.elem.isType.of_equal
  refine (hS.sameType hφ he hd hev hdv).bind fun _ hed ↦ ?_
  have hx : ∀ j, freshName S.names (y j) ∉ S.names := fun j ↦ freshName_not_mem _ _
  have hΓ : ∀ j n, Checked.ofRead
      ((S.scope ν j n).context.bindFree (freshName S.names (y j)) (dv j n)) =
        pure ((freshName S.names (y j), .free (dv j n)) :: S.context j n) := fun j n ↦ by
    rw [scope, (hS.surveyed j).bindFree (hx j) (dv j)]
    rfl
  simp only [hS.fresh, hΓ, pure_bind]
  refine (hS.enterResult hφ hd hC hdv hc hx).bind fun w hw ↦ ?_
  refine (hS.readResult hφ hd hC hdv hw).bindGiven fun t ht ↦ ?_
  by_cases hn : ∀ j, freshName S.names (y j) ∉ (t j).names
  · have hc : ∀ j, (t j).names.contains (freshName S.names (y j)) = false := fun j ↦ by
      simpa using hn j
    simp only [hc]
    have hl' := hl.conv hS hd hed
    have hr' := hr.conv hS hd hed
    have hT := (ht.renders hS hd hC hdv hn hl').typeTerm hS (hC.enter hl')
    refine (hS.eval hφ hk.term.elem).bind fun fv hfv ↦ (hS.evalType hφ hT).bind fun cv hcv ↦ ?_
    refine (hS.apply hφ hfE.isElem hl' hfv hlv).bind fun lv' hlv' ↦ ?_
    refine (hS.apply hφ hfE.isElem hr' hfv hrv).bind fun rv' hrv' ↦ ?_
    have hcong := hu.elem.cong hS hT (hfE.conv hS
      (fun _ hL _ _ hσ ↦ hL.sound.arrow (he hL hσ) (hT.isType hL hσ))
      (ht.sameTypes hS hd hC hdv hn hed y'))
    exact hS.judge hφ (fun j ↦ .equal (hcv j) (hlv' j) (hrv' j))
      ⟨hcong, hu.shared.cong (ht.shared hS hd hC hdv hn) hk.term.shared⟩
  by_cases hall : ∀ j, freshName S.names (y j) ∈ (t j).names
  · have hc : ∀ j, (t j).names.contains (freshName S.names (y j)) = true := fun j ↦ by
      simpa using hall j
    simp only [hc, if_true]
    exact .mistake (s := fun j ↦ say.stop a (freshName S.names (y j)) (t j) (k j).type)
      fun _ _ ↦ rfl
  · obtain ⟨j, hj⟩ := not_forall.1 hn
    obtain ⟨j', hj'⟩ := not_forall.1 hall
    have hc : (t j).names.contains (freshName S.names (y j)) = true := by simpa using hj
    refine .inr (.inr ⟨j, say.stop a (freshName S.names (y j)) (t j) (k j).type,
      .of_forall fun n ↦ .inl (by simp only [hc, if_true]; rfl), .of_forall fun n _ hr ↦ ?_⟩)
    have hnew : freshName S.names (y j) ∉ (t j).binders := fun h ↦
      reader_apart _ _ _ _ (Checked.ofRead_eq_ok.1 hr) _ h List.mem_cons_self
    exact hE j n _ _ _ _ ⟨not_not.1 hj, ht.not_mem_names_blur hS hd hC hdv hnew hj'⟩

end Elaborator.Settled

end LittleTypes
