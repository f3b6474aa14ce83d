import LittleTypes.Proofs.Sense.Shared
import LittleTypes.Proofs.Sense.Situation

/-!
# Normal forms in a situation

What is read back in the contexts of a situation has the sense of what it was read from, in every
setting.  So types and elements whose normal forms are α-equivalent are the same in every setting,
and what a type looks like in the contexts it looks like everywhere.
-/

namespace LittleTypes

open Idealized (Reads)

/-- One term is the answer in every context, if there is a normal form. -/
theorem Surveyed.reads {R : Regime} {ns : List String} {θ : Levels} {Γ : R.Index → Context}
    (hΓ : Surveyed R ns θ Γ) {φ : R.Index → Nat} (hφ : R.Lasts φ) {r : R.Index → Reading}
    {r' : Idealized.Reading} (hr : StandsReading R θ r r') {k : Nat} (h : ∃ N, Reads k r' N) :
    ∃ t, (∃ N, Reads k r' N ∧ Term.Names θ k t N) ∧
      R.Yields .outOfFuel (fun n ↦ reader (φ n) (Γ n) (r n)) fun _ ↦ t := by
  obtain ⟨N, hN⟩ := h
  obtain ⟨t, ht, hy⟩ := (follows_readStep hφ.pred hΓ hr).yields hN
  exact ⟨t, ⟨N, hN, ht⟩, hy.readStep hφ⟩

namespace Situation

open Idealized (Logic Tower Ground GlueWorld GlueElem GlueType Fits Runs ReadRuns Reads Size
  SameType TypeAt Same Denotes DenotesType Looks)

variable {R : Regime} {J : Type} {S : Situation R J} {s : Size} {F G v w : Sense J}

variable (S) in
/-- Terms, one in each run, are spelled as what is read is read back. -/
def Spelled (r : J → Idealized.Reading) (t : J → Term) : Prop :=
  ∀ j, ∃ N, Reads S.size (r j) N ∧ (t j).Names S.levels S.size N

/-- Nothing is missing from what is read back. -/
theorem Spelled.whole {r : J → Idealized.Reading} {t : J → Term} (h : S.Spelled r t) (j : J) :
    (t j).Whole := (h j).elim fun _ hN ↦ hN.2.whole

/-- How a type is read in the contexts. -/
abbrev readType (S : Situation R J) (F : Sense J) : J → Idealized.Reading :=
  fun j ↦ .type (F (S.here j))

/-- How an element is read in the contexts. -/
abbrev readElem (S : Situation R J) (F v : Sense J) : J → Idealized.Reading :=
  fun j ↦ .value (F (S.here j)) (v (S.here j))

/-! ## Reading back -/

variable (hS : S.Coherent)

include hS

/-- The contexts have one term for an answer each, if there is a normal form. -/
theorem Coherent.reads {φ : R.Index → Nat} (hφ : R.Lasts φ) {r : J → R.Index → Reading}
    {r' : J → Idealized.Reading} (hr : ∀ j, StandsReading R S.levels (r j) (r' j))
    (h : ∀ j, ∃ N, Reads S.size (r' j) N) :
    ∃ t, S.Spelled r' t ∧ ∀ j,
      R.Yields .outOfFuel (fun n ↦ reader (φ n) (S.context j n) (r j n)) fun _ ↦ t j := by
  choose t ht hy using fun j ↦ (hS.surveyed j).reads hφ (hr j) (h j)
  exact ⟨t, ht, hy⟩

/-- α-equivalence is equality of blurred forms. -/
theorem Coherent.alphaEquiv_iff {t u : Term} (ht : t.Whole) :
    t.alphaEquiv u ↔ (t.nameless S.levels S.size).blur = (u.nameless S.levels S.size).blur :=
  Term.alphaEquiv_iff hS.below hS.injective ht

theorem IsType.reads (h : S.IsType s F) (j : J) : ∃ N, Reads S.size (.type (F (S.here j))) N := by
  obtain ⟨N, -, hN, -⟩ := (h.self (hS.hasHere j)).sameType.readAlike S.size
  exact ⟨N, hN⟩

theorem IsElem.reads (h : S.IsElem F v) (j : J) :
    ∃ N, Reads S.size (.value (F (S.here j)) (v (S.here j))) N := by
  have hv := h.self (hS.hasHere j)
  obtain ⟨N, -, hN, -⟩ := hv.readAlike hv.type S.size
  exact ⟨N, hN⟩

/-- All runs read a type back alike. -/
theorem IsType.shared (h : S.IsType s F) {t : J → Term} (ht : S.Spelled (S.readType F) t) :
    Shared t := by
  refine ⟨ht.whole, fun j j' ↦ ?_⟩
  obtain ⟨N, hN, hj⟩ := ht j
  obtain ⟨N', hN', hj'⟩ := ht j'
  obtain ⟨M, M', hM, hM', e⟩ :=
    (TypeAt.sameType (h (.sameness True) (hS.here j j'))).readAlike S.size
  rw [hS.alphaEquiv_iff hj.whole, hj.nameless, hj'.nameless, hN.unique hM, hN'.unique hM', e]

/-- All runs read an element back alike. -/
theorem IsElem.shared (h : S.IsElem F v) {t : J → Term} (ht : S.Spelled (S.readElem F v) t) :
    Shared t := by
  refine ⟨ht.whole, fun j j' ↦ ?_⟩
  obtain ⟨N, hN, hj⟩ := ht j
  obtain ⟨N', hN', hj'⟩ := ht j'
  obtain ⟨hF, hv⟩ := h (.sameness True) (hS.here j j')
  obtain ⟨M, M', hM, hM', e⟩ := hv.readAlike hF S.size
  rw [hS.alphaEquiv_iff hj.whole, hj.nameless, hj'.nameless, hN.unique hM, hN'.unique hM', e]

/-! ## What normal forms denote -/

section Denote

variable {L : Logic} {ω : L.World} {σ : L.Index → Setting J} {τ : L.Index → Idealized.Env} {j : J}

omit hS in
theorem Reaches.fits (hS : S.Coherent) {as : List (L.Index → Idealized.Value)}
    (h : Fits S.levels as fun i ↦ (σ i).env) (hτ : S.Reaches σ τ) : Fits S.levels as τ := by
  intro x k hx
  obtain ⟨a, ha, hσ⟩ := h x k hx
  exact ⟨a, ha, fun i ↦ (hτ i x (hS.bound x k hx)).trans (hσ i)⟩

/-- The normal form of a type in the context of a run denotes the type in every setting of the
run. -/
theorem IsType.denotes (h : S.IsType s F) (c : Bool) (hL : Tower L) (hσ : S.Holds L ω σ)
    (hj : ∀ i, (σ i).run = j) {N : Nameless} (hN : Reads S.size (.type (F (S.here j))) N) :
    ∃ as, as.length = S.size ∧ Fits S.levels as (fun i ↦ (σ i).env) ∧
      DenotesType c s ⟨ω, as⟩ N fun i ↦ F (σ i) := by
  obtain ⟨K, rfl, hK, hT⟩ := hL.glue c
  obtain ⟨as, hl, hf, hg⟩ := hS.glue hK hT hσ hj
  have hX : GlueType K s ⟨ω, as⟩ fun i ↦ F (S.join j σ i) := h hT hg
  obtain ⟨M, hM, hd⟩ := hX.shows hK ⟨ω, as⟩ (hK.le_refl _)
  obtain rfl : M = N := by
    rw [GlueWorld.size, hl] at hM
    exact hM.unique hN
  exact ⟨as, hl, hf, hd⟩

/-- The normal form of an element denotes the element in every setting of the run. -/
theorem IsElem.denotes (h : S.IsElem F v) (c : Bool) (hL : Tower L) (hσ : S.Holds L ω σ)
    (hj : ∀ i, (σ i).run = j) {N : Nameless}
    (hN : Reads S.size (.value (F (S.here j)) (v (S.here j))) N) :
    ∃ as, as.length = S.size ∧ Fits S.levels as (fun i ↦ (σ i).env) ∧
      Denotes c ⟨ω, as⟩ N (fun i ↦ F (σ i)) fun i ↦ v (σ i) := by
  obtain ⟨K, rfl, hK, hT⟩ := hL.glue c
  obtain ⟨as, hl, hf, hg⟩ := hS.glue hK hT hσ hj
  have hX : GlueElem K ⟨ω, as⟩ (fun i ↦ F (S.join j σ i)) fun i ↦ v (S.join j σ i) := h hT hg
  obtain ⟨M, hM, hd⟩ := hX.shows hK ⟨ω, as⟩ (hK.le_refl _)
  obtain rfl : M = N := by
    rw [GlueWorld.size, hl] at hM
    exact hM.unique hN
  exact ⟨as, hl, hf, hd⟩

/-! ## Normal forms as terms -/

variable {t u : J → Term}

omit hS in
theorem Term.Names.spells {t : Term} {N : Nameless} {as : List (L.Index → Idealized.Value)}
    (ht : t.Names S.levels S.size N) (hl : as.length = S.size) :
    Spells false S.levels (GlueWorld.mk ω as).size t N := by
  rw [GlueWorld.size, hl]
  exact ht.nameless

omit hS in
theorem Term.Names.spellsBlurred {t : Term} {N M : Nameless} {as : List (L.Index → Idealized.Value)}
    (ht : t.Names S.levels S.size N) (e : N.blur = M.blur) (hl : as.length = S.size) :
    Spells true S.levels (GlueWorld.mk ω as).size t.blur M := by
  rw [GlueWorld.size, hl, Spells, Term.nameless_blur, ht.nameless, e]
  rfl

omit hS in
variable (S) in
/-- The term of each run is a type in every setting of the run. -/
def Renders (s : Size) (F : Sense J) (t : J → Term) : Prop :=
  ∀ ⦃L : Logic⦄, Tower L → ∀ ⦃ω σ τ j⦄, S.Holds L ω σ → (∀ i, (σ i).run = j) → S.Reaches σ τ →
    ∃ Y, (∀ i, Runs (Idealized.eval (τ i) (t j)) (Y i)) ∧ L.LikeType s ω (fun i ↦ F (σ i)) Y

/-- The normal form of a type in the context of a run is the type, in every setting of the run. -/
theorem IsType.renders (h : S.IsType s F) (ht : S.Spelled (S.readType F) t) :
    S.Renders s F t := by
  intro L hL ω σ τ j hσ hj hτ
  obtain ⟨N, hN, hn⟩ := ht j
  obtain ⟨as, hl, hf, hd⟩ := h.denotes hS false hL hσ hj hN
  exact hd S.levels τ (t j) (hτ.fits hS hf) (Term.Names.spells hn hl)

/-- The normal form of an element is the element, in every setting of the run. -/
theorem IsElem.like (h : S.IsElem F v) (ht : S.Spelled (S.readElem F v) t) (hL : Tower L)
    (hσ : S.Holds L ω σ) (hj : ∀ i, (σ i).run = j) (hτ : S.Reaches σ τ) :
    ∃ w, (∀ i, Runs (Idealized.eval (τ i) (t j)) (w i)) ∧
      L.Like ω (fun i ↦ F (σ i)) (fun i ↦ v (σ i)) w := by
  obtain ⟨N, hN, hn⟩ := ht j
  obtain ⟨as, hl, hf, hd⟩ := h.denotes hS false hL hσ hj hN
  exact hd S.levels τ (t j) (hτ.fits hS hf) (Term.Names.spells hn hl)

end Denote

section Terms

variable {t u : J → Term}

/-- A term that is a type in the settings of each run is one in all settings. -/
theorem Renders.typeTerm (ht : S.Renders s F t) (h : S.IsType s F) : S.TypeTerm s t := by
  intro L hL ω σ τ hσ hτ
  obtain ⟨j, hj⟩ | hflex := hS.uniform hσ
  · obtain ⟨Y, hY, hl⟩ := ht hL hσ hj hτ
    exact ⟨Y, fun i ↦ by simpa only [hj] using hY i, hl.type⟩
  · -- the runs differ, so every side is looked at by itself
    have hi : ∀ i, ∃ Y, Runs (Idealized.eval (τ i) (t (σ i).run)) Y ∧
        SameType (L.model i) (F (σ i)) Y := by
      intro i
      obtain ⟨Y, hY, hl⟩ := ht (.sameness (L.model i)) (hS.side hL hσ i) (τ := fun _ ↦ τ i)
        (fun _ ↦ rfl) (fun _ ↦ hτ i)
      exact ⟨Y true, hY true, (hl.same true).symm⟩
    choose Y hY hl using hi
    exact ⟨Y, hY, hflex.type (h hL hσ) hl⟩

omit hS in
theorem Renders.sameTypes (ht : S.Renders s F t) : S.SameTypes (.ofTerm t) F := by
  intro o σ hσ
  obtain ⟨Y, hY, hl⟩ := ht (.sameness o) hσ (fun _ ↦ rfl) (.refl _)
  rw [show Sense.ofTerm t σ = Y true from (hY true).result_eq]
  exact hl.same true

/-- The normal form of a type is a type. -/
theorem IsType.typeTerm (h : S.IsType s F) (ht : S.Spelled (S.readType F) t) :
    S.TypeTerm s t := (h.renders hS ht).typeTerm hS h

/-- The normal form of an element is an element. -/
theorem IsElem.hasType (h : S.IsElem F v) (ht : S.Spelled (S.readElem F v) t) :
    S.HasType F t := by
  intro L hL ω σ τ hσ hτ
  obtain ⟨j, hj⟩ | hflex := hS.uniform hσ
  · obtain ⟨w, hw, hl⟩ := h.like hS ht hL hσ hj hτ
    exact ⟨w, fun i ↦ by simpa only [hj] using hw i, hl.elem⟩
  · have hi : ∀ i, ∃ w, Runs (Idealized.eval (τ i) (t (σ i).run)) w ∧
        Same (L.model i) (F (σ i)) (v (σ i)) w := by
      intro i
      obtain ⟨w, hw, hl⟩ := h.like hS ht (.sameness (L.model i)) (hS.side hL hσ i)
        (τ := fun _ ↦ τ i) (fun _ ↦ rfl) (fun _ ↦ hτ i)
      exact ⟨w true, hw true, (hl.same true).symm⟩
    choose w hw hl using hi
    exact ⟨w, hw, hflex.elem (h hL hσ) hl⟩

/-- The normal form of a type is the same type. -/
theorem IsType.sameTerm (h : S.IsType s F) (ht : S.Spelled (S.readType F) t) :
    S.SameTypes (.ofTerm t) F := (h.renders hS ht).sameTypes

/-- The normal form of an element is the same element. -/
theorem IsElem.sameTerm (h : S.IsElem F v) (ht : S.Spelled (S.readElem F v) t) :
    S.SameElems F (.ofTerm t) v := by
  intro o σ hσ
  obtain ⟨w, hw, hl⟩ := h.like hS ht (.sameness o) hσ (fun _ ↦ rfl) (.refl _)
  rw [show Sense.ofTerm t σ = w true from (hw true).result_eq]
  exact hl.same true

/-! ## Comparing normal forms -/

/-- Types with α-equivalent normal forms are the same. -/
theorem IsType.sameTypes (hF : S.IsType s F) (hG : S.IsType s G)
    (ht : S.Spelled (S.readType F) t) (hu : S.Spelled (S.readType G) u)
    (h : ∀ j, (t j).alphaEquiv (u j)) : S.SameTypes F G := by
  intro o σ hσ
  obtain ⟨N, hN, hn⟩ := ht σ.run
  obtain ⟨M, hM, hm⟩ := hu σ.run
  have e : N.blur = M.blur := by
    rw [← hn.nameless, ← hm.nameless]
    exact (hS.alphaEquiv_iff hn.whole).1 (h σ.run)
  obtain ⟨as, hl, hf, hd⟩ := hF.denotes hS true (.sameness o) hσ (fun _ ↦ rfl) hN
  obtain ⟨bs, hl', hf', hd'⟩ := hG.denotes hS true (.sameness o) hσ (fun _ ↦ rfl) hM
  obtain ⟨Y, hY, hYF⟩ := hd _ _ _ hf (Term.Names.spellsBlurred hn rfl hl)
  obtain ⟨Z, hZ, hZG⟩ := hd' _ _ _ hf' (Term.Names.spellsBlurred hn e hl')
  have hYZ := (hY true).unique (hZ true)
  exact (hYF.same true).symm.trans (hYZ ▸ hZG.same true)

/-- Elements with α-equivalent normal forms are the same. -/
theorem IsElem.sameElems (hv : S.IsElem F v) (hw : S.IsElem F w)
    (ht : S.Spelled (S.readElem F v) t) (hu : S.Spelled (S.readElem F w) u)
    (h : ∀ j, (t j).alphaEquiv (u j)) : S.SameElems F v w := by
  intro o σ hσ
  obtain ⟨N, hN, hn⟩ := ht σ.run
  obtain ⟨M, hM, hm⟩ := hu σ.run
  have e : N.blur = M.blur := by
    rw [← hn.nameless, ← hm.nameless]
    exact (hS.alphaEquiv_iff hn.whole).1 (h σ.run)
  obtain ⟨as, hl, hf, hd⟩ := hv.denotes hS true (.sameness o) hσ (fun _ ↦ rfl) hN
  obtain ⟨bs, hl', hf', hd'⟩ := hw.denotes hS true (.sameness o) hσ (fun _ ↦ rfl) hM
  obtain ⟨y, hy, hyv⟩ := hd _ _ _ hf (Term.Names.spellsBlurred hn rfl hl)
  obtain ⟨z, hz, hzw⟩ := hd' _ _ _ hf' (Term.Names.spellsBlurred hn e hl')
  have hyz := (hy true).unique (hz true)
  exact (hyv.same true).symm.trans (hyz ▸ hzw.same true)

/-- Types that are the same have α-equivalent normal forms. -/
theorem SameTypes.alphaEquiv (h : S.SameTypes F G) (ht : S.Spelled (S.readType F) t)
    (hu : S.Spelled (S.readType G) u) (j : J) : (t j).alphaEquiv (u j) := by
  obtain ⟨N, hN, hn⟩ := ht j
  obtain ⟨M, hM, hm⟩ := hu j
  obtain ⟨N', M', hN', hM', e⟩ := (h (hS.hasHere j)).readAlike S.size
  rw [hS.alphaEquiv_iff hn.whole, hn.nameless, hm.nameless, hN.unique hN', hM.unique hM', e]

/-- Elements that are the same have α-equivalent normal forms, also at types that are the same. -/
theorem SameElems.alphaEquiv (h : S.SameElems F v w) (hFG : S.SameTypes F G)
    (ht : S.Spelled (S.readElem F v) t) (hu : S.Spelled (S.readElem G w) u) (j : J) :
    (t j).alphaEquiv (u j) := by
  obtain ⟨N, hN, hn⟩ := ht j
  obtain ⟨M, hM, hm⟩ := hu j
  obtain ⟨N', M', hN', hM', e⟩ := (h (hS.hasHere j)).readAlike (hFG (hS.hasHere j)) S.size
  rw [hS.alphaEquiv_iff hn.whole, hn.nameless, hm.nameless, hN.unique hN', hM.unique hM', e]

end Terms

end Situation

end LittleTypes
