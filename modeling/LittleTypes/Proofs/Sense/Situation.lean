import LittleTypes.Proofs.Adequacy.Reader
import LittleTypes.Proofs.Glue.Tower

/-!
# Situations

Terms are checked in a situation: several runs of the checker that are to be compared, each with a
context of its own, all of them with the same names.  In every logic a situation says which settings
are considered, that is which values the names may have on each side.  The sense of an expression is
its value in each setting.

What holds in all settings of all towers is what typing guarantees.  The values that the contexts
themselves give to the names, where unknown values stand for themselves, are one setting among
others; and as something can always be glued to it, what normal forms have in common there the
expressions have in common everywhere.
-/

namespace LittleTypes

open Idealized (Logic Tower Ground Face GlueWorld Fits Runs Size SameType TypeAt Same SeenAs)

/-- One of several runs, and values for the names in scope. -/
structure Setting (J : Type) where
  run : J
  env : Idealized.Env

namespace Setting

variable {J : Type}

/-- One more name. -/
def cons (σ : Setting J) (x : String) (v : Idealized.Value) : Setting J := ⟨σ.run, .cons x v σ.env⟩

/-- One name less. -/
def tail : Setting J → Setting J
  | ⟨j, .cons _ _ ρ⟩ => ⟨j, ρ⟩
  | σ => σ

@[simp] theorem tail_cons (σ : Setting J) (x : String) (v : Idealized.Value) :
    (σ.cons x v).tail = σ := rfl

@[simp] theorem run_cons (σ : Setting J) (x : String) (v : Idealized.Value) :
    (σ.cons x v).run = σ.run := rfl

@[simp] theorem env_cons (σ : Setting J) (x : String) (v : Idealized.Value) :
    (σ.cons x v).env = .cons x v σ.env := rfl

end Setting

/-- What an expression means in each setting. -/
abbrev Sense (J : Type) := Setting J → Idealized.Value

/-- The sense of a term, which may be a different one in each run. -/
noncomputable def Sense.ofTerm {J : Type} (t : J → Term) : Sense J :=
  fun σ ↦ (Idealized.eval σ.env (t σ.run)).result

/-- What is the same type or the same element on every side is a type or an element, and nothing
has to be known beforehand. -/
structure Idealized.Logic.Flexible (L : Logic) : Prop where
  type : ∀ {s ω X Y}, L.type s ω X → (∀ i, SameType (L.model i) (X i) (Y i)) → L.type s ω Y
  elem : ∀ {ω X v w}, L.elem ω X v → (∀ i, Same (L.model i) (X i) (v i) (w i)) → L.elem ω X w
  preType : ∀ s ω X, L.preType s ω X
  preElem : ∀ ω X v, L.preElem ω X v

theorem Idealized.Logic.sameness_flexible {o : Prop} : (Logic.sameness o).Flexible where
  type h hXY := ((TypeAt.transLarge h (hXY true)).symm.transLarge (hXY false)).symm
  elem h hvw := ⟨h.1, (hvw false).symm.trans (h.2.trans ((hvw true).conv h.1.symm))⟩
  preType _ _ _ := trivial
  preElem _ _ _ := trivial

/-- What terms are checked in. -/
structure Situation (R : Regime) (J : Type) where
  /-- The contexts of all runs. -/
  context : J → R.Index → Context
  /-- The names in scope. -/
  names : List String
  /-- The levels of the names that stand for unknown values. -/
  levels : Levels
  /-- The number of unknown values. -/
  size : Nat
  /-- The values of the names in the contexts. -/
  self : J → Idealized.Env
  /-- Whether there are unfinished expressions. -/
  unfinished : Prop
  /-- The settings that are considered in a world of a logic. -/
  Holds : (L : Logic) → L.World → (L.Index → Setting J) → Prop
  /-- The types of the names that can be used. -/
  typeOf : String → Option (Sense J)

namespace Situation

variable {R : Regime} {J : Type} (S : Situation R J)

/-! ## What holds in a situation -/

/-- The setting of the context of a run. -/
def here (j : J) : Setting J := ⟨j, S.self j⟩

/-- The setting of the context of a run, beside others. -/
def join {I : Type} (j : J) (σ : I → Setting J) : Option I → Setting J
  | none => S.here j
  | some i => σ i

/-- Values of all runs stand for a sense. -/
def Means (v : J → R.Index → Value) (F : Sense J) : Prop :=
  ∀ j, Stands R S.levels .value (v j) (F (S.here j))

/-- A sense is a type of a size. -/
def IsType (s : Size) (F : Sense J) : Prop :=
  ∀ ⦃L : Logic⦄, Tower L → ∀ ⦃ω σ⦄, S.Holds L ω σ → L.type s ω fun i ↦ F (σ i)

/-- A sense is an element of another. -/
def IsElem (F v : Sense J) : Prop :=
  ∀ ⦃L : Logic⦄, Tower L → ∀ ⦃ω σ⦄, S.Holds L ω σ → L.elem ω (fun i ↦ F (σ i)) fun i ↦ v (σ i)

/-- Environments that give the same values to the names in scope, and maybe more names. -/
def Reaches {I : Type} (σ : I → Setting J) (τ : I → Idealized.Env) : Prop :=
  ∀ i, ∀ x ∈ S.names, (τ i).lookup x = (σ i).env.lookup x

/-- A term is a type of a size. -/
def TypeTerm (s : Size) (t : J → Term) : Prop :=
  ∀ ⦃L : Logic⦄, Tower L → ∀ ⦃ω σ τ⦄, S.Holds L ω σ → S.Reaches σ τ →
    ∃ Y, (∀ i, Runs (Idealized.eval (τ i) (t (σ i).run)) (Y i)) ∧ L.type s ω Y

/-- A term is an element of a type. -/
def HasType (F : Sense J) (t : J → Term) : Prop :=
  ∀ ⦃L : Logic⦄, Tower L → ∀ ⦃ω σ τ⦄, S.Holds L ω σ → S.Reaches σ τ →
    L.Run ω (fun i ↦ F (σ i)) fun i ↦ Idealized.eval (τ i) (t (σ i).run)

/-- A setting is considered by itself. -/
def Has (o : Prop) (σ : Setting J) : Prop := S.Holds (.sameness o) () fun _ ↦ σ

/-- Two senses are the same type. -/
def SameTypes (F G : Sense J) : Prop := ∀ ⦃o σ⦄, S.Has o σ → SameType o (F σ) (G σ)

/-- Two senses are the same element of a type. -/
def SameElems (F v w : Sense J) : Prop := ∀ ⦃o σ⦄, S.Has o σ → Same o (F σ) (v σ) (w σ)

/-- What is seen of a sense. -/
def Sees (F V : Sense J) : Prop := ∀ ⦃o σ⦄, S.Has o σ → Idealized.Looks (F σ) (V σ)

/-- A situation that fits its contexts. -/
structure Coherent : Prop where
  names : ∀ j n, (S.context j n).names = S.names
  bound : ∀ x i, S.levels x = some i → x ∈ S.names
  env : ∀ j, Stands R S.levels .env (fun n ↦ (S.context j n).env) (S.self j)
  unknown : ∀ {x}, S.typeOf x = none → ∀ j n, (S.context j n).typeOf? x = none
  known : ∀ {x T}, S.typeOf x = some T →
    ∃ v, S.Means v T ∧ ∀ j n, (S.context j n).typeOf? x = some (v j n)
  named : ∀ {x T}, S.typeOf x = some T → x ∈ S.names
  free : ∀ {x i}, S.levels x = some i → ∀ j n, ∃ t, (x, .free t) ∈ S.context j n
  below : ∀ x i, S.levels x = some i → i < S.size
  injective : ∀ x y i, S.levels x = some i → S.levels y = some i → x = y
  mono : ∀ {L}, Tower L → ∀ {ω ω' σ}, S.Holds L ω σ → L.le ω ω' → S.Holds L ω' σ
  side : ∀ {L}, Tower L → ∀ {ω σ}, S.Holds L ω σ → ∀ i, S.Has (L.model i) (σ i)
  /-- Different runs are compared only where a type is all that it is the same as. -/
  uniform : ∀ {L ω σ}, S.Holds L ω σ → (∃ j, ∀ i, (σ i).run = j) ∨ L.Flexible
  /-- What holds on all sides holds for the faces. -/
  face : ∀ {L : Logic} {I : Type} {P : I → Face L.Index L.World}, L.Rests P →
    (∀ k, Tower (P k).logic) → ∀ {ω σ j}, S.Holds L ω σ → (∀ i, (σ i).run = j) →
      ∀ k, S.Holds (P k).logic ((P k).world ω) ((P k).restrict σ)
  /-- Unfinished expressions have no value where there are no unknown values. -/
  model : ∀ {L ω σ}, S.Holds L ω σ → S.unfinished → ∀ i, L.model i
  var : ∀ {L}, Tower L → ∀ {ω σ x T}, S.Holds L ω σ → S.typeOf x = some T →
    ∃ a, (∀ i, (σ i).env.lookup x = some (a i)) ∧ L.elem ω (fun i ↦ T (σ i)) a
  here : ∀ j j', S.Holds (.sameness True) () (Logic.pair (S.here j) (S.here j'))
  /-- The contexts can be glued to every setting of their run. -/
  glue : ∀ {L} {K : Ground L}, K.Good → Tower K.glue → ∀ {ω σ j}, S.Holds L ω σ →
    (∀ i, (σ i).run = j) → ∃ as : List (L.Index → Idealized.Value), as.length = S.size ∧
      Fits S.levels as (fun i ↦ (σ i).env) ∧ S.Holds K.glue ⟨ω, as⟩ (S.join j σ)

variable {S} {s : Size} {F G : Sense J} {t : J → Term}

/-! ## Environments -/

theorem Reaches.refl {I : Type} (σ : I → Setting J) : S.Reaches σ fun i ↦ (σ i).env :=
  fun _ _ _ ↦ rfl

/-! ## Terms and their senses -/

theorem Coherent.surveyed (hS : S.Coherent) (j : J) :
    Surveyed R S.names S.levels (S.context j) := ⟨hS.names j, hS.bound⟩

theorem Coherent.hasHere (hS : S.Coherent) (j : J) : S.Has True (S.here j) :=
  hS.side (.sameness True) (hS.here j j) false

theorem TypeTerm.isType (h : S.TypeTerm s t) : S.IsType s (.ofTerm t) := by
  intro L hL ω σ hσ
  obtain ⟨Y, hY, hT⟩ := h hL hσ (.refl σ)
  rwa [show (fun i ↦ Sense.ofTerm t (σ i)) = Y from funext fun i ↦ (hY i).result_eq]

theorem HasType.isElem (h : S.HasType F t) : S.IsElem F (.ofTerm t) := by
  intro L hL ω σ hσ
  exact (h hL hσ (.refl σ)).result

theorem IsElem.isType {v : Sense J} (h : S.IsElem F v) : S.IsType .large F := fun _ hL _ _ hσ ↦
  hL.sound.elem_type (h hL hσ)

theorem HasType.isType (h : S.HasType F t) : S.IsType .large F := h.isElem.isType

/-- The elements of the universe are the small types. -/
theorem hasType_univ_iff : S.HasType (fun _ ↦ .const .univ) t ↔ S.TypeTerm .small t := by
  constructor
  · intro h L hL ω σ τ hσ hτ
    obtain ⟨Y, hY, hU⟩ := h hL hσ hτ
    exact ⟨Y, hY, hL.sound.univ_iff.1 hU⟩
  · intro h L hL ω σ τ hσ hτ
    obtain ⟨Y, hY, hT⟩ := h hL hσ hτ
    exact ⟨Y, hY, hL.sound.univ_iff.2 hT⟩

theorem TypeTerm.large (h : S.TypeTerm s t) : S.TypeTerm .large t := by
  intro L hL ω σ τ hσ hτ
  obtain ⟨Y, hY, hT⟩ := h hL hσ hτ
  exact ⟨Y, hY, hL.sound.type_large hT⟩

/-! ### In a single setting -/

section Single

variable {o : Prop} {σ : Setting J}

theorem IsType.self (h : S.IsType s F) (hσ : S.Has o σ) : TypeAt s o (F σ) (F σ) :=
  h (.sameness o) hσ

theorem IsElem.self {v : Sense J} (h : S.IsElem F v) (hσ : S.Has o σ) :
    Same o (F σ) (v σ) (v σ) := (h (.sameness o) hσ).2

theorem TypeTerm.runs (h : S.TypeTerm s t) (hσ : S.Has o σ) :
    Runs (Idealized.eval σ.env (t σ.run)) (Sense.ofTerm t σ) := by
  obtain ⟨Y, hY, -⟩ := h (.sameness o) hσ (.refl _)
  exact .of_exists ⟨_, hY false⟩

theorem HasType.runs (h : S.HasType F t) (hσ : S.Has o σ) :
    Runs (Idealized.eval σ.env (t σ.run)) (Sense.ofTerm t σ) :=
  Logic.Run.runs (h (.sameness o) hσ (.refl _)) false

end Single

/-! ### In larger environments -/

section Larger

variable {L : Logic} {ω : L.World} {σ : L.Index → Setting J} {τ : L.Index → Idealized.Env}

variable (hS : S.Coherent)

include hS

/-- Whatever else the environment has, the term is the same type. -/
theorem TypeTerm.sameRun (h : S.TypeTerm s t) (hL : Tower L) (hσ : S.Holds L ω σ)
    (hτ : S.Reaches σ τ) {i : L.Index} {Y : Idealized.Value}
    (hY : Runs (Idealized.eval (τ i) (t (σ i).run)) Y) :
    SameType (L.model i) Y (Sense.ofTerm t (σ i)) := by
  obtain ⟨Z, hZ, hT⟩ := h (.sameness (L.model i)) (τ := Logic.pair (τ i) (σ i).env)
    (hS.side hL hσ i) (by rintro (_ | _) x hx; exacts [hτ i x hx, rfl])
  have h₁ : Sense.ofTerm t (σ i) = Z true := (hZ true).result_eq
  rw [h₁, hY.unique (hZ false)]
  exact TypeAt.sameType hT

/-- Whatever else the environment has, the term is the same element. -/
theorem HasType.sameRun (h : S.HasType F t) (hL : Tower L) (hσ : S.Holds L ω σ)
    (hτ : S.Reaches σ τ) {i : L.Index} {v : Idealized.Value}
    (hv : Runs (Idealized.eval (τ i) (t (σ i).run)) v) :
    Same (L.model i) (F (σ i)) v (Sense.ofTerm t (σ i)) := by
  obtain ⟨w, hw, he⟩ := h (.sameness (L.model i)) (τ := Logic.pair (τ i) (σ i).env)
    (hS.side hL hσ i) (by rintro (_ | _) x hx; exacts [hτ i x hx, rfl])
  have h₁ : Sense.ofTerm t (σ i) = w true := (hw true).result_eq
  rw [h₁, hv.unique (hw false)]
  exact he.2

/-! ## Conversion -/

theorem SameTypes.at (h : S.SameTypes F G) (hL : Tower L) (hσ : S.Holds L ω σ) (i : L.Index) :
    SameType (L.model i) (F (σ i)) (G (σ i)) := h (hS.side hL hσ i)

theorem Sees.at {V : Sense J} (h : S.Sees F V) (hL : Tower L) (hσ : S.Holds L ω σ)
    (i : L.Index) : Idealized.Looks (F (σ i)) (V (σ i)) := h (hS.side hL hσ i)

theorem HasType.conv (h : S.HasType F t) (hG : S.IsType .large G) (hFG : S.SameTypes F G) :
    S.HasType G t := fun _ hL _ _ _ hσ hτ ↦
  hL.sound.convRun (h hL hσ hτ) (hG hL hσ) (hFG.at hS hL hσ)

theorem IsElem.conv {v : Sense J} (h : S.IsElem F v) (hG : S.IsType .large G)
    (hFG : S.SameTypes F G) : S.IsElem G v := fun _ hL _ _ hσ ↦
  hL.sound.conv (h hL hσ) (hG hL hσ) (hFG.at hS hL hσ)

theorem IsType.sees {V : Sense J} (h : S.IsType s F) (hV : S.Sees F V) : S.IsType s V :=
  fun _ hL _ _ hσ ↦ hL.sound.type_looks (h hL hσ) (hV.at hS hL hσ)

omit hS in
theorem Sees.sameTypes {V : Sense J} (hV : S.Sees F V) (h : S.IsType s F) : S.SameTypes F V :=
  fun _ _ hσ ↦ (h.self hσ).sameType.seenRight (.seen (hV hσ))

theorem HasType.sees {V : Sense J} (h : S.HasType F t) (hV : S.Sees F V) : S.HasType V t :=
  h.conv hS (h.isType.sees hS hV) (hV.sameTypes h.isType)

theorem HasType.ofSees {V : Sense J} (h : S.HasType V t) (hV : S.Sees F V)
    (hF : S.IsType .large F) : S.HasType F t :=
  h.conv hS hF fun _ _ hσ ↦ (hV.sameTypes hF hσ).symm

end Larger

end Situation

end LittleTypes
