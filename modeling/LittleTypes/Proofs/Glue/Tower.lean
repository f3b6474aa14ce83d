import LittleTypes.Proofs.Glue.Transports
import LittleTypes.Proofs.Logic.Meet
import LittleTypes.Proofs.Logic.Model

/-!
# Towers of gluings

Functions that belong together have to be functions on all sides, and this cannot be told from their
parts when not all arguments belong to something on the other sides.  It is known beforehand if all
faces of a gluing have been looked at before.  A tower is a logic whose faces are towers: the model
has none, and what is glued to a tower is a tower again.
-/

namespace LittleTypes.Idealized

/-- A sound logic, for which everything that has to be known beforehand is known by its faces. -/
structure Logic.Rests (L : Logic) {J : Type} (face : J → Face L.Index L.World) : Prop
    extends L.Faces face where
  base : L.Sound
  preType_iff : ∀ {s ω X}, L.preType s ω X ↔ ∀ j, (face j).IsType s ω X
  preElem_iff : ∀ {ω X v}, L.preElem ω X v ↔ ∀ j, (face j).IsElem ω X v
  covers : L.Full ∨ ∀ i, ∃ j i', (face j).side i' = i

/-- A logic whose faces are towers. -/
inductive Tower : Logic → Prop
  | mk {L : Logic} {J : Type} {face : J → Face L.Index L.World} (rests : L.Rests face)
    (faces : ∀ j, Tower (face j).logic) : Tower L

theorem Tower.sound {L : Logic} (h : Tower L) : L.Sound := by
  obtain ⟨hr, -⟩ := h
  exact hr.base

/-! ## The model -/

theorem Logic.sameness_full {o : Prop} : (sameness o).Full := by
  intro ω X i a hX ha
  refine ⟨fun _ ↦ a, ⟨hX, ?_⟩, rfl⟩
  cases i with
  | false => exact ha
  | true => exact ha.conv hX.symm

/-- The model is the ground of all towers. -/
theorem Tower.sameness (o : Prop) : Tower (Logic.sameness o) :=
  @Tower.mk _ Empty Empty.elim
    { model := nofun
      world := nofun
      sound := nofun
      base := Logic.sameness_sound
      preType_iff := ⟨nofun, fun _ ↦ trivial⟩
      preElem_iff := ⟨nofun, fun _ ↦ trivial⟩
      covers := .inl Logic.sameness_full }
    nofun

/-! ## Faces of a gluing -/

/-- A world with values, as far as a face is concerned. -/
def GlueWorld.restrict {L : Logic} (W : GlueWorld L) (P : Face L.Index L.World) :
    GlueWorld P.logic :=
  ⟨P.world W.base, W.values.map P.restrict⟩

theorem GlueWorld.size_restrict {L : Logic} (W : GlueWorld L) {P : Face L.Index L.World} :
    (W.restrict P).size = W.size := List.length_map _

namespace Face

variable {L : Logic}

/-- The new side, in the model with unknown values. -/
def fresh (L : Logic) : Face (Option L.Index) (GlueWorld L) where
  logic := Logic.sameness True
  side _ := none
  world _ := ()

/-- The other sides, in the logic itself. -/
def old (L : Logic) : Face (Option L.Index) (GlueWorld L) where
  logic := L
  side := some
  world W := W.base

/-- The new side, glued to a face. -/
def glued (P : Face L.Index L.World) (K : Ground P.logic) :
    Face (Option L.Index) (GlueWorld L) where
  logic := K.glue
  side := Option.map P.side
  world W := W.restrict P

/-- All faces of a gluing. -/
def ofGlue {J : Type} (face : J → Face L.Index L.World) (K : ∀ j, Ground (face j).logic) :
    Option (Option J) → Face (Option L.Index) (GlueWorld L)
  | none => fresh L
  | some none => old L
  | some (some j) => (face j).glued (K j)

end Face

section Ground

variable {L : Logic} {J : Type} {face : J → Face L.Index L.World} {K : ∀ j, Ground (face j).logic}
  {c : Bool} {s : Size} {W W' : GlueWorld L} {X v : Option L.Index → Value}

/-- The ground on which all faces are glued. -/
def Ground.ofFaces (c : Bool) (face : J → Face L.Index L.World) (K : ∀ j, Ground (face j).logic) :
    Ground L where
  blurs := c
  type s W X := ∀ j, (Face.ofGlue face K j).IsType s W X
  elem W X v := ∀ j, (Face.ofGlue face K j).IsElem W X v

/-- Names have the values of a face too. -/
theorem Fits.restrict {θ : Levels} {ρ : L.Index → Env} (h : Fits θ W.values ρ)
    (P : Face L.Index L.World) : Fits θ (W.restrict P).values (P.restrict ρ) := by
  intro x k hk
  obtain ⟨a, ha, hρ⟩ := h x k hk
  exact ⟨P.restrict a, by simp [GlueWorld.restrict, ha], fun i ↦ hρ _⟩

variable (hr : L.Rests face) (hK : ∀ j, (K j).Good) (hc : ∀ j, (K j).blurs = c)

include hr hK

theorem Logic.Rests.faces_glue : (Ground.ofFaces c face K).glue.Faces (Face.ofGlue face K) where
  model
    | none, _ => rfl
    | some none, _ => rfl
    | some (some _), none => rfl
    | some (some j), some i => hr.model j i
  world := by
    rintro (_ | _ | j) W W' h
    · trivial
    · exact h.1
    · exact ⟨hr.world j h.1, h.2.map _⟩
  sound
    | none => Logic.sameness_sound
    | some none => hr.base
    | some (some j) => glue_sound (hK j)

omit hr hK in
theorem Face.ofGlue_covers :
    ∀ i, ∃ j i', (Face.ofGlue face K j).side i' = i
  | none => ⟨none, true, rfl⟩
  | some i => ⟨some none, i, rfl⟩

theorem Logic.Rests.ground_sound : (Ground.ofFaces c face K).logic.Sound :=
  (hr.faces_glue (c := c) hK).meet_sound (GlueWorld.le_refl hr.base.toStable)
    (GlueWorld.le_trans hr.base.toStable) Face.ofGlue_covers

include hc

/-- A type is read back as a form that denotes types of every face. -/
theorem Logic.Rests.readsType (h : (Ground.ofFaces c face K).type s W X) :
    ∃ N, Reads W.size (.type (X none)) N ∧ AssuresType c s W N (others X) := by
  obtain ⟨N, -, hN, -⟩ := (TypeAt.sameType (h none)).readAlike W.size
  have hj : ∀ j θ ρ t Y, Fits θ W.values ρ → Spells c θ W.size t N →
      (∀ i, Runs (eval (ρ i) t) (Y i)) → (face j).logic.LikeType s ((face j).world W.base)
        ((face j).restrict (others X)) ((face j).restrict Y) := by
    intro j θ ρ t Y hρ ht hY
    have hs : GlueType (K j) s (W.restrict (face j)) fun i ↦ X (i.map (face j).side) :=
      h (some (some j))
    obtain ⟨N', hN', hd⟩ := hs.shows (hK j) _ (GlueWorld.le_refl (hK j).base.toStable _)
    rw [W.size_restrict] at hN'
    obtain rfl := hN.unique hN'
    obtain ⟨Y', hY', hl⟩ := hd θ _ t (hρ.restrict (face j)) (by rwa [hc, W.size_restrict])
    obtain rfl : (face j).restrict Y = Y' := funext fun i ↦ (hY _).unique (hY' i)
    exact hl
  refine ⟨N, hN, fun θ ρ t Y hρ ht hY ↦
    ⟨hr.preType_iff.2 fun j ↦ (hj j θ ρ t Y hρ ht hY).type, ?_⟩⟩
  refine hr.covers.imp_right fun hi i ↦ ?_
  obtain ⟨j, i, rfl⟩ := hi i
  exact hr.model j i ▸ (hj j θ ρ t Y hρ ht hY).same i

/-- An element is read back as a form that denotes elements of every face. -/
theorem Logic.Rests.reads (h : (Ground.ofFaces c face K).elem W X v) :
    ∃ N, Reads W.size (.value (X none) (v none)) N ∧ Assures c W N (others X) (others v) := by
  obtain ⟨N, -, hN, -⟩ := (h none).2.readAlike (h none).1 W.size
  have hj : ∀ j θ ρ t w, Fits θ W.values ρ → Spells c θ W.size t N →
      (∀ i, Runs (eval (ρ i) t) (w i)) → (face j).logic.Like ((face j).world W.base)
        ((face j).restrict (others X)) ((face j).restrict (others v)) ((face j).restrict w) := by
    intro j θ ρ t w hρ ht hw
    have hs : GlueElem (K j) (W.restrict (face j)) (fun i ↦ X (i.map (face j).side))
      fun i ↦ v (i.map (face j).side) := h (some (some j))
    obtain ⟨N', hN', hd⟩ := hs.shows (hK j) _ (GlueWorld.le_refl (hK j).base.toStable _)
    rw [W.size_restrict] at hN'
    obtain rfl := hN.unique hN'
    obtain ⟨w', hw', hl⟩ := hd θ _ t (hρ.restrict (face j)) (by rwa [hc, W.size_restrict])
    obtain rfl : (face j).restrict w = w' := funext fun i ↦ (hw _).unique (hw' i)
    exact hl
  refine ⟨N, hN, fun θ ρ t w hρ ht hw ↦
    ⟨hr.preElem_iff.2 fun j ↦ (hj j θ ρ t w hρ ht hw).elem, ?_⟩⟩
  refine hr.covers.imp_right fun hi i ↦ ?_
  obtain ⟨j, i, rfl⟩ := hi i
  exact hr.model j i ▸ (hj j θ ρ t w hρ ht hw).same i

omit hc in
/-- An unknown value belongs together with the values of its level, for every face. -/
theorem Logic.Rests.var {k : Nat} (hX : (Ground.ofFaces c face K).type .large W X)
    (hk : W.values[k]? = some (others v)) (hv : Looks (v none) (.ofLevel k (X none)))
    (he : L.elem W.base (others X) (others v)) : (Ground.ofFaces c face K).elem W X v
  | none => by
    have h : Same True (X none) _ _ := Same.reflect (hX none) (Alike.var k)
    have hs : SeenAs (v none) (.ofLevel k (X none)) := SeenAs.of_looks hv
    exact ⟨hX none, (h.seen hs).seenRight hs⟩
  | some none => he
  | some (some j) => by
    have hX' := hX (some (some j))
    have he' := hr.preElem_iff.1 (hr.base.elemKnown he) j
    have hk' : (W.restrict (face j)).values[k]? = some ((face j).restrict (others v)) := by
      simp [GlueWorld.restrict, hk]
    exact .reflect (hK j) hX' hX' hX'.sameSelf hv ((hK j).var hX'.side hk' hv he')
      (.var (hK j).base.toStable hk' he')

/-- What is required of a ground holds of all faces together. -/
theorem Logic.Rests.good : (Ground.ofFaces c face K).Good where
  toSound := hr.ground_sound hK
  base := hr.base
  typeOthers h := h (some none)
  elemOthers h := h (some none)
  readsType := hr.readsType hK hc
  reads := hr.reads hK hc
  var := hr.var hK

end Ground

/-- What is glued to a tower is a tower. -/
theorem Tower.glue {L : Logic} (h : Tower L) (c : Bool) :
    ∃ K : Ground L, K.blurs = c ∧ K.Good ∧ Tower K.glue := by
  induction h with
  | @mk L J face hr hJ ih =>
    choose K hc hK hT using ih
    refine ⟨.ofFaces c face K, rfl, hr.good hK hc, ?_⟩
    refine @Tower.mk _ _ (Face.ofGlue face K)
      { hr.faces_glue hK with
        base := glue_sound (hr.good hK hc)
        preType_iff := Iff.rfl
        preElem_iff := Iff.rfl
        covers := .inr Face.ofGlue_covers } ?_
    rintro (_ | _ | j)
    · exact .sameness True
    · exact .mk hr hJ
    · exact hT j

end LittleTypes.Idealized
