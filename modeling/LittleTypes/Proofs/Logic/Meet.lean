import LittleTypes.Proofs.Logic.Motives

/-!
# Many logics at once

A face of a logic is a smaller logic that concerns some of its sides.  What is a type, or an
element, in several sound logics at once is so in a sound logic, as long as they concern all sides
together.  That functions and pairs are as they should be is then known beforehand, by each of the
faces.
-/

namespace LittleTypes.Idealized

/-- A logic that concerns some of the sides, in worlds that say less. -/
structure Face (Index World : Type) where
  /-- The logic. -/
  logic : Logic
  /-- Which sides it concerns. -/
  side : logic.Index → Index
  /-- What it needs to know of a world. -/
  world : World → logic.World

namespace Face

variable {Index World : Type} (P : Face Index World)

/-- A tuple, as far as a face is concerned. -/
abbrev restrict {α : Type} (v : Index → α) : P.logic.Index → α := fun i ↦ v (P.side i)

/-- The components are a type of the face. -/
abbrev IsType (s : Size) (ω : World) (X : Index → Value) : Prop :=
  P.logic.type s (P.world ω) (P.restrict X)

/-- The components are an element of the face. -/
abbrev IsElem (ω : World) (X v : Index → Value) : Prop :=
  P.logic.elem (P.world ω) (P.restrict X) (P.restrict v)

end Face

/-- How faces have to fit to a logic. -/
structure Logic.Faces (L : Logic) {J : Type} (face : J → Face L.Index L.World) : Prop where
  model : ∀ j i, (face j).logic.model i = L.model ((face j).side i)
  world : ∀ j {ω ω'}, L.le ω ω' → (face j).logic.le ((face j).world ω) ((face j).world ω')
  sound : ∀ j, (face j).logic.Sound

/-- What is a type or an element for all faces. -/
abbrev Logic.meet (L : Logic) {J : Type} (face : J → Face L.Index L.World) : Logic where
  Index := L.Index
  World := L.World
  le := L.le
  model := L.model
  type s ω X := ∀ j, (face j).IsType s ω X
  elem ω X v := ∀ j, (face j).IsElem ω X v
  preType s ω X := ∀ j, (face j).IsType s ω X
  preElem ω X v := ∀ j, (face j).IsElem ω X v

namespace Logic.Faces

variable {L : Logic} {J : Type} {face : J → Face L.Index L.World} (hJ : L.Faces face)
  (le_refl : ∀ ω, L.le ω ω) (le_trans : ∀ {ω₁ ω₂ ω₃}, L.le ω₁ ω₂ → L.le ω₂ ω₃ → L.le ω₁ ω₃)
  (covers : ∀ i, ∃ j i', (face j).side i' = i)

include covers

/-- What runs for each face runs on all sides, to the same answers. -/
theorem runs {p : L.Index → Plan Value} {Q : ∀ j, ((face j).logic.Index → Value) → Prop}
    (h : ∀ j, ∃ v, (∀ i, Runs (p ((face j).side i)) (v i)) ∧ Q j v) :
    ∃ v, (∀ i, Runs (p i) (v i)) ∧ ∀ j, Q j ((face j).restrict v) := by
  have hr : ∀ i, Runs (p i) (p i).result := by
    intro i
    obtain ⟨j, i', rfl⟩ := covers i
    obtain ⟨v, hv, -⟩ := h j
    exact .of_exists ⟨_, hv i'⟩
  refine ⟨fun i ↦ (p i).result, hr, fun j ↦ ?_⟩
  obtain ⟨v, hv, hQ⟩ := h j
  have e : (face j).restrict (fun i ↦ (p i).result) = v := funext fun i ↦ (hv i).result_eq
  rwa [e]

include hJ le_refl le_trans

theorem meet_stable : (L.meet face).Stable where
  le_refl := le_refl
  le_trans := le_trans
  type_mono h hω j := (hJ.sound j).type_mono (h j) (hJ.world j hω)
  elem_mono h hω j := (hJ.sound j).elem_mono (h j) (hJ.world j hω)
  type_seen h hs j := (hJ.sound j).type_seen (h j) fun i ↦ hs _
  elem_seen h hs j := (hJ.sound j).elem_seen (h j) fun i ↦ hs _
  type_large h j := (hJ.sound j).type_large (h j)
  typeAt h i := by
    obtain ⟨j, i, rfl⟩ := covers i
    exact hJ.model j i ▸ (hJ.sound j).typeAt (h j) i
  same h i := by
    obtain ⟨j, i, rfl⟩ := covers i
    exact hJ.model j i ▸ (hJ.sound j).same (h j) i
  elem_type h j := (hJ.sound j).elem_type (h j)
  conv h hY hXY j := (hJ.sound j).conv (h j) (hY j) fun i ↦ (hJ.model j i).symm ▸ hXY _
  univ_iff := forall_congr' fun j ↦ (hJ.sound j).univ_iff
  typeKnown h := h
  elemKnown h := h

omit le_refl le_trans

omit covers in
theorem meet_forms : (L.meet face).Forms where
  univ j := (hJ.sound j).univ
  nat j := (hJ.sound j).nat
  atom j := (hJ.sound j).atom
  trivial j := (hJ.sound j).trivial
  absurd j := (hJ.sound j).absurd
  list h j := (hJ.sound j).list (h j)
  vec h hl j := (hJ.sound j).vec (h j) (hl j)
  equal h ha hb j := (hJ.sound j).equal (h j) (ha j) (hb j)
  either h h' j := (hJ.sound j).either (h j) (h' j)
  pi _ _ h := h
  sigma _ _ h := h

/-- A family for each face is a family. -/
theorem family {s : Size} {ω : L.World} {d : L.Index → Value} {f : L.Index → Closure}
    (h : ∀ j, (face j).logic.Family s ((face j).world ω) ((face j).restrict d)
      ((face j).restrict f)) : (L.meet face).Family s ω d f := fun _ hω a ha ↦
  runs covers (p := fun i ↦ enter (f i) (a i)) fun j ↦ h j _ (hJ.world j hω) _ (ha j)

theorem meet_inverts : (L.meet face).Inverts where
  of_list h j := (hJ.sound j).of_list (h j)
  of_vec h := ⟨fun j ↦ ((hJ.sound j).of_vec (h j)).1, fun j ↦ ((hJ.sound j).of_vec (h j)).2⟩
  of_equal h := ⟨fun j ↦ ((hJ.sound j).of_equal (h j)).1,
    fun j ↦ ((hJ.sound j).of_equal (h j)).2.1, fun j ↦ ((hJ.sound j).of_equal (h j)).2.2⟩
  of_either h :=
    ⟨fun j ↦ ((hJ.sound j).of_either (h j)).1, fun j ↦ ((hJ.sound j).of_either (h j)).2⟩
  of_pi h := ⟨fun j ↦ ((hJ.sound j).of_pi (h j)).1,
    family hJ covers fun j ↦ ((hJ.sound j).of_pi (h j)).2⟩
  of_sigma h := ⟨fun j ↦ ((hJ.sound j).of_sigma (h j)).1,
    family hJ covers fun j ↦ ((hJ.sound j).of_sigma (h j)).2⟩

omit covers in
theorem meet_constructs : (L.meet face).Constructs where
  zero j := (hJ.sound j).zero
  add1 h j := (hJ.sound j).add1 (h j)
  pred h j := (hJ.sound j).pred (h j)
  quote s j := (hJ.sound j).quote s
  sole j := (hJ.sound j).sole
  nil h j := (hJ.sound j).nil (h j)
  listCons h ht j := (hJ.sound j).listCons (h j) (ht j)
  rest h j := (hJ.sound j).rest (h j)
  vecnil h j := (hJ.sound j).vecnil (h j)
  vecCons hk h ht j := (hJ.sound j).vecCons (hk j) (h j) (ht j)
  refl h j := (hJ.sound j).refl (h j)
  left hr h j := (hJ.sound j).left (hr j) (h j)
  right hl h j := (hJ.sound j).right (hl j) (h j)

theorem meet_applies : (L.meet face).Applies where
  cons h ha hY he j := (hJ.sound j).cons (h j) (ha j) (fun _ ↦ hY _) (he j)
  lam _ h _ := h
  apply hp ha hY := runs covers fun j ↦ (hJ.sound j).apply (hp j) (ha j) fun _ ↦ hY _
  car hp := runs covers fun j ↦ (hJ.sound j).car (hp j)
  cdr hp ha hY := runs covers fun j ↦ (hJ.sound j).cdr (hp j) (fun _ ↦ ha _) fun _ ↦ hY _

omit covers in
theorem meet_motives : (L.meet face).Motives where
  arrow hd hX j := (hJ.sound j).arrow (hd j) (hX j)
  indNatStep hM j := (hJ.sound j).indNatStep (hM j)
  listTailStep he hM hh j := (hJ.sound j).listTailStep (he j) (hM j) (hh j)
  indListStep he hM j := (hJ.sound j).indListStep (he j) (hM j)
  indEitherLeft hl hr hM j := (hJ.sound j).indEitherLeft (hl j) (hr j) (hM j)
  indEitherRight hl hr hM j := (hJ.sound j).indEitherRight (hl j) (hr j) (hM j)
  indEqualMotive ht ha j := (hJ.sound j).indEqualMotive (ht j) (ha j)
  indVecMotive he j := (hJ.sound j).indVecMotive (he j)
  vecTailStep he hM hk hh j := (hJ.sound j).vecTailStep (he j) (hM j) (hk j) (hh j)
  vecHeadStep he hM hk j := (hJ.sound j).vecHeadStep (he j) (hM j) (hk j)
  indVecStep he hM j := (hJ.sound j).indVecStep (he j) (hM j)

theorem meet_recurs : (L.meet face).Recurs where
  recursor k hB ht hb hs :=
    runs covers fun j ↦ (hJ.sound j).recursor k (hB j) (ht j) (hb j) (hs j)
  indNat hM hb hs ht := runs covers fun j ↦ (hJ.sound j).indNat (hM j) (hb j) (hs j) (ht j)
  indList hM hb hs ht := runs covers fun j ↦ (hJ.sound j).indList (hM j) (hb j) (hs j) (ht j)
  indEither hM hb hs ht := runs covers fun j ↦ (hJ.sound j).indEither (hM j) (hb j) (hs j) (ht j)
  head ht := runs covers fun j ↦ (hJ.sound j).head (ht j)
  tail ht := runs covers fun j ↦ (hJ.sound j).tail (ht j)
  indVec hM hb hs ht := runs covers fun j ↦ (hJ.sound j).indVec (hM j) (hb j) (hs j) (ht j)

theorem meet_transports : (L.meet face).Transports where
  symm hp := runs covers fun j ↦ (hJ.sound j).symm (hp j)
  trans hp hq := runs covers fun j ↦ (hJ.sound j).trans (hp j) (hq j)
  cong hC hf hp := runs covers fun j ↦ (hJ.sound j).cong (hC j) (hf j) (hp j)
  replace hM hk hp := runs covers fun j ↦ (hJ.sound j).replace (hM j) (hk j) (hp j)
  indEqual hM hk hp := runs covers fun j ↦ (hJ.sound j).indEqual (hM j) (hk j) (hp j)
  indAbsurd hM hp := runs covers fun j ↦ (hJ.sound j).indAbsurd (hM j) (hp j)
  hole l ho hX j := (hJ.sound j).hole l (fun i ↦ hJ.model j i ▸ ho _) (hX j)

include le_refl le_trans in
/-- What is a type or an element for all faces makes up a sound logic. -/
theorem meet_sound : (L.meet face).Sound :=
  { meet_stable hJ le_refl le_trans covers, meet_forms hJ, meet_inverts hJ covers,
    meet_constructs hJ, meet_applies hJ covers, meet_motives hJ, meet_recurs hJ covers,
    meet_transports hJ covers with }

end Logic.Faces

end LittleTypes.Idealized
