import LittleTypes.Proofs.Glue.Readable

/-!
# The glued logic

A logic together with a new side, on which values may be unknown.  Types and elements are what
belongs together by some bond.
-/

namespace LittleTypes.Idealized

variable {L : Logic} {K : Ground L} {s : Size} {W W' : GlueWorld L}

variable (K) in
/-- Types of the glued logic. -/
structure GlueType (s : Size) (W : GlueWorld L) (X : Option L.Index → Value) : Prop where
  side : K.type s W X
  bond : ∃ S : Bond K, Bonded (s.bond K) S ∧ S.Type W X

variable (K) in
/-- Elements of the glued logic. -/
def GlueElem (W : GlueWorld L) (X v : Option L.Index → Value) : Prop :=
  ∃ S : Bond K, Bonded (Size.large.bond K) S ∧ S.Type W X ∧ S.Elem W v

/-- The glued logic. -/
abbrev Ground.glue (K : Ground L) : Logic where
  Index := Option L.Index
  World := GlueWorld L
  le := GlueWorld.le
  model := L.glueModel
  type := GlueType K
  elem := GlueElem K
  preType := K.type
  preElem := K.elem

/-! ## Elements of a type with a given bond -/

section Elements

variable {S : Bond K} {X Y v w : Option L.Index → Value} (hK : K.Good)

include hK

theorem GlueElem.side (h : GlueElem K W X v) : K.elem W X v := by
  obtain ⟨S, -, hX, hv⟩ := h
  exact hv.sideOf hK hX

theorem GlueElem.same (h : GlueElem K W X v) (i : Option L.Index) :
    Same (L.glueModel i) (X i) (v i) (v i) := hK.same (h.side hK) i

theorem GlueElem.others (h : GlueElem K W X v) : L.elem W.base (others X) (others v) :=
  hK.elemOthers (h.side hK)

theorem GlueType.others (h : GlueType K s W X) : L.type s W.base (others X) :=
  hK.typeOthers h.side

theorem GlueType.typeAt (h : GlueType K s W X) (i : Option L.Index) :
    TypeAt s (L.glueModel i) (X i) (X i) := hK.typeAt h.side i

omit hK in
theorem GlueType.sameSelf (h : GlueType K s W X) (i : Option L.Index) :
    SameType (L.glueModel i) (X i) (X i) := by
  obtain ⟨S, -, hX⟩ := h.bond
  exact hX.sameSelf i

theorem GlueType.large (h : GlueType K s W X) : GlueType K .large W X := by
  obtain ⟨S, hS, hX⟩ := h.bond
  exact ⟨hK.type_large h.side, S, hS.mono fun _ ↦ Size.eq_univ_bond, hX⟩

omit hK in
theorem GlueElem.type (h : GlueElem K W X v) : GlueType K .large W X := by
  obtain ⟨S, hS, hX, -⟩ := h
  exact ⟨hX.side, S, hS, hX⟩

/-- An element of a type belongs to every bond that the type belongs to. -/
theorem GlueElem.at (h : GlueElem K W X v) (hS : Bonded (s.bond K) S) (hY : S.Type W Y)
    (hXY : ∀ i, SameType (L.glueModel i) (X i) (Y i)) : S.Elem W v := by
  obtain ⟨S', hS', hX, hv⟩ := h
  have ha := Bonded.agree hK (fun _ ↦ Size.eq_univ_bond) (fun _ ↦ Size.eq_univ_bond)
    hS' hS hX hY hXY
  exact (ha.elem_iff (hK.le_refl W)).1 hv

theorem GlueElem.atSelf (h : GlueElem K W X v) (hS : Bonded (s.bond K) S) (hX : S.Type W X) :
    S.Elem W v := h.at hK hS hX hX.sameSelf

theorem GlueElem.conv (h : GlueElem K W X v) (hY : GlueType K .large W Y)
    (hXY : ∀ i, SameType (L.glueModel i) (X i) (Y i)) : GlueElem K W Y v := by
  obtain ⟨S, hS, hSY⟩ := hY.bond
  exact ⟨S, hS, hSY, h.at hK hS hSY hXY⟩

/-- The elements of a type, by one of its bonds. -/
theorem GlueElem.of_same (hS : Bonded (s.bond K) S) (hX : S.Type W X) (hs : K.elem W X v)
    (hv : S.same W v) : GlueElem K W X v :=
  ⟨S, hS.mono fun _ ↦ Size.eq_univ_bond, hX, hK.conv hs hX.base fun i ↦ (hX.same i).symm, hv⟩

theorem GlueElem.iff_same (hS : Bonded (s.bond K) S) (hX : S.Type W X) :
    GlueElem K W X v ↔ K.elem W X v ∧ S.same W v := by
  constructor
  · intro h
    exact ⟨h.side hK, (h.atSelf hK hS hX).same⟩
  · rintro ⟨hs, hv⟩
    exact .of_same hK hS hX hs hv

/-- Eliminations belong together with what they denote. -/
theorem GlueElem.reflect {T : Option L.Index → Value} {m : Neutral} (hX : GlueType K s W X)
    (hT : GlueType K .large W T) (hTX : ∀ i, SameType (L.glueModel i) (T i) (X i))
    (hv : Looks (v none) (.neu (T none) m)) (hs : K.elem W X v)
    (hm : Names K.blurs W m (Idealized.others X) (Idealized.others v)) : GlueElem K W X v := by
  obtain ⟨S, hS, hSX⟩ := hX.bond
  obtain ⟨S', hS', hST⟩ := hT.bond
  have ha := Bonded.agree hK (fun _ ↦ Size.eq_univ_bond) (fun _ ↦ Size.eq_univ_bond)
    hS' hS hST hSX hTX
  have hT' := (ha.type_iff (hK.le_refl W)).1 hST
  have hv := (hS.readableAt hK).elem hK hSX hT' hv hs hm
  exact ⟨S, hS.mono fun _ ↦ Size.eq_univ_bond, hSX, hv⟩

theorem GlueElem.shows (h : GlueElem K W X v) :
    Shows K.blurs W (X none) (v none) (Idealized.others X) (Idealized.others v) := by
  obtain ⟨S, hS, hX, hv⟩ := h
  exact (hS.readableAt hK).value hX hv

theorem GlueType.shows (h : GlueType K s W X) :
    ShowsType K.blurs s W (X none) (Idealized.others X) := by
  obtain ⟨S, hS, hX⟩ := h.bond
  exact (hS.readableAt hK).type hX h.side

end Elements

/-! ## Types and elements stay what they are -/

section Stable

variable (hK : K.Good)

include hK

theorem glue_stable : K.glue.Stable where
  le_refl := hK.le_refl
  le_trans := hK.le_trans
  type_mono h hW := by
    obtain ⟨S, hS, hX⟩ := h.bond
    exact ⟨hK.type_mono h.side hW, S, hS, hX.mono hK (hS.stableAt hK) hW⟩
  elem_mono := by
    rintro W W' X v ⟨S, hS, hX, hv⟩ hW
    have sS := hS.stableAt hK
    exact ⟨S, hS, hX.mono hK sS hW, hv.mono hK sS hW⟩
  type_seen h hX := by
    obtain ⟨S, hS, hSX⟩ := h.bond
    exact ⟨hK.type_seen h.side hX, S, hS, hSX.seen hK (hS.stableAt hK) hX⟩
  elem_seen := by
    rintro W X v w ⟨S, hS, hX, hv⟩ hw
    exact ⟨S, hS, hX, hv.seen hK (hS.stableAt hK) hw⟩
  type_large h := h.large hK
  typeAt h := h.typeAt hK
  same h := h.same hK
  elem_type h := h.type
  conv h hY hXY := h.conv hK hY hXY
  univ_iff {W X} := by
    have hU : (Bond.univ : Bond K).Type W fun _ ↦ .const .univ :=
      ⟨fun _ ↦ SameType.univ, hK.univ, hK.univ, fun _ ↦ .of_inSight .intro⟩
    have hb : Bonded (Size.large.bond K) (.univ) := .base rfl
    constructor
    · intro h
      obtain ⟨S, hS, hX⟩ := (h.atSelf hK hb hU).same
      exact ⟨hK.univ_iff.1 (h.side hK), S, hS, hX⟩
    · intro h
      exact .of_same hK hb hU (hK.univ_iff.2 h.side) h.bond
  typeKnown h := h.side
  elemKnown h := h.side hK

end Stable

/-! ## Forming types -/

section Forms

variable {e l t a b d : Option L.Index → Value} (hK : K.Good)

include hK

theorem Bond.Type.ofConst {k : Const} {same : GlueWorld L → (Option L.Index → Value) → Prop}
    (h : K.type s W fun _ ↦ .const k) : (Bond.plain k same : Bond K).Type W fun _ ↦ .const k :=
  ⟨fun i ↦ (hK.typeAt h i).sameType, hK.type_large h, hK.type_large h,
    fun _ ↦ .of_inSight .intro⟩

theorem Bond.Type.ofList {E : Bond K} (h : E.Type W e) :
    (Bond.list E fun i ↦ .unary .list (e i)).Type W fun i ↦ .unary .list (e i) :=
  ⟨fun i ↦ TypeAt.list (h.sameSelf i), hK.list h.side, hK.list h.side, e,
    fun _ ↦ .of_inSight .intro, h⟩

theorem GlueElem.nat_iff {n : Option L.Index → Value} :
    GlueElem K W (fun _ ↦ .const .nat) n ↔ K.elem W (fun _ ↦ .const .nat) n ∧ GlueNat K W n :=
  GlueElem.iff_same hK (s := .large) (S := .nat) .nat (.ofConst hK (hK.nat : K.type .large _ _))

theorem Bond.Type.ofVec {E : Bond K} (h : E.Type W e) (hl : K.elem W (fun _ ↦ .const .nat) l)
    (hg : GlueNat K W l) : (Bond.vec E e l).Type W fun i ↦ .binary .vec (e i) (l i) :=
  ⟨fun i ↦ TypeAt.vec (h.sameSelf i) (hK.same hl i).sameNat, hK.vec h.side hl, hK.vec h.side hl,
    e, l, fun _ ↦ .of_inSight .intro, h, hg⟩

theorem Bond.Type.ofEqual {T : Bond K} (h : T.Type W t) (ha : T.Elem W a) (hb : T.Elem W b) :
    (Bond.equal T fun i ↦ .equal (t i) (a i) (b i)).Type W fun i ↦ .equal (t i) (a i) (b i) := by
  have hs := hK.equal h.side (ha.sideOf hK h) (hb.sideOf hK h)
  exact ⟨hK.typeAt hs, hs, hs, t, a, b, fun _ ↦ .of_inSight .intro, h, ha, hb⟩

theorem Bond.Type.ofEither {A B : Bond K} (h : A.Type W a) (h' : B.Type W b) :
    (Bond.either A B fun i ↦ .binary .either (a i) (b i)).Type W
      fun i ↦ .binary .either (a i) (b i) := by
  have hs := hK.either h.side h'.side
  exact ⟨hK.typeAt hs, hs, hs, a, b, fun _ ↦ .of_inSight .intro, h, h'⟩

end Forms

/-! ### Families -/

open Classical in
/-- Some bond for each type of a family. -/
noncomputable def Bond.ofFamily (K : Ground L) (s : Size) (f : Option L.Index → Closure)
    (W : GlueWorld L) (a : Option L.Index → Value) : Bond K :=
  if h : ∃ S : Bond K, Bonded (s.bond K) S ∧ ∃ Y, (∀ i, Runs (enter (f i) (a i)) (Y i)) ∧ S.Type W Y
  then h.choose else Bond.nat

theorem Bonded.ofFamily (s : Size) (f : Option L.Index → Closure) (W : GlueWorld L)
    (a : Option L.Index → Value) : Bonded (s.bond K) (Bond.ofFamily K s f W a) := by
  unfold Bond.ofFamily
  split
  · rename_i h
    exact h.choose_spec.1
  · exact .nat

theorem Bond.Family.ofFamily {A : Bond K} {f : Option L.Index → Closure} {d : Option L.Index → Value}
    (hK : K.Good) (hA : Bonded (s.bond K) A) (hd : A.Type W d)
    (hf : K.glue.Family s W d f) : Family A (Bond.ofFamily K s f) W f := by
  intro W' hW a ha
  have hd' := hd.mono hK (hA.stableAt hK) hW
  obtain ⟨Y, hY, hYT⟩ := hf W' hW a ⟨A, hA.mono fun _ ↦ Size.eq_univ_bond, hd', ha⟩
  obtain ⟨S, hS, hSY⟩ := hYT.bond
  have h : ∃ S : Bond K, Bonded (s.bond K) S ∧
      ∃ Y, (∀ i, Runs (enter (f i) (a i)) (Y i)) ∧ S.Type W' Y :=
    ⟨S, hS, Y, hY, hSY⟩
  rw [Bond.ofFamily, dif_pos h]
  exact h.choose_spec.2

section Logic

variable (hK : K.Good)

include hK

theorem glue_forms : K.glue.Forms where
  univ := ⟨hK.univ, .univ, .base rfl, .ofConst hK (hK.univ : K.type .large _ _)⟩
  nat := ⟨hK.nat, .nat, .nat, .ofConst hK (hK.nat : K.type .large _ _)⟩
  atom := ⟨hK.atom, .atom, .atom, .ofConst hK (hK.atom : K.type .large _ _)⟩
  trivial := ⟨hK.trivial, .trivial, .trivial, .ofConst hK (hK.trivial : K.type .large _ _)⟩
  absurd := ⟨hK.absurd, .absurd, .absurd, .ofConst hK (hK.absurd : K.type .large _ _)⟩
  list h := by
    obtain ⟨E, hE, he⟩ := h.bond
    exact ⟨hK.list h.side, _, .list hE, .ofList hK he⟩
  vec h hl := by
    obtain ⟨E, hE, he⟩ := h.bond
    obtain ⟨hs, hg⟩ := (GlueElem.nat_iff hK).1 hl
    exact ⟨hK.vec h.side hs, _, .vec hE, .ofVec hK he hs hg⟩
  equal h ha hb := by
    obtain ⟨T, hT, ht⟩ := h.bond
    exact ⟨hK.equal h.side (ha.side hK) (hb.side hK), _, .equal hT,
      .ofEqual hK ht (ha.atSelf hK hT ht) (hb.atSelf hK hT ht)⟩
  either h h' := by
    obtain ⟨A, hA, ha⟩ := h.bond
    obtain ⟨B, hB, hb⟩ := h'.bond
    exact ⟨hK.either h.side h'.side, _, .either hA hB, .ofEither hK ha hb⟩
  pi {s W x d f} h hf hT := by
    obtain ⟨A, hA, hd⟩ := h.bond
    exact ⟨hT, .pi A (.ofFamily K s f) fun i ↦ .pi (x i) (d i) (f i),
      .pi hA fun W a _ ↦ .ofFamily s f W a, fun i ↦ (hK.typeAt hT i).sameType, hK.type_large hT,
      hK.type_large hT, x, d, f, fun _ ↦ .of_inSight .intro, hd, .ofFamily hK hA hd hf⟩
  sigma {s W x d f} h hf hT := by
    obtain ⟨A, hA, hd⟩ := h.bond
    exact ⟨hT, .sigma A (.ofFamily K s f) fun i ↦ .sigma (x i) (d i) (f i),
      .sigma hA fun W a _ ↦ .ofFamily s f W a, fun i ↦ (hK.typeAt hT i).sameType, hK.type_large hT,
      hK.type_large hT, x, d, f, fun _ ↦ .of_inSight .intro, hd, .ofFamily hK hA hd hf⟩

end Logic

/-! ## Taking types apart -/

section Bonds

variable {X e l t a b d : Option L.Index → Value} {x : Option L.Index → String}
  {f : Option L.Index → Closure}

theorem GlueType.listBond (h : GlueType K s W fun i ↦ .unary .list (e i)) :
    ∃ E : Bond K, Bonded (s.bond K) E ∧ E.Type W e := by
  obtain ⟨S, hS, hX⟩ := h.bond
  obtain ⟨V, hV, b⟩ := hS.built (fun _ ↦ Size.eq_univ_bond) hX.code
  cases hV.unique (.of_inSight .intro)
  cases b with
  | @list E e' _ _ hE he hEe =>
    obtain rfl : e' = e := funext fun i ↦ (Value.unary.inj ((he i).unique (.of_inSight .intro))).2
    exact ⟨E, hE, hEe⟩

theorem GlueType.vecBond (h : GlueType K s W fun i ↦ .binary .vec (e i) (l i)) :
    ∃ E : Bond K, Bonded (s.bond K) E ∧ E.Type W e ∧ GlueNat K W l := by
  obtain ⟨S, hS, hX⟩ := h.bond
  obtain ⟨V, hV, b⟩ := hS.built (fun _ ↦ Size.eq_univ_bond) hX.code
  cases hV.unique (.of_inSight .intro)
  cases b with
  | @vec E e' l' _ _ _ _ hE he hEe hl =>
    have hi := fun i ↦ Value.binary.inj ((he i).unique (.of_inSight .intro))
    obtain rfl : e' = e := funext fun i ↦ (hi i).2.1
    obtain rfl : l' = l := funext fun i ↦ (hi i).2.2
    exact ⟨E, hE, hEe, hl⟩

theorem GlueType.equalBond (h : GlueType K s W fun i ↦ .equal (t i) (a i) (b i)) :
    ∃ T : Bond K, Bonded (s.bond K) T ∧ T.Type W t ∧ T.Elem W a ∧ T.Elem W b := by
  obtain ⟨S, hS, hX⟩ := h.bond
  obtain ⟨V, hV, b⟩ := hS.built (fun _ ↦ Size.eq_univ_bond) hX.code
  cases hV.unique (.of_inSight .intro)
  cases b with
  | @equal T t' x y _ _ _ _ hT ht hTt hx hy =>
    have hi := fun i ↦ Value.equal.inj ((ht i).unique (.of_inSight .intro))
    obtain rfl : t' = t := funext fun i ↦ (hi i).1
    obtain rfl : x = a := funext fun i ↦ (hi i).2.1
    obtain rfl : y = _ := funext fun i ↦ (hi i).2.2
    exact ⟨T, hT, hTt, hx, hy⟩

theorem GlueType.eitherBond (h : GlueType K s W fun i ↦ .binary .either (a i) (b i)) :
    ∃ A B : Bond K, Bonded (s.bond K) A ∧ Bonded (s.bond K) B ∧ A.Type W a ∧ B.Type W b := by
  obtain ⟨S, hS, hX⟩ := h.bond
  obtain ⟨V, hV, b⟩ := hS.built (fun _ ↦ Size.eq_univ_bond) hX.code
  cases hV.unique (.of_inSight .intro)
  cases b with
  | @either A B a' b' _ _ _ hA hB he ha hb =>
    have hi := fun i ↦ Value.binary.inj ((he i).unique (.of_inSight .intro))
    obtain rfl : a' = a := funext fun i ↦ (hi i).2.1
    obtain rfl : b' = _ := funext fun i ↦ (hi i).2.2
    exact ⟨A, B, hA, hB, ha, hb⟩

theorem GlueType.piBond (h : GlueType K s W fun i ↦ .pi (x i) (d i) (f i)) :
    ∃ (A : Bond K) (B : GlueWorld L → (Option L.Index → Value) → Bond K) (Z : _),
      Bonded (s.bond K) A ∧ (∀ W a, A.Elem W a → Bonded (s.bond K) (B W a)) ∧
      A.Type W d ∧ Bond.Family A B W f ∧
      (Bond.pi A B Z).Type W fun i ↦ .pi (x i) (d i) (f i) := by
  obtain ⟨S, hS, hX⟩ := h.bond
  obtain ⟨V, hV, b⟩ := hS.built (fun _ ↦ Size.eq_univ_bond) hX.code
  cases hV.unique (.of_inSight .intro)
  cases b with
  | @pi A B x' f' d' Z _ _ _ hA hB hd hdA hf =>
    have hi := fun i ↦ Value.pi.inj ((hd i).unique (.of_inSight .intro))
    obtain rfl : d' = d := funext fun i ↦ (hi i).2.1
    obtain rfl : f' = f := funext fun i ↦ (hi i).2.2
    exact ⟨A, B, Z, hA, hB, hdA, hf, hX⟩

theorem GlueType.sigmaBond (h : GlueType K s W fun i ↦ .sigma (x i) (d i) (f i)) :
    ∃ (A : Bond K) (B : GlueWorld L → (Option L.Index → Value) → Bond K) (Z : _),
      Bonded (s.bond K) A ∧ (∀ W a, A.Elem W a → Bonded (s.bond K) (B W a)) ∧
      A.Type W d ∧ Bond.Family A B W f ∧
      (Bond.sigma A B Z).Type W fun i ↦ .sigma (x i) (d i) (f i) := by
  obtain ⟨S, hS, hX⟩ := h.bond
  obtain ⟨V, hV, b⟩ := hS.built (fun _ ↦ Size.eq_univ_bond) hX.code
  cases hV.unique (.of_inSight .intro)
  cases b with
  | @sigma A B x' f' d' Z _ _ _ hA hB hd hdA hf =>
    have hi := fun i ↦ Value.sigma.inj ((hd i).unique (.of_inSight .intro))
    obtain rfl : d' = d := funext fun i ↦ (hi i).2.1
    obtain rfl : f' = f := funext fun i ↦ (hi i).2.2
    exact ⟨A, B, Z, hA, hB, hdA, hf, hX⟩

end Bonds

section Inverts

variable (hK : K.Good)

include hK

/-- A family of bonds is a family of the glued logic. -/
theorem Bond.Family.family {A : Bond K} {B : GlueWorld L → (Option L.Index → Value) → Bond K}
    {d : Option L.Index → Value} {f : Option L.Index → Closure} (hA : Bonded (s.bond K) A)
    (hB : ∀ W a, A.Elem W a → Bonded (s.bond K) (B W a)) (hd : A.Type W d)
    (hf : Family A B W f) (hs : K.logic.Family s W d f) : K.glue.Family s W d f := by
  intro W' hW a ha
  have haA := ha.atSelf hK hA (hd.mono hK (hA.stableAt hK) hW)
  obtain ⟨Y, hY, hYB⟩ := hf W' hW a haA
  obtain ⟨Y', hY', hYs⟩ := hs W' hW a (ha.side hK)
  obtain rfl : Y = Y' := funext fun i ↦ (hY i).unique (hY' i)
  exact ⟨Y, hY, hYs, B W' a, hB W' a haA, hYB⟩

theorem glue_inverts : K.glue.Inverts where
  of_list h := by
    obtain ⟨E, hE, he⟩ := h.listBond
    exact ⟨hK.of_list h.side, E, hE, he⟩
  of_vec h := by
    obtain ⟨E, hE, he, hl⟩ := h.vecBond
    obtain ⟨hes, hls⟩ := hK.of_vec h.side
    exact ⟨⟨hes, E, hE, he⟩, (GlueElem.nat_iff hK).2 ⟨hls, hl⟩⟩
  of_equal h := by
    obtain ⟨T, hT, ht, ha, hb⟩ := h.equalBond
    have hT' : Bonded (Size.large.bond K) T := hT.mono fun _ ↦ Size.eq_univ_bond
    exact ⟨⟨(hK.of_equal h.side).1, T, hT, ht⟩, ⟨T, hT', ht, ha⟩, ⟨T, hT', ht, hb⟩⟩
  of_either h := by
    obtain ⟨A, B, hA, hB, ha, hb⟩ := h.eitherBond
    obtain ⟨has, hbs⟩ := hK.of_either h.side
    exact ⟨⟨has, A, hA, ha⟩, ⟨hbs, B, hB, hb⟩⟩
  of_pi h := by
    obtain ⟨A, B, Z, hA, hB, hd, hf, -⟩ := h.piBond
    obtain ⟨hds, hfs⟩ := hK.of_pi h.side
    exact ⟨⟨hds, A, hA, hd⟩, hf.family hK hA hB hd hfs⟩
  of_sigma h := by
    obtain ⟨A, B, Z, hA, hB, hd, hf, -⟩ := h.sigmaBond
    obtain ⟨hds, hfs⟩ := hK.of_sigma h.side
    exact ⟨⟨hds, A, hA, hd⟩, hf.family hK hA hB hd hfs⟩

end Inverts

end LittleTypes.Idealized
