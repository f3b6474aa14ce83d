import LittleTypes.Proofs.Logic.Motives

/-!
# The model is a logic

Its two sides are the two values that are the same type, or the same element of a type.
-/

namespace LittleTypes.Idealized

namespace Logic

/-- Two values as a tuple. -/
def pair {α : Type} (a b : α) : Bool → α
  | false => a
  | true => b

/-- The same types and the same elements, in one world.  All elements of a side are compared, so
nothing has to be known beforehand. -/
def sameness (o : Prop) : Logic where
  Index := Bool
  World := Unit
  le _ _ := True
  model _ := o
  type s _ X := TypeAt s o (X false) (X true)
  elem _ X v := SameType o (X false) (X true) ∧ Same o (X false) (v false) (v true)
  preType _ _ _ := True
  preElem _ _ _ := True

variable {o : Prop} {s : Size} {X : Bool → Value}

theorem sameness_run {p : Bool → Plan Value} (hX : SameType o (X false) (X true))
    (h : RunSame o (X false) (p false) (p true)) : (sameness o).Run () X p := by
  obtain ⟨v, w, hv, hw, hvw⟩ := h
  exact ⟨pair v w, Bool.rec hv hw, hX, hvw⟩

theorem sameness_family {d : Bool → Value} {f : Bool → Closure}
    (h : (sameness o).Family s () d f) (hd : SameType o (d false) (d true)) :
    FamilyAt s o (d false) (f false) (f true) := by
  intro a a' ha
  obtain ⟨Y, hY, hYT⟩ := h () trivial (pair a a') ⟨hd, ha⟩
  exact ⟨Y false, Y true, hY false, hY true, hYT⟩

theorem family_sameness {d : Bool → Value} {f : Bool → Closure}
    (h : FamilyAt s o (d false) (f false) (f true)) : (sameness o).Family s () d f := by
  rintro - - a ⟨-, ha⟩
  obtain ⟨Y, Y', hY, hY', hYY⟩ := h _ _ ha
  exact ⟨pair Y Y', Bool.rec hY hY', hYY⟩

theorem sameness_stable : (sameness o).Stable where
  le_refl _ := trivial
  le_trans _ _ := trivial
  type_mono h _ := h
  elem_mono h _ := h
  type_seen h hs := TypeAt.seenBoth h (hs false) (hs true)
  elem_seen h hs := ⟨h.1, (h.2.seen (hs false)).seenRight (hs true)⟩
  type_large h := TypeAt.sameType h
  typeAt h := Bool.rec (TypeAt.left h) (TypeAt.right h)
  same h := Bool.rec h.2.left (h.2.right.conv h.1)
  elem_type h := h.1
  conv h hY hXY := ⟨hY, h.2.conv (hXY false)⟩
  univ_iff := ⟨fun h ↦ (Same.univ_iff (.of_inSight .intro)).1 h.2, fun h ↦
    ⟨SameType.univ, (Same.univ_iff (.of_inSight .intro)).2 h⟩⟩
  typeKnown _ := trivial
  elemKnown _ := trivial

theorem sameness_forms : (sameness o).Forms where
  univ := SameType.univ
  nat := TypeAt.nat
  atom := TypeAt.atom
  trivial := TypeAt.trivial
  absurd := TypeAt.absurd
  list h := TypeAt.list h
  vec h hl := TypeAt.vec h hl.2.sameNat
  equal h ha hb := TypeAt.equal h ha.2 hb.2
  either h h' := TypeAt.either h h'
  pi hd hf _ := TypeAt.pi hd (sameness_family hf (TypeAt.sameType hd))
  sigma hd hf _ := TypeAt.sigma hd (sameness_family hf (TypeAt.sameType hd))

theorem sameness_inverts : (sameness o).Inverts where
  of_list h := by
    obtain ⟨e, he, hee⟩ := TypeAt.of_list h (.of_inSight .intro)
    cases he.unique (.of_inSight .intro)
    exact hee
  of_vec h := by
    obtain ⟨e, l, he, hee, hll⟩ := TypeAt.of_vec h (.of_inSight .intro)
    cases he.unique (.of_inSight .intro)
    exact ⟨hee, SameType.nat, hll.same⟩
  of_equal h := by
    obtain ⟨t, a, b, ht, htt, haa, hbb⟩ := TypeAt.of_equal h (.of_inSight .intro)
    cases ht.unique (.of_inSight .intro)
    exact ⟨htt, ⟨htt.sameType, haa⟩, htt.sameType, hbb⟩
  of_either h := by
    obtain ⟨l, r, hl, hll, hrr⟩ := TypeAt.of_either h (.of_inSight .intro)
    cases hl.unique (.of_inSight .intro)
    exact ⟨hll, hrr⟩
  of_pi h := by
    obtain ⟨x, d, f, hd, hdd, hff⟩ := TypeAt.of_pi h (.of_inSight .intro)
    cases hd.unique (.of_inSight .intro)
    exact ⟨hdd, family_sameness hff⟩
  of_sigma h := by
    obtain ⟨x, d, f, hd, hdd, hff⟩ := TypeAt.of_sigma h (.of_inSight .intro)
    cases hd.unique (.of_inSight .intro)
    exact ⟨hdd, family_sameness hff⟩

theorem sameness_constructs : (sameness o).Constructs where
  zero := ⟨SameType.nat, SameNat.zero_refl.same⟩
  add1 h := ⟨SameType.nat, h.2.sameNat.add1_congr.same⟩
  pred h := by
    obtain ⟨n, hn, hnn⟩ := h.2.sameNat.of_add1 (.of_inSight .intro)
    cases hn.unique (.of_inSight .intro)
    exact ⟨SameType.nat, hnn.same⟩
  quote s := ⟨TypeAt.atom, (Same.atom_iff (.of_inSight .intro)).2
    (.inl ⟨s, .of_inSight .intro, .of_inSight .intro⟩)⟩
  sole := ⟨TypeAt.trivial, (Same.trivial_iff (.of_inSight .intro)).2
    ⟨.inl (.of_inSight .intro), .inl (.of_inSight .intro)⟩⟩
  nil h := ⟨TypeAt.list h,
    SameList.same (TypeAt.left h) (.nil (.of_inSight .intro) (.of_inSight .intro))⟩
  listCons h ht := ⟨ht.1, h.2.listCons_congr ht.2⟩
  rest h := ⟨h.1, (h.2.listCons_parts (.of_inSight .intro) (.of_inSight .intro)).2⟩
  vecnil h := ⟨TypeAt.vec h SameNat.zero_refl,
    Same.vecnil_refl (TypeAt.left h) (.of_inSight .intro)⟩
  vecCons hk h ht := ⟨TypeAt.vec h.1 hk.2.sameNat.add1_congr,
    Same.vecCons_congr (.of_inSight .intro) h.2 ht.2⟩
  refl h := ⟨TypeAt.equal h.1 h.2 h.2, h.2.same_refl⟩
  left hr h := ⟨TypeAt.either h.1 hr, h.2.left_congr (TypeAt.either h.1 hr).left⟩
  right hl h := ⟨TypeAt.either hl h.1, h.2.right_congr (TypeAt.either hl h.1).left⟩

theorem sameness_applies : (sameness o).Applies where
  cons h ha hY he :=
    ⟨h, Same.cons (TypeAt.left h) (.of_inSight .intro) ha.2 (hY false) he.2⟩
  lam {ω x y f b d} h _ hb := by
    have hd := (sameness_inverts.of_pi h).1
    refine ⟨h, Same.lam (TypeAt.left h) (.of_inSight .intro) fun a a' ha ↦ ?_⟩
    obtain ⟨Y, hY, v, hv, hYT, hvv⟩ := hb () trivial (pair a a') ⟨hd, ha⟩
    exact ⟨Y false, hY false, v false, v true, hv false, hv true, hvv⟩
  apply {ω x f d p a Y} hp ha hY := by
    obtain ⟨-, hf⟩ := sameness_inverts.of_pi (sameness_stable.elem_type hp)
    obtain ⟨Z, hZ, hZT⟩ := hf () trivial a ha
    refine sameness_run (X := Y) ?_ (hp.2.apply (.of_inSight .intro) ha.2 (hY false))
    rw [(hY false).unique (hZ false), (hY true).unique (hZ true)]
    exact hZT
  car hp := sameness_run (sameness_inverts.of_sigma (sameness_stable.elem_type hp)).1
    (hp.2.car (.of_inSight .intro))
  cdr {ω x f d p a Y} hp ha hY := by
    obtain ⟨hd, hf⟩ := sameness_inverts.of_sigma (sameness_stable.elem_type hp)
    obtain ⟨v, w, hv, hw, hvw⟩ := hp.2.car (.of_inSight .intro)
    cases (ha false).unique hv
    have haa : Same o (d false) (a false) (a true) := (ha true).unique hw ▸ hvw
    obtain ⟨Z, hZ, hZT⟩ := hf () trivial a ⟨hd, haa⟩
    refine sameness_run (X := Y) ?_ (hp.2.cdr (.of_inSight .intro) (ha false) (hY false))
    rw [(hY false).unique (hZ false), (hY true).unique (hZ true)]
    exact hZT

theorem sameness_regular : (sameness o).Regular :=
  { sameness_stable, sameness_forms, sameness_inverts, sameness_constructs, sameness_applies with }

theorem sameness_lawful : (sameness o).Lawful :=
  { sameness_regular, sameness_regular.motives (by constructor <;> intros <;> trivial) with }

/-! ## Eliminators -/

theorem sameness_recurs : (sameness o).Recurs where
  recursor k hB ht hb hs := sameness_run hB (.recursor k hB ht.2 hb.2 hs.2)
  indNat {ω t M b s} hM hb hs ht :=
    sameness_run (hM.2.motiveType ht.2) (.indNat hM.2 hb.2 hs.2 ht.2.sameNat)
  indList {ω e t M b s} hM hb hs ht := by
    have he := sameness_inverts.of_list (sameness_stable.elem_type ht)
    exact sameness_run (hM.2.motiveType ht.2) (.indList hM.2 hb.2 hs.2 (TypeAt.left he)
      ((Same.list_iff ht.2.type (.of_inSight .intro)).1 ht.2))
  indEither {ω l r t M b s} hM hb hs ht :=
    sameness_run (hM.2.motiveType ht.2) (.indEither hM.2 hb.2 hs.2 ht.2)
  head ht := sameness_run (sameness_inverts.of_vec (sameness_stable.elem_type ht)).1
    (.head ht.2 (.of_inSight .intro))
  tail ht := by
    obtain ⟨he, hl⟩ := sameness_inverts.of_vec (sameness_stable.elem_type ht)
    exact sameness_run (TypeAt.vec he (sameness_constructs.pred hl).2.sameNat)
      (.tail ht.2 (.of_inSight .intro))
  indVec {ω e l t M b s} hM hb hs ht := by
    obtain ⟨he, hl⟩ := sameness_inverts.of_vec (sameness_stable.elem_type ht)
    exact sameness_run (hM.2.vecMotiveType hl.2.sameNat ht.2)
      (.indVec hM.2 hb.2 hs.2 (TypeAt.left he) ht.2.sameVec hl.2.sameNat)

theorem sameness_transports : (sameness o).Transports where
  symm hp := by
    obtain ⟨ht, ha, hb⟩ := sameness_inverts.of_equal (sameness_stable.elem_type hp)
    exact sameness_run (TypeAt.equal ht hb.2 ha.2) (.symmetry hp.2)
  trans hp hq := by
    obtain ⟨ht, ha, -⟩ := sameness_inverts.of_equal (sameness_stable.elem_type hp)
    obtain ⟨-, -, hd⟩ := sameness_inverts.of_equal (sameness_stable.elem_type hq)
    exact sameness_run (TypeAt.equal ht ha.2 hd.2) (.transitivity hp.2 hq.2)
  cong {ω t a b C f p x} hC hf hp := by
    obtain ⟨ht, ha, hb⟩ := sameness_inverts.of_equal (sameness_stable.elem_type hp)
    exact sameness_run (TypeAt.equal hC (hf.2.applyArrow ha.2).result (hf.2.applyArrow hb.2).result)
      (.congruence hC hf.2 hp.2)
  replace {ω t a b M k p} hM hk hp := by
    obtain ⟨-, -, hb⟩ := sameness_inverts.of_equal (sameness_stable.elem_type hp)
    exact sameness_run (hM.2.motiveType hb.2) (.replacement hM.2 hk.2 hp.2)
  indEqual {ω t a b M k p} hM hk hp := by
    obtain ⟨-, ha, hb⟩ := sameness_inverts.of_equal (sameness_stable.elem_type hp)
    exact sameness_run (hM.2.equalMotiveType hb.2 hp.2)
      (.indEqual hM.2 ha.2.left hb.2.left hk.2 hp.2)
  indAbsurd hM hp := sameness_run hM (.indAbsurd hM hp.2)
  hole l ho hX := by
    obtain rfl : o = True := eq_true (ho false)
    exact ⟨hX, Same.reflect hX (.hole l (SameType.readAlike hX))⟩

/-- Terms can be understood in the model. -/
theorem sameness_sound : (sameness o).Sound :=
  { sameness_lawful, sameness_recurs, sameness_transports with }

end Logic

end LittleTypes.Idealized
