import LittleTypes.Proofs.Glue.Names

/-!
# Eliminators at elements that are the same on every side

An eliminator whose parts are replaced by elements that are the same on every side has the same
result there.
-/

namespace LittleTypes.Idealized

variable {L : Logic} {ω : L.World} {w : L.Index → Value} (hL : L.Sound)

namespace Logic.Sound

include hL

/-! ## Recursion and induction -/

/-- The type of the step changes with the result type. -/
theorem recursorStepLike (k : Recursor) {e B B₁ : L.Index → Value}
    (he : k = .recList → L.type .large ω e) (hB : L.LikeType .large ω B B₁) :
    L.LikeType .large ω (fun i ↦ .recursorStep (e i) (B i) k)
      fun i ↦ .recursorStep (e i) (B₁ i) k := by
  cases k with
  | whichNat => exact ⟨hL.arrow hL.nat hB.type, fun i ↦ .arrow .nat (hB.same i)⟩
  | iterNat => exact ⟨hL.arrow hB.type hB.type, fun i ↦ .arrow (hB.same i) (hB.same i)⟩
  | recNat =>
    exact ⟨hL.arrow hL.nat (hL.arrow hB.type hB.type), fun i ↦
      .arrow .nat (.arrow (hB.same i) (hB.same i))⟩
  | recList =>
    exact ⟨hL.recListStep (he rfl) hB.type, fun i ↦
      .recListStep (hL.typeAt (he rfl) i) (hB.same i)⟩

section

variable {t M b s t₁ M₁ b₁ s₁ e l r : L.Index → Value}

theorem indNatLike (hM' : L.elem ω (fun _ ↦ .indNatMotive) M)
    (ht' : L.elem ω (fun _ ↦ .const .nat) t) (ht : L.Like ω (fun _ ↦ .const .nat) t t₁)
    (hM : L.Like ω (fun _ ↦ .indNatMotive) M M₁)
    (hb : L.Like ω (fun i ↦ (Idealized.apply (M i) (.const .zero)).result) b b₁)
    (hs : L.Like ω (fun i ↦ .indNatStep (M i)) s s₁)
    (hw : ∀ i, Runs (doIndNat (t i) (M i) (b i) (s i)) (w i)) :
    L.RunLike ω (fun i ↦ (Idealized.apply (M i) (t i)).result) w
      fun i ↦ doIndNat (t₁ i) (M₁ i) (b₁ i) (s₁ i) := by
  have hb₁ := hL.conv hb.elem (hL.type_large (hL.motiveType hM.elem hL.zero)) fun i ↦
    (hM.symm i).motiveType SameNat.zero_refl.same
  have hs₁ := hL.conv hs.elem (hL.indNatStep hM.elem) fun i ↦ SameType.indNatStep (hM.symm i)
  exact (hL.indNat hM.elem hb₁ hs₁ ht.elem).like hL.toStable
    (hL.type_large (hL.motiveType hM' ht')) (fun i ↦ (hM.same i).motiveType (ht.same i))
    (fun i ↦ .indNat (hM.symm i) (hb.symm i) (hs.symm i) (ht.symm i).sameNat) hw

theorem indListLike (hM' : L.elem ω (fun i ↦ .indListMotive (e i)) M)
    (ht' : L.elem ω (fun i ↦ .unary .list (e i)) t) (ht : L.Like ω (fun i ↦ .unary .list (e i)) t t₁)
    (hM : L.Like ω (fun i ↦ .indListMotive (e i)) M M₁)
    (hb : L.Like ω (fun i ↦ (Idealized.apply (M i) (.const .nil)).result) b b₁)
    (hs : L.Like ω (fun i ↦ .indListStep (e i) (M i)) s s₁)
    (hw : ∀ i, Runs (doIndList (t i) (M i) (b i) (s i)) (w i)) :
    L.RunLike ω (fun i ↦ (Idealized.apply (M i) (t i)).result) w
      fun i ↦ doIndList (t₁ i) (M₁ i) (b₁ i) (s₁ i) := by
  have he := hL.of_list (hL.elem_type ht')
  have hnil := hL.nil he
  have hb₁ := hL.conv hb.elem (hL.type_large (hL.motiveType hM.elem hnil)) fun i ↦
    (hM.symm i).motiveType (hL.same hnil i)
  have hs₁ := hL.conv hs.elem (hL.indListStep he hM.elem) fun i ↦
    SameType.indListStep (hL.typeAt he i) (hM.symm i)
  exact (hL.indList hM.elem hb₁ hs₁ ht.elem).like hL.toStable
    (hL.type_large (hL.motiveType hM' ht')) (fun i ↦ (hM.same i).motiveType (ht.same i))
    (fun i ↦ .indList (hM.symm i) (hb.symm i) (hs.symm i) (hL.typeAt he i)
      ((Same.list_iff (ht.symm i).type (.of_inSight .intro)).1 (ht.symm i))) hw

theorem indEitherLike (hM' : L.elem ω (fun i ↦ .indEitherMotive (l i) (r i)) M)
    (ht' : L.elem ω (fun i ↦ .binary .either (l i) (r i)) t)
    (ht : L.Like ω (fun i ↦ .binary .either (l i) (r i)) t t₁)
    (hM : L.Like ω (fun i ↦ .indEitherMotive (l i) (r i)) M M₁)
    (hb : L.Like ω (fun i ↦ .indEitherCase .left (l i) (M i)) b b₁)
    (hs : L.Like ω (fun i ↦ .indEitherCase .right (r i) (M i)) s s₁)
    (hw : ∀ i, Runs (doIndEither (t i) (M i) (b i) (s i)) (w i)) :
    L.RunLike ω (fun i ↦ (Idealized.apply (M i) (t i)).result) w
      fun i ↦ doIndEither (t₁ i) (M₁ i) (b₁ i) (s₁ i) := by
  have hX := hL.elem_type ht'
  obtain ⟨hl, hr⟩ := hL.of_either hX
  have hb₁ := hL.conv hb.elem (hL.indEitherLeft hl hr hM.elem) fun i ↦
    SameType.indEitherCase (hL.typeAt hl i) (hM.symm i) fun _ _ ha ↦ ha.left_congr (hL.typeAt hX i)
  have hs₁ := hL.conv hs.elem (hL.indEitherRight hl hr hM.elem) fun i ↦
    SameType.indEitherCase (hL.typeAt hr i) (hM.symm i) fun _ _ ha ↦ ha.right_congr (hL.typeAt hX i)
  exact (hL.indEither hM.elem hb₁ hs₁ ht.elem).like hL.toStable
    (hL.type_large (hL.motiveType hM' ht')) (fun i ↦ (hM.same i).motiveType (ht.same i))
    (fun i ↦ .indEither (hM.symm i) (hb.symm i) (hs.symm i) (ht.symm i)) hw

end

/-! ## Vectors -/

section

variable {e k t t₁ l M b s l₁ M₁ b₁ s₁ : L.Index → Value}

theorem headLike (ht' : L.elem ω (fun i ↦ .binary .vec (e i) (.unary .add1 (k i))) t)
    (ht : L.Like ω (fun i ↦ .binary .vec (e i) (.unary .add1 (k i))) t t₁)
    (hw : ∀ i, Runs (doHead (t i)) (w i)) : L.RunLike ω e w fun i ↦ doHead (t₁ i) := by
  obtain ⟨he, -⟩ := hL.of_vec (hL.elem_type ht')
  exact (hL.head ht.elem).like hL.toStable he (fun i ↦ hL.typeAt he i)
    (fun i ↦ .head (ht.symm i) (.of_inSight .intro)) hw

theorem tailLike (ht' : L.elem ω (fun i ↦ .binary .vec (e i) (.unary .add1 (k i))) t)
    (ht : L.Like ω (fun i ↦ .binary .vec (e i) (.unary .add1 (k i))) t t₁)
    (hw : ∀ i, Runs (doTail (t i)) (w i)) :
    L.RunLike ω (fun i ↦ .binary .vec (e i) (k i)) w fun i ↦ doTail (t₁ i) := by
  obtain ⟨he, hk⟩ := hL.of_vec (hL.elem_type ht')
  have hT := hL.vec he (hL.pred hk)
  exact (hL.tail ht.elem).like hL.toStable hT (fun i ↦ hL.typeAt hT i)
    (fun i ↦ .tail (ht.symm i) (.of_inSight .intro)) hw

/-- The rest of a vector. -/
theorem vecRest (h : L.elem ω (fun i ↦ .binary .vec (e i) (.unary .add1 (k i)))
    fun i ↦ .binary .vecCons (b i) (t i)) : L.elem ω (fun i ↦ .binary .vec (e i) (k i)) t := by
  obtain ⟨u, hu, huE⟩ := hL.tail h
  refine hL.elem_seen huE fun i ↦ .of_looks ?_
  obtain ⟨v, hv, hu⟩ := Runs.bind_iff.1 (hu i)
  cases hv.unique (Looks.of_inSight .intro)
  exact hu

theorem indVecLike (hM' : L.elem ω (fun i ↦ .indVecMotive (e i)) M)
    (ht' : L.elem ω (fun i ↦ .binary .vec (e i) (l i)) t)
    (hl : L.Like ω (fun _ ↦ .const .nat) l l₁)
    (ht : L.Like ω (fun i ↦ .binary .vec (e i) (l i)) t t₁)
    (hM : L.Like ω (fun i ↦ .indVecMotive (e i)) M M₁)
    (hb : L.Like ω (fun i ↦ (Idealized.apply₂ (M i) (.const .zero) (.const .vecnil)).result) b b₁)
    (hs : L.Like ω (fun i ↦ .indVecStep (e i) (M i)) s s₁)
    (hw : ∀ i, Runs (doIndVec (l i) (t i) (M i) (b i) (s i)) (w i)) :
    L.RunLike ω (fun i ↦ (Idealized.apply₂ (M i) (l i) (t i)).result) w
      fun i ↦ doIndVec (l₁ i) (t₁ i) (M₁ i) (b₁ i) (s₁ i) := by
  obtain ⟨he, hlL⟩ := hL.of_vec (hL.elem_type ht')
  have hnil := hL.vecnil he
  have heT := fun i ↦ hL.typeAt he i
  have hZT := hL.type_large (hL.vecMotiveType hM.elem hL.zero hnil)
  have hRT := hL.type_large (hL.vecMotiveType hM' hlL ht')
  have hb₁ := hL.conv hb.elem hZT fun i ↦
    (hM.symm i).vecMotiveType SameNat.zero_refl (.vecnil_refl (heT i) (.of_inSight .intro))
  have hs₁ := hL.conv hs.elem (hL.indVecStep he hM.elem) fun i ↦
    SameType.indVecStep (heT i) (hM.symm i)
  have ht₁ := hL.conv ht.elem (hL.vec he hl.elem) fun i ↦ TypeAt.vec (heT i) (hl.symm i).sameNat
  exact (hL.indVec hM.elem hb₁ hs₁ ht₁).like hL.toStable hRT
    (fun i ↦ (hM.same i).vecMotiveType (hl.same i).sameNat
      ((ht.same i).conv (.vec (heT i) (hl.symm i).sameNat)))
    (fun i ↦ .indVec (hM.symm i) (hb.symm i) (hs.symm i) (heT i) (ht.symm i).sameVec
      (hl.symm i).sameNat) hw

end

/-! ## Equality -/

section

variable {t a b d p q p₁ q₁ C f C₁ f₁ M k M₁ k₁ : L.Index → Value} {x : L.Index → String}

theorem symmLike (hp' : L.elem ω (fun i ↦ .equal (t i) (a i) (b i)) p)
    (hp : L.Like ω (fun i ↦ .equal (t i) (a i) (b i)) p p₁)
    (hw : ∀ i, Runs (doSymm (p i)) (w i)) :
    L.RunLike ω (fun i ↦ .equal (t i) (b i) (a i)) w fun i ↦ doSymm (p₁ i) := by
  obtain ⟨ht, ha, hb⟩ := hL.of_equal (hL.elem_type hp')
  have hT := hL.equal ht hb ha
  exact (hL.symm hp.elem).like hL.toStable hT (fun i ↦ hL.typeAt hT i)
    (fun i ↦ .symmetry (hp.symm i)) hw

theorem transLike (hp' : L.elem ω (fun i ↦ .equal (t i) (a i) (b i)) p)
    (hq' : L.elem ω (fun i ↦ .equal (t i) (b i) (d i)) q)
    (hp : L.Like ω (fun i ↦ .equal (t i) (a i) (b i)) p p₁)
    (hq : L.Like ω (fun i ↦ .equal (t i) (b i) (d i)) q q₁)
    (hw : ∀ i, Runs (doTrans (p i) (q i)) (w i)) :
    L.RunLike ω (fun i ↦ .equal (t i) (a i) (d i)) w fun i ↦ doTrans (p₁ i) (q₁ i) := by
  obtain ⟨ht, ha, -⟩ := hL.of_equal (hL.elem_type hp')
  obtain ⟨-, -, hd⟩ := hL.of_equal (hL.elem_type hq')
  have hT := hL.equal ht ha hd
  exact (hL.trans hp.elem hq.elem).like hL.toStable hT (fun i ↦ hL.typeAt hT i)
    (fun i ↦ .transitivity (hp.symm i) (hq.symm i)) hw

theorem congLike (hC' : L.type .large ω C) (hf' : L.elem ω (fun i ↦ .arrow (x i) (t i) (C i)) f)
    (hp' : L.elem ω (fun i ↦ .equal (t i) (a i) (b i)) p)
    (hp : L.Like ω (fun i ↦ .equal (t i) (a i) (b i)) p p₁) (hC : L.LikeType .large ω C C₁)
    (hf : L.Like ω (fun i ↦ .arrow (x i) (t i) (C i)) f f₁)
    (hw : ∀ i, Runs (doCong (p i) (C i) (f i)) (w i)) :
    L.RunLike ω (fun i ↦ .equal (C i) (Idealized.apply (f i) (a i)).result
      (Idealized.apply (f i) (b i)).result) w fun i ↦ doCong (p₁ i) (C₁ i) (f₁ i) := by
  obtain ⟨ht, ha, hb⟩ := hL.of_equal (hL.elem_type hp')
  have hCC := fun i ↦ (hC.same i).symm
  have hf₁ := hL.conv hf.elem (hL.arrow (x := x) ht hC.type) fun i ↦
    TypeAt.arrow (hL.typeAt ht i) (hCC i)
  have hT := hL.equal hC' (hL.applyArrow hf' ha).result (hL.applyArrow hf' hb).result
  refine (hL.cong hC.type hf₁ hp.elem).like hL.toStable hT (fun i ↦ ?_)
    (fun i ↦ .congruence (hCC i) (hf.symm i) (hp.symm i)) hw
  exact (TypeAt.equal (hCC i) ((hf.symm i).applyArrow (hL.same ha i)).result
    ((hf.symm i).applyArrow (hL.same hb i)).result).symm

theorem replaceLike (hM' : L.elem ω (fun i ↦ .replaceMotive (t i)) M)
    (hp' : L.elem ω (fun i ↦ .equal (t i) (a i) (b i)) p)
    (hp : L.Like ω (fun i ↦ .equal (t i) (a i) (b i)) p p₁)
    (hM : L.Like ω (fun i ↦ .replaceMotive (t i)) M M₁)
    (hk : L.Like ω (fun i ↦ (Idealized.apply (M i) (a i)).result) k k₁)
    (hw : ∀ i, Runs (doReplace (p i) (M i) (k i)) (w i)) :
    L.RunLike ω (fun i ↦ (Idealized.apply (M i) (b i)).result) w
      fun i ↦ doReplace (p₁ i) (M₁ i) (k₁ i) := by
  obtain ⟨-, ha, hb⟩ := hL.of_equal (hL.elem_type hp')
  have hk₁ := hL.conv hk.elem (hL.type_large (hL.motiveType hM.elem ha)) fun i ↦
    (hM.symm i).motiveType (hL.same ha i)
  exact (hL.replace hM.elem hk₁ hp.elem).like hL.toStable
    (hL.type_large (hL.motiveType hM' hb)) (fun i ↦ (hM.same i).motiveType (hL.same hb i))
    (fun i ↦ .replacement (hM.symm i) (hk.symm i) (hp.symm i)) hw

theorem indEqualLike (hM' : L.elem ω (fun i ↦ .indEqualMotive (t i) (a i)) M)
    (hp' : L.elem ω (fun i ↦ .equal (t i) (a i) (b i)) p)
    (hp : L.Like ω (fun i ↦ .equal (t i) (a i) (b i)) p p₁)
    (hM : L.Like ω (fun i ↦ .indEqualMotive (t i) (a i)) M M₁)
    (hk : L.Like ω (fun i ↦ (Idealized.apply₂ (M i) (a i) (.unary .same (a i))).result) k k₁)
    (hw : ∀ i, Runs (doIndEqual (p i) (M i) (k i)) (w i)) :
    L.RunLike ω (fun i ↦ (Idealized.apply₂ (M i) (b i) (p i)).result) w
      fun i ↦ doIndEqual (p₁ i) (M₁ i) (k₁ i) := by
  obtain ⟨-, ha, hb⟩ := hL.of_equal (hL.elem_type hp')
  have hrefl := hL.refl ha
  have hZT := hL.type_large (hL.equalMotiveType hM.elem ha hrefl)
  have hRT := hL.type_large (hL.equalMotiveType hM' hb hp')
  have hk₁ := hL.conv hk.elem hZT fun i ↦
    (hM.symm i).equalMotiveType (hL.same ha i) (hL.same hrefl i)
  exact (hL.indEqual hM.elem hk₁ hp.elem).like hL.toStable hRT
    (fun i ↦ (hM.same i).equalMotiveType (hL.same hb i) (hp.same i))
    (fun i ↦ .indEqual (hM.symm i) (hL.same ha i) (hL.same hb i) (hk.symm i) (hp.symm i)) hw

end

end Logic.Sound

end LittleTypes.Idealized
