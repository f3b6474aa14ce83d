import LittleTypes.Proofs.Model.Eliminate

/-!
# Eliminators of vectors take the same to the same
-/

namespace LittleTypes.Idealized

variable {o : Prop} {e l : Value}

theorem SameVec.same {v w : Value} (he : SameType o e e) (hl : SameNat o l l)
    (h : SameVec o (meaning o e) l v w) : Same o (.binary .vec e l) v w :=
  (Same.vec_iff (.vec he hl) (.of_inSight .intro)).2 h

theorem Same.sameVec {v w : Value} (h : Same o (.binary .vec e l) v w) :
    SameVec o (meaning o e) l v w :=
  (Same.vec_iff h.type (.of_inSight .intro)).1 h

theorem Same.vec_parts {v w : Value} (h : Same o (.binary .vec e l) v w) :
    SameType o e e ∧ SameNat o l l := by
  obtain ⟨e', l', -, he, hl⟩ := TypeAt.of_vec h.type (.of_inSight .intro)
  exact ⟨he.left, hl.left⟩

theorem Same.vecnil_refl (he : SameType o e e) (hl : Looks l (.const .zero)) :
    Same o (.binary .vec e l) (.const .vecnil) (.const .vecnil) :=
  SameVec.same he (.zero hl hl) (.nil hl (.of_inSight .intro) (.of_inSight .intro))

theorem Same.vecCons_congr {h h' t t' k : Value} (hl : Looks l (.unary .add1 k)) (hh : Same o e h h')
    (ht : Same o (.binary .vec e k) t t') :
    Same o (.binary .vec e l) (.binary .vecCons h t) (.binary .vecCons h' t') :=
  SameVec.same ht.vec_parts.1 (.add1 hl hl ht.vec_parts.2)
    (.cons hl (.of_inSight .intro) (.of_inSight .intro) hh ht.sameVec)

/-! ## The parts of a vector -/

theorem RunSame.head {k t t' : Value} (h : Same o (.binary .vec e l) t t')
    (hl : Looks l (.unary .add1 k)) : RunSame o e (doHead t) (doHead t') := by
  cases h.sameVec with
  | nil hz => cases hl.unique hz
  | cons _ ht ht' hh _ => exact .bind ht ht' (.look hh)
  | waiting h =>
    obtain ⟨ho, T, m, U, n, ht, ht', ⟨e₁, l₁, hT, he₁, -⟩, ⟨e₂, l₂, hU, he₂, -⟩, hm⟩ := h
    obtain rfl : o = True := eq_true ho
    have he₁₂ : SameType True e₁ e₂ := TypeAt.trans (TypeAt.symm he₁) he₂
    exact .bind ht ht' (.bind (.vecParts hT) (.vecParts hU)
      (.done (.conv (.reflect he₁₂ (.project .head hm)) (TypeAt.symm he₁))))

theorem RunSame.tail {k t t' : Value} (h : Same o (.binary .vec e l) t t')
    (hl : Looks l (.unary .add1 k)) : RunSame o (.binary .vec e k) (doTail t) (doTail t') := by
  obtain ⟨he, hll⟩ := h.vec_parts
  obtain ⟨k', hl', hk⟩ := hll.of_add1 hl
  cases h.sameVec with
  | nil hz => cases hl.unique hz
  | cons hl'' ht ht' _ hr =>
    cases hl.unique hl''
    exact .bind ht ht' (.look (SameVec.same he hk.left hr))
  | waiting h =>
    obtain ⟨ho, T, m, U, n, ht, ht', ⟨e₁, l₁, hT, he₁, hl₁⟩, ⟨e₂, l₂, hU, he₂, hl₂⟩, hm⟩ := h
    obtain rfl : o = True := eq_true ho
    obtain ⟨k₁, hk₁, hkk₁⟩ := hl₁.of_add1 hl
    obtain ⟨k₂, hk₂, hkk₂⟩ := hl₂.of_add1 hl
    have hX : SameType True (.binary .vec e₁ k₁) (.binary .vec e k) :=
      .vec (TypeAt.symm he₁) hkk₁.symm
    have hXY : SameType True (.binary .vec e₁ k₁) (.binary .vec e₂ k₂) :=
      .vec (TypeAt.trans (TypeAt.symm he₁) he₂) (hkk₁.symm.trans hkk₂)
    exact .bind ht ht' (.bind (.vecParts hT) (.vecParts hU) (.bind hk₁ hk₂
      (.done (.conv (.reflect hXY (.project .tail hm)) hX))))

/-! ## Induction on vectors -/

section Induction

variable {M M' b b' s s' t t' : Value}

theorem SameType.indVecMotive {e' : Value} (he : SameType o e e') :
    SameType o (.indVecMotive e) (.indVecMotive e') :=
  .pi .nat fun _ _ hk ↦ ⟨_, _, .done _, .done _, .arrow (.vec he hk.sameNat) SameType.univ⟩

/-- The same motives over vectors, at the same arguments, are the same type. -/
theorem Same.vecMotive {k k' v w : Value} (hM : Same o (.indVecMotive e) M M')
    (hk : SameNat o k k') (h : Same o (.binary .vec e k) v w) :
    ∃ Y Z, Runs (Idealized.apply₂ M k v) Y ∧ Runs (Idealized.apply₂ M' k' w) Z ∧
      TypeAt .small o Y Z := by
  obtain ⟨Y, Z, hY, hZ, hYZ⟩ := (hM.apply (.of_inSight .intro) hk.same (.done _)).andThen
    fun _ _ _ _ hv ↦ hv.applyArrow h
  exact ⟨Y, Z, hY, hZ, (univ_iff (.of_inSight .intro)).1 hYZ⟩

theorem Same.vecMotiveType {k k' v w : Value} (hM : Same o (.indVecMotive e) M M')
    (hk : SameNat o k k') (h : Same o (.binary .vec e k) v w) :
    SameType o (Idealized.apply₂ M k v).result (Idealized.apply₂ M' k' w).result := by
  obtain ⟨Y, Z, hY, hZ, hYZ⟩ := hM.vecMotive hk h
  rw [hY.result_eq, hZ.result_eq]
  exact hYZ.sameType

/-- The type of the step at a length, a head and a tail. -/
theorem Same.vecStepTail {k k' h h' r r' : Value} (hM : Same o (.indVecMotive e) M M')
    (hk : SameNat o k k') (hh : Same o e h h') (hr : Same o (.binary .vec e k) r r') :
    ∃ Y Z Y' Z', Runs (Idealized.apply₂ M k r) Y ∧
      Runs (Idealized.apply₂ M (.unary .add1 k) (.binary .vecCons h r)) Z ∧
      Runs (enter (.vecStepTail M k h) r) (.arrow "ih" Y Z) ∧
      Runs (enter (.vecStepTail M' k' h') r') (.arrow "ih" Y' Z') ∧
      SameType o (.arrow "ih" Y Z) (.arrow "ih" Y' Z') := by
  obtain ⟨Y, Y', hY, hY', hYY⟩ := hM.vecMotive hk hr
  obtain ⟨Z, Z', hZ, hZ', hZZ⟩ := hM.vecMotive hk.add1_congr
    (.vecCons_congr (.of_inSight .intro) hh hr)
  exact ⟨Y, Z, Y', Z', hY, hZ, .bind hY (.bind hZ (.done _)), .bind hY' (.bind hZ' (.done _)),
    .arrow hYY.sameType hZZ.sameType⟩

theorem SameType.vecStepTail {e' k k' h h' : Value} (he : SameType o e e')
    (hM : Same o (.indVecMotive e) M M') (hk : SameNat o k k') (hh : Same o e h h') :
    SameType o (.pi "t" (.binary .vec e k) (.vecStepTail M k h))
      (.pi "t" (.binary .vec e' k') (.vecStepTail M' k' h')) := by
  refine .pi (.vec he hk) fun r r' hr ↦ ?_
  obtain ⟨Y, Z, Y', Z', -, -, h, h', hT⟩ := hM.vecStepTail hk hh hr
  exact ⟨_, _, h, h', hT⟩

theorem SameType.vecStepHead {e' k k' : Value} (he : SameType o e e')
    (hM : Same o (.indVecMotive e) M M') (hk : SameNat o k k') :
    SameType o (.pi "h" e (.vecStepHead e M k)) (.pi "h" e' (.vecStepHead e' M' k')) :=
  .pi he fun _ _ hh ↦ ⟨_, _, .done _, .done _, SameType.vecStepTail he hM hk hh⟩

theorem SameType.indVecStep {e' : Value} (he : SameType o e e')
    (hM : Same o (.indVecMotive e) M M') : SameType o (.indVecStep e M) (.indVecStep e' M') :=
  .pi .nat fun _ _ hk ↦ ⟨_, _, .done _, .done _, SameType.vecStepHead he hM hk.sameNat⟩

/-- The elimination of an unknown vector, whether its length is known or not. -/
theorem Same.waitingVec {l₀ l₀' R R' : Value} {m n : Neutral} {M M' b b' s s' : Typed}
    (hl : SameNat True l l₀') (h₀ : Looks l l₀) (h₀' : Looks l₀' l₀') (hR : SameType True R R')
    (hm : Alike m n) (hM : AlikeTyped M M') (hb : AlikeTyped b b') (hs : AlikeTyped s s') :
    Same True R (waitingVec l₀ R m M b s) (waitingVec l₀' R' n M' b' s') := by
  have hn : SameNat True l₀ l₀' := hl.seen (.seen h₀)
  cases hl with
  | zero hz hz' =>
    cases h₀.unique hz
    cases h₀'.unique hz'
    exact .reflect hR (.indVec (hn.same.readAlike .nat) hm hM hb hs)
  | add1 hk hk' =>
    cases h₀.unique hk
    cases h₀'.unique hk'
    exact .reflect hR (.indVec (hn.same.readAlike .nat) hm hM hb hs)
  | waiting h =>
    obtain ⟨-, T, k, U, k', hk, hk', -, -, hkk⟩ := h
    cases h₀.unique hk
    cases h₀'.unique hk'
    exact .reflect hR (.indVecBoth hkk hm hM hb hs)

theorem RunSame.indVec {l' : Value} (hM : Same o (.indVecMotive e) M M')
    (hb : Same o (apply₂ M (.const .zero) (.const .vecnil)).result b b')
    (hs : Same o (.indVecStep e M) s s') (he : SameType o e e)
    (ht : SameVec o (meaning o e) l t t') (hl : SameNat o l l') :
    RunSame o (apply₂ M l t).result (doIndVec l t M b s) (doIndVec l' t' M' b' s') := by
  induction ht generalizing l' with
  | @nil l t t' hz ht ht' =>
    have hz' := hl.of_zero hz
    have hlt : Same o (.binary .vec e (.const .zero)) (.const .vecnil) t :=
      (Same.vecnil_refl he (.of_inSight .intro)).seenRight (.of_looks ht)
    exact .bind hz hz' (.bind ht ht'
      (.conv (.look hb) (hM.left.vecMotiveType (.zero (.of_inSight .intro) hz) hlt)))
  | @cons l k t t' h h' r r' hk ht ht' hh hr ih =>
    obtain ⟨k', hk', hkk⟩ := hl.of_add1 hk
    have hr' : Same o (.binary .vec e k) r r' := SameVec.same he hkk.left hr
    obtain ⟨Y, Z, Y', Z', hY, hZ, hT, -, -⟩ := hM.vecStepTail hkk hh hr'
    have ih := ih hkk
    rw [hY.result_eq] at ih
    have hst : RunSame o Z
        (do apply₂ (← apply₂ s k h) r (.later (.indVec k r M b s)))
        (do apply₂ (← apply₂ s' k' h') r' (.later (.indVec k' r' M' b' s'))) :=
      ((hs.apply (.of_inSight .intro) hkk.same (.done _)).andThen fun _ _ _ _ hv ↦
        hv.apply (.of_inSight .intro) hh (.done _)).andThen fun _ _ _ _ hv ↦
          (hv.apply (.of_inSight .intro) hr' hT).andThen fun _ _ _ _ hw ↦
            hw.applyArrow (RunSame.later ih)
    have hcons : Same o (.binary .vec e (.unary .add1 k)) (.binary .vecCons h r) t :=
      (Same.vecCons_congr (.of_inSight .intro) (Same.left hh) hr'.left).seenRight (.of_looks ht)
    have hZt : SameType o Z (apply₂ M l t).result :=
      hZ.result_eq ▸ hM.left.vecMotiveType (.add1 (.of_inSight .intro) hk hkk.left) hcons
    exact .bind hk hk' (.bind ht ht' (hst.conv hZt))
  | @waiting l t t' h =>
    obtain ⟨ho, T, m, U, n, ht, ht', hT, hU, hm⟩ := h
    obtain rfl : o = True := eq_true ho
    have hmn : Same True (.binary .vec e l) (.neu T m) (.neu U n) :=
      SameVec.same he hl.left (.waiting (.reflect hT hU hm))
    obtain ⟨e₁, l₁, hT, he₁, hl₁⟩ := hT
    obtain ⟨e₂, l₂, hU, he₂, hl₂⟩ := hU
    have he₁₂ : SameType True e₁ e₂ := TypeAt.trans (TypeAt.symm he₁) he₂
    obtain ⟨l₀, h₀⟩ := hl.looks
    obtain ⟨l₀', h₀'⟩ := hl.symm.looks
    have hl₀ : SameNat True l l₀ := hl.left.symm.seen (.seen h₀) |>.symm
    have hl₀' : SameNat True l l₀' := (hl.symm.seen (.seen h₀')).symm
    have hll₀ : SameNat True l₀ l₀' := hl₀.symm.trans hl₀'
    have hmn₀ : Same True (.binary .vec e l₀) (.neu T m) (.neu U n) := hmn.conv (.vec he hl₀)
    obtain ⟨R, R', hR, hR', hRR⟩ := hM.vecMotive hll₀ hmn₀
    obtain ⟨Z, Z', hZ, hZ', hZZ⟩ :=
      hM.vecMotive SameNat.zero_refl (.vecnil_refl he (.of_inSight .intro))
    rw [hZ.result_eq] at hb
    have hRt : SameType True R (apply₂ M l t).result :=
      hR.result_eq ▸ hM.left.vecMotiveType hl₀.symm (hmn₀.left.seenRight (.of_looks ht))
    have hM₁ : Same True (.indVecMotive e₁) M M' := hM.conv (.indVecMotive he₁)
    have hs₁ : Same True (.indVecStep e₁ M) s s' := hs.conv (.indVecStep he₁ hM.left)
    have hw := Same.waitingVec hl₀' h₀ h₀'.again hRR.sameType hm
      (hM₁.alikeTyped (.indVecMotive he₁₂)) (hb.alikeTyped hZZ.sameType)
      (hs₁.alikeTyped (.indVecStep he₁₂ hM₁))
    exact .bind h₀ h₀' (.bind ht ht' (.bind (.vecParts hT) (.vecParts hU) (.bind hZ hZ'
      (.bind hR hR' (.done (hw.conv hRt))))))

end Induction

end LittleTypes.Idealized
