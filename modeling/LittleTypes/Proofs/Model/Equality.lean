import LittleTypes.Proofs.Model.Eliminate

/-!
# Eliminators of equality and of the empty type take the same to the same
-/

namespace LittleTypes.Idealized

variable {o : Prop} {t a c : Value}

/-- Elements of an equality that are given by a value. -/
theorem Same.same_congr {x y : Value} (h : SameType o t t) (hxy : Same o t x y)
    (ha : Same o t a x) (hc : Same o t c x) :
    Same o (.equal t a c) (.unary .same x) (.unary .same y) :=
  (Same.equal_iff (.equal h ha.left hc.left) (.of_inSight .intro)).2
    (.inl ⟨x, y, .of_inSight .intro, .of_inSight .intro, hxy, ha, hc⟩)

theorem Same.same_refl {x y : Value} (hxy : Same o t x y) :
    Same o (.equal t x x) (.unary .same x) (.unary .same y) :=
  .same_congr hxy.type hxy hxy.left hxy.left

/-- An element of an equality is given by a value, or it waits for an unknown one. -/
theorem Same.equal_cases {p q : Value} (h : Same o (.equal t a c) p q) :
    (∃ x y, Looks p (.unary .same x) ∧ Looks q (.unary .same y) ∧ Same o t x y ∧ Same o t a x ∧
      Same o t c x) ∨
    (o = True ∧ ∃ T m U n t₁ a₁ c₁ t₂ a₂ c₂, Looks p (.neu T m) ∧ Looks q (.neu U n) ∧
      Looks T (.equal t₁ a₁ c₁) ∧ Looks U (.equal t₂ a₂ c₂) ∧ Alike m n ∧
      SameType o t t₁ ∧ SameType o t₁ t₂ ∧ Same o t a a₁ ∧ Same o t a₁ a₂ ∧ Same o t c c₁ ∧
      Same o t c₁ c₂) := by
  rcases (Same.equal_iff h.type (.of_inSight .intro)).1 h with ⟨x, y, hp, hq, hxy, ha, hc⟩ | h
  · exact .inl ⟨x, y, hp, hq, hxy, ha, hc⟩
  · obtain ⟨ho, T, m, U, n, hp, hq, ⟨t₁, a₁, c₁, hT, ht₁, ha₁, hc₁⟩,
      ⟨t₂, a₂, c₂, hU, ht₂, ha₂, hc₂⟩, hm⟩ := h
    exact .inr ⟨eq_true ho, T, m, U, n, t₁, a₁, c₁, t₂, a₂, c₂, hp, hq, hT, hU, hm, ht₁,
      TypeAt.trans (TypeAt.symm ht₁) ht₂, ha₁, Same.trans (Same.symm ha₁) ha₂, hc₁,
      Same.trans (Same.symm hc₁) hc₂⟩

/-- Both sides of an equality are the value that an element of it is given by. -/
theorem Same.equal_sides {p x : Value} (h : Same o (.equal t a c) p p) (hp : Looks p (.unary .same x)) :
    Same o t a x ∧ Same o t c x := by
  rcases h.equal_cases with ⟨y, -, hy, -, -, ha, hc⟩ | ⟨-, T, m, _, _, _, _, _, _, _, _, hy, -⟩
  · cases hp.unique hy
    exact ⟨ha, hc⟩
  · cases hp.unique hy

/-! ## Symmetry and transitivity -/

theorem RunSame.symmetry {p q : Value} (h : Same o (.equal t a c) p q) :
    RunSame o (.equal t c a) (doSymm p) (doSymm q) := by
  rcases h.equal_cases with ⟨x, y, hp, hq, hxy, ha, hc⟩ |
    ⟨rfl, T, m, U, n, t₁, a₁, c₁, t₂, a₂, c₂, hp, hq, hT, hU, hm, ht₁, ht₁₂, ha₁, ha₁₂, hc₁, hc₁₂⟩
  · exact .bind hp hq (.done (.same_congr hxy.type hxy hc ha))
  · have hX : SameType True (.equal t₁ c₁ a₁) (.equal t c a) :=
      (TypeAt.equal ht₁ hc₁ ha₁).symm
    have hXY : SameType True (.equal t₁ c₁ a₁) (.equal t₂ c₂ a₂) :=
      .equal ht₁₂ (hc₁₂.conv ht₁) (ha₁₂.conv ht₁)
    exact .bind hp hq (.bind (.equalParts hT) (.equalParts hU)
      (.done (.conv (.reflect hXY (.project .symm hm)) hX)))

theorem RunSame.transitivity {d p q p' q' : Value} (h : Same o (.equal t a c) p q)
    (h' : Same o (.equal t c d) p' q') :
    RunSame o (.equal t a d) (doTrans p p') (doTrans q q') := by
  rcases h.equal_cases with ⟨x, y, hp, hq, hxy, ha, hc⟩ |
    ⟨rfl, T, m, U, n, t₁, a₁, c₁, t₂, a₂, c₂, hp, hq, hT, hU, hm, ht₁, ht₁₂, ha₁, ha₁₂, hc₁, hc₁₂⟩
  · rcases h'.equal_cases with ⟨x', y', hp', hq', hxy', hc', hd⟩ |
      ⟨rfl, T', m', U', n', t₁, c₁, d₁, t₂, c₂, d₂, hp', hq', hT, hU, hm, ht₁, ht₁₂, -, -, hd₁, hd₁₂⟩
    · have hdx : Same o t d x := (hd.trans hc'.symm).trans hc
      exact .bind hp hq (.bind hp' hq' (.done (.same_congr hxy.type hxy ha hdx)))
    · have hX : SameType True (.equal t₁ x d₁) (.equal t a d) :=
        (TypeAt.equal ht₁ ha hd₁).symm
      have hXY : SameType True (.equal t₁ x d₁) (.equal t₂ y d₂) :=
        .equal ht₁₂ (hxy.conv ht₁) (hd₁₂.conv ht₁)
      have hx : SameType True (.equal t₁ x x) (.equal t₂ y y) :=
        .equal ht₁₂ (hxy.conv ht₁) (hxy.conv ht₁)
      exact .bind hp hq (.bind hp' hq' (.bind (.equalParts hT) (.equalParts hU)
        (.done (.conv (.reflect hXY (.transRight ((hxy.conv ht₁).same_refl.readAlike hx) hm)) hX))))
  · rcases h'.equal_cases with ⟨x', y', hp', hq', hxy', hc', hd⟩ |
      ⟨-, T', m', U', n', t₁', c₁', d₁, t₂', c₂', d₂, hp', hq', hT', hU', hm', -, -, -, -, hd₁,
        hd₁₂⟩
    · have hX : SameType True (.equal t₁ a₁ x') (.equal t a d) :=
        (TypeAt.equal ht₁ ha₁ hd).symm
      have hXY : SameType True (.equal t₁ a₁ x') (.equal t₂ a₂ y') :=
        .equal ht₁₂ (ha₁₂.conv ht₁) (hxy'.conv ht₁)
      have hx : SameType True (.equal t₁ x' x') (.equal t₂ y' y') :=
        .equal ht₁₂ (hxy'.conv ht₁) (hxy'.conv ht₁)
      exact .bind hp hq (.bind hp' hq' (.bind (.equalParts hT) (.equalParts hU)
        (.done (.conv (.reflect hXY
          (.transLeft hm ((hxy'.conv ht₁).same_refl.readAlike hx))) hX))))
    · have hX : SameType True (.equal t₁ a₁ d₁) (.equal t a d) :=
        (TypeAt.equal ht₁ ha₁ hd₁).symm
      have hXY : SameType True (.equal t₁ a₁ d₁) (.equal t₂ a₂ d₂) :=
        .equal ht₁₂ (ha₁₂.conv ht₁) (hd₁₂.conv ht₁)
      exact .bind hp hq (.bind hp' hq' (.bind (.equalParts hT) (.equalParts hU)
        (.bind (.equalParts hT') (.equalParts hU')
          (.done (.conv (.reflect hXY (.transBoth hm hm')) hX)))))

/-! ## Congruence -/

theorem RunSame.congruence {x : String} {C C' f g p q : Value} (hC : SameType o C C')
    (hf : Same o (.arrow x t C) f g) (h : Same o (.equal t a c) p q) :
    RunSame o (.equal C (apply f a).result (apply f c).result) (doCong p C f) (doCong q C' g) := by
  rcases h.equal_cases with ⟨x, y, hp, hq, hxy, ha, hc⟩ |
    ⟨rfl, T, m, U, n, t₁, a₁, c₁, t₂, a₂, c₂, hp, hq, hT, hU, hm, ht₁, ht₁₂, ha₁, ha₁₂, hc₁, hc₁₂⟩
  · obtain ⟨v, w, hv, hw, hvw⟩ := hf.applyArrow hxy
    have hfa : Same o C (apply f a).result v := hv.result_eq ▸ (hf.left.applyArrow ha).result
    have hfc : Same o C (apply f c).result v := hv.result_eq ▸ (hf.left.applyArrow hc).result
    exact .bind hp hq (.bind hv hw (.done (.same_congr hC.left hvw hfa hfc)))
  · obtain ⟨v, w, hv, hw, hvw⟩ := hf.applyArrow ha₁₂
    obtain ⟨v', w', hv', hw', hvw'⟩ := hf.applyArrow hc₁₂
    have hfa : Same True C v (apply f a).result :=
      hv.result_eq ▸ (hf.left.applyArrow ha₁.symm).result
    have hfc : Same True C v' (apply f c).result :=
      hv'.result_eq ▸ (hf.left.applyArrow hc₁.symm).result
    have hX : SameType True (.equal C v v') (.equal C (apply f a).result (apply f c).result) :=
      .equal hC.left hfa hfc
    have hXY : SameType True (.equal C v v') (.equal C' w w') := .equal hC hvw hvw'
    have hA : SameType True (.arrow x t C) (.arrow "x" t₁ C) := .arrow ht₁ hC.left
    have hA' : SameType True (.arrow "x" t₁ C) (.arrow "x" t₂ C') := .arrow ht₁₂ hC
    exact .bind hp hq (.bind (.equalParts hT) (.equalParts hU) (.bind hv hw (.bind hv' hw'
      (.done (.conv (.reflect hXY (.cong hm hC.readAlike ((hf.conv hA).readAlike hA'))) hX)))))

/-! ## Transport -/

section Transport

variable {M M' b b' p q : Value}

theorem RunSame.replacement (hM : Same o (.replaceMotive t) M M')
    (hb : Same o (apply M a).result b b') (h : Same o (.equal t a c) p q) :
    RunSame o (apply M c).result (doReplace p M b) (doReplace q M' b') := by
  rcases h.equal_cases with ⟨x, y, hp, hq, hxy, ha, hc⟩ |
    ⟨rfl, T, m, U, n, t₁, a₁, c₁, t₂, a₂, c₂, hp, hq, hT, hU, hm, ht₁, ht₁₂, ha₁, ha₁₂, hc₁, hc₁₂⟩
  · exact .bind hp hq (.conv (.look hb) (hM.left.motiveType (ha.trans hc.symm)))
  · obtain ⟨R, R', hR, hR', hRR⟩ := hM.motive hc₁₂
    obtain ⟨Z, Z', hZ, hZ', hZZ⟩ := hM.motive ha₁₂
    have hRc : SameType True R (apply M c).result := hR.result_eq ▸ hM.left.motiveType hc₁.symm
    have hbZ : Same True Z b b' := hb.conv (hZ.result_eq ▸ hM.left.motiveType ha₁)
    have hMot : SameType True (.replaceMotive t) (.replaceMotive t₁) := .arrow ht₁ SameType.univ
    have hMot' : SameType True (.replaceMotive t₁) (.replaceMotive t₂) :=
      .arrow ht₁₂ SameType.univ
    refine .bind hp hq (.bind (.equalParts hT) (.equalParts hU) (.bind hR hR' (.bind hZ hZ'
      (.done (.conv (.reflect hRR.sameType ?_) hRc)))))
    exact .transport .replace hm ((hM.conv hMot).readAlike hMot') (hbZ.readAlike hZZ.sameType)

theorem SameType.indEqualMotive {t' a' : Value} (ht : SameType o t t') (ha : Same o t a a') :
    SameType o (.indEqualMotive t a) (.indEqualMotive t' a') :=
  .pi ht fun _ _ hx ↦ ⟨_, _, .done _, .done _, .arrow (.equal ht ha hx) SameType.univ⟩

/-- The same motives over equalities, at the same arguments, are the same type. -/
theorem Same.equalMotive {x y : Value} (hM : Same o (.indEqualMotive t a) M M')
    (hx : Same o t x y) (h : Same o (.equal t a x) p q) :
    ∃ Y Z, Runs (Idealized.apply₂ M x p) Y ∧ Runs (Idealized.apply₂ M' y q) Z ∧
      TypeAt .small o Y Z := by
  obtain ⟨Y, Z, hY, hZ, hYZ⟩ := (hM.apply (.of_inSight .intro) hx (.done _)).andThen
    fun _ _ _ _ hv ↦ hv.applyArrow h
  exact ⟨Y, Z, hY, hZ, (univ_iff (.of_inSight .intro)).1 hYZ⟩

theorem Same.equalMotiveType {x y : Value} (hM : Same o (.indEqualMotive t a) M M')
    (hx : Same o t x y) (h : Same o (.equal t a x) p q) :
    SameType o (Idealized.apply₂ M x p).result (Idealized.apply₂ M' y q).result := by
  obtain ⟨Y, Z, hY, hZ, hYZ⟩ := hM.equalMotive hx h
  rw [hY.result_eq, hZ.result_eq]
  exact hYZ.sameType

theorem RunSame.indEqual (hM : Same o (.indEqualMotive t a) M M') (hac : Same o t a a)
    (hc : Same o t c c) (hb : Same o (apply₂ M a (.unary .same a)).result b b')
    (h : Same o (.equal t a c) p q) :
    RunSame o (apply₂ M c p).result (doIndEqual p M b) (doIndEqual q M' b') := by
  rcases h.equal_cases with ⟨x, y, hp, hq, hxy, hax, hcx⟩ |
    ⟨rfl, T, m, U, n, t₁, a₁, c₁, t₂, a₂, c₂, hp, hq, hT, hU, hm, ht₁, ht₁₂, ha₁, ha₁₂, hc₁, hc₁₂⟩
  · have hp' : Same o (.equal t a a) (.unary .same a) p :=
      (Same.same_congr hxy.type hax hac hac).seenRight (.of_looks hp)
    have hT := hM.left.equalMotiveType (hax.trans hcx.symm) hp'
    exact .bind hp hq (.conv (.look hb) hT)
  · have hX : SameType True (.equal t a c₁) (.equal t a c) := .equal ht₁.left hac hc₁.symm
    have hX₁ : SameType True (.equal t₁ a₁ c₁) (.equal t a c₁) :=
      (TypeAt.equal ht₁ ha₁ hc₁₂.left).symm
    have hX₁₂ : SameType True (.equal t₁ a₁ c₁) (.equal t₂ a₂ c₂) :=
      .equal ht₁₂ (ha₁₂.conv ht₁) (hc₁₂.conv ht₁)
    have hTU : SameType True T U := hX₁₂.seenBoth (.of_looks hT) (.of_looks hU)
    have hTX : SameType True T (.equal t a c₁) := hX₁.seen (.of_looks hT)
    have hmn : Same True (.equal t a c₁) (.neu T m) (.neu U n) := (Same.reflect hTU hm).conv hTX
    have hp' : Same True (.equal t a c₁) (.neu T m) p := hmn.left.seenRight (.of_looks hp)
    have hs : Same True (.equal t a a₁) (.unary .same a₁) (.unary .same a₂) :=
      .same_congr ht₁.left ha₁₂ ha₁ ha₁₂.left
    have hs' : Same True (.equal t a a) (.unary .same a) (.unary .same a₁) :=
      .same_congr ht₁.left ha₁ hac hac
    obtain ⟨R, R', hR, hR', hRR⟩ := hM.equalMotive hc₁₂ hmn
    obtain ⟨Z, Z', hZ, hZ', hZZ⟩ := hM.equalMotive ha₁₂ hs
    have hRc : SameType True R (apply₂ M c p).result :=
      hR.result_eq ▸ hM.left.equalMotiveType hc₁.symm hp'
    have hbZ : Same True Z b b' := hb.conv (hZ.result_eq ▸ hM.left.equalMotiveType ha₁ hs')
    have hMot : SameType True (.indEqualMotive t a) (.indEqualMotive t₁ a₁) :=
      .indEqualMotive ht₁ ha₁
    have hMot' : SameType True (.indEqualMotive t₁ a₁) (.indEqualMotive t₂ a₂) :=
      .indEqualMotive ht₁₂ (ha₁₂.conv ht₁)
    refine .bind hp hq (.bind (.equalParts hT) (.equalParts hU) (.bind hR hR' (.bind hZ hZ'
      (.done (.conv (.reflect hRR.sameType ?_) hRc)))))
    exact .transport .indEqual hm ((hM.conv hMot).readAlike hMot') (hbZ.readAlike hZZ.sameType)

end Transport

/-! ## The empty type -/

theorem RunSame.indAbsurd {M M' p q : Value} (hM : SameType o M M')
    (h : Same o (.const .absurd) p q) : RunSame o M (doIndAbsurd p M) (doIndAbsurd q M') := by
  obtain ⟨⟨ho, T, m, hp, hT, hm⟩, ⟨-, U, n, hq, hU, hn⟩⟩ :=
    (Same.absurd_iff (.of_inSight .intro)).1 h
  obtain rfl : o = True := eq_true ho
  refine .bind hp hq (.done (.reflect hM fun k ↦ ?_))
  -- the targets need not be alike, but what is read of them is left out
  obtain ⟨N, -, hN, -⟩ := hm k
  obtain ⟨N', -, hN', -⟩ := hn k
  obtain ⟨L, L', hL, hL', e⟩ := hM.readAlike k
  exact ⟨_, _, .read hN (.read hL (.done _)), .read hN' (.read hL' (.done _)),
    by simp [Nameless.blur, Nameless.isAbsurd, e]⟩

end LittleTypes.Idealized
