import LittleTypes.Proofs.Model.Run

/-!
# Eliminators take the same to the same

For every eliminator: at targets that are the same, with motives, bases and steps that are the
same, it runs to the same element of its result type.  If the targets wait for unknown values then
so do the results, and it has to be seen that they are read alike; only then something has to be
known about reading back.
-/

namespace LittleTypes.Idealized

variable {o : Prop}

theorem SameType.nat : SameType o (.const .nat) (.const .nat) := TypeAt.nat

theorem SameType.univ : SameType o (.const .univ) (.const .univ) :=
  ⟨_, .base rfl, .of_inSight .intro, .of_inSight .intro⟩

theorem SameNat.same {n n' : Value} (h : SameNat o n n') : Same o (.const .nat) n n' :=
  (Same.nat_iff (.of_inSight .intro)).2 h

theorem Same.sameNat {n n' : Value} (h : Same o (.const .nat) n n') : SameNat o n n' :=
  (Same.nat_iff (.of_inSight .intro)).1 h

theorem SameNat.add1_congr {n n' : Value} (h : SameNat o n n') :
    SameNat o (.unary .add1 n) (.unary .add1 n') :=
  .add1 (.of_inSight .intro) (.of_inSight .intro) h

theorem SameNat.zero_refl : SameNat o (.const .zero) (.const .zero) :=
  .zero (.of_inSight .intro) (.of_inSight .intro)

/-- Two arguments, one after the other. -/
theorem Same.apply₂ {f g a a' b b' A B C : Value} {x y : String}
    (h : Same o (.arrow x A (.arrow y B C)) f g) (ha : Same o A a a') (hb : Same o B b b') :
    RunSame o C (Idealized.apply₂ f a b) (Idealized.apply₂ g a' b') :=
  (h.applyArrow ha).andThen fun _ _ _ _ hv ↦ hv.applyArrow hb

theorem Runs.listElement {T e : Value} (h : Looks T (.unary .list e)) :
    Runs (listElement T) e := .bind h (.done e)

theorem Runs.vecParts {T e l : Value} (h : Looks T (.binary .vec e l)) :
    Runs (vecParts T) (e, l) := .bind h (.done _)

theorem Runs.equalParts {T t a c : Value} (h : Looks T (.equal t a c)) :
    Runs (equalParts T) (t, a, c) := .bind h (.done _)

/-! ## Recursion -/

section Recursion

variable {B B' b b' s s' : Value}

/-- The recursors on numbers differ only in the type of the step and in what they make of a
predecessor. -/
theorem RunSame.natRecursor {k : Recursor} {S S' t t' : Value} {f g : Value → Plan Value}
    (hB : SameType o B B') (hS : SameType o S S') (hb : Same o B b b') (hs : Same o S s s')
    (hf : ∀ n n', SameNat o n n' →
      RunSame o B (doNatRecursor k n B b s f S) (doNatRecursor k n' B' b' s' g S') →
      RunSame o B (f n) (g n'))
    (ht : SameNat o t t') :
    RunSame o B (doNatRecursor k t B b s f S) (doNatRecursor k t' B' b' s' g S') := by
  induction ht with
  | zero ht ht' => exact .bind ht ht' (.look hb)
  | add1 ht ht' hn ih => exact .bind ht ht' (hf _ _ hn ih)
  | waiting h =>
    obtain ⟨ho, T, m, U, n, ht, ht', -, -, hm⟩ := h
    obtain rfl : o = True := eq_true ho
    exact .bind ht ht' (.done (.reflect hB
      (.recursor k hm hB.readAlike (hb.readAlike hB) (hs.readAlike hS))))

/-- The type of what a recursor recurs on. -/
def Value.recursorTarget (elem : Value) : Recursor → Value
  | .recList => .unary .list elem
  | _ => .const .nat

/-- The type of the step of a recursor. -/
def Value.recursorStep (elem baseType : Value) : Recursor → Value
  | .whichNat => .whichNatStep baseType
  | .iterNat => .iterNatStep baseType
  | .recNat => .recNatStep baseType
  | .recList => .recListStep elem baseType

theorem SameType.recListStep {e e' : Value} (he : SameType o e e') (hB : SameType o B B') :
    SameType o (.recListStep e B) (.recListStep e' B') :=
  .arrow he (.arrow (.list he) (.arrow hB hB))

theorem RunSame.recList {e t t' : Value} (hB : SameType o B B') (hb : Same o B b b')
    (hs : Same o (.recListStep e B) s s') (he : SameType o e e)
    (ht : SameList o (meaning o e) t t') :
    RunSame o B (doRecList t B b s) (doRecList t' B' b' s') := by
  have hL : SameType o (.unary .list e) (.unary .list e) := .list he
  induction ht with
  | nil ht ht' => exact .bind ht ht' (.look hb)
  | cons ht ht' h hes ih =>
    have hes' : Same o (.unary .list e) _ _ := (Same.list_iff hL (.of_inSight .intro)).2 hes
    exact .bind ht ht' ((hs.apply₂ h hes').andThen fun _ _ _ _ hv ↦ hv.applyArrow (RunSame.later ih))
  | waiting h =>
    obtain ⟨ho, T, m, U, n, ht, ht', ⟨e₁, hT, he₁⟩, ⟨e₂, hU, he₂⟩, hm⟩ := h
    obtain rfl : o = True := eq_true ho
    have hS : SameType True (.recListStep e B) (.recListStep e₁ B) := .recListStep he₁ hB.left
    have hS' : SameType True (.recListStep e₁ B) (.recListStep e₂ B') :=
      .recListStep (he₁.symm.trans he₂) hB
    exact .bind ht ht' (.bind (.listElement hT) (.listElement hU) (.done (.reflect hB
      (.recursor .recList hm hB.readAlike (hb.readAlike hB) ((hs.conv hS).readAlike hS')))))

/-- Recursion takes the same to the same. -/
theorem RunSame.recursor {e t t' : Value} (k : Recursor) (hB : SameType o B B')
    (ht : Same o (.recursorTarget e k) t t') (hb : Same o B b b')
    (hs : Same o (.recursorStep e B k) s s') :
    RunSame o B (doRecursor k t B b s) (doRecursor k t' B' b' s') := by
  cases k with
  | whichNat =>
    exact .natRecursor hB (.arrow .nat hB) hb hs (fun n n' hn _ ↦ hs.applyArrow hn.same) ht.sameNat
  | iterNat =>
    exact .natRecursor hB (.arrow hB hB) hb hs (fun n n' _ ih ↦ hs.applyArrow ih.later) ht.sameNat
  | recNat =>
    exact .natRecursor hB (.arrow .nat (.arrow hB hB)) hb hs
      (fun n n' hn ih ↦ hs.apply₂ hn.same ih.later) ht.sameNat
  | recList =>
    obtain ⟨e', -, he⟩ := TypeAt.of_list ht.type (.of_inSight .intro)
    exact .recList hB hb hs he.left ((Same.list_iff ht.type (.of_inSight .intro)).1 ht)

end Recursion

/-! ## Induction on numbers -/

section Induction

variable {M M' b b' s s' t t' : Value}

/-- The type of the step at a predecessor. -/
theorem Same.natStep {n n' : Value} (hM : Same o .indNatMotive M M') (hn : SameNat o n n') :
    ∃ Y Z Y' Z', Runs (Idealized.apply M n) Y ∧ Runs (Idealized.apply M (.unary .add1 n)) Z ∧
      Runs (enter (.natStep M) n) (.arrow "ih" Y Z) ∧
      Runs (enter (.natStep M') n') (.arrow "ih" Y' Z') ∧
      SameType o (.arrow "ih" Y Z) (.arrow "ih" Y' Z') := by
  obtain ⟨Y, Y', hY, hY', hYY⟩ := hM.motive hn.same
  obtain ⟨Z, Z', hZ, hZ', hZZ⟩ := hM.motive hn.add1_congr.same
  exact ⟨Y, Z, Y', Z', hY, hZ, .bind hY (.bind hZ (.done _)), .bind hY' (.bind hZ' (.done _)),
    .arrow hYY.sameType hZZ.sameType⟩

theorem SameType.indNatStep (hM : Same o .indNatMotive M M') :
    SameType o (.indNatStep M) (.indNatStep M') := by
  refine .pi .nat fun n n' hn ↦ ?_
  obtain ⟨Y, Z, Y', Z', -, -, h, h', hT⟩ := hM.natStep hn.sameNat
  exact ⟨_, _, h, h', hT⟩

theorem RunSame.indNat (hM : Same o .indNatMotive M M')
    (hb : Same o (apply M (.const .zero)).result b b') (hs : Same o (.indNatStep M) s s')
    (ht : SameNat o t t') :
    RunSame o (apply M t).result (doIndNat t M b s) (doIndNat t' M' b' s') := by
  induction ht with
  | zero ht ht' =>
    refine .bind ht ht' (.conv (.look hb) (hM.left.motiveType (SameNat.same ?_)))
    exact .zero (.of_inSight .intro) ht
  | @add1 t t' n n' ht ht' hn ih =>
    obtain ⟨Y, Z, Y', Z', hY, hZ, h, h', hT⟩ := hM.natStep hn
    rw [hY.result_eq] at ih
    have hst : RunSame o Z (apply₂ s n (.later (.induct .indNat n M b s)))
        (apply₂ s' n' (.later (.induct .indNat n' M' b' s'))) :=
      (hs.apply (.of_inSight .intro) hn.same h).andThen fun _ _ _ _ hv ↦
        hv.applyArrow (RunSame.later ih)
    have hZt : SameType o Z (apply M t).result :=
      hZ.result_eq ▸ hM.left.motiveType (SameNat.same (.add1 (.of_inSight .intro) ht hn.left))
    exact .bind ht ht' (hst.conv hZt)
  | @waiting t t' h =>
    obtain ⟨ho, T, m, U, n, ht, ht', hT, hU, hm⟩ := h
    obtain rfl : o = True := eq_true ho
    have hmn : Same True (.const .nat) (.neu T m) (.neu U n) :=
      SameNat.same (.waiting (.reflect hT hU hm))
    obtain ⟨R, R', hR, hR', hRR⟩ := hM.motive hmn
    obtain ⟨Z, Z', hZ, hZ', hZZ⟩ := hM.motive SameNat.zero_refl.same
    rw [hZ.result_eq] at hb
    have hRt : SameType True R (apply M t).result :=
      hR.result_eq ▸ hM.left.motiveType (hmn.left.seenRight (.of_looks ht))
    refine .bind ht ht' (.bind hR hR' (.bind hZ hZ' (.done (.conv (.reflect hRR.sameType ?_) hRt))))
    exact .induct .indNat hm (hM.readAlike hM.type) (hb.readAlike hZZ.sameType)
      (hs.readAlike (.indNatStep hM))

/-! ## Induction on lists -/

theorem SameList.same {e v w : Value} (he : SameType o e e)
    (h : SameList o (meaning o e) v w) : Same o (.unary .list e) v w :=
  (Same.list_iff (.list he) (.of_inSight .intro)).2 h

theorem Same.listCons_congr {e h h' t t' : Value} (hh : Same o e h h')
    (ht : Same o (.unary .list e) t t') :
    Same o (.unary .list e) (.binary .listCons h t) (.binary .listCons h' t') :=
  (Same.list_iff ht.type (.of_inSight .intro)).2 (.cons (.of_inSight .intro) (.of_inSight .intro)
    hh ((Same.list_iff ht.type (.of_inSight .intro)).1 ht))

theorem Same.listCons_parts {e v w h h' t t' : Value} (hv : Same o (.unary .list e) v w)
    (hc : Looks v (.binary .listCons h t)) (hc' : Looks w (.binary .listCons h' t')) :
    Same o e h h' ∧ Same o (.unary .list e) t t' := by
  have hL := hv.type
  cases (Same.list_iff hL (.of_inSight .intro)).1 hv with
  | nil hn => cases hc.unique hn
  | cons hv hw hh ht =>
    cases hc.unique hv
    cases hc'.unique hw
    exact ⟨hh, (Same.list_iff hL (.of_inSight .intro)).2 ht⟩
  | waiting hw =>
    obtain ⟨T, m, hw⟩ := hw.looks
    cases hc.unique hw

/-- The type of the step at a head and a tail. -/
theorem Same.listStepTail {e h h' t t' : Value} (hM : Same o (.indListMotive e) M M')
    (hh : Same o e h h') (ht : Same o (.unary .list e) t t') :
    ∃ Y Z Y' Z', Runs (Idealized.apply M t) Y ∧ Runs (Idealized.apply M (.binary .listCons h t)) Z ∧
      Runs (enter (.listStepTail M h) t) (.arrow "ih" Y Z) ∧
      Runs (enter (.listStepTail M' h') t') (.arrow "ih" Y' Z') ∧
      SameType o (.arrow "ih" Y Z) (.arrow "ih" Y' Z') := by
  obtain ⟨Y, Y', hY, hY', hYY⟩ := hM.motive ht
  obtain ⟨Z, Z', hZ, hZ', hZZ⟩ := hM.motive (hh.listCons_congr ht)
  exact ⟨Y, Z, Y', Z', hY, hZ, .bind hY (.bind hZ (.done _)), .bind hY' (.bind hZ' (.done _)),
    .arrow hYY.sameType hZZ.sameType⟩

theorem SameType.listStepTail {e e' h h' : Value} (he : SameType o e e')
    (hM : Same o (.indListMotive e) M M') (hh : Same o e h h') :
    SameType o (.pi "es" (.unary .list e) (.listStepTail M h))
      (.pi "es" (.unary .list e') (.listStepTail M' h')) := by
  refine .pi (.list he) fun t t' ht ↦ ?_
  obtain ⟨Y, Z, Y', Z', -, -, h, h', hT⟩ := hM.listStepTail hh ht
  exact ⟨_, _, h, h', hT⟩

theorem SameType.indListStep {e e' : Value} (he : SameType o e e')
    (hM : Same o (.indListMotive e) M M') :
    SameType o (.indListStep e M) (.indListStep e' M') :=
  .pi he fun _ _ hh ↦ ⟨_, _, .done _, .done _, SameType.listStepTail he hM hh⟩

theorem SameType.indListMotive {e e' : Value} (he : SameType o e e') :
    SameType o (.indListMotive e) (.indListMotive e') := .arrow (.list he) SameType.univ

theorem RunSame.indList {e : Value} (hM : Same o (.indListMotive e) M M')
    (hb : Same o (apply M (.const .nil)).result b b') (hs : Same o (.indListStep e M) s s')
    (he : SameType o e e) (ht : SameList o (meaning o e) t t') :
    RunSame o (apply M t).result (doIndList t M b s) (doIndList t' M' b' s') := by
  induction ht with
  | nil ht ht' =>
    refine .bind ht ht' (.conv (.look hb) (hM.left.motiveType (SameList.same he ?_)))
    exact .nil (.of_inSight .intro) ht
  | @cons t t' h h' r r' ht ht' hh hr ih =>
    have hr' : Same o (.unary .list e) r r' := SameList.same he hr
    obtain ⟨Y, Z, Y', Z', hY, hZ, hT, -, -⟩ := hM.listStepTail hh hr'
    rw [hY.result_eq] at ih
    have hst : RunSame o Z
        (do apply (← apply₂ s h r) (.later (.induct .indList r M b s)))
        (do apply (← apply₂ s' h' r') (.later (.induct .indList r' M' b' s'))) :=
      ((hs.apply (.of_inSight .intro) hh (.done _)).andThen fun _ _ _ _ hv ↦
        hv.apply (.of_inSight .intro) hr' hT).andThen fun _ _ _ _ hw ↦
          hw.applyArrow (RunSame.later ih)
    have hcons : Same o (.unary .list e) (.binary .listCons h r) t :=
      SameList.same he (.cons (.of_inSight .intro) ht (Same.left hh)
        ((Same.list_iff hr'.type (.of_inSight .intro)).1 hr'.left))
    exact .bind ht ht' (hst.conv (hZ.result_eq ▸ hM.left.motiveType hcons))
  | @waiting t t' h =>
    obtain ⟨ho, T, m, U, n, ht, ht', hT, hU, hm⟩ := h
    obtain rfl : o = True := eq_true ho
    have hmn : Same True (.unary .list e) (.neu T m) (.neu U n) :=
      SameList.same he (.waiting (.reflect hT hU hm))
    have hnil : Same True (.unary .list e) (.const .nil) (.const .nil) :=
      SameList.same he (.nil (.of_inSight .intro) (.of_inSight .intro))
    obtain ⟨e₁, hT, he₁⟩ := hT
    obtain ⟨e₂, hU, he₂⟩ := hU
    have he₁₂ : SameType True e₁ e₂ := TypeAt.trans (TypeAt.symm he₁) he₂
    obtain ⟨R, R', hR, hR', hRR⟩ := hM.motive hmn
    obtain ⟨Z, Z', hZ, hZ', hZZ⟩ := hM.motive hnil
    rw [hZ.result_eq] at hb
    have hRt : SameType True R (apply M t).result :=
      hR.result_eq ▸ hM.left.motiveType (hmn.left.seenRight (.of_looks ht))
    have hM₁ : Same True (.indListMotive e₁) M M' := hM.conv (.indListMotive he₁)
    have hs₁ : Same True (.indListStep e₁ M) s s' := hs.conv (.indListStep he₁ hM.left)
    refine .bind ht ht' (.bind (.listElement hT) (.listElement hU) (.bind hR hR' (.bind hZ hZ'
      (.done (.conv (.reflect hRR.sameType ?_) hRt)))))
    exact .induct .indList hm (hM₁.readAlike (.indListMotive he₁₂)) (hb.readAlike hZZ.sameType)
      (hs₁.readAlike (.indListStep he₁₂ hM₁))

/-! ## Sums -/

theorem Same.left_congr {l r a a' : Value} (h : SameType o (.binary .either l r) (.binary .either l r))
    (ha : Same o l a a') : Same o (.binary .either l r) (.unary .left a) (.unary .left a') :=
  (Same.either_iff h (.of_inSight .intro)).2
    (.inl ⟨a, a', .of_inSight .intro, .of_inSight .intro, ha⟩)

theorem Same.right_congr {l r a a' : Value}
    (h : SameType o (.binary .either l r) (.binary .either l r)) (ha : Same o r a a') :
    Same o (.binary .either l r) (.unary .right a) (.unary .right a') :=
  (Same.either_iff h (.of_inSight .intro)).2
    (.inr (.inl ⟨a, a', .of_inSight .intro, .of_inSight .intro, ha⟩))

/-- The types of the cases are the same, for either side. -/
theorem SameType.indEitherCase {X A A' : Value} {x : String} {side : Unary}
    (hA : SameType o A A') (hM : Same o (.arrow x X (.const .univ)) M M')
    (hside : ∀ a a', Same o A a a' → Same o X (.unary side a) (.unary side a')) :
    SameType o (.indEitherCase side A M) (.indEitherCase side A' M') := by
  refine .pi hA fun a a' ha ↦ ?_
  obtain ⟨Y, Y', hY, hY', hYY⟩ := hM.motive (hside a a' ha)
  exact ⟨Y, Y', hY, hY', hYY.sameType⟩

theorem RunSame.indEither {l r : Value} (hM : Same o (.indEitherMotive l r) M M')
    (hb : Same o (.indEitherCase .left l M) b b') (hs : Same o (.indEitherCase .right r M) s s')
    (ht : Same o (.binary .either l r) t t') :
    RunSame o (apply M t).result (doIndEither t M b s) (doIndEither t' M' b' s') := by
  have hX := ht.type
  rcases (Same.either_iff hX (.of_inSight .intro)).1 ht with
    ⟨x, y, hx, hy, hxy⟩ | ⟨x, y, hx, hy, hxy⟩ | h
  · have ha : Same o l x y := hxy
    obtain ⟨Y, Y', hY, hY', hYY⟩ := hM.motive (ha.left_congr hX)
    have hYt : SameType o Y (apply M t).result :=
      hY.result_eq ▸ hM.left.motiveType ((ha.left.left_congr hX).seenRight (.of_looks hx))
    exact .bind hx hy ((hb.apply (.of_inSight .intro) ha hY).conv hYt)
  · have ha : Same o r x y := hxy
    obtain ⟨Y, Y', hY, hY', hYY⟩ := hM.motive (ha.right_congr hX)
    have hYt : SameType o Y (apply M t).result :=
      hY.result_eq ▸ hM.left.motiveType ((ha.left.right_congr hX).seenRight (.of_looks hx))
    exact .bind hx hy ((hs.apply (.of_inSight .intro) ha hY).conv hYt)
  · obtain ⟨ho, T, m, U, n, ht', hw, hT, hU, hm⟩ := h
    obtain rfl : o = True := eq_true ho
    have hmn : Same True (.binary .either l r) (.neu T m) (.neu U n) :=
      (Same.either_iff hX (.of_inSight .intro)).2 (.inr (.inr (.reflect hT hU hm)))
    obtain ⟨l₁, r₁, hT, hl₁, hr₁⟩ := hT
    obtain ⟨l₂, r₂, hU, hl₂, hr₂⟩ := hU
    have hl : SameType True l l₁ := hl₁
    have hr : SameType True r r₁ := hr₁
    have hl' : SameType True l₁ l₂ := hl.symm.trans hl₂
    have hr' : SameType True r₁ r₂ := hr.symm.trans hr₂
    obtain ⟨R, R', hR, hR', hRR⟩ := hM.motive hmn
    have hRt : SameType True R (apply M t).result :=
      hR.result_eq ▸ hM.left.motiveType (hmn.left.seenRight (.of_looks ht'))
    have hMot : SameType True (.indEitherMotive l r) (.indEitherMotive l₁ r₁) :=
      .arrow (.either hl hr) SameType.univ
    have hMot' : SameType True (.indEitherMotive l₁ r₁) (.indEitherMotive l₂ r₂) :=
      .arrow (.either hl' hr') SameType.univ
    have inL : ∀ a a', Same True l a a' → Same True (.binary .either l r) _ _ :=
      fun _ _ ha ↦ ha.left_congr hX
    have inR : ∀ a a', Same True r a a' → Same True (.binary .either l r) _ _ :=
      fun _ _ ha ↦ ha.right_congr hX
    have inL₁ : ∀ a a', Same True l₁ a a' → Same True (.binary .either l r) _ _ :=
      fun _ _ ha ↦ (ha.conv hl.symm).left_congr hX
    have inR₁ : ∀ a a', Same True r₁ a a' → Same True (.binary .either l r) _ _ :=
      fun _ _ ha ↦ (ha.conv hr.symm).right_congr hX
    refine .bind ht' hw (.bind hT hU (.bind hR hR' (.done (.conv (.reflect hRR.sameType ?_) hRt))))
    exact .induct .indEither hm ((hM.conv hMot).readAlike hMot')
      ((hb.conv (.indEitherCase hl hM.left inL)).readAlike (.indEitherCase hl' hM inL₁))
      ((hs.conv (.indEitherCase hr hM.left inR)).readAlike (.indEitherCase hr' hM inR₁))

end Induction

end LittleTypes.Idealized
