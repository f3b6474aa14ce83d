import LittleTypes.Proofs.Glue.Recurs

/-!
# Equality in the glued logic

An element of an equality is given by one value on every side, or it waits on the new side.  With
the eliminators of equality and of the empty type the glued logic is sound.
-/

namespace LittleTypes.Idealized

variable {L : Logic} {K : Ground L} {W : GlueWorld L} {t a b d p q M C f k : Option L.Index → Value}
  (hK : K.Good)

include hK

namespace GlueElem

/-- An element of an equality is given by a value everywhere, or it waits. -/
theorem equal_cases (h : GlueElem K W (fun i ↦ .equal (t i) (a i) (b i)) p) :
    (∃ x, (∀ i, Looks (p i) (.unary .same (x i))) ∧ GlueElem K W t x ∧
      (∀ i, Same (L.glueModel i) (t i) (a i) (x i)) ∧
      ∀ i, Same (L.glueModel i) (t i) (b i) (x i)) ∨
    ∃ T m t' a' b', Looks (p none) (.neu T m) ∧ Looks T (.equal (t' none) (a' none) (b' none)) ∧
      GlueType K .large W t' ∧ GlueElem K W t' a' ∧ GlueElem K W t' b' ∧
      (∀ i, SameType (L.glueModel i) (t' i) (t i)) ∧
      (∀ i, Same (L.glueModel i) (t' i) (a' i) (a i)) ∧
      (∀ i, Same (L.glueModel i) (t' i) (b' i) (b i)) ∧
      Names K.blurs W m (fun i ↦ .equal (t (some i)) (a (some i)) (b (some i)))
        (Idealized.others p) := by
  obtain ⟨T, hT, ht, ha, hb⟩ := GlueType.equalBond h.type
  have hT' : Bonded (Size.large.bond K) T := hT.mono fun _ ↦ Size.eq_univ_bond
  obtain ⟨-, hg⟩ := (equal_iff hK hT ht ha hb).1 h
  rcases hg with ⟨x, hp, hx⟩ | ⟨U, m, hp, hU, hm⟩
  · have hs := fun i ↦ (h.same hK i).equal_sides (hp i)
    exact .inl ⟨x, hp, ⟨T, hT', ht, hx⟩, fun i ↦ (hs i).1, fun i ↦ (hs i).2⟩
  · obtain ⟨t', a', b', hUe, ht', ha', hb'⟩ := hU.code
    have hi := fun i ↦ (hU.same i).symm.equal_inj (hUe i) (.of_inSight .intro)
    exact .inr ⟨U none, m, t', a', b', hp, hUe none, ⟨ht'.side, T, hT, ht'⟩,
      ⟨T, hT', ht', ha'⟩, ⟨T, hT', ht', hb'⟩, fun i ↦ (hi i).1, fun i ↦ (hi i).2.1,
      fun i ↦ (hi i).2.2, hm⟩

/-- A value gives an equality of whatever is the same. -/
theorem reflBetween {x : Option L.Index → Value} (ha : GlueElem K W t a) (hb : GlueElem K W t b)
    (hx : GlueElem K W t x) (hax : ∀ i, Same (L.glueModel i) (t i) (a i) (x i))
    (hbx : ∀ i, Same (L.glueModel i) (t i) (b i) (x i)) :
    GlueElem K W (fun i ↦ .equal (t i) (a i) (b i)) fun i ↦ .unary .same (x i) := by
  have hG := glue_lawful hK
  have ht := hx.type
  exact (hx.refl hK).conv hK (hG.equal ht ha hb) fun i ↦
    .equal (ht.sameSelf i) (hax i).symm (hbx i).symm

/-- An equality that is given by a value is shown at the type of that value. -/
theorem given_shows {x t' : Option L.Index → Value}
    (h : GlueElem K W (fun i ↦ .equal (t i) (a i) (b i)) p)
    (hp : ∀ i, Looks (p i) (.unary .same (x i))) (hx : GlueElem K W t' x)
    (htt : ∀ i, SameType (L.glueModel i) (t' i) (t i)) :
    Shows K.blurs W (.equal (t' none) (x none) (x none)) (.unary .same (x none))
      (fun i ↦ .equal (t (some i)) (a (some i)) (b (some i))) (Idealized.others p) := by
  have hX : ∀ i, SameType (L.glueModel i) (.equal (t' i) (x i) (x i))
      (.equal (t i) (a i) (b i)) := fun i ↦ by
    obtain ⟨hax, hbx⟩ := (h.same hK i).equal_sides (hp i)
    exact .equal (htt i) (hax.symm.conv (htt i).symm) (hbx.symm.conv (htt i).symm)
  exact (((hx.refl hK).shows hK).conv hK.base.toStable (h.type.others hK) fun i ↦ hX (some i)).seen
    (.refl _) (.refl _) fun i ↦ .of_looks (hp (some i))

end GlueElem

/-! ## Symmetry, transitivity and congruence -/

theorem glue_symm (hp : GlueElem K W (fun i ↦ .equal (t i) (a i) (b i)) p) :
    K.glue.Run W (fun i ↦ .equal (t i) (b i) (a i)) fun i ↦ doSymm (p i) := by
  have hG := glue_lawful hK
  obtain ⟨ht, ha, hb⟩ := hG.of_equal hp.type
  rcases hp.equal_cases hK with ⟨x, hpx, hx, hax, hbx⟩ |
    ⟨T, m, t', a', b', hpm, hT, ht', ha', hb', htt, haa, hbb, hm⟩
  · exact ⟨_, fun i ↦ .bind (hpx i) (.done _), .reflBetween hK hb ha hx hbx hax⟩
  · refine glue_run hK (hG.equal ht hb ha) (hG.equal ht' hb' ha')
      (fun i ↦ TypeAt.equal (htt i) (hbb i) (haa i))
      (.bind hpm (.bind (.equalParts hT) (.done _))) (hK.symm (hp.side hK)) fun r hr ↦ ?_
    exact .project .symm hm fun ω hω q hq ↦ hK.base.symmLike (hK.base.elem_mono (hp.others hK) hω) hq hr

theorem glue_trans (hp : GlueElem K W (fun i ↦ .equal (t i) (a i) (b i)) p)
    (hq : GlueElem K W (fun i ↦ .equal (t i) (b i) (d i)) q) :
    K.glue.Run W (fun i ↦ .equal (t i) (a i) (d i)) fun i ↦ doTrans (p i) (q i) := by
  have hG := glue_lawful hK
  obtain ⟨ht, ha, hb⟩ := hG.of_equal hp.type
  obtain ⟨-, -, hd⟩ := hG.of_equal hq.type
  -- whatever waits, the result is what transitivity gives on the other sides
  have hrun : ∀ {t' a' d' m}, GlueType K .large W t' → GlueElem K W t' a' → GlueElem K W t' d' →
      (∀ i, SameType (L.glueModel i) (t' i) (t i)) →
      (∀ i, Same (L.glueModel i) (t' i) (a' i) (a i)) →
      (∀ i, Same (L.glueModel i) (t' i) (d' i) (d i)) →
      Runs (doTrans (p none) (q none)) (.neu (.equal (t' none) (a' none) (d' none)) m) →
      (∀ r, (∀ i, Runs (doTrans (p (some i)) (q (some i))) (r i)) →
        Names K.blurs W m (fun i ↦ .equal (t (some i)) (a (some i)) (d (some i))) r) →
      K.glue.Run W (fun i ↦ .equal (t i) (a i) (d i)) fun i ↦ doTrans (p i) (q i) :=
    fun ht' ha' hd' htt haa hdd h₀ hm ↦ glue_run hK (hG.equal ht ha hd) (hG.equal ht' ha' hd')
      (fun i ↦ TypeAt.equal (htt i) (haa i) (hdd i)) h₀
      (hK.trans (hp.side hK) (hq.side hK)) hm
  have hlike := fun (r : L.Index → Value)
      (hr : ∀ i, Runs (doTrans (p (some i)) (q (some i))) (r i)) ω (hω : L.le W.base ω) p₁ q₁
      (h : L.Like ω _ _ p₁) (h' : L.Like ω _ _ q₁) ↦
    hK.base.transLike (hK.base.elem_mono (hp.others hK) hω) (hK.base.elem_mono (hq.others hK) hω) h
      h' hr
  rcases hp.equal_cases hK with ⟨x, hpx, hx, hax, hbx⟩ |
    ⟨T, m, t', a', b', hpm, hT, ht', ha', hb', htt, haa, hbb, hm⟩
  · rcases hq.equal_cases hK with ⟨y, hqy, hy, hby, hdy⟩ |
      ⟨U, n, u', b'', d', hqn, hU, hu', hb'', hd', huu, hbb', hdd, hn⟩
    · have hdx := fun i ↦ ((hdy i).trans (hby i).symm).trans (hbx i)
      exact ⟨_, fun i ↦ .bind (hpx i) (.bind (hqy i) (.done _)),
        .reflBetween hK ha hd hx hax hdx⟩
    · have hx' := hx.conv hK hu' fun i ↦ (huu i).symm
      refine hrun hu' hx' hd' huu (fun i ↦ (hax i).symm.conv (huu i).symm) hdd
        (.bind (hpx none) (.bind hqn (.bind (.equalParts hU) (.done _)))) fun r hr ↦ ?_
      exact .transRight (hp.given_shows hK hpx hx' huu) hn (hlike r hr)
  · rcases hq.equal_cases hK with ⟨y, hqy, hy, hby, hdy⟩ |
      ⟨U, n, u', b'', d', hqn, hU, hu', hb'', hd', huu, hbb', hdd, hn⟩
    · have hy' := hy.conv hK ht' fun i ↦ (htt i).symm
      refine hrun ht' ha' hy' htt haa (fun i ↦ (hdy i).symm.conv (htt i).symm)
        (.bind hpm (.bind (hqy none) (.bind (.equalParts hT) (.done _)))) fun r hr ↦ ?_
      exact .transLeft hm (hq.given_shows hK hqy hy' htt) (hlike r hr)
    · have hd'' := hd'.conv hK ht' fun i ↦ (huu i).trans (htt i).symm
      exact hrun ht' ha' hd'' htt haa (fun i ↦ (hdd i).conv ((huu i).trans (htt i).symm))
        (.bind hpm (.bind hqn (.bind (.equalParts hT) (.bind (.equalParts hU) (.done _)))))
        fun r hr ↦ .transBoth hm hn (hlike r hr)

theorem glue_cong {x : Option L.Index → String} (hC : GlueType K .large W C)
    (hf : GlueElem K W (fun i ↦ .arrow (x i) (t i) (C i)) f)
    (hp : GlueElem K W (fun i ↦ .equal (t i) (a i) (b i)) p) :
    K.glue.Run W (fun i ↦ .equal (C i) (apply (f i) (a i)).result (apply (f i) (b i)).result)
      fun i ↦ doCong (p i) (C i) (f i) := by
  have hG := glue_lawful hK
  obtain ⟨ht, ha, hb⟩ := hG.of_equal hp.type
  have hfa := hG.applyArrow hf ha
  have hfb := hG.applyArrow hf hb
  -- what is the same is taken to what is the same
  have hff : ∀ {u v : Option L.Index → Value} i, Same (L.glueModel i) (t i) (u i) (v i) →
      Same (L.glueModel i) (C i) (apply (f i) (u i)).result (apply (f i) (v i)).result :=
    fun i h ↦ ((hf.same hK i).applyArrow h).result
  rcases hp.equal_cases hK with ⟨y, hpy, hy, hay, hby⟩ |
    ⟨T, m, t', a', b', hpm, hT, ht', ha', hb', htt, haa, hbb, hm⟩
  · have hfy := hG.applyArrow hf hy
    exact ⟨_, fun i ↦ .bind (hpy i) (.bind (hfy.runs i) (.done _)), .reflBetween hK hfa.result
      hfb.result hfy.result (fun i ↦ hff i (hay i)) fun i ↦ hff i (hby i)⟩
  · have hf' := hf.conv hK (hG.arrow (x := fun _ ↦ "x") ht' hC) fun i ↦
      TypeAt.arrow (htt i).symm (hC.sameSelf i)
    have hfa' := hG.applyArrow hf' ha'
    have hfb' := hG.applyArrow hf' hb'
    refine glue_run hK (hG.equal hC hfa.result hfb.result)
      (hG.equal hC hfa'.result hfb'.result)
      (fun i ↦ TypeAt.equal (hC.sameSelf i) (hff i ((haa i).conv (htt i)))
        (hff i ((hbb i).conv (htt i))))
      (.bind hpm (.bind (.equalParts hT) (.bind (hfa'.runs none) (.bind (hfb'.runs none)
        (.done _)))))
      (hK.cong hC.side (hf.side hK) (hp.side hK)) fun r hr ↦ ?_
    have hsf := (hf'.shows hK).conv hK.base.toStable (hf.type.others hK) fun i ↦
      TypeAt.arrow (htt (some i)) (hC.sameSelf (some i))
    exact .cong hK.base hm (hC.shows hK) hsf fun ω hω _ _ _ hp₁ hC₁ hf₁ ↦
      hK.base.congLike (hK.base.type_mono (hC.others hK) hω) (hK.base.elem_mono (hf.others hK) hω)
        (hK.base.elem_mono (hp.others hK) hω) hp₁ hC₁ hf₁ hr

/-! ## Replacement and induction -/

theorem glue_replace (hM : GlueElem K W (fun i ↦ .replaceMotive (t i)) M)
    (hk : GlueElem K W (fun i ↦ (apply (M i) (a i)).result) k)
    (hp : GlueElem K W (fun i ↦ .equal (t i) (a i) (b i)) p) :
    K.glue.Run W (fun i ↦ (apply (M i) (b i)).result) fun i ↦ doReplace (p i) (M i) (k i) := by
  have hG := glue_lawful hK
  obtain ⟨ht, ha, hb⟩ := hG.of_equal hp.type
  rcases hp.equal_cases hK with ⟨y, hpy, hy, hay, hby⟩ |
    ⟨T, m, t', a', b', hpm, hT, ht', ha', hb', htt, haa, hbb, hm⟩
  · exact .bind hpy (hG.convRun (hG.look hk) (hG.motiveType hM hb)
      (hM.motive_same hK fun i ↦ (hay i).trans (hby i).symm))
  · have haT := fun i ↦ (haa i).conv (htt i)
    have hMM : ∀ i, SameType (L.glueModel i) (.replaceMotive (t' i)) (.replaceMotive (t i)) :=
      fun i ↦ .arrow (htt i) SameType.univ
    have hM' := hM.conv hK (hG.arrow ht' hG.univ) fun i ↦ (hMM i).symm
    have hk' := hk.conv hK (hG.type_large (hG.motiveType hM' ha'))
      (hM.motive_same hK fun i ↦ (haT i).symm)
    refine glue_run hK (hG.motiveType hM hb) (hG.type_large (hG.motiveType hM' hb'))
      (hM.motive_same hK fun i ↦ (hbb i).conv (htt i))
      (.bind hpm (.bind (.equalParts hT) (.bind ((hG.applyArrow hM' hb').runs none)
        (.bind ((hG.applyArrow hM' ha').runs none) (.done _)))))
      (hK.replace (hM.side hK) (hk.side hK) (hp.side hK)) fun r hr ↦ ?_
    have hsM := (hM'.shows hK).conv hK.base.toStable (hM.type.others hK) fun i ↦ hMM (some i)
    have hsk := (hk'.shows hK).conv hK.base.toStable (hk.type.others hK) fun i ↦
      hM.motive_same hK haT (some i)
    exact .transport hK.base .replace hm hsM hsk fun ω hω _ _ _ hp₁ hM₁ hk₁ ↦
      hK.base.replaceLike (hK.base.elem_mono (hM.others hK) hω)
        (hK.base.elem_mono (hp.others hK) hω) hp₁ hM₁ hk₁ hr

theorem glue_indEqual (hM : GlueElem K W (fun i ↦ .indEqualMotive (t i) (a i)) M)
    (hk : GlueElem K W (fun i ↦ (apply₂ (M i) (a i) (.unary .same (a i))).result) k)
    (hp : GlueElem K W (fun i ↦ .equal (t i) (a i) (b i)) p) :
    K.glue.Run W (fun i ↦ (apply₂ (M i) (b i) (p i)).result)
      fun i ↦ doIndEqual (p i) (M i) (k i) := by
  have hG := glue_lawful hK
  obtain ⟨ht, ha, hb⟩ := hG.of_equal hp.type
  have hrefl := ha.refl hK
  rcases hp.equal_cases hK with ⟨y, hpy, hy, hay, hby⟩ |
    ⟨T, m, t', a', b', hpm, hT, ht', ha', hb', htt, haa, hbb, hm⟩
  · refine .bind hpy (hG.convRun (hG.look hk) (hG.equalMotiveType hM hb hp) fun i ↦ ?_)
    have hap := Same.same_congr (ht.sameSelf i) (hay i) (ha.same hK i) (ha.same hK i)
    exact (hM.same hK i).equalMotiveType ((hay i).trans (hby i).symm)
      (hap.seenRight (.of_looks (hpy i)))
  · have haT := fun i ↦ (haa i).conv (htt i)
    have hbT := fun i ↦ (hbb i).conv (htt i)
    have hMM : ∀ i, SameType (L.glueModel i) (.indEqualMotive (t' i) (a' i))
        (.indEqualMotive (t i) (a i)) := fun i ↦ .indEqualMotive (htt i) (haa i)
    have hM' := hM.conv hK (hG.indEqualMotive ht' ha') fun i ↦ (hMM i).symm
    obtain ⟨hp', hpp⟩ := hp.inSight hK hpm
    have hp₁ := hp'.conv hK (hG.equal ht' ha' hb') fun i ↦
      (TypeAt.equal (htt i) (haa i) (hbb i)).symm
    obtain ⟨R, hR, -⟩ := hG.equalMotive hM' hb' hp₁
    obtain ⟨Z, hZ, -⟩ := hG.equalMotive hM' ha' (ha'.refl hK)
    have hZZ : ∀ i, SameType (L.glueModel i) (apply₂ (M i) (a' i) (.unary .same (a' i))).result
        (apply₂ (M i) (a i) (.unary .same (a i))).result := fun i ↦
      (hM.same hK i).equalMotiveType (haT i)
        (.same_congr (ht.sameSelf i) (haT i) (haT i).symm (haT i).left)
    have hk' := hk.conv hK (hG.type_large (hG.equalMotiveType hM' ha' (ha'.refl hK)))
      fun i ↦ (hZZ i).symm
    refine glue_run hK (hG.equalMotiveType hM hb hp)
      (hG.type_large (hG.equalMotiveType hM' hb' hp₁))
      (fun i ↦ (hM.same hK i).equalMotiveType (hbT i) ((hpp i).conv (.equal (ht.sameSelf i)
        (ha.same hK i) (hbT i).symm)))
      (.bind hpm (.bind (.equalParts hT) (.bind ((Runs.of_exists ⟨_, hR none⟩))
        (.bind ((Runs.of_exists ⟨_, hZ none⟩)) (.done _)))))
      (hK.indEqual (hM.side hK) (hk.side hK) (hp.side hK)) fun r hr ↦ ?_
    have hsM := (hM'.shows hK).conv hK.base.toStable (hM.type.others hK) fun i ↦ hMM (some i)
    have hsk := (hk'.shows hK).conv hK.base.toStable (hk.type.others hK) fun i ↦ hZZ (some i)
    exact .transport hK.base .indEqual hm hsM hsk fun ω hω _ _ _ hp₁ hM₁ hk₁ ↦
      hK.base.indEqualLike (hK.base.elem_mono (hM.others hK) hω)
        (hK.base.elem_mono (hp.others hK) hω) hp₁ hM₁ hk₁ hr

/-! ## The empty type and unfinished expressions -/

theorem glue_indAbsurd (hM : GlueType K .large W M)
    (hp : GlueElem K W (fun _ ↦ .const .absurd) p) :
    K.glue.Run W M fun i ↦ doIndAbsurd (p i) (M i) := by
  have hX : (Bond.absurd : Bond K).Type W fun _ ↦ .const .absurd :=
    .ofConst hK (hK.absurd : K.type .large _ _)
  obtain ⟨-, T, m, hpm, -, hm⟩ := (GlueElem.iff_same hK (s := .large) .absurd hX).1 hp
  exact glue_run hK hM hM hM.sameSelf (.bind hpm (.done _)) (hK.indAbsurd hM.side (hp.side hK))
    fun r hr ↦ .indAbsurd hK.base hm (hM.shows hK) (hM.others hK) (hp.others hK) hr

theorem glue_hole {X : Option L.Index → Value} (l : Location) (ho : ∀ i, L.glueModel i)
    (hX : GlueType K .large W X) : GlueElem K W X fun i ↦ .neu (X i) (.hole l (X i)) :=
  .reflect hK hX hX hX.sameSelf (.of_inSight .intro) (hK.hole l ho hX.side)
    (.hole hK.base (fun i ↦ ho (some i)) (hX.shows hK) (hX.others hK))

theorem glue_transports : K.glue.Transports where
  symm hp := glue_symm hK hp
  trans hp hq := glue_trans hK hp hq
  cong hC hf hp := glue_cong hK hC hf hp
  replace hM hk hp := glue_replace hK hM hk hp
  indEqual hM hk hp := glue_indEqual hK hM hk hp
  indAbsurd hM hp := glue_indAbsurd hK hM hp
  hole l ho hX := glue_hole hK l ho hX

/-- Gluing keeps a logic sound. -/
theorem glue_sound : K.glue.Sound :=
  { glue_lawful hK, glue_recurs hK, glue_transports hK with }

end LittleTypes.Idealized
