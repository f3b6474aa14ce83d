import LittleTypes.Proofs.Glue.Elements
import LittleTypes.Proofs.Glue.Results

/-!
# Recursion and induction in the glued logic

At a target built with a constructor the eliminators go on in the same way on every side.  At a
target that waits on the new side, what is read back there denotes what the eliminators do on the
other sides.
-/

namespace LittleTypes.Idealized

variable {L : Logic} {K : Ground L} {s : Size} {W : GlueWorld L} (hK : K.Good)

include hK

/-- Plans that end on the new side with an elimination that denotes what they end with on the other
sides. -/
theorem glue_run {X T : Option L.Index → Value} {p : Option L.Index → Plan Value} {m : Neutral}
    (hX : GlueType K s W X) (hT : GlueType K .large W T)
    (hTX : ∀ i, SameType (L.glueModel i) (T i) (X i)) (h₀ : Runs (p none) (.neu (T none) m))
    (hs : K.logic.Run W X p)
    (hm : ∀ r, (∀ i, Runs (p (some i)) (r i)) → Names K.blurs W m (others X) r) :
    K.glue.Run W X p := by
  obtain ⟨r, hr, hrX⟩ := hs
  refine ⟨r, hr, .reflect hK hX hT hTX (m := m) ?_ hrX (hm _ fun i ↦ hr (some i))⟩
  rw [(hr none).unique h₀]
  exact .of_inSight .intro

/-! ## Numbers -/

/-- What holds of constructed numbers, and of numbers that wait, holds of all. -/
@[elab_as_elim]
theorem GlueElem.nat_induction {P : (Option L.Index → Value) → Prop} {t : Option L.Index → Value}
    (h : GlueElem K W (fun _ ↦ .const .nat) t) (zero : ∀ v, (∀ i, Looks (v i) (.const .zero)) → P v)
    (add1 : ∀ v n, (∀ i, Looks (v i) (.unary .add1 (n i))) → GlueElem K W (fun _ ↦ .const .nat) n →
      P n → P v)
    (waiting : ∀ v T m, GlueElem K W (fun _ ↦ .const .nat) v → Looks (v none) (.neu T m) →
      Names K.blurs W m (fun _ ↦ .const .nat) (Idealized.others v) → P v) : P t := by
  obtain ⟨-, hg⟩ := (nat_iff hK).1 h
  induction hg with
  | zero hv => exact zero _ hv
  | @add1 v n hv hn ih =>
    have hn := ((glue_stable hK).elem_seen h fun i ↦ .seen (hv i)).pred hK
    exact add1 v n hv hn (ih hn)
  | waiting hv =>
    obtain ⟨T, m, hv, -, hm⟩ := hv
    exact waiting _ _ _ h hv hm

/-- What holds of constructed lists, and of lists that wait, holds of all. -/
@[elab_as_elim]
theorem GlueElem.list_induction {P : (Option L.Index → Value) → Prop}
    {e t : Option L.Index → Value} (h : GlueElem K W (fun i ↦ .unary .list (e i)) t)
    (nil : ∀ v, (∀ i, Looks (v i) (.const .nil)) → P v)
    (cons : ∀ v x r, (∀ i, Looks (v i) (.binary .listCons (x i) (r i))) → GlueElem K W e x →
      GlueElem K W (fun i ↦ .unary .list (e i)) r → P r → P v)
    (waiting : ∀ v T m e', GlueElem K W (fun i ↦ .unary .list (e i)) v → Looks (v none) (.neu T m) →
      Looks T (.unary .list (e' none)) → GlueType K .large W e' →
      (∀ i, SameType (L.glueModel i) (e' i) (e i)) →
      Names K.blurs W m (fun i ↦ .unary .list (e (some i))) (Idealized.others v) → P v) : P t := by
  obtain ⟨E, hE, he⟩ := GlueType.listBond h.type
  obtain ⟨-, hg⟩ := (list_iff hK hE he).1 h
  induction hg with
  | nil hv => exact nil _ hv
  | @cons v x r hv hx _ ih =>
    have hr := ((glue_stable hK).elem_seen h fun i ↦ .seen (hv i)).rest hK
    exact cons v x r hv ⟨E, hE, he, hx⟩ hr (ih hr)
  | waiting hv =>
    obtain ⟨T, m, hv, hT, hm⟩ := hv
    obtain ⟨e', hTe, he'⟩ := hT.code
    exact waiting _ _ m e' h hv (hTe none) ⟨he'.side, E, hE, he'⟩
      (fun i ↦ (he'.same i).symm.trans (he.same i)) hm

/-! ## Recursion -/

section Recursion

variable {e t B b s' : Option L.Index → Value}

/-- Recursion on a target that waits. -/
theorem glue_recursor_waiting (k : Recursor) {f : Option L.Index → Value} {m : Neutral}
    (hB : GlueType K .large W B) (ht : GlueElem K W (fun i ↦ .recursorTarget (e i) k) t)
    (hb : GlueElem K W B b) (hs : GlueElem K W (fun i ↦ .recursorStep (e i) (B i) k) s')
    (he : k = .recList → L.type .large W.base (others e))
    (hS : GlueType K .large W fun i ↦ .recursorStep (f i) (B i) k)
    (hSS : ∀ i, SameType (L.glueModel i) (.recursorStep (f i) (B i) k)
      (.recursorStep (e i) (B i) k))
    (h₀ : Runs (doRecursor k (t none) (B none) (b none) (s' none)) (.neu (B none)
      (.recursor k m (.mk (B none) (b none)) (.mk (.recursorStep (f none) (B none) k) (s' none)))))
    (hm : Names K.blurs W m (fun i ↦ .recursorTarget (e (some i)) k) (others t)) :
    K.glue.Run W B fun i ↦ doRecursor k (t i) (B i) (b i) (s' i) := by
  refine glue_run hK hB hB hB.sameSelf h₀
    (hK.recursor k hB.side (ht.side hK) (hb.side hK) (hs.side hK)) fun r hr ↦ ?_
  have hs' := (hs.conv hK hS fun i ↦ (hSS i).symm).shows hK
  exact .recursor hK.base k hm (hB.shows hK) (hb.shows hK)
    (hs'.conv hK.base.toStable (hs.type.others hK) fun i ↦ hSS (some i)) (hb.others hK)
    (fun ω hω B₁ hB₁ ↦ hK.base.recursorStepLike k (fun hk ↦ hK.base.type_mono (he hk) hω) hB₁) hr

/-- The recursors on numbers differ only in the type of the step and in what they make of a
predecessor. -/
theorem glue_natRecursor (k : Recursor) {S : Option L.Index → Value}
    {f : Option L.Index → Value → Plan Value} (hb : GlueElem K W B b)
    (hf : ∀ n, GlueElem K W (fun _ ↦ .const .nat) n →
      (K.glue.Run W B fun i ↦ doNatRecursor k (n i) (B i) (b i) (s' i) (f i) (S i)) →
      K.glue.Run W B fun i ↦ f i (n i))
    (hw : ∀ v m, GlueElem K W (fun _ ↦ .const .nat) v →
      Runs (doNatRecursor k (v none) (B none) (b none) (s' none) (f none) (S none)) (.neu (B none)
        (.recursor k m (.mk (B none) (b none)) (.mk (S none) (s' none)))) →
      Names K.blurs W m (fun _ ↦ .const .nat) (others v) →
      K.glue.Run W B fun i ↦ doNatRecursor k (v i) (B i) (b i) (s' i) (f i) (S i))
    (ht : GlueElem K W (fun _ ↦ .const .nat) t) :
    K.glue.Run W B fun i ↦ doNatRecursor k (t i) (B i) (b i) (s' i) (f i) (S i) := by
  refine ht.nat_induction hK (fun v hv ↦ ?_) (fun v n hv hn ih ↦ ?_) fun v T m hv hvm hm ↦ ?_
  · exact .bind hv ((glue_stable hK).look hb)
  · exact .bind hv (hf n hn ih)
  · exact hw v m hv (.bind hvm (.done _)) hm

theorem glue_recList (hB : GlueType K .large W B)
    (ht : GlueElem K W (fun i ↦ .unary .list (e i)) t) (hb : GlueElem K W B b)
    (hs : GlueElem K W (fun i ↦ .recListStep (e i) (B i)) s') :
    K.glue.Run W B fun i ↦ doRecList (t i) (B i) (b i) (s' i) := by
  have hG := glue_lawful hK
  refine ht.list_induction hK (fun v hv ↦ ?_) (fun v x r hv hx hr ih ↦ ?_)
    fun v T m e' hv hvm hT he' hee hm ↦ ?_
  · exact .bind hv (hG.look hb)
  · obtain ⟨g, hg, hgB⟩ := hG.apply₂ hs hx hr
    exact .bind hv (.bind hg (hG.applyArrow hgB (hG.later ih)))
  · exact glue_recursor_waiting hK .recList hB hv hb hs
      (fun _ ↦ (hG.of_list hv.type).others hK) (hG.recListStep he' hB)
      (fun i ↦ .recListStep (hee i) (hB.sameSelf i)) (.bind hvm (.bind (.listElement hT) (.done _)))
      hm

theorem glue_recursor (k : Recursor) (hB : GlueType K .large W B)
    (ht : GlueElem K W (fun i ↦ .recursorTarget (e i) k) t) (hb : GlueElem K W B b)
    (hs : GlueElem K W (fun i ↦ .recursorStep (e i) (B i) k) s') :
    K.glue.Run W B fun i ↦ doRecursor k (t i) (B i) (b i) (s' i) := by
  have hG := glue_lawful hK
  cases k with
  | whichNat =>
    refine glue_natRecursor hK .whichNat hb (fun n hn _ ↦ hG.applyArrow hs hn)
      (fun v m hv h₀ hm ↦ ?_) ht
    exact glue_recursor_waiting hK .whichNat (e := e) (f := e) hB hv hb hs nofun
      (hG.arrow hG.nat hB) (fun i ↦ .arrow .nat (hB.sameSelf i)) h₀ hm
  | iterNat =>
    refine glue_natRecursor hK .iterNat hb (fun n _ ih ↦ hG.applyArrow hs (hG.later ih))
      (fun v m hv h₀ hm ↦ ?_) ht
    exact glue_recursor_waiting hK .iterNat (e := e) (f := e) hB hv hb hs nofun
      (hG.arrow hB hB) (fun i ↦ .arrow (hB.sameSelf i) (hB.sameSelf i)) h₀ hm
  | recNat =>
    refine glue_natRecursor hK .recNat hb (fun n hn ih ↦ hG.apply₂ hs hn (hG.later ih))
      (fun v m hv h₀ hm ↦ ?_) ht
    exact glue_recursor_waiting hK .recNat (e := e) (f := e) hB hv hb hs nofun
      (hG.arrow hG.nat (hG.arrow hB hB))
      (fun i ↦ .arrow .nat (.arrow (hB.sameSelf i) (hB.sameSelf i))) h₀ hm
  | recList => exact glue_recList hK hB ht hb hs

end Recursion

/-! ## Induction -/

section Induction

variable {e l r t M b s' : Option L.Index → Value}

/-- A motive at arguments that are the same. -/
theorem GlueElem.motive_same {x : Option L.Index → String} {d a a' : Option L.Index → Value}
    (hM : GlueElem K W (fun i ↦ .arrow (x i) (d i) (.const .univ)) M)
    (ha : ∀ i, Same (L.glueModel i) (d i) (a i) (a' i)) (i : Option L.Index) :
    SameType (L.glueModel i) (apply (M i) (a i)).result (apply (M i) (a' i)).result :=
  (hM.same hK i).motiveType (ha i)

/-- What waits, with its elimination in sight. -/
theorem GlueElem.inSight {X v : Option L.Index → Value} {T : Value} {m : Neutral}
    (hv : GlueElem K W X v) (h : Looks (v none) (.neu T m)) :
    GlueElem K W X (glued (.neu T m) (Idealized.others v)) ∧
      ∀ i, Same (L.glueModel i) (X i) (glued (.neu T m) (Idealized.others v) i) (v i) := by
  have hs : ∀ i, SeenAs (glued (.neu T m) (Idealized.others v) i) (v i) :=
    Option.rec (.seen h) fun _ ↦ .refl _
  exact ⟨(glue_stable hK).elem_seen hv hs, fun i ↦ (hv.same hK i).seen (hs i)⟩

theorem glue_indNat (hM : GlueElem K W (fun _ ↦ .indNatMotive) M)
    (hb : GlueElem K W (fun i ↦ (apply (M i) (.const .zero)).result) b)
    (hs : GlueElem K W (fun i ↦ .indNatStep (M i)) s')
    (ht : GlueElem K W (fun _ ↦ .const .nat) t) :
    K.glue.Run W (fun i ↦ (apply (M i) (t i)).result)
      fun i ↦ doIndNat (t i) (M i) (b i) (s' i) := by
  have hG := glue_lawful hK
  refine ht.nat_induction hK (fun v hv ↦ ?_) (fun v n hv hn ih ↦ ?_) fun v T m hv hvm hm ↦ ?_
  · have hz : GlueElem K W (fun _ ↦ .const .nat) v := hG.elem_seen hG.zero fun i ↦ .of_looks (hv i)
    refine .bind hv (hG.convRun (hG.look hb) (hG.motiveType hM hz) (hM.motive_same hK fun i ↦ ?_))
    exact (SameNat.zero (.of_inSight .intro) (hv i)).same
  · have hn' := hG.add1 hn
    have hv' := hG.elem_seen hn' fun i ↦ .of_looks (hv i)
    obtain ⟨Y, Z, hY, hZ, hYZ, -⟩ := hG.natStep hM hn
    obtain ⟨g, hg, hgT⟩ := hG.apply hs hn hYZ
    rw [show (fun i ↦ (apply (M i) (n i)).result) = Y from funext fun i ↦ (hY i).result_eq] at ih
    have hih := hG.later (q := fun i ↦ .induct .indNat (n i) (M i) (b i) (s' i)) ih
    have hr := hG.convRun (hG.applyArrow hgT hih) (hG.motiveType hM hv') fun i ↦ ?_
    · exact .bind hv (.bind hg hr)
    · rw [← (hZ i).result_eq]
      exact hM.motive_same hK (fun i ↦ (hn'.same hK i).seenRight (.of_looks (hv i))) i
  · obtain ⟨hv', hvv⟩ := hv.inSight hK hvm
    refine glue_run hK (hG.motiveType hM hv) (hG.type_large (hG.motiveType hM hv'))
      (hM.motive_same hK hvv)
      (.bind hvm (.bind ((hG.applyArrow hM hv').runs none)
        (.bind ((hG.applyArrow hM hG.zero).runs none) (.done _))))
      (hK.indNat (hM.side hK) (hb.side hK) (hs.side hK) (hv.side hK)) fun r hr ↦ ?_
    exact .induct hK.base .indNat hm (hM.shows hK) (hb.shows hK) (hs.shows hK)
      fun ω hω _ _ _ _ ht₁ hM₁ hb₁ hs₁ ↦ hK.base.indNatLike (hK.base.elem_mono (hM.others hK) hω)
        (hK.base.elem_mono (hv.others hK) hω) ht₁ hM₁ hb₁ hs₁ hr

theorem glue_indList (hM : GlueElem K W (fun i ↦ .indListMotive (e i)) M)
    (hb : GlueElem K W (fun i ↦ (apply (M i) (.const .nil)).result) b)
    (hs : GlueElem K W (fun i ↦ .indListStep (e i) (M i)) s')
    (ht : GlueElem K W (fun i ↦ .unary .list (e i)) t) :
    K.glue.Run W (fun i ↦ (apply (M i) (t i)).result)
      fun i ↦ doIndList (t i) (M i) (b i) (s' i) := by
  have hG := glue_lawful hK
  have he := hG.of_list ht.type
  have hnil := hG.nil he
  refine ht.list_induction hK (fun v hv ↦ ?_) (fun v x r hv hx hr ih ↦ ?_)
    fun v T m e' hv hvm hT he' hee hm ↦ ?_
  · have hv' := hG.elem_seen hnil fun i ↦ .of_looks (hv i)
    exact .bind hv (hG.convRun (hG.look hb) (hG.motiveType hM hv') (hM.motive_same hK fun i ↦
      (hnil.same hK i).seenRight (.of_looks (hv i))))
  · have hc := hG.listCons hx hr
    have hv' := hG.elem_seen hc fun i ↦ .of_looks (hv i)
    obtain ⟨Y, Z, hY, hZ, hYZ, -⟩ := hG.listStepTail hM hx hr
    obtain ⟨f, hf, hfT⟩ := hG.apply hs hx fun _ ↦ .done _
    obtain ⟨g, hg, hgT⟩ := hG.apply hfT hr hYZ
    rw [show (fun i ↦ (apply (M i) (r i)).result) = Y from funext fun i ↦ (hY i).result_eq] at ih
    have hih := hG.later (q := fun i ↦ .induct .indList (r i) (M i) (b i) (s' i)) ih
    have hst := hG.convRun (hG.applyArrow hgT hih) (hG.motiveType hM hv') fun i ↦ ?_
    · exact .bind hv (.bind (fun i ↦ .bind (hf i) (hg i)) hst)
    · rw [← (hZ i).result_eq]
      exact hM.motive_same hK (fun i ↦ (hc.same hK i).seenRight (.of_looks (hv i))) i
  · obtain ⟨hv', hvv⟩ := hv.inSight hK hvm
    have hM' := hM.conv hK (hG.indListMotive he') fun i ↦ .indListMotive (hee i).symm
    have hs' := hs.conv hK (hG.indListStep he' hM') fun i ↦
      .indListStep (hee i).symm (hM.same hK i)
    refine glue_run hK (hG.motiveType hM hv) (hG.type_large (hG.motiveType hM hv'))
      (hM.motive_same hK hvv)
      (.bind hvm (.bind (.listElement hT) (.bind ((hG.applyArrow hM hv').runs none)
        (.bind ((hG.applyArrow hM hnil).runs none) (.done _)))))
      (hK.indList (hM.side hK) (hb.side hK) (hs.side hK) (hv.side hK)) fun r hr ↦ ?_
    have hsM := ((hM'.shows hK).conv hK.base.toStable (hM.type.others hK) fun i ↦
      .indListMotive (hee (some i)))
    have hsS := (hs'.shows hK).conv hK.base.toStable (hs.type.others hK) fun i ↦
      .indListStep (hee (some i)) (hM'.same hK (some i))
    exact .induct hK.base .indList hm hsM (hb.shows hK) hsS
      fun ω hω _ _ _ _ ht₁ hM₁ hb₁ hs₁ ↦ hK.base.indListLike (hK.base.elem_mono (hM.others hK) hω)
        (hK.base.elem_mono (hv.others hK) hω) ht₁ hM₁ hb₁ hs₁ hr

/-- An element of a sum is on one side of it everywhere, or it waits. -/
theorem GlueElem.either_cases {v : Option L.Index → Value}
    (h : GlueElem K W (fun i ↦ .binary .either (l i) (r i)) v) :
    (∃ x, (∀ i, Looks (v i) (.unary .left (x i))) ∧ GlueElem K W l x) ∨
    (∃ x, (∀ i, Looks (v i) (.unary .right (x i))) ∧ GlueElem K W r x) ∨
    ∃ T m l' r', Looks (v none) (.neu T m) ∧ Looks T (.binary .either (l' none) (r' none)) ∧
      GlueType K .large W l' ∧ GlueType K .large W r' ∧
      (∀ i, SameType (L.glueModel i) (l' i) (l i)) ∧
      (∀ i, SameType (L.glueModel i) (r' i) (r i)) ∧
      Names K.blurs W m (fun i ↦ .binary .either (l (some i)) (r (some i)))
        (Idealized.others v) := by
  obtain ⟨A, B, hA, hB, ha, hb⟩ := GlueType.eitherBond h.type
  obtain ⟨-, hg⟩ := (either_iff hK hA hB ha hb).1 h
  rcases hg with ⟨x, hv, hx⟩ | ⟨x, hv, hx⟩ | hv
  · exact .inl ⟨x, hv, A, hA, ha, hx⟩
  · exact .inr (.inl ⟨x, hv, B, hB, hb, hx⟩)
  · obtain ⟨T, m, hv, hT, hm⟩ := hv
    obtain ⟨a', b', hTe, ha', hb'⟩ := hT.code
    exact .inr (.inr ⟨_, m, a', b', hv, hTe none, ⟨ha'.side, A, hA, ha'⟩,
      ⟨hb'.side, B, hB, hb'⟩, fun i ↦ (ha'.same i).symm.trans (ha.same i),
      fun i ↦ (hb'.same i).symm.trans (hb.same i), hm⟩)

theorem glue_indEither (hM : GlueElem K W (fun i ↦ .indEitherMotive (l i) (r i)) M)
    (hb : GlueElem K W (fun i ↦ .indEitherCase .left (l i) (M i)) b)
    (hs : GlueElem K W (fun i ↦ .indEitherCase .right (r i) (M i)) s')
    (ht : GlueElem K W (fun i ↦ .binary .either (l i) (r i)) t) :
    K.glue.Run W (fun i ↦ (apply (M i) (t i)).result)
      fun i ↦ doIndEither (t i) (M i) (b i) (s' i) := by
  have hG := glue_lawful hK
  have hX := ht.type
  obtain ⟨hl, hr⟩ := hG.of_either hX
  have hR := hG.motiveType hM ht
  rcases ht.either_cases hK with ⟨x, hv, hx⟩ | ⟨x, hv, hx⟩ |
    ⟨T, m, l', r', hv, hT, hl', hr', hll, hrr, hm⟩
  · have hx' := hG.left hr hx
    refine .bind hv (hG.convRun (hG.apply hb hx (hG.applyArrow hM hx').runs) hR ?_)
    exact hM.motive_same hK fun i ↦ (hx'.same hK i).seenRight (.of_looks (hv i))
  · have hx' := hG.right hl hx
    refine .bind hv (hG.convRun (hG.apply hs hx (hG.applyArrow hM hx').runs) hR ?_)
    exact hM.motive_same hK fun i ↦ (hx'.same hK i).seenRight (.of_looks (hv i))
  · obtain ⟨ht', htt⟩ := ht.inSight hK hv
    have hMM : ∀ i, SameType (L.glueModel i) (.indEitherMotive (l' i) (r' i))
        (.indEitherMotive (l i) (r i)) := fun i ↦ .arrow (.either (hll i) (hrr i)) SameType.univ
    have hM' := hM.conv hK (hG.indEitherMotive hl' hr') fun i ↦ (hMM i).symm
    have hbb : ∀ i, SameType (L.glueModel i) (.indEitherCase .left (l' i) (M i))
        (.indEitherCase .left (l i) (M i)) := fun i ↦ .indEitherCase (hll i) (hM.same hK i)
      fun _ _ ha ↦ (ha.conv (hll i)).left_congr (hX.sameSelf i)
    have hss : ∀ i, SameType (L.glueModel i) (.indEitherCase .right (r' i) (M i))
        (.indEitherCase .right (r i) (M i)) := fun i ↦ .indEitherCase (hrr i) (hM.same hK i)
      fun _ _ ha ↦ (ha.conv (hrr i)).right_congr (hX.sameSelf i)
    have hb' := hb.conv hK (hG.indEitherLeft hl' hr' hM') fun i ↦ (hbb i).symm
    have hs' := hs.conv hK (hG.indEitherRight hl' hr' hM') fun i ↦ (hss i).symm
    refine glue_run hK hR (hG.type_large (hG.motiveType hM ht')) (hM.motive_same hK htt)
      (.bind hv (.bind hT (.bind ((hG.applyArrow hM ht').runs none) (.done _))))
      (hK.indEither (hM.side hK) (hb.side hK) (hs.side hK) (ht.side hK)) fun r hr ↦ ?_
    exact .induct hK.base .indEither hm
      ((hM'.shows hK).conv hK.base.toStable (hM.type.others hK) fun i ↦ hMM (some i))
      ((hb'.shows hK).conv hK.base.toStable (hb.type.others hK) fun i ↦ hbb (some i))
      ((hs'.shows hK).conv hK.base.toStable (hs.type.others hK) fun i ↦ hss (some i))
      fun ω hω _ _ _ _ ht₁ hM₁ hb₁ hs₁ ↦ hK.base.indEitherLike (hK.base.elem_mono (hM.others hK) hω)
        (hK.base.elem_mono (ht.others hK) hω) ht₁ hM₁ hb₁ hs₁ hr

end Induction

/-! ## Vectors -/

section Vectors

variable {e l k t M b s' : Option L.Index → Value}

/-- What holds of constructed vectors, and of vectors that wait, holds of all. -/
@[elab_as_elim]
theorem GlueElem.vec_induction {P : (Option L.Index → Value) → (Option L.Index → Value) → Prop}
    (h : GlueElem K W (fun i ↦ .binary .vec (e i) (l i)) t)
    (nil : ∀ l v, (∀ i, Looks (l i) (.const .zero)) → (∀ i, Looks (v i) (.const .vecnil)) → P l v)
    (cons : ∀ l k v x r, (∀ i, Looks (l i) (.unary .add1 (k i))) →
      (∀ i, Looks (v i) (.binary .vecCons (x i) (r i))) → GlueElem K W (fun _ ↦ .const .nat) k →
      GlueElem K W e x → GlueElem K W (fun i ↦ .binary .vec (e i) (k i)) r → P k r → P l v)
    (waiting : ∀ l v T m e' l', GlueElem K W (fun _ ↦ .const .nat) l →
      GlueElem K W (fun i ↦ .binary .vec (e i) (l i)) v → Looks (v none) (.neu T m) →
      Looks T (.binary .vec (e' none) (l' none)) → GlueType K .large W e' →
      GlueElem K W (fun _ ↦ .const .nat) l' → (∀ i, SameType (L.glueModel i) (e' i) (e i)) →
      (∀ i, SameNat (L.glueModel i) (l' i) (l i)) →
      Names K.blurs W m (fun i ↦ .binary .vec (e (some i)) (l (some i))) (Idealized.others v) →
        P l v) :
    P l t := by
  have hG := glue_lawful hK
  obtain ⟨E, hE, he, -⟩ := GlueType.vecBond h.type
  have hl := (hG.of_vec h.type).2
  obtain ⟨-, hg⟩ := (vec_iff hK hE he hl).1 h
  induction hg with
  | nil hz hv => exact nil _ _ hz hv
  | @cons l k v x r hlk hv hx hr ih =>
    have hk := hG.pred (hG.elem_seen hl fun i ↦ .seen (hlk i))
    have hvs := hK.conv (h.side hK) (hK.vec he.side (hK.add1 (hk.side hK))) fun i ↦
      TypeAt.vec (he.sameSelf i) ((hl.same hK i).seenRight (.seen (hlk i))).sameNat
    have hrs := hK.vecRest (hK.elem_seen hvs fun i ↦ .seen (hv i))
    have hr := (vec_iff hK hE he hk).2 ⟨hrs, hr⟩
    exact cons l k v x r hlk hv hk ⟨E, hE, he, hx⟩ hr (ih hr hk)
  | @waiting l v hv =>
    obtain ⟨T, m, hv, hT, hm⟩ := hv
    obtain ⟨e', l', hTe, he', hl'⟩ := hT.code
    have hll := fun i ↦ ((hT.same i).vec_inj (.of_inSight .intro) (hTe i)).2.symm
    have hl' := (nat_iff hK).2 ⟨(hK.of_vec (hK.type_looks hT.side hTe)).2, hl'⟩
    exact waiting l v _ m e' l' hl h hv (hTe none) ⟨he'.side, E, hE, he'⟩ hl'
      (fun i ↦ (he'.same i).symm.trans (he.same i)) hll hm

/-- A vector that is not empty has a head and a tail everywhere, or it waits. -/
theorem GlueElem.vec_cases
    (h : GlueElem K W (fun i ↦ .binary .vec (e i) (.unary .add1 (k i))) t) :
    (∃ x r, (∀ i, Looks (t i) (.binary .vecCons (x i) (r i))) ∧ GlueElem K W e x ∧
      GlueElem K W (fun i ↦ .binary .vec (e i) (k i)) r) ∨
    ∃ T m l' e' k', Looks (t none) (.neu T m) ∧ Looks T (.binary .vec (e' none) l') ∧
      Looks l' (.unary .add1 (k' none)) ∧ GlueType K .large W e' ∧
      GlueElem K W (fun _ ↦ .const .nat) k' ∧ (∀ i, SameType (L.glueModel i) (e' i) (e i)) ∧
      (∀ i, SameNat (L.glueModel i) (k' i) (k i)) ∧
      Names K.blurs W m (fun i ↦ .binary .vec (e (some i)) (.unary .add1 (k (some i))))
        (Idealized.others t) := by
  have hG := glue_lawful hK
  generalize hl : (fun i ↦ Value.unary .add1 (k i)) = l
  have h' : GlueElem K W (fun i ↦ .binary .vec (e i) (l i)) t := by
    rw [← hl]
    exact h
  clear h
  revert hl
  refine h'.vec_induction hK ?_ ?_ ?_
  · rintro l v hz hv rfl
    cases (hz none).unique (.of_inSight .intro)
  · rintro l k' v x r hk hv - hx hr - rfl
    obtain rfl : k' = k := funext fun i ↦ (Value.unary.inj ((hk i).unique (.of_inSight .intro))).2
    exact .inl ⟨x, r, hv, hx, hr⟩
  · rintro l v T m e' l' - - hv hT he' hl' hee hll hm rfl
    choose k' hk' hkk using fun i ↦ (hll i).symm.of_add1 (.of_inSight .intro)
    have hk := hG.pred (hG.elem_seen hl' fun i ↦ .seen (hk' i))
    exact .inr ⟨T, m, l' none, e', k', hv, hT, hk' none, he', hk, hee, fun i ↦ (hkk i).symm, hm⟩

theorem glue_head (ht : GlueElem K W (fun i ↦ .binary .vec (e i) (.unary .add1 (k i))) t) :
    K.glue.Run W e fun i ↦ doHead (t i) := by
  have hG := glue_lawful hK
  rcases ht.vec_cases hK with ⟨x, r, hv, hx, -⟩ | ⟨T, m, l', e', k', hv, hT, -, he', -, hee, -, hm⟩
  · exact .bind hv (hG.look hx)
  · refine glue_run hK (hG.of_vec ht.type).1 he' hee
      (.bind hv (.bind (.vecParts hT) (.done _))) (hK.head (ht.side hK)) fun r hr ↦ ?_
    exact .project .head hm fun ω hω q hq ↦ hK.base.headLike (hK.base.elem_mono (ht.others hK) hω) hq hr

theorem glue_tail (ht : GlueElem K W (fun i ↦ .binary .vec (e i) (.unary .add1 (k i))) t) :
    K.glue.Run W (fun i ↦ .binary .vec (e i) (k i)) fun i ↦ doTail (t i) := by
  have hG := glue_lawful hK
  rcases ht.vec_cases hK with
    ⟨x, r, hv, -, hr⟩ | ⟨T, m, l', e', k', hv, hT, hl', he', hk', hee, hkk, hm⟩
  · exact .bind hv (hG.look hr)
  · obtain ⟨he, hl⟩ := hG.of_vec ht.type
    refine glue_run hK (hG.vec he (hG.pred hl)) (hG.vec he' hk')
      (fun i ↦ TypeAt.vec (hee i) (hkk i)) (.bind hv (.bind (.vecParts hT) (.bind hl' (.done _))))
      (hK.tail (ht.side hK)) fun r hr ↦ ?_
    exact .project .tail hm fun ω hω q hq ↦ hK.base.tailLike (hK.base.elem_mono (ht.others hK) hω) hq hr

/-- A motive over vectors at arguments that are the same. -/
theorem GlueElem.vecMotive_same {l' t' : Option L.Index → Value}
    (hM : GlueElem K W (fun i ↦ .indVecMotive (e i)) M)
    (hl : ∀ i, SameNat (L.glueModel i) (l i) (l' i))
    (ht : ∀ i, Same (L.glueModel i) (.binary .vec (e i) (l i)) (t i) (t' i)) (i : Option L.Index) :
    SameType (L.glueModel i) (apply₂ (M i) (l i) (t i)).result (apply₂ (M i) (l' i) (t' i)).result :=
  (hM.same hK i).vecMotiveType (hl i) (ht i)

/-- Induction on a vector that waits, whether its length waits or not. -/
theorem glue_indVec_waiting {T l' : Value} {m : Neutral} {e' v : Option L.Index → Value}
    (hM : GlueElem K W (fun i ↦ .indVecMotive (e i)) M)
    (hb : GlueElem K W (fun i ↦ (apply₂ (M i) (.const .zero) (.const .vecnil)).result) b)
    (hs : GlueElem K W (fun i ↦ .indVecStep (e i) (M i)) s')
    (hl : GlueElem K W (fun _ ↦ .const .nat) l)
    (hv : GlueElem K W (fun i ↦ .binary .vec (e i) (l i)) v) (hvm : Looks (v none) (.neu T m))
    (hT : Looks T (.binary .vec (e' none) l')) (he' : GlueType K .large W e')
    (hee : ∀ i, SameType (L.glueModel i) (e' i) (e i))
    (hm : Names K.blurs W m (fun i ↦ .binary .vec (e (some i)) (l (some i))) (others v)) :
    K.glue.Run W (fun i ↦ (apply₂ (M i) (l i) (v i)).result)
      fun i ↦ doIndVec (l i) (v i) (M i) (b i) (s' i) := by
  have hG := glue_lawful hK
  have he := (hG.of_vec hv.type).1
  -- the length and the vector with what is seen of them on the new side
  obtain ⟨l₀, hl₀⟩ := (hl.same hK none).looks
  have hseen : ∀ i, SeenAs (glued l₀ (others l) i) (l i) := Option.rec (.seen hl₀) fun _ ↦ .refl _
  have hl₁ := hG.elem_seen hl hseen
  have hll : ∀ i, SameNat (L.glueModel i) (glued l₀ (others l) i) (l i) := fun i ↦
    ((hl.same hK i).seen (hseen i)).sameNat
  have hX : ∀ i, SameType (L.glueModel i) (.binary .vec (e i) (l i))
      (.binary .vec (e i) (glued l₀ (others l) i)) := fun i ↦ .vec (he.sameSelf i) (hll i).symm
  obtain ⟨hv₁, hvv⟩ := hv.inSight hK hvm
  have hv₂ := hv₁.conv hK (hG.vec he hl₁) hX
  have hM' := hM.conv hK (hG.indVecMotive he') fun i ↦ .indVecMotive (hee i).symm
  have hs' := hs.conv hK (hG.indVecStep he' hM') fun i ↦ .indVecStep (hee i).symm (hM.same hK i)
  have hsM := (hM'.shows hK).conv hK.base.toStable (hM.type.others hK) fun i ↦
    .indVecMotive (hee (some i))
  have hsS := (hs'.shows hK).conv hK.base.toStable (hs.type.others hK) fun i ↦
    .indVecStep (hee (some i)) (hM'.same hK (some i))
  -- whatever elimination waits, it remains to see what it denotes
  have hrun : ∀ n, waitingVec l₀ (apply₂ (M none) l₀ (.neu T m)).result m
      (.mk (.indVecMotive (e' none)) (M none))
      (.mk (apply₂ (M none) (.const .zero) (.const .vecnil)).result (b none))
      (.mk (.indVecStep (e' none) (M none)) (s' none)) =
        .neu (apply₂ (M none) l₀ (.neu T m)).result n →
      (∀ r, (∀ i, Runs (doIndVec (l (some i)) (v (some i)) (M (some i)) (b (some i))
        (s' (some i))) (r i)) →
        Names K.blurs W n (fun i ↦ (apply₂ (M (some i)) (l (some i)) (v (some i))).result) r) →
      K.glue.Run W (fun i ↦ (apply₂ (M i) (l i) (v i)).result)
        fun i ↦ doIndVec (l i) (v i) (M i) (b i) (s' i) := by
    intro n hn hr
    obtain ⟨Z, hZ, -⟩ := hG.vecMotive hM hG.zero (hG.vecnil he)
    obtain ⟨R, hR, -⟩ := hG.vecMotive hM hl₁ hv₂
    refine glue_run hK (hG.vecMotiveType hM hl hv)
      (hG.type_large (hG.vecMotiveType hM hl₁ hv₂))
      (hM.vecMotive_same hK hll fun i ↦ (hvv i).conv (hX i))
      (.bind hl₀ (.bind hvm (.bind (.vecParts hT) (.bind (hZ none) (.bind (hR none) ?_)))))
      (hK.indVec (hM.side hK) (hb.side hK) (hs.side hK) (hv.side hK)) hr
    have hR₀ : (apply₂ (M none) l₀ (.neu T m)).result = R none := (hR none).result_eq
    rw [(hZ none).result_eq, hR₀] at hn
    change Runs (.done _) (Value.neu (apply₂ (M none) l₀ (.neu T m)).result n)
    rw [hR₀, ← hn]
    exact .done _
  have hlike := fun (r : L.Index → Value)
      (hr : ∀ i, Runs (doIndVec (l (some i)) (v (some i)) (M (some i)) (b (some i)) (s' (some i)))
        (r i)) ω (hω : L.le W.base ω) l₁ t₁ M₁ b₁ s₁ (hl₁ : L.Like ω _ _ l₁) (ht₁ : L.Like ω _ _ t₁)
      (hM₁ : L.Like ω _ _ M₁) (hb₁ : L.Like ω _ _ b₁) (hs₁ : L.Like ω _ _ s₁) ↦
    hK.base.indVecLike (hK.base.elem_mono (hM.others hK) hω) (hK.base.elem_mono (hv.others hK) hω)
      hl₁ ht₁ hM₁ hb₁ hs₁ hr
  obtain ⟨-, hg⟩ := (GlueElem.nat_iff hK).1 hl
  cases hg with
  | zero hz =>
    cases hl₀.unique (hz none)
    exact hrun _ rfl fun r hr ↦
      .indVec hK.base hm hsM (hb.shows hK) hsS (hlike r hr) (hl₁.shows hK)
  | add1 hk hn =>
    cases hl₀.unique (hk none)
    exact hrun _ rfl fun r hr ↦
      .indVec hK.base hm hsM (hb.shows hK) hsS (hlike r hr) (hl₁.shows hK)
  | waiting hn =>
    obtain ⟨U, n, hn, -, hnm⟩ := hn
    cases hl₀.unique hn
    exact hrun _ rfl fun r hr ↦
      .indVecBoth hK.base hm hsM (hb.shows hK) hsS (hlike r hr) hnm

theorem glue_indVec (hM : GlueElem K W (fun i ↦ .indVecMotive (e i)) M)
    (hb : GlueElem K W (fun i ↦ (apply₂ (M i) (.const .zero) (.const .vecnil)).result) b)
    (hs : GlueElem K W (fun i ↦ .indVecStep (e i) (M i)) s')
    (ht : GlueElem K W (fun i ↦ .binary .vec (e i) (l i)) t) :
    K.glue.Run W (fun i ↦ (apply₂ (M i) (l i) (t i)).result)
      fun i ↦ doIndVec (l i) (t i) (M i) (b i) (s' i) := by
  have hG := glue_lawful hK
  have he := (hG.of_vec ht.type).1
  have hnil := hG.vecnil he
  refine ht.vec_induction hK (fun l v hz hv ↦ ?_) (fun l k v x r hlk hv hk hx hr ih ↦ ?_)
    fun l v T m e' l' hl hv hvm hT he' _ hee _ hm ↦ ?_
  · have hl : GlueElem K W (fun _ ↦ .const .nat) l := hG.elem_seen hG.zero fun i ↦ .of_looks (hz i)
    have hzl : ∀ i, SameNat (L.glueModel i) (.const .zero) (l i) := fun i ↦
      .zero (.of_inSight .intro) (hz i)
    have hv' := (hG.elem_seen hnil fun i ↦ .of_looks (hv i)).conv hK (hG.vec he hl) fun i ↦
      .vec (he.sameSelf i) (hzl i)
    refine .bind hz (.bind hv (hG.convRun (hG.look hb) (hG.vecMotiveType hM hl hv') ?_))
    exact hM.vecMotive_same hK hzl fun i ↦ (hnil.same hK i).seenRight (.of_looks (hv i))
  · have hkl := hG.add1 hk
    have hl := hG.elem_seen hkl fun i ↦ .of_looks (hlk i)
    have hll : ∀ i, SameNat (L.glueModel i) (.unary .add1 (k i)) (l i) := fun i ↦
      ((hkl.same hK i).seenRight (.of_looks (hlk i))).sameNat
    have hc := hG.vecCons hk hx hr
    have hv' := (hG.elem_seen hc fun i ↦ .of_looks (hv i)).conv hK (hG.vec he hl) fun i ↦
      .vec (he.sameSelf i) (hll i)
    obtain ⟨Y, Z, hY, hZ, hYZ, -⟩ := hG.vecStepTail hM hk hx hr
    obtain ⟨f, hf, hfT⟩ := hG.apply hs hk fun _ ↦ .done _
    obtain ⟨g, hg, hgT⟩ := hG.apply hfT hx fun _ ↦ .done _
    obtain ⟨h, hh, hhT⟩ := hG.apply hgT hr hYZ
    rw [show (fun i ↦ (apply₂ (M i) (k i) (r i)).result) = Y from
      funext fun i ↦ (hY i).result_eq] at ih
    have hih := hG.later (q := fun i ↦ .indVec (k i) (r i) (M i) (b i) (s' i)) ih
    have hst := hG.convRun (hG.applyArrow hhT hih) (hG.vecMotiveType hM hl hv') fun i ↦ ?_
    · exact .bind hlk (.bind hv (.bind (fun i ↦ .bind (hf i) (hg i)) (.bind hh hst)))
    · rw [← (hZ i).result_eq]
      exact hM.vecMotive_same hK hll (fun i ↦ (hc.same hK i).seenRight (.of_looks (hv i))) i
  · exact glue_indVec_waiting hK hM hb hs hl hv hvm hT he' hee hm

theorem glue_recurs : K.glue.Recurs where
  recursor k hB ht hb hs := glue_recursor hK k hB ht hb hs
  indNat hM hb hs ht := glue_indNat hK hM hb hs ht
  indList hM hb hs ht := glue_indList hK hM hb hs ht
  indEither hM hb hs ht := glue_indEither hK hM hb hs ht
  head ht := glue_head hK ht
  tail ht := glue_tail hK ht
  indVec hM hb hs ht := glue_indVec hK hM hb hs ht

end Vectors

end LittleTypes.Idealized
