import LittleTypes.Proofs.Glue.Bond

/-!
# What belongs together stays together

In later worlds, and whatever else is seen as the same.
-/

namespace LittleTypes.Idealized

variable {L : Logic} {K : Ground L} {W W' : GlueWorld L} {X Y v w : Option L.Index → Value}

/-- What is required of a bond. -/
structure Bond.Stable (S : Bond K) : Prop where
  codeMono : ∀ {W W' X}, W.le W' → S.code W X → S.code W' X
  sameMono : ∀ {W W' v}, W.le W' → S.same W v → S.same W' v
  codeSeen : ∀ {W X Y}, S.code W X → (∀ i, SeenAs (Y i) (X i)) → S.code W Y
  sameSeen : ∀ {W v w}, S.same W v → (∃ u, Looks (v none) u) → (∀ i, SeenAs (w i) (v i)) →
    S.same W w

theorem OwnType.seen (h : OwnType X v) (hl : ∃ u, Looks (v none) u) (hs : SeenAs (w none) (v none)) :
    OwnType X w := by
  intro T m hw
  obtain ⟨u, hu⟩ := hl
  exact h T m ((hs u hu).unique hw ▸ hu)

theorem Pending.seen (h : Pending K W X v) (hv : ∀ i, SeenAs (w i) (v i)) : Pending K W X w := by
  obtain ⟨T, m, hv', hT, hm⟩ := h
  exact ⟨T, m, hv none _ hv', hT, hm.seen fun i ↦ hv (some i)⟩

theorem Pending.mono (hK : K.Good) (h : Pending K W X v) (hW : W.le W') : Pending K W' X v := by
  obtain ⟨T, m, hv, hT, hm⟩ := h
  exact ⟨T, m, hv, hT, hm.mono hK.base.toStable hW⟩

theorem Pending.ownType (h : Pending K W X v) : OwnType X v := by
  obtain ⟨T, m, hv, hT, -⟩ := h
  intro T' m' hv'
  cases hv.unique hv'
  exact hT

namespace Bond

variable {S : Bond K} (hK : K.Good)

include hK

theorem Type.mono (h : S.Type W X) (hS : S.Stable) (hW : W.le W') : S.Type W' X :=
  ⟨h.same, hK.type_mono h.base hW, hK.type_mono h.side hW, hS.codeMono hW h.code⟩

theorem Type.seen (h : S.Type W X) (hS : S.Stable) (hX : ∀ i, SeenAs (Y i) (X i)) : S.Type W Y :=
  ⟨fun i ↦ ((h.same i).symm.seen (hX i)).symm, h.base, hK.type_seen h.side hX,
    hS.codeSeen h.code hX⟩

theorem Elem.mono (h : S.Elem W v) (hS : S.Stable) (hW : W.le W') : S.Elem W' v :=
  ⟨hK.elem_mono h.side hW, hS.sameMono hW h.same⟩

/-- Elements that belong together are elements of the model on every side. -/
theorem Elem.sameAt (h : S.Elem W v) (i : Option L.Index) :
    Same (L.glueModel i) (S.types i) (v i) (v i) := hK.same h.side i

theorem Elem.seen (h : S.Elem W v) (hS : S.Stable) (hv : ∀ i, SeenAs (w i) (v i)) : S.Elem W w :=
  ⟨hK.elem_seen h.side hv, hS.sameSeen h.same (h.sameAt hK none).looks hv⟩

theorem Waits.mono (h : Waits K S W v) (hc : ∀ {T}, S.code W T → S.code W' T) (hW : W.le W') :
    Waits K S W' v := by
  obtain ⟨T, m, hv, hT, hm⟩ := h
  exact ⟨T, m, hv, ⟨hT.same, hK.type_mono hT.base hW, hK.type_mono hT.side hW, hc hT.code⟩,
    hm.mono hK.base.toStable hW⟩

omit hK in
theorem Waits.seen (h : Waits K S W v) (hv : ∀ i, SeenAs (w i) (v i)) : Waits K S W w := by
  obtain ⟨T, m, hv', hT, hm⟩ := h
  exact ⟨T, m, hv none _ hv', hT, hm.seen fun i ↦ hv (some i)⟩

end Bond

/-! ## Numbers, lists and vectors -/

section Data

variable {E : Bond K} {Z e l : Option L.Index → Value}

theorem GlueNat.seen (h : GlueNat K W v) (hv : ∀ i, SeenAs (w i) (v i)) : GlueNat K W w := by
  cases h with
  | zero h => exact .zero fun i ↦ hv i _ (h i)
  | add1 h hn => exact .add1 (fun i ↦ hv i _ (h i)) hn
  | waiting h => exact .waiting (h.seen hv)

theorem GlueList.seen (h : GlueList E Z W v) (hv : ∀ i, SeenAs (w i) (v i)) :
    GlueList E Z W w := by
  cases h with
  | nil h => exact .nil fun i ↦ hv i _ (h i)
  | cons h hh ht => exact .cons (fun i ↦ hv i _ (h i)) hh ht
  | waiting h => exact .waiting (h.seen hv)

theorem GlueVec.seen (h : GlueVec E e W l v) (hv : ∀ i, SeenAs (w i) (v i)) :
    GlueVec E e W l w := by
  cases h with
  | nil hl h => exact .nil hl fun i ↦ hv i _ (h i)
  | cons hl h hh ht => exact .cons hl (fun i ↦ hv i _ (h i)) hh ht
  | waiting h => exact .waiting (h.seen hv)

variable (hK : K.Good)

include hK

theorem GlueNat.mono (h : GlueNat K W v) (hW : W.le W') : GlueNat K W' v := by
  induction h with
  | zero hv => exact .zero hv
  | add1 hv _ ih => exact .add1 hv ih
  | waiting h => exact .waiting (h.mono hK hW)

theorem glueListCode.mono (hE : E.Stable) (h : glueListCode E W X) (hW : W.le W') :
    glueListCode E W' X := by
  obtain ⟨e, hX, he⟩ := h
  exact ⟨e, hX, he.mono hK hE hW⟩

theorem GlueList.mono (hE : E.Stable) (h : GlueList E Z W v) (hW : W.le W') :
    GlueList E Z W' v := by
  induction h with
  | nil hv => exact .nil hv
  | cons hv hh _ ih => exact .cons hv (hh.mono hK hE hW) ih
  | waiting h => exact .waiting (h.mono hK (fun hc ↦ glueListCode.mono hK hE hc hW) hW)

theorem glueVecCode.mono (hE : E.Stable) (h : glueVecCode E W X) (hW : W.le W') :
    glueVecCode E W' X := by
  obtain ⟨e, l, hX, he, hl⟩ := h
  exact ⟨e, l, hX, he.mono hK hE hW, hl.mono hK hW⟩

theorem GlueVec.mono (hE : E.Stable) (h : GlueVec E e W l v) (hW : W.le W') :
    GlueVec E e W' l v := by
  induction h with
  | nil hl hv => exact .nil hl hv
  | cons hl hv hh _ ih => exact .cons hl hv (hh.mono hK hE hW) ih
  | waiting h => exact .waiting (h.mono hK (fun hc ↦ glueVecCode.mono hK hE hc hW) hW)

end Data

/-! ## All formers -/

namespace Bond

/-- A type without parts is stable if its elements are. -/
theorem stable_plain {k : Const} {same : GlueWorld L → (Option L.Index → Value) → Prop}
    (hm : ∀ {W W' v}, W.le W' → same W v → same W' v)
    (hs : ∀ {W v w}, same W v → (∃ u, Looks (v none) u) → (∀ i, SeenAs (w i) (v i)) → same W w) :
    (plain k same : Bond K).Stable where
  codeMono _ h := h
  sameMono := hm
  codeSeen h hX := fun i ↦ hX i _ (h i)
  sameSeen := hs

variable (hK : K.Good)

include hK

theorem stable_atom : (atom : Bond K).Stable := by
  refine stable_plain ?_ ?_
  · rintro W W' v hW (h | h)
    · exact .inl h
    · exact .inr (h.mono hK hW)
  · rintro W v w (⟨s, h⟩ | h) - hv
    · exact .inl ⟨s, fun i ↦ hv i _ (h i)⟩
    · exact .inr (h.seen hv)

theorem stable_absurd : (absurd : Bond K).Stable :=
  stable_plain (fun hW h ↦ h.mono hK hW) fun h _ hv ↦ h.seen hv

theorem stable_unknown (X : Option L.Index → Value) : (unknown X : Bond K).Stable where
  codeMono hW h := Pending.mono (X := fun _ ↦ .const .univ) hK h hW
  sameMono hW h := h.mono hK hW
  codeSeen h hY := Pending.seen (X := fun _ ↦ .const .univ) h hY
  sameSeen h _ hv := h.seen hv

theorem stable_list {E : Bond K} (hE : E.Stable) (X : Option L.Index → Value) :
    (list E X).Stable where
  codeMono hW h := h.mono hK hE hW
  sameMono hW h := h.mono hK hE hW
  codeSeen := by
    rintro W X Y ⟨e, hX, he⟩ hY
    exact ⟨e, fun i ↦ hY i _ (hX i), he⟩
  sameSeen h _ := h.seen

theorem stable_vec {E : Bond K} (hE : E.Stable) (e l : Option L.Index → Value) :
    (vec E e l).Stable where
  codeMono hW h := h.mono hK hE hW
  sameMono hW h := h.mono hK hE hW
  codeSeen := by
    rintro W X Y ⟨e, l, hX, h⟩ hY
    exact ⟨e, l, fun i ↦ hY i _ (hX i), h⟩
  sameSeen h _ := h.seen

theorem stable_equal {T : Bond K} (hT : T.Stable) (X : Option L.Index → Value) :
    (equal T X).Stable := by
  have hc : ∀ {W W' X}, W.le W' → equalCode T W X → equalCode T W' X := by
    rintro W W' X hW ⟨t, x, y, hX, ht, hx, hy⟩
    exact ⟨t, x, y, hX, ht.mono hK hT hW, hx.mono hK hT hW, hy.mono hK hT hW⟩
  constructor
  · exact hc
  · rintro W W' v hW (⟨x, hv, hx⟩ | h)
    · exact .inl ⟨x, hv, hx.mono hK hT hW⟩
    · exact .inr (h.mono hK (hc hW) hW)
  · rintro W X Y ⟨t, x, y, hX, h⟩ hY
    exact ⟨t, x, y, fun i ↦ hY i _ (hX i), h⟩
  · rintro W v w (⟨x, h, hx⟩ | h) - hv
    · exact .inl ⟨x, fun i ↦ hv i _ (h i), hx⟩
    · exact .inr (h.seen hv)

theorem stable_either {A B : Bond K} (hA : A.Stable) (hB : B.Stable)
    (X : Option L.Index → Value) : (either A B X).Stable := by
  have hc : ∀ {W W' X}, W.le W' → eitherCode A B W X → eitherCode A B W' X := by
    rintro W W' X hW ⟨a, b, hX, ha, hb⟩
    exact ⟨a, b, hX, ha.mono hK hA hW, hb.mono hK hB hW⟩
  constructor
  · exact hc
  · rintro W W' v hW (⟨x, hv, hx⟩ | ⟨x, hv, hx⟩ | h)
    · exact .inl ⟨x, hv, hx.mono hK hA hW⟩
    · exact .inr (.inl ⟨x, hv, hx.mono hK hB hW⟩)
    · exact .inr (.inr (h.mono hK (hc hW) hW))
  · rintro W X Y ⟨a, b, hX, h⟩ hY
    exact ⟨a, b, fun i ↦ hY i _ (hX i), h⟩
  · rintro W v w (⟨x, h, hx⟩ | ⟨x, h, hx⟩ | h) - hv
    · exact .inl ⟨x, fun i ↦ hv i _ (h i), hx⟩
    · exact .inr (.inl ⟨x, fun i ↦ hv i _ (h i), hx⟩)
    · exact .inr (.inr (h.seen hv))

variable {A : Bond K} {B : GlueWorld L → (Option L.Index → Value) → Bond K}

theorem Family.mono {f : Option L.Index → Closure} (h : Family A B W f) (hW : W.le W') :
    Family A B W' f := fun _ hW' ↦ h _ (hK.le_trans hW hW')

theorem stable_pi (hA : A.Stable) (X : Option L.Index → Value) : (pi A B X).Stable where
  codeMono := by
    rintro W W' X hW ⟨x, d, f, hX, hd, hf⟩
    exact ⟨x, d, f, hX, hd.mono hK hA hW, hf.mono hK hW⟩
  sameMono hW h := ⟨h.1, fun _ hW' ↦ h.2 _ (hK.le_trans hW hW')⟩
  codeSeen := by
    rintro W X Y ⟨x, d, f, hX, h⟩ hY
    exact ⟨x, d, f, fun i ↦ hY i _ (hX i), h⟩
  sameSeen := by
    rintro W f g ⟨ho, h⟩ hl hf
    refine ⟨ho.seen hl (hf none), fun W' hW a ha ↦ ?_⟩
    obtain ⟨v, hv, hvB⟩ := h W' hW a ha
    exact ⟨v, fun i ↦ (hv i).apply_seen (hf i), hvB⟩

theorem stable_sigma (hA : A.Stable) (X : Option L.Index → Value) : (sigma A B X).Stable where
  codeMono := by
    rintro W W' X hW ⟨x, d, f, hX, hd, hf⟩
    exact ⟨x, d, f, hX, hd.mono hK hA hW, hf.mono hK hW⟩
  sameMono := by
    rintro W W' p hW ⟨ho, a, e, ha, he, h⟩
    exact ⟨ho, a, e, ha, he, fun W'' hW' ↦ h W'' (hK.le_trans hW hW')⟩
  codeSeen := by
    rintro W X Y ⟨x, d, f, hX, h⟩ hY
    exact ⟨x, d, f, fun i ↦ hY i _ (hX i), h⟩
  sameSeen := by
    rintro W p q ⟨ho, a, e, ha, he, h⟩ hl hp
    exact ⟨ho.seen hl (hp none), a, e, fun i ↦ (ha i).doCar_seen (hp i), fun i ↦ (he i).doCdr_seen (hp i), h⟩

end Bond

section Bonded

variable (hK : K.Good)

include hK

open Bond in
theorem Bonded.stable {base : Bond K → Prop} (hb : ∀ S, base S → S.Stable) {S : Bond K}
    (h : Bonded base S) : S.Stable := by
  induction h with
  | base h => exact hb _ h
  | nat => exact stable_plain (fun hW h ↦ GlueNat.mono hK h hW) fun h _ ↦ h.seen
  | atom => exact stable_atom hK
  | trivial => exact stable_plain (fun _ h ↦ h) fun h hl hv ↦ h.seen hl (hv none)
  | absurd => exact stable_absurd hK
  | unknown => exact stable_unknown hK _
  | list _ ih => exact stable_list hK ih _
  | vec _ ih => exact stable_vec hK ih _ _
  | equal _ ih => exact stable_equal hK ih _
  | either _ _ ihA ihB => exact stable_either hK ihA ihB _
  | pi _ _ ihA _ => exact stable_pi hK ihA _
  | sigma _ _ ihA _ => exact stable_sigma hK ihA _

theorem Bond.stable_univ : (Bond.univ : Bond K).Stable := by
  have hb : ∀ {S : Bond K}, SmallBond S → S.Stable := Bonded.stable hK nofun
  refine stable_plain ?_ ?_
  · rintro W W' X hW ⟨S, hS, h⟩
    exact ⟨S, hS, h.mono hK (hb hS) hW⟩
  · rintro W X Y ⟨S, hS, h⟩ - hY
    exact ⟨S, hS, h.seen hK (hb hS) hY⟩

/-- Bonds of every size are stable. -/
theorem Bonded.stableAt {s : Size} {S : Bond K} (h : Bonded (s.bond K) S) : S.Stable := by
  refine Bonded.stable hK (fun S hS ↦ ?_) h
  cases s with
  | small => cases hS
  | large =>
    obtain rfl : S = Bond.univ := hS
    exact Bond.stable_univ hK

end Bonded

end LittleTypes.Idealized
