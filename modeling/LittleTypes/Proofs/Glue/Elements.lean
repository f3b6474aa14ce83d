import LittleTypes.Proofs.Glue.Logic

/-!
# Elements of the glued logic

How elements are formed and taken apart.  An element of a type of data is built with a constructor
on every side, or it waits on the new side.
-/

namespace LittleTypes.Idealized

variable {L : Logic} {K : Ground L} {s : Size} {W W' : GlueWorld L}
  {e l t a b d n h r v x y : Option L.Index → Value} (hK : K.Good)

include hK

/-! ## Data -/

namespace GlueElem

theorem zero : GlueElem K W (fun _ ↦ .const .nat) fun _ ↦ .const .zero :=
  (nat_iff hK).2 ⟨hK.zero, .zero fun _ ↦ .of_inSight .intro⟩

theorem add1 (hn : GlueElem K W (fun _ ↦ .const .nat) n) :
    GlueElem K W (fun _ ↦ .const .nat) fun i ↦ .unary .add1 (n i) := by
  obtain ⟨hs, hg⟩ := (nat_iff hK).1 hn
  exact (nat_iff hK).2 ⟨hK.add1 hs, .add1 (fun _ ↦ .of_inSight .intro) hg⟩

theorem pred (hn : GlueElem K W (fun _ ↦ .const .nat) fun i ↦ .unary .add1 (n i)) :
    GlueElem K W (fun _ ↦ .const .nat) n := by
  obtain ⟨hs, hg⟩ := (nat_iff hK).1 hn
  refine (nat_iff hK).2 ⟨hK.pred hs, ?_⟩
  cases hg with
  | zero h => cases (h none).unique (.of_inSight .intro)
  | @add1 _ k h hk =>
    obtain rfl : k = n := funext fun i ↦ (Value.unary.inj ((h i).unique (.of_inSight .intro))).2
    exact hk
  | waiting h =>
    obtain ⟨T, m, h, -⟩ := h
    cases h.unique (.of_inSight .intro)

/-- An element of an atom type, or of another type without parts. -/
theorem of_plain {k : Const} {same : GlueWorld L → (Option L.Index → Value) → Prop}
    (hb : Bonded (Size.large.bond K) (Bond.plain k same))
    (hk : K.type .large W fun _ ↦ .const k) (hs : K.elem W (fun _ ↦ .const k) v) (hv : same W v) :
    GlueElem K W (fun _ ↦ .const k) v :=
  .of_same hK hb (.ofConst hK hk) hs hv

theorem list_iff {E : Bond K} (hE : Bonded (s.bond K) E) (he : E.Type W e) :
    GlueElem K W (fun i ↦ .unary .list (e i)) v ↔ K.elem W (fun i ↦ .unary .list (e i)) v ∧
      GlueList E (fun i ↦ .unary .list (e i)) W v :=
  iff_same hK (.list hE) (.ofList hK he)

theorem nil (he : GlueType K .large W e) :
    GlueElem K W (fun i ↦ .unary .list (e i)) fun _ ↦ .const .nil := by
  obtain ⟨E, hE, heE⟩ := he.bond
  exact (list_iff hK hE heE).2 ⟨hK.nil he.side, .nil fun _ ↦ .of_inSight .intro⟩

theorem listCons (hh : GlueElem K W e h) (ht : GlueElem K W (fun i ↦ .unary .list (e i)) t) :
    GlueElem K W (fun i ↦ .unary .list (e i)) fun i ↦ .binary .listCons (h i) (t i) := by
  obtain ⟨E, hE, heE⟩ := hh.type.bond
  obtain ⟨hs, hg⟩ := (list_iff hK hE heE).1 ht
  exact (list_iff hK hE heE).2 ⟨hK.listCons (hh.side hK) hs,
    .cons (fun _ ↦ .of_inSight .intro) (hh.atSelf hK hE heE) hg⟩

theorem rest (ht : GlueElem K W (fun i ↦ .unary .list (e i)) fun i ↦ .binary .listCons (h i) (t i)) :
    GlueElem K W (fun i ↦ .unary .list (e i)) t := by
  obtain ⟨E, hE, heE⟩ := GlueType.listBond ht.type
  obtain ⟨hs, hg⟩ := (list_iff hK hE heE).1 ht
  refine (list_iff hK hE heE).2 ⟨hK.rest hs, ?_⟩
  cases hg with
  | nil h => cases (h none).unique (.of_inSight .intro)
  | @cons _ h' t' hc _ hg =>
    obtain rfl : t' = t := funext fun i ↦
      (Value.binary.inj ((hc i).unique (.of_inSight .intro))).2.2
    exact hg
  | waiting h =>
    obtain ⟨T, m, h, -⟩ := h
    cases h.unique (.of_inSight .intro)

theorem vec_iff {E : Bond K} (hE : Bonded (s.bond K) E) (he : E.Type W e)
    (hl : GlueElem K W (fun _ ↦ .const .nat) l) :
    GlueElem K W (fun i ↦ .binary .vec (e i) (l i)) v ↔
      K.elem W (fun i ↦ .binary .vec (e i) (l i)) v ∧ GlueVec E e W l v := by
  obtain ⟨hs, hg⟩ := (nat_iff hK).1 hl
  exact iff_same hK (.vec hE) (.ofVec hK he hs hg)

theorem vecnil (he : GlueType K .large W e) :
    GlueElem K W (fun i ↦ .binary .vec (e i) (.const .zero)) fun _ ↦ .const .vecnil := by
  obtain ⟨E, hE, heE⟩ := he.bond
  exact (vec_iff hK hE heE (zero hK)).2
    ⟨hK.vecnil he.side, .nil (fun _ ↦ .of_inSight .intro) fun _ ↦ .of_inSight .intro⟩

theorem vecCons (hl : GlueElem K W (fun _ ↦ .const .nat) l) (hh : GlueElem K W e h)
    (ht : GlueElem K W (fun i ↦ .binary .vec (e i) (l i)) t) :
    GlueElem K W (fun i ↦ .binary .vec (e i) (.unary .add1 (l i)))
      fun i ↦ .binary .vecCons (h i) (t i) := by
  obtain ⟨E, hE, heE⟩ := hh.type.bond
  obtain ⟨hs, hg⟩ := (vec_iff hK hE heE hl).1 ht
  exact (vec_iff hK hE heE (hl.add1 hK)).2 ⟨hK.vecCons (hl.side hK) (hh.side hK) hs,
    .cons (fun _ ↦ .of_inSight .intro) (fun _ ↦ .of_inSight .intro) (hh.atSelf hK hE heE) hg⟩

theorem equal_iff {T : Bond K} (hT : Bonded (s.bond K) T) (ht : T.Type W t) (hx : T.Elem W x)
    (hy : T.Elem W y) :
    GlueElem K W (fun i ↦ .equal (t i) (x i) (y i)) v ↔
      K.elem W (fun i ↦ .equal (t i) (x i) (y i)) v ∧
      (Bond.equal T fun i ↦ .equal (t i) (x i) (y i)).same W v :=
  iff_same hK (.equal hT) (.ofEqual hK ht hx hy)

theorem refl (hx : GlueElem K W t x) :
    GlueElem K W (fun i ↦ .equal (t i) (x i) (x i)) fun i ↦ .unary .same (x i) := by
  obtain ⟨T, hT, ht⟩ := hx.type.bond
  have hxT := hx.atSelf hK hT ht
  exact (equal_iff hK hT ht hxT hxT).2 ⟨hK.refl (hx.side hK),
    .inl ⟨x, fun _ ↦ .of_inSight .intro, hxT⟩⟩

theorem either_iff {A B : Bond K} (hA : Bonded (s.bond K) A) (hB : Bonded (s.bond K) B)
    (ha : A.Type W a) (hb : B.Type W b) :
    GlueElem K W (fun i ↦ .binary .either (a i) (b i)) v ↔
      K.elem W (fun i ↦ .binary .either (a i) (b i)) v ∧
      (Bond.either A B fun i ↦ .binary .either (a i) (b i)).same W v :=
  iff_same hK (.either hA hB) (.ofEither hK ha hb)

theorem left (hb : GlueType K .large W b) (hx : GlueElem K W a x) :
    GlueElem K W (fun i ↦ .binary .either (a i) (b i)) fun i ↦ .unary .left (x i) := by
  obtain ⟨A, hA, haA⟩ := hx.type.bond
  obtain ⟨B, hB, hbB⟩ := hb.bond
  exact (either_iff hK hA hB haA hbB).2 ⟨hK.left hb.side (hx.side hK),
    .inl ⟨x, fun _ ↦ .of_inSight .intro, hx.atSelf hK hA haA⟩⟩

theorem right (ha : GlueType K .large W a) (hx : GlueElem K W b x) :
    GlueElem K W (fun i ↦ .binary .either (a i) (b i)) fun i ↦ .unary .right (x i) := by
  obtain ⟨A, hA, haA⟩ := ha.bond
  obtain ⟨B, hB, hbB⟩ := hx.type.bond
  exact (either_iff hK hA hB haA hbB).2 ⟨hK.right ha.side (hx.side hK),
    .inr (.inl ⟨x, fun _ ↦ .of_inSight .intro, hx.atSelf hK hB hbB⟩)⟩

end GlueElem

omit hK in
/-- A value that does not wait has no type of its own. -/
theorem OwnType.of_looks {X u : Option L.Index → Value} {V : Value} (h : Looks (u none) V)
    (hV : ∀ T m, V ≠ .neu T m) : OwnType X u :=
  fun T m hu ↦ absurd (h.unique hu) (hV T m)

theorem glue_constructs : K.glue.Constructs where
  zero := .zero hK
  add1 h := h.add1 hK
  pred h := h.pred hK
  quote q := .of_plain hK .atom hK.atom (hK.quote q) (.inl ⟨q, fun _ ↦ .of_inSight .intro⟩)
  sole := .of_plain hK .trivial hK.trivial hK.sole (.of_looks (.of_inSight .intro) nofun)
  nil h := .nil hK h
  listCons h ht := h.listCons hK ht
  rest h := h.rest hK
  vecnil h := .vecnil hK h
  vecCons hl h ht := .vecCons hK hl h ht
  refl h := h.refl hK
  left hb h := .left hK hb h
  right ha h := .right hK ha h

/-! ## Functions and pairs -/

theorem glue_applies : K.glue.Applies where
  cons {W x f d a e Y} hT ha hY he := by
    have hG := glue_stable hK
    obtain ⟨A, B, Z, hA, hB, hd, hf, hS⟩ := GlueType.sigmaBond hT
    refine .of_same hK (.sigma hA hB) hS (hK.cons hT.side (ha.side hK) hY (he.side hK))
      ⟨.of_looks (.of_inSight .intro) nofun, ?_⟩
    choose a' ha' using fun i ↦ (ha.same hK i).looks
    choose e' he' using fun i ↦ (he.same hK i).looks
    refine ⟨a', e', fun i ↦ .bind (Looks.of_inSight .intro) (ha' i),
      fun i ↦ .bind (Looks.of_inSight .intro) (he' i), fun W' hW ↦ ?_⟩
    have hd' := hd.mono hK (hA.stableAt hK) hW
    have haW := hG.elem_seen (hG.elem_mono ha hW) fun i ↦ .seen (ha' i)
    have heW := hG.elem_seen (hG.elem_mono he hW) fun i ↦ .seen (he' i)
    have haA := haW.atSelf hK hA hd'
    obtain ⟨Y', hY', hYB⟩ := hf W' hW a' haA
    refine ⟨haA, heW.at hK (hB W' a' haA) hYB fun i ↦ ?_⟩
    obtain ⟨U, U', hU, hU', hUU⟩ := (TypeAt.sigma_parts (hT.typeAt hK i) (.of_inSight .intro)).2
      _ _ ((ha.same hK i).seenRight (.seen (ha' i)))
    rw [(hY i).unique hU, (hY' i).unique hU']
    exact hUU
  lam {W x y f b d} hT hs hb := by
    obtain ⟨A, B, Z, hA, hB, hd, hf, hS⟩ := GlueType.piBond hT
    refine .of_same hK (.pi hA hB) hS hs
      ⟨.of_looks (.of_inSight .intro) nofun, fun W' hW a haA ↦ ?_⟩
    have hd' := hd.mono hK (hA.stableAt hK) hW
    obtain ⟨Y, hY, v, hv, hvY⟩ := hb W' hW a ⟨A, hA, hd', haA⟩
    obtain ⟨Y', hY', hYB⟩ := hf W' hW a haA
    obtain rfl : Y = Y' := funext fun i ↦ (hY i).unique (hY' i)
    exact ⟨v, fun i ↦ Runs.apply_iff.2 (.bind (Looks.of_inSight .intro) (hv i)),
      hvY.atSelf hK (hB W' a haA) hYB⟩
  apply {W x f d p a Y} hp ha hY := by
    obtain ⟨A, B, Z, hA, hB, hd, hf, hS⟩ := GlueType.piBond hp.type
    have hW := hK.le_refl W
    have haA := ha.atSelf hK hA hd
    obtain ⟨v, hv, hvB⟩ := (hp.atSelf hK (.pi hA hB) hS).same.2 W hW a haA
    obtain ⟨Y', hY', hYB⟩ := hf W hW a haA
    obtain rfl : Y = Y' := funext fun i ↦ (hY i).unique (hY' i)
    exact ⟨v, hv, B W a, hB W a haA, hYB, hvB⟩
  car {W x f d p} hp := by
    obtain ⟨A, B, Z, hA, hB, hd, hf, hS⟩ := GlueType.sigmaBond hp.type
    obtain ⟨-, a, e, ha, -, h⟩ := (hp.atSelf hK (.sigma hA hB) hS).same
    exact ⟨a, ha, A, hA, hd, (h W (hK.le_refl W)).1⟩
  cdr {W x f d p a Y} hp ha hY := by
    obtain ⟨A, B, Z, hA, hB, hd, hf, hS⟩ := GlueType.sigmaBond hp.type
    have hW := hK.le_refl W
    obtain ⟨-, a', e, ha', he, h⟩ := (hp.atSelf hK (.sigma hA hB) hS).same
    obtain rfl : a = a' := funext fun i ↦ (ha i).unique (ha' i)
    obtain ⟨haA, heB⟩ := h W hW
    obtain ⟨Y', hY', hYB⟩ := hf W hW a haA
    obtain rfl : Y = Y' := funext fun i ↦ (hY i).unique (hY' i)
    exact ⟨e, he, B W a, hB W a haA, hYB, heB⟩

theorem glue_regular : K.glue.Regular :=
  { glue_stable hK, glue_forms hK, glue_inverts hK, glue_constructs hK, glue_applies hK with }

theorem glue_lawful : K.glue.Lawful :=
  { glue_regular hK, (glue_regular hK).motives hK.toMotives with }

end LittleTypes.Idealized
