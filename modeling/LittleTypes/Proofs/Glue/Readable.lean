import LittleTypes.Proofs.Glue.Forms
import LittleTypes.Proofs.Glue.Unique

/-!
# What belongs together is read back as what it denotes

For every bond: the new side of a type or of an element that belongs to it is read back, to a form
that denotes the other sides.  And an elimination that denotes an element belongs together with it.
Under a binder the second is needed for the first, as the new side is then applied to an unknown
value; so both are proved together, along the way the bond was built.
-/

namespace LittleTypes.Idealized

variable {L : Logic} {K : Ground L} {s : Size} {W W' : GlueWorld L}

/-- A value on the new side, and values on the others. -/
def glued {I α : Type} (v : α) (w : I → α) : Option I → α
  | none => v
  | some i => w i

/-- What is required of a bond. -/
structure Bond.Readable (s : Size) (S : Bond K) : Prop where
  /-- Types are read back as what they denote. -/
  type : ∀ {W X}, S.Type W X → K.type s W X → ShowsType K.blurs s W (X none) (others X)
  /-- Elements are read back as what they denote. -/
  value : ∀ {W X v}, S.Type W X → S.Elem W v →
    Shows K.blurs W (X none) (v none) (others X) (others v)
  /-- Eliminations belong together with what they denote. -/
  reflect : ∀ {W T v m}, S.Type W T → Looks (v none) (.neu (T none) m) → K.elem W S.types v →
    Names K.blurs W m (others S.types) (others v) → S.same W v

/-! ## Reading -/

namespace ShowsType

variable {c : Bool} {X Y : Value} {X' Y' : L.Index → Value}

/-- A type without parts. -/
theorem const {k : Const} (hL : L.Lawful)
    (hk : ∀ j, typeShapePlan j (.const k) = .done (.const k)) (hX : Looks X (.const k))
    (hX' : ∀ i, Looks (X' i) (.const k)) (h : ∀ {ω}, L.type s ω fun _ ↦ .const k) :
    ShowsType c s W X X' := by
  intro W' _
  refine ⟨.const k, .type hX ?_, (DenotesType.const hL h).seen fun i ↦ .of_looks (hX' i)⟩
  rw [hk]
  exact .done _

end ShowsType

namespace Shows

variable {c : Bool} {X Y v u : Value} {X' Y' w w' : L.Index → Value}

theorem seen (h : Shows c W X v X' w) (hX : SeenAs Y X) (hv : SeenAs u v)
    (hw : ∀ i, SeenAs (w' i) (w i)) : Shows c W Y u X' w' := by
  intro W' hW
  obtain ⟨N, hN, hd⟩ := h W' hW
  exact ⟨N, hN.seenValue hX hv, hd.seen hw⟩

theorem conv (hL : L.Stable) (h : Shows c W X v X' w) (hY : L.type .large W.base Y')
    (hXY : ∀ i, SameType (L.model i) (X' i) (Y' i)) : Shows c W X v Y' w := by
  intro W' hW
  obtain ⟨N, hN, hd⟩ := h W' hW
  exact ⟨N, hN, hd.conv hL (hL.type_mono hY hW.1) hXY⟩

end Shows

/-- What waits is read back at a type that only shows what it waits for. -/
theorem Names.shows {c : Bool} {X V v T : Value} {m : Neutral} {X' w : L.Index → Value}
    (h : Names c W m X' w) (hX : Looks X V) (hv : Looks v (.neu T m))
    (hV : ∀ k T m, valueShapePlan k V (.neu T m) = readNeutral k m .done) :
    Shows c W X v X' w := by
  intro W' hW
  obtain ⟨N, hN, hd⟩ := h W' hW
  refine ⟨N, .value hX hv ?_, hd⟩
  rw [hV]
  exact .read hN (.done _)

namespace Bond

variable {S : Bond K} {X v : Option L.Index → Value}

theorem Type.inLogic (hK : K.Good) (h : S.Type W X) : L.type .large W.base (others X) :=
  hK.typeOthers h.side

theorem Elem.inLogic (hK : K.Good) (h : S.Elem W v) : L.elem W.base (others S.types) (others v) :=
  hK.elemOthers h.side

/-- What waits is read back, at any type that belongs to the bond. -/
theorem Waits.shows {V : Value} (hK : K.Good) (h : Waits K S W v) (hX : S.Type W X)
    (hV : Looks (X none) V)
    (hp : ∀ k T m, valueShapePlan k V (.neu T m) = readNeutral k m .done) :
    Shows K.blurs W (X none) (v none) (others X) (others v) := by
  obtain ⟨T, m, hv, -, hm⟩ := h
  exact (hm.conv hK.base.toStable (hX.inLogic hK) fun i ↦ hX.same (some i)).shows hV hv hp

theorem Type.sameSelf (h : S.Type W X) (i : Option L.Index) : SameType (L.glueModel i) (X i) (X i) :=
  (h.same i).right

/-- What waits for an unknown value, at a type of the bond. -/
theorem Type.pending {T : Option L.Index → Value} {m : Neutral} (hT : S.Type W T)
    (hv : Looks (v none) (.neu (T none) m)) (hm : Names K.blurs W m (others S.types) (others v)) :
    Pending K W S.types v := ⟨_, _, hv, (hT.same none).symm, hm⟩

end Bond

/-! ## Types without parts -/

section

variable (hK : K.Good)

include hK

theorem GlueNat.shows {v : Option L.Index → Value} (h : GlueNat K W v) :
    Shows K.blurs W (.const .nat) (v none) (fun _ ↦ .const .nat) (others v) := by
  induction h with
  | zero hv =>
    intro W' _
    exact ⟨.const .zero, .value (.of_inSight .intro) (hv none) (.done _),
      (Denotes.const hK.base.toLawful hK.base.zero).seen fun i ↦ .of_looks (hv (some i))⟩
  | add1 hv _ ih =>
    intro W' hW
    obtain ⟨N, hN, hd⟩ := ih W' hW
    exact ⟨.unary .add1 N,
      .value (.of_inSight .intro) (hv none) (.read hN (.done _)),
      (hd.add1 hK.base.toLawful).seen fun i ↦ .of_looks (hv (some i))⟩
  | waiting h =>
    obtain ⟨T, m, hv, -, hm⟩ := h
    exact hm.shows (.of_inSight .intro) hv fun _ _ _ ↦ rfl

namespace Bond

theorem readable_nat : (nat : Bond K).Readable s where
  type h _ := .const hK.base.toLawful (fun _ ↦ rfl) (h.code none) (fun i ↦ h.code (some i)) hK.base.nat
  value {W X v} h hv := by
    have hX : Looks (X none) (.const .nat) := h.code none
    exact ((GlueNat.shows hK hv.same).seen (.of_looks hX) (.refl _) fun i ↦ .refl _).conv
      hK.base.toStable (h.inLogic hK) fun i ↦ h.same (some i)
  reflect hT hv _ hm := .waiting (hT.pending hv hm)

theorem readable_atom : (atom : Bond K).Readable s where
  type h _ := .const hK.base.toLawful (fun _ ↦ rfl) (h.code none) (fun i ↦ h.code (some i)) hK.base.atom
  value {W X v} h hv := by
    have hX : Looks (X none) (.const .atom) := h.code none
    refine Shows.conv hK.base.toStable ?_ (h.inLogic hK) fun i ↦ h.same (some i)
    rcases hv.same with ⟨t, hv⟩ | ⟨T, m, hv, -, hm⟩
    · intro W' _
      exact ⟨.quote t, .value hX (hv none) (.done _),
        (Denotes.quote hK.base.toLawful t).seen fun i ↦ .of_looks (hv (some i))⟩
    · exact hm.shows hX hv fun _ _ _ ↦ rfl
  reflect hT hv _ hm := .inr (hT.pending hv hm)

theorem readable_trivial : (trivial : Bond K).Readable s where
  type h _ := .const hK.base.toLawful (fun _ ↦ rfl) (h.code none) (fun i ↦ h.code (some i)) hK.base.trivial
  value {W X v} h hv := by
    have hX : Looks (X none) (.const .trivial) := h.code none
    refine Shows.conv hK.base.toStable (fun W' hW ↦ ?_) (h.inLogic hK) fun i ↦ h.same (some i)
    obtain ⟨v', hv'⟩ := (hK.same hv.side none).looks
    have hs : L.elem W'.base (fun _ ↦ .const .trivial) fun _ ↦ .const .sole := hK.base.sole
    refine ⟨.const .sole, .value hX hv' (.done _),
      (Denotes.const hK.base.toLawful hs).same fun i ↦ ?_⟩
    exact (Same.trivial_iff (.of_inSight .intro)).2 ⟨.inl (.of_inSight .intro),
      ((Same.trivial_iff (.of_inSight .intro)).1 (hK.base.same (hv.inLogic hK) i)).1⟩
  reflect hT hv _ hm := (hT.pending hv hm).ownType

theorem readable_absurd : (absurd : Bond K).Readable s where
  type h _ := .const hK.base.toLawful (fun _ ↦ rfl) (h.code none) (fun i ↦ h.code (some i)) hK.base.absurd
  value {W X v} h hv := by
    have hX : Looks (X none) (.const .absurd) := h.code none
    refine Shows.conv hK.base.toStable (fun W' hW ↦ ?_) (h.inLogic hK) fun i ↦ h.same (some i)
    obtain ⟨T, m, hvm, -, hm⟩ := hv.same
    obtain ⟨N, hN, hd⟩ := hm W' hW
    exact ⟨.the (.const .absurd) N, .value hX hvm (.read hN (.done _)),
      hd.absurd hK.base (hK.base.elem_mono (hv.inLogic hK) hW.1)⟩
  reflect hT hv _ hm := hT.pending hv hm

theorem readable_unknown (Z : Option L.Index → Value) : (unknown Z : Bond K).Readable s where
  type h _ := by
    obtain ⟨U, n, hX, -, hn⟩ := h.code
    intro W' hW
    obtain ⟨N, hN, hd⟩ := hn W' hW
    exact ⟨N, .type hX (.read hN (.done _)), .of_elem hK.base.toLawful hd⟩
  value h hv := by
    obtain ⟨U, n, hX, -⟩ := h.code
    obtain ⟨T, m, hv, -, hm⟩ := hv.same
    exact (hm.conv hK.base.toStable (h.inLogic hK) fun i ↦ h.same (some i)).shows hX hv fun _ _ _ ↦ rfl
  reflect hT hv _ hm := hT.pending hv hm

theorem readable_univ (hS : ∀ S : Bond K, SmallBond S → S.Readable .small) :
    (univ : Bond K).Readable .large where
  type h _ := .const hK.base.toLawful (fun _ ↦ rfl) (h.code none) (fun i ↦ h.code (some i)) hK.base.univ
  value {W X v} h hv := by
    have hX : Looks (X none) (.const .univ) := h.code none
    refine Shows.conv hK.base.toStable (fun W' hW ↦ ?_) (h.inLogic hK) fun i ↦ h.same (some i)
    obtain ⟨S, hSS, hSv⟩ := hv.same
    obtain ⟨N, hN, hd⟩ := (hS S hSS).type hSv (hK.univ_iff.1 hv.side) W' hW
    obtain ⟨V, hV⟩ := (hK.same hv.side none).looks
    refine ⟨N, .value hX hV (.read (hN.seenType (.seen hV)) (.done _)),
      fun θ ρ t hρ ht ↦ ?_⟩
    obtain ⟨Y, hY, hYv⟩ := hd θ ρ t hρ ht
    refine ⟨Y, hY, hK.base.univ_iff.2 hYv.type, fun i ↦ (Same.univ_iff (.of_inSight .intro)).2 ?_⟩
    exact (hK.base.typeAt hYv.type i).transLarge (hYv.same i)
  reflect {W T v m} hT hv hs hm := by
    have hs := hK.univ_iff.1 hs
    have hl := hK.type_large hs
    exact ⟨unknown v, .unknown, fun i ↦ hK.typeAt hl i, hl, hl, hT.pending hv hm⟩

end Bond

/-! ## Data with parts -/

section Data

variable {E : Bond K} {e e' l Z v : Option L.Index → Value} (hE : E.Readable s)

include hE

theorem GlueList.shows (he : E.Type W e) (h : GlueList E Z W v)
    (hZ : ∀ i, SameType (L.glueModel i) (Z i) (.unary .list (e i))) :
    Shows K.blurs W (.unary .list (e none)) (v none) (fun i ↦ .unary .list (e (some i))) (others v) := by
  have hT := hK.base.list (he.inLogic hK)
  induction h with
  | nil hv =>
    intro W' hW
    exact ⟨.const .nil, .value (.of_inSight .intro) (hv none) (.done _),
      (Denotes.const hK.base.toLawful (hK.base.nil (hK.base.type_mono (he.inLogic hK) hW.1))).seen fun i ↦
        .of_looks (hv (some i))⟩
  | cons hv hh _ ih =>
    intro W' hW
    obtain ⟨N, hN, hNd⟩ := hE.value he hh W' hW
    obtain ⟨M, hM, hMd⟩ := ih W' hW
    exact ⟨.binary .listCons N M,
      .value (.of_inSight .intro) (hv none) (.read hN (.read hM (.done _))),
      (hNd.listCons hK.base.toLawful hMd).seen fun i ↦ .of_looks (hv (some i))⟩
  | waiting hv =>
    obtain ⟨T, m, hv, -, hm⟩ := hv
    exact (hm.conv hK.base.toStable hT fun i ↦ hZ (some i)).shows (.of_inSight .intro) hv
      fun _ _ _ ↦ rfl

theorem GlueVec.shows (he' : E.Type W e') (h : GlueVec E e W l v)
    (hee : ∀ i, SameType (L.glueModel i) (e i) (e' i)) {l' : Option L.Index → Value}
    (hll : ∀ i, SameNat (L.glueModel i) (l i) (l' i))
    (hl' : L.elem W.base (fun _ ↦ .const .nat) (others l')) :
    Shows K.blurs W (.binary .vec (e' none) (l' none)) (v none)
      (fun i ↦ .binary .vec (e' (some i)) (l' (some i))) (others v) := by
  induction h generalizing l' with
  | @nil l v hl hv =>
    intro W' hW
    have heT := hK.base.type_mono (he'.inLogic hK) hW.1
    have hT := hK.base.vec heT (hK.base.elem_mono hl' hW.1)
    have hz : ∀ i, Looks (l' i) (.const .zero) := fun i ↦ (hll i).of_zero (hl i)
    refine ⟨.const .vecnil, .value (.of_inSight .intro) (hv none) (.done _), Denotes.seen ?_
      fun i ↦ .of_looks (hv (some i))⟩
    refine (Denotes.const hK.base.toLawful (hK.base.vecnil heT)).conv hK.base.toStable hT fun i ↦ ?_
    exact TypeAt.vec (hK.base.typeAt heT i) (.zero (.of_inSight .intro) (hz (some i)))
  | @cons l k v x r hlk hv hh _ ih =>
    choose k' hk' hkk using fun i ↦ (hll i).of_add1 (hlk i)
    have hk : L.elem W.base (fun _ ↦ .const .nat) (others k') :=
      hK.base.pred (hK.base.elem_seen hl' fun i ↦ .seen (hk' (some i)))
    intro W' hW
    obtain ⟨N, hN, hNd⟩ := hE.value he' hh W' hW
    obtain ⟨M, hM, hMd⟩ := ih hkk hk W' hW
    have heT := hK.base.type_mono (he'.inLogic hK) hW.1
    have hkW := hK.base.elem_mono hk hW.1
    have hT := hK.base.vec heT (hK.base.elem_mono hl' hW.1)
    refine ⟨.binary .vecCons N M, .value (.of_inSight .intro) (hv none)
      (.thenRead (hk' none) (.read hN (.read hM (.done _)))), Denotes.seen ?_
        fun i ↦ .of_looks (hv (some i))⟩
    refine (hNd.vecCons hK.base.toLawful hkW hMd).conv hK.base.toStable hT fun i ↦ ?_
    exact TypeAt.vec (hK.base.typeAt heT i)
      (.add1 (.of_inSight .intro) (hk' (some i)) (hK.base.same hkW i).sameNat)
  | @waiting l v hv =>
    obtain ⟨T, m, hv, -, hm⟩ := hv
    exact (hm.conv hK.base.toStable (hK.base.vec (he'.inLogic hK) hl') fun i ↦
      TypeAt.vec (hee (some i)) (hll (some i))).shows (.of_inSight .intro) hv fun _ _ _ ↦ rfl

end Data

namespace Bond

theorem readable_list {E : Bond K} (hE : E.Readable s) (Z : Option L.Index → Value) :
    (list E Z).Readable s where
  type h hs := by
    obtain ⟨e, hX, he⟩ := h.code
    intro W' hW
    obtain ⟨N, hN, hd⟩ := hE.type he (hK.of_list (hK.type_looks hs hX)) W' hW
    exact ⟨.unary .list N, .type (hX none) (.read hN (.done _)),
      (hd.list hK.base.toLawful).seen fun i ↦ .of_looks (hX (some i))⟩
  value h hv := by
    obtain ⟨e, hX, he⟩ := h.code
    have hZ : ∀ i, SameType (L.glueModel i) (Z i) (.unary .list (e i)) := fun i ↦
      TypeAt.seenRight (h.same i) (.seen (hX i))
    refine Shows.conv hK.base.toStable ?_ (h.inLogic hK) fun i ↦ (hZ (some i)).symm.trans (h.same (some i))
    exact (GlueList.shows hK hE he hv.same hZ).seen (.of_looks (hX none)) (.refl _) fun _ ↦ .refl _
  reflect hT hv _ hm := .waiting ⟨_, _, hv, ⟨hT.same, hT.base, hT.side, hT.code⟩, hm⟩

theorem readable_vec {E : Bond K} (hE : E.Readable s) (e l : Option L.Index → Value) :
    (vec E e l).Readable s where
  type h hs := by
    obtain ⟨e, l, hX, he, hl⟩ := h.code
    intro W' hW
    obtain ⟨N, hN, hd⟩ := hE.type he (hK.of_vec (hK.type_looks hs hX)).1 W' hW
    obtain ⟨M, hM, hMd⟩ := GlueNat.shows hK hl W' hW
    exact ⟨.binary .vec N M, .type (hX none) (.read hN (.read hM (.done _))),
      (hd.vec hK.base.toLawful hMd).seen fun i ↦ .of_looks (hX (some i))⟩
  value {W X v} h hv := by
    obtain ⟨e', l', hX, he', hl'⟩ := h.code
    have hZ : ∀ i, SameType (L.glueModel i) (.binary .vec (e i) (l i)) (.binary .vec (e' i) (l' i)) :=
      fun i ↦ TypeAt.seenRight (h.same i) (.seen (hX i))
    have hp := fun i ↦ (hZ i).vec_inj (.of_inSight .intro) (.of_inSight .intro)
    have hT : L.type .large W.base fun i ↦ .binary .vec (e' (some i)) (l' (some i)) :=
      hK.base.type_looks (h.inLogic hK) fun i ↦ hX (some i)
    refine Shows.conv hK.base.toStable ?_ (h.inLogic hK) fun i ↦ (hZ (some i)).symm.trans (h.same (some i))
    exact (GlueVec.shows hK hE he' hv.same (fun i ↦ (hp i).1) (fun i ↦ (hp i).2)
      (hK.base.of_vec hT).2).seen (.of_looks (hX none)) (.refl _) fun _ ↦ .refl _
  reflect hT hv _ hm := .waiting ⟨_, _, hv, ⟨hT.same, hT.base, hT.side, hT.code⟩, hm⟩

theorem readable_either {A B : Bond K} (hA : A.Readable s) (hB : B.Readable s)
    (Z : Option L.Index → Value) : (either A B Z).Readable s where
  type h hs := by
    obtain ⟨a, b, hX, ha, hb⟩ := h.code
    obtain ⟨hsa, hsb⟩ := hK.of_either (hK.type_looks hs hX)
    intro W' hW
    obtain ⟨N, hN, hNd⟩ := hA.type ha hsa W' hW
    obtain ⟨M, hM, hMd⟩ := hB.type hb hsb W' hW
    exact ⟨.binary .either N M, .type (hX none) (.read hN (.read hM (.done _))),
      (hNd.either hK.base.toLawful hMd).seen fun i ↦ .of_looks (hX (some i))⟩
  value {W X v} h hv := by
    obtain ⟨a, b, hX, ha, hb⟩ := h.code
    have hXX : ∀ i, SameType (L.model i) (.binary .either (a (some i)) (b (some i))) (X (some i)) :=
      fun i ↦ TypeAt.seen (h.sameSelf (some i)) (.seen (hX (some i)))
    rcases hv.same with ⟨x, hv, hx⟩ | ⟨x, hv, hx⟩ | hv
    · refine Shows.conv hK.base.toStable (fun W' hW ↦ ?_) (h.inLogic hK) hXX
      obtain ⟨N, hN, hd⟩ := hA.value ha hx W' hW
      exact ⟨.unary .left N, .value (hX none) (hv none) (.read hN (.done _)),
        (hd.left hK.base.toLawful (hK.base.type_mono (hb.inLogic hK) hW.1)).seen fun i ↦
          .of_looks (hv (some i))⟩
    · refine Shows.conv hK.base.toStable (fun W' hW ↦ ?_) (h.inLogic hK) hXX
      obtain ⟨N, hN, hd⟩ := hB.value hb hx W' hW
      exact ⟨.unary .right N, .value (hX none) (hv none) (.read hN (.done _)),
        (hd.right hK.base.toLawful (hK.base.type_mono (ha.inLogic hK) hW.1)).seen fun i ↦
          .of_looks (hv (some i))⟩
    · exact hv.shows hK ⟨h.same, h.base, h.side, h.code⟩ (hX none) fun _ _ _ ↦ rfl
  reflect hT hv _ hm :=
    .inr (.inr ⟨_, _, hv, ⟨hT.same, hT.base, hT.side, hT.code⟩, hm⟩)

theorem readable_equal {T : Bond K} (hT : T.Readable s) (Z : Option L.Index → Value) :
    (equal T Z).Readable s where
  type h hs := by
    obtain ⟨t, x, y, hX, ht, hx, hy⟩ := h.code
    intro W' hW
    obtain ⟨N, hN, hNd⟩ := hT.type ht (hK.of_equal (hK.type_looks hs hX)).1 W' hW
    obtain ⟨M, hM, hMd⟩ := hT.value ht hx W' hW
    obtain ⟨P, hP, hPd⟩ := hT.value ht hy W' hW
    exact ⟨.equal N M P, .type (hX none) (.read hN (.read hM (.read hP (.done _)))),
      (hNd.equal hK.base.toLawful hMd hPd).seen fun i ↦ .of_looks (hX (some i))⟩
  value {W X v} h hv := by
    obtain ⟨t, a, b, hX, ht, -, -⟩ := h.code
    rcases hv.same with ⟨x, hvx, hx⟩ | hv
    · have hX' : ∀ i, SameType (L.model i) (.equal (t (some i)) (x (some i)) (x (some i)))
          (X (some i)) := fun i ↦ by
        have hs := (hK.base.same (hv.inLogic hK) i).conv (h.same (some i))
        refine TypeAt.seenRight ?_ (.of_looks (hX (some i)))
        rcases (hs.seenType (.seen (hX (some i)))).equal_cases with
          ⟨x₁, y₁, hx₁, -, -, ha, hb⟩ | ⟨-, T, m, -, -, -, -, -, -, -, -, hneu, -⟩
        · cases (hvx (some i)).unique hx₁
          exact TypeAt.equal (ht.sameSelf (some i)) ha.symm hb.symm
        · cases (hvx (some i)).unique hneu
      refine Shows.conv hK.base.toStable (fun W' hW ↦ ?_) (h.inLogic hK) hX'
      obtain ⟨N, hN, hd⟩ := hT.value ht hx W' hW
      have hxt : L.elem W'.base (others t) (others x) :=
        hK.base.elem_mono (hK.base.conv (hx.inLogic hK) (ht.inLogic hK) fun i ↦ ht.same (some i)) hW.1
      exact ⟨.unary .same N, .value (hX none) (hvx none) (.read hN (.done _)),
        (hd.refl hK.base.toLawful hxt).seen fun i ↦ .of_looks (hvx (some i))⟩
    · exact hv.shows hK ⟨h.same, h.base, h.side, h.code⟩ (hX none) fun _ _ _ ↦ rfl
  reflect hT hv _ hm := .inr ⟨_, _, hv, ⟨hT.same, hT.base, hT.side, hT.code⟩, hm⟩

end Bond

end

/-! ## Functions and pairs -/

namespace Reads

variable {k : Nat} {X v d : Value} {x : String} {f : Closure} {N : Nameless}

theorem of_pi (h : Reads k (.type X) N) (hX : Looks X (.pi x d f)) :
    ∃ Y A B, N = .pi A B ∧ Runs (enter f (.ofLevel k d)) Y ∧ Reads k (.type d) A ∧
      Reads (k + 1) (.type Y) B := by
  cases h.of_type hX with
  | read hA h =>
    obtain ⟨Y, hY, h⟩ := ReadRuns.thenRead_iff.1 h
    cases h with
    | read hB h =>
      cases h
      exact ⟨Y, _, _, rfl, hY, hA, hB⟩

theorem of_sigma (h : Reads k (.type X) N) (hX : Looks X (.sigma x d f)) :
    ∃ Y A B, N = .sigma A B ∧ Runs (enter f (.ofLevel k d)) Y ∧ Reads k (.type d) A ∧
      Reads (k + 1) (.type Y) B := by
  cases h.of_type hX with
  | read hA h =>
    obtain ⟨Y, hY, h⟩ := ReadRuns.thenRead_iff.1 h
    cases h with
    | read hB h =>
      cases h
      exact ⟨Y, _, _, rfl, hY, hA, hB⟩

theorem of_function (h : Reads k (.value X v) N) (hX : Looks X (.pi x d f)) :
    ∃ Y u B, N = .lam B ∧ Runs (enter f (.ofLevel k d)) Y ∧ Runs (apply v (.ofLevel k d)) u ∧
      Reads (k + 1) (.value Y u) B := by
  obtain ⟨V, hV, h⟩ := ReadRuns.thenRead_iff.1 h
  cases hX.unique hV
  obtain ⟨v', hv, h⟩ := ReadRuns.thenRead_iff.1 h
  obtain ⟨Y, hY, h⟩ := ReadRuns.thenRead_iff.1 h
  obtain ⟨u, hu, h⟩ := ReadRuns.thenRead_iff.1 h
  cases h with
  | read hB h =>
    cases h
    exact ⟨Y, u, _, rfl, hY, hu.apply_seen (.of_looks hv), hB⟩

end Reads

namespace Bond

variable {A : Bond K} {B : GlueWorld L → (Option L.Index → Value) → Bond K} (hK : K.Good)
  (sA : A.Stable) (hA : A.Readable s)

include hK

/-- Eliminations belong together with what they denote, at any type that belongs to the bond. -/
theorem Readable.elem {S : Bond K} (hS : S.Readable s) {X T v : Option L.Index → Value}
    {m : Neutral} (hX : S.Type W X) (hT : S.Type W T) (hv : Looks (v none) (.neu (T none) m))
    (hs : K.elem W X v) (hm : Names K.blurs W m (others X) (others v)) : S.Elem W v := by
  have hXS := fun i ↦ (hX.same i).symm
  have hs' := hK.conv hs hX.base hXS
  exact ⟨hs', hS.reflect hT hv hs'
    (hm.conv hK.base.toStable (hK.typeOthers hX.base) fun i ↦ hXS (some i))⟩

/-- Elements that belong together are elements of any type that belongs to the bond. -/
theorem Elem.sideOf {S : Bond K} {X v : Option L.Index → Value} (h : S.Elem W v)
    (hX : S.Type W X) : K.elem W X v := hK.conv h.side hX.side hX.same

include sA hA

/-- An unknown value of the next level belongs together with any element. -/
theorem Readable.fresh {d : Option L.Index → Value} (hd : A.Type W d) (hW : W.le W') {ω : L.World}
    (hω : L.le W'.base ω) {a : L.Index → Value} (ha : L.elem ω (others d) a) :
    A.Elem (W'.next ω a) (glued (.ofLevel W'.size (d none)) a) := by
  have hd' : A.Type (W'.next ω a) d := hd.mono hK sA
    (hK.le_trans hW (GlueWorld.le_next hω a))
  have hk : (W'.next ω a).values[W'.size]? = some a := by simp [GlueWorld.next, GlueWorld.size]
  exact hA.elem hK hd' hd' (.of_inSight .intro)
    (hK.var hd'.side hk (.of_inSight .intro) ha) (.var hK.base.toStable hk ha)

variable (hB : ∀ W a, A.Elem W a → (B W a).Readable s)

include hB

/-- A family is read back as what it denotes. -/
theorem Readable.family {d : Option L.Index → Value} {f : Option L.Index → Closure} {Y₀ : Value}
    {N : Nameless} (hd : A.Type W d) (hf : Family A B W f) (hs : K.logic.Family s W d f)
    (hW : W.le W') (hY₀ : Runs (enter (f none) (.ofLevel W'.size (d none))) Y₀)
    (hN : Reads (W'.size + 1) (.type Y₀) N) :
    DenotesFamily L K.blurs s W' N (others d) (others f) := by
  intro ω hω a ha
  have hle := hK.le_trans hW (GlueWorld.le_next hω a)
  have hx := Readable.fresh hK sA hA hd hW hω ha
  obtain ⟨Y, hY, hYB⟩ := hf _ hle _ hx
  obtain ⟨Y', hY', hYs⟩ := hs _ hle _ (hx.sideOf hK (hd.mono hK sA hle))
  obtain rfl : Y = Y' := funext fun i ↦ (hY i).unique (hY' i)
  obtain ⟨M, hM, hMd⟩ := (hB _ _ hx).type hYB hYs _ (hK.le_refl _)
  rw [GlueWorld.size_next, ← hY₀.unique (hY none)] at hM
  cases hN.unique hM
  exact ⟨others Y, fun i ↦ hY (some i), hMd⟩

theorem readable_pi (Z : Option L.Index → Value) : (pi A B Z).Readable s where
  type {W X} h hs := by
    obtain ⟨x, d, f, hX, hd, hf⟩ := h.code
    have hs := hK.type_looks hs hX
    intro W' hW
    -- the form exists whatever the level stands for
    obtain ⟨N, hN, hNs⟩ := hK.readsType (hK.type_mono hs hW)
    obtain ⟨Y, M, P, rfl, hY, hM, hP⟩ := Reads.of_pi hN (.of_inSight .intro)
    obtain ⟨hds, hfs⟩ := hK.of_pi hs
    obtain ⟨M', hM', hMd⟩ := hA.type hd hds W' hW
    cases hM.unique hM'
    have hT := hK.typeOthers (hK.type_large (hK.type_mono hs hW))
    refine ⟨_, hN.seenType (.of_looks (hX none)), DenotesType.seen ?_ fun i ↦
      .of_looks (hX (some i))⟩
    exact .pi hK.base.toLawful hNs hMd (Readable.family hK sA hA hB hd hf hfs hW hY hP) hT
  value {W X v} h hv := by
    obtain ⟨x, d, f, hX, hd, hf⟩ := h.code
    have hXX : ∀ i, SameType (L.glueModel i) (.pi (x i) (d i) (f i)) (X i) := fun i ↦
      TypeAt.seen (h.sameSelf i) (.seen (hX i))
    refine Shows.conv hK.base.toStable (fun W' hW ↦ ?_) (h.inLogic hK) fun i ↦ hXX (some i)
    have hs := hK.elem_mono (hK.elem_looks (hv.sideOf hK h) hX) hW
    obtain ⟨N, hN, hNs⟩ := hK.reads hs
    obtain ⟨Y₀, u, M, rfl, hY₀, hu, hM⟩ := Reads.of_function hN (.of_inSight .intro)
    refine ⟨_, hN.seenValue (.of_looks (hX none)) (.refl _),
      .lam hK.base.toLawful hNs (hK.elemOthers hs) fun ω hω a ha ↦ ?_⟩
    have hle := hK.le_trans hW (GlueWorld.le_next hω a)
    have hx := Readable.fresh hK sA hA hd hW hω ha
    obtain ⟨Y, hY, hYB⟩ := hf _ hle _ hx
    obtain ⟨w, hw, hwB⟩ := hv.same.2 _ hle _ hx
    obtain ⟨P, hP, hPd⟩ := (hB _ _ hx).value hYB hwB _ (hK.le_refl _)
    rw [GlueWorld.size_next, ← hY₀.unique (hY none), ← hu.unique (hw none)] at hP
    cases hM.unique hP
    exact ⟨others Y, others w, fun i ↦ hY (some i), fun i ↦ hw (some i), hPd⟩
  reflect {W T p m} hT hp hs hm := by
    obtain ⟨x, d, f, hTd, hd, hf⟩ := hT.code
    have hTs : ∀ i, SameType (L.glueModel i) (Z i) (.pi (x i) (d i) (f i)) := fun i ↦
      TypeAt.seenRight (hT.same i) (.seen (hTd i))
    have hTT := hK.type_looks hT.side hTd
    refine ⟨(hT.pending hp hm).ownType, fun W' hW a ha ↦ ?_⟩
    have hd' := hd.mono hK sA hW
    obtain ⟨Y, hY, hYB⟩ := hf W' hW a ha
    have hpK := hK.elem_mono (hK.conv hs hTT hTs) hW
    obtain ⟨r, hr, hrY⟩ := hK.apply hpK (ha.sideOf hK hd') hY
    have hr₀ : Runs (apply (p none) (a none)) (.neu (Y none) (.app m (.mk (d none) (a none)))) :=
      (Runs.apply_neu (hTd none) (hY none)).apply_seen (.of_looks hp)
    refine ⟨r, hr, (hB W' a ha).elem hK hYB hYB (m := .app m (.mk (d none) (a none))) ?_ hrY ?_⟩
    · rw [(hr none).unique hr₀]
      exact .of_inSight .intro
    · exact .app hK.base
        ((hm.conv hK.base.toStable (hK.typeOthers hTT) fun i ↦ hTs (some i)).mono hK.base.toStable hW)
        (hA.value hd' ha) (fun i ↦ hY (some i)) (hYB.inLogic hK) fun i ↦ hr (some i)

theorem readable_sigma (Z : Option L.Index → Value) : (sigma A B Z).Readable s where
  type {W X} h hs := by
    obtain ⟨x, d, f, hX, hd, hf⟩ := h.code
    have hs := hK.type_looks hs hX
    intro W' hW
    obtain ⟨N, hN, hNs⟩ := hK.readsType (hK.type_mono hs hW)
    obtain ⟨Y, M, P, rfl, hY, hM, hP⟩ := Reads.of_sigma hN (.of_inSight .intro)
    obtain ⟨hds, hfs⟩ := hK.of_sigma hs
    obtain ⟨M', hM', hMd⟩ := hA.type hd hds W' hW
    cases hM.unique hM'
    have hT := hK.typeOthers (hK.type_large (hK.type_mono hs hW))
    refine ⟨_, hN.seenType (.of_looks (hX none)), DenotesType.seen ?_ fun i ↦
      .of_looks (hX (some i))⟩
    exact .sigma hK.base.toLawful hNs hMd (Readable.family hK sA hA hB hd hf hfs hW hY hP) hT
  value {W X p} h hp := by
    obtain ⟨x, d, f, hX, hd, hf⟩ := h.code
    have hXX : ∀ i, SameType (L.glueModel i) (.sigma (x i) (d i) (f i)) (X i) := fun i ↦
      TypeAt.seen (h.sameSelf i) (.seen (hX i))
    refine Shows.conv hK.base.toStable (fun W' hW ↦ ?_) (h.inLogic hK) fun i ↦ hXX (some i)
    obtain ⟨-, a, e, ha, he, hae⟩ := hp.same
    obtain ⟨haA, heB⟩ := hae W' hW
    obtain ⟨Y, hY, hYB⟩ := hf W' hW a haA
    have hle := hK.le_refl W'
    obtain ⟨N, hN, hNd⟩ := hA.value (hd.mono hK sA hW) haA W' hle
    obtain ⟨M, hM, hMd⟩ := (hB W' a haA).value hYB heB W' hle
    obtain ⟨p', hp'⟩ := (hK.same hp.side none).looks
    have hs := hK.elem_mono (hK.elem_looks (hp.sideOf hK h) hX) hW
    exact ⟨.binary .cons N M, .value (hX none) hp' (.thenRead ((ha none).doCar_seen (.seen hp'))
      (.read hN (.thenRead (hY none) (.thenRead ((he none).doCdr_seen (.seen hp'))
        (.read hM (.done _)))))), .cons hK.base.toLawful (hK.elemOthers hs) (fun i ↦ ha (some i))
          (fun i ↦ he (some i)) (fun i ↦ hY (some i)) hNd hMd⟩
  reflect {W T p m} hT hp hs hm := by
    obtain ⟨x, d, f, hTd, hd, hf⟩ := hT.code
    have hTs : ∀ i, SameType (L.glueModel i) (Z i) (.sigma (x i) (d i) (f i)) := fun i ↦
      TypeAt.seenRight (hT.same i) (.seen (hTd i))
    have hTT := hK.type_looks hT.side hTd
    have hpK := hK.conv hs hTT hTs
    have ho := (hT.pending hp hm).ownType
    have hm := hm.conv hK.base.toStable (hK.typeOthers hTT) fun i ↦ hTs (some i)
    -- the first component
    obtain ⟨a, ha, haK⟩ := hK.car hpK
    have ha₀ : a none = .neu (d none) (.project .car m) :=
      (ha none).unique ((Runs.doCar_neu (hTd none)).doCar_seen (.of_looks hp))
    have haA : A.Elem W a := by
      refine hA.elem hK hd hd (m := .project .car m) ?_ haK
        (.car hK.base hm (hd.inLogic hK) fun i ↦ ha (some i))
      rw [ha₀]
      exact .of_inSight .intro
    -- the second component
    obtain ⟨Y, hY, hYB⟩ := hf W (hK.le_refl W) a haA
    obtain ⟨e, he, heK⟩ := hK.cdr hpK ha hY
    have he₀ : e none = .neu (Y none) (.project .cdr m) := by
      refine (he none).unique ((Runs.doCdr_neu (hTd none) ?_).doCdr_seen (.of_looks hp))
      rw [← ha₀]
      exact hY none
    refine ⟨ho, a, e, ha, he, fun W' hW ↦ ?_⟩
    have haW := haA.mono hK sA hW
    obtain ⟨Y', hY', hYB'⟩ := hf W' hW a haW
    obtain rfl : Y = Y' := funext fun i ↦ (hY i).unique (hY' i)
    refine ⟨haW, (hB W' a haW).elem hK hYB' hYB' (m := .project .cdr m) ?_
      (hK.elem_mono heK hW) ?_⟩
    · rw [he₀]
      exact .of_inSight .intro
    · exact (Names.cdr hK.base hm (hYB.inLogic hK) (fun i ↦ ha (some i)) (fun i ↦ hY (some i))
        fun i ↦ he (some i)).mono hK.base.toStable hW

end Bond

/-! ## All formers -/

section

variable {S : Bond K} (hK : K.Good)

include hK

open Bond in
theorem Bonded.readable (hb : ∀ S, s.bond K S → S.Readable s) (h : Bonded (s.bond K) S) :
    S.Readable s := by
  induction h with
  | base h => exact hb _ h
  | nat => exact readable_nat hK
  | atom => exact readable_atom hK
  | trivial => exact readable_trivial hK
  | absurd => exact readable_absurd hK
  | unknown => exact readable_unknown hK _
  | list _ ih => exact readable_list hK ih _
  | vec _ ih => exact readable_vec hK ih _ _
  | equal _ ih => exact readable_equal hK ih _
  | either _ _ ihA ihB => exact readable_either hK ihA ihB _
  | pi hA _ ihA ihB => exact readable_pi hK (hA.stableAt hK) ihA ihB _
  | sigma hA _ ihA ihB => exact readable_sigma hK (hA.stableAt hK) ihA ihB _

/-- What belongs together is read back as what it denotes. -/
theorem Bonded.readableAt (h : Bonded (s.bond K) S) : S.Readable s := by
  have hs : ∀ S : Bond K, SmallBond S → S.Readable .small := fun S hS ↦
    Bonded.readable hK nofun hS
  cases s with
  | small => exact hs S h
  | large =>
    refine Bonded.readable hK (fun S hS ↦ ?_) h
    obtain rfl : S = .univ := hS
    exact Bond.readable_univ hK hs

end

end LittleTypes.Idealized
