import Mathlib.Tactic.Choose
import LittleTypes.Proofs.Glue.Stable

/-!
# The same types have the same bond

A bond was built as one of the types says that belong to it.  So two bonds agree from a world on if
types belong to them there that are the same on every side.
-/

namespace LittleTypes.Idealized

variable {L : Logic} {K : Ground L} {W W' : GlueWorld L}

/-! ## How a bond was built -/

/-- How a bond was built, by what is seen of the new side of a type that belongs to it. -/
inductive Bond.Built (base : Bond K → Prop) (W : GlueWorld L)
    (X : Option L.Index → Value) : Value → Bond K → Prop
  | univ : base (univ) → (∀ i, Looks (X i) (.const .univ)) → Built base W X (.const .univ) (univ)
  | nat : (∀ i, Looks (X i) (.const .nat)) → Built base W X (.const .nat) (nat)
  | atom : (∀ i, Looks (X i) (.const .atom)) → Built base W X (.const .atom) (atom)
  | trivial : (∀ i, Looks (X i) (.const .trivial)) → Built base W X (.const .trivial) trivial
  | absurd : (∀ i, Looks (X i) (.const .absurd)) → Built base W X (.const .absurd) (absurd)
  | unknown {U : Value} {n : Neutral} {Z : Option L.Index → Value} : Looks (X none) (.neu U n) →
    Pending K W (fun _ ↦ .const .univ) X → Built base W X (.neu U n) (unknown Z)
  | list {E : Bond K} {e Z : Option L.Index → Value} {e₀ : Value} : Bonded base E →
    (∀ i, Looks (X i) (.unary .list (e i))) → E.Type W e →
      Built base W X (.unary .list e₀) (list E Z)
  | vec {E : Bond K} {e l e' l' : Option L.Index → Value} {e₀ l₀ : Value} : Bonded base E →
    (∀ i, Looks (X i) (.binary .vec (e i) (l i))) → E.Type W e → GlueNat K W l →
      Built base W X (.binary .vec e₀ l₀) (vec E e' l')
  | equal {T : Bond K} {t x y Z : Option L.Index → Value} {t₀ x₀ y₀ : Value} : Bonded base T →
    (∀ i, Looks (X i) (.equal (t i) (x i) (y i))) → T.Type W t → T.Elem W x → T.Elem W y →
      Built base W X (.equal t₀ x₀ y₀) (equal T Z)
  | either {A B : Bond K} {a b Z : Option L.Index → Value} {a₀ b₀ : Value} :
    Bonded base A → Bonded base B →
    (∀ i, Looks (X i) (.binary .either (a i) (b i))) → A.Type W a → B.Type W b →
      Built base W X (.binary .either a₀ b₀) (either A B Z)
  | pi {A : Bond K} {B : GlueWorld L → (Option L.Index → Value) → Bond K}
    {x : Option L.Index → String} {f : Option L.Index → Closure} {d Z : Option L.Index → Value}
    {x₀ : String} {d₀ : Value} {f₀ : Closure} :
    Bonded base A → (∀ W a, A.Elem W a → Bonded base (B W a)) →
    (∀ i, Looks (X i) (.pi (x i) (d i) (f i))) → A.Type W d → Family A B W f →
      Built base W X (.pi x₀ d₀ f₀) (pi A B Z)
  | sigma {A : Bond K} {B : GlueWorld L → (Option L.Index → Value) → Bond K}
    {x : Option L.Index → String} {f : Option L.Index → Closure} {d Z : Option L.Index → Value}
    {x₀ : String} {d₀ : Value} {f₀ : Closure} :
    Bonded base A → (∀ W a, A.Elem W a → Bonded base (B W a)) →
    (∀ i, Looks (X i) (.sigma (x i) (d i) (f i))) → A.Type W d → Family A B W f →
      Built base W X (.sigma x₀ d₀ f₀) (sigma A B Z)

theorem Size.eq_univ_bond {s : Size} {S : Bond K} (h : s.bond K S) : S = Bond.univ := by
  cases s with
  | small => cases h
  | large => exact h

/-- A bond to which a type belongs was built as that type says. -/
theorem Bonded.built {base : Bond K → Prop} (hb : ∀ S, base S → S = Bond.univ) {S : Bond K}
    {X : Option L.Index → Value} (h : Bonded base S) (hX : S.code W X) :
    ∃ V, Looks (X none) V ∧ S.Built base W X V := by
  cases h with
  | base h =>
    cases hb S h
    exact ⟨_, hX none, .univ h hX⟩
  | nat => exact ⟨_, hX none, .nat hX⟩
  | atom => exact ⟨_, hX none, .atom hX⟩
  | trivial => exact ⟨_, hX none, .trivial hX⟩
  | absurd => exact ⟨_, hX none, .absurd hX⟩
  | unknown =>
    obtain ⟨U, n, hXn, -⟩ := id hX
    exact ⟨_, hXn, .unknown hXn hX⟩
  | list hE =>
    obtain ⟨e, hX, he⟩ := hX
    exact ⟨_, hX none, .list hE hX he⟩
  | vec hE =>
    obtain ⟨e, l, hX, he, hl⟩ := hX
    exact ⟨_, hX none, .vec hE hX he hl⟩
  | equal hT =>
    obtain ⟨t, x, y, hX, ht, hx, hy⟩ := hX
    exact ⟨_, hX none, .equal hT hX ht hx hy⟩
  | either hA hB =>
    obtain ⟨a, b, hX, ha, hb⟩ := hX
    exact ⟨_, hX none, .either hA hB hX ha hb⟩
  | pi hA hB =>
    obtain ⟨x, d, f, hX, hd, hf⟩ := hX
    exact ⟨_, hX none, .pi hA hB hX hd hf⟩
  | sigma hA hB =>
    obtain ⟨x, d, f, hX, hd, hf⟩ := hX
    exact ⟨_, hX none, .sigma hA hB hX hd hf⟩

theorem Bonded.mono {base base' : Bond K → Prop} (hb : ∀ S, base S → base' S) {S : Bond K}
    (h : Bonded base S) : Bonded base' S := by
  induction h with
  | base h => exact .base (hb _ h)
  | nat => exact .nat
  | atom => exact .atom
  | trivial => exact .trivial
  | absurd => exact .absurd
  | unknown => exact .unknown
  | list _ ih => exact .list ih
  | vec _ ih => exact .vec ih
  | equal _ ih => exact .equal ih
  | either _ _ ihA ihB => exact .either ihA ihB
  | pi _ _ ihA ihB => exact .pi ihA ihB
  | sigma _ _ ihA ihB => exact .sigma ihA ihB

/-! ## Bonds that agree -/

theorem Pending.conv {X Y v : Option L.Index → Value} (hK : K.Good) (h : Pending K W X v)
    (hY : K.type .large W Y) (hXY : ∀ i, SameType (L.glueModel i) (X i) (Y i)) :
    Pending K W Y v := by
  obtain ⟨T, m, hv, hT, hm⟩ := h
  exact ⟨T, m, hv, hT.trans (hXY none),
    hm.conv hK.base.toStable (hK.typeOthers hY) fun i ↦ hXY (some i)⟩

theorem OwnType.conv {X Y v : Option L.Index → Value} (h : OwnType X v)
    (hXY : ∀ i, SameType (L.glueModel i) (X i) (Y i)) : OwnType Y v :=
  fun T m hv ↦ (h T m hv).trans (hXY none)

namespace Bond

/-- Elements that belong together, at a type that belongs to their bond. -/
theorem Elem.sameOf {S : Bond K} {X v : Option L.Index → Value} (hK : K.Good) (h : S.Elem W v)
    (hX : S.Type W' X) (i : Option L.Index) : Same (L.glueModel i) (X i) (v i) (v i) :=
  (h.sameAt hK i).conv (hX.same i)

/-- What belongs to a bond belongs to another, from a world on. -/
structure Within (W : GlueWorld L) (S S' : Bond K) : Prop where
  code : ∀ {W' X}, W.le W' → S.code W' X → S'.code W' X
  same : ∀ {W' v}, W.le W' → S.same W' v → S'.same W' v

/-- The same belongs to two bonds, from a world on. -/
structure Agree (W : GlueWorld L) (S S' : Bond K) : Prop where
  type_iff : ∀ {W' X}, W.le W' → (S.Type W' X ↔ S'.Type W' X)
  elem_iff : ∀ {W' v}, W.le W' → (S.Elem W' v ↔ S'.Elem W' v)

namespace Agree

variable {S S' : Bond K}

theorem symm (h : Agree W S S') : Agree W S' S :=
  ⟨fun hW ↦ (h.type_iff hW).symm, fun hW ↦ (h.elem_iff hW).symm⟩

/-- Families that agree over a bond agree over one that agrees with it. -/
theorem flip {B B' : GlueWorld L → (Option L.Index → Value) → Bond K} (h : Agree W S S')
    (hB : ∀ W', W.le W' → ∀ a, S.Elem W' a → Agree W' (B W' a) (B' W' a)) (W' : GlueWorld L)
    (hW : W.le W') (a : Option L.Index → Value) (ha : S'.Elem W' a) :
    Agree W' (B' W' a) (B W' a) := (hB W' hW a ((h.elem_iff hW).2 ha)).symm

end Agree

section Congruence

variable (hK : K.Good) {S S' : Bond K}
  (hS : ∀ i, SameType (L.glueModel i) (S.types i) (S'.types i)) (hS' : K.type .large W S'.types)

include hS hS'

theorem Type.within {X : Option L.Index → Value} (h : S.Type W X) (hc : S'.code W X) :
    S'.Type W X :=
  ⟨fun i ↦ (hS i).symm.trans (h.same i), hS', h.side, hc⟩

include hK

theorem Elem.within {v : Option L.Index → Value} (h : S.Elem W v) (hv : S'.same W v) :
    S'.Elem W v := ⟨hK.conv h.side hS' hS, hv⟩

/-- Bonds of the same types agree if what belongs to one belongs to the other. -/
theorem Within.agree (hB : K.type .large W S.types) (h : Within W S S') (h' : Within W S' S) :
    Agree W S S' where
  type_iff hW := ⟨fun hX ↦ hX.within hS (hK.type_mono hS' hW) (h.code hW hX.code),
    fun hX ↦ hX.within (fun i ↦ (hS i).symm) (hK.type_mono hB hW) (h'.code hW hX.code)⟩
  elem_iff hW := ⟨fun hv ↦ hv.within hK hS (hK.type_mono hS' hW) (h.same hW hv.same),
    fun hv ↦ hv.within hK (fun i ↦ (hS i).symm) (hK.type_mono hB hW) (h'.same hW hv.same)⟩

end Congruence

/-- An element that waits has a type that is the same. -/
theorem Waits.within {Z Z' v : Option L.Index → Value} (hK : K.Good)
    {code code' : GlueWorld L → (Option L.Index → Value) → Prop}
    (hZ : ∀ i, SameType (L.glueModel i) (Z i) (Z' i)) (hZ' : K.type .large W Z')
    (h : Waits K ⟨Z, code, fun _ _ ↦ False⟩ W v) (hc : ∀ {X}, code W X → code' W X) :
    Waits K ⟨Z', code', fun _ _ ↦ False⟩ W v := by
  obtain ⟨T, m, hv, hT, hm⟩ := h
  exact ⟨T, m, hv, Type.within hZ hZ' hT (hc hT.code),
    hm.conv hK.base.toStable (hK.typeOthers hZ') fun i ↦ hZ (some i)⟩

/-! ## Formers of bonds that agree -/

section Formers

variable (hK : K.Good) {Z Z' : Option L.Index → Value}
  (hZ : ∀ i, SameType (L.glueModel i) (Z i) (Z' i)) (hZ' : K.type .large W Z')

theorem Within.listCode {E E' : Bond K} (h : Agree W E E') (hW : W.le W')
    {X : Option L.Index → Value} (hX : glueListCode E W' X) : glueListCode E' W' X := by
  obtain ⟨e, hX, he⟩ := hX
  exact ⟨e, hX, (h.type_iff hW).1 he⟩

include hK hZ hZ' in
theorem Within.list {E E' : Bond K} (h : Agree W E E') : Within W (list E Z) (list E' Z') where
  code hW hX := listCode h hW hX
  same := by
    intro W' v hW hv
    induction hv with
    | nil hv => exact .nil hv
    | cons hv hh _ ih => exact .cons hv ((h.elem_iff hW).1 hh) ih
    | waiting hv =>
      exact .waiting (hv.within hK hZ (hK.type_mono hZ' hW) (listCode h hW))

theorem Within.vecCode {E E' : Bond K} (h : Agree W E E') (hW : W.le W')
    {X : Option L.Index → Value} (hX : glueVecCode E W' X) : glueVecCode E' W' X := by
  obtain ⟨e, l, hX, he, hl⟩ := hX
  exact ⟨e, l, hX, (h.type_iff hW).1 he, hl⟩

include hK in
theorem Within.vec {E E' : Bond K} (h : Agree W E E') {e e' l l' : Option L.Index → Value}
    (he : ∀ i, SameType (L.glueModel i) (e i) (e' i))
    (hl : ∀ i, SameNat (L.glueModel i) (l i) (l' i))
    (hX : K.type .large W fun i ↦ .binary .vec (e' i) (l' i)) :
    Within W (vec E e l) (vec E' e' l') where
  code hW hX := vecCode h hW hX
  same := by
    intro W' v hW hv
    replace hX := hK.type_mono hX hW
    change GlueVec E e W' l v at hv
    change GlueVec E' e' W' l' v
    induction hv generalizing l' with
    | nil hlz hv => exact .nil (fun i ↦ (hl i).of_zero (hlz i)) hv
    | @cons l k v x r hlk hv hh _ ih =>
      -- the lengths are the same, so the other one is a successor as well
      choose k' hk' hkk using fun i ↦ (hl i).of_add1 (hlk i)
      obtain ⟨heK, hlK⟩ := hK.of_vec hX
      have hkK := hK.pred (hK.elem_seen hlK fun i ↦ .seen (hk' i))
      exact .cons hk' hv ((h.elem_iff hW).1 hh) (ih hkk (hK.vec heK hkK))
    | waiting hv =>
      exact .waiting (hv.within hK (fun i ↦ TypeAt.vec (he i) (hl i)) hX (vecCode h hW))

theorem Within.equalCode {T T' : Bond K} (h : Agree W T T') (hW : W.le W')
    {X : Option L.Index → Value} (hX : equalCode T W' X) : Bond.equalCode T' W' X := by
  obtain ⟨t, x, y, hX, ht, hx, hy⟩ := hX
  exact ⟨t, x, y, hX, (h.type_iff hW).1 ht, (h.elem_iff hW).1 hx, (h.elem_iff hW).1 hy⟩

include hK hZ hZ' in
theorem Within.equal {T T' : Bond K} (h : Agree W T T') :
    Within W (equal T Z) (equal T' Z') where
  code hW hX := equalCode h hW hX
  same := by
    rintro W' v hW (⟨x, hv, hx⟩ | hv)
    · exact .inl ⟨x, hv, (h.elem_iff hW).1 hx⟩
    · exact .inr (hv.within hK hZ (hK.type_mono hZ' hW) (equalCode h hW))

theorem Within.eitherCode {A A' B B' : Bond K} (hA : Agree W A A') (hB : Agree W B B')
    (hW : W.le W') {X : Option L.Index → Value} (hX : eitherCode A B W' X) :
    Bond.eitherCode A' B' W' X := by
  obtain ⟨a, b, hX, ha, hb⟩ := hX
  exact ⟨a, b, hX, (hA.type_iff hW).1 ha, (hB.type_iff hW).1 hb⟩

include hK hZ hZ' in
theorem Within.either {A A' B B' : Bond K} (hA : Agree W A A') (hB : Agree W B B') :
    Within W (either A B Z) (either A' B' Z') where
  code hW hX := eitherCode hA hB hW hX
  same := by
    rintro W' v hW (⟨x, hv, hx⟩ | ⟨x, hv, hx⟩ | hv)
    · exact .inl ⟨x, hv, (hA.elem_iff hW).1 hx⟩
    · exact .inr (.inl ⟨x, hv, (hB.elem_iff hW).1 hx⟩)
    · exact .inr (.inr (hv.within hK hZ (hK.type_mono hZ' hW) (eitherCode hA hB hW)))

include hK hZ hZ' in
theorem Within.unknown : Within W (unknown Z : Bond K) (unknown Z') where
  code _ hX := hX
  same hW hv := hv.conv hK (hK.type_mono hZ' hW) hZ

variable {A A' : Bond K} {B B' : GlueWorld L → (Option L.Index → Value) → Bond K}
  (hA : Agree W A A') (hB : ∀ W', W.le W' → ∀ a, A.Elem W' a → Agree W' (B W' a) (B' W' a))

include hK hA hB

theorem Within.family {f : Option L.Index → Closure} (hW : W.le W') (h : Family A B W' f) :
    Family A' B' W' f := by
  intro W'' hW' a ha
  have hW'' := hK.le_trans hW hW'
  have ha' := (hA.elem_iff hW'').2 ha
  obtain ⟨Y, hY, hYB⟩ := h W'' hW' a ha'
  exact ⟨Y, hY, ((hB W'' hW'' a ha').type_iff (hK.le_refl W'')).1 hYB⟩

include hZ in
theorem Within.pi : Within W (pi A B Z) (pi A' B' Z') where
  code := by
    rintro W' X hW ⟨x, d, f, hX, hd, hf⟩
    exact ⟨x, d, f, hX, (hA.type_iff hW).1 hd, family hK hA hB hW hf⟩
  same := by
    rintro W' p hW ⟨ho, h⟩
    refine ⟨ho.conv hZ, fun W'' hW' a ha ↦ ?_⟩
    have hW'' := hK.le_trans hW hW'
    have ha' := (hA.elem_iff hW'').2 ha
    obtain ⟨v, hv, hvB⟩ := h W'' hW' a ha'
    exact ⟨v, hv, ((hB W'' hW'' a ha').elem_iff (hK.le_refl W'')).1 hvB⟩

include hZ in
theorem Within.sigma : Within W (sigma A B Z) (sigma A' B' Z') where
  code := by
    rintro W' X hW ⟨x, d, f, hX, hd, hf⟩
    exact ⟨x, d, f, hX, (hA.type_iff hW).1 hd, family hK hA hB hW hf⟩
  same := by
    rintro W' p hW ⟨ho, a, e, ha, he, h⟩
    refine ⟨ho.conv hZ, a, e, ha, he, fun W'' hW' ↦ ?_⟩
    have hW'' := hK.le_trans hW hW'
    obtain ⟨haA, heB⟩ := h W'' hW'
    exact ⟨(hA.elem_iff hW'').1 haA,
      ((hB W'' hW'' a haA).elem_iff (hK.le_refl W'')).1 heB⟩

end Formers

end Bond

/-! ## All formers -/

section Agree

variable (hK : K.Good) (hF : L.Full)

include hK

/-- Bonds agree if types that are the same belong to them, and all else of one to the other. -/
theorem Bond.Agree.of_within {S S' : Bond K} {X Y : Option L.Index → Value} (hX : S.Type W X)
    (hY : S'.Type W Y) (hXY : ∀ i, SameType (L.glueModel i) (X i) (Y i))
    (h : (∀ i, SameType (L.glueModel i) (S.types i) (S'.types i)) → Within W S S')
    (h' : (∀ i, SameType (L.glueModel i) (S'.types i) (S.types i)) → Within W S' S) :
    Agree W S S' := by
  have hS : ∀ i, SameType (L.glueModel i) (S.types i) (S'.types i) := fun i ↦
    ((hX.same i).trans (hXY i)).trans (hY.same i).symm
  exact Within.agree hK hS hY.base hX.base (h hS) (h' fun i ↦ (hS i).symm)

/-- Families agree if they give types that are the same. -/
theorem Bond.Family.agree {base' : Bond K → Prop} {A A' : Bond K}
    {B B' : GlueWorld L → (Option L.Index → Value) → Bond K} {d : Option L.Index → Value}
    {f f' : Option L.Index → Closure} (hA : Agree W A A') (hd : A.Type W d) (hf : Family A B W f)
    (hf' : Family A' B' W f')
    (hff : ∀ i, FamilyAt .large (L.glueModel i) (d i) (f i) (f' i))
    (ih : ∀ W' a, A.Elem W' a → ∀ {W : GlueWorld L} {S' : Bond K} {X Y : Option L.Index → Value},
      Bonded base' S' → (B W' a).Type W X → S'.Type W Y →
        (∀ i, SameType (L.glueModel i) (X i) (Y i)) → Agree W (B W' a) S')
    (hB' : ∀ W a, A'.Elem W a → Bonded base' (B' W a)) (W' : GlueWorld L) (hW : W.le W')
    (a : Option L.Index → Value) (ha : A.Elem W' a) : Agree W' (B W' a) (B' W' a) := by
  have ha' := (hA.elem_iff hW).1 ha
  obtain ⟨Y, hY, hYB⟩ := hf W' hW a ha
  obtain ⟨Y', hY', hYB'⟩ := hf' W' hW a ha'
  refine ih W' a ha (hB' W' a ha') hYB hYB' fun i ↦ ?_
  obtain ⟨Z, Z', hZ, hZ', hZZ⟩ := hff i _ _ (ha.sameOf hK hd i)
  rw [(hY i).unique hZ, (hY' i).unique hZ']
  exact hZZ

open Bond in
/-- Bonds agree if types that are the same belong to them. -/
theorem Bonded.agree {base base' : Bond K → Prop} (hb : ∀ S, base S → S = Bond.univ)
    (hb' : ∀ S, base' S → S = Bond.univ) {S S' : Bond K} {X Y : Option L.Index → Value}
    (h : Bonded base S) (h' : Bonded base' S') (hX : S.Type W X) (hY : S'.Type W Y)
    (hXY : ∀ i, SameType (L.glueModel i) (X i) (Y i)) : Agree W S S' := by
  induction h generalizing S' X Y W with
  | base h =>
    cases hb _ h
    obtain ⟨V, hV, b⟩ := h'.built hb' hY.code
    cases ((hXY none).of_const (hX.code none)).unique hV
    cases b
    exact .of_within hK hX hY hXY (fun _ ↦ ⟨fun _ h ↦ h, fun _ h ↦ h⟩)
      fun _ ↦ ⟨fun _ h ↦ h, fun _ h ↦ h⟩
  | nat | atom | trivial | absurd =>
    obtain ⟨V, hV, b⟩ := h'.built hb' hY.code
    cases ((hXY none).of_const (hX.code none)).unique hV
    cases b
    exact .of_within hK hX hY hXY (fun _ ↦ ⟨fun _ h ↦ h, fun _ h ↦ h⟩)
      fun _ ↦ ⟨fun _ h ↦ h, fun _ h ↦ h⟩
  | unknown =>
    obtain ⟨V, hV, b⟩ := h'.built hb' hY.code
    obtain ⟨U, n, hXn, -⟩ := hX.code
    obtain ⟨U', n', hYn, -⟩ := (hXY none).of_unknown hXn
    cases hYn.unique hV
    cases b
    exact .of_within hK hX hY hXY (.unknown hK · hY.base) (.unknown hK · hX.base)
  | list _ ih =>
    obtain ⟨V, hV, b⟩ := h'.built hb' hY.code
    obtain ⟨e, hXe, he⟩ := hX.code
    obtain ⟨e', hYe, -⟩ := (hXY none).of_list (hXe none)
    cases hYe.unique hV
    cases b with
    | list hE' hYe he' =>
      have hE := ih hE' he he' fun i ↦ (hXY i).list_inj (hXe i) (hYe i)
      exact .of_within hK hX hY hXY (.list hK · hY.base hE) (.list hK · hX.base hE.symm)
  | vec _ ih =>
    obtain ⟨V, hV, b⟩ := h'.built hb' hY.code
    obtain ⟨e, l, hXe, he, -⟩ := hX.code
    obtain ⟨e', l', hYe, -⟩ := (hXY none).of_vec (hXe none)
    cases hYe.unique hV
    cases b with
    | vec hE' hYe he' =>
      have hE := ih hE' he he' fun i ↦ ((hXY i).vec_inj (hXe i) (hYe i)).1
      refine .of_within hK hX hY hXY (fun hS ↦ ?_) fun hS ↦ ?_
      · have hS' := fun i ↦ (hS i).vec_inj (.of_inSight .intro) (.of_inSight .intro)
        exact .vec hK hE (fun i ↦ (hS' i).1) (fun i ↦ (hS' i).2) hY.base
      · have hS' := fun i ↦ (hS i).vec_inj (.of_inSight .intro) (.of_inSight .intro)
        exact .vec hK hE.symm (fun i ↦ (hS' i).1) (fun i ↦ (hS' i).2) hX.base
  | equal _ ih =>
    obtain ⟨V, hV, b⟩ := h'.built hb' hY.code
    obtain ⟨t, x, y, hXt, ht, -⟩ := hX.code
    obtain ⟨t', x', y', hYt, -⟩ := (hXY none).of_equal (hXt none)
    cases hYt.unique hV
    cases b with
    | equal hT' hYt ht' =>
      have hT := ih hT' ht ht' fun i ↦ ((hXY i).equal_inj (hXt i) (hYt i)).1
      exact .of_within hK hX hY hXY (.equal hK · hY.base hT) (.equal hK · hX.base hT.symm)
  | either _ _ ihA ihB =>
    obtain ⟨V, hV, b⟩ := h'.built hb' hY.code
    obtain ⟨l, r, hXl, hl, hr⟩ := hX.code
    obtain ⟨l', r', hYl, -⟩ := (hXY none).of_either (hXl none)
    cases hYl.unique hV
    cases b with
    | either hA' hB' hYl hl' hr' =>
      have hlr := fun i ↦ (hXY i).either_inj (hXl i) (hYl i)
      have hA := ihA hA' hl hl' fun i ↦ (hlr i).1
      have hB := ihB hB' hr hr' fun i ↦ (hlr i).2
      exact .of_within hK hX hY hXY (.either hK · hY.base hA hB)
        (.either hK · hX.base hA.symm hB.symm)
  | pi _ _ ihA ihB =>
    obtain ⟨V, hV, b⟩ := h'.built hb' hY.code
    obtain ⟨x, d, f, hXd, hd, hf⟩ := hX.code
    obtain ⟨x', d', f', hYd, -⟩ := (hXY none).of_pi (hXd none)
    cases hYd.unique hV
    cases b with
    | pi hA' hB' hYd hd' hf' =>
      have hdf := fun i ↦ (hXY i).pi_inj (hXd i) (hYd i)
      have hA := ihA hA' hd hd' fun i ↦ (hdf i).1
      have hB := Family.agree hK hA hd hf hf' (fun i ↦ (hdf i).2) ihB hB'
      exact .of_within hK hX hY hXY (.pi hK · hA hB) (.pi hK · hA.symm (hA.flip hB))
  | sigma _ _ ihA ihB =>
    obtain ⟨V, hV, b⟩ := h'.built hb' hY.code
    obtain ⟨x, d, f, hXd, hd, hf⟩ := hX.code
    obtain ⟨x', d', f', hYd, -⟩ := (hXY none).of_sigma (hXd none)
    cases hYd.unique hV
    cases b with
    | sigma hA' hB' hYd hd' hf' =>
      have hdf := fun i ↦ (hXY i).sigma_inj (hXd i) (hYd i)
      have hA := ihA hA' hd hd' fun i ↦ (hdf i).1
      have hB := Family.agree hK hA hd hf hf' (fun i ↦ (hdf i).2) ihB hB'
      exact .of_within hK hX hY hXY (.sigma hK · hA hB) (.sigma hK · hA.symm (hA.flip hB))

end Agree

end LittleTypes.Idealized
