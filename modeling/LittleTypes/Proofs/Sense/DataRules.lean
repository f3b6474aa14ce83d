import LittleTypes.Proofs.Sense.Rules

/-!
# The rules of data types keep what typing guarantees

The rules for numbers, lists, sums, vectors and equalities, all but congruence.
-/

namespace LittleTypes.Elaborator.Settled

open Idealized (Size)
open Situation

variable {R : Regime} {J : Type} {o χ : Prop} {E : R.Excuse J} {φ : R.Index → Nat}
  (hφ : R.Lasts φ) (loc : Location)

include hφ

/-! ## Constants -/

theorem univ : Settled R J E o χ fun n ↦ Rule.univ (φ n) loc := by
  refine ofFormer hφ fun {S} hS ho ν inU ↦ ?_
  cases inU with
  | true => exact .stop
  | false => exact .answer ⟨.univ, .const .univ⟩

theorem plainType {k : Const}
    (hk : ∀ (S : Situation R J) (s : Size), S.TypeTerm s fun _ ↦ .const k) :
    Settled R J E o χ fun n ↦ Rule.plainType (φ n) loc k :=
  ofFormer hφ fun _ _ _ _ ↦ .answer ⟨hk _ _, .const k⟩

theorem plainValue {k : Const} {t : Term}
    (ht : ∀ S : Situation R J, S.HasType (fun _ ↦ .const k) fun _ ↦ t)
    (hs : Shared fun _ : J ↦ t) : Settled R J E o χ fun n ↦ Rule.plainValue (φ n) loc k t :=
  ofSynth hφ fun hS _ _ ↦ .answer (SharedTerm.plain hS ⟨ht _, hs⟩)

theorem nil : Settled R J E o χ fun n ↦ Rule.nil (φ n) loc := by
  refine ofCheck fun hS ho ν F v hF hv ↦ ?_
  refine (hS.expectList hφ hF hv).bind fun w ⟨e, hs, hw⟩ ↦ .answer ?_
  have he : IsType _ .large e := fun _ hL _ _ hσ ↦ hL.sound.of_list (hF.sees hS hs hL hσ)
  exact ⟨(HasType.nil he).ofSees hS hs hF, .const .nil⟩

theorem vecnil : Settled R J E o χ fun n ↦ Rule.vecnil (φ n) loc := by
  refine ofCheck fun {S} hS ho ν F v hF hv ↦ ?_
  refine (hS.expectVec hφ hF hv).bind fun ⟨ev, lv⟩ ⟨e, l, hs, hev, hlv⟩ ↦ ?_
  have hV := hF.sees hS hs
  have hl : S.IsElem (fun _ ↦ .const .nat) l := fun _ hL _ _ hσ ↦
    (hL.sound.of_vec (hV hL hσ)).2
  obtain hall | hnone := hl.zero_or_not hS
  · refine (hlv.force hall).bind fun w hw ↦ ?_
    have hz : ∀ j n, w j n = .const .zero := fun j ↦
      (hw j).zero_or_not.elim (·.2) fun h ↦ absurd rfl h.1
    simp only [hz]
    obtain ⟨t, ht, -⟩ := hS.exists_readBack hφ ν hl (means_const .nat) hlv
    exact .answer ⟨(HasType.vecnil hS hV (hl.sees_zero hS ht hall)).ofSees hS hs hF,
      .const .vecnil⟩
  · choose W hW using fun j ↦ (hl.self (hS.hasHere j)).looks
    refine (hlv.force hW).bind fun w hw ↦ ?_
    have hz : ∀ j n, w j n ≠ .const .zero := fun j ↦
      (hw j).zero_or_not.elim (fun h ↦ absurd (h.1 ▸ hW j) (hnone j)) (·.2)
    have h : R.Meets E R.steady (fun j n ↦ (S.scope ν j n).readBack (φ n) (.const .nat) (lv j n) >>=
        fun t ↦ .stop .wrongShape loc ["vecnil requires length zero, but the length is", t])
        (S.SharedTerm F) :=
      (hS.readBack hφ hl (means_const .nat) hlv).andThen fun _ _ ↦ .stop
    refine h.of_eq fun j n ↦ ?_
    split
    · exact absurd ‹_› (hz j n)
    · rfl

theorem const (k : Const) : Settled R J E o χ fun n ↦ Rule.const (φ n) loc k := by
  cases k with
  | univ => exact univ hφ loc
  | nat => exact plainType hφ loc fun _ _ ↦ TypeTerm.nat
  | atom => exact plainType hφ loc fun _ _ ↦ TypeTerm.atom
  | trivial => exact plainType hφ loc fun _ _ ↦ TypeTerm.trivial
  | absurd => exact plainType hφ loc fun _ _ ↦ TypeTerm.absurd
  | zero => exact plainValue hφ loc (fun _ ↦ HasType.zero) (.const .zero)
  | sole => exact plainValue hφ loc (fun _ ↦ HasType.sole) (.const .sole)
  | nil => exact nil hφ loc
  | vecnil => exact vecnil hφ loc

theorem quote (x : String) : Settled R J E o χ fun n ↦ Rule.quote (φ n) loc x := by
  refine ofSynth hφ fun hS ho ν ↦ ?_
  by_cases hx : isAtomSymbol x
  · simp only [hx, if_true]
    exact .answer (SharedTerm.plain hS ⟨.quote x, .quote x⟩)
  · simp only [hx]
    exact .stop

/-! ## Constructors -/

section Constructors

variable {a b c : R.Index → Elaborator} (ha : Sound R J E o a) (hb : Sound R J E o b)
  (hc : Sound R J E o c)

include ha

theorem add1 : Settled R J E o χ fun n ↦ Rule.add1 (φ n) loc (a n) := by
  refine ofSynth hφ fun hS ho ν ↦ ?_
  refine (ha.check hS ho ν isType_nat (means_const .nat)).andThen fun t ht ↦ .answer ?_
  exact SharedTerm.plain hS ⟨ht.elem.add1 hS, ht.shared.unary .add1⟩

theorem list : Settled R J E o χ fun n ↦ Rule.list (φ n) loc (a n) :=
  ofFormer hφ fun hS ho ν inU ↦ (ha.component inU hS ho ν).andThen fun _ ht ↦
    .answer ⟨ht.type.list hS, ht.shared.unary .list⟩

theorem same : Settled R J E o χ fun n ↦ Rule.same (φ n) loc (a n) := by
  refine ofCheck fun hS ho ν F v hF hv ↦ ?_
  refine (hS.expectEqual hφ hF hv).bind fun ⟨tv, lv, rv⟩ ⟨d, x, y, hs, htv, hlv, hrv⟩ ↦ ?_
  have hE := hF.sees hS hs
  obtain ⟨hd, hx, hy⟩ := hE.of_equal
  refine (ha.check hS ho ν hd htv).andThen fun t ht ↦ (hS.eval hφ ht.elem).bind fun w hw ↦ ?_
  refine (hS.convert hφ hx ht.elem.isElem htv hlv hw).bind fun _ hl ↦ ?_
  refine (hS.convert hφ hy ht.elem.isElem htv hrv hw).bind fun _ hr ↦ .answer ?_
  exact ⟨(HasType.same hS hE ht.elem hl hr).ofSees hS hs hF, ht.shared.unary .same⟩

theorem left : Settled R J E o χ fun n ↦ Rule.left (φ n) loc (a n) := by
  refine ofCheck fun hS ho ν F v hF hv ↦ ?_
  refine (hS.expectEither hφ hF hv).bind fun ⟨lv, rv⟩ ⟨l, r, hs, hlv, hrv⟩ ↦ ?_
  obtain ⟨hl, hr⟩ := (hF.sees hS hs).of_either
  exact (ha.check hS ho ν hl hlv).andThen fun t ht ↦
    .answer ⟨(HasType.left hS hr ht.elem).ofSees hS hs hF, ht.shared.unary .left⟩

theorem right : Settled R J E o χ fun n ↦ Rule.right (φ n) loc (a n) := by
  refine ofCheck fun hS ho ν F v hF hv ↦ ?_
  refine (hS.expectEither hφ hF hv).bind fun ⟨lv, rv⟩ ⟨l, r, hs, hlv, hrv⟩ ↦ ?_
  obtain ⟨hl, hr⟩ := (hF.sees hS hs).of_either
  exact (ha.check hS ho ν hr hrv).andThen fun t ht ↦
    .answer ⟨(HasType.right hS hl ht.elem).ofSees hS hs hF, ht.shared.unary .right⟩

theorem unary (k : Unary) : Settled R J E o χ fun n ↦ Rule.unary (φ n) loc k (a n) := by
  cases k with
  | add1 => exact add1 hφ loc ha
  | list => exact list hφ loc ha
  | same => exact same hφ loc ha
  | left => exact left hφ loc ha
  | right => exact right hφ loc ha

include hb

theorem listCons : Settled R J E o χ fun n ↦ Rule.listCons (φ n) loc (a n) (b n) := by
  refine ofSynth hφ fun {S} hS ho ν ↦ (ha.synth hS ho ν).andThen fun k hk ↦ ?_
  refine (hS.evalType hφ hk.type.type).bind fun v hv ↦ ?_
  have hL : S.IsType .large fun σ ↦ .unary .list (Sense.ofTerm (fun j ↦ (k j).type) σ) :=
    fun _ hL _ _ hσ ↦ hL.sound.list (hk.type.type.isType hL hσ)
  have hLv : S.Means (fun j n ↦ .unary .list (v j n)) fun σ ↦
      .unary .list (Sense.ofTerm (fun j ↦ (k j).type) σ) := fun j ↦ .unary .list (hv j)
  refine (hb.check hS ho ν hL hLv).andThen fun t ht ↦ ?_
  exact hS.judge hφ hLv
    ⟨hk.term.elem.listCons hS ht.elem, hk.term.shared.binary ht.shared .listCons⟩

theorem vec : Settled R J E o χ fun n ↦ Rule.vec (φ n) loc (a n) (b n) :=
  ofFormer hφ fun hS ho ν inU ↦ (ha.component inU hS ho ν).andThen fun _ ht ↦
    (hb.check hS ho ν isType_nat (means_const .nat)).andThen fun _ hu ↦
      .answer ⟨ht.type.vec hS hu.elem, ht.shared.binary hu.shared .vec⟩

theorem vecCons : Settled R J E o χ fun n ↦ Rule.vecCons (φ n) loc (a n) (b n) := by
  refine ofCheck fun {S} hS ho ν F v hF hv ↦ ?_
  refine (hS.expectVec hφ hF hv).bind fun ⟨ev, lv⟩ ⟨e, l, hs, hev, hlv⟩ ↦ ?_
  have hV := hF.sees hS hs
  obtain ⟨he, hl⟩ := hV.of_vec
  refine (hS.expectAdd1 hφ hl hlv).bind fun kv ⟨k, hlk, hkv⟩ ↦ ?_
  have hT : S.IsType .large fun σ ↦ .binary .vec (e σ) (k σ) := fun _ hL _ _ hσ ↦
    hL.sound.vec (he hL hσ) (hL.sound.pred (hL.sound.elem_seen (hl hL hσ) fun i ↦
      .seen (hlk.at hS hL hσ i)))
  refine (ha.check hS ho ν he hev).andThen fun t ht ↦ ?_
  refine (hb.check hS ho ν hT fun j ↦ .binary .vec (hev j) (hkv j)).andThen fun u hu ↦ ?_
  exact .answer ⟨(HasType.vecCons hS hV hlk ht.elem hu.elem).ofSees hS hs hF,
    ht.shared.binary hu.shared .vecCons⟩

theorem either : Settled R J E o χ fun n ↦ Rule.either (φ n) loc (a n) (b n) :=
  ofFormer hφ fun hS ho ν inU ↦ (ha.component inU hS ho ν).andThen fun _ ht ↦
    (hb.component inU hS ho ν).andThen fun _ hu ↦
      .answer ⟨ht.type.either hS hu.type, ht.shared.binary hu.shared .either⟩

theorem binary (k : Binary) : Settled R J E o χ fun n ↦ Rule.binary (φ n) loc k (a n) (b n) := by
  cases k with
  | cons => exact cons hφ loc ha hb
  | listCons => exact listCons hφ loc ha hb
  | vec => exact vec hφ loc ha hb
  | vecCons => exact vecCons hφ loc ha hb
  | either => exact either hφ loc ha hb

include hc

theorem equal : Settled R J E o χ fun n ↦ Rule.equal (φ n) loc (a n) (b n) (c n) :=
  ofFormer hφ fun hS ho ν inU ↦ (ha.component inU hS ho ν).andThen fun _ ht ↦
    (hS.evalType hφ ht.type).bind fun _ hv ↦
      (hb.check hS ho ν ht.large.type.isType hv).andThen fun _ hx ↦
        (hc.check hS ho ν ht.large.type.isType hv).andThen fun _ hy ↦
          .answer ⟨ht.type.equal hS hx.elem hy.elem, ht.shared.equal hx.shared hy.shared⟩

end Constructors

/-! ## Numbers and lists -/

omit hφ in
theorem isType_recursorStep {S : Situation R J} (k : Recursor) {e B : Sense J}
    (he : k = .recList → S.IsType .large e) (hB : S.IsType .large B) :
    S.IsType .large fun σ ↦ .recursorStep (e σ) (B σ) k := fun _ hL _ _ hσ ↦
  (hL.sound.recursorStepLike k (fun hk ↦ he hk hL hσ)
    ⟨hB hL hσ, fun i ↦ (hL.sound.typeAt (hB hL hσ) i).sameType⟩).type

section Elimination

variable {t m b c : R.Index → Elaborator} (ht : Sound R J E o t) (hm : Sound R J E o m)
  (hb : Sound R J E o b) (hc : Sound R J E o c)

include ht

section Recursion

variable (hbase : Settled R J E o χ b)

include hc hbase

/-- Recursion on numbers, with a step whose type is what it should be.  The type of the base is
passed on as it is, so it is settled if that of the base is. -/
theorem natRecursor {k : Recursor} (hk : ∀ e, .const .nat = Idealized.Value.recursorTarget e k)
    {stepType : Value → Value} (hs : ∀ {θ : Levels} {v : R.Index → Value} {V : Idealized.Value},
      Stands R θ .value v V →
        Stands R θ .value (fun n ↦ stepType (v n)) (.recursorStep (.const .nat) V k)) :
    Settled R J E o χ fun n ↦ Rule.natRecursor (φ n) loc k stepType (t n) (b n) (c n) := by
  refine ofSynth hφ fun hS ho ν ↦ ?_
  refine (ht.check hS ho ν isType_nat (means_const .nat)).andThen fun t ht ↦ ?_
  refine (hbase.settled hS ho ν).andThen fun q hq ↦ (hS.evalType hφ hq.type.type).bind fun v hv ↦ ?_
  have hB := hq.type.type.isType
  refine (hc.check hS ho ν (isType_recursorStep k (fun _ ↦ isType_nat) hB) fun j ↦
    hs (hv j)).andThen fun u hu ↦ .answer ⟨⟨hq.type, ?_, ?_⟩, hq.normal⟩
  · exact HasType.recursor hS k (by simpa only [← hk] using ht.elem) hq.type.type hq.term.elem
      hu.elem
  · exact ht.shared.recursor hq.type.shared hq.term.shared hu.shared k

theorem recList : Settled R J E o χ fun n ↦ Rule.recList (φ n) loc (t n) (b n) (c n) := by
  refine ofSynth hφ fun hS ho ν ↦ (ht.synth hS ho ν).andThen fun p hp ↦ ?_
  refine (hS.evalType hφ hp.type.type).bind fun w hw ↦ ?_
  obtain ⟨a, ha⟩ := ht.loc
  simp only [ha]
  refine (hS.expectList hφ hp.type.type.isType hw).bind fun ev ⟨e, hs, hev⟩ ↦ ?_
  have htE := hp.term.elem.sees hS hs
  refine (hbase.settled hS ho ν).andThen fun q hq ↦ (hS.evalType hφ hq.type.type).bind fun v hv ↦ ?_
  refine (hc.check hS ho ν (isType_recursorStep .recList (fun _ ↦ htE.isType.of_list)
    hq.type.type.isType) fun j ↦ .arrow _ (hev j) (.arrow _ (.unary .list (hev j))
      (.arrow _ (hv j) (hv j)))).andThen fun u hu ↦ .answer ⟨⟨hq.type, ?_, ?_⟩, hq.normal⟩
  · exact HasType.recursor hS .recList htE hq.type.type hq.term.elem hu.elem
  · exact hp.term.shared.recursor hq.type.shared hq.term.shared hu.shared .recList

theorem recursor (k : Recursor) :
    Settled R J E o χ fun n ↦ Rule.recursor (φ n) loc k (t n) (b n) (c n) := by
  cases k with
  | whichNat =>
    exact natRecursor hφ loc ht hc hbase (fun _ ↦ rfl) fun hv ↦ .arrow _ (.const .nat) hv
  | iterNat => exact natRecursor hφ loc ht hc hbase (fun _ ↦ rfl) fun hv ↦ .arrow _ hv hv
  | recNat =>
    exact natRecursor hφ loc ht hc hbase (fun _ ↦ rfl) fun hv ↦
      .arrow _ (.const .nat) (.arrow _ hv hv)
  | recList => exact recList hφ loc ht hc hbase

end Recursion

include hm

section Induction

include hb hc

theorem indNat : Settled R J E o χ fun n ↦ Rule.indNat (φ n) loc (t n) (m n) (b n) (c n) := by
  refine ofSynth hφ fun {S} hS ho ν ↦ ?_
  refine (ht.check hS ho ν isType_nat (means_const .nat)).andThen fun t ht ↦ ?_
  have hM : S.IsType .large fun _ ↦ .indNatMotive := fun _ hL _ _ _ ↦ hL.sound.indNatMotive
  refine (hm.check hS ho ν hM fun j ↦ .arrow _ (.const .nat) (.const .univ)).andThen fun m hm ↦ ?_
  have hmE := hm.elem.isElem
  refine (hS.eval hφ hm.elem).bind fun mv hmv ↦ ?_
  refine (hS.apply hφ hmE IsElem.zero hmv (means_const .zero)).bind fun v hv ↦ ?_
  refine (hb.check hS ho ν (fun _ hL _ _ hσ ↦ hL.sound.type_large
    (hL.sound.motiveType (hmE hL hσ) hL.sound.zero)) hv).andThen fun b hb ↦ ?_
  have hC : S.IsType .large fun σ ↦ .indNatStep (Sense.ofTerm m σ) := fun _ hL _ _ hσ ↦
    hL.sound.indNatStep (hmE hL hσ)
  refine (hc.check hS ho ν hC fun j ↦ .pi _ (.const .nat) (.natStep (hmv j))).andThen
    fun c hc ↦ ?_
  refine (hS.eval hφ ht.elem).bind fun w hw ↦ ?_
  refine (hS.apply hφ hmE ht.elem.isElem hmv hw).bind fun u hu ↦ hS.judge hφ hu ?_
  exact ⟨ht.elem.indNat hS hm.elem hb.elem hc.elem,
    ht.shared.induct hm.shared hb.shared hc.shared .indNat⟩

theorem indList : Settled R J E o χ fun n ↦ Rule.indList (φ n) loc (t n) (m n) (b n) (c n) := by
  refine ofSynth hφ fun {S} hS ho ν ↦ (ht.synth hS ho ν).andThen fun p hp ↦ ?_
  refine (hS.evalType hφ hp.type.type).bind fun w hw ↦ ?_
  obtain ⟨a, ha⟩ := ht.loc
  simp only [ha]
  refine (hS.expectList hφ hp.type.type.isType hw).bind fun ev ⟨e, hs, hev⟩ ↦ ?_
  have htE := hp.term.elem.sees hS hs
  have he := htE.isType.of_list
  have hM : S.IsType .large fun σ ↦ .indListMotive (e σ) := fun _ hL _ _ hσ ↦
    hL.sound.indListMotive (he hL hσ)
  refine (hm.check hS ho ν hM fun j ↦ .arrow _ (.unary .list (hev j)) (.const .univ)).andThen
    fun m hm ↦ ?_
  have hmE := hm.elem.isElem
  refine (hS.eval hφ hm.elem).bind fun mv hmv ↦ ?_
  have hnil : S.IsElem (fun σ ↦ .unary .list (e σ)) fun _ ↦ .const .nil := fun _ hL _ _ hσ ↦
    hL.sound.nil (he hL hσ)
  refine (hS.apply hφ hmE hnil hmv (means_const .nil)).bind fun v hv ↦ ?_
  refine (hb.check hS ho ν (fun _ hL _ _ hσ ↦ hL.sound.type_large
    (hL.sound.motiveType (hmE hL hσ) (hnil hL hσ))) hv).andThen fun b hb ↦ ?_
  have hC : S.IsType .large fun σ ↦ .indListStep (e σ) (Sense.ofTerm m σ) := fun _ hL _ _ hσ ↦
    hL.sound.indListStep (he hL hσ) (hmE hL hσ)
  refine (hc.check hS ho ν hC fun j ↦ .pi _ (hev j) (.listStep (hev j) (hmv j))).andThen
    fun c hc ↦ ?_
  refine (hS.eval hφ hp.term.elem).bind fun w hw ↦ ?_
  refine (hS.apply hφ hmE htE.isElem hmv hw).bind fun u hu ↦ hS.judge hφ hu ?_
  exact ⟨htE.indList hS hm.elem hb.elem hc.elem,
    hp.term.shared.induct hm.shared hb.shared hc.shared .indList⟩

/-! ## Sums and the empty type -/

theorem indEither : Settled R J E o χ fun n ↦ Rule.indEither (φ n) loc (t n) (m n) (b n) (c n) := by
  refine ofSynth hφ fun {S} hS ho ν ↦ (ht.synth hS ho ν).andThen fun p hp ↦ ?_
  refine (hS.evalType hφ hp.type.type).bind fun w hw ↦ ?_
  obtain ⟨a, ha⟩ := ht.loc
  simp only [ha]
  refine (hS.expectEither hφ hp.type.type.isType hw).bind fun ⟨lv, rv⟩ ⟨l, r, hs, hlv, hrv⟩ ↦ ?_
  have htE := hp.term.elem.sees hS hs
  obtain ⟨hl, hr⟩ := htE.isType.of_either
  have hM : S.IsType .large fun σ ↦ .indEitherMotive (l σ) (r σ) := fun _ hL _ _ hσ ↦
    hL.sound.indEitherMotive (hl hL hσ) (hr hL hσ)
  refine (hm.check hS ho ν hM fun j ↦ .arrow _ (.binary .either (hlv j) (hrv j))
    (.const .univ)).andThen fun m hm ↦ ?_
  have hmE := hm.elem.isElem
  refine (hS.eval hφ hm.elem).bind fun mv hmv ↦ ?_
  have hB : S.IsType .large fun σ ↦ .indEitherCase .left (l σ) (Sense.ofTerm m σ) :=
    fun _ hL _ _ hσ ↦ hL.sound.indEitherLeft (hl hL hσ) (hr hL hσ) (hmE hL hσ)
  have hC : S.IsType .large fun σ ↦ .indEitherCase .right (r σ) (Sense.ofTerm m σ) :=
    fun _ hL _ _ hσ ↦ hL.sound.indEitherRight (hl hL hσ) (hr hL hσ) (hmE hL hσ)
  refine (hb.check hS ho ν hB fun j ↦ .pi _ (hlv j) (.eitherCase .left (hmv j))).andThen
    fun b hb ↦ ?_
  refine (hc.check hS ho ν hC fun j ↦ .pi _ (hrv j) (.eitherCase .right (hmv j))).andThen
    fun c hc ↦ ?_
  refine (hS.eval hφ hp.term.elem).bind fun w hw ↦ ?_
  refine (hS.apply hφ hmE htE.isElem hmv hw).bind fun u hu ↦ hS.judge hφ hu ?_
  exact ⟨htE.indEither hS hm.elem hb.elem hc.elem,
    hp.term.shared.induct hm.shared hb.shared hc.shared .indEither⟩

theorem induct (k : Induction) :
    Settled R J E o χ fun n ↦ Rule.induct (φ n) loc k (t n) (m n) (b n) (c n) := by
  cases k with
  | indNat => exact indNat hφ loc ht hm hb hc
  | indList => exact indList hφ loc ht hm hb hc
  | indEither => exact indEither hφ loc ht hm hb hc

end Induction

/-- The motive is passed on as it is, and nothing makes it a normal form. -/
theorem indAbsurd (hχ : ¬χ) : Settled R J E o χ fun n ↦ Rule.indAbsurd (φ n) loc (t n) (m n) := by
  refine ofSynth hφ fun hS ho ν ↦ ?_
  refine (ht.check hS ho ν (fun _ hL _ _ _ ↦ hL.sound.absurd) (means_const .absurd)).andThen
    fun t ht ↦ (hm.isType hS ho ν).andThen fun m hm ↦ .answer ?_
  exact ⟨⟨hm, ht.elem.indAbsurd hS hm.type, ht.shared.indAbsurd hm.shared⟩, (absurd · hχ)⟩

end Elimination

/-! ## Equalities -/

section Equality

variable {p q m b : R.Index → Elaborator} (hp : Sound R J E o p) (hq : Sound R J E o q)
  (hm : Sound R J E o m) (hb : Sound R J E o b) {S : Situation R J}

include hp

omit loc in
/-- An expression whose type is an equality. -/
theorem synthEqual (hS : S.Coherent) (ho : o → S.unfinished) (ν : Renaming) :
    R.Meets E (fun (a : (J → Term) × (J → R.Index → Value) × (J → R.Index → Value) ×
        (J → R.Index → Value)) j n ↦ (a.1 j, a.2.1 j n, a.2.2.1 j n, a.2.2.2 j n))
      (fun j n ↦ Rule.synthEqual (φ n) (p n) (S.scope ν j n)) fun a ↦ ∃ d x y : Sense J,
        S.SharedTerm (fun σ ↦ .equal (d σ) (x σ) (y σ)) a.1 ∧ S.Means a.2.1 d ∧
          S.Means a.2.2.1 x ∧ S.Means a.2.2.2 y := by
  refine (hp.synth hS ho ν).andThen fun k hk ↦ (hS.evalType hφ hk.type.type).bind fun v hv ↦ ?_
  obtain ⟨a, ha⟩ := hp.loc
  simp only [ha]
  refine (hS.expectEqual hφ hk.type.type.isType hv).bind
    fun ⟨tv, lv, rv⟩ ⟨d, x, y, hs, htv, hlv, hrv⟩ ↦ ?_
  exact .pure (b := (fun j ↦ (k j).term, tv, lv, rv))
    ⟨d, x, y, ⟨hk.term.elem.sees hS hs, hk.term.shared⟩, htv, hlv, hrv⟩

theorem symm : Settled R J E o χ fun n ↦ Rule.symm (φ n) loc (p n) := by
  refine ofSynth hφ fun hS ho ν ↦ (synthEqual hφ hp hS ho ν).bind
    fun ⟨t, dv, xv, yv⟩ ⟨d, x, y, ht, hdv, hxv, hyv⟩ ↦ ?_
  exact hS.judge hφ (fun j ↦ .equal (hdv j) (hyv j) (hxv j)) ⟨ht.elem.symm, ht.shared.project .symm⟩

include hq in
theorem trans : Settled R J E o χ fun n ↦ Rule.trans (φ n) loc (p n) (q n) := by
  refine ofSynth hφ fun {S} hS ho ν ↦ (synthEqual hφ hp hS ho ν).bind
    fun ⟨t, dv, xv, yv⟩ ⟨d, x, y, ht, hdv, hxv, hyv⟩ ↦ ?_
  refine (synthEqual hφ hq hS ho ν).bind
    fun ⟨u, ev, yv', zv⟩ ⟨e, y', z, hu, hev, hyv', hzv⟩ ↦ ?_
  obtain ⟨hd, hx, hy⟩ := ht.elem.isType.of_equal
  obtain ⟨he, hy', hz⟩ := hu.elem.isType.of_equal
  refine (hS.sameType hφ he hd hev hdv).bind fun _ hed ↦ ?_
  have hy'd := hy'.conv hS hd hed
  have hzd := hz.conv hS hd hed
  refine (hS.convert hφ hy hy'd hdv hyv hyv').bind fun _ hyy ↦ ?_
  -- the second equality, with the type and the middle of the first
  have hu' : S.HasType (fun σ ↦ .equal (d σ) (y σ) (z σ)) u := by
    refine hu.elem.conv hS (fun _ hL _ _ hσ ↦ hL.sound.equal (hd hL hσ) (hy hL hσ) (hzd hL hσ)) ?_
    exact fun o σ hσ ↦ Idealized.TypeAt.equal (hed hσ) ((hyy hσ).symm.conv (hed hσ).symm)
      (hz.self hσ)
  exact hS.judge hφ (fun j ↦ .equal (hdv j) (hxv j) (hzv j))
    ⟨ht.elem.trans hu', ht.shared.trans hu.shared⟩

include hm hb

theorem replace : Settled R J E o χ fun n ↦ Rule.replace (φ n) loc (p n) (m n) (b n) := by
  refine ofSynth hφ fun {S} hS ho ν ↦ (synthEqual hφ hp hS ho ν).bind
    fun ⟨t, dv, xv, yv⟩ ⟨d, x, y, ht, hdv, hxv, hyv⟩ ↦ ?_
  obtain ⟨hd, hx, hy⟩ := ht.elem.isType.of_equal
  have hM : S.IsType .large fun σ ↦ .replaceMotive (d σ) := fun _ hL _ _ hσ ↦
    hL.sound.replaceMotive (hd hL hσ)
  refine (hm.check hS ho ν hM fun j ↦ .arrow _ (hdv j) (.const .univ)).andThen fun m hm ↦ ?_
  have hmE := hm.elem.isElem
  refine (hS.eval hφ hm.elem).bind fun mv hmv ↦ ?_
  refine (hS.apply hφ hmE hx hmv hxv).bind fun v hv ↦ ?_
  refine (hb.check hS ho ν (fun _ hL _ _ hσ ↦ hL.sound.type_large
    (hL.sound.motiveType (hmE hL hσ) (hx hL hσ))) hv).andThen fun b hb ↦ ?_
  refine (hS.apply hφ hmE hy hmv hyv).bind fun u hu ↦ hS.judge hφ hu ?_
  exact ⟨ht.elem.replace hS hm.elem hb.elem, ht.shared.transport hm.shared hb.shared .replace⟩

theorem indEqual : Settled R J E o χ fun n ↦ Rule.indEqual (φ n) loc (p n) (m n) (b n) := by
  refine ofSynth hφ fun {S} hS ho ν ↦ (synthEqual hφ hp hS ho ν).bind
    fun ⟨t, dv, xv, yv⟩ ⟨d, x, y, ht, hdv, hxv, hyv⟩ ↦ ?_
  obtain ⟨hd, hx, hy⟩ := ht.elem.isType.of_equal
  have hM : S.IsType .large fun σ ↦ .indEqualMotive (d σ) (x σ) := fun _ hL _ _ hσ ↦
    hL.sound.indEqualMotive (hd hL hσ) (hx hL hσ)
  refine (hm.check hS ho ν hM fun j ↦ .pi _ (hdv j) (.equalMotive (hdv j) (hxv j))).andThen
    fun m hm ↦ ?_
  have hmE := hm.elem.isElem
  refine (hS.eval hφ hm.elem).bind fun mv hmv ↦ ?_
  have hrefl : S.IsElem (fun σ ↦ .equal (d σ) (x σ) (x σ)) fun σ ↦ .unary .same (x σ) :=
    fun _ hL _ _ hσ ↦ hL.sound.refl (hx hL hσ)
  have hmx := hm.elem.equalMotive_elem hx
  have hmy := hm.elem.equalMotive_elem hy
  refine (hS.apply hφ hmE hx hmv hxv).bind fun v hv ↦ ?_
  refine (hS.apply hφ hmx hrefl hv fun j ↦ .unary .same (hxv j)).bind fun w hw ↦ ?_
  refine (hb.check hS ho ν (fun _ hL _ _ hσ ↦ hL.sound.type_large
    (hL.sound.motiveType (hmx hL hσ) (hrefl hL hσ))) hw).andThen fun b hb ↦ ?_
  refine (hS.apply hφ hmE hy hmv hyv).bind fun v hv ↦ (hS.eval hφ ht.elem).bind fun tv htv ↦ ?_
  refine (hS.apply hφ hmy ht.elem.isElem hv htv).bind fun u hu ↦ hS.judge hφ hu ?_
  exact ⟨ht.elem.indEqual hS hm.elem hb.elem, ht.shared.transport hm.shared hb.shared .indEqual⟩

theorem transport (k : Transport) :
    Settled R J E o χ fun n ↦ Rule.transport (φ n) loc k (p n) (m n) (b n) := by
  cases k with
  | replace => exact replace hφ loc hp hm hb
  | indEqual => exact indEqual hφ loc hp hm hb

end Equality

/-! ## Vectors -/

section Vectors

variable {l t m b c : R.Index → Elaborator} (hl : Sound R J E o l) (ht : Sound R J E o t)
  (hm : Sound R J E o m) (hb : Sound R J E o b) (hc : Sound R J E o c) {S : Situation R J}

include ht

omit loc in
/-- A vector that is known not to be empty. -/
theorem synthNonEmpty (hS : S.Coherent) (ho : o → S.unfinished) (ν : Renaming) :
    R.Meets E (fun (a : (J → Term) × (J → R.Index → Value) × (J → R.Index → Value)) j n ↦
        (a.1 j, a.2.1 j n, a.2.2 j n))
      (fun j n ↦ Rule.synthNonEmpty (φ n) (t n) (S.scope ν j n)) fun a ↦ ∃ e k : Sense J,
        S.SharedTerm (fun σ ↦ .binary .vec (e σ) (.unary .add1 (k σ))) a.1 ∧ S.Means a.2.1 e ∧
          S.Means a.2.2 k := by
  refine (ht.synth hS ho ν).andThen fun p hp ↦ (hS.evalType hφ hp.type.type).bind fun v hv ↦ ?_
  obtain ⟨a, ha⟩ := ht.loc
  simp only [ha]
  refine (hS.expectVec hφ hp.type.type.isType hv).bind fun ⟨ev, lv⟩ ⟨e, l, hs, hev, hlv⟩ ↦ ?_
  have htE := hp.term.elem.sees hS hs
  obtain ⟨he, hl⟩ := htE.isType.of_vec
  refine (hS.expectAdd1 hφ hl hlv).bind fun kv ⟨k, hlk, hkv⟩ ↦ ?_
  have hT : S.IsType .large fun σ ↦ .binary .vec (e σ) (.unary .add1 (k σ)) := fun _ hL _ _ hσ ↦
    hL.sound.vec (he hL hσ) (hL.sound.elem_seen (hl hL hσ) fun i ↦ .seen (hlk.at hS hL hσ i))
  exact .pure (b := (fun j ↦ (p j).term, ev, kv)) ⟨e, k, ⟨htE.conv hS hT fun _ _ hσ ↦
    (htE.isType.vec_conv hlk hσ).symm, hp.term.shared⟩, hev, hkv⟩

theorem head : Settled R J E o χ fun n ↦ Rule.head (φ n) loc (t n) := by
  refine ofSynth hφ fun hS ho ν ↦ (synthNonEmpty hφ ht hS ho ν).bind
    fun ⟨t, ev, kv⟩ ⟨e, k, ht, hev, hkv⟩ ↦ ?_
  exact hS.judge hφ hev ⟨ht.elem.head, ht.shared.project .head⟩

theorem tail : Settled R J E o χ fun n ↦ Rule.tail (φ n) loc (t n) := by
  refine ofSynth hφ fun hS ho ν ↦ (synthNonEmpty hφ ht hS ho ν).bind
    fun ⟨t, ev, kv⟩ ⟨e, k, ht, hev, hkv⟩ ↦ ?_
  exact hS.judge hφ (fun j ↦ .binary .vec (hev j) (hkv j)) ⟨ht.elem.tail, ht.shared.project .tail⟩

theorem project (k : Projection) : Settled R J E o χ fun n ↦ Rule.project (φ n) loc k (t n) := by
  cases k with
  | car => exact car hφ loc ht
  | cdr => exact cdr hφ loc ht
  | symm => exact symm hφ loc ht
  | head => exact head hφ loc ht
  | tail => exact tail hφ loc ht

include hl hm hb hc

theorem indVec : Settled R J E o χ fun n ↦ Rule.indVec (φ n) loc (l n) (t n) (m n) (b n) (c n) := by
  refine ofSynth hφ fun {S} hS ho ν ↦ ?_
  obtain ⟨a, ha⟩ := hl.loc
  refine (hl.check hS ho ν isType_nat (means_const .nat)).andThen fun l hl ↦ ?_
  refine (ht.synth hS ho ν).andThen fun p hp ↦ (hS.evalType hφ hp.type.type).bind fun v hv ↦ ?_
  obtain ⟨a', ha'⟩ := ht.loc
  simp only [ha, ha']
  refine (hS.expectVec hφ hp.type.type.isType hv).bind fun ⟨ev, kv⟩ ⟨e, k, hs, hev, hkv⟩ ↦ ?_
  have htE := hp.term.elem.sees hS hs
  obtain ⟨he, hk⟩ := htE.isType.of_vec
  refine (hS.eval hφ hl.elem).bind fun lv hlv ↦ ?_
  refine (hS.convert hφ hl.elem.isElem hk (means_const .nat) hlv hkv).bind fun _ hlk ↦ ?_
  -- the vector has the length that is given
  have htl : S.HasType (fun σ ↦ .binary .vec (e σ) (Sense.ofTerm l σ)) fun j ↦ (p j).term :=
    htE.conv hS (fun _ hL _ _ hσ ↦ hL.sound.vec (he hL hσ) (hl.elem.isElem hL hσ)) fun _ _ hσ ↦
      Idealized.TypeAt.vec (he.self hσ).sameType (hlk hσ).symm.sameNat
  have hM : S.IsType .large fun σ ↦ .indVecMotive (e σ) := fun _ hL _ _ hσ ↦
    hL.sound.indVecMotive (he hL hσ)
  refine (hm.check hS ho ν hM fun j ↦ .pi _ (.const .nat) (.vecMotive (hev j))).andThen
    fun m hm ↦ ?_
  have hmE := hm.elem.isElem
  refine (hS.eval hφ hm.elem).bind fun mv hmv ↦ ?_
  have hmz := hm.elem.vecMotive_elem IsElem.zero
  have hml := hm.elem.vecMotive_elem hl.elem.isElem
  have hnil : S.IsElem (fun σ ↦ .binary .vec (e σ) (.const .zero)) fun _ ↦ .const .vecnil :=
    fun _ hL _ _ hσ ↦ hL.sound.vecnil (he hL hσ)
  refine (hS.apply hφ hmE IsElem.zero hmv (means_const .zero)).bind fun v hv ↦ ?_
  refine (hS.apply hφ hmz hnil hv (means_const .vecnil)).bind fun w hw ↦ ?_
  refine (hb.check hS ho ν (fun _ hL _ _ hσ ↦ hL.sound.type_large
    (hL.sound.motiveType (hmz hL hσ) (hnil hL hσ))) hw).andThen fun b hb ↦ ?_
  have hC : S.IsType .large fun σ ↦ .indVecStep (e σ) (Sense.ofTerm m σ) := fun _ hL _ _ hσ ↦
    hL.sound.indVecStep (he hL hσ) (hmE hL hσ)
  refine (hc.check hS ho ν hC fun j ↦ .pi _ (.const .nat) (.vecStep (hev j) (hmv j))).andThen
    fun c hc ↦ ?_
  refine (hS.apply hφ hmE hl.elem.isElem hmv hlv).bind fun v hv ↦ ?_
  refine (hS.eval hφ hp.term.elem).bind fun w hw ↦ ?_
  refine (hS.apply hφ hml htl.isElem hv hw).bind fun u hu ↦ hS.judge hφ hu ?_
  exact ⟨hl.elem.indVec hS htl hm.elem hb.elem hc.elem,
    hl.shared.indVec hp.term.shared hm.shared hb.shared hc.shared⟩

end Vectors

end LittleTypes.Elaborator.Settled
