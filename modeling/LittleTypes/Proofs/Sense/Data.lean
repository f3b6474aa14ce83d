import LittleTypes.Proofs.Sense.Terms

/-!
# What terms of data types mean

The types of numbers, lists, vectors, sums and equalities, their constructors and their
eliminators.
-/

namespace LittleTypes.Situation

open Idealized (Logic Tower Runs Size SameType TypeAt Same SameNat)

variable {R : Regime} {J : Type} {S : Situation R J} {s : Size} {a b t : J → Term} {d e : Sense J}

/-! ## Types -/

theorem TypeTerm.univ : S.TypeTerm .large fun _ ↦ .const .univ := fun _ hL _ _ _ _ _ ↦
  ⟨_, fun _ ↦ Runs.eval_iff.2 (.done _), hL.sound.univ⟩

theorem TypeTerm.nat : S.TypeTerm s fun _ ↦ .const .nat := fun _ hL _ _ _ _ _ ↦
  ⟨_, fun _ ↦ Runs.eval_iff.2 (.done _), hL.sound.nat⟩

theorem TypeTerm.atom : S.TypeTerm s fun _ ↦ .const .atom := fun _ hL _ _ _ _ _ ↦
  ⟨_, fun _ ↦ Runs.eval_iff.2 (.done _), hL.sound.atom⟩

theorem TypeTerm.trivial : S.TypeTerm s fun _ ↦ .const .trivial := fun _ hL _ _ _ _ _ ↦
  ⟨_, fun _ ↦ Runs.eval_iff.2 (.done _), hL.sound.trivial⟩

theorem TypeTerm.absurd : S.TypeTerm s fun _ ↦ .const .absurd := fun _ hL _ _ _ _ _ ↦
  ⟨_, fun _ ↦ Runs.eval_iff.2 (.done _), hL.sound.absurd⟩

variable (hS : S.Coherent)

section Types

include hS

theorem TypeTerm.list (ha : S.TypeTerm s a) : S.TypeTerm s fun j ↦ .unary .list (a j) :=
  fun _ hL _ _ _ hσ hτ ↦ ⟨_, fun _ ↦ Runs.eval_iff.2 (.done _),
    hL.sound.list (ha.like hS hL hσ hτ).type⟩

theorem TypeTerm.vec (ha : S.TypeTerm s a) (hb : S.HasType (fun _ ↦ .const .nat) b) :
    S.TypeTerm s fun j ↦ .binary .vec (a j) (b j) :=
  fun _ hL _ _ _ hσ hτ ↦ ⟨_, fun _ ↦ Runs.eval_iff.2 (.done _),
    hL.sound.vec (ha.like hS hL hσ hτ).type (hb.like hS hL hσ hτ).elem⟩

theorem TypeTerm.either (ha : S.TypeTerm s a) (hb : S.TypeTerm s b) :
    S.TypeTerm s fun j ↦ .binary .either (a j) (b j) :=
  fun _ hL _ _ _ hσ hτ ↦ ⟨_, fun _ ↦ Runs.eval_iff.2 (.done _),
    hL.sound.either (ha.like hS hL hσ hτ).type (hb.like hS hL hσ hτ).type⟩

theorem TypeTerm.equal (ht : S.TypeTerm s t) (ha : S.HasType (.ofTerm t) a)
    (hb : S.HasType (.ofTerm t) b) : S.TypeTerm s fun j ↦ .equal (t j) (a j) (b j) := by
  intro L hL ω σ τ hσ hτ
  have hT := ht.like hS hL hσ hτ
  have hl := hL.sound.type_large hT.type
  exact ⟨_, fun _ ↦ Runs.eval_iff.2 (.done _), hL.sound.equal hT.type
    (hL.sound.conv (ha.like hS hL hσ hτ).elem hl fun i ↦ (hT.same i).symm)
    (hL.sound.conv (hb.like hS hL hσ hτ).elem hl fun i ↦ (hT.same i).symm)⟩

end Types

/-! ## Constructors -/

theorem IsElem.zero : S.IsElem (fun _ ↦ .const .nat) fun _ ↦ .const .zero :=
  fun _ hL _ _ _ ↦ hL.sound.zero

theorem HasType.zero : S.HasType (fun _ ↦ .const .nat) fun _ ↦ .const .zero :=
  fun _ hL _ _ _ _ _ ↦ ⟨_, fun _ ↦ Runs.eval_iff.2 (.done _), hL.sound.zero⟩

theorem HasType.numeral (n : Nat) : S.HasType (fun _ ↦ .const .nat) fun _ ↦ .numeral n := by
  intro L hL ω σ τ hσ hτ
  refine ⟨_, fun _ ↦ Runs.eval_iff.2 (.done _), ?_⟩
  induction n with
  | zero => exact hL.sound.zero
  | succ n ih => exact hL.sound.add1 ih

theorem HasType.sole : S.HasType (fun _ ↦ .const .trivial) fun _ ↦ .const .sole :=
  fun _ hL _ _ _ _ _ ↦ ⟨_, fun _ ↦ Runs.eval_iff.2 (.done _), hL.sound.sole⟩

theorem HasType.quote (x : String) : S.HasType (fun _ ↦ .const .atom) fun _ ↦ .quote x :=
  fun _ hL _ _ _ _ _ ↦ ⟨_, fun _ ↦ Runs.eval_iff.2 (.done _), hL.sound.quote x⟩

theorem HasType.nil (he : S.IsType .large e) :
    S.HasType (fun σ ↦ .unary .list (e σ)) fun _ ↦ .const .nil :=
  fun _ hL _ _ _ hσ _ ↦ ⟨_, fun _ ↦ Runs.eval_iff.2 (.done _), hL.sound.nil (he hL hσ)⟩

theorem IsType.of_either {l r : Sense J} (h : S.IsType s fun σ ↦ .binary .either (l σ) (r σ)) :
    S.IsType s l ∧ S.IsType s r :=
  ⟨fun _ hL _ _ hσ ↦ (hL.sound.of_either (h hL hσ)).1, fun _ hL _ _ hσ ↦
    (hL.sound.of_either (h hL hσ)).2⟩

theorem IsType.of_vec {l : Sense J} (h : S.IsType s fun σ ↦ .binary .vec (e σ) (l σ)) :
    S.IsType s e ∧ S.IsElem (fun _ ↦ .const .nat) l :=
  ⟨fun _ hL _ _ hσ ↦ (hL.sound.of_vec (h hL hσ)).1, fun _ hL _ _ hσ ↦
    (hL.sound.of_vec (h hL hσ)).2⟩

theorem IsType.of_list (h : S.IsType s fun σ ↦ .unary .list (e σ)) : S.IsType s e :=
  fun _ hL _ _ hσ ↦ hL.sound.of_list (h hL hσ)

/-- The parts of an equality. -/
theorem IsType.of_equal {x y : Sense J} (h : S.IsType s fun σ ↦ .equal (d σ) (x σ) (y σ)) :
    S.IsType s d ∧ S.IsElem d x ∧ S.IsElem d y :=
  ⟨fun _ hL _ _ hσ ↦ (hL.sound.of_equal (h hL hσ)).1,
    fun _ hL _ _ hσ ↦ (hL.sound.of_equal (h hL hσ)).2.1,
    fun _ hL _ _ hσ ↦ (hL.sound.of_equal (h hL hσ)).2.2⟩

/-- A vector type whose length is known to be something else. -/
theorem IsType.vec_conv {l k : Sense J} (h : S.IsType s fun σ ↦ .binary .vec (e σ) (l σ))
    (hl : S.Sees l k) : S.SameTypes (fun σ ↦ .binary .vec (e σ) (k σ))
      fun σ ↦ .binary .vec (e σ) (l σ) := by
  intro o σ hσ
  obtain ⟨he, hlk⟩ := Logic.sameness_sound.of_vec (h (.sameness o) hσ)
  exact (TypeAt.vec he.sameType (hlk.2.seenRight (.seen (hl hσ))).sameNat).symm

include hS

theorem HasType.vecnil {l : Sense J} (h : S.IsType .large fun σ ↦ .binary .vec (e σ) (l σ))
    (hl : S.Sees l fun _ ↦ .const .zero) :
    S.HasType (fun σ ↦ .binary .vec (e σ) (l σ)) fun _ ↦ .const .vecnil := by
  have hz : S.HasType (fun σ ↦ .binary .vec (e σ) (.const .zero)) fun _ ↦ .const .vecnil :=
    fun _ hL _ _ _ hσ _ ↦ ⟨_, fun _ ↦ Runs.eval_iff.2 (.done _),
      hL.sound.vecnil (hL.sound.of_vec (h hL hσ)).1⟩
  exact hz.conv hS h (h.vec_conv hl)

theorem HasType.add1 (ha : S.HasType (fun _ ↦ .const .nat) a) :
    S.HasType (fun _ ↦ .const .nat) fun j ↦ .unary .add1 (a j) :=
  fun _ hL _ _ _ hσ hτ ↦ ⟨_, fun _ ↦ Runs.eval_iff.2 (.done _),
    hL.sound.add1 (ha.like hS hL hσ hτ).elem⟩

theorem HasType.left {l r : Sense J} (hr : S.IsType .large r) (ha : S.HasType l a) :
    S.HasType (fun σ ↦ .binary .either (l σ) (r σ)) fun j ↦ .unary .left (a j) :=
  fun _ hL _ _ _ hσ hτ ↦ ⟨_, fun _ ↦ Runs.eval_iff.2 (.done _),
    hL.sound.left (hr hL hσ) (ha.like hS hL hσ hτ).elem⟩

theorem HasType.right {l r : Sense J} (hl : S.IsType .large l) (ha : S.HasType r a) :
    S.HasType (fun σ ↦ .binary .either (l σ) (r σ)) fun j ↦ .unary .right (a j) :=
  fun _ hL _ _ _ hσ hτ ↦ ⟨_, fun _ ↦ Runs.eval_iff.2 (.done _),
    hL.sound.right (hl hL hσ) (ha.like hS hL hσ hτ).elem⟩

theorem HasType.listCons (ha : S.HasType e a) (hb : S.HasType (fun σ ↦ .unary .list (e σ)) b) :
    S.HasType (fun σ ↦ .unary .list (e σ)) fun j ↦ .binary .listCons (a j) (b j) :=
  fun _ hL _ _ _ hσ hτ ↦ ⟨_, fun _ ↦ Runs.eval_iff.2 (.done _),
    hL.sound.listCons (ha.like hS hL hσ hτ).elem (hb.like hS hL hσ hτ).elem⟩

theorem HasType.vecCons {l k : Sense J} (h : S.IsType .large fun σ ↦ .binary .vec (e σ) (l σ))
    (hl : S.Sees l fun σ ↦ .unary .add1 (k σ)) (ha : S.HasType e a)
    (hb : S.HasType (fun σ ↦ .binary .vec (e σ) (k σ)) b) :
    S.HasType (fun σ ↦ .binary .vec (e σ) (l σ)) fun j ↦ .binary .vecCons (a j) (b j) := by
  have hc : S.HasType (fun σ ↦ .binary .vec (e σ) (.unary .add1 (k σ)))
      fun j ↦ .binary .vecCons (a j) (b j) := fun _ hL _ _ _ hσ hτ ↦
    ⟨_, fun _ ↦ Runs.eval_iff.2 (.done _), hL.sound.vecCons
      (hL.sound.of_vec (hb.isType hL hσ)).2 (ha.like hS hL hσ hτ).elem (hb.like hS hL hσ hτ).elem⟩
  exact hc.conv hS h (h.vec_conv hl)

/-- Both sides of an equality are the given element. -/
theorem HasType.same {l r : Sense J} (h : S.IsType .large fun σ ↦ .equal (d σ) (l σ) (r σ))
    (ha : S.HasType d a) (hl : S.SameElems d l (.ofTerm a)) (hr : S.SameElems d r (.ofTerm a)) :
    S.HasType (fun σ ↦ .equal (d σ) (l σ) (r σ)) fun j ↦ .unary .same (a j) := by
  intro L hL ω σ τ hσ hτ
  have hl' := ha.like hS hL hσ hτ
  refine ⟨_, fun _ ↦ Runs.eval_iff.2 (.done _), hL.sound.conv (hL.sound.refl hl'.elem) (h hL hσ)
    fun i ↦ ?_⟩
  have ho := hS.side hL hσ i
  exact TypeAt.equal (hL.sound.typeAt (ha.isType hL hσ) i) ((hl'.same i).trans (hl ho).symm)
    ((hl'.same i).trans (hr ho).symm)

/-! ## Numbers, lists and sums -/

section Recursion

variable {m c : J → Term} {l r : Sense J}

theorem HasType.recursor (k : Recursor) (ht : S.HasType (fun σ ↦ .recursorTarget (e σ) k) t)
    (hm : S.TypeTerm .large m) (hb : S.HasType (.ofTerm m) b)
    (hc : S.HasType (fun σ ↦ .recursorStep (e σ) (Sense.ofTerm m σ) k) c) :
    S.HasType (.ofTerm m) fun j ↦ .recursor k (t j) (m j) (b j) (c j) := by
  intro L hL ω σ τ hσ hτ
  obtain ⟨t₁, ht₁, htt⟩ := ht hL hσ hτ
  have hm' := hm.like hS hL hσ hτ
  have hs := hL.sound.recursorStepLike k (e := fun i ↦ e (σ i)) (fun hk ↦ by
    subst hk
    exact hL.sound.of_list (hL.sound.elem_type htt)) hm'
  obtain ⟨v, hv, he⟩ := hL.sound.recursor k hm'.type htt
    (hL.sound.conv (hb.like hS hL hσ hτ).elem hm'.type fun i ↦ (hm'.same i).symm)
    (hL.sound.conv (hc.like hS hL hσ hτ).elem hs.type fun i ↦ (hs.same i).symm)
  exact ⟨v, fun i ↦ Runs.eval_iff.2 (.bind (ht₁ i) (hv i)),
    hL.sound.conv he (hm.isType hL hσ) hm'.same⟩

theorem HasType.indNat (ht : S.HasType (fun _ ↦ .const .nat) t)
    (hm : S.HasType (fun _ ↦ .indNatMotive) m)
    (hb : S.HasType (.apply (.ofTerm m) fun _ ↦ .const .zero) b)
    (hc : S.HasType (fun σ ↦ .indNatStep (Sense.ofTerm m σ)) c) :
    S.HasType (.apply (.ofTerm m) (.ofTerm t)) fun j ↦
      .induct .indNat (t j) (m j) (b j) (c j) := by
  intro L hL ω σ τ hσ hτ
  obtain ⟨t₁, ht₁, htt⟩ := ht.runLike hS hL hσ hτ
  have hmE := hm.isElem hL hσ
  have htE := ht.isElem hL hσ
  obtain ⟨w, hw, -⟩ := hL.sound.indNat hmE (hb.isElem hL hσ) (hc.isElem hL hσ) htE
  obtain ⟨v, hv, hl⟩ := hL.sound.indNatLike hmE htE htt (hm.like hS hL hσ hτ)
    (hb.like hS hL hσ hτ) (hc.like hS hL hσ hτ) hw
  exact ⟨v, fun i ↦ Runs.eval_iff.2 (.bind (ht₁ i) (hv i)), hl.elem⟩

theorem HasType.indList (ht : S.HasType (fun σ ↦ .unary .list (e σ)) t)
    (hm : S.HasType (fun σ ↦ .indListMotive (e σ)) m)
    (hb : S.HasType (.apply (.ofTerm m) fun _ ↦ .const .nil) b)
    (hc : S.HasType (fun σ ↦ .indListStep (e σ) (Sense.ofTerm m σ)) c) :
    S.HasType (.apply (.ofTerm m) (.ofTerm t)) fun j ↦
      .induct .indList (t j) (m j) (b j) (c j) := by
  intro L hL ω σ τ hσ hτ
  obtain ⟨t₁, ht₁, htt⟩ := ht.runLike hS hL hσ hτ
  have hmE := hm.isElem hL hσ
  have htE := ht.isElem hL hσ
  obtain ⟨w, hw, -⟩ := hL.sound.indList hmE (hb.isElem hL hσ) (hc.isElem hL hσ) htE
  obtain ⟨v, hv, hl⟩ := hL.sound.indListLike hmE htE htt (hm.like hS hL hσ hτ)
    (hb.like hS hL hσ hτ) (hc.like hS hL hσ hτ) hw
  exact ⟨v, fun i ↦ Runs.eval_iff.2 (.bind (ht₁ i) (hv i)), hl.elem⟩

theorem HasType.indEither (ht : S.HasType (fun σ ↦ .binary .either (l σ) (r σ)) t)
    (hm : S.HasType (fun σ ↦ .indEitherMotive (l σ) (r σ)) m)
    (hb : S.HasType (fun σ ↦ .indEitherCase .left (l σ) (Sense.ofTerm m σ)) b)
    (hc : S.HasType (fun σ ↦ .indEitherCase .right (r σ) (Sense.ofTerm m σ)) c) :
    S.HasType (.apply (.ofTerm m) (.ofTerm t)) fun j ↦
      .induct .indEither (t j) (m j) (b j) (c j) := by
  intro L hL ω σ τ hσ hτ
  obtain ⟨t₁, ht₁, htt⟩ := ht.runLike hS hL hσ hτ
  have hmE := hm.isElem hL hσ
  have htE := ht.isElem hL hσ
  obtain ⟨w, hw, -⟩ := hL.sound.indEither hmE (hb.isElem hL hσ) (hc.isElem hL hσ) htE
  obtain ⟨v, hv, hl⟩ := hL.sound.indEitherLike hmE htE htt (hm.like hS hL hσ hτ)
    (hb.like hS hL hσ hτ) (hc.like hS hL hσ hτ) hw
  exact ⟨v, fun i ↦ Runs.eval_iff.2 (.bind (ht₁ i) (hv i)), hl.elem⟩

theorem HasType.indAbsurd (ht : S.HasType (fun _ ↦ .const .absurd) t) (hm : S.TypeTerm .large m) :
    S.HasType (.ofTerm m) fun j ↦ .indAbsurd (t j) (m j) := by
  intro L hL ω σ τ hσ hτ
  obtain ⟨t₁, ht₁, htt⟩ := ht hL hσ hτ
  have hm' := hm.like hS hL hσ hτ
  obtain ⟨v, hv, he⟩ := hL.sound.indAbsurd hm'.type htt
  exact ⟨v, fun i ↦ Runs.eval_iff.2 (.bind (ht₁ i) (hv i)),
    hL.sound.conv he (hm.isType hL hσ) hm'.same⟩

end Recursion

/-! ## Vectors -/

section Vectors

variable {n m c : J → Term} {k l : Sense J}

omit hS in
theorem HasType.head (ht : S.HasType (fun σ ↦ .binary .vec (e σ) (.unary .add1 (k σ))) t) :
    S.HasType e fun j ↦ .project .head (t j) := by
  intro L hL ω σ τ hσ hτ
  obtain ⟨t₁, ht₁, htt⟩ := ht hL hσ hτ
  obtain ⟨v, hv, he⟩ := hL.sound.head htt
  exact ⟨v, fun i ↦ Runs.eval_iff.2 (.bind (ht₁ i) (hv i)), he⟩

omit hS in
theorem HasType.tail (ht : S.HasType (fun σ ↦ .binary .vec (e σ) (.unary .add1 (k σ))) t) :
    S.HasType (fun σ ↦ .binary .vec (e σ) (k σ)) fun j ↦ .project .tail (t j) := by
  intro L hL ω σ τ hσ hτ
  obtain ⟨t₁, ht₁, htt⟩ := ht hL hσ hτ
  obtain ⟨v, hv, he⟩ := hL.sound.tail htt
  exact ⟨v, fun i ↦ Runs.eval_iff.2 (.bind (ht₁ i) (hv i)), he⟩

omit hS in
/-- A motive over vectors at two arguments, one after the other. -/
theorem HasType.vecMotive_apply (hm : S.HasType (fun σ ↦ .indVecMotive (e σ)) m)
    (hl : S.IsElem (fun _ ↦ .const .nat) l) (v : Sense J) {L : Logic} (hL : Tower L) {ω : L.World}
    {σ : L.Index → Setting J} (hσ : S.Holds L ω σ) (i : L.Index) :
    Sense.apply (.apply (.ofTerm m) l) v (σ i) =
      (Idealized.apply₂ (Sense.ofTerm m (σ i)) (l (σ i)) (v (σ i))).result :=
  Idealized.apply_apply_result
    ((hL.sound.apply (hm.isElem hL hσ) (hl hL hσ) fun _ ↦ .done _).runs i)

omit hS in
/-- A motive over vectors at a length is a motive over the vectors of this length. -/
theorem HasType.vecMotive_elem (hm : S.HasType (fun σ ↦ .indVecMotive (e σ)) m)
    (hl : S.IsElem (fun _ ↦ .const .nat) l) :
    S.IsElem (fun σ ↦ .arrow "es" (.binary .vec (e σ) (l σ)) (.const .univ))
      (.apply (.ofTerm m) l) :=
  fun _ hL _ _ hσ ↦ (hL.sound.apply (hm.isElem hL hσ) (hl hL hσ) fun _ ↦ .done _).result

theorem HasType.indVec (hn : S.HasType (fun _ ↦ .const .nat) n)
    (ht : S.HasType (fun σ ↦ .binary .vec (e σ) (Sense.ofTerm n σ)) t)
    (hm : S.HasType (fun σ ↦ .indVecMotive (e σ)) m)
    (hb : S.HasType (.apply (.apply (.ofTerm m) fun _ ↦ .const .zero) fun _ ↦ .const .vecnil) b)
    (hc : S.HasType (fun σ ↦ .indVecStep (e σ) (Sense.ofTerm m σ)) c) :
    S.HasType (.apply (.apply (.ofTerm m) (.ofTerm n)) (.ofTerm t)) fun j ↦
      .indVec (n j) (t j) (m j) (b j) (c j) := by
  intro L hL ω σ τ hσ hτ
  obtain ⟨n₁, hn₁, hnn⟩ := hn.runLike hS hL hσ hτ
  obtain ⟨t₁, ht₁, htt⟩ := ht.runLike hS hL hσ hτ
  have hmE := hm.isElem hL hσ
  have htE := ht.isElem hL hσ
  have hbE := hb.isElem hL hσ
  have hbl := hb.like hS hL hσ hτ
  simp only [hm.vecMotive_apply IsElem.zero _ hL hσ] at hbE hbl
  obtain ⟨w, hw, -⟩ := hL.sound.indVec hmE hbE (hc.isElem hL hσ) htE
  obtain ⟨v, hv, hl⟩ := hL.sound.indVecLike hmE htE hnn htt (hm.like hS hL hσ hτ) hbl
    (hc.like hS hL hσ hτ) hw
  simp only [hm.vecMotive_apply hn.isElem _ hL hσ]
  exact ⟨v, fun i ↦ Runs.eval_iff.2 (.bind (hn₁ i) (.bind (ht₁ i) (hv i))), hl.elem⟩

end Vectors

/-! ## Equalities -/

section Equality

variable {p q m f : J → Term} {x y z : Sense J}

omit hS in
theorem HasType.symm (hp : S.HasType (fun σ ↦ .equal (d σ) (x σ) (y σ)) p) :
    S.HasType (fun σ ↦ .equal (d σ) (y σ) (x σ)) fun j ↦ .project .symm (p j) := by
  intro L hL ω σ τ hσ hτ
  obtain ⟨p₁, hp₁, hpp⟩ := hp hL hσ hτ
  obtain ⟨v, hv, he⟩ := hL.sound.symm hpp
  exact ⟨v, fun i ↦ Runs.eval_iff.2 (.bind (hp₁ i) (hv i)), he⟩

omit hS in
theorem HasType.trans (hp : S.HasType (fun σ ↦ .equal (d σ) (x σ) (y σ)) p)
    (hq : S.HasType (fun σ ↦ .equal (d σ) (y σ) (z σ)) q) :
    S.HasType (fun σ ↦ .equal (d σ) (x σ) (z σ)) fun j ↦ .trans (p j) (q j) := by
  intro L hL ω σ τ hσ hτ
  obtain ⟨p₁, hp₁, hpp⟩ := hp hL hσ hτ
  obtain ⟨q₁, hq₁, hqq⟩ := hq hL hσ hτ
  obtain ⟨v, hv, he⟩ := hL.sound.trans hpp hqq
  exact ⟨v, fun i ↦ Runs.eval_iff.2 (.bind (hp₁ i) (.bind (hq₁ i) (hv i))), he⟩

theorem HasType.cong {u : Setting J → String}
    (hp : S.HasType (fun σ ↦ .equal (d σ) (x σ) (y σ)) p) (hm : S.TypeTerm .large m)
    (hf : S.HasType (fun σ ↦ .arrow (u σ) (d σ) (Sense.ofTerm m σ)) f) :
    S.HasType (fun σ ↦ .equal (Sense.ofTerm m σ) (Sense.apply (.ofTerm f) x σ)
      (Sense.apply (.ofTerm f) y σ)) fun j ↦ .cong (p j) (m j) (f j) := by
  intro L hL ω σ τ hσ hτ
  obtain ⟨p₁, hp₁, hpp⟩ := hp.runLike hS hL hσ hτ
  have hfE := hf.isElem hL hσ
  have hpE := hp.isElem hL hσ
  obtain ⟨w, hw, -⟩ := hL.sound.cong (hm.isType hL hσ) hfE hpE
  obtain ⟨v, hv, hl⟩ := hL.sound.congLike (hm.isType hL hσ) hfE hpE hpp (hm.like hS hL hσ hτ)
    (hf.like hS hL hσ hτ) hw
  exact ⟨v, fun i ↦ Runs.eval_iff.2 (.bind (hp₁ i) (hv i)), hl.elem⟩

theorem HasType.replace (hp : S.HasType (fun σ ↦ .equal (d σ) (x σ) (y σ)) p)
    (hm : S.HasType (fun σ ↦ .replaceMotive (d σ)) m) (hb : S.HasType (.apply (.ofTerm m) x) b) :
    S.HasType (.apply (.ofTerm m) y) fun j ↦ .transport .replace (p j) (m j) (b j) := by
  intro L hL ω σ τ hσ hτ
  obtain ⟨p₁, hp₁, hpp⟩ := hp.runLike hS hL hσ hτ
  have hmE := hm.isElem hL hσ
  have hpE := hp.isElem hL hσ
  obtain ⟨w, hw, -⟩ := hL.sound.replace hmE (hb.isElem hL hσ) hpE
  obtain ⟨v, hv, hl⟩ := hL.sound.replaceLike hmE hpE hpp (hm.like hS hL hσ hτ)
    (hb.like hS hL hσ hτ) hw
  exact ⟨v, fun i ↦ Runs.eval_iff.2 (.bind (hp₁ i) (hv i)), hl.elem⟩

omit hS in
/-- A motive over equalities at two arguments, one after the other. -/
theorem HasType.equalMotive_apply (hm : S.HasType (fun σ ↦ .indEqualMotive (d σ) (x σ)) m)
    (hy : S.IsElem d y) (v : Sense J) {L : Logic} (hL : Tower L) {ω : L.World}
    {σ : L.Index → Setting J} (hσ : S.Holds L ω σ) (i : L.Index) :
    Sense.apply (.apply (.ofTerm m) y) v (σ i) =
      (Idealized.apply₂ (Sense.ofTerm m (σ i)) (y (σ i)) (v (σ i))).result :=
  Idealized.apply_apply_result
    ((hL.sound.apply (hm.isElem hL hσ) (hy hL hσ) fun _ ↦ .done _).runs i)

omit hS in
/-- A motive over equalities at the other side is a motive over the equalities with this side. -/
theorem HasType.equalMotive_elem (hm : S.HasType (fun σ ↦ .indEqualMotive (d σ) (x σ)) m)
    (hy : S.IsElem d y) :
    S.IsElem (fun σ ↦ .arrow "p" (.equal (d σ) (x σ) (y σ)) (.const .univ))
      (.apply (.ofTerm m) y) :=
  fun _ hL _ _ hσ ↦ (hL.sound.apply (hm.isElem hL hσ) (hy hL hσ) fun _ ↦ .done _).result

theorem HasType.indEqual (hp : S.HasType (fun σ ↦ .equal (d σ) (x σ) (y σ)) p)
    (hm : S.HasType (fun σ ↦ .indEqualMotive (d σ) (x σ)) m)
    (hb : S.HasType (.apply (.apply (.ofTerm m) x) fun σ ↦ .unary .same (x σ)) b) :
    S.HasType (.apply (.apply (.ofTerm m) y) (.ofTerm p)) fun j ↦
      .transport .indEqual (p j) (m j) (b j) := by
  intro L hL ω σ τ hσ hτ
  obtain ⟨-, hx, hy⟩ := hp.isType.of_equal
  obtain ⟨p₁, hp₁, hpp⟩ := hp.runLike hS hL hσ hτ
  have hmE := hm.isElem hL hσ
  have hpE := hp.isElem hL hσ
  have hbE := hb.isElem hL hσ
  have hbl := hb.like hS hL hσ hτ
  simp only [hm.equalMotive_apply hx _ hL hσ] at hbE hbl
  obtain ⟨w, hw, -⟩ := hL.sound.indEqual hmE hbE hpE
  obtain ⟨v, hv, hl⟩ := hL.sound.indEqualLike hmE hpE hpp (hm.like hS hL hσ hτ) hbl hw
  simp only [hm.equalMotive_apply hy _ hL hσ]
  exact ⟨v, fun i ↦ Runs.eval_iff.2 (.bind (hp₁ i) (hv i)), hl.elem⟩

end Equality

end LittleTypes.Situation
