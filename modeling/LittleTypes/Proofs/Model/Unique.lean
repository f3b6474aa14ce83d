import LittleTypes.Proofs.Model.Lawful

/-!
# One code, one meaning

What is seen of a code decides how its meaning was built, so that a code has one meaning.
-/

namespace LittleTypes.Idealized

variable {o : Prop}

/-- How a meaning was built, by what is seen of one of its codes. -/
inductive Built (o : Prop) (base : Meaning → Prop) : Value → Meaning → Prop where
  | univ : base (.univ o) → Built o base (.const .univ) (.univ o)
  | nat : Built o base (.const .nat) (.nat o)
  | atom : Built o base (.const .atom) (.atom o)
  | trivial : Built o base (.const .trivial) (.trivial o)
  | absurd : Built o base (.const .absurd) (.absurd o)
  | unknown {U : Value} {m n : Neutral} : o → Looks U (.const .univ) → Alike m n →
      Built o base (.neu U n) (.unknown o m)
  | list {E : Meaning} {e : Value} : Formed o base E → E.code e →
      Built o base (.unary .list e) (.list o E)
  | vec {E : Meaning} {e len l : Value} : Formed o base E → E.code e → SameNat o len l →
      Built o base (.binary .vec e l) (.vec o E len)
  | equal {T : Meaning} {t a c x y : Value} : Formed o base T → T.code t → T.same a x →
      T.same c y → Built o base (.equal t x y) (.equal o T a c)
  | either {L R : Meaning} {l r : Value} : Formed o base L → Formed o base R → L.code l →
      R.code r → Built o base (.binary .either l r) (.either o L R)
  | pi {A : Meaning} {B : Value → Meaning} {x : String} {d : Value} {c : Closure} :
      Formed o base A → (∀ a, A.same a a → Formed o base (B a)) →
      (∀ a a', A.same a a' → B a = B a') → A.code d → Meaning.Family A B c →
      Built o base (.pi x d c) (.pi o A B)
  | sigma {A : Meaning} {B : Value → Meaning} {x : String} {d : Value} {c : Closure} :
      Formed o base A → (∀ a, A.same a a → Formed o base (B a)) →
      (∀ a a', A.same a a' → B a = B a') → A.code d → Meaning.Family A B c →
      Built o base (.sigma x d c) (.sigma o A B)

/-- A meaning with a code was built as that code says. -/
theorem Formed.built {base : Meaning → Prop} (hb : ∀ S, base S → S = .univ o) {S : Meaning}
    {X : Value} (h : Formed o base S) (hX : S.code X) : ∃ W, Looks X W ∧ Built o base W S := by
  cases h with
  | base h =>
    cases hb S h
    exact ⟨_, hX, .univ h⟩
  | nat => exact ⟨_, hX, .nat⟩
  | atom => exact ⟨_, hX, .atom⟩
  | trivial => exact ⟨_, hX, .trivial⟩
  | absurd => exact ⟨_, hX, .absurd⟩
  | unknown =>
    obtain ⟨ho, U, n, hX, hU, hn⟩ := hX
    exact ⟨_, hX, .unknown ho hU hn⟩
  | list hE =>
    obtain ⟨e, hX, he⟩ := hX
    exact ⟨_, hX, .list hE he⟩
  | vec hE =>
    obtain ⟨e, l, hX, he, hl⟩ := hX
    exact ⟨_, hX, .vec hE he hl⟩
  | equal hT =>
    obtain ⟨t, x, y, hX, ht, hx, hy⟩ := hX
    exact ⟨_, hX, .equal hT ht hx hy⟩
  | either hL hR =>
    obtain ⟨l, r, hX, hl, hr⟩ := hX
    exact ⟨_, hX, .either hL hR hl hr⟩
  | pi hA hB hr =>
    obtain ⟨x, d, c, hX, hd, hc⟩ := hX
    exact ⟨_, hX, .pi hA hB hr hd hc⟩
  | sigma hA hB hr =>
    obtain ⟨x, d, c, hX, hd, hc⟩ := hX
    exact ⟨_, hX, .sigma hA hB hr hd hc⟩

/-! ## Meanings that differ in their parameters only -/

namespace Meaning

theorem unknown_congr {m n : Neutral} (h : Alike m n) : unknown o m = unknown o n := by
  have e : ∀ l, Alike m l ↔ Alike n l := fun l ↦ ⟨h.symm.trans, h.trans⟩
  simp only [unknown, e]

theorem vec_congr {E : Meaning} {len len' : Value} (h : SameNat o len len') :
    vec o E len = vec o E len' := by
  have hc : ∀ X, vecCode o E len X ↔ vecCode o E len' X := fun X ↦
    ⟨fun hX ↦ hX.len h.symm, fun hX ↦ hX.len h⟩
  have hs : ∀ v w, SameVec o E len v w ↔ SameVec o E len' v w := fun v w ↦
    ⟨fun hv ↦ hv.ofLen h.symm, fun hv ↦ hv.ofLen h⟩
  exact Meaning.ext (funext fun X ↦ propext (hc X)) (funext fun v ↦ funext fun w ↦ propext (hs v w))

theorem equal_congr {T : Meaning} (hT : Lawful T) {a a' c c' : Value} (ha : T.same a a')
    (hc : T.same c c') : equal o T a c = equal o T a' c' := by
  have ea : ∀ x, T.same a x ↔ T.same a' x := fun x ↦ ⟨hT.trans (hT.symm ha), hT.trans ha⟩
  have ec : ∀ x, T.same c x ↔ T.same c' x := fun x ↦ ⟨hT.trans (hT.symm hc), hT.trans hc⟩
  have e : equalCode T a c = equalCode T a' c' := by
    funext X
    simp only [equalCode, ea, ec]
  simp only [equal, e, ea, ec]

variable {A : Meaning} {B B' : Value → Meaning}

theorem family_congr (h : ∀ a, A.same a a → B a = B' a) (c : Closure) :
    Family A B c ↔ Family A B' c :=
  forall₂_congr fun a ha ↦ by rw [h a ha]

theorem pi_congr (hA : Lawful A) (h : ∀ a, A.same a a → B a = B' a) : pi o A B = pi o A B' := by
  have e : piCode A B = piCode A B' := by
    funext X
    simp only [piCode, family_congr h]
  refine Meaning.ext e (funext fun f ↦ funext fun g ↦ propext ?_)
  simp only [pi, e]
  refine and_congr_right fun _ ↦ and_congr_right fun _ ↦ forall₃_congr fun a a' ha ↦ ?_
  rw [h a (hA.left ha)]

theorem sigma_congr (hA : Lawful A) (h : ∀ a, A.same a a → B a = B' a) :
    sigma o A B = sigma o A B' := by
  have e : sigmaCode A B = sigmaCode A B' := by
    funext X
    simp only [sigmaCode, family_congr h]
  refine Meaning.ext e (funext fun p ↦ funext fun q ↦ propext ?_)
  simp only [sigma, e]
  refine and_congr_right fun _ ↦ and_congr_right fun _ ↦ ?_
  refine exists₄_congr fun a a' d d' ↦ and_congr_right fun _ ↦ and_congr_right fun _ ↦ ?_
  refine and_congr_right fun ha ↦ ?_
  rw [h a (hA.left ha)]

end Meaning

/-- A code has one meaning. -/
theorem Formed.unique {base base' : Meaning → Prop} (hb : ∀ S, base S → S = .univ o)
    (hb' : ∀ S, base' S → S = .univ o) (hl : ∀ S, base S → Lawful S) {S S' : Meaning} {X : Value}
    (h : Formed o base S) (h' : Formed o base' S') (hX : S.code X) (hX' : S'.code X) :
    S = S' := by
  induction h generalizing S' X with
  | base h =>
    cases hb _ h
    obtain ⟨W, hW, b⟩ := h'.built hb' hX'
    cases hX.unique hW
    cases b
    rfl
  | nat | atom | trivial | absurd =>
    obtain ⟨W, hW, b⟩ := h'.built hb' hX'
    cases hX.unique hW
    cases b
    rfl
  | unknown =>
    obtain ⟨ho, U, n, hX, hU, hn⟩ := hX
    obtain ⟨W, hW, b⟩ := h'.built hb' hX'
    cases hX.unique hW
    cases b with
    | unknown _ _ hn' => exact Meaning.unknown_congr (hn.trans hn'.symm)
  | list hE ih =>
    obtain ⟨e, hX, he⟩ := hX
    obtain ⟨W, hW, b⟩ := h'.built hb' hX'
    cases hX.unique hW
    cases b with
    | list hE' he' => rw [ih hE' he he']
  | vec hE _ ih =>
    obtain ⟨e, l, hX, he, hl⟩ := hX
    obtain ⟨W, hW, b⟩ := h'.built hb' hX'
    cases hX.unique hW
    cases b with
    | vec hE' he' hl' =>
      cases ih hE' he he'
      exact Meaning.vec_congr (hl.trans hl'.symm)
  | equal hT _ _ ih =>
    obtain ⟨t, x, y, hX, ht, hx, hy⟩ := hX
    obtain ⟨W, hW, b⟩ := h'.built hb' hX'
    cases hX.unique hW
    cases b with
    | equal hT' ht' hx' hy' =>
      have lT := hT.lawful hl
      cases ih hT' ht ht'
      exact Meaning.equal_congr lT (lT.trans hx (lT.symm hx')) (lT.trans hy (lT.symm hy'))
  | either _ _ ihL ihR =>
    obtain ⟨l, r, hX, hl, hr⟩ := hX
    obtain ⟨W, hW, b⟩ := h'.built hb' hX'
    cases hX.unique hW
    cases b with
    | either hL' hR' hl' hr' => rw [ihL hL' hl hl', ihR hR' hr hr']
  | pi hA _ _ ihA ihB =>
    obtain ⟨x, d, c, hX, hd, hc⟩ := hX
    obtain ⟨W, hW, b⟩ := h'.built hb' hX'
    cases hX.unique hW
    cases b with
    | pi hA' hB' _ hd' hc' =>
      cases ihA hA' hd hd'
      refine Meaning.pi_congr (hA.lawful hl) fun a ha ↦ ?_
      obtain ⟨Y, hY, hYB⟩ := hc a ha
      obtain ⟨Y', hY', hYB'⟩ := hc' a ha
      cases hY.unique hY'
      exact ihB a ha (hB' a ha) hYB hYB'
  | sigma hA _ _ ihA ihB =>
    obtain ⟨x, d, c, hX, hd, hc⟩ := hX
    obtain ⟨W, hW, b⟩ := h'.built hb' hX'
    cases hX.unique hW
    cases b with
    | sigma hA' hB' _ hd' hc' =>
      cases ihA hA' hd hd'
      refine Meaning.sigma_congr (hA.lawful hl) fun a ha ↦ ?_
      obtain ⟨Y, hY, hYB⟩ := hc a ha
      obtain ⟨Y', hY', hYB'⟩ := hc' a ha
      cases hY.unique hY'
      exact ihB a ha (hB' a ha) hYB hYB'

theorem Formed.mono {base base' : Meaning → Prop} (hb : ∀ S, base S → base' S) {S : Meaning}
    (h : Formed o base S) : Formed o base' S := by
  induction h with
  | base h => exact .base (hb _ h)
  | nat => exact .nat
  | atom => exact .atom
  | trivial => exact .trivial
  | absurd => exact .absurd
  | unknown h => exact .unknown h
  | list _ ih => exact .list ih
  | vec _ hl ih => exact .vec ih hl
  | equal _ ha hc ih => exact .equal ih ha hc
  | either _ _ ihL ihR => exact .either ihL ihR
  | pi _ _ hr ihA ihB => exact .pi ihA ihB hr
  | sigma _ _ hr ihA ihB => exact .sigma ihA ihB hr

theorem Small.unique {S S' : Meaning} {X : Value} (h : Small o S) (h' : Small o S')
    (hX : S.code X) (hX' : S'.code X) : S = S' :=
  Formed.unique nofun nofun nofun h h' hX hX'

theorem Meaning.lawful_univ : Lawful (Meaning.univ o) where
  symm := by
    rintro X Y ⟨S, hS, hX, hY⟩
    exact ⟨S, hS, hY, hX⟩
  trans := by
    rintro X Y Z ⟨S, hS, hX, hY⟩ ⟨S', hS', hY', hZ⟩
    cases hS.unique hS' hY hY'
    exact ⟨S, hS, hX, hZ⟩
  looks := by
    rintro X Y ⟨S, hS, hX, -⟩
    obtain ⟨W, hW, -⟩ := Formed.built nofun hS hX
    exact ⟨W, hW⟩
  seen := by
    rintro X X' Y ⟨S, hS, hX, hY⟩ hs
    exact ⟨S, hS, hS.lawful.seenCode hX hs, hY⟩
  seenCode hX hs := hs _ hX

namespace Large

variable {S S' : Meaning} {X : Value}

theorem lawful (h : Large o S) : Lawful S :=
  Formed.lawful (by rintro _ rfl; exact Meaning.lawful_univ) h

theorem unique (h : Large o S) (h' : Large o S') (hX : S.code X) (hX' : S'.code X) : S = S' :=
  Formed.unique (fun _ ↦ id) (fun _ ↦ id) (by rintro _ rfl; exact Meaning.lawful_univ) h h' hX hX'

theorem built (h : Large o S) (hX : S.code X) :
    ∃ W, Looks X W ∧ Built o (· = Meaning.univ o) W S :=
  Formed.built (fun _ ↦ id) h hX

end Large

end LittleTypes.Idealized
