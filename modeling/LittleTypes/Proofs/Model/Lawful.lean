import LittleTypes.Proofs.Model.Meaning

/-!
# Laws of meanings

To be the same element of a type is symmetric and transitive, and only depends on what is seen of
the two values.  A value is an element of a type when it is the same element as itself.
-/

namespace LittleTypes.Idealized

variable {o : Prop}

namespace Waiting

variable {code : Value → Prop} {u v w : Value}

theorem symm (h : Waiting o code v w) : Waiting o code w v := by
  obtain ⟨ho, T, m, U, n, hv, hw, hT, hU, hm⟩ := h
  exact ⟨ho, U, n, T, m, hw, hv, hU, hT, hm.symm⟩

theorem trans (h : Waiting o code u v) (h' : Waiting o code v w) : Waiting o code u w := by
  obtain ⟨ho, T, l, U, m, hu, hv, hT, hU, hl⟩ := h
  obtain ⟨-, U', m', V, n, hv', hw, hU', hV, hm⟩ := h'
  cases hv.unique hv'
  exact ⟨ho, T, l, V, n, hu, hw, hT, hV, hl.trans hm⟩

theorem seen {v' : Value} (h : Waiting o code v w) (hs : SeenAs v' v) : Waiting o code v' w := by
  obtain ⟨ho, T, m, U, n, hv, hw, hT, hU, hm⟩ := h
  exact ⟨ho, T, m, U, n, hs _ hv, hw, hT, hU, hm⟩

theorem mono {code' : Value → Prop} (h : Waiting o code v w) (hc : ∀ T, code T → code' T) :
    Waiting o code' v w := by
  obtain ⟨ho, T, m, U, n, hv, hw, hT, hU, hm⟩ := h
  exact ⟨ho, T, m, U, n, hv, hw, hc T hT, hc U hU, hm⟩

/-- What waits is an elimination. -/
theorem looks (h : Waiting o code v w) : ∃ T m, Looks v (.neu T m) := by
  obtain ⟨-, T, m, U, n, hv, -⟩ := h
  exact ⟨T, m, hv⟩

theorem sees (h : Waiting o code v w) : ∃ v', Looks v v' := by
  obtain ⟨T, m, hv⟩ := h.looks
  exact ⟨_, hv⟩

end Waiting

/-- What is required of a meaning. -/
structure Lawful (S : Meaning) : Prop where
  symm : ∀ {v w}, S.same v w → S.same w v
  trans : ∀ {u v w}, S.same u v → S.same v w → S.same u w
  /-- Something is seen of an element. -/
  looks : ∀ {v w}, S.same v w → ∃ v', Looks v v'
  /-- Only what is seen of a value matters. -/
  seen : ∀ {v v' w}, S.same v w → SeenAs v' v → S.same v' w
  /-- Only what is seen of a code matters. -/
  seenCode : ∀ {X X'}, S.code X → SeenAs X' X → S.code X'

namespace Lawful

variable {S : Meaning} {v w : Value}

theorem left (h : Lawful S) (hv : S.same v w) : S.same v v := h.trans hv (h.symm hv)

theorem right (h : Lawful S) (hv : S.same v w) : S.same w w := h.trans (h.symm hv) hv

end Lawful

/-! ## Numbers, lists and vectors -/

namespace SameNat

variable {u v w : Value}

theorem symm (h : SameNat o v w) : SameNat o w v := by
  induction h with
  | zero hv hw => exact .zero hw hv
  | add1 hv hw _ ih => exact .add1 hw hv ih
  | waiting h => exact .waiting h.symm

theorem trans (h : SameNat o u v) (h' : SameNat o v w) : SameNat o u w := by
  induction h generalizing w with
  | zero hu hv =>
    cases h' with
    | zero _ hw => exact .zero hu hw
    | add1 hv' => cases hv.unique hv'
    | waiting h' =>
      obtain ⟨T, m, hv'⟩ := h'.looks
      cases hv.unique hv'
  | add1 hu hv _ ih =>
    cases h' with
    | zero hv' => cases hv.unique hv'
    | add1 hv' hw hn =>
      cases hv.unique hv'
      exact .add1 hu hw (ih hn)
    | waiting h' =>
      obtain ⟨T, m, hv'⟩ := h'.looks
      cases hv.unique hv'
  | waiting h =>
    obtain ⟨T, m, hv⟩ := h.symm.looks
    cases h' with
    | zero hv' => cases hv.unique hv'
    | add1 hv' => cases hv.unique hv'
    | waiting h' => exact .waiting (h.trans h')

theorem left (h : SameNat o v w) : SameNat o v v := h.trans h.symm

theorem seen {v' : Value} (h : SameNat o v w) (hs : SeenAs v' v) : SameNat o v' w := by
  cases h with
  | zero hv hw => exact .zero (hs _ hv) hw
  | add1 hv hw hn => exact .add1 (hs _ hv) hw hn
  | waiting h => exact .waiting (h.seen hs)

theorem looks (h : SameNat o v w) : ∃ v', Looks v v' := by
  cases h with
  | zero hv => exact ⟨_, hv⟩
  | add1 hv => exact ⟨_, hv⟩
  | waiting h => exact h.sees

theorem of_zero (h : SameNat o v w) (hv : Looks v (.const .zero)) : Looks w (.const .zero) := by
  cases h with
  | zero _ hw => exact hw
  | add1 hv' => cases hv.unique hv'
  | waiting h =>
    obtain ⟨T, m, hv'⟩ := h.looks
    cases hv.unique hv'

theorem of_add1 {n : Value} (h : SameNat o v w) (hv : Looks v (.unary .add1 n)) :
    ∃ n', Looks w (.unary .add1 n') ∧ SameNat o n n' := by
  cases h with
  | zero hv' => cases hv.unique hv'
  | add1 hv' hw hn =>
    cases hv.unique hv'
    exact ⟨_, hw, hn⟩
  | waiting h =>
    obtain ⟨T, m, hv'⟩ := h.looks
    cases hv.unique hv'

end SameNat

theorem listCode.seen {E : Meaning} {X X' : Value} (h : listCode E X) (hs : SeenAs X' X) :
    listCode E X' := by
  obtain ⟨e, hX, he⟩ := h
  exact ⟨e, hs _ hX, he⟩

namespace SameList

variable {E : Meaning} {u v w : Value}

theorem symm (hE : Lawful E) (h : SameList o E v w) : SameList o E w v := by
  induction h with
  | nil hv hw => exact .nil hw hv
  | cons hv hw he _ ih => exact .cons hw hv (hE.symm he) ih
  | waiting h => exact .waiting h.symm

theorem trans (hE : Lawful E) (h : SameList o E u v) (h' : SameList o E v w) :
    SameList o E u w := by
  induction h generalizing w with
  | nil hu hv =>
    cases h' with
    | nil _ hw => exact .nil hu hw
    | cons hv' => cases hv.unique hv'
    | waiting h' =>
      obtain ⟨T, m, hv'⟩ := h'.looks
      cases hv.unique hv'
  | cons hu hv he _ ih =>
    cases h' with
    | nil hv' => cases hv.unique hv'
    | cons hv' hw he' hes =>
      cases hv.unique hv'
      exact .cons hu hw (hE.trans he he') (ih hes)
    | waiting h' =>
      obtain ⟨T, m, hv'⟩ := h'.looks
      cases hv.unique hv'
  | waiting h =>
    obtain ⟨T, m, hv⟩ := h.symm.looks
    cases h' with
    | nil hv' => cases hv.unique hv'
    | cons hv' => cases hv.unique hv'
    | waiting h' => exact .waiting (h.trans h')

theorem seen {v' : Value} (h : SameList o E v w) (hs : SeenAs v' v) : SameList o E v' w := by
  cases h with
  | nil hv hw => exact .nil (hs _ hv) hw
  | cons hv hw he hes => exact .cons (hs _ hv) hw he hes
  | waiting h => exact .waiting (h.seen hs)

theorem looks (h : SameList o E v w) : ∃ v', Looks v v' := by
  cases h with
  | nil hv => exact ⟨_, hv⟩
  | cons hv => exact ⟨_, hv⟩
  | waiting h => exact h.sees

end SameList

theorem vecCode.seen {E : Meaning} {len X X' : Value} (h : vecCode o E len X) (hs : SeenAs X' X) :
    vecCode o E len X' := by
  obtain ⟨e, l, hX, he, hl⟩ := h
  exact ⟨e, l, hs _ hX, he, hl⟩

theorem vecCode.len {E : Meaning} {len len' X : Value} (h : vecCode o E len X)
    (hl : SameNat o len' len) : vecCode o E len' X := by
  obtain ⟨e, l, hX, he, hl'⟩ := h
  exact ⟨e, l, hX, he, hl.trans hl'⟩

namespace SameVec

variable {E : Meaning} {len u v w : Value}

theorem symm (hE : Lawful E) (h : SameVec o E len v w) : SameVec o E len w v := by
  induction h with
  | nil hl hv hw => exact .nil hl hw hv
  | cons hl hv hw he _ ih => exact .cons hl hw hv (hE.symm he) ih
  | waiting h => exact .waiting h.symm

theorem trans (hE : Lawful E) (h : SameVec o E len u v) (h' : SameVec o E len v w) :
    SameVec o E len u w := by
  induction h generalizing w with
  | nil hl hu hv =>
    cases h' with
    | nil _ _ hw => exact .nil hl hu hw
    | cons _ hv' => cases hv.unique hv'
    | waiting h' =>
      obtain ⟨T, m, hv'⟩ := h'.looks
      cases hv.unique hv'
  | cons hl hu hv he _ ih =>
    cases h' with
    | nil _ hv' => cases hv.unique hv'
    | cons hl' hv' hw he' hes =>
      cases hv.unique hv'
      cases hl.unique hl'
      exact .cons hl hu hw (hE.trans he he') (ih hes)
    | waiting h' =>
      obtain ⟨T, m, hv'⟩ := h'.looks
      cases hv.unique hv'
  | waiting h =>
    obtain ⟨T, m, hv⟩ := h.symm.looks
    cases h' with
    | nil _ hv' => cases hv.unique hv'
    | cons _ hv' => cases hv.unique hv'
    | waiting h' => exact .waiting (h.trans h')

theorem seen {v' : Value} (h : SameVec o E len v w) (hs : SeenAs v' v) :
    SameVec o E len v' w := by
  cases h with
  | nil hl hv hw => exact .nil hl (hs _ hv) hw
  | cons hl hv hw he hes => exact .cons hl (hs _ hv) hw he hes
  | waiting h => exact .waiting (h.seen hs)

theorem looks (h : SameVec o E len v w) : ∃ v', Looks v v' := by
  cases h with
  | nil _ hv => exact ⟨_, hv⟩
  | cons _ hv => exact ⟨_, hv⟩
  | waiting h => exact h.sees

/-- Vectors do not depend on how their length is given. -/
theorem ofLen {len' : Value} (h : SameVec o E len v w) (hl : SameNat o len' len) :
    SameVec o E len' v w := by
  induction h generalizing len' with
  | nil hz hv hw =>
    cases hl with
    | zero hz' => exact .nil hz' hv hw
    | add1 _ hz' => cases hz.unique hz'
    | waiting hl =>
      obtain ⟨T, m, hz'⟩ := hl.symm.looks
      cases hz.unique hz'
  | cons hk hv hw he _ ih =>
    cases hl with
    | zero _ hk' => cases hk.unique hk'
    | add1 hl' hk' hn =>
      cases hk.unique hk'
      exact .cons hl' hv hw he (ih hn)
    | waiting hl =>
      obtain ⟨T, m, hk'⟩ := hl.symm.looks
      cases hk.unique hk'
  | waiting h => exact .waiting (h.mono fun T hT ↦ hT.len hl)

end SameVec

/-! ## Functions and pairs -/

theorem Runs.apply_seen {f f' a v : Value} (h : Runs (apply f a) v) (hs : SeenAs f' f) :
    Runs (apply f' a) v := by
  rw [Runs.apply_iff] at h ⊢
  obtain ⟨w, hw, hv⟩ := Runs.bind_iff.1 h
  exact Runs.bind (hs w hw) hv

theorem Runs.doCar_seen {p p' v : Value} (h : Runs (doCar p) v) (hs : SeenAs p' p) :
    Runs (doCar p') v := by
  obtain ⟨w, hw, hv⟩ := Runs.bind_iff.1 h
  exact Runs.bind (hs w hw) hv

theorem Runs.doCdr_seen {p p' v : Value} (h : Runs (doCdr p) v) (hs : SeenAs p' p) :
    Runs (doCdr p') v := by
  obtain ⟨w, hw, hv⟩ := Runs.bind_iff.1 h
  exact Runs.bind (hs w hw) hv

namespace Meaning

variable {A : Meaning} {B : Value → Meaning}

theorem FunctionLike.seen {code : Value → Prop} {f f' : Value} (h : FunctionLike o code f)
    (hs : SeenAs f' f) : FunctionLike o code f' := by
  rcases h with ⟨x, c, hf⟩ | ⟨ho, T, m, hf, hT⟩
  · exact .inl ⟨x, c, hs _ hf⟩
  · exact .inr ⟨ho, T, m, hs _ hf, hT⟩

theorem FunctionLike.looks {code : Value → Prop} {f : Value} (h : FunctionLike o code f) :
    ∃ w, Looks f w := by
  rcases h with ⟨x, c, h⟩ | ⟨-, T, m, h, -⟩
  · exact ⟨_, h⟩
  · exact ⟨_, h⟩

theorem PairLike.looks {code : Value → Prop} {p : Value} (h : PairLike o code p) :
    ∃ w, Looks p w := by
  rcases h with ⟨a, d, h⟩ | ⟨-, T, m, h, -⟩
  · exact ⟨_, h⟩
  · exact ⟨_, h⟩

theorem UnitLike.looks {v : Value} (h : UnitLike o v) : ∃ w, Looks v w := by
  rcases h with h | ⟨-, T, m, h, -⟩
  · exact ⟨_, h⟩
  · exact ⟨_, h⟩

theorem PairLike.seen {code : Value → Prop} {p p' : Value} (h : PairLike o code p)
    (hs : SeenAs p' p) : PairLike o code p' := by
  rcases h with ⟨a, d, hp⟩ | ⟨ho, T, m, hp, hT⟩
  · exact .inl ⟨a, d, hs _ hp⟩
  · exact .inr ⟨ho, T, m, hs _ hp, hT⟩

/-- Function types are lawful if their parts are. -/
theorem lawful_pi (hA : Lawful A) (hB : ∀ a, A.same a a → Lawful (B a))
    (hr : ∀ a a', A.same a a' → B a = B a') : Lawful (pi o A B) where
  symm := by
    rintro f g ⟨hf, hg, h⟩
    refine ⟨hg, hf, fun a a' ha ↦ ?_⟩
    obtain ⟨v, w, hv, hw, hvw⟩ := h a' a (hA.symm ha)
    rw [hr a a' ha]
    exact ⟨w, v, hw, hv, (hB a' (hA.right ha)).symm hvw⟩
  trans := by
    rintro f g k ⟨hf, -, h⟩ ⟨-, hk, h'⟩
    refine ⟨hf, hk, fun a a' ha ↦ ?_⟩
    obtain ⟨u, v, hu, hv, huv⟩ := h a a' ha
    obtain ⟨v', w, hv', hw, hvw⟩ := h' a' a' (hA.right ha)
    cases hv.unique hv'
    rw [← hr a a' ha] at hvw
    exact ⟨u, w, hu, hw, (hB a (hA.left ha)).trans huv hvw⟩
  looks h := h.1.looks
  seen := by
    rintro f f' g ⟨hf, hg, h⟩ hs
    refine ⟨hf.seen hs, hg, fun a a' ha ↦ ?_⟩
    obtain ⟨v, w, hv, hw, hvw⟩ := h a a' ha
    exact ⟨v, w, hv.apply_seen hs, hw, hvw⟩
  seenCode := by
    rintro X X' ⟨x, d, c, hX, hd, hc⟩ hs
    exact ⟨x, d, c, hs _ hX, hd, hc⟩

/-- Pair types are lawful if their parts are. -/
theorem lawful_sigma (hA : Lawful A) (hB : ∀ a, A.same a a → Lawful (B a))
    (hr : ∀ a a', A.same a a' → B a = B a') : Lawful (sigma o A B) where
  symm := by
    rintro p q ⟨hp, hq, a, a', d, d', ha, ha', haa, hd, hd', hdd⟩
    refine ⟨hq, hp, a', a, d', d, ha', ha, hA.symm haa, hd', hd, ?_⟩
    rw [← hr a a' haa]
    exact (hB a (hA.left haa)).symm hdd
  trans := by
    rintro p q r ⟨hp, -, a, b, d, e, ha, hb, hab, hd, he, hde⟩
      ⟨-, hr', b', c, e', f, hb', hc, hbc, he', hf, hef⟩
    cases hb.unique hb'
    cases he.unique he'
    refine ⟨hp, hr', a, c, d, f, ha, hc, hA.trans hab hbc, hd, hf, ?_⟩
    rw [← hr a b hab] at hef
    exact (hB a (hA.left hab)).trans hde hef
  looks h := h.1.looks
  seen := by
    rintro p p' q ⟨hp, hq, a, a', d, d', ha, ha', haa, hd, hd', hdd⟩ hs
    exact ⟨hp.seen hs, hq, a, a', d, d', ha.doCar_seen hs, ha', haa, hd.doCdr_seen hs, hd', hdd⟩
  seenCode := by
    rintro X X' ⟨x, d, c, hX, hd, hc⟩ hs
    exact ⟨x, d, c, hs _ hX, hd, hc⟩

/-! ## All formers -/

theorem lawful_atom : Lawful (atom o) where
  symm := by
    rintro v w (⟨s, hv, hw⟩ | h)
    · exact .inl ⟨s, hw, hv⟩
    · exact .inr h.symm
  trans := by
    rintro u v w (⟨s, hu, hv⟩ | h) (⟨s', hv', hw⟩ | h')
    · cases hv.unique hv'
      exact .inl ⟨s, hu, hw⟩
    · obtain ⟨T, m, hv'⟩ := h'.looks
      cases hv.unique hv'
    · obtain ⟨T, m, hv⟩ := h.symm.looks
      cases hv.unique hv'
    · exact .inr (h.trans h')
  looks := by
    rintro v w (⟨s, hv, -⟩ | h)
    · exact ⟨_, hv⟩
    · exact h.sees
  seen := by
    rintro v v' w (⟨s, hv, hw⟩ | h) hs
    · exact .inl ⟨s, hs _ hv, hw⟩
    · exact .inr (h.seen hs)
  seenCode hX hs := hs _ hX

theorem lawful_trivial : Lawful (trivial o) where
  symm h := ⟨h.2, h.1⟩
  trans h h' := ⟨h.1, h'.2⟩
  looks h := h.1.looks
  seen := by
    rintro v v' w ⟨hv, hw⟩ hs
    refine ⟨?_, hw⟩
    rcases hv with hv | ⟨ho, T, m, hv, hT⟩
    · exact .inl (hs _ hv)
    · exact .inr ⟨ho, T, m, hs _ hv, hT⟩
  seenCode hX hs := hs _ hX

theorem lawful_absurd : Lawful (absurd o) where
  symm h := ⟨h.2, h.1⟩
  trans h h' := ⟨h.1, h'.2⟩
  looks := by
    rintro v w ⟨⟨-, T, m, hv, -⟩, -⟩
    exact ⟨_, hv⟩
  seen := by
    rintro v v' w ⟨⟨ho, T, m, hv, hT, hm⟩, hw⟩ hs
    exact ⟨⟨ho, T, m, hs _ hv, hT, hm⟩, hw⟩
  seenCode hX hs := hs _ hX

theorem lawful_unknown (m : Neutral) : Lawful (unknown o m) where
  symm h := h.symm
  trans h h' := h.trans h'
  looks h := h.sees
  seen h hs := h.seen hs
  seenCode := by
    rintro X X' ⟨ho, U, n, hX, hU, hn⟩ hs
    exact ⟨ho, U, n, hs _ hX, hU, hn⟩

theorem lawful_equal {T : Meaning} (hT : Lawful T) (a c : Value) : Lawful (equal o T a c) where
  symm := by
    rintro v w (⟨x, y, hv, hw, hxy, hx, hx'⟩ | h)
    · exact .inl ⟨y, x, hw, hv, hT.symm hxy, hT.trans hx hxy, hT.trans hx' hxy⟩
    · exact .inr h.symm
  trans := by
    rintro u v w (⟨x, y, hu, hv, hxy, hx, hx'⟩ | h) (⟨y', z, hv', hw, hyz, -, -⟩ | h')
    · cases hv.unique hv'
      exact .inl ⟨x, z, hu, hw, hT.trans hxy hyz, hx, hx'⟩
    · obtain ⟨T, m, hv'⟩ := h'.looks
      cases hv.unique hv'
    · obtain ⟨T, m, hv⟩ := h.symm.looks
      cases hv.unique hv'
    · exact .inr (h.trans h')
  looks := by
    rintro v w (⟨x, y, hv, -⟩ | h)
    · exact ⟨_, hv⟩
    · exact h.sees
  seen := by
    rintro v v' w (⟨x, y, hv, hw, hxy, hx, hx'⟩ | h) hs
    · exact .inl ⟨x, y, hs _ hv, hw, hxy, hx, hx'⟩
    · exact .inr (h.seen hs)
  seenCode := by
    rintro X X' ⟨t, x, y, hX, ht, hx, hy⟩ hs
    exact ⟨t, x, y, hs _ hX, ht, hx, hy⟩

theorem lawful_either {L R : Meaning} (hL : Lawful L) (hR : Lawful R) :
    Lawful (either o L R) where
  symm := by
    rintro v w (⟨x, y, hv, hw, h⟩ | ⟨x, y, hv, hw, h⟩ | h)
    · exact .inl ⟨y, x, hw, hv, hL.symm h⟩
    · exact .inr (.inl ⟨y, x, hw, hv, hR.symm h⟩)
    · exact .inr (.inr h.symm)
  trans := by
    rintro u v w (⟨x, y, hu, hv, h⟩ | ⟨x, y, hu, hv, h⟩ | h)
      (⟨y', z, hv', hw, h'⟩ | ⟨y', z, hv', hw, h'⟩ | h')
    · cases hv.unique hv'
      exact .inl ⟨x, z, hu, hw, hL.trans h h'⟩
    · cases hv.unique hv'
    · obtain ⟨T, m, hv'⟩ := h'.looks
      cases hv.unique hv'
    · cases hv.unique hv'
    · cases hv.unique hv'
      exact .inr (.inl ⟨x, z, hu, hw, hR.trans h h'⟩)
    · obtain ⟨T, m, hv'⟩ := h'.looks
      cases hv.unique hv'
    · obtain ⟨T, m, hv⟩ := h.symm.looks
      cases hv.unique hv'
    · obtain ⟨T, m, hv⟩ := h.symm.looks
      cases hv.unique hv'
    · exact .inr (.inr (h.trans h'))
  looks := by
    rintro v w (⟨x, y, hv, -⟩ | ⟨x, y, hv, -⟩ | h)
    · exact ⟨_, hv⟩
    · exact ⟨_, hv⟩
    · exact h.sees
  seen := by
    rintro v v' w (⟨x, y, hv, hw, h⟩ | ⟨x, y, hv, hw, h⟩ | h) hs
    · exact .inl ⟨x, y, hs _ hv, hw, h⟩
    · exact .inr (.inl ⟨x, y, hs _ hv, hw, h⟩)
    · exact .inr (.inr (h.seen hs))
  seenCode := by
    rintro X X' ⟨l, r, hX, hl, hr⟩ hs
    exact ⟨l, r, hs _ hX, hl, hr⟩

end Meaning

open Meaning in
/-- Whatever is built from lawful meanings is lawful. -/
theorem Formed.lawful {base : Meaning → Prop} (hb : ∀ S, base S → Lawful S) {S : Meaning}
    (h : Formed o base S) : Lawful S := by
  induction h with
  | base h => exact hb _ h
  | nat =>
    exact ⟨SameNat.symm, SameNat.trans, SameNat.looks, SameNat.seen, fun hX hs ↦ hs _ hX⟩
  | atom => exact lawful_atom
  | trivial => exact lawful_trivial
  | absurd => exact lawful_absurd
  | unknown => exact lawful_unknown _
  | list _ ih => exact ⟨SameList.symm ih, SameList.trans ih, SameList.looks, SameList.seen, listCode.seen⟩
  | vec _ _ ih => exact ⟨SameVec.symm ih, SameVec.trans ih, SameVec.looks, SameVec.seen, vecCode.seen⟩
  | equal _ _ _ ih => exact lawful_equal ih _ _
  | either _ _ ihL ihR => exact lawful_either ihL ihR
  | pi _ _ hr ihA ihB => exact lawful_pi ihA ihB hr
  | sigma _ _ hr ihA ihB => exact lawful_sigma ihA ihB hr

theorem Small.lawful {S : Meaning} (h : Small o S) : Lawful S := Formed.lawful nofun h

end LittleTypes.Idealized
