import LittleTypes.Proofs.Term.Nameless

/-!
# α-equivalence by nameless forms

Terms from which nothing is missing are α-equivalent exactly if their nameless forms are the same
once all elements of the empty type are alike.
-/

namespace LittleTypes

namespace Term

/-- Nothing is missing from the term. -/
def Whole : Term → Prop
  | missing => False
  | var _ | numeral _ | quote _ | const _ => True
  | hole _ t | lam _ t | unary _ t | project _ t => t.Whole
  | the a b | app a b | pi _ a b | sigma _ a b | binary _ a b | indAbsurd a b | trans a b =>
    a.Whole ∧ b.Whole
  | equal a b c | transport _ a b c | cong a b c => a.Whole ∧ b.Whole ∧ c.Whole
  | recursor _ a b c d | induct _ a b c d => a.Whole ∧ b.Whole ∧ c.Whole ∧ d.Whole
  | indVec a b c d e => a.Whole ∧ b.Whole ∧ c.Whole ∧ d.Whole ∧ e.Whole

/-- The term in which all elements of the empty type are alike. -/
def blur : Term → Term
  | hole l t => hole l t.blur
  | the t e => if t.isAbsurd then the t (hole {} (const .absurd)) else the t.blur e.blur
  | app f a => app f.blur a.blur
  | lam x b => lam x b.blur
  | pi x a b => pi x a.blur b.blur
  | sigma x a b => sigma x a.blur b.blur
  | unary c a => unary c a.blur
  | binary c a b => binary c a.blur b.blur
  | equal t l r => equal t.blur l.blur r.blur
  | project c t => project c t.blur
  | recursor c t X b s =>
    if X.isAbsurd then recursor c t.blur X (hole {} (const .absurd)) s.blur
    else recursor c t.blur X.blur b.blur s.blur
  | induct c t m b s => induct c t.blur m.blur b.blur s.blur
  | transport c t m b => transport c t.blur m.blur b.blur
  | indAbsurd t m => indAbsurd t.blur m.blur
  | trans l r => trans l.blur r.blur
  | cong t c f => cong t.blur c.blur f.blur
  | indVec n t m b s => indVec n.blur t.blur m.blur b.blur s.blur
  | t => t

theorem eq_absurd {t : Term} (h : t.isAbsurd) : t = const .absurd := by
  cases t with
  | const c => cases c <;> first | rfl | cases h
  | _ => cases h

@[simp] theorem isAbsurd_nameless (θ : Levels) (k : Nat) (t : Term) :
    (t.nameless θ k).isAbsurd = t.isAbsurd := by
  cases t with
  | var x =>
    simp only [nameless]
    split <;> rfl
  | const c => cases c <;> rfl
  | _ => rfl

theorem nameless_blur (θ : Levels) (k : Nat) (t : Term) :
    t.blur.nameless θ k = (t.nameless θ k).blur := by
  induction t generalizing θ k with
  | var x =>
    simp only [blur, nameless]
    split <;> rfl
  | the t e iht ihe =>
    simp only [blur, nameless_the, Nameless.blur, isAbsurd_nameless]
    split
    · rfl
    · simp only [nameless_the, iht, ihe]
  | recursor c t X b s iht ihX ihb ihs =>
    simp only [blur, nameless_recursor, Nameless.blur, isAbsurd_nameless]
    split
    · simp only [nameless_recursor, iht, ihs]
      rfl
    · simp only [nameless_recursor, iht, ihX, ihb, ihs]
  | _ => simp only [blur, Nameless.blur, nameless, *]

/-- The variables that are the same under binders are those of the same level. -/
structure SameLevels (ρ : List (String × String)) (θ θ' : Levels) (k : Nat) : Prop where
  iff : ∀ x y, sameVariable ρ x y ↔ (var x).nameless θ k = (var y).nameless θ' k
  left : ∀ x i, θ x = some i → i < k
  right : ∀ x i, θ' x = some i → i < k

namespace SameLevels

variable {ρ : List (String × String)} {θ θ' : Levels} {k : Nat}

theorem below {θ : Levels} {x : String} (h : ∀ x i, θ x = some i → i < k) :
    ∀ y i, θ.bind x k y = some i → i < k + 1 := by
  intro y i hi
  unfold Levels.bind at hi
  split at hi
  · cases hi
    exact Nat.lt_succ_self k
  · exact Nat.lt_succ_of_lt (h y i hi)

theorem bind (h : SameLevels ρ θ θ' k) (x y : String) :
    SameLevels ((x, y) :: ρ) (θ.bind x k) (θ'.bind y k) (k + 1) := by
  refine ⟨fun a b ↦ ?_, below h.left, below h.right⟩
  have hab := h.iff a b
  by_cases ha : a = x
  · by_cases hb : b = y
    · simp [sameVariable, nameless, ha, hb]
    · simp only [sameVariable, ha, if_true, nameless, Levels.bind_self, Levels.bind_of_ne θ' k hb,
        decide_eq_true_eq, Ne.symm hb, false_iff]
      cases e : θ' b with
      | none => rintro ⟨⟩
      | some i =>
        rintro ⟨⟩
        exact Nat.lt_irrefl k (h.right b k e)
  · by_cases hb : b = y
    · simp only [sameVariable, hb, if_true, Ne.symm ha, if_false, nameless, Levels.bind_self,
        Levels.bind_of_ne θ k ha, Bool.false_eq_true, false_iff]
      cases e : θ a with
      | none => rintro ⟨⟩
      | some i =>
        rintro ⟨⟩
        exact Nat.lt_irrefl k (h.left a k e)
    · simp only [sameVariable, Ne.symm ha, Ne.symm hb, if_false, hab, nameless,
        Levels.bind_of_ne θ k ha, Levels.bind_of_ne θ' k hb]

/-- Outside of all binders variables are the same if they have the same name. -/
theorem nil (h : ∀ x i, θ x = some i → i < k) (hθ : ∀ x y i, θ x = some i → θ y = some i → x = y) :
    SameLevels [] θ θ k := by
  refine ⟨fun x y ↦ ?_, h, h⟩
  rw [sameVariable, beq_iff_eq]
  constructor
  · rintro rfl
    rfl
  · intro e
    simp only [nameless] at e
    cases hx : θ x with
    | none => cases hy : θ y <;> simp_all
    | some i =>
      cases hy : θ y with
      | none => simp_all
      | some j =>
        simp_all
        exact hθ _ _ _ hx hy

end SameLevels

theorem ctorIdx_blur (N : Nameless) : N.blur.ctorIdx = N.ctorIdx := by
  cases N <;> simp only [Nameless.blur] <;> (try split) <;> rfl

theorem nameless_var_cases (θ : Levels) (k : Nat) (x : String) :
    (∃ i, (var x).nameless θ k = .var i) ∨ (var x).nameless θ k = .free x := by
  simp only [nameless]
  split
  · exact .inl ⟨_, rfl⟩
  · exact .inr rfl

@[simp] theorem blur_nameless_var (θ : Levels) (k : Nat) (x : String) :
    ((var x).nameless θ k).blur = (var x).nameless θ k := by
  obtain ⟨i, h⟩ | h := nameless_var_cases θ k x <;> rw [h] <;> rfl

theorem ctorIdx_nameless (t : Term) (θ : Levels) (k : Nat) :
    t.ctorIdx = if (t.nameless θ k).ctorIdx ≤ 1 then (t.nameless θ k).ctorIdx
      else (t.nameless θ k).ctorIdx - 1 := by
  cases t with
  | var x => obtain ⟨i, h⟩ | h := nameless_var_cases θ k x <;> rw [h] <;> rfl
  | _ => rfl

/-- Terms whose nameless forms are alike have the same outermost form. -/
theorem ctorIdx_eq {t u : Term} {θ θ' : Levels} {k : Nat}
    (h : (t.nameless θ k).blur = (u.nameless θ' k).blur) : t.ctorIdx = u.ctorIdx := by
  rw [t.ctorIdx_nameless θ k, u.ctorIdx_nameless θ' k, ← ctorIdx_blur, h, ctorIdx_blur]

variable {t u : Term} {ρ : List (String × String)} {θ θ' : Levels} {k : Nat}

/-- Annotations are alike if both types are empty or everything is alike. -/
theorem blur_the_inj {t a t' a' : Term}
    (e : ((the t a).nameless θ k).blur = ((the t' a').nameless θ' k).blur) :
    t.isAbsurd = t'.isAbsurd ∧ (t'.isAbsurd ∨ (t.nameless θ k).blur = (t'.nameless θ' k).blur ∧
      (a.nameless θ k).blur = (a'.nameless θ' k).blur) := by
  simp only [nameless_the, Nameless.blur, isAbsurd_nameless] at e
  split at e <;> split at e
  · simp_all
  · rename_i hX hX'
    have h := congrArg Nameless.isAbsurd (Nameless.the.inj e).1
    rw [Nameless.isAbsurd_blur, isAbsurd_nameless, isAbsurd_nameless] at h
    exact absurd (h.symm.trans hX) hX'
  · rename_i hX hX'
    have h := congrArg Nameless.isAbsurd (Nameless.the.inj e).1
    rw [Nameless.isAbsurd_blur, isAbsurd_nameless, isAbsurd_nameless] at h
    exact absurd (h.trans hX') hX
  · simp_all

theorem blur_recursor_inj {c c' : Recursor} {t X b s t' X' b' s' : Term}
    (e : ((recursor c t X b s).nameless θ k).blur =
      ((recursor c' t' X' b' s').nameless θ' k).blur) :
    c = c' ∧ (t.nameless θ k).blur = (t'.nameless θ' k).blur ∧ X.isAbsurd = X'.isAbsurd ∧
      (X'.isAbsurd ∨ (X.nameless θ k).blur = (X'.nameless θ' k).blur ∧
        (b.nameless θ k).blur = (b'.nameless θ' k).blur) ∧
      (s.nameless θ k).blur = (s'.nameless θ' k).blur := by
  simp only [nameless_recursor, Nameless.blur, isAbsurd_nameless] at e
  split at e <;> split at e
  · simp_all
  · rename_i hX hX'
    have h := congrArg Nameless.isAbsurd (Nameless.recursor.inj e).2.2.1
    rw [Nameless.isAbsurd_blur, isAbsurd_nameless, isAbsurd_nameless] at h
    exact absurd (h.symm.trans hX) hX'
  · rename_i hX hX'
    have h := congrArg Nameless.isAbsurd (Nameless.recursor.inj e).2.2.1
    rw [Nameless.isAbsurd_blur, isAbsurd_nameless, isAbsurd_nameless] at h
    exact absurd (h.trans hX') hX
  · simp_all

/-- Terms whose nameless forms are alike are α-equivalent, if nothing is missing from them. -/
theorem alphaUnder_of_blur_eq (h : SameLevels ρ θ θ' k) (ht : t.Whole)
    (e : (t.nameless θ k).blur = (u.nameless θ' k).blur) : t.alphaUnder ρ u := by
  induction t generalizing u ρ θ θ' k with
  | missing => exact ht.elim
  | var x =>
    obtain ⟨y, rfl⟩ : ∃ y, u = var y := var.elim u (ctorIdx_eq e).symm fun y ↦ ⟨y, rfl⟩
    exact (h.iff x y).2 (by simpa using e)
  | lam x b ih =>
    obtain ⟨y, b', rfl⟩ : ∃ y b', u = lam y b' :=
      lam.elim u (ctorIdx_eq e).symm fun y b' ↦ ⟨y, b', rfl⟩
    exact ih (h.bind x y) ht (Nameless.lam.inj e)
  | pi x a b iha ihb =>
    obtain ⟨y, a', b', rfl⟩ : ∃ y a' b', u = pi y a' b' :=
      pi.elim u (ctorIdx_eq e).symm fun y a' b' ↦ ⟨y, a', b', rfl⟩
    obtain ⟨ea, eb⟩ := Nameless.pi.inj e
    simp only [alphaUnder, iha h ht.1 ea, ihb (h.bind x y) ht.2 eb, Bool.and_self]
  | sigma x a b iha ihb =>
    obtain ⟨y, a', b', rfl⟩ : ∃ y a' b', u = sigma y a' b' :=
      sigma.elim u (ctorIdx_eq e).symm fun y a' b' ↦ ⟨y, a', b', rfl⟩
    obtain ⟨ea, eb⟩ := Nameless.sigma.inj e
    simp only [alphaUnder, iha h ht.1 ea, ihb (h.bind x y) ht.2 eb, Bool.and_self]
  | the t a iht iha =>
    obtain ⟨t', a', rfl⟩ : ∃ t' a', u = the t' a' :=
      the.elim u (ctorIdx_eq e).symm fun t' a' ↦ ⟨t', a', rfl⟩
    obtain ⟨hX, h'⟩ := blur_the_inj e
    simp only [alphaUnder, hX, Bool.and_self, Bool.or_eq_true, Bool.and_eq_true]
    exact h'.imp_right fun h' ↦ ⟨iht h ht.1 h'.1, iha h ht.2 h'.2⟩
  | recursor c t X b s iht ihX ihb ihs =>
    obtain ⟨c', t', X', b', s', rfl⟩ : ∃ c' t' X' b' s', u = recursor c' t' X' b' s' :=
      recursor.elim u (ctorIdx_eq e).symm fun c' t' X' b' s' ↦ ⟨c', t', X', b', s', rfl⟩
    obtain ⟨rfl, et, hX, h', es⟩ := blur_recursor_inj e
    simp only [alphaUnder, decide_true, iht h ht.1 et, ihs h ht.2.2.2 es, hX, Bool.true_and,
      Bool.and_true, Bool.and_self, Bool.or_eq_true, Bool.and_eq_true]
    exact h'.imp_right fun h' ↦ ⟨ihX h ht.2.1 h'.1, ihb h ht.2.2.1 h'.2⟩
  | hole l t iht =>
    obtain ⟨l', t', rfl⟩ : ∃ l' t', u = hole l' t' :=
      hole.elim u (ctorIdx_eq e).symm fun l' t' ↦ ⟨l', t', rfl⟩
    obtain ⟨rfl, et⟩ := Nameless.hole.inj e
    simp only [alphaUnder, iht h ht et, decide_true, Bool.and_self]
  | app f a ihf iha =>
    obtain ⟨f', a', rfl⟩ : ∃ f' a', u = app f' a' :=
      app.elim u (ctorIdx_eq e).symm fun f' a' ↦ ⟨f', a', rfl⟩
    obtain ⟨ef, ea⟩ := Nameless.app.inj e
    simp only [alphaUnder, ihf h ht.1 ef, iha h ht.2 ea, Bool.and_self]
  | numeral n =>
    obtain ⟨n', rfl⟩ : ∃ n', u = numeral n' :=
      numeral.elim u (ctorIdx_eq e).symm fun n' ↦ ⟨n', rfl⟩
    obtain rfl := Nameless.numeral.inj e
    simp only [alphaUnder, decide_true]
  | quote s =>
    obtain ⟨s', rfl⟩ : ∃ s', u = quote s' :=
      quote.elim u (ctorIdx_eq e).symm fun s' ↦ ⟨s', rfl⟩
    obtain rfl := Nameless.quote.inj e
    simp only [alphaUnder, decide_true]
  | const c =>
    obtain ⟨c', rfl⟩ : ∃ c', u = const c' :=
      const.elim u (ctorIdx_eq e).symm fun c' ↦ ⟨c', rfl⟩
    obtain rfl := Nameless.const.inj e
    simp only [alphaUnder, decide_true]
  | unary c a iha =>
    obtain ⟨c', a', rfl⟩ : ∃ c' a', u = unary c' a' :=
      unary.elim u (ctorIdx_eq e).symm fun c' a' ↦ ⟨c', a', rfl⟩
    obtain ⟨rfl, ea⟩ := Nameless.unary.inj e
    simp only [alphaUnder, iha h ht ea, decide_true, Bool.and_self]
  | binary c a b iha ihb =>
    obtain ⟨c', a', b', rfl⟩ : ∃ c' a' b', u = binary c' a' b' :=
      binary.elim u (ctorIdx_eq e).symm fun c' a' b' ↦ ⟨c', a', b', rfl⟩
    obtain ⟨rfl, ea, eb⟩ := Nameless.binary.inj e
    simp only [alphaUnder, iha h ht.1 ea, ihb h ht.2 eb, decide_true, Bool.and_self]
  | equal t l r iht ihl ihr =>
    obtain ⟨t', l', r', rfl⟩ : ∃ t' l' r', u = equal t' l' r' :=
      equal.elim u (ctorIdx_eq e).symm fun t' l' r' ↦ ⟨t', l', r', rfl⟩
    obtain ⟨et, el, er⟩ := Nameless.equal.inj e
    simp only [alphaUnder, iht h ht.1 et, ihl h ht.2.1 el, ihr h ht.2.2 er, Bool.and_self]
  | project c t iht =>
    obtain ⟨c', t', rfl⟩ : ∃ c' t', u = project c' t' :=
      project.elim u (ctorIdx_eq e).symm fun c' t' ↦ ⟨c', t', rfl⟩
    obtain ⟨rfl, et⟩ := Nameless.project.inj e
    simp only [alphaUnder, iht h ht et, decide_true, Bool.and_self]
  | induct c t m b s iht ihm ihb ihs =>
    obtain ⟨c', t', m', b', s', rfl⟩ : ∃ c' t' m' b' s', u = induct c' t' m' b' s' :=
      induct.elim u (ctorIdx_eq e).symm fun c' t' m' b' s' ↦ ⟨c', t', m', b', s', rfl⟩
    obtain ⟨rfl, et, em, eb, es⟩ := Nameless.induct.inj e
    simp only [alphaUnder, iht h ht.1 et, ihm h ht.2.1 em, ihb h ht.2.2.1 eb, ihs h ht.2.2.2 es,
      decide_true, Bool.and_self]
  | transport c t m b iht ihm ihb =>
    obtain ⟨c', t', m', b', rfl⟩ : ∃ c' t' m' b', u = transport c' t' m' b' :=
      transport.elim u (ctorIdx_eq e).symm fun c' t' m' b' ↦ ⟨c', t', m', b', rfl⟩
    obtain ⟨rfl, et, em, eb⟩ := Nameless.transport.inj e
    simp only [alphaUnder, iht h ht.1 et, ihm h ht.2.1 em, ihb h ht.2.2 eb, decide_true,
      Bool.and_self]
  | indAbsurd t m iht ihm =>
    obtain ⟨t', m', rfl⟩ : ∃ t' m', u = indAbsurd t' m' :=
      indAbsurd.elim u (ctorIdx_eq e).symm fun t' m' ↦ ⟨t', m', rfl⟩
    obtain ⟨et, em⟩ := Nameless.indAbsurd.inj e
    simp only [alphaUnder, iht h ht.1 et, ihm h ht.2 em, Bool.and_self]
  | trans l r ihl ihr =>
    obtain ⟨l', r', rfl⟩ : ∃ l' r', u = trans l' r' :=
      trans.elim u (ctorIdx_eq e).symm fun l' r' ↦ ⟨l', r', rfl⟩
    obtain ⟨el, er⟩ := Nameless.trans.inj e
    simp only [alphaUnder, ihl h ht.1 el, ihr h ht.2 er, Bool.and_self]
  | cong t c f iht ihc ihf =>
    obtain ⟨t', c', f', rfl⟩ : ∃ t' c' f', u = cong t' c' f' :=
      cong.elim u (ctorIdx_eq e).symm fun t' c' f' ↦ ⟨t', c', f', rfl⟩
    obtain ⟨et, ec, ef⟩ := Nameless.cong.inj e
    simp only [alphaUnder, iht h ht.1 et, ihc h ht.2.1 ec, ihf h ht.2.2 ef, Bool.and_self]
  | indVec n t m b s ihn iht ihm ihb ihs =>
    obtain ⟨n', t', m', b', s', rfl⟩ : ∃ n' t' m' b' s', u = indVec n' t' m' b' s' :=
      indVec.elim u (ctorIdx_eq e).symm fun n' t' m' b' s' ↦ ⟨n', t', m', b', s', rfl⟩
    obtain ⟨en, et, em, eb, es⟩ := Nameless.indVec.inj e
    simp only [alphaUnder, ihn h ht.1 en, iht h ht.2.1 et, ihm h ht.2.2.1 em, ihb h ht.2.2.2.1 eb,
      ihs h ht.2.2.2.2 es, Bool.and_self]

/-- Terms that are α-equivalent have nameless forms that are alike. -/
theorem blur_eq_of_alphaUnder (h : SameLevels ρ θ θ' k) (e : t.alphaUnder ρ u) :
    (t.nameless θ k).blur = (u.nameless θ' k).blur := by
  fun_induction alphaUnder ρ t u generalizing θ θ' k with
  | case1 ρ x y => simpa using (h.iff x y).1 e
  | case3 ρ t a t' a' iht iha =>
    rw [Bool.or_eq_true, Bool.and_eq_true, Bool.and_eq_true] at e
    obtain ⟨ht, ht'⟩ | ⟨ht, ha⟩ := e
    · rw [eq_absurd ht, eq_absurd ht']
      rfl
    · simp only [nameless_the, Nameless.blur, iht h ht, iha h ha]
      have hX := Nameless.isAbsurd_eq_of_blur_eq (iht h ht)
      simp only [isAbsurd_nameless] at hX ⊢
      by_cases hX' : t'.isAbsurd
      · rw [eq_absurd hX', eq_absurd (hX.trans hX')]
        rfl
      · rw [hX, if_neg hX', if_neg hX']
  | case15 ρ c t X b s c' t' X' b' s' iht ihX ihb ihs =>
    simp only [Bool.or_eq_true, Bool.and_eq_true, decide_eq_true_eq] at e
    obtain ⟨⟨⟨rfl, ht⟩, ⟨hX, hX'⟩ | ⟨hX, hb⟩⟩, hs⟩ := e
    · rw [eq_absurd hX, eq_absurd hX']
      simp only [nameless_recursor, Nameless.blur, iht h ht, ihs h hs]
      rfl
    · have he := Nameless.isAbsurd_eq_of_blur_eq (ihX h hX)
      simp only [isAbsurd_nameless] at he
      simp only [nameless_recursor, Nameless.blur, isAbsurd_nameless, iht h ht, ihX h hX, ihb h hb,
        ihs h hs]
      by_cases hX' : X'.isAbsurd
      · rw [eq_absurd hX', eq_absurd (he.trans hX')]
        rfl
      · rw [he, if_neg hX', if_neg hX']
  | case7 ρ x b y b' ih => exact congrArg Nameless.lam (ih (h.bind x y) e)
  | case8 ρ x a b y a' b' iha ihb =>
    rw [Bool.and_eq_true] at e
    simp only [nameless, Nameless.blur, iha h e.1, ihb (h.bind x y) e.2]
  | case9 ρ x a b y a' b' iha ihb =>
    rw [Bool.and_eq_true] at e
    simp only [nameless, Nameless.blur, iha h e.1, ihb (h.bind x y) e.2]
  | case22 => cases e
  | _ =>
    simp only [Bool.and_eq_true, decide_eq_true_eq] at e
    simp only [nameless, Nameless.blur]
    grind -ring -linarith -lia

/-- Terms are α-equivalent exactly if their nameless forms are alike. -/
theorem alphaEquiv_iff (h : ∀ x i, θ x = some i → i < k)
    (hθ : ∀ x y i, θ x = some i → θ y = some i → x = y) (ht : t.Whole) :
    t.alphaEquiv u ↔ (t.nameless θ k).blur = (u.nameless θ k).blur :=
  ⟨blur_eq_of_alphaUnder (.nil h hθ), alphaUnder_of_blur_eq (.nil h hθ) ht⟩

end Term

end LittleTypes
