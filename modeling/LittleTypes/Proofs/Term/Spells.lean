import LittleTypes.Proofs.Term.Nameless

/-!
# Terms that spell a nameless form

A term spells a nameless form when that is its nameless form, as it is or with all elements of the
empty type alike.  What a term looks like that spells a given form is read off here once for each
constructor of normal forms.
-/

namespace LittleTypes

namespace Nameless

variable (c : Bool)

@[simp] theorem mark_var (i : Nat) : (var i).mark c = var i := by cases c <;> rfl

@[simp] theorem mark_const (k : Const) : (const k).mark c = const k := by cases c <;> rfl

@[simp] theorem mark_quote (s : String) : (quote s).mark c = quote s := by cases c <;> rfl

@[simp] theorem mark_hole (l : Location) (t : Nameless) :
    (hole l t).mark c = hole l (t.mark c) := by cases c <;> rfl

@[simp] theorem mark_app (f a : Nameless) : (app f a).mark c = app (f.mark c) (a.mark c) := by
  cases c <;> rfl

@[simp] theorem mark_lam (b : Nameless) : (lam b).mark c = lam (b.mark c) := by cases c <;> rfl

@[simp] theorem mark_pi (a b : Nameless) : (pi a b).mark c = pi (a.mark c) (b.mark c) := by
  cases c <;> rfl

@[simp] theorem mark_sigma (a b : Nameless) :
    (sigma a b).mark c = sigma (a.mark c) (b.mark c) := by cases c <;> rfl

@[simp] theorem mark_unary (k : Unary) (a : Nameless) :
    (unary k a).mark c = unary k (a.mark c) := by cases c <;> rfl

@[simp] theorem mark_binary (k : Binary) (a b : Nameless) :
    (binary k a b).mark c = binary k (a.mark c) (b.mark c) := by cases c <;> rfl

@[simp] theorem mark_equal (t a b : Nameless) :
    (equal t a b).mark c = equal (t.mark c) (a.mark c) (b.mark c) := by cases c <;> rfl

@[simp] theorem mark_project (k : Projection) (t : Nameless) :
    (project k t).mark c = project k (t.mark c) := by cases c <;> rfl

@[simp] theorem mark_induct (k : Induction) (t m b s : Nameless) :
    (induct k t m b s).mark c = induct k (t.mark c) (m.mark c) (b.mark c) (s.mark c) := by
  cases c <;> rfl

@[simp] theorem mark_transport (k : Transport) (t m b : Nameless) :
    (transport k t m b).mark c = transport k (t.mark c) (m.mark c) (b.mark c) := by
  cases c <;> rfl

@[simp] theorem mark_indAbsurd (t m : Nameless) :
    (indAbsurd t m).mark c = indAbsurd (t.mark c) (m.mark c) := by cases c <;> rfl

@[simp] theorem mark_trans (l r : Nameless) : (trans l r).mark c = trans (l.mark c) (r.mark c) := by
  cases c <;> rfl

@[simp] theorem mark_cong (t d f : Nameless) :
    (cong t d f).mark c = cong (t.mark c) (d.mark c) (f.mark c) := by cases c <;> rfl

@[simp] theorem mark_indVec (n t m b s : Nameless) :
    (indVec n t m b s).mark c =
      indVec (n.mark c) (t.mark c) (m.mark c) (b.mark c) (s.mark c) := by cases c <;> rfl

/-- What stands below an annotation with the empty type is kept or replaced. -/
theorem mark_absurd (e : Nameless) :
    (the (const .absurd) e).mark c = the (const .absurd) (if c then anyAbsurd else e) := by
  cases c <;> rfl

/-- The base of a recursor is kept, or else its type is the empty type. -/
theorem mark_recursor (k : Recursor) (t baseType b s : Nameless) :
    (recursor k t baseType b s).mark c =
      recursor k (t.mark c) (baseType.mark c)
        (if c && baseType.isAbsurd then anyAbsurd else b.mark c) (s.mark c) := by
  cases c with
  | false => rfl
  | true =>
    simp only [mark, blur, Bool.true_and, if_true]
    split
    · cases baseType with
      | const k => rfl
      | _ => contradiction
    · rfl

end Nameless

/-- A term spells a nameless form, given what its names mean and the number of binders around
it. -/
def Spells (c : Bool) (θ : Levels) (k : Nat) (t : Term) (N : Nameless) : Prop :=
  t.nameless θ k = N.mark c

namespace Spells

variable {c : Bool} {θ : Levels} {k : Nat} {t : Term}

theorem of_var {i : Nat} (h : Spells c θ k t (.var i)) : ∃ x, t = .var x ∧ θ x = some i := by
  cases t <;> simp [Spells] at h
  exact ⟨_, rfl, h⟩

theorem of_const {d : Const} (h : Spells c θ k t (.const d)) : t = .const d := by
  cases t <;> simp [Spells] at h
  rw [h]

theorem of_quote {s : String} (h : Spells c θ k t (.quote s)) : t = .quote s := by
  cases t <;> simp [Spells] at h
  rw [h]

theorem of_hole {l : Location} {T : Nameless} (h : Spells c θ k t (.hole l T)) :
    ∃ u, t = .hole l u ∧ Spells c θ k u T := by
  cases t <;> simp [Spells] at h
  obtain ⟨rfl, h⟩ := h
  exact ⟨_, rfl, h⟩

theorem of_app {F A : Nameless} (h : Spells c θ k t (.app F A)) :
    ∃ f a, t = .app f a ∧ Spells c θ k f F ∧ Spells c θ k a A := by
  cases t <;> simp [Spells] at h
  exact ⟨_, _, rfl, h⟩

theorem of_lam {B : Nameless} (h : Spells c θ k t (.lam B)) :
    ∃ x b, t = .lam x b ∧ Spells c (θ.bind x k) (k + 1) b B := by
  cases t <;> simp [Spells] at h
  exact ⟨_, _, rfl, h⟩

theorem of_pi {A B : Nameless} (h : Spells c θ k t (.pi A B)) :
    ∃ x a b, t = .pi x a b ∧ Spells c θ k a A ∧ Spells c (θ.bind x k) (k + 1) b B := by
  cases t <;> simp [Spells] at h
  exact ⟨_, _, _, rfl, h⟩

theorem of_sigma {A B : Nameless} (h : Spells c θ k t (.sigma A B)) :
    ∃ x a b, t = .sigma x a b ∧ Spells c θ k a A ∧ Spells c (θ.bind x k) (k + 1) b B := by
  cases t <;> simp [Spells] at h
  exact ⟨_, _, _, rfl, h⟩

theorem of_unary {d : Unary} {A : Nameless} (h : Spells c θ k t (.unary d A)) :
    ∃ a, t = .unary d a ∧ Spells c θ k a A := by
  cases t <;> simp [Spells] at h
  obtain ⟨rfl, h⟩ := h
  exact ⟨_, rfl, h⟩

theorem of_binary {d : Binary} {A B : Nameless} (h : Spells c θ k t (.binary d A B)) :
    ∃ a b, t = .binary d a b ∧ Spells c θ k a A ∧ Spells c θ k b B := by
  cases t <;> simp [Spells] at h
  obtain ⟨rfl, h⟩ := h
  exact ⟨_, _, rfl, h⟩

theorem of_equal {T A B : Nameless} (h : Spells c θ k t (.equal T A B)) :
    ∃ u a b, t = .equal u a b ∧ Spells c θ k u T ∧ Spells c θ k a A ∧ Spells c θ k b B := by
  cases t <;> simp [Spells] at h
  exact ⟨_, _, _, rfl, h⟩

theorem of_project {d : Projection} {T : Nameless} (h : Spells c θ k t (.project d T)) :
    ∃ u, t = .project d u ∧ Spells c θ k u T := by
  cases t <;> simp [Spells] at h
  obtain ⟨rfl, h⟩ := h
  exact ⟨_, rfl, h⟩

/-- Below an annotation with the empty type there is what is spelled, or anything goes. -/
theorem of_absurd {E : Nameless} (h : Spells c θ k t (.the (.const .absurd) E)) :
    ∃ u e, t = .the u e ∧ u = .const .absurd ∧
      (c = false ∧ Spells c θ k e E ∨ e = .hole {} (.const .absurd)) := by
  cases t <;> simp [Spells, Nameless.mark_absurd] at h
  obtain ⟨hu, he⟩ := h
  refine ⟨_, _, rfl, of_const (c := false) hu, ?_⟩
  cases c with
  | false => exact .inl ⟨rfl, he⟩
  | true =>
    obtain ⟨v, rfl, hv⟩ := of_hole (c := false) he
    exact .inr (by rw [of_const hv])

/-- The base of a recursor is what is spelled, or anything goes. -/
theorem of_recursor {d : Recursor} {T X B S : Nameless} (h : Spells c θ k t (.recursor d T X B S)) :
    ∃ u x b s, t = .recursor d u x b s ∧ Spells c θ k u T ∧ Spells c θ k x X ∧
      (Spells c θ k b B ∨ X = .const .absurd ∧ b = .hole {} (.const .absurd)) ∧
      Spells c θ k s S := by
  cases t <;> simp only [Spells, Nameless.mark_recursor, Term.nameless_recursor,
    Nameless.recursor.injEq] at h
  case recursor e u x b s =>
    obtain ⟨rfl, hu, hx, hb, hs⟩ := h
    refine ⟨u, x, b, s, rfl, hu, hx, ?_, hs⟩
    split at hb
    · rename_i hc
      obtain ⟨v, rfl, hv⟩ := of_hole (c := false) hb
      rw [Bool.and_eq_true, Nameless.isAbsurd_iff] at hc
      exact .inr ⟨hc.2, by rw [of_const hv]⟩
    · exact .inl hb
  all_goals simp at h

theorem of_induct {d : Induction} {T M B S : Nameless} (h : Spells c θ k t (.induct d T M B S)) :
    ∃ u m b s, t = .induct d u m b s ∧ Spells c θ k u T ∧ Spells c θ k m M ∧ Spells c θ k b B ∧
      Spells c θ k s S := by
  cases t <;> simp [Spells] at h
  obtain ⟨rfl, h⟩ := h
  exact ⟨_, _, _, _, rfl, h⟩

theorem of_transport {d : Transport} {T M B : Nameless} (h : Spells c θ k t (.transport d T M B)) :
    ∃ u m b, t = .transport d u m b ∧ Spells c θ k u T ∧ Spells c θ k m M ∧ Spells c θ k b B := by
  cases t <;> simp [Spells] at h
  obtain ⟨rfl, h⟩ := h
  exact ⟨_, _, _, rfl, h⟩

theorem of_indAbsurd {T M : Nameless} (h : Spells c θ k t (.indAbsurd T M)) :
    ∃ u m, t = .indAbsurd u m ∧ Spells c θ k u T ∧ Spells c θ k m M := by
  cases t <;> simp [Spells] at h
  exact ⟨_, _, rfl, h⟩

theorem of_trans {L R : Nameless} (h : Spells c θ k t (.trans L R)) :
    ∃ l r, t = .trans l r ∧ Spells c θ k l L ∧ Spells c θ k r R := by
  cases t <;> simp [Spells] at h
  exact ⟨_, _, rfl, h⟩

theorem of_cong {T D F : Nameless} (h : Spells c θ k t (.cong T D F)) :
    ∃ u d f, t = .cong u d f ∧ Spells c θ k u T ∧ Spells c θ k d D ∧ Spells c θ k f F := by
  cases t <;> simp [Spells] at h
  exact ⟨_, _, _, rfl, h⟩

theorem of_indVec {L T M B S : Nameless} (h : Spells c θ k t (.indVec L T M B S)) :
    ∃ l u m b s, t = .indVec l u m b s ∧ Spells c θ k l L ∧ Spells c θ k u T ∧ Spells c θ k m M ∧
      Spells c θ k b B ∧ Spells c θ k s S := by
  cases t <;> simp [Spells] at h
  exact ⟨_, _, _, _, _, rfl, h⟩

end Spells

end LittleTypes
