import LittleTypes.Proofs.Match.Term

/-!
# Terms that are filled in

A term is filled in when terms are put for its free variables and names for those that it binds.
Which terms may be put for a name is given by a filling.  Under a binder the two names that are
bound stand for each other, and what is put for the other names must not mention the new name, so
that nothing is captured.

Capture-avoiding substitution fills in a term, whatever names it chooses for the binders, and so
does renaming.
-/

namespace LittleTypes

/-- Which terms may be put for a name. -/
abbrev Filling := String → Term → Prop

namespace Filling

/-- One name more on each side. -/
def bind (S : Filling) (x y : String) : Filling :=
  fun a u ↦ a = x ∧ u = .var y ∨ a ≠ x ∧ y ∉ u.free ∧ S a u

/-- Only names are put for names. -/
def names (N : Pairing) : Filling := fun a u ↦ ∃ b, u = .var b ∧ N a b

theorem names_bind (N : Pairing) (x y : String) : (names N).bind x y = names (N.bind x y) := by
  funext a u
  simp only [names, bind, Pairing.bind, eq_iff_iff]
  constructor
  · rintro (⟨ha, hu⟩ | ⟨ha, hy, b, rfl, hb⟩)
    · exact ⟨y, hu, .inl ⟨ha, rfl⟩⟩
    · exact ⟨b, rfl, .inr ⟨ha, fun e ↦ hy (by simp [Term.free, e]), hb⟩⟩
  · rintro ⟨b, rfl, ⟨ha, rfl⟩ | ⟨ha, hb, hab⟩⟩
    · exact .inl ⟨ha, rfl⟩
    · exact .inr ⟨ha, by simpa [Term.free] using hb.symm, b, rfl, hab⟩

/-- A name that stands for itself does so under a binder that is not renamed. -/
theorem bind_refl {S : Filling} {x a : String} (h : a ≠ x → S a (.var a)) :
    S.bind x x a (.var a) := by
  by_cases e : a = x
  · exact .inl ⟨e, by rw [e]⟩
  · exact .inr ⟨e, by simpa [Term.free] using Ne.symm e, h e⟩

end Filling

/-- The second term is the first one, filled in.  It is said which names may be bound in place of
each other, and whether anything may be missing. -/
inductive Term.Filled (H : Pairing) (gaps : Prop) : Filling → Term → Term → Prop
  | missing {S : Filling} : gaps → Filled H gaps S .missing .missing
  | var {S : Filling} {x : String} {u : Term} : S x u → Filled H gaps S (.var x) u
  | hole {S : Filling} {l : Location} {t t' : Term} :
    Filled H gaps S t t' → Filled H gaps S (.hole l t) (.hole l t')
  | the {S : Filling} {t t' e e' : Term} :
    Filled H gaps S t t' → Filled H gaps S e e' → Filled H gaps S (.the t e) (.the t' e')
  | app {S : Filling} {f f' a a' : Term} :
    Filled H gaps S f f' → Filled H gaps S a a' → Filled H gaps S (.app f a) (.app f' a')
  | numeral {S : Filling} (n : Nat) : Filled H gaps S (.numeral n) (.numeral n)
  | quote {S : Filling} (s : String) : Filled H gaps S (.quote s) (.quote s)
  | lam {S : Filling} {x y : String} {b b' : Term} : H x y →
    Filled H gaps (S.bind x y) b b' → Filled H gaps S (.lam x b) (.lam y b')
  | pi {S : Filling} {x y : String} {a a' b b' : Term} : H x y → Filled H gaps S a a' →
    Filled H gaps (S.bind x y) b b' → Filled H gaps S (.pi x a b) (.pi y a' b')
  | sigma {S : Filling} {x y : String} {a a' b b' : Term} : H x y → Filled H gaps S a a' →
    Filled H gaps (S.bind x y) b b' → Filled H gaps S (.sigma x a b) (.sigma y a' b')
  | const {S : Filling} (k : Const) : Filled H gaps S (.const k) (.const k)
  | unary {S : Filling} {k : Unary} {a a' : Term} :
    Filled H gaps S a a' → Filled H gaps S (.unary k a) (.unary k a')
  | binary {S : Filling} {k : Binary} {a a' b b' : Term} :
    Filled H gaps S a a' → Filled H gaps S b b' →
      Filled H gaps S (.binary k a b) (.binary k a' b')
  | equal {S : Filling} {t t' l l' r r' : Term} :
    Filled H gaps S t t' → Filled H gaps S l l' → Filled H gaps S r r' →
      Filled H gaps S (.equal t l r) (.equal t' l' r')
  | project {S : Filling} {k : Projection} {t t' : Term} :
    Filled H gaps S t t' → Filled H gaps S (.project k t) (.project k t')
  | recursor {S : Filling} {k : Recursor} {t t' c c' b b' s s' : Term} :
    Filled H gaps S t t' → Filled H gaps S c c' → Filled H gaps S b b' → Filled H gaps S s s' →
      Filled H gaps S (.recursor k t c b s) (.recursor k t' c' b' s')
  | induct {S : Filling} {k : Induction} {t t' m m' b b' s s' : Term} :
    Filled H gaps S t t' → Filled H gaps S m m' → Filled H gaps S b b' → Filled H gaps S s s' →
      Filled H gaps S (.induct k t m b s) (.induct k t' m' b' s')
  | transport {S : Filling} {k : Transport} {t t' m m' b b' : Term} :
    Filled H gaps S t t' → Filled H gaps S m m' → Filled H gaps S b b' →
      Filled H gaps S (.transport k t m b) (.transport k t' m' b')
  | indAbsurd {S : Filling} {t t' m m' : Term} :
    Filled H gaps S t t' → Filled H gaps S m m' →
      Filled H gaps S (.indAbsurd t m) (.indAbsurd t' m')
  | trans {S : Filling} {l l' r r' : Term} :
    Filled H gaps S l l' → Filled H gaps S r r' → Filled H gaps S (.trans l r) (.trans l' r')
  | cong {S : Filling} {t t' c c' f f' : Term} :
    Filled H gaps S t t' → Filled H gaps S c c' → Filled H gaps S f f' →
      Filled H gaps S (.cong t c f) (.cong t' c' f')
  | indVec {S : Filling} {n n' t t' m m' b b' s s' : Term} :
    Filled H gaps S n n' → Filled H gaps S t t' → Filled H gaps S m m' → Filled H gaps S b b' →
      Filled H gaps S s s' → Filled H gaps S (.indVec n t m b s) (.indVec n' t' m' b' s')

namespace Term.Filled

variable {H : Pairing} {gaps : Prop} {S : Filling} {t t' : Term}

/-- A term whose free names stand for themselves is filled in by itself. -/
theorem refl (hH : ∀ x, H x x) (hg : gaps) (t : Term) (hS : ∀ a ∈ t.free, S a (.var a)) :
    t.Filled H gaps S t := by
  induction t generalizing S with
  | missing => exact .missing hg
  | var x => exact .var (hS x (by simp [free]))
  | lam x b ih =>
    exact .lam (hH x) (ih fun z hz ↦ Filling.bind_refl fun h ↦ hS z (by simp [free, hz, h]))
  | pi x a b iha ihb =>
    exact .pi (hH x) (iha fun z hz ↦ hS z (by simp [free, hz]))
      (ihb fun z hz ↦ Filling.bind_refl fun h ↦ hS z (by simp [free, hz, h]))
  | sigma x a b iha ihb =>
    exact .sigma (hH x) (iha fun z hz ↦ hS z (by simp [free, hz]))
      (ihb fun z hz ↦ Filling.bind_refl fun h ↦ hS z (by simp [free, hz, h]))
  | _ => constructor <;> apply_assumption <;> exact fun z hz ↦ hS z (by simp [free, hz])

/-- A term that is filled in with names matches what it was. -/
theorem toMatches {N : Pairing} (h : t.Filled H False (.names N) t') : t.Matches N t' := by
  generalize hS : Filling.names N = S at h
  induction h generalizing N with
  | missing h => exact h.elim
  | var h =>
    subst hS
    obtain ⟨b, rfl, hb⟩ := h
    exact .var hb
  | lam _ _ ih =>
    subst hS
    exact .lam (ih (Filling.names_bind N _ _).symm)
  | pi _ _ _ iha ihb =>
    subst hS
    exact .pi (iha rfl) (ihb (Filling.names_bind N _ _).symm)
  | sigma _ _ _ iha ihb =>
    subst hS
    exact .sigma (iha rfl) (ihb (Filling.names_bind N _ _).symm)
  | _ => constructor <;> apply_assumption <;> assumption

end Term.Filled

end LittleTypes
