import LittleTypes.Proofs.Term.Free
import LittleTypes.Term.Alpha

/-!
# Terms that match name by name

Two terms match when they are built alike and their variables correspond.  Which names correspond
is given by a pairing; a binder pairs the two names that it binds and hides whatever else they
meant.  Unlike α-equivalence this tells elements of the empty type apart, so what matches is
evaluated in the same steps.
-/

namespace LittleTypes

/-- Which names of one side correspond to which names of the other. -/
abbrev Pairing := String → String → Prop

namespace Pairing

/-- Two more names correspond, and from now on to nothing else. -/
def bind (N : Pairing) (x y : String) : Pairing :=
  fun a b ↦ a = x ∧ b = y ∨ a ≠ x ∧ b ≠ y ∧ N a b

/-- No name corresponds to two names. -/
def OneToOne (N : Pairing) : Prop := ∀ ⦃a b a' b'⦄, N a b → N a' b' → (a = a' ↔ b = b')

variable {N M : Pairing} {x y : String}

theorem bind_self : N.bind x y x y := .inl ⟨rfl, rfl⟩

theorem bind_refl (h : ∀ a, N a a) (a : String) : N.bind x x a a := by
  by_cases e : a = x
  · exact .inl ⟨e, e⟩
  · exact .inr ⟨e, e, h a⟩

theorem OneToOne.bind (h : N.OneToOne) : (N.bind x y).OneToOne := by
  rintro a b a' b' (⟨rfl, rfl⟩ | ⟨ha, hb, hab⟩) (⟨rfl, rfl⟩ | ⟨ha', hb', hab'⟩)
  · simp
  · simp [Ne.symm ha', Ne.symm hb']
  · simp [ha, hb]
  · exact h hab hab'

/-- Binding names that are not paired yet loses nothing. -/
theorem le_bind (h : ∀ a b, N a b → a ≠ x ∧ b ≠ y) {a b : String} (hab : N a b) :
    N.bind x y a b := .inr ⟨(h a b hab).1, (h a b hab).2, hab⟩

/-- A pair under a binder, apart from the two names bound, is a pair outside. -/
theorem of_bind {a b : String} (h : N.bind x y a b) (ha : a ≠ x) : N a b := by
  rcases h with ⟨rfl, -⟩ | ⟨-, -, h⟩
  · exact absurd rfl ha
  · exact h

end Pairing

/-- Terms that are built alike and whose variables correspond.  Nothing is missing from them. -/
inductive Term.Matches : Pairing → Term → Term → Prop
  | var {N : Pairing} {x y : String} : N x y → Matches N (.var x) (.var y)
  | hole {N : Pairing} {l : Location} {t t' : Term} :
    Matches N t t' → Matches N (.hole l t) (.hole l t')
  | the {N : Pairing} {t t' e e' : Term} :
    Matches N t t' → Matches N e e' → Matches N (.the t e) (.the t' e')
  | app {N : Pairing} {f f' a a' : Term} :
    Matches N f f' → Matches N a a' → Matches N (.app f a) (.app f' a')
  | numeral {N : Pairing} (n : Nat) : Matches N (.numeral n) (.numeral n)
  | quote {N : Pairing} (s : String) : Matches N (.quote s) (.quote s)
  | lam {N : Pairing} {x y : String} {b b' : Term} :
    Matches (N.bind x y) b b' → Matches N (.lam x b) (.lam y b')
  | pi {N : Pairing} {x y : String} {a a' b b' : Term} :
    Matches N a a' → Matches (N.bind x y) b b' → Matches N (.pi x a b) (.pi y a' b')
  | sigma {N : Pairing} {x y : String} {a a' b b' : Term} :
    Matches N a a' → Matches (N.bind x y) b b' → Matches N (.sigma x a b) (.sigma y a' b')
  | const {N : Pairing} (k : Const) : Matches N (.const k) (.const k)
  | unary {N : Pairing} {k : Unary} {a a' : Term} :
    Matches N a a' → Matches N (.unary k a) (.unary k a')
  | binary {N : Pairing} {k : Binary} {a a' b b' : Term} :
    Matches N a a' → Matches N b b' → Matches N (.binary k a b) (.binary k a' b')
  | equal {N : Pairing} {t t' l l' r r' : Term} :
    Matches N t t' → Matches N l l' → Matches N r r' → Matches N (.equal t l r) (.equal t' l' r')
  | project {N : Pairing} {k : Projection} {t t' : Term} :
    Matches N t t' → Matches N (.project k t) (.project k t')
  | recursor {N : Pairing} {k : Recursor} {t t' c c' b b' s s' : Term} :
    Matches N t t' → Matches N c c' → Matches N b b' → Matches N s s' →
      Matches N (.recursor k t c b s) (.recursor k t' c' b' s')
  | induct {N : Pairing} {k : Induction} {t t' m m' b b' s s' : Term} :
    Matches N t t' → Matches N m m' → Matches N b b' → Matches N s s' →
      Matches N (.induct k t m b s) (.induct k t' m' b' s')
  | transport {N : Pairing} {k : Transport} {t t' m m' b b' : Term} :
    Matches N t t' → Matches N m m' → Matches N b b' →
      Matches N (.transport k t m b) (.transport k t' m' b')
  | indAbsurd {N : Pairing} {t t' m m' : Term} :
    Matches N t t' → Matches N m m' → Matches N (.indAbsurd t m) (.indAbsurd t' m')
  | trans {N : Pairing} {l l' r r' : Term} :
    Matches N l l' → Matches N r r' → Matches N (.trans l r) (.trans l' r')
  | cong {N : Pairing} {t t' c c' f f' : Term} :
    Matches N t t' → Matches N c c' → Matches N f f' → Matches N (.cong t c f) (.cong t' c' f')
  | indVec {N : Pairing} {n n' t t' m m' b b' s s' : Term} :
    Matches N n n' → Matches N t t' → Matches N m m' → Matches N b b' → Matches N s s' →
      Matches N (.indVec n t m b s) (.indVec n' t' m' b' s')

namespace Term

variable {N M : Pairing} {t t' u u' : Term}

/-- Only what the names of the two terms mean matters. -/
theorem Matches.mono (h : Matches N t t') (hN : ∀ a ∈ t.names, ∀ b ∈ t'.names, N a b → M a b) :
    Matches M t t' := by
  -- under a binder both pairings hide the same two names
  have under : ∀ {N M : Pairing} {x y : String} {ls ls' : List String},
      (∀ a ∈ ls, ∀ b ∈ ls', N a b → M a b) →
        ∀ a ∈ ls, ∀ b ∈ ls', N.bind x y a b → M.bind x y a b := by
    rintro N M x y ls ls' h a ha b hb (⟨rfl, rfl⟩ | ⟨hx, hy, hab⟩)
    · exact .inl ⟨rfl, rfl⟩
    · exact .inr ⟨hx, hy, h a ha b hb hab⟩
  induction h generalizing M with
  | var h => exact .var (hN _ (by simp [names]) _ (by simp [names]) h)
  | numeral n => exact .numeral n
  | quote s => exact .quote s
  | const k => exact .const k
  | lam _ ih => exact .lam (ih (under fun a ha b hb ↦ hN a (by simp [names, ha]) b (by simp [names, hb])))
  | pi _ _ ih ih' =>
    exact .pi (ih fun a ha b hb ↦ hN a (by simp [names, ha]) b (by simp [names, hb]))
      (ih' (under fun a ha b hb ↦ hN a (by simp [names, ha]) b (by simp [names, hb])))
  | sigma _ _ ih ih' =>
    exact .sigma (ih fun a ha b hb ↦ hN a (by simp [names, ha]) b (by simp [names, hb]))
      (ih' (under fun a ha b hb ↦ hN a (by simp [names, ha]) b (by simp [names, hb])))
  | _ =>
    constructor <;> apply_assumption <;>
      exact fun a ha b hb ↦ hN a (by simp [names, ha]) b (by simp [names, hb])

/-- A free name corresponds to a free name. -/
theorem Matches.exists_of_mem_free (h : Matches N t t') {a : String} (ha : a ∈ t.free) :
    ∃ b ∈ t'.free, N a b := by
  have under : ∀ {N : Pairing} {x y a : String} {ls : List String}, a ≠ x →
      (∃ b ∈ ls, N.bind x y a b) → ∃ b ∈ ls.filter (· ≠ y), N a b := by
    rintro N x y a ls hx ⟨b, hb, ⟨rfl, -⟩ | ⟨-, hy, hab⟩⟩
    · exact absurd rfl hx
    · exact ⟨b, by simp [hb, hy], hab⟩
  induction h generalizing a with
  | numeral | quote | const => cases ha
  | var h => exact ⟨_, List.mem_singleton_self _, List.mem_singleton.1 ha ▸ h⟩
  | lam _ ih =>
    simp only [free, List.mem_filter, decide_eq_true_eq] at ha
    exact under ha.2 (ih ha.1)
  | pi _ _ ih ih' | sigma _ _ ih ih' =>
    simp only [free, List.mem_append, List.mem_filter, decide_eq_true_eq] at ha
    rcases ha with ha | ⟨ha, hx⟩
    · obtain ⟨b, hb, hab⟩ := ih ha
      exact ⟨b, List.mem_append_left _ hb, hab⟩
    · obtain ⟨b, hb, hab⟩ := under hx (ih' ha)
      exact ⟨b, List.mem_append_right _ hb, hab⟩
  | _ => simp only [free, List.mem_append] at ha ⊢; grind

theorem Matches.flip (h : Matches N t t') : Matches (fun a b ↦ N b a) t' t := by
  have under : ∀ (N : Pairing) (x y : String),
      (fun a b ↦ N.bind x y b a) = Pairing.bind (fun a b ↦ N b a) y x := by
    intro N x y
    funext a b
    simp only [Pairing.bind, and_comm, and_left_comm, and_assoc]
  induction h with
  | var h => exact .var h
  | lam _ ih => exact .lam (under _ _ _ ▸ ih)
  | pi _ _ ih ih' => exact .pi ih (under _ _ _ ▸ ih')
  | sigma _ _ ih ih' => exact .sigma ih (under _ _ _ ▸ ih')
  | _ => constructor <;> assumption

theorem Matches.isAbsurd_eq (h : Matches N t t') : t.isAbsurd = t'.isAbsurd := by
  cases h <;> rfl

/-- Variables under a binder are compared alike if those outside are. -/
theorem sameVariable_bind {ρ ρ' : List (String × String)} {x x' y y' : String}
    (hρ : ∀ {a a' b b'}, N a a' → M b b' → sameVariable ρ a b = sameVariable ρ' a' b')
    {a a' b b' : String} (ha : N.bind x x' a a') (hb : M.bind y y' b b') :
    sameVariable ((x, y) :: ρ) a b = sameVariable ((x', y') :: ρ') a' b' := by
  rcases ha with ⟨rfl, rfl⟩ | ⟨hx, hx', ha⟩ <;> rcases hb with ⟨rfl, rfl⟩ | ⟨hy, hy', hb⟩
  · simp [sameVariable]
  · simp [sameVariable, Ne.symm hy, Ne.symm hy']
  · simp [sameVariable, Ne.symm hx, Ne.symm hx']
  · simp [sameVariable, Ne.symm hx, Ne.symm hx', Ne.symm hy, Ne.symm hy', hρ ha hb]

/-- Comparing terms gives the same answer on both sides. -/
theorem Matches.alphaUnder_eq (h : Matches N t t') (h' : Matches M u u')
    {ρ ρ' : List (String × String)}
    (hρ : ∀ {a a' b b'}, N a a' → M b b' → sameVariable ρ a b = sameVariable ρ' a' b') :
    t.alphaUnder ρ u = t'.alphaUnder ρ' u' := by
  induction h generalizing u u' M ρ ρ' with
  | var h =>
    cases h' with
    | var h' => exact hρ h h'
    | _ => rfl
  | lam _ ih =>
    cases h' with
    | lam h' => exact ih h' (sameVariable_bind hρ)
    | _ => rfl
  | pi _ _ ih ih' =>
    cases h' with
    | pi h h' => simp only [alphaUnder, ih h hρ, ih' h' (sameVariable_bind hρ)]
    | _ => rfl
  | sigma _ _ ih ih' =>
    cases h' with
    | sigma h h' => simp only [alphaUnder, ih h hρ, ih' h' (sameVariable_bind hρ)]
    | _ => rfl
  | the h _ ih ih' =>
    cases h' with
    | the h₁ h₂ => simp only [alphaUnder, ih h₁ hρ, ih' h₂ hρ, h.isAbsurd_eq, h₁.isAbsurd_eq]
    | _ => rfl
  | recursor _ h _ _ ih₁ ih₂ ih₃ ih₄ =>
    cases h' with
    | recursor h₁ h₂ h₃ h₄ =>
      simp only [alphaUnder, ih₁ h₁ hρ, ih₂ h₂ hρ, ih₃ h₃ hρ, ih₄ h₄ hρ, h.isAbsurd_eq,
        h₂.isAbsurd_eq]
    | _ => rfl
  | hole _ ih₁ =>
    cases h' with
    | hole h₁ => simp only [alphaUnder, ih₁ h₁ hρ]
    | _ => rfl
  | app _ _ ih₁ ih₂ =>
    cases h' with
    | app h₁ h₂ => simp only [alphaUnder, ih₁ h₁ hρ, ih₂ h₂ hρ]
    | _ => rfl
  | unary _ ih₁ =>
    cases h' with
    | unary h₁ => simp only [alphaUnder, ih₁ h₁ hρ]
    | _ => rfl
  | binary _ _ ih₁ ih₂ =>
    cases h' with
    | binary h₁ h₂ => simp only [alphaUnder, ih₁ h₁ hρ, ih₂ h₂ hρ]
    | _ => rfl
  | equal _ _ _ ih₁ ih₂ ih₃ =>
    cases h' with
    | equal h₁ h₂ h₃ => simp only [alphaUnder, ih₁ h₁ hρ, ih₂ h₂ hρ, ih₃ h₃ hρ]
    | _ => rfl
  | project _ ih₁ =>
    cases h' with
    | project h₁ => simp only [alphaUnder, ih₁ h₁ hρ]
    | _ => rfl
  | induct _ _ _ _ ih₁ ih₂ ih₃ ih₄ =>
    cases h' with
    | induct h₁ h₂ h₃ h₄ => simp only [alphaUnder, ih₁ h₁ hρ, ih₂ h₂ hρ, ih₃ h₃ hρ, ih₄ h₄ hρ]
    | _ => rfl
  | transport _ _ _ ih₁ ih₂ ih₃ =>
    cases h' with
    | transport h₁ h₂ h₃ => simp only [alphaUnder, ih₁ h₁ hρ, ih₂ h₂ hρ, ih₃ h₃ hρ]
    | _ => rfl
  | indAbsurd _ _ ih₁ ih₂ =>
    cases h' with
    | indAbsurd h₁ h₂ => simp only [alphaUnder, ih₁ h₁ hρ, ih₂ h₂ hρ]
    | _ => rfl
  | trans _ _ ih₁ ih₂ =>
    cases h' with
    | trans h₁ h₂ => simp only [alphaUnder, ih₁ h₁ hρ, ih₂ h₂ hρ]
    | _ => rfl
  | cong _ _ _ ih₁ ih₂ ih₃ =>
    cases h' with
    | cong h₁ h₂ h₃ => simp only [alphaUnder, ih₁ h₁ hρ, ih₂ h₂ hρ, ih₃ h₃ hρ]
    | _ => rfl
  | indVec _ _ _ _ _ ih₁ ih₂ ih₃ ih₄ ih₅ =>
    cases h' with
    | indVec h₁ h₂ h₃ h₄ h₅ => simp only [alphaUnder, ih₁ h₁ hρ, ih₂ h₂ hρ, ih₃ h₃ hρ, ih₄ h₄ hρ, ih₅ h₅ hρ]
    | _ => rfl
  | numeral | quote | const => cases h' <;> rfl

theorem Matches.alphaEquiv_eq (hN : N.OneToOne) (h : Matches N t t') (h' : Matches N u u') :
    t.alphaEquiv u = t'.alphaEquiv u' :=
  h.alphaUnder_eq h' fun ha hb ↦ by
    rw [sameVariable, sameVariable, Bool.eq_iff_iff, beq_iff_eq, beq_iff_eq]
    exact hN ha hb

/-- What matches is α-equivalent, if only names correspond that are the same under the binders. -/
theorem Matches.alphaUnder (h : Matches N t t') {ρ : List (String × String)}
    (hρ : ∀ {a b}, N a b → sameVariable ρ a b) : t.alphaUnder ρ t' := by
  have under : ∀ {N : Pairing} {x y : String} {ρ : List (String × String)},
      (∀ {a b}, N a b → sameVariable ρ a b) →
        ∀ {a b}, N.bind x y a b → sameVariable ((x, y) :: ρ) a b := by
    rintro N x y ρ h a b (⟨rfl, rfl⟩ | ⟨hx, hy, hab⟩)
    · simp [sameVariable]
    · simp [sameVariable, Ne.symm hx, Ne.symm hy, h hab]
  induction h generalizing ρ with
  | var h => exact hρ h
  | lam _ ih => exact ih (under hρ)
  | pi _ _ ih ih' => simp [Term.alphaUnder, ih hρ, ih' (under hρ)]
  | sigma _ _ ih ih' => simp [Term.alphaUnder, ih hρ, ih' (under hρ)]
  | _ => simp_all [Term.alphaUnder]

/-- What matches by equal names is α-equivalent. -/
theorem Matches.alphaEquiv (h : Matches N t t') (hN : ∀ {a b}, N a b → a = b) :
    t.alphaEquiv t' := h.alphaUnder fun hab ↦ by simp [sameVariable, hN hab]

end Term

end LittleTypes
