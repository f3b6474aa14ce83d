import LittleTypes.Proofs.Term.Alpha

/-!
# Terms that several runs share

Runs of the checker that are compared elaborate to terms that differ only in the names of bound
variables.
-/

namespace LittleTypes

/-- The nameless form does not depend on the level of a name that does not occur. -/
theorem Term.nameless_bind_of_not_mem {t : Term} {x : String} (hx : x ∉ t.names) (θ : Levels)
    (i k : Nat) : t.nameless (θ.bind x i) k = t.nameless θ k := by
  have comm : ∀ (θ : Levels) {y : String}, x ≠ y → ∀ m,
      (θ.bind x i).bind y m = (θ.bind y m).bind x i := by
    intro θ y hy m
    funext z
    simp only [Levels.bind]
    grind
  induction t generalizing θ k with
  | var y =>
    have hy : y ≠ x := by simpa [Term.names, eq_comm] using hx
    simp only [Term.nameless, Levels.bind_of_ne θ i hy]
  | lam y b ih =>
    simp only [Term.names, List.mem_cons, not_or] at hx
    simp only [Term.nameless, comm θ hx.1, ih hx.2]
  | pi y a b iha ihb | sigma y a b iha ihb =>
    simp only [Term.names, List.mem_cons, List.mem_append, not_or] at hx
    simp only [Term.nameless, comm θ hx.1, iha hx.2.1, ihb hx.2.2]
  | _ => simp_all [Term.names, Term.nameless]

/-- Terms of all runs, the same up to the names of bound variables. -/
structure Shared {J : Type} (t : J → Term) : Prop where
  whole : ∀ j, (t j).Whole
  alpha : ∀ j j', (t j).alphaEquiv (t j')

namespace Shared

variable {J : Type} {a b c d e : J → Term}

theorem blur_eq (h : Shared a) {θ : Levels} {k : Nat} (hθ : ∀ x i, θ x = some i → i < k)
    (hi : ∀ x y i, θ x = some i → θ y = some i → x = y) (j j' : J) :
    ((a j).nameless θ k).blur = ((a j').nameless θ k).blur :=
  (Term.alphaEquiv_iff hθ hi (h.whole j)).1 (h.alpha j j')

/-- With no name bound outside. -/
theorem blur_none (h : Shared a) (k : Nat) (j j' : J) :
    ((a j).nameless .none k).blur = ((a j').nameless .none k).blur :=
  h.blur_eq (θ := .none) nofun nofun j j'

theorem of_blur (hw : ∀ j, (a j).Whole)
    (h : ∀ j j', ((a j).nameless .none 0).blur = ((a j').nameless .none 0).blur) : Shared a :=
  ⟨hw, fun j j' ↦ (Term.alphaEquiv_iff (θ := .none) nofun nofun (hw j)).2 (h j j')⟩

/-- Whether terms are α-equivalent is the same in all runs. -/
theorem alphaEquiv_iff (ha : Shared a) (hb : Shared b) (j j' : J) :
    (a j).alphaEquiv (b j) ↔ (a j').alphaEquiv (b j') := by
  have h : ∀ {t u : Term}, t.Whole → (t.alphaEquiv u ↔
      (t.nameless .none 0).blur = (u.nameless .none 0).blur) :=
    fun ht ↦ Term.alphaEquiv_iff (θ := .none) nofun nofun ht
  rw [h (ha.whole j), h (ha.whole j'), ha.blur_none 0 j j', hb.blur_none 0 j j']

theorem const (k : Const) : Shared fun _ : J ↦ .const k :=
  ⟨fun _ ↦ trivial, fun _ _ ↦ by simp [Term.alphaEquiv, Term.alphaUnder]⟩

theorem var (x : String) : Shared fun _ : J ↦ .var x :=
  ⟨fun _ ↦ trivial, fun _ _ ↦ by simp [Term.alphaEquiv, Term.alphaUnder, Term.sameVariable]⟩

theorem quote (s : String) : Shared fun _ : J ↦ .quote s :=
  ⟨fun _ ↦ trivial, fun _ _ ↦ by simp [Term.alphaEquiv, Term.alphaUnder]⟩

theorem numeral (n : Nat) : Shared fun _ : J ↦ .numeral n :=
  ⟨fun _ ↦ trivial, fun _ _ ↦ by simp [Term.alphaEquiv, Term.alphaUnder]⟩

variable (ha : Shared a) (hb : Shared b)

include ha

theorem hole (l : Location) : Shared fun j ↦ .hole l (a j) :=
  ⟨ha.whole, fun j j' ↦ by simpa [Term.alphaEquiv, Term.alphaUnder] using ha.alpha j j'⟩

theorem unary (k : Unary) : Shared fun j ↦ .unary k (a j) :=
  ⟨ha.whole, fun j j' ↦ by simpa [Term.alphaEquiv, Term.alphaUnder] using ha.alpha j j'⟩

theorem project (k : Projection) : Shared fun j ↦ .project k (a j) :=
  ⟨ha.whole, fun j j' ↦ by simpa [Term.alphaEquiv, Term.alphaUnder] using ha.alpha j j'⟩

/-! ### Binders -/

/-- Under a binder, if all runs bind the same name. -/
theorem blur_bind (x : String) (j j' : J) :
    ((a j).nameless (Levels.none.bind x 0) 1).blur =
      ((a j').nameless (Levels.none.bind x 0) 1).blur := by
  refine ha.blur_eq (fun y i hy ↦ ?_) (fun y z i hy hz ↦ ?_) j j'
  · simp only [Levels.bind] at hy
    split at hy <;> simp_all [Levels.none]
  · simp only [Levels.bind] at hy hz
    split at hy <;> split at hz <;> simp_all [Levels.none]

/-- Under a binder, if the runs bind names that do not occur. -/
theorem blur_skip {x : J → String} (hx : ∀ j, x j ∉ (a j).names) (j j' : J) :
    ((a j).nameless (Levels.none.bind (x j) 0) 1).blur =
      ((a j').nameless (Levels.none.bind (x j') 0) 1).blur := by
  rw [Term.nameless_bind_of_not_mem (hx j), Term.nameless_bind_of_not_mem (hx j')]
  exact ha.blur_none 1 j j'

theorem lam (x : String) : Shared fun j ↦ .lam x (a j) :=
  of_blur ha.whole fun j j' ↦ by
    simp only [Term.nameless, Nameless.blur, Nat.zero_add, ha.blur_bind x j j']

include hb

theorem pi (x : String) : Shared fun j ↦ .pi x (a j) (b j) :=
  of_blur (fun j ↦ ⟨ha.whole j, hb.whole j⟩) fun j j' ↦ by
    simp only [Term.nameless, Nameless.blur, Nat.zero_add, ha.blur_none 0 j j', hb.blur_bind x j j']

theorem sigma (x : String) : Shared fun j ↦ .sigma x (a j) (b j) :=
  of_blur (fun j ↦ ⟨ha.whole j, hb.whole j⟩) fun j j' ↦ by
    simp only [Term.nameless, Nameless.blur, Nat.zero_add, ha.blur_none 0 j j', hb.blur_bind x j j']

theorem arrow {x : J → String} (hx : ∀ j, x j ∉ (b j).names) :
    Shared fun j ↦ .pi (x j) (a j) (b j) :=
  of_blur (fun j ↦ ⟨ha.whole j, hb.whole j⟩) fun j j' ↦ by
    simp only [Term.nameless, Nameless.blur, Nat.zero_add, ha.blur_none 0 j j',
      hb.blur_skip hx j j']

theorem pair {x : J → String} (hx : ∀ j, x j ∉ (b j).names) :
    Shared fun j ↦ .sigma (x j) (a j) (b j) :=
  of_blur (fun j ↦ ⟨ha.whole j, hb.whole j⟩) fun j j' ↦ by
    simp only [Term.nameless, Nameless.blur, Nat.zero_add, ha.blur_none 0 j j',
      hb.blur_skip hx j j']

/-! ### Two and more parts -/

theorem app : Shared fun j ↦ .app (a j) (b j) :=
  ⟨fun j ↦ ⟨ha.whole j, hb.whole j⟩, fun j j' ↦ by
    simpa [Term.alphaEquiv, Term.alphaUnder] using ⟨ha.alpha j j', hb.alpha j j'⟩⟩

theorem binary (k : Binary) : Shared fun j ↦ .binary k (a j) (b j) :=
  ⟨fun j ↦ ⟨ha.whole j, hb.whole j⟩, fun j j' ↦ by
    simpa [Term.alphaEquiv, Term.alphaUnder] using ⟨ha.alpha j j', hb.alpha j j'⟩⟩

theorem indAbsurd : Shared fun j ↦ .indAbsurd (a j) (b j) :=
  ⟨fun j ↦ ⟨ha.whole j, hb.whole j⟩, fun j j' ↦ by
    simpa [Term.alphaEquiv, Term.alphaUnder] using ⟨ha.alpha j j', hb.alpha j j'⟩⟩

theorem trans : Shared fun j ↦ .trans (a j) (b j) :=
  ⟨fun j ↦ ⟨ha.whole j, hb.whole j⟩, fun j j' ↦ by
    simpa [Term.alphaEquiv, Term.alphaUnder] using ⟨ha.alpha j j', hb.alpha j j'⟩⟩

variable (hc : Shared c)

include hc

theorem equal : Shared fun j ↦ .equal (a j) (b j) (c j) :=
  ⟨fun j ↦ ⟨ha.whole j, hb.whole j, hc.whole j⟩, fun j j' ↦ by
    simpa [Term.alphaEquiv, Term.alphaUnder] using
      ⟨⟨ha.alpha j j', hb.alpha j j'⟩, hc.alpha j j'⟩⟩

theorem transport (k : Transport) : Shared fun j ↦ .transport k (a j) (b j) (c j) :=
  ⟨fun j ↦ ⟨ha.whole j, hb.whole j, hc.whole j⟩, fun j j' ↦ by
    simpa [Term.alphaEquiv, Term.alphaUnder] using
      ⟨⟨ha.alpha j j', hb.alpha j j'⟩, hc.alpha j j'⟩⟩

theorem cong : Shared fun j ↦ .cong (a j) (b j) (c j) :=
  ⟨fun j ↦ ⟨ha.whole j, hb.whole j, hc.whole j⟩, fun j j' ↦ by
    simpa [Term.alphaEquiv, Term.alphaUnder] using
      ⟨⟨ha.alpha j j', hb.alpha j j'⟩, hc.alpha j j'⟩⟩

variable (hd : Shared d)

include hd

theorem recursor (k : Recursor) : Shared fun j ↦ .recursor k (a j) (b j) (c j) (d j) :=
  ⟨fun j ↦ ⟨ha.whole j, hb.whole j, hc.whole j, hd.whole j⟩, fun j j' ↦ by
    simpa [Term.alphaEquiv, Term.alphaUnder] using
      ⟨⟨ha.alpha j j', .inr ⟨hb.alpha j j', hc.alpha j j'⟩⟩, hd.alpha j j'⟩⟩

theorem induct (k : Induction) : Shared fun j ↦ .induct k (a j) (b j) (c j) (d j) :=
  ⟨fun j ↦ ⟨ha.whole j, hb.whole j, hc.whole j, hd.whole j⟩, fun j j' ↦ by
    simpa [Term.alphaEquiv, Term.alphaUnder] using
      ⟨⟨⟨ha.alpha j j', hb.alpha j j'⟩, hc.alpha j j'⟩, hd.alpha j j'⟩⟩

theorem indVec (he : Shared e) : Shared fun j ↦ .indVec (a j) (b j) (c j) (d j) (e j) :=
  ⟨fun j ↦ ⟨ha.whole j, hb.whole j, hc.whole j, hd.whole j, he.whole j⟩, fun j j' ↦ by
    simpa [Term.alphaEquiv, Term.alphaUnder] using
      ⟨⟨⟨⟨ha.alpha j j', hb.alpha j j'⟩, hc.alpha j j'⟩, hd.alpha j j'⟩, he.alpha j j'⟩⟩

end Shared

end LittleTypes
