import LittleTypes.Proofs.Logic.Motives
import LittleTypes.Proofs.Term.Spells

/-!
# What normal forms denote

A world gives a tuple of values to every level, one for each side of a logic.  A normal form denotes
an element in a world when every term that spells it runs to that element, or to one that is the
same, once the names of the term have the values that the world gives to their levels.
-/

namespace LittleTypes.Idealized

/-- A world of a logic, and the values of each level so far. -/
structure GlueWorld (L : Logic) where
  base : L.World
  values : List (L.Index → Value)

namespace GlueWorld

variable {L : Logic}

/-- How many levels there are. -/
def size (W : GlueWorld L) : Nat := W.values.length

/-- Later worlds have more levels. -/
def le (W W' : GlueWorld L) : Prop := L.le W.base W'.base ∧ W.values <+: W'.values

/-- One more level, in a later world of the logic. -/
def next (W : GlueWorld L) (ω : L.World) (a : L.Index → Value) : GlueWorld L :=
  ⟨ω, W.values ++ [a]⟩

@[simp] theorem size_next (W : GlueWorld L) (ω : L.World) (a : L.Index → Value) :
    (W.next ω a).size = W.size + 1 := by
  simp [size, next]

variable {W W' W'' : GlueWorld L} (hL : L.Stable)

include hL

theorem le_refl (W : GlueWorld L) : W.le W := ⟨hL.le_refl _, List.prefix_refl _⟩

theorem le_trans (h : W.le W') (h' : W'.le W'') : W.le W'' :=
  ⟨hL.le_trans h.1 h'.1, h.2.trans h'.2⟩

omit hL in
theorem le_next {ω : L.World} (h : L.le W.base ω) (a : L.Index → Value) : W.le (W.next ω a) :=
  ⟨h, List.prefix_append _ _⟩

end GlueWorld

variable {L : Logic}

/-- The names have the values that are given to their levels. -/
def Fits (θ : Levels) (σ : List (L.Index → Value)) (ρ : L.Index → Env) : Prop :=
  ∀ x k, θ x = some k → ∃ a, σ[k]? = some a ∧ ∀ i, (ρ i).lookup x = some (a i)

/-- One more name, for the next level. -/
theorem Fits.bind {θ : Levels} {σ : List (L.Index → Value)} {ρ : L.Index → Env}
    (h : Fits θ σ ρ) (x : String) (a : L.Index → Value) :
    Fits (θ.bind x σ.length) (σ ++ [a]) fun i ↦ .cons x (a i) (ρ i) := by
  intro y k hk
  by_cases e : y = x
  · subst e
    rw [Levels.bind_self] at hk
    cases hk
    exact ⟨a, by simp, fun i ↦ Env.lookup_cons_self y (a i) (ρ i)⟩
  · rw [Levels.bind_of_ne θ _ e] at hk
    obtain ⟨b, hb, hρ⟩ := h y k hk
    refine ⟨b, ?_, fun i ↦ (Env.lookup_cons_of_ne (Ne.symm e) (a i) (ρ i)).trans (hρ i)⟩
    obtain ⟨hlt, rfl⟩ := List.getElem?_eq_some_iff.1 hb
    rw [List.getElem?_append_left hlt, List.getElem?_eq_getElem hlt]

variable (L) in
/-- An element that is the same as another on every side. -/
structure Logic.Like (ω : L.World) (X w v : L.Index → Value) : Prop where
  elem : L.elem ω X v
  same : ∀ i, Same (L.model i) (X i) (v i) (w i)

variable (L) in
/-- A type that is the same as another on every side. -/
structure Logic.LikeType (s : Size) (ω : L.World) (X Y : L.Index → Value) : Prop where
  type : L.type s ω Y
  same : ∀ i, SameType (L.model i) (Y i) (X i)

variable (c : Bool)

/-- The terms that spell a normal form run to the same element of a type. -/
def Denotes (W : GlueWorld L) (N : Nameless) (X w : L.Index → Value) : Prop :=
  ∀ θ ρ t, Fits θ W.values ρ → Spells c θ W.size t N →
    ∃ v, (∀ i, Runs (eval (ρ i) t) (v i)) ∧ L.Like W.base X w v

/-- The terms that spell a normal form run to the same type. -/
def DenotesType (s : Size) (W : GlueWorld L) (N : Nameless) (X : L.Index → Value) : Prop :=
  ∀ θ ρ t, Fits θ W.values ρ → Spells c θ W.size t N →
    ∃ Y, (∀ i, Runs (eval (ρ i) t) (Y i)) ∧ L.LikeType s W.base X Y

variable (L) in
/-- No element of a side is left out. -/
def Logic.Full : Prop :=
  ∀ {ω X i a}, L.type .large ω X → Same (L.model i) (X i) a a → ∃ v, L.elem ω X v ∧ v i = a

/-- What has to be known beforehand is known of the terms that spell a normal form.  If elements of
some side are left out, then it is also known that they are the same there. -/
def Assures (W : GlueWorld L) (N : Nameless) (X w : L.Index → Value) : Prop :=
  ∀ θ ρ t v, Fits θ W.values ρ → Spells c θ W.size t N → (∀ i, Runs (eval (ρ i) t) (v i)) →
    L.preElem W.base X v ∧ (L.Full ∨ ∀ i, Same (L.model i) (X i) (v i) (w i))

/-- The same for the terms that spell a type. -/
def AssuresType (s : Size) (W : GlueWorld L) (N : Nameless) (X : L.Index → Value) : Prop :=
  ∀ θ ρ t Y, Fits θ W.values ρ → Spells c θ W.size t N → (∀ i, Runs (eval (ρ i) t) (Y i)) →
    L.preType s W.base Y ∧ (L.Full ∨ ∀ i, SameType (L.model i) (Y i) (X i))

/-- An elimination is read back as a form that denotes an element, in whatever world comes later. -/
def Names (W : GlueWorld L) (m : Neutral) (X w : L.Index → Value) : Prop :=
  ∀ W', W.le W' → ∃ N, Reads W'.size (.neutral m) N ∧ Denotes c W' N X w

/-- A value is read back at a type as a form that denotes an element. -/
def Shows (W : GlueWorld L) (X v : Value) (X' w : L.Index → Value) : Prop :=
  ∀ W', W.le W' → ∃ N, Reads W'.size (.value X v) N ∧ Denotes c W' N X' w

/-- A type is read back as a form that denotes a type. -/
def ShowsType (s : Size) (W : GlueWorld L) (X : Value) (X' : L.Index → Value) : Prop :=
  ∀ W', W.le W' → ∃ N, Reads W'.size (.type X) N ∧ DenotesType c s W' N X'

variable {c : Bool} {s : Size} {W W' : GlueWorld L} {X Y w w' : L.Index → Value}

section

variable (hL : L.Stable)

include hL

theorem Logic.Like.conv {v : L.Index → Value} {ω : L.World} (h : L.Like ω X w v)
    (hY : L.type .large ω Y) (hXY : ∀ i, SameType (L.model i) (X i) (Y i)) : L.Like ω Y w v :=
  ⟨hL.conv h.elem hY hXY, fun i ↦ (h.same i).conv (hXY i)⟩

theorem Denotes.conv {N : Nameless} (h : Denotes c W N X w) (hY : L.type .large W.base Y)
    (hXY : ∀ i, SameType (L.model i) (X i) (Y i)) : Denotes c W N Y w := by
  intro θ ρ t hρ ht
  obtain ⟨v, hv, hvw⟩ := h θ ρ t hρ ht
  exact ⟨v, hv, hvw.conv hL hY hXY⟩

/-- A delayed term is what it denotes. -/
theorem Denotes.later {N : Nameless} (h : Denotes c W N X w) {θ : Levels} {ρ : L.Index → Env}
    {t : Term} (hρ : Fits θ W.values ρ) (ht : Spells c θ W.size t N) :
    L.Like W.base X w fun i ↦ .later (.eval (ρ i) t) := by
  obtain ⟨v, hv, hvw⟩ := h θ ρ t hρ ht
  have hs : ∀ i, SeenAs (.later (.eval (ρ i) t)) (v i) := fun i ↦ .later (Runs.eval_iff.1 (hv i))
  exact ⟨hL.elem_seen hvw.elem hs, fun i ↦ (hvw.same i).seen (hs i)⟩

/-- A delayed type is what it denotes. -/
theorem DenotesType.later {N : Nameless} (h : DenotesType c s W N X) {θ : Levels}
    {ρ : L.Index → Env} {t : Term} (hρ : Fits θ W.values ρ) (ht : Spells c θ W.size t N) :
    L.LikeType s W.base X fun i ↦ .later (.eval (ρ i) t) := by
  obtain ⟨Y, hY, hYX⟩ := h θ ρ t hρ ht
  have hs : ∀ i, SeenAs (.later (.eval (ρ i) t)) (Y i) := fun i ↦ .later (Runs.eval_iff.1 (hY i))
  exact ⟨hL.type_seen hYX.type hs, fun i ↦ (hYX.same i).seen (hs i)⟩

end

theorem Denotes.same {N : Nameless} (h : Denotes c W N X w)
    (hw : ∀ i, Same (L.model i) (X i) (w i) (w' i)) : Denotes c W N X w' := by
  intro θ ρ t hρ ht
  obtain ⟨v, hv, hvw⟩ := h θ ρ t hρ ht
  exact ⟨v, hv, hvw.elem, fun i ↦ (hvw.same i).trans (hw i)⟩

namespace Names

variable {m : Neutral}

theorem seen (h : Names c W m X w) (hs : ∀ i, SeenAs (w' i) (w i)) : Names c W m X w' := by
  intro W' hW
  obtain ⟨N, hN, hd⟩ := h W' hW
  refine ⟨N, hN, fun θ ρ t hρ ht ↦ ?_⟩
  obtain ⟨v, hv, hvw⟩ := hd θ ρ t hρ ht
  exact ⟨v, hv, hvw.elem, fun i ↦ (hvw.same i).seenRight (hs i)⟩

variable (hL : L.Stable)

include hL

theorem mono (h : Names c W m X w) (hW : W.le W') : Names c W' m X w :=
  fun W'' h' ↦ h W'' (GlueWorld.le_trans hL hW h')

theorem conv (h : Names c W m X w) (hY : L.type s W.base Y)
    (hXY : ∀ i, SameType (L.model i) (X i) (Y i)) : Names c W m Y w := by
  intro W' hW
  obtain ⟨N, hN, hd⟩ := h W' hW
  exact ⟨N, hN, hd.conv hL (hL.type_mono (hL.type_large hY) hW.1) hXY⟩

/-- An unknown value denotes the values of its level. -/
theorem var {k : Nat} (hk : W.values[k]? = some w) (hw : L.elem W.base X w) :
    Names c W (.var k) X w := by
  rintro W' ⟨hω, τ, hτ⟩
  refine ⟨.var k, .done _, fun θ ρ t hρ ht ↦ ?_⟩
  obtain ⟨x, rfl, hx⟩ := ht.of_var
  obtain ⟨a, ha, hρx⟩ := hρ x k hx
  obtain ⟨hlt, rfl⟩ := List.getElem?_eq_some_iff.1 hk
  rw [← hτ, List.getElem?_append_left hlt, List.getElem?_eq_getElem hlt] at ha
  cases ha
  refine ⟨_, fun i ↦ Runs.eval_iff.2 ?_, hL.elem_mono hw hω, hL.same hw⟩
  simp [evalPlan, hρx i]

end Names

end LittleTypes.Idealized
