import LittleTypes.Proofs.Sense.Situation

/-!
# One more name

How situations are built: there are no names at first, and then names are added for unknown values,
for what is defined, and for what is only claimed.
-/

namespace LittleTypes.Situation

open Idealized (Logic Tower Ground GlueWorld GlueElem GlueType Fits Runs Size SameType TypeAt Same)

variable {R : Regime} {J : Type}

/-! ## No names -/

variable (R J) in
/-- The situation without names. -/
def empty (unfinished : Prop) : Situation R J where
  context _ _ := []
  names := []
  levels := .none
  size := 0
  self _ := .nil
  unfinished := unfinished
  Holds L _ σ := ((∃ j, ∀ i, (σ i).run = j) ∨ L.Flexible) ∧ (unfinished → ∀ i, L.model i) ∧
    ∀ i, (σ i).env = .nil
  typeOf _ := none

theorem coherent_empty (o : Prop) : (empty R J o).Coherent where
  names _ _ := rfl
  bound := nofun
  env _ := .nil
  unknown _ _ _ := rfl
  known := nofun
  named := nofun
  free := nofun
  below := nofun
  injective := nofun
  mono _ _ _ _ h _ := h
  side _ _ _ h i := ⟨.inl ⟨_, fun _ ↦ rfl⟩, fun ho _ ↦ h.2.1 ho i, fun _ ↦ h.2.2 i⟩
  uniform h := h.1
  face hr _ _ _ j h hj k :=
    ⟨.inl ⟨j, fun _ ↦ hj _⟩, fun ho i ↦ hr.model k i ▸ h.2.1 ho _, fun _ ↦ h.2.2 _⟩
  model h := h.2.1
  var _ _ _ _ _ _ := nofun
  here _ _ := ⟨.inr Logic.sameness_flexible, fun _ _ ↦ trivial, by rintro (_ | _) <;> rfl⟩
  glue _ _ ω σ j h hj := by
    refine ⟨[], rfl, nofun, .inl ⟨j, ?_⟩, fun ho ↦ ?_, ?_⟩
    · rintro (_ | i)
      exacts [rfl, hj i]
    · rintro (_ | i)
      exacts [trivial, h.2.1 ho i]
    · rintro (_ | i)
      exacts [rfl, h.2.2 i]

variable (S : Situation R J)

/-- The types of the names that can be used after one more. -/
def extend (x : String) (T : Sense J) (y : String) : Option (Sense J) :=
  if y = x then some fun σ ↦ T σ.tail else (S.typeOf y).map fun F σ ↦ F σ.tail

variable {S} in
theorem extend_eq_some {x y : String} {T F : Sense J} (h : S.extend x T y = some F) :
    (y = x ∧ F = fun σ ↦ T σ.tail) ∨
      y ≠ x ∧ ∃ G, S.typeOf y = some G ∧ F = fun σ ↦ G σ.tail := by
  unfold extend at h
  split at h
  · exact .inl ⟨‹_›, (Option.some.inj h).symm⟩
  · obtain ⟨G, hG, rfl⟩ := Option.map_eq_some_iff.1 h
    exact .inr ⟨‹_›, G, hG, rfl⟩

variable {S} in
theorem extend_eq_none {x y : String} {T : Sense J} (h : S.extend x T y = none) :
    y ≠ x ∧ S.typeOf y = none := by
  unfold extend at h
  split at h
  · cases h
  · exact ⟨‹_›, Option.map_eq_none_iff.1 h⟩

/-! ## Unknown values -/

/-- A name for an unknown value of a type. -/
def bind (x : String) (T : Sense J) (d : J → R.Index → Value) : Situation R J where
  context j n := (x, .free (d j n)) :: S.context j n
  names := x :: S.names
  levels := S.levels.bind x S.size
  size := S.size + 1
  self j := .cons x (.ofLevel S.size (T (S.here j))) (S.self j)
  unfinished := S.unfinished
  Holds L ω σ := ∃ σ' a, S.Holds L ω σ' ∧ L.elem ω (fun i ↦ T (σ' i)) a ∧
    σ = fun i ↦ (σ' i).cons x (a i)
  typeOf := S.extend x T

section Bind

variable {S} {x : String} {T : Sense J} {d : J → R.Index → Value}

/-- A value for the new name. -/
theorem holds_bind {L : Logic} {ω : L.World} {σ : L.Index → Setting J} (hσ : S.Holds L ω σ)
    {a : L.Index → Idealized.Value} (ha : L.elem ω (fun i ↦ T (σ i)) a) :
    (S.bind x T d).Holds L ω fun i ↦ (σ i).cons x (a i) := ⟨σ, a, hσ, ha, rfl⟩

theorem Reaches.bind {I : Type} {σ : I → Setting J} {τ : I → Idealized.Env} (h : S.Reaches σ τ)
    (a : I → Idealized.Value) :
    (S.bind x T d).Reaches (fun i ↦ (σ i).cons x (a i)) fun i ↦ .cons x (a i) (τ i) := by
  intro i y hy
  by_cases e : y = x
  · subst e
    simp
  · rw [Setting.env_cons, Idealized.Env.lookup_cons_of_ne (Ne.symm e),
      Idealized.Env.lookup_cons_of_ne (Ne.symm e)]
    exact h i y (List.mem_of_ne_of_mem e hy)

@[simp] theorem here_bind (j : J) : (S.bind x T d).here j =
    (S.here j).cons x (.ofLevel S.size (T (S.here j))) := rfl

theorem Coherent.le_bind (hS : S.Coherent) (hx : x ∉ S.names) (y : String) (i : Nat)
    (hy : S.levels y = some i) : S.levels.bind x S.size y = some i := by
  rw [Levels.bind_of_ne _ _ ?_, hy]
  rintro rfl
  exact hx (hS.bound y i hy)

/-- The types of the names, and the new one. -/
theorem Coherent.means_bind (hS : S.Coherent) (hx : x ∉ S.names) {v : J → R.Index → Value}
    {F : Sense J} (h : S.Means v F) : (S.bind x T d).Means v fun σ ↦ F σ.tail := fun j ↦
  (h j).mono (hS.le_bind hx)

/-- The new name can be glued to a value on the other sides. -/
theorem glue_bind {L : Logic} {K : Ground L} (hK : K.Good) {ω : L.World}
    {as : List (L.Index → Idealized.Value)} {X : Option L.Index → Idealized.Value}
    {a : L.Index → Idealized.Value}
    (hX : GlueType K .large ⟨ω, as ++ [a]⟩ X) (ha : L.elem ω (fun i ↦ X (some i)) a) :
    GlueElem K ⟨ω, as ++ [a]⟩ X fun i ↦ i.elim (.ofLevel as.length (X none)) a := by
  have hk : (as ++ [a])[as.length]? = some a := by simp
  have hv : Idealized.Looks (.ofLevel as.length (X none)) (.ofLevel as.length (X none)) :=
    .of_inSight .intro
  exact .reflect hK hX hX hX.sameSelf hv (hK.var hX.side hk hv ha)
    (.var hK.base.toStable hk ha)

theorem coherent_bind (hS : S.Coherent) (hx : x ∉ S.names) (hT : S.IsType .large T)
    (hd : S.Means d T) : (S.bind x T d).Coherent where
  names j n := congrArg (x :: ·) (hS.names j n)
  bound y i hy := by
    by_cases e : y = x
    · exact e ▸ List.mem_cons_self
    · exact List.mem_cons_of_mem x (hS.bound y i ((Levels.bind_of_ne _ _ e).symm.trans hy))
  env j := .cons x (.ofVar ((hd j).mono (hS.le_bind hx))) ((hS.env j).mono (hS.le_bind hx))
  unknown hy j n := by
    obtain ⟨hne, hy⟩ := extend_eq_none hy
    exact (if_neg (Ne.symm hne)).trans (hS.unknown hy j n)
  known hy := by
    obtain ⟨rfl, rfl⟩ | ⟨hne, G, hG, rfl⟩ := extend_eq_some hy
    · exact ⟨d, hS.means_bind hx hd, fun j n ↦ if_pos rfl⟩
    · obtain ⟨v, hv, h⟩ := hS.known hG
      exact ⟨v, hS.means_bind hx hv, fun j n ↦ (if_neg (Ne.symm hne)).trans (h j n)⟩
  named hy := by
    obtain ⟨rfl, -⟩ | ⟨-, G, hG, -⟩ := extend_eq_some hy
    · exact List.mem_cons_self
    · exact List.mem_cons_of_mem x (hS.named hG)
  free {y i} hy j n := by
    by_cases e : y = x
    · exact ⟨d j n, e ▸ List.mem_cons_self⟩
    · obtain ⟨t, ht⟩ := hS.free ((Levels.bind_of_ne _ _ e).symm.trans hy) j n
      exact ⟨t, List.mem_cons_of_mem _ ht⟩
  below := Term.SameLevels.below hS.below
  injective y z i hy hz := by
    by_cases ey : y = x <;> by_cases ez : z = x
    · rw [ey, ez]
    · subst ey
      cases (Levels.bind_self _ _ _).symm.trans hy
      exact absurd (hS.below z _ ((Levels.bind_of_ne _ _ ez).symm.trans hz)) (lt_irrefl _)
    · subst ez
      cases (Levels.bind_self _ _ _).symm.trans hz
      exact absurd (hS.below y _ ((Levels.bind_of_ne _ _ ey).symm.trans hy)) (lt_irrefl _)
    · exact hS.injective y z i ((Levels.bind_of_ne _ _ ey).symm.trans hy)
        ((Levels.bind_of_ne _ _ ez).symm.trans hz)
  mono hL ω ω' σ h hω := by
    obtain ⟨σ, a, hσ, ha, rfl⟩ := h
    exact holds_bind (hS.mono hL hσ hω) (hL.sound.elem_mono ha hω)
  side hL ω σ h i := by
    obtain ⟨σ, a, hσ, ha, rfl⟩ := h
    exact holds_bind (hS.side hL hσ i)
      ⟨(hL.sound.typeAt (hT hL hσ) i).sameType, hL.sound.same ha i⟩
  uniform h := by
    obtain ⟨σ, a, hσ, ha, rfl⟩ := h
    have hu := hS.uniform hσ
    exact hu
  face hr hP ω σ j h hj k := by
    obtain ⟨σ, a, hσ, ha, rfl⟩ := h
    exact holds_bind (hS.face hr hP hσ hj k) (hr.preElem_iff.1 (hr.base.elemKnown ha) k)
  model h := by
    obtain ⟨σ, a, hσ, ha, rfl⟩ := h
    exact hS.model hσ
  var hL ω σ y F h hy := by
    obtain ⟨σ, a, hσ, ha, rfl⟩ := h
    obtain ⟨rfl, rfl⟩ | ⟨hne, G, hG, rfl⟩ := extend_eq_some hy
    · exact ⟨a, fun i ↦ by simp, ha⟩
    · obtain ⟨b, hb, he⟩ := hS.var hL hσ hG
      exact ⟨b, fun i ↦ (Idealized.Env.lookup_cons_of_ne (Ne.symm hne) _ _).trans (hb i), he⟩
  here j j' := by
    have hj := hT (.sameness True) (hS.here j j')
    exact ⟨_, Logic.pair (.ofLevel S.size (T (S.here j))) (.ofLevel S.size (T (S.here j'))),
      hS.here j j', ⟨hj, Same.reflect hj (.var _)⟩, funext fun i ↦ by cases i <;> rfl⟩
  glue {_ K} hK hT' ω σ j h hj := by
    obtain ⟨σ, a, hσ, ha, rfl⟩ := h
    obtain ⟨as, hl, hf, hg⟩ := hS.glue hK hT' hσ hj
    have hW : S.Holds K.glue ⟨ω, as ++ [a]⟩ (S.join j σ) :=
      hS.mono hT' hg ⟨hK.base.le_refl ω, List.prefix_append _ _⟩
    refine ⟨as ++ [a], by simp [hl, bind], ?_, S.join j σ, _, hW, glue_bind hK (hT hT' hW) ha,
      funext fun i ↦ ?_⟩
    · have h := hf.bind x a
      rwa [hl] at h
    · cases i with
      | none => simp [join, hl]
      | some i => rfl

end Bind

/-! ## Definitions -/

/-- A name for an element of a type. -/
def define (x : String) (T v : Sense J) (d w : J → R.Index → Value) : Situation R J where
  context j n := (x, .defn (d j n) (w j n)) :: S.context j n
  names := x :: S.names
  levels := S.levels
  size := S.size
  self j := .cons x (v (S.here j)) (S.self j)
  unfinished := S.unfinished
  Holds L ω σ := ∃ σ', S.Holds L ω σ' ∧ σ = fun i ↦ (σ' i).cons x (v (σ' i))
  typeOf := S.extend x T

section Define

variable {S} {x : String} {T v : Sense J} {d w : J → R.Index → Value}

/-- The name has its value. -/
theorem holds_define {L : Logic} {ω : L.World} {σ : L.Index → Setting J} (hσ : S.Holds L ω σ) :
    (S.define x T v d w).Holds L ω fun i ↦ (σ i).cons x (v (σ i)) := ⟨σ, hσ, rfl⟩

theorem coherent_define (hS : S.Coherent) (hx : S.levels x = none) (hv : S.IsElem T v)
    (hd : S.Means d T) (hw : S.Means w v) : (S.define x T v d w).Coherent where
  names j n := congrArg (x :: ·) (hS.names j n)
  bound y i hy := List.mem_cons_of_mem x (hS.bound y i hy)
  env j := .cons x (hw j) (hS.env j)
  unknown hy j n := by
    obtain ⟨hne, hy⟩ := extend_eq_none hy
    exact (if_neg (Ne.symm hne)).trans (hS.unknown hy j n)
  known hy := by
    obtain ⟨rfl, rfl⟩ | ⟨hne, G, hG, rfl⟩ := extend_eq_some hy
    · exact ⟨d, hd, fun j n ↦ if_pos rfl⟩
    · obtain ⟨v, hv, h⟩ := hS.known hG
      exact ⟨v, hv, fun j n ↦ (if_neg (Ne.symm hne)).trans (h j n)⟩
  named hy := by
    obtain ⟨rfl, -⟩ | ⟨-, G, hG, -⟩ := extend_eq_some hy
    · exact List.mem_cons_self
    · exact List.mem_cons_of_mem x (hS.named hG)
  free hy j n := by
    obtain ⟨t, ht⟩ := hS.free hy j n
    exact ⟨t, List.mem_cons_of_mem _ ht⟩
  below := hS.below
  injective := hS.injective
  mono hL ω ω' σ h hω := by
    obtain ⟨σ, hσ, rfl⟩ := h
    exact holds_define (hS.mono hL hσ hω)
  side hL ω σ h i := by
    obtain ⟨σ, hσ, rfl⟩ := h
    exact holds_define (hS.side hL hσ i)
  uniform h := by
    obtain ⟨σ, hσ, rfl⟩ := h
    have hu := hS.uniform hσ
    exact hu
  face hr hP ω σ j h hj k := by
    obtain ⟨σ, hσ, rfl⟩ := h
    exact holds_define (hS.face hr hP hσ hj k)
  model h := by
    obtain ⟨σ, hσ, rfl⟩ := h
    exact hS.model hσ
  var hL ω σ y F h hy := by
    obtain ⟨σ, hσ, rfl⟩ := h
    obtain ⟨rfl, rfl⟩ | ⟨hne, G, hG, rfl⟩ := extend_eq_some hy
    · exact ⟨fun i ↦ v (σ i), fun i ↦ by simp, hv hL hσ⟩
    · obtain ⟨b, hb, he⟩ := hS.var hL hσ hG
      exact ⟨b, fun i ↦ (Idealized.Env.lookup_cons_of_ne (Ne.symm hne) _ _).trans (hb i), he⟩
  here j j' := ⟨_, hS.here j j', funext fun i ↦ by cases i <;> rfl⟩
  glue hK hT ω σ j h hj := by
    obtain ⟨σ, hσ, rfl⟩ := h
    obtain ⟨as, hl, hf, hg⟩ := hS.glue hK hT hσ hj
    refine ⟨as, hl, fun y k hy ↦ ?_, _, hg, funext fun i ↦ by cases i <;> rfl⟩
    obtain ⟨a, ha, hσ⟩ := hf y k hy
    refine ⟨a, ha, fun i ↦ (Idealized.Env.lookup_cons_of_ne ?_ _ _).trans (hσ i)⟩
    rintro rfl
    cases hx.symm.trans hy

end Define

/-! ## Claims -/

/-- A name that has no value yet. -/
def claim (x : String) (d : J → R.Index → Value) : Situation R J :=
  { S with
    context := fun j n ↦ (x, .claim (d j n)) :: S.context j n
    names := x :: S.names }

theorem coherent_claim {S : Situation R J} (hS : S.Coherent) (x : String)
    (d : J → R.Index → Value) : (S.claim x d).Coherent :=
  { hS with
    names := fun j n ↦ congrArg (x :: ·) (hS.names j n)
    bound := fun y i hy ↦ List.mem_cons_of_mem x (hS.bound y i hy)
    named := fun hy ↦ List.mem_cons_of_mem x (hS.named hy)
    free := fun hy j n ↦ by
      obtain ⟨t, ht⟩ := hS.free hy j n
      exact ⟨t, List.mem_cons_of_mem _ ht⟩ }

end LittleTypes.Situation
