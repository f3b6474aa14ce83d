import LittleTypes.Proofs.Glue.Names

/-!
# What types, data, functions and pairs denote

The normal form of what is not an elimination denotes what is built from what its parts denote.  A
normal form under a binder is understood in a world with one more level, for every value that this
level can have.
-/

namespace LittleTypes.Idealized

/-- A closure that does what a function does is the same function. -/
theorem Same.lamLike {o : Prop} {X d f : Value} {x y : String} {g b : Closure} (h : Same o X f f)
    (hX : Looks X (.pi x d g))
    (hb : ∀ a, Same o d a a → ∃ Z v w, Runs (enter g a) Z ∧ Runs (enter b a) v ∧
      Runs (Idealized.apply f a) w ∧ Same o Z v w) : Same o X (.lam y b) f := by
  obtain ⟨-, hf, -⟩ := (pi_iff h.type hX).1 h
  refine (pi_iff h.type hX).2 ⟨.inl ⟨_, _, .of_inSight .intro⟩, hf, fun a a' ha ↦ ?_⟩
  obtain ⟨Z, v, w, hZ, hv, hw, hvw⟩ := hb a ha.left
  obtain ⟨w', z, hw', hz, hwz⟩ := h.apply hX ha hZ
  rw [← hw.unique hw'] at hwz
  exact ⟨v, z, Z, Runs.apply_iff.2 (.bind (Looks.of_inSight .intro) hv), hz, hZ, hvw.trans hwz⟩

variable {L : Logic} {c : Bool} {s : Size} {W : GlueWorld L} {N M K : Nameless}

/-- A body with one more level. -/
theorem GlueWorld.spells_next (W : GlueWorld L) {θ : Levels} {y : String} {b : Term}
    (h : Spells c (θ.bind y W.size) (W.size + 1) b N) (ω : L.World) (a : L.Index → Value) :
    Spells c (θ.bind y W.values.length) (W.next ω a).size b N := by
  rwa [GlueWorld.size_next]

/-! ## Types -/

namespace DenotesType

variable {X Y : L.Index → Value}

theorem seen (h : DenotesType c s W N X) (hs : ∀ i, SeenAs (Y i) (X i)) :
    DenotesType c s W N Y := by
  intro θ ρ t hρ ht
  obtain ⟨Z, hZ, hZX⟩ := h θ ρ t hρ ht
  exact ⟨Z, hZ, hZX.type, fun i ↦ (hZX.same i).seenRight (hs i)⟩

variable (hL : L.Lawful)

include hL

/-- A type that is denoted as an element of the universe. -/
theorem of_elem (h : Denotes c W N (fun _ ↦ .const .univ) X) : DenotesType c s W N X := by
  intro θ ρ t hρ ht
  obtain ⟨Z, hZ, hZX⟩ := h θ ρ t hρ ht
  refine ⟨Z, hZ, ?_, fun i ↦ (hZX.same i).sameType⟩
  have hs := hL.univ_iff.1 hZX.elem
  cases s with
  | small => exact hs
  | large => exact hL.type_large hs

/-- A type without parts. -/
theorem const {k : Const} (h : L.type s W.base fun _ ↦ .const k) :
    DenotesType c s W (.const k) fun _ ↦ .const k := by
  intro θ ρ t hρ ht
  cases ht.of_const
  exact ⟨_, fun i ↦ Runs.eval_iff.2 (.done _), h, fun i ↦ (hL.typeAt h i).sameType⟩

variable {e l r t a b : L.Index → Value}

theorem list (h : DenotesType c s W N e) :
    DenotesType c s W (.unary .list N) fun i ↦ .unary .list (e i) := by
  intro θ ρ t hρ ht
  obtain ⟨u, rfl, hu⟩ := ht.of_unary
  have hu := h.later hL.toStable hρ hu
  exact ⟨_, fun i ↦ Runs.eval_iff.2 (.done _), hL.list hu.type, fun i ↦ TypeAt.list (hu.same i)⟩

theorem vec (h : DenotesType c s W N e) (hl : Denotes c W M (fun _ ↦ .const .nat) l) :
    DenotesType c s W (.binary .vec N M) fun i ↦ .binary .vec (e i) (l i) := by
  intro θ ρ t hρ ht
  obtain ⟨u, n, rfl, hu, hn⟩ := ht.of_binary
  have hu := h.later hL.toStable hρ hu
  have hn := hl.later hL.toStable hρ hn
  exact ⟨_, fun i ↦ Runs.eval_iff.2 (.done _), hL.vec hu.type hn.elem, fun i ↦
    TypeAt.vec (hu.same i) (hn.same i).sameNat⟩

theorem equal (h : DenotesType c s W N t) (ha : Denotes c W M t a) (hb : Denotes c W K t b) :
    DenotesType c s W (.equal N M K) fun i ↦ .equal (t i) (a i) (b i) := by
  intro θ ρ t hρ ht
  obtain ⟨u, x, y, rfl, hu, hx, hy⟩ := ht.of_equal
  have hu := h.later hL.toStable hρ hu
  have hut := fun i ↦ (hu.same i).symm
  have hT := hL.type_large hu.type
  have hx := (ha.later hL.toStable hρ hx).conv hL.toStable hT hut
  have hy := (hb.later hL.toStable hρ hy).conv hL.toStable hT hut
  exact ⟨_, fun i ↦ Runs.eval_iff.2 (.done _), hL.equal hu.type hx.elem hy.elem, fun i ↦
    TypeAt.equal (hu.same i) (hx.same i) (hy.same i)⟩

theorem either (h : DenotesType c s W N l) (h' : DenotesType c s W M r) :
    DenotesType c s W (.binary .either N M) fun i ↦ .binary .either (l i) (r i) := by
  intro θ ρ t hρ ht
  obtain ⟨u, u', rfl, hu, hu'⟩ := ht.of_binary
  have hu := h.later hL.toStable hρ hu
  have hu' := h'.later hL.toStable hρ hu'
  exact ⟨_, fun i ↦ Runs.eval_iff.2 (.done _), hL.either hu.type hu'.type, fun i ↦
    TypeAt.either (hu.same i) (hu'.same i)⟩

end DenotesType

/-! ## Families of types -/

variable (L) in
/-- A form with one more level denotes the types of a family. -/
def DenotesFamily (c : Bool) (s : Size) (W : GlueWorld L) (N : Nameless) (d : L.Index → Value)
    (f : L.Index → Closure) : Prop :=
  ∀ ω, L.le W.base ω → ∀ a, L.elem ω d a →
    ∃ Y, (∀ i, Runs (enter (f i) (a i)) (Y i)) ∧ DenotesType c s (W.next ω a) N Y

section Families

variable {x : L.Index → String} {f : L.Index → Closure} {d : L.Index → Value} {θ : Levels}
  {ρ : L.Index → Env} {y : String} {b : Term} (hL : L.Lawful) (hF : L.Full)

/-- A term that spells the form is a family. -/
theorem DenotesFamily.family (h : DenotesFamily L c s W N d f) (hρ : Fits θ W.values ρ)
    (hb : Spells c (θ.bind y W.size) (W.size + 1) b N) :
    L.Family s W.base d fun i ↦ .body (ρ i) y b := by
  intro ω hω a ha
  obtain ⟨Y, -, hYN⟩ := h ω hω a ha
  obtain ⟨Y', hY', hYY⟩ := hYN _ _ b (hρ.bind y a) (W.spells_next hb _ _)
  exact ⟨Y', hY', hYY.type⟩

include hL hF

/-- A term that spells the form is the same family on every side. -/
theorem DenotesFamily.familyAt (h : DenotesFamily L c s W N d f) (hd : L.type .large W.base d)
    (hf : ∀ i, FamilyAt .large (L.model i) (d i) (f i) (f i)) (hρ : Fits θ W.values ρ)
    (hb : Spells c (θ.bind y W.size) (W.size + 1) b N) (i : L.Index) :
    FamilyAt .large (L.model i) (d i) (.body (ρ i) y b) (f i) := by
  intro a a' haa
  -- an element of one side is part of an element of the logic
  obtain ⟨v, hv, rfl⟩ := hF hd haa.left
  obtain ⟨Y, hY, hYN⟩ := h _ (hL.le_refl _) v hv
  obtain ⟨Y', hY', hYY⟩ := hYN _ _ b (hρ.bind y v) (W.spells_next hb _ _)
  obtain ⟨Z, Z', hZ, hZ', hZZ⟩ := hf i _ _ haa
  rw [← (hY i).unique hZ] at hZZ
  exact ⟨Y' i, Z', hY' i, hZ', (hYY.same i).trans hZZ⟩

omit hF in
/-- A family over a type is one over a type that is the same. -/
theorem Logic.Family.conv {d' : L.Index → Value} {ω : L.World} (h : L.Family s ω d f)
    (hd : L.type .large ω d) (hdd : ∀ i, SameType (L.model i) (d' i) (d i)) :
    L.Family s ω d' f :=
  fun ω' hω a ha ↦ h ω' hω a (hL.conv ha (hL.type_mono hd hω) hdd)

omit hF

/-- A function type is denoted by the forms of its parts. -/
theorem DenotesType.pi (hN : AssuresType c s W (.pi N M) fun i ↦ .pi (x i) (d i) (f i))
    (hd : DenotesType c s W N d) (hf : DenotesFamily L c s W M d f)
    (hX : L.type .large W.base fun i ↦ .pi (x i) (d i) (f i)) :
    DenotesType c s W (.pi N M) fun i ↦ .pi (x i) (d i) (f i) := by
  intro θ ρ t hρ ht
  obtain ⟨y, u, b, rfl, hu, hb⟩ := ht.of_pi
  have hu := hd.later hL.toStable hρ hu
  have hdT := (hL.of_pi hX).1
  obtain ⟨hp, hs⟩ := hN θ ρ _ _ hρ ht fun i ↦ Runs.eval_iff.2 (.done _)
  refine ⟨_, fun i ↦ Runs.eval_iff.2 (.done _),
    hL.pi hu.type ((hf.family hρ hb).conv hL hdT hu.same) hp, ?_⟩
  rcases hs with hF | hs
  · have hff := fun i ↦ (TypeAt.pi_parts (hL.typeAt hX i) (.of_inSight .intro)).2
    exact fun i ↦ .pi (hu.same i) fun a a' ha ↦
      hf.familyAt hL hF hdT hff hρ hb i a a' (ha.conv (hu.same i))
  · exact hs

/-- A pair type is denoted by the forms of its parts. -/
theorem DenotesType.sigma (hN : AssuresType c s W (.sigma N M) fun i ↦ .sigma (x i) (d i) (f i))
    (hd : DenotesType c s W N d) (hf : DenotesFamily L c s W M d f)
    (hX : L.type .large W.base fun i ↦ .sigma (x i) (d i) (f i)) :
    DenotesType c s W (.sigma N M) fun i ↦ .sigma (x i) (d i) (f i) := by
  intro θ ρ t hρ ht
  obtain ⟨y, u, b, rfl, hu, hb⟩ := ht.of_sigma
  have hu := hd.later hL.toStable hρ hu
  have hdT := (hL.of_sigma hX).1
  obtain ⟨hp, hs⟩ := hN θ ρ _ _ hρ ht fun i ↦ Runs.eval_iff.2 (.done _)
  refine ⟨_, fun i ↦ Runs.eval_iff.2 (.done _),
    hL.sigma hu.type ((hf.family hρ hb).conv hL hdT hu.same) hp, ?_⟩
  rcases hs with hF | hs
  · have hff := fun i ↦ (TypeAt.sigma_parts (hL.typeAt hX i) (.of_inSight .intro)).2
    exact fun i ↦ .sigma (hu.same i) fun a a' ha ↦
      hf.familyAt hL hF hdT hff hρ hb i a a' (ha.conv (hu.same i))
  · exact hs

end Families

/-! ## Elements -/

namespace Denotes

variable {X w : L.Index → Value} (hL : L.Lawful)

theorem seen {w' : L.Index → Value} (h : Denotes c W N X w) (hs : ∀ i, SeenAs (w' i) (w i)) :
    Denotes c W N X w' := by
  intro θ ρ t hρ ht
  obtain ⟨v, hv, hvw⟩ := h θ ρ t hρ ht
  exact ⟨v, hv, hvw.elem, fun i ↦ (hvw.same i).seenRight (hs i)⟩

include hL

/-- An element without parts. -/
theorem const {k : Const} (h : L.elem W.base X fun _ ↦ .const k) :
    Denotes c W (.const k) X fun _ ↦ .const k := by
  intro θ ρ t hρ ht
  cases ht.of_const
  exact ⟨_, fun i ↦ Runs.eval_iff.2 (.done _), h, hL.same h⟩

theorem quote (s : String) : Denotes c W (.quote s) (fun _ ↦ .const .atom) fun _ ↦ .quote s := by
  intro θ ρ t hρ ht
  cases ht.of_quote
  have hs : L.elem W.base (fun _ ↦ .const .atom) fun _ ↦ .quote s := hL.quote s
  exact ⟨_, fun i ↦ Runs.eval_iff.2 (.done _), hs, hL.same hs⟩

theorem add1 {n : L.Index → Value} (h : Denotes c W N (fun _ ↦ .const .nat) n) :
    Denotes c W (.unary .add1 N) (fun _ ↦ .const .nat) fun i ↦ .unary .add1 (n i) := by
  intro θ ρ t hρ ht
  obtain ⟨u, rfl, hu⟩ := ht.of_unary
  have hu := h.later hL.toStable hρ hu
  exact ⟨_, fun i ↦ Runs.eval_iff.2 (.done _), hL.add1 hu.elem, fun i ↦
    (hu.same i).sameNat.add1_congr.same⟩

variable {e h r k a b t x y l : L.Index → Value}

theorem listCons (hh : Denotes c W N e h) (hr : Denotes c W M (fun i ↦ .unary .list (e i)) r) :
    Denotes c W (.binary .listCons N M) (fun i ↦ .unary .list (e i))
      fun i ↦ .binary .listCons (h i) (r i) := by
  intro θ ρ t hρ ht
  obtain ⟨u, u', rfl, hu, hu'⟩ := ht.of_binary
  have hu := hh.later hL.toStable hρ hu
  have hu' := hr.later hL.toStable hρ hu'
  exact ⟨_, fun i ↦ Runs.eval_iff.2 (.done _), hL.listCons hu.elem hu'.elem, fun i ↦
    (hu.same i).listCons_congr (hu'.same i)⟩

theorem vecCons (hk : L.elem W.base (fun _ ↦ .const .nat) k) (hh : Denotes c W N e h)
    (hr : Denotes c W M (fun i ↦ .binary .vec (e i) (k i)) r) :
    Denotes c W (.binary .vecCons N M) (fun i ↦ .binary .vec (e i) (.unary .add1 (k i)))
      fun i ↦ .binary .vecCons (h i) (r i) := by
  intro θ ρ t hρ ht
  obtain ⟨u, u', rfl, hu, hu'⟩ := ht.of_binary
  have hu := hh.later hL.toStable hρ hu
  have hu' := hr.later hL.toStable hρ hu'
  exact ⟨_, fun i ↦ Runs.eval_iff.2 (.done _), hL.vecCons hk hu.elem hu'.elem, fun i ↦
    .vecCons_congr (.of_inSight .intro) (hu.same i) (hu'.same i)⟩

theorem refl (hx : Denotes c W N t x) (ht : L.elem W.base t x) :
    Denotes c W (.unary .same N) (fun i ↦ .equal (t i) (x i) (x i))
      fun i ↦ .unary .same (x i) := by
  intro θ ρ t' hρ ht'
  obtain ⟨u, rfl, hu⟩ := ht'.of_unary
  have hu := hx.later hL.toStable hρ hu
  have hT := hL.elem_type ht
  have hs : ∀ i, SameType (L.model i) _ _ := fun i ↦
    TypeAt.equal (hL.typeAt hT i) (hu.same i) (hu.same i)
  exact ⟨_, fun i ↦ Runs.eval_iff.2 (.done _),
    hL.conv (hL.refl hu.elem) (hL.equal hT ht ht) hs, fun i ↦ (hu.same i).same_refl.conv (hs i)⟩

theorem left (hx : Denotes c W N a x) (hb : L.type .large W.base b) :
    Denotes c W (.unary .left N) (fun i ↦ .binary .either (a i) (b i))
      fun i ↦ .unary .left (x i) := by
  intro θ ρ t' hρ ht'
  obtain ⟨u, rfl, hu⟩ := ht'.of_unary
  have hu := hx.later hL.toStable hρ hu
  have hT := hL.either (hL.elem_type hu.elem) hb
  exact ⟨_, fun i ↦ Runs.eval_iff.2 (.done _), hL.left hb hu.elem, fun i ↦
    (hu.same i).left_congr (hL.typeAt hT i)⟩

theorem right (hx : Denotes c W N b x) (ha : L.type .large W.base a) :
    Denotes c W (.unary .right N) (fun i ↦ .binary .either (a i) (b i))
      fun i ↦ .unary .right (x i) := by
  intro θ ρ t' hρ ht'
  obtain ⟨u, rfl, hu⟩ := ht'.of_unary
  have hu := hx.later hL.toStable hρ hu
  have hT := hL.either ha (hL.elem_type hu.elem)
  exact ⟨_, fun i ↦ Runs.eval_iff.2 (.done _), hL.right ha hu.elem, fun i ↦
    (hu.same i).right_congr (hL.typeAt hT i)⟩

section Functions

variable {z : L.Index → String} {f : L.Index → Closure} {d p Y : L.Index → Value}

/-- A pair is denoted by the forms of its components. -/
theorem cons (hp : L.elem W.base (fun i ↦ .sigma (z i) (d i) (f i)) p)
    (ha : ∀ i, Runs (doCar (p i)) (a i)) (hb : ∀ i, Runs (doCdr (p i)) (b i))
    (hY : ∀ i, Runs (enter (f i) (a i)) (Y i)) (hN : Denotes c W N d a)
    (hM : Denotes c W M Y b) :
    Denotes c W (.binary .cons N M) (fun i ↦ .sigma (z i) (d i) (f i)) p := by
  intro θ ρ t' hρ ht'
  obtain ⟨u, u', rfl, hu, hu'⟩ := ht'.of_binary
  have hu := hN.later hL.toStable hρ hu
  have hu' := hM.later hL.toStable hρ hu'
  have hX := hL.elem_type hp
  obtain ⟨Y₁, hY₁, hYT⟩ := (hL.of_sigma hX).2 _ (hL.le_refl _) _ hu.elem
  have hYY : ∀ i, SameType (L.model i) (Y i) (Y₁ i) := fun i ↦ by
    obtain ⟨Z, Z', hZ, hZ', hZZ⟩ :=
      (TypeAt.sigma_parts (hL.typeAt hX i) (.of_inSight .intro)).2 _ _ (hu.symm i)
    rw [(hY i).unique hZ, (hY₁ i).unique hZ']
    exact hZZ
  refine ⟨_, fun i ↦ Runs.eval_iff.2 (.done _),
    hL.cons hX hu.elem hY₁ (hL.conv hu'.elem hYT hYY), fun i ↦ ?_⟩
  refine .trans (.cons (hL.typeAt hX i) (.of_inSight .intro) (hu.same i) (hY₁ i)
    ((hu'.same i).conv (hYY i))) ?_
  exact (hL.same hp i).eta (.of_inSight .intro) (ha i) (hb i)

/-- A function is denoted by what it does to one more level. -/
theorem lam (hN : Assures c W (.lam N) (fun i ↦ .pi (z i) (d i) (f i)) p)
    (hp : L.elem W.base (fun i ↦ .pi (z i) (d i) (f i)) p)
    (h : ∀ ω, L.le W.base ω → ∀ a, L.elem ω d a → ∃ Y v, (∀ i, Runs (enter (f i) (a i)) (Y i)) ∧
      (∀ i, Runs (apply (p i) (a i)) (v i)) ∧ Denotes c (W.next ω a) N Y v) :
    Denotes c W (.lam N) (fun i ↦ .pi (z i) (d i) (f i)) p := by
  intro θ ρ t' hρ ht'
  obtain ⟨y, b, rfl, hb⟩ := ht'.of_lam
  have hX := hL.elem_type hp
  obtain ⟨hk, hs⟩ := hN θ ρ _ _ hρ ht' fun i ↦ Runs.eval_iff.2 (.done _)
  refine ⟨_, fun i ↦ Runs.eval_iff.2 (.done _), hL.lam hX hk fun ω hω a ha ↦ ?_, ?_⟩
  · obtain ⟨Y, v, hY, hv, hN⟩ := h ω hω a ha
    obtain ⟨w, hw, hwv⟩ := hN _ _ b (hρ.bind y a) (W.spells_next hb _ _)
    exact ⟨Y, hY, w, hw, hwv.elem⟩
  rcases hs with hF | hs
  · refine fun i ↦ (hL.same hp i).lamLike (.of_inSight .intro) fun a ha ↦ ?_
    obtain ⟨a, haL, rfl⟩ := hF (hL.of_pi hX).1 ha
    obtain ⟨Y, v, hY, hv, hN⟩ := h _ (hL.le_refl _) a haL
    obtain ⟨w, hw, hwv⟩ := hN _ _ b (hρ.bind y a) (W.spells_next hb _ _)
    exact ⟨Y i, w i, v i, hY i, hw i, hv i, hwv.same i⟩
  · exact hs

end Functions

end Denotes

end LittleTypes.Idealized
