import LittleTypes.Proofs.Model.Same

/-!
# Running to the same element

Functions, pairs and motives in the model: how their elements are made and what can be done with
them.
-/

namespace LittleTypes.Idealized

/-- Both plans run, to the same element of a type. -/
def RunSame (o : Prop) (X : Value) (p q : Plan Value) : Prop :=
  ∃ v w, Runs p v ∧ Runs q w ∧ Same o X v w

variable {o : Prop} {s : Size} {X Y : Value}

namespace RunSame

variable {p q : Plan Value}

theorem conv (h : RunSame o X p q) (hXY : SameType o X Y) : RunSame o Y p q := by
  obtain ⟨v, w, hv, hw, hvw⟩ := h
  exact ⟨v, w, hv, hw, hvw.conv hXY⟩

theorem done {v w : Value} (h : Same o X v w) : RunSame o X (.done v) (.done w) :=
  ⟨v, w, .done v, .done w, h⟩

/-- Looking at an element does not change it. -/
theorem look {v w : Value} (h : Same o X v w) : RunSame o X (look v) (look w) := by
  obtain ⟨v', hv⟩ := h.looks
  obtain ⟨w', hw⟩ := h.symm.looks
  exact ⟨v', w', hv, hw, (h.seen (.seen hv)).seenRight (.seen hw)⟩

/-- What is delayed is the same if the answers are. -/
theorem later {d d' : Demand} (h : RunSame o X (plan d) (plan d')) :
    Same o X (.later d) (.later d') := by
  obtain ⟨v, w, hv, hw, hvw⟩ := h
  exact (hvw.seen (.later hv)).seenRight (.later hw)

theorem bind {α β : Type} {p : Plan α} {q : Plan β} {a : α} {b : β} {f : α → Plan Value}
    {g : β → Plan Value} (ha : Runs p a) (hb : Runs q b) (h : RunSame o X (f a) (g b)) :
    RunSame o X (p >>= f) (q >>= g) := by
  obtain ⟨v, w, hv, hw, hvw⟩ := h
  exact ⟨v, w, ha.bind hv, hb.bind hw, hvw⟩

/-- Going on with an element. -/
theorem andThen {f g : Value → Plan Value} (h : RunSame o X p q)
    (hNext : ∀ v w, Runs p v → Runs q w → Same o X v w → RunSame o Y (f v) (g w)) :
    RunSame o Y (p >>= f) (q >>= g) := by
  obtain ⟨v, w, hv, hw, hvw⟩ := h
  exact bind hv hw (hNext v w hv hw hvw)

theorem result (h : RunSame o X p q) : Same o X p.result q.result := by
  obtain ⟨v, w, hv, hw, hvw⟩ := h
  rwa [hv.result_eq, hw.result_eq]

end RunSame

/-- The element that the right plan runs to is one that the left plan runs to. -/
theorem RunSame.other {p q : Plan Value} {w : Value} (h : RunSame o X p q) (hw : Runs p w) :
    ∃ v, Runs q v ∧ Same o X v w := by
  obtain ⟨v, w', hv, hw', hvw⟩ := h
  cases hw.unique hv
  exact ⟨w', hw', hvw.symm⟩

/-! ## Functions -/

namespace Same

variable {f g a a' d : Value} {x : String} {c : Closure}

/-- The same functions at the same arguments. -/
theorem apply (h : Same o X f g) (hX : Looks X (.pi x d c)) (ha : Same o d a a')
    (hY : Runs (enter c a) Y) : RunSame o Y (apply f a) (apply g a') := by
  obtain ⟨-, -, h⟩ := (pi_iff h.type hX).1 h
  obtain ⟨v, w, Z, hv, hw, hZ, hvw⟩ := h a a' ha
  cases hY.unique hZ
  exact ⟨v, w, hv, hw, hvw⟩

theorem applyArrow (h : Same o (.arrow x d Y) f g) (ha : Same o d a a') :
    RunSame o Y (Idealized.apply f a) (Idealized.apply g a') :=
  h.apply (.of_inSight .intro) ha (.done _)

/-- Functions given by closures. -/
theorem lam {y y' : String} {b b' : Closure} (h : SameType o X X) (hX : Looks X (.pi x d c))
    (hb : ∀ a a', Same o d a a' → ∃ Z, Runs (enter c a) Z ∧ RunSame o Z (enter b a) (enter b' a')) :
    Same o X (.lam y b) (.lam y' b') := by
  have hl : ∀ (y : String) (b : Closure) (a v : Value), Runs (enter b a) v →
      Runs (Idealized.apply (.lam y b) a) v := fun y b a v hv ↦
    Runs.apply_iff.2 (.bind (Looks.of_inSight .intro) hv)
  refine (pi_iff h hX).2 ⟨.inl ⟨_, _, .of_inSight .intro⟩, .inl ⟨_, _, .of_inSight .intro⟩,
    fun a a' ha ↦ ?_⟩
  obtain ⟨Z, hZ, v, w, hv, hw, hvw⟩ := hb a a' ha
  exact ⟨v, w, Z, hl y b a v hv, hl y' b' a' w hw, hZ, hvw⟩

end Same

theorem TypeAt.arrow {x x' : String} {d d' : Value} (hd : TypeAt s o d d')
    (hY : TypeAt s o X Y) : TypeAt s o (.arrow x d X) (.arrow x' d' Y) :=
  .pi hd fun _ _ _ ↦ ⟨X, Y, .done X, .done Y, hY⟩

/-! ## Pairs -/

namespace Same

variable {p q a a' e e' d : Value} {x : String} {c : Closure}

theorem car (h : Same o X p q) (hX : Looks X (.sigma x d c)) :
    RunSame o d (doCar p) (doCar q) := by
  obtain ⟨-, -, a, a', e, e', Z, ha, ha', haa, -⟩ := (sigma_iff h.type hX).1 h
  exact ⟨a, a', ha, ha', haa⟩

theorem cdr (h : Same o X p q) (hX : Looks X (.sigma x d c)) (ha : Runs (doCar p) a)
    (hY : Runs (enter c a) Y) : RunSame o Y (doCdr p) (doCdr q) := by
  obtain ⟨-, -, a₁, a', e, e', Z, ha₁, -, -, he, he', hZ, hee⟩ := (sigma_iff h.type hX).1 h
  cases ha.unique ha₁
  cases hY.unique hZ
  exact ⟨e, e', he, he', hee⟩

/-- Pairs given by their components. -/
theorem cons (h : SameType o X X) (hX : Looks X (.sigma x d c)) (ha : Same o d a a')
    (hY : Runs (enter c a) Y) (he : Same o Y e e') :
    Same o X (.binary .cons a e) (.binary .cons a' e') := by
  obtain ⟨-, hc⟩ := TypeAt.sigma_parts h hX
  obtain ⟨a₁, a₁', h₁, h₁', haa⟩ := RunSame.look ha
  obtain ⟨e₁, e₁', h₂, h₂', hee⟩ := RunSame.look he
  obtain ⟨Y', Y₁, hY', hY₁, hYY⟩ := hc a a₁ (ha.left.seenRight (.seen h₁))
  cases hY.unique hY'
  exact (sigma_iff h hX).2 ⟨.inl ⟨a, e, .of_inSight .intro⟩, .inl ⟨a', e', .of_inSight .intro⟩,
    a₁, a₁', e₁, e₁', Y₁, .bind (Looks.of_inSight .intro) h₁, .bind (Looks.of_inSight .intro) h₁',
    haa, .bind (Looks.of_inSight .intro) h₂, .bind (Looks.of_inSight .intro) h₂', hY₁,
    hee.conv hYY⟩

/-- A pair is the pair of its components. -/
theorem eta (h : Same o X p q) (hX : Looks X (.sigma x d c)) (ha : Runs (doCar q) a)
    (he : Runs (doCdr q) e) : Same o X (.binary .cons a e) q := by
  obtain ⟨-, hq, a₁, a₁', e₁, e₁', Z, ha₁, ha₁', haa, -, he₁', hZ, hee⟩ :=
    (sigma_iff h.symm.type hX).1 h.right
  cases ha.unique ha₁
  cases ha.unique ha₁'
  cases he.unique he₁'
  have hcons := cons h.type hX haa hZ hee.right
  obtain ⟨hc, -, b, b', f, f', Z', hb, -, hbb, hf, -, hZ', hff⟩ := (sigma_iff h.type hX).1 hcons
  have hba : SeenAs b a := by
    obtain ⟨w, hw, hb⟩ := Runs.bind_iff.1 hb
    cases hw.unique (Looks.of_inSight .intro)
    exact .seen hb
  have hfe : SeenAs f e := by
    obtain ⟨w, hw, hf⟩ := Runs.bind_iff.1 hf
    cases hw.unique (Looks.of_inSight .intro)
    exact .seen hf
  obtain ⟨-, hfam⟩ := TypeAt.sigma_parts h.type hX
  obtain ⟨Y, Y', hY, hY', hYY⟩ := hfam a b (haa.seenRight hba)
  cases hY.unique hZ
  cases hY'.unique hZ'
  exact (sigma_iff h.type hX).2 ⟨hc, hq, b, a, f, e, Z', hb, ha, haa.seen hba, hf, he, hZ',
    (hee.right.seen hfe).conv hYY⟩

end Same

/-! ## Motives -/

namespace Same

variable {M N a a' A : Value} {x : String}

/-- The same motives at the same arguments are the same type. -/
theorem motive (h : Same o (.arrow x A (.const .univ)) M N) (ha : Same o A a a') :
    ∃ Y Z, Runs (Idealized.apply M a) Y ∧ Runs (Idealized.apply N a') Z ∧ TypeAt .small o Y Z := by
  obtain ⟨Y, Z, hY, hZ, hYZ⟩ := h.applyArrow ha
  exact ⟨Y, Z, hY, hZ, (univ_iff (.of_inSight .intro)).1 hYZ⟩

theorem motiveType (h : Same o (.arrow x A (.const .univ)) M N) (ha : Same o A a a') :
    SameType o (Idealized.apply M a).result (Idealized.apply N a').result := by
  obtain ⟨Y, Z, hY, hZ, hYZ⟩ := h.motive ha
  rw [hY.result_eq, hZ.result_eq]
  exact hYZ.sameType

end Same

end LittleTypes.Idealized
