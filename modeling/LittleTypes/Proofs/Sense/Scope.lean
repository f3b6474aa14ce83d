import LittleTypes.Proofs.Name.Fresh
import LittleTypes.Proofs.Sense.Outcome
import LittleTypes.Proofs.Sense.Shape
import LittleTypes.Proofs.Sense.Terms
import LittleTypes.Typing.Rules

/-!
# The operations of scopes in a situation

What evaluation, reading back and comparing give in the scopes of a situation: the values mean what
they should, and normal forms and verdicts are the same in all runs.
-/

namespace LittleTypes.Situation

open Idealized (Runs Looks Size)

variable {R : Regime} {J : Type} {S : Situation R J} {s : Size} {F G : Sense J}
  {v w : J → R.Index → Value} {φ : R.Index → Nat} {ν : Renaming} {χ : Prop} {E : R.Excuse J}

/-- The scopes of all runs. -/
def scope (S : Situation R J) (ν : Renaming) (j : J) (n : R.Index) : Scope := ⟨S.context j n, ν⟩

/-- Closures of all runs stand for closures. -/
def MeansClosure (S : Situation R J) (c : J → R.Index → Closure)
    (C : Setting J → Idealized.Closure) : Prop :=
  ∀ j, Stands R S.levels .closure (c j) (C (S.here j))

variable (S) in
/-- A type that all runs have in common. -/
structure SharedType (s : Size) (t : J → Term) : Prop where
  type : S.TypeTerm s t
  shared : Shared t

variable (S) in
/-- An element of a type that all runs have in common. -/
structure SharedTerm (F : Sense J) (t : J → Term) : Prop where
  elem : S.HasType F t
  shared : Shared t

variable (S) in
/-- A judgment that all runs have in common. -/
structure SharedJudgment (k : J → Judgment) : Prop where
  type : S.SharedType .large fun j ↦ (k j).type
  term : S.SharedTerm (.ofTerm fun j ↦ (k j).type) fun j ↦ (k j).term

variable (S) in
/-- A type as a normal form. -/
def IsNormalType (t : J → Term) : Prop := ∃ F, S.IsType .large F ∧ S.Spelled (S.readType F) t

variable (S) in
/-- A judgment that all runs have in common, whose type is a normal form under a condition. -/
structure SettledJudgment (χ : Prop) (k : J → Judgment) : Prop extends SharedJudgment S k where
  normal : χ → S.IsNormalType fun j ↦ (k j).type

/-! ## Evaluation -/

/-- What follows plans that run to a sense means the sense. -/
theorem exists_means {x : J → R.Index → Except EvalFault Value}
    {p : J → Idealized.Plan Idealized.Value}
    (hx : ∀ j, FollowsValue R S.levels (x j) (p j)) (hp : ∀ j, Runs (p j) (F (S.here j))) :
    ∃ v, S.Means v F ∧ R.Gives (fun j n ↦ .ofEval (x j n)) v := by
  choose v hv hy using fun j ↦ (hx j).yields (hp j)
  exact ⟨v, hv, fun j ↦ (hy j).lift.ofRead⟩

variable (hφ : R.Lasts φ) (hS : S.Coherent)

section Evaluation

include hφ

section

include hS

/-- A type has a value. -/
theorem Coherent.exists_evalType (ν : Renaming) {t : J → Term} (ht : S.TypeTerm s t) :
    ∃ v, S.Means v (.ofTerm t) ∧ R.Gives (fun j n ↦ (S.scope ν j n).eval (φ n) (t j)) v := by
  choose v hv hy using fun j ↦
    (follows_eval hφ (t j) (hS.env j)).yields (ht.runs (hS.hasHere j))
  exact ⟨v, hv, fun j ↦ (hy j).lift.ofRead⟩

/-- An element has a value. -/
theorem Coherent.exists_eval (ν : Renaming) {t : J → Term} (ht : S.HasType F t) :
    ∃ v, S.Means v (.ofTerm t) ∧ R.Gives (fun j n ↦ (S.scope ν j n).eval (φ n) (t j)) v := by
  choose v hv hy using fun j ↦
    (follows_eval hφ (t j) (hS.env j)).yields (ht.runs (hS.hasHere j))
  exact ⟨v, hv, fun j ↦ (hy j).lift.ofRead⟩

theorem Coherent.evalType {t : J → Term} (ht : S.TypeTerm s t) :
    R.Meets E R.each (fun j n ↦ (S.scope ν j n).eval (φ n) (t j)) fun v ↦ S.Means v (.ofTerm t) :=
  .inl (hS.exists_evalType hφ ν ht)

theorem Coherent.eval {t : J → Term} (ht : S.HasType F t) :
    R.Meets E R.each (fun j n ↦ (S.scope ν j n).eval (φ n) (t j)) fun v ↦ S.Means v (.ofTerm t) :=
  .inl (hS.exists_eval hφ ν ht)

/-- A family has a value at an element. -/
theorem Coherent.exists_enter {d a : Sense J} {C : Setting J → Idealized.Closure}
    {c : J → R.Index → Closure} (hC : S.IsFamily s d C) (ha : S.IsElem d a)
    (hc : S.MeansClosure c C) (hv : S.Means v a) :
    ∃ w, S.Means w (.enter C a) ∧ R.Gives (fun j n ↦ Scope.enter (φ n) (c j n) (v j n)) w :=
  exists_means (fun j ↦ follows_enter hφ (hc j) (hv j)) fun j ↦
    hC.runs (.sameness True) (hS.hasHere j) (ha (.sameness True) (hS.hasHere j)) false

theorem Coherent.enter {d a : Sense J} {C : Setting J → Idealized.Closure}
    {c : J → R.Index → Closure}
    (hC : S.IsFamily s d C) (ha : S.IsElem d a) (hc : S.MeansClosure c C) (hv : S.Means v a) :
    R.Meets E R.each (fun j n ↦ Scope.enter (φ n) (c j n) (v j n)) fun v ↦
      S.Means v (.enter C a) :=
  .inl (hS.exists_enter hφ hC ha hc hv)

/-- A function has a value at an argument. -/
theorem Coherent.exists_apply {d f a : Sense J} {C : Setting J → Idealized.Closure}
    {y : Setting J → String} (hf : S.IsElem (fun σ ↦ .pi (y σ) (d σ) (C σ)) f) (ha : S.IsElem d a)
    (hv : S.Means v f) (hw : S.Means w a) :
    ∃ u, S.Means u (.apply f a) ∧ R.Gives (fun j n ↦ Scope.apply (φ n) (v j n) (w j n)) u :=
  exists_means (fun j ↦ follows_apply hφ (hv j) (hw j)) fun j ↦
    (Idealized.Logic.sameness_sound.apply (hf (.sameness True) (hS.hasHere j))
      (ha (.sameness True) (hS.hasHere j)) (hf.isType.of_pi.2.runs (.sameness True)
        (hS.hasHere j) (ha (.sameness True) (hS.hasHere j)))).runs false

theorem Coherent.apply {d f a : Sense J} {C : Setting J → Idealized.Closure}
    {y : Setting J → String}
    (hf : S.IsElem (fun σ ↦ .pi (y σ) (d σ) (C σ)) f) (ha : S.IsElem d a) (hv : S.Means v f)
    (hw : S.Means w a) :
    R.Meets E R.each (fun j n ↦ Scope.apply (φ n) (v j n) (w j n)) fun v ↦ S.Means v (.apply f a) :=
  .inl (hS.exists_apply hφ hf ha hv hw)

section Pairs

variable {d p : Sense J} {C : Setting J → Idealized.Closure} {y : Setting J → String}
  (hp : S.IsElem (fun σ ↦ .sigma (y σ) (d σ) (C σ)) p) (hv : S.Means v p)

include hp hv

/-- A pair has a first component. -/
theorem Coherent.exists_car : ∃ w, S.Means w (.car p) ∧
    R.Gives (fun j n ↦ .ofEval ((machine (φ n)).doProject .passing .car (v j n))) w :=
  exists_means (fun j ↦ follows_doProject hφ .car (hv j)) fun j ↦
    (Idealized.Logic.sameness_sound.car (hp (.sameness True) (hS.hasHere j))).runs false

theorem Coherent.car :
    R.Meets E R.each (fun j n ↦ .ofEval ((machine (φ n)).doProject .passing .car (v j n))) fun v ↦
      S.Means v (.car p) :=
  .inl (hS.exists_car hφ hp hv)

/-- A pair has a second component. -/
theorem Coherent.exists_cdr : ∃ w, S.Means w (.cdr p) ∧
    R.Gives (fun j n ↦ .ofEval ((machine (φ n)).doProject .passing .cdr (v j n))) w := by
  refine exists_means (fun j ↦ follows_doProject hφ .cdr (hv j)) fun j ↦ ?_
  have hpj := hp (.sameness True) (hS.hasHere j)
  have hcar := Idealized.Logic.sameness_sound.car hpj
  exact (Idealized.Logic.sameness_sound.cdr hpj hcar.runs
    (hp.isType.of_sigma.2.runs (.sameness True) (hS.hasHere j) hcar.result)).runs false

end Pairs

end

end Evaluation

/-! ## Reading back -/

section Reading

include hφ hS

/-- A type has a normal form. -/
theorem Coherent.exists_readBackType (ν : Renaming) (hF : S.IsType s F) (hv : S.Means v F) :
    ∃ t, S.Spelled (S.readType F) t ∧
      R.Gives (fun j n ↦ (S.scope ν j n).readBackType (φ n) (v j n)) (R.steady t) := by
  obtain ⟨t, ht, hy⟩ := hS.reads hφ (fun j ↦ .type (hv j)) (hF.reads hS)
  exact ⟨t, ht, fun j ↦ (hy j).ofRead⟩

/-- An element has a normal form. -/
theorem Coherent.exists_readBack (ν : Renaming) {a : Sense J} (ha : S.IsElem F a)
    (hv : S.Means v F) (hw : S.Means w a) :
    ∃ t, S.Spelled (S.readElem F a) t ∧
      R.Gives (fun j n ↦ (S.scope ν j n).readBack (φ n) (v j n) (w j n)) (R.steady t) := by
  obtain ⟨t, ht, hy⟩ := hS.reads hφ (fun j ↦ .value (hv j) (hw j)) (ha.reads hS)
  exact ⟨t, ht, fun j ↦ (hy j).ofRead⟩

theorem Coherent.readBackType (hF : S.IsType s F) (hv : S.Means v F) :
    R.Meets E R.steady (fun j n ↦ (S.scope ν j n).readBackType (φ n) (v j n)) fun t ↦
      S.Spelled (S.readType F) t := .inl (hS.exists_readBackType hφ ν hF hv)

theorem Coherent.readBack {a : Sense J} (ha : S.IsElem F a) (hv : S.Means v F)
    (hw : S.Means w a) :
    R.Meets E R.steady (fun j n ↦ (S.scope ν j n).readBack (φ n) (v j n) (w j n)) fun t ↦
      S.Spelled (S.readElem F a) t := .inl (hS.exists_readBack hφ ν ha hv hw)

omit hφ in
/-- The normal form of a type is a type that all runs have in common. -/
theorem IsType.sharedType (hF : S.IsType s F) {t : J → Term} (ht : S.Spelled (S.readType F) t) :
    S.SharedType s t := ⟨hF.typeTerm hS ht, hF.shared hS ht⟩

omit hφ in
/-- A term has the normal form of its type. -/
theorem SharedTerm.judgment {t u : J → Term} (ht : S.SharedTerm F t)
    (hu : S.Spelled (S.readType F) u) : S.SettledJudgment χ fun j ↦ ⟨u j, t j⟩ := by
  have hF := ht.elem.isType
  have hT := hF.sharedType hS hu
  have hconv := ht.elem.conv hS hT.type.isType fun _ _ hσ ↦ (hF.sameTerm hS hu hσ).symm
  exact { type := hT, term := ⟨hconv, ht.shared⟩, normal := fun _ ↦ ⟨F, hF, hu⟩ }

/-- The judgment that a term has a type. -/
theorem Coherent.judge (hv : S.Means v F) {t : J → Term} (ht : S.SharedTerm F t) :
    R.Meets E R.steady (fun j n ↦ (S.scope ν j n).judge (φ n) (v j n) (t j))
      (S.SettledJudgment χ) := by
  refine (hS.readBackType hφ ht.elem.isType hv).andThen fun u hu ↦ ?_
  exact .answer (ht.judgment hS hu)

/-! ## Comparing -/

/-- Succeeds if two types are the same. -/
theorem Coherent.sameType {loc : J → Location} (hF : S.IsType .large F)
    (hG : S.IsType .large G) (hv : S.Means v F) (hw : S.Means w G) :
    R.Meets E R.nothing (fun j n ↦ (S.scope ν j n).sameType (φ n) (loc j) (v j n) (w j n)) fun _ ↦
      S.SameTypes F G := by
  refine (hS.readBackType hφ hF hv).andThen fun t ht ↦
    (hS.readBackType hφ hG hw).andThen fun u hu ↦ ?_
  by_cases h : ∀ j, (t j).alphaEquiv (u j)
  · simp only [h, if_true]
    exact .pure (b := ()) (hF.sameTypes hS hG ht hu h)
  · obtain ⟨j, hj⟩ := not_forall.1 h
    have hn : ∀ j, ¬(t j).alphaEquiv (u j) := fun j' hj' ↦
      hj (((hF.shared hS ht).alphaEquiv_iff (hG.shared hS hu) j' j).1 hj')
    simp only [hn]
    exact .stop

/-- The comparison of two elements of a type is that of their normal forms. -/
theorem Coherent.convert_iff (ν : Renaming) (loc : J → Location) {a b : Sense J}
    {u : J → R.Index → Value} (ha : S.IsElem F a) (hb : S.IsElem F b) (hu : S.Means u F)
    (hv : S.Means v a) (hw : S.Means w b) :
    ∃ t r, S.Spelled (S.readElem F a) t ∧ S.Spelled (S.readElem F b) r ∧
      ((∀ j, (t j).alphaEquiv (r j)) ∧ R.Gives (fun j n ↦
          (S.scope ν j n).convert (φ n) (loc j) (u j n) (v j n) (w j n)) (fun _ _ ↦ ()) ∨
        (∀ j, ¬(t j).alphaEquiv (r j)) ∧ R.Stops fun j n ↦
          (S.scope ν j n).convert (φ n) (loc j) (u j n) (v j n) (w j n)) := by
  obtain ⟨t, ht, htn⟩ := hS.exists_readBack hφ ν ha hu hv
  obtain ⟨r, hr, hrn⟩ := hS.exists_readBack hφ ν hb hu hw
  refine ⟨t, r, ht, hr, ?_⟩
  by_cases h : ∀ j, (t j).alphaEquiv (r j)
  · refine .inl ⟨h, htn.bind (hrn.bind ?_)⟩
    simp only [h, if_true]
    exact fun _ ↦ .pure _
  · obtain ⟨j, hj⟩ := not_forall.1 h
    have hn : ∀ j, ¬(t j).alphaEquiv (r j) := fun j' hj' ↦
      hj (((ha.shared hS ht).alphaEquiv_iff (hb.shared hS hr) j' j).1 hj')
    refine .inr ⟨hn, htn.bindStops (hrn.bindStops ?_)⟩
    simp only [hn]
    obtain ⟨T, -, hT⟩ := hS.exists_readBackType hφ ν ha.isType hu
    refine hT.bindStops ?_
    simp only [Regime.steady]
    exact fun _ ↦ ⟨_, .of_forall fun _ ↦ .inl rfl⟩

/-- Succeeds if two elements of a type are the same. -/
theorem Coherent.convert {loc : J → Location} {a b : Sense J} {u : J → R.Index → Value}
    (ha : S.IsElem F a) (hb : S.IsElem F b) (hu : S.Means u F) (hv : S.Means v a)
    (hw : S.Means w b) :
    R.Meets E R.nothing (fun j n ↦ (S.scope ν j n).convert (φ n) (loc j) (u j n) (v j n) (w j n))
      fun _ ↦ S.SameElems F a b := by
  obtain ⟨t, r, ht, hr, ⟨h, hn⟩ | ⟨-, hn⟩⟩ := hS.convert_iff hφ ν loc ha hb hu hv hw
  · exact .gives (b := ()) (ha.sameElems hS hb ht hr h) hn
  · exact .inr (.inl hn)

end Reading

/-! ## Names -/

section Names

include hS

/-- A new name is the same in all runs. -/
theorem Coherent.fresh (x : String) (j : J) (n : R.Index) :
    (S.scope ν j n).context.fresh x = freshName S.names x := by
  rw [Context.fresh, scope, hS.names]

theorem Coherent.freshBinder (t : Term) (x : String) (j : J) (n : R.Index) :
    (S.scope ν j n).context.freshBinder t x = freshName (S.names ++ t.names) x := by
  rw [Context.freshBinder, scope, hS.names]

/-- The scope under a binder is that of the situation with one more name. -/
theorem Coherent.scope_bind (x : String) {y : String} (hy : y ∉ S.names) (T : Sense J)
    (d : J → R.Index → Value) (j : J) (n : R.Index) :
    (S.scope ν j n).bind x y (d j n) = pure ((S.bind y T d).scope (ν.extend x y) j n) := by
  rw [Scope.bind, scope, (hS.surveyed j).bindFree hy (d j)]
  rfl

end Names

omit hφ hS

/-- Whether a name may be bound is the same in all runs. -/
theorem meets_checkName (site : Site) :
    R.Meets E R.nothing (fun (_ : J) (_ : R.Index) ↦ Scope.checkName site) fun _ ↦ True := by
  unfold Scope.checkName
  split
  · exact .pure (b := ()) trivial
  · exact .stop

end LittleTypes.Situation
