import LittleTypes.Proofs.Idealized.Looks

/-!
# Reading alike

Two things are read alike when both are read back, and to normal forms that differ at most in what
they say about elements of the empty type.
-/

namespace LittleTypes

namespace Idealized

/-- Both plans run, to normal forms that are alike. -/
def AlikePlans (p q : ReadPlan) : Prop :=
  ∃ M N, ReadRuns p M ∧ ReadRuns q N ∧ M.blur = N.blur

/-- Read alike at every level. -/
def ReadAlike (r r' : Reading) : Prop := ∀ k, AlikePlans (readPlan k r) (readPlan k r')

namespace AlikePlans

theorem done {M N : Nameless} (h : M.blur = N.blur) : AlikePlans (.done M) (.done N) :=
  ⟨M, N, .done M, .done N, h⟩

/-- Reading parts that are alike, and going on. -/
theorem read {k : Nat} {r r' : Reading} {f g : Nameless → ReadPlan} (h : ReadAlike r r')
    (hNext : ∀ M N, M.blur = N.blur → AlikePlans (f M) (g N)) :
    AlikePlans (.read k r f) (.read k r' g) := by
  obtain ⟨M, N, hM, hN, e⟩ := h k
  obtain ⟨M', N', hM', hN', e'⟩ := hNext M N e
  exact ⟨M', N', .read hM hM', .read hN hN', e'⟩

/-- Evaluating, and going on. -/
theorem run {α β : Type} {p : Plan α} {q : Plan β} {f : α → ReadPlan} {g : β → ReadPlan} {a : α}
    {b : β} (ha : Runs p a) (hb : Runs q b) (h : AlikePlans (f a) (g b)) :
    AlikePlans (p.thenRead f) (q.thenRead g) := by
  obtain ⟨M, N, hM, hN, e⟩ := h
  exact ⟨M, N, .thenRead ha hM, .thenRead hb hN, e⟩

/-- Reading one part that is alike, and nothing else. -/
theorem last {k : Nat} {r r' : Reading} (h : ReadAlike r r') :
    AlikePlans (.read k r .done) (.read k r' .done) :=
  read h fun _ _ ↦ done

end AlikePlans

namespace ReadAlike

/-- Types are read as what is seen of them. -/
theorem type {X Y V W : Value} (hX : Looks X V) (hY : Looks Y W)
    (h : ∀ k, AlikePlans (typeShapePlan k V) (typeShapePlan k W)) :
    ReadAlike (.type X) (.type Y) :=
  fun k ↦ .run hX hY (h k)

/-- Values are read as what is seen of them and of their types. -/
theorem value {X Y V W v w v' w' : Value} (hX : Looks X V) (hY : Looks Y W) (hv : Looks v v')
    (hw : Looks w w') (h : ∀ k, AlikePlans (valueShapePlan k V v') (valueShapePlan k W w')) :
    ReadAlike (.value X v) (.value Y w) :=
  fun k ↦ .run hX hY (.run hv hw (h k))

end ReadAlike

/-- Eliminations that are read alike at every level. -/
def Alike (m n : Neutral) : Prop := ReadAlike (.neutral m) (.neutral n)

/-- Typed values that are read alike at every level. -/
def AlikeTyped (a b : Typed) : Prop :=
  ReadAlike (.value a.type a.value) (.value b.type b.value)

/-! ## Eliminations -/

namespace Alike

theorem symm {m n : Neutral} (h : Alike m n) : Alike n m := by
  intro k
  obtain ⟨M, N, hM, hN, e⟩ := h k
  exact ⟨N, M, hN, hM, e.symm⟩

theorem trans {l m n : Neutral} (h : Alike l m) (h' : Alike m n) : Alike l n := by
  intro k
  obtain ⟨L, M, hL, hM, e⟩ := h k
  obtain ⟨M', N, hM', hN, e'⟩ := h' k
  cases hM.unique hM'
  exact ⟨L, N, hL, hN, e.trans e'⟩

theorem left {m n : Neutral} (h : Alike m n) : Alike m m := h.trans h.symm

theorem right {m n : Neutral} (h : Alike m n) : Alike n n := h.symm.trans h

/-- An unknown value is read as its level. -/
theorem var (i : Nat) : Alike (.var i) (.var i) := fun _ ↦ .done rfl

variable {m n m' n' : Neutral}

theorem hole (l : Location) {X Y : Value} (h : ReadAlike (.type X) (.type Y)) :
    Alike (.hole l X) (.hole l Y) :=
  fun _ ↦ .read h fun _ _ e ↦ .done (by simp only [Nameless.blur, e])

theorem app {a b : Typed} (hm : Alike m n) (ha : AlikeTyped a b) : Alike (.app m a) (.app n b) :=
  fun _ ↦ .read hm fun _ _ e ↦ .read ha fun _ _ ea ↦ .done (by simp only [Nameless.blur, e, ea])

theorem project (c : Projection) (hm : Alike m n) : Alike (.project c m) (.project c n) :=
  fun _ ↦ .read hm fun _ _ e ↦ .done (by simp only [Nameless.blur, e])

theorem recursor (c : Recursor) {b b' s s' : Typed} (hm : Alike m n)
    (ht : ReadAlike (.type b.type) (.type b'.type)) (hb : AlikeTyped b b') (hs : AlikeTyped s s') :
    Alike (.recursor c m b s) (.recursor c n b' s') := by
  refine fun _ ↦ .read hm fun _ _ e ↦ .read ht fun T T' eT ↦ .read hb fun _ _ eb ↦
    .read hs fun _ _ es ↦ .done ?_
  have hT : T.isAbsurd = T'.isAbsurd := Nameless.isAbsurd_eq_of_blur_eq eT
  simp only [Nameless.blur, e, eT, eb, es, hT]
  split
  · rename_i h
    rw [Nameless.isAbsurd_iff.1 (hT.trans h), Nameless.isAbsurd_iff.1 h]
  · rfl

theorem induct (c : Induction) {M M' b b' s s' : Typed} (hm : Alike m n) (hM : AlikeTyped M M')
    (hb : AlikeTyped b b') (hs : AlikeTyped s s') :
    Alike (.induct c m M b s) (.induct c n M' b' s') :=
  fun _ ↦ .read hm fun _ _ e ↦ .read hM fun _ _ eM ↦ .read hb fun _ _ eb ↦ .read hs fun _ _ es ↦
    .done (by simp only [Nameless.blur, e, eM, eb, es])

theorem transport (c : Transport) {M M' b b' : Typed} (hm : Alike m n) (hM : AlikeTyped M M')
    (hb : AlikeTyped b b') : Alike (.transport c m M b) (.transport c n M' b') :=
  fun _ ↦ .read hm fun _ _ e ↦ .read hM fun _ _ eM ↦ .read hb fun _ _ eb ↦
    .done (by simp only [Nameless.blur, e, eM, eb])

theorem transLeft {b b' : Typed} (hm : Alike m n) (hb : AlikeTyped b b') :
    Alike (.transLeft m b) (.transLeft n b') :=
  fun _ ↦ .read hm fun _ _ e ↦ .read hb fun _ _ eb ↦ .done (by simp only [Nameless.blur, e, eb])

theorem transRight {b b' : Typed} (hb : AlikeTyped b b') (hm : Alike m n) :
    Alike (.transRight b m) (.transRight b' n) :=
  fun _ ↦ .read hb fun _ _ eb ↦ .read hm fun _ _ e ↦ .done (by simp only [Nameless.blur, e, eb])

theorem transBoth (hm : Alike m n) (hm' : Alike m' n') :
    Alike (.transBoth m m') (.transBoth n n') :=
  fun _ ↦ .read hm fun _ _ e ↦ .read hm' fun _ _ e' ↦ .done (by simp only [Nameless.blur, e, e'])

theorem cong {X Y : Value} {f f' : Typed} (hm : Alike m n) (hX : ReadAlike (.type X) (.type Y))
    (hf : AlikeTyped f f') : Alike (.cong m X f) (.cong n Y f') :=
  fun _ ↦ .read hm fun _ _ e ↦ .read hX fun _ _ eX ↦ .read hf fun _ _ ef ↦
    .done (by simp only [Nameless.blur, e, eX, ef])

theorem indVec {l l' M M' b b' s s' : Typed} (hl : AlikeTyped l l') (hm : Alike m n)
    (hM : AlikeTyped M M') (hb : AlikeTyped b b') (hs : AlikeTyped s s') :
    Alike (.indVec l m M b s) (.indVec l' n M' b' s') :=
  fun _ ↦ .read hl fun _ _ el ↦ .read hm fun _ _ e ↦ .read hM fun _ _ eM ↦ .read hb fun _ _ eb ↦
    .read hs fun _ _ es ↦ .done (by simp only [Nameless.blur, el, e, eM, eb, es])

theorem indVecBoth {M M' b b' s s' : Typed} (hl : Alike m' n') (hm : Alike m n)
    (hM : AlikeTyped M M') (hb : AlikeTyped b b') (hs : AlikeTyped s s') :
    Alike (.indVecBoth m' m M b s) (.indVecBoth n' n M' b' s') :=
  fun _ ↦ .read hl fun _ _ el ↦ .read hm fun _ _ e ↦ .read hM fun _ _ eM ↦ .read hb fun _ _ eb ↦
    .read hs fun _ _ es ↦ .done (by simp only [Nameless.blur, el, e, eM, eb, es])

end Alike

end Idealized

end LittleTypes
