import LittleTypes.Proofs.Logic.Basic

/-!
# Motives and steps in a logic

How plans that run to elements are put together, and the types that eliminators require of their
motives, bases and steps.
-/

namespace LittleTypes.Idealized

/-- A plan that runs to something runs to its result. -/
theorem Runs.of_exists {p : Plan Value} (h : ∃ v, Runs p v) : Runs p p.result := by
  obtain ⟨v, hv⟩ := h
  rwa [hv.result_eq]

namespace Logic

variable {L : Logic} {s : Size} {ω : L.World} {X Y d a : L.Index → Value}

namespace Run

variable {p : L.Index → Plan Value}

theorem result (h : L.Run ω X p) : L.elem ω X fun i ↦ (p i).result := by
  obtain ⟨v, hv, hX⟩ := h
  rwa [show (fun i ↦ (p i).result) = v from funext fun i ↦ (hv i).result_eq]

theorem runs (h : L.Run ω X p) (i : L.Index) : Runs (p i) (p i).result := by
  obtain ⟨v, hv, -⟩ := h
  exact .of_exists ⟨_, hv i⟩

/-- A plan goes on with the answer of another. -/
theorem bind {α : Type} {q : L.Index → Plan α} {f : L.Index → α → Plan Value} {v : L.Index → α}
    (hv : ∀ i, Runs (q i) (v i)) (h : L.Run ω X fun i ↦ f i (v i)) :
    L.Run ω X fun i ↦ q i >>= f i := by
  obtain ⟨w, hw, hX⟩ := h
  exact ⟨w, fun i ↦ .bind (hv i) (hw i), hX⟩

end Run

namespace Stable

variable (hL : L.Stable)

include hL

/-- Looking at an element does not change it. -/
theorem look {v : L.Index → Value} (h : L.elem ω X v) : L.Run ω X fun i ↦ look (v i) := by
  have hl : ∀ i, Looks (v i) (Idealized.look (v i)).result := fun i ↦ .of_exists (hL.same h i).looks
  exact ⟨_, hl, hL.elem_seen h fun i ↦ .seen (hl i)⟩

/-- What is delayed is an element if the answers are. -/
theorem later {q : L.Index → Demand} (h : L.Run ω X fun i ↦ plan (q i)) :
    L.elem ω X fun i ↦ .later (q i) := by
  obtain ⟨v, hv, hX⟩ := h
  exact hL.elem_seen hX fun i ↦ .later (hv i)

theorem convRun {p : L.Index → Plan Value} (h : L.Run ω X p) (hY : L.type s ω Y)
    (hXY : ∀ i, SameType (L.model i) (X i) (Y i)) : L.Run ω Y p := by
  obtain ⟨v, hv, hX⟩ := h
  exact ⟨v, hv, hL.conv hX (hL.type_large hY) hXY⟩

/-- An element of a type is one of what is seen of the type. -/
theorem elem_looks {v V : L.Index → Value} (h : L.elem ω X v) (hX : ∀ i, Looks (X i) (V i)) :
    L.elem ω V v :=
  hL.conv h (hL.type_seen (hL.elem_type h) fun i ↦ .seen (hX i)) fun i ↦
    TypeAt.seenRight (hL.typeAt (hL.elem_type h) i) (.seen (hX i))

theorem type_looks {V : L.Index → Value} (h : L.type s ω X) (hX : ∀ i, Looks (X i) (V i)) :
    L.type s ω V := hL.type_seen h fun i ↦ .seen (hX i)

end Stable

namespace Regular

variable (hL : L.Regular)

include hL

/-! ## Functions that do not depend on their argument -/

theorem applyArrow {x : L.Index → String} {p : L.Index → Value}
    (h : L.elem ω (fun i ↦ .arrow (x i) (d i) (Y i)) p) (ha : L.elem ω d a) :
    L.Run ω Y fun i ↦ Idealized.apply (p i) (a i) :=
  hL.apply h ha fun i ↦ .done (Y i)

theorem apply₂ {x y : L.Index → String} {p b : L.Index → Value}
    (h : L.elem ω (fun i ↦ .arrow (x i) (d i) (.arrow (y i) (X i) (Y i))) p) (ha : L.elem ω d a)
    (hb : L.elem ω X b) : L.Run ω Y fun i ↦ Idealized.apply₂ (p i) (a i) (b i) := by
  obtain ⟨v, hv, hX⟩ := hL.applyArrow h ha
  obtain ⟨w, hw, hY⟩ := hL.applyArrow hX hb
  exact ⟨w, fun i ↦ .bind (hv i) (hw i), hY⟩

/-! ## Motives at their arguments -/

section Motives

variable {M e t x p k v : L.Index → Value}

theorem motive {x : L.Index → String}
    (h : L.elem ω (fun i ↦ .arrow (x i) (d i) (.const .univ)) M) (ha : L.elem ω d a) :
    ∃ Y, (∀ i, Runs (Idealized.apply (M i) (a i)) (Y i)) ∧ L.type .small ω Y := by
  obtain ⟨Y, hY, hU⟩ := hL.applyArrow h ha
  exact ⟨Y, hY, hL.univ_iff.1 hU⟩

theorem motiveType {x : L.Index → String}
    (h : L.elem ω (fun i ↦ .arrow (x i) (d i) (.const .univ)) M) (ha : L.elem ω d a) :
    L.type .small ω fun i ↦ (Idealized.apply (M i) (a i)).result :=
  hL.univ_iff.1 (hL.applyArrow h ha).result

theorem equalMotive (hM : L.elem ω (fun i ↦ .indEqualMotive (t i) (a i)) M) (hx : L.elem ω t x)
    (h : L.elem ω (fun i ↦ .equal (t i) (a i) (x i)) p) :
    ∃ Y, (∀ i, Runs (Idealized.apply₂ (M i) (x i) (p i)) (Y i)) ∧ L.type .small ω Y := by
  obtain ⟨v, hv, hX⟩ := hL.apply hM hx fun _ ↦ .done _
  obtain ⟨Y, hY, hU⟩ := hL.applyArrow hX h
  exact ⟨Y, fun i ↦ .bind (hv i) (hY i), hL.univ_iff.1 hU⟩

theorem equalMotiveType (hM : L.elem ω (fun i ↦ .indEqualMotive (t i) (a i)) M)
    (hx : L.elem ω t x) (h : L.elem ω (fun i ↦ .equal (t i) (a i) (x i)) p) :
    L.type .small ω fun i ↦ (Idealized.apply₂ (M i) (x i) (p i)).result := by
  obtain ⟨Y, hY, hYT⟩ := hL.equalMotive hM hx h
  rwa [show (fun i ↦ (Idealized.apply₂ (M i) (x i) (p i)).result) = Y from
    funext fun i ↦ (hY i).result_eq]

theorem vecMotive (hM : L.elem ω (fun i ↦ .indVecMotive (e i)) M)
    (hk : L.elem ω (fun _ ↦ .const .nat) k)
    (h : L.elem ω (fun i ↦ .binary .vec (e i) (k i)) v) :
    ∃ Y, (∀ i, Runs (Idealized.apply₂ (M i) (k i) (v i)) (Y i)) ∧ L.type .small ω Y := by
  obtain ⟨w, hw, hX⟩ := hL.apply hM hk fun _ ↦ .done _
  obtain ⟨Y, hY, hU⟩ := hL.applyArrow hX h
  exact ⟨Y, fun i ↦ .bind (hw i) (hY i), hL.univ_iff.1 hU⟩

theorem vecMotiveType (hM : L.elem ω (fun i ↦ .indVecMotive (e i)) M)
    (hk : L.elem ω (fun _ ↦ .const .nat) k)
    (h : L.elem ω (fun i ↦ .binary .vec (e i) (k i)) v) :
    L.type .small ω fun i ↦ (Idealized.apply₂ (M i) (k i) (v i)).result := by
  obtain ⟨Y, hY, hYT⟩ := hL.vecMotive hM hk h
  rwa [show (fun i ↦ (Idealized.apply₂ (M i) (k i) (v i)).result) = Y from
    funext fun i ↦ (hY i).result_eq]

end Motives

/-! ## The types of motives, cases and steps -/

section Known

variable (hK : L.known.Motives)

include hK

theorem knownArrow {x : L.Index → String} (hd : L.type s ω d) (hX : L.type s ω X) :
    L.type s ω fun i ↦ .arrow (x i) (d i) (X i) :=
  hL.pi hd (fun _ hω _ _ ↦ ⟨X, fun i ↦ .done (X i), hL.type_mono hX hω⟩)
    (hK.arrow (hL.typeKnown hd) (hL.typeKnown hX))

variable {M e k h : L.Index → Value}

theorem knownListTail (he : L.type .large ω e) (hM : L.elem ω (fun i ↦ .indListMotive (e i)) M)
    (hh : L.elem ω e h) :
    L.type .large ω fun i ↦ .pi "es" (.unary .list (e i)) (.listStepTail (M i) (h i)) := by
  refine hL.pi (hL.list he) (fun ω' hω r hr ↦ ?_)
    (hK.listTailStep (hL.typeKnown he) (hL.elemKnown hM) (hL.elemKnown hh))
  obtain ⟨Y, hY, hYT⟩ := hL.motive (hL.elem_mono hM hω) hr
  obtain ⟨Z, hZ, hZT⟩ := hL.motive (hL.elem_mono hM hω) (hL.listCons (hL.elem_mono hh hω) hr)
  exact ⟨_, fun i ↦ .bind (hY i) (.bind (hZ i) (.done _)),
    hL.knownArrow hK (hL.type_large hYT) (hL.type_large hZT)⟩

theorem knownVecTail (he : L.type .large ω e) (hM : L.elem ω (fun i ↦ .indVecMotive (e i)) M)
    (hk : L.elem ω (fun _ ↦ .const .nat) k) (hh : L.elem ω e h) :
    L.type .large ω
      fun i ↦ .pi "t" (.binary .vec (e i) (k i)) (.vecStepTail (M i) (k i) (h i)) := by
  refine hL.pi (hL.vec he hk) (fun ω' hω r hr ↦ ?_) (hK.vecTailStep (hL.typeKnown he)
    (hL.elemKnown hM) (hL.elemKnown hk) (hL.elemKnown hh))
  have hM' := hL.elem_mono hM hω
  have hk' := hL.elem_mono hk hω
  obtain ⟨Y, hY, hYT⟩ := hL.vecMotive hM' hk' hr
  obtain ⟨Z, hZ, hZT⟩ :=
    hL.vecMotive hM' (hL.add1 hk') (hL.vecCons hk' (hL.elem_mono hh hω) hr)
  exact ⟨_, fun i ↦ .bind (hY i) (.bind (hZ i) (.done _)),
    hL.knownArrow hK (hL.type_large hYT) (hL.type_large hZT)⟩

theorem knownVecHead (he : L.type .large ω e) (hM : L.elem ω (fun i ↦ .indVecMotive (e i)) M)
    (hk : L.elem ω (fun _ ↦ .const .nat) k) :
    L.type .large ω fun i ↦ .pi "h" (e i) (.vecStepHead (e i) (M i) (k i)) :=
  hL.pi he (fun _ hω _ hh ↦ ⟨_, fun _ ↦ .done _, hL.knownVecTail hK (hL.type_mono he hω)
    (hL.elem_mono hM hω) (hL.elem_mono hk hω) hh⟩)
      (hK.vecHeadStep (hL.typeKnown he) (hL.elemKnown hM) (hL.elemKnown hk))

/-- The types of motives, cases and steps can be formed if what has to be known beforehand is known
of them. -/
theorem motives : L.Motives where
  arrow hd hX := hL.knownArrow hK hd hX
  indNatStep hM := by
    refine hL.pi hL.nat (fun ω' hω n hn ↦ ?_) (hK.indNatStep (hL.elemKnown hM))
    obtain ⟨Y, hY, hYT⟩ := hL.motive (hL.elem_mono hM hω) hn
    obtain ⟨Z, hZ, hZT⟩ := hL.motive (hL.elem_mono hM hω) (hL.add1 hn)
    exact ⟨_, fun i ↦ .bind (hY i) (.bind (hZ i) (.done _)),
      hL.knownArrow hK (hL.type_large hYT) (hL.type_large hZT)⟩
  listTailStep he hM hh := hL.knownListTail hK he hM hh
  indListStep he hM :=
    hL.pi he (fun _ hω _ hh ↦ ⟨_, fun _ ↦ .done _, hL.knownListTail hK (hL.type_mono he hω)
      (hL.elem_mono hM hω) hh⟩) (hK.indListStep (hL.typeKnown he) (hL.elemKnown hM))
  indEitherLeft hl hr hM := by
    refine hL.pi hl (fun ω' hω a ha ↦ ?_)
      (hK.indEitherLeft (hL.typeKnown hl) (hL.typeKnown hr) (hL.elemKnown hM))
    obtain ⟨Y, hY, hYT⟩ :=
      hL.motive (hL.elem_mono hM hω) (hL.left (hL.type_mono hr hω) ha)
    exact ⟨Y, hY, hL.type_large hYT⟩
  indEitherRight hl hr hM := by
    refine hL.pi hr (fun ω' hω a ha ↦ ?_)
      (hK.indEitherRight (hL.typeKnown hl) (hL.typeKnown hr) (hL.elemKnown hM))
    obtain ⟨Y, hY, hYT⟩ :=
      hL.motive (hL.elem_mono hM hω) (hL.right (hL.type_mono hl hω) ha)
    exact ⟨Y, hY, hL.type_large hYT⟩
  indEqualMotive ht ha :=
    hL.pi ht (fun _ hω _ hx ↦ ⟨_, fun _ ↦ .done _, hL.knownArrow hK
      (hL.equal (hL.type_mono ht hω) (hL.elem_mono ha hω) hx) hL.univ⟩)
        (hK.indEqualMotive (hL.typeKnown ht) (hL.elemKnown ha))
  indVecMotive he :=
    hL.pi hL.nat (fun _ hω _ hk ↦ ⟨_, fun _ ↦ .done _, hL.knownArrow hK
      (hL.vec (hL.type_mono he hω) hk) hL.univ⟩) (hK.indVecMotive (hL.typeKnown he))
  vecTailStep he hM hk hh := hL.knownVecTail hK he hM hk hh
  vecHeadStep he hM hk := hL.knownVecHead hK he hM hk
  indVecStep he hM :=
    hL.pi hL.nat (fun _ hω _ hk ↦ ⟨_, fun _ ↦ .done _, hL.knownVecHead hK (hL.type_mono he hω)
      (hL.elem_mono hM hω) hk⟩) (hK.indVecStep (hL.typeKnown he) (hL.elemKnown hM))

end Known

end Regular

namespace Lawful

variable (hL : L.Lawful)

include hL

theorem recListStep {e B : L.Index → Value} (he : L.type .large ω e) (hB : L.type .large ω B) :
    L.type .large ω fun i ↦ .recListStep (e i) (B i) :=
  hL.arrow he (hL.arrow (hL.list he) (hL.arrow hB hB))

variable {M e k : L.Index → Value}

theorem indNatMotive : L.type .large ω fun _ ↦ .indNatMotive := hL.arrow hL.nat hL.univ

theorem indListMotive (he : L.type .large ω e) : L.type .large ω fun i ↦ .indListMotive (e i) :=
  hL.arrow (hL.list he) hL.univ

theorem indEitherMotive {l r : L.Index → Value} (hl : L.type .large ω l)
    (hr : L.type .large ω r) : L.type .large ω fun i ↦ .indEitherMotive (l i) (r i) :=
  hL.arrow (hL.either hl hr) hL.univ

theorem replaceMotive {t : L.Index → Value} (ht : L.type .large ω t) :
    L.type .large ω fun i ↦ .replaceMotive (t i) :=
  hL.arrow ht hL.univ

/-! ## The types of steps at their arguments -/

theorem natStep {n : L.Index → Value} (hM : L.elem ω (fun _ ↦ .indNatMotive) M)
    (hn : L.elem ω (fun _ ↦ .const .nat) n) :
    ∃ Y Z : L.Index → Value, (∀ i, Runs (Idealized.apply (M i) (n i)) (Y i)) ∧
      (∀ i, Runs (Idealized.apply (M i) (.unary .add1 (n i))) (Z i)) ∧
      (∀ i, Runs (enter (.natStep (M i)) (n i)) (.arrow "ih" (Y i) (Z i))) ∧
      L.type .large ω fun i ↦ .arrow "ih" (Y i) (Z i) := by
  obtain ⟨Y, hY, hYT⟩ := hL.motive hM hn
  obtain ⟨Z, hZ, hZT⟩ := hL.motive hM (hL.add1 hn)
  exact ⟨Y, Z, hY, hZ, fun i ↦ .bind (hY i) (.bind (hZ i) (.done _)),
    hL.arrow (hL.type_large hYT) (hL.type_large hZT)⟩

theorem listStepTail {h r : L.Index → Value} (hM : L.elem ω (fun i ↦ .indListMotive (e i)) M)
    (hh : L.elem ω e h) (hr : L.elem ω (fun i ↦ .unary .list (e i)) r) :
    ∃ Y Z : L.Index → Value, (∀ i, Runs (Idealized.apply (M i) (r i)) (Y i)) ∧
      (∀ i, Runs (Idealized.apply (M i) (.binary .listCons (h i) (r i))) (Z i)) ∧
      (∀ i, Runs (enter (.listStepTail (M i) (h i)) (r i)) (.arrow "ih" (Y i) (Z i))) ∧
      L.type .large ω fun i ↦ .arrow "ih" (Y i) (Z i) := by
  obtain ⟨Y, hY, hYT⟩ := hL.motive hM hr
  obtain ⟨Z, hZ, hZT⟩ := hL.motive hM (hL.listCons hh hr)
  exact ⟨Y, Z, hY, hZ, fun i ↦ .bind (hY i) (.bind (hZ i) (.done _)),
    hL.arrow (hL.type_large hYT) (hL.type_large hZT)⟩

theorem vecStepTail {h r : L.Index → Value} (hM : L.elem ω (fun i ↦ .indVecMotive (e i)) M)
    (hk : L.elem ω (fun _ ↦ .const .nat) k) (hh : L.elem ω e h)
    (hr : L.elem ω (fun i ↦ .binary .vec (e i) (k i)) r) :
    ∃ Y Z : L.Index → Value, (∀ i, Runs (Idealized.apply₂ (M i) (k i) (r i)) (Y i)) ∧
      (∀ i, Runs (Idealized.apply₂ (M i) (.unary .add1 (k i)) (.binary .vecCons (h i) (r i)))
        (Z i)) ∧
      (∀ i, Runs (enter (.vecStepTail (M i) (k i) (h i)) (r i)) (.arrow "ih" (Y i) (Z i))) ∧
      L.type .large ω fun i ↦ .arrow "ih" (Y i) (Z i) := by
  obtain ⟨Y, hY, hYT⟩ := hL.vecMotive hM hk hr
  obtain ⟨Z, hZ, hZT⟩ := hL.vecMotive hM (hL.add1 hk) (hL.vecCons hk hh hr)
  exact ⟨Y, Z, hY, hZ, fun i ↦ .bind (hY i) (.bind (hZ i) (.done _)),
    hL.arrow (hL.type_large hYT) (hL.type_large hZT)⟩

end Lawful

end Logic

end LittleTypes.Idealized
