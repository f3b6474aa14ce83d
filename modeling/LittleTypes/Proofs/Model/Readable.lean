import LittleTypes.Proofs.Model.Unique

/-!
# Elements can be read back

In the model with unknown values every element of a type is read back, and the same elements are
read alike.  For function types this needs that an unknown argument is an element of its type, so
both are proved together, along the way the type was built.
-/

namespace LittleTypes.Idealized

/-- What is required of a meaning in the model with unknown values. -/
structure Readable (S : Meaning) : Prop where
  /-- Codes are read alike. -/
  type : ∀ {X Y}, S.code X → S.code Y → ReadAlike (.type X) (.type Y)
  /-- The same elements are read alike. -/
  value : ∀ {X Y v w}, S.code X → S.code Y → S.same v w → ReadAlike (.value X v) (.value Y w)
  /-- Eliminations that are read alike are the same element. -/
  reflect : ∀ {T U m n}, S.code T → S.code U → Alike m n → S.same (.neu T m) (.neu U n)

theorem Waiting.reflect {code : Value → Prop} {T U : Value} {m n : Neutral} (hT : code T)
    (hU : code U) (h : Alike m n) : Waiting True code (.neu T m) (.neu U n) :=
  ⟨.intro, T, m, U, n, .of_inSight .intro, .of_inSight .intro, hT, hU, h⟩

/-- What waits is read alike at a type that only shows what it waits for. -/
theorem Waiting.value {o : Prop} {code : Value → Prop} {X Y V W v w : Value}
    (h : Waiting o code v w) (hX : Looks X V) (hY : Looks Y W)
    (hV : ∀ k T m, valueShapePlan k V (.neu T m) = readNeutral k m .done)
    (hW : ∀ k T m, valueShapePlan k W (.neu T m) = readNeutral k m .done) :
    ReadAlike (.value X v) (.value Y w) := by
  obtain ⟨-, T, m, U, n, hv, hw, -, -, hm⟩ := h
  refine .value hX hY hv hw fun k ↦ ?_
  rw [hV, hW]
  exact .last hm

/-! ## Unknown functions and pairs -/

/-- An unknown function at an argument. -/
theorem Runs.apply_neu {T d a Y : Value} {m : Neutral} {x : String} {c : Closure}
    (hT : Looks T (.pi x d c)) (hY : Runs (enter c a) Y) :
    Runs (apply (.neu T m) a) (.neu Y (.app m (.mk d a))) := by
  rw [Runs.apply_iff]
  exact .bind (Looks.of_inSight .intro) (.bind hT (.bind hY (.done _)))

/-- The first component of an unknown pair. -/
theorem Runs.doCar_neu {T d : Value} {m : Neutral} {x : String} {c : Closure}
    (hT : Looks T (.sigma x d c)) : Runs (doCar (.neu T m)) (.neu d (.project .car m)) :=
  .bind (Looks.of_inSight .intro) (.bind hT (.done _))

/-- The second component of an unknown pair. -/
theorem Runs.doCdr_neu {T d Y : Value} {m : Neutral} {x : String} {c : Closure}
    (hT : Looks T (.sigma x d c)) (hY : Runs (enter c (.neu d (.project .car m))) Y) :
    Runs (doCdr (.neu T m)) (.neu Y (.project .cdr m)) :=
  .bind (Looks.of_inSight .intro) (.bind hT (.bind hY (.done _)))

/-! ## Formers -/

namespace Meaning

theorem readable_nat : Readable (nat True) where
  type hX hY := .type hX hY fun _ ↦ .done rfl
  value := by
    intro X Y v w hX hY h
    induction h generalizing X Y with
    | zero hv hw => exact .value hX hY hv hw fun _ ↦ .done rfl
    | add1 hv hw _ ih =>
      exact .value hX hY hv hw fun k ↦ .read (ih (.of_inSight .intro) (.of_inSight .intro))
        fun M N e ↦ .done (by simp only [Nameless.blur, e])
    | waiting h => exact h.value hX hY (fun _ _ _ ↦ rfl) fun _ _ _ ↦ rfl
  reflect hT hU h := .waiting (.reflect hT hU h)

theorem readable_atom : Readable (atom True) where
  type hX hY := .type hX hY fun _ ↦ .done rfl
  value := by
    rintro X Y v w hX hY (⟨s, hv, hw⟩ | h)
    · exact .value hX hY hv hw fun _ ↦ .done rfl
    · exact h.value hX hY (fun _ _ _ ↦ rfl) fun _ _ _ ↦ rfl
  reflect hT hU h := .inr (.reflect hT hU h)

theorem readable_trivial : Readable (trivial True) where
  type hX hY := .type hX hY fun _ ↦ .done rfl
  value := by
    rintro X Y v w hX hY ⟨hv, hw⟩
    obtain ⟨v', hv⟩ := hv.looks
    obtain ⟨w', hw⟩ := hw.looks
    exact .value hX hY hv hw fun _ ↦ .done rfl
  reflect hT hU h :=
    ⟨.inr ⟨.intro, _, _, .of_inSight .intro, hT⟩, .inr ⟨.intro, _, _, .of_inSight .intro, hU⟩⟩

theorem readable_absurd : Readable (absurd True) where
  type hX hY := .type hX hY fun _ ↦ .done rfl
  value := by
    rintro X Y v w hX hY ⟨⟨-, T, m, hv, -, hm⟩, ⟨-, U, n, hw, -, hn⟩⟩
    refine .value hX hY hv hw fun k ↦ ?_
    -- both are read, to whatever
    obtain ⟨M, -, hM, -⟩ := hm k
    obtain ⟨N, -, hN, -⟩ := hn k
    exact ⟨_, _, .read hM (.done _), .read hN (.done _), by simp [Nameless.blur, Nameless.isAbsurd]⟩
  reflect hT hU h :=
    ⟨⟨.intro, _, _, .of_inSight .intro, hT, h.left⟩, ⟨.intro, _, _, .of_inSight .intro, hU, h.right⟩⟩

theorem readable_unknown (m : Neutral) : Readable (unknown True m) where
  type := by
    rintro X Y ⟨-, U, n, hX, -, hn⟩ ⟨-, U', n', hY, -, hn'⟩
    exact .type hX hY fun _ ↦ .last (hn.symm.trans hn')
  value := by
    rintro X Y v w ⟨-, U, n, hX, -, -⟩ ⟨-, U', n', hY, -, -⟩ h
    exact h.value hX hY (fun _ _ _ ↦ rfl) fun _ _ _ ↦ rfl
  reflect hT hU h := .reflect hT hU h

theorem readable_univ (hs : ∀ S, Small True S → Readable S) : Readable (univ True) where
  type hX hY := .type hX hY fun _ ↦ .done rfl
  value := by
    rintro X Y v w hX hY ⟨S, hS, hv, hw⟩
    obtain ⟨v', hv', -⟩ := Formed.built nofun hS hv
    obtain ⟨w', hw', -⟩ := Formed.built nofun hS hw
    refine .value hX hY hv' hw' fun k ↦ .last ((hs S hS).type ?_ ?_)
    · exact hS.lawful.seenCode hv (.seen hv')
    · exact hS.lawful.seenCode hw (.seen hw')
  reflect {T U m n} hT hU h :=
    ⟨unknown True m, .unknown h.left, ⟨.intro, T, m, .of_inSight .intro, hT, h.left⟩,
      ⟨.intro, U, n, .of_inSight .intro, hU, h⟩⟩

theorem readable_list {E : Meaning} (hE : Readable E) : Readable (list True E) where
  type := by
    rintro X Y ⟨e, hX, he⟩ ⟨e', hY, he'⟩
    exact .type hX hY fun _ ↦ .read (hE.type he he') fun M N h ↦
      .done (by simp only [Nameless.blur, h])
  value := by
    intro X Y v w hX hY h
    induction h generalizing X Y with
    | nil hv hw =>
      obtain ⟨e, hX, he⟩ := hX
      obtain ⟨e', hY, he'⟩ := hY
      exact .value hX hY hv hw fun _ ↦ .done rfl
    | cons hv hw h _ ih =>
      obtain ⟨e, hX, he⟩ := hX
      obtain ⟨e', hY, he'⟩ := hY
      exact .value hX hY hv hw fun k ↦ .read (hE.value he he' h) fun M N h ↦
        .read (ih ⟨e, .of_inSight .intro, he⟩ ⟨e', .of_inSight .intro, he'⟩) fun M' N' h' ↦
          .done (by simp only [Nameless.blur, h, h'])
    | waiting h =>
      obtain ⟨e, hX, he⟩ := hX
      obtain ⟨e', hY, he'⟩ := hY
      exact h.value hX hY (fun _ _ _ ↦ rfl) fun _ _ _ ↦ rfl
  reflect hT hU h := .waiting (.reflect hT hU h)

theorem readable_either {L R : Meaning} (hL : Readable L) (hR : Readable R) :
    Readable (either True L R) where
  type := by
    rintro X Y ⟨l, r, hX, hl, hr⟩ ⟨l', r', hY, hl', hr'⟩
    exact .type hX hY fun _ ↦ .read (hL.type hl hl') fun M N h ↦
      .read (hR.type hr hr') fun M' N' h' ↦ .done (by simp only [Nameless.blur, h, h'])
  value := by
    rintro X Y v w ⟨l, r, hX, hl, hr⟩ ⟨l', r', hY, hl', hr'⟩
      (⟨x, y, hv, hw, h⟩ | ⟨x, y, hv, hw, h⟩ | h)
    · exact .value hX hY hv hw fun _ ↦ .read (hL.value hl hl' h) fun M N h ↦
        .done (by simp only [Nameless.blur, h])
    · exact .value hX hY hv hw fun _ ↦ .read (hR.value hr hr' h) fun M N h ↦
        .done (by simp only [Nameless.blur, h])
    · exact h.value hX hY (fun _ _ _ ↦ rfl) fun _ _ _ ↦ rfl
  reflect hT hU h := .inr (.inr (.reflect hT hU h))

theorem readable_equal {T : Meaning} (hT : Readable T) (lT : Lawful T) (a c : Value) :
    Readable (equal True T a c) where
  type := by
    rintro X Y ⟨t, x, y, hX, ht, hx, hy⟩ ⟨t', x', y', hY, ht', hx', hy'⟩
    have hxx : T.same x x' := lT.trans (lT.symm hx) hx'
    have hyy : T.same y y' := lT.trans (lT.symm hy) hy'
    exact .type hX hY fun _ ↦ .read (hT.type ht ht') fun M N h ↦
      .read (hT.value ht ht' hxx) fun M' N' h' ↦ .read (hT.value ht ht' hyy) fun M'' N'' h'' ↦
        .done (by simp only [Nameless.blur, h, h', h''])
  value := by
    rintro X Y v w ⟨t, x, y, hX, ht, hx, hy⟩ ⟨t', x', y', hY, ht', hx', hy'⟩
      (⟨u, u', hv, hw, h, -⟩ | h)
    · exact .value hX hY hv hw fun _ ↦ .read (hT.value ht ht' h) fun M N h ↦
        .done (by simp only [Nameless.blur, h])
    · exact h.value hX hY (fun _ _ _ ↦ rfl) fun _ _ _ ↦ rfl
  reflect hT hU h := .inr (.reflect hT hU h)

theorem readable_vec {E : Meaning} (hE : Readable E) (len : Value) : Readable (vec True E len) where
  type := by
    rintro X Y ⟨e, l, hX, he, hl⟩ ⟨e', l', hY, he', hl'⟩
    have hn : ReadAlike (.value (.const .nat) l) (.value (.const .nat) l') :=
      readable_nat.value (.of_inSight .intro) (.of_inSight .intro) (hl.symm.trans hl')
    exact .type hX hY fun _ ↦ .read (hE.type he he') fun M N h ↦ .read hn fun M' N' h' ↦
      .done (by simp only [Nameless.blur, h, h'])
  value := by
    intro X Y v w hX hY h
    induction h generalizing X Y with
    | nil _ hv hw =>
      obtain ⟨e, l, hX, he, hl⟩ := hX
      obtain ⟨e', l', hY, he', hl'⟩ := hY
      exact .value hX hY hv hw fun _ ↦ .done rfl
    | cons hlen hv hw h _ ih =>
      obtain ⟨e, l, hX, he, hl⟩ := hX
      obtain ⟨e', l', hY, he', hl'⟩ := hY
      obtain ⟨n, hl, hn⟩ := hl.of_add1 hlen
      obtain ⟨n', hl', hn'⟩ := hl'.of_add1 hlen
      exact .value hX hY hv hw fun k ↦ .run hl hl' (.read (hE.value he he' h) fun M N h ↦
        .read (ih ⟨e, n, .of_inSight .intro, he, hn⟩ ⟨e', n', .of_inSight .intro, he', hn'⟩)
          fun M' N' h' ↦ .done (by simp only [Nameless.blur, h, h']))
    | waiting h =>
      obtain ⟨e, l, hX, he, hl⟩ := hX
      obtain ⟨e', l', hY, he', hl'⟩ := hY
      exact h.value hX hY (fun _ _ _ ↦ rfl) fun _ _ _ ↦ rfl
  reflect hT hU h := .waiting (.reflect hT hU h)

section Families

variable {A : Meaning} {B : Value → Meaning}

/-- A family at arguments that are the same. -/
theorem Family.same {c c' : Closure} (hA : Lawful A) (hr : ∀ a a', A.same a a' → B a = B a')
    (hc : Family A B c) (hc' : Family A B c') {a a' : Value} (ha : A.same a a') :
    ∃ Y Y', Runs (enter c a) Y ∧ Runs (enter c' a') Y' ∧ (B a).code Y ∧ (B a).code Y' := by
  obtain ⟨Y, hY, hYB⟩ := hc a (hA.left ha)
  obtain ⟨Y', hY', hYB'⟩ := hc' a' (hA.right ha)
  exact ⟨Y, Y', hY, hY', hYB, hr a a' ha ▸ hYB'⟩

variable (lA : Lawful A) (hA : Readable A) (hB : ∀ a, A.same a a → Readable (B a))
  (hr : ∀ a a', A.same a a' → B a = B a')

include lA hA hB hr in
theorem readable_pi : Readable (pi True A B) where
  type := by
    rintro X X' ⟨x, d, c, hX, hd, hc⟩ ⟨x', d', c', hX', hd', hc'⟩
    refine .type hX hX' fun k ↦ .read (hA.type hd hd') fun M N h ↦ ?_
    have ha : A.same (.ofLevel k d) (.ofLevel k d') := hA.reflect hd hd' (.var k)
    obtain ⟨Y, Y', hY, hY', hYB, hYB'⟩ := hc.same lA hr hc' ha
    exact .run hY hY' (.read ((hB _ (lA.left ha)).type hYB hYB') fun M' N' h' ↦
      .done (by simp only [Nameless.blur, h, h']))
  value := by
    rintro X X' f g ⟨x, d, c, hX, hd, hc⟩ ⟨x', d', c', hX', hd', hc'⟩ ⟨hf, hg, h⟩
    obtain ⟨f', hf⟩ := hf.looks
    obtain ⟨g', hg⟩ := hg.looks
    refine .value hX hX' hf hg fun k ↦ ?_
    have ha : A.same (.ofLevel k d) (.ofLevel k d') := hA.reflect hd hd' (.var k)
    obtain ⟨Y, Y', hY, hY', hYB, hYB'⟩ := hc.same lA hr hc' ha
    obtain ⟨v, w, hv, hw, hvw⟩ := h _ _ ha
    exact .run hY hY' (.run (hv.apply_seen (.seen hf)) (hw.apply_seen (.seen hg))
      (.read ((hB _ (lA.left ha)).value hYB hYB' hvw) fun M N h ↦
        .done (by simp only [Nameless.blur, h])))
  reflect := by
    rintro T U m n hT hU h
    refine ⟨.inr ⟨.intro, T, m, .of_inSight .intro, hT⟩, .inr ⟨.intro, U, n, .of_inSight .intro, hU⟩,
      fun a a' ha ↦ ?_⟩
    obtain ⟨x, d, c, hT, hd, hc⟩ := hT
    obtain ⟨x', d', c', hU, hd', hc'⟩ := hU
    obtain ⟨Y, Y', hY, hY', hYB, hYB'⟩ := hc.same lA hr hc' ha
    exact ⟨_, _, .apply_neu hT hY, .apply_neu hU hY',
      (hB a (lA.left ha)).reflect hYB hYB' (.app h (a := .mk d a) (b := .mk d' a') (hA.value hd hd' ha))⟩

include lA hA hB hr in
theorem readable_sigma : Readable (sigma True A B) where
  type := by
    rintro X X' ⟨x, d, c, hX, hd, hc⟩ ⟨x', d', c', hX', hd', hc'⟩
    refine .type hX hX' fun k ↦ .read (hA.type hd hd') fun M N h ↦ ?_
    have ha : A.same (.ofLevel k d) (.ofLevel k d') := hA.reflect hd hd' (.var k)
    obtain ⟨Y, Y', hY, hY', hYB, hYB'⟩ := hc.same lA hr hc' ha
    exact .run hY hY' (.read ((hB _ (lA.left ha)).type hYB hYB') fun M' N' h' ↦
      .done (by simp only [Nameless.blur, h, h']))
  value := by
    rintro X X' p q ⟨x, d, c, hX, hd, hc⟩ ⟨x', d', c', hX', hd', hc'⟩
      ⟨hp, hq, a, a', e, e', ha, ha', haa, he, he', hee⟩
    obtain ⟨p', hp⟩ := hp.looks
    obtain ⟨q', hq⟩ := hq.looks
    obtain ⟨Y, Y', hY, hY', hYB, hYB'⟩ := hc.same lA hr hc' haa
    exact .value hX hX' hp hq fun k ↦ .run (ha.doCar_seen (.seen hp)) (ha'.doCar_seen (.seen hq))
      (.read (hA.value hd hd' haa) fun M N h ↦ .run hY hY'
        (.run (he.doCdr_seen (.seen hp)) (he'.doCdr_seen (.seen hq))
          (.read ((hB a (lA.left haa)).value hYB hYB' hee) fun M' N' h' ↦
            .done (by simp only [Nameless.blur, h, h']))))
  reflect := by
    rintro T U m n hT hU h
    refine ⟨.inr ⟨.intro, T, m, .of_inSight .intro, hT⟩, .inr ⟨.intro, U, n, .of_inSight .intro, hU⟩, ?_⟩
    obtain ⟨x, d, c, hT, hd, hc⟩ := hT
    obtain ⟨x', d', c', hU, hd', hc'⟩ := hU
    have ha : A.same (.neu d (.project .car m)) (.neu d' (.project .car n)) :=
      hA.reflect hd hd' (h.project .car)
    obtain ⟨Y, Y', hY, hY', hYB, hYB'⟩ := hc.same lA hr hc' ha
    exact ⟨_, _, _, _, .doCar_neu hT, .doCar_neu hU, ha, .doCdr_neu hT hY, .doCdr_neu hU hY',
      (hB _ (lA.left ha)).reflect hYB hYB' (h.project .cdr)⟩

end Families

end Meaning

open Meaning in
theorem Formed.readable {base : Meaning → Prop} (hl : ∀ S, base S → Lawful S)
    (hb : ∀ S, base S → Readable S) {S : Meaning} (h : Formed True base S) : Readable S := by
  induction h with
  | base h => exact hb _ h
  | nat => exact readable_nat
  | atom => exact readable_atom
  | trivial => exact readable_trivial
  | absurd => exact readable_absurd
  | unknown => exact readable_unknown _
  | list _ ih => exact readable_list ih
  | vec _ _ ih => exact readable_vec ih _
  | equal hT _ _ ih => exact readable_equal ih (hT.lawful hl) _ _
  | either _ _ ihL ihR => exact readable_either ihL ihR
  | pi hA _ hr ihA ihB => exact readable_pi (hA.lawful hl) ihA ihB hr
  | sigma hA _ hr ihA ihB => exact readable_sigma (hA.lawful hl) ihA ihB hr

theorem Small.readable {S : Meaning} (h : Small True S) : Readable S :=
  Formed.readable nofun nofun h

/-- The elements of every type can be read back. -/
theorem Large.readable {S : Meaning} (h : Large True S) : Readable S :=
  Formed.readable (by rintro _ rfl; exact Meaning.lawful_univ)
    (by rintro _ rfl; exact Meaning.readable_univ fun _ ↦ Small.readable) h

end LittleTypes.Idealized
