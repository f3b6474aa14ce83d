import LittleTypes.Proofs.Model.Readable

/-!
# The same type, the same element

A code has one meaning, so meanings can be left out: two values are the same type when they are
codes of one meaning, and the same element of a type when that is so for the meaning of the type.
For every former it is said here when two types built with it are the same, and what their
elements are.
-/

namespace LittleTypes.Idealized

/-- Types may be built with or without the universe. -/
inductive Size
  | small
  | large

/-- The types from which types of a size are built. -/
def Size.base (o : Prop) : Size → Meaning → Prop
  | small, _ => False
  | large, S => S = .univ o

theorem Size.eq_univ {o : Prop} {s : Size} {S : Meaning} (h : s.base o S) : S = .univ o := by
  cases s with
  | small => cases h
  | large => exact h

/-- The same type of a size. -/
def TypeAt (s : Size) (o : Prop) (X Y : Value) : Prop :=
  ∃ S, Formed o (s.base o) S ∧ S.code X ∧ S.code Y

/-- The same type. -/
def SameType (o : Prop) (X Y : Value) : Prop := TypeAt .large o X Y

/-- The same element of a type. -/
def Same (o : Prop) (X v w : Value) : Prop := ∃ S, Large o S ∧ S.code X ∧ S.same v w

/-- The meaning of a code. -/
def meaning (o : Prop) (X : Value) : Meaning := ⟨SameType o X, Same o X⟩

variable {o : Prop} {s : Size}

theorem Formed.large {S : Meaning} (h : Formed o (s.base o) S) : Large o S := by
  cases s with
  | small => exact Formed.mono nofun h
  | large => exact Formed.mono (fun _ ↦ id) h

theorem Large.eq_meaning {S : Meaning} {X : Value} (h : Large o S) (hX : S.code X) :
    S = meaning o X := by
  refine Meaning.ext (funext fun Y ↦ propext ⟨fun hY ↦ ?_, ?_⟩)
    (funext fun v ↦ funext fun w ↦ propext ⟨fun hv ↦ ⟨S, h, hX, hv⟩, ?_⟩)
  · exact ⟨S, h.mono fun _ ↦ id, hX, hY⟩
  · rintro ⟨S', h', hX', hY'⟩
    rwa [h.unique h'.large hX hX']
  · rintro ⟨S', h', hX', hv⟩
    rwa [h.unique h' hX hX']

namespace TypeAt

variable {X Y Z : Value}

theorem symm (h : TypeAt s o X Y) : TypeAt s o Y X := by
  obtain ⟨S, hS, hX, hY⟩ := h
  exact ⟨S, hS, hY, hX⟩

theorem trans (h : TypeAt s o X Y) (h' : TypeAt s o Y Z) : TypeAt s o X Z := by
  obtain ⟨S, hS, hX, hY⟩ := h
  obtain ⟨S', hS', hY', hZ⟩ := h'
  cases hS.large.unique hS'.large hY hY'
  exact ⟨S, hS, hX, hZ⟩

/-- What is the same type as a small one is small. -/
theorem transLarge (h : TypeAt s o X Y) (h' : SameType o Y Z) : TypeAt s o X Z := by
  obtain ⟨S, hS, hX, hY⟩ := h
  obtain ⟨S', hS', hY', hZ⟩ := h'
  cases hS.large.unique hS'.large hY hY'
  exact ⟨S, hS, hX, hZ⟩

theorem left (h : TypeAt s o X Y) : TypeAt s o X X := h.trans h.symm

theorem right (h : TypeAt s o X Y) : TypeAt s o Y Y := h.symm.trans h

theorem seen {X' : Value} (h : TypeAt s o X Y) (hs : SeenAs X' X) : TypeAt s o X' Y := by
  obtain ⟨S, hS, hX, hY⟩ := h
  exact ⟨S, hS, hS.large.lawful.seenCode hX hs, hY⟩

theorem seenRight {Y' : Value} (h : TypeAt s o X Y) (hs : SeenAs Y' Y) : TypeAt s o X Y' :=
  (h.symm.seen hs).symm

theorem seenBoth {X' Y' : Value} (h : TypeAt s o X Y) (hX : SeenAs X' X) (hY : SeenAs Y' Y) :
    TypeAt s o X' Y' := (h.seen hX).seenRight hY

theorem sameType (h : TypeAt s o X Y) : SameType o X Y := by
  obtain ⟨S, hS, hX, hY⟩ := h
  exact ⟨S, hS.large.mono fun _ ↦ id, hX, hY⟩

/-- The meaning of a code is built as its size allows. -/
theorem formed (h : TypeAt s o X Y) : Formed o (s.base o) (meaning o X) := by
  obtain ⟨S, hS, hX, hY⟩ := h
  rwa [← hS.large.eq_meaning hX]

/-- The same types have the same elements. -/
theorem meaning_eq (h : TypeAt s o X Y) : meaning o X = meaning o Y := by
  obtain ⟨S, hS, hX, hY⟩ := h
  rw [← hS.large.eq_meaning hX, hS.large.eq_meaning hY]

/-- A type is seen. -/
theorem looks (h : TypeAt s o X Y) : ∃ V, Looks X V := by
  obtain ⟨S, hS, hX, hY⟩ := h
  obtain ⟨V, hV, -⟩ := hS.large.built hX
  exact ⟨V, hV⟩

/-- How the meaning of a code was built, by what is seen of it. -/
theorem built {V : Value} (h : TypeAt s o X Y) (hV : Looks X V) :
    Built o (s.base o) V (meaning o X) := by
  obtain ⟨S, hS, hX, hY⟩ := h
  obtain ⟨W, hW, hb⟩ := hS.built (fun _ ↦ Size.eq_univ) hX
  cases hV.unique hW
  rwa [← hS.large.eq_meaning hX]

end TypeAt

namespace Same

variable {X Y u v w : Value}

theorem type (h : Same o X v w) : SameType o X X := by
  obtain ⟨S, hS, hX, -⟩ := h
  exact ⟨S, hS.mono fun _ ↦ id, hX, hX⟩

theorem lawful (h : SameType o X Y) : Lawful (meaning o X) := h.formed.large.lawful

theorem symm (h : Same o X v w) : Same o X w v := (lawful h.type).symm h

theorem trans (h : Same o X u v) (h' : Same o X v w) : Same o X u w := (lawful h.type).trans h h'

theorem left (h : Same o X v w) : Same o X v v := h.trans h.symm

theorem right (h : Same o X v w) : Same o X w w := h.symm.trans h

theorem looks (h : Same o X v w) : ∃ v', Looks v v' := (lawful h.type).looks h

theorem seen {v' : Value} (h : Same o X v w) (hs : SeenAs v' v) : Same o X v' w :=
  (lawful h.type).seen h hs

theorem seenRight {w' : Value} (h : Same o X v w) (hs : SeenAs w' w) : Same o X v w' :=
  (h.symm.seen hs).symm

/-- The same types have the same elements. -/
theorem conv (h : Same o X v w) (hXY : SameType o X Y) : Same o Y v w := by
  have h' : (meaning o X).same v w := h
  rw [hXY.meaning_eq] at h'
  exact h'

theorem seenType {X' : Value} (h : Same o X v w) (hs : SeenAs X' X) : Same o X' v w :=
  h.conv (h.type.seen hs).symm

end Same

/-! ## Types -/

namespace TypeAt

theorem nat : TypeAt s o (.const .nat) (.const .nat) :=
  ⟨_, .nat, .of_inSight .intro, .of_inSight .intro⟩

theorem atom : TypeAt s o (.const .atom) (.const .atom) :=
  ⟨_, .atom, .of_inSight .intro, .of_inSight .intro⟩

theorem trivial : TypeAt s o (.const .trivial) (.const .trivial) :=
  ⟨_, .trivial, .of_inSight .intro, .of_inSight .intro⟩

theorem absurd : TypeAt s o (.const .absurd) (.const .absurd) :=
  ⟨_, .absurd, .of_inSight .intro, .of_inSight .intro⟩

theorem list {e e' : Value} (h : TypeAt s o e e') :
    TypeAt s o (.unary .list e) (.unary .list e') :=
  ⟨_, .list h.formed, ⟨e, .of_inSight .intro, h.left.sameType⟩,
    ⟨e', .of_inSight .intro, h.sameType⟩⟩

theorem vec {e e' l l' : Value} (h : TypeAt s o e e') (hl : SameNat o l l') :
    TypeAt s o (.binary .vec e l) (.binary .vec e' l') :=
  ⟨_, .vec h.formed hl.left, ⟨e, l, .of_inSight .intro, h.left.sameType, hl.left⟩,
    ⟨e', l', .of_inSight .intro, h.sameType, hl⟩⟩

theorem equal {t t' a a' b b' : Value} (h : TypeAt s o t t') (ha : Same o t a a')
    (hb : Same o t b b') : TypeAt s o (.equal t a b) (.equal t' a' b') :=
  ⟨_, .equal h.formed ha.left hb.left,
    ⟨t, a, b, .of_inSight .intro, h.left.sameType, ha.left, hb.left⟩,
    ⟨t', a', b', .of_inSight .intro, h.sameType, ha, hb⟩⟩

theorem either {l l' r r' : Value} (h : TypeAt s o l l') (h' : TypeAt s o r r') :
    TypeAt s o (.binary .either l r) (.binary .either l' r') :=
  ⟨_, .either h.formed h'.formed, ⟨l, r, .of_inSight .intro, h.left.sameType, h'.left.sameType⟩,
    ⟨l', r', .of_inSight .intro, h.sameType, h'.sameType⟩⟩

end TypeAt

/-- The same family of types over a type. -/
def FamilyAt (s : Size) (o : Prop) (d : Value) (c c' : Closure) : Prop :=
  ∀ a a', Same o d a a' → ∃ Y Y', Runs (enter c a) Y ∧ Runs (enter c' a') Y' ∧ TypeAt s o Y Y'

namespace FamilyAt

variable {d : Value} {c c' : Closure}

theorem symm (h : FamilyAt s o d c c') : FamilyAt s o d c' c := by
  intro a a' ha
  obtain ⟨Y, Y', hY, hY', hYY⟩ := h a' a ha.symm
  exact ⟨Y', Y, hY', hY, hYY.symm⟩

theorem trans {c'' : Closure} (h : FamilyAt s o d c c') (h' : FamilyAt s o d c' c'') :
    FamilyAt s o d c c'' := by
  intro a a' ha
  obtain ⟨Y, Y', hY, hY', hYY⟩ := h a a' ha
  obtain ⟨Z, Z', hZ, hZ', hZZ⟩ := h' a' a' ha.right
  cases hY'.unique hZ
  exact ⟨Y, Z', hY, hZ', hYY.trans hZZ⟩

theorem left (h : FamilyAt s o d c c') : FamilyAt s o d c c := h.trans h.symm

/-- A family at an argument. -/
theorem runs {a : Value} (h : FamilyAt s o d c c') (ha : Same o d a a) :
    ∃ Y, Runs (enter c a) Y ∧ TypeAt s o Y Y := by
  obtain ⟨Y, Y', hY, -, hYY⟩ := h a a ha
  exact ⟨Y, hY, hYY.left⟩

/-- The meanings of a family. -/
theorem meanings (h : FamilyAt s o d c c') : ∃ B : Value → Meaning,
    (∀ a, Same o d a a → Formed o (s.base o) (B a)) ∧
    (∀ a a', Same o d a a' → B a = B a') ∧
    Meaning.Family (meaning o d) B c ∧ Meaning.Family (meaning o d) B c' := by
  have hF : ∀ a a' Y, Same o d a a' → Runs (enter c' a') Y →
      TypeAt s o (enter c a).result Y := by
    intro a a' Y ha hY
    obtain ⟨Z, Z', hZ, hZ', hZZ⟩ := h a a' ha
    cases hY.unique hZ'
    rwa [hZ.result_eq]
  refine ⟨fun a ↦ meaning o (enter c a).result, fun a ha ↦ ?_, fun a a' ha ↦ ?_, fun a ha ↦ ?_,
    fun a ha ↦ ?_⟩
  · obtain ⟨Y, hY, -⟩ := h.symm.runs ha
    exact (hF a a Y ha hY).formed
  · obtain ⟨Y, hY, -⟩ := h.symm.runs ha.right
    exact (hF a a' Y ha hY).meaning_eq.trans (hF a' a' Y ha.right hY).meaning_eq.symm
  · obtain ⟨Y, hY, hYY⟩ := h.runs ha
    exact ⟨Y, hY, hY.result_eq ▸ hYY.sameType⟩
  · obtain ⟨Y, hY, -⟩ := h.symm.runs ha
    exact ⟨Y, hY, (hF a a Y ha hY).sameType⟩

end FamilyAt

namespace TypeAt

variable {d d' : Value} {c c' : Closure}

theorem pi {x x' : String} (hd : TypeAt s o d d') (hc : FamilyAt s o d c c') :
    TypeAt s o (.pi x d c) (.pi x' d' c') := by
  obtain ⟨B, hB, hr, hcB, hcB'⟩ := hc.meanings
  exact ⟨_, .pi hd.formed hB hr, ⟨x, d, c, .of_inSight .intro, hd.left.sameType, hcB⟩,
    ⟨x', d', c', .of_inSight .intro, hd.sameType, hcB'⟩⟩

theorem sigma {x x' : String} (hd : TypeAt s o d d') (hc : FamilyAt s o d c c') :
    TypeAt s o (.sigma x d c) (.sigma x' d' c') := by
  obtain ⟨B, hB, hr, hcB, hcB'⟩ := hc.meanings
  exact ⟨_, .sigma hd.formed hB hr, ⟨x, d, c, .of_inSight .intro, hd.left.sameType, hcB⟩,
    ⟨x', d', c', .of_inSight .intro, hd.sameType, hcB'⟩⟩

end TypeAt

/-! ## The meaning of each former -/

section Meanings

variable {X Y V : Value}

theorem same_iff_of_meaning {S : Meaning} {v w : Value} (e : meaning o X = S) :
    Same o X v w ↔ S.same v w := by
  subst e
  rfl

theorem sameType_iff_of_meaning {S : Meaning} (e : meaning o X = S) :
    SameType o X Y ↔ S.code Y := by
  subst e
  rfl

variable (h : SameType o X Y)

include h

theorem meaning_univ (hX : Looks X (.const .univ)) : meaning o X = .univ o := by
  have b := h.built hX
  generalize meaning o X = S at b
  cases b
  rfl

theorem meaning_nat (hX : Looks X (.const .nat)) : meaning o X = .nat o := by
  have b := h.built hX
  generalize meaning o X = S at b
  cases b
  rfl

theorem meaning_atom (hX : Looks X (.const .atom)) : meaning o X = .atom o := by
  have b := h.built hX
  generalize meaning o X = S at b
  cases b
  rfl

theorem meaning_trivial (hX : Looks X (.const .trivial)) : meaning o X = .trivial o := by
  have b := h.built hX
  generalize meaning o X = S at b
  cases b
  rfl

theorem meaning_absurd (hX : Looks X (.const .absurd)) : meaning o X = .absurd o := by
  have b := h.built hX
  generalize meaning o X = S at b
  cases b
  rfl

theorem meaning_unknown {U : Value} {m : Neutral} (hX : Looks X (.neu U m)) :
    o ∧ Looks U (.const .univ) ∧ Alike m m ∧ meaning o X = .unknown o m := by
  have b := h.built hX
  generalize meaning o X = S at b
  cases b with
  | unknown ho hU hm => exact ⟨ho, hU, hm.right, Meaning.unknown_congr hm⟩

theorem meaning_list {e : Value} (hX : Looks X (.unary .list e)) :
    meaning o X = .list o (meaning o e) := by
  have b := h.built hX
  generalize meaning o X = S at b
  cases b with
  | list hE he => rw [← Large.eq_meaning hE he]

theorem meaning_vec {e l : Value} (hX : Looks X (.binary .vec e l)) :
    meaning o X = .vec o (meaning o e) l ∧ SameNat o l l := by
  have b := h.built hX
  generalize meaning o X = S at b
  cases b with
  | vec hE he hl => exact ⟨by rw [← Large.eq_meaning hE he, Meaning.vec_congr hl], hl.symm.left⟩

theorem meaning_equal {t a c : Value} (hX : Looks X (.equal t a c)) :
    meaning o X = .equal o (meaning o t) a c ∧ Same o t a a ∧ Same o t c c := by
  have b := h.built hX
  generalize meaning o X = S at b
  cases b with
  | equal hT ht ha hc =>
    have hT' : Large o _ := hT
    have e := hT'.eq_meaning ht
    subst e
    exact ⟨Meaning.equal_congr hT'.lawful ha hc, hT'.lawful.right ha, hT'.lawful.right hc⟩

theorem meaning_either {l r : Value} (hX : Looks X (.binary .either l r)) :
    meaning o X = .either o (meaning o l) (meaning o r) := by
  have b := h.built hX
  generalize meaning o X = S at b
  cases b with
  | either hL hR hl hr => rw [← Large.eq_meaning hL hl, ← Large.eq_meaning hR hr]

theorem meaning_pi {x : String} {d : Value} {c : Closure} (hX : Looks X (.pi x d c)) :
    meaning o X = .pi o (meaning o d) (fun a ↦ meaning o (enter c a).result) := by
  have b := h.built hX
  generalize meaning o X = S at b
  cases b with
  | pi hA hB hr hd hc =>
    have hA' : Large o _ := hA
    have e := hA'.eq_meaning hd
    subst e
    refine Meaning.pi_congr hA'.lawful fun a ha ↦ ?_
    obtain ⟨Y, hY, hYB⟩ := hc a ha
    rw [hY.result_eq]
    exact Large.eq_meaning (hB a ha) hYB

theorem meaning_sigma {x : String} {d : Value} {c : Closure} (hX : Looks X (.sigma x d c)) :
    meaning o X = .sigma o (meaning o d) (fun a ↦ meaning o (enter c a).result) := by
  have b := h.built hX
  generalize meaning o X = S at b
  cases b with
  | sigma hA hB hr hd hc =>
    have hA' : Large o _ := hA
    have e := hA'.eq_meaning hd
    subst e
    refine Meaning.sigma_congr hA'.lawful fun a ha ↦ ?_
    obtain ⟨Y, hY, hYB⟩ := hc a ha
    rw [hY.result_eq]
    exact Large.eq_meaning (hB a ha) hYB

end Meanings

/-! ## Parts of types that are the same -/

namespace TypeAt

variable {X Y : Value}

theorem of_const {k : Const} (h : TypeAt s o X Y) (hX : Looks X (.const k)) :
    Looks Y (.const k) := by
  have b := h.built hX
  have hY : (meaning o X).code Y := h.sameType
  generalize meaning o X = S at b hY
  cases b <;> exact hY

theorem of_unknown {U : Value} {m : Neutral} (h : TypeAt s o X Y) (hX : Looks X (.neu U m)) :
    ∃ U' n, Looks Y (.neu U' n) ∧ Looks U' (.const .univ) ∧ Alike m n := by
  obtain ⟨-, -, -, e⟩ := meaning_unknown h.sameType hX
  obtain ⟨-, U', n, hY, hU, hn⟩ := (sameType_iff_of_meaning e).1 h.sameType
  exact ⟨U', n, hY, hU, hn⟩

/-- The parts of a type are types of its size, as they were built along with it. -/
theorem part {S : Meaning} {e e' : Value} (hS : Formed o (s.base o) S) (he : S.code e)
    (h : SameType o e e') : TypeAt s o e e' := TypeAt.transLarge ⟨S, hS, he, he⟩ h

theorem of_list {e : Value} (h : TypeAt s o X Y) (hX : Looks X (.unary .list e)) :
    ∃ e', Looks Y (.unary .list e') ∧ TypeAt s o e e' := by
  obtain ⟨e', hY, he⟩ := (sameType_iff_of_meaning (meaning_list h.sameType hX)).1 h.sameType
  have b := h.built hX
  generalize meaning o X = S at b
  cases b with
  | list hE heE => exact ⟨e', hY, .part hE heE he⟩

theorem of_vec {e l : Value} (h : TypeAt s o X Y) (hX : Looks X (.binary .vec e l)) :
    ∃ e' l', Looks Y (.binary .vec e' l') ∧ TypeAt s o e e' ∧ SameNat o l l' := by
  obtain ⟨e', l', hY, he, hl⟩ :=
    (sameType_iff_of_meaning (meaning_vec h.sameType hX).1).1 h.sameType
  have b := h.built hX
  generalize meaning o X = S at b
  cases b with
  | vec hE heE => exact ⟨e', l', hY, .part hE heE he, hl⟩

theorem of_equal {t a c : Value} (h : TypeAt s o X Y) (hX : Looks X (.equal t a c)) :
    ∃ t' a' c', Looks Y (.equal t' a' c') ∧ TypeAt s o t t' ∧ Same o t a a' ∧ Same o t c c' := by
  obtain ⟨t', a', c', hY, ht, ha, hc⟩ :=
    (sameType_iff_of_meaning (meaning_equal h.sameType hX).1).1 h.sameType
  have b := h.built hX
  generalize meaning o X = S at b
  cases b with
  | equal hT htT => exact ⟨t', a', c', hY, .part hT htT ht, ha, hc⟩

theorem of_either {l r : Value} (h : TypeAt s o X Y) (hX : Looks X (.binary .either l r)) :
    ∃ l' r', Looks Y (.binary .either l' r') ∧ TypeAt s o l l' ∧ TypeAt s o r r' := by
  obtain ⟨l', r', hY, hl, hr⟩ :=
    (sameType_iff_of_meaning (meaning_either h.sameType hX)).1 h.sameType
  have b := h.built hX
  generalize meaning o X = S at b
  cases b with
  | either hL hR hlL hrR => exact ⟨l', r', hY, .part hL hlL hl, .part hR hrR hr⟩

/-- Closures with the same meanings are the same family. -/
theorem family {d : Value} {B : Value → Meaning} {c c' : Closure}
    (hB : ∀ a, Same o d a a → Formed o (s.base o) (B a)) (hr : ∀ a a', Same o d a a' → B a = B a')
    (hc : Meaning.Family (meaning o d) B c) (hc' : Meaning.Family (meaning o d) B c') :
    FamilyAt s o d c c' := by
  intro a a' ha
  obtain ⟨Y, hY, hYB⟩ := hc a ha.left
  obtain ⟨Y', hY', hYB'⟩ := hc' a' ha.right
  rw [← hr a a' ha] at hYB'
  exact ⟨Y, Y', hY, hY', B a, hB a ha.left, hYB, hYB'⟩

theorem of_pi {x : String} {d : Value} {c : Closure} (h : TypeAt s o X Y)
    (hX : Looks X (.pi x d c)) :
    ∃ x' d' c', Looks Y (.pi x' d' c') ∧ TypeAt s o d d' ∧ FamilyAt s o d c c' := by
  have b := h.built hX
  have hY : (meaning o X).code Y := h.sameType
  generalize meaning o X = S at b hY
  cases b with
  | pi hA hB hr hd hc =>
    have e := Large.eq_meaning hA.large hd
    subst e
    obtain ⟨x', d', c', hY, hd', hc'⟩ := hY
    exact ⟨x', d', c', hY, .part hA hd hd', family hB hr hc hc'⟩

theorem of_sigma {x : String} {d : Value} {c : Closure} (h : TypeAt s o X Y)
    (hX : Looks X (.sigma x d c)) :
    ∃ x' d' c', Looks Y (.sigma x' d' c') ∧ TypeAt s o d d' ∧ FamilyAt s o d c c' := by
  have b := h.built hX
  have hY : (meaning o X).code Y := h.sameType
  generalize meaning o X = S at b hY
  cases b with
  | sigma hA hB hr hd hc =>
    have e := Large.eq_meaning hA.large hd
    subst e
    obtain ⟨x', d', c', hY, hd', hc'⟩ := hY
    exact ⟨x', d', c', hY, .part hA hd hd', family hB hr hc hc'⟩

theorem pi_parts {x : String} {d : Value} {c : Closure} (h : TypeAt s o X Y)
    (hX : Looks X (.pi x d c)) : TypeAt s o d d ∧ FamilyAt s o d c c := by
  obtain ⟨x', d', c', -, hd, hc⟩ := of_pi h hX
  exact ⟨hd.left, hc.left⟩

theorem sigma_parts {x : String} {d : Value} {c : Closure} (h : TypeAt s o X Y)
    (hX : Looks X (.sigma x d c)) : TypeAt s o d d ∧ FamilyAt s o d c c := by
  obtain ⟨x', d', c', -, hd, hc⟩ := of_sigma h hX
  exact ⟨hd.left, hc.left⟩

/-! ### Both types in sight -/

theorem list_inj {e e' : Value} (h : TypeAt s o X Y) (hX : Looks X (.unary .list e))
    (hY : Looks Y (.unary .list e')) : TypeAt s o e e' := by
  obtain ⟨e₁, hY₁, he⟩ := of_list h hX
  cases hY.unique hY₁
  exact he

theorem vec_inj {e e' l l' : Value} (h : TypeAt s o X Y) (hX : Looks X (.binary .vec e l))
    (hY : Looks Y (.binary .vec e' l')) : TypeAt s o e e' ∧ SameNat o l l' := by
  obtain ⟨e₁, l₁, hY₁, he⟩ := of_vec h hX
  cases hY.unique hY₁
  exact he

theorem equal_inj {t a c t' a' c' : Value} (h : TypeAt s o X Y) (hX : Looks X (.equal t a c))
    (hY : Looks Y (.equal t' a' c')) : TypeAt s o t t' ∧ Same o t a a' ∧ Same o t c c' := by
  obtain ⟨t₁, a₁, c₁, hY₁, ht⟩ := of_equal h hX
  cases hY.unique hY₁
  exact ht

theorem either_inj {l r l' r' : Value} (h : TypeAt s o X Y) (hX : Looks X (.binary .either l r))
    (hY : Looks Y (.binary .either l' r')) : TypeAt s o l l' ∧ TypeAt s o r r' := by
  obtain ⟨l₁, r₁, hY₁, hl⟩ := of_either h hX
  cases hY.unique hY₁
  exact hl

theorem pi_inj {x x' : String} {d d' : Value} {c c' : Closure} (h : TypeAt s o X Y)
    (hX : Looks X (.pi x d c)) (hY : Looks Y (.pi x' d' c')) :
    TypeAt s o d d' ∧ FamilyAt s o d c c' := by
  obtain ⟨x₁, d₁, c₁, hY₁, hd⟩ := of_pi h hX
  cases hY.unique hY₁
  exact hd

theorem sigma_inj {x x' : String} {d d' : Value} {c c' : Closure} (h : TypeAt s o X Y)
    (hX : Looks X (.sigma x d c)) (hY : Looks Y (.sigma x' d' c')) :
    TypeAt s o d d' ∧ FamilyAt s o d c c' := by
  obtain ⟨x₁, d₁, c₁, hY₁, hd⟩ := of_sigma h hX
  cases hY.unique hY₁
  exact hd

end TypeAt

/-! ## Elements -/

namespace Same

variable {X Y v w : Value}

theorem univ_iff (hX : Looks X (.const .univ)) : Same o X v w ↔ TypeAt .small o v w := by
  have hU : SameType o X X := ⟨.univ o, .base rfl, hX, hX⟩
  refine (same_iff_of_meaning (meaning_univ hU hX)).trans ?_
  constructor
  · rintro ⟨S, hS, hv, hw⟩
    exact ⟨S, Formed.mono nofun hS, hv, hw⟩
  · rintro ⟨S, hS, hv, hw⟩
    exact ⟨S, Formed.mono nofun hS, hv, hw⟩

/-- An element of the universe is a type. -/
theorem sameType (h : Same o (.const .univ) v w) : SameType o v w :=
  ((univ_iff (.of_inSight .intro)).1 h).sameType

theorem nat_iff (hX : Looks X (.const .nat)) : Same o X v w ↔ SameNat o v w :=
  same_iff_of_meaning (meaning_nat ⟨.nat o, .nat, hX, hX⟩ hX)

theorem atom_iff (hX : Looks X (.const .atom)) : Same o X v w ↔ (Meaning.atom o).same v w :=
  same_iff_of_meaning (meaning_atom ⟨.atom o, .atom, hX, hX⟩ hX)

theorem trivial_iff (hX : Looks X (.const .trivial)) :
    Same o X v w ↔ Meaning.UnitLike o v ∧ Meaning.UnitLike o w :=
  same_iff_of_meaning (meaning_trivial ⟨.trivial o, .trivial, hX, hX⟩ hX)

theorem absurd_iff (hX : Looks X (.const .absurd)) :
    Same o X v w ↔ Meaning.AbsurdLike o v ∧ Meaning.AbsurdLike o w :=
  same_iff_of_meaning (meaning_absurd ⟨.absurd o, .absurd, hX, hX⟩ hX)

theorem list_iff {e : Value} (h : SameType o X Y) (hX : Looks X (.unary .list e)) :
    Same o X v w ↔ SameList o (meaning o e) v w :=
  same_iff_of_meaning (meaning_list h hX)

theorem vec_iff {e l : Value} (h : SameType o X Y) (hX : Looks X (.binary .vec e l)) :
    Same o X v w ↔ SameVec o (meaning o e) l v w :=
  same_iff_of_meaning (meaning_vec h hX).1

theorem equal_iff {t a c : Value} (h : SameType o X Y) (hX : Looks X (.equal t a c)) :
    Same o X v w ↔ (Meaning.equal o (meaning o t) a c).same v w :=
  same_iff_of_meaning (meaning_equal h hX).1

theorem either_iff {l r : Value} (h : SameType o X Y) (hX : Looks X (.binary .either l r)) :
    Same o X v w ↔ (Meaning.either o (meaning o l) (meaning o r)).same v w :=
  same_iff_of_meaning (meaning_either h hX)

theorem pi_iff {x : String} {d : Value} {c : Closure} (h : SameType o X Y)
    (hX : Looks X (.pi x d c)) :
    Same o X v w ↔
      Meaning.FunctionLike o (SameType o X) v ∧ Meaning.FunctionLike o (SameType o X) w ∧
      ∀ a a', Same o d a a' → ∃ y z Z, Runs (apply v a) y ∧ Runs (apply w a') z ∧
        Runs (enter c a) Z ∧ Same o Z y z := by
  have e := meaning_pi h hX
  have ec : SameType o X = Meaning.piCode (meaning o d) fun a ↦ meaning o (enter c a).result :=
    congrArg Meaning.code e
  refine (same_iff_of_meaning e).trans ?_
  rw [ec]
  refine and_congr_right fun _ ↦ and_congr_right fun _ ↦ forall₃_congr fun a a' ha ↦ ?_
  obtain ⟨-, hc⟩ := TypeAt.pi_parts h hX
  obtain ⟨Z, hZ, -⟩ := hc.runs (Same.left ha)
  simp only [hZ.result_eq]
  constructor
  · rintro ⟨y, z, hy, hz, hyz⟩
    exact ⟨y, z, Z, hy, hz, hZ, hyz⟩
  · rintro ⟨y, z, Z', hy, hz, hZ', hyz⟩
    cases hZ.unique hZ'
    exact ⟨y, z, hy, hz, hyz⟩

theorem sigma_iff {x : String} {d : Value} {c : Closure} (h : SameType o X Y)
    (hX : Looks X (.sigma x d c)) :
    Same o X v w ↔
      Meaning.PairLike o (SameType o X) v ∧ Meaning.PairLike o (SameType o X) w ∧
      ∃ a a' e e' Z, Runs (doCar v) a ∧ Runs (doCar w) a' ∧ Same o d a a' ∧
        Runs (doCdr v) e ∧ Runs (doCdr w) e' ∧ Runs (enter c a) Z ∧ Same o Z e e' := by
  have e := meaning_sigma h hX
  have ec : SameType o X = Meaning.sigmaCode (meaning o d) fun a ↦ meaning o (enter c a).result :=
    congrArg Meaning.code e
  refine (same_iff_of_meaning e).trans ?_
  rw [ec]
  refine and_congr_right fun _ ↦ and_congr_right fun _ ↦ ?_
  obtain ⟨-, hc⟩ := TypeAt.sigma_parts h hX
  constructor
  · rintro ⟨a, a', e, e', ha, ha', haa, he, he', hee⟩
    obtain ⟨Z, hZ, -⟩ := hc.runs (Same.left haa)
    simp only [hZ.result_eq] at hee
    exact ⟨a, a', e, e', Z, ha, ha', haa, he, he', hZ, hee⟩
  · rintro ⟨a, a', e, e', Z, ha, ha', haa, he, he', hZ, hee⟩
    refine ⟨a, a', e, e', ha, ha', haa, he, he', ?_⟩
    simp only [hZ.result_eq]
    exact hee

/-! ### Reading elements back -/

theorem readAlike (h : Same True X v w) (hXY : SameType True X Y) :
    ReadAlike (.value X v) (.value Y w) :=
  h.type.formed.large.readable.value h.type hXY h

theorem alikeTyped (h : Same True X v w) (hXY : SameType True X Y) :
    AlikeTyped (.mk X v) (.mk Y w) := h.readAlike hXY

theorem reflect {m n : Neutral} (hXY : SameType True X Y) (h : Alike m n) :
    Same True X (.neu X m) (.neu Y n) :=
  hXY.formed.large.readable.reflect hXY.left hXY h

end Same

theorem SameType.readAlike {X Y : Value} (h : SameType True X Y) :
    ReadAlike (.type X) (.type Y) :=
  h.formed.large.readable.type h.left h

end LittleTypes.Idealized
