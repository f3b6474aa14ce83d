import LittleTypes.Proofs.Model.Equality
import LittleTypes.Proofs.Model.Vectors

/-!
# Logics

A logic says of tuples of values, with one component for each side that is compared, when they are
one type and when they are one element of a type.  What holds may depend on a world, and then goes
on to hold in later worlds.  Every side has a model of its own, and the components of a type or an
element are a type or an element there.

The model itself is a logic with two sides.  A logic is lawful if types and elements can be formed
in it, taken apart and converted; what holds of every term in every lawful logic is what typing
guarantees.

That something is a function for all elements of a logic does not make it a function on each of the
sides, where there may be more elements.  So a logic also says what has to be known beforehand of a
function, and of the types of functions and pairs.
-/

namespace LittleTypes.Idealized

/-- When tuples of values are types and elements. -/
structure Logic where
  /-- The sides. -/
  Index : Type
  /-- What types and elements may depend on. -/
  World : Type
  /-- Which worlds come later. -/
  le : World → World → Prop
  /-- Whether there are unknown values in the model of a side. -/
  model : Index → Prop
  /-- Types of a size. -/
  type : Size → World → (Index → Value) → Prop
  /-- Elements of a type. -/
  elem : World → (Index → Value) → (Index → Value) → Prop
  /-- What has to be known beforehand of the types of functions and pairs. -/
  preType : Size → World → (Index → Value) → Prop
  /-- What has to be known beforehand of functions. -/
  preElem : World → (Index → Value) → (Index → Value) → Prop

namespace Logic

section Definitions

variable (L : Logic)

/-- The plans run to an element of a type. -/
def Run (ω : L.World) (X : L.Index → Value) (p : L.Index → Plan Value) : Prop :=
  ∃ v, (∀ i, Runs (p i) (v i)) ∧ L.elem ω X v

/-- Closures that give a type for every element of a type. -/
def Family (s : Size) (ω : L.World) (d : L.Index → Value) (f : L.Index → Closure) : Prop :=
  ∀ ω', L.le ω ω' → ∀ a, L.elem ω' d a →
    ∃ Y, (∀ i, Runs (enter (f i) (a i)) (Y i)) ∧ L.type s ω' Y

/-- Types and elements stay what they are: in later worlds, for all that is seen, at the same types;
and their components are types and elements of the models. -/
structure Stable : Prop where
  le_refl : ∀ ω, L.le ω ω
  le_trans : ∀ {ω₁ ω₂ ω₃}, L.le ω₁ ω₂ → L.le ω₂ ω₃ → L.le ω₁ ω₃
  type_mono : ∀ {s ω ω' X}, L.type s ω X → L.le ω ω' → L.type s ω' X
  elem_mono : ∀ {ω ω' X v}, L.elem ω X v → L.le ω ω' → L.elem ω' X v
  type_seen : ∀ {s ω X Y}, L.type s ω X → (∀ i, SeenAs (Y i) (X i)) → L.type s ω Y
  elem_seen : ∀ {ω X v w}, L.elem ω X v → (∀ i, SeenAs (w i) (v i)) → L.elem ω X w
  type_large : ∀ {s ω X}, L.type s ω X → L.type .large ω X
  typeAt : ∀ {s ω X}, L.type s ω X → ∀ i, TypeAt s (L.model i) (X i) (X i)
  same : ∀ {ω X v}, L.elem ω X v → ∀ i, Same (L.model i) (X i) (v i) (v i)
  elem_type : ∀ {ω X v}, L.elem ω X v → L.type .large ω X
  conv : ∀ {ω X Y v}, L.elem ω X v → L.type .large ω Y →
    (∀ i, SameType (L.model i) (X i) (Y i)) → L.elem ω Y v
  univ_iff : ∀ {ω X}, L.elem ω (fun _ ↦ .const .univ) X ↔ L.type .small ω X
  typeKnown : ∀ {s ω X}, L.type s ω X → L.preType s ω X
  elemKnown : ∀ {ω X v}, L.elem ω X v → L.preElem ω X v

/-- Types can be formed. -/
structure Forms : Prop where
  univ : ∀ {ω}, L.type .large ω fun _ ↦ .const .univ
  nat : ∀ {s ω}, L.type s ω fun _ ↦ .const .nat
  atom : ∀ {s ω}, L.type s ω fun _ ↦ .const .atom
  trivial : ∀ {s ω}, L.type s ω fun _ ↦ .const .trivial
  absurd : ∀ {s ω}, L.type s ω fun _ ↦ .const .absurd
  list : ∀ {s ω e}, L.type s ω e → L.type s ω fun i ↦ .unary .list (e i)
  vec : ∀ {s ω e l}, L.type s ω e → L.elem ω (fun _ ↦ .const .nat) l →
    L.type s ω fun i ↦ .binary .vec (e i) (l i)
  equal : ∀ {s ω t a b}, L.type s ω t → L.elem ω t a → L.elem ω t b →
    L.type s ω fun i ↦ .equal (t i) (a i) (b i)
  either : ∀ {s ω l r}, L.type s ω l → L.type s ω r →
    L.type s ω fun i ↦ .binary .either (l i) (r i)
  pi : ∀ {s ω} {x : L.Index → String} {d f}, L.type s ω d → L.Family s ω d f →
    (L.preType s ω fun i ↦ .pi (x i) (d i) (f i)) → L.type s ω fun i ↦ .pi (x i) (d i) (f i)
  sigma : ∀ {s ω} {x : L.Index → String} {d f}, L.type s ω d → L.Family s ω d f →
    (L.preType s ω fun i ↦ .sigma (x i) (d i) (f i)) →
      L.type s ω fun i ↦ .sigma (x i) (d i) (f i)

/-- Types can be taken apart. -/
structure Inverts : Prop where
  of_list : ∀ {s ω e}, (L.type s ω fun i ↦ .unary .list (e i)) → L.type s ω e
  of_vec : ∀ {s ω e l}, (L.type s ω fun i ↦ .binary .vec (e i) (l i)) →
    L.type s ω e ∧ L.elem ω (fun _ ↦ .const .nat) l
  of_equal : ∀ {s ω t a b}, (L.type s ω fun i ↦ .equal (t i) (a i) (b i)) →
    L.type s ω t ∧ L.elem ω t a ∧ L.elem ω t b
  of_either : ∀ {s ω l r}, (L.type s ω fun i ↦ .binary .either (l i) (r i)) →
    L.type s ω l ∧ L.type s ω r
  of_pi : ∀ {s ω} {x : L.Index → String} {d} {f : L.Index → Closure},
    (L.type s ω fun i ↦ .pi (x i) (d i) (f i)) → L.type s ω d ∧ L.Family s ω d f
  of_sigma : ∀ {s ω} {x : L.Index → String} {d} {f : L.Index → Closure},
    (L.type s ω fun i ↦ .sigma (x i) (d i) (f i)) → L.type s ω d ∧ L.Family s ω d f

/-- Elements of types without functions and pairs can be formed. -/
structure Constructs : Prop where
  zero : ∀ {ω}, L.elem ω (fun _ ↦ .const .nat) fun _ ↦ .const .zero
  add1 : ∀ {ω n}, L.elem ω (fun _ ↦ .const .nat) n →
    L.elem ω (fun _ ↦ .const .nat) fun i ↦ .unary .add1 (n i)
  pred : ∀ {ω n}, (L.elem ω (fun _ ↦ .const .nat) fun i ↦ .unary .add1 (n i)) →
    L.elem ω (fun _ ↦ .const .nat) n
  quote : ∀ {ω} (s : String), L.elem ω (fun _ ↦ .const .atom) fun _ ↦ .quote s
  sole : ∀ {ω}, L.elem ω (fun _ ↦ .const .trivial) fun _ ↦ .const .sole
  nil : ∀ {ω e}, L.type .large ω e →
    L.elem ω (fun i ↦ .unary .list (e i)) fun _ ↦ .const .nil
  listCons : ∀ {ω e h t}, L.elem ω e h → L.elem ω (fun i ↦ .unary .list (e i)) t →
    L.elem ω (fun i ↦ .unary .list (e i)) fun i ↦ .binary .listCons (h i) (t i)
  rest : ∀ {ω} {e h t : L.Index → Value},
    (L.elem ω (fun i ↦ .unary .list (e i)) fun i ↦ .binary .listCons (h i) (t i)) →
      L.elem ω (fun i ↦ .unary .list (e i)) t
  vecnil : ∀ {ω e}, L.type .large ω e →
    L.elem ω (fun i ↦ .binary .vec (e i) (.const .zero)) fun _ ↦ .const .vecnil
  vecCons : ∀ {ω e k h t}, L.elem ω (fun _ ↦ .const .nat) k → L.elem ω e h →
    L.elem ω (fun i ↦ .binary .vec (e i) (k i)) t →
      L.elem ω (fun i ↦ .binary .vec (e i) (.unary .add1 (k i)))
        fun i ↦ .binary .vecCons (h i) (t i)
  refl : ∀ {ω t x}, L.elem ω t x →
    L.elem ω (fun i ↦ .equal (t i) (x i) (x i)) fun i ↦ .unary .same (x i)
  left : ∀ {ω l r x}, L.type .large ω r → L.elem ω l x →
    L.elem ω (fun i ↦ .binary .either (l i) (r i)) fun i ↦ .unary .left (x i)
  right : ∀ {ω l r x}, L.type .large ω l → L.elem ω r x →
    L.elem ω (fun i ↦ .binary .either (l i) (r i)) fun i ↦ .unary .right (x i)

/-- Functions and pairs can be formed and used. -/
structure Applies : Prop where
  cons : ∀ {ω} {x : L.Index → String} {f : L.Index → Closure} {d a e Y : L.Index → Value},
    (L.type .large ω fun i ↦ .sigma (x i) (d i) (f i)) → L.elem ω d a →
    (∀ i, Runs (enter (f i) (a i)) (Y i)) → L.elem ω Y e →
      L.elem ω (fun i ↦ .sigma (x i) (d i) (f i)) fun i ↦ .binary .cons (a i) (e i)
  lam : ∀ {ω} {x y : L.Index → String} {f b : L.Index → Closure} {d : L.Index → Value},
    (L.type .large ω fun i ↦ .pi (x i) (d i) (f i)) →
    L.preElem ω (fun i ↦ .pi (x i) (d i) (f i)) (fun i ↦ .lam (y i) (b i)) →
    (∀ ω', L.le ω ω' → ∀ a, L.elem ω' d a → ∃ Y, (∀ i, Runs (enter (f i) (a i)) (Y i)) ∧
      L.Run ω' Y fun i ↦ enter (b i) (a i)) →
      L.elem ω (fun i ↦ .pi (x i) (d i) (f i)) fun i ↦ .lam (y i) (b i)
  apply : ∀ {ω} {x : L.Index → String} {f : L.Index → Closure} {d p a Y : L.Index → Value},
    L.elem ω (fun i ↦ .pi (x i) (d i) (f i)) p → L.elem ω d a →
    (∀ i, Runs (enter (f i) (a i)) (Y i)) → L.Run ω Y fun i ↦ Idealized.apply (p i) (a i)
  car : ∀ {ω} {x : L.Index → String} {f : L.Index → Closure} {d p : L.Index → Value},
    L.elem ω (fun i ↦ .sigma (x i) (d i) (f i)) p → L.Run ω d fun i ↦ doCar (p i)
  cdr : ∀ {ω} {x : L.Index → String} {f : L.Index → Closure} {d p a Y : L.Index → Value},
    L.elem ω (fun i ↦ .sigma (x i) (d i) (f i)) p → (∀ i, Runs (doCar (p i)) (a i)) →
    (∀ i, Runs (enter (f i) (a i)) (Y i)) → L.Run ω Y fun i ↦ doCdr (p i)

/-- A logic of functions and pairs. -/
structure Regular : Prop extends L.Stable, L.Forms, L.Inverts, L.Constructs, L.Applies

/-- What has to be known beforehand, as a logic of its own. -/
def known : Logic := { L with type := L.preType, elem := L.preElem }

/-- The types of motives, cases and steps can be formed. -/
structure Motives : Prop where
  arrow : ∀ {s ω} {x : L.Index → String} {d X : L.Index → Value}, L.type s ω d → L.type s ω X →
    L.type s ω fun i ↦ .arrow (x i) (d i) (X i)
  indNatStep : ∀ {ω M}, L.elem ω (fun _ ↦ .indNatMotive) M →
    L.type .large ω fun i ↦ .indNatStep (M i)
  listTailStep : ∀ {ω e M h}, L.type .large ω e → L.elem ω (fun i ↦ .indListMotive (e i)) M →
    L.elem ω e h →
      L.type .large ω fun i ↦ .pi "es" (.unary .list (e i)) (.listStepTail (M i) (h i))
  indListStep : ∀ {ω e M}, L.type .large ω e → L.elem ω (fun i ↦ .indListMotive (e i)) M →
    L.type .large ω fun i ↦ .indListStep (e i) (M i)
  indEitherLeft : ∀ {ω l r M}, L.type .large ω l → L.type .large ω r →
    L.elem ω (fun i ↦ .indEitherMotive (l i) (r i)) M →
      L.type .large ω fun i ↦ .indEitherCase .left (l i) (M i)
  indEitherRight : ∀ {ω l r M}, L.type .large ω l → L.type .large ω r →
    L.elem ω (fun i ↦ .indEitherMotive (l i) (r i)) M →
      L.type .large ω fun i ↦ .indEitherCase .right (r i) (M i)
  indEqualMotive : ∀ {ω t a}, L.type .large ω t → L.elem ω t a →
    L.type .large ω fun i ↦ .indEqualMotive (t i) (a i)
  indVecMotive : ∀ {ω e}, L.type .large ω e → L.type .large ω fun i ↦ .indVecMotive (e i)
  vecTailStep : ∀ {ω e M k h}, L.type .large ω e → L.elem ω (fun i ↦ .indVecMotive (e i)) M →
    L.elem ω (fun _ ↦ .const .nat) k → L.elem ω e h →
      L.type .large ω fun i ↦ .pi "t" (.binary .vec (e i) (k i)) (.vecStepTail (M i) (k i) (h i))
  vecHeadStep : ∀ {ω e M k}, L.type .large ω e → L.elem ω (fun i ↦ .indVecMotive (e i)) M →
    L.elem ω (fun _ ↦ .const .nat) k →
      L.type .large ω fun i ↦ .pi "h" (e i) (.vecStepHead (e i) (M i) (k i))
  indVecStep : ∀ {ω e M}, L.type .large ω e → L.elem ω (fun i ↦ .indVecMotive (e i)) M →
    L.type .large ω fun i ↦ .indVecStep (e i) (M i)

/-- A logic of functions and pairs with the types that eliminators require. -/
structure Lawful : Prop extends L.Regular, L.Motives

/-- Numbers, lists, vectors and sums can be eliminated. -/
structure Recurs : Prop where
  recursor : ∀ {ω} {e t B b s : L.Index → Value} (k : Recursor), L.type .large ω B →
    L.elem ω (fun i ↦ .recursorTarget (e i) k) t → L.elem ω B b →
    L.elem ω (fun i ↦ .recursorStep (e i) (B i) k) s →
      L.Run ω B fun i ↦ doRecursor k (t i) (B i) (b i) (s i)
  indNat : ∀ {ω} {t M b s : L.Index → Value}, L.elem ω (fun _ ↦ .indNatMotive) M →
    L.elem ω (fun i ↦ (Idealized.apply (M i) (.const .zero)).result) b →
    L.elem ω (fun i ↦ .indNatStep (M i)) s → L.elem ω (fun _ ↦ .const .nat) t →
      L.Run ω (fun i ↦ (Idealized.apply (M i) (t i)).result)
        fun i ↦ doIndNat (t i) (M i) (b i) (s i)
  indList : ∀ {ω} {e t M b s : L.Index → Value}, L.elem ω (fun i ↦ .indListMotive (e i)) M →
    L.elem ω (fun i ↦ (Idealized.apply (M i) (.const .nil)).result) b →
    L.elem ω (fun i ↦ .indListStep (e i) (M i)) s → L.elem ω (fun i ↦ .unary .list (e i)) t →
      L.Run ω (fun i ↦ (Idealized.apply (M i) (t i)).result)
        fun i ↦ doIndList (t i) (M i) (b i) (s i)
  indEither : ∀ {ω} {l r t M b s : L.Index → Value},
    L.elem ω (fun i ↦ .indEitherMotive (l i) (r i)) M →
    L.elem ω (fun i ↦ .indEitherCase .left (l i) (M i)) b →
    L.elem ω (fun i ↦ .indEitherCase .right (r i) (M i)) s →
    L.elem ω (fun i ↦ .binary .either (l i) (r i)) t →
      L.Run ω (fun i ↦ (Idealized.apply (M i) (t i)).result)
        fun i ↦ doIndEither (t i) (M i) (b i) (s i)
  head : ∀ {ω} {e k t : L.Index → Value},
    L.elem ω (fun i ↦ .binary .vec (e i) (.unary .add1 (k i))) t →
    L.Run ω e fun i ↦ doHead (t i)
  tail : ∀ {ω} {e k t : L.Index → Value},
    L.elem ω (fun i ↦ .binary .vec (e i) (.unary .add1 (k i))) t →
    L.Run ω (fun i ↦ .binary .vec (e i) (k i)) fun i ↦ doTail (t i)
  indVec : ∀ {ω} {e l t M b s : L.Index → Value}, L.elem ω (fun i ↦ .indVecMotive (e i)) M →
    L.elem ω (fun i ↦ (apply₂ (M i) (.const .zero) (.const .vecnil)).result) b →
    L.elem ω (fun i ↦ .indVecStep (e i) (M i)) s →
    L.elem ω (fun i ↦ .binary .vec (e i) (l i)) t →
      L.Run ω (fun i ↦ (apply₂ (M i) (l i) (t i)).result)
        fun i ↦ doIndVec (l i) (t i) (M i) (b i) (s i)

/-- Equalities and the empty type can be eliminated, and unfinished expressions are elements of
every type where there are unknown values. -/
structure Transports : Prop where
  symm : ∀ {ω} {t a b p : L.Index → Value}, L.elem ω (fun i ↦ .equal (t i) (a i) (b i)) p →
    L.Run ω (fun i ↦ .equal (t i) (b i) (a i)) fun i ↦ doSymm (p i)
  trans : ∀ {ω} {t a b d p q : L.Index → Value}, L.elem ω (fun i ↦ .equal (t i) (a i) (b i)) p →
    L.elem ω (fun i ↦ .equal (t i) (b i) (d i)) q →
      L.Run ω (fun i ↦ .equal (t i) (a i) (d i)) fun i ↦ doTrans (p i) (q i)
  cong : ∀ {ω} {t a b C f p : L.Index → Value} {x : L.Index → String}, L.type .large ω C →
    L.elem ω (fun i ↦ .arrow (x i) (t i) (C i)) f →
    L.elem ω (fun i ↦ .equal (t i) (a i) (b i)) p →
      L.Run ω (fun i ↦ .equal (C i) (Idealized.apply (f i) (a i)).result
        (Idealized.apply (f i) (b i)).result) fun i ↦ doCong (p i) (C i) (f i)
  replace : ∀ {ω} {t a b M k p : L.Index → Value}, L.elem ω (fun i ↦ .replaceMotive (t i)) M →
    L.elem ω (fun i ↦ (Idealized.apply (M i) (a i)).result) k →
    L.elem ω (fun i ↦ .equal (t i) (a i) (b i)) p →
      L.Run ω (fun i ↦ (Idealized.apply (M i) (b i)).result) fun i ↦ doReplace (p i) (M i) (k i)
  indEqual : ∀ {ω} {t a b M k p : L.Index → Value},
    L.elem ω (fun i ↦ .indEqualMotive (t i) (a i)) M →
    L.elem ω (fun i ↦ (apply₂ (M i) (a i) (.unary .same (a i))).result) k →
    L.elem ω (fun i ↦ .equal (t i) (a i) (b i)) p →
      L.Run ω (fun i ↦ (apply₂ (M i) (b i) (p i)).result) fun i ↦ doIndEqual (p i) (M i) (k i)
  indAbsurd : ∀ {ω} {M p : L.Index → Value},
    L.type .large ω M → L.elem ω (fun _ ↦ .const .absurd) p →
    L.Run ω M fun i ↦ doIndAbsurd (p i) (M i)
  hole : ∀ {ω} {X : L.Index → Value} (l : Location), (∀ i, L.model i) → L.type .large ω X →
    L.elem ω X fun i ↦ .neu (X i) (.hole l (X i))

/-- A logic in which all terms can be understood. -/
structure Sound : Prop extends L.Lawful, L.Recurs, L.Transports

end Definitions

end Logic

end LittleTypes.Idealized
