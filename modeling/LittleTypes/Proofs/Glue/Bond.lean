import LittleTypes.Proofs.Glue.Ground

/-!
# Gluing values to what they denote

A bond says when a type on the new side belongs together with a type of the logic, and an element
with an element.  Bonds are built along the types, as meanings are.  Where the new side waits for an
unknown value, the other sides are what the elimination denotes once it is read back.
-/

namespace LittleTypes.Idealized

/-- What belongs together, in each world. -/
structure Bond {L : Logic} (K : Ground L) where
  /-- The type on each side. -/
  types : Option L.Index → Value
  /-- Codes that belong together. -/
  code : GlueWorld L → (Option L.Index → Value) → Prop
  /-- Elements that belong together. -/
  same : GlueWorld L → (Option L.Index → Value) → Prop

variable {L : Logic} {K : Ground L}

/-- Types that belong together. -/
structure Bond.Type (S : Bond K) (W : GlueWorld L) (X : Option L.Index → Value) : Prop where
  same : ∀ i, SameType (L.glueModel i) (S.types i) (X i)
  base : K.type .large W S.types
  side : K.type .large W X
  code : S.code W X

/-- Elements that belong together. -/
structure Bond.Elem (S : Bond K) (W : GlueWorld L) (v : Option L.Index → Value) : Prop where
  side : K.elem W S.types v
  same : S.same W v

/-- An elimination that the new side waits for has the type that it is an element of. -/
def OwnType {I : Type} (X v : Option I → Value) : Prop :=
  ∀ T m, Looks (v none) (.neu T m) → SameType True T (X none)

variable (K) in
/-- The new side waits for an unknown value, and the others are what it denotes. -/
def Pending (W : GlueWorld L) (X v : Option L.Index → Value) : Prop :=
  ∃ T m, Looks (v none) (.neu T m) ∧ SameType True T (X none) ∧
    Names K.blurs W m (others X) (others v)

variable (K) in
/-- The new side waits, and its own type belongs together with types of the other sides. -/
def Bond.Waits (S : Bond K) (W : GlueWorld L) (v : Option L.Index → Value) : Prop :=
  ∃ T m, Looks (v none) (.neu (T none) m) ∧ S.Type W T ∧
    Names K.blurs W m (others S.types) (others v)

/-! ## Numbers, lists and vectors -/

variable (K) in
/-- Numbers that belong together. -/
inductive GlueNat (W : GlueWorld L) : (Option L.Index → Value) → Prop
  | zero {v : Option L.Index → Value} : (∀ i, Looks (v i) (.const .zero)) → GlueNat W v
  | add1 {v n : Option L.Index → Value} :
    (∀ i, Looks (v i) (.unary .add1 (n i))) → GlueNat W n → GlueNat W v
  | waiting {v : Option L.Index → Value} : Pending K W (fun _ ↦ .const .nat) v → GlueNat W v

/-- Codes of lists of elements that belong together. -/
def glueListCode (E : Bond K) (W : GlueWorld L) (X : Option L.Index → Value) : Prop :=
  ∃ e, (∀ i, Looks (X i) (.unary .list (e i))) ∧ E.Type W e

/-- Lists of elements that belong together. -/
inductive GlueList (E : Bond K) (X : Option L.Index → Value) (W : GlueWorld L) :
    (Option L.Index → Value) → Prop
  | nil {v : Option L.Index → Value} : (∀ i, Looks (v i) (.const .nil)) → GlueList E X W v
  | cons {v h t : Option L.Index → Value} :
    (∀ i, Looks (v i) (.binary .listCons (h i) (t i))) → E.Elem W h → GlueList E X W t →
      GlueList E X W v
  | waiting {v : Option L.Index → Value} :
    Bond.Waits K ⟨X, glueListCode E, fun _ _ ↦ False⟩ W v → GlueList E X W v

/-- Codes of vectors of elements that belong together. -/
def glueVecCode (E : Bond K) (W : GlueWorld L) (X : Option L.Index → Value) : Prop :=
  ∃ e l, (∀ i, Looks (X i) (.binary .vec (e i) (l i))) ∧ E.Type W e ∧ GlueNat K W l

/-- Vectors of elements that belong together. -/
inductive GlueVec (E : Bond K) (e : Option L.Index → Value) (W : GlueWorld L) :
    (Option L.Index → Value) → (Option L.Index → Value) → Prop
  | nil {l v : Option L.Index → Value} : (∀ i, Looks (l i) (.const .zero)) →
    (∀ i, Looks (v i) (.const .vecnil)) → GlueVec E e W l v
  | cons {l k v h t : Option L.Index → Value} :
    (∀ i, Looks (l i) (.unary .add1 (k i))) → (∀ i, Looks (v i) (.binary .vecCons (h i) (t i))) →
      E.Elem W h → GlueVec E e W k t → GlueVec E e W l v
  | waiting {l v : Option L.Index → Value} :
    Bond.Waits K ⟨fun i ↦ .binary .vec (e i) (l i), glueVecCode E, fun _ _ ↦ False⟩ W v →
      GlueVec E e W l v

/-! ## Formers -/

namespace Bond

/-- A type without parts. -/
def plain (k : Const) (same : GlueWorld L → (Option L.Index → Value) → Prop) : Bond K where
  types _ := .const k
  code _ X := ∀ i, Looks (X i) (.const k)
  same := same

/-- Numbers. -/
def nat : Bond K := plain .nat (GlueNat K)

/-- Atoms. -/
def atom : Bond K :=
  plain .atom fun W v ↦ (∃ s, ∀ i, Looks (v i) (.quote s)) ∨ Pending K W (fun _ ↦ .const .atom) v

/-- The unit type. -/
def trivial : Bond K := plain .trivial fun _ v ↦ OwnType (fun _ ↦ .const .trivial) v

/-- The empty type. -/
def absurd : Bond K := plain .absurd fun W v ↦ Pending K W (fun _ ↦ .const .absurd) v

/-- A type that is not known on the new side. -/
def unknown (X : Option L.Index → Value) : Bond K where
  types := X
  code W X := Pending K W (fun _ ↦ .const .univ) X
  same W v := Pending K W X v

/-- Lists. -/
def list (E : Bond K) (X : Option L.Index → Value) : Bond K := ⟨X, glueListCode E, GlueList E X⟩

/-- Vectors. -/
def vec (E : Bond K) (e l : Option L.Index → Value) : Bond K :=
  ⟨fun i ↦ .binary .vec (e i) (l i), glueVecCode E, fun W ↦ GlueVec E e W l⟩

/-- Codes of equalities of elements that belong together. -/
def equalCode (T : Bond K) (W : GlueWorld L) (X : Option L.Index → Value) : Prop :=
  ∃ t x y, (∀ i, Looks (X i) (.equal (t i) (x i) (y i))) ∧ T.Type W t ∧ T.Elem W x ∧ T.Elem W y

/-- Equalities. -/
def equal (T : Bond K) (X : Option L.Index → Value) : Bond K where
  types := X
  code := equalCode T
  same W v :=
    (∃ x, (∀ i, Looks (v i) (.unary .same (x i))) ∧ T.Elem W x) ∨
    Waits K ⟨X, equalCode T, fun _ _ ↦ False⟩ W v

/-- Codes of sums. -/
def eitherCode (A B : Bond K) (W : GlueWorld L) (X : Option L.Index → Value) : Prop :=
  ∃ a b, (∀ i, Looks (X i) (.binary .either (a i) (b i))) ∧ A.Type W a ∧ B.Type W b

/-- Sums. -/
def either (A B : Bond K) (X : Option L.Index → Value) : Bond K where
  types := X
  code := eitherCode A B
  same W v :=
    (∃ x, (∀ i, Looks (v i) (.unary .left (x i))) ∧ A.Elem W x) ∨
    (∃ x, (∀ i, Looks (v i) (.unary .right (x i))) ∧ B.Elem W x) ∨
    Waits K ⟨X, eitherCode A B, fun _ _ ↦ False⟩ W v

/-- Families of types that belong together. -/
def Family (A : Bond K) (B : GlueWorld L → (Option L.Index → Value) → Bond K) (W : GlueWorld L)
    (f : Option L.Index → Closure) : Prop :=
  ∀ W', W.le W' → ∀ a, A.Elem W' a →
    ∃ Y, (∀ i, Runs (enter (f i) (a i)) (Y i)) ∧ (B W' a).Type W' Y

/-- Function types.  Functions belong together when they take what belongs together to what belongs
together, in whatever world comes later. -/
def pi (A : Bond K) (B : GlueWorld L → (Option L.Index → Value) → Bond K)
    (X : Option L.Index → Value) : Bond K where
  types := X
  code W X := ∃ (x : _ → String) (d : _ → Value) (f : _ → Closure),
    (∀ i, Looks (X i) (.pi (x i) (d i) (f i))) ∧ A.Type W d ∧ Family A B W f
  same W p := OwnType X p ∧ ∀ W', W.le W' → ∀ a, A.Elem W' a →
    ∃ v, (∀ i, Runs (apply (p i) (a i)) (v i)) ∧ (B W' a).Elem W' v

/-- Pair types. -/
def sigma (A : Bond K) (B : GlueWorld L → (Option L.Index → Value) → Bond K)
    (X : Option L.Index → Value) : Bond K where
  types := X
  code W X := ∃ (x : _ → String) (d : _ → Value) (f : _ → Closure),
    (∀ i, Looks (X i) (.sigma (x i) (d i) (f i))) ∧ A.Type W d ∧ Family A B W f
  same W p := OwnType X p ∧ ∃ a e, (∀ i, Runs (doCar (p i)) (a i)) ∧
    (∀ i, Runs (doCdr (p i)) (e i)) ∧ ∀ W', W.le W' → A.Elem W' a ∧ (B W' a).Elem W' e

end Bond

/-! ## Bonds along types -/

open Bond in
/-- The bonds that can be built by the formers, starting from some bonds. -/
inductive Bonded (base : Bond K → Prop) : Bond K → Prop
  | base {S : Bond K} : base S → Bonded base S
  | nat : Bonded base nat
  | atom : Bonded base atom
  | trivial : Bonded base trivial
  | absurd : Bonded base absurd
  | unknown {X : Option L.Index → Value} : Bonded base (unknown X)
  | list {E : Bond K} {X : Option L.Index → Value} : Bonded base E → Bonded base (list E X)
  | vec {E : Bond K} {e l : Option L.Index → Value} : Bonded base E → Bonded base (vec E e l)
  | equal {T : Bond K} {X : Option L.Index → Value} : Bonded base T → Bonded base (equal T X)
  | either {A B : Bond K} {X : Option L.Index → Value} :
    Bonded base A → Bonded base B → Bonded base (either A B X)
  | pi {A : Bond K} {B : GlueWorld L → (Option L.Index → Value) → Bond K}
    {X : Option L.Index → Value} :
    Bonded base A → (∀ W a, A.Elem W a → Bonded base (B W a)) → Bonded base (pi A B X)
  | sigma {A : Bond K} {B : GlueWorld L → (Option L.Index → Value) → Bond K}
    {X : Option L.Index → Value} :
    Bonded base A → (∀ W a, A.Elem W a → Bonded base (B W a)) → Bonded base (sigma A B X)

/-- The bonds that can be built without the universe. -/
def SmallBond (S : Bond K) : Prop := Bonded (fun _ ↦ False) S

/-- The universe. -/
def Bond.univ : Bond K := plain .univ fun W X ↦ ∃ S : Bond K, SmallBond S ∧ S.Type W X

variable (K) in
/-- The bonds from which those of a size are built. -/
def Size.bond : Size → Bond K → Prop
  | small, _ => False
  | large, S => S = Bond.univ

end LittleTypes.Idealized
