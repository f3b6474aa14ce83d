import LittleTypes.Proofs.Idealized.Alike

/-!
# The meaning of types

A type means two things: which values are codes of it, and when two values are the same element of
it.  The meaning of a type is built from the meanings of its parts, one former at a time, and the
universe has for elements the codes of those types that can be built without it.

There are two models.  In one of them every type also has the eliminations that wait for an
unknown value, and two of these are the same when they are read back alike; in the other there are
no unknown values at all.  The models differ in nothing else, so both are defined at once, for a
proposition that says whether there are unknown values.
-/

namespace LittleTypes.Idealized

/-- The meaning of a type. -/
@[ext]
structure Meaning where
  /-- The values that are codes of the type. -/
  code : Value → Prop
  /-- When two values are the same element of the type. -/
  same : Value → Value → Prop

variable (o : Prop)

/-- Two eliminations that wait for unknown values, with their types. -/
def Waiting (code : Value → Prop) (v w : Value) : Prop :=
  o ∧ ∃ T m U n, Looks v (.neu T m) ∧ Looks w (.neu U n) ∧ code T ∧ code U ∧ Alike m n

/-! ## Formers -/

/-- The same number. -/
inductive SameNat : Value → Value → Prop
  | zero {v w : Value} : Looks v (.const .zero) → Looks w (.const .zero) → SameNat v w
  | add1 {v w n n' : Value} :
    Looks v (.unary .add1 n) → Looks w (.unary .add1 n') → SameNat n n' → SameNat v w
  | waiting {v w : Value} : Waiting o (Looks · (.const .nat)) v w → SameNat v w

/-- The codes of a list type. -/
def listCode (E : Meaning) (X : Value) : Prop := ∃ e, Looks X (.unary .list e) ∧ E.code e

/-- The same list. -/
inductive SameList (E : Meaning) : Value → Value → Prop
  | nil {v w : Value} : Looks v (.const .nil) → Looks w (.const .nil) → SameList E v w
  | cons {v w e e' es es' : Value} :
    Looks v (.binary .listCons e es) → Looks w (.binary .listCons e' es') → E.same e e' →
      SameList E es es' → SameList E v w
  | waiting {v w : Value} : Waiting o (listCode E) v w → SameList E v w

/-- The codes of a vector type. -/
def vecCode (E : Meaning) (len X : Value) : Prop :=
  ∃ e l, Looks X (.binary .vec e l) ∧ E.code e ∧ SameNat o len l

/-- The same vector of a given length. -/
inductive SameVec (E : Meaning) : Value → Value → Value → Prop
  | nil {len v w : Value} :
    Looks len (.const .zero) → Looks v (.const .vecnil) → Looks w (.const .vecnil) →
      SameVec E len v w
  | cons {len k v w h h' t t' : Value} :
    Looks len (.unary .add1 k) → Looks v (.binary .vecCons h t) →
      Looks w (.binary .vecCons h' t') → E.same h h' → SameVec E k t t' → SameVec E len v w
  | waiting {len v w : Value} : Waiting o (vecCode o E len) v w → SameVec E len v w

namespace Meaning

/-- Numbers. -/
def nat : Meaning := ⟨(Looks · (.const .nat)), SameNat o⟩

/-- Atoms. -/
def atom : Meaning where
  code X := Looks X (.const .atom)
  same v w :=
    (∃ s, Looks v (.quote s) ∧ Looks w (.quote s)) ∨ Waiting o (Looks · (.const .atom)) v w

/-- What the elements of the unit type look like. -/
def UnitLike (v : Value) : Prop :=
  Looks v (.const .sole) ∨ o ∧ ∃ T m, Looks v (.neu T m) ∧ Looks T (.const .trivial)

/-- The unit type, all elements of which are the same. -/
def trivial : Meaning := ⟨(Looks · (.const .trivial)), fun v w ↦ UnitLike o v ∧ UnitLike o w⟩

/-- What the elements of the empty type look like. -/
def AbsurdLike (v : Value) : Prop :=
  o ∧ ∃ T m, Looks v (.neu T m) ∧ Looks T (.const .absurd) ∧ Alike m m

/-- The empty type.  If it has elements after all, they are all the same. -/
def absurd : Meaning := ⟨(Looks · (.const .absurd)), fun v w ↦ AbsurdLike o v ∧ AbsurdLike o w⟩

/-- A type that is not known, as it waits for an unknown value. -/
def unknown (m : Neutral) : Meaning :=
  let code X := o ∧ ∃ U n, Looks X (.neu U n) ∧ Looks U (.const .univ) ∧ Alike m n
  ⟨code, Waiting o code⟩

/-- Lists. -/
def list (E : Meaning) : Meaning := ⟨listCode E, SameList o E⟩

/-- Vectors of a given length. -/
def vec (E : Meaning) (len : Value) : Meaning := ⟨vecCode o E len, SameVec o E len⟩

/-- The codes of an equality. -/
def equalCode (T : Meaning) (a c X : Value) : Prop :=
  ∃ t x y, Looks X (.equal t x y) ∧ T.code t ∧ T.same a x ∧ T.same c y

/-- Equality of two elements of a type. -/
def equal (T : Meaning) (a c : Value) : Meaning where
  code := equalCode T a c
  same v w :=
    (∃ x y, Looks v (.unary .same x) ∧ Looks w (.unary .same y) ∧
      T.same x y ∧ T.same a x ∧ T.same c x) ∨ Waiting o (equalCode T a c) v w

/-- The codes of a sum. -/
def eitherCode (L R : Meaning) (X : Value) : Prop :=
  ∃ l r, Looks X (.binary .either l r) ∧ L.code l ∧ R.code r

/-- Sums. -/
def either (L R : Meaning) : Meaning where
  code := eitherCode L R
  same v w :=
    (∃ x y, Looks v (.unary .left x) ∧ Looks w (.unary .left y) ∧ L.same x y) ∨
    (∃ x y, Looks v (.unary .right x) ∧ Looks w (.unary .right y) ∧ R.same x y) ∨
    Waiting o (eitherCode L R) v w

/-- A family of types over a type, given by a closure. -/
def Family (A : Meaning) (B : Value → Meaning) (c : Closure) : Prop :=
  ∀ a, A.same a a → ∃ Y, Runs (enter c a) Y ∧ (B a).code Y

/-- The codes of a function type. -/
def piCode (A : Meaning) (B : Value → Meaning) (X : Value) : Prop :=
  ∃ x d c, Looks X (.pi x d c) ∧ A.code d ∧ Family A B c

/-- What functions look like. -/
def FunctionLike (code : Value → Prop) (f : Value) : Prop :=
  (∃ x c, Looks f (.lam x c)) ∨ o ∧ ∃ T m, Looks f (.neu T m) ∧ code T

/-- Function types.  Functions are the same when they take the same to the same. -/
def pi (A : Meaning) (B : Value → Meaning) : Meaning where
  code := piCode A B
  same f g :=
    FunctionLike o (piCode A B) f ∧ FunctionLike o (piCode A B) g ∧
    ∀ a a', A.same a a' → ∃ v w, Runs (apply f a) v ∧ Runs (apply g a') w ∧ (B a).same v w

/-- The codes of a pair type. -/
def sigmaCode (A : Meaning) (B : Value → Meaning) (X : Value) : Prop :=
  ∃ x d c, Looks X (.sigma x d c) ∧ A.code d ∧ Family A B c

/-- What pairs look like. -/
def PairLike (code : Value → Prop) (p : Value) : Prop :=
  (∃ a d, Looks p (.binary .cons a d)) ∨ o ∧ ∃ T m, Looks p (.neu T m) ∧ code T

/-- Pair types.  Pairs are the same when their components are. -/
def sigma (A : Meaning) (B : Value → Meaning) : Meaning where
  code := sigmaCode A B
  same p q :=
    PairLike o (sigmaCode A B) p ∧ PairLike o (sigmaCode A B) q ∧
    ∃ a a' d d', Runs (doCar p) a ∧ Runs (doCar q) a' ∧ A.same a a' ∧
      Runs (doCdr p) d ∧ Runs (doCdr q) d' ∧ (B a).same d d'

end Meaning

/-! ## Types -/

open Meaning in
/-- The meanings that can be built by the formers, starting from some meanings. -/
inductive Formed (base : Meaning → Prop) : Meaning → Prop
  | base {S : Meaning} : base S → Formed base S
  | nat : Formed base (nat o)
  | atom : Formed base (atom o)
  | trivial : Formed base (trivial o)
  | absurd : Formed base (absurd o)
  | unknown {m : Neutral} : Alike m m → Formed base (unknown o m)
  | list {E : Meaning} : Formed base E → Formed base (list o E)
  | vec {E : Meaning} {len : Value} :
    Formed base E → SameNat o len len → Formed base (vec o E len)
  | equal {T : Meaning} {a c : Value} :
    Formed base T → T.same a a → T.same c c → Formed base (equal o T a c)
  | either {L R : Meaning} : Formed base L → Formed base R → Formed base (either o L R)
  | pi {A : Meaning} {B : Value → Meaning} :
    Formed base A → (∀ a, A.same a a → Formed base (B a)) →
      (∀ a a', A.same a a' → B a = B a') → Formed base (pi o A B)
  | sigma {A : Meaning} {B : Value → Meaning} :
    Formed base A → (∀ a, A.same a a → Formed base (B a)) →
      (∀ a a', A.same a a' → B a = B a') → Formed base (sigma o A B)

/-- The meanings that can be built without the universe. -/
def Small (S : Meaning) : Prop := Formed o (fun _ ↦ False) S

/-- The universe, whose elements are codes of types that can be built without it. -/
def Meaning.univ : Meaning where
  code X := Looks X (.const .univ)
  same X Y := ∃ S, Small o S ∧ S.code X ∧ S.code Y

/-- The meanings that can be built from the universe. -/
def Large (S : Meaning) : Prop := Formed o (· = Meaning.univ o) S

end LittleTypes.Idealized
