import LittleTypes.Proofs.Match.Term
import LittleTypes.Value.Machine

/-!
# Values that match name by name

Two values match when they are built alike, their unknown parts correspond, and the terms in their
closures match under environments that match.  What is delayed on one side is delayed on the other,
and both turn out alike.

Values are made of pieces of several kinds.  They are put together into one type here, so that what
holds of all of them is shown by one induction.
-/

namespace LittleTypes

/-- Whatever values are made of. -/
inductive Piece
  | value (v : Value)
  | outcome (o : Outcome)
  | closure (c : Closure)
  | neutral (n : Neutral)
  | typed (a : Typed)
  /-- What a name stands for in an environment, if it stands for anything. -/
  | entry (x : String) (v : Option Value)

namespace Piece

/-- Pieces that match, given which unknown values correspond. -/
inductive Matches (N : Pairing) : Piece → Piece → Prop
  | const (k : Const) : Matches N (value (.const k)) (value (.const k))
  | quote (s : String) : Matches N (value (.quote s)) (value (.quote s))
  | unary {k : Unary} {a a' : Value} : Matches N (value a) (value a') →
    Matches N (value (.unary k a)) (value (.unary k a'))
  | binary {k : Binary} {a a' b b' : Value} : Matches N (value a) (value a') →
    Matches N (value b) (value b') → Matches N (value (.binary k a b)) (value (.binary k a' b'))
  | equal {t t' l l' r r' : Value} : Matches N (value t) (value t') →
    Matches N (value l) (value l') → Matches N (value r) (value r') →
      Matches N (value (.equal t l r)) (value (.equal t' l' r'))
  | pi {x y : String} {d d' : Value} {c c' : Closure} : Matches N (value d) (value d') →
    Matches N (closure c) (closure c') → Matches N (value (.pi x d c)) (value (.pi y d' c'))
  | sigma {x y : String} {d d' : Value} {c c' : Closure} : Matches N (value d) (value d') →
    Matches N (closure c) (closure c') → Matches N (value (.sigma x d c)) (value (.sigma y d' c'))
  | lam {x y : String} {c c' : Closure} : Matches N (closure c) (closure c') →
    Matches N (value (.lam x c)) (value (.lam y c'))
  | neu {t t' : Value} {n n' : Neutral} : Matches N (value t) (value t') →
    Matches N (neutral n) (neutral n') → Matches N (value (.neu t n)) (value (.neu t' n'))
  | delayed {o o' : Thunk Outcome} : Matches N (outcome o.get) (outcome o'.get) →
    Matches N (value (.delayed o)) (value (.delayed o'))
  | absent : Matches N (value .absent) (value .absent)
  | found {v v' : Value} : Matches N (value v) (value v') →
    Matches N (outcome (.value v)) (outcome (.value v'))
  | fault (f : EvalFault) : Matches N (outcome (.fault f)) (outcome (.fault f))
  /-- The names of the terms may be paired in any way, if what they stand for matches. -/
  | body {M : Pairing} {x y : String} {ρ ρ' : Env} {t t' : Term} : t.Matches (M.bind x y) t' →
    (∀ a b, M a b → Matches N (entry a (ρ.lookup a)) (entry b (ρ'.lookup b))) →
      Matches N (closure (.body ρ x t)) (closure (.body ρ' y t'))
  | constant {v v' : Value} : Matches N (value v) (value v') →
    Matches N (closure (.constant v)) (closure (.constant v'))
  | natStep {m m' : Value} : Matches N (value m) (value m') →
    Matches N (closure (.natStep m)) (closure (.natStep m'))
  | listStep {e e' m m' : Value} : Matches N (value e) (value e') →
    Matches N (value m) (value m') → Matches N (closure (.listStep e m)) (closure (.listStep e' m'))
  | listStepTail {m m' e e' : Value} : Matches N (value m) (value m') →
    Matches N (value e) (value e') →
      Matches N (closure (.listStepTail m e)) (closure (.listStepTail m' e'))
  | equalMotive {t t' l l' : Value} : Matches N (value t) (value t') →
    Matches N (value l) (value l') →
      Matches N (closure (.equalMotive t l)) (closure (.equalMotive t' l'))
  | vecMotive {e e' : Value} : Matches N (value e) (value e') →
    Matches N (closure (.vecMotive e)) (closure (.vecMotive e'))
  | vecStep {e e' m m' : Value} : Matches N (value e) (value e') →
    Matches N (value m) (value m') → Matches N (closure (.vecStep e m)) (closure (.vecStep e' m'))
  | vecStepHead {e e' m m' k k' : Value} : Matches N (value e) (value e') →
    Matches N (value m) (value m') → Matches N (value k) (value k') →
      Matches N (closure (.vecStepHead e m k)) (closure (.vecStepHead e' m' k'))
  | vecStepTail {m m' k k' h h' : Value} : Matches N (value m) (value m') →
    Matches N (value k) (value k') → Matches N (value h) (value h') →
      Matches N (closure (.vecStepTail m k h)) (closure (.vecStepTail m' k' h'))
  | eitherCase {s : Unary} {m m' : Value} : Matches N (value m) (value m') →
    Matches N (closure (.eitherCase s m)) (closure (.eitherCase s m'))
  | var {x y : String} : N x y → Matches N (neutral (.var x)) (neutral (.var y))
  | hole {l : Location} {t t' : Value} : Matches N (value t) (value t') →
    Matches N (neutral (.hole l t)) (neutral (.hole l t'))
  | app {f f' : Neutral} {a a' : Typed} : Matches N (neutral f) (neutral f') →
    Matches N (typed a) (typed a') → Matches N (neutral (.app f a)) (neutral (.app f' a'))
  | project {k : Projection} {n n' : Neutral} : Matches N (neutral n) (neutral n') →
    Matches N (neutral (.project k n)) (neutral (.project k n'))
  | recursor {k : Recursor} {n n' : Neutral} {b b' s s' : Typed} :
    Matches N (neutral n) (neutral n') → Matches N (typed b) (typed b') →
      Matches N (typed s) (typed s') →
        Matches N (neutral (.recursor k n b s)) (neutral (.recursor k n' b' s'))
  | induct {k : Induction} {n n' : Neutral} {m m' b b' s s' : Typed} :
    Matches N (neutral n) (neutral n') → Matches N (typed m) (typed m') →
      Matches N (typed b) (typed b') → Matches N (typed s) (typed s') →
        Matches N (neutral (.induct k n m b s)) (neutral (.induct k n' m' b' s'))
  | transport {k : Transport} {n n' : Neutral} {m m' b b' : Typed} :
    Matches N (neutral n) (neutral n') → Matches N (typed m) (typed m') →
      Matches N (typed b) (typed b') →
        Matches N (neutral (.transport k n m b)) (neutral (.transport k n' m' b'))
  | indAbsurd {n n' : Neutral} {m m' : Typed} : Matches N (neutral n) (neutral n') →
    Matches N (typed m) (typed m') →
      Matches N (neutral (.indAbsurd n m)) (neutral (.indAbsurd n' m'))
  | transLeft {n n' : Neutral} {a a' : Typed} : Matches N (neutral n) (neutral n') →
    Matches N (typed a) (typed a') →
      Matches N (neutral (.transLeft n a)) (neutral (.transLeft n' a'))
  | transRight {n n' : Neutral} {a a' : Typed} : Matches N (typed a) (typed a') →
    Matches N (neutral n) (neutral n') →
      Matches N (neutral (.transRight a n)) (neutral (.transRight a' n'))
  | transBoth {m m' n n' : Neutral} : Matches N (neutral m) (neutral m') →
    Matches N (neutral n) (neutral n') →
      Matches N (neutral (.transBoth m n)) (neutral (.transBoth m' n'))
  | cong {n n' : Neutral} {c c' : Value} {f f' : Typed} : Matches N (neutral n) (neutral n') →
    Matches N (value c) (value c') → Matches N (typed f) (typed f') →
      Matches N (neutral (.cong n c f)) (neutral (.cong n' c' f'))
  | indVec {n n' : Neutral} {l l' m m' b b' s s' : Typed} : Matches N (typed l) (typed l') →
    Matches N (neutral n) (neutral n') → Matches N (typed m) (typed m') →
      Matches N (typed b) (typed b') → Matches N (typed s) (typed s') →
        Matches N (neutral (.indVec l n m b s)) (neutral (.indVec l' n' m' b' s'))
  | indVecBoth {l l' n n' : Neutral} {m m' b b' s s' : Typed} :
    Matches N (neutral l) (neutral l') → Matches N (neutral n) (neutral n') →
      Matches N (typed m) (typed m') → Matches N (typed b) (typed b') →
        Matches N (typed s) (typed s') →
          Matches N (neutral (.indVecBoth l n m b s)) (neutral (.indVecBoth l' n' m' b' s'))
  | typed {t t' v v' : Value} : Matches N (value t) (value t') → Matches N (value v) (value v') →
    Matches N (typed (.mk t v)) (typed (.mk t' v'))
  | unbound (x : String) : Matches N (entry x none) (entry x none)
  | bound {x y : String} {v v' : Value} : Matches N (value v) (value v') →
    Matches N (entry x (some v)) (entry y (some v'))

/-- What matches still matches when more names correspond. -/
theorem Matches.mono {N M : Pairing} {p q : Piece} (h : Matches N p q)
    (hN : ∀ a b, N a b → M a b) : Matches M p q := by
  induction h with
  | var h => exact .var (hN _ _ h)
  | body ht _ ih => exact .body ht ih
  | _ => constructor <;> assumption

end Piece

/-- Values that match. -/
abbrev Value.Matches (N : Pairing) (v v' : Value) : Prop := Piece.Matches N (.value v) (.value v')

/-- Closures that match. -/
abbrev Closure.Matches (N : Pairing) (c c' : Closure) : Prop :=
  Piece.Matches N (.closure c) (.closure c')

/-- Environments in which corresponding names stand for what matches. -/
def Env.Matches (N M : Pairing) (ρ ρ' : Env) : Prop :=
  ∀ a b, M a b → Piece.Matches N (.entry a (ρ.lookup a)) (.entry b (ρ'.lookup b))

/-- One more name on both sides. -/
theorem Env.Matches.cons {N M : Pairing} {ρ ρ' : Env} {v v' : Value} (h : Env.Matches N M ρ ρ')
    (x y : String) (hv : v.Matches N v') :
    Env.Matches N (M.bind x y) (.cons x v ρ) (.cons y v' ρ') := by
  rintro a b (⟨rfl, rfl⟩ | ⟨hx, hy, hab⟩)
  · simp only [lookup, if_true]
    exact .bound hv
  · simp only [lookup, Ne.symm hx, Ne.symm hy, if_false]
    exact h a b hab

theorem Piece.Matches.shape_eq {N : Pairing} {v v' : Value} (h : v.Matches N v') :
    v.shape = v'.shape := by
  cases h <;> rfl

theorem Value.matches_numeral (N : Pairing) (n : Nat) :
    (Value.numeral n).Matches N (.numeral n) := by
  induction n with
  | zero => exact .const .zero
  | succ n ih => exact .unary ih

theorem Piece.Matches.arrow {N : Pairing} {x y : String} {d d' c c' : Value}
    (hd : d.Matches N d') (hc : c.Matches N c') :
    (Value.arrow x d c).Matches N (.arrow y d' c') := .pi hd (.constant hc)

/-! ## Outcomes that agree -/

/-- Both succeed, with related answers, or both fail in the same way. -/
inductive Agree {ε α β : Type} (R : α → β → Prop) : Except ε α → Except ε β → Prop
  | ok {a : α} {b : β} : R a b → Agree R (.ok a) (.ok b)
  | error (e : ε) : Agree R (.error e) (.error e)

namespace Agree

variable {ε α β γ δ : Type} {R : α → β → Prop} {S : γ → δ → Prop}

theorem bind {x : Except ε α} {y : Except ε β} {f : α → Except ε γ} {g : β → Except ε δ}
    (h : Agree R x y) (hNext : ∀ a b, R a b → Agree S (f a) (g b)) :
    Agree S (x >>= f) (y >>= g) := by
  cases h with
  | ok h => exact hNext _ _ h
  | error e => exact .error e

theorem mapError {ε' : Type} {x : Except ε α} {y : Except ε β} (h : Agree R x y) (f : ε → ε') :
    Agree R (x.mapError f) (y.mapError f) := by
  cases h with
  | ok h => exact .ok h
  | error e => exact .error (f e)

/-- Two answers are related. -/
theorem of_ok {x : Except ε α} {y : Except ε β} {a : α} {b : β} (h : Agree R x y) (hx : x = .ok a)
    (hy : y = .ok b) : R a b := by
  subst hx hy
  cases h
  assumption

end Agree

end LittleTypes
