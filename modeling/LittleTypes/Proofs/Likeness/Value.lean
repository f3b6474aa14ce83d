import LittleTypes.Proofs.Likeness.Term
import LittleTypes.Value.Machine

/-!
# Values that resemble each other

Two values resemble each other when what somebody sees who looks at them does.  What is seen is
built alike; its parts, which nobody has looked at yet, resemble each other, and the terms in its
closures are filled in.  For what a name stands for on one side there is a term on the other, whose
value is found in the environment there.

So nothing is said about how either value came about: with what fuel, and whether it was delayed.
A value may therefore resemble one of which there is nothing to see.  A strict likeness rules that
out: what cannot be seen on one side cannot be seen on the other, and for the same reason.
-/

namespace LittleTypes

/-- In what way two runs are compared. -/
structure Likeness where
  /-- Whether they have to fail alike. -/
  strict : Prop
  /-- Which names may be bound in place of each other. -/
  hints : Pairing
  refl : ∀ x, hints x x

/-! ## Outcomes that resemble each other -/

/-- Answers are related.  Strictly, faults are the same. -/
structure Likeness.Akin (L : Likeness) {ε α β : Type} (R : α → β → Prop) (x : Except ε α)
    (y : Except ε β) : Prop where
  answer : ∀ a b, x = .ok a → y = .ok b → R a b
  fault : L.strict → ∀ e, x = .error e ↔ y = .error e

namespace Likeness.Akin

variable {L : Likeness} {ε α β γ δ : Type} {R : α → β → Prop} {S : γ → δ → Prop}

theorem ok {a : α} {b : β} (h : R a b) : L.Akin (ε := ε) R (.ok a) (.ok b) :=
  ⟨fun _ _ ha hb ↦ by cases ha; cases hb; exact h, fun _ _ ↦ ⟨nofun, nofun⟩⟩

/-- Faults need not be the same, unless one is strict about them. -/
theorem error {e e' : ε} (h : L.strict → e = e') : L.Akin R (.error e) (.error e') :=
  ⟨nofun, fun s _ ↦ by simp [h s]⟩

theorem eq_of_error {e e' : ε} (h : L.Akin R (.error e) (.error e')) (s : L.strict) : e = e' :=
  Except.error.inj ((h.fault s e').2 rfl)

theorem bind {x : Except ε α} {y : Except ε β} {f : α → Except ε γ} {g : β → Except ε δ}
    (h : L.Akin R x y) (hNext : ∀ a b, R a b → L.Akin S (f a) (g b)) :
    L.Akin S (x >>= f) (y >>= g) := by
  cases x with
  | ok a =>
    cases y with
    | ok b => exact hNext a b (h.answer a b rfl rfl)
    | error e => exact ⟨nofun, fun s ↦ nomatch (h.fault s e).2 rfl⟩
  | error e =>
    cases y with
    | ok b => exact ⟨nofun, fun s ↦ nomatch (h.fault s e).1 rfl⟩
    | error e' => exact .error h.eq_of_error

theorem imp {R' : α → β → Prop} {x : Except ε α} {y : Except ε β} (h : L.Akin R x y)
    (hR : ∀ a b, R a b → R' a b) : L.Akin R' x y :=
  ⟨fun a b ha hb ↦ hR a b (h.answer a b ha hb), h.fault⟩

/-- What evaluation answers, as a part of something else. -/
theorem lift {x : Except EvalFault α} {y : Except EvalFault β} (h : L.Akin R x y) :
    L.Akin (ε := Fault) R (liftM x) (liftM y) := by
  cases x with
  | ok a =>
    cases y with
    | ok b => exact .ok (h.answer a b rfl rfl)
    | error e => exact ⟨nofun, fun s ↦ nomatch (h.fault s e).2 rfl⟩
  | error e =>
    cases y with
    | ok b => exact ⟨nofun, fun s ↦ nomatch (h.fault s e).1 rfl⟩
    | error e' => exact .error fun s ↦ congrArg Fault.eval (h.eq_of_error s)

end Likeness.Akin

/-! ## Values -/

/-- The value of a variable. -/
def Env.fetch (ρ : Env) (x : String) : Except EvalFault Value :=
  match ρ.lookup x with
  | some v => pure v
  | none => throw ⟨.unbound x, []⟩

/-- Whatever values are made of, and what is seen of them. -/
inductive Facet
  | value (v : Value)
  /-- What somebody sees who looks at a value. -/
  | seen (v : Value)
  | closure (c : Closure)
  | neutral (n : Neutral)
  | typed (a : Typed)

/-- What resembles each other, given which unknown values correspond. -/
inductive Facet.Resembles (L : Likeness) (N : Pairing) : Facet → Facet → Prop
  | value {v v' : Value} :
    (L.strict → v.shape = v'.shape ∧ ∀ e, v.force = .error e ↔ v'.force = .error e) →
      (∀ w w', v.force = .ok w → v'.force = .ok w' → Resembles L N (seen w) (seen w')) →
        Resembles L N (value v) (value v')
  | const (k : Const) : Resembles L N (seen (.const k)) (seen (.const k))
  | quote (s : String) : Resembles L N (seen (.quote s)) (seen (.quote s))
  | unary {k : Unary} {a a' : Value} : Resembles L N (value a) (value a') →
    Resembles L N (seen (.unary k a)) (seen (.unary k a'))
  | binary {k : Binary} {a a' b b' : Value} : Resembles L N (value a) (value a') →
    Resembles L N (value b) (value b') →
      Resembles L N (seen (.binary k a b)) (seen (.binary k a' b'))
  | equal {t t' l l' r r' : Value} : Resembles L N (value t) (value t') →
    Resembles L N (value l) (value l') → Resembles L N (value r) (value r') →
      Resembles L N (seen (.equal t l r)) (seen (.equal t' l' r'))
  | pi {x y : String} {d d' : Value} {c c' : Closure} : L.hints x y →
    Resembles L N (value d) (value d') → Resembles L N (closure c) (closure c') →
      Resembles L N (seen (.pi x d c)) (seen (.pi y d' c'))
  | sigma {x y : String} {d d' : Value} {c c' : Closure} : L.hints x y →
    Resembles L N (value d) (value d') → Resembles L N (closure c) (closure c') →
      Resembles L N (seen (.sigma x d c)) (seen (.sigma y d' c'))
  | lam {x y : String} {c c' : Closure} : L.hints x y → Resembles L N (closure c) (closure c') →
    Resembles L N (seen (.lam x c)) (seen (.lam y c'))
  | neu {t t' : Value} {n n' : Neutral} : Resembles L N (value t) (value t') →
    Resembles L N (neutral n) (neutral n') → Resembles L N (seen (.neu t n)) (seen (.neu t' n'))
  /-- What is seen is delayed once more.  No evaluation makes such values, and a likeness that is not
  strict has no place for them. -/
  | delayed {o o' : Thunk Outcome} : L.strict →
    Resembles L N (value (.delayed o)) (value (.delayed o')) →
      Resembles L N (seen (.delayed o)) (seen (.delayed o'))
  | absent : Resembles L N (seen .absent) (seen .absent)
  /-- What a name stands for on the left resembles the value of the term that is put for it, in
  every environment where the names of this term have their values. -/
  | body {S : Filling} {x y : String} {ρ ρ' : Env} {t t' : Term} :
    t.Filled L.hints True (S.bind x y) t' →
      (∀ a u, S a u → ∀ σ, (∀ b ∈ u.free, σ.lookup b = ρ'.lookup b) → ∀ fuel, L.strict →
        ∀ e, ρ.fetch a = .error e ↔ (machine (fuel + 1)).eval .passing σ u = .error e) →
      (∀ a u, S a u → ∀ σ, (∀ b ∈ u.free, σ.lookup b = ρ'.lookup b) → ∀ fuel v w,
        ρ.fetch a = .ok v → (machine (fuel + 1)).eval .passing σ u = .ok w →
          Resembles L N (value v) (value w)) →
        Resembles L N (closure (.body ρ x t)) (closure (.body ρ' y t'))
  | constant {v v' : Value} : Resembles L N (value v) (value v') →
    Resembles L N (closure (.constant v)) (closure (.constant v'))
  | natStep {m m' : Value} : Resembles L N (value m) (value m') →
    Resembles L N (closure (.natStep m)) (closure (.natStep m'))
  | listStep {e e' m m' : Value} : Resembles L N (value e) (value e') →
    Resembles L N (value m) (value m') →
      Resembles L N (closure (.listStep e m)) (closure (.listStep e' m'))
  | listStepTail {m m' e e' : Value} : Resembles L N (value m) (value m') →
    Resembles L N (value e) (value e') →
      Resembles L N (closure (.listStepTail m e)) (closure (.listStepTail m' e'))
  | equalMotive {t t' l l' : Value} : Resembles L N (value t) (value t') →
    Resembles L N (value l) (value l') →
      Resembles L N (closure (.equalMotive t l)) (closure (.equalMotive t' l'))
  | vecMotive {e e' : Value} : Resembles L N (value e) (value e') →
    Resembles L N (closure (.vecMotive e)) (closure (.vecMotive e'))
  | vecStep {e e' m m' : Value} : Resembles L N (value e) (value e') →
    Resembles L N (value m) (value m') →
      Resembles L N (closure (.vecStep e m)) (closure (.vecStep e' m'))
  | vecStepHead {e e' m m' k k' : Value} : Resembles L N (value e) (value e') →
    Resembles L N (value m) (value m') → Resembles L N (value k) (value k') →
      Resembles L N (closure (.vecStepHead e m k)) (closure (.vecStepHead e' m' k'))
  | vecStepTail {m m' k k' h h' : Value} : Resembles L N (value m) (value m') →
    Resembles L N (value k) (value k') → Resembles L N (value h) (value h') →
      Resembles L N (closure (.vecStepTail m k h)) (closure (.vecStepTail m' k' h'))
  | eitherCase {s : Unary} {m m' : Value} : Resembles L N (value m) (value m') →
    Resembles L N (closure (.eitherCase s m)) (closure (.eitherCase s m'))
  | var {x y : String} : N x y → Resembles L N (neutral (.var x)) (neutral (.var y))
  | hole {l : Location} {t t' : Value} : Resembles L N (value t) (value t') →
    Resembles L N (neutral (.hole l t)) (neutral (.hole l t'))
  | app {f f' : Neutral} {a a' : Typed} : Resembles L N (neutral f) (neutral f') →
    Resembles L N (typed a) (typed a') → Resembles L N (neutral (.app f a)) (neutral (.app f' a'))
  | project {k : Projection} {n n' : Neutral} : Resembles L N (neutral n) (neutral n') →
    Resembles L N (neutral (.project k n)) (neutral (.project k n'))
  | recursor {k : Recursor} {n n' : Neutral} {b b' s s' : Typed} :
    Resembles L N (neutral n) (neutral n') → Resembles L N (typed b) (typed b') →
      Resembles L N (typed s) (typed s') →
        Resembles L N (neutral (.recursor k n b s)) (neutral (.recursor k n' b' s'))
  | induct {k : Induction} {n n' : Neutral} {m m' b b' s s' : Typed} :
    Resembles L N (neutral n) (neutral n') → Resembles L N (typed m) (typed m') →
      Resembles L N (typed b) (typed b') → Resembles L N (typed s) (typed s') →
        Resembles L N (neutral (.induct k n m b s)) (neutral (.induct k n' m' b' s'))
  | transport {k : Transport} {n n' : Neutral} {m m' b b' : Typed} :
    Resembles L N (neutral n) (neutral n') → Resembles L N (typed m) (typed m') →
      Resembles L N (typed b) (typed b') →
        Resembles L N (neutral (.transport k n m b)) (neutral (.transport k n' m' b'))
  | indAbsurd {n n' : Neutral} {m m' : Typed} : Resembles L N (neutral n) (neutral n') →
    Resembles L N (typed m) (typed m') →
      Resembles L N (neutral (.indAbsurd n m)) (neutral (.indAbsurd n' m'))
  | transLeft {n n' : Neutral} {a a' : Typed} : Resembles L N (neutral n) (neutral n') →
    Resembles L N (typed a) (typed a') →
      Resembles L N (neutral (.transLeft n a)) (neutral (.transLeft n' a'))
  | transRight {n n' : Neutral} {a a' : Typed} : Resembles L N (typed a) (typed a') →
    Resembles L N (neutral n) (neutral n') →
      Resembles L N (neutral (.transRight a n)) (neutral (.transRight a' n'))
  | transBoth {m m' n n' : Neutral} : Resembles L N (neutral m) (neutral m') →
    Resembles L N (neutral n) (neutral n') →
      Resembles L N (neutral (.transBoth m n)) (neutral (.transBoth m' n'))
  | cong {n n' : Neutral} {c c' : Value} {f f' : Typed} : Resembles L N (neutral n) (neutral n') →
    Resembles L N (value c) (value c') → Resembles L N (typed f) (typed f') →
      Resembles L N (neutral (.cong n c f)) (neutral (.cong n' c' f'))
  | indVec {n n' : Neutral} {l l' m m' b b' s s' : Typed} : Resembles L N (typed l) (typed l') →
    Resembles L N (neutral n) (neutral n') → Resembles L N (typed m) (typed m') →
      Resembles L N (typed b) (typed b') → Resembles L N (typed s) (typed s') →
        Resembles L N (neutral (.indVec l n m b s)) (neutral (.indVec l' n' m' b' s'))
  | indVecBoth {l l' n n' : Neutral} {m m' b b' s s' : Typed} :
    Resembles L N (neutral l) (neutral l') → Resembles L N (neutral n) (neutral n') →
      Resembles L N (typed m) (typed m') → Resembles L N (typed b) (typed b') →
        Resembles L N (typed s) (typed s') →
          Resembles L N (neutral (.indVecBoth l n m b s)) (neutral (.indVecBoth l' n' m' b' s'))
  | typed {t t' v v' : Value} : Resembles L N (value t) (value t') →
    Resembles L N (value v) (value v') → Resembles L N (typed (.mk t v)) (typed (.mk t' v'))

/-- Values that resemble each other. -/
abbrev Value.Resembles (L : Likeness) (N : Pairing) (v v' : Value) : Prop :=
  Facet.Resembles L N (.value v) (.value v')

/-- Values that resemble each other as they are seen. -/
abbrev Value.SeenAlike (L : Likeness) (N : Pairing) (v v' : Value) : Prop :=
  Facet.Resembles L N (.seen v) (.seen v')

/-- Closures that resemble each other. -/
abbrev Closure.Resembles (L : Likeness) (N : Pairing) (c c' : Closure) : Prop :=
  Facet.Resembles L N (.closure c) (.closure c')

/-- Neutrals that resemble each other. -/
abbrev Neutral.Resembles (L : Likeness) (N : Pairing) (n n' : Neutral) : Prop :=
  Facet.Resembles L N (.neutral n) (.neutral n')

namespace Facet.Resembles

variable {L : Likeness} {N M : Pairing} {v v' : Value}

/-- More names may correspond. -/
theorem mono {p q : Facet} (h : Resembles L N p q) (hN : ∀ a b, N a b → M a b) :
    Resembles L M p q := by
  induction h with
  | value hs _ ih => exact .value hs ih
  | body ht hs _ ih => exact .body ht hs ih
  | var h => exact .var (hN _ _ h)
  | _ => constructor <;> assumption

/-- To look at values that resemble each other. -/
theorem force (h : v.Resembles L N v') : L.Akin (Value.SeenAlike L N) v.force v'.force := by
  cases h with
  | value hs h => exact ⟨h, fun s ↦ (hs s).2⟩

theorem shape_eq (h : v.Resembles L N v') (hs : L.strict) : v.shape = v'.shape := by
  cases h with
  | value h _ => exact (h hs).1

theorem ofForce (hs : L.strict → v.shape = v'.shape)
    (h : L.Akin (Value.SeenAlike L N) v.force v'.force) : v.Resembles L N v' :=
  .value (fun s ↦ ⟨hs s, h.fault s⟩) h.answer

/-- What resembles each other as it is seen does so wherever it stands. -/
theorem ofSeen (h : v.SeenAlike L N v') : v.Resembles L N v' := by
  cases h with
  | delayed _ h => exact h
  | _ => exact ofForce (fun _ ↦ rfl) (.ok (by constructor <;> assumption))

theorem delay {x x' : Unit → Except EvalFault Value}
    (h : L.Akin (Value.Resembles L N) (x ()) (x' ())) :
    (Value.delay .passing x).Resembles L N (.delay .passing x') := by
  refine ofForce (fun _ ↦ rfl) ?_
  rw [Value.force_delay, Value.force_delay]
  exact h.bind fun _ _ h ↦ h.force

theorem stuck {α β : Type} {R : α → β → Prop} (op : Operation) (h : v.Resembles L N v') :
    L.Akin R (Value.stuck op v) (Value.stuck op v') := by
  refine .error fun s ↦ ?_
  rw [h.shape_eq s]

theorem arrow (x : String) {d d' c c' : Value} (hd : d.Resembles L N d')
    (hc : c.Resembles L N c') : (Value.arrow x d c).Resembles L N (.arrow x d' c') :=
  ofSeen (.pi (L.refl x) hd (.constant hc))

end Facet.Resembles

theorem Value.resembles_numeral (L : Likeness) (N : Pairing) (n : Nat) :
    (Value.numeral n).Resembles L N (.numeral n) := by
  induction n with
  | zero => exact .ofSeen (.const .zero)
  | succ n ih => exact .ofSeen (.unary ih)

/-! ## Environments -/

theorem Machine.eval_var (fuel : Nat) (ρ : Env) (x : String) :
    (machine (fuel + 1)).eval .passing ρ (.var x) = ρ.fetch x := rfl

/-- What a name stands for resembles the value of the term that is put for it, also where there are
more names than those of the environment. -/
def Env.Resembles (L : Likeness) (N : Pairing) (S : Filling) (ρ ρ' : Env) : Prop :=
  ∀ a u, S a u → ∀ σ, (∀ b ∈ u.free, σ.lookup b = ρ'.lookup b) → ∀ fuel,
    L.Akin (Value.Resembles L N) (ρ.fetch a) ((machine (fuel + 1)).eval .passing σ u)

/-- What the names stand for resembles itself. -/
def Env.SelfResembling (L : Likeness) (N : Pairing) (ρ : Env) : Prop :=
  ∀ x v, ρ.lookup x = some v → v.Resembles L N v

namespace Env

variable {L : Likeness} {N M : Pairing} {S : Filling} {ρ ρ' : Env}

theorem fetch_congr {x : String} (h : ρ.lookup x = ρ'.lookup x) : ρ.fetch x = ρ'.fetch x := by
  rw [fetch, fetch, h]

theorem fetch_cons_self (x : String) (v : Value) (ρ : Env) : fetch (.cons x v ρ) x = .ok v := by
  simp [fetch, lookup, pure, Except.pure]

theorem lookup_cons_of_ne {x y : String} (h : x ≠ y) (v : Value) (ρ : Env) :
    (Env.cons x v ρ).lookup y = ρ.lookup y := by
  rw [lookup, if_neg h]

namespace Resembles

theorem body (h : Env.Resembles L N S ρ ρ') {x y : String} {t t' : Term}
    (ht : t.Filled L.hints True (S.bind x y) t') :
    (Closure.body ρ x t).Resembles L N (.body ρ' y t') :=
  .body ht (fun a u hS σ hσ fuel ↦ (h a u hS σ hσ fuel).fault)
    fun a u hS σ hσ fuel ↦ (h a u hS σ hσ fuel).answer

/-- One name more on each side. -/
theorem cons (h : Env.Resembles L N S ρ ρ') (x y : String) {v v' : Value}
    (hv : v.Resembles L N v') :
    Env.Resembles L N (S.bind x y) (.cons x v ρ) (.cons y v' ρ') := by
  rintro a u (⟨rfl, rfl⟩ | ⟨ha, hy, hS⟩) σ hσ fuel
  · rw [Machine.eval_var, fetch_congr (hσ y (by simp [Term.free])), fetch_cons_self,
      fetch_cons_self]
    exact .ok hv
  · rw [fetch_congr (lookup_cons_of_ne (Ne.symm ha) v ρ)]
    refine h a u hS σ (fun b hb ↦ ?_) fuel
    have hyb : y ≠ b := fun e ↦ hy (e ▸ hb)
    rw [hσ b hb, lookup_cons_of_ne hyb]

end Resembles

namespace SelfResembling

theorem cons (h : ρ.SelfResembling L N) (x : String) {v : Value} (hv : v.Resembles L N v) :
    (Env.cons x v ρ).SelfResembling L N := by
  intro y w hw
  rw [lookup] at hw
  split at hw
  · cases hw
    exact hv
  · exact h y w hw

theorem mono (h : ρ.SelfResembling L N) (hN : ∀ a b, N a b → M a b) : ρ.SelfResembling L M :=
  fun x v hv ↦ (h x v hv).mono hN

/-- What a name stands for resembles its value wherever this is the same. -/
theorem fetch (h : ρ.SelfResembling L N) {x : String} (hx : ρ'.lookup x = ρ.lookup x) :
    L.Akin (Value.Resembles L N) (ρ.fetch x) (ρ'.fetch x) := by
  rw [fetch_congr hx, Env.fetch]
  split
  · exact .ok (h x _ ‹_›)
  · exact .error fun _ ↦ rfl

end SelfResembling

end Env

end LittleTypes
