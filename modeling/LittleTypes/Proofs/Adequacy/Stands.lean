import LittleTypes.Proofs.Idealized.Plan
import LittleTypes.Value.Machine
import Mathlib.Order.Filter.AtTopBot.Basic

/-!
# Values that stand for ideal values

A regime is a number of runs that are looked at together: one run that may use up its fuel, or all
runs with more and more fuel, of which only those matter that have enough, or both.

Values, one in each run, stand for an ideal value when they are built as it is built.  What is
delayed stands for the demand that it is the answer to, as long as the machines that are to answer
it have enough fuel.
-/

namespace LittleTypes

open Filter

/-- Runs that are looked at together. -/
structure Regime where
  /-- The runs. -/
  Index : Type
  /-- Which runs matter. -/
  filter : Filter Index
  /-- Whether a run may use up its fuel. -/
  mayEnd : Index → Prop

/-- The fault of a run that has used up its fuel. -/
def EvalFault.outOfFuel : EvalFault := ⟨.outOfFuel, []⟩

namespace Regime

/-- A run that may use up its fuel, and all runs with enough fuel. -/
def since (fuel : Nat) : Regime := ⟨Nat, pure fuel ⊔ atTop, (· = fuel)⟩

/-- A run that may use up its fuel. -/
def only (fuel : Nat) : Regime := ⟨Nat, pure fuel, fun _ ↦ True⟩

/-- All runs with enough fuel. -/
def growing : Regime := ⟨Nat, atTop, fun _ ↦ False⟩

variable (R : Regime)

/-- The runs have enough fuel. -/
def Lasts (φ : R.Index → Nat) : Prop := ∀ k, ∀ᶠ n in R.filter, R.mayEnd n ∨ k ≤ φ n

/-- The runs have answers, unless they may use up their fuel. -/
def Yields {ε α : Type} (out : ε) (x : R.Index → Except ε α) (a : R.Index → α) : Prop :=
  ∀ᶠ n in R.filter, x n = .ok (a n) ∨ R.mayEnd n ∧ x n = .error out

variable {R}

/-- With one step less there is still enough fuel. -/
theorem Lasts.pred {φ : R.Index → Nat} (h : R.Lasts φ) : R.Lasts fun n ↦ φ n - 1 := by
  intro k
  filter_upwards [h (k + 1)] with n hn
  exact hn.imp_right fun hn ↦ by omega

/-- Enough fuel is enough for one step. -/
theorem Lasts.eventually {φ : R.Index → Nat} (h : R.Lasts φ) :
    ∀ᶠ n in R.filter, φ n = φ n - 1 + 1 ∨ R.mayEnd n ∧ φ n = 0 := by
  filter_upwards [h 1] with n hn
  obtain h' | h' := Nat.eq_zero_or_pos (φ n)
  · exact hn.elim (fun hn ↦ .inr ⟨hn, h'⟩) fun hn ↦ by omega
  · exact .inl (by omega)

theorem lasts_since (fuel : Nat) : (since fuel).Lasts fun n ↦ n := fun k ↦
  eventually_sup.2 ⟨eventually_pure.2 (.inl rfl), (eventually_ge_atTop k).mono fun _ ↦ .inr⟩

theorem lasts_only (fuel : Nat) : (only fuel).Lasts fun n ↦ n := fun _ ↦
  .of_forall fun _ ↦ .inl trivial

theorem lasts_growing : growing.Lasts fun n ↦ n := fun k ↦
  (eventually_ge_atTop k).mono fun _ ↦ .inr

variable (R) in
/-- The runs that matter use up their fuel together or not at all. -/
def Unanimous : Prop := ∀ P Q : R.Index → Prop, (∀ᶠ n in R.filter, P n ∨ R.mayEnd n ∧ Q n) →
  (∀ᶠ n in R.filter, P n) ∨ ∀ᶠ n in R.filter, R.mayEnd n ∧ Q n

theorem unanimous_only (fuel : Nat) : (only fuel).Unanimous := fun _ _ h ↦
  (eventually_pure.1 h).imp eventually_pure.2 eventually_pure.2

theorem unanimous_growing : growing.Unanimous := fun _ _ h ↦
  .inl (h.mono fun _ h ↦ h.resolve_right fun h ↦ h.1)

namespace Yields

variable {ε α β : Type} {out : ε}

theorem pure (a : R.Index → α) : R.Yields out (fun n ↦ .ok (a n)) a :=
  .of_forall fun _ ↦ .inl rfl

theorem bind {x : R.Index → Except ε α} {f : R.Index → α → Except ε β} {a : R.Index → α}
    {b : R.Index → β} (h : R.Yields out x a) (h' : R.Yields out (fun n ↦ f n (a n)) b) :
    R.Yields out (fun n ↦ x n >>= f n) b := by
  filter_upwards [h, h'] with n hx hf
  obtain hx | ⟨hR, hx⟩ := hx
  · rw [hx]
    exact hf
  · exact .inr ⟨hR, by rw [hx]; rfl⟩

theorem map {x : R.Index → Except ε α} {a : R.Index → α} (h : R.Yields out x a) (f : α → β) :
    R.Yields out (fun n ↦ f <$> x n) fun n ↦ f (a n) := by
  filter_upwards [h] with n hx
  obtain hx | ⟨hR, hx⟩ := hx
  · exact .inl (by rw [hx]; rfl)
  · exact .inr ⟨hR, by rw [hx]; rfl⟩

/-- What the runs do that matter is all that counts. -/
theorem congr {x y : R.Index → Except ε α} {a : R.Index → α} (h : R.Yields out x a)
    (e : ∀ᶠ n in R.filter, y n = x n ∨ R.mayEnd n ∧ y n = .error out) : R.Yields out y a := by
  filter_upwards [h, e] with n hx hy
  obtain hy | hy := hy
  · rwa [hy]
  · exact .inr hy

theorem mapError {ε' : Type} {x : R.Index → Except ε α} {a : R.Index → α} (h : R.Yields out x a)
    (f : ε → ε') : R.Yields (f out) (fun n ↦ (x n).mapError f) a := by
  filter_upwards [h] with n hx
  obtain hx | ⟨hR, hx⟩ := hx
  · exact .inl (by rw [hx]; rfl)
  · exact .inr ⟨hR, by rw [hx]; rfl⟩

end Yields

end Regime

/-! ## What stands for what -/

/-- What values are made of. -/
inductive Ingredient
  | value | closure | neutral | typed | env | demand

/-- As evaluation has it. -/
@[reducible] def Ingredient.Real : Ingredient → Type
  | value => Value
  | closure => Closure
  | neutral => Neutral
  | typed => Typed
  | env => Env
  | demand => Demand

/-- As ideal evaluation has it. -/
@[reducible] def Ingredient.Ideal : Ingredient → Type
  | value => Idealized.Value
  | closure => Idealized.Closure
  | neutral => Idealized.Neutral
  | typed => Idealized.Typed
  | env => Idealized.Env
  | demand => Idealized.Demand

/-- What stands for something ideal, given the levels of the names. -/
inductive Stands (R : Regime) (θ : String → Option Nat) :
    (i : Ingredient) → (R.Index → i.Real) → i.Ideal → Prop
  | const (k : Const) : Stands R θ .value (fun _ ↦ .const k) (.const k)
  | quote (s : String) : Stands R θ .value (fun _ ↦ .quote s) (.quote s)
  | unary (k : Unary) {a A} : Stands R θ .value a A →
    Stands R θ .value (fun n ↦ .unary k (a n)) (.unary k A)
  | binary (k : Binary) {a b A B} : Stands R θ .value a A → Stands R θ .value b B →
    Stands R θ .value (fun n ↦ .binary k (a n) (b n)) (.binary k A B)
  | equal {t a b T A B} : Stands R θ .value t T → Stands R θ .value a A → Stands R θ .value b B →
    Stands R θ .value (fun n ↦ .equal (t n) (a n) (b n)) (.equal T A B)
  | pi (x : String) {d c D C} : Stands R θ .value d D → Stands R θ .closure c C →
    Stands R θ .value (fun n ↦ .pi x (d n) (c n)) (.pi x D C)
  | sigma (x : String) {d c D C} : Stands R θ .value d D → Stands R θ .closure c C →
    Stands R θ .value (fun n ↦ .sigma x (d n) (c n)) (.sigma x D C)
  | lam (x : String) {c C} : Stands R θ .closure c C →
    Stands R θ .value (fun n ↦ .lam x (c n)) (.lam x C)
  | neu {t m T M} : Stands R θ .value t T → Stands R θ .neutral m M →
    Stands R θ .value (fun n ↦ .neu (t n) (m n)) (.neu T M)
  | later {φ : R.Index → Nat} {d D} : R.Lasts φ → Stands R θ .demand d D →
    Stands R θ .value (fun n ↦ (machine (φ n)).later .passing (d n)) (.later D)
  | body (x : String) (t : Term) {ρ P} : Stands R θ .env ρ P →
    Stands R θ .closure (fun n ↦ .body (ρ n) x t) (.body P x t)
  | constant {v V} : Stands R θ .value v V →
    Stands R θ .closure (fun n ↦ .constant (v n)) (.constant V)
  | natStep {m M} : Stands R θ .value m M →
    Stands R θ .closure (fun n ↦ .natStep (m n)) (.natStep M)
  | listStep {e m E M} : Stands R θ .value e E → Stands R θ .value m M →
    Stands R θ .closure (fun n ↦ .listStep (e n) (m n)) (.listStep E M)
  | listStepTail {m e M E} : Stands R θ .value m M → Stands R θ .value e E →
    Stands R θ .closure (fun n ↦ .listStepTail (m n) (e n)) (.listStepTail M E)
  | equalMotive {t l T L} : Stands R θ .value t T → Stands R θ .value l L →
    Stands R θ .closure (fun n ↦ .equalMotive (t n) (l n)) (.equalMotive T L)
  | vecMotive {e E} : Stands R θ .value e E →
    Stands R θ .closure (fun n ↦ .vecMotive (e n)) (.vecMotive E)
  | vecStep {e m E M} : Stands R θ .value e E → Stands R θ .value m M →
    Stands R θ .closure (fun n ↦ .vecStep (e n) (m n)) (.vecStep E M)
  | vecStepHead {e m k E M K} : Stands R θ .value e E → Stands R θ .value m M →
    Stands R θ .value k K →
      Stands R θ .closure (fun n ↦ .vecStepHead (e n) (m n) (k n)) (.vecStepHead E M K)
  | vecStepTail {m k h M K H} : Stands R θ .value m M → Stands R θ .value k K →
    Stands R θ .value h H →
      Stands R θ .closure (fun n ↦ .vecStepTail (m n) (k n) (h n)) (.vecStepTail M K H)
  | eitherCase (s : Unary) {m M} : Stands R θ .value m M →
    Stands R θ .closure (fun n ↦ .eitherCase s (m n)) (.eitherCase s M)
  | var {x : String} {i : Nat} : θ x = some i → Stands R θ .neutral (fun _ ↦ .var x) (.var i)
  | hole (l : Location) {t T} : Stands R θ .value t T →
    Stands R θ .neutral (fun n ↦ .hole l (t n)) (.hole l T)
  | app {m a M A} : Stands R θ .neutral m M → Stands R θ .typed a A →
    Stands R θ .neutral (fun n ↦ .app (m n) (a n)) (.app M A)
  | project (k : Projection) {m M} : Stands R θ .neutral m M →
    Stands R θ .neutral (fun n ↦ .project k (m n)) (.project k M)
  | recursor (k : Recursor) {m b s M B S} : Stands R θ .neutral m M → Stands R θ .typed b B →
    Stands R θ .typed s S →
      Stands R θ .neutral (fun n ↦ .recursor k (m n) (b n) (s n)) (.recursor k M B S)
  | induct (k : Induction) {m p b s M P B S} : Stands R θ .neutral m M → Stands R θ .typed p P →
    Stands R θ .typed b B → Stands R θ .typed s S →
      Stands R θ .neutral (fun n ↦ .induct k (m n) (p n) (b n) (s n)) (.induct k M P B S)
  | transport (k : Transport) {m p b M P B} : Stands R θ .neutral m M → Stands R θ .typed p P →
    Stands R θ .typed b B →
      Stands R θ .neutral (fun n ↦ .transport k (m n) (p n) (b n)) (.transport k M P B)
  | indAbsurd {m p M P} : Stands R θ .neutral m M → Stands R θ .typed p P →
    Stands R θ .neutral (fun n ↦ .indAbsurd (m n) (p n)) (.indAbsurd M P)
  | transLeft {m a M A} : Stands R θ .neutral m M → Stands R θ .typed a A →
    Stands R θ .neutral (fun n ↦ .transLeft (m n) (a n)) (.transLeft M A)
  | transRight {a m A M} : Stands R θ .typed a A → Stands R θ .neutral m M →
    Stands R θ .neutral (fun n ↦ .transRight (a n) (m n)) (.transRight A M)
  | transBoth {l m L M} : Stands R θ .neutral l L → Stands R θ .neutral m M →
    Stands R θ .neutral (fun n ↦ .transBoth (l n) (m n)) (.transBoth L M)
  | cong {m c f M C F} : Stands R θ .neutral m M → Stands R θ .value c C →
    Stands R θ .typed f F → Stands R θ .neutral (fun n ↦ .cong (m n) (c n) (f n)) (.cong M C F)
  | indVec {l m p b s L M P B S} : Stands R θ .typed l L → Stands R θ .neutral m M →
    Stands R θ .typed p P → Stands R θ .typed b B → Stands R θ .typed s S →
      Stands R θ .neutral (fun n ↦ .indVec (l n) (m n) (p n) (b n) (s n)) (.indVec L M P B S)
  | indVecBoth {l m p b s L M P B S} : Stands R θ .neutral l L → Stands R θ .neutral m M →
    Stands R θ .typed p P → Stands R θ .typed b B → Stands R θ .typed s S →
      Stands R θ .neutral (fun n ↦ .indVecBoth (l n) (m n) (p n) (b n) (s n))
        (.indVecBoth L M P B S)
  | typed {t v T V} : Stands R θ .value t T → Stands R θ .value v V →
    Stands R θ .typed (fun n ↦ .mk (t n) (v n)) (.mk T V)
  | nil : Stands R θ .env (fun _ ↦ .nil) .nil
  | cons (x : String) {v ρ V P} : Stands R θ .value v V → Stands R θ .env ρ P →
    Stands R θ .env (fun n ↦ .cons x (v n) (ρ n)) (.cons x V P)
  | eval (t : Term) {ρ P} : Stands R θ .env ρ P →
    Stands R θ .demand (fun n ↦ .eval (ρ n) t) (.eval P t)
  | apply {f a F A} : Stands R θ .value f F → Stands R θ .value a A →
    Stands R θ .demand (fun n ↦ .apply (f n) (a n)) (.apply F A)
  | recursing (k : Recursor) {v t b s V T B S} : Stands R θ .value v V → Stands R θ .value t T →
    Stands R θ .value b B → Stands R θ .value s S →
      Stands R θ .demand (fun n ↦ .recursor k (v n) (t n) (b n) (s n)) (.recursor k V T B S)
  | inducting (k : Induction) {v p b s V P B S} : Stands R θ .value v V → Stands R θ .value p P →
    Stands R θ .value b B → Stands R θ .value s S →
      Stands R θ .demand (fun n ↦ .induct k (v n) (p n) (b n) (s n)) (.induct k V P B S)
  | inductingVec {l v p b s L V P B S} : Stands R θ .value l L → Stands R θ .value v V →
    Stands R θ .value p P → Stands R θ .value b B → Stands R θ .value s S →
      Stands R θ .demand (fun n ↦ .indVec (l n) (v n) (p n) (b n) (s n)) (.indVec L V P B S)

namespace Stands

variable {R : Regime} {θ : String → Option Nat}

/-- What stands for something still does when more names have levels. -/
theorem mono {θ' : String → Option Nat} {i : Ingredient} {a : R.Index → i.Real} {A : i.Ideal}
    (h : Stands R θ i a A) (hθ : ∀ x k, θ x = some k → θ' x = some k) : Stands R θ' i a A := by
  induction h with
  | var h => exact .var (hθ _ _ h)
  | _ => constructor <;> assumption

/-- What a name stands for in an environment. -/
theorem lookup {x : String} {V : Idealized.Value} : ∀ {P : Idealized.Env} {ρ : R.Index → Env},
    Stands R θ .env ρ P → P.lookup x = some V →
      ∃ v, Stands R θ .value v V ∧ ∀ n, (ρ n).lookup x = some (v n)
  | .nil, _, _, hx => by cases hx
  | .cons y W P, _, .cons _ hv hρ, hx => by
    simp only [Env.lookup, Idealized.Env.lookup] at hx ⊢
    split at hx
    · rename_i e
      cases hx
      exact ⟨_, hv, fun n ↦ if_pos e⟩
    · rename_i e
      obtain ⟨v, hv, he⟩ := lookup hρ hx
      exact ⟨v, hv, fun n ↦ (if_neg e).trans (he n)⟩

theorem numeral (k : Nat) : Stands R θ .value (fun _ ↦ .numeral k) (.numeral k) := by
  induction k with
  | zero => exact .const .zero
  | succ k ih => exact .unary .add1 ih

theorem arrow (x : String) {d c : R.Index → Value} {D C : Idealized.Value}
    (hd : Stands R θ .value d D) (hc : Stands R θ .value c C) :
    Stands R θ .value (fun n ↦ .arrow x (d n) (c n)) (.arrow x D C) :=
  .pi x hd (.constant hc)

end Stands

end LittleTypes
