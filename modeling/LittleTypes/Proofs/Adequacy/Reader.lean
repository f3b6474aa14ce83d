import LittleTypes.Proofs.Adequacy.Machine
import LittleTypes.Proofs.Idealized.Reading
import LittleTypes.Proofs.Name.Fresh
import LittleTypes.Proofs.Term.Alpha
import LittleTypes.Context.ReadBack

/-!
# Reading back follows its plan

The names that are made up on the way are the same in all runs, because the names in scope are.  So
if the plan of reading back runs to a normal form, then a reader with enough fuel has one term for
an answer, and its nameless form is the normal form.
-/

namespace LittleTypes

open Idealized (Plan ReadPlan ReadRuns)

variable {R : Regime}

/-- The contexts of all runs have the same names, and the names that have a level are among them. -/
structure Surveyed (R : Regime) (ns : List String) (θ : Levels) (Γ : R.Index → Context) :
    Prop where
  names : ∀ n, (Γ n).names = ns
  bound : ∀ x i, θ x = some i → x ∈ ns

/-- What is read stands for something ideal. -/
inductive StandsReading (R : Regime) (θ : Levels) : (R.Index → Reading) → Idealized.Reading → Prop
  | value {t v : R.Index → Value} {T V : Idealized.Value} : Stands R θ .value t T →
    Stands R θ .value v V → StandsReading R θ (fun n ↦ .value (t n) (v n)) (.value T V)
  | type {v : R.Index → Value} {V : Idealized.Value} : Stands R θ .value v V →
    StandsReading R θ (fun n ↦ .type (v n)) (.type V)
  | neutral {m : R.Index → Neutral} {M : Idealized.Neutral} : Stands R θ .neutral m M →
    StandsReading R θ (fun n ↦ .neutral (m n)) (.neutral M)

/-- A term with a given nameless form, from which nothing is missing. -/
structure Term.Names (θ : Levels) (k : Nat) (t : Term) (N : Nameless) : Prop where
  nameless : t.nameless θ k = N
  whole : t.Whole

/-- What is done in each run follows a plan, to one term for all runs. -/
inductive ReadFollows (R : Regime) (θ : Levels) (k : Nat) :
    (R.Index → Except Fault Term) → ReadPlan → Prop
  | done {t : Term} {N : Nameless} : t.Names θ k N → ReadFollows R θ k (fun _ ↦ .ok t) (.done N)
  | ask {θ' : Levels} {φ : R.Index → Nat} {d : R.Index → Demand} {D : Idealized.Demand}
    {f : R.Index → Value → Except Fault Term} {next : Idealized.Value → ReadPlan} : R.Lasts φ →
    Stands R θ' .demand d D →
    (∀ v V, Stands R θ' .value v V → ReadFollows R θ k (fun n ↦ f n (v n)) (next V)) →
      ReadFollows R θ k (fun n ↦ liftM (machine (φ n) .passing (d n)) >>= f n) (.ask D next)
  | look {θ' : Levels} {v : R.Index → Value} {V : Idealized.Value}
    {f : R.Index → Value → Except Fault Term} {next : Idealized.Value → ReadPlan} :
    Stands R θ' .value v V →
    (∀ w W, Stands R θ' .value w W → ReadFollows R θ k (fun n ↦ f n (w n)) (next W)) →
      ReadFollows R θ k (fun n ↦ liftM (v n).force >>= f n) (.ask (.look V) next)
  | read {ns : List String} {θ' : Levels} {k' : Nat} {φ : R.Index → Nat} {Γ : R.Index → Context}
    {r : R.Index → Reading} {r' : Idealized.Reading} {f : R.Index → Term → Except Fault Term}
    {next : Nameless → ReadPlan} : R.Lasts φ → Surveyed R ns θ' Γ →
    StandsReading R θ' r r' →
    (∀ t N, t.Names θ' k' N → ReadFollows R θ k (fun n ↦ f n t) (next N)) →
      ReadFollows R θ k (fun n ↦ reader (φ n) (Γ n) (r n) >>= f n) (.read k' r' next)
  | stuck {x : R.Index → Except Fault Term} : ReadFollows R θ k x .stuck

variable {θ : Levels} {k : Nat}

/-- Evaluating, and going on to read. -/
theorem Follows.thenRead {θ' : Levels} {α β : Type} {Q : (R.Index → α) → β → Prop}
    {x : R.Index → Except EvalFault α} {p : Plan β} {f : R.Index → α → Except Fault Term}
    {g : β → ReadPlan} (h : Follows R θ' Q x p)
    (hNext : ∀ a b, Q a b → ReadFollows R θ k (fun n ↦ f n (a n)) (g b)) :
    ReadFollows R θ k (fun n ↦ liftM (x n) >>= f n) (p.thenRead g) := by
  have lift_bind : ∀ {α β γ : Type} (x : Except EvalFault α) (f : α → Except EvalFault β)
      (g : β → Except Fault γ), (liftM (x >>= f) : Except Fault β) >>= g =
        (liftM x : Except Fault α) >>= fun a ↦ (liftM (f a) : Except Fault β) >>= g := by
    intro α β γ x f g
    cases x <;> rfl
  induction h with
  | done h => exact hNext _ _ h
  | ask hφ hd _ ih =>
    simp only [lift_bind]
    exact .ask hφ hd ih
  | look hv _ ih =>
    simp only [lift_bind]
    exact .look hv ih
  | stuck => exact .stuck

/-! ## Names -/

namespace Surveyed

variable {ns : List String} {Γ : R.Index → Context}

/-- A new name, the same in all runs. -/
theorem fresh (h : Surveyed R ns θ Γ) (x : String) :
    ∃ y, y ∉ ns ∧ ∀ n, (Γ n).fresh x = y :=
  ⟨freshName ns x, freshName_not_mem ns x, fun n ↦ by rw [Context.fresh, h.names]⟩

/-- A new name has no level yet. -/
theorem le_bind (h : Surveyed R ns θ Γ) {y : String} (hy : y ∉ ns) (k : Nat) (x : String) (i : Nat)
    (hx : θ x = some i) : θ.bind y k x = some i := by
  rw [Levels.bind_of_ne θ k, hx]
  rintro rfl
  exact hy (h.bound x i hx)

/-- A new name is bound and has a level. -/
theorem bind (h : Surveyed R ns θ Γ) (y : String) (k : Nat) (t : R.Index → Value) :
    Surveyed R (y :: ns) (θ.bind y k) fun n ↦ (y, .free (t n)) :: Γ n where
  names n := congrArg (y :: ·) (h.names n)
  bound x i hx := by
    by_cases e : x = y
    · exact e ▸ List.mem_cons_self
    · rw [Levels.bind_of_ne θ k e] at hx
      exact List.mem_cons_of_mem y (h.bound x i hx)

/-- To bind a new name succeeds in all runs. -/
theorem bindFree (h : Surveyed R ns θ Γ) {y : String} (hy : y ∉ ns) (t : R.Index → Value)
    (n : R.Index) : (Γ n).bindFree y (t n) = .ok ((y, .free (t n)) :: Γ n) :=
  Context.bindFree_eq_ok (by rwa [h.names]) _

end Surveyed

/-- A new unknown value. -/
theorem Stands.ofVar {y : String} {t : R.Index → Value} {T : Idealized.Value}
    (h : Stands R (θ.bind y k) .value t T) :
    Stands R (θ.bind y k) .value (fun n ↦ .ofVar y (t n)) (.ofLevel k T) :=
  .neu h (.var (θ.bind_self y k))

/-! ## One step -/

section Step

variable {φ : R.Index → Nat} (hφ : R.Lasts φ) {ns : List String} {Γ : R.Index → Context}
  (hΓ : Surveyed R ns θ Γ)

include hφ hΓ

namespace ReadFollows

variable {θ' : Levels} {k' : Nat} {f : R.Index → Term → Except Fault Term}
  {next : Nameless → ReadPlan}

theorem value {t v : R.Index → Value} {T V : Idealized.Value} (ht : Stands R θ .value t T)
    (hv : Stands R θ .value v V)
    (h : ∀ t N, t.Names θ k N → ReadFollows R θ' k' (fun n ↦ f n t) (next N)) :
    ReadFollows R θ' k' (fun n ↦ reader (φ n) (Γ n) (.value (t n) (v n)) >>= f n)
      (.read k (.value T V) next) :=
  .read hφ hΓ (.value ht hv) h

theorem type {v : R.Index → Value} {V : Idealized.Value} (hv : Stands R θ .value v V)
    (h : ∀ t N, t.Names θ k N → ReadFollows R θ' k' (fun n ↦ f n t) (next N)) :
    ReadFollows R θ' k' (fun n ↦ reader (φ n) (Γ n) (.type (v n)) >>= f n)
      (.read k (.type V) next) :=
  .read hφ hΓ (.type hv) h

theorem neutral {m : R.Index → Neutral} {M : Idealized.Neutral} (hm : Stands R θ .neutral m M)
    (h : ∀ t N, t.Names θ k N → ReadFollows R θ' k' (fun n ↦ f n t) (next N)) :
    ReadFollows R θ' k' (fun n ↦ reader (φ n) (Γ n) (.neutral (m n)) >>= f n)
      (Idealized.readNeutral k M next) :=
  .read hφ hΓ (.neutral hm) h

/-- Reading an elimination, and nothing else. -/
theorem justNeutral {m : R.Index → Neutral} {M : Idealized.Neutral} (hm : Stands R θ .neutral m M) :
    ReadFollows R θ k (fun n ↦ reader (φ n) (Γ n) (.neutral (m n)))
      (Idealized.readNeutral k M .done) := by
  have h := neutral (k := k) (f := fun _ ↦ pure) hφ hΓ hm fun _ _ ht ↦ .done ht
  simpa only [bind_pure] using h

/-- Reading a type, and nothing else. -/
theorem justType {v : R.Index → Value} {V : Idealized.Value} (hv : Stands R θ .value v V) :
    ReadFollows R θ k (fun n ↦ reader (φ n) (Γ n) (.type (v n))) (.read k (.type V) .done) := by
  have h := type (k := k) (f := fun _ ↦ pure) hφ hΓ hv fun _ _ ht ↦ .done ht
  simpa only [bind_pure] using h

theorem typed {a : R.Index → Typed} {A : Idealized.Typed} (ha : Stands R θ .typed a A)
    (h : ∀ t N, t.Names θ k N → ReadFollows R θ' k' (fun n ↦ f n t) (next N)) :
    ReadFollows R θ' k' (fun n ↦ (reader (φ n)).typed (Γ n) (a n) >>= f n)
      (Idealized.readTyped k A next) := by
  cases ha with
  | typed ht hv => exact value hφ hΓ ht hv h

theorem typeOfTyped {a : R.Index → Typed} {A : Idealized.Typed} (ha : Stands R θ .typed a A)
    (h : ∀ t N, t.Names θ k N → ReadFollows R θ' k' (fun n ↦ f n t) (next N)) :
    ReadFollows R θ' k' (fun n ↦ (reader (φ n)).typeOfTyped (Γ n) (a n) >>= f n)
      (.read k (.type A.type) next) := by
  cases ha with
  | typed ht hv => exact type hφ hΓ ht h

theorem typedType {a : R.Index → Typed} {A : Idealized.Typed} (ha : Stands R θ .typed a A)
    (h : ∀ t N, t.Names θ k N → ReadFollows R θ' k' (fun n ↦ f n t) (next N)) :
    ReadFollows R θ' k' (fun n ↦ (reader (φ n)).typedType (Γ n) (a n) >>= f n)
      (.read k (.type A.value) next) := by
  cases ha with
  | typed ht hv => exact type hφ hΓ hv h

end ReadFollows

open ReadFollows in
theorem follows_neutralStep {m : R.Index → Neutral} {M : Idealized.Neutral}
    (hm : Stands R θ .neutral m M) :
    ReadFollows R θ k (fun n ↦ (reader (φ n)).neutralStep (Γ n) (m n))
      (Idealized.neutralPlan k M) := by
  cases hm with
  | var hx => exact .done ⟨by simp [hx], trivial⟩
  | hole l ht => exact type hφ hΓ ht fun t T ht ↦ .done ⟨by simp [ht.nameless], ht.whole⟩
  | app hm ha =>
    exact neutral hφ hΓ hm fun f F hf ↦ typed hφ hΓ ha fun a A ha ↦
      .done ⟨by simp [hf.nameless, ha.nameless], hf.whole, ha.whole⟩
  | project c hm =>
    exact neutral hφ hΓ hm fun t T ht ↦ .done ⟨by simp [ht.nameless], ht.whole⟩
  | recursor c hm hb hs =>
    exact neutral hφ hΓ hm fun t T ht ↦ typeOfTyped hφ hΓ hb fun x X hx ↦ typed hφ hΓ hb
      fun b B hb ↦ typed hφ hΓ hs fun s S hs ↦
        .done ⟨by simp [ht.nameless, hx.nameless, hb.nameless, hs.nameless],
          ht.whole, hx.whole, hb.whole, hs.whole⟩
  | induct c hm hp hb hs =>
    exact neutral hφ hΓ hm fun t T ht ↦ typed hφ hΓ hp fun x X hx ↦ typed hφ hΓ hb
      fun b B hb ↦ typed hφ hΓ hs fun s S hs ↦
        .done ⟨by simp [ht.nameless, hx.nameless, hb.nameless, hs.nameless],
          ht.whole, hx.whole, hb.whole, hs.whole⟩
  | transport c hm hp hb =>
    exact neutral hφ hΓ hm fun t T ht ↦ typed hφ hΓ hp fun x X hx ↦ typed hφ hΓ hb fun b B hb ↦
      .done ⟨by simp [ht.nameless, hx.nameless, hb.nameless], ht.whole, hx.whole, hb.whole⟩
  | indAbsurd hm hp =>
    exact neutral hφ hΓ hm fun t T ht ↦ typedType hφ hΓ hp fun x X hx ↦
      .done ⟨by simp [ht.nameless, hx.nameless], ⟨trivial, ht.whole⟩, hx.whole⟩
  | transLeft hm ha =>
    exact neutral hφ hΓ hm fun t T ht ↦ typed hφ hΓ ha fun x X hx ↦
      .done ⟨by simp [ht.nameless, hx.nameless], ht.whole, hx.whole⟩
  | transRight ha hm =>
    exact typed hφ hΓ ha fun t T ht ↦ neutral hφ hΓ hm fun x X hx ↦
      .done ⟨by simp [ht.nameless, hx.nameless], ht.whole, hx.whole⟩
  | transBoth hl hm =>
    exact neutral hφ hΓ hl fun t T ht ↦ neutral hφ hΓ hm fun x X hx ↦
      .done ⟨by simp [ht.nameless, hx.nameless], ht.whole, hx.whole⟩
  | cong hm hc hf =>
    exact neutral hφ hΓ hm fun t T ht ↦ type hφ hΓ hc fun x X hx ↦ typed hφ hΓ hf fun b B hb ↦
      .done ⟨by simp [ht.nameless, hx.nameless, hb.nameless], ht.whole, hx.whole, hb.whole⟩
  | indVec hl hm hp hb hs =>
    exact typed hφ hΓ hl fun l L hl ↦ neutral hφ hΓ hm fun t T ht ↦ typed hφ hΓ hp fun x X hx ↦
      typed hφ hΓ hb fun b B hb ↦ typed hφ hΓ hs fun s S hs ↦
        .done ⟨by simp [hl.nameless, ht.nameless, hx.nameless, hb.nameless, hs.nameless],
          hl.whole, ht.whole, hx.whole, hb.whole, hs.whole⟩
  | indVecBoth hl hm hp hb hs =>
    exact neutral hφ hΓ hl fun l L hl ↦ neutral hφ hΓ hm fun t T ht ↦ typed hφ hΓ hp fun x X hx ↦
      typed hφ hΓ hb fun b B hb ↦ typed hφ hΓ hs fun s S hs ↦
        .done ⟨by simp [hl.nameless, ht.nameless, hx.nameless, hb.nameless, hs.nameless],
          hl.whole, ht.whole, hx.whole, hb.whole, hs.whole⟩

open ReadFollows in
/-- Reading a type that binds a variable. -/
theorem follows_binder {F : String → Term → Term → Term} {G : Nameless → Nameless → Nameless}
    (hF : ∀ {y a b A B}, a.Names θ k A → b.Names (θ.bind y k) (k + 1) B →
      (F y a b).Names θ k (G A B)) (x : String) {d : R.Index → Value} {D : Idealized.Value}
    {c : R.Index → Closure} {C : Idealized.Closure} (hd : Stands R θ .value d D)
    (hc : Stands R θ .closure c C) :
    ReadFollows R θ k
      (fun n ↦ do
        let dom ← reader (φ n) (Γ n) (.type (d n))
        let Δ ← (Γ n).bindFree ((Γ n).fresh x) (d n)
        let cod ← (machine (φ n)).enter .passing (c n) (.ofVar ((Γ n).fresh x) (d n))
        pure (F ((Γ n).fresh x) dom (← reader (φ n) Δ (.type cod))))
      (.read k (.type D) fun D' ↦ (Idealized.enter C (.ofLevel k D)).thenRead fun C' ↦
        .read (k + 1) (.type C') fun C' ↦ .done (G D' C')) := by
  obtain ⟨y, hy, e⟩ := hΓ.fresh x
  have hθ := hΓ.le_bind hy k
  simp only [e, hΓ.bindFree hy]
  refine type hφ hΓ hd fun a A ha ↦ ?_
  refine (follows_enter hφ (hc.mono hθ) (.ofVar (hd.mono hθ))).thenRead fun v V hv ↦ ?_
  exact type hφ (hΓ.bind y k d) hv fun b B hb ↦ .done (hF ha hb)

open ReadFollows in
theorem follows_typeStep {v : R.Index → Value} {V : Idealized.Value} (hv : Stands R θ .value v V) :
    ReadFollows R θ k (fun n ↦ (reader (φ n)).typeStep (machine (φ n)) (Γ n) (v n))
      (Idealized.readPlan k (.type V)) := by
  refine hv.force.thenRead fun w W hw ↦ ?_
  cases hw with
  | const c => cases c <;> first | exact .done ⟨rfl, trivial⟩ | exact .stuck
  | pi x hd hc =>
    exact follows_binder hφ hΓ (F := .pi) (fun ha hb ↦
      ⟨by simp [ha.nameless, hb.nameless], ha.whole, hb.whole⟩) x hd hc
  | sigma x hd hc =>
    exact follows_binder hφ hΓ (F := .sigma) (fun ha hb ↦
      ⟨by simp [ha.nameless, hb.nameless], ha.whole, hb.whole⟩) x hd hc
  | equal ht hl hr =>
    exact type hφ hΓ ht fun t T ht' ↦ value hφ hΓ ht hl fun l L hl ↦ value hφ hΓ ht hr
      fun r R hr ↦ .done ⟨by simp [ht'.nameless, hl.nameless, hr.nameless],
        ht'.whole, hl.whole, hr.whole⟩
  | unary c he =>
    cases c with
    | list => exact type hφ hΓ he fun e E he ↦ .done ⟨by simp [he.nameless], he.whole⟩
    | _ => exact .stuck
  | binary c ha hb =>
    cases c with
    | vec =>
      exact type hφ hΓ ha fun e E he ↦ value hφ hΓ (.const .nat) hb fun l L hl ↦
        .done ⟨by simp [he.nameless, hl.nameless], he.whole, hl.whole⟩
    | either =>
      exact type hφ hΓ ha fun e E he ↦ type hφ hΓ hb fun l L hl ↦
        .done ⟨by simp [he.nameless, hl.nameless], he.whole, hl.whole⟩
    | _ => exact .stuck
  | neu _ hn => exact justNeutral hφ hΓ hn
  | _ => exact .stuck

/-- Reading a value that can only be an elimination. -/
theorem follows_neutralAt (t : R.Index → Value) {v : R.Index → Value} {V : Idealized.Value}
    (hv : Stands R θ .value v V) :
    ReadFollows R θ k (fun n ↦ (reader (φ n)).neutralAt (Γ n) (t n) (v n))
      (Idealized.neutralShapePlan k V) := by
  cases hv with
  | neu _ hn => exact .justNeutral hφ hΓ hn
  | _ => exact .stuck

open ReadFollows in
/-- Reading a function. -/
theorem follows_function {d v : R.Index → Value} {D V : Idealized.Value} {c : R.Index → Closure}
    {C : Idealized.Closure} {x : R.Index → String} (hx : ∃ z, ∀ n, x n = z)
    (hd : Stands R θ .value d D) (hc : Stands R θ .closure c C) (hv : Stands R θ .value v V) :
    ReadFollows R θ k
      (fun n ↦ do
        let Δ ← (Γ n).bindFree ((Γ n).fresh (x n)) (d n)
        let cod ← (machine (φ n)).enter .passing (c n) (.ofVar ((Γ n).fresh (x n)) (d n))
        let body ← (machine (φ n)).apply .passing (v n) (.ofVar ((Γ n).fresh (x n)) (d n))
        pure (.lam ((Γ n).fresh (x n)) (← reader (φ n) Δ (.value cod body))))
      (Idealized.functionPlan k D C V) := by
  obtain ⟨z, hx⟩ := hx
  obtain ⟨y, hy, e⟩ := hΓ.fresh z
  have hθ := hΓ.le_bind hy k
  simp only [hx, e, hΓ.bindFree hy]
  have hnew := Stands.ofVar (k := k) (hd.mono hθ)
  refine (follows_enter hφ (hc.mono hθ) hnew).thenRead fun T T' hT ↦ ?_
  refine (follows_apply hφ (hv.mono hθ) hnew).thenRead fun b B hb ↦ ?_
  exact value hφ (hΓ.bind y k d) hT hb fun _ _ ht ↦ .done ⟨by simp [ht.nameless], ht.whole⟩

open ReadFollows in
/-- Reading a pair. -/
theorem follows_pair {d v : R.Index → Value} {D V : Idealized.Value} {c : R.Index → Closure}
    {C : Idealized.Closure} (hd : Stands R θ .value d D) (hc : Stands R θ .closure c C)
    (hv : Stands R θ .value v V) :
    ReadFollows R θ k
      (fun n ↦ do
        let a ← (machine (φ n)).doProject .passing .car (v n)
        let a' ← reader (φ n) (Γ n) (.value (d n) a)
        let snd ← (machine (φ n)).enter .passing (c n) a
        let d ← (machine (φ n)).doProject .passing .cdr (v n)
        pure (.binary .cons a' (← reader (φ n) (Γ n) (.value snd d))))
      (Idealized.pairPlan k D C V) := by
  refine (follows_doProject hφ .car hv).thenRead fun a A ha ↦ value hφ hΓ hd ha fun _ _ ha' ↦ ?_
  refine (follows_enter hφ hc ha).thenRead fun _ _ hC ↦ ?_
  refine (follows_doProject hφ .cdr hv).thenRead fun _ _ hd' ↦ value hφ hΓ hC hd' fun _ _ hd'' ↦ ?_
  exact .done ⟨by simp [ha'.nameless, hd''.nameless], ha'.whole, hd''.whole⟩

open ReadFollows in
theorem follows_valueStep {t v : R.Index → Value} {T V : Idealized.Value}
    (ht : Stands R θ .value t T) (hv : Stands R θ .value v V) :
    ReadFollows R θ k (fun n ↦ (reader (φ n)).valueStep (machine (φ n)) (Γ n) (t n) (v n))
      (Idealized.readPlan k (.value T V)) := by
  refine ht.force.thenRead fun t T ht ↦ hv.force.thenRead fun v V hv ↦ ?_
  cases ht with
  | const c =>
    cases c with
    | univ => exact justType hφ hΓ hv
    | nat =>
      cases hv with
      | const c => cases c <;> first | exact .done ⟨rfl, trivial⟩ | exact .stuck
      | unary c ha =>
        cases c with
        | add1 =>
          exact value hφ hΓ (.const .nat) ha fun a A ha ↦ .done ⟨by simp [ha.nameless], ha.whole⟩
        | _ => exact .stuck
      | neu _ hn => exact justNeutral hφ hΓ hn
      | _ => exact .stuck
    | atom =>
      cases hv with
      | quote s => exact .done ⟨rfl, trivial⟩
      | neu _ hn => exact justNeutral hφ hΓ hn
      | _ => exact .stuck
    | trivial => exact .done ⟨rfl, trivial⟩
    | absurd =>
      cases hv with
      | neu _ hn =>
        exact neutral hφ hΓ hn fun _ _ ht ↦ .done ⟨by simp [ht.nameless], trivial, ht.whole⟩
      | _ => exact .stuck
    | _ => exact follows_neutralAt hφ hΓ _ hv
  | pi x hd hc =>
    refine follows_function hφ hΓ ?_ hd hc hv
    cases hv <;> exact ⟨_, fun _ ↦ rfl⟩
  | sigma x hd hc => exact follows_pair hφ hΓ hd hc hv
  | equal ht _ _ =>
    cases hv with
    | unary c ha =>
      cases c with
      | same => exact value hφ hΓ ht ha fun a A ha ↦ .done ⟨by simp [ha.nameless], ha.whole⟩
      | _ => exact .stuck
    | neu _ hn => exact justNeutral hφ hΓ hn
    | _ => exact .stuck
  | unary c he =>
    cases c with
    | list =>
      cases hv with
      | const c => cases c <;> first | exact .done ⟨rfl, trivial⟩ | exact .stuck
      | binary c ha hb =>
        cases c with
        | listCons =>
          exact value hφ hΓ he ha fun _ _ ha ↦ value hφ hΓ (.unary .list he) hb fun _ _ hb ↦
            .done ⟨by simp [ha.nameless, hb.nameless], ha.whole, hb.whole⟩
        | _ => exact .stuck
      | neu _ hn => exact justNeutral hφ hΓ hn
      | _ => exact .stuck
    | _ => exact follows_neutralAt hφ hΓ _ hv
  | binary c he hl =>
    cases c with
    | vec =>
      cases hv with
      | const c => cases c <;> first | exact .done ⟨rfl, trivial⟩ | exact .stuck
      | binary c ha hb =>
        cases c with
        | vecCons =>
          refine hl.force.thenRead fun l L hl ↦ ?_
          cases hl with
          | unary c hk =>
            cases c with
            | add1 =>
              exact value hφ hΓ he ha fun _ _ ha ↦ value hφ hΓ (.binary .vec he hk) hb
                fun _ _ hb ↦ .done ⟨by simp [ha.nameless, hb.nameless], ha.whole, hb.whole⟩
            | _ => exact .stuck
          | _ => exact .stuck
        | _ => exact .stuck
      | neu _ hn => exact justNeutral hφ hΓ hn
      | _ => exact .stuck
    | either =>
      cases hv with
      | unary c ha =>
        cases c with
        | left => exact value hφ hΓ he ha fun _ _ ha ↦ .done ⟨by simp [ha.nameless], ha.whole⟩
        | right => exact value hφ hΓ hl ha fun _ _ ha ↦ .done ⟨by simp [ha.nameless], ha.whole⟩
        | _ => exact .stuck
      | neu _ hn => exact justNeutral hφ hΓ hn
      | _ => exact .stuck
    | _ => exact follows_neutralAt hφ hΓ _ hv
  | _ => exact follows_neutralAt hφ hΓ _ hv

theorem follows_readStep {r : R.Index → Reading} {r' : Idealized.Reading}
    (h : StandsReading R θ r r') :
    ReadFollows R θ k (fun n ↦ (reader (φ n)).step (machine (φ n)) (Γ n) (r n))
      (Idealized.readPlan k r') := by
  cases h with
  | value ht hv => exact follows_valueStep hφ hΓ ht hv
  | type hv => exact follows_typeStep hφ hΓ hv
  | neutral hm => exact follows_neutralStep hφ hΓ hm

end Step

/-! ## Any number of steps -/

/-- The fault of a run that has used up its fuel while reading back. -/
abbrev Fault.outOfFuel : Fault := .eval .outOfFuel

/-- Evaluating as part of reading. -/
theorem Regime.Yields.lift {α : Type} {x : R.Index → Except EvalFault α} {a : R.Index → α}
    (h : R.Yields .outOfFuel x a) :
    R.Yields .outOfFuel (fun n ↦ (liftM (x n) : Except Fault α)) a := h.mapError Fault.eval

/-- A reader with fuel for one step more. -/
theorem Regime.Yields.readStep {φ : R.Index → Nat} (hφ : R.Lasts φ) {Γ : R.Index → Context}
    {r : R.Index → Reading} {t : R.Index → Term}
    (h : R.Yields .outOfFuel
      (fun n ↦ (reader (φ n - 1)).step (machine (φ n - 1)) (Γ n) (r n)) t) :
    R.Yields .outOfFuel (fun n ↦ reader (φ n) (Γ n) (r n)) t := by
  refine h.congr ?_
  filter_upwards [hφ.eventually] with n hn
  obtain hn | ⟨hR, hn⟩ := hn
  · exact .inl (by rw [hn]; rfl)
  · exact .inr ⟨hR, by rw [hn]; rfl⟩

/-- What follows a plan of reading that runs to a normal form has one term for an answer in all
runs, and this is its nameless form. -/
theorem ReadFollows.yields {p : ReadPlan} {N : Nameless} (h : ReadRuns p N) :
    ∀ {θ : Levels} {k : Nat} {x : R.Index → Except Fault Term}, ReadFollows R θ k x p →
      ∃ t : Term, t.Names θ k N ∧ R.Yields .outOfFuel x fun _ ↦ t := by
  induction h with
  | done N =>
    intro θ k x hx
    cases hx with
    | done h => exact ⟨_, h, .pure _⟩
  | ask hd hNext ihNext =>
    intro θ k x hx
    cases hx with
    | ask hφ hd' hx =>
      obtain ⟨v, hv, hy⟩ := (follows_step hφ.pred hd').yields hd
      obtain ⟨a, ha, hy'⟩ := ihNext (hx v _ hv)
      exact ⟨a, ha, (Regime.Yields.lift (.step hφ hy)).bind hy'⟩
    | look hV hx =>
      obtain ⟨v, hv, hy⟩ := (follows_force hV).yields hd
      obtain ⟨a, ha, hy'⟩ := ihNext (hx v _ hv)
      exact ⟨a, ha, (Regime.Yields.lift hy).bind hy'⟩
  | read hr hNext ih ihNext =>
    intro θ k x hx
    cases hx with
    | read hφ hΓ hr' hx =>
      obtain ⟨t, ht, hy⟩ := ih (follows_readStep hφ.pred hΓ hr')
      obtain ⟨u, hu, hy'⟩ := ihNext (hx t _ ht)
      exact ⟨u, hu, (hy.readStep hφ).bind hy'⟩

end LittleTypes
