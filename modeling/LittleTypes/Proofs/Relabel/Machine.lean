import LittleTypes.Proofs.Relabel.Term
import LittleTypes.Value.Machine

/-!
# Evaluation with other locations

Evaluation never looks at a location: the value of a term with other locations is its value with
other locations.  This is shown for one step, over a machine of which it is known, and then for
every amount of fuel.
-/

namespace LittleTypes

/-! ## Answers carried along -/

/-- The second computation answers with the image of what the first one answers, and fails with the
image of its failure. -/
def Carries {ε δ α β : Type} (g : ε → δ) (f : α → β) (x : Except ε α) (y : Except δ β) : Prop :=
  y = (x.map f).mapError g

namespace Carries

variable {ε δ α α' β β' : Type} {g : ε → δ} {f : α → α'} {h : β → β'}

theorem bind {x : Except ε α} {y : Except δ α'} {k : α → Except ε β} {k' : α' → Except δ β'}
    (hx : Carries g f x y) (hk : ∀ a, Carries g h (k a) (k' (f a))) :
    Carries g h (x >>= k) (y >>= k') := by
  cases hx
  cases x with
  | error e => rfl
  | ok a => exact hk a

end Carries

/-! ## Values -/

mutual

/-- The value with other locations. -/
def Value.relabel (ρ : Relabelling) : Value → Value
  | .const k => .const k
  | .quote s => .quote s
  | .unary k a => .unary k (a.relabel ρ)
  | .binary k a b => .binary k (a.relabel ρ) (b.relabel ρ)
  | .equal t l r => .equal (t.relabel ρ) (l.relabel ρ) (r.relabel ρ)
  | .pi x d c => .pi x (d.relabel ρ) (c.relabel ρ)
  | .sigma x d c => .sigma x (d.relabel ρ) (c.relabel ρ)
  | .lam x c => .lam x (c.relabel ρ)
  | .neu t n => .neu (t.relabel ρ) (n.relabel ρ)
  | .delayed v => .delayed (Outcome.relabelThunk ρ v)
  | .absent => .absent

/-- What is delayed, with other locations. -/
def Outcome.relabelThunk (ρ : Relabelling) : Thunk Outcome → Thunk Outcome
  | ⟨f⟩ => ⟨fun u ↦ (f u).relabel ρ⟩

/-- What is found with other locations; faults have none. -/
def Outcome.relabel (ρ : Relabelling) : Outcome → Outcome
  | .value v => .value (v.relabel ρ)
  | .fault f => .fault f

/-- The closure with other locations. -/
def Closure.relabel (ρ : Relabelling) : Closure → Closure
  | .body σ x t => .body (σ.relabel ρ) x (t.relabel ρ)
  | .constant v => .constant (v.relabel ρ)
  | .natStep m => .natStep (m.relabel ρ)
  | .listStep e m => .listStep (e.relabel ρ) (m.relabel ρ)
  | .listStepTail m e => .listStepTail (m.relabel ρ) (e.relabel ρ)
  | .equalMotive t l => .equalMotive (t.relabel ρ) (l.relabel ρ)
  | .vecMotive e => .vecMotive (e.relabel ρ)
  | .vecStep e m => .vecStep (e.relabel ρ) (m.relabel ρ)
  | .vecStepHead e m k => .vecStepHead (e.relabel ρ) (m.relabel ρ) (k.relabel ρ)
  | .vecStepTail m k h => .vecStepTail (m.relabel ρ) (k.relabel ρ) (h.relabel ρ)
  | .eitherCase s m => .eitherCase s (m.relabel ρ)

/-- The elimination with other locations. -/
def Neutral.relabel (ρ : Relabelling) : Neutral → Neutral
  | .var x => .var x
  | .hole l t => .hole (ρ.map l) (t.relabel ρ)
  | .app f a => .app (f.relabel ρ) (a.relabel ρ)
  | .project k t => .project k (t.relabel ρ)
  | .recursor k t b s => .recursor k (t.relabel ρ) (b.relabel ρ) (s.relabel ρ)
  | .induct k t m b s => .induct k (t.relabel ρ) (m.relabel ρ) (b.relabel ρ) (s.relabel ρ)
  | .transport k t m b => .transport k (t.relabel ρ) (m.relabel ρ) (b.relabel ρ)
  | .indAbsurd t m => .indAbsurd (t.relabel ρ) (m.relabel ρ)
  | .transLeft l r => .transLeft (l.relabel ρ) (r.relabel ρ)
  | .transRight l r => .transRight (l.relabel ρ) (r.relabel ρ)
  | .transBoth l r => .transBoth (l.relabel ρ) (r.relabel ρ)
  | .cong t c f => .cong (t.relabel ρ) (c.relabel ρ) (f.relabel ρ)
  | .indVec l t m b s =>
    .indVec (l.relabel ρ) (t.relabel ρ) (m.relabel ρ) (b.relabel ρ) (s.relabel ρ)
  | .indVecBoth l t m b s =>
    .indVecBoth (l.relabel ρ) (t.relabel ρ) (m.relabel ρ) (b.relabel ρ) (s.relabel ρ)

/-- The value and its type with other locations. -/
def Typed.relabel (ρ : Relabelling) : Typed → Typed
  | .mk t v => .mk (t.relabel ρ) (v.relabel ρ)

/-- The environment with other locations. -/
def Env.relabel (ρ : Relabelling) : Env → Env
  | .nil => .nil
  | .cons x v σ => .cons x (v.relabel ρ) (σ.relabel ρ)

end

namespace Value

variable (ρ : Relabelling)

@[simp] theorem shape_relabel (v : Value) : (v.relabel ρ).shape = v.shape := by
  cases v <;> rfl

theorem relabel_numeral (n : Nat) : (numeral n).relabel ρ = numeral n := by
  induction n with
  | zero => rfl
  | succ n ih => exact congrArg (unary .add1) ih

end Value

/-- The demand with other locations. -/
def Demand.relabel (ρ : Relabelling) : Demand → Demand
  | eval σ t => eval (σ.relabel ρ) (t.relabel ρ)
  | apply f a => apply (f.relabel ρ) (a.relabel ρ)
  | recursor k t c b s => recursor k (t.relabel ρ) (c.relabel ρ) (b.relabel ρ) (s.relabel ρ)
  | induct k t m b s => induct k (t.relabel ρ) (m.relabel ρ) (b.relabel ρ) (s.relabel ρ)
  | indVec n t m b s =>
    indVec (n.relabel ρ) (t.relabel ρ) (m.relabel ρ) (b.relabel ρ) (s.relabel ρ)

theorem Env.lookup_relabel (ρ : Relabelling) (x : String) (σ : Env) :
    (σ.relabel ρ).lookup x = (σ.lookup x).map (Value.relabel ρ) := by
  fun_induction lookup x σ with
  | case1 => rfl
  | case2 v σ =>
    rw [relabel, lookup, if_pos rfl]
    rfl
  | case3 y v σ h ih => rw [relabel, lookup, if_neg h, ih]

/-- Evaluation of values with other locations. -/
abbrev CarriesValue (ρ : Relabelling) : Except EvalFault Value → Except EvalFault Value → Prop :=
  Carries id (Value.relabel ρ)

namespace CarriesValue

variable (ρ : Relabelling)

theorem force (v : Value) : CarriesValue ρ v.force (v.relabel ρ).force := by
  cases v with
  | delayed o =>
    obtain ⟨f⟩ := o
    change Carries _ _ (f ()).toExcept ((f ()).relabel ρ).toExcept
    cases f () <;> rfl
  | _ => rfl

theorem stuck {α β : Type} {f : α → β} (op : Operation) (v : Value) :
    Carries id f (Value.stuck op v) (Value.stuck op (v.relabel ρ)) := by
  rw [Value.stuck, Value.stuck, Value.shape_relabel]
  rfl

theorem delay (p : Place) {x x' : Unit → Except EvalFault Value}
    (h : CarriesValue ρ (x ()) (x' ())) :
    Value.delay p x' = (Value.delay p x).relabel ρ := by
  have hf : CarriesValue ρ (x () >>= Value.force) (x' () >>= Value.force) := h.bind (force ρ)
  simp only [Value.delay, Value.relabel, Outcome.relabelThunk]
  refine congrArg (fun f ↦ Value.delayed (Thunk.mk f)) (funext fun _ ↦ ?_)
  split
  · rfl
  · rw [hf]
    cases x () >>= Value.force <;> rfl

theorem listElement (v : Value) : CarriesValue ρ v.listElement (v.relabel ρ).listElement := by
  refine (force ρ v).bind fun w ↦ ?_
  cases w with
  | unary k a => cases k <;> first | rfl | exact stuck ρ _ _
  | _ => exact stuck ρ _ _

theorem equalParts (v : Value) :
    Carries id (fun p : Value × Value × Value ↦
      (p.1.relabel ρ, p.2.1.relabel ρ, p.2.2.relabel ρ)) v.equalParts (v.relabel ρ).equalParts := by
  refine (force ρ v).bind fun w ↦ ?_
  cases w with
  | equal t l r => rfl
  | _ => exact stuck ρ _ _

theorem vecParts (v : Value) :
    Carries id (fun p : Value × Value ↦ (p.1.relabel ρ, p.2.relabel ρ))
      v.vecParts (v.relabel ρ).vecParts := by
  refine (force ρ v).bind fun w ↦ ?_
  cases w with
  | binary k a b => cases k <;> first | rfl | exact stuck ρ _ _
  | _ => exact stuck ρ _ _

theorem indAbsurd (v w : Value) :
    CarriesValue ρ (v.indAbsurd w) ((v.relabel ρ).indAbsurd (w.relabel ρ)) := by
  refine (force ρ v).bind fun u ↦ ?_
  cases u with
  | neu t n => rfl
  | _ => exact stuck ρ _ _

theorem trans (v w : Value) :
    CarriesValue ρ (v.trans w) ((v.relabel ρ).trans (w.relabel ρ)) := by
  refine (force ρ v).bind fun l ↦ (force ρ w).bind fun r ↦ ?_
  cases l with
  | unary k a =>
    cases k with
    | same =>
      cases r with
      | unary k b => cases k <;> rfl
      | neu t n => exact (equalParts ρ t).bind fun _ ↦ rfl
      | _ => rfl
    | _ => rfl
  | neu t n =>
    refine (equalParts ρ t).bind fun _ ↦ ?_
    cases r with
    | unary k b => cases k <;> rfl
    | neu t' n' => exact (equalParts ρ t').bind fun _ ↦ rfl
    | _ => rfl
  | _ => rfl

end CarriesValue

/-! ## One step -/

/-- A machine that does not look at locations. -/
def Machine.Relabels (ρ : Relabelling) (m : Machine) : Prop :=
  ∀ p d, CarriesValue ρ (m p d) (m p (d.relabel ρ))

namespace Machine.Relabels

open CarriesValue

variable {ρ : Relabelling} {m : Machine} (hm : m.Relabels ρ) (p : Place)

include hm

theorem eval (σ : Env) (t : Term) :
    CarriesValue ρ (m.eval p σ t) (m.eval p (σ.relabel ρ) (t.relabel ρ)) := hm p (.eval σ t)

theorem apply (f a : Value) :
    CarriesValue ρ (m.apply p f a) (m.apply p (f.relabel ρ) (a.relabel ρ)) := hm p (.apply f a)

theorem apply₂ (f a b : Value) :
    CarriesValue ρ (m.apply₂ p f a b) (m.apply₂ p (f.relabel ρ) (a.relabel ρ) (b.relabel ρ)) :=
  (hm.apply _ f a).bind fun g ↦ hm.apply _ g b

theorem later (d : Demand) : m.later p (d.relabel ρ) = (m.later p d).relabel ρ :=
  delay ρ p (hm p d)

/-- A function at an argument that is put off. -/
theorem applyLater (q : Place) (f : Value) (d : Demand) :
    CarriesValue ρ (m.apply p f (m.later q d))
      (m.apply p (f.relabel ρ) (m.later q (d.relabel ρ))) := by
  rw [hm.later]
  exact hm.apply p f _

/-- A function at two arguments, the second of which is put off. -/
theorem applyLater₂ (q : Place) (f a : Value) (d : Demand) :
    CarriesValue ρ (m.apply₂ p f a (m.later q d))
      (m.apply₂ p (f.relabel ρ) (a.relabel ρ) (m.later q (d.relabel ρ))) :=
  (hm.apply _ f a).bind fun g ↦ hm.applyLater _ q g d

theorem enter (c : Closure) (a : Value) :
    CarriesValue ρ (m.enter p c a) (m.enter p (c.relabel ρ) (a.relabel ρ)) := by
  cases c with
  | body σ x t => exact hm.eval p (.cons x a σ) t
  | natStep mot =>
    exact (hm.apply _ mot a).bind fun _ ↦ (hm.apply _ mot (.unary .add1 a)).bind fun _ ↦ rfl
  | listStepTail mot e =>
    exact (hm.apply _ mot a).bind fun _ ↦ (hm.apply _ mot (.binary .listCons e a)).bind fun _ ↦ rfl
  | vecStepTail mot k h =>
    refine (hm.apply₂ _ mot k a).bind fun _ ↦ ?_
    exact (hm.apply₂ _ mot (.unary .add1 k) (.binary .vecCons h a)).bind fun _ ↦ rfl
  | eitherCase side mot => exact hm.apply p mot (.unary side a)
  | _ => rfl

theorem doApply (f a : Value) :
    CarriesValue ρ (m.doApply p f a) (m.doApply p (f.relabel ρ) (a.relabel ρ)) := by
  refine (force ρ f).bind fun v ↦ ?_
  cases v with
  | lam x c => exact hm.enter p c a
  | neu t n =>
    refine (force ρ t).bind fun T ↦ ?_
    cases T with
    | pi x d c => exact (hm.enter p c a).bind fun _ ↦ rfl
    | _ => exact stuck ρ _ _
  | _ => rfl

theorem doProject (k : Projection) (v : Value) :
    CarriesValue ρ (m.doProject p k v) (m.doProject p k (v.relabel ρ)) := by
  refine (force ρ v).bind fun v ↦ ?_
  cases v with
  | unary u a => cases k <;> cases u <;> rfl
  | binary c a b => cases k <;> cases c <;> first | rfl | exact force ρ _
  | neu t n =>
    cases k with
    | car =>
      refine (force ρ t).bind fun T ↦ ?_
      cases T with
      | sigma x d c => rfl
      | _ => exact stuck ρ _ _
    | cdr =>
      refine (force ρ t).bind fun T ↦ ?_
      cases T with
      | sigma x d c => exact (hm.enter p c (.neu d (.project .car n))).bind fun _ ↦ rfl
      | _ => exact stuck ρ _ _
    | symm => exact (equalParts ρ t).bind fun _ ↦ rfl
    | head => exact (vecParts ρ t).bind fun _ ↦ rfl
    | tail =>
      refine (vecParts ρ t).bind fun q ↦ (force ρ q.2).bind fun l ↦ ?_
      cases l with
      | unary u a => cases u <;> first | rfl | exact stuck ρ _ _
      | _ => exact stuck ρ _ _
  | _ => cases k <;> rfl

theorem doRecursor (k : Recursor) (t B b s : Value) :
    CarriesValue ρ (m.doRecursor p k t B b s)
      (m.doRecursor p k (t.relabel ρ) (B.relabel ρ) (b.relabel ρ) (s.relabel ρ)) := by
  refine (force ρ t).bind fun v ↦ ?_
  cases v with
  | const c => cases k <;> cases c <;> first | rfl | exact force ρ b
  | unary u n =>
    cases k <;> cases u <;> first
      | rfl
      | exact hm.apply _ s n
      | exact hm.applyLater _ _ s (.recursor _ n B b s)
      | exact hm.applyLater₂ _ _ s n (.recursor _ n B b s)
  | binary c e es =>
    cases k <;> cases c <;> first
      | rfl
      | exact (hm.apply₂ _ s e es).bind fun f ↦
        hm.applyLater _ _ f (.recursor _ es B b s)
  | neu T n =>
    cases k with
    | recList => exact (listElement ρ T).bind fun _ ↦ rfl
    | _ => rfl
  | _ => cases k <;> rfl

theorem doInduct (k : Induction) (t M b s : Value) :
    CarriesValue ρ (m.doInduct p k t M b s)
      (m.doInduct p k (t.relabel ρ) (M.relabel ρ) (b.relabel ρ) (s.relabel ρ)) := by
  refine (force ρ t).bind fun v ↦ ?_
  cases v with
  | const c => cases k <;> cases c <;> first | rfl | exact force ρ b
  | unary u n =>
    cases k <;> cases u <;> first
      | rfl
      | exact hm.apply _ b n
      | exact hm.apply _ s n
      | exact hm.applyLater₂ _ _ s n (.induct _ n M b s)
  | binary c e es =>
    cases k <;> cases c <;> first
      | rfl
      | exact (hm.apply₂ _ s e es).bind fun f ↦
        hm.applyLater _ _ f (.induct _ es M b s)
  | neu T n =>
    cases k with
    | indNat =>
      exact (hm.apply _ M (.neu T n)).bind fun _ ↦ (hm.apply _ M (.const .zero)).bind fun _ ↦ rfl
    | indList =>
      refine (listElement ρ T).bind fun _ ↦ (hm.apply _ M (.neu T n)).bind fun _ ↦ ?_
      exact (hm.apply _ M (.const .nil)).bind fun _ ↦ rfl
    | indEither =>
      refine (force ρ T).bind fun E ↦ ?_
      cases E with
      | binary c l r =>
        cases c with
        | either => exact (hm.apply _ M (.neu T n)).bind fun _ ↦ rfl
        | _ => exact stuck ρ _ _
      | _ => exact stuck ρ _ _
  | _ => cases k <;> rfl

theorem doTransport (k : Transport) (t M b : Value) :
    CarriesValue ρ (m.doTransport p k t M b)
      (m.doTransport p k (t.relabel ρ) (M.relabel ρ) (b.relabel ρ)) := by
  refine (force ρ t).bind fun v ↦ ?_
  cases v with
  | unary u a => cases k <;> cases u <;> first | rfl | exact force ρ b
  | neu T n =>
    cases k with
    | replace =>
      refine (equalParts ρ T).bind fun q ↦ ?_
      exact (hm.apply _ M q.2.2).bind fun _ ↦ (hm.apply _ M q.2.1).bind fun _ ↦ rfl
    | indEqual =>
      refine (equalParts ρ T).bind fun q ↦ (hm.apply₂ _ M q.2.2 (.neu T n)).bind fun _ ↦ ?_
      exact (hm.apply₂ _ M q.2.1 (.unary .same q.2.1)).bind fun _ ↦ rfl
  | _ => cases k <;> rfl

theorem doCong (t c f : Value) :
    CarriesValue ρ (m.doCong p t c f)
      (m.doCong p (t.relabel ρ) (c.relabel ρ) (f.relabel ρ)) := by
  refine (force ρ t).bind fun v ↦ ?_
  cases v with
  | unary u a =>
    cases u with
    | same => exact (hm.apply p f a).bind fun _ ↦ rfl
    | _ => rfl
  | neu T n =>
    refine (equalParts ρ T).bind fun q ↦ ?_
    exact (hm.apply _ f q.2.1).bind fun _ ↦ (hm.apply _ f q.2.2).bind fun _ ↦ rfl
  | _ => rfl

theorem doIndVec (l t M b s : Value) :
    CarriesValue ρ (m.doIndVec p l t M b s)
      (m.doIndVec p (l.relabel ρ) (t.relabel ρ) (M.relabel ρ) (b.relabel ρ) (s.relabel ρ)) := by
  refine (force ρ l).bind fun l ↦ (force ρ t).bind fun v ↦ ?_
  cases v with
  | const c => cases c <;> first | rfl | exact force ρ b
  | binary c h es =>
    cases c with
    | vecCons =>
      cases l with
      | unary u k =>
        cases u with
        | add1 =>
          exact (hm.apply₂ _ s k h).bind fun f ↦ hm.applyLater₂ _ _ f es (.indVec k es M b s)
        | _ => rfl
      | _ => rfl
    | _ => rfl
  | neu T n =>
    refine (vecParts ρ T).bind fun q ↦ ?_
    refine (hm.apply₂ _ M (.const .zero) (.const .vecnil)).bind fun _ ↦ ?_
    refine (hm.apply₂ _ M l (.neu T n)).bind fun _ ↦ ?_
    cases l <;> rfl
  | _ => rfl

theorem evalStep (σ : Env) (t : Term) :
    CarriesValue ρ (m.evalStep p σ t) (m.evalStep p (σ.relabel ρ) (t.relabel ρ)) := by
  have now (i : Nat) (e : Term) := hm.eval (p.part i) σ e
  have later (i : Nat) (e : Term) :
      m.later (p.part i) (.eval (σ.relabel ρ) (e.relabel ρ)) =
        (m.later (p.part i) (.eval σ e)).relabel ρ := hm.later (p.part i) (.eval σ e)
  cases t with
  | missing | quote | lam | const => rfl
  | numeral n => exact congrArg Except.ok (Value.relabel_numeral ρ n).symm
  | var x =>
    simp only [Machine.evalStep, Term.relabel, Env.lookup_relabel]
    cases σ.lookup x <;> rfl
  | the t e => exact now 0 e
  | hole | pi | sigma | unary | binary | equal =>
    simp only [Machine.evalStep, Term.relabel, later]
    rfl
  | app f a =>
    refine (now 0 f).bind fun g ↦ ?_
    simp only [later]
    exact hm.apply _ g _
  | project k t => exact (now 0 t).bind fun v ↦ hm.doProject _ k v
  | recursor k t B b s =>
    refine (now 0 t).bind fun v ↦ ?_
    simp only [later]
    exact hm.doRecursor _ k v _ _ _
  | induct k t M b s =>
    refine (now 0 t).bind fun v ↦ ?_
    simp only [later]
    exact hm.doInduct _ k v _ _ _
  | transport k t M b =>
    refine (now 0 t).bind fun v ↦ ?_
    simp only [later]
    exact hm.doTransport _ k v _ _
  | indAbsurd t M =>
    refine (now 0 t).bind fun v ↦ ?_
    simp only [later]
    exact CarriesValue.indAbsurd ρ v _
  | trans l r => exact (now 0 l).bind fun v ↦ (now 1 r).bind fun w ↦ CarriesValue.trans ρ v w
  | cong t c f =>
    refine (now 0 t).bind fun v ↦ ?_
    simp only [later]
    exact hm.doCong _ v _ _
  | indVec n t M b s =>
    refine (now 0 n).bind fun l ↦ (now 1 t).bind fun v ↦ ?_
    simp only [later]
    exact hm.doIndVec _ l v _ _ _

theorem step : m.step.Relabels ρ := by
  intro p d
  cases d with
  | eval σ t => exact hm.evalStep p σ t
  | apply f a => exact hm.doApply p f a
  | recursor k t B b s => exact hm.doRecursor p k t B b s
  | induct k t M b s => exact hm.doInduct p k t M b s
  | indVec l t M b s => exact hm.doIndVec p l t M b s

end Machine.Relabels

/-- With any amount of fuel, evaluation does not look at locations. -/
theorem machine_relabels (ρ : Relabelling) (fuel : Nat) : (machine fuel).Relabels ρ := by
  induction fuel with
  | zero => exact fun _ _ ↦ rfl
  | succ fuel ih => exact ih.step

end LittleTypes
