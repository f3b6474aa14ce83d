import LittleTypes.Context.Listing
import LittleTypes.Proofs.Relabel.Machine

/-!
# Normal forms with other locations

Reading back never looks at a location either, and chooses names without one: the normal form of a
value with other locations is its normal form with other locations.
-/

namespace LittleTypes

/-- The binding with other locations. -/
def Binding.relabel (ρ : Relabelling) : Binding → Binding
  | free t => free (t.relabel ρ)
  | claim t => claim (t.relabel ρ)
  | defn t v => defn (t.relabel ρ) (v.relabel ρ)

namespace Context

/-- The context with other locations. -/
def relabel (ρ : Relabelling) (Γ : Context) : Context := Γ.map fun b ↦ (b.1, b.2.relabel ρ)

variable (ρ : Relabelling)

@[simp] theorem relabel_nil : relabel ρ [] = [] := rfl

@[simp] theorem relabel_cons (x : String) (b : Binding) (Γ : Context) :
    relabel ρ ((x, b) :: Γ) = (x, b.relabel ρ) :: Γ.relabel ρ := rfl

@[simp] theorem names_relabel (Γ : Context) : (Γ.relabel ρ).names = Γ.names := by
  simp [relabel, names]

@[simp] theorem fresh_relabel (Γ : Context) (hint : String) :
    (Γ.relabel ρ).fresh hint = Γ.fresh hint := by
  rw [fresh, fresh, names_relabel]

@[simp] theorem freshBinder_relabel (Γ : Context) (t : Term) (hint : String) :
    (Γ.relabel ρ).freshBinder (t.relabel ρ) hint = Γ.freshBinder t hint := by
  rw [freshBinder, freshBinder, names_relabel, Term.names_relabel]

theorem binding?_relabel (Γ : Context) (x : String) :
    (Γ.relabel ρ).binding? x = (Γ.binding? x).map (Binding.relabel ρ) := by
  induction Γ with
  | nil => rfl
  | cons b Γ ih =>
    obtain ⟨y, b⟩ := b
    rw [binding?, binding?] at ih
    rw [relabel_cons, binding?, binding?, List.lookup_cons, List.lookup_cons]
    cases x == y
    · exact ih
    · rfl

@[simp] theorem binds_relabel (Γ : Context) (x : String) : (Γ.relabel ρ).binds x = Γ.binds x := by
  rw [binds, binds, binding?_relabel, Option.isSome_map]

theorem typeOf?_relabel (Γ : Context) (x : String) :
    (Γ.relabel ρ).typeOf? x = (Γ.typeOf? x).map (Value.relabel ρ) := by
  induction Γ with
  | nil => rfl
  | cons b Γ ih =>
    obtain ⟨y, b⟩ := b
    cases b with
    | claim t => exact ih
    | free t | defn t v =>
      simp only [relabel_cons, Binding.relabel, typeOf?, ih]
      split <;> rfl

theorem env_relabel (Γ : Context) : (Γ.relabel ρ).env = Γ.env.relabel ρ := by
  induction Γ with
  | nil => rfl
  | cons b Γ ih =>
    obtain ⟨y, b⟩ := b
    cases b with
    | claim t => exact ih
    | free t | defn t v =>
      simp only [relabel_cons, Binding.relabel, env, ih]
      rfl

/-- A name is bound already, or not, wherever it stands. -/
theorem bindFree_relabel (Γ : Context) (x : String) (t : Value) :
    Carries id (relabel ρ) (Γ.bindFree x t) ((Γ.relabel ρ).bindFree x (t.relabel ρ)) := by
  rw [bindFree, bindFree, binds_relabel]
  split <;> rfl

end Context

/-- What is read back, with other locations. -/
def Reading.relabel (ρ : Relabelling) : Reading → Reading
  | value t v => value (t.relabel ρ) (v.relabel ρ)
  | type v => type (v.relabel ρ)
  | neutral n => neutral (n.relabel ρ)

/-- Reading back terms with other locations. -/
abbrev CarriesTerm (ρ : Relabelling) : Except Fault Term → Except Fault Term → Prop :=
  Carries id (Term.relabel ρ)

/-- What evaluation answers, as a part of something else. -/
theorem Carries.lift {α β : Type} {f : α → β} {x : Except EvalFault α} {y : Except EvalFault β}
    (h : Carries id f x y) : Carries (ε := Fault) id f (liftM x) (liftM y) := by
  cases h
  cases x <;> rfl

/-! ## One step -/

/-- A reader that does not look at locations. -/
def Reader.Relabels (ρ : Relabelling) (read : Reader) : Prop :=
  ∀ Γ r, CarriesTerm ρ (read Γ r) (read (Γ.relabel ρ) (r.relabel ρ))

namespace Reader.Relabels

variable {ρ : Relabelling} {m : Machine} {read : Reader} (h : read.Relabels ρ) (Γ : Context)

include h

theorem value (t v : Value) :
    CarriesTerm ρ (read Γ (.value t v)) (read (Γ.relabel ρ) (.value (t.relabel ρ) (v.relabel ρ))) :=
  h Γ (.value t v)

theorem type (v : Value) :
    CarriesTerm ρ (read Γ (.type v)) (read (Γ.relabel ρ) (.type (v.relabel ρ))) := h Γ (.type v)

theorem neutral (n : Neutral) :
    CarriesTerm ρ (read Γ (.neutral n)) (read (Γ.relabel ρ) (.neutral (n.relabel ρ))) :=
  h Γ (.neutral n)

theorem typed (a : Typed) :
    CarriesTerm ρ (read.typed Γ a) (read.typed (Γ.relabel ρ) (a.relabel ρ)) := by
  cases a
  exact h.value Γ _ _

theorem typeOfTyped (a : Typed) :
    CarriesTerm ρ (read.typeOfTyped Γ a) (read.typeOfTyped (Γ.relabel ρ) (a.relabel ρ)) := by
  cases a
  exact h.type Γ _

theorem typedType (a : Typed) :
    CarriesTerm ρ (read.typedType Γ a) (read.typedType (Γ.relabel ρ) (a.relabel ρ)) := by
  cases a
  exact h.type Γ _

theorem neutralStep (n : Neutral) :
    CarriesTerm ρ (read.neutralStep Γ n) (read.neutralStep (Γ.relabel ρ) (n.relabel ρ)) := by
  cases n with
  | var x => rfl
  | hole l t => exact (h.type Γ t).bind fun _ ↦ rfl
  | app f a => exact (h.neutral Γ f).bind fun _ ↦ (h.typed Γ a).bind fun _ ↦ rfl
  | project k t => exact (h.neutral Γ t).bind fun _ ↦ rfl
  | recursor k t b s =>
    refine (h.neutral Γ t).bind fun _ ↦ (h.typeOfTyped Γ b).bind fun _ ↦ ?_
    exact (h.typed Γ b).bind fun _ ↦ (h.typed Γ s).bind fun _ ↦ rfl
  | induct k t mot b s =>
    refine (h.neutral Γ t).bind fun _ ↦ (h.typed Γ mot).bind fun _ ↦ ?_
    exact (h.typed Γ b).bind fun _ ↦ (h.typed Γ s).bind fun _ ↦ rfl
  | transport k t mot b =>
    refine (h.neutral Γ t).bind fun _ ↦ (h.typed Γ mot).bind fun _ ↦ ?_
    exact (h.typed Γ b).bind fun _ ↦ rfl
  | indAbsurd t mot => exact (h.neutral Γ t).bind fun _ ↦ (h.typedType Γ mot).bind fun _ ↦ rfl
  | transLeft l r => exact (h.neutral Γ l).bind fun _ ↦ (h.typed Γ r).bind fun _ ↦ rfl
  | transRight l r => exact (h.typed Γ l).bind fun _ ↦ (h.neutral Γ r).bind fun _ ↦ rfl
  | transBoth l r => exact (h.neutral Γ l).bind fun _ ↦ (h.neutral Γ r).bind fun _ ↦ rfl
  | cong t c f =>
    refine (h.neutral Γ t).bind fun _ ↦ (h.type Γ c).bind fun _ ↦ ?_
    exact (h.typed Γ f).bind fun _ ↦ rfl
  | indVec l t mot b s =>
    refine (h.typed Γ l).bind fun _ ↦ (h.neutral Γ t).bind fun _ ↦ (h.typed Γ mot).bind fun _ ↦ ?_
    exact (h.typed Γ b).bind fun _ ↦ (h.typed Γ s).bind fun _ ↦ rfl
  | indVecBoth l t mot b s =>
    refine (h.neutral Γ l).bind fun _ ↦ (h.neutral Γ t).bind fun _ ↦ (h.typed Γ mot).bind fun _ ↦ ?_
    exact (h.typed Γ b).bind fun _ ↦ (h.typed Γ s).bind fun _ ↦ rfl

variable (hm : m.Relabels ρ)

include hm

/-- A family of types under a new name. -/
theorem family (hint : String) (d : Value) (c : Closure) {k : Term → Except Fault Term}
    {k' : Term → Except Fault Term} (hk : ∀ b, CarriesTerm ρ (k b) (k' (b.relabel ρ))) :
    CarriesTerm ρ
      (Γ.bindFree (Γ.fresh hint) d >>= fun Δ ↦
        (liftM (m.enter .passing c (.ofVar (Γ.fresh hint) d)) : Except Fault Value) >>= fun v ↦
          read Δ (.type v) >>= k)
      ((Γ.relabel ρ).bindFree ((Γ.relabel ρ).fresh hint) (d.relabel ρ) >>= fun Δ ↦
        (liftM (m.enter .passing (c.relabel ρ) (.ofVar ((Γ.relabel ρ).fresh hint) (d.relabel ρ))) :
          Except Fault Value) >>= fun v ↦ read Δ (.type v) >>= k') := by
  rw [Context.fresh_relabel]
  refine (Γ.bindFree_relabel ρ _ d).bind fun Δ ↦ ?_
  exact (hm.enter _ c (.ofVar _ d)).lift.bind fun v ↦ (h.type Δ v).bind hk

theorem typeStep (v : Value) :
    CarriesTerm ρ (read.typeStep m Γ v) (read.typeStep m (Γ.relabel ρ) (v.relabel ρ)) := by
  refine (CarriesValue.force ρ v).lift.bind fun w ↦ ?_
  cases w with
  | const k => cases k <;> rfl
  | pi x d c =>
    refine (h.type Γ d).bind fun d' ↦ h.family Γ hm x d c fun b ↦ ?_
    rw [Context.fresh_relabel]
    rfl
  | sigma x d c =>
    refine (h.type Γ d).bind fun d' ↦ h.family Γ hm x d c fun b ↦ ?_
    rw [Context.fresh_relabel]
    rfl
  | equal t l r =>
    refine (h.type Γ t).bind fun _ ↦ (h.value Γ t l).bind fun _ ↦ ?_
    exact (h.value Γ t r).bind fun _ ↦ rfl
  | unary k a =>
    cases k with
    | list => exact (h.type Γ a).bind fun _ ↦ rfl
    | _ => rfl
  | binary k a b =>
    cases k with
    | vec => exact (h.type Γ a).bind fun _ ↦ (h.value Γ (.const .nat) b).bind fun _ ↦ rfl
    | either => exact (h.type Γ a).bind fun _ ↦ (h.type Γ b).bind fun _ ↦ rfl
    | _ => rfl
  | neu t n => exact h.neutral Γ n
  | _ => rfl

omit hm in
theorem neutralAt (t v : Value) :
    CarriesTerm ρ (read.neutralAt Γ t v)
      (read.neutralAt (Γ.relabel ρ) (t.relabel ρ) (v.relabel ρ)) := by
  cases v with
  | neu T n => exact h.neutral Γ n
  | _ =>
    simp only [Reader.neutralAt, Value.relabel, Value.shape_relabel]
    rfl

/-- A function is read back at an unknown argument with a new name. -/
theorem function (hint : String) (d : Value) (c : Closure) (v : Value) :
    CarriesTerm ρ
      (Γ.bindFree (Γ.fresh hint) d >>= fun Δ ↦
        (liftM (m.enter .passing c (.ofVar (Γ.fresh hint) d)) : Except Fault Value) >>= fun C ↦
          (liftM (m.apply .passing v (.ofVar (Γ.fresh hint) d)) : Except Fault Value) >>= fun b ↦
            read Δ (.value C b) >>= fun t ↦ pure (.lam (Γ.fresh hint) t))
      ((Γ.relabel ρ).bindFree ((Γ.relabel ρ).fresh hint) (d.relabel ρ) >>= fun Δ ↦
        (liftM (m.enter .passing (c.relabel ρ) (.ofVar ((Γ.relabel ρ).fresh hint) (d.relabel ρ))) :
          Except Fault Value) >>= fun C ↦
          (liftM (m.apply .passing (v.relabel ρ)
            (.ofVar ((Γ.relabel ρ).fresh hint) (d.relabel ρ))) : Except Fault Value) >>= fun b ↦
            read Δ (.value C b) >>= fun t ↦ pure (.lam ((Γ.relabel ρ).fresh hint) t)) := by
  rw [Context.fresh_relabel]
  refine (Γ.bindFree_relabel ρ _ d).bind fun Δ ↦ (hm.enter _ c (.ofVar _ d)).lift.bind fun C ↦ ?_
  exact (hm.apply _ v (.ofVar _ d)).lift.bind fun b ↦ (h.value Δ C b).bind fun _ ↦ rfl

theorem valueStep (t v : Value) :
    CarriesTerm ρ (read.valueStep m Γ t v)
      (read.valueStep m (Γ.relabel ρ) (t.relabel ρ) (v.relabel ρ)) := by
  refine (CarriesValue.force ρ t).lift.bind fun t ↦ (CarriesValue.force ρ v).lift.bind fun v ↦ ?_
  have hn := h.neutralAt Γ t v
  cases t with
  | const k =>
    cases k with
    | univ => exact h.type Γ v
    | trivial => rfl
    | nat =>
      cases v with
      | const c => cases c <;> rfl
      | unary u n =>
        cases u with
        | add1 => exact (h.value Γ (.const .nat) n).bind fun _ ↦ rfl
        | _ => exact hn
      | _ => exact hn
    | atom =>
      cases v with
      | quote s => rfl
      | _ => exact hn
    | absurd =>
      cases v with
      | neu T n => exact (h.neutral Γ n).bind fun _ ↦ rfl
      | _ => exact hn
    | _ => exact hn
  | pi x d c =>
    cases v with
    | lam z b => exact h.function Γ hm z d c (.lam z b)
    | _ => exact h.function Γ hm x d c _
  | sigma x d c =>
    refine (hm.doProject _ .car v).lift.bind fun a ↦ (h.value Γ d a).bind fun _ ↦ ?_
    refine (hm.enter _ c a).lift.bind fun D ↦ (hm.doProject _ .cdr v).lift.bind fun b ↦ ?_
    exact (h.value Γ D b).bind fun _ ↦ rfl
  | equal T l r =>
    cases v with
    | unary u a =>
      cases u with
      | same => exact (h.value Γ T a).bind fun _ ↦ rfl
      | _ => exact hn
    | _ => exact hn
  | unary k E =>
    cases k with
    | list =>
      cases v with
      | const c => cases c <;> rfl
      | binary c e es =>
        cases c with
        | listCons =>
          exact (h.value Γ E e).bind fun _ ↦ (h.value Γ (.unary .list E) es).bind fun _ ↦ rfl
        | _ => exact hn
      | _ => exact hn
    | _ => exact hn
  | binary k E l =>
    cases k with
    | vec =>
      cases v with
      | const c => cases c <;> rfl
      | binary c e es =>
        cases c with
        | vecCons =>
          refine (CarriesValue.force ρ l).lift.bind fun l ↦ ?_
          cases l with
          | unary u k =>
            cases u with
            | add1 =>
              refine (h.value Γ E e).bind fun _ ↦ ?_
              exact (h.value Γ (.binary .vec E k) es).bind fun _ ↦ rfl
            | _ => rfl
          | _ => rfl
        | _ => exact hn
      | _ => exact hn
    | either =>
      cases v with
      | unary u a =>
        cases u with
        | left => exact (h.value Γ E a).bind fun _ ↦ rfl
        | right => exact (h.value Γ l a).bind fun _ ↦ rfl
        | _ => exact hn
      | _ => exact hn
    | _ => exact hn
  | _ => exact hn

theorem step : Reader.Relabels ρ fun Γ ↦ read.step m Γ := by
  intro Γ r
  cases r with
  | value t v => exact h.valueStep Γ hm t v
  | type v => exact h.typeStep Γ hm v
  | neutral n => exact h.neutralStep Γ n

end Reader.Relabels

/-- With any amount of fuel, reading back does not look at locations. -/
theorem reader_relabels (ρ : Relabelling) (fuel : Nat) : (reader fuel).Relabels ρ := by
  induction fuel with
  | zero => exact fun _ _ ↦ rfl
  | succ fuel ih => exact ih.step (machine_relabels ρ fuel)

end LittleTypes
