import LittleTypes.Proofs.Match.Machine
import LittleTypes.Proofs.Name.Fresh
import LittleTypes.Context.ReadBack

/-!
# Reading back takes what matches to what matches

The names that are made up on the way need not be the same on both sides, but they are new in both
contexts, so that they can be paired with each other.
-/

namespace LittleTypes

/-- Only names that are bound correspond. -/
def Pairing.Within (N : Pairing) (Γ Γ' : Context) : Prop :=
  ∀ a b, N a b → a ∈ Γ.names ∧ b ∈ Γ'.names

namespace Pairing.Within

variable {N : Pairing} {Γ Γ' : Context} {x y : String}

/-- New names correspond to nothing yet. -/
theorem le_bind (h : N.Within Γ Γ') (hx : x ∉ Γ.names) (hy : y ∉ Γ'.names) (a b : String)
    (hab : N a b) : N.bind x y a b := by
  refine Pairing.le_bind (fun a b hab ↦ ⟨?_, ?_⟩) hab
  · rintro rfl
    exact hx (h a b hab).1
  · rintro rfl
    exact hy (h a b hab).2

/-- Names that are bound on both sides may correspond. -/
theorem cons (h : N.Within Γ Γ') (β β' : Binding) :
    (N.bind x y).Within ((x, β) :: Γ) ((y, β') :: Γ') := by
  rintro a b (⟨rfl, rfl⟩ | ⟨-, -, hab⟩)
  · exact ⟨List.mem_cons_self, List.mem_cons_self⟩
  · exact ⟨List.mem_cons_of_mem _ (h a b hab).1, List.mem_cons_of_mem _ (h a b hab).2⟩

end Pairing.Within

/-- What is read back matches. -/
inductive Reading.Matches (N : Pairing) : Reading → Reading → Prop
  | value {t t' v v' : Value} : t.Matches N t' → v.Matches N v' →
    Matches N (value t v) (value t' v')
  | type {v v' : Value} : v.Matches N v' → Matches N (type v) (type v')
  | neutral {n n' : Neutral} : Piece.Matches N (.neutral n) (.neutral n') →
    Matches N (neutral n) (neutral n')

/-- Answers of a reader that match. -/
abbrev AgreeTerm (N : Pairing) : Except Fault Term → Except Fault Term → Prop :=
  Agree (Term.Matches N)

/-- What matches is read back as terms that match. -/
def Reader.Matched (read : Reader) : Prop :=
  ∀ N Γ Γ' r r', N.Within Γ Γ' → Reading.Matches N r r' → AgreeTerm N (read Γ r) (read Γ' r')

namespace Agree

variable {α β γ δ : Type} {R : α → β → Prop} {S : γ → δ → Prop}

/-- What evaluation answers, as a part of something else. -/
theorem lift {x : Except EvalFault α} {y : Except EvalFault β} (h : Agree R x y) :
    Agree (ε := Fault) R (liftM x) (liftM y) := h.mapError Fault.eval

/-- New names can be bound on both sides. -/
theorem bindFree {Γ Γ' : Context} {x y : String} {t t' : Value} {f : Context → Except Fault γ}
    {g : Context → Except Fault δ} (hx : x ∉ Γ.names) (hy : y ∉ Γ'.names)
    (h : Agree S (f ((x, .free t) :: Γ)) (g ((y, .free t') :: Γ'))) :
    Agree S (Γ.bindFree x t >>= f) (Γ'.bindFree y t' >>= g) := by
  rw [Context.bindFree_eq_ok hx, Context.bindFree_eq_ok hy]
  exact h

end Agree

/-- A new unknown value on each side. -/
theorem Piece.Matches.ofVar {N : Pairing} {x y : String} {t t' : Value}
    (ht : t.Matches (N.bind x y) t') : (Value.ofVar x t).Matches (N.bind x y) (.ofVar y t') :=
  .neu ht (.var Pairing.bind_self)

/-! ## One step -/

namespace Reader.Matched

variable {m : Machine} {read : Reader} (hread : read.Matched) {N : Pairing} {Γ Γ' : Context}
  (hΓ : N.Within Γ Γ')

include hread hΓ

theorem value {t t' v v' : Value} (ht : t.Matches N t') (hv : v.Matches N v') :
    AgreeTerm N (read Γ (.value t v)) (read Γ' (.value t' v')) :=
  hread N Γ Γ' _ _ hΓ (.value ht hv)

theorem type {v v' : Value} (hv : v.Matches N v') :
    AgreeTerm N (read Γ (.type v)) (read Γ' (.type v')) :=
  hread N Γ Γ' _ _ hΓ (.type hv)

theorem neutral {n n' : Neutral} (hn : Piece.Matches N (.neutral n) (.neutral n')) :
    AgreeTerm N (read Γ (.neutral n)) (read Γ' (.neutral n')) :=
  hread N Γ Γ' _ _ hΓ (.neutral hn)

section Typed

variable {a a' : Typed} (ha : Piece.Matches N (.typed a) (.typed a'))

include ha

theorem typed : AgreeTerm N (read.typed Γ a) (read.typed Γ' a') := by
  cases ha with
  | typed ht hv => exact hread.value hΓ ht hv

theorem typeOfTyped : AgreeTerm N (read.typeOfTyped Γ a) (read.typeOfTyped Γ' a') := by
  cases ha with
  | typed ht hv => exact hread.type hΓ ht

theorem typedType : AgreeTerm N (read.typedType Γ a) (read.typedType Γ' a') := by
  cases ha with
  | typed ht hv => exact hread.type hΓ hv

end Typed

theorem neutralStep {n n' : Neutral} (hn : Piece.Matches N (.neutral n) (.neutral n')) :
    AgreeTerm N (read.neutralStep Γ n) (read.neutralStep Γ' n') := by
  cases hn with
  | var h => exact .ok (.var h)
  | hole ht => exact (hread.type hΓ ht).bind fun _ _ h ↦ .ok (.hole h)
  | app hf ha =>
    exact (hread.neutral hΓ hf).bind fun _ _ hf' ↦ (hread.typed hΓ ha).bind fun _ _ ha' ↦
      .ok (.app hf' ha')
  | project ht => exact (hread.neutral hΓ ht).bind fun _ _ h ↦ .ok (.project h)
  | recursor ht hb hs =>
    refine (hread.neutral hΓ ht).bind fun _ _ ht' ↦ (hread.typeOfTyped hΓ hb).bind fun _ _ hB ↦ ?_
    refine (hread.typed hΓ hb).bind fun _ _ hb' ↦ (hread.typed hΓ hs).bind fun _ _ hs' ↦ ?_
    exact .ok (.recursor ht' hB hb' hs')
  | induct ht hm hb hs =>
    refine (hread.neutral hΓ ht).bind fun _ _ ht' ↦ (hread.typed hΓ hm).bind fun _ _ hm' ↦ ?_
    refine (hread.typed hΓ hb).bind fun _ _ hb' ↦ (hread.typed hΓ hs).bind fun _ _ hs' ↦ ?_
    exact .ok (.induct ht' hm' hb' hs')
  | transport ht hm hb =>
    refine (hread.neutral hΓ ht).bind fun _ _ ht' ↦ (hread.typed hΓ hm).bind fun _ _ hm' ↦ ?_
    exact (hread.typed hΓ hb).bind fun _ _ hb' ↦ .ok (.transport ht' hm' hb')
  | indAbsurd ht hm =>
    refine (hread.neutral hΓ ht).bind fun _ _ ht' ↦ (hread.typedType hΓ hm).bind fun _ _ hm' ↦ ?_
    exact .ok (.indAbsurd (.the (.const _) ht') hm')
  | transLeft hl hr =>
    exact (hread.neutral hΓ hl).bind fun _ _ hl' ↦ (hread.typed hΓ hr).bind fun _ _ hr' ↦
      .ok (.trans hl' hr')
  | transRight hl hr =>
    exact (hread.typed hΓ hl).bind fun _ _ hl' ↦ (hread.neutral hΓ hr).bind fun _ _ hr' ↦
      .ok (.trans hl' hr')
  | transBoth hl hr =>
    exact (hread.neutral hΓ hl).bind fun _ _ hl' ↦ (hread.neutral hΓ hr).bind fun _ _ hr' ↦
      .ok (.trans hl' hr')
  | cong ht hc hf =>
    refine (hread.neutral hΓ ht).bind fun _ _ ht' ↦ (hread.type hΓ hc).bind fun _ _ hc' ↦ ?_
    exact (hread.typed hΓ hf).bind fun _ _ hf' ↦ .ok (.cong ht' hc' hf')
  | indVec hl ht hm hb hs =>
    refine (hread.typed hΓ hl).bind fun _ _ hl' ↦ (hread.neutral hΓ ht).bind fun _ _ ht' ↦ ?_
    refine (hread.typed hΓ hm).bind fun _ _ hm' ↦ (hread.typed hΓ hb).bind fun _ _ hb' ↦ ?_
    exact (hread.typed hΓ hs).bind fun _ _ hs' ↦ .ok (.indVec hl' ht' hm' hb' hs')
  | indVecBoth hl ht hm hb hs =>
    refine (hread.neutral hΓ hl).bind fun _ _ hl' ↦ (hread.neutral hΓ ht).bind fun _ _ ht' ↦ ?_
    refine (hread.typed hΓ hm).bind fun _ _ hm' ↦ (hread.typed hΓ hb).bind fun _ _ hb' ↦ ?_
    exact (hread.typed hΓ hs).bind fun _ _ hs' ↦ .ok (.indVec hl' ht' hm' hb' hs')

section Machine

variable (hm : m.Matched)

include hm

/-- The type of the second part of a function or pair type, at a new name. -/
theorem codomain {x y : String} {d d' : Value} {c c' : Closure} (hx : x ∉ Γ.names)
    (hy : y ∉ Γ'.names) (hd : d.Matches N d') (hc : c.Matches N c') {S : Term → Term → Prop}
    {f g : Term → Except Fault Term} (h : ∀ b b', b.Matches (N.bind x y) b' → Agree S (f b) (g b')) :
    Agree S
      (Γ.bindFree x d >>= fun Δ ↦ (liftM (m.enter .passing c (.ofVar x d)) : Except Fault Value) >>=
        fun v ↦ read Δ (.type v) >>= f)
      (Γ'.bindFree y d' >>= fun Δ ↦
        (liftM (m.enter .passing c' (.ofVar y d')) : Except Fault Value) >>=
        fun v ↦ read Δ (.type v) >>= g) := by
  have hle := hΓ.le_bind hx hy
  refine Agree.bindFree hx hy ?_
  refine (hm.enter _ (hc.mono hle) (.ofVar (hd.mono hle))).lift.bind fun v v' hv ↦ ?_
  exact (hread.type (hΓ.cons _ _) hv).bind h

theorem typeStep {v v' : Value} (hv : v.Matches N v') :
    AgreeTerm N (read.typeStep m Γ v) (read.typeStep m Γ' v') := by
  refine hv.force.lift.bind fun w w' hw ↦ ?_
  have hnot : AgreeTerm N (throw (.notType w.shape)) (throw (.notType w'.shape)) := by
    rw [hw.shape_eq]
    exact .error _
  cases hw with
  | const k => cases k <;> first | exact hnot | exact .ok (.const _)
  | @unary k _ _ ha =>
    cases k <;> first | exact hnot | exact (hread.type hΓ ha).bind fun _ _ h ↦ .ok (.unary h)
  | @binary k _ _ _ _ ha hb =>
    cases k with
    | vec =>
      exact (hread.type hΓ ha).bind fun _ _ ha' ↦
        (hread.value hΓ (.const _) hb).bind fun _ _ hb' ↦ .ok (.binary ha' hb')
    | either =>
      exact (hread.type hΓ ha).bind fun _ _ ha' ↦ (hread.type hΓ hb).bind fun _ _ hb' ↦
        .ok (.binary ha' hb')
    | _ => exact hnot
  | equal ht hl hr =>
    refine (hread.type hΓ ht).bind fun _ _ ht' ↦ (hread.value hΓ ht hl).bind fun _ _ hl' ↦ ?_
    exact (hread.value hΓ ht hr).bind fun _ _ hr' ↦ .ok (.equal ht' hl' hr')
  | pi hd hc =>
    refine (hread.type hΓ hd).bind fun _ _ hd' ↦ ?_
    exact hread.codomain hΓ hm (Γ.fresh_not_mem _) (Γ'.fresh_not_mem _) hd hc fun _ _ hb ↦
      .ok (.pi hd' hb)
  | sigma hd hc =>
    refine (hread.type hΓ hd).bind fun _ _ hd' ↦ ?_
    exact hread.codomain hΓ hm (Γ.fresh_not_mem _) (Γ'.fresh_not_mem _) hd hc fun _ _ hb ↦
      .ok (.sigma hd' hb)
  | neu _ hn => exact hread.neutral hΓ hn
  | _ => exact hnot

omit hm in
theorem neutralAt {t t' v v' : Value} (ht : t.Matches N t') (hv : v.Matches N v') :
    AgreeTerm N (read.neutralAt Γ t v) (read.neutralAt Γ' t' v') := by
  have hnot : AgreeTerm N (throw (.unreadable v.shape t.shape))
      (throw (.unreadable v'.shape t'.shape)) := by
    rw [hv.shape_eq, ht.shape_eq]
    exact .error _
  cases hv with
  | neu _ hn => exact hread.neutral hΓ hn
  | _ => exact hnot

/-- A function at a new name. -/
theorem function {x y : String} {d d' v v' : Value} {c c' : Closure} (hx : x ∉ Γ.names)
    (hy : y ∉ Γ'.names) (hd : d.Matches N d') (hc : c.Matches N c') (hv : v.Matches N v') :
    AgreeTerm N
      (do
        let Δ ← Γ.bindFree x d
        let cod ← (liftM (m.enter .passing c (.ofVar x d)) : Except Fault Value)
        let body ← (liftM (m.apply .passing v (.ofVar x d)) : Except Fault Value)
        pure (.lam x (← read Δ (.value cod body))))
      (do
        let Δ ← Γ'.bindFree y d'
        let cod ← (liftM (m.enter .passing c' (.ofVar y d')) : Except Fault Value)
        let body ← (liftM (m.apply .passing v' (.ofVar y d')) : Except Fault Value)
        pure (.lam y (← read Δ (.value cod body)))) := by
  have hle := hΓ.le_bind hx hy
  have hvar := Piece.Matches.ofVar (hd.mono hle)
  refine Agree.bindFree hx hy ?_
  refine (hm.enter _ (hc.mono hle) hvar).lift.bind fun _ _ hcod ↦ ?_
  refine (hm.apply _ (hv.mono hle) hvar).lift.bind fun _ _ hbody ↦ ?_
  exact (hread.value (hΓ.cons _ _) hcod hbody).bind fun _ _ hb ↦ .ok (.lam hb)

theorem valueStep {t t' v v' : Value} (ht : t.Matches N t') (hv : v.Matches N v') :
    AgreeTerm N (read.valueStep m Γ t v) (read.valueStep m Γ' t' v') := by
  refine ht.force.lift.bind fun t t' ht ↦ hv.force.lift.bind fun v v' hv ↦ ?_
  have hn := hread.neutralAt hΓ ht hv
  cases ht with
  | const k =>
    cases k with
    | univ => exact hread.type hΓ hv
    | nat =>
      cases hv with
      | const k => cases k <;> first | exact hn | exact .ok (.const _)
      | @unary k _ _ ha =>
        cases k <;> first
          | exact hn
          | exact (hread.value hΓ (.const _) ha).bind fun _ _ h ↦ .ok (.unary h)
      | _ => exact hn
    | atom =>
      cases hv with
      | quote s => exact .ok (.quote s)
      | _ => exact hn
    | trivial => exact .ok (.const _)
    | absurd =>
      cases hv with
      | neu _ he => exact (hread.neutral hΓ he).bind fun _ _ h ↦ .ok (.the (.const _) h)
      | _ => exact hn
    | _ => exact hn
  | pi hd hc => exact hread.function hΓ hm (Γ.fresh_not_mem _) (Γ'.fresh_not_mem _) hd hc hv
  | sigma hd hc =>
    refine (hm.doProject _ .car hv).lift.bind fun _ _ ha ↦ ?_
    refine (hread.value hΓ hd ha).bind fun _ _ ha' ↦ ?_
    refine (hm.enter _ hc ha).lift.bind fun _ _ hs ↦ ?_
    refine (hm.doProject _ .cdr hv).lift.bind fun _ _ he ↦ ?_
    exact (hread.value hΓ hs he).bind fun _ _ he' ↦ .ok (.binary ha' he')
  | equal ht _ _ =>
    cases hv with
    | @unary k _ _ ha =>
      cases k <;> first
        | exact hn
        | exact (hread.value hΓ ht ha).bind fun _ _ h ↦ .ok (.unary h)
    | _ => exact hn
  | @unary k _ _ hE =>
    cases k with
    | list =>
      cases hv with
      | const k => cases k <;> first | exact hn | exact .ok (.const _)
      | @binary k _ _ _ _ he hes =>
        cases k <;> first
          | exact hn
          | exact (hread.value hΓ hE he).bind fun _ _ h ↦
              (hread.value hΓ (.unary hE) hes).bind fun _ _ hs ↦ .ok (.binary h hs)
      | _ => exact hn
    | _ => exact hn
  | @binary k _ _ _ _ hE hl =>
    cases k with
    | vec =>
      cases hv with
      | const k => cases k <;> first | exact hn | exact .ok (.const _)
      | @binary k _ _ _ _ hh ht =>
        cases k with
        | vecCons =>
          refine hl.force.lift.bind fun l l' hl' ↦ ?_
          cases hl' with
          | @unary k _ _ hk =>
            cases k with
            | add1 =>
              exact (hread.value hΓ hE hh).bind fun _ _ h ↦
                (hread.value hΓ (.binary hE hk) ht).bind fun _ _ hs ↦ .ok (.binary h hs)
            | _ => exact .error _
          | _ => exact .error _
        | _ => exact hn
      | _ => exact hn
    | either =>
      cases hv with
      | @unary k _ _ ha =>
        cases k <;> first
          | exact hn
          | exact (hread.value hΓ hE ha).bind fun _ _ h ↦ .ok (.unary h)
          | exact (hread.value hΓ hl ha).bind fun _ _ h ↦ .ok (.unary h)
      | _ => exact hn
    | _ => exact hn
  | _ => exact hn

omit hΓ in
theorem step : Reader.Matched fun Γ ↦ read.step m Γ := by
  intro N Γ Γ' r r' hΓ hr
  cases hr with
  | value ht hv => exact hread.valueStep hΓ hm ht hv
  | type hv => exact hread.typeStep hΓ hm hv
  | neutral hn => exact hread.neutralStep hΓ hn

end Machine

end Reader.Matched

/-- With any amount of fuel, what matches is read back as terms that match. -/
theorem reader_matched (fuel : Nat) : (reader fuel).Matched := by
  induction fuel with
  | zero => exact fun _ _ _ _ _ _ _ ↦ .error _
  | succ fuel ih => exact ih.step (machine_matched fuel)

end LittleTypes
