import LittleTypes.Proofs.Likeness.Machine
import LittleTypes.Proofs.Match.Reader

/-!
# Reading back takes what resembles each other to terms that are built alike

The names that are made up on the way are new on both sides.  They can be paired with each other if
no name corresponds to anything unless it is bound, or if they are the same name on both sides.
-/

namespace LittleTypes

namespace Likeness

/-- Names that are made up on both sides can be paired. -/
inductive Fits (L : Likeness) (N : Pairing) (Γ Γ' : Context) : Prop
  /-- Any names may be bound in place of each other, and only bound names correspond. -/
  | within : (∀ x y, L.hints x y) → N.Within Γ Γ' → Fits L N Γ Γ'
  /-- The names that are bound are the same, and every name stands for itself. -/
  | same : (∀ x y, L.hints x y → x = y) → N = Eq → Γ.names = Γ'.names → Fits L N Γ Γ'

namespace Fits

variable {L : Likeness} {N : Pairing} {Γ Γ' : Context} (h : L.Fits N Γ Γ') {x x' : String}
  (hx : L.hints x x')

include h hx

theorem hints_fresh : L.hints (Γ.fresh x) (Γ'.fresh x') := by
  cases h with
  | within hL _ => exact hL _ _
  | same hL _ hΓ =>
    obtain rfl := hL x x' hx
    rw [Context.fresh, Context.fresh, hΓ]
    exact L.refl _

/-- Nothing that corresponds is hidden by new names. -/
theorem le_bind (a b : String) (hab : N a b) : N.bind (Γ.fresh x) (Γ'.fresh x') a b := by
  cases h with
  | within _ hN => exact hN.le_bind (Γ.fresh_not_mem x) (Γ'.fresh_not_mem x') a b hab
  | same hL hN hΓ =>
    obtain rfl := hL x x' hx
    subst hN hab
    rw [Context.fresh, Context.fresh, hΓ]
    exact Pairing.bind_refl (fun _ ↦ rfl) a

theorem cons (β β' : Binding) : L.Fits (N.bind (Γ.fresh x) (Γ'.fresh x'))
    ((Γ.fresh x, β) :: Γ) ((Γ'.fresh x', β') :: Γ') := by
  cases h with
  | within hL hN => exact .within hL (hN.cons β β')
  | same hL hN hΓ =>
    obtain rfl := hL x x' hx
    have he : Γ.fresh x = Γ'.fresh x := by rw [Context.fresh, Context.fresh, hΓ]
    refine .same hL ?_ ?_
    · subst hN
      rw [he]
      funext a b
      simp only [Pairing.bind]
      grind
    · simpa [Context.names, he] using hΓ

end Fits

/-- Answers of a reader that are built alike. -/
abbrev AkinTerm (L : Likeness) (N : Pairing) : Except Fault Term → Except Fault Term → Prop :=
  L.Akin (Term.Filled L.hints False (.names N))

/-- What resembles each other is read back as terms that are built alike, by these two readers. -/
structure Reads (L : Likeness) (read read' : Reader) : Prop where
  value : ∀ {N Γ Γ'}, L.Fits N Γ Γ' → ∀ {t t' v v'}, t.Resembles L N t' → v.Resembles L N v' →
    L.AkinTerm N (read Γ (.value t v)) (read' Γ' (.value t' v'))
  type : ∀ {N Γ Γ'}, L.Fits N Γ Γ' → ∀ {v v'}, v.Resembles L N v' →
    L.AkinTerm N (read Γ (.type v)) (read' Γ' (.type v'))
  neutral : ∀ {N Γ Γ'}, L.Fits N Γ Γ' → ∀ {n n'}, n.Resembles L N n' →
    L.AkinTerm N (read Γ (.neutral n)) (read' Γ' (.neutral n'))

/-- New names can be bound on both sides. -/
theorem Akin.bindFree {L : Likeness} {γ δ : Type} {S : γ → δ → Prop} {Γ Γ' : Context}
    {x y : String} {t t' : Value} {f : Context → Except Fault γ} {g : Context → Except Fault δ}
    (h : L.Akin S (f ((Γ.fresh x, .free t) :: Γ)) (g ((Γ'.fresh y, .free t') :: Γ'))) :
    L.Akin S (Γ.bindFree (Γ.fresh x) t >>= f) (Γ'.bindFree (Γ'.fresh y) t' >>= g) := by
  rw [Context.bindFree_eq_ok (Γ.fresh_not_mem x), Context.bindFree_eq_ok (Γ'.fresh_not_mem y)]
  exact h

/-! ## One step -/

namespace Reads

variable {L : Likeness} {m m' : Machine} {read read' : Reader} (hread : L.Reads read read')
  {N : Pairing} {Γ Γ' : Context} (hΓ : L.Fits N Γ Γ')

include hread hΓ

section Typed

variable {a a' : Typed} (ha : Facet.Resembles L N (.typed a) (.typed a'))

include ha

theorem typed : L.AkinTerm N (read.typed Γ a) (read'.typed Γ' a') := by
  cases ha with
  | typed ht hv => exact hread.value hΓ ht hv

theorem typeOfTyped : L.AkinTerm N (read.typeOfTyped Γ a) (read'.typeOfTyped Γ' a') := by
  cases ha with
  | typed ht hv => exact hread.type hΓ ht

theorem typedType : L.AkinTerm N (read.typedType Γ a) (read'.typedType Γ' a') := by
  cases ha with
  | typed ht hv => exact hread.type hΓ hv

end Typed

theorem neutralStep {n n' : Neutral} (hn : n.Resembles L N n') :
    L.AkinTerm N (read.neutralStep Γ n) (read'.neutralStep Γ' n') := by
  cases hn with
  | var h => exact .ok (.var ⟨_, rfl, h⟩)
  | hole ht => exact (hread.type hΓ ht).bind fun _ _ h ↦ .ok (.hole h)
  | app hf ha =>
    exact (hread.neutral hΓ hf).bind fun _ _ hf' ↦ (hread.typed hΓ ha).bind fun _ _ ha' ↦
      .ok (.app hf' ha')
  | project ht => exact (hread.neutral hΓ ht).bind fun _ _ h ↦ .ok (.project h)
  | recursor ht hb hs =>
    refine (hread.neutral hΓ ht).bind fun _ _ ht' ↦ (hread.typeOfTyped hΓ hb).bind fun _ _ hB ↦ ?_
    refine (hread.typed hΓ hb).bind fun _ _ hb' ↦ (hread.typed hΓ hs).bind fun _ _ hs' ↦ ?_
    exact .ok (.recursor ht' hB hb' hs')
  | induct ht hm hb hs =>
    refine (hread.neutral hΓ ht).bind fun _ _ ht' ↦ (hread.typed hΓ hm).bind fun _ _ hm' ↦ ?_
    refine (hread.typed hΓ hb).bind fun _ _ hb' ↦ (hread.typed hΓ hs).bind fun _ _ hs' ↦ ?_
    exact .ok (.induct ht' hm' hb' hs')
  | transport ht hm hb =>
    refine (hread.neutral hΓ ht).bind fun _ _ ht' ↦ (hread.typed hΓ hm).bind fun _ _ hm' ↦ ?_
    exact (hread.typed hΓ hb).bind fun _ _ hb' ↦ .ok (.transport ht' hm' hb')
  | indAbsurd ht hm =>
    refine (hread.neutral hΓ ht).bind fun _ _ ht' ↦ (hread.typedType hΓ hm).bind fun _ _ hm' ↦ ?_
    exact .ok (.indAbsurd (.the (.const _) ht') hm')
  | transLeft hl hr =>
    exact (hread.neutral hΓ hl).bind fun _ _ hl' ↦ (hread.typed hΓ hr).bind fun _ _ hr' ↦
      .ok (.trans hl' hr')
  | transRight hl hr =>
    exact (hread.typed hΓ hl).bind fun _ _ hl' ↦ (hread.neutral hΓ hr).bind fun _ _ hr' ↦
      .ok (.trans hl' hr')
  | transBoth hl hr =>
    exact (hread.neutral hΓ hl).bind fun _ _ hl' ↦ (hread.neutral hΓ hr).bind fun _ _ hr' ↦
      .ok (.trans hl' hr')
  | cong ht hc hf =>
    refine (hread.neutral hΓ ht).bind fun _ _ ht' ↦ (hread.type hΓ hc).bind fun _ _ hc' ↦ ?_
    exact (hread.typed hΓ hf).bind fun _ _ hf' ↦ .ok (.cong ht' hc' hf')
  | indVec hl ht hm hb hs =>
    refine (hread.typed hΓ hl).bind fun _ _ hl' ↦ (hread.neutral hΓ ht).bind fun _ _ ht' ↦ ?_
    refine (hread.typed hΓ hm).bind fun _ _ hm' ↦ (hread.typed hΓ hb).bind fun _ _ hb' ↦ ?_
    exact (hread.typed hΓ hs).bind fun _ _ hs' ↦ .ok (.indVec hl' ht' hm' hb' hs')
  | indVecBoth hl ht hm hb hs =>
    refine (hread.neutral hΓ hl).bind fun _ _ hl' ↦ (hread.neutral hΓ ht).bind fun _ _ ht' ↦ ?_
    refine (hread.typed hΓ hm).bind fun _ _ hm' ↦ (hread.typed hΓ hb).bind fun _ _ hb' ↦ ?_
    exact (hread.typed hΓ hs).bind fun _ _ hs' ↦ .ok (.indVec hl' ht' hm' hb' hs')

section Machine

variable (hm : L.Concur m m')

include hm

/-- The second part of a function or pair type, at a new name. -/
theorem codomain {x x' : String} {d d' : Value} {c c' : Closure} (hx : L.hints x x')
    (hd : d.Resembles L N d') (hc : c.Resembles L N c') {S : Term → Term → Prop}
    {f g : Term → Except Fault Term}
    (h : ∀ b b', L.hints (Γ.fresh x) (Γ'.fresh x') →
      b.Filled L.hints False ((Filling.names N).bind (Γ.fresh x) (Γ'.fresh x')) b' →
        L.Akin S (f b) (g b')) :
    L.Akin S
      (Γ.bindFree (Γ.fresh x) d >>= fun Δ ↦
        (liftM (m.enter .passing c (.ofVar (Γ.fresh x) d)) : Except Fault Value) >>=
          fun v ↦ read Δ (.type v) >>= f)
      (Γ'.bindFree (Γ'.fresh x') d' >>= fun Δ ↦
        (liftM (m'.enter .passing c' (.ofVar (Γ'.fresh x') d')) : Except Fault Value) >>=
          fun v ↦ read' Δ (.type v) >>= g) := by
  have hle := hΓ.le_bind hx
  have hvar := Facet.Resembles.ofSeen (.neu (hd.mono hle) (.var Pairing.bind_self))
  refine Akin.bindFree ?_
  refine (hm.enter (hc.mono hle) hvar).lift.bind fun v v' hv ↦ ?_
  refine (hread.type (hΓ.cons hx _ _) hv).bind fun b b' hb ↦ h b b' (hΓ.hints_fresh hx) ?_
  rwa [Filling.names_bind]

theorem typeStep {v v' : Value} (hv : v.Resembles L N v') :
    L.AkinTerm N (read.typeStep m Γ v) (read'.typeStep m' Γ' v') := by
  refine hv.force.lift.bind fun w w' hw ↦ ?_
  have hnot : L.AkinTerm N (throw (.notType w.shape)) (throw (.notType w'.shape)) :=
    .error fun s ↦ by rw [(Facet.Resembles.ofSeen hw).shape_eq s]
  cases hw with
  | const k => cases k <;> first | exact hnot | exact .ok (.const _)
  | @unary k _ _ ha =>
    cases k <;> first | exact hnot | exact (hread.type hΓ ha).bind fun _ _ h ↦ .ok (.unary h)
  | @binary k _ _ _ _ ha hb =>
    cases k with
    | vec =>
      exact (hread.type hΓ ha).bind fun _ _ ha' ↦
        (hread.value hΓ (.ofSeen (.const _)) hb).bind fun _ _ hb' ↦ .ok (.binary ha' hb')
    | either =>
      exact (hread.type hΓ ha).bind fun _ _ ha' ↦ (hread.type hΓ hb).bind fun _ _ hb' ↦
        .ok (.binary ha' hb')
    | _ => exact hnot
  | equal ht hl hr =>
    refine (hread.type hΓ ht).bind fun _ _ ht' ↦ (hread.value hΓ ht hl).bind fun _ _ hl' ↦ ?_
    exact (hread.value hΓ ht hr).bind fun _ _ hr' ↦ .ok (.equal ht' hl' hr')
  | pi hx hd hc =>
    refine (hread.type hΓ hd).bind fun _ _ hd' ↦ ?_
    exact hread.codomain hΓ hm hx hd hc fun _ _ hy hb ↦ .ok (.pi hy hd' hb)
  | sigma hx hd hc =>
    refine (hread.type hΓ hd).bind fun _ _ hd' ↦ ?_
    exact hread.codomain hΓ hm hx hd hc fun _ _ hy hb ↦ .ok (.sigma hy hd' hb)
  | neu _ hn => exact hread.neutral hΓ hn
  | _ => exact hnot

omit hm in
theorem neutralAt {t t' v v' : Value} (ht : t.SeenAlike L N t') (hv : v.SeenAlike L N v') :
    L.AkinTerm N (read.neutralAt Γ t v) (read'.neutralAt Γ' t' v') := by
  have hnot : L.AkinTerm N (throw (.unreadable v.shape t.shape))
      (throw (.unreadable v'.shape t'.shape)) :=
    .error fun s ↦ by
      rw [(Facet.Resembles.ofSeen hv).shape_eq s, (Facet.Resembles.ofSeen ht).shape_eq s]
  cases hv with
  | neu _ hn => exact hread.neutral hΓ hn
  | _ => exact hnot

/-- A function at a new name. -/
theorem function {x x' : String} {d d' v v' : Value} {c c' : Closure} (hx : L.hints x x')
    (hd : d.Resembles L N d') (hc : c.Resembles L N c') (hv : v.Resembles L N v') :
    L.AkinTerm N
      (do
        let Δ ← Γ.bindFree (Γ.fresh x) d
        let cod ← (liftM (m.enter .passing c (.ofVar (Γ.fresh x) d)) : Except Fault Value)
        let body ← (liftM (m.apply .passing v (.ofVar (Γ.fresh x) d)) : Except Fault Value)
        pure (.lam (Γ.fresh x) (← read Δ (.value cod body))))
      (do
        let Δ ← Γ'.bindFree (Γ'.fresh x') d'
        let cod ← (liftM (m'.enter .passing c' (.ofVar (Γ'.fresh x') d')) : Except Fault Value)
        let body ← (liftM (m'.apply .passing v' (.ofVar (Γ'.fresh x') d')) : Except Fault Value)
        pure (.lam (Γ'.fresh x') (← read' Δ (.value cod body)))) := by
  have hle := hΓ.le_bind hx
  have hvar := Facet.Resembles.ofSeen (.neu (hd.mono hle) (.var Pairing.bind_self))
  refine Akin.bindFree ?_
  refine (hm.enter (hc.mono hle) hvar).lift.bind fun _ _ hcod ↦ ?_
  refine (hm.apply (hv.mono hle) hvar).lift.bind fun _ _ hbody ↦ ?_
  refine (hread.value (hΓ.cons hx _ _) hcod hbody).bind fun _ _ hb ↦ ?_
  exact .ok (.lam (hΓ.hints_fresh hx) (by rwa [Filling.names_bind]))

theorem valueStep {t t' v v' : Value} (ht : t.Resembles L N t') (hv : v.Resembles L N v') :
    L.AkinTerm N (read.valueStep m Γ t v) (read'.valueStep m' Γ' t' v') := by
  refine ht.force.lift.bind fun t t' ht ↦ hv.force.lift.bind fun v v' hv ↦ ?_
  have hn := hread.neutralAt hΓ ht hv
  have hv' := Facet.Resembles.ofSeen hv
  have hnat : (Value.const .nat).Resembles L N (.const .nat) := .ofSeen (.const _)
  cases ht with
  | const k =>
    cases k with
    | univ => exact hread.type hΓ hv'
    | nat =>
      cases hv with
      | const k => cases k <;> first | exact hn | exact .ok (.const _)
      | @unary k _ _ ha =>
        cases k <;> first
          | exact hn
          | exact (hread.value hΓ hnat ha).bind fun _ _ h ↦ .ok (.unary h)
      | _ => exact hn
    | atom =>
      cases hv with
      | quote s => exact .ok (.quote s)
      | _ => exact hn
    | trivial => exact .ok (.const _)
    | absurd =>
      cases hv with
      | neu _ he => exact (hread.neutral hΓ he).bind fun _ _ h ↦ .ok (.the (.const _) h)
      | _ => exact hn
    | _ => exact hn
  | pi hx hd hc =>
    cases hv with
    | lam hy _ => exact hread.function hΓ hm hy hd hc hv'
    | _ => exact hread.function hΓ hm hx hd hc hv'
  | sigma _ hd hc =>
    refine (hm.doProject .car hv').lift.bind fun _ _ ha ↦ ?_
    refine (hread.value hΓ hd ha).bind fun _ _ ha' ↦ ?_
    refine (hm.enter hc ha).lift.bind fun _ _ hs ↦ ?_
    refine (hm.doProject .cdr hv').lift.bind fun _ _ he ↦ ?_
    exact (hread.value hΓ hs he).bind fun _ _ he' ↦ .ok (.binary ha' he')
  | equal ht _ _ =>
    cases hv with
    | @unary k _ _ ha =>
      cases k <;> first
        | exact hn
        | exact (hread.value hΓ ht ha).bind fun _ _ h ↦ .ok (.unary h)
    | _ => exact hn
  | @unary k _ _ hE =>
    cases k with
    | list =>
      cases hv with
      | const k => cases k <;> first | exact hn | exact .ok (.const _)
      | @binary k _ _ _ _ he hes =>
        cases k <;> first
          | exact hn
          | exact (hread.value hΓ hE he).bind fun _ _ h ↦
              (hread.value hΓ (.ofSeen (.unary hE)) hes).bind fun _ _ hs ↦ .ok (.binary h hs)
      | _ => exact hn
    | _ => exact hn
  | @binary k _ _ _ _ hE hl =>
    cases k with
    | vec =>
      cases hv with
      | const k => cases k <;> first | exact hn | exact .ok (.const _)
      | @binary k _ _ _ _ hh ht =>
        cases k with
        | vecCons =>
          refine hl.force.lift.bind fun l l' hl' ↦ ?_
          cases hl' with
          | @unary k _ _ hk =>
            cases k with
            | add1 =>
              exact (hread.value hΓ hE hh).bind fun _ _ h ↦
                (hread.value hΓ (.ofSeen (.binary hE hk)) ht).bind fun _ _ hs ↦ .ok (.binary h hs)
            | _ => exact .error fun _ ↦ rfl
          | _ => exact .error fun _ ↦ rfl
        | _ => exact hn
      | _ => exact hn
    | either =>
      cases hv with
      | @unary k _ _ ha =>
        cases k <;> first
          | exact hn
          | exact (hread.value hΓ hE ha).bind fun _ _ h ↦ .ok (.unary h)
          | exact (hread.value hΓ hl ha).bind fun _ _ h ↦ .ok (.unary h)
      | _ => exact hn
    | _ => exact hn
  | _ => exact hn

omit hΓ in
theorem step : L.Reads (fun Γ ↦ read.step m Γ) fun Γ ↦ read'.step m' Γ where
  value hΓ _ _ _ _ ht hv := hread.valueStep hΓ hm ht hv
  type hΓ _ _ hv := hread.typeStep hΓ hm hv
  neutral hΓ _ _ hn := hread.neutralStep hΓ hn

end Machine

end Reads

end Likeness

/-- What resembles each other is read back as terms that are built alike, with any two amounts of
fuel. -/
theorem reader_reads {L : Likeness} {n n' : Nat} (h : L.strict → n = n') :
    L.Reads (reader n) (reader n') := by
  induction n generalizing n' with
  | zero =>
    have hout (N Γ Γ' r r') : L.AkinTerm N (reader 0 Γ r) (reader n' Γ' r') := by
      refine ⟨nofun, fun s e ↦ ?_⟩
      rw [← h s]
      exact Iff.rfl
    exact ⟨fun _ _ _ _ _ _ _ ↦ hout .., fun _ _ _ _ ↦ hout .., fun _ _ _ _ ↦ hout ..⟩
  | succ n ih =>
    cases n' with
    | zero =>
      have hout (N Γ Γ' r r') : L.AkinTerm N (reader (n + 1) Γ r) (reader 0 Γ' r') :=
        ⟨nofun, fun s ↦ nomatch h s⟩
      exact ⟨fun _ _ _ _ _ _ _ ↦ hout .., fun _ _ _ _ ↦ hout .., fun _ _ _ _ ↦ hout ..⟩
    | succ n' =>
      have hn (s : L.strict) : n = n' := Nat.succ.inj (h s)
      exact (ih hn).step (machine_concur hn)

end LittleTypes
