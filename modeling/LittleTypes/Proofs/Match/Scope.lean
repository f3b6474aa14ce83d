import LittleTypes.Proofs.Match.Reader
import LittleTypes.Proofs.Name.Binders
import LittleTypes.Typing.Scope
import Mathlib.Data.Option.Basic

/-!
# Scopes that match

Two scopes match when corresponding names of the source are resolved to names of the contexts that
correspond, and these have matching types and values.  Two pairings are needed for the names of the
contexts: one for all names that can be used, and one for those that stand for unknown values and
may therefore occur in normal forms.

Checks in scopes that match end alike: both with an answer, both with a mistake of the same kind at
the same location, or both with the same fault.
-/

namespace LittleTypes

/-- What is known of each answer is known of both. -/
theorem Agree.and {ε α β : Type} {R : α → β → Prop} {P : α → Prop} {Q : β → Prop}
    {x : Except ε α} {y : Except ε β} (h : Agree R x y) (hx : Answers P x) (hy : Answers Q y) :
    Agree (fun a b ↦ R a b ∧ P a ∧ Q b) x y := by
  cases h with
  | ok h => exact .ok ⟨h, hx _ rfl, hy _ rfl⟩
  | error e => exact .error e

/-! ## Checks that agree -/

/-- Both outcomes are answers that are related, or mistakes of one kind at one location, or the same
fault. -/
inductive Verdict {α β : Type} (R : α → β → Prop) : Except Failure α → Except Failure β → Prop
  | ok {a : α} {b : β} : R a b → Verdict R (.ok a) (.ok b)
  | stop {s s' : Stop} : s.code = s'.code → s.loc = s'.loc →
    Verdict R (.error (.stop s)) (.error (.stop s'))
  | fault (f : Fault) : Verdict R (.error (.fault f)) (.error (.fault f))

namespace Checked

variable {α β γ δ : Type} {R : α → β → Prop} {S : γ → δ → Prop}

/-- Checks with outcomes that agree. -/
def Agree (R : α → β → Prop) (x : Checked α) (y : Checked β) : Prop :=
  Verdict R x.outcome y.outcome

namespace Agree

theorem pure {a : α} {b : β} (h : R a b) : Agree R (Pure.pure a) (Pure.pure b) := .ok h

theorem bind {x : Checked α} {y : Checked β} {f : α → Checked γ} {g : β → Checked δ}
    (h : Agree R x y) (hNext : ∀ a b, R a b → Agree S (f a) (g b)) :
    Agree S (x >>= f) (y >>= g) := by
  unfold Agree at h ⊢
  rw [outcome_bind, outcome_bind]
  generalize x.outcome = o at h ⊢
  generalize y.outcome = o' at h ⊢
  cases h with
  | ok h => exact hNext _ _ h
  | stop hc hl => exact .stop hc hl
  | fault f => exact .fault f

theorem mono {R' : α → β → Prop} {x : Checked α} {y : Checked β} (h : Agree R x y)
    (hR : ∀ a b, R a b → R' a b) : Agree R' x y := by
  unfold Agree at h ⊢
  generalize x.outcome = o at h ⊢
  generalize y.outcome = o' at h ⊢
  cases h with
  | ok h => exact .ok (hR _ _ h)
  | stop hc hl => exact .stop hc hl
  | fault f => exact .fault f

/-- Two answers are related. -/
theorem of_ok {x : Checked α} {y : Checked β} {a : α} {b : β} (h : Agree R x y)
    (hx : x.outcome = .ok a) (hy : y.outcome = .ok b) : R a b := by
  rw [Agree, hx, hy] at h
  cases h
  assumption

/-- Whatever is logged. -/
theorem note (level level' : Level) (message message' : String) (as as' : List Attribute) :
    Agree (fun _ _ ↦ True) (Checked.note level message as) (Checked.note level' message' as') :=
  .ok trivial

/-- Mistakes of one kind at one location, whatever is said about them. -/
theorem stop (code : Code) (loc : Location) (ps ps' : List Part) :
    Agree R (Checked.stop code loc ps) (Checked.stop code loc ps') := Verdict.stop rfl rfl

theorem ofRead {x : Except Fault α} {y : Except Fault β} (h : LittleTypes.Agree R x y) :
    Agree R (Checked.ofRead x) (Checked.ofRead y) := by
  cases h with
  | ok h => exact .ok h
  | error f => exact .fault f

theorem ofEval {x : Except EvalFault α} {y : Except EvalFault β} (h : LittleTypes.Agree R x y) :
    Agree R (Checked.ofEval x) (Checked.ofEval y) := ofRead h.lift

end Agree

end Checked

/-! ## Contexts -/

/-- Contexts in which corresponding names have matching types and values.  The first pairing is for
the names that stand for unknown values. -/
structure Context.Matches (N M : Pairing) (Γ Γ' : Context) : Prop where
  oneToOne : M.OneToOne
  within : M.Within Γ Γ'
  le : ∀ a b, N a b → M a b
  env : Env.Matches N M Γ.env Γ'.env
  type : ∀ a b, M a b → ∃ t t', Γ.typeOf? a = some t ∧ Γ'.typeOf? b = some t' ∧ t.Matches N t'

namespace Context.Matches

variable {fuel : Nat} {N M : Pairing} {Γ Γ' : Context} (h : Context.Matches N M Γ Γ')

include h

theorem unknownOneToOne : N.OneToOne := fun _ _ _ _ hab hab' ↦
  h.oneToOne (h.le _ _ hab) (h.le _ _ hab')

theorem unknownWithin : N.Within Γ Γ' := fun a b hab ↦ h.within a b (h.le a b hab)

/-- One more name for an unknown value on each side. -/
theorem free {x y : String} {t t' : Value} (hx : x ∉ Γ.names) (hy : y ∉ Γ'.names)
    (ht : t.Matches N t') :
    Context.Matches (N.bind x y) (M.bind x y) ((x, .free t) :: Γ) ((y, .free t') :: Γ') := by
  have hN := h.unknownWithin.le_bind hx hy
  have ht' := ht.mono hN
  refine ⟨h.oneToOne.bind, h.within.cons _ _, ?_, ?_, ?_⟩
  · rintro a b (hab | ⟨ha, hb, hab⟩)
    · exact .inl hab
    · exact .inr ⟨ha, hb, h.le a b hab⟩
  · exact Env.Matches.cons (fun a b hab ↦ (h.env a b hab).mono hN) x y (.ofVar ht')
  · rintro a b (⟨rfl, rfl⟩ | ⟨ha, hb, hab⟩)
    · exact ⟨t, t', by simp [typeOf?], by simp [typeOf?], ht'⟩
    · obtain ⟨u, u', hu, hu', huu'⟩ := h.type a b hab
      exact ⟨u, u', by simp [typeOf?, Ne.symm ha, hu], by simp [typeOf?, Ne.symm hb, hu'],
        huu'.mono hN⟩

theorem eval {t t' : Term} (ht : t.Matches M t') :
    AgreeValue N (Γ.eval fuel t) (Γ'.eval fuel t') :=
  (machine_matched fuel).eval _ h.env ht

theorem readBack {t t' v v' : Value} (ht : t.Matches N t') (hv : v.Matches N v') :
    AgreeTerm N (Γ.readBack fuel t v) (Γ'.readBack fuel t' v') :=
  (reader_matched fuel).value h.unknownWithin ht hv

theorem readBackType {v v' : Value} (hv : v.Matches N v') :
    AgreeTerm N (Γ.readBackType fuel v) (Γ'.readBackType fuel v') :=
  (reader_matched fuel).type h.unknownWithin hv

end Context.Matches

/-! ## Scopes -/

/-- The name of the context that a name of the source stands for, if it can be used. -/
def Scope.resolve (s : Scope) (x : String) : Option String :=
  if s.names.captures x then none
  else if (s.context.typeOf? (s.names.rename x)).isSome then some (s.names.rename x) else none

/-- Names are renamed only to names that are bound. -/
def Scope.Proper (s : Scope) : Prop :=
  ∀ x y, s.names.entries.lookup x = some y → y ∈ s.context.names

theorem Context.typeOf?_eq_none {Γ : Context} {x : String} (h : x ∉ Γ.names) :
    Γ.typeOf? x = none := by
  induction Γ with
  | nil => rfl
  | cons b Γ ih =>
    obtain ⟨y, b⟩ := b
    obtain ⟨hy, hΓ⟩ : x ≠ y ∧ x ∉ names Γ := by simpa [names] using h
    cases b <;> simp [typeOf?, Ne.symm hy, ih hΓ]

/-- A scope with one more name. -/
def Scope.extend (s : Scope) (x y : String) (type : Value) : Scope :=
  ⟨(y, .free type) :: s.context, s.names.extend x y⟩

theorem Renaming.lookup_extend_self (r : Renaming) (x y : String) :
    (r.extend x y).entries.lookup x = some y := by
  simp [extend]

theorem Renaming.lookup_extend_of_ne (r : Renaming) {x z : String} (y : String) (h : z ≠ x) :
    (r.extend x y).entries.lookup z = r.entries.lookup z := by
  have hz : (z == x) = false := by simpa using h
  simp only [extend, List.lookup_cons, hz]
  induction r.entries with
  | nil => rfl
  | cons e es ih =>
    obtain ⟨a, b⟩ := e
    by_cases hx : a = x
    · simp [hx, ih, List.lookup_cons, hz]
    · simp [hx, ih, List.lookup_cons]

namespace Scope

variable {s : Scope} {x y z : String} {type : Value}

theorem resolve_extend_self : (s.extend x y type).resolve x = some y := by
  simp [resolve, extend, Renaming.captures, Renaming.rename, Renaming.lookup_extend_self,
    Context.typeOf?]

/-- A new name changes nothing for other names of the source.  One that is spelled like the new name
was not bound before, and is not taken for it now. -/
theorem resolve_extend_of_ne (hs : s.Proper) (hy : y ∉ s.context.names) (h : z ≠ x) :
    (s.extend x y type).resolve z = s.resolve z := by
  simp only [resolve, extend, Renaming.captures, Renaming.rename, Renaming.lookup_extend_of_ne _ _ h]
  rcases Option.eq_none_or_eq_some (s.names.entries.lookup z) with hz | ⟨w, hz⟩
  · by_cases e : z = y
    · subst e
      simp [hz, Renaming.extend, Context.typeOf?_eq_none hy]
    · simp [hz, Renaming.extend, Context.typeOf?, e, Ne.symm e]
  · have hw : y ≠ w := fun e ↦ hy (e ▸ hs z w hz)
    simp [hz, Context.typeOf?, hw]

theorem Proper.extend (hs : s.Proper) : (s.extend x y type).Proper := by
  intro z w hz
  by_cases h : z = x
  · subst h
    rw [Scope.extend, Renaming.lookup_extend_self] at hz
    cases hz
    exact List.mem_cons_self
  · rw [Scope.extend, Renaming.lookup_extend_of_ne _ _ h] at hz
    exact List.mem_cons_of_mem _ (hs z w hz)

/-- Scopes in which corresponding names of the source are resolved to corresponding names. -/
structure Matches (P N M : Pairing) (s s' : Scope) : Prop where
  context : Context.Matches N M s.context s'.context
  left : s.Proper
  right : s'.Proper
  resolve : ∀ a b, P a b → Option.Rel M (s.resolve a) (s'.resolve b)

end Scope

/-- Judgments that match. -/
structure Judgment.Matches (M : Pairing) (j j' : Judgment) : Prop where
  type : j.type.Matches M j'.type
  term : j.term.Matches M j'.term

namespace Scope.Matches

variable {fuel : Nat} {P N M : Pairing} {s s' : Scope} (h : Scope.Matches P N M s s')
  {t t' v v' w w' : Value}

section

omit h

theorem force (hv : v.Matches N v') : Checked.Agree (Value.Matches N) (Scope.force v) (Scope.force v') :=
  .ofEval hv.force

theorem apply (hv : v.Matches N v') (hw : w.Matches N w') :
    Checked.Agree (Value.Matches N) (Scope.apply fuel v w) (Scope.apply fuel v' w') :=
  .ofEval ((machine_matched fuel).apply _ hv hw)

theorem enter {c c' : Closure} (hc : c.Matches N c') (hv : v.Matches N v') :
    Checked.Agree (Value.Matches N) (Scope.enter fuel c v) (Scope.enter fuel c' v') :=
  .ofEval ((machine_matched fuel).enter _ hc hv)

end

include h

/-- Terms that match at unknown names match at all names. -/
theorem toTerm {e e' : Term} (he : e.Matches N e') : e.Matches M e' :=
  he.mono fun a _ b _ hab ↦ h.context.le a b hab

theorem eval {e e' : Term} (he : e.Matches M e') :
    Checked.Agree (Value.Matches N) (s.eval fuel e) (s'.eval fuel e') := .ofEval (h.context.eval he)

theorem readBack (ht : t.Matches N t') (hv : v.Matches N v') :
    Checked.Agree (Term.Matches N) (s.readBack fuel t v) (s'.readBack fuel t' v') :=
  .ofRead (h.context.readBack ht hv)

theorem readBackType (hv : v.Matches N v') :
    Checked.Agree (Term.Matches N) (s.readBackType fuel v) (s'.readBackType fuel v') :=
  .ofRead (h.context.readBackType hv)

theorem judge {e e' : Term} (ht : t.Matches N t') (he : e.Matches M e') :
    Checked.Agree (Judgment.Matches M) (s.judge fuel t e) (s'.judge fuel t' e') :=
  (h.readBackType ht).bind fun _ _ hT ↦ .pure ⟨h.toTerm hT, he⟩

/-- The scope under a binder, with new names on both sides. -/
theorem bind {x x' y y' : String} (hy : y ∉ s.context.names) (hy' : y' ∉ s'.context.names)
    (ht : t.Matches N t') :
    Checked.Agree (Scope.Matches (P.bind x x') (N.bind y y') (M.bind y y'))
      (s.bind x y t) (s'.bind x' y' t') := by
  rw [Scope.bind, Scope.bind, Context.bindFree_eq_ok hy, Context.bindFree_eq_ok hy']
  refine .ok ⟨h.context.free hy hy' ht, h.left.extend, h.right.extend, ?_⟩
  rintro a b (⟨rfl, rfl⟩ | ⟨ha, hb, hab⟩)
  · have hs : (s.extend a y t).resolve a = some y := resolve_extend_self
    have hs' : (s'.extend b y' t').resolve b = some y' := resolve_extend_self
    exact hs ▸ hs' ▸ .some Pairing.bind_self
  · change Option.Rel _ ((s.extend x y t).resolve a) ((s'.extend x' y' t').resolve b)
    rw [resolve_extend_of_ne h.left hy ha, resolve_extend_of_ne h.right hy' hb]
    have hr := h.resolve a b hab
    generalize s.resolve a = o at hr ⊢
    generalize s'.resolve b = o' at hr ⊢
    cases hr with
    | some hc => exact .some (h.context.within.le_bind hy hy' _ _ hc)
    | none => exact .none

/-! ### The shapes of types -/

theorem expect {α : Type} {R : α → α → Prop} (loc : Location) (ht : t.Matches N t') (what : String)
    {view : Value → Option α}
    (hview : ∀ v v', v.Matches N v' → Option.Rel R (view v) (view v')) :
    Checked.Agree R (s.expect fuel loc t what view) (s'.expect fuel loc t' what view) := by
  refine (force ht).bind fun v v' hv ↦ ?_
  have := hview v v' hv
  generalize view v = o at this ⊢
  generalize view v' = o' at this ⊢
  cases this with
  | some hr => exact .pure hr
  | none => exact (h.readBackType ht).bind fun _ _ _ ↦ .stop ..

theorem expectPi (loc : Location) (ht : t.Matches N t') :
    Checked.Agree (fun p p' ↦ p.2.1.Matches N p'.2.1 ∧ p.2.2.Matches N p'.2.2)
      (s.expectPi fuel loc t) (s'.expectPi fuel loc t') := by
  refine h.expect loc ht _ fun v v' hv ↦ ?_
  cases hv with
  | pi hd hc => exact .some ⟨hd, hc⟩
  | _ => exact .none

theorem expectSigma (loc : Location) (ht : t.Matches N t') :
    Checked.Agree (fun p p' ↦ p.1.Matches N p'.1 ∧ p.2.Matches N p'.2)
      (s.expectSigma fuel loc t) (s'.expectSigma fuel loc t') := by
  refine h.expect loc ht _ fun v v' hv ↦ ?_
  cases hv with
  | sigma hd hc => exact .some ⟨hd, hc⟩
  | _ => exact .none

theorem expectList (loc : Location) (ht : t.Matches N t') :
    Checked.Agree (Value.Matches N) (s.expectList fuel loc t) (s'.expectList fuel loc t') := by
  refine h.expect loc ht _ fun v v' hv ↦ ?_
  cases hv with
  | @unary k _ _ ha => cases k <;> first | exact .some ha | exact .none
  | _ => exact .none

theorem expectEqual (loc : Location) (ht : t.Matches N t') :
    Checked.Agree (fun p p' ↦ p.1.Matches N p'.1 ∧ p.2.1.Matches N p'.2.1 ∧ p.2.2.Matches N p'.2.2)
      (s.expectEqual fuel loc t) (s'.expectEqual fuel loc t') := by
  refine h.expect loc ht _ fun v v' hv ↦ ?_
  cases hv with
  | equal ht hl hr => exact .some ⟨ht, hl, hr⟩
  | _ => exact .none

theorem expectVec (loc : Location) (ht : t.Matches N t') :
    Checked.Agree (fun p p' ↦ p.1.Matches N p'.1 ∧ p.2.Matches N p'.2)
      (s.expectVec fuel loc t) (s'.expectVec fuel loc t') := by
  refine h.expect loc ht _ fun v v' hv ↦ ?_
  cases hv with
  | @binary k _ _ _ _ ha hb => cases k <;> first | exact .some ⟨ha, hb⟩ | exact .none
  | _ => exact .none

theorem expectEither (loc : Location) (ht : t.Matches N t') :
    Checked.Agree (fun p p' ↦ p.1.Matches N p'.1 ∧ p.2.Matches N p'.2)
      (s.expectEither fuel loc t) (s'.expectEither fuel loc t') := by
  refine h.expect loc ht _ fun v v' hv ↦ ?_
  cases hv with
  | @binary k _ _ _ _ ha hb => cases k <;> first | exact .some ⟨ha, hb⟩ | exact .none
  | _ => exact .none

/-- A mistake in a message about a length. -/
theorem stopAtLength {α β : Type} {R : α → β → Prop} (loc : Location) (hv : v.Matches N v')
    (ps : Term → List Part) :
    Checked.Agree R
      (s.readBack fuel (.const .nat) v >>= fun e ↦ Checked.stop .wrongShape loc (ps e))
      (s'.readBack fuel (.const .nat) v' >>= fun e ↦ Checked.stop .wrongShape loc (ps e)) :=
  (h.readBack (.const _) hv).bind fun _ _ _ ↦ .stop ..

theorem expectAdd1 (loc : Location) (hv : v.Matches N v') (message : String) :
    Checked.Agree (Value.Matches N) (s.expectAdd1 fuel loc v message)
      (s'.expectAdd1 fuel loc v' message) := by
  refine (force hv).bind fun w w' hw ↦ ?_
  cases hw with
  | @unary k _ _ ha => cases k <;> first | exact h.stopAtLength loc hv _ | exact .pure ha
  | _ => exact h.stopAtLength loc hv _

/-! ### Comparisons -/

theorem convert (loc : Location) (ht : t.Matches N t') (hv : v.Matches N v')
    (hw : w.Matches N w') :
    Checked.Agree (fun _ _ ↦ True) (s.convert fuel loc t v w) (s'.convert fuel loc t' v' w') := by
  refine (h.readBack ht hv).bind fun e e' he ↦ (h.readBack ht hw).bind fun u u' hu ↦ ?_
  rw [he.alphaEquiv_eq h.context.unknownOneToOne hu]
  split
  · exact .pure trivial
  · exact (h.readBackType ht).bind fun _ _ _ ↦ .stop ..

theorem sameType (loc : Location) (hv : v.Matches N v') (hw : w.Matches N w') :
    Checked.Agree (fun _ _ ↦ True) (s.sameType fuel loc v w) (s'.sameType fuel loc v' w') := by
  refine (h.readBackType hv).bind fun e e' he ↦ (h.readBackType hw).bind fun u u' hu ↦ ?_
  rw [he.alphaEquiv_eq h.context.unknownOneToOne hu]
  split
  · exact .pure trivial
  · exact .stop ..

end Scope.Matches

/-- Binding sites at one location, with names that may both be bound or may both not. -/
structure Site.Matches (site site' : Site) : Prop where
  loc : site.loc = site'.loc
  name : isVariableName site.name = isVariableName site'.name

theorem Site.Matches.checkName {site site' : Site} (h : site.Matches site') :
    Checked.Agree (fun _ _ ↦ True) (Scope.checkName site) (Scope.checkName site') := by
  rw [Scope.checkName, Scope.checkName, h.name, h.loc]
  split
  · exact .pure trivial
  · exact .stop ..

end LittleTypes
