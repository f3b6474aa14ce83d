import LittleTypes.Proofs.Likeness.Reader

/-!
# What is the same resembles itself

Where no name may be bound in place of another, terms that are built alike are the same.  Strictly,
every value resembles itself, whatever it is made of and whether or not there is anything to see of
it.  If one is not strict, this is said of the values in which nothing is delayed twice.
-/

namespace LittleTypes

/-- No name may be bound in place of another.  It is said whether runs have to fail alike. -/
def Likeness.exactly (strict : Prop) : Likeness := ⟨strict, Eq, fun _ ↦ rfl⟩

/-! ## Values -/

/-- An environment in which everything resembles itself resembles itself. -/
theorem Env.SelfResembling.resembles {L : Likeness} {N : Pairing} {ρ : Env}
    (h : ρ.SelfResembling L N) : Env.Resembles L N (fun a u ↦ u = .var a) ρ ρ := by
  rintro a _ rfl σ hσ fuel
  rw [Machine.eval_var]
  exact h.fetch (hσ a (by simp [Term.free]))

mutual

/-- Every value is seen like itself. -/
theorem Value.seenAlike_self : (v : Value) → v.SeenAlike (.exactly True) Eq v
  | .const k => .const k
  | .quote s => .quote s
  | .unary _ a => .unary (.ofSeen a.seenAlike_self)
  | .binary _ a b => .binary (.ofSeen a.seenAlike_self) (.ofSeen b.seenAlike_self)
  | .equal t l r =>
    .equal (.ofSeen t.seenAlike_self) (.ofSeen l.seenAlike_self) (.ofSeen r.seenAlike_self)
  | .pi _ d c => .pi rfl (.ofSeen d.seenAlike_self) c.resembles_self
  | .sigma _ d c => .sigma rfl (.ofSeen d.seenAlike_self) c.resembles_self
  | .lam _ c => .lam rfl c.resembles_self
  | .neu t n => .neu (.ofSeen t.seenAlike_self) n.resembles_self
  | .delayed o => .delayed trivial (.ofForce (fun _ ↦ rfl) (Outcome.akin_thunk o))
  | .absent => .absent

theorem Outcome.akin_thunk : (o : Thunk Outcome) → (Likeness.exactly True).Akin
    (Value.SeenAlike (.exactly True) Eq) o.get.toExcept o.get.toExcept
  | ⟨f⟩ => (f ()).akin_self

theorem Outcome.akin_self : (o : Outcome) → (Likeness.exactly True).Akin
    (Value.SeenAlike (.exactly True) Eq) o.toExcept o.toExcept
  | .value v => .ok v.seenAlike_self
  | .fault _ => .error fun _ ↦ rfl

theorem Closure.resembles_self : (c : Closure) → c.Resembles (.exactly True) Eq c
  | .body ρ _ t => ρ.selfResembling.resembles.body
      (.refl (fun _ ↦ rfl) trivial t fun _ _ ↦ Filling.bind_refl fun _ ↦ rfl)
  | .constant v => .constant (.ofSeen v.seenAlike_self)
  | .natStep m => .natStep (.ofSeen m.seenAlike_self)
  | .listStep e m => .listStep (.ofSeen e.seenAlike_self) (.ofSeen m.seenAlike_self)
  | .listStepTail m e => .listStepTail (.ofSeen m.seenAlike_self) (.ofSeen e.seenAlike_self)
  | .equalMotive t l => .equalMotive (.ofSeen t.seenAlike_self) (.ofSeen l.seenAlike_self)
  | .vecMotive e => .vecMotive (.ofSeen e.seenAlike_self)
  | .vecStep e m => .vecStep (.ofSeen e.seenAlike_self) (.ofSeen m.seenAlike_self)
  | .vecStepHead e m k =>
    .vecStepHead (.ofSeen e.seenAlike_self) (.ofSeen m.seenAlike_self) (.ofSeen k.seenAlike_self)
  | .vecStepTail m k h =>
    .vecStepTail (.ofSeen m.seenAlike_self) (.ofSeen k.seenAlike_self) (.ofSeen h.seenAlike_self)
  | .eitherCase _ m => .eitherCase (.ofSeen m.seenAlike_self)

theorem Neutral.resembles_self : (n : Neutral) → n.Resembles (.exactly True) Eq n
  | .var _ => .var rfl
  | .hole _ t => .hole (.ofSeen t.seenAlike_self)
  | .app f a => .app f.resembles_self a.resembles_self
  | .project _ t => .project t.resembles_self
  | .recursor _ t b s => .recursor t.resembles_self b.resembles_self s.resembles_self
  | .induct _ t m b s =>
    .induct t.resembles_self m.resembles_self b.resembles_self s.resembles_self
  | .transport _ t m b => .transport t.resembles_self m.resembles_self b.resembles_self
  | .indAbsurd t m => .indAbsurd t.resembles_self m.resembles_self
  | .transLeft l r => .transLeft l.resembles_self r.resembles_self
  | .transRight l r => .transRight l.resembles_self r.resembles_self
  | .transBoth l r => .transBoth l.resembles_self r.resembles_self
  | .cong t c f => .cong t.resembles_self (.ofSeen c.seenAlike_self) f.resembles_self
  | .indVec l t m b s =>
    .indVec l.resembles_self t.resembles_self m.resembles_self b.resembles_self s.resembles_self
  | .indVecBoth l t m b s =>
    .indVecBoth l.resembles_self t.resembles_self m.resembles_self b.resembles_self s.resembles_self

theorem Typed.resembles_self : (a : Typed) → Facet.Resembles (.exactly True) Eq (.typed a) (.typed a)
  | .mk t v => .typed (.ofSeen t.seenAlike_self) (.ofSeen v.seenAlike_self)

/-- In every environment, what a name stands for resembles itself. -/
theorem Env.selfResembling : (ρ : Env) → ρ.SelfResembling (.exactly True) Eq
  | .nil => nofun
  | .cons x v ρ => ρ.selfResembling.cons x (.ofSeen v.seenAlike_self)

end

/-- Every value resembles itself. -/
theorem Value.resembles_self (v : Value) : v.Resembles (.exactly True) Eq v :=
  .ofSeen v.seenAlike_self

/-- Nothing is delayed twice, neither the value nor any of its parts: whoever looks at one of them
sees how it is built. -/
def Value.Flat (v : Value) : Prop := v.Resembles (.exactly False) Eq v

/-- The names stand for values in which nothing is delayed twice. -/
def Env.Flat (ρ : Env) : Prop := ρ.SelfResembling (.exactly False) Eq

/-- Evaluation delays nothing twice. -/
theorem Env.Flat.eval {ρ : Env} (h : ρ.Flat) {n : Nat} {t : Term} {v : Value}
    (hv : (machine n).eval .passing ρ t = .ok v) : v.Flat := h.eval_self hv

/-! ## Terms -/

/-- Nothing changes in a term in which every name stands for itself and no binder is renamed. -/
theorem Term.Filled.eq {H : Pairing} {gaps : Prop} {S : Filling} {t t' : Term}
    (h : t.Filled H gaps S t') (hH : ∀ x y, H x y → x = y) (hS : ∀ a u, S a u → u = .var a) :
    t = t' := by
  have hbind {S : Filling} (hS : ∀ a u, S a u → u = .var a) {x y : String} (hxy : x = y) :
      ∀ a u, S.bind x y a u → u = .var a := by
    rintro a u (⟨rfl, rfl⟩ | ⟨-, -, hu⟩)
    · rw [hxy]
    · exact hS a u hu
  induction h with
  | var h => exact (hS _ _ h).symm
  | lam hx _ ih => rw [hH _ _ hx, ih (hbind hS (hH _ _ hx))]
  | pi hx _ _ iha ihb => rw [hH _ _ hx, iha hS, ihb (hbind hS (hH _ _ hx))]
  | sigma hx _ _ iha ihb => rw [hH _ _ hx, iha hS, ihb (hbind hS (hH _ _ hx))]
  | _ => congr 1 <;> apply_assumption <;> assumption

namespace Likeness

theorem fits_exactly (strict : Prop) (Γ : Context) : (exactly strict).Fits Eq Γ Γ :=
  .same (fun _ _ h ↦ h) rfl rfl

variable {strict : Prop} {x y : Except Fault Term} (h : (exactly strict).AkinTerm Eq x y)

include h

/-- Answers that are built alike are the same. -/
theorem AkinTerm.eq_of_ok {t u : Term} (ht : x = .ok t) (hu : y = .ok u) : t = u := by
  refine (h.answer t u ht hu).eq (fun _ _ h ↦ h) ?_
  rintro a _ ⟨_, rfl, rfl⟩
  rfl

/-- Strictly, so are the outcomes. -/
theorem AkinTerm.eq (hs : strict) : x = y := by
  cases x with
  | error e => exact ((h.fault hs e).1 rfl).symm
  | ok t =>
    cases y with
    | error e => exact (h.fault hs e).2 rfl
    | ok u => rw [h.eq_of_ok rfl rfl]

end Likeness

/-! ## Normal forms

A term is evaluated where its names stand for any values, and read back in any context. -/

namespace Context

/-- The normal form of a term in an environment, read back at a type, or as a type if there is none.
-/
def normalizeIn (fuel : Nat) (Γ : Context) (ρ : Env) (type? : Option Value) (t : Term) :
    Except Fault Term := do
  let v ← (machine fuel).eval .passing ρ t
  match type? with
  | some type => Γ.readBack fuel type v
  | none => Γ.readBackType fuel v

/-- Terms whose values resemble each other have the same normal forms. -/
theorem normalizeIn_akin {strict : Prop} {n n' : Nat} (hn : strict → n = n') (Γ : Context)
    {type? : Option Value} (htype : ∀ type ∈ type?, type.Resembles (.exactly strict) Eq type)
    {ρ σ : Env} {t u : Term} (h : (Likeness.exactly strict).AkinValue Eq
      ((machine n).eval .passing ρ t) ((machine n').eval .passing σ u)) :
    (Likeness.exactly strict).AkinTerm Eq (Γ.normalizeIn n ρ type? t)
      (Γ.normalizeIn n' σ type? u) := by
  have hread : (Likeness.exactly strict).Reads (reader n) (reader n') := reader_reads hn
  have hΓ := Likeness.fits_exactly strict Γ
  refine h.lift.bind fun _ _ hv ↦ ?_
  cases type? with
  | none => exact hread.type hΓ hv
  | some type => exact hread.value hΓ (htype type rfl) hv

end Context

end LittleTypes
