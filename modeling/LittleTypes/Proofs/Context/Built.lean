import LittleTypes.Session.Basic

/-!
# Contexts that are built step by step

A context is built when each of its names was checked in the context so far.  Most names come with a
type of their own; a name that has been claimed is defined at the type of its claim, which was
evaluated when there were fewer names.  A session builds its context by claims and by definitions of
what has been claimed.
-/

namespace LittleTypes

/-- The name that is declared. -/
def Declaration.name {α : Type} : Declaration α → String
  | free x _ => x
  | claim x _ => x
  | defn x _ _ => x

namespace Context

/-- How a context gets one more name. -/
inductive Entry
  /-- A name with a type of its own. -/
  | declare (d : Declaration Source)
  /-- A name that has been claimed, for an element of the claimed type. -/
  | define (x : String) (e : Source)

/-- The name that the context gets. -/
def Entry.name : Entry → String
  | declare d => d.name
  | define x _ => x

/-- One more name, which is checked in the context and evaluated at a place. -/
inductive Adds (fuel : Nat) (p : Place) (Γ : Context) : Entry → Context → Prop
  | declare {d : Declaration Source} {d' : Declaration Term} {Δ : Context} :
    (Γ.elaborate fuel d).outcome = .ok d' → Γ.declareAt fuel p d' = .ok Δ →
      Adds fuel p Γ (.declare d) Δ
  | define {x : String} {e : Source} {type v : Value} {t : Term} :
    Γ.binding? x = some (.claim type) → (e.check fuel Γ.scope type).outcome = .ok t →
      Γ.evalAt fuel p t = .ok v → Adds fuel p Γ (.define x e) ((x, .defn type v) :: Γ)

/-- The contexts that grow from nothing by steps of some kind, and how they got their names, most
recent first. -/
inductive Grown (Step : Context → Entry → Context → Prop) : List Entry → Context → Prop
  | nil : Grown Step [] []
  | cons {es : List Entry} {Γ Δ : Context} {e : Entry} :
    Grown Step es Γ → Step Γ e Δ → Grown Step (e :: es) Δ

/-- A name that stands for an unknown value is never defined. -/
def Admits (Γ : Context) : Entry → Prop
  | .declare (.defn x _ _) | .define x _ => ∀ t, (x, .free t) ∉ Γ
  | .declare (.free _ _) | .declare (.claim _ _) => True

/-- The contexts that are built with an amount of fuel. -/
def Built (fuel : Nat) : List Entry → Context → Prop :=
  Grown fun Γ e Δ ↦ Γ.Admits e ∧ Γ.Adds fuel .passing e Δ

/-- The contexts of variable names, each added with some amount of fuel and at some place. -/
def Stated (Γ : Context) : Prop :=
  ∃ es, Grown (fun Γ e Δ ↦ isVariableName e.name ∧ ∃ fuel p, Γ.Adds fuel p e Δ) es Γ

/-! ## Steps -/

open Checked

variable {fuel : Nat}

theorem liftM_bind_eq_ok {α β : Type} {x : Except EvalFault α} {f : α → Except Fault β} {b : β} :
    ((liftM x : Except Fault α) >>= f) = .ok b ↔ ∃ a, x = .ok a ∧ f a = .ok b := by
  cases x with
  | ok a => exact ⟨fun h ↦ ⟨a, rfl, h⟩, fun ⟨_, rfl, h⟩ ↦ h⟩
  | error e => exact ⟨nofun, nofun⟩

theorem Grown.mono {Step Step' : Context → Entry → Context → Prop}
    (hStep : ∀ Γ e Δ, Step Γ e Δ → Step' Γ e Δ) {es : List Entry} {Γ : Context}
    (h : Grown Step es Γ) : Grown Step' es Γ := by
  induction h with
  | nil => exact .nil
  | cons _ hs ih => exact .cons ih (hStep _ _ _ hs)

/-- What holds of the context without names and is kept by every step holds of every context that is
built. -/
theorem Built.induction {P : List Entry → Context → Prop} (hnil : P [] [])
    (hfree : ∀ {es Γ x type t v}, P es Γ → Γ.binds x = false →
      (Source.isType fuel Γ.scope type).outcome = .ok t → Γ.eval fuel t = .ok v →
        P (.declare (.free x type) :: es) ((x, .free v) :: Γ))
    (hclaim : ∀ {es Γ x type t v}, P es Γ → (Source.isType fuel Γ.scope type).outcome = .ok t →
      Γ.eval fuel t = .ok v → P (.declare (.claim x type) :: es) ((x, .claim v) :: Γ))
    (hdefn : ∀ {es Γ x type e t tv e' v}, P es Γ → (∀ t, (x, .free t) ∉ Γ) →
      (Source.isType fuel Γ.scope type).outcome = .ok t → Γ.eval fuel t = .ok tv →
        (Source.check fuel Γ.scope e tv).outcome = .ok e' → Γ.eval fuel e' = .ok v →
          P (.declare (.defn x type e) :: es) ((x, .defn tv v) :: Γ))
    (hdefine : ∀ {es Γ x e tv e' v}, P es Γ → (∀ t, (x, .free t) ∉ Γ) →
      Γ.binding? x = some (.claim tv) → (Source.check fuel Γ.scope e tv).outcome = .ok e' →
        Γ.eval fuel e' = .ok v → P (.define x e :: es) ((x, .defn tv v) :: Γ))
    {es : List Entry} {Γ : Context} (h : Built fuel es Γ) : P es Γ := by
  induction h with
  | nil => exact hnil
  | @cons _ Γ _ _ _ hstep ih =>
    obtain ⟨hd, hstep⟩ := hstep
    cases hstep with
    | define hx he hv => exact hdefine ih hd hx he hv
    | @declare d _ _ hel hdecl =>
      cases d with
      | free x type =>
        obtain ⟨t, ht, hd'⟩ := outcome_bind_eq_ok_iff.1 hel
        cases hd'
        obtain ⟨v, hv, hΔ⟩ := liftM_bind_eq_ok.1 hdecl
        rw [bindFree] at hΔ
        split at hΔ
        · cases hΔ
        · rename_i hx
          cases hΔ
          exact hfree ih (by simpa using hx) ht hv
      | claim x type =>
        obtain ⟨t, ht, hd'⟩ := outcome_bind_eq_ok_iff.1 hel
        cases hd'
        obtain ⟨v, hv, hΔ⟩ := liftM_bind_eq_ok.1 hdecl
        cases hΔ
        exact hclaim ih ht hv
      | defn x type e =>
        obtain ⟨t, ht, hel⟩ := outcome_bind_eq_ok_iff.1 hel
        obtain ⟨tv, htv, hel⟩ := outcome_bind_eq_ok_iff.1 hel
        obtain ⟨e', he', hd'⟩ := outcome_bind_eq_ok_iff.1 hel
        cases hd'
        obtain ⟨tv', htv', hΔ⟩ := liftM_bind_eq_ok.1 hdecl
        obtain ⟨v, hv, hΔ⟩ := liftM_bind_eq_ok.1 hΔ
        cases hΔ
        obtain rfl : tv = tv' := Except.ok.inj ((ofEval_eq_ok.1 htv).symm.trans htv')
        exact hdefn ih hd ht htv' he' hv

/-! ## One more name -/

namespace Built

variable {es : List Entry} {Γ : Context}

theorem nil : Built fuel [] [] := Grown.nil

variable (h : Built fuel es Γ) {x : String} {type e : Source} {t e' : Term} {tv v : Value}

include h

theorem free (hx : Γ.binds x = false) (ht : (type.isType fuel Γ.scope).outcome = .ok t)
    (hv : Γ.eval fuel t = .ok v) :
    Built fuel (.declare (.free x type) :: es) ((x, .free v) :: Γ) := by
  refine .cons h ⟨trivial, .declare (outcome_bind_eq_ok_iff.2 ⟨t, ht, rfl⟩)
    (liftM_bind_eq_ok.2 ⟨v, hv, ?_⟩)⟩
  rw [bindFree, if_neg (by simp [hx])]
  rfl

theorem claim (ht : (type.isType fuel Γ.scope).outcome = .ok t) (hv : Γ.eval fuel t = .ok v) :
    Built fuel (.declare (.claim x type) :: es) ((x, .claim v) :: Γ) :=
  .cons h ⟨trivial, .declare (outcome_bind_eq_ok_iff.2 ⟨t, ht, rfl⟩)
    (liftM_bind_eq_ok.2 ⟨v, hv, rfl⟩)⟩

theorem defn (hx : ∀ t, (x, .free t) ∉ Γ) (ht : (type.isType fuel Γ.scope).outcome = .ok t)
    (htv : Γ.eval fuel t = .ok tv) (he : (e.check fuel Γ.scope tv).outcome = .ok e')
    (hv : Γ.eval fuel e' = .ok v) :
    Built fuel (.declare (.defn x type e) :: es) ((x, .defn tv v) :: Γ) :=
  .cons h ⟨hx, .declare
    (outcome_bind_eq_ok_iff.2 ⟨t, ht, outcome_bind_eq_ok_iff.2 ⟨tv, ofEval_eq_ok.2 htv,
      outcome_bind_eq_ok_iff.2 ⟨e', he, rfl⟩⟩⟩)
    (liftM_bind_eq_ok.2 ⟨tv, htv, liftM_bind_eq_ok.2 ⟨v, hv, rfl⟩⟩)⟩

theorem define (hx : ∀ t, (x, .free t) ∉ Γ) (hb : Γ.binding? x = some (.claim tv))
    (he : (e.check fuel Γ.scope tv).outcome = .ok e') (hv : Γ.eval fuel e' = .ok v) :
    Built fuel (.define x e :: es) ((x, .defn tv v) :: Γ) :=
  .cons h ⟨hx, .define hb he hv⟩

end Built

end Context

/-- The type of functions on numbers. -/
def Source.natToNat : Source := .arrow {} [.const {} .nat, .const {} .nat]

/-- A function, written out with a name for its argument. -/
def Source.expanded (f x : String) : Source := .lam {} [⟨{}, x⟩] (.app {} (.var {} f) [.var {} x])

namespace Session

open Checked

variable {fuel : Nat} {Γ Δ : Context} {loc : Location} {x : String}

/-- What a claim does that succeeds. -/
theorem claim_eq_ok {type : Source} (h : (claim fuel Γ loc x type).outcome = .ok Δ) :
    isVariableName x ∧ Γ.binds x = false ∧ ∃ t v, (type.isType fuel Γ.scope).outcome = .ok t ∧
      Γ.eval fuel t = .ok v ∧ Δ = (x, .claim v) :: Γ := by
  unfold claim at h
  split at h
  · cases h
  split at h
  · cases h
  · rename_i hname hx
    obtain ⟨t, ht, h⟩ := outcome_bind_eq_ok_iff.1 h
    obtain ⟨v, hv, h⟩ := outcome_bind_eq_ok_iff.1 h
    obtain ⟨_, -, h⟩ := outcome_bind_eq_ok_iff.1 h
    cases h
    exact ⟨by simpa using hname, by simpa using hx, t, v, ht, ofEval_eq_ok.1 hv, rfl⟩

/-- What a definition does that succeeds. -/
theorem define_eq_ok {e : Source} (h : (define fuel Γ loc x e).outcome = .ok Δ) :
    ∃ type t v, Γ.binding? x = some (.claim type) ∧
      (e.check fuel Γ.scope type).outcome = .ok t ∧ Γ.eval fuel t = .ok v ∧
        Δ = (x, .defn type v) :: Γ := by
  unfold define at h
  split at h
  · cases h
  · rename_i type hx
    obtain ⟨t, ht, h⟩ := outcome_bind_eq_ok_iff.1 h
    obtain ⟨v, hv, h⟩ := outcome_bind_eq_ok_iff.1 h
    obtain ⟨_, -, h⟩ := outcome_bind_eq_ok_iff.1 h
    cases h
    exact ⟨type, t, v, hx, ht, ofEval_eq_ok.1 hv, rfl⟩
  · cases h

/-- The context after a command is that of its answer, or what it was. -/
theorem context_perform (fuel : Nat) (s : Session) (c : Command) :
    (perform fuel s c).1.context = match (execute fuel s.context c).outcome with
      | .ok a => a.context
      | .error _ => s.context := by
  unfold perform
  match h : (execute fuel s.context c).outcome with
  | .ok a => simp only [h]
  | .error (.stop e) => simp only [h]
  | .error (.fault f) => simp only [h]

/-- The outcome of a command is that of its execution. -/
theorem outcome_perform (fuel : Nat) (s : Session) (c : Command) :
    (perform fuel s c).2.outcome = (execute fuel s.context c).outcome.map Answer.term? := by
  unfold perform
  match h : (execute fuel s.context c).outcome with
  | .ok a => simp only [h]; rfl
  | .error (.stop e) => simp only [h]; rfl
  | .error (.fault f) => simp only [h]; rfl

/-- A command leaves the context as it is, or it is a claim or a definition that succeeds. -/
theorem context_cases (fuel : Nat) (s : Session) (c : Command) :
    (perform fuel s c).1.context = s.context ∨
    (∃ loc x type, (claim fuel s.context loc x type).outcome = .ok (perform fuel s c).1.context) ∨
    ∃ loc x e, (define fuel s.context loc x e).outcome = .ok (perform fuel s c).1.context := by
  rw [context_perform]
  match h : (execute fuel s.context c).outcome with
  | .error _ => exact .inl rfl
  | .ok a =>
    cases c with
    | claim loc x type =>
      obtain ⟨Δ, hΔ, h⟩ := outcome_bind_eq_ok_iff.1 h
      cases h
      exact .inr (.inl ⟨loc, x, type, hΔ⟩)
    | define loc x e =>
      obtain ⟨Δ, hΔ, h⟩ := outcome_bind_eq_ok_iff.1 h
      cases h
      exact .inr (.inr ⟨loc, x, e, hΔ⟩)
    | checkSame | norm =>
      obtain ⟨_, -, h⟩ := outcome_bind_eq_ok_iff.1 h
      cases h
      exact .inl rfl

/-- What holds of the context without names and is kept by claims and definitions holds of the
context of every session. -/
theorem run_induction {fuel : Nat} {P : Context → Prop} (hnil : P [])
    (hclaim : ∀ {Γ Δ loc x type}, P Γ → (claim fuel Γ loc x type).outcome = .ok Δ → P Δ)
    (hdefine : ∀ {Γ Δ loc x e}, P Γ → (define fuel Γ loc x e).outcome = .ok Δ → P Δ)
    (cs : List Command) : P (run fuel {} cs).context := by
  have go : ∀ s : Session, P s.context → P (run fuel s cs).context := by
    induction cs with
    | nil => exact fun s hs ↦ hs
    | cons c cs ih =>
      intro s hs
      refine ih _ ?_
      rcases context_cases fuel s c with h | ⟨loc, x, type, h⟩ | ⟨loc, x, e, h⟩
      · rwa [h]
      · exact hclaim hs h
      · exact hdefine hs h
  exact go {} hnil

/-! ## The contexts of sessions are built -/

/-- A claim that succeeds adds a name. -/
theorem adds_claim {type : Source} (h : (claim fuel Γ loc x type).outcome = .ok Δ) :
    Γ.Adds fuel .passing (.declare (.claim x type)) Δ := by
  obtain ⟨-, -, t, v, ht, hv, rfl⟩ := claim_eq_ok h
  exact .declare (outcome_bind_eq_ok_iff.2 ⟨t, ht, rfl⟩) (Context.liftM_bind_eq_ok.2 ⟨v, hv, rfl⟩)

/-- A definition that succeeds adds a name. -/
theorem adds_define {e : Source} (h : (define fuel Γ loc x e).outcome = .ok Δ) :
    Γ.Adds fuel .passing (.define x e) Δ := by
  obtain ⟨type, t, v, hx, ht, hv, rfl⟩ := define_eq_ok h
  exact .define hx ht hv

/-- What is true of the context of a session: it is built from variable names, and nothing in it is
unknown. -/
structure Proper (fuel : Nat) (Γ : Context) : Prop where
  grown : ∃ es, Context.Grown (fun Γ e Δ ↦
    (Γ.Admits e ∧ Γ.Adds fuel .passing e Δ) ∧ isVariableName e.name) es Γ
  named : ∀ x ∈ Γ.names, isVariableName x
  known : ∀ x t, (x, .free t) ∉ Γ

theorem proper_run (fuel : Nat) (cs : List Command) : Proper fuel (run fuel {} cs).context := by
  refine run_induction ⟨⟨[], .nil⟩, nofun, nofun⟩ ?_ ?_ cs
  · intro Γ Δ loc x type ih h
    obtain ⟨es, hes⟩ := ih.grown
    obtain ⟨hname, -, t, v, -, -, rfl⟩ := claim_eq_ok h
    refine ⟨⟨.declare (.claim x type) :: es, hes.cons ⟨⟨trivial, adds_claim h⟩, hname⟩⟩, ?_, ?_⟩
    · exact List.forall_mem_cons.2 ⟨hname, ih.named⟩
    · exact fun y u hu ↦ ih.known y u ((List.mem_cons.1 hu).resolve_left nofun)
  · intro Γ Δ loc x e ih h
    obtain ⟨es, hes⟩ := ih.grown
    obtain ⟨type, t, v, hx, -, -, rfl⟩ := define_eq_ok h
    -- the name has been claimed
    have hname : isVariableName x := by
      obtain ⟨l₁, l₂, rfl, -⟩ := List.lookup_eq_some_iff.1 hx
      exact ih.named x (by simp [Context.names])
    refine ⟨⟨.define x e :: es, hes.cons ⟨⟨ih.known x, adds_define h⟩, hname⟩⟩, ?_, ?_⟩
    · exact List.forall_mem_cons.2 ⟨hname, ih.named⟩
    · exact fun y u hu ↦ ih.known y u ((List.mem_cons.1 hu).resolve_left nofun)

/-- The context of a session is built. -/
theorem exists_built_run (fuel : Nat) (cs : List Command) :
    ∃ es, Context.Built fuel es (run fuel {} cs).context := by
  obtain ⟨es, hes⟩ := (proper_run fuel cs).grown
  exact ⟨es, hes.mono fun _ _ _ ↦ And.left⟩

/-- The context of a session is one of variable names. -/
theorem stated_run (fuel : Nat) (cs : List Command) : (run fuel {} cs).context.Stated := by
  obtain ⟨es, hes⟩ := (proper_run fuel cs).grown
  exact ⟨es, hes.mono fun _ _ _ h ↦ ⟨h.2, fuel, .passing, h.1.2⟩⟩

end Session

end LittleTypes
