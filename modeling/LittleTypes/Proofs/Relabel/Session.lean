import LittleTypes.Proofs.Relabel.Rules
import LittleTypes.Proofs.Session.Replay

/-!
# Locations are opaque

A session that takes the same commands with other locations does the same, step by step: mistakes
are reported with the same code and the same text at the location that took the place of the other,
and terms are the same up to the locations of their unfinished expressions.
-/

namespace LittleTypes

/-! ## Source terms -/

namespace Source

mutual

/-- The source term with other locations. -/
def relabel (ρ : Relabelling) : Source → Source
  | missing => missing
  | var l x => var (ρ.map l) x
  | hole l => hole (ρ.map l)
  | the l t e => the (ρ.map l) (t.relabel ρ) (e.relabel ρ)
  | app l f args => app (ρ.map l) (f.relabel ρ) (relabelAll ρ args)
  | numeral l n => numeral (ρ.map l) n
  | quote l s => quote (ρ.map l) s
  | lam l xs b => lam (ρ.map l) (xs.map (Site.relabel ρ)) (b.relabel ρ)
  | pi l bs b => pi (ρ.map l) (relabelBinders ρ bs) (b.relabel ρ)
  | sigma l bs b => sigma (ρ.map l) (relabelBinders ρ bs) (b.relabel ρ)
  | arrow l ts => arrow (ρ.map l) (relabelAll ρ ts)
  | pair l a d => pair (ρ.map l) (a.relabel ρ) (d.relabel ρ)
  | const l k => const (ρ.map l) k
  | unary l k a => unary (ρ.map l) k (a.relabel ρ)
  | binary l k a b => binary (ρ.map l) k (a.relabel ρ) (b.relabel ρ)
  | equal l t a b => equal (ρ.map l) (t.relabel ρ) (a.relabel ρ) (b.relabel ρ)
  | project l k t => project (ρ.map l) k (t.relabel ρ)
  | recursor l k t b s => recursor (ρ.map l) k (t.relabel ρ) (b.relabel ρ) (s.relabel ρ)
  | induct l k t m b s =>
    induct (ρ.map l) k (t.relabel ρ) (m.relabel ρ) (b.relabel ρ) (s.relabel ρ)
  | transport l k t m b => transport (ρ.map l) k (t.relabel ρ) (m.relabel ρ) (b.relabel ρ)
  | indAbsurd l t m => indAbsurd (ρ.map l) (t.relabel ρ) (m.relabel ρ)
  | trans l a b => trans (ρ.map l) (a.relabel ρ) (b.relabel ρ)
  | cong l t f => cong (ρ.map l) (t.relabel ρ) (f.relabel ρ)
  | indVec l n t m b s =>
    indVec (ρ.map l) (n.relabel ρ) (t.relabel ρ) (m.relabel ρ) (b.relabel ρ) (s.relabel ρ)

/-- Several source terms with other locations. -/
def relabelAll (ρ : Relabelling) : List Source → List Source
  | [] => []
  | e :: es => e.relabel ρ :: relabelAll ρ es

/-- Several binders with other locations. -/
def relabelBinders (ρ : Relabelling) : List (Site × Source) → List (Site × Source)
  | [] => []
  | (site, t) :: bs => (site.relabel ρ, t.relabel ρ) :: relabelBinders ρ bs

end

open Rule in
mutual

/-- Elaboration does not look at locations. -/
theorem elaborator_relabel (ρ : Relabelling) (fuel : Nat) (e : Source) :
    (e.elaborator fuel).Relabels ρ ((e.relabel ρ).elaborator fuel) := by
  match e with
  | missing => exact relabels_missing
  | var l x => exact relabels_var l x
  | hole l => exact relabels_hole l
  | the l t e => exact relabels_the l (t.elaborator_relabel ρ fuel) (e.elaborator_relabel ρ fuel)
  | app l f as => exact relabels_app l (f.elaborator_relabel ρ fuel) (elaborators_relabel ρ fuel as)
  | numeral l n => exact relabels_plainValue l .nat rfl
  | quote l s => exact relabels_quote l s
  | lam l xs b => exact relabels_lambda l xs (b.elaborator_relabel ρ fuel)
  | pi l bs b =>
    exact relabels_pi l (binderElaborators_relabel ρ fuel bs) (b.elaborator_relabel ρ fuel)
  | sigma l bs b =>
    exact relabels_sigma l (binderElaborators_relabel ρ fuel bs) (b.elaborator_relabel ρ fuel)
  | arrow l ts => exact relabels_arrow l (elaborators_relabel ρ fuel ts)
  | pair l a d => exact relabels_pair l (a.elaborator_relabel ρ fuel) (d.elaborator_relabel ρ fuel)
  | const l k => exact relabels_const l k
  | unary l k a => exact relabels_unary l k (a.elaborator_relabel ρ fuel)
  | binary l k a b =>
    exact relabels_binary l k (a.elaborator_relabel ρ fuel) (b.elaborator_relabel ρ fuel)
  | equal l t a b =>
    exact relabels_equal l (t.elaborator_relabel ρ fuel) (a.elaborator_relabel ρ fuel)
      (b.elaborator_relabel ρ fuel)
  | project l k t => exact relabels_project l k (t.elaborator_relabel ρ fuel)
  | recursor l k t b s =>
    exact relabels_recursor l k (t.elaborator_relabel ρ fuel) (b.elaborator_relabel ρ fuel)
      (s.elaborator_relabel ρ fuel)
  | induct l k t m b s =>
    exact relabels_induct l k (t.elaborator_relabel ρ fuel) (m.elaborator_relabel ρ fuel)
      (b.elaborator_relabel ρ fuel) (s.elaborator_relabel ρ fuel)
  | transport l k t m b =>
    exact relabels_transport l k (t.elaborator_relabel ρ fuel) (m.elaborator_relabel ρ fuel)
      (b.elaborator_relabel ρ fuel)
  | indAbsurd l t m =>
    exact relabels_indAbsurd l (t.elaborator_relabel ρ fuel) (m.elaborator_relabel ρ fuel)
  | trans l a b =>
    exact relabels_trans l (a.elaborator_relabel ρ fuel) (b.elaborator_relabel ρ fuel)
  | cong l t f => exact relabels_cong l (t.elaborator_relabel ρ fuel) (f.elaborator_relabel ρ fuel)
  | indVec l n t m b s =>
    exact relabels_indVec l (n.elaborator_relabel ρ fuel) (t.elaborator_relabel ρ fuel)
      (m.elaborator_relabel ρ fuel) (b.elaborator_relabel ρ fuel) (s.elaborator_relabel ρ fuel)

theorem elaborators_relabel (ρ : Relabelling) (fuel : Nat) (es : List Source) :
    List.Forall₂ (Elaborator.Relabels ρ) (elaborators fuel es)
      (elaborators fuel (relabelAll ρ es)) := by
  match es with
  | [] => exact .nil
  | e :: es => exact .cons (e.elaborator_relabel ρ fuel) (elaborators_relabel ρ fuel es)

theorem binderElaborators_relabel (ρ : Relabelling) (fuel : Nat) (bs : List (Site × Source)) :
    RelabelBinders ρ (binderElaborators fuel bs)
      (binderElaborators fuel (relabelBinders ρ bs)) := by
  match bs with
  | [] => exact .nil
  | (site, t) :: bs =>
    exact .cons ⟨rfl, t.elaborator_relabel ρ fuel⟩ (binderElaborators_relabel ρ fuel bs)

end

end Source

/-! ## Questions -/

open Checked (Mirrors)

/-- The other location of a mistake is what is done about it. -/
theorem Checked.Mirrors.onStop {ρ : Relabelling} {α α' : Type} {f : α → α'} {x : Checked α}
    {y : Checked α'} {k : Stop → Checked α} {k' : Stop → Checked α'} (h : Mirrors ρ f x y)
    (hk : ∀ s, Mirrors ρ f (k s) (k' (s.relabel ρ))) : Mirrors ρ f (x.onStop k) (y.onStop k') := by
  obtain ⟨log, o⟩ := x
  obtain ⟨log', o'⟩ := y
  obtain rfl : o' = (o.map f).mapError (Failure.relabel ρ) := h
  match o with
  | .ok a => rfl
  | .error (.stop s) => exact hk s
  | .error (.fault g) => rfl

namespace Context

variable (ρ : Relabelling) (fuel : Nat) (Γ : Context)

theorem rep_relabel (e : Source) :
    Mirrors ρ (Term.relabel ρ) (Γ.rep fuel e) ((Γ.relabel ρ).rep fuel (e.relabel ρ)) := by
  refine ((e.elaborator_relabel ρ fuel).synth Γ.scope).bind fun j ↦ ?_
  refine (Γ.scope.eval_relabel ρ j.type).bind fun T ↦ ?_
  refine (Γ.scope.eval_relabel ρ j.term).bind fun v ↦ ?_
  exact (Γ.scope.readBackType_relabel ρ T).bind fun _ ↦
    (Γ.scope.readBack_relabel ρ T v).bind fun _ ↦ .term _

theorem normType_relabel (e : Source) :
    Mirrors ρ (Term.relabel ρ) (Γ.normType fuel e) ((Γ.relabel ρ).normType fuel (e.relabel ρ)) :=
  ((e.elaborator_relabel ρ fuel).isType Γ.scope).bind fun t ↦
    (Γ.scope.eval_relabel ρ t).bind fun v ↦ Γ.scope.readBackType_relabel ρ v

theorem norm_relabel (e : Source) :
    Mirrors ρ (Term.relabel ρ) (Γ.norm fuel e) ((Γ.relabel ρ).norm fuel (e.relabel ρ)) :=
  (Γ.rep_relabel ρ fuel e).onStop fun _ ↦ (Γ.normType_relabel ρ fuel e).onStop fun _ ↦ rfl

theorem checkSame_relabel (loc : Location) (type a b : Source) :
    Mirrors ρ id (Γ.checkSame fuel loc type a b)
      ((Γ.relabel ρ).checkSame fuel (ρ.map loc) (type.relabel ρ) (a.relabel ρ) (b.relabel ρ)) := by
  refine ((type.elaborator_relabel ρ fuel).isType Γ.scope).bind fun t ↦ ?_
  refine (Γ.scope.eval_relabel ρ t).bind fun T ↦ ?_
  refine ((a.elaborator_relabel ρ fuel).check Γ.scope T).bind fun a' ↦ ?_
  refine ((b.elaborator_relabel ρ fuel).check Γ.scope T).bind fun b' ↦ ?_
  refine (Γ.scope.eval_relabel ρ a').bind fun v ↦ (Γ.scope.eval_relabel ρ b').bind fun w ↦ ?_
  exact Γ.scope.convert_relabel ρ loc T v w

end Context

/-- The listed binding with other locations. -/
def Listed.relabel (ρ : Relabelling) (l : Listed) : Listed :=
  { l with type := l.type.relabel ρ, value := l.value.map (Term.relabel ρ) }

/-- A context with other locations is listed with other locations. -/
theorem Context.listing_relabel (ρ : Relabelling) (fuel : Nat) (Γ : Context) :
    Carries id (List.map (Listed.relabel ρ)) (Γ.listing fuel) ((Γ.relabel ρ).listing fuel) := by
  induction Γ with
  | nil => rfl
  | cons b Γ ih =>
    obtain ⟨x, b⟩ := b
    have hread := reader_relabels ρ fuel
    cases b with
    | free t | claim t => exact (hread.type Γ t).bind fun _ ↦ ih.bind fun _ ↦ rfl
    | defn t v =>
      have hv : Carries id (Option.map (Term.relabel ρ)) (some <$> readBack fuel Γ t v)
          (some <$> readBack fuel (relabel ρ Γ) (t.relabel ρ) (v.relabel ρ)) := by
        rw [map_eq_pure_bind, map_eq_pure_bind]
        exact (hread.value Γ t v).bind fun _ ↦ rfl
      exact (hread.type Γ t).bind fun _ ↦ hv.bind fun _ ↦ ih.bind fun _ ↦ rfl

/-! ## Sessions -/

namespace Session

/-- The command with other locations. -/
def Command.relabel (ρ : Relabelling) : Command → Command
  | claim l x t => claim (ρ.map l) x (t.relabel ρ)
  | define l x e => define (ρ.map l) x (e.relabel ρ)
  | checkSame l t a b => checkSame (ρ.map l) (t.relabel ρ) (a.relabel ρ) (b.relabel ρ)
  | norm e => norm (e.relabel ρ)

/-- The answer with other locations. -/
def Answer.relabel (ρ : Relabelling) (a : Answer) : Answer :=
  ⟨a.context.relabel ρ, a.term?.map (Term.relabel ρ)⟩

/-- The session with other locations. -/
def relabel (ρ : Relabelling) (s : Session) : Session :=
  ⟨s.context.relabel ρ, s.errors.map (Stop.relabel ρ)⟩

variable (ρ : Relabelling) (fuel : Nat) (Γ : Context)

theorem claim_relabel (loc : Location) (x : String) (type : Source) :
    Mirrors ρ (Context.relabel ρ) (claim fuel Γ loc x type)
      (claim fuel (Γ.relabel ρ) (ρ.map loc) x (type.relabel ρ)) := by
  rw [claim, claim, Context.binds_relabel]
  split
  · rfl
  split
  · rfl
  · refine ((type.elaborator_relabel ρ fuel).isType Γ.scope).bind fun t ↦ ?_
    exact (Γ.scope.eval_relabel ρ t).bind fun v ↦ rfl

theorem define_relabel (loc : Location) (x : String) (e : Source) :
    Mirrors ρ (Context.relabel ρ) (define fuel Γ loc x e)
      (define fuel (Γ.relabel ρ) (ρ.map loc) x (e.relabel ρ)) := by
  rw [define, define, Context.binding?_relabel]
  match Γ.binding? x with
  | none => rfl
  | some (.claim type) =>
    refine ((e.elaborator_relabel ρ fuel).check Γ.scope type).bind fun t ↦ ?_
    exact (Γ.scope.eval_relabel ρ t).bind fun v ↦ rfl
  | some (.free t) => rfl
  | some (.defn t v) => rfl

theorem execute_relabel (c : Command) :
    Mirrors ρ (Answer.relabel ρ) (execute fuel Γ c) (execute fuel (Γ.relabel ρ) (c.relabel ρ)) := by
  cases c with
  | claim l x t => exact (claim_relabel ρ fuel Γ l x t).bind fun _ ↦ rfl
  | define l x e => exact (define_relabel ρ fuel Γ l x e).bind fun _ ↦ rfl
  | checkSame l t a b => exact (Γ.checkSame_relabel ρ fuel l t a b).bind fun _ ↦ rfl
  | norm e => exact (Γ.norm_relabel ρ fuel e).bind fun _ ↦ rfl

/-- One command with other locations. -/
theorem perform_relabel (s : Session) (c : Command) :
    (perform fuel (s.relabel ρ) (c.relabel ρ)).1 = (perform fuel s c).1.relabel ρ ∧
      Mirrors ρ (Option.map (Term.relabel ρ)) (perform fuel s c).2
        (perform fuel (s.relabel ρ) (c.relabel ρ)).2 := by
  have h := execute_relabel ρ fuel s.context c
  unfold perform
  match ho : (execute fuel s.context c).outcome with
  | .ok a =>
    have h' : (execute fuel (s.relabel ρ).context (c.relabel ρ)).outcome = .ok (a.relabel ρ) := by
      rwa [Mirrors, Carries, ho] at h
    simp only [h', ho]
    exact ⟨rfl, rfl⟩
  | .error (.stop e) =>
    have h' : (execute fuel (s.relabel ρ).context (c.relabel ρ)).outcome =
        .error (.stop (e.relabel ρ)) := by rwa [Mirrors, Carries, ho] at h
    simp only [h', ho]
    exact ⟨by simp only [relabel, List.map_append, List.map_cons, List.map_nil], rfl⟩
  | .error (.fault f) =>
    have h' : (execute fuel (s.relabel ρ).context (c.relabel ρ)).outcome = .error (.fault f) := by
      rwa [Mirrors, Carries, ho] at h
    simp only [h', ho, true_and]
    rfl

/-- Several commands with other locations. -/
theorem run_relabel (s : Session) (cs : List Command) :
    run fuel (s.relabel ρ) (cs.map (Command.relabel ρ)) = (run fuel s cs).relabel ρ := by
  induction cs generalizing s with
  | nil => rfl
  | cons c cs ih =>
    change run fuel (perform fuel (s.relabel ρ) (c.relabel ρ)).1 _ = _
    rw [(perform_relabel ρ fuel s c).1, ih]
    rfl

/-- How a step ends with other locations, given how it ended before. -/
inductive EndsAlike (ρ : Relabelling) :
    Except Failure (Option Term) → Except Failure (Option Term) → Prop
  /-- Terms differ in the locations of unfinished expressions. -/
  | ok (t : Option Term) : EndsAlike ρ (.ok t) (.ok (t.map (Term.relabel ρ)))
  /-- Mistakes differ in their location. -/
  | stop {s s' : Stop} : s'.code = s.code → s'.text = s.text → s'.loc = ρ.map s.loc →
    EndsAlike ρ (.error (.stop s)) (.error (.stop s'))
  | fault (f : Fault) : EndsAlike ρ (.error (.fault f)) (.error (.fault f))

theorem endsAlike_of_mirrors {x y : Checked (Option Term)}
    (h : Mirrors ρ (Option.map (Term.relabel ρ)) x y) : EndsAlike ρ x.outcome y.outcome := by
  obtain ⟨log, o⟩ := x
  obtain ⟨log', o'⟩ := y
  obtain rfl : o' = (o.map (Option.map (Term.relabel ρ))).mapError (Failure.relabel ρ) := h
  match o with
  | .ok t => exact .ok t
  | .error (.stop s) => exact .stop rfl (s.text_relabel ρ) rfl
  | .error (.fault f) => exact .fault f

theorem answers_relabel (s : Session) (cs : List Command) :
    List.Forall₂ (fun a a' ↦ EndsAlike ρ a.outcome a'.outcome) (answers fuel s cs)
      (answers fuel (s.relabel ρ) (cs.map (Command.relabel ρ))) := by
  induction cs generalizing s with
  | nil => exact .nil
  | cons c cs ih =>
    obtain ⟨hs, ha⟩ := perform_relabel ρ fuel s c
    refine .cons (endsAlike_of_mirrors ρ ha) ?_
    rw [hs]
    exact ih _

/-- **Locations are opaque.**  Commands with other locations end alike, step by step, and the
context after them is listed alike. -/
theorem locations_opaque (fuel : Nat) (ρ : Relabelling) (cs : List Command) :
    List.Forall₂ (fun a a' ↦ EndsAlike ρ a.outcome a'.outcome) (answers fuel {} cs)
      (answers fuel {} (cs.map (Command.relabel ρ))) ∧
    (run fuel {} (cs.map (Command.relabel ρ))).context.listing fuel =
      ((run fuel {} cs).context.listing fuel).map (List.map (Listed.relabel ρ)) := by
  refine ⟨answers_relabel ρ fuel {} cs, ?_⟩
  have hrun : run fuel {} (cs.map (Command.relabel ρ)) = (run fuel {} cs).relabel ρ :=
    run_relabel ρ fuel {} cs
  have hl := (run fuel {} cs).context.listing_relabel ρ fuel
  unfold Carries at hl
  rw [hrun]
  refine hl.trans ?_
  cases ((run fuel {} cs).context.listing fuel).map (List.map (Listed.relabel ρ)) <;> rfl

/-- An unfinished definition is returned with the doubled location, and the comparison with another
unfinished expression fails at the doubled location. -/
theorem locations_opaque_doubled :
    let nat : Source := .const ⟨1, 2⟩ .nat
    let cs : List Command := [.claim ⟨3, 4⟩ "n" nat, .define ⟨5, 6⟩ "n" (.hole ⟨7, 8⟩),
      .norm (.var ⟨9, 10⟩ "n"), .checkSame ⟨11, 12⟩ nat (.var ⟨13, 14⟩ "n") (.hole ⟨15, 16⟩)]
    let cs' := cs.map (Command.relabel .doubled)
    let stopsAt (a : Checked (Option Term)) (loc : Location) : Prop :=
      ∃ s : Stop, a.outcome = .error (.stop s) ∧ s.loc = loc
    (∃ a b c d, answers 9 {} cs = [a, b, c, d] ∧
      c.outcome = .ok (some (.the (.const .nat) (.hole ⟨7, 8⟩ (.const .nat)))) ∧
      stopsAt d ⟨11, 12⟩) ∧
    (∃ a b c d, answers 9 {} cs' = [a, b, c, d] ∧
      c.outcome = .ok (some (.the (.const .nat) (.hole ⟨14, 16⟩ (.const .nat)))) ∧
      stopsAt d ⟨22, 24⟩) ∧
    List.Forall₂ (fun a a' ↦ EndsAlike .doubled a.outcome a'.outcome) (answers 9 {} cs)
      (answers 9 {} cs') ∧
    (run 9 {} cs').context.listing 9 =
      ((run 9 {} cs).context.listing 9).map (List.map (Listed.relabel .doubled)) := by
  intro nat cs cs' stopsAt
  exact ⟨⟨_, _, _, _, rfl, rfl, _, rfl, rfl⟩, ⟨_, _, _, _, rfl, rfl, _, rfl, rfl⟩,
    locations_opaque 9 .doubled cs⟩

end Session

end LittleTypes
