import LittleTypes.Proofs.Legal.Rules

/-!
# Arguments and binders in groups

A function of several parameters is a function whose result is a function, and likewise for types
with several binders, for arrows, and for functions with several arguments.  So it does not matter
how arguments and binders are grouped: a form and the one in which the last of them have a form of
their own are elaborated alike, to the same term, or with the same mistake at the same location, and
with the same log.

The rule of a form takes the arguments one by one.  The inner form adds one step to this: where the
whole has to belong to the universe, its own type is found and compared with the universe.
-/

namespace LittleTypes

open Checked

/-- The last arguments or binders of the first expression have a form of their own in the second.
Both groups have something in them, and the inner form may stand anywhere. -/
inductive Source.Groups : Source → Source → Prop
  | lam {l k : Location} {params params' : List Site} {b : Source} : params ≠ [] → params' ≠ [] →
    Groups (.lam l (params ++ params') b) (.lam l params (.lam k params' b))
  | pi {l k : Location} {binders binders' : List (Site × Source)} {b : Source} : binders ≠ [] →
    binders' ≠ [] → Groups (.pi l (binders ++ binders') b) (.pi l binders (.pi k binders' b))
  | sigma {l k : Location} {binders binders' : List (Site × Source)} {b : Source} : binders ≠ [] →
    binders' ≠ [] →
      Groups (.sigma l (binders ++ binders') b) (.sigma l binders (.sigma k binders' b))
  | arrow {l k : Location} {types types' : List Source} : types ≠ [] → 2 ≤ types'.length →
    Groups (.arrow l (types ++ types')) (.arrow l (types ++ [.arrow k types']))
  | app {l k : Location} {f : Source} {args args' : List Source} : args ≠ [] → args' ≠ [] →
    Groups (.app l f (args ++ args')) (.app l (.app k f args) args')

/-! ## Without fuel

Nothing can be said to belong to the universe, because the two types cannot be read back.  What the
inner form does comes too late to matter. -/

namespace Checked

variable {α β : Type}

/-- There is no answer. -/
def Fails (x : Checked α) : Prop := Yields (fun _ ↦ False) x

/-- What would come after a failure does not matter. -/
theorem Fails.bind_eq {x : Checked α} (h : x.Fails) (f g : α → Checked β) : x >>= f = x >>= g := by
  obtain ⟨log, outcome⟩ := x
  cases outcome with
  | ok a => exact (h a rfl).elim
  | error e => rfl

end Checked

theorem Elaborator.checkSynth_zero_fails (loc : Location) (synth : Scope → Checked Judgment)
    (s : Scope) (type : Value) : (checkSynth 0 loc synth s type).Fails := .after fun _ ↦ nofun

theorem Source.check_univ_zero_fails (e : Source) (s : Scope) :
    (e.check 0 s (.const .univ)).Fails := by
  have hsynth := Elaborator.checkSynth_zero_fails
  cases e with
  | hole => exact nofun
  | lam l params b =>
    cases params with
    | nil => exact .stop _ _ _
    | cons => exact .after fun _ ↦ nofun
  | const l k => cases k <;> first | exact hsynth _ _ _ _ | exact nofun
  | unary l k => cases k <;> first | exact hsynth _ _ _ _ | exact nofun
  | binary l k => cases k <;> first | exact hsynth _ _ _ _ | exact nofun
  | project l k => cases k <;> exact hsynth _ _ _ _
  | recursor l k => cases k <;> exact hsynth _ _ _ _
  | induct l k => cases k <;> exact hsynth _ _ _ _
  | transport l k => cases k <;> exact hsynth _ _ _ _
  | _ => exact hsynth _ _ _ _

/-! ## Rules -/

/-- A type former is elaborated as part of a type as it is by itself: its type is the universe, so
nothing is asked of it that it does not have. -/
theorem Elaborator.component_ofFormer (fuel : Nat) (loc : Location)
    (former : Bool → Scope → Checked Term) (inU : Bool) (s : Scope) :
    (ofFormer (fuel + 1) loc former).component inU s = former inU s := by
  cases inU with
  | false => rfl
  | true =>
    have hsame (l : Location) :
        s.sameType (fuel + 1) l (.const .univ) (.const .univ) = pure () := rfl
    have heval : s.eval (fuel + 1) (.const .univ) = pure (.const .univ) := rfl
    simp [component, ofFormer, checkSynth, hsame, heval]

namespace Rule

variable {fuel : Nat} {l k : Location} {b f : Elaborator}

theorem lambdaFrom_append (params : List Site) {params' : List Site} (h : params' ≠ []) (s : Scope)
    (type : Value) : lambdaFrom fuel b (params ++ params') s type =
      lambdaFrom fuel (lambda fuel k params' b) params s type := by
  induction params generalizing s type with
  | nil =>
    obtain ⟨site, params, rfl⟩ := List.exists_cons_of_ne_nil h
    rfl
  | cons site params ih => simp only [List.cons_append, lambdaFrom, ih]

theorem lambda_append {params params' : List Site} (h : params ≠ []) (h' : params' ≠ []) :
    lambda fuel l (params ++ params') b = lambda fuel l params (lambda fuel k params' b) := by
  obtain ⟨site, params, rfl⟩ := List.exists_cons_of_ne_nil h
  exact congrArg (Elaborator.ofCheck l) (funext₂ (lambdaFrom_append (site :: params) h'))

theorem appFrom_append (s : Scope) (args args' : List Elaborator) (j : Judgment) :
    appFrom fuel s (args ++ args') j = appFrom fuel s args j >>= appFrom fuel s args' := by
  induction args generalizing j with
  | nil => exact (pure_bind _ _).symm
  | cons a args ih => simp only [List.cons_append, appFrom, ih, bind_assoc]

theorem app_append {args args' : List Elaborator} (h : args ≠ []) (h' : args' ≠ []) :
    app fuel l f (args ++ args') = app fuel l (app fuel k f args) args' := by
  obtain ⟨a, args, rfl⟩ := List.exists_cons_of_ne_nil h
  obtain ⟨a', args', rfl⟩ := List.exists_cons_of_ne_nil h'
  refine congrArg (Elaborator.ofSynth fuel l) (funext fun s ↦ ?_)
  calc f.synth s >>= appFrom fuel s (a :: args ++ a' :: args')
    _ = f.synth s >>= fun j ↦ appFrom fuel s (a :: args) j >>= appFrom fuel s (a' :: args') :=
      bind_congr (appFrom_append s (a :: args) (a' :: args'))
    _ = (f.synth s >>= appFrom fuel s (a :: args)) >>= appFrom fuel s (a' :: args') :=
      (bind_assoc _ _ _).symm

/-- What follows the first binders may have a form of its own.  Without fuel nothing that follows
is reached, because the type of the first binder has no value. -/
theorem bindersFrom_append {inU : Bool} {build : String → Term → Term → Term}
    {former : Bool → Scope → Checked Term} {binders binders' : List (Site × Elaborator)}
    (h : binders ≠ []) (hformer : ∀ s, former inU s = bindersFrom fuel inU build b binders' s)
    (s : Scope) :
    bindersFrom fuel inU build b (binders ++ binders') s =
      bindersFrom fuel inU build (.ofFormer fuel k former) binders s := by
  cases fuel with
  | zero =>
    obtain ⟨⟨site, type⟩, binders, rfl⟩ := List.exists_cons_of_ne_nil h
    have hfails (t : Term) : (s.eval 0 t).Fails := nofun
    exact bind_congr fun _ ↦ bind_congr fun t ↦ (hfails t).bind_eq _ _
  | succ fuel =>
    clear h
    induction binders generalizing s with
    | nil => exact ((Elaborator.component_ofFormer fuel k former inU s).trans (hformer s)).symm
    | cons c binders ih => simp only [List.cons_append, bindersFrom, ih]

section Binders

variable {binders binders' : List (Site × Elaborator)} (h : binders ≠ []) (h' : binders' ≠ [])

include h h'

theorem pi_append :
    pi fuel l (binders ++ binders') b = pi fuel l binders (pi fuel k binders' b) := by
  obtain ⟨c, binders, rfl⟩ := List.exists_cons_of_ne_nil h
  obtain ⟨c', binders', rfl⟩ := List.exists_cons_of_ne_nil h'
  exact congrArg (Elaborator.ofFormer fuel l)
    (funext₂ fun _ ↦ bindersFrom_append h fun _ ↦ rfl)

theorem sigma_append :
    sigma fuel l (binders ++ binders') b = sigma fuel l binders (sigma fuel k binders' b) := by
  obtain ⟨c, binders, rfl⟩ := List.exists_cons_of_ne_nil h
  obtain ⟨c', binders', rfl⟩ := List.exists_cons_of_ne_nil h'
  exact congrArg (Elaborator.ofFormer fuel l)
    (funext₂ fun _ ↦ bindersFrom_append h fun _ ↦ rfl)

end Binders

/-- What follows the first types may be elaborated by a form of its own. -/
theorem arrowFrom_append {inU : Bool} {s : Scope} {dom inner a : Elaborator}
    {types rest : List Elaborator} (hinner : inner.component inU s = arrowFrom inU s a rest) :
    arrowFrom inU s dom (types ++ a :: rest) = arrowFrom inU s dom (types ++ [inner]) := by
  induction types generalizing dom with
  | nil => exact bind_congr fun t ↦ congrArg (· >>= _) hinner.symm
  | cons c types ih => simp only [List.cons_append, arrowFrom, ih]

/-- An arrow of at least two types. -/
theorem arrow_cons_append_cons (dom a : Elaborator) (types rest : List Elaborator) :
    arrow fuel l (dom :: types ++ a :: rest) =
      .ofFormer fuel l fun inU s ↦ arrowFrom inU s dom (types ++ a :: rest) := by
  cases types <;> rfl

/-- Without fuel it has to be known that the first type does not belong to the universe, or else the
inner form would be reached. -/
theorem arrow_append {types types' : List Elaborator} (h : types ≠ []) (h' : 2 ≤ types'.length)
    (hfuel : fuel = 0 → ∀ a ∈ types, ∀ s, (a.check s (.const .univ)).Fails) :
    arrow fuel l (types ++ types') = arrow fuel l (types ++ [arrow fuel k types']) := by
  obtain ⟨dom, types, rfl⟩ := List.exists_cons_of_ne_nil h
  match types', h' with
  | a :: a' :: rest, _ =>
    rw [arrow_cons_append_cons, arrow_cons_append_cons]
    refine congrArg (Elaborator.ofFormer fuel l) (funext₂ fun inU s ↦ ?_)
    cases fuel with
    | succ fuel => exact arrowFrom_append (Elaborator.component_ofFormer fuel k _ inU s)
    | zero =>
      cases inU with
      | false => exact arrowFrom_append rfl
      | true =>
        have hdom := hfuel rfl dom List.mem_cons_self s
        cases types <;> exact hdom.bind_eq _ _

end Rule

/-! ## Elaboration -/

namespace Source

/-- Forms that differ in how their arguments are grouped have the same elaborator. -/
theorem Groups.elaborator_eq {e e' : Source} (h : e.Groups e') (fuel : Nat) :
    e.elaborator fuel = e'.elaborator fuel := by
  cases h with
  | lam h h' => exact Rule.lambda_append h h'
  | pi h h' =>
    simp only [elaborator, binderElaborators_eq_map, List.map_append]
    exact Rule.pi_append (by simpa using h) (by simpa using h')
  | sigma h h' =>
    simp only [elaborator, binderElaborators_eq_map, List.map_append]
    exact Rule.sigma_append (by simpa using h) (by simpa using h')
  | arrow h h' =>
    simp only [elaborator, elaborators_eq_map, List.map_append, List.map_cons, List.map_nil]
    refine Rule.arrow_append (by simpa using h) (by simpa using h') ?_
    rintro rfl a ha s
    obtain ⟨t, -, rfl⟩ := List.mem_map.1 ha
    exact t.check_univ_zero_fails s
  | app h h' =>
    simp only [elaborator, elaborators_eq_map, List.map_append]
    exact Rule.app_append (by simpa using h) (by simpa using h')

/-- **Grouping does not matter.**  In every scope, a form and the one in which the last of its
arguments or binders have a form of their own are elaborated alike, whether they are checked
against a type, have to be types, or have their type found: the term is the same, or the failure
is, with its code, location and message, and so is the log. -/
theorem elaborated_alike_of_groups {e e' : Source} (h : e.Groups e') (fuel : Nat) (s : Scope)
    (type : Value) :
    e.check fuel s type = e'.check fuel s type ∧ e.isType fuel s = e'.isType fuel s ∧
      e.synth fuel s = e'.synth fuel s := by
  rw [check, check, isType, isType, synth, synth, h.elaborator_eq fuel]
  exact ⟨rfl, rfl, rfl⟩

/-- A binder of a number. -/
def bindsNat (x : String) : Site × Source := (⟨{}, x⟩, .const {} .nat)

/-- A function type with three binders, the last two of the same name, belongs to the universe
however it is grouped. -/
theorem elaborated_alike_of_groups_pi :
    let b := Source.equal {} (.const {} .nat) (.var {} "x") (.var {} "y")
    let e := Source.pi {} [bindsNat "x", bindsNat "y", bindsNat "y"] b
    let e' := Source.pi {} [bindsNat "x"] (.pi ⟨4, 7⟩ [bindsNat "y", bindsNat "y"] b)
    e.Groups e' ∧ (e'.check 5 {} (.const .univ)).outcome =
      .ok (.pi "x" (.const .nat) (.pi "y" (.const .nat) (.pi "y₁" (.const .nat)
        (.equal (.const .nat) (.var "x") (.var "y₁"))))) := by
  intro b e e'
  have h : e.Groups e' := .pi (List.cons_ne_nil _ []) (List.cons_ne_nil _ _)
  exact ⟨h, (congrArg Checked.outcome (elaborated_alike_of_groups h 5 {} _).1).symm.trans rfl⟩

end Source

end LittleTypes
