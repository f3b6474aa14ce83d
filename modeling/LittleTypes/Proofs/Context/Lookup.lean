import LittleTypes.Proofs.Match.Self
import LittleTypes.Proofs.Typing.Resolution

/-!
# Types and values of names

The checker asks a context for the type of a name, and the evaluator asks the environment made from
the context for its value.  Both pass over claims and over whatever is hidden by a later binding of
the same name; so the type and the value that they find belong together.
-/

namespace LittleTypes

/-- What a name with this binding stands for in evaluation. -/
def Binding.meaning? (x : String) : Binding → Option Value
  | free type => some (.ofVar x type)
  | claim _ => none
  | defn _ v => some v

namespace Context

variable {Γ : Context} {x : String} {b : Binding}

/-- The most recent binding of a name that is not a claim.  Later ones of this name are claims. -/
def Newest (Γ : Context) (x : String) (b : Binding) : Prop :=
  b.kind ≠ .claim ∧ ∃ later earlier, Γ = later ++ (x, b) :: earlier ∧
    ∀ c ∈ later, c.1 = x → c.2.kind = .claim

theorem visible?_eq_some_iff : Γ.visible? x = some b ↔ Γ.Newest x b := by
  rw [visible?, Option.map_eq_some_iff]
  constructor
  · rintro ⟨⟨y, b⟩, hfind, rfl⟩
    obtain ⟨hyb, later, earlier, rfl, hlater⟩ := List.find?_eq_some_iff_append.1 hfind
    obtain ⟨rfl, hb⟩ : y = x ∧ b.kind ≠ .claim := by simpa using hyb
    refine ⟨hb, later, earlier, rfl, fun c hc hcy ↦ ?_⟩
    simpa [hcy] using hlater c hc
  · rintro ⟨hb, later, earlier, rfl, hlater⟩
    refine ⟨(x, b), List.find?_eq_some_iff_append.2 ⟨by simpa using hb, later, earlier, rfl, ?_⟩, rfl⟩
    intro c hc
    simpa [imp_iff_not_or] using hlater c hc

/-- There is a most recent binding as soon as there is any binding that is not a claim. -/
theorem exists_newest_iff : (∃ b, Γ.Newest x b) ↔ ∃ b, (x, b) ∈ Γ ∧ b.kind ≠ .claim := by
  constructor
  · rintro ⟨b, hb, later, earlier, rfl, -⟩
    exact ⟨b, by simp, hb⟩
  · rintro ⟨b, hmem, hb⟩
    have hsome : (Γ.visible? x).isSome := by
      rw [visible?, Option.isSome_map, List.find?_isSome]
      exact ⟨(x, b), hmem, by simpa using hb⟩
    obtain ⟨c, hc⟩ := Option.isSome_iff_exists.1 hsome
    exact ⟨c, visible?_eq_some_iff.1 hc⟩

/-- The environment has the value of what a name stands for. -/
theorem lookup_env_eq_bind_visible? (Γ : Context) (x : String) :
    Γ.env.lookup x = (Γ.visible? x).bind (Binding.meaning? x) := by
  induction Γ with
  | nil => rfl
  | cons b Γ ih =>
    obtain ⟨y, b⟩ := b
    cases b with
    | claim t => simpa [env, visible?, Binding.kind] using ih
    | free t | defn t v =>
      by_cases h : y = x
      · subst h
        simp [env, visible?, Binding.kind, Binding.meaning?, Env.lookup]
      · simpa [env, visible?, Binding.kind, Env.lookup, h] using ih

/-- **Names are resolved alike.**  In every context a name has a type exactly if the environment has
a value for it, which is so exactly if some binding of the name is not a claim.  The type and the
value then come from the most recent of these bindings: the type is that of the binding, and the
value is the defined one, or, for a name that is free, the name itself at this very type. -/
theorem typeOf?_agrees_with_env (Γ : Context) (x : String) :
    ((Γ.typeOf? x).isSome ↔ (Γ.env.lookup x).isSome) ∧
    ((Γ.typeOf? x).isSome ↔ ∃ b, (x, b) ∈ Γ ∧ b.kind ≠ .claim) ∧
    ((Γ.typeOf? x).isSome ↔ ∃ b, Γ.Newest x b) ∧
    (∀ type v, Γ.Newest x (.defn type v) →
      Γ.typeOf? x = some type ∧ Γ.env.lookup x = some v) ∧
    ∀ type, Γ.Newest x (.free type) →
      Γ.typeOf? x = some type ∧ Γ.env.lookup x = some (.neu type (.var x)) := by
  have hnewest : (Γ.typeOf? x).isSome ↔ ∃ b, Γ.Newest x b := by
    rw [typeOf?_eq_map_visible?, Option.isSome_map, Option.isSome_iff_exists]
    exact exists_congr fun b ↦ visible?_eq_some_iff
  refine ⟨?_, hnewest.trans exists_newest_iff, hnewest, fun type v h ↦ ?_, fun type h ↦ ?_⟩
  · rw [SelfMatched.isSome_lookup_env]
  · rw [typeOf?_eq_map_visible?, lookup_env_eq_bind_visible?, visible?_eq_some_iff.2 h]
    exact ⟨rfl, rfl⟩
  · rw [typeOf?_eq_map_visible?, lookup_env_eq_bind_visible?, visible?_eq_some_iff.2 h]
    exact ⟨rfl, rfl⟩

/-- A definition between an older one that it hides and a claim that comes too late. -/
theorem typeOf?_agrees_with_env_shadowed :
    let Γ : Context := [("x", .claim (.const .atom)), ("y", .free (.const .atom)),
      ("x", .defn (.const .nat) (.const .zero)), ("x", .free (.const .trivial))]
    Γ.Newest "x" (.defn (.const .nat) (.const .zero)) ∧ Γ.Newest "y" (.free (.const .atom)) ∧
    Γ.typeOf? "x" = some (.const .nat) ∧ Γ.env.lookup "x" = some (.const .zero) ∧
    Γ.typeOf? "y" = some (.const .atom) ∧
    Γ.env.lookup "y" = some (.neu (.const .atom) (.var "y")) := by
  intro Γ
  have hx : Γ.Newest "x" (.defn (.const .nat) (.const .zero)) :=
    ⟨by decide, [("x", .claim (.const .atom)), ("y", .free (.const .atom))], _, rfl,
      by simp [Binding.kind]⟩
  have hy : Γ.Newest "y" (.free (.const .atom)) :=
    ⟨by decide, [("x", .claim (.const .atom))], _, rfl, by simp⟩
  obtain ⟨-, -, -, hdefn, -⟩ := typeOf?_agrees_with_env Γ "x"
  obtain ⟨-, -, -, -, hfree⟩ := typeOf?_agrees_with_env Γ "y"
  exact ⟨hx, hy, (hdefn _ _ hx).1, (hdefn _ _ hx).2, (hfree _ hy).1, (hfree _ hy).2⟩

end Context

end LittleTypes
