import LittleTypes.Proofs.Context.Built
import LittleTypes.Proofs.Name.Fresh
import LittleTypes.Proofs.Typing.Mistakes

/-!
# Declarations come in order

The context of a session is a list that only grows, and a name is looked up in it from the most
recent binding.  Whether a declaration is refused is decided by what the list says about its name;
so after any commands every name is claimed once and defined at most once, later and at the same
type, and what it is defined as was checked against that type in the context that there was then.
-/

namespace LittleTypes

namespace Context

/-- What a context says about a name, most recent first. -/
def entries (Γ : Context) (x : String) : Context := Γ.filter fun b ↦ b.1 = x

section Entries

variable {Γ : Context} {x y : String} {b : Binding}

theorem entries_cons_self : entries ((x, b) :: Γ) x = (x, b) :: Γ.entries x := by simp [entries]

theorem entries_cons_of_ne (h : y ≠ x) : entries ((y, b) :: Γ) x = Γ.entries x := by
  simp [entries, h]

theorem mem_entries : (x, b) ∈ Γ.entries x ↔ (x, b) ∈ Γ := by simp [entries]

theorem entries_eq_nil_iff : Γ.entries x = [] ↔ x ∉ Γ.names := by
  simp only [entries, List.filter_eq_nil_iff, decide_eq_true_eq, names, List.mem_map, not_exists,
    not_and]

/-- A name is looked up as the most recent of its entries. -/
theorem binding?_eq_head? : Γ.binding? x = (Γ.entries x).head?.map Prod.snd := by
  induction Γ with
  | nil => rfl
  | cons b Γ ih =>
    obtain ⟨y, b⟩ := b
    by_cases h : y = x
    · subst h
      rw [entries_cons_self]
      exact List.lookup_cons_self
    · rw [entries_cons_of_ne h, binding?_cons_of_ne (Ne.symm h), ih]

end Entries

/-- A context as claims and definitions build it. -/
structure Orderly (fuel : Nat) (Γ : Context) : Prop where
  named : ∀ b ∈ Γ, isVariableName b.1 ∧ b.2.kind ≠ .free
  once : ∀ x ∈ Γ.names, ∃ t, Γ.entries x = [(x, .claim t)] ∨
    ∃ v, Γ.entries x = [(x, .defn t v), (x, .claim t)]
  checked : ∀ Θ x t v Δ, Γ = Θ ++ (x, .defn t v) :: Δ →
    ∃ e c, (Source.check fuel (scope Δ) e t).outcome = .ok c ∧ eval fuel Δ c = .ok v

namespace Orderly

variable {fuel : Nat} {Γ : Context} {x : String} {t v : Value}

theorem nil : Orderly fuel [] where
  named := nofun
  once := nofun
  checked := by simp

/-- The definitions of a longer context that are not its most recent binding. -/
theorem checked_cons (hΓ : Γ.Orderly fuel) {b : Binding}
    (hb : ∀ t v, b = .defn t v → ∃ e c,
      (Source.check fuel Γ.scope e t).outcome = .ok c ∧ Γ.eval fuel c = .ok v) :
    ∀ Θ y t v Δ, (x, b) :: Γ = Θ ++ (y, .defn t v) :: Δ →
      ∃ e c, (Source.check fuel (scope Δ) e t).outcome = .ok c ∧ eval fuel Δ c = .ok v := by
  intro Θ y t v Δ h
  cases Θ with
  | nil =>
    cases h
    exact hb t v rfl
  | cons d Θ => exact hΓ.checked Θ y t v Δ (List.cons.inj h).2

theorem claim (hΓ : Γ.Orderly fuel) (hx : isVariableName x) (hnew : x ∉ Γ.names) (t : Value) :
    Orderly fuel ((x, .claim t) :: Γ) where
  named := by
    rintro b (_ | ⟨_, hb⟩)
    · exact ⟨hx, nofun⟩
    · exact hΓ.named b hb
  once := by
    intro y hy
    by_cases h : x = y
    · subst h
      rw [entries_cons_self, entries_eq_nil_iff.2 hnew]
      exact ⟨t, .inl rfl⟩
    · rw [entries_cons_of_ne h]
      exact hΓ.once y ((List.mem_cons.1 hy).resolve_left (Ne.symm h))
  checked := hΓ.checked_cons nofun

/-- A name that is looked up as claimed has no other entry. -/
theorem entries_of_claimed (hΓ : Γ.Orderly fuel) (hx : Γ.binding? x = some (.claim t)) :
    Γ.entries x = [(x, .claim t)] := by
  rw [binding?_eq_head?] at hx
  have hmem : x ∈ Γ.names := by
    by_contra h
    rw [entries_eq_nil_iff.2 h] at hx
    cases hx
  obtain ⟨t', h | ⟨v, h⟩⟩ := hΓ.once x hmem
  · rw [h] at hx ⊢
    cases hx
    rfl
  · rw [h] at hx
    cases hx

theorem define (hΓ : Γ.Orderly fuel) (hx : Γ.binding? x = some (.claim t)) {e : Source} {c : Term}
    (hc : (e.check fuel Γ.scope t).outcome = .ok c) (hv : Γ.eval fuel c = .ok v) :
    Orderly fuel ((x, .defn t v) :: Γ) where
  named := by
    have hclaim : (x, .claim t) ∈ Γ := by
      rw [← mem_entries, hΓ.entries_of_claimed hx]
      exact List.mem_cons_self
    rintro b (_ | ⟨_, hb⟩)
    · exact ⟨(hΓ.named _ hclaim).1, nofun⟩
    · exact hΓ.named b hb
  once := by
    intro y hy
    by_cases h : x = y
    · subst h
      rw [entries_cons_self, hΓ.entries_of_claimed hx]
      exact ⟨t, .inr ⟨v, rfl⟩⟩
    · rw [entries_cons_of_ne h]
      exact hΓ.once y ((List.mem_cons.1 hy).resolve_left (Ne.symm h))
  checked := by
    refine hΓ.checked_cons ?_
    rintro t v ⟨⟩
    exact ⟨e, c, hc, hv⟩

/-- What a look-up finds says which entries there are. -/
theorem claimed_iff (hΓ : Γ.Orderly fuel) : (∃ t, Γ.binding? x = some (.claim t)) ↔
    (∃ t, (x, .claim t) ∈ Γ) ∧ ∀ t v, (x, .defn t v) ∉ Γ := by
  simp only [← mem_entries (Γ := Γ) (x := x)]
  constructor
  · rintro ⟨t, ht⟩
    rw [hΓ.entries_of_claimed ht]
    simp
  · rintro ⟨⟨t, ht⟩, hdefn⟩
    rw [mem_entries] at ht
    obtain ⟨t', h | ⟨v, h⟩⟩ := hΓ.once x (List.mem_map_of_mem ht)
    · exact ⟨t', by rw [binding?_eq_head?, h]; rfl⟩
    · exact absurd (h ▸ List.mem_cons_self) (hdefn t' v)

theorem mem_names_iff (hΓ : Γ.Orderly fuel) : x ∈ Γ.names ↔
    (∃ t, (x, .claim t) ∈ Γ) ∨ ∃ t v, (x, .defn t v) ∈ Γ := by
  constructor
  · intro hx
    obtain ⟨t, h | ⟨v, h⟩⟩ := hΓ.once x hx
    · exact .inl ⟨t, mem_entries.1 (h ▸ List.mem_cons_self)⟩
    · exact .inr ⟨t, v, mem_entries.1 (h ▸ List.mem_cons_self)⟩
  · rintro (⟨t, h⟩ | ⟨t, v, h⟩)
    · exact List.mem_map_of_mem h
    · exact List.mem_map_of_mem h

end Orderly

end Context

namespace Session

open Checked

variable {fuel : Nat} {Γ Δ : Context} {loc : Location} {x : String}

/-- The mistakes with which a declaration of a name is refused, whatever it is declared as. -/
inductive Refusal (loc : Location) (x : String) : Stop → Prop
  | notName : Refusal loc x
    ⟨.badName, loc, ["Can't claim \"" ++ x ++ "\", it is not a variable name"]⟩
  | inUse : Refusal loc x ⟨.declaration, loc, ["The name", x, "is already in use"]⟩
  | unclaimed : Refusal loc x ⟨.declaration, loc, ["Can't define", x, "before claiming it"]⟩
  | defined : Refusal loc x ⟨.declaration, loc, ["The name", x, "is already defined"]⟩

/-- A declaration is refused. -/
def Refused {α : Type} (loc : Location) (x : String) (y : Checked α) : Prop :=
  ∃ s, y.outcome = .error (.stop s) ∧ Refusal loc x s

/-- A refusal is not a mistake in an expression. -/
theorem Refusal.not_inExpression {s : Stop} (h : Refusal loc x s) : ¬s.InExpression := by
  rintro ⟨hcode, hname⟩
  cases h with
  | notName =>
    obtain ⟨y, hy⟩ | ⟨y, hy⟩ := hname rfl
    · -- the two texts do not begin alike
      have htext := Part.text.inj (List.cons.inj hy).1
      simpa using congrArg (fun text ↦ text.toList.head?) htext
    · simp at hy
  | inUse | unclaimed | defined => exact hcode rfl

theorem not_refused_of_inExpression {α : Type} {y : Checked α} (h : y.InExpression) :
    ¬Refused loc x y := fun ⟨_, hs, hr⟩ ↦ hr.not_inExpression (h _ hs)

theorem refused_claim_iff {type : Source} :
    Refused loc x (claim fuel Γ loc x type) ↔ ¬(isVariableName x ∧ x ∉ Γ.names) := by
  rw [← Context.binds_eq_false_iff]
  unfold claim
  split
  · rename_i h
    refine iff_of_true ⟨_, rfl, .notName⟩ ?_
    simp_all
  · split
    · rename_i h
      refine iff_of_true ⟨_, rfl, .inUse⟩ ?_
      simp_all
    · refine iff_of_false (not_refused_of_inExpression ?_) ?_
      · simp [(Source.elaborator_inExpression fuel type).isType, Source.isType]
      · simp_all

theorem refused_define_iff {e : Source} :
    Refused loc x (define fuel Γ loc x e) ↔ ¬∃ t, Γ.binding? x = some (.claim t) := by
  unfold define
  split
  · rename_i h
    exact iff_of_true ⟨_, rfl, .unclaimed⟩ (by simp [h])
  · rename_i t h
    refine iff_of_false (not_refused_of_inExpression ?_) (by simp [h])
    simp [(Source.elaborator_inExpression fuel e).check, Source.check]
  · rename_i b hb h
    exact iff_of_true ⟨_, rfl, .defined⟩ (by simpa [h] using hb)

/-- A command is refused if what it does is refused. -/
theorem refused_perform_iff {s : Session} {c : Command} :
    Refused loc x (perform fuel s c).2 ↔ Refused loc x (execute fuel s.context c) := by
  simp only [Refused, outcome_perform]
  cases (execute fuel s.context c).outcome <;> simp [Except.map]

theorem refused_execute_claim_iff {type : Source} :
    Refused loc x (execute fuel Γ (.claim loc x type)) ↔
      Refused loc x (claim fuel Γ loc x type) := by
  simp only [Refused, execute, outcome_bind]
  cases (claim fuel Γ loc x type).outcome <;> simp [Except.bind]

theorem refused_execute_define_iff {e : Source} :
    Refused loc x (execute fuel Γ (.define loc x e)) ↔ Refused loc x (define fuel Γ loc x e) := by
  simp only [Refused, execute, outcome_bind]
  cases (define fuel Γ loc x e).outcome <;> simp [Except.bind]

/-- The context of a session is in order. -/
theorem orderly_run (fuel : Nat) (cs : List Command) : (run fuel {} cs).context.Orderly fuel := by
  refine run_induction .nil (fun {Γ Δ loc x type} hΓ h ↦ ?_) (fun {Γ Δ loc x e} hΓ h ↦ ?_) cs
  · obtain ⟨hname, hx, t, v, -, -, rfl⟩ := claim_eq_ok h
    exact hΓ.claim hname (Context.binds_eq_false_iff.1 hx) v
  · obtain ⟨t, c, v, hx, hc, hv, rfl⟩ := define_eq_ok h
    exact hΓ.define hx hc hv

/-- **Declarations come in order.**  After any commands, whether they succeed or fail, the context
consists of claims and definitions of variable names.  Every name has one claim and at most one
definition, which is newer and has the same type.  A claim is not refused exactly if its name can be
one and has neither a claim nor a definition, and a definition exactly if its name has a claim and
no definition.  Every definition has the value, in the context below it, of a term that was checked
there against the type. -/
theorem declarations_in_order (fuel : Nat) (cs : List Command) :
    let s := run fuel {} cs
    (∀ b ∈ s.context, isVariableName b.1 ∧ b.2.kind ≠ .free) ∧
    (∀ x ∈ s.context.names, ∃ t, s.context.entries x = [(x, .claim t)] ∨
      ∃ v, s.context.entries x = [(x, .defn t v), (x, .claim t)]) ∧
    (∀ loc x type, ¬Refused loc x (perform fuel s (.claim loc x type)).2 ↔
      isVariableName x ∧ (∀ t, (x, .claim t) ∉ s.context) ∧ ∀ t v, (x, .defn t v) ∉ s.context) ∧
    (∀ loc x e, ¬Refused loc x (perform fuel s (.define loc x e)).2 ↔
      (∃ t, (x, .claim t) ∈ s.context) ∧ ∀ t v, (x, .defn t v) ∉ s.context) ∧
    ∀ Θ x t v Δ, s.context = Θ ++ (x, .defn t v) :: Δ →
      ∃ e c, (Source.check fuel (Context.scope Δ) e t).outcome = .ok c ∧
        Context.eval fuel Δ c = .ok v := by
  have hs := orderly_run fuel cs
  refine ⟨hs.named, hs.once, fun loc x type ↦ ?_, fun loc x e ↦ ?_, hs.checked⟩
  · rw [refused_perform_iff, refused_execute_claim_iff, refused_claim_iff, not_not,
      hs.mem_names_iff]
    simp only [not_or, not_exists]
  · rw [refused_perform_iff, refused_execute_define_iff, refused_define_iff, not_not,
      hs.claimed_iff]

end Session

end LittleTypes
