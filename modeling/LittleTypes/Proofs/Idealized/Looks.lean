import LittleTypes.Proofs.Idealized.Reading

/-!
# Looking at values

What is seen of a value is its outermost constructor.  Nothing else of a value is ever used by an
eliminator or by reading back, so a value can always be replaced by one that is seen as the same.
-/

namespace LittleTypes.Idealized

/-- What is seen of a value. -/
def Looks (v w : Value) : Prop := Runs (look v) w

/-- A value with its outermost constructor in sight. -/
def Value.InSight : Value → Prop
  | .later _ => False
  | _ => True

/-- The first value is seen as the second is. -/
def SeenAs (v' v : Value) : Prop := ∀ w, Looks v w → Looks v' w

namespace Looks

theorem iff_plan {v w : Value} : Looks v w ↔ Runs (plan (.look v)) w := Runs.ask_done_iff

theorem unique {v w w' : Value} (h : Looks v w) (h' : Looks v w') : w = w' := Runs.unique h h'

/-- A value in sight is seen as it is. -/
theorem of_inSight {v : Value} (h : v.InSight) : Looks v v := by
  rw [iff_plan]
  cases v with
  | later d => exact absurd h (by simp [Value.InSight])
  | _ => exact .done _

theorem later_iff {d : Demand} {w : Value} :
    Looks (.later d) w ↔ ∃ v, Runs (plan d) v ∧ Looks v w := by
  rw [iff_plan]
  constructor
  · intro h
    cases h with
    | ask hd hNext => exact ⟨_, hd, hNext⟩
  · rintro ⟨v, hd, hv⟩
    exact .ask hd hv

private theorem inSight_aux {α : Type} {p : Plan α} {a : α} (h : Runs p a) :
    ∀ (e : α = Value) (v : Value), e ▸ p = look v ∨ e ▸ p = plan (.look v) →
      (e ▸ a : Value).InSight := by
  -- the run is as long as the chain of delayed values, each of which is looked at in turn
  induction h with
  | done a =>
    rintro rfl v (hp | hp)
    · cases hp
    · cases v with
      | later d => cases hp
      | _ =>
        cases hp
        trivial
  | ask hd hNext ih ihNext =>
    rintro rfl v (hp | hp)
    · cases hp
      cases hNext
      exact ih rfl v (.inr rfl)
    · cases v with
      | later d =>
        cases hp
        exact ihNext rfl _ (.inl rfl)
      | _ => cases hp

/-- What is seen is in sight. -/
theorem inSight {v w : Value} (h : Looks v w) : w.InSight := inSight_aux h rfl v (.inl rfl)

/-- What is seen is seen as it is. -/
theorem again {v w : Value} (h : Looks v w) : Looks w w := of_inSight h.inSight

end Looks

namespace SeenAs

theorem refl (v : Value) : SeenAs v v := fun _ h ↦ h

/-- A delayed value is seen as the answer to its demand. -/
theorem later {d : Demand} {v : Value} (h : Runs (plan d) v) : SeenAs (.later d) v :=
  fun _ hw ↦ Looks.later_iff.2 ⟨v, h, hw⟩

/-- A value is seen as what is seen of it. -/
theorem of_looks {v w : Value} (h : Looks v w) : SeenAs v w := by
  intro z hz
  rwa [← h.again.unique hz]

/-- What is seen of a value is seen as the value is. -/
theorem seen {v w : Value} (h : Looks v w) : SeenAs w v := by
  intro z hz
  rw [← h.unique hz]
  exact h.again

end SeenAs

/-! ## Reading what is seen as the same -/

namespace Reads

variable {k : Nat} {N : Nameless} {X Y v w : Value}

/-- A type is read as what is seen of it. -/
theorem type {V : Value} (hX : Looks X V) (h : ReadRuns (typeShapePlan k V) N) :
    Reads k (.type X) N := .thenRead hX h

/-- A value is read as what is seen of it and of its type. -/
theorem value {V u : Value} (hX : Looks X V) (hv : Looks v u)
    (h : ReadRuns (valueShapePlan k V u) N) : Reads k (.value X v) N := .thenRead hX (.thenRead hv h)

theorem of_type {V : Value} (h : Reads k (.type X) N) (hX : Looks X V) :
    ReadRuns (typeShapePlan k V) N := by
  obtain ⟨V', hV', h⟩ := ReadRuns.thenRead_iff.1 h
  rwa [← hX.unique hV'] at h

theorem of_value {V u : Value} (h : Reads k (.value X v) N) (hX : Looks X V) (hv : Looks v u) :
    ReadRuns (valueShapePlan k V u) N := by
  obtain ⟨V', hV', h⟩ := ReadRuns.thenRead_iff.1 h
  obtain ⟨u', hu', h⟩ := ReadRuns.thenRead_iff.1 h
  rwa [← hX.unique hV', ← hv.unique hu'] at h

theorem seenType (h : Reads k (.type X) N) (hX : SeenAs Y X) : Reads k (.type Y) N := by
  obtain ⟨V, hV, h⟩ := ReadRuns.thenRead_iff.1 h
  exact .thenRead (hX V hV) h

theorem seenValue (h : Reads k (.value X v) N) (hX : SeenAs Y X) (hv : SeenAs w v) :
    Reads k (.value Y w) N := by
  obtain ⟨V, hV, h⟩ := ReadRuns.thenRead_iff.1 h
  obtain ⟨u, hu, h⟩ := ReadRuns.thenRead_iff.1 h
  exact .thenRead (hX V hV) (.thenRead (hv u hu) h)

end Reads

end LittleTypes.Idealized
