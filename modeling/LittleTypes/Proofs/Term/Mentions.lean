import LittleTypes.Proofs.Sense.Shared
import LittleTypes.Proofs.Term.Free

/-!
# Names that matter

All elements of the empty type are alike, so a name that occurs only in such elements does not
matter.  Whether a name occurs elsewhere can be seen from the nameless form in which all these
elements are alike: the level of the name is mentioned there.  So of two terms that are the same up
to the elements of the empty type, both or none mention the name elsewhere.
-/

namespace LittleTypes

/-- The levels that are mentioned. -/
def Nameless.levels : Nameless → List Nat
  | var i => [i]
  | missing | free _ | numeral _ | quote _ | const _ => []
  | hole _ t | lam t | unary _ t | project _ t => t.levels
  | the a b | app a b | pi a b | sigma a b | binary _ a b | indAbsurd a b | trans a b =>
    a.levels ++ b.levels
  | equal a b c | transport _ a b c | cong a b c => a.levels ++ b.levels ++ c.levels
  | recursor _ a b c d | induct _ a b c d => a.levels ++ b.levels ++ c.levels ++ d.levels
  | indVec a b c d e => a.levels ++ b.levels ++ c.levels ++ d.levels ++ e.levels

namespace Term

variable {t u : Term} {x y : String} {θ : Levels} {i k : Nat}

/-- The level of a free name is mentioned. -/
theorem mem_levels_of_mem_free (hx : x ∈ t.free) (hi : θ x = some i) :
    i ∈ (t.nameless θ k).levels := by
  -- a name that is still free under a binder is not the one that is bound
  have under : ∀ {θ : Levels} {y : String} {k : Nat}, x ≠ y → θ x = some i →
      θ.bind y k x = some i := fun h hi ↦ (Levels.bind_of_ne _ _ h).trans hi
  induction t generalizing θ k with
  | missing | numeral | quote | const => cases hx
  | var z =>
    obtain rfl : x = z := by simpa [free] using hx
    simp [nameless, hi, Nameless.levels]
  | lam z b ih =>
    simp only [free, List.mem_filter, decide_eq_true_eq] at hx
    exact ih hx.1 (under hx.2 hi)
  | pi z a b iha ihb | sigma z a b iha ihb =>
    simp only [free, List.mem_append, List.mem_filter, decide_eq_true_eq] at hx
    obtain hx | hx := hx
    · exact List.mem_append_left _ (iha hx hi)
    · exact List.mem_append_right _ (ihb hx.1 (under hx.2 hi))
  | _ =>
    revert hx
    simp +contextual [free, nameless, Nameless.levels, or_imp, *]

/-- A level that is mentioned is that of a name, or of a binder in the term. -/
theorem mem_levels_nameless (h : i ∈ (t.nameless θ k).levels) : k ≤ i ∨ ∃ y, θ y = some i := by
  have under : ∀ {θ : Levels} {y : String} {k : Nat},
      (k + 1 ≤ i ∨ ∃ z, θ.bind y k z = some i) → k ≤ i ∨ ∃ z, θ z = some i := by
    rintro θ y k (h | ⟨z, hz⟩)
    · exact .inl (Nat.le_of_succ_le h)
    · unfold Levels.bind at hz
      split at hz
      · exact .inl (Nat.le_of_eq (Option.some.inj hz))
      · exact .inr ⟨z, hz⟩
  induction t generalizing θ k with
  | missing | numeral | quote | const => cases h
  | var z =>
    simp only [nameless] at h
    split at h
    · rename_i j hj
      obtain rfl : i = j := by simpa [Nameless.levels] using h
      exact .inr ⟨z, hj⟩
    · cases h
  | lam z b ih => exact under (ih h)
  | pi z a b iha ihb | sigma z a b iha ihb =>
    obtain h | h := List.mem_append.1 h
    · exact iha h
    · exact under (ihb h)
  | _ =>
    simp only [nameless, Nameless.levels, List.mem_append] at h
    grind

/-! ## Elements of the empty type -/

theorem mem_names_of_mem_names_blur (h : x ∈ t.blur.names) : x ∈ t.names := by
  induction t with
  | missing | var | numeral | quote | const => exact h
  | the t e iht ihe =>
    simp only [blur] at h
    split at h <;> simp only [names, List.mem_append] at h ⊢ <;> grind
  | recursor c t X b s iht ihX ihb ihs =>
    simp only [blur] at h
    split at h <;> simp only [names, List.mem_append] at h ⊢ <;> grind
  | _ => simp only [blur, names, List.mem_append, List.mem_cons] at h ⊢; grind

theorem mem_binders_of_mem_binders_blur (h : x ∈ t.blur.binders) : x ∈ t.binders := by
  induction t with
  | missing | var | numeral | quote | const => exact h
  | the t e iht ihe =>
    simp only [blur] at h
    split at h <;> simp only [binders, List.mem_append] at h ⊢ <;> grind
  | recursor c t X b s iht ihX ihb ihs =>
    simp only [blur] at h
    split at h <;> simp only [binders, List.mem_append] at h ⊢ <;> grind
  | _ => simp only [blur, binders, List.mem_append, List.mem_cons] at h ⊢; grind

/-- The name occurs in the term, but only in elements of the empty type. -/
def OnlyInAbsurd (x : String) (t : Term) : Prop := x ∈ t.names ∧ x ∉ t.blur.names

instance (x : String) (t : Term) : Decidable (t.OnlyInAbsurd x) :=
  inferInstanceAs (Decidable (x ∈ t.names ∧ x ∉ t.blur.names))

/-- If two terms are the same up to the elements of the empty type, and a name does not occur in the
one, then the name that has its place in the other occurs only in such elements. -/
theorem not_mem_names_blur (hθ : ∀ z, θ z ≠ some i) (hi : i < k)
    (e : (t.nameless (θ.bind x i) k).blur = (u.nameless (θ.bind y i) k).blur) (hy : y ∉ u.names)
    (hx : x ∉ t.binders) : x ∉ t.blur.names := by
  intro h
  have hfree : x ∈ t.blur.free :=
    (mem_free_or_mem_binders h).resolve_right fun h ↦ hx (mem_binders_of_mem_binders_blur h)
  have hmem : i ∈ (t.blur.nameless (θ.bind x i) k).levels :=
    mem_levels_of_mem_free hfree (Levels.bind_self θ x i)
  rw [nameless_blur, e, ← nameless_blur,
    nameless_bind_of_not_mem fun h ↦ hy (mem_names_of_mem_names_blur h)] at hmem
  obtain hk | ⟨z, hz⟩ := mem_levels_nameless hmem
  · exact absurd hi (Nat.not_lt.2 hk)
  · exact hθ z hz

end Term

end LittleTypes
