import LittleTypes.Proofs.Adequacy.Reader
import LittleTypes.Typing.Checked

/-!
# Checks that are made together

The same check is made in several runs, with several amounts of fuel.  Either it has answers that
belong together in all runs, or it stops in all of them, and then the mistake that a run finds does
not depend on the fuel; only a check that may use up its fuel does not have to end.

There may be exceptions: a run may find a mistake of its own if there is an excuse for it.
-/

namespace LittleTypes

/-- The failure of a check that has used up its fuel. -/
def Failure.outOfFuel : Failure := .fault .outOfFuel

/-- The fuel was enough for a check to end. -/
def Checked.Ends {α : Type} (x : Checked α) : Prop := x.outcome ≠ .error .outOfFuel

/-- A check that ends has a first part that ends. -/
theorem Checked.Ends.of_bind {α β : Type} {x : Checked α} {f : α → Checked β}
    (h : (x >>= f).Ends) : x.Ends := by
  intro hx
  rw [Checked.Ends, Checked.outcome_bind, hx] at h
  exact h rfl

namespace Regime

variable {J α β γ δ : Type}

section Definitions

variable (R : Regime)

/-- The runs have answers. -/
def Gives (x : J → R.Index → Checked α) (a : J → R.Index → α) : Prop :=
  ∀ j, R.Yields .outOfFuel (fun n ↦ (x j n).outcome) (a j)

/-- A run finds a mistake, the same one with all amounts of fuel. -/
def StopsWith (s : Stop) (x : R.Index → Checked α) : Prop :=
  ∀ᶠ n in R.filter, (x n).outcome = .error (.stop s) ∨
    R.mayEnd n ∧ (x n).outcome = .error .outOfFuel

/-- The runs find a mistake. -/
def Stops (x : J → R.Index → Checked α) : Prop := ∀ j, ∃ s, R.StopsWith s (x j)

/-- Mistakes that a run may find on its own, with an amount of fuel. -/
abbrev Excuse (J : Type) : Type := J → R.Index → Stop → Prop

/-- All mistakes are excused. -/
abbrev allExcused : R.Excuse J := fun _ _ _ ↦ True

/-- One of the runs finds a mistake for which there is an excuse. -/
def Refuses (E : R.Excuse J) (x : J → R.Index → Checked α) : Prop :=
  ∃ j s, R.StopsWith s (x j) ∧ ∀ᶠ n in R.filter, (x j n).Ends → E j n s

/-- The runs have answers that something with a property stands for, or they all find a mistake, or
one of them has an excuse. -/
def Meets (E : R.Excuse J) (out : β → J → R.Index → α) (x : J → R.Index → Checked α)
    (P : β → Prop) : Prop :=
  (∃ b, P b ∧ R.Gives x (out b)) ∨ R.Stops x ∨ R.Refuses E x

/-- Answers that do not depend on the fuel. -/
abbrev steady (a : J → α) : J → R.Index → α := fun j _ ↦ a j

/-- Answers as they are. -/
abbrev each (a : J → R.Index → α) : J → R.Index → α := a

/-- No answer but that all is well. -/
abbrev nothing (_ : Unit) : J → R.Index → Unit := fun _ _ ↦ ()

end Definitions

variable {R : Regime}

/-- Evaluation and reading back as checks. -/
theorem Yields.ofRead {y : R.Index → Except Fault α} {a : R.Index → α}
    (h : R.Yields .outOfFuel y a) :
    R.Yields Failure.outOfFuel (fun n ↦ (Checked.ofRead (y n)).outcome) a := by
  filter_upwards [h] with n hn
  obtain hn | ⟨hR, hn⟩ := hn
  · exact .inl (by rw [hn]; rfl)
  · exact .inr ⟨hR, by rw [hn]; rfl⟩

theorem Gives.bind {x : J → R.Index → Checked α} {f : J → R.Index → α → Checked β}
    {a : J → R.Index → α} {b : J → R.Index → β} (h : R.Gives x a)
    (h' : R.Gives (fun j n ↦ f j n (a j n)) b) : R.Gives (fun j n ↦ x j n >>= f j n) b := by
  intro j
  simp only [Checked.outcome_bind]
  exact (h j).bind (f := fun n a ↦ (f j n a).outcome) (h' j)

theorem StopsWith.bind {s : Stop} {x : R.Index → Checked α} (h : R.StopsWith s x)
    (f : R.Index → α → Checked β) : R.StopsWith s fun n ↦ x n >>= f n := by
  filter_upwards [h] with n hx
  rw [Checked.outcome_bind]
  obtain hx | ⟨hR, hx⟩ := hx
  · exact .inl (by rw [hx]; rfl)
  · exact .inr ⟨hR, by rw [hx]; rfl⟩

/-- A run that finds a mistake has no answer. -/
theorem StopsWith.ne_ok {s : Stop} {x : R.Index → Checked α} (h : R.StopsWith s x) :
    ∀ᶠ n in R.filter, ∀ a, (x n).outcome ≠ .ok a := by
  filter_upwards [h] with n hx a ha
  obtain hx | ⟨-, hx⟩ := hx
  · cases ha.symm.trans hx
  · cases ha.symm.trans hx

theorem Gives.bindStopsWith {x : J → R.Index → Checked α} {f : J → R.Index → α → Checked β}
    {a : J → R.Index → α} {j : J} {s : Stop} (h : R.Gives x a)
    (h' : R.StopsWith s fun n ↦ f j n (a j n)) : R.StopsWith s fun n ↦ x j n >>= f j n := by
  filter_upwards [h j, h'] with n hx hf
  rw [Checked.outcome_bind]
  obtain hx | ⟨hR, hx⟩ := hx
  · rw [hx]
    exact hf
  · exact .inr ⟨hR, by rw [hx]; rfl⟩

theorem Gives.bindStops {x : J → R.Index → Checked α} {f : J → R.Index → α → Checked β}
    {a : J → R.Index → α} (h : R.Gives x a) (h' : R.Stops fun j n ↦ f j n (a j n)) :
    R.Stops fun j n ↦ x j n >>= f j n := by
  intro j
  obtain ⟨s, hs⟩ := h' j
  exact ⟨s, h.bindStopsWith hs⟩

theorem Stops.bind {x : J → R.Index → Checked α} (h : R.Stops x)
    (f : J → R.Index → α → Checked β) : R.Stops fun j n ↦ x j n >>= f j n := by
  intro j
  obtain ⟨s, hs⟩ := h j
  exact ⟨s, hs.bind (f j)⟩

theorem Stops.ne_ok {x : J → R.Index → Checked α} (h : R.Stops x) (j : J) :
    ∀ᶠ n in R.filter, ∀ a, (x j n).outcome ≠ .ok a := by
  obtain ⟨s, hs⟩ := h j
  exact hs.ne_ok

namespace Meets

variable {E E' : R.Excuse J} {x : J → R.Index → Checked α} {out : γ → J → R.Index → α}
  {P Q : γ → Prop}

theorem gives {b : γ} (hb : P b) (h : R.Gives x (out b)) : R.Meets E out x P := .inl ⟨b, hb, h⟩

theorem pure {b : γ} (hb : P b) : R.Meets E out (fun j n ↦ pure (out b j n)) P :=
  gives hb fun _ ↦ .pure _

/-- Two checks in a row.  The second one is excused only where the first one has its answer. -/
theorem bindGiven {out' : δ → J → R.Index → β} {f : J → R.Index → α → Checked β} {P' : δ → Prop}
    (h : R.Meets E out x P) (hf : ∀ b, P b → R.Meets
      (fun j n s ↦ (x j n).outcome = .ok (out b j n) → E j n s) out'
        (fun j n ↦ f j n (out b j n)) P') :
    R.Meets E out' (fun j n ↦ x j n >>= f j n) P' := by
  obtain ⟨b, hb, hx⟩ | hx | hx := h
  · obtain ⟨c, hc, hf⟩ | hf | hf := hf b hb
    · exact gives hc (hx.bind hf)
    · exact .inr (.inl (hx.bindStops hf))
    · obtain ⟨j, s, hs, hE⟩ := hf
      refine .inr (.inr ⟨j, s, hx.bindStopsWith hs, ?_⟩)
      filter_upwards [hx j, hE] with n hn hE hends
      obtain hn | ⟨-, hn⟩ := hn
      · refine hE ?_ hn
        rwa [Checked.Ends, Checked.outcome_bind, hn] at hends
      · exact absurd hn hends.of_bind
  · exact .inr (.inl (hx.bind f))
  · obtain ⟨j, s, hs, hE⟩ := hx
    exact .inr (.inr ⟨j, s, hs.bind (f j), hE.mono fun n hE hends ↦ hE hends.of_bind⟩)

/-- Other mistakes may be excused instead. -/
theorem excuse (h : R.Meets E out x P) (hE : ∀ j n s, E j n s → E' j n s) :
    R.Meets E' out x P :=
  h.imp_right (.imp_right fun ⟨j, s, hs, h⟩ ↦
    ⟨j, s, hs, h.mono fun n h hends ↦ hE j n s (h hends)⟩)

/-- Two checks in a row. -/
theorem bind {out' : δ → J → R.Index → β} {f : J → R.Index → α → Checked β} {P' : δ → Prop}
    (h : R.Meets E out x P) (hf : ∀ b, P b → R.Meets E out' (fun j n ↦ f j n (out b j n)) P') :
    R.Meets E out' (fun j n ↦ x j n >>= f j n) P' :=
  h.bindGiven fun b hb ↦ (hf b hb).excuse fun _ _ _ h _ ↦ h

/-- A check after one whose answers do not depend on the fuel. -/
theorem andThen {out' : δ → J → R.Index → β} {f : J → R.Index → α → Checked β}
    {P : (J → α) → Prop} {P' : δ → Prop} (h : R.Meets E R.steady x P)
    (hf : ∀ a, P a → R.Meets E out' (fun j n ↦ f j n (a j)) P') :
    R.Meets E out' (fun j n ↦ x j n >>= f j n) P' := h.bind hf

/-- An answer that does not depend on the fuel. -/
theorem answer {P : (J → α) → Prop} {a : J → α} (ha : P a) :
    R.Meets E R.steady (fun j _ ↦ Pure.pure (a j)) P := pure ha

theorem imp (h : R.Meets E out x P) (hPQ : ∀ b, P b → Q b) : R.Meets E out x Q :=
  h.imp_left fun ⟨b, hb, hx⟩ ↦ ⟨b, hPQ b hb, hx⟩

/-- The same checks, written in another way. -/
theorem of_eq {y : J → R.Index → Checked α} (h : R.Meets E out x P) (e : ∀ j n, y j n = x j n) :
    R.Meets E out y P := by
  rwa [show y = x from funext fun j ↦ funext fun n ↦ e j n]

/-- The answers may be said to stand for something else. -/
theorem map {out' : δ → J → R.Index → α} {P' : δ → Prop} (h : R.Meets E out x P)
    (hP : ∀ b, P b → ∃ c, P' c ∧ ∀ j n, out' c j n = out b j n) : R.Meets E out' x P' := by
  obtain ⟨b, hb, hx⟩ | hx := h
  · obtain ⟨c, hc, e⟩ := hP b hb
    have e : out' c = out b := funext fun j ↦ funext fun n ↦ e j n
    exact gives hc (e ▸ hx)
  · exact .inr hx

theorem mistake {y : J → R.Index → Checked α} {s : J → Stop}
    (h : ∀ j n, (y j n).outcome = .error (.stop (s j))) : R.Meets E out y P :=
  .inr (.inl fun j ↦ ⟨s j, .of_forall fun n ↦ .inl (h j n)⟩)

theorem stop {code : Code} {loc : J → Location} {m : J → List Part} :
    R.Meets E out (fun j _ ↦ (.stop code (loc j) (m j) : Checked α)) P :=
  mistake (s := fun j ↦ ⟨code, loc j, m j⟩) fun _ _ ↦ rfl

theorem tell {r : J → R.Index → Record} :
    R.Meets E R.nothing (fun j n ↦ Checked.tell (r j n)) fun _ ↦ True :=
  gives (b := ()) trivial fun _ ↦ .pure _

theorem note {level : Level} {message : J → R.Index → String}
    {attributes : J → R.Index → List Attribute} :
    R.Meets E R.nothing (fun j n ↦ Checked.note level (message j n) (attributes j n))
      fun _ ↦ True := tell

/-- A single run has an answer or finds a mistake. -/
theorem single [Subsingleton J] (h : R.Meets E out x P) :
    (∃ b, P b ∧ R.Gives x (out b)) ∨ R.Stops x := by
  refine h.imp_right fun h ↦ h.elim id ?_
  rintro ⟨j, s, hj, -⟩ j'
  obtain rfl := Subsingleton.elim j j'
  exact ⟨s, hj⟩

/-- What holds of all answers that there may be holds of the answer that a single run has. -/
theorem answers [Subsingleton J] {T : R.Index → α → Prop} (h : R.Meets E out x P) (j : J)
    (hT : ∀ b, P b → ∀ᶠ n in R.filter, T n (out b j n)) :
    ∀ᶠ n in R.filter, ∀ a, (x j n).outcome = .ok a → T n a := by
  obtain ⟨b, hb, hx⟩ | hx := h.single
  · filter_upwards [hx j, hT b hb] with n hn hT a ha
    obtain hn | ⟨-, hn⟩ := hn
    · cases ha.symm.trans hn
      exact hT
    · cases ha.symm.trans hn
  · filter_upwards [hx.ne_ok j] with n hn a ha
    exact absurd ha (hn a)

/-- A single run has no fault, unless it may use up its fuel. -/
theorem safe [Subsingleton J] (h : R.Meets E out x P) (j : J) :
    ∀ᶠ n in R.filter, ∀ f, (x j n).outcome = .error (.fault f) → R.mayEnd n ∧ f = .outOfFuel := by
  obtain ⟨b, -, hx⟩ | hx := h.single
  · filter_upwards [hx j] with n hn f hf
    obtain hn | ⟨hR, hn⟩ := hn
    · cases hf.symm.trans hn
    · cases hf.symm.trans hn
      exact ⟨hR, rfl⟩
  · obtain ⟨s, hx⟩ := hx j
    filter_upwards [hx] with n hn f hf
    obtain hn | ⟨hR, hn⟩ := hn
    · cases hf.symm.trans hn
    · cases hf.symm.trans hn
      exact ⟨hR, rfl⟩

/-- A single run ends, unless it may use up its fuel. -/
theorem ends [Subsingleton J] (h : R.Meets E out x P) (j : J) :
    ∀ᶠ n in R.filter, (x j n).Ends ∨ R.mayEnd n := by
  filter_upwards [h.safe j] with n hn
  exact or_iff_not_imp_left.2 fun hx ↦ (hn _ (not_not.1 hx)).1

/-- A single run can go on after a mistake. -/
theorem onStop [Subsingleton J] {f : J → R.Index → Stop → Checked α} (h : R.Meets E out x P)
    (hf : ∀ s : J → Stop, R.Meets E out (fun j n ↦ f j n (s j)) P) :
    R.Meets E out (fun j n ↦ (x j n).onStop (f j n)) P := by
  obtain ⟨b, hb, hx⟩ | hx := h.single
  · refine gives hb fun j ↦ ?_
    filter_upwards [hx j] with n hn
    obtain hn | ⟨hR, hn⟩ := hn
    · exact .inl (by rw [Checked.onStop, hn]; exact hn)
    · exact .inr ⟨hR, by rw [Checked.onStop, hn]; exact hn⟩
  · choose s hs using hx
    have hgo : ∀ j, ∀ᶠ n in R.filter,
        ((x j n).onStop (f j n)).outcome = (f j n (s j)).outcome ∨
          R.mayEnd n ∧ ((x j n).onStop (f j n)).outcome = .error .outOfFuel := by
      intro j
      filter_upwards [hs j] with n hn
      obtain hn | ⟨hR, hn⟩ := hn
      · exact .inl (by rw [Checked.onStop, hn])
      · exact .inr ⟨hR, by rw [Checked.onStop, hn]; exact hn⟩
    obtain ⟨b, hb, hy⟩ | hy := (hf s).single
    · refine gives hb fun j ↦ ?_
      filter_upwards [hgo j, hy j] with n hn hy
      obtain hn | hn := hn
      · exact hn.symm ▸ hy
      · exact .inr hn
    · refine .inr (.inl fun j ↦ ?_)
      obtain ⟨s', hy⟩ := hy j
      refine ⟨s', ?_⟩
      filter_upwards [hgo j, hy] with n hn hy
      obtain hn | hn := hn
      · exact hn.symm ▸ hy
      · exact .inr hn

/-- Evaluation and reading back as checks. -/
theorem ofRead {y : J → R.Index → Except Fault α} {b : γ} (hb : P b)
    (h : ∀ j, R.Yields .outOfFuel (y j) (out b j)) :
    R.Meets E out (fun j n ↦ .ofRead (y j n)) P := gives hb fun j ↦ (h j).ofRead

theorem ofEval {y : J → R.Index → Except EvalFault α} {b : γ} (hb : P b)
    (h : ∀ j, R.Yields .outOfFuel (y j) (out b j)) :
    R.Meets E out (fun j n ↦ .ofEval (y j n)) P := ofRead hb fun j ↦ (h j).lift

end Meets

end Regime

end LittleTypes
