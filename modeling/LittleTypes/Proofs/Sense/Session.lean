import LittleTypes.Proofs.Context.Built
import LittleTypes.Proofs.Sense.Declared
import LittleTypes.Proofs.Sense.Query

/-!
# The situation of a session

Claims and definitions build situations without unknown values.  So whatever commands a session has
taken, its context is that of such a situation; and as long as no expression was unfinished, the
values of its names are values also where there are no unknown values at all.
-/

namespace LittleTypes

open Filter

/-- Whether an expression that a command declares is unfinished. -/
def Session.Command.hasHole : Command → Bool
  | claim _ _ type => type.hasHole
  | define _ _ e => e.hasHole
  | checkSame .. | norm _ => false

namespace Situation

variable {R : Regime} {o : Prop} {φ : R.Index → Nat}

/-- A situation of claims and definitions. -/
structure Closed (o : Prop) (S : Situation R Unit) : Prop where
  declared : S.Declared o
  levels : ∀ x, S.levels x = none
  here : ¬o → S.Has False (S.here ())

theorem closed_empty (o : Prop) : (empty R Unit o).Closed o where
  declared := .empty
  levels _ := rfl
  here h := ⟨.inl ⟨(), fun _ ↦ rfl⟩, fun ho ↦ absurd ho h, fun _ ↦ rfl⟩

namespace Closed

variable {S : Situation R Unit} (hS : S.Closed o) {x : String} {T v : Sense Unit}
  {d w : Unit → R.Index → Value}

include hS

theorem coherent : S.Coherent := hS.declared.coherent

theorem claim (x : String) (hT : S.IsType .large T) (hd : S.Means d T) :
    (S.claim x d).Closed o :=
  ⟨hS.declared.claim x hT hd, hS.levels, hS.here⟩

theorem define (hv : S.IsElem T v) (hd : S.Means d T) (hw : S.Means w v) :
    (S.define x T v d w).Closed o :=
  ⟨hS.declared.define (hS.levels x) hv hd hw, hS.levels, fun h ↦ holds_define (hS.here h)⟩

/-! ## Commands -/

omit hS in
/-- The contexts are those of a situation of claims and definitions. -/
def IsContext (o : Prop) (Γ : Unit → R.Index → Context) : Prop :=
  ∃ S : Situation R Unit, S.Closed o ∧ S.context = Γ

variable (hφ : R.Lasts φ) (loc : Location)

include hφ

theorem meets_claim {type : Source} (ho : type.hasHole → o) :
    R.Meets R.allExcused R.each (fun j n ↦ Session.claim (φ n) (S.context j n) loc x type)
      (IsContext o) := by
  have hb : ∀ j n, (S.context j n).binds x = decide (x ∈ S.names) := fun j n ↦ by
    have h := Context.binds_eq_false_iff (Γ := S.context j n) (x := x)
    rw [hS.coherent.names] at h
    by_cases hx : x ∈ S.names <;> simp_all
  unfold Session.claim
  by_cases hname : isVariableName x
  · by_cases hx : x ∈ S.names
    · simp only [hname, hb, hx]
      exact .stop
    · simp only [hname, hb, hx]
      refine ((type.sound hφ ho).isType hS.coherent hS.declared.unfinished_iff.2 {}).andThen
        fun t ht ↦ (hS.coherent.evalType hφ ht.type).bind fun v hv ↦ Regime.Meets.tell.bind
          fun _ _ ↦ ?_
      exact .pure ⟨S.claim x v, hS.claim x ht.type.isType hv, rfl⟩
  · simp only [hname]
    exact .stop

theorem meets_define {e : Source} (ho : e.hasHole → o) :
    R.Meets R.allExcused R.each (fun j n ↦ Session.define (φ n) (S.context j n) loc x e)
      (IsContext o) := by
  unfold Session.define
  obtain hx | ⟨T, d, hT, hd, hx⟩ | ⟨b, hb, hx⟩ := hS.declared.binding x
  · simp only [hx]
    exact .stop
  · simp only [hx]
    refine ((e.sound hφ ho).check hS.coherent hS.declared.unfinished_iff.2 {} hT hd).andThen
      fun t ht ↦ (hS.coherent.eval hφ ht.elem).bind fun v hv ↦ Regime.Meets.tell.bind
        fun _ _ ↦ ?_
    exact .pure ⟨S.define x T (.ofTerm t) d v, hS.define ht.elem.isElem hd hv, rfl⟩
  · refine .mistake (s := fun _ ↦ ⟨.declaration, loc, ["The name", x, "is already defined"]⟩)
      fun j n ↦ ?_
    rw [hx]
    cases h : b j n with
    | claim t => exact absurd h (hb j n t)
    | free t => rfl
    | defn t v => rfl

/-! ## Sessions -/

omit hφ in
/-- The context after a check that may add a name to it. -/
theorem settle (hR : R.Unanimous) {x : Unit → R.Index → Checked Context}
    {E : R.Excuse Unit} (h : R.Meets E R.each x (IsContext o)) :
    ∃ S' : Situation R Unit, S'.Closed o ∧ ∀ᶠ n in R.filter, (match (x () n).outcome with
      | .ok Δ => Δ
      | .error _ => S.context () n) = S'.context () n := by
  obtain ⟨_, ⟨S', hS', rfl⟩, hx⟩ | hx := h.single
  · obtain hx | hx := hR _ _ (hx ())
    · exact ⟨S', hS', hx.mono fun n hn ↦ by simp only [hn]⟩
    · exact ⟨S, hS, hx.mono fun n hn ↦ by simp only [hn.2]⟩
  · obtain ⟨s, hx⟩ := hx ()
    refine ⟨S, hS, hx.mono fun n hn ↦ ?_⟩
    obtain hn | ⟨-, hn⟩ := hn
    · rw [hn]
    · rw [hn]

theorem exists_perform (hR : R.Unanimous) {s : R.Index → Session}
    (hs : ∀ᶠ n in R.filter, (s n).context = S.context () n) {c : Session.Command}
    (ho : c.hasHole → o) : ∃ S' : Situation R Unit, S'.Closed o ∧
      ∀ᶠ n in R.filter, (Session.perform (φ n) (s n) c).1.context = S'.context () n := by
  cases c with
  | claim loc x type =>
    obtain ⟨S', hS', h⟩ := hS.settle hR (hS.meets_claim hφ loc ho)
    refine ⟨S', hS', ?_⟩
    filter_upwards [hs, h] with n hn hx
    rw [Session.context_perform, hn, ← hx, Session.execute, Checked.outcome_bind]
    cases (Session.claim (φ n) (S.context () n) loc x type).outcome <;> rfl
  | define loc x e =>
    obtain ⟨S', hS', h⟩ := hS.settle hR (hS.meets_define hφ loc ho)
    refine ⟨S', hS', ?_⟩
    filter_upwards [hs, h] with n hn hx
    rw [Session.context_perform, hn, ← hx, Session.execute, Checked.outcome_bind]
    cases (Session.define (φ n) (S.context () n) loc x e).outcome <;> rfl
  | checkSame loc type a b =>
    refine ⟨S, hS, hs.mono fun n hn ↦ ?_⟩
    rw [Session.context_perform, hn, Session.execute, Checked.outcome_bind]
    cases (Context.checkSame (φ n) (S.context () n) loc type a b).outcome <;> rfl
  | norm e =>
    refine ⟨S, hS, hs.mono fun n hn ↦ ?_⟩
    rw [Session.context_perform, hn, Session.execute, Checked.outcome_bind]
    cases (Context.norm (φ n) (S.context () n) e).outcome <;> rfl

end Closed

/-- The context of a session is that of a situation. -/
theorem exists_closed (hφ : R.Lasts φ) (hR : R.Unanimous) (cs : List Session.Command)
    (ho : ∀ c ∈ cs, c.hasHole → o) : ∃ S : Situation R Unit, S.Closed o ∧
      ∀ᶠ n in R.filter, (Session.run (φ n) {} cs).context = S.context () n := by
  have go : ∀ (s : R.Index → Session) (S : Situation R Unit), S.Closed o →
      (∀ᶠ n in R.filter, (s n).context = S.context () n) → ∃ S' : Situation R Unit, S'.Closed o ∧
        ∀ᶠ n in R.filter, (Session.run (φ n) (s n) cs).context = S'.context () n := by
    induction cs with
    | nil => exact fun s S hS hs ↦ ⟨S, hS, hs⟩
    | cons c cs ih =>
      intro s S hS hs
      obtain ⟨S', hS', hs'⟩ := hS.exists_perform hφ hR hs (ho c List.mem_cons_self)
      exact ih (fun c hc ↦ ho c (List.mem_cons_of_mem _ hc)) _ S' hS' hs'
  exact go _ _ (closed_empty o) (.of_forall fun _ ↦ rfl)

end Situation

end LittleTypes
