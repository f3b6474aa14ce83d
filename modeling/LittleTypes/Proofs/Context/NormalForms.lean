import LittleTypes.Proofs.Name.Binders

/-!
# The grammar of normal forms

What is read back is normal, whether or not the value had the type it was read back at.  In a normal
term nothing is left to compute: every elimination waits for a variable or for an unfinished
expression.  And where a type says what its elements look like, they are written out in this way,
also if nothing else is known of them.
-/

namespace LittleTypes

namespace Term

mutual

/-- Eliminations around a variable or an unfinished expression, which is what they wait for.  All
their other parts are normal. -/
inductive IsNeutral : Term → Prop
  | var (x : String) : IsNeutral (var x)
  | hole (l : Location) {t : Term} : IsNormal t → IsNeutral (hole l t)
  | app {f a : Term} : IsNeutral f → IsNormal a → IsNeutral (app f a)
  | project (k : Projection) {t : Term} : IsNeutral t → IsNeutral (project k t)
  | recursor (k : Recursor) {t c b s : Term} : IsNeutral t → IsNormal c → IsNormal b →
    IsNormal s → IsNeutral (recursor k t c b s)
  | induct (k : Induction) {t m b s : Term} : IsNeutral t → IsNormal m → IsNormal b →
    IsNormal s → IsNeutral (induct k t m b s)
  | transport (k : Transport) {t m b : Term} : IsNeutral t → IsNormal m → IsNormal b →
    IsNeutral (transport k t m b)
  /-- The target is marked as an element of the empty type. -/
  | indAbsurd {t m : Term} : IsNeutral t → IsNormal m →
    IsNeutral (indAbsurd (the (const .absurd) t) m)
  /-- One unknown equality is enough to keep two of them from being joined. -/
  | transLeft {l r : Term} : IsNeutral l → IsNormal r → IsNeutral (trans l r)
  | transRight {l r : Term} : IsNormal l → IsNeutral r → IsNeutral (trans l r)
  | cong {t c f : Term} : IsNeutral t → IsNormal c → IsNormal f → IsNeutral (cong t c f)
  | indVec {n t m b s : Term} : IsNormal n → IsNeutral t → IsNormal m → IsNormal b →
    IsNormal s → IsNeutral (indVec n t m b s)

/-- Terms in which nothing is left to compute.  Numbers are counted from zero, and the only elements
that are marked with their type are those of the empty type. -/
inductive IsNormal : Term → Prop
  | neutral {t : Term} : IsNeutral t → IsNormal t
  | absurd {t : Term} : IsNeutral t → IsNormal (the (const .absurd) t)
  | quote (s : String) : IsNormal (quote s)
  | const (k : Const) : IsNormal (const k)
  | unary (k : Unary) {a : Term} : IsNormal a → IsNormal (unary k a)
  | binary (k : Binary) {a b : Term} : IsNormal a → IsNormal b → IsNormal (binary k a b)
  | equal {t l r : Term} : IsNormal t → IsNormal l → IsNormal r → IsNormal (equal t l r)
  | lam (x : String) {b : Term} : IsNormal b → IsNormal (lam x b)
  | pi (x : String) {a b : Term} : IsNormal a → IsNormal b → IsNormal (pi x a b)
  | sigma (x : String) {a b : Term} : IsNormal a → IsNormal b → IsNormal (sigma x a b)

end

/-- How an element of a type is written out, where the type says so. -/
def Expanded : Value → Term → Prop
  | .pi .., t => ∃ x b, t = lam x b
  | .sigma .., t => ∃ a d, t = binary .cons a d
  | .const .trivial, t => t = const .sole
  | .const .absurd, t => ∃ e, e.IsNeutral ∧ t = the (const .absurd) e
  | _, _ => True

end Term

/-- What is to be expected of what is read back. -/
def Reading.Fits : Reading → Term → Prop
  | .value T _, t => t.IsNormal ∧ ∀ w, T.force = .ok w → t.Expanded w
  | .type _, t => t.IsNormal
  | .neutral _, t => t.IsNeutral

/-- A reader whose answers are normal. -/
def Reader.Normal (read : Reader) : Prop := ∀ Γ r, Answers r.Fits (read Γ r)

namespace Reader.Normal

open Term

variable {read : Reader} (h : read.Normal) (m : Machine) (Γ : Context)

include h

theorem value (t v : Value) : Answers IsNormal (read Γ (.value t v)) :=
  fun u hu ↦ (h Γ (.value t v) u hu).1

theorem type (v : Value) : Answers IsNormal (read Γ (.type v)) := h Γ (.type v)

theorem neutral (n : Neutral) : Answers IsNeutral (read Γ (.neutral n)) := h Γ (.neutral n)

theorem typed (a : Typed) : Answers IsNormal (read.typed Γ a) := by
  cases a
  exact h.value Γ _ _

theorem typeOfTyped (a : Typed) : Answers IsNormal (read.typeOfTyped Γ a) := by
  cases a
  exact h.type Γ _

theorem typedType (a : Typed) : Answers IsNormal (read.typedType Γ a) := by
  cases a
  exact h.type Γ _

theorem neutralStep (n : Neutral) : Answers IsNeutral (read.neutralStep Γ n) := by
  cases n with
  | var x => exact .pure (.var x)
  | hole l t => exact (h.type Γ t).bind fun _ ht ↦ .pure (.hole l ht)
  | app f a =>
    exact (h.neutral Γ f).bind fun _ hf ↦ (h.typed Γ a).bind fun _ ha ↦ .pure (.app hf ha)
  | project k t => exact (h.neutral Γ t).bind fun _ ht ↦ .pure (.project k ht)
  | recursor k t b s =>
    refine (h.neutral Γ t).bind fun _ ht ↦ (h.typeOfTyped Γ b).bind fun _ hc ↦ ?_
    refine (h.typed Γ b).bind fun _ hb ↦ (h.typed Γ s).bind fun _ hs ↦ ?_
    exact .pure (.recursor k ht hc hb hs)
  | induct k t M b s =>
    refine (h.neutral Γ t).bind fun _ ht ↦ (h.typed Γ M).bind fun _ hM ↦ ?_
    refine (h.typed Γ b).bind fun _ hb ↦ (h.typed Γ s).bind fun _ hs ↦ ?_
    exact .pure (.induct k ht hM hb hs)
  | transport k t M b =>
    refine (h.neutral Γ t).bind fun _ ht ↦ (h.typed Γ M).bind fun _ hM ↦ ?_
    exact (h.typed Γ b).bind fun _ hb ↦ .pure (.transport k ht hM hb)
  | indAbsurd t M =>
    exact (h.neutral Γ t).bind fun _ ht ↦ (h.typedType Γ M).bind fun _ hM ↦
      .pure (.indAbsurd ht hM)
  | transLeft l r =>
    exact (h.neutral Γ l).bind fun _ hl ↦ (h.typed Γ r).bind fun _ hr ↦ .pure (.transLeft hl hr)
  | transRight l r =>
    exact (h.typed Γ l).bind fun _ hl ↦ (h.neutral Γ r).bind fun _ hr ↦ .pure (.transRight hl hr)
  | transBoth l r =>
    exact (h.neutral Γ l).bind fun _ hl ↦ (h.neutral Γ r).bind fun _ hr ↦
      .pure (.transLeft hl (.neutral hr))
  | cong t c f =>
    refine (h.neutral Γ t).bind fun _ ht ↦ (h.type Γ c).bind fun _ hc ↦ ?_
    exact (h.typed Γ f).bind fun _ hf ↦ .pure (.cong ht hc hf)
  | indVec n t M b s =>
    refine (h.typed Γ n).bind fun _ hn ↦ (h.neutral Γ t).bind fun _ ht ↦ ?_
    refine (h.typed Γ M).bind fun _ hM ↦ (h.typed Γ b).bind fun _ hb ↦ ?_
    exact (h.typed Γ s).bind fun _ hs ↦ .pure (.indVec hn ht hM hb hs)
  | indVecBoth n t M b s =>
    refine (h.neutral Γ n).bind fun _ hn ↦ (h.neutral Γ t).bind fun _ ht ↦ ?_
    refine (h.typed Γ M).bind fun _ hM ↦ (h.typed Γ b).bind fun _ hb ↦ ?_
    exact (h.typed Γ s).bind fun _ hs ↦ .pure (.indVec (.neutral hn) ht hM hb hs)

/-- A neutral is read back as one, at whatever type, and it is a normal form too. -/
theorem ofNeutral (n : Neutral) : Answers IsNormal (read Γ (.neutral n)) :=
  fun t ht ↦ .neutral (h.neutral Γ n t ht)

theorem typeStep (v : Value) : Answers IsNormal (read.typeStep m Γ v) := by
  refine .after fun w ↦ ?_
  cases w with
  | const k => cases k <;> first | exact .error _ | exact .pure (.const _)
  | unary k a =>
    cases k <;> first
      | exact .error _
      | exact (h.type Γ a).bind fun _ ha ↦ .pure (.unary _ ha)
  | binary k a b =>
    cases k with
    | vec =>
      exact (h.type Γ a).bind fun _ ha ↦ (h.value Γ _ b).bind fun _ hb ↦ .pure (.binary _ ha hb)
    | either =>
      exact (h.type Γ a).bind fun _ ha ↦ (h.type Γ b).bind fun _ hb ↦ .pure (.binary _ ha hb)
    | _ => exact .error _
  | equal t l r =>
    refine (h.type Γ t).bind fun _ ht ↦ (h.value Γ t l).bind fun _ hl ↦ ?_
    exact (h.value Γ t r).bind fun _ hr ↦ .pure (.equal ht hl hr)
  | pi x d c =>
    refine (h.type Γ d).bind fun _ hd ↦ .after fun Δ ↦ .after fun w ↦ ?_
    exact (h.type Δ w).bind fun _ hc ↦ .pure (.pi _ hd hc)
  | sigma x d c =>
    refine (h.type Γ d).bind fun _ hd ↦ .after fun Δ ↦ .after fun w ↦ ?_
    exact (h.type Δ w).bind fun _ hc ↦ .pure (.sigma _ hd hc)
  | neu t n => exact h.ofNeutral Γ n
  | _ => exact .error _

/-- Where the type says nothing about its elements, or the value is none of them. -/
theorem neutralAt (t v : Value) : Answers IsNormal (read.neutralAt Γ t v) := by
  cases v with
  | neu _ n => exact h.ofNeutral Γ n
  | _ => exact .error _

/-- Of the type only its outermost constructor matters, and this is the one it has in sight. -/
theorem valueStep (t v : Value) : Answers (Reading.value t v).Fits (read.valueStep m Γ t v) := by
  have hT : Answers (fun w ↦ t.force = .ok w) t.force := fun _ ↦ id
  refine hT.lift.bind fun w hw ↦ .after fun u ↦ ?_
  have fits {e : Term} (he : e.IsNormal) (hx : e.Expanded w) : (Reading.value t v).Fits e := by
    refine ⟨he, fun w' hw' ↦ ?_⟩
    cases hw.symm.trans hw'
    exact hx
  -- most types leave it open how their elements are written
  have hn (hw : ∀ e : Term, e.Expanded w) :
      Answers (Reading.value t v).Fits (read.neutralAt Γ w u) :=
    fun e he ↦ fits (h.neutralAt Γ w u e he) (hw e)
  cases w with
  | const k =>
    cases k with
    | univ => exact fun e he ↦ fits (h.type Γ u e he) trivial
    | nat =>
      cases u with
      | const k => cases k <;> first | exact .error _ | exact .pure (fits (.const _) trivial)
      | unary k a =>
        cases k <;> first
          | exact .error _
          | exact (h.value Γ _ a).bind fun _ ha ↦ .pure (fits (.unary _ ha) trivial)
      | _ => exact hn fun _ ↦ trivial
    | atom =>
      cases u with
      | quote s => exact .pure (fits (.quote s) trivial)
      | _ => exact hn fun _ ↦ trivial
    | trivial => exact .pure (fits (.const _) rfl)
    | absurd =>
      cases u with
      | neu _ n =>
        exact (h.neutral Γ n).bind fun e he ↦ .pure (fits (.absurd he) ⟨e, he, rfl⟩)
      | _ => exact .error _
    | _ => exact hn fun _ ↦ trivial
  | pi x d c =>
    refine .after fun Δ ↦ .after fun c' ↦ .after fun b ↦ ?_
    exact (h.value Δ c' b).bind fun _ hb ↦ .pure (fits (.lam _ hb) ⟨_, _, rfl⟩)
  | sigma x d c =>
    refine .after fun a ↦ (h.value Γ d a).bind fun _ ha ↦ .after fun c' ↦ .after fun b ↦ ?_
    exact (h.value Γ c' b).bind fun _ hb ↦ .pure (fits (.binary _ ha hb) ⟨_, _, rfl⟩)
  | equal T _ _ =>
    cases u with
    | unary k a =>
      cases k <;> first
        | exact .error _
        | exact (h.value Γ T a).bind fun _ ha ↦ .pure (fits (.unary _ ha) trivial)
    | _ => exact hn fun _ ↦ trivial
  | unary k E =>
    cases k with
    | list =>
      cases u with
      | const k => cases k <;> first | exact .error _ | exact .pure (fits (.const _) trivial)
      | binary k a b =>
        cases k <;> first
          | exact .error _
          | exact (h.value Γ E a).bind fun _ ha ↦ (h.value Γ _ b).bind fun _ hb ↦
              .pure (fits (.binary _ ha hb) trivial)
      | _ => exact hn fun _ ↦ trivial
    | _ => exact hn fun _ ↦ trivial
  | binary k E l =>
    cases k with
    | vec =>
      cases u with
      | const k => cases k <;> first | exact .error _ | exact .pure (fits (.const _) trivial)
      | binary k a b =>
        cases k with
        | vecCons =>
          refine .after fun n ↦ ?_
          split
          · exact (h.value Γ E a).bind fun _ ha ↦ (h.value Γ _ b).bind fun _ hb ↦
              .pure (fits (.binary _ ha hb) trivial)
          · exact .error _
        | _ => exact .error _
      | _ => exact hn fun _ ↦ trivial
    | either =>
      cases u with
      | unary k a =>
        cases k <;> first
          | exact .error _
          | exact (h.value Γ _ a).bind fun _ ha ↦ .pure (fits (.unary _ ha) trivial)
      | _ => exact hn fun _ ↦ trivial
    | _ => exact hn fun _ ↦ trivial
  | _ => exact hn fun _ ↦ trivial

theorem step : Reader.Normal fun Γ ↦ read.step m Γ := by
  intro Γ r
  cases r with
  | value t v => exact h.valueStep m Γ t v
  | type v => exact h.typeStep m Γ v
  | neutral n => exact h.neutralStep Γ n

end Reader.Normal

/-- With any amount of fuel, what is read back is normal. -/
theorem reader_normal (fuel : Nat) : (reader fuel).Normal := by
  induction fuel with
  | zero => exact fun _ _ ↦ .error _
  | succ fuel ih => exact ih.step (machine fuel)

namespace Context

/-- **What is read back is normal and written out.**  In every context, and of values and types of
any kind, whatever is read back is normal; at a function type it is a function, at a pair type a
pair, at the unit type its only element, and at the empty type a neutral that is marked with this
type. -/
theorem readBack_normal (fuel : Nat) (Γ : Context) (type v : Value) (t : Term) :
    (Γ.readBack fuel type v = .ok t →
      t.IsNormal ∧ ∀ w, type.force = .ok w → t.Expanded w) ∧
    (Γ.readBackType fuel v = .ok t → t.IsNormal) ∧
    ∀ n, Γ.readBackNeutral fuel n = .ok t → t.IsNeutral :=
  ⟨reader_normal fuel Γ (.value type v) t, reader_normal fuel Γ (.type v) t,
    fun n ↦ reader_normal fuel Γ (.neutral n) t⟩

/-- An unknown function into the empty type is written out, and so are its results. -/
theorem readBack_normal_function :
    ∃ Γ type t, Γ = [("f", .free type)] ∧ type = .arrow "x" (.const .nat) (.const .absurd) ∧
      t = .lam "x" (.the (.const .absurd) (.app (.var "f") (.var "x"))) ∧
      Context.readBack 5 Γ type (.ofVar "f" type) = .ok t ∧ t.IsNormal ∧ t.Expanded type := by
  have h := (readBack_normal 5 [("f", .free (.arrow "x" (.const .nat) (.const .absurd)))]
    (.arrow "x" (.const .nat) (.const .absurd))
    (.ofVar "f" (.arrow "x" (.const .nat) (.const .absurd)))
    (.lam "x" (.the (.const .absurd) (.app (.var "f") (.var "x"))))).1 rfl
  exact ⟨_, _, _, rfl, rfl, rfl, rfl, h.1, h.2 _ rfl⟩

end Context

end LittleTypes
