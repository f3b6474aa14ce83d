import LittleTypes.Proofs.Context.Built
import LittleTypes.Proofs.Name.Binders
import LittleTypes.Proofs.Term.Alpha

/-!
# Sameness as equality of nameless forms

In place of the level of its binder, a bound variable may be the number of binders between it and
its own binder, its de Bruijn index.  Both forms say the same, as they are turned into each other by
counting the binders from the other end.  So terms from which nothing is missing are α-equivalent
exactly if their forms with indices are equal once all elements of the empty type are alike, and
being α-equivalent is an equivalence relation.  Normal forms never have anything missing, hence
comparing values and types by their normal forms is an equivalence relation as well.
-/

namespace LittleTypes

namespace Nameless

/-- The binder number `i` of `k` counted from the other end.  What is not one of them stays. -/
def turnIndex (k i : Nat) : Nat := if i < k then k - 1 - i else i

@[simp] theorem turnIndex_turnIndex (k i : Nat) : turnIndex k (turnIndex k i) = i := by
  unfold turnIndex
  grind

/-- The form in which the `k` binders around it, and those inside, are counted from the other
end. -/
def turn (k : Nat) : Nameless → Nameless
  | missing => .missing
  | var i => .var (turnIndex k i)
  | free x => .free x
  | hole l t => .hole l (t.turn k)
  | the t e => .the (t.turn k) (e.turn k)
  | app f a => .app (f.turn k) (a.turn k)
  | numeral n => .numeral n
  | quote s => .quote s
  | lam b => .lam (b.turn (k + 1))
  | pi a b => .pi (a.turn k) (b.turn (k + 1))
  | sigma a b => .sigma (a.turn k) (b.turn (k + 1))
  | const c => .const c
  | unary c a => .unary c (a.turn k)
  | binary c a b => .binary c (a.turn k) (b.turn k)
  | equal t l r => .equal (t.turn k) (l.turn k) (r.turn k)
  | project c t => .project c (t.turn k)
  | recursor c t X b s => .recursor c (t.turn k) (X.turn k) (b.turn k) (s.turn k)
  | induct c t m b s => .induct c (t.turn k) (m.turn k) (b.turn k) (s.turn k)
  | transport c t m b => .transport c (t.turn k) (m.turn k) (b.turn k)
  | indAbsurd t m => .indAbsurd (t.turn k) (m.turn k)
  | trans l r => .trans (l.turn k) (r.turn k)
  | cong t c f => .cong (t.turn k) (c.turn k) (f.turn k)
  | indVec n t m b s => .indVec (n.turn k) (t.turn k) (m.turn k) (b.turn k) (s.turn k)

/-- Turning twice changes nothing. -/
theorem turn_turn (N : Nameless) (k : Nat) : (N.turn k).turn k = N := by
  induction N generalizing k <;> simp_all [turn]

theorem turn_injective (k : Nat) : Function.Injective (turn k) :=
  Function.LeftInverse.injective fun N ↦ N.turn_turn k

@[simp] theorem isAbsurd_turn (N : Nameless) (k : Nat) : (N.turn k).isAbsurd = N.isAbsurd := by
  cases N with
  | const c => cases c <;> rfl
  | _ => rfl

/-- No variable stands in what all elements of the empty type are replaced by, so turning and
blurring do not meet. -/
theorem blur_turn (N : Nameless) (k : Nat) : (N.turn k).blur = N.blur.turn k := by
  induction N generalizing k with
  | the t e iht ihe =>
    simp only [turn, blur, isAbsurd_turn]
    split
    · rfl
    · simp only [turn, iht, ihe]
  | recursor c t X b s iht ihX ihb ihs =>
    simp only [turn, blur, isAbsurd_turn]
    split
    · simp only [turn, iht, ihs]
      rfl
    · simp only [turn, iht, ihX, ihb, ihs]
  | _ => simp_all [turn, blur]

end Nameless

/-- The levels of names that are bound by binders given innermost first. -/
def Levels.ofBinders : List String → Levels
  | [] => .none
  | x :: xs => (ofBinders xs).bind x xs.length

namespace Term

/-- The nameless form of a term under binders, innermost first, in which a bound variable is its de
Bruijn index. -/
def indices (xs : List String) : Term → Nameless
  | missing => .missing
  | var x => if x ∈ xs then .var (xs.idxOf x) else .free x
  | hole l t => .hole l (t.indices xs)
  | the t e => .the (t.indices xs) (e.indices xs)
  | app f a => .app (f.indices xs) (a.indices xs)
  | numeral n => .numeral n
  | quote s => .quote s
  | lam x b => .lam (b.indices (x :: xs))
  | pi x a b => .pi (a.indices xs) (b.indices (x :: xs))
  | sigma x a b => .sigma (a.indices xs) (b.indices (x :: xs))
  | const c => .const c
  | unary c a => .unary c (a.indices xs)
  | binary c a b => .binary c (a.indices xs) (b.indices xs)
  | equal t l r => .equal (t.indices xs) (l.indices xs) (r.indices xs)
  | project c t => .project c (t.indices xs)
  | recursor c t X b s =>
    .recursor c (t.indices xs) (X.indices xs) (b.indices xs) (s.indices xs)
  | induct c t m b s => .induct c (t.indices xs) (m.indices xs) (b.indices xs) (s.indices xs)
  | transport c t m b => .transport c (t.indices xs) (m.indices xs) (b.indices xs)
  | indAbsurd t m => .indAbsurd (t.indices xs) (m.indices xs)
  | trans l r => .trans (l.indices xs) (r.indices xs)
  | cong t c f => .cong (t.indices xs) (c.indices xs) (f.indices xs)
  | indVec n t m b s =>
    .indVec (n.indices xs) (t.indices xs) (m.indices xs) (b.indices xs) (s.indices xs)

/-- The form of a term in which bound variables are de Bruijn indices, free variables keep their
names, and every element of the empty type that is annotated as one is the same. -/
def namelessForm (t : Term) : Nameless := (t.indices []).blur

end Term

/-- The level of a name is its place among the binders counted from the outermost one. -/
theorem Levels.ofBinders_eq (xs : List String) (x : String) :
    ofBinders xs x = if x ∈ xs then some (xs.length - 1 - xs.idxOf x) else Option.none := by
  induction xs with
  | nil => rfl
  | cons y xs ih =>
    by_cases h : x = y
    · subst h
      simp [ofBinders]
    · rw [ofBinders, Levels.bind_of_ne _ _ h, ih]
      simp only [List.mem_cons, h, false_or, List.length_cons, List.idxOf_cons_ne _ (Ne.symm h)]
      split
      · rw [Option.some_inj]
        omega
      · rfl

namespace Term

/-- Indices are levels counted from the other end. -/
theorem turn_nameless (t : Term) (xs : List String) :
    (t.nameless (.ofBinders xs) xs.length).turn xs.length = t.indices xs := by
  induction t generalizing xs with
  | var x =>
    simp only [nameless, indices, Levels.ofBinders_eq]
    by_cases h : x ∈ xs
    · have := List.idxOf_lt_length_of_mem h
      simp only [h, if_true, Nameless.turn, Nameless.turnIndex, Nameless.var.injEq]
      rw [if_pos (by omega)]
      omega
    · simp only [h, if_false, Nameless.turn]
  | lam x b ih => exact congrArg Nameless.lam (ih (x :: xs))
  | pi x a b iha ihb => exact congrArg₂ Nameless.pi (iha xs) (ihb (x :: xs))
  | sigma x a b iha ihb => exact congrArg₂ Nameless.sigma (iha xs) (ihb (x :: xs))
  | _ => simp_all [nameless, indices, Nameless.turn]

theorem namelessForm_eq_turn (t : Term) : t.namelessForm = (t.nameless .none 0).blur.turn 0 := by
  rw [← Nameless.blur_turn]
  exact congrArg Nameless.blur (t.turn_nameless []).symm

/-- Terms are α-equivalent exactly if they have the same form. -/
theorem alphaEquiv_iff_namelessForm {t u : Term} (ht : t.Whole) :
    t.alphaEquiv u ↔ t.namelessForm = u.namelessForm := by
  rw [namelessForm_eq_turn, namelessForm_eq_turn, (Nameless.turn_injective 0).eq_iff]
  exact alphaEquiv_iff (θ := .none) nofun nofun ht

end Term

/-! ### Normal forms have nothing missing -/

/-- Nothing is missing from what is read back. -/
def Reader.ReadsWhole (read : Reader) : Prop := ∀ Γ r, Answers Term.Whole (read Γ r)

namespace Reader.ReadsWhole

variable {read : Reader} (h : read.ReadsWhole) (m : Machine) (Γ : Context)

include h

theorem typed (a : Typed) : Answers Term.Whole (read.typed Γ a) := by
  cases a
  exact h Γ _

theorem typeOfTyped (a : Typed) : Answers Term.Whole (read.typeOfTyped Γ a) := by
  cases a
  exact h Γ _

theorem typedType (a : Typed) : Answers Term.Whole (read.typedType Γ a) := by
  cases a
  exact h Γ _

theorem neutralAt (t v : Value) : Answers Term.Whole (read.neutralAt Γ t v) := by
  cases v with
  | neu _ n => exact h Γ _
  | _ => exact .error _

/-- Goes on with a part that was read back. -/
theorem next {r : Reading} {f : Term → Except Fault Term}
    (hf : ∀ t, t.Whole → Answers Term.Whole (f t)) : Answers Term.Whole (read Γ r >>= f) :=
  (h Γ r).bind hf

theorem neutralStep (n : Neutral) : Answers Term.Whole (read.neutralStep Γ n) := by
  cases n <;> rw [Reader.neutralStep] <;>
    repeat' with_reducible first
      | refine h.next Γ fun _ _ ↦ ?_
      | refine (h.typed Γ _).bind fun _ _ ↦ ?_
      | refine (h.typeOfTyped Γ _).bind fun _ _ ↦ ?_
      | refine (h.typedType Γ _).bind fun _ _ ↦ ?_
      | refine Answers.pure ?_
  all_goals simp_all [Term.Whole]

theorem typeStep (v : Value) : Answers Term.Whole (read.typeStep m Γ v) := by
  have hr := h Γ
  refine Answers.after fun v ↦ ?_
  dsimp only
  split
  all_goals
    repeat' with_reducible first
      | exact hr _ | exact .error _
      | refine h.next _ fun _ _ ↦ ?_
      | refine Answers.after fun _ ↦ ?_
      | refine Answers.pure ?_
  all_goals simp_all [Term.Whole]

theorem valueStep (t v : Value) : Answers Term.Whole (read.valueStep m Γ t v) := by
  have hr := h Γ
  refine Answers.after fun t ↦ Answers.after fun v ↦ ?_
  dsimp only
  split
  all_goals
    repeat' with_reducible first
      | exact hr _ | exact .error _ | exact h.neutralAt Γ _ _
      | refine h.next _ fun _ _ ↦ ?_
      | refine Answers.after fun _ ↦ ?_
      | refine Answers.pure ?_
      | split
  all_goals simp_all [Term.Whole]

theorem step : Reader.ReadsWhole fun Γ ↦ read.step m Γ := by
  intro Γ r
  cases r with
  | value t v => exact h.valueStep m Γ t v
  | type v => exact h.typeStep m Γ v
  | neutral n => exact h.neutralStep Γ n

end Reader.ReadsWhole

/-- With any amount of fuel, nothing is missing from what is read back. -/
theorem reader_readsWhole (fuel : Nat) : (reader fuel).ReadsWhole := by
  induction fuel with
  | zero => exact fun _ _ ↦ .error _
  | succ fuel ih => exact ih.step (machine fuel)

/-! ### The comparisons -/

namespace Scope

variable (fuel : Nat) (s : Scope) (loc : Location) {type v w : Value}

/-- A comparison of normal forms succeeds exactly if both exist and have the same nameless form. -/
theorem compare_eq_ok_iff {r r' : Reading} {fails : Term → Term → Checked Unit}
    (h : ∀ t u, (fails t u).outcome ≠ .ok ()) :
    (do
      let t ← Checked.ofRead (reader fuel s.context r)
      let u ← Checked.ofRead (reader fuel s.context r')
      if t.alphaEquiv u then pure () else fails t u : Checked Unit).outcome = .ok () ↔
      ∃ t, reader fuel s.context r = .ok t ∧
        ∃ u, reader fuel s.context r' = .ok u ∧ t.namelessForm = u.namelessForm := by
  simp only [Checked.outcome_bind_eq_ok_iff, Checked.ofRead_eq_ok]
  refine exists_congr fun t ↦ and_congr_right fun ht ↦ exists_congr fun u ↦ and_congr_right fun _ ↦ ?_
  rw [← Term.alphaEquiv_iff_namelessForm (reader_readsWhole fuel _ _ t ht)]
  split
  · rename_i htu
    simp [htu]
  · rename_i htu
    simp [htu, h]

/-- Values of a type are the same exactly if both have normal forms, and these have the same
nameless form. -/
theorem convert_eq_ok_iff :
    (s.convert fuel loc type v w).outcome = .ok () ↔
      ∃ t, s.context.readBack fuel type v = .ok t ∧
        ∃ u, s.context.readBack fuel type w = .ok u ∧ t.namelessForm = u.namelessForm := by
  refine s.compare_eq_ok_iff fuel fun t u h ↦ ?_
  obtain ⟨_, _, h⟩ := Checked.outcome_bind_eq_ok_iff.1 h
  cases h

/-- Types are the same exactly if both have normal forms, and these have the same nameless form. -/
theorem sameType_eq_ok_iff :
    (s.sameType fuel loc v w).outcome = .ok () ↔
      ∃ t, s.context.readBackType fuel v = .ok t ∧
        ∃ u, s.context.readBackType fuel w = .ok u ∧ t.namelessForm = u.namelessForm := by
  exact s.compare_eq_ok_iff fuel fun t u ↦ nofun

end Scope

/-- Having answers with the same image is an equivalence relation on what has an answer. -/
theorem equivalence_of_answers {ε α β γ : Type} {x : α → Except ε β} {f : β → γ}
    {R : α → α → Prop} (h : ∀ v w, R v w ↔ ∃ t, x v = .ok t ∧ ∃ u, x w = .ok u ∧ f t = f u) :
    Equivalence fun v w : { v // ∃ t, x v = .ok t } ↦ R v w where
  refl := fun ⟨v, t, ht⟩ ↦ (h v v).2 ⟨t, ht, t, ht, rfl⟩
  symm {v w} hvw := by
    obtain ⟨t, ht, u, hu, e⟩ := (h v w).1 hvw
    exact (h w v).2 ⟨u, hu, t, ht, e.symm⟩
  trans {v w z} hvw hwz := by
    obtain ⟨t, ht, u, hu, e⟩ := (h v w).1 hvw
    obtain ⟨u', hu', q, hq, e'⟩ := (h w z).1 hwz
    obtain rfl : u = u' := by rw [hu] at hu'; exact Except.ok.inj hu'
    exact (h v z).2 ⟨t, ht, q, hq, e.trans e'⟩

/-- Terms from which nothing is missing are α-equivalent exactly if they are identical once bound
variables are de Bruijn indices and all annotated elements of the empty type are one.  So
α-equivalence is an equivalence relation on them, and so are the comparison of values of a type and
that of types, on those that can be read back. -/
theorem Term.alphaEquiv_is_nameless_equality (fuel : Nat) (s : Scope) (loc : Location)
    (type : Value) :
    (∀ t u : Term, t.Whole → u.Whole → (t.alphaEquiv u ↔ t.namelessForm = u.namelessForm)) ∧
    Equivalence (fun t u : { t : Term // t.Whole } ↦ t.1.alphaEquiv u.1 = true) ∧
    Equivalence (fun v w : { v // ∃ t, s.context.readBack fuel type v = .ok t } ↦
      (s.convert fuel loc type v w).outcome = .ok ()) ∧
    Equivalence (fun v w : { v // ∃ t, s.context.readBackType fuel v = .ok t } ↦
      (s.sameType fuel loc v w).outcome = .ok ()) := by
  refine ⟨fun t u ht _ ↦ alphaEquiv_iff_namelessForm ht, ⟨fun t ↦ ?_, fun {t u} h ↦ ?_,
    fun {t u v} h h' ↦ ?_⟩, ?_, ?_⟩
  · exact (alphaEquiv_iff_namelessForm t.2).2 rfl
  · rw [alphaEquiv_iff_namelessForm t.2] at h
    exact (alphaEquiv_iff_namelessForm u.2).2 h.symm
  · rw [alphaEquiv_iff_namelessForm t.2] at h
    rw [alphaEquiv_iff_namelessForm u.2] at h'
    exact (alphaEquiv_iff_namelessForm t.2).2 (h.trans h')
  · exact equivalence_of_answers (x := s.context.readBack fuel type) fun _ _ ↦
      s.convert_eq_ok_iff fuel loc
  · exact equivalence_of_answers (x := s.context.readBackType fuel) fun _ _ ↦
      s.sameType_eq_ok_iff fuel loc

/-- The inner binder may have the name of the outer one of the other term, and what an element of
the empty type is made of does not matter. -/
theorem Term.alphaEquiv_shadowing :
    (lam "x" (lam "y" (app (var "x") (the (const .absurd) (var "y"))))).alphaEquiv
      (lam "y" (lam "x" (app (var "y") (the (const .absurd) (var "z"))))) = true ∧
    ¬ (lam "x" (lam "y" (var "x"))).alphaEquiv (lam "y" (lam "x" (var "x"))) = true := by
  have h := (alphaEquiv_is_nameless_equality 0 {} {} (.const .nat)).1
  exact ⟨(h _ _ (by simp [Whole]) (by simp [Whole])).2 (by decide),
    fun e ↦ absurd ((h _ _ (by simp [Whole]) (by simp [Whole])).1 e) (by decide)⟩

end LittleTypes
