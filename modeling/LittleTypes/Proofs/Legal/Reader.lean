import LittleTypes.Proofs.Legal.Machine

/-!
# Normal forms are legal

Reading back invents names for binders, by adding subscripts to the names that values suggest.  No
keyword has a subscript, so what is made of a variable name is a variable name.  Everything else in
a normal form comes from the value that is read back.
-/

namespace LittleTypes

/-! ## Fresh names -/

/-- Subscripts are not used in keywords. -/
theorem digit?_of_mem_keyword {w : String} (h : w ∈ keywords) {c : Char} (hc : c ∈ w.toList) :
    Subscript.digit? c = none := by
  have hall : keywords.all fun w ↦ w.toList.all fun c ↦ (Subscript.digit? c).isNone := by
    decide +kernel
  have hw := List.all_eq_true.1 (List.all_eq_true.1 hall w h) c hc
  rwa [Option.isNone_iff_eq_none] at hw

theorem Subscript.digit?_ofDigit : ∀ d < 10, digit? (ofDigit d) = some d := by decide

/-- A subscript has a digit. -/
theorem Subscript.exists_mem_render (n : Nat) : ∃ c ∈ (render (n + 1)).toList, digit? c ≠ none := by
  obtain ⟨c, cs, hcs⟩ := List.exists_cons_of_ne_nil (Nat.toDigits_ne_nil (b := 10) (n := n + 1))
  have hc : c.isDigit :=
    Nat.isDigit_of_mem_toDigits (n := n + 1) (by decide) (by decide) (hcs ▸ List.mem_cons_self)
  refine ⟨ofDigit (c.toNat - '0'.toNat), ?_, ?_⟩
  · rw [render, if_neg (Nat.succ_ne_zero n), String.toList_ofList, hcs]
    exact List.mem_cons_self
  · rw [digit?_ofDigit _ (toNat_of_isDigit hc).2]
    exact Option.some_ne_none _

/-- A name with a subscript is a variable name. -/
theorem isVariableName_subscript (base : String) (n : Nat) :
    isVariableName (base ++ Subscript.render (n + 1)) := by
  obtain ⟨c, hc, hd⟩ := Subscript.exists_mem_render n
  have hmem : c ∈ (base ++ Subscript.render (n + 1)).toList := by
    rw [String.toList_append]
    exact List.mem_append_right _ hc
  simp only [isVariableName, Bool.and_eq_true, bne_iff_ne, Bool.not_eq_true',
    List.contains_eq_mem, decide_eq_false_iff_not]
  constructor
  · intro h
    rw [h] at hmem
    cases hmem
  · exact fun h ↦ hd (digit?_of_mem_keyword h hmem)

theorem Fresh.isVariableName_search (used : List String) (base : String) (bound n : Nat) :
    isVariableName (search used base bound n) := by
  induction bound generalizing n with
  | zero => exact isVariableName_subscript base n
  | succ bound ih =>
    rw [search]
    split
    · exact ih (n + 1)
    · exact isVariableName_subscript base n

/-- What is made of a variable name is a variable name. -/
theorem isVariableName_freshName {hint : String} (h : isVariableName hint) (used : List String) :
    isVariableName (freshName used hint) := by
  rw [freshName]
  split
  · exact Fresh.isVariableName_search _ _ _ _
  · exact h

/-! ## Reading back -/

/-- What can be read back as a legal term. -/
def Reading.Legal : Reading → Prop
  | value t v => t.Legal ∧ v.Legal
  | type v => v.Legal
  | neutral n => n.Legal

/-- The term is legal. -/
abbrev Term.Legal (t : Term) : Prop := t.isLegal

/-- A reader that makes legal terms of what is legal. -/
def Reader.Legal (read : Reader) : Prop := ∀ Γ r, r.Legal → Answers Term.Legal (read Γ r)

/-- A function is read back with its own name, if it has one, and else with that of its type. -/
theorem isVariableName_hint {x : String} (hx : isVariableName x) :
    ∀ v : Value, v.Legal → isVariableName (match v with | .lam z _ => z | _ => x) := by
  intro v hv
  cases v with
  | lam z c => exact hv.1
  | _ => exact hx

theorem Answers.map {ε α β : Type} {P : α → Prop} {Q : β → Prop} {x : Except ε α}
    (h : Answers P x) (f : α → β) (hf : ∀ a, P a → Q (f a)) : Answers Q (f <$> x) := by
  cases x with
  | ok a => exact .pure (hf a (h a rfl))
  | error e => exact .error e

namespace Reader.Legal

variable {read : Reader} (h : read.Legal) {m : Machine} (hm : m.Legal) (Γ : Context)

include h

theorem typed {a : Typed} (ha : a.Legal) : Answers Term.Legal (read.typed Γ a) := by
  cases a
  exact h Γ _ ha

theorem typeOfTyped {a : Typed} (ha : a.Legal) : Answers Term.Legal (read.typeOfTyped Γ a) := by
  cases a
  exact h Γ _ ha.1

theorem typedType {a : Typed} (ha : a.Legal) : Answers Term.Legal (read.typedType Γ a) := by
  cases a
  exact h Γ _ ha.2

theorem neutralStep {n : Neutral} (hn : n.Legal) : Answers Term.Legal (read.neutralStep Γ n) := by
  have neutral {n : Neutral} (hn : n.Legal) : Answers Term.Legal (read Γ (.neutral n)) := h Γ _ hn
  have type {v : Value} (hv : v.Legal) : Answers Term.Legal (read Γ (.type v)) := h Γ _ hv
  cases n with
  | var x => exact .pure hn
  | hole l t => exact (type hn).bind fun _ ht ↦ .pure ht
  | project k t => exact (neutral (n := t) hn).bind fun _ ht ↦ .pure ht
  | app f a =>
    refine (neutral hn.1).bind fun _ h₁ ↦ (h.typed Γ hn.2).bind fun _ h₂ ↦ .pure ?_
    simp [Term.Legal, Term.isLegal, *]
  | recursor k t b s =>
    refine (neutral hn.1).bind fun _ h₁ ↦ (h.typeOfTyped Γ hn.2.1).bind fun _ h₂ ↦ ?_
    refine (h.typed Γ hn.2.1).bind fun _ h₃ ↦ (h.typed Γ hn.2.2).bind fun _ h₄ ↦ .pure ?_
    simp [Term.Legal, Term.isLegal, *]
  | induct k t c b s =>
    refine (neutral hn.1).bind fun _ h₁ ↦ (h.typed Γ hn.2.1).bind fun _ h₂ ↦ ?_
    refine (h.typed Γ hn.2.2.1).bind fun _ h₃ ↦ (h.typed Γ hn.2.2.2).bind fun _ h₄ ↦ .pure ?_
    simp [Term.Legal, Term.isLegal, *]
  | transport k t c b =>
    refine (neutral hn.1).bind fun _ h₁ ↦ (h.typed Γ hn.2.1).bind fun _ h₂ ↦ ?_
    refine (h.typed Γ hn.2.2).bind fun _ h₃ ↦ .pure ?_
    simp [Term.Legal, Term.isLegal, *]
  | indAbsurd t c =>
    refine (neutral hn.1).bind fun _ h₁ ↦ (h.typedType Γ hn.2).bind fun _ h₂ ↦ .pure ?_
    simp [Term.Legal, Term.isLegal, *]
  | transLeft l r =>
    refine (neutral hn.1).bind fun _ h₁ ↦ (h.typed Γ hn.2).bind fun _ h₂ ↦ .pure ?_
    simp [Term.Legal, Term.isLegal, *]
  | transRight l r =>
    refine (h.typed Γ hn.1).bind fun _ h₁ ↦ (neutral hn.2).bind fun _ h₂ ↦ .pure ?_
    simp [Term.Legal, Term.isLegal, *]
  | transBoth l r =>
    refine (neutral hn.1).bind fun _ h₁ ↦ (neutral hn.2).bind fun _ h₂ ↦ .pure ?_
    simp [Term.Legal, Term.isLegal, *]
  | cong t c f =>
    refine (neutral hn.1).bind fun _ h₁ ↦ (type hn.2.1).bind fun _ h₂ ↦ ?_
    refine (h.typed Γ hn.2.2).bind fun _ h₃ ↦ .pure ?_
    simp [Term.Legal, Term.isLegal, *]
  | indVec l t c b s =>
    refine (h.typed Γ hn.1).bind fun _ h₁ ↦ (neutral hn.2.1).bind fun _ h₂ ↦ ?_
    refine (h.typed Γ hn.2.2.1).bind fun _ h₃ ↦ (h.typed Γ hn.2.2.2.1).bind fun _ h₄ ↦ ?_
    refine (h.typed Γ hn.2.2.2.2).bind fun _ h₅ ↦ .pure ?_
    simp [Term.Legal, Term.isLegal, *]
  | indVecBoth l t c b s =>
    refine (neutral hn.1).bind fun _ h₁ ↦ (neutral hn.2.1).bind fun _ h₂ ↦ ?_
    refine (h.typed Γ hn.2.2.1).bind fun _ h₃ ↦ (h.typed Γ hn.2.2.2.1).bind fun _ h₄ ↦ ?_
    refine (h.typed Γ hn.2.2.2.2).bind fun _ h₅ ↦ .pure ?_
    simp [Term.Legal, Term.isLegal, *]

theorem neutralAt (t : Value) {v : Value} (hv : v.Legal) :
    Answers Term.Legal (read.neutralAt Γ t v) := by
  cases v with
  | neu _ n => exact h Γ _ hv.2
  | _ => exact .error _

include hm

/-- A type that binds a name. -/
theorem binder {x : String} (hx : isVariableName x) {dom : Value} (hd : dom.Legal) {cod : Closure}
    (hc : cod.Legal) {build : String → Term → Term → Term}
    (hbuild : ∀ {y a b}, isVariableName y → Term.Legal a → Term.Legal b → (build y a b).Legal) :
    Answers Term.Legal (do
      let dom' ← read Γ (.type dom)
      let Δ ← Γ.bindFree (Γ.fresh x) dom
      pure (build (Γ.fresh x) dom'
        (← read Δ (.type (← m.enter .passing cod (.ofVar (Γ.fresh x) dom)))))) := by
  have hy := isVariableName_freshName hx Γ.names
  refine (h Γ (.type dom) hd).bind fun a ha ↦ .after fun Δ ↦ ?_
  refine (hm.enter _ hc (a := .ofVar _ _) ⟨hd, hy⟩).lift.bind fun c hc ↦ ?_
  exact (h Δ (.type c) hc).bind fun b hb ↦ .pure (hbuild hy ha hb)

theorem typeStep {v : Value} (hv : v.Legal) : Answers Term.Legal (read.typeStep m Γ v) := by
  have type {v : Value} (hv : v.Legal) : Answers Term.Legal (read Γ (.type v)) := h Γ _ hv
  have value {t v : Value} (ht : t.Legal) (hv : v.Legal) :
      Answers Term.Legal (read Γ (.value t v)) := h Γ _ ⟨ht, hv⟩
  refine hv.force.lift.bind fun w hw ↦ ?_
  split
  · exact .pure rfl
  · exact .pure rfl
  · exact .pure rfl
  · exact .pure rfl
  · exact .pure rfl
  · exact h.binder hm Γ hw.1 hw.2.1 hw.2.2 fun hy ha hb ↦ by simp [Term.Legal, Term.isLegal, *]
  · exact h.binder hm Γ hw.1 hw.2.1 hw.2.2 fun hy ha hb ↦ by simp [Term.Legal, Term.isLegal, *]
  · refine (type hw.1).bind fun _ h₁ ↦ (value hw.1 hw.2.1).bind fun _ h₂ ↦ ?_
    refine (value hw.1 hw.2.2).bind fun _ h₃ ↦ .pure ?_
    simp [Term.Legal, Term.isLegal, *]
  · rename_i e
    exact (type (v := e) hw).bind fun _ h₁ ↦ .pure h₁
  · refine (type hw.1).bind fun _ h₁ ↦ (value (t := .const .nat) trivial hw.2).bind
      fun _ h₂ ↦ .pure ?_
    simp [Term.Legal, Term.isLegal, *]
  · refine (type hw.1).bind fun _ h₁ ↦ (type hw.2).bind fun _ h₂ ↦ .pure ?_
    simp [Term.Legal, Term.isLegal, *]
  · exact h Γ _ hw.2
  · exact .error _

theorem valueStep {t v : Value} (ht : t.Legal) (hv : v.Legal) :
    Answers Term.Legal (read.valueStep m Γ t v) := by
  have value {t v : Value} (ht : t.Legal) (hv : v.Legal) :
      Answers Term.Legal (read Γ (.value t v)) := h Γ _ ⟨ht, hv⟩
  refine ht.force.lift.bind fun t ht ↦ hv.force.lift.bind fun v hv ↦ ?_
  split
  · exact h Γ _ hv
  · exact .pure rfl
  · rename_i n
    exact (value (t := .const .nat) (v := n) trivial hv).bind fun _ h₁ ↦ .pure h₁
  · exact .pure hv
  · exact .pure rfl
  · exact (h Γ (.neutral _) hv.2).bind fun _ h₁ ↦ .pure h₁
  · rename_i x dom cod
    have hy := isVariableName_freshName (isVariableName_hint ht.1 v hv) Γ.names
    refine .after fun Δ ↦ ?_
    refine (hm.enter _ ht.2.2 (a := .ofVar _ _) ⟨ht.2.1, hy⟩).lift.bind fun c hc ↦ ?_
    refine (hm.apply _ hv (a := .ofVar _ _) ⟨ht.2.1, hy⟩).lift.bind fun w hw ↦ ?_
    refine (h Δ (.value c w) ⟨hc, hw⟩).bind fun b hb ↦ .pure ?_
    exact Bool.and_eq_true_iff.2 ⟨hy, hb⟩
  · refine (hm.doProject _ .car hv).lift.bind fun a ha ↦ (value ht.2.1 ha).bind fun _ h₁ ↦ ?_
    refine (hm.enter _ ht.2.2 ha).lift.bind fun S hS ↦ ?_
    refine (hm.doProject _ .cdr hv).lift.bind fun d hd ↦ (value hS hd).bind fun _ h₂ ↦ .pure ?_
    simp [Term.Legal, Term.isLegal, *]
  · rename_i a
    exact (value (v := a) ht.1 hv).bind fun _ h₁ ↦ .pure h₁
  · exact .pure rfl
  · rename_i e _ _
    refine (value (t := e) ht hv.1).bind fun _ h₁ ↦ ?_
    refine (value (t := .unary .list e) ht hv.2).bind fun _ h₂ ↦ .pure ?_
    simp [Term.Legal, Term.isLegal, *]
  · exact .pure rfl
  · refine ht.2.force.lift.bind fun l hl ↦ ?_
    split
    · rename_i k
      refine (value ht.1 hv.1).bind fun _ h₁ ↦ ?_
      refine (value (t := .binary .vec _ k) ⟨ht.1, hl⟩ hv.2).bind fun _ h₂ ↦ .pure ?_
      simp [Term.Legal, Term.isLegal, *]
    · exact .error _
  · rename_i a
    exact (value (v := a) ht.1 hv).bind fun _ h₁ ↦ .pure h₁
  · rename_i a
    exact (value (v := a) ht.2 hv).bind fun _ h₁ ↦ .pure h₁
  · exact h.neutralAt Γ _ hv

theorem step : Reader.Legal fun Γ ↦ read.step m Γ := by
  intro Γ r hr
  cases r with
  | value t v => exact h.valueStep hm Γ hr.1 hr.2
  | type v => exact h.typeStep hm Γ hr
  | neutral n => exact h.neutralStep Γ hr

end Reader.Legal

/-- With any amount of fuel, what is read back is legal. -/
theorem reader_legal (fuel : Nat) : (reader fuel).Legal := by
  induction fuel with
  | zero => exact fun _ _ _ ↦ .error _
  | succ fuel ih => exact ih.step (machine_legal fuel)

end LittleTypes
