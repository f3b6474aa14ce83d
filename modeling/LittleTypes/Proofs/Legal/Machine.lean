import LittleTypes.Proofs.Name.Binders

/-!
# Evaluation keeps values legal

A value is legal when it keeps nothing that a legal term could not have: the names it suggests for
binders and the variables in it are variable names, its atoms are atom symbols, and the terms in its
closures are legal.  The names in the types of motives, steps and cases are chosen here; all others
come from terms.
-/

namespace LittleTypes

mutual

/-- A value of which only legal terms can be made. -/
def Value.Legal : Value → Prop
  | .const _ => True
  | .quote s => isAtomSymbol s
  | .unary _ a => a.Legal
  | .binary _ a b => a.Legal ∧ b.Legal
  | .equal t l r => t.Legal ∧ l.Legal ∧ r.Legal
  | .pi x d c => isVariableName x ∧ d.Legal ∧ c.Legal
  | .sigma x d c => isVariableName x ∧ d.Legal ∧ c.Legal
  | .lam x c => isVariableName x ∧ c.Legal
  | .neu t n => t.Legal ∧ n.Legal
  | .delayed o => Outcome.LegalThunk o
  | .absent => True

/-- Whatever is delayed turns out legal. -/
def Outcome.LegalThunk : Thunk Outcome → Prop
  | ⟨f⟩ => (f ()).Legal

/-- A fault is legal. -/
def Outcome.Legal : Outcome → Prop
  | .value v => v.Legal
  | .fault _ => True

def Closure.Legal : Closure → Prop
  | .body ρ _ t => ρ.Legal ∧ t.isLegal
  | .constant v => v.Legal
  | .natStep m => m.Legal
  | .listStep e m => e.Legal ∧ m.Legal
  | .listStepTail m e => m.Legal ∧ e.Legal
  | .equalMotive t l => t.Legal ∧ l.Legal
  | .vecMotive e => e.Legal
  | .vecStep e m => e.Legal ∧ m.Legal
  | .vecStepHead e m k => e.Legal ∧ m.Legal ∧ k.Legal
  | .vecStepTail m k h => m.Legal ∧ k.Legal ∧ h.Legal
  | .eitherCase _ m => m.Legal

def Neutral.Legal : Neutral → Prop
  | .var x => isVariableName x
  | .hole _ t => t.Legal
  | .app f a => f.Legal ∧ a.Legal
  | .project _ t => t.Legal
  | .recursor _ t b s => t.Legal ∧ b.Legal ∧ s.Legal
  | .induct _ t m b s => t.Legal ∧ m.Legal ∧ b.Legal ∧ s.Legal
  | .transport _ t m b => t.Legal ∧ m.Legal ∧ b.Legal
  | .indAbsurd t m => t.Legal ∧ m.Legal
  | .transLeft l r => l.Legal ∧ r.Legal
  | .transRight l r => l.Legal ∧ r.Legal
  | .transBoth l r => l.Legal ∧ r.Legal
  | .cong t c f => t.Legal ∧ c.Legal ∧ f.Legal
  | .indVec l t m b s => l.Legal ∧ t.Legal ∧ m.Legal ∧ b.Legal ∧ s.Legal
  | .indVecBoth l t m b s => l.Legal ∧ t.Legal ∧ m.Legal ∧ b.Legal ∧ s.Legal

def Typed.Legal : Typed → Prop
  | .mk t v => t.Legal ∧ v.Legal

def Env.Legal : Env → Prop
  | .nil => True
  | .cons _ v ρ => v.Legal ∧ ρ.Legal

end

theorem Env.Legal.lookup {ρ : Env} (h : ρ.Legal) {x : String} {v : Value}
    (hv : ρ.lookup x = some v) : v.Legal := by
  match ρ with
  | .nil => cases hv
  | .cons y w ρ =>
    rw [Env.lookup] at hv
    split at hv
    · cases hv
      exact h.1
    · exact lookup h.2 hv

/-- A demand whose answer is legal. -/
def Demand.Legal : Demand → Prop
  | eval ρ t => ρ.Legal ∧ t.isLegal
  | apply f a => f.Legal ∧ a.Legal
  | recursor _ t c b s => t.Legal ∧ c.Legal ∧ b.Legal ∧ s.Legal
  | induct _ t m b s => t.Legal ∧ m.Legal ∧ b.Legal ∧ s.Legal
  | indVec n t m b s => n.Legal ∧ t.Legal ∧ m.Legal ∧ b.Legal ∧ s.Legal

/-! ## Values by themselves -/

namespace Value.Legal

variable {v w t : Value}

theorem numeral (n : Nat) : (Value.numeral n).Legal := by
  induction n with
  | zero => exact trivial
  | succ n ih => exact ih

theorem arrow {x : String} (hx : isVariableName x) (hv : v.Legal) (hw : w.Legal) :
    (Value.arrow x v w).Legal := ⟨hx, hv, hw⟩

/-! The types of motives, steps and cases -/

theorem whichNatStep (h : v.Legal) : (Value.whichNatStep v).Legal := .arrow (by decide) trivial h

theorem iterNatStep (h : v.Legal) : (Value.iterNatStep v).Legal := .arrow (by decide) h h

theorem recNatStep (h : v.Legal) : (Value.recNatStep v).Legal :=
  .arrow (by decide) trivial (.arrow (by decide) h h)

theorem recListStep (h : v.Legal) (hw : w.Legal) : (Value.recListStep v w).Legal :=
  .arrow (by decide) h (.arrow (v := .unary .list v) (by decide) h (.arrow (by decide) hw hw))

theorem indNatMotive : Value.indNatMotive.Legal := .arrow (by decide) trivial trivial

theorem indNatStep (h : v.Legal) : (Value.indNatStep v).Legal := ⟨by decide, trivial, h⟩

theorem indListMotive (h : v.Legal) : (Value.indListMotive v).Legal :=
  .arrow (v := .unary .list v) (by decide) h trivial

theorem indListStep (h : v.Legal) (hw : w.Legal) : (Value.indListStep v w).Legal :=
  ⟨by decide, h, h, hw⟩

theorem indEitherMotive (h : v.Legal) (hw : w.Legal) : (Value.indEitherMotive v w).Legal :=
  .arrow (v := .binary .either v w) (by decide) ⟨h, hw⟩ trivial

theorem indEitherCase (k : Unary) (h : v.Legal) (hw : w.Legal) :
    (Value.indEitherCase k v w).Legal := ⟨by decide, h, hw⟩

theorem replaceMotive (h : v.Legal) : (Value.replaceMotive v).Legal :=
  .arrow (by decide) h trivial

theorem indEqualMotive (h : v.Legal) (hw : w.Legal) : (Value.indEqualMotive v w).Legal :=
  ⟨by decide, h, h, hw⟩

theorem indVecMotive (h : v.Legal) : (Value.indVecMotive v).Legal := ⟨by decide, trivial, h⟩

theorem indVecStep (h : v.Legal) (hw : w.Legal) : (Value.indVecStep v w).Legal :=
  ⟨by decide, trivial, h, hw⟩

/-! Looking at values -/

theorem force (h : v.Legal) : Answers Value.Legal v.force := by
  cases v with
  | delayed o =>
    obtain ⟨f⟩ := o
    have h : (f ()).Legal := h
    show Answers _ (f ()).toExcept
    cases hf : f () with
    | value v =>
      rw [hf] at h
      exact .pure h
    | fault e => exact .error e
  | _ => exact .pure h

theorem delay (p : Place) {x : Unit → Except EvalFault Value} (h : Answers Value.Legal (x ())) :
    (Value.delay p x).Legal := by
  have hf : Answers Value.Legal (x () >>= Value.force) := h.bind fun _ hv ↦ hv.force
  show Outcome.Legal (if p.isEmpty then _ else _)
  split
  · exact trivial
  · cases hr : x () >>= Value.force with
    | ok v => exact hf v hr
    | error e => exact trivial

theorem listElement (h : v.Legal) : Answers Value.Legal v.listElement := by
  refine h.force.bind fun u hu ↦ ?_
  split
  · exact .pure hu
  · exact .error _

theorem equalParts (h : v.Legal) :
    Answers (fun p ↦ p.1.Legal ∧ p.2.1.Legal ∧ p.2.2.Legal) v.equalParts := by
  refine h.force.bind fun u hu ↦ ?_
  split
  · exact .pure hu
  · exact .error _

theorem vecParts (h : v.Legal) : Answers (fun p ↦ p.1.Legal ∧ p.2.Legal) v.vecParts := by
  refine h.force.bind fun u hu ↦ ?_
  split
  · exact .pure hu
  · exact .error _

theorem indAbsurd (h : v.Legal) (hw : w.Legal) : Answers Value.Legal (v.indAbsurd w) := by
  refine h.force.bind fun u hu ↦ ?_
  split
  · exact .pure ⟨hw, hu.2, trivial, hw⟩
  · exact .error _

theorem trans (h : v.Legal) (hw : w.Legal) : Answers Value.Legal (v.trans w) := by
  refine h.force.bind fun l hl ↦ hw.force.bind fun r hr ↦ ?_
  split
  · exact .pure hl
  · refine hr.1.equalParts.bind fun p hp ↦ ?_
    exact .pure ⟨⟨hp.1, hl, hp.2.2⟩, ⟨⟨hp.1, hl, hl⟩, hl⟩, hr.2⟩
  · refine hl.1.equalParts.bind fun p hp ↦ ?_
    dsimp only
    split
    · exact .pure ⟨⟨hp.1, hp.2.1, hr⟩, hl.2, ⟨hp.1, hr, hr⟩, hr⟩
    · refine hr.1.equalParts.bind fun q hq ↦ ?_
      exact .pure ⟨⟨hp.1, hp.2.1, hq.2.2⟩, hl.2, hr.2⟩
    · exact .error _
  · exact .error _

end Value.Legal

/-! ## One step -/

/-- A machine that keeps values legal. -/
def Machine.Legal (m : Machine) : Prop := ∀ p d, d.Legal → Answers Value.Legal (m p d)

namespace Machine.Legal

variable {m : Machine} (hm : m.Legal) (p : Place) {f a b t c s l : Value}

include hm

theorem eval {ρ : Env} {t : Term} (hρ : ρ.Legal) (ht : t.isLegal) :
    Answers Value.Legal (m.eval p ρ t) := hm p _ ⟨hρ, ht⟩

theorem apply (hf : f.Legal) (ha : a.Legal) : Answers Value.Legal (m.apply p f a) :=
  hm p _ ⟨hf, ha⟩

theorem apply₂ (hf : f.Legal) (ha : a.Legal) (hb : b.Legal) :
    Answers Value.Legal (m.apply₂ p f a b) :=
  (hm.apply _ hf ha).bind fun _ hg ↦ hm.apply _ hg hb

theorem later {d : Demand} (hd : d.Legal) : (m.later p d).Legal := .delay p (hm p d hd)

theorem enter {c : Closure} (hc : c.Legal) (ha : a.Legal) :
    Answers Value.Legal (m.enter p c a) := by
  cases c with
  | body ρ x t => exact hm.eval p ⟨ha, hc.1⟩ hc.2
  | constant v => exact .pure hc
  | natStep mot =>
    refine (hm.apply _ hc ha).bind fun i hi ↦ ?_
    refine (hm.apply _ hc (a := .unary .add1 a) ha).bind fun g hg ↦ ?_
    exact .pure (.arrow (by decide) hi hg)
  | listStep e mot => exact .pure ⟨by decide, hc.1, hc.2, ha⟩
  | listStepTail mot e =>
    refine (hm.apply _ hc.1 ha).bind fun i hi ↦ ?_
    refine (hm.apply _ hc.1 (a := .binary .listCons e a) ⟨hc.2, ha⟩).bind fun g hg ↦ ?_
    exact .pure (.arrow (by decide) hi hg)
  | equalMotive t l => exact .pure (.arrow (by decide) ⟨hc.1, hc.2, ha⟩ trivial)
  | vecMotive e => exact .pure (.arrow (by decide) ⟨hc, ha⟩ trivial)
  | vecStep e mot => exact .pure ⟨by decide, hc.1, hc.1, hc.2, ha⟩
  | vecStepHead e mot k => exact .pure ⟨by decide, ⟨hc.1, hc.2.2⟩, hc.2.1, hc.2.2, ha⟩
  | vecStepTail mot k h =>
    refine (hm.apply₂ _ hc.1 hc.2.1 ha).bind fun i hi ↦ ?_
    refine (hm.apply₂ _ hc.1 (a := .unary .add1 k) (b := .binary .vecCons h a) hc.2.1
      ⟨hc.2.2, ha⟩).bind fun g hg ↦ ?_
    exact .pure (.arrow (by decide) hi hg)
  | eitherCase k mot => exact hm.apply p hc ha

theorem doApply (hf : f.Legal) (ha : a.Legal) : Answers Value.Legal (m.doApply p f a) := by
  refine hf.force.bind fun v hv ↦ ?_
  split
  · exact hm.enter p hv.2 ha
  · refine hv.1.force.bind fun T hT ↦ ?_
    split
    · exact (hm.enter p hT.2.2 ha).bind fun r hr ↦ .pure ⟨hr, hv.2, hT.2.1, ha⟩
    · exact .error _
  · exact .error _

theorem doProject (k : Projection) (ht : t.Legal) :
    Answers Value.Legal (m.doProject p k t) := by
  refine ht.force.bind fun v hv ↦ ?_
  split
  · exact hv.1.force
  · refine hv.1.force.bind fun T hT ↦ ?_
    split
    · exact .pure ⟨hT.2.1, hv.2⟩
    · exact .error _
  · exact hv.2.force
  · refine hv.1.force.bind fun T hT ↦ ?_
    split
    · refine (hm.enter p hT.2.2 (a := .neu _ (.project .car _)) ⟨hT.2.1, hv.2⟩).bind fun r hr ↦ ?_
      exact .pure ⟨hr, hv.2⟩
    · exact .error _
  · exact .pure hv
  · exact hv.1.equalParts.bind fun q hq ↦ .pure ⟨⟨hq.1, hq.2.2, hq.2.1⟩, hv.2⟩
  · exact hv.1.force
  · exact hv.1.vecParts.bind fun q hq ↦ .pure ⟨hq.1, hv.2⟩
  · exact hv.2.force
  · refine hv.1.vecParts.bind fun q hq ↦ hq.2.force.bind fun n hn ↦ ?_
    split
    · exact .pure ⟨⟨hq.1, hn⟩, hv.2⟩
    · exact .error _
  · exact .error _

theorem doRecursor (k : Recursor) (ht : t.Legal) (hc : c.Legal) (hb : b.Legal) (hs : s.Legal) :
    Answers Value.Legal (m.doRecursor p k t c b s) := by
  refine ht.force.bind fun v hv ↦ ?_
  have again {u : Value} (hu : u.Legal) : (m.later (p.part 0) (.recursor k u c b s)).Legal :=
    hm.later _ ⟨hu, hc, hb, hs⟩
  dsimp only
  split
  · exact hb.force
  · exact hb.force
  · exact hb.force
  · exact hb.force
  · exact hm.apply p hs hv
  · exact hm.apply _ hs (again hv)
  · exact hm.apply₂ _ hs hv (again hv)
  · exact (hm.apply₂ _ hs hv.1 hv.2).bind fun g hg ↦ hm.apply _ hg (again hv.2)
  · exact .pure ⟨hc, hv.2, ⟨hc, hb⟩, .whichNatStep hc, hs⟩
  · exact .pure ⟨hc, hv.2, ⟨hc, hb⟩, .iterNatStep hc, hs⟩
  · exact .pure ⟨hc, hv.2, ⟨hc, hb⟩, .recNatStep hc, hs⟩
  · exact hv.1.listElement.bind fun e he ↦ .pure ⟨hc, hv.2, ⟨hc, hb⟩, .recListStep he hc, hs⟩
  · exact .error _

theorem doInduct (k : Induction) (ht : t.Legal) (hc : c.Legal) (hb : b.Legal) (hs : s.Legal) :
    Answers Value.Legal (m.doInduct p k t c b s) := by
  refine ht.force.bind fun v hv ↦ ?_
  have again {u : Value} (hu : u.Legal) : (m.later (p.part 0) (.induct k u c b s)).Legal :=
    hm.later _ ⟨hu, hc, hb, hs⟩
  dsimp only
  split
  · exact hb.force
  · exact hb.force
  · exact hm.apply₂ _ hs hv (again hv)
  · exact (hm.apply₂ _ hs hv.1 hv.2).bind fun g hg ↦ hm.apply _ hg (again hv.2)
  · exact hm.apply p hb hv
  · exact hm.apply p hs hv
  · refine (hm.apply _ hc hv).bind fun r hr ↦ ?_
    refine (hm.apply _ hc (a := .const .zero) trivial).bind fun bt hbt ↦ ?_
    exact .pure ⟨hr, hv.2, ⟨.indNatMotive, hc⟩, ⟨hbt, hb⟩, .indNatStep hc, hs⟩
  · refine hv.1.listElement.bind fun e he ↦ (hm.apply _ hc hv).bind fun r hr ↦ ?_
    refine (hm.apply _ hc (a := .const .nil) trivial).bind fun bt hbt ↦ ?_
    exact .pure ⟨hr, hv.2, ⟨.indListMotive he, hc⟩, ⟨hbt, hb⟩, .indListStep he hc, hs⟩
  · refine hv.1.force.bind fun T hT ↦ ?_
    split
    · refine (hm.apply p hc hv).bind fun r hr ↦ ?_
      exact .pure ⟨hr, hv.2, ⟨.indEitherMotive hT.1 hT.2, hc⟩, ⟨.indEitherCase _ hT.1 hc, hb⟩,
        .indEitherCase _ hT.2 hc, hs⟩
    · exact .error _
  · exact .error _

theorem doTransport (k : Transport) (ht : t.Legal) (hc : c.Legal) (hb : b.Legal) :
    Answers Value.Legal (m.doTransport p k t c b) := by
  refine ht.force.bind fun v hv ↦ ?_
  split
  · exact hb.force
  · refine hv.1.equalParts.bind fun q hq ↦ (hm.apply _ hc hq.2.2).bind fun r hr ↦ ?_
    refine (hm.apply _ hc hq.2.1).bind fun bt hbt ↦ ?_
    exact .pure ⟨hr, hv.2, ⟨.replaceMotive hq.1, hc⟩, hbt, hb⟩
  · refine hv.1.equalParts.bind fun q hq ↦ (hm.apply₂ _ hc hq.2.2 hv).bind fun r hr ↦ ?_
    refine (hm.apply₂ _ hc hq.2.1 (b := .unary .same _) hq.2.1).bind fun bt hbt ↦ ?_
    exact .pure ⟨hr, hv.2, ⟨.indEqualMotive hq.1 hq.2.1, hc⟩, hbt, hb⟩
  · exact .error _

theorem doCong (ht : t.Legal) (hc : c.Legal) (hf : f.Legal) :
    Answers Value.Legal (m.doCong p t c f) := by
  refine ht.force.bind fun v hv ↦ ?_
  split
  · rename_i a
    exact (hm.apply p hf (a := a) hv).bind fun r (hr : r.Legal) ↦ .pure hr
  · refine hv.1.equalParts.bind fun q hq ↦ (hm.apply _ hf hq.2.1).bind fun l hl ↦ ?_
    refine (hm.apply _ hf hq.2.2).bind fun r hr ↦ ?_
    exact .pure ⟨⟨hc, hl, hr⟩, hv.2, hc, .arrow (by decide) hq.1 hc, hf⟩
  · exact .error _

theorem doIndVec (hl : l.Legal) (ht : t.Legal) (hc : c.Legal) (hb : b.Legal) (hs : s.Legal) :
    Answers Value.Legal (m.doIndVec p l t c b s) := by
  refine hl.force.bind fun l hl ↦ ht.force.bind fun v hv ↦ ?_
  split
  · exact hb.force
  · split
    · rename_i k
      refine (hm.apply₂ _ hs (a := k) hl hv.1).bind fun g hg ↦ hm.apply₂ _ hg hv.2 ?_
      exact hm.later _ ⟨hl, hv.2, hc, hb, hs⟩
    · exact .error _
  · refine hv.1.vecParts.bind fun q hq ↦ ?_
    refine (hm.apply₂ _ hc (a := .const .zero) (b := .const .vecnil) trivial trivial).bind
      fun bt hbt ↦ (hm.apply₂ _ hc hl hv).bind fun r hr ↦ ?_
    have hmot := Value.Legal.indVecMotive hq.1
    have hstep := Value.Legal.indVecStep hq.1 hc
    dsimp only
    split
    · exact .pure ⟨hr, hl.2, hv.2, ⟨hmot, hc⟩, ⟨hbt, hb⟩, hstep, hs⟩
    · exact .pure ⟨hr, ⟨trivial, hl⟩, hv.2, ⟨hmot, hc⟩, ⟨hbt, hb⟩, hstep, hs⟩
  · exact .error _

theorem evalStep {ρ : Env} {t : Term} (hρ : ρ.Legal) (ht : t.isLegal) :
    Answers Value.Legal (m.evalStep p ρ t) := by
  have now (i : Nat) {t : Term} (ht : t.isLegal) := hm.eval (p.part i) hρ ht
  have later (i : Nat) {t : Term} (ht : t.isLegal) : (m.later (p.part i) (.eval ρ t)).Legal :=
    hm.later _ ⟨hρ, ht⟩
  cases t with
  | missing => exact .error _
  | var x =>
    rw [Machine.evalStep]
    split
    · exact .pure (hρ.lookup ‹_›)
    · exact .error _
  | hole l t => exact .pure ⟨later 0 ht, later 0 ht⟩
  | numeral n => exact .pure (.numeral n)
  | quote s => exact .pure ht
  | const k => exact .pure trivial
  | unary k a => exact .pure (later 0 ht)
  | project k t => exact (now 0 (t := t) ht).bind fun v hv ↦ hm.doProject _ k hv
  | lam x b =>
    simp only [Term.isLegal, Bool.and_eq_true] at ht
    exact .pure ⟨ht.1, hρ, ht.2⟩
  | pi x a b =>
    simp only [Term.isLegal, Bool.and_eq_true] at ht
    exact .pure ⟨ht.1.1, later 0 ht.1.2, hρ, ht.2⟩
  | sigma x a b =>
    simp only [Term.isLegal, Bool.and_eq_true] at ht
    exact .pure ⟨ht.1.1, later 0 ht.1.2, hρ, ht.2⟩
  | the t e =>
    simp only [Term.isLegal, Bool.and_eq_true] at ht
    exact now 0 ht.2
  | app f a =>
    simp only [Term.isLegal, Bool.and_eq_true] at ht
    exact (now 0 ht.1).bind fun v hv ↦ hm.apply _ hv (later 1 ht.2)
  | binary k a b =>
    simp only [Term.isLegal, Bool.and_eq_true] at ht
    exact .pure ⟨later 0 ht.1, later 1 ht.2⟩
  | equal t l r =>
    simp only [Term.isLegal, Bool.and_eq_true] at ht
    exact .pure ⟨later 0 ht.1.1, later 1 ht.1.2, later 2 ht.2⟩
  | recursor k t c b s =>
    simp only [Term.isLegal, Bool.and_eq_true] at ht
    refine (now 0 ht.1.1.1).bind fun v hv ↦ ?_
    exact hm.doRecursor _ k hv (later 1 ht.1.1.2) (later 2 ht.1.2) (later 3 ht.2)
  | induct k t c b s =>
    simp only [Term.isLegal, Bool.and_eq_true] at ht
    refine (now 0 ht.1.1.1).bind fun v hv ↦ ?_
    exact hm.doInduct _ k hv (later 1 ht.1.1.2) (later 2 ht.1.2) (later 3 ht.2)
  | transport k t c b =>
    simp only [Term.isLegal, Bool.and_eq_true] at ht
    refine (now 0 ht.1.1).bind fun v hv ↦ ?_
    exact hm.doTransport _ k hv (later 1 ht.1.2) (later 2 ht.2)
  | indAbsurd t c =>
    simp only [Term.isLegal, Bool.and_eq_true] at ht
    exact (now 0 ht.1).bind fun v hv ↦ hv.indAbsurd (later 1 ht.2)
  | trans l r =>
    simp only [Term.isLegal, Bool.and_eq_true] at ht
    exact (now 0 ht.1).bind fun v hv ↦ (now 1 ht.2).bind fun w hw ↦ hv.trans hw
  | cong t c f =>
    simp only [Term.isLegal, Bool.and_eq_true] at ht
    exact (now 0 ht.1.1).bind fun v hv ↦ hm.doCong _ hv (later 1 ht.1.2) (later 2 ht.2)
  | indVec n t c b s =>
    simp only [Term.isLegal, Bool.and_eq_true] at ht
    refine (now 0 ht.1.1.1.1).bind fun v hv ↦ (now 1 ht.1.1.1.2).bind fun w hw ↦ ?_
    exact hm.doIndVec _ hv hw (later 2 ht.1.1.2) (later 3 ht.1.2) (later 4 ht.2)

theorem step : m.step.Legal := by
  intro p d hd
  cases d with
  | eval ρ t => exact hm.evalStep p hd.1 hd.2
  | apply f a => exact hm.doApply p hd.1 hd.2
  | recursor k t c b s => exact hm.doRecursor p k hd.1 hd.2.1 hd.2.2.1 hd.2.2.2
  | induct k t c b s => exact hm.doInduct p k hd.1 hd.2.1 hd.2.2.1 hd.2.2.2
  | indVec n t c b s => exact hm.doIndVec p hd.1 hd.2.1 hd.2.2.1 hd.2.2.2.1 hd.2.2.2.2

end Machine.Legal

/-- With any amount of fuel, evaluation keeps values legal. -/
theorem machine_legal (fuel : Nat) : (machine fuel).Legal := by
  induction fuel with
  | zero => exact fun _ _ _ ↦ .error _
  | succ fuel ih => exact ih.step

end LittleTypes
