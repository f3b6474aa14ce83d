import LittleTypes.Proofs.Likeness.Value

/-!
# Evaluation takes what resembles each other to what resembles each other

Demands that resemble each other have answers that do.  This is shown for one step, over two
machines of which it is known, and then for any two amounts of fuel; a strict likeness holds only
between runs with the same fuel.

The one step in which the two sides go apart is that of a variable: on the left its value is found
in the environment, and on the right a whole term is evaluated, which the environments are known to
account for.
-/

namespace LittleTypes

/-- Answers of an evaluation that resemble each other. -/
abbrev Likeness.AkinValue (L : Likeness) (N : Pairing) :
    Except EvalFault Value → Except EvalFault Value → Prop :=
  L.Akin (Value.Resembles L N)

/-- Demands that resemble each other. -/
inductive Demand.Resembles (L : Likeness) (N : Pairing) : Demand → Demand → Prop
  | eval {S : Filling} {ρ ρ' : Env} {t t' : Term} : Env.Resembles L N S ρ ρ' →
    t.Filled L.hints True S t' → Resembles L N (eval ρ t) (eval ρ' t')
  | apply {f f' a a' : Value} : f.Resembles L N f' → a.Resembles L N a' →
    Resembles L N (apply f a) (apply f' a')
  | recursor {k : Recursor} {n n' t t' b b' s s' : Value} : n.Resembles L N n' →
    t.Resembles L N t' → b.Resembles L N b' → s.Resembles L N s' →
      Resembles L N (recursor k n t b s) (recursor k n' t' b' s')
  | induct {k : Induction} {n n' m m' b b' s s' : Value} : n.Resembles L N n' →
    m.Resembles L N m' → b.Resembles L N b' → s.Resembles L N s' →
      Resembles L N (induct k n m b s) (induct k n' m' b' s')
  | indVec {l l' n n' m m' b b' s s' : Value} : l.Resembles L N l' → n.Resembles L N n' →
    m.Resembles L N m' → b.Resembles L N b' → s.Resembles L N s' →
      Resembles L N (indVec l n m b s) (indVec l' n' m' b' s')

/-! ## Values by themselves -/

namespace Likeness.Akin

variable {L : Likeness} {N : Pairing} {v v' : Value}

/-- What is seen is an answer. -/
theorem seen (h : v.SeenAlike L N v') : L.AkinValue N (.ok v) (.ok v') := .ok (.ofSeen h)

end Likeness.Akin

namespace Facet.Resembles

variable {L : Likeness} {N : Pairing} {v v' w w' : Value}

/-- What is seen of a value is an answer. -/
theorem forced (h : v.Resembles L N v') : L.AkinValue N v.force v'.force :=
  h.force.imp fun _ _ ↦ ofSeen

theorem listElement (h : v.Resembles L N v') : L.AkinValue N v.listElement v'.listElement := by
  refine h.force.bind fun u u' hu ↦ ?_
  cases hu with
  | @unary k _ _ ha => cases k <;> first | exact .ok ha | exact h.stuck _
  | _ => exact h.stuck _

theorem equalParts (h : v.Resembles L N v') :
    L.Akin (fun a b ↦ a.1.Resembles L N b.1 ∧ a.2.1.Resembles L N b.2.1 ∧
      a.2.2.Resembles L N b.2.2) v.equalParts v'.equalParts := by
  refine h.force.bind fun u u' hu ↦ ?_
  cases hu with
  | equal ht hl hr => exact .ok ⟨ht, hl, hr⟩
  | _ => exact h.stuck _

theorem vecParts (h : v.Resembles L N v') :
    L.Akin (fun a b ↦ a.1.Resembles L N b.1 ∧ a.2.Resembles L N b.2) v.vecParts v'.vecParts := by
  refine h.force.bind fun u u' hu ↦ ?_
  cases hu with
  | @binary k _ _ _ _ ha hb => cases k <;> first | exact .ok ⟨ha, hb⟩ | exact h.stuck _
  | _ => exact h.stuck _

theorem doIndAbsurd (h : v.Resembles L N v') (hw : w.Resembles L N w') :
    L.AkinValue N (v.indAbsurd w) (v'.indAbsurd w') := by
  refine h.force.bind fun u u' hu ↦ ?_
  cases hu with
  | neu _ hn => exact .seen (.neu hw (.indAbsurd hn (.typed (.ofSeen (.const _)) hw)))
  | _ => exact h.stuck _

theorem doTrans (h : v.Resembles L N v') (hw : w.Resembles L N w') :
    L.AkinValue N (v.trans w) (v'.trans w') := by
  refine h.force.bind fun l l' hl ↦ hw.force.bind fun r r' hr ↦ ?_
  have hs := (ofSeen hl).stuck (R := Value.Resembles L N) .trans
  cases hl with
  | @unary k _ _ ha =>
    cases k with
    | same =>
      cases hr with
      | @unary k _ _ hb => cases k <;> first | exact .seen (.unary ha) | exact hs
      | neu ht hn =>
        refine ht.equalParts.bind fun _ _ h ↦ ?_
        exact .seen (.neu (.ofSeen (.equal h.1 ha h.2.2))
          (.transRight (.typed (.ofSeen (.equal h.1 ha ha)) (.ofSeen (.unary ha))) hn))
      | _ => exact hs
    | _ => exact hs
  | neu ht hn =>
    refine ht.equalParts.bind fun _ _ h ↦ ?_
    cases hr with
    | @unary k _ _ hb =>
      cases k with
      | same =>
        exact .seen (.neu (.ofSeen (.equal h.1 h.2.1 hb))
          (.transLeft hn (.typed (.ofSeen (.equal h.1 hb hb)) (.ofSeen (.unary hb)))))
      | _ => exact hs
    | neu ht' hn' =>
      refine ht'.equalParts.bind fun _ _ h' ↦ ?_
      exact .seen (.neu (.ofSeen (.equal h.1 h.2.1 h'.2.2)) (.transBoth hn hn'))
    | _ => exact hs
  | _ => exact hs

end Facet.Resembles

/-! ## One step -/

/-- Demands that resemble each other have answers that do, of these two machines. -/
def Likeness.Concur (L : Likeness) (m m' : Machine) : Prop :=
  ∀ N d d', Demand.Resembles L N d d' → L.AkinValue N (m .passing d) (m' .passing d')

namespace Likeness.Concur

open Facet.Resembles

variable {L : Likeness} {m m' : Machine} (hm : L.Concur m m') {N : Pairing}
  {f f' a a' b b' : Value}

include hm

theorem eval {S : Filling} {ρ ρ' : Env} {t t' : Term} (hρ : Env.Resembles L N S ρ ρ')
    (ht : t.Filled L.hints True S t') :
    L.AkinValue N (m.eval .passing ρ t) (m'.eval .passing ρ' t') :=
  hm N _ _ (.eval hρ ht)

theorem apply (hf : f.Resembles L N f') (ha : a.Resembles L N a') :
    L.AkinValue N (m.apply .passing f a) (m'.apply .passing f' a') :=
  hm N _ _ (.apply hf ha)

theorem apply₂ (hf : f.Resembles L N f') (ha : a.Resembles L N a') (hb : b.Resembles L N b') :
    L.AkinValue N (m.apply₂ .passing f a b) (m'.apply₂ .passing f' a' b') :=
  (hm.apply hf ha).bind fun _ _ h ↦ hm.apply h hb

theorem later {d d' : Demand} (h : d.Resembles L N d') :
    (m.later .passing d).Resembles L N (m'.later .passing d') :=
  delay (hm N _ _ h)

theorem enter {c c' : Closure} (hc : c.Resembles L N c') (ha : a.Resembles L N a') :
    L.AkinValue N (m.enter .passing c a) (m'.enter .passing c' a') := by
  cases hc with
  | @body S x y ρ ρ' _ _ ht hs hv =>
    have hρ : Env.Resembles L N S ρ ρ' := fun a u hS σ hσ fuel ↦
      ⟨hv a u hS σ hσ fuel, hs a u hS σ hσ fuel⟩
    exact hm.eval (hρ.cons x y ha) ht
  | constant hv => exact .ok hv
  | natStep hmot =>
    refine (hm.apply hmot ha).bind fun _ _ hi ↦ ?_
    refine (hm.apply hmot (.ofSeen (.unary ha))).bind fun _ _ hg ↦ ?_
    exact .ok (arrow _ hi hg)
  | listStep he hmot =>
    exact .seen (.pi (L.refl _) (.ofSeen (.unary he)) (.listStepTail hmot ha))
  | listStepTail hmot he =>
    refine (hm.apply hmot ha).bind fun _ _ hi ↦ ?_
    refine (hm.apply hmot (.ofSeen (.binary he ha))).bind fun _ _ hg ↦ ?_
    exact .ok (arrow _ hi hg)
  | equalMotive ht hl => exact .ok (arrow _ (.ofSeen (.equal ht hl ha)) (.ofSeen (.const _)))
  | vecMotive he => exact .ok (arrow _ (.ofSeen (.binary he ha)) (.ofSeen (.const _)))
  | vecStep he hmot => exact .seen (.pi (L.refl _) he (.vecStepHead he hmot ha))
  | vecStepHead he hmot hk =>
    exact .seen (.pi (L.refl _) (.ofSeen (.binary he hk)) (.vecStepTail hmot hk ha))
  | vecStepTail hmot hk hh =>
    refine (hm.apply₂ hmot hk ha).bind fun _ _ hi ↦ ?_
    refine (hm.apply₂ hmot (.ofSeen (.unary hk)) (.ofSeen (.binary hh ha))).bind fun _ _ hg ↦ ?_
    exact .ok (arrow _ hi hg)
  | eitherCase hmot => exact hm.apply hmot (.ofSeen (.unary ha))

theorem doApply (hf : f.Resembles L N f') (ha : a.Resembles L N a') :
    L.AkinValue N (m.doApply .passing f a) (m'.doApply .passing f' a') := by
  refine hf.force.bind fun v v' hv ↦ ?_
  have hs := (ofSeen hv).stuck (R := Value.Resembles L N) .application
  cases hv with
  | lam _ hc => exact hm.enter hc ha
  | neu ht hn =>
    refine ht.force.bind fun T T' hT ↦ ?_
    cases hT with
    | pi _ hd hc =>
      refine (hm.enter hc ha).bind fun _ _ hr ↦ ?_
      exact .seen (.neu hr (.app hn (.typed hd ha)))
    | _ => exact ht.stuck _
  | _ => exact hs

theorem doProject (k : Projection) (ht : f.Resembles L N f') :
    L.AkinValue N (m.doProject .passing k f) (m'.doProject .passing k f') := by
  refine ht.force.bind fun v v' hv ↦ ?_
  have hs := (ofSeen hv).stuck (R := Value.Resembles L N) (.project k)
  cases hv with
  | @unary u _ _ ha => cases k <;> cases u <;> first | exact hs | exact .seen (.unary ha)
  | @binary c _ _ _ _ ha hb =>
    cases k <;> cases c <;> first | exact hs | exact ha.forced | exact hb.forced
  | neu hT hn =>
    cases k with
    | car =>
      refine hT.force.bind fun T T' hT' ↦ ?_
      cases hT' with
      | sigma _ hd hc => exact .seen (.neu hd (.project hn))
      | _ => exact hT.stuck _
    | cdr =>
      refine hT.force.bind fun T T' hT' ↦ ?_
      cases hT' with
      | sigma _ hd hc =>
        refine (hm.enter hc (.ofSeen (.neu hd (.project hn)))).bind fun _ _ hr ↦ ?_
        exact .seen (.neu hr (.project hn))
      | _ => exact hT.stuck _
    | symm =>
      exact hT.equalParts.bind fun _ _ h ↦
        .seen (.neu (.ofSeen (.equal h.1 h.2.2 h.2.1)) (.project hn))
    | head => exact hT.vecParts.bind fun _ _ h ↦ .seen (.neu h.1 (.project hn))
    | tail =>
      refine hT.vecParts.bind fun _ _ h ↦ ?_
      refine h.2.force.bind fun l l' hl ↦ ?_
      cases hl with
      | @unary u _ _ hk =>
        cases u <;> first
          | exact h.2.stuck _
          | exact .seen (.neu (.ofSeen (.binary h.1 hk)) (.project hn))
      | _ => exact h.2.stuck _
  | _ => cases k <;> exact hs

section Eliminators

variable {t t' B B' base base' s s' : Value} (ht : t.Resembles L N t') (hB : B.Resembles L N B')
  (hb : base.Resembles L N base') (hs : s.Resembles L N s')

include ht hB hb hs

theorem doRecursor (k : Recursor) :
    L.AkinValue N (m.doRecursor .passing k t B base s)
      (m'.doRecursor .passing k t' B' base' s') := by
  have again {n n' : Value} (hn : n.Resembles L N n') :
      (m.later .passing (.recursor k n B base s)).Resembles L N
        (m'.later .passing (.recursor k n' B' base' s')) :=
    hm.later (.recursor hn hB hb hs)
  have waiting {n n' : Neutral} {T T' : Value} (hn : n.Resembles L N n')
      (hT : T.Resembles L N T') :
      Value.SeenAlike L N (.neu B (.recursor k n (.mk B base) (.mk T s)))
        (.neu B' (.recursor k n' (.mk B' base') (.mk T' s'))) :=
    .neu hB (.recursor hn (.typed hB hb) (.typed hT hs))
  refine ht.force.bind fun v v' hv ↦ ?_
  have hf := (ofSeen hv).stuck (R := Value.Resembles L N) (.recursor k)
  cases hv with
  | const c => cases k <;> cases c <;> first | exact hf | exact hb.forced
  | @unary u _ _ hn =>
    cases k <;> cases u <;> first
      | exact hf
      | exact hm.apply hs hn
      | exact hm.apply hs (again hn)
      | exact hm.apply₂ hs hn (again hn)
  | @binary c _ _ _ _ he hes =>
    cases k <;> cases c <;> first
      | exact hf
      | exact (hm.apply₂ hs he hes).bind fun _ _ hr ↦ hm.apply hr (again hes)
  | neu hT hn =>
    cases k with
    | whichNat => exact .seen (waiting hn (arrow _ (.ofSeen (.const _)) hB))
    | iterNat => exact .seen (waiting hn (arrow _ hB hB))
    | recNat => exact .seen (waiting hn (arrow _ (.ofSeen (.const _)) (arrow _ hB hB)))
    | recList =>
      refine hT.listElement.bind fun _ _ he ↦ ?_
      exact .seen (waiting hn (arrow _ he (arrow _ (.ofSeen (.unary he)) (arrow _ hB hB))))
  | _ => cases k <;> exact hf

theorem doInduct (k : Induction) :
    L.AkinValue N (m.doInduct .passing k t B base s) (m'.doInduct .passing k t' B' base' s') := by
  have again {n n' : Value} (hn : n.Resembles L N n') :
      (m.later .passing (.induct k n B base s)).Resembles L N
        (m'.later .passing (.induct k n' B' base' s')) :=
    hm.later (.induct hn hB hb hs)
  refine ht.force.bind fun v v' hv ↦ ?_
  have hf := (ofSeen hv).stuck (R := Value.Resembles L N) (.induct k)
  cases hv with
  | const c => cases k <;> cases c <;> first | exact hf | exact hb.forced
  | @unary u _ _ hn =>
    cases k <;> cases u <;> first
      | exact hf
      | exact hm.apply hb hn
      | exact hm.apply hs hn
      | exact hm.apply₂ hs hn (again hn)
  | @binary c _ _ _ _ he hes =>
    cases k <;> cases c <;> first
      | exact hf
      | exact (hm.apply₂ hs he hes).bind fun _ _ hr ↦ hm.apply hr (again hes)
  | neu hT hn =>
    have hself := ofSeen (.neu hT hn)
    cases k with
    | indNat =>
      refine (hm.apply hB hself).bind fun _ _ hr ↦ ?_
      refine (hm.apply hB (.ofSeen (.const _))).bind fun _ _ hz ↦ ?_
      have hM : Value.indNatMotive.Resembles L N .indNatMotive :=
        arrow _ (.ofSeen (.const _)) (.ofSeen (.const _))
      have hS : (Value.indNatStep B).Resembles L N (.indNatStep B') :=
        .ofSeen (.pi (L.refl _) (.ofSeen (.const _)) (.natStep hB))
      exact .seen (.neu hr (.induct hn (.typed hM hB) (.typed hz hb) (.typed hS hs)))
    | indList =>
      refine hT.listElement.bind fun _ _ he ↦ ?_
      refine (hm.apply hB hself).bind fun _ _ hr ↦ ?_
      refine (hm.apply hB (.ofSeen (.const _))).bind fun _ _ hz ↦ ?_
      have hM : (Value.indListMotive _).Resembles L N (.indListMotive _) :=
        arrow _ (.ofSeen (.unary he)) (.ofSeen (.const _))
      have hS : (Value.indListStep _ B).Resembles L N (.indListStep _ B') :=
        .ofSeen (.pi (L.refl _) he (.listStep he hB))
      exact .seen (.neu hr (.induct hn (.typed hM hB) (.typed hz hb) (.typed hS hs)))
    | indEither =>
      refine hT.force.bind fun T T' hT' ↦ ?_
      cases hT' with
      | @binary c _ _ _ _ hl hr =>
        cases c with
        | either =>
          refine (hm.apply hB hself).bind fun _ _ hR ↦ ?_
          have hM : (Value.indEitherMotive _ _).Resembles L N (.indEitherMotive _ _) :=
            arrow _ (.ofSeen (.binary hl hr)) (.ofSeen (.const _))
          have hC {side : Unary} {T T' : Value} (hT : T.Resembles L N T') :
              (Value.indEitherCase side T B).Resembles L N (.indEitherCase side T' B') :=
            .ofSeen (.pi (L.refl _) hT (.eitherCase hB))
          exact .seen (.neu hR (.induct hn (.typed hM hB) (.typed (hC hl) hb) (.typed (hC hr) hs)))
        | _ => exact hT.stuck _
      | _ => exact hT.stuck _
  | _ => cases k <;> exact hf

theorem doIndVec {l l' : Value} (hl : l.Resembles L N l') :
    L.AkinValue N (m.doIndVec .passing l t B base s) (m'.doIndVec .passing l' t' B' base' s') := by
  refine hl.force.bind fun l l' hl ↦ ht.force.bind fun v v' hv ↦ ?_
  have hf := (ofSeen hv).stuck (R := Value.Resembles L N) .indVec
  have hf' := (ofSeen hl).stuck (R := Value.Resembles L N) .indVec
  cases hv with
  | const c => cases c <;> first | exact hf | exact hb.forced
  | @binary c _ _ _ _ hh htail =>
    cases c with
    | vecCons =>
      cases hl with
      | @unary u _ _ hk =>
        cases u with
        | add1 =>
          refine (hm.apply₂ hs hk hh).bind fun _ _ hr ↦ ?_
          exact hm.apply₂ hr htail (hm.later (.indVec hk htail hB hb hs))
        | _ => exact hf'
      | _ => exact hf'
    | _ => exact hf
  | neu hT hn =>
    refine hT.vecParts.bind fun _ _ he ↦ ?_
    refine (hm.apply₂ hB (.ofSeen (.const _)) (.ofSeen (.const _))).bind fun _ _ hz ↦ ?_
    refine (hm.apply₂ hB (.ofSeen hl) (.ofSeen (.neu hT hn))).bind fun _ _ hr ↦ ?_
    have hE : (Value.indVecMotive _).Resembles L N (.indVecMotive _) :=
      .ofSeen (.pi (L.refl _) (.ofSeen (.const .nat)) (.vecMotive he.1))
    have hS : (Value.indVecStep _ B).Resembles L N (.indVecStep _ B') :=
      .ofSeen (.pi (L.refl _) (.ofSeen (.const .nat)) (.vecStep he.1 hB))
    have hl' := Facet.Resembles.typed (.ofSeen (.const .nat)) (ofSeen hl)
    cases hl with
    | neu _ hk =>
      exact .seen (.neu hr (.indVecBoth hk hn (.typed hE hB) (.typed hz hb) (.typed hS hs)))
    | _ => exact .seen (.neu hr (.indVec hl' hn (.typed hE hB) (.typed hz hb) (.typed hS hs)))
  | _ => exact hf

omit hs in
theorem doTransport (k : Transport) :
    L.AkinValue N (m.doTransport .passing k t B base) (m'.doTransport .passing k t' B' base') := by
  refine ht.force.bind fun v v' hv ↦ ?_
  have hf := (ofSeen hv).stuck (R := Value.Resembles L N) (.transport k)
  cases hv with
  | @unary u _ _ ha => cases k <;> cases u <;> first | exact hf | exact hb.forced
  | neu hT hn =>
    cases k with
    | replace =>
      refine hT.equalParts.bind fun _ _ h ↦ ?_
      refine (hm.apply hB h.2.2).bind fun _ _ hr ↦ ?_
      refine (hm.apply hB h.2.1).bind fun _ _ hz ↦ ?_
      have hM : (Value.replaceMotive _).Resembles L N (.replaceMotive _) :=
        arrow _ h.1 (.ofSeen (.const _))
      exact .seen (.neu hr (.transport hn (.typed hM hB) (.typed hz hb)))
    | indEqual =>
      refine hT.equalParts.bind fun _ _ h ↦ ?_
      refine (hm.apply₂ hB h.2.2 (.ofSeen (.neu hT hn))).bind fun _ _ hr ↦ ?_
      refine (hm.apply₂ hB h.2.1 (.ofSeen (.unary h.2.1))).bind fun _ _ hz ↦ ?_
      have hM : (Value.indEqualMotive _ _).Resembles L N (.indEqualMotive _ _) :=
        .ofSeen (.pi (L.refl _) h.1 (.equalMotive h.1 h.2.1))
      exact .seen (.neu hr (.transport hn (.typed hM hB) (.typed hz hb)))
  | _ => cases k <;> exact hf

omit hb hs in
theorem doCong (hf : f.Resembles L N f') :
    L.AkinValue N (m.doCong .passing t B f) (m'.doCong .passing t' B' f') := by
  refine ht.force.bind fun v v' hv ↦ ?_
  have hstuck := (ofSeen hv).stuck (R := Value.Resembles L N) .cong
  cases hv with
  | @unary u _ _ ha =>
    cases u with
    | same => exact (hm.apply hf ha).bind fun _ _ hr ↦ .seen (.unary hr)
    | _ => exact hstuck
  | neu hT hn =>
    refine hT.equalParts.bind fun _ _ h ↦ ?_
    refine (hm.apply hf h.2.1).bind fun _ _ hl ↦ ?_
    refine (hm.apply hf h.2.2).bind fun _ _ hr ↦ ?_
    exact .seen (.neu (.ofSeen (.equal hB hl hr)) (.cong hn hB (.typed (arrow _ h.1 hB) hf)))
  | _ => exact hstuck

end Eliminators

end Likeness.Concur

namespace Likeness.Concur

variable {L : Likeness} {n n' : Nat} (hm : L.Concur (machine n) (machine n')) {N : Pairing}

include hm

/-- A variable is not looked up on the right, but what is put for it is evaluated. -/
theorem eval_succ {S : Filling} {ρ ρ' : Env} {t t' : Term} (hρ : Env.Resembles L N S ρ ρ')
    (ht : t.Filled L.hints True S t') :
    L.AkinValue N ((machine (n + 1)).eval .passing ρ t)
      ((machine (n' + 1)).eval .passing ρ' t') := by
  have now {e e' : Term} (he : e.Filled L.hints True S e') :
      L.AkinValue N ((machine n).eval .passing ρ e) ((machine n').eval .passing ρ' e') :=
    hm.eval hρ he
  have later {e e' : Term} (he : e.Filled L.hints True S e') :
      ((machine n).later .passing (.eval ρ e)).Resembles L N
        ((machine n').later .passing (.eval ρ' e')) :=
    hm.later (.eval hρ he)
  cases ht with
  | missing => exact .error fun _ ↦ rfl
  | var h => exact hρ _ _ h ρ' (fun _ _ ↦ rfl) n'
  | hole ht => exact .seen (.neu (later ht) (.hole (later ht)))
  | the _ he => exact now he
  | app hf ha => exact (now hf).bind fun _ _ h ↦ hm.apply h (later ha)
  | numeral k => exact .ok (Value.resembles_numeral L N k)
  | quote s => exact .seen (.quote s)
  | lam hx hb => exact .seen (.lam hx (hρ.body hb))
  | pi hx ha hb => exact .seen (.pi hx (later ha) (hρ.body hb))
  | sigma hx ha hb => exact .seen (.sigma hx (later ha) (hρ.body hb))
  | const k => exact .seen (.const k)
  | unary ha => exact .seen (.unary (later ha))
  | binary ha hb => exact .seen (.binary (later ha) (later hb))
  | equal ht hl hr => exact .seen (.equal (later ht) (later hl) (later hr))
  | project ht => exact (now ht).bind fun _ _ h ↦ hm.doProject _ h
  | recursor ht hB hb hs =>
    exact (now ht).bind fun _ _ h ↦ hm.doRecursor h (later hB) (later hb) (later hs) _
  | induct ht hB hb hs =>
    exact (now ht).bind fun _ _ h ↦ hm.doInduct h (later hB) (later hb) (later hs) _
  | transport ht hB hb =>
    exact (now ht).bind fun _ _ h ↦ hm.doTransport h (later hB) (later hb) _
  | indAbsurd ht hB => exact (now ht).bind fun _ _ h ↦ h.doIndAbsurd (later hB)
  | trans hl hr => exact (now hl).bind fun _ _ h ↦ (now hr).bind fun _ _ h' ↦ h.doTrans h'
  | cong ht hc hf => exact (now ht).bind fun _ _ h ↦ hm.doCong h (later hc) (later hf)
  | indVec hn ht hB hb hs =>
    refine (now hn).bind fun _ _ hn ↦ (now ht).bind fun _ _ ht ↦ ?_
    exact hm.doIndVec ht (later hB) (later hb) (later hs) hn

theorem succ : L.Concur (machine (n + 1)) (machine (n' + 1)) := by
  intro N d d' h
  cases h with
  | eval hρ ht => exact hm.eval_succ hρ ht
  | apply hf ha => exact hm.doApply hf ha
  | recursor hn ht hb hs => exact hm.doRecursor hn ht hb hs _
  | induct hn hB hb hs => exact hm.doInduct hn hB hb hs _
  | indVec hl hn hB hb hs => exact hm.doIndVec hn hB hb hs hl

end Likeness.Concur

/-- Demands that resemble each other have answers that do, with any two amounts of fuel. -/
theorem machine_concur {L : Likeness} {n n' : Nat} (h : L.strict → n = n') :
    L.Concur (machine n) (machine n') := by
  induction n generalizing n' with
  | zero =>
    refine fun N d d' _ ↦ ⟨nofun, fun s e ↦ ?_⟩
    rw [← h s]
    exact Iff.rfl
  | succ n ih =>
    cases n' with
    | zero => exact fun N d d' _ ↦ ⟨nofun, fun s ↦ nomatch h s⟩
    | succ n' => exact (ih fun s ↦ Nat.succ.inj (h s)).succ

/-! ## The same term on both sides -/

namespace Env.SelfResembling

variable {L : Likeness} {N : Pairing} {ρ σ : Env} (h : ρ.SelfResembling L N) {n n' : Nat} {t : Term}

include h

/-- A term has values that resemble each other wherever its free names stand for the same. -/
theorem eval (hn : L.strict → n = n') (ht : ∀ b ∈ t.free, σ.lookup b = ρ.lookup b) :
    L.AkinValue N ((machine n).eval .passing ρ t) ((machine n').eval .passing σ t) := by
  let S : Filling := fun z u ↦ u = .var z ∧ z ∈ t.free
  have hρ : Env.Resembles L N S ρ σ := by
    rintro z _ ⟨rfl, hz⟩ τ hτ fuel
    rw [Machine.eval_var]
    exact h.fetch ((hτ z (by simp [Term.free])).trans (ht z hz))
  exact (machine_concur hn).eval hρ (.refl L.refl trivial t fun z hz ↦ ⟨rfl, hz⟩)

/-- The value of a term resembles itself. -/
theorem eval_self {v : Value} (hv : (machine n).eval .passing ρ t = .ok v) : v.Resembles L N v :=
  (h.eval (fun _ ↦ rfl) fun _ _ ↦ rfl).answer v v hv hv

end Env.SelfResembling

end LittleTypes
