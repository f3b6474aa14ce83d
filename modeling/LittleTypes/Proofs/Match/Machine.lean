import LittleTypes.Proofs.Match.Value

/-!
# Evaluation takes what matches to what matches

Demands that match have answers that match, or the same fault.  This is shown for one step, over a
machine of which it is known, and then for every amount of fuel.
-/

namespace LittleTypes

/-- Answers of an evaluation that match. -/
abbrev AgreeValue (N : Pairing) : Except EvalFault Value → Except EvalFault Value → Prop :=
  Agree (Value.Matches N)

/-- Demands that match. -/
inductive Demand.Matches (N : Pairing) : Demand → Demand → Prop
  | eval {M : Pairing} {ρ ρ' : Env} {t t' : Term} : Env.Matches N M ρ ρ' → t.Matches M t' →
    Matches N (eval ρ t) (eval ρ' t')
  | apply {f f' a a' : Value} : f.Matches N f' → a.Matches N a' →
    Matches N (apply f a) (apply f' a')
  | recursor {k : Recursor} {n n' t t' b b' s s' : Value} : n.Matches N n' → t.Matches N t' →
    b.Matches N b' → s.Matches N s' → Matches N (recursor k n t b s) (recursor k n' t' b' s')
  | induct {k : Induction} {n n' m m' b b' s s' : Value} : n.Matches N n' → m.Matches N m' →
    b.Matches N b' → s.Matches N s' → Matches N (induct k n m b s) (induct k n' m' b' s')
  | indVec {l l' n n' m m' b b' s s' : Value} : l.Matches N l' → n.Matches N n' →
    m.Matches N m' → b.Matches N b' → s.Matches N s' →
      Matches N (indVec l n m b s) (indVec l' n' m' b' s')

/-! ## Values by themselves -/

namespace Piece.Matches

variable {N : Pairing} {v v' w w' : Value}

theorem force (h : v.Matches N v') : AgreeValue N v.force v'.force := by
  cases h with
  | @delayed o o' h =>
    show Agree _ o.get.toExcept o'.get.toExcept
    cases h : o.get <;> cases h' : o'.get <;> simp_all only [] <;> rename_i hg <;> cases hg
    · exact .ok ‹_›
    · exact .error _
  | _ => exact .ok (by constructor <;> assumption)

theorem delay (p : Place) {x x' : Unit → Except EvalFault Value}
    (h : AgreeValue N (x ()) (x' ())) : (Value.delay p x).Matches N (.delay p x') := by
  refine .delayed ?_
  simp only [Thunk.get]
  split
  · exact .found .absent
  · generalize hr : (x () >>= Value.force).mapError (·.within p) = r
    generalize hr' : (x' () >>= Value.force).mapError (·.within p) = r'
    have hrr : AgreeValue N r r' := by
      rw [← hr, ← hr']
      exact (h.bind fun _ _ h ↦ h.force).mapError _
    cases hrr with
    | ok h => exact .found h
    | error e => exact .fault e

theorem stuck {α β : Type} {R : α → β → Prop} (op : Operation) (h : v.Matches N v') :
    Agree R (Value.stuck op v) (Value.stuck op v') := by
  rw [Value.stuck, Value.stuck, h.shape_eq]
  exact .error _

theorem listElement (h : v.Matches N v') :
    AgreeValue N v.listElement v'.listElement := by
  refine h.force.bind fun w w' hw ↦ ?_
  cases hw with
  | @unary k _ _ ha => cases k <;> first | exact .ok ha | exact h.stuck _
  | _ => exact h.stuck _

theorem equalParts (h : v.Matches N v') :
    Agree (fun a b ↦ a.1.Matches N b.1 ∧ a.2.1.Matches N b.2.1 ∧ a.2.2.Matches N b.2.2)
      v.equalParts v'.equalParts := by
  refine h.force.bind fun w w' hw ↦ ?_
  cases hw with
  | equal ht hl hr => exact .ok ⟨ht, hl, hr⟩
  | _ => exact h.stuck _

theorem vecParts (h : v.Matches N v') :
    Agree (fun a b ↦ a.1.Matches N b.1 ∧ a.2.Matches N b.2) v.vecParts v'.vecParts := by
  refine h.force.bind fun w w' hw ↦ ?_
  cases hw with
  | @binary k _ _ _ _ ha hb => cases k <;> first | exact .ok ⟨ha, hb⟩ | exact h.stuck _
  | _ => exact h.stuck _

theorem doIndAbsurd (h : v.Matches N v') (hw : w.Matches N w') :
    AgreeValue N (v.indAbsurd w) (v'.indAbsurd w') := by
  refine h.force.bind fun u u' hu ↦ ?_
  cases hu with
  | neu _ hn => exact .ok (.neu hw (.indAbsurd hn (.typed (.const _) hw)))
  | _ => exact h.stuck _

theorem doTrans (h : v.Matches N v') (hw : w.Matches N w') :
    AgreeValue N (v.trans w) (v'.trans w') := by
  refine h.force.bind fun l l' hl ↦ hw.force.bind fun r r' hr ↦ ?_
  have hs := hl.stuck (R := Value.Matches N) .trans
  cases hl with
  | @unary k _ _ ha =>
    cases k with
    | same =>
      cases hr with
      | @unary k _ _ hb => cases k <;> first | exact .ok (.unary ha) | exact hs
      | neu ht hn =>
        refine ht.equalParts.bind fun _ _ h ↦ ?_
        exact .ok (.neu (.equal h.1 ha h.2.2)
          (.transRight (.typed (.equal h.1 ha ha) (.unary ha)) hn))
      | _ => exact hs
    | _ => exact hs
  | neu ht hn =>
    refine ht.equalParts.bind fun _ _ h ↦ ?_
    cases hr with
    | @unary k _ _ hb =>
      cases k with
      | same =>
        exact .ok (.neu (.equal h.1 h.2.1 hb)
          (.transLeft hn (.typed (.equal h.1 hb hb) (.unary hb))))
      | _ => exact hs
    | neu ht' hn' =>
      refine ht'.equalParts.bind fun _ _ h' ↦ ?_
      exact .ok (.neu (.equal h.1 h.2.1 h'.2.2) (.transBoth hn hn'))
    | _ => exact hs
  | _ => exact hs

end Piece.Matches

/-! ## One step -/

/-- Demands that match have answers that match. -/
def Machine.Matched (m : Machine) : Prop :=
  ∀ N p d d', Demand.Matches N d d' → AgreeValue N (m p d) (m p d')

namespace Machine.Matched

open Piece.Matches

variable {m : Machine} (hm : m.Matched) (p : Place) {N : Pairing} {f f' a a' b b' : Value}

include hm

theorem eval {M : Pairing} {ρ ρ' : Env} {t t' : Term} (hρ : Env.Matches N M ρ ρ')
    (ht : t.Matches M t') : AgreeValue N (m.eval p ρ t) (m.eval p ρ' t') :=
  hm N p _ _ (.eval hρ ht)

theorem apply (hf : f.Matches N f') (ha : a.Matches N a') :
    AgreeValue N (m.apply p f a) (m.apply p f' a') :=
  hm N p _ _ (.apply hf ha)

theorem apply₂ (hf : f.Matches N f') (ha : a.Matches N a') (hb : b.Matches N b') :
    AgreeValue N (m.apply₂ p f a b) (m.apply₂ p f' a' b') :=
  (hm.apply _ hf ha).bind fun _ _ h ↦ hm.apply _ h hb

theorem later {d d' : Demand} (h : d.Matches N d') : (m.later p d).Matches N (m.later p d') :=
  delay p (hm N p _ _ h)

theorem enter {c c' : Closure} (hc : c.Matches N c') (ha : a.Matches N a') :
    AgreeValue N (m.enter p c a) (m.enter p c' a') := by
  cases hc with
  | @body M x y _ _ _ _ ht hρ => exact hm.eval p (Env.Matches.cons hρ x y ha) ht
  | constant hv => exact .ok hv
  | natStep hmot =>
    refine (hm.apply _ hmot ha).bind fun _ _ hi ↦ ?_
    refine (hm.apply _ hmot (.unary ha)).bind fun _ _ hg ↦ ?_
    exact .ok (arrow hi hg)
  | listStep he hmot => exact .ok (.pi (.unary he) (.listStepTail hmot ha))
  | listStepTail hmot he =>
    refine (hm.apply _ hmot ha).bind fun _ _ hi ↦ ?_
    refine (hm.apply _ hmot (.binary he ha)).bind fun _ _ hg ↦ ?_
    exact .ok (arrow hi hg)
  | equalMotive ht hl => exact .ok (arrow (.equal ht hl ha) (.const _))
  | vecMotive he => exact .ok (arrow (.binary he ha) (.const _))
  | vecStep he hmot => exact .ok (.pi he (.vecStepHead he hmot ha))
  | vecStepHead he hmot hk => exact .ok (.pi (.binary he hk) (.vecStepTail hmot hk ha))
  | vecStepTail hmot hk hh =>
    refine (hm.apply₂ _ hmot hk ha).bind fun _ _ hi ↦ ?_
    refine (hm.apply₂ _ hmot (.unary hk) (.binary hh ha)).bind fun _ _ hg ↦ ?_
    exact .ok (arrow hi hg)
  | eitherCase hmot => exact hm.apply p hmot (.unary ha)

theorem doApply (hf : f.Matches N f') (ha : a.Matches N a') :
    AgreeValue N (m.doApply p f a) (m.doApply p f' a') := by
  refine hf.force.bind fun v v' hv ↦ ?_
  have hs := hv.stuck (R := Value.Matches N) .application
  cases hv with
  | lam hc => exact hm.enter p hc ha
  | neu ht hn =>
    refine ht.force.bind fun T T' hT ↦ ?_
    cases hT with
    | pi hd hc =>
      refine (hm.enter p hc ha).bind fun _ _ hr ↦ ?_
      exact .ok (.neu hr (.app hn (.typed hd ha)))
    | _ => exact ht.stuck _
  | _ => exact hs

theorem doProject (k : Projection) (ht : f.Matches N f') :
    AgreeValue N (m.doProject p k f) (m.doProject p k f') := by
  refine ht.force.bind fun v v' hv ↦ ?_
  have hs := hv.stuck (R := Value.Matches N) (.project k)
  cases hv with
  | @unary u _ _ ha => cases k <;> cases u <;> first | exact hs | exact .ok (.unary ha)
  | @binary c _ _ _ _ ha hb =>
    cases k <;> cases c <;> first | exact hs | exact ha.force | exact hb.force
  | neu hT hn =>
    cases k with
    | car =>
      refine hT.force.bind fun T T' hT' ↦ ?_
      cases hT' with
      | sigma hd hc => exact .ok (.neu hd (.project hn))
      | _ => exact hT.stuck _
    | cdr =>
      refine hT.force.bind fun T T' hT' ↦ ?_
      cases hT' with
      | sigma hd hc =>
        refine (hm.enter p hc (.neu hd (.project hn))).bind fun _ _ hr ↦ ?_
        exact .ok (.neu hr (.project hn))
      | _ => exact hT.stuck _
    | symm => exact hT.equalParts.bind fun _ _ h ↦ .ok (.neu (.equal h.1 h.2.2 h.2.1) (.project hn))
    | head => exact hT.vecParts.bind fun _ _ h ↦ .ok (.neu h.1 (.project hn))
    | tail =>
      refine hT.vecParts.bind fun _ _ h ↦ ?_
      refine h.2.force.bind fun l l' hl ↦ ?_
      cases hl with
      | @unary u _ _ hk =>
        cases u <;> first | exact h.2.stuck _ | exact .ok (.neu (.binary h.1 hk) (.project hn))
      | _ => exact h.2.stuck _
  | _ => cases k <;> exact hs

section Eliminators

variable {t t' B B' base base' s s' : Value} (ht : t.Matches N t') (hB : B.Matches N B')
  (hb : base.Matches N base') (hs : s.Matches N s')

include ht hB hb hs

theorem doRecursor (k : Recursor) :
    AgreeValue N (m.doRecursor p k t B base s) (m.doRecursor p k t' B' base' s') := by
  have again {n n' : Value} (hn : n.Matches N n') :
      (m.later (p.part 0) (.recursor k n B base s)).Matches N
        (m.later (p.part 0) (.recursor k n' B' base' s')) :=
    hm.later _ (.recursor hn hB hb hs)
  have waiting {n n' : Neutral} {T T' : Value} (hn : Piece.Matches N (.neutral n) (.neutral n'))
      (hT : T.Matches N T') :
      Value.Matches N (.neu B (.recursor k n (.mk B base) (.mk T s)))
        (.neu B' (.recursor k n' (.mk B' base') (.mk T' s'))) :=
    .neu hB (.recursor hn (.typed hB hb) (.typed hT hs))
  refine ht.force.bind fun v v' hv ↦ ?_
  have hf := hv.stuck (R := Value.Matches N) (.recursor k)
  cases hv with
  | const c => cases k <;> cases c <;> first | exact hf | exact hb.force
  | @unary u _ _ hn =>
    cases k <;> cases u <;> first
      | exact hf
      | exact hm.apply _ hs hn
      | exact hm.apply _ hs (again hn)
      | exact hm.apply₂ _ hs hn (again hn)
  | @binary c _ _ _ _ he hes =>
    cases k <;> cases c <;> first
      | exact hf
      | exact (hm.apply₂ _ hs he hes).bind fun _ _ hr ↦ hm.apply _ hr (again hes)
  | neu hT hn =>
    cases k with
    | whichNat => exact .ok (waiting hn (arrow (.const _) hB))
    | iterNat => exact .ok (waiting hn (arrow hB hB))
    | recNat => exact .ok (waiting hn (arrow (.const _) (arrow hB hB)))
    | recList =>
      refine hT.listElement.bind fun _ _ he ↦ ?_
      exact .ok (waiting hn (arrow he (arrow (.unary he) (arrow hB hB))))
  | _ => cases k <;> exact hf

theorem doInduct (k : Induction) :
    AgreeValue N (m.doInduct p k t B base s) (m.doInduct p k t' B' base' s') := by
  have again {n n' : Value} (hn : n.Matches N n') :
      (m.later (p.part 0) (.induct k n B base s)).Matches N
        (m.later (p.part 0) (.induct k n' B' base' s')) :=
    hm.later _ (.induct hn hB hb hs)
  refine ht.force.bind fun v v' hv ↦ ?_
  have hf := hv.stuck (R := Value.Matches N) (.induct k)
  cases hv with
  | const c => cases k <;> cases c <;> first | exact hf | exact hb.force
  | @unary u _ _ hn =>
    cases k <;> cases u <;> first
      | exact hf
      | exact hm.apply _ hb hn
      | exact hm.apply _ hs hn
      | exact hm.apply₂ _ hs hn (again hn)
  | @binary c _ _ _ _ he hes =>
    cases k <;> cases c <;> first
      | exact hf
      | exact (hm.apply₂ _ hs he hes).bind fun _ _ hr ↦ hm.apply _ hr (again hes)
  | neu hT hn =>
    cases k with
    | indNat =>
      refine (hm.apply _ hB (.neu hT hn)).bind fun _ _ hr ↦ ?_
      refine (hm.apply _ hB (.const _)).bind fun _ _ hz ↦ ?_
      exact .ok (.neu hr (.induct hn (.typed (arrow (.const _) (.const _)) hB) (.typed hz hb)
        (.typed (.pi (.const _) (.natStep hB)) hs)))
    | indList =>
      refine hT.listElement.bind fun _ _ he ↦ ?_
      refine (hm.apply _ hB (.neu hT hn)).bind fun _ _ hr ↦ ?_
      refine (hm.apply _ hB (.const _)).bind fun _ _ hz ↦ ?_
      exact .ok (.neu hr (.induct hn (.typed (arrow (.unary he) (.const _)) hB) (.typed hz hb)
        (.typed (.pi he (.listStep he hB)) hs)))
    | indEither =>
      refine hT.force.bind fun T T' hT' ↦ ?_
      cases hT' with
      | @binary c _ _ _ _ hl hr =>
        cases c with
        | either =>
          refine (hm.apply _ hB (.neu hT hn)).bind fun _ _ hR ↦ ?_
          exact .ok (.neu hR (.induct hn (.typed (arrow (.binary hl hr) (.const _)) hB)
            (.typed (.pi hl (.eitherCase hB)) hb) (.typed (.pi hr (.eitherCase hB)) hs)))
        | _ => exact hT.stuck _
      | _ => exact hT.stuck _
  | _ => cases k <;> exact hf

theorem doIndVec {l l' : Value} (hl : l.Matches N l') :
    AgreeValue N (m.doIndVec p l t B base s) (m.doIndVec p l' t' B' base' s') := by
  refine hl.force.bind fun l l' hl ↦ ht.force.bind fun v v' hv ↦ ?_
  have hf := hv.stuck (R := Value.Matches N) .indVec
  have hf' := hl.stuck (R := Value.Matches N) .indVec
  cases hv with
  | const c => cases c <;> first | exact hf | exact hb.force
  | @binary c _ _ _ _ hh htail =>
    cases c with
    | vecCons =>
      cases hl with
      | @unary u _ _ hk =>
        cases u with
        | add1 =>
          refine (hm.apply₂ _ hs hk hh).bind fun _ _ hr ↦ ?_
          exact hm.apply₂ _ hr htail (hm.later _ (.indVec hk htail hB hb hs))
        | _ => exact hf'
      | _ => exact hf'
    | _ => exact hf
  | neu hT hn =>
    refine hT.vecParts.bind fun _ _ he ↦ ?_
    refine (hm.apply₂ _ hB (.const _) (.const _)).bind fun _ _ hz ↦ ?_
    refine (hm.apply₂ _ hB hl (.neu hT hn)).bind fun _ _ hr ↦ ?_
    have hE : (Value.indVecMotive _).Matches N (.indVecMotive _) :=
      .pi (.const .nat) (.vecMotive he.1)
    have hS : (Value.indVecStep _ B).Matches N (.indVecStep _ B') :=
      .pi (.const .nat) (.vecStep he.1 hB)
    have hl' := Piece.Matches.typed (.const .nat) hl
    cases hl with
    | neu _ hk =>
      exact .ok (.neu hr (.indVecBoth hk hn (.typed hE hB) (.typed hz hb) (.typed hS hs)))
    | _ => exact .ok (.neu hr (.indVec hl' hn (.typed hE hB) (.typed hz hb) (.typed hS hs)))
  | _ => exact hf

omit hs in
theorem doTransport (k : Transport) :
    AgreeValue N (m.doTransport p k t B base) (m.doTransport p k t' B' base') := by
  refine ht.force.bind fun v v' hv ↦ ?_
  have hf := hv.stuck (R := Value.Matches N) (.transport k)
  cases hv with
  | @unary u _ _ ha => cases k <;> cases u <;> first | exact hf | exact hb.force
  | neu hT hn =>
    cases k with
    | replace =>
      refine hT.equalParts.bind fun _ _ h ↦ ?_
      refine (hm.apply _ hB h.2.2).bind fun _ _ hr ↦ ?_
      refine (hm.apply _ hB h.2.1).bind fun _ _ hz ↦ ?_
      exact .ok (.neu hr (.transport hn (.typed (arrow h.1 (.const _)) hB) (.typed hz hb)))
    | indEqual =>
      refine hT.equalParts.bind fun _ _ h ↦ ?_
      refine (hm.apply₂ _ hB h.2.2 (.neu hT hn)).bind fun _ _ hr ↦ ?_
      refine (hm.apply₂ _ hB h.2.1 (.unary h.2.1)).bind fun _ _ hz ↦ ?_
      exact .ok (.neu hr (.transport hn (.typed (.pi h.1 (.equalMotive h.1 h.2.1)) hB)
        (.typed hz hb)))
  | _ => cases k <;> exact hf

omit hb hs in
theorem doCong (hf : f.Matches N f') :
    AgreeValue N (m.doCong p t B f) (m.doCong p t' B' f') := by
  refine ht.force.bind fun v v' hv ↦ ?_
  have hstuck := hv.stuck (R := Value.Matches N) .cong
  cases hv with
  | @unary u _ _ ha =>
    cases u with
    | same => exact (hm.apply p hf ha).bind fun _ _ hr ↦ .ok (.unary hr)
    | _ => exact hstuck
  | neu hT hn =>
    refine hT.equalParts.bind fun _ _ h ↦ ?_
    refine (hm.apply _ hf h.2.1).bind fun _ _ hl ↦ ?_
    refine (hm.apply _ hf h.2.2).bind fun _ _ hr ↦ ?_
    exact .ok (.neu (.equal hB hl hr) (.cong hn hB (.typed (arrow h.1 hB) hf)))
  | _ => exact hstuck

end Eliminators

theorem evalStep {M : Pairing} {ρ ρ' : Env} {t t' : Term} (hρ : Env.Matches N M ρ ρ')
    (ht : t.Matches M t') : AgreeValue N (m.evalStep p ρ t) (m.evalStep p ρ' t') := by
  have now {i : Nat} {e e' : Term} (he : e.Matches M e') :
      AgreeValue N (m.eval (p.part i) ρ e) (m.eval (p.part i) ρ' e') := hm.eval _ hρ he
  have later (i : Nat) {e e' : Term} (he : e.Matches M e') :
      (m.later (p.part i) (.eval ρ e)).Matches N (m.later (p.part i) (.eval ρ' e')) :=
    hm.later _ (.eval hρ he)
  cases ht with
  | @var _ x y h =>
    have hv := hρ x y h
    simp only [Machine.evalStep]
    generalize ρ.lookup x = v at hv ⊢
    generalize ρ'.lookup y = v' at hv ⊢
    cases hv with
    | unbound => exact .error _
    | bound hv => exact .ok hv
  | hole ht => exact .ok (.neu (later 0 ht) (.hole (later 0 ht)))
  | the _ he => exact now he
  | app hf ha => exact (now hf).bind fun _ _ h ↦ hm.apply _ h (later 1 ha)
  | numeral n => exact .ok (Value.matches_numeral N n)
  | quote s => exact .ok (.quote s)
  | lam hb => exact .ok (.lam (.body hb hρ))
  | pi ha hb => exact .ok (.pi (later 0 ha) (.body hb hρ))
  | sigma ha hb => exact .ok (.sigma (later 0 ha) (.body hb hρ))
  | const k => exact .ok (.const k)
  | unary ha => exact .ok (.unary (later 0 ha))
  | binary ha hb => exact .ok (.binary (later 0 ha) (later 1 hb))
  | equal ht hl hr => exact .ok (.equal (later 0 ht) (later 1 hl) (later 2 hr))
  | project ht => exact (now ht).bind fun _ _ h ↦ hm.doProject _ _ h
  | recursor ht hB hb hs =>
    exact (now ht).bind fun _ _ h ↦ hm.doRecursor _ h (later 1 hB) (later 2 hb) (later 3 hs) _
  | induct ht hB hb hs =>
    exact (now ht).bind fun _ _ h ↦ hm.doInduct _ h (later 1 hB) (later 2 hb) (later 3 hs) _
  | transport ht hB hb =>
    exact (now ht).bind fun _ _ h ↦ hm.doTransport _ h (later 1 hB) (later 2 hb) _
  | indAbsurd ht hB => exact (now ht).bind fun _ _ h ↦ h.doIndAbsurd (later 1 hB)
  | trans hl hr => exact (now hl).bind fun _ _ h ↦ (now hr).bind fun _ _ h' ↦ h.doTrans h'
  | cong ht hc hf => exact (now ht).bind fun _ _ h ↦ hm.doCong _ h (later 1 hc) (later 2 hf)
  | indVec hn ht hB hb hs =>
    refine (now hn).bind fun _ _ hn ↦ (now ht).bind fun _ _ ht ↦ ?_
    exact hm.doIndVec _ ht (later 2 hB) (later 3 hb) (later 4 hs) hn

theorem step : m.step.Matched := by
  intro N p d d' h
  cases h with
  | eval hρ ht => exact hm.evalStep p hρ ht
  | apply hf ha => exact hm.doApply p hf ha
  | recursor hn ht hb hs => exact hm.doRecursor p hn ht hb hs _
  | induct hn hB hb hs => exact hm.doInduct p hn hB hb hs _
  | indVec hl hn hB hb hs => exact hm.doIndVec p hn hB hb hs hl

end Machine.Matched

/-- With any amount of fuel, demands that match have answers that match. -/
theorem machine_matched (fuel : Nat) : (machine fuel).Matched := by
  induction fuel with
  | zero => exact fun _ _ _ _ _ ↦ .error _
  | succ fuel ih => exact ih.step

end LittleTypes
