import LittleTypes.Proofs.Adequacy.Stands

/-!
# Evaluation follows its plan

One step of a machine makes the demands of the plan, and goes on with their answers as the plan
does.  So if the plan runs to an answer, then a machine with enough fuel has an answer that stands
for it.
-/

namespace LittleTypes

open Idealized (Plan Runs)

variable {R : Regime} {θ : String → Option Nat}

/-- What is done in each run follows a plan, to answers that are related.  Nothing is said about a
plan that is stuck. -/
inductive Follows (R : Regime) (θ : String → Option Nat) {α β : Type}
    (Q : (R.Index → α) → β → Prop) : (R.Index → Except EvalFault α) → Plan β → Prop
  | done {a : R.Index → α} {b : β} : Q a b → Follows R θ Q (fun n ↦ .ok (a n)) (.done b)
  | ask {φ : R.Index → Nat} {d : R.Index → Demand} {D : Idealized.Demand}
    {f : R.Index → Value → Except EvalFault α} {next : Idealized.Value → Plan β} : R.Lasts φ →
    Stands R θ .demand d D →
    (∀ v V, Stands R θ .value v V → Follows R θ Q (fun n ↦ f n (v n)) (next V)) →
      Follows R θ Q (fun n ↦ machine (φ n) .passing (d n) >>= f n) (.ask D next)
  | look {v : R.Index → Value} {V : Idealized.Value} {f : R.Index → Value → Except EvalFault α}
    {next : Idealized.Value → Plan β} : Stands R θ .value v V →
    (∀ w W, Stands R θ .value w W → Follows R θ Q (fun n ↦ f n (w n)) (next W)) →
      Follows R θ Q (fun n ↦ (v n).force >>= f n) (.ask (.look V) next)
  | stuck {x : R.Index → Except EvalFault α} : Follows R θ Q x .stuck

/-- An answer that stands for the ideal answer. -/
abbrev FollowsValue (R : Regime) (θ : String → Option Nat) :
    (R.Index → Except EvalFault Value) → Plan Idealized.Value → Prop :=
  Follows R θ (Stands R θ .value)

namespace Follows

variable {α β γ δ : Type} {Q : (R.Index → α) → β → Prop} {Q' : (R.Index → γ) → δ → Prop}

/-- Two steps in a row. -/
theorem bind {x : R.Index → Except EvalFault α} {p : Plan β} {f : R.Index → α → Except EvalFault γ}
    {g : β → Plan δ} (h : Follows R θ Q x p)
    (hNext : ∀ a b, Q a b → Follows R θ Q' (fun n ↦ f n (a n)) (g b)) :
    Follows R θ Q' (fun n ↦ x n >>= f n) (p >>= g) := by
  induction h with
  | done h => exact hNext _ _ h
  | ask hφ hd _ ih =>
    simp only [bind_assoc]
    exact .ask hφ hd ih
  | look hv _ ih =>
    simp only [bind_assoc]
    exact .look hv ih
  | stuck => exact .stuck

theorem demand {φ : R.Index → Nat} {d : R.Index → Demand} {D : Idealized.Demand} (hφ : R.Lasts φ)
    (h : Stands R θ .demand d D) :
    FollowsValue R θ (fun n ↦ machine (φ n) .passing (d n)) (.ask D .done) := by
  have h' := ask (Q := Stands R θ .value) (f := fun _ ↦ pure) hφ h fun _ _ hv ↦ .done hv
  simpa only [bind_pure] using h'

end Follows

/-! ## Values by themselves -/

namespace Stands

variable {v w : R.Index → Value} {V W : Idealized.Value}

theorem force (h : Stands R θ .value v V) :
    FollowsValue R θ (fun n ↦ (v n).force) (Idealized.look V) := by
  have h' := Follows.look (Q := Stands R θ .value) (f := fun _ ↦ pure) h fun _ _ hv ↦ .done hv
  simp only [bind_pure] at h'
  exact h'

theorem listElement (h : Stands R θ .value v V) :
    FollowsValue R θ (fun n ↦ (v n).listElement) (Idealized.listElement V) := by
  refine h.force.bind fun w W hw ↦ ?_
  cases hw with
  | unary k he => cases k <;> first | exact .done he | exact .stuck
  | _ => exact .stuck

/-- Three values that stand for three values. -/
abbrev Three (R : Regime) (θ : String → Option Nat) (a : R.Index → Value × Value × Value)
    (A : Idealized.Value × Idealized.Value × Idealized.Value) : Prop :=
  ∃ t l r, a = (fun n ↦ (t n, l n, r n)) ∧ Stands R θ .value t A.1 ∧ Stands R θ .value l A.2.1 ∧
    Stands R θ .value r A.2.2

/-- Two values that stand for two values. -/
abbrev Two (R : Regime) (θ : String → Option Nat) (a : R.Index → Value × Value)
    (A : Idealized.Value × Idealized.Value) : Prop :=
  ∃ l r, a = (fun n ↦ (l n, r n)) ∧ Stands R θ .value l A.1 ∧ Stands R θ .value r A.2

theorem equalParts (h : Stands R θ .value v V) :
    Follows R θ (Three R θ) (fun n ↦ (v n).equalParts) (Idealized.equalParts V) := by
  refine h.force.bind fun w W hw ↦ ?_
  cases hw with
  | equal ht hl hr => exact .done ⟨_, _, _, rfl, ht, hl, hr⟩
  | _ => exact .stuck

theorem vecParts (h : Stands R θ .value v V) :
    Follows R θ (Two R θ) (fun n ↦ (v n).vecParts) (Idealized.vecParts V) := by
  refine h.force.bind fun w W hw ↦ ?_
  cases hw with
  | binary k he hl => cases k <;> first | exact .done ⟨_, _, rfl, he, hl⟩ | exact .stuck
  | _ => exact .stuck

theorem doIndAbsurd (h : Stands R θ .value v V) (hw : Stands R θ .value w W) :
    FollowsValue R θ (fun n ↦ (v n).indAbsurd (w n)) (Idealized.doIndAbsurd V W) := by
  refine h.force.bind fun u U hu ↦ ?_
  cases hu with
  | neu _ hn => exact .done (.neu hw (.indAbsurd hn (.typed (.const _) hw)))
  | _ => exact .stuck

theorem doTrans (h : Stands R θ .value v V) (hw : Stands R θ .value w W) :
    FollowsValue R θ (fun n ↦ (v n).trans (w n)) (Idealized.doTrans V W) := by
  refine h.force.bind fun l L hl ↦ hw.force.bind fun r U hr ↦ ?_
  cases hl with
  | unary k ha =>
    cases k with
    | same =>
      cases hr with
      | unary k hb =>
        cases k with
        | same => exact .done (.unary .same ha)
        | _ => exact .stuck
      | neu ht hn =>
        refine ht.equalParts.bind ?_
        rintro _ _ ⟨t, l, r, rfl, ht, -, hr⟩
        exact .done (.neu (.equal ht ha hr)
          (.transRight (.typed (.equal ht ha ha) (.unary .same ha)) hn))
      | _ => exact .stuck
    | _ => exact .stuck
  | neu ht hn =>
    cases hr with
    | unary k hb =>
      cases k with
      | same =>
        refine ht.equalParts.bind ?_
        rintro _ _ ⟨t, l, r, rfl, ht, hl, -⟩
        exact .done (.neu (.equal ht hl hb)
          (.transLeft hn (.typed (.equal ht hb hb) (.unary .same hb))))
      | _ => exact .stuck
    | neu ht' hn' =>
      refine ht.equalParts.bind ?_
      rintro _ _ ⟨t, l, r, rfl, ht, hl, -⟩
      refine ht'.equalParts.bind ?_
      rintro _ _ ⟨t', l', r', rfl, -, -, hr⟩
      exact .done (.neu (.equal ht hl hr) (.transBoth hn hn'))
    | _ => exact .stuck
  | _ => exact .stuck

end Stands

/-! ## One step -/

section Step

variable {φ : R.Index → Nat} (hφ : R.Lasts φ) {f a b c : R.Index → Value}
  {F A B C : Idealized.Value}

include hφ

theorem follows_eval {ρ : R.Index → Env} {P : Idealized.Env} (t : Term) (hρ : Stands R θ .env ρ P) :
    FollowsValue R θ (fun n ↦ (machine (φ n)).eval .passing (ρ n) t) (Idealized.eval P t) :=
  .demand hφ (.eval t hρ)

theorem follows_apply (hf : Stands R θ .value f F) (ha : Stands R θ .value a A) :
    FollowsValue R θ (fun n ↦ (machine (φ n)).apply .passing (f n) (a n)) (Idealized.apply F A) :=
  .demand hφ (.apply hf ha)

theorem follows_apply₂ (hf : Stands R θ .value f F) (ha : Stands R θ .value a A)
    (hb : Stands R θ .value b B) :
    FollowsValue R θ (fun n ↦ (machine (φ n)).apply₂ .passing (f n) (a n) (b n))
      (Idealized.apply₂ F A B) :=
  (follows_apply hφ hf ha).bind fun _ _ h ↦ follows_apply hφ h hb

theorem follows_enter {k : R.Index → Closure} {K : Idealized.Closure} (hk : Stands R θ .closure k K)
    (ha : Stands R θ .value a A) :
    FollowsValue R θ (fun n ↦ (machine (φ n)).enter .passing (k n) (a n))
      (Idealized.enter K A) := by
  cases hk with
  | body x t hρ => exact follows_eval hφ t (.cons x ha hρ)
  | constant hv => exact .done hv
  | natStep hm =>
    refine (follows_apply hφ hm ha).bind fun _ _ hi ↦ ?_
    refine (follows_apply hφ hm (.unary .add1 ha)).bind fun _ _ hg ↦ ?_
    exact .done (.arrow "ih" hi hg)
  | listStep he hm => exact .done (.pi "es" (.unary .list he) (.listStepTail hm ha))
  | listStepTail hm he =>
    refine (follows_apply hφ hm ha).bind fun _ _ hi ↦ ?_
    refine (follows_apply hφ hm (.binary .listCons he ha)).bind fun _ _ hg ↦ ?_
    exact .done (.arrow "ih" hi hg)
  | equalMotive ht hl => exact .done (.arrow "p" (.equal ht hl ha) (.const _))
  | vecMotive he => exact .done (.arrow "es" (.binary .vec he ha) (.const _))
  | vecStep he hm => exact .done (.pi "h" he (.vecStepHead he hm ha))
  | vecStepHead he hm hk => exact .done (.pi "t" (.binary .vec he hk) (.vecStepTail hm hk ha))
  | vecStepTail hm hk hh =>
    refine (follows_apply₂ hφ hm hk ha).bind fun _ _ hi ↦ ?_
    refine (follows_apply₂ hφ hm (.unary .add1 hk) (.binary .vecCons hh ha)).bind fun _ _ hg ↦ ?_
    exact .done (.arrow "ih" hi hg)
  | eitherCase s hm => exact follows_apply hφ hm (.unary s ha)

theorem follows_doApply (hf : Stands R θ .value f F) (ha : Stands R θ .value a A) :
    FollowsValue R θ (fun n ↦ (machine (φ n)).doApply .passing (f n) (a n))
      (Idealized.doApply F A) := by
  refine hf.force.bind fun v V hv ↦ ?_
  cases hv with
  | lam x hc => exact follows_enter hφ hc ha
  | neu ht hn =>
    refine ht.force.bind fun T T' hT ↦ ?_
    cases hT with
    | pi x hd hc =>
      refine (follows_enter hφ hc ha).bind fun _ _ hr ↦ ?_
      exact .done (.neu hr (.app hn (.typed hd ha)))
    | _ => exact .stuck
  | _ => exact .stuck

theorem follows_doProject (k : Projection) (ha : Stands R θ .value a A) :
    FollowsValue R θ (fun n ↦ (machine (φ n)).doProject .passing k (a n))
      (Idealized.doProject k A) := by
  cases k with
  | car =>
    refine ha.force.bind fun v V hv ↦ ?_
    cases hv with
    | binary k ha hd => cases k <;> first | exact ha.force | exact .stuck
    | neu ht hn =>
      refine ht.force.bind fun T T' hT ↦ ?_
      cases hT with
      | sigma x hd hc => exact .done (.neu hd (.project .car hn))
      | _ => exact .stuck
    | _ => exact .stuck
  | cdr =>
    refine ha.force.bind fun v V hv ↦ ?_
    cases hv with
    | binary k ha hd => cases k <;> first | exact hd.force | exact .stuck
    | neu ht hn =>
      refine ht.force.bind fun T T' hT ↦ ?_
      cases hT with
      | sigma x hd hc =>
        refine (follows_enter hφ hc (.neu hd (.project .car hn))).bind fun _ _ hr ↦ ?_
        exact .done (.neu hr (.project .cdr hn))
      | _ => exact .stuck
    | _ => exact .stuck
  | symm =>
    refine ha.force.bind fun v V hv ↦ ?_
    cases hv with
    | unary k ha =>
      cases k with
      | same => exact .done (.unary .same ha)
      | _ => exact .stuck
    | neu ht hn =>
      refine ht.equalParts.bind ?_
      rintro _ _ ⟨t, l, r, rfl, ht, hl, hr⟩
      exact .done (.neu (.equal ht hr hl) (.project .symm hn))
    | _ => exact .stuck
  | head =>
    refine ha.force.bind fun v V hv ↦ ?_
    cases hv with
    | binary k ha hd => cases k <;> first | exact ha.force | exact .stuck
    | neu ht hn =>
      refine ht.vecParts.bind ?_
      rintro _ _ ⟨e, l, rfl, he, -⟩
      exact .done (.neu he (.project .head hn))
    | _ => exact .stuck
  | tail =>
    refine ha.force.bind fun v V hv ↦ ?_
    cases hv with
    | binary k ha hd => cases k <;> first | exact hd.force | exact .stuck
    | neu ht hn =>
      refine ht.vecParts.bind ?_
      rintro _ _ ⟨e, l, rfl, he, hl⟩
      refine hl.force.bind fun w W hw ↦ ?_
      cases hw with
      | unary k hk =>
        cases k <;>
          first | exact .done (.neu (.binary .vec he hk) (.project .tail hn)) | exact .stuck
      | _ => exact .stuck
    | _ => exact .stuck

theorem follows_doRecursor (k : Recursor) {t s : R.Index → Value} {T S : Idealized.Value}
    (ha : Stands R θ .value a A) (ht : Stands R θ .value t T) (hb : Stands R θ .value b B)
    (hs : Stands R θ .value s S) :
    FollowsValue R θ (fun n ↦ (machine (φ n)).doRecursor .passing k (a n) (t n) (b n) (s n))
      (Idealized.doRecursor k A T B S) := by
  have again : ∀ {v V}, Stands R θ .value v V → Stands R θ .value
      (fun n ↦ (machine (φ n)).later .passing (.recursor k (v n) (t n) (b n) (s n)))
      (.later (.recursor k V T B S)) := fun hv ↦ .later hφ (.recursing k hv ht hb hs)
  cases k with
  | whichNat =>
    refine ha.force.bind fun v V hv ↦ ?_
    cases hv with
    | const k => cases k <;> first | exact hb.force | exact .stuck
    | unary k hn => cases k <;> first | exact follows_apply hφ hs hn | exact .stuck
    | neu _ hn =>
      exact .done (.neu ht (.recursor _ hn (.typed ht hb) (.typed (.arrow _ (.const _) ht) hs)))
    | _ => exact .stuck
  | iterNat =>
    refine ha.force.bind fun v V hv ↦ ?_
    cases hv with
    | const k => cases k <;> first | exact hb.force | exact .stuck
    | unary k hn => cases k <;> first | exact follows_apply hφ hs (again hn) | exact .stuck
    | neu _ hn =>
      exact .done (.neu ht (.recursor _ hn (.typed ht hb) (.typed (.arrow _ ht ht) hs)))
    | _ => exact .stuck
  | recNat =>
    refine ha.force.bind fun v V hv ↦ ?_
    cases hv with
    | const k => cases k <;> first | exact hb.force | exact .stuck
    | unary k hn => cases k <;> first | exact follows_apply₂ hφ hs hn (again hn) | exact .stuck
    | neu _ hn =>
      exact .done (.neu ht (.recursor _ hn (.typed ht hb)
        (.typed (.arrow _ (.const _) (.arrow _ ht ht)) hs)))
    | _ => exact .stuck
  | recList =>
    refine ha.force.bind fun v V hv ↦ ?_
    cases hv with
    | const k => cases k <;> first | exact hb.force | exact .stuck
    | binary k he hes =>
      cases k with
      | listCons =>
        refine (follows_apply₂ hφ hs he hes).bind fun _ _ hf ↦ ?_
        exact follows_apply hφ hf (again hes)
      | _ => exact .stuck
    | neu hX hn =>
      refine hX.listElement.bind fun e E he ↦ ?_
      exact .done (.neu ht (.recursor _ hn (.typed ht hb)
        (.typed (.arrow _ he (.arrow _ (.unary .list he) (.arrow _ ht ht))) hs)))
    | _ => exact .stuck

theorem follows_doInduct (k : Induction) {m s : R.Index → Value} {M S : Idealized.Value}
    (ha : Stands R θ .value a A) (hm : Stands R θ .value m M) (hb : Stands R θ .value b B)
    (hs : Stands R θ .value s S) :
    FollowsValue R θ (fun n ↦ (machine (φ n)).doInduct .passing k (a n) (m n) (b n) (s n))
      (Idealized.doInduct k A M B S) := by
  have again : ∀ {v V}, Stands R θ .value v V → Stands R θ .value
      (fun n ↦ (machine (φ n)).later .passing (.induct k (v n) (m n) (b n) (s n)))
      (.later (.induct k V M B S)) := fun hv ↦ .later hφ (.inducting k hv hm hb hs)
  cases k with
  | indNat =>
    refine ha.force.bind fun v V hv ↦ ?_
    cases hv with
    | const k => cases k <;> first | exact hb.force | exact .stuck
    | unary k hn => cases k <;> first | exact follows_apply₂ hφ hs hn (again hn) | exact .stuck
    | neu hX hn =>
      refine (follows_apply hφ hm (.neu hX hn)).bind fun _ _ hr ↦ ?_
      refine (follows_apply hφ hm (.const .zero)).bind fun _ _ ht ↦ ?_
      exact .done (.neu hr (.induct _ hn (.typed (.arrow _ (.const _) (.const _)) hm)
        (.typed ht hb) (.typed (.pi _ (.const _) (.natStep hm)) hs)))
    | _ => exact .stuck
  | indList =>
    refine ha.force.bind fun v V hv ↦ ?_
    cases hv with
    | const k => cases k <;> first | exact hb.force | exact .stuck
    | binary k he hes =>
      cases k with
      | listCons =>
        refine (follows_apply₂ hφ hs he hes).bind fun _ _ hf ↦ ?_
        exact follows_apply hφ hf (again hes)
      | _ => exact .stuck
    | neu hX hn =>
      refine hX.listElement.bind fun e E he ↦ ?_
      refine (follows_apply hφ hm (.neu hX hn)).bind fun _ _ hr ↦ ?_
      refine (follows_apply hφ hm (.const .nil)).bind fun _ _ ht ↦ ?_
      exact .done (.neu hr (.induct _ hn (.typed (.arrow _ (.unary .list he) (.const _)) hm)
        (.typed ht hb) (.typed (.pi _ he (.listStep he hm)) hs)))
    | _ => exact .stuck
  | indEither =>
    refine ha.force.bind fun v V hv ↦ ?_
    cases hv with
    | unary k hx =>
      cases k <;> first | exact follows_apply hφ hb hx | exact follows_apply hφ hs hx | exact .stuck
    | neu hX hn =>
      refine hX.force.bind fun T T' hT ↦ ?_
      cases hT with
      | binary k hl hr =>
        cases k with
        | either =>
          refine (follows_apply hφ hm (.neu hX hn)).bind fun _ _ hR ↦ ?_
          exact .done (.neu hR (.induct _ hn
            (.typed (.arrow _ (.binary .either hl hr) (.const _)) hm)
            (.typed (.pi _ hl (.eitherCase .left hm)) hb)
            (.typed (.pi _ hr (.eitherCase .right hm)) hs)))
        | _ => exact .stuck
      | _ => exact .stuck
    | _ => exact .stuck

theorem follows_doTransport (k : Transport) {m : R.Index → Value} {M : Idealized.Value}
    (ha : Stands R θ .value a A) (hm : Stands R θ .value m M) (hb : Stands R θ .value b B) :
    FollowsValue R θ (fun n ↦ (machine (φ n)).doTransport .passing k (a n) (m n) (b n))
      (Idealized.doTransport k A M B) := by
  cases k with
  | replace =>
    refine ha.force.bind fun v V hv ↦ ?_
    cases hv with
    | unary k hx =>
      cases k with
      | same => exact hb.force
      | _ => exact .stuck
    | neu hX hn =>
      refine hX.equalParts.bind ?_
      rintro _ _ ⟨t, l, r, rfl, ht, hl, hr⟩
      refine (follows_apply hφ hm hr).bind fun _ _ hR ↦ ?_
      refine (follows_apply hφ hm hl).bind fun _ _ hT ↦ ?_
      exact .done (.neu hR (.transport _ hn (.typed (.arrow _ ht (.const _)) hm) (.typed hT hb)))
    | _ => exact .stuck
  | indEqual =>
    refine ha.force.bind fun v V hv ↦ ?_
    cases hv with
    | unary k hx =>
      cases k with
      | same => exact hb.force
      | _ => exact .stuck
    | neu hX hn =>
      refine hX.equalParts.bind ?_
      rintro _ _ ⟨t, l, r, rfl, ht, hl, hr⟩
      refine (follows_apply₂ hφ hm hr (.neu hX hn)).bind fun _ _ hR ↦ ?_
      refine (follows_apply₂ hφ hm hl (.unary .same hl)).bind fun _ _ hT ↦ ?_
      exact .done (.neu hR (.transport _ hn (.typed (.pi _ ht (.equalMotive ht hl)) hm)
        (.typed hT hb)))
    | _ => exact .stuck

theorem follows_doCong {c f : R.Index → Value} {C F : Idealized.Value}
    (ha : Stands R θ .value a A) (hc : Stands R θ .value c C) (hf : Stands R θ .value f F) :
    FollowsValue R θ (fun n ↦ (machine (φ n)).doCong .passing (a n) (c n) (f n))
      (Idealized.doCong A C F) := by
  refine ha.force.bind fun v V hv ↦ ?_
  cases hv with
  | unary k hx =>
    cases k with
    | same =>
      refine (follows_apply hφ hf hx).bind fun _ _ hy ↦ ?_
      exact .done (.unary .same hy)
    | _ => exact .stuck
  | neu hX hn =>
    refine hX.equalParts.bind ?_
    rintro _ _ ⟨t, l, r, rfl, ht, hl, hr⟩
    refine (follows_apply hφ hf hl).bind fun _ _ hL ↦ ?_
    refine (follows_apply hφ hf hr).bind fun _ _ hR ↦ ?_
    exact .done (.neu (.equal hc hL hR) (.cong hn hc (.typed (.arrow _ ht hc) hf)))
  | _ => exact .stuck

theorem follows_doIndVec {l m s : R.Index → Value} {L M S : Idealized.Value}
    (hl : Stands R θ .value l L) (ha : Stands R θ .value a A) (hm : Stands R θ .value m M)
    (hb : Stands R θ .value b B) (hs : Stands R θ .value s S) :
    FollowsValue R θ (fun n ↦ (machine (φ n)).doIndVec .passing (l n) (a n) (m n) (b n) (s n))
      (Idealized.doIndVec L A M B S) := by
  refine hl.force.bind fun k K hk ↦ ha.force.bind fun v V hv ↦ ?_
  cases hv with
  | const k => cases k <;> first | exact hb.force | exact .stuck
  | binary c hh ht =>
    cases c with
    | vecCons =>
      cases hk with
      | unary c hk =>
        cases c with
        | add1 =>
          refine (follows_apply₂ hφ hs hk hh).bind fun _ _ hf ↦ ?_
          exact follows_apply₂ hφ hf ht (.later hφ (.inductingVec hk ht hm hb hs))
        | _ => exact .stuck
      | _ => exact .stuck
    | _ => exact .stuck
  | neu hX hn =>
    refine hX.vecParts.bind ?_
    rintro _ _ ⟨e, len, rfl, he, -⟩
    refine (follows_apply₂ hφ hm (.const .zero) (.const .vecnil)).bind fun _ _ hT ↦ ?_
    refine (follows_apply₂ hφ hm hk (.neu hX hn)).bind fun _ _ hR ↦ ?_
    have hM := Stands.typed (.pi "k" (.const .nat) (.vecMotive he)) hm
    have hS := Stands.typed (.pi "k" (.const .nat) (.vecStep he hm)) hs
    cases hk with
    | neu _ hk => exact .done (.neu hR (.indVecBoth hk hn hM (.typed hT hb) hS))
    | _ =>
      refine .done (.neu hR (.indVec (.typed (.const _) ?_) hn hM (.typed hT hb) hS))
      constructor <;> assumption
  | _ => exact .stuck

theorem follows_evalStep {ρ : R.Index → Env} {P : Idealized.Env} (t : Term)
    (hρ : Stands R θ .env ρ P) :
    FollowsValue R θ (fun n ↦ (machine (φ n)).evalStep .passing (ρ n) t)
      (Idealized.evalPlan P t) := by
  have later : ∀ t, Stands R θ .value (fun n ↦ (machine (φ n)).later .passing (.eval (ρ n) t))
      (.later (.eval P t)) := fun t ↦ .later hφ (.eval t hρ)
  cases t with
  | missing => exact .stuck
  | var x =>
    simp only [Machine.evalStep, Idealized.evalPlan]
    cases hx : P.lookup x with
    | none => exact .stuck
    | some V =>
      obtain ⟨v, hv, e⟩ := hρ.lookup hx
      simp only [e]
      exact .done hv
  | hole l t => exact .done (.neu (later t) (.hole l (later t)))
  | the _ e => exact follows_eval hφ e hρ
  | app f a =>
    refine (follows_eval hφ f hρ).bind fun _ _ hf ↦ ?_
    exact follows_apply hφ hf (later a)
  | numeral k => exact .done (.numeral k)
  | quote s => exact .done (.quote s)
  | lam x b => exact .done (.lam x (.body x b hρ))
  | pi x a b => exact .done (.pi x (later a) (.body x b hρ))
  | sigma x a b => exact .done (.sigma x (later a) (.body x b hρ))
  | const k => exact .done (.const k)
  | unary k a => exact .done (.unary k (later a))
  | binary k a b => exact .done (.binary k (later a) (later b))
  | equal t l r => exact .done (.equal (later t) (later l) (later r))
  | project k t =>
    refine (follows_eval hφ t hρ).bind fun _ _ ht ↦ ?_
    exact follows_doProject hφ k ht
  | recursor k t X b s =>
    refine (follows_eval hφ t hρ).bind fun _ _ ht ↦ ?_
    exact follows_doRecursor hφ k ht (later X) (later b) (later s)
  | induct k t m b s =>
    refine (follows_eval hφ t hρ).bind fun _ _ ht ↦ ?_
    exact follows_doInduct hφ k ht (later m) (later b) (later s)
  | transport k t m b =>
    refine (follows_eval hφ t hρ).bind fun _ _ ht ↦ ?_
    exact follows_doTransport hφ k ht (later m) (later b)
  | indAbsurd t m =>
    refine (follows_eval hφ t hρ).bind fun _ _ ht ↦ ?_
    exact ht.doIndAbsurd (later m)
  | trans l r =>
    refine (follows_eval hφ l hρ).bind fun _ _ hl ↦ ?_
    refine (follows_eval hφ r hρ).bind fun _ _ hr ↦ ?_
    exact hl.doTrans hr
  | cong t c f =>
    refine (follows_eval hφ t hρ).bind fun _ _ ht ↦ ?_
    exact follows_doCong hφ ht (later c) (later f)
  | indVec l t m b s =>
    refine (follows_eval hφ l hρ).bind fun _ _ hl ↦ ?_
    refine (follows_eval hφ t hρ).bind fun _ _ ht ↦ ?_
    exact follows_doIndVec hφ hl ht (later m) (later b) (later s)

theorem follows_step {d : R.Index → Demand} {D : Idealized.Demand} (h : Stands R θ .demand d D) :
    FollowsValue R θ (fun n ↦ (machine (φ n)).step .passing (d n)) (Idealized.plan D) := by
  cases h with
  | eval t hρ => exact follows_evalStep hφ t hρ
  | apply hf ha => exact follows_doApply hφ hf ha
  | recursing k hv ht hb hs => exact follows_doRecursor hφ k hv ht hb hs
  | inducting k hv hm hb hs => exact follows_doInduct hφ k hv hm hb hs
  | inductingVec hl hv hm hb hs => exact follows_doIndVec hφ hl hv hm hb hs

end Step

/-- To look at a value is to follow the plan of looking at it. -/
theorem follows_force {v : R.Index → Value} {V : Idealized.Value} (h : Stands R θ .value v V) :
    FollowsValue R θ (fun n ↦ (v n).force) (Idealized.plan (.look V)) := by
  cases h with
  | later hφ hd =>
    simp only [Machine.later, Value.force_delay]
    exact .ask hφ hd fun w W hw ↦ hw.force
  | _ =>
    refine .done ?_
    constructor <;> assumption

/-! ## Any number of steps -/

/-- A machine with fuel for one step more. -/
theorem Regime.Yields.step {φ : R.Index → Nat} (hφ : R.Lasts φ) {d : R.Index → Demand}
    {v : R.Index → Value}
    (h : R.Yields .outOfFuel (fun n ↦ (machine (φ n - 1)).step .passing (d n)) v) :
    R.Yields .outOfFuel (fun n ↦ machine (φ n) .passing (d n)) v := by
  refine h.congr ?_
  filter_upwards [hφ.eventually] with n hn
  obtain hn | ⟨hR, hn⟩ := hn
  · exact .inl (by rw [hn]; rfl)
  · exact .inr ⟨hR, by rw [hn]; rfl⟩

/-- What follows a plan that runs to an answer has answers that are related to it.  The induction is
on the run of the plan, which is made of the runs of all plans for what it asks for. -/
theorem Follows.yields {β : Type} {p : Plan β} {b : β} (h : Runs p b) :
    ∀ {α : Type} {Q : (R.Index → α) → β → Prop} {x : R.Index → Except EvalFault α},
      Follows R θ Q x p → ∃ a, Q a b ∧ R.Yields .outOfFuel x a := by
  induction h with
  | done b =>
    intro α Q x hx
    cases hx with
    | done h => exact ⟨_, h, .pure _⟩
  | ask hd hNext ih ihNext =>
    intro α Q x hx
    cases hx with
    | ask hφ hd' hx =>
      obtain ⟨v, hv, hy⟩ := ih (follows_step hφ.pred hd')
      obtain ⟨a, ha, hy'⟩ := ihNext (hx v _ hv)
      exact ⟨a, ha, (hy.step hφ).bind hy'⟩
    | look hV hx =>
      obtain ⟨v, hv, hy⟩ := ih (follows_force hV)
      obtain ⟨a, ha, hy'⟩ := ihNext (hx v _ hv)
      exact ⟨a, ha, hy.bind hy'⟩

end LittleTypes
