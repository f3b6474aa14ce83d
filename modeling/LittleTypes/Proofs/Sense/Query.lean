import LittleTypes.Proofs.Sense.Elaborate
import LittleTypes.Session.Query

/-!
# Questions about programs in a situation

What is answered to a question about an expression: normal forms are those of a type and of an
element of it, and all runs agree on them.
-/

namespace LittleTypes.Situation

variable {R : Regime} {J : Type} {S : Situation R J} {φ : R.Index → Nat}

variable (S) in
/-- A type and an element of it, both as normal forms. -/
def IsNormal (t : J → Term) : Prop :=
  ∃ (F a : Sense J) (T v : J → Term), S.IsElem F a ∧ S.Spelled (S.readType F) T ∧
    S.Spelled (S.readElem F a) v ∧ t = fun j ↦ .the (T j) (v j)

variable (hφ : R.Lasts φ) (hS : S.Coherent) {e type a b : Source}

include hφ hS

/-- An expression that has been checked has a normal form. -/
theorem SharedJudgment.exists_normal {k : J → Judgment} (hk : S.SharedJudgment k) :
    ∃ T v : J → Term, S.Spelled (S.readType (.ofTerm fun j ↦ (k j).type)) T ∧
      S.Spelled (S.readElem (.ofTerm fun j ↦ (k j).type) (.ofTerm fun j ↦ (k j).term)) v ∧
      R.Gives (fun j n ↦ do
        let tv ← (S.context j n).scope.eval (φ n) (k j).type
        let v ← (S.context j n).scope.eval (φ n) (k j).term
        let type ← (S.context j n).scope.readBackType (φ n) tv
        pure (Term.the type (← (S.context j n).scope.readBack (φ n) tv v)))
        (R.steady fun j ↦ .the (T j) (v j)) := by
  obtain ⟨tv, htv, htvn⟩ := hS.exists_evalType hφ {} hk.type.type
  obtain ⟨v, hv, hvn⟩ := hS.exists_eval hφ {} hk.term.elem
  obtain ⟨T, hT, hTn⟩ := hS.exists_readBackType hφ {} hk.type.type.isType htv
  obtain ⟨u, hu, hun⟩ := hS.exists_readBack hφ {} hk.term.elem.isElem htv hv
  exact ⟨T, u, hT, hu, htvn.bind (hvn.bind (hTn.bind (hun.bind fun _ ↦ .pure _)))⟩

theorem Coherent.rep (ho : e.hasHole → S.unfinished) :
    R.Meets R.allExcused R.steady (fun j n ↦ (S.context j n).rep (φ n) e) S.IsNormal := by
  refine ((e.sound hφ ho).synth hS id {}).andThen fun k hk ↦ ?_
  obtain ⟨T, v, hT, hv, hn⟩ := hk.exists_normal hφ hS
  exact .gives ⟨_, _, T, v, hk.term.elem.isElem, hT, hv, rfl⟩ hn

theorem Coherent.normType (ho : e.hasHole → S.unfinished) :
    R.Meets R.allExcused R.steady (fun j n ↦ (S.context j n).normType (φ n) e) S.IsNormalType := by
  refine ((e.sound hφ ho).isType hS id {}).andThen fun t ht ↦ ?_
  refine (hS.evalType hφ ht.type).bind fun v hv ↦ ?_
  exact (hS.readBackType hφ ht.type.isType hv).imp fun u hu ↦ ⟨_, ht.type.isType, hu⟩

theorem Coherent.norm [Subsingleton J] (ho : e.hasHole → S.unfinished) :
    R.Meets R.allExcused R.steady (fun j n ↦ (S.context j n).norm (φ n) e) fun t ↦
      S.IsNormal t ∨ S.IsNormalType t := by
  refine ((hS.rep hφ ho).imp fun _ ↦ .inl).onStop fun s ↦ ?_
  exact ((hS.normType hφ ho).imp fun _ ↦ .inr).onStop fun _ ↦ .mistake (s := s) fun _ _ ↦ rfl

theorem Coherent.checkAt (ht : type.hasHole → S.unfinished) (he : e.hasHole → S.unfinished) :
    R.Meets R.allExcused R.steady (fun j n ↦ (S.context j n).checkAt (φ n) type e)
      fun _ ↦ True := by
  refine ((type.sound hφ ht).isType hS id {}).andThen fun t ht ↦ ?_
  refine (hS.evalType hφ ht.type).bind fun tv htv ↦ ?_
  exact ((e.sound hφ he).check hS id {} ht.type.isType htv).imp fun _ _ ↦ trivial

theorem Coherent.checkSame {loc : Location} (ht : type.hasHole → S.unfinished)
    (ha : a.hasHole → S.unfinished) (hb : b.hasHole → S.unfinished) :
    R.Meets R.allExcused R.nothing (fun j n ↦ (S.context j n).checkSame (φ n) loc type a b)
      fun _ ↦ True := by
  refine ((type.sound hφ ht).isType hS id {}).andThen fun t ht ↦ ?_
  refine (hS.evalType hφ ht.type).bind fun tv htv ↦ ?_
  refine ((a.sound hφ ha).check hS id {} ht.type.isType htv).andThen fun a ha ↦ ?_
  refine ((b.sound hφ hb).check hS id {} ht.type.isType htv).andThen fun b hb ↦ ?_
  refine (hS.eval hφ ha.elem).bind fun av hav ↦ (hS.eval hφ hb.elem).bind fun bv hbv ↦ ?_
  exact (hS.convert hφ ha.elem.isElem hb.elem.isElem htv hav hbv).imp fun _ _ ↦ trivial

end LittleTypes.Situation
