import LittleTypes.Proofs.Context.Substitution
import LittleTypes.Proofs.Likeness.Same

/-!
# Eliminators compute the recursion that they stand for

An eliminator at a number, a list or a vector that is written out has the normal form of the nested
applications of its step, for any terms in the other positions.

The step is given a value for the recursive result that nobody has looked at yet, and a predecessor
or a tail that is taken from the value of the target.  The nested application has terms in their
place.  So what is shown is that each of these values resembles every value of its term.
-/

namespace LittleTypes

/-! ## Numbers, lists and what becomes of them -/

namespace Term

/-- The ways to write a number: as such, or by `add1` around the number before it. -/
inductive IsNumeral : Nat → Term → Prop
  | numeral (k : Nat) : IsNumeral k (.numeral k)
  | zero : IsNumeral 0 (.const .zero)
  | add1 {k : Nat} {t : Term} : IsNumeral k t → IsNumeral (k + 1) (.unary .add1 t)

/-- The list of these elements. -/
def listOf : List Term → Term
  | [] => const .nil
  | h :: hs => binary .listCons h (listOf hs)

/-- The vector of these elements. -/
def vecOf : List Term → Term
  | [] => const .vecnil
  | h :: hs => binary .vecCons h (vecOf hs)

variable (num : Nat → Term) (b s : Term)

/-- The base, or the step at the predecessor. -/
def natCase : Nat → Term
  | 0 => b
  | k + 1 => app s (num k)

/-- The step at every smaller number and at what was made of it, from the base on. -/
def natRec : Nat → Term
  | 0 => b
  | k + 1 => app (app s (num k)) (natRec k)

/-- The step at every element, at the elements after it and at what was made of these. -/
def listRec : List Term → Term
  | [] => b
  | h :: hs => app (app (app s h) (listOf hs)) (listRec hs)

/-- The same for vectors, where the step is also given how many elements there are after this one.
-/
def vecRec : List Term → Term
  | [] => b
  | h :: hs => app (app (app (app s (num hs.length)) h) (vecOf hs)) (vecRec hs)

end Term

/-! ## Values of terms -/

theorem Machine.force_later (n : Nat) (d : Demand) :
    ((machine n).later .passing d).force = machine n .passing d >>= Value.force :=
  Value.force_delay _

namespace Env

variable {ρ : Env}

/-- The value resembles that of the term, whenever somebody looks at it. -/
def Holds (ρ : Env) (t : Term) (v : Value) : Prop :=
  ∀ n, v.Resembles (.exactly False) Eq ((machine n).later .passing (.eval ρ t))

/-- If there is an answer, it resembles every value of the term. -/
def Computes (ρ : Env) (t : Term) (x : Except EvalFault Value) : Prop :=
  ∀ n, (Likeness.exactly False).AkinValue Eq x ((machine n).eval .passing ρ t)

namespace Computes

variable {t f a : Term} {x : Except EvalFault Value} {v : Value} {n : Nat}

theorem error (e : EvalFault) : Computes ρ t (.error e) := fun _ ↦ ⟨nofun, nofun⟩

theorem bind {y : Except EvalFault Value} {g : Value → Except EvalFault Value}
    (h : ∀ v, y = .ok v → Computes ρ t (g v)) : Computes ρ t (y >>= g) := by
  cases y with
  | error e => exact error e
  | ok v => exact h v rfl

/-- What is put off resembles the value of a term if its answer does. -/
theorem later {d : Demand} (h : Computes ρ t (machine n .passing d)) :
    Holds ρ t ((machine n).later .passing d) := fun k ↦ .delay (h k)

theorem holds (h : Computes ρ t (.ok v)) : Holds ρ t v := by
  refine fun k ↦ .ofForce nofun ?_
  rw [Machine.force_later]
  exact (h k).bind fun _ _ hv ↦ hv.force

/-- An application computes if its parts do. -/
theorem app (hf : Computes ρ f x) (ha : Holds ρ a v) :
    Computes ρ (.app f a) (x >>= fun g ↦ (machine n).apply .passing g v) := by
  intro k
  cases k with
  | zero => exact ⟨nofun, nofun⟩
  | succ k =>
    have hm : (Likeness.exactly False).Concur (machine n) (machine k) := machine_concur nofun
    exact (hf k).bind fun _ _ hg ↦ hm.apply hg (ha k)

theorem app₂ {c : Term} {w : Value} (hf : Computes ρ f x) (ha : Holds ρ a v) (hc : Holds ρ c w) :
    Computes ρ (.app (.app f a) c) (x >>= fun g ↦ (machine n).apply₂ .passing g v w) := by
  have h : Computes ρ (.app (.app f a) c) _ := (hf.app (n := n) ha).app (n := n) hc
  rwa [bind_assoc] at h

end Computes

/-- Every term computes its own values. -/
theorem Flat.computes (h : ρ.Flat) (n : Nat) (t : Term) :
    Computes ρ t ((machine n).eval .passing ρ t) := fun _ ↦
  SelfResembling.eval h nofun fun _ _ ↦ rfl

theorem Flat.holds_later (h : ρ.Flat) (n : Nat) (t : Term) :
    Holds ρ t ((machine n).later .passing (.eval ρ t)) := (h.computes n t).later

theorem Flat.holds (h : ρ.Flat) {n : Nat} {t : Term} {v : Value}
    (hv : (machine n).eval .passing ρ t = .ok v) : Holds ρ t v := by
  have ht := h.computes n t
  rw [hv] at ht
  exact ht.holds

namespace Holds

variable {t f a c : Term} {u v w x : Value} {n : Nat}

theorem resembles (h : Holds ρ t v) (hw : (machine n).eval .passing ρ t = .ok w) :
    v.Resembles (.exactly False) Eq w := by
  have hf := (h n).force
  rw [Machine.force_later, show machine n .passing (.eval ρ t) = .ok w from hw] at hf
  exact .ofForce nofun hf

theorem computes (h : Holds ρ t v) : Computes ρ t (.ok v) := by
  refine fun n ↦ ⟨fun v' w hv hw ↦ ?_, nofun⟩
  cases hv
  exact h.resembles hw

/-- To look at a value does not change it, since nothing is delayed twice. -/
theorem force (h : Holds ρ t v) : Computes ρ t v.force := by
  refine fun n ↦ ⟨fun v' w hv hw ↦ .ofForce nofun ⟨fun s s' hs hs' ↦ ?_, nofun⟩, nofun⟩
  have hseen := (h.resembles hw).force.answer v' s' hv hs'
  have hv' : v'.force = .ok v' := by
    cases hseen with
    | delayed hL => exact hL.elim
    | _ => rfl
  obtain rfl : v' = s := Except.ok.inj (hv'.symm.trans hs)
  exact hseen

theorem apply (hf : Holds ρ f v) (ha : Holds ρ a w) :
    Computes ρ (.app f a) ((machine n).apply .passing v w) := hf.computes.app ha

theorem apply₂ (hf : Holds ρ f v) (ha : Holds ρ a w) (hc : Holds ρ c u) :
    Computes ρ (.app (.app f a) c) ((machine n).apply₂ .passing v w u) := (hf.apply ha).app hc

/-- What is seen of the value of a constant. -/
theorem of_const {k : Const} (h : Holds ρ (.const k) v) (hw : v.force = .ok w) :
    w = .const k := by
  have hseen := (h 1).force.answer w (.const k) hw rfl
  cases hseen
  rfl

/-- What is seen of the value of a constructor. -/
theorem of_binary {k : Binary} (h : Holds ρ (.binary k a c) v) (hw : v.force = .ok w) :
    ∃ x y, w = .binary k x y ∧ Holds ρ a x ∧ Holds ρ c y := by
  have hseen (n : Nat) : w.SeenAlike (.exactly False) Eq (.binary k
      ((machine n).later .passing (.eval ρ a)) ((machine n).later .passing (.eval ρ c))) :=
    (h (n + 1)).force.answer w _ hw rfl
  obtain ⟨x, y, rfl⟩ : ∃ x y, w = .binary k x y := by
    cases hseen 0
    exact ⟨_, _, rfl⟩
  refine ⟨x, y, rfl, fun n ↦ ?_, fun n ↦ ?_⟩ <;> cases hseen n <;> assumption

end Holds

end Env

/-! ## Values of numbers -/

/-- The value is that of a number. -/
def Value.Counts (k : Nat) (v : Value) : Prop := v.Resembles (.exactly False) Eq (.numeral k)

namespace Value.Counts

variable {k : Nat} {v w : Value}

/-- What is seen of a number. -/
theorem look (h : v.Counts k) (hw : v.force = .ok w) :
    k = 0 ∧ w = .const .zero ∨ ∃ k' p, k = k' + 1 ∧ w = .unary .add1 p ∧ p.Counts k' := by
  cases k with
  | zero =>
    have hseen := h.force.answer w (.const .zero) hw rfl
    cases hseen
    exact .inl ⟨rfl, rfl⟩
  | succ k =>
    have hseen := h.force.answer w (.unary .add1 (.numeral k)) hw rfl
    cases hseen with
    | unary hp => exact .inr ⟨k, _, rfl, rfl, hp⟩

/-- Values of the same number resemble each other. -/
theorem resembles (hv : v.Counts k) (hw : w.Counts k) : v.Resembles (.exactly False) Eq w := by
  induction k generalizing v w with
  | zero =>
    refine .ofForce nofun ⟨fun a b ha hb ↦ ?_, nofun⟩
    obtain ⟨-, rfl⟩ | ⟨_, _, ⟨⟩, _⟩ := hv.look ha
    obtain ⟨-, rfl⟩ | ⟨_, _, ⟨⟩, _⟩ := hw.look hb
    exact .const _
  | succ k ih =>
    refine .ofForce nofun ⟨fun a b ha hb ↦ ?_, nofun⟩
    obtain ⟨⟨⟩, _⟩ | ⟨_, p, ⟨⟩, rfl, hp⟩ := hv.look ha
    obtain ⟨⟨⟩, _⟩ | ⟨_, q, ⟨⟩, rfl, hq⟩ := hw.look hb
    exact .unary (ih hp hq)

/-- A number that was put off. -/
theorem later {n : Nat} {d : Demand}
    (h : (Likeness.exactly False).AkinValue Eq (machine n .passing d) (.ok (.numeral k))) :
    ((machine n).later .passing d).Counts k := by
  refine .ofForce nofun ?_
  rw [Machine.force_later]
  exact h.bind fun _ _ hv ↦ hv.force

end Value.Counts

namespace Term.IsNumeral

variable {k : Nat} {t : Term}

theorem akin (h : t.IsNumeral k) (ρ : Env) (n : Nat) :
    (Likeness.exactly False).AkinValue Eq ((machine n).eval .passing ρ t)
      (.ok (.numeral k)) := by
  induction h generalizing n with
  | numeral k =>
    cases n with
    | zero => exact ⟨nofun, nofun⟩
    | succ n => exact .ok (Value.resembles_numeral _ _ k)
  | zero =>
    cases n with
    | zero => exact ⟨nofun, nofun⟩
    | succ n => exact .seen (.const _)
  | add1 _ ih =>
    cases n with
    | zero => exact ⟨nofun, nofun⟩
    | succ n => exact .seen (.unary (Value.Counts.later (ih n)))

theorem counts (h : t.IsNumeral k) {ρ : Env} {n : Nat} {v : Value}
    (hv : (machine n).eval .passing ρ t = .ok v) : v.Counts k := (h.akin ρ n).answer v _ hv rfl

/-- The value of a number is that of every way to write it. -/
theorem holds (h : t.IsNumeral k) (ρ : Env) {v : Value} (hv : v.Counts k) : ρ.Holds t v :=
  fun n ↦ hv.resembles (.later (h.akin ρ n))

end Term.IsNumeral

/-! ## Recursion

The eliminators look at their targets first. -/

/-- What is made of a target with so much fuel depends only on what is seen of the target. -/
structure Looks (E : Nat → Value → Except EvalFault Value) : Prop where
  fuel : ∀ v, ∃ e, E 0 v = .error e
  fault : ∀ n v e, v.force = .error e → ∃ e', E (n + 1) v = .error e'
  congr : ∀ n v w, v.force = w.force → E (n + 1) v = E (n + 1) w

theorem looks_recursor (k : Recursor) (B b s : Value) :
    Looks fun n v ↦ machine n .passing (.recursor k v B b s) where
  fuel _ := ⟨_, rfl⟩
  fault n v e h := ⟨e, by simp only [machine_succ, Machine.step, Machine.doRecursor, h]; rfl⟩
  congr n v w h := by simp only [machine_succ, Machine.step, Machine.doRecursor, h]

theorem looks_induct (k : Induction) (m b s : Value) :
    Looks fun n v ↦ machine n .passing (.induct k v m b s) where
  fuel _ := ⟨_, rfl⟩
  fault n v e h := ⟨e, by simp only [machine_succ, Machine.step, Machine.doInduct, h]; rfl⟩
  congr n v w h := by simp only [machine_succ, Machine.step, Machine.doInduct, h]

theorem looks_indVec_length (v m b s : Value) :
    Looks fun n l ↦ machine n .passing (.indVec l v m b s) where
  fuel _ := ⟨_, rfl⟩
  fault n l e h := ⟨e, by simp only [machine_succ, Machine.step, Machine.doIndVec, h]; rfl⟩
  congr n l l' h := by simp only [machine_succ, Machine.step, Machine.doIndVec, h]

theorem looks_indVec (l m b s : Value) :
    Looks fun n v ↦ machine n .passing (.indVec l v m b s) where
  fuel _ := ⟨_, rfl⟩
  fault n v e h := by
    simp only [machine_succ, Machine.step, Machine.doIndVec, h]
    cases l.force <;> exact ⟨_, rfl⟩
  congr n v w h := by simp only [machine_succ, Machine.step, Machine.doIndVec, h]

namespace Looks

variable {E : Nat → Value → Except EvalFault Value} (hE : Looks E) {ρ : Env} {v : Value}

include hE

/-- It is enough to know what is made of the target as it is seen. -/
theorem computes {t : Term}
    (h : ∀ w, v.force = .ok w → w.force = .ok w ∧ ∀ n, ρ.Computes t (E (n + 1) w)) (n : Nat) :
    ρ.Computes t (E n v) := by
  cases n with
  | zero =>
    obtain ⟨e, he⟩ := hE.fuel v
    rw [he]
    exact .error e
  | succ n =>
    cases hv : v.force with
    | error e =>
      obtain ⟨e', he⟩ := hE.fault n v e hv
      rw [he]
      exact .error e'
    | ok w =>
      obtain ⟨hw, hE'⟩ := h w hv
      rw [hE.congr n v w (hv.trans hw.symm)]
      exact hE' n

/-- Recursion on a number. -/
theorem computes_nat {f : Nat → Term} (hzero : ∀ n, ρ.Computes (f 0) (E (n + 1) (.const .zero)))
    (hsucc : ∀ n k p, p.Counts k → (∀ n, ρ.Computes (f k) (E n p)) →
      ρ.Computes (f (k + 1)) (E (n + 1) (.unary .add1 p)))
    {k : Nat} (hv : v.Counts k) (n : Nat) : ρ.Computes (f k) (E n v) := by
  induction k generalizing v n with
  | zero =>
    refine hE.computes (fun w hw ↦ ?_) n
    obtain ⟨-, rfl⟩ | ⟨_, _, ⟨⟩, _⟩ := hv.look hw
    exact ⟨rfl, hzero⟩
  | succ k ih =>
    refine hE.computes (fun w hw ↦ ?_) n
    obtain ⟨⟨⟩, _⟩ | ⟨_, p, ⟨⟩, rfl, hp⟩ := hv.look hw
    exact ⟨rfl, fun n ↦ hsucc n k p hp (ih hp)⟩

/-- Recursion on a list. -/
theorem computes_list {f : List Term → Term}
    (hnil : ∀ n, ρ.Computes (f []) (E (n + 1) (.const .nil)))
    (hcons : ∀ n h hs x y, ρ.Holds h x → ρ.Holds (.listOf hs) y → (∀ n, ρ.Computes (f hs) (E n y)) →
      ρ.Computes (f (h :: hs)) (E (n + 1) (.binary .listCons x y)))
    {hs : List Term} (hv : ρ.Holds (.listOf hs) v) (n : Nat) : ρ.Computes (f hs) (E n v) := by
  induction hs generalizing v n with
  | nil =>
    refine hE.computes (fun w hw ↦ ?_) n
    obtain rfl := hv.of_const hw
    exact ⟨rfl, hnil⟩
  | cons h hs ih =>
    refine hE.computes (fun w hw ↦ ?_) n
    obtain ⟨x, y, rfl, hx, hy⟩ := hv.of_binary hw
    exact ⟨rfl, fun n ↦ hcons n h hs x y hx hy (ih hy)⟩

end Looks

namespace Env

section Eliminators

variable {ρ : Env} {num : Nat → Term} (hnum : ∀ k, (num k).IsNumeral k) {b s : Term}
  {B base step v : Value} (hb : ρ.Holds b base) (hs : ρ.Holds s step) {k : Nat} {es : List Term}

include hb hs

theorem computes_iterNat (hv : v.Counts k) (n : Nat) :
    ρ.Computes (k.repeat (.app s) b) (machine n .passing (.recursor .iterNat v B base step)) :=
  (looks_recursor .iterNat B base step).computes_nat (f := fun k ↦ k.repeat (.app s) b)
    (fun _ ↦ hb.force) (fun n _ _ _ ih ↦ hs.apply (ih n).later) hv n

include hnum

theorem computes_whichNat (hv : v.Counts k) (n : Nat) :
    ρ.Computes (.natCase num b s k) (machine n .passing (.recursor .whichNat v B base step)) :=
  (looks_recursor .whichNat B base step).computes_nat (fun _ ↦ hb.force)
    (fun _ k _ hp _ ↦ hs.apply ((hnum k).holds ρ hp)) hv n

theorem computes_recNat (hv : v.Counts k) (n : Nat) :
    ρ.Computes (.natRec num b s k) (machine n .passing (.recursor .recNat v B base step)) :=
  (looks_recursor .recNat B base step).computes_nat (fun _ ↦ hb.force)
    (fun n k _ hp ih ↦ hs.apply₂ ((hnum k).holds ρ hp) (ih n).later) hv n

theorem computes_indNat (hv : v.Counts k) (n : Nat) :
    ρ.Computes (.natRec num b s k) (machine n .passing (.induct .indNat v B base step)) :=
  (looks_induct .indNat B base step).computes_nat (fun _ ↦ hb.force)
    (fun n k _ hp ih ↦ hs.apply₂ ((hnum k).holds ρ hp) (ih n).later) hv n

omit hnum in
theorem computes_recList (hv : ρ.Holds (.listOf es) v) (n : Nat) :
    ρ.Computes (.listRec b s es) (machine n .passing (.recursor .recList v B base step)) :=
  (looks_recursor .recList B base step).computes_list (fun _ ↦ hb.force)
    (fun n _ _ _ _ hx hy ih ↦ (hs.apply₂ hx hy).app (ih n).later) hv n

omit hnum in
theorem computes_indList (hv : ρ.Holds (.listOf es) v) (n : Nat) :
    ρ.Computes (.listRec b s es) (machine n .passing (.induct .indList v B base step)) :=
  (looks_induct .indList B base step).computes_list (fun _ ↦ hb.force)
    (fun n _ _ _ _ hx hy ih ↦ (hs.apply₂ hx hy).app (ih n).later) hv n

/-- Recursion on a vector, whose length is a number of its own. -/
theorem computes_indVec {l : Value} (hl : l.Counts es.length) (hv : ρ.Holds (.vecOf es) v)
    (n : Nat) :
    ρ.Computes (.vecRec num b s es) (machine n .passing (.indVec l v B base step)) := by
  induction es generalizing l v n with
  | nil =>
    refine (looks_indVec_length v B base step).computes (fun w hw ↦ ?_) n
    obtain ⟨-, rfl⟩ | ⟨_, _, ⟨⟩, _⟩ := hl.look hw
    refine ⟨rfl, fun n ↦ (looks_indVec _ B base step).computes (fun u hu ↦ ?_) (n + 1)⟩
    obtain rfl := hv.of_const hu
    exact ⟨rfl, fun _ ↦ hb.force⟩
  | cons e es ih =>
    refine (looks_indVec_length v B base step).computes (fun w hw ↦ ?_) n
    obtain ⟨⟨⟩, _⟩ | ⟨_, p, ⟨⟩, rfl, hp⟩ := hl.look hw
    refine ⟨rfl, fun n ↦ (looks_indVec _ B base step).computes (fun u hu ↦ ?_) (n + 1)⟩
    obtain ⟨x, y, rfl, hx, hy⟩ := hv.of_binary hu
    refine ⟨rfl, fun n ↦ (hs.apply₂ ((hnum es.length).holds ρ hp) hx).app₂ hy ?_⟩
    exact (ih hp hy n).later

end Eliminators

end Env

/-! ## Normal forms -/

/-- In a context that is built nothing is delayed twice. -/
theorem Context.Built.flat {fuel : Nat} {es : List Context.Entry} {Γ : Context}
    (h : Built fuel es Γ) : Γ.env.Flat := (h.selfResembling _).mono fun _ _ ↦ And.left

namespace Context

variable {Γ : Context} {type? : Option Value}

/-- The two terms have the same normal form, read back at a type or as types, if both have one. -/
def ReadAlike (Γ : Context) (type? : Option Value) (t u : Term) : Prop :=
  ∀ n n' r r', Γ.normalizeIn n Γ.env type? t = .ok r → Γ.normalizeIn n' Γ.env type? u = .ok r' →
    r = r'

theorem readAlike_of_computes (htype : ∀ type ∈ type?, type.Flat) {t u : Term}
    (h : ∀ n, Γ.env.Computes u ((machine (n + 1)).eval .passing Γ.env t)) :
    Γ.ReadAlike type? t u := by
  intro n n' r r' hr hr'
  cases n with
  | zero => cases hr
  | succ n => exact (normalizeIn_akin nofun Γ htype (h n n')).eq_of_ok hr hr'

/-- **Eliminators compute the recursion that they stand for.**  For all terms in the other
positions, and however the number is written, an eliminator of numbers has the same normal form as
the step applied so many times to the base: to the result before it, to the predecessor and the
result before it, or to the predecessor alone.  An eliminator of lists has that of the step applied
to head, tail and recursive result, and the eliminator of vectors that of the step applied to the
remaining length, head, tail and recursive result.

The context and the type may be any in which nothing is delayed twice.  This is so in all contexts
that are built, and evaluation keeps it that way. -/
theorem eliminators_compute (hΓ : Γ.env.Flat) (htype : ∀ type ∈ type?, type.Flat)
    {num : Nat → Term} (hnum : ∀ k, (num k).IsNumeral k) (c b s : Term) :
    (∀ k t, t.IsNumeral k →
      Γ.ReadAlike type? (.recursor .iterNat t c b s) (k.repeat (.app s) b) ∧
      Γ.ReadAlike type? (.recursor .recNat t c b s) (.natRec num b s k) ∧
      Γ.ReadAlike type? (.induct .indNat t c b s) (.natRec num b s k) ∧
      Γ.ReadAlike type? (.recursor .whichNat t c b s) (.natCase num b s k)) ∧
    ∀ es,
      Γ.ReadAlike type? (.recursor .recList (.listOf es) c b s) (.listRec b s es) ∧
      Γ.ReadAlike type? (.induct .indList (.listOf es) c b s) (.listRec b s es) ∧
      ∀ t, t.IsNumeral es.length →
        Γ.ReadAlike type? (.indVec t (.vecOf es) c b s) (.vecRec num b s es) := by
  have hb (n : Nat) := hΓ.holds_later n b
  have hs (n : Nat) := hΓ.holds_later n s
  refine ⟨fun k t ht ↦ ⟨?_, ?_, ?_, ?_⟩, fun es ↦ ⟨?_, ?_, fun t ht ↦ ?_⟩⟩
  · refine readAlike_of_computes htype fun n ↦ .bind fun v hv ↦ ?_
    exact Env.computes_iterNat (hb n) (hs n) (ht.counts hv) (n + 1)
  · refine readAlike_of_computes htype fun n ↦ .bind fun v hv ↦ ?_
    exact Env.computes_recNat hnum (hb n) (hs n) (ht.counts hv) (n + 1)
  · refine readAlike_of_computes htype fun n ↦ .bind fun v hv ↦ ?_
    exact Env.computes_indNat hnum (hb n) (hs n) (ht.counts hv) (n + 1)
  · refine readAlike_of_computes htype fun n ↦ .bind fun v hv ↦ ?_
    exact Env.computes_whichNat hnum (hb n) (hs n) (ht.counts hv) (n + 1)
  · refine readAlike_of_computes htype fun n ↦ .bind fun v hv ↦ ?_
    exact Env.computes_recList (hb n) (hs n) (hΓ.holds hv) (n + 1)
  · refine readAlike_of_computes htype fun n ↦ .bind fun v hv ↦ ?_
    exact Env.computes_indList (hb n) (hs n) (hΓ.holds hv) (n + 1)
  · refine readAlike_of_computes htype fun n ↦ .bind fun l hl ↦ .bind fun v hv ↦ ?_
    exact Env.computes_indVec hnum (hb n) (hs n) (ht.counts hl) (hΓ.holds hv) (n + 1)

/-- The predecessors of a number, largest first, in front of a list with an unknown element. -/
theorem eliminators_compute_predecessors :
    ∃ Γ type t u r, Built 9 [.declare (.free "k" (.const {} .nat))] Γ ∧
      Γ.eval 9 (.unary .list (.const .nat)) = .ok type ∧
      t = .recursor .recNat (.numeral 2) (.unary .list (.const .nat)) (.listOf [.var "k"])
        (.lam "n" (.lam "ns" (.binary .listCons (.var "n") (.var "ns")))) ∧
      u = .natRec .numeral (.listOf [.var "k"])
        (.lam "n" (.lam "ns" (.binary .listCons (.var "n") (.var "ns")))) 2 ∧
      r = .listOf [.unary .add1 (.const .zero), .const .zero, .var "k"] ∧
      Γ.normalizeIn 9 Γ.env (some type) t = .ok r ∧
      Γ.normalizeIn 9 Γ.env (some type) u = .ok r ∧ Γ.ReadAlike (some type) t u := by
  have hΓ : Built 9 [.declare (.free "k" (.const {} .nat))] _ := Built.nil.free rfl rfl rfl
  refine ⟨_, _, _, _, _, hΓ, rfl, rfl, rfl, rfl, rfl, rfl, ?_⟩
  have htype := hΓ.flat.eval (n := 9) (t := .unary .list (.const .nat)) rfl
  exact ((eliminators_compute hΓ.flat (by simpa using htype) .numeral (.unary .list (.const .nat))
    (.listOf [.var "k"]) _).1 2 (.numeral 2) (.numeral 2)).2.1

end Context

end LittleTypes
