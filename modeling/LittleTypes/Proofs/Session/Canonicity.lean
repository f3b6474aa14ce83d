import LittleTypes.Proofs.Sense.Session
import LittleTypes.Proofs.Session.Replay

/-!
# Canonicity and consistency

In a session whose claims and definitions are all finished there are no unknown values.  So the
normal form of an expression is made by a constructor of its type, and there is no expression of the
empty type.
-/

namespace LittleTypes

/-! ## Canonical normal forms -/

namespace Term

/-- A type that is made by one of the type formers. -/
inductive IsFormer : Term → Prop
  | univ : IsFormer (const .univ)
  | nat : IsFormer (const .nat)
  | atom : IsFormer (const .atom)
  | trivial : IsFormer (const .trivial)
  | absurd : IsFormer (const .absurd)
  | list (e : Term) : IsFormer (unary .list e)
  | vec (e len : Term) : IsFormer (binary .vec e len)
  | either (l r : Term) : IsFormer (binary .either l r)
  | equal (t a b : Term) : IsFormer (equal t a b)
  | pi (x : String) (a b : Term) : IsFormer (pi x a b)
  | sigma (x : String) (a b : Term) : IsFormer (sigma x a b)

/-- A number, counted from zero. -/
inductive IsNumber : Term → Prop
  | zero : IsNumber (const .zero)
  | add1 {n : Term} : IsNumber n → IsNumber (unary .add1 n)

/-- A term that is made by a constructor of a type. -/
inductive Canonical : (type t : Term) → Prop
  | univ {t : Term} : t.IsFormer → Canonical (const .univ) t
  | nat {t : Term} : t.IsNumber → Canonical (const .nat) t
  | atom (s : String) : Canonical (const .atom) (quote s)
  | sole : Canonical (const .trivial) (const .sole)
  | nil (e : Term) : Canonical (unary .list e) (const .nil)
  | listCons (e h t : Term) : Canonical (unary .list e) (binary .listCons h t)
  | vecnil (e len : Term) : Canonical (binary .vec e len) (const .vecnil)
  | vecCons (e len h t : Term) : Canonical (binary .vec e len) (binary .vecCons h t)
  | left (l r a : Term) : Canonical (binary .either l r) (unary .left a)
  | right (l r a : Term) : Canonical (binary .either l r) (unary .right a)
  | same (t a b c : Term) : Canonical (equal t a b) (unary .same c)
  | lam (x y : String) (a b c : Term) : Canonical (pi x a b) (lam y c)
  | cons (x : String) (a b c d : Term) : Canonical (sigma x a b) (binary .cons c d)

/-- Only types other than the empty one have canonical elements. -/
theorem Canonical.isFormer {type t : Term} (h : Canonical type t) :
    type.IsFormer ∧ type ≠ const .absurd := by
  cases h <;> exact ⟨by constructor, nofun⟩

/-- How a type is written of which something is seen. -/
inductive Writes : Term → Idealized.Value → Prop
  | const {k : Const} : IsFormer (const k) → Writes (const k) (.const k)
  | list {e : Term} {E : Idealized.Value} : Writes (unary .list e) (.unary .list E)
  | vec {e len : Term} {E L : Idealized.Value} : Writes (binary .vec e len) (.binary .vec E L)
  | either {l r : Term} {L R : Idealized.Value} : Writes (binary .either l r) (.binary .either L R)
  | equal {t a b : Term} {T A B : Idealized.Value} : Writes (equal t a b) (.equal T A B)
  | pi {x y : String} {a b : Term} {D : Idealized.Value} {C : Idealized.Closure} :
    Writes (pi x a b) (.pi y D C)
  | sigma {x y : String} {a b : Term} {D : Idealized.Value} {C : Idealized.Closure} :
    Writes (sigma x a b) (.sigma y D C)

theorem Writes.isFormer {t : Term} {V : Idealized.Value} (h : t.Writes V) : t.IsFormer := by
  cases h with
  | const h => exact h
  | _ => constructor

end Term

namespace Idealized

variable {k : Nat} {θ : Levels} {X Y v : Value} {M N : Nameless} {T t : Term} {s : Size}

/-- Where there are no unknown values, the normal form of a type is made by a former. -/
theorem TypeAt.writes (h : TypeAt s False X Y) (hM : Reads k (.type X) M)
    (hT : T.nameless θ k = M) : ∃ V, Looks X V ∧ T.Writes V := by
  obtain ⟨S, hS, hX, -⟩ := h
  obtain ⟨V, hV, hb⟩ := hS.built (fun _ ↦ Size.eq_univ) hX
  refine ⟨V, hV, ?_⟩
  have hr := hM.of_type hV
  cases hb with
  | univ | nat | atom | trivial | absurd =>
    cases hr
    cases Spells.of_const (c := false) hT
    exact .const (by constructor)
  | unknown ho => exact ho.elim
  | list =>
    cases hr with
    | read _ hr =>
      cases hr
      obtain ⟨a, rfl, -⟩ := Spells.of_unary (c := false) hT
      exact .list
  | vec =>
    cases hr with
    | read _ hr =>
      cases hr with
      | read _ hr =>
        cases hr
        obtain ⟨a, b, rfl, -⟩ := Spells.of_binary (c := false) hT
        exact .vec
  | either =>
    cases hr with
    | read _ hr =>
      cases hr with
      | read _ hr =>
        cases hr
        obtain ⟨a, b, rfl, -⟩ := Spells.of_binary (c := false) hT
        exact .either
  | equal =>
    cases hr with
    | read _ hr =>
      cases hr with
      | read _ hr =>
        cases hr with
        | read _ hr =>
          cases hr
          obtain ⟨u, a, b, rfl, -⟩ := Spells.of_equal (c := false) hT
          exact .equal
  | pi =>
    obtain ⟨-, A, B, rfl, -⟩ := Reads.of_pi hM hV
    obtain ⟨x, a, b, rfl, -⟩ := Spells.of_pi (c := false) hT
    exact .pi
  | sigma =>
    obtain ⟨-, A, B, rfl, -⟩ := Reads.of_sigma hM hV
    obtain ⟨x, a, b, rfl, -⟩ := Spells.of_sigma (c := false) hT
    exact .sigma

/-- Where there are no unknown values, the normal form of a number is a numeral. -/
theorem SameNat.isNumber {w : Value} (h : SameNat False v w) (hX : Looks X (.const .nat))
    (hN : Reads k (.value X v) N) (ht : t.nameless θ k = N) : t.IsNumber := by
  induction h generalizing X N t with
  | zero hv =>
    cases hN.of_value hX hv
    cases Spells.of_const (c := false) ht
    exact .zero
  | add1 hv _ _ ih =>
    cases hN.of_value hX hv with
    | read hn hr =>
      cases hr
      obtain ⟨a, rfl, ha⟩ := Spells.of_unary (c := false) ht
      exact .add1 (ih (.of_inSight .intro) hn ha)
  | waiting h => exact h.1.elim

/-- Where there are no unknown values, the normal form of an element is made by a constructor of its
type. -/
theorem Same.canonical (h : Same False X v v) (hM : Reads k (.type X) M) (hT : T.nameless θ k = M)
    (hN : Reads k (.value X v) N) (ht : t.nameless θ k = N) : T.Canonical t := by
  obtain ⟨V, hV, hW⟩ := TypeAt.writes h.type hM hT
  cases hW with
  | const hk =>
    cases hk with
    | univ =>
      have hv := (univ_iff hV).1 h
      obtain ⟨u, hu⟩ := hv.looks
      cases hN.of_value hV hu with
      | read hr hd =>
        cases hd
        obtain ⟨_, -, hW⟩ := (hv.seenBoth (.seen hu) (.seen hu)).writes hr ht
        exact .univ hW.isFormer
    | nat => exact .nat (((nat_iff hV).1 h).isNumber hV hN ht)
    | atom =>
      obtain ⟨s, hv, -⟩ | h := (atom_iff hV).1 h
      · cases hN.of_value hV hv
        cases Spells.of_quote (c := false) ht
        exact .atom s
      · exact h.1.elim
    | trivial =>
      obtain hv | h := ((trivial_iff hV).1 h).1
      · cases hN.of_value hV hv
        cases Spells.of_const (c := false) ht
        exact .sole
      · exact h.1.elim
    | absurd => exact ((absurd_iff hV).1 h).1.1.elim
  | list =>
    cases (list_iff h.type hV).1 h with
    | nil hv =>
      cases hN.of_value hV hv
      cases Spells.of_const (c := false) ht
      exact .nil _
    | cons hv =>
      cases hN.of_value hV hv with
      | read _ hr =>
        cases hr with
        | read _ hr =>
          cases hr
          obtain ⟨a, b, rfl, -⟩ := Spells.of_binary (c := false) ht
          exact .listCons _ a b
    | waiting h => exact h.1.elim
  | vec =>
    cases (vec_iff h.type hV).1 h with
    | nil _ hv =>
      cases hN.of_value hV hv
      cases Spells.of_const (c := false) ht
      exact .vecnil _ _
    | cons hl hv =>
      obtain ⟨l, hl', hr⟩ := ReadRuns.thenRead_iff.1 (hN.of_value hV hv)
      cases hl.unique hl'
      cases hr with
      | read _ hr =>
        cases hr with
        | read _ hr =>
          cases hr
          obtain ⟨a, b, rfl, -⟩ := Spells.of_binary (c := false) ht
          exact .vecCons _ _ a b
    | waiting h => exact h.1.elim
  | either =>
    obtain ⟨a, _, hv, -⟩ | ⟨a, _, hv, -⟩ | h := (either_iff h.type hV).1 h
    · cases hN.of_value hV hv with
      | read _ hr =>
        cases hr
        obtain ⟨a, rfl, -⟩ := Spells.of_unary (c := false) ht
        exact .left _ _ a
    · cases hN.of_value hV hv with
      | read _ hr =>
        cases hr
        obtain ⟨a, rfl, -⟩ := Spells.of_unary (c := false) ht
        exact .right _ _ a
    · exact h.1.elim
  | equal =>
    obtain ⟨a, _, hv, -⟩ | h := (equal_iff h.type hV).1 h
    · cases hN.of_value hV hv with
      | read _ hr =>
        cases hr
        obtain ⟨a, rfl, -⟩ := Spells.of_unary (c := false) ht
        exact .same _ _ _ a
    · exact h.1.elim
  | pi =>
    obtain ⟨_, _, B, rfl, -⟩ := Reads.of_function hN hV
    obtain ⟨y, b, rfl, -⟩ := Spells.of_lam (c := false) ht
    exact .lam _ y _ _ b
  | sigma =>
    obtain ⟨a, d, hv⟩ | h := ((sigma_iff h.type hV).1 h).1
    · obtain ⟨a, -, hr⟩ := ReadRuns.thenRead_iff.1 (hN.of_value hV hv)
      cases hr with
      | read _ hr =>
        obtain ⟨Z, -, hr⟩ := ReadRuns.thenRead_iff.1 hr
        obtain ⟨d, -, hr⟩ := ReadRuns.thenRead_iff.1 hr
        cases hr with
        | read _ hr =>
          cases hr
          obtain ⟨a, b, rfl, -⟩ := Spells.of_binary (c := false) ht
          exact .cons _ _ _ a b
    · exact h.1.elim

end Idealized

/-! ## Finished sessions -/

namespace Session

open Filter Situation

/-- **Canonicity.**  After commands of which no claim or definition that succeeds is unfinished, if
a finished expression has a normal form then this is made by a constructor of its type.  So its type
is made by a former, and it is not the empty type. -/
theorem normal_forms_canonical {fuel : Nat} {cs : List Command} {e : Source} {T v : Term}
    (hcs : ∀ c ∈ succeeding fuel {} cs, c.hasHole = false) (he : e.hasHole = false)
    (h : ((run fuel {} cs).context.rep fuel e).outcome = .ok (.the T v)) :
    T.IsFormer ∧ T ≠ .const .absurd ∧ T.Canonical v := by
  suffices hc : T.Canonical v from ⟨hc.isFormer.1, hc.isFormer.2, hc⟩
  -- the commands that succeed build the same context, and they are finished
  have hrun := (run_succeeding fuel cs {} {} rfl).1
  obtain ⟨S, hS, hs⟩ := exists_closed (Regime.lasts_only fuel) (Regime.unanimous_only fuel)
    (succeeding fuel {} cs) (o := False) fun c hc ho ↦ by simp [hcs c hc] at ho
  have hctx : S.context () fuel = (run fuel {} cs).context := by
    rw [← eventually_pure.1 hs, hrun]
  have ho : e.hasHole → S.unfinished := fun h ↦ by simp [he] at h
  obtain ⟨t, ⟨F, a, T', v', ha, hT, hv, rfl⟩, hx⟩ | hx :=
    (hS.coherent.rep (Regime.lasts_only fuel) ho).single
  · have hx := eventually_pure.1 (hx ())
    simp only [hctx, h] at hx
    obtain hx | ⟨-, hx⟩ := hx
    · cases hx
      obtain ⟨M, hM, hTM⟩ := hT ()
      obtain ⟨N, hN, hvN⟩ := hv ()
      exact (ha.self (hS.here not_false)).canonical hM hTM.nameless hN hvN.nameless
    · cases hx
  · have hx := eventually_pure.1 (hx.ne_ok ())
    rw [hctx] at hx
    exact absurd h (hx _)

/-- A number that is claimed and defined, and an attempt to define another one that is neither
claimed nor finished. -/
def oneNumber : List Command :=
  [.claim {} "one" (.const {} .nat), .define {} "two" (.hole {}),
    .define {} "one" (.unary {} .add1 (.const {} .zero))]

/-- The number after the one before `one`. -/
def backAndForth : Source :=
  .recursor {} .whichNat (.var {} "one") (.the {} (.const {} .nat) (.const {} .zero))
    (.lam {} [⟨{}, "n"⟩] (.unary {} .add1 (.var {} "n")))

/-- What is computed from the number is a number. -/
theorem normal_forms_canonical_number :
    (∀ c ∈ succeeding 9 {} oneNumber, c.hasHole = false) ∧
    ∃ T v, ((run 9 {} oneNumber).context.rep 9 backAndForth).outcome = .ok (.the T v) ∧
      T.IsFormer ∧ T ≠ .const .absurd ∧ T.Canonical v := by
  have hcs : ∀ c ∈ succeeding 9 {} oneNumber, c.hasHole = false := by decide +kernel
  exact ⟨hcs, _, _, rfl, normal_forms_canonical (e := backAndForth) hcs rfl rfl⟩

end Session

end LittleTypes
