import LittleTypes.Proofs.Name.Scoping
import LittleTypes.Proofs.Typing.Steady

/-!
# Later declarations

Claims and definitions add names to the context of a session and leave alone what could be used
before.  An answer may be found under other names, since every new name is chosen apart from all
names in scope, and a name of the source that was refused may be known now.  To compare the answers
before and after, the names that are new are hidden first, and then they are revealed.
-/

namespace LittleTypes

/-! ## Questions in a scope -/

namespace Scope

variable (fuel : Nat) (s : Scope)

/-- The normal form of an expression, with the normal form of its type. -/
def rep (e : Source) : Checked Term := do
  let j ← e.synth fuel s
  let tv ← s.eval fuel j.type
  let v ← s.eval fuel j.term
  let type ← s.readBackType fuel tv
  pure (.the type (← s.readBack fuel tv v))

/-- The normal form of a type. -/
def normType (e : Source) : Checked Term := do
  let t ← e.isType fuel s
  s.readBackType fuel (← s.eval fuel t)

/-- Succeeds if two expressions are the same element of a type. -/
def checkSame (loc : Location) (type a b : Source) : Checked Unit := do
  let t ← type.isType fuel s
  let tv ← s.eval fuel t
  let a' ← a.check fuel s tv
  let b' ← b.check fuel s tv
  let av ← s.eval fuel a'
  let bv ← s.eval fuel b'
  s.convert fuel loc tv av bv

end Scope

namespace Context

variable (fuel : Nat) (Γ : Context) (e : Source)

theorem rep_eq : Γ.rep fuel e = Γ.scope.rep fuel e := rfl

theorem normType_eq : Γ.normType fuel e = Γ.scope.normType fuel e := rfl

theorem checkSame_eq (loc : Location) (type a b : Source) :
    Γ.checkSame fuel loc type a b = Γ.scope.checkSame fuel loc type a b := rfl

end Context

/-! ## Questions in scopes that match -/

namespace Scope.Matches

variable {fuel : Nat} {N M : Pairing} {s s' : Scope} (h : Scope.Matches Eq N M s s')

include h

theorem synthSelf (e : Source) :
    Checked.Agree (Judgment.Matches M) (e.synth fuel s) (e.synth fuel s') :=
  ((e.renamed_self Eq fun _ ↦ rfl).matches fuel).synth h

theorem checkSelf (e : Source) {v v' : Value} (hv : v.Matches N v') :
    Checked.Agree (Term.Matches M) (e.check fuel s v) (e.check fuel s' v') :=
  ((e.renamed_self Eq fun _ ↦ rfl).matches fuel).check h hv

theorem isTypeSelf (e : Source) :
    Checked.Agree (Term.Matches M) (e.isType fuel s) (e.isType fuel s') :=
  ((e.renamed_self Eq fun _ ↦ rfl).matches fuel).isType h

theorem rep (e : Source) : Checked.Agree (Term.Matches N) (s.rep fuel e) (s'.rep fuel e) := by
  refine (h.synthSelf e).bind fun j j' hj ↦ (h.eval hj.type).bind fun T T' hT ↦ ?_
  refine (h.eval hj.term).bind fun v v' hv ↦ (h.readBackType hT).bind fun t t' ht ↦ ?_
  exact (h.readBack hT hv).bind fun u u' hu ↦ .pure (.the ht hu)

theorem normType (e : Source) :
    Checked.Agree (Term.Matches N) (s.normType fuel e) (s'.normType fuel e) :=
  (h.isTypeSelf e).bind fun _ _ ht ↦ (h.eval ht).bind fun _ _ hv ↦ h.readBackType hv

theorem checkSame (loc : Location) (type a b : Source) :
    Checked.Agree (fun _ _ ↦ True) (s.checkSame fuel loc type a b)
      (s'.checkSame fuel loc type a b) := by
  refine (h.isTypeSelf type).bind fun t t' ht ↦ (h.eval ht).bind fun T T' hT ↦ ?_
  refine (h.checkSelf a hT).bind fun a a' ha ↦ (h.checkSelf b hT).bind fun b b' hb ↦ ?_
  exact (h.eval ha).bind fun v v' hv ↦ (h.eval hb).bind fun w w' hw ↦ h.convert loc hT hv hw

end Scope.Matches

/-! ## Questions where names are hidden -/

namespace Renaming.Hides

variable {fuel : Nat} {Γ : Context} {r r' : Renaming} (h : r.Hides r')

include h

theorem rep (e : Source) : Checked.Reveals (Scope.rep fuel ⟨Γ, r⟩ e) (Scope.rep fuel ⟨Γ, r'⟩ e) :=
  ((e.elaborator_reveals fuel).synth h).bind fun _ ↦ .refl _

theorem normType (e : Source) :
    Checked.Reveals (Scope.normType fuel ⟨Γ, r⟩ e) (Scope.normType fuel ⟨Γ, r'⟩ e) :=
  ((e.elaborator_reveals fuel).isType h).bind fun _ ↦ .refl _

theorem checkSame (loc : Location) (type a b : Source) :
    Checked.Reveals (Scope.checkSame fuel ⟨Γ, r⟩ loc type a b)
      (Scope.checkSame fuel ⟨Γ, r'⟩ loc type a b) := by
  refine ((type.elaborator_reveals fuel).isType h).bind fun _ ↦ .after fun T ↦ ?_
  refine ((a.elaborator_reveals fuel).check h T).bind fun _ ↦ ?_
  exact ((b.elaborator_reveals fuel).check h T).bind fun _ ↦ .refl _

end Renaming.Hides

/-- There is an answer exactly if the check has one, or if what is done about its mistake has. -/
theorem Checked.onStop_eq_ok_iff {α : Type} {x : Checked α} {f : Stop → Checked α} {a : α} :
    (x.onStop f).outcome = .ok a ↔
      x.outcome = .ok a ∨ ∃ s, x.outcome = .error (.stop s) ∧ (f s).outcome = .ok a := by
  unfold onStop
  split
  · rename_i s hs
    simp [hs]
  · rename_i hs
    exact ⟨.inl, fun h ↦ h.resolve_right fun ⟨s, h, _⟩ ↦ hs s h⟩

/-- The second check ends like the first, unless that one has met a name it does not know. -/
def Checked.Persists {α β : Type} (R : α → β → Prop) (x : Checked α) (z : Checked β) : Prop :=
  ∃ y, Checked.Agree R x y ∧ Checked.Reveals y z

namespace Checked.Persists

variable {α β : Type} {R : α → β → Prop} {x : Checked α} {z : Checked β} (h : Persists R x z)

include h

/-- An answer is found again. -/
theorem ok {a : α} (hx : x.outcome = .ok a) : ∃ b, z.outcome = .ok b ∧ R a b := by
  obtain ⟨y, hxy, hyz⟩ := h
  rw [Agree, hx] at hxy
  cases hy : y.outcome with
  | ok b =>
    rw [hy] at hxy
    cases hxy with
    | ok hab => exact ⟨b, hyz.eq_ok hy, hab⟩
  | error f =>
    rw [hy] at hxy
    cases hxy

/-- A mistake is made again, unless it is a name that is not known. -/
theorem stop {s : Stop} (hx : x.outcome = .error (.stop s)) (hs : s.code ≠ .scope) :
    ∃ s', z.outcome = .error (.stop s') ∧ s'.code = s.code ∧ s'.loc = s.loc := by
  obtain ⟨y, hxy, hyz⟩ := h
  rw [Agree, hx] at hxy
  generalize hy : y.outcome = o at hxy
  cases hxy with
  | stop hc hl => exact ⟨_, hyz.eq_stop hy (hc ▸ hs), hc.symm, hl.symm⟩

end Checked.Persists

/-! ## Contexts that grow -/

namespace Context

/-- The second context has all names of the first, and whatever can be used there is unchanged. -/
structure Grows (Γ Γ' : Context) : Prop where
  names : Γ.names ⊆ Γ'.names
  type : ∀ x, (Γ.typeOf? x).isSome → Γ'.typeOf? x = Γ.typeOf? x
  value : ∀ x, (Γ.typeOf? x).isSome → Γ'.env.lookup x = Γ.env.lookup x

/-- A context as it is seen from another one: what cannot be used there is hidden. -/
def seenFrom (Γ' Γ : Context) : Scope where
  context := Γ'
  names := { targets := Γ'.names.filter fun x ↦ (Γ.typeOf? x).isNone }

theorem resolve_scope (Γ : Context) (x : String) :
    Γ.scope.resolve x = if (Γ.typeOf? x).isSome then some x else none := rfl

namespace Grows

variable {Γ Γ' : Context}

theorem refl (Γ : Context) : Γ.Grows Γ := ⟨fun _ ↦ id, fun _ _ ↦ rfl, fun _ _ ↦ rfl⟩

/-- A claim changes nothing that can be used. -/
theorem claim (h : Γ.Grows Γ') (x : String) (t : Value) : Γ.Grows ((x, .claim t) :: Γ') where
  names := fun _ hy ↦ List.mem_cons_of_mem _ (h.names hy)
  type := h.type
  value := h.value

/-- A definition of a name that cannot be used yet changes nothing that can be used. -/
theorem defn (h : Γ.Grows Γ') {x : String} (hx : Γ'.env.lookup x = none) (t v : Value) :
    Γ.Grows ((x, .defn t v) :: Γ') := by
  have other : ∀ y, (Γ.typeOf? y).isSome → x ≠ y := by
    rintro y hy rfl
    have hy' := h.type x hy ▸ hy
    rw [← SelfMatched.isSome_lookup_env, hx] at hy'
    cases hy'
  refine ⟨fun _ hy ↦ List.mem_cons_of_mem _ (h.names hy), fun y hy ↦ ?_, fun y hy ↦ ?_⟩
  · rw [typeOf?, if_neg (other y hy)]
    exact h.type y hy
  · rw [env, Env.lookup, if_neg (other y hy)]
    exact h.value y hy

variable (h : Γ.Grows Γ')

include h

theorem context (hΓ : Γ.SelfMatched) : Context.Matches Γ.unknown Γ.usable Γ Γ' := by
  have used : ∀ a b, Γ.usable a b → a = b ∧ (Γ.typeOf? b).isSome := by
    rintro a b ⟨rfl, ha⟩
    exact ⟨rfl, SelfMatched.isSome_lookup_env Γ a ▸ ha⟩
  refine ⟨hΓ.self.oneToOne, fun a b hab ↦ ?_, hΓ.self.le, fun a b hab ↦ ?_, fun a b hab ↦ ?_⟩
  · exact ⟨(hΓ.self.within a b hab).1, h.names (hΓ.self.within a b hab).2⟩
  · rw [h.value b (used a b hab).2]
    exact hΓ.self.env a b hab
  · rw [h.type b (used a b hab).2]
    exact hΓ.self.type a b hab

/-- With the new names hidden, every name of the source stands for the same as before. -/
theorem seenFrom (hΓ : Γ.SelfMatched) :
    Scope.Matches Eq Γ.unknown Γ.usable Γ.scope (Γ'.seenFrom Γ) where
  context := h.context hΓ
  left := nofun
  right := nofun
  resolve := by
    rintro a _ rfl
    have hr : (Γ'.seenFrom Γ).resolve a =
        if (Γ'.names.filter fun x ↦ (Γ.typeOf? x).isNone).contains a then none
        else if (Γ'.typeOf? a).isSome then some a else none := rfl
    rw [hr, resolve_scope]
    simp only [List.contains_iff_mem, List.mem_filter]
    by_cases ha : (Γ.typeOf? a).isSome
    · rw [if_pos ha, if_neg (by simp [Option.isSome_iff_ne_none.1 ha]), if_pos (h.type a ha ▸ ha)]
      exact .some ⟨rfl, SelfMatched.isSome_lookup_env Γ a ▸ ha⟩
    · rw [if_neg ha]
      split
      · exact .none
      · rename_i hn
        have hn : a ∉ Γ'.names := fun hm ↦ hn ⟨hm, by simpa using ha⟩
        rw [typeOf?_eq_none hn]
        exact .none

omit h in
theorem hides : (Γ'.seenFrom Γ).names.Hides Γ'.scope.names := ⟨rfl, nofun⟩

variable {fuel : Nat} (hΓ : Γ.SelfMatched)

include hΓ

theorem rep (e : Source) :
    Checked.Persists (Term.Matches Γ.unknown) (Γ.rep fuel e) (Γ'.rep fuel e) := by
  rw [rep_eq, rep_eq]
  exact ⟨_, (h.seenFrom hΓ).rep e, hides.rep e⟩

theorem normType (e : Source) :
    Checked.Persists (Term.Matches Γ.unknown) (Γ.normType fuel e) (Γ'.normType fuel e) := by
  rw [normType_eq, normType_eq]
  exact ⟨_, (h.seenFrom hΓ).normType e, hides.normType e⟩

theorem checkSame (loc : Location) (type a b : Source) :
    Checked.Persists (fun _ _ ↦ True) (Γ.checkSame fuel loc type a b)
      (Γ'.checkSame fuel loc type a b) := by
  rw [checkSame_eq, checkSame_eq]
  exact ⟨_, (h.seenFrom hΓ).checkSame loc type a b, hides.checkSame loc type a b⟩

omit h hΓ in
/-- A type that can be normalized is not refused for a name that is not known when its type is asked
for. -/
theorem knows_rep {e : Source} {t : Term} (ht : (Γ.normType fuel e).outcome = .ok t) :
    (Γ.rep fuel e).Knows := by
  obtain ⟨u, hu, -⟩ := Checked.outcome_bind_eq_ok_iff.1 ht
  refine ((e.elaborator_steady fuel).synth hu).bind fun _ _ ↦ .bind (.ofEval _) fun _ _ ↦ ?_
  refine .bind (.ofEval _) fun _ _ ↦ .bind (.ofRead _) fun _ _ ↦ ?_
  exact .bind (.ofRead _) fun _ _ ↦ .pure _

/-- A normal form is found again, with other names for bound variables. -/
theorem norm {e : Source} {t : Term} (ht : (Γ.norm fuel e).outcome = .ok t) :
    ∃ t', (Γ'.norm fuel e).outcome = .ok t' ∧ t.Matches Γ.unknown t' := by
  rcases Checked.onStop_eq_ok_iff.1 ht with ht | ⟨s, hs, ht⟩
  · obtain ⟨t', ht', htt'⟩ := (h.rep hΓ e).ok ht
    exact ⟨t', Checked.onStop_eq_ok_iff.2 (.inl ht'), htt'⟩
  · rcases Checked.onStop_eq_ok_iff.1 ht with ht | ⟨_, -, ht⟩
    · -- the expression has no type, but this is not for its names, so it still has none
      obtain ⟨s', hs', -, -⟩ := (h.rep hΓ e).stop hs (knows_rep ht _ hs)
      obtain ⟨t', ht', htt'⟩ := (h.normType hΓ e).ok ht
      exact ⟨t', Checked.onStop_eq_ok_iff.2 (.inr ⟨s', hs', Checked.onStop_eq_ok_iff.2 (.inl ht')⟩),
        htt'⟩
    · cases ht

end Grows

end Context

/-! ## Sessions -/

namespace Session

theorem run_append (fuel : Nat) (s : Session) (cs ds : List Command) :
    run fuel s (cs ++ ds) = run fuel (run fuel s cs) ds := List.foldl_append

/-- One more command keeps what can be used in a session. -/
theorem grows_perform (fuel : Nat) {Γ : Context} {s : Session} (h : Γ.Grows s.context)
    (hs : Settled s.context) (c : Command) : Γ.Grows (perform fuel s c).1.context := by
  rcases context_cases fuel s c with e | ⟨loc, x, type, e⟩ | ⟨loc, x, body, e⟩
  · rwa [e]
  · obtain ⟨-, -, t, v, -, -, e⟩ := claim_eq_ok e
    rw [e]
    exact h.claim x v
  · obtain ⟨type, t, v, hx, -, -, e⟩ := define_eq_ok e
    rw [e]
    exact h.defn (hs.claimed x type hx) type v

/-- The context of a session only grows. -/
theorem grows_run (fuel : Nat) (cs ds : List Command) :
    (run fuel {} cs).context.Grows (run fuel (run fuel {} cs) ds).context := by
  have go : ∀ bs, (run fuel {} cs).context.Grows (run fuel {} bs).context →
      (run fuel {} cs).context.Grows (run fuel (run fuel {} bs) ds).context := by
    induction ds with
    | nil => exact fun _ ↦ id
    | cons d ds ih =>
      intro bs h
      have hd := grows_perform fuel h (settled_run fuel bs) d
      rw [show (perform fuel (run fuel {} bs) d).1 = run fuel {} (bs ++ [d]) from
        (run_append fuel {} bs [d]).symm] at hd
      have := ih _ hd
      rwa [run_append] at this
  exact go cs (.refl _)

section

variable {fuel : Nat} {s : Session}

theorem outcome_norm_eq_ok_iff {e : Source} {n : Term} :
    (perform fuel s (.norm e)).2.outcome = .ok (some n) ↔
      (s.context.norm fuel e).outcome = .ok n := by
  rw [outcome_perform, execute, Checked.outcome_bind]
  cases (s.context.norm fuel e).outcome with
  | ok t => simp [Except.bind, Except.map]
  | error f => simp [Except.bind, Except.map]

variable {loc : Location} {type a b : Source}

theorem outcome_checkSame_eq_ok_iff :
    (perform fuel s (.checkSame loc type a b)).2.outcome = .ok none ↔
      (s.context.checkSame fuel loc type a b).outcome = .ok () := by
  rw [outcome_perform, execute, Checked.outcome_bind]
  cases (s.context.checkSame fuel loc type a b).outcome with
  | ok t => simp [Except.bind, Except.map]
  | error f => simp [Except.bind, Except.map]

theorem outcome_checkSame_eq_error_iff {f : Failure} :
    (perform fuel s (.checkSame loc type a b)).2.outcome = .error f ↔
      (s.context.checkSame fuel loc type a b).outcome = .error f := by
  rw [outcome_perform, execute, Checked.outcome_bind]
  cases (s.context.checkSame fuel loc type a b).outcome with
  | ok t => simp [Except.bind, Except.map]
  | error f => simp [Except.bind, Except.map]

end

/-- **Later commands change no answers.**  What has a normal form in a session still has one after
further commands, and it is the same up to the names of bound variables.  What is found to be the
same, or not to be the same, is still found to be so. -/
theorem later_commands_keep_answers (fuel : Nat) (cs ds : List Command) :
    let s := run fuel {} cs
    let s' := run fuel s ds
    (∀ e n, (perform fuel s (.norm e)).2.outcome = .ok (some n) →
      ∃ n', (perform fuel s' (.norm e)).2.outcome = .ok (some n') ∧ n.alphaEquiv n') ∧
    ∀ loc type a b,
      ((perform fuel s (.checkSame loc type a b)).2.outcome = .ok none →
        (perform fuel s' (.checkSame loc type a b)).2.outcome = .ok none) ∧
      ∀ x, (perform fuel s (.checkSame loc type a b)).2.outcome = .error (.stop x) →
        x.code = .notSame →
          ∃ x', (perform fuel s' (.checkSame loc type a b)).2.outcome = .error (.stop x') ∧
            x'.code = .notSame ∧ x'.loc = x.loc := by
  intro s s'
  have h : s.context.Grows s'.context := grows_run fuel cs ds
  have hs := (settled_run fuel cs).selfMatched
  refine ⟨fun e n hn ↦ ?_, fun loc type a b ↦ ⟨fun hab ↦ ?_, fun x hx hcode ↦ ?_⟩⟩
  · rw [outcome_norm_eq_ok_iff] at hn
    obtain ⟨n', hn', hm⟩ := h.norm hs hn
    exact ⟨n', outcome_norm_eq_ok_iff.2 hn', hm.alphaEquiv fun hab ↦ hab.1⟩
  · rw [outcome_checkSame_eq_ok_iff] at hab ⊢
    obtain ⟨⟨⟩, hab', -⟩ := (h.checkSame hs loc type a b).ok hab
    exact hab'
  · rw [outcome_checkSame_eq_error_iff] at hx
    obtain ⟨x', hx', hc, hl⟩ := (h.checkSame hs loc type a b).stop hx (by simp [hcode])
    exact ⟨x', outcome_checkSame_eq_error_iff.2 hx', hc.trans hcode, hl⟩

/-- Two names that are claimed later are the ones that were chosen for bound variables before. -/
theorem later_commands_keep_answers_renamed :
    let s := run 9 {} twoFunctions
    let s' := run 9 s [.claim {} "x" (.const {} .nat), .claim {} "a" (.const {} .nat)]
    (∃ n n', (perform 9 s (.norm (.var {} "g"))).2.outcome = .ok (some n) ∧
      (perform 9 s' (.norm (.var {} "g"))).2.outcome = .ok (some n') ∧ n ≠ n' ∧ n.alphaEquiv n') ∧
    (perform 9 s' (.checkSame {} .natToNat (.var {} "g") (.expanded "g" "b"))).2.outcome =
      .ok none ∧
    ∃ x, (perform 9 s' (.checkSame {} (.const {} .nat) (.numeral {} 0) (.numeral {} 1))).2.outcome =
      .error (.stop x) ∧ x.code = .notSame := by
  have h := later_commands_keep_answers 9 twoFunctions
    [.claim {} "x" (.const {} .nat), .claim {} "a" (.const {} .nat)]
  refine ⟨?_, (h.2 {} .natToNat (.var {} "g") (.expanded "g" "b")).1 (by decide +kernel), ?_⟩
  · obtain ⟨n', hn', hα⟩ := h.1 (.var {} "g")
      (.the (.pi "x" (.const .nat) (.const .nat)) (.lam "a" (.var "a"))) (by decide +kernel)
    refine ⟨_, n', by decide +kernel, hn', ?_, hα⟩
    rintro rfl
    exact absurd hn' (by decide +kernel)
  · obtain ⟨x, hx, hc, -⟩ := (h.2 {} (.const {} .nat) (.numeral {} 0) (.numeral {} 1)).2
      ⟨.notSame, {}, ["The expressions", Term.const .zero, "and", Term.unary .add1 (.const .zero),
        "are not the same", Term.const .nat]⟩ (by decide +kernel) rfl
    exact ⟨x, hx, hc⟩

end Session

end LittleTypes
