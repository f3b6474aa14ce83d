import LittleTypes.Context.Listing
import LittleTypes.Proofs.Sense.Elaborate

/-!
# Situations that are built by declarations

The situations in which a program is checked: names are added one by one, each with a type and maybe
with an element of it.  In such a situation what is known of a claimed name is a type, and all names
can be listed with normal forms.
-/

namespace LittleTypes.Situation

open Idealized (Size)

variable {R : Regime} {J : Type} {o : Prop} {S : Situation R J} {s : Size} {x : String}

/-- The situations that are built by declarations. -/
inductive Declared (o : Prop) : Situation R J → Prop
  | empty : Declared o (.empty R J o)
  | bind {S : Situation R J} {x : String} {T : Sense J} {d : J → R.Index → Value} :
    Declared o S → x ∉ S.names → S.IsType .large T → S.Means d T → Declared o (S.bind x T d)
  | claim {S : Situation R J} {T : Sense J} {d : J → R.Index → Value} (x : String) :
    Declared o S → S.IsType .large T → S.Means d T → Declared o (S.claim x d)
  | define {S : Situation R J} {x : String} {T v : Sense J} {d w : J → R.Index → Value} :
    Declared o S → S.levels x = none → S.IsElem T v → S.Means d T → S.Means w v →
      Declared o (S.define x T v d w)

theorem Declared.coherent (h : S.Declared o) : S.Coherent := by
  induction h with
  | empty => exact coherent_empty o
  | bind _ hx hT hd ih => exact coherent_bind ih hx hT hd
  | claim x _ _ _ ih => exact coherent_claim ih x _
  | define _ hx hv hd hw ih => exact coherent_define ih hx hv hd hw

theorem Declared.unfinished_iff (h : S.Declared o) : S.unfinished ↔ o := by
  induction h with
  | empty => exact Iff.rfl
  | bind _ _ _ _ ih | claim _ _ _ _ ih | define _ _ _ _ _ ih => exact ih

/-- A name that stands for an unknown value has a level. -/
theorem Declared.level_of_free (h : S.Declared o) {j : J} {n : R.Index} {t : Value}
    (hx : (x, .free t) ∈ S.context j n) : ∃ i, S.levels x = some i := by
  induction h with
  | empty => cases hx
  | @bind S y T d _ _ _ _ ih =>
    by_cases e : x = y
    · exact ⟨S.size, e ▸ Levels.bind_self _ _ _⟩
    · obtain ⟨i, hi⟩ := ih ((List.mem_cons.1 hx).resolve_left fun h ↦ e (congrArg Prod.fst h))
      exact ⟨i, (Levels.bind_of_ne _ _ e).trans hi⟩
  | claim _ _ _ _ ih | define _ _ _ _ _ ih => exact ih ((List.mem_cons.1 hx).resolve_left nofun)

/-! ## Claimed names -/

section Weaken

variable {F T v : Sense J} {d w : J → R.Index → Value}

theorem IsType.bind (h : S.IsType s F) : (S.bind x T d).IsType s fun σ ↦ F σ.tail := by
  rintro L hL ω _ ⟨σ, a, hσ, -, rfl⟩
  exact h hL hσ

theorem IsType.define (h : S.IsType s F) : (S.define x T v d w).IsType s fun σ ↦ F σ.tail := by
  rintro L hL ω _ ⟨σ, hσ, rfl⟩
  exact h hL hσ

end Weaken

/-- What the contexts have to say about a name: nothing, or that it is claimed, with a type, or
something else. -/
theorem Declared.binding (h : S.Declared o) (x : String) :
    (∀ j n, (S.context j n).binding? x = none) ∨
    (∃ (T : Sense J) (d : J → R.Index → Value), S.IsType .large T ∧ S.Means d T ∧
      ∀ j n, (S.context j n).binding? x = some (.claim (d j n))) ∨
    ∃ b : J → R.Index → Binding, (∀ j n t, b j n ≠ .claim t) ∧
      ∀ j n, (S.context j n).binding? x = some (b j n) := by
  induction h with
  | empty => exact .inl fun _ _ ↦ rfl
  | @bind S y T d hS hy _ _ ih =>
    by_cases e : x = y
    · subst e
      exact .inr (.inr ⟨fun j n ↦ .free (d j n), nofun, fun j n ↦ List.lookup_cons_self⟩)
    · have hl : ∀ j n, ((S.bind y T d).context j n).binding? x = (S.context j n).binding? x :=
        fun j n ↦ Context.binding?_cons_of_ne e _
      simp only [hl]
      refine ih.imp_right (Or.imp_left ?_)
      rintro ⟨F, f, hF, hf, h⟩
      exact ⟨_, f, hF.bind, hS.coherent.means_bind hy hf, h⟩
  | @claim S T d y hS hT hd ih =>
    by_cases e : x = y
    · subst e
      exact .inr (.inl ⟨T, d, hT, hd, fun j n ↦ List.lookup_cons_self⟩)
    · have hl : ∀ j n, ((S.claim y d).context j n).binding? x = (S.context j n).binding? x :=
        fun j n ↦ Context.binding?_cons_of_ne e _
      simp only [hl]
      exact ih
  | @define S y T v d w hS _ _ _ _ ih =>
    by_cases e : x = y
    · subst e
      exact .inr (.inr ⟨fun j n ↦ .defn (d j n) (w j n), nofun, fun j n ↦ List.lookup_cons_self⟩)
    · have hl : ∀ j n, ((S.define y T v d w).context j n).binding? x =
          (S.context j n).binding? x := fun j n ↦ Context.binding?_cons_of_ne e _
      simp only [hl]
      refine ih.imp_right (Or.imp_left ?_)
      rintro ⟨F, f, hF, hf, h⟩
      exact ⟨_, f, hF.define, hf, h⟩

/-! ## Listings -/

section Listing

variable {φ : R.Index → Nat}

/-- All names can be listed, and the listing does not depend on the fuel. -/
theorem Declared.listing (hφ : R.Lasts φ) (h : S.Declared o) (j : J) :
    ∃ l, R.Yields .outOfFuel (fun n ↦ (S.context j n).listing (φ n)) fun _ ↦ l := by
  induction h with
  | empty => exact ⟨[], .pure _⟩
  | @bind S y T d hS _ hT hd ih =>
    obtain ⟨l, hl⟩ := ih
    obtain ⟨t, -, ht⟩ := hS.coherent.reads hφ (fun j ↦ .type (hd j)) (hT.reads hS.coherent)
    exact ⟨_, (ht j).bind (hl.bind (.pure fun _ ↦ ⟨y, .free, t j, none⟩ :: l))⟩
  | @claim S T d y hS hT hd ih =>
    obtain ⟨l, hl⟩ := ih
    obtain ⟨t, -, ht⟩ := hS.coherent.reads hφ (fun j ↦ .type (hd j)) (hT.reads hS.coherent)
    exact ⟨_, (ht j).bind (hl.bind (.pure fun _ ↦ ⟨y, .claim, t j, none⟩ :: l))⟩
  | @define S y T v d w hS _ hv hd hw ih =>
    obtain ⟨l, hl⟩ := ih
    obtain ⟨t, -, ht⟩ := hS.coherent.reads hφ (fun j ↦ .type (hd j)) (hv.isType.reads hS.coherent)
    obtain ⟨u, -, hu⟩ := hS.coherent.reads hφ (fun j ↦ .value (hd j) (hw j))
      (hv.reads hS.coherent)
    have hsome : R.Yields .outOfFuel
        (fun n ↦ some <$> (S.context j n).readBack (φ n) (d j n) (w j n)) fun _ ↦ some (u j) :=
      (hu j).map some
    exact ⟨_, (ht j).bind (hsome.bind (hl.bind (.pure fun _ ↦ ⟨y, .defn, t j, some (u j)⟩ :: l)))⟩

end Listing

end LittleTypes.Situation
