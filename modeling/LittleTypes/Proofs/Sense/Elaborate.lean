import LittleTypes.Proofs.Sense.Congruence
import LittleTypes.Typing.Elaborate

/-!
# Elaboration keeps what typing guarantees

Every elaborator is sound, by induction on the source term: each rule makes sound elaborators from
sound elaborators.  Only an unfinished expression has to be elaborated in an unfinished situation.
The types that are found are normal forms, unless a motive is passed on as it is.
-/

namespace LittleTypes.Source

/-! ## Unfinished expressions -/

mutual

/-- Whether something in an expression is still to be written. -/
def hasHole : Source → Bool
  | hole _ => true
  | missing | var .. | numeral .. | quote .. | const .. => false
  | app _ f args => f.hasHole || anyHole args
  | arrow _ types => anyHole types
  | pi _ binders b | sigma _ binders b => binderHole binders || b.hasHole
  | lam _ _ a | unary _ _ a | project _ _ a => a.hasHole
  | the _ a b | pair _ a b | binary _ _ a b | indAbsurd _ a b | trans _ a b | cong _ a b =>
    a.hasHole || b.hasHole
  | equal _ a b c | recursor _ _ a b c | transport _ _ a b c => a.hasHole || b.hasHole || c.hasHole
  | induct _ _ a b c d => a.hasHole || b.hasHole || c.hasHole || d.hasHole
  | indVec _ a b c d e => a.hasHole || b.hasHole || c.hasHole || d.hasHole || e.hasHole

/-- Whether something in one of several expressions is still to be written. -/
def anyHole : List Source → Bool
  | [] => false
  | e :: es => e.hasHole || anyHole es

/-- Whether something in the types of several binders is still to be written. -/
def binderHole : List (Site × Source) → Bool
  | [] => false
  | (_, t) :: binders => t.hasHole || binderHole binders

end

/-! ## Types that are passed on -/

/-- The motive that is passed on as the type of an expression, if there is one.  What is made of an
element of the empty type has the motive for its type, and a recursion has the type of its base. -/
def lent? : Source → Option Source
  | indAbsurd _ _ m => some m
  | recursor _ _ _ b _ => b.lent?
  | _ => none

/-! ## Soundness -/

variable {R : Regime} {J : Type} {E : R.Excuse J} {o : Prop} {φ : R.Index → Nat} {say : Complaint}

open Elaborator.Settled

/-- The elaborators of a list, in the form the rules have them. -/
theorem elaborators_eq (es : List Source) (n : R.Index) :
    elaboratorsSaying say (φ n) es = (es.map fun e n ↦ e.elaboratorSaying say (φ n)).map (· n) := by
  rw [elaboratorsSaying_eq_map, List.map_map]
  rfl

theorem binderElaborators_eq (bs : List (Site × Source)) (n : R.Index) :
    binderElaboratorsSaying say (φ n) bs =
      (bs.map fun b ↦ (b.1, fun n ↦ b.2.elaboratorSaying say (φ n))).map fun b ↦ (b.1, b.2 n) := by
  rw [binderElaboratorsSaying_eq_map, List.map_map]
  rfl

mutual

theorem settledSaying (hφ : R.Lasts φ)
    (hE : ∀ j n loc x c type, Term.OnlyInAbsurd x c → E j n (say.stop loc x c type)) (e : Source)
    (h : e.hasHole → o) :
    Elaborator.Settled R J E o (e.lent? = none) fun n ↦ e.elaboratorSaying say (φ n) := by
  match e with
  | missing => exact .missing hφ
  | var l x => exact .var hφ l x
  | hole l => exact .hole hφ (h rfl) l
  | numeral l n =>
    exact plainValue hφ l (fun _ ↦ Situation.HasType.numeral n) (.numeral n)
  | quote l s => exact .quote hφ l s
  | const l k => exact .const hφ l k
  | app l f args =>
    simp only [hasHole, Bool.or_eq_true, or_imp] at h
    simp only [elaboratorSaying, elaborators_eq]
    exact .app hφ l (settledSaying hφ hE f h.1).toSound
      (List.forall_mem_map.2 (soundAll hφ hE args h.2))
  | arrow l types =>
    simp only [elaboratorSaying, elaborators_eq]
    exact .arrow hφ l (List.forall_mem_map.2 (soundAll hφ hE types h))
  | lam l xs b => exact .lambda hφ l xs (settledSaying hφ hE b h).toSound
  | pi l bs b =>
    simp only [hasHole, Bool.or_eq_true, or_imp] at h
    simp only [elaboratorSaying, binderElaborators_eq]
    exact .pi hφ l (List.forall_mem_map.2 (soundBinders hφ hE bs h.1))
      (settledSaying hφ hE b h.2).toSound
  | sigma l bs b =>
    simp only [hasHole, Bool.or_eq_true, or_imp] at h
    simp only [elaboratorSaying, binderElaborators_eq]
    exact .sigma hφ l (List.forall_mem_map.2 (soundBinders hφ hE bs h.1))
      (settledSaying hφ hE b h.2).toSound
  | unary l k a => exact .unary hφ l (settledSaying hφ hE a h).toSound k
  | project l k a => exact .project hφ l (settledSaying hφ hE a h).toSound k
  | the l a b =>
    simp only [hasHole, Bool.or_eq_true, or_imp] at h
    exact .the hφ l (settledSaying hφ hE a h.1).toSound (settledSaying hφ hE b h.2).toSound
  | pair l a b =>
    simp only [hasHole, Bool.or_eq_true, or_imp] at h
    exact .pair hφ l (settledSaying hφ hE a h.1).toSound (settledSaying hφ hE b h.2).toSound
  | binary l k a b =>
    simp only [hasHole, Bool.or_eq_true, or_imp] at h
    exact .binary hφ l (settledSaying hφ hE a h.1).toSound (settledSaying hφ hE b h.2).toSound k
  | indAbsurd l a b =>
    simp only [hasHole, Bool.or_eq_true, or_imp] at h
    exact .indAbsurd hφ l (settledSaying hφ hE a h.1).toSound (settledSaying hφ hE b h.2).toSound
      nofun
  | trans l a b =>
    simp only [hasHole, Bool.or_eq_true, or_imp] at h
    exact .trans hφ l (settledSaying hφ hE a h.1).toSound (settledSaying hφ hE b h.2).toSound
  | cong l a b =>
    simp only [hasHole, Bool.or_eq_true, or_imp] at h
    exact .congSaying hφ l hE (settledSaying hφ hE a h.1).toSound
      (settledSaying hφ hE b h.2).toSound
  | equal l a b c =>
    simp only [hasHole, Bool.or_eq_true, or_imp] at h
    exact .equal hφ l (settledSaying hφ hE a h.1.1).toSound (settledSaying hφ hE b h.1.2).toSound
      (settledSaying hφ hE c h.2).toSound
  | recursor l k a b c =>
    simp only [hasHole, Bool.or_eq_true, or_imp] at h
    exact .recursor hφ l (settledSaying hφ hE a h.1.1).toSound (settledSaying hφ hE c h.2).toSound
      (settledSaying hφ hE b h.1.2) k
  | transport l k a b c =>
    simp only [hasHole, Bool.or_eq_true, or_imp] at h
    exact .transport hφ l (settledSaying hφ hE a h.1.1).toSound (settledSaying hφ hE b h.1.2).toSound
      (settledSaying hφ hE c h.2).toSound k
  | induct l k a b c d =>
    simp only [hasHole, Bool.or_eq_true, or_imp] at h
    exact .induct hφ l (settledSaying hφ hE a h.1.1.1).toSound (settledSaying hφ hE b h.1.1.2).toSound
      (settledSaying hφ hE c h.1.2).toSound (settledSaying hφ hE d h.2).toSound k
  | indVec l a b c d e =>
    simp only [hasHole, Bool.or_eq_true, or_imp] at h
    exact .indVec hφ l (settledSaying hφ hE a h.1.1.1.1).toSound
      (settledSaying hφ hE b h.1.1.1.2).toSound
      (settledSaying hφ hE c h.1.1.2).toSound (settledSaying hφ hE d h.1.2).toSound
      (settledSaying hφ hE e h.2).toSound

theorem soundAll (hφ : R.Lasts φ)
    (hE : ∀ j n loc x c type, Term.OnlyInAbsurd x c → E j n (say.stop loc x c type))
    (es : List Source) (h : anyHole es → o) :
    ∀ e ∈ es, Elaborator.Sound R J E o fun n ↦ e.elaboratorSaying say (φ n) := by
  match es with
  | [] => simp
  | e :: es =>
    simp only [anyHole, Bool.or_eq_true, or_imp] at h
    exact List.forall_mem_cons.2 ⟨(settledSaying hφ hE e h.1).toSound, soundAll hφ hE es h.2⟩

theorem soundBinders (hφ : R.Lasts φ)
    (hE : ∀ j n loc x c type, Term.OnlyInAbsurd x c → E j n (say.stop loc x c type))
    (bs : List (Site × Source)) (h : binderHole bs → o) :
    ∀ b ∈ bs, Elaborator.Sound R J E o fun n ↦ b.2.elaboratorSaying say (φ n) := by
  match bs with
  | [] => simp
  | (x, t) :: bs =>
    simp only [binderHole, Bool.or_eq_true, or_imp] at h
    exact List.forall_mem_cons.2 ⟨(settledSaying hφ hE t h.1).toSound, soundBinders hφ hE bs h.2⟩

end

theorem settled (hφ : R.Lasts φ) (e : Source) (h : e.hasHole → o) :
    Elaborator.Settled R J R.allExcused o (e.lent? = none) fun n ↦ e.elaborator (φ n) := by
  have he : Elaborator.Settled R J R.allExcused o (e.lent? = none) fun n ↦
      e.elaboratorSaying .plain (φ n) := settledSaying hφ (fun _ _ _ _ _ _ _ ↦ trivial) e h
  simpa only [elaboratorSaying_plain] using he

theorem sound (hφ : R.Lasts φ) (e : Source) (h : e.hasHole → o) :
    Elaborator.Sound R J R.allExcused o fun n ↦ e.elaborator (φ n) := (settled hφ e h).toSound

end LittleTypes.Source
