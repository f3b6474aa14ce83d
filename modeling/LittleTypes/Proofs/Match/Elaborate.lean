import LittleTypes.Proofs.Match.Rules

/-!
# Elaboration does not look at the names of bound variables

Two source terms are renamings of each other when they are written alike, at the same locations, and
their names correspond: a binder pairs the two names it binds.  Their elaborations end alike.
-/

namespace LittleTypes

namespace Source

mutual

/-- Source terms that differ only in the names of bound variables.  The pairing says which names
correspond that are not bound in the terms themselves. -/
inductive Renamed : Pairing → Source → Source → Prop
  | missing {P : Pairing} : Renamed P missing missing
  | var {P : Pairing} {l : Location} {x y : String} : P x y → Renamed P (var l x) (var l y)
  | hole {P : Pairing} {l : Location} : Renamed P (hole l) (hole l)
  | the {P : Pairing} {l : Location} {t t' e e' : Source} :
    Renamed P t t' → Renamed P e e' → Renamed P (the l t e) (the l t' e')
  | app {P : Pairing} {l : Location} {f f' : Source} {as as' : List Source} :
    Renamed P f f' → RenamedAll P as as' → Renamed P (app l f as) (app l f' as')
  | numeral {P : Pairing} {l : Location} {n : Nat} : Renamed P (numeral l n) (numeral l n)
  | quote {P : Pairing} {l : Location} {s : String} : Renamed P (quote l s) (quote l s)
  | lam {P : Pairing} {l : Location} {xs xs' : List Site} {b b' : Source} :
    RenamedUnder P xs b xs' b' → Renamed P (lam l xs b) (lam l xs' b')
  | pi {P : Pairing} {l : Location} {xs xs' : List (Site × Source)} {b b' : Source} :
    RenamedBinders P xs b xs' b' → Renamed P (pi l xs b) (pi l xs' b')
  | sigma {P : Pairing} {l : Location} {xs xs' : List (Site × Source)} {b b' : Source} :
    RenamedBinders P xs b xs' b' → Renamed P (sigma l xs b) (sigma l xs' b')
  | arrow {P : Pairing} {l : Location} {ts ts' : List Source} :
    RenamedAll P ts ts' → Renamed P (arrow l ts) (arrow l ts')
  | pair {P : Pairing} {l : Location} {a a' d d' : Source} :
    Renamed P a a' → Renamed P d d' → Renamed P (pair l a d) (pair l a' d')
  | const {P : Pairing} {l : Location} {k : Const} : Renamed P (const l k) (const l k)
  | unary {P : Pairing} {l : Location} {k : Unary} {a a' : Source} :
    Renamed P a a' → Renamed P (unary l k a) (unary l k a')
  | binary {P : Pairing} {l : Location} {k : Binary} {a a' b b' : Source} :
    Renamed P a a' → Renamed P b b' → Renamed P (binary l k a b) (binary l k a' b')
  | equal {P : Pairing} {l : Location} {t t' a a' b b' : Source} :
    Renamed P t t' → Renamed P a a' → Renamed P b b' →
      Renamed P (equal l t a b) (equal l t' a' b')
  | project {P : Pairing} {l : Location} {k : Projection} {t t' : Source} :
    Renamed P t t' → Renamed P (project l k t) (project l k t')
  | recursor {P : Pairing} {l : Location} {k : Recursor} {t t' b b' s s' : Source} :
    Renamed P t t' → Renamed P b b' → Renamed P s s' →
      Renamed P (recursor l k t b s) (recursor l k t' b' s')
  | induct {P : Pairing} {l : Location} {k : Induction} {t t' m m' b b' s s' : Source} :
    Renamed P t t' → Renamed P m m' → Renamed P b b' → Renamed P s s' →
      Renamed P (induct l k t m b s) (induct l k t' m' b' s')
  | transport {P : Pairing} {l : Location} {k : Transport} {t t' m m' b b' : Source} :
    Renamed P t t' → Renamed P m m' → Renamed P b b' →
      Renamed P (transport l k t m b) (transport l k t' m' b')
  | indAbsurd {P : Pairing} {l : Location} {t t' m m' : Source} :
    Renamed P t t' → Renamed P m m' → Renamed P (indAbsurd l t m) (indAbsurd l t' m')
  | trans {P : Pairing} {l : Location} {a a' b b' : Source} :
    Renamed P a a' → Renamed P b b' → Renamed P (trans l a b) (trans l a' b')
  | cong {P : Pairing} {l : Location} {t t' f f' : Source} :
    Renamed P t t' → Renamed P f f' → Renamed P (cong l t f) (cong l t' f')
  | indVec {P : Pairing} {l : Location} {n n' t t' m m' b b' s s' : Source} :
    Renamed P n n' → Renamed P t t' → Renamed P m m' → Renamed P b b' → Renamed P s s' →
      Renamed P (indVec l n t m b s) (indVec l n' t' m' b' s')

/-- Several source terms that differ only in the names of bound variables. -/
inductive RenamedAll : Pairing → List Source → List Source → Prop
  | nil {P : Pairing} : RenamedAll P [] []
  | cons {P : Pairing} {e e' : Source} {es es' : List Source} :
    Renamed P e e' → RenamedAll P es es' → RenamedAll P (e :: es) (e' :: es')

/-- Source terms under parameters, whose names may differ. -/
inductive RenamedUnder : Pairing → List Site → Source → List Site → Source → Prop
  | nil {P : Pairing} {b b' : Source} : Renamed P b b' → RenamedUnder P [] b [] b'
  | cons {P : Pairing} {site site' : Site} {xs xs' : List Site} {b b' : Source} :
    site.Matches site' → RenamedUnder (P.bind site.name site'.name) xs b xs' b' →
      RenamedUnder P (site :: xs) b (site' :: xs') b'

/-- Source terms under binders, whose names may differ. -/
inductive RenamedBinders : Pairing → List (Site × Source) → Source → List (Site × Source) →
    Source → Prop
  | nil {P : Pairing} {b b' : Source} : Renamed P b b' → RenamedBinders P [] b [] b'
  | cons {P : Pairing} {site site' : Site} {t t' : Source} {xs xs' : List (Site × Source)}
    {b b' : Source} :
    site.Matches site' → Renamed P t t' →
      RenamedBinders (P.bind site.name site'.name) xs b xs' b' →
      RenamedBinders P ((site, t) :: xs) b ((site', t') :: xs') b'

end

variable {say say' : Complaint}

open Rule in
mutual

/-- The elaborators of renamings of a term end alike, whatever is said of functions that are
dependent. -/
theorem Renamed.matchesSaying (fuel : Nat) {P : Pairing} {e e' : Source} (h : Renamed P e e') :
    (e.elaboratorSaying say fuel).Matches P (e'.elaboratorSaying say' fuel) := by
  match h with
  | .missing => exact .missing
  | .var h => exact matches_var _ h
  | .hole => exact matches_hole _
  | .the ht he => exact matches_the _ (ht.matchesSaying fuel) (he.matchesSaying fuel)
  | .app hf ha => exact matches_app _ (hf.matchesSaying fuel) (ha.matchesSaying fuel)
  | .numeral => exact matches_numeral _ _
  | .quote => exact matches_quote _ _
  | .lam h => exact matches_lambda _ (h.matchesSaying fuel)
  | .pi h => exact matches_pi _ (h.matchesSaying fuel)
  | .sigma h => exact matches_sigma _ (h.matchesSaying fuel)
  | .arrow h => exact matches_arrow _ (h.matchesSaying fuel)
  | .pair ha hd => exact matches_pair _ (ha.matchesSaying fuel) (hd.matchesSaying fuel)
  | .const => exact matches_const _ _
  | .unary ha => exact matches_unary _ _ (ha.matchesSaying fuel)
  | .binary ha hb => exact matches_binary _ _ (ha.matchesSaying fuel) (hb.matchesSaying fuel)
  | .equal ht ha hb =>
    exact matches_equal _ (ht.matchesSaying fuel) (ha.matchesSaying fuel) (hb.matchesSaying fuel)
  | .project ht => exact matches_project _ _ (ht.matchesSaying fuel)
  | .recursor ht hb hs =>
    exact matches_recursor _ _ (ht.matchesSaying fuel) (hb.matchesSaying fuel)
      (hs.matchesSaying fuel)
  | .induct ht hm hb hs =>
    exact matches_induct _ _ (ht.matchesSaying fuel) (hm.matchesSaying fuel) (hb.matchesSaying fuel)
      (hs.matchesSaying fuel)
  | .transport ht hm hb =>
    exact matches_transport _ _ (ht.matchesSaying fuel) (hm.matchesSaying fuel)
      (hb.matchesSaying fuel)
  | .indAbsurd ht hm => exact matches_indAbsurd _ (ht.matchesSaying fuel) (hm.matchesSaying fuel)
  | .trans ha hb => exact matches_trans _ (ha.matchesSaying fuel) (hb.matchesSaying fuel)
  | .cong ht hf => exact matches_congSaying _ (ht.matchesSaying fuel) (hf.matchesSaying fuel)
  | .indVec hn ht hm hb hs =>
    exact matches_indVec _ (hn.matchesSaying fuel) (ht.matchesSaying fuel) (hm.matchesSaying fuel)
      (hb.matchesSaying fuel) (hs.matchesSaying fuel)

theorem RenamedAll.matchesSaying (fuel : Nat) {P : Pairing} {es es' : List Source}
    (h : RenamedAll P es es') :
    List.Forall₂ (Elaborator.Matches P) (elaboratorsSaying say fuel es)
      (elaboratorsSaying say' fuel es') := by
  match h with
  | .nil => exact .nil
  | .cons he hes => exact .cons (he.matchesSaying fuel) (hes.matchesSaying fuel)

theorem RenamedUnder.matchesSaying (fuel : Nat) {P : Pairing} {xs xs' : List Site} {b b' : Source}
    (h : RenamedUnder P xs b xs' b') :
    MatchParams P xs (b.elaboratorSaying say fuel) xs' (b'.elaboratorSaying say' fuel) := by
  match h with
  | .nil hb => exact .nil (hb.matchesSaying fuel)
  | .cons hsite h => exact .cons hsite (h.matchesSaying fuel)

theorem RenamedBinders.matchesSaying (fuel : Nat) {P : Pairing} {xs xs' : List (Site × Source)}
    {b b' : Source} (h : RenamedBinders P xs b xs' b') :
    MatchBinders P (binderElaboratorsSaying say fuel xs) (b.elaboratorSaying say fuel)
      (binderElaboratorsSaying say' fuel xs') (b'.elaboratorSaying say' fuel) := by
  match h with
  | .nil hb => exact .nil (hb.matchesSaying fuel)
  | .cons hsite ht h => exact .cons hsite (ht.matchesSaying fuel) (h.matchesSaying fuel)

end

theorem Renamed.matches (fuel : Nat) {P : Pairing} {e e' : Source} (h : Renamed P e e') :
    (e.elaborator fuel).Matches P (e'.elaborator fuel) := by
  rw [← elaboratorSaying_plain, ← elaboratorSaying_plain]
  exact h.matchesSaying fuel

/-! ## Every term is a renaming of itself -/

/-- Whatever is under parameters, whatever the names are that correspond to themselves. -/
theorem renamedUnder_self {b : Source} (hb : ∀ P : Pairing, (∀ a, P a a) → b.Renamed P b)
    {P : Pairing} (hP : ∀ a, P a a) (xs : List Site) : RenamedUnder P xs b xs b := by
  induction xs generalizing P with
  | nil => exact .nil (hb P hP)
  | cons x xs ih => exact .cons ⟨rfl, rfl⟩ (ih (Pairing.bind_refl hP))

mutual

theorem renamed_self (e : Source) (P : Pairing) (hP : ∀ a, P a a) : e.Renamed P e := by
  match e with
  | missing => exact .missing
  | var l x => exact .var (hP x)
  | app l f as => exact .app (renamed_self f P hP) (renamedAll_self as P hP)
  | lam l xs b => exact .lam (renamedUnder_self (renamed_self b) hP xs)
  | pi l xs b => exact .pi (renamedBinders_self xs (renamed_self b) P hP)
  | sigma l xs b => exact .sigma (renamedBinders_self xs (renamed_self b) P hP)
  | arrow l ts => exact .arrow (renamedAll_self ts P hP)
  | hole .. | numeral .. | quote .. | const .. => constructor
  | the _ a b | pair _ a b | binary _ _ a b | indAbsurd _ a b | trans _ a b | cong _ a b =>
    constructor
    · exact renamed_self a P hP
    · exact renamed_self b P hP
  | unary _ _ a | project _ _ a =>
    constructor
    exact renamed_self a P hP
  | equal _ a b c | recursor _ _ a b c | transport _ _ a b c =>
    constructor
    · exact renamed_self a P hP
    · exact renamed_self b P hP
    · exact renamed_self c P hP
  | induct _ _ a b c d =>
    exact .induct (renamed_self a P hP) (renamed_self b P hP) (renamed_self c P hP)
      (renamed_self d P hP)
  | indVec _ a b c d e =>
    exact .indVec (renamed_self a P hP) (renamed_self b P hP) (renamed_self c P hP)
      (renamed_self d P hP) (renamed_self e P hP)

theorem renamedAll_self (es : List Source) (P : Pairing) (hP : ∀ a, P a a) :
    RenamedAll P es es := by
  match es with
  | [] => exact .nil
  | e :: es => exact .cons (renamed_self e P hP) (renamedAll_self es P hP)

theorem renamedBinders_self (xs : List (Site × Source)) {b : Source}
    (hb : ∀ P : Pairing, (∀ a, P a a) → b.Renamed P b) (P : Pairing) (hP : ∀ a, P a a) :
    RenamedBinders P xs b xs b := by
  match xs with
  | [] => exact .nil (hb P hP)
  | (x, t) :: xs =>
    exact .cons ⟨rfl, rfl⟩ (renamed_self t P hP)
      (renamedBinders_self xs hb _ (Pairing.bind_refl hP))

end

end Source

end LittleTypes
