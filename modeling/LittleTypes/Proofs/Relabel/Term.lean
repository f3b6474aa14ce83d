import LittleTypes.Term.Alpha
import LittleTypes.Term.Print

/-!
# Terms with other locations

A relabelling gives every location another one, and no two the same.  Terms carry locations only in
their unfinished expressions, where they tell one unfinished expression from another.  So terms that
are relabelled have the same names, the same text, and are α-equivalent if they were before.
-/

namespace LittleTypes

/-- Other locations for all locations.  What is missing stands at the beginning before and after. -/
structure Relabelling where
  /-- The location that takes the place of a location. -/
  map : Location → Location
  /-- Different locations stay different. -/
  injective : Function.Injective map
  /-- The location of what is missing stays. -/
  origin : map {} = {}

/-- All positions twice as far from the beginning. -/
def Relabelling.doubled : Relabelling where
  map l := ⟨2 * l.start, 2 * l.finish⟩
  injective := by
    rintro ⟨i, j⟩ ⟨i', j'⟩ h
    simp only [Location.mk.injEq] at h ⊢
    omega
  origin := rfl

/-- The term with other locations. -/
def Term.relabel (ρ : Relabelling) : Term → Term
  | missing => missing
  | var x => var x
  | hole l t => hole (ρ.map l) (t.relabel ρ)
  | the t e => the (t.relabel ρ) (e.relabel ρ)
  | app f a => app (f.relabel ρ) (a.relabel ρ)
  | numeral n => numeral n
  | quote s => quote s
  | lam x b => lam x (b.relabel ρ)
  | pi x a b => pi x (a.relabel ρ) (b.relabel ρ)
  | sigma x a b => sigma x (a.relabel ρ) (b.relabel ρ)
  | const k => const k
  | unary k a => unary k (a.relabel ρ)
  | binary k a b => binary k (a.relabel ρ) (b.relabel ρ)
  | equal t l r => equal (t.relabel ρ) (l.relabel ρ) (r.relabel ρ)
  | project k t => project k (t.relabel ρ)
  | recursor k t c b s => recursor k (t.relabel ρ) (c.relabel ρ) (b.relabel ρ) (s.relabel ρ)
  | induct k t m b s => induct k (t.relabel ρ) (m.relabel ρ) (b.relabel ρ) (s.relabel ρ)
  | transport k t m b => transport k (t.relabel ρ) (m.relabel ρ) (b.relabel ρ)
  | indAbsurd t m => indAbsurd (t.relabel ρ) (m.relabel ρ)
  | trans l r => trans (l.relabel ρ) (r.relabel ρ)
  | cong t c f => cong (t.relabel ρ) (c.relabel ρ) (f.relabel ρ)
  | indVec n t m b s =>
    indVec (n.relabel ρ) (t.relabel ρ) (m.relabel ρ) (b.relabel ρ) (s.relabel ρ)

namespace Term

variable (ρ : Relabelling)

@[simp] theorem isAbsurd_relabel (t : Term) : (t.relabel ρ).isAbsurd = t.isAbsurd := by
  cases t <;> rfl

@[simp] theorem names_relabel (t : Term) : (t.relabel ρ).names = t.names := by
  induction t <;> simp only [relabel, names, *]

theorem renderIn_relabel (inSpine : Bool) (t : Term) :
    (t.relabel ρ).renderIn inSpine = t.renderIn inSpine := by
  induction t generalizing inSpine <;> simp only [relabel, renderIn, *]

/-- A term is written without its locations. -/
@[simp] theorem render_relabel (t : Term) : (t.relabel ρ).render = t.render :=
  renderIn_relabel ρ false t

theorem alphaUnder_relabel (σ : List (String × String)) (t u : Term) :
    (t.relabel ρ).alphaUnder σ (u.relabel ρ) = t.alphaUnder σ u := by
  -- terms of different forms are never equivalent, before or after
  induction t generalizing σ u <;> cases u <;>
    first | rfl | simp only [relabel, alphaUnder, ρ.injective.eq_iff, isAbsurd_relabel, *]

@[simp] theorem alphaEquiv_relabel (t u : Term) :
    (t.relabel ρ).alphaEquiv (u.relabel ρ) = t.alphaEquiv u :=
  alphaUnder_relabel ρ [] t u

end Term

end LittleTypes
