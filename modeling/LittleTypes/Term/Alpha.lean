import LittleTypes.Term.Basic

/-!
# Terms up to the names of binders

Two terms are α-equivalent when they differ only in the names of their bound variables, with one
exception: any two terms that are marked as elements of the empty type are equivalent, because
that type has no elements to tell apart.  A missing term is equivalent to nothing.
-/

namespace LittleTypes

namespace Term

/-- Whether two variables mean the same under the binders passed so far, innermost first.  The
innermost binder of either name decides: it has to bind both. -/
def sameVariable : List (String × String) → String → String → Bool
  | [], x, y => x == y
  | (a, b) :: binders, x, y =>
    if a = x then b = y else if b = y then false else sameVariable binders x y

/-- α-equivalence under pairs of corresponding binders. -/
def alphaUnder (ρ : List (String × String)) : Term → Term → Bool
  | var x, var y => sameVariable ρ x y
  | hole l t, hole l' t' => l = l' && t.alphaUnder ρ t'
  | the t e, the t' e' => (t.isAbsurd && t'.isAbsurd) || (t.alphaUnder ρ t' && e.alphaUnder ρ e')
  | app f a, app f' a' => f.alphaUnder ρ f' && a.alphaUnder ρ a'
  | numeral n, numeral n' => n = n'
  | quote s, quote s' => s = s'
  | lam x b, lam y b' => b.alphaUnder ((x, y) :: ρ) b'
  | pi x a b, pi y a' b' => a.alphaUnder ρ a' && b.alphaUnder ((x, y) :: ρ) b'
  | sigma x a b, sigma y a' b' => a.alphaUnder ρ a' && b.alphaUnder ((x, y) :: ρ) b'
  | const k, const k' => k = k'
  | unary k a, unary k' a' => k = k' && a.alphaUnder ρ a'
  | binary k a b, binary k' a' b' => k = k' && a.alphaUnder ρ a' && b.alphaUnder ρ b'
  | equal t l r, equal t' l' r' => t.alphaUnder ρ t' && l.alphaUnder ρ l' && r.alphaUnder ρ r'
  | project k t, project k' t' => k = k' && t.alphaUnder ρ t'
  | recursor k t c b s, recursor k' t' c' b' s' =>
    k = k' && t.alphaUnder ρ t' &&
      ((c.isAbsurd && c'.isAbsurd) || (c.alphaUnder ρ c' && b.alphaUnder ρ b')) && s.alphaUnder ρ s'
  | induct k t m b s, induct k' t' m' b' s' =>
    k = k' && t.alphaUnder ρ t' && m.alphaUnder ρ m' && b.alphaUnder ρ b' && s.alphaUnder ρ s'
  | transport k t m b, transport k' t' m' b' =>
    k = k' && t.alphaUnder ρ t' && m.alphaUnder ρ m' && b.alphaUnder ρ b'
  | indAbsurd t m, indAbsurd t' m' => t.alphaUnder ρ t' && m.alphaUnder ρ m'
  | trans l r, trans l' r' => l.alphaUnder ρ l' && r.alphaUnder ρ r'
  | cong t c f, cong t' c' f' => t.alphaUnder ρ t' && c.alphaUnder ρ c' && f.alphaUnder ρ f'
  | indVec n t m b s, indVec n' t' m' b' s' =>
    n.alphaUnder ρ n' && t.alphaUnder ρ t' && m.alphaUnder ρ m' && b.alphaUnder ρ b' &&
      s.alphaUnder ρ s'
  | _, _ => false

/-- Whether two terms are the same up to the names of their bound variables. -/
def alphaEquiv (t u : Term) : Bool := t.alphaUnder [] u

end Term

end LittleTypes
