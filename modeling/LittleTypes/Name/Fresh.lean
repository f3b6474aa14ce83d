/-!
# Fresh names

A fresh name is made from a hint by counting up its subscript: `x`, `x₁`, `x₂` and so on.  A hint
that is itself subscripted goes on from its own number, so that `x₃` is followed by `x₄`.
-/

namespace LittleTypes

namespace Subscript

/-- The decimal digit that a subscript character stands for. -/
def digit? (c : Char) : Option Nat :=
  if '₀' ≤ c ∧ c ≤ '₉' then some (c.toNat - '₀'.toNat) else none

/-- The subscript character of a decimal digit. -/
def ofDigit (d : Nat) : Char := Char.ofNat ('₀'.toNat + d)

/-- A number written in subscript digits; zero is written as nothing at all. -/
def render (n : Nat) : String :=
  if n = 0 then ""
  else String.ofList ((Nat.toDigits 10 n).map fun c ↦ ofDigit (c.toNat - '0'.toNat))

/-- The longest subscript that is read as a number. -/
def maxDigits : Nat := 9

/-- A name apart into what stands before its subscript and the number that the subscript writes.
A name whose subscript is longer than `maxDigits` counts as having none. -/
def split (x : String) : String × Nat :=
  let tail := x.toList.reverse.takeWhile fun c ↦ (digit? c).isSome
  if tail.length > maxDigits then (x, 0)
  else
    (String.ofList (x.toList.take (x.toList.length - tail.length)),
      tail.foldr (fun c n ↦ n * 10 + (digit? c).getD 0) 0)

end Subscript

namespace Fresh

/-- The first of `base` with subscripts `n + 1`, `n + 2`, … that is not among the used names,
looking at no more than `bound` of them. -/
def search (used : List String) (base : String) : (bound n : Nat) → String
  | 0, n => base ++ Subscript.render (n + 1)
  | bound + 1, n =>
    let candidate := base ++ Subscript.render (n + 1)
    if used.contains candidate then search used base bound (n + 1) else candidate

end Fresh

/-- The hint itself if it is unused, and otherwise the hint with the smallest larger subscript
that is unused. One candidate more than there are used names is always enough. -/
def freshName (used : List String) (hint : String) : String :=
  if used.contains hint then
    let (base, n) := Subscript.split hint
    Fresh.search used base used.length n
  else hint

end LittleTypes
