import LittleTypes.Name.Letter

/-!
# Names

Two kinds of words appear in programs: variable names, which may be any text that the language
does not use for itself, and atom symbols, which are made of letters and hyphens.
-/

namespace LittleTypes

/-- The words that the language keeps for itself. -/
def keywords : List String :=
  ["U",
   "Nat", "zero", "add1", "which-Nat", "iter-Nat", "rec-Nat", "ind-Nat",
   "->", "→", "Π", "Pi", "∏", "λ", "lambda",
   "Σ", "Sigma", "Pair", "cons", "car", "cdr",
   "Atom", "quote",
   "Trivial", "sole",
   "List", "::", "nil", "rec-List", "ind-List",
   "Absurd", "ind-Absurd",
   "=", "same", "replace", "trans", "cong", "symm", "ind-=",
   "Vec", "vecnil", "vec::", "head", "tail", "ind-Vec",
   "Either", "left", "right", "ind-Either",
   "TODO", "the",
   "claim", "define", "check-same"]

/-- A program may bind any name that is not empty and not a keyword. -/
def isVariableName (x : String) : Bool := x != "" && !keywords.contains x

/-- An atom symbol is a non-empty run of letters and hyphens. -/
def isAtomSymbol (s : String) : Bool :=
  s != "" && s.toList.all fun c ↦ c == '-' || isLetter c

end LittleTypes
