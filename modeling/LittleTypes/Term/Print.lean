import LittleTypes.Term.Basic

/-!
# Written terms

Terms are written as parenthesised forms, the way a programmer would write them, except that an
unfinished expression is only marked.
-/

namespace LittleTypes

namespace Term

/-- A form is its word and its written arguments in parentheses. -/
def form (word : String) (args : List String) : String :=
  "(" ++ word ++ args.foldr (fun a rest ↦ " " ++ a ++ rest) "" ++ ")"

/-- A type that binds a name, with the type of the name. -/
def binderForm (word x dom cod : String) : String :=
  "(" ++ word ++ " ((" ++ x ++ " " ++ dom ++ ")) " ++ cod ++ ")"

/-- How a term is written.  Applications of applications share one pair of parentheses, so inside
the function position of an application (`inSpine`) an application is written without its own. -/
def renderIn (inSpine : Bool) : Term → String
  | missing => "nil"
  | var x => x
  | hole _ _ => "TODO"
  | the t e => form "the" [t.renderIn false, e.renderIn false]
  | app f a =>
    let spine := f.renderIn true ++ " " ++ a.renderIn false
    if inSpine then spine else "(" ++ spine ++ ")"
  | numeral n => toString n
  | quote s => "'" ++ s
  | lam x b => "(λ (" ++ x ++ ") " ++ b.renderIn false ++ ")"
  | pi x a b => binderForm "Π" x (a.renderIn false) (b.renderIn false)
  | sigma x a b => binderForm "Σ" x (a.renderIn false) (b.renderIn false)
  | const k => k.keyword
  | unary k a => form k.keyword [a.renderIn false]
  | binary k a b => form k.keyword [a.renderIn false, b.renderIn false]
  | equal t l r => form "=" [t.renderIn false, l.renderIn false, r.renderIn false]
  | project k t => form k.keyword [t.renderIn false]
  | recursor k t baseType base s =>
    form k.keyword
      [t.renderIn false, form "the" [baseType.renderIn false, base.renderIn false],
        s.renderIn false]
  | induct k t m b s =>
    form k.keyword [t.renderIn false, m.renderIn false, b.renderIn false, s.renderIn false]
  | transport k t m b => form k.keyword [t.renderIn false, m.renderIn false, b.renderIn false]
  | indAbsurd t m => form "ind-Absurd" [t.renderIn false, m.renderIn false]
  | trans l r => form "trans" [l.renderIn false, r.renderIn false]
  | cong t c f => form "cong" [t.renderIn false, c.renderIn false, f.renderIn false]
  | indVec n t m b s =>
    form "ind-Vec"
      [n.renderIn false, t.renderIn false, m.renderIn false, b.renderIn false, s.renderIn false]

/-- How a term is written. -/
def render (t : Term) : String := t.renderIn false

end Term

end LittleTypes
