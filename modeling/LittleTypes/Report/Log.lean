import LittleTypes.Term.Print

/-!
# Logs

What the checker tells about its work besides its answer.  A record has a level, a message and
attributes. Which records are kept depends on a threshold, and below a warning also on the section
that a record belongs to.
-/

namespace LittleTypes

/-- How important a record is. -/
inductive Level
  | debug | info | warn | error
deriving DecidableEq

namespace Level

/-- Levels in increasing order. -/
def rank : Level → Nat
  | debug => 0
  | info => 1
  | warn => 2
  | error => 3

/-- How a level is written. -/
def render : Level → String
  | debug => "DEBUG"
  | info => "INFO"
  | warn => "WARN"
  | error => "ERROR"

end Level

/-- What an attribute can hold. -/
inductive Detail
  | text (s : String)
  | term (t : Term)
deriving DecidableEq

/-- How a detail is written. -/
def Detail.render : Detail → String
  | text s => s
  | term t => t.render

instance : Coe String Detail := ⟨.text⟩

instance : Coe Term Detail := ⟨.term⟩

/-- A detail with its key. -/
abbrev Attribute := String × Detail

/-- Something worth telling. -/
structure Record where
  level : Level
  message : String
  /-- What the logger adds to all of its records. -/
  standing : List Attribute := []
  /-- The group that the record's own attributes belong to, if it has a name. -/
  group : String := ""
  /-- What this record adds. -/
  attributes : List Attribute := []
deriving DecidableEq

namespace Record

/-- The sections that are always listened to. -/
def sections : List String := ["check", "nbe", "pie"]

/-- Whether an attribute puts its record into one of the sections.  A section is known by how its
name begins. -/
def inSection : Attribute → Bool
  | ("section", .text s) => sections.any fun p ↦ p.toList.isPrefixOf s.toList
  | _ => false

/-- Whether a record is kept: it has to reach the threshold, and below a warning it has to belong
to one of the sections. -/
def passes (threshold : Level) (r : Record) : Bool :=
  threshold.rank ≤ r.level.rank &&
    (Level.warn.rank ≤ r.level.rank || r.standing.any inSection || r.attributes.any inSection)

/-- How attributes are written, each under the name of its group.  Times are left out. -/
def renderAttributes (group : String) (attributes : List Attribute) : List (String × String) :=
  (attributes.filter fun a ↦ a.1 != "time").map fun a ↦
    (if group = "" then a.1 else group ++ "." ++ a.1, a.2.render)

/-- A record as pairs of keys and texts: its level, its message, and its attributes. -/
def render (r : Record) : List (String × String) :=
  [("level", r.level.render), ("msg", r.message)] ++
    renderAttributes "" r.standing ++ renderAttributes r.group r.attributes

end Record

end LittleTypes
