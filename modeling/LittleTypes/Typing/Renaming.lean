/-!
# Renamings

Elaboration gives every bound variable a name of its own.  A renaming remembers which name was
chosen for which name of the source, and which names have been chosen at all: a source name that
is not renamed must not be taken for a variable that merely happens to have been given the same
name.
-/

namespace LittleTypes

/-- The names chosen for bound variables. -/
structure Renaming where
  /-- The names in the source that are renamed, each with the name chosen last for it. -/
  entries : List (String × String) := []
  /-- Every name that was ever chosen. -/
  targets : List String := []

namespace Renaming

/-- The name chosen for a source name, or the name itself. -/
def rename (r : Renaming) (x : String) : String := (r.entries.lookup x).getD x

/-- Whether a source name is not renamed but was chosen for some other variable. -/
def captures (r : Renaming) (x : String) : Bool :=
  (r.entries.lookup x).isNone && r.targets.contains x

/-- Renames one name to another from now on. -/
def extend (r : Renaming) (x y : String) : Renaming where
  entries := (x, y) :: r.entries.filter fun e ↦ e.1 != x
  targets := y :: r.targets

/-- How many names are renamed. -/
def size (r : Renaming) : Nat := r.entries.length

end Renaming

end LittleTypes
