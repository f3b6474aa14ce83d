import LittleTypes.Session.Query

/-!
# Workbenches

A workbench holds a context that is built up by declarations, whatever their order and names, and
contexts that were put aside and can be taken up again.

The values of a declaration are kept, and they are the same values in every context that has the
declaration.  After a fault some of them are empty, in all these contexts.  A context is therefore
kept together with the declarations it was made from: with some values emptied, it is what the
same declarations make then.
-/

namespace LittleTypes

/-- A context, and the declarations it was made from, most recent first.  The number of a
declaration tells its values from those of all others. -/
structure Sheet where
  declarations : List (Nat × Declaration Term) := []
  context : Context := []

namespace Sheet

variable (fuel : Nat) (empty : List Address)

/-- Adds a name to a context, at the place that a number stands for. -/
def extend (Γ : Context) (n : Nat) (d : Declaration Term) : Except Fault Context :=
  Γ.declareAt fuel { address := some [n], empty } d

/-- Adds a name. -/
def declare (s : Sheet) (n : Nat) (d : Declaration Term) : Except Fault Sheet := do
  pure ⟨(n, d) :: s.declarations, ← extend fuel empty s.context n d⟩

/-- The context that the declarations make with more values left empty.  If they make none, the
context stays as it was. -/
def remake (s : Sheet) : Sheet :=
  match s.declarations.foldrM (fun (n, d) Γ ↦ extend fuel empty Γ n d) [] with
  | .ok Γ => { s with context := Γ }
  | .error _ => s

end Sheet

/-- A context at work and those put aside. -/
structure Workbench where
  /-- What is being worked on. -/
  current : Sheet := {}
  /-- What was put aside under a name, most recent first. -/
  saved : List (String × Sheet) := []
  /-- The number of the next declaration. -/
  next : Nat := 0
  /-- The values that have been left empty. -/
  empty : List Address := []

namespace Workbench

variable (fuel : Nat) (w : Workbench)

/-- The names in scope. -/
def context : Context := w.current.context

/-- Leaves values empty in all contexts. -/
def leaveEmpty (trail : List Address) : Workbench :=
  if trail.isEmpty then w
  else
    let empty := trail ++ w.empty
    { w with
      current := w.current.remake fuel empty
      saved := w.saved.map fun (x, s) ↦ (x, s.remake fuel empty)
      empty }

/-- What a failure leaves.  A mistake in a program does no harm. -/
def afterFailure : Failure → Workbench
  | .fault (.eval f) => w.leaveEmpty fuel f.trail
  | _ => w

/-- What a question leaves. -/
def after {α : Type} (x : Checked α) : Workbench :=
  match x.outcome with
  | .ok _ => w
  | .error e => w.afterFailure fuel e

/-- Adds a name after checking what it stands for. -/
def declare (d : Declaration Source) : Workbench × Checked Context :=
  let x : Checked Sheet := do
    let d' ← w.context.elaborate fuel d
    .ofRead (w.current.declare fuel w.empty w.next d')
  match x.outcome with
  | .ok s => ({ w with current := s, next := w.next + 1 }, Sheet.context <$> x)
  | .error e => (w.afterFailure fuel e, Sheet.context <$> x)

/-- Puts the context aside under a name. -/
def save (x : String) : Workbench := { w with saved := (x, w.current) :: w.saved }

/-- Takes up a context again that was put aside under a name. -/
def load (x : String) : Workbench := { w with current := (w.saved.lookup x).getD {} }

end Workbench

end LittleTypes
