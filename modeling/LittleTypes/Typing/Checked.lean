import LittleTypes.Context.ReadBack
import LittleTypes.Report.Log
import LittleTypes.Report.Stop

/-!
# Checking as a computation

Checking gives an answer or fails, and in both cases it leaves a log.  What it answers never
depends on what has been logged before.
-/

namespace LittleTypes

/-- Why there is no answer. -/
inductive Failure
  /-- The program has a mistake. -/
  | stop (s : Stop)
  /-- Evaluation went wrong. -/
  | fault (f : Fault)
deriving DecidableEq

/-- The outcome of a check, and what was logged on the way. -/
@[ext]
structure Checked (α : Type) where
  /-- The records in the order they were made. -/
  log : List Record
  /-- The answer or the failure. -/
  outcome : Except Failure α

namespace Checked

variable {α β : Type}

/-- Goes on with the answer, if there is one. -/
def andThen (x : Checked α) (f : α → Checked β) : Checked β :=
  match x.outcome with
  | .ok a => let y := f a; ⟨x.log ++ y.log, y.outcome⟩
  | .error e => ⟨x.log, .error e⟩

instance : Monad Checked where
  pure a := ⟨[], .ok a⟩
  bind := andThen

/-- Nothing is logged for an answer that is already there. -/
@[simp] theorem log_pure (a : α) : (pure a : Checked α).log = [] := rfl

/-- An answer that is already there is the answer. -/
@[simp] theorem outcome_pure (a : α) : (pure a : Checked α).outcome = .ok a := rfl

/-- The outcome of two checks in a row is that of the second if the first has an answer. -/
@[simp] theorem outcome_bind (x : Checked α) (f : α → Checked β) :
    (x >>= f).outcome = x.outcome.bind fun a ↦ (f a).outcome := by
  change (andThen x f).outcome = _
  unfold andThen
  cases x.outcome <;> rfl

/-- Two checks in a row give the answer `b` exactly if the first has an answer from which the
second gets to `b`. -/
theorem outcome_bind_eq_ok_iff {x : Checked α} {f : α → Checked β} {b : β} :
    (x >>= f).outcome = .ok b ↔ ∃ a, x.outcome = .ok a ∧ (f a).outcome = .ok b := by
  rw [outcome_bind]
  cases x.outcome with
  | error e => simp [Except.bind]
  | ok a => simp [Except.bind]

instance : LawfulMonad Checked := LawfulMonad.mk'
  Checked
  (fun x ↦ by
    change andThen x (fun a ↦ ⟨[], .ok a⟩) = x
    obtain ⟨log, outcome⟩ := x
    cases outcome <;> simp [andThen])
  (fun a f ↦ by
    change andThen ⟨[], .ok a⟩ f = f a
    simp [andThen])
  (fun x f g ↦ by
    change andThen (andThen x f) g = andThen x fun a ↦ andThen (f a) g
    obtain ⟨log, outcome⟩ := x
    cases outcome with
    | error e => rfl
    | ok a =>
      simp only [andThen]
      cases (f a).outcome <;> simp)

/-- Adds one record to the log. -/
def tell (r : Record) : Checked Unit := ⟨[r], .ok ()⟩

/-- Ends in a failure. -/
def fail (e : Failure) : Checked α := ⟨[], .error e⟩

/-- What to do about a mistake in the program.  A fault of evaluation is passed on. -/
def onStop (x : Checked α) (f : Stop → Checked α) : Checked α :=
  match x.outcome with
  | .error (.stop s) => let y := f s; ⟨x.log ++ y.log, y.outcome⟩
  | _ => x

/-- What is logged when evaluation meets a value that it has no rule for. -/
def stuckRecord (op : Operation) (shape : Shape) : Record where
  level := .error
  message := "evaluation got stuck on a non-neutral value"
  standing := [("section", "nbe")]
  attributes := [("op", op.label), ("value", shape.label)]

/-- What is logged of a fault. -/
def faultLog : Fault → List Record
  | .eval ⟨.stuck op shape, _⟩ => [stuckRecord op shape]
  | _ => []

/-- Reading back as a step of a check. -/
def ofRead : Except Fault α → Checked α
  | .ok a => ⟨[], .ok a⟩
  | .error f => ⟨faultLog f, .error (.fault f)⟩

/-- Evaluation as a step of a check. -/
def ofEval (x : Except EvalFault α) : Checked α := ofRead (liftM x)

theorem ofRead_eq_ok {x : Except Fault α} {a : α} : (ofRead x).outcome = .ok a ↔ x = .ok a := by
  cases x <;> simp [ofRead]

theorem ofEval_eq_ok {x : Except EvalFault α} {a : α} : (ofEval x).outcome = .ok a ↔ x = .ok a := by
  rw [ofEval, ofRead_eq_ok]
  cases x with
  | ok b => exact ⟨fun h ↦ by cases h; rfl, fun h ↦ by cases h; rfl⟩
  | error e => exact ⟨nofun, nofun⟩

/-- A record of the checker. -/
def note (level : Level) (message : String) (attributes : List Attribute) : Checked Unit :=
  tell { level, message, standing := [("section", "check")], attributes }

/-- Reports a mistake and ends. -/
def stop (code : Code) (loc : Location) (message : List Part) : Checked α := do
  let s : Stop := { code, loc, message }
  note .debug "checking stopped" [("at", loc.render), ("error", s.text)]
  fail (.stop s)

end Checked

end LittleTypes
