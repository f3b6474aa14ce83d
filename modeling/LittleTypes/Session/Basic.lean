import LittleTypes.Session.Query

/-!
# Sessions

A session takes declarations one after the other.  One that fails is recorded and changes nothing
else, so that what does not depend on it can still be checked.
-/

namespace LittleTypes

/-- What has been declared so far, and what has failed. -/
structure Session where
  /-- The names that have been claimed or defined. -/
  context : Context := []
  /-- The failures so far, in order. -/
  errors : List Stop := []

namespace Session

/-- What can be asked of a session. -/
inductive Command
  | claim (loc : Location) (x : String) (type : Source)
  | define (loc : Location) (x : String) (e : Source)
  | checkSame (loc : Location) (type a b : Source)
  | norm (e : Source)

/-- How a command is called in the log. -/
def Command.label : Command → String
  | claim .. => "claim"
  | define .. => "define"
  | checkSame .. => "check-same"
  | norm .. => "norm"

/-- A record of the session. -/
def note (level : Level) (message : String) (attributes : List Attribute) : Record :=
  { level, message, standing := [("section", "pie")], attributes }

/-- The answer to a command: the context after it, and a term if one was asked for. -/
structure Answer where
  context : Context
  term? : Option Term := none

variable (fuel : Nat) (Γ : Context)

/-- Reports a mistake that is not in an expression. -/
def refuse {α : Type} (code : Code) (loc : Location) (message : List Part) : Checked α :=
  .fail (.stop { code, loc, message })

/-- A name is claimed at most once, and only if it can be a name. -/
def claim (loc : Location) (x : String) (type : Source) : Checked Context :=
  if !isVariableName x then
    refuse .badName loc ["Can't claim \"" ++ x ++ "\", it is not a variable name"]
  else if Γ.binds x then refuse .declaration loc ["The name", x, "is already in use"]
  else do
    let t ← type.isType fuel Γ.scope
    let v ← Γ.scope.eval fuel t
    .tell (note .debug "claimed" [("name", x), ("type", t)])
    pure ((x, .claim v) :: Γ)

/-- A name is defined after it has been claimed, and once.  While its definition is checked the
name itself cannot be used. -/
def define (loc : Location) (x : String) (e : Source) : Checked Context :=
  match Γ.binding? x with
  | none => refuse .declaration loc ["Can't define", x, "before claiming it"]
  | some (.claim type) => do
    let t ← e.check fuel Γ.scope type
    let v ← Γ.scope.eval fuel t
    .tell (note .debug "defined" [("name", x), ("value", t)])
    pure ((x, .defn type v) :: Γ)
  | some _ => refuse .declaration loc ["The name", x, "is already defined"]

/-- What a command does in a context. -/
def execute : Command → Checked Answer
  | .claim loc x type => do pure { context := ← claim fuel Γ loc x type }
  | .define loc x e => do pure { context := ← define fuel Γ loc x e }
  | .checkSame loc type a b => do
    Γ.checkSame fuel loc type a b
    pure { context := Γ }
  | .norm e => do
    let t ← Γ.norm fuel e
    pure { context := Γ, term? := some t }

/-- Takes one command.  The session goes on with the context of the answer; a mistake is recorded
instead. -/
def perform (s : Session) (c : Command) : Session × Checked (Option Term) :=
  let answer := execute fuel s.context c
  match answer.outcome with
  | .ok a => ({ s with context := a.context }, ⟨answer.log, .ok a.term?⟩)
  | .error (.stop e) =>
    ({ s with errors := s.errors ++ [e] },
      ⟨answer.log ++ [note .info "declaration failed" [("op", c.label), ("error", e.located)]],
        .error (.stop e)⟩)
  | .error f => (s, ⟨answer.log, .error f⟩)

/-- Takes several commands in order. -/
def run (s : Session) (cs : List Command) : Session := cs.foldl (fun s c ↦ (perform fuel s c).1) s

end Session

end LittleTypes
