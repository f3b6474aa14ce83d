import LittleTypes.Context.Basic
import LittleTypes.Context.Listing
import LittleTypes.Context.ReadBack
import LittleTypes.Form
import LittleTypes.Location
import LittleTypes.Name.Basic
import LittleTypes.Name.Fresh
import LittleTypes.Name.Letter
import LittleTypes.Proofs.Adequacy.Machine
import LittleTypes.Proofs.Adequacy.Reader
import LittleTypes.Proofs.Adequacy.Stands
import LittleTypes.Proofs.Context.BoundNames
import LittleTypes.Proofs.Context.Built
import LittleTypes.Proofs.Context.Comparison
import LittleTypes.Proofs.Context.Conversion
import LittleTypes.Proofs.Context.Extensionality
import LittleTypes.Proofs.Context.FoundTypes
import LittleTypes.Proofs.Context.Idempotence
import LittleTypes.Proofs.Context.Lookup
import LittleTypes.Proofs.Context.Neutral
import LittleTypes.Proofs.Context.NormalForms
import LittleTypes.Proofs.Context.Occurrence
import LittleTypes.Proofs.Context.Recursion
import LittleTypes.Proofs.Context.Substitution
import LittleTypes.Proofs.Glue.Bond
import LittleTypes.Proofs.Glue.Denotes
import LittleTypes.Proofs.Glue.Elements
import LittleTypes.Proofs.Glue.Forms
import LittleTypes.Proofs.Glue.Ground
import LittleTypes.Proofs.Glue.Logic
import LittleTypes.Proofs.Glue.Names
import LittleTypes.Proofs.Glue.Readable
import LittleTypes.Proofs.Glue.Recurs
import LittleTypes.Proofs.Glue.Results
import LittleTypes.Proofs.Glue.Stable
import LittleTypes.Proofs.Glue.Tower
import LittleTypes.Proofs.Glue.Transports
import LittleTypes.Proofs.Glue.Unique
import LittleTypes.Proofs.Idealized.Alike
import LittleTypes.Proofs.Idealized.Looks
import LittleTypes.Proofs.Idealized.Plan
import LittleTypes.Proofs.Idealized.Reading
import LittleTypes.Proofs.Idealized.Value
import LittleTypes.Proofs.Legal.Context
import LittleTypes.Proofs.Legal.Machine
import LittleTypes.Proofs.Legal.Reader
import LittleTypes.Proofs.Legal.Rules
import LittleTypes.Proofs.Likeness.Same
import LittleTypes.Proofs.Logic.Basic
import LittleTypes.Proofs.Logic.Meet
import LittleTypes.Proofs.Logic.Model
import LittleTypes.Proofs.Logic.Motives
import LittleTypes.Proofs.Match.Elaborate
import LittleTypes.Proofs.Match.Machine
import LittleTypes.Proofs.Match.Reader
import LittleTypes.Proofs.Match.Rules
import LittleTypes.Proofs.Match.Scope
import LittleTypes.Proofs.Match.Self
import LittleTypes.Proofs.Match.Term
import LittleTypes.Proofs.Match.Value
import LittleTypes.Proofs.Model.Eliminate
import LittleTypes.Proofs.Model.Equality
import LittleTypes.Proofs.Model.Lawful
import LittleTypes.Proofs.Model.Meaning
import LittleTypes.Proofs.Model.Readable
import LittleTypes.Proofs.Model.Run
import LittleTypes.Proofs.Model.Same
import LittleTypes.Proofs.Model.Unique
import LittleTypes.Proofs.Model.Vectors
import LittleTypes.Proofs.Name.Binders
import LittleTypes.Proofs.Name.FirstUnused
import LittleTypes.Proofs.Name.Fresh
import LittleTypes.Proofs.Name.Scoping
import LittleTypes.Proofs.Relabel.Machine
import LittleTypes.Proofs.Relabel.Reader
import LittleTypes.Proofs.Relabel.Rules
import LittleTypes.Proofs.Relabel.Session
import LittleTypes.Proofs.Relabel.Term
import LittleTypes.Proofs.Report.Ledger
import LittleTypes.Proofs.Report.Tallies
import LittleTypes.Proofs.Sense.Bindings
import LittleTypes.Proofs.Sense.Congruence
import LittleTypes.Proofs.Sense.Context
import LittleTypes.Proofs.Sense.Data
import LittleTypes.Proofs.Sense.DataRules
import LittleTypes.Proofs.Sense.Declared
import LittleTypes.Proofs.Sense.Elaborate
import LittleTypes.Proofs.Sense.Expect
import LittleTypes.Proofs.Sense.Extensional
import LittleTypes.Proofs.Sense.Normal
import LittleTypes.Proofs.Sense.Outcome
import LittleTypes.Proofs.Sense.Query
import LittleTypes.Proofs.Sense.Rules
import LittleTypes.Proofs.Sense.Scope
import LittleTypes.Proofs.Sense.Session
import LittleTypes.Proofs.Sense.Shape
import LittleTypes.Proofs.Sense.Shared
import LittleTypes.Proofs.Sense.Situation
import LittleTypes.Proofs.Sense.Terms
import LittleTypes.Proofs.Session.Canonicity
import LittleTypes.Proofs.Session.Declarations
import LittleTypes.Proofs.Session.History
import LittleTypes.Proofs.Session.Later
import LittleTypes.Proofs.Session.Replay
import LittleTypes.Proofs.Session.Safety
import LittleTypes.Proofs.Session.Termination
import LittleTypes.Proofs.Term.Alpha
import LittleTypes.Proofs.Term.Free
import LittleTypes.Proofs.Term.Indices
import LittleTypes.Proofs.Term.Layout
import LittleTypes.Proofs.Term.Mentions
import LittleTypes.Proofs.Term.Nameless
import LittleTypes.Proofs.Term.Reading
import LittleTypes.Proofs.Term.Spells
import LittleTypes.Proofs.Typing.Binders
import LittleTypes.Proofs.Typing.Complaint
import LittleTypes.Proofs.Typing.Grouping
import LittleTypes.Proofs.Typing.Hidden
import LittleTypes.Proofs.Typing.Mistakes
import LittleTypes.Proofs.Typing.Modes
import LittleTypes.Proofs.Typing.Resolution
import LittleTypes.Proofs.Typing.Steady
import LittleTypes.Proofs.Typing.Universe
import LittleTypes.Report.Ledger
import LittleTypes.Report.Log
import LittleTypes.Report.Stop
import LittleTypes.Report.Tally
import LittleTypes.Session.Basic
import LittleTypes.Session.Query
import LittleTypes.Session.Workbench
import LittleTypes.Source
import LittleTypes.Term.Alpha
import LittleTypes.Term.Basic
import LittleTypes.Term.Print
import LittleTypes.Typing.Checked
import LittleTypes.Typing.Elaborate
import LittleTypes.Typing.Renaming
import LittleTypes.Typing.Rules
import LittleTypes.Typing.Scope
import LittleTypes.Value.Basic
import LittleTypes.Value.Fault
import LittleTypes.Value.Machine
import LittleTypes.Value.Place
