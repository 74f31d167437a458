import MachineLab.Number.Binary64
import MachineLab.Number.Shortest
import MachineLab.Text.Printable
import MachineLab.Text.Uppercase
import MachineLab.Text.Numeral
import MachineLab.Text.Quoted
import MachineLab.Text.Utf8
import MachineLab.Dict
import MachineLab.Value.Basic
import MachineLab.Value.Display
import MachineLab.Json.Printer
import MachineLab.Json.Reader
import MachineLab.Kind
import MachineLab.Fault
import MachineLab.Journal
import MachineLab.Alphabet
import MachineLab.Tape
import MachineLab.Action
import MachineLab.Machine.Basic
import MachineLab.Workshop.Basic
import MachineLab.Workshop.Nesting
import MachineLab.Workshop.Edit
import MachineLab.Workshop.Validation
import MachineLab.Simulator.Basic
import MachineLab.Simulator.Step
import MachineLab.Simulator.Run
import MachineLab.Value.Access
import MachineLab.Workshop.Document
import MachineLab.Archive.Directory
import MachineLab.Archive.Files
import MachineLab.Number.Fixed
import MachineLab.Console.Template
import MachineLab.Console.View
import MachineLab.Settings.Definition
import MachineLab.Settings.Manager
import MachineLab.Session.Basic
import MachineLab.Proofs.Nesting
import MachineLab.Proofs.Arena
import MachineLab.Proofs.Determinism
import MachineLab.Proofs.Evolution
import MachineLab.Proofs.Effects
import MachineLab.Proofs.Verdict
import MachineLab.Proofs.Detaching
import MachineLab.Proofs.History
import MachineLab.Proofs.Invariants
import MachineLab.Proofs.Moves
import MachineLab.Proofs.Stack
import MachineLab.Proofs.Stepping
import MachineLab.Proofs.Execution
import MachineLab.Proofs.Members
import MachineLab.Proofs.Copy
import MachineLab.Proofs.Loading
import MachineLab.Proofs.RoundTrip
import MachineLab.Proofs.Calls
import MachineLab.Proofs.Endless
import MachineLab.Proofs.Identifiers
import MachineLab.Proofs.Language
import MachineLab.Proofs.Turns
import MachineLab.Proofs.Preview
import MachineLab.Proofs.Failures
import MachineLab.Proofs.Isolation
import MachineLab.Proofs.Congruence
import MachineLab.Proofs.Finality
import MachineLab.Proofs.Readings
import MachineLab.Proofs.Sessions
import MachineLab.Proofs.Reset
import MachineLab.Proofs.Driving
import MachineLab.Proofs.Strays
import MachineLab.Proofs.Escapes
import MachineLab.Proofs.Budgets
import MachineLab.Proofs.WellFormed
import MachineLab.Proofs.Holdings
import MachineLab.Proofs.Persistence
import MachineLab.Proofs.Resolution
import MachineLab.Proofs.Announcements
import MachineLab.Proofs.Bytes
import MachineLab.Proofs.Rendering
import MachineLab.Proofs.TapeFiles
import MachineLab.Proofs.Normalisation
import MachineLab.Proofs.Documents
import MachineLab.Proofs.Reports
import MachineLab.Proofs.MachineFiles
import MachineLab.Proofs.Configurations
import MachineLab.Proofs.LegalSymbols
import MachineLab.Proofs.Pruning
import MachineLab.Proofs.AcceptorPreview
import MachineLab.Proofs.Removal
import MachineLab.Proofs.Atomicity
import MachineLab.Proofs.Totality
import MachineLab.Proofs.Walks
import MachineLab.Proofs.Spelling
import MachineLab.Proofs.Overrides
import MachineLab.Proofs.Recency
import MachineLab.Proofs.Restoring
import MachineLab.Proofs.Obstacles
