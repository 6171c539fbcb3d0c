import LeveledLog.Backtrace
import LeveledLog.Barrier
import LeveledLog.Error
import LeveledLog.Error.Registry
import LeveledLog.Fault
import LeveledLog.Fault.Kind
import LeveledLog.Files
import LeveledLog.Flags
import LeveledLog.Flags.OfValue
import LeveledLog.Flags.Reader
import LeveledLog.Handoff
import LeveledLog.Handoff.Schedule
import LeveledLog.Line
import LeveledLog.Line.OfValue
import LeveledLog.Logger
import LeveledLog.Logger.Call
import LeveledLog.Logger.Plan
import LeveledLog.Message
import LeveledLog.Number.Binary64
import LeveledLog.Number.Decimal
import LeveledLog.Priority
import LeveledLog.Priority.OfValue
import LeveledLog.Settings
import LeveledLog.Severity
import LeveledLog.Stamp
import LeveledLog.Syslog
import LeveledLog.Template
import LeveledLog.Template.Render
import LeveledLog.Text.Blank
import LeveledLog.Text.Digit
import LeveledLog.Text.Hex
import LeveledLog.Text.LooseNumeral
import LeveledLog.Text.Numeral
import LeveledLog.Text.Printable
import LeveledLog.Text.Quoted
import LeveledLog.Text.Upper
import LeveledLog.Text.Utf8
import LeveledLog.Update
import LeveledLog.Value
import LeveledLog.Value.Equality
import LeveledLog.Value.Number
import LeveledLog.Value.Text
import LeveledLog.World
import LeveledLog.World.Construct
import LeveledLog.World.Outlet
import LeveledLog.World.Request
import LeveledLog.World.Schedule
import LeveledLog.World.Session
import LeveledLog.Proofs.Handoff.Locks
import LeveledLog.Proofs.Handoff.Order
import LeveledLog.Proofs.Handoff.Rendezvous
import LeveledLog.Proofs.Logger.Moves
import LeveledLog.Proofs.Logger.Coupling
import LeveledLog.Proofs.Logger.Delivery
import LeveledLog.Proofs.Handoff.Progress
import LeveledLog.Proofs.Logger.Barriers
import LeveledLog.Proofs.Logger.Progress
import LeveledLog.Proofs.Logger.Calls
import LeveledLog.Proofs.Logger.Sync
import LeveledLog.Proofs.Logger.Merge
import LeveledLog.Proofs.Logger.Refinement
import LeveledLog.Proofs.Handoff.Returns
import LeveledLog.Proofs.Logger.Backpressure
import LeveledLog.Proofs.Logger.Beside
import LeveledLog.Proofs.Logger.Outcomes
import LeveledLog.Proofs.Logger.OwnCalls
import LeveledLog.Proofs.Handoff.Effort
import LeveledLog.Proofs.Logger.Absorption
import LeveledLog.Proofs.Logger.WriteBarrier
import LeveledLog.Proofs.Logger.Snapshots
import LeveledLog.Proofs.Logger.Departure
import LeveledLog.Proofs.Logger.LastWords
import LeveledLog.Proofs.World.Shape
import LeveledLog.Proofs.World.Turns
import LeveledLog.Proofs.World.Service
import LeveledLog.Proofs.World.Constructions
import LeveledLog.Proofs.World.Events
import LeveledLog.Proofs.World.Isolation
import LeveledLog.Proofs.World.Lockstep
import LeveledLog.Proofs.World.Unwinding
import LeveledLog.Proofs.Text.Words
import LeveledLog.Proofs.Text.Numeral
import LeveledLog.Proofs.Line.Unambiguous
import LeveledLog.Proofs.Flags.Grammar
import LeveledLog.Proofs.World.Coercion
import LeveledLog.Proofs.World.Routes
import LeveledLog.Proofs.World.Opening
import LeveledLog.Proofs.World.Names
import LeveledLog.Proofs.World.Activation
import LeveledLog.Proofs.World.Roster
import LeveledLog.Proofs.Template.Shown
import LeveledLog.Proofs.Template.Fallback
import LeveledLog.Proofs.Template.Interpolation
import LeveledLog.Proofs.Logger.Formatting
import LeveledLog.Proofs.Program.Machine
import LeveledLog.Proofs.Program.Hiding
import LeveledLog.Proofs.Program.Pruning
import LeveledLog.Proofs.Program.Suppression
import LeveledLog.Proofs.World.Sockets
import LeveledLog.Proofs.Logger.Unadorned
import LeveledLog.Proofs.Program.Records
import LeveledLog.Proofs.Logger.Apart
import LeveledLog.Proofs.Logger.Refusals
import LeveledLog.Proofs.Logger.Emission
import LeveledLog.Proofs.Logger.Backtraces
import LeveledLog.Proofs.Line.Places
import LeveledLog.Proofs.Logger.CallSites
import LeveledLog.Proofs.Logger.StandIns
import LeveledLog.Proofs.Logger.Alarms
import LeveledLog.Proofs.Line.Chronology
import LeveledLog.Proofs.Flags.Verdicts
import LeveledLog.Proofs.Settings.Fields
import LeveledLog.Proofs.Settings.Validation
import LeveledLog.Proofs.Value.Looks
import LeveledLog.Proofs.World.Lasting
import LeveledLog.Proofs.World.Connections
import LeveledLog.Proofs.World.Accounts
import LeveledLog.Proofs.Text.Encoding
import LeveledLog.Proofs.Syslog.Framing
import LeveledLog.Proofs.Logger.Solo
import LeveledLog.Proofs.Program.Intake
import LeveledLog.Proofs.Program.Contents
import LeveledLog.Proofs.Program.Destinations
import LeveledLog.Proofs.Program.Changes
import LeveledLog.Proofs.Program.Turns
import LeveledLog.Proofs.Flags.Meaning
import LeveledLog.Proofs.Logger.Meaning
import LeveledLog.Proofs.Settings.Meaning
import LeveledLog.Proofs.Program.Meaning
import LeveledLog.Proofs.Program.Factories
import LeveledLog.Proofs.Value.Padding
import LeveledLog.Proofs.Error.Registry
import LeveledLog.Proofs.Error.Threads
import LeveledLog.Proofs.Error.Context
import LeveledLog.Proofs.Error.Construction
import LeveledLog.Proofs.Logger.Assignments
