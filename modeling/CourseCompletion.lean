import CourseCompletion.Text.Blank
import CourseCompletion.Text.Digits
import CourseCompletion.Text.Hex
import CourseCompletion.Text.Quoted
import CourseCompletion.Text.Ranges
import CourseCompletion.Text.Unprintable
import CourseCompletion.Text.Cased
import CourseCompletion.Text.Lower
import CourseCompletion.Decimal.Binary64
import CourseCompletion.Decimal.Shortest
import CourseCompletion.Calendar
import CourseCompletion.Instant
import CourseCompletion.Instant.Text
import CourseCompletion.Json.Basic
import CourseCompletion.Json.Number
import CourseCompletion.Json.Form
import CourseCompletion.Json.Printer
import CourseCompletion.Json.Reader
import CourseCompletion.Keyed
import CourseCompletion.Error
import CourseCompletion.Record
import CourseCompletion.Criterion
import CourseCompletion.Aggregation
import CourseCompletion.Window
import CourseCompletion.Row
import CourseCompletion.Event
import CourseCompletion.Outcome
import CourseCompletion.Report
import CourseCompletion.Store.Basic
import CourseCompletion.Store.Catalog
import CourseCompletion.Store.Completions
import CourseCompletion.Session
import CourseCompletion.Operation.Enrolment
import CourseCompletion.Operation.Record
import CourseCompletion.Operation.Report
import CourseCompletion.Operation.Sweep
import CourseCompletion.Form.Configuration
import CourseCompletion.Form.Criterion
import CourseCompletion.Form.Outcome
import CourseCompletion.Form.Record
import CourseCompletion.Form.Report
import CourseCompletion.Form.Snapshot
import CourseCompletion.Office
import CourseCompletion.LogLevel
import CourseCompletion.Toml.Basic
import CourseCompletion.Toml.Node
import CourseCompletion.Toml.Document
import CourseCompletion.Toml.Moment
import CourseCompletion.Toml.Number
import CourseCompletion.Toml.Reader
import CourseCompletion.Toml.Text
import CourseCompletion.Configuration.Basic
import CourseCompletion.Configuration.File
import CourseCompletion.Configuration.Setting
import CourseCompletion.Command.Arguments
import CourseCompletion.Command.Basic
import CourseCompletion.Command.Error
import CourseCompletion.Command.Run
import CourseCompletion.Files
import CourseCompletion.Program
import CourseCompletion.Main
import CourseCompletion.Proofs.Aggregation
import CourseCompletion.Proofs.Readback
import CourseCompletion.Proofs.Rule
import CourseCompletion.Proofs.TableCalls
import CourseCompletion.Proofs.Calm
import CourseCompletion.Proofs.Commit
import CourseCompletion.Proofs.Row
import CourseCompletion.Proofs.Table
import CourseCompletion.Proofs.Progress
import CourseCompletion.Proofs.Effect
import CourseCompletion.Proofs.Works
import CourseCompletion.Proofs.Loops
import CourseCompletion.Proofs.Operations
import CourseCompletion.Proofs.ExactlyOnce
import CourseCompletion.Proofs.LifeCycle
import CourseCompletion.Proofs.Interleaving
import CourseCompletion.Proofs.Same
import CourseCompletion.Proofs.Respect
import CourseCompletion.Proofs.Agreement
import CourseCompletion.Proofs.Files
import CourseCompletion.Proofs.Calendar
import CourseCompletion.Proofs.Instant
import CourseCompletion.Proofs.Token
import CourseCompletion.Proofs.Json
import CourseCompletion.Proofs.Snapshot
import CourseCompletion.Proofs.Command
import CourseCompletion.Proofs.Restart
import CourseCompletion.Proofs.Memory
import CourseCompletion.Proofs.Office
import CourseCompletion.Proofs.Deed
import CourseCompletion.Proofs.Commuting
import CourseCompletion.Proofs.Refusal
import CourseCompletion.Proofs.Normal
import CourseCompletion.Proofs.Evaluation
import CourseCompletion.Proofs.Messages
import CourseCompletion.Proofs.Machine
import CourseCompletion.Proofs.Untracked
import CourseCompletion.Proofs.Saving
import CourseCompletion.Proofs.Monotone
import CourseCompletion.Proofs.Starts
import CourseCompletion.Proofs.Seeding
import CourseCompletion.Proofs.BulkStart
import CourseCompletion.Proofs.Review
import CourseCompletion.Proofs.Sweep
import CourseCompletion.Proofs.Repeat
import CourseCompletion.Proofs.Enrolment
import CourseCompletion.Proofs.Inference
import CourseCompletion.Proofs.Refresh
import CourseCompletion.Proofs.ReportRows
import CourseCompletion.Proofs.Storing
import CourseCompletion.Proofs.UserReport
import CourseCompletion.Proofs.CommandLine
import CourseCompletion.Proofs.Quotes
import CourseCompletion.Proofs.Document
import CourseCompletion.Proofs.Guess
import CourseCompletion.Proofs.Paths
import CourseCompletion.Proofs.ConfigurationFile
import CourseCompletion.Proofs.Layers
