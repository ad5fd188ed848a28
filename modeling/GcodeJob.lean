import GcodeJob.Cache
import GcodeJob.Command
import GcodeJob.Command.Issued
import GcodeJob.Command.Parse
import GcodeJob.Command.Summary
import GcodeJob.CommandLine.Arguments
import GcodeJob.CommandLine.Control
import GcodeJob.CommandLine.Invocation
import GcodeJob.CommandLine.Path
import GcodeJob.CommandLine.Session
import GcodeJob.CommandLine.Show
import GcodeJob.Error
import GcodeJob.File.IndexedFile
import GcodeJob.File.LineEnding
import GcodeJob.File.LineReader
import GcodeJob.File.Medium
import GcodeJob.File.Scan
import GcodeJob.Index.Chain
import GcodeJob.Index.LineIndex
import GcodeJob.Index.Tree
import GcodeJob.Job.CancelToken
import GcodeJob.Job.Controller
import GcodeJob.Job.Execution
import GcodeJob.Job.Loop
import GcodeJob.Job.Operations
import GcodeJob.Job.Run
import GcodeJob.Job.Schedule
import GcodeJob.Job.Sleep
import GcodeJob.Job.State
import GcodeJob.Job.Status
import GcodeJob.Job.Stopwatch
import GcodeJob.Main
import GcodeJob.Number.Double
import GcodeJob.Number.Numeral
import GcodeJob.Number.Rounding
import GcodeJob.Number.Single
import GcodeJob.Number.Word
import GcodeJob.Program.Basic
import GcodeJob.Program.Sharing
import GcodeJob.Program.Walk
import GcodeJob.Proofs.Cache
import GcodeJob.Proofs.Command.Grammar
import GcodeJob.Proofs.Command.Spelling
import GcodeJob.Proofs.Command.Summary
import GcodeJob.Proofs.Command.Words
import GcodeJob.Proofs.CommandLine.Session
import GcodeJob.Proofs.File.IndexedFile
import GcodeJob.Proofs.File.Lifetime
import GcodeJob.Proofs.File.LineReader
import GcodeJob.Proofs.File.Lines
import GcodeJob.Proofs.File.Marks
import GcodeJob.Proofs.File.Places
import GcodeJob.Proofs.File.Scan
import GcodeJob.Proofs.File.Seeking
import GcodeJob.Proofs.Index.Balance
import GcodeJob.Proofs.Index.Floor
import GcodeJob.Proofs.Job.Buffers
import GcodeJob.Proofs.Job.Cancels
import GcodeJob.Proofs.Job.Closing
import GcodeJob.Proofs.Job.Durations
import GcodeJob.Proofs.Job.Effects
import GcodeJob.Proofs.Job.Endings
import GcodeJob.Proofs.Job.Events
import GcodeJob.Proofs.Job.Execution
import GcodeJob.Proofs.Job.Feeds
import GcodeJob.Proofs.Job.Legality
import GcodeJob.Proofs.Job.Logs
import GcodeJob.Proofs.Job.Order
import GcodeJob.Proofs.Job.Pauses
import GcodeJob.Proofs.Job.Requests
import GcodeJob.Proofs.Job.Resting
import GcodeJob.Proofs.Job.Schedule
import GcodeJob.Proofs.Job.Showing
import GcodeJob.Proofs.Job.Signals
import GcodeJob.Proofs.Job.States
import GcodeJob.Proofs.Job.Steps
import GcodeJob.Proofs.Job.Stopwatch
import GcodeJob.Proofs.Number.Decimal
import GcodeJob.Proofs.Number.Rounding
import GcodeJob.Proofs.Number.Single
import GcodeJob.Proofs.Program.Closing
import GcodeJob.Proofs.Program.Commands
import GcodeJob.Proofs.Program.Identity
import GcodeJob.Proofs.Program.Rewritten
import GcodeJob.Proofs.Program.Sharing
import GcodeJob.Proofs.Program.Walks
import GcodeJob.Proofs.ReadAhead.Backpressure
import GcodeJob.Proofs.ReadAhead.Buffer
import GcodeJob.Proofs.ReadAhead.Delivery
import GcodeJob.Proofs.ReadAhead.Isolation
import GcodeJob.Proofs.ReadAhead.Overlap
import GcodeJob.Proofs.ReadAhead.Phases
import GcodeJob.Proofs.ReadAhead.Producer
import GcodeJob.Proofs.ReadAhead.Rewriting
import GcodeJob.Proofs.ReadAhead.Traffic
import GcodeJob.Proofs.ReadAhead.Working
import GcodeJob.Proofs.Settings.Given
import GcodeJob.Proofs.Settings.Sheet
import GcodeJob.Proofs.Terminal.Bar
import GcodeJob.Proofs.Terminal.Reporter
import GcodeJob.Proofs.Terminal.Reports
import GcodeJob.Proofs.Terminal.Shown
import GcodeJob.Proofs.Text.Utf8
import GcodeJob.Proofs.Yaml.Field
import GcodeJob.Proofs.Yaml.Layout
import GcodeJob.Proofs.Yaml.Mapping
import GcodeJob.Proofs.Yaml.Outline
import GcodeJob.Proofs.Yaml.Scalar
import GcodeJob.ReadAhead.Buffer
import GcodeJob.ReadAhead.Producer
import GcodeJob.ReadAhead.Queue
import GcodeJob.ReadAhead.Traffic
import GcodeJob.Settings
import GcodeJob.Settings.Document
import GcodeJob.Terminal.Bar
import GcodeJob.Terminal.Reporter
import GcodeJob.Terminal.Screen
import GcodeJob.Terminal.StatusLine
import GcodeJob.Terminal.Timing
import GcodeJob.Text.Blank
import GcodeJob.Text.CaseTable
import GcodeJob.Text.Lowercase
import GcodeJob.Text.Slice
import GcodeJob.Text.Utf8
import GcodeJob.Yaml.Cursor
import GcodeJob.Yaml.Event
import GcodeJob.Yaml.Field
import GcodeJob.Yaml.Layout
import GcodeJob.Yaml.Scalar
import GcodeJob.Yaml.Tag
