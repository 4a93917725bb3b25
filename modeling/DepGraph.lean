import DepGraph.Fault
import DepGraph.Journal.Basic
import DepGraph.Journal.Bounds
import DepGraph.Journal.Entry
import DepGraph.Journal.Level
import DepGraph.Journal.Template
import DepGraph.Json.Printer
import DepGraph.Json.Reader
import DepGraph.Keyed
import DepGraph.Name
import DepGraph.Number.Places
import DepGraph.Number.Power
import DepGraph.Number.Real64
import DepGraph.Number.Shortest
import DepGraph.Path
import DepGraph.Proofs.Accounts
import DepGraph.Proofs.Adding
import DepGraph.Proofs.AllOrNothing
import DepGraph.Proofs.Alone
import DepGraph.Proofs.BreadthFirst
import DepGraph.Proofs.Calls
import DepGraph.Proofs.Cancelling
import DepGraph.Proofs.Cells
import DepGraph.Proofs.Closure
import DepGraph.Proofs.Computations
import DepGraph.Proofs.Course
import DepGraph.Proofs.Coverage
import DepGraph.Proofs.Dealings
import DepGraph.Proofs.Directives
import DepGraph.Proofs.Discovery
import DepGraph.Proofs.ErasedRuns
import DepGraph.Proofs.Erasure
import DepGraph.Proofs.Failing
import DepGraph.Proofs.Failures
import DepGraph.Proofs.Fairness
import DepGraph.Proofs.Fetching
import DepGraph.Proofs.FirstRequest
import DepGraph.Proofs.Gathered
import DepGraph.Proofs.Gatherings
import DepGraph.Proofs.Generations
import DepGraph.Proofs.Heedless
import DepGraph.Proofs.Inquiries
import DepGraph.Proofs.KeyPaths
import DepGraph.Proofs.Lane
import DepGraph.Proofs.LaterRequests
import DepGraph.Proofs.Loading
import DepGraph.Proofs.Mappings
import DepGraph.Proofs.Merging
import DepGraph.Proofs.Milestones
import DepGraph.Proofs.Moves
import DepGraph.Proofs.NestedMerging
import DepGraph.Proofs.Numbering
import DepGraph.Proofs.Outcome
import DepGraph.Proofs.Overlap
import DepGraph.Proofs.Passing
import DepGraph.Proofs.Policies
import DepGraph.Proofs.Quiet
import DepGraph.Proofs.Reachable
import DepGraph.Proofs.Refinement
import DepGraph.Proofs.Registrations
import DepGraph.Proofs.Requests
import DepGraph.Proofs.Resolution
import DepGraph.Proofs.Runs
import DepGraph.Proofs.Script
import DepGraph.Proofs.Selection
import DepGraph.Proofs.Sharing
import DepGraph.Proofs.SoleWalk
import DepGraph.Proofs.Spellings
import DepGraph.Proofs.Store
import DepGraph.Proofs.Tally
import DepGraph.Proofs.Traversal
import DepGraph.Proofs.Unasked
import DepGraph.Proofs.Walks
import DepGraph.Proofs.Watching
import DepGraph.Registry
import DepGraph.Resolution.Dependencies
import DepGraph.Resolution.Environment
import DepGraph.Resolution.Event
import DepGraph.Resolution.File
import DepGraph.Resolution.Inquiry
import DepGraph.Resolution.Layout
import DepGraph.Resolution.Policy
import DepGraph.Resolution.Run
import DepGraph.Resolution.Scripted
import DepGraph.Resolution.Store
import DepGraph.Resolution.Walk
import DepGraph.Resolution.World
import DepGraph.Schedule.Cell
import DepGraph.Schedule.Computation
import DepGraph.Schedule.Ending
import DepGraph.Schedule.Gathering
import DepGraph.Schedule.Join
import DepGraph.Schedule.Loop
import DepGraph.Schedule.Script
import DepGraph.Schedule.Tally
import DepGraph.Settings.Format
import DepGraph.Settings.Layers
import DepGraph.Settings.Merge
import DepGraph.Settings.Options
import DepGraph.Source.Directive
import DepGraph.Source.Extract
import DepGraph.Source.Lexeme
import DepGraph.Source.Outline
import DepGraph.Source.Scan
import DepGraph.Source.Token
import DepGraph.Source.Tree
import DepGraph.Specifier.Basic
import DepGraph.Text.Base64
import DepGraph.Text.Blank
import DepGraph.Text.Digit
import DepGraph.Text.Printable
import DepGraph.Text.Quoted
import DepGraph.Text.Ranges
import DepGraph.Text.Word
import DepGraph.Typings
import DepGraph.Value.Basic
import DepGraph.Value.Entries
import DepGraph.Value.Render
import DepGraph.Yaml.BlockScalar
import DepGraph.Yaml.Calendar
import DepGraph.Yaml.Cursor
import DepGraph.Yaml.Document
import DepGraph.Yaml.Failure
import DepGraph.Yaml.Header
import DepGraph.Yaml.Node
import DepGraph.Yaml.Number
import DepGraph.Yaml.PlainScalar
import DepGraph.Yaml.PlainTag
import DepGraph.Yaml.QuotedScalar
import DepGraph.Yaml.Token
import DepGraph.Yaml.TokenStream
import DepGraph.Yaml.Value
import DepGraph.Proofs.Aftermath
import DepGraph.Proofs.Unnoticed
import DepGraph.Proofs.Independence
import DepGraph.Proofs.Wakeups
import DepGraph.Proofs.Overrides
import DepGraph.Proofs.SingleAssignment
import DepGraph.Proofs.Refused
import DepGraph.Proofs.Treatment
import DepGraph.Proofs.Agenda
import DepGraph.Proofs.Pursuit
import DepGraph.Proofs.Rounds
import DepGraph.Proofs.FailedFetches
import DepGraph.Proofs.FailedFiles
import DepGraph.Proofs.FailingWalk
import DepGraph.Proofs.Frontier
import DepGraph.Proofs.Onward
import DepGraph.Proofs.Termination
import DepGraph.Proofs.Absorption
import DepGraph.Proofs.Locality
import DepGraph.Proofs.Superseding
import DepGraph.Proofs.JsonText
import DepGraph.Proofs.Journal
import DepGraph.Proofs.Suffixes
import DepGraph.Proofs.Packages
import DepGraph.Proofs.Snapshots
