import ProjectIndex.Backend
import ProjectIndex.Broadcast
import ProjectIndex.Change
import ProjectIndex.CommandLine.Arguments
import ProjectIndex.CommandLine.Duration
import ProjectIndex.CommandLine.Grid
import ProjectIndex.CommandLine.Help
import ProjectIndex.CommandLine.Run
import ProjectIndex.Crawl.Task
import ProjectIndex.Decimal.Nearest
import ProjectIndex.Decimal.Shortest
import ProjectIndex.Diagnostic
import ProjectIndex.Disk.Basic
import ProjectIndex.Disk.Create
import ProjectIndex.Disk.Edit
import ProjectIndex.Disk.Listing
import ProjectIndex.Error
import ProjectIndex.Glob.Pattern
import ProjectIndex.Glob.Select
import ProjectIndex.Index.Basic
import ProjectIndex.Json.Reader
import ProjectIndex.Json.Shape
import ProjectIndex.Json.Skip
import ProjectIndex.Json.Value
import ProjectIndex.Log.Filter
import ProjectIndex.Log.Journal
import ProjectIndex.Log.Line
import ProjectIndex.Main
import ProjectIndex.Manifest.Basic
import ProjectIndex.Manifest.Declaration
import ProjectIndex.Manifest.Layout
import ProjectIndex.Manifest.Normalise
import ProjectIndex.Native
import ProjectIndex.Notice
import ProjectIndex.Path.Basic
import ProjectIndex.Policy
import ProjectIndex.Projects
import ProjectIndex.Session.Feed
import ProjectIndex.Session.Job
import ProjectIndex.Session.Report
import ProjectIndex.Session.Stage
import ProjectIndex.Settings.Basic
import ProjectIndex.Settings.Datum
import ProjectIndex.Settings.File
import ProjectIndex.Settings.Json
import ProjectIndex.Settings.Typed
import ProjectIndex.Settings.Variable
import ProjectIndex.Sha256
import ProjectIndex.Status
import ProjectIndex.Store.Basic
import ProjectIndex.Store.Effect
import ProjectIndex.Store.Scope
import ProjectIndex.SystemError
import ProjectIndex.Text.Blank
import ProjectIndex.Text.Columns
import ProjectIndex.Text.Emoji
import ProjectIndex.Text.Hex
import ProjectIndex.Text.Letters
import ProjectIndex.Text.Marks
import ProjectIndex.Text.Quoted
import ProjectIndex.Text.Ranges
import ProjectIndex.Text.Unseen
import ProjectIndex.Text.Utf8
import ProjectIndex.Text.Width
import ProjectIndex.Toml.Document
import ProjectIndex.Toml.Fault
import ProjectIndex.Toml.Reader
import ProjectIndex.Toml.Scalar
import ProjectIndex.Toml.Writer
import ProjectIndex.Watch.Call
import ProjectIndex.Watch.Facade
import ProjectIndex.Watch.Host
import ProjectIndex.Watch.Roots
import ProjectIndex.Wire
import ProjectIndex.World
import ProjectIndex.Proofs.Path.Containment
import ProjectIndex.Proofs.Watch.Apart
import ProjectIndex.Proofs.Store.Quiet
import ProjectIndex.Proofs.Crawl.Moves
import ProjectIndex.Proofs.Crawl.Edits
import ProjectIndex.Proofs.Watch.Interleaving
import ProjectIndex.Proofs.Watch.Nesting
import ProjectIndex.Proofs.Watch.Withdrawal
import ProjectIndex.Proofs.Index.Eviction
import ProjectIndex.Proofs.Index.Sound
import ProjectIndex.Proofs.Crawl.Stance
import ProjectIndex.Proofs.Crawl.Agreement
import ProjectIndex.Proofs.Crawl.Debt
import ProjectIndex.Proofs.Crawl.Ending
import ProjectIndex.Proofs.Crawl.Declarations
import ProjectIndex.Proofs.Crawl.WholeCrawls
import ProjectIndex.Proofs.Watch.Alone
import ProjectIndex.Proofs.Disk.Tree
import ProjectIndex.Proofs.Watch.Exactness
import ProjectIndex.Proofs.Disk.Walk
import ProjectIndex.Proofs.Watch.Refreshes
import ProjectIndex.Proofs.Watch.Convergence
import ProjectIndex.Proofs.Watch.Failures
import ProjectIndex.Proofs.Watch.Histories
import ProjectIndex.Proofs.Watch.InForce
import ProjectIndex.Proofs.Crawl.Journal
import ProjectIndex.Proofs.Crawl.Bearing
import ProjectIndex.Proofs.Store.Delivery
import ProjectIndex.Proofs.Watch.Replay
import ProjectIndex.Proofs.Index.Departures
import ProjectIndex.Proofs.Crawl.Failing
import ProjectIndex.Proofs.Crawl.Shifting
import ProjectIndex.Proofs.Crawl.Revisit
import ProjectIndex.Proofs.Watch.Retry
import ProjectIndex.Proofs.Index.Anchored
import ProjectIndex.Proofs.Crawl.Deeds
import ProjectIndex.Proofs.Watch.Kinds
import ProjectIndex.Proofs.Watch.Backing
import ProjectIndex.Proofs.Watch.Forgetting
import ProjectIndex.Proofs.Crawl.Turns
import ProjectIndex.Proofs.Watch.Announcements
import ProjectIndex.Proofs.Store.Calls
import ProjectIndex.Proofs.Crawl.Dealings
import ProjectIndex.Proofs.Watch.Subscriptions
import ProjectIndex.Proofs.Crawl.Footprint
import ProjectIndex.Proofs.Watch.RoundTrip
import ProjectIndex.Proofs.Watch.OpenRoots
import ProjectIndex.Proofs.Crawl.Excerpt
import ProjectIndex.Proofs.Crawl.Accretion
import ProjectIndex.Proofs.Watch.Subsumption
import ProjectIndex.Proofs.Path.Relative
import ProjectIndex.Proofs.Disk.Straight
import ProjectIndex.Proofs.Watch.Spellings
import ProjectIndex.Proofs.Disk.Links
import ProjectIndex.Proofs.Index.Attested
import ProjectIndex.Proofs.Crawl.Survey
import ProjectIndex.Proofs.Watch.Standstill
import ProjectIndex.Proofs.Watch.Coverage
import ProjectIndex.Proofs.Store.Projects
import ProjectIndex.Proofs.Store.Sendings
import ProjectIndex.Proofs.Crawl.Leaves
import ProjectIndex.Proofs.Crawl.Bookings
import ProjectIndex.Proofs.Watch.Association
import ProjectIndex.Proofs.Index.Operations
import ProjectIndex.Proofs.Watch.Parallel
import ProjectIndex.Proofs.Manifest.Phases
import ProjectIndex.Proofs.Manifest.Registry
import ProjectIndex.Proofs.Manifest.LastWord
import ProjectIndex.Proofs.Path.Order
import ProjectIndex.Proofs.Index.Walks
import ProjectIndex.Proofs.Index.Removal
import ProjectIndex.Proofs.Index.Listings
import ProjectIndex.Proofs.Crawl.Completions
import ProjectIndex.Proofs.Crawl.Stints
import ProjectIndex.Proofs.Crawl.Precedence
import ProjectIndex.Proofs.Crawl.OneEntry
import ProjectIndex.Proofs.Watch.Settling
import ProjectIndex.Proofs.Crawl.Sinks
import ProjectIndex.Proofs.Crawl.Frontier
import ProjectIndex.Proofs.Watch.Accounts
import ProjectIndex.Proofs.Watch.Remarks
import ProjectIndex.Proofs.Crawl.NewFiles
import ProjectIndex.Proofs.Watch.Newcomers
import ProjectIndex.Proofs.Watch.Concordance
import ProjectIndex.Proofs.Crawl.Answering
import ProjectIndex.Proofs.Watch.Answers
import ProjectIndex.Proofs.Store.Stages
import ProjectIndex.Proofs.Crawl.Uneventful
import ProjectIndex.Proofs.Crawl.Founding
import ProjectIndex.Proofs.Crawl.Entering
import ProjectIndex.Proofs.Crawl.Initializing
import ProjectIndex.Proofs.Watch.Initialization
import ProjectIndex.Proofs.Path.Ancestry
import ProjectIndex.Proofs.Path.Lexical
import ProjectIndex.Proofs.Path.NormalForm
import ProjectIndex.Proofs.Path.Nearest
import ProjectIndex.Proofs.Text.Encoded
import ProjectIndex.Proofs.Manifest.Interest
import ProjectIndex.Proofs.Json.Sorted
import ProjectIndex.Proofs.Manifest.Strictness
import ProjectIndex.Proofs.Store.Subtrees
import ProjectIndex.Proofs.Watch.Changes
import ProjectIndex.Proofs.Store.Registration
