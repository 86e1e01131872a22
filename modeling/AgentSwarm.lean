import AgentSwarm.Agent.Basic
import AgentSwarm.Agent.History
import AgentSwarm.Agent.Role
import AgentSwarm.Consensus.Aggregate
import AgentSwarm.Consensus.Combine
import AgentSwarm.Consensus.Result
import AgentSwarm.Consensus.Tally
import AgentSwarm.Decimal.Notation
import AgentSwarm.Decimal.Shortest
import AgentSwarm.Duration
import AgentSwarm.Event
import AgentSwarm.EventBus
import AgentSwarm.Executor.Basic
import AgentSwarm.Executor.Run
import AgentSwarm.Executor.Step
import AgentSwarm.Executor.World
import AgentSwarm.Form.Basic
import AgentSwarm.Form.Mismatch
import AgentSwarm.Form.OfText
import AgentSwarm.Form.OfTree
import AgentSwarm.Form.OfYaml
import AgentSwarm.Form.View
import AgentSwarm.Form.Writer
import AgentSwarm.Http.Basic
import AgentSwarm.Identifier
import AgentSwarm.Inference
import AgentSwarm.Json.Basic
import AgentSwarm.Json.Fault
import AgentSwarm.Json.Number
import AgentSwarm.Json.Reader
import AgentSwarm.Json.Writer
import AgentSwarm.Log.Filter
import AgentSwarm.Log.Pattern
import AgentSwarm.Manifest.Basic
import AgentSwarm.Manifest.Discovery
import AgentSwarm.Manifest.Environment
import AgentSwarm.Manifest.Fault
import AgentSwarm.Manifest.Settings
import AgentSwarm.Manifest.Yaml
import AgentSwarm.Outcome
import AgentSwarm.Prompt
import AgentSwarm.Provider.Answer
import AgentSwarm.Provider.Basic
import AgentSwarm.Provider.Connection
import AgentSwarm.Provider.Course
import AgentSwarm.Provider.Embedded
import AgentSwarm.Provider.OfManifest
import AgentSwarm.Provider.Registry
import AgentSwarm.Quota
import AgentSwarm.Roster
import AgentSwarm.Scalar
import AgentSwarm.Strategy.Basic
import AgentSwarm.Strategy.Plan
import AgentSwarm.Swarm.Basic
import AgentSwarm.Swarm.Blueprint
import AgentSwarm.Swarm.Report
import AgentSwarm.SwarmError
import AgentSwarm.Task
import AgentSwarm.Template.Basic
import AgentSwarm.Template.Reader
import AgentSwarm.Template.Render
import AgentSwarm.Template.Tag
import AgentSwarm.Text.Alphanumeric
import AgentSwarm.Text.Blank
import AgentSwarm.Text.Digits
import AgentSwarm.Text.Hidden
import AgentSwarm.Text.Order
import AgentSwarm.Text.Quoted
import AgentSwarm.Timestamp
import AgentSwarm.Variant
import AgentSwarm.Yaml.Core
import AgentSwarm.Yaml.Cursor
import AgentSwarm.Yaml.Node
import AgentSwarm.Yaml.Scalar
import AgentSwarm.Yaml.Token
import AgentSwarm.Yaml.Writer
import AgentSwarm.Proofs.Executor.Lookup
import AgentSwarm.Proofs.Strategy.Coverage
import AgentSwarm.Proofs.Strategy.Order
import AgentSwarm.Proofs.Strategy.Rounds
import AgentSwarm.Proofs.Members
import AgentSwarm.Proofs.Consensus.Verdict
import AgentSwarm.Proofs.Executor.Turn
import AgentSwarm.Proofs.Executor.Permits
import AgentSwarm.Proofs.Executor.Runs
import AgentSwarm.Proofs.Executor.Ceiling
import AgentSwarm.Proofs.Executor.Course
import AgentSwarm.Proofs.Executor.Accounts
import AgentSwarm.Proofs.Executor.Timetable
import AgentSwarm.Proofs.Executor.Complete
import AgentSwarm.Proofs.Executor.Awake
import AgentSwarm.Proofs.Executor.Measure
import AgentSwarm.Proofs.Executor.Progress
import AgentSwarm.Proofs.Executor.Cancel
import AgentSwarm.Proofs.Executor.Schedule
import AgentSwarm.Proofs.Executor.Pacing
import AgentSwarm.Proofs.Consensus.Exact
import AgentSwarm.Proofs.Consensus.Participation
import AgentSwarm.Proofs.Executor.Cells
import AgentSwarm.Proofs.Executor.OutsideView
import AgentSwarm.Proofs.Executor.QuotaIsolation
import AgentSwarm.Proofs.Provider.Routing
import AgentSwarm.Proofs.Swarm.TaskProgress
import AgentSwarm.Proofs.Swarm.Events
import AgentSwarm.Proofs.Agent.History
import AgentSwarm.Proofs.Consensus.Blocs
import AgentSwarm.Proofs.Consensus.Leader
import AgentSwarm.Proofs.Consensus.Majority
import AgentSwarm.Proofs.Consensus.Provenance
import AgentSwarm.Proofs.Swarm.Life
import AgentSwarm.Proofs.Swarm.Entries
import AgentSwarm.Proofs.Swarm.Books
import AgentSwarm.Proofs.Decimal.Shortest
import AgentSwarm.Proofs.Decimal.Notation
import AgentSwarm.Proofs.Decimal.Double
import AgentSwarm.Proofs.Json.Strings
import AgentSwarm.Proofs.Json.Compact
import AgentSwarm.Proofs.Json.Equality
import AgentSwarm.Proofs.Consensus.Keys
import AgentSwarm.Proofs.Consensus.Scaling
import AgentSwarm.Proofs.Consensus.Concord
import AgentSwarm.Proofs.Provider.Retries
import AgentSwarm.Proofs.Text.Search
import AgentSwarm.Text.Bytes
import AgentSwarm.Proofs.Provider.Fences
import AgentSwarm.Proofs.Provider.Bare
import AgentSwarm.Proofs.Roster.Changes
import AgentSwarm.Proofs.Swarm.Enrolment
import AgentSwarm.Proofs.Swarm.Assembly
import AgentSwarm.Proofs.EventBus.Accounts
import AgentSwarm.Proofs.Json.Spread
import AgentSwarm.Proofs.Prompt.Standard
import AgentSwarm.Proofs.Decimal.Finite
import AgentSwarm.Proofs.Json.Numbers
import AgentSwarm.Proofs.Json.Reread
import AgentSwarm.Proofs.Duration.Reread
import AgentSwarm.Proofs.Identifier.Reread
import AgentSwarm.Proofs.Timestamp.Calendar
import AgentSwarm.Proofs.Timestamp.Reread
import AgentSwarm.Proofs.Consensus.Agreement
import AgentSwarm.Proofs.Agent.Averages
import AgentSwarm.Proofs.Manifest.Environment
import AgentSwarm.Proofs.Provider.Confidence
import AgentSwarm.Proofs.Form.Fits
import AgentSwarm.Proofs.Provider.Tokens
import AgentSwarm.Proofs.Form.Tree
import AgentSwarm.Proofs.Form.Text
import AgentSwarm.Proofs.Form.Library
