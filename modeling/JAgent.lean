import JAgent.Lib.Dict
import JAgent.Lib.System
import JAgent.Lib.Kahn
import JAgent.Lib.Layering
import JAgent.Lib.Matching
import JAgent.Lib.Lockstep
import JAgent.Lib.Queue
import JAgent.Lib.Sql
import JAgent.Lib.Tasks
import JAgent.Lib.Worklist
import JAgent.Lib.Paths
import JAgent.Lib.Window
import JAgent.Lib.Ranking
import JAgent.Lib.Counting
import JAgent.Lib.Sections
import JAgent.Lib.Retained
import JAgent.Lib.Cursor
import JAgent.Lib.Attempts
import JAgent.Lib.Base64
import JAgent.Lib.Shell
import JAgent.Lib.Spans
import JAgent.Lib.Dialogue
import JAgent.Value
import JAgent.Json
import JAgent.JsonRoundTrip
import JAgent.JsonSorted
import JAgent.Models.Tools
import JAgent.Models.Plan
import JAgent.Models.Layering
import JAgent.Models.Structure
import JAgent.Models.Cycles
import JAgent.Models.Events
import JAgent.Models.Schema
import JAgent.Models.Payloads
import JAgent.Models.Ambiguity
import JAgent.Execution.Local
import JAgent.Execution.PosixPath
import JAgent.Execution.Carriers
import JAgent.Execution.Docker
import JAgent.Execution.Reaper
import JAgent.Core.DagTypes
import JAgent.Core.OutputRefs
import JAgent.Core.DagVars
import JAgent.Core.SameRefs
import JAgent.Core.FuzzySearch
import JAgent.Core.PlanGuardrail
import JAgent.Core.RevisionGuard
import JAgent.Core.Closure
import JAgent.Core.Binding
import JAgent.Core.Delivery
import JAgent.Core.Fold
import JAgent.Core.Recovery
import JAgent.Core.LenientJson
import JAgent.Core.PlanParsing
import JAgent.Core.DagExecutor
import JAgent.Core.RunState
import JAgent.Core.Compression
import JAgent.Core.WorkingView
import JAgent.Core.ContextManager
import JAgent.Core.Status
import JAgent.Core.PlanView
import JAgent.Core.Tenant
import JAgent.Tools.FileOp
import JAgent.Tools.Runtime
import JAgent.Tools.Guardrails
import JAgent.Tools.Executor
import JAgent.Tools.Retry
import JAgent.Tools.Caching
import JAgent.Tools.Mcp
import JAgent.Tools.McpSessions
import JAgent.Tools.Skills
import JAgent.Tools.OutputStore
import JAgent.Tools.Delegation
import JAgent.Tools.HttpRequest
import JAgent.Tools.Base
import JAgent.Tools.Scope
import JAgent.Tools.CommandScope
import JAgent.Tools.RateLimit
import JAgent.Tools.Addresses
import JAgent.Tools.Egress
import JAgent.Tools.Flights
import JAgent.Tools.Repeats
import JAgent.Tools.Answers
import JAgent.Tools.Approval
import JAgent.Tools.Invocations
import JAgent.Tools.Lifecycle
import JAgent.Tools.BrowserPool
import JAgent.Tools.Deletion
import JAgent.Scheduler.Machine
import JAgent.Core.Planner
import JAgent.Core.ContractExtraction
import JAgent.Scheduler.Planning
import JAgent.Scheduler.Moves
import JAgent.Scheduler.Trans
import JAgent.Scheduler.Invariants
import JAgent.Scheduler.Rounds
import JAgent.Scheduler.Executed
import JAgent.Scheduler.Completion
import JAgent.Scheduler.Process
import JAgent.Scheduler.Rerun
import JAgent.Scheduler.Merging
import JAgent.Scheduler.Dangling
import JAgent.Scheduler.References
import JAgent.Scheduler.Evidence
import JAgent.Scheduler.Ending
import JAgent.Scheduler.Control
import JAgent.Scheduler.Confirmations
import JAgent.Scheduler.Holding
import JAgent.Scheduler.Aftermath
import JAgent.Scheduler.Budget
import JAgent.Scheduler.SideEffects
import JAgent.Scheduler.Replay
import JAgent.Scheduler.KnownBad
import JAgent.Scheduler.Views
import JAgent.Scheduler.Announcing
import JAgent.Storage.Transaction
import JAgent.Storage.EventStore
import JAgent.Storage.Transitions
import JAgent.Storage.Numbering
import JAgent.Storage.Durability
import JAgent.Storage.Columns
import JAgent.Storage.Subscribers
import JAgent.Storage.Scoped
import JAgent.Storage.ParsedRows
import JAgent.Core.Orphans
import JAgent.Core.History
import JAgent.Replay.StateDiff
import JAgent.Storage.Isolation
import JAgent.Storage.Queries
import JAgent.Api.Streaming
import JAgent.Api.Confirming
import JAgent.Api.Messages
import JAgent.Api.Replies
import JAgent.Api.Broadcast
import JAgent.Monitoring.RunMonitor
import JAgent.Monitoring.Feedback
import JAgent.Analysis.Dashboard
import JAgent.Lib.Pattern
import JAgent.Lib.Segments
import JAgent.Core.Principal
import JAgent.Api.Tokens
import JAgent.Api.Access
import JAgent.Api.Requests
import JAgent.Execution.Boundary
import JAgent.Lib.Streaks
import JAgent.Scheduler.SerialLoop
import JAgent.Lib.Keyed
import JAgent.Analysis.Traces
import JAgent.Analysis.Statistics
