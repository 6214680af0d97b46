import FlagPlane.Machine
import FlagPlane.KeyedLog
import FlagPlane.LogReader
import FlagPlane.Fnv
import FlagPlane.Double
import FlagPlane.Uuid
import FlagPlane.Json
import FlagPlane.JsonText
import FlagPlane.Lines
import FlagPlane.Model.Flag
import FlagPlane.Repository.Tables
import FlagPlane.Repository.Transaction
import FlagPlane.Repository.Effect
import FlagPlane.Repository.Invariant
import FlagPlane.Repository.Preservation
import FlagPlane.Repository.LogReplay
import FlagPlane.Repository.Watermark
import FlagPlane.Repository.RowChain
import FlagPlane.Repository.Lives
import FlagPlane.Repository.Atomicity
import FlagPlane.Repository.Serial
import FlagPlane.Hash.Rollout
import FlagPlane.Service.Requests
import FlagPlane.Client.Go
import FlagPlane.Client.TypeScript
import FlagPlane.Client.Evaluate
import FlagPlane.Sse.Wire
import FlagPlane.Sse.Broker
import FlagPlane.Sse.Handlers
import FlagPlane.Sse.Drain
import FlagPlane.Client.Simulation
import FlagPlane.Client.Browser
import FlagPlane.Client.Version
import FlagPlane.Client.CaughtUp
import FlagPlane.Client.Lifecycle
import FlagPlane.Client.Responses
import FlagPlane.Client.LastKnownGood
import FlagPlane.Sse.WireText
import FlagPlane.Sse.TornStream
import FlagPlane.Client.Reconcile
import FlagPlane.Handler.Bootstrap
import FlagPlane.Service.FlagService
import FlagPlane.Client.Stream
import FlagPlane.Migrate.Run
import FlagPlane.Repository.Returns
import FlagPlane.Service.Calls
import FlagPlane.Service.Outbox
import FlagPlane.Handler.Admin
import FlagPlane.Handler.Validation
import FlagPlane.Handler.ConditionalPut
import FlagPlane.Handler.RacingCreates
import FlagPlane.Handler.Events
import FlagPlane.Handler.History
import FlagPlane.Client.Paging
import FlagPlane.Chaos.EventCount
import FlagPlane.Chaos.ConcurrentWriters
import FlagPlane.Chaos.FinalState
import FlagPlane.Chaos.EnsureFlag
import FlagPlane.Fleet.Replicas
import FlagPlane.Fleet.Agreement
import FlagPlane.Fleet.Monitor
import FlagPlane.Fleet.Relay
import FlagPlane.Frontend.Explain
import FlagPlane.Frontend.RolloutGrid
import FlagPlane.Fleet.Tabs
import FlagPlane.Fleet.TabAgreement
import FlagPlane.Frontend.Convergence
import FlagPlane.Frontend.EditForm
