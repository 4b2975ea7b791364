import HaCluster.Api.Reply
import HaCluster.Api.Request
import HaCluster.Cbor.Item
import HaCluster.Cbor.Reader
import HaCluster.Clock
import HaCluster.Cluster.Change
import HaCluster.Cluster.Layout
import HaCluster.Cluster.Parents
import HaCluster.Cluster.Summary
import HaCluster.Cluster.View
import HaCluster.Daemon.Derived
import HaCluster.Daemon.Settings
import HaCluster.Daemon.State
import HaCluster.Decimal.Binary
import HaCluster.Decimal.Fixed
import HaCluster.Decimal.Shortest
import HaCluster.Decode.Error
import HaCluster.Decode.Named
import HaCluster.Decode.Quoted
import HaCluster.Decode.Record
import HaCluster.Decode.Scalar
import HaCluster.Heartbeat.Interval
import HaCluster.Heartbeat.Registry
import HaCluster.Json.Document
import HaCluster.Json.Number
import HaCluster.Json.Printer
import HaCluster.Json.Reader
import HaCluster.Launch.Command
import HaCluster.Launch.Script
import HaCluster.Monitor.Round
import HaCluster.Monitor.Run
import HaCluster.Monitor.World
import HaCluster.Node.Blob
import HaCluster.Node.Data
import HaCluster.Node.Decision
import HaCluster.Node.Monitor
import HaCluster.Node.Update
import HaCluster.Placement.Hash
import HaCluster.Placement.Order
import HaCluster.Power
import HaCluster.Proofs.Cbor.Float
import HaCluster.Proofs.Cbor.Number
import HaCluster.Proofs.Cbor.Reader
import HaCluster.Proofs.Clock.Difference
import HaCluster.Proofs.Clock.Rounding
import HaCluster.Proofs.Clock.Whole
import HaCluster.Proofs.Cluster.Children
import HaCluster.Proofs.Cluster.Counts
import HaCluster.Proofs.Cluster.Hidden
import HaCluster.Proofs.Cluster.Isolated
import HaCluster.Proofs.Cluster.View
import HaCluster.Proofs.Daemon.Ahead
import HaCluster.Proofs.Daemon.Document
import HaCluster.Proofs.Daemon.Frame
import HaCluster.Proofs.Daemon.Peers
import HaCluster.Proofs.Daemon.Record
import HaCluster.Proofs.Daemon.Refusals
import HaCluster.Proofs.Daemon.Report
import HaCluster.Proofs.Daemon.Requests
import HaCluster.Proofs.Daemon.Update
import HaCluster.Proofs.Daemon.View
import HaCluster.Proofs.Decode.Record
import HaCluster.Proofs.Decode.Tree
import HaCluster.Proofs.Heartbeat.Sums
import HaCluster.Proofs.Json.Number
import HaCluster.Proofs.Json.Reader
import HaCluster.Proofs.Monitor.Actions
import HaCluster.Proofs.Monitor.Attempts
import HaCluster.Proofs.Monitor.Budget
import HaCluster.Proofs.Monitor.Counters
import HaCluster.Proofs.Monitor.Course
import HaCluster.Proofs.Monitor.Debounce
import HaCluster.Proofs.Monitor.Drain
import HaCluster.Proofs.Monitor.Exchange
import HaCluster.Proofs.Monitor.Frame
import HaCluster.Proofs.Monitor.Maintenance
import HaCluster.Proofs.Monitor.Order
import HaCluster.Proofs.Monitor.Parts
import HaCluster.Proofs.Monitor.Playback
import HaCluster.Proofs.Monitor.Purge
import HaCluster.Proofs.Monitor.Ready
import HaCluster.Proofs.Monitor.Restarts
import HaCluster.Proofs.Monitor.Retain
import HaCluster.Proofs.Monitor.Stages
import HaCluster.Proofs.Monitor.Startup
import HaCluster.Proofs.Monitor.Transient
import HaCluster.Proofs.Monitor.Unreported
import HaCluster.Proofs.Monitor.WellFormed
import HaCluster.Proofs.Node.Beside
import HaCluster.Proofs.Node.Blob
import HaCluster.Proofs.Node.Counters
import HaCluster.Proofs.Node.Frame
import HaCluster.Proofs.Node.Legible
import HaCluster.Proofs.Node.Record
import HaCluster.Proofs.Node.Recorded
import HaCluster.Proofs.Node.State
import HaCluster.Proofs.Placement.Hash
import HaCluster.Proofs.Placement.Order
import HaCluster.Proofs.Replication.Codec
import HaCluster.Proofs.Replication.Copy
import HaCluster.Proofs.Replication.Feed
import HaCluster.Proofs.Replication.Restart
import HaCluster.Proofs.Replication.Safety
import HaCluster.Proofs.Replication.Trust
import HaCluster.Proofs.Replication.Withheld
import HaCluster.Proofs.Service.Admission
import HaCluster.Proofs.Service.Asked
import HaCluster.Proofs.Service.Cleared
import HaCluster.Proofs.Service.Election
import HaCluster.Proofs.Service.Flex
import HaCluster.Proofs.Service.Hidden
import HaCluster.Proofs.Service.Isolated
import HaCluster.Proofs.Service.Record
import HaCluster.Proofs.Service.Retries
import HaCluster.Proofs.Service.Rulings
import HaCluster.Proofs.Service.Start
import HaCluster.Proofs.Service.Stop
import HaCluster.Proofs.Service.Transient
import HaCluster.Proofs.Service.Unseen
import HaCluster.Proofs.Status.Pool
import HaCluster.Proofs.Store.Atomic
import HaCluster.Proofs.Store.Edits
import HaCluster.Proofs.Store.Frame
import HaCluster.Proofs.Store.Journal
import HaCluster.Proofs.Store.Keys
import HaCluster.Proofs.Store.Repeat
import HaCluster.Proofs.Tree.Amend
import HaCluster.Proofs.Tree.Diff
import HaCluster.Proofs.Tree.Edit
import HaCluster.Proofs.Tree.Entries
import HaCluster.Proofs.Tree.Equality
import HaCluster.Proofs.Tree.Follow
import HaCluster.Proofs.Tree.Keep
import HaCluster.Proofs.Tree.Local
import HaCluster.Proofs.Tree.Number
import HaCluster.Proofs.Tree.Prune
import HaCluster.Proofs.Tree.Replay
import HaCluster.Proofs.Tree.Wire
import HaCluster.Replication.Message
import HaCluster.Replication.PeerTable
import HaCluster.Replication.Publisher
import HaCluster.Service.Action
import HaCluster.Service.Config
import HaCluster.Service.Decision
import HaCluster.Service.Instance
import HaCluster.Service.Update
import HaCluster.Simulation.Cluster
import HaCluster.Simulation.Mesh
import HaCluster.Simulation.Sketch
import HaCluster.Simulation.World
import HaCluster.Span.Basic
import HaCluster.Span.Text
import HaCluster.Status.Pool
import HaCluster.Status.Reading
import HaCluster.Store.Basic
import HaCluster.Store.Wire
import HaCluster.Text.Blank
import HaCluster.Text.Visible
import HaCluster.Toml.Document
import HaCluster.Toml.Number
import HaCluster.Toml.Reader
import HaCluster.Toml.Text
import HaCluster.Tree.Diff
import HaCluster.Tree.Edit
import HaCluster.Tree.Entries
import HaCluster.Tree.Path
import HaCluster.Tree.Value
import HaCluster.Tree.Wire
