import VersionedQueue.Bytes
import VersionedQueue.Config.Basic
import VersionedQueue.Config.FileTree
import VersionedQueue.Config.Text
import VersionedQueue.Consumer.Basic
import VersionedQueue.Consumer.Claim
import VersionedQueue.Consumer.Cursor
import VersionedQueue.Entry.Basic
import VersionedQueue.Entry.Lifecycle
import VersionedQueue.Error
import VersionedQueue.Ident
import VersionedQueue.Key.Column
import VersionedQueue.Key.Row
import VersionedQueue.Limits
import VersionedQueue.Partition.Header
import VersionedQueue.Partition.Ownership
import VersionedQueue.Partition.Partitioner
import VersionedQueue.Partition.Window
import VersionedQueue.Proofs.Consumer.Ack
import VersionedQueue.Proofs.Consumer.Load
import VersionedQueue.Proofs.Consumer.Row
import VersionedQueue.Proofs.Consumer.Steps
import VersionedQueue.Proofs.Delivery.Acceptance
import VersionedQueue.Proofs.Delivery.Claims
import VersionedQueue.Proofs.Delivery.FailedLoad
import VersionedQueue.Proofs.Delivery.Gaps
import VersionedQueue.Proofs.Delivery.Genuine
import VersionedQueue.Proofs.Delivery.Reload
import VersionedQueue.Proofs.Delivery.Resumable
import VersionedQueue.Proofs.Delivery.Retry
import VersionedQueue.Proofs.Disjoint.ExactlyOnce
import VersionedQueue.Proofs.Disjoint.Fetch
import VersionedQueue.Proofs.Disjoint.Progress
import VersionedQueue.Proofs.Disjoint.Retry
import VersionedQueue.Proofs.Disjoint.Scan
import VersionedQueue.Proofs.Disjoint.Turn
import VersionedQueue.Proofs.Entries.Effects
import VersionedQueue.Proofs.Entries.Gaps
import VersionedQueue.Proofs.Entries.Sight
import VersionedQueue.Proofs.Entries.Stored
import VersionedQueue.Proofs.Run.Basic
import VersionedQueue.Proofs.Run.Footprint
import VersionedQueue.Proofs.Run.Legible
import VersionedQueue.Proofs.Run.Orderly
import VersionedQueue.Proofs.Run.Replay
import VersionedQueue.Proofs.Shared.Custody
import VersionedQueue.Proofs.Shared.ExactlyOnce
import VersionedQueue.Proofs.Shared.Fetch
import VersionedQueue.Proofs.Shared.Holding
import VersionedQueue.Proofs.Shared.Retained
import VersionedQueue.Proofs.Shared.Taking
import VersionedQueue.Proofs.Shared.Turn
import VersionedQueue.Proofs.Shared.Within
import VersionedQueue.Proofs.Storage.Answers
import VersionedQueue.Proofs.Storage.Footprint
import VersionedQueue.Proofs.Storage.Inherited
import VersionedQueue.Proofs.Storage.Mirrored
import VersionedQueue.Proofs.Storage.Reliable
import VersionedQueue.Proofs.Storage.Unreliable
import VersionedQueue.Proofs.Table.Keys
import VersionedQueue.Proofs.Table.Versions
import VersionedQueue.Proofs.Table.Writes
import VersionedQueue.Queue.Acknowledge
import VersionedQueue.Queue.Basic
import VersionedQueue.Queue.Counter
import VersionedQueue.Queue.Dequeue
import VersionedQueue.Queue.Entries
import VersionedQueue.Queue.Fetch
import VersionedQueue.Queue.Pass
import VersionedQueue.Queue.Turn
import VersionedQueue.Record.Basic
import VersionedQueue.Record.Document
import VersionedQueue.Saturating
import VersionedQueue.Storage.Basic
import VersionedQueue.Storage.Fault
import VersionedQueue.Table.Basic
import VersionedQueue.Table.Error
import VersionedQueue.Table.History
import VersionedQueue.Table.Snapshot
import VersionedQueue.Toml.Moment
import VersionedQueue.Toml.Number
import VersionedQueue.Toml.Parse
import VersionedQueue.Toml.Quoted
import VersionedQueue.Toml.Scan
import VersionedQueue.Toml.Section
import VersionedQueue.Toml.Value
import VersionedQueue.Proofs.Delivery.Redelivery
import VersionedQueue.Proofs.Delivery.Ledger
import VersionedQueue.Proofs.Delivery.Onward
import VersionedQueue.Proofs.Delivery.Finality
import VersionedQueue.Proofs.Delivery.Reopening
import VersionedQueue.Proofs.Delivery.Ownership
import VersionedQueue.Proofs.Run.Opened
import VersionedQueue.Proofs.Entries.Marks
import VersionedQueue.Proofs.Entries.Log
import VersionedQueue.Proofs.Delivery.Sources
import VersionedQueue.Proofs.Entries.Resurrection
import VersionedQueue.Proofs.Delivery.Payload
import VersionedQueue.Proofs.Delivery.Retirement
import VersionedQueue.Proofs.Storage.Coupled
import VersionedQueue.Proofs.Run.Confined
import VersionedQueue.Proofs.Run.Session
import VersionedQueue.Proofs.Delivery.Interference
import VersionedQueue.Proofs.Disjoint.Ahead
import VersionedQueue.Proofs.Delivery.Isolation
import VersionedQueue.Proofs.Delivery.Retold
import VersionedQueue.Proofs.Delivery.Imprint
import VersionedQueue.Proofs.Disjoint.Due
import VersionedQueue.Proofs.Shared.Allocated
import VersionedQueue.Proofs.Shared.Drawn
import VersionedQueue.Proofs.Delivery.Diligent
import VersionedQueue.Proofs.Delivery.Retention
import VersionedQueue.Proofs.Table.Journal
import VersionedQueue.Proofs.Table.Calls
import VersionedQueue.Proofs.Delivery.Numbering
import VersionedQueue.Proofs.Delivery.Bounds
import VersionedQueue.Proofs.Delivery.Ackable
import VersionedQueue.Proofs.Table.KeyOrder
import VersionedQueue.Proofs.Disjoint.Linear
import VersionedQueue.Proofs.Shared.LeastFirst
import VersionedQueue.Proofs.Entries.Headers
import VersionedQueue.Proofs.Disjoint.IdlePolls
import VersionedQueue.Proofs.Delivery.Termination
import VersionedQueue.Proofs.Disjoint.Tiling
import VersionedQueue.Proofs.Disjoint.Backlog
