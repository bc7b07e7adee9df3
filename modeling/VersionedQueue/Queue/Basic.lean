import VersionedQueue.Consumer.Basic
import VersionedQueue.Entry.Basic
import VersionedQueue.Key.Row
import VersionedQueue.Storage.Basic

/-!
# Queues

A queue is a set of rows of a table under one name: a counter of entries, a row for each entry, a
counter for each group and a row for each consumer.  Its operations reach the table only through the
typed calls of this module.
-/

set_option autoImplicit false
set_option relaxedAutoImplicit false

namespace VersionedQueue

/-- What an operation remarks on without failing. -/
inductive Warning
  /-- A queue was opened with a batch size of zero. -/
  | zeroBatchSize
  /-- An acknowledged entry was handed back. -/
  | handedBackAcked
  deriving DecidableEq, Repr

def Warning.message : Warning → String
  | zeroBatchSize => "batch size 0 treated as 1"
  | handedBackAcked => "unack of acked entry ignored"

/-- A queue by name, with the configuration of consumers that have none of their own. -/
structure Queue where
  name : String
  config : Config
  deriving DecidableEq, Repr

/-- What is wrong with a stored cell. -/
inductive Corruption
  | negativeCounter (value : Int64)
  | unknownState (cell : Bytes)
  | missingPayload
  | headerSize (size : Nat)
  | idSize (size : Nat)
  | unknownClaim (cell : Bytes) (entry : EntryId)
  deriving DecidableEq, Repr

def Corruption.message : Corruption → String
  | negativeCounter value => s!"negative counter value {value.toInt}"
  | unknownState cell => s!"unknown entry meta {cell.listed}"
  | missingPayload => "valid entry has no data"
  | headerSize size => s!"partition header is {size} bytes, expected 4"
  | idSize size => s!"entry id is {size} bytes, expected 8"
  | unknownClaim cell entry => s!"unknown claim state {cell.listed} for entry {entry.toNat}"

/-- The cells of a queue as one snapshot shows them. -/
abbrev QueueView := RowKey → Column → Option Bytes

namespace Queue

/-- Open a queue.  The name is checked first, then the configuration. -/
def create (name : String) (config : Config) : Except QueueError Queue := do
  if name.isEmpty then
    throw (.invalidQueueName "queue name must not be empty")
  if Limits.maxQueueNameSize < name.utf8ByteSize then
    throw (.invalidQueueName
      s!"queue name of {name.utf8ByteSize} bytes exceeds maximum of {Limits.maxQueueNameSize}")
  config.validate
  return ⟨name, config⟩

/-- What opening a queue remarks on. -/
def warnings (q : Queue) : List Warning :=
  if q.config.batchSize = 0 then [.zeroBatchSize] else []

/-- The configuration that a consumer acknowledges under: its own, or else that of the queue. -/
def configFor (q : Queue) (c : Consumer) : Config := c.config.getD q.config

def corrupted (q : Queue) (row : RowKey) (what : Corruption) : QueueError :=
  .corruptedData (row.encode q.name).escaped what.message

def checkPointer (q : Queue) (p : Pointer) : Except QueueError Unit :=
  if p.queue = q.name then .ok () else .error (.foreignPointer q.name p.queue)

/-- Read the cells of the queue under one snapshot. -/
def view (q : Queue) (purpose : Purpose) (snapshot : Snapshot) : StorageM QueueView := do
  let cells ← Storage.view purpose snapshot
  return fun row column => cells (row.encode q.name) column.encode

def put (q : Queue) (purpose : Purpose) (row : RowKey) (cells : List (Column × Bytes))
    (version : Version) : StorageM Unit :=
  Storage.put purpose (row.encode q.name) (cells.map fun cell => (cell.1.encode, cell.2)) version

def delete (q : Queue) (purpose : Purpose) (row : RowKey) (column : Column) (version : Version) :
    StorageM Unit :=
  Storage.delete purpose (row.encode q.name) column.encode version

/-- The row in which a consumer's cursor is stored. -/
def consumerRow (c : Consumer) : RowKey := .consumer c.group c.member

/-- Write cells of a consumer's row on behalf of a reader of a snapshot. -/
def writeConsumer (q : Queue) (c : Consumer) (cells : List (Column × Bytes)) (s : Snapshot) :
    StorageM Unit :=
  q.put .writeConsumer (consumerRow c) cells s.writeVersion

end Queue

end VersionedQueue
