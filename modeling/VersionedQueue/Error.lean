import VersionedQueue.Ident
import VersionedQueue.Table.Error

/-!
# Failures of a queue

An empty queue is not a failure.  Failures are mistakes of the caller, except those of the storage
behind the queue and of the data found there, which are internal.
-/

set_option autoImplicit false
set_option relaxedAutoImplicit false

namespace VersionedQueue

/-- Why the file of a configuration could not be read. -/
inductive ReadFailure
  /-- There is no such file. -/
  | notFound
  /-- The path goes on behind a file. -/
  | notDirectory
  /-- The path names a directory. -/
  | isDirectory
  | nameTooLong
  /-- The path holds a byte that no path may hold. -/
  | badPath
  | notText
  deriving DecidableEq, Repr

def ReadFailure.message : ReadFailure → String
  | notFound => "No such file or directory (os error 2)"
  | notDirectory => "Not a directory (os error 20)"
  | isDirectory => "Is a directory (os error 21)"
  | nameTooLong => "File name too long (os error 36)"
  | badPath => "file name contained an unexpected NUL byte"
  | notText => "stream did not contain valid UTF-8"

/-- Why an operation on a queue failed. -/
inductive QueueError
  /-- An acknowledgement of an entry that the consumer does not hold. -/
  | illegalAck (entry : EntryId) (reason : String)
  /-- A table operation failed. -/
  | internal (operation : String) (source : TableError)
  /-- The partitioning of an entry cannot be written as header cells. -/
  | headerSerialization (reason : String)
  /-- A stored cell is not what the queue writes there. -/
  | corruptedData (key reason : String)
  /-- A consumer that cannot be used with the partitioner. -/
  | invalidConsumer (reason : String)
  | invalidConfig (reason : String)
  /-- A name that no queue may have. -/
  | invalidQueueName (reason : String)
  /-- A pointer into another queue. -/
  | foreignPointer (expected actual : String)
  /-- The file of a configuration could not be read. -/
  | readConfig (path : String) (source : ReadFailure)
  /-- A text that is not a configuration. -/
  | parseConfig
  deriving DecidableEq, Repr

namespace QueueError

/-- The text of a failure.  A configuration text that does not parse is reported without one. -/
def message : QueueError → Option String
  | illegalAck entry reason => some s!"illegal ack of entry {entry.toNat}: {reason}"
  | internal operation source =>
      some s!"internal error during {operation}: {source.message}"
  | headerSerialization reason => some s!"header serialization failed: {reason}"
  | corruptedData key reason => some s!"corrupted data in key '{key}': {reason}"
  | invalidConsumer reason => some s!"invalid consumer: {reason}"
  | invalidConfig reason => some s!"invalid queue config: {reason}"
  | invalidQueueName reason => some s!"invalid queue name: {reason}"
  | foreignPointer expected actual =>
      some s!"pointer for queue '{actual}' used with queue '{expected}'"
  | readConfig path source => some s!"failed to read config file {path}: {source.message}"
  | parseConfig => none

/-- Whether a failure is no mistake of the caller. -/
def isInternal : QueueError → Bool
  | internal _ _ | headerSerialization _ | corruptedData _ _ => true
  | _ => false

end QueueError

end VersionedQueue
