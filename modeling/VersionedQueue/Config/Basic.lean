import VersionedQueue.Error
import VersionedQueue.Limits
import VersionedQueue.Partition.Partitioner
import VersionedQueue.Partition.Window

/-!
# Configurations

A configuration names a partitioner and the number of entries that a member fetches at a time.
-/

set_option autoImplicit false
set_option relaxedAutoImplicit false

namespace VersionedQueue

/-- How a queue is divided and read. -/
structure Config where
  partitioner : Partitioner
  batchSize : UInt32 := Limits.defaultBatchSize
  deriving DecidableEq, Repr

namespace Config

/-- The batch size that fetching uses: a shared partitioner takes one entry at a time, and zero
counts as one. -/
def effectiveBatchSize (c : Config) : UInt64 :=
  match c.partitioner with
  | .hash => Window.effectiveBatchSize c.batchSize
  | .roundRobin => 1

def validate (c : Config) : Except QueueError Unit :=
  if Limits.maxBatchSize < c.batchSize then
    .error (.invalidConfig
      s!"batch size {c.batchSize.toNat} exceeds maximum of {Limits.maxBatchSize.toNat}")
  else .ok ()

end Config

end VersionedQueue
