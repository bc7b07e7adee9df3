/-!
# Sizes

The bounds that a queue puts on its configuration, its names and its consumer groups.
-/

set_option autoImplicit false
set_option relaxedAutoImplicit false

namespace VersionedQueue.Limits

def defaultBatchSize : UInt32 := 20

def maxBatchSize : UInt32 := 1000

def maxGroupSize : UInt32 := 1024

def maxPartitionKeys : Nat := 32

/-- The largest number of bytes in a partitioning key. -/
def maxPartitionKeySize : Nat := 256

/-- The largest number of bytes in the name of a queue. -/
def maxQueueNameSize : Nat := 1024

end VersionedQueue.Limits
