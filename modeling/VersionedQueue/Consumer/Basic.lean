import VersionedQueue.Config.Basic

/-!
# Consumers

A consumer is one member of a group.  Every group sees every entry of a queue, and its members
divide the entries among themselves.
-/

set_option autoImplicit false
set_option relaxedAutoImplicit false

namespace VersionedQueue

/-- The identity of a consumer. -/
structure Consumer where
  group : GroupId
  /-- The number of this member, below the size of the group. -/
  member : InstanceId
  groupSize : UInt32
  /-- The header that the hash partitioner looks at. -/
  partitioningKey : Option String := none
  /-- The consumer's own configuration, in place of that of the queue. -/
  config : Option Config := none
  deriving DecidableEq, Repr

namespace Consumer

def hasPartitioningKey (c : Consumer) : Bool :=
  match c.partitioningKey with
  | some key => !key.isEmpty
  | none => false

/-- The header that the consumer looks at; one without a partitioning key looks at an unnamed one. -/
def headerKey (c : Consumer) : String := c.partitioningKey.getD ""

/-- Refuse a consumer that the partitioner cannot serve.  The size of the group is checked first,
then the number of the member, then the partitioning key. -/
def validate (c : Consumer) (p : Partitioner) : Except QueueError Unit :=
  if c.groupSize = 0 ∨ Limits.maxGroupSize < c.groupSize then
    .error (.invalidConsumer
      s!"group size {c.groupSize.toNat} must be in 1..={Limits.maxGroupSize.toNat}")
  else if c.groupSize ≤ c.member then
    .error (.invalidConsumer
      s!"instance id {c.member.toNat} must be below group size {c.groupSize.toNat}")
  else if p.usesHeaders && !c.hasPartitioningKey then
    .error (.invalidConsumer "hash partitioner requires a partitioning key")
  else .ok ()

end Consumer

end VersionedQueue
