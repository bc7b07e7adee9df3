import VersionedQueue.Bytes
import VersionedQueue.Ident

/-!
# Column keys

A column key is one byte, for some columns followed by an id or by a partitioning key.  Columns
need to differ only within the rows that carry them: counter rows, entry rows and consumer rows
number theirs independently.
-/

set_option autoImplicit false
set_option relaxedAutoImplicit false

namespace VersionedQueue

/-- The columns of the rows of a queue. -/
inductive Column
  /-- The value of a counter row. -/
  | counter
  | state
  /-- The payload of an entry. -/
  | payload
  /-- The hash of an entry for one partitioning key. -/
  | header (key : String)
  /-- The entry that a consumer was served and has not acknowledged. -/
  | active
  /-- The claim of a consumer on one entry. -/
  | claim (id : EntryId)
  /-- The highest id that a consumer has moved past. -/
  | readPointer
  deriving DecidableEq, Repr

namespace Column

def encode : Column → Bytes
  | counter => [10]
  | state => [10]
  | payload => [20]
  | header key => 30 :: Bytes.ofText key
  | active => [10]
  | claim id => 20 :: Bytes.ofUInt64 id
  | readPointer => [30]

end Column

end VersionedQueue
