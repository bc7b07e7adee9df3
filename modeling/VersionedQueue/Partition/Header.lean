import Std.Data.TreeMap
import VersionedQueue.Key.Column
import VersionedQueue.Limits

/-!
# Partition headers

An entry carries a hash for each of its partitioning keys, in one header cell per key.
-/

set_option autoImplicit false
set_option relaxedAutoImplicit false

namespace VersionedQueue

/-- The hashes of an entry by partitioning key, in the order of the keys. -/
abbrev Partitioning := Std.TreeMap String Int32

/-- Why a partitioning cannot be written as header cells. -/
inductive HeaderRejection
  | tooManyKeys (count : Nat)
  | emptyKey
  | keyTooLarge (size : Nat)
  deriving DecidableEq, Repr

def HeaderRejection.message : HeaderRejection → String
  | tooManyKeys count =>
      s!"{count} partitioning keys exceeds maximum of {Limits.maxPartitionKeys}"
  | emptyKey => "partitioning key must not be empty"
  | keyTooLarge size =>
      s!"partitioning key of {size} bytes exceeds maximum of {Limits.maxPartitionKeySize}"

namespace Partitioning

/-- The header cell of one partitioning key. -/
def headerCell (key : String) (hash : Int32) : Except HeaderRejection (Column × Bytes) :=
  if key.isEmpty then .error .emptyKey
  else if Limits.maxPartitionKeySize < key.utf8ByteSize then .error (.keyTooLarge key.utf8ByteSize)
  else .ok (.header key, Bytes.ofInt32 hash)

/-- The header cells of a partitioning, in the order of its keys.  The number of keys is checked
first, and then the first bad key decides. -/
def headerCells (p : Partitioning) : Except HeaderRejection (List (Column × Bytes)) :=
  if Limits.maxPartitionKeys < p.size then .error (.tooManyKeys p.size)
  else p.toList.mapM fun cell => headerCell cell.1 cell.2

end Partitioning

end VersionedQueue
