import VersionedQueue.Bytes
import VersionedQueue.Ident

/-!
# Row keys

A queue owns five families of rows.  A row key is the length of the queue's name in two bytes, the
name, one byte for the family, and the ids of the row in fixed width.  The length in front keeps the
rows of two queues apart even when one name begins with the other, and the fixed width makes the
byte order of entry rows the order of their ids.
-/

set_option autoImplicit false
set_option relaxedAutoImplicit false

namespace VersionedQueue

/-- The rows of one queue. -/
inductive RowKey
  /-- The counter of entry ids. -/
  | entryCounter
  /-- The counter of the ids that a group has claimed. -/
  | groupPointer (group : GroupId)
  /-- The state, payload and headers of one entry. -/
  | entry (id : EntryId)
  /-- The stored cursor of one consumer. -/
  | consumer (group : GroupId) (member : InstanceId)
  /-- The counter of group ids. -/
  | groupCounter
  deriving DecidableEq, Repr

namespace RowKey

/-- The byte that tells the families apart. -/
def family : RowKey → UInt8
  | entryCounter => 10
  | groupPointer _ => 11
  | entry _ => 20
  | consumer _ _ => 30
  | groupCounter => 40

/-- The ids that a row key ends in. -/
def ids : RowKey → Bytes
  | entryCounter | groupCounter => []
  | groupPointer group => Bytes.ofUInt64 group
  | entry id => Bytes.ofUInt64 id
  | consumer group member => Bytes.ofUInt64 group ++ Bytes.ofUInt32 member

/-- What the rows of one queue begin with. -/
def namespaceOf (queue : String) : Bytes :=
  let name := Bytes.ofText queue
  Bytes.ofUInt16 (UInt16.ofNat name.length) ++ name

def encode (queue : String) (key : RowKey) : Bytes :=
  namespaceOf queue ++ key.family :: key.ids

end RowKey

end VersionedQueue
