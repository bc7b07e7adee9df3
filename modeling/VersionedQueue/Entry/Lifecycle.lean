import VersionedQueue.Bytes

/-!
# The life cycle of an entry

An entry is written as valid and retired once, by invalidation or eviction.  Its state is stored as
one byte, and any other cell content is refused.
-/

set_option autoImplicit false
set_option relaxedAutoImplicit false

namespace VersionedQueue

/-- The state of a stored entry. -/
inductive EntryState
  | valid
  | invalid
  | evicted
  deriving DecidableEq, Repr

namespace EntryState

def name : EntryState → String
  | valid => "valid"
  | invalid => "invalid"
  | evicted => "evicted"

def ofName? (s : String) : Option EntryState :=
  if s = "valid" then some valid
  else if s = "invalid" then some invalid
  else if s = "evicted" then some evicted
  else none

def encode : EntryState → Bytes
  | valid => [1]
  | invalid => [2]
  | evicted => [3]

def decode? : Bytes → Option EntryState
  | [1] => some valid
  | [2] => some invalid
  | [3] => some evicted
  | _ => none

/-- Whether an entry in this state may be handed to a consumer. -/
def isServable : EntryState → Bool
  | valid => true
  | _ => false

/-- Whether a state may be followed by another: an entry that is retired stays as it is. -/
def mayBecome : EntryState → EntryState → Bool
  | valid, _ => true
  | invalid, invalid => true
  | evicted, evicted => true
  | _, _ => false

@[simp] theorem decode?_encode (s : EntryState) : decode? s.encode = some s := by
  cases s <;> rfl

end EntryState

end VersionedQueue
