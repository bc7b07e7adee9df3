import VersionedQueue.Partition.Header

/-!
# Entries

What a producer hands to a queue, the pointer by which an entry is named afterwards, and what a
consumer gets.
-/

set_option autoImplicit false
set_option relaxedAutoImplicit false

namespace VersionedQueue

/-- A payload with the hashes that it is partitioned by. -/
structure Entry where
  payload : Bytes
  partitioning : Partitioning := {}

/-- The name of an entry: its queue and its id. -/
structure Pointer where
  queue : String
  id : EntryId
  deriving DecidableEq, Repr

namespace Pointer

def display (p : Pointer) : String := s!"{p.queue}#{p.id.toNat}"

/-- Whether one pointer comes before another: by the bytes of the queue's name, then by id.  The
order of texts by code point is the order of their UTF-8 bytes. -/
def le (p q : Pointer) : Bool := p.queue < q.queue || (p.queue == q.queue && p.id ≤ q.id)

def sort (ps : List Pointer) : List Pointer := ps.mergeSort le

end Pointer

/-- The answer to a consumer that asks for the next entry. -/
inductive Delivery
  /-- An entry is handed out. -/
  | served (pointer : Pointer) (entry : Entry)
  /-- Nothing is available now. -/
  | empty

namespace Delivery

def isEmpty : Delivery → Bool
  | served _ _ => false
  | empty => true

def pointer? : Delivery → Option Pointer
  | served pointer _ => some pointer
  | empty => none

def entry? : Delivery → Option Entry
  | served _ entry => some entry
  | empty => none

def served? : Delivery → Option (Pointer × Entry)
  | served pointer entry => some (pointer, entry)
  | empty => none

end Delivery

end VersionedQueue
