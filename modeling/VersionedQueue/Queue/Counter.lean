import VersionedQueue.Queue.Basic

/-!
# Counters

Entry ids, group ids and the ids that a group claims come from counters, each in a row of its own.
A counter is read by adding zero to it.
-/

set_option autoImplicit false
set_option relaxedAutoImplicit false

namespace VersionedQueue

/-- The id that a counter stands at; no id is negative. -/
def counterId? (n : Int64) : Option UInt64 :=
  if 0 ≤ n.toInt then some (UInt64.ofNat n.toInt.toNat) else none

namespace Queue

/-- Add to the counter of a row, and answer where it stands. -/
def count (q : Queue) (purpose : Purpose) (row : RowKey) (delta : Int64) : StorageM UInt64 := do
  let value ← Storage.increment purpose (row.encode q.name) Column.counter.encode delta
  match counterId? value with
  | some id => return id
  | none => throw (q.corrupted row (.negativeCounter value))

def allocateEntryId (q : Queue) : StorageM EntryId := q.count .allocateEntryId .entryCounter 1

/-- The highest entry id that was ever allocated. -/
def writePointer (q : Queue) : StorageM EntryId := q.count .readWritePointer .entryCounter 0

def allocateGroupId (q : Queue) : StorageM GroupId := q.count .allocateGroupId .groupCounter 1

/-- The highest id that a group has claimed. -/
def groupPointer (q : Queue) (group : GroupId) : StorageM EntryId :=
  q.count .readGroupPointer (.groupPointer group) 0

/-- Claim the next id for a group; the caller is its only owner within the group. -/
def claimId (q : Queue) (group : GroupId) : StorageM EntryId :=
  q.count .claimGroupPointer (.groupPointer group) 1

theorem increment_of_count {q : Queue} {purpose : Purpose} {row : RowKey} {delta : Int64}
    {s s' : Storage} {id : UInt64} (h : q.count purpose row delta s = .ok id s') :
    ∃ value, counterId? value = some id ∧
      TableM.increment (row.encode q.name) Column.counter.encode delta s.table =
        .ok value s'.table := by
  obtain ⟨value, t, counted, rest⟩ := ok_of_bind h
  cases found : counterId? value with
  | none =>
      rw [found] at rest
      cases rest
  | some next =>
      rw [found] at rest
      cases rest
      exact ⟨value, found, Storage.table_of_call counted⟩

end Queue

/-- What is known of a queue at one time. -/
structure QueueInfo where
  name : String
  /-- The highest entry id that was ever allocated, or zero. -/
  writePointer : EntryId
  deriving DecidableEq, Repr

def Queue.info (q : Queue) : StorageM QueueInfo := do
  return ⟨q.name, ← q.writePointer⟩

end VersionedQueue
