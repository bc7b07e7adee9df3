import VersionedQueue.Partition.Ownership

/-!
# Partitioners

A partitioner decides which member of a group owns which entry.  The hash partitioner is disjoint:
each member finds its entries by itself.  The round-robin partitioner is shared: the members take
ids one by one from a pointer of the group.
-/

set_option autoImplicit false
set_option relaxedAutoImplicit false

namespace VersionedQueue

/-- The two ways to divide a queue among the members of a group. -/
inductive Partitioner
  /-- An entry belongs to the member that its header hash maps to. -/
  | hash
  /-- An entry belongs to the member that took its id from the group's pointer. -/
  | roundRobin
  deriving DecidableEq, Repr

/-- A text that names no partitioner. -/
structure UnknownPartitioner where
  text : String
  deriving DecidableEq, Repr

def UnknownPartitioner.message (e : UnknownPartitioner) : String :=
  s!"invalid partitioner: '{e.text}' (expected: hash, round_robin, fifo)"

namespace Partitioner

/-- Whether members decide on ownership without coordination. -/
def isDisjoint : Partitioner → Bool
  | hash => true
  | roundRobin => false

theorem isDisjoint_iff {p : Partitioner} : p.isDisjoint = true ↔ p = hash := by
  cases p <;> simp [isDisjoint]

/-- Whether ownership depends on the headers of entries. -/
def usesHeaders : Partitioner → Bool
  | hash => true
  | roundRobin => false

def name : Partitioner → String
  | hash => "hash"
  | roundRobin => "round_robin"

def ofName? (s : String) : Option Partitioner :=
  if s = "hash" then some hash
  else if s = "round_robin" ∨ s = "fifo" then some roundRobin
  else none

/-- The partitioner that a user names, in any case of letters.  Only ASCII letters are lowered: no
other letter has a lower case that occurs in the name of a partitioner. -/
def parse (s : String) : Except UnknownPartitioner Partitioner :=
  let lowered := s.map Char.toLower
  if lowered = "hash" then .ok hash
  else if lowered = "round_robin" ∨ lowered = "roundrobin" ∨ lowered = "fifo" then .ok roundRobin
  else .error ⟨s⟩

/-- Whether a member of a group is to emit an entry with the given header hash.  A shared partitioner
has settled ownership when the id was claimed. -/
def shouldEmit (p : Partitioner) (groupSize : UInt32) (member : InstanceId) (hash : Option Int32) :
    Bool :=
  match p with
  | .hash => Partition.owns hash groupSize member
  | .roundRobin => true

end Partitioner

end VersionedQueue
