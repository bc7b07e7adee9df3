import VersionedQueue.Queue.Pass

/-!
# Fetching

A consumer goes on pass by pass until a pass finds entries or finds that there are none.  Passes come
to an end, since each that goes on moves the cursor or the pointer of the group forward.
-/

set_option autoImplicit false
set_option relaxedAutoImplicit false

namespace VersionedQueue.Queue

/-- Fetch for a member of a disjoint group, and keep what was found in the cache. -/
def fetchDisjoint (q : Queue) (c : Consumer) (config : Config) (s : Snapshot) : TurnM Unit :=
  fun t =>
    match _h : q.disjointPass c config s t with
    | .ok .passed t' => q.fetchDisjoint c config s t'
    | .ok (.found entries) t' => .ok () { t' with cursor := { t'.cursor with cache := ⟨entries⟩ } }
    | .ok .exhausted t' => .ok () t'
    | .error e t' => .error e t'
termination_by t => UInt64.size - t.cursor.readPointer.toNat
decreasing_by
  have forward := UInt64.lt_iff_toNat_lt.1 (readPointer_lt_of_disjointPass _h)
  have below := t'.cursor.readPointer.toNat_lt
  rw [UInt64.size]
  omega

/-- Fetch for a member of a shared group, and keep what was found in the cache. -/
def fetchShared (q : Queue) (c : Consumer) (s : Snapshot) : TurnM Unit :=
  fun t =>
    match _h : q.sharedPass c s t with
    | .ok .passed t' => q.fetchShared c s t'
    | .ok (.found entries) t' => .ok () { t' with cursor := { t'.cursor with cache := ⟨entries⟩ } }
    | .ok .exhausted t' => .ok () t'
    | .error e t' => .error e t'
termination_by t => q.claimsLeft c t
decreasing_by exact claimsLeft_lt_of_sharedPass _h

def fetch (q : Queue) (c : Consumer) (config : Config) (s : Snapshot) : TurnM Unit :=
  match config.partitioner with
  | .hash => q.fetchDisjoint c config s
  | .roundRobin => q.fetchShared c s

end VersionedQueue.Queue
