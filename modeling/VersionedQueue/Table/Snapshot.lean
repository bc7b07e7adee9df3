import Std.Data.TreeSet
import VersionedQueue.Ident
import VersionedQueue.Saturating

/-!
# Snapshots and timestamps

A snapshot sees the versions up to a maximum, except those of transactions that were in flight when
it was taken.  A clock hands out the versions and snapshots of one process.
-/

set_option autoImplicit false
set_option relaxedAutoImplicit false

namespace VersionedQueue

/-- A bound on the versions that a read may see. -/
structure Snapshot where
  /-- The highest version that may be seen. -/
  maximum : Version
  /-- The versions that are hidden although they are not above the maximum. -/
  excluded : Std.TreeSet Version := {}

namespace Snapshot

def upTo (maximum : Version) : Snapshot := ⟨maximum, {}⟩

/-- The snapshot that sees every version up to `maximum` but the given ones. -/
def upToExcept (maximum : Version) (excluded : List Version) : Snapshot :=
  ⟨maximum, Std.TreeSet.ofList excluded⟩

/-- Whether a write at version `v` is seen. -/
def sees (s : Snapshot) (v : Version) : Bool := v ≤ s.maximum && !s.excluded.contains v

/-- The version of the writes that are made on behalf of a reader of this snapshot. -/
def writeVersion (s : Snapshot) : Version := s.maximum

end Snapshot

/-- The source of the timestamps of one process, with the last one handed out. -/
structure Clock where
  last : UInt64 := 0
  deriving DecidableEq, Repr

namespace Clock

/-- The next timestamp, and the clock after it.  The counter behind a clock wraps at its end, the
timestamp handed out there does not. -/
def tick (c : Clock) : UInt64 × Clock :=
  (Saturating.add c.last 1, ⟨c.last + 1⟩)

/-- A snapshot that sees every version handed out so far, and the clock after it. -/
def snapshot (c : Clock) : Snapshot × Clock := (Snapshot.upTo c.tick.1, c.tick.2)

end Clock

end VersionedQueue
