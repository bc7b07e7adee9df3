/-!
# Identifiers

The numbers by which a queue names its entries, its consumer groups, the instances of a group,
and the versions of a write.
-/

set_option autoImplicit false
set_option relaxedAutoImplicit false

namespace VersionedQueue

/-- The number of an entry.  Entries are numbered from one; zero names no entry. -/
abbrev EntryId := UInt64

abbrev GroupId := UInt64

/-- The number of one consumer within its group. -/
abbrev InstanceId := UInt32

/-- The version stamped on a write. -/
abbrev Version := UInt64

def noEntry : EntryId := 0

def firstEntry : EntryId := 1

/-- A version as it is shown: `v` and the number. -/
def Version.display (v : Version) : String := "v" ++ toString v.toNat

end VersionedQueue
