import VersionedQueue.Ident

/-!
# Ownership by hash

The members of a group divide the hash values among themselves by the remainder on division by the
size of the group.
-/

set_option autoImplicit false
set_option relaxedAutoImplicit false

namespace VersionedQueue.Partition

/-- The member that owns a hash value: its Euclidean remainder by the size of the group, which
negative hashes have too.  An empty group owns nothing. -/
def owner (hash : Int32) (groupSize : UInt32) : Option InstanceId :=
  if groupSize = 0 then none
  else some (UInt32.ofNat (hash.toInt % (groupSize.toNat : Int)).toNat)

/-- Whether a member owns an entry, given the hash in the entry's header.  Nobody owns an entry
without that header. -/
def owns (hash : Option Int32) (groupSize : UInt32) (member : InstanceId) : Bool :=
  match hash with
  | some hash => owner hash groupSize == some member
  | none => false

end VersionedQueue.Partition
