import VersionedQueue.Bytes
import VersionedQueue.Ident

/-!
# Claims

For each entry that a member of a shared group holds, its row stores whether the entry is claimed or
acknowledged.  An acknowledgement is final.
-/

set_option autoImplicit false
set_option relaxedAutoImplicit false

namespace VersionedQueue

/-- The claim of a consumer on an entry. -/
inductive ClaimState
  /-- Served, and not acknowledged yet. -/
  | claimed
  | acked
  deriving DecidableEq, Repr

namespace ClaimState

/-- The name of a claim in stored records. -/
def name : ClaimState → String
  | claimed => "claimed"
  | acked => "acked"

def ofName? (s : String) : Option ClaimState :=
  if s = "claimed" then some claimed
  else if s = "acked" then some acked
  else none

def display : ClaimState → String
  | claimed => "CLAIMED"
  | acked => "ACKED"

def encode : ClaimState → Bytes
  | claimed => [1]
  | acked => [2]

def decode? : Bytes → Option ClaimState
  | [1] => some claimed
  | [2] => some acked
  | _ => none

@[simp] theorem decode?_encode (s : ClaimState) : decode? s.encode = some s := by
  cases s <;> rfl

end ClaimState

/-- What is to be done with an acknowledgement. -/
inductive AckDecision
  /-- It may be written. -/
  | allowed
  /-- The consumer never claimed the entry. -/
  | neverClaimed
  /-- The consumer's claim is no longer open. -/
  | notClaimed (state : ClaimState)
  deriving DecidableEq, Repr

namespace AckDecision

/-- The decision on an acknowledgement, given the stored claim.  Members of a disjoint group write no
claims, so theirs are not checked. -/
def check (isDisjoint : Bool) (current : Option ClaimState) : AckDecision :=
  if isDisjoint then allowed
  else
    match current with
    | none => neverClaimed
    | some .claimed => allowed
    | some state => notClaimed state

def refusal? : AckDecision → Option String
  | allowed => none
  | neverClaimed => some "Entry has never been claimed."
  | notClaimed state => some s!"Entry is {state.display}"

end AckDecision

end VersionedQueue
