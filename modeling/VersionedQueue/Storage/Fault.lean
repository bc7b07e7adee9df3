/-!
# Failing storage

The calls to a table are numbered by kind, and a fault plan says which of them fail.  With it a run
against failing storage is a function like any other.
-/

set_option autoImplicit false
set_option relaxedAutoImplicit false

namespace VersionedQueue

/-- The kinds of calls to a table. -/
inductive Access
  | get
  | put
  | delete
  | increment
  deriving DecidableEq, Repr

namespace Access

def name : Access → String
  | get => "get"
  | put => "put"
  | delete => "delete"
  | increment => "increment"

def ofName? (s : String) : Option Access :=
  [get, put, delete, increment].find? (·.name == s)

end Access

/-- The number of calls of each kind so far. -/
structure Tally where
  gets : Nat := 0
  puts : Nat := 0
  deletes : Nat := 0
  increments : Nat := 0
  deriving DecidableEq, Repr

namespace Tally

def count (t : Tally) : Access → Nat
  | .get => t.gets
  | .put => t.puts
  | .delete => t.deletes
  | .increment => t.increments

def add (t : Tally) : Access → Tally
  | .get => { t with gets := t.gets + 1 }
  | .put => { t with puts := t.puts + 1 }
  | .delete => { t with deletes := t.deletes + 1 }
  | .increment => { t with increments := t.increments + 1 }

end Tally

/-- Whether the call of a kind with a number fails; calls are numbered from zero. -/
abbrev FaultPlan := Access → Nat → Bool

namespace FaultPlan

/-- Storage that works. -/
def none : FaultPlan := fun _ _ => false

/-- Calls of one kind fail from a number on. -/
def startingAt (kind : Access) (number : Nat) : FaultPlan := fun other n =>
  other == kind && decide (number ≤ n)

end FaultPlan

end VersionedQueue
