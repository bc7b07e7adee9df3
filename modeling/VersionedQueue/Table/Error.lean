/-!
# Failures of the table

Every table operation fails for one of three causes, and a failed operation changes nothing.
-/

set_option autoImplicit false
set_option relaxedAutoImplicit false

namespace VersionedQueue

/-- Why a table operation failed. -/
inductive TableError
  /-- A row key or a column key is not usable. -/
  | invalidKey (reason : String)
  /-- An increment would leave the range of a counter. -/
  | counterOverflow (current delta : Int64)
  /-- The storage itself refused or failed the operation. -/
  | failed (operation reason : String)
  deriving DecidableEq, Repr

namespace TableError

def message : TableError → String
  | invalidKey reason => s!"invalid key: {reason}"
  | counterOverflow current delta => s!"counter overflow: {current.toInt} + {delta.toInt}"
  | failed operation reason => s!"operation '{operation}' failed: {reason}"

def emptyRow : TableError := invalidKey "row key must not be empty"

def emptyColumn : TableError := invalidKey "column key must not be empty"

end TableError

end VersionedQueue
