/-!
# Documents

Records are written to and read from documents: trees of texts, numbers, lists and named fields.  The
formats that store documents differ in how they mark a choice that carries nothing.
-/

set_option autoImplicit false
set_option relaxedAutoImplicit false

namespace VersionedQueue

/-- A document, before it is read as a record. -/
inductive Document
  | null
  | bool (b : Bool)
  | integer (n : Int)
  | text (s : String)
  | list (items : List Document)
  | fields (entries : List (String × Document))
  /-- A number with a fraction, a date, or another value that no record holds. -/
  | other
  deriving Repr, Inhabited

/-- A format that stores documents. -/
inductive Format
  | json
  | toml
  deriving DecidableEq, Repr

namespace Format

/-- Whether a value marks a choice that carries nothing: the null value, or an empty table or array
where the format has no null value. -/
def isBlank : Format → Document → Bool
  | json, .null => true
  | toml, .fields [] | toml, .list [] => true
  | _, _ => false

end Format

namespace Document

/-- The fields of a record by name, in the order of the given names.  A record may also be a list of
its fields in that order, from which fields may be missing at the end. -/
def record? (names : List String) : Document → Option (List (Option Document))
  | fields entries => some (names.map fun name => entries.lookup name)
  | list items =>
      if items.length ≤ names.length then
        some (items.map some ++ List.replicate (names.length - items.length) none)
      else none
  | _ => none

/-- The name of a choice that carries nothing: a text, or a single field without content. -/
def choice? (format : Format) : Document → Option String
  | text s => some s
  | fields [(name, content)] => if format.isBlank content then some name else none
  | _ => none

def text? : Document → Option String
  | text s => some s
  | _ => none

def integer? (low high : Int) : Document → Option Int
  | integer n => if low ≤ n ∧ n ≤ high then some n else none
  | _ => none

def uint8? (d : Document) : Option UInt8 :=
  (d.integer? 0 (UInt8.size - 1)).map fun n => UInt8.ofNat n.toNat

def uint32? (d : Document) : Option UInt32 :=
  (d.integer? 0 (UInt32.size - 1)).map fun n => UInt32.ofNat n.toNat

def uint64? (d : Document) : Option UInt64 :=
  (d.integer? 0 (UInt64.size - 1)).map fun n => UInt64.ofNat n.toNat

def int32? (d : Document) : Option Int32 :=
  (d.integer? Int32.minValue.toInt Int32.maxValue.toInt).map Int32.ofInt

/-- A list of values of one kind. -/
def listOf? {α : Type} (read : Document → Option α) : Document → Option (List α)
  | list items => items.mapM read
  | _ => none

/-- Named values of one kind. -/
def mapOf? {α : Type} (read : Document → Option α) : Document → Option (List (String × α))
  | fields entries => entries.mapM fun entry => (read entry.2).map (entry.1, ·)
  | _ => none

/-- A value that may be null. -/
def orNull? {α : Type} (read : Document → Option α) : Document → Option (Option α)
  | null => some none
  | d => (read d).map some

/-- A field that must be there. -/
def required? {α : Type} (read : Document → Option α) (field : Option Document) : Option α :=
  field.bind read

/-- A field that has a default. -/
def default? {α : Type} (fallback : α) (read : Document → Option α) :
    Option Document → Option α
  | none => some fallback
  | some d => read d

def ofNat (n : Nat) : Document := integer n

end Document

end VersionedQueue
