import Std.Data.TreeMap
import VersionedQueue.Table.Error
import VersionedQueue.Table.History

/-!
# The versioned table

A table maps a row key and a column key to the history of a cell.  Counters live beside the cells:
they have no versions, and every increment is seen at once.
-/

set_option autoImplicit false
set_option relaxedAutoImplicit false

namespace VersionedQueue

/-- The place of a cell: the keys of its row and its column. -/
structure Place where
  row : Bytes
  column : Bytes
  deriving DecidableEq, Repr

namespace Place

/-- Places are ordered by row, and within a row by column. -/
instance : Ord Place := ⟨compareLex (compareOn Place.row) (compareOn Place.column)⟩

instance : Std.TransOrd Place :=
  inferInstanceAs (Std.TransCmp (compareLex (compareOn Place.row) (compareOn Place.column)))

instance : Std.LawfulEqOrd Place where
  eq_of_compare {a b} h := by
    have parts : (compare a.row b.row).then (compare a.column b.column) = .eq := h
    rw [Ordering.then_eq_eq] at parts
    cases a
    cases b
    simp_all

end Place

/-- A row as a reader sees it: the columns that have a value. -/
abbrev Row := Std.TreeMap Bytes Bytes

/-- A table in memory. -/
structure Table where
  /-- The cells that were ever written. -/
  cells : Std.TreeMap Place History := {}
  /-- The counters that were ever incremented. -/
  counters : Std.TreeMap Place Int64 := {}
  /-- Whether every increment is made to fail. -/
  refusesIncrements : Bool := false

namespace Table

/-- The history of a cell. -/
def history (t : Table) (row column : Bytes) : History := t.cells.getD ⟨row, column⟩ .empty

/-- The value of a cell that a snapshot reads. -/
def read (t : Table) (s : Snapshot) (row column : Bytes) : Option Bytes :=
  (t.history row column).read s

/-- The value of a counter; a counter starts at zero. -/
def counter (t : Table) (row column : Bytes) : Int64 := t.counters.getD ⟨row, column⟩ 0

/-- The number of versions of a cell, deletions included. -/
def versionCount (t : Table) (row column : Bytes) : Nat := (t.history row column).size

/-- Write one version of one cell. -/
def record (t : Table) (row column : Bytes) (version : Version) (value : Option Bytes) : Table :=
  { t with cells := t.cells.insert ⟨row, column⟩ ((t.history row column).record version value) }

/-- The columns of one row that a snapshot reads a value for, among those asked for. -/
def readRow (t : Table) (s : Snapshot) (columns : List Bytes) (row : Bytes) : Row :=
  columns.foldl
    (fun found column =>
      match t.read s row column with
      | some value => found.insert column value
      | none => found)
    {}

/-- Read columns of many rows under one snapshot.  A column without a visible value is left out of
its row, and a row without such a column is left out of the answer. -/
def get (t : Table) (rows columns : List Bytes) (s : Snapshot) : Std.TreeMap Bytes Row :=
  rows.foldl
    (fun found row =>
      let seen := t.readRow s columns row
      if seen.isEmpty then found else found.insert row seen)
    {}

/-- The sum of two signed 64-bit numbers, if it is one. -/
def checkedAdd (a b : Int64) : Option Int64 :=
  let sum := a.toInt + b.toInt
  if Int64.minValue.toInt ≤ sum ∧ sum ≤ Int64.maxValue.toInt then some (Int64.ofInt sum) else none

/-- Set a counter. -/
def setCounter (t : Table) (row column : Bytes) (value : Int64) : Table :=
  { t with counters := t.counters.insert ⟨row, column⟩ value }

end Table

/-- An operation on a table: it answers or fails, and leaves a table behind either way. -/
abbrev TableM := EStateM TableError Table

namespace TableM

/-- The values of all cells under one snapshot. -/
def view (snapshot : Snapshot) : TableM (Bytes → Bytes → Option Bytes) := fun t =>
  .ok (t.read snapshot) t

/-- Write several cells of one row at one version.  Every key is checked before the first write; of
two cells with one column the later one stays. -/
def put (row : Bytes) (cells : List (Bytes × Bytes)) (version : Version) : TableM Unit := fun t =>
  if row.isEmpty then .error .emptyRow t
  else if cells.any (·.1.isEmpty) then .error .emptyColumn t
  else .ok () (cells.foldl (fun t cell => t.record row cell.1 version (some cell.2)) t)

/-- Delete a cell as of one version; snapshots that do not see the version still read the cell. -/
def delete (row column : Bytes) (version : Version) : TableM Unit := fun t =>
  if row.isEmpty then .error .emptyRow t
  else if column.isEmpty then .error .emptyColumn t
  else .ok () (t.record row column version none)

/-- Add to a counter, and answer its new value.  Adding zero reads the counter. -/
def increment (row column : Bytes) (delta : Int64) : TableM Int64 := fun t =>
  if row.isEmpty then .error .emptyRow t
  else if column.isEmpty then .error .emptyColumn t
  else if t.refusesIncrements then .error (.failed "increment_atomic" "injected failure") t
  else
    match Table.checkedAdd (t.counter row column) delta with
    | none => .error (.counterOverflow (t.counter row column) delta) t
    | some next => .ok next (t.setCounter row column next)

/-- The operation for a caller that holds the table itself, and keeps the one it has where it fails. -/
def heldOn {α : Type} (act : TableM α) (t : Table) : Except TableError (α × Table) :=
  match act t with
  | .ok a t' => .ok (a, t')
  | .error e _ => .error e

end TableM

namespace Table

/-- Write several cells of one row of a table that the caller holds. -/
def put (t : Table) (row : Bytes) (cells : List (Bytes × Bytes)) (version : Version) :
    Except TableError Table := ((TableM.put row cells version).heldOn t).map (·.2)

/-- Delete a cell of a table that the caller holds. -/
def delete (t : Table) (row column : Bytes) (version : Version) : Except TableError Table :=
  ((TableM.delete row column version).heldOn t).map (·.2)

/-- Add to a counter of a table that the caller holds. -/
def increment (t : Table) (row column : Bytes) (delta : Int64) : Except TableError (Int64 × Table) :=
  (TableM.increment row column delta).heldOn t

theorem toInt_of_checkedAdd {a b c : Int64} (h : checkedAdd a b = some c) :
    c.toInt = a.toInt + b.toInt := by
  simp only [checkedAdd] at h
  split at h
  · rename_i range
    cases h
    exact Int64.toInt_ofInt_of_le range.1 (Int.lt_add_one_of_le range.2)
  · cases h

theorem counter_setCounter (t : Table) (row column : Bytes) (value : Int64) (r c : Bytes) :
    (t.setCounter row column value).counter r c =
      if r = row ∧ c = column then value else t.counter r c := by
  simp only [counter, setCounter, Std.TreeMap.getD_insert, Std.LawfulEqCmp.compare_eq_iff_eq,
    Place.mk.injEq, @eq_comm _ row, @eq_comm _ column]

end Table

namespace TableM

variable {t t' : Table} {row column : Bytes} {delta next : Int64}

/-- What a successful increment does to the table. -/
theorem of_increment (h : increment row column delta t = .ok next t') :
    t.refusesIncrements = false ∧ Table.checkedAdd (t.counter row column) delta = some next ∧
      t' = t.setCounter row column next := by
  unfold increment at h
  split at h
  · cases h
  · split at h
    · cases h
    · split at h
      · cases h
      · rename_i works
        split at h
        · cases h
        · rename_i sum
          cases h
          exact ⟨by simpa using works, sum, rfl⟩

theorem counter_of_increment (h : increment row column delta t = .ok next t') :
    Table.checkedAdd (t.counter row column) delta = some next ∧
      ∀ r c, t'.counter r c = if r = row ∧ c = column then next else t.counter r c := by
  obtain ⟨_, sum, rfl⟩ := of_increment h
  exact ⟨sum, Table.counter_setCounter t row column next⟩

theorem counter_of_increment_zero (h : increment row column 0 t = .ok next t') (r c : Bytes) :
    t'.counter r c = t.counter r c := by
  obtain ⟨sum, counters⟩ := counter_of_increment h
  rw [counters]
  split
  · rename_i same
    rw [same.1, same.2]
    apply Int64.toInt_inj.1
    simpa using Table.toInt_of_checkedAdd sum
  · rfl

end TableM

end VersionedQueue
