import VersionedQueue.Proofs.Run.Footprint
import VersionedQueue.Proofs.Storage.Reliable

/-!
# The row of a consumer

A consumer's row is known by the latest versions of its cells.  A reader that sees all versions of
the row reads the latest ones, and what it writes then is the latest itself.
-/

set_option autoImplicit false
set_option relaxedAutoImplicit false

namespace VersionedQueue

/-- The id that a cell of a consumer's row stands for. -/
def storedId? : Option Bytes → Option EntryId
  | none => some noEntry
  | some cell => cell.toUInt64?

@[simp] theorem storedId?_ofUInt64 (id : EntryId) : storedId? (some (Bytes.ofUInt64 id)) = some id :=
  Bytes.toUInt64?_ofUInt64 id

theorem Queue.decodeId_of_storedId? (q : Queue) (c : Consumer) {cell : Option Bytes} {id : EntryId}
    (h : storedId? cell = some id) : q.decodeId c cell = .ok id := by
  cases cell with
  | none =>
      cases h
      rfl
  | some cell =>
      have read : cell.toUInt64? = some id := h
      simp only [Queue.decodeId, read]

theorem Queue.storedId?_of_decodeId (q : Queue) (c : Consumer) {cell : Option Bytes} {id : EntryId}
    (h : q.decodeId c cell = .ok id) : storedId? cell = some id := by
  cases cell with
  | none =>
      cases h
      rfl
  | some cell =>
      simp only [Queue.decodeId] at h
      split at h
      · rename_i read
        cases h
        exact read
      · cases h

namespace Table

/-- The latest value of a cell of a consumer's row. -/
def stored (t : Table) (seat : Seat) (column : Column) : Option Bytes :=
  (t.history seat.row column.encode).latest

/-- The active entry and the read pointer that are stored for a consumer. -/
structure Holds (t : Table) (seat : Seat) (active readPointer : EntryId) : Prop where
  active : storedId? (t.stored seat .active) = some active
  readPointer : storedId? (t.stored seat .readPointer) = some readPointer

/-- No version of a row is newer than the given one. -/
def Until (t : Table) (row : Bytes) (v : Version) : Prop :=
  ∀ column w, (t.history row column).Has w → w ≤ v

/-- A snapshot sees every version of a row. -/
def RowSeen (t : Table) (row : Bytes) (s : Snapshot) : Prop :=
  ∀ column w, (t.history row column).Has w → s.sees w

variable {t t' : Table} {seat : Seat} {row : Bytes} {s : Snapshot} {v : Version}

theorem RowSeen.until (h : t.RowSeen row s) : t.Until row s.writeVersion := fun column w has =>
  Snapshot.le_maximum_of_sees (h column w has)

theorem Until.of_touched {rows : Bytes → Prop} (h : t.Until row v) (touched : Touched rows v t t') :
    t'.Until row v := by
  intro column w has
  by_cases now : w = v
  · exact now ▸ UInt64.le_refl _
  · have same := touched.at? row column w now
    exact h column w (by rwa [History.Has, ← same])

theorem RowSeen.shows {q : Queue} {c : Consumer} (h : t.RowSeen (q.seat c).row s) (column : Column) :
    q.shows t s (Queue.consumerRow c) column = t.stored (q.seat c) column :=
  History.read_eq_latest (h column.encode)

theorem Holds.of_stored {a r : EntryId} (h : t.Holds seat a r)
    (active : t'.stored seat .active = t.stored seat .active)
    (readPointer : t'.stored seat .readPointer = t.stored seat .readPointer) : t'.Holds seat a r :=
  ⟨active ▸ h.active, readPointer ▸ h.readPointer⟩

theorem Holds.of_alike {a r : EntryId} (h : t.Holds seat a r) (same : t.Alike t') :
    t'.Holds seat a r :=
  h.of_stored (by rw [stored, same.history, stored]) (by rw [stored, same.history, stored])

end Table

private theorem columns_nodup {cells : List (Column × Bytes)}
    (inRow : ∀ cell ∈ cells, cell.1.InConsumerRow) (distinct : (cells.map (·.1)).Nodup) :
    ((cells.map fun cell => (cell.1.encode, cell.2)).map (·.1)).Nodup := by
  rw [List.map_map, List.Nodup, List.pairwise_map]
  rw [List.Nodup, List.pairwise_map] at distinct
  refine distinct.imp_of_mem ?_
  intro a b memA memB different same
  exact different (Column.encode_injective_of_consumer (inRow a memA) (inRow b memB) same)

section Cells

variable {t : Table} {seat : Seat} {cells : List (Column × Bytes)} {v : Version}
  (inRow : ∀ cell ∈ cells, cell.1.InConsumerRow)

include inRow

theorem Table.history_recordAll_of_cell (distinct : (cells.map (·.1)).Nodup) {column : Column}
    {x : Bytes} (mem : (column, x) ∈ cells) :
    (t.recordAll seat.row (cells.map fun cell => (cell.1.encode, cell.2)) v).history seat.row
      column.encode = (t.history seat.row column.encode).record v (some x) :=
  Table.history_recordAll_of_mem (columns_nodup inRow distinct)
    (List.mem_map.2 ⟨(column, x), mem, rfl⟩)

theorem Table.history_recordAll_of_column {column : Column} (own : column.InConsumerRow)
    (out : column ∉ cells.map (·.1)) :
    (t.recordAll seat.row (cells.map fun cell => (cell.1.encode, cell.2)) v).history seat.row
      column.encode = t.history seat.row column.encode := by
  apply Table.history_recordAll_of_notMem
  simp only [List.map_map, List.mem_map, Function.comp_apply, not_exists, not_and]
  rintro cell mem same
  have here := Column.encode_injective_of_consumer (inRow cell mem) own same
  exact out (List.mem_map.2 ⟨cell, mem, here⟩)

end Cells

theorem Table.stored_recordAll {t t' : Table} {seat : Seat} {cells : List (Column × Bytes)}
    {v : Version} (table : t' = t.recordAll seat.row (cells.map fun cell => (cell.1.encode, cell.2)) v)
    (inRow : ∀ cell ∈ cells, cell.1.InConsumerRow) (distinct : (cells.map (·.1)).Nodup)
    (newest : t.Until seat.row v) :
    (∀ column x, (column, x) ∈ cells → t'.stored seat column = some x) ∧
      ∀ column, column.InConsumerRow → column ∉ cells.map (·.1) →
        t'.history seat.row column.encode = t.history seat.row column.encode := by
  rw [table]
  refine ⟨fun column x mem => ?_, fun column own out => history_recordAll_of_column inRow own out⟩
  rw [Table.stored, history_recordAll_of_cell inRow distinct mem]
  exact History.latest_record (newest column.encode) _

/-- A consumer's write is the latest in the columns that it writes, and leaves the others. -/
theorem Queue.answers_putConsumer (q : Queue) (purpose : Purpose) (c : Consumer)
    (cells : List (Column × Bytes)) (s : Snapshot) {st : Storage} (reliable : st.Reliable)
    (inRow : ∀ cell ∈ cells, cell.1.InConsumerRow) (distinct : (cells.map (·.1)).Nodup)
    (newest : st.table.Until (q.seat c).row s.writeVersion) :
    Answers (q.put purpose (consumerRow c) cells s.writeVersion) st fun _ st' =>
      st'.Reliable ∧ st.table.Touched (· = (q.seat c).row) s.writeVersion st'.table ∧
        (∀ column x, (column, x) ∈ cells → st'.table.stored (q.seat c) column = some x) ∧
        ∀ column, column.InConsumerRow → column ∉ cells.map (·.1) →
          st'.table.history (q.seat c).row column.encode =
            st.table.history (q.seat c).row column.encode := by
  refine (q.answers_put purpose (consumerRow c) cells s.writeVersion reliable).imp ?_
  rintro _ st' ⟨table, plan⟩
  change st'.table = st.table.recordAll (q.seat c).row _ _ at table
  have touched : st.table.Touched (· = (q.seat c).row) s.writeVersion st'.table :=
    .of_recordAll table
  exact ⟨⟨plan.trans reliable.1, touched.refuses.trans reliable.2⟩, touched,
    Table.stored_recordAll table inRow distinct newest⟩

end VersionedQueue
