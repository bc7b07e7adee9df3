import VersionedQueue.Proofs.Storage.Answers
import VersionedQueue.Proofs.Table.Keys
import VersionedQueue.Proofs.Table.Writes
import VersionedQueue.Queue.Turn

/-!
# Calls to storage that works

Where no call is made to fail, each call of a queue answers, and what it answers and does is a matter
of the table alone.
-/

set_option autoImplicit false
set_option relaxedAutoImplicit false

namespace VersionedQueue

/-- Two tables with the same histories and the same counters. -/
structure Table.Alike (t t' : Table) : Prop where
  history : ∀ row column, t'.history row column = t.history row column
  counter : ∀ row column, t'.counter row column = t.counter row column
  refuses : t'.refusesIncrements = t.refusesIncrements

/-- Where the counter of a row stands. -/
def Table.standing (t : Table) (row : Bytes) : Int := (t.counter row Column.counter.encode).toInt

namespace Table.Alike

variable {t t' t'' : Table}

theorem refl (t : Table) : t.Alike t := ⟨fun _ _ => rfl, fun _ _ => rfl, rfl⟩

theorem trans (first : t.Alike t') (second : t'.Alike t'') : t.Alike t'' where
  history row column := (second.history row column).trans (first.history row column)
  counter row column := (second.counter row column).trans (first.counter row column)
  refuses := second.refuses.trans first.refuses

theorem standing (h : t.Alike t') (row : Bytes) : t'.standing row = t.standing row := by
  simp only [Table.standing, h.counter]

theorem touched (h : t.Alike t') (rows : Bytes → Prop) (v : Version) : t.Touched rows v t' where
  history row _ column := h.history row column
  counter row _ column := h.counter row column
  at? row column v _ := by rw [h.history]
  has row column v has := by rwa [h.history]
  counter_le row column := Int.le_of_eq (by rw [h.counter])
  refuses := h.refuses

theorem read (h : t.Alike t') (s : Snapshot) : t'.read s = t.read s := by
  funext row column
  simp only [Table.read, h.history]

end Table.Alike

theorem Table.Touched.alike {v : Version} {t t' : Table} (h : t.Touched (fun _ => False) v t') :
    t.Alike t' where
  history row column := h.history row id column
  counter row column := h.counter row id column
  refuses := h.refuses

theorem toInt_of_counterId? {n : Int64} {id : UInt64} (h : counterId? n = some id) :
    (id.toNat : Int) = n.toInt := by
  unfold counterId? at h
  split at h
  · have round : (UInt64.ofNat n.toInt.toNat).toNat = n.toInt.toNat := by
      rw [UInt64.toNat_ofNat']
      apply Nat.mod_eq_of_lt
      have below := n.toInt_lt
      omega
    cases h
    omega
  · cases h

theorem exists_counterId? {n : Int64} (nonneg : 0 ≤ n.toInt) : ∃ id, counterId? n = some id :=
  ⟨_, if_pos nonneg⟩

theorem Table.exists_id_of_standing {t : Table} {row : Bytes} (counted : 0 ≤ t.standing row) :
    ∃ id : EntryId, (id.toNat : Int) = t.standing row :=
  (exists_counterId? counted).imp fun _ => toInt_of_counterId?

namespace Storage

/-- No call is made to fail. -/
def Reliable (s : Storage) : Prop := s.plan = .none ∧ s.table.refusesIncrements = false

/-- The tables are alike, and the same calls are made to fail. -/
def Alike (s s' : Storage) : Prop := s.table.Alike s'.table ∧ s'.plan = s.plan

theorem Alike.refl (s : Storage) : s.Alike s := ⟨.refl _, rfl⟩

theorem Alike.trans {s s' s'' : Storage} (first : s.Alike s') (second : s'.Alike s'') :
    s.Alike s'' := ⟨first.1.trans second.1, second.2.trans first.2⟩

theorem Reliable.of_alike {s s' : Storage} (h : s.Reliable) (same : s.Alike s') : s'.Reliable :=
  ⟨same.2.trans h.1, same.1.refuses.trans h.2⟩

/-- A call that is not made to fail does what it was made for. -/
theorem answers_call_of_spared {α : Type} {purpose : Purpose} {kind : Access} {act : TableM α}
    {s : Storage} {a : α} {t : Table} {post : α → Storage → Prop}
    (spared : s.plan kind (s.calls.count kind) = false) (done : act s.table = .ok a t)
    (h : ∀ s', s'.table = t → s'.plan = s.plan → post a s') :
    Answers (call purpose kind act) s post := by
  refine ⟨a, { s with calls := s.calls.add kind, table := t }, ?_, h _ rfl rfl⟩
  simp [call, spared, done]

theorem answers_call {α : Type} {purpose : Purpose} {kind : Access} {act : TableM α} {s : Storage}
    {a : α} {t : Table} {post : α → Storage → Prop} (calm : s.plan = .none)
    (done : act s.table = .ok a t) (h : ∀ s', s'.table = t → s'.plan = s.plan → post a s') :
    Answers (call purpose kind act) s post :=
  answers_call_of_spared (by rw [calm]; rfl) done h

end Storage

namespace Queue

variable (q : Queue) {st : Storage}

/-- The cells of the queue as a snapshot shows them in a table. -/
def shows (t : Table) (s : Snapshot) : QueueView := fun row column =>
  t.read s (row.encode q.name) column.encode

theorem shows_of_alike {t t' : Table} (same : t.Alike t') (s : Snapshot) :
    q.shows t' s = q.shows t s := by
  funext row column
  simp only [shows, same.read]

theorem view_eq (purpose : Purpose) (s : Snapshot) (st : Storage) :
    q.view purpose s st =
      if st.plan .get st.calls.gets then
        .error (.internal purpose.text (.failed Access.get.name "injected"))
          { st with calls := st.calls.add .get }
      else .ok (q.shows st.table s) { st with calls := st.calls.add .get } := by
  by_cases fails : st.plan .get st.calls.gets = true
  · rw [if_pos fails]
    refine bind_eq_of_error ?_
    simp only [Storage.view, Storage.call, Tally.count, fails, if_true]
  · rw [if_neg fails]
    refine (bind_eq_of_ok (a := st.table.read s) ?_).trans rfl
    simp only [Storage.view, Storage.call, Tally.count, fails, Bool.false_eq_true, if_false,
      TableM.view]

theorem answers_view_of_calm (purpose : Purpose) (s : Snapshot) (calm : st.plan = .none) :
    Answers (q.view purpose s) st fun view st' => view = q.shows st.table s ∧ st.Alike st' := by
  have read : Answers (Storage.view purpose s) st fun cells st' =>
      cells = st.table.read s ∧ st.Alike st' :=
    Storage.answers_call calm rfl fun st' table plan =>
      ⟨rfl, by rw [Storage.Alike, table]; exact ⟨.refl _, plan⟩⟩
  refine read.bind ?_
  rintro cells st' ⟨rfl, same⟩
  exact Answers.pure ⟨rfl, same⟩

theorem answers_view (purpose : Purpose) (s : Snapshot) (reliable : st.Reliable) :
    Answers (q.view purpose s) st fun view st' => view = q.shows st.table s ∧ st.Alike st' :=
  q.answers_view_of_calm purpose s reliable.1

theorem answers_put_of_spared (purpose : Purpose) (key : RowKey) (cells : List (Column × Bytes))
    (v : Version) (spared : st.plan .put st.calls.puts = false) :
    Answers (q.put purpose key cells v) st fun _ st' =>
      st'.table = st.table.recordAll (key.encode q.name)
        (cells.map fun cell => (cell.1.encode, cell.2)) v ∧ st'.plan = st.plan := by
  unfold put Storage.put
  refine Storage.answers_call_of_spared (a := ()) spared ?_ fun st' table plan => ⟨table, plan⟩
  have row : (key.encode q.name).isEmpty = false := by
    simpa using RowKey.encode_ne_nil q.name key
  have columns : (cells.map fun cell => (cell.1.encode, cell.2)).any (·.1.isEmpty) = false := by
    simp [Column.encode_ne_nil]
  simp only [TableM.put, row, columns]
  rfl

theorem answers_put_of_calm (purpose : Purpose) (key : RowKey) (cells : List (Column × Bytes))
    (v : Version) (calm : st.plan = .none) :
    Answers (q.put purpose key cells v) st fun _ st' =>
      st'.table = st.table.recordAll (key.encode q.name)
        (cells.map fun cell => (cell.1.encode, cell.2)) v ∧ st'.plan = st.plan :=
  q.answers_put_of_spared purpose key cells v (by rw [calm]; rfl)

theorem answers_put (purpose : Purpose) (key : RowKey) (cells : List (Column × Bytes)) (v : Version)
    (reliable : st.Reliable) :
    Answers (q.put purpose key cells v) st fun _ st' =>
      st'.table = st.table.recordAll (key.encode q.name)
        (cells.map fun cell => (cell.1.encode, cell.2)) v ∧ st'.plan = st.plan :=
  q.answers_put_of_calm purpose key cells v reliable.1

theorem answers_delete (purpose : Purpose) (key : RowKey) (column : Column) (v : Version)
    (reliable : st.Reliable) :
    Answers (q.delete purpose key column v) st fun _ st' =>
      st'.table = st.table.record (key.encode q.name) column.encode v none ∧
        st'.plan = st.plan := by
  unfold delete Storage.delete
  refine Storage.answers_call (a := ()) reliable.1 ?_ fun st' table plan => ⟨table, plan⟩
  have row : (key.encode q.name).isEmpty = false := by
    simpa using RowKey.encode_ne_nil q.name key
  have filled : column.encode.isEmpty = false := by
    simpa using Column.encode_ne_nil column
  simp only [TableM.delete, row, filled]
  rfl

private theorem increment_of_fits {t : Table} {key : RowKey} {delta : Int64}
    (works : t.refusesIncrements = false)
    (fits : Int64.minValue.toInt ≤ t.standing (key.encode q.name) + delta.toInt ∧
      t.standing (key.encode q.name) + delta.toInt ≤ Int64.maxValue.toInt) :
    ∃ next t', TableM.increment (key.encode q.name) Column.counter.encode delta t = .ok next t' ∧
      next.toInt = t.standing (key.encode q.name) + delta.toInt := by
  have row : (key.encode q.name).isEmpty = false := by
    simpa using RowKey.encode_ne_nil q.name key
  have column : Column.counter.encode.isEmpty = false := rfl
  have sum : Table.checkedAdd (t.counter (key.encode q.name) Column.counter.encode) delta =
      some (Int64.ofInt (t.standing (key.encode q.name) + delta.toInt)) := by
    exact if_pos fits
  simp only [TableM.increment, row, column, works, sum]
  exact ⟨_, _, rfl, Table.toInt_of_checkedAdd sum⟩

theorem answers_count (purpose : Purpose) (key : RowKey) (delta : Int64) (reliable : st.Reliable)
    (least : 0 ≤ st.table.standing (key.encode q.name) + delta.toInt)
    (most : st.table.standing (key.encode q.name) + delta.toInt ≤ Int64.maxValue.toInt) :
    Answers (q.count purpose key delta) st fun id st' =>
      (id.toNat : Int) = st.table.standing (key.encode q.name) + delta.toInt ∧
        st'.table.standing (key.encode q.name) = id.toNat ∧
        (∀ row, row ≠ key.encode q.name → st'.table.standing row = st.table.standing row) ∧
        (∀ row column, st'.table.history row column = st.table.history row column) ∧
        st'.Reliable := by
  obtain ⟨next, t', counted, value⟩ := @increment_of_fits q _ key delta reliable.2
    ⟨by rw [Int64.toInt_minValue]; omega, most⟩
  have counters := (TableM.counter_of_increment counted).2
  obtain ⟨cells, refuses⟩ := TableM.kept_of_increment counted
  obtain ⟨number, known⟩ := exists_counterId? (n := next) (by omega)
  have round := toInt_of_counterId? known
  have added : Answers (Storage.increment purpose (key.encode q.name) Column.counter.encode delta) st
      fun value st' => value = next ∧ st'.table = t' ∧ st'.plan = st.plan :=
    Storage.answers_call reliable.1 counted fun st' table plan => ⟨rfl, table, plan⟩
  refine added.bind ?_
  rintro _ st' ⟨rfl, table, plan⟩
  simp only [known]
  refine Answers.pure ⟨by omega, ?_, fun row other => ?_, fun row column => ?_, ?_⟩
  · rw [table, Table.standing, counters, if_pos ⟨rfl, rfl⟩]
    omega
  · rw [table, Table.standing, counters, if_neg fun same => other same.1, Table.standing]
  · rw [table, cells]
  · exact ⟨plan.trans reliable.1, by rw [table, refuses, reliable.2]⟩

theorem answers_count_zero (purpose : Purpose) (key : RowKey) (reliable : st.Reliable)
    (least : 0 ≤ st.table.standing (key.encode q.name)) :
    Answers (q.count purpose key 0) st fun id st' =>
      (id.toNat : Int) = st.table.standing (key.encode q.name) ∧ st.Alike st' := by
  have zero : (0 : Int64).toInt = 0 := rfl
  have most : st.table.standing (key.encode q.name) ≤ Int64.maxValue.toInt := Int64.toInt_le _
  obtain ⟨next, t', counted, value⟩ := @increment_of_fits q _ key 0 reliable.2
    ⟨by rw [Int64.toInt_minValue]; omega, by omega⟩
  have touched : st.table.Touched (fun _ => False) 0 t' := TableM.touched_increment_zero counted
  obtain ⟨number, known⟩ := exists_counterId? (n := next) (by omega)
  have round := toInt_of_counterId? known
  have added : Answers (Storage.increment purpose (key.encode q.name) Column.counter.encode 0) st
      fun value st' => value = next ∧ st'.table = t' ∧ st'.plan = st.plan :=
    Storage.answers_call reliable.1 counted fun st' table plan => ⟨rfl, table, plan⟩
  refine added.bind ?_
  rintro _ st' ⟨rfl, table, plan⟩
  simp only [known]
  refine Answers.pure ⟨by omega, ?_, plan⟩
  rw [table]
  exact touched.alike

end Queue

namespace Turn

theorem answers_onStorage {α : Type} {act : StorageM α} {t : Turn} {post : α → Storage → Prop}
    (h : Answers act t.storage post) :
    Answers (onStorage act) t fun a t' => post a t'.storage ∧ t.cursor = t'.cursor := by
  obtain ⟨a, st', done, holds⟩ := h
  refine ⟨a, ⟨st', t.cursor⟩, ?_, holds, rfl⟩
  simp [onStorage, done]

theorem answers_cursorNow {β : Type} {t : Turn} {next : Cursor → TurnM β} {last : β → Turn → Prop}
    (h : Answers (next t.cursor) t last) : Answers (cursorNow >>= next) t last := h

theorem answers_update {β : Type} {t : Turn} {f : Cursor → Cursor} {next : Unit → TurnM β}
    {last : β → Turn → Prop} (h : Answers (next ()) ⟨t.storage, f t.cursor⟩ last) :
    Answers (update f >>= next) t last := h

end Turn

end VersionedQueue
