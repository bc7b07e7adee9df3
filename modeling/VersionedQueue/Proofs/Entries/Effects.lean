import VersionedQueue.Proofs.Run.Footprint
import VersionedQueue.Proofs.Storage.Reliable

/-!
# What producers do to entries

An append that is answered takes the next id and writes the whole row of the entry at one version.
One that fails writes nothing, but the id may be taken all the same.  A retirement that is answered
marks the state of its entry, and deletes the payload, at one version.
-/

set_option autoImplicit false
set_option relaxedAutoImplicit false

namespace VersionedQueue

/-- The history of a cell of a queue. -/
def Table.cell (t : Table) (queue : String) (key : RowKey) (column : Column) : History :=
  t.history (key.encode queue) column.encode

/-- The cells that an append writes. -/
def Entry.cells (entry : Entry) : List (Column × Bytes) :=
  (.state, EntryState.valid.encode) :: (.payload, entry.payload) ::
    entry.partitioning.toList.map fun header => (.header header.1, Bytes.ofInt32 header.2)

private theorem map_of_mapM {cells : List (Column × Bytes)} :
    ∀ {l : List (String × Int32)},
      (l.mapM fun header => Partitioning.headerCell header.1 header.2) = .ok cells →
      cells = l.map fun header => (.header header.1, Bytes.ofInt32 header.2) := by
  intro l
  induction l generalizing cells with
  | nil =>
      intro h
      cases h
      rfl
  | cons header rest ih =>
      intro h
      rw [List.mapM_cons] at h
      cases first : Partitioning.headerCell header.1 header.2 with
      | error e =>
          rw [first] at h
          cases h
      | ok cell =>
          rw [first] at h
          cases others : rest.mapM fun header => Partitioning.headerCell header.1 header.2 with
          | error e =>
              rw [others] at h
              cases h
          | ok tail =>
              rw [others] at h
              cases h
              have here : cell = (.header header.1, Bytes.ofInt32 header.2) := by
                unfold Partitioning.headerCell at first
                split at first
                · cases first
                · split at first
                  · cases first
                  · exact (Except.ok.inj first).symm
              rw [List.map_cons, ← ih others, here]

theorem Entry.cells_of_headerCells {entry : Entry} {headers : List (Column × Bytes)}
    (h : entry.partitioning.headerCells = .ok headers) :
    entry.cells = (.state, EntryState.valid.encode) :: (.payload, entry.payload) :: headers := by
  unfold Partitioning.headerCells at h
  split at h
  · cases h
  · rw [map_of_mapM h, Entry.cells]

theorem Entry.columns_nodup (entry : Entry) :
    ((entry.cells.map fun cell => (cell.1.encode, cell.2)).map (·.1)).Nodup := by
  have apart : (entry.partitioning.toList.map fun header => Bytes.ofText header.1).Nodup := by
    rw [List.Nodup, List.pairwise_map]
    refine Std.TreeMap.distinct_keys_toList.imp ?_
    intro a b different same
    exact different (Std.LawfulEqCmp.compare_eq_iff_eq.2 (Bytes.ofText_injective same))
  have headers : (entry.partitioning.toList.map fun header =>
      (Column.header header.1).encode).Nodup := by
    rw [List.Nodup, List.pairwise_map] at apart ⊢
    refine apart.imp ?_
    intro a b different same
    exact different (List.cons.inj same).2
  simp only [Entry.cells, List.map_cons, List.map_map, List.nodup_cons, List.mem_cons,
    List.mem_map, Function.comp_apply]
  refine ⟨?_, ?_, headers⟩
  · rintro (same | ⟨header, _, same⟩)
    · simp [Column.encode] at same
    · simp [Column.encode] at same
  · rintro ⟨header, _, same⟩
    simp [Column.encode] at same

/-- What the append of an entry leaves in the entry's row. -/
structure Table.Appended (queue : String) (id : EntryId) (entry : Entry) (v : Version)
    (t t' : Table) : Prop where
  state : t'.cell queue (.entry id) .state =
    (t.cell queue (.entry id) .state).record v (some EntryState.valid.encode)
  payload : t'.cell queue (.entry id) .payload =
    (t.cell queue (.entry id) .payload).record v (some entry.payload)
  header : ∀ key hash, entry.partitioning[key]? = some hash →
    t'.cell queue (.entry id) (.header key) =
      (t.cell queue (.entry id) (.header key)).record v (some (Bytes.ofInt32 hash))
  noHeader : ∀ key, entry.partitioning[key]? = none →
    t'.cell queue (.entry id) (.header key) = t.cell queue (.entry id) (.header key)
  others : ∀ key column, key ≠ .entry id → t'.cell queue key column = t.cell queue key column

private theorem appended_of_recordAll {queue : String} {id : EntryId} {entry : Entry} {v : Version}
    {t t' : Table}
    (h : t' = t.recordAll ((RowKey.entry id).encode queue)
      (entry.cells.map fun cell => (cell.1.encode, cell.2)) v) :
    Table.Appended queue id entry v t t' := by
  subst h
  have written {column : Column} {x : Bytes} (mem : (column, x) ∈ entry.cells) :
      (t.recordAll ((RowKey.entry id).encode queue)
        (entry.cells.map fun cell => (cell.1.encode, cell.2)) v).cell queue (.entry id) column =
          (t.cell queue (.entry id) column).record v (some x) :=
    Table.history_recordAll_of_mem entry.columns_nodup (List.mem_map.2 ⟨(column, x), mem, rfl⟩)
  refine ⟨written List.mem_cons_self, written (List.mem_cons_of_mem _ List.mem_cons_self),
    ?_, ?_, ?_⟩
  · intro key hash found
    apply written
    have mem := Std.TreeMap.mem_toList_iff_getElem?_eq_some.2 found
    simp only [Entry.cells, List.mem_cons, List.mem_map]
    exact .inr (.inr ⟨_, mem, rfl⟩)
  · intro key absent
    apply Table.history_recordAll_of_notMem
    simp only [List.map_map, List.mem_map, Function.comp_apply, not_exists, not_and]
    rintro ⟨column, x⟩ mem same
    have inRow : column.InEntryRow := by
      simp only [Entry.cells, List.mem_cons, List.mem_map, Prod.mk.injEq] at mem
      rcases mem with ⟨rfl, -⟩ | ⟨rfl, -⟩ | ⟨header, -, rfl, -⟩ <;> trivial
    have here := Column.encode_injective_of_entry inRow (b := .header key) trivial same
    subst here
    simp only [Entry.cells, List.mem_cons, List.mem_map, Prod.mk.injEq] at mem
    rcases mem with ⟨clash, -⟩ | ⟨clash, -⟩ | ⟨header, listed, clash, -⟩
    · cases clash
    · cases clash
    · cases clash
      have found := Std.TreeMap.mem_toList_iff_getElem?_eq_some.1 listed
      simp [absent] at found
  · intro key column other
    have touched := Table.touched_recordAll (Eq.refl ((RowKey.entry id).encode queue)) v
      (entry.cells.map fun cell => (cell.1.encode, cell.2)) t
    exact touched.history _ (fun same => other (RowKey.encode_injective same).symm) _

theorem Table.Appended.at?_header {queue : String} {id : EntryId} {entry : Entry} {v : Version}
    {t t' : Table} (written : Table.Appended queue id entry v t t') {key : String}
    (unwritten : ∀ w, (t.cell queue (.entry id) (.header key)).at? w = none) (w : Version)
    (x : Option Bytes) : (t'.cell queue (.entry id) (.header key)).at? w = some x ↔
      w = v ∧ ∃ hash, entry.partitioning[key]? = some hash ∧ x = some (Bytes.ofInt32 hash) := by
  cases carried : entry.partitioning[key]? with
  | none => simp [written.noHeader key carried, unwritten]
  | some hash =>
      rw [written.header key hash carried, History.at?_record, unwritten]
      by_cases now : v = w
      · simp [now, eq_comm]
      · simp [now, Ne.symm now]

namespace Queue

variable (q : Queue)

theorem count_one_cases (purpose : Purpose) (key : RowKey) (st : Storage)
    (counted : 0 ≤ st.table.standing (key.encode q.name)) :
    (∃ id st', q.count purpose key 1 st = .ok id st' ∧
        (id.toNat : Int) = st.table.standing (key.encode q.name) + 1 ∧
        st'.table.standing (key.encode q.name) = id.toNat ∧
        ∀ row column, st'.table.history row column = st.table.history row column) ∨
      ∃ e st', q.count purpose key 1 st = .error e st' ∧ (∃ source, e = .internal purpose.text source) ∧
        st'.table = st.table := by
  have one : (1 : Int64).toInt = 1 := rfl
  cases added : Storage.increment purpose (key.encode q.name) Column.counter.encode 1 st with
  | error e st' =>
      exact .inr ⟨e, st', bind_eq_of_error added, Storage.internal_of_failed added,
        Storage.table_of_failed (TableM.failsClean_increment _ _ _) added⟩
  | ok value st' =>
      have done := Storage.table_of_call added
      obtain ⟨sum, counters⟩ := TableM.counter_of_increment done
      have next := Table.toInt_of_checkedAdd sum
      simp only [Table.standing] at counted ⊢
      obtain ⟨number, known⟩ := exists_counterId? (n := value) (by omega)
      have round := toInt_of_counterId? known
      refine .inl ⟨number, st', ?_, by omega, ?_, fun row column => ?_⟩
      · refine (bind_eq_of_ok added).trans ?_
        simp only [known]
        rfl
      · rw [counters, if_pos ⟨rfl, rfl⟩]
        omega
      · exact (TableM.kept_of_increment done).1 row column

private theorem put_cases (purpose : Purpose) (key : RowKey) (cells : List (Column × Bytes))
    (v : Version) (st : Storage) :
    (∃ st', q.put purpose key cells v st = .ok () st' ∧
        st'.table = st.table.recordAll (key.encode q.name)
          (cells.map fun cell => (cell.1.encode, cell.2)) v) ∨
      ∃ e st', q.put purpose key cells v st = .error e st' ∧ st'.table = st.table := by
  cases written : q.put purpose key cells v st with
  | ok u st' =>
      refine .inl ⟨st', rfl, ?_⟩
      simp only [put, Storage.put] at written
      exact TableM.table_of_put (Storage.table_of_call written)
  | error e st' =>
      simp only [put, Storage.put] at written
      exact .inr ⟨e, st', rfl, Storage.table_of_failed (TableM.failsClean_put _ _ _) written⟩

/-- An append writes the row of the next id, or fails and writes nothing; the id may be taken even
so. -/
theorem enqueue_cases (entry : Entry) (v : Version) (st : Storage)
    (counted : 0 ≤ st.table.standing (RowKey.entryCounter.encode q.name)) :
    (∃ id st', q.enqueue entry v st = .ok ⟨q.name, id⟩ st' ∧
        (id.toNat : Int) = st.table.standing (RowKey.entryCounter.encode q.name) + 1 ∧
        st'.table.standing (RowKey.entryCounter.encode q.name) = id.toNat ∧
        Table.Appended q.name id entry v st.table st'.table) ∨
      ∃ e st', q.enqueue entry v st = .error e st' ∧
        (∀ row column, st'.table.history row column = st.table.history row column) ∧
        (st'.table.standing (RowKey.entryCounter.encode q.name) =
            st.table.standing (RowKey.entryCounter.encode q.name) ∨
          st'.table.standing (RowKey.entryCounter.encode q.name) =
            st.table.standing (RowKey.entryCounter.encode q.name) + 1) := by
  unfold enqueue
  cases headers : entry.partitioning.headerCells with
  | error rejection => exact .inr ⟨_, st, rfl, fun _ _ => rfl, .inl rfl⟩
  | ok cells =>
      rcases q.count_one_cases .allocateEntryId .entryCounter st counted with
        ⟨id, st₁, taken, next, stands, same⟩ | ⟨e, st₁, failed, _, same⟩
      · have written := q.put_cases .writeEntry (.entry id) entry.cells v st₁
        rw [Entry.cells_of_headerCells headers] at written
        rcases written with ⟨st₂, done, table⟩ | ⟨e, st₂, failed, table⟩
        · refine .inl ⟨id, st₂, ?_, next, ?_, ?_⟩
          · exact (bind_eq_of_ok taken).trans (bind_eq_of_ok done)
          · rw [← Entry.cells_of_headerCells headers] at table
            rw [table, Table.standing, Table.counter_recordAll, ← stands, Table.standing]
          · rw [← Entry.cells_of_headerCells headers] at table
            obtain ⟨state, payload, header, noHeader, others⟩ := appended_of_recordAll table
            simp only [Table.cell, same] at state payload header noHeader others
            exact ⟨state, payload, header, noHeader, others⟩
        · refine .inr ⟨e, st₂, ?_, fun row column => ?_, .inr ?_⟩
          · exact (bind_eq_of_ok taken).trans (bind_eq_of_error failed)
          · rw [table, same]
          · rw [table, stands, next]
      · exact .inr ⟨e, st₁, bind_eq_of_error failed, fun row column => by rw [same],
          .inl (by rw [same])⟩

end Queue

/-- What the retirement of an entry leaves in the entry's row. -/
structure Table.RowRetired (queue : String) (id : EntryId) (v : Version) (t t' : Table) : Prop where
  state : t'.cell queue (.entry id) .state =
    (t.cell queue (.entry id) .state).record v (some EntryState.invalid.encode)
  payload : t'.cell queue (.entry id) .payload =
    (t.cell queue (.entry id) .payload).record v none
  header : ∀ key, t'.cell queue (.entry id) (.header key) = t.cell queue (.entry id) (.header key)
  others : ∀ key column, key ≠ .entry id → t'.cell queue key column = t.cell queue key column
  standing : ∀ row, t'.standing row = t.standing row

private theorem rowRetired_of_record {queue : String} {id : EntryId} {v : Version} {t t' : Table}
    (h : t' = (t.record ((RowKey.entry id).encode queue) Column.state.encode v
      (some EntryState.invalid.encode)).record ((RowKey.entry id).encode queue)
      Column.payload.encode v none) : Table.RowRetired queue id v t t' := by
  subst h
  have apart : Column.state.encode ≠ Column.payload.encode := by simp [Column.encode]
  refine ⟨?_, ?_, fun key => ?_, fun key column other => ?_, fun _ => rfl⟩
  · simp [Table.cell, Table.history_record, apart]
  · simp [Table.cell, Table.history_record, apart.symm]
  · have state : (Column.header key).encode ≠ Column.state.encode := by simp [Column.encode]
    have payload : (Column.header key).encode ≠ Column.payload.encode := by simp [Column.encode]
    simp [Table.cell, Table.history_record, state, payload]
  · have row : key.encode queue ≠ (RowKey.entry id).encode queue := fun same =>
      other (RowKey.encode_injective same)
    simp [Table.cell, Table.history_record, row]

namespace Queue

variable (q : Queue) {st : Storage}

theorem invalidate_of_foreign {p : Pointer} (foreign : p.queue ≠ q.name) (v : Version) :
    q.invalidate p v st = .error (.foreignPointer q.name p.queue) st := by
  unfold invalidate checkPointer
  rw [if_neg foreign]
  rfl

theorem answers_invalidate (id : EntryId) (v : Version) (reliable : st.Reliable)
    (plain : ∀ cell, q.shows st.table (.upTo v) (.entry id) .state = some cell →
      cell = EntryState.valid.encode ∨ cell = EntryState.invalid.encode) :
    Answers (q.invalidate ⟨q.name, id⟩ v) st fun _ st' =>
      Table.RowRetired q.name id v st.table st'.table := by
  unfold invalidate
  have checked : Answers (MonadExcept.ofExcept (q.checkPointer ⟨q.name, id⟩)) st
      fun _ st' => st = st' := Answers.ofExcept (if_pos rfl) rfl
  refine checked.bind ?_
  rintro _ _ rfl
  have looked : Answers (q.readState id (.upTo v)) st fun current st' =>
      current.all (·.mayBecome .invalid) = true ∧ st.Alike st' := by
    unfold readState
    refine (q.answers_view .readEntryState (.upTo v) reliable).bind ?_
    rintro view st' ⟨rfl, same⟩
    cases seen : q.shows st.table (.upTo v) (.entry id) .state with
    | none => exact Answers.pure ⟨rfl, same⟩
    | some cell =>
        rcases plain cell seen with rfl | rfl
        · exact Answers.pure ⟨rfl, same⟩
        · exact Answers.pure ⟨rfl, same⟩
  refine looked.bind ?_
  rintro current st₁ ⟨may, same⟩
  rw [if_pos may]
  have works := reliable.of_alike same
  refine (q.answers_put .writeInvalidState (.entry id) _ v works).bind ?_
  rintro _ st₂ ⟨table, plan⟩
  have works₂ : st₂.Reliable := by
    refine ⟨plan.trans works.1, ?_⟩
    rw [table]
    exact works.2
  refine (q.answers_delete .deletePayload (.entry id) .payload v works₂).imp ?_
  rintro _ st₃ ⟨last, _⟩
  rw [table] at last
  have kept := rowRetired_of_record last
  obtain ⟨state, payload, header, others, standing⟩ := kept
  simp only [Table.cell, same.1.history] at state payload header others
  exact ⟨state, payload, header, others, fun row => (standing row).trans (same.1.standing row)⟩

end Queue

end VersionedQueue
