import VersionedQueue.Proofs.Table.Journal

/-!
# Calls to a table

A table is called to put cells, to delete one and to get some.  A call with an empty key is refused and
changes nothing.  Any sequence of calls leaves a table that answers as the journal of the calls that
were not refused.
-/

set_option autoImplicit false
set_option relaxedAutoImplicit false

namespace VersionedQueue

/-- A table has kept all that a journal says. -/
def Table.Keeps (t : Table) (j : Journal) : Prop :=
  ∀ row column, (t.history row column).Keeps j ⟨row, column⟩

/-- A call to a table for cells; what it counts is apart from them. -/
inductive TableCall
  | put (row : Bytes) (cells : List (Bytes × Bytes)) (version : Version)
  | delete (row column : Bytes) (version : Version)
  | get (rows columns : List Bytes) (snapshot : Snapshot)

/-- What a call is answered with. -/
inductive TableAnswer
  | written
  | found (rows : Std.TreeMap Bytes Row)

namespace TableCall

/-- Make the call. -/
def perform : TableCall → TableM TableAnswer
  | put row cells v => do
      TableM.put row cells v
      return .written
  | delete row column v => do
      TableM.delete row column v
      return .written
  | get rows columns s => do return .found ((← getThe Table).get rows columns s)

/-- All keys that are written to are usable. -/
def wellKeyed : TableCall → Bool
  | put row cells _ => !row.isEmpty && cells.all (!·.1.isEmpty)
  | delete row column _ => !row.isEmpty && !column.isEmpty
  | get _ _ _ => true

/-- What the call writes if it is not refused, the last write first. -/
def writes : TableCall → Journal
  | put row cells v => (cells.map fun cell => ⟨⟨row, cell.1⟩, v, some cell.2⟩).reverse
  | delete row column v => [⟨⟨row, column⟩, v, none⟩]
  | get _ _ _ => []

/-- Whatever the call writes is hidden from a snapshot. -/
def Hidden (s : Snapshot) (call : TableCall) : Prop := ∀ w ∈ call.writes, s.sees w.version = false

instance (s : Snapshot) (call : TableCall) : Decidable (call.Hidden s) :=
  inferInstanceAs (Decidable (∀ w ∈ call.writes, s.sees w.version = false))

/-- What two calls write to a same cell they write at different versions. -/
def Apart (a b : TableCall) : Prop :=
  ∀ w ∈ a.writes, ∀ w' ∈ b.writes, w.place = w'.place → w.version ≠ w'.version

instance (a b : TableCall) : Decidable (a.Apart b) :=
  inferInstanceAs (Decidable
    (∀ w ∈ a.writes, ∀ w' ∈ b.writes, w.place = w'.place → w.version ≠ w'.version))

end TableCall

/-- The table that some calls leave, the latest call first; the first one finds an empty table. -/
def tableAfter : List TableCall → Table
  | [] => {}
  | call :: earlier => stateAfter (call.perform (tableAfter earlier))

/-- What some calls have written. -/
def journal (calls : List TableCall) : Journal :=
  (calls.filter (·.wellKeyed)).flatMap (·.writes)

namespace Table

variable {t t' : Table} {j : Journal} {s : Snapshot}

theorem Keeps.read (keeps : t.Keeps j) (s : Snapshot) (row column : Bytes) :
    t.read s row column = j.read s ⟨row, column⟩ := (keeps row column).read s

theorem Keeps.record (keeps : t.Keeps j) (row column : Bytes) (v : Version) (x : Option Bytes) :
    (t.record row column v x).Keeps (⟨⟨row, column⟩, v, x⟩ :: j) := by
  intro r c u
  rw [history_record, Journal.at?_cons]
  by_cases here : r = row ∧ c = column
  · obtain ⟨rfl, rfl⟩ := here
    rw [if_pos ⟨rfl, rfl⟩, History.at?_record, keeps]
    simp
  · have other : ¬ (⟨row, column⟩ : Place) = ⟨r, c⟩ := fun same => by
      cases same
      exact here ⟨rfl, rfl⟩
    rw [if_neg here, if_neg fun both => other both.1, keeps]

theorem Keeps.recordAll (keeps : t.Keeps j) (row : Bytes) (v : Version) (cells : List (Bytes × Bytes)) :
    (t.recordAll row cells v).Keeps ((TableCall.put row cells v).writes ++ j) := by
  induction cells generalizing t j with
  | nil => exact keeps
  | cons cell rest ih =>
      have later := ih (keeps.record row cell.1 v (some cell.2))
      simpa [TableCall.writes, Table.recordAll] using later

theorem getElem?_readRow (t : Table) (s : Snapshot) (columns : List Bytes) (row column : Bytes) :
    (t.readRow s columns row)[column]? =
      if column ∈ columns then t.read s row column else none := by
  unfold readRow
  -- The columns are read one after the other into a row that is empty at first, so that the induction is
  -- about a row that holds something already.
  have start (x : Option Bytes) : (if column ∈ columns then x else none) =
      if column ∈ columns then x.or ({} : Row)[column]? else ({} : Row)[column]? := by simp
  rw [start]
  generalize ({} : Row) = found
  clear start
  induction columns generalizing found with
  | nil => simp
  | cons c columns ih =>
      rw [List.foldl_cons, ih]
      by_cases here : column = c
      · subst here
        cases t.read s row column <;> simp
      · cases t.read s row c <;>
          simp [here, Std.TreeMap.getElem?_insert, Ne.symm here]

theorem getElem?_get (t : Table) (rows columns : List Bytes) (s : Snapshot) (row : Bytes) :
    (t.get rows columns s)[row]? =
      if row ∈ rows ∧ ∃ column ∈ columns, t.read s row column ≠ none then
        some (t.readRow s columns row)
      else none := by
  have blank (row : Bytes) : (t.readRow s columns row).isEmpty = true ↔
      ¬ ∃ column ∈ columns, t.read s row column ≠ none := by
    simp [Std.TreeMap.isEmpty_iff_forall_not_mem, Std.TreeMap.mem_iff_isSome_getElem?, getElem?_readRow]
  have further : ∀ (rows : List Bytes) (found : Std.TreeMap Bytes Row),
      (rows.foldl (fun found r =>
        if (t.readRow s columns r).isEmpty then found else found.insert r (t.readRow s columns r))
        found)[row]? =
        if row ∈ rows ∧ ∃ column ∈ columns, t.read s row column ≠ none then
          some (t.readRow s columns row)
        else found[row]? := by
    intro rows
    induction rows with
    | nil => simp
    | cons r rows ih =>
        intro found
        rw [List.foldl_cons, ih]
        by_cases here : row = r
        · subst here
          by_cases some : ∃ column ∈ columns, t.read s row column ≠ none
          · have shown : (t.readRow s columns row).isEmpty = false :=
              eq_false_of_ne_true fun empty => (blank row).1 empty some
            simp [some, shown]
          · simp only [some, and_false, if_false, (blank row).2 some, if_true]
        · split <;> split <;> simp_all [Std.TreeMap.getElem?_insert, Ne.symm here]
  exact (further rows {}).trans (by simp)

theorem get_congr (same : ∀ row column, t.read s row column = t'.read s row column)
    (rows columns : List Bytes) : t.get rows columns s = t'.get rows columns s := by
  have alike (row : Bytes) : t.readRow s columns row = t'.readRow s columns row := by
    simp only [readRow, same]
  simp only [get, alike]

theorem perform_of_illKeyed (t : Table) {call : TableCall} (bad : call.wellKeyed = false) :
    ∃ reason, call.perform t = .error (.invalidKey reason) t := by
  cases call with
  | put row cells v =>
      cases emptyRow : row.isEmpty with
      | true =>
          refine ⟨"row key must not be empty", bind_eq_of_error ?_⟩
          rw [TableM.put, if_pos emptyRow]
          rfl
      | false =>
          have emptyColumn : cells.any (·.1.isEmpty) = true := by
            simpa [TableCall.wellKeyed, emptyRow] using bad
          refine ⟨"column key must not be empty", bind_eq_of_error ?_⟩
          rw [TableM.put, if_neg (by simp [emptyRow]), if_pos emptyColumn]
          rfl
  | delete row column v =>
      cases emptyRow : row.isEmpty with
      | true =>
          refine ⟨"row key must not be empty", bind_eq_of_error ?_⟩
          rw [TableM.delete, if_pos emptyRow]
          rfl
      | false =>
          have emptyColumn : column.isEmpty = true := by
            simpa [TableCall.wellKeyed, emptyRow] using bad
          refine ⟨"column key must not be empty", bind_eq_of_error ?_⟩
          rw [TableM.delete, if_neg (by simp [emptyRow]), if_pos emptyColumn]
          rfl
  | get rows columns s => cases bad

/-- Any other call is answered, and writes what it is to write. -/
theorem perform_of_wellKeyed (t : Table) {call : TableCall} (good : call.wellKeyed = true) :
    ∃ answer t', call.perform t = .ok answer t' ∧
      ∀ {j : Journal}, t.Keeps j → t'.Keeps (call.writes ++ j) := by
  cases call with
  | put row cells v =>
      obtain ⟨rowKey, columnKeys⟩ : row.isEmpty = false ∧ cells.any (·.1.isEmpty) = false := by
        simpa [TableCall.wellKeyed] using good
      have done : TableM.put row cells v t = .ok () (t.recordAll row cells v) := by
        simp only [TableM.put, rowKey, columnKeys]
        rfl
      exact ⟨_, _, bind_eq_of_ok done, fun keeps => keeps.recordAll row v cells⟩
  | delete row column v =>
      obtain ⟨rowKey, columnKey⟩ : row.isEmpty = false ∧ column.isEmpty = false := by
        simpa [TableCall.wellKeyed] using good
      have done : TableM.delete row column v t = .ok () (t.record row column v none) := by
        simp only [TableM.delete, rowKey, columnKey]
        rfl
      exact ⟨_, _, bind_eq_of_ok done, fun keeps => keeps.record row column v none⟩
  | get rows columns s => exact ⟨_, _, rfl, fun keeps => keeps⟩

theorem keeps_tableAfter : ∀ calls : List TableCall, (tableAfter calls).Keeps (journal calls)
  | [] => fun row column v => by simp [history, tableAfter, journal, Journal.at?, Journal.cell]
  | call :: earlier => by
      have kept := keeps_tableAfter earlier
      cases good : call.wellKeyed with
      | false =>
          obtain ⟨reason, refused⟩ := perform_of_illKeyed (tableAfter earlier) good
          simpa [journal, tableAfter, stateAfter, good, refused] using kept
      | true =>
          obtain ⟨answer, t', done, written⟩ := perform_of_wellKeyed (tableAfter earlier) good
          simpa [journal, tableAfter, stateAfter, good, done] using written kept

end Table

theorem journal_append (later earlier : List TableCall) :
    journal (later ++ earlier) = journal later ++ journal earlier := by
  simp [journal]

theorem journal_cons (call : TableCall) (earlier : List TableCall) :
    journal (call :: earlier) = journal [call] ++ journal earlier :=
  journal_append [call] earlier

theorem mem_writes_of_mem_journal {call : TableCall} {w : Write} (mem : w ∈ journal [call]) :
    w ∈ call.writes := by
  obtain ⟨_, here, mem⟩ := List.mem_flatMap.1 mem
  rw [List.mem_singleton.1 (List.mem_of_mem_filter here)] at mem
  exact mem

/-- After any calls, a table answers as the journal of what they wrote.  A read finds in each cell that it
asks for what was written last at the greatest version seen, and leaves out what was not written or was
deleted.  A call that only wrote what a snapshot does not see makes no difference to its reads, two calls
that wrote no cell at one version may come in either order, a cell has as many versions as it was written
at, and a call is refused if and only if one of its keys is empty, and then changes nothing. -/
theorem table_answers_as_journal (calls : List TableCall) :
    (∀ rows columns s, ∃ found,
      (TableCall.get rows columns s).perform (tableAfter calls) = .ok (.found found) (tableAfter calls) ∧
      (∀ row, row ∈ found ↔
        row ∈ rows ∧ ∃ column ∈ columns, (journal calls).read s ⟨row, column⟩ ≠ none) ∧
      ∀ row seen, found[row]? = some seen → ∀ column,
        seen[column]? = if column ∈ columns then (journal calls).read s ⟨row, column⟩ else none) ∧
    (∀ later call earlier s, calls = later ++ call :: earlier → call.Hidden s → ∀ rows columns,
      (tableAfter calls).get rows columns s = (tableAfter (later ++ earlier)).get rows columns s) ∧
    (∀ later a b earlier, calls = later ++ a :: b :: earlier → a.Apart b → ∀ row column,
      (tableAfter calls).history row column =
        (tableAfter (later ++ b :: a :: earlier)).history row column) ∧
    (∀ row column,
      (tableAfter calls).versionCount row column = ((journal calls).versions ⟨row, column⟩).card) ∧
    ∀ call : TableCall,
      (call.wellKeyed = true → ∃ answer t', call.perform (tableAfter calls) = .ok answer t') ∧
      (call.wellKeyed = false →
        ∃ reason, call.perform (tableAfter calls) = .error (.invalidKey reason) (tableAfter calls)) := by
  have keeps := Table.keeps_tableAfter calls
  refine ⟨fun rows columns s => ⟨_, rfl, fun row => ?_, fun row seen found column => ?_⟩, ?_, ?_,
    fun row column => (keeps row column).size, fun call => ⟨fun good => ?_, Table.perform_of_illKeyed _⟩⟩
  · rw [Std.TreeMap.mem_iff_isSome_getElem?, Table.getElem?_get]
    simp only [keeps.read]
    split <;> simp_all
  · rw [Table.getElem?_get] at found
    split at found
    · cases found
      rw [Table.getElem?_readRow, keeps.read]
    · cases found
  · rintro later call earlier s rfl hidden rows columns
    refine Table.get_congr (fun row column => ?_) rows columns
    rw [keeps.read, (Table.keeps_tableAfter _).read, journal_append, journal_cons call earlier,
      journal_append]
    exact Journal.read_of_hidden fun w mem => hidden w (mem_writes_of_mem_journal mem)
  · rintro later a b earlier rfl apart row column
    refine (keeps row column).unique fun v => ?_
    rw [Table.keeps_tableAfter, journal_append, journal_append, journal_cons b (a :: earlier),
      journal_cons a earlier, journal_cons a (b :: earlier), journal_cons b earlier]
    exact (Journal.at?_comm fun w mem w' mem' =>
      apart w (mem_writes_of_mem_journal mem) w' (mem_writes_of_mem_journal mem')).symm
  · obtain ⟨answer, t', done, _⟩ := Table.perform_of_wellKeyed (tableAfter calls) good
    exact ⟨answer, t', done⟩

/-- Calls out of the order of their versions: a cell is put again at its version, twice in one call,
another is deleted, and a put is refused for the last of its columns. -/
def mixedCalls : List TableCall :=
  [.put [1] [([7], [5]), ([], [5])] 6, .delete [1] [8] 4, .put [1] [([7], [3]), ([7], [4])] 5,
    .put [1] [([7], [1]), ([8], [2])] 3, .put [1] [([7], [6])] 5]

theorem mixedCalls_answered :
    (∃ found,
      (TableCall.get [[1], [1], [2]] [[7], [8], [7]] (.upToExcept 6 [4])).perform (tableAfter mixedCalls) =
        .ok (.found found) (tableAfter mixedCalls) ∧
      [1] ∈ found ∧ [2] ∉ found ∧ ∀ seen, found[([1] : Bytes)]? = some seen →
        seen[([7] : Bytes)]? = some [4] ∧ seen[([8] : Bytes)]? = some [2]) ∧
    (tableAfter mixedCalls).get [[1]] [[7], [8]] (.upTo 3) =
      (tableAfter (mixedCalls.take 2 ++ mixedCalls.drop 3)).get [[1]] [[7], [8]] (.upTo 3) ∧
    (tableAfter mixedCalls).history [1] [8] =
      (tableAfter ([.put [1] [([7], [5]), ([], [5])] 6, .put [1] [([7], [3]), ([7], [4])] 5,
        .delete [1] [8] 4] ++ mixedCalls.drop 3)).history [1] [8] ∧
    (tableAfter mixedCalls).versionCount [1] [7] = 2 ∧
    ∃ reason, (TableCall.delete [1] [] 9).perform (tableAfter mixedCalls) =
      .error (.invalidKey reason) (tableAfter mixedCalls) := by
  obtain ⟨answered, unseen, swapped, counted, refused⟩ := table_answers_as_journal mixedCalls
  obtain ⟨found, get, rows, columns⟩ := answered [[1], [1], [2]] [[7], [8], [7]] (.upToExcept 6 [4])
  refine ⟨⟨found, get, (rows _).2 ⟨by decide, [7], by decide, by decide⟩,
    fun mem => absurd ((rows _).1 mem) (by decide), fun seen here => ⟨?_, ?_⟩⟩, ?_, ?_, ?_, ?_⟩
  · rw [columns _ _ here]
    decide
  · rw [columns _ _ here]
    decide
  · exact unseen (mixedCalls.take 2) _ (mixedCalls.drop 3) (.upTo 3) rfl (by decide) _ _
  · exact swapped (mixedCalls.take 1) _ _ (mixedCalls.drop 3) rfl (by decide) _ _
  · rw [counted]
    decide
  · exact (refused _).2 rfl

end VersionedQueue
