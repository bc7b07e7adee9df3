import VersionedQueue.Proofs.Consumer.Steps
import VersionedQueue.Proofs.Storage.Mirrored
import VersionedQueue.Proofs.Storage.Unreliable

/-!
# Loading on storage that may fail

Loading reads, and may clear the active entry of the stored row as its last call.  So a load that fails
has left the table as it was, and loading again after a load that is answered changes nothing more.
-/

set_option autoImplicit false
set_option relaxedAutoImplicit false

namespace VersionedQueue

theorem Revision.insert_insert (v : Version) (x y : Option Bytes) (l : List Revision) :
    Revision.insert ⟨v, y⟩ (Revision.insert ⟨v, x⟩ l) = Revision.insert ⟨v, y⟩ l := by
  induction l with
  | nil => simp [Revision.insert]
  | cons q rest ih =>
      by_cases newer : q.version < v
      · simp [Revision.insert, newer]
      · by_cases same : q.version = v
        · simp [Revision.insert, same]
        · simp [Revision.insert, newer, same, ih]

theorem History.record_record (h : History) (v : Version) (x y : Option Bytes) :
    (h.record v x).record v y = h.record v y := by
  simp only [record, Revision.insert_insert]

theorem Table.record_record_alike (t : Table) (row column : Bytes) (v : Version)
    (x y : Option Bytes) :
    ((t.record row column v x).record row column v y).Alike (t.record row column v y) where
  history r c := by
    simp only [history_record, and_self, if_true, History.record_record]
    split <;> rfl
  counter _ _ := rfl
  refuses := rfl

theorem Table.record_comm_alike (t : Table) (row : Bytes) {a b : Bytes} (apart : a ≠ b) (v : Version)
    (x y : Option Bytes) :
    ((t.record row a v x).record row b v y).Alike ((t.record row b v y).record row a v x) where
  history r c := by
    simp only [history_record]
    grind
  counter _ _ := rfl
  refuses := rfl

theorem History.read_record_of_unseen {h : History} {s : Snapshot} {v : Version} {x : Option Bytes}
    (unseen : s.sees v = false) : (h.record v x).read s = h.read s := by
  have distinct {w : Version} (seen : s.sees w = true) : v ≠ w := by
    rintro rfl
    simp [unseen] at seen
  rcases h.read_cases s with ⟨read, hidden⟩ | ⟨w, y, seen, here, newest, read⟩
  · rw [read]
    rcases (h.record v x).read_cases s with ⟨read', _⟩ | ⟨w, y, seen, here, _, _⟩
    · exact read'
    · rw [at?_record, if_neg (distinct seen)] at here
      exact absurd (by simp [Has, here]) (hidden w seen)
  · rw [read]
    refine read_of_newest seen ?_ fun u uSeen has => ?_
    · rw [at?_record, if_neg (distinct seen), here]
    · exact newest u uSeen (((h.has_record v x u).1 has).resolve_left (distinct uSeen))

theorem History.read_record_of_seen {h : History} {s : Snapshot} {x : Option Bytes}
    (seen : s.sees s.writeVersion = true) : (h.record s.writeVersion x).read s = x :=
  read_of_newest seen (by rw [at?_record, if_pos rfl]) fun _ wSeen _ =>
    Snapshot.le_maximum_of_sees wSeen

namespace Queue

variable (q : Queue) (c : Consumer) (config : Config) (s : Snapshot)

variable {q c config s} {st : Storage} {a r w : EntryId}

theorem ends_load_read (cursor : Cursor) {post : Turn → Prop} {fail : Turn → Prop}
    (unread : ∀ t', st.Alike t'.storage → (t'.cursor = cursor ∨
      ∃ r, q.decodeId c (q.shows st.table s (consumerRow c) .readPointer) = .ok r ∧
        t'.cursor = { loaded := true, readPointer := r }) → fail t')
    (settles : ∀ a r w st', q.Reads c s st.table a r w → st.table.refusesIncrements = false →
      st.Alike st' → Ends (q.settle c config s a)
        ⟨st', { loaded := true, readPointer := r, writePointer := w }⟩ (fun _ t' => post t')
        fun _ t' => fail t') :
    Ends (q.load c config s) ⟨st, cursor⟩ (fun _ t' => post t') fun _ t' => fail t' := by
  unfold load
  refine ((Turn.ends_onStorage (q.ends_view .readConsumer s)).imp (fun _ _ done => done)
    fun _ t' failed => unread t' failed.1.2 (.inl failed.2.symm)).bind ?_
  rintro view ⟨st₁, _⟩ ⟨⟨rfl, same⟩, rfl⟩
  refine Ends.ofExcept_bind (fun _ _ => unread _ same (.inl rfl)) fun a active => ?_
  refine Ends.ofExcept_bind (fun _ _ => unread _ same (.inl rfl)) fun r readPointer => ?_
  apply Turn.ends_update
  have counted : Ends (Turn.onStorage q.writePointer)
      ⟨st₁, { loaded := true, readPointer := r }⟩
      (fun w t' => st₁.table.refusesIncrements = false ∧
        (w.toNat : Int) = st₁.table.standing (RowKey.entryCounter.encode q.name) ∧
        st₁.Alike t'.storage ∧ t'.cursor = { loaded := true, readPointer := r })
      fun _ t' => fail t' :=
    (Turn.ends_onStorage (q.ends_count_zero .readWritePointer .entryCounter)).imp
      (fun _ _ ⟨⟨works, stands, alike⟩, kept⟩ => ⟨works, stands, alike, kept.symm⟩)
      fun _ t' failed => unread t' (same.trans failed.1) (.inr ⟨r, readPointer, failed.2.symm⟩)
  refine (counted.bind fun w t' done => ?_ : Ends q.refresh _ (fun _ t' => ∃ w : EntryId,
    st₁.table.refusesIncrements = false ∧
      (w.toNat : Int) = st₁.table.standing (RowKey.entryCounter.encode q.name) ∧
      st₁.Alike t'.storage ∧
      t'.cursor = { loaded := true, readPointer := r, writePointer := w }) _).bind ?_
  · obtain ⟨works, stands, alike, kept⟩ := done
    exact ⟨w, works, stands, alike, by rw [kept]⟩
  · rintro _ ⟨st₂, _⟩ ⟨w, works, stands, alike, rfl⟩
    exact settles a r w st₂ ⟨active, readPointer, by rw [stands, same.1.standing]⟩
      (same.1.refuses.symm.trans works) (same.trans alike)

theorem load_eq_of_row {view : QueueView} {st' : Storage} {cursor : Cursor}
    (viewed : q.view .readConsumer s st = .ok view st')
    (active : q.decodeId c (view (consumerRow c) .active) = .ok a)
    (readPointer : q.decodeId c (view (consumerRow c) .readPointer) = .ok r) :
    q.load c config s ⟨st, cursor⟩ =
      (q.refresh >>= fun _ => q.settle c config s a) ⟨st', { loaded := true, readPointer := r }⟩ := by
  have read : Turn.onStorage (q.view .readConsumer s) ⟨st, cursor⟩ = .ok view ⟨st', cursor⟩ := by
    simp only [Turn.onStorage, viewed]
  unfold load
  refine (bind_eq_of_ok read).trans ?_
  rw [active, readPointer]
  rfl

/-- Whether an active entry of which this is shown is cleared. -/
def Clears (config : Config) (seen : Sighting) : Prop :=
  (∀ payload, seen ≠ .servable payload) ∧ ¬ (seen = .unseen ∧ (!config.partitioner.isDisjoint) = true)

/-- The active entry of a consumer's stored row is cleared. -/
def Cleared (q : Queue) (c : Consumer) (s : Snapshot) (t t' : Table) : Prop :=
  (t.record (q.seat c).row Column.active.encode s.writeVersion (some (Bytes.ofUInt64 noEntry))).Alike t'

/-- What settling the active entry of a row comes to: there is none, or it goes into the cursor to be served
again or to wait, or it is cleared. -/
inductive Settles (q : Queue) (c : Consumer) (config : Config) (s : Snapshot) (a : EntryId) (t : Turn) :
    Turn → Prop
  | idle : a = noEntry → Settles q c config s a t t
  | again {payload : Bytes} {st : Storage} : a ≠ noEntry →
      q.sight (q.shows t.storage.table s) a = .ok (.servable payload) → t.storage.Alike st →
      Settles q c config s a t
        ⟨st, { t.cursor with active := some a, cache := ⟨[⟨a, payload⟩]⟩ }⟩
  | waits {st : Storage} : a ≠ noEntry → q.sight (q.shows t.storage.table s) a = .ok .unseen →
      config.partitioner.isDisjoint = false → t.storage.Alike st →
      Settles q c config s a t ⟨st, { t.cursor with pending := some a }⟩
  | clears {seen : Sighting} {st st' : Storage} : a ≠ noEntry →
      q.sight (q.shows t.storage.table s) a = .ok seen → Clears config seen → t.storage.Alike st →
      st'.table = st.table.recordAll (q.seat c).row
        ([(Column.active, Bytes.ofUInt64 noEntry)].map fun cell => (cell.1.encode, cell.2))
        s.writeVersion →
      st'.plan = st.plan → Settles q c config s a t ⟨st', t.cursor⟩

theorem ends_settle (t : Turn) :
    Ends (q.settle c config s a) t (fun _ u => q.Settles c config s a t u)
      fun _ u => t.storage.Alike u.storage ∧ u.cursor = t.cursor := by
  unfold settle
  split
  · rename_i none
    exact Ends.pure (.idle none)
  · rename_i some
    unfold resume
    refine (q.ends_looking s a t).bind ?_
    rintro seen ⟨st, _⟩ ⟨shown, same, rfl⟩
    have cleared (clears : Clears config seen) :
        Ends (Turn.onStorage (q.put .clearActive (consumerRow c)
          [(.active, Bytes.ofUInt64 noEntry)] s.writeVersion)) ⟨st, t.cursor⟩
          (fun _ u => q.Settles c config s a t u)
          fun _ u => t.storage.Alike u.storage ∧ u.cursor = t.cursor := by
      refine (Turn.ends_onStorage (q.ends_put _ _ _ _)).imp ?_ fun _ _ failed =>
        ⟨same.trans failed.1.2, failed.2.symm⟩
      rintro _ ⟨st', _⟩ ⟨⟨table, plan⟩, rfl⟩
      exact .clears some shown clears same table plan
    cases seen with
    | servable payload => exact .again some shown same
    | unseen =>
        dsimp only
        split
        · rename_i shared
          exact .waits some shown (by simpa using shared.2) same
        · rename_i disjoint
          exact cleared ⟨fun _ => nofun, disjoint⟩
    | retired =>
        dsimp only
        split
        · rename_i never
          cases never.1
        · rename_i disjoint
          exact cleared ⟨fun _ => nofun, disjoint⟩

/-- A load that fails has left the table as it was. -/
theorem ends_load (cursor : Cursor) :
    Ends (q.load c config s) ⟨st, cursor⟩ (fun _ _ => True) fun _ t' => st.Alike t'.storage :=
  ends_load_read cursor (fun _ same _ => same) fun _ _ _ _ _ _ same =>
    (ends_settle _).imp (fun _ _ _ => trivial) fun _ _ failed => same.trans failed.1

theorem answers_settle_of_clears (k : Cursor) {seen : Sighting} (reliable : st.Reliable)
    (some : a ≠ noEntry) (shown : q.sight (q.shows st.table s) a = .ok seen)
    (clears : Clears config seen) :
    Answers (q.settle c config s a) ⟨st, k⟩ fun _ t' =>
      t'.cursor = k ∧ Cleared q c s st.table t'.storage.table := by
  unfold settle
  rw [if_neg some]
  unfold resume
  refine (Turn.answers_onStorage (q.answers_readEntry_of_sight s reliable shown)).bind ?_
  rintro found ⟨st', _⟩ ⟨⟨rfl, same⟩, rfl⟩
  have cleared : Answers (Turn.onStorage (q.put .clearActive (consumerRow c)
      [(.active, Bytes.ofUInt64 noEntry)] s.writeVersion)) ⟨st', k⟩ fun _ t' =>
        t'.cursor = k ∧ Cleared q c s st.table t'.storage.table := by
    refine (Turn.answers_onStorage (q.answers_put _ _ _ _ (reliable.of_alike same))).imp ?_
    rintro _ t' ⟨⟨table, _⟩, kept⟩
    refine ⟨kept.symm, ?_⟩
    rw [Cleared, table]
    exact same.1.record _ _ _ _
  cases found with
  | servable payload => exact absurd rfl (clears.1 payload)
  | unseen =>
      dsimp only
      rw [if_neg clears.2]
      exact cleared
  | retired =>
      dsimp only
      rw [if_neg clears.2]
      exact cleared

/-- What loading makes of a row on storage that works: the table and the cursor that it leaves. -/
inductive LoadEnds (q : Queue) (c : Consumer) (config : Config) (s : Snapshot) (t : Table)
    (active readPointer writePointer : EntryId) : Table → Cursor → Prop
  /-- There is no active entry. -/
  | idle {t' : Table} : active = noEntry → t.Alike t' →
      LoadEnds q c config s t active readPointer writePointer t'
        { loaded := true, readPointer, writePointer }
  /-- The active entry can be served again. -/
  | again {payload : Bytes} {t' : Table} : active ≠ noEntry →
      q.sight (q.shows t s) active = .ok (.servable payload) → t.Alike t' →
      LoadEnds q c config s t active readPointer writePointer t'
        { loaded := true, active := some active, readPointer, writePointer
          cache := ⟨[⟨active, payload⟩]⟩ }
  /-- It was claimed and is not shown yet. -/
  | waiting {t' : Table} : active ≠ noEntry → q.sight (q.shows t s) active = .ok .unseen →
      config.partitioner.isDisjoint = false → t.Alike t' →
      LoadEnds q c config s t active readPointer writePointer t'
        { loaded := true, readPointer, writePointer, pending := some active }
  | cleared {seen : Sighting} {t' : Table} : active ≠ noEntry →
      q.sight (q.shows t s) active = .ok seen → Clears config seen → Cleared q c s t t' →
      LoadEnds q c config s t active readPointer writePointer t'
        { loaded := true, readPointer, writePointer }

theorem answers_load_of_sight (k : Cursor) {seen : Sighting} (reliable : st.Reliable)
    (reads : q.Reads c s st.table a r w) (sight : q.sight (q.shows st.table s) a = .ok seen) :
    Answers (q.load c config s) ⟨st, k⟩ fun _ u =>
      q.LoadEnds c config s st.table a r w u.storage.table u.cursor := by
  refine q.answers_load_of_reads c config s k reliable reads fun st' same => ?_
  have shown : q.sight (q.shows st'.table s) a = .ok seen := by rw [q.shows_of_alike same.1, sight]
  by_cases none : a = noEntry
  · rw [settle, if_pos none]
    exact Answers.pure (.idle none same.1)
  by_cases clears : Clears config seen
  · refine (answers_settle_of_clears _ (reliable.of_alike same) none shown clears).imp ?_
    rintro _ u ⟨kept, cleared⟩
    rw [kept]
    exact .cleared none sight clears ((same.1.record _ _ _ _).trans cleared)
  rw [settle, if_neg none]
  refine (Turn.answers_onStorage
    (q.answers_readEntry_of_sight s (reliable.of_alike same) shown)).bind ?_
  rintro found ⟨st'', _⟩ ⟨⟨rfl, same'⟩, rfl⟩
  have alike := same.1.trans same'.1
  cases found with
  | servable payload => exact ⟨(), _, rfl, .again none sight alike⟩
  | unseen =>
      have shared : config.partitioner.isDisjoint = false := by
        refine Bool.not_eq_true _ ▸ fun disjoint => clears ⟨fun _ => nofun, ?_⟩
        simp [disjoint]
      simp only [shared]
      exact ⟨(), _, rfl, .waiting none sight shared alike⟩
  | retired => exact absurd ⟨fun _ => nofun, nofun⟩ clears

section Cleared

variable {t t' : Table} (cleared : Cleared q c s t t')

include cleared

theorem Cleared.history {row column : Bytes}
    (other : ¬ (row = (q.seat c).row ∧ column = Column.active.encode)) :
    t'.history row column = t.history row column := by
  rw [Table.Alike.history cleared, Table.history_record, if_neg other]

theorem Cleared.shows {key : RowKey} {column : Column}
    (other : ¬ (key.encode q.name = (q.seat c).row ∧ column.encode = Column.active.encode)) :
    q.shows t' s key column = q.shows t s key column := by
  simp only [Queue.shows, Table.read, cleared.history other]

theorem Cleared.of_alike {t'' : Table} (same : t'.Alike t'') : Cleared q c s t t'' :=
  Table.Alike.trans cleared same

theorem Cleared.again {t'' : Table} (twice : Cleared q c s t' t'') : t'.Alike t'' :=
  (((cleared.symm.record _ _ _ _).trans (Table.record_record_alike _ _ _ _ _ _)).trans
    cleared).symm.trans twice

end Cleared

private theorem ends_load_clears (k : Cursor) :
    Ends (q.load c config s) ⟨st, k⟩
      (fun _ u => st.Alike u.storage ∨ ∃ a r w seen, q.Reads c s st.table a r w ∧
        st.table.refusesIncrements = false ∧ a ≠ noEntry ∧
        q.sight (q.shows st.table s) a = .ok seen ∧ Clears config seen ∧
        u.cursor = { loaded := true, readPointer := r, writePointer := w } ∧
        Cleared q c s st.table u.storage.table)
      fun _ _ => True := by
  refine ends_load_read k (fun _ _ _ => trivial) fun a r w st' reads works same =>
    (ends_settle _).imp ?_ fun _ _ _ => trivial
  intro _ u settles
  cases settles with
  | idle _ => exact .inl same
  | again _ _ still => exact .inl (same.trans still)
  | waits _ _ _ still => exact .inl (same.trans still)
  | @clears seen _ _ some shown clears still table _ =>
      rw [q.shows_of_alike same.1] at shown
      refine .inr ⟨a, r, w, seen, reads, works, some, shown, clears, rfl, ?_⟩
      rw [Cleared, table]
      exact (same.trans still).1.record _ _ _ _

theorem untouched_of_load {k : Cursor} {u : Turn} (loaded : q.load c config s ⟨st, k⟩ = .ok () u) :
    st.table.Alike u.storage.table ∨ Cleared q c s st.table u.storage.table :=
  ((ends_load_clears k).of_ok loaded).imp (·.1) fun ⟨_, _, _, _, _, _, _, _, _, _, cleared⟩ => cleared

private theorem Cleared.reads {t t' : Table} (cleared : Cleared q c s t t') (h : q.Reads c s t a r w) :
    q.Reads c s t' (if s.sees s.writeVersion then noEntry else a) r w where
  active := by
    have cell : q.shows t' s (consumerRow c) .active =
        ((t.history (q.seat c).row Column.active.encode).record s.writeVersion
          (some (Bytes.ofUInt64 noEntry))).read s := by
      change (t'.history (q.seat c).row Column.active.encode).read s = _
      rw [Table.Alike.history cleared, Table.history_record, if_pos ⟨rfl, rfl⟩]
    rw [cell]
    split
    · rename_i seen
      rw [History.read_record_of_seen seen]
      exact q.decodeId_of_storedId? c (storedId?_ofUInt64 noEntry)
    · rename_i unseen
      rw [History.read_record_of_unseen (by simpa using unseen)]
      exact h.active
  readPointer := by
    rw [cleared.shows (by simp [Column.encode])]
    exact h.readPointer
  writePointer := by
    rw [h.writePointer, Table.Alike.standing cleared]
    rfl

/-- Loading again after a load that was answered changes nothing more, and answers the same cursor. -/
theorem load_again {k : Cursor} {u : Turn} (calm : st.plan = .none)
    (loaded : q.load c config s ⟨st, k⟩ = .ok () u) :
    ∃ u', q.load c config s ⟨u.storage, k⟩ = .ok () u' ∧ u.Alike u' := by
  have plan : u.storage.plan = .none := by
    have kept := (q.mirrored_load c config s).plan ⟨st, k⟩
    rw [loaded] at kept
    exact kept.trans calm
  rcases (ends_load_clears k).of_ok loaded with
    same | ⟨a, r, w, seen, reads, works, some, shown, clears, cursor, cleared⟩
  · have alike : Turn.Alike ⟨st, k⟩ ⟨u.storage, k⟩ := ⟨same.1, rfl⟩
    have agree := (q.mirrored_load c config s).agree alike plan (.inr calm)
    rw [loaded] at agree
    exact agree.of_ok
  · have reliable : u.storage.Reliable := ⟨plan, (Table.Alike.refuses cleared).trans works⟩
    have answers : Answers (q.load c config s) ⟨u.storage, k⟩ fun _ u' => u.Alike u' := by
      refine q.answers_load_of_reads c config s k reliable (cleared.reads reads) fun st' same => ?_
      split
      · -- The cleared entry is read as such.
        rw [settle, if_pos rfl]
        exact Answers.pure ⟨same.1, cursor.symm⟩
      · -- It is read as before, and cleared a second time.
        have shown' : q.sight (q.shows st'.table s) a = .ok seen := by
          rw [q.shows_of_alike same.1, ← shown]
          simp only [sight]
          rw [cleared.shows, cleared.shows]
          all_goals
            rintro ⟨row, -⟩
            exact RowKey.noConfusion (RowKey.encode_injective row)
        refine (answers_settle_of_clears _ (reliable.of_alike same) some shown' clears).imp ?_
        rintro _ u' ⟨cursor', cleared'⟩
        refine ⟨?_, cursor'.trans cursor.symm⟩
        exact same.1.trans ((cleared.of_alike same.1).again cleared')
    obtain ⟨_, u', done, same⟩ := answers
    exact ⟨u', done, same⟩

end Queue

end VersionedQueue
