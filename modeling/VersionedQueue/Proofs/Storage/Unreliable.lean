import VersionedQueue.Proofs.Storage.Footprint
import VersionedQueue.Proofs.Storage.Reliable

/-!
# Calls to storage that may fail

However the calls of a queue end, a call that fails leaves the table as it was, and a call that is
answered has done what it does to storage that works.
-/

set_option autoImplicit false
set_option relaxedAutoImplicit false

namespace VersionedQueue

namespace Storage

variable {α : Type} {st : Storage}

theorem Alike.of_touched {v : Version} {st' : Storage}
    (h : (touched (fun _ => False) v).rel st st') : st.Alike st' := ⟨h.1.alike, h.2⟩

/-- A call either does what it was made for or leaves the table as it was. -/
theorem ends_call {purpose : Purpose} {kind : Access} {act : TableM α} {post : α → Storage → Prop}
    (clean : TableM.FailsClean act)
    (h : ∀ a st', act st.table = .ok a st'.table → st'.plan = st.plan → post a st') :
    Ends (call purpose kind act) st post
      fun e st' => (∃ source, e = .internal purpose.text source) ∧ st.Alike st' := by
  unfold Ends
  simp only [call]
  split
  · rename_i answered
    split at answered
    · cases answered
    · split at answered
      · rename_i done
        cases answered
        exact h _ _ done rfl
      · cases answered
  · rename_i failed
    split at failed
    · cases failed
      exact ⟨⟨_, rfl⟩, .refl _⟩
    · split at failed
      · cases failed
      · rename_i refused
        cases failed
        rw [clean refused]
        exact ⟨⟨_, rfl⟩, .refl _⟩

end Storage

namespace Queue

variable (q : Queue) {st : Storage}

theorem ends_view (purpose : Purpose) (s : Snapshot) :
    Ends (q.view purpose s) st (fun view st' => view = q.shows st.table s ∧ st.Alike st')
      fun e st' => (∃ source, e = .internal purpose.text source) ∧ st.Alike st' := by
  have read : Ends (Storage.view purpose s) st
      (fun cells st' => cells = st.table.read s ∧ st.Alike st')
      fun e st' => (∃ source, e = .internal purpose.text source) ∧ st.Alike st' :=
    Storage.ends_call (TableM.failsClean_view s) fun cells st' done plan => by
      have parts := EStateM.Result.ok.inj done
      exact ⟨parts.1.symm, parts.2 ▸ .refl _, plan⟩
  refine read.bind ?_
  rintro cells st' ⟨rfl, same⟩
  exact Ends.pure ⟨rfl, same⟩

theorem ends_read {α : Type} (purpose : Purpose) (s : Snapshot)
    (make : QueueView → Except QueueError α) :
    Ends (do
        let view ← q.view purpose s
        MonadExcept.ofExcept (make view)) st
      (fun a st' => make (q.shows st.table s) = .ok a ∧ st.Alike st') fun _ st' => st.Alike st' := by
  refine ((q.ends_view purpose s).imp (fun _ _ done => done) fun _ _ failed => failed.2).bind ?_
  rintro view st' ⟨rfl, same⟩
  exact Ends.ofExcept (fun _ made => ⟨made, same⟩) fun _ _ => same

theorem ends_put (purpose : Purpose) (key : RowKey) (cells : List (Column × Bytes)) (v : Version) :
    Ends (q.put purpose key cells v) st
      (fun _ st' => st'.table = st.table.recordAll (key.encode q.name)
        (cells.map fun cell => (cell.1.encode, cell.2)) v ∧ st'.plan = st.plan)
      fun e st' => (∃ source, e = .internal purpose.text source) ∧ st.Alike st' := by
  unfold put Storage.put
  exact Storage.ends_call (TableM.failsClean_put _ _ _) fun _ st' done plan =>
    ⟨TableM.table_of_put done, plan⟩

theorem ends_delete (purpose : Purpose) (key : RowKey) (column : Column) (v : Version) :
    Ends (q.delete purpose key column v) st
      (fun _ st' => st'.table = st.table.record (key.encode q.name) column.encode v none ∧
        st'.plan = st.plan)
      fun e st' => (∃ source, e = .internal purpose.text source) ∧ st.Alike st' := by
  unfold delete Storage.delete
  exact Storage.ends_call (TableM.failsClean_delete _ _ _) fun _ st' done plan =>
    ⟨TableM.table_of_delete done, plan⟩

theorem ends_count (purpose : Purpose) (key : RowKey) {delta : Int64} (forward : 0 ≤ delta.toInt) :
    Ends (q.count purpose key delta) st
      (fun id st' => st.table.refusesIncrements = false ∧
        (id.toNat : Int) = st.table.standing (key.encode q.name) + delta.toInt ∧
        st'.table.standing (key.encode q.name) = id.toNat ∧
        (Storage.touched (· = key.encode q.name) 0).rel st st')
      fun e st' => ((∃ source, e = .internal purpose.text source) ∨
          ∃ what, e = q.corrupted key what) ∧
        (Storage.touched (· = key.encode q.name) 0).rel st st' := by
  have added : Ends (Storage.increment purpose (key.encode q.name) Column.counter.encode delta) st
      (fun value st' =>
        TableM.increment (key.encode q.name) Column.counter.encode delta st.table =
          .ok value st'.table ∧ st'.plan = st.plan)
      fun e st' => ((∃ source, e = .internal purpose.text source) ∨
          ∃ what, e = q.corrupted key what) ∧
        (Storage.touched (· = key.encode q.name) 0).rel st st' :=
    (Storage.ends_call (TableM.failsClean_increment _ _ _) fun value st' done plan =>
      ⟨done, plan⟩).imp (fun _ _ done => done)
      fun _ st' ⟨source, same⟩ => ⟨.inl source, same.1.touched _ _, same.2⟩
  refine added.bind ?_
  rintro value st' ⟨done, plan⟩
  have touched : st.table.Touched (· = key.encode q.name) 0 st'.table :=
    TableM.touched_increment rfl forward done
  obtain ⟨sum, counters⟩ := TableM.counter_of_increment done
  have value_eq := Table.toInt_of_checkedAdd sum
  cases known : counterId? value with
  | none => exact ⟨.inr ⟨_, rfl⟩, touched, plan⟩
  | some id =>
      have stands := toInt_of_counterId? known
      have works := (TableM.of_increment done).1
      refine Ends.pure ⟨works, ?_, ?_, touched, plan⟩
      · rw [Table.standing]
        omega
      · rw [Table.standing, counters, if_pos ⟨rfl, rfl⟩]
        omega

theorem ends_count_zero (purpose : Purpose) (key : RowKey) :
    Ends (q.count purpose key 0) st
      (fun id st' => st.table.refusesIncrements = false ∧
        (id.toNat : Int) = st.table.standing (key.encode q.name) ∧ st.Alike st')
      fun _ st' => st.Alike st' := by
  have kept : (Storage.touched (fun _ => False) 0).Keeps (q.count purpose key 0) :=
    q.keeps_count_zero purpose key
  refine .intro (fun id st' done => ?_) fun e st' failed => .of_touched ((kept.ends st).of_error failed)
  have zero : (0 : Int64).toInt = 0 := rfl
  have forward : 0 ≤ (0 : Int64).toInt := Int.le_refl 0
  obtain ⟨works, stands, _, _⟩ := (q.ends_count purpose key forward).of_ok done
  exact ⟨works, by omega, .of_touched ((kept.ends st).of_ok done)⟩

end Queue

namespace Turn

variable {α : Type}

theorem ends_onStorage {act : StorageM α} {t : Turn} {post : α → Storage → Prop}
    {fail : QueueError → Storage → Prop} (h : Ends act t.storage post fail) :
    Ends (onStorage act) t (fun a t' => post a t'.storage ∧ t.cursor = t'.cursor)
      fun e t' => fail e t'.storage ∧ t.cursor = t'.cursor := by
  unfold Ends at h ⊢
  simp only [onStorage]
  cases done : act t.storage with
  | ok a st =>
      rw [done] at h
      exact ⟨h, rfl⟩
  | error e st =>
      rw [done] at h
      exact ⟨h, rfl⟩

theorem ends_cursorNow {t : Turn} {next : Cursor → TurnM α} {post : α → Turn → Prop}
    {fail : QueueError → Turn → Prop} (h : Ends (next t.cursor) t post fail) :
    Ends (cursorNow >>= next) t post fail := h

theorem ends_update {t : Turn} {f : Cursor → Cursor} {next : Unit → TurnM α}
    {post : α → Turn → Prop} {fail : QueueError → Turn → Prop}
    (h : Ends (next ()) ⟨t.storage, f t.cursor⟩ post fail) :
    Ends (update f >>= next) t post fail := h

end Turn

namespace Queue

variable (q : Queue) (s : Snapshot)

theorem ends_reading {α : Type} (purpose : Purpose) (make : QueueView → Except QueueError α)
    (t : Turn) :
    Ends (Turn.onStorage (do
        let view ← q.view purpose s
        MonadExcept.ofExcept (make view))) t
      (fun a u => make (q.shows t.storage.table s) = .ok a ∧ t.storage.Alike u.storage ∧
        u.cursor = t.cursor)
      fun _ u => t.storage.Alike u.storage ∧ u.cursor = t.cursor :=
  (Turn.ends_onStorage (q.ends_read purpose s make)).imp
    (fun _ _ done => ⟨done.1.1, done.1.2, done.2.symm⟩) fun _ _ failed => ⟨failed.1, failed.2.symm⟩

theorem ends_looking (id : EntryId) (t : Turn) :
    Ends (Turn.onStorage (q.readEntry id s)) t
      (fun seen u => q.sight (q.shows t.storage.table s) id = .ok seen ∧ t.storage.Alike u.storage ∧
        u.cursor = t.cursor)
      fun _ u => t.storage.Alike u.storage ∧ u.cursor = t.cursor :=
  q.ends_reading s .readEntries (fun view => q.sight view id) t

end Queue

end VersionedQueue
