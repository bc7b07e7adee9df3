import VersionedQueue.Proofs.Run.Footprint
import VersionedQueue.Proofs.Storage.Unreliable

/-!
# States last

The state of an entry is written by its append and by its retirements, and nothing deletes it: what a
retirement deletes is the payload.  So whichever calls failed, a snapshot that sees one version of the
state of an entry shows the entry as something, and never as unseen.
-/

set_option autoImplicit false
set_option relaxedAutoImplicit false

namespace VersionedQueue

/-- Some version of the state of an entry is known. -/
def Table.Discloses (t : Table) (queue : String) (known : Version → Prop) (id : EntryId) : Prop :=
  ∃ v, known v ∧ (t.history ((RowKey.entry id).encode queue) Column.state.encode).Has v

/-- No version of the state of an entry of a queue is a deletion. -/
def Table.StatesLast (t : Table) (queue : String) : Prop :=
  ∀ id v x, (t.history ((RowKey.entry id).encode queue) Column.state.encode).at? v = some x → x ≠ none

/-- Operations that delete the state of no entry. -/
def Storage.lasting (queue : String) : StateBound Storage where
  rel st st' := st.table.StatesLast queue → st'.table.StatesLast queue
  refl _ h := h
  trans first second h := second (first h)

theorem Table.Discloses.of_touched {t t' : Table} {queue : String} {known : Version → Prop}
    {id : EntryId} (h : t.Discloses queue known id) {rows : Bytes → Prop} {v : Version}
    (touched : t.Touched rows v t') : t'.Discloses queue known id := by
  obtain ⟨w, here, has⟩ := h
  exact ⟨w, here, touched.has _ _ w has⟩

theorem Table.Discloses.widen {t : Table} {queue : String} {known wider : Version → Prop}
    {id : EntryId} (h : t.Discloses queue known id) (more : ∀ v, known v → wider v) :
    t.Discloses queue wider id := by
  obtain ⟨w, here, has⟩ := h
  exact ⟨w, more w here, has⟩

namespace Table.StatesLast

variable {t t' : Table} {queue : String}

theorem of_history (h : t.StatesLast queue) (same : ∀ id column,
    t'.history ((RowKey.entry id).encode queue) column =
      t.history ((RowKey.entry id).encode queue) column) : t'.StatesLast queue := by
  intro id v x found
  rw [same] at found
  exact h id v x found

theorem record (h : t.StatesLast queue) {row column : Bytes} {x : Option Bytes} (v : Version)
    (kept : x = none → column ≠ Column.state.encode) : (t.record row column v x).StatesLast queue := by
  intro id w y found
  rw [Table.history_record] at found
  split at found
  · rename_i here
    rw [History.at?_record] at found
    split at found
    · cases found
      intro deleted
      exact kept deleted here.2.symm
    · rw [← here.1, ← here.2] at found
      exact h id w y found
  · exact h id w y found

theorem recordAll (h : t.StatesLast queue) (row : Bytes) (cells : List (Bytes × Bytes)) (v : Version) :
    (t.recordAll row cells v).StatesLast queue := by
  induction cells generalizing t with
  | nil => exact h
  | cons cell cells ih => exact ih (h.record v nofun)

end Table.StatesLast

namespace Queue

open StateBound (keeps_pure keeps_throw keeps_ofExcept keeps_bind keeps_ite)

variable (q : Queue) {s : Snapshot} {t : Table} {id : EntryId} {payload : Bytes}

private theorem keeps_lasting_put (purpose : Purpose) (key : RowKey) (cells : List (Column × Bytes))
    (v : Version) : (Storage.lasting q.name).Keeps (q.put purpose key cells v) := by
  intro st last
  have ends := @ends_put q st purpose key cells v
  cases done : q.put purpose key cells v st with
  | ok u st' =>
      change st'.table.StatesLast _
      rw [(ends.of_ok done).1]
      exact last.recordAll _ _ v
  | error e st' => exact last.of_history fun id column => (ends.of_error done).2.1.history _ column

private theorem keeps_lasting_delete (purpose : Purpose) (key : RowKey) (v : Version) :
    (Storage.lasting q.name).Keeps (q.delete purpose key .payload v) := by
  intro st last
  have ends := @ends_delete q st purpose key .payload v
  cases done : q.delete purpose key .payload v st with
  | ok u st' =>
      change st'.table.StatesLast _
      rw [(ends.of_ok done).1]
      exact last.record v fun _ => by decide
  | error e st' => exact last.of_history fun id column => (ends.of_error done).2.1.history _ column

private theorem keeps_lasting_of_touched {α : Type} {rows : Bytes → Prop} {v : Version}
    {act : StorageM α} (h : (Storage.touched rows v).Keeps act)
    (out : ∀ id, ¬ rows ((RowKey.entry id).encode q.name)) : (Storage.lasting q.name).Keeps act :=
  fun st last => last.of_history fun id column => (h st).1.history _ (out id) column

private theorem keeps_lasting_enqueue (entry : Entry) (v : Version) :
    (Storage.lasting q.name).Keeps (q.enqueue entry v) := by
  unfold enqueue
  cases entry.partitioning.headerCells with
  | error rejection => exact keeps_throw _
  | ok headers =>
      have allocates : (Storage.touched (· = RowKey.entryCounter.encode q.name) 0).Keeps
          q.allocateEntryId := q.keeps_count (by rfl) _
      refine keeps_bind (q.keeps_lasting_of_touched allocates fun id same => ?_) fun id =>
        keeps_bind (q.keeps_lasting_put _ _ _ v) fun _ => keeps_pure _
      cases RowKey.encode_injective same

private theorem keeps_lasting_invalidate (p : Pointer) (v : Version) :
    (Storage.lasting q.name).Keeps (q.invalidate p v) := by
  refine keeps_bind (keeps_ofExcept _) fun _ => keeps_bind ?_ fun current => ?_
  · have views : (Storage.touched (fun _ => False) 0).Keeps (q.readState p.id (.upTo v)) := by
      refine keeps_bind (q.keeps_view _ _) fun view => ?_
      cases view (.entry p.id) .state with
      | none => exact keeps_pure _
      | some cell => exact keeps_bind (keeps_ofExcept _) fun _ => keeps_pure _
    exact q.keeps_lasting_of_touched views fun _ => id
  · exact keeps_ite (keeps_bind (q.keeps_lasting_put _ _ _ v) fun _ => q.keeps_lasting_delete _ _ v)
      (keeps_pure _)

theorem discloses_of_sight (sight : q.sight (q.shows t s) id = .ok (.servable payload)) :
    t.Discloses q.name (s.sees ·) id := by
  cases shown : q.shows t s (.entry id) .state with
  | none =>
      rw [Queue.sight, shown] at sight
      cases sight
  | some cell =>
      have read : (t.history ((RowKey.entry id).encode q.name) Column.state.encode).read s =
          some cell := shown
      rcases History.read_cases (t.history ((RowKey.entry id).encode q.name) Column.state.encode) s with
        ⟨hidden, _⟩ | ⟨v, x, seen, here, _⟩
      · cases hidden.symm.trans read
      · exact ⟨v, seen, by simp [History.Has, here]⟩

theorem sight_ne_unseen (last : t.StatesLast q.name) (disclosed : t.Discloses q.name (s.sees ·) id) :
    q.sight (q.shows t s) id ≠ .ok .unseen := by
  obtain ⟨v, seen, has⟩ := disclosed
  cases shown : q.shows t s (.entry id) .state with
  | none =>
      have read : (t.history ((RowKey.entry id).encode q.name) Column.state.encode).read s = none :=
        shown
      rcases History.read_cases (t.history ((RowKey.entry id).encode q.name) Column.state.encode) s with
        ⟨_, hidden⟩ | ⟨w, x, _, here, _, found⟩
      · exact absurd has (hidden v seen)
      · exact absurd (found.symm.trans read) (last id w x here)
  | some cell =>
      intro unseen
      rw [Queue.sight, shown] at unseen
      cases decoded : q.decodeState id cell with
      | error e => simp [decoded] at unseen
      | ok state =>
          simp only [decoded] at unseen
          split at unseen
          · cases payload : q.shows t s (.entry id) .payload <;> simp [payload] at unseen
          · cases unseen

end Queue

theorem Event.statesLast {e : Event} {queue : String} (name : e.call.queue.name = queue)
    (h : e.before.table.StatesLast queue) : e.after.table.StatesLast queue := by
  cases asked : e.call.request using Request.producer_cases with
  | enqueue entry v =>
      subst name
      have after : e.after = (Outcome.ofStorage .enqueued (e.call.queue.enqueue entry v
          { e.before with plan := e.call.plan })).storage := by
        simp only [Event.after, Event.outcome, Call.perform, asked]
      rw [after]
      exact Call.rel_ofStorage (e.call.queue.keeps_lasting_enqueue entry v) _ h
  | invalidate p v =>
      subst name
      have after : e.after = (Outcome.ofStorage (fun _ : Unit => .invalidated)
          (e.call.queue.invalidate p v { e.before with plan := e.call.plan })).storage := by
        simp only [Event.after, Event.outcome, Call.perform, asked]
      rw [after]
      exact Call.rel_ofStorage (e.call.queue.keeps_lasting_invalidate p v) _ h
  | aside request quiet keeps =>
      rw [← asked] at quiet keeps
      exact h.of_history fun id column =>
        e.history_of_not_touches name (Request.not_touches_entry quiet keeps id) column

/-- After every run no version of the state of an entry is a deletion. -/
theorem statesLast_of_run {queue : String} {past : List Event} (run : Run (OneQueue queue) past) :
    (storageAfter past).table.StatesLast queue := by
  induction run with
  | start =>
      intro id v x found
      simp [storageAfter, Table.history] at found
  | @next past call earlier name ih => exact Event.statesLast (e := ⟨call, storageAfter past⟩) name ih

end VersionedQueue
