import VersionedQueue.Proofs.Entries.Marks
import VersionedQueue.Proofs.Run.Replay
import VersionedQueue.Queue.Pass

/-!
# Entries are read as their logs say

The state and the payload of an entry have versions of their own, and a retirement may stop between
writing the one and deleting the other.  Even so every snapshot shows of an entry what its newest seen mark
says: nothing, or the payload of that append, or that the entry is retired.  So a batch read sorts ids
by their logs, and never meets a row that it cannot make sense of.
-/

set_option autoImplicit false
set_option relaxedAutoImplicit false

namespace VersionedQueue

/-- The row of an entry is as the log of the entry says. -/
structure Logged (past : List Event) (p : Pointer) (t : Table) : Prop where
  /-- The state at a version is the one of the last mark there. -/
  state : ∀ v, (t.cell p.queue (.entry p.id) .state).at? v =
    ((entryLog past p).lookup v).map fun mark => some mark.state.encode
  /-- With an append there is its payload. -/
  payload : ∀ v entry, (entryLog past p).lookup v = some (.appended entry) →
    (t.cell p.queue (.entry p.id) .payload).at? v = some (some entry.payload)
  payload_has : ∀ v, (t.cell p.queue (.entry p.id) .payload).Has v → (entryLog past p).lookup v ≠ none

section Cons

variable {past : List Event} {e : Event} {p : Pointer}

theorem entryLog_cons_of_some {mark : Version × Mark} (h : e.mark? p = some mark) :
    entryLog (e :: past) p = mark :: entryLog past p := List.filterMap_cons_some h

theorem entryLog_cons_of_none (h : e.mark? p = none) : entryLog (e :: past) p = entryLog past p :=
  List.filterMap_cons_none h

theorem entryLog_append (newer past : List Event) (p : Pointer) :
    entryLog (newer ++ past) p = entryLog newer p ++ entryLog past p := List.filterMap_append

theorem enqueued_iff_logged {entry : Entry} {v : Version} :
    Enqueued past p entry v ↔ (v, Mark.appended entry) ∈ entryLog past p := by
  rw [entryLog, List.mem_filterMap]
  simp only [Event.mark?_eq_appended, Enqueued]

theorem logged_of_invalidated {v : Version} (h : Invalidated past p v) :
    (v, Mark.retired) ∈ entryLog past p := by
  obtain ⟨r, mem, retires⟩ := h
  exact List.mem_filterMap.2 ⟨r, mem, Event.mark?_of_retires retires⟩

end Cons

namespace Logged

variable {past : List Event} {e : Event} {p : Pointer} {t t' : Table} {entry : Entry} {v : Version}

theorem start (p : Pointer) : Logged [] p {} where
  state v := by simp [Table.cell, Table.history, entryLog]
  payload v entry known := by cases known
  payload_has v has := by simp [Table.cell, Table.history, History.Has] at has

theorem plainState (h : Logged past p t) : t.PlainState p := by
  intro v x found
  rw [h.state, Option.map_eq_some_iff] at found
  obtain ⟨mark, _, rfl⟩ := found
  cases mark with
  | appended entry => exact .inl rfl
  | retired => exact .inr rfl

theorem of_append (h : Logged past p t) (marked : e.mark? p = some (v, .appended entry))
    (written : Table.Appended p.queue p.id entry v t t') : Logged (e :: past) p t' where
  state w := by
    rw [entryLog_cons_of_some marked, EntryLog.lookup_cons_eq, written.state, History.at?_record, h.state]
    split <;> rfl
  payload w entry' known := by
    rw [entryLog_cons_of_some marked, EntryLog.lookup_cons_eq] at known
    rw [written.payload, History.at?_record]
    split at known
    · rename_i now
      cases known
      rw [if_pos now]
    · rename_i other
      rw [if_neg other]
      exact h.payload w entry' known
  payload_has w has := by
    rw [entryLog_cons_of_some marked, EntryLog.lookup_cons_eq]
    rw [written.payload, History.has_record] at has
    split
    · exact Option.some_ne_none _
    · rename_i other
      exact h.payload_has w (has.resolve_left other)

theorem of_retirement (h : Logged past p t) (marked : e.mark? p = some (v, .retired))
    (written : Table.MarkedRetired p v t t')
    (others : ∀ w, w ≠ v → (t'.cell p.queue (.entry p.id) .payload).at? w =
      (t.cell p.queue (.entry p.id) .payload).at? w) : Logged (e :: past) p t' where
  state w := by
    rw [entryLog_cons_of_some marked, EntryLog.lookup_cons_eq, written, History.at?_record, h.state]
    split <;> rfl
  payload w entry' known := by
    rw [entryLog_cons_of_some marked, EntryLog.lookup_cons_eq] at known
    split at known
    · cases known
    · rename_i other
      rw [others w (Ne.symm other)]
      exact h.payload w entry' known
  payload_has w has := by
    rw [entryLog_cons_of_some marked, EntryLog.lookup_cons_eq]
    split
    · exact Option.some_ne_none _
    · rename_i other
      rw [History.Has, others w (Ne.symm other)] at has
      exact h.payload_has w has

theorem of_aside (h : Logged past p t) (unmarked : e.mark? p = none)
    (cells : ∀ column, t'.cell p.queue (.entry p.id) column = t.cell p.queue (.entry p.id) column) :
    Logged (e :: past) p t' where
  state w := by rw [entryLog_cons_of_none unmarked, cells, h.state]
  payload w entry' known := by
    rw [entryLog_cons_of_none unmarked] at known
    rw [cells, h.payload w entry' known]
  payload_has w has := by
    rw [cells] at has
    rw [entryLog_cons_of_none unmarked]
    exact h.payload_has w has

theorem next (h : Logged past p e.before.table) (did : e.OnEntry p) :
    Logged (e :: past) p e.after.table := by
  cases did with
  | appends entry v appends written => exact h.of_append (Event.mark?_of_appends appends) written
  | retires v marked written others => exact h.of_retirement marked written others
  | aside unmarked cells => exact h.of_aside unmarked cells

section Shown

variable {q : Queue} {id : EntryId} (h : Logged past ⟨q.name, id⟩ t) (s : Snapshot)

include h

private theorem has_state_iff (w : Version) : (t.cell q.name (.entry id) .state).Has w ↔
    (entryLog past ⟨q.name, id⟩).lookup w ≠ none := by
  rw [History.Has, h.state w, Ne, Option.map_eq_none_iff]

/-- A snapshot shows the state of the newest mark that it sees. -/
theorem shown_state : q.shows t s (.entry id) .state =
    ((entryLog past ⟨q.name, id⟩).newest? s).map (·.2.state.encode) := by
  cases newest : (entryLog past ⟨q.name, id⟩).newest? s with
  | none =>
      have hidden := EntryLog.newest?_eq_none.1 newest
      rcases (t.cell q.name (.entry id) .state).read_cases s with ⟨read, _⟩ | ⟨w, x, seen, here, _, _⟩
      · exact read
      · obtain ⟨mark, known⟩ := Option.ne_none_iff_exists'.1
          ((h.has_state_iff w).1 (by simp [History.Has, here]))
        have unseen := hidden _ (EntryLog.mem_of_lookup known)
        simp [seen] at unseen
  | some top =>
      obtain ⟨seen, last, greatest⟩ := @EntryLog.newest?_spec s _ top.1 top.2 newest
      refine History.read_of_newest seen (by rw [← Table.cell, h.state, last]; rfl) fun w wSeen has => ?_
      obtain ⟨mark, known⟩ := Option.ne_none_iff_exists'.1 ((h.has_state_iff w).1 has)
      exact greatest _ (EntryLog.mem_of_lookup known) wSeen

/-- A snapshot shows of an entry what its log says. -/
theorem sight : q.sight (q.shows t s) id = .ok ((entryLog past ⟨q.name, id⟩).sighting s) := by
  have state := h.shown_state s
  cases newest : (entryLog past ⟨q.name, id⟩).newest? s with
  | none =>
      rw [newest] at state
      simp [Queue.sight, state, EntryLog.sighting, newest]
  | some top =>
      obtain ⟨v, mark⟩ := top
      rw [newest] at state
      cases mark with
      | retired => simp [Queue.sight, state, Queue.decodeState, EntryState.isServable, Mark.state,
          EntryLog.sighting, newest, Mark.sighting]
      | appended entry =>
          obtain ⟨seen, last, greatest⟩ := EntryLog.newest?_spec newest
          -- The payload has versions of its own, but none later than the newest mark that is seen.
          have payload : q.shows t s (.entry id) .payload = some entry.payload := by
            refine History.read_of_newest seen (h.payload v entry last) fun w wSeen has => ?_
            obtain ⟨mark, known⟩ := Option.ne_none_iff_exists'.1 (h.payload_has w has)
            exact greatest _ (EntryLog.mem_of_lookup known) wSeen
          simp [Queue.sight, state, payload, Queue.decodeState, EntryState.isServable, Mark.state,
            EntryLog.sighting, newest, Mark.sighting]

end Shown

end Logged

section Run

variable {past : List Event}

theorem onEntry_of_logged {call : Call} (run : Run Opened past) (opens : call.queue.Opens) {p : Pointer}
    (short : ShortName p.queue) (logged : Logged past p (storageAfter past).table) :
    Event.OnEntry ⟨call, storageAfter past⟩ p :=
  Event.onEntry (e := ⟨call, storageAfter past⟩) opens short (fun _ => standing_nonneg run _)
    logged.plainState

/-- After every run the row of each entry is as the log of the entry says. -/
theorem logged_of_run (run : Run Opened past) {p : Pointer} (short : ShortName p.queue) :
    Logged past p (storageAfter past).table := by
  induction run with
  | start => exact .start p
  | @next past call earlier opens ih =>
      exact ih.next (e := ⟨call, storageAfter past⟩) (onEntry_of_logged earlier opens short ih)

theorem Enqueued.takes {allowed : List Event → Call → Prop} {p : Pointer} {entry : Entry} {v : Version}
    (appended : Enqueued past p entry v) (run : Run allowed past) :
    ∃ d ∈ past, d.Appends p entry v ∧ d.allocates? p.queue = some p.id := by
  obtain ⟨d, mem, appends⟩ := appended
  exact ⟨d, mem, appends, (appends.written (counted_of_mem run mem)).2.1⟩

theorem not_enqueued_again {newer : List Event} {p : Pointer} (run : Run Opened (newer ++ past))
    (taken : (p.id.toNat : Int) ≤
      (storageAfter past).table.standing (RowKey.entryCounter.encode p.queue)) {entry : Entry}
    {v : Version} : ¬ Enqueued newer p entry v := by
  rintro ⟨e, new, appends⟩
  have counted := counted_of_mem run (List.mem_append_left past new)
  obtain ⟨_, takes, _⟩ := appends.written counted
  obtain ⟨after, before, rfl⟩ := List.append_of_mem new
  obtain ⟨earlier, _, found⟩ := Run.cons_iff.1 (run.of_suffix
    (by simp : e :: (before ++ past) <:+ (after ++ e :: before) ++ past))
  have beyond := ((Event.allocates?_eq_some (counted _)).1 takes).1
  have grown := standing_le_of_suffix earlier (List.suffix_append before past)
    (RowKey.entryCounter.encode p.queue)
  rw [found] at beyond
  exact absurd (Int.lt_of_le_of_lt (Int.le_trans taken grown) beyond) (Int.lt_irrefl _)

end Run

/-- What was read of entries, sorted: those to serve, those retired, and those not visible. -/
structure EntryBatch where
  entries : List CachedEntry
  retired : List EntryId
  unseen : List EntryId
  deriving DecidableEq

def EntryBatch.sort (seen : List (EntryId × Sighting)) : EntryBatch where
  entries := servableEntries seen
  retired := (seen.filter (·.2 = .retired)).map (·.1)
  unseen := (seen.filter (·.2 = .unseen)).map (·.1)

namespace EntryBatch

/-- The ids of the three classes, one after the other. -/
def ids (batch : EntryBatch) : List EntryId :=
  batch.entries.map (·.id) ++ batch.retired ++ batch.unseen

theorem ids_sort_perm (seen : List (EntryId × Sighting)) :
    (sort seen).ids.Perm (seen.map (·.1)) := by
  induction seen with
  | nil => exact .nil
  | cons found rest ih =>
      obtain ⟨id, sighting⟩ := found
      simp only [sort, ids] at ih ⊢
      cases sighting with
      | servable payload => exact ih.cons id
      | retired =>
          refine (List.Perm.append_right _ List.perm_middle).trans ?_
          exact ih.cons id
      | unseen =>
          refine List.perm_middle.trans ?_
          exact ih.cons id

end EntryBatch

/-- The append that a mark stands for. -/
def Mark.append? : Mark → Option Entry
  | appended entry => some entry
  | retired => none

section Batch

variable (log : EntryId → EntryLog) (s : Snapshot) (ids : List EntryId)

/-- Entries sorted by the newest mark that a snapshot sees: whether there is one, and whether it is that of
an append. -/
def EntryBatch.ofLogs : EntryBatch where
  entries := ids.filterMap fun id =>
    ((log id).newest? s).bind fun mark => mark.2.append?.map fun entry => ⟨id, entry.payload⟩
  retired := ids.filter fun id => ((log id).newest? s).any (·.2.append?.isNone)
  unseen := ids.filter fun id => ((log id).newest? s).isNone

theorem EntryBatch.sort_sightings :
    sort (ids.map fun id => (id, (log id).sighting s)) = ofLogs log s ids := by
  simp only [sort, ofLogs, servableEntries, List.filterMap_map, List.filter_map, List.map_map,
    Function.comp_def, List.map_id', EntryBatch.mk.injEq]
  refine ⟨congrArg (List.filterMap · ids) (funext fun id => ?_), List.filter_congr fun id _ => ?_,
    List.filter_congr fun id _ => ?_⟩ <;>
  · rw [EntryLog.sighting]
    cases (log id).newest? s with
    | none => rfl
    | some mark =>
        obtain ⟨v, mark⟩ := mark
        cases mark <;> rfl

end Batch

theorem Queue.readEntries_of_sights {q : Queue} {st : Storage} {s : Snapshot}
    {sighting : EntryId → Sighting}
    (sights : ∀ id, q.sight (q.shows st.table s) id = .ok (sighting id)) (ids : List EntryId) :
    ∃ st', q.readEntries ids s st =
      if st.plan .get st.calls.gets then
        .error (.internal Purpose.readEntries.text (.failed Access.get.name "injected")) st'
      else .ok (ids.map fun id => (id, sighting id)) st' := by
  have all : (ids.mapM fun id => (q.sight (q.shows st.table s) id).map (id, ·)) =
      .ok (ids.map fun id => (id, sighting id)) := by
    simp only [sights, Except.map]
    exact List.mapM_pure
  have viewed := q.view_eq .readEntries s st
  refine ⟨{ st with calls := st.calls.add .get }, ?_⟩
  by_cases fails : st.plan .get st.calls.gets = true
  · rw [if_pos fails] at viewed ⊢
    exact bind_eq_of_error viewed
  · rw [if_neg fails] at viewed ⊢
    refine (bind_eq_of_ok viewed).trans ?_
    rw [all]
    rfl

/-- After every run on the queues of a table, whichever calls failed, a read of entries is answered
unless the call itself is made to fail, and then it does not find the data corrupted.  It sorts the ids
by the newest mark that the snapshot sees of each: unseen if there is none, to be served with
exactly the payload of an append, retired by a retirement.  The classes keep the order of the ids, and
each id is in one of them. -/
theorem read_as_logged {past : List Event} {q : Queue} (run : Run Opened past) (opens : q.Opens)
    (ids : List EntryId) (s : Snapshot) (plan : FaultPlan) :
    ∃ seen st', q.readEntries ids s { storageAfter past with plan } =
        (if plan .get (storageAfter past).calls.gets then
          .error (.internal Purpose.readEntries.text (.failed Access.get.name "injected")) st'
        else .ok seen st') ∧
      seen = ids.map (fun id => (id, (entryLog past ⟨q.name, id⟩).sighting s)) ∧
      EntryBatch.sort seen = .ofLogs (fun id => entryLog past ⟨q.name, id⟩) s ids ∧
      (EntryBatch.sort seen).ids.Perm ids := by
  have sights (id : EntryId) :
      q.sight (q.shows (storageAfter past).table s) id =
        .ok ((entryLog past ⟨q.name, id⟩).sighting s) :=
    (logged_of_run run opens.shortName).sight s
  obtain ⟨st', read⟩ := @Queue.readEntries_of_sights q { storageAfter past with plan } s _ sights ids
  refine ⟨_, st', read, rfl, EntryBatch.sort_sightings _ s ids, ?_⟩
  have perm := EntryBatch.ids_sort_perm
    (ids.map fun id => (id, (entryLog past ⟨q.name, id⟩).sighting s))
  rwa [List.map_map, Function.comp_def, List.map_id'] at perm

/-- An entry is retired at a version before its own, and keeps its payload since the storage fails; an id is
retired before it is taken; an append fails after it took its id; and an entry is appended and retired
at one version. -/
def mixed : List Call :=
  let queue : Queue := ⟨"q", ⟨.hash, 20⟩⟩
  [⟨queue, .invalidate ⟨"q", 4⟩ 9, .none⟩, ⟨queue, .enqueue ⟨[100], {}⟩ 9, .none⟩,
    ⟨queue, .enqueue ⟨[99], {}⟩ 6, fun kind _ => kind == .put⟩, ⟨queue, .enqueue ⟨[98], {}⟩ 4, .none⟩,
    ⟨queue, .invalidate ⟨"q", 2⟩ 7, .none⟩,
    ⟨queue, .invalidate ⟨"q", 1⟩ 3, fun kind _ => kind == .delete⟩,
    ⟨queue, .enqueue ⟨[97], {}⟩ 5, .none⟩]

private theorem mixed_run : Run Opened (replay mixed) := by
  have opens : Queue.Opens ⟨"q", ⟨.hash, 20⟩⟩ := rfl
  exact .replay_cons (.replay_cons (.replay_cons (.replay_cons (.replay_cons (.replay_cons
    (.replay_cons .start opens) opens) opens) opens) opens) opens) opens

/-- A snapshot that does not see the retirement before the append shows the first two entries. -/
theorem mixed_read :
    ∃ seen st', (⟨"q", ⟨.hash, 20⟩⟩ : Queue).readEntries [1, 2, 3, 4] (.upToExcept 10 [7])
        { storageAfter (replay mixed) with plan := .none } = .ok seen st' ∧
      EntryBatch.sort seen = ⟨[⟨1, [97]⟩, ⟨2, [98]⟩], [4], [3]⟩ := by
  obtain ⟨seen, st', read, _, sorted, _⟩ :=
    read_as_logged (q := ⟨"q", ⟨.hash, 20⟩⟩) mixed_run rfl [1, 2, 3, 4] (.upToExcept 10 [7]) .none
  refine ⟨seen, st', read, sorted.trans ?_⟩
  with_unfolding_all decide

end VersionedQueue
