import VersionedQueue.Proofs.Delivery.Retry
import VersionedQueue.Proofs.Disjoint.Sweep

/-!
# What a linear scan answers

A member of a disjoint group that has nothing left in its cache is answered as by a scan of one id after
the other from its read pointer: the first valid entry that falls to it, unless an id that is not shown
comes before.  Neither the batch size nor the write pointer that its cursor remembers has a part in it.
-/

set_option autoImplicit false
set_option relaxedAutoImplicit false

namespace VersionedQueue

theorem EntryState.encode_of_servable {cell : Bytes} {state : EntryState}
    (decoded : decode? cell = some state) (servable : state.isServable = true) :
    cell = valid.encode := by
  unfold decode? at decoded
  split at decoded <;> cases decoded
  · rfl
  · cases servable
  · cases servable

namespace Queue

section View

variable (q : Queue) (view : QueueView) (c : Consumer)

/-- A linear scan from a read pointer may hand out an id: the id is allocated, a view shows it and all
ids on the way to it, and it is valid and falls to the member. -/
structure Reaches (readPointer writePointer id : EntryId) : Prop where
  behind : readPointer < id
  allocated : id ≤ writePointer
  visible : ∀ j, readPointer < j → j ≤ id → view (.entry j) .state ≠ none
  valid : view (.entry id) .state = some EntryState.valid.encode
  own : q.FallsTo view c id

/-- The number at which a linear scan stops: the first id that is not shown, or else the one after the
write pointer. -/
structure StopsAt (readPointer writePointer : EntryId) (stop : Nat) : Prop where
  reason : stop = writePointer.toNat + 1 ∨ ∃ id : EntryId, id.toNat = stop ∧ readPointer < id ∧
    id ≤ writePointer ∧ view (.entry id) .state = none
  visible : ∀ id : EntryId, readPointer < id → id ≤ writePointer → id.toNat < stop →
    view (.entry id) .state ≠ none

/-- What a linear scan answers, and the cells that are stored with the answer: the least id that it
reaches, or that there is none and where it stopped. -/
inductive ScanAnswer (readPointer writePointer : EntryId) : Delivery → List (Column × Bytes) → Prop
  | next {id : EntryId} {payload : Bytes} : q.Reaches view c readPointer writePointer id →
      (∀ other, q.Reaches view c readPointer writePointer other → id ≤ other) →
      view (.entry id) .payload = some payload →
      ScanAnswer readPointer writePointer (.served ⟨q.name, id⟩ ⟨payload, {}⟩)
        [(.readPointer, Bytes.ofUInt64 id), (.active, Bytes.ofUInt64 id)]
  | nothing {stop : Nat} {after : EntryId} :
      (∀ id, ¬ q.Reaches view c readPointer writePointer id) →
      StopsAt view readPointer writePointer stop →
      after.toNat = max readPointer.toNat (stop - 1) →
      ScanAnswer readPointer writePointer .empty [(.readPointer, Bytes.ofUInt64 after)]

end View

section Unique

variable {q : Queue} {view : QueueView} {c : Consumer} {readPointer writePointer : EntryId}
  {d d' : Delivery} {cells cells' : List (Column × Bytes)}

theorem StopsAt.unique {stop stop' : Nat} (h : StopsAt view readPointer writePointer stop)
    (h' : StopsAt view readPointer writePointer stop') : stop = stop' := by
  have least {n m : Nat} (h : StopsAt view readPointer writePointer n)
      (h' : StopsAt view readPointer writePointer m) : m ≤ n := by
    refine Nat.le_of_not_lt fun below => ?_
    rcases h.reason with rfl | ⟨id, rfl, behind, allocated, hidden⟩
    · rcases h'.reason with rfl | ⟨id, rfl, _, allocated, _⟩
      · exact Nat.lt_irrefl _ below
      · have inside := UInt64.le_iff_toNat_le.1 allocated
        omega
    · exact h'.visible id behind allocated below hidden
  exact Nat.le_antisymm (least h' h) (least h h')

theorem ScanAnswer.unique (h : q.ScanAnswer view c readPointer writePointer d cells)
    (h' : q.ScanAnswer view c readPointer writePointer d' cells') : d = d' ∧ cells = cells' := by
  cases h with
  | @next id payload reaches least shown =>
      cases h' with
      | next reaches' least' shown' =>
          obtain rfl := UInt64.le_antisymm (least _ reaches') (least' _ reaches)
          obtain rfl := Option.some.inj (shown.symm.trans shown')
          exact ⟨rfl, rfl⟩
      | nothing none _ _ => exact absurd reaches (none id)
  | nothing none stops moved =>
      cases h' with
      | next reaches' _ _ => exact absurd reaches' (none _)
      | nothing _ stops' moved' =>
          obtain rfl := stops.unique stops'
          obtain rfl := UInt64.toNat_inj.1 (moved.trans moved'.symm)
          exact ⟨rfl, rfl⟩

end Unique

section Sight

variable {q : Queue} {view : QueueView} {c : Consumer} {id : EntryId} {payload : Bytes}

theorem sight_servable_iff : q.sight view id = .ok (.servable payload) ↔
    view (.entry id) .state = some EntryState.valid.encode ∧
      view (.entry id) .payload = some payload := by
  constructor
  · intro sight
    cases state : view (.entry id) .state with
    | none => simp [Queue.sight, state] at sight
    | some cell =>
        simp only [Queue.sight, state, decodeState] at sight
        cases decoded : EntryState.decode? cell with
        | none => simp [decoded] at sight
        | some found =>
            simp only [decoded] at sight
            split at sight
            · rename_i servable
              rw [EntryState.encode_of_servable decoded servable]
              cases stored : view (.entry id) .payload with
              | none => simp [stored] at sight
              | some payload' =>
                  rw [stored] at sight
                  cases sight
                  exact ⟨rfl, rfl⟩
            · cases sight
  · rintro ⟨state, stored⟩
    simp [Queue.sight, state, stored, decodeState, EntryState.isServable]

theorem Readable.exists_payload (readable : q.Readable view)
    (valid : view (.entry id) .state = some EntryState.valid.encode) :
    ∃ payload, view (.entry id) .payload = some payload := by
  obtain ⟨sighting, sight⟩ := readable.sight id
  cases stored : view (.entry id) .payload with
  | none => simp [Queue.sight, valid, stored, decodeState, EntryState.isServable] at sight
  | some payload => exact ⟨payload, rfl⟩

end Sight

section Sweeps

variable {q : Queue} {view : QueueView} {c : Consumer} {before after writePointer : EntryId}
  {entries : List CachedEntry}

private theorem not_reaches_of_skips (readable : q.Readable view) {id : EntryId}
    (skips : q.Skips view c id) : ¬ q.Reaches view c before writePointer id := fun reaches => by
  obtain ⟨payload, stored⟩ := readable.exists_payload reaches.valid
  exact skips.nothing payload ⟨sight_servable_iff.2 ⟨reaches.valid, stored⟩, reaches.own⟩

private theorem reaches_of_collected (readable : q.Readable view) {entry : CachedEntry}
    {rest : List CachedEntry} (swept : q.Swept view c before after)
    (collected : q.Collected view c writePointer after (entry :: rest)) :
    q.Reaches view c before writePointer entry.id ∧
      ∀ other, q.Reaches view c before writePointer other → entry.id ≤ other := by
  obtain ⟨later, allocated⟩ := collected.within entry List.mem_cons_self
  obtain ⟨valid, _⟩ := sight_servable_iff.1 (collected.offered entry List.mem_cons_self).servable
  -- An id on the way to the entry was skipped, or is the entry.
  have way (j : EntryId) (behind : before < j) (below : j ≤ entry.id) :
      q.Skips view c j ∨ j = entry.id := by
    by_cases early : j ≤ after
    · exact .inl (swept.skipped j behind early)
    · rcases collected.between entry List.mem_cons_self j (UInt64.not_le.1 early) below with
        ⟨other, mem, rfl⟩ | skips
      · rcases List.mem_cons.1 mem with rfl | mem
        · exact .inr rfl
        · have above := (List.pairwise_cons.1 collected.ascending).1 other mem
          exact absurd below (UInt64.not_le.2 above)
      · exact .inl skips
  refine ⟨⟨UInt64.lt_of_le_of_lt swept.forward later, allocated, fun j behind below => ?_, valid,
    (collected.offered entry List.mem_cons_self).own⟩, fun other reaches => ?_⟩
  · rcases way j behind below with skips | rfl
    · exact skips.visible
    · simp [valid]
  · refine UInt64.not_lt.1 fun below => ?_
    rcases way other reaches.behind (UInt64.le_of_lt below) with skips | rfl
    · exact not_reaches_of_skips readable skips reaches
    · exact UInt64.lt_irrefl _ below

private theorem stopsAt_of_sweeps (readable : q.Readable view)
    (sweeps : q.FetchSweeps view c writePointer writePointer before [] after) :
    (∀ id, ¬ q.Reaches view c before writePointer id) ∧
      ∃ stop, StopsAt view before writePointer stop ∧
        after.toNat = max before.toNat (stop - 1) := by
  cases sweeps with
  | found _ some _ => exact absurd rfl some
  | @blocked _ next swept number allocated hidden =>
      have forward := UInt64.le_iff_toNat_le.1 swept.forward
      have behind : before < next := by
        rw [UInt64.lt_iff_toNat_lt]
        omega
      have early (id : EntryId) (below : id.toNat < next.toNat) : id ≤ after := by
        rw [UInt64.le_iff_toNat_le]
        omega
      refine ⟨fun id reaches => ?_, next.toNat, ⟨.inr ⟨next, rfl, behind, allocated, hidden⟩,
        fun id behind _ below => (swept.skipped id behind (early id below)).visible⟩, by omega⟩
      by_cases below : id.toNat < next.toNat
      · exact not_reaches_of_skips readable (swept.skipped id reaches.behind (early id below)) reaches
      · exact reaches.visible next behind (UInt64.le_iff_toNat_le.2 (Nat.le_of_not_lt below)) hidden
  | caughtUp swept reached last =>
      have passed (id : EntryId) (allocated : id ≤ writePointer) : id ≤ after :=
        UInt64.le_trans allocated reached
      refine ⟨fun id reaches => ?_, writePointer.toNat + 1, ⟨.inl rfl, fun id behind allocated _ =>
        (swept.skipped id behind (passed id allocated)).visible⟩, ?_⟩
      · exact not_reaches_of_skips readable
          (swept.skipped id reaches.behind (passed id reaches.allocated)) reaches
      · have forward := UInt64.le_iff_toNat_le.1 swept.forward
        rw [UInt64.le_iff_toNat_le] at reached
        rcases last with rfl | within
        · omega
        · rw [UInt64.le_iff_toNat_le] at within
          omega

end Sweeps

section Entries

variable {q : Queue} {view view' : QueueView} {c : Consumer}
  (same : ∀ id column, view' (.entry id) column = view (.entry id) column)

include same

theorem Readable.of_entries (h : q.Readable view) : q.Readable view' where
  sight id := by simpa only [Queue.sight, same] using h.sight id
  hash key id := by simpa only [Queue.headerHash, same] using h.hash key id

private theorem Reaches.of_entries {r w id : EntryId} (h : q.Reaches view' c r w id) :
    q.Reaches view c r w id where
  behind := h.behind
  allocated := h.allocated
  visible := by simpa only [same] using h.visible
  valid := by simpa only [same] using h.valid
  own := by simpa only [FallsTo, Queue.headerHash, same] using h.own

theorem ScanAnswer.of_entries {r w : EntryId} {d : Delivery} {cells : List (Column × Bytes)}
    (h : q.ScanAnswer view' c r w d cells) : q.ScanAnswer view c r w d cells := by
  have same' (id : EntryId) (column : Column) : view (.entry id) column = view' (.entry id) column :=
    (same id column).symm
  cases h with
  | next reaches least stored =>
      exact .next (reaches.of_entries same) (fun other there => least other (there.of_entries same'))
        (same _ _ ▸ stored)
  | nothing none stops moved =>
      refine .nothing (fun id there => none id (there.of_entries same')) ⟨?_, ?_⟩ moved
      · simpa only [same] using stops.reason
      · simpa only [same] using stops.visible

end Entries

section Answer

variable (q : Queue) (c : Consumer) (config : Config) (s : Snapshot) {st : Storage}
  {w : EntryId}

/-- From a cursor that has nothing left, a member of a disjoint group is answered as by a linear scan from
its read pointer, however long ago it looked at the write pointer. -/
theorem answers_proceed_of_readable (hash : config.partitioner = .hash) (k : Cursor)
    (reliable : st.Reliable) (readable : q.Readable (q.shows st.table s))
    (stands : (w.toNat : Int) = st.table.standing (RowKey.entryCounter.encode q.name))
    (remembered : k.writePointer ≤ w) (empty : k.cache = {}) (free : k.pending = none) :
    Answers (q.proceed c config s) ⟨st, k⟩ fun d t' => ∃ cells,
      q.ScanAnswer (q.shows st.table s) c k.readPointer w d cells ∧
        (st.table.recordAll (q.seat c).row (cells.map fun cell => (cell.1.encode, cell.2))
          s.writeVersion).Alike t'.storage.table ∧ t'.cursor.pending = none := by
  have fetches : Answers (q.refill c config s) ⟨st, k⟩ fun _ t' => st.Alike t'.storage ∧
      ∃ entries after w', t'.cursor =
          { k with readPointer := after, writePointer := w', cache := ⟨entries⟩ } ∧
        q.FetchSweeps (q.shows st.table s) c w w k.readPointer entries after := by
    refine .of_eq (q.refill_of_empty c config s (t := ⟨st, k⟩) (by simp [empty])) ?_
    simp only [fetch, hash]
    exact q.answers_fetchDisjoint_of_readable c config s hash (UInt64.le_refl w) ⟨st, k⟩ reliable
      readable stands remembered empty
  refine fetches.bind ?_
  rintro _ u ⟨same, entries, after, w', moved, sweeps⟩
  have calm : u.Calm := same.2.trans reliable.1
  have written (cells : List (Bytes × Bytes)) := same.1.recordAll (q.seat c).row s.writeVersion cells
  cases entries with
  | nil =>
      have none_left : u.cursor.cache.entries = [] := by rw [moved]
      obtain ⟨none, stop, stops, moved'⟩ := stopsAt_of_sweeps readable sweeps
      obtain ⟨t', done⟩ := @exists_handOut_nothing q c config s u calm none_left
      obtain ⟨_, cursor, table⟩ := (ends_handOut_nothing none_left).of_ok done
      have cells : restingCells u.cursor = [(.readPointer, Bytes.ofUInt64 after)] := by
        simp only [restingCells, moved, free]
      refine ⟨_, t', done, _, .nothing none stops moved', ?_, by rw [cursor, moved, ← free]⟩
      rw [table, cells]
      exact written _
  | cons entry rest =>
      have next : u.cursor.cache.entries = entry :: rest := by rw [moved]
      cases sweeps with
      | found swept _ collected =>
          obtain ⟨reaches, least⟩ := reaches_of_collected readable swept collected
          obtain ⟨t', done⟩ := @exists_handOut_next q c config s u entry rest calm next
          obtain ⟨_, cursor, table⟩ := (ends_handOut_next next).of_ok done
          have offered := (collected.offered entry List.mem_cons_self).servable
          have later := UInt64.le_of_lt (collected.within entry List.mem_cons_self).1
          have cells : handingCells config u.cursor entry =
              [(.readPointer, Bytes.ofUInt64 entry.id), (.active, Bytes.ofUInt64 entry.id)] := by
            simp [handingCells, hash, Partitioner.isDisjoint, Cursor.advance, moved, later]
          refine ⟨_, t', done, _, .next reaches least (sight_servable_iff.1 offered).2, ?_, ?_⟩
          · rw [table, cells]
            exact written _
          · simp [cursor, handedOut, moved, free]

end Answer

end Queue

end VersionedQueue
