import VersionedQueue.Proofs.Delivery.Onward
import VersionedQueue.Proofs.Delivery.Payload
import VersionedQueue.Proofs.Run.Legible

/-!
# Nothing goes beyond the counter of entries

The pointers of groups, the read pointers that consumers have stored and those of their cursors, and the
entries that wait in a cache are all within the ids that were allocated.  A request remembers no more
than the counter of entries, claims and scans no further than it remembers, and hands out only what was
appended, even where an id beyond the counter was handed back or retired.  So no entry that is appended
later is behind a cursor.
-/

set_option autoImplicit false
set_option relaxedAutoImplicit false

namespace VersionedQueue

/-- What a cell holds is an id within a bound, if it is a read pointer. -/
def Column.Within (highest : Int) : Column → Bytes → Prop
  | readPointer, x => ∃ id, x.toUInt64? = some id ∧ (id.toNat : Int) ≤ highest
  | _, _ => True

/-- The pointers of the groups of a queue and the read pointers of its consumers, in every version, are
within a bound. -/
structure Table.Bounded (queue : String) (highest : Int) (t : Table) : Prop where
  group : ∀ group, t.standing ((RowKey.groupPointer group).encode queue) ≤ highest
  stored : ∀ group member, t.Bears ⟨queue, group, member⟩ (Column.Within highest)

/-- The pointers of a cursor and the entries in its cache are within a bound, and the entries ascend. -/
structure Cursor.Bounded (highest : Int) (k : Cursor) : Prop where
  readPointer : (k.readPointer.toNat : Int) ≤ highest
  writePointer : (k.writePointer.toNat : Int) ≤ highest
  cached : ∀ entry ∈ k.cache.entries, (entry.id.toNat : Int) ≤ highest
  ascending : (k.cache.entries.map (·.id)).Pairwise (· < ·)

/-- Whatever a request holds is within the counter of entries. -/
structure Turn.Bounded (q : Queue) (s : Snapshot) (highest : Int) (t : Turn) : Prop where
  table : t.storage.table.Bounded q.name highest
  stands : t.storage.table.standing (RowKey.entryCounter.encode q.name) = highest
  shown : q.Shown s (fun entry => (entry.id.toNat : Int) ≤ highest) t.storage.table
  cursor : t.cursor.Bounded highest

theorem Column.Within.mono {highest higher : Int} (le : highest ≤ higher) {column : Column} {x : Bytes}
    (h : column.Within highest x) : column.Within higher x := by
  cases column with
  | readPointer =>
      obtain ⟨id, here, within⟩ := h
      exact ⟨id, here, Int.le_trans within le⟩
  | _ => trivial

namespace Cursor.Bounded

variable {highest higher : Int} {k : Cursor} {id : EntryId}

theorem nonneg (h : k.Bounded highest) : 0 ≤ highest :=
  Int.le_trans (Int.natCast_nonneg _) h.readPointer

theorem mono (h : k.Bounded highest) (le : highest ≤ higher) : k.Bounded higher where
  readPointer := Int.le_trans h.readPointer le
  writePointer := Int.le_trans h.writePointer le
  cached entry mem := Int.le_trans (h.cached entry mem) le
  ascending := h.ascending

theorem fresh (nonneg : 0 ≤ highest) : Cursor.fresh.Bounded highest where
  readPointer := nonneg
  writePointer := nonneg
  cached := nofun
  ascending := .nil

theorem loaded {r w : EntryId} (read : (r.toNat : Int) ≤ highest) (wrote : (w.toNat : Int) ≤ highest) :
    Cursor.Bounded highest { loaded := true, readPointer := r, writePointer := w } where
  readPointer := read
  writePointer := wrote
  cached := nofun
  ascending := .nil

theorem advance (h : k.Bounded highest) (within : (id.toNat : Int) ≤ highest) :
    (k.advance id).Bounded highest where
  readPointer := by
    unfold Cursor.advance
    split
    · exact within
    · exact h.readPointer
  writePointer := h.writePointer
  cached := h.cached
  ascending := h.ascending

theorem handedOut {entry : CachedEntry} {rest : List CachedEntry} (h : k.Bounded highest)
    (next : k.cache.entries = entry :: rest) : (Queue.handedOut k entry rest).Bounded highest := by
  have within := h.cached
  have ascending := h.ascending
  rw [next] at within ascending
  have moved := h.advance (within entry List.mem_cons_self)
  exact ⟨moved.readPointer, moved.writePointer,
    fun other mem => within other (List.mem_cons_of_mem entry mem), (List.pairwise_cons.1 ascending).2⟩

end Cursor.Bounded

namespace Table.Bounded

variable {queue : String} {highest higher : Int} {t t' : Table}

theorem mono (h : t.Bounded queue highest) (le : highest ≤ higher) : t.Bounded queue higher where
  group group := Int.le_trans (h.group group) le
  stored group member := (h.stored group member).imp fun _ _ within => within.mono le

theorem of_touched (h : t.Bounded queue highest) {rows : Bytes → Prop} {v : Version}
    (touched : t.Touched rows v t') (groups : ∀ group, ¬ rows ((RowKey.groupPointer group).encode queue))
    (consumers : ∀ group member, ¬ rows ((RowKey.consumer group member).encode queue)) :
    t'.Bounded queue highest where
  group group := by
    rw [Table.standing, touched.counter _ (groups group)]
    exact h.group group
  stored group member :=
    (h.stored group member).of_history fun _ => touched.history _ (consumers group member) _

end Table.Bounded

namespace Turn.Bounded

variable {q : Queue} {c : Consumer} {s : Snapshot} {highest : Int} {t u : Turn}

theorem of_table (h : t.Bounded q s highest) (same : t.storage.table.Alike u.storage.table)
    (cursor : u.cursor.Bounded highest) : u.Bounded q s highest where
  table := h.table.of_touched (same.touched (fun _ => False) 0) (fun _ => id) fun _ _ => id
  stands := (same.standing _).trans h.stands
  shown := h.shown.of_alike same
  cursor := cursor

theorem of_alike (h : t.Bounded q s highest) (same : t.Alike u) : u.Bounded q s highest :=
  h.of_table same.1 (same.2 ▸ h.cursor)

theorem of_looked (h : t.Bounded q s highest) (looked : t.Looked q u) : u.Bounded q s highest := by
  have known := looked.known (Int.le_trans h.cursor.writePointer (Int.le_of_eq h.stands.symm))
  have stands := (looked.same.standing (RowKey.entryCounter.encode q.name)).trans h.stands
  refine h.of_table looked.same ⟨?_, Int.le_trans known (Int.le_of_eq stands), ?_, ?_⟩
  · rw [looked.readPointer]
    exact h.cursor.readPointer
  · rw [looked.cache]
    exact h.cursor.cached
  · rw [looked.cache]
    exact h.cursor.ascending

theorem of_group_moved (h : t.Bounded q s highest) {v : Version}
    (touched : t.storage.table.Touched (· = (q.seat c).groupRow) v u.storage.table)
    (within : u.storage.table.standing (q.seat c).groupRow ≤ highest)
    (cursor : u.cursor.Bounded highest) : u.Bounded q s highest where
  table := by
    refine ⟨fun group => ?_, fun group member => (h.table.stored group member).of_history fun _ =>
      touched.history _ (fun same => RowKey.noConfusion (RowKey.encode_injective same)) _⟩
    by_cases own : group = c.group
    · rw [own]
      exact within
    · have other : (RowKey.groupPointer group).encode q.name ≠ (q.seat c).groupRow := fun same =>
        own (RowKey.groupPointer.inj (RowKey.encode_injective same))
      rw [Table.standing, touched.counter _ other]
      exact h.table.group group
  stands := by
    have aside : RowKey.entryCounter.encode q.name ≠ (q.seat c).groupRow := fun same =>
      RowKey.noConfusion (RowKey.encode_injective same)
    rw [Table.standing, touched.counter _ aside]
    exact h.stands
  shown := h.shown.of_group_moved touched
  cursor := cursor

theorem of_put (h : t.Bounded q s highest) {cells : List (Column × Bytes)} {v : Version}
    (table : u.storage.table = t.storage.table.recordAll (q.seat c).row
      (cells.map fun cell => (cell.1.encode, cell.2)) v)
    (fits : ∀ cell ∈ cells, cell.1.InConsumerRow ∧ cell.1.Within highest cell.2)
    (cursor : u.cursor.Bounded highest) : u.Bounded q s highest where
  table := by
    have touched : t.storage.table.Touched (· = (q.seat c).row) v u.storage.table :=
      .of_recordAll table
    refine ⟨fun group => ?_, fun group member => ?_⟩
    · have aside : (RowKey.groupPointer group).encode q.name ≠ (q.seat c).row := fun same =>
        RowKey.noConfusion (RowKey.encode_injective same)
      rw [Table.standing, touched.counter _ aside]
      exact h.table.group group
    · by_cases own : (RowKey.consumer group member).encode q.name = (q.seat c).row
      · obtain ⟨rfl, rfl⟩ := RowKey.consumer.inj (RowKey.encode_injective own)
        rw [table]
        exact (h.table.stored c.group c.member).recordAll fits v
      · exact (h.table.stored group member).of_history fun _ => touched.history _ own _
  stands := by
    rw [table, Table.standing, Table.counter_recordAll]
    exact h.stands
  shown := h.shown.of_row_written (.of_recordAll table)
  cursor := cursor

end Turn.Bounded

namespace Queue

variable {q : Queue} {c : Consumer} {config : Config} {s : Snapshot} {highest : Int} {t u : Turn}

/-- What a pass has found may be put in the cache. -/
private def Finds (q : Queue) (s : Snapshot) (highest : Int) (pass : Pass) (u : Turn) : Prop :=
  ∀ entries, pass = .found entries →
    Turn.Bounded q s highest { u with cursor := { u.cursor with cache := ⟨entries⟩ } }

private theorem finds_nothing {pass : Pass} (nothing : ∀ entries, pass ≠ .found entries) :
    Finds q s highest pass u := fun entries found => absurd found (nothing entries)

private theorem finds_of_bounded (h : u.Bounded q s highest) {entries : List CachedEntry}
    (within : ∀ entry ∈ entries, (entry.id.toNat : Int) ≤ highest)
    (ascending : (entries.map (·.id)).Pairwise (· < ·)) :
    Finds q s highest (.found entries) u := by
  rintro _ ⟨⟩
  exact h.of_table (.refl _) ⟨h.cursor.readPointer, h.cursor.writePointer, within, ascending⟩

private theorem bounded_scans (h : t.Bounded q s highest) {w : Window}
    (beyond : t.cursor.readPointer < w.first) (upTo : (w.last.toNat : Int) ≤ highest) {pass : Pass}
    (scans : q.Scans s w t pass u) : u.Bounded q s highest ∧ Finds q s highest pass u := by
  have inside {id : EntryId} (le : id ≤ w.last) : (id.toNat : Int) ≤ highest :=
    Int.le_trans (Int.ofNat_le.2 (UInt64.le_iff_toNat_le.1 le)) upTo
  cases scans with
  | @found entries st _ listed _ same =>
      have h : Turn.Bounded q s highest ⟨st, t.cursor⟩ := h.of_alike ⟨same.1, rfl⟩
      refine ⟨h, finds_of_bounded h (fun entry mem => ?_) (w.ids_ascending.sublist listed)⟩
      exact inside (Window.mem_ids.1 (listed.subset (List.mem_map.2 ⟨entry, mem, rfl⟩))).2
  | passed le same =>
      exact ⟨h.of_table same.1 (h.cursor.advance (inside le)), finds_nothing nofun⟩
  | @stops id _ mem _ same =>
      obtain ⟨least, most⟩ := Window.mem_ids.1 mem
      have after := UInt64.lt_iff_toNat_lt.1 (UInt64.lt_of_lt_of_le beyond least)
      have before : ((id - 1).toNat : Int) ≤ highest := by
        have one : (1 : UInt64).toNat = 1 := rfl
        have le : (1 : UInt64) ≤ id := UInt64.le_iff_toNat_le.2 (by omega)
        rw [UInt64.toNat_sub_of_le _ _ le]
        have within := inside most
        omega
      exact ⟨h.of_table same.1 (h.cursor.advance before), finds_nothing nofun⟩

private theorem bounded_disjointPass (h : t.Bounded q s highest) :
    Ends (q.disjointPass c config s) t
      (fun pass u => u.Bounded q s highest ∧ Finds q s highest pass u)
      fun _ u => u.Bounded q s highest := by
  refine (q.ends_disjointPass c config s t).imp (fun pass v scans => ?_)
    fun _ _ looked => h.of_looked looked
  cases scans with
  | caughtUp looked _ => exact ⟨h.of_looked looked, finds_nothing nofun⟩
  | window looked window scans =>
      have h := h.of_looked looked
      obtain ⟨beyond, _, upTo⟩ := Window.after_bounds window
      refine bounded_scans h beyond (Int.le_trans ?_ h.cursor.writePointer) scans
      exact Int.ofNat_le.2 (UInt64.le_iff_toNat_le.1 upTo)

private theorem bounded_nextClaim (h : t.Bounded q s highest) :
    Ends (q.nextClaim c) t (fun _ u => u.Bounded q s highest) fun _ u => u.Bounded q s highest := by
  refine (q.ends_nextClaim c t).imp (fun claim v serves => ?_) fun _ _ looked => h.of_looked looked
  cases serves with
  | pending _ => exact h
  | @claimed id u _ _ looked claims =>
      have h := h.of_looked looked
      have within := Int.ofNat_le.2 (UInt64.le_iff_toNat_le.1 claims.within)
      refine h.of_group_moved claims.touched ?_ ?_
      · exact Int.le_trans (Int.le_of_eq claims.moved) (Int.le_trans within h.cursor.writePointer)
      · rw [claims.cursor]
        exact ⟨h.cursor.readPointer, h.cursor.writePointer, h.cursor.cached, h.cursor.ascending⟩
  | nothing _ looked _ => exact h.of_looked looked

private theorem bounded_sharedPass (h : t.Bounded q s highest) :
    Ends (q.sharedPass c s) t
      (fun pass u => u.Bounded q s highest ∧ Finds q s highest pass u)
      fun _ u => u.Bounded q s highest := by
  rw [sharedPass_eq]
  refine (bounded_nextClaim h).bind fun claim u h => ?_
  refine (q.ends_takeUp s claim u).imp (fun pass v takes => ?_) fun _ _ failed => h.of_alike failed
  cases takes with
  | nothing => exact ⟨h, finds_nothing nofun⟩
  | @found id payload st shown same =>
      have h' : Turn.Bounded q s highest ⟨st, u.cursor⟩ := h.of_alike ⟨same.1, rfl⟩
      refine ⟨h', finds_of_bounded h' (fun entry mem => ?_) (List.pairwise_singleton _ _)⟩
      rw [List.mem_singleton.1 mem]
      exact h.shown ⟨id, payload⟩ shown
  | waits _ same => exact ⟨h.of_alike ⟨same.1, rfl⟩, finds_nothing nofun⟩
  | drops _ same =>
      exact ⟨h.of_table same.1 ⟨h.cursor.readPointer, h.cursor.writePointer, h.cursor.cached,
        h.cursor.ascending⟩, finds_nothing nofun⟩

private theorem bounded_refill (h : t.Bounded q s highest) :
    Ends (q.refill c config s) t (fun _ u => u.Bounded q s highest)
      fun _ u => u.Bounded q s highest := by
  cases cached : t.cursor.cache.hasNext with
  | true => exact .answered (refill_of_hasNext cached) h
  | false =>
      refine .of_eq (refill_of_not_hasNext cached) ?_
      unfold fetch
      cases config.partitioner with
      | hash => exact (q.repeats_fetchDisjoint c config s).keeps (fun _ h => bounded_disjointPass h) h
      | roundRobin => exact (q.repeats_fetchShared c s).keeps (fun _ h => bounded_sharedPass h) h

private theorem within_of_decodeId (h : t.Bounded q s highest) {r : EntryId}
    (read : q.decodeId c (q.shows t.storage.table s (consumerRow c) .readPointer) = .ok r) :
    (r.toNat : Int) ≤ highest := by
  unfold decodeId at read
  cases shown : q.shows t.storage.table s (consumerRow c) .readPointer with
  | none =>
      rw [shown] at read
      cases read
      exact h.cursor.nonneg
  | some cell =>
      rw [shown] at read
      have bears := h.table.stored c.group c.member .readPointer trivial
      rcases History.read_cases (t.storage.table.history (q.seat c).row Column.readPointer.encode) s with
        ⟨nothing, _⟩ | ⟨v, x, _, here, _, value⟩
      · cases nothing.symm.trans shown
      · obtain ⟨cell', same, id, decoded, within⟩ := bears v x here
        obtain rfl : cell' = cell := Option.some.inj (same.symm.trans (value.symm.trans shown))
        simp only [decoded] at read
        cases read
        exact within

private theorem bounded_settle (h : t.Bounded q s highest) (a : EntryId) :
    Ends (q.settle c config s a) t (fun _ u => u.Bounded q s highest)
      fun _ u => u.Bounded q s highest := by
  refine (ends_settle t).imp (fun _ u settles => ?_) fun _ _ failed => h.of_alike ⟨failed.1.1, failed.2⟩
  cases settles with
  | idle _ => exact h
  | @again payload _ _ shown same =>
      refine h.of_table same.1 ⟨h.cursor.readPointer, h.cursor.writePointer, fun entry mem => ?_,
        List.pairwise_singleton _ _⟩
      rw [List.mem_singleton.1 mem]
      exact h.shown ⟨a, payload⟩ shown
  | waits _ _ _ same =>
      exact h.of_table same.1 ⟨h.cursor.readPointer, h.cursor.writePointer, h.cursor.cached,
        h.cursor.ascending⟩
  | @clears _ st _ _ _ _ same table _ =>
      have h : Turn.Bounded q s highest ⟨st, t.cursor⟩ := h.of_alike ⟨same.1, rfl⟩
      exact h.of_put table (by simp [Column.InConsumerRow, Column.Within]) h.cursor

private theorem bounded_load (h : t.Bounded q s highest) :
    Ends (q.load c config s) t (fun _ u => u.Bounded q s highest)
      fun _ u => u.Bounded q s highest := by
  refine ends_load_read t.cursor (fun u same left => ?_) fun a r w st reads _ same => ?_
  · refine h.of_table same.1 ?_
    rcases left with kept | ⟨r, read, kept⟩
    · rw [kept]
      exact h.cursor
    · rw [kept]
      exact .loaded (within_of_decodeId h read) h.cursor.nonneg
  · have known := Int.le_of_eq (reads.writePointer.trans h.stands)
    exact bounded_settle (h.of_table same.1 (.loaded (within_of_decodeId h reads.readPointer) known)) a

private theorem bounded_handOut (h : t.Bounded q s highest) :
    Ends (q.handOut c config s) t (fun _ u => u.Bounded q s highest)
      fun _ u => u.Bounded q s highest := by
  cases cached : t.cursor.cache.entries with
  | nil =>
      refine (ends_handOut_nothing cached).imp ?_ fun _ _ same => h.of_alike same
      rintro _ u ⟨_, cursor, table⟩
      have within : ∀ cell ∈ restingCells t.cursor, cell.1.Within highest cell.2 := by
        unfold restingCells
        split <;> simp [Column.Within, h.cursor.readPointer]
      exact h.of_put table (fun cell mem => ⟨restingCells_in_row _ cell mem, within cell mem⟩)
        (cursor ▸ h.cursor)
  | cons entry rest =>
      have moved := h.cursor.handedOut cached
      refine (ends_handOut_next cached).imp ?_ fun _ u failed =>
        h.of_table failed.2.2 (failed.2.1 ▸ moved)
      rintro _ u ⟨_, cursor, table⟩
      have within : ∀ cell ∈ handingCells config t.cursor entry, cell.1.Within highest cell.2 := by
        have read : ((t.cursor.advance entry.id).readPointer.toNat : Int) ≤ highest := moved.readPointer
        unfold handingCells
        split <;> simp [Column.Within, read]
      exact h.of_put table (fun cell mem => ⟨handingCells_in_row _ _ _ cell mem, within cell mem⟩)
        (cursor ▸ moved)

/-- However a request ends, what was within the counter of entries stays so. -/
theorem bounded_dequeue (h : t.Bounded q s highest) :
    Ends (q.dequeue c config s) t (fun _ u => u.Bounded q s highest)
      fun _ u => u.Bounded q s highest := by
  unfold dequeue
  refine Ends.ofExcept_bind (fun _ _ => h) fun _ _ => ?_
  refine Ends.ofExcept_bind (fun _ _ => h) fun _ _ => ?_
  have loads : Ends (q.ensureLoaded c config s) t (fun _ u => u.Bounded q s highest)
      fun _ u => u.Bounded q s highest := by
    cases loaded : t.cursor.loaded with
    | true => exact .answered (q.ensureLoaded_of_loaded c config s loaded) h
    | false => exact .of_eq (q.ensureLoaded_of_unloaded c config s loaded) (bounded_load h)
  exact loads.bind fun _ u h => (bounded_refill h).bind fun _ v h => bounded_handOut h

end Queue

/-- A cursor that a caller of a queue can have: a fresh one, or one that a request for an entry of the queue
has left. -/
def AtHand (past : List Event) (queue : String) (k : Cursor) : Prop :=
  k = .fresh ∨ ∃ e ∈ past, ∃ seat : Seat, seat.queue = queue ∧ e.cursorOf? seat = some k

/-- All calls go to queues that can be opened, and a request is passed any cursor that there is for its
queue, as often as the caller likes; any call may fail. -/
def Reusing (past : List Event) (call : Call) : Prop :=
  call.queue.Opens ∧ ∀ c config cursor s, call.request = .dequeue c config cursor s →
    AtHand past call.queue.name cursor

/-- The bound on the ids of a queue after a run: where its counter of entries stands. -/
def highestOf (past : List Event) (queue : String) : Int :=
  (storageAfter past).table.standing (RowKey.entryCounter.encode queue)

theorem Run.opened_of_reusing {past : List Event} (run : Run Reusing past) : Run Opened past :=
  run.mono fun _ _ _ reusing => reusing.1

/-- After a run nothing of a queue is beyond its counter of entries. -/
structure BoundedAfter (past : List Event) (queue : String) : Prop where
  table : (storageAfter past).table.Bounded queue (highestOf past queue)
  cursor : ∀ k, AtHand past queue k → k.Bounded (highestOf past queue)

section Run

variable {past : List Event} {queue : String}

theorem shown_allocated (run : Run Opened past) {q : Queue} (opens : q.Opens) (s : Snapshot) :
    q.Shown s (fun entry => (entry.id.toNat : Int) ≤ highestOf past q.name)
      (storageAfter past).table := by
  intro entry shown
  have logged := (@logged_of_run past run ⟨q.name, entry.id⟩ opens.shortName).sight s
  obtain ⟨_, _, _, enqueued, _⟩ := enqueued_of_sighting (Except.ok.inj (logged.symm.trans shown))
  obtain ⟨d, mem, _, takes⟩ := enqueued.takes run
  exact allocated_le run mem takes

namespace BoundedAfter

variable {call : Call}

private theorem forward (past : List Event) (call : Call) (queue : String) :
    highestOf past queue ≤ highestOf (⟨call, storageAfter past⟩ :: past) queue :=
  Event.standing_le ⟨call, storageAfter past⟩ _

private theorem of_dequeue (h : BoundedAfter past call.queue.name) (run : Run Opened past)
    (reusing : Reusing past call) {c : Consumer} {config : Config} {cursor : Cursor} {s : Snapshot}
    (asked : call.request = .dequeue c config cursor s) :
    (Event.after ⟨call, storageAfter past⟩).table.Bounded call.queue.name
        (highestOf (⟨call, storageAfter past⟩ :: past) call.queue.name) ∧
      (Event.outcome ⟨call, storageAfter past⟩).cursor.Bounded
        (highestOf (⟨call, storageAfter past⟩ :: past) call.queue.name) := by
  have begins : Turn.Bounded call.queue s (highestOf past call.queue.name)
      ⟨{ storageAfter past with plan := call.plan }, cursor⟩ :=
    ⟨h.table, rfl, shown_allocated run reusing.1 s, h.cursor cursor (reusing.2 c config cursor s asked)⟩
  have ends := @Queue.bounded_dequeue call.queue c config s _ _ begins
  have both {t : Turn} (left : t.Bounded call.queue s (highestOf past call.queue.name))
      (ended : Event.after ⟨call, storageAfter past⟩ = t.storage ∧
        (Event.outcome ⟨call, storageAfter past⟩).cursor = t.cursor) :
      (Event.after ⟨call, storageAfter past⟩).table.Bounded call.queue.name
          (highestOf (⟨call, storageAfter past⟩ :: past) call.queue.name) ∧
        (Event.outcome ⟨call, storageAfter past⟩).cursor.Bounded
          (highestOf (⟨call, storageAfter past⟩ :: past) call.queue.name) := by
    rw [ended.1, ended.2]
    exact ⟨left.table.mono (forward past call _), left.cursor.mono (forward past call _)⟩
  have performed := Event.outcome_of_dequeue (e := ⟨call, storageAfter past⟩) asked
  cases done : call.queue.dequeue c config s
      ⟨{ storageAfter past with plan := call.plan }, cursor⟩ with
  | ok d t =>
      rw [done] at performed
      exact both (ends.of_ok done) ⟨by rw [Event.after, performed]; rfl, by rw [performed]; rfl⟩
  | error err t =>
      rw [done] at performed
      exact both (ends.of_error done) ⟨by rw [Event.after, performed]; rfl, by rw [performed]; rfl⟩

private theorem of_other_request (h : BoundedAfter past call.queue.name)
    (other : call.request.isDequeue = false) :
    (Event.after ⟨call, storageAfter past⟩).table.Bounded call.queue.name
      (highestOf (⟨call, storageAfter past⟩ :: past) call.queue.name) := by
  have before := h.table.mono (forward past call call.queue.name)
  refine ⟨fun group => ?_, fun group member => ?_⟩
  · have out : ¬ call.request.Touches (.groupPointer group) := fun touches => by
      obtain ⟨c, config, cursor, s, asked, _⟩ := Request.dequeue_of_touches touches
      rw [asked] at other
      cases other
    rw [Table.standing, Event.counter_of_not_touches (e := ⟨call, storageAfter past⟩) rfl out]
    exact before.group group
  · refine Event.bears (e := ⟨call, storageAfter past⟩) rfl (before.stored group member)
      (fun _ asked => ?_) (fun _ _ => ⟨trivial, trivial⟩) fun _ _ _ _ _ => ⟨trivial, trivial⟩
    rw [other] at asked
    cases asked

private theorem of_other_queue (h : BoundedAfter past queue) (short : ShortName queue)
    (opens : call.queue.Opens) (other : call.queue.name ≠ queue) :
    (Event.after ⟨call, storageAfter past⟩).table.Bounded queue
      (highestOf (⟨call, storageAfter past⟩ :: past) queue) :=
  (h.table.mono (forward past call queue)).of_touched (Event.touched ⟨call, storageAfter past⟩)
    (fun _ => Event.not_touches_of_opens (e := ⟨call, storageAfter past⟩) opens short
      fun name => absurd name other)
    fun _ _ => Event.not_touches_of_opens (e := ⟨call, storageAfter past⟩) opens short
      fun name => absurd name other

private theorem of_own (h : BoundedAfter past call.queue.name) (run : Run Opened past)
    (reusing : Reusing past call) :
    (Event.after ⟨call, storageAfter past⟩).table.Bounded call.queue.name
      (highestOf (⟨call, storageAfter past⟩ :: past) call.queue.name) := by
  cases asks : call.request.isDequeue with
  | false => exact h.of_other_request asks
  | true =>
      obtain ⟨c, config, cursor, s, asked⟩ :=
        Event.exists_dequeue_of_isDequeue (e := ⟨call, storageAfter past⟩) asks
      exact (h.of_dequeue run reusing asked).1

theorem next (h : BoundedAfter past queue) (run : Run Opened past) (short : ShortName queue)
    (reusing : Reusing past call) : BoundedAfter (⟨call, storageAfter past⟩ :: past) queue where
  table := by
    by_cases name : call.queue.name = queue
    · subst name
      exact h.of_own run reusing
    · exact h.of_other_queue short reusing.1 name
  cursor k atHand := by
    rcases atHand with rfl | ⟨e, mem, seat, here, left⟩
    · exact .fresh (Int.le_trans (standing_nonneg run _) (forward past call queue))
    · rcases List.mem_cons.1 mem with rfl | before
      · obtain ⟨own, c, config, cursor, s, asked⟩ := Event.dequeue_of_cursorOf? left
        obtain rfl := Option.some.inj ((Event.cursorOf?_of_dequeue own asked).symm.trans left)
        obtain rfl : call.queue.name = queue := (Call.name_eq own).trans here
        exact (h.of_dequeue run reusing asked).2
      · exact (h.cursor k (.inr ⟨e, before, seat, here, left⟩)).mono (forward past call queue)

end BoundedAfter

theorem boundedAfter_of_run (run : Run Reusing past) (short : ShortName queue) :
    BoundedAfter past queue := by
  induction run with
  | start =>
      refine ⟨⟨fun _ => Int.le_refl _, fun _ _ => .start⟩, fun k atHand => ?_⟩
      rcases atHand with rfl | ⟨e, mem, _⟩
      · exact .fresh (Int.le_refl _)
      · cases mem
  | next earlier reusing ih => exact ih.next earlier.opened_of_reusing short reusing

/-- Whatever snapshots are read, whatever is handed back or retired and whichever calls fail, no pointer of
a group and no read pointer that a consumer ever stored is beyond the counter of a queue's entries, and
neither is anything in a cursor that a caller may still have, whose cached entries ascend. -/
theorem nothing_beyond_counter (run : Run Reusing past) (short : ShortName queue) :
    (∀ group, (storageAfter past).table.standing ((RowKey.groupPointer group).encode queue) ≤
      highestOf past queue) ∧
    (∀ group member v x, ((storageAfter past).table.history ((RowKey.consumer group member).encode queue)
        Column.readPointer.encode).at? v = some x →
      ∃ cell id, x = some cell ∧ cell.toUInt64? = some id ∧ (id.toNat : Int) ≤ highestOf past queue) ∧
    ∀ k, AtHand past queue k →
      (k.readPointer.toNat : Int) ≤ highestOf past queue ∧
      (k.writePointer.toNat : Int) ≤ highestOf past queue ∧
      (∀ entry ∈ k.cache.entries, (entry.id.toNat : Int) ≤ highestOf past queue) ∧
      (k.cache.entries.map (·.id)).Pairwise (· < ·) := by
  obtain ⟨table, cursor⟩ := boundedAfter_of_run run short
  refine ⟨table.group, fun group member v x found => ?_, fun k atHand => ?_⟩
  · obtain ⟨cell, same, id, decoded, within⟩ :=
      table.stored group member .readPointer trivial v x found
    exact ⟨cell, id, same, decoded, within⟩
  · obtain ⟨read, wrote, cached, ascending⟩ := cursor k atHand
    exact ⟨read, wrote, cached, ascending⟩

end Run

theorem Reusing.of_other {past : List Event} {call : Call} (opens : call.queue.Opens)
    (other : call.request.isDequeue = false) : Reusing past call := by
  refine ⟨opens, fun c config cursor s asked => ?_⟩
  rw [asked] at other
  cases other

/-- A member is handed the first entry, retires and hands back an id that was never allocated, and passes a
copy of its cursor while the storage fails. -/
def straying : List Call :=
  let queue : Queue := ⟨"q", ⟨.hash, 20⟩⟩
  let member : Consumer := { group := 1, member := 0, groupSize := 1, partitioningKey := some "k" }
  [asking secondLeft (fun kind _ => kind == .put), ⟨queue, .unack ⟨"q", 9⟩ member (.upTo 10), .none⟩,
    ⟨queue, .invalidate ⟨"q", 9⟩ 4, .none⟩, asking .fresh .none] ++ stocked

private theorem left_first :
    (⟨asking .fresh .none, storageAfter (replay stocked)⟩ : Event) ∈ replay (straying.drop 1) :=
  List.mem_cons_of_mem _ (List.mem_cons_of_mem _ List.mem_cons_self)

private theorem straying_run : Run Reusing (replay straying) := by
  have short : Queue.Opens ⟨"q", ⟨.hash, 20⟩⟩ := rfl
  have long : Queue.Opens ⟨"qq", ⟨.hash, 20⟩⟩ := rfl
  have filled : Run Reusing (replay stocked) :=
    .replay_cons (.replay_cons (.replay_cons (.replay_cons .start (.of_other short rfl))
      (.of_other long rfl)) (.of_other short rfl)) (.of_other short rfl)
  refine .replay_cons (.replay_cons (.replay_cons (.replay_cons filled ⟨short, ?_⟩)
    (.of_other short rfl)) (.of_other short rfl)) ⟨short, ?_⟩
  · rintro _ _ _ _ ⟨⟩
    exact .inl rfl
  · rintro _ _ _ _ ⟨⟩
    exact .inr ⟨_, left_first, ⟨"q", 1, 0⟩, rfl, left_second⟩

/-- Three ids were allocated, and the cursor that was copied is still within them. -/
theorem straying_within_counter :
    highestOf (replay straying) "q" = 3 ∧ AtHand (replay straying) "q" secondLeft ∧
      (secondLeft.writePointer.toNat : Int) ≤ highestOf (replay straying) "q" ∧
      (storageAfter (replay straying)).table.standing ((RowKey.groupPointer 1).encode "q") ≤ 3 := by
  have opens : Queue.Opens ⟨"q", ⟨.hash, 20⟩⟩ := rfl
  have three : highestOf (replay straying) "q" = 3 := by with_unfolding_all decide
  have atHand : AtHand (replay straying) "q" secondLeft :=
    .inr ⟨_, List.mem_cons_of_mem _ left_first, ⟨"q", 1, 0⟩, rfl, left_second⟩
  obtain ⟨group, _, cursors⟩ := nothing_beyond_counter straying_run opens.shortName
  exact ⟨three, atHand, (cursors secondLeft atHand).2.1, three ▸ group 1⟩

end VersionedQueue
