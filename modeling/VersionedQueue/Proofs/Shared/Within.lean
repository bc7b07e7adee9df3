import VersionedQueue.Proofs.Delivery.Retry
import VersionedQueue.Proofs.Shared.Turn

/-!
# What a request of a member of a shared group holds on to

However the calls of a request end, the ids that its cursor and its row hold are among those that they
held before and those that the group had not claimed.  The cursor holds at most one entry, and none
when the request has ended.
-/

set_option autoImplicit false
set_option relaxedAutoImplicit false

namespace VersionedQueue

/-- The active entry of a consumer's row is of some kind, and so is every id that its group has not
claimed; a write under the snapshot is the newest of the row. -/
structure Table.Within (q : Queue) (c : Consumer) (s : Snapshot) (ids : EntryId → Prop) (t : Table) :
    Prop where
  active : ∀ id, storedId? (t.stored (q.seat c) .active) = some id → id ≠ noEntry → ids id
  newest : t.Until (q.seat c).row s.writeVersion
  ahead : ∀ id : EntryId, t.standing (q.seat c).groupRow < id.toNat → ids id
  counted : 0 ≤ t.standing (RowKey.entryCounter.encode q.name)

/-- The ids that a cursor holds are of some kind, and it holds at most one entry. -/
structure Cursor.Within (ids : EntryId → Prop) (k : Cursor) : Prop where
  pending : ∀ id, k.pending = some id → ids id
  cached : ∀ entry ∈ k.cache.entries, ids entry.id
  single : k.cache.entries.length ≤ 1

/-- The ids that a member's request holds are of some kind, and it remembers no more than the counter
of entries. -/
structure Turn.Within (q : Queue) (c : Consumer) (s : Snapshot) (ids : EntryId → Prop) (t : Turn) :
    Prop where
  table : t.storage.table.Within q c s ids
  cursor : t.cursor.Within ids
  known : (t.cursor.writePointer.toNat : Int) ≤
    t.storage.table.standing (RowKey.entryCounter.encode q.name)

variable {q : Queue} {c : Consumer} {config : Config} {s : Snapshot} {ids : EntryId → Prop}

theorem Cursor.Within.of_empty {k : Cursor} (free : k.pending = none) (empty : k.cache.entries = []) :
    k.Within ids where
  pending id held := by
    rw [free] at held
    cases held
  cached entry mem := by
    rw [empty] at mem
    cases mem
  single := by
    rw [empty]
    exact Nat.zero_le 1

theorem Cursor.Within.of_same {k k' : Cursor} (h : k.Within ids) (pending : k'.pending = k.pending)
    (cache : k'.cache = k.cache) : k'.Within ids where
  pending id held := h.pending id (pending ▸ held)
  cached entry mem := h.cached entry (cache ▸ mem)
  single := cache ▸ h.single

namespace Table.Within

variable {t t' : Table}

theorem of_touched (h : t.Within q c s ids) {rows : Bytes → Prop} {v : Version}
    (touched : t.Touched rows v t') (out : ¬ rows (q.seat c).row) : t'.Within q c s ids where
  active id stored some := by
    rw [Table.stored, touched.history _ out] at stored
    exact h.active id stored some
  newest column v has := by
    rw [touched.history _ out] at has
    exact h.newest column v has
  ahead id beyond := h.ahead id (Int.lt_of_le_of_lt (touched.counter_le _ _) beyond)
  counted := Int.le_trans h.counted (touched.counter_le _ _)

theorem of_put (h : t.Within q c s ids) {cells : List (Column × Bytes)}
    (table : t' = t.recordAll (q.seat c).row (cells.map fun cell => (cell.1.encode, cell.2))
      s.writeVersion)
    (inRow : ∀ cell ∈ cells, cell.1.InConsumerRow) (distinct : (cells.map (·.1)).Nodup)
    (active : ∀ x, (.active, x) ∈ cells → ∀ id, x.toUInt64? = some id → id ≠ noEntry → ids id) :
    t'.Within q c s ids := by
  have touched : t.Touched (· = (q.seat c).row) s.writeVersion t' := .of_recordAll table
  obtain ⟨wrote, kept⟩ := Table.stored_recordAll table inRow distinct h.newest
  refine ⟨fun id stored some => ?_, h.newest.of_touched touched, fun id beyond => ?_,
    Int.le_trans h.counted (touched.counter_le _ _)⟩
  · by_cases mem : Column.active ∈ cells.map (·.1)
    · obtain ⟨⟨_, x⟩, mem, rfl⟩ := List.mem_map.1 mem
      rw [wrote _ x mem] at stored
      exact active x mem id stored some
    · rw [Table.stored, kept .active trivial mem] at stored
      exact h.active id stored some
  · exact h.ahead id (Int.lt_of_le_of_lt (touched.counter_le _ _) beyond)

end Table.Within

namespace Turn.Within

variable {t u : Turn}

theorem of_touched (h : t.Within q c s ids) {rows : Bytes → Prop} {v : Version}
    (touched : t.storage.table.Touched rows v u.storage.table) (out : ¬ rows (q.seat c).row)
    (cursor : u.cursor.Within ids) (known : u.cursor.writePointer = t.cursor.writePointer) :
    u.Within q c s ids where
  table := h.table.of_touched touched out
  cursor := cursor
  known := by
    rw [known]
    exact Int.le_trans h.known (touched.counter_le _ _)

theorem of_alike (h : t.Within q c s ids) (same : t.Alike u) : u.Within q c s ids :=
  h.of_touched (same.1.touched (fun _ => False) 0) id (by rw [same.2]; exact h.cursor)
    (by rw [same.2])

theorem of_looked (h : t.Within q c s ids) (looked : t.Looked q u) : u.Within q c s ids where
  table := h.table.of_touched (looked.same.touched (fun _ => False) 0) id
  cursor := h.cursor.of_same looked.pending looked.cache
  known := looked.known h.known

theorem of_put (h : t.Within q c s ids) {cells : List (Column × Bytes)}
    (table : u.storage.table = t.storage.table.recordAll (q.seat c).row
      (cells.map fun cell => (cell.1.encode, cell.2)) s.writeVersion)
    (inRow : ∀ cell ∈ cells, cell.1.InConsumerRow) (distinct : (cells.map (·.1)).Nodup)
    (active : ∀ x, (.active, x) ∈ cells → ∀ id, x.toUInt64? = some id → id ≠ noEntry → ids id)
    (cursor : u.cursor = t.cursor) : u.Within q c s ids where
  table := h.table.of_put table inRow distinct active
  cursor := cursor ▸ h.cursor
  known := by
    have touched : t.storage.table.Touched (· = (q.seat c).row) s.writeVersion u.storage.table :=
      .of_recordAll table
    rw [cursor]
    exact Int.le_trans h.known (touched.counter_le _ _)

end Turn.Within

namespace Queue

variable {t : Turn} {claim : Option EntryId}

theorem within_nextClaim (h : t.Within q c s ids) :
    Ends (q.nextClaim c) t (fun claim u => u.Within q c s ids ∧ ∀ id, claim = some id → ids id)
      fun _ u => u.Within q c s ids := by
  refine (q.ends_nextClaim c t).imp (fun claim v serves => ?_) fun _ _ looked => h.of_looked looked
  cases serves with
  | @pending id held =>
      refine ⟨h, fun other same => ?_⟩
      cases same
      exact h.cursor.pending id held
  | @claimed id u _ _ looked claims =>
      have h := h.of_looked looked
      have next := claims.next
      have new : ids id := h.table.ahead id (by omega)
      refine ⟨h.of_touched claims.touched (q.seat c).row_ne_groupRow ?_ (by rw [claims.cursor]),
        fun other same => ?_⟩
      · rw [claims.cursor]
        refine ⟨fun other same => ?_, h.cursor.cached, h.cursor.single⟩
        cases same
        exact new
      · cases same
        exact new
  | nothing _ looked _ => exact ⟨h.of_looked looked, nofun⟩

theorem within_takeUp (h : t.Within q c s ids) (claimed : ∀ id, claim = some id → ids id) :
    Ends (q.takeUp s claim) t
      (fun pass u => u.Within q c s ids ∧ ∀ entries, pass = .found entries →
        ∃ id payload, entries = [⟨id, payload⟩] ∧ ids id)
      fun _ u => u.Within q c s ids := by
  refine (q.ends_takeUp s claim t).imp (fun pass v takes => ?_) fun _ _ failed => h.of_alike failed
  cases takes with
  | nothing => exact ⟨h, nofun⟩
  | @found id payload _ _ same =>
      refine ⟨h.of_alike ⟨same.1, rfl⟩, fun entries here => ?_⟩
      cases here
      exact ⟨id, payload, rfl, claimed id rfl⟩
  | waits _ same => exact ⟨h.of_alike ⟨same.1, rfl⟩, nofun⟩
  | drops _ same =>
      exact ⟨h.of_touched (same.1.touched (fun _ => False) 0) id
        ⟨nofun, h.cursor.cached, h.cursor.single⟩ rfl, nofun⟩

theorem within_sharedPass (h : t.Within q c s ids) :
    Ends (q.sharedPass c s) t
      (fun pass u => u.Within q c s ids ∧ ∀ entries, pass = .found entries →
        ∃ id payload, entries = [⟨id, payload⟩] ∧ ids id)
      fun _ u => u.Within q c s ids := by
  rw [sharedPass_eq]
  exact (within_nextClaim h).bind fun _ _ done => within_takeUp done.1 done.2

theorem within_fetchShared (h : t.Within q c s ids) :
    Ends (q.fetchShared c s) t (fun _ u => u.Within q c s ids) fun _ u => u.Within q c s ids := by
  refine (q.repeats_fetchShared c s).keeps (fun t h => ?_) h
  refine (within_sharedPass h).imp ?_ fun _ _ failed => failed
  rintro _ u ⟨h', single⟩
  refine ⟨h', fun entries found => ?_⟩
  obtain ⟨id, payload, rfl, new⟩ := single entries found
  refine ⟨h'.table, ⟨h'.cursor.pending, fun entry mem => ?_, Nat.le_refl 1⟩, h'.known⟩
  rw [List.mem_singleton.1 mem]
  exact new

theorem within_settle {a : EntryId} (h : t.Within q c s ids) (active : a ≠ noEntry → ids a)
    (empty : t.cursor.cache.entries = []) :
    Ends (q.settle c config s a) t (fun _ u => u.Within q c s ids)
      fun _ u => u.Within q c s ids ∧ u.cursor.cache.entries = [] := by
  refine (ends_settle t).imp (fun _ u settles => ?_)
    fun _ u failed => ⟨h.of_alike ⟨failed.1.1, failed.2⟩, failed.2 ▸ empty⟩
  have still {st : Storage} (same : t.storage.Alike st) : Turn.Within q c s ids ⟨st, t.cursor⟩ :=
    h.of_alike ⟨same.1, rfl⟩
  cases settles with
  | idle _ => exact h
  | again some _ same =>
      refine ⟨(still same).table, ⟨h.cursor.pending, fun entry mem => ?_, Nat.le_refl 1⟩,
        (still same).known⟩
      rw [List.mem_singleton.1 mem]
      exact active some
  | waits some _ _ same =>
      refine ⟨(still same).table, ⟨fun id same => ?_, h.cursor.cached, h.cursor.single⟩,
        (still same).known⟩
      cases same
      exact active some
  | clears _ _ _ same table _ =>
      refine (still same).of_put table ?_ ?_ (fun x mem id read some => ?_) rfl
      · simp [Column.InConsumerRow]
      · simp
      · cases List.mem_singleton.1 mem
        rw [Bytes.toUInt64?_ofUInt64] at read
        exact absurd (Option.some.inj read).symm some

theorem within_load (h : t.storage.table.Within q c s ids)
    (seen : t.storage.table.RowSeen (q.seat c).row s) (unloaded : t.cursor.loaded = false) :
    Ends (q.load c config s) t (fun _ u => u.Within q c s ids)
      fun _ u => u.storage.table.Within q c s ids ∧
        (u.cursor.loaded = true → u.Within q c s ids ∧ u.cursor.cache.entries = []) := by
  refine ends_load_read t.cursor (fun u same left => ?_) fun a r w st' reads _ same => ?_
  · have table := h.of_touched (same.1.touched (fun _ => False) 0) id
    refine ⟨table, fun loaded => ?_⟩
    rcases left with kept | ⟨r, _, fresh⟩
    · rw [kept, unloaded] at loaded
      cases loaded
    · refine ⟨⟨table, ?_, ?_⟩, by rw [fresh]⟩
      · rw [fresh]
        exact .of_empty rfl rfl
      · rw [fresh]
        exact table.counted
  · have active : a ≠ noEntry → ids a := by
      have read := reads.active
      rw [seen.shows] at read
      exact h.active a (q.storedId?_of_decodeId c read)
    have table := h.of_touched (same.1.touched (fun _ => False) 0) id
    have known : (w.toNat : Int) ≤ st'.table.standing (RowKey.entryCounter.encode q.name) := by
      rw [same.1.standing]
      exact Int.le_of_eq reads.writePointer
    have begins : Turn.Within q c s ids
        ⟨st', { loaded := true, readPointer := r, writePointer := w }⟩ :=
      ⟨table, .of_empty rfl rfl, known⟩
    exact (within_settle begins active rfl).imp (fun _ _ done => done)
      fun _ u failed => ⟨failed.1.table, fun _ => failed⟩

theorem within_handOut (h : t.Within q c s ids) :
    Ends (q.handOut c config s) t
      (fun d u => u.Within q c s ids ∧ u.cursor.cache.entries = [] ∧
        ∀ p, d.pointer? = some p → ids p.id)
      fun _ u => u.Within q c s ids ∧ u.cursor.cache.entries = [] := by
  cases cached : t.cursor.cache.entries with
  | nil =>
      refine (ends_handOut_nothing cached).imp ?_ fun _ u same => ⟨h.of_alike same, same.2 ▸ cached⟩
      rintro _ u ⟨rfl, kept, table⟩
      refine ⟨h.of_put table (restingCells_in_row _) (restingCells_nodup _)
        (fun x mem id read some => ?_) kept, kept ▸ cached, nofun⟩
      obtain ⟨pending, held, rfl⟩ := pending_of_mem_restingCells mem
      rw [Bytes.toUInt64?_ofUInt64] at read
      exact Option.some.inj read ▸ h.cursor.pending pending held
  | cons entry rest =>
      have new : ids entry.id := h.cursor.cached entry (cached ▸ List.mem_cons_self)
      have last : rest = [] := by
        have single := h.cursor.single
        rw [cached, List.length_cons] at single
        exact List.length_eq_zero_iff.1 (by omega)
      subst last
      have moved : Turn.Within q c s ids ⟨t.storage, handedOut t.cursor entry []⟩ := by
        refine ⟨h.table, ⟨fun id held => h.cursor.pending id ?_, nofun, Nat.zero_le 1⟩, h.known⟩
        unfold handedOut at held
        dsimp only at held
        split at held
        · cases held
        · exact held
      refine (ends_handOut_next cached).imp ?_ ?_
      · rintro _ u ⟨rfl, kept, table⟩
        refine ⟨moved.of_put table (handingCells_in_row _ _ _) (handingCells_nodup _ _ _)
          (fun x mem id read some => ?_) kept, kept ▸ rfl, fun p here => ?_⟩
        · rw [mem_handingCells_active.1 mem, Bytes.toUInt64?_ofUInt64] at read
          exact Option.some.inj read ▸ new
        · cases here
          exact new
      · rintro e u ⟨_, kept, same⟩
        exact ⟨moved.of_alike ⟨same, kept⟩, kept ▸ rfl⟩

/-- However a request ends, what its cursor holds then, if it is loaded, is of the kind, and so are the
active entry of the row and what was handed out. -/
theorem within_dequeue (shared : config.partitioner = .roundRobin)
    (h : t.storage.table.Within q c s ids) (seen : t.storage.table.RowSeen (q.seat c).row s)
    (rest : t.cursor.loaded = true → t.Within q c s ids ∧ t.cursor.cache.entries = []) :
    Ends (q.dequeue c config s) t
      (fun d u => u.storage.table.Within q c s ids ∧
        (u.cursor.loaded = true → u.Within q c s ids ∧ u.cursor.cache.entries = []) ∧
        ∀ p, d.pointer? = some p → ids p.id)
      fun _ u => u.storage.table.Within q c s ids ∧
        (u.cursor.loaded = true → u.Within q c s ids ∧ u.cursor.cache.entries = []) := by
  unfold dequeue
  refine Ends.ofExcept_bind (fun _ _ => ⟨h, rest⟩) fun _ _ => ?_
  refine Ends.ofExcept_bind (fun _ _ => ⟨h, rest⟩) fun _ _ => ?_
  have loads : Ends (q.ensureLoaded c config s) t (fun _ u => u.Within q c s ids)
      fun _ u => u.storage.table.Within q c s ids ∧
        (u.cursor.loaded = true → u.Within q c s ids ∧ u.cursor.cache.entries = []) := by
    cases loaded : t.cursor.loaded with
    | true => exact .answered (q.ensureLoaded_of_loaded c config s loaded) (rest loaded).1
    | false =>
        exact .of_eq (q.ensureLoaded_of_unloaded c config s loaded) (within_load h seen loaded)
  refine loads.bind fun _ u h => ?_
  have refills : Ends (q.refill c config s) u (fun _ v => v.Within q c s ids)
      fun _ v => v.Within q c s ids ∧ v.cursor.cache.entries = [] := by
    cases cached : u.cursor.cache.hasNext with
    | true => exact .answered (refill_of_hasNext cached) h
    | false =>
        have fetching := q.fetching_fetchShared c s
        have fetches := within_fetchShared h
        refine .of_eq (refill_of_not_hasNext cached) ?_
        rw [fetch, shared]
        refine .intro (fun _ v done => fetches.of_ok done) fun e v failed => ?_
        refine ⟨fetches.of_error failed, ?_⟩
        rw [(fetching.cache_of_failed failed).1]
        simpa [Cache.hasNext] using cached
  refine (refills.imp (fun _ _ done => done) fun _ v failed => ⟨failed.1.table, fun _ => failed⟩).bind
    fun _ v h => ?_
  exact (within_handOut h).imp
    (fun _ w done => ⟨done.1.table, fun _ => ⟨done.1, done.2.1⟩, done.2.2⟩)
    fun _ w failed => ⟨failed.1.table, fun _ => failed⟩

end Queue

end VersionedQueue
