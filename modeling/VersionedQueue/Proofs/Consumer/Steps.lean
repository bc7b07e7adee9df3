import VersionedQueue.Proofs.Consumer.Row
import VersionedQueue.Proofs.Entries.Sight
import VersionedQueue.Proofs.Storage.Footprint

/-!
# The steps of a request for an entry

Loading a cursor, handing an entry out, and storing that there is none, each on a row of which the
reader's snapshot sees every version: what the row and the cursor are afterwards.
-/

set_option autoImplicit false
set_option relaxedAutoImplicit false

namespace VersionedQueue

theorem Stored.of_touched {queue : String} {past : List Event} {rows : Bytes → Prop} {v : Version}
    {t t' : Table} (h : Stored queue past t) (touched : t.Touched rows v t')
    (entries : ∀ id, ¬ rows ((RowKey.entry id).encode queue))
    (counter : ¬ rows (RowKey.entryCounter.encode queue)) : Stored queue past t' := by
  refine h.of_same touched.refuses (fun id column => touched.history _ (entries id) _) ?_
    (fun _ _ _ => Iff.rfl) fun _ _ => Iff.rfl
  exact Int.le_of_eq (congrArg Int64.toInt (touched.counter _ counter _).symm)

theorem Stored.of_group_moved {q : Queue} {c : Consumer} {past : List Event} {v : Version}
    {t t' : Table} (h : Stored q.name past t) (touched : t.Touched (· = (q.seat c).groupRow) v t') :
    Stored q.name past t' := by
  refine h.of_touched touched (fun id same => ?_) fun same => ?_
  · exact RowKey.noConfusion (RowKey.encode_injective same)
  · exact RowKey.noConfusion (RowKey.encode_injective same)

/-- What a request of a consumer stands on: storage works, entries are as the run has left them, and
the consumer's row holds the given ids and no version newer than the reader's. -/
structure Footing (q : Queue) (c : Consumer) (s : Snapshot) (past : List Event)
    (active readPointer : EntryId) (st : Storage) : Prop where
  reliable : st.Reliable
  stored : Stored q.name past st.table
  holds : st.table.Holds (q.seat c) active readPointer
  newest : st.table.Until (q.seat c).row s.writeVersion

namespace Footing

variable {q : Queue} {c : Consumer} {s : Snapshot} {past : List Event} {a r : EntryId}
  {st st' : Storage}

theorem of_alike (h : Footing q c s past a r st) (same : st.Alike st') :
    Footing q c s past a r st' where
  reliable := h.reliable.of_alike same
  stored := h.stored.of_alike same.1
  holds := h.holds.of_stored (by simp only [Table.stored, same.1.history])
    (by simp only [Table.stored, same.1.history])
  newest column w has := h.newest column w (by rwa [← same.1.history])

theorem stored_of_own_row (h : Footing q c s past a r st)
    (touched : st.table.Touched (· = (q.seat c).row) s.writeVersion st'.table) :
    Stored q.name past st'.table := by
  refine h.stored.of_touched touched (fun id same => ?_) fun same => ?_
  · exact RowKey.noConfusion (RowKey.encode_injective same)
  · exact RowKey.noConfusion (RowKey.encode_injective same)

end Footing

/-- The claims that a table keeps in a consumer's row. -/
def Table.claims (t : Table) (seat : Seat) (id : EntryId) : History :=
  t.history seat.row (Column.claim id).encode

namespace Queue

variable (q : Queue) (c : Consumer) (config : Config) (s : Snapshot) {past : List Event}
  {a r : EntryId} {st : Storage}

theorem answers_write (purpose : Purpose) (a' r' : EntryId) (cells : List (Column × Bytes))
    (h : Footing q c s past a r st) (inRow : ∀ cell ∈ cells, cell.1.InConsumerRow)
    (distinct : (cells.map (·.1)).Nodup)
    (active : (.active, Bytes.ofUInt64 a') ∈ cells ∨ a' = a ∧ .active ∉ cells.map (·.1))
    (reads : (.readPointer, Bytes.ofUInt64 r') ∈ cells ∨
      r' = r ∧ .readPointer ∉ cells.map (·.1)) :
    Answers (q.put purpose (consumerRow c) cells s.writeVersion) st fun _ st' =>
      Footing q c s past a' r' st' ∧
        st.table.Touched (· = (q.seat c).row) s.writeVersion st'.table ∧
        ∀ id, .claim id ∉ cells.map (·.1) →
          st'.table.claims (q.seat c) id = st.table.claims (q.seat c) id := by
  refine (q.answers_putConsumer purpose c cells s h.reliable inRow distinct h.newest).imp ?_
  rintro _ st' ⟨reliable, touched, wrote, kept⟩
  refine ⟨⟨reliable, h.stored_of_own_row touched, ⟨?_, ?_⟩, h.newest.of_touched touched⟩, touched,
    fun id => kept (.claim id) trivial⟩
  · rcases active with mem | ⟨rfl, out⟩
    · rw [wrote .active _ mem]
      exact storedId?_ofUInt64 _
    · rw [Table.stored, kept .active trivial out]
      exact h.holds.active
  · rcases reads with mem | ⟨rfl, out⟩
    · rw [wrote .readPointer _ mem]
      exact storedId?_ofUInt64 _
    · rw [Table.stored, kept .readPointer trivial out]
      exact h.holds.readPointer

theorem answers_saveEmpty (cursor : Cursor) (h : Footing q c s past a r st) :
    Answers (q.saveEmpty c s) ⟨st, cursor⟩ fun _ t' =>
      t'.cursor = cursor ∧
        Footing q c s past (cursor.pending.getD a) cursor.readPointer t'.storage ∧
        st.table.Touched (· = (q.seat c).row) s.writeVersion t'.storage.table ∧
        ∀ id, cursor.pending ≠ some id →
          t'.storage.table.claims (q.seat c) id = st.table.claims (q.seat c) id := by
  unfold saveEmpty
  apply Turn.answers_cursorNow
  cases held : cursor.pending with
  | none =>
      have written := q.answers_write c s .writeConsumer a cursor.readPointer
        [(.readPointer, Bytes.ofUInt64 cursor.readPointer)] h (by simp [Column.InConsumerRow])
        (by simp) (.inr ⟨rfl, by simp⟩) (.inl List.mem_cons_self)
      refine (Turn.answers_onStorage written).imp ?_
      rintro _ t' ⟨⟨footing, touched, kept⟩, same⟩
      exact ⟨same.symm, footing, touched, fun id _ => kept id (by simp)⟩
  | some id =>
      have written := q.answers_write c s .writeConsumer id cursor.readPointer
        [(.readPointer, Bytes.ofUInt64 cursor.readPointer), (.active, Bytes.ofUInt64 id),
          (.claim id, ClaimState.claimed.encode)] h (by simp [Column.InConsumerRow]) (by simp)
        (.inl (by simp)) (.inl List.mem_cons_self)
      refine (Turn.answers_onStorage written).imp ?_
      rintro _ t' ⟨⟨footing, touched, kept⟩, same⟩
      refine ⟨same.symm, footing, touched, fun other apart => kept other ?_⟩
      have different : other ≠ id := fun same => apart (by rw [same])
      simp [different]

theorem answers_serve (cursor : Cursor) (entry : CachedEntry) (h : Footing q c s past a r st) :
    Answers (q.serve c config s entry) ⟨st, cursor⟩ fun delivery t' =>
      delivery = .served ⟨q.name, entry.id⟩ ⟨entry.payload, {}⟩ ∧
        t'.cursor = { cursor.advance entry.id with
          active := some entry.id
          pending := if cursor.pending = some entry.id then none else cursor.pending } ∧
        Footing q c s past entry.id (cursor.advance entry.id).readPointer t'.storage ∧
        st.table.Touched (· = (q.seat c).row) s.writeVersion t'.storage.table ∧
        ∀ id, (id = entry.id → config.partitioner.isDisjoint = true) →
          t'.storage.table.claims (q.seat c) id = st.table.claims (q.seat c) id := by
  unfold serve
  apply Turn.answers_update
  apply Turn.answers_cursorNow
  generalize claim : (if config.partitioner.isDisjoint = true then []
    else [(Column.claim entry.id, ClaimState.claimed.encode)]) = claims
  have written := q.answers_write c s .writeConsumer entry.id (cursor.advance entry.id).readPointer
    ((.readPointer, Bytes.ofUInt64 (cursor.advance entry.id).readPointer) ::
      (.active, Bytes.ofUInt64 entry.id) :: claims) h
    (by rw [← claim]; split <;> simp [Column.InConsumerRow])
    (by rw [← claim]; split <;> simp) (.inl (by simp)) (.inl List.mem_cons_self)
  refine (Turn.answers_onStorage written).bind ?_
  rintro _ t' ⟨⟨footing, touched, kept⟩, same⟩
  refine Answers.pure ⟨rfl, same.symm, footing, touched, fun id apart => kept id ?_⟩
  rw [← claim]
  split
  · simp
  · rename_i shared
    have different : id ≠ entry.id := fun here => shared (apart here)
    simp [different]

/-- The next entry of the cache is handed out; with an empty cache it is stored that there is none. -/
theorem answers_handOut (cursor : Cursor) (h : Footing q c s past a r st) :
    Answers (q.handOut c config s) ⟨st, cursor⟩ fun delivery t' =>
      st.table.Touched (· = (q.seat c).row) s.writeVersion t'.storage.table ∧
        match cursor.cache.entries with
        | [] => delivery = .empty ∧ t'.cursor = cursor ∧
            Footing q c s past (cursor.pending.getD a) cursor.readPointer t'.storage ∧
            ∀ id, cursor.pending ≠ some id →
              t'.storage.table.claims (q.seat c) id = st.table.claims (q.seat c) id
        | entry :: rest => delivery = .served ⟨q.name, entry.id⟩ ⟨entry.payload, {}⟩ ∧
            t'.cursor = { cursor.advance entry.id with
              active := some entry.id
              pending := if cursor.pending = some entry.id then none else cursor.pending
              cache := ⟨rest⟩ } ∧
            Footing q c s past entry.id (cursor.advance entry.id).readPointer t'.storage ∧
            ∀ id, (id = entry.id → config.partitioner.isDisjoint = true) →
              t'.storage.table.claims (q.seat c) id = st.table.claims (q.seat c) id := by
  unfold handOut
  apply Turn.answers_cursorNow
  cases left : cursor.cache.entries with
  | nil =>
      simp only [Cache.next?, left]
      refine (q.answers_saveEmpty c s cursor h).bind ?_
      rintro _ t' ⟨same, footing, touched, claims⟩
      exact Answers.pure ⟨touched, rfl, same, footing, claims⟩
  | cons entry rest =>
      simp only [Cache.next?, left]
      apply Turn.answers_update
      refine (q.answers_serve c config s _ entry h).imp ?_
      rintro delivery t' ⟨handed, same, footing, touched, claims⟩
      exact ⟨touched, handed, same, footing, claims⟩

theorem answers_readEntry_of_sight {id : EntryId} {seen : Sighting} (reliable : st.Reliable)
    (sight : q.sight (q.shows st.table s) id = .ok seen) :
    Answers (q.readEntry id s) st fun seen' st' => seen' = seen ∧ st.Alike st' := by
  unfold readEntry
  refine (q.answers_view .readEntries s reliable).bind ?_
  rintro _ st' ⟨rfl, same⟩
  exact Answers.ofExcept sight ⟨rfl, same⟩

theorem answers_readEntry (id : EntryId) (reliable : st.Reliable)
    (stored : Stored q.name past st.table) :
    Answers (q.readEntry id s) st fun seen st' =>
      q.sight (q.shows st.table s) id = .ok seen ∧ st.Alike st' := by
  have readable : ∃ seen, q.sight (q.shows st.table s) id = .ok seen := by
    rcases stored.sight_cases s id with ⟨sight, _⟩ | ⟨sight, _⟩ | ⟨entry, v, sight, _⟩
    · exact ⟨_, sight⟩
    · exact ⟨_, sight⟩
    · exact ⟨_, sight⟩
  obtain ⟨seen, sight⟩ := readable
  refine (q.answers_readEntry_of_sight s reliable sight).imp ?_
  rintro _ st' ⟨rfl, same⟩
  exact ⟨sight, same⟩

theorem answers_refresh (cursor : Cursor) (reliable : st.Reliable)
    (counted : 0 ≤ st.table.standing (RowKey.entryCounter.encode q.name)) :
    Answers q.refresh ⟨st, cursor⟩ fun _ t' => st.Alike t'.storage ∧ ∃ w : EntryId,
      (w.toNat : Int) = st.table.standing (RowKey.entryCounter.encode q.name) ∧
        t'.cursor = { cursor with writePointer := w } := by
  have counted : Answers q.writePointer st fun id st' =>
      (id.toNat : Int) = st.table.standing (RowKey.entryCounter.encode q.name) ∧ st.Alike st' :=
    q.answers_count_zero .readWritePointer .entryCounter reliable counted
  unfold refresh
  refine (Turn.answers_onStorage counted).bind ?_
  rintro w t' ⟨⟨stands, same⟩, kept⟩
  exact ⟨(), _, rfl, same, w, stands, by rw [← kept]⟩

end Queue

/-- What loading makes of the active entry of a stored row: the active entry that is stored
afterwards, and the cursor. -/
inductive Resumed (past : List Event) (queue : String) (s : Snapshot) (p : Partitioner)
    (active readPointer writePointer : EntryId) : EntryId → Cursor → Prop
  /-- There was none. -/
  | idle : active = noEntry → Resumed past queue s p active readPointer writePointer noEntry
      { loaded := true, readPointer, writePointer }
  /-- It can be served again. -/
  | again {entry : Entry} {v : Version} : active ≠ noEntry → s.sees v →
      Enqueued past ⟨queue, active⟩ entry v →
      Resumed past queue s p active readPointer writePointer active
        { loaded := true, active := some active, readPointer, writePointer
          cache := ⟨[⟨active, entry.payload⟩]⟩ }
  /-- It was claimed and is not visible yet. -/
  | waiting : active ≠ noEntry → p.isDisjoint = false →
      ¬ ShownAt past ⟨queue, active⟩ (s.sees ·) →
      Resumed past queue s p active readPointer writePointer active
        { loaded := true, readPointer, writePointer, pending := some active }
  /-- It cannot be served any more. -/
  | cleared : active ≠ noEntry →
      (RetiredAt past ⟨queue, active⟩ (s.sees ·) ∨
        p.isDisjoint = true ∧ ¬ ShownAt past ⟨queue, active⟩ (s.sees ·)) →
      Resumed past queue s p active readPointer writePointer noEntry
        { loaded := true, readPointer, writePointer }

theorem Resumed.loaded {past : List Event} {queue : String} {s : Snapshot} {p : Partitioner}
    {a r w a' : EntryId} {k : Cursor} (resumed : Resumed past queue s p a r w a' k) :
    k.loaded = true := by
  cases resumed <;> rfl

namespace Queue

variable (q : Queue) (c : Consumer) (config : Config) (s : Snapshot) {past : List Event}
  {a r : EntryId} {st : Storage}

/-- A cursor has been rebuilt from a row: the active entry of the row afterwards, the cursor, and what
is left as it was. -/
def LoadResult (q : Queue) (c : Consumer) (config : Config) (s : Snapshot) (past : List Event)
    (active readPointer writePointer : EntryId) (t : Table) (t' : Turn) (a' : EntryId) : Prop :=
  Resumed past q.name s config.partitioner active readPointer writePointer a' t'.cursor ∧
    Footing q c s past a' readPointer t'.storage ∧
    t.Touched (· = (q.seat c).row) s.writeVersion t'.storage.table ∧
    ∀ id, t'.storage.table.claims (q.seat c) id = t.claims (q.seat c) id

private theorem LoadResult.of_alike {active readPointer w a' : EntryId} {t t' : Table} {turn : Turn}
    (same : t.Alike t') (h : q.LoadResult c config s past active readPointer w t' turn a') :
    q.LoadResult c config s past active readPointer w t turn a' := by
  obtain ⟨resumed, footing, touched, claims⟩ := h
  exact ⟨resumed, footing, (same.touched _ _).trans touched, fun id =>
    (claims id).trans (same.history _ _)⟩

private theorem answers_clearActive (w : EntryId) (some : a ≠ noEntry)
    (h : Footing q c s past a r st)
    (why : RetiredAt past ⟨q.name, a⟩ (s.sees ·) ∨
      config.partitioner.isDisjoint = true ∧ ¬ ShownAt past ⟨q.name, a⟩ (s.sees ·)) :
    Answers (Turn.onStorage (q.put .clearActive (consumerRow c)
        [(.active, Bytes.ofUInt64 noEntry)] s.writeVersion))
      ⟨st, { loaded := true, readPointer := r, writePointer := w }⟩ fun _ t' =>
        ∃ a', q.LoadResult c config s past a r w st.table t' a' := by
  have written := q.answers_write c s .clearActive noEntry r [(.active, Bytes.ofUInt64 noEntry)] h
    (by simp [Column.InConsumerRow]) (by simp) (.inl List.mem_cons_self) (.inr ⟨rfl, by simp⟩)
  refine (Turn.answers_onStorage written).imp ?_
  rintro _ ⟨st', _⟩ ⟨⟨cleared, touched, kept⟩, rfl⟩
  exact ⟨noEntry, .cleared some why, cleared, touched, fun id => kept id (by simp)⟩

private theorem answers_resume (w : EntryId) (some : a ≠ noEntry) (h : Footing q c s past a r st) :
    Answers (q.resume c config s a) ⟨st, { loaded := true, readPointer := r, writePointer := w }⟩
      fun _ t' => ∃ a', q.LoadResult c config s past a r w st.table t' a' := by
  unfold resume
  refine (Turn.answers_onStorage (q.answers_readEntry s a h.reliable h.stored)).bind ?_
  rintro sighting ⟨st₁, _⟩ ⟨⟨sight, same⟩, rfl⟩
  have footing := h.of_alike same
  have unwritten : ∀ id, st₁.table.claims (q.seat c) id = st.table.claims (q.seat c) id := fun id =>
    same.1.history _ _
  have touched := same.1.touched (· = (q.seat c).row) s.writeVersion
  rcases h.stored.sight_cases s a with ⟨shown, hidden⟩ | ⟨shown, retired⟩ |
    ⟨entry, v, shown, visible, appended⟩
  · cases sight.symm.trans shown
    -- An entry that is not visible stays pending in a shared group only.
    by_cases shared : config.partitioner.isDisjoint = true
    · simp only [shared, Bool.not_true, Bool.false_eq_true, and_false, if_false]
      refine (q.answers_clearActive c config s w some footing (.inr ⟨shared, hidden⟩)).imp ?_
      rintro _ t' ⟨a', loaded⟩
      exact ⟨a', loaded.of_alike q c config s same.1⟩
    · have shared : config.partitioner.isDisjoint = false := by simpa using shared
      simp only [shared, Bool.not_false, and_self, if_true]
      exact ⟨(), _, rfl, a, .waiting some shared hidden, footing, touched, unwritten⟩
  · cases sight.symm.trans shown
    refine (q.answers_clearActive c config s w some footing (.inl retired)).imp ?_
    rintro _ t' ⟨a', loaded⟩
    exact ⟨a', loaded.of_alike q c config s same.1⟩
  · cases sight.symm.trans shown
    exact ⟨(), _, rfl, a, .again some visible appended, footing, touched, unwritten⟩

/-- What loading reads from a table: the ids in the consumer's row, and the write pointer. -/
structure Reads (t : Table) (active readPointer writePointer : EntryId) : Prop where
  active : q.decodeId c (q.shows t s (consumerRow c) .active) = .ok active
  readPointer : q.decodeId c (q.shows t s (consumerRow c) .readPointer) = .ok readPointer
  writePointer : (writePointer.toNat : Int) = t.standing (RowKey.entryCounter.encode q.name)

/-- What loading does once it has read the row and the counter. -/
def settle (active : EntryId) : TurnM Unit :=
  if active = noEntry then pure () else q.resume c config s active

theorem answers_load_of_reads {w : EntryId} {post : Unit → Turn → Prop} (cursor : Cursor)
    (reliable : st.Reliable) (reads : q.Reads c s st.table a r w)
    (settles : ∀ st', st.Alike st' → Answers (q.settle c config s a)
      ⟨st', { loaded := true, readPointer := r, writePointer := w }⟩ post) :
    Answers (q.load c config s) ⟨st, cursor⟩ post := by
  unfold load
  refine (Turn.answers_onStorage (q.answers_view .readConsumer s reliable)).bind ?_
  rintro view ⟨st₁, _⟩ ⟨⟨rfl, same⟩, rfl⟩
  refine Answers.ofExcept_bind reads.active ?_
  refine Answers.ofExcept_bind reads.readPointer ?_
  apply Turn.answers_update
  have standing := reads.writePointer.trans (same.1.standing _).symm
  refine (q.answers_refresh _ (reliable.of_alike same) (by omega)).bind ?_
  rintro _ ⟨st₂, _⟩ ⟨same₂, w', stands, rfl⟩
  have looked : w' = w := UInt64.toNat_inj.1 (by exact Int.ofNat_inj.1 (stands.trans standing.symm))
  subst looked
  exact settles st₂ (same.trans same₂)

/-- Loading takes the read pointer from the row, looks at the write pointer, and resumes the active
entry. -/
theorem answers_load (cursor : Cursor) (h : Footing q c s past a r st)
    (seen : st.table.RowSeen (q.seat c).row s) :
    Answers (q.load c config s) ⟨st, cursor⟩ fun _ t' => ∃ (a' w : EntryId),
      (w.toNat : Int) = st.table.standing (RowKey.entryCounter.encode q.name) ∧
        q.LoadResult c config s past a r w st.table t' a' := by
  obtain ⟨w, stands⟩ := h.stored.highest
  have reads : q.Reads c s st.table a r w :=
    ⟨by rw [seen.shows]; exact q.decodeId_of_storedId? c h.holds.active,
      by rw [seen.shows]; exact q.decodeId_of_storedId? c h.holds.readPointer, stands⟩
  refine q.answers_load_of_reads c config s cursor h.reliable reads fun st' same => ?_
  have footing := h.of_alike same
  unfold settle
  split
  · rename_i none
    exact Answers.pure ⟨noEntry, w, stands, .idle none, none ▸ footing, same.1.touched _ _,
      fun id => same.1.history _ _⟩
  · rename_i some
    refine (q.answers_resume c config s w some footing).imp ?_
    rintro _ t' ⟨a', loaded⟩
    exact ⟨a', w, stands, loaded.of_alike q c config s same.1⟩

variable {t : Turn}

theorem ensureLoaded_of_loaded (loaded : t.cursor.loaded = true) :
    q.ensureLoaded c config s t = .ok () t := by
  change (if t.cursor.loaded = true then _ else q.load c config s) t = _
  rw [if_pos loaded]
  rfl

theorem ensureLoaded_of_unloaded (unloaded : t.cursor.loaded = false) :
    q.ensureLoaded c config s t = q.load c config s t := by
  change (if t.cursor.loaded = true then _ else q.load c config s) t = _
  rw [if_neg (by simp [unloaded])]

theorem refill_of_cached {entry : CachedEntry} {rest : List CachedEntry}
    (left : t.cursor.cache.entries = entry :: rest) : q.refill c config s t = .ok () t := by
  have some : t.cursor.cache.hasNext = true := by simp [Cache.hasNext, left]
  change (if t.cursor.cache.hasNext = true then _ else q.fetch c config s) t = _
  rw [if_pos some]
  rfl

theorem refill_of_empty (none : t.cursor.cache.entries = []) :
    q.refill c config s t = q.fetch c config s t := by
  have nothing : ¬ t.cursor.cache.hasNext = true := by simp [Cache.hasNext, none]
  change (if t.cursor.cache.hasNext = true then _ else q.fetch c config s) t = _
  rw [if_neg nothing]

end Queue

end VersionedQueue
