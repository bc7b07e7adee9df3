import VersionedQueue.Proofs.Disjoint.Answer
import VersionedQueue.Proofs.Disjoint.Readable
import VersionedQueue.Proofs.Shared.Turn

/-!
# What a stored row comes to

A consumer that comes without a cursor is answered by what is stored: the active entry and the read pointer
of its row, two counters, and what its snapshot shows of entries.  From a cursor that has nothing cached it
is answered by what the cursor has pending and by its read pointer.  In both cases the answer, the cells
that are stored with it, the id that is left pending and the pointer of the group follow from these.
-/

set_option autoImplicit false
set_option relaxedAutoImplicit false

namespace VersionedQueue

namespace Queue

section View

variable (q : Queue) (config : Config) (view : QueueView) (c : Consumer)

/-- What a member of a shared group is answered with the id that it has come to: the cells that are stored,
and the id that is left pending. -/
inductive DrawAnswer (readPointer : EntryId) :
    Option EntryId → Delivery → List (Column × Bytes) → Option EntryId → Prop
  | served {id : EntryId} {payload : Bytes} : q.sight view id = .ok (.servable payload) →
      DrawAnswer readPointer (some id) (.served ⟨q.name, id⟩ ⟨payload, {}⟩)
        [(.readPointer, Bytes.ofUInt64 (max readPointer id)), (.active, Bytes.ofUInt64 id),
          (.claim id, ClaimState.claimed.encode)] none
  | waiting {id : EntryId} : q.sight view id = .ok .unseen →
      DrawAnswer readPointer (some id) .empty
        [(.readPointer, Bytes.ofUInt64 readPointer), (.active, Bytes.ofUInt64 id),
          (.claim id, ClaimState.claimed.encode)] (some id)
  | nothing : DrawAnswer readPointer none .empty [(.readPointer, Bytes.ofUInt64 readPointer)] none

/-- What a member that has nothing cached is answered, given what it has pending, its read pointer and the
counters: a member of a disjoint group scans, and a member of a shared group draws from the pointer of its
group. -/
inductive OnwardAnswer (pending : Option EntryId) (readPointer : EntryId) (group : Int)
    (writePointer : EntryId) : Delivery → List (Column × Bytes) → Option EntryId → Int → Prop
  | scanned {d : Delivery} {cells : List (Column × Bytes)} : config.partitioner = .hash →
      pending = none → q.ScanAnswer view c readPointer writePointer d cells →
      OnwardAnswer pending readPointer group writePointer d cells none group
  | drawn {claim left : Option EntryId} {d : Delivery} {cells : List (Column × Bytes)} {group' : Int} :
      config.partitioner = .roundRobin →
      q.ComesTo view writePointer.toNat pending group claim group' →
      q.DrawAnswer view readPointer claim d cells left →
      OnwardAnswer pending readPointer group writePointer d cells left group'

/-- An entry comes up first for a member that has nothing pending: it is the least that a scan reaches, or
the first that the member draws. -/
inductive ComesUp (readPointer : EntryId) (group : Int) (writePointer id : EntryId) : Prop
  | scanned : config.partitioner = .hash → q.Reaches view c readPointer writePointer id →
      (∀ other, q.Reaches view c readPointer writePointer other → id ≤ other) →
      ComesUp readPointer group writePointer id
  | drawn {group' : Int} : config.partitioner = .roundRobin →
      q.ComesTo view writePointer.toNat none group (some id) group' →
      ComesUp readPointer group writePointer id

/-- What a member that comes without a cursor is answered, given the active entry and the read pointer of
its row and the counters. -/
inductive RowAnswer (active readPointer : EntryId) (group : Int) (writePointer : EntryId) :
    Delivery → List (Column × Bytes) → Option EntryId → Int → Prop
  /-- The active entry is handed out again. -/
  | again {payload : Bytes} : active ≠ noEntry → q.sight view active = .ok (.servable payload) →
      RowAnswer active readPointer group writePointer (.served ⟨q.name, active⟩ ⟨payload, {}⟩)
        ((.readPointer, Bytes.ofUInt64 (max readPointer active)) ::
          (.active, Bytes.ofUInt64 active) :: if config.partitioner.isDisjoint then [] else
            [(.claim active, ClaimState.claimed.encode)]) none group
  /-- A member of a shared group goes on waiting for it. -/
  | waiting : active ≠ noEntry → q.sight view active = .ok .unseen →
      config.partitioner.isDisjoint = false →
      RowAnswer active readPointer group writePointer .empty
        [(.readPointer, Bytes.ofUInt64 readPointer), (.active, Bytes.ofUInt64 active),
          (.claim active, ClaimState.claimed.encode)] (some active) group
  /-- There is none, so that the member goes on. -/
  | idle {d : Delivery} {cells : List (Column × Bytes)} {left : Option EntryId} {group' : Int} :
      active = noEntry →
      OnwardAnswer q config view c none readPointer group writePointer d cells left group' →
      RowAnswer active readPointer group writePointer d cells left group'
  /-- It is cleared, and the member goes on. -/
  | cleared {seen : Sighting} {d : Delivery} {cells : List (Column × Bytes)} {left : Option EntryId}
      {group' : Int} : active ≠ noEntry → q.sight view active = .ok seen → Clears config seen →
      OnwardAnswer q config view c none readPointer group writePointer d cells left group' →
      RowAnswer active readPointer group writePointer d
        ((.active, Bytes.ofUInt64 noEntry) :: cells) left group'

end View

section Onward

variable {q : Queue} {config : Config} {view view' : QueueView} {c : Consumer}
  {pending claim left left' : Option EntryId} {r w : EntryId} {group group₁ group₂ : Int}
  {d d' : Delivery} {cells cells' : List (Column × Bytes)}

theorem DrawAnswer.unique (h : q.DrawAnswer view r claim d cells left)
    (h' : q.DrawAnswer view r claim d' cells' left') : d = d' ∧ cells = cells' ∧ left = left' := by
  cases h with
  | served shown =>
      cases h' with
      | served shown' =>
          cases shown.symm.trans shown'
          exact ⟨rfl, rfl, rfl⟩
      | waiting shown' => cases shown.symm.trans shown'
  | waiting shown =>
      cases h' with
      | served shown' => cases shown.symm.trans shown'
      | waiting _ => exact ⟨rfl, rfl, rfl⟩
  | nothing =>
      cases h' with
      | nothing => exact ⟨rfl, rfl, rfl⟩

theorem DrawAnswer.claim_eq (h : q.DrawAnswer view r claim d cells left) {id : EntryId}
    (taken : d.pointer? = some ⟨q.name, id⟩ ∨ left = some id) : claim = some id := by
  cases h with
  | served _ => rcases taken with ⟨⟨⟩⟩ | ⟨⟨⟩⟩; rfl
  | waiting _ => rcases taken with ⟨⟨⟩⟩ | ⟨⟨⟩⟩; rfl
  | nothing => rcases taken with ⟨⟨⟩⟩ | ⟨⟨⟩⟩

theorem OnwardAnswer.unique
    (h : q.OnwardAnswer config view c pending r group w d cells left group₁)
    (h' : q.OnwardAnswer config view c pending r group w d' cells' left' group₂) :
    d = d' ∧ cells = cells' ∧ left = left' ∧ group₁ = group₂ := by
  cases h with
  | scanned hash _ scan =>
      cases h' with
      | scanned _ _ scan' =>
          obtain ⟨rfl, rfl⟩ := scan.unique scan'
          exact ⟨rfl, rfl, rfl, rfl⟩
      | drawn shared _ _ => cases hash.symm.trans shared
  | drawn shared comes draw =>
      cases h' with
      | scanned hash _ _ => cases hash.symm.trans shared
      | drawn _ comes' draw' =>
          obtain ⟨rfl, rfl⟩ := comes.unique comes'
          obtain ⟨rfl, rfl, rfl⟩ := draw.unique draw'
          exact ⟨rfl, rfl, rfl, rfl⟩

section Entries

variable (same : ∀ id column, view' (.entry id) column = view (.entry id) column)

include same

private theorem sight_of_entries (id : EntryId) : q.sight view' id = q.sight view id := by
  simp only [sight, same]

private theorem ComesTo.of_entries {highest : Int}
    (h : q.ComesTo view' highest pending group claim group₁) :
    q.ComesTo view highest pending group claim group₁ := by
  induction h with
  | claim next sight => exact .claim next (sight_of_entries same _ ▸ sight)
  | dropped next retired _ ih => exact .dropped next (sight_of_entries same _ ▸ retired) ih
  | caughtUp reached => exact .caughtUp reached

private theorem DrawAnswer.of_entries (h : q.DrawAnswer view' r claim d cells left) :
    q.DrawAnswer view r claim d cells left := by
  cases h with
  | served shown => exact .served (sight_of_entries same _ ▸ shown)
  | waiting shown => exact .waiting (sight_of_entries same _ ▸ shown)
  | nothing => exact .nothing

theorem OnwardAnswer.of_entries
    (h : q.OnwardAnswer config view' c pending r group w d cells left group₁) :
    q.OnwardAnswer config view c pending r group w d cells left group₁ := by
  cases h with
  | scanned hash none scan => exact .scanned hash none (scan.of_entries same)
  | drawn shared comes draw => exact .drawn shared (comes.of_entries same) (draw.of_entries same)

end Entries

theorem ComesUp.ahead {a : EntryId} (h : q.ComesUp config view c r group w a) :
    config.partitioner = .hash ∧ r < a ∨ config.partitioner = .roundRobin ∧ group < a.toNat := by
  cases h with
  | scanned hash reaches _ => exact .inl ⟨hash, reaches.behind⟩
  | drawn shared comes =>
      exact .inr ⟨shared, (comes.pending_or_beyond rfl).resolve_left nofun⟩

theorem OnwardAnswer.takes_iff {a : EntryId}
    (h : q.OnwardAnswer config view c none r group w d cells left group₁) :
    d.pointer? = some ⟨q.name, a⟩ ∨ left = some a ↔ q.ComesUp config view c r group w a := by
  constructor
  · intro taken
    cases h with
    | scanned hash _ scan =>
        rcases taken with served | ⟨⟨⟩⟩
        cases scan with
        | next reaches least _ =>
            cases served
            exact .scanned hash reaches least
        | nothing _ _ _ => cases served
    | drawn shared comes draw => exact .drawn shared (draw.claim_eq taken ▸ comes)
  · intro up
    cases up with
    | scanned hash reaches least =>
        cases h with
        | scanned _ _ scan =>
            cases scan with
            | next reaches' least' _ =>
                obtain rfl := UInt64.le_antisymm (least _ reaches') (least' _ reaches)
                exact .inl rfl
            | nothing none _ _ => exact absurd reaches (none a)
        | drawn shared _ _ => cases hash.symm.trans shared
    | drawn shared comes =>
        cases h with
        | scanned hash _ _ => cases hash.symm.trans shared
        | drawn _ comes' draw =>
            obtain ⟨rfl, rfl⟩ := comes.unique comes'
            cases draw with
            | served _ => exact .inl rfl
            | waiting _ => exact .inr rfl

end Onward

section Answer

variable (q : Queue) (c : Consumer) (config : Config) (s : Snapshot) {st : Storage} {a r w : EntryId}
  {group : Int}

/-- The cells of an answer are stored in the row of a consumer, and the pointer of its group stands where
the answer has moved it.  A scan moves no counter. -/
structure Records (q : Queue) (c : Consumer) (config : Config) (v : Version) (t : Table)
    (cells : List (Column × Bytes)) (group' : Int) (t' : Table) : Prop where
  counted : Table.Counted (q.seat c).groupRow
    (t.recordAll (q.seat c).row (cells.map fun cell => (cell.1.encode, cell.2)) v) t'
  standing : t'.standing (q.seat c).groupRow = group'
  scanned : config.partitioner = .hash →
    (t.recordAll (q.seat c).row (cells.map fun cell => (cell.1.encode, cell.2)) v).Alike t'

private theorem standing_recordAll (t : Table) (row r : Bytes) (cells : List (Bytes × Bytes))
    (v : Version) : (t.recordAll row cells v).standing r = t.standing r := by
  simp only [Table.standing, Table.counter_recordAll]

private theorem answers_handOut_drawn (shared : config.partitioner = .roundRobin) {u : Turn}
    {view : QueueView} {claim : Option EntryId} {entries : List CachedEntry} (calm : u.Calm)
    (pending : u.cursor.pending = claim) (cached : u.cursor.cache.entries = entries)
    (draws : q.Draws view claim entries) :
    Answers (q.handOut c config s) u fun d t' => ∃ cells,
      q.DrawAnswer view u.cursor.readPointer claim d cells t'.cursor.pending ∧
        t'.storage.table = u.storage.table.recordAll (q.seat c).row
          (cells.map fun cell => (cell.1.encode, cell.2)) s.writeVersion := by
  have rests (cached : u.cursor.cache.entries = []) (draw : q.DrawAnswer view u.cursor.readPointer
      claim .empty (restingCells u.cursor) u.cursor.pending) :
      Answers (q.handOut c config s) u fun d t' => ∃ cells,
        q.DrawAnswer view u.cursor.readPointer claim d cells t'.cursor.pending ∧
          t'.storage.table = u.storage.table.recordAll (q.seat c).row
            (cells.map fun cell => (cell.1.encode, cell.2)) s.writeVersion := by
    obtain ⟨t', done⟩ := @exists_handOut_nothing q c config s u calm cached
    obtain ⟨_, after, table⟩ := (ends_handOut_nothing cached).of_ok done
    exact ⟨_, t', done, _, by rwa [after], table⟩
  cases draws with
  | @found id payload shown =>
      obtain ⟨t', done⟩ := @exists_handOut_next q c config s u ⟨id, payload⟩ [] calm cached
      obtain ⟨_, after, table⟩ := (ends_handOut_next cached).of_ok done
      have cells : handingCells config u.cursor ⟨id, payload⟩ =
          [(.readPointer, Bytes.ofUInt64 (max u.cursor.readPointer id)),
            (.active, Bytes.ofUInt64 id), (.claim id, ClaimState.claimed.encode)] := by
        simp [handingCells, shared, Partitioner.isDisjoint, Cursor.advance]
        rfl
      have left : t'.cursor.pending = none := by simp [after, handedOut, pending]
      refine ⟨_, t', done, _, ?_, cells ▸ table⟩
      rw [left]
      exact .served shown
  | waiting shown =>
      refine rests cached ?_
      simp only [restingCells, pending]
      exact .waiting shown
  | nothing =>
      refine rests cached ?_
      simp only [restingCells, pending]
      exact .nothing

theorem answers_proceed_onward (k : Cursor) (counts : q.Counts c st group w.toNat)
    (readable : q.Readable (q.shows st.table s)) (remembered : k.writePointer ≤ w)
    (empty : k.cache = {}) (free : config.partitioner = .hash → k.pending = none) :
    Answers (q.proceed c config s) ⟨st, k⟩ fun d t' => ∃ cells group',
      q.OnwardAnswer config (q.shows st.table s) c k.pending k.readPointer group w d cells
        t'.cursor.pending group' ∧
      q.Records c config s.writeVersion st.table cells group' t'.storage.table := by
  cases partitioner : config.partitioner with
  | hash =>
      refine (q.answers_proceed_of_readable c config s partitioner k counts.reliable readable
        counts.allocated.symm remembered empty (free partitioner)).imp ?_
      rintro d t' ⟨cells, scan, table, none⟩
      rw [none]
      refine ⟨cells, group, .scanned partitioner (free partitioner) scan, .of_alike table _, ?_,
        fun _ => table⟩
      rw [table.standing, standing_recordAll, counts.taken]
  | roundRobin =>
      have nothing : k.cache.entries = [] := by rw [empty]
      have fetches : q.refill c config s ⟨st, k⟩ = q.fetchShared c s ⟨st, k⟩ := by
        rw [q.refill_of_empty c config s nothing, fetch, partitioner]
      refine ((q.answers_fetchShared_of_sights c s ⟨st, k⟩ counts readable.sight
        (Int.ofNat_le.2 (UInt64.le_iff_toNat_le.1 remembered)) empty).of_eq fetches).bind ?_
      rintro _ u ⟨counted, w', claim, entries, group', cursor, -, counts', comes, draws⟩
      refine (q.answers_handOut_drawn c config s partitioner counts'.reliable.1 (by rw [cursor])
        (by rw [cursor]) draws).imp ?_
      rintro d t' ⟨cells, draw, table⟩
      rw [cursor] at draw
      refine ⟨cells, group', .drawn partitioner comes draw, ?_, ?_, fun hash => by
        cases hash.symm.trans partitioner⟩
      · rw [table]
        exact counted.recordAll _ _ _
      · rw [table, standing_recordAll, counts'.taken]

private theorem Records.of_before {q : Queue} {c : Consumer} {config : Config} {v : Version}
    {t t₁ t' : Table} {before cells : List (Column × Bytes)} {group' : Int}
    (first : (t.recordAll (q.seat c).row (before.map fun cell => (cell.1.encode, cell.2)) v).Alike t₁)
    (h : q.Records c config v t₁ cells group' t') :
    q.Records c config v t (before ++ cells) group' t' where
  counted := by
    rw [List.map_append, Table.recordAll, List.foldl_append]
    exact (Table.Counted.of_alike (first.recordAll _ _ _) _).trans h.counted
  standing := h.standing
  scanned hash := by
    rw [List.map_append, Table.recordAll, List.foldl_append]
    exact (first.recordAll _ _ _).trans (h.scanned hash)

private theorem answers_onward_of_stored {st₁ : Storage} (before : List (Column × Bytes))
    (pending : Option EntryId) (counts : q.Counts c st group w.toNat)
    (readable : q.Readable (q.shows st.table s)) (calm : st₁.plan = .none)
    (free : config.partitioner = .hash → pending = none)
    (stored : (st.table.recordAll (q.seat c).row (before.map fun cell => (cell.1.encode, cell.2))
      s.writeVersion).Alike st₁.table) :
    Answers (q.proceed c config s)
      ⟨st₁, { loaded := true, readPointer := r, writePointer := w, pending }⟩ fun d t' =>
        ∃ cells group', q.OnwardAnswer config (q.shows st.table s) c pending r group w d cells
          t'.cursor.pending group' ∧
            q.Records c config s.writeVersion st.table (before ++ cells) group' t'.storage.table := by
  -- Only the consumer's own row was written, so the counters and what is shown of entries are the same.
  have touched : st.table.Touched (· = (q.seat c).row) s.writeVersion st₁.table :=
    (Table.Touched.of_recordAll rfl).trans (stored.touched _ _)
  have same (id : EntryId) (column : Column) :
      q.shows st₁.table s (.entry id) column = q.shows st.table s (.entry id) column := by
    simp only [shows, Table.read]
    rw [touched.history]
    exact fun row => RowKey.noConfusion (RowKey.encode_injective row)
  obtain ⟨taken, allocated⟩ := counters_of_touched_row touched
  have counts₁ : q.Counts c st₁ group w.toNat :=
    ⟨⟨calm, touched.refuses.trans counts.reliable.2⟩, taken.trans counts.taken,
      allocated.trans counts.allocated, counts.least, counts.counted⟩
  refine (q.answers_proceed_onward c config s _ counts₁ (readable.of_entries same)
    (UInt64.le_refl w) rfl free).imp ?_
  rintro d t' ⟨cells, group', answer, records⟩
  exact ⟨cells, group', answer.of_entries same, records.of_before stored⟩

private theorem answers_proceed_again {st₁ : Storage} {payload : Bytes}
    (counts : q.Counts c st group w.toNat) (calm : st₁.plan = .none) (nonzero : a ≠ noEntry)
    (sight : q.sight (q.shows st.table s) a = .ok (.servable payload)) (same : st.table.Alike st₁.table) :
    Answers (q.proceed c config s)
      ⟨st₁, { loaded := true, active := some a, readPointer := r, writePointer := w
              cache := ⟨[⟨a, payload⟩]⟩ }⟩ fun d t' => ∃ cells group',
        q.RowAnswer config (q.shows st.table s) c a r group w d cells t'.cursor.pending group' ∧
          q.Records c config s.writeVersion st.table cells group' t'.storage.table := by
  refine Answers.bind_of_ok (q.refill_of_cached c config s rfl) ?_
  generalize found : ({ loaded := true, active := some a, readPointer := r, writePointer := w
                        cache := ⟨[⟨a, payload⟩]⟩ } : Cursor) = k₁
  have next : (⟨st₁, k₁⟩ : Turn).cursor.cache.entries = [⟨a, payload⟩] := by rw [← found]
  obtain ⟨t', done⟩ := @exists_handOut_next q c config s ⟨st₁, k₁⟩ ⟨a, payload⟩ [] calm next
  obtain ⟨_, after, table⟩ := (ends_handOut_next next).of_ok done
  have left : t'.cursor.pending = none := by simp [after, handedOut, Cursor.advance, ← found]
  have cells : handingCells config k₁ ⟨a, payload⟩ =
      (.readPointer, Bytes.ofUInt64 (max r a)) :: (.active, Bytes.ofUInt64 a) ::
        if config.partitioner.isDisjoint then [] else [(.claim a, ClaimState.claimed.encode)] := by
    simp only [handingCells, Cursor.advance, ← found]
    rfl
  have stored := same.recordAll (q.seat c).row s.writeVersion
    ((handingCells config k₁ ⟨a, payload⟩).map fun cell => (cell.1.encode, cell.2))
  rw [← table] at stored
  refine ⟨_, t', done, handingCells config k₁ ⟨a, payload⟩, group, ?_, .of_alike stored _, ?_,
    fun _ => stored⟩
  · rw [left, cells]
    exact .again nonzero sight
  · rw [table, standing_recordAll, same.standing, counts.taken]

/-- A member that comes without a cursor is answered by its stored row. -/
theorem answers_dequeue_row (valid : config.validate = .ok ())
    (member : c.validate config.partitioner = .ok ()) (k : Cursor) (unloaded : k.loaded = false)
    (counts : q.Counts c st group w.toNat) (readable : q.Readable (q.shows st.table s))
    (reads : q.Reads c s st.table a r w) :
    Answers (q.dequeue c config s) ⟨st, k⟩ fun d t' => ∃ cells group',
      q.RowAnswer config (q.shows st.table s) c a r group w d cells t'.cursor.pending group' ∧
        q.Records c config s.writeVersion st.table cells group' t'.storage.table := by
  refine .of_eq (dequeue_of_unloaded (t := ⟨st, k⟩) valid member unloaded) ?_
  obtain ⟨seen, sight⟩ := readable.sight a
  obtain ⟨_, ⟨st₁, k₁⟩, loaded, ends⟩ :=
    @answers_load_of_sight q c config s st a r w k seen counts.reliable reads sight
  have calm : st₁.plan = .none := by
    have kept := (q.mirrored_load c config s).calm (t := ⟨st, k⟩) counts.reliable.1
    rwa [loaded] at kept
  refine .of_eq (bind_eq_of_ok loaded) ?_
  cases ends with
  | idle zero same =>
      refine (q.answers_onward_of_stored c config s [] none counts readable calm (fun _ => rfl) same).imp ?_
      rintro d t' ⟨cells, group', answer, records⟩
      exact ⟨cells, group', .idle zero answer, records⟩
  | again nonzero sight same => exact q.answers_proceed_again c config s counts calm nonzero sight same
  | waiting nonzero sight shared same =>
      have partitioner : config.partitioner = .roundRobin := by
        cases partitioner : config.partitioner with
        | hash => simp [partitioner, Partitioner.isDisjoint] at shared
        | roundRobin => rfl
      refine (q.answers_onward_of_stored c config s [] (some a) counts readable calm
        (fun hash => by cases hash.symm.trans partitioner) same).imp ?_
      rintro d t' ⟨cells, group', answer, records⟩
      have held : q.OnwardAnswer config (q.shows st.table s) c (some a) r group w .empty _ _ group :=
        .drawn partitioner (.claim (.held rfl) (by simp [sight])) (.waiting sight)
      obtain ⟨rfl, rfl, left, rfl⟩ := answer.unique held
      exact ⟨_, _, left ▸ .waiting nonzero sight shared, records⟩
  | cleared nonzero sight clears cleared =>
      refine (q.answers_onward_of_stored c config s [(.active, Bytes.ofUInt64 noEntry)] none counts readable
        calm (fun _ => rfl) cleared).imp ?_
      rintro d t' ⟨cells, group', answer, records⟩
      exact ⟨_, group', .cleared nonzero sight clears answer, records⟩

end Answer

theorem counts_of_run {allowed : List Event → Call → Prop} {past : List Event} (run : Run allowed past)
    (q : Queue) (c : Consumer) {w : EntryId}
    (stands : (w.toNat : Int) = (storageAfter past).table.standing (RowKey.entryCounter.encode q.name)) :
    q.Counts c { storageAfter past with plan := .none }
      ((storageAfter past).table.standing (q.seat c).groupRow) w.toNat :=
  ⟨⟨rfl, works_of_run run⟩, rfl, stands.symm, standing_nonneg run _, Int.natCast_nonneg _⟩

/-- The row of a consumer and the counters decide on what the consumer is answered when it comes without a
cursor, whichever configuration it comes with. -/
structure RowDecides (q : Queue) (c : Consumer) (s : Snapshot) (st : Storage)
    (active readPointer writePointer : EntryId) : Prop where
  reads : q.Reads c s st.table active readPointer writePointer
  answers (config : Config) : config.validate = .ok () → c.validate config.partitioner = .ok () →
    Answers (q.dequeue c config s) ⟨{ st with plan := .none }, .fresh⟩ fun d t' => ∃ cells group',
      q.RowAnswer config (q.shows st.table s) c active readPointer (st.table.standing (q.seat c).groupRow)
          writePointer d cells t'.cursor.pending group' ∧
        q.Records c config s.writeVersion st.table cells group' t'.storage.table

theorem rowDecides_of_run {past : List Event} {q : Queue} (run : Run Opened past) (opens : q.Opens)
    (c : Consumer) (s : Snapshot) : ∃ a r w, q.RowDecides c s (storageAfter past) a r w := by
  obtain ⟨a, r, w, reads⟩ := reads_of_run run opens c s
  exact ⟨a, r, w, reads, fun config valid member => q.answers_dequeue_row c config s valid member .fresh
    rfl (q.counts_of_run run c reads.writePointer) (readable_of_run run opens s) reads⟩

end Queue

end VersionedQueue
