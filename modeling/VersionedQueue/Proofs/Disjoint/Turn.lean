import VersionedQueue.Proofs.Disjoint.Fetch
import VersionedQueue.Queue.Dequeue

/-!
# One request of a member of a disjoint group

A request answers from every footing: it hands out the active entry again, or an entry left in the
cache, or one that it has fetched, or finds nothing.  In each case the row and the cursor agree on
the read pointer afterwards.
-/

set_option autoImplicit false
set_option relaxedAutoImplicit false

namespace VersionedQueue

/-- The active entry of a row cannot be served again under a snapshot. -/
def Gone (queue : String) (past : List Event) (s : Snapshot) (active : EntryId) : Prop :=
  active = noEntry ∨ RetiredAt past ⟨queue, active⟩ (s.sees ·) ∨
    ¬ ShownAt past ⟨queue, active⟩ (s.sees ·)

/-- How a request of a member of a disjoint group ends, from a row with an active entry and a read
pointer: the delivery, the active entry and the read pointer afterwards, and what is left in the
cache. -/
inductive DisjointTurn (queue : String) (share : Share) (past : List Event) (s : Snapshot)
    (writePointer active readPointer : EntryId) (cursor : Cursor) :
    Delivery → EntryId → EntryId → List CachedEntry → Prop
  | again {entry : Entry} {v : Version} : cursor.loaded = false → active ≠ noEntry → s.sees v →
      Enqueued past ⟨queue, active⟩ entry v →
      DisjointTurn queue share past s writePointer active readPointer cursor
        (.served ⟨queue, active⟩ ⟨entry.payload, {}⟩) active
        (if readPointer ≤ active then active else readPointer) []
  | cached {entry : CachedEntry} {rest : List CachedEntry} : cursor.loaded = true →
      cursor.cache.entries = entry :: rest →
      DisjointTurn queue share past s writePointer active readPointer cursor
        (.served ⟨queue, entry.id⟩ ⟨entry.payload, {}⟩) entry.id
        (if readPointer ≤ entry.id then entry.id else readPointer) rest
  | fetched {entry : CachedEntry} {rest : List CachedEntry} {after : EntryId} :
      (cursor.loaded = false → Gone queue past s active) →
      (cursor.loaded = true → cursor.cache.entries = []) →
      FetchEnds queue share past s writePointer readPointer (entry :: rest) after →
      DisjointTurn queue share past s writePointer active readPointer cursor
        (.served ⟨queue, entry.id⟩ ⟨entry.payload, {}⟩) entry.id entry.id rest
  | nothing {after : EntryId} : (cursor.loaded = false → Gone queue past s active) →
      (cursor.loaded = true → cursor.cache.entries = []) →
      FetchEnds queue share past s writePointer readPointer [] after →
      DisjointTurn queue share past s writePointer active readPointer cursor
        .empty (if cursor.loaded then active else noEntry) after []

namespace Queue

variable (q : Queue) (c : Consumer) (config : Config) (s : Snapshot) {past : List Event}
  {a r : EntryId} {st : Storage}

/-- A request of a member of a disjoint group has answered: how it ended, and what it stands on
afterwards. -/
def DisjointResult (q : Queue) (c : Consumer) (s : Snapshot) (past : List Event)
    (writePointer active readPointer : EntryId) (begun : Cursor) (delivery : Delivery)
    (t' : Turn) : Prop :=
  ∃ a' r' rest,
    DisjointTurn q.name c.share past s writePointer active readPointer begun delivery a' r' rest ∧
      Footing q c s past a' r' t'.storage ∧ t'.cursor.loaded = true ∧
      t'.cursor.readPointer = r' ∧ t'.cursor.pending = none ∧ t'.cursor.cache = ⟨rest⟩

private theorem answers_fetched {writePointer active : EntryId} {begun : Cursor}
    (hash : config.partitioner = .hash) (cursor : Cursor) (h : Footing q c s past a r st)
    (stands : (writePointer.toNat : Int) = st.table.standing (RowKey.entryCounter.encode q.name))
    (loaded : cursor.loaded = true) (reads : cursor.readPointer = r)
    (unclaimed : cursor.pending = none) (empty : cursor.cache = {})
    (gone : begun.loaded = false → Gone q.name past s active)
    (drained : begun.loaded = true → begun.cache.entries = [])
    (left : a = if begun.loaded then active else noEntry) :
    Answers (do q.refill c config s; q.handOut c config s) ⟨st, cursor⟩
      (q.DisjointResult c s past writePointer active r begun) := by
  have refilled : q.refill c config s ⟨st, cursor⟩ = q.fetchDisjoint c config s ⟨st, cursor⟩ := by
    rw [q.refill_of_empty c config s (by rw [empty]), fetch, hash]
  refine ((q.answers_fetchDisjoint c config s hash ⟨st, cursor⟩ h.reliable h.stored stands
    empty).of_eq refilled).bind ?_
  rintro _ ⟨st₁, _⟩ ⟨same, entries, after, w, rfl, ends⟩
  refine (q.answers_handOut c config s _ (h.of_alike same)).imp ?_
  rintro delivery t' ⟨_, handed⟩
  subst reads
  cases entries with
  | nil =>
      obtain ⟨rfl, kept, footing, _⟩ := handed
      rw [unclaimed, left] at footing
      refine ⟨_, after, [], .nothing gone drained ends, footing, ?_⟩
      rw [kept]
      exact ⟨loaded, rfl, unclaimed, rfl⟩
  | cons entry rest =>
      obtain ⟨rfl, kept, footing, _⟩ := handed
      have forward : after ≤ entry.id := by
        cases ends with
        | found _ _ found => exact UInt64.le_of_lt (found.after entry List.mem_cons_self)
      rw [Cursor.advance_of_le forward] at footing kept
      refine ⟨entry.id, entry.id, rest, .fetched gone drained ends, footing, ?_⟩
      rw [kept]
      exact ⟨loaded, rfl, by simp [unclaimed], rfl⟩

private theorem answers_disjoint_loaded {writePointer : EntryId}
    (hash : config.partitioner = .hash) (cursor : Cursor) (h : Footing q c s past a r st)
    (stands : (writePointer.toNat : Int) = st.table.standing (RowKey.entryCounter.encode q.name))
    (loaded : cursor.loaded = true) (reads : cursor.readPointer = r)
    (unclaimed : cursor.pending = none) :
    Answers (do q.refill c config s; q.handOut c config s) ⟨st, cursor⟩
      (q.DisjointResult c s past writePointer a r cursor) := by
  cases left : cursor.cache.entries with
  | nil =>
      have empty : cursor.cache = {} := congrArg Cache.mk left
      exact q.answers_fetched c config s hash cursor h stands loaded reads unclaimed empty
        (by simp [loaded]) (fun _ => left) (by simp [loaded])
  | cons entry rest =>
      refine Answers.bind_of_ok (q.refill_of_cached c config s left) ?_
      refine (q.answers_handOut c config s cursor h).imp ?_
      rintro delivery t' ⟨_, handed⟩
      rw [left] at handed
      obtain ⟨rfl, still, footing, _⟩ := handed
      subst reads
      refine ⟨entry.id, _, rest, .cached loaded left, footing, ?_⟩
      rw [still]
      exact ⟨loaded, rfl, by simp [unclaimed], rfl⟩

private theorem answers_disjoint_resumed {writePointer a₁ w : EntryId} {begun cursor : Cursor}
    (hash : config.partitioner = .hash) (footing : Footing q c s past a₁ r st)
    (stands : (writePointer.toNat : Int) = st.table.standing (RowKey.entryCounter.encode q.name))
    (fresh : begun.loaded = false)
    (resumed : Resumed past q.name s config.partitioner a r w a₁ cursor) :
    Answers (do q.refill c config s; q.handOut c config s) ⟨st, cursor⟩
      (q.DisjointResult c s past writePointer a r begun) := by
  cases resumed with
  | idle none =>
      exact q.answers_fetched c config s hash _ footing stands rfl rfl rfl rfl (fun _ => .inl none)
        (by simp [fresh]) (by simp [fresh])
  | @again entry v some visible appended =>
      refine Answers.bind_of_ok (q.refill_of_cached c config s rfl) ?_
      refine (q.answers_handOut c config s _ footing).imp ?_
      rintro delivery t' ⟨_, rfl, still, footing', _⟩
      refine ⟨a, _, [], .again fresh some visible appended, footing', ?_⟩
      rw [still]
      exact ⟨rfl, rfl, rfl, rfl⟩
  | waiting _ shared _ => simp [hash, Partitioner.isDisjoint] at shared
  | cleared some why =>
      exact q.answers_fetched c config s hash _ footing stands rfl rfl rfl rfl
        (fun _ => .inr (why.imp id And.right)) (by simp [fresh]) (by simp [fresh])

/-- A request of a member of a disjoint group answers, as `DisjointTurn` describes. -/
theorem answers_disjoint {writePointer : EntryId} (hash : config.partitioner = .hash)
    (valid : config.validate = .ok ()) (member : c.validate config.partitioner = .ok ())
    (cursor : Cursor) (h : Footing q c s past a r st) (seen : st.table.RowSeen (q.seat c).row s)
    (stands : (writePointer.toNat : Int) = st.table.standing (RowKey.entryCounter.encode q.name))
    (kept : cursor.loaded = true → cursor.readPointer = r ∧ cursor.pending = none) :
    Answers (q.dequeue c config s) ⟨st, cursor⟩
      (q.DisjointResult c s past writePointer a r cursor) := by
  unfold dequeue
  refine Answers.ofExcept_bind valid (Answers.ofExcept_bind member ?_)
  cases loaded : cursor.loaded with
  | true =>
      obtain ⟨reads, unclaimed⟩ := kept loaded
      refine Answers.bind_of_ok (q.ensureLoaded_of_loaded c config s loaded) ?_
      exact q.answers_disjoint_loaded c config s hash cursor h stands loaded reads unclaimed
  | false =>
      refine ((q.answers_load c config s cursor h seen).of_eq
        (q.ensureLoaded_of_unloaded c config s loaded)).bind ?_
      rintro _ ⟨st₁, _⟩ ⟨a₁, w, _, resumed, footing, touched, _⟩
      have stands₁ : (writePointer.toNat : Int) =
          st₁.table.standing (RowKey.entryCounter.encode q.name) := by
        rw [stands, Table.standing, Table.standing, touched.counter]
        exact fun same => RowKey.noConfusion (RowKey.encode_injective same)
      exact q.answers_disjoint_resumed c config s hash footing stands₁ loaded resumed

end Queue

end VersionedQueue
