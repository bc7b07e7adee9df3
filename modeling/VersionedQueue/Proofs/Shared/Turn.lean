import VersionedQueue.Proofs.Shared.Fetch
import VersionedQueue.Queue.Dequeue

/-!
# One request of a member of a shared group

A request answers from every footing.  It takes up the active entry of the row or the pending id of
the cursor, and claims from the pointer of its group until there is an entry to hand out, a claimed
id that is not visible, or nothing left to claim.
-/

set_option autoImplicit false
set_option relaxedAutoImplicit false

namespace VersionedQueue

/-- How a request of a member of a shared group begins if it does not hand out the active entry once
more: the active entry of the row and the pending id of the cursor when it fetches. -/
inductive SharedStart (queue : String) (past : List Event) (s : Snapshot) (active : EntryId)
    (cursor : Cursor) : EntryId → Option EntryId → Prop
  | kept : cursor.loaded = true → SharedStart queue past s active cursor active cursor.pending
  | idle : cursor.loaded = false → active = noEntry →
      SharedStart queue past s active cursor noEntry none
  | waiting : cursor.loaded = false → active ≠ noEntry →
      ¬ ShownAt past ⟨queue, active⟩ (s.sees ·) →
      SharedStart queue past s active cursor active (some active)
  | cleared : cursor.loaded = false → active ≠ noEntry →
      RetiredAt past ⟨queue, active⟩ (s.sees ·) →
      SharedStart queue past s active cursor noEntry none

/-- How a request of a member of a shared group ends: the delivery, the active entry afterwards, the
pointer of the group, and the id that is left pending. -/
inductive SharedTurn (queue : String) (past : List Event) (s : Snapshot) (highest group : Int)
    (active : EntryId) (cursor : Cursor) : Delivery → EntryId → Int → Option EntryId → Prop
  | again {entry : Entry} {v : Version} : cursor.loaded = false → active ≠ noEntry → s.sees v →
      Enqueued past ⟨queue, active⟩ entry v →
      SharedTurn queue past s highest group active cursor
        (.served ⟨queue, active⟩ ⟨entry.payload, {}⟩) active group none
  | fetched {a₀ id : EntryId} {p₀ : Option EntryId} {entry : Entry} {v : Version} {group' : Int} :
      SharedStart queue past s active cursor a₀ p₀ →
      Claimed queue past s p₀ group (some id) group' → s.sees v →
      Enqueued past ⟨queue, id⟩ entry v →
      SharedTurn queue past s highest group active cursor
        (.served ⟨queue, id⟩ ⟨entry.payload, {}⟩) id group' none
  | waiting {a₀ id : EntryId} {p₀ : Option EntryId} {group' : Int} :
      SharedStart queue past s active cursor a₀ p₀ →
      Claimed queue past s p₀ group (some id) group' → ¬ ShownAt past ⟨queue, id⟩ (s.sees ·) →
      SharedTurn queue past s highest group active cursor .empty id group' (some id)
  | caughtUp {a₀ : EntryId} {p₀ : Option EntryId} {group' : Int} :
      SharedStart queue past s active cursor a₀ p₀ →
      Claimed queue past s p₀ group none group' → highest ≤ group' →
      SharedTurn queue past s highest group active cursor .empty a₀ group' none

/-- Between two requests a cursor of a member of a shared group has nothing cached, and remembers no
more than the counter of entries. -/
def Cursor.AtRest (cursor : Cursor) (queue : String) (t : Table) : Prop :=
  cursor.cache = {} ∧
    (cursor.writePointer.toNat : Int) ≤ t.standing (RowKey.entryCounter.encode queue)

theorem Footing.of_counted {q : Queue} {c : Consumer} {s : Snapshot} {past : List Event}
    {a r : EntryId} {st st' : Storage} (h : Footing q c s past a r st) (reliable : st'.Reliable)
    (counted : Table.Counted (q.seat c).groupRow st.table st'.table) :
    Footing q c s past a r st' where
  reliable := reliable
  stored := h.stored.of_counted counted fun same =>
    RowKey.noConfusion (RowKey.encode_injective same)
  holds := h.holds.of_stored (by simp only [Table.stored, counted.history])
    (by simp only [Table.stored, counted.history])
  newest column w has := h.newest column w (by rwa [← counted.history])

theorem counters_of_touched_row {q : Queue} {c : Consumer} {v : Version} {t t' : Table}
    (touched : t.Touched (· = (q.seat c).row) v t') :
    t'.standing (q.seat c).groupRow = t.standing (q.seat c).groupRow ∧
      t'.standing (RowKey.entryCounter.encode q.name) =
        t.standing (RowKey.entryCounter.encode q.name) := by
  have kept (key : RowKey) (other : key ≠ Queue.consumerRow c) :
      t'.standing (key.encode q.name) = t.standing (key.encode q.name) := by
    rw [Table.standing, Table.standing, touched.counter]
    exact fun same => other (RowKey.encode_injective same)
  exact ⟨kept (.groupPointer c.group) (by simp [Queue.consumerRow]),
    kept .entryCounter (by simp [Queue.consumerRow])⟩

namespace Queue

variable (q : Queue) (c : Consumer) (config : Config) (s : Snapshot) {past : List Event}
  {a r : EntryId} {st : Storage}

/-- A request of a member of a shared group has answered: how it ended, what it stands on afterwards,
and which claims it can have written. -/
def SharedResult (q : Queue) (c : Consumer) (s : Snapshot) (past : List Event) (active : EntryId)
    (begun : Cursor) (t : Table) (delivery : Delivery) (t' : Turn) : Prop :=
  ∃ a' r', SharedTurn q.name past s (t.standing (RowKey.entryCounter.encode q.name))
      (t.standing (q.seat c).groupRow) active begun delivery a'
      (t'.storage.table.standing (q.seat c).groupRow) t'.cursor.pending ∧
    Footing q c s past a' r' t'.storage ∧ t'.cursor.loaded = true ∧
    t'.cursor.AtRest q.name t'.storage.table ∧
    ∀ id, delivery.pointer?.map (·.id) ≠ some id → t'.cursor.pending ≠ some id →
      t'.storage.table.claims (q.seat c) id = t.claims (q.seat c) id

theorem answers_claimed (shared : config.partitioner = .roundRobin) {active : EntryId}
    {begun : Cursor} (cursor : Cursor)
    (start : SharedStart q.name past s active begun a cursor.pending)
    (h : Footing q c s past a r st) (least : 0 ≤ st.table.standing (q.seat c).groupRow)
    (loaded : cursor.loaded = true) (rest : cursor.AtRest q.name st.table) :
    Answers (do q.refill c config s; q.handOut c config s) ⟨st, cursor⟩
      (q.SharedResult c s past active begun st.table) := by
  obtain ⟨cache, remembered⟩ := rest
  have empty : cursor.cache.entries = [] := by rw [cache]
  have refilled : q.refill c config s ⟨st, cursor⟩ = q.fetchShared c s ⟨st, cursor⟩ := by
    rw [q.refill_of_empty c config s empty, fetch, shared]
  refine ((q.answers_fetchShared c s ⟨st, cursor⟩ h.reliable h.stored least remembered
    cache).of_eq refilled).bind ?_
  rintro _ ⟨st₁, _⟩ ⟨works, counted, w, pending, entries, rfl, known, claimed, ends⟩
  refine (q.answers_handOut c config s _ (h.of_counted works counted)).imp ?_
  rintro delivery t' ⟨touched, handed⟩
  obtain ⟨group, kept⟩ := counters_of_touched_row touched
  have highest := kept.trans
    (counted.standing _ fun same => RowKey.noConfusion (RowKey.encode_injective same))
  have claims : ∀ id, st₁.table.claims (q.seat c) id = st.table.claims (q.seat c) id := fun id =>
    counted.history _ _
  have known : (w.toNat : Int) ≤ t'.storage.table.standing (RowKey.entryCounter.encode q.name) := by
    rw [highest]
    exact known
  unfold SharedResult
  rw [group]
  simp only at claimed
  generalize st₁.table.standing (q.seat c).groupRow = group' at ends claimed ⊢
  cases ends with
  | found seen appended =>
      obtain ⟨rfl, kept, footing, frame⟩ := handed
      have free : t'.cursor.pending = none := by simp [kept]
      rw [free]
      refine ⟨_, _, .fetched start claimed seen appended, footing, ?_, ?_, fun id unserved _ => ?_⟩
      · rw [kept]
        exact loaded
      · rw [Cursor.AtRest, kept]
        exact ⟨rfl, known⟩
      · refine (frame id fun same => ?_).trans (claims id)
        exact absurd (by simp [Delivery.pointer?, same]) unserved
  | waiting hidden =>
      obtain ⟨rfl, kept, footing, frame⟩ := handed
      rw [kept]
      exact ⟨_, _, .waiting start claimed hidden, footing, loaded, ⟨rfl, known⟩,
        fun id _ apart => (frame id apart).trans (claims id)⟩
  | caughtUp reached =>
      obtain ⟨rfl, kept, footing, frame⟩ := handed
      rw [kept]
      exact ⟨_, _, .caughtUp start claimed reached, footing, loaded, ⟨rfl, known⟩,
        fun id _ apart => (frame id apart).trans (claims id)⟩

private theorem answers_again {begun cursor : Cursor} {entry : Entry} {v : Version}
    (footing : Footing q c s past a r st) (fresh : begun.loaded = false) (some : a ≠ noEntry)
    (visible : s.sees v) (appended : Enqueued past ⟨q.name, a⟩ entry v)
    (loaded : cursor.loaded = true) (unclaimed : cursor.pending = none)
    (cached : cursor.cache = ⟨[⟨a, entry.payload⟩]⟩)
    (remembered : (cursor.writePointer.toNat : Int) ≤
      st.table.standing (RowKey.entryCounter.encode q.name)) :
    Answers (do q.refill c config s; q.handOut c config s) ⟨st, cursor⟩
      (q.SharedResult c s past a begun st.table) := by
  have next : cursor.cache.entries = [⟨a, entry.payload⟩] := by rw [cached]
  refine Answers.bind_of_ok (q.refill_of_cached c config s next) ?_
  refine (q.answers_handOut c config s _ footing).imp ?_
  rintro delivery t' ⟨touched, handed⟩
  rw [next] at handed
  obtain ⟨rfl, kept, footing', frame⟩ := handed
  obtain ⟨group, highest⟩ := counters_of_touched_row touched
  have free : t'.cursor.pending = none := by simp [kept, unclaimed]
  rw [SharedResult, free, group]
  refine ⟨_, _, .again fresh some visible appended, footing', ?_, ?_, fun id unserved _ => ?_⟩
  · rw [kept]
    exact loaded
  · rw [Cursor.AtRest, kept, highest]
    exact ⟨rfl, remembered⟩
  · exact frame id fun same => absurd (by simp [Delivery.pointer?, same]) unserved

private theorem answers_shared_resumed {a₁ w : EntryId} {begun cursor : Cursor}
    (shared : config.partitioner = .roundRobin) (footing : Footing q c s past a₁ r st)
    (least : 0 ≤ st.table.standing (q.seat c).groupRow)
    (remembered : (w.toNat : Int) ≤ st.table.standing (RowKey.entryCounter.encode q.name))
    (fresh : begun.loaded = false)
    (resumed : Resumed past q.name s config.partitioner a r w a₁ cursor) :
    Answers (do q.refill c config s; q.handOut c config s) ⟨st, cursor⟩
      (q.SharedResult c s past a begun st.table) := by
  cases resumed with
  | idle none =>
      exact q.answers_claimed c config s shared _ (.idle fresh none) footing least rfl
        ⟨rfl, remembered⟩
  | again some visible appended =>
      exact q.answers_again c config s footing fresh some visible appended rfl rfl rfl remembered
  | waiting some _ hidden =>
      exact q.answers_claimed c config s shared _ (.waiting fresh some hidden) footing least rfl
        ⟨rfl, remembered⟩
  | cleared some why =>
      have retired : RetiredAt past ⟨q.name, a⟩ (s.sees ·) := by
        rcases why with retired | ⟨disjoint, _⟩
        · exact retired
        · simp [shared, Partitioner.isDisjoint] at disjoint
      exact q.answers_claimed c config s shared _ (.cleared fresh some retired) footing least rfl
        ⟨rfl, remembered⟩

/-- A request of a member of a shared group answers, as `SharedTurn` describes. -/
theorem answers_shared (shared : config.partitioner = .roundRobin)
    (valid : config.validate = .ok ()) (member : c.validate config.partitioner = .ok ())
    (cursor : Cursor) (h : Footing q c s past a r st) (seen : st.table.RowSeen (q.seat c).row s)
    (least : 0 ≤ st.table.standing (q.seat c).groupRow)
    (rest : cursor.loaded = true → cursor.AtRest q.name st.table) :
    Answers (q.dequeue c config s) ⟨st, cursor⟩ (q.SharedResult c s past a cursor st.table) := by
  unfold dequeue
  refine Answers.ofExcept_bind valid (Answers.ofExcept_bind member ?_)
  cases loaded : cursor.loaded with
  | true =>
      refine Answers.bind_of_ok (q.ensureLoaded_of_loaded c config s loaded) ?_
      exact q.answers_claimed c config s shared cursor (.kept loaded) h least loaded (rest loaded)
  | false =>
      refine ((q.answers_load c config s cursor h seen).of_eq
        (q.ensureLoaded_of_unloaded c config s loaded)).bind ?_
      rintro _ ⟨st₁, _⟩ ⟨a₁, w, stands, resumed, footing, touched, claims⟩
      -- Loading writes the row at most, so both counters are where the request found them.
      obtain ⟨group, highest⟩ := counters_of_touched_row touched
      rw [← group] at least
      have remembered : (w.toNat : Int) ≤
          st₁.table.standing (RowKey.entryCounter.encode q.name) := by
        rw [highest]
        exact Int.le_of_eq stands
      refine (q.answers_shared_resumed c config s shared footing least remembered loaded
        resumed).imp fun _ _ ended => ?_
      simpa only [SharedResult, group, highest, claims] using ended

end Queue

end VersionedQueue
