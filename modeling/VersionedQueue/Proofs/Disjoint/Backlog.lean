import VersionedQueue.Proofs.Disjoint.IdlePolls
import VersionedQueue.Proofs.Disjoint.Tiling

/-!
# What it costs to pass over a backlog

A member of a disjoint group may have entries before it of which none falls to it.  Where all of them are
shown, its fetch is the walk to the write pointer: one pass and one read for each window.  So the number of
reads is the length of the backlog, divided by the span of a window and rounded up, and is not to be paid
again: the cursor is left at the write pointer.
-/

set_option autoImplicit false
set_option relaxedAutoImplicit false

namespace VersionedQueue

variable {q : Queue} {c : Consumer} {config : Config} {s : Snapshot} {t : Turn}

namespace Queue

/-- A view shows all ids behind an id up to another, and none of them falls to a member. -/
structure Foreign (q : Queue) (view : QueueView) (c : Consumer) (before last : EntryId) : Prop where
  shown : ∀ id, before < id → id ≤ last → view (.entry id) .state ≠ none
  apart : ∀ id, before < id → id ≤ last → ¬ q.FallsTo view c id

theorem Foreign.within {view : QueueView} {before before' last last' : EntryId}
    (h : q.Foreign view c before last) (later : before ≤ before') (earlier : last' ≤ last) :
    q.Foreign view c before' last' where
  shown id beyond inside :=
    h.shown id (UInt64.lt_of_le_of_lt later beyond) (UInt64.le_trans inside earlier)
  apart id beyond inside :=
    h.apart id (UInt64.lt_of_le_of_lt later beyond) (UInt64.le_trans inside earlier)

theorem Readable.scanHeaders_of_foreign {view : QueueView} {ids : List EntryId}
    (readable : q.Readable view) (shown : ∀ id ∈ ids, view (.entry id) .state ≠ none)
    (apart : ∀ id ∈ ids, ¬ q.FallsTo view c id) :
    ∃ scan, q.scanHeaders view c.headerKey ids = .ok scan ∧ owned c .hash scan = [] ∧
      scan.firstUnseen = none := by
  obtain ⟨scan, found, rest, scanned, split, _, listed, hashes, stop, blocked⟩ :=
    readable.scanHeaders c.headerKey ids
  refine ⟨scan, scanned, List.eq_nil_iff_forall_not_mem.2 fun id mem => ?_, ?_⟩
  · obtain ⟨here, falls⟩ := (mem_owned hashes).1 mem
    rw [listed] at here
    exact apart id (split ▸ List.mem_append_left rest here) falls
  · cases head : rest.head? with
    | none => exact stop.trans head
    | some id =>
        have inside : id ∈ ids := split ▸ List.mem_append_right found (List.mem_of_head? head)
        exact absurd (blocked id head) (shown id inside)

theorem answers_disjointPass_of_foreign {w : Window} (hash : config.partitioner = .hash)
    (calm : t.storage.plan = .none) (readable : q.Readable (q.shows t.storage.table s))
    (window : Window.after t.cursor.readPointer config.effectiveBatchSize c.groupSize
      t.cursor.writePointer = some w)
    (foreign : q.Foreign (q.shows t.storage.table s) c t.cursor.readPointer w.last) :
    Answers (q.disjointPass c config s) t fun pass t' => pass = .passed ∧
      t' = ⟨{ t.storage with calls := t.storage.calls.add .get },
        { t.cursor with readPointer := w.last }⟩ := by
  obtain ⟨behind, _⟩ := Window.after_spec window
  obtain ⟨beyond, nonempty, _⟩ := Window.after_bounds window
  have inside {id : EntryId} (mem : id ∈ w.ids) := (Window.mem_ids_of_after window).1 mem
  obtain ⟨scan, scanned, nothing, openEnd⟩ := readable.scanHeaders_of_foreign
    (fun id mem => foreign.shown id (inside mem).1 (inside mem).2)
    fun id mem => foreign.apart id (inside mem).1 (inside mem).2
  have viewed := q.view_eq .readHeaders s t.storage
  rw [if_neg (by rw [calm]; nofun)] at viewed
  have read : Answers (q.readHeaders w.ids c.headerKey s) t.storage fun found st' =>
      found = scan ∧ st' = { t.storage with calls := t.storage.calls.add .get } :=
    .bind_of_ok viewed (.ofExcept scanned ⟨rfl, rfl⟩)
  have current : Window.isCaughtUp t.cursor.readPointer t.cursor.writePointer = false := by
    simpa [Window.isCaughtUp] using behind
  unfold disjointPass
  apply Turn.answers_cursorNow
  rw [current]
  refine Answers.bind_of_ok (rfl : q.refreshIf false t = .ok () t) ?_
  apply Turn.answers_cursorNow
  rw [window]
  unfold scanWindow
  refine (Turn.answers_onStorage read).bind ?_
  rintro _ ⟨_, _⟩ ⟨⟨rfl, rfl⟩, rfl⟩
  simp only [hash, nothing, openEnd, List.getLast?_nil]
  apply Turn.answers_update
  refine Answers.pure ⟨rfl, ?_⟩
  rw [Cursor.advance_of_le (UInt64.le_of_lt (UInt64.lt_of_lt_of_le beyond nonempty))]

/-- Where nothing falls to the member and all ids are shown, fetching is the walk, by induction on it: it
reads once for each window, and leaves a cursor at its end. -/
theorem answers_fetchDisjoint_of_walk {before writePointer : EntryId} {ws : List Window}
    (hash : config.partitioner = .hash)
    (walk : Window.Walk config.effectiveBatchSize c.groupSize writePointer before ws)
    (loaded : t.cursor.loaded = true) (spent : t.cursor.cache.entries = [])
    (starts : t.cursor.readPointer = before) (known : t.cursor.writePointer = writePointer)
    (reliable : t.storage.Reliable) (readable : q.Readable (q.shows t.storage.table s))
    (stands : (writePointer.toNat : Int) =
      t.storage.table.standing (RowKey.entryCounter.encode q.name))
    (foreign : q.Foreign (q.shows t.storage.table s) c before writePointer) :
    Answers (q.fetchDisjoint c config s) t fun _ t' => t.storage.Alike t'.storage ∧
      t'.storage.calls.gets = t.storage.calls.gets + ws.length ∧
      t'.cursor.AtEnd writePointer := by
  have repeats := q.repeats_fetchDisjoint c config s
  induction walk generalizing t with
  | caughtUp none =>
      subst starts known
      have reached := Window.after_eq_none_iff.1 none
      have atEnd : t.cursor.AtEnd t.cursor.writePointer := ⟨loaded, spent, reached, reached⟩
      obtain ⟨_, t', done, rfl, idles⟩ := (q.ends_disjointPass_of_atEnd c config s atEnd
        stands).answers fun _ _ failed => failed.2 reliable
      exact ⟨(), t', repeats.exhausted done, idles.same, idles.gets, idles.atEnd⟩
  | @next before w rest window _ ih =>
      subst starts known
      obtain ⟨beyond, nonempty, inside⟩ := Window.after_bounds window
      have forward := UInt64.le_of_lt (UInt64.lt_of_lt_of_le beyond nonempty)
      obtain ⟨_, t₁, done, rfl, rfl⟩ := answers_disjointPass_of_foreign hash reliable.1 readable
        window (foreign.within (UInt64.le_refl _) inside)
      obtain ⟨u, t', fetched, same, read, atEnd⟩ := @ih
        ⟨{ t.storage with calls := t.storage.calls.add .get },
          { t.cursor with readPointer := w.last }⟩
        loaded spent rfl rfl reliable readable stands (foreign.within forward (UInt64.le_refl _))
      refine ⟨u, t', (repeats.passed done).trans fetched, same, ?_, atEnd⟩
      rw [read, List.length_cons]
      change t.storage.calls.gets + 1 + rest.length = _
      omega

theorem answers_dequeue_of_backlog (hash : config.partitioner = .hash) (valid : config.validate = .ok ())
    (member : c.validate config.partitioner = .ok ()) (loaded : t.cursor.loaded = true)
    (spent : t.cursor.cache.entries = []) (reliable : t.storage.Reliable)
    (readable : q.Readable (q.shows t.storage.table s))
    (stands : (t.cursor.writePointer.toNat : Int) =
      t.storage.table.standing (RowKey.entryCounter.encode q.name))
    (foreign : q.Foreign (q.shows t.storage.table s) c t.cursor.readPointer t.cursor.writePointer) :
    Answers (q.dequeue c config s) t fun d t' => d = .empty ∧
      t'.storage.calls.gets = t.storage.calls.gets +
        (t.cursor.writePointer.toNat - t.cursor.readPointer.toNat +
          ((Window.span config.effectiveBatchSize c.groupSize).toNat - 1)) /
            (Window.span config.effectiveBatchSize c.groupSize).toNat ∧
      t'.cursor.AtEnd t.cursor.writePointer := by
  obtain ⟨ws, walk⟩ := Window.exists_walk config.effectiveBatchSize c.groupSize
    t.cursor.writePointer t.cursor.readPointer
  rw [← walk.length_eq]
  have fetches : Answers (q.refill c config s) t fun _ u => t.storage.Alike u.storage ∧
      u.storage.calls.gets = t.storage.calls.gets + ws.length ∧
      u.cursor.AtEnd t.cursor.writePointer := by
    refine .of_eq (q.refill_of_empty c config s spent) ?_
    simp only [fetch, hash]
    exact answers_fetchDisjoint_of_walk hash walk loaded spent rfl rfl reliable readable stands foreign
  refine .of_eq (dequeue_of_loaded valid member loaded) (fetches.bind ?_)
  rintro _ u ⟨same, read, atEnd⟩
  obtain ⟨t', handed⟩ := @exists_handOut_nothing q c config s u (reliable.of_alike same).1 atEnd.spent
  have unread := ((q.keeps_unread_handOut c config s).ends u).of_ok handed
  obtain ⟨_, kept, _⟩ := (ends_handOut_nothing atEnd.spent).of_ok handed
  exact ⟨_, t', handed, rfl, unread.trans read, kept ▸ atEnd⟩

end Queue

end VersionedQueue
