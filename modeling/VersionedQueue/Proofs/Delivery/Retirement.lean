import VersionedQueue.Proofs.Delivery.Payload
import VersionedQueue.Proofs.Delivery.Retry

/-!
# How a retired entry is still handed out

Every way to an entry that reads its row notices that it was retired: fetching it, loading the row that
has it as active, taking up a claim.  What waits in the cache of a cursor is not read again.  So under a
snapshot that sees the retirement an entry is handed out if and only if it is next in the cache of the
cursor that the request was passed, and it came there under a snapshot that did not see the retirement.
-/

set_option autoImplicit false
set_option relaxedAutoImplicit false

namespace VersionedQueue

/-- An entry was retired at a version not below its own. -/
def Withdrawn (past : List Event) (p : Pointer) (v : Version) : Prop :=
  ∃ newer r earlier entry w, past = newer ++ r :: earlier ∧ r.Retires p v ∧
    Enqueued earlier p entry w ∧ w ≤ v

section Log

variable {past : List Event} {p : Pointer} {v : Version} {s : Snapshot}

theorem Enqueued.same_version {allowed : List Event → Call → Prop} {entry entry' : Entry} {v' : Version}
    (appended : Enqueued past p entry v) (again : Enqueued past p entry' v') (run : Run allowed past) :
    v = v' := by
  obtain ⟨d, only, asked, _⟩ := appended.only run
  obtain ⟨d', only', asked', _⟩ := again.only run
  obtain rfl : d = d' := List.singleton_inj.1 (only.symm.trans only')
  cases asked.symm.trans asked'
  rfl

theorem Withdrawn.marked (withdrawn : Withdrawn past p v) : (v, Mark.retired) ∈ entryLog past p := by
  obtain ⟨newer, r, earlier, _, _, rfl, retires, _⟩ := withdrawn
  exact logged_of_invalidated ⟨r, by simp, retires⟩

/-- What a log has at versions from a retirement on are no appends. -/
theorem Withdrawn.not_appended {entry : Entry} {u : Version} (run : Run Opened past)
    (withdrawn : Withdrawn past p v) (above : v ≤ u) :
    (entryLog past p).lookup u ≠ some (.appended entry) := by
  intro last
  obtain ⟨newer, r, earlier, entry', w, rfl, retires, appended, below⟩ := withdrawn
  have before : Run Opened earlier :=
    (run.of_suffix (List.suffix_append newer _)).of_suffix (List.suffix_cons r earlier)
  obtain ⟨d, mem, _, takes⟩ := appended.takes before
  -- The entry was appended before it was retired, and so it was not appended since.
  have since : ¬ Enqueued (newer ++ [r]) p entry u :=
    not_enqueued_again (by simpa using run) (allocated_le before mem takes)
  rw [List.append_cons, entryLog_append, List.lookup_append] at last
  cases late : (entryLog (newer ++ [r]) p).lookup u with
  | some mark =>
      rw [late] at last
      cases last
      exact since (enqueued_iff_logged.2 (EntryLog.mem_of_lookup late))
  | none =>
      rw [late] at last
      obtain rfl : w = u :=
        appended.same_version (enqueued_iff_logged.2 (EntryLog.mem_of_lookup last)) before
      obtain rfl : w = v := UInt64.le_antisymm below above
      have retired : (w, Mark.retired) ∈ entryLog (newer ++ [r]) p :=
        logged_of_invalidated ⟨r, by simp, retires⟩
      exact EntryLog.lookup_ne_none retired late

theorem Withdrawn.sighting (run : Run Opened past) (withdrawn : Withdrawn past p v)
    (seen : s.sees v = true) : (entryLog past p).sighting s = .retired := by
  unfold EntryLog.sighting
  cases newest : (entryLog past p).newest? s with
  | none =>
      have unseen := EntryLog.newest?_eq_none.1 newest _ withdrawn.marked
      simp [seen] at unseen
  | some top =>
      obtain ⟨u, mark⟩ := top
      obtain ⟨_, last, greatest⟩ := EntryLog.newest?_spec newest
      cases mark with
      | retired => rfl
      | appended entry =>
          exact absurd last (withdrawn.not_appended run (greatest _ withdrawn.marked seen))

end Log

section Served

variable {past : List Event} {e : Event} {c : Consumer} {config : Config} {cursor : Cursor}
  {s : Snapshot} {id : EntryId} {v : Version}

theorem Queue.served_next_iff {q : Queue} {t : Turn} {entry : CachedEntry} {rest : List CachedEntry}
    (valid : config.validate = .ok ()) (member : c.validate config.partitioner = .ok ())
    (loaded : t.cursor.loaded = true) (next : t.cursor.cache.entries = entry :: rest) :
    (∃ u, q.dequeue c config s t = .ok (.served ⟨q.name, entry.id⟩ ⟨entry.payload, {}⟩) u) ↔
      t.storage.plan .put t.storage.calls.puts = false := by
  have goes : q.proceed c config s t = q.handOut c config s t :=
    bind_eq_of_ok (q.refill_of_cached c config s next)
  rw [dequeue_of_loaded valid member loaded, goes]
  exact handOut_next_iff next

private theorem next_of_served (run : Run Opened (e :: past))
    (asked : e.call.request = .dequeue c config cursor s)
    (retired : (entryLog past ⟨e.call.queue.name, id⟩).sighting s = .retired) {x : Entry}
    (served : e.delivery? = some (.served ⟨e.call.queue.name, id⟩ x)) :
    config.validate = .ok () ∧ c.validate config.partitioner = .ok () ∧ cursor.loaded = true ∧
      cursor.cache.entries.head?.map (·.id) = some id ∧
        e.call.plan .put e.before.calls.puts = false := by
  obtain ⟨earlier, opens, found⟩ := Run.cons_iff.1 run
  obtain ⟨u, done⟩ := (Event.delivered_iff asked).1 served
  obtain ⟨valid, member⟩ := Queue.valid_of_dequeue done
  obtain ⟨_, serves⟩ := Event.sources earlier opens found asked
  obtain ⟨entry, same, rfl, next | ⟨_, shown⟩⟩ := serves _ served _ _ rfl
  · cases same
    cases loaded : cursor.loaded with
    | false => simp [Cursor.passed_of_unloaded loaded] at next
    | true =>
        rw [Cursor.passed_of_loaded loaded] at next
        obtain ⟨rest, cached⟩ := List.head?_eq_some_iff.1 next
        have stores := (Queue.served_next_iff (t := ⟨{ e.before with plan := e.call.plan }, cursor⟩)
          valid member loaded cached).1 ⟨u, done⟩
        exact ⟨valid, member, rfl, by rw [next]; rfl, stores⟩
  · cases same
    rw [LogShows, retired] at shown
    cases shown

private theorem served_of_next (asked : e.call.request = .dequeue c config cursor s)
    (valid : config.validate = .ok ()) (member : c.validate config.partitioner = .ok ())
    (loaded : cursor.loaded = true) (next : cursor.cache.entries.head?.map (·.id) = some id)
    (stores : e.call.plan .put e.before.calls.puts = false) :
    ∃ x, e.delivery? = some (.served ⟨e.call.queue.name, id⟩ x) := by
  obtain ⟨entry, head, rfl⟩ := Option.map_eq_some_iff.1 next
  obtain ⟨rest, cached⟩ := List.head?_eq_some_iff.1 head
  exact ⟨_, (Event.delivered_iff asked).2 ((Queue.served_next_iff
    (t := ⟨{ e.before with plan := e.call.plan }, cursor⟩) valid member loaded cached).2 stores)⟩

private theorem fetched_unretired (run : Run Retaining (e :: past))
    (asked : e.call.request = .dequeue c config cursor s) (loaded : cursor.loaded = true)
    {entry : CachedEntry} (mem : entry ∈ cursor.cache.entries) :
    ∃ d earlier c' config' cursor' s', d :: earlier <:+ past ∧
      d.call.queue.name = e.call.queue.name ∧ d.call.request = .dequeue c' config' cursor' s' ∧
        config'.partitioner = .hash ∧
          ∀ v, s'.sees v = true → ¬ Withdrawn earlier ⟨e.call.queue.name, entry.id⟩ v := by
  obtain ⟨before, retaining, _⟩ := Run.cons_iff.1 run
  obtain ⟨d, earlier, c', config', cursor', s', part, here, asked', disjoint, shown⟩ :=
    (leftFetched_of_run before).passed retaining asked entry
      (by rwa [Cursor.passed_of_loaded loaded])
  refine ⟨d, earlier, c', config', cursor', s', part, here, asked', disjoint, fun v seen withdrawn => ?_⟩
  have opened : Run Opened earlier :=
    (before.opened_of_retaining.of_suffix part).of_suffix (List.suffix_cons d earlier)
  rw [LogShows, withdrawn.sighting opened seen] at shown
  cases shown

/-- A retired entry is handed to a snapshot that sees the retirement if and only if it is next in the
cache of the loaded cursor that the request was passed, and the storage takes what the request stores.
Where cursors come from earlier requests, all copies of the entry in caches were fetched by members of
disjoint groups under snapshots that did not see a retirement of it at that time. -/
theorem withdrawn_served_iff (run : Run Opened (e :: past))
    (asked : e.call.request = .dequeue c config cursor s)
    (withdrawn : Withdrawn past ⟨e.call.queue.name, id⟩ v) (seen : s.sees v = true) :
    ((∃ x, e.delivery? = some (.served ⟨e.call.queue.name, id⟩ x)) ↔
      config.validate = .ok () ∧ c.validate config.partitioner = .ok () ∧ cursor.loaded = true ∧
        cursor.cache.entries.head?.map (·.id) = some id ∧
          e.call.plan .put e.before.calls.puts = false) ∧
    (Run Retaining (e :: past) → cursor.loaded = true → ∀ entry ∈ cursor.cache.entries, entry.id = id →
      ∃ d earlier c' config' cursor' s', d :: earlier <:+ past ∧
        d.call.queue.name = e.call.queue.name ∧ d.call.request = .dequeue c' config' cursor' s' ∧
          config'.partitioner = .hash ∧
            ∀ v', s'.sees v' = true → ¬ Withdrawn earlier ⟨e.call.queue.name, id⟩ v') := by
  have retired := withdrawn.sighting (Run.cons_iff.1 run).1 seen
  refine ⟨⟨?_, ?_⟩, ?_⟩
  · rintro ⟨x, served⟩
    exact next_of_served run asked retired served
  · rintro ⟨valid, member, loaded, next, stores⟩
    exact served_of_next asked valid member loaded next stores
  · rintro retaining loaded entry mem rfl
    exact fetched_unretired retaining asked loaded mem

/-- A member is left with the second entry in its cache, and then the entry is retired. -/
def stale : List Call :=
  ⟨⟨"q", ⟨.hash, 20⟩⟩, .invalidate ⟨"q", 2⟩ 4, .none⟩ :: asking .fresh .none :: stocked

private theorem stale_run : Run Retaining (replay (asking secondLeft .none :: stale)) := by
  have opens : Queue.Opens ⟨"q", ⟨.hash, 20⟩⟩ := rfl
  refine .replay_cons (.replay_cons asked_run (.of_other opens rfl)) ⟨opens, ?_⟩
  rintro _ _ _ _ ⟨⟩
  exact .inr ⟨_, List.mem_cons_of_mem _ List.mem_cons_self, ⟨"q", 1, 0⟩, rfl, left_second⟩

/-- The member is handed the retired entry, which it had fetched before under a snapshot that saw no
retirement. -/
theorem stale_served :
    (∃ x, Event.delivery? ⟨asking secondLeft .none, storageAfter (replay stale)⟩ =
      some (.served ⟨"q", 2⟩ x)) ∧ Withdrawn (replay stale) ⟨"q", 2⟩ 4 ∧
    ∃ d earlier c' config' cursor' s', d :: earlier <:+ replay stale ∧ d.call.queue.name = "q" ∧
      d.call.request = .dequeue c' config' cursor' s' ∧ config'.partitioner = .hash ∧
        ∀ v', s'.sees v' = true → ¬ Withdrawn earlier ⟨"q", 2⟩ v' := by
  have appended : Enqueued (replay (asking .fresh .none :: stocked)) ⟨"q", 2⟩ _ 2 :=
    ⟨_, List.mem_of_getElem? (i := 2) rfl, rfl, by with_unfolding_all decide⟩
  have withdrawn : Withdrawn (replay stale) ⟨"q", 2⟩ 4 :=
    ⟨[], _, _, _, 2, rfl, ⟨rfl, by with_unfolding_all decide⟩, appended, by decide⟩
  obtain ⟨served, fetched⟩ := @withdrawn_served_iff (replay stale)
    ⟨asking secondLeft .none, storageAfter (replay stale)⟩ _ _ _ _ 2 4 stale_run.opened_of_retaining rfl
    withdrawn (by decide)
  exact ⟨served.2 ⟨rfl, rfl, rfl, rfl, rfl⟩, withdrawn,
    fetched stale_run rfl _ List.mem_cons_self rfl⟩

end Served

end VersionedQueue
