import VersionedQueue.Proofs.Disjoint.Progress

/-!
# The entry that is due

In a queue of which nothing is retired, a member of a disjoint group that has acknowledged all that it was
handed is handed the entry that is due, or nothing if none is.  Which entry that is follows from what the
member was handed and from its snapshot, whatever its cursor has cached.
-/

set_option autoImplicit false
set_option relaxedAutoImplicit false

namespace VersionedQueue

/-- The entry that a member is to be handed next: one of its share that it was not handed, where it is
done with every id before. -/
structure Due (seat : Seat) (share : Share) (past : List Event) (s : Snapshot) (id : EntryId)
    (entry : Entry) : Prop where
  unserved : id ∉ servedTo past seat
  visible : ∃ v, s.sees v ∧ Enqueued past ⟨seat.queue, id⟩ entry v
  takes : share.Takes entry
  before : ∀ j, noEntry < j → j < id →
    j ∈ servedTo past seat ∨ share.Passes past ⟨seat.queue, j⟩ (s.sees ·)

/-- The delivery of the entry that is due, or of nothing if none is. -/
inductive DueDelivery (seat : Seat) (share : Share) (past : List Event) (s : Snapshot) : Delivery → Prop
  | served {id : EntryId} {entry : Entry} : Due seat share past s id entry →
      DueDelivery seat share past s (.served ⟨seat.queue, id⟩ ⟨entry.payload, {}⟩)
  | nothing : (∀ id entry, ¬ Due seat share past s id entry) → DueDelivery seat share past s .empty

section Unique

variable {seat : Seat} {share : Share} {past : List Event} {s : Snapshot} {t : Table}
  {id id' : EntryId} {entry entry' : Entry} {d d' : Delivery} (stored : Stored seat.queue past t)
  (unretired : ∀ p v, ¬ Invalidated past p v)

include stored unretired

private theorem Due.not_lt (due : Due seat share past s id entry)
    (due' : Due seat share past s id' entry') : ¬ id < id' := by
  intro less
  obtain ⟨v, _, appended⟩ := due.visible
  have positive : noEntry < id := UInt64.lt_iff_toNat_lt.2 (stored.allocated _ _ _ appended).2.1
  rcases due'.before id positive less with mem | passes
  · exact due.unserved mem
  · obtain ⟨w, _, retired⟩ := passes.retiredAt stored appended due.takes
    exact unretired _ w retired

theorem Due.unique (due : Due seat share past s id entry) (due' : Due seat share past s id' entry') :
    id = id' ∧ entry = entry' := by
  have same : id = id' :=
    UInt64.le_antisymm (UInt64.not_lt.1 (due'.not_lt stored unretired due))
      (UInt64.not_lt.1 (due.not_lt stored unretired due'))
  subst same
  obtain ⟨v, _, appended⟩ := due.visible
  obtain ⟨v', _, appended'⟩ := due'.visible
  exact ⟨rfl, (stored.once _ _ _ _ _ appended appended').1⟩

theorem DueDelivery.unique (h : DueDelivery seat share past s d) (h' : DueDelivery seat share past s d') :
    d = d' := by
  cases h with
  | served due =>
      cases h' with
      | served due' =>
          obtain ⟨rfl, rfl⟩ := due.unique stored unretired due'
          rfl
      | nothing none => exact absurd due (none _ _)
  | nothing none =>
      cases h' with
      | served due => exact absurd due (none _ _)
      | nothing _ => rfl

end Unique

namespace Progress

variable {seat : Seat} {share : Share} {past : List Event} {e : Event} {a r : EntryId} {s : Snapshot}
  {cursor : Cursor}

private theorem due_of_found (h : Progress seat share past a r) (follows : Follows past seat s)
    {after : EntryId} {entry : CachedEntry} {rest : List CachedEntry}
    (moved : Moved seat.queue share past (s.sees ·) r after)
    (found : Found seat.queue share past (s.sees ·) after (entry :: rest)) :
    DueDelivery seat share past s (.served ⟨seat.queue, entry.id⟩ ⟨entry.payload, {}⟩) := by
  have later : after < entry.id := found.after entry List.mem_cons_self
  obtain ⟨appended, v, visible, stored, takes, payload⟩ := found.appended entry List.mem_cons_self
  rw [payload]
  refine .served ⟨fun mem => ?_, ⟨v, visible, stored⟩, takes, fun j positive less => ?_⟩
  · have reached := UInt64.le_trans (h.served_le _ mem) moved.forward
    exact UInt64.lt_irrefl _ (UInt64.lt_of_lt_of_le later reached)
  · -- The ids up to the read pointer are covered, those up to `after` passed, the others not found.
    by_cases early : j ≤ r
    · exact (h.covered j positive early).imp_right fun passes =>
        passes.mono (List.suffix_refl past) fun _ known => follows.sees known
    · refine .inr ?_
      by_cases reached : j ≤ after
      · exact moved.passed j (UInt64.not_le.1 early) reached
      · exact found.passes_of_lt_head (UInt64.not_le.1 reached) less

private theorem shown_of_due (h : Progress seat share past a r) (follows : Follows past seat s)
    {id : EntryId} {entry : Entry} (due : Due seat share past s id entry) (j : EntryId)
    (positive : noEntry < j) (upTo : j ≤ id) : ShownAt past ⟨seat.queue, j⟩ (s.sees ·) := by
  by_cases same : j = id
  · obtain ⟨v, visible, appended⟩ := due.visible
    exact same ▸ ⟨v, visible, .inl ⟨entry, appended⟩⟩
  · rcases due.before j positive (UInt64.lt_of_le_of_ne upTo same) with mem | passes
    · obtain ⟨entry, v, known, appended, _⟩ := h.served_own j mem
      exact ⟨v, follows.sees known, .inl ⟨entry, appended⟩⟩
    · exact passes.shownAt

private theorem due_of_turn (h : Progress seat share past a r) (run : Run (Steady seat.queue) past)
    {w a' r' : EntryId} {delivery : Delivery} {rest : List CachedEntry} (follows : Follows past seat s)
    (last : cursor.loaded = true → lastCursor? past seat = some cursor)
    (stands : (w.toNat : Int) =
      (storageAfter past).table.standing (RowKey.entryCounter.encode seat.queue))
    (ends : DisjointTurn seat.queue share past s w a r cursor delivery a' r' rest)
    (acked : outstanding seat past = []) (unretired : ∀ p v, ¬ Invalidated past p v) :
    DueDelivery seat share past s delivery := by
  cases ends with
  | again _ some _ _ =>
      have out := (h.active_open some).2
      rw [acked] at out
      cases out
  | cached loaded left =>
      have found := (h.kept cursor (last loaded) loaded).2.2.mono (List.suffix_refl past)
        fun _ known => follows.sees known
      rw [left] at found
      exact h.due_of_found follows (.refl _ _ _ _ _) found
  | fetched _ _ ends =>
      cases ends with
      | found moved _ found => exact h.due_of_found follows moved found
  | nothing gone drained ends =>
      refine .nothing fun id entry due => ?_
      obtain ⟨v, _, appended⟩ := due.visible
      rcases h.of_nothing_found run follows stands (.nothing gone drained ends) appended due.takes
        (h.shown_of_due follows due) with mem | ⟨w, _, retired⟩
      · exact due.unserved mem
      · exact unretired _ w retired

/-- A member that has acknowledged all that it was handed is handed what is due, in every run in which
nothing is retired, and waits for no entry. -/
theorem due_of_run (run : Run (Orderly seat share.Fits) (e :: past)) (own : e.call.seat? = some seat)
    {c : Consumer} {config : Config} (asked : e.call.request = .dequeue c config cursor s)
    (acked : outstanding seat past = []) (unretired : ∀ p v, ¬ Invalidated past p v) :
    ∃ delivery k, e.Delivers seat delivery k ∧ DueDelivery seat share past s delivery ∧
      k.pending = none := by
  obtain ⟨earlier, allowed, found⟩ := Run.cons_iff.1 run
  obtain ⟨calm, fits, valid, member, may, follows⟩ := allowed.of_dequeue own asked
  have steady : Run (Steady seat.queue) past := earlier.mono fun _ _ _ fits => fits.1
  obtain ⟨a, r, h⟩ := of_run earlier
  obtain ⟨delivery, k, w, a', r', rest, stands, delivers, ends, _, _, _, free, _⟩ :=
    h.turn steady found calm own asked fits valid member may follows
  exact ⟨delivery, k, delivers, h.due_of_turn steady follows may.last stands ends acked unretired, free⟩

end Progress

end VersionedQueue
