import VersionedQueue.Proofs.Disjoint.Turn
import VersionedQueue.Proofs.Run.Orderly

/-!
# The progress of a member of a disjoint group

The invariant of one member over all runs in which it keeps to the order of its snapshots: its stored
read pointer bounds what it was served, and every id up to it was served to the member or is one that
the member passes.  A kept cursor agrees with the row, and its cache continues where the row ends.
-/

set_option autoImplicit false
set_option relaxedAutoImplicit false

namespace VersionedQueue

/-- The requests of a member that partitions by hash and has the given share. -/
def Share.Fits (share : Share) (c : Consumer) (config : Config) : Prop :=
  config.partitioner = .hash ∧ c.share = share

/-- What a member of a disjoint group was handed lies below its read pointer, and every id below is
accounted for. -/
structure CoversUpTo (seat : Seat) (share : Share) (past : List Event) (readPointer : EntryId) :
    Prop where
  served_le : ∀ id ∈ servedTo past seat, id ≤ readPointer
  served_own : ∀ id ∈ servedTo past seat, ∃ entry v, Known past seat v ∧
    Enqueued past ⟨seat.queue, id⟩ entry v ∧ share.Takes entry
  covered : ∀ id, noEntry < id → id ≤ readPointer →
    id ∈ servedTo past seat ∨ share.Passes past ⟨seat.queue, id⟩ (Known past seat)

/-- What holds of a member of a disjoint group after a run, with the active entry and the read pointer
of its row. -/
structure Progress (seat : Seat) (share : Share) (past : List Event) (active readPointer : EntryId) :
    Prop extends CoversUpTo seat share past readPointer where
  holds : (storageAfter past).table.Holds seat active readPointer
  /-- The active entry is the one served last, and is not acknowledged. -/
  active_open : active ≠ noEntry →
    (servedTo past seat).head? = some active ∧ active ∈ outstanding seat past
  /-- The entry served last is active until it is acknowledged or found retired. -/
  last_active : ∀ id, (servedTo past seat).head? = some id → id ∈ outstanding seat past →
    active = id ∨ RetiredAt past ⟨seat.queue, id⟩ (Known past seat)
  /-- The member never waits for an entry. -/
  left : lastLeft? past seat = (servedTo past seat).head?
  kept : ∀ cursor, lastCursor? past seat = some cursor → cursor.loaded = true →
    cursor.readPointer = readPointer ∧ cursor.pending = none ∧
      Found seat.queue share past (Known past seat) readPointer cursor.cache.entries

section Cons

variable {seat : Seat} {share : Share} {past : List Event} {e : Event} {a r r' id : EntryId}

private theorem known_of_past : ∀ v, Known past seat v → Known (e :: past) seat v :=
  fun _ known => known.cons

private theorem past_suffix : past <:+ e :: past := List.suffix_cons e past

namespace CoversUpTo

theorem of_unserved (h : CoversUpTo seat share past r) (served : e.servedTo? seat = none)
    (moved : Moved seat.queue share past (Known (e :: past) seat) r r') :
    CoversUpTo seat share (e :: past) r' := by
  have list : servedTo (e :: past) seat = servedTo past seat := servedTo_cons_of_none served
  refine ⟨?_, ?_, ?_⟩
  · intro id mem
    rw [list] at mem
    exact UInt64.le_trans (h.served_le id mem) moved.forward
  · intro id mem
    rw [list] at mem
    obtain ⟨entry, v, known, appended, takes⟩ := h.served_own id mem
    exact ⟨entry, v, known.cons, appended.cons, takes⟩
  · intro id positive upTo
    rw [list]
    by_cases early : id ≤ r
    · exact (h.covered id positive early).imp_right fun passes =>
        passes.mono past_suffix known_of_past
    · have passes := moved.passed id (UInt64.not_le.1 early) upTo
      exact .inr (passes.mono past_suffix fun _ known => known)

theorem of_served (h : CoversUpTo seat share past r) (served : e.servedTo? seat = some id)
    (forward : r ≤ r') (below : id ≤ r')
    (takes : ∃ entry v, Known (e :: past) seat v ∧ Enqueued past ⟨seat.queue, id⟩ entry v ∧
      share.Takes entry)
    (passed : ∀ other, r < other → other ≤ r' → other = id ∨
      share.Passes past ⟨seat.queue, other⟩ (Known (e :: past) seat)) :
    CoversUpTo seat share (e :: past) r' := by
  have list : servedTo (e :: past) seat = id :: servedTo past seat := servedTo_cons_of_some served
  refine ⟨?_, ?_, ?_⟩
  · intro other mem
    rw [list] at mem
    rcases List.mem_cons.1 mem with rfl | mem
    · exact below
    · exact UInt64.le_trans (h.served_le other mem) forward
  · intro other mem
    rw [list] at mem
    rcases List.mem_cons.1 mem with rfl | mem
    · obtain ⟨entry, v, known, appended, takes⟩ := takes
      exact ⟨entry, v, known, appended.cons, takes⟩
    · obtain ⟨entry, v, known, appended, takes⟩ := h.served_own other mem
      exact ⟨entry, v, known.cons, appended.cons, takes⟩
  · intro other positive upTo
    rw [list]
    by_cases early : other ≤ r
    · exact (h.covered other positive early).imp (List.mem_cons_of_mem id) fun passes =>
        passes.mono past_suffix known_of_past
    · rcases passed other (UInt64.not_le.1 early) upTo with rfl | passes
      · exact .inl List.mem_cons_self
      · exact .inr (passes.mono past_suffix fun _ known => known)

end CoversUpTo

end Cons

namespace Progress

variable {seat : Seat} {share : Share} {past : List Event} {e : Event} {a r : EntryId}

theorem start (seat : Seat) (share : Share) : Progress seat share [] noEntry noEntry where
  holds := by
    refine ⟨?_, ?_⟩ <;> simp [Table.stored, storageAfter, Table.history, History.latest,
      History.empty, storedId?]
  active_open some := absurd rfl some
  last_active _ head := by cases head
  left := rfl
  served_le _ mem := by cases mem
  served_own _ mem := by cases mem
  covered _ positive below :=
    absurd (UInt64.lt_of_lt_of_le positive below) (UInt64.lt_irrefl _)
  kept _ last := by cases last

private theorem of_aside (h : Progress seat share past a r) {a' : EntryId}
    (holds : e.after.table.Holds seat a' r) (served : e.servedTo? seat = none)
    (cursor : e.cursorOf? seat = none)
    (stays : a' ≠ noEntry → a' = a ∧
      (a ∈ outstanding seat past → a ∈ outstanding seat (e :: past)))
    (opened : ∀ id, id ∈ outstanding seat (e :: past) →
      id ∈ outstanding seat past ∧ (a = id → a' = id)) :
    Progress seat share (e :: past) a' r := by
  have list : servedTo (e :: past) seat = servedTo past seat := servedTo_cons_of_none served
  refine ⟨h.toCoversUpTo.of_unserved served (.refl _ _ _ _ _), holds, ?_, ?_, ?_, ?_⟩
  · intro some
    obtain ⟨rfl, out⟩ := stays some
    rw [list]
    exact (h.active_open some).imp_right out
  · intro id head out
    rw [list] at head
    obtain ⟨before, same⟩ := opened id out
    exact (h.last_active id head before).imp same fun retired =>
      retired.mono past_suffix known_of_past
  · have none : e.leaves? seat = none := by simp [Event.leaves?, served, cursor]
    rw [lastLeft?_cons_of_none none, list]
    exact h.left
  · intro k last loaded
    rw [lastCursor?_cons_of_none cursor] at last
    obtain ⟨reads, free, found⟩ := h.kept k last loaded
    exact ⟨reads, free, found.mono past_suffix known_of_past⟩

private theorem of_unchanged (h : Progress seat share past a r)
    (row : ∀ column, e.after.table.history seat.row column =
      (storageAfter past).table.history seat.row column)
    (served : e.servedTo? seat = none) (acked : e.ackedBy? seat = none)
    (cursor : e.cursorOf? seat = none) : Progress seat share (e :: past) a r := by
  have still : outstanding seat (e :: past) = outstanding seat past :=
    outstanding_cons_of_none served acked
  refine h.of_aside (h.holds.of_stored ?_ ?_) served cursor ?_ ?_
  · simp only [Table.stored, row]
  · simp only [Table.stored, row]
  · exact fun _ => ⟨rfl, fun out => still ▸ out⟩
  · exact fun id out => ⟨still ▸ out, fun same => same⟩

private theorem of_ack (h : Progress seat share past a r) (run : Run (Steady seat.queue) past)
    (found : e.before = storageAfter past)
    (own : e.call.seat? = some seat) {p : Pointer} {c : Consumer} {s : Snapshot}
    (asked : e.call.request = .ack p c s) (follows : Follows past seat s) :
    ∃ a', Progress seat share (e :: past) a' r := by
  have unserved : e.servedTo? seat = none := Event.servedTo?_of_ack asked
  have unasked : e.cursorOf? seat = none := Event.cursorOf?_of_ack asked
  rcases ack_cases_of_run run.sound found own asked follows h.holds with
    ⟨unacked, row⟩ | ⟨acked, holds, _⟩
  · exact ⟨a, h.of_unchanged row unserved unacked unasked⟩
  · refine ⟨_, h.of_aside holds unserved unasked ?_ ?_⟩
    · intro some
      have other : a ≠ p.id := fun same => some (if_pos same)
      exact ⟨if_neg other, fun out =>
        (mem_outstanding_cons_of_acked unserved acked).2 ⟨out, other⟩⟩
    · intro id out
      obtain ⟨before, apart⟩ := (mem_outstanding_cons_of_acked unserved acked).1 out
      refine ⟨before, ?_⟩
      rintro rfl
      exact if_neg apart

theorem turn (h : Progress seat share past a r) (run : Run (Steady seat.queue) past)
    (found : e.before = storageAfter past) (calm : e.call.plan = .none)
    (own : e.call.seat? = some seat) {c : Consumer} {config : Config} {cursor : Cursor} {s : Snapshot}
    (asked : e.call.request = .dequeue c config cursor s) (fits : share.Fits c config)
    (valid : config.validate = .ok ()) (member : c.validate config.partitioner = .ok ())
    (may : MayPass past seat cursor) (follows : Follows past seat s) :
    ∃ delivery k w a' r' rest,
      (w.toNat : Int) = (storageAfter past).table.standing (RowKey.entryCounter.encode seat.queue) ∧
      e.Delivers seat delivery k ∧
      DisjointTurn seat.queue share past s w a r cursor delivery a' r' rest ∧
      e.after.table.Holds seat a' r' ∧ k.loaded = true ∧ k.readPointer = r' ∧ k.pending = none ∧
      k.cache.entries = rest := by
  have here := Call.seat_eq own (by rw [asked]; rfl)
  subst here
  obtain ⟨footing, seen⟩ := footing_of_run run.sound found calm follows h.holds
  obtain ⟨w, stands⟩ := (Stored.of_run run.sound).highest
  have kept : cursor.loaded = true → cursor.readPointer = r ∧ cursor.pending = none := by
    intro loaded
    obtain ⟨reads, free, _⟩ := h.kept cursor (may.last loaded) loaded
    exact ⟨reads, free⟩
  obtain ⟨delivery, t, done, a', r', rest, ends, footing', loaded, reads, free, cache⟩ :=
    e.call.queue.answers_disjoint c config s fits.1 valid member cursor footing seen
      (by rw [stands, found]; rfl) kept
  obtain ⟨delivers, after⟩ := Event.delivers_of_ok own asked done
  refine ⟨delivery, t.cursor, w, a', r', rest, stands, delivers, ?_, ?_, loaded, reads, free, ?_⟩
  · rw [← fits.2]
    exact ends
  · rw [after]
    exact footing'.holds
  · rw [cache]

private theorem of_served (h : Progress seat share past a r) {id r' : EntryId} {entry : Entry}
    {k : Cursor} (delivers : e.Delivers seat (.served ⟨seat.queue, id⟩ entry) k)
    (holds : e.after.table.Holds seat id r') (forward : r ≤ r') (below : id ≤ r')
    (takes : ∃ entry v, Known (e :: past) seat v ∧ Enqueued past ⟨seat.queue, id⟩ entry v ∧
      share.Takes entry)
    (passed : ∀ other, r < other → other ≤ r' → other = id ∨
      share.Passes past ⟨seat.queue, other⟩ (Known (e :: past) seat))
    (reads : k.readPointer = r') (free : k.pending = none)
    (cached : Found seat.queue share past (Known (e :: past) seat) r' k.cache.entries) :
    Progress seat share (e :: past) id r' := by
  have served : e.servedTo? seat = some id := delivers.servedTo?
  have list : servedTo (e :: past) seat = id :: servedTo past seat := servedTo_cons_of_some served
  refine ⟨h.toCoversUpTo.of_served served forward below takes passed, holds, ?_, ?_, ?_, ?_⟩
  · intro _
    rw [list, outstanding_cons_of_served served]
    exact ⟨rfl, List.mem_cons_self⟩
  · intro other head _
    rw [list] at head
    exact .inl (Option.some.inj head)
  · rw [list]
    exact lastLeft?_cons_of_some (by simp [Event.leaves?, served])
  · intro k' last _
    rw [lastCursor?_cons_of_some delivers.cursorOf?] at last
    cases last
    exact ⟨reads, free, cached.mono past_suffix fun _ known => known⟩

private theorem of_nothing (h : Progress seat share past a r) {a' r' : EntryId} {k : Cursor}
    (delivers : e.Delivers seat .empty k) (holds : e.after.table.Holds seat a' r')
    (active : a' = a ∨ a' = noEntry ∧
      (a = noEntry ∨ RetiredAt past ⟨seat.queue, a⟩ (Known (e :: past) seat)))
    (moved : Moved seat.queue share past (Known (e :: past) seat) r r')
    (reads : k.readPointer = r') (free : k.pending = none) (cached : k.cache.entries = []) :
    Progress seat share (e :: past) a' r' := by
  have unserved : e.servedTo? seat = none := delivers.servedTo?
  have list : servedTo (e :: past) seat = servedTo past seat := servedTo_cons_of_none unserved
  have still : outstanding seat (e :: past) = outstanding seat past :=
    outstanding_cons_of_none unserved delivers.ackedBy?
  refine ⟨h.toCoversUpTo.of_unserved unserved moved, holds, ?_, ?_, ?_, ?_⟩
  · intro some
    rw [list, still]
    rcases active with rfl | ⟨none, _⟩
    · exact h.active_open some
    · exact absurd none some
  · intro id head out
    rw [list] at head
    rw [still] at out
    rcases h.last_active id head out with rfl | retired
    · rcases active with same | ⟨cleared, none | retired⟩
      · exact .inl same
      · exact .inl (cleared.trans none.symm)
      · exact .inr (retired.mono past_suffix fun _ known => known)
    · exact .inr (retired.mono past_suffix known_of_past)
  · have none : e.leaves? seat = none := by
      simp [Event.leaves?, unserved, delivers.cursorOf?, free]
    rw [lastLeft?_cons_of_none none, list]
    exact h.left
  · intro k' last _
    rw [lastCursor?_cons_of_some delivers.cursorOf?] at last
    cases last
    refine ⟨reads, free, ?_⟩
    rw [cached]
    exact .nil

private theorem of_found (h : Progress seat share past a r) {after : EntryId} {entry : CachedEntry}
    {rest : List CachedEntry} {k : Cursor}
    (delivers : e.Delivers seat (.served ⟨seat.queue, entry.id⟩ ⟨entry.payload, {}⟩) k)
    (holds : e.after.table.Holds seat entry.id entry.id)
    (moved : Moved seat.queue share past (Known (e :: past) seat) r after)
    (found : Found seat.queue share past (Known (e :: past) seat) after (entry :: rest))
    (reads : k.readPointer = entry.id) (free : k.pending = none) (cache : k.cache.entries = rest) :
    Progress seat share (e :: past) entry.id entry.id := by
  have later : after < entry.id := found.after entry List.mem_cons_self
  obtain ⟨appended, v, known, stored, takes, _⟩ := found.appended entry List.mem_cons_self
  refine h.of_served delivers holds (UInt64.le_of_lt (UInt64.lt_of_le_of_lt moved.forward later))
    (UInt64.le_refl _) ⟨appended, v, known, stored, takes⟩ (fun other above upTo => ?_) reads free
    (cache ▸ found.tail)
  -- The ids up to `after` were passed on the way there, those beyond it because of what was found.
  by_cases same : other = entry.id
  · exact .inl same
  · by_cases early : other ≤ after
    · exact .inr (moved.passed other above early)
    · exact .inr (found.passes_of_lt_head (UInt64.not_le.1 early)
        (UInt64.lt_of_le_of_ne upTo same))

private theorem of_again (h : Progress seat share past a r) {entry : Entry} {k : Cursor}
    (delivers : e.Delivers seat (.served ⟨seat.queue, a⟩ entry) k) (some : a ≠ noEntry)
    (holds : e.after.table.Holds seat a (if r ≤ a then a else r))
    (reads : k.readPointer = if r ≤ a then a else r) (free : k.pending = none)
    (cache : k.cache.entries = []) :
    Progress seat share (e :: past) a (if r ≤ a then a else r) := by
  have mem := List.mem_of_head? (h.active_open some).1
  have below := h.served_le a mem
  have same : (if r ≤ a then a else r) = r := by
    split
    · rename_i above
      exact UInt64.le_antisymm below above
    · rfl
  rw [same] at holds reads ⊢
  obtain ⟨entry, v, known, stored, takes⟩ := h.served_own a mem
  refine h.of_served delivers holds (UInt64.le_refl r) below ⟨entry, v, known.cons, stored, takes⟩
    (fun other after upTo => ?_) reads free (cache ▸ .nil)
  exact absurd (UInt64.lt_of_lt_of_le after upTo) (UInt64.lt_irrefl _)

/-- An active entry that a reload could not serve again was retired: the member has seen it before, so
its snapshots go on showing it. -/
private theorem retired_of_gone (h : Progress seat share past a r) {s : Snapshot}
    (follows : Follows past seat s) (gone : Gone seat.queue past s a) :
    a = noEntry ∨ RetiredAt past ⟨seat.queue, a⟩ (s.sees ·) := by
  by_cases none : a = noEntry
  · exact .inl none
  · rcases gone with none | retired | hidden
    · exact .inl none
    · exact .inr retired
    · obtain ⟨entry, v, known, stored, _⟩ :=
        h.served_own a (List.mem_of_head? (h.active_open none).1)
      exact absurd ⟨v, follows.sees known, .inl ⟨entry, stored⟩⟩ hidden

private theorem of_turn (h : Progress seat share past a r) {s : Snapshot} {w a' r' : EntryId}
    {cursor k : Cursor} {delivery : Delivery} {rest : List CachedEntry}
    (may : MayPass past seat cursor) (follows : Follows past seat s)
    (reading : e.call.request.snapshot? = some s) (delivers : e.Delivers seat delivery k)
    (ends : DisjointTurn seat.queue share past s w a r cursor delivery a' r' rest)
    (holds : e.after.table.Holds seat a' r') (reads : k.readPointer = r') (free : k.pending = none)
    (cache : k.cache.entries = rest) : Progress seat share (e :: past) a' r' := by
  have seen : ∀ v, s.sees v → Known (e :: past) seat v := fun v => known_of_sees delivers.own reading
  cases ends with
  | again _ some _ _ => exact h.of_again delivers some holds reads free cache
  | @cached entry _ loaded left =>
      have found := (h.kept cursor (may.last loaded) loaded).2.2.mono (List.suffix_refl past)
        (known_of_past (e := e))
      rw [left] at found
      have after := found.after entry List.mem_cons_self
      rw [if_pos (UInt64.le_of_lt after)] at holds reads ⊢
      exact h.of_found delivers holds (.refl _ _ _ _ _) found reads free cache
  | fetched _ _ ends =>
      cases ends with
      | found moved _ found =>
          exact h.of_found delivers holds (moved.mono seen)
            (found.mono (List.suffix_refl past) seen) reads free cache
  | nothing gone _ ends =>
      have moved : Moved seat.queue share past (Known (e :: past) seat) r r' := by
        cases ends with
        | found _ some _ => exact absurd rfl some
        | blocked moved _ => exact moved.mono seen
        | caughtUp moved _ => exact moved.mono seen
      refine h.of_nothing delivers holds ?_ moved reads free cache
      cases loaded : cursor.loaded with
      | true => exact .inl rfl
      | false =>
          exact .inr ⟨rfl, (h.retired_of_gone follows (gone loaded)).imp_right fun retired =>
            retired.mono (List.suffix_refl past) seen⟩

/-- After every run in which the member keeps to the order of its snapshots, its progress is as
described, for some active entry and read pointer. -/
theorem of_run (run : Run (Orderly seat share.Fits) past) : ∃ a r, Progress seat share past a r := by
  induction run with
  | start => exact ⟨_, _, start seat share⟩
  | @next past call earlier allowed ih =>
      obtain ⟨a, r, h⟩ := ih
      have steady : Run (Steady seat.queue) past := earlier.mono fun _ _ _ fits => fits.1
      let e : Event := ⟨call, storageAfter past⟩
      by_cases own : call.seat? = some seat
      · rcases allowed.own_cases own with ⟨c, config, cursor, s, asked⟩ | ⟨p, c, s, asked⟩
        · obtain ⟨calm, fits, valid, member, may, follows⟩ := allowed.of_dequeue own asked
          obtain ⟨delivery, k, w, a', r', rest, _, delivers, ends, holds, _, reads, free, cache⟩ :=
            h.turn (e := e) steady rfl calm own asked fits valid member may follows
          exact ⟨a', r', h.of_turn may follows (by simp [asked, Request.snapshot?]) delivers ends
            holds reads free cache⟩
        · obtain ⟨_, follows⟩ := allowed.of_ack own asked
          obtain ⟨a', progress⟩ := h.of_ack (e := e) steady rfl own asked follows
          exact ⟨a', r, progress⟩
      · exact ⟨a, r, h.of_unchanged (e := e) (Event.history_row allowed.1.1 own)
          (Event.servedTo?_of_other own) (Event.ackedBy?_of_other own)
          (Event.cursorOf?_of_other own)⟩

/-- Every request of the member in a run was answered from the progress that its past had made. -/
theorem turn_of_run (run : Run (Orderly seat share.Fits) (e :: past))
    (own : e.call.seat? = some seat) {c : Consumer} {config : Config} {cursor : Cursor} {s : Snapshot}
    (asked : e.call.request = .dequeue c config cursor s) :
    ∃ a r delivery k w a' r' rest, Progress seat share past a r ∧ Follows past seat s ∧
      (w.toNat : Int) = (storageAfter past).table.standing (RowKey.entryCounter.encode seat.queue) ∧
      e.Delivers seat delivery k ∧
      DisjointTurn seat.queue share past s w a r cursor delivery a' r' rest ∧
      (cursor.loaded = true → lastCursor? past seat = some cursor) := by
  obtain ⟨earlier, allowed, found⟩ := Run.cons_iff.1 run
  obtain ⟨calm, fits, valid, member, may, follows⟩ := allowed.of_dequeue own asked
  obtain ⟨a, r, h⟩ := of_run earlier
  obtain ⟨delivery, k, w, a', r', rest, stands, delivers, ends, _⟩ :=
    h.turn (earlier.mono fun _ _ _ fits => fits.1) found calm own asked fits valid member may follows
  exact ⟨a, r, delivery, k, w, a', r', rest, h, follows, stands, delivers, ends, may.last⟩

/-- What is served is the active entry once more, or comes after all that was served before. -/
theorem served_cases (h : Progress seat share past a r) {s : Snapshot} {w a' r' id : EntryId}
    {cursor : Cursor} {delivery : Delivery} {rest : List CachedEntry}
    (last : cursor.loaded = true → lastCursor? past seat = some cursor)
    (ends : DisjointTurn seat.queue share past s w a r cursor delivery a' r' rest)
    (served : delivery.pointer?.map (·.id) = some id) :
    (cursor.loaded = false ∧ id = a ∧ a ≠ noEntry) ∨ ∀ old ∈ servedTo past seat, old < id := by
  have later {id : EntryId} (above : r < id) : ∀ old ∈ servedTo past seat, old < id :=
    fun old mem => UInt64.lt_of_le_of_lt (h.served_le old mem) above
  cases ends with
  | again unloaded some _ _ => exact .inl ⟨unloaded, (Option.some.inj served).symm, some⟩
  | @cached entry _ loaded left =>
      cases served
      have found := (h.kept cursor (last loaded) loaded).2.2
      exact .inr (later (found.after entry (left ▸ List.mem_cons_self)))
  | @fetched entry _ after _ _ ends =>
      cases served
      cases ends with
      | found moved _ found =>
          exact .inr (later (UInt64.lt_of_le_of_lt moved.forward
            (found.after entry List.mem_cons_self)))
  | nothing _ _ _ => cases served

private theorem reached_of_nothing {s : Snapshot} {w after id : EntryId}
    (ends : FetchEnds seat.queue share past s w r [] after) (allocated : id ≤ w)
    (shown : ∀ j, noEntry < j → j ≤ id → ShownAt past ⟨seat.queue, j⟩ (s.sees ·)) :
    Moved seat.queue share past (s.sees ·) r after ∧ id ≤ after := by
  cases ends with
  | found _ some _ => exact absurd rfl some
  | caughtUp moved all => exact ⟨moved, UInt64.le_trans allocated all⟩
  | blocked moved hidden =>
      refine ⟨moved, UInt64.not_lt.1 fun behind => ?_⟩
      -- The next id would be shown, since it is not above `id`; but it is what fetching stopped at.
      have bound := UInt64.lt_iff_toNat_lt.1 behind
      have top := id.toNat_lt
      have one : (1 : UInt64).toNat = 1 := rfl
      have next : (after + 1).toNat = after.toNat + 1 := by
        rw [UInt64.toNat_add, one, Nat.mod_eq_of_lt (by omega)]
      refine hidden (after + 1) next (shown (after + 1) ?_ ?_)
      · rw [UInt64.lt_iff_toNat_lt, next]
        exact Nat.succ_pos _
      · rw [UInt64.le_iff_toNat_le, next]
        omega

theorem of_nothing_found (h : Progress seat share past a r) (run : Run (Steady seat.queue) past)
    {s : Snapshot} {w a' r' : EntryId} {cursor : Cursor} {rest : List CachedEntry}
    (follows : Follows past seat s)
    (stands : (w.toNat : Int) =
      (storageAfter past).table.standing (RowKey.entryCounter.encode seat.queue))
    (ends : DisjointTurn seat.queue share past s w a r cursor .empty a' r' rest)
    {id : EntryId} {entry : Entry} {v : Version} (appended : Enqueued past ⟨seat.queue, id⟩ entry v)
    (takes : share.Takes entry)
    (shown : ∀ j, noEntry < j → j ≤ id → ShownAt past ⟨seat.queue, j⟩ (s.sees ·)) :
    id ∈ servedTo past seat ∨ RetiredAt past ⟨seat.queue, id⟩ (s.sees ·) := by
  have stored := Stored.of_run run.sound
  obtain ⟨_, positive, allocated⟩ := stored.allocated _ _ _ appended
  have upTo : id ≤ w := by
    rw [UInt64.le_iff_toNat_le]
    simp only at allocated
    omega
  cases ends with
  | nothing _ _ ends =>
      obtain ⟨moved, below⟩ := reached_of_nothing ends upTo shown
      by_cases early : id ≤ r
      · rcases h.covered id (UInt64.lt_iff_toNat_lt.2 positive) early with mem | passes
        · exact .inl mem
        · exact .inr ((passes.mono (List.suffix_refl past) fun _ known =>
            follows.sees known).retiredAt stored appended takes)
      · exact .inr ((moved.passed id (UInt64.not_le.1 early) below).retiredAt stored appended takes)

end Progress

end VersionedQueue
