import VersionedQueue.Proofs.Run.Legible
import VersionedQueue.Proofs.Shared.Retained
import VersionedQueue.Proofs.Shared.Taking

/-!
# Claimed ids when storage fails

A member of a shared group takes ids from the pointer of its group, which never moves back.  However
its requests end, each id that it took was handed to it, acknowledged or found retired, or is in its
row or in the cursor that its last request left, or one of its requests let go of it.  An id that no
row and no cursor of the group has any more is never handed out.
-/

set_option autoImplicit false
set_option relaxedAutoImplicit false

namespace VersionedQueue

/-- The calls of a queue in which all members of one group share it in turn, and any call may fail but
a retirement.  A member passes a cursor that was never loaded or the one its last request left, reads
under snapshots that follow each other, and hands nothing back.  Producers and other groups do as they
like. -/
def SharedFallible (queue : String) (group : GroupId) (past : List Event) (call : Call) : Prop :=
  Sound queue past call ∧
    call.request.Meets
      (fun c config cursor s => c.group = group →
        config.partitioner = .roundRobin ∧ MayPass past (call.queue.seat c) cursor ∧
          Follows past (call.queue.seat c) s)
      (fun _ c s => c.group = group → Follows past (call.queue.seat c) s)
      fun _ c _ => c.group ≠ group

theorem SharedFallible.own_cases {queue : String} {group : GroupId} {member : InstanceId}
    {past : List Event} {call : Call} (h : SharedFallible queue group past call)
    (own : call.seat? = some ⟨queue, group, member⟩) :
    (∃ c config cursor s, call.request = .dequeue c config cursor s ∧
        config.partitioner = .roundRobin ∧ MayPass past ⟨queue, group, member⟩ cursor ∧
          Follows past ⟨queue, group, member⟩ s) ∨
      ∃ p c s, call.request = .ack p c s ∧ Follows past ⟨queue, group, member⟩ s := by
  have keeps := h.2
  rcases Call.own_cases own with
    ⟨c, config, cursor, s, asked⟩ | ⟨p, c, s, asked⟩ | ⟨p, c, s, asked⟩
  · have here := Call.seat_eq own (by rw [asked]; rfl)
    rw [asked] at keeps
    obtain ⟨shared, may, follows⟩ := keeps (congrArg Seat.group here)
    rw [here] at may follows
    exact .inl ⟨c, config, cursor, s, asked, shared, may, follows⟩
  · have here := Call.seat_eq own (by rw [asked]; rfl)
    rw [asked] at keeps
    have follows := keeps (congrArg Seat.group here)
    rw [here] at follows
    exact .inr ⟨p, c, s, asked, follows⟩
  · have here := Call.seat_eq own (by rw [asked]; rfl)
    rw [asked] at keeps
    exact absurd (congrArg Seat.group here) keeps

/-- An id is the active entry of a member's row, or the loaded cursor that its last request left holds
it. -/
def Recorded (past : List Event) (seat : Seat) (id : EntryId) : Prop :=
  Stores past seat id ∨ ∃ k, lastCursor? past seat = some k ∧ k.loaded = true ∧
    (k.pending = some id ∨ ∃ entry ∈ k.cache.entries, entry.id = id)

/-- A member was handed an id, has acknowledged it, or knows that it is retired. -/
def Settled (past : List Event) (seat : Seat) (id : EntryId) : Prop :=
  id ∈ servedTo past seat ∨ id ∈ ackedIds past seat ∨
    RetiredAt past ⟨seat.queue, id⟩ (Known past seat)

/-- A member's request lets go of an id: it fails to store the id as handed out, or it comes without
the cursor in which alone the id was pending, or with a loaded cursor in which an id of the row is not
pending. -/
def Event.Drops (e : Event) (past : List Event) (seat : Seat) (id : EntryId) : Prop :=
  e.call.seat? = some seat ∧ ∃ c config cursor s, e.call.request = .dequeue c config cursor s ∧
    ((∃ err x w, e.outcome.answer = .error err ∧ err.IsStoring ∧
        e.call.queue.dequeue c config s ⟨e.before.repair, cursor⟩ =
          .ok (.served ⟨seat.queue, id⟩ x) w) ∨
      (cursor.loaded = false ∧ pendingOf past seat = some id ∧ ¬ Stores past seat id) ∨
      (cursor.loaded = true ∧ cursor.pending ≠ some id ∧ Stores past seat id))

/-- One of a member's requests has let go of an id. -/
def Dropped (past : List Event) (seat : Seat) (id : EntryId) : Prop :=
  ∃ e earlier, e :: earlier <:+ past ∧ e.Drops earlier seat id

/-- What holds of a member of a shared group after a run in which calls may fail. -/
structure Custody (seat : Seat) (past : List Event) : Prop where
  rests : ∀ k, lastCursor? past seat = some k → k.loaded = true →
    k.AtRest seat.queue (storageAfter past).table
  accounted : ∀ id, Took past seat id →
    Settled past seat id ∨ Dropped past seat id ∨ Recorded past seat id

section Cons

variable {past : List Event} {seat : Seat} {e : Event} {id : EntryId}

theorem Settled.cons (h : Settled past seat id) : Settled (e :: past) seat id := by
  have part : past <:+ e :: past := List.suffix_cons e past
  rcases h with served | acked | retired
  · exact .inl (servedTo_mono part served)
  · obtain ⟨f, mem, here⟩ := List.mem_filterMap.1 acked
    exact .inr (.inl (List.mem_filterMap.2 ⟨f, List.mem_cons_of_mem e mem, here⟩))
  · exact .inr (.inr (retired.mono part fun _ known => known.cons))

theorem Settled.of_served (served : e.servedTo? seat = some id) : Settled (e :: past) seat id :=
  .inl (by rw [servedTo_cons_of_some served]; exact List.mem_cons_self)

theorem Settled.of_acked (acked : e.ackedBy? seat = some id) : Settled (e :: past) seat id :=
  .inr (.inl (List.mem_filterMap.2 ⟨e, List.mem_cons_self, acked⟩))

theorem Settled.of_retired {s : Snapshot} (own : e.call.seat? = some seat)
    (reads : e.call.request.snapshot? = some s)
    (retired : RetiredAt past ⟨seat.queue, id⟩ (s.sees ·)) : Settled (e :: past) seat id :=
  .inr (.inr (retired.mono (List.suffix_cons e past) fun _ => known_of_sees own reads))

theorem Dropped.cons (h : Dropped past seat id) : Dropped (e :: past) seat id := by
  obtain ⟨f, earlier, within, drops⟩ := h
  exact ⟨f, earlier, within.trans (List.suffix_cons e past), drops⟩

theorem Dropped.of_drops (h : e.Drops past seat id) : Dropped (e :: past) seat id :=
  ⟨e, past, List.suffix_rfl, h⟩

theorem Recorded.of_pending {k : Cursor} (left : e.cursorOf? seat = some k) (loaded : k.loaded = true)
    (pends : k.pending = some id) : Recorded (e :: past) seat id :=
  .inr ⟨k, lastCursor?_cons_of_some left, loaded, .inl pends⟩

end Cons

section Step

variable {past : List Event} {seat : Seat} {e : Event} {c : Consumer} {config : Config}
  {cursor : Cursor} {s : Snapshot}

/-- Whichever calls fail, a request leaves a member ids of a kind if those in its row and in the cursor that
it passes, if that is loaded, and those that nobody had claimed are of that kind. -/
theorem held_of_resting {ids : EntryId → Prop} (run : Run (OneQueue seat.queue) past)
    (found : e.before = storageAfter past) (own : e.call.seat? = some seat)
    (asked : e.call.request = .dequeue c config cursor s) (shared : config.partitioner = .roundRobin)
    (follows : Follows past seat s)
    (rests : cursor.loaded = true → cursor.AtRest seat.queue (storageAfter past).table ∧
      ∀ id, cursor.pending = some id → ids id)
    (active : ∀ id, Stores past seat id → id ≠ noEntry → ids id)
    (ahead : ∀ id : EntryId, (storageAfter past).table.standing seat.groupRow < id.toNat → ids id) :
    (∀ id, storedId? (e.after.table.stored seat .active) = some id → id ≠ noEntry → ids id) ∧
      (e.outcome.cursor.loaded = true → e.outcome.cursor.AtRest seat.queue e.after.table ∧
        ∀ id, e.outcome.cursor.pending = some id → ids id) ∧
      ∀ id, e.servedTo? seat = some id → ids id := by
  have here := Call.seat_eq own (by rw [asked]; rfl)
  subst here
  have seen := OneQueue.rowSeen run follows
  unfold Stores at active
  rw [← found] at active rests ahead seen
  have table : e.before.table.Within e.call.queue c s ids :=
    ⟨active, seen.until, ahead, found ▸ standing_nonneg run _⟩
  have rest : cursor.loaded = true →
      Turn.Within e.call.queue c s ids ⟨{ e.before with plan := e.call.plan }, cursor⟩ ∧
        cursor.cache.entries = [] := fun loaded => by
    obtain ⟨⟨cache, known⟩, pending⟩ := rests loaded
    have empty : cursor.cache.entries = [] := by rw [cache]
    refine ⟨⟨table, ⟨pending, ?_, ?_⟩, known⟩, empty⟩
    · rw [empty]
      exact nofun
    · rw [empty]
      exact Nat.zero_le 1
  have ends := @Queue.within_dequeue e.call.queue c config s ids
    ⟨{ e.before with plan := e.call.plan }, cursor⟩ shared table seen rest
  have atRest {t : Turn} (within : t.Within e.call.queue c s ids)
      (empty : t.cursor.cache.entries = []) :
      t.cursor.AtRest e.call.queue.name t.storage.table ∧
        ∀ id, t.cursor.pending = some id → ids id :=
    ⟨⟨congrArg Cache.mk empty, within.known⟩, within.cursor.pending⟩
  cases done : e.call.queue.dequeue c config s ⟨{ e.before with plan := e.call.plan }, cursor⟩ with
  | ok delivery t =>
      obtain ⟨delivers, after⟩ := Event.delivers_of_ok own asked done
      obtain ⟨within, holds, served⟩ := ends.of_ok done
      rw [delivers.cursor, after, delivers.servedTo?]
      refine ⟨within.active, fun loaded => atRest (holds loaded).1 (holds loaded).2, fun id handed => ?_⟩
      obtain ⟨p, here, rfl⟩ := Option.map_eq_some_iff.1 handed
      exact served p here
  | error err t =>
      obtain ⟨unanswered, after, cursor⟩ := Event.servedTo?_of_error asked done
      obtain ⟨within, holds⟩ := ends.of_error done
      rw [cursor, after]
      refine ⟨within.active, fun loaded => atRest (holds loaded).1 (holds loaded).2, fun id handed => ?_⟩
      obtain ⟨_, _, answered, _⟩ := Event.own_of_servedTo? handed
      cases unanswered.symm.trans answered

theorem held_of_dequeue {ids : EntryId → Prop} (run : Run (Sound seat.queue) past)
    (found : e.before = storageAfter past) (own : e.call.seat? = some seat)
    (asked : e.call.request = .dequeue c config cursor s) (shared : config.partitioner = .roundRobin)
    (may : MayPass past seat cursor) (follows : Follows past seat s)
    (rests : ∀ k, lastCursor? past seat = some k → k.loaded = true →
      k.AtRest seat.queue (storageAfter past).table)
    (active : ∀ id, storedId? ((storageAfter past).table.stored seat .active) = some id →
      id ≠ noEntry → ids id)
    (pending : ∀ k, lastCursor? past seat = some k → k.loaded = true →
      ∀ id, k.pending = some id → ids id)
    (ahead : ∀ id : EntryId, (storageAfter past).table.standing seat.groupRow < id.toNat → ids id) :
    (∀ id, storedId? (e.after.table.stored seat .active) = some id → id ≠ noEntry → ids id) ∧
      (e.outcome.cursor.loaded = true → e.outcome.cursor.AtRest seat.queue e.after.table ∧
        ∀ id, e.outcome.cursor.pending = some id → ids id) ∧
      ∀ id, e.servedTo? seat = some id → ids id := by
  refine held_of_resting run.oneQueue found own asked shared follows (fun loaded => ?_) active ahead
  have last := may.last loaded
  exact ⟨rests cursor last loaded, pending cursor last loaded⟩

end Step

namespace Custody

variable {seat : Seat} {past : List Event} {e : Event}

theorem start (seat : Seat) : Custody seat [] where
  rests _ last := by cases last
  accounted _ took := by
    obtain ⟨_, mem, _⟩ := took
    cases mem

theorem recorded_cases (h : Custody seat past) {id : EntryId} (recorded : Recorded past seat id) :
    Stores past seat id ∨
      ∃ k, lastCursor? past seat = some k ∧ k.loaded = true ∧ k.pending = some id := by
  refine recorded.imp_right ?_
  rintro ⟨k, last, loaded, pends | ⟨entry, mem, _⟩⟩
  · exact ⟨k, last, loaded, pends⟩
  · rw [(h.rests k last loaded).1] at mem
    cases mem

private theorem of_aside (h : Custody seat past) (found : e.before = storageAfter past)
    (cursor : e.cursorOf? seat = none) (took : ∀ id, Took (e :: past) seat id → Took past seat id)
    (active : ∀ id, Stores past seat id → Stores (e :: past) seat id ∨ e.ackedBy? seat = some id) :
    Custody seat (e :: past) where
  rests k last loaded := by
    rw [lastCursor?_cons_of_none cursor] at last
    obtain ⟨cache, known⟩ := h.rests k last loaded
    rw [← found] at known
    exact ⟨cache, Int.le_trans known (e.standing_le _)⟩
  accounted id taken := by
    rcases h.accounted id (took id taken) with settled | dropped | stores | held
    · exact .inl settled.cons
    · exact .inr (.inl dropped.cons)
    · rcases active id stores with still | acked
      · exact .inr (.inr (.inl still))
      · exact .inl (.of_acked acked)
    · rw [← lastCursor?_cons_of_none cursor] at held
      exact .inr (.inr (.inr held))

private theorem of_other (h : Custody seat past) (found : e.before = storageAfter past)
    (name : e.call.queue.name = seat.queue) (other : e.call.seat? ≠ some seat) :
    Custody seat (e :: past) := by
  refine h.of_aside found (Event.cursorOf?_of_other other) (fun id => (took_cons_of_other other).1)
    fun id stores => .inl ?_
  rw [Stores, storageAfter, Table.stored, Event.history_row name other, found]
  exact stores

private theorem of_ack (h : Custody seat past) (run : Run (Sound seat.queue) past)
    (found : e.before = storageAfter past) (own : e.call.seat? = some seat) {p : Pointer}
    {c : Consumer} {s : Snapshot} (asked : e.call.request = .ack p c s)
    (follows : Follows past seat s) : Custody seat (e :: past) := by
  have name : e.call.queue.name = seat.queue := Call.name_eq own
  obtain ⟨a, r, holds⟩ := (legible_of_run run).exists_holds
  refine h.of_aside found (Event.cursorOf?_of_ack asked)
    (fun id => (took_cons_of_not_touches name (by simp [asked, Request.Touches, Queue.consumerRow])).1)
    fun id stores => ?_
  have same : a = id := Option.some.inj (holds.active.symm.trans stores)
  subst same
  rcases ack_cases_of_run run found own asked follows holds with ⟨_, row⟩ | ⟨acked, holds', _⟩
  · rw [Stores, storageAfter, Table.stored, row]
    exact .inl stores
  · by_cases current : a = p.id
    · exact .inr (current ▸ acked)
    · rw [if_neg current] at holds'
      exact .inl holds'.active

section Request

variable {c : Consumer} {config : Config} {cursor : Cursor} {s : Snapshot} {a r id : EntryId}

private theorem in_hand (h : Custody seat past) (own : e.call.seat? = some seat)
    (asked : e.call.request = .dequeue c config cursor s) (may : MayPass past seat cursor)
    (holds : (storageAfter past).table.Holds seat a r) (took : Took past seat id) :
    Settled (e :: past) seat id ∨ Dropped (e :: past) seat id ∨ cursor.InHand a id := by
  have drops (why : cursor.loaded = false ∧ pendingOf past seat = some id ∧ ¬ Stores past seat id ∨
      cursor.loaded = true ∧ cursor.pending ≠ some id ∧ Stores past seat id) :
      Dropped (e :: past) seat id := .of_drops ⟨own, c, config, cursor, s, asked, .inr why⟩
  have stored : Stores past seat id ↔ a = id := by
    rw [Stores, holds.active, Option.some.injEq]
  rcases h.accounted id took with settled | dropped | recorded
  · exact .inl settled.cons
  · exact .inr (.inl dropped.cons)
  · cases loaded : cursor.loaded with
    | true =>
        rw [Cursor.InHand, if_pos loaded]
        by_cases pends : cursor.pending = some id
        · exact .inr (.inr pends)
        · rcases h.recorded_cases recorded with stores | ⟨k, last, _, held⟩
          · exact .inr (.inl (drops (.inr ⟨loaded, pends, stores⟩)))
          · cases (may.last loaded).symm.trans last
            exact absurd held pends
    | false =>
        rw [Cursor.InHand, if_neg (by simp [loaded])]
        by_cases stores : a = id
        · exact .inr (.inr stores)
        · rcases h.recorded_cases recorded with here | ⟨k, last, _, held⟩
          · exact absurd (stored.1 here) stores
          · refine .inr (.inl (drops (.inl ⟨loaded, ?_, fun here => stores (stored.1 here)⟩)))
            rw [pendingOf, last]
            exact held

theorem turn_of_answered (run : Run (Sound seat.queue) past)
    (found : e.before = storageAfter past) (own : e.call.seat? = some seat)
    (asked : e.call.request = .dequeue c config cursor s) (shared : config.partitioner = .roundRobin)
    (follows : Follows past seat s) (holds : (storageAfter past).table.Holds seat a r)
    (rest : cursor.loaded = true → cursor.AtRest seat.queue (storageAfter past).table)
    {delivery : Delivery} {t : Turn} (done : e.call.queue.dequeue c config s
      ⟨{ e.before with plan := e.call.plan }, cursor⟩ = .ok delivery t) :
    e.Delivers seat delivery t.cursor ∧ t.cursor.loaded = true ∧
      ∃ a', SharedTurn seat.queue past s
        ((storageAfter past).table.standing (RowKey.entryCounter.encode seat.queue))
        ((storageAfter past).table.standing seat.groupRow) a cursor delivery a'
        (e.after.table.standing seat.groupRow) t.cursor.pending := by
  have here := Call.seat_eq own (by rw [asked]; rfl)
  subst here
  obtain ⟨delivers, after⟩ := Event.delivers_of_ok own asked done
  obtain ⟨footing, seen⟩ := footing_of_repair run follows holds
  obtain ⟨valid, member⟩ := Queue.valid_of_dequeue done
  have agree := (e.call.queue.mirrored_dequeue c config s).agree
    (Turn.alike_repair ⟨{ e.before with plan := e.call.plan }, cursor⟩) rfl (.inl ⟨_, _, done⟩)
  rw [done, found] at agree
  obtain ⟨t', again, same⟩ := agree.of_ok
  obtain ⟨a', _, ends, _, loaded, _⟩ := (e.call.queue.answers_shared c config s shared valid member
    cursor footing seen (standing_nonneg run _) rest).of_ok again
  rw [same.2, same.1.standing, ← after] at ends
  exact ⟨delivers, same.2 ▸ loaded, a', ends⟩

theorem answered_of_calm (run : Run (Sound seat.queue) past)
    (found : e.before = storageAfter past) (own : e.call.seat? = some seat)
    (asked : e.call.request = .dequeue c config cursor s) (shared : config.partitioner = .roundRobin)
    (follows : Follows past seat s) (holds : (storageAfter past).table.Holds seat a r)
    (rest : cursor.loaded = true → cursor.AtRest seat.queue (storageAfter past).table)
    (calm : e.call.plan = .none) (valid : config.validate = .ok ())
    (admitted : c.validate config.partitioner = .ok ()) :
    ∃ delivery t, e.call.queue.dequeue c config s
      ⟨{ e.before with plan := e.call.plan }, cursor⟩ = .ok delivery t := by
  have here := Call.seat_eq own (by rw [asked]; rfl)
  subst here
  obtain ⟨footing, seen⟩ := footing_of_run run found calm follows holds
  rw [found] at footing seen ⊢
  obtain ⟨delivery, t, done, _⟩ := e.call.queue.answers_shared c config s shared valid admitted cursor
    footing seen (standing_nonneg run _) rest
  exact ⟨delivery, t, done⟩

private theorem accounted_of_turn (reads : e.call.request.snapshot? = some s)
    {delivery : Delivery} {k : Cursor} {a' : EntryId} {highest group group' : Int}
    (delivers : e.Delivers seat delivery k) (loaded : k.loaded = true)
    (ends : SharedTurn seat.queue past s highest group a cursor delivery a' group' k.pending)
    (nonzero : id ≠ noEntry)
    (held : cursor.InHand a id ∨ group < id.toNat ∧ (id.toNat : Int) ≤ group') :
    Settled (e :: past) seat id ∨ Recorded (e :: past) seat id := by
  have settled (gone : RetiredAt past ⟨seat.queue, id⟩ (s.sees ·)) : Settled (e :: past) seat id :=
    .of_retired delivers.own reads gone
  generalize pends : k.pending = pending at ends
  cases ends with
  | again unloaded _ _ _ =>
      rcases held with here | ⟨after, upTo⟩
      · rw [Cursor.InHand, if_neg (by simp [unloaded])] at here
        exact .inl (.of_served (here ▸ delivers.servedTo?))
      · exact absurd upTo (Int.not_le.2 after)
  | fetched begins claimed _ _ =>
      rcases begins.claims claimed nonzero held with same | gone
      · cases same
        exact .inl (.of_served delivers.servedTo?)
      · exact .inl (settled gone)
  | waiting begins claimed _ =>
      rcases begins.claims claimed nonzero held with same | gone
      · exact .inr (.of_pending delivers.cursorOf? loaded (pends.trans same))
      · exact .inl (settled gone)
  | caughtUp begins claimed _ =>
      rcases begins.claims claimed nonzero held with same | gone
      · cases same
      · exact .inl (settled gone)

private theorem accounted_of_failed (run : Run (Sound seat.queue) past)
    (found : e.before = storageAfter past) (own : e.call.seat? = some seat)
    (asked : e.call.request = .dequeue c config cursor s) (shared : config.partitioner = .roundRobin)
    (follows : Follows past seat s) (holds : (storageAfter past).table.Holds seat a r)
    (rest : cursor.loaded = true → cursor.AtRest seat.queue (storageAfter past).table)
    (rest' : e.outcome.cursor.loaded = true → e.outcome.cursor.AtRest seat.queue e.after.table)
    {err : QueueError} {t : Turn} (failed : e.call.queue.dequeue c config s
      ⟨{ e.before with plan := e.call.plan }, cursor⟩ = .error err t) (nonzero : id ≠ noEntry)
    (held : cursor.InHand a id ∧ (id.toNat : Int) ≤ (storageAfter past).table.standing seat.groupRow ∨
      (storageAfter past).table.standing seat.groupRow < id.toNat ∧
        (id.toNat : Int) ≤ e.after.table.standing seat.groupRow) :
    Settled (e :: past) seat id ∨ Dropped (e :: past) seat id ∨ Recorded (e :: past) seat id := by
  have here := Call.seat_eq own (by rw [asked]; rfl)
  subst here
  have reads : e.call.request.snapshot? = some s := by rw [asked]; rfl
  obtain ⟨_, after, left⟩ := Event.servedTo?_of_error asked failed
  have performed := Event.outcome_of_dequeue asked
  rw [failed] at performed
  obtain ⟨footing, seen⟩ := footing_of_repair run follows holds
  have least := standing_nonneg run (e.call.queue.seat c).groupRow
  rw [left, after] at rest'
  rw [after] at held
  rw [← found] at footing seen least rest held
  have leaves := @Queue.left_of_failed e.call.queue c config s past a r
    ⟨{ e.before with plan := e.call.plan }, cursor⟩ t err shared footing seen least rest failed rest' id
    nonzero held
  cases leaves with
  | pending loaded pends =>
      have kept := left ▸ Event.cursorOf?_of_dequeue own asked
      exact .inr (.inr (.of_pending kept loaded pends))
  | active stores =>
      rw [← after] at stores
      exact .inr (.inr (.inl stores))
  | retired gone => exact .inl (.of_retired own reads gone)
  | unstored why =>
      obtain ⟨storing, x, w, served⟩ := why
      refine .inr (.inl (.of_drops
        ⟨own, c, config, cursor, s, asked, .inl ⟨err, x, w, ?_, storing, served⟩⟩))
      rw [performed]
      rfl

private theorem of_dequeue (h : Custody seat past) (further : Run (Sound seat.queue) (e :: past))
    (own : e.call.seat? = some seat) (asked : e.call.request = .dequeue c config cursor s)
    (shared : config.partitioner = .roundRobin) (may : MayPass past seat cursor)
    (follows : Follows past seat s) : Custody seat (e :: past) := by
  obtain ⟨run, _, found⟩ := Run.cons_iff.1 further
  obtain ⟨a, r, holds⟩ := (legible_of_run run).exists_holds
  have rest (loaded : cursor.loaded = true) :
      cursor.AtRest seat.queue (storageAfter past).table := h.rests cursor (may.last loaded) loaded
  obtain ⟨_, rest', _⟩ := @held_of_dequeue past seat e c config cursor s (fun _ => True) run found own
    asked shared may follows h.rests (fun _ _ _ => trivial) (fun _ _ _ _ _ => trivial)
    fun _ _ => trivial
  refine ⟨fun k last loaded => ?_, fun id took => ?_⟩
  · cases (lastCursor?_cons_of_some (Event.cursorOf?_of_dequeue own asked)).symm.trans last
    exact (rest' loaded).1
  · have nonzero := took_pos further took
    have held : Settled (e :: past) seat id ∨ Dropped (e :: past) seat id ∨
        (cursor.InHand a id ∧
            (id.toNat : Int) ≤ (storageAfter past).table.standing seat.groupRow ∨
          (storageAfter past).table.standing seat.groupRow < id.toNat ∧
            (id.toNat : Int) ≤ e.after.table.standing seat.groupRow) := by
      rcases took_cons.1 took with ⟨_, after, below⟩ | before
      · exact .inr (.inr (.inr ⟨found ▸ after, below⟩))
      · exact (h.in_hand own asked may holds before).imp_right
          (.imp_right fun here => .inl ⟨here, took_le run before⟩)
    rcases held with settled | dropped | held
    · exact .inl settled
    · exact .inr (.inl dropped)
    · cases done : e.call.queue.dequeue c config s
          ⟨{ e.before with plan := e.call.plan }, cursor⟩ with
      | ok delivery t =>
          obtain ⟨delivers, loaded, _, ends⟩ :=
            turn_of_answered run found own asked shared follows holds rest done
          exact (accounted_of_turn (by rw [asked]; rfl) delivers loaded ends nonzero
            (held.imp_left And.left)).imp_right .inr
      | error err t =>
          exact accounted_of_failed run found own asked shared follows holds rest
            (fun loaded => (rest' loaded).1) done nonzero held

end Request

variable {queue : String} {group : GroupId}

/-- After every run what a member has taken is accounted for. -/
theorem of_run (run : Run (SharedFallible queue group) past) (member : InstanceId) :
    Custody ⟨queue, group, member⟩ past := by
  induction run with
  | start => exact start _
  | @next past call earlier fits ih =>
      have sound : Run (Sound queue) (⟨call, storageAfter past⟩ :: past) :=
        (Run.next earlier fits).mono fun _ _ _ fits => fits.1
      let e : Event := ⟨call, storageAfter past⟩
      by_cases own : call.seat? = some ⟨queue, group, member⟩
      · rcases fits.own_cases own with
          ⟨c, config, cursor, s, asked, shared, may, follows⟩ | ⟨p, c, s, asked, follows⟩
        · exact ih.of_dequeue (e := e) sound own asked shared may follows
        · exact ih.of_ack (e := e) (Run.cons_iff.1 sound).1 rfl own asked follows
      · exact ih.of_other (e := e) rfl fits.1.1 own

end Custody

end VersionedQueue
