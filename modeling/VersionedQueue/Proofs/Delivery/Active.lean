import VersionedQueue.Proofs.Delivery.Ledger
import VersionedQueue.Proofs.Run.Legible

/-!
# The active entry of a row

A request for an entry leaves the active entry of the consumer's row, or clears it, or stores the entry
that it leaves the consumer with.  An acknowledgement clears it if it is the one acknowledged, and a
handing back that was not remarked on stores the entry handed back.  The read pointer is stored by
requests that are answered.
-/

set_option autoImplicit false
set_option relaxedAutoImplicit false

namespace VersionedQueue

namespace Queue

variable {q : Queue} {c : Consumer} {config : Config} {s : Snapshot} {t : Turn} {a r : EntryId}

private theorem holds_of_cleared {table table' : Table} (cleared : Cleared q c s table table')
    (newest : table.Until (q.seat c).row s.writeVersion) (holds : table.Holds (q.seat c) a r) :
    table'.Holds (q.seat c) noEntry r where
  active := by
    rw [Table.stored, Table.Alike.history cleared, Table.history_record, if_pos ⟨rfl, rfl⟩,
      History.latest_record (newest _)]
    exact storedId?_ofUInt64 noEntry
  readPointer := by
    rw [Table.stored, cleared.history (by simp [Column.encode])]
    exact holds.readPointer

private theorem ends_ensureLoaded_row (holds : t.storage.table.Holds (q.seat c) a r)
    (newest : t.storage.table.Until (q.seat c).row s.writeVersion) :
    Ends (q.ensureLoaded c config s) t
      (fun _ u => u.storage.table.Until (q.seat c).row s.writeVersion ∧
        ∃ a', u.storage.table.Holds (q.seat c) a' r ∧ (a' = a ∨ a' = noEntry))
      fun _ u => u.storage.table.Holds (q.seat c) a r := by
  cases loaded : t.cursor.loaded with
  | true =>
      exact .answered (q.ensureLoaded_of_loaded c config s loaded) ⟨newest, a, holds, .inl rfl⟩
  | false =>
      have touched := (@keeps_ensureLoaded q c config s).ends t
      refine .intro (fun _ u done => ⟨newest.of_touched (touched.of_ok done).1, ?_⟩) fun e u failed => ?_
      · rw [q.ensureLoaded_of_unloaded c config s loaded] at done
        rcases untouched_of_load done with same | cleared
        · exact ⟨a, holds.of_alike same, .inl rfl⟩
        · exact ⟨noEntry, holds_of_cleared cleared newest holds, .inr rfl⟩
      · rw [q.ensureLoaded_of_unloaded c config s loaded] at failed
        exact holds.of_alike ((ends_load t.cursor).of_error failed).1

private theorem ends_handOut_row (holds : t.storage.table.Holds (q.seat c) a r)
    (newest : t.storage.table.Until (q.seat c).row s.writeVersion) :
    Ends (q.handOut c config s) t
      (fun d u => ∃ a', u.storage.table.Holds (q.seat c) a' u.cursor.readPointer ∧
        (a' = a ∨ (d.pointer?.map (·.id)).or u.cursor.pending = some a'))
      fun _ u => u.storage.table.Holds (q.seat c) a r := by
  cases cached : t.cursor.cache.entries with
  | nil =>
      refine (ends_handOut_nothing cached).imp ?_ fun _ _ same => holds.of_alike same.1
      rintro _ u ⟨rfl, cursor, table⟩
      obtain ⟨wrote, kept⟩ := Table.stored_recordAll table (restingCells_in_row _)
        (restingCells_nodup _) newest
      have read : storedId? (u.storage.table.stored (q.seat c) .readPointer) =
          some u.cursor.readPointer := by
        rw [wrote .readPointer _ List.mem_cons_self, cursor]
        exact storedId?_ofUInt64 _
      cases pends : t.cursor.pending with
      | none =>
          have out : Column.active ∉ (restingCells t.cursor).map (·.1) := by simp [restingCells, pends]
          refine ⟨a, ⟨?_, read⟩, .inl rfl⟩
          rw [Table.stored, kept .active trivial out]
          exact holds.active
      | some id =>
          refine ⟨id, ⟨?_, read⟩, .inr (by rw [cursor]; exact pends)⟩
          rw [wrote .active (Bytes.ofUInt64 id) (by simp [restingCells, pends])]
          exact storedId?_ofUInt64 id
  | cons entry rest =>
      refine (ends_handOut_next cached).imp ?_ fun _ _ failed => holds.of_alike failed.2.2
      rintro _ u ⟨rfl, cursor, table⟩
      obtain ⟨wrote, _⟩ := Table.stored_recordAll table (handingCells_in_row _ _ _)
        (handingCells_nodup _ _ _) newest
      refine ⟨entry.id, ⟨?_, ?_⟩, .inr rfl⟩
      · rw [wrote .active _ (mem_handingCells_active.2 rfl)]
        exact storedId?_ofUInt64 entry.id
      · rw [wrote .readPointer _ List.mem_cons_self, cursor]
        exact storedId?_ofUInt64 _

theorem ends_dequeue_row (holds : t.storage.table.Holds (q.seat c) a r)
    (newest : t.storage.table.Until (q.seat c).row s.writeVersion) :
    Ends (q.dequeue c config s) t
      (fun d u => ∃ a', u.storage.table.Holds (q.seat c) a' u.cursor.readPointer ∧
        (a' = a ∨ a' = noEntry ∨ (d.pointer?.map (·.id)).or u.cursor.pending = some a'))
      fun _ u => ∃ a', u.storage.table.Holds (q.seat c) a' r ∧ (a' = a ∨ a' = noEntry) := by
  unfold dequeue
  refine Ends.ofExcept_bind (fun _ _ => ⟨a, holds, .inl rfl⟩) fun _ _ => ?_
  refine Ends.ofExcept_bind (fun _ _ => ⟨a, holds, .inl rfl⟩) fun _ _ => ?_
  refine ((ends_ensureLoaded_row holds newest).imp (fun _ _ done => done)
    fun _ u kept => ⟨a, kept, .inl rfl⟩).bind ?_
  rintro _ u ⟨newest, a₁, holds, which⟩
  have refills : Ends (q.refill c config s) u
      (fun _ v => v.storage.table.Until (q.seat c).row s.writeVersion ∧
        v.storage.table.Holds (q.seat c) a₁ r)
      fun _ v => ∃ a', v.storage.table.Holds (q.seat c) a' r ∧ (a' = a ∨ a' = noEntry) := by
    have refilled : (Turn.touched (· = (q.seat c).groupRow) 0).Keeps (q.refill c config s) :=
      fun t => touched_refill t
    have same {v : Turn} (touched : u.storage.table.Touched (· = (q.seat c).groupRow) 0
        v.storage.table) (column : Bytes) :
        v.storage.table.history (q.seat c).row column = u.storage.table.history (q.seat c).row column :=
      touched.history _ (q.seat c).row_ne_groupRow column
    have still {v : Turn} (touched : u.storage.table.Touched (· = (q.seat c).groupRow) 0
        v.storage.table) : v.storage.table.Holds (q.seat c) a₁ r :=
      holds.of_stored (by simp only [Table.stored, same touched]) (by simp only [Table.stored, same touched])
    refine (refilled.ends u).imp (fun _ v moved => ⟨fun column w has => ?_, still moved.1⟩)
      fun _ v moved => ⟨a₁, still moved.1, which⟩
    rw [same moved.1] at has
    exact newest column w has
  refine refills.bind fun _ v filled => (ends_handOut_row filled.2 filled.1).imp ?_
    fun _ w kept => ⟨a₁, kept, which⟩
  rintro d w ⟨a', holds, kept | leaves⟩
  · exact ⟨a', holds, kept ▸ which.imp_right .inl⟩
  · exact ⟨a', holds, .inr (.inr leaves)⟩

end Queue

namespace Event

variable {e : Event} {seat : Seat} {id : EntryId} {c : Consumer} {config : Config} {cursor : Cursor}
  {s : Snapshot}

theorem holds_of_other (name : e.call.queue.name = seat.queue) (other : e.call.seat? ≠ some seat)
    {a r : EntryId} (holds : e.before.table.Holds seat a r) : e.after.table.Holds seat a r := by
  apply holds.of_stored
  · exact congrArg History.latest (history_row name other _)
  · exact congrArg History.latest (history_row name other _)

theorem HandsBack.opens (back : e.HandsBack seat id) : e.opens? seat = some id := by
  obtain ⟨own, ⟨c, s, asked⟩, answered⟩ := back
  have unremarked : e.outcome.answer = .ok (.unacked []) := by
    unfold unacked? at answered
    split at answered
    · rename_i warnings here
      rw [here, Option.some.inj answered]
    · cases answered
  simp [opens?, own, asked, unremarked]

theorem handsBack_of_opens (name : e.call.queue.name = seat.queue) (aside : e.cursorOf? seat = none)
    (opens : e.opens? seat = some id) : e.HandsBack seat id := by
  have own : e.call.seat? = some seat := Classical.byContradiction fun other => by
    cases (opens?_of_other other).symm.trans opens
  have unasked : ∀ c config cursor s, e.call.request ≠ .dequeue c config cursor s := by
    intro c config cursor s asked
    cases aside.symm.trans (cursorOf?_of_dequeue own asked)
  have came : e.OpensWhatCame seat id := opens?_iff name fun _ c config cursor s asked =>
    absurd asked (unasked c config cursor s)
  rcases came.1 opens with served | waits | back
  · obtain ⟨_, _, answered, _⟩ := own_of_servedTo? served
    obtain ⟨c, config, cursor, s, asked⟩ := exists_dequeue answered
    exact absurd asked (unasked c config cursor s)
  · obtain ⟨c, config, cursor, s, asked⟩ := waits.asks
    exact absurd asked (unasked c config cursor s)
  · exact back

theorem servedTo?_of_aside (aside : e.cursorOf? seat = none) : e.servedTo? seat = none := by
  cases served : e.servedTo? seat with
  | none => rfl
  | some id =>
      obtain ⟨own, _, answered, _⟩ := own_of_servedTo? served
      obtain ⟨c, config, cursor, s, asked⟩ := exists_dequeue answered
      cases aside.symm.trans (cursorOf?_of_dequeue own asked)

theorem leaves_of_opens (own : e.call.seat? = some seat)
    (asked : e.call.request = .dequeue c config cursor s) (opens : e.opens? seat = some id) :
    e.leaves? seat = some id ∧ e.delivery? ≠ none := by
  cases done : e.call.queue.dequeue c config s ⟨{ e.before with plan := e.call.plan }, cursor⟩ with
  | ok d t =>
      obtain ⟨delivers, _⟩ := delivers_of_ok own asked done
      rw [opens?_of_delivers delivers asked] at opens
      rw [delivers.leaves?, delivers.delivery?]
      refine ⟨?_, nofun⟩
      cases d with
      | served ptr x =>
          simp only [Delivery.opens?] at opens
          split at opens
          · cases opens
          · exact opens
      | empty => exact opens
  | error err t =>
      have performed := outcome_of_dequeue asked
      rw [done] at performed
      rw [opens?_of_failed asked (by rw [performed]; rfl)] at opens
      cases opens

theorem opens_of_leaves (own : e.call.seat? = some seat)
    (asked : e.call.request = .dequeue c config cursor s) (shared : config.partitioner = .roundRobin)
    (answered : e.delivery? ≠ none) (leaves : e.leaves? seat = some id) : e.opens? seat = some id := by
  cases done : e.call.queue.dequeue c config s ⟨{ e.before with plan := e.call.plan }, cursor⟩ with
  | ok d t =>
      obtain ⟨delivers, _⟩ := delivers_of_ok own asked done
      rw [delivers.leaves?] at leaves
      rw [opens?_of_delivers delivers asked]
      cases d with
      | served ptr x =>
          rw [Delivery.opens?, shared]
          exact leaves
      | empty => exact leaves
  | error err t => exact absurd (servedTo?_of_error asked done).1 answered

end Event

namespace Consistent

variable {seat : Seat} {p : Partitioner} {past : List Event} {e : Event} {id : EntryId} {c : Consumer}
  {config : Config} {cursor : Cursor} {s : Snapshot}

theorem exists_holds (run : Run (Consistent seat p) past) :
    ∃ a r, (storageAfter past).table.Holds seat a r :=
  (OneQueue.legible (oneQueue run)).exists_holds

theorem row_of_ack (run : Run (Consistent seat p) (e :: past)) (own : e.call.seat? = some seat)
    {ptr : Pointer} (asked : e.call.request = .ack ptr c s) {a r : EntryId}
    (holds : e.before.table.Holds seat a r) :
    e.ackedBy? seat = some ptr.id ∧
        e.after.table.Holds seat (if a = ptr.id then noEntry else a) r ∨
      e.ackedBy? seat = none ∧ e.after.table.Holds seat a r := by
  have seen := rowSeen run own (s := s) (by rw [asked]; rfl)
  have here := Call.seat_eq own (by rw [asked]; rfl)
  subst here
  have ends := @Queue.ends_ack e.call.queue c s { e.before with plan := e.call.plan } ptr
  cases done : e.call.queue.ack ptr c s { e.before with plan := e.call.plan } with
  | ok u st =>
      obtain ⟨acked, after⟩ := Event.ackedBy?_of_ack own asked done
      rw [after]
      exact .inl ⟨acked, Queue.holds_of_acked (ends.of_ok done).1 holds seen⟩
  | error err st =>
      obtain ⟨refused, after⟩ := @Event.ackedBy?_of_refused e (e.call.queue.seat c) ptr c s asked st err done
      rw [after]
      exact .inr ⟨refused, holds.of_alike (ends.of_error done).1.1⟩

theorem row_of_unack (run : Run (Consistent seat p) (e :: past)) (own : e.call.seat? = some seat)
    {ptr : Pointer} (asked : e.call.request = .unack ptr c s) {a r : EntryId}
    (holds : e.before.table.Holds seat a r) :
    e.opens? seat = none ∧ e.before.table.Alike e.after.table ∨
      claimState seat ptr.id past ≠ some .acked ∧ e.HandsBack seat ptr.id ∧
        e.after.table.Holds seat ptr.id r := by
  have name : e.call.queue.name = seat.queue := (Run.cons_iff.1 run).2.1.name
  have seen := rowSeen run own (s := s) (by rw [asked]; rfl)
  have read := decodeClaim_of_run run own (s := s) (by rw [asked]; rfl) (by rw [asked]; rfl) ptr.id
  have here := Call.seat_eq own (by rw [asked]; rfl)
  subst here
  have ends := @Queue.ends_unack e.call.queue c s { e.before with plan := e.call.plan } ptr
  have performed := Event.outcome_of_unack asked
  cases done : e.call.queue.unack ptr c s { e.before with plan := e.call.plan } with
  | ok warnings st =>
      rw [done] at performed
      have after : e.after = st := by rw [Event.after, performed]; rfl
      rw [after]
      obtain ⟨_, claim, read', ⟨_, rfl, same⟩ | ⟨unacked, rfl, wrote⟩⟩ := ends.of_ok done
      · exact .inl ⟨by simp [Event.opens?, asked, performed, Outcome.ofStorage], same.1⟩
      · cases read.symm.trans read'
        refine .inr ⟨unacked, Event.handsBack_of_unacked name own asked ?_,
          Queue.holds_of_reopened wrote holds seen.until⟩
        simp [Event.unacked?, performed, Outcome.ofStorage]
  | error err st =>
      rw [done] at performed
      have after : e.after = st := by rw [Event.after, performed]; rfl
      rw [after]
      exact .inl ⟨by simp [Event.opens?, asked, performed, Outcome.ofStorage], (ends.of_error done).1⟩

theorem row_aside (run : Run (Consistent seat p) (e :: past)) (aside : e.cursorOf? seat = none)
    {a r : EntryId} (holds : e.before.table.Holds seat a r) :
    ∃ a', e.after.table.Holds seat a' r ∧ (a' = a ∨ a' = noEntry ∨ e.HandsBack seat a') := by
  by_cases own : e.call.seat? = some seat
  · rcases Call.own_cases own with
      ⟨c, config, cursor, s, asked⟩ | ⟨ptr, c, s, asked⟩ | ⟨ptr, c, s, asked⟩
    · cases aside.symm.trans (Event.cursorOf?_of_dequeue own asked)
    · rcases row_of_ack run own asked holds with ⟨_, holds'⟩ | ⟨_, holds'⟩
      · refine ⟨_, holds', ?_⟩
        split
        · exact .inr (.inl rfl)
        · exact .inl rfl
      · exact ⟨a, holds', .inl rfl⟩
    · rcases row_of_unack run own asked holds with ⟨_, same⟩ | ⟨_, back, holds'⟩
      · exact ⟨a, holds.of_alike same, .inl rfl⟩
      · exact ⟨ptr.id, holds', .inr (.inr back)⟩
  · exact ⟨a, Event.holds_of_other (Run.cons_iff.1 run).2.1.name own holds, .inl rfl⟩

/-- What the row of the consumer holds after a request. -/
theorem row_of_dequeue (run : Run (Consistent seat p) (e :: past)) (own : e.call.seat? = some seat)
    (asked : e.call.request = .dequeue c config cursor s)
    {a r : EntryId} (holds : e.before.table.Holds seat a r) :
    ∃ a' r', e.after.table.Holds seat a' r' ∧
      (a' = a ∨ a' = noEntry ∨ e.delivery? ≠ none ∧ e.leaves? seat = some a') ∧
      (r' = r ∧ e.delivery? = none ∨ r' = e.outcome.cursor.readPointer ∧ e.delivery? ≠ none) := by
  have seen := rowSeen run own (s := s) (by rw [asked]; rfl)
  have here := Call.seat_eq own (by rw [asked]; rfl)
  subst here
  have ends := @Queue.ends_dequeue_row e.call.queue c config s
    ⟨{ e.before with plan := e.call.plan }, cursor⟩ a r holds seen.until
  cases done : e.call.queue.dequeue c config s ⟨{ e.before with plan := e.call.plan }, cursor⟩ with
  | ok d t =>
      obtain ⟨delivers, after⟩ := Event.delivers_of_ok own asked done
      obtain ⟨a', holds', which⟩ := ends.of_ok done
      rw [delivers.cursor, after, delivers.leaves?, delivers.delivery?]
      exact ⟨a', _, holds', which.imp_right fun which => which.imp_right fun leaves => ⟨nofun, leaves⟩,
        .inr ⟨rfl, nofun⟩⟩
  | error err t =>
      obtain ⟨unanswered, after, _⟩ := Event.servedTo?_of_error asked done
      obtain ⟨a', holds', which⟩ := ends.of_error done
      rw [after, unanswered]
      exact ⟨a', r, holds', which.imp_right .inl, .inl ⟨rfl, rfl⟩⟩

theorem row_of_handsBack (run : Run (Consistent seat p) (e :: past)) (back : e.HandsBack seat id) :
    claimState seat id past ≠ some .acked ∧ Stores (e :: past) seat id := by
  have opens := back.opens
  obtain ⟨own, ⟨c, s, asked⟩, _⟩ := back
  obtain ⟨earlier, _, found⟩ := Run.cons_iff.1 run
  obtain ⟨a, r, holds⟩ := exists_holds earlier
  rcases row_of_unack run own asked (found ▸ holds) with ⟨shut, _⟩ | ⟨unacked, _, holds'⟩
  · cases shut.symm.trans opens
  · exact ⟨unacked, holds'.active⟩

theorem inactive_of_ackedBy (run : Run (Consistent seat p) (e :: past)) (acked : e.ackedBy? seat = some id)
    (stores : Stores (e :: past) seat id) : id = noEntry := by
  have own : e.call.seat? = some seat := Classical.byContradiction fun other => by
    cases (Event.ackedBy?_of_other other).symm.trans acked
  obtain ⟨a, r, holds⟩ := exists_holds (Run.cons_iff.1 run).1
  rcases Call.own_cases own with
    ⟨c, config, cursor, s, asked⟩ | ⟨ptr, c, s, asked⟩ | ⟨ptr, c, s, asked⟩
  · cases (Event.ackedBy?_of_dequeue asked).symm.trans acked
  · rcases row_of_ack run own asked ((Run.cons_iff.1 run).2.2 ▸ holds) with ⟨here, holds'⟩ | ⟨refused, _⟩
    · cases here.symm.trans acked
      have same := Option.some.inj (holds'.active.symm.trans stores)
      split at same
      · exact same.symm
      · rename_i other
        exact absurd same other
    · cases refused.symm.trans acked
  · simp [Event.ackedBy?, asked] at acked

/-- What is the active entry of a member's row after a call was so before it, or the call opened the
member's claim on it. -/
theorem stores_cases (run : Run (Consistent seat .roundRobin) (e :: past))
    (stores : Stores (e :: past) seat id) :
    id = noEntry ∨ Stores past seat id ∨ e.opens? seat = some id := by
  obtain ⟨earlier, fits, found⟩ := Run.cons_iff.1 run
  obtain ⟨a, r, holds⟩ := exists_holds earlier
  have before (same : id = a) : Stores past seat id := same ▸ holds.active
  rw [← found] at holds
  cases left : e.cursorOf? seat with
  | none =>
      obtain ⟨a', holds', which⟩ := row_aside run left holds
      cases holds'.active.symm.trans stores
      rcases which with same | none | back
      · exact .inr (.inl (before same))
      · exact .inl none
      · exact .inr (.inr back.opens)
  | some k =>
      obtain ⟨own, c, config, cursor, s, asked⟩ := Event.dequeue_of_cursorOf? left
      obtain ⟨a', _, holds', which, _⟩ := row_of_dequeue run own asked holds
      cases holds'.active.symm.trans stores
      rcases which with same | none | ⟨answered, leaves⟩
      · exact .inr (.inl (before same))
      · exact .inl none
      · exact .inr (.inr (Event.opens_of_leaves own asked (fits.asks own _ _ _ _ asked) answered leaves))

theorem inactive_of_acked (run : Run (Consistent seat .roundRobin) past)
    (acked : claimState seat id past = some .acked) (stores : Stores past seat id) : id = noEntry := by
  induction run with
  | start => cases acked
  | @next past call earlier fits ih =>
      let e : Event := ⟨call, storageAfter past⟩
      have run : Run (Consistent seat .roundRobin) (e :: past) := .next earlier fits
      change claimState seat id (e :: past) = _ at acked
      rcases stores_cases run stores with none | before | opens
      · exact none
      · by_cases now : e.ackedBy? seat = some id
        · exact inactive_of_ackedBy run now stores
        · -- The entry was acknowledged before, so that it was not active then.
          rw [claimState, if_neg now] at acked
          split at acked
          · cases acked
          · exact ih acked before
      · rw [claimState, if_pos opens] at acked
        cases acked

end Consistent

end VersionedQueue
