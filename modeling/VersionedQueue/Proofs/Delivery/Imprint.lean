import VersionedQueue.Proofs.Delivery.Retold

/-!
# What calls leave at their versions

A request for an entry that is answered has written to the row of its consumer at the version of its
snapshot, whatever it was answered, and so has an acknowledgement that is accepted.  So which versions a
consumer has written at can be told from what its calls were answered, and snapshots that follow each other
in one run do so in every run that tells the same.
-/

set_option autoImplicit false
set_option relaxedAutoImplicit false

namespace VersionedQueue

theorem Table.has_of_cell {t : Table} {row : Bytes} {cells : List (Column × Bytes)} {v : Version}
    {column : Column} {x : Bytes} (mem : (column, x) ∈ cells) :
    ((t.recordAll row (cells.map fun cell => (cell.1.encode, cell.2)) v).history row
      column.encode).Has v :=
  has_recordAll (List.mem_map_of_mem (f := fun cell : Column × Bytes => (cell.1.encode, cell.2)) mem)

theorem Queue.ends_dequeue_has {q : Queue} {c : Consumer} {config : Config} {s : Snapshot} {t : Turn} :
    Ends (q.dequeue c config s) t
      (fun _ u => (u.storage.table.history (q.seat c).row Column.readPointer.encode).Has s.writeVersion)
      fun _ _ => True := by
  have any {α : Type} (act : TurnM α) (t : Turn) : Ends act t (fun _ _ => True) fun _ _ => True :=
    .intro (fun _ _ _ => trivial) fun _ _ _ => trivial
  have hands (t : Turn) : Ends (q.handOut c config s) t
      (fun _ u => (u.storage.table.history (q.seat c).row Column.readPointer.encode).Has s.writeVersion)
      fun _ _ => True := by
    cases cached : t.cursor.cache.entries with
    | nil =>
        refine (ends_handOut_nothing cached).imp (fun _ u done => ?_) fun _ _ _ => trivial
        rw [done.2.2]
        exact Table.has_of_cell List.mem_cons_self
    | cons entry rest =>
        refine (ends_handOut_next cached).imp (fun _ u done => ?_) fun _ _ _ => trivial
        rw [done.2.2]
        exact Table.has_of_cell List.mem_cons_self
  unfold dequeue
  refine Ends.ofExcept_bind (fun _ _ => trivial) fun _ _ => ?_
  refine Ends.ofExcept_bind (fun _ _ => trivial) fun _ _ => ?_
  exact (any _ t).bind fun _ u _ => (any _ u).bind fun _ v _ => hands v

namespace Event

variable {e : Event} {seat : Seat} {c : Consumer} {s : Snapshot}

theorem has_of_delivery {config : Config} {cursor : Cursor} (own : e.call.seat? = some seat)
    (asked : e.call.request = .dequeue c config cursor s) (answered : e.delivery? ≠ none) :
    (e.after.table.history seat.row Column.readPointer.encode).Has s.writeVersion := by
  have here := Call.seat_eq own (by rw [asked]; rfl)
  subst here
  cases done : e.call.queue.dequeue c config s ⟨{ e.before with plan := e.call.plan }, cursor⟩ with
  | error err t => exact absurd (servedTo?_of_error asked done).1 answered
  | ok d t =>
      rw [(delivers_of_ok own asked done).2]
      exact Queue.ends_dequeue_has.of_ok done

theorem has_of_acked {p : Pointer} (own : e.call.seat? = some seat)
    (asked : e.call.request = .ack p c s) (acked : e.ackedBy? seat = some p.id) :
    (e.after.table.history seat.row (Column.claim p.id).encode).Has s.writeVersion := by
  have here := Call.seat_eq own (by rw [asked]; rfl)
  subst here
  cases done : e.call.queue.ack p c s { e.before with plan := e.call.plan } with
  | error err st =>
      rw [(ackedBy?_of_refused asked done).1] at acked
      cases acked
  | ok u st =>
      obtain ⟨⟨t, _, table⟩, _⟩ := (e.call.queue.ends_ack c s p).of_ok done
      rw [(ackedBy?_of_ack own asked done).2, table]
      exact Table.has_of_cell List.mem_cons_self

end Event

section Follows

variable {seat : Seat} {past past' : List Event} {s : Snapshot} {e : Event} {v : Version}

/-- A snapshot that follows the earlier ones of a consumer sees what the consumer's row had at any time. -/
theorem Follows.sees_of_has (h : Follows past seat s) (run : Run (OneQueue seat.queue) past)
    (mem : e ∈ past) {column : Bytes} (has : (e.after.table.history seat.row column).Has v) :
    s.sees v := by
  obtain ⟨newer, older, rfl⟩ := List.append_of_mem mem
  have part : e :: older <:+ newer ++ e :: older := List.suffix_append newer (e :: older)
  exact h.sees ((OneQueue.known_of_row (run.of_suffix part) column v has).mono part)

/-- A consumer's requests for entries are all answered, and it hands nothing back. -/
def AllAnswered (seat : Seat) (past : List Event) : Prop :=
  ∀ e ∈ past, e.call.seat? = some seat →
    (e.call.request.isDequeue = true → e.delivery? ≠ none) ∧
      ∀ p c s, e.call.request ≠ .unack p c s

theorem Retold.follows (h : Retold past past') (run : Run (OneQueue seat.queue) past)
    (answered : AllAnswered seat past) (follows : Follows past seat s) : Follows past' seat s := by
  intro e' mem' own' earlier reads'
  obtain ⟨e, mem, retells⟩ := h.exists_retold mem'
  have own : e.call.seat? = some seat := retells.seat?.symm.trans own'
  have reads : e.call.request.snapshot? = some earlier := retells.snapshot?.symm.trans reads'
  refine ⟨(follows e mem own earlier reads).1, fun wrote => ?_⟩
  rcases Call.own_cases own with
    ⟨c, config, cursor, s', asked⟩ | ⟨p, c, s', asked⟩ | ⟨p, c, s', asked⟩
  · rw [asked] at reads
    cases reads
    have delivered := (answered e mem own).1 (by rw [asked]; rfl)
    exact follows.sees_of_has run mem (Event.has_of_delivery own asked delivered)
  · rw [asked] at reads
    cases reads
    by_cases acked : e.ackedBy? seat = some p.id
    · exact follows.sees_of_has run mem (Event.has_of_acked own asked acked)
    · -- What is refused in the one run is refused in the other, and writes nothing.
      obtain ⟨column, changed⟩ := wrote
      have asked' : e'.call.request = .ack p c earlier := (retells.request_eq_iff rfl).2 asked
      have refused : e'.ackedBy? seat ≠ some p.id := by
        rw [retells.ackedBy?]
        exact acked
      exact absurd ((Consistent.alike_of_unaccepted own' asked' refused).history _ _) changed
  · exact absurd asked ((answered e mem own).2 p c s')

end Follows

end VersionedQueue
