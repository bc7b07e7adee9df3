import VersionedQueue.Proofs.Consumer.Ack
import VersionedQueue.Proofs.Run.Footprint

/-!
# Consumers that keep to the order of snapshots

A consumer knows the versions that its snapshots saw and those at which its calls wrote to its row.
All versions of its row are among them, so a snapshot that follows the earlier ones sees the whole
row.
-/

set_option autoImplicit false
set_option relaxedAutoImplicit false

namespace VersionedQueue

/-- What a consumer's snapshots have seen, and what its calls have written to its row. -/
def Known (past : List Event) (seat : Seat) (v : Version) : Prop :=
  ∃ e ∈ past, e.call.seat? = some seat ∧ ∃ s, e.call.request.snapshot? = some s ∧
    (s.sees v ∨ e.Writes seat.row ∧ v = s.writeVersion)

section Known

variable {past : List Event} {seat : Seat} {e : Event} {s : Snapshot} {v : Version}

theorem Known.mono {later : List Event} (h : Known past seat v) (part : past <:+ later) :
    Known later seat v := by
  obtain ⟨e, mem, rest⟩ := h
  exact ⟨e, part.subset mem, rest⟩

theorem Known.cons (h : Known past seat v) : Known (e :: past) seat v :=
  h.mono (List.suffix_cons e past)

theorem known_of_sees (own : e.call.seat? = some seat) (reads : e.call.request.snapshot? = some s)
    (seen : s.sees v) : Known (e :: past) seat v :=
  ⟨e, List.mem_cons_self, own, s, reads, .inl seen⟩

theorem Follows.sees (h : Follows past seat s) (known : Known past seat v) : s.sees v := by
  obtain ⟨e, mem, own, earlier, reads, seen | ⟨wrote, rfl⟩⟩ := known
  · exact (h e mem own earlier reads).1 v seen
  · exact (h e mem own earlier reads).2 wrote

theorem OneQueue.known_of_row (run : Run (OneQueue seat.queue) past) :
    ∀ column v, ((storageAfter past).table.history seat.row column).Has v → Known past seat v := by
  induction run with
  | start =>
      intro column v has
      simp [storageAfter, Table.history, History.Has] at has
  | @next past call earlier fits ih =>
      intro column v has
      let e : Event := ⟨call, storageAfter past⟩
      by_cases own : call.seat? = some seat
      · obtain ⟨s, reads⟩ : ∃ s, call.request.snapshot? = some s := by
          cases asked : call.request <;>
            simp [Call.seat?, asked, Request.consumer?, Request.snapshot?] at own ⊢
        have version : call.request.version = s.writeVersion := by
          cases asked : call.request <;> simp [asked, Request.snapshot?] at reads <;>
            simp [Request.version, reads]
        by_cases kept : e.after.table.history seat.row column =
            e.before.table.history seat.row column
        · have before : ((storageAfter past).table.history seat.row column).Has v := kept ▸ has
          exact (ih column v before).cons
        · by_cases now : v = s.writeVersion
          · exact ⟨e, List.mem_cons_self, own, s, reads, .inr ⟨⟨column, kept⟩, now⟩⟩
          · have same := e.touched.at? seat.row column v (version ▸ now)
            have before : ((storageAfter past).table.history seat.row column).Has v := by
              rw [History.Has, ← same]
              exact has
            exact (ih column v before).cons
      · have kept := Event.history_row (e := e) fits own column
        have before : ((storageAfter past).table.history seat.row column).Has v := kept ▸ has
        exact (ih column v before).cons

theorem known_of_row (run : Run (Sound seat.queue) past) :
    ∀ column v, ((storageAfter past).table.history seat.row column).Has v → Known past seat v :=
  OneQueue.known_of_row run.oneQueue

/-- A snapshot that follows the consumer's earlier ones sees the consumer's whole row. -/
theorem OneQueue.rowSeen (run : Run (OneQueue seat.queue) past) (h : Follows past seat s) :
    (storageAfter past).table.RowSeen seat.row s := fun column v has =>
  h.sees (OneQueue.known_of_row run column v has)

theorem Follows.rowSeen (h : Follows past seat s) (run : Run (Sound seat.queue) past) :
    (storageAfter past).table.RowSeen seat.row s := OneQueue.rowSeen run.oneQueue h

end Known

/-- An id is the active entry of a consumer's row. -/
def Stores (past : List Event) (seat : Seat) (id : EntryId) : Prop :=
  storedId? ((storageAfter past).table.stored seat .active) = some id

/-- The calls of a queue, as far as one consumer is concerned: the consumer asks for entries with
cursors that it may pass, never hands any back, and its snapshots follow each other. -/
def Orderly (seat : Seat) (fits : Consumer → Config → Prop) (past : List Event) (call : Call) :
    Prop :=
  Steady seat.queue past call ∧ (call.seat? = some seat →
    call.request.Meets
      (fun c config cursor s => fits c config ∧ config.validate = .ok () ∧
        c.validate config.partitioner = .ok () ∧ MayPass past seat cursor ∧ Follows past seat s)
      (fun _ _ s => Follows past seat s)
      fun _ _ _ => False)

namespace Call

variable {call : Call} {seat : Seat}

theorem seat_eq {c : Consumer} (own : call.seat? = some seat)
    (asks : call.request.consumer? = some c) : call.queue.seat c = seat := by
  simpa [Call.seat?, asks] using own

theorem name_eq (own : call.seat? = some seat) : call.queue.name = seat.queue := by
  obtain ⟨c, _, here⟩ := Option.map_eq_some_iff.1 own
  exact congrArg Seat.queue here

theorem own_cases (own : call.seat? = some seat) :
    (∃ c config cursor s, call.request = .dequeue c config cursor s) ∨
      (∃ p c s, call.request = .ack p c s) ∨ ∃ p c s, call.request = .unack p c s := by
  cases asked : call.request using Request.consumer_cases with
  | dequeue c config cursor s => exact .inl ⟨c, config, cursor, s, rfl⟩
  | ack p c s => exact .inr (.inl ⟨p, c, s, rfl⟩)
  | unack p c s => exact .inr (.inr ⟨p, c, s, rfl⟩)
  | aside request none => simp [Call.seat?, asked, none] at own

end Call

theorem MayPass.last {past : List Event} {seat : Seat} {cursor : Cursor}
    (h : MayPass past seat cursor) (loaded : cursor.loaded = true) :
    lastCursor? past seat = some cursor := by
  rcases h with unloaded | last
  · simp [loaded] at unloaded
  · exact last

namespace Orderly

variable {seat : Seat} {fits wider : Consumer → Config → Prop} {past : List Event} {call : Call}
  {p : Pointer} {c : Consumer} {config : Config} {cursor : Cursor} {s : Snapshot}

theorem of_dequeue (h : Orderly seat fits past call) (own : call.seat? = some seat)
    (asked : call.request = .dequeue c config cursor s) :
    call.plan = .none ∧ fits c config ∧ config.validate = .ok () ∧
      c.validate config.partitioner = .ok () ∧ MayPass past seat cursor ∧ Follows past seat s := by
  obtain ⟨⟨_, calm⟩, keeps⟩ := h
  have keeps := keeps own
  rw [asked] at keeps calm
  exact ⟨by simpa [Request.isEnqueue] using calm, keeps⟩

theorem of_ack (h : Orderly seat fits past call) (own : call.seat? = some seat)
    (asked : call.request = .ack p c s) : call.plan = .none ∧ Follows past seat s := by
  obtain ⟨⟨_, calm⟩, keeps⟩ := h
  have keeps := keeps own
  rw [asked] at keeps calm
  exact ⟨by simpa [Request.isEnqueue] using calm, keeps⟩

theorem own_cases (h : Orderly seat fits past call) (own : call.seat? = some seat) :
    (∃ c config cursor s, call.request = .dequeue c config cursor s) ∨
      ∃ p c s, call.request = .ack p c s := by
  rcases Call.own_cases own with asks | acks | ⟨p, c, s, asked⟩
  · exact .inl asks
  · exact .inr acks
  · have keeps := h.2 own
    rw [asked] at keeps
    exact keeps.elim

theorem imp (h : Orderly seat fits past call) (w : ∀ c config, fits c config → wider c config) :
    Orderly seat wider past call := by
  refine ⟨h.1, fun own => (h.2 own).imp ?_ (fun _ _ _ _ follows => follows)
    fun _ _ _ _ never => never⟩
  rintro c config cursor s _ ⟨fit, rest⟩
  exact ⟨w c config fit, rest⟩

end Orderly

/-- A consumer asked for an entry and got an answer, and a cursor to pass the next time. -/
structure Event.Delivers (e : Event) (seat : Seat) (delivery : Delivery) (cursor : Cursor) :
    Prop where
  own : e.call.seat? = some seat
  asked : e.call.request.isDequeue = true
  answer : e.outcome.answer = .ok (.delivered delivery)
  cursor : e.outcome.cursor = cursor

namespace Event

variable {e : Event} {seat : Seat} {delivery : Delivery} {k : Cursor}

theorem delivers_of_ok {c : Consumer} {config : Config} {cursor : Cursor} {s : Snapshot} {t : Turn}
    (own : e.call.seat? = some seat) (asked : e.call.request = .dequeue c config cursor s)
    (done : e.call.queue.dequeue c config s ⟨{ e.before with plan := e.call.plan }, cursor⟩ =
      .ok delivery t) : e.Delivers seat delivery t.cursor ∧ e.after = t.storage := by
  have performed : e.outcome = ⟨.ok (.delivered delivery), t.storage, t.cursor⟩ := by
    simp only [outcome, Call.perform, asked, done, Outcome.ofTurn]
  exact ⟨⟨own, by rw [asked]; rfl, by rw [performed], by rw [performed]⟩, by rw [after, performed]⟩

theorem Delivers.delivery? (h : e.Delivers seat delivery k) : e.delivery? = some delivery := by
  simp [Event.delivery?, h.answer]

theorem Delivers.servedTo? (h : e.Delivers seat delivery k) :
    e.servedTo? seat = delivery.pointer?.map (·.id) := by
  simp [Event.servedTo?, h.own, h.delivery?]

theorem Delivers.ackedBy? (h : e.Delivers seat delivery k) : e.ackedBy? seat = none := by
  have asked := h.asked
  cases request : e.call.request <;> simp [request, Request.isDequeue] at asked
  simp [Event.ackedBy?, request]

theorem Delivers.cursorOf? (h : e.Delivers seat delivery k) : e.cursorOf? seat = some k := by
  simp [Event.cursorOf?, h.own, h.asked, h.cursor]

theorem exists_dequeue {delivery : Delivery} (h : e.delivery? = some delivery) :
    ∃ c config cursor s, e.call.request = .dequeue c config cursor s := by
  have unanswered {α : Type} (wrap : α → Answer) (other : ∀ a d, wrap a ≠ .delivered d)
      (r : EStateM.Result QueueError Storage α) (performed : e.outcome = Outcome.ofStorage wrap r) :
      False := by
    simp only [delivery?, performed] at h
    cases r with
    | ok a st =>
        simp only [Outcome.ofStorage] at h
        split at h
        · rename_i same
          exact other _ _ (Except.ok.inj same)
        · cases h
    | error err st => simp [Outcome.ofStorage] at h
  cases asked : e.call.request with
  | dequeue c config cursor s => exact ⟨c, config, cursor, s, rfl⟩
  | enqueue entry v =>
      exact (unanswered .enqueued (by simp) _ (by simp only [outcome, Call.perform, asked]; rfl)).elim
  | invalidate p v =>
      exact (unanswered (fun _ : Unit => .invalidated) (by simp) _
        (by simp only [outcome, Call.perform, asked]; rfl)).elim
  | ack p c s =>
      exact (unanswered (fun _ : Unit => .acked) (by simp) _
        (by simp only [outcome, Call.perform, asked]; rfl)).elim
  | unack p c s =>
      exact (unanswered .unacked (by simp) _ (by simp only [outcome, Call.perform, asked]; rfl)).elim
  | allocateGroupId =>
      exact (unanswered .allocated (by simp) _ (by simp only [outcome, Call.perform, asked]; rfl)).elim
  | info =>
      exact (unanswered .informed (by simp) _ (by simp only [outcome, Call.perform, asked]; rfl)).elim

theorem Delivers.leaves? (h : e.Delivers seat delivery k) :
    e.leaves? seat = (delivery.pointer?.map (·.id)).or k.pending := by
  rw [Event.leaves?, h.servedTo?, h.cursorOf?, Option.bind_some]

theorem own_of_servedTo? {id : EntryId} (h : e.servedTo? seat = some id) :
    e.call.seat? = some seat ∧ ∃ delivery, e.delivery? = some delivery ∧
      delivery.pointer?.map (·.id) = some id := by
  unfold servedTo? at h
  split at h
  · rename_i own
    obtain ⟨delivery, answered, pointer⟩ := Option.bind_eq_some_iff.1 h
    exact ⟨own, delivery, answered, pointer⟩
  · cases h

theorem servedTo?_of_delivery {p : Pointer} {x : Entry} (own : e.call.seat? = some seat)
    (h : e.delivery? = some (.served p x)) : e.servedTo? seat = some p.id := by
  simp [servedTo?, own, h, Delivery.pointer?]

theorem exists_dequeue_of_isDequeue (h : e.call.request.isDequeue = true) :
    ∃ c config cursor s, e.call.request = .dequeue c config cursor s := by
  cases asked : e.call.request <;> simp [asked, Request.isDequeue] at h
  exact ⟨_, _, _, _, rfl⟩

theorem dequeue_of_cursorOf? (left : e.cursorOf? seat = some k) :
    e.call.seat? = some seat ∧ ∃ c config cursor s, e.call.request = .dequeue c config cursor s := by
  unfold cursorOf? at left
  split at left
  · rename_i asks
    exact ⟨asks.1, exists_dequeue_of_isDequeue asks.2⟩
  · cases left

theorem dequeue_of_leaves? {id : EntryId} (h : e.leaves? seat = some id) :
    e.call.seat? = some seat ∧ ∃ c config cursor s, e.call.request = .dequeue c config cursor s := by
  rcases Option.or_eq_some_iff.1 h with served | ⟨_, pends⟩
  · obtain ⟨own, _, answered, _⟩ := own_of_servedTo? served
    exact ⟨own, exists_dequeue answered⟩
  · obtain ⟨k, left, _⟩ := Option.bind_eq_some_iff.1 pends
    exact dequeue_of_cursorOf? left

theorem FindsNothing.asks (h : e.FindsNothing seat) :
    ∃ c config cursor s, e.call.request = .dequeue c config cursor s := by
  obtain ⟨_, empty⟩ := h
  cases answered : e.delivery? with
  | none => simp [answered] at empty
  | some delivery => exact exists_dequeue answered

theorem FindsNothing.delivery_eq (h : e.FindsNothing seat) (delivers : e.Delivers seat delivery k) :
    delivery = .empty := by
  have empty := h.2
  rw [delivers.delivery?] at empty
  cases delivery with
  | empty => rfl
  | served _ _ => simp [Delivery.isEmpty] at empty

section Dequeue

variable {c : Consumer} {config : Config} {cursor : Cursor} {s : Snapshot}

theorem outcome_of_dequeue (asked : e.call.request = .dequeue c config cursor s) :
    e.outcome = .ofTurn
      (e.call.queue.dequeue c config s ⟨{ e.before with plan := e.call.plan }, cursor⟩) := by
  simp only [outcome, Call.perform, asked]

theorem cursorOf?_of_dequeue (own : e.call.seat? = some seat)
    (asked : e.call.request = .dequeue c config cursor s) :
    e.cursorOf? seat = some e.outcome.cursor := by
  simp [cursorOf?, own, asked, Request.isDequeue]

theorem servedTo?_of_error (asked : e.call.request = .dequeue c config cursor s) {err : QueueError}
    {t : Turn} (failed : e.call.queue.dequeue c config s
      ⟨{ e.before with plan := e.call.plan }, cursor⟩ = .error err t) :
    e.delivery? = none ∧ e.after = t.storage ∧ e.outcome.cursor = t.cursor := by
  have performed := outcome_of_dequeue asked
  rw [failed] at performed
  exact ⟨by simp [delivery?, performed, Outcome.ofTurn], by rw [after, performed]; rfl,
    by rw [performed]; rfl⟩

end Dequeue

theorem servedTo?_of_other (other : e.call.seat? ≠ some seat) : e.servedTo? seat = none := by
  simp [servedTo?, other]

theorem ackedBy?_of_other (other : e.call.seat? ≠ some seat) : e.ackedBy? seat = none := by
  unfold ackedBy?
  split
  · rw [if_neg other]
  · rfl

theorem cursorOf?_of_other (other : e.call.seat? ≠ some seat) : e.cursorOf? seat = none := by
  simp [cursorOf?, other]

variable {p : Pointer} {c : Consumer} {s : Snapshot}

theorem servedTo?_of_ack (asked : e.call.request = .ack p c s) : e.servedTo? seat = none := by
  have nothing : e.delivery? = none := by
    simp only [delivery?, outcome, Call.perform, asked]
    cases e.call.queue.ack p c s { e.before with plan := e.call.plan } <;> rfl
  simp [servedTo?, nothing]

theorem cursorOf?_of_ack (asked : e.call.request = .ack p c s) : e.cursorOf? seat = none := by
  simp [cursorOf?, asked, Request.isDequeue]

theorem ackedBy?_of_ack (own : e.call.seat? = some seat) (asked : e.call.request = .ack p c s)
    {st : Storage}
    (done : e.call.queue.ack p c s { e.before with plan := e.call.plan } = .ok () st) :
    e.ackedBy? seat = some p.id ∧ e.after = st := by
  have performed : e.outcome = Outcome.ofStorage (fun _ : Unit => .acked) (.ok () st) := by
    simp only [outcome, Call.perform, asked, done]
  exact ⟨by simp [ackedBy?, asked, own, performed, Outcome.ofStorage],
    by simp [after, performed, Outcome.ofStorage]⟩

theorem ackedBy?_of_refused (asked : e.call.request = .ack p c s) {st : Storage} {err : QueueError}
    (refused : e.call.queue.ack p c s { e.before with plan := e.call.plan } = .error err st) :
    e.ackedBy? seat = none ∧ e.after = st := by
  have performed : e.outcome = Outcome.ofStorage (fun _ : Unit => .acked) (.error err st) := by
    simp only [outcome, Call.perform, asked, refused]
  exact ⟨by simp [ackedBy?, asked, performed, Outcome.ofStorage],
    by simp [after, performed, Outcome.ofStorage]⟩

theorem ack_of_ackedBy? {id : EntryId} (h : e.ackedBy? seat = some id) :
    e.call.seat? = some seat ∧ ∃ p c s, e.call.request = .ack p c s ∧ p.id = id := by
  unfold ackedBy? at h
  split at h
  · rename_i p c s _ asked _
    obtain ⟨own, same⟩ := Option.ite_none_right_eq_some.1 h
    exact ⟨own, p, c, s, asked, Option.some.inj same⟩
  · cases h

end Event

/-- On storage that works, a request under a snapshot that follows the consumer's earlier ones has a
footing. -/
theorem footing_of_repair {q : Queue} {past : List Event} {c : Consumer} {s : Snapshot}
    {a r : EntryId} (run : Run (Sound q.name) past) (follows : Follows past (q.seat c) s)
    (holds : (storageAfter past).table.Holds (q.seat c) a r) :
    Footing q c s past a r (storageAfter past).repair ∧
      (storageAfter past).table.RowSeen (q.seat c).row s := by
  have seen : (storageAfter past).table.RowSeen (q.seat c).row s := follows.rowSeen run
  have stored := Stored.of_run run
  exact ⟨⟨⟨rfl, stored.works⟩, stored, holds, seen.until⟩, seen⟩

theorem footing_of_run {e : Event} {past : List Event} {c : Consumer} {s : Snapshot} {a r : EntryId}
    (run : Run (Sound e.call.queue.name) past) (found : e.before = storageAfter past)
    (calm : e.call.plan = .none) (follows : Follows past (e.call.queue.seat c) s)
    (holds : (storageAfter past).table.Holds (e.call.queue.seat c) a r) :
    Footing e.call.queue c s past a r { e.before with plan := e.call.plan } ∧
      e.before.table.RowSeen (e.call.queue.seat c).row s := by
  rw [found, calm]
  exact footing_of_repair run follows holds

/-- An acknowledgement in a run, whichever calls fail, is refused and leaves the consumer's row, or
clears the active entry if that is the one acknowledged. -/
theorem ack_cases_of_run {e : Event} {past : List Event} {seat : Seat} {p : Pointer} {c : Consumer}
    {s : Snapshot} {a r : EntryId} (run : Run (Sound seat.queue) past)
    (found : e.before = storageAfter past) (own : e.call.seat? = some seat)
    (asked : e.call.request = .ack p c s) (follows : Follows past seat s)
    (holds : (storageAfter past).table.Holds seat a r) :
    (e.ackedBy? seat = none ∧ ∀ column, e.after.table.history seat.row column =
      (storageAfter past).table.history seat.row column) ∨
    (e.ackedBy? seat = some p.id ∧
      e.after.table.Holds seat (if a = p.id then noEntry else a) r ∧
      (∀ id, id ≠ p.id →
        e.after.table.claims seat id = (storageAfter past).table.claims seat id) ∧
      ((e.call.queue.configFor c).partitioner.isDisjoint = false →
        ((storageAfter past).table.claims seat p.id).latest ≠ none)) := by
  have here := Call.seat_eq own (by rw [asked]; rfl)
  subst here
  obtain ⟨footing, seen⟩ := footing_of_repair run follows holds
  cases done : e.call.queue.ack p c s { e.before with plan := e.call.plan } with
  | error err st =>
      obtain ⟨unacked, after⟩ := Event.ackedBy?_of_refused asked done
      refine .inl ⟨unacked, fun column => ?_⟩
      rw [after, ((e.call.queue.ends_ack c s p).of_error done).1.1.history, ← found]
  | ok u st =>
      obtain ⟨acked, after⟩ := Event.ackedBy?_of_ack own asked done
      obtain ⟨st', done', same⟩ := e.call.queue.repaired_ack c s done
      have done' : e.call.queue.ack p c s (storageAfter past).repair = .ok () st' := by
        rw [← found]
        exact done'
      rcases e.call.queue.ack_cases c s p footing seen with
        ⟨err, st'', refused, _⟩ | ⟨st'', again, _, footing', claims, claimed⟩
      · cases refused.symm.trans done'
      · cases again.symm.trans done'
        have holds' := footing'.holds.of_alike same.symm
        rw [after]
        exact .inr ⟨acked, holds', fun id other => (same.symm.history _ _).trans (claims id other),
          claimed⟩

section Cons

variable {past : List Event} {e : Event} {seat : Seat} {id : EntryId}

theorem servedTo_cons_of_some (h : e.servedTo? seat = some id) :
    servedTo (e :: past) seat = id :: servedTo past seat := by
  simp [servedTo, h]

theorem servedTo_cons_of_none (h : e.servedTo? seat = none) :
    servedTo (e :: past) seat = servedTo past seat := by
  simp [servedTo, h]

theorem mem_servedTo_cons :
    id ∈ servedTo (e :: past) seat ↔ e.servedTo? seat = some id ∨ id ∈ servedTo past seat := by
  cases served : e.servedTo? seat with
  | none => simp [servedTo_cons_of_none served]
  | some first => simp [servedTo_cons_of_some served, eq_comm]

theorem outstanding_cons_of_served (h : e.servedTo? seat = some id) :
    outstanding seat (e :: past) = id :: outstanding seat past := by
  simp [outstanding, h]

theorem mem_outstanding_cons_of_acked {done : EntryId} (unserved : e.servedTo? seat = none)
    (h : e.ackedBy? seat = some done) :
    id ∈ outstanding seat (e :: past) ↔ id ∈ outstanding seat past ∧ id ≠ done := by
  simp [outstanding, unserved, h]

theorem outstanding_cons_of_none (unserved : e.servedTo? seat = none) (h : e.ackedBy? seat = none) :
    outstanding seat (e :: past) = outstanding seat past := by
  simp [outstanding, unserved, h]

theorem mem_outstanding_cons (unserved : e.servedTo? seat = none) :
    id ∈ outstanding seat (e :: past) ↔ id ∈ outstanding seat past ∧ e.ackedBy? seat ≠ some id := by
  cases acked : e.ackedBy? seat with
  | none => simp [outstanding_cons_of_none unserved acked]
  | some done => simp [mem_outstanding_cons_of_acked unserved acked, eq_comm]

theorem servedTo_mono {later : List Event} (part : past <:+ later) (mem : id ∈ servedTo past seat) :
    id ∈ servedTo later seat := by
  obtain ⟨e, within, served⟩ := List.mem_filterMap.1 mem
  exact List.mem_filterMap.2 ⟨e, part.subset within, served⟩

theorem mem_servedTo_of_outstanding : ∀ {past : List Event}, id ∈ outstanding seat past →
    id ∈ servedTo past seat := by
  intro past out
  induction past with
  | nil => cases out
  | cons e past ih =>
      cases served : e.servedTo? seat with
      | some first =>
          rw [outstanding_cons_of_served served] at out
          rw [servedTo_cons_of_some served]
          rcases List.mem_cons.1 out with rfl | out
          · exact List.mem_cons_self
          · exact List.mem_cons_of_mem first (ih out)
      | none =>
          rw [servedTo_cons_of_none served]
          exact ih ((mem_outstanding_cons served).1 out).1

theorem lastCursor?_cons_of_some {k : Cursor} (h : e.cursorOf? seat = some k) :
    lastCursor? (e :: past) seat = some k := by
  simp [lastCursor?, h]

theorem lastCursor?_cons_of_none (h : e.cursorOf? seat = none) :
    lastCursor? (e :: past) seat = lastCursor? past seat := by
  simp [lastCursor?, h]

theorem lastLeft?_cons_of_some (h : e.leaves? seat = some id) :
    lastLeft? (e :: past) seat = some id := by
  simp [lastLeft?, h]

theorem lastLeft?_cons_of_none (h : e.leaves? seat = none) :
    lastLeft? (e :: past) seat = lastLeft? past seat := by
  simp [lastLeft?, h]

end Cons

theorem servedTo_descending {allowed : List Event → Call → Prop} {past : List Event} {seat : Seat}
    (run : Run allowed past) (later : ∀ {earlier : List Event} {call : Call}, Run allowed earlier →
      allowed earlier call → ∀ {id}, Event.servedTo? ⟨call, storageAfter earlier⟩ seat = some id →
        ∀ old ∈ servedTo earlier seat, old < id) :
    (servedTo past seat).Pairwise (· > ·) := by
  induction run with
  | start => exact List.Pairwise.nil
  | @next earlier call run allowed ih =>
      cases served : Event.servedTo? ⟨call, storageAfter earlier⟩ seat with
      | none =>
          rw [servedTo_cons_of_none served]
          exact ih
      | some id =>
          rw [servedTo_cons_of_some served]
          exact List.pairwise_cons.2 ⟨later run allowed served, ih⟩

end VersionedQueue
