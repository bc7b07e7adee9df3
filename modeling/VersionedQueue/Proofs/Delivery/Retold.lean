import VersionedQueue.Proofs.Delivery.Ledger
import VersionedQueue.Proofs.Run.Session

/-!
# Runs that tell the same

Two runs tell the same if they make the same calls but for the cursors that are passed, if the calls are
answered alike, and if they leave consumers waiting for the same entries.  What is read off the events of
the one is then read off those of the other: what was appended and retired, what each consumer was handed,
has acknowledged and waits for, and what its claims are.
-/

set_option autoImplicit false
set_option relaxedAutoImplicit false

namespace VersionedQueue

/-- Two events tell the same. -/
structure Event.Retells (e e' : Event) : Prop where
  queue : e'.call.queue = e.call.queue
  request : ∃ cursor, e'.call.request = e.call.request.passing cursor
  answer : e'.outcome.answer = e.outcome.answer
  pending : e'.outcome.cursor.pending = e.outcome.cursor.pending

/-- Two runs tell the same, event by event. -/
inductive Retold : List Event → List Event → Prop
  | nil : Retold [] []
  | cons {e e' : Event} {past past' : List Event} : e.Retells e' → Retold past past' →
      Retold (e :: past) (e' :: past')

namespace Request

variable {request : Request} {cursor : Cursor}

@[simp] theorem consumer?_passing : (request.passing cursor).consumer? = request.consumer? := by
  cases request <;> rfl

@[simp] theorem snapshot?_passing : (request.passing cursor).snapshot? = request.snapshot? := by
  cases request <;> rfl

@[simp] theorem isDequeue_passing : (request.passing cursor).isDequeue = request.isDequeue := by
  cases request <;> rfl

theorem passing_of_other (other : request.isDequeue = false) : request.passing cursor = request := by
  cases request with
  | dequeue c config k s => cases other
  | _ => rfl

theorem passing_passing (k : Cursor) : (request.passing cursor).passing k = request.passing k := by
  cases request <;> rfl

theorem exists_passing (request : Request) : ∃ k, request.passing k = request := by
  cases request with
  | dequeue c config k s => exact ⟨k, rfl⟩
  | _ => exact ⟨.fresh, rfl⟩

theorem passing_eq_iff {other : Request} (aside : other.isDequeue = false) :
    request.passing cursor = other ↔ request = other := by
  constructor
  · intro same
    have none : request.isDequeue = false := by
      rw [← @isDequeue_passing request cursor, same, aside]
    rw [← same, passing_of_other none]
  · rintro rfl
    exact passing_of_other aside

end Request

namespace Event.Retells

variable {e e' : Event} (h : e.Retells e') (seat : Seat)

include h

theorem seat? : e'.call.seat? = e.call.seat? := by
  obtain ⟨cursor, same⟩ := h.request
  simp only [Call.seat?, h.queue, same, Request.consumer?_passing]

theorem snapshot? : e'.call.request.snapshot? = e.call.request.snapshot? := by
  obtain ⟨cursor, same⟩ := h.request
  rw [same, Request.snapshot?_passing]

theorem isDequeue : e'.call.request.isDequeue = e.call.request.isDequeue := by
  obtain ⟨cursor, same⟩ := h.request
  rw [same, Request.isDequeue_passing]

theorem request_eq_iff {other : Request} (aside : other.isDequeue = false) :
    e'.call.request = other ↔ e.call.request = other := by
  obtain ⟨cursor, same⟩ := h.request
  rw [same, Request.passing_eq_iff aside]

theorem appends_iff {p : Pointer} {entry : Entry} {v : Version} :
    e'.Appends p entry v ↔ e.Appends p entry v := by
  rw [Event.Appends, Event.Appends, h.request_eq_iff rfl, Event.appended?, Event.appended?, h.answer]

theorem retires_iff {p : Pointer} {v : Version} : e'.Retires p v ↔ e.Retires p v := by
  rw [Event.Retires, Event.Retires, h.request_eq_iff rfl, Event.retired, Event.retired, h.answer]

theorem delivery? : e'.delivery? = e.delivery? := by rw [Event.delivery?, Event.delivery?, h.answer]

theorem servedTo? : e'.servedTo? seat = e.servedTo? seat := by
  rw [Event.servedTo?, Event.servedTo?, h.seat?, h.delivery?]

theorem ackedBy? : e'.ackedBy? seat = e.ackedBy? seat := by
  obtain ⟨cursor, same⟩ := h.request
  rw [Event.ackedBy?, Event.ackedBy?, same, h.answer, h.seat?]
  cases e.call.request <;> rfl

theorem opens? : e'.opens? seat = e.opens? seat := by
  obtain ⟨cursor, same⟩ := h.request
  have opens (config : Config) (d : Delivery) :
      d.opens? config e'.outcome.cursor = d.opens? config e.outcome.cursor := by
    cases d with
    | served p x => rfl
    | empty => exact h.pending
  rw [Event.opens?, Event.opens?, same, h.answer, h.seat?]
  split
  · cases e.call.request with
    | dequeue c config k s =>
        rcases e.outcome.answer with err | _ | _ | d | _ | _ | _ | _
        case ok.delivered => exact opens config d
        all_goals rfl
    | unack p c s => rcases e.outcome.answer with err | _ | _ | _ | _ | (_ | _) | _ | _ <;> rfl
    | enqueue entry v => rfl
    | invalidate p v => rfl
    | ack p c s => rfl
    | allocateGroupId => rfl
    | info => rfl
  · rfl

theorem waits : (e'.cursorOf? seat).map (·.pending) = (e.cursorOf? seat).map (·.pending) := by
  rw [Event.cursorOf?, Event.cursorOf?, h.seat?, h.isDequeue]
  split
  · exact congrArg some h.pending
  · rfl

end Event.Retells

namespace Retold

variable {past past' : List Event} (h : Retold past past')

include h

theorem exists_retold {e' : Event} (mem : e' ∈ past') : ∃ e ∈ past, e.Retells e' := by
  induction h with
  | nil => cases mem
  | @cons e _ past _ retells _ ih =>
      rcases List.mem_cons.1 mem with rfl | mem
      · exact ⟨e, List.mem_cons_self, retells⟩
      · obtain ⟨f, before, retold⟩ := ih mem
        exact ⟨f, List.mem_cons_of_mem e before, retold⟩

section Entries

variable {p : Pointer}

theorem enqueued_iff {entry : Entry} {v : Version} :
    Enqueued past' p entry v ↔ Enqueued past p entry v := by
  induction h with
  | nil => rfl
  | cons retells _ ih => rw [enqueued_cons, enqueued_cons, retells.appends_iff, ih]

theorem invalidated_iff {v : Version} : Invalidated past' p v ↔ Invalidated past p v := by
  induction h with
  | nil => rfl
  | cons retells _ ih => rw [invalidated_cons, invalidated_cons, retells.retires_iff, ih]

theorem shownAt_iff {known : Version → Prop} : ShownAt past' p known ↔ ShownAt past p known := by
  simp only [ShownAt, h.enqueued_iff, h.invalidated_iff]

theorem retiredAt_iff {known : Version → Prop} : RetiredAt past' p known ↔ RetiredAt past p known := by
  simp only [RetiredAt, h.invalidated_iff]

end Entries

variable (seat : Seat)

theorem servedTo_eq : servedTo past' seat = servedTo past seat := by
  induction h with
  | nil => rfl
  | @cons e e' _ _ retells _ ih =>
      cases served : e.servedTo? seat with
      | none =>
          rw [servedTo_cons_of_none served, servedTo_cons_of_none ((retells.servedTo? seat).trans served),
            ih]
      | some id =>
          rw [servedTo_cons_of_some served, servedTo_cons_of_some ((retells.servedTo? seat).trans served),
            ih]

theorem outstanding_eq : outstanding seat past' = outstanding seat past := by
  induction h with
  | nil => rfl
  | cons retells _ ih => rw [outstanding, outstanding, retells.servedTo?, retells.ackedBy?, ih]

theorem pendingOf_eq : pendingOf past' seat = pendingOf past seat := by
  induction h with
  | nil => rfl
  | @cons e e' _ _ retells _ ih =>
      have waits := retells.waits seat
      rw [pendingOf] at ih ⊢
      rw [pendingOf] at ih ⊢
      cases left : e.cursorOf? seat with
      | none =>
          rw [left, Option.map_none, Option.map_eq_none_iff] at waits
          rw [lastCursor?_cons_of_none left, lastCursor?_cons_of_none waits, ih]
      | some k =>
          rw [left, Option.map_some, Option.map_eq_some_iff] at waits
          obtain ⟨k', left', pends⟩ := waits
          rw [lastCursor?_cons_of_some left, lastCursor?_cons_of_some left']
          exact pends

theorem claimState_eq (id : EntryId) : claimState seat id past' = claimState seat id past := by
  induction h with
  | nil => rfl
  | cons retells _ ih => rw [claimState, claimState, retells.opens?, retells.ackedBy?, ih]

end Retold

end VersionedQueue
