import VersionedQueue.Proofs.Run.Basic
import VersionedQueue.Proofs.Storage.Footprint
import VersionedQueue.Proofs.Storage.Reliable
import VersionedQueue.Proofs.Table.Keys

/-!
# What an event leaves as it was

An event touches the rows of its call and no other.  So what is stored for one consumer changes only
by that consumer's calls, an entry only by its append and its retirements, the pointer of a group
only by the group's requests for entries, and the counter of entries only by appends.
-/

set_option autoImplicit false
set_option relaxedAutoImplicit false

namespace VersionedQueue

/-- All calls go to one queue; any of them may fail. -/
def OneQueue (queue : String) (_past : List Event) (call : Call) : Prop := call.queue.name = queue

theorem Seat.row_ne_groupRow (seat : Seat) : seat.row ≠ seat.groupRow := fun same => by
  cases RowKey.encode_injective same

/-- The rows of its queue that a request may touch. -/
def Request.Touches : Request → RowKey → Prop
  | enqueue _ _, key => key = .entryCounter ∨ ∃ id, key = .entry id
  | invalidate p _, key => key = .entry p.id
  | dequeue c _ _ _, key => key = Queue.consumerRow c ∨ key = .groupPointer c.group
  | ack _ c _, key | unack _ c _, key => key = Queue.consumerRow c
  | allocateGroupId, key => key = .groupCounter
  | info, _ => False

def Request.version : Request → Version
  | enqueue _ v | invalidate _ v => v
  | dequeue _ _ _ s | ack _ _ s | unack _ _ s => s.writeVersion
  | allocateGroupId | info => 0

namespace Request

variable {request : Request} {key : RowKey}

theorem touches_of_aside (aside : request.consumer? = none) (touches : request.Touches key) :
    key = .entryCounter ∨ key = .groupCounter ∨ ∃ id, key = .entry id := by
  cases request with
  | enqueue entry v => exact touches.imp_right .inr
  | invalidate p v => exact .inr (.inr ⟨p.id, touches⟩)
  | allocateGroupId => exact .inr (.inl touches)
  | info => cases touches
  | _ => cases aside

/-- A consumer's request touches the consumer's row and the pointer of its group at most. -/
theorem touches_of_consumer {c : Consumer} (asks : request.consumer? = some c)
    (touches : request.Touches key) : key = Queue.consumerRow c ∨ key = .groupPointer c.group := by
  cases request using consumer_cases with
  | dequeue c' config cursor s =>
      cases asks
      exact touches
  | ack p c' s =>
      cases asks
      exact .inl touches
  | unack p c' s =>
      cases asks
      exact .inl touches
  | aside request none => cases none.symm.trans asks

theorem dequeue_of_touches {group : GroupId} (touches : request.Touches (.groupPointer group)) :
    ∃ c config cursor s, request = .dequeue c config cursor s ∧ c.group = group := by
  cases request using consumer_cases with
  | dequeue c config cursor s =>
      rcases touches with same | same
      · cases same
      · cases same
        exact ⟨c, config, cursor, s, rfl, rfl⟩
  | ack p c s => cases touches
  | unack p c s => cases touches
  | aside request none => simpa using touches_of_aside none touches

theorem consumer_of_touches {group : GroupId} {member : InstanceId}
    (touches : request.Touches (.consumer group member)) :
    ∃ c, request.consumer? = some c ∧ c.group = group ∧ c.member = member := by
  cases asks : request.consumer? with
  | none => simpa using touches_of_aside asks touches
  | some c =>
      rcases touches_of_consumer asks touches with same | same
      · cases same
        exact ⟨c, rfl, rfl, rfl⟩
      · cases same

theorem producer_of_touches {id : EntryId} (touches : request.Touches (.entry id)) :
    request.isEnqueue = true ∨ request.isInvalidate = true := by
  cases request with
  | enqueue entry v => exact .inl rfl
  | invalidate p v => exact .inr rfl
  | dequeue c config cursor s => rcases touches with same | same <;> cases same
  | ack p c s => cases touches
  | unack p c s => cases touches
  | allocateGroupId => cases touches
  | info => cases touches

theorem enqueue_of_touches (touches : request.Touches .entryCounter) : request.isEnqueue = true := by
  cases request with
  | enqueue entry v => rfl
  | dequeue c config cursor s => rcases touches with same | same <;> cases same
  | invalidate p v => cases touches
  | ack p c s => cases touches
  | unack p c s => cases touches
  | allocateGroupId => cases touches
  | info => cases touches

theorem not_touches_entry (quiet : request.isEnqueue = false) (keeps : request.isInvalidate = false)
    (id : EntryId) : ¬ request.Touches (.entry id) := fun touches => by
  rcases producer_of_touches touches with asks | asks
  · cases quiet.symm.trans asks
  · cases keeps.symm.trans asks

end Request

namespace Call

/-- The rows that a call may touch. -/
def Touches (call : Call) (row : Bytes) : Prop :=
  ∃ key, call.request.Touches key ∧ key.encode call.queue.name = row

theorem rel_ofStorage {α : Type} {b : StateBound Storage} {wrap : α → Answer}
    {act : StorageM α} (h : b.Keeps act) (s : Storage) :
    b.rel s (Outcome.ofStorage wrap (act s)).storage := by
  have kept := h s
  cases done : act s with
  | ok a s' =>
      rw [done] at kept
      exact kept
  | error e s' =>
      rw [done] at kept
      exact kept

theorem rel_ofTurn {b : StateBound Storage} {act : TurnM Delivery} (h : b.onTurns.Keeps act)
    (t : Turn) : b.rel t.storage (Outcome.ofTurn (act t)).storage := by
  have kept := h t
  cases done : act t with
  | ok d t' =>
      rw [done] at kept
      exact kept
  | error e t' =>
      rw [done] at kept
      exact kept

theorem touched_perform (call : Call) (found : Storage) :
    found.table.Touched call.Touches call.request.version (call.perform found).storage.table := by
  obtain ⟨q, request, plan⟩ := call
  have here {key : RowKey} (touches : request.Touches key) :
      Call.Touches ⟨q, request, plan⟩ (key.encode q.name) := ⟨key, touches, rfl⟩
  cases request with
  | enqueue entry v =>
      have kept : (Storage.touched (Call.Touches ⟨q, .enqueue entry v, plan⟩) v).Keeps
          (q.enqueue entry v) :=
        q.keeps_enqueue (here (.inl rfl)) (fun id => here (.inr ⟨id, rfl⟩)) entry
      exact (rel_ofStorage kept { found with plan }).1
  | invalidate p v =>
      have kept : (Storage.touched (Call.Touches ⟨q, .invalidate p v, plan⟩) v).Keeps
          (q.invalidate p v) := q.keeps_invalidate (here rfl)
      exact (rel_ofStorage kept { found with plan }).1
  | dequeue c config cursor s =>
      have kept := q.keeps_dequeue c config s (here (.inl rfl)) (here (.inr rfl))
      exact (rel_ofTurn kept ⟨{ found with plan }, cursor⟩).1
  | ack p c s => exact (rel_ofStorage (q.keeps_ack c s (here rfl) p) { found with plan }).1
  | unack p c s => exact (rel_ofStorage (q.keeps_unack c s (here rfl) p) { found with plan }).1
  | allocateGroupId =>
      have kept : (Storage.touched (Call.Touches ⟨q, .allocateGroupId, plan⟩) 0).Keeps
          q.allocateGroupId := q.keeps_count (here rfl) .allocateGroupId
      exact (rel_ofStorage kept { found with plan }).1
  | info =>
      have kept : (Storage.touched (Call.Touches ⟨q, .info, plan⟩) 0).Keeps q.info :=
        StateBound.keeps_bind (q.keeps_count_zero _ _) fun _ => StateBound.keeps_pure _
      exact (rel_ofStorage kept { found with plan }).1

end Call

namespace Event

variable {e : Event} {queue : String}

theorem touched (e : Event) :
    e.before.table.Touched e.call.Touches e.call.request.version e.after.table :=
  e.call.touched_perform e.before

/-- Counters never go back. -/
theorem standing_le (e : Event) (row : Bytes) :
    e.before.table.standing row ≤ e.after.table.standing row :=
  e.touched.counter_le row _

private theorem untouched {key : RowKey} (name : e.call.queue.name = queue)
    (out : ¬ e.call.request.Touches key) : ¬ e.call.Touches (key.encode queue) := by
  rintro ⟨other, touches, same⟩
  subst name
  exact out (RowKey.encode_injective same ▸ touches)

theorem history_of_not_touches {key : RowKey} (name : e.call.queue.name = queue)
    (out : ¬ e.call.request.Touches key) (column : Bytes) :
    e.after.table.history (key.encode queue) column =
      e.before.table.history (key.encode queue) column :=
  e.touched.history _ (untouched name out) column

theorem counter_of_not_touches {key : RowKey} (name : e.call.queue.name = queue)
    (out : ¬ e.call.request.Touches key) (column : Bytes) :
    e.after.table.counter (key.encode queue) column =
      e.before.table.counter (key.encode queue) column :=
  e.touched.counter _ (untouched name out) column

/-- The calls of others leave a consumer's row as it was. -/
theorem history_row {seat : Seat} (name : e.call.queue.name = seat.queue)
    (other : e.call.seat? ≠ some seat) (column : Bytes) :
    e.after.table.history seat.row column = e.before.table.history seat.row column := by
  refine history_of_not_touches name (fun touches => other ?_) column
  obtain ⟨c, asks, group, number⟩ := Request.consumer_of_touches touches
  simp only [Call.seat?, asks, Option.map_some, Queue.seat, name, group, number]

end Event

section Run

variable {allowed : List Event → Call → Prop} {past : List Event}

theorem works_of_run (run : Run allowed past) :
    (storageAfter past).table.refusesIncrements = false := by
  induction run with
  | start => rfl
  | @next past call _ _ ih => exact (Event.touched ⟨call, storageAfter past⟩).refuses.trans ih

theorem standing_nonneg (run : Run allowed past) (row : Bytes) :
    0 ≤ (storageAfter past).table.standing row := by
  induction run with
  | start => exact Int.le_refl _
  | @next past call _ _ ih => exact Int.le_trans ih (Event.standing_le ⟨call, storageAfter past⟩ row)

theorem standing_le_of_suffix {later : List Event} (run : Run allowed later) (part : past <:+ later)
    (row : Bytes) :
    (storageAfter past).table.standing row ≤ (storageAfter later).table.standing row := by
  induction run with
  | start => exact List.suffix_nil.1 part ▸ Int.le_refl _
  | @next rest call _ _ ih =>
      rcases List.suffix_cons_iff.1 part with rfl | part
      · exact Int.le_refl _
      · exact Int.le_trans (ih part) (Event.standing_le ⟨call, storageAfter rest⟩ row)

end Run

end VersionedQueue
