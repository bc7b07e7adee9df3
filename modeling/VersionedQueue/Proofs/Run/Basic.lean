import VersionedQueue.Proofs.Table.Versions
import VersionedQueue.Queue.Acknowledge

/-!
# Runs

A run is a sequence of calls to the queues of one table, each on the storage that the one before it
left.  Runs are lists of events, newest first, so that an event stands before its past.  What
happened in a run is read off its events: who was served what, what was acknowledged, which cursor a
consumer was left with.
-/

set_option autoImplicit false
set_option relaxedAutoImplicit false

namespace VersionedQueue

/-- The place of one consumer: its queue, its group and its number in the group. -/
structure Seat where
  queue : String
  group : GroupId
  member : InstanceId
  deriving DecidableEq, Repr

namespace Seat

/-- The key of the row in which the consumer's cursor is stored. -/
def row (seat : Seat) : Bytes := (RowKey.consumer seat.group seat.member).encode seat.queue

/-- The key of the row with the pointer of the consumer's group. -/
def groupRow (seat : Seat) : Bytes := (RowKey.groupPointer seat.group).encode seat.queue

end Seat

/-- What a caller may ask of a queue.  Who asks for an entry passes a cursor along. -/
inductive Request
  | enqueue (entry : Entry) (version : Version)
  | invalidate (pointer : Pointer) (version : Version)
  | dequeue (consumer : Consumer) (config : Config) (cursor : Cursor) (snapshot : Snapshot)
  | ack (pointer : Pointer) (consumer : Consumer) (snapshot : Snapshot)
  | unack (pointer : Pointer) (consumer : Consumer) (snapshot : Snapshot)
  | allocateGroupId
  | info

namespace Request

def consumer? : Request → Option Consumer
  | dequeue c _ _ _ | ack _ c _ | unack _ c _ => some c
  | _ => none

def snapshot? : Request → Option Snapshot
  | dequeue _ _ _ s | ack _ _ s | unack _ _ s => some s
  | _ => none

def isDequeue : Request → Bool
  | dequeue _ _ _ _ => true
  | _ => false

def isEnqueue : Request → Bool
  | enqueue _ _ => true
  | _ => false

def isInvalidate : Request → Bool
  | invalidate _ _ => true
  | _ => false

/-- A request is one of the three that consumers make, or no consumer's. -/
@[elab_as_elim]
theorem consumer_cases {motive : Request → Prop}
    (dequeue : ∀ c config cursor s, motive (.dequeue c config cursor s))
    (ack : ∀ p c s, motive (.ack p c s)) (unack : ∀ p c s, motive (.unack p c s))
    (aside : ∀ request, request.consumer? = none → motive request) (request : Request) :
    motive request := by
  cases request with
  | dequeue c config cursor s => exact dequeue c config cursor s
  | ack p c s => exact ack p c s
  | unack p c s => exact unack p c s
  | enqueue entry v => exact aside _ rfl
  | invalidate p v => exact aside _ rfl
  | allocateGroupId => exact aside _ rfl
  | info => exact aside _ rfl

/-- A request is one of the two that producers make, or no producer's. -/
@[elab_as_elim]
theorem producer_cases {motive : Request → Prop} (enqueue : ∀ entry v, motive (.enqueue entry v))
    (invalidate : ∀ p v, motive (.invalidate p v))
    (aside : ∀ request, request.isEnqueue = false → request.isInvalidate = false → motive request)
    (request : Request) : motive request := by
  cases request with
  | enqueue entry v => exact enqueue entry v
  | invalidate p v => exact invalidate p v
  | dequeue c config cursor s => exact aside _ rfl rfl
  | ack p c s => exact aside _ rfl rfl
  | unack p c s => exact aside _ rfl rfl
  | allocateGroupId => exact aside _ rfl rfl
  | info => exact aside _ rfl rfl

/-- A consumer's request meets the condition on requests of its kind; any other request does. -/
def Meets (request : Request) (onDequeue : Consumer → Config → Cursor → Snapshot → Prop)
    (onAck onUnack : Pointer → Consumer → Snapshot → Prop) : Prop :=
  match request with
  | dequeue c config cursor s => onDequeue c config cursor s
  | ack p c s => onAck p c s
  | unack p c s => onUnack p c s
  | _ => True

section Meets

variable {request : Request} {onDequeue onDequeue' : Consumer → Config → Cursor → Snapshot → Prop}
  {onAck onAck' onUnack onUnack' : Pointer → Consumer → Snapshot → Prop}

theorem meets_of_aside (aside : request.consumer? = none) :
    request.Meets onDequeue onAck onUnack := by
  cases request with
  | dequeue c config cursor s => cases aside
  | ack p c s => cases aside
  | unack p c s => cases aside
  | _ => trivial

theorem Meets.imp (h : request.Meets onDequeue onAck onUnack)
    (dequeue : ∀ c config cursor s, request = .dequeue c config cursor s →
      onDequeue c config cursor s → onDequeue' c config cursor s)
    (ack : ∀ p c s, request = .ack p c s → onAck p c s → onAck' p c s)
    (unack : ∀ p c s, request = .unack p c s → onUnack p c s → onUnack' p c s) :
    request.Meets onDequeue' onAck' onUnack' := by
  cases request using consumer_cases with
  | dequeue c config cursor s => exact dequeue c config cursor s rfl h
  | ack p c s => exact ack p c s rfl h
  | unack p c s => exact unack p c s rfl h
  | aside request none => exact meets_of_aside none

end Meets

end Request

/-- A request to a queue, and the failures of the storage meanwhile. -/
structure Call where
  queue : Queue
  request : Request
  plan : FaultPlan := .none

/-- What a request is answered with. -/
inductive Answer
  | enqueued (pointer : Pointer)
  | invalidated
  | delivered (delivery : Delivery)
  | acked
  | unacked (warnings : List Warning)
  | allocated (group : GroupId)
  | informed (info : QueueInfo)

/-- How a call ended: its answer or failure, and the storage it left.  A request for an entry leaves
a cursor as well. -/
structure Outcome where
  answer : Except QueueError Answer
  storage : Storage
  cursor : Cursor := .fresh

namespace Outcome

def ofStorage {α : Type} (wrap : α → Answer) : EStateM.Result QueueError Storage α → Outcome
  | .ok a storage => { answer := .ok (wrap a), storage }
  | .error e storage => { answer := .error e, storage }

def ofTurn : EStateM.Result QueueError Turn Delivery → Outcome
  | .ok delivery turn => ⟨.ok (.delivered delivery), turn.storage, turn.cursor⟩
  | .error e turn => ⟨.error e, turn.storage, turn.cursor⟩

end Outcome

/-- The seat of a consumer of a queue. -/
def Queue.seat (q : Queue) (c : Consumer) : Seat := ⟨q.name, c.group, c.member⟩

namespace Call

def seat? (call : Call) : Option Seat := call.request.consumer?.map call.queue.seat

/-- Make the call to storage as it is. -/
def perform (call : Call) (found : Storage) : Outcome :=
  let storage := { found with plan := call.plan }
  match call.request with
  | .enqueue entry version => .ofStorage .enqueued (call.queue.enqueue entry version storage)
  | .invalidate p version =>
      .ofStorage (fun _ => .invalidated) (call.queue.invalidate p version storage)
  | .dequeue c config cursor s => .ofTurn (call.queue.dequeue c config s ⟨storage, cursor⟩)
  | .ack p c s => .ofStorage (fun _ => .acked) (call.queue.ack p c s storage)
  | .unack p c s => .ofStorage .unacked (call.queue.unack p c s storage)
  | .allocateGroupId => .ofStorage .allocated (call.queue.allocateGroupId storage)
  | .info => .ofStorage .informed (call.queue.info storage)

end Call

/-- A call that was made, and the storage that it found. -/
structure Event where
  call : Call
  before : Storage

namespace Event

def outcome (e : Event) : Outcome := e.call.perform e.before

/-- The storage that the call left. -/
def after (e : Event) : Storage := e.outcome.storage

/-- The pointer that an append was answered with. -/
def appended? (e : Event) : Option Pointer :=
  match e.outcome.answer with
  | .ok (.enqueued p) => some p
  | _ => none

/-- An entry was appended at a version, and is named by a pointer from now on. -/
def Appends (e : Event) (p : Pointer) (entry : Entry) (version : Version) : Prop :=
  e.call.request = .enqueue entry version ∧ e.appended? = some p

/-- Whether a retirement was answered. -/
def retired (e : Event) : Bool :=
  match e.outcome.answer with
  | .ok .invalidated => true
  | _ => false

/-- An entry was retired at a version. -/
def Retires (e : Event) (p : Pointer) (version : Version) : Prop :=
  e.call.request = .invalidate p version ∧ e.retired = true

def delivery? (e : Event) : Option Delivery :=
  match e.outcome.answer with
  | .ok (.delivered delivery) => some delivery
  | _ => none

/-- The entry that was handed to a consumer. -/
def servedTo? (e : Event) (seat : Seat) : Option EntryId :=
  if e.call.seat? = some seat then e.delivery?.bind fun d => d.pointer?.map (·.id) else none

/-- A consumer asked for an entry, and there was none. -/
def FindsNothing (e : Event) (seat : Seat) : Prop :=
  e.call.seat? = some seat ∧ e.delivery?.any (·.isEmpty) = true

def ackedBy? (e : Event) (seat : Seat) : Option EntryId :=
  match e.call.request, e.outcome.answer with
  | .ack p _ _, .ok _ => if e.call.seat? = some seat then some p.id else none
  | _, _ => none

/-- What handing an entry back remarked on. -/
def unacked? (e : Event) : Option (List Warning) :=
  match e.outcome.answer with
  | .ok (.unacked warnings) => some warnings
  | _ => none

/-- The cursor that a consumer was left with. -/
def cursorOf? (e : Event) (seat : Seat) : Option Cursor :=
  if e.call.seat? = some seat ∧ e.call.request.isDequeue then some e.outcome.cursor else none

/-- The entry that a request left a consumer with: the one it handed out, or else the one it has
claimed and waits for. -/
def leaves? (e : Event) (seat : Seat) : Option EntryId :=
  (e.servedTo? seat).or ((e.cursorOf? seat).bind (·.pending))

/-- Some cell of a row is not as the call found it. -/
def Writes (e : Event) (row : Bytes) : Prop :=
  ∃ column, e.after.table.history row column ≠ e.before.table.history row column

end Event

/-- The storage that a run leaves; the first call finds an empty table. -/
def storageAfter : List Event → Storage
  | [] => {}
  | e :: _ => e.after

/-- The runs in which every call is allowed by its past. -/
inductive Run (allowed : List Event → Call → Prop) : List Event → Prop
  | start : Run allowed []
  | next {past : List Event} {call : Call} :
      Run allowed past → allowed past call → Run allowed (⟨call, storageAfter past⟩ :: past)

section Past

variable (past : List Event)

/-- An entry was appended at a version. -/
def Enqueued (p : Pointer) (entry : Entry) (version : Version) : Prop :=
  ∃ e ∈ past, e.Appends p entry version

/-- An entry was retired at a version. -/
def Invalidated (p : Pointer) (version : Version) : Prop := ∃ e ∈ past, e.Retires p version

/-- The entries that a consumer was handed, newest first. -/
def servedTo (seat : Seat) : List EntryId := past.filterMap (·.servedTo? seat)

/-- The entries that a consumer has acknowledged, newest first. -/
def ackedIds (seat : Seat) : List EntryId := past.filterMap (·.ackedBy? seat)

/-- The cursor that a consumer's last request for an entry left. -/
def lastCursor? (seat : Seat) : Option Cursor := past.findSome? (·.cursorOf? seat)

def Asked (seat : Seat) : Prop :=
  ∃ e ∈ past, e.call.seat? = some seat ∧ e.call.request.isDequeue = true

/-- A consumer was told that there is nothing, under a snapshot that shows what it should of the
events before, and nothing was appended since. -/
def ToldNothing (seat : Seat) (shows : List Event → Snapshot → Prop) : Prop :=
  ∃ newer e earlier s, past = newer ++ e :: earlier ∧
    (∀ f ∈ newer, f.call.request.isEnqueue = false) ∧ e.FindsNothing seat ∧
    e.call.request.snapshot? = some s ∧ shows earlier s

/-- The entry that a consumer's last request claimed and waits for. -/
def pendingOf (seat : Seat) : Option EntryId := (lastCursor? past seat).bind (·.pending)

/-- The entry that a consumer's requests left it with last. -/
def lastLeft? (seat : Seat) : Option EntryId := past.findSome? (·.leaves? seat)

/-- A cursor that a consumer may pass: one that was never loaded, or the one that its last request
left. -/
def MayPass (seat : Seat) (cursor : Cursor) : Prop :=
  cursor.loaded = false ∨ lastCursor? past seat = some cursor

/-- A snapshot shows a consumer all that its earlier snapshots did, and all that it wrote. -/
def Follows (seat : Seat) (s : Snapshot) : Prop :=
  ∀ e ∈ past, e.call.seat? = some seat → ∀ earlier, e.call.request.snapshot? = some earlier →
    s.Extends earlier ∧ (e.Writes seat.row → s.sees earlier.writeVersion)

end Past

/-- The entries that a consumer was handed and has not acknowledged since. -/
def outstanding (seat : Seat) : List Event → List EntryId
  | [] => []
  | e :: past =>
      match e.servedTo? seat, e.ackedBy? seat with
      | some id, _ => id :: outstanding seat past
      | none, some id => (outstanding seat past).filter (· != id)
      | none, none => outstanding seat past

namespace Run

variable {allowed : List Event → Call → Prop} {past : List Event}

theorem mono {wider : List Event → Call → Prop} (run : Run allowed past)
    (h : ∀ earlier call, Run allowed earlier → allowed earlier call → wider earlier call) :
    Run wider past := by
  induction run with
  | start => exact .start
  | next earlier fits ih => exact .next ih (h _ _ earlier fits)

/-- Every event of a run found the storage that its past left, and was allowed by it. -/
theorem cons_iff {e : Event} :
    Run allowed (e :: past) ↔
      Run allowed past ∧ allowed past e.call ∧ e.before = storageAfter past := by
  constructor
  · intro run
    cases run with
    | next earlier fits => exact ⟨earlier, fits, rfl⟩
  · rintro ⟨earlier, fits, found⟩
    obtain ⟨call, before⟩ := e
    subst found
    exact .next earlier fits

theorem of_suffix {earlier : List Event} (run : Run allowed past) (part : earlier <:+ past) :
    Run allowed earlier := by
  induction run with
  | start => exact List.suffix_nil.1 part ▸ .start
  | next rest fits ih =>
      rcases List.suffix_cons_iff.1 part with rfl | part
      · exact .next rest fits
      · exact ih part

end Run

end VersionedQueue
