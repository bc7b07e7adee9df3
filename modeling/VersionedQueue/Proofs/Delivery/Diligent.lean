import VersionedQueue.Proofs.Delivery.Imprint
import VersionedQueue.Proofs.Disjoint.Due
import VersionedQueue.Proofs.Shared.Drawn
import VersionedQueue.Proofs.Shared.ExactlyOnce

/-!
# Diligent consumers

The consumers of a queue are diligent if each acknowledges what it was handed before it asks again, hands
nothing back, and acknowledges nothing that it waits for.  Such a consumer is handed what is due, in a
disjoint group, or what it draws, in a shared one.  What its acknowledgements are answered goes by its
claims.
-/

set_option autoImplicit false
set_option relaxedAutoImplicit false

namespace VersionedQueue

/-- A consumer with its share asks for an entry when it has acknowledged all that it was handed.  It
passes a cursor that was never loaded or the one that its last request left, and its snapshot follows its
earlier ones. -/
structure AsksInTurn (seat : Seat) (partitioner : Partitioner) (share : Share) (past : List Event)
    (c : Consumer) (config : Config) (cursor : Cursor) (s : Snapshot) : Prop where
  divides : config.partitioner = partitioner
  takes : partitioner = .hash → c.share = share
  valid : config.validate = .ok ()
  admitted : c.validate config.partitioner = .ok ()
  acked : outstanding seat past = []
  passes : MayPass past seat cursor
  follows : Follows past seat s

/-- The calls of a queue with one partitioner and diligent consumers, none of which fails.  Where it
partitions by hash, every consumer has its share and nothing is retired.  Otherwise entries are retired
that were appended before, at no later version. -/
structure Diligent (queue : String) (partitioner : Partitioner) (shares : Seat → Share)
    (past : List Event) (call : Call) : Prop where
  name : call.queue.name = queue
  opens : call.queue.Opens
  calm : call.plan = .none
  keeps : call.request.Meets
    (fun c config cursor s => let seat := call.queue.seat c
      AsksInTurn seat partitioner (shares seat) past c config cursor s)
    (fun p c s => (call.queue.configFor c).partitioner = partitioner ∧
      pendingOf past (call.queue.seat c) ≠ some p.id ∧ Follows past (call.queue.seat c) s)
    fun _ _ _ => False
  retires : ∀ p v, call.request = .invalidate p v →
    partitioner = .roundRobin ∧ ∃ entry w, Enqueued past p entry w ∧ w ≤ v

theorem SharedGroup.fallible {queue : String} {group : GroupId} {past : List Event} {call : Call}
    (h : SharedGroup queue group past call) : SharedFallible queue group past call := by
  refine ⟨h.1.sound, h.2.imp (fun c config cursor s _ asks within => ?_)
    (fun p c s _ acks within => (acks within).2) fun p c s _ apart => apart⟩
  obtain ⟨shared, _, _, _, passes, follows⟩ := asks within
  exact ⟨shared, passes, follows⟩

namespace Diligent

variable {queue : String} {partitioner : Partitioner} {shares : Seat → Share} {past : List Event}
  {call : Call} {seat : Seat} {c : Consumer} {s : Snapshot}

section Call

variable (h : Diligent queue partitioner shares past call)

include h

theorem of_dequeue {config : Config} {cursor : Cursor} (own : call.seat? = some seat)
    (asked : call.request = .dequeue c config cursor s) :
    AsksInTurn seat partitioner (shares seat) past c config cursor s := by
  have here := Call.seat_eq own (by rw [asked]; rfl)
  have keeps := h.keeps
  rw [asked] at keeps
  rw [← here]
  exact keeps

theorem of_ack {p : Pointer} (own : call.seat? = some seat) (asked : call.request = .ack p c s) :
    (call.queue.configFor c).partitioner = partitioner ∧ pendingOf past seat ≠ some p.id ∧
      Follows past seat s := by
  have here := Call.seat_eq own (by rw [asked]; rfl)
  have keeps := h.keeps
  rw [asked] at keeps
  rw [← here]
  exact keeps

theorem not_unack {p : Pointer} : call.request ≠ .unack p c s := fun asked => by
  have keeps := h.keeps
  rw [asked] at keeps
  exact keeps

theorem own_cases (own : call.seat? = some seat) :
    (∃ c config cursor s, call.request = .dequeue c config cursor s) ∨
      ∃ p c s, call.request = .ack p c s := by
  rcases Call.own_cases own with asks | acks | ⟨p, c, s, asked⟩
  · exact .inl asks
  · exact .inr acks
  · exact absurd asked h.not_unack

theorem steady : Steady queue past call := ⟨h.name, .inr h.calm⟩

theorem follows (own : call.seat? = some seat) (reads : call.request.snapshot? = some s) :
    Follows past seat s := by
  rcases h.own_cases own with ⟨c, config, cursor, s', asked⟩ | ⟨p, c, s', asked⟩
  · rw [asked] at reads
    cases reads
    exact (h.of_dequeue own asked).follows
  · rw [asked] at reads
    cases reads
    exact (h.of_ack own asked).2.2

theorem consistent (here : seat.queue = queue) : Consistent seat partitioner past call where
  name := h.name.trans here.symm
  follows own _ reads := h.follows own reads
  asks own _ _ _ _ asked := (h.of_dequeue own asked).divides
  acks own _ _ _ asked := (h.of_ack own asked).1

end Call

theorem orderly (h : Diligent queue .hash shares past call) (here : seat.queue = queue) :
    Orderly seat (shares seat).Fits past call := by
  subst here
  refine ⟨h.steady, fun own => ?_⟩
  rcases h.own_cases own with ⟨c, config, cursor, s, asked⟩ | ⟨p, c, s, asked⟩
  · have asks := h.of_dequeue own asked
    rw [asked]
    exact ⟨⟨asks.divides, asks.takes rfl⟩, asks.valid, asks.admitted, asks.passes, asks.follows⟩
  · rw [asked]
    exact (h.of_ack own asked).2.2

theorem sharedGroup (h : Diligent queue .roundRobin shares past call) (group : GroupId) :
    SharedGroup queue group past call := by
  refine ⟨h.steady, h.keeps.imp (fun c config cursor s _ asks _ => ?_)
    (fun p c s _ acks _ => ⟨.inr acks.1, acks.2.2⟩) fun p c s _ never => never.elim⟩
  exact ⟨asks.divides, asks.valid, asks.admitted, asks.acked, asks.passes, asks.follows⟩

section Run

variable {e : Event}

theorem steady_run (run : Run (Diligent queue partitioner shares) past) : Run (Steady queue) past :=
  run.mono fun _ _ _ fits => fits.steady

theorem oneQueue_run (run : Run (Diligent queue partitioner shares) past) : Run (OneQueue queue) past :=
  run.mono fun _ _ _ fits => fits.name

theorem patient (run : Run (Diligent queue partitioner shares) past) (seat : Seat) :
    Patient past seat := by
  intro f earlier id within acked
  obtain ⟨_, fits, _⟩ := Run.cons_iff.1 (run.of_suffix within)
  obtain ⟨own, p, c, s, asked, rfl⟩ := Event.ack_of_ackedBy? acked
  exact (fits.of_ack own asked).2.1

theorem stored (run : Run (Diligent queue partitioner shares) past) :
    Stored queue past (storageAfter past).table := .of_run (steady_run run).sound

theorem withdrawn (run : Run (Diligent queue partitioner shares) past) {p : Pointer} {v : Version}
    (retired : Invalidated past p v) : partitioner = .roundRobin ∧ Withdrawn past p v := by
  obtain ⟨e, mem, retires⟩ := retired
  obtain ⟨newer, older, rfl⟩ := List.append_of_mem mem
  obtain ⟨_, fits, _⟩ := Run.cons_iff.1 (run.of_suffix (List.suffix_append newer (e :: older)))
  obtain ⟨shared, entry, w, appended, below⟩ := fits.retires _ _ retires.1
  exact ⟨shared, newer, e, older, entry, w, rfl, retires, appended, below⟩

section Dequeue

variable {config : Config} {cursor : Cursor} (own : e.call.seat? = some seat)
  (asked : e.call.request = .dequeue c config cursor s)

include own asked

/-- A diligent member of a disjoint group is handed what is due, and waits for no entry. -/
theorem due (run : Run (Diligent queue .hash shares) (e :: past)) :
    ∃ delivery k, e.Delivers seat delivery k ∧
      DueDelivery seat (shares seat) past s delivery ∧ k.pending = none := by
  obtain ⟨earlier, fits, _⟩ := Run.cons_iff.1 run
  have here : seat.queue = queue := (Call.name_eq own).symm.trans fits.name
  refine Progress.due_of_run (run.mono fun _ _ _ fits => fits.orderly here) own asked
    (fits.of_dequeue own asked).acked fun p v retired => ?_
  cases (withdrawn earlier retired).1

/-- A diligent member of a shared group is answered what it draws. -/
theorem draws (run : Run (Diligent queue .roundRobin shares) (e :: past)) :
    ∃ delivery k claim, e.Delivers seat delivery k ∧
      Draw seat.queue past s
        ((storageAfter past).table.standing (RowKey.entryCounter.encode seat.queue))
        (pendingOf past seat) ((storageAfter past).table.standing seat.groupRow) claim
        (e.after.table.standing seat.groupRow) ∧
      DrawDelivery seat.queue past s claim delivery k.pending := by
  obtain ⟨earlier, fits, found⟩ := Run.cons_iff.1 run
  have name : e.call.queue.name = seat.queue := Call.name_eq own
  obtain rfl : queue = seat.queue := fits.name.symm.trans name
  have counted : e.after.table.standing (RowKey.entryCounter.encode seat.queue) =
      (storageAfter past).table.standing (RowKey.entryCounter.encode seat.queue) := by
    rw [← found, Table.standing, Table.standing, Event.counter_of_not_touches name]
    rw [asked]
    simp [Request.Touches, Queue.consumerRow]
  refine Holding.draw_of_run (run.mono fun _ _ _ fits => (fits.sharedGroup seat.group).orderly
    seat.member) (run.mono fun _ _ _ fits => fits.opens) own asked (fits.of_dequeue own asked).acked
    (patient earlier seat) (fun _ _ retired => (withdrawn earlier retired).2) ?_
  rw [← counted]
  exact SharedFallible.claimsAllocated
    (run.mono fun _ _ _ fits => (fits.sharedGroup seat.group).fallible) seat.member

theorem delivers (run : Run (Diligent queue partitioner shares) (e :: past)) :
    ∃ delivery k, e.Delivers seat delivery k := by
  cases partitioner with
  | hash =>
      obtain ⟨delivery, k, delivers, _⟩ := due own asked run
      exact ⟨delivery, k, delivers⟩
  | roundRobin =>
      obtain ⟨delivery, k, _, delivers, _⟩ := draws own asked run
      exact ⟨delivery, k, delivers⟩

end Dequeue

/-- Every request of a diligent consumer is answered. -/
theorem allAnswered (run : Run (Diligent queue partitioner shares) past) (seat : Seat) :
    AllAnswered seat past := by
  intro e mem own
  obtain ⟨newer, older, rfl⟩ := List.append_of_mem mem
  have upTo := run.of_suffix (List.suffix_append newer (e :: older))
  refine ⟨fun asks => ?_, fun _ _ _ => (Run.cons_iff.1 upTo).2.1.not_unack⟩
  obtain ⟨c, config, cursor, s, asked⟩ := Event.exists_dequeue_of_isDequeue asks
  obtain ⟨delivery, k, delivers⟩ := delivers own asked upTo
  rw [delivers.delivery?]
  exact Option.some_ne_none delivery

end Run

end Diligent

/-- What an acknowledgement of an entry is answered, by the claim on it. -/
def Queue.ackAnswer (q : Queue) (p : Pointer) (c : Consumer) (claim : Option ClaimState) :
    Except QueueError Answer :=
  match q.checkPointer p with
  | .error e => .error e
  | .ok () =>
      match (AckDecision.check (q.configFor c).partitioner.isDisjoint claim).refusal? with
      | some reason => .error (.illegalAck p.id reason)
      | none => .ok .acked

theorem Consistent.answer_of_ack {seat : Seat} {partitioner : Partitioner} {past : List Event} {e : Event}
    {p : Pointer} {c : Consumer} {s : Snapshot} (run : Run (Consistent seat partitioner) (e :: past))
    (own : e.call.seat? = some seat) (asked : e.call.request = .ack p c s)
    (calm : e.call.plan = .none) :
    e.outcome.answer = e.call.queue.ackAnswer p c (claimState seat p.id past) := by
  have read := decodeClaim_of_run run own (by rw [asked]; rfl) (by rw [asked]; rfl) p.id
  rw [Event.outcome_of_ack asked, calm]
  unfold Queue.ackAnswer
  by_cases name : p.queue = e.call.queue.name
  · have acks := @Queue.ack_of_calm e.call.queue c s { e.before with plan := .none } p _ rfl name read
    rw [Queue.checkPointer, if_pos name]
    dsimp only
    cases decided : (AckDecision.check (e.call.queue.configFor c).partitioner.isDisjoint
        (claimState seat p.id past)).refusal? with
    | none =>
        rw [decided] at acks
        obtain ⟨st, done⟩ := acks
        rw [done]
        rfl
    | some reason =>
        rw [decided] at acks
        obtain ⟨st, done⟩ := acks
        rw [done]
        rfl
  · rw [Queue.checkPointer, if_neg name, Queue.ack, Queue.checkPointer, if_neg name]
    rfl

end VersionedQueue
