import VersionedQueue.Proofs.Delivery.Diligent

/-!
# Cursors that are kept and cursors that are not

A consumer may pass the cursor that its last request left, or start again from one that was never loaded.
The one has a batch of entries, a write pointer that was looked at some time ago and a claim that is not
settled; the other finds no more than three cells in the row of its consumer, and reads the entries again
under a newer snapshot.  Diligent consumers do not notice which of the two they do, at whichever requests.
Two runs with the same calls but for the cursors are related, call by call, by what they tell, by what
producers have written, and by the pointers of shared groups.
-/

set_option autoImplicit false
set_option relaxedAutoImplicit false

namespace VersionedQueue

/-- The call, apart from the cursor that it passes. -/
def Call.bare (call : Call) : Call := { call with request := call.request.passing .fresh }

/-- Whoever asks for an entry passes a cursor that was never loaded or the one that its last request
left. -/
def PassesOwn (past : List Event) (call : Call) : Prop :=
  ∀ c config cursor s, call.request = .dequeue c config cursor s →
    MayPass past (call.queue.seat c) cursor

theorem Call.exists_passing {call call' : Call} (same : call'.bare = call.bare) :
    ∃ k, call' = { call with request := call.request.passing k } := by
  obtain ⟨queue, request, plan⟩ := call
  obtain ⟨queue', request', plan'⟩ := call'
  simp only [Call.bare, Call.mk.injEq] at same
  obtain ⟨rfl, same, rfl⟩ := same
  obtain ⟨k, own⟩ := Request.exists_passing request'
  refine ⟨k, ?_⟩
  rw [← own, ← @Request.passing_passing request' .fresh k, same, Request.passing_passing]

theorem Call.dequeue_of_bare {call call' : Call} (same : call'.bare = call.bare) {c : Consumer}
    {config : Config} {cursor : Cursor} {s : Snapshot}
    (asked : call.request = .dequeue c config cursor s) :
    ∃ k, call'.request = .dequeue c config k s := by
  obtain ⟨k, rfl⟩ := Call.exists_passing same
  exact ⟨k, by rw [asked]; rfl⟩

theorem Call.seat?_of_bare {call call' : Call} (same : call'.bare = call.bare) :
    call'.seat? = call.seat? := by
  obtain ⟨k, rfl⟩ := Call.exists_passing same
  simp only [Call.seat?, Request.consumer?_passing]

/-- The rows of a queue that only producers and those who set up groups write to. -/
def ProducerRow (queue : String) (row : Bytes) : Prop :=
  ∃ key : RowKey, (key = .entryCounter ∨ key = .groupCounter ∨ ∃ id, key = .entry id) ∧
    key.encode queue = row

section Event

variable {e : Event} {queue : String}

theorem Event.agreeOn_of_consumer (name : e.call.queue.name = queue) {c : Consumer}
    (asks : e.call.request.consumer? = some c) :
    e.before.table.AgreeOn (ProducerRow queue) e.after.table := by
  refine .of_touched e.touched fun row inside touches => ?_
  obtain ⟨key, producer, rfl⟩ := inside
  obtain ⟨key', touched, same⟩ := touches
  obtain rfl : key' = key := RowKey.encode_injective (name ▸ same)
  rcases Request.touches_of_consumer asks touched with rfl | rfl <;>
    rcases producer with same | same | ⟨id, same⟩ <;> cases same

theorem Request.producerRow_of_uses {request : Request} (aside : request.consumer? = none) {key : RowKey}
    (uses : request.Uses key) : ProducerRow queue (key.encode queue) :=
  ⟨key, Request.uses_of_aside aside uses, rfl⟩

theorem Event.standing_group (name : e.call.queue.name = queue) {group : GroupId}
    (idle : ∀ c config cursor s, e.call.request = .dequeue c config cursor s → c.group ≠ group) :
    e.after.table.standing ((RowKey.groupPointer group).encode queue) =
      e.before.table.standing ((RowKey.groupPointer group).encode queue) := by
  rw [Table.standing, Table.standing, Event.counter_of_not_touches name]
  intro touches
  obtain ⟨c, config, cursor, s, asked, within⟩ := Request.dequeue_of_touches touches
  exact idle c config cursor s asked within

end Event

/-- Two runs go side by side. -/
structure Parallel (queue : String) (partitioner : Partitioner) (past past' : List Event) : Prop where
  retold : Retold past past'
  producers : (storageAfter past).table.AgreeOn (ProducerRow queue) (storageAfter past').table
  groups : partitioner = .roundRobin → ∀ group,
    (storageAfter past').table.standing ((RowKey.groupPointer group).encode queue) =
      (storageAfter past).table.standing ((RowKey.groupPointer group).encode queue)

section Transport

variable {past past' : List Event} (h : Retold past past') {seat : Seat} {share : Share} {s : Snapshot}

include h

theorem Retold.due_iff {id : EntryId} {entry : Entry} :
    Due seat share past' s id entry ↔ Due seat share past s id entry := by
  have passes (p : Pointer) :
      share.Passes past' p (s.sees ·) ↔ share.Passes past p (s.sees ·) := by
    simp only [Share.Passes, h.retiredAt_iff, h.enqueued_iff]
  constructor
  · rintro ⟨unserved, visible, takes, before⟩
    simp only [h.servedTo_eq, h.enqueued_iff, passes] at unserved visible before
    exact ⟨unserved, visible, takes, before⟩
  · rintro ⟨unserved, visible, takes, before⟩
    refine ⟨?_, ?_, takes, ?_⟩ <;> simp only [h.servedTo_eq, h.enqueued_iff, passes] <;> assumption

theorem Retold.due {delivery : Delivery} (due : DueDelivery seat share past' s delivery) :
    DueDelivery seat share past s delivery := by
  cases due with
  | served due => exact .served (h.due_iff.1 due)
  | nothing none => exact .nothing fun id entry due => none id entry (h.due_iff.2 due)

theorem Retold.draw {queue : String} {highest group group' : Int} {pending claim : Option EntryId}
    (draw : Draw queue past' s highest pending group claim group') :
    Draw queue past s highest pending group claim group' := by
  obtain ⟨⟨forward, latest, kept, taken⟩, unretired, exhausted, allocated⟩ := draw
  simp only [h.retiredAt_iff] at kept taken unretired
  exact ⟨⟨forward, latest, kept, taken⟩, unretired, exhausted, allocated⟩

theorem Retold.drawDelivery {queue : String} {claim left : Option EntryId} {delivery : Delivery}
    (answered : DrawDelivery queue past' s claim delivery left) :
    DrawDelivery queue past s claim delivery left := by
  cases answered with
  | served visible appended => exact .served visible (h.enqueued_iff.1 appended)
  | waiting unseen => exact .waiting (mt h.shownAt_iff.2 unseen)
  | nothing => exact .nothing

end Transport

namespace Parallel

variable {queue : String} {partitioner : Partitioner} {shares : Seat → Share} {past past' : List Event}
  {e e' : Event} {seat : Seat} {c : Consumer} {s : Snapshot}

theorem start (queue : String) (partitioner : Partitioner) : Parallel queue partitioner [] [] :=
  ⟨.nil, .refl _ _, fun _ _ => rfl⟩

theorem diligent (h : Parallel queue partitioner past past')
    (run : Run (Diligent queue partitioner shares) past) {call call' : Call}
    (fits : Diligent queue partitioner shares past call) (same : call'.bare = call.bare)
    (passes : PassesOwn past' call') : Diligent queue partitioner shares past' call' := by
  obtain ⟨k, rfl⟩ := Call.exists_passing same
  have follows (seat : Seat) (here : seat.queue = queue) {s : Snapshot} (follows : Follows past seat s) :
      Follows past' seat s :=
    h.retold.follows (here ▸ Diligent.oneQueue_run run) (Diligent.allAnswered run seat) follows
  refine ⟨fits.name, fits.opens, fits.calm, ?_, fun p v asked => ?_⟩
  · have keeps := fits.keeps
    obtain ⟨q, request, plan⟩ := call
    cases request using Request.consumer_cases with
    | dequeue c config cursor s =>
        have asks : AsksInTurn (q.seat c) partitioner (shares (q.seat c)) past c config cursor s := keeps
        exact ⟨asks.divides, asks.takes, asks.valid, asks.admitted,
          (h.retold.outstanding_eq _).trans asks.acked, passes c config k s rfl,
          follows (q.seat c) fits.name asks.follows⟩
    | ack p c s =>
        obtain ⟨divides, unawaited, shown⟩ := keeps
        refine ⟨divides, ?_, follows (q.seat c) fits.name shown⟩
        rwa [h.retold.pendingOf_eq]
    | unack p c s => exact keeps
    | aside request none => exact Request.meets_of_aside (by rwa [Request.consumer?_passing])
  · obtain ⟨shared, entry, w, appended, below⟩ :=
      fits.retires p v ((Request.passing_eq_iff rfl).1 asked)
    exact ⟨shared, entry, w, h.retold.enqueued_iff.2 appended, below⟩

section Step

variable (h : Parallel queue partitioner past past')
  (run : Run (Diligent queue partitioner shares) (e :: past))
  (run' : Run (Diligent queue partitioner shares) (e' :: past'))

include h run run'

private theorem producers_kept {c' : Consumer} (asks : e.call.request.consumer? = some c)
    (asks' : e'.call.request.consumer? = some c') :
    e.after.table.AgreeOn (ProducerRow queue) e'.after.table := by
  obtain ⟨_, fits, found⟩ := Run.cons_iff.1 run
  obtain ⟨_, fits', found'⟩ := Run.cons_iff.1 run'
  have kept := Event.agreeOn_of_consumer fits.name asks
  have kept' := Event.agreeOn_of_consumer fits'.name asks'
  rw [found] at kept
  rw [found'] at kept'
  exact (kept.symm.trans h.producers).trans kept'

private theorem groups_kept (shared : partitioner = .roundRobin) {group : GroupId}
    (same : e'.call.bare = e.call.bare)
    (idle : ∀ c config cursor s, e.call.request = .dequeue c config cursor s → c.group ≠ group) :
    e'.after.table.standing ((RowKey.groupPointer group).encode queue) =
      e.after.table.standing ((RowKey.groupPointer group).encode queue) := by
  obtain ⟨_, fits, found⟩ := Run.cons_iff.1 run
  obtain ⟨_, fits', found'⟩ := Run.cons_iff.1 run'
  have idle' (c : Consumer) (config : Config) (cursor : Cursor) (s : Snapshot)
      (asked' : e'.call.request = .dequeue c config cursor s) : c.group ≠ group := by
    obtain ⟨k, asked⟩ := Call.dequeue_of_bare same.symm asked'
    exact idle c config k s asked
  rw [Event.standing_group fits.name idle, Event.standing_group fits'.name idle', found, found']
  exact h.groups shared group

private theorem next_of_producer (same : e'.call.bare = e.call.bare)
    (aside : e.call.request.consumer? = none) : Parallel queue partitioner (e :: past) (e' :: past') := by
  obtain ⟨_, fits, found⟩ := Run.cons_iff.1 run
  obtain ⟨_, _, found'⟩ := Run.cons_iff.1 run'
  obtain ⟨k, recalled⟩ := Call.exists_passing same
  have quiet : e.call.request.isDequeue = false := by
    cases asked : e.call.request <;> simp [asked, Request.consumer?] at aside <;> rfl
  have ends : Outcome.AgreeOn (ProducerRow queue) e.outcome e'.outcome := by
    rw [Event.outcome, Event.outcome, recalled, Request.passing_of_other quiet, found, found']
    refine Call.agreeOn_perform fits.calm (fun key uses => ?_) h.producers
    rw [fits.name]
    exact Request.producerRow_of_uses aside uses
  refine ⟨.cons ⟨by rw [recalled], ⟨k, by rw [recalled]⟩, ends.answer, ?_⟩ h.retold, ends.table,
    fun shared group => groups_kept h run run' shared same fun c config cursor s asked => ?_⟩
  · rw [ends.cursor]
  · rw [asked] at quiet
    cases quiet

private theorem next_of_ack (same : e'.call.bare = e.call.bare) {p : Pointer}
    (own : e.call.seat? = some seat) (asked : e.call.request = .ack p c s) :
    Parallel queue partitioner (e :: past) (e' :: past') := by
  obtain ⟨_, fits, _⟩ := Run.cons_iff.1 run
  obtain ⟨_, fits', _⟩ := Run.cons_iff.1 run'
  obtain ⟨k, recalled⟩ := Call.exists_passing same
  have asked' : e'.call.request = .ack p c s := by rw [recalled, asked]; rfl
  have own' : e'.call.seat? = some seat := (Call.seat?_of_bare same).trans own
  have here : seat.queue = queue := (Call.name_eq own).symm.trans fits.name
  have consistent : Run (Consistent seat partitioner) (e :: past) :=
    run.mono fun _ _ _ fits => fits.consistent here
  have consistent' : Run (Consistent seat partitioner) (e' :: past') :=
    run'.mono fun _ _ _ fits => fits.consistent here
  have answer : e'.outcome.answer = e.outcome.answer := by
    rw [Consistent.answer_of_ack consistent own asked fits.calm,
      Consistent.answer_of_ack consistent' own' asked' fits'.calm, h.retold.claimState_eq, recalled]
  have resting (f : Event) (acks : f.call.request = .ack p c s) : f.outcome.cursor.pending = none := by
    rw [Event.outcome_of_ack acks]
    cases f.call.queue.ack p c s { f.before with plan := f.call.plan } <;> rfl
  refine ⟨.cons ⟨by rw [recalled], ⟨k, by rw [recalled]⟩, answer, ?_⟩ h.retold,
    producers_kept h run run' (by rw [asked]; rfl) (by rw [asked']; rfl),
    fun shared group => groups_kept h run run' shared same fun _ _ _ _ asks => ?_⟩
  · rw [resting e asked, resting e' asked']
  · rw [asked] at asks
    cases asks

private theorem next_of_delivered (same : e'.call.bare = e.call.bare) {delivery delivery' : Delivery}
    {k k' : Cursor} (delivers : e.Delivers seat delivery k) (delivers' : e'.Delivers seat delivery' k')
    (alike : delivery' = delivery) (pends : k'.pending = k.pending)
    (moved : partitioner = .roundRobin → e'.after.table.standing seat.groupRow =
      e.after.table.standing seat.groupRow) :
    Parallel queue partitioner (e :: past) (e' :: past') := by
  obtain ⟨_, fits, _⟩ := Run.cons_iff.1 run
  obtain ⟨cursor, recalled⟩ := Call.exists_passing same
  obtain ⟨c, config, k₀, s, asked⟩ := Event.exists_dequeue_of_isDequeue delivers.asked
  have here : e.call.queue.seat c = seat := Call.seat_eq delivers.own (by rw [asked]; rfl)
  have retells : e.Retells e' := by
    refine ⟨by rw [recalled], ⟨cursor, by rw [recalled]⟩, ?_, ?_⟩
    · rw [delivers.answer, delivers'.answer, alike]
    · rw [delivers.cursor, delivers'.cursor, pends]
  refine ⟨.cons retells h.retold, producers_kept h run run' (by rw [asked]; rfl)
    (by rw [recalled, asked]; rfl), fun shared group => ?_⟩
  by_cases within : group = seat.group
  · have row : (RowKey.groupPointer group).encode queue = seat.groupRow := by
      rw [within, Seat.groupRow, ← here, Queue.seat, fits.name]
    change e'.after.table.standing _ = e.after.table.standing _
    rw [row]
    exact moved shared
  · refine groups_kept h run run' shared same fun c' _ _ _ asks => ?_
    rw [asked] at asks
    cases asks
    exact fun there => within (there.symm.trans (congrArg Seat.group here))

end Step

section Dequeue

variable {config : Config} {cursor : Cursor}

private theorem next_of_disjoint (h : Parallel queue .hash past past')
    (run : Run (Diligent queue .hash shares) (e :: past))
    (run' : Run (Diligent queue .hash shares) (e' :: past')) (same : e'.call.bare = e.call.bare)
    (own : e.call.seat? = some seat) (asked : e.call.request = .dequeue c config cursor s) :
    Parallel queue .hash (e :: past) (e' :: past') := by
  obtain ⟨earlier, fits, _⟩ := Run.cons_iff.1 run
  obtain ⟨k₀, asked'⟩ := Call.dequeue_of_bare same asked
  obtain rfl : seat.queue = queue := (Call.name_eq own).symm.trans fits.name
  obtain ⟨delivery, k, delivers, due, free⟩ := Diligent.due own asked run
  obtain ⟨delivery', k', delivers', due', free'⟩ :=
    Diligent.due ((Call.seat?_of_bare same).trans own) asked' run'
  have unretired (p : Pointer) (v : Version) : ¬ Invalidated past p v := fun retired => by
    cases (Diligent.withdrawn earlier retired).1
  exact next_of_delivered h run run' same delivers delivers'
    ((h.retold.due due').unique (Diligent.stored earlier) unretired due) (free'.trans free.symm) nofun

private theorem next_of_shared (h : Parallel queue .roundRobin past past')
    (run : Run (Diligent queue .roundRobin shares) (e :: past))
    (run' : Run (Diligent queue .roundRobin shares) (e' :: past')) (same : e'.call.bare = e.call.bare)
    (own : e.call.seat? = some seat) (asked : e.call.request = .dequeue c config cursor s) :
    Parallel queue .roundRobin (e :: past) (e' :: past') := by
  obtain ⟨earlier, fits, _⟩ := Run.cons_iff.1 run
  obtain ⟨k₀, asked'⟩ := Call.dequeue_of_bare same asked
  obtain rfl : seat.queue = queue := (Call.name_eq own).symm.trans fits.name
  obtain ⟨delivery, k, claim, delivers, draw, answered⟩ := Diligent.draws own asked run
  obtain ⟨delivery', k', claim', delivers', draw', answered'⟩ :=
    Diligent.draws ((Call.seat?_of_bare same).trans own) asked' run'
  -- Both draw from where the counters stand, which is the same.
  have counted : (storageAfter past').table.standing (RowKey.entryCounter.encode seat.queue) =
      (storageAfter past).table.standing (RowKey.entryCounter.encode seat.queue) :=
    congrArg Int64.toInt (h.producers.counter _ ⟨_, .inl rfl, rfl⟩ _)
  have draw' := h.retold.draw draw'
  rw [counted, h.retold.pendingOf_eq, Seat.groupRow, h.groups rfl] at draw'
  have early (id : EntryId) (pends : pendingOf past seat = some id) :
      (id.toNat : Int) ≤ (storageAfter past).table.standing seat.groupRow := by
    obtain ⟨a, r, holding⟩ := Holding.of_run
      (earlier.mono fun _ _ _ fits => (fits.sharedGroup seat.group).orderly seat.member)
    exact took_le earlier (holding.waits id pends).2.2.1
  obtain ⟨rfl, moved⟩ := draw'.unique draw early
  obtain ⟨alike, pends⟩ :=
    (h.retold.drawDelivery answered').unique (Diligent.stored earlier) answered
  exact next_of_delivered h run run' same delivers delivers' alike pends fun _ => moved

end Dequeue

private theorem next (h : Parallel queue partitioner past past')
    (run : Run (Diligent queue partitioner shares) (e :: past))
    (run' : Run (Diligent queue partitioner shares) (e' :: past')) (same : e'.call.bare = e.call.bare) :
    Parallel queue partitioner (e :: past) (e' :: past') := by
  cases asks : e.call.request.consumer? with
  | none => exact next_of_producer h run run' same asks
  | some c =>
      have own : e.call.seat? = some (e.call.queue.seat c) := by rw [Call.seat?, asks]; rfl
      rcases (Run.cons_iff.1 run).2.1.own_cases own with ⟨c, config, cursor, s, asked⟩ | ⟨p, c, s, asked⟩
      · cases partitioner with
        | hash => exact next_of_disjoint h run run' same own asked
        | roundRobin => exact next_of_shared h run run' same own asked
      · exact next_of_ack h run run' same own asked

/-- Runs with the same calls, in which whoever asks for an entry passes a cursor that it may pass, go side
by side. -/
theorem of_run (run : Run (Diligent queue partitioner shares) past) (passes : Run PassesOwn past')
    (same : past'.map (·.call.bare) = past.map (·.call.bare)) :
    Run (Diligent queue partitioner shares) past' ∧ Parallel queue partitioner past past' := by
  induction past generalizing past' with
  | nil =>
      obtain rfl : past' = [] := List.map_eq_nil_iff.1 same
      exact ⟨.start, start queue partitioner⟩
  | cons e past ih =>
      obtain ⟨e', past', rfl, call, rest⟩ := List.map_eq_cons_iff.1 same
      obtain ⟨earlier, fits, _⟩ := Run.cons_iff.1 run
      obtain ⟨earlier', may, found'⟩ := Run.cons_iff.1 passes
      obtain ⟨diligent, h⟩ := ih earlier earlier' rest
      have run' : Run (Diligent queue partitioner shares) (e' :: past') :=
        Run.cons_iff.2 ⟨diligent, h.diligent earlier fits call may, found'⟩
      exact ⟨run', h.next run run' call⟩

end Parallel

theorem Retold.answers {past past' : List Event} (h : Retold past past') :
    past'.map (·.outcome.answer) = past.map (·.outcome.answer) := by
  induction h with
  | nil => rfl
  | cons retells _ ih => rw [List.map_cons, List.map_cons, retells.answer, ih]

/-- Diligent consumers of a queue get the same answers, call by call, whether they pass the cursors that
their last requests left or cursors that were never loaded, at whichever of their requests.  All their
requests are answered, and they are diligent whichever they pass. -/
theorem retention_unnoticed {queue : String} {partitioner : Partitioner} {shares : Seat → Share}
    {past past' : List Event} (run : Run (Diligent queue partitioner shares) past)
    (passes : Run PassesOwn past') (same : past'.map (·.call.bare) = past.map (·.call.bare)) :
    Run (Diligent queue partitioner shares) past' ∧
      (∀ e ∈ past', e.call.request.isDequeue = true → e.delivery? ≠ none) ∧
      past'.map (·.outcome.answer) = past.map (·.outcome.answer) := by
  obtain ⟨run', h⟩ := Parallel.of_run run passes same
  refine ⟨run', fun e mem asks => ?_, h.retold.answers⟩
  obtain ⟨c, config, cursor, s, asked⟩ := Event.exists_dequeue_of_isDequeue asks
  have own : e.call.seat? = some (e.call.queue.seat c) := by rw [Call.seat?, asked]; rfl
  exact (Diligent.allAnswered run' (e.call.queue.seat c) e mem own).1 asks

/-- A member of a shared group is handed an entry, and waits for another one that is committed late.  It
passes the given cursors at its second and third requests. -/
def lateCommit (second third : Cursor) : List Call :=
  let queue : Queue := ⟨"q", ⟨.roundRobin, 20⟩⟩
  let worker : Consumer := { group := 1, member := 0, groupSize := 1 }
  let ask (k : Cursor) (s : Snapshot) : Request := .dequeue worker ⟨.roundRobin, 20⟩ k s
  [⟨queue, ask third (.upTo 200), .none⟩, ⟨queue, ask second (.upTo 10), .none⟩,
    ⟨queue, .ack ⟨"q", 1⟩ worker (.upTo 10), .none⟩, ⟨queue, ask .fresh (.upTo 10), .none⟩,
    ⟨queue, .enqueue ⟨[98], {}⟩ 100, .none⟩, ⟨queue, .enqueue ⟨[97], {}⟩ 1, .none⟩]

/-- The cursor that the first of these requests leaves. -/
def lateServed : Cursor := { loaded := true, active := some 1, readPointer := 1, writePointer := 2 }

/-- The cursor that the second one leaves. -/
def lateWaits : Cursor := { lateServed with pending := some 2 }

private theorem lateCommit_diligent :
    Run (Diligent "q" .roundRobin fun _ => ⟨"", 1, 0⟩) (replay (lateCommit .fresh .fresh)) := by
  refine .replay_cons (.replay_cons (.replay_cons (.replay_cons (.replay_cons (.replay_cons .start
    ?_) ?_) ?_) ?_) ?_) ?_
  · exact ⟨rfl, rfl, rfl, trivial, fun p v asked => by cases asked⟩
  · exact ⟨rfl, rfl, rfl, trivial, fun p v asked => by cases asked⟩
  · refine ⟨rfl, rfl, rfl, ⟨rfl, nofun, rfl, rfl, by decide, .inl rfl, ?_⟩,
      fun p v asked => by cases asked⟩
    exact follows_replay (by decide) (by simp [Request.snapshot?])
  · refine ⟨rfl, rfl, rfl, ⟨rfl, by with_unfolding_all decide, ?_⟩,
      fun p v asked => by cases asked⟩
    exact follows_replay (by decide) (by simp [Request.snapshot?])
  · refine ⟨rfl, rfl, rfl, ⟨rfl, nofun, rfl, rfl, by with_unfolding_all decide, .inl rfl, ?_⟩,
      fun p v asked => by cases asked⟩
    exact follows_replay (by decide) (by simp [Request.snapshot?])
  · refine ⟨rfl, rfl, rfl, ⟨rfl, nofun, rfl, rfl, by with_unfolding_all decide, .inl rfl, ?_⟩,
      fun p v asked => by cases asked⟩
    refine follows_replay_of_extends fun call mem earlier reads => ?_
    have same : earlier = .upTo 10 := by
      have all : ∀ call ∈ (lateCommit .fresh .fresh).drop 1, ∀ earlier,
          call.request.snapshot? = some earlier → earlier = .upTo 10 := by
        simp [lateCommit, Request.snapshot?]
      exact all call mem earlier reads
    subst same
    exact ⟨Snapshot.extends_upTo (by decide), by decide⟩

private theorem lateCommit_passes : Run PassesOwn (replay (lateCommit lateServed lateWaits)) := by
  refine .replay_cons (.replay_cons (.replay_cons (.replay_cons (.replay_cons (.replay_cons .start
    ?_) ?_) ?_) ?_) ?_) ?_ <;> intro c config cursor s asked <;> cases asked
  · exact .inl rfl
  · exact .inr (by with_unfolding_all decide)
  · exact .inr (by with_unfolding_all decide)

/-- The member is handed both entries, whether it keeps its cursors or not. -/
theorem lateCommit_unnoticed :
    servedTo (replay (lateCommit .fresh .fresh)) ⟨"q", 1, 0⟩ = [2, 1] ∧
      (replay (lateCommit lateServed lateWaits)).map (·.outcome.answer) =
        (replay (lateCommit .fresh .fresh)).map (·.outcome.answer) :=
  ⟨by with_unfolding_all decide, (retention_unnoticed lateCommit_diligent lateCommit_passes rfl).2.2⟩

/-- A member of a shared group acknowledges an entry that it waits for, and passes the given cursor at its
next request. -/
def earlyAck (second : Cursor) : List Call :=
  let queue : Queue := ⟨"q", ⟨.roundRobin, 20⟩⟩
  let worker : Consumer := { group := 1, member := 0, groupSize := 1 }
  let ask (k : Cursor) (s : Snapshot) : Request := .dequeue worker ⟨.roundRobin, 20⟩ k s
  [⟨queue, ask second (.upTo 200), .none⟩, ⟨queue, .ack ⟨"q", 1⟩ worker (.upTo 10), .none⟩,
    ⟨queue, ask .fresh (.upTo 10), .none⟩, ⟨queue, .enqueue ⟨[97], {}⟩ 100, .none⟩]

/-- This member is not diligent.  It is handed the entry if it has kept its cursor, and is not if it has
not. -/
example :
    let waits : Cursor := { loaded := true, writePointer := 1, pending := some 1 }
    lastCursor? (replay (earlyAck .fresh).tail) ⟨"q", 1, 0⟩ = some waits ∧
      servedTo (replay (earlyAck waits)) ⟨"q", 1, 0⟩ = [1] ∧
      servedTo (replay (earlyAck .fresh)) ⟨"q", 1, 0⟩ = [] := by
  with_unfolding_all decide

end VersionedQueue
