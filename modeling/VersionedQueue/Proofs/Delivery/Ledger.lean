import VersionedQueue.Proofs.Delivery.Retry
import VersionedQueue.Proofs.Run.Orderly
import VersionedQueue.Proofs.Run.Replay

/-!
# The ledger of claims

A claim that is stored for a consumer is what the consumer's calls have made of it.  A request that is
answered opens the claim on the entry that it leaves the consumer with, a handing back opens it too, and
an acknowledgement closes it.  So an acknowledgement is accepted if one of these opened the claim since
the last one closed it, and that need not have been a request that handed the entry out.
-/

set_option autoImplicit false
set_option relaxedAutoImplicit false

namespace VersionedQueue

/-- The entry on which an answered request opens a claim: the one that a member of a shared group is
handed, or the one that its cursor waits for when there is none. -/
def Delivery.opens? (config : Config) (k : Cursor) : Delivery → Option EntryId
  | .served p _ => if config.partitioner.isDisjoint then none else some p.id
  | .empty => k.pending

section Write

variable {t t' : Table} {st st' : Storage} {seat : Seat} {cells : List (Column × Bytes)} {v : Version}
  {marked : Option EntryId} {state : ClaimState}

theorem Table.claims_recordAll
    (table : t' = t.recordAll seat.row (cells.map fun cell => (cell.1.encode, cell.2)) v)
    (inRow : ∀ cell ∈ cells, cell.1.InConsumerRow) (distinct : (cells.map (·.1)).Nodup)
    (newest : t.Until seat.row v)
    (marks : ∀ id x, (.claim id, x) ∈ cells ↔ marked = some id ∧ x = state.encode) (id : EntryId) :
    (t'.claims seat id).latest =
      if marked = some id then some state.encode else (t.claims seat id).latest := by
  obtain ⟨wrote, kept⟩ := Table.stored_recordAll table inRow distinct newest
  split
  · rename_i here
    exact wrote (.claim id) _ ((marks id _).2 ⟨here, rfl⟩)
  · rename_i apart
    have out : Column.claim id ∉ cells.map (·.1) := by
      intro mem
      obtain ⟨⟨column, x⟩, written, same⟩ := List.mem_map.1 mem
      cases same
      exact apart ((marks id x).1 written).1
    exact congrArg History.latest (kept (.claim id) trivial out)

theorem Storage.Written.claims (wrote : st.Written seat cells v st')
    (inRow : ∀ cell ∈ cells, cell.1.InConsumerRow) (distinct : (cells.map (·.1)).Nodup)
    (newest : st.table.Until seat.row v)
    (marks : ∀ id x, (.claim id, x) ∈ cells ↔ marked = some id ∧ x = state.encode) (id : EntryId) :
    (st'.table.claims seat id).latest =
      if marked = some id then some state.encode else (st.table.claims seat id).latest := by
  obtain ⟨t, same, table⟩ := wrote
  have newest : t.Until seat.row v := by
    intro column w has
    rw [same.history] at has
    exact newest column w has
  rw [Table.claims_recordAll table inRow distinct newest marks id]
  simp only [Table.claims, same.history]

end Write

namespace Queue

variable {q : Queue} {c : Consumer} {config : Config} {s : Snapshot} {t : Turn}

theorem mem_restingCells_claim {k : Cursor} {id : EntryId} {x : Bytes} :
    (.claim id, x) ∈ restingCells k ↔ k.pending = some id ∧ x = ClaimState.claimed.encode := by
  unfold restingCells
  cases k.pending <;> simp [eq_comm]

theorem mem_handingCells_claim {k : Cursor} {entry : CachedEntry} {id : EntryId} {x : Bytes} :
    (.claim id, x) ∈ handingCells config k entry ↔
      (if config.partitioner.isDisjoint then none else some entry.id) = some id ∧
        x = ClaimState.claimed.encode := by
  unfold handingCells
  split <;> simp [eq_comm]

theorem mem_ackingCells_claim {view : QueueView} {id other : EntryId} {x : Bytes} :
    (.claim other, x) ∈ ackingCells c view id ↔ some id = some other ∧ x = ClaimState.acked.encode := by
  unfold ackingCells
  split <;> simp [eq_comm]

theorem mem_reopeningCells_claim {id other : EntryId} {x : Bytes} :
    (.claim other, x) ∈ reopeningCells id ↔ some id = some other ∧ x = ClaimState.claimed.encode := by
  simp [reopeningCells, eq_comm]

private theorem ends_handOut_claims (newest : t.storage.table.Until (q.seat c).row s.writeVersion)
    (id : EntryId) :
    Ends (q.handOut c config s) t
      (fun d u => (u.storage.table.claims (q.seat c) id).latest =
        if d.opens? config u.cursor = some id then some ClaimState.claimed.encode
        else (t.storage.table.claims (q.seat c) id).latest)
      fun _ u => u.storage.table.claims (q.seat c) id = t.storage.table.claims (q.seat c) id := by
  cases cached : t.cursor.cache.entries with
  | nil =>
      refine (ends_handOut_nothing cached).imp ?_ fun _ u same => same.1.history _ _
      rintro _ u ⟨rfl, kept, table⟩
      rw [kept]
      exact Table.claims_recordAll table (restingCells_in_row _) (restingCells_nodup _) newest
        (fun _ _ => mem_restingCells_claim) id
  | cons entry rest =>
      refine (ends_handOut_next cached).imp ?_ fun _ u failed => failed.2.2.history _ _
      rintro _ u ⟨rfl, _, table⟩
      exact Table.claims_recordAll table (handingCells_in_row _ _ _) (handingCells_nodup _ _ _) newest
        (fun _ _ => mem_handingCells_claim) id

theorem ends_ensureLoaded_claims (id : EntryId) :
    Ends (q.ensureLoaded c config s) t
      (fun _ u => u.storage.table.claims (q.seat c) id = t.storage.table.claims (q.seat c) id)
      fun _ u => u.storage.table.claims (q.seat c) id = t.storage.table.claims (q.seat c) id := by
  cases loaded : t.cursor.loaded with
  | true => exact .answered (q.ensureLoaded_of_loaded c config s loaded) rfl
  | false =>
      refine .of_eq (q.ensureLoaded_of_unloaded c config s loaded) ?_
      refine .intro (fun _ u done => ?_) fun e u failed => ?_
      · rcases untouched_of_load done with same | cleared
        · exact same.history _ _
        · exact cleared.history (by simp [Column.encode])
      · exact ((ends_load t.cursor).of_error failed).1.history _ _

theorem ends_dequeue_claims (newest : t.storage.table.Until (q.seat c).row s.writeVersion)
    (id : EntryId) :
    Ends (q.dequeue c config s) t
      (fun d u => (u.storage.table.claims (q.seat c) id).latest =
        if d.opens? config u.cursor = some id then some ClaimState.claimed.encode
        else (t.storage.table.claims (q.seat c) id).latest)
      fun _ u => u.storage.table.claims (q.seat c) id = t.storage.table.claims (q.seat c) id := by
  unfold dequeue
  refine Ends.ofExcept_bind (fun _ _ => rfl) fun _ _ => ?_
  refine Ends.ofExcept_bind (fun _ _ => rfl) fun _ _ => ?_
  have claims := @ends_ensureLoaded_claims q c config s t id
  have touched := (@keeps_ensureLoaded q c config s).ends t
  have loads : Ends (q.ensureLoaded c config s) t
      (fun _ u => u.storage.table.Until (q.seat c).row s.writeVersion ∧
        u.storage.table.claims (q.seat c) id = t.storage.table.claims (q.seat c) id)
      fun _ u => u.storage.table.claims (q.seat c) id = t.storage.table.claims (q.seat c) id :=
    .intro (fun _ u done => ⟨newest.of_touched (touched.of_ok done).1, claims.of_ok done⟩)
      fun _ u failed => claims.of_error failed
  refine loads.bind fun _ u ⟨newest, kept⟩ => ?_
  have aside : ¬ (q.seat c).row = (q.seat c).groupRow := (q.seat c).row_ne_groupRow
  have refilled : (Turn.touched (· = (q.seat c).groupRow) 0).Keeps (q.refill c config s) :=
    fun t => touched_refill t
  have refills : Ends (q.refill c config s) u
      (fun _ v => v.storage.table.Until (q.seat c).row s.writeVersion ∧
        v.storage.table.claims (q.seat c) id = t.storage.table.claims (q.seat c) id)
      fun _ v => v.storage.table.claims (q.seat c) id = t.storage.table.claims (q.seat c) id := by
    refine (refilled.ends u).imp (fun _ v moved => ⟨fun column w has => ?_, ?_⟩) fun _ v moved => ?_
    · rw [moved.1.history _ aside] at has
      exact newest column w has
    · exact (moved.1.history _ aside _).trans kept
    · exact (moved.1.history _ aside _).trans kept
  refine refills.bind fun _ v ⟨newest, kept⟩ => ?_
  rw [← kept]
  exact ends_handOut_claims newest id

end Queue

namespace Event

/-- The entry on which a consumer's call opened its claim. -/
def opens? (e : Event) (seat : Seat) : Option EntryId :=
  if e.call.seat? = some seat then
    match e.call.request, e.outcome.answer with
    | .dequeue _ config _ _, .ok (.delivered d) => d.opens? config e.outcome.cursor
    | .unack p _ _, .ok (.unacked []) => some p.id
    | _, _ => none
  else none

/-- A consumer handed an entry back, and it was not remarked on. -/
def HandsBack (e : Event) (seat : Seat) (id : EntryId) : Prop :=
  e.call.seat? = some seat ∧ (∃ c s, e.call.request = .unack ⟨seat.queue, id⟩ c s) ∧
    e.unacked? = some []

/-- A consumer was told that there is nothing, and waits for an entry that it has claimed. -/
def WaitsFor (e : Event) (seat : Seat) (id : EntryId) : Prop :=
  e.FindsNothing seat ∧ e.outcome.cursor.pending = some id

variable {e : Event} {seat : Seat} {id : EntryId} {p : Pointer} {c : Consumer} {config : Config}
  {cursor : Cursor} {s : Snapshot}

theorem opens?_of_other (other : e.call.seat? ≠ some seat) : e.opens? seat = none := if_neg other

theorem opens?_of_ack (asked : e.call.request = .ack p c s) : e.opens? seat = none := by
  simp [opens?, asked]

theorem opens?_of_ackedBy (acked : e.ackedBy? seat = some id) : e.opens? seat = none := by
  cases asked : e.call.request <;> simp [ackedBy?, asked] at acked
  exact opens?_of_ack asked

theorem opens?_of_delivers {d : Delivery} {k : Cursor} (delivers : e.Delivers seat d k)
    (asked : e.call.request = .dequeue c config cursor s) : e.opens? seat = d.opens? config k := by
  simp [opens?, delivers.own, asked, delivers.answer, delivers.cursor]

theorem opens?_of_failed (asked : e.call.request = .dequeue c config cursor s) {err : QueueError}
    (failed : e.outcome.answer = .error err) : e.opens? seat = none := by
  simp [opens?, asked, failed]

theorem ackedBy?_of_dequeue (asked : e.call.request = .dequeue c config cursor s) :
    e.ackedBy? seat = none := by
  simp [ackedBy?, asked]

theorem outcome_of_ack (asked : e.call.request = .ack p c s) :
    e.outcome = .ofStorage (fun _ => .acked)
      (e.call.queue.ack p c s { e.before with plan := e.call.plan }) := by
  simp only [outcome, Call.perform, asked]

theorem outcome_of_unack (asked : e.call.request = .unack p c s) :
    e.outcome = .ofStorage .unacked
      (e.call.queue.unack p c s { e.before with plan := e.call.plan }) := by
  simp only [outcome, Call.perform, asked]

/-- The claim that an event leaves is open if the event opened it, acknowledged if the event acknowledged
it, and else as it was. -/
def KeepsLedger (e : Event) (seat : Seat) (id : EntryId) : Prop :=
  (e.after.table.claims seat id).latest =
    if e.opens? seat = some id then some ClaimState.claimed.encode
    else if e.ackedBy? seat = some id then some ClaimState.acked.encode
    else (e.before.table.claims seat id).latest

section Request

variable (own : e.call.seat? = some seat) (newest : e.before.table.Until seat.row s.writeVersion)

include own newest

private theorem keepsLedger_of_dequeue (asked : e.call.request = .dequeue c config cursor s)
    (id : EntryId) : e.KeepsLedger seat id := by
  have here := Call.seat_eq own (by rw [asked]; rfl)
  subst here
  have ends := @Queue.ends_dequeue_claims e.call.queue c config s
    ⟨{ e.before with plan := e.call.plan }, cursor⟩ newest id
  rw [KeepsLedger, ackedBy?_of_dequeue asked]
  cases done : e.call.queue.dequeue c config s ⟨{ e.before with plan := e.call.plan }, cursor⟩ with
  | ok d t =>
      obtain ⟨delivers, after⟩ := delivers_of_ok own asked done
      rw [opens?_of_delivers delivers asked, after]
      exact ends.of_ok done
  | error err t =>
      have performed := outcome_of_dequeue asked
      rw [done] at performed
      rw [opens?_of_failed asked (by rw [performed]; rfl), after, performed]
      exact congrArg History.latest (ends.of_error done)

private theorem keepsLedger_of_ack (asked : e.call.request = .ack p c s) (id : EntryId) :
    e.KeepsLedger seat id := by
  have here := Call.seat_eq own (by rw [asked]; rfl)
  subst here
  have ends := @Queue.ends_ack e.call.queue c s { e.before with plan := e.call.plan } p
  rw [KeepsLedger, opens?_of_ack asked]
  cases done : e.call.queue.ack p c s { e.before with plan := e.call.plan } with
  | ok u st =>
      obtain ⟨acked, after⟩ := ackedBy?_of_ack own asked done
      rw [acked, after]
      exact (ends.of_ok done).1.claims (Queue.ackingCells_in_row c _ _)
        (Queue.ackingCells_nodup c _ _) newest (fun _ _ => Queue.mem_ackingCells_claim) id
  | error err st =>
      have refused : e.ackedBy? (e.call.queue.seat c) = none ∧ e.after = st :=
        ackedBy?_of_refused asked done
      rw [refused.1, refused.2]
      exact congrArg History.latest ((ends.of_error done).1.1.history _ _)

private theorem keepsLedger_of_unack (asked : e.call.request = .unack p c s) (id : EntryId) :
    e.KeepsLedger seat id := by
  have here := Call.seat_eq own (by rw [asked]; rfl)
  subst here
  have ends := @Queue.ends_unack e.call.queue c s { e.before with plan := e.call.plan } p
  have performed := outcome_of_unack asked
  have unacked : e.ackedBy? (e.call.queue.seat c) = none := by simp [ackedBy?, asked]
  rw [KeepsLedger, unacked]
  cases done : e.call.queue.unack p c s { e.before with plan := e.call.plan } with
  | ok warnings st =>
      rw [done] at performed
      obtain ⟨_, claim, _, ⟨_, rfl, same⟩ | ⟨_, rfl, wrote⟩⟩ := ends.of_ok done
      · have opens : e.opens? (e.call.queue.seat c) = none := by
          simp [opens?, asked, performed, Outcome.ofStorage]
        rw [opens, after, performed]
        exact congrArg History.latest (same.1.history _ _)
      · have opens : e.opens? (e.call.queue.seat c) = some p.id := by
          simp [opens?, own, asked, performed, Outcome.ofStorage]
        rw [opens, after, performed]
        exact wrote.claims (Queue.reopeningCells_in_row _) (Queue.reopeningCells_nodup _) newest
          (fun _ _ => Queue.mem_reopeningCells_claim) id
  | error err st =>
      rw [done] at performed
      have opens : e.opens? (e.call.queue.seat c) = none := by
        simp [opens?, asked, performed, Outcome.ofStorage]
      rw [opens, after, performed]
      exact congrArg History.latest ((ends.of_error done).1.history _ _)

end Request

theorem keepsLedger (name : e.call.queue.name = seat.queue)
    (newest : e.call.seat? = some seat → ∀ s, e.call.request.snapshot? = some s →
      e.before.table.Until seat.row s.writeVersion) (id : EntryId) : e.KeepsLedger seat id := by
  by_cases own : e.call.seat? = some seat
  · rcases Call.own_cases own with
      ⟨c, config, cursor, s, asked⟩ | ⟨p, c, s, asked⟩ | ⟨p, c, s, asked⟩
    · exact keepsLedger_of_dequeue own (newest own s (by rw [asked]; rfl)) asked id
    · exact keepsLedger_of_ack own (newest own s (by rw [asked]; rfl)) asked id
    · exact keepsLedger_of_unack own (newest own s (by rw [asked]; rfl)) asked id
  · rw [KeepsLedger, opens?_of_other own, ackedBy?_of_other own, Table.claims, history_row name own]
    rfl

theorem handsBack_of_unacked (name : e.call.queue.name = seat.queue) (own : e.call.seat? = some seat)
    (asked : e.call.request = .unack p c s) (answered : e.unacked? = some []) :
    e.HandsBack seat p.id := by
  have ends := @Queue.ends_unack e.call.queue c s { e.before with plan := e.call.plan } p
  have performed := outcome_of_unack asked
  cases done : e.call.queue.unack p c s { e.before with plan := e.call.plan } with
  | ok warnings st =>
      have here : p = ⟨seat.queue, p.id⟩ := by rw [← name, ← (ends.of_ok done).1]
      exact ⟨own, ⟨c, s, by rw [← here]; exact asked⟩, answered⟩
  | error err st =>
      rw [done] at performed
      rw [unacked?, performed] at answered
      cases answered

theorem WaitsFor.asks (h : e.WaitsFor seat id) :
    ∃ c config cursor s, e.call.request = .dequeue c config cursor s := h.1.asks

theorem servedTo?_of_unack (asked : e.call.request = .unack p c s) : e.servedTo? seat = none := by
  have nothing : e.delivery? = none := by
    rw [delivery?, outcome_of_unack asked]
    cases e.call.queue.unack p c s { e.before with plan := e.call.plan } <;> rfl
  simp [servedTo?, nothing]

/-- The call opens the claim on an entry exactly if the entry is handed out by it, waited for, or handed
back. -/
def OpensWhatCame (e : Event) (seat : Seat) (id : EntryId) : Prop :=
  e.opens? seat = some id ↔
    e.servedTo? seat = some id ∨ e.WaitsFor seat id ∨ e.HandsBack seat id

private theorem not_handsBack (other : ∀ p c s, e.call.request ≠ .unack p c s) :
    ¬ e.HandsBack seat id := by
  rintro ⟨_, ⟨c, s, asked⟩, _⟩
  exact other _ _ _ asked

private theorem not_waitsFor (other : ∀ c config cursor s, e.call.request ≠ .dequeue c config cursor s) :
    ¬ e.WaitsFor seat id := by
  intro waits
  obtain ⟨c, config, cursor, s, asked⟩ := waits.asks
  exact other _ _ _ _ asked

private theorem opens?_iff_of_dequeue (own : e.call.seat? = some seat)
    (asked : e.call.request = .dequeue c config cursor s) (shared : config.partitioner = .roundRobin) :
    e.OpensWhatCame seat id := by
  have kept : ¬ e.HandsBack seat id := not_handsBack (by simp [asked])
  have performed := outcome_of_dequeue asked
  rw [OpensWhatCame]
  cases done : e.call.queue.dequeue c config s ⟨{ e.before with plan := e.call.plan }, cursor⟩ with
  | ok d t =>
      obtain ⟨delivers, _⟩ := delivers_of_ok own asked done
      rw [opens?_of_delivers delivers asked, delivers.servedTo?]
      cases d with
      | served p x =>
          have found : ¬ e.WaitsFor seat id := fun waits => nomatch waits.1.delivery_eq delivers
          simp [Delivery.opens?, shared, Partitioner.isDisjoint, Delivery.pointer?, found, kept]
      | empty =>
          have nothing : e.FindsNothing seat := ⟨own, by rw [delivers.delivery?]; rfl⟩
          simp [Delivery.opens?, Delivery.pointer?, WaitsFor, nothing, delivers.cursor, kept]
  | error err t =>
      rw [done] at performed
      have unanswered : e.delivery? = none := by rw [delivery?, performed]; rfl
      have silent : ¬ e.WaitsFor seat id := by
        rintro ⟨⟨_, empty⟩, _⟩
        simp [unanswered] at empty
      rw [opens?_of_failed asked (by rw [performed]; rfl)]
      simp [servedTo?, unanswered, silent, kept]

private theorem opens?_iff_of_unack (name : e.call.queue.name = seat.queue)
    (own : e.call.seat? = some seat) (asked : e.call.request = .unack p c s) :
    e.OpensWhatCame seat id := by
  have silent : ¬ e.WaitsFor seat id := not_waitsFor (by simp [asked])
  have opens : e.opens? seat = some id ↔ p.id = id ∧ e.unacked? = some [] := by
    rw [opens?, if_pos own, unacked?, asked, outcome_of_unack asked]
    cases e.call.queue.unack p c s { e.before with plan := e.call.plan } with
    | ok warnings st => cases warnings <;> simp [Outcome.ofStorage]
    | error err st => simp [Outcome.ofStorage]
  rw [OpensWhatCame, opens, servedTo?_of_unack asked]
  constructor
  · rintro ⟨rfl, answered⟩
    exact .inr (.inr (handsBack_of_unacked name own asked answered))
  · rintro (served | waits | ⟨_, ⟨c', s', same⟩, answered⟩)
    · cases served
    · exact absurd waits silent
    · cases asked.symm.trans same
      exact ⟨rfl, answered⟩

theorem opens?_iff (name : e.call.queue.name = seat.queue)
    (shared : e.call.seat? = some seat → ∀ c config cursor s,
      e.call.request = .dequeue c config cursor s → config.partitioner = .roundRobin) :
    e.opens? seat = some id ↔
      e.servedTo? seat = some id ∨ e.WaitsFor seat id ∨ e.HandsBack seat id := by
  by_cases own : e.call.seat? = some seat
  · rcases Call.own_cases own with
      ⟨c, config, cursor, s, asked⟩ | ⟨p, c, s, asked⟩ | ⟨p, c, s, asked⟩
    · exact opens?_iff_of_dequeue own asked (shared own c config cursor s asked)
    · have silent : ¬ e.WaitsFor seat id := not_waitsFor (by simp [asked])
      have kept : ¬ e.HandsBack seat id := not_handsBack (by simp [asked])
      simp [opens?_of_ack asked, servedTo?_of_ack asked, silent, kept]
    · exact opens?_iff_of_unack name own asked
  · have silent : ¬ e.WaitsFor seat id := fun waits => own waits.1.1
    have kept : ¬ e.HandsBack seat id := fun back => own back.1
    simp [opens?_of_other own, servedTo?_of_other own, silent, kept]

end Event

/-- The state of a consumer's claim on an entry, as the consumer's calls have left it. -/
def claimState (seat : Seat) (id : EntryId) : List Event → Option ClaimState
  | [] => none
  | e :: past =>
      if e.opens? seat = some id then some .claimed
      else if e.ackedBy? seat = some id then some .acked
      else claimState seat id past

/-- The calls of a queue, as far as one consumer is concerned: it uses one partitioner, and its
snapshots follow each other.  It may pass any cursor and hand back any entry, and any call may fail. -/
structure Consistent (seat : Seat) (partitioner : Partitioner) (past : List Event) (call : Call) :
    Prop where
  name : OneQueue seat.queue past call
  follows : call.seat? = some seat → ∀ s, call.request.snapshot? = some s → Follows past seat s
  asks : call.seat? = some seat → ∀ c config cursor s,
    call.request = .dequeue c config cursor s → config.partitioner = partitioner
  acks : call.seat? = some seat → ∀ p c s,
    call.request = .ack p c s → (call.queue.configFor c).partitioner = partitioner

/-- A call to a queue under a given snapshot, which partitions in a given way. -/
def Call.Regular (call : Call) (queue : String) (partitioner : Partitioner) (s : Snapshot) : Prop :=
  call.queue.name = queue ∧ match call.request with
    | .dequeue _ config _ reads => config.partitioner = partitioner ∧ reads = s
    | .ack _ c reads => (call.queue.configFor c).partitioner = partitioner ∧ reads = s
    | .unack _ _ reads => reads = s
    | _ => True

theorem Call.Regular.snapshot_eq {call : Call} {queue : String} {partitioner : Partitioner}
    {s reads : Snapshot} (h : call.Regular queue partitioner s)
    (shown : call.request.snapshot? = some reads) : reads = s := by
  have kind := h.2
  cases asked : call.request <;> rw [asked] at shown kind <;> cases shown
  · exact kind.2
  · exact kind.2
  · exact kind

/-- The consumer also keeps its cursors: it passes one that was never loaded, or the one that its last
request left. -/
structure Resuming (seat : Seat) (partitioner : Partitioner) (past : List Event) (call : Call) : Prop
    extends Consistent seat partitioner past call where
  passes : call.seat? = some seat → ∀ c config cursor s,
    call.request = .dequeue c config cursor s → MayPass past seat cursor

/-- Storage works for retirements as well. -/
structure Keeping (seat : Seat) (partitioner : Partitioner) (past : List Event) (call : Call) : Prop
    extends Resuming seat partitioner past call where
  retires : call.request.isInvalidate = true → call.plan = .none

theorem Keeping.consistent {seat : Seat} {partitioner : Partitioner} {past : List Event}
    (run : Run (Keeping seat partitioner) past) : Run (Consistent seat partitioner) past :=
  run.mono fun _ _ _ fits => fits.toConsistent

theorem Keeping.sound {seat : Seat} {partitioner : Partitioner} {past : List Event}
    (run : Run (Keeping seat partitioner) past) : Run (Sound seat.queue) past :=
  run.mono fun _ _ _ fits => ⟨fits.name, fits.retires⟩

namespace Consistent

variable {seat : Seat} {partitioner : Partitioner} {past : List Event} {e : Event} {id : EntryId}

theorem of_replay {calls : List Call} {s : Snapshot} {n : Nat} {call : Call}
    (sees : s.sees s.writeVersion = true)
    (regular : ∀ call ∈ calls, call.Regular seat.queue partitioner s) (here : calls[n]? = some call) :
    Consistent seat partitioner (replay (calls.drop (n + 1))) call := by
  obtain ⟨name, kind⟩ := regular call (List.mem_of_getElem? here)
  refine ⟨name, fun _ reads shown => ?_, fun _ c config cursor reads asked => ?_,
    fun _ p c reads asked => ?_⟩
  · rw [(regular call (List.mem_of_getElem? here)).snapshot_eq shown]
    exact follows_replay sees fun call mem earlier shown =>
      (regular call (List.mem_of_mem_drop mem)).snapshot_eq shown
  · rw [asked] at kind
    exact kind.1
  · rw [asked] at kind
    exact kind.1

theorem oneQueue (run : Run (Consistent seat partitioner) past) : Run (OneQueue seat.queue) past :=
  run.mono fun _ _ _ fits => fits.name

theorem rowSeen (run : Run (Consistent seat partitioner) (e :: past)) {s : Snapshot}
    (own : e.call.seat? = some seat) (reads : e.call.request.snapshot? = some s) :
    e.before.table.RowSeen seat.row s := by
  obtain ⟨earlier, fits, found⟩ := Run.cons_iff.1 run
  rw [found]
  exact OneQueue.rowSeen (oneQueue earlier) (fits.follows own s reads)

/-- The claims that are stored for a consumer are those of its ledger. -/
theorem claims_of_run (run : Run (Consistent seat partitioner) past) (id : EntryId) :
    ((storageAfter past).table.claims seat id).latest = (claimState seat id past).map (·.encode) := by
  induction run with
  | start => rfl
  | @next past call earlier fits ih =>
      let e : Event := ⟨call, storageAfter past⟩
      have newest (own : e.call.seat? = some seat) (s : Snapshot)
          (reads : e.call.request.snapshot? = some s) :
          e.before.table.Until seat.row s.writeVersion :=
        (rowSeen (.next earlier fits) own reads).until
      change (e.after.table.claims seat id).latest = (claimState seat id (e :: past)).map (·.encode)
      refine Eq.trans (Event.keepsLedger (e := e) fits.name newest id) ?_
      rw [claimState]
      split
      · rfl
      · split
        · rfl
        · exact ih

end Consistent

/-- Something has happened, and the consumer has not acknowledged an entry since. -/
def Unacked (past : List Event) (seat : Seat) (id : EntryId) (what : Event → Prop) : Prop :=
  ∃ newer e earlier, past = newer ++ e :: earlier ∧ what e ∧ ∀ f ∈ newer, f.ackedBy? seat ≠ some id

section Unacked

variable {past : List Event} {seat : Seat} {e : Event} {id : EntryId} {what other : Event → Prop}

theorem unacked_nil : ¬ Unacked [] seat id what := by
  rintro ⟨newer, e, earlier, split, _⟩
  cases newer <;> cases split

theorem unacked_cons :
    Unacked (e :: past) seat id what ↔ what e ∨ e.ackedBy? seat ≠ some id ∧ Unacked past seat id what := by
  constructor
  · rintro ⟨newer, f, earlier, split, happened, quiet⟩
    cases newer with
    | nil =>
        cases split
        exact .inl happened
    | cons g newer =>
        cases split
        exact .inr ⟨quiet e List.mem_cons_self, newer, f, earlier, rfl, happened,
          fun h mem => quiet h (List.mem_cons_of_mem e mem)⟩
  · rintro (happened | ⟨kept, newer, f, earlier, rfl, happened, quiet⟩)
    · exact ⟨[], e, past, rfl, happened, fun f mem => absurd mem List.not_mem_nil⟩
    · exact ⟨e :: newer, f, earlier, rfl, happened, List.forall_mem_cons.2 ⟨kept, quiet⟩⟩

theorem unacked_or :
    Unacked past seat id (fun e => what e ∨ other e) ↔
      Unacked past seat id what ∨ Unacked past seat id other := by
  constructor
  · rintro ⟨newer, e, earlier, split, happened | happened, quiet⟩
    · exact .inl ⟨newer, e, earlier, split, happened, quiet⟩
    · exact .inr ⟨newer, e, earlier, split, happened, quiet⟩
  · rintro (⟨newer, e, earlier, split, happened, quiet⟩ | ⟨newer, e, earlier, split, happened, quiet⟩)
    · exact ⟨newer, e, earlier, split, .inl happened, quiet⟩
    · exact ⟨newer, e, earlier, split, .inr happened, quiet⟩

theorem claimState_eq_claimed :
    claimState seat id past = some .claimed ↔ Unacked past seat id (·.opens? seat = some id) := by
  induction past with
  | nil => simp [claimState, unacked_nil]
  | cons e past ih =>
      rw [claimState, unacked_cons, ← ih]
      split
      · rename_i opened
        simp [opened]
      · rename_i kept
        split
        · rename_i acked
          simp [kept, acked]
        · rename_i unacked
          simp [kept, unacked]

theorem mem_outstanding_iff :
    id ∈ outstanding seat past ↔ Unacked past seat id (·.servedTo? seat = some id) := by
  induction past with
  | nil => simp [outstanding, unacked_nil]
  | cons e past ih =>
      rw [unacked_cons, ← ih]
      cases served : e.servedTo? seat with
      | some first =>
          obtain ⟨_, _, answered, _⟩ := Event.own_of_servedTo? served
          obtain ⟨_, _, _, _, asked⟩ := Event.exists_dequeue answered
          rw [outstanding_cons_of_served served, Event.ackedBy?_of_dequeue asked]
          simp [eq_comm]
      | none =>
          cases acked : e.ackedBy? seat with
          | some done =>
              rw [mem_outstanding_cons_of_acked served acked]
              simp [and_comm, eq_comm]
          | none =>
              rw [outstanding_cons_of_none served acked]
              simp

end Unacked

namespace Consistent

variable {seat : Seat} {partitioner : Partitioner} {past : List Event} {e : Event} {id : EntryId}
  {c : Consumer} {s : Snapshot}

/-- A member of a shared group has an open claim on an entry exactly if the entry was handed to it, or it
was told to wait for the entry, or it handed the entry back, and it has not acknowledged it since. -/
theorem claimState_eq_claimed_iff (run : Run (Consistent seat .roundRobin) past) :
    claimState seat id past = some .claimed ↔ id ∈ outstanding seat past ∨
      Unacked past seat id fun f => f.WaitsFor seat id ∨ f.HandsBack seat id := by
  rw [claimState_eq_claimed, mem_outstanding_iff, ← unacked_or]
  induction run with
  | start => simp only [unacked_nil]
  | @next past call earlier fits ih =>
      have opens := @Event.opens?_iff ⟨call, storageAfter past⟩ seat id fits.name fits.asks
      rw [unacked_cons, unacked_cons, ih, opens]

theorem decodeClaim_of_run (run : Run (Consistent seat partitioner) (e :: past))
    (own : e.call.seat? = some seat) (asks : e.call.request.consumer? = some c)
    (reads : e.call.request.snapshot? = some s) (id : EntryId) :
    e.call.queue.decodeClaim c id (e.call.queue.shows e.before.table s (Queue.consumerRow c)
      (.claim id)) = .ok (claimState seat id past) := by
  have here := Call.seat_eq own asks
  subst here
  obtain ⟨earlier, _, found⟩ := Run.cons_iff.1 run
  rw [(rowSeen run own reads).shows]
  have stored : e.before.table.stored (e.call.queue.seat c) (.claim id) =
      (claimState (e.call.queue.seat c) id past).map (·.encode) := by
    rw [found]
    exact claims_of_run earlier id
  rw [stored]
  cases claimState (e.call.queue.seat c) id past with
  | none => rfl
  | some state => exact e.call.queue.decodeClaim_encode c id state

section Acknowledging

variable (run : Run (Consistent seat .roundRobin) (e :: past)) (own : e.call.seat? = some seat)
  (asked : e.call.request = .ack ⟨seat.queue, id⟩ c s)

include run own asked

theorem isDisjoint_eq_false : (e.call.queue.configFor c).partitioner.isDisjoint = false := by
  rw [(Run.cons_iff.1 run).2.1.acks own _ _ _ asked]
  rfl

theorem claimed_of_accepted (acked : e.ackedBy? seat = some id) :
    claimState seat id past = some .claimed := by
  have read := decodeClaim_of_run run own (by rw [asked]; rfl) (by rw [asked]; rfl) id
  have here := Call.seat_eq own (by rw [asked]; rfl)
  subst here
  have ends := @Queue.ends_ack e.call.queue c s { e.before with plan := e.call.plan }
    ⟨e.call.queue.name, id⟩
  cases done : e.call.queue.ack ⟨e.call.queue.name, id⟩ c s { e.before with plan := e.call.plan } with
  | ok u st =>
      obtain ⟨_, _, claim, read', passed⟩ := ends.of_ok done
      cases read.symm.trans read'
      rw [isDisjoint_eq_false run own asked] at passed
      exact (AckDecision.refusal?_eq_none.1 passed).resolve_left nofun
  | error err st => cases (Event.ackedBy?_of_refused asked done).1.symm.trans acked

theorem decided_of_calm (calm : e.call.plan = .none) :
    (claimState seat id past = some .claimed → e.ackedBy? seat = some id) ∧
      (e.ackedBy? seat ≠ some id → ∃ reason,
        (AckDecision.check false (claimState seat id past)).refusal? = some reason ∧
          e.outcome.answer = .error (.illegalAck id reason)) := by
  have read := decodeClaim_of_run run own (by rw [asked]; rfl) (by rw [asked]; rfl) id
  have name : seat.queue = e.call.queue.name := (Call.name_eq own).symm
  have here := Call.seat_eq own (by rw [asked]; rfl)
  subst here
  have decided := @Queue.ack_of_calm e.call.queue c s { e.before with plan := e.call.plan }
    ⟨_, id⟩ _ calm name read
  rw [isDisjoint_eq_false run own asked] at decided
  split at decided
  · obtain ⟨st, done⟩ := decided
    have accepted := (Event.ackedBy?_of_ack own asked done).1
    exact ⟨fun _ => accepted, fun unaccepted => absurd accepted unaccepted⟩
  · rename_i reason refused
    obtain ⟨st, done⟩ := decided
    refine ⟨fun claimed => ?_, fun _ => ⟨reason, refused, ?_⟩⟩
    · cases (AckDecision.refusal?_eq_none.2 (.inr claimed)).symm.trans refused
    · rw [Event.outcome_of_ack asked, done]
      rfl

end Acknowledging

theorem alike_of_unaccepted (own : e.call.seat? = some seat) {p : Pointer}
    (asked : e.call.request = .ack p c s) (unaccepted : e.ackedBy? seat ≠ some p.id) :
    e.before.table.Alike e.after.table := by
  have ends := @Queue.ends_ack e.call.queue c s { e.before with plan := e.call.plan } p
  cases done : e.call.queue.ack p c s { e.before with plan := e.call.plan } with
  | ok u st => exact absurd (Event.ackedBy?_of_ack own asked done).1 unaccepted
  | error err st =>
      have ⟨_, after⟩ := @Event.ackedBy?_of_refused e seat p c s asked st err done
      rw [after]
      exact (ends.of_error done).1.1

/-- A member of a shared group acknowledges an entry of the queue.  This is accepted exactly if, since
its last acknowledgement of the entry, it was handed the entry, or told to wait for it, or has handed it
back.  Otherwise it is refused as illegal.  An acknowledgement that is not accepted changes nothing. -/
theorem ack_accepted_iff (run : Run (Consistent seat .roundRobin) (e :: past))
    (own : e.call.seat? = some seat) (asked : e.call.request = .ack ⟨seat.queue, id⟩ c s) :
    (e.ackedBy? seat = some id → id ∈ outstanding seat past ∨
      Unacked past seat id fun f => f.WaitsFor seat id ∨ f.HandsBack seat id) ∧
    (e.ackedBy? seat ≠ some id → e.before.table.Alike e.after.table) ∧
    (e.call.plan = .none →
      ((id ∈ outstanding seat past ∨
          Unacked past seat id fun f => f.WaitsFor seat id ∨ f.HandsBack seat id) →
        e.ackedBy? seat = some id) ∧
      (e.ackedBy? seat ≠ some id → ∃ reason,
        (AckDecision.check false (claimState seat id past)).refusal? = some reason ∧
          e.outcome.answer = .error (.illegalAck id reason))) := by
  rw [← claimState_eq_claimed_iff (Run.cons_iff.1 run).1]
  exact ⟨claimed_of_accepted run own asked, alike_of_unaccepted own asked, decided_of_calm run own asked⟩

/-- A member of a shared group hands back an entry that nobody has asked for, and acknowledges it. -/
def unasked : List Call :=
  let queue : Queue := ⟨"q", ⟨.roundRobin, 20⟩⟩
  let worker : Consumer := { group := 1, member := 0, groupSize := 1 }
  [⟨queue, .ack ⟨"q", 1⟩ worker (.upTo 10), .none⟩, ⟨queue, .unack ⟨"q", 1⟩ worker (.upTo 10), .none⟩,
    ⟨queue, .enqueue ⟨[97], {}⟩ 1, .none⟩]

private theorem unasked_run : Run (Consistent ⟨"q", 1, 0⟩ .roundRobin) (replay unasked) := by
  have fits (n : Nat) {call : Call} (here : unasked[n]? = some call) :
      Consistent ⟨"q", 1, 0⟩ .roundRobin (replay (unasked.drop (n + 1))) call :=
    .of_replay (s := .upTo 10) (by decide) (by simp [unasked, Call.Regular, Queue.configFor]) here
  exact .replay_cons (.replay_cons (.replay_cons .start (fits 2 rfl)) (fits 1 rfl)) (fits 0 rfl)

/-- The acknowledgement is accepted, though the entry was never handed out. -/
theorem unasked_accepted :
    ∃ ack earlier, replay unasked = ack :: earlier ∧ ack.ackedBy? ⟨"q", 1, 0⟩ = some 1 ∧
      ∀ e ∈ earlier, e.delivery? = none := by
  have back : Unacked (replay (unasked.drop 1)) ⟨"q", 1, 0⟩ 1
      fun f => f.WaitsFor ⟨"q", 1, 0⟩ 1 ∨ f.HandsBack ⟨"q", 1, 0⟩ 1 :=
    ⟨[], _, _, rfl, .inr ⟨rfl, ⟨_, _, rfl⟩, by with_unfolding_all decide⟩,
      fun f mem => absurd mem List.not_mem_nil⟩
  obtain ⟨_, _, decided⟩ := ack_accepted_iff unasked_run rfl rfl
  exact ⟨_, _, rfl, (decided rfl).1 (.inr back), by with_unfolding_all decide⟩

end Consistent

end VersionedQueue
