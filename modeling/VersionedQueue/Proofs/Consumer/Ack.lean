import VersionedQueue.Proofs.Consumer.Steps
import VersionedQueue.Proofs.Storage.Mirrored
import VersionedQueue.Proofs.Storage.Unreliable
import VersionedQueue.Queue.Acknowledge

/-!
# Acknowledgements

An acknowledgement is refused and changes nothing, or marks the claim and clears the active entry if
that is the one acknowledged.
-/

set_option autoImplicit false
set_option relaxedAutoImplicit false

namespace VersionedQueue

/-- After a call the table is the one before it, with cells of a consumer's row written. -/
def Storage.Written (st : Storage) (seat : Seat) (cells : List (Column × Bytes)) (v : Version)
    (st' : Storage) : Prop :=
  ∃ t, st.table.Alike t ∧
    st'.table = t.recordAll seat.row (cells.map fun cell => (cell.1.encode, cell.2)) v

theorem AckDecision.refusal?_eq_none {isDisjoint : Bool} {claim : Option ClaimState} :
    (check isDisjoint claim).refusal? = none ↔ isDisjoint = true ∨ claim = some .claimed := by
  cases isDisjoint with
  | true => simp [check, refusal?]
  | false =>
      cases claim with
      | none => simp [check, refusal?]
      | some state => cases state <;> simp [check, refusal?]

namespace Queue

variable (q : Queue) (c : Consumer) (s : Snapshot) {past : List Event} {a r : EntryId} {st : Storage}

private theorem some_iff_active {cell : Option Bytes} {active id : EntryId}
    (stored : storedId? cell = some active) :
    activeEntry? cell = some id ↔ active = id ∧ active ≠ noEntry := by
  cases cell with
  | none =>
      cases stored
      simp [ activeEntry?]
  | some cell =>
      have read : cell.toUInt64? = some active := stored
      simp only [ activeEntry?, Option.bind_some, read, Option.filter_some]
      by_cases none : active = noEntry
      · simp [none]
      · simp [none]

private theorem answers_mark (id : EntryId) (h : Footing q c s past a r st) :
    Answers (q.writeConsumer c ((.claim id, ClaimState.acked.encode) ::
        if activeEntry? (st.table.stored (q.seat c) .active) = some id then
          [(.active, Bytes.ofUInt64 noEntry)]
        else []) s) st fun _ st' =>
      Footing q c s past (if a = id then noEntry else a) r st' ∧
        ∀ other, other ≠ id →
          st'.table.claims (q.seat c) other = st.table.claims (q.seat c) other := by
  by_cases current : a = id ∧ a ≠ noEntry
  · rw [if_pos ((some_iff_active h.holds.active).2 current), if_pos current.1]
    refine (q.answers_write c s .writeConsumer noEntry r
      [(.claim id, ClaimState.acked.encode), (.active, Bytes.ofUInt64 noEntry)] h
      (by simp [Column.InConsumerRow]) (by simp) (.inl (by simp)) (.inr ⟨rfl, by simp⟩)).imp ?_
    rintro _ st' ⟨footing, _, kept⟩
    exact ⟨footing, fun other apart => kept other (by simp [apart])⟩
  · have same : (if a = id then noEntry else a) = a := by
      split
      · rename_i here
        exact Classical.byContradiction fun other => current ⟨here, Ne.symm other⟩
      · rfl
    rw [if_neg (mt (some_iff_active h.holds.active).1 current), same]
    refine (q.answers_write c s .writeConsumer a r [(.claim id, ClaimState.acked.encode)] h
      (by simp [Column.InConsumerRow]) (by simp) (.inr ⟨rfl, by simp⟩) (.inr ⟨rfl, by simp⟩)).imp ?_
    rintro _ st' ⟨footing, _, kept⟩
    exact ⟨footing, fun other apart => kept other (by simp [apart])⟩

theorem decodeClaim_encode (id : EntryId) (state : ClaimState) :
    q.decodeClaim c id (some state.encode) = .ok (some state) := by
  simp [decodeClaim]

theorem encode_of_decodeClaim {id : EntryId} {cell : Option Bytes} {state : ClaimState}
    (decoded : q.decodeClaim c id cell = .ok (some state)) : cell = some state.encode := by
  cases cell with
  | none => cases decoded
  | some x =>
      simp only [decodeClaim] at decoded
      split at decoded
      · rename_i here read
        cases decoded
        unfold ClaimState.decode? at read
        split at read <;> cases read <;> rfl
      · cases decoded

/-- What an acknowledgement and a handing back begin with: the pointer is checked, the claim on its
entry is read, and the rest goes by the claim. -/
def onClaim {α : Type} (p : Pointer) (next : QueueView → Option ClaimState → StorageM α) :
    StorageM α := do
  MonadExcept.ofExcept (q.checkPointer p)
  let view ← q.view .readClaim s
  let claim ← MonadExcept.ofExcept (q.decodeClaim c p.id (view (consumerRow c) (.claim p.id)))
  next view claim

/-- The cells that an acknowledgement writes. -/
def ackingCells (view : QueueView) (id : EntryId) : List (Column × Bytes) :=
  (.claim id, ClaimState.acked.encode) ::
    if activeEntry? (view (consumerRow c) .active) = some id then [(.active, Bytes.ofUInt64 noEntry)]
    else []

/-- The cells that a handing back writes. -/
def reopeningCells (id : EntryId) : List (Column × Bytes) :=
  [(.claim id, ClaimState.claimed.encode), (.active, Bytes.ofUInt64 id)]

theorem ackingCells_in_row (view : QueueView) (id : EntryId) :
    ∀ cell ∈ ackingCells c view id, cell.1.InConsumerRow := by
  unfold ackingCells
  split <;> simp [Column.InConsumerRow]

theorem ackingCells_nodup (view : QueueView) (id : EntryId) :
    ((ackingCells c view id).map (·.1)).Nodup := by
  unfold ackingCells
  split <;> simp

theorem reopeningCells_in_row (id : EntryId) : ∀ cell ∈ reopeningCells id, cell.1.InConsumerRow := by
  simp [reopeningCells, Column.InConsumerRow]

theorem reopeningCells_nodup (id : EntryId) : ((reopeningCells id).map (·.1)).Nodup := by
  simp [reopeningCells]

theorem ack_eq_onClaim (p : Pointer) :
    q.ack p c s = q.onClaim c s p fun view claim =>
      match (AckDecision.check (q.configFor c).partitioner.isDisjoint claim).refusal? with
      | some reason => throw (.illegalAck p.id reason)
      | none => q.writeConsumer c (ackingCells c view p.id) s := rfl

theorem unack_eq_onClaim (p : Pointer) :
    q.unack p c s = q.onClaim c s p fun _ claim =>
      if claim = some .acked then
        return [.handedBackAcked]
      else do
        q.writeConsumer c (reopeningCells p.id) s
        return [] := rfl

section OnClaim

variable {α : Type} {p : Pointer} {next : QueueView → Option ClaimState → StorageM α}

theorem onClaim_cases (h : Footing q c s past a r st) (seen : st.table.RowSeen (q.seat c).row s) :
    (∃ e st', q.onClaim c s p next st = .error e st' ∧ st.Alike st' ∧ (p.queue = q.name →
      ∀ claim, q.decodeClaim c p.id (st.table.claims (q.seat c) p.id).latest ≠ .ok claim)) ∨
    ∃ claim st', q.onClaim c s p next st = next (q.shows st.table s) claim st' ∧ st.Alike st' ∧
      p.queue = q.name ∧
      q.decodeClaim c p.id (st.table.claims (q.seat c) p.id).latest = .ok claim := by
  unfold onClaim
  by_cases foreign : p.queue = q.name
  · have checked : (MonadExcept.ofExcept (q.checkPointer p) : StorageM Unit) st = .ok () st := by
      rw [checkPointer, if_pos foreign]
      rfl
    rw [bind_eq_of_ok checked]
    obtain ⟨view, st₁, viewed, rfl, same⟩ := q.answers_view .readClaim s h.reliable
    rw [bind_eq_of_ok viewed, seen.shows]
    change (∃ e st', (MonadExcept.ofExcept (q.decodeClaim c p.id
      (st.table.claims (q.seat c) p.id).latest) >>= _ : StorageM α) st₁ = .error e st' ∧ _) ∨
        ∃ claim st', (MonadExcept.ofExcept (q.decodeClaim c p.id
          (st.table.claims (q.seat c) p.id).latest) >>= _ : StorageM α) st₁ = _ ∧ _
    cases q.decodeClaim c p.id (st.table.claims (q.seat c) p.id).latest with
    | error e => exact .inl ⟨e, st₁, rfl, same, fun _ _ read => nomatch read⟩
    | ok claim => exact .inr ⟨claim, st₁, rfl, same, foreign, rfl⟩
  · refine .inl ⟨.foreignPointer q.name p.queue, st, ?_, .refl st, fun name => absurd name foreign⟩
    rw [checkPointer, if_neg foreign]
    rfl

theorem onClaim_of_calm {claim : Option ClaimState} (calm : st.plan = .none) (name : p.queue = q.name)
    (read : q.decodeClaim c p.id (q.shows st.table s (consumerRow c) (.claim p.id)) = .ok claim) :
    ∃ st', q.onClaim c s p next st = next (q.shows st.table s) claim st' ∧ st.Alike st' := by
  obtain ⟨_, st', viewed, rfl, same⟩ := q.answers_view_of_calm .readClaim s calm
  have checked : (MonadExcept.ofExcept (q.checkPointer p) : StorageM Unit) st = .ok () st := by
    rw [checkPointer, if_pos name]
    rfl
  refine ⟨st', ?_, same⟩
  unfold onClaim
  rw [bind_eq_of_ok checked, bind_eq_of_ok viewed, read]
  rfl

theorem ends_onClaim {post : α → Storage → Prop} {fail : QueueError → Storage → Prop}
    (failed : ∀ e st', st.Alike st' →
      (p.queue = q.name → (∃ source, e = .internal Purpose.readClaim.text source) ∨
        q.decodeClaim c p.id (q.shows st.table s (consumerRow c) (.claim p.id)) = .error e) →
      fail e st')
    (rest : ∀ claim st', st.Alike st' → p.queue = q.name →
      q.decodeClaim c p.id (q.shows st.table s (consumerRow c) (.claim p.id)) = .ok claim →
      Ends (next (q.shows st.table s) claim) st' post fail) :
    Ends (q.onClaim c s p next) st post fail := by
  have checked (u : Unit) (ok : q.checkPointer p = .ok u) : p.queue = q.name := by
    rw [checkPointer] at ok
    split at ok
    · assumption
    · cases ok
  refine Ends.ofExcept_bind (fun e refused => failed e st (.refl st) fun name => ?_) fun u ok => ?_
  · rw [checkPointer, if_pos name] at refused
    cases refused
  · have name := checked u ok
    refine ((q.ends_view .readClaim s).imp (fun _ _ done => done)
      fun e st' unread => failed e st' unread.2 fun _ => .inl unread.1).bind ?_
    rintro view st₁ ⟨rfl, same⟩
    exact Ends.ofExcept_bind (fun e unread => failed e st₁ same fun _ => .inr unread)
      fun claim read => rest claim st₁ same name read

end OnClaim

/-- How an acknowledgement ends.  One of an entry of the queue on which the claim is open is not
refused. -/
theorem ack_cases (p : Pointer) (h : Footing q c s past a r st)
    (seen : st.table.RowSeen (q.seat c).row s) :
    (∃ e st', q.ack p c s st = .error e st' ∧ st.Alike st' ∧ (p.queue = q.name →
      (st.table.claims (q.seat c) p.id).latest ≠ some ClaimState.claimed.encode)) ∨
      ∃ st', q.ack p c s st = .ok () st' ∧ p.queue = q.name ∧
        Footing q c s past (if a = p.id then noEntry else a) r st' ∧
        (∀ id, id ≠ p.id → st'.table.claims (q.seat c) id = st.table.claims (q.seat c) id) ∧
        ((q.configFor c).partitioner.isDisjoint = false →
          (st.table.claims (q.seat c) p.id).latest ≠ none) := by
  have opened (claimed : (st.table.claims (q.seat c) p.id).latest = some ClaimState.claimed.encode) :
      q.decodeClaim c p.id (st.table.claims (q.seat c) p.id).latest = .ok (some .claimed) := by
    rw [claimed]
    exact q.decodeClaim_encode c p.id .claimed
  rw [ack_eq_onClaim]
  rcases q.onClaim_cases c s h seen with
    ⟨e, st₁, failed, same, unread⟩ | ⟨claim, st₁, done, same, foreign, read⟩
  · exact .inl ⟨e, st₁, failed, same, fun name claimed => unread name _ (opened claimed)⟩
  · rw [done]
    cases refused : (AckDecision.check (q.configFor c).partitioner.isDisjoint claim).refusal? with
    | some reason =>
        refine .inl ⟨_, st₁, rfl, same, fun _ claimed => ?_⟩
        cases read.symm.trans (opened claimed)
        simp [AckDecision.check, AckDecision.refusal?] at refused
    | none =>
        have claimed : (q.configFor c).partitioner.isDisjoint = false →
            (st.table.claims (q.seat c) p.id).latest ≠ none := by
          intro shared unclaimed
          rw [unclaimed] at read
          cases read
          simp [AckDecision.check, shared, AckDecision.refusal?] at refused
        obtain ⟨_, st₂, wrote, footing, claims⟩ := q.answers_mark c s p.id (h.of_alike same)
        have active : st₁.table.stored (q.seat c) .active = q.shows st.table s (consumerRow c) .active := by
          rw [seen.shows]
          simp only [Table.stored, same.1.history]
        rw [active] at wrote
        refine .inr ⟨st₂, wrote, foreign, footing, fun id other => ?_, claimed⟩
        exact (claims id other).trans (same.1.history _ _)

theorem unack_cases (p : Pointer) (h : Footing q c s past a r st)
    (seen : st.table.RowSeen (q.seat c).row s) :
    (∃ e st', q.unack p c s st = .error e st') ∨
      (∃ st', q.unack p c s st = .ok [.handedBackAcked] st' ∧ p.queue = q.name ∧
        (st.table.claims (q.seat c) p.id).latest = some ClaimState.acked.encode) ∨
      ∃ st', q.unack p c s st = .ok [] st' ∧ p.queue = q.name ∧ Footing q c s past p.id r st' := by
  rw [unack_eq_onClaim]
  rcases q.onClaim_cases c s h seen with
    ⟨e, st₁, failed, _⟩ | ⟨claim, st₁, done, same, foreign, read⟩
  · exact .inl ⟨e, st₁, failed⟩
  · rw [done]
    by_cases acked : claim = some .acked
    · rw [if_pos acked]
      exact .inr (.inl ⟨st₁, rfl, foreign, q.encode_of_decodeClaim c (acked ▸ read)⟩)
    · rw [if_neg acked]
      obtain ⟨_, st₂, wrote, footing, _⟩ := q.answers_write c s .writeConsumer p.id r
        (reopeningCells p.id) (h.of_alike same) (by simp [reopeningCells, Column.InConsumerRow])
        (by simp [reopeningCells]) (.inl (by simp [reopeningCells]))
        (.inr ⟨rfl, by simp [reopeningCells]⟩)
      exact .inr (.inr ⟨st₂, bind_eq_of_ok wrote, foreign, footing⟩)

/-- What an acknowledgement of an entry of the queue is refused with, if storage fails or the claim that
a snapshot shows does not allow it. -/
def AckRefusal (t : Table) (id : EntryId) (e : QueueError) : Prop :=
  (∃ source, e = .internal Purpose.readClaim.text source ∨
    e = .internal Purpose.writeConsumer.text source) ∨
  q.decodeClaim c id (q.shows t s (consumerRow c) (.claim id)) = .error e ∨
  ∃ claim reason, q.decodeClaim c id (q.shows t s (consumerRow c) (.claim id)) = .ok claim ∧
    (AckDecision.check (q.configFor c).partitioner.isDisjoint claim).refusal? = some reason ∧
    e = .illegalAck id reason

/-- However its calls end, an acknowledgement that fails has left the table as it was, and one that
is answered was allowed, and has written the claim and perhaps the active entry. -/
theorem ends_ack (p : Pointer) :
    Ends (q.ack p c s) st
      (fun _ st' => st.Written (q.seat c) (ackingCells c (q.shows st.table s) p.id) s.writeVersion st' ∧
        p.queue = q.name ∧ ∃ claim,
          q.decodeClaim c p.id (q.shows st.table s (consumerRow c) (.claim p.id)) = .ok claim ∧
          (AckDecision.check (q.configFor c).partitioner.isDisjoint claim).refusal? = none)
      fun e st' => st.Alike st' ∧ (p.queue = q.name → q.AckRefusal c s st.table p.id e) := by
  rw [ack_eq_onClaim]
  refine q.ends_onClaim c s (fun e st' same why => ⟨same, fun name => ?_⟩)
    fun claim st₁ same name read => ?_
  · exact (why name).imp (fun ⟨source, unread⟩ => ⟨source, .inl unread⟩) .inl
  · cases refused : (AckDecision.check (q.configFor c).partitioner.isDisjoint claim).refusal? with
    | some reason => exact ⟨same, fun _ => .inr (.inr ⟨claim, reason, read, refused, rfl⟩)⟩
    | none =>
        exact (q.ends_put .writeConsumer (consumerRow c) _ s.writeVersion).imp
          (fun _ _ done => ⟨⟨st₁.table, same.1, done.1⟩, name, claim, read, refused⟩)
          fun _ _ failed => ⟨same.trans failed.2, fun _ => .inl (failed.1.imp fun _ => .inr)⟩

/-- However its calls end, a handing back that fails has left the table as it was.  One that is answered
opens the claim and makes the entry the active one, unless the claim that the snapshot shows is
acknowledged: then it remarks on that, and leaves the table as it was. -/
theorem ends_unack (p : Pointer) :
    Ends (q.unack p c s) st
      (fun warnings st' => p.queue = q.name ∧ ∃ claim,
        q.decodeClaim c p.id (q.shows st.table s (consumerRow c) (.claim p.id)) = .ok claim ∧
        ((claim = some .acked ∧ warnings = [.handedBackAcked] ∧ st.Alike st') ∨
          (claim ≠ some .acked ∧ warnings = [] ∧
            st.Written (q.seat c) (reopeningCells p.id) s.writeVersion st')))
      fun _ st' => st.Alike st' := by
  rw [unack_eq_onClaim]
  refine q.ends_onClaim c s (fun _ _ same _ => same) fun claim st₁ same name read => ?_
  split
  · rename_i acked
    exact Ends.pure ⟨name, claim, read, .inl ⟨acked, rfl, same⟩⟩
  · rename_i unacked
    have wrote := (q.ends_put .writeConsumer (consumerRow c) (reopeningCells p.id) s.writeVersion).imp
      (fun _ st' done => (⟨st₁.table, same.1, done.1⟩ :
        st.Written (q.seat c) (reopeningCells p.id) s.writeVersion st'))
      fun _ _ failed => same.trans failed.2
    exact wrote.bind fun _ _ done => Ends.pure ⟨name, claim, read, .inr ⟨unacked, rfl, done⟩⟩

section Row

variable {q c s} {st' : Storage} {id : EntryId} {cells : List (Column × Bytes)}

private theorem stored_of_written (wrote : st.Written (q.seat c) cells s.writeVersion st')
    (inRow : ∀ cell ∈ cells, cell.1.InConsumerRow) (distinct : (cells.map (·.1)).Nodup)
    (newest : st.table.Until (q.seat c).row s.writeVersion) :
    (∀ column x, (column, x) ∈ cells → st'.table.stored (q.seat c) column = some x) ∧
      ∀ column, column.InConsumerRow → column ∉ cells.map (·.1) →
        st'.table.stored (q.seat c) column = st.table.stored (q.seat c) column := by
  obtain ⟨t, same, table⟩ := wrote
  have newest : t.Until (q.seat c).row s.writeVersion := by
    intro column w has
    rw [same.history] at has
    exact newest column w has
  obtain ⟨wrote, kept⟩ := Table.stored_recordAll table inRow distinct newest
  refine ⟨wrote, fun column own out => ?_⟩
  rw [Table.stored, kept column own out, same.history]
  rfl

theorem holds_of_acked
    (wrote : st.Written (q.seat c) (ackingCells c (q.shows st.table s) id) s.writeVersion st')
    (holds : st.table.Holds (q.seat c) a r) (seen : st.table.RowSeen (q.seat c).row s) :
    st'.table.Holds (q.seat c) (if a = id then noEntry else a) r := by
  obtain ⟨wrote, kept⟩ := stored_of_written wrote (ackingCells_in_row c _ _) (ackingCells_nodup c _ _)
    seen.until
  have current := @some_iff_active _ a id holds.active
  rw [← seen.shows] at current
  have pointer : Column.readPointer ∉ (ackingCells c (q.shows st.table s) id).map (·.1) := by
    unfold ackingCells
    split <;> simp
  refine ⟨?_, by rw [kept .readPointer trivial pointer]; exact holds.readPointer⟩
  by_cases cleared : activeEntry? (q.shows st.table s (consumerRow c) .active) = some id
  · rw [wrote .active (Bytes.ofUInt64 noEntry) (by simp [ackingCells, cleared]),
      if_pos (current.1 cleared).1]
    exact storedId?_ofUInt64 noEntry
  · have same : (if a = id then noEntry else a) = a := by
      split
      · rename_i here
        exact Classical.byContradiction fun other => cleared (current.2 ⟨here, Ne.symm other⟩)
      · rfl
    rw [kept .active trivial (by simp [ackingCells, cleared]), same]
    exact holds.active

theorem holds_of_reopened
    (wrote : st.Written (q.seat c) (reopeningCells id) s.writeVersion st')
    (holds : st.table.Holds (q.seat c) a r) (newest : st.table.Until (q.seat c).row s.writeVersion) :
    st'.table.Holds (q.seat c) id r := by
  obtain ⟨wrote, kept⟩ := stored_of_written wrote (reopeningCells_in_row _) (reopeningCells_nodup _)
    newest
  refine ⟨?_, ?_⟩
  · rw [wrote .active (Bytes.ofUInt64 id) (by simp [reopeningCells])]
    exact storedId?_ofUInt64 id
  · rw [kept .readPointer trivial (by simp [reopeningCells])]
    exact holds.readPointer

end Row

theorem ack_of_calm {p : Pointer} {claim : Option ClaimState} (calm : st.plan = .none)
    (name : p.queue = q.name)
    (read : q.decodeClaim c p.id (q.shows st.table s (consumerRow c) (.claim p.id)) = .ok claim) :
    match (AckDecision.check (q.configFor c).partitioner.isDisjoint claim).refusal? with
    | none => ∃ st', q.ack p c s st = .ok () st'
    | some reason => ∃ st', q.ack p c s st = .error (.illegalAck p.id reason) st' := by
  rw [ack_eq_onClaim]
  obtain ⟨st₁, done, same⟩ := q.onClaim_of_calm c s calm name read
  rw [done]
  split
  · rename_i allowed
    rw [allowed]
    obtain ⟨_, st', wrote, _⟩ := q.answers_put_of_calm .writeConsumer (consumerRow c)
      (ackingCells c (q.shows st.table s) p.id) s.writeVersion (same.2.trans calm)
    exact ⟨st', wrote⟩
  · rename_i reason refused
    rw [refused]
    exact ⟨st₁, rfl⟩

theorem unack_of_acked {p : Pointer} (calm : st.plan = .none) (name : p.queue = q.name)
    (read : q.decodeClaim c p.id (q.shows st.table s (consumerRow c) (.claim p.id)) =
      .ok (some .acked)) : ∃ st', q.unack p c s st = .ok [.handedBackAcked] st' := by
  rw [unack_eq_onClaim]
  obtain ⟨st', done, _⟩ := q.onClaim_of_calm c s calm name read
  exact ⟨st', done⟩

theorem mirrored_ack (p : Pointer) : Mirrored (Turn.onStorage (q.ack p c s)) := by
  have made {α : Type} (r : Except QueueError α) :
      Mirrored (Turn.onStorage (MonadExcept.ofExcept r)) := by
    cases r with
    | ok a => exact .pure a
    | error e => exact .throw e
  unfold ack
  simp only [Turn.onStorage_bind]
  refine .bind (made _) fun _ => .bind (q.mirrored_view s _) fun view => .bind (made _) fun claim => ?_
  cases (AckDecision.check (q.configFor c).partitioner.isDisjoint claim).refusal? with
  | some reason => exact .throw _
  | none => exact q.mirrored_put _ _ _ _

theorem repaired_ack {p : Pointer} {st' : Storage} (done : q.ack p c s st = .ok () st') :
    ∃ st'', q.ack p c s st.repair = .ok () st'' ∧ st'.table.Alike st''.table := by
  have here : Turn.onStorage (q.ack p c s) ⟨st, .fresh⟩ = .ok () ⟨st', .fresh⟩ := by
    simp only [Turn.onStorage, done]
  have agree := (q.mirrored_ack c s p).agree (Turn.alike_repair ⟨st, .fresh⟩) rfl (.inl ⟨_, _, here⟩)
  rw [here] at agree
  obtain ⟨t, answered, same⟩ := agree.of_ok
  exact ⟨t.storage, (Turn.of_onStorage answered).1, same.1⟩

end Queue

end VersionedQueue
