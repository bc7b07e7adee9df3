import VersionedQueue.Queue.Dequeue

/-!
# Acknowledging and handing back

A consumer acknowledges an entry when it is done with it, or hands it back to be served again.  An
entry that was acknowledged cannot be handed back.
-/

set_option autoImplicit false
set_option relaxedAutoImplicit false

namespace VersionedQueue.Queue

/-- The claim that a cell of a consumer's row holds. -/
def decodeClaim (q : Queue) (c : Consumer) (id : EntryId) (cell : Option Bytes) :
    Except QueueError (Option ClaimState) :=
  match cell with
  | none => .ok none
  | some cell =>
      match ClaimState.decode? cell with
      | some state => .ok (some state)
      | none => .error (q.corrupted (consumerRow c) (.unknownClaim cell id))

/-- The active entry that a cell holds, if the cell holds one. -/
def activeEntry? (cell : Option Bytes) : Option EntryId :=
  (cell.bind Bytes.toUInt64?).filter (· != noEntry)

/-- Acknowledge an entry.  A member of a shared group must hold an open claim on it; in a disjoint
group claims are not checked.  If the entry is the stored active one, there is none afterwards. -/
def ack (q : Queue) (p : Pointer) (c : Consumer) (s : Snapshot) : StorageM Unit := do
  MonadExcept.ofExcept (q.checkPointer p)
  let view ← q.view .readClaim s
  let claim ← MonadExcept.ofExcept (q.decodeClaim c p.id (view (consumerRow c) (.claim p.id)))
  match (AckDecision.check (q.configFor c).partitioner.isDisjoint claim).refusal? with
  | some reason => throw (.illegalAck p.id reason)
  | none =>
      let cleared :=
        if activeEntry? (view (consumerRow c) .active) = some p.id then
          [(.active, Bytes.ofUInt64 noEntry)]
        else []
      q.writeConsumer c ((.claim p.id, ClaimState.acked.encode) :: cleared) s

/-- Hand an entry back: its claim is open again, and it is the active entry, so that a cursor that
is loaded later serves it.  An acknowledged entry stays so, which is remarked on. -/
def unack (q : Queue) (p : Pointer) (c : Consumer) (s : Snapshot) : StorageM (List Warning) := do
  MonadExcept.ofExcept (q.checkPointer p)
  let view ← q.view .readClaim s
  let claim ← MonadExcept.ofExcept (q.decodeClaim c p.id (view (consumerRow c) (.claim p.id)))
  if claim = some .acked then
    return [.handedBackAcked]
  else
    q.writeConsumer c
      [(.claim p.id, ClaimState.claimed.encode), (.active, Bytes.ofUInt64 p.id)] s
    return []

end VersionedQueue.Queue
