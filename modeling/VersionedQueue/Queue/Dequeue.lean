import VersionedQueue.Consumer.Claim
import VersionedQueue.Queue.Fetch

/-!
# Handing out entries

A request loads the consumer's cursor if it was never loaded, fetches entries if none is left in the
cache, and hands out the next one.  The entry handed out is stored as active, so that it is handed
out again when the cursor is lost before the entry is acknowledged.  Every request that succeeds
stores the read pointer.
-/

set_option autoImplicit false
set_option relaxedAutoImplicit false

namespace VersionedQueue

namespace Queue

/-- The id that a cell of a consumer's row holds; an absent cell holds zero. -/
def decodeId (q : Queue) (c : Consumer) (cell : Option Bytes) : Except QueueError EntryId :=
  match cell with
  | none => .ok noEntry
  | some cell =>
      match cell.toUInt64? with
      | some id => .ok id
      | none => .error (q.corrupted (consumerRow c) (.idSize cell.length))

/-- What becomes of an active entry that was found in the stored row.  A valid entry is served again,
and one that a shared group's member has claimed but cannot see yet stays pending.  Any other is
cleared in the stored row. -/
def resume (q : Queue) (c : Consumer) (config : Config) (s : Snapshot) (active : EntryId) :
    TurnM Unit := do
  match ← q.readEntry active s with
  | .servable payload =>
      Turn.update ({ · with active := some active, cache := ⟨[⟨active, payload⟩]⟩ })
  | seen =>
      if seen = .unseen ∧ !config.partitioner.isDisjoint then
        Turn.update ({ · with pending := some active })
      else
        q.put .clearActive (consumerRow c) [(.active, Bytes.ofUInt64 noEntry)] s.writeVersion

/-- Rebuild the cursor from the consumer's stored row.  The cursor is replaced once the row was read,
and counts as loaded from then on. -/
def load (q : Queue) (c : Consumer) (config : Config) (s : Snapshot) : TurnM Unit := do
  let view ← q.view .readConsumer s
  let active ← MonadExcept.ofExcept (q.decodeId c (view (consumerRow c) .active))
  let readPointer ← MonadExcept.ofExcept (q.decodeId c (view (consumerRow c) .readPointer))
  Turn.update fun _ => { loaded := true, readPointer }
  q.refresh
  if active = noEntry then pure () else q.resume c config s active

/-- Hand out an entry: make it active, move the cursor to it, and store both.  A member of a shared
group stores its claim on the entry as well. -/
def serve (q : Queue) (c : Consumer) (config : Config) (s : Snapshot) (entry : CachedEntry) :
    TurnM Delivery := do
  Turn.update fun cursor =>
    { cursor.advance entry.id with
      active := some entry.id
      pending := if cursor.pending = some entry.id then none else cursor.pending }
  let cursor ← Turn.cursorNow
  let claim :=
    if config.partitioner.isDisjoint then [] else [(.claim entry.id, ClaimState.claimed.encode)]
  q.writeConsumer c
    ((.readPointer, Bytes.ofUInt64 cursor.readPointer) ::
      (.active, Bytes.ofUInt64 entry.id) :: claim) s
  return .served ⟨q.name, entry.id⟩ ⟨entry.payload, {}⟩

/-- Store the cursor when there is nothing to hand out.  The stored active entry is left alone, since
it may have been acknowledged meanwhile; but a pending id is stored as the active one, so that a
cursor that is loaded later takes it up again. -/
def saveEmpty (q : Queue) (c : Consumer) (s : Snapshot) : TurnM Unit := do
  let cursor ← Turn.cursorNow
  let pending :=
    match cursor.pending with
    | none => []
    | some id =>
        [(.active, Bytes.ofUInt64 id), (.claim id, ClaimState.claimed.encode)]
  q.writeConsumer c ((.readPointer, Bytes.ofUInt64 cursor.readPointer) :: pending) s

def refill (q : Queue) (c : Consumer) (config : Config) (s : Snapshot) : TurnM Unit := do
  let cursor ← Turn.cursorNow
  if cursor.cache.hasNext then pure () else q.fetch c config s

/-- Hand out the next entry of the cache, or store that there is none. -/
def handOut (q : Queue) (c : Consumer) (config : Config) (s : Snapshot) : TurnM Delivery := do
  let cursor ← Turn.cursorNow
  match cursor.cache.next? with
  | some (entry, rest) =>
      Turn.update ({ · with cache := rest })
      q.serve c config s entry
  | none =>
      q.saveEmpty c s
      return .empty

def ensureLoaded (q : Queue) (c : Consumer) (config : Config) (s : Snapshot) : TurnM Unit := do
  let cursor ← Turn.cursorNow
  if cursor.loaded then pure () else q.load c config s

/-- Hand the next entry that a consumer owns to it.  The configuration and the consumer are checked
first. -/
def dequeue (q : Queue) (c : Consumer) (config : Config) (s : Snapshot) : TurnM Delivery := do
  MonadExcept.ofExcept config.validate
  MonadExcept.ofExcept (c.validate config.partitioner)
  q.ensureLoaded c config s
  q.refill c config s
  q.handOut c config s

/-- Hand out the next entry under the consumer's own configuration, or else that of the queue. -/
def dequeueAsConfigured (q : Queue) (c : Consumer) (s : Snapshot) : TurnM Delivery :=
  q.dequeue c (q.configFor c) s

end Queue

/-- A queue as one process has opened it, with the number of entries it has handed out. -/
structure Manager where
  queue : Queue
  delivered : Nat := 0
  deriving DecidableEq, Repr

namespace Manager

/-- A manager after a request: an entry that was handed out counts. -/
def after {σ : Type} (m : Manager) : EStateM.Result QueueError σ Delivery → Manager
  | .ok (.served _ _) _ => { m with delivered := m.delivered + 1 }
  | _ => m

end Manager

end VersionedQueue
