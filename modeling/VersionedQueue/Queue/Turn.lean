import VersionedQueue.Consumer.Cursor
import VersionedQueue.Queue.Counter

/-!
# Turns

A turn is one request of a consumer: it works on the storage and on the consumer's cursor, and what
it changed in both stays changed when it fails.
-/

set_option autoImplicit false
set_option relaxedAutoImplicit false

namespace VersionedQueue

/-- What a consumer's request works on. -/
structure Turn where
  storage : Storage
  cursor : Cursor

/-- A consumer's request: it answers or fails, and leaves storage and cursor behind either way. -/
abbrev TurnM := EStateM QueueError Turn

namespace Turn

/-- An operation on the storage alone. -/
def onStorage {α : Type} (act : StorageM α) : TurnM α := fun t =>
  match act t.storage with
  | .ok a storage => .ok a { t with storage }
  | .error e storage => .error e { t with storage }

instance : MonadLift StorageM TurnM := ⟨onStorage⟩

def cursorNow : TurnM Cursor := fun t => .ok t.cursor t

def update (f : Cursor → Cursor) : TurnM Unit := fun t => .ok () { t with cursor := f t.cursor }

/-- Run a turn with a cursor that is forgotten afterwards. -/
def scratch {α : Type} (act : TurnM α) : StorageM α := fun storage =>
  match act ⟨storage, .fresh⟩ with
  | .ok a t => .ok a t.storage
  | .error e t => .error e t.storage

theorem of_onStorage {α : Type} {act : StorageM α} {t t' : Turn} {a : α}
    (h : onStorage act t = .ok a t') :
    act t.storage = .ok a t'.storage ∧ t'.cursor = t.cursor := by
  unfold onStorage at h
  split at h
  · rename_i done
    cases h
    exact ⟨done, rfl⟩
  · cases h

end Turn

/-- Look at the write pointer, and remember it in the cursor. -/
def Queue.refresh (q : Queue) : TurnM Unit := do
  let writePointer ← q.writePointer
  Turn.update ({ · with writePointer })

/-- Look at the write pointer if the one remembered no longer serves. -/
def Queue.refreshIf (q : Queue) (stale : Bool) : TurnM Unit :=
  if stale then q.refresh else pure ()

end VersionedQueue
