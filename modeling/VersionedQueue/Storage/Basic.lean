import VersionedQueue.Error
import VersionedQueue.Storage.Fault
import VersionedQueue.Table.Basic

/-!
# Storage

The queue's access to its table.  Each call is counted, may be made to fail before it reaches the
table, and is reported with the purpose it was made for.  What earlier calls wrote stays written
where a later one fails.
-/

set_option autoImplicit false
set_option relaxedAutoImplicit false

namespace VersionedQueue

/-- A table with the calls made to it and the plan of their failures. -/
structure Storage where
  table : Table := {}
  plan : FaultPlan := .none
  calls : Tally := {}

/-- An operation on storage: it answers or fails, and leaves storage behind either way. -/
abbrev StorageM := EStateM QueueError Storage

/-- What a table call is made for. -/
inductive Purpose
  | allocateEntryId
  | readWritePointer
  | allocateGroupId
  | readGroupPointer
  | claimGroupPointer
  | writeEntry
  | readEntryState
  | writeInvalidState
  | deletePayload
  | readEntries
  | readHeaders
  | readConsumer
  | clearActive
  | writeConsumer
  | readClaim
  deriving DecidableEq, Repr

def Purpose.text : Purpose → String
  | allocateEntryId => "allocate entry id"
  | readWritePointer => "read write pointer"
  | allocateGroupId => "allocate group id"
  | readGroupPointer => "read group pointer"
  | claimGroupPointer => "claim group pointer"
  | writeEntry => "write entry"
  | readEntryState => "read entry meta"
  | writeInvalidState => "write invalid meta"
  | deletePayload => "delete entry data"
  | readEntries => "read entries"
  | readHeaders => "read partition headers"
  | readConsumer => "read consumer state"
  | clearActive => "clear active entry"
  | writeConsumer => "write consumer state"
  | readClaim => "read entry claim"

namespace Storage

/-- Let all later calls of one kind fail, but for the next `skip` of them. -/
def failAfter (s : Storage) (kind : Access) (skip : Nat) : Storage :=
  { s with plan := .startingAt kind (s.calls.count kind + skip) }

/-- Let no later call fail. -/
def repair (s : Storage) : Storage := { s with plan := .none }

/-- Make one call to the table. -/
def call {α : Type} (purpose : Purpose) (kind : Access) (act : TableM α) : StorageM α := fun s =>
  let counted := { s with calls := s.calls.add kind }
  if s.plan kind (s.calls.count kind) then
    .error (.internal purpose.text (.failed kind.name "injected")) counted
  else
    match act s.table with
    | .ok answer table => .ok answer { counted with table }
    | .error e table => .error (.internal purpose.text e) { counted with table }

/-- Read cells under one snapshot: the answer gives the value of each cell by row and column. -/
def view (purpose : Purpose) (snapshot : Snapshot) : StorageM (Bytes → Bytes → Option Bytes) :=
  call purpose .get (TableM.view snapshot)

def put (purpose : Purpose) (row : Bytes) (cells : List (Bytes × Bytes)) (version : Version) :
    StorageM Unit :=
  call purpose .put (TableM.put row cells version)

def delete (purpose : Purpose) (row column : Bytes) (version : Version) : StorageM Unit :=
  call purpose .delete (TableM.delete row column version)

def increment (purpose : Purpose) (row column : Bytes) (delta : Int64) : StorageM Int64 :=
  call purpose .increment (TableM.increment row column delta)

/-- A call that answers has done to the table what it was made for. -/
theorem table_of_call {α : Type} {purpose : Purpose} {kind : Access} {act : TableM α}
    {s s' : Storage} {a : α} (h : call purpose kind act s = .ok a s') :
    act s.table = .ok a s'.table := by
  simp only [call] at h
  split at h
  · cases h
  · split at h
    · rename_i done
      cases h
      exact done
    · cases h

end Storage

theorem ok_of_bind {ε σ α β : Type} {act : EStateM ε σ α} {next : α → EStateM ε σ β} {s s' : σ}
    {b : β} (h : (act >>= next) s = .ok b s') : ∃ a t, act s = .ok a t ∧ next a t = .ok b s' := by
  change EStateM.bind act next s = .ok b s' at h
  unfold EStateM.bind at h
  split at h
  · rename_i a t done
    exact ⟨a, t, done, h⟩
  · cases h

theorem state_of_ofExcept {ε σ α : Type} {r : Except ε α} {s s' : σ} {a : α}
    (h : (MonadExcept.ofExcept r : EStateM ε σ α) s = .ok a s') : r = .ok a ∧ s' = s := by
  cases r with
  | error e => cases h
  | ok b =>
      cases h
      exact ⟨rfl, rfl⟩

end VersionedQueue
