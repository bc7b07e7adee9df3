import VersionedQueue.Entry.Lifecycle
import VersionedQueue.Queue.Counter

/-!
# Entries of a queue

Entries are appended, retired, and read in batches under one snapshot.  A batch read sorts ids into
those not visible yet, those retired, and those with a payload to serve.  A scan of headers stops at
the first id that is not visible, so that nobody steps over an entry that is still being written.
-/

set_option autoImplicit false
set_option relaxedAutoImplicit false

namespace VersionedQueue

/-- What a snapshot shows of an entry. -/
inductive Sighting
  /-- No state is visible. -/
  | unseen
  /-- The entry was invalidated or evicted. -/
  | retired
  /-- The entry is valid. -/
  | servable (payload : Bytes)
  deriving DecidableEq, Repr

/-- What a scan of headers found. -/
structure HeaderScan where
  /-- The visible ids in order, each with its hash if it has one. -/
  visible : List (EntryId × Option Int32) := []
  /-- The first id that is not visible; nothing after it was looked at. -/
  firstUnseen : Option EntryId := none
  deriving DecidableEq, Repr

namespace Queue

/-- Append an entry.  The partitioning is checked before an id is allocated, and the payload, the
state and the headers are written to the entry's row at one version. -/
def enqueue (q : Queue) (entry : Entry) (version : Version) : StorageM Pointer := do
  match entry.partitioning.headerCells with
  | .error rejection => throw (.headerSerialization rejection.message)
  | .ok headers =>
      let id ← q.allocateEntryId
      q.put .writeEntry (.entry id)
        ((.state, EntryState.valid.encode) :: (.payload, entry.payload) :: headers) version
      return ⟨q.name, id⟩

/-- The state that a cell of an entry's row holds. -/
def decodeState (q : Queue) (id : EntryId) (cell : Bytes) : Except QueueError EntryState :=
  match EntryState.decode? cell with
  | some state => .ok state
  | none => .error (q.corrupted (.entry id) (.unknownState cell))

def readState (q : Queue) (id : EntryId) (s : Snapshot) : StorageM (Option EntryState) := do
  let view ← q.view .readEntryState s
  match view (.entry id) .state with
  | none => return none
  | some cell => return some (← MonadExcept.ofExcept (q.decodeState id cell))

/-- Retire an entry: its state becomes invalid, and its payload is deleted.  The state is kept so
that readers skip the id, and an entry that was evicted stays so. -/
def invalidate (q : Queue) (p : Pointer) (version : Version) : StorageM Unit := do
  MonadExcept.ofExcept (q.checkPointer p)
  let current ← q.readState p.id (.upTo version)
  if current.all (·.mayBecome .invalid) then
    q.put .writeInvalidState (.entry p.id) [(.state, EntryState.invalid.encode)] version
    q.delete .deletePayload (.entry p.id) .payload version

/-- What a view shows of one entry. -/
def sight (q : Queue) (view : QueueView) (id : EntryId) : Except QueueError Sighting :=
  match view (.entry id) .state with
  | none => .ok .unseen
  | some cell =>
      match q.decodeState id cell with
      | .error e => .error e
      | .ok state =>
          if state.isServable then
            match view (.entry id) .payload with
            | some payload => .ok (.servable payload)
            | none => .error (q.corrupted (.entry id) .missingPayload)
          else .ok .retired

def readEntry (q : Queue) (id : EntryId) (s : Snapshot) : StorageM Sighting := do
  let view ← q.view .readEntries s
  MonadExcept.ofExcept (q.sight view id)

/-- Read entries in the given order, under one snapshot. -/
def readEntries (q : Queue) (ids : List EntryId) (s : Snapshot) :
    StorageM (List (EntryId × Sighting)) := do
  let view ← q.view .readEntries s
  MonadExcept.ofExcept (ids.mapM fun id => (q.sight view id).map (id, ·))

/-- The hash that an entry carries for a partitioning key. -/
def headerHash (q : Queue) (view : QueueView) (key : String) (id : EntryId) :
    Except QueueError (Option Int32) :=
  match view (.entry id) (.header key) with
  | none => .ok none
  | some cell =>
      match cell.toInt32? with
      | some hash => .ok (some hash)
      | none => .error (q.corrupted (.entry id) (.headerSize cell.length))

/-- The hashes of entries for a partitioning key, up to the first entry that a view does not show. -/
def scanHeaders (q : Queue) (view : QueueView) (key : String) :
    List EntryId → Except QueueError HeaderScan
  | [] => .ok {}
  | id :: rest =>
      match view (.entry id) .state with
      | none => .ok { firstUnseen := some id }
      | some _ =>
          match q.headerHash view key id with
          | .error e => .error e
          | .ok hash =>
              match q.scanHeaders view key rest with
              | .error e => .error e
              | .ok scan => .ok { scan with visible := (id, hash) :: scan.visible }

/-- Scan the headers of entries under one snapshot. -/
def readHeaders (q : Queue) (ids : List EntryId) (key : String) (s : Snapshot) :
    StorageM HeaderScan := do
  let view ← q.view .readHeaders s
  MonadExcept.ofExcept (q.scanHeaders view key ids)

theorem mem_of_mem_scanHeaders {q : Queue} {view : QueueView} {key : String} {id : EntryId}
    {hash : Option Int32} :
    ∀ {ids : List EntryId} {scan : HeaderScan}, q.scanHeaders view key ids = .ok scan →
      (id, hash) ∈ scan.visible → id ∈ ids
  | [], scan, found, seen => by
      cases found
      cases seen
  | first :: rest, scan, found, seen => by
      unfold scanHeaders at found
      split at found
      · cases found
        cases seen
      · split at found
        · cases found
        · split at found
          · cases found
          · rename_i tail tailFound
            cases found
            rcases List.mem_cons.1 seen with same | later
            · cases same
              exact List.mem_cons_self
            · exact List.mem_cons_of_mem _ (mem_of_mem_scanHeaders tailFound later)

end Queue

end VersionedQueue
