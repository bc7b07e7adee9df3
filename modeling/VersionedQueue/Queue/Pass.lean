import VersionedQueue.Queue.Entries
import VersionedQueue.Queue.Turn

/-!
# Passes

A consumer that has nothing left in its cache looks for the next entries it owns in passes.  A member
of a disjoint group scans one window of ids after its cursor.  A member of a shared group claims one
id from the pointer of the group, and keeps a claimed id until its entry is visible.

A pass finds entries, or finds that there are none now, or goes on.  A disjoint pass that goes on has
moved the cursor forward (`readPointer_lt_of_disjointPass`), and a shared pass that goes on leaves
its group less to claim (`claimsLeft_lt_of_sharedPass`).
-/

set_option autoImplicit false
set_option relaxedAutoImplicit false

namespace VersionedQueue

/-- The outcome of one pass of fetching. -/
inductive Pass
  /-- There are entries to serve. -/
  | found (entries : List CachedEntry)
  /-- There is nothing to serve now. -/
  | exhausted
  /-- The ids looked at hold nothing to serve, now or later. -/
  | passed
  deriving DecidableEq, Repr

/-- The entries to serve among those that were read. -/
def servableEntries (seen : List (EntryId × Sighting)) : List CachedEntry :=
  seen.filterMap fun found =>
    match found.2 with
    | .servable payload => some ⟨found.1, payload⟩
    | _ => none

namespace Queue

/-- The ids of a scan that a consumer owns. -/
def owned (c : Consumer) (p : Partitioner) (scan : HeaderScan) : List EntryId :=
  (scan.visible.filter fun found => p.shouldEmit c.groupSize c.member found.2).map (·.1)

/-- Look at one window of ids.  If none of the visible ids is owned, the cursor may pass them all; if
those that are owned are all retired, it may pass the last of them. -/
def scanWindow (q : Queue) (c : Consumer) (config : Config) (s : Snapshot) (w : Window) :
    TurnM Pass := do
  let scan ← q.readHeaders w.ids c.headerKey s
  match (owned c config.partitioner scan).getLast? with
  | some last =>
      let seen ← q.readEntries (owned c config.partitioner scan) s
      match servableEntries seen with
      | [] =>
          Turn.update (·.advance last)
          return .passed
      | entries => return .found entries
  | none =>
      match scan.firstUnseen with
      | some id =>
          Turn.update (·.advance (id - 1))
          return .exhausted
      | none =>
          Turn.update (·.advance w.last)
          return .passed

/-- One pass of a member of a disjoint group: look at the write pointer if the cursor has caught up
with the one remembered, and then at the window after the cursor. -/
def disjointPass (q : Queue) (c : Consumer) (config : Config) (s : Snapshot) : TurnM Pass := do
  let before ← Turn.cursorNow
  q.refreshIf (Window.isCaughtUp before.readPointer before.writePointer)
  let cursor ← Turn.cursorNow
  match Window.after cursor.readPointer config.effectiveBatchSize c.groupSize
      cursor.writePointer with
  | none => return .exhausted
  | some w => q.scanWindow c config s w

/-- The id that a member of a shared group is to serve next: the one it has claimed already, or else
a new one, if one is allocated that the group has not claimed. -/
def nextClaim (q : Queue) (c : Consumer) : TurnM (Option EntryId) := do
  let cursor ← Turn.cursorNow
  match cursor.pending with
  | some id => return some id
  | none =>
      let groupPointer ← q.groupPointer c.group
      q.refreshIf (!Window.mayClaim groupPointer cursor.writePointer)
      let refreshed ← Turn.cursorNow
      if Window.mayClaim groupPointer refreshed.writePointer then
        let id ← q.claimId c.group
        Turn.update ({ · with pending := some id })
        return some id
      else
        return none

/-- One pass of a member of a shared group: claim an id and read its entry.  A retired entry is
dropped; one that is not visible stays pending. -/
def sharedPass (q : Queue) (c : Consumer) (s : Snapshot) : TurnM Pass := do
  match ← q.nextClaim c with
  | none => return .exhausted
  | some id =>
      match ← q.readEntry id s with
      | .servable payload => return .found [⟨id, payload⟩]
      | .unseen => return .exhausted
      | .retired =>
          Turn.update ({ · with pending := none })
          return .passed

/-- How far a group can still move its pointer, counted twice, and once for a pending id. -/
def claimsLeft (q : Queue) (c : Consumer) (t : Turn) : Nat :=
  2 * (Int64.maxValue.toInt - (t.storage.table.counter ((RowKey.groupPointer c.group).encode q.name)
    Column.counter.encode).toInt).toNat + (if t.cursor.pending.isSome then 1 else 0)

private theorem last_mem_window {q : Queue} {c : Consumer} {p : Partitioner} {view : QueueView}
    {key : String} {w : Window} {scan : HeaderScan} {last : EntryId}
    (found : q.scanHeaders view key w.ids = .ok scan)
    (h : (owned c p scan).getLast? = some last) : last ∈ w.ids := by
  have mem := List.mem_of_getLast? h
  simp only [owned, List.mem_map, List.mem_filter] at mem
  obtain ⟨⟨id, hash⟩, ⟨seen, _⟩, rfl⟩ := mem
  exact mem_of_mem_scanHeaders found seen

theorem cursor_of_scanWindow {q : Queue} {c : Consumer} {config : Config} {s : Snapshot}
    {w : Window} {t t' : Turn} (nonempty : w.first ≤ w.last)
    (h : q.scanWindow c config s w t = .ok .passed t') :
    ∃ id ∈ w.ids, t'.cursor = t.cursor.advance id := by
  obtain ⟨scan, t₁, scanned, h⟩ := ok_of_bind h
  obtain ⟨read, cursor⟩ := Turn.of_onStorage scanned
  obtain ⟨view, _, _, read⟩ := ok_of_bind read
  have found := (state_of_ofExcept read).1
  rw [← cursor]
  cases isLast : (owned c config.partitioner scan).getLast? with
  | some last =>
      rw [isLast] at h
      obtain ⟨seen, t₂, looked, h⟩ := ok_of_bind h
      rw [← (Turn.of_onStorage looked).2]
      cases served : servableEntries seen with
      | nil =>
          rw [served] at h
          cases h
          exact ⟨last, last_mem_window found isLast, rfl⟩
      | cons _ _ =>
          rw [served] at h
          cases h
  | none =>
      rw [isLast] at h
      cases stop : scan.firstUnseen with
      | some _ =>
          rw [stop] at h
          cases h
      | none =>
          rw [stop] at h
          cases h
          exact ⟨w.last, Window.mem_ids.2 ⟨nonempty, UInt64.le_refl _⟩, rfl⟩

theorem of_refreshIf {q : Queue} {stale : Bool} {t t' : Turn} {u : Unit}
    (h : q.refreshIf stale t = .ok u t') :
    t'.cursor = { t.cursor with writePointer := t'.cursor.writePointer } ∧
      ∀ r col, t'.storage.table.counter r col = t.storage.table.counter r col := by
  cases stale with
  | false =>
      cases h
      exact ⟨rfl, fun _ _ => rfl⟩
  | true =>
      obtain ⟨writePointer, t₁, counted, h⟩ := ok_of_bind h
      obtain ⟨counted, cursor⟩ := Turn.of_onStorage counted
      obtain ⟨value, _, counted⟩ := increment_of_count counted
      cases h
      exact ⟨by simp [cursor], TableM.counter_of_increment_zero counted⟩

/-- A disjoint pass that goes on has moved the cursor forward. -/
theorem readPointer_lt_of_disjointPass {q : Queue} {c : Consumer} {config : Config} {s : Snapshot}
    {t t' : Turn} (h : q.disjointPass c config s t = .ok .passed t') :
    t.cursor.readPointer < t'.cursor.readPointer := by
  obtain ⟨before, t₁, now, h⟩ := ok_of_bind h
  cases now
  obtain ⟨_, t₂, looked, h⟩ := ok_of_bind h
  have kept : t₂.cursor.readPointer = t.cursor.readPointer := by
    rw [(of_refreshIf looked).1]
  obtain ⟨cursor, t₃, now, h⟩ := ok_of_bind h
  cases now
  cases window : Window.after t₂.cursor.readPointer config.effectiveBatchSize c.groupSize
      t₂.cursor.writePointer with
  | none =>
      rw [window] at h
      cases h
  | some w =>
      rw [window] at h
      obtain ⟨after, nonempty, _⟩ := Window.after_bounds window
      obtain ⟨id, inside, moved⟩ := cursor_of_scanWindow nonempty h
      have later : t₂.cursor.readPointer < id :=
        UInt64.lt_of_lt_of_le after (Window.mem_ids.1 inside).1
      rw [moved, Cursor.advance_of_lt later, ← kept]
      exact later

theorem claimsLeft_of_nextClaim {q : Queue} {c : Consumer} {t t' : Turn} {id : EntryId}
    (h : q.nextClaim c t = .ok (some id) t') :
    q.claimsLeft c { t' with cursor := { t'.cursor with pending := none } } < q.claimsLeft c t := by
  obtain ⟨cursor, t₁, now, h⟩ := ok_of_bind h
  cases now
  cases held : t.cursor.pending with
  | some _ =>
      rw [held] at h
      cases h
      simp [claimsLeft, held]
  | none =>
      rw [held] at h
      obtain ⟨groupPointer, t₂, counted, h⟩ := ok_of_bind h
      obtain ⟨counted, _⟩ := Turn.of_onStorage counted
      obtain ⟨_, _, counted⟩ := increment_of_count counted
      have peeked := TableM.counter_of_increment_zero counted
      obtain ⟨_, t₃, looked, h⟩ := ok_of_bind h
      have refreshed := (of_refreshIf looked).2
      obtain ⟨_, t₄, now, h⟩ := ok_of_bind h
      cases now
      cases free : Window.mayClaim groupPointer t₃.cursor.writePointer with
      | false =>
          rw [free] at h
          cases h
      | true =>
          rw [free] at h
          obtain ⟨claimed, t₅, taken, h⟩ := ok_of_bind h
          obtain ⟨value, _, added⟩ := increment_of_count (Turn.of_onStorage taken).1
          cases h
          obtain ⟨sum, counters⟩ := TableM.counter_of_increment added
          have next := Table.toInt_of_checkedAdd sum
          rw [refreshed, peeked] at next
          have below := value.toInt_lt
          have one : (1 : Int64).toInt = 1 := rfl
          simp [claimsLeft, counters, held, Int64.toInt_maxValue]
          omega

theorem of_readEntry {q : Queue} {id : EntryId} {s : Snapshot} {t t' : Turn} {seen : Sighting}
    (h : Turn.onStorage (q.readEntry id s) t = .ok seen t') :
    t'.cursor = t.cursor ∧ t'.storage.table = t.storage.table := by
  obtain ⟨read, cursor⟩ := Turn.of_onStorage h
  obtain ⟨view, storage, viewed, read⟩ := ok_of_bind read
  obtain ⟨cells, storage', called, kept⟩ := ok_of_bind viewed
  cases kept
  have same := (EStateM.Result.ok.inj (Storage.table_of_call called)).2
  exact ⟨cursor, by rw [(state_of_ofExcept read).2, ← same]⟩

/-- A shared pass that goes on leaves less to claim. -/
theorem claimsLeft_lt_of_sharedPass {q : Queue} {c : Consumer} {s : Snapshot} {t t' : Turn}
    (h : q.sharedPass c s t = .ok .passed t') : q.claimsLeft c t' < q.claimsLeft c t := by
  obtain ⟨claim, t₁, claimed, h⟩ := ok_of_bind h
  cases claim with
  | none => cases h
  | some id =>
      obtain ⟨seen, t₂, read, h⟩ := ok_of_bind h
      obtain ⟨cursor, table⟩ := of_readEntry read
      cases seen with
      | servable _ => cases h
      | unseen => cases h
      | retired =>
          cases h
          have less := claimsLeft_of_nextClaim claimed
          simpa [claimsLeft, cursor, table] using less

end Queue

end VersionedQueue
