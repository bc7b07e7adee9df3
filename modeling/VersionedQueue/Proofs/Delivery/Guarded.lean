import VersionedQueue.Proofs.Delivery.Resumable

/-!
# Requests under guard

A request for an entry, written as its loops and with a guard on each step that could go wrong.  The
outer loop fetches ids, reads their entries, and hands out what it found; the inner one scans one window
of ids after the other.  Both have an allowance of rounds.  Windows are counted in numbers that have no
end, no number goes below zero, ids ascend, no cache is read past its end, and a round that goes on has
moved a pointer up, within the write pointer.  Where a guard does not hold, the request stops at a hazard,
which is no failure that a caller would see.
-/

set_option autoImplicit false
set_option relaxedAutoImplicit false

namespace VersionedQueue

/-- What a request is guarded against. -/
inductive Hazard
  /-- The length of a queue's name does not fit in a row key. -/
  | longName
  /-- There is no id before the one given. -/
  | underflow
  /-- A window is empty, or leaves the range of the ids. -/
  | badWindow
  /-- Ids do not ascend. -/
  | unordered
  /-- A cache is read past its end. -/
  | pastEnd
  /-- A round goes on, but has not moved a pointer up, or has moved it beyond the write pointer. -/
  | stalled
  /-- There is no end within the allowance. -/
  | endless
  deriving DecidableEq, Repr

/-- Why a guarded request has not answered. -/
inductive Stop
  | failed (e : QueueError)
  | hazard (h : Hazard)
  deriving DecidableEq, Repr

abbrev GuardedM := EStateM Stop Turn

namespace GuardedM

/-- An operation as a part of a guarded request.  It meets no hazard of its own. -/
def attempt {α : Type} (act : TurnM α) : GuardedM α := fun t =>
  match act t with
  | .ok a u => .ok a u
  | .error e u => .error (.failed e) u

instance : MonadLift TurnM GuardedM := ⟨attempt⟩

/-- Stop at a hazard unless a condition holds. -/
def guarding (condition : Prop) [Decidable condition] (hazard : Hazard) : GuardedM Unit :=
  if condition then pure () else throw (.hazard hazard)

def ascending (ids : List EntryId) : GuardedM Unit := guarding (ids.Pairwise (· < ·)) .unordered

/-- The id before an id. -/
def preceding (id : EntryId) : GuardedM EntryId := do
  guarding (0 < id) .underflow
  return id - 1

/-- The window after a cursor, unless the cursor is caught up. -/
def windowAfter (cursor : EntryId) (batchSize : UInt64) (groupSize : UInt32) (writePointer : EntryId) :
    GuardedM (Option Window) :=
  if Window.isCaughtUp cursor writePointer then return none
  else do
    let first := cursor.toNat + 1
    let last :=
      min (cursor.toNat + max batchSize.toNat 1 * max groupSize.toNat 1) writePointer.toNat
    guarding (first ≤ last ∧ last < UInt64.size) .badWindow
    return some ⟨UInt64.ofNat first, UInt64.ofNat last⟩

/-- Move the read pointer up to an id, to go on from there. -/
def passTo (id : EntryId) : GuardedM Unit := do
  let before ← Turn.cursorNow
  Turn.update (·.advance id)
  let after ← Turn.cursorNow
  guarding (before.readPointer < after.readPointer ∧ after.readPointer ≤ after.writePointer) .stalled

def takeCached : GuardedM CachedEntry := do
  let cursor ← Turn.cursorNow
  match cursor.cache.take with
  | .ok (entry, rest) =>
      Turn.update ({ · with cache := rest })
      return entry
  | .error _ => throw (.hazard .pastEnd)

section Guards

variable {α β : Type} {t : Turn}

theorem attempt_of_ok {act : TurnM α} {u : Turn} {a : α} (done : act t = .ok a u) :
    attempt act t = .ok a u := by
  rw [attempt, done]

theorem attempt_of_error {act : TurnM α} {u : Turn} {e : QueueError} (failed : act t = .error e u) :
    attempt act t = .error (.failed e) u := by
  rw [attempt, failed]

theorem attempt_congr {act act' : TurnM α} {u : Turn} (same : act t = act' u) :
    attempt act t = attempt act' u := by
  rw [attempt, same, attempt]

theorem attempt_bind_congr {act : TurnM α} {guarded : α → GuardedM β} {next : α → TurnM β}
    (each : ∀ a u, act t = .ok a u → guarded a u = attempt (next a) u) :
    (attempt act >>= guarded) t = attempt (act >>= next) t := by
  cases done : act t with
  | ok a u =>
      rw [bind_eq_of_ok (attempt_of_ok done), each a u done]
      exact attempt_congr (bind_eq_of_ok done).symm
  | error e u =>
      rw [bind_eq_of_error (attempt_of_error done), attempt_of_error (bind_eq_of_error done)]

theorem attempt_bind (act : TurnM α) (next : α → TurnM β) :
    attempt (act >>= next) = attempt act >>= fun a => attempt (next a) :=
  funext fun _ => (attempt_bind_congr fun _ _ _ => rfl).symm

theorem guarding_of {condition : Prop} [Decidable condition] (holds : condition) (hazard : Hazard) :
    guarding condition hazard = pure () := if_pos holds

theorem ascending_of {ids : List EntryId} (ascends : ids.Pairwise (· < ·)) (t : Turn) :
    ascending ids t = .ok () t := by
  rw [ascending, guarding_of ascends]
  rfl

theorem preceding_of_pos {id : EntryId} (positive : 0 < id) : preceding id = pure (id - 1) := by
  rw [preceding, guarding_of positive, pure_bind]

/-- Saturation never shows in a window: it is cut off by the write pointer before. -/
theorem windowAfter_eq (cursor : EntryId) (batchSize : UInt64) (groupSize : UInt32)
    (writePointer : EntryId) : windowAfter cursor batchSize groupSize writePointer =
      pure (Window.after cursor batchSize groupSize writePointer) := by
  unfold windowAfter
  cases window : Window.after cursor batchSize groupSize writePointer with
  | none =>
      have caughtUp : Window.isCaughtUp cursor writePointer = true :=
        decide_eq_true (Window.after_eq_none_iff.1 window)
      rw [if_pos caughtUp]
  | some w =>
      obtain ⟨behind, first, last⟩ := Window.after_spec window
      obtain ⟨_, nonempty, _⟩ := Window.after_bounds window
      rw [UInt64.le_iff_toNat_le] at nonempty
      have unbounded : w.last.toNat =
          min (cursor.toNat + max batchSize.toNat 1 * max groupSize.toNat 1) writePointer.toNat := by
        have below := writePointer.toNat_lt
        rw [last, Window.toNat_span, UInt64.size]
        omega
      have further : ¬ Window.isCaughtUp cursor writePointer = true := by
        simpa [Window.isCaughtUp] using behind
      rw [if_neg further]
      dsimp only
      rw [← first, ← unbounded, guarding_of ⟨nonempty, w.last.toNat_lt⟩, pure_bind, UInt64.ofNat_toNat,
        UInt64.ofNat_toNat]

theorem passTo_of_lt {id : EntryId} (later : t.cursor.readPointer < id)
    (within : id ≤ t.cursor.writePointer) :
    passTo id t = .ok () ⟨t.storage, t.cursor.advance id⟩ := by
  have moved : t.cursor.readPointer < (t.cursor.advance id).readPointer ∧
      (t.cursor.advance id).readPointer ≤ (t.cursor.advance id).writePointer := by
    rw [Cursor.advance_of_lt later]
    exact ⟨later, within⟩
  change guarding _ _ ⟨t.storage, t.cursor.advance id⟩ = _
  rw [guarding_of moved]
  rfl

end Guards

end GuardedM

namespace Queue

open GuardedM

/-- Scan windows until one holds ids that the consumer owns, or there are none now. -/
def guardedScan (q : Queue) (c : Consumer) (config : Config) (s : Snapshot) :
    Nat → GuardedM (List EntryId)
  | 0 => throw (.hazard .endless)
  | rounds + 1 => do
      q.look fun cursor => Window.isCaughtUp cursor.readPointer cursor.writePointer
      let cursor ← Turn.cursorNow
      match ← windowAfter cursor.readPointer config.effectiveBatchSize c.groupSize
          cursor.writePointer with
      | none => return []
      | some w =>
          ascending w.ids
          let scan ← q.readHeaders w.ids c.headerKey s
          match owned c config.partitioner scan with
          | id :: others => return id :: others
          | [] =>
              match scan.firstUnseen with
              | some id =>
                  let last ← preceding id
                  Turn.update (·.advance last)
                  return []
              | none =>
                  passTo w.last
                  q.guardedScan c config s rounds

/-- The id that a member of a shared group is to serve next, if there is one.  If it was not pending, the
pointer of the group has moved up. -/
def guardedClaim (q : Queue) (c : Consumer) : GuardedM (List EntryId) := do
  let before ← get
  match ← q.nextClaim c with
  | none => return []
  | some id =>
      let after ← get
      guarding (before.cursor.pending = some id ∨
        before.storage.table.standing (q.seat c).groupRow <
            after.storage.table.standing (q.seat c).groupRow ∧
          after.storage.table.standing (q.seat c).groupRow ≤ after.cursor.writePointer.toNat) .stalled
      return [id]

def guardedFetch (q : Queue) (c : Consumer) (config : Config) (s : Snapshot) (allowance : Nat) :
    GuardedM (List EntryId) :=
  match config.partitioner with
  | .hash => q.guardedScan c config s allowance
  | .roundRobin => q.guardedClaim c

/-- Read the entries of fetched ids, and answer whether to go on: with those that can be served, or past
ids of which none can.  A claimed id that is not visible stays pending. -/
def guardedRead (q : Queue) (config : Config) (s : Snapshot) (ids : List EntryId) : GuardedM Bool := do
  ascending ids
  let seen ← q.readEntries ids s
  match servableEntries seen with
  | entry :: others =>
      ascending ((entry :: others).map (·.id))
      Turn.update ({ · with cache := ⟨entry :: others⟩ })
      return true
  | [] =>
      match config.partitioner with
      | .hash =>
          match ids.getLast? with
          | some last =>
              passTo last
              return true
          | none => return true
      | .roundRobin =>
          let cursor ← Turn.cursorNow
          match cursor.pending with
          | none => return false
          | some id =>
              if (id, .unseen) ∈ seen then return false
              else
                Turn.update ({ · with pending := none })
                return true

/-- One round of a request whose cache is empty.  Answers whether to go on. -/
def guardedRound (q : Queue) (c : Consumer) (config : Config) (s : Snapshot) (allowance : Nat) :
    GuardedM Bool := do
  match ← q.guardedFetch c config s allowance with
  | [] => return false
  | id :: others => q.guardedRead config s (id :: others)

def guardedRounds (q : Queue) (c : Consumer) (config : Config) (s : Snapshot) (allowance : Nat) :
    Nat → GuardedM Delivery
  | 0 => throw (.hazard .endless)
  | rounds + 1 => do
      let cursor ← Turn.cursorNow
      if cursor.cache.hasNext then
        let entry ← takeCached
        q.serve c config s entry
      else if ← q.guardedRound c config s allowance then
        q.guardedRounds c config s allowance rounds
      else
        q.saveEmpty c s
        return .empty

/-- A request for an entry under guard, with an allowance of rounds for each of its loops. -/
def guardedDequeue (q : Queue) (allowance : Nat) (c : Consumer) (config : Config) (s : Snapshot) :
    GuardedM Delivery := do
  guarding ((Bytes.ofText q.name).length < UInt16.size) .longName
  attempt (MonadExcept.ofExcept config.validate)
  attempt (MonadExcept.ofExcept (c.validate config.partitioner))
  q.ensureLoaded c config s
  q.guardedRounds c config s allowance allowance

end Queue

end VersionedQueue
