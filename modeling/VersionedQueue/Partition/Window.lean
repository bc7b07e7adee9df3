import VersionedQueue.Ident
import VersionedQueue.Saturating

/-!
# Fetch windows

A consumer that shares no pointer with its group reads the ids after its cursor in windows, each as
long as the batches of all members together, and never past the write pointer.
-/

set_option autoImplicit false
set_option relaxedAutoImplicit false

namespace VersionedQueue

/-- An inclusive range of entry ids. -/
structure Window where
  first : EntryId
  last : EntryId
  deriving DecidableEq, Repr

namespace Window

/-- The batch size that a window is computed with: zero counts as one. -/
def effectiveBatchSize (configured : UInt32) : UInt64 :=
  if configured = 0 then 1 else configured.toUInt64

/-- Whether a cursor has nothing left to read. -/
def isCaughtUp (cursor writePointer : EntryId) : Bool := writePointer ≤ cursor

/-- The number of ids in a window that is not cut off by the write pointer. -/
def span (batchSize : UInt64) (groupSize : UInt32) : UInt64 :=
  Saturating.mul (if batchSize = 0 then 1 else batchSize)
    (if groupSize = 0 then 1 else groupSize.toUInt64)

/-- The window after a cursor, unless the cursor is caught up. -/
def after (cursor : EntryId) (batchSize : UInt64) (groupSize : UInt32) (writePointer : EntryId) :
    Option Window :=
  if isCaughtUp cursor writePointer then none
  else
    let reach := Saturating.add cursor (span batchSize groupSize)
    some ⟨Saturating.add cursor 1, if reach ≤ writePointer then reach else writePointer⟩

def ids (w : Window) : List EntryId :=
  (List.range' w.first.toNat (w.last.toNat + 1 - w.first.toNat)).map UInt64.ofNat

/-- Whether a member of a group may take the next id from the group's shared pointer: only ids up to
the write pointer are allocated. -/
def mayClaim (groupPointer writePointer : EntryId) : Bool := groupPointer < writePointer

@[simp] theorem length_ids (w : Window) : w.ids.length = w.last.toNat + 1 - w.first.toNat := by
  simp [ids]

section After

variable {cursor writePointer : EntryId} {batchSize : UInt64} {groupSize : UInt32} {w : Window}

private theorem toNat_orOne (n : UInt64) :
    (if n = 0 then (1 : UInt64) else n).toNat = max n.toNat 1 := by
  split
  · rename_i zero
    rw [zero]
    rfl
  · rename_i some
    have positive : n.toNat ≠ 0 := fun zero => some (UInt64.toNat_inj.1 zero)
    omega

private theorem toNat_orOne_toUInt64 (n : UInt32) :
    (if n = 0 then (1 : UInt64) else n.toUInt64).toNat = max n.toNat 1 := by
  split
  · rename_i zero
    rw [zero]
    rfl
  · rename_i some
    have positive : n.toNat ≠ 0 := fun zero => some (UInt32.toNat_inj.1 zero)
    rw [UInt32.toNat_toUInt64]
    omega

theorem toNat_span (batchSize : UInt64) (groupSize : UInt32) : (span batchSize groupSize).toNat =
    min (max batchSize.toNat 1 * max groupSize.toNat 1) (UInt64.size - 1) := by
  rw [span, Saturating.toNat_mul, toNat_orOne, toNat_orOne_toUInt64]

theorem span_pos (batchSize : UInt64) (groupSize : UInt32) :
    0 < (span batchSize groupSize).toNat := by
  have product : 0 < max batchSize.toNat 1 * max groupSize.toNat 1 :=
    Nat.mul_pos (by omega) (by omega)
  rw [toNat_span, UInt64.size]
  omega

theorem after_eq_none_iff :
    after cursor batchSize groupSize writePointer = none ↔ writePointer ≤ cursor := by
  simp [after, isCaughtUp]

/-- The window after a cursor begins with the next id, and ends a span behind the cursor or at the write
pointer.  A sum that saturates never shows, since the write pointer comes before it. -/
theorem after_spec (h : after cursor batchSize groupSize writePointer = some w) :
    cursor < writePointer ∧ w.first.toNat = cursor.toNat + 1 ∧
      w.last.toNat = min (cursor.toNat + (span batchSize groupSize).toNat) writePointer.toNat := by
  have behind : cursor < writePointer := by
    have some : after cursor batchSize groupSize writePointer ≠ none := by
      rw [h]
      nofun
    exact UInt64.not_le.1 fun caughtUp => some (after_eq_none_iff.2 caughtUp)
  refine ⟨behind, ?_⟩
  unfold after at h
  split at h
  · cases h
  · cases h
    have below := writePointer.toNat_lt
    have one : (1 : UInt64).toNat = 1 := rfl
    have reach := Saturating.toNat_add cursor (span batchSize groupSize)
    rw [UInt64.size] at reach
    rw [UInt64.lt_iff_toNat_lt] at behind
    rw [Saturating.toNat_add, UInt64.size]
    simp only [UInt64.le_iff_toNat_le]
    refine ⟨by omega, ?_⟩
    split <;> omega

theorem first_of_after (h : after cursor batchSize groupSize writePointer = some w) :
    w.first.toNat = cursor.toNat + 1 := (after_spec h).2.1

theorem after_bounds (h : after cursor batchSize groupSize writePointer = some w) :
    cursor < w.first ∧ w.first ≤ w.last ∧ w.last ≤ writePointer := by
  obtain ⟨behind, first, last⟩ := after_spec h
  have positive := span_pos batchSize groupSize
  simp only [UInt64.lt_iff_toNat_lt, UInt64.le_iff_toNat_le] at behind ⊢
  omega

end After

theorem mem_ids {w : Window} {id : EntryId} : id ∈ w.ids ↔ w.first ≤ id ∧ id ≤ w.last := by
  simp only [ids, List.mem_map, List.mem_range'_1, UInt64.le_iff_toNat_le]
  constructor
  · rintro ⟨n, bounds, rfl⟩
    have top := w.last.toNat_lt
    have small : n < 2 ^ 64 := by omega
    have round : (UInt64.ofNat n).toNat = n := by
      rw [UInt64.toNat_ofNat']
      exact Nat.mod_eq_of_lt small
    omega
  · rintro bounds
    exact ⟨id.toNat, by omega, UInt64.ofNat_toNat⟩

end Window

end VersionedQueue
