import VersionedQueue.Partition.Window
import Mathlib.Data.List.Chain

/-!
# The windows of a walk

A cursor that is moved to the end of the window after it, as long as there is one, walks up to the write
pointer.  The windows on its way tile the ids behind it: each begins where the one before has ended, none
is empty or longer than a span, and every id up to the write pointer lies in exactly one of them.  Only the
last window can be cut short, which gives the number of windows in a walk.
-/

set_option autoImplicit false
set_option relaxedAutoImplicit false

namespace VersionedQueue.Window

/-- The windows that a cursor is moved through, each to its end, until there is none after it. -/
inductive Walk (batchSize : UInt64) (groupSize : UInt32) (writePointer : EntryId) :
    EntryId → List Window → Prop
  | caughtUp {cursor : EntryId} : after cursor batchSize groupSize writePointer = none →
      Walk batchSize groupSize writePointer cursor []
  | next {cursor : EntryId} {w : Window} {rest : List Window} :
      after cursor batchSize groupSize writePointer = some w →
      Walk batchSize groupSize writePointer w.last rest →
      Walk batchSize groupSize writePointer cursor (w :: rest)

/-- Windows hold the ids behind a cursor up to a write pointer, each id once, and none of them holds more
ids than it may. -/
structure Tiles (cursor writePointer : EntryId) (longest : Nat) (ws : List Window) : Prop where
  begins : ∀ w ∈ ws.head?, w.first.toNat = cursor.toNat + 1
  consecutive : ws.IsChain fun w next => next.first.toNat = w.last.toNat + 1
  nonempty : ∀ w ∈ ws, w.first ≤ w.last
  disjoint : ws.Pairwise fun w later => w.ids.Disjoint later.ids
  covers : ∀ id, (∃ w ∈ ws, id ∈ w.ids) ↔ cursor < id ∧ id ≤ writePointer
  bounded : ∀ w ∈ ws, w.ids.length ≤ longest

variable {batchSize : UInt64} {groupSize : UInt32} {cursor writePointer : EntryId} {w : Window}
  {ws rest : List Window}

theorem mem_ids_of_after (h : after cursor batchSize groupSize writePointer = some w) {id : EntryId} :
    id ∈ w.ids ↔ cursor < id ∧ id ≤ w.last := by
  have first := first_of_after h
  rw [mem_ids, UInt64.le_iff_toNat_le, UInt64.lt_iff_toNat_lt, first, Nat.succ_le_iff]

theorem length_ids_of_after (h : after cursor batchSize groupSize writePointer = some w) :
    w.ids.length ≤ (span batchSize groupSize).toNat := by
  obtain ⟨_, first, last⟩ := after_spec h
  rw [length_ids]
  omega

theorem Tiles.nil {longest : Nat} (caughtUp : writePointer ≤ cursor) :
    Tiles cursor writePointer longest [] where
  begins := nofun
  consecutive := .nil
  nonempty := nofun
  disjoint := .nil
  covers id := by
    constructor
    · rintro ⟨w, ⟨⟩, _⟩
    · rintro ⟨beyond, within⟩
      exact absurd (UInt64.le_trans within caughtUp) (UInt64.not_le.2 beyond)
  bounded := nofun

theorem Tiles.cons (h : after cursor batchSize groupSize writePointer = some w)
    (tiles : Tiles w.last writePointer (span batchSize groupSize).toNat rest) :
    Tiles cursor writePointer (span batchSize groupSize).toNat (w :: rest) := by
  obtain ⟨above, nonempty, below⟩ := after_bounds h
  constructor
  case begins =>
    rintro _ ⟨⟩
    exact first_of_after h
  case consecutive => exact List.isChain_cons.2 ⟨tiles.begins, tiles.consecutive⟩
  case nonempty => exact List.forall_mem_cons.2 ⟨nonempty, tiles.nonempty⟩
  case disjoint =>
    refine List.pairwise_cons.2 ⟨?_, tiles.disjoint⟩
    intro later mem id here there
    have beyond := ((tiles.covers id).1 ⟨later, mem, there⟩).1
    exact absurd (mem_ids.1 here).2 (UInt64.not_le.2 beyond)
  case covers =>
    intro id
    rw [List.exists_mem_cons_iff, tiles.covers, mem_ids_of_after h]
    constructor
    · rintro (⟨beyond, inside⟩ | ⟨beyond, inside⟩)
      · exact ⟨beyond, UInt64.le_trans inside below⟩
      · exact ⟨UInt64.lt_trans (UInt64.lt_of_lt_of_le above nonempty) beyond, inside⟩
    · rintro ⟨beyond, inside⟩
      by_cases early : id ≤ w.last
      · exact .inl ⟨beyond, early⟩
      · exact .inr ⟨UInt64.not_le.1 early, inside⟩
  case bounded => exact List.forall_mem_cons.2 ⟨length_ids_of_after h, tiles.bounded⟩

/-- There is a walk from every cursor: each window takes the cursor closer to the write pointer. -/
theorem exists_walk (batchSize : UInt64) (groupSize : UInt32) (writePointer cursor : EntryId) :
    ∃ ws, Walk batchSize groupSize writePointer cursor ws := by
  induction left : writePointer.toNat - cursor.toNat using Nat.strongRecOn generalizing cursor with
  | ind n ih =>
      cases window : after cursor batchSize groupSize writePointer with
      | none => exact ⟨[], .caughtUp window⟩
      | some w =>
          obtain ⟨behind, _, last⟩ := after_spec window
          have positive := span_pos batchSize groupSize
          rw [UInt64.lt_iff_toNat_lt] at behind
          obtain ⟨rest, walk⟩ := ih (writePointer.toNat - w.last.toNat) (by omega) w.last rfl
          exact ⟨w :: rest, .next window walk⟩

namespace Walk

theorem unique (walk : Walk batchSize groupSize writePointer cursor ws)
    (other : Walk batchSize groupSize writePointer cursor rest) : ws = rest := by
  induction walk generalizing rest with
  | caughtUp none =>
      cases other with
      | caughtUp _ => rfl
      | next window _ => cases none.symm.trans window
  | next window _ ih =>
      cases other with
      | caughtUp none => cases none.symm.trans window
      | next window' walk =>
          cases window.symm.trans window'
          rw [ih walk]

/-- The windows of a walk tile the ids behind its cursor, by induction on the walk. -/
theorem tiles (walk : Walk batchSize groupSize writePointer cursor ws) :
    Tiles cursor writePointer (span batchSize groupSize).toNat ws := by
  induction walk with
  | caughtUp none => exact .nil (after_eq_none_iff.1 none)
  | next window _ ih => exact .cons window ih

theorem length_eq (walk : Walk batchSize groupSize writePointer cursor ws) :
    ws.length = (writePointer.toNat - cursor.toNat + ((span batchSize groupSize).toNat - 1)) /
      (span batchSize groupSize).toNat := by
  have positive := span_pos batchSize groupSize
  induction walk with
  | caughtUp none =>
      have caughtUp := UInt64.le_iff_toNat_le.1 (after_eq_none_iff.1 none)
      rw [Nat.sub_eq_zero_of_le caughtUp, Nat.zero_add, Nat.div_eq_of_lt (by omega), List.length_nil]
  | @next cursor w rest window _ ih =>
      obtain ⟨behind, _, last⟩ := after_spec window
      rw [UInt64.lt_iff_toNat_lt] at behind
      -- What is left behind the first window is a span less, or nothing.
      rw [List.length_cons, ih, Nat.div_eq_sub_div positive (a := writePointer.toNat - cursor.toNat + _)
        (by omega)]
      by_cases whole : cursor.toNat + (span batchSize groupSize).toNat ≤ writePointer.toNat
      · rw [last, Nat.min_eq_left whole]
        congr 2
        omega
      · rw [last, Nat.min_eq_right (by omega), Nat.div_eq_of_lt (by omega), Nat.div_eq_of_lt (by omega)]

end Walk

/-- From every cursor, with every batch size, group size and write pointer, the walk comes to an end, and
there is no other.  Its windows tile the ids behind the cursor up to the write pointer, and none of them
holds more ids than the two sizes, each counted as one if it is zero, give as their product, or than fit in a
word. -/
theorem windows_tile_ids (cursor writePointer : EntryId) (batchSize : UInt64) (groupSize : UInt32) :
    ∃ ws, Walk batchSize groupSize writePointer cursor ws ∧
      (∀ other, Walk batchSize groupSize writePointer cursor other → other = ws) ∧
      Tiles cursor writePointer
        (min (max batchSize.toNat 1 * max groupSize.toNat 1) (UInt64.size - 1)) ws := by
  obtain ⟨ws, walk⟩ := exists_walk batchSize groupSize writePointer cursor
  refine ⟨ws, walk, fun other walk' => walk'.unique walk, ?_⟩
  rw [← toNat_span]
  exact walk.tiles

/-- The last window before the end of all ids is cut short, where its span would reach beyond them. -/
example : Walk 2 1 Saturating.top (Saturating.top - 3)
    [⟨Saturating.top - 2, Saturating.top - 1⟩, ⟨Saturating.top, Saturating.top⟩] :=
  .next (by decide) (.next (by decide) (.caughtUp (by decide)))

end VersionedQueue.Window
