import VersionedQueue.Proofs.Run.Footprint

/-!
# Runs on the queues of one table

The queues of a table are kept apart by their names.  A call to one queue leaves the rows of every other
queue as they were.  The ids that calls take from the counter of a queue's entries are all different,
whether or not an entry is then written under them.
-/

set_option autoImplicit false
set_option relaxedAutoImplicit false

namespace VersionedQueue

/-- The queue can be opened: its name and its configuration are accepted. -/
def Queue.Opens (q : Queue) : Prop := Queue.create q.name q.config = .ok q

/-- The length of the name fits in the two bytes that a row key has for it. -/
def ShortName (queue : String) : Prop := (Bytes.ofText queue).length < UInt16.size

/-- All calls go to queues that can be opened; any of them may fail. -/
def Opened (_past : List Event) (call : Call) : Prop := call.queue.Opens

theorem Queue.Opens.shortName {q : Queue} (h : q.Opens) : ShortName q.name := by
  have size : (Bytes.ofText q.name).length = q.name.utf8ByteSize := rfl
  unfold Opens create at h
  by_cases empty : q.name.isEmpty = true
  · simp only [empty, if_true] at h
    cases h
  · by_cases long : Limits.maxQueueNameSize < q.name.utf8ByteSize
    · simp only [empty, long, if_true] at h
      cases h
    · have within : q.name.utf8ByteSize ≤ 1024 := Nat.not_lt.1 long
      rw [ShortName, size]
      exact Nat.lt_of_le_of_lt within (by decide)

namespace Event

variable {e : Event} {queue : String} {key : RowKey}

theorem not_touches_of_opens (opens : e.call.queue.Opens) (short : ShortName queue)
    (out : e.call.queue.name = queue → ¬ e.call.request.Touches key) :
    ¬ e.call.Touches (key.encode queue) := by
  rintro ⟨other, touches, same⟩
  obtain ⟨name, rfl⟩ := RowKey.encode_injective_of_short opens.shortName short same
  exact out name touches

theorem history_kept (opens : e.call.queue.Opens) (short : ShortName queue)
    (out : e.call.queue.name = queue → ¬ e.call.request.Touches key) (column : Bytes) :
    e.after.table.history (key.encode queue) column =
      e.before.table.history (key.encode queue) column :=
  e.touched.history _ (not_touches_of_opens opens short out) column

/-- The id that an event took from the counter of a queue's entries, whether or not it then wrote an
entry. -/
def allocates? (e : Event) (queue : String) : Option EntryId :=
  if e.before.table.standing (RowKey.entryCounter.encode queue) <
      e.after.table.standing (RowKey.entryCounter.encode queue) then
    some (UInt64.ofNat (e.after.table.standing (RowKey.entryCounter.encode queue)).toNat)
  else none

theorem allocates?_eq_some {id : EntryId}
    (counted : 0 ≤ e.before.table.standing (RowKey.entryCounter.encode queue)) :
    e.allocates? queue = some id ↔
      e.before.table.standing (RowKey.entryCounter.encode queue) < id.toNat ∧
        e.after.table.standing (RowKey.entryCounter.encode queue) = id.toNat := by
  have top : e.after.table.standing (RowKey.entryCounter.encode queue) < 2 ^ 63 := Int64.toInt_lt _
  unfold allocates?
  split
  · rename_i moved
    have number : ((UInt64.ofNat
        (e.after.table.standing (RowKey.entryCounter.encode queue)).toNat).toNat : Int) =
          e.after.table.standing (RowKey.entryCounter.encode queue) := by
      rw [UInt64.toNat_ofNat', Nat.mod_eq_of_lt (by omega)]
      omega
    rw [Option.some.injEq]
    constructor
    · rintro rfl
      exact ⟨by omega, number.symm⟩
    · rintro ⟨_, stands⟩
      exact UInt64.toNat_inj.1 (by omega)
  · rename_i still
    constructor
    · nofun
    · rintro ⟨above, stands⟩
      omega

end Event

section Allocation

variable {allowed : List Event → Call → Prop} {past : List Event} {call : Call} {e : Event}
  {queue : String} {id : EntryId}

private theorem allocates_next (run : Run allowed past)
    (takes : Event.allocates? ⟨call, storageAfter past⟩ queue = some id) :
    (storageAfter past).table.standing (RowKey.entryCounter.encode queue) < id.toNat ∧
      (Event.after ⟨call, storageAfter past⟩).table.standing (RowKey.entryCounter.encode queue) =
        id.toNat :=
  (Event.allocates?_eq_some (e := ⟨call, storageAfter past⟩) (standing_nonneg run _)).1 takes

theorem counted_of_mem (run : Run allowed past) (mem : e ∈ past) (queue : String) :
    0 ≤ e.before.table.standing (RowKey.entryCounter.encode queue) := by
  obtain ⟨newer, older, rfl⟩ := List.append_of_mem mem
  obtain ⟨earlier, _, found⟩ := Run.cons_iff.1 (run.of_suffix (List.suffix_append newer (e :: older)))
  rw [found]
  exact standing_nonneg earlier _

theorem allocated_le (run : Run allowed past) (mem : e ∈ past)
    (takes : e.allocates? queue = some id) :
    (id.toNat : Int) ≤ (storageAfter past).table.standing (RowKey.entryCounter.encode queue) := by
  induction run with
  | start => cases mem
  | @next past call earlier _ ih =>
      rcases List.mem_cons.1 mem with rfl | mem
      · exact Int.le_of_eq (allocates_next earlier takes).2.symm
      · exact Int.le_trans (ih mem) (Event.standing_le ⟨call, storageAfter past⟩ _)

/-- An id of a queue's entries is taken by one event of a run at most. -/
theorem only_allocation (run : Run allowed past) (mem : e ∈ past)
    (takes : e.allocates? queue = some id) :
    past.filter (fun d => d.allocates? queue = some id) = [e] := by
  induction run with
  | start => cases mem
  | @next past call earlier _ ih =>
      -- What an event takes is beyond all that was taken before it.
      have beyond (now : Event.allocates? ⟨call, storageAfter past⟩ queue = some id) (d : Event)
          (before : d ∈ past) : d.allocates? queue ≠ some id := fun took =>
        Int.not_lt.2 (allocated_le earlier before took) (allocates_next earlier now).1
      rcases List.mem_cons.1 mem with rfl | mem
      · have none : past.filter (fun d => d.allocates? queue = some id) = [] :=
          List.filter_eq_nil_iff.2 fun d before => by simpa using beyond takes d before
        rw [List.filter_cons_of_pos (by simpa using takes), none]
      · have other : Event.allocates? ⟨call, storageAfter past⟩ queue ≠ some id := fun now =>
          beyond now e mem takes
        rw [List.filter_cons_of_neg (by simpa using other), ih mem]

end Allocation

end VersionedQueue
