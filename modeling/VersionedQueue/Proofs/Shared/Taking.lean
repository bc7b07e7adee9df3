import VersionedQueue.Proofs.Run.Orderly

/-!
# Taking ids from the pointer of a group

The pointer of a group only moves forward, and only in requests of the group's members.  So each id
up to the pointer was taken by one member, and by no other.
-/

set_option autoImplicit false
set_option relaxedAutoImplicit false

namespace VersionedQueue

/-- A member's request moved the pointer of its group past an id. -/
def Event.Takes (e : Event) (seat : Seat) (id : EntryId) : Prop :=
  e.call.seat? = some seat ∧ e.before.table.standing seat.groupRow < id.toNat ∧
    (id.toNat : Int) ≤ e.after.table.standing seat.groupRow

/-- A member has taken an id from the pointer of its group. -/
def Took (past : List Event) (seat : Seat) (id : EntryId) : Prop := ∃ e ∈ past, e.Takes seat id

section Cons

variable {past : List Event} {e : Event} {seat : Seat} {id : EntryId}

theorem took_cons : Took (e :: past) seat id ↔ e.Takes seat id ∨ Took past seat id := by
  simp [Took]

theorem Took.cons (h : Took past seat id) : Took (e :: past) seat id := took_cons.2 (.inr h)

theorem Took.mono {later : List Event} (h : Took past seat id) (part : past <:+ later) :
    Took later seat id := by
  obtain ⟨e, mem, takes⟩ := h
  exact ⟨e, part.subset mem, takes⟩

theorem took_cons_of_other (other : e.call.seat? ≠ some seat) :
    Took (e :: past) seat id ↔ Took past seat id := by
  rw [took_cons]
  exact ⟨fun h => h.resolve_left fun takes => other takes.1, .inr⟩

theorem took_cons_of_not_touches (name : e.call.queue.name = seat.queue)
    (out : ¬ e.call.request.Touches (.groupPointer seat.group)) :
    Took (e :: past) seat id ↔ Took past seat id := by
  have kept : e.after.table.standing seat.groupRow = e.before.table.standing seat.groupRow := by
    rw [Table.standing, Table.standing, Seat.groupRow, Event.counter_of_not_touches name out]
  rw [took_cons]
  refine ⟨fun h => h.resolve_left fun takes => ?_, .inr⟩
  obtain ⟨_, after, upTo⟩ := takes
  rw [kept] at upTo
  exact Int.not_lt.2 upTo after

theorem Event.Takes.isDequeue (h : e.Takes seat id) : e.call.request.isDequeue = true := by
  obtain ⟨own, after, upTo⟩ := h
  have touches : e.call.request.Touches (.groupPointer seat.group) := by
    refine Classical.byContradiction fun out => ?_
    rw [Seat.groupRow, Table.standing, Event.counter_of_not_touches (Call.name_eq own) out] at upTo
    exact Int.not_lt.2 upTo after
  obtain ⟨c, config, cursor, s, asked, _⟩ := Request.dequeue_of_touches touches
  rw [asked]
  rfl

theorem Took.asked (h : Took past seat id) : Asked past seat := by
  obtain ⟨e, mem, takes⟩ := h
  exact ⟨e, mem, takes.1, takes.isDequeue⟩

end Cons

section Run

variable {allowed : List Event → Call → Prop} {past : List Event} {seat : Seat} {id : EntryId}

theorem took_le (run : Run allowed past) (h : Took past seat id) :
    (id.toNat : Int) ≤ (storageAfter past).table.standing seat.groupRow := by
  induction run with
  | start =>
      obtain ⟨_, mem, _⟩ := h
      cases mem
  | @next past call _ _ ih =>
      rcases took_cons.1 h with takes | earlier
      · exact takes.2.2
      · exact Int.le_trans (ih earlier) (Event.standing_le ⟨call, storageAfter past⟩ _)

theorem took_pos (run : Run allowed past) (h : Took past seat id) : id ≠ noEntry := by
  rintro rfl
  induction run with
  | start =>
      obtain ⟨_, mem, _⟩ := h
      cases mem
  | next earlier _ ih =>
      rcases took_cons.1 h with takes | before
      · exact absurd takes.2.1 (Int.not_lt.2 (standing_nonneg earlier _))
      · exact ih before

/-- An id is taken by one member of a group. -/
theorem took_unique (run : Run allowed past) {queue : String} {group : GroupId} {m m' : InstanceId}
    (h : Took past ⟨queue, group, m⟩ id) (h' : Took past ⟨queue, group, m'⟩ id) : m = m' := by
  induction run with
  | start =>
      obtain ⟨_, mem, _⟩ := h
      cases mem
  | @next past call earlier _ ih =>
      have early {member : InstanceId} (before : Took past ⟨queue, group, member⟩ id) :
          (id.toNat : Int) ≤
            (storageAfter past).table.standing ((RowKey.groupPointer group).encode queue) :=
        (took_le earlier before :)
      rcases took_cons.1 h with takes | before
      · rcases took_cons.1 h' with takes' | before'
        · have same := takes.1.symm.trans takes'.1
          simpa using same
        · have late : (storageAfter past).table.standing
              ((RowKey.groupPointer group).encode queue) < id.toNat := takes.2.1
          exact absurd late (Int.not_lt.2 (early before'))
      · rcases took_cons.1 h' with takes' | before'
        · have late : (storageAfter past).table.standing
              ((RowKey.groupPointer group).encode queue) < id.toNat := takes'.2.1
          exact absurd late (Int.not_lt.2 (early before))
        · exact ih before before'

/-- Each id up to the pointer of a group was taken by a member of the group. -/
theorem exists_took {queue : String} {group : GroupId} (run : Run (Sound queue) past)
    (positive : 0 < id.toNat)
    (below : (id.toNat : Int) ≤
      (storageAfter past).table.standing ((RowKey.groupPointer group).encode queue)) :
    ∃ member, Took past ⟨queue, group, member⟩ id := by
  induction run with
  | start =>
      have zero : (storageAfter []).table.standing ((RowKey.groupPointer group).encode queue) = 0 :=
        rfl
      omega
  | @next past call _ sound ih =>
      let e : Event := ⟨call, storageAfter past⟩
      by_cases before : (id.toNat : Int) ≤
          (storageAfter past).table.standing ((RowKey.groupPointer group).encode queue)
      · obtain ⟨member, took⟩ := ih before
        exact ⟨member, took.cons⟩
      · by_cases touches : call.request.Touches (.groupPointer group)
        · obtain ⟨c, config, cursor, s, asked, rfl⟩ := Request.dequeue_of_touches touches
          refine ⟨c.member, e, List.mem_cons_self, ?_, Int.not_le.1 before, below⟩
          simp only [e, Call.seat?, asked, Request.consumer?, Option.map_some, Queue.seat, sound.1]
        · have kept := Event.counter_of_not_touches (e := e) sound.1 touches Column.counter.encode
          rw [storageAfter, Table.standing, kept] at below
          exact absurd below before

end Run

end VersionedQueue
