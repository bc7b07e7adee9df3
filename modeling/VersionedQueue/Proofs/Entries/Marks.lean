import VersionedQueue.Proofs.Entries.Effects
import VersionedQueue.Proofs.Run.Opened
import VersionedQueue.Proofs.Storage.Unreliable

/-!
# The log of an entry

What producers have done to an entry is a log: its append and its retirements, each at its version, in the
order of the calls.  Of an append only one that was answered is in the log.  A retirement is in it from
the moment the state of the entry was marked, also when the call then failed to delete the payload.
What an event did to the row of an entry is what its mark in the log says.
-/

set_option autoImplicit false
set_option relaxedAutoImplicit false

namespace VersionedQueue

/-- What a producer did to an entry. -/
inductive Mark
  | appended (entry : Entry)
  | retired

namespace Mark

/-- The state of an entry that was marked last so. -/
def state : Mark → EntryState
  | appended _ => .valid
  | retired => .invalid

/-- What is shown of an entry that was marked last so. -/
def sighting : Mark → Sighting
  | appended entry => .servable entry.payload
  | retired => .retired

end Mark

/-- The marks of an entry with their versions, the latest call first. -/
abbrev EntryLog := List (Version × Mark)

namespace EntryLog

/-- The mark of the greatest version that a snapshot sees.  Of two marks at one version the later call
stands. -/
def newest? (s : Snapshot) : EntryLog → Option (Version × Mark)
  | [] => none
  | mark :: older =>
      match newest? s older with
      | none => if s.sees mark.1 then some mark else none
      | some top => if s.sees mark.1 && top.1 ≤ mark.1 then some mark else some top

/-- What a snapshot is to show of an entry with this log. -/
def sighting (s : Snapshot) (log : EntryLog) : Sighting :=
  match log.newest? s with
  | none => .unseen
  | some mark => mark.2.sighting

variable {s : Snapshot} {log : EntryLog} {v : Version} {mark : Mark}

theorem lookup_cons_eq (w : Version) :
    List.lookup w ((v, mark) :: log) = if v = w then some mark else log.lookup w := by
  rw [List.lookup_cons]
  by_cases same : v = w
  · simp [same]
  · have other : (w == v) = false := by simpa using Ne.symm same
    simp [same, other]

theorem newest?_eq_none : log.newest? s = none ↔ ∀ w ∈ log, s.sees w.1 = false := by
  induction log with
  | nil => simp [newest?]
  | cons first older ih =>
      cases older_top : newest? s older with
      | none =>
          have hidden := ih.1 older_top
          simpa [newest?, older_top] using fun _ => hidden
      | some top =>
          have shown : ¬ ∀ w ∈ older, s.sees w.1 = false := fun hidden => by
            simp [ih.2 hidden] at older_top
          simp only [newest?, older_top, List.forall_mem_cons]
          constructor
          · intro none
            split at none <;> cases none
          · exact fun hidden => absurd hidden.2 shown

/-- The newest mark is the last one made at its version, and no seen version is greater. -/
theorem newest?_spec (h : log.newest? s = some (v, mark)) :
    s.sees v = true ∧ log.lookup v = some mark ∧ ∀ w ∈ log, s.sees w.1 = true → w.1 ≤ v := by
  induction log generalizing v mark with
  | nil => cases h
  | cons first older ih =>
      obtain ⟨u, latest⟩ := first
      rw [lookup_cons_eq]
      cases top : newest? s older with
      | none =>
          have hidden := newest?_eq_none.1 top
          simp only [newest?, top, Option.ite_none_right_eq_some, Option.some.injEq,
            Prod.mk.injEq] at h
          obtain ⟨seen, rfl, rfl⟩ := h
          refine ⟨seen, if_pos rfl, fun w mem sees => ?_⟩
          rcases List.mem_cons.1 mem with rfl | mem
          · exact UInt64.le_refl _
          · simp [hidden w mem] at sees
      | some before =>
          obtain ⟨seen, last, greatest⟩ := @ih before.1 before.2 top
          simp only [newest?, top] at h
          split at h
          · rename_i higher
            obtain ⟨sees, above⟩ := Bool.and_eq_true_iff.1 higher
            cases h
            refine ⟨sees, if_pos rfl, fun w mem seen' => ?_⟩
            rcases List.mem_cons.1 mem with rfl | mem
            · exact UInt64.le_refl _
            · exact UInt64.le_trans (greatest w mem seen') (of_decide_eq_true above)
          · rename_i lower
            cases h
            -- At equal versions the later call would have won, so the older mark stands only above it.
            have other : s.sees u = true → u < v := fun sees =>
              UInt64.not_le.1 fun above => lower (by simp [sees, above])
            refine ⟨seen, ?_, fun w mem seen' => ?_⟩
            · rw [if_neg, last]
              rintro rfl
              exact UInt64.lt_irrefl _ (other seen)
            · rcases List.mem_cons.1 mem with rfl | mem
              · exact UInt64.le_of_lt (other seen')
              · exact greatest w mem seen'

theorem mem_of_lookup (h : log.lookup v = some mark) : (v, mark) ∈ log := by
  obtain ⟨later, earlier, rfl, _⟩ := List.lookup_eq_some_iff.1 h
  exact List.mem_append_right _ List.mem_cons_self

theorem lookup_ne_none (h : (v, mark) ∈ log) : log.lookup v ≠ none := fun none => by
  simpa using List.lookup_eq_none_iff.1 none _ h

end EntryLog

/-- The failure is that the payload of an entry was not deleted. -/
def QueueError.keepsPayload : QueueError → Bool
  | internal operation _ => operation == Purpose.deletePayload.text
  | _ => false

namespace Event

/-- A retirement has marked its entry: it was answered, or only the payload was not deleted. -/
def marks (e : Event) : Bool :=
  match e.outcome.answer with
  | .ok .invalidated => true
  | .ok _ => false
  | .error failure => failure.keepsPayload

/-- The mark that an event has left on an entry. -/
def mark? (e : Event) (p : Pointer) : Option (Version × Mark) :=
  match e.call.request with
  | .enqueue entry v => if e.appended? = some p then some (v, .appended entry) else none
  | .invalidate p' v => if p' = p ∧ e.marks = true then some (v, .retired) else none
  | _ => none

end Event

/-- What the producers of a run have done to an entry. -/
def entryLog (past : List Event) (p : Pointer) : EntryLog := past.filterMap (·.mark? p)

/-- Every version of the state of an entry is one that producers write. -/
def Table.PlainState (t : Table) (p : Pointer) : Prop :=
  ∀ v x, (t.cell p.queue (.entry p.id) .state).at? v = some x →
    x = some EntryState.valid.encode ∨ x = some EntryState.invalid.encode

/-- The state of an entry was marked as retired at a version. -/
def Table.MarkedRetired (p : Pointer) (v : Version) (t t' : Table) : Prop :=
  t'.cell p.queue (.entry p.id) .state =
    (t.cell p.queue (.entry p.id) .state).record v (some EntryState.invalid.encode)

namespace Queue

variable (q : Queue) {st : Storage}

private theorem state_shown {t : Table} {id : EntryId} {s : Snapshot} {cell : Bytes}
    (plain : t.PlainState ⟨q.name, id⟩) (shown : q.shows t s (.entry id) .state = some cell) :
    cell = EntryState.valid.encode ∨ cell = EntryState.invalid.encode := by
  rcases (t.cell q.name (.entry id) .state).read_cases s with ⟨unread, _⟩ | ⟨v, x, _, here, _, read⟩
  · cases unread.symm.trans shown
  · have same : x = some cell := read.symm.trans shown
    exact (plain v x here).imp (fun valid => Option.some.inj (same.symm.trans valid))
      fun invalid => Option.some.inj (same.symm.trans invalid)

theorem ends_invalidate (id : EntryId) (v : Version) (plain : st.table.PlainState ⟨q.name, id⟩) :
    Ends (q.invalidate ⟨q.name, id⟩ v) st
      (fun _ st' => Table.MarkedRetired ⟨q.name, id⟩ v st.table st'.table)
      fun e st' => (e.keepsPayload = true ∧ Table.MarkedRetired ⟨q.name, id⟩ v st.table st'.table) ∨
        (e.keepsPayload = false ∧ st.Alike st') := by
  unfold invalidate
  refine Ends.ofExcept_bind (fun e refused => ?_) fun _ _ => ?_
  · rw [checkPointer, if_pos rfl] at refused
    cases refused
  have looked : Ends (q.readState id (.upTo v)) st
      (fun current st' => current.all (·.mayBecome .invalid) = true ∧ st.Alike st')
      fun e st' => (e.keepsPayload = true ∧ Table.MarkedRetired ⟨q.name, id⟩ v st.table st'.table) ∨
        (e.keepsPayload = false ∧ st.Alike st') := by
    unfold readState
    refine ((q.ends_view .readEntryState (.upTo v)).imp (fun _ _ done => done) ?_).bind ?_
    · rintro e st' ⟨⟨source, rfl⟩, same⟩
      exact .inr ⟨rfl, same⟩
    · rintro view st' ⟨rfl, same⟩
      cases shown : q.shows st.table (.upTo v) (.entry id) .state with
      | none => exact Ends.pure ⟨rfl, same⟩
      | some cell =>
          rcases q.state_shown plain shown with rfl | rfl
          · exact Ends.pure ⟨rfl, same⟩
          · exact Ends.pure ⟨rfl, same⟩
  refine looked.bind ?_
  rintro current st₁ ⟨may, same⟩
  rw [if_pos may]
  refine ((q.ends_put .writeInvalidState (.entry id) _ v).imp (fun _ _ done => done) ?_).bind ?_
  · rintro e st₂ ⟨⟨source, rfl⟩, kept⟩
    exact .inr ⟨rfl, same.trans kept⟩
  rintro _ st₂ ⟨table, _⟩
  have marked : Table.MarkedRetired ⟨q.name, id⟩ v st.table st₂.table := by
    rw [Table.MarkedRetired, table]
    simp [Table.recordAll, Table.cell, Table.history_record, same.1.history]
  refine (q.ends_delete .deletePayload (.entry id) .payload v).imp ?_ ?_
  · rintro _ st₃ ⟨deleted, _⟩
    have apart : Column.state.encode ≠ Column.payload.encode := by simp [Column.encode]
    rw [Table.MarkedRetired, ← marked, deleted]
    simp [Table.cell, Table.history_record, apart]
  · rintro e st₃ ⟨⟨source, rfl⟩, kept⟩
    refine .inl ⟨rfl, ?_⟩
    rw [Table.MarkedRetired, ← marked]
    exact kept.1.history _ _

end Queue

namespace Event

/-- What an event did to the row of an entry. -/
inductive OnEntry (e : Event) (p : Pointer) : Prop
  | appends (entry : Entry) (v : Version) :
      e.Appends p entry v → Table.Appended p.queue p.id entry v e.before.table e.after.table →
      OnEntry e p
  | retires (v : Version) :
      e.mark? p = some (v, .retired) → Table.MarkedRetired p v e.before.table e.after.table →
      (∀ w, w ≠ v → (e.after.table.cell p.queue (.entry p.id) .payload).at? w =
        (e.before.table.cell p.queue (.entry p.id) .payload).at? w) → OnEntry e p
  | aside :
      e.mark? p = none →
      (∀ column, e.after.table.cell p.queue (.entry p.id) column =
        e.before.table.cell p.queue (.entry p.id) column) → OnEntry e p

variable {e : Event} {p : Pointer} {entry : Entry} {v : Version}

theorem mark?_of_appends (h : e.Appends p entry v) : e.mark? p = some (v, .appended entry) := by
  simp only [mark?, h.1, h.2, if_true]

theorem mark?_of_aside (quiet : e.call.request.isEnqueue = false)
    (keeps : e.call.request.isInvalidate = false) : e.mark? p = none := by
  unfold mark?
  split
  · next asked => simp [asked, Request.isEnqueue] at quiet
  · next asked => simp [asked, Request.isInvalidate] at keeps
  · rfl

theorem mark?_eq_appended :
    e.mark? p = some (v, .appended entry) ↔ e.Appends p entry v := by
  refine ⟨fun marked => ?_, mark?_of_appends⟩
  cases asked : e.call.request using Request.producer_cases with
  | enqueue entry' v' =>
      simp only [mark?, asked] at marked
      split at marked
      · rename_i answered
        cases marked
        exact ⟨asked, answered⟩
      · cases marked
  | invalidate p' v' =>
      simp only [mark?, asked] at marked
      split at marked <;> cases marked
  | aside request quiet keeps =>
      rw [← asked] at quiet keeps
      cases (mark?_of_aside quiet keeps).symm.trans marked

theorem mark?_of_retires (h : e.Retires p v) : e.mark? p = some (v, .retired) := by
  obtain ⟨asked, answered⟩ := h
  have marks : e.marks = true := by
    unfold retired at answered
    unfold marks
    split at answered
    · rename_i known
      rw [known]
    · cases answered
  simp only [mark?, asked, marks, and_self, if_true]

theorem cell_kept (opens : e.call.queue.Opens) (short : ShortName p.queue)
    (out : e.call.queue.name = p.queue → ¬ e.call.request.Touches (.entry p.id)) (column : Column) :
    e.after.table.cell p.queue (.entry p.id) column =
      e.before.table.cell p.queue (.entry p.id) column :=
  history_kept opens short out column.encode

theorem enqueue_cases (counted : ∀ queue, 0 ≤ e.before.table.standing (RowKey.entryCounter.encode queue))
    (asked : e.call.request = .enqueue entry v) :
    (∃ id, e.appended? = some ⟨e.call.queue.name, id⟩ ∧ e.allocates? e.call.queue.name = some id ∧
        Table.Appended e.call.queue.name id entry v e.before.table e.after.table) ∨
      (e.appended? = none ∧
        ∀ row column, e.after.table.history row column = e.before.table.history row column) := by
  have performed : e.outcome = Outcome.ofStorage .enqueued
      (e.call.queue.enqueue entry v { e.before with plan := e.call.plan }) := by
    simp only [outcome, Call.perform, asked]
  rcases e.call.queue.enqueue_cases entry v { e.before with plan := e.call.plan } (counted _) with
    ⟨id, st', done, next, stands, written⟩ | ⟨err, st', failed, same, _⟩
  · rw [done] at performed
    have after : e.after = st' := by rw [Event.after, performed]; rfl
    refine .inl ⟨id, by simp only [appended?, performed, Outcome.ofStorage], ?_, after ▸ written⟩
    refine (allocates?_eq_some (counted _)).2 ?_
    rw [after]
    exact ⟨by simp only at next; omega, stands⟩
  · rw [failed] at performed
    have after : e.after = st' := by rw [Event.after, performed]; rfl
    exact .inr ⟨by simp only [appended?, performed, Outcome.ofStorage], after ▸ same⟩

theorem Appends.written (h : e.Appends p entry v)
    (counted : ∀ queue, 0 ≤ e.before.table.standing (RowKey.entryCounter.encode queue)) :
    p.queue = e.call.queue.name ∧ e.allocates? p.queue = some p.id ∧
      Table.Appended p.queue p.id entry v e.before.table e.after.table := by
  rcases enqueue_cases counted h.1 with ⟨id, answered, takes, written⟩ | ⟨unanswered, _⟩
  · obtain rfl := Option.some.inj (h.2.symm.trans answered)
    exact ⟨rfl, takes, written⟩
  · cases h.2.symm.trans unanswered

private theorem onEntry_enqueue (opens : e.call.queue.Opens) (short : ShortName p.queue)
    (counted : ∀ queue, 0 ≤ e.before.table.standing (RowKey.entryCounter.encode queue))
    (asked : e.call.request = .enqueue entry v) : e.OnEntry p := by
  rcases enqueue_cases counted asked with ⟨id, answered, takes, written⟩ | ⟨unanswered, same⟩
  · by_cases here : p = ⟨e.call.queue.name, id⟩
    · subst here
      exact .appends entry v ⟨asked, answered⟩ written
    · refine .aside (by simp [mark?, asked, answered, Ne.symm here]) fun column => ?_
      by_cases name : e.call.queue.name = p.queue
      · obtain ⟨queue, other⟩ := p
        subst name
        refine written.others _ column ?_
        rintro ⟨⟩
        exact here rfl
      · exact cell_kept opens short (fun same => absurd same name) column
  · exact .aside (by simp [mark?, asked, unanswered]) fun column => same _ _

private theorem onEntry_invalidate {p' : Pointer} (opens : e.call.queue.Opens)
    (short : ShortName p.queue) (plain : e.before.table.PlainState p)
    (asked : e.call.request = .invalidate p' v) : e.OnEntry p := by
  have performed : e.outcome = Outcome.ofStorage (fun _ => .invalidated)
      (e.call.queue.invalidate p' v { e.before with plan := e.call.plan }) := by
    simp only [outcome, Call.perform, asked]
  by_cases name : p'.queue = e.call.queue.name
  · by_cases here : p' = p
    · subst here
      obtain ⟨queue, id⟩ := p'
      cases name
      have ends := @Queue.ends_invalidate e.call.queue { e.before with plan := e.call.plan } id v plain
      have others : ∀ w, w ≠ v → (e.after.table.cell e.call.queue.name (.entry id) .payload).at? w =
          (e.before.table.cell e.call.queue.name (.entry id) .payload).at? w := fun w other =>
        e.touched.at? _ _ w (by simpa only [asked, Request.version] using other)
      cases done : e.call.queue.invalidate ⟨e.call.queue.name, id⟩ v
          { e.before with plan := e.call.plan } with
      | ok u st' =>
          have marked := ends.of_ok done
          rw [done] at performed
          refine .retires v ?_ ?_ others
          · simp [mark?, asked, marks, performed, Outcome.ofStorage]
          · rw [Event.after, performed]
            exact marked
      | error err st' =>
          rcases ends.of_error done with ⟨left, marked⟩ | ⟨early, same⟩
          · rw [done] at performed
            refine .retires v ?_ ?_ others
            · simp [mark?, asked, marks, performed, Outcome.ofStorage, left]
            · rw [Event.after, performed]
              exact marked
          · rw [done] at performed
            refine .aside ?_ fun column => ?_
            · simp [mark?, asked, marks, performed, Outcome.ofStorage, early]
            · rw [Event.after, performed]
              exact same.1.history _ _
    · refine .aside (by simp [mark?, asked, here]) (cell_kept opens short fun same touches => ?_)
      obtain ⟨queue, id⟩ := p
      obtain ⟨queue', id'⟩ := p'
      cases name
      cases same
      rw [asked] at touches
      cases touches
      exact here rfl
  · rw [Queue.invalidate_of_foreign e.call.queue name v] at performed
    refine .aside ?_ fun column => ?_
    · simp [mark?, asked, marks, performed, Outcome.ofStorage, QueueError.keepsPayload]
    · rw [Event.after, performed]
      rfl

/-- An event either appends the entry, or marks it as retired, or leaves its row as it was. -/
theorem onEntry (opens : e.call.queue.Opens) (short : ShortName p.queue)
    (counted : ∀ queue, 0 ≤ e.before.table.standing (RowKey.entryCounter.encode queue))
    (plain : e.before.table.PlainState p) : e.OnEntry p := by
  cases asked : e.call.request using Request.producer_cases with
  | enqueue entry v => exact onEntry_enqueue opens short counted asked
  | invalidate p' v => exact onEntry_invalidate opens short plain asked
  | aside request quiet keeps =>
      rw [← asked] at quiet keeps
      exact .aside (mark?_of_aside quiet keeps)
        (cell_kept opens short fun _ => Request.not_touches_entry quiet keeps p.id)

end Event

end VersionedQueue
