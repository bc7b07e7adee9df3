import VersionedQueue.Proofs.Delivery.RowAnswer
import VersionedQueue.Proofs.Run.Replay

/-!
# Loads that fail

A cursor counts as loaded from the moment at which its row was read.  A load that fails before leaves it
as it was, and the next request loads again.  One that fails afterwards, in looking at the write pointer, in
reading the active entry or in clearing it, leaves a cursor that knows the read pointer of the row and has
forgotten its active entry.  A later request goes on behind the read pointer, and takes the entry up only if
it comes up once more.
-/

set_option autoImplicit false
set_option relaxedAutoImplicit false

namespace VersionedQueue

namespace Queue

section Load

variable {q : Queue} {c : Consumer} {config : Config} {s : Snapshot} {st : Storage} {k : Cursor}
  {a r w : EntryId} {e : QueueError} {u : Turn}

/-- The call fails that reads the row of a consumer. -/
def RowUnread (q : Queue) (s : Snapshot) (st : Storage) : Prop :=
  ∃ e st', q.view .readConsumer s st = .error e st'

theorem cursor_of_failed_load (reads : q.Reads c s st.table a r w)
    (failed : q.load c config s ⟨st, k⟩ = .error e u) :
    q.RowUnread s st ∧ u.cursor = k ∨ ¬ q.RowUnread s st ∧
      ∃ w' ≤ w, u.cursor = { loaded := true, readPointer := r, writePointer := w' } := by
  cases viewed : q.view .readConsumer s st with
  | error e' st' =>
      have unread : Turn.onStorage (q.view .readConsumer s) ⟨st, k⟩ = .error e' ⟨st', k⟩ := by
        simp only [Turn.onStorage, viewed]
      have stops : q.load c config s ⟨st, k⟩ = .error e' ⟨st', k⟩ := by
        unfold load
        exact bind_eq_of_error unread
      cases stops.symm.trans failed
      exact .inl ⟨⟨_, _, viewed⟩, rfl⟩
  | ok view st₁ =>
      obtain ⟨rfl, same⟩ := (q.ends_view .readConsumer s).of_ok viewed
      rw [load_eq_of_row viewed reads.active reads.readPointer] at failed
      have read : ¬ q.RowUnread s st := by
        rintro ⟨_, _, unread⟩
        cases viewed.symm.trans unread
      refine .inr ⟨read, ?_⟩
      have looks : Ends q.refresh ⟨st₁, { loaded := true, readPointer := r }⟩
          (fun _ t => t.cursor = { loaded := true, readPointer := r, writePointer := w })
          fun _ t => t.cursor = { loaded := true, readPointer := r } := by
        have counts : Ends (Turn.onStorage q.writePointer)
            ⟨st₁, { loaded := true, readPointer := r }⟩
            (fun w' t => (w'.toNat : Int) = w.toNat ∧ t.cursor = { loaded := true, readPointer := r })
            fun _ t => t.cursor = { loaded := true, readPointer := r } :=
          (Turn.ends_onStorage (q.ends_count_zero .readWritePointer .entryCounter)).imp
            (fun _ _ done => ⟨done.1.2.1.trans ((same.1.standing _).trans reads.writePointer.symm),
              done.2.symm⟩) fun _ _ failed => failed.2.symm
        refine counts.bind ?_
        rintro w' t ⟨stands, cursor⟩
        obtain rfl : w' = w := UInt64.toNat_inj.1 (Int.ofNat_inj.1 stands)
        change { t.cursor with writePointer := w' } = _
        rw [cursor]
      have fails : Ends (q.refresh >>= fun _ => q.settle c config s a)
          ⟨st₁, { loaded := true, readPointer := r }⟩ (fun _ _ => True) fun _ t =>
            ∃ w' ≤ w, t.cursor = { loaded := true, readPointer := r, writePointer := w' } := by
        refine (looks.imp (fun _ _ done => done) fun _ t failed =>
          ⟨0, UInt64.zero_le, failed⟩).bind ?_
        rintro _ ⟨st₂, _⟩ rfl
        exact (ends_settle _).imp (fun _ _ _ => trivial) fun _ _ failed =>
          ⟨w, UInt64.le_refl w, failed.2⟩
      exact fails.of_error failed

theorem dequeue_eq_of_unloaded (valid : config.validate = .ok ())
    (member : c.validate config.partitioner = .ok ()) (reliable : st.Reliable)
    (reads : q.Reads c s st.table a r w) (unloaded : k.loaded = false) :
    q.dequeue c config s ⟨st, k⟩ = q.dequeue c config s ⟨st, .fresh⟩ := by
  obtain ⟨_, st₁, viewed, rfl, -⟩ := q.answers_view .readConsumer s reliable
  have loads (cursor : Cursor) : q.load c config s ⟨st, cursor⟩ =
      (q.refresh >>= fun _ => q.settle c config s a) ⟨st₁, { loaded := true, readPointer := r }⟩ :=
    load_eq_of_row viewed reads.active reads.readPointer
  rw [dequeue_of_unloaded (t := ⟨st, k⟩) valid member unloaded,
    dequeue_of_unloaded (t := ⟨st, .fresh⟩) valid member rfl]
  change EStateM.bind _ _ _ = EStateM.bind _ _ _
  unfold EStateM.bind
  rw [loads, loads]

end Load

section Later

variable {q : Queue} {c : Consumer} {config : Config} {view : QueueView} {s : Snapshot} {st : Storage}
  {k : Cursor} {a r w : EntryId} {group : Int}

/-- The active entry of a row stays active: it can be served again, or a member of a shared group has to wait
for it. -/
def StaysActive (q : Queue) (config : Config) (view : QueueView) (active : EntryId) : Prop :=
  active ≠ noEntry ∧ ∀ seen, q.sight view active = .ok seen → ¬ Clears config seen

/-- A request takes an entry up: it hands the entry out, or leaves it pending. -/
def TakesUp (q : Queue) (id : EntryId) (result : EStateM.Result QueueError Turn Delivery) : Prop :=
  ∃ d t, result = .ok d t ∧ (d.pointer? = some ⟨q.name, id⟩ ∨ t.cursor.pending = some id)

theorem takesUp_iff {id : EntryId} {result : EStateM.Result QueueError Turn Delivery} {d : Delivery}
    {t : Turn} (done : result = .ok d t) :
    q.TakesUp id result ↔ d.pointer? = some ⟨q.name, id⟩ ∨ t.cursor.pending = some id := by
  constructor
  · rintro ⟨d', t', done', taken⟩
    cases done.symm.trans done'
    exact taken
  · exact fun taken => ⟨d, t, done, taken⟩

/-- Two requests of a consumer are answered alike, and leave the same pending.  The tables differ in the
active entry of the row at most, and not in that either if the condition holds. -/
def AnsweredAlike (q : Queue) (c : Consumer) (still : Prop)
    (result result' : EStateM.Result QueueError Turn Delivery) : Prop :=
  ∃ d t t', result = .ok d t ∧ result' = .ok d t' ∧ t'.cursor.pending = t.cursor.pending ∧
    (∀ row, t'.storage.table.standing row = t.storage.table.standing row) ∧
    ∀ row column, still ∨ ¬ (row = (q.seat c).row ∧ column = Column.active.encode) →
      t'.storage.table.history row column = t.storage.table.history row column

theorem RowAnswer.takes_active {d : Delivery} {cells : List (Column × Bytes)} {left : Option EntryId}
    {group' : Int} (h : q.RowAnswer config view c a r group w d cells left group')
    (stays : q.StaysActive config view a) : d.pointer? = some ⟨q.name, a⟩ ∨ left = some a := by
  cases h with
  | again _ _ => exact .inl rfl
  | waiting _ _ _ => exact .inr rfl
  | idle zero _ => exact absurd zero stays.1
  | cleared _ sight clears _ => exact absurd clears (stays.2 _ sight)

theorem RowAnswer.onward_of_lapsed {d : Delivery} {cells : List (Column × Bytes)}
    {left : Option EntryId} {group' : Int}
    (h : q.RowAnswer config view c a r group w d cells left group') (lapsed : ¬ q.StaysActive config view a) :
    ∃ cells', q.OnwardAnswer config view c none r group w d cells' left group' ∧
      (cells = cells' ∨ a ≠ noEntry ∧ cells = (.active, Bytes.ofUInt64 noEntry) :: cells') := by
  cases h with
  | again nonzero sight =>
      refine absurd ⟨nonzero, fun seen sight' clears => ?_⟩ lapsed
      exact clears.1 _ (Except.ok.inj (sight'.symm.trans sight))
  | waiting nonzero sight shared =>
      refine absurd ⟨nonzero, fun seen sight' clears => ?_⟩ lapsed
      exact clears.2 ⟨Except.ok.inj (sight'.symm.trans sight), by simp [shared]⟩
  | idle _ onward => exact ⟨cells, onward, .inl rfl⟩
  | cleared nonzero _ _ onward => exact ⟨_, onward, .inr ⟨nonzero, rfl⟩⟩

/-- A later request from a cursor that knows the read pointer of the row only. -/
theorem answers_after_failed_load (valid : config.validate = .ok ())
    (member : c.validate config.partitioner = .ok ()) (counts : q.Counts c st group w.toNat)
    (readable : q.Readable (q.shows st.table s)) {w' : EntryId} (remembered : w' ≤ w) :
    Answers (q.dequeue c config s) ⟨st, { loaded := true, readPointer := r, writePointer := w' }⟩
      fun d t => ∃ cells group',
        q.OnwardAnswer config (q.shows st.table s) c none r group w d cells t.cursor.pending group' ∧
          q.Records c config s.writeVersion st.table cells group' t.storage.table :=
  .of_eq (dequeue_of_loaded valid member rfl)
    (q.answers_proceed_onward c config s _ counts readable remembered rfl fun _ => rfl)

theorem Reads.writePointer_le_of_suffix {allowed : List Event → Call → Prop} {past later : List Event}
    {s' : Snapshot} {a' r' w' : EntryId} (reads : q.Reads c s (storageAfter past).table a r w)
    (run : Run allowed later) (part : past <:+ later)
    (reads' : q.Reads c s' (storageAfter later).table a' r' w') : w ≤ w' := by
  have grows := standing_le_of_suffix run part (RowKey.entryCounter.encode q.name)
  rw [← reads.writePointer, ← reads'.writePointer] at grows
  exact UInt64.le_iff_toNat_le.2 (Int.ofNat_le.1 grows)

theorem answeredAlike_of_records {t : Table} {u u' : Turn} {d : Delivery}
    {cells cells' : List (Column × Bytes)} {group' : Int} {v : Version}
    {result result' : EStateM.Result QueueError Turn Delivery}
    (first : result = .ok d u) (second : result' = .ok d u')
    (pending : u'.cursor.pending = u.cursor.pending)
    (records : q.Records c config v t cells group' u.storage.table)
    (records' : q.Records c config v t cells' group' u'.storage.table)
    (same : cells' = cells ∨ a ≠ noEntry ∧ cells' = (.active, Bytes.ofUInt64 noEntry) :: cells) :
    q.AnsweredAlike c (a = noEntry) result result' := by
  refine ⟨d, u, u', first, second, pending, fun row => ?_, fun row column here => ?_⟩
  · by_cases own : row = (q.seat c).groupRow
    · rw [own, records.standing, records'.standing]
    · rw [records.counted.standing row own, records'.counted.standing row own]
      simp only [Table.standing, Table.counter_recordAll]
  · rw [records.counted.history, records'.counted.history]
    rcases same with rfl | ⟨nonzero, rfl⟩
    · rfl
    · refine @Table.history_recordAll_congr _ v _ _ (cells.map fun cell => (cell.1.encode, cell.2)) t
        (t.record _ _ v _) ?_
      rw [Table.history_record, if_neg (here.resolve_left nonzero)]

end Later

end Queue

open Queue in
/-- After every run, a request whose load fails leaves the table as it was.  If its consumer's row was not
read, a later request, when storage works, is the one of a fresh cursor.  If the row was read, the later
request goes on behind the read pointer that was read.  A fresh cursor takes up the active entry of the row
while that stays active; the one that is left takes it up only if it comes up behind the read pointer of the
row, or the pointer of the group, once more.  Where no active entry stays active and the read pointer was not
moved, both are answered alike. -/
theorem failed_load_takes_up_iff {past later : List Event} {q : Queue} {c : Consumer} {config : Config}
    {s : Snapshot} {plan : FaultPlan} {k : Cursor} {e : QueueError} {u : Turn}
    (run : Run Opened later) (part : past <:+ later) (opens : q.Opens) (valid : config.validate = .ok ())
    (member : c.validate config.partitioner = .ok ()) (unloaded : k.loaded = false)
    (failed : q.load c config s ⟨{ storageAfter past with plan }, k⟩ = .error e u) (s' : Snapshot) :
    let unread := q.RowUnread s { storageAfter past with plan }
    let table := (storageAfter later).table
    let view := q.shows table s'
    let group := table.standing (q.seat c).groupRow
    let ask k := q.dequeue c config s' ⟨{ storageAfter later with plan := .none }, k⟩
    q.dequeue c config s ⟨{ storageAfter past with plan }, k⟩ = .error e u ∧
      (storageAfter past).table.Alike u.storage.table ∧
      ∃ r a r' w,
        q.decodeId c (q.shows (storageAfter past).table s (consumerRow c) .readPointer) = .ok r ∧
        q.Reads c s' table a r' w ∧
        (unread → ask u.cursor = ask .fresh) ∧
        (¬ unread → ∃ d t cells group', ask u.cursor = .ok d t ∧
          q.OnwardAnswer config view c none r group w d cells t.cursor.pending group' ∧
          q.Records c config s'.writeVersion table cells group' t.storage.table) ∧
        (q.StaysActive config view a → q.TakesUp a (ask .fresh) ∧
          (q.TakesUp a (ask u.cursor) ↔ unread ∨ q.ComesUp config view c r group w a)) ∧
        (¬ q.StaysActive config view a → unread ∨ r = r' →
          q.AnsweredAlike c (a = noEntry) (ask u.cursor) (ask .fresh)) := by
  intro unread table view group ask
  have before : Run Opened past := run.of_suffix part
  obtain ⟨a₀, r, w₀, reads₀⟩ : ∃ a r w, q.Reads c s ({ storageAfter past with plan } : Storage).table
    a r w := reads_of_run before opens c s
  obtain ⟨a, r', w, decides⟩ := rowDecides_of_run run opens c s'
  have reads := decides.reads
  have readable := readable_of_run run opens s'
  have counts := q.counts_of_run run c reads.writePointer
  have stops : q.dequeue c config s ⟨{ storageAfter past with plan }, k⟩ = .error e u :=
    (dequeue_of_unloaded (t := ⟨{ storageAfter past with plan }, k⟩) valid member unloaded).trans
      (bind_eq_of_error failed)
  refine ⟨stops, ((ends_load k).of_error failed).1, r, a, r', w, reads₀.readPointer, reads, ?_⟩
  -- A later request of a fresh cursor is answered by the row.
  obtain ⟨d, t, fresh, cells, group', answer, records⟩ := decides.answers config valid member
  have takes (stays : q.StaysActive config view a) : q.TakesUp a (ask .fresh) :=
    ⟨d, t, fresh, answer.takes_active stays⟩
  rcases cursor_of_failed_load reads₀ failed with ⟨unread', left⟩ | ⟨read, w', remembered, left⟩
  · have same : ask u.cursor = ask .fresh := by
      rw [left]
      exact dequeue_eq_of_unloaded valid member counts.reliable reads unloaded
    refine ⟨fun _ => same, fun read => absurd unread' read, fun stays => ⟨takes stays, ?_⟩, fun _ _ => ?_⟩
    · rw [same]
      exact ⟨fun _ => .inl unread', fun _ => takes stays⟩
    · rw [same]
      exact ⟨d, t, t, fresh, fresh, rfl, fun _ => rfl, fun _ _ _ => rfl⟩
  · have bounded : w' ≤ w :=
      UInt64.le_trans remembered (reads₀.writePointer_le_of_suffix run part reads)
    obtain ⟨d₁, t₁, kept, cells₁, group₁, onward, records₁⟩ : Answers (q.dequeue c config s') _ _ :=
      answers_after_failed_load (r := r) valid member counts readable bounded
    rw [← left] at kept
    refine ⟨fun unread' => absurd unread' read, fun _ => ⟨d₁, t₁, cells₁, group₁, kept, onward, records₁⟩,
      fun stays => ⟨takes stays, ?_⟩, fun lapsed resolved => ?_⟩
    · rw [takesUp_iff kept, onward.takes_iff]
      exact ⟨.inr, fun comes => comes.resolve_left read⟩
    · obtain rfl := resolved.resolve_left read
      obtain ⟨cells', onward', same⟩ := answer.onward_of_lapsed lapsed
      obtain ⟨rfl, rfl, pending, rfl⟩ := onward.unique onward'
      exact answeredAlike_of_records kept fresh pending.symm records₁ records same

/-- One entry is handed out, and not acknowledged. -/
def unacknowledged : List Call :=
  [⟨⟨"q", ⟨.roundRobin, 20⟩⟩, .dequeue { group := 1, member := 0, groupSize := 1 } ⟨.roundRobin, 20⟩ .fresh
      (.upTo 10), .none⟩,
    ⟨⟨"q", ⟨.roundRobin, 20⟩⟩, .enqueue ⟨[97], {}⟩ 1, .none⟩]

/-- A load fails to look at the write pointer.  A fresh cursor is handed the entry once more, and the one
that is left is not. -/
theorem unacknowledged_forgotten :
    let q : Queue := ⟨"q", ⟨.roundRobin, 20⟩⟩
    let c : Consumer := { group := 1, member := 0, groupSize := 1 }
    let plan := FaultPlan.startingAt .increment 0
    let ask k := q.dequeue c ⟨.roundRobin, 20⟩ (.upTo 10)
      ⟨{ storageAfter (replay unacknowledged) with plan := .none }, k⟩
    ∃ e u, q.dequeue c ⟨.roundRobin, 20⟩ (.upTo 10)
        ⟨{ storageAfter (replay unacknowledged) with plan }, .fresh⟩ = .error e u ∧
      q.TakesUp 1 (ask .fresh) ∧ ¬ q.TakesUp 1 (ask u.cursor) := by
  intro q c plan ask
  have opens : q.Opens := rfl
  have run : Run Opened (replay unacknowledged) := .next (.next .start opens) opens
  have unanswered : (answer? (q.load c ⟨.roundRobin, 20⟩ (.upTo 10)
      ⟨{ storageAfter (replay unacknowledged) with plan }, .fresh⟩)).isNone = true := by
    with_unfolding_all decide
  obtain ⟨e, fails⟩ := error_of_answer? unanswered
  obtain ⟨stops, -, r, a, r', w, -, reads, -, -, stays, -⟩ :=
    failed_load_takes_up_iff run (List.suffix_refl _) opens rfl rfl rfl fails (.upTo 10)
  have active : storedId? (q.shows (storageAfter (replay unacknowledged)).table (.upTo 10)
      (Queue.consumerRow c) .active) = some 1 := by with_unfolding_all decide
  obtain rfl : 1 = a := Except.ok.inj ((q.decodeId_of_storedId? c active).symm.trans reads.active)
  have shown : q.sight (q.shows (storageAfter (replay unacknowledged)).table (.upTo 10)) 1 =
      .ok (.servable [97]) :=
    Queue.sight_servable_iff.2 ⟨by with_unfolding_all decide, by with_unfolding_all decide⟩
  obtain ⟨takes, kept⟩ := stays ⟨by decide, fun seen sight clears =>
    clears.1 _ (Except.ok.inj (sight.symm.trans shown))⟩
  refine ⟨e, _, stops, takes, fun taken => ?_⟩
  rcases kept.1 taken with ⟨_, _, unread⟩ | comes
  · have answered : (answer? (q.view .readConsumer (.upTo 10)
        { storageAfter (replay unacknowledged) with plan })).isSome = true := by
      with_unfolding_all decide
    rw [unread] at answered
    cases answered
  · -- The group has claimed the entry already.
    have claimed : (storageAfter (replay unacknowledged)).table.standing (q.seat c).groupRow = 1 := by
      with_unfolding_all decide
    rcases comes.ahead with ⟨hash, -⟩ | ⟨-, beyond⟩
    · cases hash
    · rw [claimed] at beyond
      exact absurd beyond (by decide)

end VersionedQueue
