import VersionedQueue.Proofs.Run.Opened
import VersionedQueue.Proofs.Run.Orderly
import VersionedQueue.Proofs.Storage.Unreliable

/-!
# What the cells of a consumer's row can hold

The cells of a consumer's row are written by the consumer's own calls, each with an id or with the
state of a claim.  So every version of every cell can be read, whichever calls failed.
-/

set_option autoImplicit false
set_option relaxedAutoImplicit false

namespace VersionedQueue

/-- Every version of every cell of a consumer's row has a value of which something holds. -/
def Table.Bears (t : Table) (seat : Seat) (holds : Column → Bytes → Prop) : Prop :=
  ∀ column : Column, column.InConsumerRow → ∀ v x,
    (t.history seat.row column.encode).at? v = some x → ∃ cell, x = some cell ∧ holds column cell

/-- Operations after which something still holds of the cells of a consumer's row. -/
def Storage.bearing (seat : Seat) (holds : Column → Bytes → Prop) : StateBound Storage where
  rel st st' := st.table.Bears seat holds → st'.table.Bears seat holds
  refl _ h := h
  trans first second h := second (first h)

/-- What a cell of a consumer's row means to its readers. -/
def Column.Legible : Column → Bytes → Prop
  | active, x | readPointer, x => x.toUInt64?.isSome = true
  | claim _, x => (ClaimState.decode? x).isSome = true
  | _, _ => False

namespace Table.Bears

variable {t t' : Table} {seat : Seat} {holds wider : Column → Bytes → Prop}

theorem start : (storageAfter []).table.Bears seat holds := by
  intro column own v x found
  simp [storageAfter, Table.history] at found

theorem of_history (h : t.Bears seat holds)
    (same : ∀ column, t'.history seat.row column = t.history seat.row column) :
    t'.Bears seat holds := by
  intro column own v x found
  rw [same] at found
  exact h column own v x found

theorem imp (h : t.Bears seat holds) (w : ∀ column x, holds column x → wider column x) :
    t.Bears seat wider := by
  intro column own v x found
  obtain ⟨cell, here, holds⟩ := h column own v x found
  exact ⟨cell, here, w column cell holds⟩

theorem record (h : t.Bears seat holds) {column : Column} {cell : Bytes} (own : column.InConsumerRow)
    (fits : holds column cell) (v : Version) :
    (t.record seat.row column.encode v (some cell)).Bears seat holds := by
  intro column' own' w x found
  rw [Table.history_record] at found
  split at found
  · rename_i here
    rw [History.at?_record] at found
    have same : column' = column := Column.encode_injective_of_consumer own' own here.2
    subst same
    split at found
    · exact ⟨cell, (Option.some.inj found).symm, fits⟩
    · exact h column' own' w x found
  · exact h column' own' w x found

theorem recordAll {cells : List (Column × Bytes)} (h : t.Bears seat holds)
    (fits : ∀ cell ∈ cells, cell.1.InConsumerRow ∧ holds cell.1 cell.2) (v : Version) :
    (t.recordAll seat.row (cells.map fun cell => (cell.1.encode, cell.2)) v).Bears seat holds := by
  induction cells generalizing t with
  | nil => exact h
  | cons cell cells ih =>
      obtain ⟨own, here⟩ := fits cell List.mem_cons_self
      exact ih (h.record own here v) fun other mem => fits other (List.mem_cons_of_mem cell mem)

theorem of_written {st st' : Storage} {cells : List (Column × Bytes)} {v : Version}
    (h : st.table.Bears seat holds) (wrote : st.Written seat cells v st')
    (fits : ∀ cell ∈ cells, cell.1.InConsumerRow ∧ holds cell.1 cell.2) :
    st'.table.Bears seat holds := by
  obtain ⟨t, same, table⟩ := wrote
  rw [table]
  exact (h.of_history fun column => same.history _ column).recordAll fits v

theorem stored (h : t.Bears seat holds) {column : Column} (own : column.InConsumerRow) {cell : Bytes}
    (found : t.stored seat column = some cell) : holds column cell := by
  obtain ⟨v, here⟩ := History.exists_at?_of_latest found
  obtain ⟨cell', same, fits⟩ := h column own v _ here
  cases same
  exact fits

theorem shown {q : Queue} {c : Consumer} {s : Snapshot} (h : t.Bears (q.seat c) holds) {column : Column}
    {cell : Bytes} (shows : q.shows t s (Queue.consumerRow c) column = some cell)
    (own : column.InConsumerRow) : holds column cell := by
  rcases (t.history (q.seat c).row column.encode).read_cases s with
    ⟨unread, _⟩ | ⟨v, x, _, here, _, found⟩
  · cases unread.symm.trans shows
  · obtain ⟨cell', same, fits⟩ := h column own v x here
    obtain rfl : cell' = cell := Option.some.inj ((same.symm.trans found.symm).trans shows)
    exact fits

theorem exists_claim {q : Queue} {c : Consumer} (h : t.Bears (q.seat c) Column.Legible) (s : Snapshot)
    (id : EntryId) :
    ∃ claim, q.decodeClaim c id (q.shows t s (Queue.consumerRow c) (.claim id)) = .ok claim := by
  cases shows : q.shows t s (Queue.consumerRow c) (.claim id) with
  | none => exact ⟨none, rfl⟩
  | some cell =>
      have legible : Column.Legible (.claim id) cell := h.shown shows trivial
      obtain ⟨state, decoded⟩ := Option.isSome_iff_exists.1 legible
      exact ⟨some state, by simp only [Queue.decodeClaim, decoded]⟩

theorem exists_holds (h : t.Bears seat Column.Legible) : ∃ a r, t.Holds seat a r := by
  have read (column : Column) (own : column.InConsumerRow)
      (legible : ∀ x, Column.Legible column x → x.toUInt64?.isSome = true) :
      ∃ id, storedId? (t.stored seat column) = some id := by
    cases found : t.stored seat column with
    | none => exact ⟨noEntry, rfl⟩
    | some cell => exact Option.isSome_iff_exists.1 (legible cell (h.stored own found))
  obtain ⟨a, active⟩ := read .active trivial fun _ legible => legible
  obtain ⟨r, readPointer⟩ := read .readPointer trivial fun _ legible => legible
  exact ⟨a, r, active, readPointer⟩

end Table.Bears

namespace Queue

open StateBound (keeps_pure keeps_throw keeps_ofExcept keeps_bind keeps_ite keeps_onTurns)

variable (q : Queue) (c : Consumer) (config : Config) (s : Snapshot) (seat : Seat)
  {holds : Column → Bytes → Prop}

theorem keeps_bearing_of_touched {α : Type} {rows : Bytes → Prop} {v : Version} {act : StorageM α}
    (h : (Storage.touched rows v).Keeps act) (out : ¬ rows seat.row) :
    (Storage.bearing seat holds).Keeps act := fun st bears =>
  bears.of_history ((h st).1.history _ out)

theorem keeps_bearing_put (purpose : Purpose) {cells : List (Column × Bytes)} (v : Version)
    (fits : ∀ cell ∈ cells, cell.1.InConsumerRow ∧ holds cell.1 cell.2) :
    (Storage.bearing (q.seat c) holds).Keeps (q.put purpose (consumerRow c) cells v) := by
  intro st bears
  have ends := @ends_put q st purpose (consumerRow c) cells v
  cases done : q.put purpose (consumerRow c) cells v st with
  | ok u st' =>
      have table := (ends.of_ok done).1
      change st'.table.Bears _ _
      rw [table]
      exact bears.recordAll fits v
  | error e st' => exact bears.of_history fun column => (ends.of_error done).2.1.history _ column

theorem keeps_bearing_dequeue
    (fits : ∀ column x, column.InConsumerRow → WellWritten (column, x) → holds column x) :
    (Storage.bearing (q.seat c) holds).onTurns.Keeps (q.dequeue c config s) := by
  have view (purpose : Purpose) : (Storage.bearing (q.seat c) holds).Keeps (q.view purpose s) :=
    keeps_bearing_of_touched (q.seat c) (@keeps_view (fun _ => False) 0 q s purpose) id
  have peek (purpose : Purpose) (key : RowKey) :
      (Storage.bearing (q.seat c) holds).Keeps (q.count purpose key 0) :=
    keeps_bearing_of_touched (q.seat c) (@keeps_count_zero (fun _ => False) 0 q purpose key) id
  have claim : (Storage.bearing (q.seat c) holds).Keeps (q.claimId c.group) := by
    have touched : (Storage.touched (· = (q.seat c).groupRow) 0).Keeps (q.claimId c.group) :=
      q.keeps_count (by rfl) _
    refine keeps_bearing_of_touched (q.seat c) touched fun same => ?_
    cases RowKey.encode_injective same
  refine (StateBound.admits view peek).dequeue c config (fun _ => trivial) (keeps_onTurns claim) ?_
  intro purpose cells written
  refine keeps_onTurns (q.keeps_bearing_put c purpose _ fun cell mem => ?_)
  have good := written cell mem
  have own : cell.1.InConsumerRow := by
    obtain ⟨column, x⟩ := cell
    cases column <;> simp_all [WellWritten, Column.InConsumerRow]
  exact ⟨own, fits cell.1 cell.2 own good⟩

theorem reopeningCells_bear {id : EntryId} (opened : holds (.claim id) ClaimState.claimed.encode)
    (active : holds .active (Bytes.ofUInt64 id)) :
    ∀ cell ∈ reopeningCells id, cell.1.InConsumerRow ∧ holds cell.1 cell.2 := by
  simp only [reopeningCells, List.mem_cons, List.not_mem_nil, or_false, forall_eq_or_imp, forall_eq]
  exact ⟨⟨trivial, opened⟩, trivial, active⟩

theorem ackingCells_bear {id : EntryId} (view : QueueView)
    (marked : holds (.claim id) ClaimState.acked.encode)
    (cleared : holds .active (Bytes.ofUInt64 noEntry)) :
    ∀ cell ∈ ackingCells c view id, cell.1.InConsumerRow ∧ holds cell.1 cell.2 := by
  intro cell mem
  rcases List.mem_cons.1 mem with rfl | mem
  · exact ⟨trivial, marked⟩
  · split at mem
    · rw [List.mem_singleton.1 mem]
      exact ⟨trivial, cleared⟩
    · cases mem

end Queue

namespace Event

variable {e : Event} {seat : Seat} {holds : Column → Bytes → Prop}

/-- What every version of every cell of a consumer's row bears, it bears after a call if what the call
writes does. -/
theorem bears (name : e.call.queue.name = seat.queue) (h : e.before.table.Bears seat holds)
    (handing : e.call.seat? = some seat → e.call.request.isDequeue = true →
      ∀ column x, column.InConsumerRow → WellWritten (column, x) → holds column x)
    (acking : ∀ id, e.ackedBy? seat = some id →
      holds (.claim id) ClaimState.acked.encode ∧ holds .active (Bytes.ofUInt64 noEntry))
    (back : e.call.seat? = some seat → ∀ p c s, e.call.request = .unack p c s →
      holds (.claim p.id) ClaimState.claimed.encode ∧ holds .active (Bytes.ofUInt64 p.id)) :
    e.after.table.Bears seat holds := by
  by_cases own : e.call.seat? = some seat
  · rcases Call.own_cases own with
      ⟨c, config, cursor, s, asked⟩ | ⟨p, c, s, asked⟩ | ⟨p, c, s, asked⟩
    · have here := Call.seat_eq own (by rw [asked]; rfl)
      subst here
      have kept := Call.rel_ofTurn (e.call.queue.keeps_bearing_dequeue c config s
        (handing own (by rw [asked]; rfl))) ⟨{ e.before with plan := e.call.plan }, cursor⟩
      have after : e.after = (Outcome.ofTurn (e.call.queue.dequeue c config s
          ⟨{ e.before with plan := e.call.plan }, cursor⟩)).storage := by
        simp only [Event.after, outcome, Call.perform, asked]
      rw [after]
      exact kept h
    · have here := Call.seat_eq own (by rw [asked]; rfl)
      subst here
      have ends := @Queue.ends_ack e.call.queue c s { e.before with plan := e.call.plan } p
      cases done : e.call.queue.ack p c s { e.before with plan := e.call.plan } with
      | ok u st =>
          obtain ⟨acked, after⟩ := ackedBy?_of_ack own asked done
          obtain ⟨marked, cleared⟩ := acking _ acked
          rw [after]
          exact h.of_written (ends.of_ok done).1 (Queue.ackingCells_bear c _ marked cleared)
      | error err st =>
          have refused : e.ackedBy? (e.call.queue.seat c) = none ∧ e.after = st :=
            ackedBy?_of_refused asked done
          rw [refused.2]
          exact h.of_history fun column => (ends.of_error done).1.1.history _ column
    · have here := Call.seat_eq own (by rw [asked]; rfl)
      subst here
      obtain ⟨opened, active⟩ := back own p c s asked
      have ends := @Queue.ends_unack e.call.queue c s { e.before with plan := e.call.plan } p
      have after : e.after = (Outcome.ofStorage .unacked
          (e.call.queue.unack p c s { e.before with plan := e.call.plan })).storage := by
        simp only [Event.after, outcome, Call.perform, asked]
      rw [after]
      cases done : e.call.queue.unack p c s { e.before with plan := e.call.plan } with
      | ok warnings st =>
          obtain ⟨_, _, _, ⟨_, _, same⟩ | ⟨_, _, wrote⟩⟩ := ends.of_ok done
          · exact h.of_history fun column => same.1.history _ column
          · exact h.of_written wrote (Queue.reopeningCells_bear opened active)
      | error err st => exact h.of_history fun column => (ends.of_error done).1.history _ column
  · exact h.of_history fun column => history_row name own column

theorem legible (name : e.call.queue.name = seat.queue)
    (h : e.before.table.Bears seat Column.Legible) : e.after.table.Bears seat Column.Legible := by
  have numbered (id : EntryId) : Column.Legible .active (Bytes.ofUInt64 id) := by
    simp [Column.Legible]
  have claim (id : EntryId) (state : ClaimState) : Column.Legible (.claim id) state.encode := by
    simp [Column.Legible]
  refine bears name h (fun _ _ column x own written => ?_)
    (fun id _ => ⟨claim id .acked, numbered noEntry⟩) fun _ p _ _ _ =>
      ⟨claim p.id .claimed, numbered p.id⟩
  cases column with
  | active => exact written
  | readPointer => exact written
  | claim id =>
      rw [show x = ClaimState.claimed.encode from written]
      exact claim id .claimed
  | counter => cases own
  | state => cases own
  | payload => cases own
  | header key => cases own

end Event

/-- After every run each version of each cell of a consumer's row can be read. -/
theorem OneQueue.legible {past : List Event} {seat : Seat} (run : Run (OneQueue seat.queue) past) :
    (storageAfter past).table.Bears seat Column.Legible := by
  induction run with
  | start => exact .start
  | @next past call _ name ih => exact Event.legible (e := ⟨call, storageAfter past⟩) name ih

theorem legible_of_run {past : List Event} {seat : Seat} (run : Run (Sound seat.queue) past) :
    (storageAfter past).table.Bears seat Column.Legible := OneQueue.legible run.oneQueue

theorem Opened.legible {past : List Event} {seat : Seat} (run : Run Opened past)
    (short : ShortName seat.queue) : (storageAfter past).table.Bears seat Column.Legible := by
  induction run with
  | start => exact .start
  | @next past call _ opens ih =>
      by_cases name : call.queue.name = seat.queue
      · exact Event.legible (e := ⟨call, storageAfter past⟩) name ih
      · exact ih.of_history (@Event.history_kept ⟨call, storageAfter past⟩ _
          (.consumer seat.group seat.member) opens short fun same => absurd same name)

end VersionedQueue
