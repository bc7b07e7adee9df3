import VersionedQueue.Proofs.Run.Footprint
import VersionedQueue.Proofs.Storage.Coupled

/-!
# What a call depends on

A call is answered from few rows: an append from the counter of entries, a retirement from the row of its
entry, a request of a consumer from its own row, and a request for an entry from the entries and their
counter, too.  Only a member of a shared group looks at the pointer of its group.  On tables that agree
on these rows a call is answered in the same way, and the tables agree afterwards wherever they did
before.
-/

set_option autoImplicit false
set_option relaxedAutoImplicit false

namespace VersionedQueue

variable {rows : Bytes → Prop} {α β : Type}

/-- Two tables agree on some rows. -/
structure Table.AgreeOn (rows : Bytes → Prop) (t t' : Table) : Prop where
  history : ∀ row, rows row → ∀ column, t'.history row column = t.history row column
  counter : ∀ row, rows row → ∀ column, t'.counter row column = t.counter row column
  refuses : t'.refusesIncrements = t.refusesIncrements

namespace Table.AgreeOn

variable {t t' t'' : Table}

theorem refl (rows : Bytes → Prop) (t : Table) : t.AgreeOn rows t :=
  ⟨fun _ _ _ => rfl, fun _ _ _ => rfl, rfl⟩

theorem symm (h : t.AgreeOn rows t') : t'.AgreeOn rows t where
  history row inside column := (h.history row inside column).symm
  counter row inside column := (h.counter row inside column).symm
  refuses := h.refuses.symm

theorem trans (first : t.AgreeOn rows t') (second : t'.AgreeOn rows t'') : t.AgreeOn rows t'' where
  history row inside column :=
    (second.history row inside column).trans (first.history row inside column)
  counter row inside column :=
    (second.counter row inside column).trans (first.counter row inside column)
  refuses := second.refuses.trans first.refuses

theorem of_touched {touched : Bytes → Prop} {v : Version} (h : t.Touched touched v t')
    (out : ∀ row, rows row → ¬ touched row) : t.AgreeOn rows t' where
  history row inside column := h.history row (out row inside) column
  counter row inside column := h.counter row (out row inside) column
  refuses := h.refuses

theorem of_alike (h : t.Alike t') : t.AgreeOn rows t' where
  history row _ column := h.history row column
  counter row _ column := h.counter row column
  refuses := h.refuses

theorem record (h : t.AgreeOn rows t') (row column : Bytes) (v : Version) (x : Option Bytes) :
    (t.record row column v x).AgreeOn rows (t'.record row column v x) where
  history r inside c := by
    rw [history_record, history_record]
    split
    · rename_i same
      obtain ⟨rfl, rfl⟩ := same
      rw [h.history r inside]
    · exact h.history r inside c
  counter r inside c := h.counter r inside c
  refuses := h.refuses

theorem recordAll (h : t.AgreeOn rows t') (row : Bytes) (v : Version)
    (cells : List (Bytes × Bytes)) :
    (t.recordAll row cells v).AgreeOn rows (t'.recordAll row cells v) := by
  induction cells generalizing t t' with
  | nil => exact h
  | cons cell cells ih => exact ih (h.record row cell.1 v (some cell.2))

theorem setCounter (h : t.AgreeOn rows t') (row column : Bytes) (value : Int64) :
    (t.setCounter row column value).AgreeOn rows (t'.setCounter row column value) where
  history r inside c := h.history r inside c
  counter r inside c := by rw [counter_setCounter, counter_setCounter, h.counter r inside]
  refuses := h.refuses

end Table.AgreeOn

/-- The tables agree on some rows, and no call is made to fail. -/
def Storage.AgreeOn (rows : Bytes → Prop) (st st' : Storage) : Prop :=
  st.table.AgreeOn rows st'.table ∧ st.plan = .none ∧ st'.plan = .none

/-- The tables agree on some rows, the cursor is the same, and no call is made to fail. -/
def Turn.AgreeOn (rows : Bytes → Prop) (t t' : Turn) : Prop :=
  t.storage.AgreeOn rows t'.storage ∧ t'.cursor = t.cursor

theorem Storage.AgreeOn.of_alike {st st' u u' : Storage} (h : st.AgreeOn rows st')
    (kept : st.Alike u) (kept' : st'.Alike u') : u.AgreeOn rows u' :=
  ⟨((Table.AgreeOn.of_alike kept.1).symm.trans h.1).trans (.of_alike kept'.1),
    kept.2.trans h.2.1, kept'.2.trans h.2.2⟩

theorem Storage.coupled_call (purpose : Purpose) (kind : Access)
    {act : TableM α} (confined : Coupled (Table.AgreeOn rows) act) :
    Coupled (Storage.AgreeOn rows) (Storage.call purpose kind act) := by
  rintro st st' ⟨agree, calm, calm'⟩
  simp only [call, calm, calm', FaultPlan.none]
  have ends := confined agree
  cases done : act st.table with
  | ok a u =>
      rw [done] at ends
      obtain ⟨u', done', agree'⟩ := ends.of_ok
      rw [done']
      exact .ok ⟨agree', rfl, rfl⟩
  | error e u =>
      rw [done] at ends
      obtain ⟨u', done', agree'⟩ := ends.of_error
      rw [done']
      exact .error ⟨agree', rfl, rfl⟩

theorem Turn.coupled_onStorage {act : StorageM α} (h : Coupled (Storage.AgreeOn rows) act) :
    Coupled (Turn.AgreeOn rows) (Turn.onStorage act) := by
  rintro ⟨st, cursor⟩ ⟨st', _⟩ ⟨agree, rfl⟩
  have ends := h agree
  simp only [onStorage]
  cases done : act st with
  | ok a u =>
      rw [done] at ends
      obtain ⟨u', done', agree'⟩ := ends.of_ok
      rw [done']
      exact .ok ⟨agree', rfl⟩
  | error e u =>
      rw [done] at ends
      obtain ⟨u', done', agree'⟩ := ends.of_error
      rw [done']
      exact .error ⟨agree', rfl⟩

namespace Queue

variable (q : Queue) (c : Consumer) (config : Config) (s : Snapshot)

/-- Two views of the queue agree on some rows. -/
def ViewsAgreeOn (rows : Bytes → Prop) (view view' : QueueView) : Prop :=
  ∀ key : RowKey, rows (key.encode q.name) → ∀ column, view' key column = view key column

private theorem viewsAgreeOn_shows {t t' : Table} (agree : t.AgreeOn rows t') :
    q.ViewsAgreeOn rows (q.shows t s) (q.shows t' s) := fun key inside column => by
  simp only [shows, Table.read, agree.history _ inside]

theorem coupled_view (purpose : Purpose) {next : QueueView → StorageM α}
    (same : ∀ view view', q.ViewsAgreeOn rows view view' → next view' = next view)
    (each : ∀ view, Coupled (Storage.AgreeOn rows) (next view)) :
    Coupled (Storage.AgreeOn rows) (q.view purpose s >>= next) := by
  intro st st' agree
  obtain ⟨_, u, done, rfl, kept⟩ := q.answers_view_of_calm purpose s agree.2.1
  obtain ⟨_, u', done', rfl, kept'⟩ := q.answers_view_of_calm purpose s agree.2.2
  rw [bind_eq_of_ok done, bind_eq_of_ok done', same _ _ (q.viewsAgreeOn_shows s agree.1)]
  exact each _ (agree.of_alike kept kept')

theorem coupled_turn_view (purpose : Purpose) {next : QueueView → TurnM α}
    (same : ∀ view view', q.ViewsAgreeOn rows view view' → next view' = next view)
    (each : ∀ view, Coupled (Turn.AgreeOn rows) (next view)) :
    Coupled (Turn.AgreeOn rows) (Turn.onStorage (q.view purpose s) >>= next) := by
  rintro t t' ⟨agree, cursors⟩
  obtain ⟨_, u, done, ⟨rfl, kept⟩, cursor⟩ :=
    Turn.answers_onStorage (q.answers_view_of_calm purpose s agree.2.1)
  obtain ⟨_, u', done', ⟨rfl, kept'⟩, cursor'⟩ :=
    Turn.answers_onStorage (q.answers_view_of_calm purpose s agree.2.2)
  rw [bind_eq_of_ok done, bind_eq_of_ok done', same _ _ (q.viewsAgreeOn_shows s agree.1)]
  exact each _ ⟨agree.of_alike kept kept', by rw [← cursor, ← cursor', cursors]⟩

theorem coupled_put (purpose : Purpose) (key : RowKey) (cells : List (Column × Bytes))
    (v : Version) : Coupled (Storage.AgreeOn rows) (q.put purpose key cells v) :=
  Storage.coupled_call _ _ (TableM.coupled_put (·.recordAll _ _ _))

theorem coupled_delete (purpose : Purpose) (key : RowKey) (column : Column) (v : Version) :
    Coupled (Storage.AgreeOn rows) (q.delete purpose key column v) :=
  Storage.coupled_call _ _ (TableM.coupled_delete (·.record _ _ _ _))

theorem coupled_count {key : RowKey} (inside : rows (key.encode q.name)) (purpose : Purpose)
    (delta : Int64) : Coupled (Storage.AgreeOn rows) (q.count purpose key delta) := by
  refine Coupled.bind (Storage.coupled_call _ _ (TableM.coupled_increment (·.refuses)
    (·.counter _ inside _) (·.setCounter _ _))) fun value => ?_
  cases counterId? value with
  | none => exact .throw _
  | some id => exact .pure _

theorem coupled_enqueue (counter : rows (RowKey.entryCounter.encode q.name)) (entry : Entry)
    (v : Version) : Coupled (Storage.AgreeOn rows) (q.enqueue entry v) := by
  unfold enqueue
  cases entry.partitioning.headerCells with
  | error rejection => exact .throw _
  | ok headers =>
      exact (q.coupled_count counter _ _).bind fun id => (q.coupled_put _ _ _ _).bind fun _ => .pure _

theorem coupled_invalidate {p : Pointer} (inside : rows ((RowKey.entry p.id).encode q.name))
    (v : Version) : Coupled (Storage.AgreeOn rows) (q.invalidate p v) := by
  refine (Coupled.ofExcept _).bind fun _ => Coupled.bind ?_ fun current => ?_
  · refine q.coupled_view _ _ (fun view view' agree => by rw [agree _ inside]) fun view => ?_
    cases view (.entry p.id) .state with
    | none => exact .pure _
    | some cell => exact (Coupled.ofExcept _).bind fun _ => .pure _
  · exact .ite ((q.coupled_put _ _ _ _).bind fun _ => q.coupled_delete _ _ _ _) (.pure _)

section OwnRow

variable (own : rows ((consumerRow c).encode q.name))

include own

theorem coupled_ack (p : Pointer) : Coupled (Storage.AgreeOn rows) (q.ack p c s) := by
  refine (Coupled.ofExcept _).bind fun _ => ?_
  refine q.coupled_view _ _ (fun view view' agree => by simp only [agree _ own]) fun view => ?_
  refine (Coupled.ofExcept _).bind fun claim => ?_
  cases (AckDecision.check (q.configFor c).partitioner.isDisjoint claim).refusal? with
  | some reason => exact .throw _
  | none => exact q.coupled_put _ _ _ _

theorem coupled_unack (p : Pointer) : Coupled (Storage.AgreeOn rows) (q.unack p c s) := by
  refine (Coupled.ofExcept _).bind fun _ => ?_
  refine q.coupled_view _ _ (fun view view' agree => by simp only [agree _ own]) fun view => ?_
  refine (Coupled.ofExcept _).bind fun claim => ?_
  exact .ite (.pure _) ((q.coupled_put _ _ _ _).bind fun _ => .pure _)

variable (entries : ∀ id, rows ((RowKey.entry id).encode q.name))
  (counter : rows (RowKey.entryCounter.encode q.name))

include entries counter

theorem couples_agreeOn : Couples (Turn.AgreeOn rows) q c s where
  cursor related := by rw [related.2]
  update _ := fun _ _ related => .ok ⟨related.1, by rw [related.2]⟩
  reset _ := fun _ _ related => .ok ⟨related.1, rfl⟩
  refresh := (Turn.coupled_onStorage (q.coupled_count counter _ _)).bind fun _ =>
    fun _ _ related => .ok ⟨related.1, by rw [related.2]⟩
  view purpose _ same each := q.coupled_turn_view s purpose
    (fun view view' agree => same view view' ⟨agree _ own, fun id => agree _ (entries id)⟩) each
  put _ _ := Turn.coupled_onStorage (q.coupled_put _ _ _ _)

/-- A request for an entry is answered from the consumer's own row and the entries, and under the shared
pointer of a group from that pointer. -/
theorem coupled_dequeue
    (shared : config.partitioner = .roundRobin → rows ((RowKey.groupPointer c.group).encode q.name)) :
    Coupled (Turn.AgreeOn rows) (q.dequeue c config s) := by
  have couples := q.couples_agreeOn c s own entries counter
  have same {t t' : Turn} (related : Turn.AgreeOn rows t t') : t'.cursor = t.cursor := related.2
  refine couples.dequeue config ?_
  unfold fetch
  cases partitioner : config.partitioner with
  | hash => exact couples.fetchDisjoint config same
  | roundRobin =>
      have inside := shared partitioner
      exact couples.fetchShared same (Turn.coupled_onStorage (q.coupled_count inside _ _))
        (Turn.coupled_onStorage (q.coupled_count inside _ _))

end OwnRow

end Queue

/-- The rows of its queue that a request is answered from. -/
def Request.Uses : Request → RowKey → Prop
  | enqueue _ _, key | info, key => key = .entryCounter
  | invalidate p _, key => key = .entry p.id
  | dequeue c config _ _, key =>
      key = Queue.consumerRow c ∨ key = .entryCounter ∨ (∃ id, key = .entry id) ∨
        config.partitioner = .roundRobin ∧ key = .groupPointer c.group
  | ack _ c _, key | unack _ c _, key => key = Queue.consumerRow c
  | allocateGroupId, key => key = .groupCounter

theorem Request.uses_of_aside {request : Request} {key : RowKey} (aside : request.consumer? = none)
    (uses : request.Uses key) : key = .entryCounter ∨ key = .groupCounter ∨ ∃ id, key = .entry id := by
  cases request with
  | enqueue entry v => exact .inl uses
  | invalidate p v => exact .inr (.inr ⟨p.id, uses⟩)
  | allocateGroupId => exact .inr (.inl uses)
  | info => exact .inl uses
  | _ => cases aside

/-- Two calls ended in the same way, on tables that agree on some rows. -/
structure Outcome.AgreeOn (rows : Bytes → Prop) (o o' : Outcome) : Prop where
  answer : o'.answer = o.answer
  cursor : o'.cursor = o.cursor
  table : o.storage.table.AgreeOn rows o'.storage.table

namespace Outcome.AgreeOn

theorem ofStorage {wrap : α → Answer} {r r' : EStateM.Result QueueError Storage α}
    (paired : Paired (Storage.AgreeOn rows) r r') :
    Outcome.AgreeOn rows (Outcome.ofStorage wrap r) (Outcome.ofStorage wrap r') := by
  cases paired with
  | ok related => exact ⟨rfl, rfl, related.1⟩
  | error related => exact ⟨rfl, rfl, related.1⟩

theorem ofTurn {r r' : EStateM.Result QueueError Turn Delivery}
    (paired : Paired (Turn.AgreeOn rows) r r') :
    Outcome.AgreeOn rows (Outcome.ofTurn r) (Outcome.ofTurn r') := by
  cases paired with
  | ok related => exact ⟨rfl, related.2, related.1.1⟩
  | error related => exact ⟨rfl, related.2, related.1.1⟩

end Outcome.AgreeOn

/-- On tables that agree on the rows that a call is answered from, the call ends in the same way, and
leaves tables that agree on the same rows. -/
theorem Call.agreeOn_perform {call : Call} {st st' : Storage} (calm : call.plan = .none)
    (uses : ∀ key, call.request.Uses key → rows (key.encode call.queue.name))
    (agree : st.table.AgreeOn rows st'.table) :
    Outcome.AgreeOn rows (call.perform st) (call.perform st') := by
  obtain ⟨q, request, plan⟩ := call
  subst calm
  have start : Storage.AgreeOn rows { st with plan := .none } { st' with plan := .none } :=
    ⟨agree, rfl, rfl⟩
  cases request with
  | enqueue entry v => exact .ofStorage (q.coupled_enqueue (uses _ rfl) entry v start)
  | invalidate p v => exact .ofStorage (q.coupled_invalidate (uses _ rfl) v start)
  | dequeue c config cursor s =>
      have own := uses (Queue.consumerRow c) (.inl rfl)
      have counter := uses .entryCounter (.inr (.inl rfl))
      have entries := fun id => uses (.entry id) (.inr (.inr (.inl ⟨id, rfl⟩)))
      have shared := fun partitioner => uses (.groupPointer c.group)
        (.inr (.inr (.inr ⟨partitioner, rfl⟩)))
      exact .ofTurn (q.coupled_dequeue c config s own entries counter shared ⟨start, rfl⟩)
  | ack p c s => exact .ofStorage (q.coupled_ack c s (uses _ rfl) p start)
  | unack p c s => exact .ofStorage (q.coupled_unack c s (uses _ rfl) p start)
  | allocateGroupId => exact .ofStorage (q.coupled_count (uses _ rfl) _ _ start)
  | info =>
      exact .ofStorage (((q.coupled_count (uses _ rfl) _ _).bind fun _ => .pure _) start)

end VersionedQueue
