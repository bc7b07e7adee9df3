import VersionedQueue.Proofs.Entries.Effects

/-!
# What is stored of entries

After a run in which no retirement meets failing storage, the rows of entries hold what was appended
and what was retired, each at its version, and nothing else.  This is an invariant of every
step, and it is all that consumers rely on about entries.
-/

set_option autoImplicit false
set_option relaxedAutoImplicit false

namespace VersionedQueue

/-- All calls go to one queue, and storage works except for producers. -/
def Steady (queue : String) (_past : List Event) (call : Call) : Prop :=
  call.queue.name = queue ∧ (call.request.isEnqueue = true ∨ call.plan = .none)

/-- All calls go to one queue, and storage works for retirements. -/
def Sound (queue : String) (_past : List Event) (call : Call) : Prop :=
  call.queue.name = queue ∧ (call.request.isInvalidate = true → call.plan = .none)

theorem Steady.sound {queue : String} {past : List Event} {call : Call}
    (h : Steady queue past call) : Sound queue past call := by
  obtain ⟨name, calm⟩ := h
  refine ⟨name, fun retires => calm.resolve_left fun appends => ?_⟩
  cases asked : call.request <;> simp_all [Request.isInvalidate, Request.isEnqueue]

theorem Run.sound {queue : String} {past : List Event} (run : Run (Steady queue) past) :
    Run (Sound queue) past := run.mono fun _ _ _ steady => steady.sound

theorem Run.oneQueue {queue : String} {past : List Event} (run : Run (Sound queue) past) :
    Run (OneQueue queue) past := run.mono fun _ _ _ sound => sound.1

section Past

variable (past : List Event) (p : Pointer) (known : Version → Prop)

/-- Something was written about an entry at a version that is known. -/
def ShownAt : Prop := ∃ v, known v ∧ ((∃ entry, Enqueued past p entry v) ∨ Invalidated past p v)

/-- An entry was retired at a version that is known. -/
def RetiredAt : Prop := ∃ v, known v ∧ Invalidated past p v

end Past

section Cons

variable {past : List Event} {e : Event} {p : Pointer} {entry : Entry} {v : Version}

theorem enqueued_cons :
    Enqueued (e :: past) p entry v ↔ e.Appends p entry v ∨ Enqueued past p entry v := by
  simp [Enqueued]

theorem invalidated_cons :
    Invalidated (e :: past) p v ↔ e.Retires p v ∨ Invalidated past p v := by
  simp [Invalidated]

theorem Enqueued.cons (h : Enqueued past p entry v) : Enqueued (e :: past) p entry v :=
  enqueued_cons.2 (.inr h)

theorem Enqueued.mono {later : List Event} (h : Enqueued past p entry v) (part : past <:+ later) :
    Enqueued later p entry v := by
  obtain ⟨e, mem, appends⟩ := h
  exact ⟨e, part.subset mem, appends⟩

theorem Invalidated.mono {later : List Event} (h : Invalidated past p v) (part : past <:+ later) :
    Invalidated later p v := by
  obtain ⟨e, mem, retires⟩ := h
  exact ⟨e, part.subset mem, retires⟩

theorem enqueued_of_quiet {newer : List Event} (quiet : ∀ f ∈ newer, f.call.request.isEnqueue = false)
    (silent : e.call.request.isEnqueue = false) (h : Enqueued (newer ++ e :: past) p entry v) :
    Enqueued past p entry v := by
  obtain ⟨f, mem, asked, answered⟩ := h
  have before : f.call.request.isEnqueue = true := by rw [asked]; rfl
  rcases List.mem_append.1 mem with recent | older
  · simp [quiet f recent] at before
  · rcases List.mem_cons.1 older with rfl | older
    · simp [silent] at before
    · exact ⟨f, older, asked, answered⟩

theorem ShownAt.mono {later : List Event} {known wider : Version → Prop} (h : ShownAt past p known)
    (part : past <:+ later) (more : ∀ v, known v → wider v) : ShownAt later p wider := by
  obtain ⟨v, seen, ⟨entry, written⟩ | written⟩ := h
  · exact ⟨v, more v seen, .inl ⟨entry, written.mono part⟩⟩
  · exact ⟨v, more v seen, .inr (written.mono part)⟩

theorem RetiredAt.mono {later : List Event} {known wider : Version → Prop}
    (h : RetiredAt past p known) (part : past <:+ later) (more : ∀ v, known v → wider v) :
    RetiredAt later p wider := by
  obtain ⟨v, seen, written⟩ := h
  exact ⟨v, more v seen, written.mono part⟩

end Cons

/-- The cells for the hashes of an entry hold those of its appends, and nothing else. -/
def Table.HoldsHashes (t : Table) (past : List Event) (p : Pointer) : Prop :=
  ∀ key v x, (t.cell p.queue (.entry p.id) (.header key)).at? v = some x ↔
    ∃ entry hash, Enqueued past p entry v ∧ entry.partitioning[key]? = some hash ∧
      x = some (Bytes.ofInt32 hash)

theorem Table.HoldsHashes.of_append {past later : List Event} {p : Pointer} {entry : Entry}
    {v : Version} {t t' : Table} (h : t.HoldsHashes past p)
    (fresh : ∀ entry w, ¬ Enqueued past p entry w)
    (written : Table.Appended p.queue p.id entry v t t')
    (enqueued : ∀ entry' w, Enqueued later p entry' w ↔ entry' = entry ∧ w = v) :
    t'.HoldsHashes later p := by
  intro key w x
  have unwritten : ∀ w, (t.cell p.queue (.entry p.id) (.header key)).at? w = none := by
    intro w
    cases found : (t.cell p.queue (.entry p.id) (.header key)).at? w with
    | none => rfl
    | some y =>
        obtain ⟨entry', _, known, _⟩ := (h key w y).1 found
        exact absurd known (fresh _ _)
  rw [written.at?_header unwritten]
  simp only [enqueued]
  constructor
  · rintro ⟨now, hash, carried, value⟩
    exact ⟨entry, hash, ⟨rfl, now⟩, carried, value⟩
  · rintro ⟨_, hash, ⟨rfl, now⟩, carried, value⟩
    exact ⟨now, hash, carried, value⟩

/-- The row of one entry holds what a run has appended and retired. -/
structure StoredEntry (queue : String) (past : List Event) (id : EntryId) (t : Table) : Prop where
  /-- A state is that of an append or of a retirement; with the former there is a payload. -/
  state_at : ∀ v x, (t.cell queue (.entry id) .state).at? v = some x →
    (∃ entry, x = some EntryState.valid.encode ∧ Enqueued past ⟨queue, id⟩ entry v ∧
      (t.cell queue (.entry id) .payload).at? v = some (some entry.payload)) ∨
    (x = some EntryState.invalid.encode ∧ Invalidated past ⟨queue, id⟩ v)
  state_has : ∀ v, (∃ entry, Enqueued past ⟨queue, id⟩ entry v) ∨ Invalidated past ⟨queue, id⟩ v →
    (t.cell queue (.entry id) .state).Has v
  payload_has : ∀ v, (t.cell queue (.entry id) .payload).Has v →
    (t.cell queue (.entry id) .state).Has v
  header_at : ∀ key v x, (t.cell queue (.entry id) (.header key)).at? v = some x ↔
    ∃ entry hash, Enqueued past ⟨queue, id⟩ entry v ∧ entry.partitioning[key]? = some hash ∧
      x = some (Bytes.ofInt32 hash)

namespace StoredEntry

variable {queue : String} {past later : List Event} {id : EntryId} {t t' : Table} {entry : Entry}
  {v : Version}

theorem start : StoredEntry queue [] id {} where
  state_at v x h := by simp [Table.cell, Table.history] at h
  state_has v h := by
    rcases h with ⟨_, _, mem, _⟩ | ⟨_, mem, _⟩ <;> cases mem
  payload_has v h := by simp [Table.cell, Table.history, History.Has] at h
  header_at key v x := by
    constructor
    · intro h
      simp [Table.cell, Table.history] at h
    · rintro ⟨_, _, ⟨_, mem, _⟩, _⟩
      cases mem

theorem of_same (h : StoredEntry queue past id t)
    (cells : ∀ column, t'.cell queue (.entry id) column = t.cell queue (.entry id) column)
    (enqueued : ∀ entry v, Enqueued later ⟨queue, id⟩ entry v ↔ Enqueued past ⟨queue, id⟩ entry v)
    (invalidated : ∀ v, Invalidated later ⟨queue, id⟩ v ↔ Invalidated past ⟨queue, id⟩ v) :
    StoredEntry queue later id t' where
  state_at v x found := by
    simp only [cells, enqueued, invalidated] at found ⊢
    exact h.state_at v x found
  state_has v written := by
    simp only [cells, enqueued, invalidated] at written ⊢
    exact h.state_has v written
  payload_has v has := by
    simp only [cells] at has ⊢
    exact h.payload_has v has
  header_at key v x := by
    simp only [cells, enqueued]
    exact h.header_at key v x

theorem of_append (h : StoredEntry queue past id t)
    (fresh : ∀ entry w, ¬ Enqueued past ⟨queue, id⟩ entry w)
    (written : Table.Appended queue id entry v t t')
    (enqueued : ∀ entry' w, Enqueued later ⟨queue, id⟩ entry' w ↔ entry' = entry ∧ w = v)
    (invalidated : ∀ w, Invalidated later ⟨queue, id⟩ w ↔ Invalidated past ⟨queue, id⟩ w) :
    StoredEntry queue later id t' where
  state_at w x found := by
    simp only [enqueued, invalidated]
    rw [written.state, History.at?_record] at found
    rw [written.payload, History.at?_record]
    by_cases now : v = w
    · simp only [now, if_true] at found ⊢
      exact .inl ⟨entry, (Option.some.inj found).symm, by simp, rfl⟩
    · simp only [now, if_false] at found
      rcases h.state_at w x found with ⟨entry', _, known, _⟩ | retired
      · exact absurd known (fresh _ _)
      · exact .inr retired
  state_has w known := by
    simp only [enqueued, invalidated] at known
    rw [written.state, History.has_record]
    rcases known with ⟨_, _, rfl⟩ | known
    · exact .inl rfl
    · exact .inr (h.state_has w (.inr known))
  payload_has w has := by
    rw [written.payload, History.has_record] at has
    rw [written.state, History.has_record]
    exact has.imp_right (h.payload_has w)
  header_at :=
    @Table.HoldsHashes.of_append past later ⟨queue, id⟩ entry v t t' h.header_at fresh written enqueued

theorem of_retirement (h : StoredEntry queue past id t) (written : Table.RowRetired queue id v t t')
    (enqueued : ∀ entry w, Enqueued later ⟨queue, id⟩ entry w ↔ Enqueued past ⟨queue, id⟩ entry w)
    (invalidated : ∀ w, Invalidated later ⟨queue, id⟩ w ↔
      w = v ∨ Invalidated past ⟨queue, id⟩ w) : StoredEntry queue later id t' where
  state_at w x found := by
    simp only [enqueued, invalidated]
    rw [written.state, History.at?_record] at found
    rw [written.payload, History.at?_record]
    by_cases now : v = w
    · simp only [now, if_true] at found
      exact .inr ⟨(Option.some.inj found).symm, .inl now.symm⟩
    · simp only [now, if_false] at found ⊢
      exact (h.state_at w x found).imp_right (.imp_right .inr)
  state_has w known := by
    simp only [enqueued, invalidated] at known
    rw [written.state, History.has_record]
    rcases known with known | rfl | known
    · exact .inr (h.state_has w (.inl known))
    · exact .inl rfl
    · exact .inr (h.state_has w (.inr known))
  payload_has w has := by
    rw [written.payload, History.has_record] at has
    rw [written.state, History.has_record]
    exact has.imp_right (h.payload_has w)
  header_at key w x := by
    simp only [enqueued, written.header]
    exact h.header_at key w x

end StoredEntry

/-- The rows of entries hold what a run has appended and retired. -/
structure Stored (queue : String) (past : List Event) (t : Table) : Prop where
  works : t.refusesIncrements = false
  counted : 0 ≤ t.standing (RowKey.entryCounter.encode queue)
  allocated : ∀ p entry v, Enqueued past p entry v → p.queue = queue ∧ 0 < p.id.toNat ∧
    (p.id.toNat : Int) ≤ t.standing (RowKey.entryCounter.encode queue)
  once : ∀ p entry entry' v v', Enqueued past p entry v → Enqueued past p entry' v' →
    entry = entry' ∧ v = v'
  row : ∀ id, StoredEntry queue past id t

namespace Stored

variable {queue : String} {past : List Event} {t t' : Table}

theorem start : Stored queue [] {} where
  works := rfl
  counted := Int.le_refl _
  allocated _ _ _ h := by
    obtain ⟨_, mem, _⟩ := h
    cases mem
  once _ _ _ _ _ h := by
    obtain ⟨_, mem, _⟩ := h
    cases mem
  row _ := .start

theorem of_same {later : List Event} (h : Stored queue past t)
    (works : t'.refusesIncrements = t.refusesIncrements)
    (cells : ∀ id column, t'.cell queue (.entry id) column = t.cell queue (.entry id) column)
    (forward : t.standing (RowKey.entryCounter.encode queue) ≤
      t'.standing (RowKey.entryCounter.encode queue))
    (enqueued : ∀ p entry v, Enqueued later p entry v ↔ Enqueued past p entry v)
    (invalidated : ∀ p v, Invalidated later p v ↔ Invalidated past p v) :
    Stored queue later t' where
  works := works.trans h.works
  counted := Int.le_trans h.counted forward
  allocated p entry v known := by
    obtain ⟨name, positive, below⟩ := h.allocated p entry v ((enqueued _ _ _).1 known)
    exact ⟨name, positive, Int.le_trans below forward⟩
  once p entry entry' v v' known known' :=
    h.once p entry entry' v v' ((enqueued _ _ _).1 known) ((enqueued _ _ _).1 known')
  row id := (h.row id).of_same (cells id) (enqueued _) (invalidated _)

theorem of_alike (h : Stored queue past t) (same : t.Alike t') : Stored queue past t' :=
  h.of_same same.refuses (fun _ _ => same.history _ _) (Int.le_of_eq (same.standing _).symm)
    (fun _ _ _ => Iff.rfl) fun _ _ => Iff.rfl

theorem highest (h : Stored queue past t) : ∃ w : EntryId,
    (w.toNat : Int) = t.standing (RowKey.entryCounter.encode queue) :=
  Table.exists_id_of_standing h.counted

private theorem rowKey_ne {id id' : EntryId} (here : ¬ id' = id) :
    RowKey.entry id' ≠ RowKey.entry id := fun same => here (RowKey.entry.inj same)

theorem of_append {later : List Event} {id : EntryId} {entry : Entry} {v : Version}
    (h : Stored queue past t) (works : t'.refusesIncrements = t.refusesIncrements)
    (next : (id.toNat : Int) = t.standing (RowKey.entryCounter.encode queue) + 1)
    (stands : t'.standing (RowKey.entryCounter.encode queue) = id.toNat)
    (written : Table.Appended queue id entry v t t')
    (enqueued : ∀ p entry' w, Enqueued later p entry' w ↔
      (p = ⟨queue, id⟩ ∧ entry' = entry ∧ w = v) ∨ Enqueued past p entry' w)
    (invalidated : ∀ p w, Invalidated later p w ↔ Invalidated past p w) :
    Stored queue later t' := by
  have counted := h.counted
  have fresh : ∀ entry' w, ¬ Enqueued past ⟨queue, id⟩ entry' w := by
    intro entry' w known
    have below := (h.allocated _ _ _ known).2.2
    simp only at below
    omega
  refine ⟨works.trans h.works, by omega, ?_, ?_, ?_⟩
  · intro p entry' w known
    rcases (enqueued _ _ _).1 known with ⟨rfl, -, -⟩ | known
    · exact ⟨rfl, by simp only; omega, by simp only; omega⟩
    · obtain ⟨name, positive, below⟩ := h.allocated p entry' w known
      exact ⟨name, positive, by omega⟩
  · intro p en en' w w' known known'
    rcases (enqueued _ _ _).1 known with ⟨rfl, rfl, rfl⟩ | known
    · rcases (enqueued _ _ _).1 known' with ⟨-, rfl, rfl⟩ | known'
      · exact ⟨rfl, rfl⟩
      · exact absurd known' (fresh _ _)
    · rcases (enqueued _ _ _).1 known' with ⟨rfl, -, -⟩ | known'
      · exact absurd known (fresh _ _)
      · exact h.once p en en' w w' known known'
  · intro id'
    by_cases here : id' = id
    · subst here
      refine (h.row id').of_append fresh written (fun entry' w => ?_) (invalidated _)
      simp [enqueued, fresh]
    · refine (h.row id').of_same (fun column => written.others _ column (rowKey_ne here))
        (fun entry' w => ?_) (invalidated _)
      simp [enqueued, here]

theorem of_retirement {later : List Event} {id : EntryId} {v : Version} (h : Stored queue past t)
    (works : t'.refusesIncrements = t.refusesIncrements)
    (written : Table.RowRetired queue id v t t')
    (enqueued : ∀ p entry w, Enqueued later p entry w ↔ Enqueued past p entry w)
    (invalidated : ∀ p w, Invalidated later p w ↔
      (p = ⟨queue, id⟩ ∧ w = v) ∨ Invalidated past p w) : Stored queue later t' := by
  refine ⟨works.trans h.works, ?_, ?_, ?_, ?_⟩
  · rw [written.standing]
    exact h.counted
  · intro p entry w known
    rw [written.standing]
    exact h.allocated p entry w ((enqueued _ _ _).1 known)
  · intro p entry entry' w w' known known'
    exact h.once p entry entry' w w' ((enqueued _ _ _).1 known) ((enqueued _ _ _).1 known')
  · intro id'
    by_cases here : id' = id
    · subst here
      refine (h.row id').of_retirement written (enqueued _) fun w => ?_
      simp [invalidated]
    · refine (h.row id').of_same (fun column => written.others _ column (rowKey_ne here))
        (enqueued _) fun w => ?_
      simp [invalidated, here]

section Event

variable {e : Event}

private theorem of_append_event {entry : Entry} {v : Version} (h : Stored queue past e.before.table)
    (name : e.call.queue.name = queue) (asked : e.call.request = .enqueue entry v) :
    Stored queue (e :: past) e.after.table := by
  subst name
  have works := e.touched.refuses
  have unretired : ∀ p w, Invalidated (e :: past) p w ↔ Invalidated past p w := by
    intro p w
    simp [invalidated_cons, Event.Retires, asked]
  have performed : e.outcome = Outcome.ofStorage .enqueued
      (e.call.queue.enqueue entry v { e.before with plan := e.call.plan }) := by
    simp only [Event.outcome, Call.perform, asked]
  rcases e.call.queue.enqueue_cases entry v { e.before with plan := e.call.plan } h.counted with
    ⟨id, st', done, next, stands, written⟩ | ⟨err, st', failed, same, standing⟩
  · rw [done] at performed
    have after : e.after = st' := by rw [Event.after, performed]; rfl
    rw [after] at works ⊢
    refine h.of_append works next stands written (fun p entry' w => ?_) unretired
    simp only [enqueued_cons, Event.Appends, asked, Event.appended?, performed,
      Outcome.ofStorage, Request.enqueue.injEq, Option.some.injEq]
    constructor
    · rintro (⟨⟨rfl, rfl⟩, rfl⟩ | known)
      · exact .inl ⟨rfl, rfl, rfl⟩
      · exact .inr known
    · rintro (⟨rfl, rfl, rfl⟩ | known)
      · exact .inl ⟨⟨rfl, rfl⟩, rfl⟩
      · exact .inr known
  · rw [failed] at performed
    have after : e.after = st' := by rw [Event.after, performed]; rfl
    have forward : e.before.table.standing (RowKey.entryCounter.encode e.call.queue.name) ≤
        st'.table.standing (RowKey.entryCounter.encode e.call.queue.name) := by
      rcases standing with standing | standing
      · exact Int.le_of_eq standing.symm
      · rw [standing]
        exact Int.le_add_one (Int.le_refl _)
    rw [after] at works ⊢
    refine h.of_same works (fun id column => same _ _) forward (fun p entry' w => ?_) unretired
    simp [enqueued_cons, Event.Appends, Event.appended?, performed, Outcome.ofStorage]

private theorem state_plain {q : Queue} (h : Stored q.name past t) {id : EntryId} {s : Snapshot}
    {cell : Bytes} (seen : q.shows t s (.entry id) .state = some cell) :
    cell = EntryState.valid.encode ∨ cell = EntryState.invalid.encode := by
  rcases (t.cell q.name (.entry id) .state).read_cases s with ⟨none, _⟩ | ⟨w, x, _, here, _, read⟩
  · exact absurd (none.symm.trans seen) (by simp)
  · have same : x = some cell := read.symm.trans seen
    rcases (h.row id).state_at w x here with ⟨_, valid, _⟩ | ⟨invalid, _⟩
    · exact .inl (Option.some.inj (same.symm.trans valid))
    · exact .inr (Option.some.inj (same.symm.trans invalid))

private theorem of_retirement_event {p : Pointer} {v : Version} (h : Stored queue past e.before.table)
    (name : e.call.queue.name = queue) (asked : e.call.request = .invalidate p v)
    (calm : e.call.plan = .none) : Stored queue (e :: past) e.after.table := by
  subst name
  have works := e.touched.refuses
  have reliable : Storage.Reliable { e.before with plan := e.call.plan } := ⟨calm, h.works⟩
  have unappended : ∀ p' entry w, Enqueued (e :: past) p' entry w ↔ Enqueued past p' entry w := by
    intro p' entry w
    simp [enqueued_cons, Event.Appends, asked]
  have performed : e.outcome = Outcome.ofStorage (fun _ => .invalidated)
      (e.call.queue.invalidate p v { e.before with plan := e.call.plan }) := by
    simp only [Event.outcome, Call.perform, asked]
  by_cases foreign : p.queue = e.call.queue.name
  · obtain ⟨_, id⟩ := p
    cases foreign
    obtain ⟨u, st', done, written⟩ :=
      e.call.queue.answers_invalidate id v reliable fun _ seen => h.state_plain seen
    rw [done] at performed
    have after : e.after = st' := by rw [Event.after, performed]; rfl
    rw [after] at works ⊢
    refine h.of_retirement works written unappended fun p' w => ?_
    simp only [invalidated_cons, Event.Retires, asked, Event.retired, performed,
      Outcome.ofStorage, Request.invalidate.injEq, and_true]
    constructor
    · rintro (⟨rfl, rfl⟩ | known)
      · exact .inl ⟨rfl, rfl⟩
      · exact .inr known
    · rintro (⟨rfl, rfl⟩ | known)
      · exact .inl ⟨rfl, rfl⟩
      · exact .inr known
  · rw [Queue.invalidate_of_foreign e.call.queue foreign v] at performed
    have after : e.after = { e.before with plan := e.call.plan } := by
      rw [Event.after, performed]
      rfl
    rw [after] at works ⊢
    refine h.of_same works (fun _ _ => rfl) (Int.le_refl _) unappended fun p' w => ?_
    simp [invalidated_cons, Event.Retires, Event.retired, performed, Outcome.ofStorage]

private theorem of_other_event (h : Stored queue past e.before.table)
    (name : e.call.queue.name = queue) (quiet : e.call.request.isEnqueue = false)
    (keeps : e.call.request.isInvalidate = false) :
    Stored queue (e :: past) e.after.table := by
  have counter : ¬ e.call.request.Touches .entryCounter := fun touches => by
    cases quiet.symm.trans (Request.enqueue_of_touches touches)
  have appends (entry : Entry) (v : Version) : e.call.request ≠ .enqueue entry v := fun asked => by
    simp [asked, Request.isEnqueue] at quiet
  have retires (p : Pointer) (v : Version) : e.call.request ≠ .invalidate p v := fun asked => by
    simp [asked, Request.isInvalidate] at keeps
  refine h.of_same e.touched.refuses (fun id column => ?_) ?_ (fun p entry v => ?_) fun p v => ?_
  · exact Event.history_of_not_touches name (Request.not_touches_entry quiet keeps id) _
  · exact Int.le_of_eq (congrArg Int64.toInt (Event.counter_of_not_touches name counter _).symm)
  · simp [enqueued_cons, Event.Appends, appends]
  · simp [invalidated_cons, Event.Retires, retires]

theorem next (h : Stored queue past e.before.table) (sound : Sound queue past e.call) :
    Stored queue (e :: past) e.after.table := by
  obtain ⟨name, calm⟩ := sound
  cases asked : e.call.request using Request.producer_cases with
  | enqueue entry v => exact h.of_append_event name asked
  | invalidate p v =>
      have works : e.call.plan = .none := calm (by rw [asked]; rfl)
      exact h.of_retirement_event name asked works
  | aside request quiet keeps =>
      rw [← asked] at quiet keeps
      exact h.of_other_event name quiet keeps

end Event

/-- After every run the rows of entries hold what the run has appended and retired. -/
theorem of_run (run : Run (Sound queue) past) : Stored queue past (storageAfter past).table := by
  induction run with
  | start => exact start
  | @next earlier call _ fits ih => exact @next queue earlier ⟨call, storageAfter earlier⟩ ih fits

end Stored

end VersionedQueue
