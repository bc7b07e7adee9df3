import VersionedQueue.Proofs.Delivery.Bounds
import VersionedQueue.Proofs.Disjoint.Answer
import VersionedQueue.Proofs.Disjoint.Readable
import VersionedQueue.Proofs.Shared.Turn

/-!
# Idle polls read nothing

A member of a disjoint group that was told that there is nothing, while all ids were shown to it, has its
cursor at the write pointer or beyond.  From there a request looks at the counter of entries and stores
the read pointer, and does not read from the table, whatever its snapshot is.  It leaves the cursor where
it was, so that this holds of the next request as well, until an id is allocated.  A member that comes
without a cursor reads its row, once, and is then as far as the read pointer that is shown to it.
-/

set_option autoImplicit false
set_option relaxedAutoImplicit false

namespace VersionedQueue

/-- Operations that do not read from the table. -/
def Storage.unread : StateBound Storage where
  rel st st' := st'.calls.gets = st.calls.gets
  refl _ := rfl
  trans first second := second.trans first

/-- A cursor that has nothing left and is not behind the counter of entries, as far as it knows and as far
as an id. -/
structure Cursor.AtEnd (highest : EntryId) (k : Cursor) : Prop where
  loaded : k.loaded = true
  spent : k.cache.entries = []
  reached : highest ≤ k.readPointer
  remembered : k.writePointer ≤ k.readPointer

/-- A turn has neither read from the table nor changed it, and its cursor is at its end. -/
structure Turn.Idles (highest : EntryId) (t t' : Turn) : Prop where
  gets : t'.storage.calls.gets = t.storage.calls.gets
  atEnd : t'.cursor.AtEnd highest
  same : t.storage.Alike t'.storage

namespace Queue

section Unread

open StateBound (keeps_pure keeps_throw keeps_bind keeps_onTurns)

variable (q : Queue) (c : Consumer) (config : Config) (s : Snapshot)

private theorem keeps_unread_call {α : Type} {purpose : Purpose} {kind : Access}
    {act : TableM α} (other : kind ≠ .get) :
    Storage.unread.Keeps (Storage.call purpose kind act) := by
  intro st
  have same : (st.calls.add kind).gets = st.calls.gets := by
    cases kind with
    | get => exact absurd rfl other
    | _ => rfl
  simp only [Storage.call]
  split
  · exact same
  · split <;> exact same

theorem keeps_unread_count (purpose : Purpose) (key : RowKey) (delta : Int64) :
    Storage.unread.Keeps (q.count purpose key delta) :=
  keeps_bind (keeps_unread_call nofun) fun value => by
    cases counterId? value with
    | none => exact keeps_throw _
    | some id => exact keeps_pure _

theorem keeps_unread_put (purpose : Purpose) (key : RowKey) (cells : List (Column × Bytes))
    (v : Version) : Storage.unread.Keeps (q.put purpose key cells v) := by
  unfold put Storage.put
  exact keeps_unread_call nofun

theorem keeps_unread_refresh : Storage.unread.onTurns.Keeps q.refresh :=
  keeps_bind (keeps_onTurns (q.keeps_unread_count _ _ _)) fun _ => Storage.unread.onTurns.refl

theorem keeps_unread_handOut : Storage.unread.onTurns.Keeps (q.handOut c config s) := by
  have writes (cells : List (Column × Bytes)) :
      Storage.unread.onTurns.Keeps (Turn.onStorage (q.writeConsumer c cells s)) :=
    keeps_onTurns (q.keeps_unread_put _ _ _ _)
  have now : Storage.unread.onTurns.Keeps Turn.cursorNow := Storage.unread.onTurns.refl
  refine keeps_bind now fun k => ?_
  cases k.cache.next? with
  | some found =>
      refine keeps_bind Storage.unread.onTurns.refl fun _ => ?_
      refine keeps_bind Storage.unread.onTurns.refl fun _ => keeps_bind now fun _ => ?_
      exact keeps_bind (writes _) fun _ => keeps_pure _
  | none => exact keeps_bind (keeps_bind now fun _ => writes _) fun _ => keeps_pure _

end Unread

section AtEnd

variable (q : Queue) (c : Consumer) (config : Config) (s : Snapshot) {highest : EntryId} {t : Turn}

private theorem ends_refresh_of_atEnd (atEnd : t.cursor.AtEnd highest)
    (stands : (highest.toNat : Int) =
      t.storage.table.standing (RowKey.entryCounter.encode q.name)) :
    Ends q.refresh t (fun _ u => Turn.Idles highest t u ∧ u.cursor.writePointer = highest)
      fun _ u => Turn.Idles highest t u ∧ ¬ t.storage.Reliable := by
  have gets := (q.keeps_unread_refresh).ends t
  have looked : Ends q.refresh t
      (fun _ u => t.storage.Alike u.storage ∧ u.cursor = { t.cursor with writePointer := highest })
      fun _ u => t.storage.Alike u.storage ∧ u.cursor = t.cursor := by
    refine ((Turn.ends_onStorage (q.ends_count_zero .readWritePointer .entryCounter)).imp
      (fun _ _ done => done) fun _ _ failed => ⟨failed.1, failed.2.symm⟩).bind ?_
    rintro w ⟨st, _⟩ ⟨⟨_, counted, same⟩, rfl⟩
    obtain rfl : w = highest := UInt64.toNat_inj.1 (by omega)
    exact ⟨same, rfl⟩
  refine .intro (fun u t' done => ?_) fun e t' failed => ?_
  · obtain ⟨same, cursor⟩ := looked.of_ok done
    refine ⟨⟨gets.of_ok done, ?_, same⟩, by rw [cursor]⟩
    rw [cursor]
    exact ⟨atEnd.loaded, atEnd.spent, atEnd.reached, atEnd.reached⟩
  · obtain ⟨same, cursor⟩ := looked.of_error failed
    refine ⟨⟨gets.of_error failed, cursor ▸ atEnd, same⟩, fun works => ?_⟩
    obtain ⟨_, _, done, _⟩ := q.answers_refresh t.cursor works (by omega)
    cases done.symm.trans failed

theorem ends_disjointPass_of_atEnd (atEnd : t.cursor.AtEnd highest)
    (stands : (highest.toNat : Int) =
      t.storage.table.standing (RowKey.entryCounter.encode q.name)) :
    Ends (q.disjointPass c config s) t (fun pass u => pass = .exhausted ∧ Turn.Idles highest t u)
      fun _ u => Turn.Idles highest t u ∧ ¬ t.storage.Reliable := by
  have stale : Window.isCaughtUp t.cursor.readPointer t.cursor.writePointer = true :=
    decide_eq_true atEnd.remembered
  unfold disjointPass
  apply Turn.ends_cursorNow
  rw [stale]
  refine (q.ends_refresh_of_atEnd atEnd stands).bind fun _ u looked => ?_
  apply Turn.ends_cursorNow
  have none : Window.after u.cursor.readPointer config.effectiveBatchSize c.groupSize
      u.cursor.writePointer = none := by
    simp [Window.after, Window.isCaughtUp, looked.2, looked.1.atEnd.reached]
  rw [none]
  exact Ends.pure ⟨rfl, looked.1⟩

private theorem ends_refill_of_atEnd (hash : config.partitioner = .hash)
    (atEnd : t.cursor.AtEnd highest)
    (stands : (highest.toNat : Int) =
      t.storage.table.standing (RowKey.entryCounter.encode q.name)) :
    Ends (q.refill c config s) t (fun _ u => Turn.Idles highest t u)
      fun _ u => Turn.Idles highest t u ∧ ¬ t.storage.Reliable := by
  have repeats := q.repeats_fetchDisjoint c config s
  have pass := q.ends_disjointPass_of_atEnd c config s atEnd stands
  refine .of_eq (q.refill_of_empty c config s atEnd.spent) ?_
  simp only [fetch, hash]
  cases done : q.disjointPass c config s t with
  | ok found u =>
      obtain ⟨rfl, idles⟩ := pass.of_ok done
      exact .answered (repeats.exhausted done) idles
  | error e u => exact .failed (repeats.failed done) (pass.of_error done)

/-- A request with a cursor at its end is told that there is nothing, or fails where storage does.  Either way
it has not read from the table, and leaves a cursor at its end. -/
theorem ends_dequeue_of_atEnd (hash : config.partitioner = .hash)
    (atEnd : t.cursor.AtEnd highest)
    (stands : (highest.toNat : Int) =
      t.storage.table.standing (RowKey.entryCounter.encode q.name)) :
    Ends (q.dequeue c config s) t
      (fun d u => d = .empty ∧ u.storage.calls.gets = t.storage.calls.gets ∧
        u.cursor.AtEnd highest)
      fun _ u => (u.storage.calls.gets = t.storage.calls.gets ∧ u.cursor.AtEnd highest) ∧
        (config.validate = .ok () → c.validate config.partitioner = .ok () →
          ¬ t.storage.Reliable) := by
  by_cases accepted : config.validate = .ok () ∧ c.validate config.partitioner = .ok ()
  · obtain ⟨valid, member⟩ := accepted
    refine .of_eq (dequeue_of_loaded valid member atEnd.loaded) ?_
    refine ((q.ends_refill_of_atEnd c config s hash atEnd stands).imp (fun _ _ idles => idles)
      fun _ _ failed => ⟨⟨failed.1.gets, failed.1.atEnd⟩, fun _ _ => failed.2⟩).bind
      fun _ u idles => ?_
    have gets := (q.keeps_unread_handOut c config s).ends u
    have stores := @ends_handOut_nothing q c config s u idles.atEnd.spent
    refine .intro (fun d v done => ?_) fun e v failed => ?_
    · obtain ⟨empty, cursor, _⟩ := stores.of_ok done
      exact ⟨empty, (gets.of_ok done).trans idles.gets, cursor ▸ idles.atEnd⟩
    · refine ⟨⟨(gets.of_error failed).trans idles.gets, (stores.of_error failed).2 ▸ idles.atEnd⟩,
        fun _ _ works => ?_⟩
      obtain ⟨v', done⟩ := @exists_handOut_nothing q c config s u (works.of_alike idles.same).1
        idles.atEnd.spent
      cases done.symm.trans failed
  · obtain ⟨e, refused⟩ := @dequeue_of_refused q c config s accepted
    exact .failed (refused t) ⟨⟨rfl, atEnd⟩, fun valid member => absurd ⟨valid, member⟩ accepted⟩

end AtEnd

section Empty

variable (q : Queue) (c : Consumer) (config : Config) (s : Snapshot) {st : Storage} {k : Cursor}
  {t' : Turn} {a r highest : EntryId}

private theorem reached_of_sweeps {view : QueueView} {before after : EntryId}
    (shown : ∀ id : EntryId, 0 < id → id ≤ highest → view (.entry id) .state ≠ none)
    (sweeps : q.FetchSweeps view c highest highest before [] after) : highest ≤ after := by
  cases sweeps with
  | found _ some _ => exact absurd rfl some
  | @blocked _ next _ number inside hidden =>
      have positive : 0 < next := by
        rw [UInt64.lt_iff_toNat_lt, number]
        exact Nat.succ_pos _
      exact absurd hidden (shown next positive inside)
  | caughtUp _ reached _ => exact reached

private theorem reached_of_proceed (hash : config.partitioner = .hash) (reliable : st.Reliable)
    (readable : q.Readable (q.shows st.table s))
    (stands : (highest.toNat : Int) = st.table.standing (RowKey.entryCounter.encode q.name))
    (remembered : k.writePointer ≤ highest)
    (shown : ∀ id : EntryId, 0 < id → id ≤ highest → q.shows st.table s (.entry id) .state ≠ none)
    (done : q.proceed c config s ⟨st, k⟩ = .ok .empty t') :
    t'.cursor.loaded = k.loaded ∧ t'.cursor.cache.entries = [] ∧ highest ≤ t'.cursor.readPointer ∧
      (t'.storage.table.history (q.seat c).row Column.readPointer.encode).at? s.writeVersion =
        some (some (Bytes.ofUInt64 t'.cursor.readPointer)) := by
  obtain ⟨_, u, refilled, handed⟩ := ok_of_bind done
  have served {entry : CachedEntry} {rest : List CachedEntry}
      (next : u.cursor.cache.entries = entry :: rest) : False := by
    cases ((ends_handOut_next next).of_ok handed).1
  -- With an entry in the cache, before fetching or after it, the member would have been handed it.
  cases cached : k.cache.entries with
  | cons entry rest =>
      cases (q.refill_of_cached c config s (t := ⟨st, k⟩) cached).symm.trans refilled
      exact (served cached).elim
  | nil =>
      have empty : k.cache = {} := congrArg Cache.mk cached
      rw [q.refill_of_empty c config s (t := ⟨st, k⟩) cached] at refilled
      simp only [fetch, hash] at refilled
      obtain ⟨_, entries, after, w', moved, sweeps⟩ :=
        (q.answers_fetchDisjoint_of_readable c config s hash (UInt64.le_refl highest) ⟨st, k⟩ reliable
          readable stands remembered empty).of_ok refilled
      cases entries with
      | cons entry rest => exact (served (by rw [moved])).elim
      | nil =>
          have none_left : u.cursor.cache.entries = [] := by rw [moved]
          obtain ⟨_, cursor, table⟩ := (ends_handOut_nothing none_left).of_ok handed
          refine ⟨by rw [cursor, moved], cursor ▸ none_left, ?_, ?_⟩
          · rw [cursor, moved]
            exact q.reached_of_sweeps c shown sweeps
          · rw [table, cursor, Table.history_recordAll_of_cell (restingCells_in_row u.cursor)
              (restingCells_nodup u.cursor) List.mem_cons_self, History.at?_record, if_pos rfl]

private theorem looked_of_load {u : Turn} (reliable : st.Reliable)
    (readable : q.Readable (q.shows st.table s)) (reads : q.Reads c s st.table a r highest)
    (done : q.load c config s ⟨st, k⟩ = .ok () u) :
    u.cursor.loaded = true ∧ u.cursor.writePointer = highest ∧ u.storage.plan = st.plan ∧
      st.table.Touched (· = (q.seat c).row) s.writeVersion u.storage.table := by
  have kept : (Turn.touched (· = (q.seat c).row) s.writeVersion).Keeps (q.load c config s) :=
    (q.admits_touching s (· = (q.seat c).row) s.writeVersion).load c config fun purpose cells _ =>
      StateBound.keeps_onTurns (@keeps_put (· = (q.seat c).row) s.writeVersion q _ rfl purpose cells)
  obtain ⟨touched, plan⟩ := (kept.ends ⟨st, k⟩).of_ok done
  obtain ⟨seen, sight⟩ := readable.sight a
  have ends := (answers_load_of_sight k reliable reads sight).of_ok done
  have looked : u.cursor.loaded = true ∧ u.cursor.writePointer = highest := by
    obtain ⟨_, cursor⟩ := u
    cases ends <;> exact ⟨rfl, rfl⟩
  exact ⟨looked.1, looked.2, plan, touched⟩

private theorem reached_of_dequeue (hash : config.partitioner = .hash) (reliable : st.Reliable)
    (readable : q.Readable (q.shows st.table s)) (reads : q.Reads c s st.table a r highest)
    (remembered : k.writePointer ≤ highest)
    (shown : ∀ id : EntryId, 0 < id → id ≤ highest → q.shows st.table s (.entry id) .state ≠ none)
    (done : q.dequeue c config s ⟨st, k⟩ = .ok .empty t') :
    t'.cursor.loaded = true ∧ t'.cursor.cache.entries = [] ∧ highest ≤ t'.cursor.readPointer ∧
      (t'.storage.table.history (q.seat c).row Column.readPointer.encode).at? s.writeVersion =
        some (some (Bytes.ofUInt64 t'.cursor.readPointer)) := by
  obtain ⟨valid, member⟩ := accepted_of_dequeue done
  cases loaded : k.loaded with
  | true =>
      rw [dequeue_of_loaded (t := ⟨st, k⟩) valid member loaded] at done
      obtain ⟨same, rest⟩ := q.reached_of_proceed c config s hash reliable readable reads.writePointer
        remembered shown done
      exact ⟨same.trans loaded, rest⟩
  | false =>
      rw [dequeue_of_unloaded (t := ⟨st, k⟩) valid member loaded] at done
      obtain ⟨_, u, load, onward⟩ := ok_of_bind done
      obtain ⟨loaded, looked, plan, touched⟩ :=
        q.looked_of_load c config s reliable readable reads load
      have same (id : EntryId) (column : Column) :
          q.shows u.storage.table s (.entry id) column = q.shows st.table s (.entry id) column := by
        simp only [shows, Table.read]
        rw [touched.history]
        exact fun row => RowKey.noConfusion (RowKey.encode_injective row)
      have stands := reads.writePointer.trans (counters_of_touched_row touched).2.symm
      obtain ⟨kept, rest⟩ := q.reached_of_proceed c config s hash
        ⟨plan.trans reliable.1, touched.refuses.trans reliable.2⟩ (readable.of_entries same) stands
        (UInt64.le_of_eq looked) (fun id positive inside => same id .state ▸ shown id positive inside)
        onward
      exact ⟨kept.trans loaded, rest⟩

private theorem answers_dequeue_of_stored (hash : config.partitioner = .hash)
    (valid : config.validate = .ok ()) (member : c.validate config.partitioner = .ok ())
    (unloaded : k.loaded = false) (reliable : st.Reliable)
    (reads : q.Reads c s st.table noEntry r highest) (reached : highest ≤ r) :
    Answers (q.dequeue c config s) ⟨st, k⟩ fun d u => d = .empty ∧
      u.storage.calls.gets = st.calls.gets + 1 := by
  have viewed := q.view_eq .readConsumer s st
  rw [if_neg (by rw [reliable.1]; nofun)] at viewed
  have atEnd : Cursor.AtEnd highest { loaded := true, readPointer := r } :=
    ⟨rfl, rfl, reached, UInt64.zero_le⟩
  have looks := (q.ends_refresh_of_atEnd (t := ⟨{ st with calls := st.calls.add .get }, _⟩) atEnd
    reads.writePointer).answers fun _ _ failed => failed.2 reliable
  refine .of_eq (dequeue_of_unloaded (t := ⟨st, k⟩) valid member unloaded) ?_
  have loads : Answers (q.load c config s) ⟨st, k⟩ fun _ u =>
      Turn.Idles highest
        ⟨{ st with calls := st.calls.add .get }, { loaded := true, readPointer := r }⟩ u := by
    refine .of_eq (load_eq_of_row viewed reads.active reads.readPointer) (looks.bind fun _ u looked => ?_)
    rw [settle, if_pos rfl]
    exact Answers.pure looked.1
  refine loads.bind fun _ u idles => ?_
  have stands := reads.writePointer.trans (idles.same.1.standing _).symm
  refine .of_eq (dequeue_of_loaded valid member idles.atEnd.loaded).symm ?_
  refine ((q.ends_dequeue_of_atEnd c config s hash idles.atEnd stands).answers
    fun _ _ failed => failed.2 valid member (reliable.of_alike idles.same)).imp fun d v done => ?_
  exact ⟨done.1, done.2.1.trans idles.gets⟩

/-- With a cursor every request of a disjoint group reads nothing from storage, whatever its snapshot is and
whichever calls fail, and is told that there is nothing where none fails. -/
def ReadsNothing (st : Storage) (k : Cursor) : Prop :=
  ∀ (d : Consumer) (config : Config) (s : Snapshot) (plan : FaultPlan), config.partitioner = .hash →
    (stateAfter (q.dequeue d config s ⟨{ st with plan }, k⟩)).storage.calls.gets = st.calls.gets ∧
    (plan = .none → config.validate = .ok () → d.validate config.partitioner = .ok () →
      ∃ t', q.dequeue d config s ⟨{ st with plan }, k⟩ = .ok .empty t')

/-- Without a cursor a member of a disjoint group that is shown its row by a snapshot reads once from storage
that works, and is told that there is nothing. -/
def ReadsOnce (st : Storage) : Prop :=
  ∀ (config : Config) (k : Cursor), config.partitioner = .hash → config.validate = .ok () →
    c.validate config.partitioner = .ok () → k.loaded = false →
    ∃ t', q.dequeue c config s ⟨{ st with plan := .none }, k⟩ = .ok .empty t' ∧
      t'.storage.calls.gets = st.calls.gets + 1

theorem shows_row (t : Table) (column : Column) : q.shows t s (consumerRow c) column =
    (t.history (q.seat c).row column.encode).read s := rfl

theorem readsNothing_of_atEnd (atEnd : k.AtEnd highest) (works : st.table.refusesIncrements = false)
    (stands : (highest.toNat : Int) = st.table.standing (RowKey.entryCounter.encode q.name)) :
    q.ReadsNothing st k := by
  intro d config s plan hash
  have ends := q.ends_dequeue_of_atEnd d config s (t := ⟨{ st with plan }, k⟩) hash atEnd stands
  cases done : q.dequeue d config s ⟨{ st with plan }, k⟩ with
  | ok answer u =>
      obtain ⟨rfl, gets, _⟩ := ends.of_ok done
      exact ⟨gets, fun _ _ _ => ⟨u, rfl⟩⟩
  | error err u =>
      obtain ⟨⟨gets, _⟩, fails⟩ := ends.of_error done
      exact ⟨gets, fun calm valid member => absurd ⟨calm, works⟩ (fails valid member)⟩

theorem readsOnce_of_stored (works : st.table.refusesIncrements = false)
    (stands : (highest.toNat : Int) = st.table.standing (RowKey.entryCounter.encode q.name))
    (pointer : q.shows st.table s (consumerRow c) .readPointer = some (Bytes.ofUInt64 r))
    (inactive : ∀ cell, q.shows st.table s (consumerRow c) .active = some cell →
      cell = Bytes.ofUInt64 noEntry) (reached : highest ≤ r) : q.ReadsOnce c s st := by
  have reads : q.Reads c s st.table noEntry r highest := by
    refine ⟨?_, ?_, stands⟩
    · cases active : q.shows st.table s (consumerRow c) .active with
      | none => rfl
      | some cell =>
          rw [inactive cell active]
          exact q.decodeId_of_storedId? c (storedId?_ofUInt64 noEntry)
    · rw [pointer]
      exact q.decodeId_of_storedId? c (storedId?_ofUInt64 r)
  intro config k hash valid member unloaded
  obtain ⟨_, t', done, rfl, gets⟩ := @answers_dequeue_of_stored q c config s
    { st with plan := .none } k r highest hash valid member unloaded ⟨rfl, works⟩ reads reached
  exact ⟨t', done, gets⟩

end Empty

end Queue

theorem highestOf_of_quiet {queue : String} {newer past : List Event}
    (run : Run Opened (newer ++ past)) (short : ShortName queue)
    (quiet : ∀ f ∈ newer, f.call.queue.name = queue → f.call.request.isEnqueue = false) :
    highestOf (newer ++ past) queue = highestOf past queue := by
  induction newer with
  | nil => rfl
  | cons f newer ih =>
      obtain ⟨earlier, opens, found⟩ := Run.cons_iff.1 run
      refine Eq.trans ?_ (ih earlier fun g mem => quiet g (List.mem_cons_of_mem _ mem))
      have untouched : ¬ f.call.Touches (RowKey.entryCounter.encode queue) := by
        refine Event.not_touches_of_opens opens short fun name => ?_
        have silent := quiet f List.mem_cons_self name
        cases asked : f.call.request <;>
          simp_all [Request.isEnqueue, Request.Touches, Queue.consumerRow]
      change f.after.table.standing _ = (storageAfter (newer ++ past)).table.standing _
      rw [Table.standing, f.touched.counter _ untouched, found]
      rfl

/-- The cursors that polls have made of one with which a member was left: each poll is passed the cursor that
one before it has left. -/
inductive PolledOn (queue : String) (k : Cursor) (newer : List Event) : Cursor → Prop
  | left : PolledOn queue k newer k
  | again {f : Event} {c : Consumer} {config : Config} {k' : Cursor} {s : Snapshot} :
      PolledOn queue k newer k' → f ∈ newer → f.call.queue.name = queue →
      f.call.request = .dequeue c config k' s → config.partitioner = .hash →
      PolledOn queue k newer f.outcome.cursor

/-- The newest version of a read pointer that a snapshot sees is the one that an event wrote. -/
structure Event.ReadPointerShown (e : Event) (seat : Seat) (v : Version) (t : Table) (s : Snapshot) :
    Prop where
  seen : s.sees v = true
  kept : (t.history seat.row Column.readPointer.encode).at? v =
    (e.after.table.history seat.row Column.readPointer.encode).at? v
  newest : ∀ w, s.sees w = true → (t.history seat.row Column.readPointer.encode).Has w → w ≤ v

theorem Event.ReadPointerShown.read {e : Event} {seat : Seat} {v : Version} {t : Table} {s : Snapshot}
    {x : Option Bytes} (h : e.ReadPointerShown seat v t s)
    (stored : (e.after.table.history seat.row Column.readPointer.encode).at? v = some x) :
    (t.history seat.row Column.readPointer.encode).read s = x :=
  History.read_of_newest h.seen (h.kept.trans stored) h.newest

section Run

variable {newer past : List Event} {e : Event} {c : Consumer} {config : Config} {k : Cursor}
  {s : Snapshot}

/-- A member that was told that there is nothing, while all ids were shown, is left with a cursor at its end,
and its read pointer is stored. -/
theorem atEnd_of_empty (run : Run Reusing (e :: past))
    (asked : e.call.request = .dequeue c config k s) (hash : config.partitioner = .hash)
    (calm : e.call.plan = .none) (nothing : e.delivery?.any (·.isEmpty) = true)
    (shown : ∀ id : EntryId, 0 < id → (id.toNat : Int) ≤ highestOf past e.call.queue.name →
      e.call.queue.shows (storageAfter past).table s (.entry id) .state ≠ none) :
    (config.validate = .ok () ∧ c.validate config.partitioner = .ok ()) ∧
    ∃ highest : EntryId, (highest.toNat : Int) = highestOf (e :: past) e.call.queue.name ∧
      e.outcome.cursor.AtEnd highest ∧
      (e.after.table.history (e.call.queue.seat c).row Column.readPointer.encode).at?
        s.writeVersion = some (some (Bytes.ofUInt64 e.outcome.cursor.readPointer)) := by
  obtain ⟨earlier, ⟨opens, atHand⟩, found⟩ := Run.cons_iff.1 run
  have opened := earlier.opened_of_reusing
  obtain ⟨a, r, highest, reads⟩ := reads_of_run opened opens c s
  have same : highestOf (e :: past) e.call.queue.name = highestOf past e.call.queue.name :=
    @highestOf_of_quiet _ [e] past run.opened_of_reusing opens.shortName
      (by simp [asked, Request.isEnqueue])
  have stands : (highest.toNat : Int) = highestOf past e.call.queue.name := reads.writePointer
  have remembered := ((nothing_beyond_counter earlier opens.shortName).2.2 k
    (atHand c config k s asked)).2.1
  have delivered : e.delivery? = some .empty := by
    cases delivered : e.delivery? with
    | none => simp [delivered] at nothing
    | some d =>
        cases d with
        | empty => rfl
        | served p x => simp [delivered, Delivery.isEmpty] at nothing
  obtain ⟨t, done⟩ := (Event.delivered_iff asked).1 delivered
  have performed := Event.outcome_of_dequeue asked
  rw [done] at performed
  have cursor : e.outcome.cursor = t.cursor := by rw [performed]; rfl
  have after : e.after = t.storage := by rw [Event.after, performed]; rfl
  rw [found, calm] at done
  have small (id : EntryId) (inside : id ≤ highest) :
      (id.toNat : Int) ≤ highestOf past e.call.queue.name := by
    rw [← stands]
    exact Int.ofNat_le.2 (UInt64.le_iff_toNat_le.1 inside)
  obtain ⟨loaded, spent, reached, stored⟩ := @Queue.reached_of_dequeue e.call.queue c config s
    { storageAfter past with plan := .none } k t a r highest hash ⟨rfl, works_of_run earlier⟩
    (readable_of_run opened opens s) reads (UInt64.le_iff_toNat_le.2 (by omega))
    (fun id positive inside => shown id positive (small id inside)) done
  have left : AtHand (e :: past) e.call.queue.name e.outcome.cursor :=
    .inr ⟨e, List.mem_cons_self, e.call.queue.seat c, rfl,
      Event.cursorOf?_of_dequeue (by rw [Call.seat?, asked]; rfl) asked⟩
  have bounded := ((nothing_beyond_counter run opens.shortName).2.2 _ left).2.1
  rw [cursor] at bounded ⊢
  rw [after]
  refine ⟨Queue.accepted_of_dequeue done, highest, stands.trans same.symm,
    ⟨loaded, spent, reached, ?_⟩, stored⟩
  exact UInt64.le_trans (UInt64.le_iff_toNat_le.2 (by omega)) reached

private theorem PolledOn.atEnd {queue : String} {highest : EntryId} {k' : Cursor}
    (run : Run Opened (newer ++ e :: past)) (short : ShortName queue)
    (quiet : ∀ f ∈ newer, f.call.queue.name = queue → f.call.request.isEnqueue = false)
    (stands : (highest.toNat : Int) = highestOf (e :: past) queue) (atEnd : k.AtEnd highest)
    (polled : PolledOn queue k newer k') : k'.AtEnd highest := by
  induction polled with
  | left => exact atEnd
  | @again f c config k' s _ mem name asked hash ih =>
      subst name
      obtain ⟨later, before, rfl⟩ := List.append_of_mem mem
      have begun : Run Opened (f :: before ++ e :: past) :=
        run.of_suffix ⟨later, by simp⟩
      obtain ⟨earlier, _, found⟩ := Run.cons_iff.1 begun
      have same := highestOf_of_quiet earlier short fun g inside =>
        quiet g (List.mem_append_right later (List.mem_cons_of_mem f inside))
      have counted : (highest.toNat : Int) =
          f.before.table.standing (RowKey.entryCounter.encode f.call.queue.name) := by
        rw [stands, ← same, found]
        rfl
      have ends := @Queue.ends_dequeue_of_atEnd f.call.queue c config s highest
        ⟨{ f.before with plan := f.call.plan }, k'⟩ hash ih counted
      rw [Event.outcome_of_dequeue asked]
      cases done : f.call.queue.dequeue c config s ⟨{ f.before with plan := f.call.plan }, k'⟩ with
      | ok d u => exact (ends.of_ok done).2.2
      | error err u => exact (ends.of_error done).1.2

/-- A member of a disjoint group was told by storage that works that there is nothing, under a snapshot that
showed all ids that were allocated.  As long as nothing more is appended to the queue, a request that passes
on the cursor that it was left with, or that such a request was left with, reads nothing and is told again
that there is nothing, whatever its snapshot is.  A request without a cursor to which the read pointer is
shown as it was stored then, and no active entry, reads once. -/
theorem idle_polls_read_nothing (run : Run Reusing (newer ++ e :: past))
    (asked : e.call.request = .dequeue c config k s) (hash : config.partitioner = .hash)
    (calm : e.call.plan = .none) (nothing : e.delivery?.any (·.isEmpty) = true)
    (shown : ∀ id : EntryId, 0 < id → (id.toNat : Int) ≤ highestOf past e.call.queue.name →
      e.call.queue.shows (storageAfter past).table s (.entry id) .state ≠ none)
    (quiet : ∀ f ∈ newer, f.call.queue.name = e.call.queue.name → f.call.request.isEnqueue = false) :
    (config.validate = .ok () ∧ c.validate config.partitioner = .ok ()) ∧
    (∀ k', PolledOn e.call.queue.name e.outcome.cursor newer k' →
      e.call.queue.ReadsNothing (storageAfter (newer ++ e :: past)) k') ∧
    ∀ (d : Consumer) (s' : Snapshot), e.call.queue.seat d = e.call.queue.seat c →
      e.ReadPointerShown (e.call.queue.seat c) s.writeVersion
        (storageAfter (newer ++ e :: past)).table s' →
      (∀ cell, e.call.queue.shows (storageAfter (newer ++ e :: past)).table s'
        (Queue.consumerRow d) .active = some cell → cell = Bytes.ofUInt64 noEntry) →
      e.call.queue.ReadsOnce d s' (storageAfter (newer ++ e :: past)) := by
  have begun : Run Reusing (e :: past) := run.of_suffix (List.suffix_append newer (e :: past))
  have opens := (Run.cons_iff.1 begun).2.1.1
  obtain ⟨accepted, highest, stands, atEnd, stored⟩ :=
    atEnd_of_empty begun asked hash calm nothing shown
  have same := highestOf_of_quiet run.opened_of_reusing opens.shortName quiet
  have counted := stands.trans same.symm
  have works := works_of_run run
  refine ⟨accepted, fun k' polled => ?_, fun d s' own pointer inactive => ?_⟩
  · have rests := polled.atEnd run.opened_of_reusing opens.shortName quiet stands atEnd
    exact e.call.queue.readsNothing_of_atEnd rests works counted
  · have shows : e.call.queue.shows (storageAfter (newer ++ e :: past)).table s'
        (Queue.consumerRow d) .readPointer = some (Bytes.ofUInt64 e.outcome.cursor.readPointer) := by
      rw [Queue.shows_row, own]
      exact pointer.read stored
    exact e.call.queue.readsOnce_of_stored d s' works counted shows inactive atEnd.reached

end Run

/-- The second member of a group of two polls, with windows of two ids. -/
def polling (cursor : Cursor) (s : Snapshot) (plan : FaultPlan) : Call :=
  ⟨⟨"q", ⟨.hash, 1⟩⟩, .dequeue { group := 1, member := 1, groupSize := 2, partitioningKey := some "k" }
    ⟨.hash, 1⟩ cursor s, plan⟩

/-- The cursor that the member is left with when it was told that there is nothing. -/
def caughtUp : Cursor := { loaded := true, readPointer := 3, writePointer := 3 }

/-- The first and the third entry fall to the other member, and the second one was retired. -/
def lagging : List Call :=
  let adding (hash : Int32) (v : Version) : Call :=
    ⟨⟨"q", ⟨.hash, 20⟩⟩, .enqueue ⟨[v.toUInt8], Std.TreeMap.ofList [("k", hash)]⟩ v, .none⟩
  [⟨⟨"q", ⟨.hash, 20⟩⟩, .invalidate ⟨"q", 2⟩ 5, .none⟩, adding 2 4, adding 1 3, adding 0 2]

/-- The member polls, an entry is appended to another queue, and then the member polls again, under a
snapshot that sees nothing and while no write succeeds. -/
def lagged : List Call :=
  [polling caughtUp (.upTo 0) (fun kind _ => kind == .put),
    ⟨⟨"qq", ⟨.hash, 20⟩⟩, .enqueue ⟨[97], {}⟩ 1, .none⟩, polling .fresh (.upTo 10) .none]

private theorem lagged_run : Run Reusing (replay (lagged ++ lagging)) := by
  have here : Queue.Opens ⟨"q", ⟨.hash, 20⟩⟩ := rfl
  have there : Queue.Opens ⟨"qq", ⟨.hash, 20⟩⟩ := rfl
  refine .replay_cons (.replay_cons (.replay_cons (.replay_cons (.replay_cons (.replay_cons
    (.replay_cons .start (.of_other here rfl)) (.of_other here rfl)) (.of_other here rfl))
    (.of_other here rfl)) ⟨rfl, ?_⟩) (.of_other there rfl)) ⟨rfl, ?_⟩
  · rintro _ _ _ _ ⟨⟩
    exact .inl rfl
  · rintro _ _ _ _ ⟨⟩
    exact .inr ⟨_, List.mem_cons_of_mem _ List.mem_cons_self, ⟨"q", 1, 1⟩, rfl, by
      with_unfolding_all decide⟩

/-- Neither the cursor that the poll that failed has left nor one that is lost makes the member scan the
ids again. -/
theorem lagged_reads_nothing :
    let q : Queue := ⟨"q", ⟨.hash, 1⟩⟩
    let failed : Event := ⟨polling caughtUp (.upTo 0) (fun kind _ => kind == .put),
      storageAfter (replay (lagged.drop 1 ++ lagging))⟩
    q.ReadsNothing (storageAfter (replay (lagged ++ lagging))) failed.outcome.cursor ∧
      q.ReadsOnce { group := 1, member := 1, groupSize := 2, partitioningKey := some "k" } (.upTo 10)
        (storageAfter (replay (lagged ++ lagging))) := by
  intro q failed
  have three : highestOf (replay lagging) "q" = 3 := by with_unfolding_all decide
  have shown (id : EntryId) (positive : 0 < id)
      (inside : (id.toNat : Int) ≤ highestOf (replay lagging) "q") :
      q.shows (storageAfter (replay lagging)).table (.upTo 10) (.entry id) .state ≠ none := by
    have some : 0 < id.toNat := UInt64.lt_iff_toNat_lt.1 positive
    have cases : id = 1 ∨ id = 2 ∨ id = 3 := by
      simp only [← UInt64.toNat_inj, UInt64.reduceToNat]
      omega
    rcases cases with rfl | rfl | rfl <;> with_unfolding_all decide
  have left : (Event.outcome ⟨polling .fresh (.upTo 10) .none, storageAfter (replay lagging)⟩).cursor =
      caughtUp := by with_unfolding_all decide
  obtain ⟨_, polls, loads⟩ := @idle_polls_read_nothing
    [failed, ⟨⟨⟨"qq", ⟨.hash, 20⟩⟩, .enqueue ⟨[97], {}⟩ 1, .none⟩,
      storageAfter (replay (lagged.drop 2 ++ lagging))⟩]
    (replay lagging) ⟨polling .fresh (.upTo 10) .none, storageAfter (replay lagging)⟩ _ _ _ _
    lagged_run rfl rfl rfl (by with_unfolding_all decide) shown (by decide)
  refine ⟨polls _ (.again (left ▸ .left) List.mem_cons_self rfl rfl rfl), loads _ (.upTo 10) rfl
    ⟨rfl, by with_unfolding_all decide, fun w seen _ => Snapshot.le_maximum_of_sees seen⟩ ?_⟩
  have inactive : q.shows (storageAfter (replay (lagged ++ lagging))).table (.upTo 10)
      (.consumer 1 1) .active = none := by with_unfolding_all decide
  exact fun cell found => by cases inactive.symm.trans found

end VersionedQueue
