import Mathlib.Data.List.Nodup
import VersionedQueue.Proofs.Delivery.Isolation
import VersionedQueue.Proofs.Delivery.Retry
import VersionedQueue.Proofs.Run.Opened
import VersionedQueue.Proofs.Run.Replay

/-!
# What counters give out

The ids of entries, the ids of groups and the ids that a group claims come from counters, each in a row
of its own.  What the calls of a queue take from one counter, in the order in which they take it, is
1, 2, 3 and so on: whichever calls fail, none is left out, none is given out twice, and what is taken
from one counter moves no other.
-/

set_option autoImplicit false
set_option relaxedAutoImplicit false

namespace VersionedQueue

/-- The row holds a counter that ids are taken from. -/
def RowKey.IsCounter : RowKey → Prop
  | entryCounter | groupCounter | groupPointer _ => True
  | entry _ | consumer _ _ => False

/-- Ids were taken from the counter of a row, each the next one after where it stood. -/
structure Table.Taken (row : Bytes) (ids : List UInt64) (t t' : Table) : Prop where
  ascending : ∀ n : Nat, t.standing row = n → ids.map (·.toNat) = List.range' (n + 1) ids.length
  stands : t'.standing row = t.standing row + ids.length

namespace Table.Taken

variable {row : Bytes} {ids ids' : List UInt64} {id : UInt64} {t t' t'' : Table}

theorem none (kept : t'.standing row = t.standing row) : Taken row [] t t' where
  ascending _ _ := rfl
  stands := by simpa using kept

theorem one (next : (id.toNat : Int) = t.standing row + 1) (stands : t'.standing row = id.toNat) :
    Taken row [id] t t' where
  ascending n found := by
    have this : id.toNat = n + 1 := by omega
    simp [this]
  stands := by simp only [List.length_singleton]; omega

theorem append (first : Taken row ids t t') (second : Taken row ids' t' t'') :
    Taken row (ids ++ ids') t t'' where
  ascending n found := by
    have later : t'.standing row = ((n + ids.length : Nat) : Int) := by
      rw [first.stands, found]
      omega
    rw [List.map_append, first.ascending n found, second.ascending _ later, List.length_append,
      ← List.range'_append_1]
    congr 2
    omega
  stands := by
    rw [second.stands, first.stands, List.length_append]
    omega

end Table.Taken

/-- The failures of an append before it has an id: its headers are refused, or the increment of the
counter fails. -/
def Entry.FailsUnnumbered (entry : Entry) (err : QueueError) : Prop :=
  (∃ rejection, entry.partitioning.headerCells = .error rejection ∧
      err = .headerSerialization rejection.message) ∨
    ∃ source, err = .internal Purpose.allocateEntryId.text source

namespace Queue

/-- The id that an append takes, whether or not its entry is then written. -/
def takenByEnqueue (q : Queue) (entry : Entry) (st : Storage) : List EntryId :=
  match entry.partitioning.headerCells with
  | .error _ => []
  | .ok _ => (answer? (q.allocateEntryId st)).toList

/-- The id that a member takes from the pointer of its group in one pass; one that is pending was taken
before. -/
def takenInPass (q : Queue) (c : Consumer) (t : Turn) : List EntryId :=
  if t.cursor.pending = none then ((answer? (q.nextClaim c t)).bind id).toList else []

/-- The ids that a member takes from the pointer of its group while it fetches. -/
def takenInFetch (q : Queue) (c : Consumer) (s : Snapshot) (t : Turn) : List EntryId :=
  match _h : q.sharedPass c s t with
  | .ok .passed t' => q.takenInPass c t ++ q.takenInFetch c s t'
  | _ => q.takenInPass c t
termination_by q.claimsLeft c t
decreasing_by exact claimsLeft_lt_of_sharedPass _h

/-- What a request for an entry does before it looks for entries. -/
def prepare (q : Queue) (c : Consumer) (config : Config) (s : Snapshot) : TurnM Unit := do
  MonadExcept.ofExcept config.validate
  MonadExcept.ofExcept (c.validate config.partitioner)
  q.ensureLoaded c config s

/-- The ids that a request for an entry takes from the pointer of its group: those of a member of a
shared group, if its request is accepted and nothing is left in its cache. -/
def takenByDequeue (q : Queue) (c : Consumer) (config : Config) (s : Snapshot) (t : Turn) :
    List EntryId :=
  match q.prepare c config s t with
  | .error _ _ => []
  | .ok _ u =>
      if config.partitioner = .roundRobin ∧ u.cursor.cache.hasNext = false then q.takenInFetch c s u
      else []

variable {q : Queue} {c : Consumer} {config : Config} {s : Snapshot} {t u : Turn} {st : Storage}

theorem enqueue_taken_cases (entry : Entry) (v : Version)
    (counted : 0 ≤ st.table.standing (RowKey.entryCounter.encode q.name)) :
    (q.takenByEnqueue entry st = [] ∧
        Ends (q.enqueue entry v) st (fun _ _ => False) fun _ st' => st'.table = st.table) ∨
      ∃ id, q.takenByEnqueue entry st = [id] ∧
        (id.toNat : Int) = st.table.standing (RowKey.entryCounter.encode q.name) + 1 ∧
        Ends (q.enqueue entry v) st
          (fun p st' => p = ⟨q.name, id⟩ ∧
            st'.table.standing (RowKey.entryCounter.encode q.name) = id.toNat ∧
            ∀ row, row ≠ (RowKey.entry id).encode q.name →
              ∀ column, st'.table.history row column = st.table.history row column)
          fun _ st' => st'.table.standing (RowKey.entryCounter.encode q.name) = id.toNat ∧
            ∀ row column, st'.table.history row column = st.table.history row column := by
  unfold takenByEnqueue enqueue
  cases entry.partitioning.headerCells with
  | error rejection => exact .inl ⟨rfl, rfl⟩
  | ok headers =>
      rcases q.count_one_cases .allocateEntryId .entryCounter st counted with
        ⟨id, st₁, taken, next, stands, same⟩ | ⟨e, st₁, failed, _, same⟩
      · have takes : q.allocateEntryId st = .ok id st₁ := taken
        refine .inr ⟨id, by simp only [takes, answer?]; rfl, next, ?_⟩
        refine .of_eq (bind_eq_of_ok takes) (((q.ends_put .writeEntry (.entry id) _ v).imp ?_ ?_).bind
          fun _ _ written => Ends.pure ⟨rfl, written⟩)
        · rintro _ st₂ ⟨table, _⟩
          refine ⟨?_, fun row other column => ?_⟩
          · rw [table, Table.standing, Table.counter_recordAll, ← stands, Table.standing]
          · rw [table, ← same]
            exact (@Table.touched_recordAll (· = (RowKey.entry id).encode q.name) _ rfl v _
              _).history row other column
        · rintro _ st₂ ⟨_, kept, _⟩
          exact ⟨(kept.standing _).trans stands, fun row column => (kept.history row column).trans
            (same row column)⟩
      · have fails : q.allocateEntryId st = .error e st₁ := failed
        refine .inl ⟨by simp only [fails, answer?]; rfl, .failed (bind_eq_of_error fails) same⟩

theorem takenByEnqueue_eq_nil_iff (entry : Entry) (v : Version)
    (counted : 0 ≤ st.table.standing (RowKey.entryCounter.encode q.name)) :
    q.takenByEnqueue entry st = [] ↔
      ∃ err st', q.enqueue entry v st = .error err st' ∧ entry.FailsUnnumbered err := by
  unfold takenByEnqueue enqueue Entry.FailsUnnumbered
  cases entry.partitioning.headerCells with
  | error rejection => exact iff_of_true rfl ⟨_, st, rfl, .inl ⟨rejection, rfl, rfl⟩⟩
  | ok headers =>
      rcases q.count_one_cases .allocateEntryId .entryCounter st counted with
        ⟨id, st₁, taken, _⟩ | ⟨e, st₁, failed, reported, _⟩
      · have takes : q.allocateEntryId st = .ok id st₁ := taken
        refine iff_of_false (by simp [takes, answer?]) ?_
        rintro ⟨err, st', ended, ⟨_, refused, _⟩ | ⟨source, rfl⟩⟩
        · cases refused
        · -- Whatever fails after the id was taken is the write of the row.
          have written (cells : List (Column × Bytes)) :
              Ends (do q.put .writeEntry (.entry id) cells v; return (⟨q.name, id⟩ : Pointer)) st₁
                (fun _ _ => True) fun e _ => ∃ source, e = .internal Purpose.writeEntry.text source :=
            ((q.ends_put .writeEntry (.entry id) cells v).imp (fun _ _ _ => trivial)
              fun _ _ failed => failed.1).bind fun _ _ _ => Ends.pure trivial
          obtain ⟨_, same⟩ := (written _).of_error ((bind_eq_of_ok takes).symm.trans ended)
          exact absurd (QueueError.internal.inj same).1 (by decide)
      · have fails : q.allocateEntryId st = .error e st₁ := failed
        exact iff_of_true (by simp only [fails, answer?]; rfl)
          ⟨e, st₁, bind_eq_of_error fails, .inr reported⟩

theorem taken_nextClaim (t : Turn) :
    Ends (q.nextClaim c) t
      (fun _ u => t.storage.table.Taken (q.seat c).groupRow (q.takenInPass c t) u.storage.table)
      fun _ u => t.storage.table.Taken (q.seat c).groupRow (q.takenInPass c t) u.storage.table := by
  have ends := q.ends_nextClaim c t
  unfold takenInPass
  refine .intro (fun claim v done => ?_) fun e u failed => ?_
  · rw [done]
    cases ends.of_ok done with
    | pending held => simpa [held] using Table.Taken.none rfl
    | claimed free looked claims =>
        rw [if_pos free]
        exact .one (claims.next.trans (by rw [looked.same.standing])) claims.moved
    | nothing free looked _ =>
        rw [if_pos free]
        exact .none (looked.same.standing _)
  · rw [failed]
    simpa [answer?] using Table.Taken.none ((ends.of_error failed).same.standing _)

private theorem taken_takeUp (claim : Option EntryId) (t : Turn) (row : Bytes) :
    Ends (q.takeUp s claim) t (fun _ u => t.storage.table.Taken row [] u.storage.table)
      fun _ u => t.storage.table.Taken row [] u.storage.table := by
  refine (q.ends_takeUp s claim t).imp (fun pass v takes => ?_)
    fun _ _ failed => .none (failed.1.standing row)
  cases takes with
  | nothing => exact .none rfl
  | found _ same => exact .none (same.1.standing row)
  | waits _ same => exact .none (same.1.standing row)
  | drops _ same => exact .none (same.1.standing row)

theorem taken_sharedPass (t : Turn) :
    Ends (q.sharedPass c s) t
      (fun _ u => t.storage.table.Taken (q.seat c).groupRow (q.takenInPass c t) u.storage.table)
      fun _ u => t.storage.table.Taken (q.seat c).groupRow (q.takenInPass c t) u.storage.table := by
  rw [sharedPass_eq]
  refine (taken_nextClaim t).bind fun claim u taken => ?_
  have both {u' : Turn} (kept : u.storage.table.Taken (q.seat c).groupRow [] u'.storage.table) :
      t.storage.table.Taken (q.seat c).groupRow (q.takenInPass c t) u'.storage.table := by
    simpa using taken.append kept
  exact (taken_takeUp claim u _).imp (fun _ _ kept => both kept) fun _ _ kept => both kept

theorem takenInFetch_of_passed (passed : q.sharedPass c s t = .ok .passed u) :
    q.takenInFetch c s t = q.takenInPass c t ++ q.takenInFetch c s u := by
  rw [takenInFetch]
  split <;> simp_all

theorem takenInFetch_of_ended (ended : ∀ u, q.sharedPass c s t ≠ .ok .passed u) :
    q.takenInFetch c s t = q.takenInPass c t := by
  rw [takenInFetch]
  split <;> simp_all

theorem taken_fetchShared (t : Turn) :
    Ends (q.fetchShared c s) t
      (fun _ u => t.storage.table.Taken (q.seat c).groupRow (q.takenInFetch c s t) u.storage.table)
      fun _ u => t.storage.table.Taken (q.seat c).groupRow (q.takenInFetch c s t) u.storage.table := by
  have repeats := q.repeats_fetchShared c s
  induction t using repeats.induct with
  | passed t t' done ih =>
      have pass := (taken_sharedPass t).of_ok done
      rw [takenInFetch_of_passed done]
      exact .of_eq (repeats.passed done) (ih.imp (fun _ _ later => pass.append later)
        fun _ _ later => pass.append later)
  | found t t' entries done =>
      have pass := (taken_sharedPass t).of_ok done
      rw [takenInFetch_of_ended (by simp [done])]
      exact .answered (repeats.found done) pass
  | exhausted t t' done =>
      rw [takenInFetch_of_ended (by simp [done])]
      exact .answered (repeats.exhausted done) ((taken_sharedPass t).of_ok done)
  | failed t t' e done =>
      rw [takenInFetch_of_ended (by simp [done])]
      exact .failed (repeats.failed done) ((taken_sharedPass t).of_error done)

theorem dequeue_eq_prepare : q.dequeue c config s = (q.prepare c config s >>= fun _ =>
    q.refill c config s >>= fun _ => q.handOut c config s) := by
  simp only [dequeue, prepare, bind_assoc]

private theorem taken_of_keeps {α : Type} {act : TurnM α} {v : Version}
    (kept : (Turn.touched (· = (q.seat c).row) v).Keeps act) (t : Turn) :
    Ends act t (fun _ u => t.storage.table.Taken (q.seat c).groupRow [] u.storage.table)
      fun _ u => t.storage.table.Taken (q.seat c).groupRow [] u.storage.table := by
  have aside : ¬ (q.seat c).groupRow = (q.seat c).row := (q.seat c).row_ne_groupRow.symm
  have nothing {u : Turn} (kept : (Turn.touched (· = (q.seat c).row) v).rel t u) :
      t.storage.table.Taken (q.seat c).groupRow [] u.storage.table :=
    .none (by rw [Table.standing, kept.1.counter _ aside, Table.standing])
  exact (kept.ends t).imp (fun _ _ kept => nothing kept) fun _ _ kept => nothing kept

private theorem taken_refill (t : Turn) :
    Ends (q.refill c config s) t
      (fun _ u => t.storage.table.Taken (q.seat c).groupRow
        (if config.partitioner = .roundRobin ∧ t.cursor.cache.hasNext = false then q.takenInFetch c s t
          else []) u.storage.table)
      fun _ u => t.storage.table.Taken (q.seat c).groupRow
        (if config.partitioner = .roundRobin ∧ t.cursor.cache.hasNext = false then q.takenInFetch c s t
          else []) u.storage.table := by
  cases cached : t.cursor.cache.hasNext with
  | true =>
      rw [if_neg (by simp)]
      exact .answered (refill_of_hasNext cached) (.none rfl)
  | false =>
      refine .of_eq (refill_of_not_hasNext cached) ?_
      cases partitioner : config.partitioner with
      | hash =>
          rw [if_neg (by simp), fetch, partitioner]
          exact taken_of_keeps (v := 0) (q.keeps_fetchDisjoint c config s) t
      | roundRobin =>
          rw [if_pos ⟨rfl, rfl⟩, fetch, partitioner]
          exact taken_fetchShared t

theorem taken_dequeue (t : Turn) :
    Ends (q.dequeue c config s) t
      (fun _ u => t.storage.table.Taken (q.seat c).groupRow (q.takenByDequeue c config s t)
        u.storage.table)
      fun _ u => t.storage.table.Taken (q.seat c).groupRow (q.takenByDequeue c config s t)
        u.storage.table := by
  have admits := q.admits_touching s (· = (q.seat c).row) s.writeVersion
  have writes (purpose : Purpose) (cells : List (Column × Bytes))
      (_ : ∀ cell ∈ cells, WellWritten cell) :=
    StateBound.keeps_onTurns (@Queue.keeps_put (· = (q.seat c).row) s.writeVersion q _ rfl purpose cells)
  have prepared : Ends (q.prepare c config s) t
      (fun _ u => t.storage.table.Taken (q.seat c).groupRow [] u.storage.table)
      fun _ u => t.storage.table.Taken (q.seat c).groupRow [] u.storage.table :=
    taken_of_keeps (StateBound.keeps_bind (StateBound.keeps_ofExcept _) fun _ =>
      StateBound.keeps_bind (StateBound.keeps_ofExcept _) fun _ =>
        admits.ensureLoaded c config writes) t
  rw [dequeue_eq_prepare]
  unfold takenByDequeue
  cases done : q.prepare c config s t with
  | error e u => exact .failed (bind_eq_of_error done) (prepared.of_error done)
  | ok _ u =>
      refine .of_eq (bind_eq_of_ok done) ?_
      have before := prepared.of_ok done
      refine ((taken_refill u).imp (fun _ _ taken => before.append taken)
        fun _ _ taken => before.append taken).bind fun _ w taken => ?_
      exact (taken_of_keeps (admits.handOut c config writes) w).imp
        (fun _ _ kept => by simpa using taken.append kept)
        fun _ _ kept => by simpa using taken.append kept

theorem count_past_range (purpose : Purpose) {key : RowKey} {delta : Int64}
    (full : Int64.maxValue.toInt < st.table.standing (key.encode q.name) + delta.toInt) :
    ∃ source st', q.count purpose key delta st = .error (.internal purpose.text source) st' ∧
      st.table.Alike st'.table := by
  have refused : Ends (Storage.increment purpose (key.encode q.name) Column.counter.encode delta) st
      (fun _ _ => False)
      fun e st' => (∃ source, e = .internal purpose.text source) ∧ st.Alike st' := by
    refine Storage.ends_call (TableM.failsClean_increment _ _ _) fun value st' done _ => ?_
    have sum := Table.toInt_of_checkedAdd (TableM.counter_of_increment done).1
    have top : value.toInt ≤ Int64.maxValue.toInt := Int64.toInt_le value
    rw [Table.standing] at full
    omega
  cases added : Storage.increment purpose (key.encode q.name) Column.counter.encode delta st with
  | ok value st' => exact (refused.of_ok added).elim
  | error e st' =>
      obtain ⟨⟨source, rfl⟩, same⟩ := refused.of_error added
      exact ⟨source, st', bind_eq_of_error added, same.1⟩

theorem enqueue_past_range {entry : Entry} (v : Version) {headers : List (Column × Bytes)}
    (accepted : entry.partitioning.headerCells = .ok headers)
    (full : st.table.standing (RowKey.entryCounter.encode q.name) = Int64.maxValue.toInt) :
    ∃ source st', q.enqueue entry v st =
      .error (.internal Purpose.allocateEntryId.text source) st' ∧ st.table.Alike st'.table := by
  have one : (1 : Int64).toInt = 1 := rfl
  obtain ⟨source, st', failed, same⟩ :=
    @count_past_range q st .allocateEntryId .entryCounter 1 (by omega)
  refine ⟨source, st', ?_, same⟩
  simp only [enqueue, accepted]
  exact bind_eq_of_error failed

end Queue

/-- The ids that a call takes from the counters of its queue, each with the counter that it is from. -/
def Event.taken (e : Event) : List (RowKey × UInt64) :=
  let st := { e.before with plan := e.call.plan }
  match e.call.request with
  | .enqueue entry _ => (e.call.queue.takenByEnqueue entry st).map (.entryCounter, ·)
  | .allocateGroupId => (answer? (e.call.queue.allocateGroupId st)).toList.map (.groupCounter, ·)
  | .dequeue c config cursor s =>
      (e.call.queue.takenByDequeue c config s ⟨st, cursor⟩).map (.groupPointer c.group, ·)
  | _ => []

/-- The ids that a call takes from one counter. -/
def Event.takenFrom (e : Event) (queue : String) (key : RowKey) : List UInt64 :=
  if e.call.queue.name = queue then (e.taken.filter (·.1 = key)).map (·.2) else []

/-- The ids that the calls of a run took from one counter of a queue, in the order of the calls. -/
def idsTaken (queue : String) (key : RowKey) : List Event → List UInt64
  | [] => []
  | e :: past => idsTaken queue key past ++ e.takenFrom queue key

namespace Event

variable {e : Event} {queue : String} {key : RowKey}

theorem touches_of_mem_taken {id : UInt64} (mem : (key, id) ∈ e.taken) : e.call.request.Touches key := by
  unfold taken at mem
  cases asked : e.call.request with
  | enqueue entry v =>
      simp only [asked, List.mem_map] at mem
      obtain ⟨_, _, same⟩ := mem
      cases same
      exact .inl rfl
  | allocateGroupId =>
      simp only [asked, List.mem_map] at mem
      obtain ⟨_, _, same⟩ := mem
      cases same
      rfl
  | dequeue c config cursor s =>
      simp only [asked, List.mem_map] at mem
      obtain ⟨_, _, same⟩ := mem
      cases same
      exact .inr rfl
  | invalidate p v => simp [asked] at mem
  | ack p c s => simp [asked] at mem
  | unack p c s => simp [asked] at mem
  | info => simp [asked] at mem

private theorem after_of_ends {α : Type} {wrap : α → Answer} {act : StorageM α} {st : Storage}
    {P : Table → Prop} (performed : e.outcome = .ofStorage wrap (act st))
    (h : Ends act st (fun _ st' => P st'.table) fun _ st' => P st'.table) : P e.after.table := by
  rw [after, performed]
  cases done : act st with
  | ok a st' => exact h.of_ok done
  | error e st' => exact h.of_error done

private theorem takenFrom_of_map {ids : List UInt64} (taken : e.taken = ids.map (key, ·)) :
    e.takenFrom e.call.queue.name key = ids := by
  have all : (ids.map (key, ·)).filter (·.1 = key) = ids.map (key, ·) :=
    List.filter_eq_self.2 fun _ mem => by
      obtain ⟨_, _, rfl⟩ := List.mem_map.1 mem
      simp
  simp [takenFrom, taken, all, Function.comp_def]

theorem untaken (opens : e.call.queue.Opens) (short : ShortName queue)
    (out : ¬ (e.call.queue.name = queue ∧ e.call.request.Touches key)) :
    e.takenFrom queue key = [] ∧
      e.after.table.standing (key.encode queue) = e.before.table.standing (key.encode queue) := by
  constructor
  · unfold takenFrom
    split
    · rename_i name
      rw [List.map_eq_nil_iff, List.filter_eq_nil_iff]
      rintro ⟨_, id⟩ mem same
      obtain rfl := of_decide_eq_true same
      exact out ⟨name, touches_of_mem_taken mem⟩
    · rfl
  · have aside := not_touches_of_opens opens short fun name touches => out ⟨name, touches⟩
    rw [Table.standing, e.touched.counter _ aside, Table.standing]

section Own

variable {entry : Entry} {v : Version} {c : Consumer} {config : Config} {cursor : Cursor} {s : Snapshot}

private theorem outcome_of_enqueue (asked : e.call.request = .enqueue entry v) :
    e.outcome = .ofStorage .enqueued
      (e.call.queue.enqueue entry v { e.before with plan := e.call.plan }) := by
  simp only [outcome, Call.perform, asked]

private theorem takenFrom_eq_takenByEnqueue (asked : e.call.request = .enqueue entry v) :
    e.takenFrom e.call.queue.name .entryCounter =
      e.call.queue.takenByEnqueue entry { e.before with plan := e.call.plan } :=
  takenFrom_of_map (by simp only [taken, asked])

private theorem entries_taken (asked : e.call.request = .enqueue entry v)
    (counted : 0 ≤ e.before.table.standing (RowKey.entryCounter.encode e.call.queue.name)) :
    e.before.table.Taken (RowKey.entryCounter.encode e.call.queue.name)
      (e.takenFrom e.call.queue.name .entryCounter) e.after.table := by
  rw [takenFrom_eq_takenByEnqueue asked]
  refine after_of_ends (outcome_of_enqueue asked) ?_
  rcases @Queue.enqueue_taken_cases e.call.queue { e.before with plan := e.call.plan } entry v counted with
    ⟨none, ends⟩ | ⟨id, one, next, ends⟩
  · rw [none]
    exact ends.imp (fun _ _ never => never.elim) fun _ _ same => .none (by rw [same])
  · rw [one]
    exact ends.imp (fun _ _ done => .one next done.2.1) fun _ _ failed => .one next failed.1

private theorem groups_taken (asked : e.call.request = .allocateGroupId)
    (counted : 0 ≤ e.before.table.standing (RowKey.groupCounter.encode e.call.queue.name)) :
    e.before.table.Taken (RowKey.groupCounter.encode e.call.queue.name)
      (e.takenFrom e.call.queue.name .groupCounter) e.after.table := by
  let st := { e.before with plan := e.call.plan }
  have lists : e.taken = (answer? (e.call.queue.allocateGroupId st)).toList.map (.groupCounter, ·) := by
    simp only [taken, asked, st]
  have performed : e.outcome = .ofStorage .allocated (e.call.queue.allocateGroupId st) := by
    simp only [outcome, Call.perform, asked, st]
  rw [takenFrom_of_map lists]
  refine after_of_ends performed ?_
  rcases e.call.queue.count_one_cases .allocateGroupId .groupCounter st counted with
    ⟨id, st₁, done, next, stands, _⟩ | ⟨err, st₁, failed, _, same⟩
  · have takes : e.call.queue.allocateGroupId st = .ok id st₁ := done
    rw [takes]
    exact .answered takes (.one next stands)
  · have fails : e.call.queue.allocateGroupId st = .error err st₁ := failed
    rw [fails]
    exact .failed fails (.none (by rw [same]))

private theorem claims_taken (asked : e.call.request = .dequeue c config cursor s) :
    e.before.table.Taken ((RowKey.groupPointer c.group).encode e.call.queue.name)
      (e.takenFrom e.call.queue.name (.groupPointer c.group)) e.after.table := by
  let t : Turn := ⟨{ e.before with plan := e.call.plan }, cursor⟩
  have lists : e.taken = (e.call.queue.takenByDequeue c config s t).map (.groupPointer c.group, ·) := by
    simp only [taken, asked, t]
  rw [takenFrom_of_map lists, after, outcome_of_dequeue asked]
  have ends := @Queue.taken_dequeue e.call.queue c config s t
  cases done : e.call.queue.dequeue c config s ⟨{ e.before with plan := e.call.plan }, cursor⟩ with
  | ok d u => exact ends.of_ok done
  | error err u => exact ends.of_error done

end Own

/-- A call takes the next ids of a counter of its queue, and none of any other counter. -/
theorem taken_from (opens : e.call.queue.Opens) (short : ShortName queue) (counter : key.IsCounter)
    (counted : ∀ row, 0 ≤ e.before.table.standing row) :
    e.before.table.Taken (key.encode queue) (e.takenFrom queue key) e.after.table := by
  by_cases here : e.call.queue.name = queue ∧ e.call.request.Touches key
  · obtain ⟨rfl, touches⟩ := here
    cases asked : e.call.request with
    | enqueue entry v =>
        rw [asked] at touches
        rcases touches with rfl | ⟨id, rfl⟩
        · exact entries_taken asked (counted _)
        · exact counter.elim
    | allocateGroupId =>
        rw [asked] at touches
        obtain rfl : key = .groupCounter := touches
        exact groups_taken asked (counted _)
    | dequeue c config cursor s =>
        rw [asked] at touches
        rcases touches with rfl | rfl
        · exact counter.elim
        · exact claims_taken asked
    | invalidate p v =>
        rw [asked] at touches
        cases touches
        exact counter.elim
    | ack p c s =>
        rw [asked] at touches
        cases touches
        exact counter.elim
    | unack p c s =>
        rw [asked] at touches
        cases touches
        exact counter.elim
    | info =>
        rw [asked] at touches
        exact touches.elim
  · obtain ⟨none, kept⟩ := untaken opens short here
    rw [none]
    exact .none kept

theorem takenFrom_of_enqueue {entry : Entry} {v : Version} (asked : e.call.request = .enqueue entry v)
    (counted : 0 ≤ e.before.table.standing (RowKey.entryCounter.encode e.call.queue.name)) :
    (e.takenFrom e.call.queue.name .entryCounter = [] ∧
        (∃ err, e.outcome.answer = .error err) ∧ e.after.table = e.before.table) ∨
      ∃ id, e.takenFrom e.call.queue.name .entryCounter = [id] ∧
        (∀ p, e.appended? = some p → p = ⟨e.call.queue.name, id⟩) ∧
        ∀ row, row ≠ (RowKey.entry id).encode e.call.queue.name → ¬ e.Writes row := by
  rw [takenFrom_eq_takenByEnqueue asked]
  rcases @Queue.enqueue_taken_cases e.call.queue { e.before with plan := e.call.plan } entry v counted with
    ⟨none, ends⟩ | ⟨id, one, _, ends⟩
  · have kept : e.after.table = e.before.table :=
      after_of_ends (P := (· = e.before.table)) (outcome_of_enqueue asked)
        (ends.imp (fun _ _ never => never.elim) fun _ _ same => same)
    refine .inl ⟨none, ?_, kept⟩
    rw [outcome_of_enqueue asked]
    cases done : e.call.queue.enqueue entry v { e.before with plan := e.call.plan } with
    | ok p st => exact (ends.of_ok done).elim
    | error err st => exact ⟨err, rfl⟩
  · refine .inr ⟨id, one, fun p answered => ?_, fun row other writes => ?_⟩
    · rw [appended?, outcome_of_enqueue asked] at answered
      cases done : e.call.queue.enqueue entry v { e.before with plan := e.call.plan } with
      | ok p' st =>
          rw [done] at answered
          cases answered
          exact (ends.of_ok done).1
      | error err st =>
          rw [done] at answered
          cases answered
    · obtain ⟨column, changed⟩ := writes
      have kept : e.after.table.history row column = e.before.table.history row column :=
        after_of_ends (P := (·.history row column = e.before.table.history row column))
          (outcome_of_enqueue asked)
          (ends.imp (fun _ _ done => done.2.2 row other column) fun _ _ failed => failed.2 row column)
      exact changed kept

theorem takenFrom_eq_nil_iff {entry : Entry} {v : Version} (asked : e.call.request = .enqueue entry v)
    (counted : 0 ≤ e.before.table.standing (RowKey.entryCounter.encode e.call.queue.name)) :
    e.takenFrom e.call.queue.name .entryCounter = [] ↔
      ∃ err, e.outcome.answer = .error err ∧ entry.FailsUnnumbered err := by
  rw [takenFrom_eq_takenByEnqueue asked, outcome_of_enqueue asked]
  refine (@Queue.takenByEnqueue_eq_nil_iff e.call.queue { e.before with plan := e.call.plan } entry v
    counted).trans ?_
  constructor
  · rintro ⟨err, st, failed, unnumbered⟩
    rw [failed]
    exact ⟨err, rfl, unnumbered⟩
  · rintro ⟨err, answered, unnumbered⟩
    cases done : e.call.queue.enqueue entry v { e.before with plan := e.call.plan } with
    | ok p st =>
        rw [done] at answered
        cases answered
    | error err' st =>
        rw [done] at answered
        cases answered
        exact ⟨err, st, rfl, unnumbered⟩

end Event

section Run

variable {past : List Event} {queue : String} {key : RowKey}

theorem opens_of_mem (run : Run Opened past) {e : Event} (mem : e ∈ past) : e.call.queue.Opens := by
  induction run with
  | start => cases mem
  | next _ opens ih =>
      rcases List.mem_cons.1 mem with rfl | mem
      · exact opens
      · exact ih mem

/-- The calls of a run take the ids of each counter one after the other, from the first. -/
theorem idsTaken_of_run (run : Run Opened past) (short : ShortName queue) (counter : key.IsCounter) :
    Table.Taken (key.encode queue) (idsTaken queue key past) {} (storageAfter past).table := by
  induction run with
  | start => exact .none rfl
  | @next past call earlier opens ih =>
      exact ih.append (Event.taken_from (e := ⟨call, storageAfter past⟩) opens short counter
        (standing_nonneg earlier))

theorem idsTaken_eq_range' (run : Run Opened past) (short : ShortName queue) (counter : key.IsCounter) :
    (idsTaken queue key past).map (·.toNat) = List.range' 1 (idsTaken queue key past).length :=
  (idsTaken_of_run run short counter).ascending 0 rfl

/-- A counter stands at the number of ids that were taken from it. -/
theorem standing_of_run (run : Run Opened past) (short : ShortName queue) (counter : key.IsCounter) :
    (storageAfter past).table.standing (key.encode queue) = (idsTaken queue key past).length := by
  have zero : Table.standing {} (key.encode queue) = 0 := rfl
  rw [(idsTaken_of_run run short counter).stands, zero, Int.zero_add]

theorem info_of_run (run : Run Opened past) (short : ShortName queue) {call : Call}
    (name : call.queue.name = queue) (asked : call.request = .info) :
    (call.plan = .none → ∃ info, (call.perform (storageAfter past)).answer = .ok (.informed info)) ∧
      ∀ info, (call.perform (storageAfter past)).answer = .ok (.informed info) →
        info.name = queue ∧
          info.writePointer.toNat = (idsTaken queue .entryCounter past).length := by
  subst name
  let st := { storageAfter past with plan := call.plan }
  have performed : call.perform (storageAfter past) = .ofStorage .informed (call.queue.info st) := by
    simp only [Call.perform, asked, st]
  have stands : st.table.standing (RowKey.entryCounter.encode call.queue.name) =
      (idsTaken call.queue.name .entryCounter past).length := standing_of_run run short trivial
  have told : Ends call.queue.info st
      (fun info _ => info.name = call.queue.name ∧
        info.writePointer.toNat = (idsTaken call.queue.name .entryCounter past).length)
      fun _ _ => True := by
    refine ((call.queue.ends_count_zero .readWritePointer .entryCounter).imp (fun w _ done => ?_)
      fun _ _ _ => trivial : Ends call.queue.writePointer st
        (fun w _ => w.toNat = (idsTaken call.queue.name .entryCounter past).length) _).bind
      fun w _ known => Ends.pure ⟨rfl, known⟩
    exact Int.ofNat_inj.1 (done.2.1.trans stands)
  rw [performed]
  constructor
  · intro calm
    obtain ⟨w, st', done, _⟩ := call.queue.answers_count_zero .readWritePointer .entryCounter
      (⟨calm, works_of_run run⟩ : st.Reliable) (standing_nonneg run _)
    have informed : call.queue.info st = .ok ⟨call.queue.name, w⟩ st' := bind_eq_of_ok done
    exact ⟨⟨call.queue.name, w⟩, by rw [informed]; rfl⟩
  · intro info answered
    cases done : call.queue.info st with
    | ok info' st' =>
        rw [done] at answered
        cases answered
        exact told.of_ok done
    | error e st' =>
        rw [done] at answered
        cases answered

end Run

/-- In any run of the queues of a table, the ids taken from a counter of a queue are 1, 2, 3 and so on in
the order of the calls, and the counter stands at the last.  An append takes one, under which alone it
writes, or fails having taken none and changed nothing; it takes none exactly if its headers are refused or
the increment fails.  No call moves a counter but its own; and a queue tells the number of ids taken for
entries.  An increment past the range of a counter fails and changes nothing. -/
theorem ids_counted_up {past : List Event} {queue : String} (short : ShortName queue)
    (run : Run Opened past) :
    (∀ key : RowKey, key.IsCounter →
      (idsTaken queue key past).map (·.toNat) = List.range' 1 (idsTaken queue key past).length ∧
      (idsTaken queue key past).Nodup ∧
      (storageAfter past).table.standing (key.encode queue) = (idsTaken queue key past).length) ∧
    (∀ e ∈ past, e.call.queue.name = queue → ∀ entry v, e.call.request = .enqueue entry v →
      (e.takenFrom queue .entryCounter = [] ∧
        (∃ err, e.outcome.answer = .error err) ∧ e.after.table = e.before.table) ∨
      ∃ id, e.takenFrom queue .entryCounter = [id] ∧
        (∀ p, e.appended? = some p → p = ⟨queue, id⟩) ∧
        ∀ row, row ≠ (RowKey.entry id).encode queue → ¬ e.Writes row) ∧
    (∀ e ∈ past, e.call.queue.name = queue → ∀ entry v, e.call.request = .enqueue entry v →
      (e.takenFrom queue .entryCounter = [] ↔
        ∃ err, e.outcome.answer = .error err ∧ entry.FailsUnnumbered err)) ∧
    (∀ e ∈ past, ∀ key : RowKey, key.IsCounter →
      ¬ (e.call.queue.name = queue ∧ e.call.request.Touches key) →
      e.takenFrom queue key = [] ∧
        e.after.table.standing (key.encode queue) = e.before.table.standing (key.encode queue)) ∧
    (∀ call : Call, call.queue.name = queue → call.request = .info →
      (call.plan = .none →
        ∃ info, (call.perform (storageAfter past)).answer = .ok (.informed info)) ∧
      ∀ info, (call.perform (storageAfter past)).answer = .ok (.informed info) →
        info.name = queue ∧
          info.writePointer.toNat = (idsTaken queue .entryCounter past).length) ∧
    (∀ (q : Queue) (st : Storage) (purpose : Purpose) (key : RowKey) (delta : Int64),
      Int64.maxValue.toInt < st.table.standing (key.encode q.name) + delta.toInt →
      ∃ source st', q.count purpose key delta st = .error (.internal purpose.text source) st' ∧
        st.table.Alike st'.table) ∧
    ∀ (q : Queue) (st : Storage) (entry : Entry) (v : Version) headers,
      entry.partitioning.headerCells = .ok headers →
      st.table.standing (RowKey.entryCounter.encode q.name) = Int64.maxValue.toInt →
      ∃ source st', q.enqueue entry v st =
          .error (.internal Purpose.allocateEntryId.text source) st' ∧ st.table.Alike st'.table := by
  refine ⟨fun key counter => ⟨idsTaken_eq_range' run short counter, ?_,
      standing_of_run run short counter⟩, fun e mem name entry v asked => ?_,
    fun e mem name entry v asked => ?_,
    fun e mem key counter out => ?_, fun call name asked => info_of_run run short name asked,
    fun q st purpose key delta full => ?_, fun q st entry v headers accepted full => ?_⟩
  · refine List.Nodup.of_map (·.toNat) ?_
    rw [idsTaken_eq_range' run short counter]
    exact List.nodup_range'
  · subst name
    exact Event.takenFrom_of_enqueue asked (counted_of_mem run mem _)
  · subst name
    exact Event.takenFrom_eq_nil_iff asked (counted_of_mem run mem _)
  · exact Event.untaken (opens_of_mem run mem) short out
  · exact Queue.count_past_range purpose full
  · exact Queue.enqueue_past_range v accepted full

/-- An append is refused for its headers, one fails before it has an id and one after, and two groups ask
for entries. -/
def numberedCalls : List Call :=
  let queue : Queue := ⟨"q", ⟨.roundRobin, 20⟩⟩
  let first : Consumer := { group := 1, member := 0, groupSize := 1 }
  let second : Consumer := { group := 2, member := 0, groupSize := 1 }
  [⟨queue, .dequeue second queue.config .fresh (.upTo 9), .none⟩,
    ⟨queue, .dequeue first queue.config .fresh (.upTo 9), fun kind n => kind == .put && n == 3⟩,
    ⟨queue, .allocateGroupId, .none⟩,
    ⟨queue, .enqueue ⟨[99], {}⟩ 5, fun kind _ => kind == .put⟩,
    ⟨queue, .enqueue ⟨[98], {}⟩ 4, fun kind _ => kind == .increment⟩,
    ⟨queue, .enqueue ⟨[98], .ofList [("", (7 : Int32))]⟩ 4, .none⟩,
    ⟨queue, .enqueue ⟨[97], {}⟩ 3, .none⟩]

private theorem numbered_run : Run Opened (replay numberedCalls) := by
  have opens : Queue.Opens ⟨"q", ⟨.roundRobin, 20⟩⟩ := rfl
  exact .replay_cons (.replay_cons (.replay_cons (.replay_cons (.replay_cons (.replay_cons
    (.replay_cons .start opens) opens) opens) opens) opens) opens) opens

/-- Two ids were taken for entries, each group has claimed the first, and the queue tells that there are
two. -/
theorem numbered_from_one :
    (idsTaken "q" .entryCounter (replay numberedCalls)).map (·.toNat) = [1, 2] ∧
      (idsTaken "q" (.groupPointer 1) (replay numberedCalls)).map (·.toNat) = [1] ∧
      (idsTaken "q" (.groupPointer 2) (replay numberedCalls)).map (·.toNat) = [1] ∧
      ∃ info, info.writePointer.toNat = 2 ∧
        (Call.perform ⟨⟨"q", ⟨.roundRobin, 20⟩⟩, .info, .none⟩
          (storageAfter (replay numberedCalls))).answer = .ok (.informed info) := by
  have opens : Queue.Opens ⟨"q", ⟨.roundRobin, 20⟩⟩ := rfl
  obtain ⟨numbered, _, _, _, told, _⟩ := ids_counted_up opens.shortName numbered_run
  have two : (idsTaken "q" .entryCounter (replay numberedCalls)).length = 2 := by
    with_unfolding_all decide
  have one : (idsTaken "q" (.groupPointer 1) (replay numberedCalls)).length = 1 := by
    with_unfolding_all decide
  have one' : (idsTaken "q" (.groupPointer 2) (replay numberedCalls)).length = 1 := by
    with_unfolding_all decide
  obtain ⟨answers, number⟩ := told ⟨⟨"q", ⟨.roundRobin, 20⟩⟩, .info, .none⟩ rfl rfl
  obtain ⟨info, informed⟩ := answers rfl
  refine ⟨?_, ?_, ?_, info, (number info informed).2.trans two, informed⟩
  · rw [(numbered .entryCounter trivial).1, two]
    rfl
  · rw [(numbered (.groupPointer 1) trivial).1, one]
    rfl
  · rw [(numbered (.groupPointer 2) trivial).1, one']
    rfl

end VersionedQueue
