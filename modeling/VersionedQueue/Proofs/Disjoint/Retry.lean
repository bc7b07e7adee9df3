import VersionedQueue.Proofs.Consumer.Load
import VersionedQueue.Proofs.Run.Replay

/-!
# Retrying without a cursor

A member of a disjoint group that keeps no cursor asks again, under the same snapshot, until it is
answered.  Each attempt that fails has read, and has at most cleared the active entry of the stored
row as loading does.  So the answer is the one that storage which works would have given at once.
-/

set_option autoImplicit false
set_option relaxedAutoImplicit false

namespace VersionedQueue

namespace Turn

variable {α : Type} {act : TurnM α} {st st' : Storage}

theorem scratch_ok {a : α} :
    scratch act st = .ok a st' ↔ ∃ k, act ⟨st, .fresh⟩ = .ok a ⟨st', k⟩ := by
  unfold scratch
  cases done : act ⟨st, .fresh⟩ with
  | ok b t =>
      constructor
      · intro same
        cases same
        exact ⟨t.cursor, rfl⟩
      · rintro ⟨k, same⟩
        cases same
        rfl
  | error e t =>
      constructor
      · intro same
        cases same
      · rintro ⟨k, same⟩
        cases same

theorem scratch_error {e : QueueError} :
    scratch act st = .error e st' ↔ ∃ k, act ⟨st, .fresh⟩ = .error e ⟨st', k⟩ := by
  unfold scratch
  cases done : act ⟨st, .fresh⟩ with
  | ok b t =>
      constructor
      · intro same
        cases same
      · rintro ⟨k, same⟩
        cases same
  | error e' t =>
      constructor
      · intro same
        cases same
        exact ⟨t.cursor, rfl⟩
      · rintro ⟨k, same⟩
        cases same
        rfl

end Turn

namespace Queue

variable (q : Queue) (c : Consumer) (config : Config) (s : Snapshot)

/-- Attempts that failed, each on the storage that the one before it left and with failures of its
own. -/
inductive FailedAttempts (st : Storage) : Storage → Prop
  | none : FailedAttempts st st
  | again {st' st'' : Storage} {plan : FaultPlan} {e : QueueError} : FailedAttempts st st' →
      Turn.scratch (q.dequeue c config s) { st' with plan } = .error e st'' → FailedAttempts st st''

/-- A table is as loading finds it or as loading leaves it. -/
def LoadedOrNot (st : Storage) (t : Table) : Prop :=
  st.table.Alike t ∨
    ∃ u, q.load c config s ⟨st.repair, .fresh⟩ = .ok () u ∧ u.storage.table.Alike t

variable {q c config s}

theorem dequeue_of_valid {t : Turn} (valid : config.validate = .ok ())
    (member : c.validate config.partitioner = .ok ()) :
    q.dequeue c config s t =
      (q.ensureLoaded c config s >>= fun _ => q.refill c config s >>= fun _ =>
        q.handOut c config s) t := by
  unfold dequeue
  rw [valid, member]
  rfl

theorem valid_of_dequeue {t t' : Turn} {d : Delivery} (h : q.dequeue c config s t = .ok d t') :
    config.validate = .ok () ∧ c.validate config.partitioner = .ok () := by
  obtain ⟨_, t₁, valid, h⟩ := ok_of_bind h
  obtain ⟨_, t₂, member, _⟩ := ok_of_bind h
  exact ⟨(state_of_ofExcept valid).1, (state_of_ofExcept member).1⟩

theorem ends_handOut (t : Turn) :
    Ends (q.handOut c config s) t (fun _ _ => True) fun _ t' => t.storage.Alike t'.storage := by
  have written (cells : List (Column × Bytes)) (t : Turn) :
      Ends (Turn.onStorage (q.writeConsumer c cells s)) t (fun _ _ => True)
        fun _ t' => t.storage.Alike t'.storage :=
    (Turn.ends_onStorage (q.ends_put _ _ _ _)).imp (fun _ _ _ => trivial)
      fun _ _ failed => failed.1.2
  unfold handOut
  apply Turn.ends_cursorNow
  cases t.cursor.cache.next? with
  | some found =>
      apply Turn.ends_update
      unfold serve
      apply Turn.ends_update
      apply Turn.ends_cursorNow
      exact (written _ _).bind fun _ _ _ => trivial
  | none => exact (Turn.ends_cursorNow (written _ _)).bind fun _ _ _ => trivial

theorem ends_refillDisjoint (hash : config.partitioner = .hash) (t : Turn) :
    Ends (q.refill c config s) t (fun _ t' => t.storage.Alike t'.storage)
      fun _ t' => t.storage.Alike t'.storage := by
  unfold refill
  apply Turn.ends_cursorNow
  split
  · exact Ends.pure (.refl _)
  · rw [fetch, hash]
    exact ((q.keeps_fetchDisjoint c config s).ends t).imp (fun _ _ kept => .of_touched (v := 0) kept)
      fun _ _ kept => .of_touched (v := 0) kept

theorem ends_attempt (hash : config.partitioner = .hash) (st : Storage) :
    Ends (q.dequeue c config s) ⟨st, .fresh⟩ (fun _ _ => True)
      fun _ t' => LoadedOrNot q c config s st t'.storage.table := by
  have found : LoadedOrNot q c config s st st.table := .inl (.refl _)
  unfold dequeue
  refine Ends.ofExcept_bind (fun _ _ => found) fun _ _ => ?_
  refine Ends.ofExcept_bind (fun _ _ => found) fun _ _ => ?_
  have loads : Ends (q.ensureLoaded c config s) ⟨st, .fresh⟩
      (fun _ t' => ∃ u, q.load c config s ⟨st.repair, .fresh⟩ = .ok () u ∧
        u.storage.table.Alike t'.storage.table)
      fun _ t' => LoadedOrNot q c config s st t'.storage.table := by
    refine .of_eq (q.ensureLoaded_of_unloaded c config s rfl) (.intro (fun _ t' done => ?_)
      fun _ t' failed => .inl ((ends_load _).of_error failed).1)
    have agree := (q.mirrored_load c config s).agree (Turn.alike_repair ⟨st, .fresh⟩) rfl
      (.inl ⟨_, _, done⟩)
    rw [done] at agree
    obtain ⟨u, calm, same⟩ := agree.of_ok
    exact ⟨u, calm, same.1.symm⟩
  refine loads.bind ?_
  rintro _ t' ⟨u, loaded, same⟩
  refine ((ends_refillDisjoint hash t').imp (fun _ _ kept => same.trans kept.1)
    fun _ _ kept => .inr ⟨u, loaded, same.trans kept.1⟩).bind ?_
  rintro _ t'' same'
  exact (ends_handOut t'').imp (fun _ _ _ => trivial)
    fun _ _ kept => .inr ⟨u, loaded, same'.trans kept.1⟩

theorem LoadedOrNot.agree_load {st st' : Storage} (h : LoadedOrNot q c config s st st'.table) :
    Turn.Agree (q.load c config s ⟨st.repair, .fresh⟩) (q.load c config s ⟨st'.repair, .fresh⟩) := by
  have mirrored := q.mirrored_load c config s
  rcases h with same | ⟨u, loaded, same⟩
  · exact mirrored.agree ⟨same, rfl⟩ rfl (.inr rfl)
  · obtain ⟨u', again, still⟩ := load_again rfl loaded
    have calm : u.Calm := by
      have kept := mirrored.calm (Turn.calm_repair ⟨st, .fresh⟩)
      rwa [Turn.repair, loaded] at kept
    have alike : Turn.Alike ⟨u.storage, .fresh⟩ ⟨st'.repair, .fresh⟩ := ⟨same, rfl⟩
    have agree := mirrored.agree alike rfl (.inr calm)
    rw [again] at agree
    rw [loaded]
    exact (Turn.Agree.ok still).trans agree

/-- Where no call fails, a request without a cursor does the same there as well. -/
theorem LoadedOrNot.agree {st st' : Storage} (h : LoadedOrNot q c config s st st'.table)
    (valid : config.validate = .ok ()) (member : c.validate config.partitioner = .ok ()) :
    Turn.Agree (q.dequeue c config s ⟨st.repair, .fresh⟩)
      (q.dequeue c config s ⟨st'.repair, .fresh⟩) := by
  rw [dequeue_of_valid valid member, dequeue_of_valid valid member]
  refine Mirrored.agree_bind (q.mirrored_ensureLoaded c config s) (fun _ =>
    .bind (q.mirrored_refill c config s) fun _ => q.mirrored_handOut c config s) rfl rfl ?_
  rw [q.ensureLoaded_of_unloaded c config s rfl, q.ensureLoaded_of_unloaded c config s rfl]
  exact h.agree_load

/-- Failed attempts leave the table as they found it, or as loading leaves it. -/
theorem FailedAttempts.loadedOrNot (hash : config.partitioner = .hash) {st st' : Storage}
    (failed : FailedAttempts q c config s st st') : LoadedOrNot q c config s st st'.table := by
  induction failed with
  | none => exact .inl (.refl _)
  | @again st' st'' plan e _ fails ih =>
      obtain ⟨k, fails⟩ := Turn.scratch_error.1 fails
      rcases (ends_attempt hash { st' with plan }).of_error fails with same | ⟨u, loaded, same⟩
      · exact ih.imp (·.trans same) fun ⟨u, loaded, before⟩ => ⟨u, loaded, before.trans same⟩
      · have agree := ih.agree_load.symm
        have loaded : q.load c config s ⟨st'.repair, .fresh⟩ = .ok () u := loaded
        rw [loaded] at agree
        obtain ⟨u', loaded', alike⟩ := agree.of_ok
        exact .inr ⟨u', loaded', alike.1.symm.trans same⟩

theorem LoadedOrNot.kept {st : Storage} {t : Table} (h : LoadedOrNot q c config s st t) :
    (∀ row column, ¬ (row = (q.seat c).row ∧ column = Column.active.encode) →
      t.history row column = st.table.history row column) ∧
    ∀ row column, t.counter row column = st.table.counter row column := by
  rcases h with same | ⟨u, loaded, same⟩
  · exact ⟨fun row column _ => same.history row column, same.counter⟩
  · rcases untouched_of_load loaded with before | cleared
    · have still := before.trans same
      exact ⟨fun row column _ => still.history row column, still.counter⟩
    · have cleared := cleared.of_alike same
      exact ⟨fun row column other => cleared.history other, fun row column =>
        Table.Alike.counter cleared row column⟩

/-- A member of a disjoint group that asks without a cursor until it is answered gets the answer, and
leaves the table, of one request on storage that works.  The attempts that failed before have left all
counters as they were, and all cells but the active entry of the consumer's own row. -/
theorem retry_answers_as_once (hash : config.partitioner = .hash) {st st' : Storage}
    (failed : FailedAttempts q c config s st st') :
    (∀ plan d after, Turn.scratch (q.dequeue c config s) { st' with plan } = .ok d after →
      ∃ once, Turn.scratch (q.dequeue c config s) st.repair = .ok d once ∧
        once.table.Alike after.table) ∧
    (∀ d once, Turn.scratch (q.dequeue c config s) st.repair = .ok d once →
      ∃ after, Turn.scratch (q.dequeue c config s) st'.repair = .ok d after ∧
        once.table.Alike after.table) ∧
    (∀ row column, ¬ (row = (q.seat c).row ∧ column = Column.active.encode) →
      st'.table.history row column = st.table.history row column) ∧
    ∀ row column, st'.table.counter row column = st.table.counter row column := by
  have settled := failed.loadedOrNot hash
  refine ⟨fun plan d after answered => ?_, fun d once answered => ?_, settled.kept⟩
  · obtain ⟨k, answered⟩ := Turn.scratch_ok.1 answered
    obtain ⟨valid, member⟩ := valid_of_dequeue answered
    have calm := (q.mirrored_dequeue c config s).agree
      (Turn.alike_repair ⟨{ st' with plan }, .fresh⟩) rfl (.inl ⟨_, _, answered⟩)
    have agree := (settled.agree valid member).trans calm.symm
    rw [answered] at agree
    obtain ⟨once, done, same⟩ := agree.symm.of_ok
    exact ⟨once.storage, Turn.scratch_ok.2 ⟨once.cursor, done⟩, same.1.symm⟩
  · obtain ⟨k, answered⟩ := Turn.scratch_ok.1 answered
    obtain ⟨valid, member⟩ := valid_of_dequeue answered
    have agree := settled.agree valid member
    rw [answered] at agree
    obtain ⟨after, done, same⟩ := agree.of_ok
    exact ⟨after.storage, Turn.scratch_ok.2 ⟨after.cursor, done⟩, same.1⟩

/-- An entry is handed out and retired, and another one is appended. -/
def staleCalls : List Call :=
  let queue : Queue := ⟨"q", ⟨.hash, 20⟩⟩
  let worker : Consumer := { group := 1, member := 0, groupSize := 1, partitioningKey := some "k" }
  let entry (payload : Bytes) : Entry := ⟨payload, Std.TreeMap.ofList [("k", (7 : Int32))]⟩
  [⟨queue, .enqueue (entry [98]) 4, .none⟩, ⟨queue, .invalidate ⟨"q", 1⟩ 3, .none⟩,
    ⟨queue, .dequeue worker ⟨.hash, 20⟩ .fresh (.upTo 10), .none⟩,
    ⟨queue, .enqueue (entry [97]) 1, .none⟩]

/-- A request clears the retired entry and fails to store the other one.  The next request serves that
one, as the first would have done. -/
theorem retry_after_cleared :
    let queue : Queue := ⟨"q", ⟨.hash, 20⟩⟩
    let worker : Consumer := { group := 1, member := 0, groupSize := 1, partitioningKey := some "k" }
    let ask := Turn.scratch (queue.dequeue worker ⟨.hash, 20⟩ (.upTo 10))
    let st := storageAfter (replay staleCalls)
    ∃ e st' d after once, ask { st with plan := .startingAt .put 5 } = .error e st' ∧
      st'.table.stored (queue.seat worker) .active = some (Bytes.ofUInt64 noEntry) ∧
      ask st'.repair = .ok d after ∧ d.pointer? = some ⟨"q", 2⟩ ∧
      ask st.repair = .ok d once ∧ once.table.Alike after.table := by
  intro queue worker ask st
  have unanswered : (answer? (ask { st with plan := .startingAt .put 5 })).isNone = true := by
    with_unfolding_all decide
  obtain ⟨e, fails⟩ := error_of_answer? unanswered
  generalize left : stateAfter (ask { st with plan := .startingAt .put 5 }) = st' at fails
  have serves : (answer? (ask st'.repair)).bind (·.pointer?) = some ⟨"q", 2⟩ := by
    rw [← left]
    with_unfolding_all decide
  have cleared : st'.table.stored (queue.seat worker) .active = some (Bytes.ofUInt64 noEntry) := by
    rw [← left]
    with_unfolding_all decide
  obtain ⟨d, answered, pointer⟩ := Option.bind_eq_some_iff.1 serves
  have answered := ok_of_answer? answered
  have failed : FailedAttempts queue worker ⟨.hash, 20⟩ (.upTo 10) st st' := .again .none fails
  obtain ⟨once, done, same⟩ := (retry_answers_as_once rfl failed).1 _ d _ answered
  exact ⟨e, st', d, _, once, fails, cleared, answered, pointer, done, same⟩

end Queue

end VersionedQueue
