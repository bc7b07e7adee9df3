import VersionedQueue.Proofs.Storage.Inherited
import VersionedQueue.Proofs.Table.Writes
import VersionedQueue.Queue.Acknowledge

/-!
# What a call can touch

However a call ends, it has touched only some rows: an append the counter of entries and rows of
entries, a retirement the row of its entry, and a consumer's request the consumer's own row and the
pointer of its group.  The cells that it wrote are all at one version, and no version is lost.
-/

set_option autoImplicit false
set_option relaxedAutoImplicit false

namespace VersionedQueue

variable {rows : Bytes → Prop} {version : Version} {α β : Type}

/-- Storage before and after calls that touched only some rows and wrote only at one version. -/
def Storage.touched (rows : Bytes → Prop) (version : Version) : StateBound Storage where
  rel s s' := s.table.Touched rows version s'.table ∧ s'.plan = s.plan
  refl _ := ⟨.refl _ _ _, rfl⟩
  trans first second := ⟨first.1.trans second.1, second.2.trans first.2⟩

def Turn.touched (rows : Bytes → Prop) (version : Version) : StateBound Turn :=
  (Storage.touched rows version).onTurns

namespace Storage

theorem keeps_call {purpose : Purpose} {kind : Access} {act : TableM α} (clean : TableM.FailsClean act)
    (h : ∀ t a t', act t = .ok a t' → t.Touched rows version t') :
    (touched rows version).Keeps (call purpose kind act) := by
  intro s
  simp only [call]
  split
  · exact (touched rows version).refl s
  · split
    · rename_i answer table done
      exact ⟨h _ _ _ done, rfl⟩
    · rename_i e table failed
      rw [clean failed]
      exact (touched rows version).refl s

/-- A call that fails has done nothing to the table. -/
theorem table_of_failed {purpose : Purpose} {kind : Access} {act : TableM α}
    {st st' : Storage} {e : QueueError} (clean : TableM.FailsClean act)
    (h : call purpose kind act st = .error e st') : st'.table = st.table := by
  simp only [call] at h
  split at h
  · cases h
    rfl
  · split at h
    · cases h
    · rename_i refused
      cases h
      exact clean refused

theorem internal_of_failed {purpose : Purpose} {kind : Access} {act : TableM α} {st st' : Storage}
    {e : QueueError} (h : call purpose kind act st = .error e st') :
    ∃ source, e = .internal purpose.text source := by
  simp only [call] at h
  split at h
  · cases h
    exact ⟨_, rfl⟩
  · split at h
    · cases h
    · cases h
      exact ⟨_, rfl⟩

theorem keeps_view (purpose : Purpose) (s : Snapshot) :
    (touched rows version).Keeps (view purpose s) :=
  keeps_call (TableM.failsClean_view s) fun t _ t' done => by
    have same : t = t' := (EStateM.Result.ok.inj done).2
    exact same ▸ .refl _ _ _

theorem keeps_put {row : Bytes} (here : rows row) (purpose : Purpose)
    (cells : List (Bytes × Bytes)) :
    (touched rows version).Keeps (put purpose row cells version) :=
  keeps_call (TableM.failsClean_put _ _ _) fun t _ t' done => by
    rw [TableM.table_of_put done]
    exact Table.touched_recordAll here _ _ _

theorem keeps_delete {row : Bytes} (here : rows row) (purpose : Purpose) (column : Bytes) :
    (touched rows version).Keeps (delete purpose row column version) :=
  keeps_call (TableM.failsClean_delete _ _ _) fun t _ t' done => by
    rw [TableM.table_of_delete done]
    exact .of_record here _ _ _

theorem keeps_increment {row : Bytes} {delta : Int64} (here : rows row) (purpose : Purpose)
    (column : Bytes) (forward : 0 ≤ delta.toInt) :
    (touched rows version).Keeps (increment purpose row column delta) :=
  keeps_call (TableM.failsClean_increment _ _ _) fun _ _ _ done =>
    TableM.touched_increment here forward done

theorem keeps_increment_zero (purpose : Purpose) (row column : Bytes) :
    (touched rows version).Keeps (increment purpose row column 0) :=
  keeps_call (TableM.failsClean_increment _ _ _) fun _ _ _ done => TableM.touched_increment_zero done

end Storage

namespace Queue

open StateBound (keeps_pure keeps_throw keeps_ofExcept keeps_bind keeps_ite keeps_onTurns)

variable (q : Queue) (c : Consumer) (config : Config) (s : Snapshot)

theorem keeps_view (purpose : Purpose) : (Storage.touched rows version).Keeps (q.view purpose s) :=
  keeps_bind (Storage.keeps_view purpose s) fun _ => keeps_pure _

theorem keeps_put {key : RowKey} (here : rows (key.encode q.name)) (purpose : Purpose)
    (cells : List (Column × Bytes)) :
    (Storage.touched rows version).Keeps (q.put purpose key cells version) :=
  Storage.keeps_put here _ _

theorem keeps_count {key : RowKey} (here : rows (key.encode q.name)) (purpose : Purpose) :
    (Storage.touched rows version).Keeps (q.count purpose key 1) :=
  keeps_bind (Storage.keeps_increment here _ _ (by decide)) fun value => by
    cases counterId? value with
    | none => exact keeps_throw _
    | some id => exact keeps_pure _

theorem keeps_count_zero (purpose : Purpose) (key : RowKey) :
    (Storage.touched rows version).Keeps (q.count purpose key 0) :=
  keeps_bind (Storage.keeps_increment_zero _ _ _) fun value => by
    cases counterId? value with
    | none => exact keeps_throw _
    | some id => exact keeps_pure _

theorem admits_touching (rows : Bytes → Prop) (version : Version) :
    (Storage.touched rows version).inherited.Admits q s :=
  StateBound.admits (q.keeps_view s) q.keeps_count_zero

theorem keeps_fetchDisjoint : (Turn.touched rows version).Keeps (q.fetchDisjoint c config s) :=
  (q.admits_touching s rows version).fetchDisjoint c config

section Row

variable (own : rows ((consumerRow c).encode q.name))

include own

/-- A consumer's request for an entry touches its own row and the pointer of its group. -/
theorem keeps_dequeue (shared : rows ((RowKey.groupPointer c.group).encode q.name)) :
    (Turn.touched rows s.writeVersion).Keeps (q.dequeue c config s) :=
  (q.admits_touching s rows s.writeVersion).dequeue c config (fun _ => trivial)
    (keeps_onTurns (q.keeps_count shared _))
    fun purpose cells _ => keeps_onTurns (q.keeps_put own purpose cells)

theorem keeps_ack (p : Pointer) : (Storage.touched rows s.writeVersion).Keeps (q.ack p c s) := by
  refine keeps_bind (keeps_ofExcept _) fun _ => ?_
  refine keeps_bind (q.keeps_view s _) fun view => ?_
  refine keeps_bind (keeps_ofExcept _) fun claim => ?_
  cases (AckDecision.check (q.configFor c).partitioner.isDisjoint claim).refusal? with
  | some reason => exact keeps_throw _
  | none => exact q.keeps_put own _ _

theorem keeps_unack (p : Pointer) :
    (Storage.touched rows s.writeVersion).Keeps (q.unack p c s) := by
  refine keeps_bind (keeps_ofExcept _) fun _ => ?_
  refine keeps_bind (q.keeps_view s _) fun view => ?_
  refine keeps_bind (keeps_ofExcept _) fun claim => ?_
  exact keeps_ite (keeps_pure _) (keeps_bind (q.keeps_put own _ _) fun _ => keeps_pure _)

end Row

theorem keeps_enqueue (counter : rows (RowKey.entryCounter.encode q.name))
    (entries : ∀ id, rows ((RowKey.entry id).encode q.name)) (entry : Entry) :
    (Storage.touched rows version).Keeps (q.enqueue entry version) := by
  unfold enqueue
  cases entry.partitioning.headerCells with
  | error rejection => exact keeps_throw _
  | ok headers =>
      refine keeps_bind (q.keeps_count counter _) fun id => ?_
      exact keeps_bind (q.keeps_put (entries id) _ _) fun _ => keeps_pure _

theorem keeps_invalidate {p : Pointer} (here : rows ((RowKey.entry p.id).encode q.name)) :
    (Storage.touched rows version).Keeps (q.invalidate p version) := by
  refine keeps_bind (keeps_ofExcept _) fun _ => ?_
  refine keeps_bind (keeps_bind (q.keeps_view _ _) fun view => ?_) fun current => ?_
  · cases view (.entry p.id) .state with
    | none => exact keeps_pure _
    | some cell => exact keeps_bind (keeps_ofExcept _) fun _ => keeps_pure _
  · exact keeps_ite
      (keeps_bind (q.keeps_put here _ _) fun _ => Storage.keeps_delete here _ _) (keeps_pure _)

end Queue

end VersionedQueue
