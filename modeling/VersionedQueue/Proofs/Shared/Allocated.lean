import VersionedQueue.Proofs.Shared.Custody

/-!
# Claims stay within what is allocated

A member of a shared group claims an id only where it knows that the pointer of its group is below the
counter of entries.  It remembers no more than the counter, so that no group ever claims an id that was
not allocated, however the calls of its requests end.
-/

set_option autoImplicit false
set_option relaxedAutoImplicit false

namespace VersionedQueue

/-- The group of a consumer has claimed no id beyond the counter of entries. -/
def Table.ClaimsAllocated (t : Table) (seat : Seat) : Prop :=
  t.standing seat.groupRow ≤ t.standing (RowKey.entryCounter.encode seat.queue)

/-- What a request remembers of the counter of entries, and what its group has claimed, is allocated. -/
structure Turn.ClaimsAllocated (seat : Seat) (t : Turn) : Prop where
  table : t.storage.table.ClaimsAllocated seat
  known : (t.cursor.writePointer.toNat : Int) ≤
    t.storage.table.standing (RowKey.entryCounter.encode seat.queue)

theorem Table.ClaimsAllocated.of_touched {t t' : Table} {seat : Seat} (h : t.ClaimsAllocated seat)
    {rows : Bytes → Prop} {v : Version} (touched : t.Touched rows v t') (out : ¬ rows seat.groupRow) :
    t'.ClaimsAllocated seat := by
  unfold Table.ClaimsAllocated Table.standing
  rw [touched.counter _ out]
  exact Int.le_trans h (touched.counter_le _ _)

theorem Turn.ClaimsAllocated.of_touched {t u : Turn} {seat : Seat} (h : t.ClaimsAllocated seat)
    {rows : Bytes → Prop} {v : Version} (touched : t.storage.table.Touched rows v u.storage.table)
    (out : ¬ rows seat.groupRow) (known : u.cursor.writePointer = t.cursor.writePointer) :
    u.ClaimsAllocated seat where
  table := h.table.of_touched touched out
  known := by
    rw [known]
    exact Int.le_trans h.known (touched.counter_le _ _)

theorem Turn.ClaimsAllocated.of_alike {t u : Turn} {seat : Seat} (h : t.ClaimsAllocated seat)
    (same : t.Alike u) : u.ClaimsAllocated seat :=
  h.of_touched (same.1.touched (fun _ => False) 0) id (by rw [same.2])

theorem Turn.ClaimsAllocated.of_looked {q : Queue} {c : Consumer} {t u : Turn}
    (h : t.ClaimsAllocated (q.seat c)) (looked : t.Looked q u) : u.ClaimsAllocated (q.seat c) where
  table := h.table.of_touched (looked.same.touched (fun _ => False) 0) id
  known := looked.known h.known

namespace Queue

variable {q : Queue} {c : Consumer} {config : Config} {s : Snapshot} {t : Turn}

theorem claimsAllocated_nextClaim (h : t.ClaimsAllocated (q.seat c)) :
    Ends (q.nextClaim c) t (fun _ u => u.ClaimsAllocated (q.seat c))
      fun _ u => u.ClaimsAllocated (q.seat c) := by
  refine (q.ends_nextClaim c t).imp (fun claim v serves => ?_) fun _ _ looked => h.of_looked looked
  cases serves with
  | pending _ => exact h
  | @claimed id u _ _ looked claims =>
      have h := h.of_looked looked
      have known := Int.le_trans h.known (claims.touched.counter_le _ _)
      have within := UInt64.le_iff_toNat_le.1 claims.within
      refine ⟨?_, by rw [claims.cursor]; exact known⟩
      exact Int.le_trans (Int.le_of_eq claims.moved) (Int.le_trans (Int.ofNat_le.2 within) known)
  | nothing _ looked _ => exact h.of_looked looked

private theorem claimsAllocated_takeUp (h : t.ClaimsAllocated (q.seat c)) (claim : Option EntryId) :
    Ends (q.takeUp s claim) t (fun _ u => u.ClaimsAllocated (q.seat c))
      fun _ u => u.ClaimsAllocated (q.seat c) := by
  refine (q.ends_takeUp s claim t).imp (fun pass v takes => ?_) fun _ _ failed => h.of_alike failed
  cases takes with
  | nothing => exact h
  | found _ same => exact h.of_alike ⟨same.1, rfl⟩
  | waits _ same => exact h.of_alike ⟨same.1, rfl⟩
  | drops _ same => exact h.of_touched (same.1.touched (fun _ => False) 0) id rfl

theorem claimsAllocated_fetchShared (h : t.ClaimsAllocated (q.seat c)) :
    Ends (q.fetchShared c s) t (fun _ u => u.ClaimsAllocated (q.seat c))
      fun _ u => u.ClaimsAllocated (q.seat c) := by
  refine (q.repeats_fetchShared c s).keeps (fun t h => ?_) h
  rw [sharedPass_eq]
  refine ((claimsAllocated_nextClaim h).bind fun claim _ h => claimsAllocated_takeUp h claim).imp ?_
    fun _ _ failed => failed
  exact fun _ _ h' => ⟨h', fun _ _ => ⟨h'.table, h'.known⟩⟩

private theorem claimsAllocated_settle (h : t.ClaimsAllocated (q.seat c)) (a : EntryId) :
    Ends (q.settle c config s a) t (fun _ u => u.ClaimsAllocated (q.seat c))
      fun _ u => u.storage.table.ClaimsAllocated (q.seat c) := by
  have aside : ¬ (q.seat c).groupRow = (q.seat c).row := (q.seat c).row_ne_groupRow.symm
  refine (ends_settle t).imp (fun _ u settles => ?_)
    fun _ _ failed => (h.of_alike ⟨failed.1.1, failed.2⟩).table
  cases settles with
  | idle _ => exact h
  | again _ _ same => exact h.of_touched (same.1.touched (fun _ => False) 0) id rfl
  | waits _ _ _ same => exact h.of_touched (same.1.touched (fun _ => False) 0) id rfl
  | @clears _ st st' _ _ _ same table _ =>
      have h : Turn.ClaimsAllocated (q.seat c) ⟨st, t.cursor⟩ := h.of_alike ⟨same.1, rfl⟩
      exact h.of_touched (.of_recordAll table) aside rfl

private theorem claimsAllocated_load (h : t.storage.table.ClaimsAllocated (q.seat c)) :
    Ends (q.load c config s) t (fun _ u => u.ClaimsAllocated (q.seat c))
      fun _ u => u.storage.table.ClaimsAllocated (q.seat c) := by
  refine ends_load_read t.cursor
    (fun u same _ => h.of_touched (same.1.touched (fun _ => False) 0) id) fun a r w st reads _ same => ?_
  refine claimsAllocated_settle ⟨h.of_touched (same.1.touched (fun _ => False) 0) id, ?_⟩ a
  exact Int.le_of_eq (reads.writePointer.trans (same.1.standing _).symm)

theorem claimsAllocated_dequeue (shared : config.partitioner = .roundRobin)
    (h : t.storage.table.ClaimsAllocated (q.seat c))
    (known : t.cursor.loaded = true → (t.cursor.writePointer.toNat : Int) ≤
      t.storage.table.standing (RowKey.entryCounter.encode q.name)) :
    Ends (q.dequeue c config s) t (fun _ u => u.storage.table.ClaimsAllocated (q.seat c))
      fun _ u => u.storage.table.ClaimsAllocated (q.seat c) := by
  unfold dequeue
  refine Ends.ofExcept_bind (fun _ _ => h) fun _ _ => ?_
  refine Ends.ofExcept_bind (fun _ _ => h) fun _ _ => ?_
  have loads : Ends (q.ensureLoaded c config s) t (fun _ u => u.ClaimsAllocated (q.seat c))
      fun _ u => u.storage.table.ClaimsAllocated (q.seat c) := by
    cases loaded : t.cursor.loaded with
    | true => exact .answered (q.ensureLoaded_of_loaded c config s loaded) ⟨h, known loaded⟩
    | false => exact .of_eq (q.ensureLoaded_of_unloaded c config s loaded) (claimsAllocated_load h)
  refine loads.bind fun _ u h => ?_
  have refills : Ends (q.refill c config s) u (fun _ v => v.ClaimsAllocated (q.seat c))
      fun _ v => v.storage.table.ClaimsAllocated (q.seat c) := by
    cases cached : u.cursor.cache.hasNext with
    | true => exact .answered (refill_of_hasNext cached) h
    | false =>
        refine .of_eq (refill_of_not_hasNext cached) ?_
        rw [fetch, shared]
        exact (claimsAllocated_fetchShared h).imp (fun _ _ done => done) fun _ _ failed => failed.table
  refine refills.bind fun _ v h => ?_
  have aside : ¬ (q.seat c).groupRow = (q.seat c).row := (q.seat c).row_ne_groupRow.symm
  have written : (Turn.touched (· = (q.seat c).row) s.writeVersion).Keeps (q.handOut c config s) :=
    (q.admits_touching s _ _).handOut c config fun purpose cells _ =>
      StateBound.keeps_onTurns (q.keeps_put (by rfl) purpose cells)
  exact (written.ends v).imp
    (fun _ _ done => h.table.of_touched done.1 aside)
    fun _ _ failed => h.table.of_touched failed.1 aside

end Queue

/-- No group of a queue claims an id that was not allocated, whichever calls fail, if its members pass
cursors that were never loaded or those that their last requests left. -/
theorem SharedFallible.claimsAllocated {queue : String} {group : GroupId} {past : List Event}
    (run : Run (SharedFallible queue group) past) (member : InstanceId) :
    (storageAfter past).table.ClaimsAllocated ⟨queue, group, member⟩ := by
  induction run with
  | start => exact Int.le_refl _
  | @next past call earlier fits ih =>
      let e : Event := ⟨call, storageAfter past⟩
      have name : call.queue.name = queue := fits.1.1
      change e.after.table.ClaimsAllocated _
      by_cases touches : call.request.Touches (.groupPointer group)
      · obtain ⟨c, config, cursor, s, asked, rfl⟩ := Request.dequeue_of_touches touches
        have keeps := fits.2
        rw [asked] at keeps
        obtain ⟨shared, may, _⟩ := keeps rfl
        have custody := Custody.of_run earlier c.member
        subst name
        have ends := @Queue.claimsAllocated_dequeue call.queue c config s
          ⟨{ storageAfter past with plan := call.plan }, cursor⟩ shared ih
          fun loaded => (custody.rests cursor (may.last loaded) loaded).2
        rw [Event.after, Event.outcome_of_dequeue asked]
        cases done : call.queue.dequeue c config s
            ⟨{ storageAfter past with plan := call.plan }, cursor⟩ with
        | ok d t => exact ends.of_ok done
        | error err t => exact ends.of_error done
      · unfold Table.ClaimsAllocated Table.standing
        rw [Seat.groupRow, Event.counter_of_not_touches (e := e) name touches]
        exact Int.le_trans ih (e.standing_le _)

end VersionedQueue
