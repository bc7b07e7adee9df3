import VersionedQueue.Proofs.Delivery.RowAnswer
import VersionedQueue.Proofs.Disjoint.Readable
import VersionedQueue.Proofs.Run.Replay

/-!
# Handing out is a linear scan

A member of a disjoint group that comes without a cursor is handed what a scan of one id after the other
would find: its active entry while that is valid, or else the first valid entry behind its read pointer
that falls to it, unless an id that is not shown comes before.  What it is handed and what is then
stored in its row can be read off one view of the queue.  The batch size has no part in it: it only says
where the windows end.
-/

set_option autoImplicit false
set_option relaxedAutoImplicit false

namespace VersionedQueue

namespace Queue

section View

variable (q : Queue) (view : QueueView) (c : Consumer)

/-- What a member without a cursor is answered, and the cells that are stored with the answer, given the
active entry and the read pointer in its row: a valid active entry is handed out again, and any other is
cleared before the scan. -/
inductive LinearAnswer (active readPointer writePointer : EntryId) :
    Delivery → List (Column × Bytes) → Prop
  | again {payload : Bytes} : active ≠ noEntry →
      view (.entry active) .state = some EntryState.valid.encode →
      view (.entry active) .payload = some payload →
      LinearAnswer active readPointer writePointer (.served ⟨q.name, active⟩ ⟨payload, {}⟩)
        [(.readPointer, Bytes.ofUInt64 (max readPointer active)), (.active, Bytes.ofUInt64 active)]
  | idle {d : Delivery} {cells : List (Column × Bytes)} : active = noEntry →
      q.ScanAnswer view c readPointer writePointer d cells →
      LinearAnswer active readPointer writePointer d cells
  | cleared {d : Delivery} {cells : List (Column × Bytes)} : active ≠ noEntry →
      view (.entry active) .state ≠ some EntryState.valid.encode →
      q.ScanAnswer view c readPointer writePointer d cells →
      LinearAnswer active readPointer writePointer d
        (if d.isEmpty then cells ++ [(.active, Bytes.ofUInt64 noEntry)] else cells)

end View

section Unique

variable {q : Queue} {view : QueueView} {c : Consumer} {active readPointer writePointer : EntryId}
  {d d' : Delivery} {cells cells' : List (Column × Bytes)}

theorem LinearAnswer.unique (h : q.LinearAnswer view c active readPointer writePointer d cells)
    (h' : q.LinearAnswer view c active readPointer writePointer d' cells') :
    d = d' ∧ cells = cells' := by
  cases h with
  | again some valid shown =>
      cases h' with
      | again _ _ shown' =>
          obtain rfl := Option.some.inj (shown.symm.trans shown')
          exact ⟨rfl, rfl⟩
      | idle none _ => exact absurd none some
      | cleared _ invalid _ => exact absurd valid invalid
  | idle none scan =>
      cases h' with
      | again some _ _ => exact absurd none some
      | idle _ scan' => exact scan.unique scan'
      | cleared some _ _ => exact absurd none some
  | cleared some invalid scan =>
      cases h' with
      | again _ valid _ => exact absurd valid invalid
      | idle none _ => exact absurd none some
      | cleared _ _ scan' =>
          obtain ⟨rfl, rfl⟩ := scan.unique scan'
          exact ⟨rfl, rfl⟩

end Unique

section Answer

variable (q : Queue) (c : Consumer) (config : Config) (s : Snapshot) {st : Storage}
  {a r w : EntryId}

private theorem ScanAnswer.recordAll_clearing {q : Queue} {view : QueueView} {c : Consumer}
    {d : Delivery} {cells : List (Column × Bytes)} (h : q.ScanAnswer view c r w d cells) (t : Table)
    (row : Bytes) (v : Version) :
    (t.recordAll row
      ((if d.isEmpty then cells ++ [(.active, Bytes.ofUInt64 noEntry)] else cells).map
        fun cell => (cell.1.encode, cell.2)) v).Alike
      ((t.record row Column.active.encode v (some (Bytes.ofUInt64 noEntry))).recordAll row
        (cells.map fun cell => (cell.1.encode, cell.2)) v) := by
  have apart : Column.readPointer.encode ≠ Column.active.encode := by decide
  have turned (x : Option Bytes) := t.record_comm_alike row apart v x (some (Bytes.ofUInt64 noEntry))
  cases h with
  | @next id _ _ _ _ =>
      have twice := (t.record row Column.readPointer.encode v (some (Bytes.ofUInt64 id))).record_record_alike
        row Column.active.encode v (some (Bytes.ofUInt64 noEntry)) (some (Bytes.ofUInt64 id))
      exact twice.symm.trans ((turned _).record row Column.active.encode v _)
  | nothing _ _ _ => exact turned _

private theorem RowAnswer.linear {q : Queue} {view : QueueView} {c : Consumer} {config : Config}
    {group group' : Int} {d : Delivery} {cells : List (Column × Bytes)} {left : Option EntryId}
    (hash : config.partitioner = .hash) (readable : q.Readable view)
    (h : q.RowAnswer config view c a r group w d cells left group') (t : Table) (row : Bytes)
    (v : Version) :
    ∃ cells', q.LinearAnswer view c a r w d cells' ∧
      (t.recordAll row (cells'.map fun cell => (cell.1.encode, cell.2)) v).Alike
        (t.recordAll row (cells.map fun cell => (cell.1.encode, cell.2)) v) := by
  have disjoint : config.partitioner.isDisjoint = true := by rw [hash]; rfl
  cases h with
  | again nonzero sight =>
      obtain ⟨valid, stored⟩ := sight_servable_iff.1 sight
      rw [if_pos disjoint]
      exact ⟨_, .again nonzero valid stored, .refl _⟩
  | waiting _ _ shared => cases disjoint.symm.trans shared
  | idle zero onward =>
      cases onward with
      | scanned _ _ scan => exact ⟨_, .idle zero scan, .refl _⟩
      | drawn shared _ _ => cases hash.symm.trans shared
  | cleared nonzero sight clears onward =>
      cases onward with
      | scanned _ _ scan =>
          refine ⟨_, .cleared nonzero (fun valid => ?_) scan, scan.recordAll_clearing t row v⟩
          obtain ⟨payload, stored⟩ := readable.exists_payload valid
          have served := sight.symm.trans (sight_servable_iff.2 ⟨valid, stored⟩)
          exact clears.1 payload (Except.ok.inj served)
      | drawn shared _ _ => cases hash.symm.trans shared

theorem answers_dequeue_linear (hash : config.partitioner = .hash) (valid : config.validate = .ok ())
    (member : c.validate config.partitioner = .ok ()) (k : Cursor) (unloaded : k.loaded = false)
    {group : Int} (counts : q.Counts c st group w.toNat) (readable : q.Readable (q.shows st.table s))
    (reads : q.Reads c s st.table a r w) :
    Answers (q.dequeue c config s) ⟨st, k⟩ fun d t' => ∃ cells,
      q.LinearAnswer (q.shows st.table s) c a r w d cells ∧
        (st.table.recordAll (q.seat c).row (cells.map fun cell => (cell.1.encode, cell.2))
          s.writeVersion).Alike t'.storage.table := by
  refine (q.answers_dequeue_row c config s valid member k unloaded counts readable reads).imp ?_
  rintro d t' ⟨cells, group', answer, records⟩
  obtain ⟨cells', linear, same⟩ := answer.linear hash readable st.table (q.seat c).row s.writeVersion
  exact ⟨cells', linear, same.trans (records.scanned hash)⟩

end Answer

end Queue

/-- After every run, a member of a disjoint group that comes without a cursor, to storage where no call
fails, is handed what a linear scan finds: its stored active entry if that is shown as valid, or else the
least id behind its stored read pointer that is valid and falls to it and has no id before it that is not
shown.  For every batch size the answer is the same, and the same cells are stored with it. -/
theorem dequeue_scans_linearly {past : List Event} {q : Queue} {c : Consumer}
    (run : Run Opened past) (opens : q.Opens) (member : c.validate .hash = .ok ()) (s : Snapshot) :
    ∃ a r w d cells, q.Reads c s (storageAfter past).table a r w ∧
      q.LinearAnswer (q.shows (storageAfter past).table s) c a r w d cells ∧
      ∀ batchSize : UInt32, batchSize ≤ 1000 →
        Answers (q.dequeue c ⟨.hash, batchSize⟩ s) ⟨{ storageAfter past with plan := .none }, .fresh⟩
          fun d' t' => d' = d ∧ ((storageAfter past).table.recordAll (q.seat c).row
            (cells.map fun cell => (cell.1.encode, cell.2)) s.writeVersion).Alike t'.storage.table := by
  have readable := readable_of_run run opens s
  obtain ⟨a, r, w, reads⟩ := reads_of_run run opens c s
  have answers (batchSize : UInt32) (small : batchSize ≤ 1000) :=
    @Queue.answers_dequeue_linear q c ⟨.hash, batchSize⟩ s { storageAfter past with plan := .none }
      a r w rfl (if_neg (UInt32.not_lt.2 small)) member .fresh rfl _
      (q.counts_of_run run c reads.writePointer) readable reads
  obtain ⟨d, _, _, cells, linear, _⟩ := answers 0 (by decide)
  refine ⟨a, r, w, d, cells, reads, linear, fun batchSize small => (answers batchSize small).imp ?_⟩
  rintro d' t' ⟨cells', linear', table⟩
  obtain ⟨rfl, rfl⟩ := linear'.unique linear
  exact ⟨rfl, table⟩

/-- Of four entries the first and the third fall to the other member of a group; the second one was handed
out, and was retired before it was acknowledged. -/
def alternating : List Call :=
  let adding (hash : Int32) (v : Version) : Call :=
    ⟨⟨"q", ⟨.hash, 20⟩⟩, .enqueue ⟨[v.toUInt8], Std.TreeMap.ofList [("k", hash)]⟩ v, .none⟩
  [⟨⟨"q", ⟨.hash, 20⟩⟩, .invalidate ⟨"q", 2⟩ 5, .none⟩,
    ⟨⟨"q", ⟨.hash, 20⟩⟩, .dequeue { group := 1, member := 0, groupSize := 2, partitioningKey := some "k" }
      ⟨.hash, 20⟩ .fresh (.upTo 10), .none⟩, adding 2 4, adding 1 3, adding 0 2, adding 1 1]

/-- The member is handed the last entry whether it reads two ids at a time or all of them. -/
theorem alternating_scanned :
    let ask (batchSize : UInt32) := Queue.dequeue ⟨"q", ⟨.hash, 20⟩⟩
      { group := 1, member := 0, groupSize := 2, partitioningKey := some "k" } ⟨.hash, batchSize⟩
      (.upTo 10) ⟨{ storageAfter (replay alternating) with plan := .none }, .fresh⟩
    Event.servedTo? ((replay alternating).get ⟨1, by decide⟩) ⟨"q", 1, 0⟩ = some 2 ∧
      ∃ d t t', ask 0 = .ok d t ∧ ask 1000 = .ok d t' ∧ d.pointer? = some ⟨"q", 4⟩ := by
  intro ask
  have opens : Queue.Opens ⟨"q", ⟨.hash, 20⟩⟩ := rfl
  have run : Run Opened (replay alternating) :=
    .next (.next (.next (.next (.next (.next .start opens) opens) opens) opens) opens) opens
  have pointer : (answer? (ask 0)).bind (·.pointer?) = some ⟨"q", 4⟩ := by
    with_unfolding_all decide
  obtain ⟨_, _, _, d, _, _, _, same⟩ := dequeue_scans_linearly run opens
    (c := { group := 1, member := 0, groupSize := 2, partitioningKey := some "k" }) rfl (.upTo 10)
  obtain ⟨_, t, short, rfl, _⟩ := same 0 (by decide)
  obtain ⟨_, t', long, rfl, _⟩ := same 1000 (by decide)
  have short : ask 0 = .ok _ t := short
  rw [short] at pointer
  exact ⟨by with_unfolding_all decide, _, t, t', short, long, pointer⟩

end VersionedQueue
