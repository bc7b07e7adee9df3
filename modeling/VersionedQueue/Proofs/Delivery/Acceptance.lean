import VersionedQueue.Proofs.Delivery.Ledger
import VersionedQueue.Proofs.Delivery.Onward
import VersionedQueue.Proofs.Delivery.RowAnswer
import VersionedQueue.Proofs.Run.Replay

/-!
# Acknowledging what was handed out

Whether handing an entry out opens a claim on it is decided by the configuration that comes with the
request.  Whether an acknowledgement requires an open claim is decided by the consumer's own configuration,
or else by that of the queue.  Where the two disagree a consumer is handed an entry that it cannot
acknowledge, and it is handed that entry again whenever it comes without a cursor.
-/

set_option autoImplicit false
set_option relaxedAutoImplicit false

namespace VersionedQueue

namespace Table

/-- No version of a row that a snapshot sees is newer than the given one. -/
def ShownUntil (t : Table) (row : Bytes) (s : Snapshot) (v : Version) : Prop :=
  ∀ column w, (t.history row column).Has w → s.sees w → w ≤ v

namespace ShownUntil

variable {t t' : Table} {row : Bytes} {s s' : Snapshot} {v v' : Version}

theorem of_extends (h : t.ShownUntil row s' v) (extended : s'.Extends s) : t.ShownUntil row s v :=
  fun column w has seen => h column w has (extended w seen)

theorem of_touched {rows : Bytes → Prop} (h : t.ShownUntil row s v) (touched : t.Touched rows v' t')
    (le : v ≤ v') : t'.ShownUntil row s v' := by
  intro column w has seen
  by_cases now : w = v'
  · exact now ▸ UInt64.le_refl _
  · have same := touched.at? row column w now
    exact UInt64.le_trans (h column w (by rwa [History.Has, ← same]) seen) le

theorem read (h : t.ShownUntil row s v) (seen : s.sees v) {column : Bytes} {x : Option Bytes}
    (written : (t.history row column).at? v = some x) : t.read s row column = x :=
  History.read_of_newest seen written fun w wSeen has => h column w has wSeen

end ShownUntil

end Table

namespace Queue

section Handing

variable {q : Queue} {c : Consumer} {config : Config} {s s' : Snapshot} {t t' : Table} {u u' : Turn}
  {v : Version} {id : EntryId} {p : Pointer} {x : Entry}

/-- What handing an entry out has written to the row of a consumer: the entry is the active one and not
ahead of the read pointer, and a member of a shared group has opened a claim on it. -/
structure Handed (q : Queue) (c : Consumer) (config : Config) (v : Version) (id : EntryId)
    (t t' : Table) : Prop where
  active : (t'.history (q.seat c).row Column.active.encode).at? v = some (some (Bytes.ofUInt64 id))
  readPointer : ∃ r, id ≤ r ∧
    (t'.history (q.seat c).row Column.readPointer.encode).at? v = some (some (Bytes.ofUInt64 r))
  opened : config.partitioner = .roundRobin →
    (t'.claims (q.seat c) id).at? v = some (some ClaimState.claimed.encode)
  left : config.partitioner = .hash → t'.claims (q.seat c) id = t.claims (q.seat c) id

theorem Handed.of_claims {t₀ : Table} (h : q.Handed c config v id t t')
    (claims : t.claims (q.seat c) id = t₀.claims (q.seat c) id) : q.Handed c config v id t₀ t' :=
  { h with left := fun hash => (h.left hash).trans claims }

private theorem handed_of_cells (k : Cursor) (entry : CachedEntry)
    (table : t' = t.recordAll (q.seat c).row
      ((handingCells config k entry).map fun cell => (cell.1.encode, cell.2)) v) :
    q.Handed c config v entry.id t t' := by
  have written {column : Column} {cell : Bytes} (mem : (column, cell) ∈ handingCells config k entry) :
      (t'.history (q.seat c).row column.encode).at? v = some (some cell) := by
    rw [table, Table.history_recordAll_of_cell (handingCells_in_row _ _ _) (handingCells_nodup _ _ _) mem,
      History.at?_record, if_pos rfl]
  refine ⟨written (mem_handingCells_active.2 rfl),
    ⟨(k.advance entry.id).readPointer, k.le_advance_self entry.id, written List.mem_cons_self⟩,
    fun shared => ?_, fun hash => ?_⟩
  · refine written (mem_handingCells_claim.2 ⟨?_, rfl⟩)
    simp [shared, Partitioner.isDisjoint]
  · rw [table]
    refine Table.history_recordAll_of_column (handingCells_in_row _ _ _) trivial ?_
    simp [handingCells, hash, Partitioner.isDisjoint]

private theorem handed_of_handOut (served : q.handOut c config s u = .ok (.served p x) u') :
    p.queue = q.name ∧ q.Handed c config s.writeVersion p.id u.storage.table u'.storage.table := by
  cases cached : u.cursor.cache.entries with
  | nil => cases ((ends_handOut_nothing cached).of_ok served).1
  | cons entry rest =>
      obtain ⟨delivered, -, table⟩ := (ends_handOut_next cached).of_ok served
      cases delivered
      exact ⟨rfl, handed_of_cells _ _ table⟩

theorem handed_of_dequeue (served : q.dequeue c config s u = .ok (.served p x) u') :
    p.queue = q.name ∧ q.Handed c config s.writeVersion p.id u.storage.table u'.storage.table := by
  obtain ⟨_, u₁, valid, rest⟩ := ok_of_bind served
  obtain ⟨_, u₂, member, rest⟩ := ok_of_bind rest
  obtain ⟨_, u₃, loaded, rest⟩ := ok_of_bind rest
  obtain ⟨_, u₄, filled, handed⟩ := ok_of_bind rest
  obtain rfl := (state_of_ofExcept valid).2
  obtain rfl := (state_of_ofExcept member).2
  obtain ⟨name, handed⟩ := handed_of_handOut handed
  exact ⟨name, handed.of_claims ((history_of_refill filled _).trans
    ((ends_ensureLoaded_claims p.id).of_ok loaded))⟩

theorem touched_of_dequeue {d : Delivery} (done : q.dequeue c config s u = .ok d u') :
    u.storage.table.Touched (fun row => row = (q.seat c).row ∨ row = (q.seat c).groupRow) s.writeVersion
      u'.storage.table := by
  have kept : (Turn.touched (fun row => row = (q.seat c).row ∨ row = (q.seat c).groupRow)
      s.writeVersion).Keeps (q.dequeue c config s) := q.keeps_dequeue c config s (.inl rfl) (.inr rfl)
  exact ((kept.ends u).of_ok done).1

section Shown

variable (handed : q.Handed c config v id t t') (newest : t'.ShownUntil (q.seat c).row s' v)
  (seen : s'.sees v)

include handed newest seen

theorem Handed.shows_active :
    q.shows t' s' (consumerRow c) .active = some (Bytes.ofUInt64 id) :=
  newest.read seen handed.active

theorem Handed.shows_readPointer :
    ∃ r, id ≤ r ∧ q.shows t' s' (consumerRow c) .readPointer = some (Bytes.ofUInt64 r) := by
  obtain ⟨r, le, written⟩ := handed.readPointer
  exact ⟨r, le, newest.read seen written⟩

theorem Handed.shows_claimed_iff :
    q.shows t' s' (consumerRow c) (.claim id) = some ClaimState.claimed.encode ↔
      config.partitioner = .roundRobin ∨
        q.shows t s' (consumerRow c) (.claim id) = some ClaimState.claimed.encode := by
  cases partitioner : config.partitioner with
  | roundRobin =>
      have opened : q.shows t' s' (consumerRow c) (.claim id) = some ClaimState.claimed.encode :=
        newest.read seen (handed.opened partitioner)
      simp [opened]
  | hash =>
      have same : q.shows t' s' (consumerRow c) (.claim id) = q.shows t s' (consumerRow c) (.claim id) :=
        congrArg (History.read · s') (handed.left partitioner)
      simp [same]

end Shown

end Handing

section Acknowledging

variable {q : Queue} {c : Consumer} {config : Config} {s s' : Snapshot} {t : Table} {st st' : Storage}
  {v : Version} {id : EntryId}

/-- An acknowledgement of an entry is accepted: no claim is required of the consumer, or its claim on the
entry is shown as open. -/
def Accepts (q : Queue) (c : Consumer) (s : Snapshot) (t : Table) (id : EntryId) : Prop :=
  (q.configFor c).partitioner = .hash ∨
    q.shows t s (consumerRow c) (.claim id) = some ClaimState.claimed.encode

/-- A member of a shared group that is handed an entry can acknowledge it; handing it out in a disjoint
group changes nothing in that. -/
theorem Handed.accepts_iff (handed : q.Handed c config v id t st.table)
    (newest : st.table.ShownUntil (q.seat c).row s v) (seen : s.sees v) :
    q.Accepts c s st.table id ↔ config.partitioner = .roundRobin ∨ q.Accepts c s t id := by
  unfold Accepts
  rw [handed.shows_claimed_iff newest seen]
  exact or_left_comm

theorem ack_of_legible (calm : st.plan = .none) (bears : st.table.Bears (q.seat c) Column.Legible)
    (id : EntryId) :
    (q.Accepts c s st.table id → ∃ st', q.ack ⟨q.name, id⟩ c s st = .ok () st') ∧
      (¬ q.Accepts c s st.table id → ∃ reason st',
        q.ack ⟨q.name, id⟩ c s st = .error (.illegalAck id reason) st') := by
  obtain ⟨claim, read⟩ := bears.exists_claim s id
  have opened : claim = some .claimed ↔
      q.shows st.table s (consumerRow c) (.claim id) = some ClaimState.claimed.encode := by
    constructor
    · rintro rfl
      exact q.encode_of_decodeClaim c read
    · intro shown
      rw [shown, decodeClaim_encode] at read
      exact (Except.ok.inj read).symm
  have accepts : q.Accepts c s st.table id ↔
      (AckDecision.check (q.configFor c).partitioner.isDisjoint claim).refusal? = none := by
    rw [AckDecision.refusal?_eq_none, Partitioner.isDisjoint_iff, opened, Accepts]
  rw [accepts]
  have decided := @ack_of_calm q c s st ⟨q.name, id⟩ claim calm rfl read
  split at decided
  · rename_i allowed
    exact ⟨fun _ => decided, fun refused => absurd allowed refused⟩
  · rename_i reason refused
    exact ⟨fun allowed => (nomatch refused.symm.trans allowed), fun _ => ⟨reason, decided⟩⟩

private theorem settled_of_written
    (wrote : st.Written (q.seat c) (ackingCells c (q.shows st.table s) id) s.writeVersion st')
    (active : q.shows st.table s (consumerRow c) .active = some (Bytes.ofUInt64 id))
    (later : q.shows st.table s' (consumerRow c) .active = some (Bytes.ofUInt64 id))
    (newest : st.table.ShownUntil (q.seat c).row s' s.writeVersion) (seen : s'.sees s.writeVersion) :
    q.shows st'.table s' (consumerRow c) .active = some (Bytes.ofUInt64 noEntry) ∧
      q.shows st'.table s' (consumerRow c) .readPointer =
        q.shows st.table s' (consumerRow c) .readPointer := by
  obtain ⟨t, same, table⟩ := wrote
  have inRow := ackingCells_in_row c (q.shows st.table s) id
  have left (column : Column) (own : column.InConsumerRow)
      (out : column ∉ (ackingCells c (q.shows st.table s) id).map (·.1)) :
      q.shows st'.table s' (consumerRow c) column = q.shows st.table s' (consumerRow c) column := by
    have kept := @Table.history_recordAll_of_column t (q.seat c) _ s.writeVersion inRow _ own out
    rw [← table, same.history] at kept
    exact congrArg (History.read · s') kept
  refine ⟨?_, left .readPointer trivial ?_⟩
  · by_cases zero : id = noEntry
    · rw [left .active trivial ?_, later, zero]
      simp [ackingCells, active, activeEntry?, zero]
    · have touched : st.table.Touched (· = (q.seat c).row) s.writeVersion st'.table :=
        (same.touched _ _).trans (.of_recordAll table)
      refine (newest.of_touched touched (UInt64.le_refl _)).read seen ?_
      have cleared : (.active, Bytes.ofUInt64 noEntry) ∈ ackingCells c (q.shows st.table s) id := by
        simp [ackingCells, active, activeEntry?, zero]
      rw [table, Table.history_recordAll_of_cell inRow (ackingCells_nodup c _ id) cleared,
        History.at?_record, if_pos rfl]
  · unfold ackingCells
    split <;> simp

theorem Handed.settled (handed : q.Handed c config v id t st.table)
    (acked : q.ack ⟨q.name, id⟩ c s st = .ok () st') (newest : st.table.ShownUntil (q.seat c).row s' v)
    (seen : s.sees v) (extended : s'.Extends s) (seen' : s'.sees s.writeVersion) :
    q.shows st'.table s' (consumerRow c) .active = some (Bytes.ofUInt64 noEntry) ∧
      ∃ r, id ≤ r ∧ q.shows st'.table s' (consumerRow c) .readPointer = some (Bytes.ofUInt64 r) := by
  have newest' : st.table.ShownUntil (q.seat c).row s' s.writeVersion :=
    newest.of_touched (.refl (fun _ => False) _ _) (Snapshot.le_maximum_of_sees seen)
  obtain ⟨inactive, kept⟩ := settled_of_written
    ((q.ends_ack c s ⟨q.name, id⟩).of_ok acked).1
    (handed.shows_active (newest.of_extends extended) seen)
    (handed.shows_active newest (extended v seen)) newest' seen'
  obtain ⟨r, passed, pointer⟩ := handed.shows_readPointer newest (extended v seen)
  exact ⟨inactive, r, passed, kept.trans pointer⟩

end Acknowledging

section Following

variable {q : Queue} {c : Consumer} {config : Config} {s : Snapshot} {t : Table} {view : QueueView}
  {a r w id : EntryId} {group group' : Int} {d : Delivery} {cells : List (Column × Bytes)}
  {left : Option EntryId}

/-- An entry can be served, and a member of a shared group that has nothing pending draws it from the
pointer of its group. -/
def DrawnNext (q : Queue) (c : Consumer) (s : Snapshot) (t : Table) (id : EntryId) : Prop :=
  ∃ payload group', q.sight (q.shows t s) id = .ok (.servable payload) ∧
    q.ComesTo (q.shows t s) (t.standing (RowKey.entryCounter.encode q.name)) none
      (t.standing (q.seat c).groupRow) (some id) group'

theorem DrawnNext.beyond (h : q.DrawnNext c s t id) : t.standing (q.seat c).groupRow < id.toNat := by
  obtain ⟨_, _, _, comes⟩ := h
  exact (comes.pending_or_beyond rfl).resolve_left nofun

theorem RowAnswer.served_iff_drawn (stands : (w.toNat : Int) = t.standing (RowKey.entryCounter.encode q.name))
    (h : q.RowAnswer config (q.shows t s) c noEntry r (t.standing (q.seat c).groupRow) w d cells left
      group') (passed : id ≤ r) :
    d.pointer? = some ⟨q.name, id⟩ ↔ config.partitioner = .roundRobin ∧ q.DrawnNext c s t id := by
  cases h with
  | again nonzero _ => exact absurd rfl nonzero
  | waiting nonzero _ _ => exact absurd rfl nonzero
  | cleared nonzero _ _ _ => exact absurd rfl nonzero
  | idle _ onward =>
      cases onward with
      | scanned hash _ scan =>
          refine ⟨fun served => ?_, fun drawn => by cases hash.symm.trans drawn.1⟩
          cases scan with
          | next reaches _ _ =>
              cases served
              exact absurd reaches.behind (UInt64.not_lt.2 passed)
          | nothing _ _ _ => cases served
      | drawn shared comes draw =>
          rw [stands] at comes
          constructor
          · intro served
            obtain rfl := draw.claim_eq (.inl served)
            cases draw with
            | served shown => exact ⟨shared, _, _, shown, comes⟩
            | waiting _ => cases served
          · rintro ⟨-, payload, _, shown, comes'⟩
            obtain ⟨rfl, -⟩ := comes.unique comes'
            cases draw with
            | served _ => rfl
            | waiting unseen => cases unseen.symm.trans shown

theorem RowAnswer.served_again
    (h : q.RowAnswer config view c a r group w d cells left group') (nonzero : a ≠ noEntry)
    {payload : Bytes} (shown : q.sight view a = .ok (.servable payload)) :
    d = .served ⟨q.name, a⟩ ⟨payload, {}⟩ := by
  cases h with
  | again _ sight =>
      cases sight.symm.trans shown
      rfl
  | waiting _ sight _ => cases sight.symm.trans shown
  | idle zero _ => exact absurd zero nonzero
  | cleared _ sight clears _ => exact absurd (Except.ok.inj (sight.symm.trans shown)) (clears.1 payload)

section Reads

variable (reads : q.Reads c s t a r w)

include reads

theorem Reads.active_eq (stored : q.shows t s (consumerRow c) .active = some (Bytes.ofUInt64 id)) :
    a = id := by
  have read := reads.active
  rw [stored, q.decodeId_of_storedId? c (storedId?_ofUInt64 id)] at read
  exact (Except.ok.inj read).symm

theorem Reads.readPointer_eq
    (stored : q.shows t s (consumerRow c) .readPointer = some (Bytes.ofUInt64 id)) : r = id := by
  have read := reads.readPointer
  rw [stored, q.decodeId_of_storedId? c (storedId?_ofUInt64 id)] at read
  exact (Except.ok.inj read).symm

end Reads

end Following

end Queue

private theorem Event.after_of_ack {q : Queue} {p : Pointer} {c : Consumer} {s : Snapshot} {st : Storage} :
    Event.after ⟨⟨q, .ack p c s, .none⟩, st⟩ = stateAfter (q.ack p c s { st with plan := .none }) := by
  rw [after, outcome_of_ack rfl]
  cases q.ack p c s { st with plan := .none } <;> rfl

section Served

variable {past : List Event} {q : Queue} {c : Consumer} {config : Config} {s s' s'' : Snapshot}
  {k : Cursor} {p : Pointer} {x : Entry} {t : Turn} (run : Run Opened past) (opens : q.Opens)
  (served : q.dequeue c config s ⟨{ storageAfter past with plan := .none }, k⟩ = .ok (.served p x) t)

include run opens served

private theorem rowDecides_after_ack (s' s'' : Snapshot) :
    t.storage.table.Bears (q.seat c) Column.Legible ∧ ∃ a r w,
      q.RowDecides c s'' (stateAfter (q.ack p c s' { t.storage with plan := .none })) a r w := by
  let asked : Event := ⟨⟨q, .dequeue c config k s, .none⟩, storageAfter past⟩
  have run₁ : Run Opened (asked :: past) := .next run opens
  have after₁ : storageAfter (asked :: past) = t.storage :=
    (Event.delivers_of_ok (e := asked) rfl rfl served).2
  have run₂ : Run Opened (⟨⟨q, .ack p c s', .none⟩, t.storage⟩ :: asked :: past) :=
    after₁ ▸ .next run₁ opens
  have decides := Queue.rowDecides_of_run run₂ opens c s''
  rw [storageAfter, Event.after_of_ack] at decides
  exact ⟨after₁ ▸ Opened.legible run₁ opens.shortName, decides⟩

open Queue in
/-- After every run, a request that hands an entry out to a member of a shared group lets it acknowledge the
entry; one that hands it out in a disjoint group changes nothing in what the consumer can acknowledge, and
that is decided by another configuration, the consumer's or the queue's.  After an acknowledgement that is
accepted a later request from a cursor that was never loaded does not hand the entry out again, unless it is
a request of a member of a shared group that draws it, which it does not if the group has come to the entry.
One that is not accepted is refused and changes nothing, and the later request hands the entry out again as
long as it can be served. -/
theorem served_acknowledged_iff (seen : s'.sees s.writeVersion) (extended : s''.Extends s')
    (seen' : s''.sees s'.writeVersion) :
    let newest := (storageAfter past).table.ShownUntil (q.seat c).row s'' s.writeVersion
    let accepts table := q.Accepts c s' table p.id
    let acks := q.ack p c s' { t.storage with plan := .none }
    let ask (config' : Config) (st : Storage) :=
      q.dequeue c config' s'' ⟨{ st with plan := .none }, .fresh⟩
    (newest → (accepts t.storage.table ↔
      config.partitioner = .roundRobin ∨ accepts (storageAfter past).table)) ∧
    (accepts t.storage.table → ∃ st', acks = .ok () st' ∧
      (newest → ∀ config', config'.validate = .ok () → c.validate config'.partitioner = .ok () →
        ∃ d t', ask config' st' = .ok d t' ∧
          (d.pointer? = some p ↔ config'.partitioner = .roundRobin ∧ q.DrawnNext c s'' st'.table p.id) ∧
          (p.id.toNat ≤ st'.table.standing (q.seat c).groupRow → d.pointer? ≠ some p))) ∧
    (¬ accepts t.storage.table → ∃ reason st', acks = .error (.illegalAck p.id reason) st' ∧
      t.storage.table.Alike st'.table ∧
      (newest → ∀ config' payload, config'.validate = .ok () →
        c.validate config'.partitioner = .ok () → p.id ≠ noEntry →
          q.sight (q.shows st'.table s'') p.id = .ok (.servable payload) →
            ∃ t', ask config' st' = .ok (.served p ⟨payload, {}⟩) t')) := by
  intro newest accepts acks ask
  obtain ⟨name, handed⟩ := handed_of_dequeue served
  obtain ⟨bears, a, r, w, decides⟩ := rowDecides_after_ack run opens served s' s''
  obtain ⟨queue, id⟩ := p
  obtain rfl : queue = q.name := name
  let found : Storage := { t.storage with plan := .none }
  have handed : q.Handed c config s.writeVersion id (storageAfter past).table found.table := handed
  -- What the request has written is the newest that the later snapshots see of the row.
  have stays (newest : newest) : found.table.ShownUntil (q.seat c).row s'' s.writeVersion :=
    newest.of_touched (touched_of_dequeue served) (UInt64.le_refl _)
  obtain ⟨accepted, refused⟩ := @ack_of_legible q c s' found rfl bears id
  refine ⟨fun newest => handed.accepts_iff ((stays newest).of_extends extended) seen,
    fun accepts => ?_, fun refuses => ?_⟩
  · obtain ⟨st', done⟩ := accepted accepts
    rw [done] at decides
    refine ⟨st', done, fun newest config' valid member => ?_⟩
    obtain ⟨inactive, r', passed, pointer⟩ :=
      handed.settled done (stays newest) seen extended seen'
    obtain rfl : a = noEntry := decides.reads.active_eq inactive
    obtain rfl : r = r' := decides.reads.readPointer_eq pointer
    obtain ⟨d, t', asks, cells, group', answer, -⟩ := decides.answers config' valid member
    have drawn := answer.served_iff_drawn decides.reads.writePointer passed
    exact ⟨d, t', asks, drawn, fun claimed served => Int.not_lt.2 claimed (drawn.1 served).2.beyond⟩
  · obtain ⟨reason, st', done⟩ := refused refuses
    rw [done] at decides
    have same := ((q.ends_ack c s' ⟨q.name, id⟩).of_error done).1.1
    refine ⟨reason, st', done, same, fun newest config' payload valid member nonzero shown => ?_⟩
    have active := handed.shows_active (stays newest) (extended _ seen)
    rw [← q.shows_of_alike same] at active
    obtain rfl : a = id := decides.reads.active_eq active
    obtain ⟨d, t', asks, cells, group', answer, -⟩ := decides.answers config' valid member
    obtain rfl := answer.served_again nonzero shown
    exact ⟨t', asks⟩

end Served

/-- An entry with a hash is appended to a queue whose consumers take turns. -/
def appendedWithHash : List Call :=
  [⟨⟨"q", ⟨.roundRobin, 20⟩⟩, .enqueue ⟨[97], Std.TreeMap.ofList [("k", (0 : Int32))]⟩ 1, .none⟩]

/-- A consumer that is handed the entry by its hash cannot acknowledge it, and is handed it again. -/
theorem unclaimed_handed_again :
    let q : Queue := ⟨"q", ⟨.roundRobin, 20⟩⟩
    let c : Consumer := { group := 1, member := 0, groupSize := 1, partitioningKey := some "k" }
    let ask st := q.dequeue c ⟨.hash, 20⟩ (.upTo 10) ⟨{ st with plan := .none }, .fresh⟩
    ∃ x t, ask (storageAfter (replay appendedWithHash)) = .ok (.served ⟨"q", 1⟩ x) t ∧
      ∃ reason st', q.ack ⟨"q", 1⟩ c (.upTo 10) { t.storage with plan := .none } =
          .error (.illegalAck 1 reason) st' ∧
        ∃ t', ask st' = .ok (.served ⟨"q", 1⟩ ⟨[97], {}⟩) t' := by
  intro q c ask
  have opens : q.Opens := rfl
  have run : Run Opened (replay appendedWithHash) := .next .start opens
  have pointer : (answer? (ask (storageAfter (replay appendedWithHash)))).bind (·.pointer?) =
      some ⟨"q", 1⟩ := by with_unfolding_all decide
  have shown : q.sight (q.shows (stateAfter (ask (storageAfter (replay appendedWithHash)))).storage.table
      (.upTo 10)) 1 = .ok (.servable [97]) :=
    Queue.sight_servable_iff.2 ⟨by with_unfolding_all decide, by with_unfolding_all decide⟩
  cases served : ask (storageAfter (replay appendedWithHash)) with
  | error e t =>
      rw [served] at pointer
      cases pointer
  | ok d t =>
      rw [served] at pointer shown
      cases d with
      | empty => cases pointer
      | served p x =>
          cases pointer
          obtain ⟨decides, -, refuses⟩ := @served_acknowledged_iff _ q c ⟨.hash, 20⟩ (.upTo 10) (.upTo 10)
            (.upTo 10) .fresh ⟨"q", 1⟩ x t run opens served (by decide) (fun _ sees => sees) (by decide)
          have newest : (storageAfter (replay appendedWithHash)).table.ShownUntil (q.seat c).row (.upTo 10)
              (Snapshot.upTo 10).writeVersion := fun _ _ _ sees => Snapshot.le_maximum_of_sees sees
          have unclaimed : ¬ q.Accepts c (.upTo 10) t.storage.table 1 := by
            intro accepts
            rcases (decides newest).1 accepts with shared | hash | claimed
            · cases shared
            · cases hash
            · exact absurd claimed (by with_unfolding_all decide)
          obtain ⟨reason, st', refused, same, again⟩ := refuses unclaimed
          refine ⟨x, t, rfl, reason, st', refused, again newest ⟨.hash, 20⟩ [97] rfl rfl (by decide) ?_⟩
          rw [q.shows_of_alike same]
          exact shown

end VersionedQueue
