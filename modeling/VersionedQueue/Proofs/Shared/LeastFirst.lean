import VersionedQueue.Proofs.Delivery.RowAnswer
import VersionedQueue.Proofs.Run.Replay

/-!
# Handing out takes the least id that is left

A member of a shared group that comes without a cursor is answered by its active entry while that is valid
or not shown yet, and otherwise takes the least id beyond the pointer of its group that is allocated and not
retired.  The pointer of the group is left at exactly that id, or at the counter of entries if there is none,
unless others have moved it beyond the counter before.
-/

set_option autoImplicit false
set_option relaxedAutoImplicit false

namespace VersionedQueue

/-- The same is stored, and others may have moved counters forward. -/
structure Table.Advanced (t t' : Table) : Prop where
  history : ∀ row column, t'.history row column = t.history row column
  standing : ∀ row, t.standing row ≤ t'.standing row
  refuses : t'.refusesIncrements = t.refusesIncrements

namespace Table.Advanced

variable {t t' : Table}

theorem refl (t : Table) : t.Advanced t := ⟨fun _ _ => rfl, fun _ => Int.le_refl _, rfl⟩

theorem of_increment {row column : Bytes} {delta next : Int64} (forward : 0 ≤ delta.toInt)
    (h : TableM.increment row column delta t = .ok next t') : t.Advanced t' where
  history := (TableM.kept_of_increment h).1
  standing r := by
    obtain ⟨sum, counters⟩ := TableM.counter_of_increment h
    have moved := toInt_of_checkedAdd sum
    simp only [Table.standing, counters]
    split
    · rename_i here
      rw [here.1, here.2]
      omega
    · exact Int.le_refl _
  refuses := (TableM.kept_of_increment h).2

theorem of_call (purpose : Purpose) (row column : Bytes) (delta : Int64) (forward : 0 ≤ delta.toInt)
    (st : Storage) :
    st.table.Advanced (stateAfter (Storage.increment purpose row column delta st)).table := by
  cases done : Storage.increment purpose row column delta st with
  | ok next st' => exact .of_increment forward (Storage.table_of_call done)
  | error e st' =>
      exact Storage.table_of_failed (TableM.failsClean_increment _ _ _) done ▸ .refl _

theorem shows (h : t.Advanced t') (q : Queue) (s : Snapshot) : q.shows t' s = q.shows t s := by
  funext key column
  simp only [Queue.shows, Table.read, h.history]

end Table.Advanced

theorem EntryState.encode_of_decode? {cell : Bytes} {state : EntryState}
    (decoded : decode? cell = some state) : cell = state.encode := by
  unfold decode? at decoded
  split at decoded <;> cases decoded <;> rfl

namespace Queue

section View

variable (q : Queue) (view : QueueView)

/-- A view shows an entry as invalidated or evicted. -/
def ShowsRetired (id : EntryId) : Prop :=
  ∃ state : EntryState, view (.entry id) .state = some state.encode ∧ state.isServable = false

/-- The id that a group is to take next, given where its pointer stands: it is allocated and not retired,
and all ids before it are claimed or retired. -/
structure TakesNext (group : Int) (writePointer id : EntryId) : Prop where
  unclaimed : group < id.toNat
  allocated : id ≤ writePointer
  unretired : ¬ ShowsRetired view id
  least : ∀ other : EntryId, group < other.toNat → other < id → ShowsRetired view other

/-- What a member is answered when its group takes the next id, if there is one: the id, the answer, the
cells that are stored with it, and where the pointer of the group is left. -/
inductive TakeAnswer (readPointer : EntryId) (group : Int) (writePointer : EntryId) :
    Option EntryId → Delivery → List (Column × Bytes) → Int → Prop
  | served {id : EntryId} {payload : Bytes} : TakesNext view group writePointer id →
      view (.entry id) .state = some EntryState.valid.encode →
      view (.entry id) .payload = some payload →
      TakeAnswer readPointer group writePointer (some id) (.served ⟨q.name, id⟩ ⟨payload, {}⟩)
        [(.readPointer, Bytes.ofUInt64 (max readPointer id)), (.active, Bytes.ofUInt64 id),
          (.claim id, ClaimState.claimed.encode)] id.toNat
  | waiting {id : EntryId} : TakesNext view group writePointer id →
      view (.entry id) .state = none →
      TakeAnswer readPointer group writePointer (some id) .empty
        [(.readPointer, Bytes.ofUInt64 readPointer), (.active, Bytes.ofUInt64 id),
          (.claim id, ClaimState.claimed.encode)] id.toNat
  | nothing : (∀ id, ¬ TakesNext view group writePointer id) →
      TakeAnswer readPointer group writePointer none .empty
        [(.readPointer, Bytes.ofUInt64 readPointer)] (max group writePointer.toNat)

/-- What a member without a cursor is answered, given the active entry and the read pointer in its row and
the counters: a valid active entry is handed out again, one that is not shown is waited for, and a retired
one is cleared before the group takes the next id. -/
inductive LeastAnswer (active readPointer : EntryId) (group : Int) (writePointer : EntryId) :
    Delivery → List (Column × Bytes) → Int → Prop
  | again {payload : Bytes} : active ≠ noEntry →
      view (.entry active) .state = some EntryState.valid.encode →
      view (.entry active) .payload = some payload →
      LeastAnswer active readPointer group writePointer (.served ⟨q.name, active⟩ ⟨payload, {}⟩)
        [(.readPointer, Bytes.ofUInt64 (max readPointer active)), (.active, Bytes.ofUInt64 active),
          (.claim active, ClaimState.claimed.encode)] group
  | waiting : active ≠ noEntry → view (.entry active) .state = none →
      LeastAnswer active readPointer group writePointer .empty
        [(.readPointer, Bytes.ofUInt64 readPointer), (.active, Bytes.ofUInt64 active),
          (.claim active, ClaimState.claimed.encode)] group
  | idle {taken : Option EntryId} {d : Delivery} {cells : List (Column × Bytes)} {group' : Int} :
      active = noEntry → q.TakeAnswer view readPointer group writePointer taken d cells group' →
      LeastAnswer active readPointer group writePointer d cells group'
  | cleared {taken : Option EntryId} {d : Delivery} {cells : List (Column × Bytes)} {group' : Int} :
      active ≠ noEntry → ShowsRetired view active →
      q.TakeAnswer view readPointer group writePointer taken d cells group' →
      LeastAnswer active readPointer group writePointer d
        (if taken.isSome then cells else cells ++ [(.active, Bytes.ofUInt64 noEntry)]) group'

end View

section Unique

variable {q : Queue} {view : QueueView} {active readPointer writePointer id id' : EntryId}
  {group group₁ group₂ : Int} {taken taken' : Option EntryId} {d d' : Delivery}
  {cells cells' : List (Column × Bytes)}

private theorem not_showsRetired_of_valid
    (valid : view (.entry id) .state = some EntryState.valid.encode) : ¬ ShowsRetired view id := by
  rintro ⟨state, shown, retired⟩
  cases state with
  | valid => cases retired
  | invalid => cases valid.symm.trans shown
  | evicted => cases valid.symm.trans shown

private theorem not_showsRetired_of_unseen (unseen : view (.entry id) .state = none) :
    ¬ ShowsRetired view id := by
  rintro ⟨state, shown, _⟩
  cases unseen.symm.trans shown

theorem TakesNext.unique (h : TakesNext view group writePointer id)
    (h' : TakesNext view group writePointer id') : id = id' := by
  refine UInt64.le_antisymm (UInt64.not_lt.1 fun later => ?_) (UInt64.not_lt.1 fun later => ?_)
  · exact h'.unretired (h.least id' h'.unclaimed later)
  · exact h.unretired (h'.least id h.unclaimed later)

theorem TakeAnswer.unique (h : q.TakeAnswer view readPointer group writePointer taken d cells group₁)
    (h' : q.TakeAnswer view readPointer group writePointer taken' d' cells' group₂) :
    taken = taken' ∧ d = d' ∧ cells = cells' ∧ group₁ = group₂ := by
  cases h with
  | served next valid stored =>
      cases h' with
      | served next' _ stored' =>
          obtain rfl := next.unique next'
          obtain rfl := Option.some.inj (stored.symm.trans stored')
          exact ⟨rfl, rfl, rfl, rfl⟩
      | waiting next' unseen =>
          obtain rfl := next.unique next'
          cases valid.symm.trans unseen
      | nothing none => exact absurd next (none _)
  | waiting next unseen =>
      cases h' with
      | served next' valid _ =>
          obtain rfl := next.unique next'
          cases valid.symm.trans unseen
      | waiting next' _ =>
          obtain rfl := next.unique next'
          exact ⟨rfl, rfl, rfl, rfl⟩
      | nothing none => exact absurd next (none _)
  | nothing none =>
      cases h' with
      | served next _ _ => exact absurd next (none _)
      | waiting next _ => exact absurd next (none _)
      | nothing _ => exact ⟨rfl, rfl, rfl, rfl⟩

/-- A view and the counters decide on the answer, on what is stored with it and on where the pointer of the
group is left. -/
theorem LeastAnswer.unique
    (h : q.LeastAnswer view active readPointer group writePointer d cells group₁)
    (h' : q.LeastAnswer view active readPointer group writePointer d' cells' group₂) :
    d = d' ∧ cells = cells' ∧ group₁ = group₂ := by
  cases h with
  | again some valid stored =>
      cases h' with
      | again _ _ stored' =>
          obtain rfl := Option.some.inj (stored.symm.trans stored')
          exact ⟨rfl, rfl, rfl⟩
      | waiting _ unseen => cases valid.symm.trans unseen
      | idle none _ => exact absurd none some
      | cleared _ retired _ => exact absurd retired (not_showsRetired_of_valid valid)
  | waiting some unseen =>
      cases h' with
      | again _ valid _ => cases valid.symm.trans unseen
      | waiting _ _ => exact ⟨rfl, rfl, rfl⟩
      | idle none _ => exact absurd none some
      | cleared _ retired _ => exact absurd retired (not_showsRetired_of_unseen unseen)
  | idle none take =>
      cases h' with
      | again some _ _ => exact absurd none some
      | waiting some _ => exact absurd none some
      | idle _ take' =>
          obtain ⟨rfl, rfl, rfl, rfl⟩ := take.unique take'
          exact ⟨rfl, rfl, rfl⟩
      | cleared some _ _ => exact absurd none some
  | cleared some retired take =>
      cases h' with
      | again _ valid _ => exact absurd retired (not_showsRetired_of_valid valid)
      | waiting _ unseen => exact absurd retired (not_showsRetired_of_unseen unseen)
      | idle none _ => exact absurd none some
      | cleared _ _ take' =>
          obtain ⟨rfl, rfl, rfl, rfl⟩ := take.unique take'
          exact ⟨rfl, rfl, rfl⟩

end Unique

section Sight

variable {q : Queue} {view : QueueView} {id : EntryId}

theorem sight_unseen_iff : q.sight view id = .ok .unseen ↔ view (.entry id) .state = none := by
  constructor
  · intro sight
    unfold Queue.sight at sight
    split at sight
    · assumption
    · split at sight
      · cases sight
      · split at sight
        · split at sight <;> cases sight
        · cases sight
  · intro unseen
    simp only [Queue.sight, unseen]

theorem sight_retired_iff : q.sight view id = .ok .retired ↔ ShowsRetired view id := by
  constructor
  · intro sight
    unfold Queue.sight at sight
    split at sight
    · cases sight
    · rename_i cell shown
      split at sight
      · cases sight
      · rename_i state decoded
        split at sight
        · split at sight <;> cases sight
        · rename_i retired
          unfold decodeState at decoded
          split at decoded
          · rename_i found
            cases decoded
            exact ⟨state, shown.trans (congrArg some (EntryState.encode_of_decode? found)),
              by simpa using retired⟩
          · cases decoded
  · rintro ⟨state, shown, retired⟩
    simp [Queue.sight, shown, decodeState, retired]

end Sight

section Answer

variable {q : Queue} {view : QueueView} {c : Consumer} {config : Config}
  {active r w : EntryId} {group group' : Int}

private theorem takes_of_comesTo {pending claim : Option EntryId}
    (h : q.ComesTo view w.toNat pending group claim group') (free : pending = none) :
    (∀ id, claim = some id → TakesNext view group w id ∧ group' = id.toNat) ∧
      (claim = none → (∀ id, ¬ TakesNext view group w id) ∧ group' = max group w.toNat) := by
  induction h with
  | claim next sight =>
      cases next with
      | held held => cases held.symm.trans free
      | taken _ below number =>
          refine ⟨fun id same => ?_, nofun⟩
          cases same
          refine ⟨⟨by omega, UInt64.le_iff_toNat_le.2 (by omega), fun retired =>
            sight (sight_retired_iff.2 retired), fun other unclaimed before => ?_⟩, number.symm⟩
          rw [UInt64.lt_iff_toNat_lt] at before
          omega
  | @dropped _ _ group group₁ _ id next retired _ ih =>
      cases next with
      | held held => cases held.symm.trans free
      | taken _ below number =>
          obtain ⟨drawn, ended⟩ := ih rfl
          -- What is unclaimed now is the id that was dropped, or unclaimed after it.
          have split (other : EntryId) (unclaimed : group < other.toNat) :
              other = id ∨ group + 1 < other.toNat := by
            by_cases here : other.toNat = id.toNat
            · exact .inl (UInt64.toNat_inj.1 here)
            · exact .inr (by omega)
          refine ⟨fun other same => ?_, fun none => ?_⟩
          · obtain ⟨next, stands⟩ := drawn other same
            refine ⟨⟨by have := next.unclaimed; omega, next.allocated, next.unretired,
              fun before unclaimed below => ?_⟩, stands⟩
            rcases split before unclaimed with rfl | later
            · exact sight_retired_iff.1 retired
            · exact next.least before later below
          · obtain ⟨nothing, stands⟩ := ended none
            refine ⟨fun other next => ?_, by omega⟩
            rcases split other next.unclaimed with rfl | later
            · exact next.unretired (sight_retired_iff.1 retired)
            · exact nothing other ⟨later, next.allocated, next.unretired,
                fun before unclaimed => next.least before (by omega)⟩
  | caughtUp reached =>
      refine ⟨nofun, fun _ => ⟨fun id next => ?_, by omega⟩⟩
      have unclaimed := next.unclaimed
      have allocated := UInt64.le_iff_toNat_le.1 next.allocated
      omega

private theorem takeAnswer_of_draw {claim left : Option EntryId} {d : Delivery}
    {cells : List (Column × Bytes)} (comes : q.ComesTo view w.toNat none group claim group')
    (draw : q.DrawAnswer view r claim d cells left) :
    q.TakeAnswer view r group w claim d cells group' := by
  obtain ⟨taken, ended⟩ := takes_of_comesTo comes rfl
  cases draw with
  | served shown =>
      obtain ⟨next, rfl⟩ := taken _ rfl
      obtain ⟨valid, stored⟩ := sight_servable_iff.1 shown
      exact .served next valid stored
  | waiting shown =>
      obtain ⟨next, rfl⟩ := taken _ rfl
      exact .waiting next (sight_unseen_iff.1 shown)
  | nothing =>
      obtain ⟨none, rfl⟩ := ended rfl
      exact .nothing none

private theorem TakeAnswer.recordAll_clearing {taken : Option EntryId} {d : Delivery}
    {cells : List (Column × Bytes)} (h : q.TakeAnswer view r group w taken d cells group') (t : Table)
    (row : Bytes) (v : Version) :
    (t.recordAll row ((if taken.isSome then cells else cells ++ [(.active, Bytes.ofUInt64 noEntry)]).map
        fun cell => (cell.1.encode, cell.2)) v).Alike
      (t.recordAll row (((.active, Bytes.ofUInt64 noEntry) :: cells).map
        fun cell => (cell.1.encode, cell.2)) v) := by
  have apart : Column.readPointer.encode ≠ Column.active.encode := by decide
  have turned (x : Bytes) := t.record_comm_alike row apart v (some x) (some (Bytes.ofUInt64 noEntry))
  -- The cleared active entry is written over by the one that was taken.
  have written (x y : Bytes) (rest : List (Bytes × Bytes)) :
      (t.recordAll row ((Column.readPointer.encode, x) :: (Column.active.encode, y) :: rest) v).Alike
        (t.recordAll row ((Column.active.encode, Bytes.ofUInt64 noEntry) ::
          (Column.readPointer.encode, x) :: (Column.active.encode, y) :: rest) v) := by
    have twice := (t.record row Column.readPointer.encode v (some x)).record_record_alike
      row Column.active.encode v (some (Bytes.ofUInt64 noEntry)) (some y)
    exact (twice.symm.trans ((turned x).record row Column.active.encode v _)).recordAll row v rest
  cases h with
  | served _ _ _ => exact written _ _ _
  | waiting _ _ => exact written _ _ _
  | nothing _ => exact turned _

private theorem RowAnswer.least {d : Delivery} {cells : List (Column × Bytes)} {left : Option EntryId}
    (shared : config.partitioner = .roundRobin)
    (h : q.RowAnswer config view c active r group w d cells left group') (t : Table) (row : Bytes)
    (v : Version) :
    ∃ cells', q.LeastAnswer view active r group w d cells' group' ∧
      (t.recordAll row (cells'.map fun cell => (cell.1.encode, cell.2)) v).Alike
        (t.recordAll row (cells.map fun cell => (cell.1.encode, cell.2)) v) := by
  have joint : config.partitioner.isDisjoint = false := by rw [shared]; rfl
  cases h with
  | again nonzero sight =>
      obtain ⟨valid, stored⟩ := sight_servable_iff.1 sight
      rw [joint]
      exact ⟨_, .again nonzero valid stored, .refl _⟩
  | waiting nonzero sight _ => exact ⟨_, .waiting nonzero (sight_unseen_iff.1 sight), .refl _⟩
  | idle zero onward =>
      cases onward with
      | scanned hash _ _ => cases hash.symm.trans shared
      | drawn _ comes draw => exact ⟨_, .idle zero (takeAnswer_of_draw comes draw), .refl _⟩
  | @cleared seen _ _ _ _ nonzero sight clears onward =>
      have retired : seen = .retired := by
        cases seen with
        | servable payload => exact absurd rfl (clears.1 payload)
        | unseen => exact absurd ⟨rfl, by rw [joint]; rfl⟩ clears.2
        | retired => rfl
      cases onward with
      | scanned hash _ _ => cases hash.symm.trans shared
      | drawn _ comes draw =>
          have take := takeAnswer_of_draw comes draw
          exact ⟨_, .cleared nonzero (sight_retired_iff.1 (retired ▸ sight)) take,
            take.recordAll_clearing t row v⟩

end Answer

theorem answers_dequeue_least (q : Queue) (c : Consumer) (config : Config) (s : Snapshot) {st : Storage}
    {a r w : EntryId} (shared : config.partitioner = .roundRobin) (valid : config.validate = .ok ())
    (member : c.validate config.partitioner = .ok ()) (k : Cursor) (unloaded : k.loaded = false)
    {group : Int} (counts : q.Counts c st group w.toNat) (readable : q.Readable (q.shows st.table s))
    (reads : q.Reads c s st.table a r w) :
    Answers (q.dequeue c config s) ⟨st, k⟩ fun d t' => ∃ cells group',
      q.LeastAnswer (q.shows st.table s) a r group w d cells group' ∧
        Table.Counted (q.seat c).groupRow (st.table.recordAll (q.seat c).row
          (cells.map fun cell => (cell.1.encode, cell.2)) s.writeVersion) t'.storage.table ∧
        t'.storage.table.standing (q.seat c).groupRow = group' := by
  refine (q.answers_dequeue_row c config s valid member k unloaded counts readable reads).imp ?_
  rintro d t' ⟨cells, group', answer, records⟩
  obtain ⟨cells', least, same⟩ := answer.least shared st.table (q.seat c).row s.writeVersion
  exact ⟨cells', group', least, (Table.Counted.of_alike same _).trans records.counted, records.standing⟩

end Queue

/-- After every run, and with counters that others have moved forward, a member of a shared group that comes
without a cursor, to storage where no call fails, is handed its stored active entry if that is shown as valid,
is told to wait while it is not shown, and is otherwise answered with the least id that is allocated, beyond
the pointer of its group and not retired.  The pointer of the group is left at exactly that id, or where it
was if none was taken and all are claimed; nothing else is claimed, no other counter moves, and the row of
the member is all that is written to. -/
theorem dequeue_takes_least {past : List Event} {q : Queue} {c : Consumer} (run : Run Opened past)
    (opens : q.Opens) (member : c.validate .roundRobin = .ok ()) (s : Snapshot) {st : Storage}
    (moved : (storageAfter past).table.Advanced st.table) :
    ∃ a r w d cells group', q.Reads c s st.table a r w ∧
      q.LeastAnswer (q.shows st.table s) a r (st.table.standing (q.seat c).groupRow) w d cells group' ∧
      ∀ (batchSize : UInt32) (k : Cursor), batchSize ≤ 1000 → k.loaded = false →
        Answers (q.dequeue c ⟨.roundRobin, batchSize⟩ s) ⟨{ st with plan := .none }, k⟩ fun d' t' =>
          d' = d ∧ t'.storage.table.standing (q.seat c).groupRow = group' ∧
            Table.Counted (q.seat c).groupRow (st.table.recordAll (q.seat c).row
              (cells.map fun cell => (cell.1.encode, cell.2)) s.writeVersion) t'.storage.table := by
  have same := moved.shows q s
  have readable : q.Readable (q.shows st.table s) := same ▸ readable_of_run run opens s
  obtain ⟨a, r, _, earlier⟩ := reads_of_run run opens c s
  obtain ⟨w, stands⟩ := Table.exists_id_of_standing
    (Int.le_trans (standing_nonneg run _) (moved.standing (RowKey.entryCounter.encode q.name)))
  have reads : q.Reads c s st.table a r w := ⟨same ▸ earlier.active, same ▸ earlier.readPointer, stands⟩
  have counts : q.Counts c { st with plan := .none } (st.table.standing (q.seat c).groupRow) w.toNat :=
    ⟨⟨rfl, moved.refuses.trans (works_of_run run)⟩, rfl, stands.symm,
      Int.le_trans (standing_nonneg run _) (moved.standing _), Int.natCast_nonneg _⟩
  have answers (batchSize : UInt32) (k : Cursor) (small : batchSize ≤ 1000) (unloaded : k.loaded = false) :=
    q.answers_dequeue_least c ⟨.roundRobin, batchSize⟩ s rfl (if_neg (UInt32.not_lt.2 small)) member k
      unloaded counts readable reads
  obtain ⟨d, _, _, cells, group', least, _⟩ := answers 0 .fresh (by decide) rfl
  refine ⟨a, r, w, d, cells, group', reads, least, fun batchSize k small unloaded =>
    (answers batchSize k small unloaded).imp ?_⟩
  rintro d' t' ⟨cells', group'', least', counted, standing⟩
  obtain ⟨rfl, rfl, rfl⟩ := least'.unique least
  exact ⟨rfl, standing, counted⟩

/-- The first of three entries was handed out, and the first two were retired. -/
def thinned : List Call :=
  let queue : Queue := ⟨"q", ⟨.roundRobin, 20⟩⟩
  let adding (v : Version) : Call := ⟨queue, .enqueue ⟨[v.toUInt8], {}⟩ v, .none⟩
  [⟨queue, .invalidate ⟨"q", 2⟩ 5, .none⟩, ⟨queue, .invalidate ⟨"q", 1⟩ 4, .none⟩,
    ⟨queue, .dequeue { group := 1, member := 0, groupSize := 1 } ⟨.roundRobin, 20⟩ .fresh (.upTo 3), .none⟩,
    adding 3, adding 2, adding 1]

/-- The pointer of the group is moved beyond the counter of entries. -/
def overtaken : Storage :=
  stateAfter (Storage.increment .claimGroupPointer ((RowKey.groupPointer 1).encode "q")
    Column.counter.encode 5 (storageAfter (replay thinned)))

/-- The member is handed the last entry, and the pointer of its group is left there.  Where others have moved
the pointer beyond it, there is nothing to hand out and the pointer stays. -/
theorem thinned_taken :
    let q : Queue := ⟨"q", ⟨.roundRobin, 20⟩⟩
    let c : Consumer := { group := 1, member := 0, groupSize := 1 }
    let ask (st : Storage) := q.dequeue c ⟨.roundRobin, 0⟩ (.upTo 10) ⟨{ st with plan := .none }, .fresh⟩
    (∃ d t, ask (storageAfter (replay thinned)) = .ok d t ∧ d.pointer? = some ⟨"q", 3⟩ ∧
        t.storage.table.standing (q.seat c).groupRow = 3) ∧
      ∃ t, ask overtaken = .ok .empty t ∧ t.storage.table.standing (q.seat c).groupRow = 6 := by
  intro q c ask
  have opens : q.Opens := rfl
  have run : Run Opened (replay thinned) :=
    .next (.next (.next (.next (.next (.next .start opens) opens) opens) opens) opens) opens
  constructor
  · obtain ⟨_, _, _, d, _, _, _, _, same⟩ := dequeue_takes_least (c := c) run opens rfl (.upTo 10) (.refl _)
    obtain ⟨_, t, done, rfl, stands, _⟩ := same 0 .fresh (by decide) rfl
    have pointer : (answer? (ask (storageAfter (replay thinned)))).bind (·.pointer?) = some ⟨"q", 3⟩ := by
      with_unfolding_all decide
    have group : (stateAfter (ask (storageAfter (replay thinned)))).storage.table.standing
        (q.seat c).groupRow = 3 := by with_unfolding_all decide
    have done : ask (storageAfter (replay thinned)) = .ok _ t := done
    rw [done] at pointer group
    exact ⟨_, t, done, pointer, group⟩
  · obtain ⟨_, _, _, d, _, _, _, _, same⟩ := dequeue_takes_least (c := c) run opens rfl (.upTo 10)
      (.of_call .claimGroupPointer ((RowKey.groupPointer 1).encode "q") Column.counter.encode 5
        (by decide) _)
    obtain ⟨d', t, done, _⟩ := same 0 .fresh (by decide) rfl
    have nothing : (answer? (ask overtaken)).map (·.isEmpty) = some true := by with_unfolding_all decide
    have group : (stateAfter (ask overtaken)).storage.table.standing (q.seat c).groupRow = 6 := by
      with_unfolding_all decide
    have done : ask overtaken = .ok d' t := done
    rw [done] at nothing group
    cases d' with
    | served _ _ => cases nothing
    | empty => exact ⟨t, done, group⟩

end VersionedQueue
