import VersionedQueue.Proofs.Delivery.Resumable
import VersionedQueue.Proofs.Run.Confined

/-!
# Fetching while others write ahead

A request of a member of a disjoint group is made twice under one snapshot, the second time on a table
that is ahead of the first by entries that the snapshot does not see.  The write pointer tells the two
tables apart, and so the windows do not end at the same ids.  But a scan stops at the first id that is not
visible, and all ids beyond the first table's write pointer are not: in both runs the cursor ends up at
the same id, and the same entries are found.
-/

set_option autoImplicit false
set_option relaxedAutoImplicit false

namespace VersionedQueue

namespace Window

variable {cursor writePointer writePointer' : EntryId} {batchSize : UInt64} {groupSize : UInt32}
  {w : Window}

theorem after_of_le (later : writePointer ≤ writePointer')
    (h : after cursor batchSize groupSize writePointer = some w) :
    after cursor batchSize groupSize writePointer' = some w ∨
      ∃ last, after cursor batchSize groupSize writePointer' = some ⟨w.first, last⟩ ∧
        w.last = writePointer ∧ writePointer < last := by
  unfold after at h ⊢
  split at h
  · cases h
  · rename_i behind
    have behind' : ¬ isCaughtUp cursor writePointer' = true := by
      simp only [isCaughtUp, decide_eq_true_eq, UInt64.not_le] at behind ⊢
      exact UInt64.lt_of_lt_of_le behind later
    cases h
    rw [if_neg behind']
    by_cases whole : Saturating.add cursor (span batchSize groupSize) ≤ writePointer
    · simp only [whole, UInt64.le_trans whole later, if_true, true_or]
    · by_cases same : writePointer = writePointer'
      · subst same
        exact .inl rfl
      · refine .inr ⟨_, rfl, if_neg whole, ?_⟩
        split
        · exact UInt64.not_le.1 whole
        · exact UInt64.lt_of_le_of_ne later same

theorem ids_of_later {first last last' : EntryId} (nonempty : first ≤ last) (later : last < last') :
    ∃ rest, (⟨first, last'⟩ : Window).ids = (⟨first, last⟩ : Window).ids ++ (last + 1) :: rest := by
  rw [UInt64.le_iff_toNat_le] at nonempty
  rw [UInt64.lt_iff_toNat_lt] at later
  have next : UInt64.ofNat (last.toNat + 1) = last + 1 := by
    rw [UInt64.ofNat_add, UInt64.ofNat_toNat]
    rfl
  have long : last'.toNat + 1 - first.toNat =
      (last.toNat + 1 - first.toNat) + ((last'.toNat - last.toNat - 1) + 1) := by omega
  have starts : first.toNat + (last.toNat + 1 - first.toNat) = last.toNat + 1 := by omega
  refine ⟨(List.range' (last.toNat + 1 + 1) (last'.toNat - last.toNat - 1)).map UInt64.ofNat, ?_⟩
  simp only [ids]
  rw [long, ← List.range'_append_1, List.map_append, starts, List.range'_succ, List.map_cons, next]

end Window

namespace Queue

variable (q : Queue) (c : Consumer) (config : Config) (s : Snapshot)

theorem scanHeaders_append_unseen {view : QueueView} {id : EntryId}
    (hidden : view (.entry id) .state = none) (key : String) (rest ids : List EntryId) :
    q.scanHeaders view key (ids ++ id :: rest) =
      (q.scanHeaders view key ids).map fun scan =>
        { scan with firstUnseen := scan.firstUnseen.or (some id) } := by
  induction ids with
  | nil => simp only [List.nil_append, scanHeaders, hidden, Except.map, Option.none_or]
  | cons first ids ih =>
      simp only [List.cons_append, scanHeaders]
      cases view (.entry first) .state with
      | none => rfl
      | some cell =>
          cases q.headerHash view key first with
          | error e => rfl
          | ok hash =>
              rw [ih]
              cases q.scanHeaders view key ids with
              | error e => rfl
              | ok scan => rfl

/-- What a pass of a disjoint group makes of a scan of a window. -/
def judge (last : EntryId) (scan : HeaderScan) : TurnM Pass :=
  match (owned c config.partitioner scan).getLast? with
  | some last => do
      let seen ← q.readEntries (owned c config.partitioner scan) s
      match servableEntries seen with
      | [] =>
          Turn.update (·.advance last)
          return .passed
      | entries => return .found entries
  | none =>
      match scan.firstUnseen with
      | some id => do
          Turn.update (·.advance (id - 1))
          return .exhausted
      | none => do
          Turn.update (·.advance last)
          return .passed

theorem scanWindow_eq (w : Window) : q.scanWindow c config s w =
    Turn.onStorage (q.readHeaders w.ids c.headerKey s) >>= q.judge c config s w.last := rfl

theorem readHeaders_of_calm (ids : List EntryId) (key : String) {t : Turn} (calm : t.Calm) :
    ∃ st, t.storage.Alike st ∧ Turn.onStorage (q.readHeaders ids key s) t =
      match q.scanHeaders (q.shows t.storage.table s) key ids with
      | .ok scan => .ok scan ⟨st, t.cursor⟩
      | .error e => .error e ⟨st, t.cursor⟩ := by
  obtain ⟨_, u, viewed, ⟨rfl, same⟩, kept⟩ :=
    Turn.answers_onStorage (q.answers_view_of_calm .readHeaders s calm)
  refine ⟨u.storage, same, ?_⟩
  unfold readHeaders
  rw [Turn.onStorage_bind, bind_eq_of_ok viewed, kept]
  cases q.scanHeaders (q.shows t.storage.table s) key ids with
  | ok scan => rfl
  | error e => rfl

theorem shows_recordAll (t : Table) (cells : List (Bytes × Bytes)) (v : Version) (id : EntryId)
    (column : Column) :
    q.shows (t.recordAll ((consumerRow c).encode q.name) cells v) s (.entry id) column =
      q.shows t s (.entry id) column := by
  have touched := @Table.touched_recordAll (· = (consumerRow c).encode q.name) _ rfl v cells t
  have other : (RowKey.entry id).encode q.name ≠ (consumerRow c).encode q.name := fun same => by
    cases RowKey.encode_injective same
  simp only [shows, Table.read, touched.history _ other]

end Queue

/-- Two storages show a consumer of a queue the same under a snapshot, although the second one may have
more entries: the snapshot shows nothing of an id beyond the write pointer of the first. -/
structure Storage.Ahead (q : Queue) (c : Consumer) (s : Snapshot) (stands stands' : EntryId)
    (st st' : Storage) : Prop where
  reliable : st.Reliable
  reliable' : st'.Reliable
  own : st.table.AgreeOn (· = (Queue.consumerRow c).encode q.name) st'.table
  shown : ∀ id column,
    q.shows st'.table s (.entry id) column = q.shows st.table s (.entry id) column
  standing : st.table.standing (RowKey.entryCounter.encode q.name) = stands.toNat
  standing' : st'.table.standing (RowKey.entryCounter.encode q.name) = stands'.toNat
  unseen : ∀ id, stands < id → q.shows st.table s (.entry id) .state = none

/-- The second storage is ahead of the first, and the cursors are the same but for write pointers that
were looked at on either side. -/
structure Turn.Ahead (q : Queue) (c : Consumer) (s : Snapshot) (stands stands' : EntryId)
    (t t' : Turn) : Prop where
  storage : t.storage.Ahead q c s stands stands' t'.storage
  cursor : t'.cursor = { t.cursor with writePointer := t'.cursor.writePointer }
  looked : t'.cursor.writePointer = t.cursor.writePointer ∨
    t.cursor.writePointer = stands ∧ t'.cursor.writePointer = stands'

namespace Storage.Ahead

variable {q : Queue} {c : Consumer} {s : Snapshot} {stands stands' : EntryId} {st st' u u' : Storage}
  (h : st.Ahead q c s stands stands' st')

include h

theorem of_alike (same : st.Alike u) (same' : st'.Alike u') : u.Ahead q c s stands stands' u' where
  reliable := h.reliable.of_alike same
  reliable' := h.reliable'.of_alike same'
  own := ((Table.AgreeOn.of_alike same.1).symm.trans h.own).trans (.of_alike same'.1)
  shown id column := by rw [q.shows_of_alike same.1, q.shows_of_alike same'.1, h.shown]
  standing := (same.1.standing _).trans h.standing
  standing' := (same'.1.standing _).trans h.standing'
  unseen id beyond := by rw [q.shows_of_alike same.1, h.unseen id beyond]

theorem viewsAgree : ViewsAgree c (q.shows st.table s) (q.shows st'.table s) :=
  ⟨fun column => by simp only [Queue.shows, Table.read, h.own.history _ rfl], h.shown⟩

theorem of_write {cells : List (Bytes × Bytes)} {v : Version}
    (table : u.table = st.table.recordAll ((Queue.consumerRow c).encode q.name) cells v)
    (table' : u'.table = st'.table.recordAll ((Queue.consumerRow c).encode q.name) cells v)
    (calm : u.plan = .none) (calm' : u'.plan = .none) : u.Ahead q c s stands stands' u' where
  reliable := ⟨calm, by
    rw [table, (@Table.touched_recordAll (fun _ => True) _ trivial v cells st.table).refuses]
    exact h.reliable.2⟩
  reliable' := ⟨calm', by
    rw [table', (@Table.touched_recordAll (fun _ => True) _ trivial v cells st'.table).refuses]
    exact h.reliable'.2⟩
  own := by
    rw [table, table']
    exact h.own.recordAll _ v cells
  shown id column := by
    rw [table, table', q.shows_recordAll, q.shows_recordAll, h.shown]
  standing := by
    rw [table, Table.standing, Table.counter_recordAll]
    exact h.standing
  standing' := by
    rw [table', Table.standing, Table.counter_recordAll]
    exact h.standing'
  unseen id beyond := by
    rw [table, q.shows_recordAll, h.unseen id beyond]

end Storage.Ahead

namespace Turn.Ahead

variable {q : Queue} {c : Consumer} {config : Config} {s : Snapshot} {stands stands' : EntryId}
  {t t' u u' : Turn}

section

variable (h : t.Ahead q c s stands stands' t')

include h

theorem of_alike (same : t.storage.Alike u.storage) (same' : t'.storage.Alike u'.storage)
    (kept : u.cursor = t.cursor) (kept' : u'.cursor = t'.cursor) :
    u.Ahead q c s stands stands' u' where
  storage := h.storage.of_alike same same'
  cursor := by rw [kept, kept', h.cursor]
  looked := by rw [kept, kept']; exact h.looked

theorem of_update {f : Cursor → Cursor} (keeps : KeepsWritePointer f) :
    (⟨t.storage, f t.cursor⟩ : Turn).Ahead q c s stands stands' ⟨t'.storage, f t'.cursor⟩ := by
  have same : f t.cursor = { f t.cursor with writePointer := t.cursor.writePointer } :=
    keeps t.cursor t.cursor.writePointer
  have same' : f t'.cursor = { f t.cursor with writePointer := t'.cursor.writePointer } := by
    rw [← keeps, ← h.cursor]
  refine ⟨h.storage, by rw [same'], ?_⟩
  rw [same', same]
  exact h.looked

end

private theorem refreshed (reliable : t.storage.Reliable)
    (standing : t.storage.table.standing (RowKey.entryCounter.encode q.name) = stands.toNat) :
    ∃ u, q.refresh t = .ok () u ∧ t.storage.Alike u.storage ∧
      u.cursor = { t.cursor with writePointer := stands } := by
  obtain ⟨_, u, done, same, w, found, kept⟩ :=
    q.answers_refresh t.cursor reliable (standing ▸ Int.natCast_nonneg _)
  obtain rfl : w = stands := UInt64.toNat_inj.1 (Int.ofNat_inj.1 (found.trans standing))
  exact ⟨u, done, same, kept⟩

theorem couples : Couples (Turn.Ahead q c s stands stands') q c s where
  cursor related := related.cursor
  update keeps := fun _ _ related => .ok (related.of_update keeps)
  reset cursor := fun _ _ related => .ok ⟨related.storage, rfl, .inl rfl⟩
  refresh := by
    intro t t' related
    obtain ⟨u, done, same, kept⟩ := refreshed related.storage.reliable related.storage.standing
    obtain ⟨u', done', same', kept'⟩ :=
      refreshed related.storage.reliable' related.storage.standing'
    rw [done, done']
    refine .ok ⟨related.storage.of_alike same same', ?_, .inr ⟨by rw [kept], by rw [kept']⟩⟩
    rw [kept, kept', related.cursor]
  view {_} purpose {_} agrees each := by
    intro t t' related
    obtain ⟨_, u, viewed, ⟨rfl, same⟩, kept⟩ :=
      Turn.answers_onStorage (q.answers_view_of_calm purpose s related.storage.reliable.1)
    obtain ⟨_, u', viewed', ⟨rfl, same'⟩, kept'⟩ :=
      Turn.answers_onStorage (q.answers_view_of_calm purpose s related.storage.reliable'.1)
    rw [bind_eq_of_ok viewed, bind_eq_of_ok viewed', agrees _ _ related.storage.viewsAgree]
    exact each _ (related.of_alike same same' kept.symm kept'.symm)
  put purpose cells := by
    intro t t' related
    obtain ⟨_, u, done, ⟨table, plan⟩, kept⟩ := Turn.answers_onStorage
      (q.answers_put purpose (Queue.consumerRow c) cells s.writeVersion related.storage.reliable)
    obtain ⟨_, u', done', ⟨table', plan'⟩, kept'⟩ := Turn.answers_onStorage
      (q.answers_put purpose (Queue.consumerRow c) cells s.writeVersion related.storage.reliable')
    rw [done, done']
    refine .ok ⟨related.storage.of_write table table' (plan.trans related.storage.reliable.1)
      (plan'.trans related.storage.reliable'.1), ?_, ?_⟩
    · rw [← kept, ← kept', ← related.cursor]
    · rw [← kept, ← kept']
      exact related.looked

/-- Whether a cursor has caught up with the write pointer that it remembers. -/
private abbrev caughtUp (cursor : Cursor) : Bool :=
  Window.isCaughtUp cursor.readPointer cursor.writePointer

private theorem looked_up (reliable : t.storage.Reliable)
    (standing : t.storage.table.standing (RowKey.entryCounter.encode q.name) = stands.toNat) :
    ∃ u, q.look caughtUp t = .ok () u ∧ t.storage.Alike u.storage ∧
      (caughtUp t.cursor = false ∧ u.cursor = t.cursor ∨
        caughtUp t.cursor = true ∧ u.cursor = { t.cursor with writePointer := stands }) := by
  cases up : caughtUp t.cursor with
  | false =>
      refine ⟨t, ?_, .refl _, .inl ⟨rfl, rfl⟩⟩
      change q.refreshIf (caughtUp t.cursor) t = _
      rw [up]
      rfl
  | true =>
      obtain ⟨u, done, same, kept⟩ := refreshed reliable standing
      refine ⟨u, ?_, same, .inr ⟨rfl, kept⟩⟩
      change q.refreshIf (caughtUp t.cursor) t = _
      rw [up]
      exact done

theorem look (later : stands ≤ stands') :
    Coupled (Turn.Ahead q c s stands stands') (q.look caughtUp) := by
  intro t t' related
  obtain ⟨u, done, same, ends⟩ := looked_up related.storage.reliable related.storage.standing
  obtain ⟨u', done', same', ends'⟩ := looked_up related.storage.reliable' related.storage.standing'
  rw [done, done']
  have reads : t'.cursor.readPointer = t.cursor.readPointer := by rw [related.cursor]
  refine .ok ⟨related.storage.of_alike same same', ?_, ?_⟩
  · rcases ends with ⟨_, kept⟩ | ⟨_, kept⟩ <;> rcases ends' with ⟨_, kept'⟩ | ⟨_, kept'⟩ <;>
      rw [kept, kept', related.cursor]
  · rcases ends with ⟨behind, kept⟩ | ⟨up, kept⟩ <;> rcases ends' with ⟨behind', kept'⟩ | ⟨up', kept'⟩
    · rw [kept, kept']
      exact related.looked
    · simp only [caughtUp, Window.isCaughtUp, reads, decide_eq_false_iff_not,
        decide_eq_true_eq] at behind up'
      rcases related.looked with equal | ⟨before, after⟩
      · exact absurd (equal ▸ up') behind
      · exact absurd (UInt64.le_trans (before ▸ after ▸ later) up') behind
    · simp only [caughtUp, Window.isCaughtUp, reads, decide_eq_false_iff_not,
        decide_eq_true_eq] at behind' up
      rcases related.looked with equal | ⟨before, after⟩
      · exact absurd (equal ▸ up) behind'
      · exact .inr ⟨by rw [kept], by rw [kept', after]⟩
    · exact .inr ⟨by rw [kept], by rw [kept']⟩

/-- One pass of both runs: they end in the same way, or the first one goes on although the second one has
come to the first id beyond the write pointer of the first, and then both cursors stand before that id. -/
inductive SamePass (q : Queue) (c : Consumer) (s : Snapshot) (stands stands' : EntryId) :
    EStateM.Result QueueError Turn Pass → EStateM.Result QueueError Turn Pass → Prop
  | alike {r r' : EStateM.Result QueueError Turn Pass} :
      Paired (Turn.Ahead q c s stands stands') r r' → SamePass q c s stands stands' r r'
  | later {u u' : Turn} : u.Ahead q c s stands stands' u' → u.cursor.readPointer = stands →
      u.cursor.writePointer = stands → SamePass q c s stands stands' (.ok .passed u) (.ok .exhausted u')

theorem judge (last : EntryId) (scan : HeaderScan) :
    Coupled (Turn.Ahead q c s stands stands') (q.judge c config s last scan) := by
  have couples : Couples (Turn.Ahead q c s stands stands') q c s := Turn.Ahead.couples
  unfold Queue.judge
  cases (Queue.owned c config.partitioner scan).getLast? with
  | some last =>
      refine (couples.readEntries _).bind fun seen => ?_
      cases servableEntries seen with
      | nil => exact (couples.update fun _ _ => rfl).bind fun _ => .pure _
      | cons _ _ => exact .pure _
  | none =>
      cases scan.firstUnseen with
      | some _ => exact (couples.update fun _ _ => rfl).bind fun _ => .pure _
      | none => exact (couples.update fun _ _ => rfl).bind fun _ => .pure _

private theorem scanWindow_later (related : t.Ahead q c s stands stands' t') {first last : EntryId}
    (nonempty : first ≤ stands) (beyond : stands < last) (reads : t.cursor.readPointer ≤ stands)
    (looked : t.cursor.writePointer = stands) :
    SamePass q c s stands stands' (q.scanWindow c config s ⟨first, stands⟩ t)
      (q.scanWindow c config s ⟨first, last⟩ t') := by
  have below := UInt64.lt_iff_toNat_lt.1 beyond
  have next : (stands + 1).toNat = stands.toNat + 1 := by
    have top := last.toNat_lt
    have one : (1 : UInt64).toNat = 1 := rfl
    rw [UInt64.toNat_add, one, Nat.mod_eq_of_lt (by omega)]
  have hidden : q.shows t'.storage.table s (.entry (stands + 1)) .state = none := by
    rw [related.storage.shown]
    exact related.storage.unseen _ (by rw [UInt64.lt_iff_toNat_lt]; omega)
  obtain ⟨rest, longer⟩ := Window.ids_of_later nonempty beyond
  obtain ⟨st, same, scanned⟩ := q.readHeaders_of_calm s (⟨first, stands⟩ : Window).ids c.headerKey
    (t := t) related.storage.reliable.1
  obtain ⟨st', same', scanned'⟩ := q.readHeaders_of_calm s (⟨first, last⟩ : Window).ids c.headerKey
    (t := t') related.storage.reliable'.1
  have after : (⟨st, t.cursor⟩ : Turn).Ahead q c s stands stands' ⟨st', t'.cursor⟩ :=
    related.of_alike same same' rfl rfl
  rw [longer, q.scanHeaders_append_unseen hidden, related.storage.viewsAgree.scanHeaders q,
    ← longer] at scanned'
  change SamePass q c s stands stands'
    ((Turn.onStorage (q.readHeaders (⟨first, stands⟩ : Window).ids c.headerKey s) >>=
      q.judge c config s stands) t)
    ((Turn.onStorage (q.readHeaders (⟨first, last⟩ : Window).ids c.headerKey s) >>=
      q.judge c config s last) t')
  cases found : q.scanHeaders (q.shows t.storage.table s) c.headerKey
      (⟨first, stands⟩ : Window).ids with
  | error e =>
      rw [found] at scanned scanned'
      rw [bind_eq_of_error scanned, bind_eq_of_error scanned']
      exact .alike (.error after)
  | ok scan =>
      rw [found] at scanned scanned'
      rw [bind_eq_of_ok scanned, bind_eq_of_ok scanned']
      -- Only a scan that shows every id and none to serve is told apart by how far the window goes.
      by_cases apart : (Queue.owned c config.partitioner scan).getLast? = none ∧
          scan.firstUnseen = none
      · obtain ⟨none, all⟩ := apart
        have passed : q.judge c config s stands scan ⟨st, t.cursor⟩ =
            .ok .passed ⟨st, t.cursor.advance stands⟩ := by
          simp only [Queue.judge, none, all]
          rfl
        have stopped : q.judge c config s last
            { scan with firstUnseen := scan.firstUnseen.or (some (stands + 1)) } ⟨st', t'.cursor⟩ =
              .ok .exhausted ⟨st', t'.cursor.advance (stands + 1 - 1)⟩ := by
          simp only [Queue.judge, Queue.owned, all, Option.none_or] at none ⊢
          rw [none]
          rfl
        have before : stands + 1 - 1 = stands := by
          apply UInt64.toNat_inj.1
          have one : (1 : UInt64).toNat = 1 := rfl
          rw [UInt64.toNat_sub_of_le _ _ (by rw [UInt64.le_iff_toNat_le]; omega)]
          omega
        rw [passed, stopped, before]
        refine .later (after.of_update (f := (·.advance stands)) fun _ _ => rfl) ?_ looked
        exact if_pos reads
      · have unchanged : q.judge c config s last
            { scan with firstUnseen := scan.firstUnseen.or (some (stands + 1)) } =
              q.judge c config s stands scan := by
          simp only [Queue.judge, Queue.owned] at apart ⊢
          cases owned : ((scan.visible.filter fun found =>
              config.partitioner.shouldEmit c.groupSize c.member found.2).map (·.1)).getLast? with
          | some _ => rfl
          | none =>
              cases stop : scan.firstUnseen with
              | none => exact absurd ⟨owned, stop⟩ apart
              | some _ => rfl
        rw [unchanged]
        exact .alike (Turn.Ahead.judge stands scan after)

private theorem scanNext_caughtUp (config : Config)
    (related : t.Ahead q c s stands stands' t')
    (reads : stands ≤ t.cursor.readPointer) :
    ∃ u', q.scanNext c config s t' = .ok .exhausted u' ∧ t'.storage.Alike u'.storage ∧
      u'.cursor = t'.cursor := by
  have same : t'.cursor.readPointer = t.cursor.readPointer := by rw [related.cursor]
  cases window : Window.after t'.cursor.readPointer config.effectiveBatchSize c.groupSize
      t'.cursor.writePointer with
  | none => exact ⟨t', q.scanNext_of_none c config s window, .refl _, rfl⟩
  | some w =>
      -- The window begins beyond all that the first run was shown, so the scan stops at its first id.
      obtain ⟨_, nonempty, _⟩ := Window.after_bounds window
      obtain ⟨rest, ids⟩ := Window.ids_eq_cons nonempty
      have first := Window.first_of_after window
      have one : (1 : UInt64).toNat = 1 := rfl
      have before : w.first - 1 = t'.cursor.readPointer := by
        apply UInt64.toNat_inj.1
        rw [UInt64.toNat_sub_of_le _ _ (by rw [UInt64.le_iff_toNat_le]; omega)]
        omega
      have hidden : q.shows t'.storage.table s (.entry w.first) .state = none := by
        rw [related.storage.shown]
        refine related.storage.unseen _ ?_
        rw [UInt64.le_iff_toNat_le] at reads
        rw [UInt64.lt_iff_toNat_lt, first, same]
        omega
      obtain ⟨st, alike, scanned⟩ := q.readHeaders_of_calm s w.ids c.headerKey
        (t := t') related.storage.reliable'.1
      have stops : q.scanHeaders (q.shows t'.storage.table s) c.headerKey w.ids =
          .ok { firstUnseen := some w.first } := by
        rw [ids]
        simp only [Queue.scanHeaders, hidden]
      rw [stops] at scanned
      refine ⟨⟨st, t'.cursor.advance (w.first - 1)⟩, ?_, alike, ?_⟩
      · rw [q.scanNext_of_some c config s window, q.scanWindow_eq]
        exact bind_eq_of_ok scanned
      · simp [before, Cursor.advance]

private theorem scanNext_passes (later : stands ≤ stands')
    (related : t.Ahead q c s stands stands' t') :
    SamePass q c s stands stands' (q.scanNext c config s t) (q.scanNext c config s t') := by
  have couples : Couples (Turn.Ahead q c s stands stands') q c s := Turn.Ahead.couples
  have same : t'.cursor.readPointer = t.cursor.readPointer := by rw [related.cursor]
  -- Where both look at the same window, they do the same.
  have together (equal : Window.after t'.cursor.readPointer config.effectiveBatchSize c.groupSize
        t'.cursor.writePointer =
      Window.after t.cursor.readPointer config.effectiveBatchSize c.groupSize
        t.cursor.writePointer) :
      SamePass q c s stands stands' (q.scanNext c config s t) (q.scanNext c config s t') := by
    cases window : Window.after t.cursor.readPointer config.effectiveBatchSize c.groupSize
        t.cursor.writePointer with
    | none =>
        rw [q.scanNext_of_none c config s window,
          q.scanNext_of_none c config s (equal.trans window)]
        exact .alike (.ok related)
    | some w =>
        rw [q.scanNext_of_some c config s window,
          q.scanNext_of_some c config s (equal.trans window)]
        exact .alike (couples.scanWindow config w related)
  rcases related.looked with equal | ⟨before, after⟩
  · exact together (by rw [same, equal])
  · cases window : Window.after t.cursor.readPointer config.effectiveBatchSize c.groupSize
        t.cursor.writePointer with
    | none =>
        have reads : stands ≤ t.cursor.readPointer := by
          unfold Window.after at window
          split at window
          · rename_i up
            rw [← before]
            simpa [Window.isCaughtUp] using up
          · cases window
        obtain ⟨u', done', alike, kept⟩ := scanNext_caughtUp config related reads
        rw [q.scanNext_of_none c config s window, done']
        exact .alike (.ok (related.of_alike (.refl _) alike rfl kept))
    | some w =>
        rw [before] at window
        rcases Window.after_of_le later window with equal | ⟨last, longer, ends, beyond⟩
        · exact together (by rw [same, after, before, equal, window])
        · obtain ⟨above, nonempty, _⟩ := Window.after_bounds window
          obtain ⟨first, _⟩ := w
          dsimp only at ends
          subst ends
          rw [q.scanNext_of_some c config s (by rw [before]; exact window),
            q.scanNext_of_some c config s (by rw [same, after]; exact longer)]
          refine scanWindow_later related nonempty beyond ?_ before
          exact UInt64.le_of_lt (UInt64.lt_of_lt_of_le above nonempty)

theorem disjointPass (config : Config) (later : stands ≤ stands')
    (related : t.Ahead q c s stands stands' t') :
    SamePass q c s stands stands' (q.disjointPass c config s t) (q.disjointPass c config s t') := by
  rw [q.disjointPass_eq]
  have looked := look later related
  cases done : q.look caughtUp t with
  | ok a u =>
      rw [done] at looked
      obtain ⟨u', done', related'⟩ := looked.of_ok
      change SamePass q c s stands stands' ((q.look caughtUp >>= fun _ => q.scanNext c config s) t)
        ((q.look caughtUp >>= fun _ => q.scanNext c config s) t')
      rw [bind_eq_of_ok done, bind_eq_of_ok done']
      exact scanNext_passes later related'
  | error e u =>
      obtain ⟨_, answered, _⟩ := looked_up related.storage.reliable related.storage.standing
      cases done.symm.trans answered

private theorem disjointPass_caughtUp (config : Config) (reliable : t.storage.Reliable)
    (standing : t.storage.table.standing (RowKey.entryCounter.encode q.name) = stands.toNat)
    (reads : t.cursor.readPointer = stands) (looked : t.cursor.writePointer = stands) :
    ∃ u, q.disjointPass c config s t = .ok .exhausted u ∧ t.storage.Alike u.storage ∧
      u.cursor = t.cursor := by
  obtain ⟨u, done, same, ends⟩ := looked_up reliable standing
  have kept : u.cursor = t.cursor := by
    rcases ends with ⟨_, kept⟩ | ⟨_, kept⟩
    · exact kept
    · rw [kept, ← looked]
  have none : Window.after u.cursor.readPointer config.effectiveBatchSize c.groupSize
      u.cursor.writePointer = none := by
    rw [kept, reads, looked, Window.after, if_pos (by simp [Window.isCaughtUp])]
  refine ⟨u, ?_, same, kept⟩
  rw [q.disjointPass_eq]
  change (q.look caughtUp >>= fun _ => q.scanNext c config s) t = _
  rw [bind_eq_of_ok done]
  exact q.scanNext_of_none c config s none

/-- Fetching ends in the same way in both runs, with the cursor at the same id. -/
theorem fetchDisjoint (later : stands ≤ stands') :
    Coupled (Turn.Ahead q c s stands stands') (q.fetchDisjoint c config s) := by
  have couples : Couples (Turn.Ahead q c s stands stands') q c s := Turn.Ahead.couples
  have repeats := q.repeats_fetchDisjoint c config s
  have passes {t t' : Turn} (related : t.Ahead q c s stands stands' t') :=
    Turn.Ahead.disjointPass config later related
  intro t t' related
  induction t using repeats.induct generalizing t' with
  | passed t u done ih =>
      have step := passes related
      rw [done] at step
      rw [repeats.passed done]
      generalize second : q.disjointPass c config s t' = r at step
      cases step with
      | alike paired =>
          obtain ⟨u', rfl, related'⟩ := paired.of_ok
          rw [repeats.passed second]
          exact ih related'
      | later related' reads looked =>
          -- The first run makes one more pass, and finds itself caught up.
          obtain ⟨v, ended, same, kept⟩ := disjointPass_caughtUp config
            related'.storage.reliable related'.storage.standing reads looked
          rw [repeats.exhausted ended, repeats.exhausted second]
          exact .ok (related'.of_alike same (.refl _) kept rfl)
  | found t u entries done =>
      have step := passes related
      rw [done] at step
      generalize second : q.disjointPass c config s t' = r at step
      cases step with
      | alike paired =>
          obtain ⟨u', rfl, related'⟩ := paired.of_ok
          rw [repeats.found done, repeats.found second]
          exact .ok (related'.of_update (f := ({ · with cache := ⟨entries⟩ })) fun _ _ => rfl)
  | exhausted t u done =>
      have step := passes related
      rw [done] at step
      generalize second : q.disjointPass c config s t' = r at step
      cases step with
      | alike paired =>
          obtain ⟨u', rfl, related'⟩ := paired.of_ok
          rw [repeats.exhausted done, repeats.exhausted second]
          exact .ok related'
  | failed t u e done =>
      have step := passes related
      rw [done] at step
      generalize second : q.disjointPass c config s t' = r at step
      cases step with
      | alike paired =>
          obtain ⟨u', rfl, related'⟩ := paired.of_error
          rw [repeats.failed done, repeats.failed second]
          exact .error related'

/-- A request for an entry of a member of a disjoint group ends in the same way in both runs. -/
theorem dequeue (hash : config.partitioner = .hash) (later : stands ≤ stands') :
    Coupled (Turn.Ahead q c s stands stands') (q.dequeue c config s) := by
  refine Turn.Ahead.couples.dequeue config ?_
  unfold Queue.fetch
  rw [hash]
  exact Turn.Ahead.fetchDisjoint later

end Turn.Ahead

end VersionedQueue
