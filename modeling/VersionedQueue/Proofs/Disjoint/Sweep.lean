import VersionedQueue.Proofs.Consumer.Steps
import VersionedQueue.Proofs.Disjoint.Scan
import VersionedQueue.Proofs.Storage.Inherited
import VersionedQueue.Queue.Fetch

/-!
# Sweeps over what a view shows

What a member of a disjoint group finds behind its read pointer can be read off a view of the queue, id
by id: it skips the ids that are shown and hold nothing for it, collects those that are offered to it,
and comes to a stop before the first id that is not shown.  A pass looks at a window of ids, scans their
headers and reads the entries that it owns; a fetch makes one pass after the other.  Wherever the windows
end, fetching comes to what the view offers first.
-/

set_option autoImplicit false
set_option relaxedAutoImplicit false

namespace VersionedQueue

theorem Cursor.advance_of_le {c : Cursor} {id : EntryId} (h : c.readPointer ≤ id) :
    c.advance id = { c with readPointer := id } := by
  simp [advance, h]

namespace Queue

section View

variable (q : Queue) (view : QueueView) (c : Consumer)

/-- A view has a hash for an entry that maps to a member of a disjoint group. -/
def FallsTo (id : EntryId) : Prop :=
  ∃ hash, q.headerHash view c.headerKey id = .ok (some hash) ∧
    Partition.owner hash c.groupSize = some c.member

/-- A view shows a member of a disjoint group an entry to hand out. -/
structure Offers (entry : CachedEntry) : Prop where
  servable : q.sight view entry.id = .ok (.servable entry.payload)
  own : q.FallsTo view c entry.id

/-- A view shows something of an entry, and nothing to hand out to the member. -/
structure Skips (id : EntryId) : Prop where
  visible : view (.entry id) .state ≠ none
  nothing : ∀ payload, ¬ q.Offers view c ⟨id, payload⟩

/-- Whatever a view shows of entries can be read. -/
structure Readable : Prop where
  sight : ∀ id, ∃ sighting, q.sight view id = .ok sighting
  hash : ∀ key id, ∃ hash, q.headerHash view key id = .ok hash

/-- All ids from one up to another are skipped. -/
structure Swept (before after : EntryId) : Prop where
  forward : before ≤ after
  skipped : ∀ id, before < id → id ≤ after → q.Skips view c id

/-- Entries that are offered after a read pointer and up to a limit, in ascending order; up to the last of
them nothing that is offered is left out. -/
structure Collected (limit before : EntryId) (entries : List CachedEntry) : Prop where
  ascending : entries.Pairwise (·.id < ·.id)
  within : ∀ found ∈ entries, before < found.id ∧ found.id ≤ limit
  offered : ∀ found ∈ entries, q.Offers view c found
  between : ∀ found ∈ entries, ∀ id, before < id → id ≤ found.id →
    (∃ other ∈ entries, other.id = id) ∨ q.Skips view c id

/-- How a pass from a read pointer ends, and where it leaves the read pointer.  It looks at no id beyond
a limit, and gives up only before an id that is not shown or at the write pointer. -/
inductive PassSweeps (limit writePointer before : EntryId) : Pass → EntryId → Prop
  | passed {after : EntryId} : before < after → after ≤ limit → q.Swept view c before after →
      PassSweeps limit writePointer before .passed after
  | found {entries : List CachedEntry} : entries ≠ [] → q.Collected view c limit before entries →
      PassSweeps limit writePointer before (.found entries) before
  | blocked {after next : EntryId} : q.Swept view c before after → next.toNat = after.toNat + 1 →
      next ≤ limit → view (.entry next) .state = none →
      PassSweeps limit writePointer before .exhausted after
  | caughtUp : writePointer ≤ before → PassSweeps limit writePointer before .exhausted before

/-- How a fetch from a read pointer ends: what it collects, and where it leaves the read pointer. -/
inductive FetchSweeps (limit writePointer before : EntryId) : List CachedEntry → EntryId → Prop
  | found {after : EntryId} {entries : List CachedEntry} : q.Swept view c before after →
      entries ≠ [] → q.Collected view c limit after entries →
      FetchSweeps limit writePointer before entries after
  | blocked {after next : EntryId} : q.Swept view c before after → next.toNat = after.toNat + 1 →
      next ≤ limit → view (.entry next) .state = none →
      FetchSweeps limit writePointer before [] after
  | caughtUp {after : EntryId} : q.Swept view c before after → writePointer ≤ after →
      after = before ∨ after ≤ limit → FetchSweeps limit writePointer before [] after

end View

section Sweep

variable {q : Queue} {view : QueueView} {c : Consumer}
  {limit writePointer before middle after : EntryId}

theorem Swept.refl (id : EntryId) : q.Swept view c id id where
  forward := UInt64.le_refl _
  skipped _ later below := absurd (UInt64.lt_of_lt_of_le later below) (UInt64.lt_irrefl _)

theorem Swept.trans (first : q.Swept view c before middle) (second : q.Swept view c middle after) :
    q.Swept view c before after where
  forward := UInt64.le_trans first.forward second.forward
  skipped id later below := by
    by_cases early : id ≤ middle
    · exact first.skipped id later early
    · exact second.skipped id (UInt64.not_le.1 early) below

theorem FetchSweeps.of_swept {entries : List CachedEntry} (first : q.Swept view c before middle)
    (within : middle ≤ limit) (h : q.FetchSweeps view c limit writePointer middle entries after) :
    q.FetchSweeps view c limit writePointer before entries after := by
  cases h with
  | found swept some collected => exact .found (first.trans swept) some collected
  | blocked swept number inside hidden => exact .blocked (first.trans swept) number inside hidden
  | caughtUp swept reached last =>
      refine .caughtUp (first.trans swept) reached (.inr ?_)
      rcases last with rfl | inside
      · exact within
      · exact inside

end Sweep

section Scan

variable {q : Queue} {view : QueueView} {c : Consumer}

/-- A scan finds the ids up to the first of which the view shows nothing, each with its hash. -/
theorem Readable.scanHeaders (readable : q.Readable view) (key : String) :
    ∀ ids : List EntryId, ∃ scan shown rest, q.scanHeaders view key ids = .ok scan ∧
      ids = shown ++ rest ∧ (∀ id ∈ shown, view (.entry id) .state ≠ none) ∧
      scan.visible.map (·.1) = shown ∧
      (∀ found ∈ scan.visible, q.headerHash view key found.1 = .ok found.2) ∧
      scan.firstUnseen = rest.head? ∧ ∀ id, rest.head? = some id → view (.entry id) .state = none := by
  intro ids
  induction ids with
  | nil => exact ⟨{}, [], [], rfl, rfl, nofun, rfl, nofun, rfl, nofun⟩
  | cons id rest ih =>
      cases state : view (.entry id) .state with
      | none =>
          refine ⟨{ firstUnseen := some id }, [], id :: rest, ?_, rfl, nofun, rfl, nofun, rfl, ?_⟩
          · simp only [Queue.scanHeaders, state]
          · rintro _ ⟨rfl⟩
            exact state
      | some cell =>
          obtain ⟨hash, hashed⟩ := readable.hash key id
          obtain ⟨scan, shown, left, scanned, split, all, ids, hashes, stop, blocked⟩ := ih
          refine ⟨{ scan with visible := (id, hash) :: scan.visible }, id :: shown, left, ?_, ?_, ?_,
            ?_, ?_, stop, blocked⟩
          · simp only [Queue.scanHeaders, state, hashed, scanned]
          · rw [split, List.cons_append]
          · exact List.forall_mem_cons.2 ⟨by simp [state], all⟩
          · rw [List.map_cons, ids]
          · exact List.forall_mem_cons.2 ⟨hashed, hashes⟩

theorem Readable.mapM_sight (readable : q.Readable view) (ids : List EntryId) :
    ∃ seen, (ids.mapM fun id => (q.sight view id).map (id, ·)) = .ok seen := by
  induction ids with
  | nil => exact ⟨[], rfl⟩
  | cons id rest ih =>
      obtain ⟨sighting, sight⟩ := readable.sight id
      obtain ⟨seen, all⟩ := ih
      refine ⟨(id, sighting) :: seen, ?_⟩
      rw [List.mapM_cons, sight, all]
      rfl

theorem mem_owned {scan : HeaderScan} {id : EntryId}
    (hashes : ∀ found ∈ scan.visible, q.headerHash view c.headerKey found.1 = .ok found.2) :
    id ∈ owned c .hash scan ↔ id ∈ scan.visible.map (·.1) ∧ q.FallsTo view c id := by
  simp only [owned, List.mem_map, List.mem_filter]
  constructor
  · rintro ⟨found, ⟨listed, emits⟩, rfl⟩
    refine ⟨⟨found, listed, rfl⟩, ?_⟩
    cases hash : found.2 with
    | none => simp [hash, Partitioner.shouldEmit, Partition.owns] at emits
    | some hash' =>
        refine ⟨hash', by rw [hashes found listed, hash], ?_⟩
        simpa [hash, Partitioner.shouldEmit, Partition.owns] using emits
  · rintro ⟨⟨found, listed, rfl⟩, hash, read, maps⟩
    refine ⟨found, ⟨listed, ?_⟩, rfl⟩
    have same : found.2 = some hash := Except.ok.inj ((hashes found listed).symm.trans read)
    simpa [same, Partitioner.shouldEmit, Partition.owns] using maps

end Scan

section Window

variable {q : Queue} {view : QueueView} {c : Consumer} {w : Window} {scan : HeaderScan}
  {shown rest : List EntryId} {seen : List (EntryId × Sighting)}

private theorem servable_or_skipped (all : ∀ id ∈ shown, view (.entry id) .state ≠ none)
    (own : ∀ id ∈ shown, q.FallsTo view c id → id ∈ seen.map (·.1))
    (sights : ∀ found ∈ seen, q.sight view found.1 = .ok found.2) {id : EntryId} (mem : id ∈ shown) :
    (∃ other ∈ servableEntries seen, other.id = id) ∨ q.Skips view c id := by
  by_cases served : ∃ other ∈ servableEntries seen, other.id = id
  · exact .inl served
  · refine .inr ⟨all id mem, fun payload offer => served ?_⟩
    obtain ⟨⟨_, sighting⟩, here, rfl⟩ := List.mem_map.1 (own id mem offer.own)
    have same := Except.ok.inj ((sights _ here).symm.trans offer.servable)
    exact ⟨⟨_, payload⟩, mem_servableEntries.2 (same ▸ here), rfl⟩

private theorem collected_of_servable {before limit : EntryId}
    (first : w.first.toNat = before.toNat + 1) (last : w.last ≤ limit)
    (split : w.ids = shown ++ rest) (all : ∀ id ∈ shown, view (.entry id) .state ≠ none)
    (sub : (seen.map (·.1)).Sublist shown)
    (own : ∀ id ∈ seen.map (·.1), q.FallsTo view c id)
    (complete : ∀ id ∈ shown, q.FallsTo view c id → id ∈ seen.map (·.1))
    (sights : ∀ found ∈ seen, q.sight view found.1 = .ok found.2) :
    q.Collected view c limit before (servableEntries seen) := by
  have listed {found : CachedEntry} (mem : found ∈ servableEntries seen) :
      found.id ∈ seen.map (·.1) := List.mem_map.2 ⟨_, mem_servableEntries.1 mem, rfl⟩
  have inside {found : CachedEntry} (mem : found ∈ servableEntries seen) :=
    Window.mem_ids.1 (split ▸ List.mem_append_left rest (sub.subset (listed mem)) : found.id ∈ w.ids)
  refine ⟨?_, ?_, ?_, ?_⟩
  · have ascending := w.ids_ascending
    rw [split] at ascending
    have shorter := (ids_servableEntries seen).trans (sub.trans (List.sublist_append_left shown rest))
    exact List.pairwise_map.1 (ascending.sublist shorter)
  · intro found mem
    have least := UInt64.le_iff_toNat_le.1 (inside mem).1
    refine ⟨?_, UInt64.le_trans (inside mem).2 last⟩
    rw [UInt64.lt_iff_toNat_lt]
    omega
  · intro found mem
    exact ⟨sights _ (mem_servableEntries.1 mem), own _ (listed mem)⟩
  · intro found mem id after below
    have least : w.first ≤ id := by
      rw [UInt64.lt_iff_toNat_lt] at after
      rw [UInt64.le_iff_toNat_le]
      omega
    exact servable_or_skipped all complete sights
      (Window.mem_of_le split (sub.subset (listed mem)) least below)

private theorem swept_to {before last : EntryId} (first : w.first.toNat = before.toNat + 1)
    (inside : w.first ≤ last) (skipped : ∀ id, w.first ≤ id → id ≤ last → q.Skips view c id) :
    before < last ∧ q.Swept view c before last := by
  have forward : before < last := by
    rw [UInt64.le_iff_toNat_le] at inside
    rw [UInt64.lt_iff_toNat_lt]
    omega
  refine ⟨forward, UInt64.le_of_lt forward, fun id after below => skipped id ?_ below⟩
  rw [UInt64.lt_iff_toNat_lt] at after
  rw [UInt64.le_iff_toNat_le]
  omega

private theorem swept_before {before id : EntryId} (first : w.first.toNat = before.toNat + 1)
    (split : w.ids = shown ++ rest) (head : rest.head? = some id)
    (skipped : ∀ id ∈ shown, q.Skips view c id) :
    id.toNat = (id - 1).toNat + 1 ∧ before ≤ id - 1 ∧ q.Swept view c before (id - 1) := by
  have inside := Window.mem_ids.1
    (split ▸ List.mem_append_right shown (List.mem_of_head? head) : id ∈ w.ids)
  have least := UInt64.le_iff_toNat_le.1 inside.1
  have one : (1 : UInt64).toNat = 1 := rfl
  have number : (id - 1).toNat = id.toNat - 1 := by
    rw [UInt64.toNat_sub_of_le _ _ (UInt64.le_iff_toNat_le.2 (by omega)), one]
  have forward : before ≤ id - 1 := by
    rw [UInt64.le_iff_toNat_le]
    omega
  refine ⟨by omega, forward, forward, fun other after below => skipped other ?_⟩
  rw [UInt64.lt_iff_toNat_lt] at after
  rw [UInt64.le_iff_toNat_le] at below
  refine Window.mem_of_lt split head ?_ ?_
  · rw [UInt64.le_iff_toNat_le]
    omega
  · rw [UInt64.lt_iff_toNat_lt]
    omega

end Window

variable (q : Queue) (c : Consumer) (config : Config) (s : Snapshot) {st : Storage}

private theorem answers_readHeaders_of_scanned {ids : List EntryId} {key : String} {scan : HeaderScan}
    (reliable : st.Reliable) (scanned : q.scanHeaders (q.shows st.table s) key ids = .ok scan) :
    Answers (q.readHeaders ids key s) st fun found st' => scan = found ∧ st.Alike st' := by
  refine (q.answers_view .readHeaders s reliable).bind ?_
  rintro _ st' ⟨rfl, same⟩
  exact Answers.ofExcept scanned ⟨rfl, same⟩

private theorem answers_readEntries_of_readable (ids : List EntryId) (reliable : st.Reliable)
    (readable : q.Readable (q.shows st.table s)) :
    Answers (q.readEntries ids s) st fun seen st' => (seen.map (·.1) = ids ∧
      ∀ found ∈ seen, q.sight (q.shows st.table s) found.1 = .ok found.2) ∧ st.Alike st' := by
  refine (q.answers_view .readEntries s reliable).bind ?_
  rintro _ st' ⟨rfl, same⟩
  obtain ⟨seen, found⟩ := readable.mapM_sight ids
  exact Answers.ofExcept found ⟨ids_of_sights found, same⟩

theorem answers_scanWindow_of_readable (w : Window) (cursor : Cursor)
    (hash : config.partitioner = .hash) {limit : EntryId} (writePointer : EntryId)
    (first : w.first.toNat = cursor.readPointer.toNat + 1) (nonempty : w.first ≤ w.last)
    (last : w.last ≤ limit) (reliable : st.Reliable)
    (readable : q.Readable (q.shows st.table s)) :
    Answers (q.scanWindow c config s w) ⟨st, cursor⟩ fun pass t' => st.Alike t'.storage ∧
      ∃ after, t'.cursor = { cursor with readPointer := after } ∧
        q.PassSweeps (q.shows st.table s) c limit writePointer cursor.readPointer pass after := by
  obtain ⟨scan, shown, rest, scanned, split, all, ids, hashes, stop, blocked⟩ :=
    readable.scanHeaders c.headerKey w.ids
  have own (id : EntryId) : id ∈ owned c .hash scan ↔
      id ∈ shown ∧ q.FallsTo (q.shows st.table s) c id := ids ▸ mem_owned hashes
  have sub : (owned c .hash scan).Sublist shown := ids ▸ List.filter_sublist.map _
  unfold scanWindow
  refine (Turn.answers_onStorage (q.answers_readHeaders_of_scanned s reliable scanned)).bind ?_
  rintro _ ⟨st₁, _⟩ ⟨⟨rfl, same⟩, rfl⟩
  rw [hash]
  cases isLast : (owned c .hash scan).getLast? with
  | some final =>
      have read := q.answers_readEntries_of_readable s (owned c .hash scan) (reliable.of_alike same)
        (q.shows_of_alike same.1 s ▸ readable)
      rw [q.shows_of_alike same.1] at read
      refine (Turn.answers_onStorage read).bind ?_
      rintro seen ⟨st₂, _⟩ ⟨⟨⟨listed, sights⟩, same₂⟩, rfl⟩
      have complete (id : EntryId) (mem : id ∈ shown) (falls : q.FallsTo (q.shows st.table s) c id) :
          id ∈ seen.map (·.1) := listed ▸ (own id).2 ⟨mem, falls⟩
      have collected := collected_of_servable first last split all (listed ▸ sub)
        (fun id mem => ((own id).1 (listed ▸ mem)).2) complete sights
      cases served : servableEntries seen with
      | nil =>
          have mem := sub.subset (List.mem_of_getLast? isLast)
          have inside := Window.mem_ids.1 (split ▸ List.mem_append_left rest mem : final ∈ w.ids)
          obtain ⟨forward, swept⟩ := swept_to (q := q) first inside.1 fun id least below => by
            have inShown := Window.mem_of_le split mem least below
            rcases servable_or_skipped all complete sights inShown with ⟨_, found, _⟩ | skips
            · rw [served] at found
              cases found
            · exact skips
          apply Turn.answers_update
          exact Answers.pure ⟨same.trans same₂, final, Cursor.advance_of_le (UInt64.le_of_lt forward),
            .passed forward (UInt64.le_trans inside.2 last) swept⟩
      | cons head tail =>
          rw [served] at collected
          exact Answers.pure ⟨same.trans same₂, cursor.readPointer, rfl, .found nofun collected⟩
  | none =>
      have skipped : ∀ id ∈ shown, q.Skips (q.shows st.table s) c id := by
        intro id mem
        refine ⟨all id mem, fun payload offer => ?_⟩
        have here := (own id).2 ⟨mem, offer.own⟩
        rw [List.getLast?_eq_none_iff.1 isLast] at here
        cases here
      cases unseen : scan.firstUnseen with
      | some id =>
          have head : rest.head? = some id := stop.symm.trans unseen
          have inside := Window.mem_ids.1
            (split ▸ List.mem_append_right shown (List.mem_of_head? head) : id ∈ w.ids)
          obtain ⟨number, forward, swept⟩ := swept_before first split head skipped
          apply Turn.answers_update
          exact Answers.pure ⟨same, id - 1, Cursor.advance_of_le forward,
            .blocked swept number (UInt64.le_trans inside.2 last) (blocked id head)⟩
      | none =>
          have nothing : rest = [] := by simpa using stop.symm.trans unseen
          rw [nothing, List.append_nil] at split
          obtain ⟨forward, swept⟩ := swept_to first nonempty fun id least below =>
            skipped id (split ▸ Window.mem_ids.2 ⟨least, below⟩)
          apply Turn.answers_update
          exact Answers.pure ⟨same, w.last, Cursor.advance_of_le (UInt64.le_of_lt forward),
            .passed forward last swept⟩

theorem answers_disjointPass_of_readable (cursor : Cursor) (hash : config.partitioner = .hash)
    {limit writePointer : EntryId} (reliable : st.Reliable)
    (readable : q.Readable (q.shows st.table s))
    (stands : (writePointer.toNat : Int) = st.table.standing (RowKey.entryCounter.encode q.name))
    (within : writePointer ≤ limit) (remembered : cursor.writePointer ≤ limit) :
    Answers (q.disjointPass c config s) ⟨st, cursor⟩ fun pass t' => st.Alike t'.storage ∧
      ∃ after w, w ≤ limit ∧ t'.cursor = { cursor with readPointer := after, writePointer := w } ∧
        q.PassSweeps (q.shows st.table s) c limit writePointer cursor.readPointer pass after := by
  have window (w : Window) (st₁ : Storage) (looked : EntryId) (inside : looked ≤ limit)
      (same : st.Alike st₁)
      (here : Window.after cursor.readPointer config.effectiveBatchSize c.groupSize looked =
        some w) :
      Answers (q.scanWindow c config s w) ⟨st₁, { cursor with writePointer := looked }⟩
        fun pass t' => st.Alike t'.storage ∧
          ∃ after w, w ≤ limit ∧
            t'.cursor = { cursor with readPointer := after, writePointer := w } ∧
            q.PassSweeps (q.shows st.table s) c limit writePointer cursor.readPointer pass after := by
    obtain ⟨_, nonempty, last⟩ := Window.after_bounds here
    have shown := q.shows_of_alike same.1 s
    refine (q.answers_scanWindow_of_readable c config s w { cursor with writePointer := looked } hash
      writePointer (Window.first_of_after here) nonempty (UInt64.le_trans last inside)
      (reliable.of_alike same) (shown.symm ▸ readable)).imp ?_
    rintro pass t' ⟨same', after, moved, sweeps⟩
    exact ⟨same.trans same', after, looked, inside, moved, shown ▸ sweeps⟩
  unfold disjointPass
  apply Turn.answers_cursorNow
  cases stale : Window.isCaughtUp cursor.readPointer cursor.writePointer with
  | true =>
      refine (q.answers_refresh cursor reliable (by omega)).bind ?_
      rintro _ ⟨st₁, _⟩ ⟨same, w, found, rfl⟩
      obtain rfl : w = writePointer := UInt64.toNat_inj.1 (by omega)
      apply Turn.answers_cursorNow
      simp only
      split
      · rename_i none
        have reached : w ≤ cursor.readPointer := by
          simpa [Window.after, Window.isCaughtUp] using none
        exact Answers.pure ⟨same, cursor.readPointer, w, within, rfl, .caughtUp reached⟩
      · rename_i w' here
        exact window w' st₁ w within same here
  | false =>
      refine Answers.bind_of_ok (rfl : q.refreshIf false _ = .ok () _) ?_
      apply Turn.answers_cursorNow
      simp only
      split
      · rename_i none
        simp [Window.after, stale] at none
      · rename_i w' here
        exact window w' st cursor.writePointer remembered (.refl st) here

/-- Fetching in a disjoint group answers, by induction on the passes, and collects what is offered first
after the read pointer. -/
theorem answers_fetchDisjoint_of_readable (hash : config.partitioner = .hash)
    {limit writePointer : EntryId} (within : writePointer ≤ limit) (t : Turn)
    (reliable : t.storage.Reliable) (readable : q.Readable (q.shows t.storage.table s))
    (stands : (writePointer.toNat : Int) =
      t.storage.table.standing (RowKey.entryCounter.encode q.name))
    (remembered : t.cursor.writePointer ≤ limit) (empty : t.cursor.cache = {}) :
    Answers (q.fetchDisjoint c config s) t fun _ t' => t.storage.Alike t'.storage ∧
      ∃ entries after w, t'.cursor =
          { t.cursor with readPointer := after, writePointer := w, cache := ⟨entries⟩ } ∧
        q.FetchSweeps (q.shows t.storage.table s) c limit writePointer t.cursor.readPointer
          entries after := by
  have repeats := q.repeats_fetchDisjoint c config s
  induction t using repeats.induct with
  | passed t t' passed ih =>
      obtain ⟨same, after, w, inside, moved, sweeps⟩ :=
        (q.answers_disjointPass_of_readable c config s t.cursor hash reliable readable stands within
          remembered).of_ok passed
      have shown := q.shows_of_alike same.1 s
      cases sweeps with
      | passed _ last swept =>
          obtain ⟨u, t'', done, same', entries, after', w', moved', sweeps⟩ :=
            ih (reliable.of_alike same) (shown.symm ▸ readable) (by rw [same.1.standing, stands])
              (by rw [moved]; exact inside) (by rw [moved, empty])
          rw [moved] at moved' sweeps
          rw [shown] at sweeps
          exact ⟨u, t'', (repeats.passed passed).trans done, same.trans same', entries, after', w',
            moved', sweeps.of_swept swept last⟩
  | found t t' entries found =>
      obtain ⟨same, after, w, _, moved, sweeps⟩ :=
        (q.answers_disjointPass_of_readable c config s t.cursor hash reliable readable stands within
          remembered).of_ok found
      cases sweeps with
      | found some collected =>
          exact ⟨(), _, repeats.found found, same, _, _, w, by rw [moved],
            .found (.refl _) some collected⟩
  | exhausted t t' exhausted =>
      obtain ⟨same, after, w, _, moved, sweeps⟩ :=
        (q.answers_disjointPass_of_readable c config s t.cursor hash reliable readable stands within
          remembered).of_ok exhausted
      refine ⟨(), t', repeats.exhausted exhausted, same, [], _, w, by rw [moved, empty], ?_⟩
      cases sweeps with
      | blocked swept number inside hidden => exact .blocked swept number inside hidden
      | caughtUp reached => exact .caughtUp (.refl _) reached (.inl rfl)
  | failed t t' e failed =>
      obtain ⟨pass, t'', done, _⟩ :=
        q.answers_disjointPass_of_readable c config s t.cursor hash reliable readable stands within
          remembered
      cases failed.symm.trans done

end Queue

end VersionedQueue
