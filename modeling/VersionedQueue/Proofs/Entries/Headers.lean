import VersionedQueue.Proofs.Disjoint.Readable

/-!
# Hashes are read as they were appended

The hashes of an entry go into cells of its row when the entry is appended, and a scan of headers reads
them back.  A partitioning that does not fit is refused before an id is taken.  After every run the
cells of hashes hold those of the appends and nothing else, so a scan gives the ids up to the first
that is not shown, each with the hash that its entry was appended with if the append is seen.
-/

set_option autoImplicit false
set_option relaxedAutoImplicit false

namespace VersionedQueue

/-- A partitioning that can be written: not too many keys, none of them empty or too long. -/
def Partitioning.Fits (p : Partitioning) : Prop :=
  p.size ≤ 32 ∧ ∀ key ∈ p, 1 ≤ key.utf8ByteSize ∧ key.utf8ByteSize ≤ 256

section Fits

theorem Partitioning.fits_iff_toList (p : Partitioning) : p.Fits ↔
    p.size ≤ 32 ∧ ∀ header ∈ p.toList, 1 ≤ header.1.utf8ByteSize ∧ header.1.utf8ByteSize ≤ 256 := by
  refine and_congr_right fun _ => ⟨?_, ?_⟩
  · rintro all ⟨key, hash⟩ mem
    have found := Std.TreeMap.mem_toList_iff_getElem?_eq_some.1 mem
    exact all key (Std.TreeMap.mem_iff_isSome_getElem?.2 (by rw [found]; rfl))
  · intro all key mem
    obtain ⟨hash, found⟩ := Option.isSome_iff_exists.1 (Std.TreeMap.mem_iff_isSome_getElem?.1 mem)
    exact all (key, hash) (Std.TreeMap.mem_toList_iff_getElem?_eq_some.2 found)

instance (p : Partitioning) : Decidable p.Fits := decidable_of_iff _ p.fits_iff_toList.symm

private theorem exists_mapM_iff {α β ε : Type} {f : α → Except ε β} (l : List α) :
    (∃ cells, l.mapM f = .ok cells) ↔ ∀ a ∈ l, ∃ cell, f a = .ok cell := by
  induction l with
  | nil => exact ⟨fun _ => nofun, fun _ => ⟨[], rfl⟩⟩
  | cons a rest ih =>
      rw [List.forall_mem_cons, ← ih, List.mapM_cons]
      constructor
      · rintro ⟨cells, made⟩
        cases first : f a with
        | error e =>
            rw [first] at made
            cases made
        | ok cell =>
            cases others : rest.mapM f with
            | error e =>
                rw [first, others] at made
                cases made
            | ok tail => exact ⟨⟨cell, rfl⟩, tail, rfl⟩
      · rintro ⟨⟨cell, first⟩, tail, others⟩
        refine ⟨cell :: tail, ?_⟩
        rw [first, others]
        rfl

private theorem exists_headerCell_iff (key : String) (hash : Int32) :
    (∃ cell, Partitioning.headerCell key hash = .ok cell) ↔
      1 ≤ key.utf8ByteSize ∧ key.utf8ByteSize ≤ 256 := by
  have empty : key.isEmpty = true ↔ key.utf8ByteSize = 0 := by
    simp [String.isEmpty]
  have limit : Limits.maxPartitionKeySize = 256 := rfl
  rw [Partitioning.headerCell, limit]
  by_cases none : key.utf8ByteSize = 0
  · rw [if_pos (empty.2 none)]
    constructor
    · rintro ⟨_, made⟩
      cases made
    · omega
  · rw [if_neg fun holds => none (empty.1 holds)]
    by_cases long : 256 < key.utf8ByteSize
    · rw [if_pos long]
      constructor
      · rintro ⟨_, made⟩
        cases made
      · omega
    · rw [if_neg long]
      exact ⟨fun _ => by omega, fun _ => ⟨_, rfl⟩⟩

theorem Partitioning.exists_headerCells_iff (p : Partitioning) :
    (∃ cells, p.headerCells = .ok cells) ↔ p.Fits := by
  have limit : Limits.maxPartitionKeys = 32 := rfl
  rw [headerCells, fits_iff_toList, limit]
  by_cases many : 32 < p.size
  · rw [if_pos many]
    constructor
    · rintro ⟨_, made⟩
      cases made
    · omega
  · have few : p.size ≤ 32 := Nat.not_lt.1 many
    rw [if_neg many, exists_mapM_iff]
    simp only [exists_headerCell_iff, few, true_and]

end Fits

namespace Queue

variable (q : Queue) (entry : Entry) (v : Version) {st : Storage}

theorem enqueue_of_unfit (unfit : ¬ entry.partitioning.Fits) (st : Storage) :
    ∃ message, q.enqueue entry v st = .error (.headerSerialization message) st := by
  cases made : entry.partitioning.headerCells with
  | ok cells => exact absurd ((Partitioning.exists_headerCells_iff _).1 ⟨cells, made⟩) unfit
  | error rejection =>
      refine ⟨rejection.message, ?_⟩
      unfold enqueue
      rw [made]
      rfl

private theorem not_refused_of_call {α : Type} {purpose : Purpose} {kind : Access}
    {act : TableM α} {st' : Storage} {message : String} :
    Storage.call purpose kind act st ≠ .error (.headerSerialization message) st' := by
  intro failed
  simp only [Storage.call] at failed
  split at failed
  · cases failed
  · split at failed <;> cases failed

private theorem not_refused_of_count {purpose : Purpose} {key : RowKey} {delta : Int64}
    {st' : Storage} {message : String} :
    q.count purpose key delta st ≠ .error (.headerSerialization message) st' := by
  intro failed
  rcases error_of_bind failed with early | ⟨value, middle, _, late⟩
  · exact not_refused_of_call early
  · cases found : counterId? value <;> rw [found] at late <;> cases late

theorem fits_iff_not_refused (st : Storage) : entry.partitioning.Fits ↔
    ∀ message st', q.enqueue entry v st ≠ .error (.headerSerialization message) st' := by
  constructor
  · intro fits message st' failed
    obtain ⟨cells, made⟩ := (Partitioning.exists_headerCells_iff _).2 fits
    unfold enqueue at failed
    rw [made] at failed
    rcases error_of_bind failed with early | ⟨id, middle, _, late⟩
    · exact q.not_refused_of_count early
    · rcases error_of_bind late with wrote | ⟨_, _, _, last⟩
      · unfold put Storage.put at wrote
        exact not_refused_of_call wrote
      · cases last
  · refine fun accepted => Classical.byContradiction fun unfit => ?_
    obtain ⟨message, refused⟩ := q.enqueue_of_unfit entry v unfit st
    exact accepted message st refused

theorem answers_enqueue (fits : entry.partitioning.Fits) (reliable : st.Reliable)
    (counted : 0 ≤ st.table.standing (RowKey.entryCounter.encode q.name))
    (room : st.table.standing (RowKey.entryCounter.encode q.name) < Int64.maxValue.toInt) :
    Answers (q.enqueue entry v) st fun p st' => p.queue = q.name ∧
      (p.id.toNat : Int) = st.table.standing (RowKey.entryCounter.encode q.name) + 1 ∧
      Table.Appended q.name p.id entry v st.table st'.table := by
  obtain ⟨cells, made⟩ := (Partitioning.exists_headerCells_iff _).2 fits
  have one : (1 : Int64).toInt = 1 := rfl
  have answered : Answers (q.enqueue entry v) st fun _ _ => True := by
    unfold enqueue
    rw [made]
    refine (q.answers_count .allocateEntryId .entryCounter 1 reliable (by omega) (by omega)).bind ?_
    rintro id st₁ ⟨_, _, _, _, works⟩
    refine (q.answers_put .writeEntry (.entry id) _ v works).bind ?_
    exact fun _ _ _ => Answers.pure trivial
  obtain ⟨p, st', done, _⟩ := answered
  rcases q.enqueue_cases entry v st counted with ⟨id, _, appended, next, _, written⟩ | ⟨_, _, failed, _⟩
  · rw [appended] at done
    cases done
    exact ⟨_, st', appended, rfl, next, written⟩
  · rw [failed] at done
    cases done

/-- Whether a view shows the state of an entry. -/
def ShowsState (view : QueueView) (id : EntryId) : Bool := (view (.entry id) .state).isSome

/-- A scan of headers finds the longest prefix that is shown, each id with its hash. -/
theorem Readable.scanHeaders_eq {q : Queue} {view : QueueView} (readable : q.Readable view)
    (key : String) (ids : List EntryId) :
    ∃ scan, q.scanHeaders view key ids = .ok scan ∧
      scan.visible.map (·.1) = ids.takeWhile (ShowsState view) ∧
      (∀ found ∈ scan.visible, q.headerHash view key found.1 = .ok found.2) ∧
      scan.firstUnseen = (ids.dropWhile (ShowsState view)).head? := by
  obtain ⟨scan, shown, rest, scanned, rfl, all, visible, hashes, stop, blocked⟩ :=
    readable.scanHeaders key ids
  have front : ∀ id ∈ shown, ShowsState view id = true := fun id mem =>
    Option.isSome_iff_ne_none.2 (all id mem)
  refine ⟨scan, scanned, ?_, hashes, ?_⟩
  · rw [visible, List.takeWhile_append_of_pos front]
    cases rest with
    | nil => simp
    | cons first later => simp [ShowsState, blocked first rfl]
  · rw [stop, List.dropWhile_append_of_pos front]
    cases rest with
    | nil => rfl
    | cons first later => simp [ShowsState, blocked first rfl]

theorem readHeaders_eq {ids : List EntryId} {key : String} {s : Snapshot} {scan : HeaderScan}
    (scanned : q.scanHeaders (q.shows st.table s) key ids = .ok scan) :
    ∃ st', q.readHeaders ids key s st =
      if st.plan .get st.calls.gets then
        .error (.internal Purpose.readHeaders.text (.failed Access.get.name "injected")) st'
      else .ok scan st' := by
  have viewed := q.view_eq .readHeaders s st
  refine ⟨{ st with calls := st.calls.add .get }, ?_⟩
  by_cases fails : st.plan .get st.calls.gets = true
  · rw [if_pos fails] at viewed ⊢
    exact bind_eq_of_error viewed
  · rw [if_neg fails] at viewed ⊢
    refine (bind_eq_of_ok viewed).trans ?_
    rw [scanned]
    rfl

end Queue

/-- An append is refused exactly if its partitioning does not fit, and then no id is taken and nothing
is written; what fits is appended where storage works and there is another id.  After every run on the
queues of a table a scan of headers is answered unless its one call is made to fail.  It gives the ids up
to the first of which no state is shown, and then that one; an id has a hash exactly if the snapshot sees
the append of its entry, and then the one that the entry was appended with. -/
theorem headers_as_appended {past : List Event} {q : Queue} (run : Run Opened past) (opens : q.Opens) :
    (∀ (entry : Entry) (v : Version) (st : Storage),
      (entry.partitioning.Fits ↔
        ∀ message st', q.enqueue entry v st ≠ .error (.headerSerialization message) st') ∧
      (¬ entry.partitioning.Fits →
        ∃ message, q.enqueue entry v st = .error (.headerSerialization message) st)) ∧
    (∀ (entry : Entry) (v : Version), entry.partitioning.Fits →
      (storageAfter past).table.standing (RowKey.entryCounter.encode q.name) <
        Int64.maxValue.toInt →
      ∃ p st', q.enqueue entry v { storageAfter past with plan := .none } = .ok p st' ∧
        p.queue = q.name ∧ Table.Appended q.name p.id entry v (storageAfter past).table st'.table) ∧
    ∀ (ids : List EntryId) (key : String) (s : Snapshot) (plan : FaultPlan), ∃ scan st',
      q.readHeaders ids key s { storageAfter past with plan } =
        (if plan .get (storageAfter past).calls.gets then
          .error (.internal Purpose.readHeaders.text (.failed Access.get.name "injected")) st'
        else .ok scan st') ∧
      scan.visible.map (·.1) =
        ids.takeWhile (Queue.ShowsState (q.shows (storageAfter past).table s)) ∧
      scan.firstUnseen =
        (ids.dropWhile (Queue.ShowsState (q.shows (storageAfter past).table s))).head? ∧
      ∀ found ∈ scan.visible, ∀ hash,
        found.2 = some hash ↔ Carries past ⟨q.name, found.1⟩ (s.sees ·) key hash := by
  refine ⟨fun entry v st => ⟨q.fits_iff_not_refused entry v st, fun unfit =>
    q.enqueue_of_unfit entry v unfit st⟩, fun entry v fits room => ?_, fun ids key s plan => ?_⟩
  · obtain ⟨p, st', done, name, _, written⟩ := @Queue.answers_enqueue q entry v
      { storageAfter past with plan := .none } fits ⟨rfl, works_of_run run⟩
      (standing_nonneg run _) room
    exact ⟨p, st', done, name, written⟩
  · obtain ⟨scan, scanned, visible, hashes, stop⟩ :=
      (readable_of_run run opens s).scanHeaders_eq key ids
    obtain ⟨st', read⟩ := @Queue.readHeaders_eq q { storageAfter past with plan } _ _ _ _ scanned
    refine ⟨scan, st', read, visible, stop, fun found mem hash => ?_⟩
    obtain ⟨known, readHash, carried⟩ := headerHash_of_run run opens s key found.1
    obtain rfl := Except.ok.inj ((hashes found mem).symm.trans readHash)
    exact carried hash

/-- An entry with a hash below zero, one of another queue, one that is retired at a version before its
own, one whose append fails after it took an id, and one after that. -/
def crossed : List Call :=
  let queue : Queue := ⟨"q", ⟨.hash, 20⟩⟩
  let keyed (hash : Int32) : Entry := ⟨[97], Std.TreeMap.ofList [("k", hash), ("ké", 3)]⟩
  [⟨queue, .enqueue (keyed 9) 6, .none⟩, ⟨queue, .enqueue (keyed 8) 6, fun kind _ => kind == .put⟩,
    ⟨queue, .invalidate ⟨"q", 2⟩ 4, .none⟩, ⟨queue, .enqueue (keyed 5) 7, .none⟩,
    ⟨⟨"qq", ⟨.hash, 20⟩⟩, .enqueue (keyed 1) 5, .none⟩, ⟨queue, .enqueue (keyed (-7)) 5, .none⟩]

private theorem crossed_run : Run Opened (replay crossed) := by
  have short : Queue.Opens ⟨"q", ⟨.hash, 20⟩⟩ := rfl
  have long : Queue.Opens ⟨"qq", ⟨.hash, 20⟩⟩ := rfl
  exact .replay_cons (.replay_cons (.replay_cons (.replay_cons (.replay_cons (.replay_cons .start short)
    long) short) short) short) short

/-- A snapshot that does not see the second append reads a hash of the first entry only, and stops at the
third id.  An empty key is refused. -/
theorem crossed_scanned :
    let q : Queue := ⟨"q", ⟨.hash, 20⟩⟩
    let s : Snapshot := .upToExcept 10 [7]
    (∃ st', q.readHeaders [1, 2, 3, 4] "k" s { storageAfter (replay crossed) with plan := .none } =
        .ok ⟨[(1, some (-7)), (2, none)], some 3⟩ st') ∧
      Carries (replay crossed) ⟨"q", 1⟩ (s.sees ·) "k" (-7) ∧
      (∀ hash, ¬ Carries (replay crossed) ⟨"q", 2⟩ (s.sees ·) "k" hash) ∧
      (∃ message, q.enqueue ⟨[], Std.TreeMap.ofList [("", (0 : Int32))]⟩ 1 (storageAfter (replay crossed)) =
        .error (.headerSerialization message) (storageAfter (replay crossed))) ∧
      ∃ p st', q.enqueue ⟨[], Std.TreeMap.ofList [("k", (0 : Int32))]⟩ 1
        { storageAfter (replay crossed) with plan := .none } = .ok p st' := by
  intro q s
  obtain ⟨refused, accepted, scanned⟩ := headers_as_appended (q := q) crossed_run rfl
  obtain ⟨scan, st', read, _, _, hashes⟩ := scanned [1, 2, 3, 4] "k" s .none
  have answered : answer? (q.readHeaders [1, 2, 3, 4] "k" s
      { storageAfter (replay crossed) with plan := .none }) =
        some ⟨[(1, some (-7)), (2, none)], some 3⟩ := by with_unfolding_all decide
  rw [read] at answered
  obtain rfl : scan = _ := Option.some.inj answered
  refine ⟨⟨st', read⟩, (hashes (1, some (-7)) List.mem_cons_self (-7)).1 rfl, fun hash carries => ?_,
    (refused _ 1 _).2 (by with_unfolding_all decide), ?_⟩
  · cases (hashes (2, none) (List.mem_cons_of_mem _ List.mem_cons_self) hash).2 carries
  · obtain ⟨p, st', done, _⟩ := accepted ⟨[], Std.TreeMap.ofList [("k", (0 : Int32))]⟩ 1
      (by with_unfolding_all decide) (by with_unfolding_all decide)
    exact ⟨p, st', done⟩

end VersionedQueue
