import VersionedQueue.Proofs.Disjoint.Ahead
import VersionedQueue.Proofs.Entries.Log

/-!
# Requests of disjoint groups are isolated by their snapshots

A member of a disjoint group that asks under a snapshot is served as if nothing had been done that the
snapshot does not see, and as if no other consumer had done anything.  The counter of entries is seen at
once, whatever the versions of the entries; even so a request is answered in the same way, and leaves the
consumer's row in the same state.
-/

set_option autoImplicit false
set_option relaxedAutoImplicit false

namespace VersionedQueue

/-- A call to a queue that can be opened; if it retires an entry of the queue, the entry was appended
before.  It may fail. -/
def Retiring (past : List Event) (call : Call) : Prop :=
  call.queue.Opens ∧ ∀ p v, call.request = .invalidate p v → p.queue = call.queue.name →
    ∃ entry w, Enqueued past p entry w

/-- A call that a consumer does not notice under a snapshot: another consumer's, or a producer's at a
version that the snapshot does not see, or one to another queue. -/
def Unnoticed (seat : Seat) (s : Snapshot) (call : Call) : Prop :=
  call.seat? ≠ some seat ∧
    (call.queue.name = seat.queue →
      call.request.isEnqueue = true ∨ call.request.isInvalidate = true →
        s.sees call.request.version = false)

theorem History.read_congr {h h' : History} {s : Snapshot}
    (same : ∀ v, s.sees v = true → h'.at? v = h.at? v) : h'.read s = h.read s := by
  have has (v : Version) (seen : s.sees v = true) : h'.Has v ↔ h.Has v := by
    rw [History.Has, History.Has, same v seen]
  rcases h.read_cases s with ⟨none, hidden⟩ | ⟨v, x, seen, here, newest, read⟩
  · rcases h'.read_cases s with ⟨none', _⟩ | ⟨v, x, seen, here, _, _⟩
    · rw [none, none']
    · exact absurd ((has v seen).1 (by simp [History.Has, here])) (hidden v seen)
  · rw [read]
    exact History.read_of_newest seen ((same v seen).trans here) fun w wSeen wHas =>
      newest w wSeen ((has w wSeen).1 wHas)

section

variable {past : List Event} {q : Queue} {c : Consumer} {s : Snapshot} {e : Event}

theorem Event.request_of_mark?_retired {p : Pointer} {v : Version}
    (marked : e.mark? p = some (v, .retired)) :
    e.call.request = .invalidate p v ∧ p.queue = e.call.queue.name := by
  cases asked : e.call.request using Request.producer_cases with
  | invalidate p' v' =>
      simp only [mark?, asked] at marked
      split at marked
      · rename_i here
        obtain ⟨rfl, marks⟩ := here
        cases marked
        refine ⟨rfl, Classical.byContradiction fun foreign => ?_⟩
        have performed : e.outcome = Outcome.ofStorage (fun _ => .invalidated)
            (e.call.queue.invalidate p' v { e.before with plan := e.call.plan }) := by
          simp only [outcome, Call.perform, asked]
        rw [Queue.invalidate_of_foreign e.call.queue foreign v] at performed
        simp [Event.marks, performed, Outcome.ofStorage, QueueError.keepsPayload] at marks
      · cases marked
  | enqueue entry v' =>
      simp only [mark?, asked] at marked
      split at marked <;> cases marked
  | aside request quiet keeps =>
      rw [← asked] at quiet keeps
      cases (mark?_of_aside quiet keeps).symm.trans marked

theorem entryLog_of_beyond (run : Run Retiring past) {p : Pointer}
    (beyond : (storageAfter past).table.standing (RowKey.entryCounter.encode p.queue) < p.id.toNat) :
    entryLog past p = [] := by
  have fresh {earlier : List Event} {entry : Entry} {v : Version} (part : earlier <:+ past) :
      ¬ Enqueued earlier p entry v := fun appended => by
    obtain ⟨d, mem, _, takes⟩ := appended.takes (run.of_suffix part)
    exact Int.not_lt.2 (allocated_le run (part.subset mem) takes) beyond
  refine List.filterMap_eq_nil_iff.2 fun e mem => ?_
  obtain ⟨newer, earlier, rfl⟩ := List.append_of_mem mem
  obtain ⟨before, ⟨opens, named⟩, found⟩ :=
    Run.cons_iff.1 (run.of_suffix (List.suffix_append newer (e :: earlier)))
  have part : earlier <:+ newer ++ e :: earlier :=
    (List.suffix_cons e earlier).trans (List.suffix_append newer _)
  cases marked : e.mark? p with
  | none => rfl
  | some mark =>
      obtain ⟨v, mark⟩ := mark
      cases mark with
      | appended entry =>
          exact absurd ⟨e, mem, Event.mark?_eq_appended.1 marked⟩ (fresh (List.suffix_refl _))
      | retired =>
          obtain ⟨asked, here⟩ := Event.request_of_mark?_retired marked
          obtain ⟨entry, w, appended⟩ := named p v asked here
          exact absurd appended (fresh part)

private theorem own_of_unnoticed (opens : e.call.queue.Opens) (short : ShortName q.name)
    (aside : Unnoticed (q.seat c) s e.call) :
    e.before.table.AgreeOn (· = (Queue.consumerRow c).encode q.name) e.after.table := by
  refine .of_touched e.touched ?_
  rintro row rfl
  refine Event.not_touches_of_opens opens short fun name touches => aside.1 ?_
  obtain ⟨c', asks, group, member⟩ := Request.consumer_of_touches touches
  simp only [Call.seat?, asks, Option.map_some, Queue.seat, name, group, member]

private theorem shown_of_unnoticed (opens : e.call.queue.Opens) (short : ShortName q.name)
    (aside : Unnoticed (q.seat c) s e.call) (id : EntryId) (column : Column) :
    q.shows e.after.table s (.entry id) column = q.shows e.before.table s (.entry id) column := by
  by_cases written : e.call.queue.name = q.name ∧ e.call.request.Touches (.entry id)
  · obtain ⟨name, touches⟩ := written
    have hidden := aside.2 name (Request.producer_of_touches touches)
    refine History.read_congr fun v seen => e.touched.at? _ _ v ?_
    rintro rfl
    rw [hidden] at seen
    cases seen
  · simp only [Queue.shows, Table.read]
    rw [Event.history_kept opens short fun name touches => written ⟨name, touches⟩]

private theorem kept_of_unnoticed {later : List Event} (more : Run Opened (later ++ past))
    (short : ShortName q.name) (aside : ∀ e ∈ later, Unnoticed (q.seat c) s e.call) :
    (storageAfter past).table.AgreeOn (· = (Queue.consumerRow c).encode q.name)
        (storageAfter (later ++ past)).table ∧
      ∀ id column, q.shows (storageAfter (later ++ past)).table s (.entry id) column =
        q.shows (storageAfter past).table s (.entry id) column := by
  induction later with
  | nil => exact ⟨.refl _ _, fun _ _ => rfl⟩
  | cons e later ih =>
      rw [List.cons_append] at more
      obtain ⟨earlier, opens, found⟩ := Run.cons_iff.1 more
      obtain ⟨own, shown⟩ := ih earlier fun d mem => aside d (List.mem_cons_of_mem e mem)
      have now := aside e List.mem_cons_self
      rw [← found] at own shown
      refine ⟨own.trans (own_of_unnoticed opens short now), fun id column => ?_⟩
      exact (shown_of_unnoticed opens short now id column).trans (shown id column)

/-- What calls that a consumer does not notice leave is ahead of what they found. -/
theorem ahead_of_unnoticed {later : List Event} (run : Run Retiring past)
    (more : Run Opened (later ++ past)) (short : ShortName q.name)
    (aside : ∀ e ∈ later, Unnoticed (q.seat c) s e.call) :
    ∃ stands stands', stands ≤ stands' ∧
      Storage.Ahead q c s stands stands' { storageAfter past with plan := .none }
        { storageAfter (later ++ past) with plan := .none } := by
  obtain ⟨own, shown⟩ := kept_of_unnoticed more short aside
  obtain ⟨stands, standing⟩ := Table.exists_id_of_standing
    (standing_nonneg run (RowKey.entryCounter.encode q.name))
  obtain ⟨stands', standing'⟩ := Table.exists_id_of_standing
    (standing_nonneg more (RowKey.entryCounter.encode q.name))
  refine ⟨stands, stands', ?_, ⟨rfl, works_of_run run⟩, ⟨rfl, works_of_run more⟩, own, shown,
    standing.symm, standing'.symm, fun id beyond => ?_⟩
  · have grown := standing_le_of_suffix more (List.suffix_append later past)
      (RowKey.entryCounter.encode q.name)
    rw [← standing, ← standing'] at grown
    exact UInt64.le_iff_toNat_le.2 (Int.ofNat_le.1 grown)
  · have opened : Run Opened past := run.mono fun _ _ _ fits => fits.1
    have logged := logged_of_run opened (p := ⟨q.name, id⟩) short
    have empty : entryLog past ⟨q.name, id⟩ = [] := entryLog_of_beyond run (by
      rw [← standing]
      exact Int.ofNat_lt.2 (UInt64.lt_iff_toNat_lt.1 beyond))
    exact (logged.shown_state s).trans (by rw [empty]; rfl)

/-- After every run that retires only entries that were appended, a member of a disjoint group asks for an
entry under a snapshot.  If anything is done first that the member does not notice under the snapshot,
whichever calls fail, the request is still answered in the same way; it leaves the same histories in the
member's row, and a cursor that differs in the write pointer at most. -/
theorem disjoint_isolated {later : List Event} {config : Config} {cursor : Cursor}
    (run : Run Retiring past) (more : Run Opened (later ++ past)) (opens : q.Opens)
    (hash : config.partitioner = .hash)
    (aside : ∀ e ∈ later, Unnoticed (q.seat c) s e.call) :
    let call : Call := ⟨q, .dequeue c config cursor s, .none⟩
    let alone := call.perform (storageAfter past)
    let after := call.perform (storageAfter (later ++ past))
    after.answer = alone.answer ∧
      (∀ column, after.storage.table.history (q.seat c).row column =
        alone.storage.table.history (q.seat c).row column) ∧
      after.cursor = { alone.cursor with writePointer := after.cursor.writePointer } := by
  obtain ⟨stands, stands', grown, ahead⟩ := ahead_of_unnoticed run more opens.shortName aside
  have related : Turn.Ahead q c s stands stands' ⟨{ storageAfter past with plan := .none }, cursor⟩
      ⟨{ storageAfter (later ++ past) with plan := .none }, cursor⟩ := ⟨ahead, rfl, .inl rfl⟩
  have ends := Turn.Ahead.dequeue hash grown related
  simp only [Call.perform]
  cases done : q.dequeue c config s ⟨{ storageAfter past with plan := .none }, cursor⟩ with
  | ok delivery u =>
      rw [done] at ends
      obtain ⟨u', done', related'⟩ := ends.of_ok
      rw [done']
      exact ⟨rfl, fun column => related'.storage.own.history _ rfl column, related'.cursor⟩
  | error e u =>
      rw [done] at ends
      obtain ⟨u', done', related'⟩ := ends.of_error
      rw [done']
      exact ⟨rfl, fun column => related'.storage.own.history _ rfl column, related'.cursor⟩

/-- A queue has two entries. -/
def settled : List Call :=
  let adding (v : Version) : Call :=
    ⟨⟨"q", ⟨.hash, 20⟩⟩, .enqueue ⟨[97], Std.TreeMap.ofList [("k", (0 : Int32))]⟩ v, .none⟩
  [adding 2, adding 1]

/-- Two more entries are appended and the first one is retired, all at later versions, and a member of
another group is handed an entry. -/
def bustle : List Call :=
  let adding (v : Version) : Call :=
    ⟨⟨"q", ⟨.hash, 20⟩⟩, .enqueue ⟨[98], Std.TreeMap.ofList [("k", (0 : Int32))]⟩ v, .none⟩
  [adding 22, ⟨⟨"q", ⟨.hash, 20⟩⟩, .dequeue { group := 2, member := 0, groupSize := 1 }
      ⟨.roundRobin, 20⟩ .fresh (.upTo 40), .none⟩,
    ⟨⟨"q", ⟨.hash, 20⟩⟩, .invalidate ⟨"q", 1⟩ 21, .none⟩, adding 20]

/-- A member of a disjoint group asks under an earlier snapshot. -/
def retrospective : Call :=
  ⟨⟨"q", ⟨.hash, 20⟩⟩, .dequeue { group := 1, member := 0, groupSize := 1, partitioningKey := some "k" }
    ⟨.hash, 20⟩ .fresh (.upTo 10), .none⟩

/-- The member is handed the first entry, with all that and without it, although it sees the counter of
entries elsewhere. -/
theorem retrospective_isolated :
    let alone := retrospective.perform (storageAfter (replay settled))
    let after := retrospective.perform (storageAfter (replay (bustle ++ settled)))
    Event.servedTo? ⟨retrospective, storageAfter (replay settled)⟩ ⟨"q", 1, 0⟩ = some 1 ∧
      alone.cursor.writePointer = 2 ∧ after.cursor.writePointer = 4 ∧ after.answer = alone.answer ∧
      (∀ column, after.storage.table.history (⟨"q", 1, 0⟩ : Seat).row column =
        alone.storage.table.history (⟨"q", 1, 0⟩ : Seat).row column) ∧
      after.cursor = { alone.cursor with writePointer := after.cursor.writePointer } := by
  refine ⟨by with_unfolding_all decide, by with_unfolding_all decide, by with_unfolding_all decide, ?_⟩
  have opens : Queue.Opens ⟨"q", ⟨.hash, 20⟩⟩ := rfl
  have run : Run Retiring (replay settled) := by
    refine .replay_cons (.replay_cons .start ⟨opens, ?_⟩) ⟨opens, ?_⟩ <;> rintro _ _ ⟨⟩
  have more : Run Opened ((replay (bustle ++ settled)).take 4 ++ replay settled) :=
    .next (.next (.next (.next (run.mono fun _ _ _ fits => fits.1) opens) opens) opens) opens
  refine disjoint_isolated run more opens rfl fun e mem => ?_
  have made : e.call ∈ bustle := by
    have all := List.mem_map_of_mem (f := Event.call) mem
    rwa [List.map_take, map_call_replay] at all
  simp only [bustle, List.mem_cons, List.not_mem_nil, or_false] at made
  rcases made with asked | asked | asked | asked <;> rw [asked] <;>
    exact ⟨by decide, fun _ _ => by decide⟩

end

end VersionedQueue
