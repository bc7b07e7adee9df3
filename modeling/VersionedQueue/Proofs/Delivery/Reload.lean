import VersionedQueue.Proofs.Disjoint.Progress
import VersionedQueue.Proofs.Run.Replay
import VersionedQueue.Proofs.Shared.Holding

/-!
# What a reload hands out again

A consumer that loses its cursor is handed the entry that its requests left it with last, if that is
not acknowledged.  The row has one active entry, so any other entry that was handed out and is not
acknowledged is never handed out again.
-/

set_option autoImplicit false
set_option relaxedAutoImplicit false

namespace VersionedQueue

/-- The calls of a queue, as far as one consumer is concerned: it keeps its partitioner and its share,
keeps to the order of its snapshots, and acknowledges what it was handed and nothing else. -/
def Steadfast (seat : Seat) (partitioner : Partitioner) (share : Share) (past : List Event)
    (call : Call) : Prop :=
  Orderly seat (fun c config => config.partitioner = partitioner ∧
    (partitioner = .hash → c.share = share)) past call ∧
    (call.seat? = some seat → ∀ p c s, call.request = .ack p c s → p.id ∈ servedTo past seat)

namespace Steadfast

variable {seat : Seat} {partitioner : Partitioner} {share : Share} {past : List Event} {e : Event}
  {id : EntryId}

theorem disjoint_run (run : Run (Steadfast seat .hash share) past) :
    Run (Orderly seat share.Fits) past :=
  run.mono fun _ _ _ fits => fits.1.imp fun _ _ same => ⟨same.1, same.2 rfl⟩

theorem shared_run (run : Run (Steadfast seat .roundRobin share) past) :
    Run (SharedOrderly seat) past :=
  run.mono fun _ _ _ fits =>
    ⟨fits.1.imp fun _ _ same => same.1, fun own p c s asked => .inl (fits.2 own p c s asked)⟩

theorem steady_run (run : Run (Steadfast seat partitioner share) past) :
    Run (Steady seat.queue) past := run.mono fun _ _ _ fits => fits.1.1

theorem patient (run : Run (Steadfast seat .roundRobin share) past) : Patient past seat := by
  intro f earlier id within acked pends
  obtain ⟨before, fits, _⟩ := Run.cons_iff.1 (run.of_suffix within)
  obtain ⟨own, p, c, s, asked, rfl⟩ := Event.ack_of_ackedBy? acked
  obtain ⟨_, _, h⟩ := Holding.of_run (shared_run before)
  exact (h.waits p.id pends).2.1 (fits.2 own p c s asked)

/-- An id that the member took was handed to it, is retired, or is what it waits for. -/
theorem accounted (run : Run (Steadfast seat .roundRobin share) past) (took : Took past seat id) :
    id ∈ servedTo past seat ∨ RetiredAt past ⟨seat.queue, id⟩ (Known past seat) ∨
      pendingOf past seat = some id := by
  obtain ⟨_, _, h⟩ := Holding.of_run (shared_run run)
  exact (h.accounted id took).imp_right fun other => other.imp_right fun pends =>
    pends.resolve_right (patient run).not_forfeited

private theorem disjoint_leaves (run : Run (Steadfast seat .hash share) (e :: past))
    (left : e.leaves? seat = some id) :
    lastLeft? past seat = some id ∨ id ∉ servedTo past seat := by
  obtain ⟨own, c, config, cursor, s, asked⟩ := Event.dequeue_of_leaves? left
  obtain ⟨a, r, delivery, k, w, a', r', rest, h, _, _, delivers, ends, last⟩ :=
    Progress.turn_of_run (disjoint_run run) own asked
  cases served : e.servedTo? seat with
  | none =>
      -- Where nothing is handed out, the row says as before what was left last.
      obtain ⟨_, _, next⟩ := Progress.of_run (disjoint_run run)
      have head := next.left
      rw [lastLeft?_cons_of_some left, servedTo_cons_of_none served, ← h.left] at head
      exact .inl head.symm
  | some other =>
      have same : other = id := by simpa [Event.leaves?, served] using left
      subst same
      rcases h.served_cases last ends (delivers.servedTo?.symm.trans served) with
        ⟨_, rfl, some⟩ | later
      · exact .inl (h.left.trans (h.active_open some).1)
      · exact .inr fun mem => UInt64.lt_irrefl other (later other mem)

private theorem shared_leaves (run : Run (Steadfast seat .roundRobin share) (e :: past))
    (left : e.leaves? seat = some id) :
    lastLeft? past seat = some id ∨ id ∉ servedTo past seat := by
  obtain ⟨earlier, _, found⟩ := Run.cons_iff.1 run
  have steady := steady_run earlier
  obtain ⟨own, c, config, cursor, s, asked⟩ := Event.dequeue_of_leaves? left
  obtain ⟨a, r, delivery, k, a', r', h, follows, last, delivers, ends, next⟩ :=
    Holding.turn_of_run (shared_run run) own asked
  rw [delivers.leaves?] at left
  rcases Option.or_eq_some_iff.1 left with served | ⟨nothing, pends⟩
  · rcases h.served_cases steady own found follows last rfl rfl ends served with
      ⟨rfl, handed⟩ | later
    · exact .inl (h.active_left (took_pos steady (h.served_took id handed)))
    · exact .inr fun mem => UInt64.lt_irrefl id (later id mem)
  · have waits : pendingOf (e :: past) seat = some id := by
      rw [pendingOf, lastCursor?_cons_of_some delivers.cursorOf?, Option.bind_some, pends]
    have unserved := (next.waits id waits).2.1
    rw [servedTo_cons_of_none (delivers.servedTo?.trans nothing)] at unserved
    exact .inr unserved

private theorem leaves_cases (run : Run (Steadfast seat partitioner share) (e :: past))
    (left : e.leaves? seat = some id) :
    lastLeft? past seat = some id ∨ id ∉ servedTo past seat := by
  cases partitioner with
  | hash => exact disjoint_leaves run left
  | roundRobin => exact shared_leaves run left

private theorem never_again (handed : id ∈ servedTo past seat) (other : lastLeft? past seat ≠ some id)
    {later : List Event} (run : Run (Steadfast seat partitioner share) (later ++ past)) :
    id ∈ servedTo (later ++ past) seat ∧ lastLeft? (later ++ past) seat ≠ some id ∧
      ∀ e ∈ later, e.servedTo? seat ≠ some id := by
  induction later with
  | nil => exact ⟨handed, other, fun _ mem => by cases mem⟩
  | cons e later ih =>
      obtain ⟨kept, still, none⟩ := ih (Run.cons_iff.1 run).1
      have leaves : e.leaves? seat ≠ some id := by
        intro left
        rcases leaves_cases run left with same | unserved
        · exact still same
        · exact unserved kept
      refine ⟨?_, ?_, ?_⟩
      · cases served : e.servedTo? seat with
        | none => rwa [List.cons_append, servedTo_cons_of_none served]
        | some first =>
            rw [List.cons_append, servedTo_cons_of_some served]
            exact List.mem_cons_of_mem first kept
      · cases left : e.leaves? seat with
        | none => rwa [List.cons_append, lastLeft?_cons_of_none left]
        | some first =>
            rw [List.cons_append, lastLeft?_cons_of_some left]
            exact fun same => leaves (left.trans same)
      · intro f mem
        rcases List.mem_cons.1 mem with rfl | mem
        · intro served
          exact leaves (by simp [Event.leaves?, served])
        · exact none f mem

private theorem shown_of_known (stored : Stored seat.queue past (storageAfter past).table)
    {entry : Entry} {v : Version} {s : Snapshot} (follows : Follows past seat s)
    (known : Known past seat v) (appended : Enqueued past ⟨seat.queue, id⟩ entry v) :
    id ≠ noEntry ∧ ShownAt past ⟨seat.queue, id⟩ (s.sees ·) := by
  refine ⟨?_, v, follows.sees known, .inl ⟨entry, appended⟩⟩
  rintro rfl
  exact absurd (stored.allocated _ _ _ appended).2.1 (Nat.lt_irrefl _)

private theorem disjoint_serves_last (run : Run (Steadfast seat .hash share) (e :: past))
    (own : e.call.seat? = some seat) {c : Consumer} {config : Config} {cursor : Cursor} {s : Snapshot}
    (asked : e.call.request = .dequeue c config cursor s) (unloaded : cursor.loaded = false)
    (out : id ∈ outstanding seat past) (valid : ∀ v, ¬ Invalidated past ⟨seat.queue, id⟩ v)
    (last : lastLeft? past seat = some id) : e.servedTo? seat = some id := by
  have stored := Stored.of_run (steady_run (Run.cons_iff.1 run).1).sound
  have unretired {known : Version → Prop} : ¬ RetiredAt past ⟨seat.queue, id⟩ known :=
    fun ⟨v, _, retired⟩ => valid v retired
  obtain ⟨a, r, delivery, k, w, a', r', rest, h, follows, _, delivers, ends, _⟩ :=
    Progress.turn_of_run (disjoint_run run) own asked
  obtain rfl : a = id := (h.last_active id (h.left.symm.trans last) out).resolve_right unretired
  obtain ⟨entry, v, known, appended, _⟩ := h.served_own a (mem_servedTo_of_outstanding out)
  obtain ⟨some, shown⟩ := shown_of_known stored follows known appended
  have here : ¬ Gone seat.queue past s a := by
    rintro (none | retired | unseen)
    · exact some none
    · exact unretired retired
    · exact unseen shown
  cases ends with
  | again _ _ _ _ => exact delivers.servedTo?
  | cached loaded _ => simp [unloaded] at loaded
  | fetched gone _ _ => exact absurd (gone unloaded) here
  | nothing gone _ _ => exact absurd (gone unloaded) here

private theorem shared_serves_last (run : Run (Steadfast seat .roundRobin share) (e :: past))
    (own : e.call.seat? = some seat) {c : Consumer} {config : Config} {cursor : Cursor} {s : Snapshot}
    (asked : e.call.request = .dequeue c config cursor s) (unloaded : cursor.loaded = false)
    (out : id ∈ outstanding seat past) (valid : ∀ v, ¬ Invalidated past ⟨seat.queue, id⟩ v)
    (last : lastLeft? past seat = some id) : e.servedTo? seat = some id := by
  have stored := Stored.of_run (steady_run (Run.cons_iff.1 run).1).sound
  have unretired {known : Version → Prop} : ¬ RetiredAt past ⟨seat.queue, id⟩ known :=
    fun ⟨v, _, retired⟩ => valid v retired
  obtain ⟨a, r, delivery, k, a', r', h, follows, _, delivers, ends, _⟩ :=
    Holding.turn_of_run (shared_run run) own asked
  obtain rfl : a = id := (h.left_active id last out).resolve_right unretired
  obtain ⟨entry, v, known, appended⟩ := h.served_known a (mem_servedTo_of_outstanding out)
  obtain ⟨some, shown⟩ := shown_of_known stored follows known appended
  have here {a₀ : EntryId} {p₀ : Option EntryId} :
      ¬ SharedStart seat.queue past s a cursor a₀ p₀ := by
    intro begins
    cases begins with
    | kept loaded => simp [unloaded] at loaded
    | idle _ none => exact some none
    | waiting _ _ unseen => exact unseen shown
    | cleared _ _ retired => exact unretired retired
  generalize e.after.table.standing seat.groupRow = group' at ends
  generalize k.pending = pending at ends
  cases ends with
  | again _ _ _ _ => exact delivers.servedTo?
  | fetched begins _ _ _ => exact absurd begins here
  | waiting begins _ _ => exact absurd begins here
  | caughtUp begins _ _ => exact absurd begins here

private theorem serves_last (run : Run (Steadfast seat partitioner share) (e :: past))
    (own : e.call.seat? = some seat) {c : Consumer} {config : Config} {cursor : Cursor} {s : Snapshot}
    (asked : e.call.request = .dequeue c config cursor s) (unloaded : cursor.loaded = false)
    (out : id ∈ outstanding seat past) (valid : ∀ v, ¬ Invalidated past ⟨seat.queue, id⟩ v)
    (last : lastLeft? past seat = some id) : e.servedTo? seat = some id := by
  cases partitioner with
  | hash => exact disjoint_serves_last run own asked unloaded out valid last
  | roundRobin => exact shared_serves_last run own asked unloaded out valid last

/-- After a reload an entry that was handed out and is neither acknowledged nor retired is handed out
again, and at once, if it is what the consumer was left with last; and never if it is not. -/
theorem reload_serves_last_left (run : Run (Steadfast seat partitioner share) past)
    (out : id ∈ outstanding seat past) (valid : ∀ v, ¬ Invalidated past ⟨seat.queue, id⟩ v) :
    (lastLeft? past seat = some id → ∀ call c config cursor s,
      Steadfast seat partitioner share past call → call.seat? = some seat →
      call.request = .dequeue c config cursor s → cursor.loaded = false →
      Event.servedTo? ⟨call, storageAfter past⟩ seat = some id) ∧
    (lastLeft? past seat ≠ some id → ∀ later,
      Run (Steadfast seat partitioner share) (later ++ past) →
      ∀ e ∈ later, e.servedTo? seat ≠ some id) := by
  constructor
  · intro last call c config cursor s fits own asked unloaded
    exact serves_last (.next run fits) own asked unloaded out valid last
  · intro other later further
    exact (never_again (mem_servedTo_of_outstanding out) other further).2.2

/-- A consumer is handed two entries with the cursor that it keeps, loses the cursor, acknowledges what
it is handed again, and asks once more. -/
def crashCalls : List Call :=
  let queue : Queue := ⟨"q", ⟨.roundRobin, 20⟩⟩
  let worker : Consumer := { group := 1, member := 0, groupSize := 1 }
  let left : Cursor := { loaded := true, active := some 1, readPointer := 1, writePointer := 2 }
  [⟨queue, .dequeue worker ⟨.roundRobin, 20⟩ .fresh (.upTo 10), .none⟩,
    ⟨queue, .ack ⟨"q", 2⟩ worker (.upTo 10), .none⟩,
    ⟨queue, .dequeue worker ⟨.roundRobin, 20⟩ .fresh (.upTo 10), .none⟩,
    ⟨queue, .dequeue worker ⟨.roundRobin, 20⟩ left (.upTo 10), .none⟩,
    ⟨queue, .dequeue worker ⟨.roundRobin, 20⟩ .fresh (.upTo 10), .none⟩,
    ⟨queue, .enqueue ⟨[98], {}⟩ 2, .none⟩, ⟨queue, .enqueue ⟨[97], {}⟩ 1, .none⟩]

private theorem crash_fits {n : Nat} {cursor : Cursor}
    (may : MayPass (replay (crashCalls.drop n)) ⟨"q", 1, 0⟩ cursor) :
    Steadfast ⟨"q", 1, 0⟩ .roundRobin ⟨"", 1, 0⟩ (replay (crashCalls.drop n))
      ⟨⟨"q", ⟨.roundRobin, 20⟩⟩, .dequeue { group := 1, member := 0, groupSize := 1 }
        ⟨.roundRobin, 20⟩ cursor (.upTo 10), .none⟩ := by
  refine ⟨⟨⟨rfl, .inr rfl⟩, fun _ => ⟨⟨rfl, fun hash => by cases hash⟩, rfl, rfl, may, ?_⟩⟩,
    fun _ p c s asked => by cases asked⟩
  refine follows_replay (by decide) fun call mem => ?_
  have all : ∀ call ∈ crashCalls, ∀ s, call.request.snapshot? = some s → s = .upTo 10 := by
    simp [crashCalls, Request.snapshot?]
  exact all call (List.mem_of_mem_drop mem)

private theorem crash_run : Run (Steadfast ⟨"q", 1, 0⟩ .roundRobin ⟨"", 1, 0⟩)
    (replay (crashCalls.drop 3)) := by
  refine .replay_cons (.replay_cons (.replay_cons (.replay_cons .start ?_) ?_) ?_) ?_
  · exact ⟨⟨⟨rfl, .inr rfl⟩, fun own => by cases own⟩, fun own => by cases own⟩
  · exact ⟨⟨⟨rfl, .inr rfl⟩, fun own => by cases own⟩, fun own => by cases own⟩
  · exact @crash_fits 5 _ (.inl rfl)
  · exact @crash_fits 4 _ (.inr (by with_unfolding_all decide))

private theorem crash_run_on : Run (Steadfast ⟨"q", 1, 0⟩ .roundRobin ⟨"", 1, 0⟩)
    (replay crashCalls) := by
  refine .replay_cons (.replay_cons (.replay_cons crash_run ?_) ?_) ?_
  · exact @crash_fits 3 _ (.inl rfl)
  · refine ⟨⟨⟨rfl, .inr rfl⟩, fun _ => follows_replay (by decide) ?_⟩, fun _ p c s asked => ?_⟩
    · simp [Request.snapshot?]
    · cases asked
      with_unfolding_all decide
  · exact @crash_fits 1 _ (.inl rfl)

/-- In that run the second entry is handed out again at once.  The first is not acknowledged either,
but is never handed out again, and the last request finds nothing. -/
theorem crash_serves_last_left :
    (∃ e rest, replay (crashCalls.drop 2) = e :: rest ∧ e.servedTo? ⟨"q", 1, 0⟩ = some 2) ∧
      1 ∈ outstanding ⟨"q", 1, 0⟩ (replay crashCalls) ∧
      (∀ e ∈ (replay crashCalls).take 3, e.servedTo? ⟨"q", 1, 0⟩ ≠ some 1) ∧
      ∃ e rest, replay crashCalls = e :: rest ∧ e.FindsNothing ⟨"q", 1, 0⟩ := by
  have valid (id : EntryId) (v : Version) :
      ¬ Invalidated (replay (crashCalls.drop 3)) ⟨"q", id⟩ v :=
    not_invalidated_replay (by simp [crashCalls]) v
  have first := reload_serves_last_left crash_run (by with_unfolding_all decide) (valid 1)
  have second := reload_serves_last_left crash_run (by with_unfolding_all decide) (valid 2)
  refine ⟨⟨_, _, rfl, ?_⟩, by with_unfolding_all decide, ?_,
    ⟨_, _, rfl, rfl, by with_unfolding_all decide⟩⟩
  · exact second.1 (by with_unfolding_all decide) _ _ _ _ _ (@crash_fits 3 _ (.inl rfl)) rfl rfl
      rfl
  · exact first.2 (by with_unfolding_all decide) _ crash_run_on

end Steadfast

end VersionedQueue
