import VersionedQueue.Proofs.Entries.Log

/-!
# How a retired entry becomes valid again

Where all calls are made with the timestamps that a clock hands out one after the other, the newest mark of
an entry is the last one made.  An id that reads as retired reads as valid later if and only if
an append took the id in between and the entry was not retired since: an append does not look at the
row that it writes, and an id may be retired before it is taken.  Once an id was taken, it stays retired.
-/

set_option autoImplicit false
set_option relaxedAutoImplicit false

namespace VersionedQueue

/-- The timestamp of a request: the version that it writes at, or the highest one that it reads. -/
def Request.stamp? : Request → Option UInt64
  | enqueue _ v | invalidate _ v => some v
  | dequeue _ _ _ s | ack _ _ s | unack _ _ s => some s.maximum
  | allocateGroupId | info => none

/-- A request is made with the next timestamp of a clock. -/
def Request.TimedBy (clock : Clock) : Request → Prop
  | enqueue _ v | invalidate _ v => v = clock.tick.1
  | dequeue _ _ _ s | ack _ _ s | unack _ _ s => s = clock.snapshot.1
  | allocateGroupId | info => True

/-- The clock has handed out all timestamps of a run. -/
def Clock.Covers (clock : Clock) (past : List Event) : Prop :=
  ∀ e ∈ past, ∀ v, e.call.request.stamp? = some v → v ≤ clock.last

/-- All calls go to queues that can be opened, each with the next timestamp after those of its past; any
of them may fail. -/
def Timed (past : List Event) (call : Call) : Prop :=
  call.queue.Opens ∧ ∃ clock : Clock, clock.Covers past ∧ call.request.TimedBy clock

theorem Clock.last_le_tick (clock : Clock) : clock.last ≤ clock.tick.1 := by
  rw [UInt64.le_iff_toNat_le]
  have below := clock.last.toNat_lt
  simp only [tick, Saturating.toNat_add, UInt64.size]
  omega

theorem Run.opened {past : List Event} (run : Run Timed past) : Run Opened past :=
  run.mono fun _ _ _ timed => timed.1

section Order

variable {s : Snapshot} {log : EntryLog} {past : List Event} {p : Pointer} {clock : Clock}

/-- In a log whose versions only go up the last mark is the newest. -/
theorem EntryLog.newest?_eq_head? (ordered : log.Pairwise fun a b => b.1 ≤ a.1)
    (seen : ∀ w ∈ log, s.sees w.1 = true) : log.newest? s = log.head? := by
  induction log with
  | nil => rfl
  | cons mark older ih =>
      obtain ⟨above, rest⟩ := List.pairwise_cons.1 ordered
      obtain ⟨sees, others⟩ := List.forall_mem_cons.1 seen
      cases older with
      | nil => simp [newest?, sees]
      | cons top _ =>
          have below : top.1 ≤ mark.1 := above top List.mem_cons_self
          rw [newest?, ih rest others]
          simp [sees, below]

theorem Event.stamp_of_mark {e : Event} {mark : Version × Mark} (marked : e.mark? p = some mark) :
    e.call.request.stamp? = some mark.1 ∧
      ∀ clock, e.call.request.TimedBy clock → mark.1 = clock.tick.1 := by
  cases asked : e.call.request using Request.producer_cases with
  | enqueue entry v =>
      simp only [mark?, asked] at marked
      split at marked
      · cases marked
        exact ⟨rfl, fun _ timed => timed⟩
      · cases marked
  | invalidate p' v =>
      simp only [mark?, asked] at marked
      split at marked
      · cases marked
        exact ⟨rfl, fun _ timed => timed⟩
      · cases marked
  | aside request quiet keeps =>
      rw [← asked] at quiet keeps
      cases (mark?_of_aside quiet keeps).symm.trans marked

theorem Clock.Covers.le_tick (covers : clock.Covers past) {w : Version × Mark}
    (mem : w ∈ entryLog past p) : w.1 ≤ clock.tick.1 := by
  obtain ⟨e, before, marked⟩ := List.mem_filterMap.1 mem
  exact UInt64.le_trans (covers e before w.1 (Event.stamp_of_mark marked).1) clock.last_le_tick

theorem Clock.Covers.of_replay {calls : List Call}
    (last : ∀ call ∈ calls, ∀ v, call.request.stamp? = some v → v ≤ clock.last) :
    clock.Covers (replay calls) := fun e mem => last e.call (call_mem_of_mem_replay mem)

theorem entryLog_ordered (run : Run Timed past) (p : Pointer) :
    (entryLog past p).Pairwise fun a b => b.1 ≤ a.1 := by
  induction run with
  | start => exact .nil
  | @next past call earlier timed ih =>
      obtain ⟨_, clock, covers, now⟩ := timed
      cases marked : Event.mark? ⟨call, storageAfter past⟩ p with
      | none => rwa [entryLog_cons_of_none marked]
      | some mark =>
          rw [entryLog_cons_of_some marked]
          -- The clock of this call has handed out all earlier timestamps, so this mark is the newest.
          refine List.pairwise_cons.2 ⟨fun w mem => ?_, ih⟩
          rw [(Event.stamp_of_mark marked).2 clock now]
          exact covers.le_tick mem

theorem newest?_of_covers (run : Run Timed past) (covers : clock.Covers past) (p : Pointer) :
    (entryLog past p).newest? clock.snapshot.1 = (entryLog past p).head? :=
  EntryLog.newest?_eq_head? (entryLog_ordered run p) fun w mem => by
    have below := covers.le_tick mem
    simp [Clock.snapshot, Snapshot.sees, Snapshot.upTo, below]

end Order

/-- After a run the state of an entry reads as given under a snapshot. -/
def ReadsState (past : List Event) (q : Queue) (id : EntryId) (s : Snapshot) (state : EntryState) : Prop :=
  ∃ st', q.readState id s (storageAfter past).repair = .ok (some state) st'

theorem readsState_iff {past : List Event} {q : Queue} {id : EntryId} {s : Snapshot} {state : EntryState}
    (run : Run Opened past) (opens : q.Opens) :
    ReadsState past q id s state ↔
      ((entryLog past ⟨q.name, id⟩).newest? s).map (·.2.state) = some state := by
  have shown := (logged_of_run run opens.shortName (p := ⟨q.name, id⟩)).shown_state s
  have read : Answers (q.readState id s) (storageAfter past).repair fun found _ =>
      found = ((entryLog past ⟨q.name, id⟩).newest? s).map (·.2.state) := by
    unfold Queue.readState
    refine (q.answers_view_of_calm .readEntryState s rfl).bind ?_
    rintro view st' ⟨rfl, _⟩
    change q.shows (storageAfter past).repair.table s (.entry id) .state = _ at shown
    rw [shown]
    cases (entryLog past ⟨q.name, id⟩).newest? s with
    | none => exact Answers.pure rfl
    | some mark =>
        have decoded : q.decodeState id mark.2.state.encode = .ok mark.2.state := by
          simp [Queue.decodeState]
        simp only [Option.map_some, decoded]
        exact Answers.pure rfl
  obtain ⟨found, st', done, rfl⟩ := read
  rw [ReadsState, done]
  constructor
  · rintro ⟨_, same⟩
    exact (EStateM.Result.ok.inj same).1
  · exact fun same => ⟨st', by rw [same]⟩

section Revival

variable {past newer : List Event} {q : Queue} {id : EntryId} {clock clock' : Clock}

private theorem last_appended_iff {p : Pointer} :
    (∃ v entry, (entryLog newer p).head? = some (v, .appended entry)) ↔
      ∃ after e before entry v, newer = after ++ e :: before ∧ e.Appends p entry v ∧
        ∀ f ∈ after, ∀ v, f.mark? p ≠ some (v, .retired) := by
  constructor
  · rintro ⟨v, entry, last⟩
    obtain ⟨rest, split⟩ := List.head?_eq_some_iff.1 last
    obtain ⟨after, e, before, rfl, unmarked, marked, _⟩ := List.filterMap_eq_cons_iff.1 split
    refine ⟨after, e, before, entry, v, rfl, Event.mark?_eq_appended.1 marked, fun f mem w => ?_⟩
    rw [unmarked f mem]
    nofun
  · rintro ⟨after, e, before, entry, v, rfl, appends, openSince⟩
    rw [entryLog_append, entryLog_cons_of_some (Event.mark?_of_appends appends)]
    cases since : entryLog after p with
    | nil => exact ⟨v, entry, rfl⟩
    | cons mark rest =>
        obtain ⟨w, mark⟩ := mark
        have mem : (w, mark) ∈ entryLog after p := since ▸ List.mem_cons_self
        obtain ⟨f, made, marked⟩ := List.mem_filterMap.1 mem
        cases mark with
        | appended entry' => exact ⟨w, entry', rfl⟩
        | retired => exact absurd marked (openSince f made w)

/-- An entry reads as retired under a fresh snapshot.  Under a later one it reads as valid if and only
if its id was taken by an append meanwhile and the entry was not marked as retired since.  If the id
was taken before, it still reads as retired. -/
theorem revived_iff_appended (run : Run Timed (newer ++ past)) (opens : q.Opens)
    (now : clock.Covers past) (later : clock'.Covers (newer ++ past))
    (retired : ReadsState past q id clock.snapshot.1 .invalid) :
    (ReadsState (newer ++ past) q id clock'.snapshot.1 .valid ↔
      ∃ after e before entry v, newer = after ++ e :: before ∧ e.Appends ⟨q.name, id⟩ entry v ∧
        ∀ f ∈ after, ∀ v, f.mark? ⟨q.name, id⟩ ≠ some (v, .retired)) ∧
    ((id.toNat : Int) ≤ (storageAfter past).table.standing (RowKey.entryCounter.encode q.name) →
      ReadsState (newer ++ past) q id clock'.snapshot.1 .invalid) := by
  have before : Run Timed past := run.of_suffix (List.suffix_append _ _)
  have reads (state : EntryState) : ReadsState (newer ++ past) q id clock'.snapshot.1 state ↔
      ((entryLog newer ⟨q.name, id⟩ ++ entryLog past ⟨q.name, id⟩).head?).map (·.2.state) =
        some state := by
    rw [readsState_iff run.opened opens, newest?_of_covers run later, entryLog_append]
  rw [readsState_iff before.opened opens, newest?_of_covers before now] at retired
  rw [← last_appended_iff, reads, reads, List.head?_append]
  cases last : (entryLog newer ⟨q.name, id⟩).head? with
  | none => simp [retired]
  | some mark =>
      obtain ⟨v, mark⟩ := mark
      cases mark with
      | retired => simp [Mark.state]
      | appended entry =>
          refine ⟨by simp [Mark.state], fun taken => ?_⟩
          exact absurd (enqueued_iff_logged.2 (List.mem_of_mem_head? last))
            (not_enqueued_again run.opened (p := ⟨q.name, id⟩) taken)

/-- An id is retired before it is taken. -/
def unborn : List Call := [⟨⟨"q", ⟨.hash, 20⟩⟩, .invalidate ⟨"q", 1⟩ 1, .none⟩]

/-- Then an entry is appended under it. -/
def preempted : List Call := ⟨⟨"q", ⟨.hash, 20⟩⟩, .enqueue ⟨[97], {}⟩ 3, .none⟩ :: unborn

private theorem unborn_run : Run Timed (replay unborn) := by
  have opens : Queue.Opens ⟨"q", ⟨.hash, 20⟩⟩ := rfl
  have first : (1 : UInt64) = (⟨0⟩ : Clock).tick.1 := by decide
  exact .replay_cons .start ⟨opens, ⟨0⟩, .of_replay (by simp), first⟩

private theorem preempted_run : Run Timed (replay preempted) := by
  have opens : Queue.Opens ⟨"q", ⟨.hash, 20⟩⟩ := rfl
  have second : (3 : UInt64) = (⟨2⟩ : Clock).tick.1 := by decide
  exact .replay_cons unborn_run
    ⟨opens, ⟨2⟩, .of_replay (by simp [unborn, Request.stamp?]), second⟩

/-- The id reads as retired under the snapshot in between, and as valid under one that is taken
afterwards. -/
theorem preempted_revived :
    ReadsState (replay unborn) ⟨"q", ⟨.hash, 20⟩⟩ 1 (.upTo 2) .invalid ∧
      ReadsState (replay preempted) ⟨"q", ⟨.hash, 20⟩⟩ 1 (.upTo 4) .valid := by
  have opens : Queue.Opens ⟨"q", ⟨.hash, 20⟩⟩ := rfl
  have retired : ReadsState (replay unborn) ⟨"q", ⟨.hash, 20⟩⟩ 1 (.upTo 2) .invalid := by
    rw [readsState_iff unborn_run.opened opens]
    with_unfolding_all decide
  have now : (⟨1⟩ : Clock).snapshot.1 = .upTo 2 := congrArg Snapshot.upTo (by decide)
  have later : (⟨3⟩ : Clock).snapshot.1 = .upTo 4 := congrArg Snapshot.upTo (by decide)
  rw [← now] at retired ⊢
  rw [← later]
  obtain ⟨revives, _⟩ := @revived_iff_appended (replay unborn) [⟨_, _⟩] _ _ ⟨1⟩ ⟨3⟩ preempted_run opens
    (.of_replay (by simp [unborn, Request.stamp?]))
    (@Clock.Covers.of_replay _ preempted (by simp [preempted, unborn, Request.stamp?])) retired
  have appended : Event.appended? ⟨⟨⟨"q", ⟨.hash, 20⟩⟩, .enqueue ⟨[97], {}⟩ 3, .none⟩,
      storageAfter (replay unborn)⟩ = some ⟨"q", 1⟩ := by with_unfolding_all decide
  exact ⟨retired, revives.2 ⟨[], _, [], _, _, rfl, ⟨rfl, appended⟩, by simp⟩⟩

end Revival

end VersionedQueue
