import VersionedQueue.Proofs.Delivery.Sources
import VersionedQueue.Proofs.Entries.Log

/-!
# Payloads are handed out as they were appended

An entry that is handed out was shown to the request itself, or to the earlier request that fetched
it: a cursor may be kept, copied or thrown away, but what is in its cache was fetched once.  What was
shown is the payload of an append that was answered, and that append took the id of the entry from its
own queue, which nothing else did.  This holds under any snapshots, and whichever calls fail.
-/

set_option autoImplicit false
set_option relaxedAutoImplicit false

namespace VersionedQueue

/-- The log of an entry shows it to a snapshot with the payload that a cache holds. -/
def LogShows (past : List Event) (queue : String) (s : Snapshot) (entry : CachedEntry) : Prop :=
  (entryLog past ⟨queue, entry.id⟩).sighting s = .servable entry.payload

/-- The entry was fetched by an earlier request for a disjoint group of the queue, whose snapshot was
shown it. -/
def CachedEntry.Fetched (past : List Event) (queue : String) (entry : CachedEntry) : Prop :=
  ∃ d earlier c config cursor s, d :: earlier <:+ past ∧ d.call.queue.name = queue ∧
    d.call.request = .dequeue c config cursor s ∧ config.partitioner = .hash ∧
      LogShows earlier queue s entry

/-- All calls go to queues that can be opened, and a request is passed a cursor that was never loaded or
any that an earlier request to the same queue has left; any call may fail. -/
def Retaining (past : List Event) (call : Call) : Prop :=
  call.queue.Opens ∧ ∀ c config cursor s, call.request = .dequeue c config cursor s →
    cursor.loaded = false ∨
      ∃ e ∈ past, ∃ seat : Seat, seat.queue = call.queue.name ∧ e.cursorOf? seat = some cursor

theorem CachedEntry.Fetched.mono {past later : List Event} {queue : String} {entry : CachedEntry}
    (h : entry.Fetched past queue) (part : past <:+ later) : entry.Fetched later queue := by
  obtain ⟨d, earlier, c, config, cursor, s, before, rest⟩ := h
  exact ⟨d, earlier, c, config, cursor, s, before.trans part, rest⟩

theorem Retaining.of_other {past : List Event} {call : Call} (opens : call.queue.Opens)
    (other : call.request.isDequeue = false) : Retaining past call := by
  refine ⟨opens, fun c config cursor s asked => ?_⟩
  rw [asked] at other
  cases other

theorem Run.opened_of_retaining {past : List Event} (run : Run Retaining past) : Run Opened past :=
  run.mono fun _ _ _ retaining => retaining.1

section Appended

variable {past : List Event} {p : Pointer} {entry : Entry} {v : Version} {s : Snapshot}

theorem enqueued_of_sighting {payload : Bytes}
    (shown : (entryLog past p).sighting s = .servable payload) :
    ∃ entry v, s.sees v = true ∧ Enqueued past p entry v ∧ payload = entry.payload := by
  unfold EntryLog.sighting at shown
  cases newest : (entryLog past p).newest? s with
  | none => simp [newest] at shown
  | some top =>
      obtain ⟨v, mark⟩ := top
      cases mark with
      | retired => simp [newest, Mark.sighting] at shown
      | appended entry =>
          obtain ⟨seen, last, _⟩ := EntryLog.newest?_spec newest
          simp only [newest, Mark.sighting, Sighting.servable.injEq] at shown
          exact ⟨entry, v, seen, enqueued_iff_logged.2 (EntryLog.mem_of_lookup last), shown.symm⟩

theorem Enqueued.only {allowed : List Event → Call → Prop} (appended : Enqueued past p entry v)
    (run : Run allowed past) :
    ∃ d, past.filter (fun f => f.allocates? p.queue = some p.id) = [d] ∧ d.Appends p entry v := by
  obtain ⟨d, mem, appends, takes⟩ := appended.takes run
  exact ⟨d, only_allocation run mem takes, appends⟩

end Appended

namespace Event

variable {past : List Event} {e : Event} {c : Consumer} {config : Config} {cursor : Cursor}
  {s : Snapshot}

theorem delivered_iff (asked : e.call.request = .dequeue c config cursor s) {d : Delivery} :
    e.delivery? = some d ↔
      ∃ u, e.call.queue.dequeue c config s ⟨{ e.before with plan := e.call.plan }, cursor⟩ = .ok d u := by
  rw [delivery?, outcome_of_dequeue asked]
  cases e.call.queue.dequeue c config s ⟨{ e.before with plan := e.call.plan }, cursor⟩ <;>
    simp [Outcome.ofTurn]

/-- A request leaves and hands out what it was passed, and what the logs show to its snapshot. -/
theorem sources (run : Run Opened past) (opens : e.call.queue.Opens) (found : e.before = storageAfter past)
    (asked : e.call.request = .dequeue c config cursor s) :
    LeavesFrom config (LogShows past e.call.queue.name s) cursor e.outcome.cursor ∧
      ∀ d, e.delivery? = some d →
        ServesFrom e.call.queue.name (LogShows past e.call.queue.name s) cursor d := by
  have shown : e.call.queue.Shown s (LogShows past e.call.queue.name s) e.before.table := by
    intro entry shown
    rw [found] at shown
    have logged := (logged_of_run run opens.shortName (p := ⟨e.call.queue.name, entry.id⟩)).sight s
    exact Except.ok.inj (logged.symm.trans shown)
  have ends := @Queue.sources_of_dequeue e.call.queue c config s _
    ⟨{ e.before with plan := e.call.plan }, cursor⟩ shown
  constructor
  · rw [outcome_of_dequeue asked]
    cases done : e.call.queue.dequeue c config s ⟨{ e.before with plan := e.call.plan }, cursor⟩ with
    | ok answer u => exact (ends.of_ok done).1
    | error err u => exact ends.of_error done
  · intro d delivered
    obtain ⟨u, done⟩ := (delivered_iff asked).1 delivered
    exact (ends.of_ok done).2

end Event

/-- What any request of a run has left in a cursor was fetched. -/
def LeftFetched (past : List Event) : Prop :=
  ∀ e ∈ past, ∀ seat k, e.cursorOf? seat = some k → ∀ entry ∈ k.passed, entry.Fetched past seat.queue

section Run

variable {past : List Event}

theorem LeftFetched.passed {call : Call} {c : Consumer} {config : Config} {cursor : Cursor}
    {s : Snapshot} (left : LeftFetched past) (retaining : Retaining past call)
    (asked : call.request = .dequeue c config cursor s) :
    ∀ entry ∈ cursor.passed, entry.Fetched past call.queue.name := by
  intro entry mem
  rcases retaining.2 c config cursor s asked with unloaded | ⟨e, before, seat, here, kept⟩
  · rw [Cursor.passed_of_unloaded unloaded] at mem
    cases mem
  · exact here ▸ left e before seat cursor kept entry mem

theorem LeftFetched.next {call : Call} (left : LeftFetched past) (run : Run Opened past)
    (retaining : Retaining past call) : LeftFetched (⟨call, storageAfter past⟩ :: past) := by
  have part : past <:+ ⟨call, storageAfter past⟩ :: past := List.suffix_cons _ _
  intro e mem seat k kept entry within
  rcases List.mem_cons.1 mem with rfl | before
  · obtain ⟨own, c, config, cursor, s, asked⟩ := Event.dequeue_of_cursorOf? kept
    obtain rfl := Option.some.inj ((Event.cursorOf?_of_dequeue own asked).symm.trans kept)
    have here : seat.queue = call.queue.name := by
      rw [← Call.seat_eq own (by rw [asked]; rfl : _ = some c)]
      rfl
    obtain ⟨leaves, _⟩ := Event.sources (e := ⟨call, storageAfter past⟩) run retaining.1 rfl asked
    rcases leaves entry within with passed | ⟨disjoint, shown⟩
    · exact here ▸ (left.passed retaining asked entry passed).mono part
    · -- The request fetched it now, and its past stays a part of every later run.
      exact ⟨_, past, c, config, cursor, s, List.suffix_refl _, here.symm, asked, disjoint,
        here ▸ shown⟩
  · exact (left e before seat k kept entry within).mono part

theorem leftFetched_of_run (run : Run Retaining past) : LeftFetched past := by
  induction run with
  | start => exact fun e mem => absurd mem List.not_mem_nil
  | next earlier retaining ih => exact ih.next earlier.opened_of_retaining retaining

/-- What is handed out was appended before, by an append that was answered. -/
theorem enqueued_of_delivery {e : Event} {p : Pointer} {x : Entry} (run : Run Retaining (e :: past))
    (served : e.delivery? = some (.served p x)) :
    p.queue = e.call.queue.name ∧
      ∃ entry v, Enqueued past p entry v ∧ x = ⟨entry.payload, {}⟩ := by
  obtain ⟨earlier, retaining, found⟩ := Run.cons_iff.1 run
  obtain ⟨c, config, cursor, s, asked⟩ := Event.exists_dequeue served
  obtain ⟨_, serves⟩ := Event.sources earlier.opened_of_retaining retaining.1 found asked
  obtain ⟨entry, rfl, rfl, next | ⟨_, shown⟩⟩ := serves _ served p x rfl
  · obtain ⟨_, before, _, _, _, _, part, _, _, _, shown⟩ :=
      (leftFetched_of_run earlier).passed retaining asked entry (List.mem_of_mem_head? next)
    obtain ⟨appended, v, _, enqueued, payload⟩ := enqueued_of_sighting shown
    exact ⟨rfl, appended, v, enqueued.mono ((List.suffix_cons _ before).trans part), by rw [payload]⟩
  · obtain ⟨appended, v, _, enqueued, payload⟩ := enqueued_of_sighting shown
    exact ⟨rfl, appended, v, enqueued, by rw [payload]⟩

/-- Whatever is handed out names its own queue, and is exactly the payload of the one append that took
its id from that queue.  Snapshots may see any versions, calls may fail, and cursors may be kept, copied
and thrown away. -/
theorem payload_intact {e : Event} {p : Pointer} {x : Entry} (run : Run Retaining (e :: past))
    (served : e.delivery? = some (.served p x)) :
    p.queue = e.call.queue.name ∧ ∃ d entry v,
      past.filter (fun f => f.allocates? p.queue = some p.id) = [d] ∧ d.Appends p entry v ∧
        x = ⟨entry.payload, {}⟩ := by
  obtain ⟨here, entry, v, enqueued, same⟩ := enqueued_of_delivery run served
  obtain ⟨d, only, appends⟩ := enqueued.only (Run.cons_iff.1 run).1
  exact ⟨here, d, entry, v, only, appends, same⟩

end Run

/-- The cursor that a member is left with after it was handed the first of two entries. -/
def secondLeft : Cursor :=
  { loaded := true, active := some 1, readPointer := 1, writePointer := 3, cache := ⟨[⟨2, [98]⟩]⟩ }

/-- A member asks for an entry. -/
def asking (cursor : Cursor) (plan : FaultPlan) : Call :=
  ⟨⟨"q", ⟨.hash, 20⟩⟩, .dequeue { group := 1, member := 0, groupSize := 1, partitioningKey := some "k" }
    ⟨.hash, 20⟩ cursor (.upTo 10), plan⟩

/-- Two queues have an entry with the id one, and an append fails after it took an id. -/
def stocked : List Call :=
  let short : Queue := ⟨"q", ⟨.hash, 20⟩⟩
  let keyed (payload : UInt8) : Entry := ⟨[payload], Std.TreeMap.ofList [("k", (0 : Int32))]⟩
  [⟨short, .enqueue (keyed 100) 3, fun kind _ => kind == .put⟩, ⟨short, .enqueue (keyed 98) 2, .none⟩,
    ⟨⟨"qq", ⟨.hash, 20⟩⟩, .enqueue (keyed 99) 1, .none⟩, ⟨short, .enqueue (keyed 97) 1, .none⟩]

/-- The member is handed the first entry, and passes a copy of its cursor while the storage fails. -/
def copied : List Call :=
  asking secondLeft (fun kind _ => kind == .put) :: asking .fresh .none :: stocked

theorem left_second :
    Event.cursorOf? ⟨asking .fresh .none, storageAfter (replay stocked)⟩ ⟨"q", 1, 0⟩ =
      some secondLeft := by with_unfolding_all decide

theorem asked_run : Run Retaining (replay (asking .fresh .none :: stocked)) := by
  have short : Queue.Opens ⟨"q", ⟨.hash, 20⟩⟩ := rfl
  have long : Queue.Opens ⟨"qq", ⟨.hash, 20⟩⟩ := rfl
  refine .replay_cons (.replay_cons (.replay_cons (.replay_cons (.replay_cons .start
    (.of_other short rfl)) (.of_other long rfl)) (.of_other short rfl)) (.of_other short rfl)) ⟨short, ?_⟩
  rintro _ _ _ _ ⟨⟩
  exact .inl rfl

private theorem copied_run : Run Retaining (replay (asking secondLeft .none :: copied)) := by
  have opens : Queue.Opens ⟨"q", ⟨.hash, 20⟩⟩ := rfl
  have first : ⟨asking .fresh .none, storageAfter (replay stocked)⟩ ∈
      replay (asking .fresh .none :: stocked) := List.mem_cons_self
  refine .replay_cons (.replay_cons asked_run ⟨opens, ?_⟩) ⟨opens, ?_⟩
  · rintro _ _ _ _ ⟨⟩
    exact .inr ⟨_, first, ⟨"q", 1, 0⟩, rfl, left_second⟩
  · rintro _ _ _ _ ⟨⟩
    exact .inr ⟨_, List.mem_cons_of_mem _ first, ⟨"q", 1, 0⟩, rfl, left_second⟩

/-- Then the member is handed the second entry, as the second append of its own queue had it. -/
theorem copied_intact :
    ∃ x, Event.delivery? ⟨asking secondLeft .none, storageAfter (replay copied)⟩ =
        some (.served ⟨"q", 2⟩ x) ∧ x.payload = [98] ∧
      ∃ d entry v, (replay copied).filter (fun f => f.allocates? "q" = some 2) = [d] ∧
        d.Appends ⟨"q", 2⟩ entry v ∧ x = ⟨entry.payload, {}⟩ := by
  have handed : (Event.delivery? ⟨asking secondLeft .none, storageAfter (replay copied)⟩).map
      (fun d => (d.pointer?, d.entry?.map (·.payload))) = some (some ⟨"q", 2⟩, some [98]) := by
    with_unfolding_all decide
  obtain ⟨delivery, served, same⟩ := Option.map_eq_some_iff.1 handed
  cases delivery with
  | empty => cases same
  | served p x =>
      obtain ⟨pointer, payload⟩ := Prod.mk.inj same
      obtain rfl : p = ⟨"q", 2⟩ := Option.some.inj pointer
      obtain ⟨_, intact⟩ := @payload_intact (replay copied)
        ⟨asking secondLeft .none, storageAfter (replay copied)⟩ ⟨"q", 2⟩ x copied_run served
      exact ⟨x, served, Option.some.inj payload, intact⟩

end VersionedQueue
