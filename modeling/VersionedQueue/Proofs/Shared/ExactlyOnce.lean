import VersionedQueue.Proofs.Run.Replay
import VersionedQueue.Proofs.Shared.Holding

/-!
# Exactly once in turn

A group whose members take ids from its pointer is handed every entry once.  No two members are handed
or hold a claim on the same entry, a member is handed ever higher ids, and when all members that ever
asked are told that there is nothing, every entry that they could see was handed to one of them.
-/

set_option autoImplicit false
set_option relaxedAutoImplicit false

namespace VersionedQueue

/-- The calls of a queue in which all members of one group share it in turn.  A member asks for an
entry only when it has acknowledged what it was handed, passes a cursor that was never loaded or the
one its last request left, and reads under snapshots that follow each other.  It may acknowledge what it
was handed or, where claims are checked, any entry, even one that it waits for.  Producers and other groups
do as they like. -/
def SharedGroup (queue : String) (group : GroupId) (past : List Event) (call : Call) : Prop :=
  Steady queue past call ∧
    call.request.Meets
      (fun c config cursor s => c.group = group →
        config.partitioner = .roundRobin ∧ config.validate = .ok () ∧
          c.validate config.partitioner = .ok () ∧ outstanding (call.queue.seat c) past = [] ∧
          MayPass past (call.queue.seat c) cursor ∧ Follows past (call.queue.seat c) s)
      (fun p c s => c.group = group →
        MayAck past (call.queue.seat c) (call.queue.configFor c) p.id ∧
          Follows past (call.queue.seat c) s)
      fun _ c _ => c.group ≠ group

/-- A consumer was told that there is nothing, under a snapshot that shows all ids up to a given one,
and nothing was appended since. -/
def Drained (past : List Event) (seat : Seat) (id : EntryId) : Prop :=
  ToldNothing past seat fun earlier s =>
    ∀ j, noEntry < j → j ≤ id → ShownAt earlier ⟨seat.queue, j⟩ (s.sees ·)

namespace SharedGroup

variable {queue : String} {group : GroupId} {past : List Event}

theorem orderly (member : InstanceId) {call : Call} (h : SharedGroup queue group past call) :
    SharedOrderly ⟨queue, group, member⟩ past call := by
  obtain ⟨steady, keeps⟩ := h
  refine ⟨⟨steady, fun own => keeps.imp (fun c config cursor s asked asks => ?_)
    (fun p c s asked acks => ?_) fun p c s asked apart => ?_⟩, fun own p c s asked => ?_⟩
  · have here := Call.seat_eq own (by rw [asked]; rfl)
    obtain ⟨fits, valid, member, _, may, follows⟩ := asks (congrArg Seat.group here)
    rw [here] at may follows
    exact ⟨fits, valid, member, may, follows⟩
  · have here := Call.seat_eq own (by rw [asked]; rfl)
    exact here ▸ (acks (congrArg Seat.group here)).2
  · exact apart (congrArg Seat.group (Call.seat_eq own (by rw [asked]; rfl)))
  · have here := Call.seat_eq own (by rw [asked]; rfl)
    rw [asked] at keeps
    exact here ▸ (keeps (congrArg Seat.group here)).1

private theorem orderly_run (run : Run (SharedGroup queue group) past) (member : InstanceId) :
    Run (SharedOrderly ⟨queue, group, member⟩) past := run.mono fun _ _ _ fits => fits.orderly member

private theorem steady_run (run : Run (SharedGroup queue group) past) : Run (Steady queue) past :=
  run.mono fun _ _ _ fits => fits.1

private theorem ascending (run : Run (SharedGroup queue group) past) (member : InstanceId) :
    (servedTo past ⟨queue, group, member⟩).Pairwise (· > ·) := by
  refine servedTo_descending run fun {past call} earlier allowed {id} served => ?_
  have further : Run (SharedGroup queue group) (⟨call, storageAfter past⟩ :: past) :=
    .next earlier allowed
  obtain ⟨own, _, answered, _⟩ := Event.own_of_servedTo? served
  obtain ⟨c, config, cursor, s, asked⟩ := Event.exists_dequeue answered
  obtain ⟨a, r, delivery, k, a', r', h, follows, last, delivers, ends, _⟩ :=
    Holding.turn_of_run (orderly_run further member) own asked
  rcases h.served_cases (steady_run earlier) own rfl follows last rfl rfl ends
    (delivers.servedTo?.symm.trans served) with ⟨rfl, handed⟩ | later
  · -- The active entry is not acknowledged, and then the member may not ask.
    have acked : outstanding ⟨queue, group, member⟩ past = [] := by
      have keeps := allowed.2
      rw [asked] at keeps
      have here := Call.seat_eq own (by rw [asked]; rfl)
      have nothing := (keeps (congrArg Seat.group here)).2.2.2.1
      rwa [here] at nothing
    have out := h.active_open (took_pos (steady_run earlier) (h.served_took _ handed)) handed
    rw [acked] at out
    cases out
  · exact later

private theorem claimed_of_drained (run : Run (SharedGroup queue group) past) {member : InstanceId}
    {id : EntryId} {entry : Entry} {v : Version} (appended : Enqueued past ⟨queue, id⟩ entry v)
    (drained : Drained past ⟨queue, group, member⟩ id) :
    (id.toNat : Int) ≤
      (storageAfter past).table.standing ((RowKey.groupPointer group).encode queue) := by
  obtain ⟨newer, e, earlier, s, rfl, quiet, nothing, reads, shown⟩ := drained
  have part : e :: earlier <:+ newer ++ e :: earlier := List.suffix_append newer _
  have here := run.of_suffix part
  refine Int.le_trans ?_ (standing_le_of_suffix run part _)
  rcases Holding.of_nothing_found (orderly_run here member) nothing reads with
    ⟨p, waits, unseen⟩ | reached
  · obtain ⟨_, _, h⟩ := Holding.of_run (orderly_run here member)
    have taken := (h.waits p waits).2.2.1
    have beyond : id < p := UInt64.not_le.1 fun below =>
      unseen (shown p (UInt64.lt_of_le_of_ne UInt64.zero_le (took_pos here taken).symm) below)
    have upTo : (p.toNat : Int) ≤
        (storageAfter (e :: earlier)).table.standing ((RowKey.groupPointer group).encode queue) :=
      (took_le here taken :)
    rw [UInt64.lt_iff_toNat_lt] at beyond
    omega
  · obtain ⟨_, _, _, _, asked⟩ := nothing.asks
    have before := enqueued_of_quiet quiet (by rw [asked]; rfl) appended
    have allocated := (Stored.of_run (steady_run (Run.cons_iff.1 here).1).sound).allocated _ _ _ before
    exact Int.le_trans allocated.2.2 reached

private theorem answered (run : Run (SharedGroup queue group) past) {member : InstanceId} {e : Event}
    {earlier : List Event} (part : e :: earlier <:+ past)
    (own : e.call.seat? = some ⟨queue, group, member⟩) (asks : e.call.request.isDequeue = true) :
    ∃ delivery, e.delivery? = some delivery := by
  obtain ⟨_, _, _, _, asked⟩ := Event.exists_dequeue_of_isDequeue asks
  obtain ⟨_, _, delivery, _, _, _, _, _, _, delivers, _⟩ :=
    Holding.turn_of_run (orderly_run (run.of_suffix part) member) own asked
  exact ⟨delivery, delivers.delivery?⟩

/-- When all members that ever asked were told that there is nothing, one of them was handed an entry
that they could see, or knows that it is retired, or has forfeited it. -/
private theorem served_of_drained (run : Run (SharedGroup queue group) past) {id : EntryId}
    {entry : Entry} {v : Version} (appended : Enqueued past ⟨queue, id⟩ entry v)
    (asked : ∃ member, Asked past ⟨queue, group, member⟩)
    (drained : ∀ member, Asked past ⟨queue, group, member⟩ →
      Drained past ⟨queue, group, member⟩ id) :
    ∃ member, id ∈ servedTo past ⟨queue, group, member⟩ ∨
      RetiredAt past ⟨queue, id⟩ (Known past ⟨queue, group, member⟩) ∨
        Forfeited past ⟨queue, group, member⟩ id := by
  obtain ⟨member, asked⟩ := asked
  have positive := ((Stored.of_run (steady_run run).sound).allocated _ _ _ appended).2.1
  obtain ⟨taker, took⟩ := exists_took (steady_run run).sound positive
    (claimed_of_drained run appended (drained member asked))
  obtain ⟨_, _, h⟩ := Holding.of_run (orderly_run run taker)
  rcases h.accounted id took with mem | retired | pends | forfeited
  · exact ⟨taker, .inl mem⟩
  · exact ⟨taker, .inr (.inl retired)⟩
  · -- The member that took the id still waits for it, but its last snapshot showed it.
    obtain ⟨newer, e, earlier, s, rfl, _, nothing, reads, shown⟩ := drained taker took.asked
    obtain ⟨_, _, _, _, request⟩ := nothing.asks
    refine absurd ?_ (h.hidden id pends e earlier s (List.suffix_append newer _) nothing.1
      (by rw [request]; rfl) reads)
    exact shown id (UInt64.lt_iff_toNat_lt.2 positive) (UInt64.le_refl _)
  · exact ⟨taker, .inr (.inr forfeited)⟩

private theorem unserved_of_forfeited (run : Run (SharedGroup queue group) past) {member : InstanceId}
    {id : EntryId} (forfeited : Forfeited past ⟨queue, group, member⟩ id) (other : InstanceId) :
    id ∉ servedTo past ⟨queue, group, other⟩ := fun mem => by
  obtain ⟨_, _, h⟩ := Holding.of_run (orderly_run run member)
  obtain ⟨_, _, h'⟩ := Holding.of_run (orderly_run run other)
  obtain ⟨took, unserved, _⟩ := h.gone id forfeited
  obtain rfl : other = member := took_unique run (h'.served_took id mem) took
  exact unserved mem

/-- A group whose members share it in turn is handed every entry at most once.  When all members are told
that there is nothing, every entry that they could see was handed out, or is known to be retired, unless a
member has forfeited it: one that had acknowledged it while it waited for it, and then asked without its
cursor.  What is forfeited is never handed out. -/
theorem shared_exactly_once (run : Run (SharedGroup queue group) past) :
    (∀ member, (servedTo past ⟨queue, group, member⟩).Pairwise (· > ·)) ∧
    (∀ m m' id, id ∈ servedTo past ⟨queue, group, m⟩ → id ∈ servedTo past ⟨queue, group, m'⟩ →
      m = m') ∧
    (∀ m m' id v v', ((storageAfter past).table.claims ⟨queue, group, m⟩ id).Has v →
      ((storageAfter past).table.claims ⟨queue, group, m'⟩ id).Has v' → m = m') ∧
    (∀ member e earlier, e :: earlier <:+ past → e.call.seat? = some ⟨queue, group, member⟩ →
      e.call.request.isDequeue = true → ∃ delivery, e.delivery? = some delivery) ∧
    (∀ id entry v, Enqueued past ⟨queue, id⟩ entry v →
      (∃ member, Asked past ⟨queue, group, member⟩) →
      (∀ member, Asked past ⟨queue, group, member⟩ → Drained past ⟨queue, group, member⟩ id) →
      ∃ member, id ∈ servedTo past ⟨queue, group, member⟩ ∨
        RetiredAt past ⟨queue, id⟩ (Known past ⟨queue, group, member⟩) ∨
          Forfeited past ⟨queue, group, member⟩ id) ∧
    ∀ member id, Forfeited past ⟨queue, group, member⟩ id →
      (∀ other, id ∉ servedTo past ⟨queue, group, other⟩) ∧
        ∃ e earlier, e :: earlier <:+ past ∧ e.ackedBy? ⟨queue, group, member⟩ = some id ∧
          pendingOf earlier ⟨queue, group, member⟩ = some id := by
  have held (member : InstanceId) : ∃ a r, Holding ⟨queue, group, member⟩ past a r :=
    Holding.of_run (orderly_run run member)
  refine ⟨ascending run, fun m m' id mem mem' => ?_, fun m m' id v v' has has' => ?_,
    fun _ _ _ => answered run, fun id entry v => served_of_drained run,
    fun member id forfeited => ⟨unserved_of_forfeited run forfeited, forfeited.exists_ack⟩⟩
  · obtain ⟨_, _, h⟩ := held m
    obtain ⟨_, _, h'⟩ := held m'
    exact took_unique run (h.served_took id mem) (h'.served_took id mem')
  · obtain ⟨_, _, h⟩ := held m
    obtain ⟨_, _, h'⟩ := held m'
    exact took_unique run (h.claims id v has) (h'.claims id v' has')

/-- One member waits for an entry that is committed late, and acknowledges it; another one is handed an
entry and acknowledges that.  Then the first asks with a cursor that was never loaded, the second with the
cursor that its request left, and there is nothing. -/
def turnCalls : List Call :=
  let queue : Queue := ⟨"q", ⟨.roundRobin, 20⟩⟩
  let worker (member : InstanceId) : Consumer := { group := 1, member, groupSize := 2 }
  let left : Cursor := { loaded := true, active := some 2, readPointer := 2, writePointer := 2 }
  [⟨queue, .dequeue (worker 1) ⟨.roundRobin, 20⟩ left (.upTo 200), .none⟩,
    ⟨queue, .dequeue (worker 0) ⟨.roundRobin, 20⟩ .fresh (.upTo 200), .none⟩,
    ⟨queue, .ack ⟨"q", 2⟩ (worker 1) (.upTo 10), .none⟩,
    ⟨queue, .dequeue (worker 1) ⟨.roundRobin, 20⟩ .fresh (.upTo 10), .none⟩,
    ⟨queue, .ack ⟨"q", 1⟩ (worker 0) (.upTo 10), .none⟩,
    ⟨queue, .dequeue (worker 0) ⟨.roundRobin, 20⟩ .fresh (.upTo 10), .none⟩,
    ⟨queue, .enqueue ⟨[98], {}⟩ 2, .none⟩, ⟨queue, .enqueue ⟨[97], {}⟩ 100, .none⟩]

private theorem turn_follows (n : Nat) (seat : Seat) :
    Follows (replay (turnCalls.drop n)) seat (.upTo 200) := by
  refine follows_replay_of_extends fun call mem earlier reads => ?_
  have all : ∀ call ∈ turnCalls, ∀ earlier, call.request.snapshot? = some earlier →
      earlier = .upTo 10 ∨ earlier = .upTo 200 := by
    simp +contextual [turnCalls, Request.snapshot?, eq_comm]
  rcases all call (List.mem_of_mem_drop mem) earlier reads with rfl | rfl <;>
    exact ⟨Snapshot.extends_upTo (by decide), by decide⟩

private theorem turn_run : Run (SharedGroup "q" 1) (replay turnCalls) := by
  refine .replay_cons (.replay_cons (.replay_cons (.replay_cons (.replay_cons (.replay_cons
    (.replay_cons (.replay_cons .start ?_) ?_) ?_) ?_) ?_) ?_) ?_) ?_
  · exact ⟨⟨rfl, .inr rfl⟩, trivial⟩
  · exact ⟨⟨rfl, .inr rfl⟩, trivial⟩
  · refine ⟨⟨rfl, .inr rfl⟩, fun _ => ⟨rfl, rfl, rfl, by decide, .inl rfl, ?_⟩⟩
    exact follows_replay (by decide) (by simp [Request.snapshot?])
  · refine ⟨⟨rfl, .inr rfl⟩, fun _ => ⟨.inr rfl, ?_⟩⟩
    exact follows_replay (by decide) (by simp [Request.snapshot?])
  · refine ⟨⟨rfl, .inr rfl⟩, fun _ => ⟨rfl, rfl, rfl, by with_unfolding_all decide, .inl rfl, ?_⟩⟩
    exact follows_replay (by decide) (by simp [Request.snapshot?])
  · refine ⟨⟨rfl, .inr rfl⟩, fun _ => ⟨.inl (by with_unfolding_all decide), ?_⟩⟩
    exact follows_replay (by decide) (by simp [Request.snapshot?])
  · exact ⟨⟨rfl, .inr rfl⟩, fun _ => ⟨rfl, rfl, rfl, by with_unfolding_all decide, .inl rfl,
      turn_follows 2 _⟩⟩
  · exact ⟨⟨rfl, .inr rfl⟩, fun _ => ⟨rfl, rfl, rfl, by with_unfolding_all decide,
      .inr (by with_unfolding_all decide), turn_follows 1 _⟩⟩

private theorem turn_shown {n : Nat} (after : n ≤ 6) (j : EntryId) (positive : noEntry < j)
    (upTo : j ≤ 2) : ShownAt (replay (turnCalls.drop n)) ⟨"q", j⟩ ((Snapshot.upTo 200).sees ·) := by
  have part : replay (turnCalls.drop 6) <:+ replay (turnCalls.drop n) := by
    have dropped := replay_drop_suffix (6 - n) (turnCalls.drop n)
    rwa [List.drop_drop, Nat.add_sub_cancel' after] at dropped
  have first : Enqueued (replay (turnCalls.drop 6)) ⟨"q", 1⟩ ⟨[97], {}⟩ 100 :=
    ⟨_, List.mem_of_getLast? rfl, rfl, by decide⟩
  have second : Enqueued (replay (turnCalls.drop 6)) ⟨"q", 2⟩ ⟨[98], {}⟩ 2 :=
    ⟨_, List.mem_cons_self, rfl, by decide⟩
  have above : 0 < j.toNat := UInt64.lt_iff_toNat_lt.1 positive
  have below : j.toNat ≤ 2 := UInt64.le_iff_toNat_le.1 upTo
  by_cases here : j = 1
  · rw [here]
    exact ⟨100, by decide, .inl ⟨_, first.mono part⟩⟩
  · have apart : j.toNat ≠ 1 := fun same => here (UInt64.toNat_inj.1 same)
    have last : j = 2 := UInt64.toNat_inj.1 (Nat.le_antisymm below (by
      change 2 ≤ j.toNat
      omega))
    rw [last]
    exact ⟨2, by decide, .inl ⟨_, second.mono part⟩⟩

/-- In that run both members were told last that there is nothing, and so the second entry was handed to
one of them, or forfeited.  The first member has forfeited the first entry, which is handed to none. -/
theorem turn_exactly_once :
    (servedTo (replay turnCalls) ⟨"q", 1, 1⟩).Pairwise (· > ·) ∧
      (∃ member, 2 ∈ servedTo (replay turnCalls) ⟨"q", 1, member⟩ ∨
        RetiredAt (replay turnCalls) ⟨"q", 2⟩ (Known (replay turnCalls) ⟨"q", 1, member⟩) ∨
          Forfeited (replay turnCalls) ⟨"q", 1, member⟩ 2) ∧
      Forfeited (replay turnCalls) ⟨"q", 1, 0⟩ 1 ∧
      ∀ member, 1 ∉ servedTo (replay turnCalls) ⟨"q", 1, member⟩ := by
  obtain ⟨once, _, _, _, complete, lost⟩ := shared_exactly_once turn_run
  have second : Enqueued (replay (turnCalls.drop 6)) ⟨"q", 2⟩ ⟨[98], {}⟩ 2 :=
    ⟨_, List.mem_cons_self, rfl, by decide⟩
  have forfeited : Forfeited (replay turnCalls) ⟨"q", 1, 0⟩ 1 :=
    ⟨_, _, replay_drop_suffix 1 turnCalls, rfl, _, _, _, _, rfl, rfl, by with_unfolding_all decide,
      by with_unfolding_all decide⟩
  refine ⟨once 1, complete 2 ⟨[98], {}⟩ 2 (second.mono (replay_drop_suffix 6 turnCalls)) ⟨0, ?_⟩ ?_,
    forfeited, (lost 0 1 forfeited).1⟩
  · exact ⟨_, List.mem_cons_of_mem _ List.mem_cons_self, rfl, rfl⟩
  · rintro member ⟨e, mem, own, _⟩
    have members : ∀ call ∈ turnCalls, call.seat? = some ⟨"q", 1, member⟩ →
        member = 0 ∨ member = 1 := by
      simp +contextual [turnCalls, Call.seat?, Request.consumer?, Queue.seat, eq_comm]
    rcases members e.call (call_mem_of_mem_replay mem) own with rfl | rfl
    · exact ⟨[_], _, replay (turnCalls.drop 2), .upTo 200, rfl, by decide,
        ⟨rfl, by with_unfolding_all decide⟩, rfl, turn_shown (by decide)⟩
    · exact ⟨[], _, replay (turnCalls.drop 1), .upTo 200, rfl, by decide,
        ⟨rfl, by with_unfolding_all decide⟩, rfl, turn_shown (by decide)⟩

end SharedGroup

end VersionedQueue
