import VersionedQueue.Proofs.Delivery.Reload
import VersionedQueue.Proofs.Entries.Gaps

/-!
# What gaps do to delivery

An id that a failed append has lost is never visible, and a consumer waits for it for ever.  A member
of a disjoint group is handed nothing beyond the first gap.  In a shared group each gap holds up one
member, so entries are handed out as long as there are fewer gaps before them than members.
-/

set_option autoImplicit false
set_option relaxedAutoImplicit false

namespace VersionedQueue

/-- The calls of a queue in which all members of a group keep to one partitioner and to their shares,
and only appended entries are retired. -/
def Consuming (queue : String) (group : GroupId) (partitioner : Partitioner) (groupSize : UInt32)
    (key : String) (past : List Event) (call : Call) : Prop :=
  (∀ member, Steadfast ⟨queue, group, member⟩ partitioner ⟨key, groupSize, member⟩ past call) ∧
    ∀ p v, call.request = .invalidate p v → ∃ entry w, Enqueued past p entry w

/-- A snapshot sees every version at which an entry was appended. -/
def SeesAppends (queue : String) (past : List Event) (s : Snapshot) : Prop :=
  ∀ id entry v, Enqueued past ⟨queue, id⟩ entry v → s.sees v

/-- The members of a group that have asked for an entry, each once. -/
def askers (queue : String) (group : GroupId) : List Event → List InstanceId
  | [] => []
  | e :: past =>
      match e.call.seat? with
      | some seat =>
          if e.call.request.isDequeue ∧ seat.queue = queue ∧ seat.group = group then
            (askers queue group past).insert seat.member
          else askers queue group past
      | none => askers queue group past

theorem nodup_askers (queue : String) (group : GroupId) (past : List Event) :
    (askers queue group past).Nodup := by
  induction past with
  | nil => exact List.nodup_nil
  | cons e past ih =>
      unfold askers
      split
      · split
        · rename_i seat _ _
          by_cases mem : seat.member ∈ askers queue group past
          · rwa [List.insert_of_mem mem]
          · rw [List.insert_of_not_mem mem]
            exact List.nodup_cons.2 ⟨mem, ih⟩
        · exact ih
      · exact ih

theorem mem_askers {queue : String} {group : GroupId} {past : List Event} {member : InstanceId} :
    member ∈ askers queue group past ↔ Asked past ⟨queue, group, member⟩ := by
  induction past with
  | nil => simp [askers, Asked]
  | cons e past ih =>
      have asked : Asked (e :: past) ⟨queue, group, member⟩ ↔
          (e.call.seat? = some ⟨queue, group, member⟩ ∧ e.call.request.isDequeue = true) ∨
            Asked past ⟨queue, group, member⟩ := by
        simp [Asked]
      rw [asked, ← ih]
      cases own : e.call.seat? with
      | none => simp [askers, own]
      | some seat =>
          obtain ⟨q, g, m⟩ := seat
          simp only [askers, own, Option.some.injEq, Seat.mk.injEq]
          split
          · rename_i here
            obtain ⟨asks, rfl, rfl⟩ := here
            simp [List.mem_insert_iff, asks, eq_comm]
          · rename_i other
            constructor
            · exact .inr
            · rintro (⟨⟨rfl, rfl, rfl⟩, asks⟩ | mem)
              · exact absurd ⟨asks, rfl, rfl⟩ other
              · exact mem

namespace Consuming

variable {queue : String} {group : GroupId} {partitioner : Partitioner} {groupSize : UInt32}
  {key : String} {past : List Event} {id : EntryId} {entry : Entry} {v : Version}

private theorem steadfast_run (run : Run (Consuming queue group partitioner groupSize key) past)
    (member : InstanceId) :
    Run (Steadfast ⟨queue, group, member⟩ partitioner ⟨key, groupSize, member⟩) past :=
  run.mono fun _ _ _ fits => fits.1 member

private theorem steady_run (run : Run (Consuming queue group partitioner groupSize key) past) :
    Run (Steady queue) past := Steadfast.steady_run (steadfast_run run 0)

private theorem appended_of_invalidated
    (run : Run (Consuming queue group partitioner groupSize key) past) {p : Pointer}
    (retired : Invalidated past p v) : ∃ entry w, Enqueued past p entry w := by
  induction run with
  | start =>
      obtain ⟨_, mem, _⟩ := retired
      cases mem
  | next _ fits ih =>
      rcases invalidated_cons.1 retired with ⟨asked, _⟩ | before
      · obtain ⟨entry, w, known⟩ := fits.2 p v asked
        exact ⟨entry, w, known.cons⟩
      · obtain ⟨entry, w, known⟩ := ih before
        exact ⟨entry, w, known.cons⟩

private theorem hidden_of_lost (run : Run (Consuming queue group partitioner groupSize key) past)
    (lost : id ∈ lostIds queue past) {known : Version → Prop} :
    ¬ ShownAt past ⟨queue, id⟩ known := by
  have apart := (Ledger.of_run (steady_run run)).apart id lost
  rintro ⟨v, _, ⟨entry, appended⟩ | retired⟩
  · exact apart entry v appended
  · obtain ⟨entry, w, appended⟩ := appended_of_invalidated run retired
    exact apart entry w appended

private theorem shown_of_not_lost (run : Run (Consuming queue group partitioner groupSize key) past)
    {newer earlier : List Event} {e : Event} {s : Snapshot} (split : past = newer ++ e :: earlier)
    (quiet : ∀ f ∈ newer, f.call.request.isEnqueue = false)
    (silent : e.call.request.isEnqueue = false) (sees : SeesAppends queue earlier s)
    (positive : 0 < id.toNat)
    (allocated : (id.toNat : Int) ≤
      (storageAfter past).table.standing (RowKey.entryCounter.encode queue))
    (kept : id ∉ lostIds queue past) : ShownAt earlier ⟨queue, id⟩ (s.sees ·) := by
  rcases (Ledger.of_run (steady_run run)).complete id positive allocated with lost | ⟨entry, v, known⟩
  · exact absurd lost kept
  · have before : Enqueued earlier ⟨queue, id⟩ entry v :=
      enqueued_of_quiet quiet silent (split ▸ known)
    exact ⟨v, sees id entry v before, .inl ⟨entry, before⟩⟩

private theorem disjoint_iff (run : Run (Consuming queue group .hash groupSize key) past)
    {member : InstanceId} (appended : Enqueued past ⟨queue, id⟩ entry v)
    (takes : Share.Takes ⟨key, groupSize, member⟩ entry)
    (valid : ∀ w, ¬ Invalidated past ⟨queue, id⟩ w)
    (told : ToldNothing past ⟨queue, group, member⟩ (SeesAppends queue)) :
    id ∈ servedTo past ⟨queue, group, member⟩ ↔ ∀ j ∈ lostIds queue past, id < j := by
  have stored := Stored.of_run (steady_run run).sound
  constructor
  · intro served j lost
    obtain ⟨a, r, h⟩ := Progress.of_run (Steadfast.disjoint_run (steadfast_run run member))
    refine UInt64.not_le.1 fun early => ?_
    have positive := ((Ledger.of_run (steady_run run)).below j lost).1
    rcases h.covered j (UInt64.lt_iff_toNat_lt.2 positive)
      (UInt64.le_trans early (h.served_le id served)) with mem | passes
    · obtain ⟨entry, v, known, written, _⟩ := h.served_own j mem
      exact hidden_of_lost run lost ⟨v, known, .inl ⟨entry, written⟩⟩
    · exact hidden_of_lost run lost passes.shownAt
  · intro gaps
    obtain ⟨newer, e, earlier, s, rfl, quiet, nothing, reads, sees⟩ := told
    have part : e :: earlier <:+ newer ++ e :: earlier := List.suffix_append newer _
    have within := (List.suffix_cons e earlier).trans part
    have here := run.of_suffix part
    obtain ⟨c, config, cursor, s', asked⟩ := nothing.asks
    have same : s' = s := by simpa [asked, Request.snapshot?] using reads
    subst same
    have silent : e.call.request.isEnqueue = false := by rw [asked]; rfl
    obtain ⟨a, r, delivery, k, w, a', r', rest, h, follows, stands, delivers, ends, _⟩ :=
      Progress.turn_of_run (Steadfast.disjoint_run (steadfast_run here member)) nothing.1 asked
    obtain rfl := nothing.delivery_eq delivers
    have allocated := (stored.allocated _ _ _ appended).2.2
    have shown : ∀ j, noEntry < j → j ≤ id → ShownAt earlier ⟨queue, j⟩ (s'.sees ·) := by
      intro j positive upTo
      have below := UInt64.le_iff_toNat_le.1 upTo
      exact shown_of_not_lost run rfl quiet silent sees (UInt64.lt_iff_toNat_lt.1 positive)
        (by simp only at allocated; omega) fun lost =>
          UInt64.lt_irrefl id (UInt64.lt_of_lt_of_le (gaps j lost) upTo)
    rcases h.of_nothing_found (steady_run (Run.cons_iff.1 here).1) follows stands ends
      (enqueued_of_quiet quiet silent appended) takes shown with served | ⟨w, _, retired⟩
    · exact servedTo_mono within served
    · exact absurd (retired.mono within) (valid w)

private theorem waits_for_lost (run : Run (Consuming queue group .roundRobin groupSize key) past)
    {member : InstanceId} (appended : Enqueued past ⟨queue, id⟩ entry v)
    (told : ToldNothing past ⟨queue, group, member⟩ (SeesAppends queue))
    (unclaimed : (storageAfter past).table.standing ((RowKey.groupPointer group).encode queue) <
      id.toNat) :
    ∃ j ∈ lostIds queue past, j < id ∧ pendingOf past ⟨queue, group, member⟩ = some j := by
  obtain ⟨newer, e, earlier, s, rfl, quiet, nothing, reads, sees⟩ := told
  have part : e :: earlier <:+ newer ++ e :: earlier := List.suffix_append newer _
  have here := run.of_suffix part
  have forward := standing_le_of_suffix run part ((RowKey.groupPointer group).encode queue)
  obtain ⟨_, _, _, _, asked⟩ := nothing.asks
  have silent : e.call.request.isEnqueue = false := by rw [asked]; rfl
  have allocated := ((Stored.of_run (steady_run run).sound).allocated _ _ _ appended).2.2
  simp only at allocated
  rcases Holding.of_nothing_found (Steadfast.shared_run (steadfast_run here member)) nothing reads with
    ⟨p, waits, unseen⟩ | reached
  · obtain ⟨_, _, earlierHeld⟩ :=
      Holding.of_run (Steadfast.shared_run (steadfast_run here member))
    obtain ⟨_, _, h⟩ := Holding.of_run (Steadfast.shared_run (steadfast_run run member))
    have taken := (earlierHeld.waits p waits).2.2.1
    have positive : 0 < p.toNat := Nat.pos_of_ne_zero fun zero =>
      took_pos here taken (UInt64.toNat_inj.1 zero)
    have upTo : (p.toNat : Int) ≤
        (storageAfter (e :: earlier)).table.standing ((RowKey.groupPointer group).encode queue) :=
      (took_le here taken :)
    have lost : p ∈ lostIds queue (newer ++ e :: earlier) :=
      Classical.byContradiction fun kept =>
        unseen (shown_of_not_lost run rfl quiet silent sees positive (by omega) kept)
    refine ⟨p, lost, UInt64.lt_iff_toNat_lt.2 (by omega), ?_⟩
    rcases Steadfast.accounted (steadfast_run run member) (taken.mono part) with
      mem | ⟨v, known, retired⟩ | pends
    · obtain ⟨entry, v, known, written⟩ := h.served_known p mem
      exact absurd ⟨v, known, .inl ⟨entry, written⟩⟩ (hidden_of_lost run lost)
    · exact absurd ⟨v, known, .inr retired⟩ (hidden_of_lost run lost)
    · exact pends
  · have before := enqueued_of_quiet quiet silent appended
    have reached : (storageAfter earlier).table.standing (RowKey.entryCounter.encode queue) ≤
        (storageAfter (e :: earlier)).table.standing ((RowKey.groupPointer group).encode queue) :=
      reached
    have below := ((Stored.of_run (steady_run (Run.cons_iff.1 here).1).sound).allocated _ _ _ before).2.2
    simp only at below
    omega

private theorem waiter_of_lost (run : Run (Consuming queue group .roundRobin groupSize key) past)
    (lost : id ∈ lostIds queue past)
    (claimed : (id.toNat : Int) ≤
      (storageAfter past).table.standing ((RowKey.groupPointer group).encode queue)) :
    ∃ member, Asked past ⟨queue, group, member⟩ ∧
      pendingOf past ⟨queue, group, member⟩ = some id := by
  have steady := steady_run run
  obtain ⟨member, took⟩ := exists_took steady.sound ((Ledger.of_run steady).below id lost).1 claimed
  obtain ⟨_, _, h⟩ := Holding.of_run (Steadfast.shared_run (steadfast_run run member))
  refine ⟨member, took.asked, ?_⟩
  rcases Steadfast.accounted (steadfast_run run member) took with mem | ⟨v, known, retired⟩ | pends
  · obtain ⟨entry, v, known, written⟩ := h.served_known id mem
    exact absurd ⟨v, known, .inl ⟨entry, written⟩⟩ (hidden_of_lost run lost)
  · exact absurd ⟨v, known, .inr retired⟩ (hidden_of_lost run lost)
  · exact pends

private theorem served_of_claimed (run : Run (Consuming queue group .roundRobin groupSize key) past)
    (appended : Enqueued past ⟨queue, id⟩ entry v) (valid : ∀ w, ¬ Invalidated past ⟨queue, id⟩ w)
    (told : ∀ member, Asked past ⟨queue, group, member⟩ →
      ToldNothing past ⟨queue, group, member⟩ (SeesAppends queue))
    (claimed : (id.toNat : Int) ≤
      (storageAfter past).table.standing ((RowKey.groupPointer group).encode queue)) :
    ∃ member, id ∈ servedTo past ⟨queue, group, member⟩ := by
  have steady := steady_run run
  have positive := ((Stored.of_run steady.sound).allocated _ _ _ appended).2.1
  obtain ⟨member, took⟩ := exists_took steady.sound positive claimed
  obtain ⟨_, _, h⟩ := Holding.of_run (Steadfast.shared_run (steadfast_run run member))
  rcases Steadfast.accounted (steadfast_run run member) took with mem | ⟨w, _, retired⟩ | pends
  · exact ⟨member, mem⟩
  · exact absurd retired (valid w)
  · obtain ⟨newer, e, earlier, s, rfl, quiet, nothing, reads, sees⟩ := told member took.asked
    obtain ⟨_, _, _, _, asked⟩ := nothing.asks
    have before := enqueued_of_quiet quiet (by rw [asked]; rfl) appended
    exact absurd ⟨v, sees id entry v before, .inl ⟨entry, before⟩⟩
      (h.hidden id pends e earlier s (List.suffix_append newer _) nothing.1 (by rw [asked]; rfl) reads)

/-- Each gap before an entry that was handed out is waited for, and not by the member that served it:
the gaps are fewer than the members. -/
private theorem gaps_lt_of_served
    (run : Run (Consuming queue group .roundRobin groupSize key) past) {server : InstanceId}
    (served : id ∈ servedTo past ⟨queue, group, server⟩) :
    ((lostIds queue past).filter (· < id)).length < (askers queue group past).length := by
  obtain ⟨_, _, h⟩ := Holding.of_run (Steadfast.shared_run (steadfast_run run server))
  have took := h.served_took id served
  have upTo : (id.toNat : Int) ≤
      (storageAfter past).table.standing ((RowKey.groupPointer group).encode queue) :=
    (took_le run took :)
  have within : ((lostIds queue past).filter (· < id)).map some ⊆
      ((askers queue group past).erase server).map
        fun member => pendingOf past ⟨queue, group, member⟩ := by
    intro pending mem
    obtain ⟨j, gap, rfl⟩ := List.mem_map.1 mem
    obtain ⟨lost, before⟩ := List.mem_filter.1 gap
    have early : j < id := by simpa using before
    have less := UInt64.lt_iff_toNat_lt.1 early
    obtain ⟨member, asked, pends⟩ := waiter_of_lost run lost (by omega)
    refine List.mem_map.2 ⟨member, ?_, pends⟩
    rw [(nodup_askers queue group past).mem_erase_iff]
    refine ⟨?_, mem_askers.2 asked⟩
    rintro rfl
    exact UInt64.not_le.2 early ((h.waits j pends).2.2.2 id took)
  have distinct : (((lostIds queue past).filter (· < id)).map some).Nodup :=
    List.pairwise_map.2 (((Ledger.of_run (steady_run run)).once.filter _).imp fun apart same =>
      apart (Option.some.inj same))
  have bound := distinct.length_le_of_subset within
  have member := mem_askers.2 took.asked
  have positive := List.length_pos_of_mem member
  rw [List.length_map, List.length_map, List.length_erase_of_mem member] at bound
  omega

/-- While an entry is unclaimed, each member waits for a gap of its own before it: the gaps are not
fewer than the members. -/
private theorem askers_le_gaps (run : Run (Consuming queue group .roundRobin groupSize key) past)
    (appended : Enqueued past ⟨queue, id⟩ entry v)
    (told : ∀ member, Asked past ⟨queue, group, member⟩ →
      ToldNothing past ⟨queue, group, member⟩ (SeesAppends queue))
    (unclaimed : (storageAfter past).table.standing ((RowKey.groupPointer group).encode queue) <
      id.toNat) :
    (askers queue group past).length ≤ ((lostIds queue past).filter (· < id)).length := by
  let waitsFor (member : InstanceId) : Option EntryId := pendingOf past ⟨queue, group, member⟩
  have waits : ∀ member ∈ askers queue group past, ∃ j ∈ lostIds queue past, j < id ∧
      waitsFor member = some j := fun member mem =>
    waits_for_lost run appended (told member (mem_askers.1 mem)) unclaimed
  have within : (askers queue group past).map waitsFor ⊆
      ((lostIds queue past).filter (· < id)).map some := by
    intro pending mem
    obtain ⟨member, asks, rfl⟩ := List.mem_map.1 mem
    obtain ⟨j, lost, before, pends⟩ := waits member asks
    exact List.mem_map.2 ⟨j, List.mem_filter.2 ⟨lost, by simpa using before⟩, pends.symm⟩
  have distinct : ((askers queue group past).map waitsFor).Nodup := by
    refine List.pairwise_map.2 ((nodup_askers queue group past).imp_of_mem ?_)
    intro m m' mem _ apart same
    obtain ⟨j, _, _, pends⟩ := waits m mem
    obtain ⟨_, _, h⟩ := Holding.of_run (Steadfast.shared_run (steadfast_run run m))
    obtain ⟨_, _, h'⟩ := Holding.of_run (Steadfast.shared_run (steadfast_run run m'))
    exact apart (took_unique run (h.waits j pends).2.2.1 (h'.waits j (same.symm.trans pends)).2.2.1)
  have bound := distinct.length_le_of_subset within
  rwa [List.length_map, List.length_map] at bound

private theorem shared_iff (run : Run (Consuming queue group .roundRobin groupSize key) past)
    (appended : Enqueued past ⟨queue, id⟩ entry v) (valid : ∀ w, ¬ Invalidated past ⟨queue, id⟩ w)
    (told : ∀ member, Asked past ⟨queue, group, member⟩ →
      ToldNothing past ⟨queue, group, member⟩ (SeesAppends queue)) :
    (∃ member, id ∈ servedTo past ⟨queue, group, member⟩) ↔
      ((lostIds queue past).filter (· < id)).length < (askers queue group past).length := by
  constructor
  · rintro ⟨server, served⟩
    exact gaps_lt_of_served run served
  · intro fewer
    refine served_of_claimed run appended valid told (Int.not_lt.1 fun unclaimed => ?_)
    exact Nat.not_le.2 fewer (askers_le_gaps run appended told unclaimed)

/-- When all members that ever asked were told that there is nothing, under snapshots that see all
appends, an entry that was never retired was handed out exactly if gaps did not hold it up: in a
disjoint group a single gap before the entry does, in a shared group as many as there are members. -/
theorem delivered_iff_gaps (run : Run (Consuming queue group partitioner groupSize key) past)
    (appended : Enqueued past ⟨queue, id⟩ entry v) (valid : ∀ w, ¬ Invalidated past ⟨queue, id⟩ w)
    (told : ∀ member, Asked past ⟨queue, group, member⟩ →
      ToldNothing past ⟨queue, group, member⟩ (SeesAppends queue)) :
    match partitioner with
    | .hash => ∀ member, Asked past ⟨queue, group, member⟩ →
        Share.Takes ⟨key, groupSize, member⟩ entry →
        (id ∈ servedTo past ⟨queue, group, member⟩ ↔ ∀ j ∈ lostIds queue past, id < j)
    | .roundRobin => (∃ member, id ∈ servedTo past ⟨queue, group, member⟩) ↔
        ((lostIds queue past).filter (· < id)).length < (askers queue group past).length := by
  cases partitioner with
  | hash =>
      intro member asked takes
      exact disjoint_iff run appended takes valid (told member asked)
  | roundRobin => exact shared_iff run appended valid told

/-- An append fails and the next one does not.  One member asks and finds nothing; then another asks,
is handed the entry, acknowledges it and asks again. -/
def gapCalls : List Call :=
  let queue : Queue := ⟨"q", ⟨.roundRobin, 20⟩⟩
  let worker (member : InstanceId) : Consumer := { group := 1, member, groupSize := 2 }
  [⟨queue, .dequeue (worker 1) ⟨.roundRobin, 20⟩ .fresh (.upTo 10), .none⟩,
    ⟨queue, .ack ⟨"q", 2⟩ (worker 1) (.upTo 10), .none⟩,
    ⟨queue, .dequeue (worker 1) ⟨.roundRobin, 20⟩ .fresh (.upTo 10), .none⟩,
    ⟨queue, .dequeue (worker 0) ⟨.roundRobin, 20⟩ .fresh (.upTo 10), .none⟩,
    ⟨queue, .enqueue ⟨[98], {}⟩ 2, .none⟩,
    ⟨queue, .enqueue ⟨[97], {}⟩ 1, .startingAt .put 0⟩]

private theorem gap_fits {n : Nat} {worker : Consumer} (size : worker.groupSize = 2)
    (number : worker.member < 2) :
    Consuming "q" 1 .roundRobin 2 "" (replay (gapCalls.drop n))
      ⟨⟨"q", ⟨.roundRobin, 20⟩⟩, .dequeue worker ⟨.roundRobin, 20⟩ .fresh (.upTo 10), .none⟩ := by
  refine ⟨fun member => ⟨⟨⟨rfl, .inr rfl⟩, fun own => ⟨⟨rfl, fun hash => by cases hash⟩, rfl, ?_,
    .inl rfl, ?_⟩⟩, fun _ p c s asked => by cases asked⟩, fun p v asked => by cases asked⟩
  · have within : ¬ (2 : UInt32) ≤ worker.member := UInt32.not_le.2 number
    simp [Consumer.validate, size, within, Partitioner.usesHeaders, Limits.maxGroupSize]
  · refine follows_replay (by decide) fun call mem => ?_
    have all : ∀ call ∈ gapCalls, ∀ s, call.request.snapshot? = some s → s = .upTo 10 := by
      simp [gapCalls, Request.snapshot?]
    exact all call (List.mem_of_mem_drop mem)

private theorem gap_run : Run (Consuming "q" 1 .roundRobin 2 "") (replay (gapCalls.drop 3)) := by
  refine .replay_cons (.replay_cons (.replay_cons .start ?_) ?_) ?_
  · exact ⟨fun _ => ⟨⟨⟨rfl, .inl rfl⟩, fun own => by cases own⟩, fun own => by cases own⟩,
      fun p v asked => by cases asked⟩
  · exact ⟨fun _ => ⟨⟨⟨rfl, .inr rfl⟩, fun own => by cases own⟩, fun own => by cases own⟩,
      fun p v asked => by cases asked⟩
  · exact @gap_fits 4 _ rfl (by decide)

private theorem gap_run_on : Run (Consuming "q" 1 .roundRobin 2 "") (replay gapCalls) := by
  refine .replay_cons (.replay_cons (.replay_cons gap_run ?_) ?_) ?_
  · exact @gap_fits 3 _ rfl (by decide)
  · refine ⟨fun member => ⟨⟨⟨rfl, .inr rfl⟩, fun _ => follows_replay (by decide) ?_⟩,
      fun own p c s asked => ?_⟩, fun p v asked => by cases asked⟩
    · simp [Request.snapshot?]
    · cases asked
      cases own
      with_unfolding_all decide
  · exact @gap_fits 1 _ rfl (by decide)

private theorem gap_appended (n : Nat) (after : n ≤ 4) :
    Enqueued (replay (gapCalls.drop n)) ⟨"q", 2⟩ ⟨[98], {}⟩ 2 := by
  have appended : Enqueued (replay (gapCalls.drop 4)) ⟨"q", 2⟩ ⟨[98], {}⟩ 2 :=
    ⟨_, List.mem_cons_self, rfl, by decide⟩
  have dropped := replay_drop_suffix (4 - n) (gapCalls.drop n)
  rw [List.drop_drop, Nat.add_sub_cancel' after] at dropped
  exact appended.mono dropped

private theorem gap_sees (n : Nat) : SeesAppends "q" (replay (gapCalls.drop n)) (.upTo 10) := by
  rintro id entry v ⟨e, mem, asked, _⟩
  have all : ∀ call ∈ gapCalls, ∀ entry v, call.request = .enqueue entry v →
      (Snapshot.upTo 10).sees v = true := by
    simp +contextual [gapCalls]
    decide
  exact all e.call (List.mem_of_mem_drop (call_mem_of_mem_replay mem)) entry v asked

/-- The append between two others fails.  The one member of a disjoint group is handed the first entry,
acknowledges it and asks again. -/
def splitCalls : List Call :=
  let queue : Queue := ⟨"q", ⟨.hash, 20⟩⟩
  let worker : Consumer := { group := 1, member := 0, groupSize := 1, partitioningKey := some "k" }
  let entry (payload : Bytes) : Entry := ⟨payload, .ofList [("k", (0 : Int32))]⟩
  [⟨queue, .dequeue worker ⟨.hash, 20⟩ .fresh (.upTo 10), .none⟩,
    ⟨queue, .ack ⟨"q", 1⟩ worker (.upTo 10), .none⟩,
    ⟨queue, .dequeue worker ⟨.hash, 20⟩ .fresh (.upTo 10), .none⟩,
    ⟨queue, .enqueue (entry [99]) 3, .none⟩,
    ⟨queue, .enqueue (entry [98]) 2, .startingAt .put 0⟩, ⟨queue, .enqueue (entry [97]) 1, .none⟩]

private theorem split_follows (n : Nat) (seat : Seat) :
    Follows (replay (splitCalls.drop n)) seat (.upTo 10) := by
  refine follows_replay (by decide) fun call mem => ?_
  have all : ∀ call ∈ splitCalls, ∀ s, call.request.snapshot? = some s → s = .upTo 10 := by
    simp [splitCalls, Request.snapshot?]
  exact all call (List.mem_of_mem_drop mem)

private theorem split_run : Run (Consuming "q" 1 .hash 1 "k") (replay splitCalls) := by
  refine .replay_cons (.replay_cons (.replay_cons (.replay_cons (.replay_cons (.replay_cons .start
    ?_) ?_) ?_) ?_) ?_) ?_
  · exact ⟨fun _ => ⟨⟨⟨rfl, .inr rfl⟩, nofun⟩, nofun⟩, nofun⟩
  · exact ⟨fun _ => ⟨⟨⟨rfl, .inl rfl⟩, nofun⟩, nofun⟩, nofun⟩
  · exact ⟨fun _ => ⟨⟨⟨rfl, .inr rfl⟩, nofun⟩, nofun⟩, nofun⟩
  · refine ⟨fun member => ⟨⟨⟨rfl, .inr rfl⟩, fun own => ?_⟩, nofun⟩, nofun⟩
    cases own
    exact ⟨⟨rfl, fun _ => rfl⟩, rfl, rfl, .inl rfl, split_follows 3 _⟩
  · refine ⟨fun member => ⟨⟨⟨rfl, .inr rfl⟩, fun _ => split_follows 2 _⟩, fun own p c s asked => ?_⟩,
      nofun⟩
    cases asked
    cases own
    with_unfolding_all decide
  · refine ⟨fun member => ⟨⟨⟨rfl, .inr rfl⟩, fun own => ?_⟩, nofun⟩, nofun⟩
    cases own
    exact ⟨⟨rfl, fun _ => rfl⟩, rfl, rfl, .inl rfl, split_follows 1 _⟩

private theorem split_sees (n : Nat) : SeesAppends "q" (replay (splitCalls.drop n)) (.upTo 10) := by
  rintro id entry v ⟨e, mem, asked, _⟩
  have all : ∀ call ∈ splitCalls, ∀ entry v, call.request = .enqueue entry v →
      (Snapshot.upTo 10).sees v = true := by
    simp +contextual [splitCalls]
    decide
  exact all e.call (List.mem_of_mem_drop (call_mem_of_mem_replay mem)) entry v asked

private theorem gap_told (member : InstanceId)
    (asked : Asked (replay (gapCalls.drop 3)) ⟨"q", 1, member⟩) :
    ToldNothing (replay (gapCalls.drop 3)) ⟨"q", 1, member⟩ (SeesAppends "q") := by
  have members : askers "q" 1 (replay (gapCalls.drop 3)) = [0] := by decide
  obtain rfl : member = 0 := List.mem_singleton.1 (members ▸ mem_askers.2 asked)
  exact ⟨[], _, replay (gapCalls.drop 4), .upTo 10, rfl, by decide,
    ⟨rfl, by with_unfolding_all decide⟩, rfl, gap_sees 4⟩

private theorem gap_told_on (member : InstanceId) (asked : Asked (replay gapCalls) ⟨"q", 1, member⟩) :
    ToldNothing (replay gapCalls) ⟨"q", 1, member⟩ (SeesAppends "q") := by
  have members : askers "q" 1 (replay gapCalls) = [1, 0] := by decide
  have mem : member ∈ [1, 0] := members ▸ mem_askers.2 asked
  rcases List.mem_cons.1 mem with rfl | mem
  · exact ⟨[], _, replay (gapCalls.drop 1), .upTo 10, rfl, by decide,
      ⟨rfl, by with_unfolding_all decide⟩, rfl, gap_sees 1⟩
  · obtain rfl := List.mem_singleton.1 mem
    exact ⟨[_, _, _], _, replay (gapCalls.drop 4), .upTo 10, rfl, by decide,
      ⟨rfl, by with_unfolding_all decide⟩, rfl, gap_sees 4⟩

private theorem split_told (member : InstanceId)
    (asked : Asked (replay splitCalls) ⟨"q", 1, member⟩) :
    ToldNothing (replay splitCalls) ⟨"q", 1, member⟩ (SeesAppends "q") := by
  have members : askers "q" 1 (replay splitCalls) = [0] := by decide
  obtain rfl : member = 0 := List.mem_singleton.1 (members ▸ mem_askers.2 asked)
  exact ⟨[], _, replay (splitCalls.drop 1), .upTo 10, rfl, by decide,
    ⟨rfl, by with_unfolding_all decide⟩, rfl, split_sees 1⟩

/-- In the shared group the entry behind the gap was not handed out while one member had asked, and was
handed out once two had.  In the disjoint group the entry before the gap was handed out, and the one behind
it was not. -/
theorem gap_holds_up_one_member :
    ((¬ ∃ member, 2 ∈ servedTo (replay (gapCalls.drop 3)) ⟨"q", 1, member⟩) ∧
      ∃ member, 2 ∈ servedTo (replay gapCalls) ⟨"q", 1, member⟩) ∧
    1 ∈ servedTo (replay splitCalls) ⟨"q", 1, 0⟩ ∧ 3 ∉ servedTo (replay splitCalls) ⟨"q", 1, 0⟩ := by
  have valid (n : Nat) (v : Version) : ¬ Invalidated (replay (gapCalls.drop n)) ⟨"q", 2⟩ v :=
    not_invalidated_replay (fun call mem p w => by
      have all : ∀ call ∈ gapCalls, ∀ p w, call.request ≠ .invalidate p w := by simp [gapCalls]
      exact all call (List.mem_of_mem_drop mem) p w) v
  have kept (p : Pointer) (v : Version) : ¬ Invalidated (replay splitCalls) p v :=
    not_invalidated_replay (by simp [splitCalls]) v
  have asks : Asked (replay splitCalls) ⟨"q", 1, 0⟩ := ⟨_, List.mem_cons_self, rfl, rfl⟩
  have first : Enqueued (replay splitCalls) ⟨"q", 1⟩ ⟨[97], .ofList [("k", (0 : Int32))]⟩ 1 :=
    ⟨_, List.mem_of_getLast? rfl, rfl, by decide⟩
  have last : Enqueued (replay (splitCalls.drop 3)) ⟨"q", 3⟩ ⟨[99], .ofList [("k", (0 : Int32))]⟩ 3 :=
    ⟨_, List.mem_cons_self, rfl, by decide⟩
  have lost : lostIds "q" (replay splitCalls) = [2] := by decide
  refine ⟨⟨?_, ?_⟩, ?_, ?_⟩
  · exact mt (delivered_iff_gaps gap_run (gap_appended 3 (by decide)) (valid 3) gap_told).1 (by decide)
  · exact (delivered_iff_gaps gap_run_on (gap_appended 0 (by decide)) (valid 0) gap_told_on).2
      (by decide)
  · refine (delivered_iff_gaps split_run first (kept _) split_told 0 asks ⟨0, by decide, by decide⟩).2 ?_
    simp [lost]
  · refine mt (delivered_iff_gaps split_run (last.mono (replay_drop_suffix 3 splitCalls)) (kept _)
      split_told 0 asks ⟨0, by decide, by decide⟩).1 ?_
    simp [lost]

end Consuming

end VersionedQueue
