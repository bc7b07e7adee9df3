import VersionedQueue.Proofs.Disjoint.Progress
import VersionedQueue.Proofs.Run.Replay

/-!
# Exactly once by hash

A group whose members partition by hash is handed every entry once.  Each entry goes to the member
that its hash maps to; a member is handed ever higher ids; and when a member is told that there is
nothing, it has been handed every entry of its share up to the first id that it cannot see.
-/

set_option autoImplicit false
set_option relaxedAutoImplicit false

namespace VersionedQueue

theorem Partition.owner_eq_some {hash : Int32} {groupSize : UInt32} {member : InstanceId} :
    owner hash groupSize = some member ↔
      groupSize ≠ 0 ∧ hash.toInt % (groupSize.toNat : Int) = member.toNat := by
  unfold owner
  by_cases empty : groupSize = 0
  · simp [empty]
  · have positive : 0 < groupSize.toNat :=
      Nat.pos_of_ne_zero fun zero => empty (UInt32.toNat_inj.1 zero)
    have least := Int.emod_nonneg hash.toInt (Int.natCast_ne_zero.2 (Nat.ne_of_gt positive))
    have most := Int.emod_lt_of_pos hash.toInt (Int.natCast_pos.2 positive)
    have width := groupSize.toNat_lt
    rw [if_neg empty, Option.some.injEq, ← UInt32.toNat_inj, UInt32.toNat_ofNat',
      Nat.mod_eq_of_lt (by omega)]
    constructor
    · intro same
      exact ⟨empty, by omega⟩
    · rintro ⟨_, same⟩
      omega

/-- The calls of a queue in which all members of one group partition by the same header and among the
same number of members.  A member asks for an entry only when it has acknowledged what it was handed,
passes a cursor that was never loaded or the one its last request left, and reads under snapshots
that follow each other.  Producers and other groups do as they like. -/
def DisjointGroup (queue : String) (group : GroupId) (groupSize : UInt32) (key : String)
    (past : List Event) (call : Call) : Prop :=
  Steady queue past call ∧
    call.request.Meets
      (fun c config cursor s => c.group = group →
        config.partitioner = .hash ∧ c.share = ⟨key, groupSize, c.member⟩ ∧
          config.validate = .ok () ∧ c.validate config.partitioner = .ok () ∧
          outstanding (call.queue.seat c) past = [] ∧ MayPass past (call.queue.seat c) cursor ∧
          Follows past (call.queue.seat c) s)
      (fun _ c s => c.group = group → Follows past (call.queue.seat c) s)
      fun _ c _ => c.group ≠ group

namespace DisjointGroup

variable {queue : String} {group : GroupId} {groupSize : UInt32} {key : String} {past : List Event}

theorem orderly (member : InstanceId) {call : Call}
    (h : DisjointGroup queue group groupSize key past call) :
    Orderly ⟨queue, group, member⟩ (Share.Fits ⟨key, groupSize, member⟩) past call := by
  refine ⟨h.1, fun own => h.2.imp (fun c config cursor s asked asks => ?_)
    (fun p c s asked follows => ?_) fun p c s asked apart => ?_⟩
  · have here := Call.seat_eq own (by rw [asked]; rfl)
    obtain ⟨hash, share, valid, fits, _, may, follows⟩ := asks (congrArg Seat.group here)
    have number : c.member = member := congrArg Seat.member here
    rw [here] at may follows
    rw [number] at share
    exact ⟨⟨hash, share⟩, valid, fits, may, follows⟩
  · have here := Call.seat_eq own (by rw [asked]; rfl)
    exact here ▸ follows (congrArg Seat.group here)
  · exact apart (congrArg Seat.group (Call.seat_eq own (by rw [asked]; rfl)))

private theorem orderly_run (run : Run (DisjointGroup queue group groupSize key) past)
    (member : InstanceId) :
    Run (Orderly ⟨queue, group, member⟩ (Share.Fits ⟨key, groupSize, member⟩)) past :=
  run.mono fun _ _ _ fits => fits.orderly member

private theorem steady_run (run : Run (DisjointGroup queue group groupSize key) past) :
    Run (Steady queue) past := run.mono fun _ _ _ fits => fits.1

private theorem owns_of_served (run : Run (DisjointGroup queue group groupSize key) past)
    {member : InstanceId} {id : EntryId} (mem : id ∈ servedTo past ⟨queue, group, member⟩) :
    Share.Owns ⟨key, groupSize, member⟩ past ⟨queue, id⟩ := by
  obtain ⟨a, r, h⟩ := Progress.of_run (orderly_run run member)
  obtain ⟨entry, v, _, appended, takes⟩ := h.served_own id mem
  exact ⟨entry, v, appended, takes⟩

private theorem member_unique (run : Run (DisjointGroup queue group groupSize key) past)
    {m m' : InstanceId} {id : EntryId} (mem : id ∈ servedTo past ⟨queue, group, m⟩)
    (mem' : id ∈ servedTo past ⟨queue, group, m'⟩) : m = m' :=
  (owns_of_served run mem).unique (Stored.of_run (steady_run run).sound) (owns_of_served run mem')

private theorem ascending (run : Run (DisjointGroup queue group groupSize key) past)
    (member : InstanceId) : (servedTo past ⟨queue, group, member⟩).Pairwise (· > ·) := by
  refine servedTo_descending run fun {past call} earlier allowed {id} served => ?_
  have further : Run (DisjointGroup queue group groupSize key) (⟨call, storageAfter past⟩ :: past) :=
    .next earlier allowed
  obtain ⟨own, _, answered, _⟩ := Event.own_of_servedTo? served
  obtain ⟨c, config, cursor, s, asked⟩ := Event.exists_dequeue answered
  obtain ⟨a, r, delivery, k, w, a', r', rest, h, _, _, delivers, ends, last⟩ :=
    Progress.turn_of_run (orderly_run further member) own asked
  rcases h.served_cases last ends (delivers.servedTo?.symm.trans served) with ⟨_, rfl, some⟩ | later
  · -- The active entry is not acknowledged, and then the member may not ask.
    have acked : outstanding ⟨queue, group, member⟩ past = [] := by
      have keeps := allowed.2
      rw [asked] at keeps
      have here := Call.seat_eq own (by rw [asked]; rfl)
      have nothing := (keeps (congrArg Seat.group here)).2.2.2.2.1
      rwa [here] at nothing
    have out := (h.active_open some).2
    rw [acked] at out
    cases out
  · exact later

private theorem answered (run : Run (DisjointGroup queue group groupSize key) past)
    {member : InstanceId} {e : Event} {earlier : List Event} (part : e :: earlier <:+ past)
    (own : e.call.seat? = some ⟨queue, group, member⟩) (asks : e.call.request.isDequeue = true) :
    ∃ delivery, e.delivery? = some delivery := by
  obtain ⟨_, _, _, _, asked⟩ := Event.exists_dequeue_of_isDequeue asks
  obtain ⟨_, _, delivery, _, _, _, _, _, _, _, _, delivers, _⟩ :=
    Progress.turn_of_run (orderly_run (run.of_suffix part) member) own asked
  exact ⟨delivery, delivers.delivery?⟩

private theorem served_or_retired (run : Run (DisjointGroup queue group groupSize key) past)
    {member : InstanceId} {e : Event} {earlier : List Event} {c : Consumer} {config : Config}
    {cursor : Cursor} {s : Snapshot} (part : e :: earlier <:+ past)
    (asked : e.call.request = .dequeue c config cursor s)
    (nothing : e.FindsNothing ⟨queue, group, member⟩) {id : EntryId} {entry : Entry} {v : Version}
    {hash : Int32} (appended : Enqueued earlier ⟨queue, id⟩ entry v)
    (carried : entry.partitioning[key]? = some hash)
    (maps : hash.toInt % (groupSize.toNat : Int) = member.toNat)
    (shown : ∀ j, noEntry < j → j ≤ id → ShownAt earlier ⟨queue, j⟩ (s.sees ·)) :
    id ∈ servedTo earlier ⟨queue, group, member⟩ ∨ RetiredAt earlier ⟨queue, id⟩ (s.sees ·) := by
  have here := run.of_suffix part
  have own := nothing.1
  obtain ⟨a, r, delivery, k, w, a', r', rest, h, follows, stands, delivers, ends, _⟩ :=
    Progress.turn_of_run (orderly_run here member) own asked
  obtain rfl := nothing.delivery_eq delivers
  have filled : groupSize ≠ 0 := by
    have keeps := (Run.cons_iff.1 here).2.1.2
    rw [asked] at keeps
    have seat := Call.seat_eq own (by rw [asked]; rfl)
    obtain ⟨_, share, _, fits, _⟩ := keeps (congrArg Seat.group seat)
    intro zero
    have none : c.groupSize = 0 := (congrArg Share.groupSize share).trans zero
    simp [Consumer.validate, none] at fits
  exact h.of_nothing_found (steady_run (Run.cons_iff.1 here).1) follows stands ends appended
    ⟨hash, carried, Partition.owner_eq_some.2 ⟨filled, maps⟩⟩ shown

/-- A group whose members partition by hash is handed every entry exactly once. -/
theorem disjoint_exactly_once (run : Run (DisjointGroup queue group groupSize key) past) :
    (∀ member, ∀ id ∈ servedTo past ⟨queue, group, member⟩, ∃ entry v hash,
      Enqueued past ⟨queue, id⟩ entry v ∧ entry.partitioning[key]? = some hash ∧
        hash.toInt % (groupSize.toNat : Int) = member.toNat) ∧
    (∀ member, (servedTo past ⟨queue, group, member⟩).Pairwise (· > ·)) ∧
    (∀ m m' id, id ∈ servedTo past ⟨queue, group, m⟩ → id ∈ servedTo past ⟨queue, group, m'⟩ →
      m = m') ∧
    (∀ member e earlier, e :: earlier <:+ past → e.call.seat? = some ⟨queue, group, member⟩ →
      e.call.request.isDequeue = true → ∃ delivery, e.delivery? = some delivery) ∧
    ∀ member e earlier c config cursor s, e :: earlier <:+ past →
      e.call.request = .dequeue c config cursor s → e.FindsNothing ⟨queue, group, member⟩ →
      ∀ id entry v hash, Enqueued earlier ⟨queue, id⟩ entry v →
        entry.partitioning[key]? = some hash →
        hash.toInt % (groupSize.toNat : Int) = member.toNat →
        (∀ j, noEntry < j → j ≤ id → ShownAt earlier ⟨queue, j⟩ (s.sees ·)) →
        id ∈ servedTo earlier ⟨queue, group, member⟩ ∨
          RetiredAt earlier ⟨queue, id⟩ (s.sees ·) := by
  refine ⟨?_, ascending run, fun _ _ _ => member_unique run, fun _ _ _ => answered run, ?_⟩
  · intro member id mem
    obtain ⟨entry, v, appended, hash, carried, maps⟩ := owns_of_served run mem
    exact ⟨entry, v, hash, appended, carried, (Partition.owner_eq_some.1 maps).2⟩
  · intro member e earlier c config cursor s part asked nothing id entry v hash
    exact served_or_retired run part asked nothing

/-- The first of two members is handed the one entry of its share, acknowledges it and asks again. -/
def pairCalls : List Call :=
  let queue : Queue := ⟨"q", ⟨.hash, 20⟩⟩
  let first : Consumer := { group := 1, member := 0, groupSize := 2, partitioningKey := some "k" }
  let entry (hash : Int32) : Entry := ⟨[97], Std.TreeMap.ofList [("k", hash)]⟩
  let left : Cursor := { loaded := true, active := some 1, readPointer := 1, writePointer := 2 }
  [⟨queue, .dequeue first ⟨.hash, 20⟩ left (.upTo 10), .none⟩,
    ⟨queue, .ack ⟨"q", 1⟩ first (.upTo 10), .none⟩,
    ⟨queue, .dequeue first ⟨.hash, 20⟩ .fresh (.upTo 10), .none⟩,
    ⟨queue, .enqueue (entry 1) 2, .none⟩, ⟨queue, .enqueue (entry 4) 1, .none⟩]

private theorem pair_run : Run (DisjointGroup "q" 1 2 "k") (replay pairCalls) := by
  refine .replay_cons (.replay_cons (.replay_cons (.replay_cons (.replay_cons .start ?_) ?_) ?_)
    ?_) ?_
  · exact ⟨⟨rfl, .inr rfl⟩, trivial⟩
  · exact ⟨⟨rfl, .inr rfl⟩, trivial⟩
  · refine ⟨⟨rfl, .inr rfl⟩, fun _ => ⟨rfl, rfl, rfl, rfl, by decide, .inl rfl, ?_⟩⟩
    exact follows_replay (by decide) (by simp [Request.snapshot?])
  · refine ⟨⟨rfl, .inr rfl⟩, fun _ => ?_⟩
    exact follows_replay (by decide) (by simp [Request.snapshot?])
  · refine ⟨⟨rfl, .inr rfl⟩, fun _ => ⟨rfl, rfl, rfl, rfl, by with_unfolding_all decide,
      .inr (by with_unfolding_all decide), ?_⟩⟩
    exact follows_replay (by decide) (by simp [Request.snapshot?])

/-- In that run the second request finds nothing, and so the member was handed its entry before. -/
theorem pair_exactly_once :
    (servedTo (replay pairCalls) ⟨"q", 1, 0⟩).Pairwise (· > ·) ∧
      (1 ∈ servedTo (replay pairCalls.tail) ⟨"q", 1, 0⟩ ∨
        RetiredAt (replay pairCalls.tail) ⟨"q", 1⟩ ((Snapshot.upTo 10).sees ·)) := by
  obtain ⟨_, once, _, _, complete⟩ := disjoint_exactly_once pair_run
  have appended : ∃ entry, Enqueued (replay pairCalls.tail) ⟨"q", 1⟩ entry 1 ∧
      entry.partitioning["k"]? = some 4 :=
    ⟨_, ⟨_, List.mem_of_getLast? rfl, rfl, by decide⟩, by decide⟩
  obtain ⟨entry, appended, carried⟩ := appended
  refine ⟨once 0, ?_⟩
  refine complete 0 _ _ _ _ _ _ (List.suffix_refl (replay pairCalls)) rfl
    ⟨rfl, by with_unfolding_all decide⟩ 1 entry 1 4 appended carried (by decide)
    fun j positive upTo => ?_
  have here : j = 1 := by
    rw [← UInt64.toNat_inj]
    have above := UInt64.lt_iff_toNat_lt.1 positive
    have below := UInt64.le_iff_toNat_le.1 upTo
    exact Nat.le_antisymm below above
  rw [here]
  exact ⟨1, by decide, .inl ⟨entry, appended⟩⟩

end DisjointGroup

end VersionedQueue
