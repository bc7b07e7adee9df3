import VersionedQueue.Proofs.Run.Replay
import VersionedQueue.Proofs.Shared.Custody

/-!
# Whether claims survive failing storage

The pointer of a shared group moves before the claimed id is stored.  A member that keeps its cursor
loses no claim unless it fails to store what it is to hand out; one that gives its cursor up after a
failure loses the id that was pending in it.  What is lost is never handed out, and what is still
recorded is, once a snapshot shows it.
-/

set_option autoImplicit false
set_option relaxedAutoImplicit false

namespace VersionedQueue

/-- A member comes for an id when no call fails: with the loaded cursor in which the id is pending, or
with one that was never loaded for the active entry of its row. -/
structure Event.ComesFor (e : Event) (past : List Event) (seat : Seat) (c : Consumer) (config : Config)
    (cursor : Cursor) (s : Snapshot) (id : EntryId) : Prop where
  own : e.call.seat? = some seat
  asked : e.call.request = .dequeue c config cursor s
  calm : e.call.plan = .none
  valid : config.validate = .ok ()
  admitted : c.validate config.partitioner = .ok ()
  held : cursor.loaded = true ∧ cursor.pending = some id ∨
    cursor.loaded = false ∧ Stores past seat id

namespace SharedFallible

variable {queue : String} {group : GroupId} {past : List Event} {e : Event} {member : InstanceId}
  {id : EntryId} {c : Consumer} {config : Config} {cursor : Cursor} {s : Snapshot}

private theorem sound_run (run : Run (SharedFallible queue group) past) : Run (Sound queue) past :=
  run.mono fun _ _ _ fits => fits.1

private theorem unrecorded_next (run : Run (SharedFallible queue group) (e :: past))
    (nonzero : id ≠ noEntry)
    (claimed : (id.toNat : Int) ≤
      (storageAfter past).table.standing ((RowKey.groupPointer group).encode queue))
    (lost : ¬ Recorded past ⟨queue, group, member⟩ id) :
    e.servedTo? ⟨queue, group, member⟩ ≠ some id ∧
      ¬ Recorded (e :: past) ⟨queue, group, member⟩ id := by
  obtain ⟨earlier, fits, found⟩ := Run.cons_iff.1 run
  have sound := sound_run earlier
  have custody := Custody.of_run earlier member
  have aside (silent : e.servedTo? ⟨queue, group, member⟩ = none)
      (kept : e.cursorOf? ⟨queue, group, member⟩ = none)
      (stores : Stores (e :: past) ⟨queue, group, member⟩ id → Stores past ⟨queue, group, member⟩ id) :
      e.servedTo? ⟨queue, group, member⟩ ≠ some id ∧
        ¬ Recorded (e :: past) ⟨queue, group, member⟩ id := by
    refine ⟨by simp [silent], fun recorded => lost (recorded.imp stores fun held => ?_)⟩
    rwa [← lastCursor?_cons_of_none kept]
  by_cases own : e.call.seat? = some ⟨queue, group, member⟩
  · rcases fits.own_cases own with
      ⟨c, config, cursor, s, asked, shared, may, follows⟩ | ⟨p, c, s, asked, follows⟩
    · obtain ⟨active, rest, served⟩ := @held_of_dequeue past ⟨queue, group, member⟩ e c config cursor s
        (· ≠ id) sound found own asked shared may follows custody.rests
        (fun _ stores _ same => lost (.inl (same ▸ stores)))
        (fun k last loaded _ pends same => lost (.inr ⟨k, last, loaded, .inl (same ▸ pends)⟩))
        fun other beyond same => Int.not_le.2 beyond (same ▸ claimed)
      refine ⟨fun here => served id here rfl, ?_⟩
      rintro (stores | ⟨k, last, loaded, held⟩)
      · exact active id stores nonzero rfl
      · cases (lastCursor?_cons_of_some (Event.cursorOf?_of_dequeue own asked)).symm.trans last
        rcases held with pends | ⟨entry, mem, _⟩
        · exact (rest loaded).2 id pends rfl
        · rw [(rest loaded).1.1] at mem
          cases mem
    · refine aside (Event.servedTo?_of_ack asked) (Event.cursorOf?_of_ack asked) fun stores => ?_
      have legible : (storageAfter past).table.Bears ⟨queue, group, member⟩ Column.Legible :=
        legible_of_run sound
      obtain ⟨a, r, holds⟩ := legible.exists_holds
      rcases ack_cases_of_run sound found own asked follows holds with ⟨_, row⟩ | ⟨_, holds', _⟩
      · rwa [Stores, storageAfter, Table.stored, row] at stores
      · have same := Option.some.inj (holds'.active.symm.trans stores)
        split at same
        · exact absurd same.symm nonzero
        · exact same ▸ holds.active
  · refine aside (Event.servedTo?_of_other own) (Event.cursorOf?_of_other own) fun stores => ?_
    rwa [Stores, storageAfter, Table.stored, Event.history_row fits.1.1 own, found] at stores

private theorem never_served {newer : List Event}
    (run : Run (SharedFallible queue group) (newer ++ past)) (nonzero : id ≠ noEntry)
    (claimed : (id.toNat : Int) ≤
      (storageAfter past).table.standing ((RowKey.groupPointer group).encode queue))
    (lost : ¬ Recorded past ⟨queue, group, member⟩ id) :
    ¬ Recorded (newer ++ past) ⟨queue, group, member⟩ id ∧
      ∀ e ∈ newer, e.servedTo? ⟨queue, group, member⟩ ≠ some id := by
  induction newer with
  | nil => exact ⟨by rwa [List.nil_append], fun e mem => absurd mem List.not_mem_nil⟩
  | cons e newer ih =>
      obtain ⟨still, silent⟩ := ih (Run.cons_iff.1 run).1
      have further := Int.le_trans claimed (standing_le_of_suffix (Run.cons_iff.1 run).1
        (List.suffix_append newer past) ((RowKey.groupPointer group).encode queue))
      obtain ⟨unserved, gone⟩ := unrecorded_next run nonzero further still
      exact ⟨gone, List.forall_mem_cons.2 ⟨unserved, silent⟩⟩

private theorem served_of_in_hand (run : Run (SharedFallible queue group) (e :: past))
    (comes : e.ComesFor past ⟨queue, group, member⟩ c config cursor s id) (nonzero : id ≠ noEntry)
    {entry : Entry} {v : Version} (appended : Enqueued past ⟨queue, id⟩ entry v) (seen : s.sees v)
    (live : ¬ RetiredAt past ⟨queue, id⟩ (s.sees ·)) :
    e.delivery? = some (.served ⟨queue, id⟩ ⟨entry.payload, {}⟩) := by
  obtain ⟨own, asked, calm, valid, admitted, held⟩ := comes
  obtain ⟨earlier, fits, found⟩ := Run.cons_iff.1 run
  have sound := sound_run earlier
  obtain ⟨shared, may, follows⟩ : config.partitioner = .roundRobin ∧
      MayPass past ⟨queue, group, member⟩ cursor ∧ Follows past ⟨queue, group, member⟩ s := by
    rcases fits.own_cases own with ⟨_, _, _, _, same, keeps⟩ | ⟨_, _, _, other, _⟩
    · cases asked.symm.trans same
      exact keeps
    · cases asked.symm.trans other
  have legible : (storageAfter past).table.Bears ⟨queue, group, member⟩ Column.Legible :=
    legible_of_run sound
  obtain ⟨a, r, holds⟩ := legible.exists_holds
  have rest (loaded : cursor.loaded = true) : cursor.AtRest queue (storageAfter past).table :=
    (Custody.of_run earlier member).rests cursor (may.last loaded) loaded
  have inHand : cursor.InHand a id := by
    unfold Cursor.InHand
    rcases held with ⟨loaded, pends⟩ | ⟨unloaded, stores⟩
    · rwa [if_pos loaded]
    · rw [if_neg (by simp [unloaded])]
      exact Option.some.inj (holds.active.symm.trans stores)
  obtain ⟨delivery, t, done⟩ := Custody.answered_of_calm sound found own asked shared follows holds rest
    calm valid admitted
  obtain ⟨delivers, _, _, ends⟩ :=
    Custody.turn_of_answered sound found own asked shared follows holds rest done
  obtain ⟨entry', v', appended', rfl⟩ :=
    ends.served_of_inHand nonzero inHand ⟨v, seen, .inl ⟨entry, appended⟩⟩ live
  obtain ⟨rfl, _⟩ := (Stored.of_run sound).once _ _ _ _ _ appended appended'
  exact delivers.delivery?

/-- Each id up to the pointer of the group was handed to a member, acknowledged or found retired, or is
recorded, or one of the members' requests let go of it.  A member that has no record of the id is never
handed it; one that comes for it is, when its snapshot shows the entry. -/
theorem claimed_kept_or_dropped (run : Run (SharedFallible queue group) past) (nonzero : id ≠ noEntry)
    (claimed : (id.toNat : Int) ≤
      (storageAfter past).table.standing ((RowKey.groupPointer group).encode queue)) :
    (∃ member, Settled past ⟨queue, group, member⟩ id ∨ Dropped past ⟨queue, group, member⟩ id ∨
      Recorded past ⟨queue, group, member⟩ id) ∧
    (∀ member, ¬ Recorded past ⟨queue, group, member⟩ id →
      ∀ newer, Run (SharedFallible queue group) (newer ++ past) →
        ∀ e ∈ newer, e.servedTo? ⟨queue, group, member⟩ ≠ some id) ∧
    ∀ member e c config cursor s entry v, Run (SharedFallible queue group) (e :: past) →
      e.ComesFor past ⟨queue, group, member⟩ c config cursor s id →
      Enqueued past ⟨queue, id⟩ entry v → s.sees v → ¬ RetiredAt past ⟨queue, id⟩ (s.sees ·) →
      e.delivery? = some (.served ⟨queue, id⟩ ⟨entry.payload, {}⟩) := by
  have positive : 0 < id.toNat := Nat.pos_of_ne_zero fun zero => nonzero (UInt64.toNat_inj.1 zero)
  obtain ⟨taker, took⟩ := exists_took (sound_run run) positive claimed
  refine ⟨⟨taker, (Custody.of_run run taker).accounted id took⟩, fun member lost newer further => ?_,
    fun member e c config cursor s entry v further comes appended seen live => ?_⟩
  · exact (never_served further nonzero claimed lost).2
  · exact served_of_in_hand further comes nonzero appended seen live

/-- A member's request fails after it has claimed an id; the member does not keep its cursor and asks
again. -/
def failedClaim : List Call :=
  let queue : Queue := ⟨"q", ⟨.roundRobin, 20⟩⟩
  let ask : Request := .dequeue { group := 1, member := 0, groupSize := 1 } ⟨.roundRobin, 20⟩ .fresh
    (.upTo 10)
  [⟨queue, ask, .none⟩, ⟨queue, ask, .startingAt .get 1⟩, ⟨queue, .enqueue ⟨[97], {}⟩ 1, .none⟩]

private theorem failed_run : Run (SharedFallible "q" 1) (replay failedClaim) := by
  refine .replay_cons (.replay_cons (.replay_cons .start ?_) ?_) ?_
  · exact ⟨⟨rfl, fun retires => by cases retires⟩, trivial⟩
  · refine ⟨⟨rfl, fun retires => by cases retires⟩, fun _ => ⟨rfl, .inl rfl, ?_⟩⟩
    exact follows_replay (by decide) (by simp [Request.snapshot?])
  · refine ⟨⟨rfl, fun retires => by cases retires⟩, fun _ => ⟨rfl, .inl rfl, ?_⟩⟩
    exact follows_replay (by decide) (by simp [Request.snapshot?])

private theorem failed_member {e : Event} {member : InstanceId} (mem : e ∈ replay failedClaim)
    (own : e.call.seat? = some ⟨"q", 1, member⟩) : member = 0 := by
  have members : ∀ call ∈ failedClaim, call.seat? = some ⟨"q", 1, member⟩ → member = 0 := by
    simp +contextual [failedClaim, Call.seat?, Request.consumer?, Queue.seat, eq_comm]
  exact members e.call (call_mem_of_mem_replay mem) own

private theorem failed_unrecorded (member : InstanceId) :
    ¬ Recorded (replay failedClaim) ⟨"q", 1, member⟩ 1 := by
  by_cases first : member = 0
  · subst first
    rintro (stores | ⟨k, last, _, held⟩)
    · exact absurd stores (by rw [Stores]; with_unfolding_all decide)
    · have left : (lastCursor? (replay failedClaim) ⟨"q", 1, 0⟩).map
          (fun k => (k.pending, k.cache.entries)) = some (none, []) := by with_unfolding_all decide
      rw [last] at left
      obtain ⟨free, empty⟩ := Prod.mk.inj (Option.some.inj left)
      rcases held with pends | ⟨entry, mem, _⟩
      · cases free.symm.trans pends
      · rw [empty] at mem
        cases mem
  · rintro (stores | ⟨k, last, _⟩)
    · cases found : (storageAfter (replay failedClaim)).table.stored ⟨"q", 1, member⟩ .active with
      | none =>
          rw [Stores, found] at stores
          cases stores
      | some cell =>
          obtain ⟨v, here⟩ := History.exists_at?_of_latest found
          obtain ⟨e, mem, own, _⟩ := known_of_row (sound_run failed_run) _ v
            (show History.Has _ v by rw [History.Has, here]; simp)
          exact first (failed_member mem own)
    · obtain ⟨e, mem, left⟩ := List.exists_of_findSome?_eq_some last
      refine first (failed_member mem ?_)
      unfold Event.cursorOf? at left
      split at left
      · rename_i asks
        exact asks.1
      · cases left

/-- In that run the entry was not handed out, acknowledged or retired; the member let go of it, and it
is never handed out, whatever follows. -/
theorem failed_claim_dropped :
    Enqueued (replay failedClaim) ⟨"q", 1⟩ ⟨[97], {}⟩ 1 ∧
      (∃ member, Dropped (replay failedClaim) ⟨"q", 1, member⟩ 1) ∧
      ∀ member newer, Run (SharedFallible "q" 1) (newer ++ replay failedClaim) →
        ∀ e ∈ newer, e.servedTo? ⟨"q", 1, member⟩ ≠ some 1 := by
  obtain ⟨⟨member, kept⟩, lost, _⟩ := @claimed_kept_or_dropped "q" 1 (replay failedClaim) 1 failed_run
    (by decide) (by with_unfolding_all decide)
  refine ⟨⟨_, List.mem_of_getLast? rfl, rfl, by decide⟩, ⟨member, ?_⟩,
    fun member => lost member (failed_unrecorded member)⟩
  have unserved : ∀ e ∈ replay failedClaim, e.delivery?.bind (·.pointer?) = none := by
    with_unfolding_all decide
  rcases kept with (served | acked | ⟨v, _, retired⟩) | dropped | recorded
  · obtain ⟨e, mem, here⟩ := List.mem_filterMap.1 served
    obtain ⟨_, delivery, answered, pointer⟩ := Event.own_of_servedTo? here
    have nothing := unserved e mem
    rw [answered, Option.bind_some] at nothing
    rw [nothing] at pointer
    cases pointer
  · simp [ackedIds, replay, failedClaim, Event.ackedBy?] at acked
  · exact absurd retired (not_invalidated_replay (by simp [failedClaim]) v)
  · exact dropped
  · exact absurd recorded (failed_unrecorded member)

end SharedFallible

end VersionedQueue
