import VersionedQueue.Proofs.Delivery.Reopening

/-!
# The claim on the active entry

A member of a shared group makes an entry the active one of its row only together with an open claim on
the entry, and acknowledging the entry clears it from the row.  So whichever calls fail, the claim on
the active entry is open, and the member can acknowledge what a reload hands to it.  A reload hands
nothing to it that it has acknowledged, once the group has come to the entry.
-/

set_option autoImplicit false
set_option relaxedAutoImplicit false

namespace VersionedQueue

namespace Consistent

variable {seat : Seat} {past : List Event} {e : Event} {id : EntryId} {c : Consumer} {config : Config}
  {cursor : Cursor} {s : Snapshot}

theorem claimed_of_stores (run : Run (Consistent seat .roundRobin) past) (nonzero : id ≠ noEntry)
    (stores : Stores past seat id) : claimState seat id past = some .claimed := by
  induction run with
  | start => exact absurd (Option.some.inj stores).symm nonzero
  | @next past call earlier fits ih =>
      let e : Event := ⟨call, storageAfter past⟩
      have run : Run (Consistent seat .roundRobin) (e :: past) := .next earlier fits
      change claimState seat id (e :: past) = _
      rcases stores_cases run stores with none | before | opens
      · exact absurd none nonzero
      · have kept : e.ackedBy? seat ≠ some id := fun acked =>
          nonzero (inactive_of_ackedBy run acked stores)
        rw [claimState, if_neg kept, ih before, ite_self]
      · rw [claimState, if_pos opens]

theorem settled_of_ackedBy (run : Run (Consistent seat .roundRobin) (e :: past)) (nonzero : id ≠ noEntry)
    (acked : e.ackedBy? seat = some id) :
    StoresClaim (e :: past) seat id .acked ∧ ¬ Stores (e :: past) seat id := by
  refine ⟨(storesClaim_iff run _).2 ?_, fun stores => nonzero (inactive_of_ackedBy run acked stores)⟩
  simp [claimState, Event.opens?_of_ackedBy acked, acked]

theorem unserved_of_inactive (run : Run (Consistent seat .roundRobin) (e :: past))
    (own : e.call.seat? = some seat) (asked : e.call.request = .dequeue c config cursor s)
    (unloaded : cursor.loaded = false) (inactive : ¬ Stores past seat id)
    (reached : (id.toNat : Int) ≤ (storageAfter past).table.standing seat.groupRow) :
    e.servedTo? seat ≠ some id := by
  obtain ⟨earlier, fits, found⟩ := Run.cons_iff.1 run
  obtain ⟨_, _, handed⟩ := @held_of_resting past seat e c config cursor s (· ≠ id) (oneQueue earlier) found
    own asked (fits.asks own _ _ _ _ asked) (fits.follows own s (by rw [asked]; rfl))
    (fun loaded => by cases unloaded.symm.trans loaded)
    (fun other stores _ same => inactive (same ▸ stores))
    fun other beyond same => Int.not_le.2 beyond (same ▸ reached)
  exact fun served => handed id served rfl

/-- After every call to a queue, whichever calls fail, the claim of a member on the active entry of its
row is open.  The member can acknowledge that entry, as well as one that was handed to it, whenever
storage works, and an acknowledgement that fails changes nothing.  One that is accepted closes the claim
and clears the entry, and while the claim stays closed a reload does not hand the entry out, once the
group has come to it. -/
theorem active_is_claimed (run : Run (Consistent seat .roundRobin) past) (nonzero : id ≠ noEntry) :
    (Stores past seat id → StoresClaim past seat id .claimed) ∧
    (Stores past seat id ∨ id ∈ outstanding seat past →
      ∀ e c s, Run (Consistent seat .roundRobin) (e :: past) → e.call.seat? = some seat →
        e.call.request = .ack ⟨seat.queue, id⟩ c s →
        (e.call.plan = .none → e.ackedBy? seat = some id) ∧
        (e.ackedBy? seat = some id →
          StoresClaim (e :: past) seat id .acked ∧ ¬ Stores (e :: past) seat id) ∧
        (e.ackedBy? seat ≠ some id → e.before.table.Alike e.after.table)) ∧
    (StoresClaim past seat id .acked →
      (id.toNat : Int) ≤ (storageAfter past).table.standing seat.groupRow →
      ∀ e c config cursor s, Run (Consistent seat .roundRobin) (e :: past) →
        e.call.seat? = some seat → e.call.request = .dequeue c config cursor s →
        cursor.loaded = false → e.servedTo? seat ≠ some id) := by
  have claimed := claimed_of_stores run nonzero
  refine ⟨fun stores => (storesClaim_iff run _).2 (claimed stores),
    fun held e c s further own asked => ⟨fun calm => ?_, settled_of_ackedBy further nonzero,
      alike_of_unaccepted own asked⟩,
    fun acked reached e c config cursor s further own asked unloaded => ?_⟩
  · have opened : claimState seat id past = some .claimed :=
      held.elim claimed fun out => (claimState_eq_claimed_iff run).2 (.inl out)
    exact (decided_of_calm further own asked calm).1 opened
  · have inactive : ¬ Stores past seat id := fun stores =>
      nonzero (inactive_of_acked run ((storesClaim_iff run _).1 acked) stores)
    exact unserved_of_inactive further own asked unloaded inactive reached

/-- A member loses its cursor, is handed the same entry again, and acknowledges it, at first while storage
refuses to store anything.  Then it loses its cursor once more. -/
def forgetful : List Call :=
  let queue : Queue := ⟨"q", ⟨.roundRobin, 20⟩⟩
  let worker : Consumer := { group := 1, member := 0, groupSize := 1 }
  let ask : Request := .dequeue worker ⟨.roundRobin, 20⟩ .fresh (.upTo 10)
  let ack : Request := .ack ⟨"q", 1⟩ worker (.upTo 10)
  [⟨queue, ask, .none⟩, ⟨queue, ack, .none⟩, ⟨queue, ack, .startingAt .put 0⟩, ⟨queue, ask, .none⟩,
    ⟨queue, ask, .none⟩, ⟨queue, .enqueue ⟨[97], {}⟩ 1, .none⟩]

private theorem forgetful_run : Run (Consistent ⟨"q", 1, 0⟩ .roundRobin) (replay forgetful) := by
  have fits (n : Nat) {call : Call} (here : forgetful[n]? = some call) :
      Consistent ⟨"q", 1, 0⟩ .roundRobin (replay (forgetful.drop (n + 1))) call :=
    .of_replay (s := .upTo 10) (by decide) (by simp [forgetful, Call.Regular, Queue.configFor]) here
  exact .replay_cons (.replay_cons (.replay_cons (.replay_cons (.replay_cons (.replay_cons .start
    (fits 5 rfl)) (fits 4 rfl)) (fits 3 rfl)) (fits 2 rfl)) (fits 1 rfl)) (fits 0 rfl)

/-- The claim on the entry is open through the refused acknowledgement, and the accepted one is the end of
it. -/
theorem forgetful_settles :
    ∃ last ack refused again earlier, replay forgetful = last :: ack :: refused :: again :: earlier ∧
      again.servedTo? ⟨"q", 1, 0⟩ = some 1 ∧
      StoresClaim (refused :: again :: earlier) ⟨"q", 1, 0⟩ 1 .claimed ∧
      ack.ackedBy? ⟨"q", 1, 0⟩ = some 1 ∧ last.servedTo? ⟨"q", 1, 0⟩ ≠ some 1 := by
  have before := forgetful_run.of_suffix (replay_drop_suffix 2 forgetful)
  have stores : Stores (replay (forgetful.drop 2)) ⟨"q", 1, 0⟩ 1 := by
    rw [Stores]
    with_unfolding_all decide
  obtain ⟨claimed, acks, _⟩ := @active_is_claimed _ _ 1 before (by decide)
  have after := forgetful_run.of_suffix (replay_drop_suffix 1 forgetful)
  obtain ⟨calm, closes, _⟩ := acks (.inl stores) _ _ _ after rfl rfl
  obtain ⟨_, _, silent⟩ := @active_is_claimed _ _ 1 after (by decide)
  have reached : ((1 : EntryId).toNat : Int) ≤
      (storageAfter (replay (forgetful.drop 1))).table.standing (Seat.groupRow ⟨"q", 1, 0⟩) := by
    with_unfolding_all decide
  exact ⟨_, _, _, _, _, rfl, by with_unfolding_all decide, claimed stores, calm rfl,
    silent (closes (calm rfl)).1 reached _ _ _ _ _ forgetful_run rfl rfl rfl⟩

end Consistent

end VersionedQueue
