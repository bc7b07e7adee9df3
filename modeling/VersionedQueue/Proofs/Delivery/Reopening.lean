import VersionedQueue.Proofs.Delivery.Active
import VersionedQueue.Proofs.Run.Replay
import VersionedQueue.Proofs.Shared.Custody

/-!
# Acknowledged claims that are opened again

A member of a shared group writes an open claim on the entry that a request leaves it with, whatever the
claim was before.  An acknowledged entry is not the active one of its row, and handing it back leaves its
claim.  So an acknowledged claim is opened again only by a request that finds the id pending in its cursor,
or takes it from the pointer of the group: the id was acknowledged before it was handed out.
-/

set_option autoImplicit false
set_option relaxedAutoImplicit false

namespace VersionedQueue

/-- A member's request comes with a loaded cursor in which an id is pending, or moves the pointer of the
group past the id. -/
def Event.ResumesOrTakes (e : Event) (seat : Seat) (cursor : Cursor) (id : EntryId) : Prop :=
  cursor.loaded = true ∧ cursor.pending = some id ∨ e.Takes seat id

/-- An id is still to come to a member if the pointer of its group has not come to it, or the loaded cursor
that its last request left waits for it. -/
def Upcoming (past : List Event) (seat : Seat) (id : EntryId) : Prop :=
  (storageAfter past).table.standing seat.groupRow < id.toNat ∨
    ∃ k, lastCursor? past seat = some k ∧ k.loaded = true ∧ k.pending = some id

/-- The claim of a consumer on an entry is stored in a state. -/
def StoresClaim (past : List Event) (seat : Seat) (id : EntryId) (state : ClaimState) : Prop :=
  ((storageAfter past).table.claims seat id).latest = some state.encode

theorem Consistent.storesClaim_iff {seat : Seat} {p : Partitioner} {past : List Event} {id : EntryId}
    (run : Run (Consistent seat p) past) (state : ClaimState) :
    StoresClaim past seat id state ↔ claimState seat id past = some state := by
  rw [StoresClaim, Consistent.claims_of_run run, Option.map_eq_some_iff]
  constructor
  · rintro ⟨other, here, same⟩
    have decoded := congrArg ClaimState.decode? same
    simp only [ClaimState.decode?_encode, Option.some.injEq] at decoded
    rw [here, decoded]
  · intro here
    exact ⟨state, here, rfl⟩

namespace SharedTurn

variable {queue : String} {past : List Event} {s : Snapshot} {highest group group' : Int}
  {a a' id : EntryId} {k : Cursor} {d : Delivery} {pending : Option EntryId}

/-- What a request has claimed in the end is the active entry of the row, or was pending in the cursor, or
is taken from the pointer of the group. -/
theorem claimOf_cases (ends : SharedTurn queue past s highest group a k d a' group' pending)
    (claims : claimOf d pending = some id) :
    a = id ∧ id ≠ noEntry ∨ k.loaded = true ∧ k.pending = some id ∨
      group < id.toNat ∧ (id.toNat : Int) ≤ group' := by
  have begun {a₀ : EntryId} {p₀ : Option EntryId} (begins : SharedStart queue past s a k a₀ p₀)
      (claimed : Claimed queue past s p₀ group (some id) group') :
      a = id ∧ id ≠ noEntry ∨ k.loaded = true ∧ k.pending = some id ∨
        group < id.toNat ∧ (id.toNat : Int) ≤ group' := by
    rcases claimed.latest id rfl with ⟨pends, _⟩ | ⟨after, last⟩
    · cases begins with
      | kept loaded => exact .inr (.inl ⟨loaded, pends⟩)
      | idle _ _ => cases pends
      | waiting _ some _ =>
          cases pends
          exact .inl ⟨rfl, some⟩
      | cleared _ _ _ => cases pends
    · exact .inr (.inr ⟨after, Int.le_of_eq last⟩)
  cases ends with
  | again _ some _ _ =>
      cases claims
      exact .inl ⟨rfl, some⟩
  | fetched begins claimed _ _ =>
      cases claims
      exact begun begins claimed
  | waiting begins claimed _ =>
      cases claims
      exact begun begins claimed
  | caughtUp _ _ _ => cases claims

theorem claimOf_of_pending (ends : SharedTurn queue past s highest group a k d a' group' pending)
    (pends : pending = some id) : claimOf d pending = some id := by
  cases ends with
  | again _ _ _ _ => cases pends
  | fetched _ _ _ _ => cases pends
  | waiting _ _ _ => exact pends
  | caughtUp _ _ _ => cases pends

theorem claimOf_of_taken (ends : SharedTurn queue past s highest group a k d a' group' pending)
    (nonzero : id ≠ noEntry)
    (held : k.loaded = true ∧ k.pending = some id ∨ group < id.toNat ∧ (id.toNat : Int) ≤ group') :
    claimOf d pending = some id ∨ RetiredAt past ⟨queue, id⟩ (s.sees ·) := by
  have inHand : k.InHand a id ∨ group < id.toNat ∧ (id.toNat : Int) ≤ group' := by
    refine held.imp_left fun waits => ?_
    rw [Cursor.InHand, if_pos waits.1]
    exact waits.2
  cases ends with
  | again unloaded _ _ _ =>
      rcases held with ⟨loaded, _⟩ | ⟨after, upTo⟩
      · exact absurd (loaded.symm.trans unloaded) (by simp)
      · exact absurd upTo (Int.not_le.2 after)
  | fetched begins claimed _ _ => exact begins.claims claimed nonzero inHand
  | waiting begins claimed _ => exact begins.claims claimed nonzero inHand
  | caughtUp begins claimed _ => exact begins.claims claimed nonzero inHand

end SharedTurn

namespace Keeping

variable {seat : Seat} {past newer : List Event} {e : Event} {id : EntryId} {c : Consumer}
  {config : Config} {cursor : Cursor} {s : Snapshot}

theorem rests (run : Run (Keeping seat .roundRobin) past) :
    ∀ k, lastCursor? past seat = some k → k.loaded = true →
      k.AtRest seat.queue (storageAfter past).table := by
  induction run with
  | start => exact nofun
  | @next past call earlier fits ih =>
      intro k last loaded
      let e : Event := ⟨call, storageAfter past⟩
      cases left : e.cursorOf? seat with
      | none =>
          rw [lastCursor?_cons_of_none left] at last
          obtain ⟨cache, known⟩ := ih k last loaded
          exact ⟨cache, Int.le_trans known (e.standing_le _)⟩
      | some k' =>
          obtain ⟨own, c, config, cursor, s, asked⟩ := Event.dequeue_of_cursorOf? left
          rw [lastCursor?_cons_of_some (Event.cursorOf?_of_dequeue own asked)] at last
          cases last
          obtain ⟨_, rest, _⟩ := @held_of_dequeue past seat e c config cursor s (fun _ => True)
            (sound earlier) rfl own asked (fits.asks own _ _ _ _ asked) (fits.passes own _ _ _ _ asked)
            (fits.follows own s (by rw [asked]; rfl)) ih (fun _ _ _ => trivial)
            (fun _ _ _ _ _ => trivial) fun _ _ => trivial
          exact (rest loaded).1

private theorem opens_cases (run : Run (Keeping seat .roundRobin) (e :: past))
    (own : e.call.seat? = some seat) (asked : e.call.request = .dequeue c config cursor s)
    (nonzero : id ≠ noEntry) (acked : claimState seat id past = some .acked) :
    (e.opens? seat = some id → e.ResumesOrTakes seat cursor id) ∧
    (e.delivery? ≠ none → e.ResumesOrTakes seat cursor id →
      e.opens? seat = some id ∨ RetiredAt past ⟨seat.queue, id⟩ (s.sees ·)) := by
  obtain ⟨earlier, fits, found⟩ := Run.cons_iff.1 run
  have shared := fits.asks own _ _ _ _ asked
  obtain ⟨a, r, holds⟩ := Consistent.exists_holds (consistent earlier)
  have inactive : a ≠ id := by
    intro same
    exact nonzero (Consistent.inactive_of_acked (consistent earlier) acked (same ▸ holds.active))
  cases done : e.call.queue.dequeue c config s ⟨{ e.before with plan := e.call.plan }, cursor⟩ with
  | ok d t =>
      obtain ⟨delivers, _, _, ends⟩ := Custody.turn_of_answered (sound earlier) found own asked shared
        (fits.follows own s (by rw [asked]; rfl)) holds
        (fun loaded => rests earlier cursor ((fits.passes own _ _ _ _ asked).last loaded) loaded) done
      have opens : e.opens? seat = claimOf d t.cursor.pending := by
        rw [Event.opens?_of_delivers delivers asked]
        cases d with
        | served ptr x =>
            rw [Delivery.opens?, shared]
            rfl
        | empty => rfl
      rw [opens]
      constructor
      · intro claims
        rcases ends.claimOf_cases claims with ⟨active, _⟩ | held
        · exact absurd active inactive
        · exact held.imp_right fun waits => ⟨own, found ▸ waits.1, waits.2⟩
      · intro _ takes
        exact ends.claimOf_of_taken nonzero
          (takes.imp_right fun waits => ⟨found ▸ waits.2.1, waits.2.2⟩)
  | error err t =>
      have performed := Event.outcome_of_dequeue asked
      rw [done] at performed
      rw [Event.opens?_of_failed asked (by rw [performed]; rfl)]
      refine ⟨fun claims => ?_, fun answered => absurd (Event.servedTo?_of_error asked done).1 answered⟩
      cases claims

private theorem takes_up_of_opens (run : Run (Keeping seat .roundRobin) (e :: past)) (nonzero : id ≠ noEntry)
    (acked : claimState seat id past = some .acked) (opens : e.opens? seat = some id) :
    ∃ c config cursor s, e.call.seat? = some seat ∧ e.call.request = .dequeue c config cursor s ∧
      e.ResumesOrTakes seat cursor id := by
  cases left : e.cursorOf? seat with
  | none =>
      have name := (Run.cons_iff.1 run).2.1.name
      have back := Event.handsBack_of_opens name left opens
      exact absurd acked (Consistent.row_of_handsBack (consistent run) back).1
  | some k =>
      obtain ⟨own, c, config, cursor, s, asked⟩ := Event.dequeue_of_cursorOf? left
      exact ⟨c, config, cursor, s, own, asked, (opens_cases run own asked nonzero acked).1 opens⟩

private theorem behind_next (run : Run (Keeping seat .roundRobin) (e :: past)) (nonzero : id ≠ noEntry)
    (acked : claimState seat id past = some .acked) (behind : ¬ Upcoming past seat id) :
    ¬ Upcoming (e :: past) seat id := by
  obtain ⟨earlier, fits, found⟩ := Run.cons_iff.1 run
  have claimed : (id.toNat : Int) ≤ (storageAfter past).table.standing seat.groupRow :=
    Int.not_lt.1 fun beyond => behind (.inl beyond)
  have group : (storageAfter past).table.standing seat.groupRow ≤
      e.after.table.standing seat.groupRow := found ▸ e.standing_le _
  rintro (beyond | ⟨k, last, loaded, pends⟩)
  · exact Int.not_le.2 beyond (Int.le_trans claimed group)
  · cases left : e.cursorOf? seat with
    | none =>
        rw [lastCursor?_cons_of_none left] at last
        exact behind (.inr ⟨k, last, loaded, pends⟩)
    | some k' =>
        obtain ⟨own, c, config, cursor, s, asked⟩ := Event.dequeue_of_cursorOf? left
        rw [lastCursor?_cons_of_some (Event.cursorOf?_of_dequeue own asked)] at last
        cases last
        obtain ⟨_, rest, _⟩ := @held_of_dequeue past seat e c config cursor s (· ≠ id) (sound earlier)
          found own asked (fits.asks own _ _ _ _ asked) (fits.passes own _ _ _ _ asked)
          (fits.follows own s (by rw [asked]; rfl)) (rests earlier)
          (fun other stores _ same => nonzero
            (Consistent.inactive_of_acked (consistent earlier) acked (same ▸ stores)))
          (fun k last loaded _ pends same => behind (.inr ⟨k, last, loaded, same ▸ pends⟩))
          fun other beyond same => Int.not_le.2 beyond (same ▸ claimed)
        exact (rest loaded).2 id pends rfl

private theorem storesClaim_iff (run : Run (Keeping seat .roundRobin) past) (state : ClaimState) :
    StoresClaim past seat id state ↔ claimState seat id past = some state :=
  Consistent.storesClaim_iff (consistent run) state

private theorem acked_kept (further : Run (Keeping seat .roundRobin) (newer ++ past))
    (nonzero : id ≠ noEntry) (acked : claimState seat id past = some .acked)
    (behind : ¬ Upcoming past seat id) :
    claimState seat id (newer ++ past) = some .acked ∧ ¬ Upcoming (newer ++ past) seat id := by
  induction newer with
  | nil => exact ⟨acked, behind⟩
  | cons e newer ih =>
      obtain ⟨acked, behind⟩ := ih (Run.cons_iff.1 further).1
      have shut : e.opens? seat ≠ some id := by
        intro opens
        obtain ⟨c, config, cursor, s, own, asked, takes⟩ :=
          takes_up_of_opens further nonzero acked opens
        obtain ⟨_, fits, found⟩ := Run.cons_iff.1 further
        rcases takes with ⟨loaded, pends⟩ | ⟨_, beyond, _⟩
        · exact behind (.inr ⟨cursor, (fits.passes own _ _ _ _ asked).last loaded, loaded, pends⟩)
        · rw [found] at beyond
          exact behind (.inl beyond)
      refine ⟨?_, behind_next further nonzero acked behind⟩
      change claimState seat id (e :: (newer ++ past)) = _
      rw [claimState, if_neg shut, acked]
      split <;> rfl

/-- A member has acknowledged an entry.  Its claim is opened again only by a request that takes the id
up, and by each that does, is answered, and does not find the id retired.  If the id is not to come to
the member any more, the claim stays acknowledged, whatever follows. -/
theorem acked_until_taken_up (run : Run (Keeping seat .roundRobin) past) (nonzero : id ≠ noEntry)
    (acked : StoresClaim past seat id .acked) :
    (∀ e, Run (Keeping seat .roundRobin) (e :: past) →
      (¬ StoresClaim (e :: past) seat id .acked → StoresClaim (e :: past) seat id .claimed ∧
        ∃ c config cursor s, e.call.seat? = some seat ∧ e.call.request = .dequeue c config cursor s ∧
          e.ResumesOrTakes seat cursor id) ∧
      ∀ c config cursor s, e.call.seat? = some seat → e.call.request = .dequeue c config cursor s →
        e.ResumesOrTakes seat cursor id → e.delivery? ≠ none →
        ¬ RetiredAt past ⟨seat.queue, id⟩ (s.sees ·) → StoresClaim (e :: past) seat id .claimed) ∧
    (¬ Upcoming past seat id → ∀ newer, Run (Keeping seat .roundRobin) (newer ++ past) →
      StoresClaim (newer ++ past) seat id .acked) := by
  rw [storesClaim_iff run] at acked
  refine ⟨fun e further => ⟨fun reopened => ?_, fun c config cursor s own asked takes answered live => ?_⟩,
    fun behind newer further => ?_⟩
  · rw [storesClaim_iff further] at reopened ⊢
    have opens : e.opens? seat = some id := Classical.byContradiction fun shut => reopened (by
      rw [claimState, if_neg shut, acked]
      split <;> rfl)
    exact ⟨by rw [claimState, if_pos opens], takes_up_of_opens further nonzero acked opens⟩
  · rw [storesClaim_iff further, claimState, if_pos]
    exact ((opens_cases further own asked nonzero acked).2 answered takes).resolve_right live
  · exact (storesClaim_iff further _).2 (acked_kept further nonzero acked behind).1

/-- A member is told to wait for an entry that it does not see yet, acknowledges the entry, and asks again
with the cursor that waits. -/
def early : List Call :=
  let queue : Queue := ⟨"q", ⟨.roundRobin, 20⟩⟩
  let worker : Consumer := { group := 1, member := 0, groupSize := 1 }
  let waits : Cursor := { loaded := true, writePointer := 1, pending := some 1 }
  let ask (k : Cursor) : Request := .dequeue worker ⟨.roundRobin, 20⟩ k (.upTo 10)
  [⟨queue, ask waits, .none⟩, ⟨queue, .ack ⟨"q", 1⟩ worker (.upTo 10), .none⟩, ⟨queue, ask .fresh, .none⟩,
    ⟨queue, .enqueue ⟨[97], {}⟩ 100, .none⟩]

private theorem early_run : Run (Keeping ⟨"q", 1, 0⟩ .roundRobin) (replay early) := by
  have fits (n : Nat) {call : Call} (here : early[n]? = some call)
      (may : ∀ c config cursor s, call.request = .dequeue c config cursor s →
        MayPass (replay (early.drop (n + 1))) ⟨"q", 1, 0⟩ cursor) :
      Keeping ⟨"q", 1, 0⟩ .roundRobin (replay (early.drop (n + 1))) call := by
    have calm : ∀ call ∈ early, call.plan = .none := by simp [early]
    have consistent : Consistent ⟨"q", 1, 0⟩ .roundRobin (replay (early.drop (n + 1))) call :=
      .of_replay (s := .upTo 10) (by decide) (by simp [early, Call.Regular, Queue.configFor]) here
    exact ⟨⟨consistent, fun _ => may⟩, fun _ => calm call (List.mem_of_getElem? here)⟩
  have asks (n : Nat) {c : Consumer} {config : Config} {cursor : Cursor} {s : Snapshot}
      (here : early[n]? = some ⟨⟨"q", ⟨.roundRobin, 20⟩⟩, .dequeue c config cursor s, .none⟩)
      (may : MayPass (replay (early.drop (n + 1))) ⟨"q", 1, 0⟩ cursor) :
      Keeping ⟨"q", 1, 0⟩ .roundRobin (replay (early.drop (n + 1)))
        ⟨⟨"q", ⟨.roundRobin, 20⟩⟩, .dequeue c config cursor s, .none⟩ :=
    fits n here fun _ _ _ _ asked => by
      cases asked
      exact may
  have aside (n : Nat) {call : Call} (here : early[n]? = some call)
      (other : call.request.isDequeue = false) :
      Keeping ⟨"q", 1, 0⟩ .roundRobin (replay (early.drop (n + 1))) call :=
    fits n here fun _ _ _ _ asked => by
      rw [asked] at other
      cases other
  refine .replay_cons (.replay_cons (.replay_cons (.replay_cons .start (aside 3 rfl rfl))
    (asks 2 rfl (.inl rfl))) (aside 1 rfl rfl)) (asks 0 rfl (.inr ?_))
  with_unfolding_all decide

/-- In that run the claim is acknowledged, and open again afterwards. -/
theorem early_reopened :
    ∃ again ack earlier, replay early = again :: ack :: earlier ∧
      StoresClaim (ack :: earlier) ⟨"q", 1, 0⟩ 1 .acked ∧
      StoresClaim (again :: ack :: earlier) ⟨"q", 1, 0⟩ 1 .claimed := by
  have acked : StoresClaim (replay (early.drop 1)) ⟨"q", 1, 0⟩ 1 .acked := by
    rw [StoresClaim]
    with_unfolding_all decide
  obtain ⟨reopens, _⟩ := acked_until_taken_up (early_run.of_suffix (replay_drop_suffix 1 early))
    (by decide) acked
  obtain ⟨_, opens⟩ := reopens _ early_run
  have live : ¬ RetiredAt (replay (early.drop 1)) ⟨"q", 1⟩ ((Snapshot.upTo 10).sees ·) := by
    rintro ⟨v, _, retired⟩
    exact not_invalidated_replay (by simp [early]) v retired
  have claimed := opens _ _ _ _ rfl rfl (.inl ⟨rfl, rfl⟩) (by with_unfolding_all decide) live
  exact ⟨_, _, _, rfl, acked, claimed⟩

end Keeping

end VersionedQueue
