import VersionedQueue.Proofs.Delivery.Retirement
import VersionedQueue.Proofs.Shared.Allocated
import VersionedQueue.Proofs.Shared.Holding

/-!
# What a member of a shared group draws

A request of a member that has acknowledged all that it was handed ends with a claim: the id that the
member waits for or one that its group had not claimed, if it is not retired, or none if all others are
claimed and retired.  Which claim that is, and what the member is answered, follows from the counters, from
what the member waits for and from its snapshot, whether its cursor was kept or not.
-/

set_option autoImplicit false
set_option relaxedAutoImplicit false

namespace VersionedQueue

/-- The claim with which a request ends: it is not retired, and there is one if there is an id left to
claim. -/
structure Draw (queue : String) (past : List Event) (s : Snapshot) (highest : Int)
    (pending : Option EntryId) (group : Int) (claim : Option EntryId) (group' : Int) : Prop extends
    Claimed queue past s pending group claim group' where
  unretired : ∀ id, claim = some id → ¬ RetiredAt past ⟨queue, id⟩ (s.sees ·)
  exhausted : claim = none → highest ≤ group'
  allocated : group' ≤ highest

/-- What is answered with a claim, and the id that is left pending. -/
inductive DrawDelivery (queue : String) (past : List Event) (s : Snapshot) :
    Option EntryId → Delivery → Option EntryId → Prop
  | served {id : EntryId} {entry : Entry} {v : Version} : s.sees v →
      Enqueued past ⟨queue, id⟩ entry v →
      DrawDelivery queue past s (some id) (.served ⟨queue, id⟩ ⟨entry.payload, {}⟩) none
  | waiting {id : EntryId} : ¬ ShownAt past ⟨queue, id⟩ (s.sees ·) →
      DrawDelivery queue past s (some id) .empty (some id)
  | nothing : DrawDelivery queue past s none .empty none

section Unique

variable {queue : String} {past : List Event} {s : Snapshot} {highest group group₁ group₂ : Int}
  {pending claim₁ claim₂ : Option EntryId} {id : EntryId}

namespace Draw

private theorem claim_eq (h₁ : Draw queue past s highest pending group claim₁ group₁)
    (h₂ : Draw queue past s highest pending group claim₂ group₂) (drawn : claim₁ = some id)
    (further : group₁ ≤ group₂) : claim₂ = some id := by
  rcases h₁.latest id drawn with ⟨pends, _⟩ | ⟨above, last⟩
  · exact (h₂.kept id pends).resolve_right (h₁.unretired id drawn)
  · exact (h₂.taken id above (last ▸ further)).resolve_right (h₁.unretired id drawn)

private theorem claim_none (h₁ : Draw queue past s highest pending group claim₁ group₁)
    (h₂ : Draw queue past s highest pending group none group₂) : claim₁ = none := by
  cases drawn : claim₁ with
  | none => rfl
  | some id => cases h₁.claim_eq h₂ drawn (Int.le_trans h₁.allocated (h₂.exhausted rfl))

private theorem group_eq (h₁ : Draw queue past s highest pending group claim₁ group₁)
    (h₂ : Draw queue past s highest pending group claim₁ group₂)
    (early : ∀ id, pending = some id → (id.toNat : Int) ≤ group) : group₁ = group₂ := by
  cases drawn : claim₁ with
  | none =>
      have all := h₁.exhausted drawn
      have all' := h₂.exhausted drawn
      have most := h₁.allocated
      have most' := h₂.allocated
      omega
  | some id =>
      rcases h₁.latest id drawn with ⟨pends, same⟩ | ⟨above, last⟩ <;>
        rcases h₂.latest id drawn with ⟨pends', same'⟩ | ⟨above', last'⟩
      · omega
      · have before := early id pends
        omega
      · have before := early id pends'
        omega
      · omega

theorem unique (h₁ : Draw queue past s highest pending group claim₁ group₁)
    (h₂ : Draw queue past s highest pending group claim₂ group₂)
    (early : ∀ id, pending = some id → (id.toNat : Int) ≤ group) :
    claim₁ = claim₂ ∧ group₁ = group₂ := by
  have same : claim₁ = claim₂ := by
    cases first : claim₁ with
    | none =>
        subst first
        exact (h₂.claim_none h₁).symm
    | some id =>
        cases second : claim₂ with
        | none =>
            subst second
            exact first.symm.trans (h₁.claim_none h₂)
        | some id' =>
            rcases Int.le_total group₁ group₂ with further | further
            · exact (h₁.claim_eq h₂ first further).symm.trans second
            · exact first.symm.trans (h₂.claim_eq h₁ second further)
  subst same
  exact ⟨rfl, h₁.group_eq h₂ early⟩

end Draw

theorem DrawDelivery.unique {claim left left' : Option EntryId} {d d' : Delivery} {t : Table}
    (stored : Stored queue past t) (h : DrawDelivery queue past s claim d left)
    (h' : DrawDelivery queue past s claim d' left') : d = d' ∧ left = left' := by
  cases h with
  | @served id entry v visible appended =>
      cases h' with
      | served _ appended' =>
          obtain ⟨rfl, -⟩ := stored.once _ _ _ _ _ appended appended'
          exact ⟨rfl, rfl⟩
      | waiting unseen => exact absurd ⟨v, visible, .inl ⟨entry, appended⟩⟩ unseen
  | waiting unseen =>
      cases h' with
      | @served _ entry v visible appended => exact absurd ⟨v, visible, .inl ⟨entry, appended⟩⟩ unseen
      | waiting _ => exact ⟨rfl, rfl⟩
  | nothing =>
      cases h' with
      | nothing => exact ⟨rfl, rfl⟩

end Unique

namespace Holding

variable {seat : Seat} {past : List Event} {e : Event} {a r : EntryId} {c : Consumer} {config : Config}
  {cursor : Cursor} {s : Snapshot}

private theorem unretired_of_served (h : Holding seat past a r) (run : Run Opened (e :: past))
    (own : e.call.seat? = some seat) (asked : e.call.request = .dequeue c config cursor s)
    (last : cursor.loaded = true → lastCursor? past seat = some cursor)
    (withdrawn : ∀ p v, Invalidated past p v → Withdrawn past p v) {id : EntryId} {x : Entry}
    (served : e.delivery? = some (.served ⟨seat.queue, id⟩ x)) :
    ¬ RetiredAt past ⟨seat.queue, id⟩ (s.sees ·) := by
  rintro ⟨v, seen, retired⟩
  obtain ⟨earlier, opens, found⟩ := Run.cons_iff.1 run
  have name : e.call.queue.name = seat.queue := Call.name_eq own
  have empty : cursor.passed = [] := by
    cases loaded : cursor.loaded with
    | false => exact Cursor.passed_of_unloaded loaded
    | true => rw [Cursor.passed_of_loaded loaded, (h.rests cursor (last loaded)).1]
  obtain ⟨_, serves⟩ := Event.sources earlier opens found asked
  obtain ⟨entry, same, _, next | ⟨_, shown⟩⟩ := serves _ served _ _ rfl
  · rw [empty] at next
    cases next
  · obtain rfl : id = entry.id := congrArg Pointer.id same
    rw [LogShows, name, (withdrawn _ v retired).sighting earlier seen] at shown
    cases shown

private theorem draw_of_turn (h : Holding seat past a r) (run : Run (Steady seat.queue) past)
    (opened : Run Opened (e :: past)) (own : e.call.seat? = some seat)
    (asked : e.call.request = .dequeue c config cursor s) (follows : Follows past seat s)
    (last : cursor.loaded = true → lastCursor? past seat = some cursor)
    (acked : outstanding seat past = []) (patient : Patient past seat)
    (withdrawn : ∀ p v, Invalidated past p v → Withdrawn past p v)
    {delivery : Delivery} {k : Cursor} {a' : EntryId} {highest group group' : Int}
    (delivers : e.Delivers seat delivery k) (allocated : group' ≤ highest)
    (ends : SharedTurn seat.queue past s highest group a cursor delivery a' group' k.pending) :
    ∃ claim, Draw seat.queue past s highest (pendingOf past seat) group claim group' ∧
      DrawDelivery seat.queue past s claim delivery k.pending := by
  have unretired {id : EntryId} {x : Entry} (served : delivery = .served ⟨seat.queue, id⟩ x) :
      ¬ RetiredAt past ⟨seat.queue, id⟩ (s.sees ·) :=
    h.unretired_of_served opened own asked last withdrawn (served ▸ delivers.delivery?)
  have drawn {a₀ : EntryId} {p₀ p' : Option EntryId}
      (begins : SharedStart seat.queue past s a cursor a₀ p₀)
      (claimed : Claimed seat.queue past s p₀ group p' group') :
      Claimed seat.queue past s (pendingOf past seat) group p' group' :=
    patient.resumes_eq cursor ▸ (h.claimed_of_start run follows last begins claimed).1
  generalize k.pending = left at ends ⊢
  cases ends with
  | again fresh some visible appended =>
      -- The active entry is neither unacknowledged nor retired, so that the member waits for it.
      have pends : pendingOf past seat = Option.some a := by
        rcases h.accounted a (h.active_took some) with mem | ⟨v, known, retired⟩ | pends | forfeited
        · have out := h.active_open some mem
          rw [acked] at out
          cases out
        · exact absurd ⟨v, follows.sees known, retired⟩ (unretired rfl)
        · exact pends
        · exact absurd forfeited patient.not_forfeited
      have held : NextId (pendingOf past seat) group highest a group := .held pends
      refine ⟨Option.some a, ⟨.of_next held, fun id same => ?_, nofun, allocated⟩,
        .served visible appended⟩
      cases same
      exact unretired rfl
  | fetched begins claimed visible appended =>
      refine ⟨some a', ⟨drawn begins claimed, fun id same => ?_, nofun, allocated⟩, .served visible appended⟩
      cases same
      exact unretired rfl
  | waiting begins claimed unseen =>
      refine ⟨some a', ⟨drawn begins claimed, fun id same => ?_, nofun, allocated⟩, .waiting unseen⟩
      cases same
      rintro ⟨v, seen, retired⟩
      exact unseen ⟨v, seen, .inr retired⟩
  | caughtUp begins claimed reached =>
      exact ⟨none, ⟨drawn begins claimed, nofun, fun _ => reached, allocated⟩, .nothing⟩

/-- A member that has acknowledged all that it was handed is answered what it draws. -/
theorem draw_of_run (run : Run (SharedOrderly seat) (e :: past)) (opened : Run Opened (e :: past))
    (own : e.call.seat? = some seat) (asked : e.call.request = .dequeue c config cursor s)
    (acked : outstanding seat past = []) (patient : Patient past seat)
    (withdrawn : ∀ p v, Invalidated past p v → Withdrawn past p v)
    (allocated : e.after.table.standing seat.groupRow ≤
      (storageAfter past).table.standing (RowKey.entryCounter.encode seat.queue)) :
    ∃ delivery k claim, e.Delivers seat delivery k ∧
      Draw seat.queue past s
        ((storageAfter past).table.standing (RowKey.entryCounter.encode seat.queue))
        (pendingOf past seat) ((storageAfter past).table.standing seat.groupRow) claim
        (e.after.table.standing seat.groupRow) ∧
      DrawDelivery seat.queue past s claim delivery k.pending := by
  obtain ⟨a, r, delivery, k, a', r', h, follows, last, delivers, ends, _⟩ := turn_of_run run own asked
  have steady : Run (Steady seat.queue) past := (Run.cons_iff.1 run).1.mono fun _ _ _ fits => fits.1.1
  obtain ⟨claim, draws, answered⟩ := h.draw_of_turn steady opened own asked follows last acked patient
    withdrawn delivers allocated ends
  exact ⟨delivery, k, claim, delivers, draws, answered⟩

end Holding

end VersionedQueue
