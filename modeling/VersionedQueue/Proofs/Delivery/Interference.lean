import VersionedQueue.Proofs.Run.Session

/-!
# Who does not notice whom

Queues that share a table do not notice each other, even if the name of one begins with the name of the
other.  Groups of one queue do not notice each other, whichever partitioners they use, and neither do the
members of a disjoint group.  For all these a session goes on as if the steps of the others were taken
out.
-/

set_option autoImplicit false
set_option relaxedAutoImplicit false

namespace VersionedQueue

/-- The steps of a session go to queues that can be opened, and no call is made to fail. -/
structure Undisturbed (steps : List Step) : Prop where
  opens : ∀ step ∈ steps, step.call.queue.Opens
  calm : ∀ step ∈ steps, step.call.plan = .none

/-- Every slot is taken and filled by steps of its owner only. -/
def KeepApart {α : Type} (owner : Nat → α) (steps : List Step) (of : Step → Option α) : Prop :=
  ∀ step ∈ steps, ∀ slot, step.takes = some slot ∨ step.fills = some slot →
    of step = some (owner slot)

namespace Request

variable {request : Request}

theorem consumer_of_uses {group : GroupId} {member : InstanceId}
    (uses : request.Uses (.consumer group member)) :
    ∃ c, request.consumer? = some c ∧ c.group = group ∧ c.member = member := by
  cases request using consumer_cases with
  | dequeue c config cursor s =>
      rcases uses with same | same | ⟨_, same⟩ | ⟨_, same⟩ <;> cases same
      exact ⟨c, rfl, rfl, rfl⟩
  | ack p c s =>
      cases uses
      exact ⟨c, rfl, rfl, rfl⟩
  | unack p c s =>
      cases uses
      exact ⟨c, rfl, rfl, rfl⟩
  | aside request none => simpa using uses_of_aside none uses

theorem shared_of_uses {group : GroupId} (uses : request.Uses (.groupPointer group)) :
    ∃ c config cursor s, request = .dequeue c config cursor s ∧ c.group = group ∧
      config.partitioner = .roundRobin := by
  cases request using consumer_cases with
  | dequeue c config cursor s =>
      rcases uses with same | same | ⟨_, same⟩ | ⟨shared, same⟩ <;> cases same
      exact ⟨c, config, cursor, s, rfl, rfl, shared⟩
  | ack p c s => cases uses
  | unack p c s => cases uses
  | aside request none => simpa using uses_of_aside none uses

end Request

/-- A member of a shared group asks for an entry. -/
def Step.ClaimsFor (step : Step) (queue : String) (group : GroupId) : Prop :=
  ∃ c config cursor s, step.call.request = .dequeue c config cursor s ∧
    step.call.queue.name = queue ∧ c.group = group ∧ config.partitioner = .roundRobin

section

variable {steps : List Step} {step other : Step}

private theorem same_row (undisturbed : Undisturbed steps) (mem : step ∈ steps)
    (mem' : other ∈ steps) {key : RowKey}
    (touches : other.call.Touches (key.encode step.call.queue.name)) :
    other.call.queue.name = step.call.queue.name ∧ other.call.request.Touches key := by
  obtain ⟨key', touched, same⟩ := touches
  obtain ⟨names, rfl⟩ := RowKey.encode_injective_of_short
    (undisturbed.opens other mem').shortName (undisturbed.opens step mem).shortName same
  exact ⟨names, touched⟩

private theorem rows_apart (undisturbed : Undisturbed steps) (mem : step ∈ steps)
    (mem' : other ∈ steps) {seat : Seat} (sits : other.call.seat? = some seat)
    (stranger : step.call.seat? ≠ some seat) (idle : ¬ step.ClaimsFor seat.queue seat.group)
    {key : RowKey} (uses : step.call.request.Uses key) :
    ¬ other.call.Touches (key.encode step.call.queue.name) := by
  intro touches
  obtain ⟨names, touched⟩ := same_row undisturbed mem mem' touches
  obtain ⟨c, asks, rfl⟩ := Option.map_eq_some_iff.1 sits
  rcases Request.touches_of_consumer asks touched with rfl | rfl
  · obtain ⟨c', asks', group, member⟩ := Request.consumer_of_uses uses
    refine stranger ?_
    simp only [Call.seat?, asks', Option.map_some, Queue.seat, names, group, member]
  · obtain ⟨c', config, cursor, s, asked, group, shared⟩ := Request.shared_of_uses uses
    exact idle ⟨c', config, cursor, s, asked, names.symm, group, shared⟩

private theorem slots_apart {α : Type} {owner : Nat → α} {of : Step → Option α}
    (apart : KeepApart owner steps of) (mem : step ∈ steps) (mem' : other ∈ steps)
    (strangers : of step ≠ of other) (slot : Nat) (taken : step.takes = some slot) :
    other.fills ≠ some slot := fun filled =>
  strangers ((apart step mem slot (.inl taken)).trans (apart other mem' slot (.inr filled)).symm)

/-- What the steps of one queue get is what they get when the steps of all other queues of the table are
taken out. -/
theorem queues_unnoticed (undisturbed : Undisturbed steps) {owner : Nat → String}
    (apart : KeepApart owner steps fun step => some step.call.queue.name) (w : World)
    (queue : String) :
    (session w steps).filter (·.1.call.queue.name == queue) =
      session w (steps.filter (·.call.queue.name == queue)) := by
  refine @session_filter (fun step => step.call.queue.name == queue) steps w
    (fun step mem _ => undisturbed.calm step mem) fun step mem other mem' stays gone => ?_
  have here : step.call.queue.name = queue := by simpa using stays
  have elsewhere : other.call.queue.name ≠ queue := by simpa using gone
  refine ⟨fun key _ touches => ?_, slots_apart apart mem mem' fun same => ?_⟩
  · exact elsewhere ((same_row undisturbed mem mem' touches).1.trans here)
  · exact elsewhere ((Option.some.inj same).symm.trans here)

/-- The entry that an answer hands out. -/
def Answer.handed? : Answer → Option EntryId
  | .delivered delivery => delivery.pointer?.map (·.id)
  | _ => none

/-- The entries that the steps of a session are handed. -/
def handedIn (w : World) (steps : List Step) : List (Option EntryId) :=
  (session w steps).map fun got => got.2.1.toOption.bind Answer.handed?

/-- A member of a shared group asks for an entry with the cursor in a slot. -/
def drawing (queue : String) (slot : Nat) : Step :=
  { call := ⟨⟨queue, ⟨.roundRobin, 20⟩⟩,
      .dequeue { group := 1, member := 0, groupSize := 1 } ⟨.roundRobin, 20⟩ .fresh (.upTo 10), .none⟩
    takes := some slot
    fills := some slot }

/-- Two queues of one table, where the name of one begins with the name of the other, have entries and a
member each. -/
def neighbours : List Step :=
  let adding (queue : String) (payload : UInt8) : Step :=
    { call := ⟨⟨queue, ⟨.roundRobin, 20⟩⟩, .enqueue ⟨[payload], {}⟩ 1, .none⟩ }
  [adding "qq" 99, adding "q" 97, drawing "qq" 0, drawing "q" 1, adding "qq" 100, drawing "qq" 0,
    drawing "q" 1]

/-- The second request on the shorter name finds nothing, with the other queue and without it. -/
theorem neighbour_unnoticed :
    handedIn {} neighbours = [none, none, some 1, some 1, none, some 2, none] ∧
      (session {} neighbours).filter (·.1.call.queue.name == "q") =
        session {} (neighbours.filter (·.call.queue.name == "q")) := by
  refine ⟨by with_unfolding_all decide, ?_⟩
  have named : ∀ step ∈ neighbours, step.call.queue = ⟨"qq", ⟨.roundRobin, 20⟩⟩ ∨
      step.call.queue = ⟨"q", ⟨.roundRobin, 20⟩⟩ := by simp [neighbours, drawing]
  have undisturbed : Undisturbed neighbours := by
    refine ⟨fun step mem => ?_, by simp [neighbours, drawing]⟩
    rcases named step mem with same | same <;> rw [same] <;> rfl
  have apart : KeepApart (fun slot => if slot = 0 then "qq" else "q") neighbours
      fun step => some step.call.queue.name := by
    simp [KeepApart, neighbours, drawing]
  exact queues_unnoticed undisturbed apart {} "q"

/-- Consumers do not notice each other.  The other steps of a session get what they get when the steps of
all consumers of some groups of a queue are taken out, and, if no request of a group is made under the
shared pointer, also when those of one member of the group are. -/
theorem consumers_unnoticed (undisturbed : Undisturbed steps) {owner : Nat → Seat}
    (apart : KeepApart owner steps fun step => step.call.seat?) (w : World) :
    (∀ (queue : String) (groups : GroupId → Bool),
      let others (step : Step) : Bool :=
        !step.call.seat?.any fun seat => seat.queue == queue && groups seat.group
      (session w steps).filter (others ·.1) = session w (steps.filter others)) ∧
    ∀ seat : Seat, (∀ step ∈ steps, ¬ step.ClaimsFor seat.queue seat.group) →
      (session w steps).filter (·.1.call.seat? != some seat) =
        session w (steps.filter (·.call.seat? != some seat)) := by
  constructor
  · intro queue groups others
    refine @session_filter others steps w (fun step mem _ => undisturbed.calm step mem)
      fun step mem other mem' stays gone => ?_
    have sits : ∃ seat, other.call.seat? = some seat ∧ seat.queue = queue ∧ groups seat.group := by
      simpa [others, Option.any_eq_true] using gone
    obtain ⟨seat, sits, rfl, out⟩ := sits
    -- A step that stays is of no consumer of these groups.
    have within (seat' : Seat) (sits' : step.call.seat? = some seat')
        (near : seat'.queue = seat.queue) : groups seat'.group = false := by
      simpa [others, sits', near] using stays
    have stranger : step.call.seat? ≠ some seat := fun sits' => by
      rw [within seat sits' rfl] at out
      cases out
    refine ⟨fun key uses => rows_apart undisturbed mem mem' sits stranger ?_ uses,
      slots_apart apart mem mem' fun same => stranger (same.trans sits)⟩
    rintro ⟨c, config, cursor, s, asked, name, group, -⟩
    have sits' : step.call.seat? = some (step.call.queue.seat c) := by
      simp only [Call.seat?, asked, Request.consumer?, Option.map_some]
    have kept := within _ sits' name
    simp only [Queue.seat, group, out] at kept
    cases kept
  · intro seat disjoint
    refine @session_filter (fun step => step.call.seat? != some seat) steps w
      (fun step mem _ => undisturbed.calm step mem) fun step mem other mem' stays gone => ?_
    have stranger : step.call.seat? ≠ some seat := by simpa using stays
    have sits : other.call.seat? = some seat := by simpa using gone
    exact ⟨fun key uses => rows_apart undisturbed mem mem' sits stranger (disjoint step mem) uses,
      slots_apart apart mem mem' fun same => stranger (same.trans sits)⟩

/-- A member of a disjoint group of two asks for an entry with the cursor in the slot of its number. -/
def sharing (member : InstanceId) : Step :=
  { call := ⟨⟨"q", ⟨.hash, 20⟩⟩,
      .dequeue { group := 2, member, groupSize := 2, partitioningKey := some "k" } ⟨.hash, 20⟩ .fresh
        (.upTo 10), .none⟩
    takes := some (member.toNat + 1)
    fills := some (member.toNat + 1) }

/-- A queue has two entries, a shared group of one member and a disjoint group of two, which divide the
entries. -/
def crowd : List Step :=
  let adding (hash : Int32) : Step :=
    { call := ⟨⟨"q", ⟨.hash, 20⟩⟩, .enqueue ⟨[97], Std.TreeMap.ofList [("k", hash)]⟩ 1, .none⟩ }
  let acked : Step :=
    { call := ⟨⟨"q", ⟨.hash, 20⟩⟩,
        .ack ⟨"q", 1⟩ { group := 2, member := 0, groupSize := 2, partitioningKey := some "k" }
          (.upTo 10), .none⟩ }
  [adding 0, adding 1, sharing 0, drawing "q" 0, sharing 1, acked, sharing 1, drawing "q" 0]

/-- The first member of the disjoint group is not noticed by the second, and the disjoint group is not
noticed by the shared one. -/
theorem crowd_unnoticed :
    handedIn {} crowd = [none, none, some 1, some 1, some 2, none, none, some 2] ∧
      (session {} crowd).filter (·.1.call.seat? != some ⟨"q", 2, 0⟩) =
        session {} (crowd.filter (·.call.seat? != some ⟨"q", 2, 0⟩)) ∧
      let others (step : Step) : Bool :=
        !step.call.seat?.any fun seat => seat.queue == "q" && seat.group == 2
      (session {} crowd).filter (others ·.1) = session {} (crowd.filter others) := by
  refine ⟨by with_unfolding_all decide, ?_⟩
  have named : ∀ step ∈ crowd, step.call.queue = ⟨"q", ⟨.hash, 20⟩⟩ ∨
      step.call.queue = ⟨"q", ⟨.roundRobin, 20⟩⟩ := by simp [crowd, drawing, sharing]
  have undisturbed : Undisturbed crowd := by
    refine ⟨fun step mem => ?_, by simp [crowd, drawing, sharing]⟩
    rcases named step mem with same | same <;> rw [same] <;> rfl
  have apart : KeepApart
      (fun slot => if slot = 0 then (⟨"q", 1, 0⟩ : Seat) else ⟨"q", 2, if slot = 1 then 0 else 1⟩)
      crowd fun step => step.call.seat? := by
    simp [KeepApart, crowd, drawing, sharing, Call.seat?, Request.consumer?, Queue.seat]
  have unnoticed := consumers_unnoticed undisturbed apart {}
  refine ⟨unnoticed.2 _ fun step mem => ?_, unnoticed.1 "q" (· == 2)⟩
  rintro ⟨c, config, cursor, s, asked, _, group, shared⟩
  simp only [crowd, List.mem_cons, List.not_mem_nil, or_false] at mem
  rcases mem with rfl | rfl | rfl | rfl | rfl | rfl | rfl | rfl <;> cases asked <;>
    first | exact absurd shared (by decide) | exact absurd group (by decide)

end

end VersionedQueue
