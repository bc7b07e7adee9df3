import VersionedQueue.Proofs.Entries.Stored

/-!
# What a snapshot shows of entries

Reading entries never fails after a steady run.  A snapshot shows nothing of an entry whose versions
it does not see, shows an entry as retired only if it sees a retirement, and else gives the payload
and the hashes that the entry was appended with.
-/

set_option autoImplicit false
set_option relaxedAutoImplicit false

namespace VersionedQueue

/-- An entry was appended with a hash for a partitioning key, at a version that is known. -/
def Carries (past : List Event) (p : Pointer) (known : Version → Prop) (key : String)
    (hash : Int32) : Prop :=
  ∃ entry v, known v ∧ Enqueued past p entry v ∧ entry.partitioning[key]? = some hash

theorem Table.HoldsHashes.headerHash {t : Table} {past : List Event} {q : Queue} {id : EntryId}
    (h : t.HoldsHashes past ⟨q.name, id⟩)
    (once : ∀ entry entry' v v', Enqueued past ⟨q.name, id⟩ entry v →
      Enqueued past ⟨q.name, id⟩ entry' v' → entry = entry') (s : Snapshot) (key : String) :
    ∃ found, q.headerHash (q.shows t s) key id = .ok found ∧
      ∀ hash, found = some hash ↔ Carries past ⟨q.name, id⟩ (s.sees ·) key hash := by
  rcases (t.cell q.name (.entry id) (.header key)).read_cases s with
    ⟨read, hidden⟩ | ⟨v, x, seen, here, _, read⟩
  · have unread : q.shows t s (.entry id) (.header key) = none := read
    refine ⟨none, by simp only [Queue.headerHash, unread], fun hash => ?_⟩
    constructor
    · intro found
      cases found
    · rintro ⟨entry, v, seen, known, carried⟩
      have here := (h key v _).2 ⟨entry, hash, known, carried, rfl⟩
      exact absurd (by simp [History.Has, here]) (hidden v seen)
  · obtain ⟨entry, hash, known, carried, rfl⟩ := (h key v x).1 here
    have cell : q.shows t s (.entry id) (.header key) = some (Bytes.ofInt32 hash) := read
    refine ⟨some hash, by simp [Queue.headerHash, cell], fun hash' => ?_⟩
    constructor
    · rintro ⟨rfl⟩
      exact ⟨entry, v, seen, known, carried⟩
    · rintro ⟨entry', v', _, known', carried'⟩
      obtain rfl := once _ _ _ _ known known'
      exact carried.symm.trans carried'

namespace Stored

variable {q : Queue} {past : List Event} {t : Table} (h : Stored q.name past t) (s : Snapshot)
  (id : EntryId)

include h

private theorem has_state_iff (v : Version) :
    (t.cell q.name (.entry id) .state).Has v ↔
      (∃ entry, Enqueued past ⟨q.name, id⟩ entry v) ∨ Invalidated past ⟨q.name, id⟩ v := by
  constructor
  · intro has
    obtain ⟨x, found⟩ := Option.ne_none_iff_exists'.1 has
    rcases (h.row id).state_at v x found with ⟨entry, _, known, _⟩ | ⟨_, known⟩
    · exact .inl ⟨entry, known⟩
    · exact .inr known
  · exact (h.row id).state_has v

theorem state_none_iff :
    q.shows t s (.entry id) .state = none ↔ ¬ ShownAt past ⟨q.name, id⟩ (s.sees ·) := by
  constructor
  · rintro unread ⟨v, seen, known⟩
    have has := (h.row id).state_has v known
    rcases (t.cell q.name (.entry id) .state).read_cases s with ⟨_, hidden⟩ | ⟨w, x, _, here, _, read⟩
    · exact hidden v seen has
    · have same : x = none := read.symm.trans unread
      rcases (h.row id).state_at w x here with ⟨_, valid, _⟩ | ⟨invalid, _⟩
      · exact Option.some_ne_none _ (valid.symm.trans same)
      · exact Option.some_ne_none _ (invalid.symm.trans same)
  · intro hidden
    rcases (t.cell q.name (.entry id) .state).read_cases s with ⟨read, _⟩ | ⟨w, x, seen, here, _, _⟩
    · exact read
    · have has : (t.cell q.name (.entry id) .state).Has w := by simp [History.Has, here]
      exact absurd ⟨w, seen, (h.has_state_iff id w).1 has⟩ hidden

/-- An entry is not shown, or shown as retired, or shown with its payload. -/
theorem sight_cases :
    (q.sight (q.shows t s) id = .ok .unseen ∧ ¬ ShownAt past ⟨q.name, id⟩ (s.sees ·)) ∨
      (q.sight (q.shows t s) id = .ok .retired ∧ RetiredAt past ⟨q.name, id⟩ (s.sees ·)) ∨
      ∃ entry v, q.sight (q.shows t s) id = .ok (.servable entry.payload) ∧ s.sees v ∧
        Enqueued past ⟨q.name, id⟩ entry v := by
  rcases (t.cell q.name (.entry id) .state).read_cases s with
    ⟨unread, _⟩ | ⟨v, x, seen, here, newest, read⟩
  · refine .inl ⟨?_, (h.state_none_iff s id).1 unread⟩
    have unread : q.shows t s (.entry id) .state = none := unread
    simp only [Queue.sight, unread]
  · rcases (h.row id).state_at v x here with ⟨entry, rfl, known, stored⟩ | ⟨rfl, known⟩
    · refine .inr (.inr ⟨entry, v, ?_, seen, known⟩)
      have state : q.shows t s (.entry id) .state = some EntryState.valid.encode := read
      have payload : q.shows t s (.entry id) .payload = some entry.payload :=
        History.read_of_newest seen stored fun w wSeen has =>
          newest w wSeen ((h.row id).payload_has w has)
      simp [Queue.sight, state, payload, Queue.decodeState, EntryState.isServable]
    · refine .inr (.inl ⟨?_, v, seen, known⟩)
      have state : q.shows t s (.entry id) .state = some EntryState.invalid.encode := read
      simp [Queue.sight, state, Queue.decodeState, EntryState.isServable]

theorem headerHash_spec (key : String) :
    ∃ found, q.headerHash (q.shows t s) key id = .ok found ∧
      ∀ hash, found = some hash ↔ Carries past ⟨q.name, id⟩ (s.sees ·) key hash :=
  Table.HoldsHashes.headerHash (h.row id).header_at
    (fun _ _ _ _ known known' => (h.once _ _ _ _ _ known known').1) s key

end Stored

end VersionedQueue
