import VersionedQueue.Proofs.Shared.Drawing

/-!
# Fetching in a shared group

A member of a shared group holds at most one claimed id whose entry was not visible yet.  A pass takes
up that id, or the next one of the group's pointer, and drops it only when its entry is retired.
Fetching ends with an entry to serve, with a claimed id that is not visible, or with the pointer of
the group at the counter of entries.
-/

set_option autoImplicit false
set_option relaxedAutoImplicit false

namespace VersionedQueue

theorem Stored.of_counted {queue : String} {past : List Event} {row : Bytes} {t t' : Table}
    (h : Stored queue past t) (counted : Table.Counted row t t')
    (other : RowKey.entryCounter.encode queue ≠ row) : Stored queue past t' :=
  h.of_same counted.refuses (fun _ _ => counted.history _ _)
    (Int.le_of_eq (counted.standing _ other).symm) (fun _ _ _ => Iff.rfl) fun _ _ => Iff.rfl

/-- From one pending id to another a member has taken ids from the pointer of its group, and has
dropped only retired ones. -/
structure Claimed (queue : String) (past : List Event) (s : Snapshot) (pending : Option EntryId)
    (group : Int) (pending' : Option EntryId) (group' : Int) : Prop where
  forward : group ≤ group'
  latest : ∀ id, pending' = some id → (pending = some id ∧ group' = group) ∨
    (group < id.toNat ∧ (id.toNat : Int) = group')
  kept : ∀ id, pending = some id → pending' = some id ∨ RetiredAt past ⟨queue, id⟩ (s.sees ·)
  taken : ∀ id : EntryId, group < id.toNat → (id.toNat : Int) ≤ group' →
    pending' = some id ∨ RetiredAt past ⟨queue, id⟩ (s.sees ·)

namespace Claimed

variable {queue : String} {past : List Event} {s : Snapshot} {pending pending' : Option EntryId}
  {group group₁ group' highest : Int} {id : EntryId}

theorem refl_none (queue : String) (past : List Event) (s : Snapshot) (group : Int) :
    Claimed queue past s none group none group where
  forward := Int.le_refl _
  latest _ none := by cases none
  kept _ none := by cases none
  taken _ after below := absurd (Int.lt_of_lt_of_le after below) (Int.lt_irrefl _)

theorem of_next (h : NextId pending group highest id group₁) :
    Claimed queue past s pending group (some id) group₁ := by
  cases h with
  | held held =>
      refine ⟨Int.le_refl _, fun other same => .inl ⟨held.trans same, rfl⟩, fun other same => .inl ?_,
        fun other after below => absurd (Int.lt_of_lt_of_le after below) (Int.lt_irrefl _)⟩
      exact held.symm.trans same
  | taken none _ number =>
      refine ⟨by omega, fun other same => .inr ?_, fun other held => ?_, fun other after below => ?_⟩
      · cases same
        omega
      · rw [none] at held
        cases held
      · have here : id = other := UInt64.toNat_inj.1 (by omega)
        exact .inl (congrArg some here)

theorem of_dropped (h : NextId pending group highest id group₁)
    (retired : RetiredAt past ⟨queue, id⟩ (s.sees ·))
    (later : Claimed queue past s none group₁ pending' group') :
    Claimed queue past s pending group pending' group' := by
  have first : Claimed queue past s pending group (some id) group₁ := of_next h
  refine ⟨Int.le_trans first.forward later.forward, fun other held => ?_, fun other held => ?_,
    fun other after below => ?_⟩
  · rcases later.latest other held with ⟨none, _⟩ | ⟨after, last⟩
    · cases none
    · exact .inr ⟨Int.lt_of_le_of_lt first.forward after, last⟩
  · rcases first.kept other held with same | gone
    · cases same
      exact .inr retired
    · exact .inr gone
  · by_cases early : (other.toNat : Int) ≤ group₁
    · rcases first.taken other after early with same | gone
      · cases same
        exact .inr retired
      · exact .inr gone
    · exact later.taken other (by omega) below

end Claimed

/-- What fetching ends with: an entry to serve, a claimed id that is not visible, or nothing to
claim. -/
inductive ClaimsEnd (queue : String) (past : List Event) (s : Snapshot) (highest group : Int) :
    Option EntryId → List CachedEntry → Prop
  | found {id : EntryId} {entry : Entry} {v : Version} : s.sees v →
      Enqueued past ⟨queue, id⟩ entry v →
      ClaimsEnd queue past s highest group (some id) [⟨id, entry.payload⟩]
  | waiting {id : EntryId} : ¬ ShownAt past ⟨queue, id⟩ (s.sees ·) →
      ClaimsEnd queue past s highest group (some id) []
  | caughtUp : highest ≤ group → ClaimsEnd queue past s highest group none []

namespace Stored

variable {q : Queue} {past : List Event} {t : Table} (h : Stored q.name past t) {s : Snapshot}

include h

private theorem retiredAt_of_sight {id : EntryId} (shown : q.sight (q.shows t s) id = .ok .retired) :
    RetiredAt past ⟨q.name, id⟩ (s.sees ·) := by
  rcases h.sight_cases s id with ⟨sight, _⟩ | ⟨_, retired⟩ | ⟨_, _, sight, _⟩
  · cases sight.symm.trans shown
  · exact retired
  · cases sight.symm.trans shown

private theorem claimed_of_comesTo {pending claim : Option EntryId} {group group' highest : Int}
    (comes : q.ComesTo (q.shows t s) highest pending group claim group') :
    Claimed q.name past s pending group claim group' := by
  induction comes with
  | claim next _ => exact .of_next next
  | dropped next retired _ ih => exact .of_dropped next (h.retiredAt_of_sight retired) ih
  | caughtUp _ => exact .refl_none _ _ _ _

private theorem claimsEnd_of_draws {pending claim : Option EntryId} {group group' highest : Int}
    {entries : List CachedEntry} (comes : q.ComesTo (q.shows t s) highest pending group claim group')
    (draws : q.Draws (q.shows t s) claim entries) :
    ClaimsEnd q.name past s highest group' claim entries := by
  cases draws with
  | @found id payload shown =>
      rcases h.sight_cases s id with ⟨sight, _⟩ | ⟨sight, _⟩ | ⟨entry, v, sight, seen, appended⟩
      · cases sight.symm.trans shown
      · cases sight.symm.trans shown
      · cases sight.symm.trans shown
        exact .found seen appended
  | @waiting id shown =>
      rcases h.sight_cases s id with ⟨_, hidden⟩ | ⟨sight, _⟩ | ⟨_, _, sight, _⟩
      · exact .waiting hidden
      · cases sight.symm.trans shown
      · cases sight.symm.trans shown
  | nothing => exact .caughtUp comes.reached

end Stored

namespace Queue

variable (q : Queue) (c : Consumer) (s : Snapshot) {past : List Event}

/-- Fetching has ended: what it leaves pending, and what it has found. -/
def SharedFetchResult (q : Queue) (c : Consumer) (s : Snapshot) (past : List Event) (t t' : Turn) :
    Prop :=
  t'.storage.Reliable ∧ Table.Counted (q.seat c).groupRow t.storage.table t'.storage.table ∧
    ∃ w pending entries, t'.cursor =
        { t.cursor with pending, writePointer := w, cache := ⟨entries⟩ } ∧
      (w.toNat : Int) ≤ t.storage.table.standing (RowKey.entryCounter.encode q.name) ∧
      Claimed q.name past s t.cursor.pending (t.storage.table.standing (q.seat c).groupRow)
        pending (t'.storage.table.standing (q.seat c).groupRow) ∧
      ClaimsEnd q.name past s (t.storage.table.standing (RowKey.entryCounter.encode q.name))
        (t'.storage.table.standing (q.seat c).groupRow) pending entries

/-- Fetching in a shared group answers. -/
theorem answers_fetchShared (t : Turn) (reliable : t.storage.Reliable)
    (stored : Stored q.name past t.storage.table)
    (least : 0 ≤ t.storage.table.standing (q.seat c).groupRow)
    (remembered : (t.cursor.writePointer.toNat : Int) ≤
      t.storage.table.standing (RowKey.entryCounter.encode q.name))
    (empty : t.cursor.cache = {}) :
    Answers (q.fetchShared c s) t fun _ t' => q.SharedFetchResult c s past t t' := by
  have sights (id : EntryId) : ∃ seen, q.sight (q.shows t.storage.table s) id = .ok seen := by
    rcases stored.sight_cases s id with ⟨sight, _⟩ | ⟨sight, _⟩ | ⟨_, _, sight, _⟩ <;> exact ⟨_, sight⟩
  refine (q.answers_fetchShared_of_sights c s t ⟨reliable, rfl, rfl, least, stored.counted⟩ sights
    remembered empty).imp ?_
  rintro _ t' ⟨counted, w, claim, entries, _, cursor, known, ⟨works, rfl, _⟩, comes, draws⟩
  exact ⟨works, counted, w, claim, entries, cursor, known, stored.claimed_of_comesTo comes,
    stored.claimsEnd_of_draws comes draws⟩

end Queue

end VersionedQueue
