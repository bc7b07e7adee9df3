import VersionedQueue.Proofs.Entries.Sight
import VersionedQueue.Queue.Pass

/-!
# What a member of a disjoint group finds in a window

The member's share of a queue is the set of entries whose hash maps to it.  A scan of a window shows
an initial part of it; of the ids in that part the member finds those of its share, except where only
a retirement is visible.
-/

set_option autoImplicit false
set_option relaxedAutoImplicit false

namespace VersionedQueue

namespace Window

theorem ids_ascending (w : Window) : w.ids.Pairwise (· < ·) := by
  rw [ids, List.pairwise_map]
  refine List.Pairwise.imp_of_mem ?_ List.pairwise_lt_range'
  intro a b memA memB less
  have top := w.last.toNat_lt
  simp only [List.mem_range'_1] at memA memB
  rw [UInt64.lt_iff_toNat_lt, UInt64.toNat_ofNat', UInt64.toNat_ofNat',
    Nat.mod_eq_of_lt (by omega), Nat.mod_eq_of_lt (by omega)]
  exact less

theorem ids_eq_cons {w : Window} (nonempty : w.first ≤ w.last) :
    ∃ rest, w.ids = w.first :: rest := by
  obtain ⟨n, size⟩ := Nat.exists_eq_succ_of_ne_zero (n := w.last.toNat + 1 - w.first.toNat) (by
    have ordered := UInt64.le_iff_toNat_le.1 nonempty
    omega)
  rw [ids, size, List.range'_succ, List.map_cons, UInt64.ofNat_toNat]
  exact ⟨_, rfl⟩

variable {w : Window} {shown rest : List EntryId}

theorem mem_of_le {x j : EntryId} (split : w.ids = shown ++ rest) (mem : x ∈ shown)
    (after : w.first ≤ j) (below : j ≤ x) : j ∈ shown := by
  have ascending := w.ids_ascending
  rw [split, List.pairwise_append] at ascending
  have inside : x ∈ w.ids := split ▸ List.mem_append_left rest mem
  have listed : j ∈ w.ids := mem_ids.2 ⟨after, UInt64.le_trans below (mem_ids.1 inside).2⟩
  rw [split] at listed
  rcases List.mem_append.1 listed with here | later
  · exact here
  · exact absurd (ascending.2.2 x mem j later) (UInt64.not_lt.2 below)

theorem mem_of_lt {x j : EntryId} (split : w.ids = shown ++ rest) (head : rest.head? = some x)
    (after : w.first ≤ j) (below : j < x) : j ∈ shown := by
  have ascending := w.ids_ascending
  rw [split, List.pairwise_append] at ascending
  have first : x ∈ rest := List.mem_of_head? head
  have inside : x ∈ w.ids := split ▸ List.mem_append_right shown first
  have listed : j ∈ w.ids :=
    mem_ids.2 ⟨after, UInt64.le_trans (UInt64.le_of_lt below) (mem_ids.1 inside).2⟩
  rw [split] at listed
  rcases List.mem_append.1 listed with here | later
  · exact here
  · cases rest with
    | nil => cases later
    | cons y tail =>
        cases head
        rcases List.mem_cons.1 later with rfl | later
        · exact absurd below (UInt64.lt_irrefl _)
        · have above := (List.pairwise_cons.1 ascending.2.1).1 j later
          exact absurd (UInt64.lt_trans below above) (UInt64.lt_irrefl _)

end Window

/-- The part of a queue that falls to one member of a disjoint group. -/
structure Share where
  key : String
  groupSize : UInt32
  member : InstanceId
  deriving DecidableEq, Repr

def Consumer.share (c : Consumer) : Share := ⟨c.headerKey, c.groupSize, c.member⟩

namespace Share

/-- An entry falls to a member: it carries a hash that maps to the member. -/
def Takes (share : Share) (entry : Entry) : Prop :=
  ∃ hash, entry.partitioning[share.key]? = some hash ∧
    Partition.owner hash share.groupSize = some share.member

/-- An entry was appended that falls to a member. -/
def Owns (share : Share) (past : List Event) (p : Pointer) : Prop :=
  ∃ entry v, Enqueued past p entry v ∧ share.Takes entry

/-- A member need not come back to an entry: the entry is known to be retired, or known to fall to
another member or to none. -/
def Passes (share : Share) (past : List Event) (p : Pointer) (known : Version → Prop) : Prop :=
  RetiredAt past p known ∨
    ∃ entry v, known v ∧ Enqueued past p entry v ∧ ¬ share.Takes entry

variable {share : Share} {past later : List Event} {p : Pointer} {known wider : Version → Prop}

theorem Owns.cons {e : Event} (h : share.Owns past p) : share.Owns (e :: past) p := by
  obtain ⟨entry, v, appended, takes⟩ := h
  exact ⟨entry, v, appended.cons, takes⟩

theorem Owns.unique {key : String} {groupSize : UInt32} {m m' : InstanceId} {t : Table}
    (stored : Stored p.queue past t) (h : Owns ⟨key, groupSize, m⟩ past p)
    (h' : Owns ⟨key, groupSize, m'⟩ past p) : m = m' := by
  obtain ⟨entry, v, appended, hash, carried, maps⟩ := h
  obtain ⟨entry', v', appended', hash', carried', maps'⟩ := h'
  obtain ⟨rfl, -⟩ := stored.once _ _ _ _ _ appended appended'
  have same : hash = hash' := Option.some.inj (carried.symm.trans carried')
  subst same
  exact Option.some.inj (maps.symm.trans maps')

theorem Passes.mono (h : share.Passes past p known) (part : past <:+ later)
    (more : ∀ v, known v → wider v) : share.Passes later p wider := by
  rcases h with retired | ⟨entry, v, seen, appended, other⟩
  · exact .inl (retired.mono part more)
  · exact .inr ⟨entry, v, more v seen, appended.mono part, other⟩

theorem Passes.shownAt (h : share.Passes past p known) : ShownAt past p known := by
  rcases h with ⟨v, seen, retired⟩ | ⟨entry, v, seen, appended, _⟩
  · exact ⟨v, seen, .inr retired⟩
  · exact ⟨v, seen, .inl ⟨entry, appended⟩⟩

theorem Passes.retiredAt {t : Table} {entry : Entry} {v : Version} (h : share.Passes past p known)
    (stored : Stored p.queue past t) (appended : Enqueued past p entry v)
    (takes : share.Takes entry) : RetiredAt past p known := by
  rcases h with retired | ⟨entry', v', _, appended', other⟩
  · exact retired
  · obtain ⟨rfl, -⟩ := stored.once _ _ _ _ _ appended appended'
    exact absurd takes other

end Share

/-- The entries that a member finds after a cursor: in ascending order, each appended and of the
member's share, and with nothing left out that the member would have to come back to. -/
structure Found (queue : String) (share : Share) (past : List Event) (known : Version → Prop)
    (cursor : EntryId) (entries : List CachedEntry) : Prop where
  ascending : entries.Pairwise (·.id < ·.id)
  after : ∀ found ∈ entries, cursor < found.id
  appended : ∀ found ∈ entries, ∃ entry v, known v ∧ Enqueued past ⟨queue, found.id⟩ entry v ∧
    share.Takes entry ∧ found.payload = entry.payload
  between : ∀ found ∈ entries, ∀ id, cursor < id → id ≤ found.id →
    (∃ other ∈ entries, other.id = id) ∨ share.Passes past ⟨queue, id⟩ known

namespace Found

variable {queue : String} {share : Share} {past later : List Event} {known wider : Version → Prop}
  {cursor : EntryId} {entry : CachedEntry} {entries : List CachedEntry}

theorem nil : Found queue share past known cursor [] where
  ascending := List.Pairwise.nil
  after _ mem := by cases mem
  appended _ mem := by cases mem
  between _ mem := by cases mem

theorem mono (h : Found queue share past known cursor entries) (part : past <:+ later)
    (more : ∀ v, known v → wider v) : Found queue share later wider cursor entries where
  ascending := h.ascending
  after := h.after
  appended found mem := by
    obtain ⟨entry, v, seen, appended, rest⟩ := h.appended found mem
    exact ⟨entry, v, more v seen, appended.mono part, rest⟩
  between found mem id after below :=
    (h.between found mem id after below).imp (fun here => here) fun passes => passes.mono part more

theorem tail (h : Found queue share past known cursor (entry :: entries)) :
    Found queue share past known entry.id entries := by
  obtain ⟨first, rest⟩ := List.pairwise_cons.1 h.ascending
  have later := h.after entry List.mem_cons_self
  refine ⟨rest, first, fun found mem => h.appended found (List.mem_cons_of_mem entry mem), ?_⟩
  intro found mem id after below
  rcases h.between found (List.mem_cons_of_mem entry mem) id (UInt64.lt_trans later after) below with
    ⟨other, inside, rfl⟩ | passes
  · rcases List.mem_cons.1 inside with rfl | inside
    · exact absurd after (UInt64.lt_irrefl _)
    · exact .inl ⟨other, inside, rfl⟩
  · exact .inr passes

theorem passes_of_lt_head (h : Found queue share past known cursor (entry :: entries))
    {id : EntryId} (after : cursor < id) (below : id < entry.id) :
    share.Passes past ⟨queue, id⟩ known := by
  rcases h.between entry List.mem_cons_self id after (UInt64.le_of_lt below) with
    ⟨other, inside, rfl⟩ | passes
  · rcases List.mem_cons.1 inside with rfl | inside
    · exact absurd below (UInt64.lt_irrefl _)
    · have above := (List.pairwise_cons.1 h.ascending).1 other inside
      exact absurd (UInt64.lt_trans below above) (UInt64.lt_irrefl _)
  · exact passes

end Found

namespace Queue

variable {q : Queue}

theorem ids_of_scanHeaders {view : QueueView} {key : String} : ∀ {ids : List EntryId}
    {scan : HeaderScan}, q.scanHeaders view key ids = .ok scan →
      (scan.visible.map (·.1)).Sublist ids
  | [], scan, found => by
      cases found
      exact .slnil
  | first :: rest, scan, found => by
      unfold scanHeaders at found
      split at found
      · cases found
        exact List.nil_sublist _
      · split at found
        · cases found
        · split at found
          · cases found
          · rename_i tail tailFound
            cases found
            exact (ids_of_scanHeaders tailFound).cons_cons first

theorem ids_of_sights {view : QueueView} {ids : List EntryId} {seen : List (EntryId × Sighting)}
    (read : (ids.mapM fun id => (q.sight view id).map (id, ·)) = .ok seen) :
    seen.map (·.1) = ids ∧ ∀ found ∈ seen, q.sight view found.1 = .ok found.2 := by
  induction ids generalizing seen with
  | nil =>
      cases read
      exact ⟨rfl, nofun⟩
  | cons id rest ih =>
      rw [List.mapM_cons] at read
      cases first : q.sight view id with
      | error e =>
          rw [first] at read
          cases read
      | ok sighting =>
          rw [first] at read
          cases others : rest.mapM fun id => (q.sight view id).map (id, ·) with
          | error e =>
              rw [others] at read
              cases read
          | ok tail =>
              rw [others] at read
              cases read
              obtain ⟨order, sights⟩ := ih others
              exact ⟨by rw [List.map_cons, order], List.forall_mem_cons.2 ⟨first, sights⟩⟩

end Queue

theorem mem_servableEntries {seen : List (EntryId × Sighting)} {entry : CachedEntry} :
    entry ∈ servableEntries seen ↔ (entry.id, .servable entry.payload) ∈ seen := by
  simp only [servableEntries, List.mem_filterMap]
  constructor
  · rintro ⟨⟨id, sighting⟩, mem, kept⟩
    cases sighting with
    | servable payload =>
        cases kept
        exact mem
    | unseen => cases kept
    | retired => cases kept
  · intro mem
    exact ⟨_, mem, rfl⟩

theorem ids_servableEntries (seen : List (EntryId × Sighting)) :
    ((servableEntries seen).map (·.id)).Sublist (seen.map (·.1)) := by
  induction seen with
  | nil => exact .slnil
  | cons found rest ih =>
      obtain ⟨id, sighting⟩ := found
      cases sighting with
      | servable payload => exact ih.cons_cons id
      | unseen => exact ih.cons id
      | retired => exact ih.cons id

end VersionedQueue
