import VersionedQueue.Proofs.Delivery.Retry
import VersionedQueue.Proofs.Entries.Lasting

/-!
# What a request leaves behind

Fetching comes up with ids beyond the read pointer of the cursor in a disjoint group, and beyond the
pointer of the group in a shared one.  So an id that is behind and not held by the cursor is not handed
out, however the calls of a request end, unless the cursor is rebuilt from a row in which the id is the
active entry.
-/

set_option autoImplicit false
set_option relaxedAutoImplicit false

namespace VersionedQueue

/-- The ids that a cursor holds: the one that is pending in it, and those of the entries in its cache. -/
def Cursor.held (k : Cursor) : List EntryId := k.pending.toList ++ k.cache.entries.map (·.id)

theorem Cursor.mem_held {k : Cursor} {id : EntryId} :
    id ∈ k.held ↔ k.pending = some id ∨ ∃ entry ∈ k.cache.entries, entry.id = id := by
  simp [held]

theorem Cursor.le_advance_self (k : Cursor) (id : EntryId) : id ≤ (k.advance id).readPointer := by
  unfold advance
  split
  · exact UInt64.le_refl _
  · rename_i beyond
    exact UInt64.le_of_lt (UInt64.not_le.1 beyond)

theorem Cursor.held_handedOut {k : Cursor} {entry : CachedEntry} {rest : List CachedEntry} {id : EntryId}
    (next : k.cache.entries = entry :: rest) (distinct : entry.id ∉ rest.map (·.id))
    (mem : id ∈ (Queue.handedOut k entry rest).held) : id ∈ k.held ∧ id ≠ entry.id := by
  rcases mem_held.1 mem with pends | ⟨other, here, rfl⟩
  · simp only [Queue.handedOut] at pends
    split at pends
    · cases pends
    · rename_i apart
      exact ⟨mem_held.2 (.inl pends), fun same => apart (same ▸ pends)⟩
  · have within : other ∈ k.cache.entries := next ▸ List.mem_cons_of_mem entry here
    exact ⟨mem_held.2 (.inr ⟨other, within, rfl⟩),
      fun same => distinct (List.mem_map.2 ⟨other, here, same⟩)⟩

namespace Turn

/-- How far a request has come: to the read pointer of its cursor in a disjoint group, and to the
pointer of the group in a shared one. -/
def reach (seat : Seat) (p : Partitioner) (t : Turn) : Int :=
  if p.isDisjoint then t.cursor.readPointer.toNat else t.storage.table.standing seat.groupRow

/-- Some ids are spent: the cursor holds none of them, and none is beyond what the request has reached.
The cache has no id twice, and in a shared group the ids that the cursor holds are claimed.  Of what is
spent or in the cache the state is known. -/
structure LeavesBehind (seat : Seat) (p : Partitioner) (known : Version → Prop)
    (spent : EntryId → Prop) (t : Turn) : Prop where
  fresh : ∀ id ∈ t.cursor.held, ¬ spent id
  claimed : p.isDisjoint = false → ∀ id ∈ t.cursor.held,
    (id.toNat : Int) ≤ t.storage.table.standing seat.groupRow
  distinct : (t.cursor.cache.entries.map (·.id)).Nodup
  reached : ∀ id, spent id → (id.toNat : Int) ≤ t.reach seat p
  disclosed : ∀ id, spent id ∨ (∃ entry ∈ t.cursor.cache.entries, entry.id = id) →
    t.storage.table.Discloses seat.queue known id

/-- What a pass finds is not spent, its state is known, and in a shared group it is claimed. -/
def FindsAhead (seat : Seat) (p : Partitioner) (known : Version → Prop) (spent : EntryId → Prop)
    (pass : Pass) (t : Turn) : Prop :=
  ∀ entries, pass = .found entries → (entries.map (·.id)).Nodup ∧ ∀ entry ∈ entries,
    ¬ spent entry.id ∧ t.storage.table.Discloses seat.queue known entry.id ∧
      (p.isDisjoint = false → (entry.id.toNat : Int) ≤ t.storage.table.standing seat.groupRow)

variable {seat : Seat} {p : Partitioner} {known wider : Version → Prop} {spent fewer : EntryId → Prop}
  {t u : Turn}

theorem FindsAhead.of_nothing {pass : Pass} (nothing : ∀ entries, pass ≠ .found entries) :
    FindsAhead seat p known spent pass t := fun entries found => absurd found (nothing entries)

theorem FindsAhead.singleton {entry : CachedEntry} (fresh : ¬ spent entry.id)
    (disclosed : t.storage.table.Discloses seat.queue known entry.id)
    (claimed : p.isDisjoint = false → (entry.id.toNat : Int) ≤ t.storage.table.standing seat.groupRow) :
    FindsAhead seat p known spent (.found [entry]) t := by
  intro entries found
  cases found
  refine ⟨List.pairwise_singleton _ entry.id, fun other mem => ?_⟩
  cases List.mem_singleton.1 mem
  exact ⟨fresh, disclosed, claimed⟩

theorem reach_le (read : t.cursor.readPointer ≤ u.cursor.readPointer)
    (group : t.storage.table.standing seat.groupRow ≤ u.storage.table.standing seat.groupRow) :
    t.reach seat p ≤ u.reach seat p := by
  unfold reach
  split
  · exact Int.ofNat_le.2 (UInt64.le_iff_toNat_le.1 read)
  · exact group

namespace LeavesBehind

theorem mono (h : t.LeavesBehind seat p known spent) (w : ∀ id, fewer id → spent id) :
    t.LeavesBehind seat p known fewer where
  fresh id mem kept := h.fresh id mem (w id kept)
  claimed := h.claimed
  distinct := h.distinct
  reached id kept := h.reached id (w id kept)
  disclosed id kept := h.disclosed id (kept.imp_left (w id))

theorem widen (h : t.LeavesBehind seat p known spent) (more : ∀ v, known v → wider v) :
    t.LeavesBehind seat p wider spent where
  fresh := h.fresh
  claimed := h.claimed
  distinct := h.distinct
  reached := h.reached
  disclosed id kept := (h.disclosed id kept).widen more

theorem of_forward (h : t.LeavesBehind seat p known spent)
    (pending : ∀ id, u.cursor.pending = some id → t.cursor.pending = some id)
    (cache : u.cursor.cache = t.cursor.cache) (read : t.cursor.readPointer ≤ u.cursor.readPointer)
    {rows : Bytes → Prop} {v : Version}
    (touched : t.storage.table.Touched rows v u.storage.table) :
    u.LeavesBehind seat p known spent := by
  have group : t.storage.table.standing seat.groupRow ≤ u.storage.table.standing seat.groupRow :=
    touched.counter_le _ _
  have held : ∀ id ∈ u.cursor.held, id ∈ t.cursor.held := by
    intro id mem
    rw [Cursor.mem_held, cache] at mem
    exact Cursor.mem_held.2 (mem.imp_left (pending id))
  refine ⟨fun id mem => h.fresh id (held id mem), fun shared id mem => ?_, cache ▸ h.distinct,
    fun id behind => ?_, fun id kept => (h.disclosed id (cache ▸ kept)).of_touched touched⟩
  · exact Int.le_trans (h.claimed shared id (held id mem)) group
  · exact Int.le_trans (h.reached id behind) (reach_le read group)

theorem of_alike (h : t.LeavesBehind seat p known spent) (same : t.Alike u) :
    u.LeavesBehind seat p known spent :=
  h.of_forward (fun id pends => same.2 ▸ pends) (by rw [same.2]) (by rw [same.2]; exact UInt64.le_refl _)
    (same.1.touched (fun _ => False) 0)

theorem of_look (h : t.LeavesBehind seat p known spent)
    (same : t.storage.table.Alike u.storage.table) {w : EntryId}
    (cursor : u.cursor = { t.cursor with writePointer := w }) : u.LeavesBehind seat p known spent :=
  h.of_forward (fun id pends => by rwa [cursor] at pends) (by rw [cursor])
    (by rw [cursor]; exact UInt64.le_refl _) (same.touched (fun _ => False) 0)

theorem of_looked {q : Queue} (h : t.LeavesBehind seat p known spent) (looked : t.Looked q u) :
    u.LeavesBehind seat p known spent := h.of_look looked.same looked.cursor

theorem advance (h : t.LeavesBehind seat p known spent) (id : EntryId) :
    LeavesBehind seat p known spent ⟨t.storage, t.cursor.advance id⟩ :=
  h.of_forward (fun _ pends => pends) rfl (t.cursor.le_advance id) (.refl (fun _ => False) 0 _)

theorem waiting (h : t.LeavesBehind seat p known spent) {id : EntryId} (fresh : ¬ spent id)
    (claimed : p.isDisjoint = false → (id.toNat : Int) ≤ t.storage.table.standing seat.groupRow) :
    LeavesBehind seat p known spent { t with cursor := { t.cursor with pending := some id } } := by
  have held : ∀ other ∈ Cursor.held { t.cursor with pending := some id },
      other = id ∨ other ∈ t.cursor.held := by
    intro other mem
    rcases Cursor.mem_held.1 mem with pends | cached
    · exact .inl (Option.some.inj pends).symm
    · exact .inr (Cursor.mem_held.2 (.inr cached))
  refine ⟨fun other mem => ?_, fun shared other mem => ?_, h.distinct, h.reached, h.disclosed⟩
  · rcases held other mem with rfl | mem
    · exact fresh
    · exact h.fresh other mem
  · rcases held other mem with rfl | mem
    · exact claimed shared
    · exact h.claimed shared other mem

theorem cached (h : t.LeavesBehind seat p known spent) {entries : List CachedEntry}
    (ahead : FindsAhead seat p known spent (.found entries) t) :
    LeavesBehind seat p known spent { t with cursor := { t.cursor with cache := ⟨entries⟩ } } := by
  obtain ⟨distinct, new⟩ := ahead entries rfl
  refine ⟨fun id mem => ?_, fun shared id mem => ?_, distinct, h.reached, fun id kept => ?_⟩
  · rcases Cursor.mem_held.1 mem with pends | ⟨entry, here, rfl⟩
    · exact h.fresh id (Cursor.mem_held.2 (.inl pends))
    · exact (new entry here).1
  · rcases Cursor.mem_held.1 mem with pends | ⟨entry, here, rfl⟩
    · exact h.claimed shared id (Cursor.mem_held.2 (.inl pends))
    · exact (new entry here).2.2 shared
  · rcases kept with gone | ⟨entry, here, rfl⟩
    · exact h.disclosed id (.inl gone)
    · exact (new entry here).2.1

theorem handedOut {entry : CachedEntry} {rest : List CachedEntry}
    (h : t.LeavesBehind seat p known fun id => spent id ∧ id ≠ entry.id)
    (next : t.cursor.cache.entries = entry :: rest)
    (cursor : u.cursor = Queue.handedOut t.cursor entry rest) {rows : Bytes → Prop} {v : Version}
    (touched : t.storage.table.Touched rows v u.storage.table) :
    u.LeavesBehind seat p known fun id => spent id ∨ id = entry.id := by
  have group : t.storage.table.standing seat.groupRow ≤ u.storage.table.standing seat.groupRow :=
    touched.counter_le _ _
  have distinct : entry.id ∉ rest.map (·.id) ∧ (rest.map (·.id)).Nodup := by
    have distinct := h.distinct
    rw [next] at distinct
    exact List.nodup_cons.1 distinct
  have held : ∀ id ∈ u.cursor.held, id ∈ t.cursor.held ∧ id ≠ entry.id :=
    fun id mem => Cursor.held_handedOut next distinct.1 (cursor ▸ mem)
  have first : entry ∈ t.cursor.cache.entries := next ▸ List.mem_cons_self
  have reached : (entry.id.toNat : Int) ≤ u.reach seat p := by
    unfold reach
    split
    · rw [cursor]
      exact Int.ofNat_le.2 (UInt64.le_iff_toNat_le.1 (t.cursor.le_advance_self entry.id))
    · rename_i shared
      have here : entry.id ∈ t.cursor.held := Cursor.mem_held.2 (.inr ⟨entry, first, rfl⟩)
      exact Int.le_trans (h.claimed (by simpa using shared) _ here) group
  have forward : t.reach seat p ≤ u.reach seat p :=
    reach_le (by rw [cursor]; exact t.cursor.le_advance entry.id) group
  refine ⟨fun id mem gone => ?_, fun shared id mem => ?_, by rw [cursor]; exact distinct.2,
    fun id behind => ?_, fun id kept => Table.Discloses.of_touched ?_ touched⟩
  · obtain ⟨mem, apart⟩ := held id mem
    exact h.fresh id mem ⟨gone.resolve_right apart, apart⟩
  · exact Int.le_trans (h.claimed shared id (held id mem).1) group
  · by_cases same : id = entry.id
    · exact same ▸ reached
    · exact Int.le_trans (h.reached id ⟨behind.resolve_right same, same⟩) forward
  · by_cases same : id = entry.id
    · exact h.disclosed id (.inr ⟨entry, first, same.symm⟩)
    · rcases kept with gone | ⟨other, mem, rfl⟩
      · exact h.disclosed id (.inl ⟨gone.resolve_right same, same⟩)
      · rw [cursor] at mem
        exact h.disclosed _ (.inr ⟨other, next ▸ List.mem_cons_of_mem entry mem, rfl⟩)

end LeavesBehind

end Turn

namespace Queue

variable {q : Queue} {c : Consumer} {config : Config} {s : Snapshot} {spent : EntryId → Prop}
  {t u : Turn}

/-- Some ids are spent for a consumer, whose snapshot shows the state of each. -/
abbrev Behind (q : Queue) (c : Consumer) (config : Config) (s : Snapshot) (spent : EntryId → Prop)
    (t : Turn) : Prop :=
  t.LeavesBehind (q.seat c) config.partitioner (s.sees ·) spent

/-- What a pass finds for a consumer is not spent, and the snapshot shows its state. -/
abbrev Onward (q : Queue) (c : Consumer) (config : Config) (s : Snapshot) (spent : EntryId → Prop)
    (pass : Pass) (t : Turn) : Prop :=
  Turn.FindsAhead (q.seat c) config.partitioner (s.sees ·) spent pass t

private theorem ahead_scans (hash : config.partitioner.isDisjoint = true)
    (h : q.Behind c config s spent t) {w : Window} (beyond : t.cursor.readPointer < w.first) {pass : Pass}
    (scans : q.Scans s w t pass u) : q.Behind c config s spent u ∧ q.Onward c config s spent pass u := by
  have still {st : Storage} (same : t.storage.Alike st) : q.Behind c config s spent ⟨st, t.cursor⟩ :=
    h.of_alike ⟨same.1, rfl⟩
  cases scans with
  | found _ listed shown same =>
      refine ⟨still same, fun found here => ?_⟩
      cases here
      refine ⟨(w.ids_ascending.imp fun less => UInt64.ne_of_lt less).sublist listed,
        fun other mem => ⟨fun gone => ?_, ?_, fun shared => ?_⟩⟩
      · have inside := listed.subset (List.mem_map.2 ⟨other, mem, rfl⟩)
        have after := UInt64.lt_of_lt_of_le beyond (Window.mem_ids.1 inside).1
        have behind := h.reached _ gone
        rw [Turn.reach, if_pos hash, Int.ofNat_le, ← UInt64.le_iff_toNat_le] at behind
        exact absurd (UInt64.lt_of_lt_of_le after behind) (UInt64.lt_irrefl _)
      · exact (q.discloses_of_sight (shown other mem)).of_touched (same.1.touched (fun _ => False) 0)
      · exact absurd (hash.symm.trans shared) (by simp)
  | passed _ same => exact ⟨(still same).advance _, .of_nothing nofun⟩
  | stops _ _ same => exact ⟨(still same).advance _, .of_nothing nofun⟩

theorem ahead_disjointPass (hash : config.partitioner.isDisjoint = true)
    (h : q.Behind c config s spent t) :
    Ends (q.disjointPass c config s) t
      (fun pass u => q.Behind c config s spent u ∧ q.Onward c config s spent pass u)
      fun _ u => q.Behind c config s spent u := by
  refine (q.ends_disjointPass c config s t).imp (fun pass v scans => ?_)
    fun _ _ looked => h.of_looked looked
  cases scans with
  | caughtUp looked _ => exact ⟨h.of_looked looked, .of_nothing nofun⟩
  | window looked window scans =>
      exact ahead_scans hash (h.of_looked looked) (Window.after_bounds window).1 scans

theorem ahead_nextClaim (shared : config.partitioner.isDisjoint = false)
    (h : q.Behind c config s spent t) :
    Ends (q.nextClaim c) t
      (fun claim u => q.Behind c config s spent u ∧
        ∀ id, claim = some id → u.cursor.pending = some id)
      fun _ u => q.Behind c config s spent u := by
  refine (q.ends_nextClaim c t).imp (fun claim v serves => ⟨?_, fun id same =>
    (same ▸ serves : q.ServesNext c t (some id) v).waits⟩) fun _ _ looked => h.of_looked looked
  cases serves with
  | pending _ => exact h
  | @claimed id u v _ looked claims =>
      have h := h.of_looked looked
      have fresh : ¬ spent id := fun gone => by
        have behind := h.reached id gone
        rw [Turn.reach, if_neg (by simp [shared])] at behind
        have next := claims.next
        omega
      have moved : q.Behind c config s spent ⟨v.storage, u.cursor⟩ :=
        h.of_forward (fun _ pends => pends) rfl (UInt64.le_refl _) claims.touched
      obtain ⟨st, k⟩ := v
      obtain rfl := claims.cursor
      exact moved.waiting fresh fun _ => Int.le_of_eq claims.moved.symm
  | nothing _ looked _ => exact h.of_looked looked

theorem ahead_sharedPass (shared : config.partitioner.isDisjoint = false)
    (h : q.Behind c config s spent t) :
    Ends (q.sharedPass c s) t
      (fun pass u => q.Behind c config s spent u ∧ q.Onward c config s spent pass u)
      fun _ u => q.Behind c config s spent u := by
  rw [sharedPass_eq]
  refine (ahead_nextClaim shared h).bind fun claim u ⟨h, pends⟩ => ?_
  refine (q.ends_takeUp s claim u).imp (fun pass v takes => ?_) fun _ _ failed => h.of_alike failed
  have still {st : Storage} (same : u.storage.Alike st) : q.Behind c config s spent ⟨st, u.cursor⟩ :=
    h.of_alike ⟨same.1, rfl⟩
  cases takes with
  | nothing => exact ⟨h, .of_nothing nofun⟩
  | @found id payload st sight same =>
      have mem : id ∈ u.cursor.held := Cursor.mem_held.2 (.inl (pends id rfl))
      have disclosed := (q.discloses_of_sight sight).of_touched (same.1.touched (fun _ => False) 0)
      exact ⟨still same, .singleton (h.fresh id mem) disclosed
        fun shared => (still same).claimed shared id mem⟩
  | waits _ same => exact ⟨still same, .of_nothing nofun⟩
  | drops _ same =>
      exact ⟨h.of_forward nofun rfl (UInt64.le_refl _) (same.1.touched (fun _ => False) 0),
        .of_nothing nofun⟩

theorem ahead_fetch (h : q.Behind c config s spent t) :
    Ends (q.fetch c config s) t
      (fun _ u => q.Behind c config s spent u)
      fun _ u => q.Behind c config s spent u := by
  have goes {pass : TurnM Pass} {fetch : TurnM Unit} (repeats : Repeats pass fetch)
      (ahead : ∀ t : Turn, q.Behind c config s spent t →
        Ends pass t (fun answer u => q.Behind c config s spent u ∧ q.Onward c config s spent answer u)
          fun _ u => q.Behind c config s spent u) :
      Ends fetch t (fun _ u => q.Behind c config s spent u)
        fun _ u => q.Behind c config s spent u := by
    refine repeats.keeps (fun t h => ?_) h
    refine (ahead t h).imp ?_ fun _ _ failed => failed
    rintro _ u ⟨h, finds⟩
    exact ⟨h, fun entries found => h.cached (found ▸ finds)⟩
  cases kind : config.partitioner with
  | hash =>
      have disjoint : config.partitioner.isDisjoint = true := by rw [kind]; rfl
      have same : q.fetch c config s = q.fetchDisjoint c config s := by rw [fetch, kind]
      rw [same]
      exact goes (q.repeats_fetchDisjoint c config s) fun t h => ahead_disjointPass disjoint h
  | roundRobin =>
      have shared : config.partitioner.isDisjoint = false := by rw [kind]; rfl
      have same : q.fetch c config s = q.fetchShared c s := by rw [fetch, kind]
      rw [same]
      exact goes (q.repeats_fetchShared c s) fun t h => ahead_sharedPass shared h

theorem ahead_refill (h : q.Behind c config s spent t) :
    Ends (q.refill c config s) t
      (fun _ u => q.Behind c config s spent u)
      fun _ u => q.Behind c config s spent u := by
  cases cached : t.cursor.cache.hasNext with
  | true => exact .answered (refill_of_hasNext cached) h
  | false => exact .of_eq (refill_of_not_hasNext cached) (ahead_fetch h)

private theorem behind_of_put (h : q.Behind c config s spent t)
    {cells : List (Bytes × Bytes)} {v : Version} (cursor : u.cursor = t.cursor)
    (table : u.storage.table = t.storage.table.recordAll (q.seat c).row cells v) :
    q.Behind c config s spent u := by
  exact h.of_forward (fun id pends => cursor ▸ pends) (by rw [cursor])
    (by rw [cursor]; exact UInt64.le_refl _) (.of_recordAll table)

theorem ahead_handOut_next {entry : CachedEntry} {rest : List CachedEntry}
    (next : t.cursor.cache.entries = entry :: rest)
    (h : q.Behind c config s (fun id => spent id ∧ id ≠ entry.id) t) :
    Ends (q.handOut c config s) t
      (fun d u => d.pointer?.map (·.id) = some entry.id ∧
        q.Behind c config s (fun id => spent id ∨ id = entry.id) u)
      fun _ u => q.Behind c config s spent u := by
  refine (ends_handOut_next next).imp ?_ ?_
  · rintro _ u ⟨rfl, cursor, table⟩
    exact ⟨rfl, h.handedOut next cursor (.of_recordAll table)⟩
  · rintro e u ⟨_, cursor, same⟩
    exact (h.handedOut next cursor (same.touched (fun _ => False) 0)).mono fun _ kept => .inl kept

theorem ahead_handOut (h : q.Behind c config s spent t) :
    Ends (q.handOut c config s) t
      (fun d u => (∀ id, d.pointer?.map (·.id) = some id → ¬ spent id) ∧
        q.Behind c config s (fun id => spent id ∨ d.pointer?.map (·.id) = some id) u)
      fun _ u => q.Behind c config s spent u := by
  cases cached : t.cursor.cache.entries with
  | nil =>
      refine (ends_handOut_nothing cached).imp ?_ fun _ _ same => h.of_alike same
      rintro _ u ⟨rfl, cursor, table⟩
      refine ⟨nofun, (behind_of_put h cursor table).mono ?_⟩
      rintro id (kept | served)
      · exact kept
      · cases served
  | cons entry rest =>
      have fresh := h.fresh entry.id
        (Cursor.mem_held.2 (.inr ⟨entry, cached ▸ List.mem_cons_self, rfl⟩))
      refine (ahead_handOut_next cached (h.mono fun _ kept => kept.1)).imp ?_ fun _ _ failed => failed
      rintro d u ⟨served, behind⟩
      rw [served]
      refine ⟨fun id same => Option.some.inj same ▸ fresh, behind.mono ?_⟩
      rintro id (kept | here)
      · exact .inl kept
      · exact .inr (Option.some.inj here).symm

theorem ahead_proceed (h : q.Behind c config s spent t) :
    Ends (q.proceed c config s) t
      (fun d u => (∀ id, d.pointer?.map (·.id) = some id → ¬ spent id) ∧
        q.Behind c config s (fun id => spent id ∨ d.pointer?.map (·.id) = some id) u)
      fun _ u => q.Behind c config s spent u :=
  (ahead_refill h).bind fun _ _ h => ahead_handOut h

theorem ahead_proceed_again {entry : CachedEntry} (cached : t.cursor.cache.entries = [entry])
    (h : q.Behind c config s (fun id => spent id ∧ id ≠ entry.id) t) :
    Ends (q.proceed c config s) t
      (fun d u => d.pointer?.map (·.id) = some entry.id ∧
        q.Behind c config s (fun id => spent id ∨ id = entry.id) u)
      fun _ u => q.Behind c config s spent u := by
  have filled : q.refill c config s t = .ok () t := q.refill_of_cached c config s cached
  exact .of_eq (bind_eq_of_ok filled) (ahead_handOut_next cached h)

variable {a r : EntryId}

theorem ahead_settle (h : q.Behind c config s spent t)
    (claimed : a ≠ noEntry → config.partitioner.isDisjoint = false →
      (a.toNat : Int) ≤ t.storage.table.standing (q.seat c).groupRow)
    (shown : spent a → q.sight (q.shows t.storage.table s) a ≠ .ok .unseen) :
    Ends (q.settle c config s a) t
      (fun _ u => q.Behind c config s spent u ∨
        a ≠ noEntry ∧ ∃ payload, u.cursor.cache.entries = [⟨a, payload⟩] ∧
          q.Behind c config s (fun id => spent id ∧ id ≠ a) u)
      fun _ u => q.Behind c config s spent u := by
  refine (ends_settle t).imp (fun _ u settles => ?_) fun _ _ failed => h.of_alike ⟨failed.1.1, failed.2⟩
  have still {st : Storage} (same : t.storage.Alike st) : q.Behind c config s spent ⟨st, t.cursor⟩ :=
    h.of_alike ⟨same.1, rfl⟩
  have claimed {st : Storage} (same : t.storage.Alike st) (some : a ≠ noEntry)
      (shared : config.partitioner.isDisjoint = false) :
      (a.toNat : Int) ≤ st.table.standing (q.seat c).groupRow := by
    rw [same.1.standing]
    exact claimed some shared
  -- Only an entry that is shown as servable, or not shown at all, gets into the cursor.
  cases settles with
  | idle _ => exact .inl h
  | @again payload st some sight same =>
      have disclosed := (q.discloses_of_sight sight).of_touched (same.1.touched (fun _ => False) 0)
      have others : q.Behind c config s (fun id => spent id ∧ id ≠ a) ⟨st, t.cursor⟩ :=
        (still same).mono fun _ gone => gone.1
      have ahead : q.Onward c config s (fun id => spent id ∧ id ≠ a) (.found [⟨a, payload⟩])
          ⟨st, t.cursor⟩ := .singleton (fun gone => gone.2 rfl) disclosed (claimed same some)
      exact .inr ⟨some, payload, rfl, (others.cached ahead).of_forward (fun _ pends => pends) rfl
        (UInt64.le_refl _) (.refl (fun _ => False) 0 _)⟩
  | waits some sight _ same =>
      exact .inl ((still same).waiting (fun gone => shown gone sight) (claimed same some))
  | clears _ _ _ same table _ => exact .inl (behind_of_put (still same) rfl table)

theorem ahead_load (holds : t.storage.table.Holds (q.seat c) a r)
    (seen : t.storage.table.RowSeen (q.seat c).row s) (unloaded : t.cursor.loaded = false)
    (rest : q.Behind c config s spent ⟨t.storage, { loaded := true, readPointer := r }⟩)
    (claimed : a ≠ noEntry → config.partitioner.isDisjoint = false →
      (a.toNat : Int) ≤ t.storage.table.standing (q.seat c).groupRow)
    (shown : spent a → q.sight (q.shows t.storage.table s) a ≠ .ok .unseen) :
    Ends (q.load c config s) t
      (fun _ u => q.Behind c config s spent u ∨
        a ≠ noEntry ∧ ∃ payload, u.cursor.cache.entries = [⟨a, payload⟩] ∧
          q.Behind c config s (fun id => spent id ∧ id ≠ a) u)
      fun _ u => u.cursor.loaded = true → q.Behind c config s spent u := by
  have decoded {column : Column} {x y : EntryId}
      (read : q.decodeId c (q.shows t.storage.table s (consumerRow c) column) = .ok x)
      (stored : storedId? (t.storage.table.stored (q.seat c) column) = some y) : x = y := by
    rw [seen.shows] at read
    exact Option.some.inj ((q.storedId?_of_decodeId c read).symm.trans stored)
  refine ends_load_read t.cursor (fun u same left loaded => ?_) fun a' r' w st' reads _ same => ?_
  · rcases left with kept | ⟨r', read, cursor⟩
    · rw [kept, unloaded] at loaded
      cases loaded
    · cases decoded read holds.readPointer
      exact rest.of_alike ⟨same.1, cursor⟩
  · cases decoded reads.active holds.active
    cases decoded reads.readPointer holds.readPointer
    have h : q.Behind c config s spent
        ⟨st', { loaded := true, readPointer := r, writePointer := w }⟩ := rest.of_look same.1 rfl
    refine (ahead_settle h ?_ ?_).imp (fun _ _ done => done) fun _ _ failed _ => failed
    · intro some shared
      rw [same.1.standing]
      exact claimed some shared
    · intro gone
      rw [q.shows_of_alike same.1]
      exact shown gone

/-- However a request ends, it hands out none of the spent ids, except the active entry of the row to
a cursor that was never loaded; and it leaves behind what was behind and what it handed out. -/
theorem ahead_dequeue (holds : t.storage.table.Holds (q.seat c) a r)
    (seen : t.storage.table.RowSeen (q.seat c).row s)
    (rest : q.Behind c config s spent ⟨t.storage, { loaded := true, readPointer := r }⟩)
    (kept : t.cursor.loaded = true → q.Behind c config s spent t)
    (claimed : a ≠ noEntry → config.partitioner.isDisjoint = false →
      (a.toNat : Int) ≤ t.storage.table.standing (q.seat c).groupRow)
    (shown : spent a → q.sight (q.shows t.storage.table s) a ≠ .ok .unseen) :
    Ends (q.dequeue c config s) t
      (fun d u => (∀ id, d.pointer?.map (·.id) = some id → spent id → id = a ∧ id ≠ noEntry) ∧
        q.Behind c config s (fun id => spent id ∨ d.pointer?.map (·.id) = some id) u)
      fun _ u => u.cursor.loaded = true → q.Behind c config s spent u := by
  unfold dequeue
  refine Ends.ofExcept_bind (fun _ _ => kept) fun _ _ => ?_
  refine Ends.ofExcept_bind (fun _ _ => kept) fun _ _ => ?_
  have goes {u : Turn} (h : q.Behind c config s spent u) :
      Ends (q.proceed c config s) u
        (fun d u => (∀ id, d.pointer?.map (·.id) = some id → spent id → id = a ∧ id ≠ noEntry) ∧
          q.Behind c config s (fun id => spent id ∨ d.pointer?.map (·.id) = some id) u)
        fun _ u => u.cursor.loaded = true → q.Behind c config s spent u :=
    (ahead_proceed h).imp (fun _ _ done => ⟨fun id served gone => absurd gone (done.1 id served), done.2⟩)
      fun _ _ failed _ => failed
  cases loaded : t.cursor.loaded with
  | true => exact .of_eq (bind_eq_of_ok (q.ensureLoaded_of_loaded c config s loaded)) (goes (kept loaded))
  | false =>
      have loads : Ends (q.ensureLoaded c config s) t
          (fun _ u => q.Behind c config s spent u ∨
            a ≠ noEntry ∧ ∃ payload, u.cursor.cache.entries = [⟨a, payload⟩] ∧
              q.Behind c config s (fun id => spent id ∧ id ≠ a) u)
          fun _ u => u.cursor.loaded = true → q.Behind c config s spent u :=
        .of_eq (q.ensureLoaded_of_unloaded c config s loaded)
          (ahead_load holds seen loaded rest claimed shown)
      refine loads.bind fun _ u done => ?_
      rcases done with h | ⟨some, payload, cached, h⟩
      · exact goes h
      · refine (ahead_proceed_again cached h).imp ?_ fun _ _ failed _ => failed
        rintro d u ⟨served, behind⟩
        rw [served]
        refine ⟨fun id same _ => Option.some.inj same ▸ ⟨rfl, some⟩, behind.mono ?_⟩
        rintro id (gone | same)
        · exact .inl gone
        · exact .inr (Option.some.inj same).symm

end Queue

end VersionedQueue
