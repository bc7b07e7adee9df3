import VersionedQueue.Proofs.Delivery.Retry

/-!
# Where entries come from

A request hands out the next entry of the cache that it was passed, or else one that its snapshot shows as
servable.  What it leaves in the cache was there before, or was fetched by the request for a disjoint
group: a member of a shared group fetches one entry at a time and hands it out at once.  Any call may
fail meanwhile.
-/

set_option autoImplicit false
set_option relaxedAutoImplicit false

namespace VersionedQueue

/-- The entries that a request goes on with; those of a cursor that was never loaded are dropped. -/
def Cursor.passed (k : Cursor) : List CachedEntry := if k.loaded then k.cache.entries else []

theorem Cursor.passed_of_loaded {k : Cursor} (loaded : k.loaded = true) : k.passed = k.cache.entries :=
  if_pos loaded

theorem Cursor.passed_of_unloaded {k : Cursor} (unloaded : k.loaded = false) : k.passed = [] := by
  simp [passed, unloaded]

theorem Cursor.passed_of_empty {k : Cursor} (empty : k.cache.entries = []) : k.passed = [] := by
  simp [passed, empty]

/-- Entries that were found together have a property, and are no more than one in a shared group. -/
structure Batch (config : Config) (P : CachedEntry → Prop) (entries : List CachedEntry) : Prop where
  all : ∀ entry ∈ entries, P entry
  single : config.partitioner = .hash ∨ entries.tail = []

theorem Batch.nil (config : Config) (P : CachedEntry → Prop) : Batch config P [] := ⟨nofun, .inr rfl⟩

theorem Batch.singleton (config : Config) {P : CachedEntry → Prop} {entry : CachedEntry} (h : P entry) :
    Batch config P [entry] := ⟨by simpa using h, .inr rfl⟩

/-- What a request has to hand out: what it goes on with, or else what it has found. -/
def Supplied (config : Config) (P : CachedEntry → Prop) (passed entries : List CachedEntry) : Prop :=
  (passed ≠ [] ∧ entries = passed) ∨ (passed = [] ∧ Batch config P entries)

theorem Supplied.trans {config : Config} {P : CachedEntry → Prop} {passed loaded filled : List CachedEntry}
    (first : Supplied config P passed loaded) (second : Supplied config P loaded filled) :
    Supplied config P passed filled := by
  rcases first with ⟨some, rfl⟩ | ⟨none, found⟩
  · exact second
  · rcases second with ⟨_, rfl⟩ | ⟨_, fetched⟩
    · exact .inr ⟨none, found⟩
    · exact .inr ⟨none, fetched⟩

/-- What is left in a cursor was there before, or was found for a disjoint group. -/
def LeavesFrom (config : Config) (P : CachedEntry → Prop) (k k' : Cursor) : Prop :=
  ∀ entry ∈ k'.passed, entry ∈ k.passed ∨ (config.partitioner = .hash ∧ P entry)

/-- What is handed out is the next entry of a cursor, or was found where the cursor had none. -/
def ServesFrom (queue : String) (P : CachedEntry → Prop) (k : Cursor) (d : Delivery) : Prop :=
  ∀ p x, d = .served p x → ∃ entry : CachedEntry, p = ⟨queue, entry.id⟩ ∧ x = ⟨entry.payload, {}⟩ ∧
    (k.passed.head? = some entry ∨ (k.passed = [] ∧ P entry))

theorem LeavesFrom.of_subset {config : Config} {P : CachedEntry → Prop} {k k' : Cursor}
    (h : ∀ entry ∈ k'.passed, entry ∈ k.passed) : LeavesFrom config P k k' :=
  fun entry mem => .inl (h entry mem)

namespace Queue

variable {q : Queue} {c : Consumer} {config : Config} {s : Snapshot} {P : CachedEntry → Prop}
  {t u : Turn}

/-- Every entry that a snapshot shows as servable has a property. -/
def Shown (q : Queue) (s : Snapshot) (P : CachedEntry → Prop) (t : Table) : Prop :=
  ∀ entry : CachedEntry, q.sight (q.shows t s) entry.id = .ok (.servable entry.payload) → P entry

theorem sight_of_same {t t' : Table} {id : EntryId} (same : ∀ column,
    t'.history ((RowKey.entry id).encode q.name) column =
      t.history ((RowKey.entry id).encode q.name) column) :
    q.sight (q.shows t' s) id = q.sight (q.shows t s) id := by
  simp only [sight, shows, Table.read, same]

namespace Shown

variable {t t' : Table} (h : q.Shown s P t)

include h

theorem of_touched {rows : Bytes → Prop} {v : Version} (touched : t.Touched rows v t')
    (out : ∀ id, ¬ rows ((RowKey.entry id).encode q.name)) : q.Shown s P t' := fun entry shown =>
  h entry ((sight_of_same fun column => touched.history _ (out entry.id) column).symm.trans shown)

theorem of_alike (same : t.Alike t') : q.Shown s P t' :=
  h.of_touched (same.touched (fun _ => False) 0) fun _ => id

theorem of_group_moved {v : Version} (touched : t.Touched (· = (q.seat c).groupRow) v t') :
    q.Shown s P t' :=
  h.of_touched touched fun _ same => RowKey.noConfusion (RowKey.encode_injective same)

theorem of_row_written {v : Version} (touched : t.Touched (· = (q.seat c).row) v t') :
    q.Shown s P t' :=
  h.of_touched touched fun _ same => RowKey.noConfusion (RowKey.encode_injective same)

end Shown

/-- What a pass finds has a property, and is a single entry in a shared group. -/
def FindsBatch (config : Config) (P : CachedEntry → Prop) (pass : Pass) : Prop :=
  ∀ entries, pass = .found entries → Batch config P entries

theorem FindsBatch.of_nothing {pass : Pass} (nothing : ∀ entries, pass ≠ .found entries) :
    FindsBatch config P pass := fun entries found => absurd found (nothing entries)

private theorem finds_disjointPass (disjoint : config.partitioner = .hash)
    (h : q.Shown s P t.storage.table) :
    Ends (q.disjointPass c config s) t (fun pass _ => FindsBatch config P pass) fun _ _ => True := by
  refine (q.ends_disjointPass c config s t).imp (fun pass v scans => ?_) fun _ _ _ => trivial
  cases scans with
  | caughtUp _ _ => exact .of_nothing nofun
  | window looked _ scans =>
      cases scans with
      | found _ _ shown _ =>
          intro entries here
          cases here
          exact ⟨fun entry mem => h.of_alike looked.same entry (shown entry mem), .inl disjoint⟩
      | passed _ _ => exact .of_nothing nofun
      | stops _ _ _ => exact .of_nothing nofun

private theorem finds_takeUp (h : q.Shown s P t.storage.table) (claim : Option EntryId) :
    Ends (q.takeUp s claim) t (fun pass _ => FindsBatch config P pass) fun _ _ => True := by
  refine (q.ends_takeUp s claim t).imp (fun pass v takes => ?_) fun _ _ _ => trivial
  cases takes with
  | nothing => exact .of_nothing nofun
  | @found id payload _ shown _ =>
      intro entries here
      cases here
      exact .singleton config (h ⟨id, payload⟩ shown)
  | waits _ _ => exact .of_nothing nofun
  | drops _ _ => exact .of_nothing nofun

private theorem keeps_group_claimId :
    (Storage.touched (· = (q.seat c).groupRow) 0).Keeps (q.claimId c.group) :=
  q.keeps_count (by rfl) _

private theorem finds_sharedPass (h : q.Shown s P t.storage.table) :
    Ends (q.sharedPass c s) t (fun pass _ => FindsBatch config P pass) fun _ _ => True := by
  have kept : (Turn.touched (· = (q.seat c).groupRow) 0).Keeps (q.nextClaim c) :=
    (q.admits_touching s _ _).nextClaim c (StateBound.keeps_onTurns keeps_group_claimId)
  rw [sharedPass_eq]
  refine ((kept.ends t).imp (fun _ _ touched => h.of_group_moved touched.1) fun _ _ _ => trivial :
    Ends _ t (fun _ u => q.Shown s P u.storage.table) _).bind fun claim u h => ?_
  exact finds_takeUp h claim

private theorem exists_finding (q : Queue) (c : Consumer) (config : Config) (s : Snapshot)
    (P : CachedEntry → Prop) : ∃ pass, Fetching pass (q.fetch c config s) ∧
      ∀ t : Turn, q.Shown s P t.storage.table →
        Ends pass t (fun answer u => q.Shown s P u.storage.table ∧ FindsBatch config P answer)
          fun _ _ => True := by
  -- A pass writes to the pointer of the group alone, so the next pass is shown the same entries.
  have both {pass : TurnM Pass} (kept : (Turn.touched (· = (q.seat c).groupRow) 0).Keeps pass) {t : Turn}
      (h : q.Shown s P t.storage.table)
      (finds : Ends pass t (fun answer _ => FindsBatch config P answer) fun _ _ => True) :
      Ends pass t (fun answer u => q.Shown s P u.storage.table ∧ FindsBatch config P answer)
        fun _ _ => True :=
    .intro (fun _ _ done => ⟨h.of_group_moved ((kept.ends t).of_ok done).1, finds.of_ok done⟩)
      fun _ _ _ => trivial
  unfold fetch
  cases kind : config.partitioner with
  | hash =>
      refine ⟨_, q.fetching_fetchDisjoint c config s,
        fun t h => both ?_ h (finds_disjointPass kind h)⟩
      exact (q.admits_touching s _ _).disjointPass c config
  | roundRobin =>
      refine ⟨_, q.fetching_fetchShared c s, fun t h => both ?_ h (finds_sharedPass h)⟩
      exact (q.admits_touching s _ _).sharedPass c (StateBound.keeps_onTurns keeps_group_claimId)

theorem batch_of_fetch (h : q.Shown s P t.storage.table) :
    Ends (q.fetch c config s) t
      (fun _ u => u.cursor.loaded = t.cursor.loaded ∧
        (u.cursor.cache = t.cursor.cache ∨ Batch config P u.cursor.cache.entries))
      fun _ u => Turn.cacheKept.rel t u := by
  obtain ⟨pass, fetching, finds⟩ := exists_finding q c config s P
  induction t using fetching.repeats.induct with
  | passed t t' done ih =>
      obtain ⟨cache, loaded⟩ := (fetching.keeps.ends t).of_ok done
      refine .of_eq (fetching.repeats.passed done) ((ih ((finds t h).of_ok done).1).imp ?_ ?_)
      · rintro _ u ⟨kept, found⟩
        exact ⟨kept.trans loaded, cache ▸ found⟩
      · exact fun _ u rest => Turn.cacheKept.trans ⟨cache, loaded⟩ rest
  | found t t' entries done =>
      exact .answered (fetching.repeats.found done)
        ⟨((fetching.keeps.ends t).of_ok done).2, .inr (((finds t h).of_ok done).2 entries rfl)⟩
  | exhausted t t' done =>
      obtain ⟨cache, loaded⟩ := (fetching.keeps.ends t).of_ok done
      exact .answered (fetching.repeats.exhausted done) ⟨loaded, .inl cache⟩
  | failed t t' e done =>
      exact .failed (fetching.repeats.failed done) ((fetching.keeps.ends t).of_error done)

theorem supplied_of_refill (h : q.Shown s P t.storage.table) :
    Ends (q.refill c config s) t
      (fun _ u => u.cursor.loaded = t.cursor.loaded ∧
        Supplied config P t.cursor.cache.entries u.cursor.cache.entries)
      fun _ u => u.cursor.cache.entries = [] := by
  cases cached : t.cursor.cache.entries with
  | cons entry rest =>
      have some : t.cursor.cache.hasNext = true := by simp [Cache.hasNext, cached]
      exact .answered (refill_of_hasNext some) ⟨rfl, .inl ⟨List.cons_ne_nil entry rest, cached⟩⟩
  | nil =>
      have none : t.cursor.cache.hasNext = false := by simp [Cache.hasNext, cached]
      refine .of_eq (refill_of_not_hasNext none) ((batch_of_fetch h).imp ?_ ?_)
      · rintro _ u ⟨loaded, same | found⟩
        · exact ⟨loaded, .inr ⟨rfl, by rw [same, cached]; exact .nil config P⟩⟩
        · exact ⟨loaded, .inr ⟨rfl, found⟩⟩
      · rintro _ u ⟨same, _⟩
        rw [same, cached]

private theorem batch_of_settle (h : q.Shown s P t.storage.table) (empty : t.cursor.cache.entries = [])
    (a : EntryId) :
    Ends (q.settle c config s a) t
      (fun _ u => u.cursor.loaded = t.cursor.loaded ∧ Batch config P u.cursor.cache.entries)
      fun _ u => u.cursor = t.cursor := by
  have nothing : Batch config P t.cursor.cache.entries := empty ▸ .nil config P
  refine (ends_settle t).imp (fun _ u settles => ?_) fun _ _ failed => failed.2
  cases settles with
  | idle _ => exact ⟨rfl, nothing⟩
  | @again payload _ _ shown _ => exact ⟨rfl, .singleton config (h ⟨a, payload⟩ shown)⟩
  | waits _ _ _ _ => exact ⟨rfl, nothing⟩
  | clears _ _ _ _ _ _ => exact ⟨rfl, nothing⟩

private theorem batch_of_load (h : q.Shown s P t.storage.table) (unloaded : t.cursor.loaded = false) :
    Ends (q.load c config s) t
      (fun _ u => u.cursor.loaded = true ∧ Batch config P u.cursor.cache.entries)
      fun _ u => u.cursor.passed = [] := by
  refine ends_load_read t.cursor (fun u _ left => ?_) fun a r w st' _ _ same => ?_
  · rcases left with kept | ⟨r, _, cursor⟩
    · rw [kept, Cursor.passed_of_unloaded unloaded]
    · rw [cursor]
      rfl
  · refine (batch_of_settle (h.of_alike same.1) rfl a).imp (fun _ _ done => done) ?_
    rintro _ u kept
    rw [kept]
    rfl

private theorem supplied_of_ensureLoaded (h : q.Shown s P t.storage.table) :
    Ends (q.ensureLoaded c config s) t
      (fun _ u => u.cursor.loaded = true ∧ q.Shown s P u.storage.table ∧
        Supplied config P t.cursor.passed u.cursor.cache.entries)
      fun _ u => LeavesFrom config P t.cursor u.cursor := by
  have kept := (@keeps_ensureLoaded q c config s).ends t
  cases loaded : t.cursor.loaded with
  | true =>
      refine .answered (q.ensureLoaded_of_loaded c config s loaded) ⟨loaded, h, ?_⟩
      rw [Cursor.passed_of_loaded loaded]
      cases cached : t.cursor.cache.entries with
      | nil => exact .inr ⟨rfl, .nil config P⟩
      | cons entry rest => exact .inl ⟨nofun, rfl⟩
  | false =>
      have same := q.ensureLoaded_of_unloaded c config s loaded
      have loads := @batch_of_load q c config s P t h loaded
      refine .intro (fun _ u done => ?_) fun e u failed => ?_
      · obtain ⟨now, found⟩ := loads.of_ok (same ▸ done)
        exact ⟨now, h.of_row_written (kept.of_ok done).1,
          .inr ⟨Cursor.passed_of_unloaded loaded, found⟩⟩
      · intro entry mem
        rw [loads.of_error (same ▸ failed)] at mem
        cases mem

private theorem serves_of_handOut {passed : Cursor} (loaded : t.cursor.loaded = true)
    (supplied : Supplied config P passed.passed t.cursor.cache.entries) :
    Ends (q.handOut c config s) t
      (fun d u => LeavesFrom config P passed u.cursor ∧ ServesFrom q.name P passed d)
      fun _ u => LeavesFrom config P passed u.cursor := by
  cases cached : t.cursor.cache.entries with
  | nil =>
      have nothing (u : Turn) (same : u.cursor = t.cursor) : LeavesFrom config P passed u.cursor := by
        intro entry mem
        rw [same, Cursor.passed_of_loaded loaded, cached] at mem
        cases mem
      refine (ends_handOut_nothing cached).imp ?_ fun _ u same => nothing u same.2
      rintro _ u ⟨rfl, same, _⟩
      exact ⟨nothing u same, nofun⟩
  | cons entry rest =>
      have left : LeavesFrom config P passed (handedOut t.cursor entry rest) := by
        intro other mem
        have mem : other ∈ rest := by
          rwa [Cursor.passed_of_loaded (show (handedOut t.cursor entry rest).loaded = true from loaded)]
            at mem
        rcases supplied with ⟨_, same⟩ | ⟨_, found, disjoint | single⟩
        · rw [← same, cached]
          exact .inl (List.mem_cons_of_mem entry mem)
        · rw [cached] at found
          exact .inr ⟨disjoint, found other (List.mem_cons_of_mem entry mem)⟩
        · rw [cached] at single
          cases single
          cases mem
      refine (ends_handOut_next cached).imp ?_ fun _ u failed => failed.2.1 ▸ left
      rintro _ u ⟨rfl, kept, _⟩
      refine ⟨kept ▸ left, ?_⟩
      rintro p x same
      cases same
      refine ⟨entry, rfl, rfl, ?_⟩
      rcases supplied with ⟨_, same⟩ | ⟨none, found, _⟩
      · rw [← same, cached]
        exact .inl rfl
      · exact .inr ⟨none, found entry (cached ▸ List.mem_cons_self)⟩

/-- However a request ends, it leaves and hands out only entries of the cursor that it was passed and
entries that its snapshot shows. -/
theorem sources_of_dequeue (h : q.Shown s P t.storage.table) :
    Ends (q.dequeue c config s) t
      (fun d u => LeavesFrom config P t.cursor u.cursor ∧ ServesFrom q.name P t.cursor d)
      fun _ u => LeavesFrom config P t.cursor u.cursor := by
  have refused : LeavesFrom config P t.cursor t.cursor := .of_subset fun _ mem => mem
  unfold dequeue
  refine Ends.ofExcept_bind (fun _ _ => refused) fun _ _ => ?_
  refine Ends.ofExcept_bind (fun _ _ => refused) fun _ _ => ?_
  refine (supplied_of_ensureLoaded h).bind fun _ u ⟨loaded, h, supplied⟩ => ?_
  have refills : Ends (q.refill c config s) u
      (fun _ v => v.cursor.loaded = true ∧ Supplied config P t.cursor.passed v.cursor.cache.entries)
      fun _ v => LeavesFrom config P t.cursor v.cursor := by
    refine (supplied_of_refill h).imp ?_ ?_
    · exact fun _ v ⟨same, filled⟩ => ⟨same.trans loaded, supplied.trans filled⟩
    · intro _ v empty entry mem
      rw [Cursor.passed_of_empty empty] at mem
      cases mem
  exact refills.bind fun _ v ⟨loaded, supplied⟩ => serves_of_handOut loaded supplied

end Queue

end VersionedQueue
