import VersionedQueue.Proofs.Delivery.Passes
import VersionedQueue.Proofs.Disjoint.Retry

/-!
# Retrying with a cursor

A consumer that keeps its cursor asks again, under the same snapshot, after a request that failed.  It
gets the answer that the request would have had, unless the request failed to store the entry that it
was about to hand out: the entry has left the cursor by then.
-/

set_option autoImplicit false
set_option relaxedAutoImplicit false

namespace VersionedQueue

/-- The failure is one of the call that stores a consumer's row. -/
def QueueError.IsStoring (e : QueueError) : Prop :=
  ∃ source, e = .internal Purpose.writeConsumer.text source

/-- Not to fail as storing a row fails, as a property that requests inherit. -/
def storesNothing : Inherited where
  Of act := ∀ t e t', act t = .error e t' → ¬ e.IsStoring
  Throws e := ¬ e.IsStoring
  pure _ _ _ _ failed := by cases failed
  throw fine _ _ _ failed := by
    cases failed
    exact fine
  bind {α β act next} first second t e t' failed := by
    rcases error_of_bind failed with failed | ⟨a, u, _, failed⟩
    · exact first t e t' failed
    · exact second a u e t' failed

/-- Operations that leave the cache of the cursor alone, and whether it was loaded. -/
def Turn.cacheKept : StateBound Turn where
  rel t t' := t'.cursor.cache = t.cursor.cache ∧ t'.cursor.loaded = t.cursor.loaded
  refl _ := ⟨rfl, rfl⟩
  trans first second := ⟨second.1.trans first.1, second.2.trans first.2⟩

namespace Turn

variable {α : Type}

theorem keeps_cache_onStorage (act : StorageM α) : cacheKept.Keeps (onStorage act) := by
  intro t
  unfold onStorage
  cases act t.storage <;> exact ⟨rfl, rfl⟩

theorem keeps_cache_update {f : Cursor → Cursor}
    (h : ∀ k, (f k).cache = k.cache ∧ (f k).loaded = k.loaded) : cacheKept.Keeps (update f) :=
  fun t => h t.cursor

theorem keeps_cache_now : cacheKept.Keeps cursorNow := fun t => cacheKept.refl t

end Turn

namespace Queue

open StateBound (keeps_pure keeps_bind keeps_ite)
open Turn (keeps_cache_onStorage keeps_cache_update keeps_cache_now)

variable (q : Queue) (c : Consumer) (config : Config) (s : Snapshot)

theorem keeps_cache_refreshIf (stale : Bool) : Turn.cacheKept.Keeps (q.refreshIf stale) := by
  cases stale with
  | false => exact keeps_pure _
  | true =>
      exact keeps_bind (keeps_cache_onStorage _) fun _ => keeps_cache_update fun _ => ⟨rfl, rfl⟩

theorem keeps_cache_scanWindow (w : Window) : Turn.cacheKept.Keeps (q.scanWindow c config s w) := by
  refine keeps_bind (keeps_cache_onStorage _) fun scan => ?_
  have passing (pass : Pass) (id : EntryId) :
      Turn.cacheKept.Keeps (do Turn.update (·.advance id); return pass) :=
    keeps_bind (keeps_cache_update fun _ => ⟨rfl, rfl⟩) fun _ => keeps_pure _
  cases (owned c config.partitioner scan).getLast? with
  | some last =>
      refine keeps_bind (keeps_cache_onStorage _) fun seen => ?_
      cases servableEntries seen with
      | nil => exact passing _ _
      | cons _ _ => exact keeps_pure _
  | none =>
      cases scan.firstUnseen with
      | some _ => exact passing _ _
      | none => exact passing _ _

theorem keeps_cache_disjointPass : Turn.cacheKept.Keeps (q.disjointPass c config s) := by
  refine keeps_bind keeps_cache_now fun before => ?_
  refine keeps_bind (q.keeps_cache_refreshIf _) fun _ => keeps_bind keeps_cache_now fun cursor => ?_
  cases Window.after cursor.readPointer config.effectiveBatchSize c.groupSize
      cursor.writePointer with
  | none => exact keeps_pure _
  | some w => exact q.keeps_cache_scanWindow c config s w

theorem keeps_cache_nextClaim : Turn.cacheKept.Keeps (q.nextClaim c) := by
  refine keeps_bind keeps_cache_now fun cursor => ?_
  cases cursor.pending with
  | some id => exact keeps_pure _
  | none =>
      refine keeps_bind (keeps_cache_onStorage _) fun groupPointer => ?_
      refine keeps_bind (q.keeps_cache_refreshIf _) fun _ => keeps_bind keeps_cache_now fun _ => ?_
      refine keeps_ite (keeps_bind (keeps_cache_onStorage _) fun id => ?_) (keeps_pure _)
      exact keeps_bind (keeps_cache_update fun _ => ⟨rfl, rfl⟩) fun _ => keeps_pure _

theorem keeps_cache_sharedPass : Turn.cacheKept.Keeps (q.sharedPass c s) := by
  refine keeps_bind (q.keeps_cache_nextClaim c) fun claim => ?_
  cases claim with
  | none => exact keeps_pure _
  | some id =>
      refine keeps_bind (keeps_cache_onStorage _) fun seen => ?_
      cases seen with
      | servable _ => exact keeps_pure _
      | unseen => exact keeps_pure _
      | retired =>
          exact keeps_bind (keeps_cache_update fun _ => ⟨rfl, rfl⟩) fun _ => keeps_pure _

end Queue

/-- A way to fetch by passes: a pass that finds entries finds one at least, one that finds none finds
none again, and none touches the cache. -/
structure Fetching (pass : TurnM Pass) (fetch : TurnM Unit) : Prop where
  repeats : Repeats pass fetch
  keeps : Turn.cacheKept.Keeps pass
  again : ∀ {t u}, pass t = .ok .exhausted u → Turn.Again pass .exhausted u
  nonempty : ∀ {t u entries}, pass t = .ok (.found entries) u → entries ≠ []

namespace Fetching

variable {pass : TurnM Pass} {fetch : TurnM Unit} {t u : Turn}

theorem cache_of_failed (h : Fetching pass fetch) {e : QueueError} (failed : fetch t = .error e u) :
    Turn.cacheKept.rel t u := by
  induction t using h.repeats.induct with
  | passed t t' done ih =>
      have begun := h.keeps t
      rw [done] at begun
      rw [h.repeats.passed done] at failed
      exact Turn.cacheKept.trans begun (ih failed)
  | found t t' entries done =>
      rw [h.repeats.found done] at failed
      cases failed
  | exhausted t t' done =>
      rw [h.repeats.exhausted done] at failed
      cases failed
  | failed t t' e' done =>
      have begun := h.keeps t
      rw [done] at begun
      rw [h.repeats.failed done] at failed
      cases failed
      exact begun

theorem loaded_of_done (h : Fetching pass fetch) (done : fetch t = .ok () u) :
    u.cursor.loaded = t.cursor.loaded := by
  induction t using h.repeats.induct with
  | passed t t' passed ih =>
      have begun := h.keeps t
      rw [passed] at begun
      rw [h.repeats.passed passed] at done
      exact (ih done).trans begun.2
  | found t t' entries found =>
      have begun := h.keeps t
      rw [found] at begun
      rw [h.repeats.found found] at done
      cases done
      exact begun.2
  | exhausted t t' exhausted =>
      have begun := h.keeps t
      rw [exhausted] at begun
      rw [h.repeats.exhausted exhausted] at done
      cases done
      exact begun.2
  | failed t t' e failed =>
      rw [h.repeats.failed failed] at done
      cases done

theorem fetch_again (h : Fetching pass fetch) (done : fetch t = .ok () u)
    (empty : u.cursor.cache.entries = []) : Turn.Again fetch () u := by
  induction t using h.repeats.induct with
  | passed t t' passed ih =>
      rw [h.repeats.passed passed] at done
      exact ih done
  | found t t' entries found =>
      rw [h.repeats.found found] at done
      cases done
      exact absurd empty (h.nonempty found)
  | exhausted t t' exhausted =>
      rw [h.repeats.exhausted exhausted] at done
      cases done
      obtain ⟨u', once, same⟩ := (h.again exhausted).symm.of_ok
      rw [Turn.Again, h.repeats.exhausted once]
      exact .ok same.symm
  | failed t t' e failed =>
      rw [h.repeats.failed failed] at done
      cases done

end Fetching

namespace Queue

variable (q : Queue) (c : Consumer) (config : Config) (s : Snapshot)

theorem fetching_fetchDisjoint :
    Fetching (q.disjointPass c config s) (q.fetchDisjoint c config s) where
  repeats := q.repeats_fetchDisjoint c config s
  keeps := q.keeps_cache_disjointPass c config s
  again := q.disjointPass_again c config s
  nonempty {t u entries} found := by
    cases (q.ends_disjointPass c config s t).of_ok found with
    | window _ _ scans =>
        cases scans with
        | found some _ _ _ => exact some

theorem fetching_fetchShared : Fetching (q.sharedPass c s) (q.fetchShared c s) where
  repeats := q.repeats_fetchShared c s
  keeps := q.keeps_cache_sharedPass c s
  again := q.sharedPass_again c s
  nonempty {t u entries} found := by
    rw [sharedPass_eq] at found
    obtain ⟨claim, t₁, _, taken⟩ := ok_of_bind found
    cases (q.ends_takeUp s claim t₁).of_ok taken with
    | found _ _ => exact List.cons_ne_nil _ _

theorem exists_fetching : ∃ pass, Fetching pass (q.fetch c config s) := by
  unfold fetch
  cases config.partitioner with
  | hash => exact ⟨_, q.fetching_fetchDisjoint c config s⟩
  | roundRobin => exact ⟨_, q.fetching_fetchShared c s⟩

section Refill

variable {q c config s} {t u : Turn}

theorem refill_of_hasNext (some : t.cursor.cache.hasNext = true) :
    q.refill c config s t = .ok () t := by
  change (if t.cursor.cache.hasNext = true then _ else q.fetch c config s) t = _
  rw [if_pos some]
  rfl

theorem refill_of_not_hasNext (none : t.cursor.cache.hasNext = false) :
    q.refill c config s t = q.fetch c config s t := by
  change (if t.cursor.cache.hasNext = true then _ else q.fetch c config s) t = _
  rw [if_neg (by simp [none])]

variable (q c config s)

theorem resumable_refill : Resumable (q.refill c config s) where
  toMirrored := q.mirrored_refill c config s
  resumes {t t' e} failed := by
    obtain ⟨pass, fetching⟩ := q.exists_fetching c config s
    cases left : t.cursor.cache.hasNext with
    | true =>
        rw [refill_of_hasNext left] at failed
        cases failed
    | false =>
        rw [refill_of_not_hasNext left] at failed
        have still : t'.cursor.cache.hasNext = false := by
          rw [(fetching.cache_of_failed failed).1, left]
        rw [refill_of_not_hasNext (t := t.repair) left, refill_of_not_hasNext (t := t'.repair) still]
        exact (q.resumable_fetch c config s).resumes failed

variable {q c config s}

theorem loaded_of_refill (ended : q.refill c config s t = .ok () u ∨
    ∃ e, q.refill c config s t = .error e u) : u.cursor.loaded = t.cursor.loaded := by
  obtain ⟨pass, fetching⟩ := q.exists_fetching c config s
  cases left : t.cursor.cache.hasNext with
  | true =>
      rw [refill_of_hasNext left] at ended
      rcases ended with done | ⟨e, failed⟩
      · cases done
        rfl
      · cases failed
  | false =>
      rw [refill_of_not_hasNext left] at ended
      rcases ended with done | ⟨e, failed⟩
      · exact fetching.loaded_of_done done
      · exact (fetching.cache_of_failed failed).2

theorem refill_again (done : q.refill c config s t = .ok () u)
    (empty : u.cursor.cache.entries = []) : Turn.Again (q.refill c config s) () u := by
  obtain ⟨pass, fetching⟩ := q.exists_fetching c config s
  have none : u.cursor.cache.hasNext = false := by simp [Cache.hasNext, empty]
  have left : t.cursor.cache.hasNext = false := by
    cases left : t.cursor.cache.hasNext with
    | true =>
        rw [refill_of_hasNext left] at done
        cases done
        exact absurd (left.symm.trans none) (by simp)
    | false => rfl
  rw [refill_of_not_hasNext left] at done
  rw [Turn.Again, refill_of_not_hasNext (t := u.repair) none]
  exact fetching.fetch_again done empty

end Refill

section Storing

theorem not_isStoring_internal {purpose : Purpose} (other : purpose ≠ .writeConsumer)
    (source : TableError) : ¬ (QueueError.internal purpose.text source).IsStoring := by
  rintro ⟨_, same⟩
  have same : purpose.text = Purpose.writeConsumer.text := by
    injection same
  revert other same
  cases purpose <;> decide

theorem storesNothing_count {purpose : Purpose} (other : purpose ≠ .writeConsumer) (key : RowKey)
    {delta : Int64} (forward : 0 ≤ delta.toInt) :
    storesNothing.Of (Turn.onStorage (q.count purpose key delta)) := by
  intro t e t' failed
  rcases ((Turn.ends_onStorage (q.ends_count purpose key forward)).of_error failed).1.1 with
    ⟨source, rfl⟩ | ⟨what, rfl⟩
  · exact not_isStoring_internal other source
  · rintro ⟨_, same⟩
    cases same

theorem admits_storesNothing : storesNothing.Admits q s where
  cursorNow _ _ _ failed := by cases failed
  update _ _ _ _ failed := by cases failed
  view purpose looks t e t' failed := by
    obtain ⟨source, rfl⟩ := ((Turn.ends_onStorage (q.ends_view purpose s)).of_error failed).1.1
    exact not_isStoring_internal (by rintro rfl; cases looks) source
  peek purpose key looks :=
    q.storesNothing_count (by rintro rfl; cases looks) key (Int.le_refl 0)
  corrupted _ _ := by
    rintro ⟨_, same⟩
    cases same
  repeats {pass fetch} repeats h t := by
    induction t using repeats.induct with
    | passed t u done ih =>
        rw [repeats.passed done]
        exact ih
    | found t u entries done =>
        rw [repeats.found done]
        intro e t' failed
        cases failed
    | exhausted t u done =>
        rw [repeats.exhausted done]
        intro e t' failed
        cases failed
    | failed t u e done =>
        rw [repeats.failed done]
        intro e' t' failed
        cases failed
        exact h t _ _ done

end Storing

section HandOut

variable {q c config s} {t t' : Turn} {e : QueueError}

/-- The cells that are written when there is nothing to hand out. -/
def restingCells (k : Cursor) : List (Column × Bytes) :=
  (.readPointer, Bytes.ofUInt64 k.readPointer) ::
    match k.pending with
    | none => []
    | some id => [(.active, Bytes.ofUInt64 id), (.claim id, ClaimState.claimed.encode)]

/-- The cells that are written when an entry is handed out. -/
def handingCells (config : Config) (k : Cursor) (entry : CachedEntry) : List (Column × Bytes) :=
  (.readPointer, Bytes.ofUInt64 (k.advance entry.id).readPointer) ::
    (.active, Bytes.ofUInt64 entry.id) ::
      if config.partitioner.isDisjoint then [] else [(.claim entry.id, ClaimState.claimed.encode)]

theorem restingCells_in_row (k : Cursor) : ∀ cell ∈ restingCells k, cell.1.InConsumerRow := by
  unfold restingCells
  split <;> simp [Column.InConsumerRow]

theorem restingCells_nodup (k : Cursor) : ((restingCells k).map (·.1)).Nodup := by
  unfold restingCells
  split <;> simp

theorem pending_of_mem_restingCells {k : Cursor} {x : Bytes} (mem : (.active, x) ∈ restingCells k) :
    ∃ id, k.pending = some id ∧ x = Bytes.ofUInt64 id := by
  unfold restingCells at mem
  split at mem
  · simp at mem
  · rename_i id held
    exact ⟨id, held, by simpa using mem⟩

theorem handingCells_in_row (config : Config) (k : Cursor) (entry : CachedEntry) :
    ∀ cell ∈ handingCells config k entry, cell.1.InConsumerRow := by
  unfold handingCells
  split <;> simp [Column.InConsumerRow]

theorem handingCells_nodup (config : Config) (k : Cursor) (entry : CachedEntry) :
    ((handingCells config k entry).map (·.1)).Nodup := by
  unfold handingCells
  split <;> simp

theorem mem_handingCells_active {k : Cursor} {entry : CachedEntry} {x : Bytes} :
    (.active, x) ∈ handingCells config k entry ↔ x = Bytes.ofUInt64 entry.id := by
  unfold handingCells
  split <;> simp

theorem ends_handOut_nothing (empty : t.cursor.cache.entries = []) :
    Ends (q.handOut c config s) t
      (fun d u => d = .empty ∧ u.cursor = t.cursor ∧
        u.storage.table = t.storage.table.recordAll (q.seat c).row
          ((restingCells t.cursor).map fun cell => (cell.1.encode, cell.2)) s.writeVersion)
      fun _ u => t.Alike u := by
  unfold handOut
  apply Turn.ends_cursorNow
  simp only [Cache.next?, empty]
  refine (Turn.ends_cursorNow ((Turn.ends_onStorage (q.ends_put _ _ _ _)).imp
    (fun _ _ done => ⟨done.2.symm, done.1.1⟩) fun _ _ failed => ⟨failed.1.2.1, failed.2.symm⟩) :
    Ends (q.saveEmpty c s) t (fun _ u => u.cursor = t.cursor ∧
      u.storage.table = t.storage.table.recordAll (q.seat c).row
        ((restingCells t.cursor).map fun cell => (cell.1.encode, cell.2)) s.writeVersion) _).bind
    fun _ _ done => ?_
  exact Ends.pure ⟨rfl, done⟩

/-- What becomes of a cursor when an entry is taken from its cache and handed out. -/
def handedOut (k : Cursor) (entry : CachedEntry) (rest : List CachedEntry) : Cursor :=
  { k.advance entry.id with
    active := some entry.id
    pending := if k.pending = some entry.id then none else k.pending
    cache := ⟨rest⟩ }

theorem ends_handOut_next {entry : CachedEntry} {rest : List CachedEntry}
    (next : t.cursor.cache.entries = entry :: rest) :
    Ends (q.handOut c config s) t
      (fun d u => d = .served ⟨q.name, entry.id⟩ ⟨entry.payload, {}⟩ ∧
        u.cursor = handedOut t.cursor entry rest ∧
        u.storage.table = t.storage.table.recordAll (q.seat c).row
          ((handingCells config t.cursor entry).map fun cell => (cell.1.encode, cell.2))
          s.writeVersion)
      fun e u => e.IsStoring ∧ u.cursor = handedOut t.cursor entry rest ∧
        t.storage.table.Alike u.storage.table := by
  unfold handOut
  apply Turn.ends_cursorNow
  simp only [Cache.next?, next]
  apply Turn.ends_update
  unfold serve
  apply Turn.ends_update
  apply Turn.ends_cursorNow
  refine ((Turn.ends_onStorage (q.ends_put .writeConsumer (consumerRow c)
    (handingCells config t.cursor entry) s.writeVersion)).imp
    (fun _ _ done => ⟨done.2.symm, done.1.1⟩)
    fun _ _ failed => ⟨failed.1.1, failed.2.symm, failed.1.2.1⟩ :
    Ends _ _ (fun _ u => u.cursor = handedOut t.cursor entry rest ∧
      u.storage.table = t.storage.table.recordAll (q.seat c).row
        ((handingCells config t.cursor entry).map fun cell => (cell.1.encode, cell.2))
        s.writeVersion) _).bind fun _ u done => ?_
  exact Ends.pure ⟨rfl, done⟩

theorem handOut_next_iff {entry : CachedEntry} {rest : List CachedEntry}
    (next : t.cursor.cache.entries = entry :: rest) :
    (∃ u, q.handOut c config s t = .ok (.served ⟨q.name, entry.id⟩ ⟨entry.payload, {}⟩) u) ↔
      t.storage.plan .put t.storage.calls.puts = false := by
  have stores : q.handOut c config s t = (Turn.onStorage (q.put .writeConsumer (consumerRow c)
      (handingCells config t.cursor entry) s.writeVersion) >>= fun _ =>
        pure (.served ⟨q.name, entry.id⟩ ⟨entry.payload, {}⟩))
      ⟨t.storage, handedOut t.cursor entry rest⟩ := by
    unfold handOut
    refine (bind_eq_of_ok (show Turn.cursorNow t = .ok t.cursor t from rfl)).trans ?_
    simp only [Cache.next?, next]
    rfl
  rw [stores]
  constructor
  · rintro ⟨u, done⟩
    obtain ⟨_, v, stored, _⟩ := ok_of_bind done
    have written := (Turn.of_onStorage stored).1
    simp only [put, Storage.put, Storage.call] at written
    split at written
    · cases written
    · rename_i spared
      exact Bool.not_eq_true _ ▸ spared
  · intro spared
    obtain ⟨_, v, stored, _⟩ := Turn.answers_onStorage (t := ⟨t.storage, handedOut t.cursor entry rest⟩)
      (q.answers_put_of_spared .writeConsumer (consumerRow c) (handingCells config t.cursor entry)
        s.writeVersion spared)
    exact ⟨v, bind_eq_of_ok stored⟩

theorem exists_handOut_next {entry : CachedEntry} {rest : List CachedEntry} (calm : t.Calm)
    (next : t.cursor.cache.entries = entry :: rest) :
    ∃ u, q.handOut c config s t = .ok (.served ⟨q.name, entry.id⟩ ⟨entry.payload, {}⟩) u :=
  (handOut_next_iff next).2 (congrFun (congrFun calm .put) _)

theorem exists_handOut_nothing (calm : t.Calm) (empty : t.cursor.cache.entries = []) :
    ∃ u, q.handOut c config s t = .ok .empty u := by
  obtain ⟨_, u, stored, _⟩ := Turn.answers_onStorage (t := t)
    (q.answers_put_of_calm .writeConsumer (consumerRow c) (restingCells t.cursor) s.writeVersion calm)
  refine ⟨u, (bind_eq_of_ok (show Turn.cursorNow t = .ok t.cursor t from rfl)).trans ?_⟩
  simp only [Cache.next?, empty]
  exact bind_eq_of_ok (show q.saveEmpty c s t = .ok () u from stored)

end HandOut

section Request

variable {q c config s} {t t' u : Turn} {e : QueueError}

theorem dequeue_of_refused
    (refused : ¬ (config.validate = .ok () ∧ c.validate config.partitioner = .ok ())) :
    ∃ e, ∀ t, q.dequeue c config s t = .error e t := by
  cases valid : config.validate with
  | error e =>
      refine ⟨e, fun t => ?_⟩
      unfold dequeue
      rw [valid]
      rfl
  | ok _ =>
      cases member : c.validate config.partitioner with
      | error e =>
          refine ⟨e, fun t => ?_⟩
          unfold dequeue
          rw [valid, member]
          rfl
      | ok _ => exact absurd ⟨valid, member⟩ refused

theorem accepted_of_dequeue {d : Delivery} (done : q.dequeue c config s t = .ok d t') :
    config.validate = .ok () ∧ c.validate config.partitioner = .ok () :=
  Classical.byContradiction fun refused => by
    obtain ⟨e, failed⟩ := dequeue_of_refused refused
    cases (failed t).symm.trans done

/-- What a request does once its checks passed and its cursor is loaded. -/
def proceed (q : Queue) (c : Consumer) (config : Config) (s : Snapshot) : TurnM Delivery := do
  q.refill c config s
  q.handOut c config s

theorem dequeue_of_loaded (valid : config.validate = .ok ())
    (member : c.validate config.partitioner = .ok ()) (loaded : t.cursor.loaded = true) :
    q.dequeue c config s t = q.proceed c config s t := by
  rw [dequeue_of_valid valid member, bind_eq_of_ok (q.ensureLoaded_of_loaded c config s loaded)]
  rfl

theorem dequeue_of_unloaded (valid : config.validate = .ok ())
    (member : c.validate config.partitioner = .ok ()) (unloaded : t.cursor.loaded = false) :
    q.dequeue c config s t = (q.load c config s >>= fun _ => q.proceed c config s) t := by
  rw [dequeue_of_valid valid member]
  change EStateM.bind (q.ensureLoaded c config s) _ t = EStateM.bind (q.load c config s) _ t
  unfold EStateM.bind
  rw [q.ensureLoaded_of_unloaded c config s unloaded]
  rfl

theorem mirrored_proceed : Mirrored (q.proceed c config s) :=
  (q.mirrored_refill c config s).bind fun _ => q.mirrored_handOut c config s

theorem proceed_failed_cases (failed : q.proceed c config s t = .error e t') :
    q.refill c config s t = .error e t' ∨
      ∃ u, q.refill c config s t = .ok () u ∧ q.handOut c config s u = .error e t' :=
  (error_of_bind failed).imp_right fun ⟨_, u, done, later⟩ => ⟨u, done, later⟩

theorem storesNothing_refill : storesNothing.Of (q.refill c config s) :=
  (q.admits_storesNothing s).refill c config (q.storesNothing_count (by decide) _ (by decide))

theorem proceed_of_failed_refill (failed : q.refill c config s t = .error e t') :
    Turn.Agree (q.proceed c config s t.repair) (q.proceed c config s t'.repair) :=
  (q.mirrored_refill c config s).agree_bind (fun _ => q.mirrored_handOut c config s) rfl rfl
    ((q.resumable_refill c config s).resumes failed)

theorem proceed_of_found_nothing (done : q.refill c config s t = .ok () u)
    (empty : u.cursor.cache.entries = []) (failed : q.handOut c config s u = .error e t') :
    Turn.Agree (q.proceed c config s t.repair) (q.proceed c config s t'.repair) ∧
      ∀ p x w, q.proceed c config s t.repair ≠ .ok (.served p x) w := by
  have mirrored := q.mirrored_refill c config s
  have next := fun _ : Unit => q.mirrored_handOut c config s
  have same : u.Alike t' := (ends_handOut_nothing empty).of_error failed
  have same : u.repair.Alike t'.repair := same
  have here := mirrored.agree_rest next t.calm_repair u.calm_repair (mirrored.repaired done)
  have there := mirrored.agree_rest next u.calm_repair u.calm_repair (refill_again done empty)
  have moved := (@mirrored_proceed q c config s).agree same t'.calm_repair (.inr u.calm_repair)
  refine ⟨here.trans (there.symm.trans moved), fun p x w served => ?_⟩
  have nothing := (@ends_handOut_nothing q c config s u.repair empty)
  have here : Turn.Agree (q.proceed c config s t.repair) _ := here
  rw [served] at here
  obtain ⟨w', handed, -⟩ := here.of_ok
  cases (nothing.of_ok handed).1

theorem keeps_ensureLoaded : (Turn.touched (· = (q.seat c).row) s.writeVersion).Keeps
    (q.ensureLoaded c config s) :=
  (q.admits_touching s _ _).ensureLoaded c config fun purpose cells _ =>
    StateBound.keeps_onTurns (q.keeps_put (by rfl) purpose cells)

theorem touched_refill (t : Turn) :
    (Turn.touched (· = (q.seat c).groupRow) 0).rel t (stateAfter (q.refill c config s t)) := by
  have claims : (Storage.touched (· = (q.seat c).groupRow) 0).Keeps (q.claimId c.group) :=
    q.keeps_count (by rfl) _
  have kept : (Turn.touched (· = (q.seat c).groupRow) 0).Keeps (q.refill c config s) :=
    (q.admits_touching s _ _).refill c config (StateBound.keeps_onTurns claims)
  exact kept t

theorem history_of_refill (done : q.refill c config s t = .ok () u) (column : Bytes) :
    u.storage.table.history (q.seat c).row column = t.storage.table.history (q.seat c).row column := by
  have touched := @touched_refill q c config s t
  rw [done] at touched
  refine touched.1.history _ (fun same => ?_) column
  cases RowKey.encode_injective same

theorem proceed_of_found {entry : CachedEntry} {rest : List CachedEntry}
    (done : q.refill c config s t = .ok () u) (next : u.cursor.cache.entries = entry :: rest)
    (failed : q.handOut c config s u = .error e t') :
    e.IsStoring ∧ ∃ w, q.proceed c config s t.repair =
        .ok (.served ⟨q.name, entry.id⟩ ⟨entry.payload, {}⟩) w ∧
      t'.cursor = w.cursor ∧
      (∀ column, t'.storage.table.history (q.seat c).row column =
        t.storage.table.history (q.seat c).row column) ∧
      t'.storage.table.Touched (· = (q.seat c).row) s.writeVersion w.storage.table := by
  have mirrored := q.mirrored_refill c config s
  obtain ⟨storing, left, kept⟩ := (ends_handOut_next next).of_error failed
  obtain ⟨u', again, same⟩ := (mirrored.repaired done).symm.of_ok
  have calm : u'.Calm := by
    have calm := mirrored.calm t.calm_repair
    rwa [again] at calm
  have next' : u'.cursor.cache.entries = entry :: rest := by
    rw [same.2]
    exact next
  obtain ⟨w, served⟩ := @exists_handOut_next q c config s u' entry rest calm next'
  obtain ⟨-, moved, table⟩ := (ends_handOut_next next').of_ok served
  have touched : u'.storage.table.Touched (· = (q.seat c).row) s.writeVersion w.storage.table :=
    .of_recordAll table
  refine ⟨storing, w, ?_, ?_, fun column => ?_, ?_⟩
  · unfold proceed
    rw [bind_eq_of_ok again, served]
  · rw [left, moved, same.2]
    rfl
  · rw [kept.history]
    exact history_of_refill done column
  · exact ((kept.symm.trans same.1).touched _ _).trans touched

theorem loaded_of_failed_proceed (failed : q.proceed c config s t = .error e t') :
    t'.cursor.loaded = t.cursor.loaded := by
  rcases proceed_failed_cases failed with refill | ⟨u, done, failed⟩
  · exact loaded_of_refill (.inr ⟨e, refill⟩)
  · have loaded := loaded_of_refill (.inl done)
    cases cached : u.cursor.cache.entries with
    | nil => rw [((ends_handOut_nothing cached).of_error failed).2, loaded]
    | cons entry rest =>
        rw [((ends_handOut_next cached).of_error failed).2.1]
        exact loaded

/-- Asking again goes on where a request failed, unless it failed to store an entry that it had
found. -/
theorem proceed_resumes (failed : q.proceed c config s t = .error e t') :
    ((e.IsStoring → ∀ p x w, q.proceed c config s t.repair ≠ .ok (.served p x) w) →
      Turn.Agree (q.proceed c config s t.repair) (q.proceed c config s t'.repair)) ∧
    ∀ p x w, e.IsStoring → q.proceed c config s t.repair = .ok (.served p x) w →
      t'.cursor = w.cursor ∧
      (∀ column, t'.storage.table.history (q.seat c).row column =
        t.storage.table.history (q.seat c).row column) ∧
      t'.storage.table.Touched (· = (q.seat c).row) s.writeVersion w.storage.table := by
  rcases proceed_failed_cases failed with refill | ⟨u, done, failed⟩
  · refine ⟨fun _ => proceed_of_failed_refill refill, fun p x w storing => ?_⟩
    exact absurd storing (storesNothing_refill t e t' refill)
  · cases cached : u.cursor.cache.entries with
    | nil =>
        obtain ⟨agree, none⟩ := proceed_of_found_nothing done cached failed
        exact ⟨fun _ => agree, fun p x w _ served => absurd served (none p x w)⟩
    | cons entry rest =>
        obtain ⟨storing, w, served, found⟩ := proceed_of_found done cached failed
        refine ⟨fun none => absurd served (none storing _ _ _), fun p x w' _ served' => ?_⟩
        cases served.symm.trans served'
        exact found

/-- With a loaded cursor, a request that failed is answered, when it is made again on storage that
works, as it would have been there at first, unless it failed to store an entry that it had found.
Then the cursor is left as if the entry had been handed out, and the stored row as it was. -/
theorem retry_resumes_unless_storing (loaded : t.cursor.loaded = true)
    (failed : q.dequeue c config s t = .error e t') :
    ((e.IsStoring → ∀ p x w, q.dequeue c config s t.repair ≠ .ok (.served p x) w) →
      Turn.Agree (q.dequeue c config s t.repair) (q.dequeue c config s t'.repair)) ∧
    ∀ p x w, e.IsStoring → q.dequeue c config s t.repair = .ok (.served p x) w →
      t'.cursor = w.cursor ∧
      (∀ column, t'.storage.table.history (q.seat c).row column =
        t.storage.table.history (q.seat c).row column) ∧
      t'.storage.table.Touched (· = (q.seat c).row) s.writeVersion w.storage.table := by
  by_cases checked : config.validate = .ok () ∧ c.validate config.partitioner = .ok ()
  · have here : q.dequeue c config s t = q.proceed c config s t :=
      dequeue_of_loaded checked.1 checked.2 loaded
    have repaired : q.dequeue c config s t.repair = q.proceed c config s t.repair :=
      dequeue_of_loaded checked.1 checked.2 loaded
    rw [here] at failed
    have still : t'.repair.cursor.loaded = true := (loaded_of_failed_proceed failed).trans loaded
    rw [repaired, dequeue_of_loaded checked.1 checked.2 still]
    exact proceed_resumes failed
  · obtain ⟨e', refused⟩ := @dequeue_of_refused q c config s checked
    rw [refused] at failed
    cases failed
    rw [refused]
    refine ⟨fun _ => .error (.refl _), fun p x w _ served => ?_⟩
    cases served

/-- A member of a shared group finds nothing, an entry is appended, and storing it as handed out fails.
Asked again with the same cursor, the queue has nothing to hand out. -/
theorem retry_after_failed_store :
    let queue : Queue := ⟨"q", ⟨.roundRobin, 20⟩⟩
    let worker : Consumer := { group := 1, member := 0, groupSize := 1 }
    let ask := queue.dequeue worker ⟨.roundRobin, 20⟩ (.upTo 10)
    let asked := stateAfter (ask ⟨{}, .fresh⟩)
    let st := stateAfter (queue.enqueue ⟨[97], {}⟩ 1 asked.storage)
    let t : Turn := ⟨st.failAfter .put 0, asked.cursor⟩
    ∃ e t' x w w', ask t = .error e t' ∧ ask t.repair = .ok (.served ⟨"q", 1⟩ x) w ∧
      t'.cursor = w.cursor ∧ ask t'.repair = .ok .empty w' := by
  intro queue worker ask asked st t
  have unanswered : (answer? (ask t)).isNone = true := by with_unfolding_all decide
  obtain ⟨e, fails⟩ := error_of_answer? unanswered
  have serves : (answer? (ask t.repair)).bind (·.pointer?) = some ⟨"q", 1⟩ := by
    with_unfolding_all decide
  have nothing : (answer? (ask (stateAfter (ask t)).repair)).map (·.isEmpty) = some true := by
    with_unfolding_all decide
  obtain ⟨d, served, pointer⟩ := Option.bind_eq_some_iff.1 serves
  obtain ⟨d', answered, empty⟩ := Option.map_eq_some_iff.1 nothing
  cases d' with
  | served p x => cases empty
  | empty =>
      cases d with
      | empty => cases pointer
      | served p x =>
          cases pointer
          have served := ok_of_answer? served
          have answered := ok_of_answer? answered
          obtain ⟨resumes, drops⟩ := retry_resumes_unless_storing (by with_unfolding_all decide) fails
          have storing : e.IsStoring := by
            refine Classical.byContradiction fun other => ?_
            have agree := resumes fun storing => absurd storing other
            have served : queue.dequeue worker ⟨.roundRobin, 20⟩ (.upTo 10) t.repair = _ := served
            rw [served] at agree
            obtain ⟨_, again, -⟩ := agree.of_ok
            cases again.symm.trans answered
          exact ⟨e, _, x, _, _, fails, served, (drops _ _ _ storing served).1, answered⟩

end Request

end Queue

end VersionedQueue
