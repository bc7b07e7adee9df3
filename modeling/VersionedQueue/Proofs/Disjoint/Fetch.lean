import VersionedQueue.Proofs.Disjoint.Sweep

/-!
# Fetching in a disjoint group

What a view offers a member of a disjoint group is what was appended and falls to the member, and what it
skips the member need not come back to.  So a fetch never fails, and the cursor moves only over ids that
the member passes.  When nothing is found, either the counter of entries is reached or the next id is
one of which the snapshot shows nothing.
-/

set_option autoImplicit false
set_option relaxedAutoImplicit false

namespace VersionedQueue

/-- The cursor has moved from one id up to another over ids that the member passes. -/
structure Moved (queue : String) (share : Share) (past : List Event) (known : Version → Prop)
    (before after : EntryId) : Prop where
  forward : before ≤ after
  passed : ∀ id, before < id → id ≤ after → share.Passes past ⟨queue, id⟩ known

theorem Moved.refl (queue : String) (share : Share) (past : List Event) (known : Version → Prop)
    (id : EntryId) : Moved queue share past known id id where
  forward := UInt64.le_refl _
  passed _ after below := absurd (UInt64.lt_of_lt_of_le after below) (UInt64.lt_irrefl _)

theorem Moved.mono {queue : String} {share : Share} {past : List Event} {known wider : Version → Prop}
    {a b : EntryId} (h : Moved queue share past known a b) (more : ∀ v, known v → wider v) :
    Moved queue share past wider a b where
  forward := h.forward
  passed id after below := (h.passed id after below).mono (List.suffix_refl past) more

/-- How fetching ends for a member of a disjoint group: what it found, and where it left the read
pointer. -/
inductive FetchEnds (queue : String) (share : Share) (past : List Event) (s : Snapshot)
    (writePointer before : EntryId) : List CachedEntry → EntryId → Prop
  | found {after : EntryId} {entries : List CachedEntry} :
      Moved queue share past (s.sees ·) before after → entries ≠ [] →
      Found queue share past (s.sees ·) after entries →
      FetchEnds queue share past s writePointer before entries after
  | blocked {after : EntryId} : Moved queue share past (s.sees ·) before after →
      (∀ next, next.toNat = after.toNat + 1 → ¬ ShownAt past ⟨queue, next⟩ (s.sees ·)) →
      FetchEnds queue share past s writePointer before [] after
  | caughtUp {after : EntryId} : Moved queue share past (s.sees ·) before after →
      writePointer ≤ after → FetchEnds queue share past s writePointer before [] after

namespace Stored

variable {q : Queue} {c : Consumer} {past : List Event} {t : Table} (h : Stored q.name past t)
  {s : Snapshot} {limit writePointer before after : EntryId} {entries : List CachedEntry}

include h

theorem readable (s : Snapshot) : q.Readable (q.shows t s) where
  sight id := by
    rcases h.sight_cases s id with ⟨sight, _⟩ | ⟨sight, _⟩ | ⟨_, _, sight, _⟩ <;> exact ⟨_, sight⟩
  hash key id := by
    obtain ⟨hash, read, _⟩ := h.headerHash_spec s id key
    exact ⟨hash, read⟩

private theorem takes_iff_fallsTo {id : EntryId} {entry : Entry} {v : Version} (seen : s.sees v)
    (appended : Enqueued past ⟨q.name, id⟩ entry v) :
    c.share.Takes entry ↔ q.FallsTo (q.shows t s) c id := by
  obtain ⟨found, read, hashes⟩ := h.headerHash_spec s id c.headerKey
  constructor
  · rintro ⟨hash, carried, maps⟩
    exact ⟨hash, (hashes hash).2 ⟨entry, v, seen, appended, carried⟩ ▸ read, maps⟩
  · rintro ⟨hash, read', maps⟩
    obtain ⟨entry', v', _, appended', carried⟩ :=
      (hashes hash).1 (Except.ok.inj (read.symm.trans read'))
    obtain ⟨rfl, -⟩ := h.once _ _ _ _ _ appended appended'
    exact ⟨hash, carried, maps⟩

private theorem appended_of_offers {entry : CachedEntry} (offer : q.Offers (q.shows t s) c entry) :
    ∃ entry' v, s.sees v ∧ Enqueued past ⟨q.name, entry.id⟩ entry' v ∧ c.share.Takes entry' ∧
      entry.payload = entry'.payload := by
  have shown := offer.servable
  rcases h.sight_cases s entry.id with ⟨sight, _⟩ | ⟨sight, _⟩ | ⟨entry', v, sight, seen, appended⟩
  · cases sight.symm.trans shown
  · cases sight.symm.trans shown
  · refine ⟨entry', v, seen, appended, (h.takes_iff_fallsTo seen appended).2 offer.own, ?_⟩
    exact Sighting.servable.inj (Except.ok.inj (shown.symm.trans sight))

private theorem passes_of_skips {id : EntryId} (skips : q.Skips (q.shows t s) c id) :
    c.share.Passes past ⟨q.name, id⟩ (s.sees ·) := by
  rcases h.sight_cases s id with ⟨_, hidden⟩ | ⟨_, retired⟩ | ⟨entry, v, sight, seen, appended⟩
  · exact absurd ((h.state_none_iff s id).2 hidden) skips.visible
  · exact .inl retired
  · refine .inr ⟨entry, v, seen, appended, fun takes => skips.nothing entry.payload ⟨sight, ?_⟩⟩
    exact (h.takes_iff_fallsTo seen appended).1 takes

private theorem moved_of_swept (swept : q.Swept (q.shows t s) c before after) :
    Moved q.name c.share past (s.sees ·) before after :=
  ⟨swept.forward, fun id later below => h.passes_of_skips (swept.skipped id later below)⟩

private theorem found_of_collected
    (collected : q.Collected (q.shows t s) c limit before entries) :
    Found q.name c.share past (s.sees ·) before entries where
  ascending := collected.ascending
  after found mem := (collected.within found mem).1
  appended found mem := h.appended_of_offers (collected.offered found mem)
  between found mem id later below :=
    (collected.between found mem id later below).imp_right h.passes_of_skips

private theorem fetchEnds_of_sweeps
    (sweeps : q.FetchSweeps (q.shows t s) c limit writePointer before entries after) :
    FetchEnds q.name c.share past s writePointer before entries after := by
  cases sweeps with
  | found swept some collected =>
      exact .found (h.moved_of_swept swept) some (h.found_of_collected collected)
  | @blocked _ id swept number _ hidden =>
      refine .blocked (h.moved_of_swept swept) fun next number' => ?_
      obtain rfl : next = id := UInt64.toNat_inj.1 (number'.trans number.symm)
      exact (h.state_none_iff s next).1 hidden
  | caughtUp swept reached _ => exact .caughtUp (h.moved_of_swept swept) reached

end Stored

/-- Fetching in a disjoint group answers. -/
theorem Queue.answers_fetchDisjoint (q : Queue) (c : Consumer) (config : Config) (s : Snapshot)
    {past : List Event} (hash : config.partitioner = .hash) {writePointer : EntryId}
    (t : Turn) (reliable : t.storage.Reliable) (stored : Stored q.name past t.storage.table)
    (stands : (writePointer.toNat : Int) =
      t.storage.table.standing (RowKey.entryCounter.encode q.name))
    (empty : t.cursor.cache = {}) :
    Answers (q.fetchDisjoint c config s) t fun _ t' => t.storage.Alike t'.storage ∧
      ∃ entries after w,
        t'.cursor = { t.cursor with readPointer := after, writePointer := w, cache := ⟨entries⟩ } ∧
          FetchEnds q.name c.share past s writePointer t.cursor.readPointer entries after := by
  have greatest (id : EntryId) : id ≤ (0xffffffffffffffff : UInt64) :=
    UInt64.le_iff_toNat_le.2 (Nat.le_of_lt_succ id.toNat_lt)
  refine (q.answers_fetchDisjoint_of_readable c config s hash (greatest _) t reliable
    (stored.readable s) stands (greatest _) empty).imp ?_
  rintro _ t' ⟨same, entries, after, w, moved, sweeps⟩
  exact ⟨same, entries, after, w, moved, stored.fetchEnds_of_sweeps sweeps⟩

end VersionedQueue
