import VersionedQueue.Proofs.Delivery.Sources
import VersionedQueue.Proofs.Run.Orderly

/-!
# What is handed out was appended

A cursor holds entries that were read under a snapshot which showed them, so each was appended with the
payload that it has in the cache.  However a request ends, this is so of the cursor that it leaves.  An
entry that is handed out becomes the active one of the consumer's row, and in a shared group its claim
is open.
-/

set_option autoImplicit false
set_option relaxedAutoImplicit false

namespace VersionedQueue

/-- An entry of a cache was appended, at a version that is known, with the payload that it has there. -/
def CachedEntry.Genuine (past : List Event) (queue : String) (known : Version → Prop)
    (entry : CachedEntry) : Prop :=
  ∃ appended v, known v ∧ Enqueued past ⟨queue, entry.id⟩ appended v ∧
    entry.payload = appended.payload

/-- A cursor that was loaded holds entries that were appended. -/
def Cursor.Genuine (past : List Event) (queue : String) (known : Version → Prop) (k : Cursor) : Prop :=
  k.loaded = true → ∀ entry ∈ k.cache.entries, entry.Genuine past queue known

/-- An entry that was appended has been handed out: it is the active one of the consumer's row, and its
claim is open in a shared group. -/
structure HandedOver (q : Queue) (c : Consumer) (config : Config) (s : Snapshot) (past : List Event)
    (p : Pointer) (x : Entry) (t : Table) : Prop where
  queue : p.queue = q.name
  appended : ∃ entry v, s.sees v ∧ Enqueued past p entry v ∧ x = ⟨entry.payload, {}⟩
  active : storedId? (t.stored (q.seat c) .active) = some p.id
  claim : config.partitioner.isDisjoint = false →
    (t.claims (q.seat c) p.id).latest = some ClaimState.claimed.encode

section Genuine

variable {past later : List Event} {queue : String} {known wider : Version → Prop} {k : Cursor}

theorem Cursor.Genuine.mono (h : k.Genuine past queue known) (part : past <:+ later)
    (more : ∀ v, known v → wider v) : k.Genuine later queue wider := by
  intro loaded entry mem
  obtain ⟨appended, v, seen, enqueued, payload⟩ := h loaded entry mem
  exact ⟨appended, v, more v seen, enqueued.mono part, payload⟩

end Genuine

variable {q : Queue} {c : Consumer} {config : Config} {s : Snapshot} {past : List Event} {t u : Turn}

theorem Stored.genuine_of_sight {t : Table} {entry : CachedEntry} (h : Stored q.name past t)
    (shown : q.sight (q.shows t s) entry.id = .ok (.servable entry.payload)) :
    entry.Genuine past q.name (s.sees ·) := by
  rcases h.sight_cases s entry.id with ⟨sight, _⟩ | ⟨sight, _⟩ | ⟨appended, v, sight, seen, enqueued⟩
  · cases shown.symm.trans sight
  · cases shown.symm.trans sight
  · exact ⟨appended, v, seen, enqueued, Sighting.servable.inj (Except.ok.inj (shown.symm.trans sight))⟩

theorem Resumed.genuine {queue : String} {p : Partitioner} {a r w a' : EntryId} {k : Cursor}
    (resumed : Resumed past queue s p a r w a' k) : k.Genuine past queue (s.sees ·) := by
  intro _ entry mem
  cases resumed with
  | again _ seen appended =>
      cases List.mem_singleton.1 mem
      exact ⟨_, _, seen, appended, rfl⟩
  | idle _ => cases mem
  | waiting _ _ _ => cases mem
  | cleared _ _ => cases mem

namespace Queue

theorem genuine_refill (h : Stored q.name past t.storage.table)
    (genuine : t.cursor.Genuine past q.name (s.sees ·)) :
    Ends (q.refill c config s) t (fun _ u => u.cursor.Genuine past q.name (s.sees ·))
      fun _ u => u.cursor.Genuine past q.name (s.sees ·) := by
  have shown : q.Shown s (·.Genuine past q.name (s.sees ·)) t.storage.table :=
    fun _ shown => h.genuine_of_sight shown
  refine (supplied_of_refill shown).imp ?_ ?_
  · rintro _ u ⟨loaded, ⟨_, same⟩ | ⟨_, found⟩⟩
    · exact fun now entry mem => genuine (loaded ▸ now) entry (same ▸ mem)
    · exact fun _ => found.all
  · intro _ u empty _ entry mem
    rw [empty] at mem
    cases mem

theorem genuine_handOut (newest : t.storage.table.Until (q.seat c).row s.writeVersion)
    (loaded : t.cursor.loaded = true) (genuine : t.cursor.Genuine past q.name (s.sees ·)) :
    Ends (q.handOut c config s) t
      (fun d u => u.cursor.Genuine past q.name (s.sees ·) ∧ ∀ p x, d = .served p x →
        HandedOver q c config s past p x u.storage.table)
      fun _ u => u.cursor.Genuine past q.name (s.sees ·) := by
  cases cached : t.cursor.cache.entries with
  | nil =>
      refine (ends_handOut_nothing cached).imp ?_ fun _ u same => same.2 ▸ genuine
      rintro _ u ⟨rfl, kept, _⟩
      exact ⟨kept ▸ genuine, nofun⟩
  | cons entry rest =>
      have left : (handedOut t.cursor entry rest).Genuine past q.name (s.sees ·) := fun _ other mem =>
        genuine loaded other (cached ▸ List.mem_cons_of_mem entry mem)
      refine (ends_handOut_next cached).imp ?_ fun _ u failed => failed.2.1 ▸ left
      rintro _ u ⟨rfl, kept, table⟩
      refine ⟨kept ▸ left, ?_⟩
      rintro p x same
      cases same
      obtain ⟨appended, v, seen, enqueued, payload⟩ :=
        genuine loaded entry (cached ▸ List.mem_cons_self)
      obtain ⟨wrote, _⟩ := Table.stored_recordAll table (handingCells_in_row _ _ _)
        (handingCells_nodup _ _ _) newest
      refine ⟨rfl, ⟨appended, v, seen, enqueued, by rw [payload]⟩, ?_, fun shared => ?_⟩
      · rw [wrote .active _ (mem_handingCells_active.2 rfl)]
        exact storedId?_ofUInt64 _
      · refine wrote (.claim entry.id) _ ?_
        simp [handingCells, shared]

/-- However a request ends, the cursor that it leaves holds what was appended if the one that it was
passed did, and what it hands out was appended. -/
theorem genuine_dequeue {a r : EntryId} (footing : Footing q c s past a r t.storage)
    (seen : t.storage.table.RowSeen (q.seat c).row s)
    (genuine : t.cursor.Genuine past q.name (s.sees ·)) :
    Ends (q.dequeue c config s) t
      (fun d u => u.cursor.Genuine past q.name (s.sees ·) ∧ ∀ p x, d = .served p x →
        HandedOver q c config s past p x u.storage.table)
      fun _ u => u.cursor.Genuine past q.name (s.sees ·) := by
  unfold dequeue
  refine Ends.ofExcept_bind (fun _ _ => genuine) fun _ _ => ?_
  refine Ends.ofExcept_bind (fun _ _ => genuine) fun _ _ => ?_
  have loads : Ends (q.ensureLoaded c config s) t (fun _ u => u.cursor.loaded = true ∧
      u.cursor.Genuine past q.name (s.sees ·) ∧ Stored q.name past u.storage.table ∧
        u.storage.table.Until (q.seat c).row s.writeVersion)
      fun _ u => u.cursor.Genuine past q.name (s.sees ·) := by
    cases loaded : t.cursor.loaded with
    | true =>
        exact .answered (q.ensureLoaded_of_loaded c config s loaded)
          ⟨loaded, genuine, footing.stored, footing.newest⟩
    | false =>
        obtain ⟨_, u, done, a', w, _, resumed, footing', _⟩ :=
          q.answers_load c config s t.cursor footing seen
        exact .answered ((q.ensureLoaded_of_unloaded c config s loaded).trans done)
          ⟨resumed.loaded, resumed.genuine, footing'.stored, footing'.newest⟩
  refine loads.bind fun _ u ⟨loaded, genuine, stored, newest⟩ => ?_
  have refill := @genuine_refill q c config s past u stored genuine
  have refills : Ends (q.refill c config s) u (fun _ v => v.cursor.loaded = true ∧
      v.cursor.Genuine past q.name (s.sees ·) ∧
        v.storage.table.Until (q.seat c).row s.writeVersion)
      fun _ v => v.cursor.Genuine past q.name (s.sees ·) := by
    refine .intro (fun _ v done => ⟨?_, refill.of_ok done, fun column w has => ?_⟩)
      fun _ _ failed => refill.of_error failed
    · exact (loaded_of_refill (.inl done)).trans loaded
    · rw [history_of_refill done] at has
      exact newest column w has
  exact refills.bind fun _ v ⟨loaded, genuine, newest⟩ => genuine_handOut newest loaded genuine

end Queue

end VersionedQueue
