import VersionedQueue.Proofs.Disjoint.Sweep
import VersionedQueue.Proofs.Entries.Hashes
import VersionedQueue.Proofs.Run.Legible

/-!
# Whatever is shown can be read

The hashes of an entry are those that it was appended with, and each version of a consumer's cell is an
id or a claim, whichever queues were called and whichever calls failed.  So after every run a view of a
queue shows nothing that a request cannot make sense of.
-/

set_option autoImplicit false
set_option relaxedAutoImplicit false

namespace VersionedQueue

section Run

variable {past : List Event} {q : Queue}

/-- After every run the hash that is read for a key is the one that the entry was appended with, if the
snapshot sees the append. -/
theorem headerHash_of_run (run : Run Opened past) (opens : q.Opens) (s : Snapshot) (key : String)
    (id : EntryId) : ∃ found, q.headerHash (q.shows (storageAfter past).table s) key id = .ok found ∧
      ∀ hash, found = some hash ↔ Carries past ⟨q.name, id⟩ (s.sees ·) key hash :=
  (hashes_of_run run opens.shortName).headerHash
    (fun _ _ _ _ known known' => (known.unique known' run).1) s key

/-- After every run whatever is shown of entries can be read. -/
theorem readable_of_run (run : Run Opened past) (opens : q.Opens) (s : Snapshot) :
    q.Readable (q.shows (storageAfter past).table s) where
  sight id := ⟨_, (@logged_of_run past run ⟨q.name, id⟩ opens.shortName).sight s⟩
  hash key id := (headerHash_of_run run opens s key id).imp fun _ found => found.1

theorem reads_of_run (run : Run Opened past) (opens : q.Opens) (c : Consumer) (s : Snapshot) :
    ∃ a r w, q.Reads c s (storageAfter past).table a r w := by
  have bears := @Opened.legible past (q.seat c) run opens.shortName
  have read (column : Column) (own : column.InConsumerRow)
      (numbered : ∀ x, column.Legible x → x.toUInt64?.isSome = true) :
      ∃ id, q.decodeId c (q.shows (storageAfter past).table s (Queue.consumerRow c) column) =
        .ok id := by
    cases shown : q.shows (storageAfter past).table s (Queue.consumerRow c) column with
    | none => exact ⟨noEntry, rfl⟩
    | some cell =>
        obtain ⟨id, decoded⟩ := Option.isSome_iff_exists.1 (numbered _ (bears.shown shown own))
        exact ⟨id, q.decodeId_of_storedId? c decoded⟩
  obtain ⟨a, active⟩ := read .active trivial fun _ legible => legible
  obtain ⟨r, readPointer⟩ := read .readPointer trivial fun _ legible => legible
  obtain ⟨w, stands⟩ := Table.exists_id_of_standing (standing_nonneg run
    (RowKey.entryCounter.encode q.name))
  exact ⟨a, r, w, active, readPointer, stands⟩

end Run

end VersionedQueue
