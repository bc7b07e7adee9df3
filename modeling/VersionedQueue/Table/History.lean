import VersionedQueue.Bytes
import VersionedQueue.Table.Snapshot

/-!
# The history of a cell

A cell keeps every version that was written to it, newest version first, and each version once: a
second write at a version replaces the first.  A read takes the newest version that its snapshot
sees.
-/

set_option autoImplicit false
set_option relaxedAutoImplicit false

namespace VersionedQueue

/-- One version of a cell; a deletion is a version without a value. -/
structure Revision where
  version : Version
  value : Option Bytes
  deriving DecidableEq, Repr

/-- Put a revision in its place among revisions in descending order of version. -/
def Revision.insert (r : Revision) : List Revision → List Revision
  | [] => [r]
  | q :: rest =>
      if q.version < r.version then r :: q :: rest
      else if q.version = r.version then r :: rest
      else q :: r.insert rest

private theorem mem_of_mem_insert {r q : Revision} :
    ∀ {l : List Revision}, q ∈ r.insert l → q = r ∨ q ∈ l
  | [], h => by simpa [Revision.insert] using h
  | p :: rest, h => by
      unfold Revision.insert at h
      split at h
      · simpa using h
      · split at h
        · rcases List.mem_cons.1 h with h | h
          · exact .inl h
          · exact .inr (List.mem_cons_of_mem _ h)
        · rcases List.mem_cons.1 h with h | h
          · exact .inr (h ▸ List.mem_cons_self)
          · rcases mem_of_mem_insert h with h | h
            · exact .inl h
            · exact .inr (List.mem_cons_of_mem _ h)

private theorem descending_insert (r : Revision) :
    ∀ {l : List Revision}, l.Pairwise (fun a b => b.version < a.version) →
      (r.insert l).Pairwise (fun a b => b.version < a.version)
  | [], _ => by simp [Revision.insert]
  | q :: rest, h => by
      obtain ⟨head, tail⟩ := List.pairwise_cons.1 h
      unfold Revision.insert
      split
      · rename_i newer
        refine List.pairwise_cons.2 ⟨fun p hp => ?_, h⟩
        rcases List.mem_cons.1 hp with rfl | hp
        · exact newer
        · exact UInt64.lt_trans (head p hp) newer
      · split
        · rename_i same
          exact List.pairwise_cons.2 ⟨fun p hp => same ▸ head p hp, tail⟩
        · rename_i older distinct
          refine List.pairwise_cons.2 ⟨fun p hp => ?_, descending_insert r tail⟩
          rcases mem_of_mem_insert hp with rfl | hp
          · exact UInt64.lt_of_le_of_ne (UInt64.not_lt.1 older) (Ne.symm distinct)
          · exact head p hp

/-- The versions of a cell, newest first, each once. -/
structure History where
  revisions : List Revision := []
  descending : revisions.Pairwise (fun a b => b.version < a.version) := by simp

namespace History

def empty : History := {}

instance : Inhabited History := ⟨empty⟩

/-- Write a version of the cell, in place of an earlier write at that version. -/
def record (h : History) (version : Version) (value : Option Bytes) : History :=
  ⟨Revision.insert ⟨version, value⟩ h.revisions, descending_insert _ h.descending⟩

/-- The newest version that a snapshot sees. -/
def newest (h : History) (s : Snapshot) : Option Revision :=
  h.revisions.find? fun r => s.sees r.version

/-- What a snapshot reads: the value of the newest version it sees, unless that is a deletion. -/
def read (h : History) (s : Snapshot) : Option Bytes := (h.newest s).bind (·.value)

/-- The number of versions, deletions included. -/
def size (h : History) : Nat := h.revisions.length

end History

end VersionedQueue
