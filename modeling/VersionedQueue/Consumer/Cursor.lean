import VersionedQueue.Bytes
import VersionedQueue.Ident

/-!
# Cursors

A cursor is what a consumer remembers between two requests: how far it has read, what it was served
last, and the entries it has fetched and not yet handed out.  A cursor that was never loaded is
rebuilt from the consumer's stored row.
-/

set_option autoImplicit false
set_option relaxedAutoImplicit false

namespace VersionedQueue

/-- An entry that was fetched and waits to be handed out. -/
structure CachedEntry where
  id : EntryId
  payload : Bytes
  deriving DecidableEq, Repr

/-- The fetched entries that are left, in ascending order of id.  Each is handed out once. -/
structure Cache where
  entries : List CachedEntry := []
  deriving DecidableEq, Repr

namespace Cache

def remaining (c : Cache) : Nat := c.entries.length

def hasNext (c : Cache) : Bool := !c.entries.isEmpty

def next? (c : Cache) : Option (CachedEntry × Cache) :=
  match c.entries with
  | [] => none
  | entry :: rest => some (entry, ⟨rest⟩)

def drain (c : Cache) : List CachedEntry × Cache := (c.entries, {})

def pastEnd : String := "CACHE: read past end of cached entries"

/-- The next entry, for a caller that knows that there is one. -/
def take (c : Cache) : Except String (CachedEntry × Cache) :=
  match c.next? with
  | some found => .ok found
  | none => .error pastEnd

end Cache

/-- What a consumer remembers between two requests. -/
structure Cursor where
  /-- Whether the stored row was read. -/
  loaded : Bool := false
  /-- The entry served last, or found unacknowledged in the stored row. -/
  active : Option EntryId := none
  /-- The highest id that the consumer has moved past. -/
  readPointer : EntryId := 0
  /-- The write pointer when it was last looked at; it may lag. -/
  writePointer : EntryId := 0
  /-- The id taken from the group's pointer whose entry was not visible yet. -/
  pending : Option EntryId := none
  cache : Cache := {}
  deriving DecidableEq, Repr

namespace Cursor

def fresh : Cursor := {}

/-- Move the read pointer forward; it never moves back. -/
def advance (c : Cursor) (id : EntryId) : Cursor :=
  { c with readPointer := if c.readPointer ≤ id then id else c.readPointer }

/-- Forget everything, so that the next request loads the stored row again. -/
def invalidate (_ : Cursor) : Cursor := fresh

def cachedCount (c : Cursor) : Nat := c.cache.remaining

theorem le_advance (c : Cursor) (id : EntryId) : c.readPointer ≤ (c.advance id).readPointer := by
  unfold advance
  split
  · assumption
  · exact UInt64.le_refl _

theorem advance_of_lt {c : Cursor} {id : EntryId} (h : c.readPointer < id) :
    (c.advance id).readPointer = id := by
  simp [advance, UInt64.le_of_lt h]

end Cursor

end VersionedQueue
