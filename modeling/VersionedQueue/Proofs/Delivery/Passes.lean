import VersionedQueue.Proofs.Delivery.Resumable

/-!
# What a pass comes to

A member of a disjoint group looks ahead and scans the next window of ids.  A member of a shared group
serves the id that it has pending, or looks ahead and claims the next one.  Whichever it does, and however
its calls end, is one case of what it can come to, with all that the properties of its requests are
derived from.
-/

set_option autoImplicit false
set_option relaxedAutoImplicit false

namespace VersionedQueue

variable {q : Queue} {c : Consumer} {t u v : Turn}

/-- At most the write pointer that the cursor remembers has changed, to where the counter of entries
stands. -/
structure Turn.Looked (q : Queue) (t u : Turn) : Prop where
  same : t.storage.table.Alike u.storage.table
  cursor : u.cursor = { t.cursor with writePointer := u.cursor.writePointer }
  writePointer : u.cursor.writePointer = t.cursor.writePointer ∨
    (u.cursor.writePointer.toNat : Int) =
      t.storage.table.standing (RowKey.entryCounter.encode q.name)

namespace Turn.Looked

theorem of_alike (same : t.Alike u) : t.Looked q u where
  same := same.1
  cursor := by rw [same.2]
  writePointer := .inl (by rw [same.2])

theorem after (first : t.Alike u) (looked : u.Looked q v) : t.Looked q v where
  same := first.1.trans looked.same
  cursor := looked.cursor.trans (by rw [first.2])
  writePointer := by
    rw [← first.2, ← first.1.standing]
    exact looked.writePointer

theorem before (looked : t.Looked q u) (last : u.Alike v) : t.Looked q v where
  same := looked.same.trans last.1
  cursor := last.2 ▸ looked.cursor
  writePointer := last.2 ▸ looked.writePointer

theorem pending (looked : t.Looked q u) : u.cursor.pending = t.cursor.pending := by rw [looked.cursor]

theorem cache (looked : t.Looked q u) : u.cursor.cache = t.cursor.cache := by rw [looked.cursor]

theorem readPointer (looked : t.Looked q u) : u.cursor.readPointer = t.cursor.readPointer := by
  rw [looked.cursor]

theorem known (looked : t.Looked q u)
    (known : (t.cursor.writePointer.toNat : Int) ≤
      t.storage.table.standing (RowKey.entryCounter.encode q.name)) :
    (u.cursor.writePointer.toNat : Int) ≤
      u.storage.table.standing (RowKey.entryCounter.encode q.name) := by
  rw [looked.same.standing]
  rcases looked.writePointer with kept | stands
  · rw [kept]
    exact known
  · exact Int.le_of_eq stands

end Turn.Looked

namespace Queue

theorem looked_of_look {stale : Cursor → Bool} (done : q.look stale t = .ok () u) : t.Looked q u := by
  rcases (q.ends_look stale t).of_ok done with ⟨_, rfl⟩ | ⟨_, same, w, stands, kept⟩
  · exact .of_alike (.refl _)
  · exact ⟨same.1, by rw [kept], .inr (by rw [kept]; exact stands)⟩

theorem ends_looked (q : Queue) (stale : Cursor → Bool) (t : Turn) :
    Ends (q.look stale) t (fun _ u => t.Looked q u) fun _ u => t.Looked q u :=
  .intro (fun _ _ done => looked_of_look done)
    fun _ _ failed => .of_alike ((q.ends_look stale t).of_error failed)

/-- What a pass of a disjoint group comes to: it looks ahead, and scans the next window unless it is caught
up. -/
inductive ScansNext (q : Queue) (c : Consumer) (config : Config) (s : Snapshot) (t : Turn) :
    Pass → Turn → Prop
  | caughtUp {u : Turn} : t.Looked q u →
      Window.after u.cursor.readPointer config.effectiveBatchSize c.groupSize u.cursor.writePointer =
        none →
      ScansNext q c config s t .exhausted u
  | window {u v : Turn} {w : Window} {pass : Pass} : t.Looked q u →
      Window.after u.cursor.readPointer config.effectiveBatchSize c.groupSize u.cursor.writePointer =
        some w →
      q.Scans s w u pass v → ScansNext q c config s t pass v

theorem ends_disjointPass (q : Queue) (c : Consumer) (config : Config) (s : Snapshot) (t : Turn) :
    Ends (q.disjointPass c config s) t (fun pass u => q.ScansNext c config s t pass u)
      fun _ u => t.Looked q u := by
  rw [disjointPass_eq]
  refine (q.ends_looked _ t).bind fun _ u looked => ?_
  cases window : Window.after u.cursor.readPointer config.effectiveBatchSize c.groupSize
      u.cursor.writePointer with
  | none => exact .answered (q.scanNext_of_none c config s window) (.caughtUp looked window)
  | some w =>
      refine .of_eq (q.scanNext_of_some c config s window) ?_
      exact (q.ends_scanWindow c config s w u).imp (fun _ _ scans => .window looked window scans)
        fun _ _ failed => looked.before failed

/-- How a member of a shared group comes to the id that it serves next, if there is one. -/
inductive ServesNext (q : Queue) (c : Consumer) (t : Turn) : Option EntryId → Turn → Prop
  | pending {id : EntryId} : t.cursor.pending = some id → ServesNext q c t (some id) t
  | claimed {id : EntryId} {u v : Turn} : t.cursor.pending = none → t.Looked q u →
      q.ClaimsNext c id u v → ServesNext q c t (some id) v
  | nothing {u : Turn} : t.cursor.pending = none → t.Looked q u →
      (u.cursor.writePointer.toNat : Int) ≤ u.storage.table.standing (q.seat c).groupRow →
      ServesNext q c t none u

theorem ServesNext.waits {id : EntryId} (serves : q.ServesNext c t (some id) u) :
    u.cursor.pending = some id := by
  cases serves with
  | pending held => exact held
  | claimed _ _ claims => exact claims.pending

/-- Asking for the id to serve next: where it fails, nothing has been claimed. -/
theorem ends_nextClaim (q : Queue) (c : Consumer) (t : Turn) :
    Ends (q.nextClaim c) t (fun claim u => q.ServesNext c t claim u) fun _ u => t.Looked q u := by
  cases held : t.cursor.pending with
  | some id => exact .of_eq (q.nextClaim_of_pending c held) (Ends.pure (.pending held))
  | none =>
      have peeks : Ends (q.peek c) t
          (fun groupPointer u => t.Looked q u ∧
            (groupPointer.toNat : Int) = u.storage.table.standing (q.seat c).groupRow)
          fun _ u => t.Looked q u := by
        refine .intro (fun groupPointer u done => ?_) fun _ _ failed =>
          .of_alike ((q.ends_peek c t).of_error failed)
        obtain ⟨_, _, _, t₁, first, looked⟩ := (q.ends_peek c t).of_ok done
        exact ⟨.after first (looked_of_look looked), q.groupPointer_of_peek c done⟩
      refine .of_eq (q.nextClaim_of_free c held) (peeks.bind fun groupPointer u ⟨looked, stands⟩ => ?_)
      refine (q.ends_claimNext c stands).imp ?_ fun _ _ failed => looked.before failed
      rintro _ v (⟨id, rfl, claims⟩ | ⟨rfl, rfl, none_left⟩)
      · exact .claimed held looked claims
      · refine .nothing held looked ?_
        simp only [Window.mayClaim, UInt64.lt_iff_toNat_lt, decide_eq_false_iff_not] at none_left
        omega

end Queue

end VersionedQueue
