import VersionedQueue.Proofs.Run.Orderly

/-!
# Forfeited ids

A member of a shared group that waits for an id may acknowledge it, which takes the id out of the
member's row.  From then on only the cursor that the member's last request left holds the id, and a
request that comes without that cursor forfeits it: the pointer of the group is past the id, and no
member waits for it any more.
-/

set_option autoImplicit false
set_option relaxedAutoImplicit false

namespace VersionedQueue

/-- The entries that a consumer has acknowledged since it last asked for one, newest first. -/
def ackedSince (seat : Seat) : List Event → List EntryId
  | [] => []
  | e :: past =>
      if (e.cursorOf? seat).isSome then [] else (e.ackedBy? seat).toList ++ ackedSince seat past

/-- The id that a request takes up again: the one that the member waits for or, without the cursor that
holds it, that one unless the member has acknowledged it since. -/
def resumes (past : List Event) (seat : Seat) (cursor : Cursor) : Option EntryId :=
  if cursor.loaded then pendingOf past seat
  else (pendingOf past seat).filter (· ∉ ackedSince seat past)

/-- A member's request forfeits an id: the member waits for it and has acknowledged it since it last
asked, and the request comes without the cursor that was left then. -/
def Event.Forfeits (e : Event) (past : List Event) (seat : Seat) (id : EntryId) : Prop :=
  e.call.seat? = some seat ∧ ∃ c config cursor s, e.call.request = .dequeue c config cursor s ∧
    cursor.loaded = false ∧ pendingOf past seat = some id ∧ id ∈ ackedSince seat past

/-- One of a member's requests has forfeited an id. -/
def Forfeited (past : List Event) (seat : Seat) (id : EntryId) : Prop :=
  ∃ e earlier, e :: earlier <:+ past ∧ e.Forfeits earlier seat id

/-- A consumer has never acknowledged an id while it waited for it. -/
def Patient (past : List Event) (seat : Seat) : Prop :=
  ∀ e earlier id, e :: earlier <:+ past → e.ackedBy? seat = some id → pendingOf earlier seat ≠ some id

section Cons

variable {past : List Event} {seat : Seat} {e : Event} {id : EntryId}

theorem ackedSince_cons_of_some {k : Cursor} (h : e.cursorOf? seat = some k) :
    ackedSince seat (e :: past) = [] := by
  simp [ackedSince, h]

theorem mem_ackedSince_cons (h : e.cursorOf? seat = none) :
    id ∈ ackedSince seat (e :: past) ↔ e.ackedBy? seat = some id ∨ id ∈ ackedSince seat past := by
  simp [ackedSince, h]

theorem pendingOf_cons_of_none (h : e.cursorOf? seat = none) :
    pendingOf (e :: past) seat = pendingOf past seat := by
  rw [pendingOf, lastCursor?_cons_of_none h, pendingOf]

theorem forfeited_cons :
    Forfeited (e :: past) seat id ↔ e.Forfeits past seat id ∨ Forfeited past seat id := by
  constructor
  · rintro ⟨f, earlier, within, forfeits⟩
    rcases List.suffix_cons_iff.1 within with same | within
    · cases same
      exact .inl forfeits
    · exact .inr ⟨f, earlier, within, forfeits⟩
  · rintro (forfeits | ⟨f, earlier, within, forfeits⟩)
    · exact ⟨e, past, List.suffix_rfl, forfeits⟩
    · exact ⟨f, earlier, within.trans (List.suffix_cons e past), forfeits⟩

theorem forfeited_cons_of_none (h : e.cursorOf? seat = none) :
    Forfeited (e :: past) seat id ↔ Forfeited past seat id := by
  refine forfeited_cons.trans (or_iff_right ?_)
  rintro ⟨own, c, config, cursor, s, asked, _⟩
  simp [Event.cursorOf?, own, asked, Request.isDequeue] at h

end Cons

section Resumes

variable {past : List Event} {seat : Seat} {cursor : Cursor} {id : EntryId}

theorem resumes_of_loaded (loaded : cursor.loaded = true) :
    resumes past seat cursor = pendingOf past seat := if_pos loaded

theorem resumes_of_none (free : pendingOf past seat = none) : resumes past seat cursor = none := by
  simp [resumes, free]

theorem resumes_of_unacked (pends : pendingOf past seat = some id)
    (unacked : id ∉ ackedSince seat past) : resumes past seat cursor = some id := by
  simp [resumes, pends, unacked]

theorem resumes_of_acked (fresh : cursor.loaded = false) (pends : pendingOf past seat = some id)
    (acked : id ∈ ackedSince seat past) : resumes past seat cursor = none := by
  simp [resumes, fresh, pends, acked]

theorem pendingOf_of_resumes (h : resumes past seat cursor = some id) :
    pendingOf past seat = some id := by
  unfold resumes at h
  split at h
  · exact h
  · exact (Option.filter_eq_some_iff.1 h).1

end Resumes

section Patient

variable {past : List Event} {seat : Seat} {id : EntryId}

/-- What a consumer waits for and has acknowledged since it asked, it has acknowledged while it waited
for it. -/
theorem exists_ack_of_pending (pends : pendingOf past seat = some id)
    (acked : id ∈ ackedSince seat past) :
    ∃ e earlier, e :: earlier <:+ past ∧ e.ackedBy? seat = some id ∧
      pendingOf earlier seat = some id := by
  induction past with
  | nil => cases acked
  | cons e past ih =>
      cases left : e.cursorOf? seat with
      | some k =>
          rw [ackedSince_cons_of_some left] at acked
          cases acked
      | none =>
          rw [pendingOf_cons_of_none left] at pends
          rcases (mem_ackedSince_cons left).1 acked with now | before
          · exact ⟨e, past, List.suffix_rfl, now, pends⟩
          · obtain ⟨f, earlier, within, acks⟩ := ih pends before
            exact ⟨f, earlier, within.trans (List.suffix_cons e past), acks⟩

theorem Forfeited.exists_ack (h : Forfeited past seat id) :
    ∃ e earlier, e :: earlier <:+ past ∧ e.ackedBy? seat = some id ∧
      pendingOf earlier seat = some id := by
  obtain ⟨f, earlier, within, _, _, _, _, _, _, _, pends, acked⟩ := h
  obtain ⟨e, before, part, acks⟩ := exists_ack_of_pending pends acked
  exact ⟨e, before, (part.trans (List.suffix_cons f earlier)).trans within, acks⟩

namespace Patient

theorem not_forfeited (h : Patient past seat) : ¬ Forfeited past seat id := fun forfeited => by
  obtain ⟨e, earlier, within, acks, pends⟩ := forfeited.exists_ack
  exact h e earlier id within acks pends

theorem resumes_eq (h : Patient past seat) (cursor : Cursor) :
    resumes past seat cursor = pendingOf past seat := by
  cases pends : pendingOf past seat with
  | none => exact resumes_of_none pends
  | some id =>
      refine resumes_of_unacked pends fun acked => ?_
      obtain ⟨e, earlier, within, acks, waits⟩ := exists_ack_of_pending pends acked
      exact h e earlier id within acks waits

end Patient

end Patient

end VersionedQueue
