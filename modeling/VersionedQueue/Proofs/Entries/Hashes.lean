import VersionedQueue.Proofs.Entries.Log
import VersionedQueue.Proofs.Entries.Sight

/-!
# The cells that hold hashes

The hashes of an entry are written when the entry is appended, and no other call writes to their
columns.  An id is appended once.  So after every run, whichever queues were called and whichever calls
failed, the cells for the hashes of an entry hold those of its append.
-/

set_option autoImplicit false
set_option relaxedAutoImplicit false

namespace VersionedQueue

/-- Operations that leave the hashes of a queue's entries as they were. -/
def Storage.hashesKept (queue : String) : StateBound Storage where
  rel st st' := ∀ id key,
    st'.table.cell queue (.entry id) (.header key) = st.table.cell queue (.entry id) (.header key)
  refl _ _ _ := rfl
  trans first second id key := (second id key).trans (first id key)

namespace Queue

open StateBound (keeps_pure keeps_ofExcept keeps_bind keeps_ite)

variable (q : Queue)

theorem keeps_hashes_invalidate (p : Pointer) (v : Version) :
    (Storage.hashesKept q.name).Keeps (q.invalidate p v) := by
  have state : ∀ key, (Column.header key).encode ≠ Column.state.encode := by simp [Column.encode]
  have payload : ∀ key, (Column.header key).encode ≠ Column.payload.encode := by simp [Column.encode]
  have looks : (Storage.hashesKept q.name).Keeps (q.readState p.id (.upTo v)) := by
    have views : (Storage.touched (fun _ => False) 0).Keeps (q.readState p.id (.upTo v)) := by
      refine keeps_bind (q.keeps_view _ _) fun view => ?_
      cases view (.entry p.id) .state with
      | none => exact keeps_pure _
      | some cell => exact keeps_bind (keeps_ofExcept _) fun _ => keeps_pure _
    exact fun st id key => (views st).1.history _ not_false _
  have marks : (Storage.hashesKept q.name).Keeps (q.put .writeInvalidState (.entry p.id)
      [(.state, EntryState.invalid.encode)] v) := fun st id key => by
    have ends := @ends_put q st .writeInvalidState (.entry p.id) [(.state, EntryState.invalid.encode)] v
    cases done : q.put .writeInvalidState (.entry p.id) [(.state, EntryState.invalid.encode)] v st with
    | ok u st' =>
        change st'.table.cell _ _ _ = _
        rw [(ends.of_ok done).1]
        simp [Table.cell, Table.recordAll, Table.history_record, state]
    | error e st' => exact (ends.of_error done).2.1.history _ _
  have deletes : (Storage.hashesKept q.name).Keeps
      (q.delete .deletePayload (.entry p.id) .payload v) := fun st id key => by
    have ends := @ends_delete q st .deletePayload (.entry p.id) .payload v
    cases done : q.delete .deletePayload (.entry p.id) .payload v st with
    | ok u st' =>
        change st'.table.cell _ _ _ = _
        rw [(ends.of_ok done).1]
        simp [Table.cell, Table.history_record, payload]
    | error e st' => exact (ends.of_error done).2.1.history _ _
  refine keeps_bind (keeps_ofExcept _) fun _ => keeps_bind looks fun current => ?_
  exact keeps_ite (keeps_bind marks fun _ => deletes) (keeps_pure _)

end Queue

section Step

variable {past : List Event} {call : Call} {p : Pointer} {entry : Entry} {v : Version}

theorem Event.invalidates_of_mark? {e : Event} (marked : e.mark? p = some (v, .retired)) :
    e.call.request = .invalidate p v := by
  unfold mark? at marked
  split at marked
  · split at marked <;> cases marked
  · rename_i asked
    split at marked
    · rename_i here
      cases marked
      rw [asked, here.1]
    · cases marked
  · cases marked

private theorem hashes_kept_of_mark? {e : Event} (opens : e.call.queue.Opens)
    (short : ShortName p.queue) (marked : e.mark? p = some (v, .retired)) (key : String) :
    e.after.table.cell p.queue (.entry p.id) (.header key) =
      e.before.table.cell p.queue (.entry p.id) (.header key) := by
  by_cases name : e.call.queue.name = p.queue
  · have after : e.after = (Outcome.ofStorage (fun _ : Unit => .invalidated)
        (e.call.queue.invalidate p v { e.before with plan := e.call.plan })).storage := by
      simp only [Event.after, Event.outcome, Call.perform, Event.invalidates_of_mark? marked]
    rw [after, ← name]
    exact Call.rel_ofStorage (e.call.queue.keeps_hashes_invalidate p v) _ p.id key
  · exact Event.cell_kept opens short (fun same => absurd same name) _

theorem Event.appends_or_keeps_hashes (run : Run Opened past) (opens : call.queue.Opens)
    (short : ShortName p.queue) :
    (∃ entry v, Event.Appends ⟨call, storageAfter past⟩ p entry v ∧
        Table.Appended p.queue p.id entry v (storageAfter past).table
          (Event.after ⟨call, storageAfter past⟩).table) ∨
      ((∀ entry v, ¬ Event.Appends ⟨call, storageAfter past⟩ p entry v) ∧ ∀ key,
        (Event.after ⟨call, storageAfter past⟩).table.cell p.queue (.entry p.id) (.header key) =
          (storageAfter past).table.cell p.queue (.entry p.id) (.header key)) := by
  cases onEntry_of_logged run opens short (logged_of_run run short) with
  | appends entry v appends written => exact .inl ⟨entry, v, appends, written⟩
  | retires v marked _ _ =>
      refine .inr ⟨fun entry w appends => ?_, hashes_kept_of_mark? opens short marked⟩
      cases marked.symm.trans (Event.mark?_of_appends appends)
  | aside unmarked cells =>
      refine .inr ⟨fun entry w appends => ?_, fun key => cells _⟩
      cases unmarked.symm.trans (Event.mark?_of_appends appends)

private theorem not_enqueued_of_appends (run : Run Opened past) (opens : call.queue.Opens)
    (appends : Event.Appends ⟨call, storageAfter past⟩ p entry v) {entry' : Entry} {w : Version} :
    ¬ Enqueued past p entry' w := by
  intro before
  obtain ⟨d, mem, _, takes⟩ := before.takes run
  have again : Run Opened ([⟨call, storageAfter past⟩] ++ past) := .next run opens
  exact not_enqueued_again again (allocated_le run mem takes) ⟨_, List.mem_singleton_self _, appends⟩

end Step

section Run

variable {past : List Event} {p : Pointer}

theorem Enqueued.unique {entry entry' : Entry} {v v' : Version} (h : Enqueued past p entry v)
    (h' : Enqueued past p entry' v') {allowed : List Event → Call → Prop} (run : Run allowed past) :
    entry = entry' ∧ v = v' := by
  obtain ⟨d, mem, appends, takes⟩ := h.takes run
  obtain ⟨d', mem', appends', takes'⟩ := h'.takes run
  have only := only_allocation run mem takes
  have there : d' ∈ [d] := only ▸ List.mem_filter.2 ⟨mem', by simpa using takes'⟩
  obtain rfl := List.mem_singleton.1 there
  cases appends.1.symm.trans appends'.1
  exact ⟨rfl, rfl⟩

/-- After every run the cells for the hashes of an entry hold those of its append. -/
theorem hashes_of_run (run : Run Opened past) (short : ShortName p.queue) :
    (storageAfter past).table.HoldsHashes past p := by
  induction run with
  | start =>
      intro key v x
      simp [storageAfter, Table.cell, Table.history, Enqueued]
  | @next past call earlier opens ih =>
      rcases Event.appends_or_keeps_hashes earlier opens short with
        ⟨entry, v, appends, written⟩ | ⟨silent, same⟩
      · have fresh : ∀ entry' w, ¬ Enqueued past p entry' w := fun _ _ =>
          not_enqueued_of_appends earlier opens appends
        refine ih.of_append fresh written fun entry' w => ?_
        rw [enqueued_cons]
        constructor
        · rintro (again | known)
          · cases appends.1.symm.trans again.1
            exact ⟨rfl, rfl⟩
          · exact absurd known (fresh _ _)
        · rintro ⟨rfl, rfl⟩
          exact .inl appends
      · intro key v x
        have cell : (storageAfter (⟨call, storageAfter past⟩ :: past)).table.cell p.queue
            (.entry p.id) (.header key) = _ := same key
        rw [cell, ih key v x]
        simp [enqueued_cons, silent]

end Run

end VersionedQueue
