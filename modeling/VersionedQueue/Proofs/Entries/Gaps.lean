import VersionedQueue.Proofs.Entries.Stored

/-!
# Lost ids

An append that fails after it has taken an id leaves a gap: the id is allocated, and no entry ever has
it.  Every allocated id is that of an appended entry or a lost one.
-/

set_option autoImplicit false
set_option relaxedAutoImplicit false

namespace VersionedQueue

/-- The id that an append took from the counter of entries and failed to write. -/
def Event.loses? (e : Event) (queue : String) : Option EntryId :=
  if e.call.request.isEnqueue ∧ e.appended?.isNone ∧
      e.before.table.standing (RowKey.entryCounter.encode queue) <
        e.after.table.standing (RowKey.entryCounter.encode queue) then
    some (UInt64.ofNat (e.after.table.standing (RowKey.entryCounter.encode queue)).toNat)
  else none

/-- The ids that were taken by appends that failed, newest first. -/
def lostIds (queue : String) (past : List Event) : List EntryId :=
  past.filterMap (·.loses? queue)

/-- What an event does to the ids of entries: it takes the next one for an entry that it appends, or
loses the next one, or takes none. -/
inductive Event.Allocation (e : Event) (queue : String) : Prop
  | appended {id : EntryId} {entry : Entry} {v : Version} :
      (id.toNat : Int) = e.before.table.standing (RowKey.entryCounter.encode queue) + 1 →
      e.after.table.standing (RowKey.entryCounter.encode queue) = id.toNat →
      e.Appends ⟨queue, id⟩ entry v → e.loses? queue = none → e.Allocation queue
  | lost {id : EntryId} :
      (id.toNat : Int) = e.before.table.standing (RowKey.entryCounter.encode queue) + 1 →
      e.after.table.standing (RowKey.entryCounter.encode queue) = id.toNat →
      (∀ p entry v, ¬ e.Appends p entry v) → e.loses? queue = some id → e.Allocation queue
  | still : e.after.table.standing (RowKey.entryCounter.encode queue) =
        e.before.table.standing (RowKey.entryCounter.encode queue) →
      (∀ p entry v, ¬ e.Appends p entry v) → e.loses? queue = none → e.Allocation queue

section Event

variable {queue : String} {past : List Event} {e : Event}

private theorem allocation_of_failed (counted : 0 ≤ e.before.table.standing
      (RowKey.entryCounter.encode queue)) (asked : e.call.request.isEnqueue = true)
    (unanswered : e.appended? = none)
    (standing : e.after.table.standing (RowKey.entryCounter.encode queue) =
        e.before.table.standing (RowKey.entryCounter.encode queue) ∨
      e.after.table.standing (RowKey.entryCounter.encode queue) =
        e.before.table.standing (RowKey.entryCounter.encode queue) + 1) : e.Allocation queue := by
  have none_appended : ∀ p entry v, ¬ e.Appends p entry v := by
    rintro p entry v ⟨_, answered⟩
    cases unanswered.symm.trans answered
  rcases standing with still | moved
  · exact .still still none_appended (by simp [Event.loses?, still])
  · have top : e.after.table.standing (RowKey.entryCounter.encode queue) < 2 ^ 63 :=
      Int64.toInt_lt _
    have number : ((UInt64.ofNat
        (e.after.table.standing (RowKey.entryCounter.encode queue)).toNat).toNat : Int) =
          e.after.table.standing (RowKey.entryCounter.encode queue) := by
      rw [UInt64.toNat_ofNat', Nat.mod_eq_of_lt (by omega)]
      omega
    refine .lost (number.trans moved) number.symm none_appended ?_
    rw [Event.loses?, if_pos ⟨asked, by rw [unanswered]; rfl, by omega⟩]

private theorem allocation_of_enqueue {entry : Entry} {v : Version}
    (stored : Stored queue past e.before.table) (name : e.call.queue.name = queue)
    (asked : e.call.request = .enqueue entry v) : e.Allocation queue := by
  subst name
  have performed : e.outcome = Outcome.ofStorage .enqueued
      (e.call.queue.enqueue entry v { e.before with plan := e.call.plan }) := by
    simp only [Event.outcome, Call.perform, asked]
  rcases e.call.queue.enqueue_cases entry v { e.before with plan := e.call.plan } stored.counted
    with ⟨id, st, done, next, stands, _⟩ | ⟨err, st, failed, _, standing⟩
  · rw [done] at performed
    have after : e.after = st := by rw [Event.after, performed]; rfl
    have answered : e.appended? = some ⟨e.call.queue.name, id⟩ := by
      simp [Event.appended?, performed, Outcome.ofStorage]
    exact .appended next (after ▸ stands) ⟨asked, answered⟩ (by simp [Event.loses?, answered])
  · rw [failed] at performed
    have after : e.after = st := by rw [Event.after, performed]; rfl
    rw [← after] at standing
    exact allocation_of_failed stored.counted (by rw [asked]; rfl)
      (by simp [Event.appended?, performed, Outcome.ofStorage]) standing

theorem Event.allocation (stored : Stored queue past e.before.table)
    (name : e.call.queue.name = queue) : e.Allocation queue := by
  by_cases appends : e.call.request.isEnqueue = true
  · obtain ⟨entry, v, asked⟩ : ∃ entry v, e.call.request = .enqueue entry v := by
      cases asked : e.call.request <;> simp [asked, Request.isEnqueue] at appends
      exact ⟨_, _, rfl⟩
    exact allocation_of_enqueue stored name asked
  · refine .still ?_ ?_ (by simp [Event.loses?, appends])
    · rw [Table.standing, Table.standing, Event.counter_of_not_touches name]
      intro touches
      cases asked : e.call.request <;>
        simp [asked, Request.Touches, Request.isEnqueue, Queue.consumerRow] at touches appends
    · rintro p entry v ⟨asked, _⟩
      rw [asked] at appends
      exact appends rfl

end Event

/-- Every allocated id is that of an appended entry or a lost one, and never both. -/
structure Ledger (queue : String) (past : List Event) : Prop where
  below : ∀ id ∈ lostIds queue past, 0 < id.toNat ∧
    (id.toNat : Int) ≤ (storageAfter past).table.standing (RowKey.entryCounter.encode queue)
  once : (lostIds queue past).Nodup
  apart : ∀ id ∈ lostIds queue past, ∀ entry v, ¬ Enqueued past ⟨queue, id⟩ entry v
  complete : ∀ id : EntryId, 0 < id.toNat →
    (id.toNat : Int) ≤ (storageAfter past).table.standing (RowKey.entryCounter.encode queue) →
    id ∈ lostIds queue past ∨ ∃ entry v, Enqueued past ⟨queue, id⟩ entry v

namespace Ledger

variable {queue : String} {past : List Event} {e : Event}

private theorem lostIds_cons_of_some {id : EntryId} (h : e.loses? queue = some id) :
    lostIds queue (e :: past) = id :: lostIds queue past := by
  simp [lostIds, h]

private theorem lostIds_cons_of_none (h : e.loses? queue = none) :
    lostIds queue (e :: past) = lostIds queue past := by
  simp [lostIds, h]

private theorem enqueued_cons_of_none (h : ∀ p entry v, ¬ e.Appends p entry v) {p : Pointer}
    {entry : Entry} {v : Version} : Enqueued (e :: past) p entry v ↔ Enqueued past p entry v := by
  rw [enqueued_cons]
  exact ⟨fun known => known.resolve_left (h p entry v), .inr⟩

private theorem of_appended (h : Ledger queue past) (found : e.before = storageAfter past)
    {id : EntryId} {entry : Entry} {v : Version}
    (next : (id.toNat : Int) = e.before.table.standing (RowKey.entryCounter.encode queue) + 1)
    (stands : e.after.table.standing (RowKey.entryCounter.encode queue) = id.toNat)
    (appends : e.Appends ⟨queue, id⟩ entry v) (kept : e.loses? queue = none) :
    Ledger queue (e :: past) := by
  have list : lostIds queue (e :: past) = lostIds queue past := lostIds_cons_of_none kept
  have below := h.below
  have complete := h.complete
  rw [← found] at below complete
  refine ⟨?_, list ▸ h.once, ?_, ?_⟩
  · intro j mem
    rw [list] at mem
    rw [storageAfter, stands]
    obtain ⟨positive, upTo⟩ := below j mem
    omega
  · intro j mem entry' w known
    rw [list] at mem
    rcases enqueued_cons.1 known with here | known
    · have same := appends.2.symm.trans here.2
      cases same
      have upTo := (below id mem).2
      omega
    · exact h.apart j mem entry' w known
  · intro j positive upTo
    rw [list]
    rw [storageAfter, stands] at upTo
    by_cases here : j = id
    · exact .inr ⟨entry, v, here ▸ enqueued_cons.2 (.inl appends)⟩
    · have apart : j.toNat ≠ id.toNat := fun same => here (UInt64.toNat_inj.1 same)
      exact (complete j positive (by omega)).imp_right fun ⟨entry, v, known⟩ =>
        ⟨entry, v, known.cons⟩

private theorem of_lost (h : Ledger queue past) (found : e.before = storageAfter past)
    (stored : Stored queue past e.before.table) {id : EntryId}
    (next : (id.toNat : Int) = e.before.table.standing (RowKey.entryCounter.encode queue) + 1)
    (stands : e.after.table.standing (RowKey.entryCounter.encode queue) = id.toNat)
    (none : ∀ p entry v, ¬ e.Appends p entry v) (lost : e.loses? queue = some id) :
    Ledger queue (e :: past) := by
  have list : lostIds queue (e :: past) = id :: lostIds queue past := lostIds_cons_of_some lost
  have counted := stored.counted
  have below := h.below
  have complete := h.complete
  rw [← found] at below complete
  refine ⟨?_, ?_, ?_, ?_⟩
  · intro j mem
    rw [list] at mem
    rw [storageAfter, stands]
    rcases List.mem_cons.1 mem with rfl | mem
    · omega
    · obtain ⟨positive, upTo⟩ := below j mem
      omega
  · rw [list, List.nodup_cons]
    refine ⟨fun mem => ?_, h.once⟩
    have upTo := (below id mem).2
    omega
  · intro j mem entry w known
    rw [list] at mem
    rw [enqueued_cons_of_none none] at known
    rcases List.mem_cons.1 mem with rfl | mem
    · -- An appended entry was allocated, and the lost id comes after all that were.
      have upTo := (stored.allocated _ _ _ known).2.2
      simp only at upTo
      omega
    · exact h.apart j mem entry w known
  · intro j positive upTo
    rw [list]
    rw [storageAfter, stands] at upTo
    by_cases here : j = id
    · exact .inl (here ▸ List.mem_cons_self)
    · have apart : j.toNat ≠ id.toNat := fun same => here (UInt64.toNat_inj.1 same)
      exact (complete j positive (by omega)).imp (List.mem_cons_of_mem id)
        fun ⟨entry, v, known⟩ => ⟨entry, v, known.cons⟩

private theorem of_still (h : Ledger queue past) (found : e.before = storageAfter past)
    (still : e.after.table.standing (RowKey.entryCounter.encode queue) =
      e.before.table.standing (RowKey.entryCounter.encode queue))
    (none : ∀ p entry v, ¬ e.Appends p entry v) (kept : e.loses? queue = Option.none) :
    Ledger queue (e :: past) := by
  have list : lostIds queue (e :: past) = lostIds queue past := lostIds_cons_of_none kept
  refine ⟨?_, list ▸ h.once, ?_, ?_⟩
  · intro j mem
    rw [list] at mem
    rw [storageAfter, still, found]
    exact h.below j mem
  · intro j mem entry w known
    rw [list] at mem
    exact h.apart j mem entry w ((enqueued_cons_of_none none).1 known)
  · intro j positive upTo
    rw [list]
    rw [storageAfter, still, found] at upTo
    exact (h.complete j positive upTo).imp_right fun ⟨entry, v, known⟩ => ⟨entry, v, known.cons⟩

theorem next (h : Ledger queue past) (stored : Stored queue past (storageAfter past).table)
    (found : e.before = storageAfter past) (name : e.call.queue.name = queue) :
    Ledger queue (e :: past) := by
  rw [← found] at stored
  cases Event.allocation stored name with
  | appended next stands appends kept => exact h.of_appended found next stands appends kept
  | lost next stands none lost => exact h.of_lost found stored next stands none lost
  | still still none kept => exact h.of_still found still none kept

/-- After every run each allocated id is that of an appended entry or a lost one, and never both. -/
theorem of_run (run : Run (Steady queue) past) : Ledger queue past := by
  induction run with
  | start =>
      refine ⟨fun _ mem => (by cases mem), List.nodup_nil, fun _ mem => (by cases mem), ?_⟩
      intro id positive upTo
      have zero : (storageAfter []).table.standing (RowKey.entryCounter.encode queue) = 0 := rfl
      omega
  | @next past call earlier steady ih =>
      exact @next queue past ⟨call, storageAfter past⟩ ih (Stored.of_run earlier.sound) rfl steady.1

end Ledger

end VersionedQueue
