import VersionedQueue.Proofs.Storage.Inherited

/-!
# Two runs of one request

A request is made twice, from states that are related.  It is coupled if it ends in the same way both
times, in states that are related again.  For a request for an entry it is enough that the relation is
kept by the calls and the changes of the cursor that the request is put together from, and by fetching.
The relation may leave open what the two cursors remember of the write pointer.
-/

set_option autoImplicit false
set_option relaxedAutoImplicit false

namespace VersionedQueue

variable {α : Type}

/-- A change of the cursor that neither looks at the write pointer nor changes it. -/
def KeepsWritePointer (f : Cursor → Cursor) : Prop :=
  ∀ cursor writePointer, f { cursor with writePointer } = { f cursor with writePointer }

/-- Two views agree on the rows that a request for an entry reads. -/
def ViewsAgree (c : Consumer) (view view' : QueueView) : Prop :=
  (∀ column, view' (Queue.consumerRow c) column = view (Queue.consumerRow c) column) ∧
    ∀ id column, view' (.entry id) column = view (.entry id) column

namespace ViewsAgree

variable {c : Consumer} {view view' : QueueView} (h : ViewsAgree c view view') (q : Queue)

include h

theorem sight (id : EntryId) : q.sight view' id = q.sight view id := by
  simp only [Queue.sight, h.2]

theorem scanHeaders (key : String) (ids : List EntryId) :
    q.scanHeaders view' key ids = q.scanHeaders view key ids := by
  induction ids with
  | nil => rfl
  | cons id ids ih => simp only [Queue.scanHeaders, Queue.headerHash, h.2, ih]

end ViewsAgree

/-- A relation of turns that the steps of a request for an entry keep.  Related turns have the same
cursor but for the write pointer, and show the same of what the request reads. -/
structure Couples (R : Turn → Turn → Prop) (q : Queue) (c : Consumer) (s : Snapshot) : Prop where
  cursor : ∀ {t t' : Turn}, R t t' →
    t'.cursor = { t.cursor with writePointer := t'.cursor.writePointer }
  update : ∀ {f : Cursor → Cursor}, KeepsWritePointer f → Coupled R (Turn.update f)
  reset : ∀ cursor : Cursor, Coupled R (Turn.update fun _ => cursor)
  refresh : Coupled R q.refresh
  view : ∀ {α : Type} (purpose : Purpose) {next : QueueView → TurnM α},
    (∀ view view', ViewsAgree c view view' → next view' = next view) →
    (∀ view, Coupled R (next view)) → Coupled R (Turn.onStorage (q.view purpose s) >>= next)
  put : ∀ purpose cells, Coupled R
    (Turn.onStorage (q.put purpose (Queue.consumerRow c) cells s.writeVersion))

namespace Couples

variable {R : Turn → Turn → Prop} {q : Queue} {c : Consumer} {s : Snapshot} (h : Couples R q c s)
  (config : Config)

include h

theorem cursorNow {next : Cursor → TurnM α}
    (same : ∀ cursor writePointer, next { cursor with writePointer } = next cursor)
    (each : ∀ cursor, Coupled R (next cursor)) : Coupled R (Turn.cursorNow >>= next) := by
  intro t t' related
  change Paired R (next t.cursor t) (next t'.cursor t')
  rw [h.cursor related, same t.cursor t'.cursor.writePointer]
  exact each t.cursor related

theorem read (purpose : Purpose) {make : QueueView → Except QueueError α}
    (same : ∀ view view', ViewsAgree c view view' → make view' = make view) :
    Coupled R (Turn.onStorage (do
      let view ← q.view purpose s
      MonadExcept.ofExcept (make view))) := by
  rw [Turn.onStorage_bind]
  refine h.view purpose (fun view view' agree => by rw [same view view' agree]) fun view => ?_
  cases make view with
  | ok a => exact .pure a
  | error e => exact .throw e

theorem readEntry (id : EntryId) : Coupled R (Turn.onStorage (q.readEntry id s)) :=
  h.read .readEntries fun _ _ agree => agree.sight q id

theorem readEntries (ids : List EntryId) : Coupled R (Turn.onStorage (q.readEntries ids s)) :=
  h.read .readEntries fun _ _ agree => by simp only [agree.sight q]

theorem readHeaders (ids : List EntryId) (key : String) :
    Coupled R (Turn.onStorage (q.readHeaders ids key s)) :=
  h.read .readHeaders fun _ _ agree => agree.scanHeaders q key ids

theorem refreshIf (stale : Bool) : Coupled R (q.refreshIf stale) := by
  cases stale with
  | false => exact .pure ()
  | true => exact h.refresh

theorem scanWindow (w : Window) : Coupled R (q.scanWindow c config s w) := by
  refine (h.readHeaders w.ids c.headerKey).bind fun scan => ?_
  cases (Queue.owned c config.partitioner scan).getLast? with
  | some last =>
      refine (h.readEntries _).bind fun seen => ?_
      cases servableEntries seen with
      | nil => exact (h.update fun _ _ => rfl).bind fun _ => .pure _
      | cons _ _ => exact .pure _
  | none =>
      cases scan.firstUnseen with
      | some _ => exact (h.update fun _ _ => rfl).bind fun _ => .pure _
      | none => exact (h.update fun _ _ => rfl).bind fun _ => .pure _

theorem of_repeats {pass : TurnM Pass} {fetch : TurnM Unit} (repeats : Repeats pass fetch)
    (coupled : Coupled R pass) : Coupled R fetch := by
  intro t t' related
  induction t using repeats.induct generalizing t' with
  | passed t u done ih =>
      have begun := coupled related
      rw [done] at begun
      obtain ⟨u', done', related'⟩ := begun.of_ok
      rw [repeats.passed done, repeats.passed done']
      exact ih related'
  | found t u entries done =>
      have begun := coupled related
      rw [done] at begun
      obtain ⟨u', done', related'⟩ := begun.of_ok
      rw [repeats.found done, repeats.found done']
      have filled : KeepsWritePointer ({ · with cache := ⟨entries⟩ }) := fun _ _ => rfl
      exact h.update filled related'
  | exhausted t u done =>
      have begun := coupled related
      rw [done] at begun
      obtain ⟨u', done', related'⟩ := begun.of_ok
      rw [repeats.exhausted done, repeats.exhausted done']
      exact .ok related'
  | failed t u e done =>
      have begun := coupled related
      rw [done] at begun
      obtain ⟨u', done', related'⟩ := begun.of_error
      rw [repeats.failed done, repeats.failed done']
      exact .error related'

theorem resume (active : EntryId) : Coupled R (q.resume c config s active) := by
  refine (h.readEntry active).bind fun seen => ?_
  cases seen with
  | servable payload => exact h.update fun _ _ => rfl
  | unseen => exact .ite (h.update fun _ _ => rfl) (h.put _ _)
  | retired => exact .ite (h.update fun _ _ => rfl) (h.put _ _)

theorem load : Coupled R (q.load c config s) := by
  refine h.view .readConsumer (fun view view' agree => by simp only [agree.1]) fun view => ?_
  refine (Coupled.ofExcept _).bind fun active => (Coupled.ofExcept _).bind fun readPointer => ?_
  refine (h.reset _).bind fun _ => h.refresh.bind fun _ => ?_
  exact .ite (.pure _) (h.resume config active)

theorem ensureLoaded : Coupled R (q.ensureLoaded c config s) :=
  h.cursorNow (fun _ _ => rfl) fun _ => .ite (.pure _) (h.load config)

theorem handOut : Coupled R (q.handOut c config s) := by
  refine h.cursorNow (fun _ _ => rfl) fun cursor => ?_
  cases cursor.cache.next? with
  | some found =>
      refine (h.update fun _ _ => rfl).bind fun _ => (h.update fun _ _ => rfl).bind fun _ => ?_
      exact h.cursorNow (fun _ _ => rfl) fun cursor => (h.put _ _).bind fun _ => .pure _
  | none =>
      refine Coupled.bind ?_ fun _ => .pure _
      exact h.cursorNow (fun _ _ => rfl) fun cursor => h.put _ _

/-- A request for an entry is coupled if fetching is. -/
theorem dequeue (fetch : Coupled R (q.fetch c config s)) : Coupled R (q.dequeue c config s) := by
  refine (Coupled.ofExcept _).bind fun _ => (Coupled.ofExcept _).bind fun _ => ?_
  refine (h.ensureLoaded config).bind fun _ => Coupled.bind ?_ fun _ => h.handOut config
  exact h.cursorNow (fun _ _ => rfl) fun cursor => .ite (.pure _) fetch

section LockStep

/-! ### The same cursor both times -/

variable (same : ∀ {t t' : Turn}, R t t' → t'.cursor = t.cursor)

include same

omit h in
private theorem sameCursor {next : Cursor → TurnM α} (each : ∀ cursor, Coupled R (next cursor)) :
    Coupled R (Turn.cursorNow >>= next) := by
  intro t t' related
  change Paired R (next t.cursor t) (next t'.cursor t')
  rw [same related]
  exact each t.cursor related

theorem disjointPass : Coupled R (q.disjointPass c config s) := by
  refine sameCursor same fun before => (h.refreshIf _).bind fun _ => sameCursor same fun cursor => ?_
  cases Window.after cursor.readPointer config.effectiveBatchSize c.groupSize
      cursor.writePointer with
  | none => exact .pure _
  | some w => exact h.scanWindow config w

theorem fetchDisjoint : Coupled R (q.fetchDisjoint c config s) :=
  h.of_repeats (q.repeats_fetchDisjoint c config s) (h.disjointPass config same)

theorem fetchShared (peek : Coupled R (Turn.onStorage (q.groupPointer c.group)))
    (claim : Coupled R (Turn.onStorage (q.claimId c.group))) : Coupled R (q.fetchShared c s) := by
  refine h.of_repeats (q.repeats_fetchShared c s) (Coupled.bind ?_ fun found => ?_)
  · refine sameCursor same fun cursor => ?_
    cases cursor.pending with
    | some id => exact .pure _
    | none =>
        refine peek.bind fun groupPointer => (h.refreshIf _).bind fun _ => ?_
        refine sameCursor same fun refreshed => .ite ?_ (.pure _)
        exact claim.bind fun id => (h.update fun _ _ => rfl).bind fun _ => .pure _
  · cases found with
    | none => exact .pure _
    | some id =>
        refine (h.readEntry id).bind fun seen => ?_
        cases seen with
        | servable _ => exact .pure _
        | unseen => exact .pure _
        | retired => exact (h.update fun _ _ => rfl).bind fun _ => .pure _

end LockStep

end Couples

end VersionedQueue
