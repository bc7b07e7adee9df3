import VersionedQueue.Proofs.Storage.Answers
import VersionedQueue.Queue.Dequeue

/-!
# What requests inherit from their calls

A request for an entry is put together from calls to the table, looks at the cursor and changes of the
cursor.  A property that sequences inherit from their steps, and repetitions from their passes, holds
of the whole request as soon as it holds of these.
-/

set_option autoImplicit false
set_option relaxedAutoImplicit false

namespace VersionedQueue

variable {α β : Type}

/-- Fetching repeats a pass until the pass finds entries, finds that there are none, or fails. -/
structure Repeats (pass : TurnM Pass) (fetch : TurnM Unit) : Prop where
  passed : ∀ {t t'}, pass t = .ok .passed t' → fetch t = fetch t'
  found : ∀ {t t' entries}, pass t = .ok (.found entries) t' →
    fetch t = .ok () { t' with cursor := { t'.cursor with cache := ⟨entries⟩ } }
  exhausted : ∀ {t t'}, pass t = .ok .exhausted t' → fetch t = .ok () t'
  failed : ∀ {t t' e}, pass t = .error e t' → fetch t = .error e t'
  ends : WellFounded fun t' t => pass t = .ok .passed t'

namespace Repeats

variable {pass : TurnM Pass} {fetch : TurnM Unit}

/-- What holds where the last pass ends, and goes back over the passes before it, holds. -/
theorem induct (h : Repeats pass fetch) {motive : Turn → Prop}
    (passed : ∀ t t', pass t = .ok .passed t' → motive t' → motive t)
    (found : ∀ t t' entries, pass t = .ok (.found entries) t' → motive t)
    (exhausted : ∀ t t', pass t = .ok .exhausted t' → motive t)
    (failed : ∀ t t' e, pass t = .error e t' → motive t) (t : Turn) : motive t := by
  induction t using h.ends.induction with
  | _ t ih =>
      cases done : pass t with
      | error e t' => exact failed t t' e done
      | ok answer t' =>
          cases answer with
          | passed => exact passed t t' done (ih t' done)
          | found entries => exact found t t' entries done
          | exhausted => exact exhausted t t' done

theorem keeps (h : Repeats pass fetch) {I : Turn → Prop}
    (passes : ∀ t, I t → Ends pass t
      (fun answer u => I u ∧ ∀ entries, answer = .found entries →
        I { u with cursor := { u.cursor with cache := ⟨entries⟩ } })
      fun _ u => I u) {t : Turn} (begins : I t) :
    Ends fetch t (fun _ u => I u) fun _ u => I u := by
  induction t using h.induct with
  | passed t t' done ih => exact .of_eq (h.passed done) (ih ((passes t begins).of_ok done).1)
  | found t t' entries done =>
      exact .answered (h.found done) (((passes t begins).of_ok done).2 entries rfl)
  | exhausted t t' done => exact .answered (h.exhausted done) ((passes t begins).of_ok done).1
  | failed t t' e done => exact .failed (h.failed done) ((passes t begins).of_error done)

end Repeats

namespace Queue

variable (q : Queue) (c : Consumer) (config : Config) (s : Snapshot)

theorem repeats_fetchDisjoint : Repeats (q.disjointPass c config s) (q.fetchDisjoint c config s) where
  passed h := by rw [fetchDisjoint]; split <;> simp_all
  found h := by rw [fetchDisjoint]; split <;> simp_all
  exhausted h := by rw [fetchDisjoint]; split <;> simp_all
  failed h := by rw [fetchDisjoint]; split <;> simp_all
  ends := by
    refine Subrelation.wf (fun {t' t} passed => ?_)
      (measure fun t : Turn => UInt64.size - t.cursor.readPointer.toNat).wf
    have forward := UInt64.lt_iff_toNat_lt.1 (readPointer_lt_of_disjointPass passed)
    have below := t'.cursor.readPointer.toNat_lt
    change UInt64.size - t'.cursor.readPointer.toNat < UInt64.size - t.cursor.readPointer.toNat
    rw [UInt64.size]
    omega

theorem repeats_fetchShared : Repeats (q.sharedPass c s) (q.fetchShared c s) where
  passed h := by rw [fetchShared]; split <;> simp_all
  found h := by rw [fetchShared]; split <;> simp_all
  exhausted h := by rw [fetchShared]; split <;> simp_all
  failed h := by rw [fetchShared]; split <;> simp_all
  ends := Subrelation.wf claimsLeft_lt_of_sharedPass (measure (q.claimsLeft c)).wf

end Queue

namespace Turn

theorem onStorage_bind (act : StorageM α) (next : α → StorageM β) :
    onStorage (act >>= next) = onStorage act >>= fun a => onStorage (next a) := by
  funext t
  cases done : act t.storage with
  | ok a st =>
      have first : onStorage act t = .ok a ⟨st, t.cursor⟩ := by simp only [onStorage, done]
      rw [bind_eq_of_ok first]
      simp only [onStorage, bind_eq_of_ok done]
  | error e st =>
      have first : onStorage act t = .error e ⟨st, t.cursor⟩ := by simp only [onStorage, done]
      rw [bind_eq_of_error first]
      simp only [onStorage, bind_eq_of_error done]

end Turn

/-- A property of turns that sequences inherit from their steps.  It may hold of some failures only. -/
structure Inherited where
  Of : {α : Type} → TurnM α → Prop
  Throws : QueueError → Prop
  pure : ∀ {α : Type} (a : α), Of (Pure.pure a : TurnM α)
  throw : ∀ {α : Type} {e : QueueError}, Throws e → Of (MonadExcept.throw e : TurnM α)
  bind : ∀ {α β : Type} {act : TurnM α} {next : α → TurnM β},
    Of act → (∀ a, Of (next a)) → Of (act >>= next)

/-- The purposes of the calls that only look. -/
def Purpose.looks : Purpose → Bool
  | readWritePointer | readGroupPointer | readEntryState | readEntries | readHeaders | readConsumer
  | readClaim => true
  | _ => false

/-- A cell as a request for an entry writes it: an id, or an open claim. -/
def WellWritten : Column × Bytes → Prop
  | (.active, x) | (.readPointer, x) => x.toUInt64?.isSome = true
  | (.claim _, x) => x = ClaimState.claimed.encode
  | _ => False

/-- The property holds of what a request is put together from, but for its claims and its writes. -/
structure Inherited.Admits (I : Inherited) (q : Queue) (s : Snapshot) : Prop where
  cursorNow : I.Of Turn.cursorNow
  update : ∀ f, I.Of (Turn.update f)
  view : ∀ purpose, purpose.looks = true → I.Of (Turn.onStorage (q.view purpose s))
  peek : ∀ purpose key, purpose.looks = true → I.Of (Turn.onStorage (q.count purpose key 0))
  corrupted : ∀ row what, I.Throws (q.corrupted row what)
  repeats : ∀ {pass fetch}, Repeats pass fetch → I.Of pass → I.Of fetch

namespace Inherited

variable {I : Inherited} {q : Queue} {c : Consumer} {config : Config} {s : Snapshot}

theorem ofExcept {r : Except QueueError α} (h : ∀ e, r = .error e → I.Throws e) :
    I.Of (MonadExcept.ofExcept r) := by
  cases r with
  | ok a => exact I.pure a
  | error e => exact I.throw (h e rfl)

theorem ite {p : Prop} [Decidable p] {yes no : TurnM α} (hy : I.Of yes) (hn : I.Of no) :
    I.Of (if p then yes else no) := by
  split
  · exact hy
  · exact hn

/-- Data found corrupted is all that reading a queue refuses. -/
def Refuses (q : Queue) (r : Except QueueError α) : Prop :=
  ∀ e, r = .error e → ∃ row what, e = q.corrupted row what

end Inherited

namespace Queue

variable (q : Queue) (c : Consumer)

open Inherited (Refuses)

theorem refuses_decodeState (id : EntryId) (cell : Bytes) : Refuses q (q.decodeState id cell) := by
  intro e refused
  unfold decodeState at refused
  split at refused
  · cases refused
  · exact ⟨_, _, (Except.error.inj refused).symm⟩

theorem refuses_sight (view : QueueView) (id : EntryId) : Refuses q (q.sight view id) := by
  intro e refused
  unfold sight at refused
  split at refused
  · cases refused
  · split at refused
    · rename_i decoded
      cases refused
      exact q.refuses_decodeState id _ _ decoded
    · split at refused
      · split at refused
        · cases refused
        · exact ⟨_, _, (Except.error.inj refused).symm⟩
      · cases refused

theorem refuses_sights (view : QueueView) (ids : List EntryId) :
    Refuses q (ids.mapM fun id => (q.sight view id).map (id, ·)) := by
  induction ids with
  | nil =>
      intro e refused
      cases refused
  | cons id ids ih =>
      intro e refused
      rw [List.mapM_cons] at refused
      cases first : q.sight view id with
      | error e' =>
          rw [first] at refused
          cases refused
          exact q.refuses_sight view id _ first
      | ok seen =>
          rw [first] at refused
          cases others : ids.mapM fun id => (q.sight view id).map (id, ·) with
          | error e' =>
              rw [others] at refused
              cases refused
              exact ih _ others
          | ok rest =>
              rw [others] at refused
              cases refused

theorem refuses_headerHash (view : QueueView) (key : String) (id : EntryId) :
    Refuses q (q.headerHash view key id) := by
  intro e refused
  unfold headerHash at refused
  split at refused
  · cases refused
  · split at refused
    · cases refused
    · exact ⟨_, _, (Except.error.inj refused).symm⟩

theorem refuses_scanHeaders (view : QueueView) (key : String) (ids : List EntryId) :
    Refuses q (q.scanHeaders view key ids) := by
  induction ids with
  | nil =>
      intro e refused
      cases refused
  | cons id ids ih =>
      intro e refused
      unfold scanHeaders at refused
      split at refused
      · cases refused
      · split at refused
        · rename_i hashed
          cases refused
          exact q.refuses_headerHash view key id _ hashed
        · split at refused
          · rename_i scanned
            cases refused
            exact ih _ scanned
          · cases refused

theorem refuses_decodeId (cell : Option Bytes) : Refuses q (q.decodeId c cell) := by
  intro e refused
  unfold decodeId at refused
  split at refused
  · cases refused
  · split at refused
    · cases refused
    · exact ⟨_, _, (Except.error.inj refused).symm⟩

end Queue

namespace Inherited.Admits

variable {I : Inherited} {q : Queue} {s : Snapshot} (h : I.Admits q s) (c : Consumer) (config : Config)

include h

theorem read (purpose : Purpose) (looks : purpose.looks = true) {make : QueueView → Except QueueError α}
    (refuses : ∀ view, Refuses q (make view)) :
    I.Of (Turn.onStorage (do
      let view ← q.view purpose s
      MonadExcept.ofExcept (make view))) := by
  rw [Turn.onStorage_bind]
  refine I.bind (h.view purpose looks) fun view => ?_
  cases made : make view with
  | ok a => exact I.pure a
  | error e =>
      obtain ⟨row, what, rfl⟩ := refuses view e made
      exact I.throw (h.corrupted row what)

theorem refreshIf (stale : Bool) : I.Of (q.refreshIf stale) := by
  cases stale with
  | false => exact I.pure ()
  | true => exact I.bind (h.peek .readWritePointer .entryCounter rfl) fun _ => h.update _

theorem readEntry (id : EntryId) : I.Of (Turn.onStorage (q.readEntry id s)) :=
  h.read .readEntries rfl fun view => q.refuses_sight view id

theorem scanWindow (w : Window) : I.Of (q.scanWindow c config s w) := by
  refine I.bind (h.read .readHeaders rfl fun view => q.refuses_scanHeaders view _ _) fun scan => ?_
  cases (Queue.owned c config.partitioner scan).getLast? with
  | some last =>
      refine I.bind (h.read .readEntries rfl fun view => q.refuses_sights view _) fun seen => ?_
      cases servableEntries seen with
      | nil => exact I.bind (h.update _) fun _ => I.pure _
      | cons _ _ => exact I.pure _
  | none =>
      cases scan.firstUnseen with
      | some _ => exact I.bind (h.update _) fun _ => I.pure _
      | none => exact I.bind (h.update _) fun _ => I.pure _

theorem disjointPass : I.Of (q.disjointPass c config s) := by
  refine I.bind h.cursorNow fun before => ?_
  refine I.bind (h.refreshIf _) fun _ => ?_
  refine I.bind h.cursorNow fun cursor => ?_
  cases Window.after cursor.readPointer config.effectiveBatchSize c.groupSize
      cursor.writePointer with
  | none => exact I.pure _
  | some w => exact h.scanWindow c config w

theorem fetchDisjoint : I.Of (q.fetchDisjoint c config s) :=
  h.repeats (q.repeats_fetchDisjoint c config s) (h.disjointPass c config)

section Claims

variable (claims : I.Of (Turn.onStorage (q.claimId c.group)))

include claims

theorem nextClaim : I.Of (q.nextClaim c) := by
  refine I.bind h.cursorNow fun cursor => ?_
  cases cursor.pending with
  | some id => exact I.pure _
  | none =>
      refine I.bind (h.peek .readGroupPointer (.groupPointer c.group) rfl) fun groupPointer => ?_
      refine I.bind (h.refreshIf _) fun _ => ?_
      refine I.bind h.cursorNow fun refreshed => ?_
      exact Inherited.ite (I.bind claims fun id => I.bind (h.update _) fun _ => I.pure _) (I.pure _)

theorem sharedPass : I.Of (q.sharedPass c s) := by
  refine I.bind (h.nextClaim c claims) fun claim => ?_
  cases claim with
  | none => exact I.pure _
  | some id =>
      refine I.bind (h.readEntry id) fun seen => ?_
      cases seen with
      | servable _ => exact I.pure _
      | unseen => exact I.pure _
      | retired => exact I.bind (h.update _) fun _ => I.pure _

theorem fetch : I.Of (q.fetch c config s) := by
  unfold Queue.fetch
  cases config.partitioner with
  | hash => exact h.fetchDisjoint c config
  | roundRobin => exact h.repeats (q.repeats_fetchShared c s) (h.sharedPass c claims)

theorem refill : I.Of (q.refill c config s) :=
  I.bind h.cursorNow fun _ => Inherited.ite (I.pure _) (h.fetch c config claims)

end Claims

section Writes

variable (writes : ∀ purpose cells, (∀ cell ∈ cells, WellWritten cell) →
  I.Of (Turn.onStorage (q.put purpose (Queue.consumerRow c) cells s.writeVersion)))

include writes

theorem resume (active : EntryId) : I.Of (q.resume c config s active) := by
  have cleared : ∀ cell ∈ [(Column.active, Bytes.ofUInt64 noEntry)], WellWritten cell := by
    simp [WellWritten]
  refine I.bind (h.readEntry active) fun seen => ?_
  cases seen with
  | servable payload => exact h.update _
  | unseen => exact Inherited.ite (h.update _) (writes _ _ cleared)
  | retired => exact Inherited.ite (h.update _) (writes _ _ cleared)

theorem load : I.Of (q.load c config s) := by
  have decoded {cell : Option Bytes} : I.Of (MonadExcept.ofExcept (q.decodeId c cell)) :=
    Inherited.ofExcept fun e refused => by
      obtain ⟨row, what, rfl⟩ := q.refuses_decodeId c cell e refused
      exact h.corrupted row what
  refine I.bind (h.view .readConsumer rfl) fun view => ?_
  refine I.bind decoded fun active => I.bind decoded fun readPointer => ?_
  refine I.bind (h.update _) fun _ => I.bind (h.refreshIf true) fun _ => ?_
  exact Inherited.ite (I.pure _) (h.resume c config writes active)

theorem ensureLoaded : I.Of (q.ensureLoaded c config s) :=
  I.bind h.cursorNow fun _ => Inherited.ite (I.pure _) (h.load c config writes)

theorem handOut : I.Of (q.handOut c config s) := by
  refine I.bind h.cursorNow fun cursor => ?_
  cases cursor.cache.next? with
  | some found =>
      refine I.bind (h.update _) fun _ => I.bind (h.update _) fun _ => ?_
      refine I.bind h.cursorNow fun cursor => I.bind (writes _ _ ?_) fun _ => I.pure _
      split <;> simp [WellWritten]
  | none =>
      refine I.bind (I.bind h.cursorNow fun cursor => writes _ _ ?_) fun _ => I.pure _
      cases cursor.pending <;> simp [WellWritten]

end Writes

/-- The property holds of a request for an entry if it holds of its claims and its writes. -/
theorem dequeue (throws : ∀ e, I.Throws e) (claims : I.Of (Turn.onStorage (q.claimId c.group)))
    (writes : ∀ purpose cells, (∀ cell ∈ cells, WellWritten cell) →
      I.Of (Turn.onStorage (q.put purpose (Queue.consumerRow c) cells s.writeVersion))) :
    I.Of (q.dequeue c config s) := by
  refine I.bind (Inherited.ofExcept fun e _ => throws e) fun _ => ?_
  refine I.bind (Inherited.ofExcept fun e _ => throws e) fun _ => ?_
  refine I.bind (h.ensureLoaded c config writes) fun _ => ?_
  exact I.bind (h.refill c config claims) fun _ => h.handOut c config writes

end Inherited.Admits

namespace StateBound

variable {b : StateBound Storage}

/-- A bound on storage, as a bound on turns. -/
def onTurns (b : StateBound Storage) : StateBound Turn where
  rel t t' := b.rel t.storage t'.storage
  refl t := b.refl t.storage
  trans first second := b.trans first second

theorem keeps_onTurns {act : StorageM α} (h : b.Keeps act) :
    b.onTurns.Keeps (Turn.onStorage act) := by
  intro t
  have stored := h t.storage
  unfold Turn.onStorage
  cases done : act t.storage with
  | ok a storage =>
      rw [done] at stored
      exact stored
  | error e storage =>
      rw [done] at stored
      exact stored

theorem keeps_of_repeats {pass : TurnM Pass} {fetch : TurnM Unit} (repeats : Repeats pass fetch)
    (h : b.onTurns.Keeps pass) : b.onTurns.Keeps fetch := by
  intro t
  induction t using repeats.induct with
  | passed t t' done ih =>
      have begun := h t
      rw [done] at begun
      rw [repeats.passed done]
      exact b.onTurns.trans begun ih
  | found t t' entries done =>
      have begun := h t
      rw [done] at begun
      rw [repeats.found done]
      exact begun
  | exhausted t t' done =>
      have begun := h t
      rw [done] at begun
      rw [repeats.exhausted done]
      exact begun
  | failed t t' e done =>
      have begun := h t
      rw [done] at begun
      rw [repeats.failed done]
      exact begun

/-- A bound on storage, as a property that requests inherit. -/
def inherited (b : StateBound Storage) : Inherited where
  Of := b.onTurns.Keeps
  Throws _ := True
  pure := keeps_pure
  throw _ := keeps_throw _
  bind := keeps_bind

theorem admits {q : Queue} {s : Snapshot} (views : ∀ purpose, b.Keeps (q.view purpose s))
    (peeks : ∀ purpose key, b.Keeps (q.count purpose key 0)) : b.inherited.Admits q s where
  cursorNow t := b.onTurns.refl t
  update _ t := b.onTurns.refl t
  view purpose _ := keeps_onTurns (views purpose)
  peek purpose key _ := keeps_onTurns (peeks purpose key)
  corrupted _ _ := trivial
  repeats := keeps_of_repeats

end StateBound

end VersionedQueue
