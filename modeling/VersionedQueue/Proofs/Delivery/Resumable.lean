import VersionedQueue.Proofs.Consumer.Steps
import VersionedQueue.Proofs.Disjoint.Scan
import VersionedQueue.Proofs.Storage.Mirrored
import VersionedQueue.Proofs.Storage.Unreliable

/-!
# Going on after a failure

A pass of fetching that fails has at most looked at the write pointer or claimed an id, and the cursor
remembers either.  So on storage that works it goes on, from where it failed, as it would have from
the start; and fetching goes on where one of its passes failed.
-/

set_option autoImplicit false
set_option relaxedAutoImplicit false

namespace VersionedQueue

variable {α β : Type}

/-- On storage that works, an operation does the same from where it failed as from the start. -/
structure Resumable (act : TurnM α) : Prop extends Mirrored act where
  resumes : ∀ {t t' e}, act t = .error e t' → Turn.Agree (act t.repair) (act t'.repair)

/-- An operation that was answered is answered the same again, and changes nothing then. -/
def Turn.Again (act : TurnM α) (a : α) (t : Turn) : Prop := Turn.Agree (act t.repair) (.ok a t.repair)

namespace Mirrored

variable {first : TurnM α} {rest : α → TurnM β} {t u u' : Turn} {a : α}

theorem repaired (h : Mirrored first) (done : first t = .ok a u) :
    Turn.Agree (first t.repair) (.ok a u.repair) := by
  have agree := h.agree t.alike_repair t.calm_repair (.inl ⟨a, u, done⟩)
  rw [done] at agree
  exact agree.symm.trans (.ok u.alike_repair)

theorem agree_rest (h : Mirrored first) (after : ∀ a, Mirrored (rest a)) (calm : t.Calm)
    (calm' : u'.Calm) (agree : Turn.Agree (first t) (.ok a u')) :
    Turn.Agree ((first >>= rest) t) (rest a u') := by
  have kept := h.calm calm
  obtain ⟨u, done, same⟩ := agree.symm.of_ok
  rw [done] at kept
  rw [bind_eq_of_ok done]
  exact (after a).agree same.symm calm' (.inr kept)

end Mirrored

namespace Resumable

variable {first : TurnM α} {rest : α → TurnM β}

theorem of_clean {act : TurnM α} (h : Mirrored act)
    (clean : ∀ t e t', act t = .error e t' → t.Alike t') : Resumable act where
  toMirrored := h
  resumes {t t' e} failed := h.agree (t.alike_repair.symm.trans
    ((clean t e t' failed).trans t'.alike_repair)) t'.calm_repair (.inr t.calm_repair)

theorem bind (h : Resumable first) (after : ∀ a, Mirrored (rest a))
    (again : ∀ {t u a}, first t = .ok a u → Turn.Again first a u)
    (clean : ∀ {t u a e t'}, first t = .ok a u → rest a u = .error e t' → u.Alike t') :
    Resumable (first >>= rest) where
  toMirrored := h.toMirrored.bind after
  resumes {t t' e} failed := by
    rcases error_of_bind failed with failed | ⟨a, u, done, failed⟩
    · exact h.agree_bind after rfl rfl (h.resumes failed)
    · have same : u.Alike t' := clean done failed
      have same : u.repair.Alike t'.repair := same
      have here := h.agree_rest after t.calm_repair u.calm_repair (h.repaired done)
      have there := h.agree_rest after u.calm_repair u.calm_repair (again done)
      have moved := (h.toMirrored.bind after).agree same t'.calm_repair (.inr u.calm_repair)
      exact here.trans (there.symm.trans moved)

theorem of_repeats {pass : TurnM Pass} {fetch : TurnM Unit} (repeats : Repeats pass fetch)
    (h : Resumable pass) : Resumable fetch where
  toMirrored := .of_repeats repeats h.toMirrored
  resumes {t t' e} failed := by
    have mirrored := Mirrored.of_repeats repeats h.toMirrored
    induction t using repeats.induct with
    | passed t u done ih =>
        rw [repeats.passed done] at failed
        have agree := h.repaired done
        obtain ⟨u', done', same⟩ := agree.symm.of_ok
        have calm := h.calm t.calm_repair
        rw [done'] at calm
        rw [repeats.passed done']
        exact (mirrored.agree same.symm u.calm_repair (.inr calm)).trans (ih failed)
    | found t u entries done =>
        rw [repeats.found done] at failed
        cases failed
    | exhausted t u done =>
        rw [repeats.exhausted done] at failed
        cases failed
    | failed t u e' done =>
        rw [repeats.failed done] at failed
        cases failed
        exact Mirrored.agree_repeats repeats h.toMirrored t.calm_repair t'.calm_repair (h.resumes done)

end Resumable

namespace Queue

variable (q : Queue) (c : Consumer) (config : Config) (s : Snapshot) {t u : Turn}

/-- Look at the write pointer if the cursor calls for it. -/
def look (stale : Cursor → Bool) : TurnM Unit := do
  let cursor ← Turn.cursorNow
  q.refreshIf (stale cursor)

theorem mirrored_look (stale : Cursor → Bool) : Mirrored (q.look stale) :=
  .bind (q.admits_mirrored (.upTo 0)).cursorNow fun _ => (q.admits_mirrored (.upTo 0)).refreshIf _

theorem ends_look (stale : Cursor → Bool) (t : Turn) :
    Ends (q.look stale) t
      (fun _ u => (stale t.cursor = false ∧ u = t) ∨ t.storage.table.refusesIncrements = false ∧
        t.storage.Alike u.storage ∧ ∃ w : EntryId,
          (w.toNat : Int) = t.storage.table.standing (RowKey.entryCounter.encode q.name) ∧
            u.cursor = { t.cursor with writePointer := w })
      fun _ u => t.Alike u := by
  unfold look
  apply Turn.ends_cursorNow
  cases old : stale t.cursor with
  | false => exact Ends.pure (.inl ⟨rfl, rfl⟩)
  | true =>
      have counted : Ends (Turn.onStorage q.writePointer) t
          (fun w u => (t.storage.table.refusesIncrements = false ∧
            (w.toNat : Int) = t.storage.table.standing (RowKey.entryCounter.encode q.name) ∧
            t.storage.Alike u.storage) ∧ t.cursor = u.cursor)
          fun _ u => t.Alike u :=
        (Turn.ends_onStorage (q.ends_count_zero .readWritePointer .entryCounter)).imp
          (fun _ _ done => done) fun _ _ failed => ⟨failed.1.1, failed.2.symm⟩
      refine counted.bind ?_
      rintro w u ⟨⟨works, stands, same⟩, kept⟩
      exact .inr ⟨works, same, w, stands, by rw [kept]⟩

theorem look_again {stale : Cursor → Bool} (done : q.look stale t = .ok () u) :
    Turn.Again (q.look stale) () u := by
  have fresh (current : stale u.cursor = false) : Turn.Again (q.look stale) () u := by
    change Turn.Agree (q.refreshIf (stale u.cursor) u.repair) _
    rw [current]
    exact .ok (.refl _)
  rcases (q.ends_look stale t).of_ok done with ⟨current, rfl⟩ | ⟨works, same, w, stands, kept⟩
  · exact fresh current
  · cases old : stale u.cursor with
    | false => exact fresh old
    | true =>
        have reliable : u.storage.repair.Reliable := ⟨rfl, same.1.refuses.trans works⟩
        have standing := stands.trans (same.1.standing _).symm
        obtain ⟨_, u', looked, same', w', stands', kept'⟩ :=
          q.answers_refresh u.cursor reliable (standing ▸ Int.natCast_nonneg _)
        have here : w' = w := UInt64.toNat_inj.1 (Int.ofNat_inj.1 (stands'.trans standing.symm))
        change Turn.Agree (q.refreshIf (stale u.cursor) u.repair) _
        rw [old]
        change Turn.Agree (q.refresh u.repair) _
        rw [Turn.repair, looked]
        refine .ok ⟨same'.1.symm, ?_⟩
        rw [kept', here, kept]

/-- What a pass of a disjoint group does once it has looked at the write pointer. -/
def scanNext : TurnM Pass := do
  let cursor ← Turn.cursorNow
  match Window.after cursor.readPointer config.effectiveBatchSize c.groupSize
      cursor.writePointer with
  | none => return .exhausted
  | some w => q.scanWindow c config s w

theorem disjointPass_eq : q.disjointPass c config s =
    (q.look fun cursor => Window.isCaughtUp cursor.readPointer cursor.writePointer) >>=
      fun _ => q.scanNext c config s := by
  unfold look
  exact (bind_assoc _ _ _).symm

theorem unseen_of_scanHeaders {view : QueueView} {key : String} {id : EntryId} :
    ∀ {ids : List EntryId} {scan : HeaderScan}, q.scanHeaders view key ids = .ok scan →
      scan.firstUnseen = some id → id ∈ ids ∧ view (.entry id) .state = none
  | [], scan, found, stops => by
      cases found
      cases stops
  | first :: rest, scan, found, stops => by
      unfold scanHeaders at found
      split at found
      · rename_i hidden
        cases found
        cases stops
        exact ⟨List.mem_cons_self, hidden⟩
      · split at found
        · cases found
        · split at found
          · cases found
          · rename_i tail tailFound
            cases found
            obtain ⟨mem, hidden⟩ := unseen_of_scanHeaders tailFound stops
            exact ⟨List.mem_cons_of_mem _ mem, hidden⟩

/-- What scanning a window comes to: it finds entries, or passes ids of which none can be served, or stops
just before an id of which the snapshot shows nothing. -/
inductive Scans (w : Window) (t : Turn) : Pass → Turn → Prop
  | found {entries : List CachedEntry} {st : Storage} : entries ≠ [] →
      (entries.map (·.id)).Sublist w.ids →
      (∀ entry ∈ entries,
        q.sight (q.shows t.storage.table s) entry.id = .ok (.servable entry.payload)) →
      t.storage.Alike st → Scans w t (.found entries) ⟨st, t.cursor⟩
  | passed {id : EntryId} {st : Storage} : id ≤ w.last → t.storage.Alike st →
      Scans w t .passed ⟨st, t.cursor.advance id⟩
  | stops {id : EntryId} {st : Storage} : id ∈ w.ids →
      q.shows t.storage.table s (.entry id) .state = none → t.storage.Alike st →
      Scans w t .exhausted ⟨st, t.cursor.advance (id - 1)⟩

theorem ends_scanWindow (w : Window) (t : Turn) :
    Ends (q.scanWindow c config s w) t (fun pass u => q.Scans s w t pass u) fun _ u => t.Alike u := by
  unfold scanWindow
  refine ((q.ends_reading s .readHeaders _ t).imp (fun _ _ done => done)
    fun _ u failed => (⟨failed.1.1, failed.2⟩ : t.Alike u)).bind ?_
  rintro scan ⟨st, _⟩ ⟨scanned, same, rfl⟩
  have listed : (owned c config.partitioner scan).Sublist w.ids :=
    (List.filter_sublist.map _).trans (ids_of_scanHeaders scanned)
  cases highest : (owned c config.partitioner scan).getLast? with
  | some last =>
      refine ((q.ends_reading s .readEntries _ ⟨st, t.cursor⟩).imp (fun _ _ done => done)
        fun _ u failed => (⟨same.1.trans failed.1.1, failed.2⟩ : t.Alike u)).bind ?_
      rintro seen ⟨st', _⟩ ⟨read, still, rfl⟩
      obtain ⟨order, sights⟩ := ids_of_sights read
      rw [q.shows_of_alike same.1] at sights
      have among : ((servableEntries seen).map (·.id)).Sublist w.ids := by
        refine (ids_servableEntries seen).trans ?_
        rw [order]
        exact listed
      have shown : ∀ entry ∈ servableEntries seen,
          q.sight (q.shows t.storage.table s) entry.id = .ok (.servable entry.payload) :=
        fun entry mem => sights (entry.id, .servable entry.payload) (mem_servableEntries.1 mem)
      cases served : servableEntries seen with
      | nil =>
          have inside := listed.subset (List.mem_of_getLast? highest)
          exact .passed (Window.mem_ids.1 inside).2 (same.trans still)
      | cons entry rest =>
          rw [served] at among shown
          exact .found (List.cons_ne_nil entry rest) among shown (same.trans still)
  | none =>
      cases stop : scan.firstUnseen with
      | none => exact .passed (UInt64.le_refl _) same
      | some id =>
          obtain ⟨inside, hidden⟩ := q.unseen_of_scanHeaders scanned stop
          exact .stops inside hidden same

theorem mirrored_scanNext : Mirrored (q.scanNext c config s) := by
  refine .bind (q.admits_mirrored s).cursorNow fun cursor => ?_
  cases Window.after cursor.readPointer config.effectiveBatchSize c.groupSize
      cursor.writePointer with
  | none => exact .pure _
  | some w => exact (q.admits_mirrored s).scanWindow c config w

theorem resumable_disjointPass : Resumable (q.disjointPass c config s) := by
  rw [disjointPass_eq]
  refine .bind (.of_clean (q.mirrored_look _) fun t e t' failed => (q.ends_look _ t).of_error failed)
    (fun _ => q.mirrored_scanNext c config s) (fun done => q.look_again done) ?_
  intro _ u _ e t' _ failed
  have clean : Ends (q.scanNext c config s) u (fun _ _ => True) fun _ u' => u.Alike u' := by
    unfold scanNext
    apply Turn.ends_cursorNow
    cases Window.after u.cursor.readPointer config.effectiveBatchSize c.groupSize
        u.cursor.writePointer with
    | none => exact trivial
    | some w => exact (q.ends_scanWindow c config s w u).imp (fun _ _ _ => trivial) fun _ _ h => h
  exact clean.of_error failed

/-- Look at the pointer of the group, and at the write pointer if that leaves nothing to claim. -/
def peek : TurnM EntryId := do
  let groupPointer ← q.groupPointer c.group
  q.look fun cursor => !Window.mayClaim groupPointer cursor.writePointer
  return groupPointer

/-- Claim the next id, if there is one. -/
def claimNext (groupPointer : EntryId) : TurnM (Option EntryId) := do
  let cursor ← Turn.cursorNow
  if Window.mayClaim groupPointer cursor.writePointer then
    let id ← q.claimId c.group
    Turn.update ({ · with pending := some id })
    return some id
  else
    return none

theorem nextClaim_of_free (free : t.cursor.pending = none) :
    q.nextClaim c t = (q.peek c >>= q.claimNext c) t := by
  obtain ⟨st, ⟨loaded, active, readPointer, writePointer, pending, cache⟩⟩ := t
  cases free
  simp only [nextClaim, peek, claimNext, look, bind_assoc, pure_bind]
  change EStateM.bind (Turn.onStorage (q.groupPointer c.group)) _ _ =
    EStateM.bind (Turn.onStorage (q.groupPointer c.group)) _ _
  simp only [EStateM.bind, Turn.onStorage]
  cases q.groupPointer c.group st with
  | ok groupPointer st => rfl
  | error e st => rfl

theorem nextClaim_of_pending {id : EntryId} (pending : t.cursor.pending = some id) :
    q.nextClaim c t = .ok (some id) t := by
  obtain ⟨st, ⟨loaded, active, readPointer, writePointer, _, cache⟩⟩ := t
  cases pending
  rfl

theorem mirrored_peek : Mirrored (q.peek c) :=
  .bind (q.mirrored_count _ _ 0) fun _ => .bind (q.mirrored_look _) fun _ => .pure _

theorem mirrored_claimNext (groupPointer : EntryId) : Mirrored (q.claimNext c groupPointer) := by
  have h := q.admits_mirrored (.upTo 0)
  refine .bind h.cursorNow fun cursor => Inherited.ite (I := Mirrored.inherited) ?_ (.pure _)
  exact .bind (q.mirrored_count _ _ 1) fun id => .bind (h.update _) fun _ => .pure _

theorem ends_peek (t : Turn) :
    Ends (q.peek c) t
      (fun groupPointer u => t.storage.table.refusesIncrements = false ∧
        (groupPointer.toNat : Int) = t.storage.table.standing (q.seat c).groupRow ∧
        t.storage.Alike u.storage ∧ ∃ t₁, t.Alike t₁ ∧
          q.look (fun cursor => !Window.mayClaim groupPointer cursor.writePointer) t₁ = .ok () u)
      fun _ u => t.Alike u := by
  have counted : Ends (Turn.onStorage (q.groupPointer c.group)) t
      (fun groupPointer u => (t.storage.table.refusesIncrements = false ∧
        (groupPointer.toNat : Int) = t.storage.table.standing (q.seat c).groupRow ∧
        t.storage.Alike u.storage) ∧ t.cursor = u.cursor)
      fun _ u => t.Alike u :=
    (Turn.ends_onStorage (q.ends_count_zero .readGroupPointer (.groupPointer c.group))).imp
      (fun _ _ done => done) fun _ _ failed => ⟨failed.1.1, failed.2.symm⟩
  refine counted.bind ?_
  rintro groupPointer t₁ ⟨⟨works, stands, same⟩, kept⟩
  have here : t.Alike t₁ := ⟨same.1, kept.symm⟩
  have looked := q.ends_look (fun cursor => !Window.mayClaim groupPointer cursor.writePointer) t₁
  refine (Ends.intro (fun _ _ done => done) fun e u failed => here.trans (looked.of_error failed) :
    Ends _ t₁ (fun _ u => q.look _ t₁ = .ok () u) _).bind fun _ u done => ?_
  refine Ends.pure ⟨works, stands, ?_, t₁, here, done⟩
  rcases looked.of_ok done with ⟨_, rfl⟩ | ⟨_, still, _⟩
  · exact same
  · exact same.trans still

theorem peek_again {groupPointer : EntryId} (done : q.peek c t = .ok groupPointer u) :
    Turn.Again (q.peek c) groupPointer u := by
  obtain ⟨works, stands, same, t₁, _, looked⟩ := (q.ends_peek c t).of_ok done
  have reliable : u.storage.repair.Reliable := ⟨rfl, same.1.refuses.trans works⟩
  have standing := stands.trans (same.1.standing _).symm
  obtain ⟨g, st, counted, stands', same'⟩ := q.answers_count_zero .readGroupPointer
    (.groupPointer c.group) reliable (Int.le_trans (Int.natCast_nonneg _) (Int.le_of_eq standing))
  have here : g = groupPointer := UInt64.toNat_inj.1 (Int.ofNat_inj.1 (stands'.trans standing.symm))
  subst here
  have first : Turn.Agree (Turn.onStorage (q.groupPointer c.group) u.repair) (.ok g u.repair) := by
    simp only [Turn.onStorage, groupPointer]
    rw [Turn.repair, counted]
    exact .ok ⟨same'.1.symm, rfl⟩
  refine Turn.Agree.trans (Mirrored.agree_rest (q.mirrored_count _ _ 0)
    (fun _ => .bind (q.mirrored_look _) fun _ => .pure _) u.calm_repair u.calm_repair first) ?_
  exact Mirrored.agree_rest (q.mirrored_look _) (fun _ => .pure _) u.calm_repair u.calm_repair
    (q.look_again looked)

theorem resumable_peek : Resumable (q.peek c) :=
  .of_clean (q.mirrored_peek c) fun t _ _ failed => (q.ends_peek c t).of_error failed

/-- A member has claimed the next id of its group's pointer, within the write pointer that it remembers. -/
structure ClaimsNext (id : EntryId) (t u : Turn) : Prop where
  cursor : u.cursor = { t.cursor with pending := some id }
  counted : 0 ≤ t.storage.table.standing (q.seat c).groupRow
  next : (id.toNat : Int) = t.storage.table.standing (q.seat c).groupRow + 1
  moved : u.storage.table.standing (q.seat c).groupRow = id.toNat
  within : id ≤ t.cursor.writePointer
  touched : t.storage.table.Touched (· = (q.seat c).groupRow) 0 u.storage.table

theorem ClaimsNext.pending {q : Queue} {c : Consumer} {id : EntryId} (h : q.ClaimsNext c id t u) :
    u.cursor.pending = some id := by
  rw [h.cursor]

/-- Claiming where the pointer of the group stands claims the next id, if the write pointer leaves one.  A
claim that fails has left the pointer as it was. -/
theorem ends_claimNext {groupPointer : EntryId}
    (stands : (groupPointer.toNat : Int) = t.storage.table.standing (q.seat c).groupRow) :
    Ends (q.claimNext c groupPointer) t
      (fun claim u => (∃ id, claim = some id ∧ q.ClaimsNext c id t u) ∨
        claim = none ∧ u = t ∧ Window.mayClaim groupPointer t.cursor.writePointer = false)
      fun _ u => t.Alike u := by
  have one : (1 : Int64).toInt = 1 := rfl
  have forward : 0 ≤ (1 : Int64).toInt := by decide
  have counted : Ends (q.claimId c.group) t.storage
      (fun id st => (id.toNat : Int) = t.storage.table.standing (q.seat c).groupRow + 1 ∧
        st.table.standing (q.seat c).groupRow = id.toNat ∧
        t.storage.table.Touched (· = (q.seat c).groupRow) 0 st.table)
      fun _ st => st.table = t.storage.table := by
    refine .intro (fun id st done => ?_) fun e st failed => ?_
    · obtain ⟨_, next, moved, touched, _⟩ :=
        (q.ends_count .claimGroupPointer (.groupPointer c.group) forward).of_ok done
      exact ⟨next, moved, touched⟩
    · rcases q.count_one_cases .claimGroupPointer (.groupPointer c.group) t.storage
        (Int.le_trans (Int.natCast_nonneg _) (Int.le_of_eq stands)) with
        ⟨id, st', done, _⟩ | ⟨e', st', done, _, table⟩
      · cases failed.symm.trans done
      · cases failed.symm.trans done
        exact table
  unfold claimNext
  apply Turn.ends_cursorNow
  split
  · rename_i free
    have free : groupPointer.toNat < t.cursor.writePointer.toNat := by
      simpa [Window.mayClaim, UInt64.lt_iff_toNat_lt] using free
    refine ((Turn.ends_onStorage counted).imp (fun _ _ done => done)
      fun _ _ failed => (⟨failed.1 ▸ .refl _, failed.2.symm⟩ : t.Alike _)).bind ?_
    rintro id u ⟨⟨next, moved, touched⟩, kept⟩
    refine .inl ⟨id, rfl, by rw [kept], by omega, next, moved, ?_, touched⟩
    rw [UInt64.le_iff_toNat_le]
    omega
  · rename_i none_left
    exact Ends.pure (.inr ⟨rfl, rfl, by simpa using none_left⟩)

theorem groupPointer_of_peek {groupPointer : EntryId} (peeked : q.peek c t = .ok groupPointer u) :
    (groupPointer.toNat : Int) = u.storage.table.standing (q.seat c).groupRow := by
  obtain ⟨_, stands, same, _⟩ := (q.ends_peek c t).of_ok peeked
  exact stands.trans (same.1.standing _).symm

theorem alike_of_failed_claim {groupPointer : EntryId} {e : QueueError} {u' : Turn}
    (peeked : q.peek c t = .ok groupPointer u)
    (failed : q.claimNext c groupPointer u = .error e u') : u.Alike u' :=
  (q.ends_claimNext c (q.groupPointer_of_peek c peeked)).of_error failed

theorem mirrored_nextClaim : Mirrored (q.nextClaim c) :=
  (q.admits_mirrored (.upTo 0)).nextClaim c (q.mirrored_count _ _ 1)

private theorem pending_of_peek {groupPointer : EntryId} (done : q.peek c t = .ok groupPointer u) :
    u.cursor.pending = t.cursor.pending := by
  obtain ⟨_, _, _, t₁, same, looked⟩ := (q.ends_peek c t).of_ok done
  rw [← same.2]
  rcases (q.ends_look _ t₁).of_ok looked with ⟨_, rfl⟩ | ⟨_, _, w, _, kept⟩
  · rfl
  · rw [kept]

theorem nextClaim_again {claim : Option EntryId} (done : q.nextClaim c t = .ok claim u) :
    Turn.Again (q.nextClaim c) claim u := by
  cases held : t.cursor.pending with
  | some id =>
      rw [q.nextClaim_of_pending c held] at done
      cases done
      have still : t.repair.cursor.pending = some id := held
      rw [Turn.Again, q.nextClaim_of_pending c still]
      exact .ok (.refl _)
  | none =>
      rw [q.nextClaim_of_free c held] at done
      obtain ⟨groupPointer, t₁, peeked, claimed⟩ := ok_of_bind done
      rcases (q.ends_claimNext c (q.groupPointer_of_peek c peeked)).of_ok claimed with
        ⟨id, rfl, claims⟩ | ⟨rfl, rfl, none_left⟩
      · have still : u.repair.cursor.pending = some id := claims.pending
        rw [Turn.Again, q.nextClaim_of_pending c still]
        exact .ok (.refl _)
      · have free : u.repair.cursor.pending = none := (q.pending_of_peek c peeked).trans held
        rw [Turn.Again, q.nextClaim_of_free c free]
        refine (Mirrored.agree_rest (q.mirrored_peek c) (q.mirrored_claimNext c) u.calm_repair
          u.calm_repair (q.peek_again c peeked)).trans ?_
        change Turn.Agree ((if Window.mayClaim groupPointer u.cursor.writePointer = true then _
          else _ : TurnM (Option EntryId)) u.repair) _
        rw [if_neg (by simp [none_left])]
        exact .ok (.refl _)

theorem resumable_nextClaim : Resumable (q.nextClaim c) where
  toMirrored := q.mirrored_nextClaim c
  resumes {t t' e} failed := by
    cases held : t.cursor.pending with
    | some id =>
        rw [q.nextClaim_of_pending c held] at failed
        cases failed
    | none =>
        rw [q.nextClaim_of_free c held] at failed
        have free : t'.cursor.pending = none := by
          rcases error_of_bind failed with failed | ⟨groupPointer, u, peeked, failed⟩
          · rw [((q.ends_peek c t).of_error failed).2, held]
          · rw [(q.alike_of_failed_claim c peeked failed).2, q.pending_of_peek c peeked, held]
        rw [q.nextClaim_of_free c (t := t.repair) held, q.nextClaim_of_free c (t := t'.repair) free]
        exact (Resumable.bind (q.resumable_peek c) (q.mirrored_claimNext c)
          (fun done => q.peek_again c done)
          fun peeked failed => q.alike_of_failed_claim c peeked failed).resumes failed

/-- What a pass of a shared group does with the id that it has claimed. -/
def takeUp (claim : Option EntryId) : TurnM Pass :=
  match claim with
  | none => return .exhausted
  | some id => do
      match ← q.readEntry id s with
      | .servable payload => return .found [⟨id, payload⟩]
      | .unseen => return .exhausted
      | .retired =>
          Turn.update ({ · with pending := none })
          return .passed

theorem sharedPass_eq : q.sharedPass c s = q.nextClaim c >>= q.takeUp s := rfl

theorem mirrored_takeUp (claim : Option EntryId) : Mirrored (q.takeUp s claim) := by
  have h := q.admits_mirrored s
  cases claim with
  | none => exact .pure _
  | some id =>
      refine .bind (h.readEntry id) fun seen => ?_
      cases seen with
      | servable _ => exact .pure _
      | unseen => exact .pure _
      | retired => exact .bind (h.update _) fun _ => .pure _

/-- What taking up a claim comes to: there is none, or its entry is found, or it waits because nothing is
shown of the entry yet, or it is dropped with an entry that was retired. -/
inductive Resolves (t : Turn) : Option EntryId → Pass → Turn → Prop
  | nothing : Resolves t none .exhausted t
  | found {id : EntryId} {payload : Bytes} {st : Storage} :
      q.sight (q.shows t.storage.table s) id = .ok (.servable payload) → t.storage.Alike st →
      Resolves t (some id) (.found [⟨id, payload⟩]) ⟨st, t.cursor⟩
  | waits {id : EntryId} {st : Storage} : q.sight (q.shows t.storage.table s) id = .ok .unseen →
      t.storage.Alike st → Resolves t (some id) .exhausted ⟨st, t.cursor⟩
  | drops {id : EntryId} {st : Storage} : q.sight (q.shows t.storage.table s) id = .ok .retired →
      t.storage.Alike st → Resolves t (some id) .passed ⟨st, { t.cursor with pending := none }⟩

theorem ends_takeUp (claim : Option EntryId) (t : Turn) :
    Ends (q.takeUp s claim) t (fun pass u => q.Resolves s t claim pass u) fun _ u => t.Alike u := by
  cases claim with
  | none => exact Ends.pure .nothing
  | some id =>
      refine ((q.ends_looking s id t).imp (fun _ _ done => done)
        fun _ u failed => (⟨failed.1.1, failed.2⟩ : t.Alike u)).bind ?_
      rintro seen ⟨st, _⟩ ⟨shown, same, rfl⟩
      cases seen with
      | servable payload => exact .found shown same
      | unseen => exact .waits shown same
      | retired => exact .drops shown same

theorem resumable_sharedPass : Resumable (q.sharedPass c s) := by
  rw [sharedPass_eq]
  exact .bind (q.resumable_nextClaim c) (q.mirrored_takeUp s) (fun done => q.nextClaim_again c done)
    fun {_ u claim _ _} _ failed => (q.ends_takeUp s claim u).of_error failed

/-- Fetching can be resumed. -/
theorem resumable_fetch : Resumable (q.fetch c config s) := by
  unfold fetch
  cases config.partitioner with
  | hash =>
      exact .of_repeats (q.repeats_fetchDisjoint c config s) (q.resumable_disjointPass c config s)
  | roundRobin => exact .of_repeats (q.repeats_fetchShared c s) (q.resumable_sharedPass c s)

private theorem scanNext_of_unseen {id : EntryId} (calm : t.Calm)
    (stands : t.cursor.readPointer.toNat + 1 = id.toNat) (behind : id ≤ t.cursor.writePointer)
    (hidden : q.shows t.storage.table s (.entry id) .state = none) :
    Turn.Agree (q.scanNext c config s t) (.ok .exhausted t) := by
  have before : id - 1 = t.cursor.readPointer := by
    apply UInt64.toNat_inj.1
    have one : (1 : UInt64).toNat = 1 := rfl
    rw [UInt64.toNat_sub_of_le _ _ (by rw [UInt64.le_iff_toNat_le]; omega)]
    omega
  have further : ¬ Window.isCaughtUp t.cursor.readPointer t.cursor.writePointer = true := by
    have upTo := UInt64.le_iff_toNat_le.1 behind
    simp only [Window.isCaughtUp, decide_eq_true_eq, UInt64.le_iff_toNat_le]
    omega
  obtain ⟨w, window⟩ : ∃ w, Window.after t.cursor.readPointer config.effectiveBatchSize c.groupSize
      t.cursor.writePointer = some w := by
    unfold Window.after
    rw [if_neg further]
    exact ⟨_, rfl⟩
  obtain ⟨_, nonempty, _⟩ := Window.after_bounds window
  obtain ⟨rest, ids⟩ := Window.ids_eq_cons nonempty
  have first : w.first = id := UInt64.toNat_inj.1 ((Window.first_of_after window).trans stands)
  have scanned : q.scanHeaders (q.shows t.storage.table s) c.headerKey w.ids =
      .ok { firstUnseen := some id } := by
    rw [ids, first]
    simp only [scanHeaders, hidden]
  have looked : Answers (q.readHeaders w.ids c.headerKey s) t.storage fun scan st =>
      scan = { firstUnseen := some id } ∧ t.storage.Alike st := by
    refine (q.answers_view_of_calm .readHeaders s calm).bind ?_
    rintro _ st ⟨rfl, same⟩
    exact Answers.ofExcept scanned ⟨rfl, same⟩
  obtain ⟨_, t', done, ⟨rfl, same⟩, kept⟩ := Turn.answers_onStorage looked
  have passes : q.scanWindow c config s w t =
      .ok .exhausted ⟨t'.storage, t'.cursor.advance (id - 1)⟩ := by
    unfold scanWindow
    exact bind_eq_of_ok done
  change Turn.Agree ((match Window.after t.cursor.readPointer config.effectiveBatchSize c.groupSize
    t.cursor.writePointer with | none => _ | some w => _ : TurnM Pass) t) _
  rw [window]
  change Turn.Agree (q.scanWindow c config s w t) _
  rw [passes, before, ← kept]
  refine .ok ⟨same.1.symm, ?_⟩
  simp [Cursor.advance]

theorem scanNext_of_none (window : Window.after t.cursor.readPointer
    config.effectiveBatchSize c.groupSize t.cursor.writePointer = none) :
    q.scanNext c config s t = .ok .exhausted t := by
  change (match Window.after t.cursor.readPointer config.effectiveBatchSize c.groupSize
    t.cursor.writePointer with | none => _ | some w => _ : TurnM Pass) t = _
  rw [window]
  rfl

theorem scanNext_of_some {w : Window} (window : Window.after t.cursor.readPointer
    config.effectiveBatchSize c.groupSize t.cursor.writePointer = some w) :
    q.scanNext c config s t = q.scanWindow c config s w t := by
  change (match Window.after t.cursor.readPointer config.effectiveBatchSize c.groupSize
    t.cursor.writePointer with | none => _ | some w => _ : TurnM Pass) t = _
  rw [window]

theorem disjointPass_again (done : q.disjointPass c config s t = .ok .exhausted u) :
    Turn.Again (q.disjointPass c config s) .exhausted u := by
  rw [disjointPass_eq] at done ⊢
  obtain ⟨_, t₁, looked, scanned⟩ := ok_of_bind done
  have next := fun _ : Unit => q.mirrored_scanNext c config s
  cases window : Window.after t₁.cursor.readPointer config.effectiveBatchSize c.groupSize
      t₁.cursor.writePointer with
  | none =>
      have here : u = t₁ := by
        cases (q.scanNext_of_none c config s window).symm.trans scanned
        rfl
      subst here
      refine (Mirrored.agree_rest (q.mirrored_look _) next u.calm_repair u.calm_repair
        (q.look_again looked)).trans ?_
      rw [q.scanNext_of_none c config s (t := u.repair) window]
      exact .ok (.refl _)
  | some w =>
      rw [q.scanNext_of_some c config s window] at scanned
      obtain ⟨id, inside, hidden, same, moved⟩ : ∃ id ∈ w.ids,
          q.shows t₁.storage.table s (.entry id) .state = none ∧ t₁.storage.Alike u.storage ∧
            u.cursor = t₁.cursor.advance (id - 1) := by
        cases (q.ends_scanWindow c config s w t₁).of_ok scanned with
        | stops inside hidden same => exact ⟨_, inside, hidden, same, rfl⟩
      obtain ⟨after, _, below⟩ := Window.after_bounds window
      obtain ⟨least, most⟩ := Window.mem_ids.1 inside
      have first := Window.first_of_after window
      rw [UInt64.le_iff_toNat_le] at least most below
      -- The cursor has moved to the id before, and so has not caught up.
      have one : (1 : UInt64).toNat = 1 := rfl
      have before : (id - 1).toNat = id.toNat - 1 :=
        UInt64.toNat_sub_of_le _ _ (by rw [UInt64.le_iff_toNat_le]; omega)
      have reads : u.cursor.readPointer = id - 1 := by
        rw [moved]
        exact if_pos (by rw [UInt64.le_iff_toNat_le]; omega)
      have writes : u.cursor.writePointer = t₁.cursor.writePointer := by
        rw [moved]
        rfl
      have stands : u.cursor.readPointer.toNat + 1 = id.toNat := by
        rw [reads]
        omega
      have behind : id ≤ u.cursor.writePointer := by
        rw [writes, UInt64.le_iff_toNat_le]
        omega
      have current : Window.isCaughtUp u.cursor.readPointer u.cursor.writePointer = false := by
        rw [UInt64.le_iff_toNat_le] at behind
        simp only [Window.isCaughtUp, decide_eq_false_iff_not, UInt64.le_iff_toNat_le]
        omega
      have still : q.shows u.storage.table s (.entry id) .state = none := by
        rw [q.shows_of_alike same.1]
        exact hidden
      have looks : q.look (fun cursor => Window.isCaughtUp cursor.readPointer cursor.writePointer)
          u.repair = .ok () u.repair := by
        change q.refreshIf (Window.isCaughtUp u.cursor.readPointer u.cursor.writePointer) u.repair = _
        rw [current]
        rfl
      rw [Turn.Again, bind_eq_of_ok looks]
      exact q.scanNext_of_unseen c config s u.calm_repair stands behind still

theorem sharedPass_again (done : q.sharedPass c s t = .ok .exhausted u) :
    Turn.Again (q.sharedPass c s) .exhausted u := by
  rw [sharedPass_eq] at done ⊢
  obtain ⟨claim, t₁, claimed, taken⟩ := ok_of_bind done
  obtain ⟨same, hidden⟩ : t₁.Alike u ∧ ∀ id, claim = some id →
      q.sight (q.shows t₁.storage.table s) id = .ok .unseen := by
    cases (q.ends_takeUp s claim t₁).of_ok taken with
    | nothing => exact ⟨.refl _, nofun⟩
    | waits hidden same => exact ⟨⟨same.1, rfl⟩, fun id here => Option.some.inj here ▸ hidden⟩
  have claims : Turn.Agree (q.nextClaim c u.repair) (.ok claim u.repair) := by
    have moved := (q.mirrored_nextClaim c).agree
      (t₁.alike_repair.symm.trans (same.trans u.alike_repair)) u.calm_repair (.inr t₁.calm_repair)
    exact moved.symm.trans ((q.nextClaim_again c claimed).trans
      (.ok (t₁.alike_repair.symm.trans (same.trans u.alike_repair))))
  refine (Mirrored.agree_rest (q.mirrored_nextClaim c) (q.mirrored_takeUp s) u.calm_repair
    u.calm_repair claims).trans ?_
  cases claim with
  | none => exact .ok (.refl _)
  | some id =>
      have looked : Answers (q.readEntry id s) u.repair.storage fun seen st =>
          seen = .unseen ∧ u.repair.storage.Alike st := by
        refine (q.answers_view_of_calm .readEntries s u.calm_repair).bind ?_
        rintro _ st ⟨rfl, alike⟩
        refine Answers.ofExcept ?_ ⟨rfl, alike⟩
        change q.sight (q.shows u.storage.table s) id = _
        rw [q.shows_of_alike same.1]
        exact hidden id rfl
      obtain ⟨_, t', read, ⟨rfl, alike⟩, kept⟩ := Turn.answers_onStorage looked
      have waits : q.takeUp s (some id) u.repair = .ok .exhausted t' := bind_eq_of_ok read
      rw [waits]
      exact .ok ⟨alike.1.symm, kept⟩

end Queue

end VersionedQueue
