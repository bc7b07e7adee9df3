import VersionedQueue.Proofs.Delivery.Active
import VersionedQueue.Proofs.Delivery.Onward

/-!
# What was acknowledged stays acknowledged

A consumer that takes up its own cursors and hands back nothing that it was not handed leaves behind all
that it was handed.  Of that only the active entry of its row is ever handed out again, and an
acknowledged entry is not the active one any more.  So an entry that was handed out and acknowledged is
done with, whatever fails and whatever is handed back later.
-/

set_option autoImplicit false
set_option relaxedAutoImplicit false

namespace VersionedQueue

/-- A consumer keeps its cursors, and hands back only entries that it was handed.  Any call may fail. -/
structure Careful (seat : Seat) (p : Partitioner) (past : List Event) (call : Call) : Prop extends
    Resuming seat p past call where
  returns : call.seat? = some seat → ∀ id c s,
    call.request = .unack ⟨seat.queue, id⟩ c s → id ∈ servedTo past seat

/-- What a consumer was handed is behind it: the cursor that its last request left has left it behind,
and so does every cursor that is rebuilt from its row. -/
structure ServedBehind (seat : Seat) (p : Partitioner) (past : List Event) : Prop where
  cursor : ∀ k, lastCursor? past seat = some k → k.loaded = true →
    Turn.LeavesBehind seat p (Known past seat) (· ∈ servedTo past seat) ⟨storageAfter past, k⟩
  row : ∃ a r, (storageAfter past).table.Holds seat a r ∧
    (a ≠ noEntry → p.isDisjoint = false →
      (a.toNat : Int) ≤ (storageAfter past).table.standing seat.groupRow) ∧
    Turn.LeavesBehind seat p (Known past seat) (· ∈ servedTo past seat)
      ⟨storageAfter past, { loaded := true, readPointer := r }⟩

/-- A consumer was handed an entry and has acknowledged it, and its row does not name it as active. -/
structure DoneWith (seat : Seat) (id : EntryId) (past : List Event) : Prop where
  served : id ∈ servedTo past seat
  acked : claimState seat id past = some .acked
  inactive : Stores past seat id → id = noEntry

namespace Turn.LeavesBehind

variable {seat : Seat} {p : Partitioner} {known : Version → Prop} {spent : EntryId → Prop} {t : Turn}

theorem rebuilt (h : t.LeavesBehind seat p known spent) :
    LeavesBehind seat p known spent
      ⟨t.storage, { loaded := true, readPointer := t.cursor.readPointer }⟩ where
  fresh _ mem := by cases mem
  claimed _ _ mem := by cases mem
  distinct := List.Pairwise.nil
  reached := h.reached
  disclosed id kept := h.disclosed id (.inl (kept.resolve_right fun ⟨_, mem, _⟩ => by cases mem))

end Turn.LeavesBehind

namespace Careful

variable {seat : Seat} {p : Partitioner} {past : List Event} {e : Event} {id : EntryId} {c : Consumer}
  {config : Config} {cursor : Cursor} {s : Snapshot}

theorem consistent (run : Run (Careful seat p) past) : Run (Consistent seat p) past :=
  run.mono fun _ _ _ fits => fits.toConsistent

private theorem behind_after (found : e.before = storageAfter past) {k : Cursor}
    (served : e.servedTo? seat = none)
    (h : Turn.LeavesBehind seat p (Known past seat) (· ∈ servedTo past seat) ⟨storageAfter past, k⟩) :
    Turn.LeavesBehind seat p (Known (e :: past) seat) (· ∈ servedTo (e :: past) seat)
      ⟨storageAfter (e :: past), k⟩ := by
  have touched := e.touched
  rw [found] at touched
  have still := (@Turn.LeavesBehind.of_forward seat p _ _ _ ⟨storageAfter (e :: past), k⟩ h
    (fun _ pends => pends) rfl (UInt64.le_refl _) _ _ touched).widen fun _ => Known.cons (e := e)
  rwa [servedTo_cons_of_none served]

private theorem of_aside (h : ServedBehind seat p past) (found : e.before = storageAfter past)
    (cursor : e.cursorOf? seat = none) (served : e.servedTo? seat = none)
    (row : ∀ a r, (storageAfter past).table.Holds seat a r → ∃ a', e.after.table.Holds seat a' r ∧
      (a' = a ∨ a' = noEntry ∨ a' ∈ servedTo past seat)) : ServedBehind seat p (e :: past) where
  cursor k last loaded := by
    rw [lastCursor?_cons_of_none cursor] at last
    exact behind_after found served (h.cursor k last loaded)
  row := by
    obtain ⟨a, r, holds, claimed, behind⟩ := h.row
    obtain ⟨a', holds', which⟩ := row a r holds
    refine ⟨a', r, holds', fun some shared => ?_, behind_after found served behind⟩
    have group : (storageAfter past).table.standing seat.groupRow ≤
        e.after.table.standing seat.groupRow := by
      rw [← found]
      exact e.touched.counter_le _ _
    rcases which with rfl | none | handed
    · exact Int.le_trans (claimed some shared) group
    · exact absurd none some
    · have reached := behind.reached a' handed
      rw [Turn.reach, if_neg (by simp [shared])] at reached
      exact Int.le_trans reached group

private theorem goes_on (run : Run (Careful seat p) (e :: past)) (h : ServedBehind seat p past)
    (own : e.call.seat? = some seat) (asked : e.call.request = .dequeue c config cursor s) :
    (e.outcome.cursor.loaded = true ∨ e.delivery? ≠ none →
      Turn.LeavesBehind seat p (Known (e :: past) seat) (· ∈ servedTo (e :: past) seat)
        ⟨e.after, e.outcome.cursor⟩) ∧
    ∀ id, e.servedTo? seat = some id → id ∈ servedTo past seat → Stores past seat id ∧ id ≠ noEntry := by
  obtain ⟨earlier, fits, found⟩ := Run.cons_iff.1 run
  have here := Call.seat_eq own (by rw [asked]; rfl)
  subst here
  obtain rfl := fits.asks own _ _ _ _ asked
  have reads : e.call.request.snapshot? = some s := by rw [asked]; rfl
  have follows := fits.follows own s reads
  have oneQueue := Consistent.oneQueue (consistent earlier)
  have seen : e.before.table.RowSeen (e.call.queue.seat c).row s := by
    rw [found]
    exact OneQueue.rowSeen oneQueue follows
  -- The snapshot of the request sees what the consumer knows, and the consumer knows it afterwards.
  have starts {k : Cursor} (behind : Turn.LeavesBehind (e.call.queue.seat c) config.partitioner
      (Known past (e.call.queue.seat c)) (· ∈ servedTo past (e.call.queue.seat c))
      ⟨storageAfter past, k⟩) :
      e.call.queue.Behind c config s (· ∈ servedTo past (e.call.queue.seat c))
        ⟨{ e.before with plan := e.call.plan }, k⟩ := by
    rw [found]
    exact .of_forward (behind.widen fun v known => follows.sees known) (fun _ pends => pends) rfl
      (UInt64.le_refl _) (.refl (fun _ => False) 0 _)
  have learns {spent : EntryId → Prop} {t : Turn} (behind : e.call.queue.Behind c config s spent t) :
      t.LeavesBehind (e.call.queue.seat c) config.partitioner (Known (e :: past) (e.call.queue.seat c))
        spent := behind.widen fun v sees => known_of_sees own reads sees
  obtain ⟨a, r, holds, claimed, rest⟩ := h.row
  have active : Stores past (e.call.queue.seat c) a := holds.active
  have ends := @Queue.ahead_dequeue e.call.queue c config s (· ∈ servedTo past (e.call.queue.seat c))
    ⟨{ e.before with plan := e.call.plan }, cursor⟩ a r (found ▸ holds) seen (starts rest)
    (fun loaded => starts (h.cursor cursor ((fits.passes own _ _ _ _ asked).last loaded) loaded))
    (by rw [found]; exact claimed) fun gone => by
      have disclosed := (rest.disclosed a (.inl gone)).widen fun v known => follows.sees known
      rw [found]
      exact e.call.queue.sight_ne_unseen (statesLast_of_run oneQueue) disclosed
  cases done : e.call.queue.dequeue c config s ⟨{ e.before with plan := e.call.plan }, cursor⟩ with
  | ok d t =>
      obtain ⟨delivers, after⟩ := Event.delivers_of_ok own asked done
      obtain ⟨again, behind⟩ := ends.of_ok done
      rw [delivers.cursor, after, delivers.servedTo?]
      refine ⟨fun _ => (learns behind).mono fun id handed => ?_, fun id served gone => ?_⟩
      · rcases mem_servedTo_cons.1 handed with served | mem
        · exact .inr (delivers.servedTo? ▸ served)
        · exact .inl mem
      · obtain ⟨rfl, some⟩ := again id served gone
        exact ⟨active, some⟩
  | error err t =>
      obtain ⟨unanswered, after, left⟩ := Event.servedTo?_of_error asked done
      have unserved : e.servedTo? (e.call.queue.seat c) = none := by simp [Event.servedTo?, unanswered]
      rw [servedTo_cons_of_none unserved, after, left, unserved, unanswered]
      refine ⟨fun loaded => learns (ends.of_error done ?_), fun id served => ?_⟩
      · simpa using loaded
      · cases served

private theorem leaves_new (behind : Turn.LeavesBehind seat p (Known (e :: past) seat)
      (· ∈ servedTo (e :: past) seat) ⟨e.after, e.outcome.cursor⟩)
    (asked : e.call.request = .dequeue c config cursor s) (own : e.call.seat? = some seat)
    (leaves : e.leaves? seat = some id) :
    e.servedTo? seat = some id ∨ e.outcome.cursor.pending = some id ∧ id ∉ servedTo past seat := by
  rcases Option.or_eq_some_iff.1 leaves with served | ⟨unserved, pends⟩
  · exact .inl served
  · rw [Event.cursorOf?_of_dequeue own asked] at pends
    refine .inr ⟨pends, fun gone => behind.fresh id (Cursor.mem_held.2 (.inl pends)) ?_⟩
    rw [servedTo_cons_of_none unserved]
    exact gone

private theorem of_request (run : Run (Careful seat p) (e :: past)) (h : ServedBehind seat p past)
    (own : e.call.seat? = some seat) (asked : e.call.request = .dequeue c config cursor s) :
    ServedBehind seat p (e :: past) where
  cursor k last loaded := by
    rw [lastCursor?_cons_of_some (Event.cursorOf?_of_dequeue own asked)] at last
    cases last
    exact (goes_on run h own asked).1 (.inl loaded)
  row := by
    obtain ⟨_, _, found⟩ := Run.cons_iff.1 run
    obtain ⟨a, r, holds, claimed, rest⟩ := h.row
    obtain ⟨a', r', holds', which, pointer⟩ :=
      Consistent.row_of_dequeue (consistent run) own asked (found ▸ holds)
    have behind answered := (goes_on run h own asked).1 (.inr answered)
    refine ⟨a', r', holds', fun some shared => ?_, ?_⟩
    · rcases which with rfl | none | ⟨answered, leaves⟩
      · refine Int.le_trans (claimed some shared) ?_
        rw [← found]
        exact e.touched.counter_le _ _
      · exact absurd none some
      · have behind := behind answered
        rcases leaves_new behind asked own leaves with served | ⟨pends, _⟩
        · have reached := behind.reached a' (by simp [servedTo_cons_of_some served])
          rwa [Turn.reach, if_neg (by simp [shared])] at reached
        · exact behind.claimed shared a' (Cursor.mem_held.2 (.inl pends))
    · rcases pointer with ⟨rfl, unanswered⟩ | ⟨rfl, answered⟩
      · exact behind_after found (by simp [Event.servedTo?, unanswered]) rest
      · exact (behind answered).rebuilt

/-- A careful consumer has left behind what it was handed, whichever calls failed. -/
theorem servedBehind_of_run (run : Run (Careful seat p) past) : ServedBehind seat p past := by
  induction run with
  | start =>
      refine ⟨nofun, noEntry, noEntry, ⟨rfl, rfl⟩, fun some => absurd rfl some, nofun, nofun,
        List.Pairwise.nil, nofun, fun id kept => ?_⟩
      rcases kept with gone | ⟨_, mem, _⟩
      · cases gone
      · cases mem
  | @next past call earlier fits ih =>
      let e : Event := ⟨call, storageAfter past⟩
      have run : Run (Careful seat p) (e :: past) := .next earlier fits
      cases left : e.cursorOf? seat with
      | some k =>
          obtain ⟨own, c, config, cursor, s, asked⟩ := Event.dequeue_of_cursorOf? left
          exact of_request run ih own asked
      | none =>
          refine of_aside ih rfl left (Event.servedTo?_of_aside left) fun a r holds => ?_
          obtain ⟨a', holds', which⟩ := Consistent.row_aside (consistent run) left holds
          refine ⟨a', holds', which.imp_right fun which => which.imp_right fun back => ?_⟩
          obtain ⟨own, ⟨c, s, asked⟩, _⟩ := back
          exact fits.returns own a' c s asked

private theorem done_cons (h : DoneWith seat id past) (shut : e.opens? seat ≠ some id)
    (row : Stores (e :: past) seat id → Stores past seat id ∨ id = noEntry) :
    DoneWith seat id (e :: past) where
  served := servedTo_mono (List.suffix_cons e past) h.served
  acked := by
    rw [claimState, if_neg shut]
    split
    · rfl
    · exact h.acked
  inactive stores := (row stores).elim h.inactive fun none => none

private theorem done_after (run : Run (Careful seat p) (e :: past)) (h : DoneWith seat id past) :
    e.servedTo? seat ≠ some id ∧ DoneWith seat id (e :: past) := by
  obtain ⟨earlier, fits, found⟩ := Run.cons_iff.1 run
  have advanced := servedBehind_of_run earlier
  obtain ⟨a, r, holds, _⟩ := advanced.row
  have before (same : id = a) : Stores past seat id := same ▸ holds.active
  rw [← found] at holds
  cases left : e.cursorOf? seat with
  | none =>
      refine ⟨by simp [Event.servedTo?_of_aside left], done_cons h (fun opens => ?_) fun stores => ?_⟩
      · have back := Event.handsBack_of_opens fits.name left opens
        exact (Consistent.row_of_handsBack (consistent run) back).1 h.acked
      · obtain ⟨a', holds', which⟩ := Consistent.row_aside (consistent run) left holds
        cases holds'.active.symm.trans stores
        rcases which with same | none | back
        · exact .inl (before same)
        · exact .inr none
        · exact absurd h.acked (Consistent.row_of_handsBack (consistent run) back).1
  | some k =>
      obtain ⟨own, c, config, cursor, s, asked⟩ := Event.dequeue_of_cursorOf? left
      -- Only the active entry of the row is handed out again, and an acknowledged one is not active.
      obtain ⟨behind, again⟩ := goes_on run advanced own asked
      have unserved : e.servedTo? seat ≠ some id := by
        intro served
        obtain ⟨stores, some⟩ := again id served h.served
        exact some (h.inactive stores)
      have passed (answered : e.delivery? ≠ none) (leaves : e.leaves? seat = some id) : False := by
        rcases leaves_new (behind (.inr answered)) asked own leaves with served | ⟨_, new⟩
        · exact unserved served
        · exact new h.served
      refine ⟨unserved, done_cons h (fun opens => ?_) fun stores => ?_⟩
      · obtain ⟨leaves, answered⟩ := Event.leaves_of_opens own asked opens
        exact passed answered leaves
      · obtain ⟨a', r', holds', which, _⟩ := Consistent.row_of_dequeue (consistent run) own asked holds
        cases holds'.active.symm.trans stores
        rcases which with same | none | ⟨answered, leaves⟩
        · exact .inl (before same)
        · exact .inr none
        · exact (passed answered leaves).elim

private theorem done_of_acked (run : Run (Careful seat p) (e :: past)) (served : id ∈ servedTo past seat)
    (acked : e.ackedBy? seat = some id) : DoneWith seat id (e :: past) where
  served := servedTo_mono (List.suffix_cons e past) served
  acked := by
    have shut : e.opens? seat = none := Event.opens?_of_ackedBy acked
    rw [claimState, if_neg (by simp [shut]), if_pos acked]
  inactive stores := Consistent.inactive_of_ackedBy (consistent run) acked stores

private theorem done_with {newer : List Event} (further : Run (Careful seat p) (newer ++ past))
    (h : DoneWith seat id past) : DoneWith seat id (newer ++ past) := by
  induction newer with
  | nil => exact h
  | cons e newer ih => exact (done_after further (ih (Run.cons_iff.1 further).1)).2

end Careful

namespace Consistent

variable {seat : Seat} {p : Partitioner} {past : List Event} {e : Event} {id : EntryId} {c : Consumer}
  {s : Snapshot}

theorem unack_of_acked (run : Run (Consistent seat p) (e :: past)) (own : e.call.seat? = some seat)
    (asked : e.call.request = .unack ⟨seat.queue, id⟩ c s)
    (acked : claimState seat id past = some .acked) :
    e.before.table.Alike e.after.table ∧
      (e.call.plan = .none → e.unacked? = some [.handedBackAcked]) := by
  have read := decodeClaim_of_run run own (by rw [asked]; rfl) (by rw [asked]; rfl) id
  rw [acked] at read
  have ends := @Queue.ends_unack e.call.queue c s { e.before with plan := e.call.plan } ⟨seat.queue, id⟩
  have performed := Event.outcome_of_unack asked
  refine ⟨?_, fun calm => ?_⟩
  · cases done : e.call.queue.unack ⟨seat.queue, id⟩ c s { e.before with plan := e.call.plan } with
    | ok warnings st =>
        rw [done] at performed
        obtain ⟨_, claim, read', ⟨_, _, same⟩ | ⟨unacked, _⟩⟩ := ends.of_ok done
        · rw [Event.after, performed]
          exact same.1
        · cases read.symm.trans read'
          exact absurd rfl unacked
    | error err st =>
        rw [done] at performed
        rw [Event.after, performed]
        exact (ends.of_error done).1
  · have name : seat.queue = e.call.queue.name := (Run.cons_iff.1 run).2.1.name.symm
    obtain ⟨st, done⟩ := @Queue.unack_of_acked e.call.queue c s { e.before with plan := e.call.plan }
      ⟨seat.queue, id⟩ calm name read
    rw [Event.unacked?, performed, done]
    rfl

theorem ack_of_acked (run : Run (Consistent seat .roundRobin) (e :: past))
    (own : e.call.seat? = some seat) (asked : e.call.request = .ack ⟨seat.queue, id⟩ c s)
    (acked : claimState seat id past = some .acked) :
    e.before.table.Alike e.after.table ∧
      (e.outcome.answer = .error (.illegalAck id "Entry is ACKED") ∨ e.call.plan ≠ .none ∧
        ∃ purpose source, e.outcome.answer = .error (.internal (Purpose.text purpose) source)) := by
  have unaccepted : e.ackedBy? seat ≠ some id := by
    intro accepted
    cases acked.symm.trans (claimed_of_accepted run own asked accepted)
  refine ⟨alike_of_unaccepted own asked unaccepted, ?_⟩
  by_cases calm : e.call.plan = .none
  · obtain ⟨reason, refused, answer⟩ := (decided_of_calm run own asked calm).2 unaccepted
    rw [acked] at refused
    cases refused
    exact .inl answer
  · have read := decodeClaim_of_run run own (by rw [asked]; rfl) (by rw [asked]; rfl) id
    have name : seat.queue = e.call.queue.name := (Run.cons_iff.1 run).2.1.name.symm
    have ends := @Queue.ends_ack e.call.queue c s { e.before with plan := e.call.plan } ⟨seat.queue, id⟩
    have performed := Event.outcome_of_ack asked
    cases done : e.call.queue.ack ⟨seat.queue, id⟩ c s { e.before with plan := e.call.plan } with
    | ok u st => exact absurd (Event.ackedBy?_of_ack own asked done).1 unaccepted
    | error err st =>
        rw [done] at performed
        rw [performed]
        rcases (ends.of_error done).2 name with
          ⟨source, rfl | rfl⟩ | unread | ⟨claim, reason, read', refused, rfl⟩
        · exact .inr ⟨calm, .readClaim, source, rfl⟩
        · exact .inr ⟨calm, .writeConsumer, source, rfl⟩
        · cases read.symm.trans unread
        · cases read.symm.trans read'
          rw [isDisjoint_eq_false run own asked, acked] at refused
          cases refused
          exact .inl rfl

end Consistent

namespace Careful

variable {seat : Seat} {p : Partitioner} {past newer : List Event} {e : Event} {id : EntryId}

/-- A careful consumer acknowledges an entry that it was handed.  Whatever follows, and whatever fails,
it is not handed the entry again; handing the entry back changes nothing; and in a shared group
acknowledging it again is refused. -/
theorem ack_final (run : Run (Careful seat p) (newer ++ e :: past)) (served : id ∈ servedTo past seat)
    (acked : e.ackedBy? seat = some id) : ∀ f ∈ newer,
    f.servedTo? seat ≠ some id ∧
    (f.call.seat? = some seat → ∀ c s, f.call.request = .unack ⟨seat.queue, id⟩ c s →
      f.before.table.Alike f.after.table ∧
        (f.call.plan = .none → f.unacked? = some [.handedBackAcked])) ∧
    (p = .roundRobin → f.call.seat? = some seat → ∀ c s, f.call.request = .ack ⟨seat.queue, id⟩ c s →
      f.before.table.Alike f.after.table ∧
        (f.outcome.answer = .error (.illegalAck id "Entry is ACKED") ∨ f.call.plan ≠ .none ∧
          ∃ purpose source, f.outcome.answer = .error (.internal (Purpose.text purpose) source))) := by
  intro f mem
  obtain ⟨later, between, rfl⟩ := List.append_of_mem mem
  have further : Run (Careful seat p) (f :: (between ++ e :: past)) :=
    run.of_suffix ⟨later, by simp⟩
  have here : Run (Careful seat p) (e :: past) := run.of_suffix ⟨later ++ f :: between, by simp⟩
  have finished : DoneWith seat id (between ++ e :: past) :=
    done_with (Run.cons_iff.1 further).1 (done_of_acked here served acked)
  refine ⟨(done_after further finished).1, fun own c s asked => ?_, fun shared own c s asked => ?_⟩
  · exact Consistent.unack_of_acked (consistent further) own asked finished.acked
  · subst shared
    exact Consistent.ack_of_acked (consistent further) own asked finished.acked

/-- A member of a shared group is handed an entry and acknowledges it.  Then a request of the member
fails, it hands the entry back, acknowledges it again, and asks once more. -/
def finished : List Call :=
  let queue : Queue := ⟨"q", ⟨.roundRobin, 20⟩⟩
  let worker : Consumer := { group := 1, member := 0, groupSize := 1 }
  let ask : Request := .dequeue worker ⟨.roundRobin, 20⟩ .fresh (.upTo 10)
  [⟨queue, ask, .none⟩, ⟨queue, .ack ⟨"q", 1⟩ worker (.upTo 10), .none⟩,
    ⟨queue, .unack ⟨"q", 1⟩ worker (.upTo 10), .none⟩, ⟨queue, ask, .startingAt .put 0⟩,
    ⟨queue, .ack ⟨"q", 1⟩ worker (.upTo 10), .none⟩, ⟨queue, ask, .none⟩,
    ⟨queue, .enqueue ⟨[97], {}⟩ 1, .none⟩]

private theorem finished_run : Run (Careful ⟨"q", 1, 0⟩ .roundRobin) (replay finished) := by
  have fresh : ∀ call ∈ finished, ∀ c config cursor s, call.request = .dequeue c config cursor s →
      cursor.loaded = false := by
    simp only [finished, List.forall_mem_cons, Request.dequeue.injEq, reduceCtorEq, Cursor.fresh,
      and_imp, false_implies, implies_true, List.not_mem_nil, and_self, and_true, true_and]
    rintro _ _ _ _ - - rfl -
    rfl
  have fits (n : Nat) {call : Call} (here : finished[n]? = some call)
      (returns : ∀ id c s, call.request = .unack ⟨"q", id⟩ c s →
        id ∈ servedTo (replay (finished.drop (n + 1))) ⟨"q", 1, 0⟩) :
      Careful ⟨"q", 1, 0⟩ .roundRobin (replay (finished.drop (n + 1))) call := by
    have consistent : Consistent ⟨"q", 1, 0⟩ .roundRobin (replay (finished.drop (n + 1))) call :=
      .of_replay (s := .upTo 10) (by decide) (by simp [finished, Call.Regular, Queue.configFor]) here
    have kind := fresh call (List.mem_of_getElem? here)
    exact ⟨⟨consistent, fun _ c config cursor s asked => .inl (kind c config cursor s asked)⟩,
      fun _ => returns⟩
  have other (n : Nat) {call : Call} (here : finished[n]? = some call)
      (aside : ∀ p c s, call.request ≠ .unack p c s) :
      Careful ⟨"q", 1, 0⟩ .roundRobin (replay (finished.drop (n + 1))) call :=
    fits n here fun id c s asked => absurd asked (aside _ c s)
  refine .replay_cons (.replay_cons (.replay_cons (.replay_cons (.replay_cons (.replay_cons (.replay_cons
    .start (other 6 rfl ?_)) (other 5 rfl ?_)) (other 4 rfl ?_)) (other 3 rfl ?_))
    (fits 2 rfl fun id c s asked => ?_)) (other 1 rfl ?_)) (other 0 rfl ?_)
  case refine_5 =>
    cases asked
    with_unfolding_all decide
  all_goals exact fun p c s => Request.noConfusion

/-- In that run the entry is handed out once; handing it back changes nothing, and it is not
acknowledged twice. -/
theorem finished_once :
    ∃ last again back failed ack earlier,
      replay finished = last :: again :: back :: failed :: ack :: earlier ∧
      (∀ f ∈ [last, again, back, failed], f.servedTo? ⟨"q", 1, 0⟩ ≠ some 1) ∧
      back.unacked? = some [.handedBackAcked] ∧ back.before.table.Alike back.after.table ∧
      again.outcome.answer = .error (.illegalAck 1 "Entry is ACKED") := by
  have final := @ack_final ⟨"q", 1, 0⟩ .roundRobin (replay (finished.drop 5))
    ((replay finished).take 4) ⟨_, _⟩ 1 finished_run (by with_unfolding_all decide)
    (by with_unfolding_all decide)
  refine ⟨_, _, _, _, _, _, rfl, fun f mem => (final f mem).1, ?_, ?_, ?_⟩
  · exact ((final _ (by simp [replay, finished])).2.1 rfl _ _ rfl).2 rfl
  · exact ((final _ (by simp [replay, finished])).2.1 rfl _ _ rfl).1
  · exact ((final _ (by simp [replay, finished])).2.2 rfl rfl _ _ rfl).2.resolve_right
      fun failed => failed.1 rfl

end Careful

end VersionedQueue
