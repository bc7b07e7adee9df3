import VersionedQueue.Proofs.Delivery.Genuine
import VersionedQueue.Proofs.Run.Legible
import VersionedQueue.Proofs.Run.Replay

/-!
# Redelivery

A consumer that is left with an entry, since the entry was handed out to it or handed back by it, gets
the same entry again when it asks with a cursor that was never loaded.  Neither other consumers nor
producers can change this, nor can the consumer's acknowledgements of other entries.
-/

set_option autoImplicit false
set_option relaxedAutoImplicit false

namespace VersionedQueue

/-- The calls of a queue, as far as one consumer is concerned: its own calls meet no failing storage,
its snapshots follow each other, and it asks for entries with cursors that its requests have left,
however long ago, or that hold nothing but what its snapshot shows, as one does that was never
loaded.  That is the documented ownership of a consumer's state, which belongs to its instance alone: no
other consumer's cursor is passed. -/
def Attentive (seat : Seat) (past : List Event) (call : Call) : Prop :=
  Sound seat.queue past call ∧ (call.seat? = some seat → call.plan = .none ∧
    (∀ s, call.request.snapshot? = some s → Follows past seat s) ∧
    ∀ c config cursor s, call.request = .dequeue c config cursor s →
      (∃ e ∈ past, e.cursorOf? seat = some cursor) ∨ cursor.Genuine past seat.queue (s.sees ·))

/-- What holds of a consumer after a run: the cursors that it was left with hold what was appended, what
it was handed was appended, and a claim is stored as acknowledged only if it was. -/
structure Attended (seat : Seat) (past : List Event) : Prop where
  genuine : ∀ e ∈ past, ∀ k, e.cursorOf? seat = some k → k.Genuine past seat.queue (Known past seat)
  delivered : ∀ e ∈ past, e.call.seat? = some seat → ∀ p x, e.delivery? = some (.served p x) →
    p.queue = seat.queue ∧ ∃ entry v, Known past seat v ∧ Enqueued past p entry v ∧
      x = ⟨entry.payload, {}⟩
  acked : (storageAfter past).table.Bears seat fun column x => ∀ id, column = .claim id →
    x = ClaimState.acked.encode → id ∈ ackedIds past seat

namespace Event

/-- A consumer is left with an entry: it is handed the entry, or hands it back after it was handed it.
What it hands back is not acknowledged, or handing it back was not remarked on. -/
inductive LeavesWith (e : Event) (past : List Event) (seat : Seat) (id : EntryId) : Prop
  | handed : e.servedTo? seat = some id → LeavesWith e past seat id
  | handedBack {p : Pointer} {c : Consumer} {s : Snapshot} {warnings : List Warning} :
      e.call.seat? = some seat → e.call.request = .unack p c s → p.id = id →
      id ∈ servedTo past seat → e.unacked? = some warnings →
      id ∉ ackedIds past seat ∨ warnings = [] → LeavesWith e past seat id

/-- A consumer does no more than acknowledge other entries, or have an acknowledgement refused. -/
def Spares (e : Event) (seat : Seat) (id : EntryId) : Prop :=
  e.call.seat? = some seat → (∃ p c s, e.call.request = .ack p c s) ∧ e.ackedBy? seat ≠ some id

theorem Spares.of_other {e : Event} {seat : Seat} {id : EntryId} (other : e.call.seat? ≠ some seat) :
    e.Spares seat id := fun own => absurd own other

theorem Spares.of_ack {e : Event} {seat : Seat} {id : EntryId} {p : Pointer} {c : Consumer}
    {s : Snapshot} (asked : e.call.request = .ack p c s) (other : p.id ≠ id) : e.Spares seat id := by
  refine fun own => ⟨⟨p, c, s, asked⟩, fun acked => ?_⟩
  cases done : e.call.queue.ack p c s { e.before with plan := e.call.plan } with
  | ok u st => exact other (Option.some.inj ((ackedBy?_of_ack own asked done).1.symm.trans acked))
  | error err st => cases (ackedBy?_of_refused asked done).1.symm.trans acked

theorem Spares.keeps {e : Event} {seat : Seat} {past : List Event} {id : EntryId}
    (spares : e.Spares seat id) (run : Run (Sound seat.queue) past) (found : e.before = storageAfter past)
    (name : e.call.queue.name = seat.queue)
    (follows : e.call.seat? = some seat → ∀ s, e.call.request.snapshot? = some s →
      Follows past seat s) :
    (Stores past seat id → Stores (e :: past) seat id) ∧
      (storageAfter (e :: past)).table.claims seat id = (storageAfter past).table.claims seat id := by
  have untouched (row : ∀ column, e.after.table.history seat.row column =
      (storageAfter past).table.history seat.row column) :
      (Stores past seat id → Stores (e :: past) seat id) ∧
        (storageAfter (e :: past)).table.claims seat id = (storageAfter past).table.claims seat id := by
    refine ⟨fun stores => ?_, row _⟩
    rwa [Stores, storageAfter, Table.stored, row]
  by_cases own : e.call.seat? = some seat
  · obtain ⟨⟨p, c, s, asked⟩, other⟩ := spares own
    obtain ⟨a, r, holds⟩ := (legible_of_run run).exists_holds
    rcases ack_cases_of_run run found own asked (follows own s (by rw [asked]; rfl)) holds with
      ⟨_, row⟩ | ⟨acked, holds', claims, _⟩
    · exact untouched row
    · have apart : id ≠ p.id := fun same => other (same ▸ acked)
      refine ⟨fun stores => ?_, claims id apart⟩
      have here : a = id := Option.some.inj (holds.active.symm.trans stores)
      rw [if_neg (here ▸ apart)] at holds'
      exact here ▸ holds'.active
  · exact untouched fun column => found ▸ Event.history_row name own column

/-- A consumer asks for an entry with a cursor that was never loaded. -/
structure Reloads (e : Event) (seat : Seat) (c : Consumer) (config : Config) (cursor : Cursor)
    (s : Snapshot) : Prop where
  own : e.call.seat? = some seat
  asked : e.call.request = .dequeue c config cursor s
  unloaded : cursor.loaded = false
  valid : config.validate = .ok ()
  admitted : c.validate config.partitioner = .ok ()

end Event

/-- A consumer that asks with a cursor that was never loaded is handed the active entry of its row, if it
sees the entry and not that it is retired. -/
theorem Queue.answers_reload {q : Queue} {c : Consumer} {config : Config} {s : Snapshot}
    {past : List Event} {a r : EntryId} {st : Storage} {cursor : Cursor}
    (footing : Footing q c s past a r st) (seen : st.table.RowSeen (q.seat c).row s)
    (unloaded : cursor.loaded = false) (valid : config.validate = .ok ())
    (admitted : c.validate config.partitioner = .ok ()) {entry : Entry} {v : Version}
    (appended : Enqueued past ⟨q.name, a⟩ entry v) (shown : s.sees v = true)
    (live : ¬ RetiredAt past ⟨q.name, a⟩ (s.sees ·)) :
    Answers (q.dequeue c config s) ⟨st, cursor⟩ fun d _ =>
      d = .served ⟨q.name, a⟩ ⟨entry.payload, {}⟩ := by
  refine .of_eq (dequeue_of_unloaded valid admitted unloaded) ?_
  refine (q.answers_load c config s cursor footing seen).bind ?_
  rintro _ ⟨st', k⟩ ⟨a', w, _, resumed, footing', _⟩
  have visible : ShownAt past ⟨q.name, a⟩ (s.sees ·) := ⟨v, shown, .inl ⟨entry, appended⟩⟩
  cases resumed with
  | idle none =>
      subst none
      exact absurd (footing.stored.allocated _ _ _ appended).2.1 (Nat.lt_irrefl _)
  | @again entry' _ _ _ appended' =>
      obtain ⟨rfl, _⟩ := footing.stored.once _ _ _ _ _ appended appended'
      refine Answers.bind_of_ok (q.refill_of_cached c config s rfl) ?_
      exact (q.answers_handOut c config s _ footing').imp fun _ _ handed => handed.2.1
  | waiting _ _ hidden => exact absurd visible hidden
  | cleared _ why => exact (why.elim live fun ⟨_, hidden⟩ => hidden visible).elim

namespace Attentive

variable {seat : Seat} {past : List Event} {e : Event} {id : EntryId} {c : Consumer} {config : Config}
  {cursor : Cursor} {s : Snapshot} {p : Pointer}

private theorem sound_run (run : Run (Attentive seat) past) : Run (Sound seat.queue) past :=
  run.mono fun _ _ _ fits => fits.1

private theorem footing (run : Run (Attentive seat) (e :: past)) (own : e.call.seat? = some seat)
    (asks : e.call.request.consumer? = some c) (reads : e.call.request.snapshot? = some s) :
    e.call.queue.seat c = seat ∧ Follows past seat s ∧ ∃ a r, (storageAfter past).table.Holds seat a r ∧
      Footing e.call.queue c s past a r { e.before with plan := e.call.plan } ∧
      e.before.table.RowSeen seat.row s := by
  obtain ⟨earlier, fits, found⟩ := Run.cons_iff.1 run
  have here := Call.seat_eq own asks
  obtain ⟨calm, follows, _⟩ := fits.2 own
  have legible : (storageAfter past).table.Bears seat Column.Legible := legible_of_run (sound_run earlier)
  obtain ⟨a, r, holds⟩ := legible.exists_holds
  subst here
  exact ⟨rfl, follows s reads, a, r, holds,
    footing_of_run (sound_run earlier) found calm (follows s reads) holds⟩

private theorem of_dequeue (run : Run (Attentive seat) (e :: past)) (attended : Attended seat past)
    (own : e.call.seat? = some seat) (asked : e.call.request = .dequeue c config cursor s) :
    e.outcome.cursor.Genuine past seat.queue (s.sees ·) ∧ ∀ p x, e.delivery? = some (.served p x) →
      HandedOver e.call.queue c config s past p x e.after.table := by
  obtain ⟨_, fits, _⟩ := Run.cons_iff.1 run
  obtain ⟨here, follows, a, r, _, footing, seen⟩ :=
    footing run own (by rw [asked]; rfl) (by rw [asked]; rfl)
  subst here
  have genuine : cursor.Genuine past e.call.queue.name (s.sees ·) := by
    rcases (fits.2 own).2.2 c config cursor s asked with ⟨f, mem, left⟩ | genuine
    · exact (attended.genuine f mem cursor left).mono List.suffix_rfl fun _ => follows.sees
    · exact genuine
  have ends := @Queue.genuine_dequeue e.call.queue c config s past
    ⟨{ e.before with plan := e.call.plan }, cursor⟩ a r footing seen genuine
  cases done : e.call.queue.dequeue c config s ⟨{ e.before with plan := e.call.plan }, cursor⟩ with
  | ok d t =>
      obtain ⟨delivers, after⟩ := Event.delivers_of_ok own asked done
      obtain ⟨left, handed⟩ := ends.of_ok done
      refine ⟨delivers.cursor ▸ left, fun p x served => ?_⟩
      rw [delivers.delivery?] at served
      rw [after]
      exact handed p x (Option.some.inj served)
  | error err t =>
      obtain ⟨nothing, _, left⟩ := Event.servedTo?_of_error asked done
      refine ⟨left ▸ ends.of_error done, fun p x served => ?_⟩
      rw [nothing] at served
      cases served

private theorem next_genuine (run : Run (Attentive seat) (e :: past)) (attended : Attended seat past) :
    ∀ f ∈ e :: past, ∀ k, f.cursorOf? seat = some k →
      k.Genuine (e :: past) seat.queue (Known (e :: past) seat) := by
  have part : past <:+ e :: past := List.suffix_cons e past
  intro f mem k left
  rcases List.mem_cons.1 mem with rfl | mem
  · obtain ⟨own, c, config, cursor, s, asked⟩ := Event.dequeue_of_cursorOf? left
    cases (Event.cursorOf?_of_dequeue own asked).symm.trans left
    exact (of_dequeue run attended own asked).1.mono part
      fun _ => known_of_sees own (by rw [asked]; rfl)
  · exact (attended.genuine f mem k left).mono part fun _ known => known.cons

private theorem next_delivered (run : Run (Attentive seat) (e :: past)) (attended : Attended seat past) :
    ∀ f ∈ e :: past, f.call.seat? = some seat → ∀ p x, f.delivery? = some (.served p x) →
      p.queue = seat.queue ∧ ∃ entry v, Known (e :: past) seat v ∧ Enqueued (e :: past) p entry v ∧
        x = ⟨entry.payload, {}⟩ := by
  intro f mem own p x served
  rcases List.mem_cons.1 mem with rfl | mem
  · obtain ⟨c, config, cursor, s, asked⟩ := Event.exists_dequeue served
    have here := Call.seat_eq own (by rw [asked]; rfl)
    obtain ⟨name, ⟨entry, v, seen, appended, payload⟩, _, _⟩ :=
      (of_dequeue run attended own asked).2 p x served
    exact ⟨name.trans (congrArg Seat.queue here), entry, v,
      known_of_sees own (by rw [asked]; rfl) seen, appended.cons, payload⟩
  · obtain ⟨name, entry, v, known, appended, payload⟩ := attended.delivered f mem own p x served
    exact ⟨name, entry, v, known.cons, appended.cons, payload⟩

private theorem next_acked (run : Run (Attentive seat) (e :: past)) (attended : Attended seat past) :
    (storageAfter (e :: past)).table.Bears seat fun column x => ∀ id, column = .claim id →
      x = ClaimState.acked.encode → id ∈ ackedIds (e :: past) seat := by
  obtain ⟨_, fits, found⟩ := Run.cons_iff.1 run
  have before : e.before.table.Bears seat fun column x => ∀ id, column = .claim id →
      x = ClaimState.acked.encode → id ∈ ackedIds (e :: past) seat := by
    rw [found]
    exact attended.acked.imp fun column x holds id same value =>
      (List.sublist_cons_self e past).filterMap _ |>.subset (holds id same value)
  refine Event.bears fits.1.1 before (fun _ _ column x _ written id same value => ?_)
    (fun id acked => ⟨fun other same _ => ?_, nofun⟩) fun _ p _ _ _ => ⟨fun _ _ value => ?_, nofun⟩
  · subst same
    cases written.symm.trans value
  · cases same
    exact List.mem_filterMap.2 ⟨e, List.mem_cons_self, acked⟩
  · cases value

theorem attended (run : Run (Attentive seat) past) : Attended seat past := by
  induction run with
  | start =>
      exact ⟨fun _ mem => absurd mem List.not_mem_nil, fun _ mem => absurd mem List.not_mem_nil, .start⟩
  | next earlier fits ih =>
      have run := Run.next earlier fits
      exact ⟨next_genuine run ih, next_delivered run ih, next_acked run ih⟩

private theorem stores_of_leavesWith (run : Run (Attentive seat) (e :: past))
    (left : e.LeavesWith past seat id) :
    Stores (e :: past) seat id ∧ id ∈ servedTo (e :: past) seat := by
  obtain ⟨earlier, fits, found⟩ := Run.cons_iff.1 run
  cases left with
  | handed served =>
      obtain ⟨own, delivery, answered, pointer⟩ := Event.own_of_servedTo? served
      obtain ⟨c, config, cursor, s, asked⟩ := Event.exists_dequeue answered
      have here := Call.seat_eq own (by rw [asked]; rfl)
      cases delivery with
      | empty => cases pointer
      | served p x =>
          cases pointer
          have active := ((of_dequeue run (attended earlier) own asked).2 p x answered).active
          rw [here] at active
          exact ⟨active, by rw [servedTo_cons_of_some served]; exact List.mem_cons_self⟩
  | @handedBack p c s warnings own asked same served answered unacked =>
      subst same
      obtain ⟨here, _, a, r, _, footing, seen⟩ :=
        footing run own (by rw [asked]; rfl) (by rw [asked]; rfl)
      subst here
      refine ⟨?_, servedTo_mono (List.suffix_cons e past) served⟩
      have performed : e.outcome = Outcome.ofStorage .unacked
          (e.call.queue.unack p c s { e.before with plan := e.call.plan }) := by
        simp only [Event.outcome, Call.perform, asked]
      rw [Event.unacked?, performed] at answered
      rcases e.call.queue.unack_cases c s p footing seen with
        ⟨err, st, failed⟩ | ⟨st, done, _, claimed⟩ | ⟨st, done, _, footing'⟩
      · rw [failed] at answered
        cases answered
      · -- An entry that was acknowledged is remarked on.
        rw [done] at answered
        cases answered
        have stored : (storageAfter past).table.stored (e.call.queue.seat c) (.claim p.id) =
            some ClaimState.acked.encode := found ▸ claimed
        have own : (Column.claim p.id).InConsumerRow := trivial
        have acked := (attended earlier).acked.stored own stored p.id rfl rfl
        rcases unacked with unacked | remarked
        · exact absurd acked unacked
        · cases remarked
      · have after : e.after = st := by rw [Event.after, performed, done]; rfl
        rw [Stores, storageAfter, after]
        exact footing'.holds.active

private theorem kept_of_spares (run : Run (Attentive seat) (e :: past)) (spares : e.Spares seat id) :
    (Stores past seat id → Stores (e :: past) seat id) ∧
      (storageAfter (e :: past)).table.claims seat id = (storageAfter past).table.claims seat id := by
  obtain ⟨earlier, fits, found⟩ := Run.cons_iff.1 run
  exact spares.keeps (sound_run earlier) found fits.1.1 fun own => (fits.2 own).2.1

private theorem kept_of_run {newer : List Event} (run : Run (Attentive seat) (newer ++ past))
    (spares : ∀ f ∈ newer, f.Spares seat id) :
    (Stores past seat id → Stores (newer ++ past) seat id) ∧
      (storageAfter (newer ++ past)).table.claims seat id =
        (storageAfter past).table.claims seat id := by
  induction newer with
  | nil => exact ⟨fun stores => stores, rfl⟩
  | cons e newer ih =>
      obtain ⟨stays, same⟩ := ih (Run.cons_iff.1 run).1 fun f mem => spares f (List.mem_cons_of_mem e mem)
      obtain ⟨next, last⟩ := kept_of_spares run (spares e List.mem_cons_self)
      exact ⟨fun stores => next (stays stores), last.trans same⟩

private theorem served_of_stores (run : Run (Attentive seat) (e :: past))
    (reloads : e.Reloads seat c config cursor s) (stores : Stores past seat id) {entry : Entry}
    {v : Version} (known : Known past seat v) (appended : Enqueued past ⟨seat.queue, id⟩ entry v)
    (live : ∀ v, ¬ Invalidated past ⟨seat.queue, id⟩ v) :
    e.delivery? = some (.served ⟨seat.queue, id⟩ ⟨entry.payload, {}⟩) := by
  obtain ⟨own, asked, unloaded, valid, admitted⟩ := reloads
  obtain ⟨here, follows, a, r, holds, footing, seen⟩ :=
    footing run own (by rw [asked]; rfl) (by rw [asked]; rfl)
  subst here
  obtain rfl : a = id := Option.some.inj (holds.active.symm.trans stores)
  have answers := @Queue.answers_reload e.call.queue c config s past a r
    { e.before with plan := e.call.plan } cursor footing seen unloaded valid admitted entry v appended
    (follows.sees known) fun ⟨w, _, retired⟩ => live w retired
  obtain ⟨d, t, done, rfl⟩ := answers
  exact (Event.delivers_of_ok own asked done).1.delivery?

private theorem acked_of_claimed (run : Run (Attentive seat) (e :: past))
    (own : e.call.seat? = some seat) (asked : e.call.request = .ack ⟨seat.queue, id⟩ c s)
    (claimed : ((storageAfter past).table.claims seat id).latest = some ClaimState.claimed.encode) :
    e.ackedBy? seat = some id := by
  obtain ⟨_, _, found⟩ := Run.cons_iff.1 run
  obtain ⟨here, _, a, r, _, footing, seen⟩ :=
    footing run own (by rw [asked]; rfl) (by rw [asked]; rfl)
  subst here
  rcases e.call.queue.ack_cases c s ⟨e.call.queue.name, id⟩ footing seen with
    ⟨err, st, _, _, refused⟩ | ⟨st, done, _⟩
  · exact absurd (found ▸ claimed) (refused rfl)
  · exact (Event.ackedBy?_of_ack own asked done).1

/-- A consumer that was left with an entry, and since then has neither asked for an entry nor handed one
back nor acknowledged that one, is handed the same entry with the same payload when it asks with a
cursor that was never loaded, unless the entry was retired.  In a shared group it may acknowledge the
entry then. -/
theorem redelivered_verbatim {newer : List Event} (run : Run (Attentive seat) (newer ++ e :: past))
    (left : e.LeavesWith past seat id) (spares : ∀ f ∈ newer, f.Spares seat id)
    (live : ∀ v, ¬ Invalidated (newer ++ e :: past) ⟨seat.queue, id⟩ v) :
    ∃ x, id ∈ servedTo (e :: past) seat ∧
      (∀ f ∈ e :: past, f.servedTo? seat = some id →
        f.delivery? = some (.served ⟨seat.queue, id⟩ x)) ∧
      ∀ next c config cursor s, Run (Attentive seat) (next :: (newer ++ e :: past)) →
        next.Reloads seat c config cursor s →
        next.delivery? = some (.served ⟨seat.queue, id⟩ x) ∧
        (config.partitioner = .roundRobin → ∀ last later c s,
          Run (Attentive seat) (last :: (later ++ next :: (newer ++ e :: past))) →
          (∀ f ∈ later, f.Spares seat id) → last.call.seat? = some seat →
          last.call.request = .ack ⟨seat.queue, id⟩ c s → last.ackedBy? seat = some id) := by
  have part : e :: past <:+ newer ++ e :: past := List.suffix_append newer (e :: past)
  have begun := run.of_suffix part
  obtain ⟨stores, served⟩ := stores_of_leavesWith begun left
  have delivered : ∀ f ∈ e :: past, f.servedTo? seat = some id → ∃ entry v,
      Known (e :: past) seat v ∧ Enqueued (e :: past) ⟨seat.queue, id⟩ entry v ∧
        f.delivery? = some (.served ⟨seat.queue, id⟩ ⟨entry.payload, {}⟩) := by
    intro f mem served
    obtain ⟨own, delivery, answered, pointer⟩ := Event.own_of_servedTo? served
    cases delivery with
    | empty => cases pointer
    | served p x =>
        cases pointer
        obtain ⟨name, entry, v, known, appended, rfl⟩ :=
          (attended begun).delivered f mem own p x answered
        have here : p = ⟨seat.queue, p.id⟩ := by rw [← name]
        exact ⟨entry, v, known, here ▸ appended, here ▸ answered⟩
  obtain ⟨first, mem, handed⟩ := List.mem_filterMap.1 served
  obtain ⟨entry, v, known, appended, _⟩ := delivered first mem handed
  refine ⟨⟨entry.payload, {}⟩, served, fun f mem handed => ?_,
    fun next c config cursor s run' reloads => ?_⟩
  · obtain ⟨entry', v', _, appended', answered⟩ := delivered f mem handed
    obtain ⟨rfl, _⟩ := (Stored.of_run (sound_run begun)).once _ _ _ _ _ appended appended'
    exact answered
  · obtain ⟨stays, _⟩ := kept_of_run run spares
    have answered := served_of_stores run' reloads (stays stores) (known.mono part)
      (appended.mono part) live
    refine ⟨answered, fun shared last later c' s' run'' spares' own asked => ?_⟩
    have handed := (of_dequeue run' (attended run) reloads.own reloads.asked).2 _ _ answered
    have here := Call.seat_eq reloads.own (by rw [reloads.asked]; rfl)
    have claimed := handed.claim (by rw [shared]; rfl)
    rw [here] at claimed
    refine acked_of_claimed run'' own asked ?_
    rw [(kept_of_run (Run.cons_iff.1 run'').1 spares').2]
    exact claimed

/-- A consumer is handed two entries, hands the first back, and acknowledges the second; other entries
are appended and retired, and another consumer asks too.  Then it asks without a cursor, and acknowledges
what it gets. -/
def handedBack : List Call :=
  let queue : Queue := ⟨"q", ⟨.roundRobin, 20⟩⟩
  let worker : Consumer := { group := 1, member := 0, groupSize := 1 }
  let other : Consumer := { group := 2, member := 0, groupSize := 1 }
  let left : Cursor := { loaded := true, active := some 1, readPointer := 1, writePointer := 2 }
  let ask (c : Consumer) (k : Cursor) : Request := .dequeue c ⟨.roundRobin, 20⟩ k (.upTo 10)
  [⟨queue, .ack ⟨"q", 1⟩ worker (.upTo 10), .none⟩, ⟨queue, ask worker .fresh, .none⟩,
    ⟨queue, .ack ⟨"q", 2⟩ worker (.upTo 10), .none⟩, ⟨queue, .ack ⟨"q", 3⟩ worker (.upTo 10), .none⟩,
    ⟨queue, ask other .fresh, .none⟩, ⟨queue, .invalidate ⟨"q", 3⟩ 4, .none⟩,
    ⟨queue, .enqueue ⟨[99], {}⟩ 3, .none⟩, ⟨queue, .unack ⟨"q", 1⟩ worker (.upTo 10), .none⟩,
    ⟨queue, ask worker left, .none⟩, ⟨queue, ask worker .fresh, .none⟩,
    ⟨queue, .enqueue ⟨[98], {}⟩ 2, .none⟩, ⟨queue, .enqueue ⟨[97], {}⟩ 1, .none⟩]

private theorem handedBack_fits {n : Nat} {call : Call} (mem : call ∈ handedBack)
    (may : ∀ c config cursor s, call.request = .dequeue c config cursor s →
      (∃ e ∈ replay (handedBack.drop n), e.cursorOf? ⟨"q", 1, 0⟩ = some cursor) ∨
        cursor.loaded = false) :
    Attentive ⟨"q", 1, 0⟩ (replay (handedBack.drop n)) call := by
  have calm : ∀ call ∈ handedBack, call.queue.name = "q" ∧ call.plan = .none := by
    simp [handedBack]
  have same : ∀ call ∈ handedBack, ∀ s, call.request.snapshot? = some s → s = .upTo 10 := by
    simp [handedBack, Request.snapshot?]
  refine ⟨⟨(calm call mem).1, fun _ => (calm call mem).2⟩, fun _ => ⟨(calm call mem).2,
    fun s reads => ?_, fun c config cursor s asked => (may c config cursor s asked).imp_right ?_⟩⟩
  · rw [same call mem s reads]
    exact follows_replay (by decide) fun call mem => same call (List.mem_of_mem_drop mem)
  · intro unloaded loaded
    exact absurd (loaded.symm.trans unloaded) (by simp)

private theorem handedBack_run : Run (Attentive ⟨"q", 1, 0⟩) (replay handedBack) := by
  have fits (n : Nat) {call : Call} (here : handedBack[n]? = some call)
      (asks : call.request.isDequeue = false) :
      Attentive ⟨"q", 1, 0⟩ (replay (handedBack.drop (n + 1))) call :=
    handedBack_fits (List.mem_of_getElem? here) fun c config cursor s asked => by
      rw [asked] at asks
      cases asks
  have asks (n : Nat) {c : Consumer} {config : Config} {cursor : Cursor} {s : Snapshot}
      (here : handedBack[n]? = some ⟨⟨"q", ⟨.roundRobin, 20⟩⟩, .dequeue c config cursor s, .none⟩)
      (may : (∃ e ∈ replay (handedBack.drop (n + 1)), e.cursorOf? ⟨"q", 1, 0⟩ = some cursor) ∨
        cursor.loaded = false) :
      Attentive ⟨"q", 1, 0⟩ (replay (handedBack.drop (n + 1)))
        ⟨⟨"q", ⟨.roundRobin, 20⟩⟩, .dequeue c config cursor s, .none⟩ :=
    handedBack_fits (List.mem_of_getElem? here) fun _ _ _ _ asked => by
      cases asked
      exact may
  refine .replay_cons (.replay_cons (.replay_cons (.replay_cons (.replay_cons (.replay_cons
    (.replay_cons (.replay_cons (.replay_cons (.replay_cons (.replay_cons (.replay_cons .start
      (fits 11 rfl rfl)) (fits 10 rfl rfl)) (asks 9 rfl (.inr rfl))) (asks 8 rfl (.inl ?_)))
      (fits 7 rfl rfl)) (fits 6 rfl rfl)) (fits 5 rfl rfl)) (asks 4 rfl (.inr rfl)))
      (fits 3 rfl rfl)) (fits 2 rfl rfl)) (asks 1 rfl (.inr rfl))) (fits 0 rfl rfl)
  exact ⟨_, List.mem_cons_self, by with_unfolding_all decide⟩

/-- In that run the entry that was handed back is handed out again with its payload, and acknowledged. -/
theorem handed_back_redelivered :
    ∃ last next earlier x, replay handedBack = last :: next :: earlier ∧
      next.delivery? = some (.served ⟨"q", 1⟩ x) ∧ x.payload = [97] ∧
      last.ackedBy? ⟨"q", 1, 0⟩ = some 1 := by
  have live (v : Version) : ¬ Invalidated (replay (handedBack.drop 2)) ⟨"q", 1⟩ v := by
    rintro ⟨e, mem, asked, _⟩
    have others : ∀ call ∈ handedBack, call.request ≠ .invalidate ⟨"q", 1⟩ v := by simp [handedBack]
    exact others e.call (List.mem_of_mem_drop (call_mem_of_mem_replay mem)) asked
  have part (n : Nat) := handedBack_run.of_suffix (replay_drop_suffix n handedBack)
  have spares : ∀ f ∈ (replay (handedBack.drop 2)).take 5, f.Spares ⟨"q", 1, 0⟩ 1 := by
    refine List.forall_mem_cons.2 ⟨.of_ack rfl (by decide), List.forall_mem_cons.2
      ⟨.of_ack rfl (by decide), List.forall_mem_cons.2 ⟨.of_other (by decide), List.forall_mem_cons.2
        ⟨.of_other nofun, List.forall_mem_cons.2 ⟨.of_other nofun, ?_⟩⟩⟩⟩⟩
    exact fun f mem => absurd mem List.not_mem_nil
  obtain ⟨x, _, same, again⟩ := @redelivered_verbatim ⟨"q", 1, 0⟩ (replay (handedBack.drop 8))
    ⟨⟨⟨"q", ⟨.roundRobin, 20⟩⟩, .unack ⟨"q", 1⟩ { group := 1, member := 0, groupSize := 1 } (.upTo 10),
      .none⟩, storageAfter (replay (handedBack.drop 8))⟩ 1 ((replay (handedBack.drop 2)).take 5)
    (part 2) (.handedBack rfl rfl rfl (by with_unfolding_all decide) (by with_unfolding_all decide)
      (.inr rfl)) spares live
  obtain ⟨served, acked⟩ := again _ _ _ _ _ (part 1) ⟨rfl, rfl, rfl, rfl, rfl⟩
  refine ⟨_, _, _, x, rfl, served, ?_, ?_⟩
  · have first := same _ (List.mem_cons_of_mem _ (List.mem_cons_of_mem _ List.mem_cons_self))
      (by with_unfolding_all decide)
    have payload : ((replay (handedBack.drop 9)).head?.bind (·.delivery?)).map
        (fun d => d.entry?.map (·.payload)) = some (some [97]) := by with_unfolding_all decide
    change (Event.delivery? _).map _ = _ at payload
    rw [first] at payload
    exact Option.some.inj (Option.some.inj payload)
  · exact acked rfl _ [] _ _ handedBack_run (fun f mem => absurd mem List.not_mem_nil) rfl rfl

end Attentive

end VersionedQueue
