import VersionedQueue.Proofs.Shared.Forfeited
import VersionedQueue.Proofs.Shared.Taking
import VersionedQueue.Proofs.Shared.Turn

/-!
# What a member of a shared group holds

The invariant of one member over all runs in which it keeps to the order of its snapshots.  Each id
that it has taken was handed to it, or was found retired, or is the one it waits for, or was forfeited.
The one it waits for is the active entry of its row, so that a reload takes it up again, unless the member
has acknowledged it.
-/

set_option autoImplicit false
set_option relaxedAutoImplicit false

namespace VersionedQueue

/-- An id that a member may acknowledge: one that it was handed or, where claims are checked, any. -/
def MayAck (past : List Event) (seat : Seat) (config : Config) (id : EntryId) : Prop :=
  id ∈ servedTo past seat ∨ config.partitioner = .roundRobin

/-- The calls of a queue, as far as one member of a shared group is concerned: the member keeps to the
order of its snapshots, and acknowledges what it was handed or where claims are checked. -/
def SharedOrderly (seat : Seat) (past : List Event) (call : Call) : Prop :=
  Orderly seat (fun _ config => config.partitioner = .roundRobin) past call ∧
    (call.seat? = some seat → ∀ p c s, call.request = .ack p c s →
      MayAck past seat (call.queue.configFor c) p.id)

/-- What a member of a shared group was handed, and what it has claims on, are ids that it took. -/
structure Rightful (seat : Seat) (past : List Event) : Prop where
  served_took : ∀ id ∈ servedTo past seat, Took past seat id
  served_known : ∀ id ∈ servedTo past seat, ∃ entry v, Known past seat v ∧
    Enqueued past ⟨seat.queue, id⟩ entry v
  claims : ∀ id v, ((storageAfter past).table.claims seat id).Has v → Took past seat id

/-- The active entry of a member of a shared group is what its requests left it with last, until it is
acknowledged or found retired. -/
structure KeepsActive (seat : Seat) (past : List Event) (active : EntryId) : Prop where
  active_took : active ≠ noEntry → Took past seat active
  active_left : active ≠ noEntry → lastLeft? past seat = some active
  active_last : active ≠ noEntry → ∀ id ∈ servedTo past seat, id ≤ active
  active_open : active ≠ noEntry → active ∈ servedTo past seat → active ∈ outstanding seat past
  left_active : ∀ id, lastLeft? past seat = some id → id ∈ outstanding seat past →
    active = id ∨ RetiredAt past ⟨seat.queue, id⟩ (Known past seat)

/-- What has become of an id that a member took, if the member is left with a pending id. -/
def Accounted (past : List Event) (seat : Seat) (pending : Option EntryId) (id : EntryId) : Prop :=
  id ∈ servedTo past seat ∨ RetiredAt past ⟨seat.queue, id⟩ (Known past seat) ∨ pending = some id ∨
    Forfeited past seat id

/-- What holds of a member of a shared group after a run, with the active entry and the read pointer
of its row. -/
structure Holding (seat : Seat) (past : List Event) (active readPointer : EntryId) : Prop extends
    Rightful seat past, KeepsActive seat past active where
  holds : (storageAfter past).table.Holds seat active readPointer
  rests : ∀ cursor, lastCursor? past seat = some cursor →
    cursor.AtRest seat.queue (storageAfter past).table
  accounted : ∀ id, Took past seat id → Accounted past seat (pendingOf past seat) id
  /-- The pending id is the active one unless it was acknowledged, was not handed out, and is the last
  that was taken. -/
  waits : ∀ id, pendingOf past seat = some id →
    active = (if id ∈ ackedSince seat past then noEntry else id) ∧ id ∉ servedTo past seat ∧
      Took past seat id ∧ ∀ other, Took past seat other → other ≤ id
  /-- A forfeited id was taken, and is neither handed out nor active nor pending. -/
  gone : ∀ id, Forfeited past seat id → Took past seat id ∧ id ∉ servedTo past seat ∧
    (active ≠ noEntry → id ≠ active) ∧ pendingOf past seat ≠ some id
  /-- No request of the member has seen anything of the pending id. -/
  hidden : ∀ id, pendingOf past seat = some id → ∀ e earlier s, e :: earlier <:+ past →
    e.call.seat? = some seat → e.call.request.isDequeue = true →
    e.call.request.snapshot? = some s → ¬ ShownAt earlier ⟨seat.queue, id⟩ (s.sees ·)

section Cons

variable {seat : Seat} {past : List Event} {e : Event} {a a' id : EntryId}

private theorem known_cons : ∀ v, Known past seat v → Known (e :: past) seat v :=
  fun _ known => known.cons

private theorem suffix_cons : past <:+ e :: past := List.suffix_cons e past

theorem Accounted.cons {pending : Option EntryId} (h : Accounted past seat pending id) :
    Accounted (e :: past) seat pending id := by
  rcases h with mem | retired | pends | forfeited
  · exact .inl (servedTo_mono suffix_cons mem)
  · exact .inr (.inl (retired.mono suffix_cons known_cons))
  · exact .inr (.inr (.inl pends))
  · exact .inr (.inr (.inr (forfeited_cons.2 (.inr forfeited))))

namespace Rightful

theorem of_unserved (h : Rightful seat past) (served : e.servedTo? seat = none)
    (claims : ∀ id v, (e.after.table.claims seat id).Has v →
      Took (e :: past) seat id ∨ ((storageAfter past).table.claims seat id).Has v) :
    Rightful seat (e :: past) := by
  have list : servedTo (e :: past) seat = servedTo past seat := servedTo_cons_of_none served
  refine ⟨?_, ?_, ?_⟩
  · intro id mem
    rw [list] at mem
    exact (h.served_took id mem).cons
  · intro id mem
    rw [list] at mem
    obtain ⟨entry, v, known, appended⟩ := h.served_known id mem
    exact ⟨entry, v, known.cons, appended.cons⟩
  · intro id v has
    rcases claims id v has with taken | before
    · exact taken
    · exact (h.claims id v before).cons

theorem of_served (h : Rightful seat past) (served : e.servedTo? seat = some id)
    (took : Took (e :: past) seat id)
    (known : ∃ entry v, Known (e :: past) seat v ∧ Enqueued past ⟨seat.queue, id⟩ entry v)
    (claims : ∀ other v, (e.after.table.claims seat other).Has v →
      Took (e :: past) seat other ∨ ((storageAfter past).table.claims seat other).Has v) :
    Rightful seat (e :: past) := by
  have list : servedTo (e :: past) seat = id :: servedTo past seat := servedTo_cons_of_some served
  refine ⟨?_, ?_, ?_⟩
  · intro other mem
    rw [list] at mem
    rcases List.mem_cons.1 mem with rfl | mem
    · exact took
    · exact (h.served_took other mem).cons
  · intro other mem
    rw [list] at mem
    rcases List.mem_cons.1 mem with rfl | mem
    · obtain ⟨entry, v, known, appended⟩ := known
      exact ⟨entry, v, known, appended.cons⟩
    · obtain ⟨entry, v, known, appended⟩ := h.served_known other mem
      exact ⟨entry, v, known.cons, appended.cons⟩
  · intro other v has
    rcases claims other v has with taken | before
    · exact taken
    · exact (h.claims other v before).cons

end Rightful

namespace KeepsActive

theorem of_left (left : e.leaves? seat = some id) (took : Took (e :: past) seat id)
    (last : ∀ other ∈ servedTo (e :: past) seat, other ≤ id)
    (out : id ∈ servedTo (e :: past) seat → id ∈ outstanding seat (e :: past)) :
    KeepsActive seat (e :: past) id where
  active_took _ := took
  active_left _ := lastLeft?_cons_of_some left
  active_last _ := last
  active_open _ := out
  left_active _ same _ :=
    .inl (Option.some.inj ((lastLeft?_cons_of_some left).symm.trans same))

theorem of_kept (h : KeepsActive seat past a) (served : e.servedTo? seat = none)
    (left : e.leaves? seat = none) (same : a' ≠ noEntry → a' = a)
    (stays : a' ≠ noEntry → a' ∈ outstanding seat past → a' ∈ outstanding seat (e :: past))
    (opened : ∀ id, id ∈ outstanding seat (e :: past) → id ∈ outstanding seat past ∧
      (a = id → a' = id ∨ RetiredAt (e :: past) ⟨seat.queue, id⟩ (Known (e :: past) seat))) :
    KeepsActive seat (e :: past) a' := by
  have list : servedTo (e :: past) seat = servedTo past seat := servedTo_cons_of_none served
  have stood : lastLeft? (e :: past) seat = lastLeft? past seat := lastLeft?_cons_of_none left
  refine ⟨?_, ?_, ?_, ?_, ?_⟩
  · intro some
    cases same some
    exact (h.active_took some).cons
  · intro some
    cases same some
    rw [stood]
    exact h.active_left some
  · intro some
    cases same some
    rw [list]
    exact h.active_last some
  · intro some mem
    rw [list] at mem
    refine stays some ?_
    cases same some
    exact h.active_open some mem
  · intro id last out
    rw [stood] at last
    obtain ⟨before, kept⟩ := opened id out
    rcases h.left_active id last before with here | retired
    · exact kept here
    · exact .inr (retired.mono suffix_cons known_cons)

end KeepsActive

end Cons

namespace Holding

variable {seat : Seat} {past : List Event} {e : Event} {a r : EntryId}

theorem start (seat : Seat) : Holding seat [] noEntry noEntry where
  holds := by
    refine ⟨?_, ?_⟩ <;> simp [Table.stored, storageAfter, Table.history, History.latest,
      History.empty, storedId?]
  rests _ last := by cases last
  served_took _ mem := by cases mem
  served_known _ mem := by cases mem
  accounted _ took := by
    obtain ⟨_, mem, _⟩ := took
    cases mem
  waits _ pending := by cases pending
  gone _ forfeited := by
    obtain ⟨_, _, within, _⟩ := forfeited
    cases List.suffix_nil.1 within
  hidden _ pending := by cases pending
  active_took some := absurd rfl some
  active_left some := absurd rfl some
  active_last some := absurd rfl some
  active_open some := absurd rfl some
  left_active _ left := by cases left
  claims _ _ has := by simp [Table.claims, storageAfter, Table.history, History.Has] at has

private theorem of_aside (h : Holding seat past a r) {a' : EntryId}
    (remains : a' = if e.ackedBy? seat = some a then noEntry else a)
    (holds : e.after.table.Holds seat a' r) (found : e.before = storageAfter past)
    (quiet : e.call.seat? = some seat → e.call.request.isDequeue = false)
    (took : ∀ id, Took (e :: past) seat id ↔ Took past seat id)
    (served : e.servedTo? seat = none) (cursor : e.cursorOf? seat = none)
    (claims : ∀ id v, (e.after.table.claims seat id).Has v →
      Took past seat id ∨ ((storageAfter past).table.claims seat id).Has v) :
    Holding seat (e :: past) a' r := by
  have list : servedTo (e :: past) seat = servedTo past seat := servedTo_cons_of_none served
  have pends : pendingOf (e :: past) seat = pendingOf past seat := pendingOf_cons_of_none cursor
  have left : e.leaves? seat = none := by simp [Event.leaves?, served, cursor]
  have out (id : EntryId) : id ∈ outstanding seat (e :: past) ↔
      id ∈ outstanding seat past ∧ e.ackedBy? seat ≠ some id := mem_outstanding_cons served
  have same (some : a' ≠ noEntry) : e.ackedBy? seat ≠ Option.some a ∧ a' = a := by
    by_cases acked : e.ackedBy? seat = Option.some a
    · exact absurd (remains.trans (if_pos acked)) some
    · exact ⟨acked, remains.trans (if_neg acked)⟩
  have keeps : KeepsActive seat (e :: past) a' := by
    refine h.toKeepsActive.of_kept served left (fun some => (same some).2) (fun some before => ?_)
      fun id after => ⟨((out id).1 after).1, ?_⟩
    · obtain ⟨unacked, rfl⟩ := same some
      exact (out _).2 ⟨before, unacked⟩
    · rintro rfl
      exact .inl (remains.trans (if_neg ((out a).1 after).2))
  refine ⟨h.toRightful.of_unserved served fun id v has => (claims id v has).imp_left Took.cons, keeps,
    holds, ?_, ?_, ?_, ?_, ?_⟩
  · intro k last
    rw [lastCursor?_cons_of_none cursor] at last
    obtain ⟨cache, remembered⟩ := h.rests k last
    refine ⟨cache, Int.le_trans remembered ?_⟩
    rw [← found]
    exact e.standing_le _
  · intro id taken
    rw [pends]
    exact (h.accounted id ((took id).1 taken)).cons
  · intro id pending
    rw [pends] at pending
    obtain ⟨stored, unserved, taken, last⟩ := h.waits id pending
    rw [list]
    refine ⟨?_, unserved, taken.cons, fun other taken => last other ((took other).1 taken)⟩
    rw [remains, stored]
    by_cases before : id ∈ ackedSince seat past <;> simp [mem_ackedSince_cons cursor, before]
  · intro id forfeited
    obtain ⟨taken, unserved, apart, free⟩ := h.gone id ((forfeited_cons_of_none cursor).1 forfeited)
    rw [list, pends]
    refine ⟨taken.cons, unserved, fun some => ?_, free⟩
    obtain ⟨_, rfl⟩ := same some
    exact apart some
  · intro id pending f earlier s within own asks reads
    rw [pends] at pending
    rcases List.suffix_cons_iff.1 within with same | within
    · cases same
      simp [quiet own] at asks
    · exact h.hidden id pending f earlier s within own asks reads

private theorem of_same_row (h : Holding seat past a r) (found : e.before = storageAfter past)
    (row : ∀ column, e.after.table.history seat.row column =
      (storageAfter past).table.history seat.row column)
    (quiet : e.call.seat? = some seat → e.call.request.isDequeue = false)
    (took : ∀ id, Took (e :: past) seat id ↔ Took past seat id)
    (served : e.servedTo? seat = none) (acked : e.ackedBy? seat = none)
    (cursor : e.cursorOf? seat = none) : Holding seat (e :: past) a r := by
  have holds : e.after.table.Holds seat a r :=
    h.holds.of_stored (by simp only [Table.stored, row]) (by simp only [Table.stored, row])
  refine h.of_aside (by simp [acked]) holds found quiet took served cursor fun id v has => ?_
  rw [Table.claims, row] at has
  exact .inr has

private theorem of_other (h : Holding seat past a r) (found : e.before = storageAfter past)
    (name : e.call.queue.name = seat.queue) (other : e.call.seat? ≠ some seat) :
    Holding seat (e :: past) a r :=
  h.of_same_row found (fun column => found ▸ Event.history_row name other column)
    (fun own => absurd own other) (fun _ => took_cons_of_other other)
    (Event.servedTo?_of_other other) (Event.ackedBy?_of_other other)
    (Event.cursorOf?_of_other other)

private theorem took_of_mayAck (h : Holding seat past a r) {config : Config} {id : EntryId}
    (may : MayAck past seat config id) (claimed : config.partitioner.isDisjoint = false →
      ((storageAfter past).table.claims seat id).latest ≠ none) : Took past seat id := by
  rcases may with handed | shared
  · exact h.served_took id handed
  · obtain ⟨v, has⟩ := History.exists_has_of_latest (claimed (by rw [shared]; rfl))
    exact h.claims id v has

private theorem of_ack (h : Holding seat past a r) (run : Run (Steady seat.queue) past)
    (found : e.before = storageAfter past)
    (own : e.call.seat? = some seat) {p : Pointer} {c : Consumer} {s : Snapshot}
    (asked : e.call.request = .ack p c s) (follows : Follows past seat s)
    (may : MayAck past seat (e.call.queue.configFor c) p.id) :
    ∃ a', Holding seat (e :: past) a' r := by
  have unserved : e.servedTo? seat = none := Event.servedTo?_of_ack asked
  have unasked : e.cursorOf? seat = none := Event.cursorOf?_of_ack asked
  have quiet : e.call.request.isDequeue = false := by rw [asked]; rfl
  have name : e.call.queue.name = seat.queue := Call.name_eq own
  have group (id : EntryId) : Took (e :: past) seat id ↔ Took past seat id :=
    took_cons_of_not_touches name (by simp [asked, Request.Touches, Queue.consumerRow])
  rcases ack_cases_of_run run.sound found own asked follows h.holds with
    ⟨unacked, row⟩ | ⟨acked, holds, claims, claimed⟩
  · exact ⟨a, h.of_same_row found row (fun _ => quiet) group unserved unacked unasked⟩
  · refine ⟨_, h.of_aside (by simp [acked, eq_comm]) holds found (fun _ => quiet) group unserved unasked
      fun id v has => ?_⟩
    by_cases current : id = p.id
    · exact .inl (current ▸ h.took_of_mayAck may claimed)
    · rw [claims id current] at has
      exact .inr has

private theorem active_of_waits (h : Holding seat past a r) {id : EntryId} (some : a ≠ noEntry)
    (pends : pendingOf past seat = Option.some id) : a = id ∧ id ∉ ackedSince seat past := by
  have stored := (h.waits id pends).1
  split at stored
  · exact absurd stored some
  · exact ⟨stored, ‹_›⟩

theorem claimed_of_start (h : Holding seat past a r) (run : Run (Steady seat.queue) past)
    {s : Snapshot} {cursor : Cursor} {a₀ : EntryId} {p₀ p' : Option EntryId} {group group' : Int}
    (follows : Follows past seat s)
    (last : cursor.loaded = true → lastCursor? past seat = some cursor)
    (begins : SharedStart seat.queue past s a cursor a₀ p₀)
    (claimed : Claimed seat.queue past s p₀ group p' group') :
    Claimed seat.queue past s (resumes past seat cursor) group p' group' ∧
      (a₀ = a ∨ a₀ = noEntry ∧ RetiredAt past ⟨seat.queue, a⟩ (s.sees ·)) := by
  cases begins with
  | kept loaded =>
      rw [resumes_of_loaded loaded, pendingOf, last loaded]
      exact ⟨claimed, .inl rfl⟩
  | idle fresh none =>
      have nothing : resumes past seat cursor = Option.none := by
        cases pends : pendingOf past seat with
        | none => exact resumes_of_none pends
        | some id =>
            -- The row has lost the pending id, and so it was acknowledged.
            obtain ⟨stored, _, taken, _⟩ := h.waits id pends
            refine resumes_of_acked fresh pends (Classical.byContradiction fun unacked => ?_)
            rw [if_neg unacked] at stored
            exact took_pos run taken (stored.symm.trans none)
      rw [nothing]
      exact ⟨claimed, .inl none.symm⟩
  | waiting _ some unseen =>
      have pends : pendingOf past seat = Option.some a := by
        rcases h.accounted a (h.active_took some) with mem | ⟨v, known, retired⟩ | pends | forfeited
        · obtain ⟨entry, v, known, appended⟩ := h.served_known a mem
          exact absurd ⟨v, follows.sees known, .inl ⟨entry, appended⟩⟩ unseen
        · exact absurd ⟨v, follows.sees known, .inr retired⟩ unseen
        · exact pends
        · exact absurd rfl ((h.gone a forfeited).2.2.1 some)
      rw [resumes_of_unacked pends (h.active_of_waits some pends).2]
      exact ⟨claimed, .inl rfl⟩
  | cleared _ some retired =>
      refine ⟨?_, .inr ⟨rfl, retired⟩⟩
      cases again : resumes past seat cursor with
      | none => exact claimed
      | some id =>
          obtain ⟨rfl, _⟩ := h.active_of_waits some (pendingOf_of_resumes again)
          refine ⟨claimed.forward, fun other held => ?_, fun other same => ?_, claimed.taken⟩
          · rcases claimed.latest other held with ⟨none, _⟩ | later
            · cases none
            · exact .inr later
          · cases same
            exact .inr retired

private theorem claim_last (h : Holding seat past a r) (run : Run (Steady seat.queue) past)
    (own : e.call.seat? = some seat) (found : e.before = storageAfter past) {s : Snapshot}
    {id : EntryId} {group group' : Int}
    (before : (storageAfter past).table.standing seat.groupRow = group)
    (after : e.after.table.standing seat.groupRow = group')
    {cursor : Cursor}
    (claimed : Claimed seat.queue past s (resumes past seat cursor) group (some id) group') :
    id ∉ servedTo past seat ∧ Took (e :: past) seat id ∧
      ∀ other, Took (e :: past) seat other → other ≤ id := by
  have early {other : EntryId} (taken : Took past seat other) : (other.toNat : Int) ≤ group :=
    before ▸ took_le run taken
  have upTo {other : EntryId} (taken : Took (e :: past) seat other) :
      Took past seat other ∨ (other.toNat : Int) ≤ group' ∧ group < other.toNat := by
    rcases took_cons.1 taken with ⟨_, above, below⟩ | taken
    · rw [found, before] at above
      exact .inr ⟨after ▸ below, above⟩
    · exact .inl taken
  rcases claimed.latest id rfl with ⟨pends, same⟩ | ⟨above, latest⟩
  · obtain ⟨_, unserved, taken, last⟩ := h.waits id (pendingOf_of_resumes pends)
    refine ⟨unserved, taken.cons, fun other took => ?_⟩
    rcases upTo took with before | ⟨below, above⟩
    · exact last other before
    · omega
  · refine ⟨fun mem => ?_, took_cons.2 (.inl ⟨own, ?_, ?_⟩), fun other took => ?_⟩
    · have below := early (h.served_took id mem)
      omega
    · rw [found, before]
      exact above
    · rw [after]
      exact Int.le_of_eq latest
    · rw [UInt64.le_iff_toNat_le]
      rcases upTo took with taken | ⟨below, _⟩
      · have below := early taken
        omega
      · omega

private theorem claim_accounts (h : Holding seat past a r) (found : e.before = storageAfter past)
    {c : Consumer} {config : Config} {cursor : Cursor} {s : Snapshot} {p' : Option EntryId}
    {group group' : Int} (own : e.call.seat? = some seat)
    (asked : e.call.request = .dequeue c config cursor s)
    (before : (storageAfter past).table.standing seat.groupRow = group)
    (after : e.after.table.standing seat.groupRow = group')
    (seen : ∀ v, s.sees v → Known (e :: past) seat v)
    (claimed : Claimed seat.queue past s (resumes past seat cursor) group p' group') {id : EntryId}
    (took : Took (e :: past) seat id) : Accounted (e :: past) seat p' id := by
  have upTo (h : p' = some id ∨ RetiredAt past ⟨seat.queue, id⟩ (s.sees ·)) :
      Accounted (e :: past) seat p' id := by
    rcases h with still | retired
    · exact .inr (.inr (.inl still))
    · exact .inr (.inl (retired.mono suffix_cons seen))
  rcases took_cons.1 took with ⟨_, above, below⟩ | taken
  · rw [found, before] at above
    rw [after] at below
    exact upTo (claimed.taken id above below)
  · rcases (h.accounted id taken).cons (e := e) with mem | retired | pends | forfeited
    · exact .inl mem
    · exact .inr (.inl retired)
    · cases loaded : cursor.loaded with
      | true => exact upTo (claimed.kept id ((resumes_of_loaded loaded).trans pends))
      | false =>
          by_cases acked : id ∈ ackedSince seat past
          · have forfeits : e.Forfeits past seat id :=
              ⟨own, c, config, cursor, s, asked, loaded, pends, acked⟩
            exact .inr (.inr (.inr (forfeited_cons.2 (.inl forfeits))))
          · exact upTo (claimed.kept id (resumes_of_unacked pends acked))
    · exact .inr (.inr (.inr forfeited))

private theorem again_accounts (h : Holding seat past a r) (found : e.before = storageAfter past)
    (stays : e.after.table.standing seat.groupRow = (storageAfter past).table.standing seat.groupRow)
    (some : a ≠ noEntry) {id : EntryId} (took : Took (e :: past) seat id) :
    Accounted (e :: past) seat (Option.some a) id := by
  rcases took_cons.1 took with ⟨_, above, below⟩ | taken
  · rw [found] at above
    rw [stays] at below
    omega
  · rcases (h.accounted id taken).cons (e := e) with mem | retired | waits | forfeited
    · exact .inl mem
    · exact .inr (.inl retired)
    · exact .inr (.inr (.inl (congrArg Option.some (h.active_of_waits some waits).1)))
    · exact .inr (.inr (.inr forfeited))

private theorem unresumed_of_forfeited (h : Holding seat past a r) {c : Consumer} {config : Config}
    {cursor : Cursor} {s : Snapshot} (asked : e.call.request = .dequeue c config cursor s)
    {id : EntryId} (forfeited : Forfeited (e :: past) seat id) :
    Took past seat id ∧ id ∉ servedTo past seat ∧ (a ≠ noEntry → id ≠ a) ∧
      resumes past seat cursor ≠ some id := by
  rcases forfeited_cons.1 forfeited with ⟨_, _, _, _, _, asked', fresh, pends, acked⟩ | before
  · cases asked.symm.trans asked'
    obtain ⟨stored, unserved, taken, _⟩ := h.waits id pends
    rw [if_pos acked] at stored
    refine ⟨taken, unserved, fun some => absurd stored some, ?_⟩
    rw [resumes_of_acked fresh pends acked]
    exact (Option.some_ne_none id).symm
  · obtain ⟨taken, unserved, apart, free⟩ := h.gone id before
    exact ⟨taken, unserved, apart, mt pendingOf_of_resumes free⟩

private theorem unclaimed_of_forfeited (h : Holding seat past a r) (run : Run (Steady seat.queue) past)
    {c : Consumer} {config : Config} {cursor : Cursor} {s : Snapshot}
    (asked : e.call.request = .dequeue c config cursor s) {id new : EntryId} {group group' : Int}
    (before : (storageAfter past).table.standing seat.groupRow = group)
    (claimed : Claimed seat.queue past s (resumes past seat cursor) group (some new) group')
    (forfeited : Forfeited (e :: past) seat id) :
    Took past seat id ∧ id ∉ servedTo past seat ∧ id ≠ new := by
  obtain ⟨taken, unserved, _, free⟩ := h.unresumed_of_forfeited asked forfeited
  refine ⟨taken, unserved, ?_⟩
  rintro rfl
  rcases claimed.latest id rfl with ⟨again, _⟩ | ⟨above, _⟩
  · exact free again
  · have below : (id.toNat : Int) ≤ group := before ▸ took_le run taken
    omega

private theorem pendingOf_cons {delivery : Delivery} {k : Cursor} (h : e.Delivers seat delivery k) :
    pendingOf (e :: past) seat = k.pending := by
  rw [pendingOf, lastCursor?_cons_of_some h.cursorOf?, Option.bind_some]

private theorem rests_of_delivers {delivery : Delivery} {k : Cursor} (h : e.Delivers seat delivery k)
    (rest : k.AtRest seat.queue e.after.table) (cursor : Cursor)
    (last : lastCursor? (e :: past) seat = some cursor) :
    cursor.AtRest seat.queue (storageAfter (e :: past)).table := by
  rw [lastCursor?_cons_of_some h.cursorOf?] at last
  cases last
  exact rest

private theorem claimed_or_before {id : EntryId} (took : Took (e :: past) seat id)
    (claims : ∀ other v, other ≠ id → (e.after.table.claims seat other).Has v →
      ((storageAfter past).table.claims seat other).Has v) (other : EntryId) (v : Version)
    (has : (e.after.table.claims seat other).Has v) :
    Took (e :: past) seat other ∨ ((storageAfter past).table.claims seat other).Has v := by
  by_cases same : other = id
  · exact .inl (same ▸ took)
  · exact .inr (claims other v same has)

private theorem of_served (h : Holding seat past a r) {id r' : EntryId} {entry : Entry} {k : Cursor}
    (delivers : e.Delivers seat (.served ⟨seat.queue, id⟩ entry) k)
    (holds : e.after.table.Holds seat id r') (rest : k.AtRest seat.queue e.after.table)
    (free : k.pending = none) (took : Took (e :: past) seat id)
    (above : ∀ other ∈ servedTo past seat, other ≤ id)
    (known : ∃ entry v, Known (e :: past) seat v ∧ Enqueued past ⟨seat.queue, id⟩ entry v)
    (accounts : ∀ other, Took (e :: past) seat other → Accounted (e :: past) seat (some id) other)
    (gone : ∀ other, Forfeited (e :: past) seat other →
      Took past seat other ∧ other ∉ servedTo past seat ∧ other ≠ id)
    (claims : ∀ other v, other ≠ id → (e.after.table.claims seat other).Has v →
      ((storageAfter past).table.claims seat other).Has v) :
    Holding seat (e :: past) id r' := by
  have served : e.servedTo? seat = some id := delivers.servedTo?
  have list : servedTo (e :: past) seat = id :: servedTo past seat := servedTo_cons_of_some served
  have pends : pendingOf (e :: past) seat = none := (pendingOf_cons delivers).trans free
  have left : e.leaves? seat = some id := by simp [Event.leaves?, served]
  have handed : Rightful seat (e :: past) :=
    h.toRightful.of_served served took known (claimed_or_before took claims)
  have keeps : KeepsActive seat (e :: past) id := by
    refine .of_left left took (fun other mem => ?_) fun _ => ?_
    · rw [list] at mem
      rcases List.mem_cons.1 mem with rfl | mem
      · exact UInt64.le_refl _
      · exact above other mem
    · rw [outstanding_cons_of_served served]
      exact List.mem_cons_self
  refine ⟨handed, keeps, holds, rests_of_delivers delivers rest, ?_, ?_, ?_, ?_⟩
  · intro other taken
    rw [pends]
    rcases accounts other taken with mem | retired | same | forfeited
    · exact .inl mem
    · exact .inr (.inl retired)
    · cases same
      exact .inl (list ▸ List.mem_cons_self)
    · exact .inr (.inr (.inr forfeited))
  · intro other same
    rw [pends] at same
    cases same
  · intro other forfeited
    obtain ⟨taken, unserved, apart⟩ := gone other forfeited
    rw [list, pends]
    exact ⟨taken.cons, List.not_mem_cons_of_ne_of_not_mem apart unserved, fun _ => apart,
      fun same => by cases same⟩
  · intro other same
    rw [pends] at same
    cases same

private theorem of_waiting (h : Holding seat past a r) {id r' : EntryId} {k : Cursor} {s : Snapshot}
    (delivers : e.Delivers seat .empty k) (reads : e.call.request.snapshot? = some s)
    (follows : Follows past seat s) (unseen : ¬ ShownAt past ⟨seat.queue, id⟩ (s.sees ·))
    (holds : e.after.table.Holds seat id r') (rest : k.AtRest seat.queue e.after.table)
    (pending : k.pending = some id) (unserved : id ∉ servedTo past seat)
    (took : Took (e :: past) seat id) (last : ∀ other, Took (e :: past) seat other → other ≤ id)
    (accounts : ∀ other, Took (e :: past) seat other → Accounted (e :: past) seat (some id) other)
    (gone : ∀ other, Forfeited (e :: past) seat other →
      Took past seat other ∧ other ∉ servedTo past seat ∧ other ≠ id)
    (claims : ∀ other v, other ≠ id → (e.after.table.claims seat other).Has v →
      ((storageAfter past).table.claims seat other).Has v) :
    Holding seat (e :: past) id r' := by
  have nothing : e.servedTo? seat = none := delivers.servedTo?
  have list : servedTo (e :: past) seat = servedTo past seat := servedTo_cons_of_none nothing
  have pends : pendingOf (e :: past) seat = some id := (pendingOf_cons delivers).trans pending
  have left : e.leaves? seat = some id := by
    simp [Event.leaves?, nothing, delivers.cursorOf?, pending]
  have handed : Rightful seat (e :: past) :=
    h.toRightful.of_unserved nothing (claimed_or_before took claims)
  have keeps : KeepsActive seat (e :: past) id := by
    refine .of_left left took (fun other mem => ?_) fun mem => ?_
    · exact last other (handed.served_took other mem)
    · rw [list] at mem
      exact absurd mem unserved
  refine ⟨handed, keeps, holds, rests_of_delivers delivers rest, ?_, ?_, ?_, ?_⟩
  · intro other taken
    rw [pends]
    exact accounts other taken
  · intro other same
    rw [pends] at same
    cases same
    rw [list, ackedSince_cons_of_some delivers.cursorOf?]
    exact ⟨rfl, unserved, took, last⟩
  · intro other forfeited
    obtain ⟨taken, unserved, apart⟩ := gone other forfeited
    rw [list, pends]
    exact ⟨taken.cons, unserved, fun _ => apart, fun same => apart (Option.some.inj same).symm⟩
  · intro other same f earlier s' within own asks reads' shown
    rw [pends] at same
    cases same
    -- An earlier snapshot of the member saw no more than the one that shows nothing of the id.
    rcases List.suffix_cons_iff.1 within with same | within
    · cases same
      cases reads.symm.trans reads'
      exact unseen shown
    · have seen := (follows f (within.subset List.mem_cons_self) own s' reads').1
      exact unseen (shown.mono ((List.suffix_cons f earlier).trans within) seen)

private theorem of_caughtUp (h : Holding seat past a r) {a' r' : EntryId} {k : Cursor}
    (delivers : e.Delivers seat .empty k)
    (active : a' = a ∨ a' = noEntry ∧
      RetiredAt (e :: past) ⟨seat.queue, a⟩ (Known (e :: past) seat))
    (holds : e.after.table.Holds seat a' r') (rest : k.AtRest seat.queue e.after.table)
    (free : k.pending = none)
    (accounts : ∀ other, Took (e :: past) seat other → Accounted (e :: past) seat none other)
    (gone : ∀ other, Forfeited (e :: past) seat other →
      Took past seat other ∧ other ∉ servedTo past seat ∧ (a ≠ noEntry → other ≠ a))
    (claims : ∀ other v, (e.after.table.claims seat other).Has v →
      ((storageAfter past).table.claims seat other).Has v) :
    Holding seat (e :: past) a' r' := by
  have nothing : e.servedTo? seat = none := delivers.servedTo?
  have list : servedTo (e :: past) seat = servedTo past seat := servedTo_cons_of_none nothing
  have still : outstanding seat (e :: past) = outstanding seat past :=
    outstanding_cons_of_none nothing delivers.ackedBy?
  have pends : pendingOf (e :: past) seat = none := (pendingOf_cons delivers).trans free
  have left : e.leaves? seat = none := by
    simp [Event.leaves?, nothing, delivers.cursorOf?, free]
  have same (some : a' ≠ noEntry) : a' = a := active.resolve_right fun gone => some gone.1
  have keeps : KeepsActive seat (e :: past) a' := by
    refine h.toKeepsActive.of_kept nothing left same (fun _ out => still ▸ out) fun id out =>
      ⟨still ▸ out, ?_⟩
    rintro rfl
    exact active.imp_right And.right
  refine ⟨h.toRightful.of_unserved nothing fun other v has => .inr (claims other v has), keeps, holds,
    rests_of_delivers delivers rest, ?_, ?_, ?_, ?_⟩
  · intro other taken
    rw [pends]
    exact accounts other taken
  · intro other same
    rw [pends] at same
    cases same
  · intro other forfeited
    obtain ⟨taken, unserved, apart⟩ := gone other forfeited
    rw [list, pends]
    refine ⟨taken.cons, unserved, fun some => ?_, fun same => by cases same⟩
    rw [same some]
    exact apart (same some ▸ some)
  · intro other same
    rw [pends] at same
    cases same

private theorem turn (h : Holding seat past a r) (run : Run (Steady seat.queue) past)
    (found : e.before = storageAfter past) (calm : e.call.plan = .none)
    (own : e.call.seat? = some seat) {c : Consumer} {config : Config} {cursor : Cursor} {s : Snapshot}
    (asked : e.call.request = .dequeue c config cursor s) (fits : config.partitioner = .roundRobin)
    (valid : config.validate = .ok ()) (member : c.validate config.partitioner = .ok ())
    (may : MayPass past seat cursor) (follows : Follows past seat s) :
    ∃ delivery k a' r', e.Delivers seat delivery k ∧
      SharedTurn seat.queue past s
        ((storageAfter past).table.standing (RowKey.entryCounter.encode seat.queue))
        ((storageAfter past).table.standing seat.groupRow) a cursor delivery a'
        (e.after.table.standing seat.groupRow) k.pending ∧
      e.after.table.Holds seat a' r' ∧ k.AtRest seat.queue e.after.table ∧
      ∀ id, delivery.pointer?.map (·.id) ≠ some id → k.pending ≠ some id →
        e.after.table.claims seat id = (storageAfter past).table.claims seat id := by
  have here := Call.seat_eq own (by rw [asked]; rfl)
  subst here
  obtain ⟨footing, seen⟩ := footing_of_run run.sound found calm follows h.holds
  have rest : cursor.loaded = true → cursor.AtRest e.call.queue.name e.before.table := by
    intro loaded
    rw [found]
    exact h.rests cursor (may.last loaded)
  have least : 0 ≤ e.before.table.standing (e.call.queue.seat c).groupRow := by
    rw [found]
    exact standing_nonneg run _
  obtain ⟨delivery, t, done, a', r', ends, footing', _, rests, claims⟩ :=
    e.call.queue.answers_shared c config s fits valid member cursor footing seen least rest
  obtain ⟨delivers, after⟩ := Event.delivers_of_ok own asked done
  simp only [found, ← after] at ends claims rests footing'
  exact ⟨delivery, t.cursor, a', r', delivers, ends, footing'.holds, rests, claims⟩

private theorem of_turn (h : Holding seat past a r) (run : Run (Steady seat.queue) past)
    (found : e.before = storageAfter past) {c : Consumer} {config : Config} {s : Snapshot}
    {a' r' : EntryId} {cursor k : Cursor} {delivery : Delivery} {highest group group' : Int}
    (may : MayPass past seat cursor) (follows : Follows past seat s)
    (asked : e.call.request = .dequeue c config cursor s)
    (before : (storageAfter past).table.standing seat.groupRow = group)
    (after : e.after.table.standing seat.groupRow = group')
    (delivers : e.Delivers seat delivery k)
    (ends : SharedTurn seat.queue past s highest group a cursor delivery a' group' k.pending)
    (holds : e.after.table.Holds seat a' r') (rest : k.AtRest seat.queue e.after.table)
    (claims : ∀ id, delivery.pointer?.map (·.id) ≠ some id → k.pending ≠ some id →
      e.after.table.claims seat id = (storageAfter past).table.claims seat id) :
    Holding seat (e :: past) a' r' := by
  have reads : e.call.request.snapshot? = some s := by rw [asked]; rfl
  have seen : ∀ v, s.sees v → Known (e :: past) seat v := fun v => known_of_sees delivers.own reads
  have last : cursor.loaded = true → lastCursor? past seat = some cursor := may.last
  generalize pends : k.pending = pending at ends claims
  cases ends with
  | @again entry v _ some visible appended =>
      refine h.of_served delivers holds rest pends (h.active_took some).cons (h.active_last some)
        ⟨entry, v, seen v visible, appended⟩
        (fun other => h.again_accounts found (after.trans before.symm) some)
        (fun other forfeited => ?_) fun other v apart has => ?_
      · obtain ⟨taken, unserved, apart, _⟩ := h.unresumed_of_forfeited asked forfeited
        exact ⟨taken, unserved, apart some⟩
      · rwa [claims other (by simpa [Delivery.pointer?] using Ne.symm apart) (by simp)] at has
  | @fetched _ id _ entry v _ begins claimed visible appended =>
      obtain ⟨claimed, _⟩ := h.claimed_of_start run follows last begins claimed
      obtain ⟨_, took, above⟩ := h.claim_last run delivers.own found before after claimed
      refine h.of_served delivers holds rest pends took
        (fun other mem => above other (h.served_took other mem).cons)
        ⟨entry, v, seen v visible, appended⟩
        (fun other => h.claim_accounts found delivers.own asked before after seen claimed)
        (fun other => h.unclaimed_of_forfeited run asked before claimed) fun other v apart has => ?_
      rwa [claims other (by simpa [Delivery.pointer?] using Ne.symm apart) (by simp)] at has
  | @waiting _ id _ _ begins claimed unseen =>
      obtain ⟨claimed, _⟩ := h.claimed_of_start run follows last begins claimed
      obtain ⟨unserved, took, above⟩ := h.claim_last run delivers.own found before after claimed
      refine h.of_waiting delivers reads follows unseen holds rest pends unserved took above
        (fun other => h.claim_accounts found delivers.own asked before after seen claimed)
        (fun other => h.unclaimed_of_forfeited run asked before claimed) fun other v apart has => ?_
      rwa [claims other (by simp [Delivery.pointer?]) (by simpa using Ne.symm apart)] at has
  | caughtUp begins claimed _ =>
      obtain ⟨claimed, active⟩ := h.claimed_of_start run follows last begins claimed
      refine h.of_caughtUp delivers
        (active.imp id fun gone => ⟨gone.1, gone.2.mono suffix_cons seen⟩) holds rest pends
        (fun other => h.claim_accounts found delivers.own asked before after seen claimed)
        (fun other forfeited => ?_) fun other v has => ?_
      · obtain ⟨taken, unserved, apart, _⟩ := h.unresumed_of_forfeited asked forfeited
        exact ⟨taken, unserved, apart⟩
      · rwa [claims other (by simp [Delivery.pointer?]) (by simp)] at has

/-- After every run in which the member keeps to the order of its snapshots, what it holds is as
described, for some active entry and read pointer. -/
theorem of_run (run : Run (SharedOrderly seat) past) : ∃ a r, Holding seat past a r := by
  induction run with
  | start => exact ⟨_, _, start seat⟩
  | @next past call earlier allowed ih =>
      obtain ⟨a, r, h⟩ := ih
      have steady : Run (Steady seat.queue) past := earlier.mono fun _ _ _ fits => fits.1.1
      obtain ⟨orderly, acks⟩ := allowed
      let e : Event := ⟨call, storageAfter past⟩
      by_cases own : call.seat? = some seat
      · rcases orderly.own_cases own with ⟨c, config, cursor, s, asked⟩ | ⟨p, c, s, asked⟩
        · obtain ⟨calm, fits, valid, member, may, follows⟩ := orderly.of_dequeue own asked
          obtain ⟨delivery, k, a', r', delivers, ends, holds, rest, claims⟩ :=
            h.turn (e := e) steady rfl calm own asked fits valid member may follows
          exact ⟨a', r', h.of_turn steady rfl may follows asked rfl rfl delivers ends holds rest claims⟩
        · obtain ⟨_, follows⟩ := orderly.of_ack own asked
          obtain ⟨a', held⟩ :=
            h.of_ack (e := e) steady rfl own asked follows (acks own p c s asked)
          exact ⟨a', r, held⟩
      · exact ⟨a, r, h.of_other (e := e) rfl orderly.1.1 own⟩

/-- Every request of the member in a run was answered from what its past had left it to hold. -/
theorem turn_of_run (run : Run (SharedOrderly seat) (e :: past)) (own : e.call.seat? = some seat)
    {c : Consumer} {config : Config} {cursor : Cursor} {s : Snapshot}
    (asked : e.call.request = .dequeue c config cursor s) :
    ∃ a r delivery k a' r', Holding seat past a r ∧ Follows past seat s ∧
      (cursor.loaded = true → lastCursor? past seat = some cursor) ∧ e.Delivers seat delivery k ∧
      SharedTurn seat.queue past s
        ((storageAfter past).table.standing (RowKey.entryCounter.encode seat.queue))
        ((storageAfter past).table.standing seat.groupRow) a cursor delivery a'
        (e.after.table.standing seat.groupRow) k.pending ∧ Holding seat (e :: past) a' r' := by
  obtain ⟨earlier, ⟨orderly, _⟩, found⟩ := Run.cons_iff.1 run
  obtain ⟨calm, fits, valid, member, may, follows⟩ := orderly.of_dequeue own asked
  have steady : Run (Steady seat.queue) past := earlier.mono fun _ _ _ fits => fits.1.1
  obtain ⟨a, r, h⟩ := of_run earlier
  obtain ⟨delivery, k, a', r', delivers, ends, holds, rest, claims⟩ :=
    h.turn steady found calm own asked fits valid member may follows
  have next := h.of_turn steady found may follows asked rfl rfl delivers ends holds rest claims
  exact ⟨a, r, delivery, k, a', r', h, follows, may.last, delivers, ends, next⟩

/-- What is served is the active entry once more, or comes after all that was served before. -/
theorem served_cases (h : Holding seat past a r) (run : Run (Steady seat.queue) past)
    (own : e.call.seat? = some seat) (found : e.before = storageAfter past) {s : Snapshot}
    {id a' : EntryId} {cursor : Cursor} {delivery : Delivery} {pending : Option EntryId}
    {highest group group' : Int} (follows : Follows past seat s)
    (last : cursor.loaded = true → lastCursor? past seat = some cursor)
    (before : (storageAfter past).table.standing seat.groupRow = group)
    (after : e.after.table.standing seat.groupRow = group')
    (ends : SharedTurn seat.queue past s highest group a cursor delivery a' group' pending)
    (served : delivery.pointer?.map (·.id) = some id) :
    (id = a ∧ a ∈ servedTo past seat) ∨ ∀ old ∈ servedTo past seat, old < id := by
  cases ends with
  | again _ some _ _ =>
      cases served
      by_cases mem : a ∈ servedTo past seat
      · exact .inl ⟨rfl, mem⟩
      · refine .inr fun old handed => UInt64.lt_of_le_of_ne (h.active_last some old handed) ?_
        rintro rfl
        exact mem handed
  | fetched begins claimed _ _ =>
      cases served
      obtain ⟨claimed, _⟩ := h.claimed_of_start run follows last begins claimed
      obtain ⟨unserved, _, above⟩ := h.claim_last run own found before after claimed
      refine .inr fun old handed =>
        UInt64.lt_of_le_of_ne (above old (h.served_took old handed).cons) ?_
      rintro rfl
      exact unserved handed
  | waiting _ _ _ => cases served
  | caughtUp _ _ _ => cases served

/-- Where the member is told that there is nothing, it waits for an id that its snapshot does not show,
or its group has claimed all ids. -/
theorem of_nothing_found (run : Run (SharedOrderly seat) (e :: past)) (nothing : e.FindsNothing seat)
    {s : Snapshot} (reads : e.call.request.snapshot? = some s) :
    (∃ id, pendingOf (e :: past) seat = some id ∧ ¬ ShownAt past ⟨seat.queue, id⟩ (s.sees ·)) ∨
      (storageAfter past).table.standing (RowKey.entryCounter.encode seat.queue) ≤
        e.after.table.standing seat.groupRow := by
  obtain ⟨c, config, cursor, s', asked⟩ := nothing.asks
  have same : s' = s := by simpa [asked, Request.snapshot?] using reads
  subst same
  obtain ⟨a, r, delivery, k, a', r', _, _, _, delivers, ends, _⟩ :=
    turn_of_run run nothing.1 asked
  obtain rfl := nothing.delivery_eq delivers
  have pends : pendingOf (e :: past) seat = k.pending := pendingOf_cons delivers
  generalize e.after.table.standing seat.groupRow = group' at ends ⊢
  generalize k.pending = pending at ends pends
  cases ends with
  | waiting _ _ unseen => exact .inl ⟨a', pends, unseen⟩
  | caughtUp _ _ reached => exact .inr reached

end Holding

end VersionedQueue
