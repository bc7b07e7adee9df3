import VersionedQueue.Proofs.Delivery.Reopening
import VersionedQueue.Proofs.Disjoint.Turn

/-!
# Entries that stray to a consumer

Handing an entry back makes it the active entry of the consumer's row, whether it was handed out to the
consumer or not.  A consumer is handed entries that fall to it and entries that strayed to it in this way,
and no others.  In a disjoint group its read pointer passes an entry of its share only over one that
strayed to it.
-/

set_option autoImplicit false
set_option relaxedAutoImplicit false

namespace VersionedQueue

/-- The calls of a queue, as far as one consumer is concerned: it keeps its cursors, and by hash it always
asks for the same share; its requests meet no failing storage.  It may acknowledge and hand back any
entry. -/
structure Straying (seat : Seat) (p : Partitioner) (share : Share) (past : List Event) (call : Call) :
    Prop extends Keeping seat p past call where
  calm : call.seat? = some seat → call.request.isDequeue = true → call.plan = .none
  shares : call.seat? = some seat → ∀ c config cursor s,
    call.request = .dequeue c config cursor s → p = .hash → c.share = share

/-- A consumer handed back an entry that it had not been handed. -/
def Strayed (past : List Event) (seat : Seat) (id : EntryId) : Prop :=
  ∃ e earlier, e :: earlier <:+ past ∧ e.HandsBack seat id ∧ id ∉ servedTo earlier seat

/-- A consumer was handed a higher id that strayed to it. -/
def Overtaken (past : List Event) (seat : Seat) (id : EntryId) : Prop :=
  ∃ stray, id < stray ∧ stray ∈ servedTo past seat ∧ Strayed past seat stray

/-- What holds of a member of a disjoint group that hands back what it likes, with the active entry and
the read pointer of its row. -/
structure Roams (seat : Seat) (share : Share) (past : List Event) (a r : EntryId) : Prop where
  holds : (storageAfter past).table.Holds seat a r
  active : a ≠ noEntry → a ∈ servedTo past seat ∨ Strayed past seat a
  below : ∀ id ∈ servedTo past seat, id ≤ r
  came : ∀ id ∈ servedTo past seat, share.Owns past ⟨seat.queue, id⟩ ∨ Strayed past seat id
  covered : ∀ id, noEntry < id → id ≤ r → id ∈ servedTo past seat ∨
    share.Passes past ⟨seat.queue, id⟩ (Known past seat) ∨ Overtaken past seat id
  kept : ∀ k, lastCursor? past seat = some k → k.loaded = true → k.readPointer = r ∧
    k.pending = none ∧ Found seat.queue share past (Known past seat) r k.cache.entries

/-- What holds of a member of a shared group that hands back what it likes: it has taken what it was
handed and what it holds from the pointer of the group, or this has strayed to it. -/
structure RoamsShared (seat : Seat) (past : List Event) : Prop where
  served : ∀ id ∈ servedTo past seat, Took past seat id ∨ Strayed past seat id
  active : ∀ id, Stores past seat id → id ≠ noEntry → Took past seat id ∨ Strayed past seat id
  pending : ∀ k, lastCursor? past seat = some k → k.loaded = true → ∀ id, k.pending = some id →
    Took past seat id ∨ Strayed past seat id

section Cons

variable {past : List Event} {seat : Seat} {e : Event} {id : EntryId}

theorem Strayed.cons (h : Strayed past seat id) : Strayed (e :: past) seat id := by
  obtain ⟨f, earlier, part, back, unserved⟩ := h
  exact ⟨f, earlier, part.trans (List.suffix_cons e past), back, unserved⟩

theorem Strayed.of_handsBack (back : e.HandsBack seat id) (unserved : id ∉ servedTo past seat) :
    Strayed (e :: past) seat id := ⟨e, past, List.suffix_rfl, back, unserved⟩

theorem Overtaken.cons (h : Overtaken past seat id) : Overtaken (e :: past) seat id := by
  obtain ⟨stray, above, served, strayed⟩ := h
  exact ⟨stray, above, mem_servedTo_cons.2 (.inr served), strayed.cons⟩

/-- What a consumer hands back was handed to it, or strays to it. -/
theorem strayed_or_served (back : e.HandsBack seat id) :
    id ∈ servedTo past seat ∨ Strayed (e :: past) seat id := by
  by_cases served : id ∈ servedTo past seat
  · exact .inl served
  · exact .inr (.of_handsBack back served)

end Cons

namespace Roams

variable {seat : Seat} {share : Share} {past : List Event} {e : Event} {a r a' r' : EntryId}

theorem start (seat : Seat) (share : Share) : Roams seat share [] noEntry noEntry where
  holds := ⟨rfl, rfl⟩
  active some := absurd rfl some
  below := nofun
  came := nofun
  covered _ positive upTo := absurd (UInt64.lt_of_lt_of_le positive upTo) (UInt64.lt_irrefl _)
  kept := nofun

private theorem of_aside (h : Roams seat share past a r) (aside : e.cursorOf? seat = none)
    (holds : e.after.table.Holds seat a' r)
    (which : a' = a ∨ a' = noEntry ∨ e.HandsBack seat a') : Roams seat share (e :: past) a' r := by
  have list : servedTo (e :: past) seat = servedTo past seat :=
    servedTo_cons_of_none (Event.servedTo?_of_aside aside)
  refine ⟨holds, fun some => ?_, fun id mem => ?_, fun id mem => ?_, fun id positive upTo => ?_,
    fun k last loaded => ?_⟩
  · rw [list]
    rcases which with rfl | none | back
    · exact (h.active some).imp_right .cons
    · exact absurd none some
    · exact strayed_or_served back
  · exact h.below id (list ▸ mem)
  · exact (h.came id (list ▸ mem)).imp .cons .cons
  · rw [list]
    exact (h.covered id positive upTo).imp_right fun rest =>
      rest.imp (·.mono (List.suffix_cons e past) fun _ known => known.cons) .cons
  · rw [lastCursor?_cons_of_none aside] at last
    obtain ⟨reads, free, found⟩ := h.kept k last loaded
    exact ⟨reads, free, found.mono (List.suffix_cons e past) fun _ known => known.cons⟩

private theorem of_request (h : Roams seat share past a r) {k : Cursor}
    (left : e.cursorOf? seat = some k) (holds : e.after.table.Holds seat a' r') (forward : r ≤ r')
    (active : a' = a ∨ a' = noEntry ∨ e.servedTo? seat = some a')
    (below : ∀ id, e.servedTo? seat = some id →
      id ≤ r' ∧ (share.Owns past ⟨seat.queue, id⟩ ∨ Strayed past seat id))
    (passed : ∀ id, r < id → id ≤ r' → e.servedTo? seat = some id ∨
      share.Passes past ⟨seat.queue, id⟩ (Known (e :: past) seat) ∨
      ∃ stray, id < stray ∧ e.servedTo? seat = some stray ∧ Strayed past seat stray)
    (kept : k.loaded = true → k.readPointer = r' ∧ k.pending = none ∧
      Found seat.queue share past (Known (e :: past) seat) r' k.cache.entries) :
    Roams seat share (e :: past) a' r' := by
  have part : past <:+ e :: past := List.suffix_cons e past
  refine ⟨holds, fun some => ?_, fun id mem => ?_, fun id mem => ?_, fun id positive upTo => ?_,
    fun k' last loaded => ?_⟩
  · rcases active with rfl | none | served
    · exact (h.active some).imp (fun mem => mem_servedTo_cons.2 (.inr mem)) .cons
    · exact absurd none some
    · exact .inl (mem_servedTo_cons.2 (.inl served))
  · rcases mem_servedTo_cons.1 mem with served | mem
    · exact (below id served).1
    · exact UInt64.le_trans (h.below id mem) forward
  · rcases mem_servedTo_cons.1 mem with served | mem
    · exact (below id served).2.imp .cons .cons
    · exact (h.came id mem).imp .cons .cons
  · by_cases early : id ≤ r
    · rcases h.covered id positive early with mem | passes | overtaken
      · exact .inl (mem_servedTo_cons.2 (.inr mem))
      · exact .inr (.inl (passes.mono part fun _ known => known.cons))
      · exact .inr (.inr overtaken.cons)
    · rcases passed id (UInt64.not_le.1 early) upTo with served | passes | ⟨stray, above, served, strayed⟩
      · exact .inl (mem_servedTo_cons.2 (.inl served))
      · exact .inr (.inl (passes.mono part fun _ known => known))
      · exact .inr (.inr ⟨stray, above, mem_servedTo_cons.2 (.inl served), strayed.cons⟩)
  · rw [lastCursor?_cons_of_some left] at last
    cases last
    obtain ⟨reads, free, found⟩ := kept loaded
    exact ⟨reads, free, found.mono part fun _ known => known⟩

private theorem of_found (h : Roams seat share past a r) {after : EntryId} {entry : CachedEntry}
    {rest : List CachedEntry} {k : Cursor} (left : e.cursorOf? seat = some k)
    (served : e.servedTo? seat = some entry.id)
    (holds : e.after.table.Holds seat entry.id entry.id)
    (moved : Moved seat.queue share past (Known (e :: past) seat) r after)
    (found : Found seat.queue share past (Known (e :: past) seat) after (entry :: rest))
    (reads : k.readPointer = entry.id) (free : k.pending = none) (cache : k.cache.entries = rest) :
    Roams seat share (e :: past) entry.id entry.id := by
  have later : after < entry.id := found.after entry List.mem_cons_self
  obtain ⟨appended, v, _, stored, takes, _⟩ := found.appended entry List.mem_cons_self
  refine h.of_request left holds (UInt64.le_of_lt (UInt64.lt_of_le_of_lt moved.forward later))
    (.inr (.inr served)) (fun id here => ?_) (fun id above upTo => ?_)
    fun _ => ⟨reads, free, cache ▸ found.tail⟩
  · cases served.symm.trans here
    exact ⟨UInt64.le_refl _, .inl ⟨appended, v, stored, takes⟩⟩
  · by_cases same : id = entry.id
    · exact .inl (same ▸ served)
    · by_cases early : id ≤ after
      · exact .inr (.inl (moved.passed id above early))
      · exact .inr (.inl (found.passes_of_lt_head (UInt64.not_le.1 early)
          (UInt64.lt_of_le_of_ne upTo same)))

private theorem of_again (h : Roams seat share past a r) {k : Cursor} (left : e.cursorOf? seat = some k)
    (served : e.servedTo? seat = some a) (some : a ≠ noEntry)
    (holds : e.after.table.Holds seat a (if r ≤ a then a else r))
    (reads : k.readPointer = if r ≤ a then a else r) (free : k.pending = none)
    (cache : k.cache.entries = []) : Roams seat share (e :: past) a (if r ≤ a then a else r) := by
  have forward : r ≤ if r ≤ a then a else r := by
    split
    · assumption
    · exact UInt64.le_refl r
  have within : a ≤ if r ≤ a then a else r := by
    split
    · exact UInt64.le_refl a
    · rename_i beyond
      exact UInt64.le_of_lt (UInt64.not_le.1 beyond)
  refine h.of_request left holds forward (.inr (.inr served)) (fun id here => ?_)
    (fun id above upTo => ?_) fun _ => ⟨reads, free, cache ▸ .nil⟩
  · cases served.symm.trans here
    exact ⟨within, (h.active some).elim (h.came a) .inr⟩
  · have upTo : id ≤ a := by
      split at upTo
      · exact upTo
      · exact absurd (UInt64.lt_of_lt_of_le above upTo) (UInt64.lt_irrefl _)
    by_cases same : id = a
    · exact .inl (same ▸ served)
    · -- The read pointer passes other ids only if the active entry was not handed out before.
      rcases h.active some with mem | strayed
      · have reached := UInt64.lt_of_lt_of_le above upTo
        exact absurd (UInt64.lt_of_lt_of_le reached (h.below a mem)) (UInt64.lt_irrefl _)
      · exact .inr (.inr ⟨a, UInt64.lt_of_le_of_ne upTo same, served, strayed⟩)

private theorem of_turn (h : Roams seat share past a r) {s : Snapshot} {w : EntryId} {cursor k : Cursor}
    {delivery : Delivery} {rest : List CachedEntry} (may : MayPass past seat cursor)
    (reads : e.call.request.snapshot? = some s) (delivers : e.Delivers seat delivery k)
    (ends : DisjointTurn seat.queue share past s w a r cursor delivery a' r' rest)
    (holds : e.after.table.Holds seat a' r') (pointer : k.readPointer = r') (free : k.pending = none)
    (cache : k.cache.entries = rest) : Roams seat share (e :: past) a' r' := by
  have seen : ∀ v, s.sees v → Known (e :: past) seat v := fun v => known_of_sees delivers.own reads
  have left := delivers.cursorOf?
  have served := delivers.servedTo?
  cases ends with
  | again _ some _ _ => exact h.of_again left served some holds pointer free cache
  | @cached entry _ loaded cached =>
      have found := (h.kept cursor (may.last loaded) loaded).2.2.mono (List.suffix_refl past)
        (fun _ known => Known.cons (e := e) known)
      rw [cached] at found
      have after := found.after entry List.mem_cons_self
      rw [if_pos (UInt64.le_of_lt after)] at holds pointer ⊢
      exact h.of_found left served holds (.refl _ _ _ _ _) found pointer free cache
  | fetched _ _ ends =>
      cases ends with
      | found moved _ found =>
          exact h.of_found left served holds (moved.mono seen) (found.mono (List.suffix_refl past) seen)
            pointer free cache
  | nothing _ _ ends =>
      have moved : Moved seat.queue share past (Known (e :: past) seat) r r' := by
        cases ends with
        | found _ some _ => exact absurd rfl some
        | blocked moved _ => exact moved.mono seen
        | caughtUp moved _ => exact moved.mono seen
      refine h.of_request left holds moved.forward ?_ (fun id here => ?_)
        (fun id above upTo => .inr (.inl (moved.passed id above upTo)))
        fun _ => ⟨pointer, free, cache ▸ .nil⟩
      · split
        · exact .inl rfl
        · exact .inr (.inl rfl)
      · cases served.symm.trans here

private theorem of_refused (h : Roams seat share past a r) (found : e.before = storageAfter past)
    (own : e.call.seat? = some seat) {c : Consumer} {config : Config} {cursor : Cursor} {s : Snapshot}
    (asked : e.call.request = .dequeue c config cursor s) (may : MayPass past seat cursor)
    (refused : ¬ (config.validate = .ok () ∧ c.validate config.partitioner = .ok ())) :
    Roams seat share (e :: past) a r := by
  obtain ⟨err, fails⟩ := @Queue.dequeue_of_refused e.call.queue c config s refused
  obtain ⟨unanswered, after, left⟩ := Event.servedTo?_of_error asked (fails _)
  have unserved : e.servedTo? seat = none := by simp [Event.servedTo?, unanswered]
  have holds : e.after.table.Holds seat a r := by
    rw [after, found]
    exact h.holds
  have kept : e.cursorOf? seat = some cursor := by
    rw [Event.cursorOf?_of_dequeue own asked, left]
  refine h.of_request kept holds (UInt64.le_refl r) (.inl rfl) (fun id here => ?_)
    (fun id above upTo => absurd (UInt64.lt_of_lt_of_le above upTo) (UInt64.lt_irrefl _)) fun loaded => ?_
  · cases unserved.symm.trans here
  · obtain ⟨reads, free, found⟩ := h.kept cursor (may.last loaded) loaded
    exact ⟨reads, free, found.mono (List.suffix_refl past) fun _ known => known.cons⟩

theorem of_run (run : Run (Straying seat .hash share) past) : ∃ a r, Roams seat share past a r := by
  induction run with
  | start => exact ⟨_, _, start seat share⟩
  | @next past call earlier fits ih =>
      obtain ⟨a, r, h⟩ := ih
      let e : Event := ⟨call, storageAfter past⟩
      have keeping : Run (Keeping seat .hash) (e :: past) :=
        (Run.next earlier fits).mono fun _ _ _ fits => fits.toKeeping
      cases left : e.cursorOf? seat with
      | none =>
          obtain ⟨a', holds, which⟩ := Consistent.row_aside (Keeping.consistent keeping) left h.holds
          exact ⟨a', r, h.of_aside left holds which⟩
      | some k =>
          obtain ⟨own, c, config, cursor, s, asked⟩ := Event.dequeue_of_cursorOf? left
          have may := fits.passes own _ _ _ _ asked
          have reads : e.call.request.snapshot? = some s := by rw [asked]; rfl
          by_cases valid : config.validate = .ok () ∧ c.validate config.partitioner = .ok ()
          · have sound := Keeping.sound (Run.cons_iff.1 keeping).1
            have share_eq := fits.shares own _ _ _ _ asked rfl
            have here := Call.seat_eq own (by rw [asked]; rfl)
            subst here
            obtain ⟨footing, seen⟩ := footing_of_run (e := e) sound rfl
              (fits.calm own (by rw [asked]; rfl)) (fits.follows own s reads) h.holds
            obtain ⟨w, stands⟩ := (Stored.of_run sound).highest
            have kept (loaded : cursor.loaded = true) :
                cursor.readPointer = r ∧ cursor.pending = none := by
              obtain ⟨reads, free, _⟩ := h.kept cursor (may.last loaded) loaded
              exact ⟨reads, free⟩
            obtain ⟨delivery, t, done, a', r', rest, ends, footing', _, pointer, free, cache⟩ :=
              e.call.queue.answers_disjoint c config s (fits.asks own _ _ _ _ asked) valid.1 valid.2
                cursor footing seen stands kept
            obtain ⟨delivers, after⟩ := Event.delivers_of_ok own asked done
            rw [share_eq] at ends
            exact ⟨a', r', h.of_turn may reads delivers ends (after ▸ footing'.holds) pointer free
              (by rw [cache])⟩
          · exact ⟨a, r, h.of_refused rfl own asked may valid⟩

end Roams

namespace RoamsShared

variable {seat : Seat} {share : Share} {past : List Event} {e : Event}

private theorem comes_of_request (run : Run (Straying seat .roundRobin share) (e :: past))
    (h : RoamsShared seat past) (own : e.call.seat? = some seat) {c : Consumer} {config : Config}
    {cursor : Cursor} {s : Snapshot} (asked : e.call.request = .dequeue c config cursor s) {id : EntryId} :
    (e.delivery? ≠ none → e.leaves? seat = some id →
      Took (e :: past) seat id ∨ Strayed (e :: past) seat id) ∧
    (e.outcome.cursor.loaded = true → e.outcome.cursor.pending = some id →
      Took (e :: past) seat id ∨ Strayed (e :: past) seat id) := by
  obtain ⟨earlier, fits, found⟩ := Run.cons_iff.1 run
  have keeping : Run (Keeping seat .roundRobin) past := earlier.mono fun _ _ _ fits => fits.toKeeping
  have shared := fits.asks own _ _ _ _ asked
  have last := (fits.passes own _ _ _ _ asked).last
  have follows := fits.follows own s (by rw [asked]; rfl)
  have rests (loaded : cursor.loaded = true) := Keeping.rests keeping cursor (last loaded) loaded
  obtain ⟨a, r, holds⟩ := Consistent.exists_holds (Keeping.consistent keeping)
  have pending (loaded : cursor.loaded = true) (pends : cursor.pending = some id) :
      Took (e :: past) seat id ∨ Strayed (e :: past) seat id :=
    (h.pending cursor (last loaded) loaded id pends).imp .cons .cons
  by_cases valid : config.validate = .ok () ∧ c.validate config.partitioner = .ok ()
  · obtain ⟨d, t, done⟩ := Custody.answered_of_calm (Keeping.sound keeping) found own asked shared follows
      holds rests (fits.calm own (by rw [asked]; rfl)) valid.1 valid.2
    obtain ⟨delivers, _, a', turn⟩ := Custody.turn_of_answered (Keeping.sound keeping) found own asked
      shared follows holds rests done
    have comes (claims : claimOf d t.cursor.pending = some id) :
        Took (e :: past) seat id ∨ Strayed (e :: past) seat id := by
      rcases turn.claimOf_cases claims with ⟨rfl, some⟩ | ⟨loaded, pends⟩ | ⟨after, upTo⟩
      · exact (h.active a holds.active some).imp .cons .cons
      · exact pending loaded pends
      · exact .inl (took_cons.2 (.inl ⟨own, found ▸ after, upTo⟩))
    rw [delivers.leaves?, delivers.cursor]
    exact ⟨fun _ leaves => comes leaves, fun _ pends => comes (turn.claimOf_of_pending pends)⟩
  · obtain ⟨err, fails⟩ := @Queue.dequeue_of_refused e.call.queue c config s valid
    obtain ⟨unanswered, _, kept⟩ := Event.servedTo?_of_error asked (fails _)
    rw [kept]
    exact ⟨fun answered => absurd unanswered answered, pending⟩

private theorem of_request (run : Run (Straying seat .roundRobin share) (e :: past))
    (h : RoamsShared seat past) (own : e.call.seat? = some seat) {c : Consumer} {config : Config}
    {cursor : Cursor} {s : Snapshot} (asked : e.call.request = .dequeue c config cursor s) :
    RoamsShared seat (e :: past) := by
  obtain ⟨earlier, _, found⟩ := Run.cons_iff.1 run
  have consistent : Run (Consistent seat .roundRobin) (e :: past) :=
    run.mono fun _ _ _ fits => fits.toConsistent
  have comes (id : EntryId) := @comes_of_request seat share past e run h own c config cursor s asked id
  refine ⟨fun id mem => ?_, fun id stores some => ?_, fun k last loaded id pends => ?_⟩
  · rcases mem_servedTo_cons.1 mem with served | mem
    · obtain ⟨_, _, answered, _⟩ := Event.own_of_servedTo? served
      exact (comes id).1 (by simp [answered]) (by rw [Event.leaves?, served]; rfl)
    · exact (h.served id mem).imp .cons .cons
  · obtain ⟨a, r, holds⟩ := Consistent.exists_holds (Run.cons_iff.1 consistent).1
    obtain ⟨a', r', holds', which, _⟩ := Consistent.row_of_dequeue consistent own asked (found ▸ holds)
    cases holds'.active.symm.trans stores
    rcases which with rfl | none | ⟨answered, leaves⟩
    · exact (h.active id holds.active some).imp .cons .cons
    · exact absurd none some
    · exact (comes id).1 answered leaves
  · rw [lastCursor?_cons_of_some (Event.cursorOf?_of_dequeue own asked)] at last
    cases last
    exact (comes id).2 loaded pends

private theorem of_aside (run : Run (Consistent seat .roundRobin) (e :: past)) (h : RoamsShared seat past)
    (aside : e.cursorOf? seat = none) : RoamsShared seat (e :: past) := by
  obtain ⟨earlier, _, found⟩ := Run.cons_iff.1 run
  refine ⟨fun id mem => ?_, fun id stores some => ?_, fun k last loaded id pends => ?_⟩
  · rw [servedTo_cons_of_none (Event.servedTo?_of_aside aside)] at mem
    exact (h.served id mem).imp .cons .cons
  · obtain ⟨a, r, holds⟩ := Consistent.exists_holds earlier
    obtain ⟨a', holds', which⟩ := Consistent.row_aside run aside (found ▸ holds)
    cases holds'.active.symm.trans stores
    rcases which with rfl | none | back
    · exact (h.active id holds.active some).imp .cons .cons
    · exact absurd none some
    · exact (strayed_or_served back).elim (fun mem => (h.served id mem).imp .cons .cons) .inr
  · rw [lastCursor?_cons_of_none aside] at last
    exact (h.pending k last loaded id pends).imp .cons .cons

theorem of_run (run : Run (Straying seat .roundRobin share) past) : RoamsShared seat past := by
  induction run with
  | start =>
      refine ⟨nofun, fun id stores some => ?_, nofun⟩
      cases stores
      exact absurd rfl some
  | @next past call earlier fits ih =>
      let e : Event := ⟨call, storageAfter past⟩
      have run : Run (Straying seat .roundRobin share) (e :: past) := .next earlier fits
      cases left : e.cursorOf? seat with
      | none => exact of_aside (run.mono fun _ _ _ fits => fits.toConsistent) ih left
      | some k =>
          obtain ⟨own, c, config, cursor, s, asked⟩ := Event.dequeue_of_cursorOf? left
          exact of_request run ih own asked

end RoamsShared

end VersionedQueue
