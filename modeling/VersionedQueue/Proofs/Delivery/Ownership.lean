import VersionedQueue.Proofs.Delivery.Redelivery
import VersionedQueue.Proofs.Delivery.Strays

/-!
# To whom an entry is handed

A member of a group is handed entries that fall to it, and entries that it handed back without having
been handed them.  Only of the latter kind is an entry that two members are handed, and only over one of
them does a member that partitions by hash come to pass an entry of its share.
-/

set_option autoImplicit false
set_option relaxedAutoImplicit false

namespace VersionedQueue

/-- The calls of a queue in which each member of one group keeps its cursors, and by hash all members
partition by one header and among one number of members.  Their requests meet no failing storage.  Every
member may hand back any entry. -/
def StrayingGroup (queue : String) (group : GroupId) (p : Partitioner) (key : String) (groupSize : UInt32)
    (past : List Event) (call : Call) : Prop :=
  ∀ member, Straying ⟨queue, group, member⟩ p ⟨key, groupSize, member⟩ past call

/-- An entry falls to a member: by hash it is one of the member's share, and in turn the member has taken its
id from the pointer of the group. -/
def BelongsTo (p : Partitioner) (past : List Event) (seat : Seat) (share : Share) (id : EntryId) : Prop :=
  match p with
  | .hash => share.Owns past ⟨seat.queue, id⟩
  | .roundRobin => Took past seat id

/-- A consumer has handed an entry back, and since then has done no more than acknowledge others. -/
def HandedBack (past : List Event) (seat : Seat) (id : EntryId) : Prop :=
  ∃ newer e earlier, past = newer ++ e :: earlier ∧ e.HandsBack seat id ∧ ∀ f ∈ newer, f.Spares seat id

/-- The row of a consumer, or the loaded cursor that its last request left, has come to an id. -/
def Reached (past : List Event) (seat : Seat) (id : EntryId) : Prop :=
  (∃ r, storedId? ((storageAfter past).table.stored seat .readPointer) = some r ∧ id ≤ r) ∨
    ∃ k, lastCursor? past seat = some k ∧ k.loaded = true ∧ id ≤ k.readPointer

theorem Roams.reached_iff {seat : Seat} {share : Share} {past : List Event} {a r id : EntryId}
    (h : Roams seat share past a r) : Reached past seat id ↔ id ≤ r := by
  constructor
  · rintro (⟨r', stored, upTo⟩ | ⟨k, last, loaded, upTo⟩)
    · cases h.holds.readPointer.symm.trans stored
      exact upTo
    · rwa [(h.kept k last loaded).1] at upTo
  · intro upTo
    exact .inl ⟨r, h.holds.readPointer, upTo⟩

namespace Straying

variable {seat : Seat} {p : Partitioner} {share : Share} {past : List Event} {next : Event} {id : EntryId}

theorem sound (run : Run (Straying seat p share) past) : Run (Sound seat.queue) past :=
  Keeping.sound (run.mono fun _ _ _ fits => fits.toKeeping)

/-- A member is handed what falls to it and what strays to it. -/
theorem falls_or_strays (run : Run (Straying seat p share) past) (mem : id ∈ servedTo past seat) :
    BelongsTo p past seat share id ∨ Strayed past seat id := by
  cases p with
  | hash =>
      obtain ⟨a, r, h⟩ := Roams.of_run run
      exact h.came id mem
  | roundRobin => exact (RoamsShared.of_run run).served id mem

theorem reached_iff (run : Run (Straying seat .hash share) past) (owns : share.Owns past ⟨seat.queue, id⟩)
    (live : ∀ v, ¬ Invalidated past ⟨seat.queue, id⟩ v) :
    Reached past seat id ↔ id ∈ servedTo past seat ∨ Overtaken past seat id := by
  obtain ⟨a, r, h⟩ := Roams.of_run run
  obtain ⟨entry, v, appended, takes⟩ := owns
  have stored := Stored.of_run (sound run)
  rw [h.reached_iff]
  constructor
  · intro upTo
    have positive : noEntry < id := UInt64.lt_iff_toNat_lt.2 (stored.allocated _ _ _ appended).2.1
    rcases h.covered id positive upTo with mem | passes | overtaken
    · exact .inl mem
    · obtain ⟨w, _, retired⟩ := passes.retiredAt stored appended takes
      exact absurd retired (live w)
    · exact .inr overtaken
  · rintro (mem | ⟨stray, above, served, _⟩)
    · exact h.below id mem
    · exact UInt64.le_trans (UInt64.le_of_lt above) (h.below stray served)

theorem stores_of_handedBack (run : Run (Straying seat p share) past) (back : HandedBack past seat id) :
    Stores past seat id := by
  obtain ⟨newer, e, earlier, rfl, back, spares⟩ := back
  induction newer with
  | nil =>
      have consistent : Run (Consistent seat p) (e :: earlier) := run.mono fun _ _ _ fits => fits.toConsistent
      exact (Consistent.row_of_handsBack consistent back).2
  | cons f newer ih =>
      obtain ⟨before, fits, found⟩ := Run.cons_iff.1 run
      have stores := ih before fun g mem => spares g (List.mem_cons_of_mem f mem)
      exact ((spares f List.mem_cons_self).keeps (sound before) found fits.name fits.follows).1 stores

theorem served_of_handedBack (run : Run (Straying seat p share) (next :: past))
    (back : HandedBack past seat id) {c : Consumer} {config : Config} {cursor : Cursor} {s : Snapshot}
    (reloads : next.Reloads seat c config cursor s) {entry : Entry} {v : Version}
    (appended : Enqueued past ⟨seat.queue, id⟩ entry v) (shown : s.sees v = true)
    (live : ¬ RetiredAt past ⟨seat.queue, id⟩ (s.sees ·)) :
    next.delivery? = some (.served ⟨seat.queue, id⟩ ⟨entry.payload, {}⟩) := by
  obtain ⟨before, fits, found⟩ := Run.cons_iff.1 run
  obtain ⟨own, asked, unloaded, valid, admitted⟩ := reloads
  obtain ⟨a, r, holds⟩ := (legible_of_run (sound before)).exists_holds
  obtain rfl : a = id := Option.some.inj (holds.active.symm.trans (stores_of_handedBack before back))
  have calm := fits.calm own (by rw [asked]; rfl)
  have follows := fits.follows own s (by rw [asked]; rfl)
  have here := Call.seat_eq own (by rw [asked]; rfl)
  subst here
  obtain ⟨footing, seen⟩ := footing_of_run (sound before) found calm follows holds
  obtain ⟨d, t, done, rfl⟩ := Queue.answers_reload footing seen unloaded valid admitted appended shown live
  exact (Event.delivers_of_ok own asked done).1.delivery?

end Straying

namespace StrayingGroup

variable {queue : String} {group : GroupId} {p : Partitioner} {key : String} {groupSize : UInt32}
  {past : List Event}

theorem straying (run : Run (StrayingGroup queue group p key groupSize) past) (member : InstanceId) :
    Run (Straying ⟨queue, group, member⟩ p ⟨key, groupSize, member⟩) past :=
  run.mono fun _ _ _ fits => fits member

theorem falls_unique (run : Run (StrayingGroup queue group p key groupSize) past) {m m' : InstanceId}
    {id : EntryId} (h : BelongsTo p past ⟨queue, group, m⟩ ⟨key, groupSize, m⟩ id)
    (h' : BelongsTo p past ⟨queue, group, m'⟩ ⟨key, groupSize, m'⟩ id) : m = m' := by
  cases p with
  | hash => exact Share.Owns.unique (Stored.of_run (Straying.sound (straying run m))) h h'
  | roundRobin => exact took_unique run h h'

/-- Whatever the members of a group hand back, a member is handed only what falls to it and what strayed to
it, and two members are handed one entry only if it strayed to one of them.  By hash, a member comes to
an entry of its share that was never retired exactly if it is handed the entry, or one beyond it that
strayed to it.  And whatever a member has handed back, it is handed when it asks with a cursor that was
never loaded. -/
theorem handed_own_or_stray (run : Run (StrayingGroup queue group p key groupSize) past) :
    (∀ member, ∀ id ∈ servedTo past ⟨queue, group, member⟩,
      BelongsTo p past ⟨queue, group, member⟩ ⟨key, groupSize, member⟩ id ∨
        Strayed past ⟨queue, group, member⟩ id) ∧
    (∀ m m' id, id ∈ servedTo past ⟨queue, group, m⟩ → id ∈ servedTo past ⟨queue, group, m'⟩ →
      m = m' ∨ Strayed past ⟨queue, group, m⟩ id ∨ Strayed past ⟨queue, group, m'⟩ id) ∧
    (p = .hash → ∀ member id, Share.Owns ⟨key, groupSize, member⟩ past ⟨queue, id⟩ →
      (∀ v, ¬ Invalidated past ⟨queue, id⟩ v) →
      (Reached past ⟨queue, group, member⟩ id ↔
        id ∈ servedTo past ⟨queue, group, member⟩ ∨ Overtaken past ⟨queue, group, member⟩ id)) ∧
    ∀ member id next c config cursor s entry v, HandedBack past ⟨queue, group, member⟩ id →
      Run (StrayingGroup queue group p key groupSize) (next :: past) →
      next.Reloads ⟨queue, group, member⟩ c config cursor s →
      Enqueued past ⟨queue, id⟩ entry v → s.sees v = true → ¬ RetiredAt past ⟨queue, id⟩ (s.sees ·) →
      next.delivery? = some (.served ⟨queue, id⟩ ⟨entry.payload, {}⟩) := by
  refine ⟨fun member id mem => ?_, fun m m' id mem mem' => ?_, fun hash member id owns live => ?_,
    fun member id next c config cursor s entry v back further reloads appended shown live => ?_⟩
  · exact Straying.falls_or_strays (straying run member) mem
  · rcases Straying.falls_or_strays (straying run m) mem with falls | strayed
    · rcases Straying.falls_or_strays (straying run m') mem' with falls' | strayed
      · exact .inl (falls_unique run falls falls')
      · exact .inr (.inr strayed)
    · exact .inr (.inl strayed)
  · subst hash
    exact Straying.reached_iff (straying run member) owns live
  · exact Straying.served_of_handedBack (straying further member) back reloads appended shown live

/-- The second of two members is handed the one entry of its share and acknowledges it.  The first hands that
entry back, and asks for an entry then. -/
def stray : List Call :=
  let queue : Queue := ⟨"q", ⟨.hash, 20⟩⟩
  let member (m : InstanceId) : Consumer :=
    { group := 1, member := m, groupSize := 2, partitioningKey := some "k" }
  let entry (hash : Int32) : Entry := ⟨[97], Std.TreeMap.ofList [("k", hash)]⟩
  [⟨queue, .dequeue (member 0) ⟨.hash, 20⟩ .fresh (.upTo 10), .none⟩,
    ⟨queue, .unack ⟨"q", 2⟩ (member 0) (.upTo 10), .none⟩,
    ⟨queue, .ack ⟨"q", 2⟩ (member 1) (.upTo 10), .none⟩,
    ⟨queue, .dequeue (member 1) ⟨.hash, 20⟩ .fresh (.upTo 10), .none⟩,
    ⟨queue, .enqueue (entry 1) 2, .none⟩, ⟨queue, .enqueue (entry 0) 1, .none⟩]

private theorem stray_run : Run (StrayingGroup "q" 1 .hash "k" 2) (replay stray) := by
  have calm : ∀ call ∈ stray, call.plan = .none := by simp [stray]
  have asks : ∀ call ∈ stray, ∀ c config cursor s, call.request = .dequeue c config cursor s →
      cursor.loaded = false ∧ c.share = ⟨"k", 2, c.member⟩ := by
    simp only [stray, List.forall_mem_cons, Request.dequeue.injEq, reduceCtorEq, Cursor.fresh,
      and_imp, false_implies, implies_true, List.not_mem_nil, and_self, and_true, true_and]
    constructor
    · rintro _ _ _ _ rfl - rfl -
      exact ⟨rfl, rfl⟩
    · rintro _ _ _ _ rfl - rfl -
      exact ⟨rfl, rfl⟩
  have fits (n : Nat) {call : Call} (here : stray[n]? = some call) :
      StrayingGroup "q" 1 .hash "k" 2 (replay (stray.drop (n + 1))) call := by
    intro member
    have mem := List.mem_of_getElem? here
    have kind := asks call mem
    have consistent : Consistent ⟨"q", 1, member⟩ .hash (replay (stray.drop (n + 1))) call :=
      .of_replay (s := .upTo 10) (by decide) (by simp [stray, Call.Regular, Queue.configFor]) here
    refine ⟨⟨⟨consistent, fun _ c config cursor s asked => ?_⟩, fun _ => calm call mem⟩,
      fun _ _ => calm call mem, fun own c config cursor s asked _ => ?_⟩
    · exact .inl (kind c config cursor s asked).1
    · have number : c.member = member := congrArg Seat.member (Call.seat_eq own (by rw [asked]; rfl))
      rw [(kind c config cursor s asked).2, number]
  exact .replay_cons (.replay_cons (.replay_cons (.replay_cons (.replay_cons (.replay_cons .start
    (fits 5 rfl)) (fits 4 rfl)) (fits 3 rfl)) (fits 2 rfl)) (fits 1 rfl)) (fits 0 rfl)

/-- In that run the first member is handed the entry too, and so it passes the entry of its share. -/
theorem stray_handed_twice :
    2 ∈ servedTo (replay stray) ⟨"q", 1, 1⟩ ∧ 2 ∈ servedTo (replay stray) ⟨"q", 1, 0⟩ ∧
      Strayed (replay stray) ⟨"q", 1, 0⟩ 2 ∧ Share.Owns ⟨"k", 2, 0⟩ (replay stray) ⟨"q", 1⟩ ∧
      Reached (replay stray) ⟨"q", 1, 0⟩ 1 ∧ 1 ∉ servedTo (replay stray) ⟨"q", 1, 0⟩ := by
  have live (n : Nat) (p : Pointer) (v : Version) : ¬ Invalidated (replay (stray.drop n)) p v := by
    have kept : ∀ call ∈ stray, ∀ p v, call.request ≠ .invalidate p v := by simp [stray]
    exact not_invalidated_replay (fun call mem => kept call (List.mem_of_mem_drop mem)) v
  have earlier := stray_run.of_suffix (replay_drop_suffix 1 stray)
  obtain ⟨_, _, _, again⟩ := handed_own_or_stray earlier
  obtain ⟨_, _, reached, _⟩ := handed_own_or_stray stray_run
  -- The event in which the first member hands the entry back.
  have back : Event.HandsBack ⟨stray[1], storageAfter (replay (stray.drop 2))⟩ ⟨"q", 1, 0⟩ 2 :=
    ⟨rfl, ⟨_, _, rfl⟩, by with_unfolding_all decide⟩
  have owned : Share.Owns ⟨"k", 2, 0⟩ (replay stray) ⟨"q", 1⟩ :=
    ⟨_, 1, ⟨_, List.mem_of_getLast? rfl, rfl, by decide⟩, 0, by decide, by decide⟩
  have delivered := again 0 2 _ _ _ _ _ _ _ ⟨[], _, _, rfl, back, fun f mem => absurd mem List.not_mem_nil⟩
    stray_run ⟨rfl, rfl, rfl, rfl, rfl⟩ ⟨_, @List.mem_of_getElem? _ _ 3 _ rfl, rfl, by decide⟩ (by decide)
    fun ⟨v, _, retired⟩ => live 1 _ v retired
  have handed : 2 ∈ servedTo (replay stray) ⟨"q", 1, 0⟩ :=
    mem_servedTo_cons.2 (.inl (Event.servedTo?_of_delivery rfl delivered))
  have strayed : Strayed (replay stray) ⟨"q", 1, 0⟩ 2 :=
    ⟨_, _, List.suffix_cons _ _, back, by with_unfolding_all decide⟩
  refine ⟨by with_unfolding_all decide, handed, strayed, owned, ?_, by with_unfolding_all decide⟩
  exact (reached rfl 0 1 owned (live 0 _)).2 (.inr ⟨2, by decide, handed, strayed⟩)

end StrayingGroup

end VersionedQueue
