import VersionedQueue.Proofs.Shared.Within

/-!
# What a failed request of a member of a shared group leaves

A request that fails once its cursor is loaded has left the stored row as it was.  What it has claimed
is pending in its cursor then, unless it failed to store the entry that it was about to hand out.
-/

set_option autoImplicit false
set_option relaxedAutoImplicit false

namespace VersionedQueue

/-- The id that a request has claimed when it is answered: the one that it hands out, or else the one
that is left pending. -/
def claimOf (delivery : Delivery) (pending : Option EntryId) : Option EntryId :=
  (delivery.pointer?.map (·.id)).or pending

/-- What a member has in hand when it asks: the pending id of a loaded cursor, or else the active entry
of its row. -/
def Cursor.InHand (k : Cursor) (active id : EntryId) : Prop :=
  if k.loaded then k.pending = some id else active = id

/-- What a failed request has left of an id: it is pending in the cursor, or active in the row, or is
retired, or the request failed to store it as handed out. -/
inductive Leaves (q : Queue) (c : Consumer) (s : Snapshot) (past : List Event) (t : Turn) (id : EntryId)
    (unstored : Prop) : Prop
  | pending : t.cursor.loaded = true → t.cursor.pending = some id → Leaves q c s past t id unstored
  | active : storedId? (t.storage.table.stored (q.seat c) .active) = some id →
      Leaves q c s past t id unstored
  | retired : RetiredAt past ⟨q.name, id⟩ (s.sees ·) → Leaves q c s past t id unstored
  | unstored : unstored → Leaves q c s past t id unstored

theorem Leaves.imp {q : Queue} {c : Consumer} {s : Snapshot} {past : List Event} {t : Turn}
    {id : EntryId} {unstored wider : Prop} (h : Leaves q c s past t id unstored)
    (w : unstored → wider) : Leaves q c s past t id wider := by
  cases h with
  | pending loaded pends => exact .pending loaded pends
  | active stored => exact .active stored
  | retired gone => exact .retired gone
  | unstored why => exact .unstored (w why)

namespace SharedStart

variable {queue : String} {past : List Event} {s : Snapshot} {a a₀ id : EntryId} {k : Cursor}
  {p₀ p : Option EntryId} {group group' : Int}

theorem pending_of_inHand (begins : SharedStart queue past s a k a₀ p₀) (nonzero : id ≠ noEntry)
    (here : k.InHand a id) : p₀ = some id ∨ RetiredAt past ⟨queue, id⟩ (s.sees ·) := by
  unfold Cursor.InHand at here
  cases begins with
  | kept loaded =>
      rw [if_pos loaded] at here
      exact .inl here
  | idle unloaded none =>
      rw [if_neg (by simp [unloaded])] at here
      exact absurd (here.symm.trans none) nonzero
  | waiting unloaded _ _ =>
      rw [if_neg (by simp [unloaded])] at here
      exact .inl (congrArg _ here)
  | cleared unloaded _ gone =>
      rw [if_neg (by simp [unloaded])] at here
      exact .inr (here ▸ gone)

theorem claims (begins : SharedStart queue past s a k a₀ p₀)
    (claimed : Claimed queue past s p₀ group p group') (nonzero : id ≠ noEntry)
    (held : k.InHand a id ∨ group < id.toNat ∧ (id.toNat : Int) ≤ group') :
    p = some id ∨ RetiredAt past ⟨queue, id⟩ (s.sees ·) := by
  rcases held with here | ⟨after, upTo⟩
  · rcases begins.pending_of_inHand nonzero here with pends | gone
    · exact claimed.kept id pends
    · exact .inr gone
  · exact claimed.taken id after upTo

end SharedStart

namespace SharedTurn

variable {queue : String} {past : List Event} {s : Snapshot} {highest group group' : Int}
  {a a' : EntryId} {k : Cursor} {delivery : Delivery} {pending : Option EntryId}

theorem queue_of_served {p : Pointer} {x : Entry}
    (h : SharedTurn queue past s highest group a k (.served p x) a' group' pending) :
    p.queue = queue := by
  cases h <;> rfl

theorem start_of_loaded {a₀ : EntryId} {p₀ : Option EntryId} (loaded : k.loaded = true)
    (begins : SharedStart queue past s a k a₀ p₀) : p₀ = k.pending := by
  cases begins with
  | kept _ => rfl
  | idle unloaded _ => exact absurd (loaded.symm.trans unloaded) (by simp)
  | waiting unloaded _ _ => exact absurd (loaded.symm.trans unloaded) (by simp)
  | cleared unloaded _ _ => exact absurd (loaded.symm.trans unloaded) (by simp)

theorem claimed (h : SharedTurn queue past s highest group a k delivery a' group' pending)
    (loaded : k.loaded = true) :
    Claimed queue past s k.pending group (claimOf delivery pending) group' := by
  cases h with
  | again unloaded _ _ _ => exact absurd (loaded.symm.trans unloaded) (by simp)
  | fetched begins claimed _ _ => exact start_of_loaded loaded begins ▸ claimed
  | waiting begins claimed _ => exact start_of_loaded loaded begins ▸ claimed
  | caughtUp begins claimed _ => exact start_of_loaded loaded begins ▸ claimed

theorem served_of_inHand {id : EntryId}
    (h : SharedTurn queue past s highest group a k delivery a' group' pending) (nonzero : id ≠ noEntry)
    (here : k.InHand a id) (shown : ShownAt past ⟨queue, id⟩ (s.sees ·))
    (live : ¬ RetiredAt past ⟨queue, id⟩ (s.sees ·)) :
    ∃ entry v, Enqueued past ⟨queue, id⟩ entry v ∧
      delivery = .served ⟨queue, id⟩ ⟨entry.payload, {}⟩ := by
  cases h with
  | again unloaded _ _ appended =>
      rw [Cursor.InHand, if_neg (by simp [unloaded])] at here
      subst here
      exact ⟨_, _, appended, rfl⟩
  | fetched begins claimed _ appended =>
      cases (begins.claims claimed nonzero (.inl here)).resolve_right live
      exact ⟨_, _, appended, rfl⟩
  | waiting begins claimed hidden =>
      cases (begins.claims claimed nonzero (.inl here)).resolve_right live
      exact absurd shown hidden
  | caughtUp begins claimed _ =>
      cases (begins.claims claimed nonzero (.inl here)).resolve_right live

end SharedTurn

theorem Footing.of_group_moved {q : Queue} {c : Consumer} {s : Snapshot} {past : List Event}
    {a r : EntryId} {st st' : Storage} (h : Footing q c s past a r st)
    (touched : st.table.Touched (· = (q.seat c).groupRow) 0 st'.table) (calm : st'.plan = .none) :
    Footing q c s past a r st' := by
  have row (column : Bytes) :
      st'.table.history (q.seat c).row column = st.table.history (q.seat c).row column :=
    touched.history _ (Seat.row_ne_groupRow _) column
  refine ⟨⟨calm, touched.refuses.trans h.reliable.2⟩, h.stored.of_group_moved touched, ?_,
    fun column w has => ?_⟩
  · exact h.holds.of_stored (by simp only [Table.stored, row]) (by simp only [Table.stored, row])
  · rw [row] at has
    exact h.newest column w has

namespace Queue

variable {q : Queue} {c : Consumer} {config : Config} {s : Snapshot} {past : List Event}
  {a r : EntryId} {t t' u : Turn} {e : QueueError}

theorem touched_of_failed_proceed (failed : q.proceed c config s t = .error e t') :
    t.storage.table.Touched (· = (q.seat c).groupRow) 0 t'.storage.table := by
  have touched := @touched_refill q c config s t
  rcases proceed_failed_cases failed with refill | ⟨u, done, failed⟩
  · rw [refill] at touched
    exact touched.1
  · rw [done] at touched
    have same := (ends_handOut u).of_error failed
    exact touched.1.trans (same.1.touched _ _)

theorem answers_proceed_shared (shared : config.partitioner = .roundRobin)
    (footing : Footing q c s past a r t.storage.repair)
    (least : 0 ≤ t.storage.table.standing (q.seat c).groupRow) (loaded : t.cursor.loaded = true)
    (rest : t.cursor.AtRest q.name t.storage.table) :
    Answers (q.proceed c config s) t.repair (q.SharedResult c s past a t.cursor t.storage.table) :=
  q.answers_claimed c config s shared t.cursor (.kept loaded) footing least loaded rest

/-- What a request that fails once its cursor is loaded leaves of what was pending in the cursor and of
what it has taken. -/
theorem claims_of_failed_proceed (shared : config.partitioner = .roundRobin)
    (footing : Footing q c s past a r t.storage.repair)
    (least : 0 ≤ t.storage.table.standing (q.seat c).groupRow) (loaded : t.cursor.loaded = true)
    (rest : t.cursor.AtRest q.name t.storage.table)
    (failed : q.proceed c config s t = .error e t')
    (rest' : t'.cursor.AtRest q.name t'.storage.table) {id : EntryId}
    (held : t.cursor.pending = some id ∧
        (id.toNat : Int) ≤ t.storage.table.standing (q.seat c).groupRow ∨
      t.storage.table.standing (q.seat c).groupRow < id.toNat ∧
        (id.toNat : Int) ≤ t'.storage.table.standing (q.seat c).groupRow) :
    Leaves q c s past t' id
      (e.IsStoring ∧ ∃ x w, q.proceed c config s t.repair = .ok (.served ⟨q.name, id⟩ x) w) := by
  have touched := touched_of_failed_proceed failed
  have loaded' := (loaded_of_failed_proceed failed).trans loaded
  have forward : t.storage.table.standing (q.seat c).groupRow ≤
      t'.storage.table.standing (q.seat c).groupRow := touched.counter_le _ _
  obtain ⟨d, w, answered, _, _, ends, _⟩ := answers_proceed_shared shared footing least loaded rest
  have claimed := ends.claimed loaded
  have claim (upTo : (id.toNat : Int) ≤ w.storage.table.standing (q.seat c).groupRow) :
      claimOf d w.cursor.pending = some id ∨ RetiredAt past ⟨q.name, id⟩ (s.sees ·) :=
    held.elim (fun pends => claimed.kept id pends.1) fun taken => claimed.taken id taken.1 upTo
  have below : (id.toNat : Int) ≤ t'.storage.table.standing (q.seat c).groupRow :=
    held.elim (fun pends => Int.le_trans pends.2 forward) (·.2)
  obtain ⟨resumes, drops⟩ := proceed_resumes failed
  by_cases handing : e.IsStoring ∧ ∃ p x, d = .served p x
  · -- Only the id that was about to be handed out can have left the cursor.
    obtain ⟨storing, p, x, rfl⟩ := handing
    obtain ⟨_, _, stored⟩ := drops p x w storing answered
    have same := (counters_of_touched_row stored).1
    rcases claim (same ▸ below) with here | retired
    · cases here
      have name := ends.queue_of_served
      obtain ⟨_, _⟩ := p
      cases name
      exact .unstored ⟨storing, x, w, answered⟩
    · exact .retired retired
  · -- Asked again, the queue claims the same from what the request has left.
    have agree := resumes fun storing p x w' served => by
      cases answered.symm.trans served
      exact handing ⟨storing, p, x, rfl⟩
    rw [answered] at agree
    obtain ⟨w', again, same⟩ := agree.of_ok
    have footing' : Footing q c s past a r t'.storage.repair := footing.of_group_moved touched rfl
    obtain ⟨_, _, ends', _⟩ := (answers_proceed_shared shared footing' (Int.le_trans least forward)
      loaded' rest').of_ok again
    have claimed' := ends'.claimed loaded'
    rw [same.2, same.1.standing] at claimed'
    rcases claim (Int.le_trans below claimed'.forward) with here | retired
    · rcases claimed'.latest id here with ⟨pends, _⟩ | ⟨after, _⟩
      · exact .pending loaded' pends
      · exact absurd below (Int.not_le.2 after)
    · exact .retired retired

theorem resumed_of_load (footing : Footing q c s past a r t.storage.repair)
    (seen : t.storage.table.RowSeen (q.seat c).row s) (done : q.load c config s t = .ok () u) :
    ∃ a' w, (w.toNat : Int) = t.storage.table.standing (RowKey.entryCounter.encode q.name) ∧
      Resumed past q.name s config.partitioner a r w a' u.cursor ∧
      Footing q c s past a' r u.storage.repair ∧
      t.storage.table.Touched (· = (q.seat c).row) s.writeVersion u.storage.table := by
  have agree := (q.mirrored_load c config s).repaired done
  obtain ⟨u', again, same⟩ := agree.symm.of_ok
  obtain ⟨a', w, stands, resumed, footing', touched, _⟩ :=
    (q.answers_load c config s t.cursor footing seen).of_ok again
  refine ⟨a', w, stands, same.2 ▸ resumed, ?_, touched.trans (same.1.symm.touched _ _)⟩
  exact footing'.of_alike ⟨same.1.symm, footing'.reliable.1.symm⟩

private theorem left_of_failed_resumed (shared : config.partitioner = .roundRobin) {a' w : EntryId}
    (resumed : Resumed past q.name s config.partitioner a r w a' t.cursor)
    (footing : Footing q c s past a' r t.storage.repair)
    (least : 0 ≤ t.storage.table.standing (q.seat c).groupRow)
    (stands : (w.toNat : Int) ≤ t.storage.table.standing (RowKey.entryCounter.encode q.name))
    (failed : q.proceed c config s t = .error e t')
    (rest' : t'.cursor.AtRest q.name t'.storage.table) {id : EntryId} (some : id ≠ noEntry)
    (held : a = id ∧ (id.toNat : Int) ≤ t.storage.table.standing (q.seat c).groupRow ∨
      t.storage.table.standing (q.seat c).groupRow < id.toNat ∧
        (id.toNat : Int) ≤ t'.storage.table.standing (q.seat c).groupRow) :
    Leaves q c s past t' id
      (e.IsStoring ∧ ∃ x w, q.proceed c config s t.repair = .ok (.served ⟨q.name, id⟩ x) w) := by
  have claims (loaded : t.cursor.loaded = true) (rest : t.cursor.AtRest q.name t.storage.table) :=
    @claims_of_failed_proceed q c config s past a' r t t' e shared footing least loaded rest failed
      rest' id
  generalize cursor : t.cursor = k at resumed claims
  cases resumed with
  | idle none =>
      refine claims rfl ⟨rfl, stands⟩ (held.imp_left fun here => ?_)
      exact absurd (here.1.symm.trans none) some
  | @again entry _ _ _ _ =>
      -- Nothing was claimed, and the active entry is still stored.
      have cached : t.cursor.cache.entries = [⟨a, entry.payload⟩] := by rw [cursor]
      have filled : q.refill c config s t = .ok () t := q.refill_of_cached c config s cached
      rcases proceed_failed_cases failed with refill | ⟨u, done, handing⟩
      · cases filled.symm.trans refill
      · cases filled.symm.trans done
        obtain ⟨_, _, same⟩ := (ends_handOut_next cached).of_error handing
        rcases held with ⟨rfl, _⟩ | ⟨after, below⟩
        · exact .active (footing.holds.of_alike same).active
        · rw [same.standing] at below
          exact absurd below (Int.not_le.2 after)
  | waiting _ _ _ =>
      exact claims rfl ⟨rfl, stands⟩ (held.imp_left fun here => ⟨congrArg _ here.1, here.2⟩)
  | cleared _ why =>
      have retired : RetiredAt past ⟨q.name, a⟩ (s.sees ·) := why.resolve_right fun disjoint => by
        simp [shared, Partitioner.isDisjoint] at disjoint
      rcases held with ⟨rfl, _⟩ | taken
      · exact .retired retired
      · exact claims rfl ⟨rfl, stands⟩ (.inr taken)

/-- What a request of a member leaves that fails: of what the member had in hand, and of what the
request has taken from the pointer of the group. -/
theorem left_of_failed (shared : config.partitioner = .roundRobin)
    (footing : Footing q c s past a r t.storage.repair)
    (seen : t.storage.table.RowSeen (q.seat c).row s)
    (least : 0 ≤ t.storage.table.standing (q.seat c).groupRow)
    (rest : t.cursor.loaded = true → t.cursor.AtRest q.name t.storage.table)
    (failed : q.dequeue c config s t = .error e t')
    (rest' : t'.cursor.loaded = true → t'.cursor.AtRest q.name t'.storage.table) {id : EntryId}
    (some : id ≠ noEntry)
    (held : t.cursor.InHand a id ∧ (id.toNat : Int) ≤ t.storage.table.standing (q.seat c).groupRow ∨
      t.storage.table.standing (q.seat c).groupRow < id.toNat ∧
        (id.toNat : Int) ≤ t'.storage.table.standing (q.seat c).groupRow) :
    Leaves q c s past t' id
      (e.IsStoring ∧ ∃ x w, q.dequeue c config s t.repair = .ok (.served ⟨q.name, id⟩ x) w) := by
  by_cases checked : config.validate = .ok () ∧ c.validate config.partitioner = .ok ()
  · cases loaded : t.cursor.loaded with
    | true =>
        have here (u : Turn) (loaded : u.cursor.loaded = true) :
            q.dequeue c config s u = q.proceed c config s u :=
          dequeue_of_loaded checked.1 checked.2 loaded
        rw [here t loaded] at failed
        rw [here t.repair loaded]
        have still := (loaded_of_failed_proceed failed).trans loaded
        refine claims_of_failed_proceed shared footing least loaded (rest loaded) failed (rest' still)
          (held.imp_left fun here => ?_)
        rw [Cursor.InHand, if_pos loaded] at here
        exact here
    | false =>
        have loads (u : Turn) (unloaded : u.cursor.loaded = false) : q.dequeue c config s u =
            (q.load c config s >>= fun _ => q.proceed c config s) u :=
          dequeue_of_unloaded checked.1 checked.2 unloaded
        rw [Cursor.InHand, if_neg (by simp [loaded])] at held
        rw [loads t loaded] at failed
        rw [loads t.repair loaded]
        rcases error_of_bind failed with unread | ⟨_, u, done, failed⟩
        · have same := (ends_load t.cursor).of_error unread
          rcases held with ⟨rfl, _⟩ | ⟨after, below⟩
          · exact .active (footing.holds.of_alike same.1).active
          · rw [same.1.standing] at below
            exact absurd below (Int.not_le.2 after)
        · obtain ⟨a', w, stands, resumed, footing', touched⟩ := resumed_of_load footing seen done
          obtain ⟨group, highest⟩ := counters_of_touched_row touched
          rw [← group] at least held
          have still : t'.cursor.loaded = true :=
            (loaded_of_failed_proceed failed).trans resumed.loaded
          have left := left_of_failed_resumed shared resumed footing' least
            (Int.le_of_eq (stands.trans highest.symm)) failed (rest' still) some held
          have goes := Mirrored.agree_rest (q.mirrored_load c config s)
            (fun _ => @mirrored_proceed q c config s) t.calm_repair u.calm_repair
            ((q.mirrored_load c config s).repaired done)
          refine left.imp ?_
          rintro ⟨storing, x, w, served⟩
          rw [served] at goes
          obtain ⟨w', again, _⟩ := goes.symm.of_ok
          exact ⟨storing, x, w', again⟩
  · obtain ⟨e', refused⟩ := @dequeue_of_refused q c config s checked
    cases (refused t).symm.trans failed
    rcases held with ⟨here, _⟩ | ⟨after, below⟩
    · unfold Cursor.InHand at here
      split at here
      · rename_i loaded
        exact .pending loaded here
      · exact .active (here ▸ footing.holds.active)
    · exact absurd below (Int.not_le.2 after)

end Queue

end VersionedQueue
