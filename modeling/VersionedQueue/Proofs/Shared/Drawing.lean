import VersionedQueue.Proofs.Consumer.Steps
import VersionedQueue.Proofs.Storage.Inherited
import VersionedQueue.Queue.Fetch

/-!
# Drawing ids from the pointer of a group

What a member of a shared group comes to can be read off a view of the queue and two counters: it takes
up the id that it has pending, or else the next one of the pointer of its group, drops it if its entry is
shown as retired, and goes on.  A pass makes one such step; a fetch makes one pass after the other.  The
write pointer that the cursor remembers has no part in it, since the current one is looked at before the
member gives up.
-/

set_option autoImplicit false
set_option relaxedAutoImplicit false

namespace VersionedQueue

/-- Two tables that differ only in where the counter of one row stands. -/
structure Table.Counted (row : Bytes) (t t' : Table) : Prop where
  history : ∀ r column, t'.history r column = t.history r column
  standing : ∀ r, r ≠ row → t'.standing r = t.standing r
  refuses : t'.refusesIncrements = t.refusesIncrements

namespace Table.Counted

variable {row : Bytes} {t t' t'' : Table}

theorem of_alike (h : t.Alike t') (row : Bytes) : Table.Counted row t t' :=
  ⟨h.history, fun r _ => h.standing r, h.refuses⟩

theorem trans (first : Table.Counted row t t') (second : Table.Counted row t' t'') :
    Table.Counted row t t'' where
  history r column := (second.history r column).trans (first.history r column)
  standing r other := (second.standing r other).trans (first.standing r other)
  refuses := second.refuses.trans first.refuses

theorem record (h : Table.Counted row t t') (r column : Bytes) (v : Version) (x : Option Bytes) :
    Table.Counted row (t.record r column v x) (t'.record r column v x) where
  history r' c := by simp only [history_record, h.history]
  standing r' other := h.standing r' other
  refuses := h.refuses

theorem recordAll (h : Table.Counted row t t') (r : Bytes) (v : Version)
    (cells : List (Bytes × Bytes)) :
    Table.Counted row (t.recordAll r cells v) (t'.recordAll r cells v) := by
  induction cells generalizing t t' with
  | nil => exact h
  | cons cell rest ih => exact ih (h.record r cell.1 v (some cell.2))

theorem shows (h : Table.Counted row t t') (q : Queue) (s : Snapshot) :
    q.shows t' s = q.shows t s := by
  funext key column
  simp only [Queue.shows, Table.read, h.history]

end Table.Counted

/-- The next id of a member of a shared group: the one that it has pending, or the next one of the
pointer of its group.  The pointer stands at the last number afterwards. -/
inductive NextId (pending : Option EntryId) (group highest : Int) (id : EntryId) : Int → Prop
  | held : pending = some id → NextId pending group highest id group
  | taken : pending = none → group < highest → (id.toNat : Int) = group + 1 →
      NextId pending group highest id (group + 1)

theorem NextId.unique {pending : Option EntryId} {group highest group₁ group₂ : Int} {id id' : EntryId}
    (h : NextId pending group highest id group₁) (h' : NextId pending group highest id' group₂) :
    id = id' ∧ group₁ = group₂ := by
  cases h with
  | held held =>
      cases h' with
      | held held' => exact ⟨Option.some.inj (held.symm.trans held'), rfl⟩
      | taken none _ _ => cases none.symm.trans held
  | taken none _ number =>
      cases h' with
      | held held' => cases none.symm.trans held'
      | taken _ _ number' => exact ⟨UInt64.toNat_inj.1 (by omega), rfl⟩

namespace Queue

section View

variable (q : Queue) (view : QueueView)

/-- What a member of a shared group comes to from the id that it has pending and the pointer of its group:
the first id that is not shown as retired, or none, and where the pointer of the group stands then. -/
inductive ComesTo (highest : Int) : Option EntryId → Int → Option EntryId → Int → Prop
  | claim {pending : Option EntryId} {group group' : Int} {id : EntryId} :
      NextId pending group highest id group' → q.sight view id ≠ .ok .retired →
      ComesTo highest pending group (some id) group'
  | dropped {pending claim : Option EntryId} {group group₁ group' : Int} {id : EntryId} :
      NextId pending group highest id group₁ → q.sight view id = .ok .retired →
      ComesTo highest none group₁ claim group' → ComesTo highest pending group claim group'
  | caughtUp {group : Int} : highest ≤ group → ComesTo highest none group none group

/-- What a view offers of the id that a member has come to. -/
inductive Draws : Option EntryId → List CachedEntry → Prop
  | found {id : EntryId} {payload : Bytes} : q.sight view id = .ok (.servable payload) →
      Draws (some id) [⟨id, payload⟩]
  | waiting {id : EntryId} : q.sight view id = .ok .unseen → Draws (some id) []
  | nothing : Draws none []

end View

namespace ComesTo

variable {q : Queue} {view : QueueView} {highest group group₁ group₂ : Int}
  {pending claim claim₁ claim₂ : Option EntryId}

theorem unique (h : q.ComesTo view highest pending group claim₁ group₁)
    (h' : q.ComesTo view highest pending group claim₂ group₂) : claim₁ = claim₂ ∧ group₁ = group₂ := by
  induction h with
  | claim next sight =>
      cases h' with
      | claim next' _ =>
          obtain ⟨rfl, rfl⟩ := next.unique next'
          exact ⟨rfl, rfl⟩
      | dropped next' retired _ =>
          obtain ⟨rfl, rfl⟩ := next.unique next'
          exact absurd retired sight
      | caughtUp reached =>
          cases next with
          | held held => cases held
          | taken _ below _ => omega
  | dropped next retired _ ih =>
      cases h' with
      | claim next' sight' =>
          obtain ⟨rfl, rfl⟩ := next.unique next'
          exact absurd retired sight'
      | dropped next' _ later' =>
          obtain ⟨rfl, rfl⟩ := next.unique next'
          exact ih later'
      | caughtUp reached =>
          cases next with
          | held held => cases held
          | taken _ below _ => omega
  | caughtUp reached =>
      cases h' with
      | claim next' _ =>
          cases next' with
          | held held => cases held
          | taken _ below _ => omega
      | dropped next' _ _ =>
          cases next' with
          | held held => cases held
          | taken _ below _ => omega
      | caughtUp _ => exact ⟨rfl, rfl⟩

theorem pending_or_beyond (h : q.ComesTo view highest pending group claim group₁) {id : EntryId}
    (drawn : claim = some id) : pending = some id ∨ group < id.toNat := by
  have later {p : Option EntryId} {g g' : Int} {next : EntryId} (step : NextId p g highest next g') :
      g ≤ g' ∧ (p = some next ∨ g < next.toNat) := by
    cases step with
    | held held => exact ⟨Int.le_refl _, .inl held⟩
    | taken _ _ number => exact ⟨by omega, .inr (by omega)⟩
  induction h with
  | claim next _ =>
      cases drawn
      exact (later next).2
  | dropped next _ _ ih =>
      rcases ih drawn with held | above
      · cases held
      · exact .inr (Int.lt_of_le_of_lt (later next).1 above)
  | caughtUp _ => cases drawn

theorem reached (h : q.ComesTo view highest pending group none group₁) : highest ≤ group₁ := by
  generalize none : (none : Option EntryId) = claim at h
  induction h with
  | claim _ _ => cases none
  | dropped _ _ _ ih => exact ih none
  | caughtUp reached => exact reached

end ComesTo

variable (q : Queue) (c : Consumer) (s : Snapshot) {st : Storage}

private theorem groupRow_ne_counter :
    RowKey.entryCounter.encode q.name ≠ (q.seat c).groupRow := fun same =>
  RowKey.noConfusion (RowKey.encode_injective same)

/-- Where the counters stand that a member of a shared group draws by: the pointer of its group, and the
counter of entries. -/
structure Counts (q : Queue) (c : Consumer) (st : Storage) (group highest : Int) : Prop where
  reliable : st.Reliable
  taken : st.table.standing (q.seat c).groupRow = group
  allocated : st.table.standing (RowKey.entryCounter.encode q.name) = highest
  least : 0 ≤ group
  counted : 0 ≤ highest

theorem Counts.of_alike {st' : Storage} {group highest : Int} (h : q.Counts c st group highest)
    (same : st.Alike st') : q.Counts c st' group highest where
  reliable := h.reliable.of_alike same
  taken := (same.1.standing _).trans h.taken
  allocated := (same.1.standing _).trans h.allocated
  least := h.least
  counted := h.counted

/-- A member knows its next id, or that there is none: what its cursor remembers then, and where the
counters stand. -/
def NextResult (q : Queue) (c : Consumer) (st : Storage) (cursor : Cursor) (group highest : Int)
    (claim : Option EntryId) (t' : Turn) : Prop :=
  Table.Counted (q.seat c).groupRow st.table t'.storage.table ∧
    (∃ w, t'.cursor = { cursor with pending := claim, writePointer := w } ∧
      (w.toNat : Int) ≤ highest) ∧
    ∃ group', q.Counts c t'.storage group' highest ∧
      match claim with
      | some id => NextId cursor.pending group highest id group'
      | none => cursor.pending = none ∧ highest ≤ group ∧ group' = group

private theorem answers_claimId (cursor : Cursor) {st₁ : Storage} {g w : EntryId} {group highest : Int}
    (counts : q.Counts c st₁ group highest) (same : st.table.Alike st₁.table)
    (stands : (g.toNat : Int) = group) (known : (w.toNat : Int) ≤ highest)
    (may : Window.mayClaim g w = true) (free : cursor.pending = none) :
    Answers (do
        let id ← Turn.onStorage (q.claimId c.group)
        Turn.update ({ · with pending := some id })
        return some id) ⟨st₁, { cursor with writePointer := w }⟩
      (q.NextResult c st cursor group highest) := by
  have one : (1 : Int64).toInt = 1 := rfl
  have less : g < w := by simpa [Window.mayClaim] using may
  rw [UInt64.lt_iff_toNat_lt] at less
  have small : highest ≤ Int64.maxValue.toInt := by
    rw [← counts.allocated]
    exact Int64.toInt_le _
  have here : st₁.table.standing ((RowKey.groupPointer c.group).encode q.name) = group := counts.taken
  have least := counts.least
  have counted := q.answers_count .claimGroupPointer (.groupPointer c.group) 1 counts.reliable
    (by omega) (by omega)
  refine (Turn.answers_onStorage counted).bind ?_
  rintro id ⟨st', _⟩ ⟨⟨next, now, others, histories, works⟩, rfl⟩
  apply Turn.answers_update
  have taken : Table.Counted (q.seat c).groupRow st₁.table st'.table :=
    ⟨histories, others, works.2.trans counts.reliable.2.symm⟩
  refine Answers.pure ⟨(Table.Counted.of_alike same _).trans taken, ⟨w, rfl, known⟩, group + 1,
    ⟨works, ?_, ?_, by omega, counts.counted⟩, .taken free (by omega) (by omega)⟩
  · exact now.trans (by omega)
  · exact (others _ (q.groupRow_ne_counter c)).trans counts.allocated

private theorem answers_nextId (cursor : Cursor) {group highest : Int}
    (counts : q.Counts c st group highest)
    (remembered : (cursor.writePointer.toNat : Int) ≤ highest) :
    Answers (q.nextClaim c) ⟨st, cursor⟩ (q.NextResult c st cursor group highest) := by
  unfold nextClaim
  apply Turn.answers_cursorNow
  cases held : cursor.pending with
  | some id =>
      refine Answers.pure ⟨.of_alike (.refl _) _, ⟨cursor.writePointer, ?_, remembered⟩, group, counts,
        .held held⟩
      rw [← held]
  | none =>
      have peeked := q.answers_count_zero .readGroupPointer (.groupPointer c.group) counts.reliable
        (counts.taken ▸ counts.least)
      refine (Turn.answers_onStorage peeked).bind ?_
      rintro g ⟨st₁, _⟩ ⟨⟨stands, same⟩, rfl⟩
      have stands : (g.toNat : Int) = group := stands.trans counts.taken
      -- The remembered write pointer leaves room, or the current one has to be looked at.
      cases may : Window.mayClaim g cursor.writePointer with
      | true =>
          refine Answers.bind_of_ok (rfl : q.refreshIf false _ = .ok () _) ?_
          apply Turn.answers_cursorNow
          rw [if_pos may]
          exact q.answers_claimId c cursor (counts.of_alike q c same) same.1 stands remembered may held
      | false =>
          have counts₁ := counts.of_alike q c same
          refine (q.answers_refresh cursor counts₁.reliable
            (counts₁.allocated ▸ counts.counted)).bind ?_
          rintro _ ⟨st₂, _⟩ ⟨same₂, w, current, rfl⟩
          have both := same.trans same₂
          have known : (w.toNat : Int) = highest := current.trans counts₁.allocated
          apply Turn.answers_cursorNow
          simp only
          split
          · rename_i may
            exact q.answers_claimId c cursor (counts.of_alike q c both) both.1 stands
              (Int.le_of_eq known) may held
          · rename_i none_left
            have reached : w ≤ g := by simpa [Window.mayClaim] using none_left
            rw [UInt64.le_iff_toNat_le] at reached
            exact Answers.pure ⟨.of_alike both.1 _, ⟨w, by rw [← held], Int.le_of_eq known⟩, group,
              counts.of_alike q c both, held, by omega, rfl⟩

/-- A fetch has come to an id or to none: what it has found, and what it leaves behind. -/
def DrawResult (q : Queue) (c : Consumer) (s : Snapshot) (t : Turn) (group highest : Int) (t' : Turn) :
    Prop :=
  Table.Counted (q.seat c).groupRow t.storage.table t'.storage.table ∧
    ∃ w claim entries group',
      t'.cursor = { t.cursor with pending := claim, writePointer := w, cache := ⟨entries⟩ } ∧
      (w.toNat : Int) ≤ highest ∧ q.Counts c t'.storage group' highest ∧
      q.ComesTo (q.shows t.storage.table s) highest t.cursor.pending group claim group' ∧
      q.Draws (q.shows t.storage.table s) claim entries

private theorem answers_pass (cursor : Cursor) {group highest : Int}
    (counts : q.Counts c st group highest)
    (sights : ∀ id, ∃ seen, q.sight (q.shows st.table s) id = .ok seen)
    (remembered : (cursor.writePointer.toNat : Int) ≤ highest) (empty : cursor.cache = {}) :
    Answers (q.sharedPass c s) ⟨st, cursor⟩ fun pass t' =>
      match pass with
      | .found entries => q.DrawResult c s ⟨st, cursor⟩ group highest
          { t' with cursor := { t'.cursor with cache := ⟨entries⟩ } }
      | .exhausted => q.DrawResult c s ⟨st, cursor⟩ group highest t'
      | .passed => Table.Counted (q.seat c).groupRow st.table t'.storage.table ∧
          ∃ w id group₁, t'.cursor = { cursor with pending := none, writePointer := w } ∧
            (w.toNat : Int) ≤ highest ∧ q.Counts c t'.storage group₁ highest ∧
            NextId cursor.pending group highest id group₁ ∧
            q.sight (q.shows st.table s) id = .ok .retired := by
  unfold sharedPass
  refine (q.answers_nextId c cursor counts remembered).bind ?_
  rintro claim ⟨st₁, _⟩ ⟨counted, ⟨w, rfl, known⟩, group₁, counts₁, next⟩
  cases claim with
  | none =>
      obtain ⟨free, reached, rfl⟩ := next
      refine Answers.pure ⟨counted, w, none, [], group₁, ?_, known, counts₁, ?_, .nothing⟩
      · rw [← empty]
      · rw [free]
        exact .caughtUp reached
  | some id =>
      obtain ⟨seen, sight⟩ := sights id
      have shown : q.sight (q.shows st₁.table s) id = .ok seen := by rw [counted.shows, sight]
      refine (Turn.answers_onStorage (q.answers_readEntry_of_sight s counts₁.reliable shown)).bind ?_
      rintro seen ⟨st₂, _⟩ ⟨⟨rfl, same⟩, rfl⟩
      have counted₂ := counted.trans (.of_alike same.1 _)
      have counts₂ := counts₁.of_alike q c same
      cases seen with
      | servable payload =>
          exact Answers.pure ⟨counted₂, w, some id, [⟨id, payload⟩], group₁, rfl, known, counts₂,
            .claim next (by simp [sight]), .found sight⟩
      | unseen =>
          refine Answers.pure ⟨counted₂, w, some id, [], group₁, ?_, known, counts₂,
            .claim next (by simp [sight]), .waiting sight⟩
          rw [← empty]
      | retired =>
          apply Turn.answers_update
          exact Answers.pure ⟨counted₂, w, id, group₁, rfl, known, counts₂, next, sight⟩

/-- Where whatever is shown can be read, fetching in a shared group comes to what the view shows, by
induction on the passes. -/
theorem answers_fetchShared_of_sights (t : Turn) {group highest : Int}
    (counts : q.Counts c t.storage group highest)
    (sights : ∀ id, ∃ seen, q.sight (q.shows t.storage.table s) id = .ok seen)
    (remembered : (t.cursor.writePointer.toNat : Int) ≤ highest) (empty : t.cursor.cache = {}) :
    Answers (q.fetchShared c s) t fun _ t' => q.DrawResult c s t group highest t' := by
  induction t using (q.repeats_fetchShared c s).induct generalizing group with
  | passed t t' done ih =>
      obtain ⟨counted, w, id, group₁, cursor, known, counts₁, next, retired⟩ :=
        (q.answers_pass c s t.cursor counts sights remembered empty).of_ok done
      have shown := counted.shows q s
      obtain ⟨_, t'', fetched, counted', w', claim, entries, group', cursor', known', counts', comes,
        draws⟩ := ih counts₁ (shown ▸ sights) (by rw [cursor]; exact known) (by rw [cursor, empty])
      rw [shown, cursor] at comes
      rw [shown] at draws
      rw [cursor] at cursor'
      exact ⟨(), t'', ((q.repeats_fetchShared c s).passed done).trans fetched, counted.trans counted',
        w', claim, entries, group', cursor', known', counts', .dropped next retired comes, draws⟩
  | found t t' entries done =>
      exact ⟨(), _, (q.repeats_fetchShared c s).found done,
        (q.answers_pass c s t.cursor counts sights remembered empty).of_ok done⟩
  | exhausted t t' done =>
      exact ⟨(), t', (q.repeats_fetchShared c s).exhausted done,
        (q.answers_pass c s t.cursor counts sights remembered empty).of_ok done⟩
  | failed t t' e failed =>
      obtain ⟨_, _, done, _⟩ := q.answers_pass c s t.cursor counts sights remembered empty
      cases failed.symm.trans done

end Queue

end VersionedQueue
