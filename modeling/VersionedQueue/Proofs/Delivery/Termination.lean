import VersionedQueue.Proofs.Delivery.Guarded
import VersionedQueue.Proofs.Delivery.Retry
import VersionedQueue.Proofs.Disjoint.Ahead
import VersionedQueue.Proofs.Run.Opened

/-!
# Every request ends

A request comes to an end, with an answer or a failure, and meets no hazard on its way: whatever the table
holds, whatever the consumer, its configuration, its snapshot and its cursor are, and whichever calls
fail.  Both of its loops end within as many rounds as there are ids below the write pointer that the
cursor remembers, or below the counter of entries if that is further on.  In a disjoint group each round
that goes on has moved the read pointer up, to that bound at most.  In a shared group it has moved up the
pointer of the group, or has dropped an id that was pending, and then claims one next.
-/

set_option autoImplicit false
set_option relaxedAutoImplicit false

namespace VersionedQueue

open GuardedM

section Tracks

variable {α β γ : Type} {t u : Turn} {r : EStateM.Result QueueError Turn β}
  {post : EStateM.Result QueueError Turn β → α → Turn → Prop}

/-- A part of a guarded request meets no hazard where the request comes to a result: it stops with the
failure that is this result, or answers as described. -/
def Tracks (act : GuardedM α) (t : Turn) (r : EStateM.Result QueueError Turn β)
    (post : EStateM.Result QueueError Turn β → α → Turn → Prop) : Prop :=
  Ends act t (post r) fun stop u => ∃ e, stop = .failed e ∧ r = .error e u

namespace Tracks

theorem pure {a : α} (h : post r a t) : Tracks (Pure.pure a : GuardedM α) t r post := h

theorem step {act : GuardedM γ} {next : γ → GuardedM α} {a : γ} (done : act t = .ok a u)
    (h : Tracks (next a) u r post) : Tracks (act >>= next) t r post :=
  Ends.of_eq (bind_eq_of_ok done) h

theorem bind {act : GuardedM γ} {next : γ → GuardedM α}
    {mid : EStateM.Result QueueError Turn β → γ → Turn → Prop} (first : Tracks act t r mid)
    (second : ∀ a u, mid r a u → Tracks (next a) u r post) : Tracks (act >>= next) t r post :=
  Ends.bind first second

theorem attempt {act : TurnM γ} {next : γ → GuardedM α} {rest : γ → TurnM β}
    (each : ∀ a u, act t = .ok a u → Tracks (next a) u (rest a u) post) :
    Tracks (GuardedM.attempt act >>= next) t ((act >>= rest) t) post := by
  cases done : act t with
  | ok a u =>
      rw [bind_eq_of_ok done]
      exact .step (attempt_of_ok done) (each a u done)
  | error e u =>
      rw [bind_eq_of_error done]
      exact .failed (bind_eq_of_error (attempt_of_error done)) ⟨e, rfl, rfl⟩

end Tracks

end Tracks

/-- The highest id that a request can come to: the write pointer that its cursor remembers, or where the
counter of entries stands. -/
def Turn.ceiling (q : Queue) (t : Turn) : Nat :=
  max t.cursor.writePointer.toNat
    (t.storage.table.standing (RowKey.entryCounter.encode q.name)).toNat

namespace Queue

variable (q : Queue) (c : Consumer) (config : Config) (s : Snapshot) {t u : Turn} {n : Nat}

/-- A bound on the rounds of a request that still go on.  A pending id is good for one. -/
def roundsLeft (t : Turn) : Nat :=
  match config.partitioner with
  | .hash => t.ceiling q - t.cursor.readPointer.toNat
  | .roundRobin =>
      t.ceiling q - (t.storage.table.standing (q.seat c).groupRow).toNat +
        if t.cursor.pending.isSome then 1 else 0

/-- What a request does after a pass of fetching. -/
def afterPass : Pass → TurnM Delivery
  | .passed => q.proceed c config s
  | .found entries => do
      Turn.update ({ · with cache := ⟨entries⟩ })
      q.handOut c config s
  | .exhausted => q.handOut c config s

/-- What a pass of a disjoint group does with the ids that it owns. -/
def takeOwned (ids : List EntryId) (last : EntryId) : TurnM Pass := do
  let seen ← q.readEntries ids s
  match servableEntries seen with
  | [] =>
      Turn.update (·.advance last)
      return .passed
  | entries => return .found entries

section Measure

variable {q c config s}

theorem ceiling_of_alike (same : t.Alike u) : u.ceiling q = t.ceiling q := by
  rw [Turn.ceiling, same.2, same.1.standing]
  rfl

theorem roundsLeft_of_alike (same : t.Alike u) :
    q.roundsLeft c config u = q.roundsLeft c config t := by
  unfold roundsLeft
  rw [ceiling_of_alike same, same.1.standing, same.2]

theorem roundsLeft_le (t : Turn) : q.roundsLeft c config t ≤ t.ceiling q + 1 := by
  unfold roundsLeft
  cases config.partitioner with
  | hash => exact Nat.le_succ_of_le (Nat.sub_le _ _)
  | roundRobin =>
      dsimp only
      split <;> omega

theorem ceiling_of_looked (looked : t.Looked q u) : u.ceiling q ≤ t.ceiling q := by
  rw [Turn.ceiling, Turn.ceiling, looked.same.standing]
  rcases looked.writePointer with kept | stands
  · exact Nat.le_of_eq (by rw [kept])
  · omega

theorem roundsLeft_of_looked (looked : t.Looked q u) :
    q.roundsLeft c config u ≤ q.roundsLeft c config t := by
  have within := ceiling_of_looked looked
  unfold roundsLeft
  rw [looked.same.standing, looked.readPointer, looked.pending]
  cases config.partitioner <;> dsimp only <;> omega

theorem roundsLeft_of_advance (hash : config.partitioner = .hash) {id : EntryId}
    (later : t.cursor.readPointer < id) (within : id ≤ t.cursor.writePointer) :
    q.roundsLeft c config ⟨t.storage, t.cursor.advance id⟩ < q.roundsLeft c config t := by
  have ceiling : Turn.ceiling q ⟨t.storage, t.cursor.advance id⟩ = t.ceiling q := rfl
  have known : t.cursor.writePointer.toNat ≤ t.ceiling q := Nat.le_max_left _ _
  simp only [roundsLeft, hash, ceiling, Cursor.advance_of_lt later]
  rw [UInt64.lt_iff_toNat_lt] at later
  rw [UInt64.le_iff_toNat_le] at within
  omega

end Measure

section Claims

variable {q c config} {id : EntryId}

theorem ceiling_of_claimsNext (claims : q.ClaimsNext c id t u) : u.ceiling q = t.ceiling q := by
  have aside : ¬ RowKey.entryCounter.encode q.name = (q.seat c).groupRow := fun same =>
    RowKey.noConfusion (RowKey.encode_injective same)
  rw [Turn.ceiling, Turn.ceiling, claims.cursor, Table.standing, claims.touched.counter _ aside]
  rfl

theorem roundsLeft_of_dropped (shared : config.partitioner = .roundRobin)
    (serves : q.ServesNext c t (some id) u) :
    q.roundsLeft c config ⟨u.storage, { u.cursor with pending := none }⟩ <
      q.roundsLeft c config t := by
  have ceiling : Turn.ceiling q ⟨u.storage, { u.cursor with pending := none }⟩ = u.ceiling q := rfl
  simp only [roundsLeft, shared, ceiling]
  cases serves with
  | pending held => simp [held]
  | @claimed _ v _ free looked claims =>
      have below := ceiling_of_looked looked
      have known : v.cursor.writePointer.toNat ≤ v.ceiling q := Nat.le_max_left _ _
      have within := UInt64.le_iff_toNat_le.1 claims.within
      have counted := claims.counted
      have next := claims.next
      rw [ceiling_of_claimsNext claims, claims.moved, ← looked.same.standing]
      simp only [free, Option.isSome_none, Bool.false_eq_true, if_false, Nat.add_zero]
      omega

end Claims

section Rounds

/-- How the ids that were fetched bring a request to its result: there are none and it rests, or it owns
them, or one of them is claimed. -/
inductive FetchLeadsTo (n : Nat) (r : EStateM.Result QueueError Turn Delivery) :
    List EntryId → Turn → Prop
  | nothing {u : Turn} : u.cursor.cache.entries = [] → r = q.handOut c config s u →
      FetchLeadsTo n r [] u
  | owned {ids : List EntryId} {last : EntryId} {u : Turn} : config.partitioner = .hash →
      ids.getLast? = some last → ids.Pairwise (· < ·) → u.cursor.readPointer < last →
      last ≤ u.cursor.writePointer → u.cursor.cache.entries = [] → q.roundsLeft c config u ≤ n →
      r = (q.takeOwned s ids last >>= q.afterPass c config s) u → FetchLeadsTo n r ids u
  | claimed {id : EntryId} {u : Turn} : config.partitioner = .roundRobin →
      u.cursor.pending = some id → u.cursor.cache.entries = [] →
      q.roundsLeft c config ⟨u.storage, { u.cursor with pending := none }⟩ < n →
      r = (q.takeUp s (some id) >>= q.afterPass c config s) u → FetchLeadsTo n r [id] u

/-- How a round brings a request to its result: it rests, or goes on with an entry to hand out or with
fewer rounds left. -/
inductive Round (n : Nat) (r : EStateM.Result QueueError Turn Delivery) : Bool → Turn → Prop
  | rests {u : Turn} : u.cursor.cache.entries = [] → r = q.handOut c config s u → Round n r false u
  | goesOn {u : Turn} : (u.cursor.cache.entries = [] → q.roundsLeft c config u < n) →
      r = q.proceed c config s u → Round n r true u

variable {q c config s}

theorem proceed_of_pass {pass : TurnM Pass} {fetch : TurnM Unit} (fetching : Fetching pass fetch)
    (fetches : q.fetch c config s = fetch) (spent : t.cursor.cache.entries = []) :
    q.proceed c config s t = (pass >>= q.afterPass c config s) t := by
  have filled (t : Turn) (spent : t.cursor.cache.entries = []) :
      q.proceed c config s t = (fetch >>= fun _ => q.handOut c config s) t := by
    change EStateM.bind (q.refill c config s) _ t = EStateM.bind fetch _ t
    simp only [EStateM.bind, q.refill_of_empty c config s spent, fetches]
  rw [filled t spent]
  have kept := fetching.keeps t
  cases done : pass t with
  | error e u =>
      rw [bind_eq_of_error (fetching.repeats.failed done), bind_eq_of_error done]
  | ok found u =>
      rw [done] at kept
      rw [bind_eq_of_ok done]
      cases found with
      | passed =>
          have still : u.cursor.cache.entries = [] := (congrArg Cache.entries kept.1).trans spent
          change _ = q.proceed c config s u
          rw [filled u still]
          change EStateM.bind fetch _ t = EStateM.bind fetch _ u
          simp only [EStateM.bind, fetching.repeats.passed done]
      | found entries => exact bind_eq_of_ok (fetching.repeats.found done)
      | exhausted => exact bind_eq_of_ok (fetching.repeats.exhausted done)

private theorem judge_of_owned {scan : HeaderScan} {ids : List EntryId} {last : EntryId}
    (own : owned c config.partitioner scan = ids) (isLast : ids.getLast? = some last) (top : EntryId) :
    q.judge c config s top scan = q.takeOwned s ids last := by
  simp only [judge, own, isLast]
  rfl

private theorem judge_of_unseen {scan : HeaderScan} {id : EntryId}
    (own : owned c config.partitioner scan = []) (stop : scan.firstUnseen = some id) (top : EntryId) :
    q.judge c config s top scan = do
      Turn.update (·.advance (id - 1))
      return .exhausted := by
  simp only [judge, own, List.getLast?_nil, stop]

private theorem judge_of_seen {scan : HeaderScan} (own : owned c config.partitioner scan = [])
    (stop : scan.firstUnseen = none) (top : EntryId) :
    q.judge c config s top scan = do
      Turn.update (·.advance top)
      return .passed := by
  simp only [judge, own, List.getLast?_nil, stop]

private theorem scanNext_bind_of_some {w : Window} {next : Pass → TurnM Delivery}
    (window : Window.after t.cursor.readPointer config.effectiveBatchSize c.groupSize
      t.cursor.writePointer = some w) :
    (q.scanNext c config s >>= next) t =
      (Turn.onStorage (q.readHeaders w.ids c.headerKey s) >>= fun scan =>
        q.judge c config s w.last scan >>= next) t := by
  rw [← bind_assoc, ← scanWindow_eq]
  change EStateM.bind _ _ t = EStateM.bind _ _ t
  simp only [EStateM.bind, q.scanNext_of_some c config s window]

/-- Scanning comes to what the passes of a disjoint group come to.  By induction on the allowance: a window
that holds nothing moves the read pointer up. -/
theorem tracks_guardedScan (hash : config.partitioner = .hash) (allowance : Nat)
    (spent : t.cursor.cache.entries = []) (bound : q.roundsLeft c config t ≤ n)
    (enough : q.roundsLeft c config t < allowance) :
    Tracks (q.guardedScan c config s allowance) t (q.proceed c config s t)
      (fun r ids u => q.FetchLeadsTo c config s n r ids u) := by
  induction allowance generalizing t with
  | zero => exact absurd enough (Nat.not_lt_zero _)
  | succ allowance ih =>
      have fetches : q.fetch c config s = q.fetchDisjoint c config s := by
        unfold fetch
        rw [hash]
      rw [proceed_of_pass (q.fetching_fetchDisjoint c config s) fetches spent, disjointPass_eq,
        bind_assoc, guardedScan]
      refine .attempt fun _ u looked => ?_
      have ahead := looked_of_look looked
      have fewer := @roundsLeft_of_looked q c config _ _ ahead
      have spent : u.cursor.cache.entries = [] := by rw [ahead.cache, spent]
      refine .step rfl ?_
      rw [windowAfter_eq, pure_bind]
      cases window : Window.after u.cursor.readPointer config.effectiveBatchSize c.groupSize
          u.cursor.writePointer with
      | none =>
          rw [bind_eq_of_ok (q.scanNext_of_none c config s window)]
          exact .pure (.nothing spent rfl)
      | some w =>
          obtain ⟨after, nonempty, within⟩ := Window.after_bounds window
          rw [scanNext_bind_of_some window]
          refine .step (ascending_of w.ids_ascending u) (.attempt fun scan v scanned => ?_)
          obtain ⟨found, same, kept⟩ := (q.ends_reading s .readHeaders _ u).of_ok scanned
          have left := @roundsLeft_of_alike q c config _ _ ⟨same.1, kept⟩
          rw [← kept] at after within spent
          cases own : owned c config.partitioner scan with
          | cons id others =>
              have listed : (owned c config.partitioner scan).Sublist w.ids :=
                (List.filter_sublist.map _).trans (ids_of_scanHeaders found)
              rw [own] at listed
              have last := List.getLast?_eq_some_getLast (List.cons_ne_nil id others)
              obtain ⟨least, most⟩ := Window.mem_ids.1 (listed.subset (List.mem_of_getLast? last))
              rw [judge_of_owned own last]
              exact .pure (.owned hash last (w.ids_ascending.sublist listed)
                (UInt64.lt_of_lt_of_le after least) (UInt64.le_trans most within) spent (by omega) rfl)
          | nil =>
              cases stop : scan.firstUnseen with
              | some id =>
                  have inside := (q.unseen_of_scanHeaders found stop).1
                  have positive : 0 < id := UInt64.lt_of_le_of_lt (UInt64.zero_le)
                    (UInt64.lt_of_lt_of_le after (Window.mem_ids.1 inside).1)
                  rw [judge_of_unseen own stop]
                  dsimp only
                  rw [preceding_of_pos positive, pure_bind]
                  exact .pure (.nothing spent rfl)
              | none =>
                  have later : v.cursor.readPointer < w.last := UInt64.lt_of_lt_of_le after nonempty
                  have less := @roundsLeft_of_advance q c config _ hash _ later within
                  rw [judge_of_seen own stop]
                  exact .step (passTo_of_lt later within) (ih spent (by omega) (by omega))

theorem tracks_guardedClaim (shared : config.partitioner = .roundRobin)
    (spent : t.cursor.cache.entries = []) :
    Tracks (q.guardedClaim c) t (q.proceed c config s t)
      (fun r ids u => q.FetchLeadsTo c config s (q.roundsLeft c config t) r ids u) := by
  have fetches : q.fetch c config s = q.fetchShared c s := by
    unfold fetch
    rw [shared]
  rw [proceed_of_pass (q.fetching_fetchShared c s) fetches spent, sharedPass_eq, bind_assoc,
    guardedClaim]
  refine .step rfl (.attempt fun claim u (claimed : q.nextClaim c t = .ok claim u) => ?_)
  have kept := q.keeps_cache_nextClaim c t
  rw [claimed] at kept
  have spent : u.cursor.cache.entries = [] := (congrArg Cache.entries kept.1).trans spent
  have serves := (q.ends_nextClaim c t).of_ok claimed
  cases claim with
  | none => exact .pure (.nothing spent rfl)
  | some id =>
      refine .step rfl ?_
      rw [guarding_of]
      · exact .pure (.claimed shared serves.waits spent (roundsLeft_of_dropped shared serves) rfl)
      · cases serves with
        | pending held => exact .inl held
        | claimed _ looked claims =>
            have next := claims.next
            have moved := claims.moved
            have within := UInt64.le_iff_toNat_le.1 claims.within
            rw [looked.same.standing] at next
            refine .inr ⟨by omega, ?_⟩
            rw [claims.cursor, moved]
            exact Int.ofNat_le.2 within

private theorem proceed_of_filled {entry : CachedEntry} {others : List CachedEntry} :
    q.afterPass c config s (.found (entry :: others)) u =
      q.proceed c config s ⟨u.storage, { u.cursor with cache := ⟨entry :: others⟩ }⟩ := by
  have still := q.refill_of_cached c config s
    (t := ⟨u.storage, { u.cursor with cache := ⟨entry :: others⟩ }⟩) rfl
  rw [proceed, bind_eq_of_ok still]
  rfl

theorem tracks_guardedRead_owned (hash : config.partitioner = .hash) {ids : List EntryId}
    {last : EntryId} (isLast : ids.getLast? = some last) (ascends : ids.Pairwise (· < ·))
    (later : t.cursor.readPointer < last) (within : last ≤ t.cursor.writePointer)
    (bound : q.roundsLeft c config t ≤ n) :
    Tracks (q.guardedRead config s ids) t ((q.takeOwned s ids last >>= q.afterPass c config s) t)
      (fun r go u => q.Round c config s n r go u) := by
  rw [takeOwned, bind_assoc, guardedRead]
  refine .step (ascending_of ascends t) (.attempt fun seen u read => ?_)
  obtain ⟨sights, same, kept⟩ := (q.ends_reading s .readEntries _ t).of_ok read
  have left := @roundsLeft_of_alike q c config _ _ ⟨same.1, kept⟩
  rw [← kept] at later within
  have order := ids_servableEntries seen
  rw [(ids_of_sights sights).1] at order
  cases served : servableEntries seen with
  | cons entry others =>
      rw [served] at order
      refine .step (ascending_of (ascends.sublist order) u) ?_
      exact .pure (.goesOn nofun proceed_of_filled)
  | nil =>
      have less := @roundsLeft_of_advance q c config _ hash _ later within
      dsimp only
      rw [hash, isLast]
      exact .step (passTo_of_lt later within) (.pure (.goesOn (fun _ => by omega) rfl))

theorem readEntries_singleton (id : EntryId) :
    q.readEntries [id] s = q.readEntry id s >>= fun seen => pure [(id, seen)] := by
  rw [readEntries, readEntry, bind_assoc]
  congr
  funext view
  rw [List.mapM_cons, List.mapM_nil]
  cases q.sight view id with
  | ok seen => rfl
  | error e => rfl

theorem tracks_guardedRead_claimed (shared : config.partitioner = .roundRobin) {id : EntryId}
    (pending : t.cursor.pending = some id) (spent : t.cursor.cache.entries = [])
    (bound : q.roundsLeft c config ⟨t.storage, { t.cursor with pending := none }⟩ < n) :
    Tracks (q.guardedRead config s [id]) t ((q.takeUp s (some id) >>= q.afterPass c config s) t)
      (fun r go u => q.Round c config s n r go u) := by
  rw [takeUp, bind_assoc, guardedRead]
  refine .step (ascending_of (List.pairwise_singleton _ id) t) ?_
  have reads : attempt (Turn.onStorage (q.readEntries [id] s)) =
      attempt (Turn.onStorage (q.readEntry id s)) >>= fun seen => pure [(id, seen)] := by
    rw [readEntries_singleton, Turn.onStorage_bind, attempt_bind]
    rfl
  change Tracks (attempt (Turn.onStorage (q.readEntries [id] s)) >>= _) t _ _
  rw [reads, bind_assoc]
  refine .attempt fun seen ⟨st, k⟩ read => ?_
  obtain ⟨_, same, kept⟩ := (q.ends_looking s id t).of_ok read
  obtain rfl : k = t.cursor := kept
  rw [pure_bind]
  cases seen with
  | servable payload =>
      refine .step (ascending_of (List.pairwise_singleton _ id) _) ?_
      exact .pure (.goesOn nofun proceed_of_filled)
  | unseen =>
      dsimp only [servableEntries, List.filterMap]
      rw [shared]
      refine .step rfl ?_
      dsimp only
      rw [pending]
      dsimp only
      rw [if_pos (List.mem_singleton_self _)]
      exact .pure (.rests spent rfl)
  | retired =>
      dsimp only [servableEntries, List.filterMap]
      rw [shared]
      refine .step rfl ?_
      dsimp only
      rw [pending]
      dsimp only
      rw [if_neg (by simp)]
      have less := Nat.lt_of_le_of_lt (Nat.le_of_eq (@roundsLeft_of_alike q c config
        ⟨t.storage, { t.cursor with pending := none }⟩ ⟨st, { t.cursor with pending := none }⟩
        ⟨same.1, rfl⟩)) bound
      exact .step rfl (.pure (.goesOn (fun _ => less) rfl))

theorem tracks_guardedRound {allowance : Nat} (spent : t.cursor.cache.entries = [])
    (enough : q.roundsLeft c config t < allowance) :
    Tracks (q.guardedRound c config s allowance) t (q.proceed c config s t)
      (fun r go u => q.Round c config s (q.roundsLeft c config t) r go u) := by
  have fetched : Tracks (q.guardedFetch c config s allowance) t (q.proceed c config s t)
      (fun r ids u => q.FetchLeadsTo c config s (q.roundsLeft c config t) r ids u) := by
    unfold guardedFetch
    cases partitioner : config.partitioner with
    | hash => exact tracks_guardedScan partitioner allowance spent (Nat.le_refl _) enough
    | roundRobin => exact tracks_guardedClaim partitioner spent
  refine fetched.bind fun ids u ends => ?_
  cases ends with
  | nothing spent rests => exact .pure (.rests spent rests)
  | @owned _ last _ hash isLast ascends later within spent bound result =>
      cases ids with
      | nil => cases isLast
      | cons id others =>
          rw [result]
          exact tracks_guardedRead_owned hash isLast ascends later within bound
  | claimed shared pending spent bound result =>
      rw [result]
      exact tracks_guardedRead_claimed shared pending spent bound

private theorem guardedRounds_of_cached {entry : CachedEntry} {others : List CachedEntry}
    (next : t.cursor.cache.entries = entry :: others) (allowance rounds : Nat) :
    q.guardedRounds c config s allowance (rounds + 1) t = attempt (q.proceed c config s) t := by
  obtain ⟨st, ⟨_, _, _, _, _, ⟨entries⟩⟩⟩ := t
  cases next
  rw [guardedRounds]
  rfl

private theorem guardedRounds_of_spent (spent : t.cursor.cache.entries = [])
    (allowance rounds : Nat) :
    q.guardedRounds c config s allowance (rounds + 1) t =
      (q.guardedRound c config s allowance >>= fun go =>
        if go then q.guardedRounds c config s allowance rounds
        else attempt (q.saveEmpty c s) >>= fun _ => pure .empty) t := by
  obtain ⟨st, ⟨_, _, _, _, _, ⟨entries⟩⟩⟩ := t
  cases spent
  rw [guardedRounds]
  rfl

private theorem handOut_of_spent (spent : t.cursor.cache.entries = []) :
    q.handOut c config s t = (q.saveEmpty c s >>= fun _ => pure .empty) t := by
  obtain ⟨st, ⟨_, _, _, _, _, ⟨entries⟩⟩⟩ := t
  cases spent
  rfl

/-- The rounds come to what the request comes to.  By induction on them: each that goes on leaves fewer. -/
theorem guardedRounds_eq {allowance rounds : Nat} (enough : q.roundsLeft c config t < allowance)
    (several : q.roundsLeft c config t + 2 ≤ rounds) :
    q.guardedRounds c config s allowance rounds t = attempt (q.proceed c config s) t := by
  induction rounds generalizing t with
  | zero => exact absurd several (Nat.not_succ_le_zero _)
  | succ rounds ih =>
      cases cached : t.cursor.cache.entries with
      | cons entry others => exact guardedRounds_of_cached cached allowance rounds
      | nil =>
          rw [guardedRounds_of_spent cached]
          have tracked := @tracks_guardedRound q c config s t allowance cached enough
          cases done : q.guardedRound c config s allowance t with
          | error stop u =>
              obtain ⟨e, rfl, failed⟩ := Ends.of_error tracked done
              rw [bind_eq_of_error done, attempt, failed]
          | ok go u =>
              rw [bind_eq_of_ok done]
              cases Ends.of_ok tracked done with
              | rests spent result =>
                  rw [attempt_congr (result.trans (handOut_of_spent spent)), attempt_bind]
                  rfl
              | goesOn fewer result =>
                  rw [attempt_congr result]
                  cases left : u.cursor.cache.entries with
                  | nil =>
                      have fewer := fewer left
                      exact ih (by omega) (by omega)
                  | cons entry others =>
                      obtain ⟨rounds, rfl⟩ := Nat.exists_eq_succ_of_ne_zero (n := rounds) (by omega)
                      exact guardedRounds_of_cached left allowance rounds

end Rounds

section Loading

open StateBound (keeps_pure keeps_ofExcept keeps_bind keeps_ite)

/-- Operations that do not raise what a request can come to. -/
def unraised (q : Queue) : StateBound Turn where
  rel t u := u.ceiling q ≤ t.ceiling q
  refl _ := Nat.le_refl _
  trans first second := Nat.le_trans second first

variable {q c config s}

private theorem keeps_unraised_onStorage {α : Type} {act : StorageM α} {rows : Bytes → Prop}
    {v : Version} (kept : (Storage.touched rows v).Keeps act)
    (other : ¬ rows (RowKey.entryCounter.encode q.name)) :
    q.unraised.Keeps (Turn.onStorage act) := by
  intro t
  have ends := Turn.ends_onStorage (kept.ends t.storage)
  have same {u : Turn} (touched : (Storage.touched rows v).rel t.storage u.storage)
      (cursor : t.cursor = u.cursor) : u.ceiling q ≤ t.ceiling q := by
    rw [Turn.ceiling, Turn.ceiling, cursor, Table.standing, touched.1.counter _ other]
    exact Nat.le_refl _
  cases done : Turn.onStorage act t with
  | ok a u =>
      obtain ⟨touched, cursor⟩ := ends.of_ok done
      exact same touched cursor
  | error e u =>
      obtain ⟨touched, cursor⟩ := ends.of_error done
      exact same touched cursor

private theorem keeps_unraised_reading {α : Type} {act : StorageM α}
    (kept : (Storage.touched (fun _ => False) 0).Keeps act) :
    q.unraised.Keeps (Turn.onStorage act) := keeps_unraised_onStorage kept id

private theorem keeps_unraised_update {f : Cursor → Cursor}
    (lowers : ∀ k, (f k).writePointer ≤ k.writePointer) : q.unraised.Keeps (Turn.update f) := by
  intro t
  have lower := UInt64.le_iff_toNat_le.1 (lowers t.cursor)
  exact Nat.max_le.2 ⟨Nat.le_trans lower (Nat.le_max_left _ _), Nat.le_max_right _ _⟩

private theorem keeps_unraised_refresh : q.unraised.Keeps q.refresh := by
  intro t
  have looks : q.refresh t = q.look (fun _ => true) t := rfl
  rw [looks]
  cases done : q.look (fun _ => true) t with
  | ok _ u => exact ceiling_of_looked ((q.ends_looked _ t).of_ok done)
  | error e u => exact ceiling_of_looked ((q.ends_looked _ t).of_error done)

theorem keeps_unraised_ensureLoaded : q.unraised.Keeps (q.ensureLoaded c config s) := by
  have now : q.unraised.Keeps Turn.cursorNow := q.unraised.refl
  have apart : ¬ RowKey.entryCounter.encode q.name = (consumerRow c).encode q.name := fun same =>
    RowKey.noConfusion (RowKey.encode_injective same)
  have clears : q.unraised.Keeps (Turn.onStorage (q.put .clearActive (consumerRow c)
      [(.active, Bytes.ofUInt64 noEntry)] s.writeVersion)) :=
    keeps_unraised_onStorage (@keeps_put (· = (consumerRow c).encode q.name) _ q _ rfl _ _) apart
  have resumes (active : EntryId) : q.unraised.Keeps (q.resume c config s active) := by
    refine keeps_bind (keeps_unraised_reading (keeps_bind (q.keeps_view s .readEntries) fun view =>
      keeps_ofExcept _)) fun seen => ?_
    have pends : q.unraised.Keeps (Turn.update ({ · with pending := some active })) :=
      keeps_unraised_update fun _ => UInt64.le_refl _
    cases seen with
    | servable payload => exact keeps_unraised_update fun _ => UInt64.le_refl _
    | unseen => exact keeps_ite pends clears
    | retired => exact keeps_ite pends clears
  refine keeps_bind now fun k => keeps_ite (keeps_pure _) ?_
  refine keeps_bind (keeps_unraised_reading (q.keeps_view s .readConsumer)) fun view => ?_
  refine keeps_bind (keeps_ofExcept _) fun active => keeps_bind (keeps_ofExcept _) fun r => ?_
  refine keeps_bind (keeps_unraised_update fun _ => UInt64.zero_le) fun _ => ?_
  exact keeps_bind keeps_unraised_refresh fun _ => keeps_ite (keeps_pure _) (resumes active)

end Loading

section Whole

variable {q c config s}

/-- A request is the request under guard, if the allowance is beyond the write pointer that its cursor
remembers and the counter of entries: it ends within that many rounds, with an answer or a failure, and
meets no hazard. -/
theorem dequeue_meets_no_hazard (opens : q.Opens) {allowance : Nat}
    (enough : t.ceiling q + 3 ≤ allowance) :
    q.guardedDequeue allowance c config s t = attempt (q.dequeue c config s) t := by
  have short : (Bytes.ofText q.name).length < UInt16.size := opens.shortName
  rw [guardedDequeue, guarding_of short, pure_bind]
  refine attempt_bind_congr fun _ u valid => ?_
  obtain ⟨_, rfl⟩ := state_of_ofExcept valid
  refine attempt_bind_congr fun _ u member => ?_
  obtain ⟨_, rfl⟩ := state_of_ofExcept member
  refine attempt_bind_congr fun _ u loaded => ?_
  have within : u.ceiling q ≤ _ := (keeps_unraised_ensureLoaded.ends _).of_ok loaded
  have left := @roundsLeft_le q c config u
  exact guardedRounds_eq (by omega) (by omega)

end Whole

end Queue

/-- A member of a disjoint group near the end of the ids, with windows of one id.  Of the three ids that are
left the first holds a retired entry that falls to the member, the second one that falls to nobody, and the
last none. -/
def nearTop : Turn where
  storage.table := (({} : Table).recordAll ((RowKey.entry 0xfffffffffffffffd).encode "q")
      [(Column.state.encode, EntryState.invalid.encode),
        ((Column.header "k").encode, Bytes.ofInt32 0)] 1).recordAll
    ((RowKey.entry 0xfffffffffffffffe).encode "q")
      [(Column.state.encode, EntryState.valid.encode), (Column.payload.encode, [97])] 1
  cursor := { loaded := true, readPointer := 0xfffffffffffffffc, writePointer := 0xffffffffffffffff }

/-- The member passes two ids and waits before the last one. -/
theorem nearTop_ends :
    let q : Queue := ⟨"q", ⟨.hash, 1⟩⟩
    let c : Consumer := { group := 1, member := 0, groupSize := 1, partitioningKey := some "k" }
    let outcome := q.guardedDequeue (UInt64.size + 2) c ⟨.hash, 1⟩ (.upTo 1) nearTop
    (answer? outcome).map Delivery.isEmpty = some true ∧
      (stateAfter outcome).cursor.readPointer = 0xfffffffffffffffe := by
  intro q c outcome
  have opens : q.Opens := rfl
  have enough : nearTop.ceiling q + 3 ≤ UInt64.size + 2 := by with_unfolding_all decide
  have same : outcome = attempt (q.dequeue c ⟨.hash, 1⟩ (.upTo 1)) nearTop :=
    Queue.dequeue_meets_no_hazard opens enough
  rw [same]
  with_unfolding_all decide

end VersionedQueue
