import VersionedQueue.Proofs.Storage.Inherited
import VersionedQueue.Proofs.Storage.Reliable

/-!
# The same request on storage that works

A request that is answered, although calls may be made to fail, is answered in the same way where no
call fails.  Where no call fails, a request depends on the table and the cursor alone: it fails in the
same way too.
-/

set_option autoImplicit false
set_option relaxedAutoImplicit false

namespace VersionedQueue

variable {α β : Type}

theorem Table.Alike.symm {t t' : Table} (h : t.Alike t') : t'.Alike t where
  history row column := (h.history row column).symm
  counter row column := (h.counter row column).symm
  refuses := h.refuses.symm

theorem Table.Alike.record {t t' : Table} (h : t.Alike t') (row column : Bytes) (v : Version)
    (x : Option Bytes) : (t.record row column v x).Alike (t'.record row column v x) where
  history r c := by rw [history_record, history_record, h.history, h.history]
  counter r c := h.counter r c
  refuses := h.refuses

theorem Table.Alike.recordAll {t t' : Table} (h : t.Alike t') (row : Bytes) (v : Version)
    (cells : List (Bytes × Bytes)) :
    (t.recordAll row cells v).Alike (t'.recordAll row cells v) := by
  induction cells generalizing t t' with
  | nil => exact h
  | cons cell cells ih => exact ih (h.record row cell.1 v (some cell.2))

theorem Table.Alike.setCounter {t t' : Table} (h : t.Alike t') (row column : Bytes) (value : Int64) :
    (t.setCounter row column value).Alike (t'.setCounter row column value) where
  history r c := h.history r c
  counter r c := by rw [counter_setCounter, counter_setCounter, h.counter]
  refuses := h.refuses

namespace Turn

/-- The tables are alike, and the cursor is the same. -/
def Alike (t t' : Turn) : Prop :=
  t.storage.table.Alike t'.storage.table ∧ t'.cursor = t.cursor

/-- No call is made to fail. -/
def Calm (t : Turn) : Prop := t.storage.plan = .none

theorem Alike.refl (t : Turn) : t.Alike t := ⟨.refl _, rfl⟩

theorem Alike.symm {t t' : Turn} (h : t.Alike t') : t'.Alike t := ⟨h.1.symm, h.2.symm⟩

theorem Alike.trans {t t' t'' : Turn} (first : t.Alike t') (second : t'.Alike t'') : t.Alike t'' :=
  ⟨first.1.trans second.1, second.2.trans first.2⟩

/-- Let no later call fail. -/
def repair (t : Turn) : Turn := { t with storage := t.storage.repair }

theorem calm_repair (t : Turn) : t.repair.Calm := rfl

theorem alike_repair (t : Turn) : t.Alike t.repair := .refl t

/-- Two requests end in the same way, and leave turns that are alike. -/
inductive Agree : EStateM.Result QueueError Turn α → EStateM.Result QueueError Turn α → Prop
  | ok {a : α} {t t' : Turn} : t.Alike t' → Agree (.ok a t) (.ok a t')
  | error {e : QueueError} {t t' : Turn} : t.Alike t' → Agree (.error e t) (.error e t')

namespace Agree

variable {r r' r'' : EStateM.Result QueueError Turn α}

theorem symm (h : Agree r r') : Agree r' r := by
  cases h with
  | ok same => exact .ok same.symm
  | error same => exact .error same.symm

theorem trans (first : Agree r r') (second : Agree r' r'') : Agree r r'' := by
  cases first with
  | ok same =>
      cases second with
      | ok same' => exact .ok (same.trans same')
  | error same =>
      cases second with
      | error same' => exact .error (same.trans same')

theorem of_ok {a : α} {t : Turn} (h : Agree (.ok a t) r) : ∃ t', r = .ok a t' ∧ t.Alike t' := by
  cases h with
  | ok same => exact ⟨_, rfl, same⟩

end Agree

end Turn

/-- A result is an answer. -/
def Answered (r : EStateM.Result QueueError Turn α) : Prop := ∃ a t, r = .ok a t

/-- An operation does the same on turns that are alike if no call fails on the second, and none on the
first or the operation is answered there. -/
structure Mirrored (act : TurnM α) : Prop where
  plan : ∀ t, (stateAfter (act t)).storage.plan = t.storage.plan
  agree : ∀ {t t' : Turn}, t.Alike t' → t'.Calm → Answered (act t) ∨ t.Calm →
    Turn.Agree (act t) (act t')

namespace Mirrored

theorem calm {act : TurnM α} (h : Mirrored act) {t : Turn} (calm : t.Calm) :
    (stateAfter (act t)).Calm :=
  (h.plan t).trans calm

theorem pure (a : α) : Mirrored (Pure.pure a : TurnM α) where
  plan _ := rfl
  agree same _ _ := .ok same

theorem throw (e : QueueError) : Mirrored (MonadExcept.throw e : TurnM α) where
  plan _ := rfl
  agree same _ _ := .error same

theorem bind {act : TurnM α} {next : α → TurnM β} (first : Mirrored act)
    (second : ∀ a, Mirrored (next a)) : Mirrored (act >>= next) where
  plan t := by
    have begun := first.plan t
    change (stateAfter (EStateM.bind act next t)).storage.plan = _
    unfold EStateM.bind
    cases done : act t with
    | error e u =>
        rw [done] at begun
        exact begun
    | ok a u =>
        rw [done] at begun
        exact ((second a).plan u).trans begun
  agree {t t'} same calm' ends := by
    have kept := first.plan t
    have kept' := first.calm calm'
    change Turn.Agree (EStateM.bind act next t) (EStateM.bind act next t')
    change Answered (EStateM.bind act next t) ∨ _ at ends
    unfold EStateM.bind at ends ⊢
    cases done : act t with
    | error e u =>
        rw [done] at ends
        have quiet : t.Calm := ends.resolve_left fun ⟨_, _, answered⟩ => by cases answered
        have agree := first.agree same calm' (.inr quiet)
        rw [done] at agree
        cases done' : act t' with
        | ok a u' =>
            rw [done'] at agree
            cases agree
        | error e' u' =>
            rw [done'] at agree
            cases agree with
            | error same' => exact .error same'
    | ok a u =>
        rw [done] at ends kept
        have agree := first.agree same calm' (.inl ⟨a, u, done⟩)
        rw [done] at agree
        obtain ⟨u', done', same'⟩ := agree.of_ok
        rw [done'] at kept' ⊢
        exact (second a).agree same' kept' (ends.imp_right fun quiet => kept.trans quiet)

theorem agree_bind {act : TurnM α} {next : α → TurnM β} (first : Mirrored act)
    (second : ∀ a, Mirrored (next a)) {t t' : Turn} (calm : t.Calm) (calm' : t'.Calm)
    (agree : Turn.Agree (act t) (act t')) :
    Turn.Agree ((act >>= next) t) ((act >>= next) t') := by
  have kept := first.calm calm
  have kept' := first.calm calm'
  change Turn.Agree (EStateM.bind act next t) (EStateM.bind act next t')
  unfold EStateM.bind
  cases done : act t with
  | ok a u =>
      rw [done] at agree kept
      obtain ⟨u', done', same⟩ := agree.of_ok
      rw [done'] at kept' ⊢
      exact (second a).agree same kept' (.inr kept)
  | error e u =>
      cases done' : act t' with
      | ok a u' =>
          rw [done, done'] at agree
          cases agree
      | error e' u' =>
          rw [done, done'] at agree
          cases agree with
          | error same => exact .error same

theorem of_call (purpose : Purpose) (kind : Access) {act : TableM α} (h : Coupled Table.Alike act) :
    Mirrored (Turn.onStorage (Storage.call purpose kind act)) where
  plan t := by
    simp only [Turn.onStorage, Storage.call]
    cases t.storage.plan kind (t.storage.calls.count kind)
    · cases act t.storage.table with
      | ok answer => rfl
      | error e => rfl
    · rfl
  agree {t t'} same calm' ends := by
    have agree := h same.1
    have works' : t'.storage.plan kind (t'.storage.calls.count kind) = false := by
      rw [calm']
      rfl
    simp only [Turn.onStorage, Storage.call] at ends ⊢
    rw [works']
    cases fails : t.storage.plan kind (t.storage.calls.count kind) with
    | true =>
        rw [fails] at ends
        rcases ends with ⟨_, _, answered⟩ | quiet
        · cases answered
        · rw [quiet] at fails
          cases fails
    | false =>
        cases done : act t.storage.table with
        | ok answer u =>
            rw [done] at agree
            obtain ⟨u', done', same'⟩ := agree.of_ok
            rw [done']
            exact .ok ⟨same', same.2⟩
        | error e u =>
            rw [done] at agree
            obtain ⟨u', done', same'⟩ := agree.of_error
            rw [done']
            exact .error ⟨same', same.2⟩

theorem of_repeats {pass : TurnM Pass} {fetch : TurnM Unit} (repeats : Repeats pass fetch)
    (h : Mirrored pass) : Mirrored fetch where
  plan t := by
    induction t using repeats.induct with
    | passed t u done ih =>
        have begun := h.plan t
        rw [done] at begun
        rw [repeats.passed done, ih]
        exact begun
    | found t u entries done =>
        have begun := h.plan t
        rw [done] at begun
        rw [repeats.found done]
        exact begun
    | exhausted t u done =>
        have begun := h.plan t
        rw [done] at begun
        rw [repeats.exhausted done]
        exact begun
    | failed t u e done =>
        have begun := h.plan t
        rw [done] at begun
        rw [repeats.failed done]
        exact begun
  agree {t t'} same calm' ends := by
    induction t using repeats.induct generalizing t' with
    | passed t u done ih =>
        have agree := h.agree same calm' (.inl ⟨_, u, done⟩)
        have begun := h.plan t
        have begun' := h.calm calm'
        rw [done] at agree begun
        obtain ⟨u', done', same'⟩ := agree.of_ok
        rw [done'] at begun'
        rw [repeats.passed done] at ends
        rw [repeats.passed done, repeats.passed done']
        exact ih same' begun' (ends.imp_right fun quiet => begun.trans quiet)
    | found t u entries done =>
        have agree := h.agree same calm' (.inl ⟨_, u, done⟩)
        rw [done] at agree
        obtain ⟨u', done', same'⟩ := agree.of_ok
        rw [repeats.found done, repeats.found done']
        refine .ok ⟨same'.1, ?_⟩
        rw [same'.2]
    | exhausted t u done =>
        have agree := h.agree same calm' (.inl ⟨_, u, done⟩)
        rw [done] at agree
        obtain ⟨u', done', same'⟩ := agree.of_ok
        rw [repeats.exhausted done, repeats.exhausted done']
        exact .ok same'
    | failed t u e done =>
        rw [repeats.failed done] at ends
        have quiet : t.Calm := ends.resolve_left fun ⟨_, _, answered⟩ => by cases answered
        have agree := h.agree same calm' (.inr quiet)
        rw [done] at agree
        cases done' : pass t' with
        | ok a u' =>
            rw [done'] at agree
            cases agree
        | error e' u' =>
            rw [done'] at agree
            cases agree with
            | error same' =>
                rw [repeats.failed done, repeats.failed done']
                exact .error same'

theorem agree_repeats {pass : TurnM Pass} {fetch : TurnM Unit} (repeats : Repeats pass fetch)
    (h : Mirrored pass) {t t' : Turn} (calm : t.Calm) (calm' : t'.Calm)
    (agree : Turn.Agree (pass t) (pass t')) : Turn.Agree (fetch t) (fetch t') := by
  have kept := h.calm calm
  have kept' := h.calm calm'
  cases done : pass t with
  | error e u =>
      cases done' : pass t' with
      | ok answer u' =>
          rw [done, done'] at agree
          cases agree
      | error e' u' =>
          rw [done, done'] at agree
          cases agree with
          | error same =>
              rw [repeats.failed done, repeats.failed done']
              exact .error same
  | ok answer u =>
      rw [done] at agree kept
      obtain ⟨u', done', same⟩ := agree.of_ok
      rw [done'] at kept'
      cases answer with
      | passed =>
          rw [repeats.passed done, repeats.passed done']
          exact (of_repeats repeats h).agree same kept' (.inr kept)
      | found entries =>
          rw [repeats.found done, repeats.found done']
          refine .ok ⟨same.1, ?_⟩
          rw [same.2]
      | exhausted =>
          rw [repeats.exhausted done, repeats.exhausted done']
          exact .ok same

/-- To be mirrored, as a property that requests inherit. -/
def inherited : Inherited where
  Of := Mirrored
  Throws _ := True
  pure := Mirrored.pure
  throw _ := Mirrored.throw _
  bind := Mirrored.bind

end Mirrored

namespace Queue

variable (q : Queue) (c : Consumer) (config : Config) (s : Snapshot)

theorem mirrored_view (purpose : Purpose) : Mirrored (Turn.onStorage (q.view purpose s)) := by
  unfold view Storage.view
  rw [Turn.onStorage_bind]
  exact .bind (.of_call _ _ (TableM.coupled_view (·.read s))) fun _ => .pure _

theorem mirrored_count (purpose : Purpose) (key : RowKey) (delta : Int64) :
    Mirrored (Turn.onStorage (q.count purpose key delta)) := by
  unfold count Storage.increment
  rw [Turn.onStorage_bind]
  refine .bind (.of_call _ _ (TableM.coupled_increment (·.refuses) (·.counter _ _)
    (·.setCounter _ _))) fun value => ?_
  cases counterId? value with
  | none => exact .throw _
  | some id => exact .pure _

theorem mirrored_put (purpose : Purpose) (key : RowKey) (cells : List (Column × Bytes))
    (v : Version) : Mirrored (Turn.onStorage (q.put purpose key cells v)) :=
  .of_call _ _ (TableM.coupled_put (·.recordAll _ _ _))

theorem admits_mirrored : Mirrored.inherited.Admits q s where
  cursorNow := ⟨fun _ => rfl, fun {t t'} same _ _ => by
    change Turn.Agree (.ok t.cursor t) (.ok t'.cursor t')
    rw [same.2]
    exact .ok same⟩
  update f := ⟨fun _ => rfl, fun {_ _} same _ _ => .ok ⟨same.1, by rw [same.2]⟩⟩
  view purpose _ := q.mirrored_view s purpose
  peek purpose key _ := q.mirrored_count purpose key 0
  corrupted _ _ := trivial
  repeats := Mirrored.of_repeats

theorem mirrored_refill : Mirrored (q.refill c config s) :=
  (q.admits_mirrored s).refill c config (q.mirrored_count _ _ 1)

theorem mirrored_load : Mirrored (q.load c config s) :=
  (q.admits_mirrored s).load c config fun purpose cells _ => q.mirrored_put purpose _ cells _

theorem mirrored_ensureLoaded : Mirrored (q.ensureLoaded c config s) :=
  (q.admits_mirrored s).ensureLoaded c config fun purpose cells _ => q.mirrored_put purpose _ cells _

theorem mirrored_handOut : Mirrored (q.handOut c config s) :=
  (q.admits_mirrored s).handOut c config fun purpose cells _ => q.mirrored_put purpose _ cells _

/-- A request for an entry is answered on storage that works as it is answered elsewhere. -/
theorem mirrored_dequeue : Mirrored (q.dequeue c config s) :=
  (q.admits_mirrored s).dequeue c config (fun _ => trivial) (q.mirrored_count _ _ 1)
    fun purpose cells _ => q.mirrored_put purpose _ cells _

end Queue

end VersionedQueue
