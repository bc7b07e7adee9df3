import VersionedQueue.Proofs.Run.Confined
import VersionedQueue.Proofs.Run.Opened

/-!
# Sessions

In a session the cursors are not given beforehand: a step passes on the cursor that an earlier step left
in a slot.  So a session can be compared with the one that is left when some of its steps are taken out.
Both go the same way for the other steps, if no step that is taken out touches a row that another step is
answered from, or fills a slot that another step looks into.
-/

set_option autoImplicit false
set_option relaxedAutoImplicit false

namespace VersionedQueue

/-- The same request with another cursor, if it passes one. -/
def Request.passing : Request → Cursor → Request
  | .dequeue c config _ s, cursor => .dequeue c config cursor s
  | request, _ => request

/-- A call of a session.  It passes the cursor in the slot that it takes, or else its own, and leaves a
cursor in the slot that it fills, if any. -/
structure Step where
  call : Call
  takes : Option Nat := none
  fills : Option Nat := none

/-- A table and the cursors that are kept in slots. -/
structure World where
  storage : Storage := {}
  slots : Nat → Cursor := fun _ => .fresh

namespace Step

variable (step : Step) (w : World)

/-- The call as it is made. -/
def made : Call :=
  match step.takes with
  | none => step.call
  | some slot => { step.call with request := step.call.request.passing (w.slots slot) }

def outcome : Outcome := (step.made w).perform w.storage

def after : World where
  storage := (step.outcome w).storage
  slots slot := if step.fills = some slot then (step.outcome w).cursor else w.slots slot

end Step

/-- The steps of a session in order, each with its answer and the cursor that it leaves. -/
def session (w : World) : List Step → List (Step × Except QueueError Answer × Cursor)
  | [] => []
  | step :: rest =>
      (step, (step.outcome w).answer, (step.outcome w).cursor) :: session (step.after w) rest

theorem run_of_session {past : List Event} (run : Run (fun _ _ => True) past) (w : World)
    (found : w.storage = storageAfter past) (steps : List Step) :
    ∃ events : List Event, Run (fun _ _ => True) (events.reverse ++ past) ∧
      events.map (fun e => (e.outcome.answer, e.outcome.cursor)) =
        (session w steps).map (·.2) := by
  induction steps generalizing past w with
  | nil => exact ⟨[], run, rfl⟩
  | cons step rest ih =>
      have next : Run (fun _ _ => True) (⟨step.made w, storageAfter past⟩ :: past) :=
        .next run trivial
      have left : (step.after w).storage =
          storageAfter (⟨step.made w, storageAfter past⟩ :: past) := by
        simp only [storageAfter, Event.after, Event.outcome, Step.after, Step.outcome, found]
      obtain ⟨events, whole, same⟩ := ih next (step.after w) left
      refine ⟨⟨step.made w, storageAfter past⟩ :: events, by simpa using whole, ?_⟩
      rw [List.map_cons, same]
      simp only [session, List.map_cons, Event.outcome, Step.outcome, found]

section Apart

variable {rows : Bytes → Prop} {slots : Nat → Prop} {step : Step} {w w' : World}

/-- Two worlds agree on some rows and some slots. -/
structure World.AgreeOn (rows : Bytes → Prop) (slots : Nat → Prop) (w w' : World) : Prop where
  table : w.storage.table.AgreeOn rows w'.storage.table
  slot : ∀ slot, slots slot → w'.slots slot = w.slots slot

/-- A step depends on some rows and some slots only. -/
def Step.DependsOn (rows : Bytes → Prop) (slots : Nat → Prop) (step : Step) : Prop :=
  (∀ key, step.call.request.Uses key → rows (key.encode step.call.queue.name)) ∧
    ∀ slot, step.takes = some slot → slots slot

/-- A step leaves some rows and some slots as they are. -/
def Step.LeavesAlone (rows : Bytes → Prop) (slots : Nat → Prop) (step : Step) : Prop :=
  (∀ row, rows row → ¬ step.call.Touches row) ∧ ∀ slot, slots slot → step.fills ≠ some slot

theorem Request.passing_uses {request : Request} {cursor : Cursor} {key : RowKey} :
    (request.passing cursor).Uses key ↔ request.Uses key := by
  cases request <;> rfl

theorem Request.passing_touches {request : Request} {cursor : Cursor} {key : RowKey} :
    (request.passing cursor).Touches key ↔ request.Touches key := by
  cases request <;> rfl

theorem Step.made_queue : (step.made w).queue = step.call.queue := by
  unfold made
  split <;> rfl

theorem Step.made_plan : (step.made w).plan = step.call.plan := by
  unfold made
  split <;> rfl

theorem Step.made_uses {key : RowKey} :
    (step.made w).request.Uses key ↔ step.call.request.Uses key := by
  unfold made
  split
  · rfl
  · exact Request.passing_uses

theorem Step.made_touches {row : Bytes} : (step.made w).Touches row ↔ step.call.Touches row := by
  unfold made
  split
  · rfl
  · simp only [Call.Touches, Request.passing_touches]

theorem World.AgreeOn.made (agree : w.AgreeOn rows slots w') (depends : step.DependsOn rows slots) :
    step.made w' = step.made w := by
  unfold Step.made
  cases taken : step.takes with
  | none => rfl
  | some slot => simp only [agree.slot slot (depends.2 slot taken)]

theorem World.AgreeOn.outcome (agree : w.AgreeOn rows slots w') (calm : step.call.plan = .none)
    (depends : step.DependsOn rows slots) :
    Outcome.AgreeOn rows (step.outcome w) (step.outcome w') := by
  rw [Step.outcome, Step.outcome, agree.made depends]
  refine Call.agreeOn_perform (Step.made_plan.trans calm) (fun key uses => ?_) agree.table
  rw [Step.made_queue]
  exact depends.1 key (Step.made_uses.1 uses)

theorem World.AgreeOn.after (agree : w.AgreeOn rows slots w') (calm : step.call.plan = .none)
    (depends : step.DependsOn rows slots) : (step.after w).AgreeOn rows slots (step.after w') where
  table := (agree.outcome calm depends).table
  slot slot inside := by
    simp only [Step.after, (agree.outcome calm depends).cursor, agree.slot slot inside]

theorem World.AgreeOn.after_left (agree : w.AgreeOn rows slots w')
    (spares : step.LeavesAlone rows slots) : (step.after w).AgreeOn rows slots w' where
  table := by
    refine Table.AgreeOn.trans (Table.AgreeOn.symm ?_) agree.table
    exact .of_touched ((step.made w).touched_perform w.storage) fun row inside touches =>
      spares.1 row inside (Step.made_touches.1 touches)
  slot slot inside := by
    simp only [Step.after, if_neg (spares.2 slot inside), agree.slot slot inside]

variable {stays : Step → Bool} {steps : List Step}

theorem World.AgreeOn.session (agree : w.AgreeOn rows slots w')
    (stay : ∀ step ∈ steps, stays step = true →
      step.call.plan = .none ∧ step.DependsOn rows slots)
    (leave : ∀ step ∈ steps, stays step = false → step.LeavesAlone rows slots) :
    (session w steps).filter (stays ·.1) = session w' (steps.filter stays) := by
  induction steps generalizing w w' with
  | nil => rfl
  | cons step rest ih =>
      have stay' := fun other mem => stay other (List.mem_cons_of_mem step mem)
      have leave' := fun other mem => leave other (List.mem_cons_of_mem step mem)
      cases kept : stays step with
      | true =>
          obtain ⟨calm, depends⟩ := stay step List.mem_cons_self kept
          have outcome := agree.outcome calm depends
          simp only [VersionedQueue.session, List.filter_cons, kept, if_true]
          rw [ih (agree.after calm depends) stay' leave', outcome.answer, outcome.cursor]
      | false =>
          have spares := leave step List.mem_cons_self kept
          simp only [VersionedQueue.session, List.filter_cons, kept]
          exact ih (agree.after_left spares) stay' leave'

/-- Nothing that one step depends on is touched or filled by another one. -/
def Step.ApartFrom (step other : Step) : Prop :=
  (∀ key, step.call.request.Uses key →
      ¬ other.call.Touches (key.encode step.call.queue.name)) ∧
    ∀ slot, step.takes = some slot → other.fills ≠ some slot

/-- Steps can be taken out of a session unnoticed if no other step depends on what they do. -/
theorem session_filter (w : World)
    (calm : ∀ step ∈ steps, stays step = true → step.call.plan = .none)
    (apart : ∀ step ∈ steps, ∀ other ∈ steps, stays step = true → stays other = false →
      step.ApartFrom other) :
    (session w steps).filter (stays ·.1) = session w (steps.filter stays) := by
  -- The worlds agree on what no step that is taken out touches or fills.
  let rows (row : Bytes) : Prop :=
    ∀ other ∈ steps, stays other = false → ¬ other.call.Touches row
  let slots (slot : Nat) : Prop :=
    ∀ other ∈ steps, stays other = false → other.fills ≠ some slot
  have agree : w.AgreeOn rows slots w := ⟨.refl rows _, fun _ _ => rfl⟩
  refine agree.session (fun step mem kept => ⟨calm step mem kept, fun key uses => ?_, ?_⟩)
    fun step mem gone => ⟨fun row inside => inside step mem gone,
      fun slot inside => inside step mem gone⟩
  · exact fun other mem' gone => (apart step mem other mem' kept gone).1 key uses
  · exact fun slot taken other mem' gone => (apart step mem other mem' kept gone).2 slot taken

end Apart

end VersionedQueue
